import Yank.ClipboardHistory

/-!
# The clipboard service

The state machine decides what should happen and returns effects; the service
performs them under the lock of the clipboard, so that the disk, the compositor
and the file service see changes in the order they happened.

A write to disk may fail. It is logged and nothing else: the file keeps what the
last write that worked left there, since it is replaced by a rename. What a
restart resumes from is the file and never the board.
-/

namespace Yank

/-- What the clipboard asks the file service for. -/
inductive Job (Id : Type) where
  | record (base : WithBot (Stamp Id)) (captured : Captured) (paths : List Path)
  | copy (paths : List Path) (ttl : Option Duration)
  | fetch (stamp : Stamp Id)
  | sweep
deriving DecidableEq

/-- The clipboard of one machine with everything it writes to. -/
structure Service (Id Hash : Type) where
  board : Clipboard Id Hash
  /-- The clip in the file. -/
  disk : Option (Clip Id Hash)
  /-- The stamp announced to the peers. -/
  head : WithBot (Stamp Id)
  /-- Jobs the file service has not taken yet, the next one first. -/
  jobs : List (Job Id)
  /-- Commands the compositor connection has not performed yet, the next one
  first; `none` without a connection. -/
  backend : Option (List Command)

/-- Records a selection the compositor reported, with the files it named, and
answers the clip it leaves, `⊥` when dropped. Dropped when another copy replaced
the clip since `base` was read; the clip the previous record made, `recorded`,
does not count. -/
def Clipboard.record {Id Hash : Type} [LinearOrder Id] [ContentHash Hash] [DecidableEq Hash]
    (clock : Clock) (base recorded : WithBot (Stamp Id)) (capture : Captured)
    (files : List (Files.FileRef Hash)) (board : Clipboard Id Hash) :
    Outcome Id Hash × WithBot (Stamp Id) :=
  if board.head ≠ base ∧ board.head ≠ recorded then ((board, .ok []), ⊥)
  else
    let outcome := board.captured clock capture files
    (outcome, outcome.1.head)

namespace Service

variable {Id Hash : Type}

/-- Hands a command to the compositor, if there is one. -/
def toBackend (command : Command) (service : Service Id Hash) : Service Id Hash :=
  { service with backend := service.backend.map (fun queued => queued ++ [command]) }

/-- Queues a job. -/
def send (job : Job Id) (service : Service Id Hash) : Service Id Hash :=
  { service with jobs := service.jobs ++ [job] }

/-- Writes the clip to the file, when the disk takes it. -/
def save (saves : Bool) (service : Service Id Hash) : Service Id Hash :=
  if saves then { service with disk := service.board.saved } else service

/-- Performs one effect. The files of a clip that was replaced go with it. -/
def perform (saves : Bool) (service : Service Id Hash) : Effect Id → Service Id Hash
  | .save => (service.save saves).send .sweep
  | .backend command => service.toBackend command
  | .fetch stamp => service.send (.fetch stamp)

/-- Runs a mutation and performs what it asked for. -/
def tryChange (saves : Bool) (outcome : Outcome Id Hash) (service : Service Id Hash) :
    Service Id Hash × Except Failure Unit :=
  let changed := { service with board := outcome.1 }
  match outcome.2 with
  | .error failure => (changed, .error failure)
  | .ok [] => (changed, .ok ())
  | .ok effects =>
      ({ effects.foldl (perform saves) changed with head := changed.board.head }, .ok ())

/-- The job an effect leaves in the queue. -/
def jobOf : Effect Id → Option (Job Id)
  | .save => some .sweep
  | .backend _ => none
  | .fetch stamp => some (.fetch stamp)

/-- Whether an effect writes the file. -/
def isSave : Effect Id → Bool
  | .save => true
  | _ => false

/-- Performing an effect leaves the clipboard. -/
@[simp] theorem perform_board (saves : Bool) (service : Service Id Hash) (effect : Effect Id) :
    (service.perform saves effect).board = service.board := by
  cases effect <;> cases saves <;> rfl

/-- The queue grows by the job of the effect. -/
theorem perform_jobs (saves : Bool) (service : Service Id Hash) (effect : Effect Id) :
    (service.perform saves effect).jobs = service.jobs ++ (jobOf effect).toList := by
  cases effect <;> cases saves <;> simp [perform, send, save, toBackend, jobOf]

/-- Only a save writes the file, and it writes what the board saves. -/
theorem perform_disk (saves : Bool) (service : Service Id Hash) (effect : Effect Id) :
    (service.perform saves effect).disk =
      if saves && isSave effect then service.board.saved else service.disk := by
  cases effect <;> cases saves <;> rfl

/-- So does performing several. -/
@[simp] theorem performAll_board (saves : Bool) (effects : List (Effect Id))
    (service : Service Id Hash) :
    (effects.foldl (perform saves) service).board = service.board := by
  induction effects generalizing service with
  | nil => rfl
  | cons effect effects inductionHypothesis =>
    rw [List.foldl_cons, inductionHypothesis, perform_board]

/-- The jobs they ask for are queued in order. -/
theorem performAll_jobs (saves : Bool) (effects : List (Effect Id))
    (service : Service Id Hash) :
    (effects.foldl (perform saves) service).jobs = service.jobs ++ effects.filterMap jobOf := by
  induction effects generalizing service with
  | nil => simp
  | cons effect effects inductionHypothesis =>
    rw [List.foldl_cons, inductionHypothesis, perform_jobs, List.append_assoc,
      List.filterMap_cons]
    cases jobOf effect <;> rfl

/-- What is on disk is the clip, if one of them saved it. -/
theorem performAll_disk (saves : Bool) (effects : List (Effect Id))
    (service : Service Id Hash) :
    (effects.foldl (perform saves) service).disk =
      if saves && effects.any isSave then service.board.saved else service.disk := by
  induction effects generalizing service with
  | nil => simp
  | cons effect effects inductionHypothesis =>
    rw [List.foldl_cons, inductionHypothesis, perform_board, perform_disk, List.any_cons]
    cases saves <;> cases isSave effect <;> cases effects.any isSave <;> rfl

/-- A change leaves the clipboard that came of it. -/
@[simp] theorem tryChange_board (saves : Bool) (outcome : Outcome Id Hash)
    (service : Service Id Hash) : (service.tryChange saves outcome).1.board = outcome.1 := by
  obtain ⟨board, failure | effects⟩ := outcome
  · rfl
  · cases effects with
    | nil => rfl
    | cons effect effects => simp [tryChange]

/-- Its jobs are queued. -/
theorem tryChange_jobs (saves : Bool) (outcome : Outcome Id Hash) (service : Service Id Hash) :
    (service.tryChange saves outcome).1.jobs =
      service.jobs ++ (effectsOf outcome).filterMap jobOf := by
  obtain ⟨board, failure | effects⟩ := outcome
  · simp [tryChange, effectsOf]
  · cases effects with
    | nil => simp [tryChange, effectsOf]
    | cons effect effects =>
      exact performAll_jobs saves (effect :: effects) { service with board }

/-- And its clip is on disk, if it is saved. -/
theorem tryChange_disk (saves : Bool) (outcome : Outcome Id Hash) (service : Service Id Hash) :
    (service.tryChange saves outcome).1.disk =
      if saves && (effectsOf outcome).any isSave then outcome.1.saved else service.disk := by
  obtain ⟨board, failure | effects⟩ := outcome
  · simp [tryChange, effectsOf]
  · cases effects with
    | nil => simp [tryChange, effectsOf]
    | cons effect effects =>
      exact performAll_disk saves (effect :: effects) { service with board }

/-- A change that asks for a save leaves a sweep in the queue. -/
theorem tryChange_sweeps (saves : Bool) (outcome : Outcome Id Hash) (service : Service Id Hash)
    (asked : (effectsOf outcome).any isSave = true) :
    Job.sweep ∈ (service.tryChange saves outcome).1.jobs := by
  obtain ⟨effect, member, isSaved⟩ := List.any_eq_true.mp asked
  rw [tryChange_jobs]
  refine List.mem_append_right _ (List.mem_filterMap.mpr ⟨effect, member, ?_⟩)
  cases effect with
  | save => rfl
  | backend command => cases isSaved
  | fetch stamp => cases isSaved

/-- Where what changed the clip asked for a save that succeeds, the file is what the
board saves. -/
theorem tryChange_current (outcome : Outcome Id Hash) (service : Service Id Hash)
    (current : service.disk = service.board.saved)
    (asked : outcome.1.clip = service.board.clip ∨ (effectsOf outcome).any isSave = true) :
    (service.tryChange true outcome).1.disk = (service.tryChange true outcome).1.board.saved := by
  rw [tryChange_disk, tryChange_board]
  cases saved : (effectsOf outcome).any isSave with
  | true => rfl
  | false =>
    cases asked with
    | inl kept => simp [current, Clipboard.saved, kept]
    | inr impossible =>
      rw [saved] at impossible
      cases impossible

/-- What is queued stays queued. -/
theorem tryChange_queued (saves : Bool) (outcome : Outcome Id Hash) (service : Service Id Hash)
    (job : Job Id) (queued : job ∈ service.jobs) :
    job ∈ (service.tryChange saves outcome).1.jobs := by
  rw [tryChange_jobs]
  exact List.mem_append_left _ queued

section Order
variable [LinearOrder Id] [ContentHash Hash]

/-- Loads the saved clip and starts the service. -/
def opened (saves : Bool) (clock : Clock) (identity : Id) (settings : Settings)
    (disk : Option (Clip Id Hash)) : Service Id Hash :=
  let board := Clipboard.new clock identity settings disk
  let service : Service Id Hash :=
    { board, disk, head := board.head, jobs := [], backend := none }
  -- What expired while the daemon was down leaves the disk now.
  (service.tryChange saves (board, .ok [.save])).1

/-- A service has the clipboard that its file opens with. -/
@[simp] theorem opened_board (saves : Bool) (clock : Clock) (identity : Id) (settings : Settings)
    (disk : Option (Clip Id Hash)) :
    (opened saves clock identity settings disk).board =
      Clipboard.new clock identity settings disk := by
  simp [opened]

/-- A saved clip is written back as it was opened. -/
theorem opened_disk (saves : Bool) (clock : Clock) (identity : Id) (settings : Settings)
    (disk : Option (Clip Id Hash)) :
    (opened saves clock identity settings disk).disk =
      if saves then (Clipboard.new clock identity settings disk).saved else disk := by
  simp [opened, tryChange_disk, effectsOf, isSave]

/-- A sweep comes first. -/
theorem opened_jobs (saves : Bool) (clock : Clock) (identity : Id) (settings : Settings)
    (disk : Option (Clip Id Hash)) :
    (opened saves clock identity settings disk).jobs = [.sweep] := by
  simp [opened, tryChange_jobs, effectsOf, jobOf]

variable [DecidableEq Hash]

/-- One event on the machine: an operation with its effects performed, or a
restart from the file. -/
def act (saves : Bool) (service : Service Id Hash) (event : Clipboard.Event Id Hash) :
    Service Id Hash :=
  match event with
  | .restart clock settings => opened saves clock service.board.origin settings service.disk
  | event => (service.tryChange saves (service.board.step event)).1

/-- A mutation that changes the clip asks for a save. -/
theorem step_saves (board : Clipboard Id Hash) (event : Clipboard.Event Id Hash) :
    (board.step event).1.clip = board.clip ∨
      (effectsOf (board.step event)).any isSave = true ∨
      ∃ clock settings, event = .restart clock settings := by
  obtain kept | ⟨rest, first⟩ | restarted := board.saves_first event
  · exact Or.inl kept
  · rw [first]
    exact Or.inr (Or.inl rfl)
  · exact Or.inr (Or.inr restarted)

/-- All but a restart is an operation with its effects performed. -/
theorem act_running (saves : Bool) (service : Service Id Hash) (event : Clipboard.Event Id Hash)
    (running : ¬ ∃ clock settings, event = .restart clock settings) :
    service.act saves event = (service.tryChange saves (service.board.step event)).1 := by
  cases event with
  | restart clock settings => exact absurd ⟨clock, settings, rfl⟩ running
  | _ => rfl

/-- An event that leaves no sweep in the queue leaves the clip alone. -/
theorem act_sweeps (saves : Bool) (service : Service Id Hash) (event : Clipboard.Event Id Hash) :
    (service.act saves event).board.clip = service.board.clip ∨
      Job.sweep ∈ (service.act saves event).jobs := by
  by_cases restarts : ∃ clock settings, event = .restart clock settings
  · obtain ⟨clock, settings, rfl⟩ := restarts
    right
    change Job.sweep ∈ (opened saves clock service.board.origin settings service.disk).jobs
    rw [opened_jobs]
    exact List.mem_singleton_self _
  · rw [act_running saves service event restarts, tryChange_board]
    obtain kept | saved | restarted := step_saves service.board event
    · exact Or.inl kept
    · exact Or.inr (tryChange_sweeps saves _ service saved)
    · exact absurd restarted restarts

/-- A job stays queued while the machine runs. -/
theorem act_queued (saves : Bool) (service : Service Id Hash) (event : Clipboard.Event Id Hash)
    (running : ¬ ∃ clock settings, event = .restart clock settings) (job : Job Id)
    (queued : job ∈ service.jobs) : job ∈ (service.act saves event).jobs := by
  rw [act_running saves service event running]
  exact tryChange_queued saves _ service job queued

/-- A record that changes the clip asks for a save. -/
theorem record_saves (clock : Clock) (base recorded : WithBot (Stamp Id)) (capture : Captured)
    (files : List (Files.FileRef Hash)) (board : Clipboard Id Hash) :
    (board.record clock base recorded capture files).1.1.clip = board.clip ∨
      (effectsOf (board.record clock base recorded capture files).1).any isSave = true := by
  unfold Clipboard.record
  by_cases dropped : board.head ≠ base ∧ board.head ≠ recorded
  · rw [if_pos dropped]
    exact Or.inl rfl
  · rw [if_neg dropped]
    rcases step_saves board (.captured clock capture files) with kept | saved | ⟨_, _, restarted⟩
    · exact Or.inl kept
    · exact Or.inr saved
    · cases restarted

/-- A restart opens the service again from its file. -/
theorem act_restart (saves : Bool) (service : Service Id Hash) (clock : Clock)
    (settings : Settings) :
    service.act saves (.restart clock settings) =
      opened saves clock service.board.origin settings service.disk := rfl

/-- While every save succeeds, the file is what the board saves. -/
theorem act_disk (service : Service Id Hash) (event : Clipboard.Event Id Hash)
    (current : service.disk = service.board.saved) :
    (service.act true event).disk = (service.act true event).board.saved := by
  by_cases restarts : ∃ clock settings, event = .restart clock settings
  · obtain ⟨clock, settings, rfl⟩ := restarts
    rw [act_restart, opened_disk, opened_board, if_pos rfl]
  · rw [act_running true service event restarts]
    apply tryChange_current _ service current
    obtain kept | saved | restarted := step_saves service.board event
    · exact Or.inl kept
    · exact Or.inr saved
    · exact absurd restarted restarts

/-- A machine does on its board what the event says, with the file standing in
for the board at a restart. -/
theorem act_board (saves : Bool) (service : Service Id Hash) (event : Clipboard.Event Id Hash)
    (current : service.disk = service.board.saved) :
    (service.act saves event).board = (service.board.step event).1 := by
  cases event with
  | restart clock settings => rw [act_restart, opened_board, current]; rfl
  | _ => exact tryChange_board _ _ _

end Order

end Service

end Yank
