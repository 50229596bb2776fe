import Yank.FileService

/-!
# Selections recorded late

A selection is recorded by a job that may wait behind others and take its files in first,
while the clipboard changes under it. It remembers the head there was when it was copied,
and the loop remembers the clip the last record made. A selection is dropped when the head
is neither.

Two stamps stand for a history: how often the head was changed by anything but a record,
and where in that count the selection was copied. The invariant is that the two stamps
answer, for every selection still waiting, whether the count has moved since.
-/

namespace Yank

variable {Id Hash : Type}

/-- The head there was when the selection of a record was copied. -/
def Job.base : Job Id → Option (WithBot (Stamp Id))
  | .record base _ _ => some base
  | .copy _ _ => none
  | .fetch _ => none
  | .sweep => none

/-- The job in hand. -/
def Loop.job : Loop Id Hash → Option (Job Id)
  | .walking job => some job
  | .spooling job _ _ => some job
  | .failed job _ => some job
  | _ => none

namespace FileService

/-- The selections that are not recorded yet, in the order they were copied, by the head
there was then. -/
def waiting (state : FileService Id Hash) : List (WithBot (Stamp Id)) :=
  (state.loop.job.toList ++ state.service.jobs).filterMap Job.base

/-- Whether a step is the end of a record. -/
def endsRecord (state : FileService Id Hash) : Label Id Hash → Bool
  | .settle _ _ => (spooled state.loop).any (fun answer => answer.1.base.isSome)
  | _ => false

/-- A selection that was copied: the head there was, and how often that had been changed by
anything but a record. -/
abbrev CopiedAt (Id : Type) := WithBot (Stamp Id) × Nat

/-- The file service with a history of its head. -/
structure Watched (Id Hash : Type) where
  state : FileService Id Hash
  /-- How often the head was changed by anything but a record. -/
  changes : Nat
  /-- The selections not recorded yet, in the order they were copied. -/
  copiedAt : List (CopiedAt Id)

section Step
variable [LinearOrder Id] [EndpointText Id] [DecidableEq Hash] [ContentHash Hash]

/-- What is remembered of the selections across a step. -/
def copiedAfter (watched : Watched Id Hash) : Label Id Hash → List (CopiedAt Id)
  | .copied _ _ =>
      watched.copiedAt ++ [(watched.state.service.board.head, watched.changes)]
  | .restart _ _ _ _ => []
  | label => if endsRecord watched.state label then watched.copiedAt.tail else watched.copiedAt

/-- One step, with what it adds to the history. -/
def Watched.step (watched : Watched Id Hash) (label : Label Id Hash) : Option (Watched Id Hash) :=
  (watched.state.step label).map (fun next =>
    { state := next
      changes :=
        if endsRecord watched.state label ∨
            next.service.board.head = watched.state.service.board.head then watched.changes
        else watched.changes + 1
      copiedAt := copiedAfter watched label })

/-- A machine that starts for the first time, watched from then on. -/
def Watched.start (saves : Bool) (clock : Clock) (identity : Id)
    (settings : Settings) (trees : Path) :
    Watched Id Hash where
  state := .start saves clock identity settings trees
  changes := 0
  copiedAt := []

end Step

section Answers
variable [LinearOrder Id]

/-- The two stamps answer for every selection that waits: the head is the one it was copied
under, or the one the last record left, exactly when nothing but records changed the head
since. -/
structure Answers (head recorded : WithBot (Stamp Id)) (changes : Nat)
    (copiedAt : List (CopiedAt Id)) : Prop where
  past : ∀ copied ∈ copiedAt, copied.2 ≤ changes
  under : ∀ copied ∈ copiedAt, copied.1 ≤ head
  current_iff : ∀ copied ∈ copiedAt,
    (head = copied.1 ∨ head = recorded) ↔ copied.2 = changes
  inOrder : copiedAt.Pairwise (fun early late => early.2 ≤ late.2)
  last : recorded ≤ head

namespace Answers
variable {head recorded next : WithBot (Stamp Id)} {changes : Nat} {copied : CopiedAt Id}
  {copiedAt later : List (CopiedAt Id)}

/-- A selection copied now waits behind the others. It was copied under the head of this moment,
so nothing has overtaken it. -/
theorem arrives (answers : Answers head recorded changes copiedAt) :
    Answers head recorded changes (copiedAt ++ [(head, changes)]) where
  past := by
    rw [List.forall_mem_append]
    exact ⟨answers.past, by simp⟩
  under := by
    rw [List.forall_mem_append]
    exact ⟨answers.under, by simp⟩
  current_iff := by
    rw [List.forall_mem_append]
    exact ⟨answers.current_iff, by simp⟩
  inOrder := by
    rw [List.pairwise_append]
    refine ⟨answers.inOrder, List.pairwise_singleton _ _, ?_⟩
    intro copied member last isLast
    rw [List.mem_singleton.mp isLast]
    exact answers.past copied member
  last := answers.last

/-- A change by anything but a record overtakes every selection that waits. The head is past what
each of them was copied under and past what was recorded last. -/
theorem changed (answers : Answers head recorded changes copiedAt) (moved : head < next) :
    Answers next recorded (changes + 1) copiedAt where
  past copied member := Nat.le_succ_of_le (answers.past copied member)
  under copied member := (answers.under copied member).trans moved.le
  current_iff := by
    intro copied member
    have past := answers.past copied member
    have overtakesBase : next ≠ copied.1 := (lt_of_le_of_lt (answers.under copied member) moved).ne'
    have overtakesLast : next ≠ recorded := (lt_of_le_of_lt answers.last moved).ne'
    constructor
    · rintro (same | same)
      · exact absurd same overtakesBase
      · exact absurd same overtakesLast
    · intro now
      omega
  inOrder := answers.inOrder
  last := answers.last.trans moved.le

/-- The first selection is dropped: no record is remembered, and none would answer for
those behind it. -/
theorem dropped (answers : Answers head recorded changes (copied :: later))
    (other : head ≠ recorded) : Answers head ⊥ changes later where
  past behind member := answers.past behind (List.mem_cons_of_mem _ member)
  under behind member := answers.under behind (List.mem_cons_of_mem _ member)
  current_iff := by
    intro behind member
    have before := answers.current_iff behind (List.mem_cons_of_mem _ member)
    have under := answers.under behind (List.mem_cons_of_mem _ member)
    rw [← before]
    constructor
    · rintro (same | bot)
      · exact Or.inl same
      · exact Or.inl (le_antisymm (bot ▸ bot_le) under)
    · rintro (same | same)
      · exact Or.inl same
      · exact absurd same other
  inOrder := answers.inOrder.of_cons
  last := bot_le

/-- The first selection is recorded: nothing else changed the head since it was copied, so
nothing did since those behind it were. -/
theorem settled (answers : Answers head recorded changes (copied :: later))
    (current : head = copied.1 ∨ head = recorded) (moved : head ≤ next) :
    Answers next next changes later where
  past behind member := answers.past behind (List.mem_cons_of_mem _ member)
  under behind member := (answers.under behind (List.mem_cons_of_mem _ member)).trans moved
  current_iff := by
    intro behind member
    have now := (answers.current_iff copied List.mem_cons_self).mp current
    have after := (List.pairwise_cons.mp answers.inOrder).1 behind member
    have past := answers.past behind (List.mem_cons_of_mem _ member)
    constructor
    · intro _
      omega
    · intro _
      exact Or.inr rfl
  inOrder := answers.inOrder.of_cons
  last := le_refl next

end Answers

end Answers

/-- A job that is spooled is the one under way. -/
theorem spooled_job (loop : Loop Id Hash) (job : Job Id)
    (files : Option (List (Files.FileRef Hash))) (spool : spooled loop = some (job, files)) :
    loop.job = some job := by
  cases loop with
  | spooling held left taken =>
    cases left with
    | nil =>
      obtain ⟨rfl, _⟩ := Prod.mk.inj (Option.some.inj spool)
      rfl
    | cons path left => cases spool
  | failed held taken =>
    obtain ⟨rfl, _⟩ := Prod.mk.inj (Option.some.inj spool)
    rfl
  | _ => cases spool

/-- What is said of the jobs that are not done, the one in hand first. -/
def due {Said : Type} (about : Job Id → Option Said) (state : FileService Id Hash) : List Said :=
  (state.loop.job.toList ++ state.service.jobs).filterMap about

section Due

/-! What is said of records and of no other job. -/

variable {Said : Type} (about : Job Id → Option Said)
  (records : ∀ job, (about job).isSome = job.base.isSome)

include records in
/-- A job that records nothing is about no selection. -/
theorem about_plain (job : Job Id) (plain : job.base = none) : about job = none := by
  have same := records job
  rw [plain] at same
  exact Option.isNone_iff_eq_none.mp (Option.isSome_eq_false_iff.mp same)

include records in
/-- What a change asks of the file service is no record. -/
theorem tryChange_due (saves : Bool) (outcome : Outcome Id Hash) (service : Service Id Hash) :
    (service.tryChange saves outcome).1.jobs.filterMap about = service.jobs.filterMap about := by
  rw [Service.tryChange_jobs, List.filterMap_append, List.filterMap_filterMap]
  have silent : (effectsOf outcome).filterMap
      (fun effect => (Service.jobOf effect).bind about) = [] := by
    rw [List.filterMap_eq_nil_iff]
    intro effect _
    cases effect with
    | save => exact about_plain about records _ rfl
    | backend command => rfl
    | fetch stamp => exact about_plain about records _ rfl
  rw [silent, List.append_nil]

variable [LinearOrder Id] [EndpointText Id] [DecidableEq Hash] [ContentHash Hash]

/-- What is said of the jobs after a step: a selection that is copied comes last, and the
end of a record takes the first. -/
def dueAfter (state : FileService Id Hash) : Label Id Hash → List Said
  | .copied capture paths =>
      let spooling := state.service.board.settings.files && !capture.secret
      state.due about ++ (about (.record state.service.board.head capture
        (if spooling then paths else []))).toList
  | .restart _ _ _ _ => []
  | label => if endsRecord state label then (state.due about).tail else state.due about

include records in
omit [EndpointText Id] [ContentHash Hash] in
/-- A record stays the selection that waits longest while it is in hand. Whether it names files or
not, it is the one the loop has in hand. -/
theorem takeJob_due (state : FileService Id Hash) (job : Job Id) (jobs : List (Job Id))
    (idle : state.loop = .idle) (queued : state.service.jobs = job :: jobs) :
    (takeJob { state with service := { state.service with jobs } } job).due about =
      state.due about := by
  have plain := about_plain about records
  cases job with
  | record base capture paths =>
    by_cases unnamed : paths = []
    · simp [due, takeJob, unnamed, idle, queued, Loop.job]
    · simp [due, takeJob, unnamed, idle, queued, Loop.job]
  | copy paths ttl => simp [due, takeJob, idle, queued, Loop.job]
  | fetch stamp =>
    simp only [due, idle, queued, takeJob]
    split
    · simp [Loop.job, plain (.fetch stamp) rfl]
    · simp [Loop.job, plain (.fetch stamp) rfl]
  | sweep => simp [due, takeJob, idle, queued, Loop.job, plain .sweep rfl]

include records in
omit [EndpointText Id] in
/-- An event while the machine runs queues no record. -/
theorem act_due (saves : Bool) (service : Service Id Hash) (event : Clipboard.Event Id Hash)
    (running : ¬ ∃ clock settings, event = .restart clock settings) :
    (service.act saves event).jobs.filterMap about = service.jobs.filterMap about := by
  rw [Service.act_running saves service event running]
  exact tryChange_due about records saves _ service

include records in
omit [EndpointText Id] in
/-- The end of a job leaves those behind it. -/
theorem settle_due (saves : Bool) (clock : Clock) (state : FileService Id Hash) (job : Job Id)
    (files : Option (List (Files.FileRef Hash))) :
    (settle saves clock state job files).due about = state.service.jobs.filterMap about := by
  unfold settle
  split
  · exact tryChange_due about records saves _ state.service
  · exact tryChange_due about records saves _ state.service
  · rfl

include records in
/-- Every step leaves the records in their order, and only the two ends of one change what
they are. -/
theorem step_due (state next : FileService Id Hash) (label : Label Id Hash)
    (taken : state.step label = some next) : next.due about = state.dueAfter about label := by
  have plain := about_plain about records
  cases step_took state next label taken with
  | changed saves event outside =>
    simp [due, dueAfter, endsRecord, List.filterMap_append,
      act_due about records saves state.service event (running_of_outside event outside)]
  | copied capture paths =>
    simp only [due, dueAfter, Service.send, ← List.append_assoc]
    rw [List.filterMap_append]
    congr 1
  | copyAsked paths ttl =>
    simp [due, dueAfter, endsRecord, Service.send, List.filterMap_append,
      plain (.copy paths ttl) rfl]
  | fetchAsked stamp head =>
    simp [due, dueAfter, endsRecord, Service.send, List.filterMap_append,
      plain (.fetch stamp) rfl]
  | restarted saves clock settings stray store left =>
    simp [due, dueAfter, Loop.job, Service.act_restart, Service.opened_jobs, plain .sweep rfl]
  | started job jobs idle queued => exact takeJob_due about records state job jobs idle queued
  | walked job found loop walking leads =>
    obtain rfl | ⟨left, rfl⟩ := leads
    · simp [due, dueAfter, endsRecord, walking, Loop.job]
    · simp [due, dueAfter, endsRecord, walking, Loop.job]
  | took job path left taken tag source hash size spooling answered =>
    simp [due, dueAfter, endsRecord, spooling, Loop.job]
  | untaken job path left taken tag source spooling answered =>
    simp [due, dueAfter, endsRecord, spooling, Loop.job]
  | settled saves clock job files spool =>
    rw [settle_due about records]
    simp only [dueAfter, due, spooled_job state.loop job files spool, endsRecord, spool]
    cases base : job.base with
    | none => simp [base, plain job base]
    | some head =>
      have isRecord := records job
      rw [base] at isRecord
      obtain ⟨said, found⟩ := Option.isSome_iff_exists.mp isRecord
      simp [base, found]
  | sweeping phase next atPhase goesOn => simp [due, dueAfter, endsRecord, atPhase, Loop.job]
  | swept content done => simp [due, dueAfter, endsRecord, done, Loop.job]
  | treeSwept live content left tree atPhase listed =>
    simp [due, dueAfter, endsRecord, atPhase, Loop.job]
  | blobSwept content left name atPhase listed =>
    simp [due, dueAfter, endsRecord, atPhase, Loop.job]
  | fetched running next move after isFetch stepped => rfl
  | landed saves running isFetch laid =>
    simp [due, dueAfter, endsRecord, List.filterMap_append,
      act_due about records saves state.service _ (running_of_materialized running.stamp _)]
  | ran index stamp work listed => rfl

end Due

section Step
variable [LinearOrder Id] [EndpointText Id] [DecidableEq Hash] [ContentHash Hash]

/-- The history of a watched machine answers for the selections it holds. -/
structure Watching (watched : Watched Id Hash) : Prop where
  bases : watched.state.waiting = watched.copiedAt.map Prod.fst
  answers : Answers watched.state.service.board.head watched.state.recorded watched.changes
    watched.copiedAt

omit [EndpointText Id] [ContentHash Hash] in
/-- Taking up a job records nothing. -/
theorem takeJob_recorded (state : FileService Id Hash) (job : Job Id) :
    (takeJob state job).recorded = state.recorded := by
  cases job with
  | record base capture paths =>
    by_cases unnamed : paths = []
    · simp [takeJob, unnamed]
    · simp [takeJob, unnamed]
  | copy paths ttl => rfl
  | fetch stamp =>
    simp only [takeJob]
    split
    · rfl
    · rfl
  | sweep => rfl

omit [EndpointText Id] in
/-- An event while the machine runs never moves the head down. -/
theorem act_onward (saves : Bool) (service : Service Id Hash) (event : Clipboard.Event Id Hash)
    (running : ¬ ∃ clock settings, event = .restart clock settings) :
    service.board.head ≤ (service.act saves event).board.head := by
  rw [Service.act_running saves service event running, Service.tryChange_board]
  exact (Clipboard.step_moved service.board event).head_le

omit [EndpointText Id] in
/-- The end of a job that holds no selection. -/
theorem settle_onward (saves : Bool) (clock : Clock) (state : FileService Id Hash) (job : Job Id)
    (files : Option (List (Files.FileRef Hash))) (plain : job.base = none) :
    (settle saves clock state job files).recorded = state.recorded ∧
      state.service.board.head ≤ (settle saves clock state job files).service.board.head := by
  unfold settle
  split
  · cases plain
  · refine ⟨rfl, ?_⟩
    rw [Service.tryChange_board]
    exact (Clipboard.step_moved state.service.board
      (.copy clock (Selection.ofFiles _) _ false _)).head_le
  · exact ⟨rfl, le_refl _⟩

/-- Only the end of a record, and a restart, changes which record was the last; every other
step takes the head on or leaves it. -/
theorem step_onward (state next : FileService Id Hash) (label : Label Id Hash)
    (taken : state.step label = some next) (ends : endsRecord state label = false)
    (goesOn : ∀ saves clock settings stray, label ≠ .restart saves clock settings stray) :
    next.recorded = state.recorded ∧ state.service.board.head ≤ next.service.board.head := by
  cases step_took state next label taken with
  | changed saves event outside =>
    exact ⟨rfl, act_onward saves state.service event (running_of_outside event outside)⟩
  | restarted saves clock settings stray store left =>
    exact absurd rfl (goesOn saves clock settings stray)
  | started job jobs idle queued =>
    refine ⟨takeJob_recorded _ job, ?_⟩
    rw [takeJob_service]
  | settled saves clock job files spool =>
    have plain : job.base = none := by simpa [endsRecord, spool] using ends
    exact settle_onward saves clock state job files plain
  | landed saves running isFetch laid =>
    exact ⟨rfl, act_onward saves state.service _ (running_of_materialized running.stamp _)⟩
  | _ => exact ⟨rfl, le_refl _⟩

/-- The end of a record is the end of the job in hand. -/
theorem step_record (state next : FileService Id Hash) (label : Label Id Hash)
    (taken : state.step label = some next) (ends : endsRecord state label = true) :
    ∃ saves clock base capture paths files,
      label = .settle saves clock ∧
      spooled state.loop = some (.record base capture paths, files) ∧
      next = settle saves clock state (.record base capture paths) files := by
  cases label with
  | settle saves clock =>
    simp only [step, Option.map_eq_some_iff] at taken
    obtain ⟨⟨job, files⟩, spool, rfl⟩ := taken
    cases job with
    | record base capture paths =>
      exact ⟨saves, clock, base, capture, paths, files, rfl, spool, rfl⟩
    | _ => simp [endsRecord, spool, Job.base] at ends
  | _ => cases ends

omit [EndpointText Id] in
/-- The end of a record: the selection is dropped where the two stamps say so, and captured
otherwise. -/
theorem settle_answers (saves : Bool) (clock : Clock) (state : FileService Id Hash)
    (capture : Captured) (paths : List Path) (files : Option (List (Files.FileRef Hash)))
    (changes : Nat) (copied : CopiedAt Id) (later : List (CopiedAt Id))
    (answers : Answers state.service.board.head state.recorded changes (copied :: later)) :
    Answers (settle saves clock state (.record copied.1 capture paths) files).service.board.head
      (settle saves clock state (.record copied.1 capture paths) files).recorded changes later := by
  simp only [settle, Service.tryChange_board, Clipboard.record]
  by_cases overtaken : state.service.board.head ≠ copied.1 ∧
      state.service.board.head ≠ state.recorded
  · rw [if_pos overtaken]
    exact answers.dropped overtaken.2
  · rw [if_neg overtaken]
    have moved := Clipboard.step_moved state.service.board
      (.captured clock capture (files.getD []))
    refine answers.settled ?_ moved.head_le
    by_cases same : state.service.board.head = copied.1
    · exact Or.inl same
    · exact Or.inr (not_not.mp (fun other => overtaken ⟨same, other⟩))

/-- A step that neither takes in nor ends a selection. The history waits for the same reports, and
the count of changes rises with the head. -/
theorem watching_onward (watched : Watched Id Hash) (next : FileService Id Hash)
    (label : Label Id Hash) (watching : Watching watched)
    (moved : watched.state.step label = some next)
    (plain : copiedAfter watched label = watched.copiedAt)
    (ends : endsRecord watched.state label = false)
    (held : watched.state.dueAfter Job.base label = watched.state.due Job.base)
    (goesOn : ∀ saves clock settings stray, label ≠ .restart saves clock settings stray) :
    Watching {
      state := next
      changes :=
        if endsRecord watched.state label ∨
            next.service.board.head = watched.state.service.board.head then watched.changes
        else watched.changes + 1
      copiedAt := copiedAfter watched label } := by
  obtain ⟨recorded, onward⟩ := step_onward watched.state next label moved ends goesOn
  refine ⟨?_, ?_⟩
  · rw [plain, ← watching.bases]
    exact (step_due Job.base (fun _ => rfl) watched.state next label moved).trans held
  · dsimp only
    rw [plain, recorded, ends]
    by_cases same : next.service.board.head = watched.state.service.board.head
    · rw [if_pos (Or.inr same), same]
      exact watching.answers
    · rw [if_neg (by simp [same])]
      exact watching.answers.changed (lt_of_le_of_ne onward (Ne.symm same))

/-- Every step keeps the history answering. The jobs that are due have the bases of the reports
that await an answer, in order; a report adds to both, the end of its job takes from both, and a
restart empties both. -/
theorem step_watching (watched next : Watched Id Hash) (label : Label Id Hash)
    (watching : Watching watched) (taken : watched.step label = some next) : Watching next := by
  simp only [Watched.step, Option.map_eq_some_iff] at taken
  obtain ⟨after, moved, rfl⟩ := taken
  have held := step_due Job.base (fun _ => rfl) watched.state after label moved
  have bases : watched.state.due Job.base = watched.copiedAt.map Prod.fst := watching.bases
  cases label with
  | copied capture paths =>
    obtain rfl := Option.some.inj moved
    refine ⟨?_, ?_⟩
    · refine Eq.trans held ?_
      simp [dueAfter, bases, copiedAfter, Job.base]
    · simpa [copiedAfter, endsRecord, Service.send] using watching.answers.arrives
  | restart saves clock settings stray =>
    obtain rfl := Option.some.inj moved
    refine ⟨held, ?_⟩
    exact ⟨by simp [copiedAfter], by simp [copiedAfter], by simp [copiedAfter],
      List.Pairwise.nil, bot_le⟩
  | settle saves clock =>
    cases ends : endsRecord watched.state (.settle saves clock) with
    | false =>
      refine ends ▸ watching_onward watched after _ watching moved ?_ ends ?_ (by simp)
      · simp [copiedAfter, ends]
      · simp [dueAfter, ends]
    | true =>
      obtain ⟨_, _, base, capture, paths, files, same, spool, rfl⟩ :=
        step_record watched.state after _ moved ends
      obtain ⟨rfl, rfl⟩ := Label.settle.inj same
      simp only [dueAfter, ends, if_true] at held
      have first : watched.state.due Job.base =
          base :: watched.state.service.jobs.filterMap Job.base := by
        simp [FileService.due, spooled_job _ _ files spool, Job.base]
      have answers := watching.answers
      simp only [copiedAfter, ends, if_true, true_or]
      cases pending : watched.copiedAt with
      | nil => simp [first, pending] at bases
      | cons copied later =>
        rw [first, pending] at bases
        rw [pending] at answers
        obtain ⟨rfl, behind⟩ := List.cons.inj bases
        refine ⟨?_, settle_answers saves clock watched.state capture paths files _ _ _ answers⟩
        refine Eq.trans held ?_
        rw [first]
        exact behind
  | _ =>
    exact watching_onward watched after _ watching moved rfl rfl rfl
      (by rintro _ _ _ _ impossible; cases impossible)

omit [EndpointText Id] [DecidableEq Hash] in
/-- A machine that starts has no history to answer for. -/
theorem start_watching (saves : Bool) (clock : Clock) (identity : Id)
    (settings : Settings) (trees : Path) :
    Watching (Watched.start saves clock identity settings trees : Watched Id Hash) where
  bases := by
    simp [Watched.start, waiting, start, Service.opened_jobs, Loop.job, List.filterMap_cons,
      Job.base]
  answers := ⟨by simp [Watched.start], by simp [Watched.start], by simp [Watched.start],
    List.Pairwise.nil, bot_le⟩

/-- Along every run the history answers. -/
theorem run_watching (saves : Bool) (clock : Clock) (identity : Id)
    (settings : Settings) (trees : Path)
    (labels : List (Label Id Hash)) (watched : Watched Id Hash)
    (reached : Runs.run Watched.step (Watched.start saves clock identity settings trees) labels =
      some watched) : Watching watched :=
  Runs.run_invariant Watched.step Watching
    (fun state label next watching taken => step_watching state next label watching taken) _ _ _
    (start_watching saves clock identity settings trees) reached

/-- A capture is dropped exactly when it was overtaken. Take any run and a record at its
end, of a selection copied when the head had been changed a number of times by anything but
records. The test of the record says yes exactly when the head was changed so since; then
the clipboard is left as it is and no record is remembered, and otherwise the selection is
captured and the head it leaves is remembered. -/
theorem record_drops_iff_overtaken (saves : Bool) (clock : Clock) (identity : Id)
    (settings : Settings) (trees : Path) (labels : List (Label Id Hash)) (watched : Watched Id Hash)
    (reached : Runs.run Watched.step (Watched.start saves clock identity settings trees) labels =
      some watched)
    (base : WithBot (Stamp Id)) (capture : Captured) (paths : List Path)
    (files : Option (List (Files.FileRef Hash)))
    (spool : spooled watched.state.loop = some (.record base capture paths, files)) :
    let state := watched.state
    let board := state.service.board
    ∃ copiedAt later, watched.copiedAt = (base, copiedAt) :: later ∧
      (board.head ≠ base ∧ board.head ≠ state.recorded ↔ copiedAt < watched.changes) ∧
      ∀ saves clock, settle saves clock state (.record base capture paths) files =
        if copiedAt < watched.changes then { state with recorded := ⊥, loop := .idle }
        else
          let captured := board.captured clock capture (files.getD [])
          { state with
            service := (state.service.tryChange saves captured).1
            recorded := captured.1.head
            loop := .idle } := by
  intro state board
  have watching := run_watching saves clock identity settings trees labels watched reached
  have held : base :: state.service.jobs.filterMap Job.base = watched.copiedAt.map Prod.fst := by
    rw [← watching.bases]
    simp [waiting, spooled_job watched.state.loop _ files spool, Job.base, state]
  cases pending : watched.copiedAt with
  | nil =>
    rw [pending] at held
    cases held
  | cons copied later =>
    rw [pending] at held
    obtain ⟨rfl, _⟩ := List.cons.inj held
    have member : copied ∈ watched.copiedAt := by simp [pending]
    have past : copied.2 ≤ watched.changes := watching.answers.past copied member
    have current := watching.answers.current_iff copied member
    have overtaken : board.head ≠ copied.1 ∧ board.head ≠ state.recorded ↔
        copied.2 < watched.changes := by
      rw [← not_or, current]
      omega
    refine ⟨copied.2, later, rfl, overtaken, ?_⟩
    intro saves clock
    simp only [settle, Clipboard.record, ← overtaken]
    split
    · rfl
    · rfl

end Step

/-- The instant everything is copied at. -/
def atOnce : Clock := { stamp := 5000000, believed := 5000000, set := 5000000, lapse := 5000000 }

/-- A word copied here. -/
def word (letter : UInt8) : Captured where
  selection := .of { mime := Mime.plainText, bytes := [letter] }
  secret := false

/-- The stamp of the clip made of the first word. -/
def firstWord : WithBot (Stamp Nat) := ({ millis := 5, origin := 0 } : Stamp Nat)

/-- Two words are copied one after the other, the first is recorded, and the second is next. -/
def copiedInTurn : List (Label Nat Bytes) :=
  [.sweep, .sweep, .sweep, .sweep, .copied (word 97) [], .copied (word 98) [],
    .takeJob, .sweep, .sweep, .sweep, .sweep, .takeJob, .settle true atOnce, .takeJob]

/-- The second word was copied when there was no clip, and is not dropped for the first. Between
the copy and its record the head moved by a record of this very service, which is what `recorded`
remembers. -/
theorem record_drops_iff_overtaken_in_turn :
    ∃ watched copiedAt later,
      Runs.run Watched.step (Watched.start true atOnce 0 Settings.default [47]) copiedInTurn =
        some watched ∧
      watched.state.service.board.head = firstWord ∧
      watched.copiedAt = (⊥, copiedAt) :: later ∧ ¬ copiedAt < watched.changes := by
  have observed :
      (Runs.run Watched.step (Watched.start true atOnce 0 Settings.default [47]) copiedInTurn).map
        (fun watched =>
          decide (watched.state.service.board.head = firstWord) &&
          decide (watched.state.recorded = firstWord) &&
          decide (spooled watched.state.loop = some (.record ⊥ (word 98) [], some []))) =
        some true := by decide
  obtain ⟨watched, reached, holds⟩ := Option.map_eq_some_iff.mp observed
  simp only [Bool.and_eq_true, decide_eq_true_eq] at holds
  obtain ⟨⟨head, recorded⟩, spool⟩ := holds
  obtain ⟨copiedAt, later, pending, overtaken, _⟩ := record_drops_iff_overtaken true atOnce 0
    Settings.default [47] copiedInTurn watched reached ⊥ (word 98) [] (some []) spool
  refine ⟨watched, copiedAt, later, reached, head, pending, ?_⟩
  rw [← overtaken]
  rintro ⟨_, other⟩
  exact other (head.trans recorded.symm)

end FileService

end Yank
