import Yank.Echoes
import Yank.Following
import Yank.Overtaken
import Yank.UriList

/-!
# Selections in the order they were made

Each selection is read on a thread of its own and reaches the job queue when its read ends.
The queue keeps the order of the ends; the order of the selections is the compositor's.

The compositor is a party of its own. It counts what takes the selection, another
application or a clip that is offered from here, and announces the first kind. An
announcement is dispatched and a command is carried out some time later, and a read ends
whenever it does, with something or with nothing.

The history beside the daemon remembers for each selection when it was made and when its
read ended, and for the clip that is there when it was the selection last. What may go
wrong is a read that ends after something later became the clip or waits to be recorded.
-/

namespace Yank

/-- The selection of a record. -/
def Job.capture {Id : Type} : Job Id → Option Captured
  | .record _ capture _ => some capture
  | .copy _ _ => none
  | .fetch _ => none
  | .sweep => none

/-- A selection another application made, by how often the selection had been taken. -/
structure Announcement where
  shown : Nat
  /-- Whether there is a type to read it in. -/
  usable : Bool
deriving DecidableEq

/-- What a read produced. -/
structure Produced where
  /-- When the selection was made. -/
  shown : Nat
  /-- How often the selection had been taken when the read ended. -/
  endedAt : Nat
  capture : Captured
deriving DecidableEq

/-- One machine and its compositor. -/
structure Captures (Id Hash : Type) where
  files : FileService Id Hash
  /-- How often the selection was taken. -/
  shown : Nat
  /-- The selection that is there, when another application made it. -/
  selection : Option Announcement
  /-- What the backend was told and did not dispatch yet. -/
  announced : List Announcement
  /-- Set when a selection has to be read. -/
  pendingRead : Option Nat
  /-- The selections that are being read, each on a thread. -/
  reading : List Nat
  /-- Reads that ended and were not handled yet, the first one first. -/
  inbox : List Produced
  /-- For each command not carried out yet, the clip it is for. -/
  offering : List (WithBot (Stamp Id))
  /-- When the clip that is there was the selection last, if it was. -/
  clipShown : Option Nat
  /-- All reads that produced something. -/
  produced : List Produced
  /-- Those handled whose records did not end. -/
  waiting : List Produced
  /-- Those whose records ended, with whether there was something to share. -/
  recorded : List (Produced × Bool)

namespace Clipboard

variable {Id Hash : Type} [LinearOrder Id] [ContentHash Hash]

/-- Whether a selection is something to share. -/
def shares (capture : Captured) (files : List (Files.FileRef Hash)) (board : Clipboard Id Hash) :
    Bool :=
  board.settings.capture && (board.fit capture.selection).any
    (fun selection => (board.capturedCopy capture selection files).check.isOk)

/-- Whether a selection is taken for the clip that is there. -/
def finds [DecidableEq Hash] (capture : Captured) (board : Clipboard Id Hash) : Bool :=
  board.settings.capture && (board.fit capture.selection).any
    (fun selection => board.isEcho selection.primary.bytes)

/-- The clip stands for a selection: it starts with the same bytes. The other representations are
not compared, as they are not when a selection is found to be the clip. -/
def StandsFor (capture : Captured) (board : Clipboard Id Hash) : Prop :=
  ∃ stamp copy, board.current = some (stamp, copy) ∧
    copy.selection.primary.bytes = capture.selection.primary.bytes

section Captured
variable [DecidableEq Hash]

omit [LinearOrder Id] in
/-- A record fails only where there is no stamp after the last. Every other way in which a report
comes to nothing answers something else. -/
theorem captured_overflows (clock : Clock) (capture : Captured)
    (files : List (Files.FileRef Hash)) (board : Clipboard Id Hash)
    (fails : (board.captured clock capture files).2 = .error .overflow) :
    Stamp.after board.head = none := by
  cases on : board.settings.capture with
  | false => simp [captured, on] at fails
  | true =>
    cases fitted : board.fit capture.selection with
    | none => simp [captured, on, fitted] at fails
    | some selection =>
      rw [← replace_none_iff clock (some (board.capturedCopy capture selection files)) board]
      cases echo : board.isEcho selection.primary.bytes with
      | true => simp [captured, on, fitted, echo] at fails
      | false =>
        cases checked : (board.capturedCopy capture selection files).check with
        | error failure => simp [captured, on, fitted, echo, checked] at fails
        | ok passed =>
          cases made : board.replace clock
              (some (board.capturedCopy capture selection files)) with
          | none => rfl
          | some replaced => simp [captured, on, fitted, echo, checked, made] at fails

/-- A record with a stamp to give ignores a selection, finds it to be the clip, or makes a
newer clip of it. -/
theorem captured_answers (clock : Clock) (capture : Captured)
    (files : List (Files.FileRef Hash)) (board : Clipboard Id Hash)
    (room : Stamp.after board.head ≠ none) :
    (board.shares capture files = false ∧ (board.captured clock capture files).1 = board) ∨
      (board.finds capture = true ∧
        (board.captured clock capture files).1 =
          { board with applied := board.clip.map (fun clip => clip.stamp) }) ∨
      ∃ (selection : Selection) (stamp : Stamp Id),
        board.shares capture files = true ∧ board.fit capture.selection = some selection ∧
        board.head < stamp ∧
        (board.captured clock capture files).1 =
          { board.set clock.set
              { stamp, copy := some (board.capturedCopy capture selection files) } with
            applied := some stamp } := by
  obtain ⟨drops, same⟩ | overflows | ⟨selection, on, fits, echo, same⟩ |
      ⟨selection, stamp, on, fits, _, checked, newer, _, same⟩ :=
    captured_cases clock capture files board
  · refine Or.inl ⟨?_, by rw [same]⟩
    obtain off | unfit | ⟨selection, failure, fits, refused⟩ := drops
    · simp [shares, off]
    · simp [shares, unfit]
    · simp [shares, fits, refused, Except.isOk, Except.toBool]
  · exact absurd (captured_overflows clock capture files board (by rw [overflows])) room
  · exact Or.inr (Or.inl ⟨by simp [finds, on, fits, echo], by rw [same]⟩)
  · refine Or.inr (Or.inr ⟨selection, stamp, ?_, fits, newer, by rw [same]⟩)
    simp [shares, on, fits, checked, Except.isOk, Except.toBool]

omit [LinearOrder Id] in
/-- Where nothing was served, the clip a selection is found to be stands for it. -/
theorem standsFor_of_finds (capture : Captured) (board : Clipboard Id Hash)
    (unserved : board.served = none) (found : board.finds capture = true) :
    board.StandsFor capture := by
  simp only [finds, Bool.and_eq_true, Option.any_eq_true] at found
  obtain ⟨_, selection, fits, echo⟩ := found
  simp only [isEcho, unserved] at echo
  cases held : board.current with
  | none =>
    rw [held] at echo
    cases echo
  | some entry =>
    rw [held] at echo
    refine ⟨entry.1, entry.2, held, ?_⟩
    rw [← fit_primary board capture.selection selection fits]
    simpa using echo

end Captured

end Clipboard

namespace Captures

variable {Id Hash : Type}

/-- What can happen next. -/
inductive Label (Id Hash : Type) where
  /-- Another application takes the selection. -/
  | select (usable : Bool)
  | dispatch
  | startPendingRead (started : Bool)
  /-- A read ends, with nothing when it fails or was of nothing. -/
  | finish (index : Nat) (capture : Option Captured)
  | onBackendEvent
  | runCommand
  /-- A connection is made or lost. -/
  | connect (connected : Bool)
  | files (label : FileService.Label Id Hash)

/-- The selections read and not recorded yet, in the order their reads ended. -/
def ended (state : Captures Id Hash) : List Produced := state.waiting ++ state.inbox

/-- The selections recorded that were something to share. -/
def shared (state : Captures Id Hash) : List Produced :=
  (state.recorded.filter Prod.snd).map Prod.fst

/-- How many commands are not carried out yet. -/
def commands (files : FileService Id Hash) : Nat := (files.service.backend.getD []).length

section Step
variable [LinearOrder Id] [EndpointText Id] [DecidableEq Hash] [ContentHash Hash]

/-- Whether the record that ends now has something to share. -/
def sharing (files : FileService Id Hash) : Bool :=
  match FileService.spooled files.loop with
  | some (.record _ capture _, manifest) =>
      files.service.board.shares capture (manifest.getD [])
  | _ => false

/-- Whether the record that ends now is not dropped and finds its selection to be the clip
already. -/
def finding (files : FileService Id Hash) : Bool :=
  match FileService.spooled files.loop with
  | some (.record base capture _, _) =>
      (files.service.board.head = base || files.service.board.head = files.recorded) &&
        files.service.board.finds capture
  | _ => false

/-- Follows a step of the file service. A clip that replaces another was not the selection
yet, unless it was made of one. -/
def follow (state : Captures Id Hash) (label : FileService.Label Id Hash)
    (next : FileService Id Hash) : Captures Id Hash :=
  let kept := decide (next.service.board.head = state.files.service.board.head)
  let offering := state.offering ++
    List.replicate (commands next - commands state.files) next.service.board.head
  match label with
  | .restart _ _ _ _ =>
      { files := next, shown := state.shown, selection := state.selection, announced := [],
        pendingRead := none, reading := [], inbox := [], offering := [], clipShown := none,
        produced := [], waiting := [], recorded := [] }
  | label =>
      match FileService.endsRecord state.files label, state.waiting with
      | true, read :: waiting =>
          { state with
            files := next
            offering
            clipShown :=
              if kept && !finding state.files then state.clipShown else some read.shown
            waiting
            recorded := state.recorded ++ [(read, sharing state.files)] }
      | _, _ =>
          { state with
            files := next
            offering
            clipShown := if kept then state.clipShown else none }

/-- One step; `none` when it cannot be taken. -/
def step (state : Captures Id Hash) : Label Id Hash → Option (Captures Id Hash)
  | .select usable =>
      let announcement : Announcement := { shown := state.shown + 1, usable }
      some { state with
        shown := state.shown + 1
        selection := some announcement
        announced :=
          if state.files.service.backend.isSome then state.announced ++ [announcement] else [] }
  | .dispatch =>
      match state.announced with
      | [] => none
      | announcement :: announced =>
          -- A selection with no usable type leaves what was to be read before.
          some { state with
            announced
            pendingRead := if announcement.usable then some announcement.shown
              else state.pendingRead }
  | .startPendingRead started =>
      state.pendingRead.map (fun shown =>
        { state with
          pendingRead := none
          reading := if started then state.reading ++ [shown] else state.reading })
  | .finish index capture =>
      state.reading[index]?.map (fun shown =>
        let read := capture.map (fun capture =>
          ({ shown, endedAt := state.shown, capture } : Produced))
        { state with
          reading := state.reading.eraseIdx index
          inbox := state.inbox ++ read.toList
          produced := state.produced ++ read.toList })
  | .onBackendEvent =>
      match state.inbox with
      | [] => none
      | read :: inbox =>
          (state.files.step (.copied read.capture read.capture.selection.filePaths)).map
            (fun files => { state with files, inbox, waiting := state.waiting ++ [read] })
  | .runCommand =>
      match state.files.service.backend with
      | some (command :: commands) =>
          let files :=
            { state.files with
              service := { state.files.service with backend := some commands } }
          match command with
          | .offer _ =>
              some { state with
                files
                shown := state.shown + 1
                selection := none
                offering := state.offering.tail
                clipShown :=
                  if state.offering.head? = some files.service.board.head then
                    some (state.shown + 1)
                  else state.clipShown }
          | .clear =>
              some { state with files, selection := none, offering := state.offering.tail }
      | _ => none
  | .connect connected =>
      -- A new connection is told of the selection that is there.
      some { state with
        files := { state.files with
          service := { state.files.service with
            backend := if connected then some [] else none } }
        announced := if connected then state.selection.toList else []
        pendingRead := none
        offering := [] }
  | .files label =>
      match label with
      | .copied _ _ => none
      | label => (state.files.step label).map (state.follow label)

/-- A machine that starts for the first time, on a desktop where nothing was selected. -/
def start (saves : Bool) (clock : Clock) (identity : Id) (settings : Settings) (trees : Path) :
    Captures Id Hash where
  files := .start saves clock identity settings trees
  shown := 0
  selection := none
  announced := []
  pendingRead := none
  reading := []
  inbox := []
  offering := []
  clipShown := none
  produced := []
  waiting := []
  recorded := []

/-- Whether what is selected here is shared at all. -/
def capturing (state : Captures Id Hash) : Bool := state.files.service.board.settings.capture

/-- A read that produces something ends while neither the clip nor a selection that is not
recorded yet was made after its own, where what is selected is shared at all. -/
def InOrder (state : Captures Id Hash) : Label Id Hash → Prop
  | .finish index (some _) =>
      state.capturing = true → ∀ shown ∈ state.reading[index]?,
        (∀ clip ∈ state.clipShown, clip ≤ shown) ∧ ∀ read ∈ state.ended, read.shown ≤ shown
  | _ => True

instance (state : Captures Id Hash) (label : Label Id Hash) : Decidable (state.InOrder label) :=
  match label with
  | .finish index (some _) =>
      inferInstanceAs (Decidable (state.capturing = true → ∀ shown ∈ state.reading[index]?,
        (∀ clip ∈ state.clipShown, clip ≤ shown) ∧ ∀ read ∈ state.ended, read.shown ≤ shown))
  | .finish _ none | .select _ | .dispatch | .startPendingRead _ | .onBackendEvent
  | .runCommand | .connect _ | .files _ => inferInstanceAs (Decidable True)

/-- Whether a step of the file service starts it anew. -/
def restarts : FileService.Label Id Hash → Bool
  | .restart _ _ _ _ => true
  | _ => false

/-- Nothing but records changes the clipboard, there is a stamp for each, and the machine
goes on. -/
def OnlyRecords (state : Captures Id Hash) : Label Id Hash → Prop
  | .files label =>
      restarts label = false ∧
        if FileService.endsRecord state.files label then
          Stamp.after state.files.service.board.head ≠ none
        else ∀ next ∈ state.files.step label,
          next.service.board = state.files.service.board
  | _ => True

instance (state : Captures Id Hash) (label : Label Id Hash) :
    Decidable (state.OnlyRecords label) :=
  match label with
  | .files label => inferInstanceAs (Decidable (restarts label = false ∧
      if FileService.endsRecord state.files label then
        Stamp.after state.files.service.board.head ≠ none
      else ∀ next ∈ state.files.step label, next.service.board = state.files.service.board))
  | .select _ | .dispatch | .startPendingRead _ | .finish _ _ | .onBackendEvent | .runCommand
  | .connect _ => inferInstanceAs (Decidable True)

/-- The record of a selection that was superseded before its read ended, by what the clip is
now, leaves the clip. -/
def KeepsLater (state : Captures Id Hash) (label : Label Id Hash) : Prop :=
  ∀ ends read waiting clipShown next, label = .files ends →
    FileService.endsRecord state.files ends = true → state.waiting = read :: waiting →
    state.clipShown = some clipShown → read.shown < clipShown → clipShown ≤ read.endedAt →
    state.step label = some next → next.files.service.board.clip = state.files.service.board.clip

/-! ## Every run -/

/-- Everything that is known of was made before now. -/
structure Past (state : Captures Id Hash) : Prop where
  selection : ∀ announcement ∈ state.selection, announcement.shown ≤ state.shown
  announced : ∀ announcement ∈ state.announced, announcement.shown ≤ state.shown
  pendingRead : ∀ shown ∈ state.pendingRead, shown ≤ state.shown
  reading : ∀ shown ∈ state.reading, shown ≤ state.shown
  produced : ∀ read ∈ state.produced, read.shown ≤ state.shown

/-- The history tells of the selections in the queues. -/
structure Aligned (state : Captures Id Hash) : Prop where
  captures : state.files.due Job.capture = state.waiting.map Produced.capture
  all : state.produced = state.recorded.map Prod.fst ++ state.ended

omit [LinearOrder Id] [EndpointText Id] [DecidableEq Hash] [ContentHash Hash] in
/-- A record that ends is of the read that waits longest. -/
theorem Aligned.first {state : Captures Id Hash} {job : Job Id} {capture : Captured}
    (aligned : Aligned state) (hand : state.files.loop.job = some job)
    (isRecord : job.capture = some capture) :
    ∃ read waiting, state.waiting = read :: waiting ∧ read.capture = capture := by
  have captures := aligned.captures
  rw [FileService.due, hand, Option.toList_some, List.singleton_append,
    List.filterMap_cons_some isRecord] at captures
  obtain ⟨read, waiting, pending, same, _⟩ := List.map_eq_cons_iff.mp captures.symm
  exact ⟨read, waiting, pending, same⟩

omit [LinearOrder Id] [EndpointText Id] [DecidableEq Hash] [ContentHash Hash] in
/-- Whatever is captured by a job is recorded against the head it was based on. -/
theorem capture_records (job : Job Id) : job.capture.isSome = job.base.isSome := by
  cases job <;> rfl

omit [EndpointText Id] in
/-- Where a record ends, the selection that waited for it is no longer waiting. -/
theorem follow_record (state : Captures Id Hash) (label : FileService.Label Id Hash)
    (next : FileService Id Hash) (read : Produced) (waiting : List Produced)
    (ends : FileService.endsRecord state.files label = true)
    (pending : state.waiting = read :: waiting) :
    state.follow label next = { state with
      files := next
      offering := state.offering ++
        List.replicate (commands next - commands state.files) next.service.board.head
      clipShown :=
        if decide (next.service.board.head = state.files.service.board.head) &&
            !finding state.files then state.clipShown else some read.shown
      waiting
      recorded := state.recorded ++ [(read, sharing state.files)] } := by
  cases label with
  | settle saves clock => simp [follow, ends, pending]
  | _ => cases ends

omit [EndpointText Id] in
/-- Any other step of the file service changes the service only. -/
theorem follow_plain (state : Captures Id Hash) (label : FileService.Label Id Hash)
    (next : FileService Id Hash) (ends : FileService.endsRecord state.files label = false)
    (goesOn : ∀ saves clock settings stray, label ≠ .restart saves clock settings stray) :
    state.follow label next = { state with
      files := next
      offering := state.offering ++
        List.replicate (commands next - commands state.files) next.service.board.head
      clipShown :=
        if next.service.board.head = state.files.service.board.head then state.clipShown
        else none } := by
  cases label with
  | restart saves clock settings stray => exact absurd rfl (goesOn saves clock settings stray)
  | _ => simp [follow, ends]

/-- Everything one step can do, with what it takes for it. -/
inductive Moved (state : Captures Id Hash) : Label Id Hash → Captures Id Hash → Prop where
  | selected (usable : Bool) (announced : List Announcement)
      (told : announced = state.announced ++ [{ shown := state.shown + 1, usable }] ∨
        announced = []) :
      Moved state (.select usable) { state with
        shown := state.shown + 1
        selection := some { shown := state.shown + 1, usable }
        announced }
  | dispatched (announcement : Announcement) (announced : List Announcement)
      (pendingRead : Option Nat) (told : state.announced = announcement :: announced)
      (wanted : pendingRead = some announcement.shown ∨ pendingRead = state.pendingRead) :
      Moved state .dispatch { state with announced, pendingRead }
  | started (started : Bool) (shown : Nat) (reading : List Nat)
      (pending : state.pendingRead = some shown)
      (reads : reading = state.reading ++ [shown] ∨ reading = state.reading) :
      Moved state (.startPendingRead started) { state with pendingRead := none, reading }
  | failed (index : Nat) :
      Moved state (.finish index none) { state with reading := state.reading.eraseIdx index }
  | finished (index shown : Nat) (capture : Captured)
      (listed : state.reading[index]? = some shown) :
      Moved state (.finish index (some capture)) { state with
        reading := state.reading.eraseIdx index
        inbox := state.inbox ++ [{ shown, endedAt := state.shown, capture }]
        produced := state.produced ++ [{ shown, endedAt := state.shown, capture }] }
  | handled (read : Produced) (inbox : List Produced) (files : FileService Id Hash)
      (next : state.inbox = read :: inbox)
      (copied : state.files.step (.copied read.capture read.capture.selection.filePaths) =
        some files) :
      Moved state .onBackendEvent { state with files, inbox, waiting := state.waiting ++ [read] }
  | offered (backend : Option (List Command)) (clipShown : Option Nat)
      (shows : clipShown = some (state.shown + 1) ∨ clipShown = state.clipShown) :
      Moved state .runCommand { state with
        files := { state.files with service := { state.files.service with backend } }
        shown := state.shown + 1
        selection := none
        offering := state.offering.tail
        clipShown }
  | cleared (backend : Option (List Command)) :
      Moved state .runCommand { state with
        files := { state.files with service := { state.files.service with backend } }
        selection := none
        offering := state.offering.tail }
  | connected (connected : Bool) (backend : Option (List Command))
      (announced : List Announcement)
      (told : announced = state.selection.toList ∨ announced = []) :
      Moved state (.connect connected) { state with
        files := { state.files with service := { state.files.service with backend } }
        announced
        pendingRead := none
        offering := [] }
  | restarted (saves : Bool) (clock : Clock) (settings : Settings)
      (stray : Option (UInt64 × Bytes)) (files : FileService Id Hash)
      (stepped : state.files.step (.restart saves clock settings stray) = some files) :
      Moved state (.files (.restart saves clock settings stray)) {
        files, shown := state.shown, selection := state.selection, announced := [],
        pendingRead := none, reading := [], inbox := [], offering := [], clipShown := none,
        produced := [], waiting := [], recorded := [] }
  | recorded (label : FileService.Label Id Hash) (files : FileService Id Hash)
      (read : Produced) (waiting : List Produced) (offering : List (WithBot (Stamp Id)))
      (stepped : state.files.step label = some files)
      (ends : FileService.endsRecord state.files label = true)
      (pending : state.waiting = read :: waiting) :
      Moved state (.files label) { state with
        files
        offering
        clipShown :=
          if decide (files.service.board.head = state.files.service.board.head) &&
              !finding state.files then state.clipShown else some read.shown
        waiting
        recorded := state.recorded ++ [(read, sharing state.files)] }
  | followed (label : FileService.Label Id Hash) (files : FileService Id Hash)
      (offering : List (WithBot (Stamp Id))) (stepped : state.files.step label = some files)
      (ends : FileService.endsRecord state.files label = false)
      (plain : state.files.dueAfter Job.capture label = state.files.due Job.capture)
      (goesOn : ∀ saves clock settings stray, label ≠ .restart saves clock settings stray) :
      Moved state (.files label) { state with
        files
        offering
        clipShown :=
          if files.service.board.head = state.files.service.board.head then state.clipShown
          else none }

/-- A step of the file service, seen with its history. The end of a record takes the first report
that waits, by the alignment of history and queue; a restart forgets them; and every other label
leaves both. -/
theorem follow_moved (state : Captures Id Hash) (label : FileService.Label Id Hash)
    (files : FileService Id Hash) (aligned : Aligned state)
    (own : ∀ capture paths, label ≠ .copied capture paths)
    (stepped : state.files.step label = some files) :
    Moved state (.files label) (state.follow label files) := by
  cases ends : FileService.endsRecord state.files label with
  | true =>
    obtain ⟨saves, clock, base, capture, paths, manifest, rfl, spool, _⟩ :=
      FileService.step_record state.files files label stepped ends
    obtain ⟨read, waiting, pending, _⟩ := aligned.first
      (FileService.spooled_job state.files.loop _ manifest spool) rfl
    rw [follow_record state _ files read waiting ends pending]
    exact .recorded _ files read waiting _ stepped ends pending
  | false =>
    cases label with
    | restart saves clock settings stray => exact .restarted saves clock settings stray files stepped
    | copied capture paths => exact absurd rfl (own capture paths)
    | _ =>
      rw [follow_plain state _ files ends (by rintro _ _ _ _ ⟨⟩)]
      refine .followed _ files _ stepped ends ?_ (by rintro _ _ _ _ ⟨⟩)
      simp [FileService.dueAfter, ends]

/-- Steps of the file service are followed as they are. -/
theorem step_files (state : Captures Id Hash) (label : FileService.Label Id Hash)
    (own : ∀ capture paths, label ≠ .copied capture paths) :
    state.step (.files label) = (state.files.step label).map (state.follow label) := by
  cases label with
  | copied capture paths => exact absurd rfl (own capture paths)
  | _ => rfl

/-- A step does one of these things. The cases of `Moved` say all that a step can do, guards
included, so no later proof unfolds the step function. -/
theorem step_moved (state next : Captures Id Hash) (label : Label Id Hash)
    (aligned : Aligned state) (taken : state.step label = some next) : Moved state label next := by
  cases label with
  | select usable =>
    obtain rfl := Option.some.inj taken
    refine .selected usable _ ?_
    split
    · exact Or.inl rfl
    · exact Or.inr rfl
  | dispatch =>
    obtain ⟨files, shown, selection, announced⟩ := state
    cases announced with
    | nil => cases taken
    | cons announcement announced =>
      obtain rfl := Option.some.inj taken
      refine .dispatched announcement announced _ rfl ?_
      dsimp only
      split
      · exact Or.inl rfl
      · exact Or.inr rfl
  | startPendingRead started =>
    obtain ⟨shown, pending, rfl⟩ := Option.map_eq_some_iff.mp taken
    refine .started started shown _ pending ?_
    cases started with
    | false => exact Or.inr rfl
    | true => exact Or.inl rfl
  | finish index capture =>
    obtain ⟨shown, listed, rfl⟩ := Option.map_eq_some_iff.mp taken
    cases capture with
    | none =>
      have failed : Moved state (.finish index none)
          { state with reading := state.reading.eraseIdx index } := .failed index
      simpa using failed
    | some capture => exact .finished index shown capture listed
  | onBackendEvent =>
    simp only [step] at taken
    cases inbox : state.inbox with
    | nil =>
      rw [inbox] at taken
      cases taken
    | cons read later =>
      rw [inbox] at taken
      obtain ⟨files, copied, rfl⟩ := Option.map_eq_some_iff.mp taken
      exact .handled read later files inbox copied
  | runCommand =>
    simp only [step] at taken
    cases backend : state.files.service.backend with
    | none =>
      rw [backend] at taken
      cases taken
    | some commands =>
      rw [backend] at taken
      cases commands with
      | nil => cases taken
      | cons command commands =>
        cases command with
        | offer serves =>
          obtain rfl := Option.some.inj taken
          refine .offered (some commands) _ ?_
          split
          · exact Or.inl rfl
          · exact Or.inr rfl
        | clear =>
          obtain rfl := Option.some.inj taken
          exact .cleared (some commands)
  | connect connected =>
    obtain rfl := Option.some.inj taken
    refine .connected connected _ _ ?_
    cases connected with
    | false => exact Or.inr rfl
    | true => exact Or.inl rfl
  | files label =>
    have own : ∀ capture paths, label ≠ .copied capture paths := by
      rintro capture paths rfl
      cases taken
    rw [step_files state label own] at taken
    obtain ⟨files, stepped, rfl⟩ := Option.map_eq_some_iff.mp taken
    exact follow_moved state label files aligned own stepped

/-- Nothing is known of before it is made. The count of selections only grows, and what is
announced, read or recorded next was counted when it was made. -/
theorem Moved.past {state next : Captures Id Hash} {label : Label Id Hash}
    (moved : Moved state label next) (past : Past state) : Past next := by
  have older : ∀ shown, shown ≤ state.shown → shown ≤ state.shown + 1 :=
    fun _ => Nat.le_succ_of_le
  cases moved with
  | selected usable announced told =>
    refine ⟨?_, ?_, fun shown member => older _ (past.pendingRead shown member),
      fun shown member => older _ (past.reading shown member),
      fun read member => older _ (past.produced read member)⟩
    · rintro announcement ⟨⟩
      exact le_refl _
    · obtain rfl | rfl := told
      · rw [List.forall_mem_append, List.forall_mem_singleton]
        exact ⟨fun announcement member => older _ (past.announced announcement member), le_refl _⟩
      · exact List.forall_mem_nil _
  | dispatched announcement announced pendingRead told wanted =>
    have known := past.announced
    rw [told, List.forall_mem_cons] at known
    refine ⟨past.selection, known.2, ?_, past.reading, past.produced⟩
    obtain rfl | rfl := wanted
    · rintro shown ⟨⟩
      exact known.1
    · exact past.pendingRead
  | started started shown reading pending reads =>
    refine ⟨past.selection, past.announced, by simp, ?_, past.produced⟩
    obtain rfl | rfl := reads
    · rw [List.forall_mem_append, List.forall_mem_singleton]
      exact ⟨past.reading, past.pendingRead shown pending⟩
    · exact past.reading
  | failed index =>
    exact ⟨past.selection, past.announced, past.pendingRead,
      fun other member => past.reading other (List.mem_of_mem_eraseIdx member), past.produced⟩
  | finished index shown capture listed =>
    refine ⟨past.selection, past.announced, past.pendingRead,
      fun other member => past.reading other (List.mem_of_mem_eraseIdx member), ?_⟩
    rw [List.forall_mem_append, List.forall_mem_singleton]
    exact ⟨past.produced, past.reading shown (List.mem_of_getElem? listed)⟩
  | offered backend clipShown shows =>
    exact ⟨by simp, fun announcement member => older _ (past.announced announcement member),
      fun shown member => older _ (past.pendingRead shown member),
      fun shown member => older _ (past.reading shown member),
      fun read member => older _ (past.produced read member)⟩
  | cleared backend =>
    exact ⟨by simp, past.announced, past.pendingRead, past.reading, past.produced⟩
  | connected connected backend announced told =>
    refine ⟨past.selection, ?_, by simp, past.reading, past.produced⟩
    obtain rfl | rfl := told
    · intro announcement member
      exact past.selection announcement (Option.mem_toList.mp member)
    · exact List.forall_mem_nil _
  | restarted saves clock settings stray files stepped =>
    exact ⟨past.selection, by simp, by simp, by simp, by simp⟩
  | handled read inbox files inboxed copied =>
    exact ⟨past.selection, past.announced, past.pendingRead, past.reading, past.produced⟩
  | recorded label files read waiting offering stepped ends pending =>
    exact ⟨past.selection, past.announced, past.pendingRead, past.reading, past.produced⟩
  | followed label files offering stepped ends plain goesOn =>
    exact ⟨past.selection, past.announced, past.pendingRead, past.reading, past.produced⟩

/-- The history goes on telling of the queues. What is due in the file service is what the history
has waiting, and each label adds to or takes from both alike. -/
theorem Moved.aligned {state next : Captures Id Hash} {label : Label Id Hash}
    (moved : Moved state label next) (aligned : Aligned state) : Aligned next := by
  obtain ⟨captures, all⟩ := aligned
  have due := FileService.step_due Job.capture capture_records state.files
  cases moved with
  | finished index shown capture listed =>
    refine ⟨captures, ?_⟩
    simp only [all, ended, List.append_assoc]
  | handled read inbox files inboxed copied =>
    refine ⟨?_, ?_⟩
    · refine (due files _ copied).trans ?_
      simp [FileService.dueAfter, captures, Job.capture]
    · simp [all, ended, inboxed]
  | restarted saves clock settings stray files stepped => exact ⟨due files _ stepped, rfl⟩
  | recorded label files read waiting offering stepped ends pending =>
    refine ⟨?_, ?_⟩
    · obtain ⟨saves, clock, base, capture, paths, manifest, rfl, _⟩ :=
        FileService.step_record state.files files label stepped ends
      refine (due files _ stepped).trans ?_
      simp [FileService.dueAfter, ends, captures, pending]
    · simp [all, ended, pending]
  | followed label files offering stepped ends plain goesOn =>
    exact ⟨(due files label stepped).trans (plain.trans captures), all⟩
  | _ => exact ⟨captures, all⟩

/-- The clip and the selections read, by when they were made: each was read before the clip
was the selection, or is as late, and they wait in their order. -/
structure InPlace (shown : Nat) (clipShown : Option Nat) (ended : List Produced) : Prop where
  before : ∀ read ∈ ended, read.endedAt ≤ shown
  apart : ∀ read ∈ ended, ∀ clip ∈ clipShown, clip ≤ read.shown ∨ read.endedAt < clip
  inOrder : ended.Pairwise (fun early late => early.shown ≤ late.shown)

namespace InPlace
variable {shown : Nat} {clipShown : Option Nat} {read : Produced} {ended : List Produced}

/-- The selection is taken again. -/
theorem later (inPlace : InPlace shown clipShown ended) : InPlace (shown + 1) clipShown ended where
  before read member := Nat.le_succ_of_le (inPlace.before read member)
  apart := inPlace.apart
  inOrder := inPlace.inOrder

/-- The clip is the selection now, which is after every read that ended. -/
theorem offered (inPlace : InPlace shown clipShown ended) :
    InPlace (shown + 1) (some (shown + 1)) ended where
  before := inPlace.later.before
  apart := by
    rintro read member clip ⟨⟩
    exact Or.inr (Nat.lt_succ_of_le (inPlace.before read member))
  inOrder := inPlace.inOrder

/-- A read ends after everything else that was made no later. It is behind all that were handed
over, and no selection is between it and now. -/
theorem arrives (inPlace : InPlace shown clipShown ended) (now : read.endedAt = shown)
    (clip : ∀ clip, clipShown = some clip → clip ≤ read.shown)
    (behind : ∀ other ∈ ended, other.shown ≤ read.shown) :
    InPlace shown clipShown (ended ++ [read]) where
  before := by
    rw [List.forall_mem_append, List.forall_mem_singleton]
    exact ⟨inPlace.before, now.le⟩
  apart := by
    rw [List.forall_mem_append, List.forall_mem_singleton]
    exact ⟨inPlace.apart, fun shown isClip => Or.inl (clip shown isClip)⟩
  inOrder := by
    rw [List.pairwise_append]
    refine ⟨inPlace.inOrder, List.pairwise_singleton _ _, ?_⟩
    intro other member last isLast
    rw [List.mem_singleton.mp isLast]
    exact behind other member

/-- Another clip takes the place of the one there was. -/
theorem replaced (inPlace : InPlace shown clipShown ended) : InPlace shown none ended where
  before := inPlace.before
  apart := by
    rintro read member clip ⟨⟩
  inOrder := inPlace.inOrder

/-- The selection that waits longest is recorded and leaves the clip. -/
theorem left (inPlace : InPlace shown clipShown (read :: ended)) :
    InPlace shown clipShown ended where
  before other member := inPlace.before other (List.mem_cons_of_mem _ member)
  apart other member := inPlace.apart other (List.mem_cons_of_mem _ member)
  inOrder := inPlace.inOrder.of_cons

/-- The selection that waits longest is recorded as the clip. -/
theorem taken (inPlace : InPlace shown clipShown (read :: ended)) :
    InPlace shown (some read.shown) ended where
  before := inPlace.left.before
  apart := by
    rintro other member clip ⟨⟩
    exact Or.inl ((List.pairwise_cons.mp inPlace.inOrder).1 other member)
  inOrder := inPlace.left.inOrder

end InPlace

/-- What holds along a run whose reads end in order. -/
structure Ordered (state : Captures Id Hash) : Prop where
  past : Past state
  aligned : Aligned state
  inPlace : state.capturing = true → InPlace state.shown state.clipShown state.ended

/-- What is selected is shared after a step only if it was before, but for a restart. The settings
are those of the clipboard, and these change at restarts only. -/
theorem Moved.capturing {state next : Captures Id Hash} {label : Label Id Hash}
    (moved : Moved state label next)
    (goesOn : ∀ saves clock settings stray, label ≠ .files (.restart saves clock settings stray)) :
    next.capturing = state.capturing := by
  cases moved with
  | handled read inbox files inboxed copied =>
    obtain rfl := Option.some.inj copied
    rfl
  | restarted saves clock settings stray files stepped =>
    exact absurd rfl (goesOn saves clock settings stray)
  | recorded label files read waiting offering stepped ends pending =>
    have kept := FileService.step_settings state.files files label stepped
      (fun saves clock settings stray isRestart =>
        goesOn saves clock settings stray (congrArg _ isRestart))
    exact congrArg Settings.capture kept
  | followed label files offering stepped ends plain running =>
    exact congrArg Settings.capture
      (FileService.step_settings state.files files label stepped running)
  | _ => rfl

/-- A step whose reads end in order keeps the selections in their places. A read that ends is the
first of those under way, so what it hands over comes after everything that was handed over
before. -/
theorem Moved.inPlace {state next : Captures Id Hash} {label : Label Id Hash}
    (moved : Moved state label next)
    (inPlace : state.capturing = true → InPlace state.shown state.clipShown state.ended)
    (inOrder : InOrder state label) (on : next.capturing = true) :
    InPlace next.shown next.clipShown next.ended := by
  have kept := moved.capturing
  cases moved with
  | restarted saves clock settings stray files stepped =>
    exact ⟨by simp [ended], by simp [ended], List.Pairwise.nil⟩
  | selected usable announced told => exact (inPlace on).later
  | finished index shown capture listed =>
    obtain ⟨clip, behind⟩ := inOrder on shown listed
    have now : ({ shown, endedAt := state.shown, capture } : Produced).endedAt = state.shown := rfl
    simpa [ended] using (inPlace on).arrives now clip behind
  | handled read inbox files inboxed copied =>
    rw [kept (by rintro _ _ _ _ ⟨⟩)] at on
    simpa [ended, inboxed] using inPlace on
  | offered backend clipShown shows =>
    obtain rfl | rfl := shows
    · exact (inPlace on).offered
    · exact (inPlace on).later
  | recorded label files read waiting offering stepped ends pending =>
    have goesOn : ∀ saves clock settings stray,
        Label.files label ≠ .files (.restart saves clock settings stray) := by
      rintro _ _ _ _ ⟨⟩
      cases ends
    rw [kept goesOn] at on
    have waited := inPlace on
    rw [show state.ended = read :: (waiting ++ state.inbox) by simp [ended, pending]] at waited
    dsimp only
    split
    · exact waited.left
    · exact waited.taken
  | followed label files offering stepped ends plain goesOn =>
    rw [kept (fun saves clock settings stray isRestart =>
      goesOn saves clock settings stray (Label.files.inj isRestart))] at on
    dsimp only
    split
    · exact inPlace on
    · exact (inPlace on).replaced
  | _ => exact inPlace on

/-- In order, a step leaves the reads that are not recorded yet in order. -/
theorem step_ordered (state : Captures Id Hash) (label : Label Id Hash) (next : Captures Id Hash)
    (ordered : Ordered state) (inOrder : InOrder state label)
    (taken : state.step label = some next) : Ordered next := by
  have moved := step_moved state next label ordered.aligned taken
  exact ⟨moved.past ordered.past, moved.aligned ordered.aligned,
    moved.inPlace ordered.inPlace inOrder⟩

omit [EndpointText Id] [DecidableEq Hash] in
/-- Nothing is read yet. -/
theorem start_ordered (saves : Bool) (clock : Clock) (identity : Id)
    (settings : Settings) (trees : Path) :
    Ordered (start saves clock identity settings trees : Captures Id Hash) where
  past := ⟨by simp [start], by simp [start], by simp [start], by simp [start], by simp [start]⟩
  aligned := by
    refine ⟨?_, rfl⟩
    simp [start, FileService.start, FileService.due, Service.opened_jobs, Loop.job,
      Job.capture, List.filterMap_cons]
  inPlace _ := ⟨by simp [start, ended], by simp [start, ended], List.Pairwise.nil⟩

/-- Nothing is recorded where what is selected is not shared. -/
theorem record_ignored (state next : FileService Id Hash) (label : FileService.Label Id Hash)
    (stepped : state.step label = some next)
    (ends : FileService.endsRecord state label = true)
    (off : state.service.board.settings.capture = false) :
    next.service.board.clip = state.service.board.clip := by
  obtain ⟨saves, clock, base, capture, paths, manifest, rfl, spool, rfl⟩ :=
    FileService.step_record state next label stepped ends
  simp only [FileService.settle, Service.tryChange_board]
  obtain dropped | captured := FileService.record_cases clock base state.recorded capture
    (manifest.getD []) state.service.board
  · rw [dropped]
  · rw [captured]
    simp [Clipboard.step, Clipboard.captured, off]

/-- Where the selections are in their places, none was superseded by the clip before its read
ended. -/
theorem Ordered.keepsLater {state : Captures Id Hash} (ordered : Ordered state)
    (label : Label Id Hash) : KeepsLater state label := by
  rintro ends read waiting clipShown next rfl isEnd pending isClip older before taken
  cases on : state.capturing with
  | true =>
    have first : read ∈ state.ended := by simp [ended, pending]
    have apart := (ordered.inPlace on).apart read first clipShown isClip
    omega
  | false =>
    have own : ∀ capture paths, ends ≠ .copied capture paths := by
      rintro capture paths rfl
      cases isEnd
    rw [step_files state ends own] at taken
    obtain ⟨files, stepped, rfl⟩ := Option.map_eq_some_iff.mp taken
    rw [follow_record state ends files read waiting isEnd pending]
    exact record_ignored state.files files ends stepped isEnd on

/-! ## Records alone -/

/-- What holds besides while nothing but records changes the clipboard: the last record made
the clip, which stands for the last selection that was something to share, and everything
shared was made before what waits. -/
structure Standing (state : Captures Id Hash) : Prop extends Ordered state where
  last : state.files.service.board.head = state.files.recorded
  on : state.shared ≠ [] → state.capturing = true
  unserved : state.files.service.board.served = none
  shown : ∀ read ∈ state.shared, ∃ clip, state.clipShown = some clip ∧ read.shown ≤ clip
  waits : ∀ read ∈ state.shared, ∀ other ∈ state.ended, read.shown ≤ other.shown
  sorted : state.shared.Pairwise (fun early late => early.shown ≤ late.shown)
  stands : ∀ read, state.shared.getLast? = some read →
    state.files.service.board.StandsFor read.capture

omit [EndpointText Id] in
/-- A record behind the last one is not dropped. -/
theorem settle_behind (saves : Bool) (clock : Clock) (files : FileService Id Hash)
    (base : WithBot (Stamp Id)) (capture : Captured) (paths : List Path)
    (manifest : Option (List (Files.FileRef Hash)))
    (last : files.service.board.head = files.recorded) :
    let after := FileService.settle saves clock files (.record base capture paths) manifest
    after.service.board =
        (files.service.board.captured clock capture (manifest.getD [])).1 ∧
      after.service.board.head = after.recorded := by
  have kept : ¬ (files.service.board.head ≠ base ∧ files.service.board.head ≠ files.recorded) :=
    fun dropped => dropped.2 last
  simp only [FileService.settle, Clipboard.record, if_neg kept, Service.tryChange_board, and_self]

omit [EndpointText Id] in
/-- After a record that has a stamp to give, the clip stands for its selection if that was
something to share, and for what it stood for before if not. -/
theorem record_stands (clock : Clock) (files : FileService Id Hash)
    (base : WithBot (Stamp Id)) (capture : Captured) (paths : List Path)
    (manifest : Option (List (Files.FileRef Hash))) (after : Clipboard Id Hash)
    (spool : FileService.spooled files.loop = some (.record base capture paths, manifest))
    (last : files.service.board.head = files.recorded)
    (unserved : files.service.board.served = none)
    (room : Stamp.after files.service.board.head ≠ none)
    (captured : after = (files.service.board.captured clock capture (manifest.getD [])).1) :
    after.served = none ∧
      (sharing files = true → after.StandsFor capture ∧
        (decide (after.head = files.service.board.head) && !finding files) = false) ∧
      (sharing files = false →
        ∀ other, files.service.board.StandsFor other → after.StandsFor other) := by
  have isSharing : sharing files = files.service.board.shares capture (manifest.getD []) := by
    simp [sharing, spool]
  have isFinding : finding files = files.service.board.finds capture := by
    simp [finding, spool, last]
  obtain ⟨ignored, same⟩ | ⟨found, same⟩ | ⟨selection, stamp, shares, fits, newer, same⟩ :=
    files.service.board.captured_answers clock capture (manifest.getD []) room
  · rw [captured, same, isSharing, ignored]
    refine ⟨unserved, ?_, fun _ _ stood => stood⟩
    rintro ⟨⟩
  · rw [captured, same, isFinding, found]
    refine ⟨unserved, fun _ => ⟨?_, by simp⟩, fun _ _ stood => stood⟩
    exact Clipboard.standsFor_of_finds capture files.service.board unserved found
  · rw [captured, same, isSharing, shares]
    refine ⟨rfl, fun _ => ⟨?_, ?_⟩, ?_⟩
    · refine ⟨stamp, _, rfl, ?_⟩
      rw [← Clipboard.fit_primary files.service.board capture.selection selection fits]
      rfl
    · rw [Bool.and_eq_false_iff]
      exact Or.inl (decide_eq_false newer.ne')
    · rintro ⟨⟩

/-- The end of a record of the selection that waits longest keeps the clip standing for the
last one shared. -/
theorem Standing.recorded {state : Captures Id Hash} (standing : Standing state)
    (label : FileService.Label Id Hash) (files : FileService Id Hash) (read : Produced)
    (waiting : List Produced) (offering : List (WithBot (Stamp Id)))
    (stepped : state.files.step label = some files)
    (ends : FileService.endsRecord state.files label = true)
    (pending : state.waiting = read :: waiting)
    (room : Stamp.after state.files.service.board.head ≠ none) (clipShown : Option Nat)
    (isShown : clipShown =
      if decide (files.service.board.head = state.files.service.board.head) &&
          !finding state.files then state.clipShown else some read.shown)
    (ordered : Ordered { state with
      files, offering, clipShown, waiting
      recorded := state.recorded ++ [(read, sharing state.files)] }) :
    Standing { state with
      files, offering, clipShown, waiting
      recorded := state.recorded ++ [(read, sharing state.files)] } := by
  obtain ⟨saves, clock, base, capture, paths, manifest, rfl, spool, rfl⟩ :=
    FileService.step_record state.files files label stepped ends
  obtain ⟨first, others, isFirst, isCapture⟩ := standing.aligned.first
    (FileService.spooled_job state.files.loop _ manifest spool) rfl
  obtain ⟨rfl, rfl⟩ := List.cons.inj (pending.symm.trans isFirst)
  obtain ⟨captured, behind⟩ :=
    settle_behind saves clock state.files base capture paths manifest standing.last
  obtain ⟨served, made, kept⟩ := record_stands clock state.files base capture paths manifest _
    spool standing.last standing.unserved room captured
  have settings := FileService.step_settings state.files _ _ stepped (by rintro _ _ _ _ ⟨⟩)
  have queued : state.ended = read :: (waiting ++ state.inbox) := by simp [ended, pending]
  have waited : ∀ other ∈ state.shared, other.shown ≤ read.shown :=
    fun other member => standing.waits other member read (by simp [queued])
  have waits : ∀ other ∈ state.shared, ∀ late ∈ waiting ++ state.inbox,
      other.shown ≤ late.shown :=
    fun other member late isLate => standing.waits other member late (by simp [queued, isLate])
  cases shares : sharing state.files with
  | false =>
    rw [shares] at ordered
    have same : ({ state with
        files := FileService.settle saves clock state.files (.record base capture paths) manifest
        offering, clipShown, waiting
        recorded := state.recorded ++ [(read, false)] } : Captures Id Hash).shared =
          state.shared := by simp [shared]
    refine ⟨ordered, behind, ?_, served, ?_, ?_, ?_, ?_⟩
    · rw [same]
      exact fun some_shared =>
        (congrArg Settings.capture settings).trans (standing.on some_shared)
    · rw [same, isShown]
      intro other member
      split
      · exact standing.shown other member
      · exact ⟨read.shown, rfl, waited other member⟩
    · rw [same]
      exact waits
    · rw [same]
      exact standing.sorted
    · rw [same]
      exact fun other isLast => kept shares other.capture (standing.stands other isLast)
  | true =>
    rw [shares] at ordered
    obtain ⟨stands, shown⟩ := made shares
    rw [shown, if_neg Bool.false_ne_true] at isShown
    have on : state.capturing = true := by
      simp only [sharing, spool, Clipboard.shares, Bool.and_eq_true] at shares
      exact shares.1
    have grown : ({ state with
        files := FileService.settle saves clock state.files (.record base capture paths) manifest
        offering, clipShown, waiting
        recorded := state.recorded ++ [(read, true)] } : Captures Id Hash).shared =
          state.shared ++ [read] := by simp [shared]
    refine ⟨ordered, behind, fun _ => (congrArg Settings.capture settings).trans on, served,
      ?_, ?_, ?_, ?_⟩
    · rw [grown, isShown, List.forall_mem_append, List.forall_mem_singleton]
      exact ⟨fun other member => ⟨read.shown, rfl, waited other member⟩, read.shown, rfl, le_refl _⟩
    · rw [grown, List.forall_mem_append, List.forall_mem_singleton]
      have inOrder := (standing.inPlace on).inOrder
      rw [queued] at inOrder
      exact ⟨waits, (List.pairwise_cons.mp inOrder).1⟩
    · rw [grown, List.pairwise_append]
      refine ⟨standing.sorted, List.pairwise_singleton _ _, ?_⟩
      intro other member last isLast
      rw [List.mem_singleton.mp isLast]
      exact waited other member
    · intro other isLast
      rw [grown, List.getLast?_concat] at isLast
      obtain rfl := Option.some.inj isLast
      exact isCapture ▸ stands

/-- While nothing but records changes the clipboard, every step keeps the clip standing for
the last selection that was shared. -/
theorem Moved.standing {state next : Captures Id Hash} {label : Label Id Hash}
    (moved : Moved state label next) (standing : Standing state) (ordered : Ordered next)
    (inOrder : InOrder state label) (only : OnlyRecords state label) : Standing next := by
  obtain ⟨before, last, on, unserved, shown, waits, sorted, stands⟩ := standing
  cases moved with
  | finished index read capture listed =>
    refine ⟨ordered, last, on, unserved, shown, ?_, sorted, stands⟩
    intro other member
    have behind : ∀ late ∈ state.ended, other.shown ≤ late.shown := waits other member
    obtain ⟨clip, isClip, earlier⟩ := shown other member
    obtain ⟨clipEarlier, _⟩ := inOrder (on (List.ne_nil_of_mem member)) read listed
    rw [ended, ← List.append_assoc, List.forall_mem_append, List.forall_mem_singleton]
    exact ⟨behind, earlier.trans (clipEarlier clip isClip)⟩
  | handled read inbox files inboxed copied =>
    obtain rfl := Option.some.inj copied
    have same : state.waiting ++ [read] ++ inbox = state.ended := by simp [ended, inboxed]
    refine ⟨ordered, last, on, unserved, shown, ?_, sorted, stands⟩
    exact fun other member late isLate => waits other member late (same ▸ isLate)
  | offered backend clipShown shows =>
    refine ⟨ordered, last, on, unserved, ?_, waits, sorted, stands⟩
    obtain rfl | rfl := shows
    · intro read member
      refine ⟨state.shown + 1, rfl, ?_⟩
      have among : read ∈ state.produced := by
        obtain ⟨entry, listed, rfl⟩ := List.mem_map.mp member
        rw [before.aligned.all]
        exact List.mem_append_left _ (List.mem_map_of_mem (List.mem_of_mem_filter listed))
      exact Nat.le_succ_of_le (before.past.produced read among)
    · exact shown
  | restarted saves clock settings stray files stepped => cases only.1
  | recorded label files read waiting offering stepped ends pending =>
    have room := only.2
    rw [if_pos ends] at room
    exact Standing.recorded ⟨before, last, on, unserved, shown, waits, sorted, stands⟩ label files
      read waiting offering stepped ends pending room _ rfl ordered
  | followed label files offering stepped ends plain goesOn =>
    have same : files.service.board = state.files.service.board := by
      have plain := only.2
      rw [ends, if_neg Bool.false_ne_true] at plain
      exact plain files stepped
    obtain ⟨recorded, _⟩ := FileService.step_onward state.files files label stepped ends goesOn
    refine ⟨ordered, ?_, ?_, ?_, ?_, waits, sorted, ?_⟩
    · dsimp only
      rw [same, recorded]
      exact last
    · intro some_shared
      exact (congrArg (fun board => board.settings.capture) same).trans (on some_shared)
    · dsimp only
      rw [same]
      exact unserved
    · dsimp only
      rw [same, if_pos rfl]
      exact shown
    · dsimp only
      rw [same]
      exact stands
  | _ => exact ⟨ordered, last, on, unserved, shown, waits, sorted, stands⟩

/-- In order and with records only, the clip stays the last selection that was recorded. -/
theorem step_standing (state : Captures Id Hash) (label : Label Id Hash)
    (next : Captures Id Hash) (standing : Standing state)
    (guard : InOrder state label ∧ OnlyRecords state label)
    (taken : state.step label = some next) : Standing next :=
  (step_moved state next label standing.aligned taken).standing standing
    (step_ordered state label next standing.toOrdered guard.1 taken) guard.1 guard.2

omit [EndpointText Id] [DecidableEq Hash] in
/-- Nothing is recorded yet. -/
theorem start_standing (saves : Bool) (clock : Clock) (identity : Id)
    (settings : Settings) (trees : Path) :
    Standing (start saves clock identity settings trees : Captures Id Hash) where
  toOrdered := start_ordered saves clock identity settings trees
  last := by
    simp only [start, FileService.start, Service.opened_board, Clipboard.new, Clipboard.head]
    rfl
  on := by simp [start, shared]
  unserved := by simp [start, FileService.start, Clipboard.new]
  shown := by simp [start, shared]
  waits := by simp [start, shared]
  sorted := List.Pairwise.nil
  stands := by simp [start, shared]

/-- No read is under way or to be started, and all that ended are recorded. -/
structure Done (state : Captures Id Hash) : Prop where
  pendingRead : state.pendingRead = none
  reading : state.reading = []
  inbox : state.inbox = []
  records : state.files.due Job.base = []

omit [LinearOrder Id] [EndpointText Id] [DecidableEq Hash] [ContentHash Hash] in
/-- Where no record is left, no selection waits. -/
theorem Done.ended {state : Captures Id Hash} (done : Done state) (aligned : Aligned state) :
    state.ended = [] := by
  have no_captures : state.files.due Job.capture = [] := by
    have records := done.records
    rw [FileService.due, List.filterMap_eq_nil_iff] at records ⊢
    exact fun job member =>
      FileService.about_plain Job.capture capture_records job (records job member)
  have captures := aligned.captures
  rw [no_captures] at captures
  rw [Captures.ended, List.map_eq_nil_iff.mp captures.symm, done.inbox, List.append_nil]

/-- The latest selection wins where reads end in order. Along every run in which a read that
produces something ends only while neither the clip nor a selection still to be recorded was
made after its own, no selection takes the place of what superseded it before its read
ended. And while nothing but records changes the clipboard, the clip stands for the last
selection that was something to share, of all that were read, once no read and no record is
left. -/
theorem latest_selection_wins (saves : Bool) (clock : Clock) (identity : Id)
    (settings : Settings) (trees : Path) (labels : List (Label Id Hash)) (last : Captures Id Hash)
    (reached : Runs.run step (start saves clock identity settings trees) labels = some last)
    (inOrder : Runs.Guarded step InOrder (start saves clock identity settings trees) labels) :
    Runs.Guarded step KeepsLater (start saves clock identity settings trees) labels ∧
      (Runs.Guarded step OnlyRecords (start saves clock identity settings trees) labels → Done last →
        last.recorded.map Prod.fst = last.produced ∧
        ∀ read, last.shared.getLast? = some read →
          (∀ other ∈ last.shared, other.shown ≤ read.shown) ∧
          last.files.service.board.StandsFor read.capture) := by
  have first : Ordered (start saves clock identity settings trees : Captures Id Hash) :=
    start_ordered saves clock identity settings trees
  refine ⟨?_, ?_⟩
  · exact Runs.guarded_of_guarded step InOrder KeepsLater Ordered step_ordered
      (fun _ label ordered _ => ordered.keepsLater label) _ labels first inOrder
  · intro only done
    have both := (Runs.guarded_and_iff step InOrder OnlyRecords _ labels).mpr ⟨inOrder, only⟩
    have standing : Standing last := Runs.guarded_invariant step _ Standing step_standing _ _
      labels (start_standing saves clock identity settings trees) both reached
    refine ⟨?_, fun read isLast => ⟨?_, standing.stands read isLast⟩⟩
    · rw [standing.aligned.all, done.ended standing.aligned, List.append_nil]
    · intro other member
      obtain ⟨earlier, all⟩ := List.getLast?_eq_some_iff.mp isLast
      have sorted := standing.sorted
      rw [all] at member sorted
      rw [List.mem_append, List.mem_singleton] at member
      obtain early | rfl := member
      · exact (List.pairwise_append.mp sorted).2.2 other early read (List.mem_singleton_self _)
      · exact le_refl _

end Step

section Words

open FileService (word atOnce)

/-- A first start, with nothing to do yet. -/
def settled : List (Label Nat Bytes) :=
  [.files .sweep, .files .sweep, .files .sweep, .files .sweep, .files .takeJob, .files .sweep,
    .files .sweep, .files .sweep, .files .sweep, .connect true]

/-- A word is selected, and the read of it starts. -/
def selected : List (Label Nat Bytes) := [.select true, .dispatch, .startPendingRead true]

/-- The read of a selection ends with a word, which is recorded. -/
def read (index : Nat) (letter : UInt8) : List (Label Nat Bytes) :=
  [.finish index (some (word letter)), .onBackendEvent, .files .takeJob,
    .files (.settle true atOnce)]

/-- The sweep behind a record. -/
def swept : List (Label Nat Bytes) :=
  [.files .takeJob, .files .sweep, .files .sweep, .files .sweep, .files .sweep]

/-- Two words are selected while neither is read, and the reads end in order. -/
def inTurn : List (Label Nat Bytes) :=
  settled ++ (selected ++ (selected ++ (read 0 97 ++ (swept ++ read 0 98))))

/-- The clip stands for the second word. Both reads end in order and nothing is on its way any
more. -/
theorem latest_selection_wins_in_turn :
    ∃ last : Captures Nat Bytes,
      Runs.run step (start true atOnce 0 Settings.default [47]) inTurn = some last ∧
      Runs.Guarded step KeepsLater (start true atOnce 0 Settings.default [47]) inTurn ∧
      last.produced.map Produced.shown = [1, 2] ∧
      last.files.service.board.StandsFor (word 98) := by
  have observed :
      (Runs.run step (start true atOnce 0 Settings.default [47]) inTurn).map (fun last =>
        decide (last.pendingRead = none) && decide (last.reading = []) &&
          decide (last.inbox = []) && decide (last.files.due Job.base = []) &&
          decide (last.produced.map Produced.shown = [1, 2]) &&
          decide (last.shared.getLast? = some { shown := 2, endedAt := 2, capture := word 98 })) =
        some true := by decide
  obtain ⟨last, reached, holds⟩ := Option.map_eq_some_iff.mp observed
  simp only [Bool.and_eq_true, decide_eq_true_eq] at holds
  obtain ⟨⟨⟨⟨⟨pendingRead, reading⟩, inbox⟩, records⟩, produced⟩, isLast⟩ := holds
  obtain ⟨keeps, wins⟩ := latest_selection_wins true atOnce 0 Settings.default [47] inTurn last reached
    (by decide)
  obtain ⟨_, stands⟩ := wins (by decide) ⟨pendingRead, reading, inbox, records⟩
  exact ⟨last, reached, keeps, produced, (stands _ isLast).2⟩

/-- Two words are selected while neither is read, and the read of the first one ends last. -/
def outOfTurn : List (Label Nat Bytes) :=
  settled ++ (selected ++ (selected ++ (read 1 98 ++ (swept ++ (read 0 97).dropLast))))

/-- The word that was superseded before its read ended takes the place of the one that
superseded it, and stays when all is done. -/
theorem a_late_read_takes_the_place :
    ∃ before last : Captures Nat Bytes,
      Runs.run step (start true atOnce 0 Settings.default [47]) outOfTurn = some before ∧
      before.step (.files (.settle true atOnce)) = some last ∧
      ¬ KeepsLater before (.files (.settle true atOnce)) ∧
      Runs.Guarded step OnlyRecords (start true atOnce 0 Settings.default [47]) outOfTurn ∧
      Done last ∧ last.shared.map Produced.shown = [2, 1] ∧
      last.files.service.board.StandsFor (word 97) ∧
      ¬ last.files.service.board.StandsFor (word 98) := by
  have observed :
      ((Runs.run step (start true atOnce 0 Settings.default [47]) outOfTurn).bind (fun before =>
        (before.step (.files (.settle true atOnce))).map (fun last => (before, last)))).map
          (fun ends =>
            decide (FileService.endsRecord ends.1.files (.settle true atOnce) = true) &&
            decide (ends.1.waiting = [{ shown := 1, endedAt := 2, capture := word 97 }]) &&
            decide (ends.1.clipShown = some 2) &&
            decide (ends.2.files.service.board.clip ≠ ends.1.files.service.board.clip) &&
            decide (ends.2.pendingRead = none) && decide (ends.2.reading = []) &&
            decide (ends.2.inbox = []) && decide (ends.2.files.due Job.base = []) &&
            decide (ends.2.shared.map Produced.shown = [2, 1]) &&
            decide (ends.2.files.service.board.current.map
              (fun entry => entry.2.selection.primary.bytes) = some [97])) = some true := by
    decide
  obtain ⟨⟨before, last⟩, found, holds⟩ := Option.map_eq_some_iff.mp observed
  obtain ⟨_, reached, ended⟩ := Option.bind_eq_some_iff.mp found
  obtain ⟨_, stepped, same⟩ := Option.map_eq_some_iff.mp ended
  obtain ⟨rfl, rfl⟩ := Prod.mk.inj same
  simp only [Bool.and_eq_true, decide_eq_true_eq] at holds
  obtain ⟨⟨⟨⟨⟨⟨⟨⟨⟨ends, waiting⟩, clipShown⟩, moved⟩, pendingRead⟩, reading⟩, inbox⟩, records⟩,
    shared⟩, current⟩ := holds
  obtain ⟨⟨stamp, copy⟩, held, bytes⟩ := Option.map_eq_some_iff.mp current
  refine ⟨_, _, reached, stepped, ?_, by decide, ⟨pendingRead, reading, inbox, records⟩, shared,
    ⟨stamp, copy, held, bytes⟩, ?_⟩
  · intro keeps
    exact moved (keeps _ _ _ _ _ rfl ends waiting clipShown (by decide) (by decide) stepped)
  · rintro ⟨_, _, other, word⟩
    obtain ⟨rfl, rfl⟩ := Prod.mk.inj (Option.some.inj (held.symm.trans other))
    cases bytes.symm.trans word

end Words

end Captures

end Yank
