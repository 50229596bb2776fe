import Yank.Following
import Yank.OwnSources

/-!
# What the local clipboard shows

The service decides under its lock what the clipboard holds and queues what the compositor is to
be told; the backend's thread and the compositor carry it out later, while other applications
take the selection when they please. Here both run together: the events of one process of the
service, and everything between its queue and the compositor's selection.

Once nothing is on its way, a selection of ours is what the clip is offered as. As long as no
application meddles there is one exactly when the clipboard holds something, save for the clip
the service was opened with, which nobody was told of yet.
-/

namespace Yank.Showing

open Wayland Wayland.Ownership

variable {Id Hash : Type}

/-- What effects ask of the backend, in order. -/
def commandsOf (effects : List (Effect Id)) : List Command :=
  effects.filterMap (fun effect =>
    match effect with
    | .backend command => some command
    | _ => none)

/-- The service and the backend it is connected to. -/
structure Machine (Id Hash : Type) where
  board : Clipboard Id Hash
  backend : Ownership

/-- What happens next: something is done to the clip, or something on the backend's side. -/
inductive Label (Id Hash : Type) where
  | event (event : Clipboard.Event Id Hash)
  | backend (label : OwnershipLabel)

/-- No process outlives a restart. -/
def isRestart : Clipboard.Event Id Hash → Bool
  | .restart _ _ => true
  | _ => false

/-- A command comes from nowhere but the service. -/
def isCommand : OwnershipLabel → Bool
  | .command _ => true
  | _ => false

/-- Queues commands for the backend. -/
def send (commands : List Command) (backend : Ownership) : Ownership :=
  { backend with commands := backend.commands ++ commands }

section Order
variable [LinearOrder Id] [ContentHash Hash]

/-- The service, whatever it holds, and a session it has just connected to. -/
def start (board : Clipboard Id Hash) : Machine Id Hash where
  board := board
  backend := Ownership.start

/-- What the board has the local clipboard show. -/
def shown (board : Clipboard Id Hash) : Contents :=
  match board.current with
  | some (_, copy) => .served (board.offered copy)
  | none => .nothing

variable [DecidableEq Hash]

/-- One event with its effects performed, or one step of the backend's side. -/
def step (machine : Machine Id Hash) : Label Id Hash → Option (Machine Id Hash)
  | .event event =>
      if isRestart event then none
      else some {
        board := (machine.board.step event).1
        backend := send (commandsOf (effectsOf (machine.board.step event))) machine.backend }
  | .backend label =>
      if isCommand label then none
      else (Ownership.step machine.backend label).map
        (fun backend => { machine with backend })

end Order

/-! ## Commands on their way -/

/-- What is left by commands is settled by them alone, or they leave everything. The induction is
on the commands: a clear or an offer of something settles it, and an offer of nothing leaves it.
-/
theorem leaves_cases (commands : List Command) :
    (∃ left, ∀ before, commands.foldl leaves before = left) ∨
      ∀ before, commands.foldl leaves before = before := by
  induction commands with
  | nil => exact .inr fun before => rfl
  | cons command commands inductionHypothesis =>
    obtain ⟨left, settled⟩ | kept := inductionHypothesis
    · exact .inl ⟨left, fun before => settled _⟩
    · cases command with
      | clear => exact .inl ⟨.nothing, fun before => kept _⟩
      | offer serves =>
        by_cases empty : serves = []
        · refine .inr fun before => ?_
          rw [List.foldl_cons, kept, leaves, if_pos empty]
        · refine .inl ⟨.served serves, fun before => ?_⟩
          rw [List.foldl_cons, kept, leaves, if_neg empty]

/-- A selection of ours that will be there although another application has taken or left the
selection would have been there anyway. -/
theorem outcome_foreign (backend : Ownership) (events : List SourceEvent) (owner : Owner)
    (others : ∀ source, owner ≠ .ours source) (serves : List Serve)
    (served : ({ backend with owner, events } : Ownership).outcome = .served serves) :
    backend.outcome = .served serves := by
  rw [outcome] at served ⊢
  obtain ⟨left, settled⟩ | kept := leaves_cases backend.commands
  · rw [settled] at served ⊢
    exact served
  · rw [kept] at served ⊢
    dsimp only at served
    cases last : owner.settle backend.requests with
    | nobody =>
      rw [last] at served
      cases served
    | another =>
      rw [last] at served
      cases served
    | ours source =>
      rw [last] at served
      rw [Owner.settle_foreign backend.owner owner backend.requests source others last, served]

/-- Nothing but a command puts a selection of ours there. What the thread and the compositor do
leaves what there will be to paste, and another application puts nothing of ours there. -/
theorem step_served (backend next : Ownership) (label : OwnershipLabel) (owned : backend.Owned)
    (uncommanded : isCommand label = false) (taken : Ownership.step backend label = some next)
    (serves : List Serve) (served : next.outcome = .served serves) :
    backend.outcome = .served serves := by
  have kept : isForeign label = false → next.outcome = backend.outcome := by
    intro ours
    have word : commanded [label] = [] := by
      cases label with
      | command command => cases uncommanded
      | _ => rfl
    rw [step_outcome backend next label owned ours taken, word, List.foldl_nil]
  cases label with
  | take =>
    cases taken
    exact outcome_foreign backend _ .another (by rintro source ⟨⟩) serves served
  | leave =>
    rw [Ownership.step] at taken
    split at taken
    case isFalse => cases taken
    case isTrue =>
      cases taken
      exact outcome_foreign backend backend.events .nobody (by rintro source ⟨⟩) serves served
  | _ => exact (kept rfl).symm.trans served

/-- Commands that are queued follow those on their way. -/
theorem outcome_send (commands : List Command) (backend : Ownership) :
    (send commands backend).outcome = commands.foldl leaves backend.outcome :=
  List.foldl_append

/-- Queueing commands changes nothing of whose the selection is. -/
theorem Owned.send {backend : Ownership} (owned : backend.Owned) (commands : List Command) :
    (send commands backend).Owned := { owned with }

/-! ## What one event asks of the backend -/

section Asking
variable [LinearOrder Id]

omit [LinearOrder Id] in
/-- The commands of effects are those of each part. -/
theorem commandsOf_append (early late : List (Effect Id)) :
    commandsOf (early ++ late) = commandsOf early ++ commandsOf late :=
  List.filterMap_append

/-- Some representation is always offered. -/
theorem offered_stocked (board : Clipboard Id Hash) (copy : Copy Hash) :
    board.offered copy ≠ [] := by
  obtain ⟨more, first⟩ := serves_head (board.carried copy)
  rw [Clipboard.offered, first]
  exact List.cons_ne_nil _ _

variable [ContentHash Hash]

/-- Bringing the local clipboard in line has it show what the board holds, unless clips are kept
off it or there is nothing to take off it. -/
theorem apply_leaves (board : Clipboard Id Hash) (before : Contents) :
    board.settings.apply = false ∧ commandsOf board.apply.2 = [] ∨
      (commandsOf board.apply.2).foldl leaves before = shown board ∨
      commandsOf board.apply.2 = [] ∧ board.current = none ∧
        (board.clip = none ∨ board.applied = none) := by
  rw [Clipboard.apply, shown, Clipboard.current]
  cases on : board.settings.apply with
  | false => exact .inl ⟨rfl, rfl⟩
  | true =>
    right
    cases held : board.clip with
    | none => exact .inr ⟨rfl, rfl, .inl rfl⟩
    | some clip =>
      cases copied : clip.copy with
      | none =>
        cases board.applied with
        | none => exact .inr ⟨by simp [copied, commandsOf], by simp [copied], .inr rfl⟩
        | some stamp =>
          left
          simp [copied, commandsOf, leaves]
      | some copy =>
        left
        have asked : ∀ fetched : List (Effect Id), commandsOf fetched = [] →
            (commandsOf (fetched ++ [.backend (.offer (board.offered copy))])).foldl leaves
              before = .served (board.offered copy) := by
          intro fetched silent
          rw [commandsOf_append, silent, List.nil_append]
          exact if_neg (offered_stocked board copy)
        simp only [Bool.not_true, Bool.false_eq_true, ↓reduceIte, copied, Option.bind_some,
          Option.map_some]
        refine asked _ ?_
        split <;> rfl

/-- What is applied is shown as it was made ready. -/
theorem shown_apply (board : Clipboard Id Hash) : shown board.apply.1 = shown board := by
  simp only [shown, Clipboard.apply_current, Clipboard.apply_shows]

omit [ContentHash Hash] in
/-- Making a board ready asks nothing of the backend. -/
theorem readied_silent {board ready : Clipboard Id Hash} {event : Clipboard.Event Id Hash}
    {first : List (Effect Id)} (readied : Clipboard.Readied board event ready first) :
    commandsOf first = [] := by
  cases readied <;> rfl

omit [ContentHash Hash] in
/-- Making a board ready marks nothing as put on the local clipboard, and what it leaves without
a clip had none. -/
theorem readied_applied {board ready : Clipboard Id Hash} {event : Clipboard.Event Id Hash}
    {first : List (Effect Id)} (readied : Clipboard.Readied board event ready first) :
    ready.applied = board.applied ∧ (ready.clip = none → board.clip = none) := by
  have lapsed : ∀ (now : SystemTime) (other : Clipboard Id Hash),
      (other.lapse now).applied = other.applied ∧
        ((other.lapse now).clip = none → other.clip = none) := by
    intro now other
    obtain same | ⟨clip, _, _, dropped⟩ := Clipboard.lapse_cases now other
    · rw [same]
      exact ⟨rfl, id⟩
    · rw [dropped]
      exact ⟨rfl, by rintro ⟨⟩⟩
  cases readied with
  | copied => exact ⟨rfl, by rintro ⟨⟩⟩
  | cleared => exact ⟨rfl, by rintro ⟨⟩⟩
  | taken clock clip =>
    obtain ⟨applied, empty⟩ := lapsed clock.lapse (board.set clock.set clip)
    exact ⟨applied, fun none => by cases empty none⟩
  | lapsed now => exact lapsed now board
  | landed => exact ⟨rfl, id⟩

omit [ContentHash Hash] in
/-- Where clips reach the local clipboard, nothing is held by a board that put nothing there. -/
theorem tracked_nothing (board : Clipboard Id Hash) (tracked : board.Tracked)
    (applies : board.settings.apply = true)
    (untouched : board.clip = none ∨ board.applied = none) : shown board = .nothing := by
  rw [shown]
  cases held : board.current with
  | none => rfl
  | some current =>
    obtain ⟨stamp, copy⟩ := current
    obtain empty | unmarked := untouched
    · rw [Clipboard.current, empty] at held
      cases held
    · have marked := tracked applies stamp copy held
      rw [unmarked] at marked
      cases marked

variable [DecidableEq Hash]

/-- The selection an event reports is not shared. -/
def KeptBack (settings : Settings) (event : Clipboard.Event Id Hash) : Prop :=
  ∀ clock capture files, event = .captured clock capture files → settings.capture = false

/-- An event that shares no reported selection leaves the board and asks for nothing, or applies
a board it made ready. -/
theorem step_asks (board : Clipboard Id Hash) (event : Clipboard.Event Id Hash)
    (running : isRestart event = false) (kept : KeptBack board.settings event) :
    (board.step event).1 = board ∧ commandsOf (effectsOf (board.step event)) = [] ∨
      ∃ ready first, Clipboard.Readied board event ready first ∧
        (board.step event).1 = ready.apply.1 ∧
        commandsOf (effectsOf (board.step event)) = commandsOf ready.apply.2 := by
  have did := board.step_did event
  have ignored : ∀ clock capture files, event = .captured clock capture files →
      board.step event = (board, .ok []) := by
    rintro clock capture files rfl
    rw [Clipboard.step, Clipboard.captured, kept clock capture files rfl]
    rfl
  generalize board.step event = outcome at did ignored ⊢
  cases did with
  | nothing answer silent => exact .inl ⟨rfl, by rw [silent]; rfl⟩
  | echoed clock capture files selection reported =>
    rw [ignored clock capture files reported]
    exact .inl ⟨rfl, rfl⟩
  | recorded clock capture files selection stamp reported =>
    rw [ignored clock capture files reported]
    exact .inl ⟨rfl, rfl⟩
  | applied ready first readied =>
    refine .inr ⟨ready, first, readied, rfl, ?_⟩
    change commandsOf (first ++ ready.apply.2) = _
    rw [commandsOf_append, readied_silent readied, List.nil_append]
  | restarted clock settings isRestart =>
    subst isRestart
    cases running

/-- An event has the local clipboard show what the board then holds, or asks nothing of it: it
changes nothing, clips are kept off it, or there is and was nothing to show. -/
theorem step_leaves (board : Clipboard Id Hash) (event : Clipboard.Event Id Hash)
    (before : Contents) (tracked : board.Tracked) (running : isRestart event = false)
    (kept : KeptBack board.settings event) :
    (commandsOf (effectsOf (board.step event))).foldl leaves before =
        shown (board.step event).1 ∧ board.settings.apply = true ∨
      commandsOf (effectsOf (board.step event)) = [] ∧
        ((board.step event).1 = board ∨ board.settings.apply = false ∨
          shown (board.step event).1 = .nothing ∧ shown board = .nothing) := by
  obtain ⟨same, silent⟩ | ⟨ready, first, readied, made, asked⟩ :=
    step_asks board event running kept
  · exact .inr ⟨silent, .inl same⟩
  · rw [made, asked, shown_apply]
    rw [← readied.settings]
    obtain ⟨off, silent⟩ | told | ⟨silent, empty, untouched⟩ := apply_leaves ready before
    · exact .inr ⟨silent, .inr (.inl off)⟩
    · cases on : ready.settings.apply with
      | true => exact .inl ⟨told, rfl⟩
      | false =>
        have silent : commandsOf ready.apply.2 = [] := by
          rw [Clipboard.apply, on]
          rfl
        exact .inr ⟨silent, .inr (.inl rfl)⟩
    · cases on : ready.settings.apply with
      | false => exact .inr ⟨silent, .inr (.inl rfl)⟩
      | true =>
        refine .inr ⟨silent, .inr (.inr ⟨by rw [shown, empty], ?_⟩)⟩
        obtain ⟨applied, clip⟩ := readied_applied readied
        refine tracked_nothing board tracked (by rw [← readied.settings, on]) ?_
        exact untouched.imp clip fun unmarked => applied.symm.trans unmarked

end Asking

/-! ## Runs -/

section Running
variable [LinearOrder Id] [ContentHash Hash]

/-- The thread and the compositor agree on the sources there are, and what was put on the local
clipboard is tracked. -/
structure Sound (settings : Settings) (machine : Machine Id Hash) : Prop where
  owned : machine.backend.Owned
  configured : machine.board.settings = settings
  tracked : machine.board.Tracked

/-- A selection of ours that will be there is what the clip is offered as. -/
def Faithful (machine : Machine Id Hash) : Prop :=
  ∀ serves, machine.backend.outcome = .served serves →
    machine.board.settings.apply = true ∧ shown machine.board = .served serves

/-- There will be to paste what the board shows. -/
def Told (machine : Machine Id Hash) : Prop :=
  machine.board.settings.apply = true ∧ machine.backend.outcome = shown machine.board

variable [DecidableEq Hash]

/-- No selection that is reported is shared. -/
def Keeps (settings : Settings) : Label Id Hash → Prop
  | .event event => KeptBack settings event
  | .backend _ => True

/-- Another application takes the selection, or it goes. -/
def meddles : Label Id Hash → Bool
  | .event _ => false
  | .backend label => isForeign label

section Moving
variable (settings : Settings) (machine next : Machine Id Hash)

/-- A step of the backend's side is no command and leaves the board. -/
theorem backend_moves (label : OwnershipLabel)
    (taken : step machine (.backend label) = some next) :
    isCommand label = false ∧ next.board = machine.board ∧
      Ownership.step machine.backend label = some next.backend := by
  rw [step] at taken
  split at taken
  case isTrue => cases taken
  case isFalse uncommanded =>
    obtain ⟨backend, moved, rfl⟩ := Option.map_eq_some_iff.mp taken
    exact ⟨Bool.eq_false_iff.mpr uncommanded, rfl, moved⟩

/-- An event is no restart; its commands follow those on their way. -/
theorem event_moves (event : Clipboard.Event Id Hash)
    (taken : step machine (.event event) = some next) :
    isRestart event = false ∧ next.board = (machine.board.step event).1 ∧
      next.backend = send (commandsOf (effectsOf (machine.board.step event))) machine.backend := by
  rw [step] at taken
  split at taken
  case isTrue => cases taken
  case isFalse going =>
    cases taken
    exact ⟨Bool.eq_false_iff.mpr going, rfl, rfl⟩

/-- Whatever happens next, the thread and the compositor agree on the sources. A label of the
compositor leaves the settings and the board, and an event of the board gives the commands that go
with it. -/
theorem step_sound (label : Label Id Hash) (sound : Sound settings machine)
    (taken : step machine label = some next) : Sound settings next := by
  cases label with
  | backend label =>
    obtain ⟨_, same, moved⟩ := backend_moves machine next label taken
    exact
      { owned := step_owned machine.backend next.backend label sound.owned moved
        configured := same ▸ sound.configured
        tracked := same ▸ sound.tracked }
  | event event =>
    obtain ⟨running, board, backend⟩ := event_moves machine next event taken
    have unchanged : (machine.board.step event).1.settings = machine.board.settings := by
      refine Clipboard.step_settings machine.board event ?_
      rintro ⟨clock, settings, rfl⟩
      cases running
    exact
      { owned := backend ▸ Owned.send sound.owned _
        configured := board ▸ unchanged.trans sound.configured
        tracked := board ▸ Clipboard.step_tracked machine.board event sound.tracked }

/-- An event that shares no reported selection has there be to paste what the board then shows,
or what there was to be: it asks nothing and changes nothing, clips are kept off the local
clipboard, or there is and was nothing to show. -/
theorem event_outcome (event : Clipboard.Event Id Hash) (kept : KeptBack settings event)
    (sound : Sound settings machine) (taken : step machine (.event event) = some next) :
    Told next ∨
      commandsOf (effectsOf (machine.board.step event)) = [] ∧
        next.backend.outcome = machine.backend.outcome ∧
          (next.board = machine.board ∨ settings.apply = false ∨
            shown next.board = .nothing ∧ shown machine.board = .nothing) := by
  have configured := (step_sound settings machine next (.event event) sound taken).configured
  obtain ⟨running, board, backend⟩ := event_moves machine next event taken
  rw [← sound.configured] at kept configured ⊢
  obtain ⟨shows, on⟩ | ⟨silent, which⟩ := step_leaves machine.board event machine.backend.outcome
    sound.tracked running kept
  · refine .inl ⟨configured ▸ on, ?_⟩
    rw [backend, board, outcome_send, shows]
  · refine .inr ⟨silent, ?_, board ▸ which⟩
    rw [backend, outcome_send, silent]
    rfl

/-- Where no report is shared, a selection of ours that will be there stays what the clip is offered
as. -/
theorem step_faithful (label : Label Id Hash) (kept : Keeps settings label)
    (sound : Sound settings machine) (faithful : Faithful machine)
    (taken : step machine label = some next) : Faithful next := by
  have configured := (step_sound settings machine next label sound taken).configured
  intro serves served
  cases label with
  | backend label =>
    obtain ⟨uncommanded, same, moved⟩ := backend_moves machine next label taken
    rw [same]
    exact faithful serves (step_served machine.backend next.backend label sound.owned uncommanded
      moved serves served)
  | event event =>
    obtain ⟨on, told⟩ | ⟨_, same, which⟩ := event_outcome settings machine next event kept sound taken
    · exact ⟨on, told.symm.trans served⟩
    · obtain ⟨on, was⟩ := faithful serves (same.symm.trans served)
      rw [sound.configured] at on
      refine ⟨configured ▸ on, ?_⟩
      obtain same | off | ⟨_, empty⟩ := which
      · rw [same, was]
      · rw [on] at off
        cases off
      · rw [empty] at was
        cases was

/-- And where no other application takes the selection, what there will be to paste stays what the
board shows. -/
theorem step_told (label : Label Id Hash) (kept : Keeps settings label)
    (alone : meddles label = false) (sound : Sound settings machine) (told : Told machine)
    (taken : step machine label = some next) : Told next := by
  have configured := (step_sound settings machine next label sound taken).configured
  obtain ⟨on, shows⟩ := told
  cases label with
  | backend label =>
    obtain ⟨uncommanded, same, moved⟩ := backend_moves machine next label taken
    have word : commanded [label] = [] := by
      cases label with
      | command command => cases uncommanded
      | _ => rfl
    have outcome := step_outcome machine.backend next.backend label sound.owned alone moved
    rw [word, List.foldl_nil] at outcome
    rw [Told, outcome, same]
    exact ⟨on, shows⟩
  | event event =>
    obtain told | ⟨_, same, which⟩ := event_outcome settings machine next event kept sound taken
    · exact told
    · rw [sound.configured] at on
      refine ⟨configured ▸ on, ?_⟩
      rw [same, shows]
      obtain same | off | ⟨empty, was⟩ := which
      · rw [same]
      · rw [on] at off
        cases off
      · rw [empty, was]

end Moving

/-- What every allowed label keeps, runs of allowed labels keep. -/
theorem run_kept (allowed : Label Id Hash → Prop) (invariant : Machine Id Hash → Prop)
    (kept : ∀ machine next label, allowed label → invariant machine →
      step machine label = some next → invariant next)
    (machine last : Machine Id Hash) (labels : List (Label Id Hash)) (held : invariant machine)
    (each : ∀ label ∈ labels, allowed label) (reached : Runs.run step machine labels = some last) :
    invariant last :=
  Runs.guarded_invariant step (fun _ label => allowed label) invariant
    (fun machine label next held allowed taken => kept machine next label allowed held taken)
    machine last labels held
    (Runs.guarded_of_invariant step _ (fun _ => True) allowed (fun _ _ _ _ _ _ => trivial)
      (fun _ _ _ fine => fine) machine labels trivial each)
    reached

/-- Once nothing is on its way between a running service, its backend and the compositor: where no
selection was reported that this machine shares, a selection of ours is what the clip is offered
as. And where something was put on the local clipboard or taken off it, and since then no other
application took the selection and no selection was reported that this machine shares, it shows
just what the clipboard holds, whatever was on its way to the backend then and whatever happened
before. A report that is still on its way when something is offered makes another clip of what
was selected before, and offers nothing: of that neither part says anything. -/
theorem local_clipboard_shows_the_clip (clock : Clock) (origin : Id) (configured : Settings)
    (saved : Option (Clip Id Hash)) (before : List (Clipboard.Event Id Hash))
    (labels : List (Label Id Hash)) (last : Machine Id Hash) :
    let board := (Clipboard.new clock origin configured saved).after before
    Runs.run step (start board) labels = some last → last.backend.AtRest →
      ((∀ label ∈ labels, Keeps board.settings label) →
        ∀ serves, contents last.backend.made last.backend.owner = .served serves →
          ∃ stamp copy, last.board.current = some (stamp, copy) ∧
            serves = last.board.offered copy) ∧
      ∀ early event late machine, labels = early ++ .event event :: late →
        Runs.run step (start board) early = some machine →
        commandsOf (effectsOf (machine.board.step event)) ≠ [] →
        (∀ label ∈ Label.event event :: late,
          Keeps board.settings label ∧ meddles label = false) →
        contents last.backend.made last.backend.owner = shown last.board := by
  intro board reached rest
  have here : last.backend.outcome = contents last.backend.made last.backend.owner := by
    rw [outcome, rest.run, rest.arrived, List.foldl_nil, Owner.settle_nil]
  have first : Sound board.settings (start board) :=
    { owned := start_owned
      configured := rfl
      tracked := Clipboard.after_tracked _ before
        (Clipboard.new_tracked clock origin configured saved) }
  rw [← here]
  constructor
  · intro kept serves served
    have faithful := (run_kept (Keeps board.settings)
      (fun machine => Sound board.settings machine ∧ Faithful machine)
      (fun machine next label kept held taken =>
        ⟨step_sound board.settings machine next label held.1 taken,
          step_faithful board.settings machine next label kept held.1 held.2 taken⟩)
      _ last labels ⟨first, by rintro serves ⟨⟩⟩ kept reached).2
    have shows := (faithful serves served).2
    rw [shown] at shows
    split at shows
    case h_1 stamp copy current =>
      cases shows
      exact ⟨stamp, copy, current, rfl⟩
    case h_2 => cases shows
  · rintro early event late machine rfl begun asks alone
    obtain ⟨_, again, ran⟩ := (Runs.run_append_iff step (start board) last early _).mp reached
    obtain rfl := Option.some.inj (begun.symm.trans again)
    obtain ⟨next, taken, ran⟩ := (Runs.run_cons_iff step machine last _ late).mp ran
    rw [List.forall_mem_cons] at alone
    have sound := Runs.run_invariant step (Sound board.settings)
      (fun machine label next => step_sound board.settings machine next label) _ machine early first
      begun
    have told : Told next := by
      obtain told | ⟨silent, _⟩ :=
        event_outcome board.settings machine next event alone.1.1 sound taken
      · exact told
      · exact absurd silent asks
    exact (run_kept (fun label => Keeps board.settings label ∧ meddles label = false)
      (fun machine => Sound board.settings machine ∧ Told machine)
      (fun machine next label allowed held taken =>
        ⟨step_sound board.settings machine next label held.1 taken,
          step_told board.settings machine next label allowed.1 allowed.2 held.1 held.2 taken⟩)
      next last late ⟨step_sound board.settings machine next _ sound taken, told⟩ alone.2 ran).2.2

end Running

/-- A text another machine sends at an instant. -/
def sent (millis : UInt64) (bytes : Bytes) : Clipboard.Event Nat Bytes :=
  .accept { stamp := 9000000, believed := 9000000, set := 9000000, lapse := 9000000 }
    { stamp := { millis, origin := 1 }
      copy := some {
        selection := .of { mime := Mime.plainText, bytes }, secret := false, ttl := none
        files := [] } }

/-- A text is on its way to the compositor when another application takes the selection. -/
def overtaken : List (Label Nat Bytes) :=
  [.event (sent 5 [104, 105]), .backend .runCommand, .backend .take]

/-- A second text goes all the way. -/
def arriving : List (Label Nat Bytes) :=
  [.backend .runCommand, .backend .request, .backend .request, .backend .request,
    .backend .dispatch]

/-- A machine that nothing was ever copied on. -/
def opened : Clipboard Nat Bytes :=
  .new { stamp := 0, believed := 0, set := 0, lapse := 0 } 0 Settings.default none

/-- The first text loses the selection to another application before it gets there, and the second
one is there to paste in the end. -/
theorem local_clipboard_shows_the_clip_after_another :
    ∃ last, Runs.run step (start opened) (overtaken ++ .event (sent 6 [121, 111]) :: arriving) =
        some last ∧
      contents last.backend.made last.backend.owner = shown last.board ∧
      shown last.board ≠ .nothing := by
  have observed : ((Runs.run step (start opened) overtaken).bind (fun machine =>
      (Runs.run step machine (.event (sent 6 [121, 111]) :: arriving)).map (fun last =>
        decide (last.backend.commands = []) && decide (last.backend.requests = []) &&
          decide (last.backend.events = []) && decide (shown last.board ≠ .nothing) &&
          !(commandsOf (effectsOf (machine.board.step (sent 6 [121, 111])))).isEmpty))) =
      some true := by
    decide +kernel
  obtain ⟨machine, begun, ran⟩ := Option.bind_eq_some_iff.mp observed
  obtain ⟨last, ran, holds⟩ := Option.map_eq_some_iff.mp ran
  simp only [Bool.and_eq_true, decide_eq_true_eq, Bool.not_eq_true', List.isEmpty_eq_false_iff]
    at holds
  obtain ⟨⟨⟨⟨run, arrived⟩, heard⟩, something⟩, asks⟩ := holds
  have reached := (Runs.run_append_iff step (start opened) last overtaken _).mpr
    ⟨machine, begun, ran⟩
  refine ⟨last, reached, ?_, something⟩
  refine (local_clipboard_shows_the_clip { stamp := 0, believed := 0, set := 0, lapse := 0 } 0
    Settings.default none [] _ last reached ⟨run, arrived, heard⟩).2 overtaken
      (sent 6 [121, 111]) arriving machine rfl begun asks ?_
  intro label member
  simp only [arriving, sent, List.mem_cons, List.not_mem_nil, or_false] at member
  obtain rfl | rfl | rfl | rfl | rfl | rfl := member
  · exact ⟨by rintro _ _ _ ⟨⟩, rfl⟩
  all_goals exact ⟨trivial, rfl⟩

end Yank.Showing
