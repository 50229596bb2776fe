import Yank.ClipboardSteps

/-!
# Histories of one clipboard

An event is one operation with everything it is given, its clock readings
included, or a restart from what was saved. A history is any list of events;
nothing relates the readings of one event to those of another, so the clock may
jump either way between any two of them.

Across one event the clip is kept, replaced by a newer one made here or sent by a
peer, or emptied under its own stamp. Everything said of whole histories follows
from these moves.
-/

namespace Yank.Clipboard

variable {Id Hash : Type}

/-- One operation on the clipboard of a machine, or a restart of the machine. -/
inductive Event (Id Hash : Type) where
  | copy (clock : Clock) (selection : Selection) (files : List (Files.FileRef Hash))
      (secret : Bool) (ttl : Option Duration)
  | captured (clock : Clock) (capture : Captured) (files : List (Files.FileRef Hash))
  | accept (clock : Clock) (clip : Clip Id Hash)
  | clear (clock : Clock)
  | expire (now : SystemTime)
  | materialized (stamp : Stamp Id) (tree : Path)
  /-- Settings are read at startup, so a restart may change them. -/
  | restart (clock : Clock) (settings : Settings)

variable [LinearOrder Id]

/-- What an event can do to the clip: keep it, replace it by one made here or by
the one a peer sent, or empty it under its own stamp. A peer's clip may arrive
with its lifetime over, and is then empty from the start. -/
inductive Moved (before : Clipboard Id Hash) (event : Event Id Hash) (after : Clipboard Id Hash) :
    Prop where
  | kept (same : after.clip = before.clip)
  | made (stamp : Stamp Id) (copy : Option (Copy Hash)) (later : before.head < stamp)
      (ours : stamp.origin = before.origin) (holds : after.clip = some { stamp, copy })
  | taken (clock : Clock) (clip : Clip Id Hash) (sent : event = .accept clock clip)
      (later : before.head < clip.stamp) (welcome : before.acceptable clock clip = .ok ())
      (holds : after.clip = some clip ∨
        after.clip = some { stamp := clip.stamp, copy := none })
  | emptied (stamp : Stamp Id) (copy : Copy Hash)
      (carried : before.clip = some { stamp, copy := some copy })
      (dropped : after.clip = some { stamp, copy := none })

namespace Moved
variable {before after : Clipboard Id Hash} {event : Event Id Hash}

/-- Emptying a clip that was empty already keeps it. -/
theorem of_emptied (clip : Clip Id Hash) (held : before.clip = some clip)
    (dropped : after.clip = some { stamp := clip.stamp, copy := none }) :
    Moved before event after := by
  obtain ⟨stamp, copied⟩ := clip
  cases copied with
  | none => exact kept (dropped.trans held.symm)
  | some copy => exact emptied stamp copy held dropped

/-- A move is about the clip alone. -/
theorem of_clip {other : Clipboard Id Hash} (moved : Moved before event after)
    (same : other.clip = after.clip) : Moved before event other := by
  cases moved with
  | kept unchanged => exact .kept (same.trans unchanged)
  | made stamp copy later ours holds => exact .made stamp copy later ours (same.trans holds)
  | taken clock clip sent later welcome holds =>
    exact .taken clock clip sent later welcome (holds.imp same.trans same.trans)
  | emptied stamp copy carried dropped => exact .emptied stamp copy carried (same.trans dropped)

/-- The head stays with the clip, or moves up with a newer one. The third case is a copy that is
dropped under the stamp it had. -/
theorem head_cases (moved : Moved before event after) :
    after.clip = before.clip ∨ before.head < after.head ∨
      ∃ stamp copy, before.clip = some { stamp, copy := some copy } ∧
        after.clip = some { stamp, copy := none } := by
  cases moved with
  | kept same => exact Or.inl same
  | made stamp copy later ours holds =>
    rw [head_of_clip after _ holds]
    exact Or.inr (Or.inl later)
  | taken clock clip sent later welcome holds =>
    right
    left
    rcases holds with whole | empty
    · rwa [head_of_clip after _ whole]
    · rwa [head_of_clip after _ empty]
  | emptied stamp copy carried dropped => exact Or.inr (Or.inr ⟨stamp, copy, carried, dropped⟩)

/-- The head never goes back. -/
theorem head_le (moved : Moved before event after) : before.head ≤ after.head := by
  rcases moved.head_cases with same | later | ⟨stamp, copy, carried, dropped⟩
  · exact (head_congr after before same).ge
  · exact later.le
  · rw [head_of_clip before _ carried, head_of_clip after _ dropped]

/-- A copy returned now and not before was stamped after what was held before. -/
theorem fresh (moved : Moved before event after) (stamp : Stamp Id) (copy : Copy Hash)
    (returned : after.current = some (stamp, copy)) :
    before.current = some (stamp, copy) ∨ before.head < stamp ∧ after.head = stamp := by
  rw [current_iff] at returned
  rcases moved.head_cases with same | later | ⟨stamped, copied, carried, dropped⟩
  · left
    rw [current_iff, ← same, returned]
  · right
    rw [head_of_clip after _ returned] at later ⊢
    exact ⟨later, rfl⟩
  · rw [returned] at dropped
    simp at dropped

/-- At an unchanged stamp only a copy can go. -/
theorem content (moved : Moved before event after) (unmoved : after.head = before.head)
    (changed : after.clip ≠ before.clip) :
    ∃ stamp copy, before.clip = some { stamp, copy := some copy } ∧
      after.clip = some { stamp, copy := none } := by
  rcases moved.head_cases with same | later | dropped
  · exact absurd same changed
  · exact absurd unmoved later.ne'
  · exact dropped

end Moved

/-- Nothing older came back between two boards: the head did not move down, and
a copy returned by the later one was returned by the earlier one or is newer
than everything the earlier one had seen. -/
structure Onward (early late : Clipboard Id Hash) : Prop where
  head_le : early.head ≤ late.head
  fresh : ∀ stamp copy, late.current = some (stamp, copy) →
    early.current = some (stamp, copy) ∨ early.head < stamp

/-- A clipboard is no further than itself. -/
theorem Onward.refl (board : Clipboard Id Hash) : Onward board board where
  head_le := le_refl board.head
  fresh _ _ returned := Or.inl returned

/-- Going on twice is going on. -/
theorem Onward.trans (first second third : Clipboard Id Hash) (early : Onward first second)
    (late : Onward second third) : Onward first third where
  head_le := early.head_le.trans late.head_le
  fresh stamp copy returned := by
    rcases late.fresh stamp copy returned with before | newer
    · exact early.fresh stamp copy before
    · exact Or.inr (lt_of_le_of_lt early.head_le newer)

/-- An event has the clipboard go on. -/
theorem Moved.onward {before after : Clipboard Id Hash} {event : Event Id Hash}
    (moved : Moved before event after) : Onward before after where
  head_le := moved.head_le
  fresh stamp copy returned := (moved.fresh stamp copy returned).imp_right And.left

variable [ContentHash Hash]

/-- The board a restart resumes with moved no further than a lapse or the loss
of a secret. -/
theorem restart_moved (clock : Clock) (settings : Settings) (board : Clipboard Id Hash) :
    Moved board (.restart clock settings) (new clock board.origin settings board.saved) := by
  rcases saved_cases board with whole | ⟨clip, held, emptied⟩
  · rcases new_clip clock board.origin settings board.saved with same | ⟨clip, was, dropped⟩
    · exact .kept (same.trans whole)
    · exact .of_emptied clip (whole ▸ was) dropped
  · rcases new_clip clock board.origin settings board.saved with same | ⟨other, was, dropped⟩
    · exact .of_emptied clip held (same.trans emptied)
    · obtain rfl : ({ stamp := clip.stamp, copy := none } : Clip Id Hash) = other :=
        Option.some.inj (emptied.symm.trans was)
      exact .of_emptied clip held dropped

variable [DecidableEq Hash]

/-- Performs one event. -/
def step (board : Clipboard Id Hash) : Event Id Hash → Outcome Id Hash
  | .copy clock selection files secret ttl => board.copy clock selection files secret ttl
  | .captured clock capture files => board.captured clock capture files
  | .accept clock clip => board.accept clock clip
  | .clear clock => board.clear clock
  | .expire now => board.expire now
  | .materialized stamp tree => board.materialized stamp tree
  | .restart clock settings => (new clock board.origin settings board.saved, .ok [])

/-- The board an event makes ready before it brings the local clipboard in line, with
the effects that come first. -/
inductive Readied (board : Clipboard Id Hash) :
    Event Id Hash → Clipboard Id Hash → List (Effect Id) → Prop where
  | copied (clock : Clock) (selection : Selection) (files : List (Files.FileRef Hash))
      (secret : Bool) (ttl : Option Duration) (copy : Copy Hash) (stamp : Stamp Id)
      (recorded : board.toCopy selection files secret ttl = .ok copy) (newer : board.head < stamp)
      (ours : stamp.origin = board.origin) :
      Readied board (.copy clock selection files secret ttl)
        (board.set clock.set { stamp, copy := some copy }) [.save]
  | cleared (clock : Clock) (stamp : Stamp Id) (newer : board.head < stamp)
      (ours : stamp.origin = board.origin) :
      Readied board (.clear clock) (board.set clock.set { stamp, copy := none }) [.save]
  | taken (clock : Clock) (clip : Clip Id Hash) (newer : board.head < clip.stamp)
      (welcome : board.acceptable clock clip = .ok ()) :
      Readied board (.accept clock clip) ((board.set clock.set clip).lapse clock.lapse) [.save]
  | lapsed (now : SystemTime) (due : board.hasLapsed now = true) :
      Readied board (.expire now) (board.lapse now) [.save]
  | landed (stamp : Stamp Id) (tree : Path) (head : board.head = stamp) :
      Readied board (.materialized stamp tree) { board with tree := some tree } []

/-- Everything one event can do: nothing, recognize the clip reported back, record a
selection without putting it anywhere, make a board ready and apply it, or start over
from what was saved. -/
inductive Did (board : Clipboard Id Hash) (event : Event Id Hash) : Outcome Id Hash → Prop where
  | nothing (answer : Except Failure (List (Effect Id)))
      (silent : effectsOf (board, answer) = []) : Did board event (board, answer)
  | echoed (clock : Clock) (capture : Captured) (files : List (Files.FileRef Hash))
      (selection : Selection) (reported : event = .captured clock capture files)
      (fitted : board.fit capture.selection = some selection)
      (echo : board.isEcho selection.primary.bytes = true) :
      Did board event ({ board with applied := board.clip.map (fun clip => clip.stamp) }, .ok [])
  | recorded (clock : Clock) (capture : Captured) (files : List (Files.FileRef Hash))
      (selection : Selection) (stamp : Stamp Id) (reported : event = .captured clock capture files)
      (shared : board.settings.capture = true)
      (fitted : board.fit capture.selection = some selection)
      (news : board.isEcho selection.primary.bytes = false)
      (checked : (board.capturedCopy capture selection files).check = .ok ())
      (newer : board.head < stamp) (ours : stamp.origin = board.origin) :
      Did board event
        ({ board.set clock.set
            { stamp, copy := some (board.capturedCopy capture selection files) } with
            applied := some stamp }, .ok [.save])
  | applied (ready : Clipboard Id Hash) (first : List (Effect Id))
      (readied : Readied board event ready first) :
      Did board event (ready.apply.1, .ok (first ++ ready.apply.2))
  | restarted (clock : Clock) (settings : Settings) (isRestart : event = .restart clock settings) :
      Did board event (new clock board.origin settings board.saved, .ok [])

/-- An event does one of these things. The cases of `Did` carry the guards of each operation, so
the lemmas about histories are case analyses that never unfold an operation again. -/
theorem step_did (board : Clipboard Id Hash) (event : Event Id Hash) :
    Did board event (board.step event) := by
  cases event with
  | copy clock selection files secret ttl =>
    obtain ⟨failure, refused⟩ | ⟨copy, stamp, recorded, newer, ours, made⟩ :=
      copy_cases clock selection files secret ttl board
    · rw [step, refused]
      exact .nothing _ rfl
    · rw [step, made]
      exact .applied _ [.save] (.copied clock selection files secret ttl copy stamp recorded newer ours)
  | captured clock capture files =>
    obtain ⟨_, ignored⟩ | failed | ⟨selection, _, fitted, echo, echoed⟩ |
      ⟨selection, stamp, shared, fitted, news, checked, newer, ours, recorded⟩ :=
      captured_cases clock capture files board
    · rw [step, ignored]
      exact .nothing _ rfl
    · rw [step, failed]
      exact .nothing _ rfl
    · rw [step, echoed]
      exact .echoed clock capture files selection rfl fitted echo
    · rw [step, recorded]
      exact .recorded clock capture files selection stamp rfl shared fitted news checked newer ours
  | accept clock clip =>
    obtain ⟨_, ignored⟩ | ⟨failure, _, refused⟩ | ⟨newer, welcome, taken⟩ :=
      accept_cases clock clip board
    · rw [step, ignored]
      exact .nothing _ rfl
    · rw [step, refused]
      exact .nothing _ rfl
    · rw [step, taken]
      exact .applied _ [.save] (.taken clock clip newer welcome)
  | clear clock =>
    obtain refused | ⟨stamp, newer, ours, cleared⟩ := clear_cases clock board
    · rw [step, refused]
      exact .nothing _ rfl
    · rw [step, cleared]
      exact .applied _ [.save] (.cleared clock stamp newer ours)
  | expire now =>
    obtain ⟨_, ignored⟩ | ⟨due, dropped⟩ := expire_cases now board
    · rw [step, ignored]
      exact .nothing _ rfl
    · rw [step, dropped]
      exact .applied _ [.save] (.lapsed now due)
  | materialized stamp tree =>
    obtain ⟨_, ignored⟩ | ⟨head, landed⟩ := materialized_cases stamp tree board
    · rw [step, ignored]
      exact .nothing _ rfl
    · rw [step, landed]
      exact .applied _ [] (.landed stamp tree head)
  | restart clock settings => exact .restarted clock settings rfl

omit [ContentHash Hash] [DecidableEq Hash] in
/-- What an event makes ready keeps the settings. -/
@[simp] theorem Readied.settings {board ready : Clipboard Id Hash} {event : Event Id Hash}
    {first : List (Effect Id)} (readied : Readied board event ready first) :
    ready.settings = board.settings := by
  cases readied <;> simp

/-- Settings change at restarts only. -/
theorem step_settings (board : Clipboard Id Hash) (event : Event Id Hash)
    (running : ¬ ∃ clock settings, event = .restart clock settings) :
    (board.step event).1.settings = board.settings := by
  have did := board.step_did event
  generalize board.step event = outcome at did ⊢
  cases did with
  | applied ready first readied => rw [apply_settings, readied.settings]
  | restarted clock settings isRestart => exact absurd ⟨clock, settings, isRestart⟩ running
  | _ => rfl

/-- The board a history leaves. -/
def after (board : Clipboard Id Hash) (events : List (Event Id Hash)) : Clipboard Id Hash :=
  events.foldl (fun board event => (board.step event).1) board

/-- One event as a step that is never refused. -/
def advance (board : Clipboard Id Hash) (event : Event Id Hash) : Option (Clipboard Id Hash) :=
  some (board.step event).1

/-- A history is a run of events, none of which is refused. -/
theorem run_advance (board : Clipboard Id Hash) (events : List (Event Id Hash)) :
    Runs.run advance board events = some (board.after events) := by
  induction events generalizing board with
  | nil => rfl
  | cons event events inductionHypothesis => exact inductionHypothesis (board.step event).1

omit [DecidableEq Hash] [ContentHash Hash] in
/-- What is made ready is a newer clip, or the clip with its copy or without. Each case of
`Readied` carries what its case of `Moved` asks for. -/
theorem Readied.moved {board ready : Clipboard Id Hash} {event : Event Id Hash}
    {first : List (Effect Id)} (readied : Readied board event ready first) :
    Moved board event ready := by
  cases readied with
  | copied clock selection files secret ttl copy stamp _ newer ours =>
    exact .made stamp (some copy) newer ours rfl
  | cleared clock stamp newer ours => exact .made stamp none newer ours rfl
  | taken clock clip newer welcome =>
    refine .taken clock clip rfl newer welcome ?_
    obtain same | ⟨was, _, held, dropped⟩ := lapse_cases clock.lapse (board.set clock.set clip)
    · exact Or.inl (by rw [same, set_clip])
    · obtain rfl : clip = was := Option.some.inj held
      exact Or.inr (by rw [dropped, set_clip])
  | lapsed now due =>
    obtain same | ⟨clip, _, held, emptied⟩ := lapse_cases now board
    · exact .kept (by rw [same])
    · exact .of_emptied clip held (by rw [emptied, set_clip])
  | landed stamp tree head => exact .kept rfl

omit [DecidableEq Hash] [ContentHash Hash] in
/-- And whose clipboard it is. -/
@[simp] theorem Readied.origin {board ready : Clipboard Id Hash} {event : Event Id Hash}
    {first : List (Effect Id)} (readied : Readied board event ready first) :
    ready.origin = board.origin := by
  cases readied <;> simp

/-- What every event does to the clip. -/
theorem step_moved (board : Clipboard Id Hash) (event : Event Id Hash) :
    Moved board event (board.step event).1 := by
  have did := step_did board event
  generalize board.step event = outcome at did ⊢
  cases did with
  | nothing answer silent => exact .kept rfl
  | echoed => exact .kept rfl
  | recorded clock capture files selection stamp _ _ _ _ _ newer ours =>
    exact .made stamp _ newer ours rfl
  | applied ready first readied => exact readied.moved.of_clip ready.apply_clip
  | restarted clock settings isRestart =>
    rw [isRestart]
    exact restart_moved clock settings board

omit [ContentHash Hash] [DecidableEq Hash] in
/-- What comes before the effects of applying is a save or nothing. -/
theorem Readied.first_cases {board ready : Clipboard Id Hash} {event : Event Id Hash}
    {first : List (Effect Id)} (readied : Readied board event ready first) :
    first = [] ∨ first = [.save] := by
  cases readied with
  | landed => exact Or.inl rfl
  | _ => exact Or.inr rfl

/-- Whatever an event asks for but a save comes of applying the board it made ready. An event that
makes nothing ready asks for nothing, or for a save alone. -/
theorem step_readied (board : Clipboard Id Hash) (event : Event Id Hash) (effect : Effect Id)
    (asked : effect ∈ effectsOf (board.step event)) (other : effect ≠ .save) :
    ∃ ready first, Readied board event ready first ∧ (board.step event).1 = ready.apply.1 ∧
      effect ∈ ready.apply.2 := by
  have did := step_did board event
  generalize board.step event = outcome at did asked ⊢
  cases did with
  | nothing answer silent =>
    rw [silent] at asked
    cases asked
  | echoed => cases asked
  | recorded => exact absurd (List.mem_singleton.mp asked) other
  | applied ready first readied =>
    refine ⟨ready, first, readied, rfl, ?_⟩
    obtain rfl | rfl := readied.first_cases
    · exact asked
    · exact (List.mem_cons.mp asked).resolve_left other
  | restarted => cases asked

/-- An event leaves the clip, or saves before anything else. -/
theorem saves_first (board : Clipboard Id Hash) (event : Event Id Hash) :
    (board.step event).1.clip = board.clip ∨
      (∃ rest, effectsOf (board.step event) = .save :: rest) ∨
      ∃ clock settings, event = .restart clock settings := by
  have did := step_did board event
  generalize board.step event = outcome at did ⊢
  cases did with
  | nothing => exact .inl rfl
  | echoed => exact .inl rfl
  | recorded => exact .inr (.inl ⟨[], rfl⟩)
  | applied ready first readied =>
    cases readied with
    | landed => exact .inl (apply_clip _)
    | _ => exact .inr (.inl ⟨_, rfl⟩)
  | restarted clock settings isRestart => exact .inr (.inr ⟨clock, settings, isRestart⟩)

/-- What an event leaves to apply is all it asks for, but for the save before it. -/
theorem step_asks (board : Clipboard Id Hash) (event : Event Id Hash) (effect : Effect Id)
    (asked : effect ∈ effectsOf (board.step event)) (other : effect ≠ .save) :
    ∃ ready : Clipboard Id Hash, (board.step event).1 = ready.apply.1 ∧ effect ∈ ready.apply.2 := by
  obtain ⟨ready, _, _, made, among⟩ := step_readied board event effect asked other
  exact ⟨ready, made, among⟩

/-- What is offered is what the board says of its clip afterwards. -/
theorem step_offers (board : Clipboard Id Hash) (event : Event Id Hash) (serves : List Serve)
    (asked : Effect.backend (.offer serves) ∈ effectsOf (board.step event)) :
    ∃ stamp copy, (board.step event).1.current = some (stamp, copy) ∧
      serves = (board.step event).1.offered copy := by
  obtain ⟨ready, made, among⟩ := step_asks board event _ asked (by simp)
  obtain ⟨stamp, copy, current, shown⟩ := apply_offers ready serves among
  refine ⟨stamp, copy, ?_, ?_⟩
  · rw [made, apply_current]
    exact current
  · rw [made, shown, apply_shows]

/-- A machine never changes its name. -/
theorem step_origin (board : Clipboard Id Hash) (event : Event Id Hash) :
    (board.step event).1.origin = board.origin := by
  have did := step_did board event
  generalize board.step event = outcome at did ⊢
  cases did with
  | nothing answer silent => rfl
  | echoed => rfl
  | recorded => rfl
  | applied ready first readied => rw [apply_origin, readied.origin]
  | restarted clock settings isRestart => rw [new_origin]

/-- Whatever happens later, nothing older comes back. -/
theorem after_onward (board : Clipboard Id Hash) (events : List (Event Id Hash)) :
    Onward board (board.after events) := by
  apply Runs.run_relation advance (fun _ => True) Onward
  · intros
    trivial
  · intro state event next _ taken
    obtain rfl := Option.some.inj taken
    exact (step_moved state event).onward
  · exact Onward.refl
  · exact Onward.trans
  · trivial
  · exact run_advance board events

/-- A history that ends under the stamp it started under keeps it all along. -/
theorem step_unmoved (board : Clipboard Id Hash) (event : Event Id Hash)
    (events : List (Event Id Hash))
    (unmoved : (board.after (event :: events)).head = board.head) :
    (board.step event).1.head = board.head := by
  have first : board.head ≤ (board.step event).1.head := (step_moved board event).head_le
  have rest : (board.step event).1.head ≤ (board.after (event :: events)).head :=
    (after_onward (board.step event).1 events).head_le
  exact le_antisymm (rest.trans unmoved.le) first

/-- The event answers an error, or refuses or ignores what it was given. -/
def Refuses (board : Clipboard Id Hash) (event : Event Id Hash) : Prop :=
  (∃ failure, (board.step event).2 = .error failure) ∨
    match event with
    | .captured clock capture files => (board.captured clock capture files).2 = .ok []
    | .accept _ clip => (clip.stamp : WithBot (Stamp Id)) ≤ board.head
    | .expire now => board.hasLapsed now = false
    | .materialized stamp _ => board.head ≠ stamp
    | _ => False

/-- The fields a refusal must leave alone are the same on two boards. -/
structure SameClip (before after : Clipboard Id Hash) : Prop where
  clip : after.clip = before.clip
  expires : after.expires = before.expires
  tree : after.tree = before.tree
  served : after.served = before.served

/-- A refusal leaves the clip, its expiry, its tree and its served hash. Any outcome that would
change the clip contradicts the refusal: it answers without a failure and its guard held. -/
theorem refuses_sameClip (board : Clipboard Id Hash) (event : Event Id Hash)
    (refuses : Refuses board event) : SameClip board (board.step event).1 := by
  have did := step_did board event
  generalize answered : board.step event = outcome at did ⊢
  cases did with
  | nothing answer silent => exact ⟨rfl, rfl, rfl, rfl⟩
  | echoed => exact ⟨rfl, rfl, rfl, rfl⟩
  | recorded clock capture files selection stamp reported =>
    subst reported
    obtain ⟨failure, failed⟩ | silent := refuses
    · rw [answered] at failed
      cases failed
    · have saves := congrArg Prod.snd answered
      rw [step, silent] at saves
      cases saves
  | applied ready first readied =>
    obtain ⟨failure, failed⟩ | unmet := refuses
    · rw [answered] at failed
      cases failed
    · cases readied with
      | copied => exact unmet.elim
      | cleared => exact unmet.elim
      | taken clock clip newer => exact absurd newer (not_lt_of_ge unmet)
      | lapsed now due =>
        have impossible := due.symm.trans unmet
        cases impossible
      | landed stamp tree head => exact absurd head unmet
  | restarted clock settings isRestart =>
    subst isRestart
    obtain ⟨failure, failed⟩ | unmet := refuses
    · rw [answered] at failed
      cases failed
    · exact unmet.elim

/-- No older clip ever comes back. Take any history of any machine, the event
after it and any history after that. The event moves the head down never, brings
a copy back only by moving the head up to its stamp, changes content under a
stamp only by dropping it, and leaves the clip alone where it refuses; and
nothing the machine had already passed returns in what follows. -/
theorem no_older_clip_comes_back (clock : Clock) (origin : Id) (settings : Settings)
    (saved : Option (Clip Id Hash)) (early late : List (Event Id Hash)) (event : Event Id Hash) :
    let board := (new clock origin settings saved).after early
    let next := (board.step event).1
    board.head ≤ next.head ∧
      (∀ stamp copy, next.current = some (stamp, copy) →
        board.current ≠ some (stamp, copy) → board.head < stamp ∧ next.head = stamp) ∧
      (next.head = board.head → next.clip ≠ board.clip →
        ∃ stamp copy, board.clip = some { stamp, copy := some copy } ∧
          next.clip = some { stamp, copy := none }) ∧
      (Refuses board event → SameClip board next) ∧
      Onward board (next.after late) := by
  intro board next
  have moved : Moved board event next := step_moved board event
  refine ⟨moved.head_le, ?_, moved.content, refuses_sameClip board event, ?_⟩
  · intro stamp copy returned fresh
    exact (moved.fresh stamp copy returned).resolve_left fresh
  · exact Onward.trans _ _ _ moved.onward (after_onward next late)

end Yank.Clipboard
