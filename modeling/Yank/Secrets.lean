import Yank.ClipboardHistory

/-!
# A secret stays a secret

A password is held in memory, out of the file, for a lifetime, and announced
with the hint that keeps it out of clipboard histories. Once a copy is marked
and has a lifetime, no history that keeps its stamp takes either away.

Whether a selection flagged as a secret comes to be held as one is another
matter: a selection whose bytes are already the clip's is taken for the clip
reported back, before its flag is looked at. The last result says exactly which
secrets are kept.
-/

namespace Yank.Clipboard

variable {Id Hash : Type}

/-- A copy with a lifetime has a deadline. -/
def Timed (board : Clipboard Id Hash) : Prop :=
  ∀ stamp copy, board.clip = some { stamp, copy := some copy } → copy.ttl.isSome = true →
    board.expires.isSome = true

/-- The clip stamped `stamp` is empty, or a secret with a lifetime. -/
def Secretive (stamp : Stamp Id) (board : Clipboard Id Hash) : Prop :=
  board.clip = some { stamp, copy := none } ∨
    ∃ copy : Copy Hash, board.clip = some { stamp, copy := some copy } ∧
      copy.secret = true ∧ copy.ttl.isSome = true

/-- What is promised of a board holding a secret: it is marked, it has a
lifetime, and nothing of it reaches the file. -/
structure KeepsSecret (board : Clipboard Id Hash) : Prop where
  marked : ∀ stamp copy, board.current = some (stamp, copy) →
    copy.secret = true ∧ copy.ttl.isSome = true ∧ board.expires.isSome = true
  unsaved : ∀ clip, board.saved = some clip → clip.copy = none

/-- Everything an outcome offers the compositor announces the hint. -/
def Hinted (outcome : Outcome Id Hash) : Prop :=
  ∀ serves, Effect.backend (.offer serves) ∈ effectsOf outcome →
    ∃ serve ∈ serves, Mime.secretHint ∈ serve.mimes

/-- It is about the clip and its deadline. -/
theorem timed_congr (before after : Clipboard Id Hash) (clip : after.clip = before.clip)
    (expires : after.expires = before.expires) (timed : before.Timed) : after.Timed := by
  intro stamp copy held lifetime
  rw [expires]
  exact timed stamp copy (clip.symm.trans held) lifetime

/-- A clip that is set gets its deadline. -/
theorem set_timed (now : SystemTime) (clip : Clip Id Hash) (board : Clipboard Id Hash) :
    (board.set now clip).Timed := by
  intro stamp copy held lifetime
  obtain rfl := Option.some.inj held
  obtain ⟨ttl, present⟩ := Option.isSome_iff_exists.mp lifetime
  simp [set, present]

/-- What is left when a lifetime is over needs none. -/
theorem lapse_timed (now : SystemTime) (board : Clipboard Id Hash) (timed : board.Timed) :
    (board.lapse now).Timed := by
  rcases lapse_cases now board with same | ⟨clip, _, _, emptied⟩
  · rwa [same]
  · rw [emptied]
    exact set_timed now _ board

/-- A secret with a lifetime keeps all that is promised of it. Either the clip has no copy, and
then nothing is to be kept, or it has one that is marked and has a lifetime. -/
theorem secretive_keeps (stamp : Stamp Id) (board : Clipboard Id Hash) (timed : board.Timed)
    (secretive : board.Secretive stamp) : board.KeepsSecret := by
  rcases secretive with empty | ⟨copy, held, marked, lifetime⟩
  · constructor
    · intro stamped copied returned
      rw [current_iff, empty] at returned
      simp at returned
    · intro clip written
      obtain rfl : { stamp, copy := none } = clip := by simpa [saved, empty] using written
      rfl
  · constructor
    · intro stamped copied returned
      have carried := (current_iff board stamped copied).mp returned
      obtain ⟨rfl, rfl⟩ : stamp = stamped ∧ copy = copied := by
        simpa using held.symm.trans carried
      exact ⟨marked, lifetime, timed stamp copy held lifetime⟩
    · intro clip written
      obtain rfl : { stamp, copy := none } = clip := by
        simpa [saved, held, marked] using written
      rfl

section Order
variable [LinearOrder Id]

/-- An event that leaves the stamp leaves a secret or nothing. -/
theorem Moved.secretive {before after : Clipboard Id Hash} {event : Event Id Hash}
    (moved : Moved before event after) (stamp : Stamp Id) (secretive : before.Secretive stamp)
    (unmoved : after.head = before.head) : after.Secretive stamp := by
  rcases moved.head_cases with same | later | ⟨stamped, copied, carried, dropped⟩
  · rw [Secretive, same]
    exact secretive
  · exact absurd unmoved later.ne'
  · left
    have held : stamp = stamped := by
      rcases secretive with empty | ⟨copy, held, _, _⟩
      · simp [empty] at carried
      · simpa using congrArg (Option.map Clip.stamp) (held.symm.trans carried)
    rw [dropped, held]

/-- What is offered for a secret ends with the hint. -/
theorem offered_hinted (board : Clipboard Id Hash) (copy : Copy Hash)
    (secret : copy.secret = true) :
    ∃ serve ∈ board.offered copy, Mime.secretHint ∈ serve.mimes :=
  ⟨secretServe, by simp [offered, secret], by simp [secretServe]⟩

variable [ContentHash Hash]

/-- Putting the clip on the local clipboard leaves its deadline. -/
theorem apply_timed (board : Clipboard Id Hash) (timed : board.Timed) : board.apply.1.Timed :=
  timed_congr board board.apply.1 board.apply_clip board.apply_expires timed

/-- Where only a secret can be held, only secrets are offered. -/
theorem apply_hinted (stamp : Stamp Id) (board : Clipboard Id Hash)
    (secretive : board.Secretive stamp) (serves : List Serve)
    (asked : Effect.backend (.offer serves) ∈ board.apply.2) :
    ∃ serve ∈ serves, Mime.secretHint ∈ serve.mimes := by
  obtain ⟨stamped, copy, returned, rfl⟩ := apply_offers board serves asked
  rw [current_iff] at returned
  rcases secretive with empty | ⟨copied, held, marked, _⟩
  · simp [empty] at returned
  · obtain ⟨_, rfl⟩ : stamp = stamped ∧ copied = copy := by
      simpa using held.symm.trans returned
    exact offered_hinted board copied marked

/-- An outcome whose effects are a save and those of `apply` is hinted when the
board left is one that can hold only a secret. -/
theorem applied_hinted (stamp : Stamp Id) (board : Clipboard Id Hash)
    (secretive : board.apply.1.Secretive stamp) :
    Hinted (board.apply.1, .ok (.save :: board.apply.2)) := by
  intro serves asked
  rw [Secretive, apply_clip] at secretive
  refine apply_hinted stamp board secretive serves ?_
  simpa [effectsOf] using asked

/-- A saved clip gets its deadline as the machine starts. -/
theorem new_timed (clock : Clock) (origin : Id) (settings : Settings)
    (saved : Option (Clip Id Hash)) : (new clock origin settings saved).Timed := by
  cases saved with
  | none =>
    intro stamp copy held
    cases held
  | some clip => exact apply_timed _ (lapse_timed clock.lapse _ (set_timed clock.set clip _))

variable [DecidableEq Hash]

omit [DecidableEq Hash] [ContentHash Hash] in
/-- What an event makes ready has its deadline. -/
theorem Readied.timed {board ready : Clipboard Id Hash} {event : Event Id Hash}
    {first : List (Effect Id)} (readied : Readied board event ready first)
    (timed : board.Timed) : ready.Timed := by
  cases readied with
  | copied clock => exact set_timed clock.set _ board
  | cleared clock => exact set_timed clock.set _ board
  | taken clock clip => exact lapse_timed clock.lapse _ (set_timed clock.set clip board)
  | lapsed now => exact lapse_timed now board timed
  | landed => exact timed_congr board _ rfl rfl timed

/-- Every event keeps deadlines with lifetimes. -/
theorem step_timed (board : Clipboard Id Hash) (event : Event Id Hash) (timed : board.Timed) :
    (board.step event).1.Timed := by
  have did := step_did board event
  generalize board.step event = outcome at did ⊢
  cases did with
  | nothing => exact timed
  | echoed => exact timed_congr board _ rfl rfl timed
  | recorded clock capture files selection stamp =>
    exact timed_congr _ _ rfl rfl (set_timed clock.set
      { stamp, copy := some (board.capturedCopy capture selection files) } board)
  | applied ready first readied => exact apply_timed ready (readied.timed timed)
  | restarted clock settings => exact new_timed clock board.origin settings board.saved

/-- Every event that leaves a secret or nothing offers secrets or nothing. -/
theorem step_hinted (stamp : Stamp Id) (board : Clipboard Id Hash) (event : Event Id Hash)
    (secretive : (board.step event).1.Secretive stamp) : Hinted (board.step event) := by
  intro serves asked
  obtain ⟨ready, made, offered⟩ := step_asks board event _ asked (by simp)
  rw [made, Secretive, apply_clip] at secretive
  exact apply_hinted stamp ready secretive serves offered

/-- A history that ends at the stamp it started at leaves a secret or nothing.
The head never moves down, so it was that stamp all along. -/
theorem after_secretive (stamp : Stamp Id) (board : Clipboard Id Hash)
    (events : List (Event Id Hash)) (timed : board.Timed) (secretive : board.Secretive stamp)
    (unmoved : (board.after events).head = board.head) :
    (board.after events).Timed ∧ (board.after events).Secretive stamp := by
  induction events generalizing board with
  | nil => exact ⟨timed, secretive⟩
  | cons event events inductionHypothesis =>
    have still := step_unmoved board event events unmoved
    have kept := (step_moved board event).secretive stamp secretive still
    exact inductionHypothesis (board.step event).1 (step_timed board event timed) kept
      (unmoved.trans still.symm)

/-- The promise made of an operation that was handed a secret: it offers nothing
unhinted, and until a newer stamp replaces the clip it left, every history keeps
the secret and every event offers nothing unhinted. -/
def StaysSecret (outcome : Outcome Id Hash) : Prop :=
  Hinted outcome ∧
    ∀ later, (outcome.1.after later).head = outcome.1.head →
      (outcome.1.after later).KeepsSecret ∧
      ∀ event, ((outcome.1.after later).step event).1.head = outcome.1.head →
        Hinted ((outcome.1.after later).step event)

/-- An operation that was handed a secret and returned: a copy marked secret, or
a flagged selection that this machine shares, fits the cap and passes the check. -/
def HandsSecret (board : Clipboard Id Hash) (event : Event Id Hash) : Prop :=
  (∃ effects, (board.step event).2 = .ok effects) ∧
    match event with
    | .copy _ _ _ secret _ => secret = true
    | .captured _ capture files => capture.secret = true ∧ board.settings.capture = true ∧
        ∃ selection, board.fit capture.selection = some selection ∧
          (board.capturedCopy capture selection files).check = .ok ()
    | _ => False

/-- The selection is taken for the clip reported back only where the clip is a
secret with a lifetime itself. -/
def EchoesASecret (board : Clipboard Id Hash) (event : Event Id Hash) : Prop :=
  match event with
  | .captured _ capture _ =>
      ∀ selection, board.fit capture.selection = some selection →
        board.isEcho selection.primary.bytes = true →
        ∀ stamp copy, board.current = some (stamp, copy) →
          copy.secret = true ∧ copy.ttl.isSome = true
  | _ => True

/-- A board left with a secret or nothing, by an outcome that offered nothing
unhinted, keeps the promise. -/
theorem staysSecret_of (stamp : Stamp Id) (outcome : Outcome Id Hash) (hinted : Hinted outcome)
    (timed : outcome.1.Timed) (secretive : outcome.1.Secretive stamp) : StaysSecret outcome := by
  refine ⟨hinted, ?_⟩
  intro later unmoved
  obtain ⟨stillTimed, still⟩ := after_secretive stamp outcome.1 later timed secretive unmoved
  refine ⟨secretive_keeps stamp _ stillTimed still, ?_⟩
  intro event unmovedAgain
  have moved := step_moved (outcome.1.after later) event
  exact step_hinted stamp _ event
    (moved.secretive stamp still (unmovedAgain.trans unmoved.symm))

/-- A copy marked secret is kept as one, whatever was current before. A copy that is refused
leaves nothing to keep, and one that goes through is the clip, marked and with a lifetime. -/
theorem copy_stays (clock : Clock) (selection : Selection) (files : List (Files.FileRef Hash))
    (ttl : Option Duration) (board : Clipboard Id Hash) (effects : List (Effect Id))
    (returned : (board.copy clock selection files true ttl).2 = .ok effects) :
    StaysSecret (board.copy clock selection files true ttl) := by
  rcases copy_cases clock selection files true ttl board with
    ⟨failure, refused⟩ | ⟨copy, stamp, recorded, _, _, made⟩
  · rw [refused] at returned
    cases returned
  · obtain rfl := toCopy_spec board selection files true ttl copy recorded
    rw [made]
    generalize copied : Copy.mk selection true (board.lifetime true ttl) files = copy
    have secretive : ((board.set clock.set { stamp, copy := some copy }).apply.1).Secretive
        stamp := by
      right
      refine ⟨copy, by simp, ?_, ?_⟩
      · rw [← copied]
      · rw [← copied]
        exact lifetime_secret board ttl
    exact staysSecret_of stamp _ (applied_hinted stamp _ secretive)
      (apply_timed _ (set_timed clock.set _ board)) secretive

/-- A flagged selection that becomes a clip of its own is kept as a secret; one
taken for the clip reported back is as secret as that clip was. -/
theorem captured_stays_iff (clock : Clock) (capture : Captured)
    (files : List (Files.FileRef Hash)) (board : Clipboard Id Hash) (timed : board.Timed)
    (secret : capture.secret = true) (shared : ¬ board.Drops capture files)
    (effects : List (Effect Id))
    (returned : (board.captured clock capture files).2 = .ok effects) :
    StaysSecret (board.captured clock capture files) ↔
      EchoesASecret board (.captured clock capture files) := by
  rcases captured_cases clock capture files board with
    ⟨drops, _⟩ | failed | ⟨selection, _, fitted, echo, echoed⟩ |
      ⟨selection, stamp, _, fitted, echo, _, _, _, recorded⟩
  · exact absurd drops shared
  · rw [failed] at returned
    cases returned
  · rw [echoed]
    constructor
    · intro stays selection _ _ stamp copy held
      obtain ⟨marked, lifetime, _⟩ := (stays.2 [] rfl).1.marked stamp copy held
      exact ⟨marked, lifetime⟩
    · intro protectedEcho
      obtain ⟨stamp, copy, held⟩ : ∃ stamp copy, board.current = some (stamp, copy) := by
        cases held : board.current with
        | none => simp [isEcho, held] at echo
        | some pair => exact ⟨pair.1, pair.2, rfl⟩
      obtain ⟨marked, lifetime⟩ := protectedEcho selection fitted echo stamp copy held
      refine staysSecret_of stamp _ ?_ (timed_congr board _ rfl rfl timed) ?_
      · intro serves asked
        simp [effectsOf] at asked
      · exact Or.inr ⟨copy, (current_iff board stamp copy).mp held, marked, lifetime⟩
  · rw [recorded]
    constructor
    · intro _ other refitted echoes
      obtain rfl := Option.some.inj (fitted.symm.trans refitted)
      rw [echo] at echoes
      cases echoes
    · intro _
      refine staysSecret_of stamp _ ?_ ?_ ?_
      · intro serves asked
        simp [effectsOf] at asked
      · exact timed_congr _ _ rfl rfl (set_timed clock.set
          { stamp, copy := some (board.capturedCopy capture selection files) } board)
      · refine Or.inr ⟨_, rfl, secret, ?_⟩
        change (board.lifetime capture.secret none).isSome = true
        rw [secret]
        exact lifetime_secret board none

/-- In every reachable state, an operation that was handed a secret keeps it one
exactly when its bytes were not taken for a clip that is not a secret with a
lifetime. -/
theorem handed_secret_stays_iff (clock : Clock) (origin : Id) (settings : Settings)
    (saved : Option (Clip Id Hash)) (early : List (Event Id Hash)) (event : Event Id Hash)
    (hands : HandsSecret ((new clock origin settings saved).after early) event) :
    StaysSecret (((new clock origin settings saved).after early).step event) ↔
      EchoesASecret ((new clock origin settings saved).after early) event := by
  have timed : ((new clock origin settings saved).after early).Timed := by
    refine Runs.run_invariant advance Timed ?_ _ _ early
      (new_timed clock origin settings saved) (run_advance _ early)
    intro board event next held taken
    obtain rfl := Option.some.inj taken
    exact step_timed board event held
  generalize (new clock origin settings saved).after early = board at hands timed ⊢
  obtain ⟨⟨effects, returned⟩, handed⟩ := hands
  cases event with
  | copy clock selection files secret ttl =>
    obtain rfl : secret = true := handed
    exact ⟨fun _ => trivial, fun _ => copy_stays clock selection files ttl board effects returned⟩
  | captured clock capture files =>
    obtain ⟨secret, on, selection, fitted, checked⟩ := handed
    have shared : ¬ board.Drops capture files := by
      rintro (off | unfit | ⟨other, failure, refitted, refused⟩)
      · rw [on] at off
        cases off
      · rw [fitted] at unfit
        cases unfit
      · obtain rfl := Option.some.inj (fitted.symm.trans refitted)
        rw [checked] at refused
        cases refused
    exact captured_stays_iff clock capture files board timed secret shared effects returned
  | _ => exact handed.elim

/-- A secret that repeats the bytes of a secret stays one. -/
theorem handed_secret_stays_again :
    let clock : Clock :=
      { stamp := 5000000, believed := 5000000, set := 5000000, lapse := 5000000 }
    let selection := Selection.of { mime := "text/plain", bytes := [104, 105] }
    let board : Clipboard Nat Bytes := (new clock 0 Settings.default none).after
      [.copy clock selection [] true none]
    StaysSecret (board.step (.captured clock { selection, secret := true } [])) := by
  intro clock selection board
  have hands : HandsSecret board (.captured clock { selection, secret := true } []) :=
    ⟨⟨[], by decide⟩, rfl, by decide, selection, by decide, by decide⟩
  refine (handed_secret_stays_iff clock 0 Settings.default none _ _ hands).mpr ?_
  intro fitted _ _ stamp copy held
  have current : board.current.map Prod.snd =
      some { selection, secret := true, ttl := some 90, files := [] } := by decide
  obtain rfl : { selection, secret := true, ttl := some 90, files := [] } = copy := by
    rw [held] at current
    exact (Option.some.inj current).symm
  exact ⟨rfl, rfl⟩

/-- A password copied as plain text and then flagged by the application that
owns it is taken for the clip reported back, and stays plain. -/
theorem flagged_echo_stays_plain :
    let clock : Clock :=
      { stamp := 5000000, believed := 5000000, set := 5000000, lapse := 5000000 }
    let selection := Selection.of { mime := "text/plain", bytes := [104, 105] }
    let board : Clipboard Nat Bytes := (new clock 0 Settings.default none).after
      [.copy clock selection [] false none]
    HandsSecret board (.captured clock { selection, secret := true } []) ∧
      ¬ StaysSecret (board.step (.captured clock { selection, secret := true } [])) := by
  intro clock selection board
  refine ⟨⟨⟨[], by decide⟩, rfl, by decide, selection, by decide, by decide⟩, ?_⟩
  intro stays
  have current : (board.step (.captured clock { selection, secret := true } [])).1.current =
      some ({ millis := 5, origin := 0 }, { selection, secret := false, ttl := none, files := [] }) := by
    decide
  have marked := ((stays.2 [] rfl).1.marked _ _ current).1
  cases marked

end Order

end Yank.Clipboard
