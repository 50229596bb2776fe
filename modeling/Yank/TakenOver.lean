import Yank.ClipboardHistory

/-!
# Another application's selection

The board remembers which clip it last put on the local clipboard, whether or not it is
still there, so that there is something to empty once the clip goes. A selection of
another application that is recorded becomes the clip itself and is safe. One that is not,
because nothing is shared from this machine or because it is refused, leaves the board as
it was.

The board then empties and offers exactly as if that selection had never been made. The
result gives, for every state in which one was reported, which calls reach the local
clipboard.
-/

namespace Yank.Clipboard

variable {Id Hash : Type} [LinearOrder Id] [ContentHash Hash]

/-- Only a copy has a deadline. -/
def Dated (board : Clipboard Id Hash) : Prop :=
  board.expires.isSome = true → board.current.isSome = true

/-- A machine that applies clips knows it put one on while it holds a copy. -/
def Marked (board : Clipboard Id Hash) : Prop :=
  board.settings.apply = true → board.current.isSome = true → board.applied.isSome = true

omit [LinearOrder Id] [ContentHash Hash] in
/-- A clip that is set has a deadline only with a copy. -/
theorem set_dated (now : SystemTime) (clip : Clip Id Hash) (board : Clipboard Id Hash) :
    (board.set now clip).Dated := by
  intro deadline
  cases copied : clip.copy with
  | none => simp [set, copied] at deadline
  | some copy => simp [set, current, copied]

omit [LinearOrder Id] [ContentHash Hash] in
/-- What is left when a lifetime is over has none. -/
theorem lapse_dated (now : SystemTime) (board : Clipboard Id Hash) (dated : board.Dated) :
    (board.lapse now).Dated := by
  obtain same | ⟨clip, _, _, emptied⟩ := lapse_cases now board
  · rwa [same]
  · rw [emptied]
    exact set_dated now _ board

/-- Putting the clip on the local clipboard leaves its deadline. -/
theorem apply_dated (board : Clipboard Id Hash) (dated : board.Dated) : board.apply.1.Dated := by
  intro deadline
  rw [apply_expires] at deadline
  rw [current, apply_clip]
  exact dated deadline

/-- And marks it as put there. -/
theorem apply_marked (board : Clipboard Id Hash) : board.apply.1.Marked := by
  intro applies held
  rw [apply_settings] at applies
  obtain ⟨⟨stamp, copy⟩, current⟩ := Option.isSome_iff_exists.mp held
  have carried := (current_iff _ stamp copy).mp current
  rw [apply_clip] at carried
  simp [apply, applies, carried]

/-- A saved clip is marked as the machine starts. -/
theorem new_marked (clock : Clock) (origin : Id) (settings : Settings)
    (saved : Option (Clip Id Hash)) :
    (new clock origin settings saved).Dated ∧ (new clock origin settings saved).Marked := by
  cases saved with
  | none =>
    refine ⟨?_, ?_⟩
    · intro deadline
      cases deadline
    · intro _ held
      cases held
  | some clip =>
    exact ⟨apply_dated _ (lapse_dated clock.lapse _ (set_dated clock.set clip _)), apply_marked _⟩

omit [ContentHash Hash] in
/-- What an event makes ready has a deadline only with a copy. -/
theorem Readied.dated {board ready : Clipboard Id Hash} {event : Event Id Hash}
    {first : List (Effect Id)} (readied : Readied board event ready first)
    (dated : board.Dated) : ready.Dated := by
  cases readied with
  | copied clock => exact set_dated clock.set _ board
  | cleared clock => exact set_dated clock.set _ board
  | taken clock clip => exact lapse_dated clock.lapse _ (set_dated clock.set clip board)
  | lapsed now => exact lapse_dated now board dated
  | landed => exact dated

variable [DecidableEq Hash]

/-- Every event leaves the clip marked. A clip is put with a deadline only if it has a copy with a
lifetime, and dropping the copy drops the deadline. -/
theorem step_marked (board : Clipboard Id Hash) (event : Event Id Hash) (dated : board.Dated)
    (marked : board.Marked) : (board.step event).1.Dated ∧ (board.step event).1.Marked := by
  have did := board.step_did event
  generalize board.step event = outcome at did ⊢
  cases did with
  | nothing => exact ⟨dated, marked⟩
  | echoed =>
    refine ⟨dated, ?_⟩
    intro _ held
    cases clip : board.clip with
    | none => simp [current, clip] at held
    | some clip => simp
  | recorded clock capture files selection stamp =>
    exact ⟨set_dated clock.set { stamp, copy := some (board.capturedCopy capture selection files) }
      board, fun _ _ => rfl⟩
  | applied ready first readied =>
    exact ⟨apply_dated ready (readied.dated dated), apply_marked ready⟩
  | restarted clock settings => exact new_marked clock board.origin settings board.saved

/-- So does every history. -/
theorem after_marked (clock : Clock) (origin : Id) (settings : Settings)
    (saved : Option (Clip Id Hash)) (events : List (Event Id Hash)) :
    ((new clock origin settings saved).after events).Dated ∧
      ((new clock origin settings saved).after events).Marked := by
  refine Runs.run_invariant advance (fun board => board.Dated ∧ board.Marked) ?_ _ _ events
    (new_marked clock origin settings saved) (run_advance _ events)
  intro board event next held taken
  obtain rfl := Option.some.inj taken
  exact step_marked board event held.1 held.2

/-- An event puts a clip on the local clipboard, or records one from it. -/
def PutsOn (board : Clipboard Id Hash) (event : Event Id Hash) : Prop :=
  (∃ serves, Effect.backend (.offer serves) ∈ effectsOf (board.step event)) ∨
    ∃ clock capture files, event = .captured clock capture files ∧
      (board.step event).2 = .ok [.save]

/-- An event reports a selection that is not the clip coming back. -/
def ReportsAnother (board : Clipboard Id Hash) (event : Event Id Hash) : Prop :=
  ∃ clock capture files, event = .captured clock capture files ∧
    board.isEcho capture.selection.primary.bytes = false

/-- In a history the clip stamped `stamp` was put on or recorded from the local clipboard,
another application's selection was reported after that, and the clip is still the head. -/
def TakenOver (board : Clipboard Id Hash) (stamp : Stamp Id) (events : List (Event Id Hash)) :
    Prop :=
  ∃ early put between report late,
    events = early ++ put :: (between ++ report :: late) ∧
    PutsOn (board.after early) put ∧ (board.after (early ++ [put])).head = stamp ∧
    ReportsAnother (board.after (early ++ put :: between)) report ∧
    (board.after events).head = stamp

omit [DecidableEq Hash] in
/-- A lifetime that runs out empties the local clipboard exactly where clips are applied. A
lifetime that is set is the lifetime of a copy, and once it is over that copy is dropped and the
emptied clip applied. -/
theorem expire_clears_iff (now : SystemTime) (board : Clipboard Id Hash) (dated : board.Dated)
    (marked : board.Marked) :
    Effect.backend .clear ∈ effectsOf (board.expire now) ↔
      board.settings.apply = true ∧ board.hasLapsed now = true := by
  obtain ⟨running, ignored⟩ | ⟨due, dropped⟩ := expire_cases now board
  · simp [ignored, running, effectsOf]
  · have deadline : board.expires.isSome = true := by
      cases expires : board.expires with
      | none => simp [hasLapsed, expires] at due
      | some deadline => rfl
    obtain ⟨⟨stamp, copy⟩, held⟩ := Option.isSome_iff_exists.mp (dated deadline)
    have carried := (current_iff board stamp copy).mp held
    have emptied : board.lapse now = board.set now { stamp, copy := none } := by
      simp [lapse, due, carried]
    have put : board.settings.apply = true → board.applied.isSome = true := fun applies =>
      marked applies (dated deadline)
    rw [dropped, emptied]
    cases applies : board.settings.apply with
    | false => simp [effectsOf, apply, set, applies]
    | true => simp [effectsOf, apply, set, applies, due, put applies]

omit [DecidableEq Hash] in
/-- Files that land are offered exactly where clips are applied and the copy is still
there. -/
theorem materialized_offers_iff (stamp : Stamp Id) (tree : Path) (board : Clipboard Id Hash) :
    (∃ serves, Effect.backend (.offer serves) ∈ effectsOf (board.materialized stamp tree)) ↔
      board.settings.apply = true ∧ board.head = stamp ∧ board.current.isSome = true := by
  obtain ⟨other, ignored⟩ | ⟨same, landed⟩ := materialized_cases stamp tree board
  · simp [ignored, other, effectsOf]
  · rw [landed]
    cases applies : board.settings.apply with
    | false => simp [effectsOf, apply, applies]
    | true =>
      constructor
      · rintro ⟨serves, asked⟩
        obtain ⟨stamped, copy, current, _⟩ := apply_offers _ serves asked
        exact ⟨rfl, same, Option.isSome_iff_exists.mpr ⟨_, current⟩⟩
      · rintro ⟨_, _, held⟩
        obtain ⟨⟨stamped, copy⟩, current⟩ := Option.isSome_iff_exists.mp held
        have carried := (current_iff board stamped copy).mp current
        exact ⟨_, by simp [effectsOf, apply, applies, carried]; rfl⟩

/-- Nothing reaches the local clipboard but for a newer clip, a lifetime that runs out or
files that land. -/
theorem touches_cases (board : Clipboard Id Hash) (event : Event Id Hash) (command : Command)
    (asked : Effect.backend command ∈ effectsOf (board.step event)) :
    board.head < (board.step event).1.head ∨ (∃ now, event = .expire now) ∨
      ∃ stamp tree, event = .materialized stamp tree ∧ board.head = stamp := by
  obtain ⟨ready, first, readied, made, _⟩ := board.step_readied event _ asked (by simp)
  rw [made, apply_head]
  cases readied with
  | copied clock selection files secret ttl copy stamp recorded newer => exact Or.inl newer
  | cleared clock stamp newer => exact Or.inl newer
  | taken clock clip newer =>
    left
    rw [lapse_head, set_head]
    exact newer
  | lapsed now => exact Or.inr (Or.inl ⟨now, rfl⟩)
  | landed stamp tree head => exact Or.inr (Or.inr ⟨stamp, tree, rfl, head⟩)

/-- Another application's selection that was not recorded does not keep a clip from touching
the local clipboard: where one was reported after the clip was put there and the clip is
still the head, its lifetime empties the clipboard unless clips are not applied or it has
not run out, and its files are offered unless clips are not applied or the copy is gone.
Besides these, only a newer clip touches the clipboard. -/
theorem taken_over_is_untouched_iff (clock : Clock) (origin : Id) (settings : Settings)
    (saved : Option (Clip Id Hash)) (events : List (Event Id Hash)) (stamp : Stamp Id)
    (takenOver : TakenOver (new clock origin settings saved) stamp events) :
    let board := (new clock origin settings saved).after events
    (∀ now, Effect.backend .clear ∉ effectsOf (board.expire now) ↔
      board.settings.apply = false ∨ board.hasLapsed now = false) ∧
    (∀ tree, (∀ serves, Effect.backend (.offer serves) ∉
        effectsOf (board.materialized stamp tree)) ↔
      board.settings.apply = false ∨ board.current = none) ∧
    ∀ event command, Effect.backend command ∈ effectsOf (board.step event) →
      board.head < (board.step event).1.head ∨ (∃ now, event = .expire now) ∨
        ∃ tree, event = .materialized stamp tree := by
  intro board
  obtain ⟨_, _, _, _, _, _, _, _, _, head⟩ := takenOver
  obtain ⟨dated, marked⟩ := after_marked clock origin settings saved events
  refine ⟨?_, ?_, ?_⟩
  · intro now
    rw [expire_clears_iff now board dated marked, not_and_or, Bool.not_eq_true, Bool.not_eq_true]
  · intro tree
    rw [← not_exists, materialized_offers_iff stamp tree board, not_and_or, not_and_or,
      Bool.not_eq_true, Bool.not_eq_true, Option.isSome_eq_false_iff, Option.isNone_iff_eq_none,
      or_iff_right (not_not.mpr head)]
  · intro event command asked
    obtain newer | ran_out | ⟨other, tree, landed, same⟩ := touches_cases board event command asked
    · exact Or.inl newer
    · exact Or.inr (Or.inl ran_out)
    · obtain rfl := WithBot.coe_injective (head.symm.trans same)
      exact Or.inr (Or.inr ⟨tree, landed⟩)

/-- A text of a peer with a lifetime of a minute. -/
def passingClip : Clip Nat Bytes where
  stamp := { millis := 5, origin := 1 }
  copy := some {
    selection := .of { mime := Mime.plainText, bytes := [104, 105] }
    secret := false
    ttl := some 60
    files := [] }

/-- The instant the text was copied. -/
def asCopied : Clock := { stamp := 5000000, believed := 5000000, set := 5000000, lapse := 5000000 }

/-- A machine that shares nothing of its own. -/
def keepsToItself : Settings := { Settings.default with capture := false }

/-- It takes the text, and another is copied on it. -/
def copiedMeanwhile : List (Event Nat Bytes) :=
  [.accept asCopied passingClip,
    .captured asCopied
      { selection := .of { mime := Mime.plainText, bytes := [121, 111] }, secret := false } []]

/-- Another application copies something, which is not shared, while the clip is there. -/
theorem copiedMeanwhile_takenOver :
    TakenOver (new asCopied 0 keepsToItself none) passingClip.stamp copiedMeanwhile :=
  ⟨[], _, [], _, [], rfl, Or.inl ⟨serves (.of { mime := Mime.plainText, bytes := [104, 105] }),
    by decide⟩, by decide, ⟨_, _, _, rfl, by decide⟩, by decide⟩

/-- While its lifetime runs, the text does not empty the clipboard. -/
theorem taken_over_is_untouched_iff_running :
    let board := (new asCopied 0 keepsToItself none).after copiedMeanwhile
    Effect.backend .clear ∉ effectsOf (board.expire 60004999999) := by
  intro board
  have running : board.hasLapsed 60004999999 = false := by decide
  exact ((taken_over_is_untouched_iff asCopied 0 keepsToItself none copiedMeanwhile
    passingClip.stamp copiedMeanwhile_takenOver).1 60004999999).mpr (Or.inr running)

/-- Once it runs out, the other application's selection is taken away. -/
theorem lifetime_takes_away_another_selection :
    let board := (new asCopied 0 keepsToItself none).after copiedMeanwhile
    TakenOver (new asCopied 0 keepsToItself none) passingClip.stamp copiedMeanwhile ∧
      Effect.backend .clear ∈ effectsOf (board.expire 60005000000) :=
  ⟨copiedMeanwhile_takenOver, by decide⟩

end Yank.Clipboard
