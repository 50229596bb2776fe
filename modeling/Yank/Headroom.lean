import Yank.Drift

/-!
# Room for one millisecond more

A stamp made here is one millisecond past the clip it replaces, in an addition that is not
checked, and that clip may be a peer's. A peer's clip is believed up to the drift past the
wall clock only, so every clip is ahead of all readings by no more than the drift and a
millisecond for each clip made here.

What counts is the addition, and so every call that makes a stamp, whether or not a clip
comes of it.
-/

namespace Yank.Clipboard

variable {Id Hash : Type} [LinearOrder Id] [ContentHash Hash] [DecidableEq Hash]

/-- The readings of the wall clock that an event takes for stamps are at most these many
milliseconds. -/
def Event.ReadsAtMost (most : Nat) : Event Id Hash → Prop
  | .copy clock _ _ _ _ => (wallMillis clock.stamp).toNat ≤ most
  | .captured clock _ _ => (wallMillis clock.stamp).toNat ≤ most
  | .clear clock => (wallMillis clock.stamp).toNat ≤ most
  | .accept clock _ => (wallMillis clock.believed).toNat ≤ most
  | .expire _ => True
  | .materialized _ _ => True
  | .restart _ _ => True

/-- The clock an event stamps a clip with, when it gets as far as to make one. -/
def stamping (board : Clipboard Id Hash) : Event Id Hash → Option Clock
  | .copy clock selection files secret ttl =>
      if (board.toCopy selection files secret ttl).isOk then some clock else none
  | .captured clock capture files =>
      if board.settings.capture && (board.fit capture.selection).any (fun selection =>
          !board.isEcho selection.primary.bytes &&
            (board.capturedCopy capture selection files).check.isOk) then some clock
      else none
  | .clear clock => some clock
  | .accept _ _ => none
  | .expire _ => none
  | .materialized _ _ => none
  | .restart _ _ => none

/-- How many clips the events make here. -/
def made (board : Clipboard Id Hash) : List (Event Id Hash) → Nat
  | [] => 0
  | event :: events =>
      (if (board.stamping event).isSome then 1 else 0) + made (board.step event).1 events

omit [LinearOrder Id] in
/-- A clip is made by a copy, a report or a clear, with the clock of that. -/
theorem stamping_maker (board : Clipboard Id Hash) (event : Event Id Hash) (clock : Clock)
    (stamps : board.stamping event = some clock) : event.maker = some clock := by
  cases event with
  | copy other selection files secret ttl =>
    simp only [stamping, Option.ite_none_right_eq_some] at stamps
    exact stamps.2
  | captured other capture files =>
    simp only [stamping, Option.ite_none_right_eq_some] at stamps
    exact stamps.2
  | clear other => exact stamps
  | _ => cases stamps

omit [LinearOrder Id] [ContentHash Hash] [DecidableEq Hash] in
/-- A clip is made at a reading of its event. -/
theorem maker_read (event : Event Id Hash) (clock : Clock) (most : Nat)
    (makes : event.maker = some clock) (read : event.ReadsAtMost most) :
    (wallMillis clock.stamp).toNat ≤ most := by
  cases event with
  | copy other selection files secret ttl => exact Option.some.inj makes ▸ read
  | captured other capture files => exact Option.some.inj makes ▸ read
  | clear other => exact Option.some.inj makes ▸ read
  | _ => cases makes

/-- An event that makes a clip leaves it under the next stamp, or leaves the head where there
is none. -/
theorem stamping_cases (board : Clipboard Id Hash) (event : Event Id Hash) (clock : Clock)
    (stamps : board.stamping event = some clock) :
    (board.step event).1.head = board.head ∨
      ∃ stamp, Stamp.next clock.stamp board.head board.origin = some stamp ∧
        (board.step event).1.head = stamp := by
  obtain same | ⟨clip, holds, stamped, _⟩ :=
    maker_cases board event clock (stamping_maker board event clock stamps)
  · exact Or.inl (head_congr _ _ same)
  · exact Or.inr ⟨clip.stamp, stamped, head_of_clip _ clip holds⟩

/-- An event that makes no clip leaves the head, or takes a clip that is believed. The cases
follow the operations: each that would make a clip is told from those that do not by the guard it
makes one under. -/
theorem unstamped_cases (board : Clipboard Id Hash) (event : Event Id Hash)
    (none_made : board.stamping event = none) :
    (board.step event).1.head = board.head ∨
      ∃ clock clip, event = .accept clock clip ∧ clip.stamp.isPlausible clock.believed = true ∧
        (board.step event).1.head = clip.stamp := by
  cases event with
  | copy clock selection files secret ttl =>
    left
    obtain ⟨failure, refused⟩ | ⟨copy, stamp, recorded, _⟩ :=
      copy_cases clock selection files secret ttl board
    · rw [step, refused]
    · simp [stamping, recorded, Except.isOk, Except.toBool] at none_made
  | captured clock capture files =>
    left
    obtain ⟨_, ignored⟩ | failed | ⟨_, _, _, _, echoed⟩ |
      ⟨selection, stamp, shared, fitted, news, checked, _⟩ :=
      captured_cases clock capture files board
    · rw [step, ignored]
    · rw [step, failed]
    · rw [step, echoed]
      rfl
    · simp [stamping, shared, fitted, news, checked, Except.isOk, Except.toBool] at none_made
  | clear clock => cases none_made
  | accept clock clip =>
    obtain ⟨_, ignored⟩ | ⟨failure, _, refused⟩ | ⟨_, welcome, taken⟩ :=
      accept_cases clock clip board
    · exact Or.inl (by rw [step, ignored])
    · exact Or.inl (by rw [step, refused])
    · right
      simp only [acceptable, ensure_bind_ok_iff] at welcome
      refine ⟨clock, clip, rfl, welcome.2.1, ?_⟩
      rw [step, taken, apply_head, lapse_head, set_head]
  | expire now =>
    left
    obtain ⟨_, ignored⟩ | ⟨_, dropped⟩ := expire_cases now board
    · rw [step, ignored]
    · rw [step, dropped, apply_head, lapse_head]
  | materialized stamp tree =>
    left
    obtain ⟨_, ignored⟩ | ⟨_, landed⟩ := materialized_cases stamp tree board
    · rw [step, ignored]
    · rw [step, landed, apply_head]
      rfl
  | restart clock settings => exact Or.inl (Aging.restart_head clock settings board)

/-- A head is at most these many milliseconds. -/
def AtMost (bound : Nat) (head : WithBot (Stamp Id)) : Prop :=
  ∀ stamp : Stamp Id, head = stamp → stamp.millis.toNat ≤ bound

/-- One event takes the head past what is believed by a millisecond for a clip it makes. A clip
made here is stamped at its reading or one past the head, and one that is accepted is within the
drift of the reading it was believed by. -/
theorem step_atMost (most bound : Nat) (board : Clipboard Id Hash) (event : Event Id Hash)
    (drift : most + maxDriftMillis ≤ bound) (read : event.ReadsAtMost most)
    (within : AtMost bound board.head) :
    AtMost (bound + if (board.stamping event).isSome then 1 else 0) (board.step event).1.head := by
  intro stamp held
  cases stamps : board.stamping event with
  | none =>
    obtain same | ⟨clock, clip, rfl, believed, taken⟩ := unstamped_cases board event stamps
    · exact within stamp (same.symm.trans held)
    · obtain rfl := WithBot.coe_injective (taken.symm.trans held)
      have near := (Stamp.isPlausible_iff clip.stamp clock.believed).mp believed
      have reading : (wallMillis clock.believed).toNat ≤ most := read
      simp only [Option.isSome_none, Bool.false_eq_true, if_false]
      omega
  | some clock =>
    have reading := maker_read event clock most (stamping_maker board event clock stamps) read
    simp only [Option.isSome_some, if_true]
    obtain same | ⟨next, stamped, made⟩ := stamping_cases board event clock stamps
    · have bounded := within stamp (same.symm.trans held)
      omega
    · obtain rfl := WithBot.coe_injective (made.symm.trans held)
      obtain ⟨_, millis⟩ | ⟨before, set, millis⟩ :=
        Stamp.next_millis clock.stamp board.head board.origin next stamped
      · omega
      · have bounded := within before set
        omega

/-- Along a history, by a millisecond for each clip made. -/
theorem after_atMost (most bound : Nat) (board : Clipboard Id Hash)
    (events : List (Event Id Hash)) (drift : most + maxDriftMillis ≤ bound)
    (read : ∀ event ∈ events, event.ReadsAtMost most) (within : AtMost bound board.head) :
    AtMost (bound + board.made events) (board.after events).head := by
  induction events generalizing bound board with
  | nil => exact within
  | cons event events inductionHypothesis =>
    rw [List.forall_mem_cons] at read
    have rest := inductionHypothesis _ (board.step event).1 (by omega) read.2
      (step_atMost most bound board event drift read.1 within)
    rw [made, ← Nat.add_assoc]
    exact rest

/-- The clips made here are those made before an event, by it and after it. -/
theorem made_append (board : Clipboard Id Hash) (early late : List (Event Id Hash)) :
    board.made (early ++ late) = board.made early + (board.after early).made late := by
  induction early generalizing board with
  | nil => simp [made, after]
  | cons event early inductionHypothesis =>
    rw [List.cons_append, made, made, inductionHypothesis, Nat.add_assoc]
    rfl

omit [LinearOrder Id] in
/-- There is one millisecond more after a head that leaves room for it. -/
theorem after_ne_none (head : WithBot (Stamp Id)) (bound : Nat) (room : bound + 1 < 2 ^ 64)
    (within : AtMost bound head) : Stamp.after head ≠ none := by
  induction head with
  | bot => exact Option.some_ne_none 0
  | coe stamp =>
    have bounded := within stamp rfl
    change (if stamp.millis.toNat + 1 < 2 ^ 64 then some (stamp.millis + 1) else none) ≠ none
    rw [if_pos (by omega)]
    exact Option.some_ne_none _

/-- Stamp arithmetic does not overflow. In every history of a machine whose readings of the
wall clock are at most `most` milliseconds, whatever its peers send, the head is at most the
drift past that and a millisecond for each clip made here. Where the sum is within 64 bits,
so is every addition that stamps one of these clips. -/
theorem stamps_do_not_overflow (most : Nat) (clock : Clock) (origin : Id) (settings : Settings)
    (events : List (Event Id Hash)) (read : ∀ event ∈ events, event.ReadsAtMost most) :
    let board := new clock origin settings none
    let bound := most + maxDriftMillis + board.made events
    AtMost bound (board.after events).head ∧
      (bound < 2 ^ 64 → ∀ early event late, events = early ++ event :: late →
        ((board.after early).stamping event).isSome = true →
        Stamp.after (board.after early).head ≠ none) := by
  intro board bound
  have first : AtMost (most + maxDriftMillis) board.head := by
    intro stamp held
    cases held
  refine ⟨after_atMost most _ board events le_rfl read first, ?_⟩
  intro room early event late split stamps
  have read_early : ∀ other ∈ early, other.ReadsAtMost most := by
    intro other member
    exact read other (by simp [split, member])
  have within := after_atMost most _ board early le_rfl read_early first
  have count : board.made early + 1 ≤ board.made events := by
    rw [split, made_append, made, if_pos stamps]
    omega
  exact after_ne_none _ _ (by omega) within

/-- A text copied on top of a clip that a peer stamped as far ahead as is believed. -/
theorem stamps_do_not_overflow_past_the_drift :
    let board := new (Aging.readAt 0) 1 Settings.default none
    let far : Clip Nat Bytes := { stamp := { millis := 300000, origin := 2 }, copy := none }
    let events := [.accept (Aging.readAt 0) far, copyHello 0]
    board.made events = 1 ∧
      (board.after events).head = ({ millis := 300001, origin := 1 } : Stamp Nat) ∧
      AtMost 300001 (board.after events).head ∧
      Stamp.after (board.after [.accept (Aging.readAt 0) far]).head ≠ none := by
  intro board far events
  have read : ∀ event ∈ events, event.ReadsAtMost 0 := by
    rw [List.forall_mem_cons, List.forall_mem_singleton]
    change (wallMillis 0).toNat ≤ 0 ∧ (wallMillis 0).toNat ≤ 0
    decide
  have count : board.made events = 1 := by decide
  obtain ⟨within, sums⟩ :=
    stamps_do_not_overflow 0 (Aging.readAt 0) 1 Settings.default events read
  rw [count] at within
  exact ⟨count, by decide, within,
    sums (by decide) [.accept (Aging.readAt 0) far] (copyHello 0) [] rfl (by decide)⟩

end Yank.Clipboard
