import Mathlib

/-!
# The order machines agree on between copies

A stamp is wall time in milliseconds and the machine that read it; the machine
breaks ties. A new copy is stamped with wall time, or one millisecond past the
clip it replaces when wall time is behind it, so a machine always stamps after
everything it has seen whatever its clock does.

Clock readings are arguments. The source asks the system clock wherever it
needs the time; here every place that asks is given its own reading, and no
result below relates two of them unless it says so.

The addition in `next` is checked: a stamp that would leave 64 bits is `none`,
which is the panic of a build with overflow checks. The type of machine ids is
arbitrary, with the order their tie-break uses.
-/

namespace Yank

variable {Id : Type}

/-- An instant of the system clock, in nanoseconds from the unix epoch. A clock
set before the epoch reads a negative instant. -/
abbrev SystemTime := Int

/-- A span of time, in nanoseconds. -/
abbrev Duration := Nat

def asSecs (duration : Duration) : Nat := duration / 1000000000

/-- Milliseconds of a duration, at most what 64 bits hold. -/
def millisOf (duration : Duration) : UInt64 :=
  UInt64.ofNat (min (duration / 1000000) (2 ^ 64 - 1))

/-- Milliseconds since the unix epoch, clamped at the epoch for a system clock
set before it. -/
def wallMillis (now : SystemTime) : UInt64 := millisOf now.toNat

/-- How far ahead of local wall time a peer's stamp may be: five minutes. -/
def maxDrift : Duration := 300000000000

/-- When a copy was made and where. -/
structure Stamp (Id : Type) where
  millis : UInt64
  origin : Id
deriving DecidableEq

namespace Stamp

/-- The derived order compares the fields in turn. -/
def key (stamp : Stamp Id) : ℕ ×ₗ Id := toLex (stamp.millis.toNat, stamp.origin)

/-- A stamp is its key. -/
theorem key_injective : Function.Injective (key : Stamp Id → ℕ ×ₗ Id) := by
  intro left right same
  cases left
  cases right
  simp only [key, EmbeddingLike.apply_eq_iff_eq, Prod.mk.injEq, UInt64.toNat_inj] at same
  simp [same]

section Order
variable [LinearOrder Id]

instance : LinearOrder (Stamp Id) where
  le left right := key left ≤ key right
  le_refl stamp := le_refl (key stamp)
  le_trans _ _ _ := le_trans
  le_antisymm _ _ forth back := key_injective (le_antisymm forth back)
  le_total left right := le_total (key left) (key right)
  toDecidableLE left right := inferInstanceAs (Decidable (key left ≤ key right))
  toDecidableEq := inferInstance

/-- Milliseconds first, then the origin. -/
theorem lt_iff (left right : Stamp Id) :
    left < right ↔ left.millis.toNat < right.millis.toNat ∨
      left.millis = right.millis ∧ left.origin < right.origin := by
  rw [lt_iff_le_not_ge]
  change key left ≤ key right ∧ ¬ key right ≤ key left ↔ _
  rw [← lt_iff_le_not_ge, Prod.Lex.lt_iff]
  simp [key, UInt64.toNat_inj]

end Order

/-- The least number of milliseconds past `last`, when 64 bits hold it. -/
def after (last : WithBot (Stamp Id)) : Option UInt64 :=
  match last with
  | ⊥ => some 0
  | (last : Stamp Id) =>
      if last.millis.toNat + 1 < 2 ^ 64 then some (last.millis + 1) else none

/-- Stamps a copy made at `origin`, after `last`. -/
def next (now : SystemTime) (last : WithBot (Stamp Id)) (origin : Id) : Option (Stamp Id) :=
  (after last).map (fun after => { millis := max (wallMillis now) after, origin })

/-- Whether a peer's stamp is close enough to our wall clock to be believed.
The sum saturates. -/
def isPlausible (stamp : Stamp Id) (now : SystemTime) : Bool :=
  decide (stamp.millis.toNat ≤
    min ((wallMillis now).toNat + (millisOf maxDrift).toNat) (2 ^ 64 - 1))

/-- The wall-clock instant this stamp claims to be at. -/
def time (stamp : Stamp Id) : SystemTime := stamp.millis.toNat * 1000000

/-- The larger of two numbers is so as a natural number. -/
theorem toNat_max (left right : UInt64) : (max left right).toNat = max left.toNat right.toNat := by
  change (if left ≤ right then right else left).toNat = _
  by_cases below : left ≤ right
  · rw [if_pos below, max_eq_right (UInt64.le_iff_toNat_le.mp below)]
  · have above : right.toNat ≤ left.toNat :=
      Nat.le_of_not_le (fun crossed => below (UInt64.le_iff_toNat_le.mpr crossed))
    rw [if_neg below, max_eq_left above]

/-- A stamp made here names this machine. -/
theorem next_origin (now : SystemTime) (last : WithBot (Stamp Id)) (origin : Id) (stamp : Stamp Id)
    (made : next now last origin = some stamp) : stamp.origin = origin := by
  simp only [next, Option.map_eq_some_iff] at made
  obtain ⟨after, _, rfl⟩ := made
  rfl

/-- A machine that has seen a copy stamps the next one after it, whatever its
wall clock reads. -/
theorem lt_next [LinearOrder Id] (now : SystemTime) (last : WithBot (Stamp Id)) (origin : Id)
    (stamp : Stamp Id) (made : next now last origin = some stamp) : last < stamp := by
  induction last with
  | bot => exact WithBot.bot_lt_coe stamp
  | coe last =>
    simp only [next, Option.map_eq_some_iff] at made
    obtain ⟨after, successor, rfl⟩ := made
    obtain ⟨fits, same⟩ :
        last.millis.toNat + 1 < 2 ^ 64 ∧ last.millis + 1 = after := by
      simpa [Stamp.after] using successor
    have count : after.toNat = last.millis.toNat + 1 := by
      rw [← same, UInt64.toNat_add]
      exact Nat.mod_eq_of_lt fits
    rw [WithBot.coe_lt_coe, lt_iff, toNat_max, count]
    left
    exact lt_of_lt_of_le (Nat.lt_succ_self _) (le_max_right _ _)

end Stamp

end Yank
