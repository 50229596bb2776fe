import Mathlib

/-!
# Folding joins

A register whose update is a join forgets the order and the number of its
updates: what it ends with is the least upper bound of where it started and of
everything it was given. The laws below hold in any join semilattice and say
nothing about what the elements are.

A join that keeps one of its two arguments, as the larger of two elements of a
linear order does, ends at an element it was given.
-/

namespace Joins

universe u
variable {α : Type u}

section Semilattice
variable [SemilatticeSup α]

/-- Everything in `items` joined onto `start`, from the left. -/
def joinAll (start : α) (items : List α) : α := items.foldl (· ⊔ ·) start

/-- Joining nothing changes nothing. -/
@[simp] theorem joinAll_nil (start : α) : joinAll start [] = start := rfl

/-- Items are joined one by one. -/
@[simp] theorem joinAll_cons (start item : α) (items : List α) :
    joinAll start (item :: items) = joinAll (start ⊔ item) items := rfl

/-- A fold of joins is bounded exactly when its start and its items are. -/
theorem joinAll_le_iff (start bound : α) (items : List α) :
    joinAll start items ≤ bound ↔ start ≤ bound ∧ ∀ item ∈ items, item ≤ bound := by
  induction items generalizing start with
  | nil => simp
  | cons item items inductionHypothesis =>
    rw [joinAll_cons, inductionHypothesis, sup_le_iff, List.forall_mem_cons, and_assoc]

/-- What there was is below the join. -/
theorem start_le_joinAll (start : α) (items : List α) : start ≤ joinAll start items :=
  ((joinAll_le_iff start (joinAll start items) items).mp le_rfl).1

/-- So is everything that is joined. -/
theorem member_le_joinAll (start item : α) (items : List α) (member : item ∈ items) :
    item ≤ joinAll start items :=
  ((joinAll_le_iff start (joinAll start items) items).mp le_rfl).2 item member

/-- Order and repetition do not matter: two lists with the same members join
to the same element. Each side is an upper bound of the other's items. -/
theorem joinAll_congr (start : α) (left right : List α)
    (same : ∀ item, item ∈ left ↔ item ∈ right) :
    joinAll start left = joinAll start right := by
  apply le_antisymm
  · refine (joinAll_le_iff _ _ _).mpr ⟨start_le_joinAll start right, ?_⟩
    intro item member
    exact member_le_joinAll start item right ((same item).mp member)
  · refine (joinAll_le_iff _ _ _).mpr ⟨start_le_joinAll start left, ?_⟩
    intro item member
    exact member_le_joinAll start item left ((same item).mpr member)

end Semilattice

/-- In a linear order the result was there all along: it is the start or one
of the items. -/
theorem joinAll_mem [LinearOrder α] (start : α) (items : List α) :
    joinAll start items = start ∨ joinAll start items ∈ items := by
  induction items generalizing start with
  | nil => exact Or.inl rfl
  | cons item items inductionHypothesis =>
    rw [joinAll_cons]
    rcases inductionHypothesis (start ⊔ item) with atStart | among
    · rcases le_total start item with below | above
      · right
        rw [atStart, sup_eq_right.mpr below]
        exact List.mem_cons_self
      · left
        rw [atStart, sup_eq_left.mpr above]
    · exact Or.inr (List.mem_cons_of_mem item among)

end Joins
