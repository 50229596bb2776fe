import Mathlib

/-!
# Neighbours in a sorted list

A scan of adjacent pairs sees all of a sorted list only as far as order goes: a
pair is adjacent when nothing of the list lies strictly between. Whatever lies
between two elements hides their relation from the scan.

Words over an ordered alphabet are compared letter by letter. What lies between a
word and a longer word it begins begins with that word too.
-/

namespace Yank.Adjacent

section Pairs

variable {α : Type}

/-- Adjacent pairs of a list. -/
def pairs (items : List α) : List (α × α) := items.zip items.tail

/-- Nothing has no neighbours. -/
@[simp] theorem pairs_nil : pairs ([] : List α) = [] := rfl

/-- Nor has one element alone. -/
@[simp] theorem pairs_singleton (item : α) : pairs [item] = [] := rfl

/-- One more in front is beside the one that was first. -/
@[simp] theorem pairs_cons_cons (first second : α) (rest : List α) :
    pairs (first :: second :: rest) = (first, second) :: pairs (second :: rest) := rfl

/-- Neighbours are of the list. -/
theorem mem_of_mem_pairs (items : List α) (pair : α × α) (beside : pair ∈ pairs items) :
    pair.1 ∈ items ∧ pair.2 ∈ items := by
  have zipped : (pair.1, pair.2) ∈ items.zip items.tail := beside
  constructor
  · exact (List.of_mem_zip zipped).1
  · exact List.mem_of_mem_tail (List.of_mem_zip zipped).2

end Pairs

section Sorted

variable {α : Type} [LinearOrder α]

/-- A sorted list with no two neighbours equal has no element twice. The induction is on the list:
the first is under the second, and by the order under the rest. -/
theorem strict_of_pairs (items : List α) (sorted : items.Pairwise (· ≤ ·))
    (apart : ∀ pair ∈ pairs items, pair.1 ≠ pair.2) : items.Pairwise (· < ·) := by
  induction items with
  | nil => exact List.Pairwise.nil
  | cons first rest inductionHypothesis =>
    obtain ⟨least, sortedRest⟩ := List.pairwise_cons.mp sorted
    cases rest with
    | nil => exact List.pairwise_singleton _ _
    | cons second others =>
      have strictRest : (second :: others).Pairwise (· < ·) := by
        apply inductionHypothesis sortedRest
        intro pair beside
        exact apart pair (List.mem_cons_of_mem _ beside)
      have below : first < second :=
        lt_of_le_of_ne (least second List.mem_cons_self) (apart (first, second) List.mem_cons_self)
      rw [List.pairwise_cons]
      constructor
      · intro item among
        obtain rfl | among := List.mem_cons.mp among
        · exact below
        · exact below.trans ((List.pairwise_cons.mp strictRest).1 item among)
      · exact strictRest

/-- Neighbours are in the order of the list. -/
theorem lt_of_mem_pairs (items : List α) (strict : items.Pairwise (· < ·)) (pair : α × α)
    (beside : pair ∈ pairs items) : pair.1 < pair.2 := by
  induction items with
  | nil => cases beside
  | cons first rest inductionHypothesis =>
    obtain ⟨least, strictRest⟩ := List.pairwise_cons.mp strict
    cases rest with
    | nil => cases beside
    | cons second others =>
      rw [pairs_cons_cons, List.mem_cons] at beside
      obtain rfl | beside := beside
      · exact least second List.mem_cons_self
      · exact inductionHypothesis strictRest beside

/-- Nothing of the list is strictly between two neighbours. The induction is on the list: of the
first pair the second is under all that follow, and of a later one the first element is under
both. -/
theorem nothing_between (items : List α) (strict : items.Pairwise (· < ·)) (pair : α × α)
    (beside : pair ∈ pairs items) (item : α) (among : item ∈ items) :
    item ≤ pair.1 ∨ pair.2 ≤ item := by
  induction items with
  | nil => cases among
  | cons first rest inductionHypothesis =>
    obtain ⟨least, strictRest⟩ := List.pairwise_cons.mp strict
    cases rest with
    | nil => cases beside
    | cons second others =>
      rw [pairs_cons_cons, List.mem_cons] at beside
      obtain rfl | beside := beside
      · obtain rfl | among := List.mem_cons.mp among
        · exact .inl le_rfl
        · right
          obtain rfl | among := List.mem_cons.mp among
          · exact le_rfl
          · exact ((List.pairwise_cons.mp strictRest).1 item among).le
      · obtain rfl | among := List.mem_cons.mp among
        · left
          exact (least pair.1 (mem_of_mem_pairs _ pair beside).1).le
        · exact inductionHypothesis strictRest beside among

/-- What has something above it has a next neighbour, and that one is not past it. The induction
is on the list: the neighbour of the first is the second, and of any other it is found behind the
first. -/
theorem next_neighbour (items : List α) (strict : items.Pairwise (· < ·)) (low high : α)
    (lowAmong : low ∈ items) (highAmong : high ∈ items) (below : low < high) :
    ∃ next, (low, next) ∈ pairs items ∧ low < next ∧ next ≤ high := by
  induction items with
  | nil => cases lowAmong
  | cons first rest inductionHypothesis =>
    obtain ⟨least, strictRest⟩ := List.pairwise_cons.mp strict
    have highRest : high ∈ rest := by
      obtain rfl | among := List.mem_cons.mp highAmong
      · obtain rfl | among := List.mem_cons.mp lowAmong
        · exact absurd below (lt_irrefl _)
        · exact absurd below (least low among).asymm
      · exact among
    cases rest with
    | nil => cases highRest
    | cons second others =>
      rw [pairs_cons_cons]
      obtain rfl | lowRest := List.mem_cons.mp lowAmong
      · refine ⟨second, List.mem_cons_self, least second List.mem_cons_self, ?_⟩
        obtain rfl | among := List.mem_cons.mp highRest
        · exact le_rfl
        · exact ((List.pairwise_cons.mp strictRest).1 high among).le
      · obtain ⟨next, beside, bounds⟩ := inductionHypothesis strictRest lowRest highRest
        exact ⟨next, List.mem_cons_of_mem _ beside, bounds⟩

end Sorted

section Words

variable {Letter : Type} [LinearOrder Letter]

/-- What two words begin with alike does not count. -/
theorem append_lt_append_iff (start left right : List Letter) :
    start ++ left < start ++ right ↔ left < right := by
  induction start with
  | nil => exact Iff.rfl
  | cons letter rest inductionHypothesis =>
    simp [inductionHypothesis]

/-- A word comes before any that goes on from it. -/
theorem lt_append_cons (word rest : List Letter) (letter : Letter) :
    word < word ++ letter :: rest := by
  have longer : word ++ [] < word ++ letter :: rest := by
    rw [append_lt_append_iff]
    exact List.nil_lt_cons letter rest
  simpa using longer

/-- Between a word and a longer one it begins, every word begins with it. The induction is on the
word: were the first letters apart, the middle word would lie on one side of both. -/
theorem prefix_of_between (word middle tail : List Letter) (above : word < middle)
    (below : middle < word ++ tail) : word <+: middle := by
  induction word generalizing middle with
  | nil => exact List.nil_prefix
  | cons letter rest inductionHypothesis =>
    cases middle with
    | nil => exact absurd above (List.not_lt_nil _)
    | cons other others =>
      rw [List.cons_lt_cons_iff] at above
      rw [List.cons_append, List.cons_lt_cons_iff] at below
      obtain above | ⟨rfl, above⟩ := above
      · obtain below | ⟨rfl, _⟩ := below
        · exact absurd below above.asymm
        · exact absurd above (lt_irrefl _)
      · obtain below | ⟨_, below⟩ := below
        · exact absurd below (lt_irrefl _)
        · exact (List.prefix_cons_inj letter).mpr (inductionHypothesis others above below)

/-- What lies strictly between a word and that word continued with a letter
continues it with an earlier letter or goes on from the same one. -/
theorem continues_of_between (word middle tail : List Letter) (letter : Letter)
    (above : word < middle) (below : middle < word ++ letter :: tail) :
    ∃ next, next ≤ letter ∧ word ++ [next] <+: middle := by
  obtain ⟨rest, rfl⟩ := prefix_of_between word middle (letter :: tail) above below
  cases rest with
  | nil => simp at above
  | cons next others =>
    rw [append_lt_append_iff, List.cons_lt_cons_iff] at below
    have bounded : next ≤ letter := by
      obtain earlier | ⟨rfl, _⟩ := below
      · exact earlier.le
      · exact le_rfl
    exact ⟨next, bounded, others, by simp⟩

/-- A word continued with an earlier letter lies strictly between. -/
theorem between_of_continues (word middle tail : List Letter) (next letter : Letter)
    (earlier : next < letter) (continued : word ++ [next] <+: middle) :
    word < middle ∧ middle < word ++ letter :: tail := by
  obtain ⟨rest, rfl⟩ := continued
  rw [List.append_assoc, List.singleton_append]
  constructor
  · exact lt_append_cons word rest next
  · rw [append_lt_append_iff, List.cons_lt_cons_iff]
    exact .inl earlier

end Words

end Yank.Adjacent
