import Mathlib

/-!
# Collecting up to a cap

Items are gathered from a list in order. An item is taken when it is wanted, when
nothing with its key was taken already, and while there is room.

What is gathered fills up exactly when the keys in reach are as many as there is
room for. That says, at each item, whether there was still room for it.

An item can also be picked by rank: patterns are tried in order, each on all the items. The
pick is the first of the items no other is ranked better than.
-/

namespace Collect

variable {Item Key : Type} [DecidableEq Key]

/-- What is gathered once one more item was seen. -/
def advance (cap : Nat) (key : Item → Key) (wanted : Item → Bool) (taken : List Item)
    (item : Item) : List Item :=
  if cap ≤ taken.length then taken
  else if wanted item = true ∧ key item ∉ taken.map key then taken ++ [item]
  else taken

def collect (cap : Nat) (key : Item → Key) (wanted : Item → Bool) (items taken : List Item) :
    List Item :=
  items.foldl (advance cap key wanted) taken

variable {cap : Nat} {key : Item → Key} {wanted : Item → Bool}

variable (cap key wanted) in
/-- An item is taken, for a reason, or nothing changes, for another. Room is looked at before the
item is, and the item before its key. -/
theorem advance_cases (taken : List Item) (item : Item) :
    advance cap key wanted taken item = taken ++ [item] ∧ taken.length < cap ∧
        wanted item = true ∧ key item ∉ taken.map key ∨
      advance cap key wanted taken item = taken ∧
        (cap ≤ taken.length ∨ wanted item = false ∨ key item ∈ taken.map key) := by
  unfold advance
  split
  · rename_i full
    exact Or.inr ⟨rfl, Or.inl full⟩
  · rename_i room
    split
    · rename_i fits
      exact Or.inl ⟨rfl, by omega, fits.1, fits.2⟩
    · rename_i misfit
      refine Or.inr ⟨rfl, Or.inr ?_⟩
      cases likes : wanted item with
      | false => exact Or.inl rfl
      | true =>
        by_contra absent
        rw [not_or] at absent
        exact misfit ⟨likes, absent.2⟩

/-- Where there is nothing, nothing is taken. -/
@[simp] theorem collect_nil (taken : List Item) : collect cap key wanted [] taken = taken := rfl

/-- Items are looked at one by one. -/
theorem collect_cons (item : Item) (items taken : List Item) :
    collect cap key wanted (item :: items) taken =
      collect cap key wanted items (advance cap key wanted taken item) := rfl

/-- What was taken of the first items counts for the later ones. -/
theorem collect_append (early late taken : List Item) :
    collect cap key wanted (early ++ late) taken =
      collect cap key wanted late (collect cap key wanted early taken) :=
  List.foldl_append

variable (cap key wanted) in
/-- What was gathered stays in front, and what is added comes from the items, in order. The
induction is on the items; each is put behind the others or left out. -/
theorem collect_extends (items taken : List Item) :
    ∃ more, collect cap key wanted items taken = taken ++ more ∧ more.Sublist items ∧
      ∀ item ∈ more, wanted item = true := by
  induction items generalizing taken with
  | nil => exact ⟨[], by simp, List.Sublist.slnil, by simp⟩
  | cons item items inductionHypothesis =>
    rw [collect_cons]
    obtain ⟨step, _, likes, _⟩ | ⟨step, _⟩ :=
      advance_cases cap key wanted taken item
    · obtain ⟨more, rest, among, all⟩ := inductionHypothesis (taken ++ [item])
      refine ⟨item :: more, by rw [step, rest, List.append_assoc]; rfl, among.cons_cons item, ?_⟩
      intro other member
      obtain rfl | later := List.mem_cons.mp member
      · exact likes
      · exact all other later
    · obtain ⟨more, rest, among, all⟩ := inductionHypothesis taken
      exact ⟨more, by rw [step, rest], among.cons item, all⟩

/-- No more are taken than there is room for. -/
theorem collect_length (items taken : List Item) (room : taken.length ≤ cap) :
    (collect cap key wanted items taken).length ≤ cap := by
  induction items generalizing taken with
  | nil => exact room
  | cons item items inductionHypothesis =>
    rw [collect_cons]
    refine inductionHypothesis _ ?_
    obtain ⟨step, short, _⟩ | ⟨step, _⟩ :=
      advance_cases cap key wanted taken item
    · rw [step, List.length_append, List.length_singleton]
      omega
    · rw [step]
      exact room

variable (cap key wanted) in
/-- No two gathered items share a key. The induction is on the items: one is taken only where its
key is not among those taken. -/
theorem collect_nodup (items taken : List Item) (distinct : (taken.map key).Nodup) :
    ((collect cap key wanted items taken).map key).Nodup := by
  induction items generalizing taken with
  | nil => exact distinct
  | cons item items inductionHypothesis =>
    rw [collect_cons]
    refine inductionHypothesis _ ?_
    obtain ⟨step, _, _, fresh⟩ | ⟨step, _⟩ :=
      advance_cases cap key wanted taken item
    · rw [step, List.map_append, List.map_singleton]
      exact List.nodup_append.mpr ⟨distinct, List.nodup_singleton _, by
        rintro left among right single rfl
        rw [List.mem_singleton] at single
        exact fresh (single ▸ among)⟩
    · rw [step]
      exact distinct

/-- What was gathered on the way had room when its turn came. The induction is on the items: an
item that comes in at a later turn had room then. -/
theorem mem_collect (items taken : List Item) (item : Item)
    (member : item ∈ collect cap key wanted items taken) :
    item ∈ taken ∨ ∃ before after, items = before ++ item :: after ∧ wanted item = true ∧
      (collect cap key wanted before taken).length < cap := by
  induction items generalizing taken with
  | nil => exact Or.inl member
  | cons first items inductionHypothesis =>
    rw [collect_cons] at member
    obtain early | ⟨before, after, rfl, likes, room⟩ := inductionHypothesis _ member
    · obtain ⟨step, short, likes, _⟩ | ⟨step, _⟩ :=
        advance_cases cap key wanted taken first
      · rw [step, List.mem_append, List.mem_singleton] at early
        obtain old | rfl := early
        · exact Or.inl old
        · exact Or.inr ⟨[], items, rfl, likes, short⟩
      · exact Or.inl (step ▸ early)
    · exact Or.inr ⟨first :: before, after, rfl, likes, room⟩

/-- A wanted item is there under its key, unless there was no room left for it. At its turn it is
taken, or its key is there; and what is gathered stays. -/
theorem wanted_taken (before after taken : List Item) (item : Item) (likes : wanted item = true)
    (room : (collect cap key wanted before taken).length < cap) :
    key item ∈ (collect cap key wanted (before ++ item :: after) taken).map key := by
  rw [collect_append, collect_cons]
  obtain ⟨more, extended, _⟩ := collect_extends cap key wanted after
    (advance cap key wanted (collect cap key wanted before taken) item)
  rw [extended, List.map_append]
  refine List.mem_append_left _ ?_
  obtain ⟨step, _⟩ | ⟨step, full | dislikes | known⟩ :=
    advance_cases cap key wanted (collect cap key wanted before taken) item
  · rw [step, List.map_append]
    exact List.mem_append_right _ (List.mem_singleton_self _)
  · omega
  · rw [likes] at dislikes
    cases dislikes
  · rw [step]
    exact known

/-- Without room nothing is added. -/
theorem collect_full (items taken : List Item) (full : cap ≤ taken.length) :
    collect cap key wanted items taken = taken := by
  induction items with
  | nil => rfl
  | cons item items inductionHypothesis =>
    rw [collect_cons, advance, if_pos full, inductionHypothesis]

/-- The keys in reach: those taken already, and those of the wanted items. -/
def inReach (key : Item → Key) (wanted : Item → Bool) (items taken : List Item) : Finset Key :=
  ((taken ++ items.filter wanted).map key).toFinset

variable (cap key wanted) in
/-- Only keys in reach are gathered. -/
theorem keys_inReach (items taken : List Item) :
    ((collect cap key wanted items taken).map key).toFinset ⊆ inReach key wanted items taken := by
  obtain ⟨more, extended, among, all⟩ :=
    collect_extends cap key wanted items taken
  intro value member
  rw [extended, List.mem_toFinset, List.map_append, List.mem_append] at member
  rw [inReach, List.mem_toFinset, List.map_append, List.mem_append]
  obtain old | added := member
  · exact Or.inl old
  · obtain ⟨item, source, rfl⟩ := List.mem_map.mp added
    exact Or.inr (List.mem_map_of_mem (List.mem_filter.mpr ⟨among.subset source, all item source⟩))

/-- As long as there is room, every key in reach is taken. Each of them was wanted at its turn,
and there was room then as there is room in the end. -/
theorem keys_of_room (items taken : List Item)
    (room : (collect cap key wanted items taken).length < cap) :
    inReach key wanted items taken ⊆ ((collect cap key wanted items taken).map key).toFinset := by
  intro value member
  rw [inReach, List.mem_toFinset, List.map_append, List.mem_append] at member
  rw [List.mem_toFinset]
  obtain old | offered := member
  · obtain ⟨more, extended, _⟩ :=
      collect_extends cap key wanted items taken
    rw [extended, List.map_append]
    exact List.mem_append_left _ old
  · obtain ⟨item, source, rfl⟩ := List.mem_map.mp offered
    obtain ⟨member, likes⟩ := List.mem_filter.mp source
    obtain ⟨before, after, rfl⟩ := List.append_of_mem member
    refine wanted_taken before after taken item likes ?_
    obtain ⟨later, rest, _⟩ := collect_extends cap key wanted
      (item :: after) (collect cap key wanted before taken)
    rw [collect_append, rest, List.length_append] at room
    omega

/-- There is no room left exactly when the keys in reach are that many. What is gathered has as
many keys as items, and all of them in reach; with room left it has all there are. -/
theorem full_iff (items taken : List Item) (distinct : (taken.map key).Nodup) :
    cap ≤ (collect cap key wanted items taken).length ↔
      cap ≤ (inReach key wanted items taken).card := by
  have nodup := collect_nodup cap _ wanted items taken distinct
  have size : ((collect cap key wanted items taken).map key).toFinset.card =
      (collect cap key wanted items taken).length := by
    rw [List.toFinset_card_of_nodup nodup, List.length_map]
  constructor
  · intro full
    have bound := Finset.card_le_card
      (keys_inReach cap key wanted items taken)
    omega
  · intro many
    by_contra room
    rw [Nat.not_le] at room
    have bound := Finset.card_le_card (keys_of_room items taken room)
    omega

/-! ## The best ranked -/

variable {Pattern : Type}

/-- Where the first pattern an item matches stands. -/
def rank (accepts : Pattern → Item → Bool) (patterns : List Pattern) (item : Item) : Nat :=
  patterns.findIdx (fun pattern => accepts pattern item)

/-- The first item that matches the first pattern any does. -/
def best (accepts : Pattern → Item → Bool) (patterns : List Pattern) (items : List Item) :
    Option Item :=
  patterns.findSome? (fun pattern => items.find? (accepts pattern))

variable {accepts : Pattern → Item → Bool}

/-- What the first pattern accepts ranks first. -/
theorem rank_cons_match (pattern : Pattern) (patterns : List Pattern) (item : Item)
    (found : accepts pattern item = true) : rank accepts (pattern :: patterns) item = 0 := by
  simp [rank, List.findIdx_cons, found]

/-- What it does not accept ranks one lower than without it. -/
theorem rank_cons_other (pattern : Pattern) (patterns : List Pattern) (item : Item)
    (other : accepts pattern item = false) :
    rank accepts (pattern :: patterns) item = rank accepts patterns item + 1 := by
  simp [rank, List.findIdx_cons, other]

/-- The pick is ranked, better than any item before it and no worse than any after. The induction
is on the patterns: an item that the first pattern accepts is of rank nought and ends the search,
and if there is none all ranks go up by one. -/
theorem best_iff (patterns : List Pattern) (items : List Item) (pick : Item) :
    best accepts patterns items = some pick ↔
      ∃ before after, items = before ++ pick :: after ∧
        rank accepts patterns pick < patterns.length ∧
        (∀ item ∈ before, rank accepts patterns pick < rank accepts patterns item) ∧
        ∀ item ∈ after, rank accepts patterns pick ≤ rank accepts patterns item := by
  induction patterns with
  | nil =>
    constructor
    · intro impossible
      cases impossible
    · rintro ⟨before, after, _, ranked, _⟩
      cases ranked
  | cons pattern patterns inductionHypothesis =>
    have positive (item : Item) (other : accepts pattern item = false) :
        0 < rank accepts (pattern :: patterns) item := by
      rw [rank_cons_other pattern patterns item other]
      omega
    rw [best, List.findSome?_cons]
    cases found : items.find? (accepts pattern) with
    | some first =>
      obtain ⟨fits, early, late, split, misses⟩ := List.find?_eq_some_iff_append.mp found
      have top := rank_cons_match pattern patterns first fits
      constructor
      · rintro picked
        obtain rfl : first = pick := Option.some.inj picked
        refine ⟨early, late, split, by rw [top, List.length_cons]; omega, ?_, ?_⟩
        · intro item member
          rw [top]
          exact positive item (by simpa using misses item member)
        · intro item _
          rw [top]
          exact Nat.zero_le _
      · rintro ⟨before, after, shape, _, worse, noBetter⟩
        have least : rank accepts (pattern :: patterns) pick = 0 := by
          have member : first ∈ before ++ pick :: after := by
            rw [← shape, split]
            exact List.mem_append_right _ List.mem_cons_self
          rw [List.mem_append, List.mem_cons] at member
          obtain earlier | rfl | later := member
          · have below := worse first earlier
            omega
          · exact top
          · have below := noBetter first later
            omega
        have fitsToo : accepts pattern pick = true := by
          cases other : accepts pattern pick with
          | true => rfl
          | false =>
            have above := positive pick other
            omega
        have again : items.find? (accepts pattern) = some pick := by
          refine List.find?_eq_some_iff_append.mpr ⟨fitsToo, before, after, shape, ?_⟩
          intro item member
          cases fits : accepts pattern item with
          | false => rfl
          | true =>
            have above := worse item member
            rw [rank_cons_match pattern patterns item fits] at above
            cases above
        rw [← found, again]
    | none =>
      have misses (item : Item) (member : item ∈ items) :
          rank accepts (pattern :: patterns) item = rank accepts patterns item + 1 := by
        refine rank_cons_other pattern patterns item ?_
        simpa using List.find?_eq_none.mp found item member
      rw [← best, inductionHypothesis]
      refine exists_congr fun before => exists_congr fun after => and_congr_right fun split => ?_
      have first := misses pick (by rw [split]; simp)
      have early (item : Item) (member : item ∈ before) := misses item (by rw [split]; simp [member])
      have late (item : Item) (member : item ∈ after) := misses item (by rw [split]; simp [member])
      refine and_congr ?_ (and_congr ?_ ?_)
      · rw [first, List.length_cons, Nat.add_lt_add_iff_right]
      · exact forall₂_congr fun item member => by
          rw [first, early item member, Nat.add_lt_add_iff_right]
      · exact forall₂_congr fun item member => by
          rw [first, late item member, Nat.add_le_add_iff_right]

end Collect
