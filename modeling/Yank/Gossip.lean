import Yank.Joins
import Yank.MeshState

/-!
# Merging gossip in any order

Records are ranked by an order with no ties, so adopting whatever outranks what
is held is a join, machine by machine. The skip of our own record and the check
of a record look at nothing but the record, and are the same in every order.

The room check does look at the state. It never refuses anyone while all the
machines known or validly named fit under the cap, which is the only hypothesis.
-/

namespace Yank.MeshState

variable {Id : Type} [LinearOrder Id]

/-- The machines with a record. -/
def ids (state : MeshState Id) : Finset Id := state.peers.keys.toFinset

/-- The machines validly recorded among some entries. -/
def validIdsOf (entries : List (Id × Peer)) : Finset Id :=
  ((entries.filter (fun entry => entry.2.isValid)).map Prod.fst).toFinset

/-- What a walk is shown for one machine, without what it skips. -/
def shown (own id : Id) (entries : List (Id × Peer)) : List (WithBot Peer) :=
  (entries.filter (fun entry => entry.1 = id && entry.1 ≠ own && entry.2.isValid)).map
    (fun entry => ↑entry.2)

/-- Merges several states in turn. -/
def mergeAll (own : Id) (state : MeshState Id) (remotes : List (MeshState Id)) : MeshState Id :=
  remotes.foldl (fun state remote => state.merge remote own) state

/-- Every record of several states, in the order `merge` sees them. -/
def entriesOf (remotes : List (MeshState Id)) : List (Id × Peer) :=
  remotes.flatMap (fun remote => remote.peers.toList)

/-- The machines some remote state validly records. -/
def validIds (remotes : List (MeshState Id)) : Finset Id := validIdsOf (entriesOf remotes)

/-- Ids are known by their records. -/
theorem mem_ids_iff (state : MeshState Id) (id : Id) :
    id ∈ state.ids ↔ state.record id ≠ ⊥ := by
  have known : id ∈ state.ids ↔ id ∈ state.peers := by
    simp [ids]
  rw [known, Std.ExtTreeMap.mem_iff_isSome_getElem?, Option.isSome_iff_ne_none]
  exact Iff.rfl

/-- There are as many ids as records. -/
theorem card_ids (state : MeshState Id) : state.ids.card = state.peers.size := by
  rw [ids, List.toFinset_card_of_nodup Std.ExtTreeMap.nodup_keys, Std.ExtTreeMap.length_keys]

/-- An id is among the valid ones by a valid record of it. -/
theorem mem_validIdsOf_iff (entries : List (Id × Peer)) (id : Id) :
    id ∈ validIdsOf entries ↔ ∃ peer, (id, peer) ∈ entries ∧ peer.isValid = true := by
  simp [validIdsOf]

/-- The entries of some states are the records of each. -/
theorem mem_entriesOf_iff (remotes : List (MeshState Id)) (id : Id) (peer : Peer) :
    (id, peer) ∈ entriesOf remotes ↔ ∃ remote ∈ remotes, remote.record id = ↑peer := by
  simp only [entriesOf, List.mem_flatMap, mem_toList_iff]

/-- What is shown of a machine are the valid records of it, unless it is this one. -/
theorem mem_shown_iff (own id : Id) (entries : List (Id × Peer)) (record : WithBot Peer) :
    record ∈ shown own id entries ↔
      id ≠ own ∧ ∃ peer, (id, peer) ∈ entries ∧ peer.isValid = true ∧ record = ↑peer := by
  simp only [shown, List.mem_map, List.mem_filter, Prod.exists, Bool.and_eq_true,
    decide_eq_true_eq]
  constructor
  · rintro ⟨other, peer, ⟨member, ⟨rfl, foreign⟩, valid⟩, rfl⟩
    exact ⟨foreign, peer, member, valid, rfl⟩
  · rintro ⟨foreign, peer, member, valid, rfl⟩
    exact ⟨id, peer, ⟨member, ⟨rfl, foreign⟩, valid⟩, rfl⟩

/-- Merging several states is one walk through all their records. -/
theorem mergeAll_eq_walk (own : Id) (state : MeshState Id) (remotes : List (MeshState Id)) :
    mergeAll own state remotes = walk own state (entriesOf remotes) := by
  induction remotes generalizing state with
  | nil => rfl
  | cons remote remotes inductionHypothesis =>
    have first := merge_eq_walk state remote own
    rw [entriesOf, List.flatMap_cons, walk, List.foldl_append]
    exact (congrArg (fun state => mergeAll own state remotes) first).trans
      (inductionHypothesis _)

/-- A step of the walk knows no machine but those known and the one it looks at,
if it is shown validly. -/
theorem adopt_ids_subset (own id : Id) (state : MeshState Id) (peer : Peer)
    (entries : List (Id × Peer)) :
    (adopt own state id peer).ids ∪ validIdsOf entries ⊆
      state.ids ∪ validIdsOf ((id, peer) :: entries) := by
  intro other member
  rw [Finset.mem_union, mem_validIdsOf_iff] at member ⊢
  cases member with
  | inl known =>
    rw [mem_ids_iff] at known
    obtain same | ⟨_, valid, _, adopted⟩ := adopt_cases own id state peer
    · rw [same, ← mem_ids_iff] at known
      exact Or.inl known
    · by_cases looked : other = id
      · subst looked
        exact Or.inr ⟨peer, List.mem_cons_self, valid⟩
      · rw [adopted, insert_record_of_ne id other peer state looked, ← mem_ids_iff] at known
        exact Or.inl known
  | inr shown =>
    obtain ⟨record, among, valid⟩ := shown
    exact Or.inr ⟨record, List.mem_cons_of_mem _ among, valid⟩

/-- An unknown machine that is validly shown leaves room for itself, while all
fit under the cap. -/
theorem room_of_fits (id : Id) (state : MeshState Id) (peer : Peer)
    (entries : List (Id × Peer)) (valid : peer.isValid = true)
    (fits : (state.ids ∪ validIdsOf ((id, peer) :: entries)).card ≤ maxMeshPeers)
    (unknown : state.record id = ⊥) : state.peers.size < maxMeshPeers := by
  have absent : id ∉ state.ids := by
    rw [mem_ids_iff]
    exact not_not.mpr unknown
  have bigger : insert id state.ids ⊆ state.ids ∪ validIdsOf ((id, peer) :: entries) := by
    intro other member
    rw [Finset.mem_union, mem_validIdsOf_iff]
    cases Finset.mem_insert.mp member with
    | inl same =>
      subst same
      exact Or.inr ⟨peer, List.mem_cons_self, valid⟩
    | inr known => exact Or.inl known
  have counted := (Finset.card_le_card bigger).trans fits
  rw [Finset.card_insert_of_notMem absent, card_ids] at counted
  omega

/-- A walk with room for everyone joins, for each machine, everything it was
shown onto what was held. -/
theorem walk_record (own id : Id) (state : MeshState Id) (entries : List (Id × Peer))
    (fits : (state.ids ∪ validIdsOf entries).card ≤ maxMeshPeers) :
    (walk own state entries).record id =
      Joins.joinAll (state.record id) (shown own id entries) := by
  induction entries generalizing state with
  | nil => rfl
  | cons entry entries inductionHypothesis =>
    obtain ⟨looked, peer⟩ := entry
    have rest := inductionHypothesis (adopt own state looked peer)
      ((Finset.card_le_card (adopt_ids_subset own looked state peer entries)).trans fits)
    change (walk own (adopt own state looked peer) entries).record id = _
    rw [rest]
    by_cases skipped : looked = own ∨ peer.isValid = false
    · have unseen : shown own id ((looked, peer) :: entries) = shown own id entries := by
        cases skipped with
        | inl ours => simp [shown, ours]
        | inr invalid => simp [shown, invalid]
      rw [adopt_skip own looked state peer skipped, unseen]
    · obtain ⟨foreign, valid⟩ : looked ≠ own ∧ peer.isValid = true := by
        simpa using skipped
      by_cases same : id = looked
      · subst same
        have seen : shown own id ((id, peer) :: entries) = ↑peer :: shown own id entries := by
          simp [shown, foreign, valid]
        rw [seen, Joins.joinAll_cons, adopt_join own id state peer foreign valid
          (room_of_fits id state peer entries valid fits)]
      · have unseen : shown own id ((looked, peer) :: entries) = shown own id entries := by
          simp [shown, Ne.symm same]
        rw [adopt_record_of_ne own looked state peer id same, unseen]

/-- Two collections with the same members merge to the same state. What is merged is told by the
entries, and the same members have the same. -/
theorem mergeAll_congr (own : Id) (state : MeshState Id) (remotes others : List (MeshState Id))
    (fits : (state.ids ∪ validIds remotes).card ≤ maxMeshPeers)
    (same : ∀ remote, remote ∈ others ↔ remote ∈ remotes) :
    mergeAll own state others = mergeAll own state remotes := by
  have entries : ∀ entry, entry ∈ entriesOf others ↔ entry ∈ entriesOf remotes := by
    rintro ⟨id, peer⟩
    simp only [mem_entriesOf_iff, same]
  have named : validIds others = validIds remotes := by
    ext id
    simp only [validIds, mem_validIdsOf_iff, entries]
  apply ext_record
  intro id
  have alsoFits : (state.ids ∪ validIds others).card ≤ maxMeshPeers := by
    rw [named]
    exact fits
  rw [mergeAll_eq_walk, mergeAll_eq_walk, walk_record own id state _ alsoFits,
    walk_record own id state _ fits]
  apply Joins.joinAll_congr
  intro record
  simp only [mem_shown_iff, entries]

/-- Gossip merging is order-free. While the machines known and those validly
recorded fit under the cap, every machine but our own ends at the highest-ranked
of the record held and the valid ones offered, our own record stays, any order
and repetition gives the same state, and merging any of it again changes
nothing. -/
theorem gossip_is_order_free (own : Id) (state : MeshState Id)
    (remotes others : List (MeshState Id))
    (fits : (state.ids ∪ validIds remotes).card ≤ maxMeshPeers)
    (same : ∀ remote, remote ∈ others ↔ remote ∈ remotes) :
    (∀ id, id ≠ own → IsGreatest
        (insert (state.record id) {record | ∃ remote ∈ remotes, ∃ peer : Peer,
          remote.record id = ↑peer ∧ peer.isValid = true ∧ record = ↑peer})
        ((mergeAll own state remotes).record id)) ∧
      (mergeAll own state remotes).record own = state.record own ∧
      mergeAll own state others = mergeAll own state remotes ∧
      ∀ remote ∈ remotes,
        (mergeAll own state remotes).merge remote own = mergeAll own state remotes := by
  refine ⟨?_, ?_, mergeAll_congr own state remotes others fits same, ?_⟩
  · intro id foreign
    rw [mergeAll_eq_walk, walk_record own id state _ fits]
    constructor
    · obtain held | among := Joins.joinAll_mem (state.record id) (shown own id (entriesOf remotes))
      · exact Or.inl held
      · obtain ⟨_, peer, member, valid, chosen⟩ := (mem_shown_iff own id _ _).mp among
        obtain ⟨remote, offered, recorded⟩ := (mem_entriesOf_iff remotes id peer).mp member
        exact Or.inr ⟨remote, offered, peer, recorded, valid, chosen⟩
    · rintro record (rfl | ⟨remote, offered, peer, recorded, valid, rfl⟩)
      · exact Joins.start_le_joinAll _ _
      · apply Joins.member_le_joinAll
        exact (mem_shown_iff own id _ _).mpr ⟨foreign, peer,
          (mem_entriesOf_iff remotes id peer).mpr ⟨remote, offered, recorded⟩, valid, rfl⟩
  · rw [mergeAll_eq_walk, walk_record own own state _ fits]
    have unseen : shown own own (entriesOf remotes) = [] := by
      simp [shown]
    rw [unseen, Joins.joinAll_nil]
  · intro remote member
    have again : (mergeAll own state remotes).merge remote own =
        mergeAll own state (remotes ++ [remote]) := by
      simp [mergeAll]
    rw [again]
    apply mergeAll_congr own state remotes (remotes ++ [remote]) fits
    intro other
    simp only [List.mem_append, List.mem_singleton]
    constructor
    · rintro (known | rfl)
      · exact known
      · exact member
    · exact Or.inl

/-- A concurrent rename and a removal, in either order. -/
theorem gossip_is_order_free_pair :
    let renamed := (empty : MeshState Nat).insert 1 { version := 3, status := .alive "laptop" }
    let removed := (empty : MeshState Nat).insert 1 { version := 3, status := .removed }
    mergeAll 0 empty [removed, renamed, removed] = mergeAll 0 empty [renamed, removed] := by
  intro renamed removed
  exact (gossip_is_order_free 0 empty [renamed, removed] [removed, renamed, removed]
    (by decide) (by
      intro remote
      simp only [List.mem_cons, List.not_mem_nil, or_false]
      tauto)).2.2.1

end Yank.MeshState
