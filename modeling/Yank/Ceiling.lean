import Yank.MeshState
import Yank.Runs

/-!
# The version ceiling

A tombstone may carry the highest version and nothing alive may: a record alive
there could never be superseded. `merge` refuses such a record and `remove_peer`
cannot write past it. A registration checks only that the version it replaces is
under the ceiling, so on a record right under it the registration itself makes a
record alive at the ceiling.

While no registration is made on a record right under the ceiling, every machine
that is there can be removed, and removals and registrations spread.
-/

namespace Yank.MeshState

variable {Id : Type} [LinearOrder Id]

/-- What changes one mesh state: a registration, a removal, or the merge of any
state into that of a machine with any name. -/
inductive Op (Id : Type) [LinearOrder Id] where
  | add (id : Id) (name : String)
  | remove (id : Id)
  | merge (remote : MeshState Id) (own : Id)

/-- Performs a change. What is refused changes nothing. -/
def perform (state : MeshState Id) (op : Op Id) : MeshState Id :=
  let result := match op with
    | .add id name => state.addPeer id name
    | .remove id => state.removePeer id
    | .merge remote own => .ok (state.merge remote own)
  match result with
  | .ok next => next
  | .error _ => state

/-- One change as a step. -/
def step (state : MeshState Id) (op : Op Id) : Option (MeshState Id) := some (state.perform op)

/-- No registration on a record right under the ceiling. -/
def Allowed (state : MeshState Id) (op : Op Id) : Prop :=
  match op with
  | .add id _ => state.versionOf id ≠ maxRecordVersion - 1
  | _ => True

/-- Every machine that is there is under the ceiling. -/
def Under (state : MeshState Id) : Prop :=
  ∀ id version name, state.record id = ↑({ version, status := .alive name } : Peer) →
    version < maxRecordVersion

/-- How many machines the walk of a merge may adopt before it comes to `id`:
those before it that are validly recorded, not our own and unknown here. -/
def newcomers (state remote : MeshState Id) (own id : Id) : Nat :=
  remote.peers.toList.countP (fun entry =>
    entry.1 < id && entry.1 ≠ own && entry.2.isValid && !state.peers.contains entry.1)

/-- Whether a state knows a machine, or has room for it when the walk of the
merge comes to it. -/
def Welcomes (state remote : MeshState Id) (own id : Id) : Prop :=
  state.record id ≠ ⊥ ∨ state.peers.size + newcomers state remote own id < maxMeshPeers

/-- The record of `id` in `after` is adopted by every other machine that welcomes
it and holds nothing above the record in `before`. -/
def Spreads (before after : MeshState Id) (id : Id) : Prop :=
  ∀ (own : Id) (other : MeshState Id), id ≠ own → other.record id ≤ before.record id →
    Welcomes other after own id → (other.merge after own).record id = after.record id

/-- A machine is in the mesh if there is a record of it. -/
theorem contains_iff (state : MeshState Id) (id : Id) :
    state.peers.contains id = true ↔ state.record id ≠ ⊥ := by
  rw [← Std.ExtTreeMap.mem_iff_contains, Std.ExtTreeMap.mem_iff_isSome_getElem?,
    Option.isSome_iff_ne_none]
  exact Iff.rfl

/-- What a step of the walk adds to the size, it added for an unknown machine. -/
theorem adopt_size_le (own id : Id) (state : MeshState Id) (peer : Peer) :
    (adopt own state id peer).peers.size ≤ state.peers.size +
      if id ≠ own && peer.isValid && !state.peers.contains id then 1 else 0 := by
  obtain same | ⟨foreign, valid, _, adopted⟩ := adopt_cases own id state peer
  · rw [same]
    exact Nat.le_add_right _ _
  · rw [adopted]
    change (state.peers.insert id peer).size ≤ _
    rw [Std.ExtTreeMap.size_insert]
    by_cases known : id ∈ state.peers
    · simp [known]
    · have absent : state.peers.contains id = false := by
        rwa [Bool.eq_false_iff, ne_eq, ← Std.ExtTreeMap.mem_iff_contains]
      simp [absent, foreign, valid]

/-- A step of the walk forgets nobody. -/
theorem adopt_knows (own id other : Id) (state : MeshState Id) (peer : Peer)
    (known : state.record other ≠ ⊥) : (adopt own state id peer).record other ≠ ⊥ := by
  obtain same | ⟨_, _, _, adopted⟩ := adopt_cases own id state peer
  · rwa [same]
  · by_cases looked : other = id
    · rw [adopted, looked, insert_record_self]
      exact WithBot.coe_ne_bot
    · rwa [adopted, insert_record_of_ne id other peer state looked]

/-- A walk grows a state by no more than the unknown machines it is shown. What
it adopts early it only knows better later. -/
theorem walk_size_le (own : Id) (state : MeshState Id) (entries : List (Id × Peer)) :
    (walk own state entries).peers.size ≤ state.peers.size +
      entries.countP (fun entry =>
        entry.1 ≠ own && entry.2.isValid && !state.peers.contains entry.1) := by
  induction entries generalizing state with
  | nil => exact Nat.le_refl _
  | cons entry entries inductionHypothesis =>
    have first := adopt_size_le own entry.1 state entry.2
    have rest := inductionHypothesis (adopt own state entry.1 entry.2)
    have fewer : entries.countP (fun later => later.1 ≠ own && later.2.isValid &&
        !(adopt own state entry.1 entry.2).peers.contains later.1) ≤
        entries.countP (fun later => later.1 ≠ own && later.2.isValid &&
          !state.peers.contains later.1) := by
      apply List.countP_mono_left
      intro later _ counted
      simp only [Bool.and_eq_true, Bool.not_eq_true', Bool.eq_false_iff, ne_eq,
        contains_iff] at counted ⊢
      refine ⟨counted.1, ?_⟩
      intro known
      exact counted.2 (adopt_knows own entry.1 later.1 state entry.2 known)
    rw [walk_cons, List.countP_cons]
    omega

/-- A merge joins in a valid record of a machine it welcomes. The walk is cut at
that machine: before it only the room changes, and after it nothing does. -/
theorem merge_adopts (state remote : MeshState Id) (own id : Id) (peer : Peer)
    (foreign : id ≠ own) (valid : peer.isValid = true) (held : remote.record id = ↑peer)
    (welcomes : Welcomes state remote own id) :
    (state.merge remote own).record id = state.record id ⊔ ↑peer := by
  obtain ⟨before, after, cut⟩ := List.append_of_mem ((mem_toList_iff remote id peer).mpr held)
  have ordered := Std.ExtTreeMap.ordered_keys_toList (t := remote.peers)
  rw [cut, List.pairwise_append, List.pairwise_cons] at ordered
  have below : ∀ entry ∈ before, entry.1 < id := fun entry member =>
    compare_lt_iff_lt.mp (ordered.2.2 entry member (id, peer) List.mem_cons_self)
  have above : ∀ entry ∈ after, id < entry.1 := fun entry member =>
    compare_lt_iff_lt.mp (ordered.2.1.1 entry member)
  have kept : (walk own state before).record id = state.record id :=
    walk_record_of_skipped own id state before
      (fun entry member same => absurd same (below entry member).ne)
  have room : (walk own state before).record id = ⊥ →
      (walk own state before).peers.size < maxMeshPeers := by
    intro unknown
    rw [kept] at unknown
    have free := welcomes.resolve_left (not_not.mpr unknown)
    have grown := walk_size_le own state before
    have counted : before.countP (fun entry =>
        entry.1 ≠ own && entry.2.isValid && !state.peers.contains entry.1) ≤
          newcomers state remote own id := by
      rw [newcomers, cut, List.countP_append]
      refine le_trans (List.countP_mono_left ?_) (Nat.le_add_right _ _)
      intro entry member counted
      simpa [below entry member] using counted
    omega
  have split : state.merge remote own =
      walk own (adopt own (walk own state before) id peer) after := by
    rw [merge_eq_walk, cut, walk, List.foldl_append]
    rfl
  have untouched := walk_record_of_skipped own id
    (adopt own (walk own state before) id peer) after
    (fun entry member same => absurd same (above entry member).ne')
  rw [split, untouched, adopt_join own id _ peer foreign valid room, kept]

/-- A valid record one version up spreads. -/
theorem spreads_of (before after : MeshState Id) (id : Id) (peer : Peer)
    (valid : peer.isValid = true) (wrote : after.record id = ↑peer)
    (higher : before.record id ≤ ↑peer) : Spreads before after id := by
  intro own other foreign behind welcomes
  rw [merge_adopts other after own id peer foreign valid wrote welcomes, wrote]
  exact sup_eq_right.mpr (behind.trans higher)

/-- What is written at the next version outranks what was stored. -/
theorem record_le_next (state : MeshState Id) (id : Id) (status : PeerStatus)
    (below : state.versionOf id < maxRecordVersion) :
    state.record id ≤ ↑({ version := state.versionOf id + 1, status } : Peer) := by
  cases held : state.record id with
  | bot => exact bot_le
  | coe peer =>
    rw [WithBot.coe_le_coe]
    apply le_of_lt
    change Peer.rank peer < Peer.rank _
    rw [Prod.Lex.lt_iff]
    left
    have stored := versionOf_coe state id peer held
    change peer.version.toNat < (state.versionOf id + 1).toNat
    rw [toNat_succ _ below, stored]
    exact Nat.lt_succ_self _

/-- A record under the ceiling but not right under it has its next version under
the ceiling too. -/
theorem next_under (version : UInt64) (below : version < maxRecordVersion)
    (apart : version ≠ maxRecordVersion - 1) : version + 1 < maxRecordVersion := by
  rw [UInt64.lt_iff_toNat_lt] at below ⊢
  have unequal : version.toNat ≠ (maxRecordVersion - 1).toNat := fun same =>
    apart (UInt64.toNat_inj.mp same)
  rw [toNat_succ version (UInt64.lt_iff_toNat_lt.mpr below)]
  change version.toNat < 4294967296 at below
  change version.toNat ≠ 4294967295 at unequal
  change version.toNat + 1 < 4294967296
  omega

/-- Nobody is at the ceiling before there are records. -/
theorem empty_under : Under (empty : MeshState Id) := by
  intro id version name held
  rw [empty_record] at held
  cases held

/-- An allowed change keeps every machine that is there under the ceiling. An addition goes one
version up, which stays below by what is asked of it; a removal leaves a machine that is not
there; and a merge takes no record that is alive at the ceiling. -/
theorem perform_under (state : MeshState Id) (op : Op Id) (under : Under state)
    (allowed : Allowed state op) : Under (state.perform op) := by
  cases op with
  | add id name =>
    change Under (match state.addPeer id name with | .ok next => next | .error _ => state)
    cases made : state.addPeer id name with
    | error failure => exact under
    | ok next =>
      obtain ⟨_, below, rfl⟩ := (addPeer_ok_iff id name state next).mp made
      intro other version named held
      by_cases same : other = id
      · subst same
        rw [insert_record_self] at held
        obtain rfl := congrArg Peer.version (WithBot.coe_injective held)
        exact next_under _ below allowed
      · rw [insert_record_of_ne id other _ state same] at held
        exact under other version named held
  | remove id =>
    change Under (match state.removePeer id with | .ok next => next | .error _ => state)
    cases made : state.removePeer id with
    | error failure => exact under
    | ok next =>
      obtain ⟨_, _, rfl⟩ := (removePeer_ok_iff id state next).mp made
      intro other version named held
      by_cases same : other = id
      · subst same
        rw [insert_record_self] at held
        cases congrArg Peer.status (WithBot.coe_injective held)
      · rw [insert_record_of_ne id other _ state same] at held
        exact under other version named held
  | merge remote own =>
    intro other version named held
    obtain ours | ⟨_, _, valid⟩ := merge_record_source state remote own other _ held
    · exact under other version named ours
    · have checked : version < maxRecordVersion ∧ (validateName named).isOk = true := by
        simpa [Peer.isValid] using valid
      exact checked.1

/-- Every machine in the mesh can be removed everywhere. In every run that makes
no registration on a record right under the ceiling, every machine that is there
can be removed, and what the removal writes, as well as what a registration
writes that is not on such a record either, spreads. -/
theorem every_machine_can_be_removed (ops : List (Op Id)) (state : MeshState Id)
    (allowed : Runs.Guarded step Allowed empty ops)
    (reached : Runs.run step empty ops = some state) :
    (∀ id, (state.peerName id).isSome = true →
        ∃ next, state.removePeer id = .ok next ∧ Spreads state next id) ∧
      ∀ id name next, Allowed state (.add id name) → state.addPeer id name = .ok next →
        Spreads state next id := by
  have under : Under state := by
    refine Runs.guarded_invariant step Allowed Under ?_ _ _ ops empty_under allowed reached
    intro before op after held permitted taken
    obtain rfl := Option.some.inj taken
    exact perform_under before op held permitted
  constructor
  · intro id named
    obtain ⟨version, name, held⟩ := (peerName_isSome_iff state id).mp named
    have stored : state.versionOf id = version := versionOf_coe state id _ held
    have below : state.versionOf id < maxRecordVersion := by
      rw [stored]
      exact under id version name held
    refine ⟨_, (removePeer_ok_iff id state _).mpr ⟨named, below, rfl⟩, ?_⟩
    refine spreads_of _ _ id _ ?_ (insert_record_self id _ state) (record_le_next state id _ below)
    have bound : (state.versionOf id + 1).toNat ≤ maxRecordVersion.toNat := by
      rw [toNat_succ _ below]
      exact UInt64.lt_iff_toNat_lt.mp below
    simpa [Peer.isValid] using UInt64.le_iff_toNat_le.mpr bound
  · intro id name next permitted made
    obtain ⟨checked, below, rfl⟩ := (addPeer_ok_iff id name state next).mp made
    refine spreads_of _ _ id _ ?_ (insert_record_self id _ state) (record_le_next state id _ below)
    have named := ((validateNewPeer_ok_iff state name id).mp checked).1
    have bound := next_under _ below permitted
    simp [Peer.isValid, bound, named, Except.isOk, Except.toBool]

/-- A registration on a record right under the ceiling cannot be undone and
reaches nobody. -/
theorem registration_under_the_ceiling_is_stuck (id : Id) (name : String)
    (state next : MeshState Id) (pinned : state.versionOf id = maxRecordVersion - 1)
    (made : state.addPeer id name = .ok next) :
    (∀ after, next.removePeer id ≠ .ok after) ∧
      ∀ (own : Id) (other : MeshState Id), (other.merge next own).record id = other.record id := by
  obtain ⟨_, _, rfl⟩ := (addPeer_ok_iff id name state next).mp made
  have top : state.versionOf id + 1 = maxRecordVersion := by
    rw [pinned]
    decide
  rw [top]
  have wrote := insert_record_self id
    { version := maxRecordVersion, status := .alive name } state
  constructor
  · intro after removed
    have below := ((removePeer_ok_iff id _ after).mp removed).2.1
    rw [versionOf_coe _ id _ wrote] at below
    exact absurd below (lt_irrefl maxRecordVersion.toNat)
  · intro own other
    rw [merge_eq_walk]
    apply walk_record_of_skipped
    rintro ⟨looked, peer⟩ member rfl
    have shown := (mem_toList_iff _ looked peer).mp member
    obtain rfl := WithBot.coe_injective (wrote.symm.trans shown)
    rfl

/-- A machine registered at the version right under the ceiling can still be
removed: a run that meets the guard, to a record pinned as high as gossip can. -/
theorem every_machine_can_be_removed_pinned :
    let pinned := (empty : MeshState Nat).insert 1
      { version := maxRecordVersion - 1, status := .alive "pinned" }
    ∃ state, Runs.run step empty [.merge pinned 0] = some state ∧
      ∃ next, state.removePeer 1 = .ok next ∧ Spreads state next 1 := by
  intro pinned
  refine ⟨empty.merge pinned 0, rfl, ?_⟩
  refine (every_machine_can_be_removed [.merge pinned 0] _ ⟨trivial, fun _ _ => trivial⟩ rfl).1 1 ?_
  decide

/-- A tombstone pinned right under the ceiling and a machine paired with again:
the machine is there, cannot be removed, and no other machine adopts it. -/
theorem registration_at_the_ceiling_is_stuck :
    let pinned := (empty : MeshState Nat).insert 1
      { version := maxRecordVersion - 1, status := .removed }
    let state := (empty.perform (.merge pinned 0)).perform (.add 1 "laptop")
    state.peerName 1 = some "laptop" ∧
      state.removePeer 1 = .error (.corruptRecord maxRecordVersion) ∧
      (empty.merge state 2).record 1 = ⊥ := by
  decide

end Yank.MeshState
