import Yank.Ceiling

/-!
# What a peer's state can do to ours

The operations write to a state in place, so what one wrote before it ended in an
error would stay written. None of them does: each checks all it has to before its
only write.

A merge takes any state a peer sends. Whatever was sent, the records held stay
under the cap, no machine is forgotten, no record moves down and ours is left
alone.
-/

namespace Yank.MeshState

variable {Id : Type} [LinearOrder Id]

/-- An operation on `&mut self`: what it wrote stays written when it ends in an
error. -/
abbrev InPlace (Id : Type) [LinearOrder Id] := ExceptT MeshFailure (StateM (MeshState Id))

/-- `MeshState::add_peer` as it writes. -/
def addPeerInPlace (id : Id) (name : String) : InPlace Id Unit := do
  liftExcept ((← get).validateNewPeer name id)
  let version ← liftExcept ((← get).nextVersion id)
  modify (MeshState.insert id { version, status := .alive name })

/-- `MeshState::remove_peer` as it writes. -/
def removePeerInPlace (id : Id) : InPlace Id Unit := do
  liftExcept (ensure ((← get).peerName id).isSome MeshFailure.unknownMachine)
  let version ← liftExcept ((← get).nextVersion id)
  modify (MeshState.insert id { version, status := .removed })

/-- The operation a change performs. -/
def Op.call : Op Id → InPlace Id Unit
  | .add id name => addPeerInPlace id name
  | .remove id => removePeerInPlace id
  | .merge remote own => modify (fun state => state.merge remote own)

/-- What an operation on a state answers and the state it leaves. -/
def InPlace.on {α : Type} (act : InPlace Id α) (state : MeshState Id) :
    Except MeshFailure α × MeshState Id :=
  act.run.run state

/-- What a change answers and the state it leaves. -/
def called (state : MeshState Id) (op : Op Id) : Except MeshFailure Unit × MeshState Id :=
  op.call.on state

/-- What one operation does to a state, whatever a peer put in it. -/
structure Contained (state : MeshState Id) (op : Op Id) : Prop where
  within : (called state op).2.peers.size ≤ maxMeshPeers
  known : ∀ id, state.record id ≠ ⊥ → (called state op).2.record id ≠ ⊥
  ranked : ∀ id, state.record id ≤ (called state op).2.record id
  added : ∀ id name, op = .add id name → (called state op).1 = .ok () →
    state.record id < (called state op).2.record id
  removed : ∀ id, op = .remove id → (called state op).1 = .ok () →
    state.record id < (called state op).2.record id
  ours : ∀ remote own, op = .merge remote own →
    (called state op).2.record own = state.record own
  named : ∀ id version name,
    (called state op).2.record id = ↑({ version, status := .alive name } : Peer) →
      state.record id = ↑({ version, status := .alive name } : Peer) ∨ validateName name = .ok ()
  refused : ∀ failure, (called state op).1 = .error failure → (called state op).2 = state

section InPlace

variable {α β : Type} (state : MeshState Id)

/-- What reads the mesh goes on with it. -/
@[simp] theorem on_get_bind (rest : MeshState Id → InPlace Id β) :
    InPlace.on (get >>= rest) state = (rest state).on state := rfl

/-- What writes the mesh leaves what it wrote. -/
@[simp] theorem on_modify (write : MeshState Id → MeshState Id) :
    InPlace.on (modify write) state = (.ok (), write state) := rfl

/-- What did not fail goes on. -/
theorem on_liftExcept_bind_ok (value : α) (rest : α → InPlace Id β) :
    InPlace.on (liftExcept (.ok value : Except MeshFailure α) >>= rest) state =
      (rest value).on state := rfl

/-- What failed leaves the mesh as it was. -/
theorem on_liftExcept_bind_error (failure : MeshFailure) (rest : α → InPlace Id β) :
    InPlace.on (liftExcept (.error failure : Except MeshFailure α) >>= rest) state =
      (.error failure, state) := rfl

end InPlace

/-- What a registration in place leaves is what the one on values gives. -/
theorem on_addPeer (state : MeshState Id) (id : Id) (name : String) :
    (addPeerInPlace id name).on state =
      match state.addPeer id name with
      | .ok next => (.ok (), next)
      | .error failure => (.error failure, state) := by
  unfold addPeerInPlace addPeer
  rw [on_get_bind]
  cases state.validateNewPeer name id with
  | error failure => rw [on_liftExcept_bind_error]; rfl
  | ok checked =>
    rw [on_liftExcept_bind_ok, on_get_bind]
    cases state.nextVersion id with
    | error failure => rw [on_liftExcept_bind_error]; rfl
    | ok version => rw [on_liftExcept_bind_ok, on_modify]; rfl

/-- What a removal in place leaves is what the one on values gives. -/
theorem on_removePeer (state : MeshState Id) (id : Id) :
    (removePeerInPlace id).on state =
      match state.removePeer id with
      | .ok next => (.ok (), next)
      | .error failure => (.error failure, state) := by
  unfold removePeerInPlace removePeer
  rw [on_get_bind]
  cases ensure (state.peerName id).isSome MeshFailure.unknownMachine with
  | error failure => rw [on_liftExcept_bind_error]; rfl
  | ok checked =>
    rw [on_liftExcept_bind_ok, on_get_bind]
    cases state.nextVersion id with
    | error failure => rw [on_liftExcept_bind_error]; rfl
    | ok version => rw [on_liftExcept_bind_ok, on_modify]; rfl

/-- The two accounts of a change leave the same state. -/
theorem called_state (state : MeshState Id) (op : Op Id) :
    (called state op).2 = state.perform op := by
  cases op with
  | add id name =>
    change ((addPeerInPlace id name).on state).2 = _
    rw [on_addPeer, perform]
    cases state.addPeer id name <;> rfl
  | remove id =>
    change ((removePeerInPlace id).on state).2 = _
    rw [on_removePeer, perform]
    cases state.removePeer id <;> rfl
  | merge remote own => rfl

/-- A change that goes through is a record written one version up, or a merge. The four cases are
an error, an addition, a removal and a merge, each with the guard that let it through. -/
theorem called_cases (state : MeshState Id) (op : Op Id) :
    (∃ failure, called state op = (.error failure, state)) ∨
      (∃ id name, op = .add id name ∧ state.validateNewPeer name id = .ok () ∧
        state.versionOf id < maxRecordVersion ∧ called state op =
          (.ok (), state.insert id
            { version := state.versionOf id + 1, status := .alive name })) ∨
      (∃ id, op = .remove id ∧ (state.peerName id).isSome = true ∧
        state.versionOf id < maxRecordVersion ∧ called state op =
          (.ok (), state.insert id { version := state.versionOf id + 1, status := .removed })) ∨
      ∃ remote own, op = .merge remote own ∧ called state op = (.ok (), state.merge remote own) := by
  cases op with
  | add id name =>
    have answered : called state (.add id name) = _ := on_addPeer state id name
    rw [answered]
    cases made : state.addPeer id name with
    | error failure => exact .inl ⟨failure, rfl⟩
    | ok next =>
      obtain ⟨checked, below, rfl⟩ := (addPeer_ok_iff id name state next).mp made
      exact .inr (.inl ⟨id, name, rfl, checked, below, rfl⟩)
  | remove id =>
    have answered : called state (.remove id) = _ := on_removePeer state id
    rw [answered]
    cases made : state.removePeer id with
    | error failure => exact .inl ⟨failure, rfl⟩
    | ok next =>
      obtain ⟨known, below, rfl⟩ := (removePeer_ok_iff id state next).mp made
      exact .inr (.inr (.inl ⟨id, rfl, known, below, rfl⟩))
  | merge remote own => exact .inr (.inr (.inr ⟨remote, own, rfl, rfl⟩))

/-- What is written at the next version is strictly above what was stored. -/
theorem record_lt_next (state : MeshState Id) (id : Id) (status : PeerStatus)
    (below : state.versionOf id < maxRecordVersion) :
    state.record id < ↑({ version := state.versionOf id + 1, status } : Peer) := by
  apply lt_of_le_of_ne (record_le_next state id status below)
  intro same
  have stored : state.versionOf id = state.versionOf id + 1 := versionOf_coe state id _ same
  have grown := toNat_succ (state.versionOf id) below
  rw [← stored] at grown
  omega

/-- Writing a record forgets nobody and grows the state only for a new machine. -/
theorem insert_size_le (state : MeshState Id) (id : Id) (peer : Peer)
    (within : state.peers.size ≤ maxMeshPeers)
    (room : state.peers.size < maxMeshPeers ∨ state.peers.contains id = true) :
    (state.insert id peer).peers.size ≤ maxMeshPeers := by
  change (state.peers.insert id peer).size ≤ maxMeshPeers
  rw [Std.ExtTreeMap.size_insert]
  split
  · exact within
  · rename_i absent
    have free := room.resolve_right (fun known => absent (Std.ExtTreeMap.mem_iff_contains.mpr known))
    omega

/-- A record that is written over a lower one lowers none. -/
theorem insert_record_le (state : MeshState Id) (id other : Id) (peer : Peer)
    (higher : state.record id ≤ ↑peer) :
    state.record other ≤ (state.insert id peer).record other := by
  by_cases same : other = id
  · subst same
    rwa [insert_record_self]
  · rw [insert_record_of_ne id other peer state same]

section Walk

variable (own id : Id) (state : MeshState Id) (peer : Peer)

/-- A step of the walk adopts only what outranks what is held. The record that is written is of
another machine, or it outranks the one it takes the place of. -/
theorem adopt_record_le (other : Id) :
    state.record other ≤ (adopt own state id peer).record other := by
  obtain same | ⟨_, _, adopted, wrote⟩ := adopt_cases own id state peer
  · rw [same]
  · rw [wrote]
    apply insert_record_le
    unfold adopts at adopted
    cases held : state.peers[id]? with
    | none =>
      have unknown : state.record id = ⊥ := held
      rw [unknown]
      exact bot_le
    | some ours =>
      have known : state.record id = ↑ours := held
      rw [held, Peer.outranks_iff] at adopted
      rw [known]
      exact WithBot.coe_le_coe.mpr adopted.le

/-- The room check keeps the walk under the cap, at every step of it. A record that is new is
adopted only while there is room for one more. -/
theorem adopt_within (within : state.peers.size ≤ maxMeshPeers) :
    (adopt own state id peer).peers.size ≤ maxMeshPeers := by
  obtain same | ⟨_, _, adopted, wrote⟩ := adopt_cases own id state peer
  · rwa [same]
  · rw [wrote]
    apply insert_size_le state id peer within
    unfold adopts at adopted
    cases held : state.peers[id]? with
    | none =>
      left
      simpa [held] using adopted
    | some ours =>
      right
      rw [contains_iff]
      intro unknown
      have absent : state.peers[id]? = none := unknown
      rw [held] at absent
      cases absent

end Walk

/-- Merging lowers no record. -/
theorem walk_record_le (own id : Id) (state : MeshState Id) (entries : List (Id × Peer)) :
    state.record id ≤ (walk own state entries).record id := by
  induction entries generalizing state with
  | nil => exact le_rfl
  | cons entry entries inductionHypothesis =>
    rw [walk_cons]
    exact (adopt_record_le own entry.1 state entry.2 id).trans (inductionHypothesis _)

/-- Merging does not go past the room there is. -/
theorem walk_within (own : Id) (state : MeshState Id) (entries : List (Id × Peer))
    (within : state.peers.size ≤ maxMeshPeers) :
    (walk own state entries).peers.size ≤ maxMeshPeers := by
  induction entries generalizing state with
  | nil => exact within
  | cons entry entries inductionHypothesis =>
    rw [walk_cons]
    exact inductionHypothesis _ (adopt_within own entry.1 state entry.2 within)

/-- A merge leaves the record of the machine it runs on alone. -/
theorem merge_record_own (state remote : MeshState Id) (own : Id) :
    (state.merge remote own).record own = state.record own := by
  rw [merge_eq_walk]
  generalize remote.peers.toList = entries
  induction entries generalizing state with
  | nil => rfl
  | cons entry entries inductionHypothesis =>
    rw [walk_cons, inductionHypothesis]
    by_cases looked : entry.1 = own
    · rw [adopt_skip own entry.1 state entry.2 (.inl looked)]
    · exact adopt_record_of_ne own entry.1 state entry.2 own (Ne.symm looked)

/-- A change moves no record down. -/
theorem called_record_le (state : MeshState Id) (op : Op Id) (id : Id) :
    state.record id ≤ (called state op).2.record id := by
  obtain ⟨failure, made⟩ | ⟨added, name, rfl, _, below, made⟩ | ⟨gone, rfl, _, below, made⟩ |
    ⟨remote, own, rfl, made⟩ := called_cases state op
  · rw [made]
  · rw [made]
    exact insert_record_le state added id _ (record_lt_next state added _ below).le
  · rw [made]
    exact insert_record_le state gone id _ (record_lt_next state gone _ below).le
  · rw [made, merge_eq_walk]
    exact walk_record_le own id state _

/-- A change keeps a state under the cap. An addition is checked for room, a removal replaces a
record, and a merge is a walk that stays under the cap. -/
theorem called_within (state : MeshState Id) (op : Op Id)
    (within : state.peers.size ≤ maxMeshPeers) :
    (called state op).2.peers.size ≤ maxMeshPeers := by
  obtain ⟨failure, made⟩ | ⟨added, name, rfl, checked, _, made⟩ | ⟨gone, rfl, known, _, made⟩ |
    ⟨remote, own, rfl, made⟩ := called_cases state op
  · rwa [made]
  · rw [made]
    exact insert_size_le state added _ within ((validateNewPeer_ok_iff state name added).mp checked).2
  · rw [made]
    apply insert_size_le state gone _ within
    right
    obtain ⟨version, name, held⟩ := (peerName_isSome_iff state gone).mp known
    rw [contains_iff, held]
    exact WithBot.coe_ne_bot
  · rw [made, merge_eq_walk]
    exact walk_within own state _ within

/-- A change names only what was named or passes the check of a name. A name enters by an
addition, which checks it, or by a merge, which skips the records whose name fails the check. -/
theorem called_named (state : MeshState Id) (op : Op Id) (id : Id) (version : UInt64)
    (name : String)
    (held : (called state op).2.record id = ↑({ version, status := .alive name } : Peer)) :
    state.record id = ↑({ version, status := .alive name } : Peer) ∨ validateName name = .ok () := by
  obtain ⟨failure, made⟩ | ⟨added, new, rfl, checked, _, made⟩ | ⟨gone, rfl, _, _, made⟩ |
    ⟨remote, own, rfl, made⟩ := called_cases state op
  · rw [made] at held
    exact .inl held
  · rw [made] at held
    by_cases same : id = added
    · subst same
      rw [insert_record_self] at held
      cases WithBot.coe_injective held
      exact .inr ((validateNewPeer_ok_iff state name id).mp checked).1
    · rw [insert_record_of_ne added id _ state same] at held
      exact .inl held
  · rw [made] at held
    by_cases same : id = gone
    · subst same
      rw [insert_record_self] at held
      cases WithBot.coe_injective held
    · rw [insert_record_of_ne gone id _ state same] at held
      exact .inl held
  · rw [made] at held
    obtain ours | ⟨_, _, valid⟩ := merge_record_source state remote own id _ held
    · exact .inl ours
    · right
      have checked : version < maxRecordVersion ∧ (validateName name).isOk = true := by
        simpa [Peer.isValid] using valid
      cases answer : validateName name with
      | ok _ => rfl
      | error failure => simp [answer, Except.isOk, Except.toBool] at checked

/-- One change to a state under the cap. The cases are those of `called_cases`; an addition and a
removal go one version up, and a merge never goes down. -/
theorem called_contained (state : MeshState Id) (op : Op Id)
    (within : state.peers.size ≤ maxMeshPeers) : Contained state op where
  within := called_within state op within
  known := by
    intro id known forgotten
    have raised := called_record_le state op id
    rw [forgotten, le_bot_iff] at raised
    exact known raised
  ranked := called_record_le state op
  added := by
    rintro id name rfl passed
    obtain ⟨failure, made⟩ | ⟨_, _, same, _, below, made⟩ | ⟨_, other, _⟩ | ⟨_, _, other, _⟩ :=
      called_cases state (.add id name)
    · rw [made] at passed
      cases passed
    · cases same
      rw [made, insert_record_self]
      exact record_lt_next state id _ below
    · cases other
    · cases other
  removed := by
    rintro id rfl passed
    obtain ⟨failure, made⟩ | ⟨_, _, other, _⟩ | ⟨_, same, _, below, made⟩ | ⟨_, _, other, _⟩ :=
      called_cases state (.remove id)
    · rw [made] at passed
      cases passed
    · cases other
    · cases same
      rw [made, insert_record_self]
      exact record_lt_next state id _ below
    · cases other
  ours := by
    rintro remote own rfl
    exact merge_record_own state remote own
  named := called_named state op
  refused := by
    intro failure ended
    obtain ⟨_, made⟩ | ⟨_, _, _, _, _, made⟩ | ⟨_, _, _, _, made⟩ | ⟨_, _, _, made⟩ :=
      called_cases state op
    · rw [made]
    · rw [made] at ended
      cases ended
    · rw [made] at ended
      cases ended
    · rw [made] at ended
      cases ended

/-- Performs changes in turn, each in place on what the one before it left. -/
def callAll (start : MeshState Id) (ops : List (Op Id)) : MeshState Id :=
  ops.foldl (fun state op => (called state op).2) start

/-- Along any run the cap holds and no record is below what it was. -/
theorem hostile_runs_are_bounded (start : MeshState Id)
    (within : start.peers.size ≤ maxMeshPeers) (ops : List (Op Id)) :
    (callAll start ops).peers.size ≤ maxMeshPeers ∧
      ∀ id, start.record id ≤ (callAll start ops).record id := by
  induction ops generalizing start with
  | nil => exact ⟨within, fun _ => le_rfl⟩
  | cons op ops inductionHypothesis =>
    obtain ⟨bounded, ranked⟩ := inductionHypothesis _ (called_within start op within)
    exact ⟨bounded, fun id => (called_record_le start op id).trans (ranked id)⟩

/-- A hostile mesh state cannot grow, downgrade or take over ours: from a state
under the cap, whatever changes are made, with whatever states merged in, the
cap holds, no machine is forgotten and no record is below what it was, and the
next change, be it refused or not, is contained too. -/
theorem hostile_states_are_contained (start : MeshState Id)
    (within : start.peers.size ≤ maxMeshPeers) (ops : List (Op Id)) :
    (callAll start ops).peers.size ≤ maxMeshPeers ∧
      (∀ id, start.record id ≠ ⊥ → (callAll start ops).record id ≠ ⊥) ∧
      (∀ id, start.record id ≤ (callAll start ops).record id) ∧
      ∀ op, Contained (callAll start ops) op := by
  obtain ⟨bounded, ranked⟩ := hostile_runs_are_bounded start within ops
  refine ⟨bounded, ?_, ranked, fun op => called_contained _ op bounded⟩
  intro id known forgotten
  have raised := ranked id
  rw [forgotten, le_bot_iff] at raised
  exact known raised

/-- A registration, an impostor of this machine in a peer's state, and a removal. -/
theorem hostile_states_are_contained_impostor :
    let impostor := (empty : MeshState Nat).insert 0 { version := 9, status := .alive "impostor" }
    ∀ op, Contained (callAll empty [.add 1 "laptop", .merge impostor 0, .remove 1]) op := by
  intro impostor
  exact (hostile_states_are_contained empty (by decide) _).2.2.2

end Yank.MeshState
