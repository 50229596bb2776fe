import Yank.Manifest

/-!
# Which machines are paired

Every machine keeps its own copy of the mesh and the copies converge. A record
is a versioned register: a local change bumps its version, the higher version
wins, then removal over presence, then the smaller name. A removal leaves a
tombstone.

The records are a map ordered by machine id, and `merge` walks the remote one in
that order. Its room check reads the state as the walk has left it so far.
-/

namespace Yank

/-- Maximum length of a machine name, in bytes. -/
def maxNameLen : Nat := 64

/-- Cap on the machines tracked, tombstones included. -/
def maxMeshPeers : Nat := 64

/-- Cap on a record's version. A tombstone may reach it, and is final there. -/
def maxRecordVersion : UInt64 := 4294967296

/-- Why a change to the mesh is refused. -/
inductive MeshFailure where
  | emptyName
  | longName
  | confusableName
  | meshFull
  | unknownMachine
  | corruptRecord (version : UInt64)
deriving DecidableEq, Repr

/-- The text of a refusal. `id` is the machine as it is printed. -/
def MeshFailure.text (id : String) : MeshFailure → String
  | .emptyName => "machine name cannot be empty"
  | .longName => "machine name is longer than 64 bytes"
  | .confusableName => "machine name contains control or invisible characters"
  | .meshFull => "the mesh already has 64 machines"
  | .unknownMachine => "unknown machine"
  | .corruptRecord version =>
      "the record of \x60" ++ id ++ "\x60 is corrupt (version " ++ toString version ++
        "); remove it from mesh.json on every machine"

/-- Whether a character can hide or reorder text in terminal output: controls,
zero-width and bidirectional formatting. -/
def isConfusable (char : Char) : Bool :=
  let code := char.toNat
  code ≤ 0x1F || (0x7F ≤ code && code ≤ 0x9F) || (0x200B ≤ code && code ≤ 0x200F) ||
    (0x202A ≤ code && code ≤ 0x202E) || (0x2066 ≤ code && code ≤ 0x2069) || code == 0xFEFF

/-- Checks that a machine name is usable. -/
def validateName (name : String) : Except MeshFailure Unit := do
  ensure (name != "") .emptyName
  ensure (name.utf8ByteSize ≤ maxNameLen) .longName
  ensure (!name.toList.any isConfusable) .confusableName

/-- Whether a machine is part of the mesh. `removed` is a tombstone. -/
inductive PeerStatus where
  | alive (name : String)
  | removed
deriving DecidableEq

/-- One machine's record. -/
structure Peer where
  version : UInt64
  status : PeerStatus
deriving DecidableEq

namespace Peer

/-- The machine's name while it is in the mesh; `none` for a tombstone. -/
def name (peer : Peer) : Option String :=
  match peer.status with
  | .alive name => some name
  | .removed => none

/-- Higher version first, then removal over presence, then the smaller name. -/
def rank (peer : Peer) : ℕ ×ₗ Bool ×ₗ (List Char)ᵒᵈ :=
  toLex (peer.version.toNat,
    toLex (peer.name.isNone, OrderDual.toDual (peer.name.getD "").toList))

/-- Whether this record replaces `other` on merge. -/
def outranks (peer other : Peer) : Bool := decide (other.rank < peer.rank)

/-- No two records rank the same, an unusable empty name included: only a
tombstone ranks as removed. -/
theorem rank_injective : Function.Injective rank := by
  rintro ⟨version, status⟩ ⟨otherVersion, otherStatus⟩ same
  simp only [rank, EmbeddingLike.apply_eq_iff_eq, Prod.mk.injEq, UInt64.toNat_inj] at same
  obtain ⟨rfl, gone, named⟩ := same
  cases status with
  | alive name =>
    cases otherStatus with
    | alive other =>
      have equal : name = other := by simpa [Peer.name, String.ext_iff] using named
      rw [equal]
    | removed => simp [Peer.name] at gone
  | removed =>
    cases otherStatus with
    | alive other => simp [Peer.name] at gone
    | removed => rfl

instance : LinearOrder Peer := LinearOrder.lift' rank rank_injective

/-- A record outranks another by being above it. -/
theorem outranks_iff (peer other : Peer) : peer.outranks other = true ↔ other < peer := by
  rw [outranks, decide_eq_true_eq]
  rfl

/-- Whether `merge` looks at a record: nothing alive at the ceiling, nothing past
it, and no unusable name. -/
def isValid (peer : Peer) : Bool :=
  match peer.status with
  | .alive name => peer.version < maxRecordVersion && (validateName name).isOk
  | .removed => peer.version ≤ maxRecordVersion

end Peer

/-- One machine's copy of the mesh: every machine ever paired, tombstones
included. -/
@[ext] structure MeshState (Id : Type) [LinearOrder Id] where
  peers : Std.ExtTreeMap Id Peer

namespace MeshState

variable {Id : Type} [LinearOrder Id]

/-- Machine ids compare as their order says, which is what the maps rely on. -/
instance compareIds : Std.TransCmp (compare : Id → Id → Ordering) := inferInstance

instance : DecidableEq (MeshState Id) := fun left right =>
  decidable_of_iff (left.peers = right.peers) (MeshState.ext_iff).symm

/-- An empty mesh, which is what a missing file stands for. -/
def empty : MeshState Id where
  peers := ∅

/-- The record of a machine, below every record when there is none. -/
def record (state : MeshState Id) (id : Id) : WithBot Peer := state.peers[id]?

/-- The name of a machine still in the mesh. -/
def peerName (state : MeshState Id) (id : Id) : Option String :=
  state.peers[id]?.bind Peer.name

/-- Writes one record. -/
protected def insert (id : Id) (peer : Peer) (state : MeshState Id) : MeshState Id where
  peers := state.peers.insert id peer

/-- The version of the stored record. -/
def versionOf (state : MeshState Id) (id : Id) : UInt64 :=
  (state.peers[id]?.map Peer.version).getD 0

/-- The version a local change to `id` must carry to outrank the stored record. -/
def nextVersion (state : MeshState Id) (id : Id) : Except MeshFailure UInt64 := do
  ensure (state.versionOf id < maxRecordVersion) (.corruptRecord (state.versionOf id))
  return state.versionOf id + 1

/-- Whether a machine not yet in the mesh could be added under `name`. -/
def validateNewPeer (state : MeshState Id) (name : String) (id : Id) :
    Except MeshFailure Unit := do
  validateName name
  ensure (state.peers.size < maxMeshPeers || state.peers.contains id) .meshFull

/-- Registers a machine under `name`. -/
def addPeer (id : Id) (name : String) (state : MeshState Id) :
    Except MeshFailure (MeshState Id) := do
  state.validateNewPeer name id
  let version ← state.nextVersion id
  return state.insert id { version, status := .alive name }

/-- Retires a machine, leaving a tombstone. -/
def removePeer (id : Id) (state : MeshState Id) : Except MeshFailure (MeshState Id) := do
  ensure (state.peerName id).isSome .unknownMachine
  let version ← state.nextVersion id
  return state.insert id { version, status := .removed }

/-- Whether the walk adopts a valid record of another machine. An unknown machine
is only adopted while there is room. -/
def adopts (state : MeshState Id) (id : Id) (peer : Peer) : Bool :=
  match state.peers[id]? with
  | some ours => peer.outranks ours
  | none => state.peers.size < maxMeshPeers

/-- One step of the walk of `merge`. Our own record is skipped. -/
def adopt (own : Id) (state : MeshState Id) (id : Id) (peer : Peer) : MeshState Id :=
  if id = own || !peer.isValid then state
  else if state.adopts id peer then state.insert id peer
  else state

/-- Adopts everything in `remote` that outranks what we hold. -/
def merge (state remote : MeshState Id) (own : Id) : MeshState Id :=
  remote.peers.foldl (adopt own) state

/-- `MeshStore::add_paired`: registers a machine that just paired. Doing it twice
is harmless. -/
def addPaired (id : Id) (name : String) (state : MeshState Id) :
    Except MeshFailure (MeshState Id) :=
  if (state.peerName id).isSome then .ok state else state.addPeer id name

/-- `MeshStore::update`: nothing is committed if the change or the save fails. -/
def update (saves : Bool) (mutate : MeshState Id → Except MeshFailure (MeshState Id))
    (state : MeshState Id) : MeshState Id :=
  match mutate state with
  | .error _ => state
  | .ok next => if next = state then state else if saves then next else state

/-- States with the same records are the same. -/
theorem ext_record (left right : MeshState Id) (same : ∀ id, left.record id = right.record id) :
    left = right := by
  apply MeshState.ext
  exact Std.ExtTreeMap.ext_getElem? same

/-- Of nobody there is a record in an empty mesh. -/
@[simp] theorem empty_record (id : Id) : (empty : MeshState Id).record id = ⊥ := by
  change (∅ : Std.ExtTreeMap Id Peer)[id]? = none
  simp

/-- What is written is read. -/
@[simp] theorem insert_record_self (id : Id) (peer : Peer) (state : MeshState Id) :
    (state.insert id peer).record id = ↑peer :=
  Std.ExtTreeMap.getElem?_insert_self

/-- Writing a record changes no other. -/
theorem insert_record_of_ne (id other : Id) (peer : Peer) (state : MeshState Id)
    (apart : other ≠ id) : (state.insert id peer).record other = state.record other := by
  have unequal : ¬ compare id other = Ordering.eq := fun equal =>
    apart (compare_eq_iff_eq.mp equal).symm
  exact Std.ExtTreeMap.getElem?_insert.trans (if_neg unequal)

/-- A record is unknown exactly when it is below every record. -/
theorem record_eq_coe_iff (state : MeshState Id) (id : Id) (peer : Peer) :
    state.record id = ↑peer ↔ state.peers[id]? = some peer := Iff.rfl

/-- The version of a machine is that of its record. -/
theorem versionOf_coe (state : MeshState Id) (id : Id) (peer : Peer)
    (held : state.record id = ↑peer) : state.versionOf id = peer.version := by
  rw [record_eq_coe_iff] at held
  simp [versionOf, held]

/-- Below the ceiling the next version does not wrap. -/
theorem toNat_succ (version : UInt64) (below : version < maxRecordVersion) :
    (version + 1).toNat = version.toNat + 1 := by
  have bound : version.toNat < 4294967296 := UInt64.lt_iff_toNat_lt.mp below
  rw [UInt64.toNat_add]
  simp
  omega

/-- There is a next version below the ceiling, and it is one more. -/
theorem nextVersion_ok_iff (state : MeshState Id) (id : Id) (version : UInt64) :
    state.nextVersion id = .ok version ↔
      state.versionOf id < maxRecordVersion ∧ version = state.versionOf id + 1 := by
  unfold nextVersion
  rw [ensure_bind_ok_iff, decide_eq_true_eq]
  apply and_congr_right
  intro _
  change Except.ok _ = Except.ok version ↔ _
  rw [Except.ok.injEq, eq_comm]

/-- A machine may be taken in under a fit name, where there is room or it is known. -/
theorem validateNewPeer_ok_iff (state : MeshState Id) (name : String) (id : Id) :
    state.validateNewPeer name id = .ok () ↔
      validateName name = .ok () ∧
        (state.peers.size < maxMeshPeers ∨ state.peers.contains id = true) := by
  unfold validateNewPeer
  rw [bind_ok_iff]
  constructor
  · rintro ⟨_, named, room⟩
    exact ⟨named, by simpa using room⟩
  · rintro ⟨named, room⟩
    exact ⟨(), named, by simpa using room⟩

/-- What a registration writes, and when it goes through. -/
theorem addPeer_ok_iff (id : Id) (name : String) (state next : MeshState Id) :
    state.addPeer id name = .ok next ↔
      state.validateNewPeer name id = .ok () ∧ state.versionOf id < maxRecordVersion ∧
        next = state.insert id { version := state.versionOf id + 1, status := .alive name } := by
  unfold addPeer
  simp only [bind_ok_iff, nextVersion_ok_iff]
  constructor
  · rintro ⟨_, checked, version, ⟨below, rfl⟩, written⟩
    exact ⟨checked, below, (Except.ok.inj written).symm⟩
  · rintro ⟨checked, below, rfl⟩
    exact ⟨(), checked, state.versionOf id + 1, ⟨below, rfl⟩, rfl⟩

/-- What a removal writes, and when it goes through. -/
theorem removePeer_ok_iff (id : Id) (state next : MeshState Id) :
    state.removePeer id = .ok next ↔
      (state.peerName id).isSome = true ∧ state.versionOf id < maxRecordVersion ∧
        next = state.insert id { version := state.versionOf id + 1, status := .removed } := by
  unfold removePeer
  rw [ensure_bind_ok_iff]
  simp only [bind_ok_iff, nextVersion_ok_iff]
  constructor
  · rintro ⟨known, version, ⟨below, rfl⟩, written⟩
    exact ⟨known, below, (Except.ok.inj written).symm⟩
  · rintro ⟨known, below, rfl⟩
    exact ⟨known, state.versionOf id + 1, ⟨below, rfl⟩, rfl⟩

/-- A machine has a name exactly when its record says so. A tombstone has none, and neither has a
machine without a record. -/
theorem peerName_isSome_iff (state : MeshState Id) (id : Id) :
    (state.peerName id).isSome = true ↔
      ∃ version name, state.record id = ↑({ version, status := .alive name } : Peer) := by
  unfold peerName record
  cases held : state.peers[id]? with
  | none =>
    constructor
    · intro impossible
      cases impossible
    · rintro ⟨version, name, impossible⟩
      cases impossible
  | some peer =>
    obtain ⟨version, status⟩ := peer
    cases status with
    | alive name => exact ⟨fun _ => ⟨version, name, rfl⟩, fun _ => rfl⟩
    | removed =>
      constructor
      · intro impossible
        cases impossible
      · rintro ⟨other, name, impossible⟩
        cases impossible

section Walk
variable (own id : Id) (state : MeshState Id) (peer : Peer)

/-- A step of the walk touches no record but the one it looks at. -/
theorem adopt_record_of_ne (other : Id) (apart : other ≠ id) :
    (adopt own state id peer).record other = state.record other := by
  unfold adopt
  split
  · rfl
  · split
    · exact insert_record_of_ne id other peer state apart
    · rfl

/-- Our own record and an invalid one are skipped. -/
theorem adopt_skip (skipped : id = own ∨ peer.isValid = false) :
    adopt own state id peer = state := by
  unfold adopt
  rw [if_pos (by simpa using skipped)]

/-- A valid record of another machine, known or welcome, is joined in. A record is replaced by a
higher one only, which is the join of the two. -/
theorem adopt_join (foreign : id ≠ own) (valid : peer.isValid = true)
    (room : state.record id = ⊥ → state.peers.size < maxMeshPeers) :
    (adopt own state id peer).record id = state.record id ⊔ ↑peer := by
  unfold adopt
  rw [if_neg (by simp [foreign, valid])]
  cases held : state.peers[id]? with
  | none =>
    have unknown : state.record id = ⊥ := held
    have adopted : state.adopts id peer = true := by
      simp [adopts, held, room unknown]
    rw [if_pos adopted, insert_record_self, unknown, bot_sup_eq]
  | some ours =>
    have known : state.record id = ↑ours := held
    by_cases higher : ours < peer
    · have adopted : state.adopts id peer = true := by
        simp [adopts, held, (Peer.outranks_iff peer ours).mpr higher]
      rw [if_pos adopted, insert_record_self, known, sup_eq_right.mpr]
      exact WithBot.coe_le_coe.mpr higher.le
    · have refused : ¬ state.adopts id peer = true := by
        simpa [adopts, held, Peer.outranks_iff] using higher
      rw [if_neg refused, known, sup_eq_left.mpr]
      exact WithBot.coe_le_coe.mpr (not_lt.mp higher)

/-- Whatever a step adopts was offered: the record it looks at is the one that
was there or the valid one it was shown. -/
theorem adopt_cases :
    adopt own state id peer = state ∨
      (id ≠ own ∧ peer.isValid = true ∧ state.adopts id peer = true ∧
        adopt own state id peer = state.insert id peer) := by
  unfold adopt
  split
  · exact Or.inl rfl
  · rename_i looked
    split
    · rename_i adopted
      have foreign : id ≠ own ∧ peer.isValid = true := by simpa using looked
      exact Or.inr ⟨foreign.1, foreign.2, adopted, rfl⟩
    · exact Or.inl rfl

end Walk

/-- The walk of `merge`, through any entries. -/
def walk (own : Id) (state : MeshState Id) (entries : List (Id × Peer)) : MeshState Id :=
  entries.foldl (fun state entry => adopt own state entry.1 entry.2) state

/-- The entries of a state are merged one by one. -/
theorem walk_cons (own : Id) (state : MeshState Id) (entry : Id × Peer)
    (entries : List (Id × Peer)) :
    walk own state (entry :: entries) = walk own (adopt own state entry.1 entry.2) entries := rfl

/-- The walk goes through the records in the order of the ids. -/
theorem merge_eq_walk (state remote : MeshState Id) (own : Id) :
    state.merge remote own = walk own state remote.peers.toList :=
  Std.ExtTreeMap.foldl_eq_foldl_toList

/-- The entries of a state are its records. -/
theorem mem_toList_iff (state : MeshState Id) (id : Id) (peer : Peer) :
    (id, peer) ∈ state.peers.toList ↔ state.record id = ↑peer :=
  Std.ExtTreeMap.mem_toList_iff_getElem?_eq_some

/-- A walk leaves alone every record it is not validly shown. -/
theorem walk_record_of_skipped (own id : Id) (state : MeshState Id)
    (entries : List (Id × Peer))
    (skipped : ∀ entry ∈ entries, entry.1 = id → entry.2.isValid = false) :
    (walk own state entries).record id = state.record id := by
  induction entries generalizing state with
  | nil => rfl
  | cons entry entries inductionHypothesis =>
    rw [List.forall_mem_cons] at skipped
    rw [walk_cons, inductionHypothesis _ skipped.2]
    by_cases looked : entry.1 = id
    · rw [adopt_skip own entry.1 state entry.2 (Or.inr (skipped.1 looked))]
    · exact adopt_record_of_ne own entry.1 state entry.2 id (Ne.symm looked)

/-- A walk writes nothing of its own: every record after it was held before or is
a valid one it was shown. -/
theorem walk_record_source (own id : Id) (state : MeshState Id) (entries : List (Id × Peer))
    (peer : Peer) (held : (walk own state entries).record id = ↑peer) :
    state.record id = ↑peer ∨ ((id, peer) ∈ entries ∧ id ≠ own ∧ peer.isValid = true) := by
  induction entries generalizing state with
  | nil => exact Or.inl held
  | cons entry entries inductionHypothesis =>
    obtain ⟨looked, shown⟩ := entry
    rw [walk_cons] at held
    cases inductionHypothesis _ held with
    | inl early =>
      obtain same | ⟨foreign, valid, _, adopted⟩ := adopt_cases own looked state shown
      · rw [same] at early
        exact Or.inl early
      · rw [adopted] at early
        by_cases at_looked : id = looked
        · subst at_looked
          rw [insert_record_self] at early
          obtain rfl := WithBot.coe_injective early
          exact Or.inr ⟨List.mem_cons_self, foreign, valid⟩
        · rw [insert_record_of_ne looked id shown state at_looked] at early
          exact Or.inl early
    | inr offered => exact Or.inr ⟨List.mem_cons_of_mem _ offered.1, offered.2⟩

/-- A merge writes nothing of its own. -/
theorem merge_record_source (state remote : MeshState Id) (own id : Id) (peer : Peer)
    (held : (state.merge remote own).record id = ↑peer) :
    state.record id = ↑peer ∨ (remote.record id = ↑peer ∧ id ≠ own ∧ peer.isValid = true) := by
  rw [merge_eq_walk] at held
  rw [← mem_toList_iff remote]
  exact walk_record_source own id state remote.peers.toList peer held

/-- An update leaves the state or makes of it what it is to be. -/
theorem update_cases (saves : Bool) (mutate : MeshState Id → Except MeshFailure (MeshState Id))
    (state : MeshState Id) :
    state.update saves mutate = state ∨ mutate state = .ok (state.update saves mutate) := by
  unfold update
  cases made : mutate state with
  | error failure => exact Or.inl rfl
  | ok next =>
    dsimp only
    split
    · exact Or.inl rfl
    · cases saves with
      | true => exact Or.inr rfl
      | false => exact Or.inl rfl

/-- A registration goes on a machine without a name, and writes one version up. -/
theorem addPaired_ok_cases (id : Id) (name : String) (state next : MeshState Id)
    (paired : state.addPaired id name = .ok next) :
    next = state ∨
      ((state.peerName id).isSome = false ∧ state.versionOf id < maxRecordVersion ∧
        next = state.insert id { version := state.versionOf id + 1, status := .alive name }) := by
  unfold addPaired at paired
  cases known : (state.peerName id).isSome with
  | true =>
    rw [known, if_pos rfl] at paired
    exact Or.inl (Except.ok.inj paired).symm
  | false =>
    rw [known, if_neg Bool.false_ne_true, addPeer_ok_iff] at paired
    exact Or.inr ⟨rfl, paired.2.1, paired.2.2⟩

end MeshState

end Yank
