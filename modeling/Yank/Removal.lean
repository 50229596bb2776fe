import Yank.Gossip
import Yank.Runs

/-!
# Removals over a whole mesh

Any number of machines, each with its own copy of the mesh, all empty at first.
A machine registers a machine it paired with, removes one, or merges any state
any machine ever had; a change it cannot save it does not make.

Versions say who made a record. A registration goes on nothing or on a
tombstone, a removal on a machine that is there, and gossip makes no record at
all; so the versions of one machine alternate, odd while it is there and even
once it is removed, and a record that is there above a tombstone was registered
by a machine that held a tombstone right below it.
-/

namespace Yank

/-- A registration a machine made: what it held of `id` before, and after. -/
structure Registration (Id : Type) where
  id : Id
  before : WithBot Peer
  after : WithBot Peer

/-- A removal a machine made, and the version it produced. -/
structure Removal (Id : Type) where
  id : Id
  version : UInt64
deriving DecidableEq

/-- The machines, every state any of them ever had, and the changes that were
committed. -/
structure Replicas (Id : Type) [LinearOrder Id] where
  states : Id → MeshState Id
  had : List (MeshState Id)
  registered : List (Registration Id)
  removed : List (Removal Id)

/-- What changes the mesh state of a machine. -/
inductive Change (Id : Type) [LinearOrder Id] where
  | pair (id : Id) (name : String)
  | remove (id : Id)
  | merge (remote : MeshState Id)

variable {Id : Type} [LinearOrder Id]

/-- The mutation a machine named `own` runs. -/
def Change.mutate (own : Id) (change : Change Id) (state : MeshState Id) :
    Except MeshFailure (MeshState Id) :=
  match change with
  | .pair id name => state.addPaired id name
  | .remove id => state.removePeer id
  | .merge remote => .ok (state.merge remote own)

namespace Replicas

/-- Every machine starts with an empty mesh. -/
def start : Replicas Id where
  states _ := MeshState.empty
  had := [MeshState.empty]
  registered := []
  removed := []

/-- Whether a change can happen: only what a machine had is merged. -/
def possible (replicas : Replicas Id) (change : Change Id) : Bool :=
  match change with
  | .merge remote => decide (remote ∈ replicas.had)
  | _ => true

/-- The registration a change turned out to be. -/
def registrationOf (change : Change Id) (before after : MeshState Id) :
    Option (Registration Id) :=
  match change with
  | .pair id _ =>
      if after = before then none
      else some { id, before := before.record id, after := after.record id }
  | _ => none

/-- The removal a change turned out to be. -/
def removalOf (change : Change Id) (before after : MeshState Id) : Option (Removal Id) :=
  match change with
  | .remove id => if after = before then none else some { id, version := after.versionOf id }
  | _ => none

/-- One change on one machine. -/
def step (replicas : Replicas Id) (label : Id × Bool × Change Id) : Option (Replicas Id) :=
  let (machine, saves, change) := label
  if replicas.possible change then
    let before := replicas.states machine
    let after := before.update saves (change.mutate machine)
    some
      { states := Function.update replicas.states machine after
        had := after :: replicas.had
        registered := (registrationOf change before after).toList ++ replicas.registered
        removed := (removalOf change before after).toList ++ replicas.removed }
  else none

/-- What the version of a record says: odd while the machine is there, and then
it was registered as it is; even once it is removed. -/
def Born (registered : List (Registration Id)) (id : Id) (peer : Peer) : Prop :=
  match peer.status with
  | .alive _ => Odd peer.version.toNat ∧
      ∃ registration ∈ registered, registration.id = id ∧ registration.after = ↑peer
  | .removed => Even peer.version.toNat

/-- A registration goes one version up from nothing or from a tombstone. -/
def Fresh (registration : Registration Id) : Prop :=
  ∃ (version : UInt64) (name : String),
    registration.after = ↑({ version, status := .alive name } : Peer) ∧
      (registration.before = ⊥ ∧ version.toNat = 1 ∨
        ∃ tombstone : UInt64,
          registration.before = ↑({ version := tombstone, status := .removed } : Peer) ∧
            version.toNat = tombstone.toNat + 1)

/-- What every reachable mesh keeps. -/
structure Sound (replicas : Replicas Id) : Prop where
  holds : ∀ machine, replicas.states machine ∈ replicas.had
  born : ∀ state ∈ replicas.had, ∀ (id : Id) (peer : Peer), state.record id = ↑peer →
    Born replicas.registered id peer
  made : ∀ registration ∈ replicas.registered, Fresh registration
  bumped : ∀ removal ∈ replicas.removed, 0 < removal.version.toNat

omit [LinearOrder Id] in
/-- A record was registered whatever is registered after it. -/
theorem born_mono (early late : List (Registration Id)) (grown : ∀ entry ∈ early, entry ∈ late)
    (id : Id) (peer : Peer) (born : Born early id peer) : Born late id peer := by
  unfold Born at born ⊢
  cases status : peer.status with
  | removed =>
    rw [status] at born
    exact born
  | alive name =>
    rw [status] at born
    obtain ⟨odd, registration, member, about, wrote⟩ := born
    exact ⟨odd, registration, grown registration member, about, wrote⟩

/-- What a machine without a name holds. It was never heard of, or it is a tombstone. -/
theorem unnamed_cases (state : MeshState Id) (id : Id)
    (unnamed : (state.peerName id).isSome = false) :
    (state.record id = ⊥ ∧ state.versionOf id = 0) ∨
      state.record id = ↑({ version := state.versionOf id, status := .removed } : Peer) := by
  cases held : state.record id with
  | bot =>
    left
    have unknown : state.peers[id]? = none := held
    exact ⟨rfl, by simp [MeshState.versionOf, unknown]⟩
  | coe peer =>
    right
    rw [MeshState.versionOf_coe state id peer held]
    obtain ⟨version, status⟩ := peer
    cases status with
    | removed => rfl
    | alive name =>
      have named := (MeshState.peerName_isSome_iff state id).mpr ⟨version, name, held⟩
      rw [unnamed] at named
      cases named

/-- A registration is fresh, and its record odd. A tombstone is even, so the version after it is
odd. -/
theorem registration_fresh (state : MeshState Id) (id : Id) (name : String)
    (even : ∀ version : UInt64,
      state.record id = ↑({ version, status := .removed } : Peer) → Even version.toNat)
    (unnamed : (state.peerName id).isSome = false)
    (below : state.versionOf id < maxRecordVersion) :
    Odd (state.versionOf id + 1).toNat ∧
      Fresh (Registration.mk id (state.record id)
        ({ version := state.versionOf id + 1, status := .alive name } : Peer)) := by
  have bumped := MeshState.toNat_succ (state.versionOf id) below
  cases unnamed_cases state id unnamed with
  | inl unknown =>
    have first : (state.versionOf id + 1).toNat = 1 := by
      rw [bumped, unknown.2]
      rfl
    refine ⟨by rw [first]; exact odd_one, _, name, rfl, Or.inl ⟨unknown.1, first⟩⟩
  | inr tombstone =>
    refine ⟨?_, _, name, rfl, Or.inr ⟨state.versionOf id, tombstone, bumped⟩⟩
    rw [bumped]
    exact (even _ tombstone).add_one

section Step
variable (replicas : Replicas Id) (sound : Sound replicas) (machine : Id) (saves : Bool)
  (change : Change Id) (possible : replicas.possible change = true)
include sound possible

/-- Every record after a change was born with the registrations up to it. A registration is added
to the list before the record it writes is looked at, a removal writes a tombstone over a record
that was born, and a merge takes over records of other copies that were. -/
theorem change_born (id : Id) (peer : Peer)
    (held : ((replicas.states machine).update saves (change.mutate machine)).record id = ↑peer) :
    Born ((registrationOf change (replicas.states machine)
      ((replicas.states machine).update saves (change.mutate machine))).toList ++
        replicas.registered) id peer := by
  set before := replicas.states machine with before_def
  have known : ∀ (other : Id) (record : Peer), before.record other = ↑record →
      Born replicas.registered other record := sound.born before (sound.holds machine)
  have later : ∀ entry ∈ replicas.registered, entry ∈
      (registrationOf change before (before.update saves (change.mutate machine))).toList ++
        replicas.registered := fun entry member => List.mem_append_right _ member
  obtain same | made := before.update_cases saves (change.mutate machine)
  · rw [same] at held
    exact born_mono _ _ later id peer (known id peer held)
  generalize before.update saves (change.mutate machine) = after at held made later ⊢
  cases change with
  | pair paired name =>
    obtain rfl | ⟨unnamed, below, rfl⟩ := before.addPaired_ok_cases paired name after made
    · exact born_mono _ _ later id peer (known id peer held)
    · by_cases other : id = paired
      · subst other
        rw [MeshState.insert_record_self] at held
        obtain rfl := WithBot.coe_injective held
        have even : ∀ version : UInt64,
            before.record id = ↑({ version, status := .removed } : Peer) → Even version.toNat :=
          fun version tombstone => known id _ tombstone
        have fresh := registration_fresh before id name even unnamed below
        refine ⟨fresh.1, Registration.mk id (before.record id)
          ({ version := before.versionOf id + 1, status := .alive name } : Peer), ?_, rfl, rfl⟩
        have changed : before.insert id
            { version := before.versionOf id + 1, status := .alive name } ≠ before := by
          intro same
          have recorded := congrArg (fun state => MeshState.record state id) same
          simp only [MeshState.insert_record_self] at recorded
          have named := (before.peerName_isSome_iff id).mpr ⟨_, name, recorded.symm⟩
          rw [unnamed] at named
          cases named
        rw [registrationOf, if_neg changed, MeshState.insert_record_self]
        exact List.mem_cons_self
      · rw [MeshState.insert_record_of_ne paired id _ before other] at held
        exact born_mono _ _ later id peer (known id peer held)
  | remove gone =>
    obtain ⟨named, below, rfl⟩ := (before.removePeer_ok_iff gone after).mp made
    by_cases other : id = gone
    · subst other
      rw [MeshState.insert_record_self] at held
      obtain rfl := WithBot.coe_injective held
      obtain ⟨version, name, recorded⟩ := (before.peerName_isSome_iff id).mp named
      have odd : Odd version.toNat := (known id _ recorded).1
      have stored : before.versionOf id = version := before.versionOf_coe id _ recorded
      change Even (before.versionOf id + 1).toNat
      rw [MeshState.toNat_succ _ below, stored]
      exact odd.add_one
    · rw [MeshState.insert_record_of_ne gone id _ before other] at held
      exact born_mono _ _ later id peer (known id peer held)
  | merge remote =>
    obtain rfl := Except.ok.inj made
    have sent : remote ∈ replicas.had := by simpa [Replicas.possible] using possible
    obtain ours | ⟨theirs, _⟩ := before.merge_record_source remote machine id peer held
    · exact born_mono _ _ later id peer (known id peer ours)
    · exact born_mono _ _ later id peer (sound.born remote sent id peer theirs)

/-- Every registration logged is fresh. It is logged where a pairing changed the record, and that
goes one version up from a machine that had no name. -/
theorem change_fresh (registration : Registration Id)
    (logged : registrationOf change (replicas.states machine)
      ((replicas.states machine).update saves (change.mutate machine)) = some registration) :
    Fresh registration := by
  set before := replicas.states machine with before_def
  cases change with
  | remove gone => simp [registrationOf] at logged
  | merge remote => simp [registrationOf] at logged
  | pair id name =>
    simp only [registrationOf, Option.ite_none_left_eq_some, Option.some.injEq] at logged
    obtain ⟨changed, rfl⟩ := logged
    have made := (before.update_cases saves (Change.mutate machine (.pair id name))).resolve_left
      changed
    obtain same | ⟨unnamed, below, wrote⟩ := before.addPaired_ok_cases id name _ made
    · exact absurd same changed
    · have even : ∀ version : UInt64,
          before.record id = ↑({ version, status := .removed } : Peer) → Even version.toNat :=
        fun version tombstone => sound.born before (sound.holds machine) id _ tombstone
      rw [wrote, MeshState.insert_record_self]
      exact (registration_fresh before id name even unnamed below).2

omit sound possible in
/-- Every removal logged produced a version above nothing. It is logged where a removal changed
the record, which goes one version up from a machine that was there. -/
theorem change_bumped (removal : Removal Id)
    (logged : removalOf change (replicas.states machine)
      ((replicas.states machine).update saves (change.mutate machine)) = some removal) :
    0 < removal.version.toNat := by
  set before := replicas.states machine with before_def
  cases change with
  | pair id name => simp [removalOf] at logged
  | merge remote => simp [removalOf] at logged
  | remove id =>
    simp only [removalOf, Option.ite_none_left_eq_some, Option.some.injEq] at logged
    obtain ⟨changed, rfl⟩ := logged
    have made := (before.update_cases saves (Change.mutate machine (.remove id))).resolve_left
      changed
    obtain ⟨_, below, wrote⟩ := (before.removePeer_ok_iff id _).mp made
    rw [wrote, MeshState.versionOf_coe _ id _ (MeshState.insert_record_self id _ before)]
    rw [MeshState.toNat_succ _ below]
    exact Nat.succ_pos _

end Step

/-- No machine has a record of another yet. -/
theorem start_sound : Sound (start : Replicas Id) where
  holds _ := List.mem_singleton_self _
  born state member id peer held := by
    obtain rfl := List.mem_singleton.mp member
    rw [MeshState.empty_record] at held
    cases held
  made registration member := by cases member
  bumped removal member := by cases member

/-- One change keeps the mesh sound. Only the machine that changes holds another state, and that
one joins those that were ever had. -/
theorem step_sound (replicas : Replicas Id) (label : Id × Bool × Change Id)
    (next : Replicas Id) (sound : Sound replicas) (taken : replicas.step label = some next) :
    Sound next := by
  obtain ⟨machine, saves, change⟩ := label
  simp only [step, Option.ite_none_right_eq_some, Option.some.injEq] at taken
  obtain ⟨possible, rfl⟩ := taken
  constructor
  · intro other
    by_cases same : other = machine
    · subst same
      exact List.mem_cons.mpr (Or.inl (Function.update_self _ _ _))
    · refine List.mem_cons_of_mem _ ?_
      dsimp only
      rw [Function.update_of_ne same]
      exact sound.holds other
  · intro state member id peer held
    cases List.mem_cons.mp member with
    | inl new =>
      subst new
      exact change_born replicas sound machine saves change possible id peer held
    | inr known =>
      exact born_mono _ _ (fun _ => List.mem_append_right _) id peer
        (sound.born state known id peer held)
  · intro registration member
    cases List.mem_append.mp member with
    | inl new =>
      exact change_fresh replicas sound machine saves change possible registration
        (Option.mem_toList.mp new)
    | inr known => exact sound.made registration known
  · intro removal member
    cases List.mem_append.mp member with
    | inl new => exact change_bumped replicas machine saves change removal (Option.mem_toList.mp new)
    | inr known => exact sound.bumped removal known

/-- A removal is final until someone who knows of it pairs again. In every
configuration a run reaches, versions are odd exactly while a machine is there
and even exactly once it is removed; and a machine that is there above the
version of a removal was registered, as it is, by a machine holding a tombstone
of that version or above. -/
theorem removal_is_final (labels : List (Id × Bool × Change Id)) (replicas : Replicas Id)
    (reached : Runs.run step start labels = some replicas) :
    (∀ machine, replicas.states machine ∈ replicas.had) ∧
      (∀ state ∈ replicas.had, ∀ (id : Id) (peer : Peer), state.record id = ↑peer →
        (Odd peer.version.toNat ↔ peer.name.isSome = true) ∧
          (Even peer.version.toNat ↔ peer.status = .removed)) ∧
      ∀ removal ∈ replicas.removed, ∀ state ∈ replicas.had, ∀ version name,
        state.record removal.id = ↑({ version, status := .alive name } : Peer) →
        removal.version < version →
        ∃ registration ∈ replicas.registered, registration.id = removal.id ∧
          registration.after = ↑({ version, status := .alive name } : Peer) ∧
          ∃ tombstone : UInt64,
            registration.before = ↑({ version := tombstone, status := .removed } : Peer) ∧
              removal.version ≤ tombstone := by
  have sound : Sound replicas := Runs.run_invariant step Sound
    (fun state label next sound taken => step_sound state label next sound taken)
    _ _ labels start_sound reached
  refine ⟨sound.holds, ?_, ?_⟩
  · rintro state member id ⟨version, status⟩ held
    have born := sound.born state member id _ held
    cases status with
    | alive name =>
      have odd : Odd version.toNat := born.1
      simp [Peer.name, odd]
    | removed =>
      have even : Even version.toNat := born
      simp [Peer.name, even]
  · intro removal gone state member version name held above
    obtain ⟨_, registration, logged, about, wrote⟩ := sound.born state member removal.id _ held
    refine ⟨registration, logged, about, wrote, ?_⟩
    have positive := sound.bumped removal gone
    rw [UInt64.lt_iff_toNat_lt] at above
    obtain ⟨made, named, same, first | ⟨tombstone, under, next⟩⟩ := sound.made registration logged
    · have equal := WithBot.coe_injective (wrote.symm.trans same)
      obtain rfl : version = made := congrArg Peer.version equal
      omega
    · have equal := WithBot.coe_injective (wrote.symm.trans same)
      obtain rfl : version = made := congrArg Peer.version equal
      refine ⟨tombstone, under, ?_⟩
      rw [UInt64.le_iff_toNat_le]
      omega

/-- A machine removed, and paired with again by the machine that removed it. The record that comes
back is above the tombstone it replaces. -/
theorem removal_is_final_again :
    ∃ replicas : Replicas Nat,
      Runs.run step start [(0, true, .pair 2 "laptop"), (0, true, .remove 2),
        (0, true, .pair 2 "laptop")] = some replicas ∧
      ∃ registration ∈ replicas.registered, ∃ tombstone : UInt64,
        registration.before = ↑({ version := tombstone, status := .removed } : Peer) ∧
          2 ≤ tombstone := by
  have observed : (Runs.run step start [(0, true, .pair 2 "laptop"), (0, true, .remove 2),
      (0, true, .pair 2 "laptop")]).map (fun replicas =>
        decide (replicas.removed = [{ id := (2 : Nat), version := 2 }]) &&
          decide ((replicas.states 0).record 2 =
            ↑({ version := 3, status := .alive "laptop" } : Peer))) = some true := by
    decide
  obtain ⟨replicas, reached, holds⟩ := Option.map_eq_some_iff.mp observed
  simp only [Bool.and_eq_true, decide_eq_true_eq] at holds
  refine ⟨replicas, reached, ?_⟩
  obtain ⟨current, _, final⟩ := removal_is_final _ replicas reached
  obtain ⟨registration, logged, _, _, tombstone, under, above⟩ :=
    final { id := 2, version := 2 } (by simp [holds.1]) (replicas.states 0) (current 0) 3 "laptop"
      holds.2 (by decide)
  exact ⟨registration, logged, tombstone, under, above⟩

end Replicas

end Yank
