import Yank.Ceiling
import Yank.PeerSet
import Yank.Preview
import Yank.Store

/-!
# The machine the user means

A machine is removed by what the user types: its exact name, or the start of its id where no
machine has that name. Names are not unique, and a name may be what another machine's id starts
with, or all of it.

What was typed is looked up in a snapshot of the mesh and the removal goes to the mesh as it is by
then.
-/

namespace Yank

/-- Why what was typed means no machine. -/
inductive ResolveFailure where
  | noMachine (needle : String)
  | manyMachines (needle : String) (count : Nat)
deriving DecidableEq

/-- What the user is told. -/
def ResolveFailure.text : ResolveFailure → String
  | noMachine needle => "no machine named \x60" ++ needle ++ "\x60"
  | manyMachines needle count =>
      "\x60" ++ needle ++ "\x60 matches " ++ toString count ++ " machines; use an endpoint id instead"

/-- Why a machine was not removed. -/
inductive RemoveFailure where
  | unresolved (failure : ResolveFailure)
  | refused (failure : MeshFailure)

namespace MeshState

variable {Id : Type} [LinearOrder Id] [EndpointText Id]

/-- Whether the text of an id starts with what was typed. -/
def startsWith (id : Id) (needle : String) : Bool :=
  needle.toList.isPrefixOf (EndpointText.text id).toList

/-- The machines in the mesh that a test is true of, in the order of their ids. -/
def aliveWhere (test : Id → String → Bool) (state : MeshState Id) : List Id :=
  (state.alivePeers.toList.filter (fun entry => test entry.1 entry.2)).map Prod.fst

/-- Resolves what the user typed to a machine: an exact name, or the start of an endpoint id. -/
def resolvePeer (needle : String) (state : MeshState Id) : Except ResolveFailure Id :=
  match state.aliveWhere (fun _ name => name = needle) with
  | [id] => .ok id
  | byName =>
      let matched := match byName with
        | [] => state.aliveWhere (fun id _ => startsWith id needle)
        | _ => byName
      match matched with
      | [id] => .ok id
      | [] => .error (.noMachine (String.ofList (sanitize needle.toList)))
      | ids => .error (.manyMachines (String.ofList (sanitize needle.toList)) ids.length)

/-- A removal asked for by the user: resolved in the state there was, made in the state there
is by then. -/
def removeNamed (needle : String) (snapshot state : MeshState Id) :
    Except RemoveFailure (MeshState Id) :=
  match snapshot.resolvePeer needle with
  | .error failure => .error (.unresolved failure)
  | .ok id =>
      match state.removePeer id with
      | .error failure => .error (.refused failure)
      | .ok next => .ok next

/-- The one machine that what was typed means: the only one of that name or, where none has it,
the only one whose id starts with it. -/
def Means (needle : String) (state : MeshState Id) (id : Id) : Prop :=
  (∀ other, state.peerName other = some needle ↔ other = id) ∨
    (∀ other, state.peerName other ≠ some needle) ∧
      ∀ other, ((state.peerName other).isSome = true ∧ startsWith other needle = true) ↔ other = id

end MeshState

/-- A list that repeats nothing is a single item exactly when nothing else is in it. -/
theorem eq_single_iff {α : Type} (items : List α) (once : items.Nodup) (item : α) :
    items = [item] ↔ ∀ other, other ∈ items ↔ other = item := by
  constructor
  · rintro rfl other
    exact List.mem_singleton
  · intro only
    have alone := (List.perm_ext_iff_of_nodup once (List.nodup_singleton item)).mpr
      fun other => (only other).trans List.mem_singleton.symm
    exact List.perm_singleton.mp alone

namespace MeshState

variable {Id : Type} [LinearOrder Id]

/-- A machine is found if it is there and passes the test. -/
theorem mem_aliveWhere_iff (test : Id → String → Bool) (state : MeshState Id) (id : Id) :
    id ∈ state.aliveWhere test ↔ ∃ name, state.peerName id = some name ∧ test id name = true := by
  simp only [aliveWhere, List.mem_map, List.mem_filter, Prod.exists,
    Std.ExtTreeMap.mem_toList_iff_getElem?_eq_some, alivePeers_get]
  constructor
  · rintro ⟨other, name, ⟨named, passes⟩, rfl⟩
    exact ⟨name, named, passes⟩
  · rintro ⟨name, named, passes⟩
    exact ⟨id, name, ⟨named, passes⟩, rfl⟩

/-- Each is found once. -/
theorem aliveWhere_nodup (test : Id → String → Bool) (state : MeshState Id) :
    (state.aliveWhere test).Nodup := by
  have once := state.alivePeers.nodup_keys
  rw [← Std.ExtTreeMap.map_fst_toList_eq_keys] at once
  exact once.sublist (List.filter_sublist.map _)

variable [EndpointText Id]

/-- What the user typed is resolved to the machine it means, and to nothing where it means none.
The source looks for the name, then for the beginning of an endpoint, and takes what it finds
where there is one only; `Means` says this of the machines that are there. -/
theorem resolvePeer_ok_iff (needle : String) (state : MeshState Id) (id : Id) :
    state.resolvePeer needle = .ok id ↔ Means needle state id := by
  have named : ∀ other, other ∈ state.aliveWhere (fun _ name => name = needle) ↔
      state.peerName other = some needle := by
    intro other
    simp [mem_aliveWhere_iff]
  have begun : ∀ other, other ∈ state.aliveWhere (fun other _ => startsWith other needle) ↔
      (state.peerName other).isSome = true ∧ startsWith other needle = true := by
    intro other
    rw [mem_aliveWhere_iff, Option.isSome_iff_exists]
    exact exists_and_right
  have nobody : (∀ other, state.peerName other ≠ some needle) ↔
      state.aliveWhere (fun _ name => name = needle) = [] := by
    rw [List.eq_nil_iff_forall_not_mem]
    exact forall_congr' fun other => not_congr (named other).symm
  rw [resolvePeer, Means, nobody]
  simp only [← named, ← begun, ← eq_single_iff _ (state.aliveWhere_nodup _)]
  generalize state.aliveWhere (fun _ name => name = needle) = byName
  generalize state.aliveWhere (fun other _ => startsWith other needle) = byId
  match byName with
  | [only] => simp
  | [] =>
    match byId with
    | [] => simp
    | [only] => simp
    | first :: second :: rest => simp
  | first :: second :: rest => simp

/-- Where the id of no other machine starts with it, a machine's whole id means it, unless another
machine has it for a name. -/
theorem id_resolves_iff (state : MeshState Id) (id : Id) (known : (state.peerName id).isSome = true)
    (apart : ∀ other, (state.peerName other).isSome = true →
      startsWith other (EndpointText.text id) = true → other = id) :
    state.resolvePeer (EndpointText.text id) = .ok id ↔
      ∀ other, state.peerName other = some (EndpointText.text id) → other = id := by
  rw [resolvePeer_ok_iff, Means]
  constructor
  · rintro (only | ⟨nobody, _⟩) other named
    · exact (only other).mp named
    · exact absurd named (nobody other)
  · intro own
    by_cases named : state.peerName id = some (EndpointText.text id)
    · left
      intro other
      exact ⟨own other, fun same => same ▸ named⟩
    · right
      refine ⟨fun other held => ?_, fun other => ?_⟩
      · exact named (own other held ▸ held)
      · constructor
        · rintro ⟨there, starts⟩
          exact apart other there starts
        · rintro rfl
          exact ⟨known, List.isPrefixOf_iff_prefix.mpr (List.prefix_refl _)⟩

/-- What the user typed removes a machine exactly if it means one and that one is still there, and
then it removes that one and no other: whatever was registered, removed and merged before it was
looked up and between that and the removal, as long as no registration was made on a record right
under the ceiling. -/
theorem named_removal_iff (needle : String) (early late : List (Op Id))
    (snapshot state : MeshState Id) (allowed : Runs.Guarded step Allowed empty (early ++ late))
    (looked : Runs.run step empty early = some snapshot)
    (reached : Runs.run step snapshot late = some state) :
    ((∃ next, removeNamed needle snapshot state = .ok next) ↔
      ∃ id, Means needle snapshot id ∧ (state.peerName id).isSome = true) ∧
    ∀ next, removeNamed needle snapshot state = .ok next → ∃ id, Means needle snapshot id ∧
      next.peerName id = none ∧ ∀ other, other ≠ id → next.record other = state.record other := by
  have under : Under state := by
    refine Runs.guarded_invariant step Allowed Under ?_ _ _ _ empty_under allowed
      ((Runs.run_append_iff step empty state early late).mpr ⟨snapshot, looked, reached⟩)
    intro before op after held permitted taken
    obtain rfl := Option.some.inj taken
    exact perform_under before op held permitted
  refine ⟨⟨?_, ?_⟩, ?_⟩
  · rintro ⟨next, removed⟩
    rw [removeNamed] at removed
    split at removed
    case h_1 => cases removed
    case h_2 id resolved =>
      split at removed
      case h_1 => cases removed
      case h_2 after made =>
        exact ⟨id, (resolvePeer_ok_iff needle snapshot id).mp resolved,
          ((removePeer_ok_iff id state after).mp made).1⟩
  · rintro ⟨id, means, there⟩
    obtain ⟨version, name, held⟩ := (peerName_isSome_iff state id).mp there
    have below : state.versionOf id < maxRecordVersion := by
      rw [versionOf_coe state id _ held]
      exact under id version name held
    have made := (removePeer_ok_iff id state _).mpr ⟨there, below, rfl⟩
    rw [removeNamed, (resolvePeer_ok_iff needle snapshot id).mpr means]
    dsimp only
    rw [made]
    exact ⟨_, rfl⟩
  · intro next removed
    rw [removeNamed] at removed
    split at removed
    case h_1 => cases removed
    case h_2 id resolved =>
      split at removed
      case h_1 => cases removed
      case h_2 after made =>
        obtain rfl : after = next := Except.ok.inj removed
        obtain ⟨_, _, rfl⟩ := (removePeer_ok_iff id state after).mp made
        refine ⟨id, (resolvePeer_ok_iff needle snapshot id).mp resolved, ?_, ?_⟩
        · rw [peerName, MeshState.insert, Std.ExtTreeMap.getElem?_insert_self]
          rfl
        · intro other apart
          exact insert_record_of_ne id other _ state apart

/-- A machine that another one, which calls itself by its id, was taken in after. -/
def shadowed : MeshState Nat :=
  (empty.perform (.add 7 "laptop")).perform
    (.merge ((empty : MeshState Nat).insert 9 { version := 1, status := .alive "7" }) 0)

-- Its id does not mean it.
example : shadowed.resolvePeer "7" = .ok 9 := by decide +kernel

/-- What it learns before the removal: of one more machine. -/
def learned : Op Nat :=
  .merge ((empty : MeshState Nat).insert 12 { version := 1, status := .alive "phone" }) 0

/-- Its name still does, and nothing else is removed by it, whatever was learned meanwhile. The
name that is removed is found by what was known when it was looked up. -/
theorem named_removal_of_a_shadowed_machine :
    (shadowed.perform learned).peerName 12 = some "phone" ∧
      ∃ next, removeNamed "laptop" shadowed (shadowed.perform learned) = .ok next ∧
        ∃ id, Means "laptop" shadowed id ∧ next.peerName id = none ∧
          ∀ other, other ≠ id → next.record other = (shadowed.perform learned).record other := by
  have allowed : Runs.Guarded step Allowed empty ([.add 7 "laptop",
      .merge ((empty : MeshState Nat).insert 9 { version := 1, status := .alive "7" }) 0] ++
        [learned]) :=
    ⟨(by decide : (empty : MeshState Nat).versionOf 7 ≠ maxRecordVersion - 1),
      fun _ _ => ⟨trivial, fun _ _ => ⟨trivial, fun _ _ => trivial⟩⟩⟩
  have removal := named_removal_iff "laptop" _ [learned] shadowed (shadowed.perform learned)
    allowed rfl rfl
  have means : Means "laptop" shadowed 7 :=
    (resolvePeer_ok_iff "laptop" shadowed 7).mp (by decide +kernel)
  obtain ⟨next, removed⟩ := removal.1.mpr ⟨7, means, by decide +kernel⟩
  exact ⟨by decide +kernel, next, removed, removal.2 next removed⟩

end MeshState

end Yank
