import Yank.MeshState

/-!
# The tasks of the paired machines

One task per paired machine holds its connection, and the set is the allowlist: an
incoming connection of a machine without a task is refused. `sync` brings the tasks in
line with the mesh: it stops those of the machines that left, renames the ones that
were renamed and starts those of the machines that came.

A task is named by its place among all tasks there ever were. The handles say which
task is whose; what they say is what runs.
-/

namespace Yank

/-- Bookkeeping for one peer task. -/
structure PeerHandle where
  name : String
  task : Nat
deriving DecidableEq

/-- One peer task, once started. -/
structure PeerTask (Id : Type) where
  peer : Id
  running : Bool
deriving DecidableEq

/-- The paired machines and their tasks. -/
structure PeerSet (Id : Type) [LinearOrder Id] where
  peers : Std.ExtTreeMap Id PeerHandle
  /-- Every task there ever was. -/
  tasks : List (PeerTask Id)

variable {Id : Type} [LinearOrder Id]

/-- The machines currently in the mesh, with their names. -/
def MeshState.alivePeers (state : MeshState Id) : Std.ExtTreeMap Id String :=
  state.peers.filterMap (fun _ peer => peer.name)

namespace PeerSet

/-- A set nobody was added to. -/
def empty : PeerSet Id where
  peers := ∅
  tasks := []

/-- `PeerHandle::shutdown`, of the handle taken out of the map. -/
def shutdown (set : PeerSet Id) (id : Id) : PeerSet Id :=
  match set.peers[id]? with
  | none => set
  | some handle =>
      { peers := set.peers.erase id
        tasks := set.tasks.modify handle.task (fun task => { task with running := false }) }

/-- Starts a task and keeps its handle. -/
def spawn (set : PeerSet Id) (id : Id) (name : String) : PeerSet Id where
  peers := set.peers.insert id { name, task := set.tasks.length }
  tasks := set.tasks ++ [{ peer := id, running := true }]

/-- Starts a task for a machine that has none. -/
def watch (set : PeerSet Id) (id : Id) (name : String) : PeerSet Id :=
  if set.peers.contains id then set else set.spawn id name

/-- Gives every machine the name it is desired under. -/
def rename (desired : Std.ExtTreeMap Id String) (set : PeerSet Id) : PeerSet Id :=
  -- Whoever is not desired is gone by now, so there always is a name.
  { set with
    peers := set.peers.map (fun id handle =>
      { handle with name := (desired[id]?).getD handle.name }) }

/-- Brings the running tasks in line with the mesh state. -/
def sync (set : PeerSet Id) (state : MeshState Id) : PeerSet Id :=
  let desired := state.alivePeers
  let removed := set.peers.keys.filter (fun id => !desired.contains id)
  desired.foldl watch ((removed.foldl shutdown set).rename desired)

/-- The task a machine's handle is of. -/
def taskOf (set : PeerSet Id) (id : Id) : Option Nat := set.peers[id]?.map PeerHandle.task

/-- The name a machine's handle is under. -/
def nameOf (set : PeerSet Id) (id : Id) : Option String := set.peers[id]?.map PeerHandle.name

/-- What runs is what the handles say. -/
def Tended (set : PeerSet Id) : Prop :=
  ∀ index id, set.tasks[index]? = some { peer := id, running := true } ↔
    set.taskOf id = some index

end PeerSet

/-- A machine is desired under the name it has in the mesh. -/
theorem MeshState.alivePeers_get (state : MeshState Id) (id : Id) :
    state.alivePeers[id]? = state.peerName id :=
  Std.ExtTreeMap.getElem?_filterMap'

namespace PeerSet

/-- A set without machines has no tasks to tend. -/
theorem empty_tended : (empty : PeerSet Id).Tended := by
  intro index id
  have nobody : (empty : PeerSet Id).taskOf id = none := by simp [taskOf, empty]
  rw [nobody]
  simp [empty]

section Steps
variable (set : PeerSet Id) (id other : Id) (name : String)

/-- A machine that is shut down is gone from the set, and no other. -/
theorem shutdown_peers :
    (set.shutdown id).peers[other]? = if other = id then none else set.peers[other]? := by
  unfold shutdown
  cases held : set.peers[id]? with
  | none =>
    by_cases same : other = id
    · rw [if_pos same, same, held]
    · rw [if_neg same]
  | some handle =>
    rw [Std.ExtTreeMap.getElem?_erase]
    exact if_congr (by rw [compare_eq_iff_eq, eq_comm]) rfl rfl

/-- A machine that is spawned has the last task there is. -/
theorem spawn_peers :
    (set.spawn id name).peers[other]? =
      if other = id then some { name, task := set.tasks.length } else set.peers[other]? := by
  rw [spawn, Std.ExtTreeMap.getElem?_insert]
  exact if_congr (by rw [compare_eq_iff_eq, eq_comm]) rfl rfl

/-- Only what a handle says is asked, and what tasks there are. -/
theorem rename_taskOf (desired : Std.ExtTreeMap Id String) :
    (set.rename desired).taskOf id = set.taskOf id := by
  rw [taskOf, rename, Std.ExtTreeMap.getElem?_map, Option.map_map]
  rfl

/-- A machine that is there gets its name, and one that is not gets none. -/
theorem rename_nameOf (desired : Std.ExtTreeMap Id String) (held : desired[id]? = some name) :
    (set.rename desired).nameOf id = (set.nameOf id).map (fun _ => name) := by
  rw [nameOf, rename, Std.ExtTreeMap.getElem?_map, Option.map_map, nameOf, Option.map_map]
  simp [Function.comp_def, held]

/-- A rename stops and starts nothing. -/
theorem rename_tended (desired : Std.ExtTreeMap Id String) (tended : set.Tended) :
    (set.rename desired).Tended := by
  intro index peer
  rw [rename_taskOf]
  exact tended index peer

/-- Stopping a machine's task leaves every other one running. Only the task of that machine's
handle is stopped, and the handle goes with it. -/
theorem shutdown_tended (tended : set.Tended) : (set.shutdown id).Tended := by
  intro index peer
  have handles : (set.shutdown id).taskOf peer = if peer = id then none else set.taskOf peer := by
    rw [taskOf, shutdown_peers, taskOf]
    split <;> rfl
  rw [handles]
  cases held : set.peers[id]? with
  | none =>
    have same : set.shutdown id = set := by simp [shutdown, held]
    rw [same, tended]
    by_cases own : peer = id
    · simp [own, taskOf, held]
    · rw [if_neg own]
  | some handle =>
    have tasks : (set.shutdown id).tasks =
        set.tasks.modify handle.task (fun task => { task with running := false }) := by
      simp [shutdown, held]
    have runs : set.taskOf id = some handle.task := by rw [taskOf, held]; rfl
    rw [tasks]
    by_cases stopped : handle.task = index
    · -- The task is the machine's, so it is nobody else's.
      have among := (tended handle.task id).mpr runs
      have others : peer ≠ id → set.taskOf peer ≠ some index := by
        intro apart also
        rw [← tended, ← stopped, among] at also
        exact apart (congrArg PeerTask.peer (Option.some.inj also)).symm
      rw [← stopped, List.getElem?_modify_eq, among]
      by_cases own : peer = id
      · simp [own]
      · simpa [own, stopped] using others own
    · rw [List.getElem?_modify_ne _ _ stopped, tended]
      by_cases own : peer = id
      · rw [if_pos own, own, runs]
        simp [stopped]
      · rw [if_neg own]

/-- A task that is started runs beside all others. The task gets the next index, which no handle
names yet. -/
theorem spawn_tended (tended : set.Tended) (unknown : set.taskOf id = none) :
    (set.spawn id name).Tended := by
  intro index peer
  have handles : (set.spawn id name).taskOf peer =
      if peer = id then some set.tasks.length else set.taskOf peer := by
    rw [taskOf, spawn_peers, taskOf]
    split <;> rfl
  rw [handles]
  change (set.tasks ++ [{ peer := id, running := true }])[index]? = _ ↔ _
  obtain early | rfl | late := lt_trichotomy index set.tasks.length
  · rw [List.getElem?_append_left early, tended]
    by_cases own : peer = id
    · rw [if_pos own, own, unknown]
      simp [early.ne']
    · rw [if_neg own]
  · rw [List.getElem?_concat_length]
    by_cases own : peer = id
    · simp [own]
    · have nothing : set.taskOf peer ≠ some set.tasks.length := by
        intro also
        rw [← tended] at also
        simp at also
      have stranger : id ≠ peer := Ne.symm own
      simp [own, stranger, nothing]
  · have short : set.tasks.length + 1 ≤ index := late
    rw [List.getElem?_eq_none (by simpa using short)]
    by_cases own : peer = id
    · simp [own, late.ne]
    · have nothing : set.taskOf peer ≠ some index := by
        intro also
        rw [← tended, List.getElem?_eq_none late.le] at also
        cases also
      simpa [own] using nothing

end Steps

/-- Stopping the tasks of some machines stops those and no others. -/
theorem shutdownAll_spec (set : PeerSet Id) (ids : List Id) (tended : set.Tended) :
    (ids.foldl shutdown set).Tended ∧
      ∀ id, (ids.foldl shutdown set).peers[id]? = if id ∈ ids then none else set.peers[id]? := by
  induction ids generalizing set with
  | nil => exact ⟨tended, fun id => by simp⟩
  | cons first ids inductionHypothesis =>
    obtain ⟨kept, handles⟩ := inductionHypothesis (set.shutdown first) (shutdown_tended set first tended)
    refine ⟨kept, ?_⟩
    intro id
    rw [List.foldl_cons, handles, shutdown_peers]
    by_cases later : id ∈ ids
    · simp [later]
    · by_cases now : id = first
      · simp [now]
      · simp [later, now]

/-- A machine is watched under its name, unless it is watched already. A machine that is watched
keeps its handle and its task, whatever name it is asked for under. -/
theorem watch_spec (set : PeerSet Id) (id : Id) (name : String) (tended : set.Tended) :
    (set.watch id name).Tended ∧
      (∀ (other : Id) (handle : PeerHandle), set.peers[other]? = some handle →
        (set.watch id name).peers[other]? = some handle) ∧
      (∀ other : Id, other ≠ id → (set.watch id name).peers[other]? = set.peers[other]?) ∧
      (set.peers[id]? = none → (set.watch id name).nameOf id = some name) := by
  unfold watch
  cases held : set.peers[id]? with
  | some known =>
    have present : set.peers.contains id = true := by
      rw [Std.ExtTreeMap.contains_eq_isSome_getElem?, held]
      rfl
    rw [if_pos present]
    exact ⟨tended, fun _ _ same => same, fun _ _ => rfl, fun absent => by cases absent⟩
  | none =>
    have absent : ¬ set.peers.contains id = true := by
      rw [Std.ExtTreeMap.contains_eq_isSome_getElem?, held]
      exact Bool.false_ne_true
    rw [if_neg absent]
    refine ⟨spawn_tended set id name tended (by rw [taskOf, held]; rfl), ?_, ?_, ?_⟩
    · intro other handle present
      have apart : other ≠ id := by
        rintro rfl
        rw [held] at present
        cases present
      rw [spawn_peers, if_neg apart]
      exact present
    · intro other apart
      rw [spawn_peers, if_neg apart]
    · intro _
      rw [nameOf, spawn_peers, if_pos rfl]
      rfl

/-- Watching the desired machines starts tasks for those that had none. The induction is on the
entries: each is watched by itself, and no later one is of the same machine. -/
theorem watchAll_spec (set : PeerSet Id) (entries : List (Id × String))
    (distinct : (entries.map Prod.fst).Nodup) (tended : set.Tended) :
    let watched := entries.foldl (fun set entry => set.watch entry.1 entry.2) set
    watched.Tended ∧
      (∀ (id : Id) (handle : PeerHandle), set.peers[id]? = some handle → watched.peers[id]? = some handle) ∧
      (∀ id : Id, id ∉ entries.map Prod.fst → watched.peers[id]? = set.peers[id]?) ∧
      (∀ id name, (id, name) ∈ entries → set.peers[id]? = none → watched.nameOf id = some name) := by
  induction entries generalizing set with
  | nil =>
    exact ⟨tended, fun _ _ same => same, fun _ _ => rfl, fun _ _ member => by cases member⟩
  | cons entry entries inductionHypothesis =>
    rw [List.map_cons, List.nodup_cons] at distinct
    obtain ⟨kept, stay, others, named⟩ := watch_spec set entry.1 entry.2 tended
    obtain ⟨tended', stay', others', named'⟩ := inductionHypothesis _ distinct.2 kept
    refine ⟨tended', ?_, ?_, ?_⟩
    · intro id handle held
      exact stay' id handle (stay id handle held)
    · intro id outside
      rw [List.map_cons, List.mem_cons, not_or] at outside
      exact (others' id outside.2).trans (others id outside.1)
    · intro id name member absent
      obtain rfl | later := List.mem_cons.mp member
      · have started := named absent
        have same := others' id distinct.1
        rw [nameOf] at started ⊢
        rw [List.foldl_cons, same]
        exact started
      · have apart : id ≠ entry.1 := by
          rintro rfl
          exact distinct.1 (List.mem_map.mpr ⟨_, later, rfl⟩)
        exact named' id name later ((others id apart).trans absent)

/-- Once the machines that left are stopped, a handle is one of a desired machine. The machines
that are stopped are those of the handles that are not desired, so a handle that stays is one of a
desired machine. -/
theorem stopped_spec (set : PeerSet Id) (desired : Std.ExtTreeMap Id String) (tended : set.Tended) :
    let removed := set.peers.keys.filter (fun id => !desired.contains id)
    (removed.foldl shutdown set).Tended ∧
      ∀ id, (removed.foldl shutdown set).peers[id]? =
        if desired.contains id then set.peers[id]? else none := by
  intro removed
  obtain ⟨kept, handles⟩ := shutdownAll_spec set removed tended
  refine ⟨kept, ?_⟩
  intro id
  have among : id ∈ removed ↔ (set.peers[id]?).isSome = true ∧ desired.contains id = false := by
    rw [List.mem_filter, Std.ExtTreeMap.mem_keys, ← Std.ExtTreeMap.contains_iff_mem,
      Std.ExtTreeMap.contains_eq_isSome_getElem?, Bool.not_eq_true']
  rw [handles]
  cases wanted : desired.contains id with
  | true =>
    have stays : id ∉ removed := by simp [among, wanted]
    rw [if_neg stays, if_pos rfl]
  | false =>
    cases held : set.peers[id]? with
    | none => simp
    | some handle =>
      have goes : id ∈ removed := by simp [among, wanted, held]
      rw [if_pos goes, if_neg Bool.false_ne_true]

/-- What `sync` leaves: a running task for every machine in the mesh under its name there
and no other, the one it had where it had one. -/
theorem sync_spec (state : MeshState Id) (set : PeerSet Id) (tended : set.Tended) :
    (set.sync state).Tended ∧
      (∀ id, (set.sync state).nameOf id = state.peerName id) ∧
      ∀ id task, (state.peerName id).isSome = true → set.taskOf id = some task →
        (set.sync state).taskOf id = some task := by
  obtain ⟨stopped, left⟩ := stopped_spec set state.alivePeers tended
  unfold sync
  dsimp only at stopped left ⊢
  generalize (set.peers.keys.filter (fun id => !state.alivePeers.contains id)).foldl shutdown set =
    remaining at stopped left ⊢
  rw [Std.ExtTreeMap.foldl_eq_foldl_toList]
  have distinct : (state.alivePeers.toList.map Prod.fst).Nodup := by
    rw [Std.ExtTreeMap.map_fst_toList_eq_keys]
    exact Std.ExtTreeMap.nodup_keys
  have among (id : Id) (name : String) :
      (id, name) ∈ state.alivePeers.toList ↔ state.peerName id = some name := by
    rw [Std.ExtTreeMap.mem_toList_iff_getElem?_eq_some, MeshState.alivePeers_get]
  have wanted (id : Id) : state.alivePeers.contains id = (state.peerName id).isSome := by
    rw [Std.ExtTreeMap.contains_eq_isSome_getElem?, MeshState.alivePeers_get]
  obtain ⟨kept, stay, others, named⟩ := watchAll_spec (remaining.rename state.alivePeers)
    state.alivePeers.toList distinct (rename_tended remaining state.alivePeers stopped)
  generalize state.alivePeers.toList.foldl (fun set entry => set.watch entry.1 entry.2)
    (remaining.rename state.alivePeers) = watched at kept stay others named ⊢
  refine ⟨kept, ?_, ?_⟩
  · intro id
    cases known : state.peerName id with
    | none =>
      have outside : id ∉ state.alivePeers.toList.map Prod.fst := by
        intro member
        obtain ⟨⟨_, name⟩, listed, rfl⟩ := List.mem_map.mp member
        rw [among, known] at listed
        cases listed
      have gone : remaining.peers[id]? = none := by
        rw [left, wanted, known]
        rfl
      have absent : (remaining.rename state.alivePeers).peers[id]? = none := by
        rw [rename, Std.ExtTreeMap.getElem?_map, gone]
        rfl
      rw [nameOf, others id outside, absent]
      rfl
    | some name =>
      have listed : (id, name) ∈ state.alivePeers.toList := (among id name).mpr known
      cases held : (remaining.rename state.alivePeers).peers[id]? with
      | none => exact named id name listed held
      | some handle =>
        have desired : state.alivePeers[id]? = some name := by
          rw [MeshState.alivePeers_get, known]
        have renamed := rename_nameOf remaining id name state.alivePeers desired
        rw [nameOf, held] at renamed
        obtain ⟨_, _, same⟩ := Option.map_eq_some_iff.mp renamed.symm
        rw [nameOf, stay id handle held, same]
        rfl
  · intro id task alive had
    have holds : (remaining.rename state.alivePeers).taskOf id = some task := by
      rw [rename_taskOf, taskOf, left, wanted, alive]
      exact had
    obtain ⟨handle, held, same⟩ := Option.map_eq_some_iff.mp holds
    rw [taskOf, stay id handle held, ← same]
    rfl

end PeerSet

end Yank
