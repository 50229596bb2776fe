import Yank.MeshFile
import Yank.PeerSet
import Yank.Replacing
import Yank.Runs

/-!
# Who is in the mesh, on disk, in memory and on the network

Every change to the mesh goes through `update`: the file is replaced, the peer tasks are
brought in line and the state is published, under a lock. A change that is refused, that
changes nothing or that cannot be saved stops before all of that.

The write to the file may stop at any of its steps, with an error or with the machine.
A stopped machine comes back with what its disk has kept, and no tasks.
-/

namespace Yank

/-- Where the mesh is saved. -/
def meshFile : String := "mesh.json"

/-- `meshFile` with the extension `tmp`. -/
def meshTemporary : String := "mesh.tmp"

variable {Id : Type} [LinearOrder Id]

/-- What a change to the mesh is: any function, refused or not. -/
abbrev Mutate (Id : Type) [LinearOrder Id] := MeshState Id → Except MeshFailure (MeshState Id)

/-- Why `update` answers an error. -/
inductive UpdateFailure where
  | refused (failure : MeshFailure)
  | notWritten
deriving DecidableEq

/-- How far writing the file comes. -/
structure Writing where
  /-- The pieces the contents are written in. -/
  pieces : List Nat
  /-- How many steps are done before it stops; all of them when there are no more. -/
  done : Nat
deriving DecidableEq

/-- The mesh state, persisted and watched, and the tasks that follow it. -/
structure MeshStore (Id : Type) [LinearOrder Id] where
  disk : Replacing.Dir String UInt8
  state : MeshState Id
  peers : PeerSet Id

namespace MeshStore

variable (codec : Wire.Codec (MeshState Id))

/-- `MeshState::load`: a missing file is an empty mesh. -/
def load (disk : Replacing.Dir String UInt8) : Option (MeshState Id) :=
  match Replacing.read disk meshFile with
  | none => some .empty
  | some bytes =>
      match codec.decode bytes with
      | some (state, []) => some state
      | some (_, _ :: _) => none
      | none => none

/-- What `write_private` does to write a state to the file. -/
def writePrivate (pieces : List Nat) (state : MeshState Id) :
    List (Replacing.Action String UInt8) :=
  Replacing.replacing meshTemporary meshFile (Replacing.inPieces pieces (codec.encode state))

/-- A daemon started on a disk: it adopts what it loads and opens a connection to every
machine in it. -/
def opened (disk : Replacing.Dir String UInt8) : Option (MeshStore Id) :=
  (load codec disk).map (fun state => { disk, state, peers := PeerSet.empty.sync state })

/-- The disk once a change came as far as it does. -/
def written (mutate : Mutate Id) (writing : Writing) (store : MeshStore Id) :
    Replacing.Dir String UInt8 :=
  match mutate store.state with
  | .error _ => store.disk
  | .ok next =>
      if next = store.state then store.disk
      else Replacing.performAll store.disk ((writePrivate codec writing.pieces next).take writing.done)

/-- Changes the state: persist, align the connections, and commit. -/
def update (mutate : Mutate Id) (writing : Writing) (store : MeshStore Id) :
    MeshStore Id × Except UpdateFailure Unit :=
  match mutate store.state with
  | .error failure => (store, .error (.refused failure))
  | .ok next =>
      if next = store.state then (store, .ok ())
      else
        let disk := store.written codec mutate writing
        if writing.done < (writePrivate codec writing.pieces next).length then
          ({ store with disk }, .error .notWritten)
        else ({ disk, state := next, peers := store.peers.sync next }, .ok ())

/-- A change, or the machine stopping in the middle of one; it is started again. -/
inductive Label (Id : Type) [LinearOrder Id] where
  | update (mutate : Mutate Id) (writing : Writing)
  | crash (mutate : Mutate Id) (writing : Writing) (lost : String → Bytes)

/-- One step; a daemon that cannot load its mesh does not start. -/
def step (store : MeshStore Id) : Label Id → Option (MeshStore Id)
  | .update mutate writing => some (store.update codec mutate writing).1
  | .crash mutate writing lost =>
      opened codec (Replacing.crash lost (store.written codec mutate writing))

/-- The disk, the watched state and the running tasks are about the same machines. -/
structure Agrees (store : MeshStore Id) : Prop where
  saved : load codec store.disk = some store.state
  named : ∀ id, store.peers.nameOf id = store.state.peerName id
  tended : store.peers.Tended

/-- What a run keeps: the three agree, and a crash leaves the file. -/
structure Kept (store : MeshStore Id) : Prop where
  agrees : Agrees codec store
  settled : Replacing.Settled store.disk meshFile

/-- A task for every machine that stays is the one it had. -/
def KeepsTasks (before after : MeshStore Id) : Prop :=
  ∀ id, (before.state.peerName id).isSome = true → (after.state.peerName id).isSome = true →
    ∃ task, before.peers.taskOf id = some task ∧ after.peers.taskOf id = some task

/-- What is loaded is what is under the file's name. -/
theorem load_congr (left right : Replacing.Dir String UInt8)
    (same : Replacing.read left meshFile = Replacing.read right meshFile) :
    load codec left = load codec right := by
  rw [load, load, same]

/-- The file and its temporary one have different names. -/
theorem files_apart : meshFile ≠ meshTemporary := by decide

/-- A daemon that starts agrees with its disk. -/
theorem opened_kept (disk : Replacing.Dir String UInt8) (store : MeshStore Id)
    (settled : Replacing.Settled disk meshFile) (starts : opened codec disk = some store) :
    Kept codec store := by
  obtain ⟨state, loaded, rfl⟩ := Option.map_eq_some_iff.mp starts
  obtain ⟨tended, named, _⟩ := PeerSet.sync_spec state PeerSet.empty PeerSet.empty_tended
  exact ⟨⟨loaded, named, tended⟩, settled⟩

/-- What a call leaves: everything as it was where it answers an error or changes
nothing, and otherwise the new state on disk, in memory and in the tasks. -/
theorem update_cases (mutate : Mutate Id) (writing : Writing) (store : MeshStore Id) :
    (∃ failure, mutate store.state = .error failure ∧
        store.update codec mutate writing = (store, .error (.refused failure))) ∨
      (mutate store.state = .ok store.state ∧
        store.update codec mutate writing = (store, .ok ())) ∨
      (∃ disk, disk meshFile = store.disk meshFile ∧
        store.update codec mutate writing = ({ store with disk }, .error .notWritten)) ∨
      ∃ next disk, mutate store.state = .ok next ∧
        disk meshFile = some { bytes := codec.encode next, synced := true } ∧
        store.update codec mutate writing =
          ({ disk, state := next, peers := store.peers.sync next }, .ok ()) := by
  unfold update written
  cases made : mutate store.state with
  | error failure => exact Or.inl ⟨failure, rfl, rfl⟩
  | ok next =>
    right
    by_cases still : next = store.state
    · left
      subst still
      exact ⟨rfl, by simp⟩
    · right
      dsimp only
      rw [if_neg still, if_neg still]
      by_cases short : writing.done < (writePrivate codec writing.pieces next).length
      · left
        rw [if_pos short]
        refine ⟨_, ?_, rfl⟩
        exact Replacing.replacing_cut store.disk meshTemporary meshFile files_apart _ _ short
      · right
        rw [if_neg short]
        refine ⟨next, _, rfl, ?_, rfl⟩
        have whole := Replacing.replacing_whole store.disk meshTemporary meshFile
          (Replacing.inPieces writing.pieces (codec.encode next)) writing.done (not_lt.mp short)
        rw [Replacing.flatten_inPieces] at whole
        exact whole

/-- Of the state alone, a call is what it is where only the state is looked at. A write that fails
is a save that fails, and a change that changes nothing saves nothing. -/
theorem update_state (mutate : Mutate Id) (writing : Writing) (store : MeshStore Id) :
    ∃ saves, (store.update codec mutate writing).1.state = store.state.update saves mutate := by
  obtain ⟨failure, made, refused⟩ | ⟨same, nothing⟩ | ⟨disk, left, failed⟩ |
    ⟨next, disk, made, wrote, changed⟩ := update_cases codec mutate writing store
  · exact ⟨false, by rw [refused, MeshState.update, made]⟩
  · exact ⟨false, by rw [nothing, MeshState.update, same]; simp⟩
  · refine ⟨false, ?_⟩
    rw [failed, MeshState.update]
    cases mutate store.state with
    | error failure => rfl
    | ok next => simp
  · refine ⟨true, ?_⟩
    rw [changed, MeshState.update, made]
    by_cases still : next = store.state
    · simp [still]
    · simp [still]

section Laws
variable (roundTrip : ∀ state, codec.decode (codec.encode state) = some (state, []))
include roundTrip

/-- Cut off anywhere, a change leaves the state it found on disk, or the one it makes. Before the
rename the crash leaves the file that was there, and after it the one that was written and synced
first. -/
theorem written_atomic (mutate : Mutate Id) (writing : Writing) (store : MeshStore Id)
    (kept : Kept codec store) (lost : String → Bytes) :
    let disk := store.written codec mutate writing
    Replacing.Settled disk meshFile ∧
      (load codec (Replacing.crash lost disk) = some store.state ∨
        ∃ next, mutate store.state = .ok next ∧
          load codec (Replacing.crash lost disk) = some next) := by
  intro disk
  have unchanged : Replacing.Settled store.disk meshFile ∧
      load codec (Replacing.crash lost store.disk) = some store.state := by
    refine ⟨kept.settled, ?_⟩
    rw [← kept.agrees.saved]
    apply load_congr
    rw [Replacing.read, Replacing.crash_settled lost store.disk meshFile kept.settled, Replacing.read]
  cases made : mutate store.state with
  | error failure =>
    have same : disk = store.disk := by simp only [disk, written, made]
    rw [same]
    exact ⟨unchanged.1, Or.inl unchanged.2⟩
  | ok next =>
    by_cases still : next = store.state
    · have same : disk = store.disk := by simp only [disk, written, made, if_pos still]
      rw [same]
      exact ⟨unchanged.1, Or.inl unchanged.2⟩
    · have cut : disk = Replacing.performAll store.disk
          ((writePrivate codec writing.pieces next).take writing.done) := by
        simp only [disk, written, made, if_neg still]
      obtain ⟨settled, contents⟩ := Replacing.replacing_atomic store.disk meshTemporary meshFile
        files_apart kept.settled (Replacing.inPieces writing.pieces (codec.encode next))
        writing.done lost
      rw [cut]
      refine ⟨settled, ?_⟩
      obtain old | new := contents
      · left
        rw [← kept.agrees.saved]
        exact load_congr codec _ _ old
      · right
        refine ⟨next, rfl, ?_⟩
        rw [Replacing.flatten_inPieces] at new
        rw [load, writePrivate, new]
        simp only [roundTrip]

/-- A call keeps what a run keeps, and answers an error only where it has changed nothing. The
four outcomes of a call: refused, nothing to change, failed at the file, and written. Only the
last changes the state, and the tasks follow it by `sync`. -/
theorem update_spec (mutate : Mutate Id) (writing : Writing) (store : MeshStore Id)
    (kept : Kept codec store) :
    let after := (store.update codec mutate writing).1
    let answer := (store.update codec mutate writing).2
    Kept codec after ∧ KeepsTasks store after ∧
      (answer = .ok () → mutate store.state = .ok after.state) ∧
      (∀ failure, answer = .error failure → after.state = store.state ∧ after.peers = store.peers ∧
        load codec after.disk = load codec store.disk) := by
  intro after answer
  have stays : KeepsTasks store store := by
    intro id alive _
    have named : (store.peers.nameOf id).isSome = true := by rw [kept.agrees.named, alive]
    rw [PeerSet.nameOf, Option.isSome_map, Option.isSome_iff_exists] at named
    obtain ⟨handle, held⟩ := named
    have had : store.peers.taskOf id = some handle.task := by rw [PeerSet.taskOf, held]; rfl
    exact ⟨handle.task, had, had⟩
  obtain ⟨failure, _, refused⟩ | ⟨same, nothing⟩ | ⟨disk, left, failed⟩ |
    ⟨next, disk, made, wrote, changed⟩ := update_cases codec mutate writing store
  · have unchanged : after = store := congrArg Prod.fst refused
    have answered : answer = .error (.refused failure) := congrArg Prod.snd refused
    rw [unchanged, answered]
    refine ⟨kept, stays, ?_, fun _ _ => ⟨rfl, rfl, rfl⟩⟩
    intro impossible
    cases impossible
  · have unchanged : after = store := congrArg Prod.fst nothing
    have answered : answer = .ok () := congrArg Prod.snd nothing
    rw [unchanged, answered]
    refine ⟨kept, stays, fun _ => same, ?_⟩
    intro failure impossible
    cases impossible
  · have moved : after = { store with disk } := congrArg Prod.fst failed
    have answered : answer = .error .notWritten := congrArg Prod.snd failed
    have reads : load codec disk = load codec store.disk := by
      apply load_congr
      rw [Replacing.read, Replacing.read, left]
    have settled : Replacing.Settled disk meshFile := by
      intro file held
      exact kept.settled file (left.symm.trans held)
    rw [moved, answered]
    refine ⟨⟨⟨reads.trans kept.agrees.saved, kept.agrees.named, kept.agrees.tended⟩, settled⟩,
      stays, ?_, ?_⟩
    · intro impossible
      cases impossible
    · intro _ _
      exact ⟨rfl, rfl, reads⟩
  · have moved : after = { disk, state := next, peers := store.peers.sync next } :=
      congrArg Prod.fst changed
    have answered : answer = .ok () := congrArg Prod.snd changed
    obtain ⟨tended, named, tasks⟩ := PeerSet.sync_spec next store.peers kept.agrees.tended
    have reads : load codec disk = some next := by
      have contents : Replacing.read disk meshFile = some (codec.encode next) := by
        rw [Replacing.read, wrote]
        rfl
      rw [load, contents]
      simp only [roundTrip]
    have settled : Replacing.Settled disk meshFile := by
      intro file held
      obtain rfl := Option.some.inj (wrote.symm.trans held)
      rfl
    rw [moved, answered]
    refine ⟨⟨⟨reads, named, tended⟩, settled⟩, ?_, ?_, ?_⟩
    · intro id before now
      obtain ⟨task, had, _⟩ := stays id before before
      exact ⟨task, had, tasks id task now had⟩
    · intro _
      exact made
    · intro failure impossible
      cases impossible

/-- A step keeps what a run keeps. -/
theorem step_kept (store : MeshStore Id) (label : Label Id) (next : MeshStore Id)
    (kept : Kept codec store) (taken : store.step codec label = some next) : Kept codec next := by
  cases label with
  | update mutate writing =>
    obtain rfl := Option.some.inj taken
    exact (update_spec codec roundTrip mutate writing store kept).1
  | crash mutate writing lost =>
    exact opened_kept codec _ next (Replacing.settled_crash lost _ meshFile) taken

/-- Disk, memory and connections agree on who is in the mesh. Whatever is called in
whatever order, refused, failing to save or cut off by a crash: after every call the file,
the watched state and the running tasks are about the same machines; a call that answers
an error has changed none of them; who stays keeps their task; and a crash in a call leaves
the file with the whole state from before or after it. -/
theorem disk_memory_and_tasks_agree (files : String → Option Bytes) (first store : MeshStore Id)
    (labels : List (Label Id)) (starts : opened codec (Replacing.atRest files) = some first)
    (reached : Runs.run (step codec) first labels = some store) :
    Agrees codec store ∧
      ∀ mutate writing,
        let after := (store.update codec mutate writing).1
        let answer := (store.update codec mutate writing).2
        Agrees codec after ∧ KeepsTasks store after ∧
          (answer = .ok () → mutate store.state = .ok after.state) ∧
          (∀ failure, answer = .error failure →
            after.state = store.state ∧ after.peers = store.peers ∧
              load codec after.disk = load codec store.disk) ∧
          ∀ lost, let disk := Replacing.crash lost (store.written codec mutate writing)
            load codec disk = some store.state ∨
              ∃ next, mutate store.state = .ok next ∧ load codec disk = some next := by
  have opens := opened_kept codec _ first (Replacing.atRest_settled files meshFile) starts
  have kept : Kept codec store :=
    Runs.run_invariant (step codec) (Kept codec)
      (fun state label next held taken => step_kept codec roundTrip state label next held taken)
      first store labels opens reached
  refine ⟨kept.agrees, ?_⟩
  intro mutate writing
  obtain ⟨after, tasks, answered, failed⟩ := update_spec codec roundTrip mutate writing store kept
  refine ⟨after.agrees, tasks, answered, failed, ?_⟩
  intro lost
  exact (written_atomic codec roundTrip mutate writing store kept lost).2

end Laws

/-- A mesh of numbered machines, as it is saved. -/
def savedJson : Wire.Codec (MeshState Nat) where
  encode := (meshJson numberedJson).encode
  decode := (meshJson numberedJson).decode

/-- A machine is paired, its removal fails to be saved, and the daemon stops while it
writes the removal again. It comes back with the machine, and agrees with its file. -/
theorem disk_memory_and_tasks_agree_after_a_crash :
    ∃ first store : MeshStore Nat, opened savedJson (Replacing.atRest (fun _ => none)) = some first ∧
      Runs.run (step savedJson) first
        [.update (MeshState.addPaired 1 "desk") { pieces := [], done := 4 },
          .update (MeshState.removePeer 1) { pieces := [30], done := 2 },
          .crash (MeshState.removePeer 1) { pieces := [30], done := 3 } (fun _ => [123])] =
            some store ∧
      store.state.peerName 1 = some "desk" ∧ Agrees savedJson store := by
  have observed : (opened savedJson (Replacing.atRest (fun _ => none))).any (fun first =>
      (Runs.run (step savedJson) first
        [.update (MeshState.addPaired 1 "desk") { pieces := [], done := 4 },
          .update (MeshState.removePeer 1) { pieces := [30], done := 2 },
          .crash (MeshState.removePeer 1) { pieces := [30], done := 3 } (fun _ => [123])]).any
        (fun store => decide (store.state.peerName 1 = some "desk"))) = true := by
    decide +kernel
  obtain ⟨first, starts, ran⟩ := (Option.any_eq_true _ _).mp observed
  obtain ⟨store, reached, named⟩ := (Option.any_eq_true _ _).mp ran
  refine ⟨first, store, starts, reached, of_decide_eq_true named, ?_⟩
  exact (disk_memory_and_tasks_agree savedJson (meshJson numberedJson).reads_alone
    (fun _ => none) first store _ starts reached).1

end MeshStore

end Yank
