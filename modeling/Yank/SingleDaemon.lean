import Yank.Runs

/-!
# One daemon at a time

A daemon loads its identity, making one where there is none, reads the mesh, takes a lock,
binds its socket under another name, closes it to everyone else and moves it into place. It
leaves by removing the socket and then giving up the lock; a crash gives up the lock and
leaves everything else behind. Any number of daemons start, fail, stop and crash in any order.

Two things are read before the lock is taken. The identity is made by creating a file that must
not be there yet, so all daemons have the same one. The mesh may have been saved by another
daemon in between, and then the new one does not hold what is on disk.

Nor does the lock cover everything a daemon does. Nobody waits for the tasks that answer clients
and new connections, nor for a merge that has begun: they may still save the mesh of a daemon
that is closing, once the next one has the lock. Each save is one step, and who made it is
written down with it.
-/

namespace Yank

variable {Key State : Type}

/-- `identity.key`: it is created first and written then. -/
inductive IdentityFile (Key : Type) where
  | missing
  | incomplete
  | whole (key : Key)
deriving DecidableEq

/-- A socket file: whose it is, and whether it is closed to everyone else. -/
structure SocketFile where
  owner : Nat
  guarded : Bool
deriving DecidableEq

/-- How far `Server::bind` is once the lock is taken. -/
inductive BindStage where
  | clearing
  | binding
  | protecting
  | publishing
deriving DecidableEq

/-- What a daemon loaded. -/
structure Loaded (Key State : Type) where
  key : Key
  state : State
  /-- How many saves there had been of what it holds of the mesh when that was read, or saved by
  it. -/
  seen : Nat

/-- Who saved the mesh, and whether the lock had been given up by then. -/
structure Save where
  daemon : Nat
  late : Bool
deriving DecidableEq

/-- Where a daemon is at. Once it has the lock, it is noted how many saves there had been when
it took it. -/
inductive DaemonPhase (Key State : Type) where
  | absent
  /-- Found no identity. -/
  | keyless
  /-- Created the file that its new identity goes to. -/
  | making (key : Key)
  | keyed (key : Key)
  /-- Read the mesh. -/
  | loaded (held : Loaded Key State)
  | locked (held : Loaded Key State) (since : Nat) (stage : BindStage)
  | running (held : Loaded Key State) (since : Nat)
  /-- Removed its socket. -/
  | closing
  /-- Gave up the lock. What nobody waits for goes on. -/
  | leaving

/-- The directories that daemons share, and the daemons. -/
structure Startup (Key State : Type) where
  identity : IdentityFile Key
  /-- What is in `mesh.json`, and every save of it. -/
  mesh : State
  saves : List Save
  /-- Who holds the lock. -/
  lock : Option Nat
  /-- `yank.sock.tmp`. -/
  pending : Option SocketFile
  /-- `yank.sock`. -/
  socket : Option SocketFile
  daemons : Nat → DaemonPhase Key State

/-- What a daemon does. -/
inductive StartupLabel (Key State : Type) where
  /-- Reads its identity, if there is one that can be read. -/
  | identify (daemon : Nat)
  /-- Creates the file for a new one, unless another daemon was faster. -/
  | create (daemon : Nat) (key : Key)
  | write (daemon : Nat)
  | load (daemon : Nat)
  | lock (daemon : Nat)
  /-- The leftover of a daemon that failed is removed, or cannot be. -/
  | clear (daemon : Nat) (removes : Bool)
  | bind (daemon : Nat)
  | protect (daemon : Nat)
  | publish (daemon : Nat)
  | save (daemon : Nat) (state : State)
  | unlink (daemon : Nat)
  | release (daemon : Nat)
  | exit (daemon : Nat)
  /-- It crashes, or anything fails before its socket is in place. -/
  | fail (daemon : Nat)

namespace Startup

/-- Before any daemon: whatever is lying around, but no socket in place. -/
def start (identity : IdentityFile Key) (mesh : State) (pending : Option SocketFile) :
    Startup Key State where
  identity := identity
  mesh := mesh
  saves := []
  lock := none
  pending := pending
  socket := none
  daemons _ := .absent

/-- Has a daemon go on. -/
def goes (daemon : Nat) (phase : DaemonPhase Key State) (startup : Startup Key State) :
    Startup Key State :=
  { startup with daemons := Function.update startup.daemons daemon phase }

/-- A daemon goes, and the lock with it if it was its own. -/
def unlocks (daemon : Nat) (phase : DaemonPhase Key State) (startup : Startup Key State) :
    Startup Key State :=
  goes daemon phase
    { startup with lock := if startup.lock = some daemon then none else startup.lock }

/-- A daemon is gone. -/
def leaves (daemon : Nat) (startup : Startup Key State) : Startup Key State :=
  unlocks daemon .absent startup

/-- A daemon saves the mesh. -/
def saved (save : Save) (mesh : State) (startup : Startup Key State) : Startup Key State :=
  { startup with mesh, saves := startup.saves ++ [save] }

/-- One step of one daemon. -/
def step (startup : Startup Key State) : StartupLabel Key State → Option (Startup Key State)
  | .identify daemon =>
      match startup.daemons daemon with
      | .absent =>
          match startup.identity with
          | .missing => some (goes daemon .keyless startup)
          | .incomplete => some startup
          | .whole key => some (goes daemon (.keyed key) startup)
      | _ => none
  | .create daemon key =>
      match startup.daemons daemon with
      | .keyless =>
          match startup.identity with
          | .missing => some (goes daemon (.making key) { startup with identity := .incomplete })
          | _ => some (leaves daemon startup)
      | _ => none
  | .write daemon =>
      match startup.daemons daemon with
      | .making key => some (goes daemon (.keyed key) { startup with identity := .whole key })
      | _ => none
  | .load daemon =>
      match startup.daemons daemon with
      | .keyed key =>
          some (goes daemon
            (.loaded { key, state := startup.mesh, seen := startup.saves.length }) startup)
      | _ => none
  | .lock daemon =>
      match startup.daemons daemon with
      | .loaded held =>
          match startup.lock with
          | none =>
              some (goes daemon (.locked held startup.saves.length .clearing)
                { startup with lock := some daemon })
          -- Another daemon is already running.
          | some _ => some (leaves daemon startup)
      | _ => none
  | .clear daemon removes =>
      match startup.daemons daemon with
      | .locked held since .clearing =>
          some (goes daemon (.locked held since .binding)
            { startup with pending := if removes then none else startup.pending })
      | _ => none
  | .bind daemon =>
      match startup.daemons daemon with
      | .locked held since .binding =>
          match startup.pending with
          | none =>
              some (goes daemon (.locked held since .protecting)
                { startup with pending := some { owner := daemon, guarded := false } })
          -- The name is taken.
          | some _ => some (leaves daemon startup)
      | _ => none
  | .protect daemon =>
      match startup.daemons daemon with
      | .locked held since .protecting =>
          some (goes daemon (.locked held since .publishing)
            { startup with
              pending := startup.pending.map (fun file => { file with guarded := true }) })
      | _ => none
  | .publish daemon =>
      match startup.daemons daemon with
      | .locked held since .publishing =>
          some (goes daemon (.running held since)
            { startup with socket := startup.pending, pending := none })
      | _ => none
  | .save daemon state =>
      match startup.daemons daemon with
      | .running held since =>
          some (goes daemon (.running { held with state, seen := startup.saves.length + 1 } since)
            (saved { daemon, late := false } state startup))
      | .closing => some (goes daemon .closing (saved { daemon, late := false } state startup))
      | .leaving => some (goes daemon .leaving (saved { daemon, late := true } state startup))
      | _ => none
  | .unlink daemon =>
      match startup.daemons daemon with
      | .running _ _ => some (goes daemon .closing { startup with socket := none })
      | _ => none
  | .release daemon =>
      match startup.daemons daemon with
      | .closing => some (unlocks daemon .leaving startup)
      | _ => none
  | .exit daemon =>
      match startup.daemons daemon with
      | .leaving => some (leaves daemon startup)
      | _ => none
  | .fail daemon => some (leaves daemon startup)

/-- Everything one step can do, with what it takes for it. -/
inductive Took (startup : Startup Key State) :
    StartupLabel Key State → Startup Key State → Prop where
  | unidentified (daemon : Nat) (absent : startup.daemons daemon = .absent) :
      Took startup (.identify daemon) (goes daemon .keyless startup)
  | unreadable (daemon : Nat) : Took startup (.identify daemon) startup
  | identified (daemon : Nat) (key : Key) (absent : startup.daemons daemon = .absent)
      (whole : startup.identity = .whole key) :
      Took startup (.identify daemon) (goes daemon (.keyed key) startup)
  | created (daemon : Nat) (key : Key) (keyless : startup.daemons daemon = .keyless)
      (missing : startup.identity = .missing) :
      Took startup (.create daemon key)
        (goes daemon (.making key) { startup with identity := .incomplete })
  | wrote (daemon : Nat) (key : Key) (making : startup.daemons daemon = .making key) :
      Took startup (.write daemon)
        (goes daemon (.keyed key) { startup with identity := .whole key })
  | loaded (daemon : Nat) (key : Key) (keyed : startup.daemons daemon = .keyed key) :
      Took startup (.load daemon) (goes daemon
        (.loaded { key, state := startup.mesh, seen := startup.saves.length }) startup)
  | locked (daemon : Nat) (held : Loaded Key State)
      (loaded : startup.daemons daemon = .loaded held) (free : startup.lock = none) :
      Took startup (.lock daemon) (goes daemon (.locked held startup.saves.length .clearing)
        { startup with lock := some daemon })
  | cleared (daemon : Nat) (removes : Bool) (held : Loaded Key State) (since : Nat)
      (clearing : startup.daemons daemon = .locked held since .clearing) :
      Took startup (.clear daemon removes) (goes daemon (.locked held since .binding)
        { startup with pending := if removes then none else startup.pending })
  | bound (daemon : Nat) (held : Loaded Key State) (since : Nat)
      (binding : startup.daemons daemon = .locked held since .binding) :
      Took startup (.bind daemon) (goes daemon (.locked held since .protecting)
        { startup with pending := some { owner := daemon, guarded := false } })
  | closed (daemon : Nat) (held : Loaded Key State) (since : Nat)
      (protecting : startup.daemons daemon = .locked held since .protecting) :
      Took startup (.protect daemon) (goes daemon (.locked held since .publishing)
        { startup with
          pending := startup.pending.map (fun file => { file with guarded := true }) })
  | published (daemon : Nat) (held : Loaded Key State) (since : Nat)
      (publishing : startup.daemons daemon = .locked held since .publishing) :
      Took startup (.publish daemon) (goes daemon (.running held since)
        { startup with socket := startup.pending, pending := none })
  | savedRunning (daemon : Nat) (state : State) (held : Loaded Key State) (since : Nat)
      (running : startup.daemons daemon = .running held since) :
      Took startup (.save daemon state)
        (goes daemon (.running { held with state, seen := startup.saves.length + 1 } since)
          (saved { daemon, late := false } state startup))
  | savedClosing (daemon : Nat) (state : State) (closing : startup.daemons daemon = .closing) :
      Took startup (.save daemon state)
        (goes daemon .closing (saved { daemon, late := false } state startup))
  | savedLate (daemon : Nat) (state : State) (leaving : startup.daemons daemon = .leaving) :
      Took startup (.save daemon state)
        (goes daemon .leaving (saved { daemon, late := true } state startup))
  | unlinked (daemon : Nat) (held : Loaded Key State) (since : Nat)
      (running : startup.daemons daemon = .running held since) :
      Took startup (.unlink daemon) (goes daemon .closing { startup with socket := none })
  | released (daemon : Nat) (closing : startup.daemons daemon = .closing) :
      Took startup (.release daemon) (unlocks daemon .leaving startup)
  /-- It found another daemon faster, failed, or is through. -/
  | left (label : StartupLabel Key State) (daemon : Nat) :
      Took startup label (leaves daemon startup)

/-- A step does one of these things. The guards of the step are part of the cases, so that what
every step keeps is shown by going through them. -/
theorem step_took (startup next : Startup Key State) (label : StartupLabel Key State)
    (taken : step startup label = some next) : Took startup label next := by
  cases label with
  | identify daemon =>
    simp only [step] at taken
    split at taken
    case h_2 => cases taken
    case h_1 absent =>
      split at taken
      case h_1 =>
        cases taken
        exact .unidentified daemon absent
      case h_2 =>
        cases taken
        exact .unreadable daemon
      case h_3 key whole =>
        cases taken
        exact .identified daemon key absent whole
  | create daemon key =>
    simp only [step] at taken
    split at taken
    case h_2 => cases taken
    case h_1 keyless =>
      split at taken
      case h_1 missing =>
        cases taken
        exact .created daemon key keyless missing
      case h_2 =>
        cases taken
        exact .left _ daemon
  | write daemon =>
    simp only [step] at taken
    split at taken
    case h_2 => cases taken
    case h_1 key making =>
      cases taken
      exact .wrote daemon key making
  | load daemon =>
    simp only [step] at taken
    split at taken
    case h_2 => cases taken
    case h_1 key keyed =>
      cases taken
      exact .loaded daemon key keyed
  | lock daemon =>
    simp only [step] at taken
    split at taken
    case h_2 => cases taken
    case h_1 held loaded =>
      split at taken
      case h_1 free =>
        cases taken
        exact .locked daemon held loaded free
      case h_2 =>
        cases taken
        exact .left _ daemon
  | clear daemon removes =>
    simp only [step] at taken
    split at taken
    case h_2 => cases taken
    case h_1 held since clearing =>
      cases taken
      exact .cleared daemon removes held since clearing
  | bind daemon =>
    simp only [step] at taken
    split at taken
    case h_2 => cases taken
    case h_1 held since binding =>
      split at taken
      case h_1 =>
        cases taken
        exact .bound daemon held since binding
      case h_2 =>
        cases taken
        exact .left _ daemon
  | protect daemon =>
    simp only [step] at taken
    split at taken
    case h_2 => cases taken
    case h_1 held since protecting =>
      cases taken
      exact .closed daemon held since protecting
  | publish daemon =>
    simp only [step] at taken
    split at taken
    case h_2 => cases taken
    case h_1 held since publishing =>
      cases taken
      exact .published daemon held since publishing
  | save daemon state =>
    simp only [step] at taken
    split at taken
    case h_4 => cases taken
    case h_1 held since running =>
      cases taken
      exact .savedRunning daemon state held since running
    case h_2 closing =>
      cases taken
      exact .savedClosing daemon state closing
    case h_3 leaving =>
      cases taken
      exact .savedLate daemon state leaving
  | unlink daemon =>
    simp only [step] at taken
    split at taken
    case h_2 => cases taken
    case h_1 held since running =>
      cases taken
      exact .unlinked daemon held since running
  | release daemon =>
    simp only [step] at taken
    split at taken
    case h_2 => cases taken
    case h_1 closing =>
      cases taken
      exact .released daemon closing
  | exit daemon =>
    simp only [step] at taken
    split at taken
    case h_2 => cases taken
    case h_1 =>
      cases taken
      exact .left _ daemon
  | fail daemon =>
    cases taken
    exact .left _ daemon

/-- What is where the socket is bound, at each stage of binding it. -/
def BindStage.Fits (daemon : Nat) (pending : Option SocketFile) : BindStage → Prop
  | .clearing | .binding => True
  | .protecting => pending = some { owner := daemon, guarded := false }
  | .publishing => pending = some { owner := daemon, guarded := true }

/-- A daemon holds what is on disk, or others saved it since it was read. -/
structure Knows (mesh : State) (saves : List Save) (daemon : Nat) (held : Loaded Key State) :
    Prop where
  counted : held.seen ≤ saves.length
  fresh : held.seen = saves.length → held.state = mesh
  others : ∀ save ∈ saves.drop held.seen, save.daemon ≠ daemon

/-- Since a daemon took the lock, nobody else saved the mesh who had not given it up. -/
def Alone (saves : List Save) (daemon since : Nat) : Prop :=
  ∀ save ∈ saves.drop since, save.daemon ≠ daemon → save.late = true

/-- What is so of the directories while a daemon is where it is. -/
def Fits (startup : Startup Key State) (daemon : Nat) : DaemonPhase Key State → Prop
  | .absent | .keyless | .making _ | .keyed _ | .leaving => startup.lock ≠ some daemon
  | .loaded held => startup.lock ≠ some daemon ∧ Knows startup.mesh startup.saves daemon held
  | .locked held since stage =>
      startup.lock = some daemon ∧ Knows startup.mesh startup.saves daemon held ∧
        Alone startup.saves daemon since ∧ BindStage.Fits daemon startup.pending stage
  | .running held since =>
      startup.lock = some daemon ∧ Knows startup.mesh startup.saves daemon held ∧
        Alone startup.saves daemon since ∧ startup.socket = some { owner := daemon, guarded := true }
  | .closing => startup.lock = some daemon

/-- Every daemon is where it can be, and no socket in place is open to others. -/
structure Arbitrated (startup : Startup Key State) : Prop where
  fits : ∀ daemon, startup.Fits daemon (startup.daemons daemon)
  guarded : ∀ file, startup.socket = some file → file.guarded = true

/-- What one daemon's step is to the others: the lock stays theirs or not theirs, the sockets
change with it only, and what is saved is written down. -/
structure Yields (daemon : Nat) (startup next : Startup Key State) : Prop where
  lock : ∀ other, other ≠ daemon → (next.lock = some other ↔ startup.lock = some other)
  pending : startup.lock = some daemon ∨ next.pending = startup.pending
  socket : startup.lock = some daemon ∨ next.socket = startup.socket
  saves : next.saves = startup.saves ∧ next.mesh = startup.mesh ∨
    ∃ save, next.saves = startup.saves ++ [save] ∧ save.daemon = daemon ∧
      (startup.lock = some daemon ∨ save.late = true)
  daemons : next.daemons = startup.daemons

section Yielding
variable {daemon other : Nat} {startup next : Startup Key State}

/-- What a daemon knows of the mesh stays so, or another saved it. Either nothing was saved
meanwhile, or the save that came last is another's. -/
theorem Yields.knows (yields : Yields daemon startup next) (apart : other ≠ daemon)
    (held : Loaded Key State) (knows : Knows startup.mesh startup.saves other held) :
    Knows next.mesh next.saves other held := by
  obtain ⟨counted, fresh, others⟩ := knows
  obtain ⟨saves, mesh⟩ | ⟨save, saves, saver, _⟩ := yields.saves
  · rw [saves, mesh]
    exact ⟨counted, fresh, others⟩
  · refine ⟨?_, ?_, ?_⟩
    · rw [saves, List.length_append]
      exact counted.trans (Nat.le_add_right _ _)
    · rw [saves, List.length_append, List.length_singleton]
      intro current
      omega
    · rw [saves, List.drop_append_of_le_length counted]
      refine List.forall_mem_append.mpr ⟨others, List.forall_mem_singleton.mpr ?_⟩
      rw [saver]
      exact apart.symm

/-- Whoever has the lock stays alone with it. -/
theorem Yields.alone (yields : Yields daemon startup next) (theirs : startup.lock ≠ some daemon)
    (since : Nat) (alone : Alone startup.saves other since) : Alone next.saves other since := by
  intro save member foreign
  obtain ⟨saves, _⟩ | ⟨last, saves, _, locked⟩ := yields.saves
  · rw [saves] at member
    exact alone save member foreign
  · rw [saves, List.drop_append] at member
    obtain before | added := List.mem_append.mp member
    · exact alone save before foreign
    · obtain rfl := List.mem_singleton.mp (List.mem_of_mem_drop added)
      exact locked.resolve_left theirs

/-- The others stay where they can be. What a stage says of the lock is said of that daemon alone,
so it stands while only another one takes or leaves it. -/
theorem Yields.fits (yields : Yields daemon startup next) (apart : other ≠ daemon)
    (phase : DaemonPhase Key State) (fits : startup.Fits other phase) : next.Fits other phase := by
  have lock := yields.lock other apart
  have others : startup.lock = some other → startup.lock ≠ some daemon := by
    rintro theirs ours
    exact apart (Option.some.inj (theirs.symm.trans ours))
  cases phase with
  | absent => exact fun theirs => fits (lock.mp theirs)
  | keyless => exact fun theirs => fits (lock.mp theirs)
  | making key => exact fun theirs => fits (lock.mp theirs)
  | keyed key => exact fun theirs => fits (lock.mp theirs)
  | loaded held =>
    obtain ⟨unlocked, knows⟩ := fits
    exact ⟨fun theirs => unlocked (lock.mp theirs), yields.knows apart held knows⟩
  | locked held since stage =>
    obtain ⟨theirs, knows, alone, bound⟩ := fits
    have kept := others theirs
    refine ⟨lock.mpr theirs, yields.knows apart held knows, yields.alone kept since alone, ?_⟩
    rw [yields.pending.resolve_left kept]
    exact bound
  | running held since =>
    obtain ⟨theirs, knows, alone, served⟩ := fits
    have kept := others theirs
    refine ⟨lock.mpr theirs, yields.knows apart held knows, yields.alone kept since alone, ?_⟩
    rw [yields.socket.resolve_left kept]
    exact served
  | closing => exact lock.mpr fits
  | leaving => exact fun theirs => fits (lock.mp theirs)

/-- A daemon that goes on is the only one that does. -/
theorem goes_daemons (phase : DaemonPhase Key State) :
    (goes daemon phase startup).daemons = Function.update startup.daemons daemon phase := rfl

/-- Where the daemons are says nothing about the directories. -/
theorem goes_fits_iff (phase asked : DaemonPhase Key State) :
    (goes daemon phase startup).Fits other asked ↔ startup.Fits other asked := by
  cases asked <;> rfl

/-- A daemon goes on to where it can be, and the others do not notice. -/
theorem Arbitrated.goes (arbitrated : startup.Arbitrated) (yields : Yields daemon startup next)
    (phase : DaemonPhase Key State) (fits : next.Fits daemon phase)
    (guarded : ∀ file, next.socket = some file → file.guarded = true) :
    (goes daemon phase next).Arbitrated where
  fits other := by
    rw [goes_fits_iff]
    by_cases same : other = daemon
    · subst same
      rwa [goes_daemons, Function.update_self]
    · rw [goes_daemons, Function.update_of_ne same, yields.daemons]
      exact yields.fits same _ (arbitrated.fits other)
  guarded := guarded

/-- The identity is nobody's: whoever has not loaded one yet may make it. -/
theorem Yields.identity (daemon : Nat) (startup : Startup Key State)
    (identity : IdentityFile Key) : Yields daemon startup { startup with identity } where
  lock _ _ := Iff.rfl
  pending := .inr rfl
  socket := .inr rfl
  saves := .inl ⟨rfl, rfl⟩
  daemons := rfl

/-- The others notice nothing of a step that leaves the directories alone. -/
theorem Yields.same (daemon : Nat) (startup : Startup Key State) :
    Yields daemon startup startup :=
  Yields.identity daemon startup startup.identity

/-- The sockets are whoever's the lock is. -/
theorem Yields.holder (ours : startup.lock = some daemon) (pending socket : Option SocketFile) :
    Yields daemon startup { startup with pending, socket } where
  lock _ _ := Iff.rfl
  pending := .inl ours
  socket := .inl ours
  saves := .inl ⟨rfl, rfl⟩
  daemons := rfl

/-- The mesh is saved with the lock, or late. -/
theorem Yields.saved (late : Bool) (locked : startup.lock = some daemon ∨ late = true)
    (mesh : State) : Yields daemon startup (startup.saved { daemon, late } mesh) where
  lock _ _ := Iff.rfl
  pending := .inr rfl
  socket := .inr rfl
  saves := .inr ⟨{ daemon, late }, rfl, rfl, locked⟩
  daemons := rfl

/-- A daemon that goes takes nothing but its own lock with it. The lock of another daemon stays
where it is, and the socket is bound by nobody new. -/
theorem Arbitrated.unlocks (arbitrated : startup.Arbitrated) (daemon : Nat)
    (phase : DaemonPhase Key State)
    (fits : ∀ next : Startup Key State, next.lock ≠ some daemon → next.Fits daemon phase) :
    (startup.unlocks daemon phase).Arbitrated := by
  refine arbitrated.goes ?_ phase (fits _ ?_) arbitrated.guarded
  · refine { Yields.same daemon startup with lock := ?_ }
    intro other apart
    dsimp only
    split
    case isTrue ours =>
      rw [ours]
      simp [Ne.symm apart]
    case isFalse => rfl
  · dsimp only
    split
    case isTrue => simp
    case isFalse free => exact free

/-- Nor does one that is gone. -/
theorem Arbitrated.leaves (arbitrated : startup.Arbitrated) (daemon : Nat) :
    (startup.leaves daemon).Arbitrated :=
  arbitrated.unlocks daemon .absent fun _ free => free

end Yielding

/-- The identity that a daemon has on disk. -/
def keyOf : DaemonPhase Key State → Option Key
  | .keyed key => some key
  | .loaded held | .locked held _ _ | .running held _ => some held.key
  | _ => none

/-- The identity that a daemon is writing. -/
def madeOf : DaemonPhase Key State → Option Key
  | .making key => some key
  | _ => none

/-- Whoever has an identity has the one on disk, and only one daemon ever writes it. -/
structure Identified (startup : Startup Key State) : Prop where
  keyed : ∀ daemon, ∀ key ∈ keyOf (startup.daemons daemon), startup.identity = .whole key
  making : ∀ daemon, ∀ key ∈ madeOf (startup.daemons daemon), startup.identity = .incomplete
  maker : ∀ one other, (madeOf (startup.daemons one)).isSome = true →
    (madeOf (startup.daemons other)).isSome = true → one = other

section Identifying
variable {daemon : Nat} {startup next : Startup Key State}

/-- A daemon that makes no identity goes on with the one it has, or the one on disk. The other
daemons are where they were, and the file is as it was. -/
theorem Identified.goes (identified : startup.Identified) (phase : DaemonPhase Key State)
    (same : next.identity = startup.identity) (daemons : next.daemons = startup.daemons)
    (keyed : ∀ key ∈ keyOf phase, startup.identity = .whole key) (idle : madeOf phase = none) :
    (goes daemon phase next).Identified where
  keyed other key held := by
    change next.identity = _
    rw [goes_daemons, daemons, Function.update_apply] at held
    rw [same]
    split at held
    · exact keyed key held
    · exact identified.keyed other key held
  making other key held := by
    change next.identity = _
    rw [goes_daemons, daemons, Function.update_apply] at held
    rw [same]
    split at held
    · rw [idle] at held
      cases held
    · exact identified.making other key held
  maker one other made also := by
    rw [goes_daemons, daemons, Function.update_apply] at made also
    split at made
    · rw [idle] at made
      cases made
    · split at also
      · rw [idle] at also
        cases also
      · exact identified.maker one other made also

/-- A daemon that is gone takes no identity with it. -/
theorem Identified.leaves (identified : startup.Identified) (daemon : Nat) :
    (startup.leaves daemon).Identified :=
  identified.goes .absent rfl rfl (fun _ held => by cases held) rfl

/-- The daemon that made the file writes it. Nobody else is making one, and nobody has an identity
from a file that is incomplete. -/
theorem Identified.writes (identified : startup.Identified) (daemon : Nat) (key : Key)
    (making : startup.daemons daemon = .making key) :
    (Startup.goes daemon (.keyed key) { startup with identity := .whole key }).Identified := by
  have maker : (madeOf (startup.daemons daemon)).isSome = true := by
    rw [making]
    rfl
  have incomplete : startup.identity = .incomplete :=
    identified.making daemon key (by rw [making]; rfl)
  have alone : ∀ other, other ≠ daemon → madeOf (startup.daemons other) = none := by
    intro other apart
    rw [← Option.not_isSome_iff_eq_none]
    exact fun made => apart (identified.maker other daemon made maker)
  constructor
  · intro other held known
    rw [goes_daemons, Function.update_apply] at known
    split at known
    · cases known
      rfl
    · have whole := identified.keyed other held known
      rw [incomplete] at whole
      cases whole
  · intro other held known
    rw [goes_daemons, Function.update_apply] at known
    split at known
    case isTrue => cases known
    case isFalse apart =>
      rw [alone other apart] at known
      cases known
  · intro one other made also
    rw [goes_daemons, Function.update_apply] at made
    split at made
    case isTrue => cases made
    case isFalse apart =>
      rw [alone one apart] at made
      cases made

end Identifying

/-- It has the lock. -/
def isPastLock : DaemonPhase Key State → Bool
  | .locked _ _ _ | .running _ _ | .closing => true
  | _ => false

/-- Whoever is past the lock has it. -/
theorem Fits.lock {startup : Startup Key State} {daemon : Nat} {phase : DaemonPhase Key State}
    (fits : startup.Fits daemon phase) (past : isPastLock phase = true) :
    startup.lock = some daemon := by
  cases phase with
  | locked held missed stage => exact fits.1
  | running held missed => exact fits.1
  | closing => exact fits
  | _ => cases past

/-- What a daemon that runs holds is on disk, unless another was the last to save it: before this
one took the lock, or after it had given the lock up itself. -/
theorem Fits.mesh {startup : Startup Key State} {daemon since : Nat} {held : Loaded Key State}
    (fits : startup.Fits daemon (.running held since)) : held.state = startup.mesh ∨
      ∃ save, startup.saves.getLast? = some save ∧ save.daemon ≠ daemon ∧
        held.seen < startup.saves.length ∧
          (startup.saves.length ≤ since ∨ save.late = true) := by
  obtain ⟨_, ⟨counted, fresh, others⟩, alone, _⟩ := fits
  obtain missed | current := Nat.lt_or_eq_of_le counted
  · right
    have saved : startup.saves ≠ [] := List.ne_nil_of_length_pos (Nat.zero_lt_of_lt missed)
    have last : ∀ dropped, dropped < startup.saves.length →
        startup.saves.getLast saved ∈ startup.saves.drop dropped := by
      intro dropped less
      have some_ : startup.saves.drop dropped ≠ [] := by
        rw [ne_eq, List.drop_eq_nil_iff]
        exact less.not_ge
      rw [← List.getLast_drop some_]
      exact List.getLast_mem some_
    have foreign := others _ (last held.seen missed)
    refine ⟨_, List.getLast?_eq_some_getLast saved, foreign, missed, ?_⟩
    obtain before | after := Nat.lt_or_ge since startup.saves.length
    · exact .inr (alone _ (last since before) foreign)
    · exact .inl after
  · exact .inl (fresh current)

/-- The steps of a daemon that starts with an identity on disk and nobody beside it. -/
def starting (daemon : Nat) : List (StartupLabel Key State) :=
  [.load daemon, .lock daemon, .clear daemon true, .bind daemon, .protect daemon,
    .publish daemon]

/-- Half an identity is on disk, and nobody is there to write the rest. -/
structure Stuck (startup : Startup Key State) : Prop where
  identity : startup.identity = .incomplete
  keyless : ∀ daemon, keyOf (startup.daemons daemon) = none
  idle : ∀ daemon, madeOf (startup.daemons daemon) = none

/-- A daemon without an identity, and that makes none, writes none. -/
theorem Stuck.goes {startup next : Startup Key State} (stuck : startup.Stuck) (daemon : Nat)
    (phase : DaemonPhase Key State) (same : next.identity = startup.identity)
    (daemons : next.daemons = startup.daemons) (keyless : keyOf phase = none)
    (idle : madeOf phase = none) : (goes daemon phase next).Stuck where
  identity := same.trans stuck.identity
  keyless other := by
    rw [goes_daemons, daemons, Function.update_apply]
    split
    · exact keyless
    · exact stuck.keyless other
  idle other := by
    rw [goes_daemons, daemons, Function.update_apply]
    split
    · exact idle
    · exact stuck.idle other

/-- Nor does one that is gone. -/
theorem Stuck.leaves {startup : Startup Key State} (stuck : startup.Stuck) (daemon : Nat) :
    (startup.leaves daemon).Stuck :=
  stuck.goes daemon .absent rfl rfl rfl rfl

end Startup

end Yank
