import Yank.Echoes
import Yank.LaidOut
import Yank.Lifetimes

/-!
# Waiting for the files of a clip

Whoever asks where the clip's files are is told once they are laid out, and waits for that up
to a deadline. It registers for the announcement first and looks after that. In between, and
while it waits, clips come and go, lifetimes run out, and fetches lay out their trees and
announce them; laying a tree out and announcing it are two steps.

A registration that was made after so many announcements is woken by the next one. Whoever waits
without one to come waits for files that are not here.
-/

namespace Yank

/-- Why there is nothing to say of the files of the clip. -/
inductive LocateFailure where
  /-- The clipboard is empty. -/
  | empty
  /-- The clipboard names no file. -/
  | namesNoFile
  /-- The files were copied here; they are where they always were. -/
  | copiedHere
  /-- The clipboard changed meanwhile. -/
  | changed
deriving DecidableEq

/-- Where the clip's files are. -/
structure Located (Hash : Type) where
  files : List (Files.FileRef Hash)
  /-- The tree they are laid out in, `none` while they are still on their way. -/
  tree : Option Path
deriving DecidableEq

/-- Where a caller of `located` is at. -/
inductive LocatePhase (Id Hash : Type) where
  | idle
  /-- At the top of the loop. -/
  | asking (stamp : Stamp Id) (files : List (Files.FileRef Hash))
  /-- Registered after so many announcements. -/
  | registered (stamp : Stamp Id) (files : List (Files.FileRef Hash)) (seen : Nat)
  | waiting (stamp : Stamp Id) (files : List (Files.FileRef Hash)) (seen : Nat)
  | answered (answer : Except LocateFailure (Located Hash))

/-- The clipboard, and everyone who asks for its files. -/
structure Locating (Caller Id Hash : Type) where
  board : Clipboard Id Hash
  /-- The fetches that were asked for. -/
  fetches : List (Stamp Id)
  /-- The trees that became the clip's. -/
  laid : List (Stamp Id × Path)
  /-- How many trees were handed over and are yet to be announced. -/
  announcing : Nat
  /-- How many announcements there were. -/
  arrived : Nat
  phase : Caller → LocatePhase Id Hash

/-- What happens next. -/
inductive LocatingLabel (Caller Id Hash : Type) where
  /-- Anything but a tree that is handed over, or a restart. -/
  | change (event : Clipboard.Event Id Hash)
  | materialized (stamp : Stamp Id) (tree : Path)
  | announce
  | locate (caller : Caller)
  | register (caller : Caller)
  | look (caller : Caller)
  /-- The announcement it waits for has come. -/
  | wake (caller : Caller)
  /-- The deadline passes, and it has not. -/
  | expire (caller : Caller)

namespace Locating

variable {Caller Id Hash : Type} [DecidableEq Caller] [LinearOrder Id] [ContentHash Hash]
  [DecidableEq Hash]

/-- A machine that has just started. -/
def start (clock : Clock) (origin : Id) (settings : Settings) (saved : Option (Clip Id Hash)) :
    Locating Caller Id Hash where
  board := .new clock origin settings saved
  fetches := []
  laid := []
  announcing := 0
  arrived := 0
  phase _ := .idle

/-- Has a caller go on. -/
def goes (caller : Caller) (phase : LocatePhase Id Hash) (state : Locating Caller Id Hash) :
    Locating Caller Id Hash :=
  { state with phase := Function.update state.phase caller phase }

/-- The files to look for: those of the clip, if it names any and is of another machine. -/
def sought (board : Clipboard Id Hash) :
    Except LocateFailure (Stamp Id × List (Files.FileRef Hash)) :=
  match board.current with
  | none => .error .empty
  | some (stamp, copy) =>
      if !copy.isFiles then .error .namesNoFile
      else if board.isOurs then .error .copiedHere
      else .ok (stamp, copy.files)

/-- Says where the files are, or asks for them and waits. -/
def look (caller : Caller) (stamp : Stamp Id) (files : List (Files.FileRef Hash)) (seen : Nat)
    (state : Locating Caller Id Hash) : Locating Caller Id Hash :=
  if state.board.head ≠ stamp then goes caller (.answered (.error .changed)) state
  else match state.board.tree with
    | some tree => goes caller (.answered (.ok { files, tree := some tree })) state
    | none =>
        goes caller (.waiting stamp files seen) { state with fetches := state.fetches ++ [stamp] }

/-- One step of the clipboard, of a fetch or of a caller. -/
def step (state : Locating Caller Id Hash) :
    LocatingLabel Caller Id Hash → Option (Locating Caller Id Hash)
  | .change event =>
      match event with
      | .materialized _ _ => none
      | .restart _ _ => none
      | event => some { state with board := (state.board.step event).1 }
  | .materialized stamp tree =>
      some { state with
        board := (state.board.materialized stamp tree).1
        laid := if state.board.head = stamp then state.laid ++ [(stamp, tree)] else state.laid
        announcing := state.announcing + 1 }
  | .announce =>
      if state.announcing = 0 then none
      else some { state with
        announcing := state.announcing - 1
        arrived := state.arrived + 1 }
  | .locate caller =>
      match state.phase caller with
      | .idle =>
          match sought state.board with
          | .error failure => some (goes caller (.answered (.error failure)) state)
          | .ok (stamp, files) => some (goes caller (.asking stamp files) state)
      | _ => none
  | .register caller =>
      match state.phase caller with
      | .asking stamp files => some (goes caller (.registered stamp files state.arrived) state)
      | _ => none
  | .look caller =>
      match state.phase caller with
      | .registered stamp files seen => some (look caller stamp files seen state)
      | _ => none
  | .wake caller =>
      match state.phase caller with
      | .waiting stamp files seen =>
          if seen < state.arrived then some (goes caller (.asking stamp files) state) else none
      | _ => none
  | .expire caller =>
      match state.phase caller with
      | .waiting _ files seen =>
          if seen < state.arrived then none
          else some (goes caller (.answered (.ok { files, tree := none })) state)
      | _ => none

/-- The clip that a caller asked about, if it has no answer yet. -/
def about : LocatePhase Id Hash → Option (Stamp Id × List (Files.FileRef Hash))
  | .asking stamp files | .registered stamp files _ | .waiting stamp files _ => some (stamp, files)
  | .idle | .answered _ => none

/-- What is so of the clipboard while a caller is where it is. -/
def Attends (state : Locating Caller Id Hash) : LocatePhase Id Hash → Prop
  | .registered _ _ seen => seen ≤ state.arrived
  | .waiting stamp _ seen =>
      seen ≤ state.arrived ∧ stamp ∈ state.fetches ∧
        (seen = state.arrived → state.board.head = stamp → state.board.tree.isSome = true →
          0 < state.announcing)
  | .answered (.ok { files := _, tree := some tree }) => ∃ stamp, (stamp, tree) ∈ state.laid
  | _ => True

/-- Every caller is where it can be: whoever waits is woken for a tree that comes, and whoever
waits for the clip that is still there waits for its files. -/
structure Attended (state : Locating Caller Id Hash) : Prop where
  attends : ∀ caller, state.Attends (state.phase caller)
  asked : ∀ caller, ∀ sought ∈ about (state.phase caller),
    ((sought.1 : Stamp Id) : WithBot (Stamp Id)) ≤ state.board.head ∧
      ∀ copy, state.board.current = some (sought.1, copy) → copy.files = sought.2
  laid : ∀ tree ∈ state.board.tree, ∃ stamp : Stamp Id, state.board.head = stamp ∧
    (stamp, tree) ∈ state.laid

section Attending
variable {state next : Locating Caller Id Hash}

omit [DecidableEq Caller] [LinearOrder Id] [ContentHash Hash] [DecidableEq Hash] in
/-- What the callers see of a step that is not theirs. The counts and the lists only grow, so a
caller that had seen as much has still; one that waits is woken by an announcement that is still
to come. -/
theorem Attends.kept (phase : LocatePhase Id Hash) (attends : state.Attends phase)
    (arrived : state.arrived ≤ next.arrived) (fetches : state.fetches <+: next.fetches)
    (laid : state.laid <+: next.laid)
    (woken : ∀ stamp : Stamp Id, state.arrived = next.arrived → next.board.head = stamp →
      next.board.tree.isSome = true →
        (state.board.head = stamp ∧ state.board.tree.isSome = true ∧
          state.announcing = next.announcing) ∨ 0 < next.announcing) :
    next.Attends phase := by
  match phase with
  | .registered stamp files seen => exact attends.trans arrived
  | .waiting stamp files seen =>
    obtain ⟨before, asked, announced⟩ := attends
    refine ⟨before.trans arrived, fetches.subset asked, ?_⟩
    intro current head tree
    have same : state.arrived = next.arrived := le_antisymm arrived (current ▸ before)
    obtain ⟨held, there, going⟩ | coming := woken stamp same head tree
    · rw [← going]
      exact announced (current.trans same.symm) held there
    · exact coming
  | .answered (.ok { files := _, tree := some tree }) =>
    obtain ⟨stamp, member⟩ := attends
    exact ⟨stamp, laid.subset member⟩
  | .answered (.ok { files := _, tree := none }) => trivial
  | .answered (.error _) => trivial
  | .idle => trivial
  | .asking _ _ => trivial

omit [ContentHash Hash] [DecidableEq Hash] in
/-- What is sought is the clip. -/
theorem sought_spec (board : Clipboard Id Hash) (stamp : Stamp Id)
    (files : List (Files.FileRef Hash)) (found : sought board = .ok (stamp, files)) :
    ∃ copy, board.current = some (stamp, copy) ∧ copy.files = files := by
  rw [sought] at found
  split at found
  case h_1 => cases found
  case h_2 held copy current =>
    split at found
    case isTrue => cases found
    case isFalse =>
      split at found
      case isTrue => cases found
      case isFalse =>
        obtain ⟨rfl, rfl⟩ := Prod.mk.inj (Except.ok.inj found)
        exact ⟨copy, current, rfl⟩

omit [ContentHash Hash] [DecidableEq Hash] in
/-- A caller goes on, and nothing that the others see of the clipboard changes. The others attend
as they did, since the board and the announcements are the same and the fetches only grow. -/
theorem Attended.goes (attended : state.Attended) (caller : Caller) (phase : LocatePhase Id Hash)
    (fetches : List (Stamp Id)) (more : state.fetches <+: fetches)
    (attends : ({ state with fetches } : Locating Caller Id Hash).Attends phase)
    (asked : ∀ sought ∈ about phase, sought ∈ about (state.phase caller) ∨
      Locating.sought state.board = .ok sought) :
    (Locating.goes caller phase { state with fetches }).Attended where
  attends other := by
    rw [Locating.goes]
    dsimp only
    rw [Function.update_apply]
    split
    · exact attends.kept _ le_rfl (List.prefix_refl _) (List.prefix_refl _)
        fun stamp _ head tree => .inl ⟨head, tree, rfl⟩
    · exact (attended.attends other).kept _ le_rfl more (List.prefix_refl _)
        fun stamp _ head tree => .inl ⟨head, tree, rfl⟩
  asked other := by
    rw [Locating.goes]
    dsimp only
    rw [Function.update_apply]
    split
    · intro sought member
      obtain before | found := asked sought member
      · exact attended.asked caller sought before
      · obtain ⟨copy, current, files⟩ := sought_spec state.board sought.1 sought.2 found
        refine ⟨(Clipboard.head_of_current _ _ copy current).ge, fun held same => ?_⟩
        obtain ⟨_, rfl⟩ := Prod.mk.inj (Option.some.inj (current.symm.trans same))
        exact files
    · exact attended.asked other
  laid := attended.laid

end Attending

/-- One caller waits, another looks between the tree's coming and its being announced, and the
first is woken and registers once more. -/
def landing : List (LocatingLabel (Fin 2) Nat Bytes) :=
  [.change (.accept (Aging.readAt 5000000) Clipboard.referencesClip), .locate 0, .register 0,
    .look 0, .locate 1, .register 1, .materialized Clipboard.referencesClip.stamp [47, 116],
    .look 1, .announce, .wake 0, .register 0]

end Locating

end Yank
