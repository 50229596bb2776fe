import Mathlib

/-!
# A file replaced as a whole

What was written to a file and not yet forced to the disk may be anything after a
crash. A file is replaced by writing a sibling, forcing that to the disk and giving it
the name. Renaming is one step: cut off anywhere, the name leads to what it led to
before or to all of the new contents.
-/

namespace Replacing

/-- What is in a file, and whether a crash leaves it. -/
structure File (Byte : Type) where
  bytes : List Byte
  synced : Bool

/-- The files of a directory. -/
abbrev Dir (Name Byte : Type) := Name → Option (File Byte)

/-- One thing done to the files of a directory. -/
inductive Action (Name Byte : Type) where
  /-- Opens a file for writing, created or emptied. -/
  | create (name : Name)
  | append (name : Name) (bytes : List Byte)
  | sync (name : Name)
  | rename (old new : Name)

variable {Name Byte : Type}

/-- What is under a name. -/
def read (dir : Dir Name Byte) (name : Name) : Option (List Byte) := (dir name).map File.bytes

/-- Files that have long been written. -/
def atRest (files : Name → Option (List Byte)) : Dir Name Byte :=
  fun name => (files name).map (fun bytes => { bytes, synced := true })

/-- What a crash leaves: what was not forced to the disk is lost. -/
def crash (lost : Name → List Byte) (dir : Dir Name Byte) : Dir Name Byte :=
  fun name => (dir name).map (fun file =>
    if file.synced then file else { bytes := lost name, synced := true })

/-- Whatever is under a name outlives a crash. -/
def Settled (dir : Dir Name Byte) (name : Name) : Prop :=
  ∀ file, dir name = some file → file.synced = true

/-- The names a step changes something under. -/
def Action.changes : Action Name Byte → List Name
  | .create name => [name]
  | .append name _ => [name]
  | .sync name => [name]
  | .rename old new => [old, new]

/-- Writes all of the pieces to a file and forces them to the disk. -/
def writing (name : Name) (pieces : List (List Byte)) : List (Action Name Byte) :=
  .create name :: (pieces.map (.append name) ++ [.sync name])

/-- Replaces what is under `name` by all of the pieces. -/
def replacing (temporary name : Name) (pieces : List (List Byte)) : List (Action Name Byte) :=
  writing temporary pieces ++ [.rename temporary name]

/-- Some bytes in pieces of the given lengths, and what is left. -/
def inPieces : List Nat → List Byte → List (List Byte)
  | [], bytes => [bytes]
  | count :: counts, bytes => bytes.take count :: inPieces counts (bytes.drop count)

/-- Nothing is lost between the pieces. -/
@[simp] theorem flatten_inPieces (counts : List Nat) (bytes : List Byte) :
    (inPieces counts bytes).flatten = bytes := by
  induction counts generalizing bytes with
  | nil => simp [inPieces]
  | cons count counts inductionHypothesis =>
    simp [inPieces, inductionHypothesis]

/-- Whatever lies on disk outlives a crash. -/
theorem atRest_settled (files : Name → Option (List Byte)) (name : Name) :
    Settled (atRest files) name := by
  intro file held
  obtain ⟨_, _, rfl⟩ := Option.map_eq_some_iff.mp held
  rfl

/-- A crash leaves what is settled. -/
theorem crash_settled (lost : Name → List Byte) (dir : Dir Name Byte) (name : Name)
    (settled : Settled dir name) : crash lost dir name = dir name := by
  unfold crash
  cases held : dir name with
  | none => rfl
  | some file => simp [settled file held]

/-- What a crash left outlives the next one. -/
theorem settled_crash (lost : Name → List Byte) (dir : Dir Name Byte) (name : Name) :
    Settled (crash lost dir) name := by
  intro file held
  obtain ⟨before, _, rfl⟩ := Option.map_eq_some_iff.mp held
  cases synced : before.synced <;> simp [synced]

variable [DecidableEq Name]

/-- Does one thing. -/
def perform (dir : Dir Name Byte) : Action Name Byte → Dir Name Byte
  | .create name => Function.update dir name (some { bytes := [], synced := false })
  | .append name bytes => Function.update dir name
      ((dir name).map (fun file => { bytes := file.bytes ++ bytes, synced := false }))
  | .sync name => Function.update dir name
      ((dir name).map (fun file => { file with synced := true }))
  | .rename old new =>
      match dir old with
      | none => dir
      | some file => Function.update (Function.update dir old none) new (some file)

/-- Does everything in turn. -/
def performAll (dir : Dir Name Byte) (actions : List (Action Name Byte)) : Dir Name Byte :=
  actions.foldl perform dir

/-- Steps after steps are steps. -/
theorem performAll_append (dir : Dir Name Byte) (early late : List (Action Name Byte)) :
    performAll dir (early ++ late) = performAll (performAll dir early) late :=
  List.foldl_append

/-- A step leaves every name it is not about. -/
theorem perform_elsewhere (dir : Dir Name Byte) (action : Action Name Byte) (name : Name)
    (apart : name ∉ action.changes) : perform dir action name = dir name := by
  cases action with
  | create other =>
    exact Function.update_of_ne (List.ne_of_not_mem_cons apart) _ _
  | append other bytes =>
    exact Function.update_of_ne (List.ne_of_not_mem_cons apart) _ _
  | sync other =>
    exact Function.update_of_ne (List.ne_of_not_mem_cons apart) _ _
  | rename old new =>
    have notOld : name ≠ old := List.ne_of_not_mem_cons apart
    have notNew : name ≠ new := List.ne_of_not_mem_cons (List.not_mem_of_not_mem_cons apart)
    cases held : dir old with
    | none => simp [perform, held]
    | some file => simp [perform, held, notNew, notOld]

/-- Steps that change nothing under a name leave what is there. -/
theorem performAll_elsewhere (dir : Dir Name Byte) (actions : List (Action Name Byte))
    (name : Name) (apart : ∀ action ∈ actions, name ∉ action.changes) :
    performAll dir actions name = dir name := by
  induction actions generalizing dir with
  | nil => rfl
  | cons action actions inductionHypothesis =>
    rw [List.forall_mem_cons] at apart
    have rest := inductionHypothesis (perform dir action) apart.2
    exact rest.trans (perform_elsewhere dir action name apart.1)

omit [DecidableEq Name] in
/-- Writing a file changes nothing under another name. -/
theorem writing_changes (name other : Name) (pieces : List (List Byte)) (apart : other ≠ name) :
    ∀ action ∈ (writing name pieces : List (Action Name Byte)), other ∉ action.changes := by
  intro action member
  have about : action.changes = [name] := by
    obtain rfl | later := List.mem_cons.mp member
    · rfl
    · obtain appended | last := List.mem_append.mp later
      · obtain ⟨piece, _, rfl⟩ := List.mem_map.mp appended
        rfl
      · obtain rfl := List.mem_singleton.mp last
        rfl
  rw [about, List.mem_singleton]
  exact apart

/-- What is appended is in the file, piece after piece. -/
theorem performAll_append_pieces (dir : Dir Name Byte) (name : Name) (pieces : List (List Byte))
    (bytes : List Byte) (synced : Bool) (held : dir name = some { bytes, synced }) :
    ∃ also, performAll dir (pieces.map (.append name)) name =
      some { bytes := bytes ++ pieces.flatten, synced := also } := by
  induction pieces generalizing dir bytes synced with
  | nil => exact ⟨synced, by simpa [performAll] using held⟩
  | cons piece pieces inductionHypothesis =>
    have appended : perform dir (.append name piece) name =
        some { bytes := bytes ++ piece, synced := false } := by
      simp [perform, held]
    obtain ⟨also, rest⟩ := inductionHypothesis _ _ _ appended
    refine ⟨also, ?_⟩
    rw [List.flatten_cons, ← List.append_assoc]
    exact rest

/-- A file that was written holds all of its pieces, past the reach of a crash. -/
theorem writing_writes (dir : Dir Name Byte) (name : Name) (pieces : List (List Byte)) :
    performAll dir (writing name pieces) name =
      some { bytes := pieces.flatten, synced := true } := by
  have created : perform dir (.create name) name = some { bytes := [], synced := false } := by
    simp [perform]
  obtain ⟨also, appended⟩ := performAll_append_pieces _ name pieces [] false created
  have opened : performAll dir (writing name pieces) =
      perform (performAll (perform dir (.create name)) (pieces.map (.append name))) (.sync name) := by
    rw [writing, ← List.singleton_append, performAll_append, performAll_append]
    rfl
  have forced (dir : Dir Name Byte) (bytes : List Byte) (held : dir name = some { bytes, synced := also }) :
      perform dir (.sync name) name = some { bytes, synced := true } := by
    simp [perform, held]
  rw [opened]
  exact forced _ _ appended

/-- Cut off before the end, a replacement has changed nothing under the name. -/
theorem replacing_cut (dir : Dir Name Byte) (temporary name : Name) (apart : name ≠ temporary)
    (pieces : List (List Byte)) (done : Nat)
    (short : done < (replacing temporary name pieces : List (Action Name Byte)).length) :
    performAll dir ((replacing temporary name pieces).take done) name = dir name := by
  have within : done ≤ (writing temporary pieces : List (Action Name Byte)).length := by
    rw [replacing, List.length_append, List.length_singleton] at short
    omega
  apply performAll_elsewhere
  intro action member
  rw [replacing, List.take_append_of_le_length within] at member
  exact writing_changes temporary name pieces apart action (List.mem_of_mem_take member)

/-- Carried out, a replacement leaves all of the new contents under the name. -/
theorem replacing_whole (dir : Dir Name Byte) (temporary name : Name)
    (pieces : List (List Byte)) (done : Nat)
    (all : (replacing temporary name pieces : List (Action Name Byte)).length ≤ done) :
    performAll dir ((replacing temporary name pieces).take done) name =
      some { bytes := pieces.flatten, synced := true } := by
  rw [List.take_of_length_le all, replacing, performAll_append]
  change perform _ (.rename temporary name) name = _
  have wrote := writing_writes dir temporary pieces
  generalize performAll dir (writing temporary pieces) = written at wrote ⊢
  simp [perform, wrote]

/-- Cut off anywhere, a replacement has left the name with the old or the new contents,
and a crash leaves them there. -/
theorem replacing_atomic (dir : Dir Name Byte) (temporary name : Name) (apart : name ≠ temporary)
    (settled : Settled dir name) (pieces : List (List Byte)) (done : Nat)
    (lost : Name → List Byte) :
    let cut := performAll dir ((replacing temporary name pieces).take done)
    Settled cut name ∧
      (read (crash lost cut) name = read dir name ∨
        read (crash lost cut) name = some pieces.flatten) := by
  intro cut
  have outcome : cut name = dir name ∨ cut name = some { bytes := pieces.flatten, synced := true } := by
    by_cases short : done < (replacing temporary name pieces : List (Action Name Byte)).length
    · exact Or.inl (replacing_cut dir temporary name apart pieces done short)
    · exact Or.inr (replacing_whole dir temporary name pieces done (not_lt.mp short))
  have kept : Settled cut name := by
    intro file held
    obtain old | new := outcome
    · exact settled file (old.symm.trans held)
    · obtain rfl := Option.some.inj (new.symm.trans held)
      rfl
  refine ⟨kept, ?_⟩
  rw [read, crash_settled lost cut name kept]
  obtain old | new := outcome
  · exact Or.inl (by rw [old, read])
  · exact Or.inr (by rw [new]; rfl)

end Replacing
