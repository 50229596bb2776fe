import Mathlib

/-!
# A directory of plain files

A directory leads names to files and a file has contents; a file keeps its
contents when its name goes, for whoever has it open. Creating, removing and
renaming change names, writing changes the contents of one file.

Every file here has one name. A directory is a structure that carries this, so
what a write changes is read back under one name and under no other.
-/

namespace Inodes

/-- A directory, and the contents of every file there ever was in it. A file is
named by its place in `contents`. -/
structure Dir (Name Byte : Type) where
  contents : List (List Byte)
  entries : Name → Option Nat
  names : Finset Name
  /-- The names are those that lead somewhere. -/
  listed : ∀ name, name ∈ names ↔ (entries name).isSome = true
  valid : ∀ name file, entries name = some file → file < contents.length
  apart : ∀ left right file, entries left = some file → entries right = some file → left = right

namespace Dir

variable {Name Byte : Type}

/-- The contents of a file. -/
def content (dir : Dir Name Byte) (file : Nat) : List Byte := dir.contents[file]?.getD []

/-- The contents under a name. -/
def read (dir : Dir Name Byte) (name : Name) : Option (List Byte) :=
  (dir.entries name).map dir.content

/-- A directory without files. -/
def empty : Dir Name Byte where
  contents := []
  entries _ := none
  names := ∅
  listed _ := by simp
  valid _ _ held := by cases held
  apart _ _ _ held := by cases held

/-- `bytes` in place of what stood at `offset`, and what stood past them. -/
def splice (offset : Nat) (bytes old : List Byte) : List Byte :=
  old.take offset ++ bytes ++ old.drop (offset + bytes.length)

/-- Writes to a file at an offset, named or not. -/
def writeAt (file offset : Nat) (bytes : List Byte) (dir : Dir Name Byte) : Dir Name Byte :=
  { dir with
    contents := dir.contents.modify file (splice offset bytes)
    valid := by
      intro name other held
      rw [List.length_modify]
      exact dir.valid name other held }

/-- Takes away every name that is not kept. -/
def retain (keep : Name → Bool) (dir : Dir Name Byte) : Dir Name Byte where
  contents := dir.contents
  entries name := if keep name then dir.entries name else none
  names := dir.names.filter (fun name => keep name)
  listed name := by
    cases kept : keep name <;> simp [kept, dir.listed name]
  valid name file held := by
    rw [Option.ite_none_right_eq_some] at held
    exact dir.valid name file held.2
  apart left right file leftHeld rightHeld := by
    rw [Option.ite_none_right_eq_some] at leftHeld rightHeld
    exact dir.apart left right file leftHeld.2 rightHeld.2

section Laws
variable (dir : Dir Name Byte) (name other : Name) (bytes : List Byte)

/-- What is not kept is gone, and nothing else is touched. -/
theorem read_retain (keep : Name → Bool) :
    (dir.retain keep).read name = if keep name then dir.read name else none := by
  change (if keep name then dir.entries name else none).map dir.content = _
  cases keep name <;> rfl

/-- A write is read under the name of the file it went to. -/
theorem read_writeAt_self (file offset : Nat) (held : dir.entries name = some file) :
    (dir.writeAt file offset bytes).read name = some (splice offset bytes (dir.content file)) := by
  have inside := dir.valid name file held
  change (dir.entries name).map (dir.writeAt file offset bytes).content = _
  simp [held, content, writeAt, List.getElem?_eq_getElem inside]

/-- A write to one file is read under no name that leads elsewhere. -/
theorem read_writeAt_of_ne (file offset : Nat) (elsewhere : dir.entries name ≠ some file) :
    (dir.writeAt file offset bytes).read name = dir.read name := by
  change (dir.entries name).map (dir.writeAt file offset bytes).content = _
  cases held : dir.entries name with
  | none => simp [read, held]
  | some lead =>
    have apart : ¬ file = lead := by
      rintro rfl
      exact elsewhere held
    simp [read, held, content, writeAt, apart]

/-- Only the file's own name leads to it. -/
theorem entries_ne (file : Nat) (held : dir.entries name = some file) (apart : other ≠ name) :
    dir.entries other ≠ some file := fun also => apart (dir.apart other name file also held)

/-- Writing at the end appends. -/
theorem splice_length (old : List Byte) : splice old.length bytes old = old ++ bytes := by
  simp [splice]

end Laws

variable [DecidableEq Name]

/-- A new file under a name. What stood there before loses the name. -/
def create (name : Name) (bytes : List Byte) (dir : Dir Name Byte) : Dir Name Byte where
  contents := dir.contents ++ [bytes]
  entries := Function.update dir.entries name (some dir.contents.length)
  names := insert name dir.names
  listed other := by
    by_cases same : other = name
    · simp [same]
    · simp [same, dir.listed other]
  valid other file held := by
    rw [List.length_append, List.length_singleton]
    by_cases same : other = name
    · subst same
      rw [Function.update_self] at held
      obtain rfl := Option.some.inj held
      exact Nat.lt_succ_self _
    · rw [Function.update_of_ne same] at held
      exact Nat.lt_succ_of_lt (dir.valid other file held)
  apart left right file leftHeld rightHeld := by
    have fresh : ∀ other, other ≠ name → dir.entries other ≠ some dir.contents.length := by
      intro other _ held
      exact absurd (dir.valid other _ held) (lt_irrefl _)
    by_cases leftSame : left = name
    · by_cases rightSame : right = name
      · rw [leftSame, rightSame]
      · rw [leftSame, Function.update_self] at leftHeld
        rw [Function.update_of_ne rightSame, ← leftHeld] at rightHeld
        exact absurd rightHeld (fresh right rightSame)
    · rw [Function.update_of_ne leftSame] at leftHeld
      by_cases rightSame : right = name
      · rw [rightSame, Function.update_self] at rightHeld
        rw [← rightHeld] at leftHeld
        exact absurd leftHeld (fresh left leftSame)
      · rw [Function.update_of_ne rightSame] at rightHeld
        exact dir.apart left right file leftHeld rightHeld

/-- Takes a name away. -/
def remove (name : Name) (dir : Dir Name Byte) : Dir Name Byte :=
  dir.retain (fun other => other ≠ name)

/-- Gives the file under a name another one, from which any other file goes. -/
def moveTo (file : Nat) (old new : Name) (dir : Dir Name Byte)
    (held : dir.entries old = some file) : Dir Name Byte where
  contents := dir.contents
  entries := Function.update (Function.update dir.entries old none) new (some file)
  names := insert new (dir.names.erase old)
  listed name := by
    by_cases isNew : name = new
    · simp [isNew]
    · by_cases isOld : name = old
      · subst isOld
        simp [isNew]
      · simp [isNew, isOld, dir.listed name]
  valid name other under := by
    by_cases isNew : name = new
    · rw [isNew, Function.update_self] at under
      obtain rfl := Option.some.inj under
      exact dir.valid old file held
    · rw [Function.update_of_ne isNew] at under
      by_cases isOld : name = old
      · rw [isOld, Function.update_self] at under
        cases under
      · rw [Function.update_of_ne isOld] at under
        exact dir.valid name other under
  apart := by
    have others : ∀ name other, name ≠ new →
        Function.update (Function.update dir.entries old none) new (some file) name = some other →
        name ≠ old ∧ dir.entries name = some other := by
      intro name other notNew under
      rw [Function.update_of_ne notNew] at under
      by_cases isOld : name = old
      · rw [isOld, Function.update_self] at under
        cases under
      · rw [Function.update_of_ne isOld] at under
        exact ⟨isOld, under⟩
    intro left right other leftHeld rightHeld
    by_cases leftNew : left = new
    · by_cases rightNew : right = new
      · rw [leftNew, rightNew]
      · rw [leftNew, Function.update_self] at leftHeld
        obtain rfl := Option.some.inj leftHeld
        obtain ⟨notOld, under⟩ := others right file rightNew rightHeld
        exact absurd (dir.apart right old file under held) notOld
    · obtain ⟨leftOld, leftUnder⟩ := others left other leftNew leftHeld
      by_cases rightNew : right = new
      · rw [rightNew, Function.update_self] at rightHeld
        obtain rfl := Option.some.inj rightHeld
        exact absurd (dir.apart left old file leftUnder held) leftOld
      · exact dir.apart left right other leftUnder (others right other rightNew rightHeld).2

/-- Renames a file, when there is one. -/
def rename (old new : Name) (dir : Dir Name Byte) : Dir Name Byte :=
  match held : dir.entries old with
  | some file => dir.moveTo file old new held
  | none => dir

section Names
variable (dir : Dir Name Byte) (name other : Name) (bytes : List Byte)

/-- A file that is made is a new one. -/
theorem entries_create_self : (dir.create name bytes).entries name = some dir.contents.length :=
  Function.update_self _ _ _

/-- Other names stay with their files when one is made. -/
theorem entries_create_of_ne (apart : other ≠ name) :
    (dir.create name bytes).entries other = dir.entries other := Function.update_of_ne apart _ _

/-- And when one is removed. -/
theorem entries_remove_of_ne (apart : other ≠ name) :
    (dir.remove name).entries other = dir.entries other := by
  simp [remove, retain, apart]

/-- What a file was made with is read under its name. -/
@[simp] theorem read_create_self : (dir.create name bytes).read name = some bytes := by
  simp [read, create, content]

/-- A new file is no one else's. -/
theorem read_create_of_ne (apart : other ≠ name) :
    (dir.create name bytes).read other = dir.read other := by
  unfold read
  rw [entries_create_of_ne dir name other bytes apart]
  cases held : dir.entries other with
  | none => rfl
  | some file =>
    have inside := dir.valid other file held
    simp [content, create, List.getElem?_append_left inside]

/-- Nothing is read under a name that was removed. -/
@[simp] theorem read_remove_self : (dir.remove name).read name = none := by
  simp [remove, read_retain]

/-- Other names are read as before. -/
theorem read_remove_of_ne (apart : other ≠ name) :
    (dir.remove name).read other = dir.read other := by
  simp [remove, read_retain, apart]

/-- A file that is there is moved to its new name. -/
theorem rename_of_some (old new : Name) (file : Nat) (held : dir.entries old = some file) :
    dir.rename old new = dir.moveTo file old new held := by
  unfold rename
  split
  · rename_i found same
    have equal : found = file := Option.some.inj (same.symm.trans held)
    subst equal
    rfl
  · rename_i missing
    rw [held] at missing
    cases missing

/-- Nothing is moved from a name that is not there. -/
theorem rename_of_none (old new : Name) (absent : dir.entries old = none) :
    dir.rename old new = dir := by
  unfold rename
  split
  · rename_i file there
    rw [absent] at there
    cases there
  · rfl

/-- A rename changes no contents. -/
theorem contents_rename (old new : Name) : (dir.rename old new).contents = dir.contents := by
  unfold rename
  split <;> rfl

/-- A rename leads the new name where the old one led. -/
theorem entries_rename_self (old new : Name) (present : (dir.entries old).isSome = true) :
    (dir.rename old new).entries new = dir.entries old := by
  obtain ⟨file, held⟩ := Option.isSome_iff_exists.mp present
  rw [rename_of_some dir old new file held, held]
  exact Function.update_self _ _ _

/-- A rename leads no other name elsewhere. -/
theorem entries_rename_of_ne (old new : Name) (notOld : name ≠ old) (notNew : name ≠ new) :
    (dir.rename old new).entries name = dir.entries name := by
  cases held : dir.entries old with
  | none => rw [rename_of_none dir old new held]
  | some file =>
    rw [rename_of_some dir old new file held]
    change (Function.update (Function.update dir.entries old none) new (some file)) name = _
    rw [Function.update_of_ne notNew, Function.update_of_ne notOld]

/-- A rename leaves nothing under the old name. -/
theorem entries_rename_old (old new : Name) (apart : old ≠ new) :
    (dir.rename old new).entries old = none := by
  cases held : dir.entries old with
  | none => rw [rename_of_none dir old new held, held]
  | some file =>
    rw [rename_of_some dir old new file held]
    exact (Function.update_of_ne apart _ _).trans (Function.update_self _ _ _)

/-- A renamed file is read under its new name, and under no other. The file keeps its number, so
only the names change places. -/
theorem read_rename (old new : Name) (present : (dir.entries old).isSome = true) :
    (dir.rename old new).read name =
      if name = new then dir.read old else if name = old then none else dir.read name := by
  obtain ⟨file, held⟩ := Option.isSome_iff_exists.mp present
  rw [rename_of_some dir old new file held]
  change ((Function.update (Function.update dir.entries old none) new (some file)) name).map
    dir.content = _
  by_cases isNew : name = new
  · rw [if_pos isNew, isNew, Function.update_self]
    simp [read, held]
  · rw [if_neg isNew, Function.update_of_ne isNew]
    by_cases isOld : name = old
    · rw [if_pos isOld, isOld, Function.update_self]
      rfl
    · rw [if_neg isOld, Function.update_of_ne isOld]
      rfl

/-- The names are those before and the one made. -/
theorem mem_create_iff :
    other ∈ (dir.create name bytes).names ↔ other = name ∨ other ∈ dir.names :=
  Finset.mem_insert

/-- The names are those before without the one removed. -/
theorem mem_remove_iff : other ∈ (dir.remove name).names ↔ other ∈ dir.names ∧ other ≠ name := by
  simp [remove, retain]

/-- What a rename takes away and what it brings. -/
theorem mem_rename_iff (old new : Name) (present : old ∈ dir.names) :
    other ∈ (dir.rename old new).names ↔ other = new ∨ other ≠ old ∧ other ∈ dir.names := by
  obtain ⟨file, held⟩ := Option.isSome_iff_exists.mp ((dir.listed old).mp present)
  rw [rename_of_some dir old new file held]
  exact Finset.mem_insert.trans (or_congr Iff.rfl Finset.mem_erase)

/-- A rename of nothing changes nothing. -/
theorem rename_absent (old new : Name) (absent : old ∉ dir.names) : dir.rename old new = dir := by
  apply rename_of_none
  rwa [dir.listed, Bool.not_eq_true, Option.isSome_eq_false_iff, Option.isNone_iff_eq_none] at absent

end Names

end Dir

end Inodes
