import Yank.Exactness
import Yank.Paths
import Yank.Postcard

/-!
# Walking a selection

The paths of a selection are walked for the plain files at and below them. Each file keeps
the part of its path behind the parent of the root it was reached from, as text: that is the
name it has on another machine.

The directories themselves are read by a library. What it is documented to do is a contract
here: every entry of the tree once, under the root's path joined with the names on the way, or
an error in its place.
-/

namespace Yank.Files

instance : Paths.Alphabet UInt8 := ⟨47, 46, by decide⟩

instance : Paths.Alphabet Char := ⟨'/', '.', by decide⟩

/-- What a file system calls an entry of a folder. -/
structure Name where
  bytes : Bytes
  plain : Paths.Plain bytes
  ended : (0 : UInt8) ∉ bytes

inductive Kind where
  | file (size : UInt64)
  | folder
  | other
deriving DecidableEq

/-- The size of a plain file. -/
def Kind.size : Kind → Option UInt64
  | .file size => some size
  | _ => none

/-- What is at a path and below it, by the names on the way. Something is below folders only,
and below a link to one that is walked itself. -/
structure Tree where
  entries : List (List Name × Kind)
  once : (entries.map Prod.fst).Nodup
  closed : ∀ place name kind, (place ++ [name], kind) ∈ entries →
    ∃ above, (place, above) ∈ entries ∧ above.size = none

/-- The plain files of a tree. -/
def Tree.files (tree : Tree) : List (List Name × UInt64) :=
  tree.entries.filterMap (fun entry => entry.2.size.map (fun size => (entry.1, size)))

/-- Where an entry of the tree at a root is. -/
def path (root : Path) (place : List Name) : Path := Paths.below root (place.map Name.bytes)

/-- An entry as it is read. The size is only there if the file can still be asked for it. -/
structure Entry where
  path : Path
  kind : Kind
  measured : Bool

/-- What `WalkDir::new` documents: the entries of the tree at a root, unless one cannot be
read. Nothing has the empty path. -/
structure Documented (walkDir : Path → List (Option Entry)) (trees : Path → Tree) : Prop where
  named : none ∈ walkDir []
  yields : ∀ root, none ∉ walkDir root →
    ((walkDir root).reduceOption.map (fun entry => (entry.path, entry.kind))).Perm
      ((trees root).entries.map (fun entry => (path root entry.1, entry.2)))

/-- A file to share, and the name it keeps. -/
structure Source where
  origin : Path
  path : String
deriving DecidableEq

inductive WalkFailure where
  | unreadable (path : Path)
  | unnamed (path : Path)
  | tooLarge
  | tooMany
  | sameName
deriving DecidableEq

/-- The text of an error; `display` prints a path. -/
def WalkFailure.text (display : Path → String) : WalkFailure → String
  | .unreadable path => "cannot read " ++ display path
  | .unnamed path => display path ++ " has a name that cannot be shared"
  | .tooLarge => "the selection is too large to share"
  | .tooMany => "the selection has too many files"
  | .sameName => "two of the files would land under the same name"

/-- `Path::to_str`. -/
def toStr (path : Path) : Option String := String.fromUTF8? ⟨path.toArray⟩

section Walk
variable (walkDir : Path → List (Option Entry)) (maxFiles : Nat) (maxBytes : UInt64)

/-- One entry of the walk, after the files found so far and what they weigh. -/
def visit (root : Path) (found : List Source × Nat) :
    Option Entry → Except WalkFailure (List Source × Nat)
  | none => .error (.unreadable root)
  | some entry =>
      match entry.kind.size with
      | none => .ok found
      | some size => do
          let base := (Paths.parent root).getD []
          match (Paths.stripPrefix base entry.path).bind toStr with
          | none => .error (.unnamed entry.path)
          | some path => do
              ensure entry.measured (.unreadable entry.path)
              let total := found.2 + size.toNat
              ensure (total < 2 ^ 64) .tooLarge
              ensure (found.1.length < maxFiles) .tooMany
              ensure (total ≤ maxBytes.toNat) .tooLarge
              return (found.1 ++ [{ origin := entry.path, path }], total)

/-- Expands a selection's paths into the files it names, each under the name it keeps on the
other machine. -/
def walk (roots : List Path) : Except WalkFailure (List Source) := do
  let found ← roots.foldlM
    (fun found root => (walkDir root).foldlM (visit maxFiles maxBytes root) found) ([], 0)
  let sorted := found.1.insertionSort (fun left right => left.path.toList ≤ right.path.toList)
  ensure ((Adjacent.pairs sorted).all (fun pair => pair.1.path ≠ pair.2.path)) .sameName
  return sorted

end Walk

/-! ## What a walk finds -/

/-- What `is_file` picks of an entry that was read. -/
def picked (root : Path) (entry : Entry) : Option (Path × Path × UInt64) :=
  entry.kind.size.map (fun size => (root, entry.path, size))

/-- A source is of a file: it is there, and its name is left of the path behind the parent of
the root. -/
def Of (source : Source) (file : Path × Path × UInt64) : Prop :=
  source.origin = file.2.1 ∧ ∃ left,
    Paths.stripPrefix ((Paths.parent file.1).getD []) file.2.1 = some left ∧
      toStr left = some source.path

/-- What the files weigh. -/
def weight (files : List (Path × Path × UInt64)) : Nat :=
  (files.map (fun file => file.2.2.toNat)).sum

variable {walkDir : Path → List (Option Entry)} {maxFiles : Nat} {maxBytes : UInt64}

/-- What is found stays within the caps. -/
structure Fits (maxFiles : Nat) (maxBytes : UInt64) (found : List Source × Nat)
    (files : List (Path × Path × UInt64)) : Prop where
  of : List.Forall₂ Of found.1 files
  weighs : found.2 = weight files
  few : found.1.length ≤ maxFiles
  small : found.2 ≤ maxBytes.toNat

/-- An entry that is read adds the file it is, if it is one. An entry that is no file adds
nothing, and a file is added only where both caps still hold with it. -/
theorem visit_fits (root : Path) (found next : List Source × Nat) (item : Option Entry)
    (files : List (Path × Path × UInt64)) (fits : Fits maxFiles maxBytes found files)
    (visited : visit maxFiles maxBytes root found item = .ok next) :
    ∃ entry, item = some entry ∧
      Fits maxFiles maxBytes next (files ++ (picked root entry).toList) := by
  cases item with
  | none => cases visited
  | some entry =>
    refine ⟨entry, rfl, ?_⟩
    unfold visit at visited
    cases sized : entry.kind.size with
    | none =>
      simp only [sized] at visited
      obtain rfl := Except.ok.inj visited
      simpa [picked, sized] using fits
    | some size =>
      simp only [sized] at visited
      split at visited
      · cases visited
      · rename_i name named
        obtain ⟨left, stripped, read⟩ := Option.bind_eq_some_iff.mp named
        simp only [ensure_bind_ok_iff, decide_eq_true_eq] at visited
        obtain ⟨_, _, room, small, added⟩ := visited
        obtain rfl := Except.ok.inj added
        have one : (picked root entry).toList = [(root, entry.path, size)] := by
          simp [picked, sized]
        rw [one]
        have isOf : Of { origin := entry.path, path := name } (root, entry.path, size) :=
          ⟨rfl, left, stripped, read⟩
        refine ⟨List.rel_append fits.of (List.Forall₂.cons isOf List.Forall₂.nil), ?_, ?_, small⟩
        · simp [weight, fits.weighs]
        · rw [List.length_append, List.length_singleton]
          omega

/-- The files among the entries that are read below a root. -/
def pickedIn (walkDir : Path → List (Option Entry)) (root : Path) : List (Path × Path × UInt64) :=
  (walkDir root).reduceOption.filterMap (picked root)

/-- The walk below one root reads every entry, and finds the files among them. The induction is on
the entries; one that cannot be read ends the walk with an error. -/
theorem visits_fit (root : Path) (items : List (Option Entry)) (found next : List Source × Nat)
    (files : List (Path × Path × UInt64)) (fits : Fits maxFiles maxBytes found files)
    (visited : items.foldlM (visit maxFiles maxBytes root) found = .ok next) :
    none ∉ items ∧ Fits maxFiles maxBytes next
      (files ++ items.reduceOption.filterMap (picked root)) := by
  induction items generalizing found files with
  | nil =>
    obtain rfl := Except.ok.inj visited
    exact ⟨List.not_mem_nil, by simpa using fits⟩
  | cons item items inductionHypothesis =>
    rw [List.foldlM_cons, bind_ok_iff] at visited
    obtain ⟨middle, one, others⟩ := visited
    obtain ⟨entry, rfl, grown⟩ := visit_fits root found middle item files fits one
    obtain ⟨read, last⟩ := inductionHypothesis middle _ grown others
    refine ⟨by simpa using read, ?_⟩
    rw [List.append_assoc] at last
    rw [List.reduceOption_cons_of_some, List.filterMap_cons]
    cases first : picked root entry with
    | none => simpa [first] using last
    | some file => simpa [first] using last

/-- The walk below every root does. The induction is on the roots, and goes on with what was found
below those before. -/
theorem roots_fit (roots : List Path) (found next : List Source × Nat)
    (files : List (Path × Path × UInt64)) (fits : Fits maxFiles maxBytes found files)
    (visited : roots.foldlM
      (fun found root => (walkDir root).foldlM (visit maxFiles maxBytes root) found) found =
        .ok next) :
    (∀ root ∈ roots, none ∉ walkDir root) ∧
      Fits maxFiles maxBytes next (files ++ roots.flatMap (pickedIn walkDir)) := by
  induction roots generalizing found files with
  | nil =>
    obtain rfl := Except.ok.inj visited
    exact ⟨by simp, by simpa using fits⟩
  | cons root roots inductionHypothesis =>
    rw [List.foldlM_cons, bind_ok_iff] at visited
    obtain ⟨middle, one, others⟩ := visited
    obtain ⟨read, grown⟩ := visits_fit root _ found middle files fits one
    obtain ⟨all, last⟩ := inductionHypothesis middle _ grown others
    refine ⟨List.forall_mem_cons.mpr ⟨read, all⟩, ?_⟩
    rw [List.append_assoc] at last
    rw [List.flatMap_cons]
    exact last

/-- No two sources share a name when no neighbours do, sorted by name. Sorted, names that are the
same stand side by side, so `strict_of_pairs` tells them apart by their neighbours. -/
theorem names_apart (raw : List Source)
    (apart : ∀ pair ∈ Adjacent.pairs
        (raw.insertionSort (fun left right => left.path.toList ≤ right.path.toList)),
      pair.1.path ≠ pair.2.path) :
    ((raw.insertionSort (fun left right => left.path.toList ≤ right.path.toList)).map
      (fun source => source.path.toList)).Nodup := by
  let named (source : Source) : List Char := source.path.toList
  have : Std.Total (fun left right : Source => named left ≤ named right) :=
    ⟨fun left right => le_total (named left) (named right)⟩
  have : IsTrans Source (fun left right => named left ≤ named right) :=
    ⟨fun _ _ _ => le_trans⟩
  have sorted := List.pairwise_insertionSort (fun left right => named left ≤ named right) raw
  generalize raw.insertionSort (fun left right => named left ≤ named right) = found at apart sorted
  have strict : (found.map named).Pairwise (· < ·) := by
    refine Adjacent.strict_of_pairs _ (List.pairwise_map.mpr sorted) ?_
    intro pair beside
    rw [Adjacent.pairs, ← List.map_tail, List.zip_map] at beside
    obtain ⟨⟨left, right⟩, among, rfl⟩ := List.mem_map.mp beside
    intro same
    exact apart (left, right) among (String.toList_inj.mp same)
  exact strict.imp (fun less => ne_of_lt less)

/-- What a walk that succeeds returns: the files of the entries, sorted by name, no two of them
under one. -/
theorem walk_found (roots : List Path) (found : List Source)
    (walked : walk walkDir maxFiles maxBytes roots = .ok found) :
    (∀ root ∈ roots, none ∉ walkDir root) ∧
      (found.map (fun source => source.path.toList)).Nodup ∧
      ∃ raw total, found.Perm raw ∧
        Fits maxFiles maxBytes (raw, total) (roots.flatMap (pickedIn walkDir)) := by
  unfold walk at walked
  rw [bind_ok_iff] at walked
  obtain ⟨⟨raw, total⟩, visited, checked⟩ := walked
  rw [ensure_bind_ok_iff] at checked
  obtain ⟨apart, same⟩ := checked
  obtain rfl := Except.ok.inj same
  have nothing : Fits maxFiles maxBytes ([], 0) [] :=
    ⟨List.Forall₂.nil, rfl, Nat.zero_le _, Nat.zero_le _⟩
  obtain ⟨read, fits⟩ := roots_fit roots ([], 0) (raw, total) [] nothing visited
  refine ⟨read, names_apart raw ?_, raw, total, List.perm_insertionSort _ _, fits⟩
  simpa using apart

/-! ## Names as text -/

/-- The bytes of a text are its bytes. -/
theorem utf8_eq (text : String) : utf8 text = text.toByteArray.data.toList := by
  rw [← String.utf8Encode_toList, List.utf8Encode, utf8]
  simp

/-- What is read as text is the text's bytes. -/
theorem utf8_of_toStr (path : Path) (text : String) (read : toStr path = some text) :
    utf8 text = path := by
  rw [toStr, String.fromUTF8?] at read
  split at read
  · obtain rfl := Option.some.inj read
    rw [utf8_eq]
    simp [String.fromUTF8]
  · cases read

/-- Text is read from its bytes. -/
theorem toStr_utf8 (text : String) : toStr (utf8 text) = some text := by
  rw [toStr, utf8_eq]
  exact Postcard.Format.fromUTF8_toByteArray text

/-- No two texts have the same bytes. -/
theorem utf8_injective : Function.Injective utf8 := by
  intro left right same
  have read := congrArg toStr same
  rwa [toStr_utf8, toStr_utf8, Option.some.injEq] at read

/-- A byte below 128 is a character of its own. Every byte of a longer encoding is 128 or more. -/
theorem ascii_of_mem (letter : Char) (byte : UInt8) (small : byte.toNat < 128)
    (among : byte ∈ String.utf8EncodeChar letter) : letter.toNat = byte.toNat := by
  rw [String.utf8EncodeChar] at among
  split at among
  · rw [List.mem_singleton] at among
    subst among
    have bound : letter.val.toNat < 256 := by omega
    exact (Nat.mod_eq_of_lt bound).symm
  · exfalso
    split at among
    · simp only [List.mem_cons, List.not_mem_nil, or_false, ← UInt8.toNat_inj] at among
      simp at among
      omega
    · split at among
      · simp only [List.mem_cons, List.not_mem_nil, or_false, ← UInt8.toNat_inj] at among
        simp at among
        omega
      · simp only [List.mem_cons, List.not_mem_nil, or_false, ← UInt8.toNat_inj] at among
        simp at among
        omega

/-- Characters are coded so that a separator is one byte, and no part of another character. -/
theorem utf8_coding : Paths.Coding String.utf8EncodeChar where
  slash := by decide
  dot := by decide
  unbroken letter among := by
    have code := ascii_of_mem letter 47 (by decide) among
    exact Char.toNat_inj.mp code
  injective := by
    intro left right same
    have encoded : left.utf8Encode = right.utf8Encode := congrArg List.toByteArray same
    simpa using congrArg ByteArray.utf8Decode? encoded

/-- Whether a path is safe can be told from its bytes. UTF-8 writes separators, dots and null as
themselves and uses these bytes for nothing else. -/
theorem safe_iff (text : String) :
    Safe text.toList ↔ ∀ part ∈ Paths.parts (utf8 text), Paths.Plain part ∧ (0 : UInt8) ∉ part := by
  have ended (part : List Char) :
      (0 : UInt8) ∈ part.flatMap String.utf8EncodeChar ↔ '\x00' ∈ part := by
    rw [List.mem_flatMap]
    constructor
    · rintro ⟨letter, among, isNull⟩
      have code := ascii_of_mem letter 0 (by decide) isNull
      have same : letter = '\x00' := Char.toNat_inj.mp code
      exact same ▸ among
    · intro among
      exact ⟨_, among, by decide⟩
  rw [utf8, utf8_coding.parts, List.forall_mem_map]
  constructor
  · intro safe part member
    obtain ⟨filled, notHere, notAbove, whole⟩ := safe part member
    have plain : Paths.Plain part :=
      ⟨filled, notHere, notAbove, Paths.parts_unbroken _ part member⟩
    exact ⟨(utf8_coding.plain_iff part).mpr plain, mt (ended part).mp whole⟩
  · intro all part member
    obtain ⟨coded, whole⟩ := all part member
    have plain := (utf8_coding.plain_iff part).mp coded
    exact ⟨plain.filled, plain.notHere, plain.notAbove, mt (ended part).mpr whole⟩

/-- Whether a path lies in another can be told from the parts of their bytes. -/
theorem ancestor_iff (folder text : String) :
    Ancestor folder.toList text.toList ↔
      Paths.parts (utf8 folder) <+: Paths.parts (utf8 text) ∧
        (Paths.parts (utf8 folder)).length < (Paths.parts (utf8 text)).length := by
  refine (Paths.inside_iff folder.toList text.toList).trans ?_
  rw [utf8, utf8, utf8_coding.parts, utf8_coding.parts, List.length_map, List.length_map,
    List.prefix_map_iff_of_injective utf8_coding.injective]

/-! ## What a walk lists -/

variable {trees : Path → Tree}

/-- The files that are read below a root are those of its tree. -/
theorem pickedIn_perm (documented : Documented walkDir trees) (root : Path)
    (read : none ∉ walkDir root) :
    (pickedIn walkDir root).Perm
      ((trees root).files.map (fun file => (root, path root file.1, file.2))) := by
  have same := (documented.yields root read).filterMap
    (fun entry => entry.2.size.map (fun size => (root, entry.1, size)))
  rw [List.filterMap_map, List.filterMap_map] at same
  rw [pickedIn, Tree.files, List.map_filterMap]
  refine same.trans (List.Perm.of_eq ?_)
  apply List.filterMap_congr
  intro entry _
  cases sized : entry.2.size with
  | none => simp [sized]
  | some size => simp [sized]

/-- Each side of a pairing has its partners in the other. -/
theorem forall₂_left {α β : Type} {holds : α → β → Prop} {lefts : List α} {rights : List β}
    (related : List.Forall₂ holds lefts rights) (left : α) (member : left ∈ lefts) :
    ∃ right ∈ rights, holds left right := by
  induction related with
  | nil => cases member
  | cons one _ inductionHypothesis =>
    obtain rfl | member := List.mem_cons.mp member
    · exact ⟨_, List.mem_cons_self, one⟩
    · obtain ⟨right, among, other⟩ := inductionHypothesis member
      exact ⟨right, List.mem_cons_of_mem _ among, other⟩

/-- What a source is of. -/
structure Names (trees : Path → Tree) (roots : List Path) (source : Source) (root : Path)
    (file : List Name × UInt64) : Prop where
  rooted : root ∈ roots
  plain : file ∈ (trees root).files
  stripped : Paths.stripPrefix ((Paths.parent root).getD []) (path root file.1) =
    some (utf8 source.path)

/-- The names of a place are plain. -/
theorem plain_names (place : List Name) : ∀ name ∈ place.map Name.bytes, Paths.Plain name := by
  rw [List.forall_mem_map]
  intro name _
  exact name.plain

/-- The root is written so that a file below it keeps a name of the root's own. -/
def OwnName (root : Path) (place : List Name) (name : Bytes) : Prop :=
  Paths.Owns root (place.map Name.bytes) name ∧ (0 : UInt8) ∉ name

/-- A source is named by its root's own name and the names below. -/
theorem Names.parts {roots : List Path} {source : Source} {root : Path}
    {file : List Name × UInt64} {name : Bytes} (names : Names trees roots source root file)
    (own : OwnName root file.1 name) :
    Paths.parts (utf8 source.path) = name :: file.1.map Name.bytes :=
  own.1.parts_stripped (plain_names file.1) _ names.stripped

/-- The name of a file is safe exactly when its root gives it one of its own. The parts of a name
are plain exactly if the root has a last part of its own or the entry lies below it. -/
theorem Names.safe_iff {roots : List Path} {source : Source} {root : Path}
    {file : List Name × UInt64} (names : Names trees roots source root file)
    (filled : root ≠ []) : Safe source.path.toList ↔ ∃ name, OwnName root file.1 name := by
  have plain := Paths.stripped_plain_iff root _ (plain_names file.1) filled _ names.stripped
  rw [Files.safe_iff]
  constructor
  · intro all
    obtain ⟨name, owns⟩ := plain.mp (fun part member => (all part member).1)
    refine ⟨name, owns, ?_⟩
    have split := owns.parts_stripped (plain_names file.1) _ names.stripped
    exact (all name (by rw [split]; exact List.mem_cons_self)).2
  · rintro ⟨name, own⟩ part member
    refine ⟨plain.mpr ⟨name, own.1⟩ part member, ?_⟩
    rw [names.parts own] at member
    obtain rfl | member := List.mem_cons.mp member
    · exact own.2
    · obtain ⟨other, _, rfl⟩ := List.mem_map.mp member
      exact other.ended

/-- A manifest's worth of files: every plain file at or below the roots, once for each root
that reaches it, under names that can be laid out and within the caps. -/
structure Listed (trees : Path → Tree) (roots : List Path) (maxFiles : Nat) (maxBytes : UInt64)
    (found : List Source) : Prop where
  each : (found.map Source.origin).Perm
    (roots.flatMap (fun root => (trees root).files.map (fun file => path root file.1)))
  lays : Lays (found.map (fun source => source.path.toList))
  few : found.length ≤ maxFiles
  small : (roots.flatMap (fun root => (trees root).files.map (fun file => file.2.toNat))).sum ≤
    maxBytes.toNat

/-- What a walk that succeeds finds: each file once, under a name no other has, within the
caps. -/
structure Finds (trees : Path → Tree) (roots : List Path) (maxFiles : Nat) (maxBytes : UInt64)
    (found : List Source) : Prop where
  filled : ∀ root ∈ roots, root ≠ []
  apart : (found.map (fun source => source.path.toList)).Nodup
  each : (found.map Source.origin).Perm
    (roots.flatMap (fun root => (trees root).files.map (fun file => path root file.1)))
  few : found.length ≤ maxFiles
  small : (roots.flatMap (fun root => (trees root).files.map (fun file => file.2.toNat))).sum ≤
    maxBytes.toNat
  named : ∀ source ∈ found, ∃ root file, Names trees roots source root file
  listed : ∀ root ∈ roots, ∀ file ∈ (trees root).files,
    ∃ source ∈ found, Names trees roots source root file

/-- A walk that succeeds finds every file once, within the caps. What was found pairs off with the
files that were read, in order, and by its documentation the walk of a root reads each file below
it once. -/
theorem walk_finds (documented : Documented walkDir trees) (roots : List Path)
    (found : List Source) (walked : walk walkDir maxFiles maxBytes roots = .ok found) :
    Finds trees roots maxFiles maxBytes found := by
  obtain ⟨read, apart, raw, total, same, ⟨pairs, weighs, few, small⟩⟩ :=
    walk_found roots found walked
  dsimp only at pairs weighs few small
  generalize files : roots.flatMap (pickedIn walkDir) = picks at pairs weighs
  have perm : picks.Perm (roots.flatMap (fun root =>
      (trees root).files.map (fun file => (root, path root file.1, file.2)))) := by
    rw [← files]
    exact List.Perm.flatMap_left roots
      (fun root member => pickedIn_perm documented root (read root member))
  have origins : raw.map Source.origin = picks.map (fun file => file.2.1) := by
    clear weighs files perm same few
    induction pairs with
    | nil => rfl
    | cons one _ inductionHypothesis =>
      rw [List.map_cons, List.map_cons, one.1, inductionHypothesis]
  refine ⟨?_, apart, ?_, ?_, ?_, ?_, ?_⟩
  · rintro root member rfl
    exact read [] member documented.named
  · refine (same.map _).trans ?_
    rw [origins]
    refine (perm.map _).trans (List.Perm.of_eq ?_)
    simp [List.map_flatMap, Function.comp_def]
  · rw [same.length_eq]
    exact few
  · rw [weighs, weight, (perm.map _).sum_eq] at small
    simpa [List.map_flatMap, Function.comp_def] using small
  · intro source member
    obtain ⟨file, among, isOf⟩ := forall₂_left pairs source (same.mem_iff.mp member)
    obtain ⟨root, rooted, among⟩ := List.mem_flatMap.mp (perm.mem_iff.mp among)
    obtain ⟨own, plain, rfl⟩ := List.mem_map.mp among
    obtain ⟨_, left, stripped, text⟩ := isOf
    exact ⟨root, own, rooted, plain, by rw [stripped, utf8_of_toStr left _ text]⟩
  · intro root rooted file plain
    have among : (root, path root file.1, file.2) ∈ picks :=
      perm.mem_iff.mpr (List.mem_flatMap.mpr ⟨root, rooted, List.mem_map_of_mem plain⟩)
    obtain ⟨source, member, isOf⟩ := forall₂_left pairs.flip _ among
    obtain ⟨_, left, stripped, text⟩ := isOf
    exact ⟨source, same.mem_iff.mpr member, rooted, plain,
      by rw [stripped, utf8_of_toStr left _ text]⟩

/-- A name is its bytes. -/
theorem Name.bytes_injective : Function.Injective Name.bytes := by
  rintro ⟨left, _, _⟩ ⟨right, _, _⟩ same
  cases same
  rfl

/-- The files of a tree are its plain entries. -/
theorem Tree.mem_files (tree : Tree) (place : List Name) (size : UInt64) :
    (place, size) ∈ tree.files ↔ (place, .file size) ∈ tree.entries := by
  rw [Tree.files, List.mem_filterMap]
  constructor
  · rintro ⟨⟨other, kind⟩, member, found⟩
    cases kind with
    | file other' =>
      cases found
      exact member
    | _ => cases found
  · intro member
    exact ⟨_, member, rfl⟩

/-- Above an entry of a tree there is no file. -/
theorem Tree.above (tree : Tree) (place more : List Name) (kind : Kind) (some : more ≠ [])
    (member : (place ++ more, kind) ∈ tree.entries) :
    ∃ above, (place, above) ∈ tree.entries ∧ above.size = none := by
  induction more using List.reverseRecOn generalizing kind with
  | nil => exact absurd rfl some
  | append_singleton early last inductionHypothesis =>
    rw [← List.append_assoc] at member
    obtain ⟨above, among, hollow⟩ := tree.closed _ last kind member
    by_cases first : early = []
    · subst first
      rw [List.append_nil] at among
      exact ⟨above, among, hollow⟩
    · exact inductionHypothesis above first among

/-- No file of a tree is a folder of another. -/
theorem Tree.files_apart (tree : Tree) (file deeper : List Name × UInt64)
    (plain : file ∈ tree.files) (plain' : deeper ∈ tree.files) (inside : file.1 <+: deeper.1) :
    file.1 = deeper.1 := by
  obtain ⟨more, split⟩ := inside
  by_contra differ
  have some : more ≠ [] := by
    rintro rfl
    exact differ (by rw [← split, List.append_nil])
  have member := (tree.mem_files deeper.1 deeper.2).mp plain'
  rw [← split] at member
  obtain ⟨above, among, hollow⟩ := tree.above file.1 more _ some member
  have own := (tree.mem_files file.1 file.2).mp plain
  have same := (List.inj_on_of_nodup_map tree.once) among own rfl
  rw [(Prod.mk.inj same).2] at hollow
  cases hollow

/-- A walk that succeeds lists what it should exactly when every file keeps a name of its
root's own, and no two roots share theirs where one has a file and the other a folder with a
file. -/
theorem walk_lists_iff (documented : Documented walkDir trees) (roots : List Path)
    (found : List Source) (walked : walk walkDir maxFiles maxBytes roots = .ok found) :
    Listed trees roots maxFiles maxBytes found ↔
      (∀ root ∈ roots, ∀ file ∈ (trees root).files, ∃ name, OwnName root file.1 name) ∧
      ∀ root ∈ roots, ∀ other ∈ roots, root ≠ other → ∀ file ∈ (trees root).files,
        ∀ deeper ∈ (trees other).files, ∀ name, OwnName root file.1 name →
          OwnName other deeper.1 name → file.1 <+: deeper.1 → file.1 = deeper.1 := by
  obtain ⟨filled, apart, each, few, small, named, listed⟩ := walk_finds documented roots found walked
  constructor
  · intro lists
    have safe := List.forall_mem_map.mp lists.lays.safe
    constructor
    · intro root rooted file plain
      obtain ⟨source, member, names⟩ := listed root rooted file plain
      exact (names.safe_iff (filled root rooted)).mp (safe source member)
    · intro root rooted other rooted' _ file plain deeper plain' name own own' inside
      by_contra differ
      obtain ⟨source, member, names⟩ := listed root rooted file plain
      obtain ⟨source', member', names'⟩ := listed other rooted' deeper plain'
      refine lists.lays.apart source.path.toList (List.mem_map_of_mem member) source'.path.toList
        (List.mem_map_of_mem member') ?_
      rw [ancestor_iff, names.parts own, names'.parts own']
      have longer : file.1.length < deeper.1.length := by
        refine lt_of_le_of_ne inside.length_le ?_
        intro same
        exact differ (inside.eq_of_length same)
      refine ⟨?_, by simpa using longer⟩
      exact (List.prefix_cons_inj name).mpr (inside.map Name.bytes)
  · rintro ⟨owned, distinct⟩
    refine ⟨each, ⟨?_, apart, ?_⟩, few, small⟩
    · rw [List.forall_mem_map]
      intro source member
      obtain ⟨root, file, names⟩ := named source member
      exact (names.safe_iff (filled root names.rooted)).mpr
        (owned root names.rooted file names.plain)
    · rw [List.forall_mem_map]
      intro source member text among inside
      obtain ⟨source', member', rfl⟩ := List.mem_map.mp among
      obtain ⟨root, file, names⟩ := named source member
      obtain ⟨other, deeper, names'⟩ := named source' member'
      obtain ⟨name, own⟩ := owned root names.rooted file names.plain
      obtain ⟨name', own'⟩ := owned other names'.rooted deeper names'.plain
      rw [ancestor_iff, names.parts own, names'.parts own', List.cons_prefix_cons,
        List.prefix_map_iff_of_injective Name.bytes_injective] at inside
      obtain ⟨⟨rfl, within⟩, longer⟩ := inside
      have same : file.1 = deeper.1 := by
        by_cases one : root = other
        · subst one
          exact (trees root).files_apart file deeper names.plain names'.plain within
        · exact distinct root names.rooted other names'.rooted one file names.plain deeper
            names'.plain name own own' within
      rw [same] at longer
      exact absurd longer (lt_irrefl _)

/-! ## Two roots of one name -/

/-- A reader that reads everything. -/
def reading (trees : Path → Tree) (root : Path) : List (Option Entry) :=
  if root = [] then [none]
  else (trees root).entries.map (fun entry =>
    some { path := path root entry.1, kind := entry.2, measured := true })

/-- Reading a tree as it is does what is documented of a walk. -/
theorem reading_documented (trees : Path → Tree) : Documented (reading trees) trees where
  named := List.mem_singleton_self _
  yields root read := by
    unfold reading at read ⊢
    split
    · rename_i empty
      rw [if_pos empty] at read
      exact absurd (List.mem_singleton_self _) read
    · refine List.Perm.of_eq ?_
      rw [List.reduceOption, List.filterMap_map, List.map_filterMap]
      simp

/-- A file and nothing else. -/
def Tree.ofFile (size : UInt64) : Tree where
  entries := [([], .file size)]
  once := List.nodup_singleton _
  closed place name kind member := by simp at member

/-- A folder with one file. -/
def Tree.ofFolder (name : Name) (size : UInt64) : Tree where
  entries := [([], .folder), ([name], .file size)]
  once := by simp
  closed place other kind member := by
    have nested : place ++ [other] = [name] := by simpa using (by simpa using member : _ ∧ _).1
    obtain rfl : place = [] := by simpa using congrArg List.length nested
    exact ⟨.folder, List.mem_cons_self, rfl⟩

/-- The name `y`. -/
def ofY : Name where
  bytes := [121]
  plain := ⟨by decide, by decide, by decide, by decide⟩
  ended := by decide

/-- A file `x` in one place, and in another a folder `x` with a file in it. -/
def sameNamed (root : Path) : Tree :=
  if root = utf8 "/p/x" then .ofFile 1 else .ofFolder ofY 1

def sameNamedFound : List Source :=
  [{ origin := utf8 "/p/x", path := "x" }, { origin := utf8 "/q/x/y", path := "x/y" }]

/-- The walk goes through, and lists a file that is also to be a folder. -/
theorem a_file_is_listed_as_a_folder :
    walk (reading sameNamed) 16 1024 [utf8 "/p/x", utf8 "/q/x"] = .ok sameNamedFound ∧
      ¬ Listed sameNamed [utf8 "/p/x", utf8 "/q/x"] 16 1024 sameNamedFound := by
  refine ⟨by decide, ?_⟩
  intro lists
  refine lists.lays.apart ['x'] (by decide) ['x', '/', 'y'] (by decide) ?_
  exact ⟨['y'], rfl⟩

/-- A folder with a file is walked and listed. -/
theorem walk_lists_folder :
    walk (reading (fun _ => .ofFolder ofY 1)) 16 1024 [utf8 "/q/x"] =
        .ok [{ origin := utf8 "/q/x/y", path := "x/y" }] ∧
      Listed (fun _ => .ofFolder ofY 1) [utf8 "/q/x"] 16 1024
        [{ origin := utf8 "/q/x/y", path := "x/y" }] := by
  have walked : walk (reading (fun _ => .ofFolder ofY 1)) 16 1024 [utf8 "/q/x"] =
      .ok [{ origin := utf8 "/q/x/y", path := "x/y" }] := by
    decide
  refine ⟨walked, (walk_lists_iff (reading_documented _) _ _ walked).mpr ⟨?_, ?_⟩⟩
  · intro root rooted file _
    obtain rfl := List.mem_singleton.mp rooted
    refine ⟨utf8 "x", ⟨[[], utf8 "q"], [], ⟨by decide, by decide, by simp⟩, ?_, by simp⟩, by decide⟩
    exact ⟨by decide, by decide, by decide, by decide⟩
  · intro root rooted other rooted' differ
    obtain rfl := List.mem_singleton.mp rooted
    obtain rfl := List.mem_singleton.mp rooted'
    exact absurd rfl differ

end Yank.Files
