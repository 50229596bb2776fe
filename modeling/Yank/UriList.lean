import Yank.Copy
import Yank.Percent

/-!
# What a list of URIs names

A `text/uri-list` payload is read a line at a time. A line that is empty or a comment
is skipped, and so is a line that names no file on this machine. What is left of a line
that does, after the scheme and the authority, is the percent encoding of a path.

Two readings are put side by side. One is the parser's, which strips prefixes and looks for
the separator that ends an authority. The other says what a line of this machine looks
like: the scheme, nothing or an authority that is empty or `localhost`, and the
encoding of an absolute path.

The two differ on one kind of line only. After the scheme the parser never asks for a
separator, so a relative path gets through.
-/

namespace Yank

namespace UriList

open Files

/-- The lines of a payload, each without the carriage return it ends in. -/
def lines (bytes : Bytes) : List Bytes :=
  (bytes.splitOn 10).map (fun line => if line.getLast? = some 13 then line.dropLast else line)

/-- Whether a line is read at all: a line starting with `#` is a comment. -/
def isRead (line : Bytes) : Bool := line != [] && line.head? != some 35

/-- What a URI names after its scheme, still encoded, if that is on this machine. -/
def encodedPath (rest : Bytes) : Option Bytes :=
  match rest.dropPrefix? (utf8 "//") with
  | some authority => do
      let start ← authority.findIdx? (· == 47)
      if authority.take start == [] || authority.take start == utf8 "localhost" then
        some (authority.drop start)
      else none
  | none => some rest

/-- The path a `file:` URI names, if it names one on this machine. -/
def localPath (uri : Bytes) : Option Path := do
  let rest ← uri.dropPrefix? (utf8 "file:")
  let path ← encodedPath rest
  some (Percent.decode path)

/-- The local paths a `text/uri-list` payload names. -/
def paths (uriList : Bytes) : List Path := ((lines uriList).filter isRead).filterMap localPath

end UriList

namespace Selection

/-- The representation offered under `mime`. -/
def rep (selection : Selection) (mime : String) : Option Rep :=
  selection.reps.find? (fun rep => Mime.eqIgnoreAsciiCase rep.mime mime)

/-- The local paths this selection names, empty when it names none. -/
def filePaths (selection : Selection) : List Path :=
  ((selection.rep Mime.uriList).map (fun rep => UriList.paths rep.bytes)).getD []

end Selection

namespace UriList

open Files

/-! ## What a line of this machine looks like -/

/-- What follows a scheme is an absolute path, with nothing, an empty authority or this
machine's between them. Two separators after the scheme start an authority. -/
def LocalPart (rest part : Bytes) : Prop :=
  ∃ between ∈ [[], utf8 "//", utf8 "//localhost"],
    rest = between ++ part ∧ part.head? = some 47 ∧ (between = [] → ¬ utf8 "//" <+: part)

/-- The path a line names: none for an empty line, a comment, or anything but a `file:` URI
of this machine. -/
def Names (line : Bytes) (path : Path) : Prop :=
  line ≠ [] ∧ line.head? ≠ some 35 ∧
    ∃ rest part, line = utf8 "file:" ++ rest ∧ LocalPart rest part ∧ path = Percent.decode part

/-- What follows a prefix is the rest. -/
theorem dropPrefix_iff (line start rest : Bytes) :
    line.dropPrefix? start = some rest ↔ line = start ++ rest := by
  rw [List.dropPrefix?_eq_some_iff]
  simp

/-- A host and the separator that ends it. -/
theorem findIdx_separator (host tail : Bytes) (plain : (47 : UInt8) ∉ host) :
    (host ++ 47 :: tail).findIdx? (· == 47) = some host.length := by
  induction host with
  | nil => rfl
  | cons byte host inductionHypothesis =>
    have other : (byte == 47) = false := by
      have differs : byte ≠ 47 := fun same => plain (same ▸ List.mem_cons_self)
      simpa using differs
    rw [List.cons_append, List.findIdx?_cons, other,
      inductionHypothesis (fun member => plain (List.mem_cons_of_mem byte member))]
    rfl

/-- A host ends at the first separator. -/
theorem separator_inj (host other tail rest : Bytes) (plain : (47 : UInt8) ∉ host)
    (unended : (47 : UInt8) ∉ other) (same : host ++ 47 :: tail = other ++ 47 :: rest) :
    host = other ∧ tail = rest := by
  have lengths : host.length = other.length := by
    have first := findIdx_separator host tail plain
    rw [same, findIdx_separator other rest unended, Option.some.injEq] at first
    exact first.symm
  obtain ⟨hosts, tails⟩ := List.append_inj same lengths
  exact ⟨hosts, (List.cons.inj tails).2⟩

/-- An authority is this machine's when it is empty or `localhost`. -/
theorem encodedPath_authority (host tail : Bytes) (plain : (47 : UInt8) ∉ host) :
    encodedPath (utf8 "//" ++ (host ++ 47 :: tail)) =
      if host = [] ∨ host = utf8 "localhost" then some (47 :: tail) else none := by
  have stripped := (dropPrefix_iff _ (utf8 "//") (host ++ 47 :: tail)).mpr rfl
  simp only [encodedPath, stripped, findIdx_separator host tail plain, Option.bind_eq_bind,
    Option.bind_some, List.take_left', List.drop_left', Bool.or_eq_true, beq_iff_eq]

/-- An authority that nothing ends names no path. -/
theorem encodedPath_unended (authority : Bytes) (unended : (47 : UInt8) ∉ authority) :
    encodedPath (utf8 "//" ++ authority) = none := by
  have stripped := (dropPrefix_iff _ (utf8 "//") authority).mpr rfl
  have nowhere : authority.findIdx? (· == 47) = none := by
    rw [List.findIdx?_eq_none_iff]
    intro byte member
    have differs : byte ≠ 47 := fun same => unended (same ▸ member)
    simpa using differs
  simp only [encodedPath, stripped, nowhere]
  rfl

/-- What an authority starts is a path of this machine exactly when the authority is. The
authority ends at the first separator, which is why it may hold none itself. -/
theorem localPart_authority (host tail part : Bytes) (plain : (47 : UInt8) ∉ host) :
    LocalPart (utf8 "//" ++ (host ++ 47 :: tail)) part ↔
      (host = [] ∨ host = utf8 "localhost") ∧ part = 47 :: tail := by
  constructor
  · rintro ⟨between, among, splits, absolute, single⟩
    obtain ⟨path, rfl⟩ : ∃ path, part = 47 :: path := by
      cases part with
      | nil => cases absolute
      | cons byte path =>
        rw [List.head?_cons, Option.some.injEq] at absolute
        exact ⟨path, by rw [absolute]⟩
    simp only [List.mem_cons, List.not_mem_nil, or_false] at among
    obtain rfl | rfl | rfl := among
    · exact absurd ⟨_, splits⟩ (single rfl)
    · have same : [] ++ 47 :: path = host ++ 47 :: tail := (List.append_cancel_left splits).symm
      obtain ⟨empty, rest⟩ := separator_inj [] host path tail List.not_mem_nil plain same
      exact ⟨Or.inl empty.symm, by rw [rest]⟩
    · have same : utf8 "localhost" ++ 47 :: path = host ++ 47 :: tail :=
        (@List.append_cancel_left _ (utf8 "//") _ _ splits).symm
      have unended : (47 : UInt8) ∉ utf8 "localhost" := by decide
      obtain ⟨named, rest⟩ := separator_inj _ host path tail unended plain same
      exact ⟨Or.inr named.symm, by rw [rest]⟩
  · rintro ⟨rfl | rfl, rfl⟩
    · exact ⟨utf8 "//", by simp, rfl, rfl, fun impossible => absurd impossible (by decide)⟩
    · exact ⟨utf8 "//localhost", by simp, rfl, rfl, fun impossible => absurd impossible (by decide)⟩

/-- Without a second separator the whole of it is the path. -/
theorem localPart_bare (rest part : Bytes) (bare : ¬ utf8 "//" <+: rest) :
    LocalPart rest part ↔ rest.head? = some 47 ∧ part = rest := by
  constructor
  · rintro ⟨between, among, rfl, absolute, _⟩
    simp only [List.mem_cons, List.not_mem_nil, or_false] at among
    obtain rfl | rfl | rfl := among
    · exact ⟨absolute, rfl⟩
    · exact absurd (List.prefix_append _ _) bare
    · exact absurd ⟨utf8 "localhost" ++ part, rfl⟩ bare
  · rintro ⟨absolute, rfl⟩
    exact ⟨[], by simp, rfl, absolute, fun _ => bare⟩

/-- What follows the scheme is read the same way by both, as long as it starts with a
separator. -/
theorem encodedPath_iff (rest part : Bytes) (absolute : rest.head? = some 47) :
    encodedPath rest = some part ↔ LocalPart rest part := by
  by_cases authority : utf8 "//" <+: rest
  · obtain ⟨authority, rfl⟩ := authority
    by_cases ended : (47 : UInt8) ∈ authority
    · obtain ⟨host, tail, rfl, plain⟩ := List.eq_append_cons_of_mem ended
      rw [encodedPath_authority host tail plain, localPart_authority host tail part plain]
      split
      · rename_i ours
        simp [ours, eq_comm]
      · rename_i theirs
        simp [theirs]
    · rw [encodedPath_unended authority ended]
      constructor
      · intro impossible
        cases impossible
      · rintro ⟨between, among, splits, starts, single⟩
        have member : (47 : UInt8) ∈ part := List.mem_of_mem_head? starts
        simp only [List.mem_cons, List.not_mem_nil, or_false] at among
        obtain rfl | rfl | rfl := among
        · exact absurd ⟨_, splits⟩ (single rfl)
        · exact absurd ((List.append_cancel_left splits) ▸ member) ended
        · have rest := @List.append_cancel_left _ (utf8 "//") _ (utf8 "localhost" ++ part) splits
          exact absurd (rest ▸ List.mem_append_right _ member) ended
  · have whole : encodedPath rest = some rest := by
      have nothing : rest.dropPrefix? (utf8 "//") = none := by
        rw [Option.eq_none_iff_forall_ne_some]
        intro tail found
        exact authority ⟨tail, ((dropPrefix_iff _ _ _).mp found).symm⟩
      simp only [encodedPath, nothing]
    rw [whole, localPart_bare rest part authority]
    simp [absolute, eq_comm]

/-- What follows the scheme starts with a separator. -/
theorem LocalPart.absolute {rest part : Bytes} (split : LocalPart rest part) :
    rest.head? = some 47 := by
  obtain ⟨between, among, rfl, absolute, _⟩ := split
  simp only [List.mem_cons, List.not_mem_nil, or_false] at among
  obtain rfl | rfl | rfl := among
  · exact absolute
  · rfl
  · rfl

/-- What a line is read as, comments and empty lines included. -/
def read (line : Bytes) : Option Path := if isRead line then localPath line else none

/-- The paths are what the lines are read as. -/
theorem paths_eq (uriList : Bytes) : paths uriList = (lines uriList).filterMap read := by
  rw [paths, List.filterMap_filter]
  rfl

/-- A line is read by the scheme, and what is left of it is decoded. -/
theorem read_iff (line : Bytes) (path : Path) :
    read line = some path ↔
      ∃ rest part, line = utf8 "file:" ++ rest ∧ encodedPath rest = some part ∧
        path = Percent.decode part := by
  constructor
  · intro taken
    rw [read, Option.ite_none_right_eq_some] at taken
    obtain ⟨_, named⟩ := taken
    simp only [localPath, Option.bind_eq_bind, Option.bind_eq_some_iff] at named
    obtain ⟨rest, stripped, part, found, decoded⟩ := named
    exact ⟨rest, part, (dropPrefix_iff _ _ _).mp stripped, found, (Option.some.inj decoded).symm⟩
  · rintro ⟨rest, part, rfl, found, rfl⟩
    have stripped := (dropPrefix_iff _ (utf8 "file:") rest).mpr rfl
    rw [read, if_pos (show isRead (utf8 "file:" ++ rest) = true from rfl), localPath, stripped]
    simp only [Option.bind_eq_bind, Option.bind_some, found]

/-- A line names what it is read as, if a separator follows the scheme. -/
theorem names_iff (line : Bytes) (path : Path) :
    Names line path ↔
      ∃ rest part, line = utf8 "file:" ++ rest ∧ rest.head? = some 47 ∧
        encodedPath rest = some part ∧ path = Percent.decode part := by
  constructor
  · rintro ⟨_, _, rest, part, rfl, split, rfl⟩
    exact ⟨rest, part, rfl, split.absolute, (encodedPath_iff rest part split.absolute).mpr split,
      rfl⟩
  · rintro ⟨rest, part, rfl, absolute, found, rfl⟩
    refine ⟨fun impossible => ?_, fun impossible => ?_, rest, part, rfl,
      (encodedPath_iff rest part absolute).mp found, rfl⟩
    · cases impossible
    · exact absurd (Option.some.inj impossible) (by decide)

/-- The path a line names is absolute. -/
theorem Names.absolute {line : Bytes} {path : Path} (names : Names line path) :
    path.head? = some 47 := by
  obtain ⟨_, _, rest, part, rfl, ⟨between, _, _, starts, _⟩, rfl⟩ := names
  cases part with
  | nil => cases starts
  | cons byte part =>
    obtain rfl : byte = 47 := Option.some.inj starts
    rw [Percent.decode_cons 47 part (by decide)]
    rfl

/-- After the scheme a line that is no path of this machine is still taken whole. -/
theorem read_relative (rest : Bytes) (relative : rest.head? ≠ some 47) :
    read (utf8 "file:" ++ rest) = some (Percent.decode rest) := by
  have bare : rest.dropPrefix? (utf8 "//") = none := by
    rw [Option.eq_none_iff_forall_ne_some]
    intro tail found
    rw [dropPrefix_iff] at found
    exact relative (by rw [found]; rfl)
  exact (read_iff _ _).mpr ⟨rest, rest, rfl, by simp only [encodedPath, bare], rfl⟩

/-- One path for each line that names one, in order, and every one of them absolute. -/
def TakesLocalFiles (uriList : Bytes) : Prop :=
  (∃ named : Bytes → Option Path, (∀ line path, named line = some path ↔ Names line path) ∧
    paths uriList = (lines uriList).filterMap named) ∧
  ∀ path ∈ paths uriList, path.head? = some 47

/-- Two readings of a list, one taking no more than the other, agree on every item when
they agree on the list. -/
theorem readings_agree {α β : Type} (less more : α → Option β) (items : List α)
    (covers : ∀ item value, less item = some value → more item = some value)
    (same : items.filterMap more = items.filterMap less) :
    ∀ item ∈ items, more item = less item := by
  have shorter (items : List α) :
      (items.filterMap less).length ≤ (items.filterMap more).length := by
    induction items with
    | nil => exact le_refl _
    | cons item items inductionHypothesis =>
      cases taken : less item with
      | none =>
        rw [List.filterMap_cons_none taken]
        cases kept : more item with
        | none =>
          rw [List.filterMap_cons_none kept]
          exact inductionHypothesis
        | some value =>
          rw [List.filterMap_cons_some kept, List.length_cons]
          omega
      | some value =>
        rw [List.filterMap_cons_some taken, List.filterMap_cons_some (covers item value taken),
          List.length_cons, List.length_cons]
        omega
  induction items with
  | nil =>
    intro item member
    cases member
  | cons first items inductionHypothesis =>
    cases taken : less first with
    | none =>
      cases kept : more first with
      | none =>
        rw [List.filterMap_cons_none taken, List.filterMap_cons_none kept] at same
        simpa [taken, kept] using inductionHypothesis same
      | some value =>
        rw [List.filterMap_cons_none taken, List.filterMap_cons_some kept] at same
        have longer := congrArg List.length same
        rw [List.length_cons] at longer
        have bound := shorter items
        omega
    | some value =>
      have kept := covers first value taken
      rw [List.filterMap_cons_some taken, List.filterMap_cons_some kept] at same
      simpa [taken, kept] using inductionHypothesis (List.cons.inj same).2

/-- Only local files are taken out of a list of URIs, unless a line goes on after its
scheme with something other than a separator. -/
theorem only_local_files_are_taken (uriList : Bytes) :
    TakesLocalFiles uriList ↔
      ∀ line ∈ lines uriList, ∀ rest, line = utf8 "file:" ++ rest → rest.head? = some 47 := by
  constructor
  · rintro ⟨⟨named, spec, same⟩, _⟩ line member rest rfl
    by_contra relative
    have covers (line : Bytes) (path : Path) (taken : named line = some path) :
        read line = some path := by
      obtain ⟨rest, part, start, _, found, decoded⟩ := (names_iff line path).mp ((spec _ _).mp taken)
      exact (read_iff line path).mpr ⟨rest, part, start, found, decoded⟩
    have agree := readings_agree named read (lines uriList) covers (paths_eq uriList ▸ same) _ member
    rw [read_relative rest relative] at agree
    obtain ⟨_, _, start, absolute, _⟩ := (names_iff _ _).mp ((spec _ _).mp agree.symm)
    exact relative (List.append_cancel_left start ▸ absolute)
  · intro absolute
    have taken (line : Bytes) (member : line ∈ lines uriList) (path : Path)
        (named : read line = some path) : Names line path := by
      obtain ⟨rest, part, start, found, decoded⟩ := (read_iff line path).mp named
      exact (names_iff line path).mpr
        ⟨rest, part, start, absolute line member rest start, found, decoded⟩
    refine ⟨⟨fun line => if (line.drop 5).head? = some 47 then read line else none, ?_, ?_⟩, ?_⟩
    · intro line path
      rw [Option.ite_none_right_eq_some, read_iff, names_iff]
      constructor
      · rintro ⟨starts, rest, part, rfl, found, decoded⟩
        exact ⟨rest, part, rfl, starts, found, decoded⟩
      · rintro ⟨rest, part, rfl, starts, found, decoded⟩
        exact ⟨starts, rest, part, rfl, found, decoded⟩
    · rw [paths_eq]
      refine List.filterMap_congr fun line member => ?_
      split
      · rfl
      · rename_i relative
        cases named : read line with
        | none => rfl
        | some path =>
          obtain ⟨rest, _, rfl, _⟩ := (read_iff line path).mp named
          exact absurd (absolute _ member rest rfl) relative
    · intro path member
      rw [paths_eq, List.mem_filterMap] at member
      obtain ⟨line, among, named⟩ := member
      exact (taken line among path named).absolute

/-- A relative path is taken for a local file. -/
theorem a_relative_path_is_taken :
    ¬ TakesLocalFiles (utf8 "file:x") ∧ paths (utf8 "file:x") = [utf8 "x"] := by
  have taken : paths (utf8 "file:x") = [utf8 "x"] := by decide
  refine ⟨fun takes => ?_, taken⟩
  have absolute := takes.2 (utf8 "x") (by rw [taken]; exact List.mem_singleton_self _)
  exact absurd absolute (by decide)

/-! ## Paths survive the list -/

/-- No line ends within an encoded path. -/
theorem escape_plain (path : Path) : (10 : UInt8) ∉ escape path := by
  intro member
  rw [escape] at member
  obtain plain | sign | digit := Percent.mem_encode isUnreserved path 10 member
  · exact absurd plain (by decide)
  · exact absurd sign (by decide)
  · exact absurd digit (by decide)

/-- A list of URIs has one line for each path, and an empty one at its end. -/
theorem lines_uriList (paths : List Path) :
    lines (uriList paths) = paths.map (fun path => utf8 "file://" ++ escape path) ++ [[]] := by
  induction paths with
  | nil => rfl
  | cons path paths inductionHypothesis =>
    have line : uriList (path :: paths) =
        (utf8 "file://" ++ escape path ++ [13]) ++ 10 :: uriList paths := by
      simp [uriList]
    have unbroken : (10 : UInt8) ∉ utf8 "file://" ++ escape path ++ [13] := by
      have scheme : (10 : UInt8) ∉ utf8 "file://" := by decide
      simp [scheme, escape_plain path]
    rw [line, lines, List.splitOn_append_cons_self_of_not_mem unbroken, List.map_cons,
      List.getLast?_append, List.dropLast_concat, List.map_cons, List.cons_append,
      ← inductionHypothesis]
    rfl

/-- An absolute path is read back from the line that names it. -/
theorem read_escape (path : Path) (absolute : path.head? = some 47) :
    read (utf8 "file://" ++ escape path) = some path := by
  have starts : (escape path).head? = some 47 := by
    cases path with
    | nil => cases absolute
    | cons byte path =>
      obtain rfl : byte = 47 := Option.some.inj absolute
      rw [escape, Percent.encode_cons isUnreserved 47 path (by decide)]
      rfl
  have split : LocalPart (utf8 "//" ++ escape path) (escape path) :=
    ⟨utf8 "//", by simp, rfl, starts, fun impossible => absurd impossible (by decide)⟩
  have found := (encodedPath_iff _ (escape path) split.absolute).mpr split
  refine (read_iff _ _).mpr ⟨utf8 "//" ++ escape path, escape path, rfl, found, ?_⟩
  rw [escape, Percent.decode_encode isUnreserved (by decide)]

/-- Absolute paths are read back from their list. -/
theorem paths_uriList (files : List Path) (absolute : ∀ path ∈ files, path.head? = some 47) :
    paths (uriList files) = files := by
  rw [paths_eq, lines_uriList, List.filterMap_append, List.filterMap_map]
  have each : files.filterMap (read ∘ fun path => utf8 "file://" ++ escape path) =
      files.filterMap some :=
    List.filterMap_congr fun path member => read_escape path (absolute path member)
  rw [each, List.filterMap_some]
  exact List.append_nil files

/-- Paths survive the list of URIs, and the selection that carries it. -/
theorem paths_survive_the_uri_list (files : List Path)
    (absolute : ∀ path ∈ files, path.head? = some 47) :
    paths (uriList files) = files ∧ (Selection.ofFiles files).filePaths = files := by
  have found : (Selection.ofFiles files).rep Mime.uriList =
      some { mime := Mime.uriList, bytes := uriList files } := by
    have text : Mime.eqIgnoreAsciiCase Mime.plainText Mime.uriList = false := by decide
    have list : Mime.eqIgnoreAsciiCase Mime.uriList Mime.uriList = true := by decide
    simp [Selection.rep, Selection.reps, Selection.ofFiles, text, list]
  refine ⟨paths_uriList files absolute, ?_⟩
  rw [Selection.filePaths, found]
  exact paths_uriList files absolute

/-- Two files, one of them with every awkward byte in its name. -/
theorem awkward_paths_survive :
    paths (uriList [utf8 "/a b", 47 :: [255, 10, 13, 37, 35]]) =
        [utf8 "/a b", 47 :: [255, 10, 13, 37, 35]] ∧
      (Selection.ofFiles [utf8 "/a b", 47 :: [255, 10, 13, 37, 35]]).filePaths =
        [utf8 "/a b", 47 :: [255, 10, 13, 37, 35]] :=
  paths_survive_the_uri_list _ (by decide)

end UriList

end Yank
