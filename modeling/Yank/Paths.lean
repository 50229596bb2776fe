import Mathlib

/-!
# Paths as text

A path is a list of letters, two of which matter: the separator, and the dot of the parts
that stand for a folder itself and the one above. Taken apart at the separators, a path is
its parts; read as a walk, it is its components. An empty part or a lone dot takes the walk
nowhere, except at the start of a path.

Paths are compared by their components, and yet handed on as text: what is left of a path
behind its prefix is the rest of its letters, with whatever they repeat in the middle.
-/

namespace Paths

/-- The letters of paths. -/
class Alphabet (Letter : Type) where
  slash : Letter
  dot : Letter
  apart : slash ≠ dot

inductive Component (Letter : Type) where
  | root
  | current
  | above
  | normal (name : List Letter)
deriving DecidableEq

variable {Letter : Type} [DecidableEq Letter] [Alphabet Letter]

open Alphabet

/-- A path between its separators. -/
def parts (path : List Letter) : List (List Letter) := path.splitOn slash

/-- The path of some parts. -/
def ofParts (parts : List (List Letter)) : List Letter := [slash].intercalate parts

/-- A part that takes the walk nowhere. -/
def isBare (part : List Letter) : Bool := part == [] || part == [dot]

def component (part : List Letter) : Component Letter :=
  if part = [dot, dot] then .above else .normal part

/-- The components of the parts. -/
def named (parts : List (List Letter)) : List (Component Letter) :=
  (parts.filter (fun part => !isBare part)).map component

/-- What a path starts with before its parts. -/
def start (path : List Letter) : List (Component Letter) :=
  if path.head? = some slash then [.root]
  else if (parts path).head? = some [dot] then [.current]
  else []

def components (path : List Letter) : List (Component Letter) := start path ++ named (parts path)

/-- The components of the path one up; `none` for a root and for the empty path. -/
def parent (path : List Letter) : Option (List (Component Letter)) :=
  match (components path).getLast? with
  | none => none
  | some .root => none
  | some _ => some (components path).dropLast

/-- The parts behind a number of components. -/
def behind : Nat → List (List Letter) → List (List Letter)
  | 0, parts => parts.dropWhile isBare
  | count + 1, parts => behind count (parts.dropWhile isBare).tail

/-- What is left of a path behind a number of its components. Bare parts at the end go, and so
do those in front, unless nothing was taken off there. -/
def rest (path : List Letter) : Nat → List Letter
  | 0 =>
      let front := path.take (start path).length
      front ++ ofParts ((parts (path.drop (start path).length)).rdropWhile isBare)
  | count + 1 =>
      ofParts ((behind (count + 1 - (start path).length) (parts path)).rdropWhile isBare)

def stripPrefix (base : List (Component Letter)) (path : List Letter) : Option (List Letter) :=
  if base <+: components path then some (rest path base.length) else none

/-- An absolute path replaces, any other is appended after one separator. -/
def join (base path : List Letter) : List Letter :=
  if path.head? = some slash then path
  else if base = [] ∨ base.getLast? = some slash then base ++ path
  else base ++ slash :: path

/-! ## Parts -/

/-- Every path has a part, the empty one an empty one. -/
@[simp] theorem parts_ne_nil (path : List Letter) : parts path ≠ [] := List.splitOn_ne_nil _ _

/-- A path is the path of its parts. -/
@[simp] theorem ofParts_parts (path : List Letter) : ofParts (parts path) = path :=
  List.intercalate_splitOn _

/-- Parts without a separator are the parts of their path. -/
theorem parts_ofParts (parts : List (List Letter)) (filled : parts ≠ [])
    (unbroken : ∀ part ∈ parts, slash ∉ part) : Paths.parts (ofParts parts) = parts :=
  List.splitOn_intercalate _ unbroken filled

omit [DecidableEq Letter] in
/-- Parts after parts are separated from them. -/
theorem ofParts_append (front back : List (List Letter)) (filled : front ≠ []) (more : back ≠ []) :
    ofParts (front ++ back) = ofParts front ++ slash :: ofParts back := by
  induction front with
  | nil => exact absurd rfl filled
  | cons part front inductionHypothesis =>
    cases front with
    | nil =>
      obtain ⟨second, others, rfl⟩ := List.exists_cons_of_ne_nil more
      simp [ofParts]
    | cons second front =>
      have rest := inductionHypothesis (List.cons_ne_nil _ _)
      simp only [ofParts, List.cons_append, List.intercalate_cons_cons] at rest ⊢
      rw [rest]
      simp

/-- A separator is between parts. -/
theorem parts_append (front back : List Letter) :
    parts (front ++ slash :: back) = parts front ++ parts back :=
  List.splitOn_append_cons_self _ _

/-- Without a separator there is one part. -/
theorem parts_single (part : List Letter) (unbroken : slash ∉ part) : parts part = [part] :=
  List.splitOn_eq_singleton unbroken

/-- A plain part names something in the folder it is looked up in. -/
structure Plain (part : List Letter) : Prop where
  filled : part ≠ []
  notHere : part ≠ [dot]
  notAbove : part ≠ [dot, dot]
  unbroken : slash ∉ part

/-- A plain part leads somewhere. -/
theorem Plain.notBare {part : List Letter} (plain : Plain part) : isBare part = false := by
  simp [isBare, plain.filled, plain.notHere]

/-- And it names what it is. -/
theorem Plain.component {part : List Letter} (plain : Plain part) :
    component part = .normal part :=
  if_neg plain.notAbove

/-- The components of parts are those of each half. -/
theorem named_append (front back : List (List Letter)) :
    named (front ++ back) = named front ++ named back := by
  simp [named]

/-- Bare parts name nothing. -/
theorem named_bare (bares : List (List Letter)) (all : ∀ bare ∈ bares, isBare bare = true) :
    named bares = [] := by
  unfold named
  rw [List.map_eq_nil_iff, List.filter_eq_nil_iff]
  intro bare member
  simp [all bare member]

/-- Plain parts name what they are. -/
theorem named_plain (names : List (List Letter)) (plain : ∀ name ∈ names, Plain name) :
    named names = names.map .normal := by
  induction names with
  | nil => rfl
  | cons name names inductionHypothesis =>
    rw [List.forall_mem_cons] at plain
    have others := inductionHypothesis plain.2
    unfold named at others ⊢
    rw [List.filter_cons_of_pos (by simp [plain.1.notBare]), List.map_cons, others,
      plain.1.component, List.map_cons]

/-! ## Going down -/

/-- The parts a path keeps when it is gone down from. -/
def stem (base : List Letter) : List (List Letter) :=
  if base = [] ∨ base.getLast? = some slash then (parts base).dropLast else parts base

/-- The path some names lead to. -/
def below (base : List Letter) (names : List (List Letter)) : List Letter := names.foldl join base

/-- The empty path has one part, which is empty. -/
theorem parts_nil : parts ([] : List Letter) = [[]] := List.splitOn_nil _

/-- A path that ends in a separator has an empty part after it. -/
theorem parts_trailing (base : List Letter) (trails : base = [] ∨ base.getLast? = some slash) :
    parts base = stem base ++ [[]] := by
  rw [stem, if_pos trails]
  obtain rfl | ends := trails
  · rw [parts_nil]
    rfl
  · obtain ⟨front, rfl⟩ := List.getLast?_eq_some_iff.mp ends
    rw [parts_append, parts_nil, List.dropLast_concat]

/-- The parts kept for going down name what they all name. -/
theorem named_stem (base : List Letter) : named (stem base) = named (parts base) := by
  by_cases trails : base = [] ∨ base.getLast? = some slash
  · rw [parts_trailing base trails, named_append]
    have nothing : named ([[]] : List (List Letter)) = [] := by
      exact named_bare [[]] (by simp [isBare])
    rw [nothing, List.append_nil]
  · rw [stem, if_neg trails]

/-- Going down leaves the stem and adds the parts. -/
theorem parts_join (base path : List Letter) (relative : path.head? ≠ some slash) :
    parts (join base path) = stem base ++ parts path := by
  rw [join, if_neg relative]
  by_cases trails : base = [] ∨ base.getLast? = some slash
  · rw [if_pos trails, stem, if_pos trails]
    obtain rfl | ends := trails
    · rw [parts_nil]
      rfl
    · obtain ⟨front, rfl⟩ := List.getLast?_eq_some_iff.mp ends
      rw [List.append_assoc, List.singleton_append, parts_append, parts_append, parts_nil,
        List.dropLast_concat]
  · rw [if_neg trails, parts_append, stem, if_neg trails]

omit [DecidableEq Letter] in
/-- A plain name starts with no separator. -/
theorem Plain.relative {name : List Letter} (plain : Plain name) : name.head? ≠ some slash := by
  intro starts
  exact plain.unbroken (List.mem_of_mem_head? starts)

/-- Going down by a plain name adds it to the parts that are kept. -/
theorem parts_join_plain (base name : List Letter) (plain : Plain name) :
    parts (join base name) = stem base ++ [name] := by
  rw [parts_join base name plain.relative, parts_single name plain.unbroken]

/-- What a plain name was appended to ends in that name. -/
theorem stem_join_plain (base name : List Letter) (plain : Plain name) :
    stem (join base name) = parts (join base name) := by
  rw [stem, if_neg]
  rintro (empty | ends)
  · have parted := parts_join_plain base name plain
    rw [empty, parts_nil] at parted
    have single := congrArg List.getLast? parted
    rw [List.getLast?_concat, List.getLast?_singleton, Option.some.injEq] at single
    exact plain.filled single.symm
  · have parted := parts_join_plain base name plain
    rw [parts_trailing _ (Or.inr ends)] at parted
    have last := congrArg List.getLast? parted
    rw [List.getLast?_concat, List.getLast?_concat, Option.some.injEq] at last
    exact plain.filled last.symm

/-- So does going down by several. -/
theorem parts_below (base : List Letter) (names : List (List Letter)) (filled : names ≠ [])
    (plain : ∀ name ∈ names, Plain name) : parts (below base names) = stem base ++ names := by
  induction names generalizing base with
  | nil => exact absurd rfl filled
  | cons name names inductionHypothesis =>
    rw [List.forall_mem_cons] at plain
    rw [below, List.foldl_cons, ← below]
    cases names with
    | nil => exact parts_join_plain base name plain.1
    | cons second names =>
      rw [inductionHypothesis (join base name) (List.cons_ne_nil _ _) plain.2,
        stem_join_plain base name plain.1, parts_join_plain base name plain.1, List.append_assoc]
      rfl

/-- An empty first part is that of a path that is empty or starts at the root. -/
theorem starts_empty (path : List Letter) (empty : (parts path).head? = some []) :
    path = [] ∨ path.head? = some slash := by
  cases split : parts path with
  | nil => exact absurd split (parts_ne_nil path)
  | cons first others =>
    rw [split, List.head?_cons, Option.some.injEq] at empty
    subst empty
    have whole := ofParts_parts path
    rw [split, ofParts] at whole
    cases others with
    | nil =>
      left
      rw [← whole]
      rfl
    | cons second others =>
      right
      rw [← whole]
      rfl

/-- A path from the root starts with an empty part. -/
theorem parts_rooted (path : List Letter) (rooted : path.head? = some slash) :
    ∃ others, parts path = [] :: others := by
  obtain ⟨tail, rfl⟩ : ∃ tail, path = slash :: tail := by
    cases path with
    | nil => cases rooted
    | cons first tail => exact ⟨tail, by rw [Option.some.inj rooted]⟩
  exact ⟨parts tail, parts_append [] tail⟩

/-- The parts kept start with what all of them start with. -/
theorem stem_head (base : List Letter) (filled : base ≠ []) :
    (stem base).head? = (parts base).head? ∧ stem base ≠ [] := by
  by_cases trails : base = [] ∨ base.getLast? = some slash
  · obtain ⟨front, rfl⟩ := List.getLast?_eq_some_iff.mp (trails.resolve_left filled)
    have split : stem (front ++ [slash]) = parts front := by
      rw [stem, if_pos trails, parts_append, parts_nil, List.dropLast_concat]
    rw [split, parts_append, List.head?_append_of_ne_nil _ (parts_ne_nil front)]
    exact ⟨rfl, parts_ne_nil front⟩
  · rw [stem, if_neg trails]
    exact ⟨rfl, parts_ne_nil base⟩

/-- A path that is gone down from starts as before. -/
theorem join_head (base path : List Letter) (filled : base ≠ [])
    (relative : path.head? ≠ some slash) : (join base path).head? = base.head? := by
  rw [join, if_neg relative]
  split
  · exact List.head?_append_of_ne_nil _ filled
  · exact List.head?_append_of_ne_nil _ filled

/-- And it is not empty. -/
theorem join_ne_nil (base path : List Letter) (filled : base ≠ []) : join base path ≠ [] := by
  rw [join]
  split
  · rintro rfl
    rename_i starts
    cases starts
  · split
    · simp [filled]
    · simp

/-- Going down from somewhere keeps the start. -/
theorem start_join (base path : List Letter) (filled : base ≠ [])
    (relative : path.head? ≠ some slash) : start (join base path) = start base := by
  unfold start
  rw [join_head base path filled relative, parts_join base path relative,
    List.head?_append_of_ne_nil _ (stem_head base filled).2, (stem_head base filled).1]

/-- Its components start as before. -/
theorem start_below (base : List Letter) (names : List (List Letter)) (filled : base ≠ [])
    (plain : ∀ name ∈ names, Plain name) : start (below base names) = start base := by
  induction names generalizing base with
  | nil => rfl
  | cons name names inductionHypothesis =>
    rw [List.forall_mem_cons] at plain
    rw [below, List.foldl_cons, ← below,
      inductionHypothesis (join base name) (join_ne_nil base name filled) plain.2,
      start_join base name filled plain.1.relative]

/-- From nowhere a plain name leads to no start. -/
theorem start_plain (path name : List Letter) (others : List (List Letter))
    (split : parts path = name :: others) (plain : Plain name) : start path = [] := by
  unfold start
  rw [if_neg, if_neg]
  · rw [split, List.head?_cons, Option.some.injEq]
    exact plain.notHere
  · intro rooted
    obtain ⟨more, parted⟩ := parts_rooted path rooted
    rw [split] at parted
    exact plain.filled (List.cons.inj parted).1

/-- Going down adds a component for each name. The names are plain, so none of them is dropped as
a dot or names the folder above. -/
theorem components_below (base : List Letter) (names : List (List Letter))
    (plain : ∀ name ∈ names, Plain name) :
    components (below base names) = components base ++ names.map .normal := by
  cases names with
  | nil =>
    rw [List.map_nil, List.append_nil]
    rfl
  | cons name names =>
    have parted := parts_below base (name :: names) (List.cons_ne_nil _ _) plain
    have walked : named (parts (below base (name :: names))) =
        named (parts base) ++ (name :: names).map .normal := by
      rw [parted, named_append, named_stem, named_plain _ plain]
    unfold components
    by_cases filled : base = []
    · subst filled
      have nowhere : stem ([] : List Letter) = [] := by
        rw [stem, if_pos (Or.inl rfl), parts_nil]
        rfl
      rw [nowhere, List.nil_append] at parted
      rw [walked, start_plain _ name names parted (plain name List.mem_cons_self), parts_nil]
      rfl
    · rw [walked, start_below base _ filled plain, List.append_assoc]

/-- A path of plain parts is those. -/
theorem components_plain (path : List Letter) (plain : ∀ part ∈ parts path, Plain part) :
    components path = (parts path).map .normal := by
  obtain ⟨first, others, split⟩ := List.exists_cons_of_ne_nil (parts_ne_nil path)
  have nowhere := start_plain path first others split
    (plain first (by rw [split]; exact List.mem_cons_self))
  rw [components, nowhere, List.nil_append, named_plain _ plain]

/-- Joining a path of plain parts adds a component for each. -/
theorem components_join (base path : List Letter) (plain : ∀ part ∈ parts path, Plain part) :
    components (join base path) = components base ++ (parts path).map .normal := by
  have relative : path.head? ≠ some slash := by
    intro rooted
    obtain ⟨others, split⟩ := parts_rooted path rooted
    exact (plain [] (by rw [split]; exact List.mem_cons_self)).filled rfl
  by_cases filled : base = []
  · subst filled
    rw [join, if_neg relative, if_pos (Or.inl rfl), List.nil_append, components_plain path plain,
      components, parts_nil]
    rfl
  · rw [components, start_join base path filled relative, parts_join base path relative,
      named_append, named_stem, named_plain _ plain, components, List.append_assoc]

/-- One up from there is the base with all components but the last. -/
theorem parent_join (base path : List Letter) (plain : ∀ part ∈ parts path, Plain part) :
    parent (join base path) =
      some (components base ++ ((parts path).dropLast).map .normal) := by
  obtain ⟨early, last, split⟩ := (List.eq_nil_or_concat (parts path)).resolve_left
    (parts_ne_nil path)
  rw [List.concat_eq_append] at split
  unfold parent
  rw [components_join base path plain, split, List.map_append, List.map_singleton,
    ← List.append_assoc, List.getLast?_concat, List.dropLast_concat, List.dropLast_concat]

/-! ## Taking a prefix off -/

/-- Bare parts in front do not count. -/
theorem behind_bare (count : Nat) (bare : List Letter) (more : List (List Letter))
    (isOne : isBare bare = true) : behind count (bare :: more) = behind count more := by
  cases count with
  | zero => rw [behind, behind, List.dropWhile_cons_of_pos isOne]
  | succ count => rw [behind, behind, List.dropWhile_cons_of_pos isOne]

/-- Behind the components of some parts is what follows them. The induction is on the parts: a
bare one counts for no component and is passed over with the next that counts. -/
theorem behind_named (front more : List (List Letter)) :
    behind (named front).length (front ++ more) = more.dropWhile isBare := by
  induction front with
  | nil => rfl
  | cons part front inductionHypothesis =>
    rw [List.cons_append]
    cases bare : isBare part with
    | true =>
      have skipped : named (part :: front) = named front := by
        simp [named, bare]
      rw [skipped, behind_bare _ part _ bare, inductionHypothesis]
    | false =>
      have counted : (named (part :: front)).length = (named front).length + 1 := by
        simp [named, bare]
      rw [counted, behind, List.dropWhile_cons_of_neg (by simp [bare]), List.tail_cons,
        inductionHypothesis]

/-- Bare parts at the end go. -/
theorem rdropWhile_bare (front : List (List Letter)) (name : List Letter)
    (bares : List (List Letter)) (counts : isBare name = false)
    (all : ∀ bare ∈ bares, isBare bare = true) :
    (front ++ name :: bares).rdropWhile isBare = front ++ [name] := by
  induction bares using List.reverseRecOn with
  | nil => exact List.rdropWhile_concat_neg _ _ _ (by simp [counts])
  | append_singleton bares bare inductionHypothesis =>
    rw [List.forall_mem_append, List.forall_mem_singleton] at all
    rw [← List.cons_append, ← List.append_assoc, List.rdropWhile_concat_pos _ _ _ all.2,
      inductionHypothesis all.1]

/-- The last part of a path that counts, and the bare ones after it. -/
structure Ends (path name : List Letter) (front bares : List (List Letter)) : Prop where
  split : parts path = front ++ name :: bares
  counts : isBare name = false
  bare : ∀ bare ∈ bares, isBare bare = true

/-- A path with a part that counts has a last one. The induction is on the parts: the last one
that is not bare is the end, and those behind it are bare. -/
theorem ends_or_bare (path : List Letter) :
    (∀ part ∈ parts path, isBare part = true) ∨ ∃ front name bares, Ends path name front bares := by
  generalize parted : parts path = all
  have cases : (∀ part ∈ all, isBare part = true) ∨
      ∃ front name bares, all = front ++ name :: bares ∧ isBare name = false ∧
        ∀ bare ∈ bares, isBare bare = true := by
    clear parted
    induction all with
    | nil =>
      left
      intro part member
      cases member
    | cons part more inductionHypothesis =>
      obtain bare | ⟨front, name, bares, rfl, counts, all⟩ := inductionHypothesis
      · cases first : isBare part with
        | true => exact Or.inl (List.forall_mem_cons.mpr ⟨first, bare⟩)
        | false => exact Or.inr ⟨[], part, more, rfl, first, bare⟩
      · exact Or.inr ⟨part :: front, name, bares, rfl, counts, all⟩
  obtain bare | ⟨front, name, bares, split, counts, all⟩ := cases
  · exact Or.inl bare
  · exact Or.inr ⟨front, name, bares, ⟨parted.trans split, counts, all⟩⟩

/-- The components of such a path end in that part. -/
theorem Ends.components {path name : List Letter} {front bares : List (List Letter)}
    (ends : Ends path name front bares) :
    components path = (start path ++ named front) ++ [component name] := by
  have last : named (name :: bares) = [component name] := by
    have rest := named_bare bares ends.bare
    unfold named at rest ⊢
    rw [List.filter_cons_of_pos (by simp [ends.counts]), List.map_cons, rest]
  rw [Paths.components, ends.split, named_append, last, List.append_assoc]

/-- A part leads up or names something. -/
theorem component_cases (part : List Letter) :
    component part = .above ∨ component part = .normal part := by
  unfold component
  split
  · exact Or.inl rfl
  · exact Or.inr rfl

/-- Its parent is what comes before. -/
theorem Ends.parent {path name : List Letter} {front bares : List (List Letter)}
    (ends : Ends path name front bares) : parent path = some (start path ++ named front) := by
  unfold Paths.parent
  rw [ends.components, List.getLast?_concat, List.dropLast_concat]
  obtain isAbove | isNormal := component_cases name
  · rw [isAbove]
  · rw [isNormal]

/-- A path that starts with a bare part starts somewhere, or is empty. -/
theorem starts_bare (path bare : List Letter) (more : List (List Letter))
    (split : parts path = bare :: more) (isOne : isBare bare = true) (filled : path ≠ []) :
    start path ≠ [] := by
  unfold start
  by_cases rooted : path.head? = some slash
  · rw [if_pos rooted]
    exact List.cons_ne_nil _ _
  · rw [if_neg rooted]
    have here : (parts path).head? = some [dot] := by
      rw [split, List.head?_cons, Option.some.injEq]
      obtain rfl | rfl : bare = [] ∨ bare = [dot] := by simpa [isBare] using isOne
      · exact absurd (starts_empty path (by rw [split]; rfl)) (by simp [filled, rooted])
      · rfl
    rw [if_pos here]
    exact List.cons_ne_nil _ _

/-- A path with a part that counts is not empty. -/
theorem Ends.filled {path name : List Letter} {front bares : List (List Letter)}
    (ends : Ends path name front bares) : path ≠ [] := by
  rintro rfl
  have split := ends.split
  rw [parts_nil] at split
  have member : name ∈ ([[]] : List (List Letter)) := by
    rw [split]
    simp
  obtain rfl := List.mem_singleton.mp member
  cases ends.counts

/-- What the bare parts at the end leave of a path that is gone down from. -/
def trail (bares : List (List Letter)) : List (List Letter) :=
  if bares.getLast? = some [] then bares.dropLast else bares

omit [Alphabet Letter] in
/-- What is left of the bare parts at the end is bare parts. -/
theorem mem_of_mem_trail {part : List Letter} {bares : List (List Letter)}
    (member : part ∈ trail bares) : part ∈ bares := by
  unfold trail at member
  split at member
  · exact List.mem_of_mem_dropLast member
  · exact member

/-- A path is gone down from behind its last part that counts. If the path ends in a separator or
is empty its last part is dropped, and otherwise all parts stand in front. -/
theorem Ends.stem {path name : List Letter} {front bares : List (List Letter)}
    (ends : Ends path name front bares) : stem path = front ++ name :: trail bares := by
  have counts := ends.counts
  unfold trail
  by_cases trails : path = [] ∨ path.getLast? = some slash
  · have split := parts_trailing path trails
    rw [ends.split] at split
    obtain rfl | ⟨early, last, rfl⟩ := List.eq_nil_or_concat bares
    · have same := (List.append_inj' split rfl).2
      obtain rfl := (List.cons.inj same).1
      cases counts
    · rw [List.concat_eq_append] at split ⊢
      rw [← List.cons_append, ← List.append_assoc] at split
      obtain ⟨before, same⟩ := List.append_inj' split rfl
      rw [List.getLast?_concat, (List.cons.inj same).1, if_pos rfl, List.dropLast_concat, before]
  · rw [Paths.stem, if_neg trails, ends.split, if_neg]
    intro last
    obtain ⟨early, rfl⟩ := List.getLast?_eq_some_iff.mp last
    refine trails (Or.inr ?_)
    have whole := ofParts_parts path
    rw [ends.split, ← List.cons_append, ← List.append_assoc,
      ofParts_append _ [[]] (by simp) (List.cons_ne_nil _ _)] at whole
    rw [← whole]
    exact List.getLast?_concat

/-- The parts that are left of a path gone down from, behind the parent of where it started. -/
def leftover (name : List Letter) (bares names : List (List Letter)) : List (List Letter) :=
  if names = [] then [name] else name :: (trail bares ++ names)

/-- Gone down from, it has that part and the names after it. Without names they are the bare parts
at the end, which do not count. -/
theorem Ends.parts_below {path name : List Letter} {front bares : List (List Letter)}
    (ends : Ends path name front bares) (names : List (List Letter))
    (plain : ∀ other ∈ names, Plain other) :
    ∃ others, parts (below path names) = front ++ name :: others ∧
      (name :: others).rdropWhile isBare = leftover name bares names := by
  unfold leftover
  by_cases none : names = []
  · subst none
    refine ⟨bares, ends.split, ?_⟩
    rw [if_pos rfl]
    exact rdropWhile_bare [] name bares ends.counts ends.bare
  · refine ⟨trail bares ++ names, ?_, ?_⟩
    · rw [Paths.parts_below path names none plain, ends.stem, List.append_assoc, List.cons_append]
    · rw [if_neg none]
      obtain ⟨early, last, rfl⟩ := (List.eq_nil_or_concat names).resolve_left none
      have counts := (plain last (by simp)).notBare
      rw [List.concat_eq_append, ← List.append_assoc, ← List.cons_append,
        List.rdropWhile_concat_neg _ _ _ (by simp [counts])]

/-- What is left of a path gone down from, behind the parent of where it started. The parent's
components are those in front of the last part, so what is left begins with that part. -/
theorem Ends.stripped {path name : List Letter} {front bares : List (List Letter)}
    (ends : Ends path name front bares) (names : List (List Letter))
    (plain : ∀ other ∈ names, Plain other) :
    stripPrefix ((Paths.parent path).getD []) (below path names) =
      some (ofParts (leftover name bares names)) := by
  have begins : (start path ++ named front) <+: Paths.components (below path names) := by
    rw [components_below path names plain, ends.components, List.append_assoc]
    exact List.prefix_append _ _
  have same := start_below path names ends.filled plain
  obtain ⟨others, split, left⟩ := ends.parts_below names plain
  rw [ends.parent, Option.getD_some, stripPrefix, if_pos begins, Option.some.injEq]
  cases count : (start path ++ named front).length with
  | zero =>
    rw [List.length_append] at count
    have nowhere : start path = [] := List.length_eq_zero_iff.mp (by omega)
    -- Nothing before the part that counts: a bare part there would have started the path.
    have first : front = [] := by
      cases front with
      | nil => rfl
      | cons part front =>
        cases bare : isBare part with
        | true => exact absurd nowhere (starts_bare path part _ ends.split bare ends.filled)
        | false => simp [named, bare] at count
    subst first
    rw [rest, same, nowhere, List.length_nil, List.take_zero, List.drop_zero, List.nil_append,
      split, List.nil_append, left]
  | succ count' =>
    rw [List.length_append] at count
    have walked : count' + 1 - (start path).length = (named front).length := by omega
    rw [rest, same, walked, split, behind_named,
      List.dropWhile_cons_of_neg (by simp [ends.counts]), left]

/-- What is left over are the parts of its own path. -/
theorem parts_leftover {name : List Letter} {bares : List (List Letter)}
    (names : List (List Letter)) (unbroken : ∀ part ∈ leftover name bares names, slash ∉ part) :
    parts (ofParts (leftover name bares names)) = leftover name bares names := by
  refine parts_ofParts _ ?_ unbroken
  unfold leftover
  split
  · exact List.cons_ne_nil _ _
  · exact List.cons_ne_nil _ _

/-- No part holds a separator. The induction is on the path: a separator begins a new part and any
other letter is put in front of the first one. -/
theorem parts_unbroken (path part : List Letter) (member : part ∈ parts path) : slash ∉ part := by
  induction path generalizing part with
  | nil =>
    rw [parts_nil, List.mem_singleton] at member
    rw [member]
    exact List.not_mem_nil
  | cons letter path inductionHypothesis =>
    by_cases breaks : letter = slash
    · subst breaks
      have split : parts (slash :: path) = [] :: parts path := parts_append [] path
      rw [split] at member
      obtain rfl | member := List.mem_cons.mp member
      · exact List.not_mem_nil
      · exact inductionHypothesis part member
    · obtain ⟨first, others, split⟩ := List.exists_cons_of_ne_nil (parts_ne_nil path)
      have longer : parts (letter :: path) = (letter :: first) :: others := by
        unfold parts at split ⊢
        rw [List.splitOn_cons_eq_if_modifyHead, if_neg (by simp [breaks]), split]
        rfl
      rw [split] at inductionHypothesis
      rw [longer] at member
      obtain rfl | member := List.mem_cons.mp member
      · intro among
        obtain same | among := List.mem_cons.mp among
        · exact breaks same.symm
        · exact inductionHypothesis first List.mem_cons_self among
      · exact inductionHypothesis part (List.mem_cons_of_mem _ member)

/-- None of them has a separator. They are parts of the path, or names, and neither holds one. -/
theorem Ends.unbroken {path name : List Letter} {front bares : List (List Letter)}
    (ends : Ends path name front bares) (names : List (List Letter))
    (plain : ∀ other ∈ names, Plain other) :
    ∀ part ∈ leftover name bares names, slash ∉ part := by
  have own (part : List Letter) (member : part ∈ name :: bares) : slash ∉ part :=
    parts_unbroken path part (by rw [ends.split]; exact List.mem_append_right _ member)
  intro part member
  unfold leftover at member
  split at member
  · obtain rfl := List.mem_singleton.mp member
    exact own part List.mem_cons_self
  · obtain rfl | member := List.mem_cons.mp member
    · exact own part List.mem_cons_self
    · obtain member | member := List.mem_append.mp member
      · exact own part (List.mem_cons_of_mem _ (mem_of_mem_trail member))
      · exact (plain part member).unbroken

/-- Without the parent of where it started, a path that was gone down from is what is left over. -/
theorem Ends.parts_stripped {path name : List Letter} {front bares : List (List Letter)}
    (ends : Ends path name front bares) (names : List (List Letter))
    (plain : ∀ other ∈ names, Plain other) (left : List Letter)
    (stripped : stripPrefix ((Paths.parent path).getD []) (below path names) = some left) :
    parts left = leftover name bares names := by
  rw [ends.stripped names plain, Option.some.injEq] at stripped
  rw [← stripped, parts_leftover names (ends.unbroken names plain)]

/-- A path written so that what is below it keeps a plain name of its own: it ends in one, but
for a separator when something is below it, and for bare parts when nothing is. -/
def Owns (path : List Letter) (names : List (List Letter)) (name : List Letter) : Prop :=
  ∃ front bares, Ends path name front bares ∧ Plain name ∧
    (names ≠ [] → bares = [] ∨ bares = [[]])

omit [Alphabet Letter] in
/-- Nothing is left of the bare parts where there are none, or one that is empty. -/
theorem trail_nil_iff (bares : List (List Letter)) : trail bares = [] ↔ bares = [] ∨ bares = [[]] := by
  unfold trail
  split
  · rename_i last
    obtain ⟨early, rfl⟩ := List.getLast?_eq_some_iff.mp last
    simp
  · rename_i last
    constructor
    · exact Or.inl
    · rintro (rfl | rfl)
      · rfl
      · exact absurd rfl last

/-- A path starts at the root, where one is, or with its first part. -/
theorem start_cases (path : List Letter) :
    start path = [] ∨ path.head? = some slash ∧ start path = [.root] ∨
      path.head? ≠ some slash ∧ (parts path).head? = some [dot] ∧ start path = [.current] := by
  unfold start
  by_cases rooted : path.head? = some slash
  · exact Or.inr (Or.inl ⟨rooted, if_pos rooted⟩)
  · rw [if_neg rooted]
    by_cases here : (parts path).head? = some [dot]
    · exact Or.inr (Or.inr ⟨rooted, here, if_pos here⟩)
    · exact Or.inl (if_neg here)

omit [DecidableEq Letter] in
/-- Parts that start with an empty one start with a separator, unless it is the only one. -/
theorem ofParts_empty (parts more : List (List Letter)) (among : parts <+: [] :: more) :
    ofParts parts = [] ∨ ∃ tail, ofParts parts = slash :: tail := by
  cases parts with
  | nil => exact Or.inl rfl
  | cons first others =>
    obtain rfl : first = [] := (List.cons_prefix_cons.mp among).1
    cases others with
    | nil => exact Or.inl rfl
    | cons second others => exact Or.inr ⟨_, rfl⟩

/-- What is left of a path whole keeps its start, which is no plain part. A path that begins at
the root keeps an empty part in front, and one that begins at a dot keeps the dot; neither is
plain. -/
theorem rest_start (path : List Letter) (begins : start path ≠ []) :
    ∃ part ∈ parts (rest path 0), ¬ Plain part := by
  obtain nowhere | ⟨rooted, one⟩ | ⟨_, here, one⟩ := start_cases path
  · exact absurd nowhere begins
  · obtain ⟨tail, rfl⟩ : ∃ tail, path = slash :: tail := by
      cases path with
      | nil => cases rooted
      | cons first tail => exact ⟨tail, by rw [Option.some.inj rooted]⟩
    refine ⟨[], ?_, fun plain => plain.filled rfl⟩
    rw [rest, one]
    have split := parts_append [] (ofParts ((parts tail).rdropWhile isBare))
    rw [parts_nil] at split
    have whole : parts (slash :: ofParts ((parts tail).rdropWhile isBare)) =
        [] :: parts (ofParts ((parts tail).rdropWhile isBare)) := split
    simp [whole]
  · refine ⟨[dot], ?_, fun plain => plain.notHere rfl⟩
    obtain ⟨first, others, split⟩ := List.exists_cons_of_ne_nil (parts_ne_nil path)
    rw [split, List.head?_cons, Option.some.injEq] at here
    subst here
    have single : parts [dot] = [[(dot : Letter)]] :=
      parts_single _ (by simpa using Alphabet.apart)
    have after : ∃ more, parts (path.drop 1) = [] :: more := by
      have whole := ofParts_parts path
      rw [split] at whole
      rw [← whole]
      cases others with
      | nil => exact ⟨[], parts_nil⟩
      | cons second others => exact parts_rooted _ rfl
    obtain ⟨more, after⟩ := after
    have front : path.take 1 = [dot] := by
      have whole := ofParts_parts path
      rw [split] at whole
      rw [← whole]
      cases others with
      | nil => rfl
      | cons second others => rfl
    have kept : (parts (path.drop 1)).rdropWhile isBare <+: [] :: more :=
      after ▸ List.rdropWhile_prefix _ _
    rw [rest, one, List.length_singleton, front]
    obtain nothing | ⟨tail, continues⟩ := ofParts_empty _ more kept
    · rw [nothing, List.append_nil, single]
      exact List.mem_singleton_self _
    · rw [continues, parts_append, single]
      exact List.mem_append_left _ (List.mem_singleton_self _)

/-- The path of bare parts only is its start, and its parent has no components. -/
theorem parent_bare (path : List Letter) (bare : ∀ part ∈ parts path, isBare part = true) :
    (parent path).getD [] = [] := by
  have only : components path = start path := by
    rw [components, named_bare _ bare, List.append_nil]
  unfold parent
  rw [only]
  obtain nowhere | ⟨_, one⟩ | ⟨_, _, one⟩ := start_cases path
  · rw [nowhere]
    rfl
  · rw [one]
    rfl
  · rw [one]
    rfl

/-- Below a path that keeps its own name, that name and those below it are left. -/
theorem Owns.parts_stripped {path : List Letter} {names : List (List Letter)} {name : List Letter}
    (owns : Owns path names name) (plain : ∀ other ∈ names, Plain other) (left : List Letter)
    (stripped : stripPrefix ((Paths.parent path).getD []) (below path names) = some left) :
    parts left = name :: names := by
  obtain ⟨front, bares, ends, _, tail⟩ := owns
  rw [ends.parts_stripped names plain left stripped, leftover]
  split
  · rename_i none
    rw [none]
  · rename_i some
    rw [(trail_nil_iff bares).mpr (tail some), List.nil_append]

/-- Below a path only plain parts are left behind its parent exactly when it keeps a plain
name of its own. -/
theorem stripped_plain_iff (path : List Letter) (names : List (List Letter))
    (plain : ∀ other ∈ names, Plain other) (filled : path ≠ []) (left : List Letter)
    (stripped : stripPrefix ((parent path).getD []) (below path names) = some left) :
    (∀ part ∈ parts left, Plain part) ↔ ∃ name, Owns path names name := by
  constructor
  · intro all
    obtain bare | ⟨front, name, bares, ends⟩ := ends_or_bare path
    · obtain ⟨first, others, split⟩ := List.exists_cons_of_ne_nil (parts_ne_nil path)
      have begins : start path ≠ [] :=
        starts_bare path first others split (bare first (by rw [split]; exact List.mem_cons_self))
          filled
      rw [parent_bare path bare, stripPrefix, if_pos List.nil_prefix, List.length_nil,
        Option.some.injEq] at stripped
      obtain ⟨part, member, unfit⟩ :=
        rest_start (below path names) (by rwa [start_below path names filled plain])
      rw [stripped] at member
      exact absurd (all part member) unfit
    · rw [ends.parts_stripped names plain left stripped, leftover] at all
      split at all
      · rename_i none
        exact ⟨name, front, bares, ends, all name (List.mem_singleton_self _),
          fun some => absurd none some⟩
      · refine ⟨name, front, bares, ends, all name List.mem_cons_self, ?_⟩
        intro _
        -- What trails is bare, and nothing bare is plain.
        rw [← trail_nil_iff, List.eq_nil_iff_forall_not_mem]
        intro part member
        have fits := all part (List.mem_cons_of_mem _ (List.mem_append_left _ member))
        have unfit := ends.bare part (mem_of_mem_trail member)
        rw [fits.notBare] at unfit
        cases unfit
  · rintro ⟨name, owns⟩
    rw [owns.parts_stripped plain left stripped]
    obtain ⟨_, _, _, own, _⟩ := owns
    exact List.forall_mem_cons.mpr ⟨own, plain⟩

/-! ## Folders among paths -/

/-- A path goes on from another behind a separator exactly when its parts go on from the
other's. -/
theorem inside_iff (folder path : List Letter) :
    folder ++ [slash] <+: path ↔
      parts folder <+: parts path ∧ (parts folder).length < (parts path).length := by
  constructor
  · rintro ⟨more, rfl⟩
    rw [List.append_assoc, List.singleton_append, parts_append, List.length_append]
    have some := List.length_pos_iff.mpr (parts_ne_nil more)
    exact ⟨List.prefix_append _ _, by omega⟩
  · rintro ⟨⟨more, whole⟩, longer⟩
    rw [← whole, List.length_append] at longer
    have filled : more ≠ [] := List.length_pos_iff.mp (by omega)
    refine ⟨ofParts more, ?_⟩
    have path := ofParts_parts path
    rw [← whole, ofParts_append _ _ (parts_ne_nil folder) filled, ofParts_parts] at path
    rw [← path, List.append_assoc, List.singleton_append]

/-! ## Paths in other letters -/

section Coding

variable {Other : Type} [DecidableEq Other] [Alphabet Other]

/-- A way to write letters in others that leaves separators and dots what they are. -/
structure Coding (encode : Letter → List Other) : Prop where
  slash : encode slash = [slash]
  dot : encode dot = [dot]
  unbroken : ∀ letter, Alphabet.slash ∈ encode letter → letter = Alphabet.slash
  injective : Function.Injective (fun word : List Letter => word.flatMap encode)

/-- A word in front goes to the first part. The induction is on the word, which breaks nowhere. -/
theorem parts_word (word more : List Letter) (unbroken : slash ∉ word) :
    parts (word ++ more) = (parts more).modifyHead (word ++ ·) := by
  induction word with
  | nil =>
    obtain ⟨first, others, split⟩ := List.exists_cons_of_ne_nil (parts_ne_nil more)
    rw [List.nil_append, split]
    rfl
  | cons letter word inductionHypothesis =>
    rw [List.mem_cons, not_or] at unbroken
    have rest := inductionHypothesis unbroken.2
    unfold parts at rest ⊢
    rw [List.cons_append, List.splitOn_cons_eq_if_modifyHead,
      if_neg (by simp [Ne.symm unbroken.1]), rest]
    obtain ⟨first, others, split⟩ := List.exists_cons_of_ne_nil (parts_ne_nil more)
    unfold parts at split
    rw [split]
    rfl

/-- The parts of a path in other letters are its parts in other letters. The induction is on the
path: no letter but the separator is written with one, so the parts break in the same places. -/
theorem Coding.parts {encode : Letter → List Other} (coding : Coding encode)
    (path : List Letter) :
    parts (path.flatMap encode) = (parts path).map (fun part => part.flatMap encode) := by
  induction path with
  | nil =>
    rw [List.flatMap_nil, parts_nil, parts_nil]
    rfl
  | cons letter path inductionHypothesis =>
    rw [List.flatMap_cons]
    by_cases breaks : letter = Alphabet.slash
    · subst breaks
      rw [coding.slash]
      have coded := parts_append [] (path.flatMap encode)
      have plain := parts_append [] path
      rw [List.nil_append, parts_nil] at coded plain
      rw [List.singleton_append, coded, plain, inductionHypothesis]
      rfl
    · have whole : Alphabet.slash ∉ encode letter := fun among =>
        breaks (coding.unbroken letter among)
      have single := parts_word [letter] path (by simp [Ne.symm breaks])
      rw [parts_word _ _ whole, inductionHypothesis]
      rw [List.singleton_append] at single
      rw [single]
      obtain ⟨first, others, split⟩ := List.exists_cons_of_ne_nil (parts_ne_nil path)
      rw [split]
      rfl

omit [DecidableEq Letter] [DecidableEq Other] in
/-- A part is plain in whatever letters. The dot, the separator and nothing are written as
themselves and by no other words, and plainness asks about these alone. -/
theorem Coding.plain_iff {encode : Letter → List Other} (coding : Coding encode)
    (part : List Letter) : Plain (part.flatMap encode) ↔ Plain part := by
  have coded (word other : List Letter) :
      word.flatMap encode = other.flatMap encode ↔ word = other := coding.injective.eq_iff
  have empty := coded part []
  have here := coded part [Alphabet.dot]
  have above := coded part [Alphabet.dot, Alphabet.dot]
  simp only [List.flatMap_nil, List.flatMap_cons, coding.dot, List.append_nil,
    List.singleton_append] at empty here above
  have unbroken : Alphabet.slash ∈ part.flatMap encode ↔ Alphabet.slash ∈ part := by
    rw [List.mem_flatMap]
    constructor
    · rintro ⟨letter, among, breaks⟩
      exact coding.unbroken letter breaks ▸ among
    · intro among
      exact ⟨_, among, by rw [coding.slash]; exact List.mem_singleton_self _⟩
  constructor
  · rintro ⟨filled, notHere, notAbove, whole⟩
    exact ⟨mt empty.mpr filled, mt here.mpr notHere, mt above.mpr notAbove, mt unbroken.mpr whole⟩
  · rintro ⟨filled, notHere, notAbove, whole⟩
    exact ⟨mt empty.mp filled, mt here.mp notHere, mt above.mp notAbove, mt unbroken.mp whole⟩

end Coding

end Paths
