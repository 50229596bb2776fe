import Yank.Copy
import Yank.Disks
import Yank.Store
import Yank.Walk

/-!
# Where a peer's paths lead

The files of a clip are laid out under the tree of its stamp, and written where the user asks
for them. Both join strings a peer wrote onto a folder of this machine and create what is
missing on the way.

The check of a manifest is of the strings, between their separators. What is created goes by
the components of the joined paths. A string that passes has a name for each part, and joined
it adds these and nothing else.
-/

namespace Yank.Files

open Disks

variable {Id Hash : Type}

/-- Where something is, by the components of its path. -/
abbrev Place := List (Paths.Component UInt8)

/-- A component as a path. -/
def asPath : Paths.Component UInt8 → Path
  | .root => [47]
  | .current => [46]
  | .above => [46, 46]
  | .normal name => name

inductive GetFailure where
  | filesPending
  | alreadyThere (path : Path)
  | unwritten
deriving DecidableEq

/-- The first component of each path, in order. -/
def tops (files : List (FileRef Hash)) : List (Paths.Component UInt8) :=
  (files.filterMap (fun file => (Paths.components (utf8 file.path)).head?)).insertionSort
    (fun left right => asPath left ≤ asPath right)

section Writes
variable (works : Place → Bool)

/-- The folder a path is in, with those above it. -/
def createParent (target : Path) (disk : Disk (Paths.Component UInt8)) :
    Bool × Disk (Paths.Component UInt8) :=
  match Paths.parent target with
  | some folder => disk.createDirAll works folder
  | none => (true, disk)

/-- One file of `get`. -/
def getFile (luck : Path → Place → Luck) (tree dest : Path) (file : FileRef Hash)
    (disk : Disk (Paths.Component UInt8)) : Bool × Disk (Paths.Component UInt8) :=
  let target := join dest file.path
  let made := createParent works target disk
  if made.1 then
    made.2.copy (luck (join tree file.path) (Paths.components target)) (Paths.components target)
  else made

/-- `get`, once the daemon answered: what is returned, and what it leaves on the disk. -/
def get (luck : Path → Place → Luck) (tree : Option Path) (dest : Path)
    (files : List (FileRef Hash)) (disk : Disk (Paths.Component UInt8)) :
    Except GetFailure Unit × Disk (Paths.Component UInt8) :=
  match tree with
  | none => (.error .filesPending, disk)
  | some tree =>
      let there (top : Paths.Component UInt8) : Bool :=
        (disk.node (Paths.components (Paths.join dest (asPath top)))).isSome
      match (tops files).find? there with
      | some top => (.error (.alreadyThere (Paths.join dest (asPath top))), disk)
      | none =>
          let written := Disk.allOf (getFile works luck tree dest) files disk
          (if written.1 then .ok () else .error .unwritten, written.2)

/-- One file of `lay_out`. -/
def layOutFile (links : Place → Bool) (tree : Path) (file : FileRef Hash)
    (disk : Disk (Paths.Component UInt8)) : Bool × Disk (Paths.Component UInt8) :=
  if file.isSafe then
    let link := join tree file.path
    let made := createParent works link disk
    if made.1 then made.2.hardLink (links (Paths.components link)) (Paths.components link)
    else made
  else (false, disk)

/-- The tree of a stamp, as far as it can be removed. -/
def cleared [EndpointText Id] (gone : Place → Bool) (trees : Path) (stamp : Stamp Id)
    (disk : Disk (Paths.Component UInt8)) : Disk (Paths.Component UInt8) :=
  disk.removeAll gone (Paths.components (join trees stamp.fileName))

/-- `Store::lay_out`: whether it succeeds, and what it leaves on the disk. -/
def layOut [EndpointText Id] (links gone : Place → Bool) (trees : Path) (stamp : Stamp Id)
    (files : List (FileRef Hash)) (disk : Disk (Paths.Component UInt8)) :
    Bool × Disk (Paths.Component UInt8) :=
  let tree := join trees stamp.fileName
  let planted := (cleared gone trees stamp disk).createDirAll works (Paths.components tree)
  if planted.1 then Disk.allOf (layOutFile works links tree) files planted.2 else planted

end Writes

/-! ## What a safe path adds -/

/-- A path is absolute as text exactly where it is as bytes. -/
theorem utf8_head_iff (path : String) :
    (utf8 path).head? = some 47 ↔ path.toList.head? = some '/' := by
  rw [utf8]
  cases path.toList with
  | nil => simp
  | cons letter letters =>
    rw [List.head?_cons, Option.some.injEq, List.flatMap_cons,
      List.head?_append_of_ne_nil _ String.utf8EncodeChar_ne_nil]
    constructor
    · intro first
      exact utf8_coding.unbroken letter (List.mem_of_mem_head? first)
    · rintro rfl
      decide

/-- Joining a text to a path is joining its bytes. -/
theorem join_eq (base : Path) (path : String) : join base path = Paths.join base (utf8 path) := by
  have rooted : (path.toList.head? == some '/') = true ↔ (utf8 path).head? = some 47 := by
    rw [beq_iff_eq, utf8_head_iff]
  have trailing : (base == [] || base.getLast? == some (47 : UInt8)) = true ↔
      base = [] ∨ base.getLast? = some 47 := by
    rw [Bool.or_eq_true, beq_iff_eq, beq_iff_eq]
  unfold join Paths.join
  by_cases absolute : (utf8 path).head? = some 47
  · rw [if_pos (rooted.mpr absolute)]
    exact (if_pos absolute).symm
  · rw [if_neg (mt rooted.mp absolute)]
    refine Eq.trans ?_ (if_neg absolute).symm
    by_cases trails : base = [] ∨ base.getLast? = some 47
    · rw [if_pos (trailing.mpr trails)]
      exact (if_pos trails).symm
    · rw [if_neg (mt trailing.mp trails)]
      exact (if_neg trails).symm

/-- The parts of a safe path, as the bytes they are. -/
theorem plain_parts (path : String) (safe : Safe path.toList) :
    ∀ part ∈ Paths.parts (utf8 path), Paths.Plain part :=
  fun part member => ((safe_iff path).mp safe part member).1

/-- A safe path joined to a folder is strictly below it, in its first component. A safe path has
plain components only, so each of them adds a component and none goes up; the folder is what is
left without the last one. -/
theorem join_inside (base : Path) (path : String) (safe : Safe path.toList) :
    ∃ top more, (Paths.components (utf8 path)).head? = some top ∧
      Paths.components (join base path) = Paths.components base ++ top :: more ∧
      Paths.components (Paths.join base (asPath top)) = Paths.components base ++ [top] ∧
      ∃ folder, Paths.parent (join base path) = some folder ∧
        (folder = Paths.components base ∨ ∃ less, folder = Paths.components base ++ top :: less) := by
  have plain := plain_parts path safe
  obtain ⟨first, others, split⟩ := List.exists_cons_of_ne_nil (Paths.parts_ne_nil (utf8 path))
  have fits : Paths.Plain first := plain first (by rw [split]; exact List.mem_cons_self)
  have whole := Paths.components_join base (utf8 path) plain
  have up := Paths.parent_join base (utf8 path) plain
  rw [← join_eq, split] at whole up
  refine ⟨.normal first, others.map .normal, ?_, whole, ?_, _, up, ?_⟩
  · rw [Paths.components_plain _ plain, split]
    rfl
  · have single := Paths.parts_single first fits.unbroken
    have one := Paths.components_join base first (by rw [single]; simpa using fits)
    rw [single] at one
    exact one
  · cases others with
    | nil => exact Or.inl (List.append_nil _)
    | cons second others => exact Or.inr ⟨_, rfl⟩

/-! ## What is touched -/

/-- Making the folder of a target leaves everything contained, where that folder is on the way or
inside. -/
theorem createParent_contained {base : Place} {entries : Paths.Component UInt8 → Prop}
    {before disk : Disk (Paths.Component UInt8)} (works : Place → Bool) (target : Path)
    (contained : Contained base entries before disk)
    (whereabouts : ∀ folder, Paths.parent target = some folder →
      folder <+: base ∨ Inside base entries folder) :
    Contained base entries before (createParent works target disk).2 := by
  unfold createParent
  split
  · rename_i folder isParent
    exact contained.createDirAll works folder (whereabouts folder isParent)
  · exact contained

/-- A safe path leads inside, and so do the folders on the way there. -/
theorem join_whereabouts (base : Path) (path : String) (safe : Safe path.toList)
    (entries : Paths.Component UInt8 → Prop)
    (listed : ∀ top, (Paths.components (utf8 path)).head? = some top → entries top) :
    Inside (Paths.components base) entries (Paths.components (join base path)) ∧
      ∀ folder, Paths.parent (join base path) = some folder →
        folder <+: Paths.components base ∨ Inside (Paths.components base) entries folder := by
  obtain ⟨top, more, first, whole, _, folder, up, place⟩ := join_inside base path safe
  refine ⟨⟨top, more, whole, listed top first⟩, ?_⟩
  intro other isParent
  obtain rfl := Option.some.inj (up.symm.trans isParent)
  obtain rfl | ⟨less, rfl⟩ := place
  · exact Or.inl (List.prefix_refl _)
  · exact Or.inr ⟨top, less, rfl, listed top first⟩

/-- Laying out a file does nothing outside its tree. The path is checked first; a safe one lies
below the tree, and so do the folders made for it. -/
theorem layOutFile_contained {before disk : Disk (Paths.Component UInt8)} (works links : Place → Bool)
    (tree : Path) (file : FileRef Hash)
    (contained : Contained (Paths.components tree) (fun _ => True) before disk) :
    Contained (Paths.components tree) (fun _ => True) before
      (layOutFile works links tree file disk).2 := by
  unfold layOutFile
  split
  · rename_i isSafe
    obtain ⟨inside, folders⟩ := join_whereabouts tree file.path ((isSafe_iff file).mp isSafe)
      (fun _ => True) (fun _ _ => trivial)
    have made := createParent_contained works (join tree file.path) contained folders
    dsimp only
    split
    · exact made.hardLink _ _ inside
    · exact made
  · exact contained

/-- Laying out creates the tree, and what is in it. -/
theorem layOut_contained [EndpointText Id] (works links gone : Place → Bool) (trees : Path)
    (stamp : Stamp Id) (files : List (FileRef Hash)) (disk : Disk (Paths.Component UInt8)) :
    Contained (Paths.components (join trees stamp.fileName)) (fun _ => True)
      (cleared gone trees stamp disk) (layOut works links gone trees stamp files disk).2 := by
  have planted : Contained (Paths.components (join trees stamp.fileName)) (fun _ => True)
      (cleared gone trees stamp disk) ((cleared gone trees stamp disk).createDirAll works
        (Paths.components (join trees stamp.fileName))).2 :=
    Contained.refl.createDirAll works _ (Or.inl (List.prefix_refl _))
  unfold layOut
  dsimp only
  split
  · exact Disk.allOf_keeps _ _ (fun _ => True)
      (fun file disk _ held => layOutFile_contained works links _ file held) files _
      (fun _ _ => trivial) planted
  · exact planted

/-- An entry of the destination that a file is to go to, and that is not there. -/
def Fresh (dest : Path) (files : List (FileRef Hash)) (disk : Disk (Paths.Component UInt8))
    (top : Paths.Component UInt8) : Prop :=
  top ∈ tops files ∧ disk.node (Paths.components dest ++ [top]) = none

/-- The top of a tree is what the paths start with. -/
theorem mem_tops (files : List (FileRef Hash)) (top : Paths.Component UInt8) :
    top ∈ tops files ↔ ∃ file ∈ files, (Paths.components (utf8 file.path)).head? = some top := by
  rw [tops, (List.perm_insertionSort _ _).mem_iff, List.mem_filterMap]

/-- Where an entry of a safe path is looked for. -/
theorem top_place (dest : Path) (files : List (FileRef Hash))
    (safe : ∀ file ∈ files, Safe file.path.toList) (top : Paths.Component UInt8)
    (listed : top ∈ tops files) :
    Paths.components (Paths.join dest (asPath top)) = Paths.components dest ++ [top] := by
  obtain ⟨file, member, first⟩ := (mem_tops files top).mp listed
  obtain ⟨other, _, first', _, place, _⟩ := join_inside dest file.path (safe file member)
  obtain rfl := Option.some.inj (first.symm.trans first')
  exact place

/-- What `get` does is done in entries that were not there. A destination that has any of the top
entries already is refused before the first one is made, so each entry below is made where nothing
was. -/
theorem get_contained (works : Place → Bool) (luck : Path → Place → Luck) (tree : Option Path)
    (dest : Path) (files : List (FileRef Hash)) (disk : Disk (Paths.Component UInt8))
    (safe : ∀ file ∈ files, Safe file.path.toList) :
    Contained (Paths.components dest) (Fresh dest files disk) disk
      (get works luck tree dest files disk).2 := by
  unfold get
  cases tree with
  | none => exact Contained.refl
  | some tree =>
    dsimp only
    split
    · exact Contained.refl
    · rename_i missing
      have fresh (top : Paths.Component UInt8) (listed : top ∈ tops files) :
          Fresh dest files disk top := by
        have nothing := List.find?_eq_none.mp missing top listed
        rw [Bool.not_eq_true, Option.isSome_eq_false_iff, Option.isNone_iff_eq_none,
          top_place dest files safe top listed] at nothing
        exact ⟨listed, nothing⟩
      refine Disk.allOf_keeps _ _ (fun file => file ∈ files) ?_ files disk
        (fun _ member => member) Contained.refl
      intro file before member held
      obtain ⟨inside, folders⟩ := join_whereabouts dest file.path (safe file member)
        (Fresh dest files disk)
        (fun top first => fresh top ((mem_tops files top).mpr ⟨file, member, first⟩))
      have made := createParent_contained works (join dest file.path) held folders
      unfold getFile
      dsimp only
      split
      · exact made.copy _ _ inside
      · exact made

/-- Where an entry is there, `get` fails before it does anything. The first entries are looked for
in order, and one that is found ends it. -/
theorem get_refuses (works : Place → Bool) (luck : Path → Place → Luck) (tree : Option Path)
    (dest : Path) (files : List (FileRef Hash)) (disk : Disk (Paths.Component UInt8))
    (safe : ∀ file ∈ files, Safe file.path.toList) (top : Paths.Component UInt8)
    (listed : top ∈ tops files) (taken : disk.node (Paths.components dest ++ [top]) ≠ none) :
    (∃ failure, (get works luck tree dest files disk).1 = .error failure) ∧
      (get works luck tree dest files disk).2 = disk := by
  unfold get
  cases tree with
  | none => exact ⟨⟨_, rfl⟩, rfl⟩
  | some tree =>
    dsimp only
    split
    · exact ⟨⟨_, rfl⟩, rfl⟩
    · rename_i missing
      have nothing := List.find?_eq_none.mp missing top listed
      rw [Bool.not_eq_true, Option.isSome_eq_false_iff, Option.isNone_iff_eq_none,
        top_place dest files safe top listed] at nothing
      exact absurd nothing taken

/-- A peer's paths stay inside. Laying a copy out creates the tree of its stamp, with the
folders above it that are missing, and everything else strictly below. Getting it creates and
writes strictly below the destination, in entries that were not there, and goes through no
link there; only a destination that is missing is created, with the folders above it. Where an
entry is there, nothing is done. -/
theorem peer_paths_stay_inside [EndpointText Id] (copy : Copy Hash) (checked : copy.check = .ok ()) :
    (∀ works links gone trees (stamp : Stamp Id) node,
      ∀ touch ∈ (layOut works links gone trees stamp copy.files (.untouched node)).2.touched,
        Within (Paths.components (join trees stamp.fileName)) (fun _ => True)
          (cleared gone trees stamp (.untouched node)) touch) ∧
    ∀ works luck tree dest node, (Disk.untouched node).Grounded →
      (∀ touch ∈ (get works luck tree dest copy.files (.untouched node)).2.touched,
        Within (Paths.components dest) (Fresh dest copy.files (.untouched node)) (.untouched node)
          touch ∧
        (∀ place, touch = .followed place → place <+: Paths.components dest) ∧
        ((∀ place, place <+: Paths.components dest → node place ≠ none) →
          ∀ place, touch = .made place ∨ touch = .wrote place →
            Inside (Paths.components dest) (Fresh dest copy.files (.untouched node)) place)) ∧
      ((∃ top ∈ tops copy.files, node (Paths.components dest ++ [top]) ≠ none) →
        (∃ failure, (get works luck tree dest copy.files (.untouched node)).1 = .error failure) ∧
          (get works luck tree dest copy.files (.untouched node)).2 = .untouched node) := by
  have safe : ∀ file ∈ copy.files, Safe file.path.toList := by
    simp only [Copy.check, ensure_bind_ok_iff] at checked
    have valid := ((validate_ok_iff copy.files).mp checked.2.2.2.2).1
    intro file member
    exact valid _ (List.mem_map_of_mem member)
  constructor
  · intro works links gone trees stamp node touch member
    have contained := layOut_contained works links gone trees stamp copy.files (.untouched node)
    exact (contained.touches touch member).resolve_left List.not_mem_nil
  · intro works luck tree dest node grounded
    have contained := get_contained works luck tree dest copy.files (.untouched node) safe
    constructor
    · intro touch member
      have within := (contained.touches touch member).resolve_left List.not_mem_nil
      exact ⟨within, within.straight grounded (fun _ fresh => fresh.2), within.strict⟩
    · rintro ⟨top, listed, taken⟩
      exact get_refuses works luck tree dest copy.files _ safe top listed taken

/-- A copy of one file in a folder. -/
def nested : Copy Bytes where
  selection := .of { mime := Mime.plainText, bytes := utf8 "a/b" }
  secret := false
  ttl := none
  files := [{ path := "a/b", size := 1, hash := [1] }]

/-- A working directory with nothing in it. -/
def emptyHere (place : Place) : Option Node :=
  if place = [] ∨ place = [.current] then some .folder else none

/-- An empty folder to stand in is a place to start. -/
theorem emptyHere_grounded : (Disk.untouched emptyHere).Grounded := by
  intro place more missing
  have filled : place ≠ [] ∧ place ≠ [.current] := by
    simpa [Disk.untouched, emptyHere] using missing
  have other : place ++ more ≠ [] ∧ place ++ more ≠ [.current] := by
    constructor
    · intro empty
      exact filled.1 (List.append_eq_nil_iff.mp empty).1
    · intro single
      obtain ⟨first, _⟩ | ⟨isAll, _⟩ := List.append_eq_singleton_iff.mp single
      · exact filled.1 first
      · exact filled.2 isAll
  simpa [Disk.untouched, emptyHere] using other

/-- The file is written below the working directory, and its folder created there. -/
theorem nested_stays_inside :
    (get (fun _ => true) (fun _ _ => .works) (some (utf8 "/t")) (utf8 ".") nested.files
        (.untouched emptyHere)).2.touched =
      [.made [.current, .normal (utf8 "a")],
        .wrote [.current, .normal (utf8 "a"), .normal (utf8 "b")]] ∧
    ∀ touch ∈ (get (fun _ => true) (fun _ _ => .works) (some (utf8 "/t")) (utf8 ".") nested.files
        (.untouched emptyHere)).2.touched,
      Within (Paths.components (utf8 ".")) (Fresh (utf8 ".") nested.files (.untouched emptyHere))
        (.untouched emptyHere) touch := by
  have stays := (@peer_paths_stay_inside Nat Bytes _ nested (by decide)).2 (fun _ => true)
    (fun _ _ => .works) (some (utf8 "/t")) (utf8 ".") emptyHere emptyHere_grounded
  exact ⟨by decide, fun touch member => (stays.1 touch member).1⟩

/-- The tree of a stamp is created too, and is not below itself. -/
theorem the_tree_itself_is_created :
    nested.check = .ok () ∧
    ∃ touch ∈ (layOut (fun _ => true) (fun _ => true) (fun _ => true) (utf8 "/s")
        ({ millis := 1, origin := 2 } : Stamp Nat) nested.files (.untouched fun place =>
          if place.length ≤ 2 then some .folder else none)).2.touched,
      touch = .made (Paths.components (join (utf8 "/s")
        ({ millis := 1, origin := 2 } : Stamp Nat).fileName)) ∧
      ¬ Inside (Paths.components (join (utf8 "/s")
          ({ millis := 1, origin := 2 } : Stamp Nat).fileName)) (fun _ => True)
        (Paths.components (join (utf8 "/s") ({ millis := 1, origin := 2 } : Stamp Nat).fileName)) := by
  refine ⟨by decide, .made (Paths.components (join (utf8 "/s")
    ({ millis := 1, origin := 2 } : Stamp Nat).fileName)), ?_, rfl, ?_⟩
  · decide
  · rintro ⟨top, more, longer, _⟩
    simpa using congrArg List.length longer

end Yank.Files
