import Yank.FileOffers
import Yank.Following
import Yank.Getting
import Yank.UriList

/-!
# Where offered files are

A daemon keeps the trees of its clips below the directory it is given, and offers the files in
them as URIs made of the paths there. A URI has room for an absolute path only: what a list
says of a relative one is read as a host of the network.

What the file system answers is arbitrary, and so are the directories of the user.
-/

namespace Yank

/-- The directories the platform has for a user. -/
structure BaseDirs where
  configDir : Path
  dataDir : Path
  stateDir : Option Path
  runtimeDir : Option Path

/-- The resolved directories of one installation. -/
structure Dirs where
  config : Path
  state : Path
  /-- Where the control socket goes. -/
  runtime : Path
  /-- The directory everything was put under, when one was given. -/
  root : Option Path
deriving DecidableEq

inductive DirsFailure where
  | notCreated (path : Path)
  | notADirectory (path : Path)
  | noBase
deriving DecidableEq

/-- The text of an error; `display` prints a path. -/
def DirsFailure.text (display : Path → String) : DirsFailure → String
  | .notCreated path => "cannot create " ++ display path
  | .notADirectory path => display path ++ " is not a directory"
  | .noBase => "cannot determine the XDG base directories"

namespace Dirs

/-- Resolves the directories of the user, or puts everything under `overrideRoot` when it is
given. -/
def new (createPrivate isDir : Path → Bool) (base : Option BaseDirs) :
    Option Path → Except DirsFailure Dirs
  | some root => do
      ensure (createPrivate root) (.notCreated root)
      ensure (isDir root) (.notADirectory root)
      return { config := root, state := root, runtime := root, root := some root }
  | none => do
      let base ← base.elim (.error .noBase) .ok
      let state := Files.join (base.stateDir.getD base.dataDir) "yank"
      let config := Files.join base.configDir "yank"
      ensure (createPrivate config) (.notCreated config)
      ensure (createPrivate state) (.notCreated state)
      return { config, state, runtime := base.runtimeDir.getD state, root := none }

/-- The spool of copied files. -/
def filesDir (dirs : Dirs) : Path := Files.join dirs.state "files"

/-- Where the spool has its trees. -/
def trees (dirs : Dirs) : Path := Files.join dirs.filesDir "trees"

/-- A directory that was given is the one everything is under. -/
theorem new_root (createPrivate isDir : Path → Bool) (base : Option BaseDirs) (root : Path)
    (dirs : Dirs) (accepted : new createPrivate isDir base (some root) = .ok dirs) :
    dirs.state = root := by
  simp only [new, ensure_bind_ok_iff] at accepted
  obtain ⟨_, _, same⟩ := accepted
  cases same
  rfl

end Dirs

namespace Files

variable {Id Hash : Type}

/-- What `lay_out` returns: the tree it laid the files out in. -/
def layOutTree [EndpointText Id] (works links gone : List (Paths.Component UInt8) → Bool)
    (trees : Path) (stamp : Stamp Id) (files : List (FileRef Hash))
    (disk : Disks.Disk (Paths.Component UInt8)) : Option Path :=
  if (layOut works links gone trees stamp files disk).1 then some (join trees stamp.fileName)
  else none

/-- What is joined to a path is absolute exactly where the path is. -/
theorem join_absolute_iff (base : Path) (path : String)
    (relative : (utf8 path).head? ≠ some 47) :
    (join base path).head? = some 47 ↔ base.head? = some 47 := by
  rw [join_eq]
  by_cases filled : base = []
  · subst filled
    have joined : Paths.join [] (utf8 path) = utf8 path :=
      (if_neg relative).trans (if_pos (Or.inl rfl))
    rw [joined]
    simp [relative]
  · rw [Paths.join_head base (utf8 path) filled relative]

/-- The name of a tree starts with a digit. -/
theorem fileName_relative [EndpointText Id] (stamp : Stamp Id) :
    (utf8 stamp.fileName).head? ≠ some 47 := by
  rw [Ne, utf8_head_iff, Stamp.fileName, String.toList_append, String.toList_append,
    List.append_assoc, List.head?_append_of_ne_nil]
  · intro slash
    have member := List.mem_of_mem_head? slash
    rw [Nat.toString_eq_repr, Nat.toList_repr] at member
    exact absurd (Nat.isDigit_of_mem_toDigits (by decide) (by decide) member) (by decide)
  · rw [Nat.toString_eq_repr, Nat.toList_repr]
    exact Nat.toDigits_ne_nil

/-- A path that is safe is relative. -/
theorem relative_of_safe (path : String) (safe : Safe path.toList) :
    (utf8 path).head? ≠ some 47 := by
  intro rooted
  obtain ⟨others, split⟩ := Paths.parts_rooted _ rooted
  have plain := plain_parts path safe [] (by simp [split])
  exact plain.filled rfl

/-- The files of a copy that passes are absolute under a tree exactly where the tree is. A safe
path is relative, so joining it to the tree keeps the root of the tree or its want of one. -/
theorem treePaths_absolute_iff (copy : Copy Hash) (checked : copy.check = .ok ()) (tree : Path) :
    (∀ path ∈ treePaths copy tree, path.head? = some 47) ↔
      tree.head? = some 47 ∨ copy.files = [] := by
  simp only [Copy.check, ensure_bind_ok_iff] at checked
  have safe := ((validate_ok_iff copy.files).mp checked.2.2.2.2).1
  have each (file : FileRef Hash) (member : file ∈ copy.files) :
      (join tree file.path).head? = some 47 ↔ tree.head? = some 47 :=
    join_absolute_iff tree file.path
      (relative_of_safe file.path (safe _ (List.mem_map_of_mem member)))
  rw [treePaths, List.forall_mem_map]
  constructor
  · intro all
    cases files : copy.files with
    | nil => exact .inr rfl
    | cons file more =>
      have member : file ∈ copy.files := by simp [files]
      exact .inl ((each file member).mp (all file member))
  · rintro (absolute | none) file member
    · exact (each file member).mpr absolute
    · rw [none] at member
      cases member

end Files

namespace UriList

open Files

/-- What a line of an authority names is absolute. -/
theorem read_authority (rest : Bytes) (path : Path)
    (taken : read (utf8 "file://" ++ rest) = some path) : path.head? = some 47 := by
  obtain ⟨after, part, split, found, decoded⟩ := (read_iff _ _).mp taken
  have scheme : utf8 "file://" ++ rest = utf8 "file:" ++ (utf8 "//" ++ rest) := rfl
  have same : utf8 "//" ++ rest = after := List.append_cancel_left (scheme.symm.trans split)
  have absolute : after.head? = some 47 := by rw [← same]; rfl
  exact ((names_iff _ _).mpr ⟨after, part, split, absolute, found, decoded⟩).absolute

/-- A list of URIs is read back as its paths exactly where they are absolute. -/
theorem paths_uriList_iff (files : List Path) :
    paths (uriList files) = files ↔ ∀ path ∈ files, path.head? = some 47 := by
  constructor
  · intro same path member
    rw [← same, paths_eq, lines_uriList, List.filterMap_append, List.mem_append] at member
    obtain inLine | inLast := member
    · obtain ⟨line, listed, taken⟩ := List.mem_filterMap.mp inLine
      obtain ⟨file, _, rfl⟩ := List.mem_map.mp listed
      exact read_authority _ path taken
    · cases inLast
  · exact paths_uriList files

end UriList

namespace Clipboard

variable {Id Hash : Type} [LinearOrder Id] [ContentHash Hash]

/-- The bytes announced under a type. -/
def announcedAs (mime : String) (serves : List Serve) : Option Bytes :=
  (serves.find? (fun serve => serve.mimes.contains mime)).map (fun serve => serve.bytes)

omit [ContentHash Hash] in
/-- A copy whose files are in a tree is announced with a list of their URIs. The first
representation to go by that type is the rebuilt list, since plain text goes by other names. -/
theorem offered_uriList (board : Clipboard Id Hash) (copy : Copy Hash) (tree : Path)
    (here : board.tree = some tree) :
    announcedAs Mime.uriList (board.offered copy) = some (Files.uriList (treePaths copy tree)) := by
  have rebuilt := offered_rebuilt board copy tree here
  have carried : board.carried copy = rehomed copy tree := by simp [Clipboard.carried, here]
  have reps : (rehomed copy tree).reps.find?
      (fun rep => (Mime.aliases rep.mime).contains Mime.uriList) =
        some { mime := Mime.uriList, bytes := Files.uriList (treePaths copy tree) } := by
    have text : (Mime.aliases Mime.plainText).contains Mime.uriList = false := by decide
    have list : (Mime.aliases Mime.uriList).contains Mime.uriList = true := by decide
    simp only [rehomed, Selection.reps, Selection.ofFiles, List.cons_append, List.find?_cons,
      text, list, treePaths]
  obtain ⟨serve, among, named, _⟩ :=
    (servesFrom_first (rehomed copy tree).reps [] Mime.uriList _).mpr
      (.inr ⟨List.not_mem_nil, _, reps, rfl⟩)
  have offers : serve ∈ board.offered copy := by
    rw [offered, carried]
    exact List.mem_append_left _ among
  cases found : (board.offered copy).find? (fun serve => serve.mimes.contains Mime.uriList) with
  | none => exact absurd (List.contains_iff_mem.mpr named) (List.find?_eq_none.mp found serve offers)
  | some first =>
    have names : Mime.uriList ∈ first.mimes := by simpa using List.find?_some found
    have member := rebuilt.announced first (List.mem_of_find?_eq_some found) Mime.uriList names
      (by decide)
    rw [announcedAs, found]
    simp only [Selection.ofFiles, Selection.reps, List.mem_cons, Rep.mk.injEq, List.not_mem_nil,
      or_false] at member
    obtain ⟨other, _⟩ | ⟨_, bytes⟩ | ⟨other, _⟩ := member
    · exact absurd other (by decide)
    · exact congrArg some bytes
    · exact absurd other (by decide)

/-- The offered URIs lead to the files exactly where the directory is absolute. For every
directory that is accepted, every clip whose copy passes its check, and the tree that is
returned for it: the list of URIs in the offer for the tree is read back as the files laid out
in it, one for each entry of the manifest and in its order, if and only if the directory is
absolute or there is no file. -/
theorem offered_uris_lead_to_files_iff [EndpointText Id] (createPrivate isDir : Path → Bool)
    (base : Option BaseDirs) (root : Path) (dirs : Dirs)
    (accepted : Dirs.new createPrivate isDir base (some root) = .ok dirs)
    (works links gone : List (Paths.Component UInt8) → Bool)
    (disk : Disks.Disk (Paths.Component UInt8)) (board : Clipboard Id Hash) (stamp : Stamp Id)
    (copy : Copy Hash) (held : board.clip = some { stamp, copy := some copy })
    (checked : copy.check = .ok ()) (tree : Path)
    (laid : Files.layOutTree works links gone dirs.trees stamp copy.files disk = some tree)
    (serves : List Serve)
    (offers : .backend (.offer serves) ∈ effectsOf (board.materialized stamp tree)) :
    (announcedAs Mime.uriList serves).map UriList.paths = some (treePaths copy tree) ↔
      root.head? = some 47 ∨ copy.files = [] := by
  have offered : serves = ({ board with tree := some tree } : Clipboard Id Hash).offered copy := by
    obtain ⟨_, ignored⟩ | ⟨_, landed⟩ := materialized_cases stamp tree board
    · rw [ignored] at offers
      cases offers
    · rw [landed] at offers
      obtain ⟨was, carries, current, shown⟩ := apply_offers _ serves offers
      simp only [Clipboard.current, held] at current
      obtain ⟨rfl, rfl⟩ := Prod.mk.inj (Option.some.inj current)
      exact shown
  have under : tree.head? = some 47 ↔ root.head? = some 47 := by
    obtain ⟨_, same⟩ := Option.ite_none_right_eq_some.mp laid
    rw [← Option.some.inj same, Files.join_absolute_iff _ _ (Files.fileName_relative stamp),
      Dirs.trees, Files.join_absolute_iff _ _ (by decide), Dirs.filesDir,
      Files.join_absolute_iff _ _ (by decide),
      Dirs.new_root createPrivate isDir base root dirs accepted]
  rw [offered, offered_uriList _ copy tree rfl, Option.map_some, Option.some.injEq,
    UriList.paths_uriList_iff, Files.treePaths_absolute_iff copy checked tree, under]

/-- A clip with one file, offered from a directory at the root. The space in the file's name is
escaped in the URI and is read back. -/
theorem offered_uris_lead_to_files_from_the_root :
    let clock : Clock :=
      { stamp := 5000000, believed := 5000000, set := 5000000, lapse := 5000000 }
    let copy : Copy Bytes :=
      { selection :=
          { primary := { mime := Mime.uriList, bytes := Files.utf8 "file:///etc/passwd" }
            alternates := [] }
        secret := false
        ttl := none
        files := [{ path := "a b", size := 2, hash := [1, 2] }] }
    let stamp : Stamp Nat := { millis := 1, origin := 1 }
    let board : Clipboard Nat Bytes :=
      (new clock 0 Settings.default none).after [.accept clock { stamp, copy := some copy }]
    let tree := Files.utf8 "/s/files/trees/1-1"
    let offer := serves (rehomed copy tree) ++ []
    Effect.backend (.offer offer) ∈ effectsOf (board.materialized stamp tree) ∧
      (announcedAs Mime.uriList offer).map UriList.paths =
        some [Files.utf8 "/s/files/trees/1-1/a b"] := by
  intro clock copy stamp board tree offer
  have offers : Effect.backend (.offer offer) ∈ effectsOf (board.materialized stamp tree) := by
    decide +kernel
  have accepted : Dirs.new (fun _ => true) (fun _ => true) none (some (Files.utf8 "/s")) =
      .ok { config := Files.utf8 "/s", state := Files.utf8 "/s", runtime := Files.utf8 "/s",
            root := some (Files.utf8 "/s") } := rfl
  have laid : Files.layOutTree (fun _ => true) (fun _ => true) (fun _ => true)
      (Files.utf8 "/s/files/trees") stamp copy.files (Disks.Disk.untouched (fun _ => none)) =
        some tree := by decide +kernel
  refine ⟨offers, (offered_uris_lead_to_files_iff (fun _ => true) (fun _ => true) none
    (Files.utf8 "/s") _ accepted (fun _ => true) (fun _ => true) (fun _ => true)
    (Disks.Disk.untouched (fun _ => none)) board stamp copy (by decide +kernel) (by decide +kernel)
    tree laid offer offers).mpr (.inl rfl)⟩

/-- The same clip, offered from a directory where the daemon was started. The state directory was
given as a relative path, and so is every path that is offered. -/
theorem relative_uris_lead_nowhere :
    let clock : Clock :=
      { stamp := 5000000, believed := 5000000, set := 5000000, lapse := 5000000 }
    let copy : Copy Bytes :=
      { selection :=
          { primary := { mime := Mime.uriList, bytes := Files.utf8 "file:///etc/passwd" }
            alternates := [] }
        secret := false
        ttl := none
        files := [{ path := "a b", size := 2, hash := [1, 2] }] }
    let stamp : Stamp Nat := { millis := 1, origin := 1 }
    let board : Clipboard Nat Bytes :=
      (new clock 0 Settings.default none).after [.accept clock { stamp, copy := some copy }]
    let tree := Files.utf8 "spool/files/trees/1-1"
    let offer := serves (rehomed copy tree) ++ []
    copy.check = .ok () ∧
      Dirs.new (fun _ => true) (fun _ => true) none (some (Files.utf8 "spool")) =
        .ok { config := Files.utf8 "spool", state := Files.utf8 "spool",
              runtime := Files.utf8 "spool", root := some (Files.utf8 "spool") } ∧
      Files.layOutTree (fun _ => true) (fun _ => true) (fun _ => true)
        (Files.utf8 "spool/files/trees") stamp copy.files
        (Disks.Disk.untouched (fun _ => none)) = some tree ∧
      Effect.backend (.offer offer) ∈ effectsOf (board.materialized stamp tree) ∧
      treePaths copy tree = [Files.utf8 "spool/files/trees/1-1/a b"] ∧
      (announcedAs Mime.uriList offer).map UriList.paths = some [] := by
  intro clock copy stamp board tree offer
  refine ⟨by decide +kernel, rfl, by decide +kernel, by decide +kernel, by decide +kernel,
    by decide +kernel⟩

end Clipboard

end Yank
