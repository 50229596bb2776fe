import Yank.Manifest
import Yank.Adjacent

/-!
# What a checked manifest rules out

Two files cannot share a path, and a path that is a file cannot also be a folder
of another. The check sorts the paths and compares neighbours, so a folder is
missed whenever some other path sorts between it and everything inside it: the
characters that sort before the separator, `-` and `.` among them, put such a
path there.
-/

namespace Yank.Files

variable {Hash : Type}

/-- Every part of the path is a plain name. -/
def Safe (path : List Char) : Prop :=
  ∀ part ∈ path.splitOn '/', part ≠ [] ∧ part ≠ ['.'] ∧ part ≠ ['.', '.'] ∧ '\x00' ∉ part

/-- The path is a folder the other one lies in. -/
def Ancestor (folder path : List Char) : Prop := folder ++ ['/'] <+: path

/-- The paths of a manifest. -/
def paths (files : List (FileRef Hash)) : List (List Char) :=
  files.map (fun file => file.path.toList)

/-- A manifest that can be laid out: every path is safe, none is there twice and
none is a folder of another. -/
structure Lays (paths : List (List Char)) : Prop where
  safe : ∀ path ∈ paths, Safe path
  once : paths.Nodup
  apart : ∀ folder ∈ paths, ∀ path ∈ paths, ¬ Ancestor folder path

/-- Some path goes on from the folder with a character that sorts before the
separator, so it is sorted between the folder and what lies in it. -/
def Hidden (paths : List (List Char)) (folder : List Char) : Prop :=
  ∃ path ∈ paths, ∃ next, next < '/' ∧ folder ++ [next] <+: path

/-- The check of a path finds what makes it unsafe. -/
theorem isSafe_iff (file : FileRef Hash) : file.isSafe = true ↔ Safe file.path.toList := by
  simp [FileRef.isSafe, Safe, and_assoc]

/-- The scan compares a path with itself or with a folder it lies in. The longer path goes on with
a separator where the shorter one ends, or it does not go on at all. -/
theorem clashes_iff (shorter longer : List Char) :
    clashes shorter longer = true ↔ shorter = longer ∨ Ancestor shorter longer := by
  have inside : (shorter.isPrefixOf longer && (longer.drop shorter.length).head? == some '/')
      = true ↔ Ancestor shorter longer := by
    rw [Bool.and_eq_true, List.isPrefixOf_iff_prefix, beq_iff_eq]
    constructor
    · rintro ⟨⟨rest, rfl⟩, first⟩
      rw [List.drop_left] at first
      cases rest with
      | nil => cases first
      | cons letter others =>
        cases first
        exact ⟨others, by simp⟩
    · rintro ⟨rest, rfl⟩
      constructor
      · exact ⟨'/' :: rest, by simp⟩
      · simp
  rw [clashes, Bool.or_eq_true, beq_iff_eq, inside]

/-- The order the paths are sorted by. -/
theorem sorted_paths (paths : List (List Char)) :
    (paths.insertionSort (· ≤ ·)).Pairwise (· ≤ ·) :=
  List.pairwise_insertionSort _ _

/-- The check on its two halves: safety of each path, then the scan. The scan is over neighbours
in the order of the paths. -/
theorem validate_ok_iff (files : List (FileRef Hash)) :
    validate files = .ok () ↔ (∀ path ∈ paths files, Safe path) ∧
      ∀ pair ∈ Adjacent.pairs ((paths files).insertionSort (· ≤ ·)),
        pair.1 ≠ pair.2 ∧ ¬ Ancestor pair.1 pair.2 := by
  have scanned : (Adjacent.pairs ((paths files).insertionSort (· ≤ ·))).all
      (fun pair => !clashes pair.1 pair.2) = true ↔
      ∀ pair ∈ Adjacent.pairs ((paths files).insertionSort (· ≤ ·)),
        pair.1 ≠ pair.2 ∧ ¬ Ancestor pair.1 pair.2 := by
    rw [List.all_eq_true]
    apply forall₂_congr
    intro pair _
    rw [Bool.not_eq_true', ← Bool.not_eq_true, clashes_iff, not_or]
  have safe : files.all FileRef.isSafe = true ↔ ∀ path ∈ paths files, Safe path := by
    simp [paths, isSafe_iff]
  unfold validate
  rw [ensure_bind_ok_iff, safe]
  simp only [ensure_ok_iff]
  rw [← scanned]
  rfl

/-- The scan passes exactly when no path is there twice and every folder in use
is hidden behind another path. -/
theorem scan_iff (paths : List (List Char)) :
    (∀ pair ∈ Adjacent.pairs (paths.insertionSort (· ≤ ·)),
        pair.1 ≠ pair.2 ∧ ¬ Ancestor pair.1 pair.2) ↔
      paths.Nodup ∧ ∀ folder ∈ paths, ∀ path ∈ paths, Ancestor folder path →
        Hidden paths folder := by
  have among (path : List Char) : path ∈ paths.insertionSort (· ≤ ·) ↔ path ∈ paths :=
    (List.perm_insertionSort _ paths).mem_iff
  constructor
  · intro scanned
    have strict := Adjacent.strict_of_pairs _ (sorted_paths paths)
      (fun pair beside => (scanned pair beside).1)
    constructor
    · exact (List.perm_insertionSort _ paths).nodup_iff.mp (strict.imp ne_of_lt)
    · rintro folder folderAmong path pathAmong ⟨rest, rfl⟩
      rw [List.append_assoc, List.singleton_append] at pathAmong
      -- The next neighbour of the folder is not in it, so it is sorted before what is.
      obtain ⟨neighbour, beside, above, notPast⟩ :=
        Adjacent.next_neighbour _ strict folder _ ((among folder).mpr folderAmong)
          ((among _).mpr pathAmong) (Adjacent.lt_append_cons folder rest '/')
      have outside := (scanned _ beside).2
      obtain below | rfl := notPast.lt_or_eq
      · obtain ⟨next, bounded, continued⟩ :=
          Adjacent.continues_of_between folder neighbour rest '/' above below
        obtain earlier | rfl := bounded.lt_or_eq
        · exact ⟨neighbour, (among _).mp (Adjacent.mem_of_mem_pairs _ _ beside).2, next,
            earlier, continued⟩
        · exact absurd continued outside
      · exact absurd ⟨rest, by simp⟩ outside
  · rintro ⟨once, hidden⟩ ⟨folder, path⟩ beside
    change folder ≠ path ∧ ¬ Ancestor folder path
    have strict : (paths.insertionSort (· ≤ ·)).Pairwise (· < ·) := by
      have distinct : (paths.insertionSort (· ≤ ·)).Pairwise (· ≠ ·) :=
        (List.perm_insertionSort _ paths).nodup_iff.mpr once
      exact ((sorted_paths paths).and distinct).imp
        (fun ⟨below, apart⟩ => lt_of_le_of_ne below apart)
    have members := Adjacent.mem_of_mem_pairs _ _ beside
    constructor
    · exact (Adjacent.lt_of_mem_pairs _ strict _ beside).ne
    · rintro ⟨rest, rfl⟩
      obtain ⟨middle, middleAmong, next, earlier, continued⟩ :=
        hidden folder ((among _).mp members.1) _ ((among _).mp members.2) ⟨rest, rfl⟩
      rw [List.append_assoc, List.singleton_append] at beside
      obtain ⟨above, below⟩ :=
        Adjacent.between_of_continues folder middle rest next '/' earlier continued
      obtain notAbove | notBelow :=
        Adjacent.nothing_between _ strict _ beside middle ((among middle).mpr middleAmong)
      · exact absurd above notAbove.not_gt
      · exact absurd below notBelow.not_gt

/-- The check accepts exactly the manifests that can be laid out, if and only if
it is not the case that the paths are safe and distinct, some path is a folder
in use, and every folder in use is hidden behind another path. -/
theorem validate_exact_iff (files : List (FileRef Hash)) :
    (validate files = .ok () ↔ Lays (paths files)) ↔
      ((∀ path ∈ paths files, Safe path) → (paths files).Nodup →
        (∃ folder ∈ paths files, ∃ path ∈ paths files, Ancestor folder path) →
        ∃ folder ∈ paths files, (∃ path ∈ paths files, Ancestor folder path) ∧
          ¬ Hidden (paths files) folder) := by
  have accepted := validate_ok_iff files
  rw [scan_iff] at accepted
  constructor
  · intro exact safe once ⟨folder, folderAmong, path, pathAmong, inside⟩
    by_contra allHidden
    push Not at allHidden
    have passes : validate files = .ok () := by
      rw [accepted]
      refine ⟨safe, once, ?_⟩
      intro holder holderAmong held heldAmong within
      exact allHidden holder holderAmong ⟨held, heldAmong, within⟩
    exact (exact.mp passes).apart folder folderAmong path pathAmong inside
  · intro seen
    constructor
    · intro passes
      obtain ⟨safe, once, hidden⟩ := accepted.mp passes
      refine ⟨safe, once, ?_⟩
      intro folder folderAmong path pathAmong inside
      obtain ⟨holder, holderAmong, ⟨held, heldAmong, within⟩, bare⟩ :=
        seen safe once ⟨folder, folderAmong, path, pathAmong, inside⟩
      exact bare (hidden holder holderAmong held heldAmong within)
    · intro lays
      rw [accepted]
      refine ⟨lays.safe, lays.once, ?_⟩
      intro folder folderAmong path pathAmong inside
      exact absurd inside (lays.apart folder folderAmong path pathAmong)

/-- A file, a folder of the same name, and a name with a dash sorted in between. -/
def dashed : List (FileRef Bytes) :=
  [⟨"a", 0, []⟩, ⟨"a-b", 0, []⟩, ⟨"a/b", 0, []⟩]

/-- The manifest passes although `a` would be a file and a folder at once. -/
theorem dash_hides_folder : ¬ (validate dashed = .ok () ↔ Lays (paths dashed)) := by
  intro exact
  have passes : validate dashed = .ok () := by decide
  have inside : Ancestor "a".toList "a/b".toList := ⟨['b'], by decide⟩
  exact (exact.mp passes).apart "a".toList (by decide) "a/b".toList (by decide) inside

end Yank.Files
