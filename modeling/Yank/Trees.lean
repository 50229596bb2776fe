import Yank.Store

/-!
# What a tree leads to

A file of a manifest is in a tree when its path is a link there and the link leads
where the name of its content leads. Each operation has one law about that: which
trees it leaves as they are, and which content keeps its name.
-/

namespace Yank.Store

variable {Id Hash : Type}

/-- A file is in a tree, as a link to the content it names. -/
def Linked (tree : String) (file : Files.FileRef Hash) (store : Store Hash) : Prop :=
  tree ∈ store.trees ∧ ∃ blob, (store.links tree).lookup file.path = some blob ∧
    store.blobs.entries (.blob file.hash) = some blob

/-- Every file of a manifest is in a tree. -/
def LaidOut (tree : String) (files : List (Files.FileRef Hash)) (store : Store Hash) : Prop :=
  ∀ file ∈ files, Linked tree file store

/-- The links of a tree stay, and so do the names of some content. -/
structure Keeps (tree : String) (kept : Hash → Prop) (before after : Store Hash) : Prop where
  trees : tree ∈ before.trees → tree ∈ after.trees
  links : tree ∈ before.trees → ∀ path blob, (before.links tree).lookup path = some blob →
    (after.links tree).lookup path = some blob
  blobs : ∀ hash blob, kept hash → before.blobs.entries (.blob hash) = some blob →
    after.blobs.entries (.blob hash) = some blob

/-- A link stays where its tree and its content are kept. -/
theorem Linked.keeps (tree : String) (kept : Hash → Prop) (before after : Store Hash)
    (file : Files.FileRef Hash) (linked : Linked tree file before)
    (keeps : Keeps tree kept before after) (named : kept file.hash) : Linked tree file after := by
  obtain ⟨planted, blob, leads, under⟩ := linked
  exact ⟨keeps.trees planted, blob, keeps.links planted file.path blob leads,
    keeps.blobs file.hash blob named under⟩

namespace Keeps
variable (tree : String) (kept : Hash → Prop) (store : Store Hash)

/-- Nothing was done. -/
theorem refl : Keeps tree kept store store where
  trees planted := planted
  links _ _ _ leads := leads
  blobs _ _ _ under := under

/-- What happens among the blobs alone leaves every tree. -/
theorem of_blobs (blobs : Inodes.Dir (SpoolName Hash) UInt8)
    (same : ∀ hash blob, kept hash → store.blobs.entries (.blob hash) = some blob →
      blobs.entries (.blob hash) = some blob) : Keeps tree kept store { store with blobs } where
  trees planted := planted
  links _ _ _ leads := leads
  blobs := same

/-- Writing to a file keeps every name. -/
theorem write (bytes : Bytes) (incoming : Incoming Hash) :
    Keeps tree kept store (store.write bytes incoming).2 :=
  of_blobs tree kept store _ (fun _ _ _ under => under)

variable [DecidableEq Hash]

/-- So does removing a partial. -/
theorem removePart (hash : Hash) :
    Keeps tree kept store { store with blobs := store.blobs.remove (.part hash) } := by
  refine of_blobs tree kept store _ ?_
  intro other blob _ under
  rw [Inodes.Dir.entries_remove_of_ne _ _ _ (by simp)]
  exact under

/-- So does making a file that is no content. -/
theorem create (name : SpoolName Hash) (bytes : Bytes) (noBlob : ∀ hash, SpoolName.blob hash ≠ name) :
    Keeps tree kept store { store with blobs := store.blobs.create name bytes } := by
  refine of_blobs tree kept store _ ?_
  intro other blob _ under
  rw [Inodes.Dir.entries_create_of_ne _ _ _ _ (noBlob other)]
  exact under

/-- So does opening a transfer. -/
theorem receive (hash : Hash) : Keeps tree kept store (store.receive hash).2 := by
  unfold Store.receive
  cases store.blobs.entries (.part hash) with
  | some file => exact refl tree kept store
  | none => exact create tree kept store (.part hash) [] (by simp)

/-- Content is taken in under a name of its own, unless it is there already. It is renamed only to
the name of a content that is not here, so no link leads there yet. -/
theorem take [ContentHash Hash] (tag : UInt64) (source : Option Bytes) :
    Keeps tree kept store (store.take tag source).1 := by
  cases source with
  | none =>
    refine of_blobs tree kept store _ ?_
    intro hash blob _ under
    rw [Inodes.Dir.entries_remove_of_ne _ _ _ (by simp)]
    exact under
  | some bytes =>
    let created := store.blobs.create (.taking tag) bytes
    have stays : ∀ hash, created.entries (.blob hash) = store.blobs.entries (.blob hash) := fun hash =>
      Inodes.Dir.entries_create_of_ne _ _ _ _ (by simp)
    refine of_blobs tree kept store _ ?_
    intro hash blob _ under
    by_cases here : store.has (ContentHash.of bytes) = true
    · rw [if_pos here, Inodes.Dir.entries_remove_of_ne _ _ _ (by simp)]
      exact (stays hash).trans under
    · have apart : SpoolName.blob hash ≠ .blob (ContentHash.of bytes) := by
        rintro same
        rw [Store.has, ← same, under] at here
        exact here rfl
      rw [if_neg here, Inodes.Dir.entries_rename_of_ne _ _ _ _ (by simp) apart]
      exact (stays hash).trans under

/-- The end of a transfer gives a name away only where it finds a partial to give it
to, after it got the right bytes. -/
theorem finish [ContentHash Hash] (incoming : Incoming Hash)
    (spares : ContentHash.of incoming.hashed = incoming.hash →
      (store.part incoming.hash).isSome = true → ¬ kept incoming.hash) :
    Keeps tree kept store (store.finish incoming) := by
  unfold Store.finish
  by_cases wrong : ContentHash.of incoming.hashed ≠ incoming.hash
  · rw [if_pos wrong]
    exact removePart tree kept store incoming.hash
  · rw [if_neg wrong]
    refine of_blobs tree kept store _ ?_
    intro hash blob named under
    by_cases own : hash = incoming.hash
    · have none_there : SpoolName.part incoming.hash ∉ store.blobs.names := by
        intro listed
        have present := (store.blobs.listed _).mp listed
        refine spares (not_not.mp wrong) ?_ (own ▸ named)
        rw [Store.part, Inodes.Dir.read, Option.isSome_map]
        exact present
      rw [Inodes.Dir.rename_absent _ _ _ none_there]
      exact under
    · rw [Inodes.Dir.entries_rename_of_ne _ _ _ _ (by simp) (by simpa using own)]
      exact under

omit [DecidableEq Hash] in
/-- And so does starting another tree. -/
theorem plant [EndpointText Id] (stamp : Stamp Id) (apart : tree ≠ stamp.fileName) :
    Keeps tree kept store (store.plant stamp) where
  trees planted := Finset.mem_insert_of_mem planted
  links _ path blob leads := by
    change (Function.update store.links stamp.fileName [] tree).lookup path = some blob
    rw [Function.update_of_ne apart]
    exact leads
  blobs _ _ _ under := under

end Keeps

/-- What was looked up before is found with more behind it. -/
theorem lookup_append (links more : List (String × Nat)) (path : String) (blob : Nat)
    (leads : links.lookup path = some blob) : (links ++ more).lookup path = some blob := by
  rw [List.lookup_append, leads, Option.some_or]

/-- A path that clashes with nothing is not there yet. -/
theorem lookup_unclashed (links : List (String × Nat)) (path : String)
    (free : links.any (fun taken => Files.clashes taken.1.toList path.toList ||
      Files.clashes path.toList taken.1.toList) = false) : links.lookup path = none := by
  rw [List.lookup_eq_none_iff]
  intro taken member
  have apart := List.any_eq_false.mp free taken member
  rw [bne_iff_ne]
  rintro rfl
  simp [Files.clashes] at apart

section Linking
variable [EndpointText Id] (tree : String) (kept : Hash → Prop) (store : Store Hash)
  (stamp : Stamp Id) (file : Files.FileRef Hash)

/-- What is linked goes behind the links there are. -/
theorem link_cases (links linked : List (String × Nat)) (added : store.link links file = some linked) :
    ∃ blob, store.blobs.entries (.blob file.hash) = some blob ∧ linked = links ++ [(file.path, blob)] ∧
      links.lookup file.path = none := by
  unfold link at added
  dsimp only at added
  split at added
  · rename_i usable
    obtain ⟨blob, under, rfl⟩ := Option.map_eq_some_iff.mp added
    rw [Bool.and_eq_true, Bool.not_eq_true'] at usable
    exact ⟨blob, under, rfl, lookup_unclashed links file.path usable.2⟩
  · cases added

/-- Linking a file into a tree keeps the links that are there, and a file that is
reported linked is. -/
theorem linkIn_spec :
    Keeps tree kept store (store.linkIn stamp file).1 ∧
      ((store.linkIn stamp file).2 = true → Linked stamp.fileName file (store.linkIn stamp file).1) := by
  unfold linkIn
  by_cases unusable : (!file.isSafe) = true
  · rw [if_pos unusable]
    exact ⟨Keeps.refl tree kept store, fun reported => nomatch reported⟩
  · rw [if_neg unusable]
    dsimp only
    -- Only this tree changes, and what it held stays in front.
    have grows : ∀ more : List (String × Nat), Keeps tree kept store
        { store with
          trees := insert stamp.fileName store.trees
          links := Function.update store.links stamp.fileName
            ((if stamp.fileName ∈ store.trees then store.links stamp.fileName else []) ++ more) } := by
      intro more
      refine ⟨fun planted => Finset.mem_insert_of_mem planted, ?_, fun _ _ _ under => under⟩
      intro planted path blob leads
      by_cases own : tree = stamp.fileName
      · subst own
        dsimp only
        rw [Function.update_self, if_pos planted]
        exact lookup_append _ more path blob leads
      · dsimp only
        rw [Function.update_of_ne own]
        exact leads
    cases added : store.link
        (if stamp.fileName ∈ store.trees then store.links stamp.fileName else []) file with
    | none =>
      refine ⟨?_, fun reported => nomatch reported⟩
      simpa using grows []
    | some linked =>
      obtain ⟨blob, under, rfl, free⟩ := link_cases store file _ linked added
      refine ⟨grows [(file.path, blob)], fun _ => ?_⟩
      refine ⟨Finset.mem_insert_self _ _, blob, ?_, under⟩
      dsimp only
      rw [Function.update_self, List.lookup_append, free, Option.none_or]
      simp

end Linking

section Sweep
variable (tree : String) (kept : Hash → Prop) (store : Store Hash)

/-- A sweep that keeps a tree leaves it, whichever one it looks at. -/
theorem Keeps.sweepTree [EndpointText Id] (stamp : Stamp Id) (listed : String) :
    Keeps stamp.fileName kept store (store.sweepTree (some stamp) listed) := by
  unfold Store.sweepTree
  by_cases living : (some stamp).map Stamp.fileName = some listed
  · rw [if_pos living]
    exact Keeps.refl _ kept store
  · rw [if_neg living]
    refine ⟨?_, fun _ _ _ leads => leads, fun _ _ _ under => under⟩
    intro planted
    refine Finset.mem_erase.mpr ⟨?_, planted⟩
    rintro rfl
    exact living rfl

/-- A sweep leaves the content it was told to keep. It removes names of content it was not told to
keep, and no link that is kept leads to one of these. -/
theorem Keeps.sweepBlob [DecidableEq Hash] (content : List Hash) (name : SpoolName Hash)
    (named : ∀ hash, kept hash → hash ∈ content) :
    Keeps tree kept store (store.sweepBlob content name) := by
  unfold Store.sweepBlob
  by_cases stays : isNamed content name = true
  · rw [if_pos stays]
    exact Keeps.refl tree kept store
  · rw [if_neg stays]
    refine Keeps.of_blobs tree kept store _ ?_
    intro hash blob keeps under
    have apart : SpoolName.blob hash ≠ name := by
      rintro rfl
      have among : content.contains hash = true := List.contains_iff_mem.mpr (named hash keeps)
      exact stays (by simpa [isNamed, SpoolName.named] using among)
    rw [Inodes.Dir.entries_remove_of_ne _ _ _ apart]
    exact under

end Sweep

end Yank.Store
