import Yank.Store

/-!
# What stands in the spool

What matters to a sweep is which names there are, not what is under them. Each
operation has one law about names: what the transfers of one clip do is confined
to the content it names and to its own tree, and never takes content away.
-/

namespace Yank.Store

variable {Id Hash : Type} [DecidableEq Hash]

omit [DecidableEq Hash] in
/-- Content is there if its name is. -/
theorem has_iff (store : Store Hash) (hash : Hash) :
    store.has hash = true ↔ SpoolName.blob hash ∈ store.blobs.names :=
  (store.blobs.listed _).symm

/-- A name is kept if it is that of some content, whole or partial. -/
theorem isNamed_iff (content : List Hash) (name : SpoolName Hash) :
    isNamed content name = true ↔ ∃ hash ∈ content, name.named = some hash := by
  cases named : name.named with
  | none => simp [isNamed, named]
  | some hash => simp [isNamed, named]

/-- What an operation for a clip does to the names in the spool: content stays,
and what is new is the content named, whole or partial, or the clip's tree. -/
structure Confined (tree : String) (content : List Hash) (before after : Store Hash) : Prop where
  keeps : ∀ hash, before.has hash = true → after.has hash = true
  names : ∀ name ∈ after.blobs.names, name ∈ before.blobs.names ∨
    ∃ hash ∈ content, name.named = some hash
  trees : ∀ other ∈ after.trees, other ∈ before.trees ∨ other = tree

/-- Nothing is new in the spool. -/
structure Shrinks (before after : Store Hash) : Prop where
  names : after.blobs.names ⊆ before.blobs.names
  trees : after.trees = before.trees

omit [DecidableEq Hash] in
/-- Nothing was done. -/
theorem Shrinks.refl (store : Store Hash) : Shrinks store store where
  names := Finset.Subset.refl _
  trees := rfl

omit [DecidableEq Hash] in
/-- What shrinks twice shrinks. -/
theorem Shrinks.trans (first second third : Store Hash) (early : Shrinks first second)
    (late : Shrinks second third) : Shrinks first third where
  names := late.names.trans early.names
  trees := late.trees.trans early.trees

/-- Asking how much of a content is there brings nothing new. -/
theorem Shrinks.partialSize (hash : Hash) (size : UInt64) (store : Store Hash) :
    Shrinks store (store.partialSize hash size).2 := by
  obtain same | same := store.partialSize_cases hash size
  · rw [same]
    exact refl store
  · rw [same]
    exact ⟨fun _ member => ((Inodes.Dir.mem_remove_iff _ _ _).mp member).1, rfl⟩

namespace Confined
variable (tree : String) (content : List Hash) (store : Store Hash)

omit [DecidableEq Hash] in
/-- Nothing was done. -/
theorem refl : Confined tree content store store where
  keeps _ held := held
  names _ member := Or.inl member
  trees _ member := Or.inl member

omit [DecidableEq Hash] in
/-- What is there under the same names is confined to anything. -/
theorem of_same (after : Store Hash) (names : after.blobs.names = store.blobs.names)
    (trees : after.trees = store.trees) : Confined tree content store after where
  keeps hash held := by
    rw [has_iff] at held ⊢
    rw [names]
    exact held
  names name member := Or.inl (names ▸ member)
  trees other member := Or.inl (trees ▸ member)

/-- A partial may go. -/
theorem removePart (hash : Hash) :
    Confined tree content store { store with blobs := store.blobs.remove (.part hash) } where
  keeps other held := by
    rw [has_iff] at held ⊢
    exact (Inodes.Dir.mem_remove_iff _ _ _).mpr ⟨held, by simp⟩
  names name member := Or.inl ((Inodes.Dir.mem_remove_iff _ _ _).mp member).1
  trees other member := Or.inl member

/-- Asking how much of a content is there is within bounds. -/
theorem partialSize (hash : Hash) (size : UInt64) :
    Confined tree content store (store.partialSize hash size).2 := by
  obtain same | same := store.partialSize_cases hash size
  · rw [same]
    exact refl tree content store
  · rw [same]
    exact removePart tree content store hash

/-- So is opening a transfer of content that is named. -/
theorem receive (hash : Hash) (named : hash ∈ content) :
    Confined tree content store (store.receive hash).2 := by
  unfold Store.receive
  cases store.blobs.entries (.part hash) with
  | some file => exact refl tree content store
  | none =>
    refine ⟨?_, ?_, fun other member => Or.inl member⟩
    · intro other held
      rw [has_iff] at held ⊢
      exact (Inodes.Dir.mem_create_iff _ _ _ _).mpr (Or.inr held)
    · intro name member
      cases (Inodes.Dir.mem_create_iff _ _ _ _).mp member with
      | inl created => exact Or.inr ⟨hash, named, by rw [created]; rfl⟩
      | inr stood => exact Or.inl stood

omit [DecidableEq Hash] in
/-- So is writing it. -/
theorem write (bytes : Bytes) (incoming : Incoming Hash) :
    Confined tree content store (store.write bytes incoming).2 :=
  of_same tree content store _ rfl rfl

/-- So is ending it. Its partial goes, and the content it is renamed to is one that it was to
bring. -/
theorem finish [ContentHash Hash] (incoming : Incoming Hash) (named : incoming.hash ∈ content) :
    Confined tree content store (store.finish incoming) := by
  unfold Store.finish
  by_cases wrong : ContentHash.of incoming.hashed ≠ incoming.hash
  · rw [if_pos wrong]
    exact removePart tree content store incoming.hash
  · rw [if_neg wrong]
    by_cases present : SpoolName.part incoming.hash ∈ store.blobs.names
    · refine ⟨?_, ?_, fun other member => Or.inl member⟩
      · intro other held
        rw [has_iff] at held ⊢
        exact (Inodes.Dir.mem_rename_iff _ _ _ _ present).mpr (Or.inr ⟨by simp, held⟩)
      · intro name member
        cases (Inodes.Dir.mem_rename_iff _ _ _ _ present).mp member with
        | inl moved => exact Or.inr ⟨incoming.hash, named, by rw [moved]; rfl⟩
        | inr stood => exact Or.inl stood.2
    · rw [Inodes.Dir.rename_absent _ _ _ present]
      exact refl tree content store

section Trees
variable [EndpointText Id] (stamp : Stamp Id)

omit [DecidableEq Hash] in
/-- So is starting the clip's tree. -/
theorem plant : Confined stamp.fileName content store (store.plant stamp) where
  keeps _ held := held
  names _ member := Or.inl member
  trees _ member := (Finset.mem_insert.mp member).symm

omit [DecidableEq Hash] in
/-- And so is linking into it. -/
theorem linkIn (file : Files.FileRef Hash) :
    Confined stamp.fileName content store (store.linkIn stamp file).1 := by
  unfold Store.linkIn
  by_cases unsafe_path : (!file.isSafe) = true
  · rw [if_pos unsafe_path]
    exact refl _ content store
  · rw [if_neg unsafe_path]
    dsimp only
    generalize (if stamp.fileName ∈ store.trees then store.links stamp.fileName else []) = standing
    cases store.link standing file with
    | some linked => exact ⟨fun _ held => held, fun _ member => Or.inl member,
        fun _ member => (Finset.mem_insert.mp member).symm⟩
    | none => exact ⟨fun _ held => held, fun _ member => Or.inl member,
        fun _ member => (Finset.mem_insert.mp member).symm⟩

end Trees

omit [DecidableEq Hash] in
/-- What is within bounds twice is within them. -/
theorem trans (first second third : Store Hash) (early : Confined tree content first second)
    (late : Confined tree content second third) : Confined tree content first third where
  keeps hash held := late.keeps hash (early.keeps hash held)
  names name member := by
    cases late.names name member with
    | inl stood => exact early.names name stood
    | inr created => exact Or.inr created
  trees other member := by
    cases late.trees other member with
    | inl stood => exact early.trees other stood
    | inr planted => exact Or.inr planted

end Confined

section Take
variable [ContentHash Hash]

/-- A file taken in is there under its hash, and nothing else is new. The name it is copied under
is gone at the end, whether the content was there already or not. -/
theorem take_spec (tag : UInt64) (source : Option Bytes) (store : Store Hash) :
    (∀ hash, store.has hash = true → (store.take tag source).1.has hash = true) ∧
      (store.take tag source).1.trees = store.trees ∧
      (∀ hash size, (store.take tag source).2 = some (hash, size) →
        (store.take tag source).1.has hash = true) ∧
      ∀ name ∈ (store.take tag source).1.blobs.names, name ∈ store.blobs.names ∨
        ∃ hash size, (store.take tag source).2 = some (hash, size) ∧ name = .blob hash := by
  cases source with
  | none =>
    refine ⟨?_, rfl, ?_, ?_⟩
    · intro hash held
      rw [has_iff] at held ⊢
      exact (Inodes.Dir.mem_remove_iff _ _ _).mpr ⟨held, by simp⟩
    · intro hash size answered
      cases answered
    · intro name member
      exact Or.inl ((Inodes.Dir.mem_remove_iff _ _ _).mp member).1
  | some bytes =>
    let hash : Hash := ContentHash.of bytes
    let taken := store.blobs.create (.taking tag) bytes
    have created : ∀ name, name ∈ taken.names ↔ name = .taking tag ∨ name ∈ store.blobs.names :=
      fun name => Inodes.Dir.mem_create_iff _ _ _ _
    -- The tag goes either way; the name of the content is there in the end.
    have after : ∀ name, name ∈ (store.take tag (some bytes)).1.blobs.names ↔
        name = .blob hash ∨ name ≠ .taking tag ∧ name ∈ store.blobs.names := by
      intro name
      by_cases held : store.has hash = true
      · have shape : (store.take tag (some bytes)).1.blobs = taken.remove (.taking tag) :=
          if_pos held
        rw [shape, Inodes.Dir.mem_remove_iff, created]
        have listed := (has_iff store hash).mp held
        constructor
        · rintro ⟨isTag | stood, apart⟩
          · exact absurd isTag apart
          · exact Or.inr ⟨apart, stood⟩
        · rintro (isBlob | ⟨apart, stood⟩)
          · subst isBlob
            exact ⟨Or.inr listed, by simp⟩
          · exact ⟨Or.inr stood, apart⟩
      · have shape : (store.take tag (some bytes)).1.blobs =
            taken.rename (.taking tag) (.blob hash) := if_neg held
        rw [shape, Inodes.Dir.mem_rename_iff _ _ _ _ ((created _).mpr (Or.inl rfl)), created]
        constructor
        · rintro (isBlob | ⟨apart, isTag | stood⟩)
          · exact Or.inl isBlob
          · exact absurd isTag apart
          · exact Or.inr ⟨apart, stood⟩
        · rintro (isBlob | ⟨apart, stood⟩)
          · exact Or.inl isBlob
          · exact Or.inr ⟨apart, Or.inr stood⟩
    refine ⟨?_, rfl, ?_, ?_⟩
    · intro other held
      rw [has_iff] at held ⊢
      exact (after _).mpr (Or.inr ⟨by simp, held⟩)
    · intro other size answered
      obtain ⟨rfl, _⟩ := Prod.mk.inj (Option.some.inj answered)
      rw [has_iff]
      exact (after _).mpr (Or.inl rfl)
    · intro name member
      cases (after name).mp member with
      | inl isBlob => exact Or.inr ⟨hash, _, rfl, isBlob⟩
      | inr stood => exact Or.inl stood.2

end Take

section Sweep
variable [EndpointText Id]

/-- A sweep of a name removes it unless it is kept, and no other. -/
theorem sweepBlob_spec (content : List Hash) (name : SpoolName Hash) (store : Store Hash) :
    (store.sweepBlob content name).trees = store.trees ∧
      ∀ other, other ∈ (store.sweepBlob content name).blobs.names ↔
        other ∈ store.blobs.names ∧ (other = name → isNamed content name = true) := by
  unfold sweepBlob
  by_cases named : isNamed content name = true
  · rw [if_pos named]
    exact ⟨rfl, fun other => ⟨fun member => ⟨member, fun _ => named⟩, fun kept => kept.1⟩⟩
  · rw [if_neg named]
    refine ⟨rfl, fun other => ?_⟩
    rw [Inodes.Dir.mem_remove_iff]
    constructor
    · rintro ⟨stood, apart⟩
      exact ⟨stood, fun same => absurd same apart⟩
    · rintro ⟨stood, kept⟩
      exact ⟨stood, fun same => named (kept same)⟩

omit [DecidableEq Hash] in
/-- A sweep of a tree removes it unless it is the clip's, and no other. -/
theorem sweepTree_spec (live : Option (Stamp Id)) (tree : String) (store : Store Hash) :
    (store.sweepTree live tree).blobs = store.blobs ∧
      ∀ other, other ∈ (store.sweepTree live tree).trees ↔
        other ∈ store.trees ∧ (other = tree → live.map Stamp.fileName = some tree) := by
  unfold sweepTree
  by_cases living : live.map Stamp.fileName = some tree
  · rw [if_pos living]
    exact ⟨rfl, fun other => ⟨fun member => ⟨member, fun _ => living⟩, fun kept => kept.1⟩⟩
  · rw [if_neg living]
    refine ⟨rfl, fun other => ?_⟩
    rw [Finset.mem_erase]
    constructor
    · rintro ⟨apart, stood⟩
      exact ⟨stood, fun same => absurd same apart⟩
    · rintro ⟨stood, kept⟩
      exact ⟨fun same => living (kept same), stood⟩

end Sweep

end Yank.Store
