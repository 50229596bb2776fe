import Yank.Leftovers

/-!
# What transfers may take up

A spool keeps a file for whoever has it open, whatever becomes of its name. What is
opened for some content has the names of that content and no other, so it is there whole
or in part and not both, and as long as every transfer stays within the size of its
content, so does every file that was opened.

Everything else that is done to a spool leaves what was opened alone, or takes a name
away.
-/

namespace Yank

variable {Id Hash : Type}

/-- The first entry of a manifest for some content. -/
def Files.first [DecidableEq Hash] (files : List (Files.FileRef Hash)) (hash : Hash) :
    Option (Files.FileRef Hash) :=
  files.find? (fun file => file.hash = hash)

/-- What that entry says the content weighs. -/
def Files.firstSize [DecidableEq Hash] (files : List (Files.FileRef Hash)) (hash : Hash) : Nat :=
  (Files.first files hash).elim 0 (fun file => file.size.toNat)

namespace Store

/-- What is held under the names of some files. -/
def weight [DecidableEq Hash] (written : List Nat) (store : Store Hash) : Nat :=
  (store.blobs.names.filter (fun name =>
    (store.blobs.entries name).any (fun file => written.contains file))).sum
      (fun name => ((store.blobs.read name).getD []).length)

/-- Every file that was there keeps its contents. -/
structure Unwritten (before after : Store Hash) : Prop where
  grows : before.blobs.contents.length ≤ after.blobs.contents.length
  kept : ∀ file < before.blobs.contents.length,
    after.blobs.content file = before.blobs.content file

/-- Names may change where contents do not. -/
theorem Unwritten.of_contents {before after : Store Hash}
    (same : after.blobs.contents = before.blobs.contents) : Unwritten before after where
  grows := by rw [same]
  kept file _ := by rw [Inodes.Dir.content, Inodes.Dir.content, same]

/-- What is not written twice is not written. -/
theorem Unwritten.trans {before between after : Store Hash} (early : Unwritten before between)
    (late : Unwritten between after) : Unwritten before after where
  grows := Nat.le_trans early.grows late.grows
  kept file there :=
    (late.kept file (Nat.lt_of_lt_of_le there early.grows)).trans (early.kept file there)

/-- A file that is made is a new one. -/
theorem Unwritten.create [DecidableEq Hash] (name : SpoolName Hash) (bytes : Bytes)
    (store : Store Hash) : Unwritten store { store with blobs := store.blobs.create name bytes } where
  grows := by
    change _ ≤ (store.blobs.contents ++ [bytes]).length
    rw [List.length_append]
    exact Nat.le_add_right _ _
  kept file there := by
    simp [Inodes.Dir.content, Inodes.Dir.create, List.getElem?_append_left there]

/-- Opening a transfer writes nothing. -/
theorem Unwritten.receive [DecidableEq Hash] (hash : Hash) (store : Store Hash) :
    Unwritten store (store.receive hash).2 := by
  unfold Store.receive
  split
  · exact .of_contents rfl
  · exact .create _ [] store

/-- Nor does ending it. -/
theorem Unwritten.finish [DecidableEq Hash] [ContentHash Hash] (incoming : Incoming Hash)
    (store : Store Hash) : Unwritten store (store.finish incoming) := by
  unfold Store.finish
  split
  · exact .of_contents rfl
  · exact .of_contents (Inodes.Dir.contents_rename _ _ _)

/-- What was there keeps its contents and gains no name, and no partial comes to be: what
anyone but a fetch does to a spool. -/
structure Leaves (before after : Store Hash) : Prop extends Unwritten before after where
  names : ∀ name, ∀ file < before.blobs.contents.length,
    after.blobs.entries name = some file → before.blobs.entries name = some file
  parts : ∀ hash, after.blobs.entries (.part hash) = before.blobs.entries (.part hash) ∨
    after.blobs.entries (.part hash) = none

namespace Leaves
variable {before between after : Store Hash}

/-- Only the files and their names count. -/
theorem of_blobs (same : after.blobs = before.blobs) : Leaves before after where
  toUnwritten := .of_contents (by rw [same])
  names name file _ under := by rwa [same] at under
  parts hash := Or.inl (by rw [same])

/-- Nothing was done. -/
theorem refl (store : Store Hash) : Leaves store store := of_blobs rfl

/-- Others after others are others. -/
theorem trans (early : Leaves before between) (late : Leaves between after) :
    Leaves before after where
  toUnwritten := early.toUnwritten.trans late.toUnwritten
  names name file there under :=
    early.names name file there (late.names name file (Nat.lt_of_lt_of_le there early.grows) under)
  parts hash := by
    obtain same | gone := late.parts hash
    · rw [same]
      exact early.parts hash
    · exact Or.inr gone

/-- No partial holds more than it did. -/
theorem part (leaves : Leaves before after) (hash : Hash) :
    ((after.part hash).getD []).length ≤ ((before.part hash).getD []).length := by
  obtain same | gone := leaves.parts hash
  · have read : after.part hash = before.part hash := by
      rw [Store.part, Store.part, Inodes.Dir.read, Inodes.Dir.read, same]
      cases held : before.blobs.entries (.part hash) with
      | none => rfl
      | some file =>
        exact congrArg some (leaves.kept file (before.blobs.valid _ _ held))
    rw [read]
  · rw [Store.part, Inodes.Dir.read, gone]
    exact Nat.zero_le _

variable [DecidableEq Hash]

/-- Removing a name leaves what was there. -/
theorem remove (store : Store Hash) (name : SpoolName Hash) :
    Leaves store { store with blobs := store.blobs.remove name } := by
  have entries (other : SpoolName Hash) :
      (store.blobs.remove name).entries other = store.blobs.entries other ∨
        (store.blobs.remove name).entries other = none := by
    by_cases same : other = name
    · right
      simp [Inodes.Dir.remove, Inodes.Dir.retain, same]
    · exact Or.inl (Inodes.Dir.entries_remove_of_ne _ _ _ same)
  refine ⟨.of_contents rfl, ?_, fun hash => entries (.part hash)⟩
  · intro other file _ under
    obtain same | gone := entries other
    · exact same ▸ under
    · rw [gone] at under
      cases under

/-- What a file of this machine is taken in as was not there. It is copied under a name of its
own, and that file is renamed to its content or removed again. -/
theorem take [ContentHash Hash] (tag : UInt64) (source : Option Bytes) (store : Store Hash) :
    Leaves store (store.take tag source).1 := by
  cases source with
  | none => exact remove store (.taking tag)
  | some bytes =>
    have created : Leaves store { store with blobs := store.blobs.create (.taking tag) bytes } := by
      refine ⟨.create _ bytes store, ?_, ?_⟩
      · intro name file there under
        by_cases own : name = .taking tag
        · rw [own] at under
          have last := Option.some.inj ((Inodes.Dir.entries_create_self _ _ _).symm.trans under)
          omega
        · rwa [Inodes.Dir.entries_create_of_ne _ _ _ _ own] at under
      · exact fun hash => Or.inl (Inodes.Dir.entries_create_of_ne _ _ _ _ (by simp))
    by_cases here : store.has (ContentHash.of bytes) = true
    · have removed : (store.take tag (some bytes)).1 =
          { store with blobs := (store.blobs.create (.taking tag) bytes).remove (.taking tag) } := by
        simp [Store.take, here]
      rw [removed]
      exact created.trans (remove _ (.taking tag))
    · have renamed : (store.take tag (some bytes)).1 = { store with
          blobs := (store.blobs.create (.taking tag) bytes).rename (.taking tag)
            (.blob (ContentHash.of bytes)) } := by
        simp [Store.take, here]
      have under_ : (store.blobs.create (.taking tag) bytes).entries (.taking tag) =
          some store.blobs.contents.length := Inodes.Dir.entries_create_self _ _ _
      rw [renamed]
      refine ⟨created.toUnwritten.trans (.of_contents (Inodes.Dir.contents_rename _ _ _)), ?_, ?_⟩
      · intro name file there under
        by_cases isNew : name = .blob (ContentHash.of bytes)
        · have present : ((store.blobs.create (.taking tag) bytes).entries (.taking tag)).isSome =
              true := by
            rw [under_]
            rfl
          rw [isNew, Inodes.Dir.entries_rename_self _ _ _ present, under_] at under
          have last := Option.some.inj under
          omega
        · by_cases isOld : name = .taking tag
          · rw [isOld, Inodes.Dir.entries_rename_old _ _ _ (by simp)] at under
            cases under
          · rw [Inodes.Dir.entries_rename_of_ne _ _ _ _ isOld isNew] at under
            exact created.names name file there under
      · intro hash
        rw [Inodes.Dir.entries_rename_of_ne _ _ _ _ (by simp) (by simp)]
        exact created.parts hash

/-- So does asking how much of a content is there. -/
theorem partialSize (hash : Hash) (size : UInt64) (store : Store Hash) :
    Leaves store (store.partialSize hash size).2 := by
  obtain same | same := store.partialSize_cases hash size
  · rw [same]
    exact refl store
  · rw [same]
    exact remove store (.part hash)

/-- And so does asking for several. -/
theorem ask (files : List (Files.FileRef Hash)) (store : Store Hash) :
    Leaves store (Transfer.ask files store).2 := by
  induction files generalizing store with
  | nil => exact refl store
  | cons file files inductionHypothesis =>
    exact (partialSize file.hash file.size store).trans (inductionHypothesis _)

end Leaves

/-- What was opened for some content leads to nothing else and is within its size, whole or
in part but not both; what can still be written is within it too. -/
structure Tame (size : Hash → Nat) (opened : List (Hash × Nat))
    (writers : List (Incoming Hash × Nat)) (store : Store Hash) : Prop where
  there : ∀ entry ∈ opened, entry.2 < store.blobs.contents.length
  short : ∀ entry ∈ opened, (store.blobs.content entry.2).length ≤ size entry.1
  leads : ∀ entry ∈ opened, ∀ name, store.blobs.entries name = some entry.2 →
    name = .part entry.1 ∨ name = .blob entry.1
  single : ∀ one ∈ opened, ∀ other ∈ opened, one.1 = other.1 →
    store.blobs.entries (.part one.1) = some one.2 →
    store.blobs.entries (.blob other.1) ≠ some other.2
  shared : ∀ one ∈ opened, ∀ other ∈ opened, one.2 = other.2 → one.1 = other.1
  mine : ∀ writer ∈ writers, (writer.1.hash, writer.1.file) ∈ opened
  room : ∀ writer ∈ writers, writer.1.hashed.length + writer.2 ≤ size writer.1.hash

/-- A write makes a file as long as it reaches, and no longer. -/
theorem splice_length_le (offset : Nat) (bytes old : Bytes) :
    (Inodes.Dir.splice offset bytes old).length ≤ max old.length (offset + bytes.length) := by
  rw [Inodes.Dir.splice, List.length_append, List.length_append, List.length_take, List.length_drop]
  omega

/-- What a write leaves in a file. -/
theorem content_write (bytes : Bytes) (incoming : Incoming Hash) (store : Store Hash) (file : Nat)
    (there : incoming.file < store.blobs.contents.length) :
    (store.write bytes incoming).2.blobs.content file =
      if file = incoming.file then
        Inodes.Dir.splice incoming.hashed.length bytes (store.blobs.content file)
      else store.blobs.content file := by
  by_cases own : file = incoming.file
  · subst own
    simp [write, Inodes.Dir.content, Inodes.Dir.writeAt, List.getElem?_eq_getElem there]
  · have apart : ¬ incoming.file = file := fun same => own same.symm
    simp [write, Inodes.Dir.content, Inodes.Dir.writeAt, own, apart]

namespace Tame
variable {size : Hash → Nat} {opened : List (Hash × Nat)} {writers : List (Incoming Hash × Nat)}
  {store : Store Hash}

/-- Fewer transfers, or ones with less to write, are as tame. The files and names are the same. -/
theorem mono (tame : Tame size opened writers store) (fewer : List (Incoming Hash × Nat))
    (among : ∀ writer ∈ fewer, ∃ rest, (writer.1, rest) ∈ writers ∧ writer.2 ≤ rest) :
    Tame size opened fewer store where
  there := tame.there
  short := tame.short
  leads := tame.leads
  single := tame.single
  shared := tame.shared
  mine writer member := by
    obtain ⟨rest, known, _⟩ := among writer member
    exact tame.mine (writer.1, rest) known
  room writer member := by
    obtain ⟨rest, known, less⟩ := among writer member
    have room := tame.room _ known
    dsimp only at room
    omega

/-- What leaves the files alone leaves them tame. Names may go and files that nothing opened may
come, and neither touches what was opened. -/
theorem leaves (tame : Tame size opened writers store) {after : Store Hash}
    (leaves : Leaves store after) : Tame size opened writers after := by
  constructor
  · intro entry member
    exact Nat.lt_of_lt_of_le (tame.there entry member) leaves.grows
  · intro entry member
    rw [leaves.kept entry.2 (tame.there entry member)]
    exact tame.short entry member
  · intro entry member name under
    exact tame.leads entry member name
      (leaves.names name entry.2 (tame.there entry member) under)
  · intro one first other second same isPart isBlob
    exact tame.single one first other second same
      (leaves.names _ one.2 (tame.there one first) isPart)
      (leaves.names _ other.2 (tame.there other second) isBlob)
  · exact tame.shared
  · exact tame.mine
  · exact tame.room

/-- A transfer that writes no more than it may stays tame. The bytes go to the end of what the
writer hashed, in a file of its content, and come out of what the writer still may. -/
theorem write (tame : Tame size opened writers store) (incoming : Incoming Hash) (pending rest : Nat)
    (bytes : Bytes) (member : (incoming, pending) ∈ writers) (enough : bytes.length + rest ≤ pending)
    (after : List (Incoming Hash × Nat))
    (among : ∀ writer ∈ after, writer ∈ writers ∨ writer = ((store.write bytes incoming).1, rest)) :
    Tame size opened after (store.write bytes incoming).2 := by
  have mine := tame.mine _ member
  have room := tame.room _ member
  dsimp only at mine room
  have there : incoming.file < store.blobs.contents.length := tame.there _ mine
  constructor
  · intro entry known
    change _ < (store.blobs.contents.modify _ _).length
    rw [List.length_modify]
    exact tame.there entry known
  · intro entry known
    rw [content_write bytes incoming store entry.2 there]
    have short := tame.short entry known
    by_cases own : entry.2 = incoming.file
    · have same : entry.1 = incoming.hash := tame.shared entry known _ mine own
      have longest := splice_length_le incoming.hashed.length bytes (store.blobs.content entry.2)
      rw [if_pos own]
      rw [same] at short ⊢
      omega
    · rw [if_neg own]
      exact short
  · exact tame.leads
  · exact tame.single
  · exact tame.shared
  · intro writer later
    obtain known | rfl := among writer later
    · exact tame.mine writer known
    · exact mine
  · intro writer later
    obtain known | rfl := among writer later
    · exact tame.room writer known
    · change (incoming.hashed ++ bytes).length + rest ≤ size incoming.hash
      rw [List.length_append]
      omega

section Names
variable [DecidableEq Hash]

/-- What is opened for some content joins what was. A new partial is a file that nothing names
yet, and one that is there holds no more than its content may. -/
theorem receive (tame : Tame size opened writers store) (hash : Hash)
    (fits : ((store.part hash).getD []).length ≤ size hash)
    (unfinished : ∀ entry ∈ opened, entry.1 = hash →
      store.blobs.entries (.blob hash) ≠ some entry.2) :
    Tame size ((hash, (store.receive hash).1.file) :: opened) writers (store.receive hash).2 := by
  obtain ⟨opens, named, resumed, _, _⟩ := store.receive_spec hash
  have leadsHere := opens.named
  rw [named] at leadsHere
  have isBlob : (store.receive hash).2.blobs.entries (.blob hash) =
      store.blobs.entries (.blob hash) := by
    unfold Store.receive
    split
    · rfl
    · exact Inodes.Dir.entries_create_of_ne _ _ _ _ (by simp)
  have keeps := Unwritten.receive hash store
  have old (entry : Hash × Nat) (known : entry ∈ opened) (name : SpoolName Hash)
      (under : (store.receive hash).2.blobs.entries name = some entry.2) :
      store.blobs.entries name = some entry.2 := by
    have there := tame.there entry known
    unfold Store.receive at under
    split at under
    · exact under
    · by_cases own : name = .part hash
      · rw [own] at under
        have last := Option.some.inj ((Inodes.Dir.entries_create_self _ _ _).symm.trans under)
        omega
      · rwa [Inodes.Dir.entries_create_of_ne _ _ _ _ own] at under
  -- The file that is opened has the name of the partial, and no other.
  have only (name : SpoolName Hash)
      (under : (store.receive hash).2.blobs.entries name = some (store.receive hash).1.file) :
      name = .part hash := (store.receive hash).2.blobs.apart _ _ _ under leadsHere
  have alike (entry : Hash × Nat) (known : entry ∈ opened)
      (same : entry.2 = (store.receive hash).1.file) : entry.1 = hash := by
    have before := old entry known (.part hash) (leadsHere.trans (congrArg some same.symm))
    obtain isPart | other := tame.leads entry known _ before
    · exact (SpoolName.part.inj isPart).symm
    · cases other
  constructor
  · intro entry member
    obtain rfl | known := List.mem_cons.mp member
    · exact (store.receive hash).2.blobs.valid _ _ leadsHere
    · exact Nat.lt_of_lt_of_le (tame.there entry known) keeps.grows
  · intro entry member
    obtain rfl | known := List.mem_cons.mp member
    · rw [opens.hashed, resumed]
      exact fits
    · rw [keeps.kept entry.2 (tame.there entry known)]
      exact tame.short entry known
  · intro entry member name under
    obtain rfl | known := List.mem_cons.mp member
    · exact Or.inl (only name under)
    · exact tame.leads entry known name (old entry known name under)
  · intro one first other second same isPart whole
    obtain rfl | later := List.mem_cons.mp second
    · cases only _ whole
    · have before := old other later _ whole
      obtain rfl | early := List.mem_cons.mp first
      · have whole_ : hash = other.1 := same
        exact unfinished other later whole_.symm (whole_ ▸ before)
      · exact tame.single one early other later same (old one early _ isPart) before
  · intro one first other second same
    obtain rfl | early := List.mem_cons.mp first
    · obtain rfl | later := List.mem_cons.mp second
      · rfl
      · exact (alike other later same.symm).symm
    · obtain rfl | later := List.mem_cons.mp second
      · exact alike one early same
      · exact tame.shared one early other later same
  · intro writer known
    exact List.mem_cons_of_mem _ (tame.mine writer known)
  · exact tame.room

omit [DecidableEq Hash] in
/-- A transfer that was opened joins those that write. What it may still write fits behind what it
hashed. -/
theorem join (tame : Tame size opened writers store) (incoming : Incoming Hash) (rest : Nat)
    (mine : (incoming.hash, incoming.file) ∈ opened)
    (room : incoming.hashed.length + rest ≤ size incoming.hash) :
    Tame size opened ((incoming, rest) :: writers) store where
  there := tame.there
  short := tame.short
  leads := tame.leads
  single := tame.single
  shared := tame.shared
  mine writer member := by
    obtain rfl | known := List.mem_cons.mp member
    · exact mine
    · exact tame.mine writer known
  room writer member := by
    obtain rfl | known := List.mem_cons.mp member
    · exact room
    · exact tame.room writer known

/-- A transfer that ends leaves its content whole or not at all. A transfer whose hash is wrong
leaves no partial; one whose hash is right gives the file another name of the same content. -/
theorem finish [ContentHash Hash] (tame : Tame size opened writers store) (incoming : Incoming Hash) :
    Tame size opened writers (store.finish incoming) := by
  unfold Store.finish
  split
  · exact tame.leaves (Leaves.remove store _)
  cases held : store.blobs.entries (.part incoming.hash) with
  | none =>
    have gone : SpoolName.part incoming.hash ∉ store.blobs.names := by
      rw [store.blobs.listed, held]
      exact Bool.false_ne_true
    rw [Inodes.Dir.rename_absent _ _ _ gone]
    exact tame
  | some file =>
    have others (name : SpoolName Hash) (notBlob : name ≠ .blob incoming.hash) (lead : Nat)
        (under : (store.blobs.rename (.part incoming.hash) (.blob incoming.hash)).entries name =
          some lead) : name ≠ .part incoming.hash ∧ store.blobs.entries name = some lead := by
      by_cases isPart : name = .part incoming.hash
      · rw [isPart, Inodes.Dir.entries_rename_old _ _ _ (by simp)] at under
        cases under
      · rw [Inodes.Dir.entries_rename_of_ne _ _ _ _ isPart notBlob] at under
        exact ⟨isPart, under⟩
    have contents := Inodes.Dir.contents_rename store.blobs (.part incoming.hash)
      (.blob incoming.hash)
    have present : (store.blobs.entries (.part incoming.hash)).isSome = true := by
      rw [held]
      rfl
    constructor
    · rw [contents]
      exact tame.there
    · intro entry known
      rw [Inodes.Dir.content, contents]
      exact tame.short entry known
    · intro entry known name under
      by_cases isBlob : name = .blob incoming.hash
      · rw [isBlob, Inodes.Dir.entries_rename_self _ _ _ present] at under
        obtain own | other := tame.leads entry known _ under
        · rw [isBlob, SpoolName.part.inj own]
          exact Or.inr rfl
        · cases other
      · exact tame.leads entry known name (others name isBlob entry.2 under).2
    · intro one first other second same isPart whole
      obtain ⟨apart, before⟩ := others _ (by simp) one.2 isPart
      have notBlob : SpoolName.blob other.1 ≠ .blob incoming.hash := by
        rw [← same]
        simpa using apart
      exact tame.single one first other second same before (others _ notBlob other.2 whole).2
    · exact tame.shared
    · exact tame.mine
    · exact tame.room

end Names

end Tame

section Touched
variable [DecidableEq Hash]

/-- A transfer that ends touches its own content. -/
theorem finish_entries [ContentHash Hash] (incoming : Incoming Hash) (store : Store Hash)
    (name : SpoolName Hash) (notPart : name ≠ .part incoming.hash)
    (notBlob : name ≠ .blob incoming.hash) :
    (store.finish incoming).blobs.entries name = store.blobs.entries name ∧
      (store.finish incoming).blobs.read name = store.blobs.read name := by
  unfold finish
  split
  · exact ⟨Inodes.Dir.entries_remove_of_ne _ _ _ notPart, Inodes.Dir.read_remove_of_ne _ _ _ notPart⟩
  · refine ⟨Inodes.Dir.entries_rename_of_ne _ _ _ _ notPart notBlob, ?_⟩
    by_cases present : SpoolName.part incoming.hash ∈ store.blobs.names
    · rw [store.blobs.listed] at present
      exact (Inodes.Dir.read_rename _ _ _ _ present).trans
        ((if_neg notBlob).trans (if_neg notPart))
    · rw [Inodes.Dir.rename_absent _ _ _ present]

end Touched

end Store

/-! What a manifest lists. -/

namespace Files
variable [DecidableEq Hash]

/-- The sizes of different contents are among those of the manifest. The induction is on the
manifest: a content that its first entry lists is taken off the list, and the others are sized by
the rest. -/
theorem sum_firstSize_le (files : List (FileRef Hash)) (hashes : List Hash) (once : hashes.Nodup) :
    (hashes.map (firstSize files)).sum ≤ (files.map (fun file => file.size.toNat)).sum := by
  induction files generalizing hashes with
  | nil =>
    have nothing : hashes.map (firstSize ([] : List (FileRef Hash))) = hashes.map (fun _ => 0) := rfl
    rw [nothing]
    simp
  | cons file files inductionHypothesis =>
    have others (hash : Hash) (apart : hash ≠ file.hash) :
        firstSize (file :: files) hash = firstSize files hash := by
      simp [firstSize, first, Ne.symm apart]
    have self : firstSize (file :: files) file.hash = file.size.toNat := by
      simp [firstSize, first]
    rw [List.map_cons, List.sum_cons]
    by_cases named : file.hash ∈ hashes
    · have rest := inductionHypothesis (hashes.erase file.hash) (once.erase file.hash)
      have same : (hashes.erase file.hash).map (firstSize (file :: files)) =
          (hashes.erase file.hash).map (firstSize files) := by
        apply List.map_congr_left
        intro hash member
        exact others hash (fun own => (once.not_mem_erase (own ▸ member)).elim)
      have split : (hashes.map (firstSize (file :: files))).sum =
          file.size.toNat + ((hashes.erase file.hash).map (firstSize (file :: files))).sum := by
        rw [← self, ← List.sum_cons, ← List.map_cons]
        exact ((List.perm_cons_erase named).map _).sum_eq
      rw [split, same]
      omega
    · have same : hashes.map (firstSize (file :: files)) = hashes.map (firstSize files) := by
        apply List.map_congr_left
        intro hash member
        exact others hash (fun own => named (own ▸ member))
      have rest := inductionHypothesis hashes once
      rw [same]
      omega

omit [DecidableEq Hash] in
/-- The total is the sum of the sizes, up to where it saturates. -/
theorem total_eq (files : List (FileRef Hash)) :
    total files = min (files.map (fun file => file.size.toNat)).sum (2 ^ 64 - 1) := by
  have from_ (files : List (FileRef Hash)) (start : Nat) :
      files.foldl (fun total file => min (total + file.size.toNat) (2 ^ 64 - 1))
          (min start (2 ^ 64 - 1)) =
        min (start + (files.map (fun file => file.size.toNat)).sum) (2 ^ 64 - 1) := by
    induction files generalizing start with
    | nil => simp
    | cons file files inductionHypothesis =>
      have next : min (min start (2 ^ 64 - 1) + file.size.toNat) (2 ^ 64 - 1) =
          min (start + file.size.toNat) (2 ^ 64 - 1) := by
        omega
      rw [List.foldl_cons, next, inductionHypothesis, List.map_cons, List.sum_cons, Nat.add_assoc]
  have whole := from_ files 0
  rwa [Nat.zero_add] at whole

end Files

namespace Store
variable [DecidableEq Hash]

omit [DecidableEq Hash] in
/-- Names weigh no more than the contents they are for. -/
theorem sum_named_le (size : Hash → Nat) (weigh : SpoolName Hash → Nat)
    (names : List (SpoolName Hash))
    (each : ∀ name ∈ names, ∃ hash, name.named = some hash ∧ weigh name ≤ size hash) :
    (names.map weigh).sum ≤ ((names.filterMap SpoolName.named).map size).sum := by
  induction names with
  | nil => exact le_refl _
  | cons name names inductionHypothesis =>
    rw [List.forall_mem_cons] at each
    obtain ⟨hash, named, less⟩ := each.1
    have rest := inductionHypothesis each.2
    rw [List.filterMap_cons_some named, List.map_cons, List.map_cons, List.sum_cons, List.sum_cons]
    omega

/-- What was opened takes up the size of each content once. Each name that counts is of a content
that was opened and weighs no more than its first size; a content is counted once, for its partial
and its blob are never both among what was opened. -/
theorem Tame.weight_le {files : List (Files.FileRef Hash)} {opened : List (Hash × Nat)}
    {writers : List (Incoming Hash × Nat)} {store : Store Hash}
    (tame : Tame (Files.firstSize files) opened writers store) (written : List Nat)
    (mine : written ⊆ opened.map Prod.snd) :
    store.weight written ≤ (files.map (fun file => file.size.toNat)).sum := by
  let names := store.blobs.names.filter (fun name =>
    (store.blobs.entries name).any (fun file => written.contains file))
  -- Every name that counts leads to what was opened for its content.
  have leads : ∀ name ∈ names.toList, ∃ entry ∈ opened,
      store.blobs.entries name = some entry.2 ∧ (name = .part entry.1 ∨ name = .blob entry.1) := by
    intro name member
    obtain ⟨_, counts⟩ := Finset.mem_filter.mp (Finset.mem_toList.mp member)
    obtain ⟨file, under, among⟩ := (Option.any_eq_true _ _).mp counts
    obtain ⟨entry, known, rfl⟩ := List.mem_map.mp (mine (List.contains_iff_mem.mp among))
    exact ⟨entry, known, under, tame.leads entry known name under⟩
  have weighs : ∀ name ∈ names.toList, ∃ hash, name.named = some hash ∧
      ((store.blobs.read name).getD []).length ≤ Files.firstSize files hash := by
    intro name member
    obtain ⟨entry, known, under, isName⟩ := leads name member
    have short := tame.short entry known
    refine ⟨entry.1, ?_, ?_⟩
    · obtain rfl | rfl := isName <;> rfl
    · rw [Inodes.Dir.read, under]
      exact short
  have once : (names.toList.filterMap SpoolName.named).Nodup := by
    rw [List.Nodup, List.pairwise_filterMap]
    refine (Finset.nodup_toList names).imp_of_mem ?_
    intro one other first second apart hash isFirst hash' isSecond same
    obtain ⟨left, known, under, isLeft⟩ := leads one first
    obtain ⟨right, also, beneath, isRight⟩ := leads other second
    subst same
    have leftHash : left.1 = hash := by
      obtain rfl | rfl := isLeft <;> exact Option.some.inj isFirst
    have rightHash : right.1 = hash := by
      obtain rfl | rfl := isRight <;> exact Option.some.inj isSecond
    have alike := leftHash.trans rightHash.symm
    obtain rfl | rfl := isLeft
    · obtain rfl | rfl := isRight
      · exact apart (by rw [alike])
      · exact tame.single left known right also alike under beneath
    · obtain rfl | rfl := isRight
      · exact tame.single right also left known alike.symm beneath under
      · exact apart (by rw [alike])
  have total := sum_named_le (Files.firstSize files)
    (fun name => ((store.blobs.read name).getD []).length) names.toList weighs
  calc store.weight written
      = (names.toList.map (fun name => ((store.blobs.read name).getD []).length)).sum :=
        (Finset.sum_map_toList names _).symm
    _ ≤ ((names.toList.filterMap SpoolName.named).map (Files.firstSize files)).sum := total
    _ ≤ (files.map (fun file => file.size.toNat)).sum := Files.sum_firstSize_le files _ once

end Store

end Yank
