import Yank.Hex
import Yank.Inodes
import Yank.Messages
import Yank.Runs
import Yank.Walk

/-!
# What a sweep leaves

A sweep goes by names. It keeps the tree that is named like the live clip, and the content
whose name reads back as a hash that is wanted, with or without the suffix of a partial
transfer. A name can be anything that a directory holds.

The printed form of a stamp has its milliseconds and the start of its origin. So it does not
tell two stamps apart whose origins start alike, and a tree laid out for the one passes for a
tree of the other. A removal that fails is reported and passed over.
-/

namespace Yank

open Files

namespace Digest

/-- The file name the content is spooled under. -/
def fileName (hash : Digest) : String := String.ofList (Hex.encode hash.val)

/-- What a transfer that has not finished is named after the content. -/
def partialName (hash : Digest) : String := hash.fileName ++ ".part"

/-- The hash a spooled file's name says it is, if it says one at all. -/
def parse (name : String) : Option Digest :=
  if (utf8 name).length ≠ 64 then none
  else (Hex.decode name.toList).bind (fun bytes =>
    if sized : bytes.length = 32 then some ⟨bytes, sized⟩ else none)

/-- A name without the suffix of a partial transfer. -/
def withoutPartial (name : String) : String :=
  ((name.toList.dropSuffix? ".part".toList).map String.ofList).getD name

/-- The hash that a sweep reads off an entry of the directory. -/
def named (entry : Bytes) : Option Digest :=
  (toStr entry).bind (fun name => parse (withoutPartial name))

/-- A digit is one byte. -/
theorem utf8Size_digit (value : Nat) (small : value < 16) : (Hex.digit value).utf8Size = 1 := by
  interval_cases value <;> decide

/-- The hexadecimal text of bytes takes two for each. -/
theorem utf8_encode_length (bytes : Bytes) :
    (utf8 (String.ofList (Hex.encode bytes))).length = 2 * bytes.length := by
  rw [utf8, String.toList_ofList]
  induction bytes with
  | nil => rfl
  | cons byte bytes inductionHypothesis =>
    have bound := byte.toNat_lt
    have high := utf8Size_digit (byte.toNat / 16) (by omega)
    have low := utf8Size_digit (byte.toNat % 16) (by omega)
    change ((Hex.digit (byte.toNat / 16) :: Hex.digit (byte.toNat % 16) ::
      Hex.encode bytes).flatMap String.utf8EncodeChar).length = _
    rw [List.flatMap_cons, List.flatMap_cons, List.length_append, List.length_append,
      String.length_utf8EncodeChar, String.length_utf8EncodeChar, high, low, inductionHypothesis,
      List.length_cons]
    omega

/-- A name says the hash it is made of, and no other name says it. -/
theorem parse_eq_some_iff (name : String) (hash : Digest) :
    parse name = some hash ↔ name = hash.fileName := by
  constructor
  · intro read
    rw [parse, Option.ite_none_left_eq_some] at read
    obtain ⟨bytes, decoded, sized⟩ := Option.bind_eq_some_iff.mp read.2
    split at sized
    · obtain rfl := Option.some.inj sized
      rw [fileName, ← Hex.encode_of_decode name.toList bytes decoded, String.ofList_toList]
    · cases sized
  · rintro rfl
    have whole : (utf8 hash.fileName).length = 64 := by
      rw [fileName, utf8_encode_length, hash.property]
    rw [parse, if_neg (not_not.mpr whole), fileName, String.toList_ofList, Hex.decode_encode]
    simp [hash.property]

/-- The suffix of a partial transfer is stripped from where it stands. -/
theorem withoutPartial_partialName (hash : Digest) :
    withoutPartial hash.partialName = hash.fileName := by
  have ends : hash.partialName.toList.dropSuffix? ".part".toList = some hash.fileName.toList := by
    rw [List.dropSuffix?_eq_some_iff]
    exact ⟨".part".toList, by rw [partialName, String.toList_append], by simp⟩
  rw [withoutPartial, ends]
  exact String.ofList_toList

/-- No name of content ends like one of a partial transfer: its characters are digits. -/
theorem withoutPartial_fileName (hash : Digest) : withoutPartial hash.fileName = hash.fileName := by
  cases ends : hash.fileName.toList.dropSuffix? ".part".toList with
  | none =>
    rw [withoutPartial, ends]
    rfl
  | some base =>
    obtain ⟨dotted, split, same⟩ := List.dropSuffix?_eq_some_iff.mp ends
    have member : '.' ∈ hash.fileName.toList := by
      rw [split, List.mem_append, eq_of_beq same]
      exact .inr (by decide)
    rw [fileName, String.toList_ofList] at member
    exact absurd (Hex.value_of_mem hash.val '.' member) (by decide)

/-- An entry is kept for a hash under two names, and under no other. The name is the hash in
hexadecimal digits, with `.part` behind it or nothing. -/
theorem named_eq_some_iff (entry : Bytes) (hash : Digest) :
    named entry = some hash ↔ entry = utf8 hash.fileName ∨ entry = utf8 hash.partialName := by
  constructor
  · intro read
    obtain ⟨name, text, parsed⟩ := Option.bind_eq_some_iff.mp read
    rw [parse_eq_some_iff] at parsed
    rw [← utf8_of_toStr entry name text]
    cases ends : name.toList.dropSuffix? ".part".toList with
    | none =>
      rw [withoutPartial, ends] at parsed
      exact .inl (congrArg utf8 parsed)
    | some base =>
      obtain ⟨dotted, split, same⟩ := List.dropSuffix?_eq_some_iff.mp ends
      rw [withoutPartial, ends] at parsed
      have stem : String.ofList base = hash.fileName := parsed
      right
      have whole : name.toList = (String.ofList base ++ ".part").toList := by
        simp [split, eq_of_beq same]
      rw [partialName, ← stem, ← String.toList_inj.mp whole]
  · rintro (rfl | rfl)
    · rw [named, toStr_utf8, Option.bind_some, withoutPartial_fileName, parse_eq_some_iff]
    · rw [named, toStr_utf8, Option.bind_some, withoutPartial_partialName, parse_eq_some_iff]

end Digest

/-- What a file is named after while it is taken in. -/
def takingName (tag : UInt64) : String :=
  "taking-" ++ String.ofList
    ((List.range 16).map (fun place => Hex.digit (tag.toNat / 16 ^ (15 - place) % 16)))

/-- The file name of each kind of file. -/
def SpoolName.text : SpoolName Digest → String
  | .blob hash => hash.fileName
  | .part hash => hash.partialName
  | .taking tag => takingName tag

/-- The name of a file says the hash it is kept for. A file that is being taken in has a dash in
its name, which no hash has. -/
theorem SpoolName.named_text (name : SpoolName Digest) :
    Digest.named (Files.utf8 name.text) = name.named := by
  cases name with
  | blob hash => exact (Digest.named_eq_some_iff _ hash).mpr (.inl rfl)
  | part hash => exact (Digest.named_eq_some_iff _ hash).mpr (.inr rfl)
  | taking tag =>
    rw [SpoolName.named, Option.eq_none_iff_forall_ne_some]
    intro hash parsed
    have dash : '-' ∈ (takingName tag).toList := by simp [takingName]
    have digits : '-' ∉ hash.fileName.toList := by
      intro member
      rw [Digest.fileName, String.toList_ofList] at member
      exact absurd (Hex.value_of_mem hash.val '-' member) (by decide)
    obtain same | same := (Digest.named_eq_some_iff _ hash).mp parsed
    · rw [← Files.utf8_injective same] at digits
      exact digits dash
    · rw [SpoolName.text] at same
      rw [Files.utf8_injective same, Digest.partialName, String.toList_append,
        List.mem_append] at dash
      exact dash.elim digits (by decide)

/-- The spool as its directories are: entries under whatever names they have. -/
structure SpoolDir (Id : Type) where
  blobs : Inodes.Dir Bytes UInt8
  /-- Whose files were laid out in a tree since it was last removed. -/
  trees : String → Option (List (Stamp Id))
  transfers : List (Incoming Digest)

/-- What the file system lets a sweep do. -/
structure SweepAnswers where
  listsTrees : Bool
  listsBlobs : Bool
  removesTree : String → Bool
  removesBlob : Bytes → Bool

/-- A tree that a sweep drops. -/
def SweepAnswers.Drops {Id : Type} [EndpointText Id] (works : SweepAnswers)
    (live : Option (Stamp Id)) (tree : String) : Prop :=
  live.map Stamp.fileName ≠ some tree ∧ works.removesTree tree = true

instance {Id : Type} [EndpointText Id] (works : SweepAnswers) (live : Option (Stamp Id))
    (tree : String) : Decidable (works.Drops live tree) := by
  unfold SweepAnswers.Drops
  infer_instance

/-- What is done to the spool. -/
inductive SpoolLabel (Id : Type) where
  | take (tag : UInt64) (source : Option Bytes)
  | receive (hash : Digest)
  | write (index : Nat) (bytes : Bytes)
  | finish (index : Nat)
  /-- A tree is laid out; whether the old one can be removed and the new one be created. -/
  | layOut (stamp : Stamp Id) (removed created : Bool)
  | sweep (works : SweepAnswers) (live : Option (Stamp Id)) (content : List Digest)
  /-- Somebody else leaves a file. -/
  | put (entry bytes : Bytes)

/-- A step that removes the tree of a name. -/
def SpoolLabel.Removes {Id : Type} [EndpointText Id] (tree : String) : SpoolLabel Id → Prop
  | .layOut stamp removed _ => removed = true ∧ stamp.fileName = tree
  | .sweep works live _ => works.listsTrees = true ∧ works.Drops live tree
  | _ => False

namespace SpoolDir

variable {Id : Type} [EndpointText Id]

def empty : SpoolDir Id where
  blobs := .empty
  trees _ := none
  transfers := []

/-- Whether a sweep for some content keeps an entry. -/
def keeps (content : List Digest) (entry : Bytes) : Bool :=
  (Digest.named entry).any (fun hash => content.contains hash)

/-- Drops everything the clip stamped `live` does not name; whether it succeeds, and what it
leaves. -/
def sweep (works : SweepAnswers) (live : Option (Stamp Id)) (content : List Digest)
    (spool : SpoolDir Id) : Bool × SpoolDir Id :=
  if !works.listsTrees then (false, spool)
  else
    let pruned := { spool with
      trees := fun tree => if works.Drops live tree then none else spool.trees tree }
    if !works.listsBlobs then (false, pruned)
    else (true, { pruned with
      blobs := spool.blobs.retain (fun entry => keeps content entry || !works.removesBlob entry) })

section Operations
variable [ContentHash Digest]

/-- Takes a snapshot of a file into the spool; `source` is `none` when it cannot be read
whole. -/
def take (tag : UInt64) (source : Option Bytes) (spool : SpoolDir Id) : SpoolDir Id :=
  let tmp := utf8 (takingName tag)
  match source with
  | none => { spool with blobs := spool.blobs.remove tmp }
  | some bytes =>
      let blob := utf8 (ContentHash.of bytes : Digest).fileName
      let taken := spool.blobs.create tmp bytes
      { spool with
        blobs :=
          if (spool.blobs.entries blob).isSome then taken.remove tmp else taken.rename tmp blob }

/-- Opens a transfer for `hash`, resuming a partial one. -/
def receive (hash : Digest) (spool : SpoolDir Id) : SpoolDir Id :=
  let part := utf8 hash.partialName
  match spool.blobs.entries part with
  | some file =>
      { spool with
        transfers := spool.transfers ++ [{ hash, file, hashed := spool.blobs.content file }] }
  | none =>
      { spool with
        blobs := spool.blobs.create part []
        transfers :=
          spool.transfers ++ [{ hash, file := spool.blobs.contents.length, hashed := [] }] }

/-- Appends what arrived. -/
def write (index : Nat) (incoming : Incoming Digest) (bytes : Bytes) (spool : SpoolDir Id) :
    SpoolDir Id :=
  { spool with
    blobs := spool.blobs.writeAt incoming.file incoming.hashed.length bytes
    transfers := spool.transfers.set index { incoming with hashed := incoming.hashed ++ bytes } }

/-- Checks a transfer against the hash it was asked for and puts it in the spool. -/
def finish (index : Nat) (incoming : Incoming Digest) (spool : SpoolDir Id) : SpoolDir Id :=
  let part := utf8 incoming.hash.partialName
  { spool with
    blobs :=
      if ContentHash.of incoming.hashed ≠ incoming.hash then spool.blobs.remove part
      else spool.blobs.rename part (utf8 incoming.hash.fileName)
    transfers := spool.transfers.eraseIdx index }

/-- Lays a clip's files out, as far as it is known whose they are. -/
def layOut (stamp : Stamp Id) (removed created : Bool) (spool : SpoolDir Id) : SpoolDir Id :=
  let left := if removed then none else spool.trees stamp.fileName
  { spool with
    trees := Function.update spool.trees stamp.fileName
      (if created then some (stamp :: left.getD []) else left) }

/-- What is done, where it can be. -/
def step (spool : SpoolDir Id) : SpoolLabel Id → Option (SpoolDir Id)
  | .take tag source => some (spool.take tag source)
  | .receive hash => some (spool.receive hash)
  | .write index bytes =>
      spool.transfers[index]?.map (fun incoming => spool.write index incoming bytes)
  | .finish index => spool.transfers[index]?.map (fun incoming => spool.finish index incoming)
  | .layOut stamp removed created => some (spool.layOut stamp removed created)
  | .sweep works live content => some (spool.sweep works live content).2
  | .put entry bytes => some { spool with blobs := spool.blobs.create entry bytes }

end Operations

/-! ## Whose a tree is -/

/-- The files of a stamp were laid out in a tree that was not removed since. -/
def LaidSince (labels : List (SpoolLabel Id)) (tree : String) (stamp : Stamp Id) : Prop :=
  ∃ early late removed, labels = early ++ .layOut stamp removed true :: late ∧
    stamp.fileName = tree ∧ ∀ label ∈ late, ¬ label.Removes tree

/-- What one more step does to what was laid out in a tree. Either it is this step that lays the
tree out, or it was laid out before and this step leaves it. -/
theorem laidSince_concat_iff (labels : List (SpoolLabel Id)) (label : SpoolLabel Id) (tree : String)
    (stamp : Stamp Id) :
    LaidSince (labels ++ [label]) tree stamp ↔
      (∃ removed, label = .layOut stamp removed true ∧ stamp.fileName = tree) ∨
        LaidSince labels tree stamp ∧ ¬ label.Removes tree := by
  constructor
  · rintro ⟨early, late, removed, split, named, since⟩
    obtain rfl | ⟨before, last, rfl⟩ := late.eq_nil_or_concat'
    · obtain ⟨_, same⟩ := List.append_inj' split rfl
      exact .inl ⟨removed, (List.cons.inj same).1, named⟩
    · rw [← List.cons_append, ← List.append_assoc] at split
      obtain ⟨rfl, same⟩ := List.append_inj' split rfl
      obtain rfl := (List.cons.inj same).1
      rw [List.forall_mem_append, List.forall_mem_singleton] at since
      exact .inr ⟨⟨early, before, removed, rfl, named, since.1⟩, since.2⟩
  · rintro (⟨removed, rfl, named⟩ | ⟨⟨early, late, removed, rfl, named, since⟩, stays⟩)
    · exact ⟨labels, [], removed, rfl, named, by simp⟩
    · refine ⟨early, late ++ [label], removed, by simp, named, ?_⟩
      rw [List.forall_mem_append, List.forall_mem_singleton]
      exact ⟨since, stays⟩

variable [ContentHash Digest]

omit [ContentHash Digest] in
/-- What laying out leaves of the stamps in a tree. The tree of that name is removed first and
then planted, and each of the two may fail. -/
theorem mem_layOut_iff (spool : SpoolDir Id) (other : Stamp Id) (removed created : Bool)
    (tree : String) (stamp : Stamp Id) :
    (∃ stamps, (spool.layOut other removed created).trees tree = some stamps ∧ stamp ∈ stamps) ↔
      (created = true ∧ other = stamp ∧ stamp.fileName = tree) ∨
        (∃ stamps, spool.trees tree = some stamps ∧ stamp ∈ stamps) ∧
          ¬ (removed = true ∧ other.fileName = tree) := by
  by_cases same : tree = other.fileName
  · subst same
    simp only [layOut, Function.update_self]
    have left_iff : (∃ stamps, (if removed = true then none else spool.trees other.fileName) =
        some stamps ∧ stamp ∈ stamps) ↔
          (∃ stamps, spool.trees other.fileName = some stamps ∧ stamp ∈ stamps) ∧
            ¬ (removed = true ∧ True) := by
      cases removed <;> simp
    rw [← left_iff]
    generalize (if removed = true then none else spool.trees other.fileName) = left
    cases created with
    | false => simp
    | true =>
      have added : (∃ stamps, some (other :: left.getD []) = some stamps ∧ stamp ∈ stamps) ↔
          stamp = other ∨ ∃ stamps, left = some stamps ∧ stamp ∈ stamps := by
        cases left <;> simp
      rw [if_pos rfl, added]
      refine or_congr ⟨?_, ?_⟩ Iff.rfl
      · rintro rfl
        exact ⟨rfl, rfl, rfl⟩
      · rintro ⟨_, rfl, _⟩
        rfl
  · have elsewhere : other.fileName ≠ tree := Ne.symm same
    simp only [layOut, Function.update_of_ne same, elsewhere, and_false, not_false_eq_true,
      and_true]
    constructor
    · exact .inr
    · rintro (⟨_, rfl, named⟩ | held)
      · exact absurd named elsewhere
      · exact held

omit [ContentHash Digest] in
/-- A sweep drops trees whether or not it can read what is beside them. -/
theorem sweep_trees (spool : SpoolDir Id) (works : SweepAnswers) (live : Option (Stamp Id))
    (content : List Digest) (tree : String) :
    (spool.sweep works live content).2.trees tree =
      if works.listsTrees = true ∧ works.Drops live tree then none else spool.trees tree := by
  unfold sweep
  cases works.listsTrees <;> cases works.listsBlobs <;> simp

/-- What one step leaves of the stamps in a tree. Laying out is what its lemma says, a sweep takes
the whole tree or leaves it, and a sweep that cannot list the trees takes none. -/
theorem mem_step_iff (spool next : SpoolDir Id) (label : SpoolLabel Id)
    (taken : spool.step label = some next) (tree : String) (stamp : Stamp Id) :
    (∃ stamps, next.trees tree = some stamps ∧ stamp ∈ stamps) ↔
      (∃ removed, label = .layOut stamp removed true ∧ stamp.fileName = tree) ∨
        (∃ stamps, spool.trees tree = some stamps ∧ stamp ∈ stamps) ∧ ¬ label.Removes tree := by
  cases label with
  | layOut other removed created =>
    obtain rfl := Option.some.inj taken
    rw [mem_layOut_iff]
    refine or_congr ?_ Iff.rfl
    simp only [SpoolLabel.layOut.injEq]
    constructor
    · rintro ⟨rfl, rfl, named⟩
      exact ⟨removed, ⟨rfl, rfl, rfl⟩, named⟩
    · rintro ⟨_, ⟨rfl, _, rfl⟩, named⟩
      exact ⟨rfl, rfl, named⟩
  | sweep works live content =>
    obtain rfl := Option.some.inj taken
    by_cases gone : works.listsTrees = true ∧ works.Drops live tree <;>
      simp [sweep_trees, SpoolLabel.Removes, gone]
  | take tag source =>
    obtain rfl := Option.some.inj taken
    have same : (spool.take tag source).trees = spool.trees := by cases source <;> rfl
    simp [SpoolLabel.Removes, same]
  | receive hash =>
    obtain rfl := Option.some.inj taken
    have same : (spool.receive hash).trees = spool.trees := by
      unfold receive
      dsimp only
      split <;> rfl
    simp [SpoolLabel.Removes, same]
  | write index bytes =>
    obtain ⟨incoming, _, rfl⟩ := Option.map_eq_some_iff.mp taken
    simp [SpoolLabel.Removes, write]
  | finish index =>
    obtain ⟨incoming, _, rfl⟩ := Option.map_eq_some_iff.mp taken
    simp [SpoolLabel.Removes, finish]
  | put entry bytes =>
    obtain rfl := Option.some.inj taken
    simp [SpoolLabel.Removes]

/-- A tree has the files of the stamps it was laid out for since it was last removed. -/
theorem mem_trees_iff (labels : List (SpoolLabel Id)) (spool : SpoolDir Id)
    (reached : Runs.run step empty labels = some spool) (tree : String) (stamp : Stamp Id) :
    (∃ stamps, spool.trees tree = some stamps ∧ stamp ∈ stamps) ↔ LaidSince labels tree stamp := by
  induction labels using List.reverseRecOn generalizing spool with
  | nil =>
    obtain rfl : empty = spool := Option.some.inj reached
    constructor
    · rintro ⟨stamps, held, _⟩
      cases held
    · rintro ⟨early, late, removed, split, _⟩
      simp at split
  | append_singleton labels label inductionHypothesis =>
    obtain ⟨before, through, taken⟩ := (Runs.run_concat_iff ..).mp reached
    rw [laidSince_concat_iff, ← inductionHypothesis before through,
      mem_step_iff before spool label taken]

/-! ## Sweeping -/

omit [EndpointText Id] [ContentHash Digest] in
/-- A sweep keeps an entry for the content it is one of two names of. -/
theorem keeps_iff (content : List Digest) (entry : Bytes) :
    keeps content entry = true ↔
      ∃ hash ∈ content, entry = utf8 hash.fileName ∨ entry = utf8 hash.partialName := by
  simp only [keeps, Option.any_eq_true, List.contains_iff_mem, Digest.named_eq_some_iff]
  constructor
  · rintro ⟨hash, named, wanted⟩
    exact ⟨hash, wanted, named⟩
  · rintro ⟨hash, wanted, named⟩
    exact ⟨hash, named, wanted⟩

omit [EndpointText Id] [ContentHash Digest] in
/-- Of the files the spool makes, a sweep of names keeps what a sweep of hashes keeps. -/
theorem keeps_text (content : List Digest) (name : SpoolName Digest) :
    keeps content (utf8 name.text) = Store.isNamed content name := by
  rw [keeps, SpoolName.named_text, Store.isNamed]
  congr 1
  funext hash
  simp only [List.contains_eq_mem, decide_eq_decide]

/-- What a sweep is to leave: the tree that was laid out for the live clip and no other, and of
the content what is wanted, whole or partial, with the bytes it had. -/
structure Leaves (live : Stamp Id) (content : List Digest) (before after : SpoolDir Id) : Prop where
  kept : after.trees live.fileName = before.trees live.fileName
  alone : ∀ tree stamps, after.trees tree = some stamps →
    tree = live.fileName ∧ ∀ stamp ∈ stamps, stamp = live
  blobs : ∀ entry bytes, after.blobs.read entry = some bytes ↔
    before.blobs.read entry = some bytes ∧
      ∃ hash ∈ content, entry = utf8 hash.fileName ∨ entry = utf8 hash.partialName

/-- The sweep can remove what it has to. -/
structure CanRemove (works : SweepAnswers) (live : Stamp Id) (content : List Digest)
    (spool : SpoolDir Id) : Prop where
  trees : ∀ tree, spool.trees tree ≠ none → tree ≠ live.fileName → works.removesTree tree = true
  blobs : ∀ entry, spool.blobs.read entry ≠ none → keeps content entry = false →
    works.removesBlob entry = true

omit [ContentHash Digest] in
/-- What a sweep that succeeds leaves under each name. A sweep that cannot list one of the two
directories fails, and one that cannot remove an entry leaves it. -/
theorem sweep_eq (spool after : SpoolDir Id) (works : SweepAnswers) (live : Stamp Id)
    (content : List Digest) (swept : spool.sweep works (some live) content = (true, after)) :
    (∀ tree, after.trees tree =
        if tree ≠ live.fileName ∧ works.removesTree tree = true then none else spool.trees tree) ∧
      ∀ entry, after.blobs.read entry =
        if (keeps content entry || !works.removesBlob entry) = true then spool.blobs.read entry
        else none := by
  unfold sweep at swept
  split at swept
  · cases swept
  · dsimp only at swept
    split at swept
    · cases swept
    · obtain rfl := (Prod.mk.inj swept).2
      refine ⟨?_, fun entry => Inodes.Dir.read_retain ..⟩
      intro tree
      simp only [SweepAnswers.Drops, Option.map_some, ne_eq, Option.some.injEq, eq_comm]

/-- A sweep leaves exactly the live clip where names tell stamps apart. For every history of
the spool, every live stamp and all content, a sweep that succeeds leaves the tree of the live
clip and what is wanted of the content, and nothing else, if and only if what it has to remove
can be removed, and no other stamp was laid out under the printed form of the live one since
the tree of that name was last removed. -/
theorem sweep_leaves_the_live_clip_iff (labels : List (SpoolLabel Id)) (spool : SpoolDir Id)
    (reached : Runs.run step empty labels = some spool) (works : SweepAnswers) (live : Stamp Id)
    (content : List Digest) (after : SpoolDir Id)
    (swept : spool.sweep works (some live) content = (true, after)) :
    Leaves live content spool after ↔
      CanRemove works live content spool ∧
        ∀ other, LaidSince labels live.fileName other → other = live := by
  obtain ⟨trees, blobs⟩ := sweep_eq spool after works live content swept
  constructor
  · rintro ⟨kept, alone, exactly⟩
    refine ⟨⟨?_, ?_⟩, ?_⟩
    · intro tree there other
      by_contra stuck
      obtain ⟨stamps, held⟩ := Option.ne_none_iff_exists'.mp there
      have left : after.trees tree = some stamps := by
        rw [trees, if_neg (fun gone => stuck gone.2), held]
      exact other (alone tree stamps left).1
    · intro entry there unwanted
      by_contra stuck
      obtain ⟨bytes, held⟩ := Option.ne_none_iff_exists'.mp there
      have left : after.blobs.read entry = some bytes := by
        rw [blobs, if_pos (by simp [stuck]), held]
      have wanted := (keeps_iff content entry).mpr ((exactly entry bytes).mp left).2
      rw [unwanted] at wanted
      cases wanted
    · intro other since
      obtain ⟨stamps, held, member⟩ := (mem_trees_iff labels spool reached _ other).mpr since
      exact (alone live.fileName stamps (kept.trans held)).2 other member
  · rintro ⟨⟨treesGo, blobsGo⟩, unmixed⟩
    have kept : after.trees live.fileName = spool.trees live.fileName := by
      rw [trees, if_neg (fun gone => gone.1 rfl)]
    refine ⟨kept, ?_, ?_⟩
    · intro tree stamps left
      by_cases same : tree = live.fileName
      · subst same
        refine ⟨rfl, fun stamp member => unmixed stamp ?_⟩
        exact (mem_trees_iff labels spool reached _ stamp).mp ⟨stamps, kept ▸ left, member⟩
      · exfalso
        rw [trees] at left
        split at left
        · cases left
        · rename_i stays
          exact stays ⟨same, treesGo tree (by rw [left]; exact Option.some_ne_none _) same⟩
    · intro entry bytes
      rw [← keeps_iff, blobs]
      cases wanted : keeps content entry with
      | true => simp
      | false =>
        cases held : spool.blobs.read entry with
        | none => simp
        | some there =>
          have goes := blobsGo entry (by rw [held]; exact Option.some_ne_none _) wanted
          simp [goes]

omit [ContentHash Digest] in
/-- The live clip's tree and its content stay; another clip's, an abandoned transfer and a name
that is not even text go. -/
theorem sweep_leaves_a_live_clip :
    let _ : ContentHash Digest := ⟨fun bytes => ⟨(bytes ++ List.replicate 32 0).take 32, by simp⟩⟩
    let live : Stamp Nat := { millis := 1, origin := 123456781 }
    let other : Stamp Nat := { millis := 2, origin := 123456781 }
    let works : SweepAnswers :=
      { listsTrees := true, listsBlobs := true, removesTree := fun _ => true
        removesBlob := fun _ => true }
    let labels : List (SpoolLabel Nat) :=
      [.take 0 (some [1]), .take 1 (some [2]), .receive (ContentHash.of [3]), .put [255] [],
        .layOut other true true, .layOut live true true]
    ∃ spool after, Runs.run step empty labels = some spool ∧
      spool.sweep works (some live) [ContentHash.of [2]] = (true, after) ∧
      Leaves live [ContentHash.of [2]] spool after := by
  intro hashing live other works labels
  refine ⟨_, _, rfl, rfl, (sweep_leaves_the_live_clip_iff labels _ rfl works live _ _ rfl).mpr
    ⟨⟨fun _ _ _ => rfl, fun _ _ _ => rfl⟩, ?_⟩⟩
  intro stamp since
  obtain ⟨stamps, held, member⟩ := (mem_trees_iff labels _ rfl _ stamp).mpr since
  have alone : stamps = [live] := by
    change Function.update _ live.fileName _ live.fileName = _ at held
    rw [Function.update_self, if_pos rfl, if_pos rfl] at held
    exact (Option.some.inj held).symm
  rw [alone, List.mem_singleton] at member
  exact member

omit [ContentHash Digest] in
/-- A tree laid out for another clip of the same millisecond passes for the live one's, where
the origins start alike. -/
theorem sweep_leaves_a_tree_of_another :
    let _ : ContentHash Digest := ⟨fun bytes => ⟨(bytes ++ List.replicate 32 0).take 32, by simp⟩⟩
    let live : Stamp Nat := { millis := 1, origin := 123456781 }
    let other : Stamp Nat := { millis := 1, origin := 123456782 }
    let works : SweepAnswers :=
      { listsTrees := true, listsBlobs := true, removesTree := fun _ => true
        removesBlob := fun _ => true }
    let labels : List (SpoolLabel Nat) := [.layOut other true true]
    ∃ spool after, Runs.run step empty labels = some spool ∧
      spool.sweep works (some live) [] = (true, after) ∧
      after.trees live.fileName = some [other] ∧ ¬ Leaves live [] spool after := by
  intro hashing live other works labels
  have first : live.fileName = "1-12345678" := by decide +kernel
  have second : other.fileName = "1-12345678" := by decide +kernel
  let spool : SpoolDir Nat := layOut other true true empty
  have left : (spool.sweep works (some live) []).2.trees live.fileName = some [other] := by
    rw [sweep_trees, if_neg (by simp [SweepAnswers.Drops]), first, ← second]
    exact Function.update_self ..
  refine ⟨spool, _, rfl, rfl, left, ?_⟩
  intro leaves
  exact absurd ((leaves.alone _ _ left).2 other (List.mem_singleton_self other)) (by decide)

end SpoolDir

end Yank
