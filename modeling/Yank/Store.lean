import Yank.Inodes
import Yank.Copy

/-!
# The spool

Content by hash, transfers that have not finished beside it, and the trees of
links a clip is laid out in. A transfer keeps the file it opened whatever
happens to its name, writes where it stands in it, and ends by renaming whatever
is under the name of the partial then.

The disk takes every write. What a source file holds when it is taken in is an
argument, and so is the random tag of the file it is taken under.
-/

namespace Yank

/-- What an endpoint id is printed as. -/
class EndpointText (Id : Type) where
  text : Id → String

/-- Numbers stand in for ids in examples. -/
instance : EndpointText Nat where
  text id := String.ofList (Nat.toDigits 10 id)

/-- The name of a copy's tree: its milliseconds, and the start of its origin. -/
def Stamp.fileName {Id : Type} [EndpointText Id] (stamp : Stamp Id) : String :=
  toString stamp.millis.toNat ++ "-" ++
    String.ofList ((EndpointText.text stamp.origin).toList.take 8)

/-- What a file among the blobs is called. -/
inductive SpoolName (Hash : Type) where
  | blob (hash : Hash)
  | part (hash : Hash)
  | taking (tag : UInt64)
deriving DecidableEq

/-- The hash a spooled file's name says it is, whole or partial. -/
def SpoolName.named {Hash : Type} : SpoolName Hash → Option Hash
  | .blob hash => some hash
  | .part hash => some hash
  | .taking _ => none

/-- The spool of one machine. -/
structure Store (Hash : Type) where
  blobs : Inodes.Dir (SpoolName Hash) UInt8
  /-- The names of the trees there are. -/
  trees : Finset String
  /-- The path of each link of a tree and the file it leads to. -/
  links : String → List (String × Nat)

/-- A transfer being written, with everything hashed so far. -/
structure Incoming (Hash : Type) where
  hash : Hash
  file : Nat
  hashed : Bytes
deriving DecidableEq

variable {Id Hash : Type} [DecidableEq Hash]

/-- How much of the content is already here. -/
def Incoming.at (incoming : Incoming Hash) : UInt64 := UInt64.ofNat incoming.hashed.length

namespace Store

/-- A spool with nothing in it. -/
def empty : Store Hash where
  blobs := .empty
  trees := ∅
  links _ := []

/-- The content of `hash`. -/
def blob (store : Store Hash) (hash : Hash) : Option Bytes := store.blobs.read (.blob hash)

/-- What a transfer for `hash` has so far. -/
def part (store : Store Hash) (hash : Hash) : Option Bytes := store.blobs.read (.part hash)

/-- Whether the content is here in full. -/
def has (store : Store Hash) (hash : Hash) : Bool := (store.blobs.entries (.blob hash)).isSome

/-- Takes a snapshot of a file into the spool; `source` is `none` when it cannot
be read whole. -/
def take [ContentHash Hash] (tag : UInt64) (source : Option Bytes) (store : Store Hash) :
    Store Hash × Option (Hash × UInt64) :=
  match source with
  | none => ({ store with blobs := store.blobs.remove (.taking tag) }, none)
  | some bytes =>
      let hash : Hash := ContentHash.of bytes
      let taken := store.blobs.create (.taking tag) bytes
      -- Some other copy may have named these bytes already.
      ({ store with
          blobs :=
            if store.has hash then taken.remove (.taking tag)
            else taken.rename (.taking tag) (.blob hash) },
        some (hash, UInt64.ofNat bytes.length))

/-- How much of a transfer for `hash`, a file of `size` bytes, is already here.
One that grew past it holds the wrong bytes, and goes. -/
def partialSize (hash : Hash) (size : UInt64) (store : Store Hash) : UInt64 × Store Hash :=
  match store.part hash with
  | some bytes =>
      if bytes.length ≤ size.toNat then (UInt64.ofNat bytes.length, store)
      else (0, { store with blobs := store.blobs.remove (.part hash) })
  | none => (0, store)

/-- Opens a transfer for `hash`, resuming a partial one: what is already on disk
is hashed back in. -/
def receive (hash : Hash) (store : Store Hash) : Incoming Hash × Store Hash :=
  match store.blobs.entries (.part hash) with
  | some file => ({ hash, file, hashed := store.blobs.content file }, store)
  | none =>
      ({ hash, file := store.blobs.contents.length, hashed := [] },
        { store with blobs := store.blobs.create (.part hash) [] })

/-- Appends what arrived, where the transfer stands in its file. -/
def write (bytes : Bytes) (incoming : Incoming Hash) (store : Store Hash) :
    Incoming Hash × Store Hash :=
  ({ incoming with hashed := incoming.hashed ++ bytes },
    { store with blobs := store.blobs.writeAt incoming.file incoming.hashed.length bytes })

/-- Checks the transfer against the hash it was asked for and puts it in the
spool. A mismatch takes the partial with it. -/
def finish [ContentHash Hash] (incoming : Incoming Hash) (store : Store Hash) : Store Hash :=
  if ContentHash.of incoming.hashed ≠ incoming.hash then
    { store with blobs := store.blobs.remove (.part incoming.hash) }
  else { store with blobs := store.blobs.rename (.part incoming.hash) (.blob incoming.hash) }

/-- Links one file into a tree; `none` when its path is unusable or taken, or its
content is not here. -/
def link (store : Store Hash) (links : List (String × Nat)) (file : Files.FileRef Hash) :
    Option (List (String × Nat)) :=
  let path := file.path.toList
  if file.isSafe && !links.any (fun taken =>
      Files.clashes taken.1.toList path || Files.clashes path taken.1.toList) then
    (store.blobs.entries (.blob file.hash)).map (fun blob => links ++ [(file.path, blob)])
  else none

/-- Starts the tree of a clip over. -/
def plant [EndpointText Id] (stamp : Stamp Id) (store : Store Hash) : Store Hash :=
  { store with
    trees := insert stamp.fileName store.trees
    links := Function.update store.links stamp.fileName [] }

/-- Links one file into the tree of a clip, where its parents are created on the
way; answers whether it is there. -/
def linkIn [EndpointText Id] (stamp : Stamp Id) (file : Files.FileRef Hash) (store : Store Hash) :
    Store Hash × Bool :=
  if !file.isSafe then (store, false)
  else
    -- A tree taken away meanwhile comes back with what is linked from here on.
    let standing := if stamp.fileName ∈ store.trees then store.links stamp.fileName else []
    let planted := { store with trees := insert stamp.fileName store.trees }
    match store.link standing file with
    | some linked =>
        ({ planted with links := Function.update store.links stamp.fileName linked }, true)
    | none =>
        ({ planted with links := Function.update store.links stamp.fileName standing }, false)

/-- Whether a sweep keeps a file: its name says a hash that is named. -/
def isNamed (content : List Hash) (name : SpoolName Hash) : Bool :=
  name.named.any (fun hash => content.contains hash)

/-- Looks at one tree of the trees listed: all but that of the clip stamped `live`
go. -/
def sweepTree [EndpointText Id] (live : Option (Stamp Id)) (tree : String) (store : Store Hash) :
    Store Hash :=
  if live.map Stamp.fileName = some tree then store
  else { store with trees := store.trees.erase tree }

/-- Looks at one file of the files listed. -/
def sweepBlob (content : List Hash) (name : SpoolName Hash) (store : Store Hash) : Store Hash :=
  if isNamed content name then store
  else { store with blobs := store.blobs.remove name }

/-- A transfer has the file its partial is named by, and stands at its end. -/
structure Open (incoming : Incoming Hash) (store : Store Hash) : Prop where
  named : store.blobs.entries (.part incoming.hash) = some incoming.file
  hashed : store.blobs.content incoming.file = incoming.hashed

/-- Nothing but the content of `hash` and its partial was touched. -/
def Touches (hash : Hash) (before after : Store Hash) : Prop :=
  ∀ name, name ≠ .blob hash → name ≠ .part hash →
    after.blobs.read name = before.blobs.read name

omit [DecidableEq Hash] in
/-- Nothing was touched. -/
theorem Touches.refl (hash : Hash) (store : Store Hash) : Touches hash store store :=
  fun _ _ _ => rfl

omit [DecidableEq Hash] in
/-- Touching the same content twice touches nothing else. -/
theorem Touches.trans (hash : Hash) (first second third : Store Hash)
    (early : Touches hash first second) (late : Touches hash second third) :
    Touches hash first third := fun name notBlob notPart =>
  (late name notBlob notPart).trans (early name notBlob notPart)

omit [DecidableEq Hash] in
/-- Other content is read as before, whole or partial. -/
theorem Touches.other (hash other : Hash) (before after : Store Hash)
    (touches : Touches hash before after) (apart : other ≠ hash) :
    after.blob other = before.blob other ∧ after.part other = before.part other := by
  constructor
  · exact touches (.blob other) (by simpa using apart) (by simp)
  · exact touches (.part other) (by simp) (by simpa using apart)

omit [DecidableEq Hash] in
/-- An open transfer has hashed what its partial holds. -/
theorem Open.part (incoming : Incoming Hash) (store : Store Hash) (opened : Open incoming store) :
    store.part incoming.hash = some incoming.hashed := by
  rw [Store.part, Inodes.Dir.read, opened.named, Option.map_some, opened.hashed]

/-- A transfer opens where the last one stopped. A partial that is there is opened as it is, and
one that is not is made empty. -/
theorem receive_spec (hash : Hash) (store : Store Hash) :
    Open (store.receive hash).1 (store.receive hash).2 ∧
      (store.receive hash).1.hash = hash ∧
      (store.receive hash).1.hashed = (store.part hash).getD [] ∧
      (store.receive hash).2.blob hash = store.blob hash ∧
      Touches hash store (store.receive hash).2 := by
  unfold receive
  cases held : store.blobs.entries (.part hash) with
  | some file =>
    refine ⟨⟨held, rfl⟩, rfl, ?_, rfl, Touches.refl hash store⟩
    simp [part, Inodes.Dir.read, held]
  | none =>
    refine ⟨⟨Function.update_self _ _ _, ?_⟩, rfl, ?_, ?_, ?_⟩
    · simp [Inodes.Dir.content, Inodes.Dir.create]
    · simp [part, Inodes.Dir.read, held]
    · exact Inodes.Dir.read_create_of_ne store.blobs (.part hash) (.blob hash) [] (by simp)
    · intro name _ notPart
      exact Inodes.Dir.read_create_of_ne store.blobs (.part hash) name [] notPart

omit [DecidableEq Hash] in
/-- What is written goes at the end of the partial and nowhere else. The file is under one name
only, so nothing else is read differently. -/
theorem write_spec (bytes : Bytes) (incoming : Incoming Hash) (store : Store Hash)
    (opened : Open incoming store) :
    Open (store.write bytes incoming).1 (store.write bytes incoming).2 ∧
      (store.write bytes incoming).2.blob incoming.hash = store.blob incoming.hash ∧
      Touches incoming.hash store (store.write bytes incoming).2 := by
  have elsewhere : ∀ name, name ≠ .part incoming.hash →
      (store.write bytes incoming).2.blobs.read name = store.blobs.read name := by
    intro name notPart
    exact Inodes.Dir.read_writeAt_of_ne store.blobs name bytes incoming.file _
      (Inodes.Dir.entries_ne store.blobs _ name incoming.file opened.named notPart)
  refine ⟨⟨opened.named, ?_⟩, elsewhere (.blob incoming.hash) (by simp),
    fun name _ notPart => elsewhere name notPart⟩
  have inside := store.blobs.valid _ _ opened.named
  have written : (store.write bytes incoming).2.blobs.content incoming.file =
      Inodes.Dir.splice incoming.hashed.length bytes (store.blobs.content incoming.file) := by
    simp [write, Inodes.Dir.content, Inodes.Dir.writeAt, List.getElem?_eq_getElem inside]
  change (store.write bytes incoming).2.blobs.content incoming.file = incoming.hashed ++ bytes
  rw [written, opened.hashed, Inodes.Dir.splice_length]

section Hash
variable [ContentHash Hash]

/-- Content that is what it was named becomes a blob. The partial is what was hashed, by the
transfer being open, and takes the name of its content. -/
theorem finish_match (incoming : Incoming Hash) (store : Store Hash)
    (opened : Open incoming store) (right : ContentHash.of incoming.hashed = incoming.hash) :
    (store.finish incoming).blob incoming.hash = some incoming.hashed ∧
      (store.finish incoming).part incoming.hash = none ∧
      Touches incoming.hash store (store.finish incoming) := by
  have present : (store.blobs.entries (.part incoming.hash)).isSome = true := by
    rw [opened.named]
    rfl
  have moved : ∀ name, (store.finish incoming).blobs.read name =
      if name = .blob incoming.hash then store.blobs.read (.part incoming.hash)
      else if name = .part incoming.hash then none else store.blobs.read name := by
    intro name
    rw [finish, if_neg (not_not.mpr right)]
    exact Inodes.Dir.read_rename store.blobs name _ _ present
  refine ⟨?_, ?_, ?_⟩
  · exact (moved _).trans ((if_pos rfl).trans (opened.part incoming store))
  · exact (moved _).trans ((if_neg (by simp)).trans (if_pos rfl))
  · intro name notBlob notPart
    exact (moved _).trans ((if_neg notBlob).trans (if_neg notPart))

/-- Content that is not what it was named goes, and leaves what was here. -/
theorem finish_mismatch (incoming : Incoming Hash) (store : Store Hash)
    (wrong : ContentHash.of incoming.hashed ≠ incoming.hash) :
    (store.finish incoming).part incoming.hash = none ∧
      (store.finish incoming).blob incoming.hash = store.blob incoming.hash ∧
      Touches incoming.hash store (store.finish incoming) := by
  rw [finish, if_pos wrong]
  refine ⟨Inodes.Dir.read_remove_self _ _, ?_, ?_⟩
  · exact Inodes.Dir.read_remove_of_ne store.blobs _ _ (by simp)
  · intro name _ notPart
    exact Inodes.Dir.read_remove_of_ne store.blobs _ _ notPart

end Hash

/-- What looking at a partial for a file of `size` bytes leaves of it: one that grew
past the file goes. -/
def trimmed (size : UInt64) (held : Option Bytes) : Option Bytes :=
  match held with
  | some bytes => if bytes.length ≤ size.toNat then some bytes else none
  | none => none

omit [DecidableEq Hash] in
/-- Linking a file into a tree leaves all content. -/
theorem linkIn_blobs [EndpointText Id] (stamp : Stamp Id) (file : Files.FileRef Hash)
    (store : Store Hash) : (store.linkIn stamp file).1.blobs = store.blobs := by
  unfold linkIn
  by_cases unusable : (!file.isSafe) = true
  · rw [if_pos unusable]
  · rw [if_neg unusable]
    dsimp only
    split <;> rfl

/-- Looking at how much is here takes the partial of the content or nothing. -/
theorem partialSize_cases (hash : Hash) (size : UInt64) (store : Store Hash) :
    (store.partialSize hash size).2 = store ∨
      (store.partialSize hash size).2 = { store with blobs := store.blobs.remove (.part hash) } := by
  unfold partialSize
  cases store.part hash with
  | none => exact .inl rfl
  | some bytes =>
    dsimp only
    by_cases fits : bytes.length ≤ size.toNat
    · rw [if_pos fits]
      exact .inl rfl
    · rw [if_neg fits]
      exact .inr rfl

/-- What is asked of a peer is what the partial lacks; one too long goes first. A file is shorter
than 2^64 where it fits the size, so its length is what is asked past. -/
theorem partialSize_spec (hash : Hash) (size : UInt64) (store : Store Hash) :
    (store.partialSize hash size).1.toNat =
        (((store.partialSize hash size).2.part hash).getD []).length ∧
      (store.partialSize hash size).1 ≤ size ∧
      (store.partialSize hash size).2.part hash = trimmed size (store.part hash) ∧
      (store.partialSize hash size).2.blob hash = store.blob hash ∧
      Touches hash store (store.partialSize hash size).2 := by
  unfold partialSize
  cases held : store.part hash with
  | none =>
    refine ⟨by simp [held], UInt64.zero_le, ?_, rfl, Touches.refl hash store⟩
    rw [held]
    rfl
  | some bytes =>
    by_cases fits : bytes.length ≤ size.toNat
    · have small : bytes.length < 2 ^ 64 := lt_of_le_of_lt fits size.toNat_lt
      have exact_size : (UInt64.ofNat bytes.length).toNat = bytes.length := by
        rw [UInt64.toNat_ofNat']
        exact Nat.mod_eq_of_lt small
      dsimp only
      rw [if_pos fits]
      refine ⟨by rw [exact_size, held]; rfl, ?_, ?_, rfl, Touches.refl hash store⟩
      · rw [UInt64.le_iff_toNat_le, exact_size]
        exact fits
      · rw [held, trimmed, if_pos fits]
    · simp only [if_neg fits]
      have gone : Store.part { store with blobs := store.blobs.remove (.part hash) } hash = none :=
        Inodes.Dir.read_remove_self _ _
      refine ⟨by simp [gone], UInt64.zero_le, by rw [gone, trimmed, if_neg fits], ?_, ?_⟩
      · exact Inodes.Dir.read_remove_of_ne store.blobs _ _ (by simp)
      · intro name _ notPart
        exact Inodes.Dir.read_remove_of_ne store.blobs _ _ notPart

end Store

end Yank
