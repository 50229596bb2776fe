import Yank.Stamp
import Yank.Mime
import Yank.Manifest

/-!
# What the clipboard holds

A clip is a stamp and, unless it was cleared or its lifetime ran out, a copy. A
copy is a selection in every type it is carried under, with the manifest of the
files it names. The representation a selection is named by is a field of its
own, so no selection is without one.
-/

namespace Yank

variable {Id : Type} {Hash : Type}

/-- Hard ceiling on one selection, every representation together. -/
def maxSize : Nat := 4 * 1024 * 1024

/-- What a file adds to a copy on the wire besides its path. -/
def fileOverhead : Nat := 48

/-- Cap on a mime type's length. -/
def maxMimeLen : Nat := 255

/-- One representation of a selection. -/
structure Rep where
  mime : String
  bytes : Bytes
deriving DecidableEq

/-- A selection, in every type it is carried under, best first. -/
structure Selection where
  primary : Rep
  alternates : List Rep
deriving DecidableEq

/-- A copied selection. -/
structure Copy (Hash : Type) where
  selection : Selection
  /-- Whether this is a password or the like. -/
  secret : Bool
  /-- Seconds after which every machine empties its clipboard of it. -/
  ttl : Option UInt32
  /-- The files this selection names, empty when it names none. -/
  files : List (Files.FileRef Hash)
deriving DecidableEq

/-- The clipboard of the whole mesh: the latest copy, or nothing. -/
structure Clip (Id : Type) (Hash : Type) where
  stamp : Stamp Id
  copy : Option (Copy Hash)
deriving DecidableEq

namespace Selection

/-- Takes the representations of a selection, or nothing when there is none. -/
def new : List Rep → Option Selection
  | [] => none
  | primary :: alternates => some { primary, alternates }

/-- A selection carried under one type only. -/
def of (rep : Rep) : Selection := { primary := rep, alternates := [] }

/-- A selection naming files where they are on this machine. -/
def ofFiles (paths : List Path) : Selection where
  primary := { mime := Mime.plainText, bytes := Files.asText paths }
  alternates :=
    [{ mime := Mime.uriList, bytes := Files.uriList paths },
      { mime := Mime.gnomeCopiedFiles, bytes := Files.gnomeCopiedFiles paths }]

/-- Every representation, best first. -/
def reps (selection : Selection) : List Rep := selection.primary :: selection.alternates

/-- What the selection weighs: every representation together. -/
def size (selection : Selection) : Nat :=
  (selection.reps.map (fun rep => rep.bytes.length)).sum

end Selection

namespace Copy

/-- Whether the selection names files rather than carrying bytes. -/
def isFiles (copy : Copy Hash) : Bool := !copy.files.isEmpty

/-- What the copy weighs on the wire. -/
def size (copy : Copy Hash) : Nat :=
  copy.selection.size +
    (copy.files.map (fun file => file.path.utf8ByteSize + fileOverhead)).sum

/-- `char::is_ascii_graphic`, or the blank. -/
def isMimeChar (char : Char) : Bool := 32 ≤ char.toNat && char.toNat ≤ 126

/-- Whether a compositor can announce the type. -/
def isUsableType (mime : String) : Bool :=
  mime != "" && mime.utf8ByteSize ≤ maxMimeLen && mime.toList.all isMimeChar

/-- Refuses a copy no machine should hold. -/
def check (copy : Copy Hash) : Except Failure Unit := do
  ensure (copy.size ≤ maxSize) .copyTooLarge
  ensure (copy.selection.reps.length ≤ Mime.maxReps &&
    copy.selection.reps.all (fun rep => isUsableType rep.mime)) .unusableTypes
  ensure (copy.files.length ≤ Files.maxFiles) .tooManyFiles
  ensure (!(copy.secret && copy.isFiles)) .secretNamesFiles
  Files.validate copy.files

end Copy

/-- The fields of `config.toml` the clipboard and the file service read. -/
structure Settings where
  /-- Whether copies from other machines reach this clipboard. -/
  apply : Bool
  /-- Whether this machine's clipboard is shared with the others. -/
  capture : Bool
  /-- Largest selection shared from this machine, in bytes. -/
  maxSize : UInt64
  /-- Lifetime given to a secret copy when the caller asks for none. -/
  secretTtl : Duration
  /-- Mime types never captured. -/
  ignoreMime : List String
  /-- Whether a copied file is shared as its contents. -/
  files : Bool
  /-- Largest file copy shared, every file of it together. -/
  maxFileSize : UInt64
deriving DecidableEq

namespace Settings

/-- The defaults a missing `config.toml` stands for. -/
def default : Settings where
  apply := true
  capture := true
  maxSize := 1048576
  secretTtl := 90000000000
  ignoreMime := []
  files := true
  maxFileSize := 1073741824

/-- The size cap, never above the protocol ceiling. -/
def maxBytes (settings : Settings) : Nat := min settings.maxSize.toNat Yank.maxSize

end Settings

end Yank
