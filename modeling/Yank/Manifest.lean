import Yank.Adjacent
import Yank.Percent

/-!
# Files on the clipboard

A selection of files is a manifest: the path of each file under the clip's root,
its size and the hash of its content. The path was written by a peer and is used
to create files, so a manifest is checked before it drives anything.

Content is named by a hash of its bytes. The hash is a parameter: any type of
names with a function from bytes to names. Nothing here assumes it injective.

Paths on this machine are byte strings. A `file:` URI carries the unreserved
characters and the separator unescaped and every other byte percent-encoded.
-/

namespace Yank

variable {Hash : Type}

abbrev Bytes := List UInt8

/-- A path on this machine: bytes that need not be UTF-8. -/
abbrev Path := List UInt8

/-- The name of some content: the hash of a whole buffer. -/
class ContentHash (Hash : Type) where
  of : Bytes → Hash

/-- Content naming itself: a hash with no collisions, to run examples with. -/
instance : ContentHash Bytes where
  of bytes := bytes

/-- Why an operation ends in an error. All but the last are refusals the source
words itself; the last is the panic of a checked addition. -/
inductive Failure where
  | nothingToCopy
  | overLimit
  | copyTooLarge
  | unusableTypes
  | tooManyFiles
  | secretNamesFiles
  | unsafePath
  | samePath
  | claimsThisMachine
  | clockTooFarAhead
  | overflow
deriving DecidableEq, Repr

/-- The text of an error. `limit` is the configured size cap as it is printed. -/
def Failure.text (limit : String) : Failure → String
  | .nothingToCopy => "nothing to copy"
  | .overLimit => "the selection is larger than the " ++ limit ++ " limit in config.toml"
  | .copyTooLarge => "the copy is too large"
  | .unusableTypes => "the copy carries unusable types"
  | .tooManyFiles => "the copy names too many files"
  | .secretNamesFiles => "a secret cannot name files"
  | .unsafePath => "a file path is not safe"
  | .samePath => "two files would occupy the same path"
  | .claimsThisMachine => "it claims to come from this machine"
  | .clockTooFarAhead => "its clock is too far ahead of ours"
  | .overflow => "attempt to add with overflow"

/-- `eyre::ensure!`. -/
def ensure {Error : Type} (condition : Bool) (failure : Error) : Except Error Unit :=
  if condition then .ok () else .error failure

/-- A check passes where its condition holds. -/
@[simp] theorem ensure_ok_iff {Error : Type} (condition : Bool) (failure : Error) :
    ensure condition failure = .ok () ↔ condition = true := by
  cases condition <;> simp [ensure]

/-- What runs to a value went through a value of its first part. -/
theorem bind_ok_iff {Error α β : Type} (first : Except Error α) (rest : α → Except Error β)
    (value : β) :
    (first >>= rest) = .ok value ↔ ∃ middle, first = .ok middle ∧ rest middle = .ok value := by
  cases first with
  | error failure =>
    constructor
    · intro impossible
      cases impossible
    · rintro ⟨middle, impossible, _⟩
      cases impossible
  | ok middle =>
    change rest middle = .ok value ↔ _
    simp

/-- A check followed by more succeeds exactly when both do. -/
theorem ensure_bind_ok_iff {Error α : Type} (condition : Bool) (failure : Error)
    (rest : Unit → Except Error α) (value : α) :
    (ensure condition failure >>= rest) = .ok value ↔ condition = true ∧ rest () = .ok value := by
  cases condition with
  | false =>
    constructor
    · intro impossible
      cases impossible
    · rintro ⟨impossible, _⟩
      cases impossible
  | true =>
    change rest () = .ok value ↔ _
    simp

namespace Files

/-- How many files one clip may name. -/
def maxFiles : Nat := 4096

/-- One file a selection names. -/
structure FileRef (Hash : Type) where
  path : String
  size : UInt64
  hash : Hash
deriving DecidableEq

/-- Whether the path is one this machine may create: relative, never climbing,
every part a plain name. -/
def FileRef.isSafe (file : FileRef Hash) : Bool :=
  (file.path.toList.splitOn '/').all (fun part =>
    part != [] && part != ['.'] && part != ['.', '.'] && !part.contains '\x00')

/-- What a selection of files weighs; the sum saturates. -/
def total (files : List (FileRef Hash)) : Nat :=
  files.foldl (fun total file => min (total + file.size.toNat) (2 ^ 64 - 1)) 0

/-- Whether `shorter` is `longer` or a folder `longer` lies in. -/
def clashes (shorter longer : List Char) : Bool :=
  shorter == longer ||
    shorter.isPrefixOf longer && (longer.drop shorter.length).head? == some '/'

/-- Checks the manifest before it drives disk or network work. Adjacent pairs are
`windows(2)`. Strings compare by code points, which orders them as their UTF-8 bytes do. -/
def validate (files : List (FileRef Hash)) : Except Failure Unit := do
  ensure (files.all FileRef.isSafe) .unsafePath
  let paths := (files.map (fun file => file.path.toList)).insertionSort (· ≤ ·)
  ensure ((Adjacent.pairs paths).all (fun pair => !clashes pair.1 pair.2)) .samePath

/-- The bytes of a string. -/
def utf8 (text : String) : Bytes := text.toList.flatMap String.utf8EncodeChar

/-- `Path::join`: an absolute path replaces, any other is appended after one
separator. -/
def join (base : Path) (path : String) : Path :=
  if path.toList.head? == some '/' then utf8 path
  else if base == [] || base.getLast? == some (47 : UInt8) then base ++ utf8 path
  else base ++ (47 : UInt8) :: utf8 path

/-- What a `file:` URI may carry unescaped. -/
def isUnreserved (byte : UInt8) : Bool :=
  let code := byte.toNat
  (48 ≤ code && code ≤ 57) || (65 ≤ code && code ≤ 90) || (97 ≤ code && code ≤ 122) ||
    code == 45 || code == 46 || code == 95 || code == 126 || code == 47

/-- The percent encoding of a path. -/
def escape (path : Path) : Bytes := Percent.encode isUnreserved path

/-- The `text/uri-list` naming paths as they are on this machine. -/
def uriList (paths : List Path) : Bytes :=
  paths.flatMap (fun path => utf8 "file://" ++ escape path ++ [13, 10])

/-- What GNOME's file managers read. Always `copy`. -/
def gnomeCopiedFiles (paths : List Path) : Bytes :=
  utf8 "copy" ++ paths.flatMap (fun path => utf8 "\nfile://" ++ escape path)

/-- The paths as the text of them. -/
def asText (paths : List Path) : Bytes := paths.flatMap (fun path => path ++ [10])

example : uriList [utf8 "/spool/x/a b.txt"] = utf8 "file:///spool/x/a%20b.txt\r\n" := by decide

end Files

end Yank
