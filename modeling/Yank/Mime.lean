import Mathlib

/-!
# Mime selection policy

A selection is offered under several types at once. Which of them are carried,
and which are announced when the selection is offered again, is decided here, so
that capturing and re-offering agree.

Types are compared byte by byte ignoring ASCII case where the source says so, and
exactly where it does not: the bookkeeping types, the ignore list and the
`text/` prefix are exact comparisons.
-/

namespace Yank.Mime

/-- `str::eq_ignore_ascii_case`. -/
def eqIgnoreAsciiCase (left right : String) : Bool :=
  left.toList.map Char.toLower == right.toList.map Char.toLower

/-- The type yank adds to every selection it owns. -/
def marker : String := "application/x-yank"

/-- What password managers offer alongside a password. -/
def secretHint : String := "x-kde-passwordManagerHint"

/-- The type text is best carried as. -/
def plainText : String := "text/plain;charset=utf-8"

/-- How many representations of one selection to carry. -/
def maxReps : Nat := 8

/-- The type a file reference is carried as. -/
def uriList : String := "text/uri-list"

/-- What GNOME's file managers paste from. -/
def gnomeCopiedFiles : String := "x-special/gnome-copied-files"

/-- Text types, best first. -/
def text : List String := [plainText, "text/plain", "UTF8_STRING", "STRING", "TEXT"]

/-- Types whose contents name something on the machine that copied it. -/
def localTypes : List String :=
  [uriList, gnomeCopiedFiles, "x-special/nautilus-clipboard", "application/x-kde-cutselection"]

/-- Selection targets that are protocol chatter rather than content. -/
def chatter : List String :=
  ["TARGETS", "TIMESTAMP", "MULTIPLE", "SAVE_TARGETS", "DELETE", "INSERT_SELECTION",
    "INSERT_PROPERTY", marker, secretHint]

/-- Whether a type names a file rather than carrying one. -/
def isLocal (mime : String) : Bool := localTypes.any (fun known => eqIgnoreAsciiCase known mime)

/-- Whether a type is one of the interchangeable names for plain text. -/
def isTextAlias (mime : String) : Bool := text.any (fun known => eqIgnoreAsciiCase known mime)

/-- Whether a payload in this type is text. -/
def isText (mime : String) : Bool :=
  isTextAlias mime || "text/".toList.isPrefixOf mime.toList ||
    mime == "application/json" || mime == "application/xml"

/-- Whether a type carries content at all. -/
def isContent (mime : String) : Bool := !chatter.contains mime && mime.toList.contains '/'

/-- The best of the text types a selection offers. -/
def bestText (offered : List String) : Option String :=
  text.findSome? (fun wanted => offered.find? (fun mime => eqIgnoreAsciiCase mime wanted))

/-- The type that describes a selection. -/
def choose (offered : List String) : Option String :=
  (bestText offered).or (offered.find? isContent)

/-- The loop of `select`: the rest of what is offered, after the types already
chosen. -/
def selectRest (ignore : List String) : List String → List String → List String
  | [], chosen => chosen
  | mime :: offered, chosen =>
      if maxReps ≤ chosen.length then chosen
      else if !isContent mime || isTextAlias mime || ignore.contains mime then
        selectRest ignore offered chosen
      else if chosen.any (fun taken => eqIgnoreAsciiCase taken mime) then
        selectRest ignore offered chosen
      else selectRest ignore offered (chosen ++ [mime])

/-- Picks the types to capture out of what a selection offers, best first. -/
def select (offered ignore : List String) : List String :=
  match choose offered with
  | none => []
  | some primary => if ignore.contains primary then [] else selectRest ignore offered [primary]

/-- The types to announce for a payload captured as `mime`. -/
def aliases (mime : String) : List String :=
  if isLocal mime || !isText mime then [mime]
  else mime :: text.filter (fun known => !eqIgnoreAsciiCase known mime)

/-- A payload is announced under its own type first. -/
theorem aliases_head (mime : String) : (aliases mime).head? = some mime := by
  unfold aliases
  split <;> rfl

example : select ["text/html", "TARGETS", "UTF8_STRING", "image/png"] ["image/png"] =
    ["UTF8_STRING", "text/html"] := by decide

end Yank.Mime
