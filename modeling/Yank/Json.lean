import Yank.Postcard

/-!
# Text as a file of settings has it

Objects with their members on lines of their own, strings in quotes with the characters
escaped that have to be, numbers in decimal. What is written is read back; what
somebody else wrote need not be.
-/

namespace Json

open Postcard

/-- The bytes of a text. -/
def ascii (text : String) : List UInt8 := text.toList.flatMap String.utf8EncodeChar

/-- A text that is always there. -/
def literal (text : List UInt8) : Format Unit where
  encode _ := text
  decode bytes := if text.isPrefixOf bytes then some ((), bytes.drop text.length) else none
  reads _ rest := by simp

/-- A value between two texts. -/
def between {Value : Type} (before : List UInt8) (format : Format Value) (after : List UInt8) :
    Format Value :=
  ((literal before).pair (format.pair (literal after))).via (fun value => ((), value, ()))
    (fun read => some read.2.1) (fun _ => rfl)

/-- One kind of value or another, told apart by trying the first. -/
def either {Value Other : Type} (first : Format Value) (second : Format Other)
    (apart : ∀ value rest, first.decode (second.encode value ++ rest) = none) :
    Format (Value ⊕ Other) where
  encode value := match value with
    | .inl value => first.encode value
    | .inr value => second.encode value
  decode bytes := match first.decode bytes with
    | some (value, rest) => some (.inl value, rest)
    | none => (second.decode bytes).map (fun read => (.inr read.1, read.2))
  reads value rest := by
    cases value with
    | inl value =>
      dsimp only
      rw [first.reads]
    | inr value =>
      dsimp only
      rw [apart, second.reads, Option.map_some]

/-! Numbers. -/

/-- The last digit last; `fuel` is more than the value. -/
def decimalFrom : Nat → Nat → List UInt8
  | 0, _ => []
  | fuel + 1, value =>
      if value < 10 then [UInt8.ofNat (48 + value)]
      else decimalFrom fuel (value / 10) ++ [UInt8.ofNat (48 + value % 10)]

/-- A number in decimal. -/
def decimal (value : Nat) : List UInt8 := decimalFrom (value + 1) value

def isDigit (byte : UInt8) : Bool := 48 ≤ byte && byte ≤ 57

/-- The number some digits are. -/
def fromDecimal (digits : List UInt8) : Nat :=
  digits.foldl (fun value digit => 10 * value + (digit.toNat - 48)) 0

/-- The digit of a value is one, and has it. -/
theorem digit_spec (value : Nat) (small : value < 10) :
    isDigit (UInt8.ofNat (48 + value)) = true ∧ (UInt8.ofNat (48 + value)).toNat - 48 = value := by
  have each : ∀ value < 10, isDigit (UInt8.ofNat (48 + value)) = true ∧
      (UInt8.ofNat (48 + value)).toNat - 48 = value := by
    decide
  exact each value small

/-- A number is written with digits. -/
theorem decimalFrom_digits (fuel value : Nat) : ∀ digit ∈ decimalFrom fuel value, isDigit digit = true := by
  induction fuel generalizing value with
  | zero => simp [decimalFrom]
  | succ fuel inductionHypothesis =>
    intro digit member
    rw [decimalFrom] at member
    split at member
    · rename_i small
      rw [List.mem_singleton.mp member]
      exact (digit_spec value small).1
    · obtain early | last := List.mem_append.mp member
      · exact inductionHypothesis _ digit early
      · rw [List.mem_singleton.mp last]
        exact (digit_spec _ (Nat.mod_lt _ (by decide))).1

/-- A number is read back from its digits. -/
theorem fromDecimal_decimalFrom (fuel value : Nat) (enough : value < fuel) :
    fromDecimal (decimalFrom fuel value) = value := by
  induction fuel generalizing value with
  | zero => omega
  | succ fuel inductionHypothesis =>
    rw [decimalFrom]
    split
    · rename_i small
      simpa [fromDecimal] using (digit_spec value small).2
    · have early := inductionHypothesis (value / 10) (by omega)
      have last := (digit_spec (value % 10) (Nat.mod_lt _ (by decide))).2
      rw [fromDecimal] at early ⊢
      rw [List.foldl_append, early, List.foldl_cons, List.foldl_nil, last]
      omega

/-- A number and the text that ends it. -/
def number (after : List UInt8) (ends : ∀ rest, (after ++ rest).takeWhile isDigit = []) :
    Format Nat where
  encode value := decimal value ++ after
  decode bytes :=
    let digits := bytes.takeWhile isDigit
    ((literal after).decode (bytes.drop digits.length)).map (fun read => (fromDecimal digits, read.2))
  reads value rest := by
    have each : ∀ digit ∈ decimal value, isDigit digit = true := decimalFrom_digits _ value
    have digits : (decimal value ++ (after ++ rest)).takeWhile isDigit = decimal value := by
      rw [List.takeWhile_append_of_pos each, ends, List.append_nil]
    have closes : (literal after).decode (after ++ rest) = some ((), rest) :=
      (literal after).reads () rest
    have back : fromDecimal (decimal value) = value :=
      fromDecimal_decimalFrom (value + 1) value (Nat.lt_succ_self value)
    rw [List.append_assoc]
    dsimp only
    rw [digits, List.drop_left, closes, Option.map_some, back]

/-! Strings. -/

/-- The characters that have a letter of their own, and the letters. -/
def letters : List (UInt8 × UInt8) :=
  [(34, 34), (92, 92), (8, 98), (9, 116), (10, 110), (12, 102), (13, 114)]

/-- One of sixteen digits. -/
def hexDigit (value : UInt8) : UInt8 := if value < 10 then 48 + value else 87 + value

def fromHex (digit : UInt8) : UInt8 := if digit < 58 then digit - 48 else digit - 87

/-- A byte inside quotes. -/
def escape (byte : UInt8) : List UInt8 :=
  match letters.lookup byte with
  | some letter => [92, letter]
  | none =>
      if byte < 32 then [92, 117, 48, 48, hexDigit (byte / 16), hexDigit (byte % 16)] else [byte]

/-- What stands before the closing quote, and what after it. -/
def unescape : List UInt8 → Option (List UInt8 × List UInt8)
  | [] => none
  | 34 :: rest => some ([], rest)
  | 92 :: 117 :: _ :: _ :: high :: low :: rest =>
      (unescape rest).map (fun read => ((16 * fromHex high + fromHex low) :: read.1, read.2))
  | 92 :: letter :: rest =>
      (letters.find? (fun known => known.2 == letter)).bind
        (fun known => (unescape rest).map (fun read => (known.1 :: read.1, read.2)))
  | byte :: rest => (unescape rest).map (fun read => (byte :: read.1, read.2))

/-- A byte is read back from its two hexadecimal digits. -/
theorem fromHex_hexDigit (byte : UInt8) :
    16 * fromHex (hexDigit (byte / 16)) + fromHex (hexDigit (byte % 16)) = byte := by
  have each : ∀ value < 256,
      16 * fromHex (hexDigit (UInt8.ofNat value / 16)) + fromHex (hexDigit (UInt8.ofNat value % 16)) =
        UInt8.ofNat value := by
    decide +kernel
  have here := each byte.toNat byte.toNat_lt
  rwa [UInt8.ofNat_toNat] at here

/-- An escaped byte is read back as the byte. A byte with a letter of its own is read back by the
letter, a control byte by its two digits, and any other is itself. -/
theorem unescape_escape (byte : UInt8) (rest : List UInt8) :
    unescape (escape byte ++ rest) =
      (unescape rest).map (fun read => (byte :: read.1, read.2)) := by
  unfold escape
  cases known : letters.lookup byte with
  | some letter =>
    have among : (byte, letter) ∈ letters := by
      obtain ⟨early, late, split, _⟩ := List.lookup_eq_some_iff.mp known
      rw [split]
      exact List.mem_append_right early List.mem_cons_self
    simp only [letters, List.mem_cons, Prod.mk.injEq, List.not_mem_nil, or_false] at among
    rcases among with ⟨rfl, rfl⟩ | ⟨rfl, rfl⟩ | ⟨rfl, rfl⟩ | ⟨rfl, rfl⟩ | ⟨rfl, rfl⟩ | ⟨rfl, rfl⟩ |
      ⟨rfl, rfl⟩ <;> simp [unescape, letters]
  | none =>
    have plain := List.lookup_eq_none_iff.mp known
    have quote : byte ≠ 34 := by simpa using plain (34, 34) (by decide)
    have slash : byte ≠ 92 := by simpa using plain (92, 92) (by decide)
    dsimp only
    split
    · simp [unescape, fromHex_hexDigit]
    · simp [unescape, slash]

/-- A text is read back up to the quote that ends it. -/
theorem unescape_escaped (bytes rest : List UInt8) :
    unescape (bytes.flatMap escape ++ 34 :: rest) = some (bytes, rest) := by
  induction bytes with
  | nil => simp [unescape]
  | cons byte bytes inductionHypothesis =>
    rw [List.flatMap_cons, List.append_assoc, unescape_escape, inductionHypothesis]
    rfl

/-- Bytes in quotes. -/
def quotedBytes : Format (List UInt8) where
  encode bytes := 34 :: (bytes.flatMap escape ++ [34])
  decode bytes := match bytes with
    | 34 :: rest => unescape rest
    | _ => none
  reads bytes rest := by
    rw [List.cons_append, List.append_assoc]
    exact unescape_escaped bytes rest

/-- A string in quotes. -/
def quoted : Format String :=
  quotedBytes.via (fun text => text.toByteArray.data.toList)
    (fun bytes => String.fromUTF8? ⟨bytes.toArray⟩)
    Format.fromUTF8_toByteArray

/-! Objects. -/

/-- The texts around the members of an object, told apart by how they begin. -/
structure Layout where
  before : List UInt8
  separator : List UInt8
  after : List UInt8
  /-- An object without members. -/
  hollow : List UInt8
  separates : separator ≠ []
  goesOn : ∀ rest, (literal after).decode (separator ++ rest) = none
  begins : ∀ rest, (literal hollow).decode (before ++ rest) = none

variable {Value : Type} (layout : Layout) (member : Format Value)

/-- The members of an object after the first. -/
def tail : List Value → List UInt8
  | [] => layout.after
  | value :: values => layout.separator ++ (member.encode value ++ tail values)

/-- Reads the members of an object after the first, at most `fuel` of them. -/
def readTail : Nat → List UInt8 → Option (List Value × List UInt8)
  | 0, bytes => ((literal layout.after).decode bytes).map (fun read => ([], read.2))
  | fuel + 1, bytes =>
      match (literal layout.after).decode bytes with
      | some (_, rest) => some ([], rest)
      | none =>
          ((literal layout.separator).decode bytes).bind (fun separated =>
            (member.decode separated.2).bind (fun read =>
              (readTail fuel read.2).map (fun more => (read.1 :: more.1, more.2))))

/-- The rest of a list takes a byte for each member at least. -/
theorem tail_length (values : List Value) : values.length ≤ (tail layout member values).length := by
  induction values with
  | nil => exact Nat.zero_le _
  | cons value values inductionHypothesis =>
    have one : 0 < layout.separator.length := List.length_pos_of_ne_nil layout.separates
    rw [tail, List.length_append, List.length_append, List.length_cons]
    omega

/-- The rest of a list is read back. The induction is on the values, each of which stands between
a separator and the rest. -/
theorem readTail_tail (fuel : Nat) (values : List Value) (rest : List UInt8)
    (enough : values.length ≤ fuel) :
    readTail layout member fuel (tail layout member values ++ rest) = some (values, rest) := by
  have closes (bytes : List UInt8) :
      (literal layout.after).decode (layout.after ++ bytes) = some ((), bytes) :=
    (literal layout.after).reads () bytes
  have separated (bytes : List UInt8) :
      (literal layout.separator).decode (layout.separator ++ bytes) = some ((), bytes) :=
    (literal layout.separator).reads () bytes
  induction values generalizing fuel with
  | nil =>
    cases fuel with
    | zero => rw [tail, readTail, closes, Option.map_some]
    | succ fuel => rw [tail, readTail, closes]
  | cons value values inductionHypothesis =>
    cases fuel with
    | zero => simp at enough
    | succ fuel =>
      have later := inductionHypothesis fuel (Nat.le_of_succ_le_succ enough)
      rw [tail, List.append_assoc, List.append_assoc, readTail, layout.goesOn, separated]
      simp [member.reads, later]

/-- An object of any number of members. -/
def object : Format (List Value) where
  encode values := match values with
    | [] => layout.hollow
    | value :: values => layout.before ++ (member.encode value ++ tail layout member values)
  decode bytes := match (literal layout.hollow).decode bytes with
    | some (_, rest) => some ([], rest)
    | none =>
        ((literal layout.before).decode bytes).bind (fun opened =>
          (member.decode opened.2).bind (fun read =>
            (readTail layout member read.2.length read.2).map (fun more =>
              (read.1 :: more.1, more.2))))
  reads values rest := by
    cases values with
    | nil =>
      have closed : (literal layout.hollow).decode (layout.hollow ++ rest) = some ((), rest) :=
        (literal layout.hollow).reads () rest
      dsimp only
      rw [closed]
    | cons value values =>
      have opened (bytes : List UInt8) :
          (literal layout.before).decode (layout.before ++ bytes) = some ((), bytes) :=
        (literal layout.before).reads () bytes
      have enough : values.length ≤ (tail layout member values ++ rest).length := by
        have most := tail_length layout member values
        rw [List.length_append]
        omega
      have later := readTail_tail layout member _ values rest enough
      dsimp only
      rw [List.append_assoc, List.append_assoc, layout.begins, opened, Option.bind_some,
        member.reads, Option.bind_some, later, Option.map_some]

end Json
