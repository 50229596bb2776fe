import Yank.Varint

/-!
# A compact binary format

Numbers are variable-length and everything of unknown length is led by how long it is;
bytes and fields follow raw and in order, an option after a byte that says whether
there is something, a variant after its number. Nothing is aligned, named or closed.

A format is how values are written and read back. Whatever follows a value is given
back by reading it, so formats go together; each format here is put together from
smaller ones, law and all. What a value takes up is bounded the same way.
-/

namespace Postcard

universe u v
variable {Value : Type u} {Other : Type v}

/-- How values of a type are written, and read off the front of some bytes. -/
structure Format (Value : Type u) where
  encode : Value → List UInt8
  decode : List UInt8 → Option (Value × List UInt8)
  reads : ∀ value rest, decode (encode value ++ rest) = some (value, rest)

namespace Format

/-- A value alone is read back with nothing left over. -/
theorem reads_alone (format : Format Value) (value : Value) :
    format.decode (format.encode value) = some (value, []) := by
  have read := format.reads value []
  rwa [List.append_nil] at read

/-- A type that is written as another. -/
def via (format : Format Other) (into : Value → Other) (back : Other → Option Value)
    (returns : ∀ value, back (into value) = some value) : Format Value where
  encode value := format.encode (into value)
  decode bytes := (format.decode bytes).bind
    (fun read => (back read.1).map (fun value => (value, read.2)))
  reads value rest := by simp [format.reads, returns]

/-- Any number. -/
def number : Format Nat where
  encode := Varint.encode
  decode := Varint.decode
  reads := Varint.decode_encode

/-- A number of 64 bits is read back from what it counts to. -/
theorem ofNat_toNat_u64 (value : UInt64) :
    (if value.toNat < 2 ^ 64 then some (UInt64.ofNat value.toNat) else none) = some value := by
  simp [value.toNat_lt]

/-- A number of 64 bits. -/
def u64 : Format UInt64 :=
  number.via UInt64.toNat (fun value => if value < 2 ^ 64 then some (UInt64.ofNat value) else none)
    ofNat_toNat_u64

/-- A number of 32 bits. -/
def u32 : Format UInt32 :=
  number.via UInt32.toNat (fun value => if value < 2 ^ 32 then some (UInt32.ofNat value) else none)
    (fun value => by simp [value.toNat_lt])

/-- One byte that says whether. -/
def bool : Format Bool where
  encode
    | false => [0]
    | true => [1]
  decode
    | 0 :: rest => some (false, rest)
    | 1 :: rest => some (true, rest)
    | _ => none
  reads value rest := by cases value <;> rfl

/-- So many bytes, raw. -/
def raw (count : Nat) : Format { bytes : List UInt8 // bytes.length = count } where
  encode bytes := bytes.val
  decode bytes :=
    if enough : (bytes.take count).length = count then
      some (⟨bytes.take count, enough⟩, bytes.drop count)
    else none
  reads bytes rest := by
    obtain ⟨bytes, rfl⟩ := bytes
    simp

/-- Bytes after how many they are. -/
def bytes : Format (List UInt8) where
  encode bytes := number.encode bytes.length ++ bytes
  decode bytes := (number.decode bytes).bind (fun count =>
    if count.1 ≤ count.2.length then some (count.2.take count.1, count.2.drop count.1) else none)
  reads bytes rest := by
    rw [List.append_assoc, number.reads]
    simp

/-- A string is read back from its bytes. -/
theorem fromUTF8_toByteArray (text : String) :
    String.fromUTF8? ⟨text.toByteArray.data.toList.toArray⟩ = some text := by
  have whole : (⟨text.toByteArray.data.toList.toArray⟩ : ByteArray) = text.toByteArray := by simp
  rw [whole, String.fromUTF8?, dif_pos text.isValidUTF8]
  rfl

/-- A string is its bytes. -/
def text : Format String :=
  bytes.via (fun text => text.toByteArray.data.toList)
    (fun bytes => String.fromUTF8? ⟨bytes.toArray⟩)
    fromUTF8_toByteArray

/-- Something, or nothing. -/
def option (format : Format Value) : Format (Option Value) where
  encode
    | none => [0]
    | some value => 1 :: format.encode value
  decode
    | 0 :: rest => some (none, rest)
    | 1 :: rest => (format.decode rest).map (fun read => (some read.1, read.2))
    | _ => none
  reads value rest := by
    cases value with
    | none => rfl
    | some value => simp [format.reads]

/-- One value after another. -/
def pair (first : Format Value) (second : Format Other) : Format (Value × Other) where
  encode values := first.encode values.1 ++ second.encode values.2
  decode bytes := (first.decode bytes).bind (fun early =>
    (second.decode early.2).map (fun late => ((early.1, late.1), late.2)))
  reads values rest := by
    rw [List.append_assoc, first.reads]
    simp [second.reads]

/-- So many values. -/
def decodeMany (format : Format Value) : Nat → List UInt8 → Option (List Value × List UInt8)
  | 0, bytes => some ([], bytes)
  | count + 1, bytes => (format.decode bytes).bind (fun first =>
      (format.decodeMany count first.2).map (fun others => (first.1 :: others.1, others.2)))

/-- So many values are read back as they were written. -/
theorem decodeMany_encode (format : Format Value) (values : List Value) (rest : List UInt8) :
    format.decodeMany values.length (values.flatMap format.encode ++ rest) =
      some (values, rest) := by
  induction values with
  | nil => rfl
  | cons value values inductionHypothesis =>
    rw [List.length_cons, List.flatMap_cons, List.append_assoc, decodeMany, format.reads]
    simp [inductionHypothesis]

/-- Values after how many they are. -/
def list (format : Format Value) : Format (List Value) where
  encode values := number.encode values.length ++ values.flatMap format.encode
  decode bytes := (number.decode bytes).bind (fun count => format.decodeMany count.1 count.2)
  reads values rest := by
    rw [List.append_assoc, number.reads]
    exact format.decodeMany_encode values rest

/-- One of two variants, after its number. -/
def choice (first : Format Value) (second : Format Other) : Format (Value ⊕ Other) where
  encode
    | .inl value => number.encode 0 ++ first.encode value
    | .inr value => number.encode 1 ++ second.encode value
  decode bytes := (number.decode bytes).bind (fun variant =>
    if variant.1 = 0 then (first.decode variant.2).map (fun read => (.inl read.1, read.2))
    else if variant.1 = 1 then (second.decode variant.2).map (fun read => (.inr read.1, read.2))
    else none)
  reads value rest := by
    cases value with
    | inl value => simp [number.reads, first.reads]
    | inr value => simp [number.reads, second.reads]

/-- What a format reads, made into something else. -/
def read (format : Format Other) (make : Other → Value) (bytes : List UInt8) :
    Option (Value × List UInt8) :=
  (format.decode bytes).map (fun read => (make read.1, read.2))

/-- A part is read back into what is made of it. -/
@[simp] theorem read_encode (format : Format Other) (make : Other → Value) (value : Other)
    (rest : List UInt8) :
    format.read make (format.encode value ++ rest) = some (make value, rest) := by
  rw [read, format.reads]
  rfl

/-- Any number of variants, each after its number. -/
def variants (variant : Value → Nat) (fields : Value → List UInt8)
    (read : Nat → List UInt8 → Option (Value × List UInt8))
    (returns : ∀ value rest, read (variant value) (fields value ++ rest) = some (value, rest)) :
    Format Value where
  encode value := number.encode (variant value) ++ fields value
  decode bytes := (number.decode bytes).bind (fun led => read led.1 led.2)
  reads value rest := by
    rw [List.append_assoc, number.reads]
    exact returns value rest

/-- Nothing at all. -/
def unit : Format Unit where
  encode _ := []
  decode bytes := some ((), bytes)
  reads _ _ := rfl

/-! What values take up. -/

/-- Seven bits a byte. -/
theorem number_length (groups value : Nat) (bounded : value < 128 ^ (groups + 1)) :
    (number.encode value).length ≤ groups + 1 :=
  Varint.encode_length groups value bounded

/-- What goes by another format is written in it. -/
@[simp] theorem via_encode (format : Format Other) (into : Value → Other)
    (back : Other → Option Value) (returns : ∀ value, back (into value) = some value)
    (value : Value) : (format.via into back returns).encode value = format.encode (into value) := rfl

/-- A long number takes ten bytes at most. -/
theorem u64_length (value : UInt64) : (u64.encode value).length ≤ 10 :=
  number_length 9 value.toNat (lt_of_lt_of_le value.toNat_lt (by decide))

/-- A shorter one takes five. -/
theorem u32_length (value : UInt32) : (u32.encode value).length ≤ 5 :=
  number_length 4 value.toNat (lt_of_lt_of_le value.toNat_lt (by decide))

/-- A flag takes one byte. -/
@[simp] theorem bool_length (value : Bool) : (bool.encode value).length = 1 := by
  cases value <;> rfl

/-- So many bytes take so many. -/
@[simp] theorem raw_length (count : Nat) (value : { bytes : List UInt8 // bytes.length = count }) :
    ((raw count).encode value).length = count := value.property

/-- Bytes are led by their number, a few bytes at most. -/
theorem bytes_length (groups : Nat) (value : List UInt8)
    (bounded : value.length < 128 ^ (groups + 1)) :
    (bytes.encode value).length ≤ groups + 1 + value.length := by
  have led := number_length groups value.length bounded
  change (number.encode value.length ++ value).length ≤ _
  rw [List.length_append]
  omega

/-- So is a text. -/
theorem text_length (groups : Nat) (value : String)
    (bounded : value.utf8ByteSize < 128 ^ (groups + 1)) :
    (text.encode value).length ≤ groups + 1 + value.utf8ByteSize := by
  have same : value.toByteArray.data.toList.length = value.utf8ByteSize := by
    rw [Array.length_toList]
    rfl
  have led := bytes_length groups value.toByteArray.data.toList (by rwa [same])
  rwa [same] at led

/-- What may be missing takes one byte more than it does. -/
theorem option_length (format : Format Value) (bound : Nat) (value : Option Value)
    (bounded : ∀ inner, value = some inner → (format.encode inner).length ≤ bound) :
    (format.option.encode value).length ≤ 1 + bound := by
  cases value with
  | none =>
    change 1 ≤ 1 + bound
    omega
  | some inner =>
    have inside := bounded inner rfl
    change (format.encode inner).length + 1 ≤ 1 + bound
    omega

/-- Two values take what both take. -/
@[simp] theorem pair_length (first : Format Value) (second : Format Other) (values : Value × Other) :
    ((first.pair second).encode values).length =
      (first.encode values.1).length + (second.encode values.2).length :=
  List.length_append

/-- Values take up what each of them does, after how many they are. -/
theorem list_length (groups : Nat) (format : Format Value) (weight : Value → Nat)
    (values : List Value) (few : values.length < 128 ^ (groups + 1))
    (bounded : ∀ value ∈ values, (format.encode value).length ≤ weight value) :
    (format.list.encode values).length ≤ groups + 1 + (values.map weight).sum := by
  have led := number_length groups values.length few
  have inside : (values.flatMap format.encode).length ≤ (values.map weight).sum := by
    rw [List.length_flatMap]
    exact List.sum_le_sum bounded
  change (number.encode values.length ++ values.flatMap format.encode).length ≤ _
  rw [List.length_append]
  omega

/-- One of two kinds takes one byte more than it does. -/
theorem choice_length (first : Format Value) (second : Format Other) (bound : Nat)
    (value : Value ⊕ Other)
    (left : ∀ inner, value = .inl inner → (first.encode inner).length ≤ bound)
    (right : ∀ inner, value = .inr inner → (second.encode inner).length ≤ bound) :
    ((first.choice second).encode value).length ≤ 1 + bound := by
  have led (variant : Nat) (few : variant < 128) := number_length 0 variant (by simpa using few)
  cases value with
  | inl inner =>
    have inside := left inner rfl
    have variant := led 0 (by decide)
    change (number.encode 0 ++ first.encode inner).length ≤ _
    rw [List.length_append]
    omega
  | inr inner =>
    have inside := right inner rfl
    have variant := led 1 (by decide)
    change (number.encode 1 ++ second.encode inner).length ≤ _
    rw [List.length_append]
    omega

/-- Where there are few variants, their numbers take up one byte. -/
theorem variants_length (variant : Value → Nat) (fields : Value → List UInt8)
    (read : Nat → List UInt8 → Option (Value × List UInt8))
    (returns : ∀ value rest, read (variant value) (fields value ++ rest) = some (value, rest))
    (value : Value) (few : variant value < 128) :
    ((variants variant fields read returns).encode value).length ≤ 1 + (fields value).length := by
  have led := number_length 0 (variant value) (by simpa using few)
  change (number.encode (variant value) ++ fields value).length ≤ _
  rw [List.length_append]
  omega

/-- What is read does not depend on what follows it. -/
def Continues (format : Format Value) : Prop :=
  ∀ bytes value rest more, format.decode bytes = some (value, rest) →
    format.decode (bytes ++ more) = some (value, rest ++ more)

/-- So many bytes are read whatever follows. -/
theorem raw_continues (count : Nat) : (raw count).Continues := by
  intro bytes value rest more read
  simp only [raw, Option.dite_none_right_eq_some, Option.some.injEq, Prod.mk.injEq] at read
  obtain ⟨enough, rfl, rfl⟩ := read
  have long : count ≤ bytes.length := by
    rw [List.length_take] at enough
    omega
  have longer : count ≤ bytes.length + more.length := by omega
  simp [raw, List.take_append_of_le_length long, List.drop_append_of_le_length long, longer]

/-- So are two values. -/
theorem pair_continues (first : Format Value) (second : Format Other) (early : first.Continues)
    (late : second.Continues) : (first.pair second).Continues := by
  intro bytes values rest more read
  simp only [pair, Option.bind_eq_some_iff, Option.map_eq_some_iff] at read ⊢
  obtain ⟨front, begun, back, ended, same⟩ := read
  cases same
  exact ⟨_, early bytes front.1 front.2 more begun, _, late front.2 back.1 back.2 more ended, rfl⟩

/-- And so is what goes by another format. -/
theorem via_continues (format : Format Other) (into : Value → Other) (back : Other → Option Value)
    (returns : ∀ value, back (into value) = some value) (continues : format.Continues) :
    (format.via into back returns).Continues := by
  intro bytes value rest more read
  simp only [via, Option.bind_eq_some_iff, Option.map_eq_some_iff] at read ⊢
  obtain ⟨other, begun, value, isValue, same⟩ := read
  cases same
  exact ⟨_, continues bytes other.1 other.2 more begun, value, isValue, rfl⟩

end Format

end Postcard
