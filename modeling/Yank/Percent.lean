import Mathlib

/-!
# Percent encoding

Bytes that may stand for themselves do; any other is a percent sign and the two
hexadecimal digits of it, written in upper case. Digits are read in either case, and a
percent sign without two of them stands for itself.

What was encoded is read back, whatever may stand for itself, as long as the percent sign
may not.

This is the percent-encoding of RFC 3986 as the `percent-encoding` crate documents it: which
bytes are encoded is the caller's choice, and reading never fails, so that a percent sign that
starts no escape is kept.
-/

namespace Percent

/-- An uppercase hexadecimal digit. -/
def hexDigit (value : Nat) : UInt8 :=
  if value < 10 then UInt8.ofNat (48 + value) else UInt8.ofNat (55 + value)

/-- What a hexadecimal digit is worth. -/
def hexValue (digit : UInt8) : Option Nat :=
  let code := digit.toNat
  if 48 ≤ code ∧ code ≤ 57 then some (code - 48)
  else if 65 ≤ code ∧ code ≤ 70 then some (code - 55)
  else if 97 ≤ code ∧ code ≤ 102 then some (code - 87)
  else none

/-- One byte, encoded unless it is plain. -/
def encodeByte (plain : UInt8 → Bool) (byte : UInt8) : List UInt8 :=
  if plain byte then [byte] else [37, hexDigit (byte.toNat / 16), hexDigit (byte.toNat % 16)]

def encode (plain : UInt8 → Bool) (bytes : List UInt8) : List UInt8 :=
  bytes.flatMap (encodeByte plain)

/-- The byte two digits stand for, read after a percent sign. -/
def afterPercentSign : List UInt8 → Option UInt8
  | high :: low :: _ => do
      let upper ← hexValue high
      let lower ← hexValue low
      pure (UInt8.ofNat (16 * upper + lower))
  | _ => none

/-- The decoding of what follows the bytes to skip: digits already read. -/
def decodeFrom : Nat → List UInt8 → List UInt8
  | _, [] => []
  | skip + 1, _ :: rest => decodeFrom skip rest
  | 0, byte :: rest =>
      match if byte = 37 then afterPercentSign rest else none with
      | some decoded => decoded :: decodeFrom 2 rest
      | none => byte :: decodeFrom 0 rest

def decode (bytes : List UInt8) : List UInt8 := decodeFrom 0 bytes

/-- The digit of a value has it. -/
theorem hexValue_hexDigit (value : Nat) (small : value < 16) :
    hexValue (hexDigit value) = some value := by
  have all : ∀ value : Fin 16, hexValue (hexDigit value.val) = some value.val := by decide
  exact all ⟨value, small⟩

/-- A byte other than the percent sign stands for itself. -/
theorem decode_cons (byte : UInt8) (rest : List UInt8) (other : byte ≠ 37) :
    decode (byte :: rest) = byte :: decode rest := by
  simp only [decode, decodeFrom, if_neg other]

/-- A percent sign and two digits stand for one byte. -/
theorem decode_escape (high low decoded : UInt8) (rest : List UInt8)
    (digits : afterPercentSign (high :: low :: rest) = some decoded) :
    decode (37 :: high :: low :: rest) = decoded :: decode rest := by
  simp only [decode, decodeFrom, if_true, digits]

/-- A byte that was encoded is read back, whatever follows it. A byte that stands for itself is no
percent sign, and one that is escaped is written as the sign and two digits. -/
theorem decode_encodeByte (plain : UInt8 → Bool) (escapes : plain 37 = false) (byte : UInt8)
    (rest : List UInt8) : decode (encodeByte plain byte ++ rest) = byte :: decode rest := by
  unfold encodeByte
  cases stands : plain byte with
  | true =>
    have other : byte ≠ 37 := by
      rintro rfl
      rw [escapes] at stands
      cases stands
    exact decode_cons byte rest other
  | false =>
    have size := byte.toNat_lt
    have high : byte.toNat / 16 < 16 := by omega
    have low : byte.toNat % 16 < 16 := by omega
    have whole : UInt8.ofNat (16 * (byte.toNat / 16) + byte.toNat % 16) = byte := by
      rw [Nat.div_add_mod, UInt8.ofNat_toNat]
    refine decode_escape _ _ byte rest ?_
    simp only [afterPercentSign, hexValue_hexDigit _ high, hexValue_hexDigit _ low,
      Option.bind_eq_bind, Option.bind_some, whole]
    rfl

/-- What was encoded is read back. -/
theorem decode_encode (plain : UInt8 → Bool) (escapes : plain 37 = false) (bytes : List UInt8) :
    decode (encode plain bytes) = bytes := by
  induction bytes with
  | nil => rfl
  | cons byte bytes inductionHypothesis =>
    rw [encode, List.flatMap_cons, decode_encodeByte plain escapes]
    exact congrArg (byte :: ·) inductionHypothesis

/-- An encoding has plain bytes, percent signs and digits only. A byte stands for itself or is
written as a sign and two digits. -/
theorem mem_encode (plain : UInt8 → Bool) (bytes : List UInt8) (byte : UInt8)
    (member : byte ∈ encode plain bytes) :
    plain byte = true ∨ byte = 37 ∨ (hexValue byte).isSome = true := by
  obtain ⟨source, _, among⟩ := List.mem_flatMap.mp member
  unfold encodeByte at among
  cases stands : plain source with
  | true =>
    rw [stands, if_pos rfl, List.mem_singleton] at among
    exact Or.inl (among ▸ stands)
  | false =>
    have size := source.toNat_lt
    have high := hexValue_hexDigit (source.toNat / 16) (by omega)
    have low := hexValue_hexDigit (source.toNat % 16) (by omega)
    simp only [stands, Bool.false_eq_true, if_false, List.mem_cons, List.not_mem_nil, or_false]
      at among
    obtain rfl | rfl | rfl := among
    · exact Or.inr (Or.inl rfl)
    · exact Or.inr (Or.inr (by rw [high]; rfl))
    · exact Or.inr (Or.inr (by rw [low]; rfl))

/-- A plain byte in front stays there. -/
theorem encode_cons (plain : UInt8 → Bool) (byte : UInt8) (bytes : List UInt8)
    (stands : plain byte = true) : encode plain (byte :: bytes) = byte :: encode plain bytes := by
  rw [encode, List.flatMap_cons, encodeByte, if_pos stands]
  rfl

end Percent
