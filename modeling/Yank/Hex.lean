import Mathlib

/-!
# Lower-case hexadecimal

Bytes are written as two digits each, the higher half first, and only lower-case digits are
read back. So a text that can be read is what its bytes are written as, and there is no other
spelling of them.

This is standard base 16 with the digits `0` to `9` and `a` to `f`, as the `data-encoding` crate
documents its `HEXLOWER`: either case is not accepted, nor is an odd number of digits.
-/

namespace Hex

/-- The digit of a value below sixteen. -/
def digit (value : Nat) : Char := Char.ofNat (if value < 10 then 48 + value else 87 + value)

/-- The value of a digit. -/
def value (digit : Char) : Option Nat :=
  let code := digit.toNat
  if 48 ≤ code ∧ code ≤ 57 then some (code - 48)
  else if 97 ≤ code ∧ code ≤ 102 then some (code - 87)
  else none

def encode (bytes : List UInt8) : List Char :=
  bytes.flatMap (fun byte => [digit (byte.toNat / 16), digit (byte.toNat % 16)])

def decode : List Char → Option (List UInt8)
  | [] => some []
  | [_] => none
  | high :: low :: rest => do
      let high ← value high
      let low ← value low
      let rest ← decode rest
      return UInt8.ofNat (16 * high + low) :: rest

/-- The digit of a value has it. -/
theorem value_digit (number : Nat) (small : number < 16) : value (digit number) = some number := by
  interval_cases number <;> decide

/-- Only the digit of a value has it. -/
theorem digit_of_value (char : Char) (number : Nat) (has : value char = some number) :
    number < 16 ∧ digit number = char := by
  have back := Char.ofNat_toNat char
  unfold value at has
  dsimp only at has
  split at has
  · obtain rfl := Option.some.inj has
    refine ⟨by omega, ?_⟩
    rw [digit, if_pos (by omega), Nat.add_sub_cancel' (by omega)]
    exact back
  · rw [Option.ite_none_right_eq_some, Option.some.injEq] at has
    obtain ⟨bounds, rfl⟩ := has
    refine ⟨by omega, ?_⟩
    rw [digit, if_neg (by omega), Nat.add_sub_cancel' (by omega)]
    exact back

/-- What was written is read back. -/
theorem decode_encode (bytes : List UInt8) : decode (encode bytes) = some bytes := by
  induction bytes with
  | nil => rfl
  | cons byte bytes inductionHypothesis =>
    have bound := byte.toNat_lt
    have whole : 16 * (byte.toNat / 16) + byte.toNat % 16 = byte.toNat := Nat.div_add_mod ..
    change decode (digit (byte.toNat / 16) :: digit (byte.toNat % 16) :: encode bytes) = _
    rw [decode, value_digit _ (by omega), value_digit _ (by omega), inductionHypothesis]
    simp only [Option.bind_eq_bind, Option.bind_some, Option.pure_def, whole, UInt8.ofNat_toNat]

/-- What can be read is what was written. The induction follows the decoder, which takes two
digits at a time. -/
theorem encode_of_decode (text : List Char) (bytes : List UInt8)
    (read : decode text = some bytes) : text = encode bytes := by
  induction text using decode.induct generalizing bytes with
  | case1 =>
    cases read
    rfl
  | case2 => cases read
  | case3 first second rest inductionHypothesis =>
    simp only [decode, Option.bind_eq_bind, Option.bind_eq_some_iff, Option.pure_def,
      Option.some.injEq] at read
    obtain ⟨high, isHigh, low, isLow, others, readRest, rfl⟩ := read
    obtain ⟨highSmall, rfl⟩ := digit_of_value first high isHigh
    obtain ⟨lowSmall, rfl⟩ := digit_of_value second low isLow
    have whole : (UInt8.ofNat (16 * high + low)).toNat = 16 * high + low := by
      rw [UInt8.toNat_ofNat']
      omega
    have highPart : (16 * high + low) / 16 = high := by omega
    have lowPart : (16 * high + low) % 16 = low := by omega
    rw [inductionHypothesis others readRest]
    change _ = digit _ :: digit _ :: encode others
    rw [whole, highPart, lowPart]

/-- Every byte takes two digits. -/
theorem encode_length (bytes : List UInt8) : (encode bytes).length = 2 * bytes.length := by
  simp [encode, List.length_flatMap, Nat.mul_comm]

/-- Every character written is a digit. -/
theorem value_of_mem (bytes : List UInt8) (char : Char) (member : char ∈ encode bytes) :
    (value char).isSome = true := by
  obtain ⟨byte, _, written⟩ := List.mem_flatMap.mp member
  have bound := byte.toNat_lt
  simp only [List.mem_cons, List.not_mem_nil, or_false] at written
  obtain rfl | rfl := written
  · rw [value_digit _ (by omega)]
    rfl
  · rw [value_digit _ (by omega)]
    rfl

end Hex
