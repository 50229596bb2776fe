import Mathlib

/-!
# Variable-length numbers

A number in groups of seven bits, the lowest group first; every byte but the
last has its high bit set. Reading stops at the first byte without it and gives
back what follows.
-/

namespace Varint

/-- The bytes of a number. -/
def encode (value : Nat) : List UInt8 :=
  if value < 128 then [UInt8.ofNat value]
  else UInt8.ofNat (128 + value % 128) :: encode (value / 128)
termination_by value
decreasing_by omega

/-- The number at the head of some bytes, and what follows it. -/
def decode : List UInt8 → Option (Nat × List UInt8)
  | [] => none
  | byte :: bytes =>
      if byte.toNat < 128 then some (byte.toNat, bytes)
      else (decode bytes).map (fun read => (byte.toNat - 128 + 128 * read.1, read.2))

/-- A number is read back whatever follows it. The induction follows the encoder, seven bits at a
time. -/
theorem decode_encode (value : Nat) (rest : List UInt8) :
    decode (encode value ++ rest) = some (value, rest) := by
  induction value using encode.induct with
  | case1 value small =>
    have exact : (UInt8.ofNat value).toNat = value := by
      rw [UInt8.toNat_ofNat']
      omega
    rw [encode, if_pos small]
    simp [decode, exact, small]
  | case2 value large inductionHypothesis =>
    have exact : (UInt8.ofNat (128 + value % 128)).toNat = 128 + value % 128 := by
      rw [UInt8.toNat_ofNat']
      omega
    have marked : ¬ 128 + value % 128 < 128 := by omega
    have whole : 128 + value % 128 - 128 + 128 * (value / 128) = value := by omega
    rw [encode, if_neg large, List.cons_append, decode, exact, if_neg marked,
      inductionHypothesis, Option.map_some, whole]

/-- Each byte carries seven bits. The induction is on the groups: each byte divides what is left
by 128. -/
theorem encode_length (groups value : Nat) (bounded : value < 128 ^ (groups + 1)) :
    (encode value).length ≤ groups + 1 := by
  induction groups generalizing value with
  | zero =>
    have small : value < 128 := by simpa using bounded
    rw [encode, if_pos small]
    exact Nat.le_refl 1
  | succ groups inductionHypothesis =>
    by_cases small : value < 128
    · rw [encode, if_pos small]
      exact Nat.succ_le_succ (Nat.zero_le _)
    · have lower : value / 128 < 128 ^ (groups + 1) := by
        rw [Nat.div_lt_iff_lt_mul (by decide)]
        calc value < 128 ^ (groups + 1 + 1) := bounded
          _ = 128 ^ (groups + 1) * 128 := pow_succ 128 (groups + 1)
      have shorter := inductionHypothesis (value / 128) lower
      rw [encode, if_neg small, List.length_cons]
      omega

end Varint
