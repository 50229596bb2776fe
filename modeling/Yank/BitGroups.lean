import Mathlib

/-!
# Bytes written with digits of a few bits

The bits of some bytes, cut into groups of a width that need not divide eight and written with a
digit each; the last group is filled up with zeros. Reading takes the fewest digits that hold the
bytes and zeros alone for filling, so every text that can be read is what its bytes are written
as, and a text that goes on past another holds more bytes than it.

These are the standard encodings of the `data-encoding` crate without padding characters, as it
documents them for digits of one to six bits: the highest bit comes first, and bits left over
that are not zero are refused. Base 32 is the one with five bits.
-/

namespace BitGroups

universe u
variable {Value : Type u}

/-- So many bits of a number, the highest first. -/
def bits : Nat → Nat → List Bool
  | 0, _ => []
  | width + 1, number => bits width (number / 2) ++ [number % 2 == 1]

/-- The number bits stand for. -/
def number (bits : List Bool) : Nat := bits.foldl (fun number bit => 2 * number + bit.toNat) 0

/-- So many groups of a width, off the front. -/
def cut (width : Nat) : Nat → List Bool → List (List Bool)
  | 0, _ => []
  | count + 1, all => all.take width :: cut width count (all.drop width)

/-- Digits for the numbers of so many bits. -/
structure Alphabet (width : Nat) where
  digit : Nat → Char
  number : Char → Option Nat
  number_digit : ∀ value < 2 ^ width, number (digit value) = some value
  digit_of_number : ∀ char value, number char = some value → value < 2 ^ width ∧ digit value = char

/-- The bits of numbers, one after another. -/
def spread (width : Nat) (number : Value → Nat) (values : List Value) : List Bool :=
  values.flatMap (fun value => bits width (number value))

/-- So many bits are so many. -/
@[simp] theorem bits_length (width number : Nat) : (bits width number).length = width := by
  induction width generalizing number with
  | zero => rfl
  | succ width inductionHypothesis => simp [bits, inductionHypothesis]

/-- One more bit at the end doubles the number. -/
theorem number_concat (bits : List Bool) (bit : Bool) :
    number (bits ++ [bit]) = 2 * number bits + bit.toNat := by
  simp [number]

/-- The bits of a number that fits stand for it. -/
theorem number_bits (width value : Nat) (small : value < 2 ^ width) :
    number (bits width value) = value := by
  induction width generalizing value with
  | zero =>
    have nothing : value = 0 := by simpa using small
    rw [nothing]
    rfl
  | succ width inductionHypothesis =>
    rw [bits, number_concat, inductionHypothesis (value / 2) (by rw [Nat.pow_succ] at small; omega)]
    have parity : (value % 2 == 1).toNat = value % 2 := by
      obtain even | odd := Nat.mod_two_eq_zero_or_one value
      · simp [even]
      · simp [odd]
    rw [parity]
    exact Nat.div_add_mod value 2

/-- Numbers that fit are told by their bits. -/
theorem bits_inj (width left right : Nat) (leftSmall : left < 2 ^ width)
    (rightSmall : right < 2 ^ width) (same : bits width left = bits width right) :
    left = right := by
  rw [← number_bits width left leftSmall, same, number_bits width right rightSmall]

/-- Bits are those of the number they stand for. -/
theorem bits_number (all : List Bool) : bits all.length (number all) = all := by
  induction all using List.reverseRecOn with
  | nil => rfl
  | append_singleton all bit inductionHypothesis =>
    have half : (2 * number all + bit.toNat) / 2 = number all := by
      have := bit.toNat_lt
      omega
    have low : ((2 * number all + bit.toNat) % 2 == 1) = bit := by
      cases bit
      · simp
      · simp
    rw [List.length_append, List.length_singleton, number_concat, bits, half, low,
      inductionHypothesis]

/-- The number that bits stand for fits them. -/
theorem number_lt (all : List Bool) : number all < 2 ^ all.length := by
  induction all using List.reverseRecOn with
  | nil => exact Nat.one_pos
  | append_singleton all bit inductionHypothesis =>
    have := bit.toNat_lt
    rw [number_concat, List.length_append, List.length_singleton, Nat.pow_succ]
    omega

/-- Groups that fit have the width, and put together again they are what they were cut off. -/
theorem cut_groups (width count : Nat) (all : List Bool) (fits : width * count ≤ all.length) :
    (∀ group ∈ cut width count all, group.length = width) ∧
      (cut width count all).flatten = all.take (width * count) := by
  induction count generalizing all with
  | zero => simp [cut]
  | succ count inductionHypothesis =>
    rw [Nat.mul_succ] at fits
    obtain ⟨widths, whole⟩ := inductionHypothesis (all.drop width)
      (by rw [List.length_drop]; omega)
    constructor
    · refine List.forall_mem_cons.mpr ⟨?_, widths⟩
      rw [List.length_take]
      omega
    · rw [cut, List.flatten_cons, whole, Nat.mul_succ, Nat.add_comm, List.take_add]

section Spread
variable (width : Nat) (number : Value → Nat)

/-- So many values of a width take so many bits. -/
@[simp] theorem spread_length (values : List Value) :
    (spread width number values).length = width * values.length := by
  induction values with
  | nil => rfl
  | cons value values inductionHypothesis =>
    rw [spread, List.flatMap_cons, List.length_append, bits_length, List.length_cons,
      Nat.mul_succ, Nat.add_comm]
    exact congrArg (· + width) inductionHypothesis

/-- Numbers are told from the front of their bits. The induction is on the first list: both begin
with a group of the same width, which tells the first numbers apart. -/
theorem prefix_of_spread (early late : List Value) (positive : 0 < width)
    (apart : ∀ first ∈ early, ∀ second ∈ late,
      bits width (number first) = bits width (number second) → first = second)
    (front : spread width number early <+: spread width number late) : early <+: late := by
  induction early generalizing late with
  | nil => exact List.nil_prefix
  | cons first early inductionHypothesis =>
    cases late with
    | nil =>
      have longer := front.length_le
      rw [spread_length, spread_length, List.length_cons, List.length_nil, Nat.mul_succ] at longer
      omega
    | cons second late =>
      have split : bits width (number first) ++ spread width number early <+:
          bits width (number second) ++ spread width number late := front
      obtain ⟨rest, same⟩ := split
      rw [List.append_assoc] at same
      obtain ⟨heads, tails⟩ := List.append_inj same (by rw [bits_length, bits_length])
      obtain rfl := apart first List.mem_cons_self second List.mem_cons_self heads
      refine (List.prefix_cons_inj first).mpr (inductionHypothesis late ?_ ⟨rest, tails⟩)
      intro left before right after
      exact apart left (List.mem_cons_of_mem _ before) right (List.mem_cons_of_mem _ after)

/-- Groups of the width are the bits of their numbers. -/
theorem spread_groups (groups : List (List Bool)) (widths : ∀ group ∈ groups, group.length = width) :
    spread width BitGroups.number groups = groups.flatten := by
  induction groups with
  | nil => rfl
  | cons group groups inductionHypothesis =>
    rw [List.forall_mem_cons] at widths
    have own : bits width (BitGroups.number group) = group := by
      rw [← widths.1, bits_number]
    rw [spread, List.flatMap_cons, own, List.flatten_cons]
    exact congrArg (group ++ ·) (inductionHypothesis widths.2)

end Spread

/-- The bits of bytes. -/
def content (bytes : List UInt8) : List Bool := spread 8 UInt8.toNat bytes

section Digits
variable {width : Nat} (alphabet : Alphabet width)

/-- As many digits as the bits take, the last one filled up. -/
def encode (bytes : List UInt8) : List Char :=
  let count := ((content bytes).length + width - 1) / width
  let filled := content bytes ++ List.replicate (width * count - (content bytes).length) false
  (cut width count filled).map (fun group => alphabet.digit (number group))

/-- As many bytes as the digits hold, unless a digit or anything but zeros is left over. -/
def decode (text : List Char) : Option (List UInt8) :=
  (text.mapM alphabet.number).bind (fun numbers =>
    let all := spread width id numbers
    let count := all.length / 8
    let rest := all.drop (8 * count)
    if rest.length < width ∧ rest.all (fun bit => !bit) = true then
      some ((cut 8 count all).map (fun group => UInt8.ofNat (number group)))
    else none)

/-- A text writes bytes: the numbers of its digits have the bits of the bytes and zeros, fewer
than a digit holds. -/
def Writes (text : List Char) (bytes : List UInt8) : Prop :=
  ∃ numbers padding, text = numbers.map alphabet.digit ∧ (∀ value ∈ numbers, value < 2 ^ width) ∧
    spread width id numbers = content bytes ++ List.replicate padding false ∧ padding < width

/-- Bits that are filled up to so many groups are written by their digits. Each group is below two
to its width, so it has a digit, and the groups put together are the bits again. -/
theorem groups_write (bytes : List UInt8) (count padding : Nat)
    (full : (content bytes).length + padding = width * count) (few : padding < width) :
    Writes alphabet ((cut width count (content bytes ++ List.replicate padding false)).map
      (fun group => alphabet.digit (number group))) bytes := by
  have all : (content bytes ++ List.replicate padding false).length = width * count := by
    rw [List.length_append, List.length_replicate, full]
  generalize filled : content bytes ++ List.replicate padding false = whole at all
  obtain ⟨widths, parts⟩ := cut_groups width count whole all.ge
  refine ⟨(cut width count whole).map number, padding, ?_, ?_, ?_, few⟩
  · rw [List.map_map]
    rfl
  · intro value member
    obtain ⟨group, among, rfl⟩ := List.mem_map.mp member
    have bound := number_lt group
    rwa [widths group among] at bound
  · have same : spread width id ((cut width count whole).map number) =
        spread width number (cut width count whole) := by
      rw [spread, spread, List.flatMap_map]
      rfl
    rw [same, spread_groups width _ widths, parts, filled, ← all, List.take_length]

/-- What is encoded writes the bytes. -/
theorem encode_writes (positive : 0 < width) (bytes : List UInt8) :
    Writes alphabet (encode alphabet bytes) bytes := by
  have rest := Nat.mod_lt ((content bytes).length + width - 1) positive
  have whole := Nat.div_add_mod ((content bytes).length + width - 1) width
  exact groups_write alphabet bytes _ _ (by omega) (by omega)

/-- Digits have the numbers they are the digits of. The induction is on the text, a character at a
time. -/
theorem mapM_number_iff (text : List Char) (numbers : List Nat) :
    text.mapM alphabet.number = some numbers ↔
      text = numbers.map alphabet.digit ∧ ∀ value ∈ numbers, value < 2 ^ width := by
  induction text generalizing numbers with
  | nil =>
    cases numbers with
    | nil => simp
    | cons value numbers => simp
  | cons char text inductionHypothesis =>
    simp only [List.mapM_cons, Option.bind_eq_bind, Option.bind_eq_some_iff, Option.pure_def,
      Option.some.injEq, inductionHypothesis]
    constructor
    · rintro ⟨value, has, numbers, ⟨rfl, small⟩, rfl⟩
      obtain ⟨bound, rfl⟩ := alphabet.digit_of_number char value has
      exact ⟨rfl, List.forall_mem_cons.mpr ⟨bound, small⟩⟩
    · rintro ⟨digits, small⟩
      cases numbers with
      | nil => cases digits
      | cons value numbers =>
        obtain ⟨rfl, rfl⟩ := List.cons.inj digits
        rw [List.forall_mem_cons] at small
        exact ⟨value, alphabet.number_digit value small.1, numbers, ⟨rfl, small.2⟩, rfl⟩

/-- Groups of eight are bytes. -/
theorem content_groups (groups : List (List Bool)) (widths : ∀ group ∈ groups, group.length = 8) :
    content (groups.map (fun group => UInt8.ofNat (number group))) = groups.flatten := by
  rw [← spread_groups 8 groups widths, content, spread, spread, List.flatMap_map]
  refine List.flatMap_congr fun group member => ?_
  have bound := number_lt group
  rw [widths group member] at bound
  rw [UInt8.toNat_ofNat_of_lt' bound]

/-- Bytes are their groups of eight. -/
theorem cut_content (bytes : List UInt8) (rest : List Bool) :
    (cut 8 bytes.length (content bytes ++ rest)).map (fun group => UInt8.ofNat (number group)) =
      bytes := by
  induction bytes with
  | nil => rfl
  | cons byte bytes inductionHypothesis =>
    have split : content (byte :: bytes) ++ rest = bits 8 byte.toNat ++ (content bytes ++ rest) :=
      List.append_assoc ..
    rw [split, List.length_cons, cut, List.take_left' (bits_length 8 _),
      List.drop_left' (bits_length 8 _), List.map_cons, inductionHypothesis,
      number_bits 8 _ byte.toNat_lt, UInt8.ofNat_toNat]

/-- What a text can be read as is what it writes. What is left after the last whole byte has to be
less than a group and made of zeros, which is what `Writes` says of its padding. -/
theorem decode_iff (narrow : width ≤ 8) (text : List Char) (bytes : List UInt8) :
    decode alphabet text = some bytes ↔ Writes alphabet text bytes := by
  simp only [decode, Option.bind_eq_some_iff, mapM_number_iff, Option.ite_none_right_eq_some,
    Option.some.injEq]
  constructor
  · rintro ⟨numbers, ⟨digits, small⟩, ⟨short, zeros⟩, rfl⟩
    generalize spreads : spread width id numbers = all at short zeros ⊢
    obtain ⟨widths, parts⟩ := cut_groups 8 (all.length / 8) all (Nat.mul_div_le _ _)
    refine ⟨numbers, (all.drop (8 * (all.length / 8))).length, digits, small, ?_, short⟩
    have filling : all.drop (8 * (all.length / 8)) =
        List.replicate (all.drop (8 * (all.length / 8))).length false := by
      refine List.eq_replicate_iff.mpr ⟨rfl, fun bit member => ?_⟩
      exact (Bool.not_eq_true' bit).mp (List.all_eq_true.mp zeros bit member)
    rw [content_groups _ widths, parts, ← filling, List.take_append_drop, spreads]
  · rintro ⟨numbers, padding, digits, small, all, few⟩
    have size : (spread width id numbers).length / 8 = bytes.length := by
      rw [all, List.length_append, content, spread_length, List.length_replicate]
      omega
    refine ⟨numbers, ⟨digits, small⟩, ?_, ?_⟩
    · rw [size, all, List.drop_left' (by rw [content, spread_length])]
      simp [few]
    · rw [size, all, cut_content]

/-- Bytes are told from the front of their bits. -/
theorem prefix_of_content (early late : List UInt8) (front : content early <+: content late) :
    early <+: late := by
  refine prefix_of_spread 8 UInt8.toNat early late (by decide) ?_ front
  intro first _ second _ same
  exact UInt8.toNat_inj.mp (bits_inj 8 _ _ first.toNat_lt second.toNat_lt same)

/-- Bytes are written in one way only. Both cut the same bits into groups with less than a group
of padding, so they have as many groups and then the same ones. -/
theorem writes_unique (positive : 0 < width) (left right : List Char) (bytes : List UInt8)
    (first : Writes alphabet left bytes) (second : Writes alphabet right bytes) : left = right := by
  obtain ⟨numbers, padding, rfl, small, all, few⟩ := first
  obtain ⟨others, filling, rfl, others_small, others_all, others_few⟩ := second
  have lengths : padding = filling := by
    have here := congrArg List.length all
    have there := congrArg List.length others_all
    rw [List.length_append, List.length_replicate, spread_length] at here there
    have below : numbers.length ≤ others.length := by
      by_contra more
      have bound := Nat.mul_le_mul_left width (Nat.lt_of_not_le more)
      rw [Nat.mul_succ] at bound
      omega
    have above : others.length ≤ numbers.length := by
      by_contra more
      have bound := Nat.mul_le_mul_left width (Nat.lt_of_not_le more)
      rw [Nat.mul_succ] at bound
      omega
    have same := le_antisymm below above
    rw [same] at here
    omega
  have spreads : spread width id numbers = spread width id others := by
    rw [all, others_all, lengths]
  have apart : ∀ value ∈ numbers, ∀ other ∈ others,
      bits width (id value) = bits width (id other) → value = other :=
    fun value member other among same =>
      bits_inj width value other (small value member) (others_small other among) same
  have front := prefix_of_spread width id numbers others positive apart (spreads ▸ List.prefix_rfl)
  have lengths := congrArg List.length spreads
  rw [spread_length, spread_length] at lengths
  rw [front.eq_of_length (Nat.eq_of_mul_eq_mul_left positive lengths)]

/-- The texts that can be read are those that are written. -/
theorem decode_eq_iff (positive : 0 < width) (narrow : width ≤ 8) (text : List Char)
    (bytes : List UInt8) : decode alphabet text = some bytes ↔ text = encode alphabet bytes := by
  rw [decode_iff alphabet narrow]
  constructor
  · intro writes
    exact writes_unique alphabet positive _ _ bytes writes (encode_writes alphabet positive bytes)
  · rintro rfl
    exact encode_writes alphabet positive bytes

/-- A text that goes on past another holds more bytes, if both can be read. The first text is read
into the same groups as the front of the whole one, and what is left over at its end is less than
a byte. -/
theorem decode_extends (narrow : width ≤ 8) (text more : List Char) (short long : List UInt8)
    (proper : more ≠ []) (front : decode alphabet text = some short)
    (whole : decode alphabet (text ++ more) = some long) :
    ∃ extra, extra ≠ [] ∧ long = short ++ extra := by
  obtain ⟨numbers, padding, rfl, small, all, few⟩ := (decode_iff alphabet narrow _ _).mp front
  obtain ⟨others, filling, digits, others_small, others_all, others_few⟩ :=
    (decode_iff alphabet narrow _ _).mp whole
  obtain ⟨early, late, rfl, same, rfl⟩ := List.append_eq_map_iff.mp digits
  have read := (mapM_number_iff alphabet _ early).mpr
    ⟨rfl, fun value member => others_small value (List.mem_append_left _ member)⟩
  rw [same, (mapM_number_iff alphabet _ numbers).mpr ⟨rfl, small⟩, Option.some.injEq] at read
  subst read
  have total : content short ++ (List.replicate padding false ++ spread width id late) =
      content long ++ List.replicate filling false := by
    rw [← others_all, ← List.append_assoc, ← all]
    exact (List.flatMap_append).symm
  have further : 8 * short.length < 8 * long.length := by
    have lengths := congrArg List.length total
    simp only [List.length_append, List.length_replicate, spread_length, content] at lengths
    have some : 0 < late.length := by
      rw [List.length_pos_iff]
      rintro rfl
      exact proper rfl
    have digit := Nat.le_mul_of_pos_right width some
    omega
  have front : content short <+: content long := by
    refine List.prefix_of_prefix_length_le ⟨_, total⟩ ⟨_, rfl⟩ ?_
    rw [content, content, spread_length, spread_length]
    exact further.le
  obtain ⟨extra, rfl⟩ := prefix_of_content short long front
  refine ⟨extra, ?_, rfl⟩
  rintro rfl
  rw [List.append_nil] at further
  exact absurd further (lt_irrefl _)

end Digits

end BitGroups
