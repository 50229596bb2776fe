import Yank.BitGroups
import Yank.Pairing
import Yank.Postcard
import Yank.Preview

/-!
# The text of a ticket

A ticket is carried by hand from one machine to another, as a word that says what it is and its
bytes in letters and digits. Its letters and digits are read in any case, and the word with
anything blank around it. A word that lost its end on the way, or got something on it, is no ticket.
-/

namespace Yank

/-- A digit of `BASE32_NOPAD`. -/
def base32Digit (value : Nat) : Char := Char.ofNat (if value < 26 then 65 + value else 24 + value)

/-- What it stands for. -/
def base32Number (digit : Char) : Option Nat :=
  let code := digit.toNat
  if 65 ≤ code ∧ code ≤ 90 then some (code - 65)
  else if 50 ≤ code ∧ code ≤ 55 then some (code - 24)
  else none

/-- `BASE32_NOPAD`. -/
def base32 : BitGroups.Alphabet 5 where
  digit := base32Digit
  number := base32Number
  number_digit := by decide
  digit_of_number char value has := by
    have back := Char.ofNat_toNat char
    unfold base32Number at has
    dsimp only at has
    split at has
    · obtain rfl := Option.some.inj has
      refine ⟨by omega, ?_⟩
      rw [base32Digit, if_pos (by omega), Nat.add_sub_cancel' (by omega)]
      exact back
    · rw [Option.ite_none_right_eq_some, Option.some.injEq] at has
      obtain ⟨bounds, rfl⟩ := has
      refine ⟨by omega, ?_⟩
      rw [base32Digit, if_neg (by omega), Nat.add_sub_cancel' (by omega)]
      exact back

namespace PairTicket

/-- What a ticket starts with. -/
def ticketPrefix : List Char := "yank-pair-".toList

/-- Why a text is no ticket. -/
inductive TextFailure where
  | notATicket
  | invalid
  | trailing
deriving DecidableEq

/-- What is said about it. -/
def TextFailure.message : TextFailure → String
  | .notATicket => "not a yank pairing ticket"
  | .invalid => "invalid pairing ticket"
  | .trailing => "invalid pairing ticket: trailing bytes"

/-- The one-time secret authorizing a join. -/
abbrev PairSecret := { bytes : List UInt8 // bytes.length = 16 }

variable {Addr : Type} (addrs : Postcard.Format Addr)

/-- A ticket, as it is encoded. -/
def format : Postcard.Format (PairTicket Addr PairSecret) :=
  (addrs.pair (.raw 16)).via (fun ticket => (ticket.addr, ticket.secret))
    (fun read => some { addr := read.1, secret := read.2 }) (fun _ => rfl)

/-- The bytes of a ticket in letters and digits. -/
def code (ticket : PairTicket Addr PairSecret) : List Char :=
  BitGroups.encode base32 ((format addrs).encode ticket)

/-- The text of a ticket. -/
def display (ticket : PairTicket Addr PairSecret) : List Char :=
  ticketPrefix ++ (code addrs ticket).map Char.toLower

/-- The ticket a text is of. -/
def fromStr (text : List Char) : Except TextFailure (PairTicket Addr PairSecret) :=
  if ticketPrefix <+: Text.trim text then
    let encoded := (Text.trim text).drop ticketPrefix.length
    match BitGroups.decode base32 (encoded.map Char.toUpper) with
    | none => .error .invalid
    | some bytes =>
        match (format addrs).decode bytes with
        | none => .error .invalid
        | some (ticket, []) => .ok ticket
        | some (_, _ :: _) => .error .trailing
  else .error .notATicket

/-- A text is of a ticket if what follows the word is what its bytes are written as. The text is
trimmed, loses the word in front, is read in capitals, and the bytes have to be used up by the
format. -/
theorem fromStr_iff (text : List Char) (ticket : PairTicket Addr PairSecret) :
    fromStr addrs text = .ok ticket ↔ ∃ encoded bytes, Text.trim text = ticketPrefix ++ encoded ∧
      encoded.map Char.toUpper = BitGroups.encode base32 bytes ∧
        (format addrs).decode bytes = some (ticket, []) := by
  rw [fromStr]
  constructor
  · intro read
    split at read
    case isFalse => cases read
    case isTrue word =>
      dsimp only at read
      split at read
      case h_1 => cases read
      case h_2 bytes coded =>
        split at read
        case h_1 => cases read
        case h_3 => cases read
        case h_2 found decoded =>
          cases read
          exact ⟨_, bytes, (List.prefix_iff_eq_append.mp word).symm,
            (BitGroups.decode_eq_iff base32 (by decide) (by decide) _ bytes).mp coded, decoded⟩
  · rintro ⟨encoded, bytes, word, coded, decoded⟩
    rw [word, if_pos ⟨encoded, rfl⟩, List.drop_left]
    dsimp only
    rw [(BitGroups.decode_eq_iff base32 (by decide) (by decide) _ bytes).mpr coded]
    dsimp only
    rw [decoded]

end PairTicket

namespace Text

/-- No blank in front is dropped of what starts with none. -/
theorem dropWhile_dark (dark : List Char) (none : ∀ char ∈ dark, isWhitespace char = false)
    (something : dark ≠ []) (more : List Char) :
    (dark ++ more).dropWhile isWhitespace = dark ++ more := by
  cases dark with
  | nil => exact absurd rfl something
  | cons char dark =>
    rw [List.cons_append, List.dropWhile_cons_of_neg]
    rw [none char List.mem_cons_self]
    exact Bool.false_ne_true

/-- Blanks before something without any are taken off, and so are those at the end of what
follows it. -/
theorem trim_around (before core after : List Char)
    (blank : ∀ char ∈ before, isWhitespace char = true)
    (dark : ∀ char ∈ core, isWhitespace char = false) (something : core ≠ []) :
    trim (before ++ (core ++ after)) = core ++ after.rdropWhile isWhitespace := by
  have early : before.dropWhile isWhitespace = [] := List.dropWhile_eq_nil_iff.mpr blank
  have late : core.reverse.dropWhile isWhitespace = core.reverse := by
    have kept := dropWhile_dark core.reverse (fun char member => dark char (List.mem_reverse.mp member))
      (by simpa using something) []
    rwa [List.append_nil] at kept
  rw [trim, List.dropWhile_append, early, List.isEmpty_nil, if_pos rfl,
    dropWhile_dark core dark something, List.rdropWhile, List.reverse_append,
    List.dropWhile_append, List.rdropWhile]
  cases after.reverse.dropWhile isWhitespace with
  | nil => simp [late]
  | cons char rest => simp

/-- Nothing is taken off something without blanks. -/
theorem trim_dark (core : List Char) (dark : ∀ char ∈ core, isWhitespace char = false) :
    trim core = core := by
  cases core with
  | nil => rfl
  | cons char core =>
    have kept := trim_around [] (char :: core) [] (by rintro char ⟨⟩) dark (List.cons_ne_nil _ _)
    simpa using kept

end Text

namespace PairTicket

variable {Addr : Type} (addrs : Postcard.Format Addr) (ticket : PairTicket Addr PairSecret)

/-- Digits are no blanks, and lower case is undone by upper case. -/
theorem code_digits (char : Char) (member : char ∈ code addrs ticket) :
    char.toLower.toUpper = char ∧ Text.isWhitespace char.toLower = false ∧
      Text.isWhitespace char = false := by
  have digits : ∀ value < 32, (base32Digit value).toLower.toUpper = base32Digit value ∧
      Text.isWhitespace (base32Digit value).toLower = false ∧
        Text.isWhitespace (base32Digit value) = false := by
    decide
  obtain ⟨numbers, padding, written, small, _⟩ := BitGroups.encode_writes base32 (by decide)
    ((format addrs).encode ticket)
  rw [code, written] at member
  obtain ⟨value, among, rfl⟩ := List.mem_map.mp member
  exact digits value (small value among)

/-- A blank is no letter. -/
theorem blank_toUpper (char : Char) (blank : Text.isWhitespace char = true) :
    Text.isWhitespace char.toUpper = true := by
  have same : char.toUpper = char := by
    rw [Char.toUpper, dif_neg]
    rintro ⟨low, high⟩
    have lower : 97 ≤ char.toNat := low
    have upper : char.toNat ≤ 122 := high
    simp only [Text.isWhitespace, Bool.or_eq_true, Bool.and_eq_true, decide_eq_true_eq,
      beq_iff_eq] at blank
    omega
  rwa [same]

/-- The code is read back from its lower case. -/
theorem upper_lower : ((code addrs ticket).map Char.toLower).map Char.toUpper = code addrs ticket := by
  rw [List.map_map]
  exact (List.map_congr_left fun char member => (code_digits addrs ticket char member).1).trans
    (List.map_id' _)

omit ticket in
/-- There is no blank in the prefix. -/
theorem prefix_dark : ∀ char ∈ ticketPrefix, Text.isWhitespace char = false := by
  have spelled : ticketPrefix = ['y', 'a', 'n', 'k', '-', 'p', 'a', 'i', 'r', '-'] := by decide
  rw [spelled]
  simp [Text.isWhitespace]

/-- A ticket is never empty. -/
theorem word_nonempty (encoded : List Char) : ticketPrefix ++ encoded ≠ [] := by
  intro empty
  exact absurd (List.append_eq_nil_iff.mp empty).1 (by decide)

/-- A word in which the code of a ticket is written has no blanks. -/
theorem word_dark (encoded : List Char) (coded : encoded.map Char.toUpper <+: code addrs ticket) :
    ∀ char ∈ ticketPrefix ++ encoded, Text.isWhitespace char = false := by
  intro char member
  obtain first | later := List.mem_append.mp member
  · exact prefix_dark char first
  · rw [Bool.eq_false_iff]
    intro blank
    have among := coded.subset (List.mem_map_of_mem later)
    have dark := (code_digits addrs ticket char.toUpper among).2.2
    rw [blank_toUpper char blank] at dark
    cases dark

/-- A ticket is read whatever follows it, if its addresses are. -/
theorem format_continues (continues : addrs.Continues) : (format addrs).Continues :=
  Postcard.Format.via_continues _ _ _ _
    (Postcard.Format.pair_continues _ _ continues (Postcard.Format.raw_continues 16))

/-- No other bytes that a ticket's begin with, or that begin with a ticket's, are a ticket. -/
theorem format_alone (continues : addrs.Continues) (bytes extra : List UInt8)
    (other : PairTicket Addr PairSecret) (more : extra ≠ []) :
    ((format addrs).encode ticket = bytes ++ extra →
      (format addrs).decode bytes ≠ some (other, [])) ∧
      (bytes = (format addrs).encode ticket ++ extra →
        (format addrs).decode bytes ≠ some (other, [])) := by
  constructor
  · intro whole read
    have longer := format_continues addrs continues bytes other [] extra read
    rw [← whole, Postcard.Format.reads_alone, List.nil_append] at longer
    exact more (Prod.mk.inj (Option.some.inj longer)).2.symm
  · rintro rfl read
    rw [(format addrs).reads, Option.some.injEq, Prod.mk.injEq] at read
    exact more read.2

/-- The text of a ticket is read as the ticket, with what follows its prefix in any case and with
anything blank around it. It is read no more once something is missing at its end, or once
something that is not blank follows it. -/
theorem text_is_whole (continues : addrs.Continues) :
    (∀ before encoded after, (∀ char ∈ before, Text.isWhitespace char = true) →
      (∀ char ∈ after, Text.isWhitespace char = true) →
      encoded.map Char.toUpper = code addrs ticket →
      fromStr addrs (before ++ (ticketPrefix ++ encoded ++ after)) = .ok ticket) ∧
    (∀ cut < (display addrs ticket).length, ∀ other,
      fromStr addrs ((display addrs ticket).take cut) ≠ .ok other) ∧
    ∀ more, (∃ char ∈ more, Text.isWhitespace char = false) → ∀ other,
      fromStr addrs (display addrs ticket ++ more) ≠ .ok other := by
  have written := upper_lower addrs ticket
  have dark : ∀ char ∈ display addrs ticket, Text.isWhitespace char = false :=
    word_dark addrs ticket _ (by rw [written])
  have bytes_of_code : BitGroups.decode base32 (code addrs ticket) =
      some ((format addrs).encode ticket) :=
    (BitGroups.decode_eq_iff base32 (by decide) (by decide) _ _).mpr rfl
  refine ⟨?_, ?_, ?_⟩
  · intro before encoded after early late coded
    have dark := word_dark addrs ticket encoded (by rw [coded])
    rw [fromStr_iff, Text.trim_around before _ after early dark (word_nonempty encoded),
      List.rdropWhile_eq_nil_iff.mpr late, List.append_nil]
    exact ⟨encoded, _, rfl, coded, (format addrs).reads_alone ticket⟩
  · intro cut short other read
    obtain ⟨encoded, bytes, word, coded, decoded⟩ := (fromStr_iff addrs _ other).mp read
    have kept : (display addrs ticket).take cut = ticketPrefix ++ encoded := by
      rw [← word, Text.trim_dark]
      exact fun char member => dark char (List.mem_of_mem_take member)
    obtain ⟨rest, all⟩ : encoded <+: (code addrs ticket).map Char.toLower :=
      (List.prefix_append_right_inj ticketPrefix).mp (kept ▸ List.take_prefix cut _)
    have missing : rest ≠ [] := by
      rintro rfl
      have lengths := congrArg List.length kept
      rw [List.append_nil] at all
      rw [all, List.length_take] at lengths
      change min cut (display addrs ticket).length = (display addrs ticket).length at lengths
      omega
    rw [← all, List.map_append] at written
    obtain ⟨extra, more, whole⟩ := BitGroups.decode_extends base32 (by decide) _
      (rest.map Char.toUpper) bytes _ (by simpa using missing)
      ((BitGroups.decode_eq_iff base32 (by decide) (by decide) _ bytes).mpr coded)
      (written ▸ bytes_of_code)
    exact (format_alone addrs ticket continues bytes extra other more).1 whole decoded
  · rintro more ⟨char, member, bright⟩ other read
    obtain ⟨encoded, bytes, word, coded, decoded⟩ := (fromStr_iff addrs _ other).mp read
    have kept := Text.trim_around [] (display addrs ticket) more (by rintro char ⟨⟩) dark
      (word_nonempty _)
    rw [List.nil_append, word, display, List.append_assoc] at kept
    have all := List.append_cancel_left kept
    have added : more.rdropWhile Text.isWhitespace ≠ [] := by
      intro none
      rw [List.rdropWhile_eq_nil_iff.mp none char member] at bright
      cases bright
    rw [all, List.map_append, written] at coded
    obtain ⟨extra, more, whole⟩ := BitGroups.decode_extends base32 (by decide) _
      ((more.rdropWhile Text.isWhitespace).map Char.toUpper) _ bytes (by simpa using added)
      bytes_of_code ((BitGroups.decode_eq_iff base32 (by decide) (by decide) _ bytes).mpr coded)
    exact (format_alone addrs ticket continues bytes extra other more).2 whole decoded

/-- An address that is a machine's id alone: its bytes, and that there is nothing else. -/
def idAlone : Postcard.Format { bytes : List UInt8 // bytes.length = 33 } := .raw 33

def issued : PairTicket { bytes : List UInt8 // bytes.length = 33 } PairSecret where
  addr := ⟨List.replicate 32 7 ++ [0], rfl⟩
  secret := ⟨List.replicate 16 9, rfl⟩

/-- A ticket with blanks around it, and a text cut off it. -/
theorem text_is_whole_issued :
    fromStr idAlone (['\n'] ++ (display idAlone issued ++ [' ', '\n'])) = .ok issued ∧
      ∀ other, fromStr idAlone ((display idAlone issued).take 88) ≠ .ok other := by
  obtain ⟨whole, cut, _⟩ := text_is_whole idAlone issued (Postcard.Format.raw_continues 33)
  exact ⟨whole ['\n'] _ [' ', '\n'] (by simp [Text.isWhitespace])
      (by simp [Text.isWhitespace]) (upper_lower idAlone issued),
    cut 88 (by decide +kernel)⟩

end PairTicket

end Yank
