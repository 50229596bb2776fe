import Yank.Copy
import Yank.MeshState

/-!
# One line about a copy

A preview is printed on a terminal, and the copy may be a peer's. Text is cut at a number of
bytes, decoded with every broken sequence replaced, and its first line that is not blank is
masked and cut at a number of characters. Anything else is shown by its type, which is safe
to print because a copy with any other type is refused, and by its size.

Cutting a string is a partial function here, as it panics between the bytes of a character,
and so is the preview.
-/

namespace Yank

namespace Text

/-- `char::is_whitespace`. -/
def isWhitespace (char : Char) : Bool :=
  let code := char.toNat
  (0x9 ≤ code && code ≤ 0xD) || code == 0x20 || code == 0x85 || code == 0xA0 || code == 0x1680 ||
    (0x2000 ≤ code && code ≤ 0x200A) || code == 0x2028 || code == 0x2029 || code == 0x202F ||
    code == 0x205F || code == 0x3000

/-- `char::is_control`. -/
def isControl (char : Char) : Bool :=
  let code := char.toNat
  code ≤ 0x1F || (0x7F ≤ code && code ≤ 0x9F)

/-- A byte that continues a character. -/
def continues (byte : UInt8) : Bool := 0x80 ≤ byte && byte ≤ 0xBF

/-- Whether a second byte can follow the first byte of a character of three or four. -/
def follows (first second : UInt8) : Bool :=
  (first == 0xE0 && 0xA0 ≤ second && second ≤ 0xBF) ||
    (0xE1 ≤ first && first ≤ 0xEC && continues second) ||
    (first == 0xED && 0x80 ≤ second && second ≤ 0x9F) ||
    (0xEE ≤ first && first ≤ 0xEF && continues second) ||
    (first == 0xF0 && 0x90 ≤ second && second ≤ 0xBF) ||
    (0xF1 ≤ first && first ≤ 0xF3 && continues second) ||
    (first == 0xF4 && 0x80 ≤ second && second ≤ 0x8F)

/-- How many bytes of a broken character go together: the first one, and those that could
have continued it. -/
def broken (first : UInt8) : Bytes → Nat
  | second :: third :: _ =>
      if follows first second then if 0xF0 ≤ first && continues third then 3 else 2 else 1
  | [second] => if follows first second then 2 else 1
  | [] => 1

/-- The character some bytes start with, if they do. -/
def firstChar (bytes : Bytes) : Option Char := bytes.toByteArray.utf8DecodeChar? 0

/-- Decodes at most as many characters as there is fuel. -/
def lossyFrom : Nat → Bytes → List Char
  | _, [] => []
  | 0, _ :: _ => []
  | fuel + 1, byte :: rest =>
      match firstChar (byte :: rest) with
      | some char => char :: lossyFrom fuel ((byte :: rest).drop char.utf8Size)
      | none => '\uFFFD' :: lossyFrom fuel ((byte :: rest).drop (broken byte rest))

/-- `String::from_utf8_lossy`: every broken character is read as U+FFFD. -/
def fromUtf8Lossy (bytes : Bytes) : List Char := lossyFrom bytes.length bytes

/-- `str::lines`: split at line feeds, without a carriage return before one, and without the
empty piece after the last. -/
def lines (text : List Char) : List (List Char) :=
  let pieces := text.splitOn '\n'
  pieces.dropLast.map
      (fun line => if line.getLast? = some '\r' then line.dropLast else line) ++
    (pieces.getLast?.filter (fun line => line ≠ [])).toList

/-- `str::trim`. -/
def trim (line : List Char) : List Char :=
  (line.dropWhile isWhitespace).rdropWhile isWhitespace

/-- Where the character with an index starts, in bytes. -/
def offset : Nat → List Char → Option Nat
  | _, [] => none
  | 0, _ :: _ => some 0
  | index + 1, char :: rest => (offset index rest).map (char.utf8Size + ·)

/-- `String::truncate`: what is left when a string is cut after so many bytes; `none` for the
panic of a cut inside a character. -/
def truncate : Nat → List Char → Option (List Char)
  | 0, _ => some []
  | _ + 1, [] => some []
  | cut + 1, char :: rest =>
      if char.utf8Size ≤ cut + 1 then (truncate (cut + 1 - char.utf8Size) rest).map (char :: ·)
      else none

/-- A line that has nothing of a kind has characters of other kinds only. -/
theorem each_of_any (test : Char → Bool) (line : List Char) (clean : line.any test = false) :
    ∀ char ∈ line, test char = false := by
  intro char member
  rw [List.any_eq_false] at clean
  exact Bool.eq_false_of_not_eq_true (clean char member)

/-- A character that is encoded first comes back first. -/
theorem firstChar_encode (char : Char) (rest : Bytes) :
    firstChar (String.utf8EncodeChar char ++ rest) = some char := by
  rw [firstChar, List.toByteArray_append]
  exact ByteArray.utf8DecodeChar?_utf8EncodeChar_append

/-- What is broken is one byte at least. -/
theorem broken_pos (first : UInt8) (rest : Bytes) : 0 < broken first rest := by
  unfold broken
  repeat' split
  all_goals decide

/-- There is fuel for every character. The induction is on the fuel: every step takes a byte at
least. -/
theorem lossyFrom_fuel (fuel more : Nat) (bytes : Bytes) (enough : bytes.length ≤ fuel) :
    lossyFrom (fuel + more) bytes = lossyFrom fuel bytes := by
  induction fuel generalizing bytes with
  | zero =>
    obtain rfl := List.length_eq_zero_iff.mp (Nat.le_zero.mp enough)
    simp [lossyFrom]
  | succ fuel inductionHypothesis =>
    cases bytes with
    | nil => simp [lossyFrom]
    | cons byte rest =>
      have shorter (taken : Nat) (positive : 0 < taken) :
          ((byte :: rest).drop taken).length ≤ fuel := by
        rw [List.length_drop]
        omega
      rw [Nat.succ_add, lossyFrom, lossyFrom]
      cases firstChar (byte :: rest) with
      | none => simp only [inductionHypothesis _ (shorter _ (broken_pos byte rest))]
      | some char => simp only [inductionHypothesis _ (shorter _ char.utf8Size_pos)]

/-- Well-formed text is read as it is. The induction is on the characters: each is decoded whole
and leaves the rest, so nothing is ever replaced. -/
theorem fromUtf8Lossy_utf8 (text : String) : fromUtf8Lossy (Files.utf8 text) = text.toList := by
  have decodes (chars : List Char) (fuel : Nat)
      (enough : (chars.flatMap String.utf8EncodeChar).length ≤ fuel) :
      lossyFrom fuel (chars.flatMap String.utf8EncodeChar) = chars := by
    induction chars generalizing fuel with
    | nil => cases fuel <;> rfl
    | cons char chars inductionHypothesis =>
      rw [List.flatMap_cons] at enough ⊢
      have size : (String.utf8EncodeChar char).length = char.utf8Size :=
        String.length_utf8EncodeChar char
      have first := firstChar_encode char (chars.flatMap String.utf8EncodeChar)
      have left : (String.utf8EncodeChar char ++ chars.flatMap String.utf8EncodeChar).drop
          char.utf8Size = chars.flatMap String.utf8EncodeChar := by
        rw [← size, List.drop_left]
      have positive : 0 < char.utf8Size := char.utf8Size_pos
      rw [List.length_append, size] at enough
      obtain ⟨byte, rest, bytes⟩ := List.exists_cons_of_ne_nil
        (List.append_ne_nil_of_left_ne_nil String.utf8EncodeChar_ne_nil
          (chars.flatMap String.utf8EncodeChar))
      rw [bytes] at first left ⊢
      cases fuel with
      | zero => omega
      | succ fuel =>
        simp only [lossyFrom, first, left]
        rw [inductionHypothesis fuel (by omega)]
  exact decodes text.toList _ le_rfl

/-- A string is cut where its characters start, and keeps those before. The induction is on the
index and follows the characters that are passed. -/
theorem truncate_offset (index cut : Nat) (text : List Char)
    (starts : offset index text = some cut) : truncate cut text = some (text.take index) := by
  induction index generalizing cut text with
  | zero =>
    cases text with
    | nil => cases starts
    | cons char rest =>
      obtain rfl := Option.some.inj starts
      rfl
  | succ index inductionHypothesis =>
    cases text with
    | nil => cases starts
    | cons char rest =>
      obtain ⟨later, startsLater, rfl⟩ := Option.map_eq_some_iff.mp starts
      have positive : 0 < char.utf8Size := char.utf8Size_pos
      obtain ⟨size, isSize⟩ : ∃ size, char.utf8Size + later = size + 1 :=
        ⟨char.utf8Size + later - 1, by omega⟩
      have left : size + 1 - char.utf8Size = later := by omega
      rw [isSize, truncate, if_pos (by omega), left, inductionHypothesis later rest startsLater]
      rfl

/-- Only a string that is longer has a character with the index. -/
theorem offset_none_iff (index : Nat) (text : List Char) :
    offset index text = none ↔ text.length ≤ index := by
  induction index generalizing text with
  | zero => cases text <;> simp [offset]
  | succ index inductionHypothesis =>
    cases text with
    | nil => simp [offset]
    | cons char rest => simp [offset, inductionHypothesis]

end Text

/-- Makes a string safe to print as one line: what could hide or reorder terminal output
becomes `?`. -/
def sanitize (text : List Char) : List Char :=
  text.map (fun char => if isConfusable char then '?' else char)

namespace Copy

variable {Hash : Type}

/-- How much of a copy a preview keeps, in characters. -/
def previewChars : Nat := 72

/-- How much of a copy a preview reads, in bytes. -/
def previewScan : Nat := 16 * 1024

/-- The preview of a text; `none` for a panic. -/
def previewText (bytes : Bytes) : Option (List Char) := do
  let text := Text.fromUtf8Lossy (bytes.take (min bytes.length previewScan))
  let lines := ((Text.lines text).map Text.trim).filter (fun line => line ≠ [])
  let preview := sanitize (lines.head?.getD [])
  let preview ← match Text.offset previewChars preview with
    | some cut => (Text.truncate cut preview).map (fun kept => kept ++ ['…'])
    | none => some preview
  return if lines.length < 2 then preview else preview ++ [' ', '⏎']

/-- One line describing the copy, safe to print; `none` for a panic. `byteSize` prints a
number of bytes. -/
def preview (byteSize : Nat → String) (copy : Copy Hash) : Option String :=
  let rep := copy.selection.primary
  if copy.secret then some "<secret>"
  else if !Mime.isText rep.mime then
    some ("<" ++ rep.mime ++ ", " ++ byteSize rep.bytes.length ++ ">")
  else (previewText rep.bytes).map String.ofList

/-- What `sanitize` would replace is not in what it leaves. -/
theorem sanitize_safe (text : List Char) : ∀ char ∈ sanitize text, isConfusable char = false := by
  intro char member
  obtain ⟨read, _, rfl⟩ := List.mem_map.mp member
  cases confusable : isConfusable read with
  | false =>
    rw [if_neg Bool.false_ne_true]
    exact confusable
  | true =>
    rw [if_pos rfl]
    decide

/-- The preview of a text never panics: it is at most so many characters of a masked line,
and the marks. -/
theorem previewText_eq (bytes : Bytes) :
    ∃ line marks, previewText bytes = some (line ++ marks) ∧ line.length ≤ previewChars ∧
      (∀ char ∈ line, isConfusable char = false) ∧
      marks ∈ [[], ['…'], [' ', '⏎'], ['…', ' ', '⏎']] := by
  simp only [previewText, Option.pure_def, Option.bind_eq_bind]
  generalize ((Text.lines (Text.fromUtf8Lossy (bytes.take (min bytes.length previewScan)))).map
    Text.trim).filter (fun line => line ≠ []) = lines
  have safe := sanitize_safe (lines.head?.getD [])
  generalize sanitize (lines.head?.getD []) = preview at safe ⊢
  cases starts : Text.offset previewChars preview with
  | none =>
    have short := (Text.offset_none_iff previewChars preview).mp starts
    by_cases single : lines.length < 2
    · exact ⟨preview, [], by simp [single], short, safe, by simp⟩
    · exact ⟨preview, [' ', '⏎'], by simp [single], short, safe, by simp⟩
  | some cut =>
    simp only [Text.truncate_offset previewChars cut preview starts]
    have short : (preview.take previewChars).length ≤ previewChars :=
      List.length_take_le previewChars preview
    have kept : ∀ char ∈ preview.take previewChars, isConfusable char = false :=
      fun char member => safe char (List.mem_of_mem_take member)
    by_cases single : lines.length < 2
    · exact ⟨preview.take previewChars, ['…'], by simp [single], short, kept, by simp⟩
    · exact ⟨preview.take previewChars, ['…', ' ', '⏎'], by simp [single], short, kept, by simp⟩

/-- What prints a number of bytes prints digits, letters, points and blanks. -/
def PrintsPlainly (byteSize : Nat → String) : Prop :=
  ∀ size, ∀ char ∈ (byteSize size).toList,
    (char.isAlphanum || char == '.' || char == ' ') = true

/-- What a type may be written with is mistaken for nothing. -/
theorem isConfusable_of_isMimeChar (char : Char) (plain : isMimeChar char = true) :
    isConfusable char = false := by
  simp only [isMimeChar, Bool.and_eq_true, decide_eq_true_eq] at plain
  simp only [isConfusable, Bool.or_eq_false_iff, Bool.and_eq_false_iff, decide_eq_false_iff_not,
    beq_eq_false_iff_ne]
  omega

/-- Digits, letters, points and blanks may stand in a type. -/
theorem isMimeChar_of_plain (char : Char)
    (plain : (char.isAlphanum || char == '.' || char == ' ') = true) : isMimeChar char = true := by
  have reading (char : Char) : char.val.toNat = char.toNat := rfl
  have bounds : 'A'.toNat = 65 ∧ 'Z'.toNat = 90 ∧ 'a'.toNat = 97 ∧ 'z'.toNat = 122 ∧
      '0'.toNat = 48 ∧ '9'.toNat = 57 := by decide
  simp only [Char.isAlphanum, Char.isAlpha, Char.isUpper, Char.isLower, Char.isDigit,
    Bool.or_eq_true, Bool.and_eq_true, decide_eq_true_eq, beq_iff_eq, ge_iff_le,
    UInt32.le_iff_toNat_le, reading] at plain
  simp only [isMimeChar, Bool.and_eq_true, decide_eq_true_eq]
  obtain (((capital | small) | digit) | rfl) | rfl := plain
  · omega
  · omega
  · omega
  · decide
  · decide

/-- A character that is a control is masked. -/
theorem isConfusable_of_isControl (char : Char) (control : Text.isControl char = true) :
    isConfusable char = true := by
  simp only [Text.isControl] at control
  simp only [isConfusable, control, Bool.true_or]

/-- The type of a copy that passes is printable. -/
theorem isMimeChar_of_check (copy : Copy Hash) (checked : copy.check = .ok ()) :
    ∀ char ∈ copy.selection.primary.mime.toList, isMimeChar char = true := by
  simp only [check, ensure_bind_ok_iff, Bool.and_eq_true, List.all_eq_true] at checked
  have usable := checked.2.1.2 copy.selection.primary List.mem_cons_self
  simp only [isUsableType, Bool.and_eq_true, List.all_eq_true] at usable
  exact usable.2

/-- The line for what is not text is printable. -/
theorem isMimeChar_of_described (mime size : String)
    (typed : ∀ char ∈ mime.toList, isMimeChar char = true)
    (sized : ∀ char ∈ size.toList, isMimeChar char = true) :
    ∀ char ∈ ("<" ++ mime ++ ", " ++ size ++ ">").toList, isMimeChar char = true := by
  have opening : "<".toList = ['<'] := rfl
  have comma : ", ".toList = [',', ' '] := rfl
  have closing : ">".toList = ['>'] := rfl
  intro char member
  simp only [String.toList_append, opening, comma, closing, List.mem_append,
    List.mem_cons, List.not_mem_nil, or_false] at member
  obtain (((rfl | inMime) | rfl | rfl) | inSize) | rfl := member
  · decide
  · exact typed char inMime
  · decide
  · decide
  · exact sized char inSize
  · decide

/-- A preview is one short safe line. For every copy that passes its check the preview does
not panic, and nothing in it would be masked, so that it has no line break and no control
character. A secret is shown as one constant line. A text is shown as at most 72 characters
and the marks. -/
theorem preview_is_one_safe_line (byteSize : Nat → String) (plainly : PrintsPlainly byteSize)
    (copy : Copy Hash) (checked : copy.check = .ok ()) :
    ∃ line, copy.preview byteSize = some line ∧
      (∀ char ∈ line.toList, isConfusable char = false ∧ Text.isControl char = false) ∧
      (copy.secret = true → line = "<secret>") ∧
      (copy.secret = false → Mime.isText copy.selection.primary.mime = true →
        ∃ shown marks, line.toList = shown ++ marks ∧ shown.length ≤ 72 ∧
          marks ∈ [[], ['…'], [' ', '⏎'], ['…', ' ', '⏎']]) := by
  have uncontrolled (char : Char) (safe : isConfusable char = false) :
      isConfusable char = false ∧ Text.isControl char = false := by
    refine ⟨safe, ?_⟩
    cases control : Text.isControl char with
    | false => rfl
    | true => exact absurd (isConfusable_of_isControl char control) (by simp [safe])
  cases secret : copy.secret with
  | true =>
    refine ⟨"<secret>", by rw [preview, if_pos secret], ?_, fun _ => rfl, by rintro ⟨⟩⟩
    intro char member
    exact uncontrolled char (Text.each_of_any isConfusable _ (by decide) char member)
  | false =>
    have shown : copy.preview byteSize = if !Mime.isText copy.selection.primary.mime then
        some ("<" ++ copy.selection.primary.mime ++ ", " ++
          byteSize copy.selection.primary.bytes.length ++ ">")
      else (previewText copy.selection.primary.bytes).map String.ofList := by
      rw [preview, if_neg (by rw [secret]; exact Bool.false_ne_true)]
    cases isText : Mime.isText copy.selection.primary.mime with
    | true =>
      obtain ⟨line, marks, previews, short, safe, listed⟩ :=
        previewText_eq copy.selection.primary.bytes
      rw [isText, previews] at shown
      refine ⟨String.ofList (line ++ marks), shown, ?_, by rintro ⟨⟩,
        fun _ _ => ⟨line, marks, String.toList_ofList, short, listed⟩⟩
      intro char member
      rw [String.toList_ofList, List.mem_append] at member
      apply uncontrolled
      obtain inLine | inMarks := member
      · exact safe char inLine
      · have clean : ∀ marks ∈ [[], ['…'], [' ', '⏎'], ['…', ' ', '⏎']],
            marks.any isConfusable = false := by decide
        exact Text.each_of_any isConfusable marks (clean marks listed) char inMarks
    | false =>
      rw [isText] at shown
      refine ⟨_, shown, ?_, by rintro ⟨⟩, by rintro _ ⟨⟩⟩
      intro char member
      apply uncontrolled
      apply isConfusable_of_isMimeChar
      exact isMimeChar_of_described _ _ (isMimeChar_of_check copy checked)
        (fun char member => isMimeChar_of_plain char (plainly _ char member)) char member

/-- Prints bytes as bytes, as it is done for sizes below a thousand. -/
def inBytes (size : Nat) : String := size.repr ++ " B"

/-- A number of bytes may be printed as it is. -/
theorem inBytes_printsPlainly : PrintsPlainly inBytes := by
  have unit : " B".toList = [' ', 'B'] := rfl
  intro size char member
  simp only [inBytes, String.toList_append, unit, Nat.toList_repr, List.mem_append,
    List.mem_cons, List.not_mem_nil, or_false] at member
  obtain inDigits | rfl | rfl := member
  · have digit := Nat.isDigit_of_mem_toDigits (by decide) (by decide) inDigits
    simp [Char.isAlphanum, digit]
  · decide
  · decide

/-- Two lines of text, the first with a bell in it, and an image of three bytes. The bell is
replaced, and the sign at the end says that there are more lines. -/
theorem preview_is_one_safe_line_of_two_kinds :
    let text : Copy Bytes := {
      selection := {
        primary := { mime := Mime.plainText, bytes := Files.utf8 "one\x07\ntwo" }, alternates := [] }
      secret := false, ttl := none, files := [] }
    let image : Copy Bytes := {
      selection := { primary := { mime := "image/png", bytes := [1, 2, 3] }, alternates := [] }
      secret := false, ttl := none, files := [] }
    (∃ line, text.preview inBytes = some line ∧ line.toList = "one? ⏎".toList ∧
      ∀ char ∈ line.toList, Text.isControl char = false) ∧
      ∃ line, image.preview inBytes = some line ∧ line = "<image/png, 3 B>" ∧
        ∀ char ∈ line.toList, Text.isControl char = false := by
  intro text image
  obtain ⟨line, shows, safe, -, -⟩ :=
    preview_is_one_safe_line inBytes inBytes_printsPlainly text (by decide +kernel)
  obtain ⟨described, showsImage, safeImage, -, -⟩ :=
    preview_is_one_safe_line inBytes inBytes_printsPlainly image (by decide +kernel)
  have shown : text.preview inBytes = some "one? ⏎" := by decide +kernel
  have shownImage : image.preview inBytes = some "<image/png, 3 B>" := by decide +kernel
  obtain rfl := Option.some.inj (shows.symm.trans shown)
  obtain rfl := Option.some.inj (showsImage.symm.trans shownImage)
  exact ⟨⟨_, shows, rfl, fun char member => (safe char member).2⟩,
    ⟨_, showsImage, rfl, fun char member => (safeImage char member).2⟩⟩

end Copy

end Yank
