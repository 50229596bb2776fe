import Yank.Preview
import Yank.Walk

/-!
# Arguments in a unit file

A service that is installed for a directory of its own has the directory on the `ExecStart`
line of its unit. What systemd reads there is no plain text: it expands specifiers in the
whole value, splits it at unquoted blanks, and replaces references to the environment in
every argument but the program. Quoting is right as far as reading undoes it.

The reader has the three layers in this order, for every specifier and every environment.
-/

namespace Yank

namespace Service

/-- Why an argument cannot be quoted. -/
inductive QuoteFailure where
  | notUtf8
  | controlCharacters
deriving DecidableEq

/-- The text of an error; `arg` is the argument as it is printed for debugging. -/
def QuoteFailure.text (arg : String) : QuoteFailure → String
  | .notUtf8 => arg ++ " is not valid UTF-8"
  | .controlCharacters =>
      arg ++ " contains control characters, which a unit file cannot hold"

/-- What one character is written as between quotes. -/
def quoteChar (char : Char) : List Char :=
  if char = '"' ∨ char = '\\' then ['\\', char]
  else if char = '%' then ['%', '%']
  else [char]

/-- Quotes one argument of an `ExecStart` line. -/
def quote (arg : Bytes) : Except QuoteFailure String := do
  let text ← (Files.toStr arg).elim (.error .notUtf8) .ok
  ensure (!text.toList.any Text.isControl) .controlCharacters
  return String.ofList ('"' :: text.toList.flatMap quoteChar ++ ['"'])

end Service

namespace Systemd

/-- Expands specifiers: `%%` is a percent sign, and `%` before any other character stands for
whatever the specifier does. -/
def expand (specifier : Char → List Char) : List Char → List Char
  | '%' :: '%' :: rest => '%' :: expand specifier rest
  | '%' :: char :: rest => specifier char ++ expand specifier rest
  | char :: rest => char :: expand specifier rest
  | [] => []

/-- Splits at unquoted blanks, after some characters of a word or between two words. Double
quotes group, and a backslash escapes a quote or a backslash; `none` for a quote that is not
closed and for any other backslash. -/
def split (word : Option (List Char)) (quoted : Bool) : List Char → Option (List (List Char))
  | [] => if quoted then none else some word.toList
  | '\\' :: '\\' :: rest => split (some (word.getD [] ++ ['\\'])) quoted rest
  | '\\' :: '"' :: rest => split (some (word.getD [] ++ ['"'])) quoted rest
  | '\\' :: _ => none
  | '"' :: rest => split (some (word.getD [])) (!quoted) rest
  | char :: rest =>
      if !quoted && char ∈ [' ', '\t', '\n', '\r'] then
        (split none false rest).map (fun words => word.toList ++ words)
      else split (some (word.getD [] ++ [char])) quoted rest

/-- Whether a character can be in the name of a variable. -/
def isNameChar (char : Char) : Bool := char.isAlphanum || char == '_'

/-- The name of a variable does not start with a digit. -/
def isName (name : List Char) : Bool :=
  name.all isNameChar && name.head?.any (fun char => !char.isDigit)

/-- What a dollar sign can stand for, together with what follows. -/
inductive Reference where
  | dollar
  | variable (name : List Char)
deriving DecidableEq

/-- The text a reference is replaced by. -/
def Reference.value (environment : List Char → List Char) : Reference → List Char
  | .dollar => ['$']
  | .variable name => environment name

/-- The reference that a dollar sign starts before a text, and what follows it: `$$`, `$NAME`
or `${NAME}`. -/
def reference : List Char → Option (Reference × List Char)
  | '$' :: rest => some (.dollar, rest)
  | '\x7b' :: rest =>
      match rest.dropWhile isNameChar with
      | '\x7d' :: after =>
          if isName (rest.takeWhile isNameChar) then
            some (.variable (rest.takeWhile isNameChar), after)
          else none
      | _ => none
  | rest =>
      if isName (rest.takeWhile isNameChar) then
        some (.variable (rest.takeWhile isNameChar), rest.dropWhile isNameChar)
      else none

/-- Replaces at most as many characters and references as there is fuel. -/
def substituteFrom (environment : List Char → List Char) : Nat → List Char → List Char
  | _, [] => []
  | 0, _ :: _ => []
  | fuel + 1, char :: rest =>
      match if char = '$' then reference rest else none with
      | some (found, after) => found.value environment ++ substituteFrom environment fuel after
      | none => char :: substituteFrom environment fuel rest

/-- Replaces every reference in an argument by its value. -/
def substitute (environment : List Char → List Char) (text : List Char) : List Char :=
  substituteFrom environment text.length text

/-- The arguments after the program on an `ExecStart` line. -/
def arguments (specifier : Char → List Char) (environment : List Char → List Char)
    (line : String) : Option (List String) :=
  (split none false (expand specifier line.toList)).map
    (fun words => words.tail.map (fun word => String.ofList (substitute environment word)))

/-- What one character of a quoted argument is once specifiers are expanded. -/
def escapeChar (char : Char) : List Char :=
  if char = '"' ∨ char = '\\' then ['\\', char] else [char]

/-- What is no percent sign stands for itself. -/
theorem expand_cons (specifier : Char → List Char) (char : Char) (rest : List Char)
    (plain : char ≠ '%') : expand specifier (char :: rest) = char :: expand specifier rest := by
  rw [expand]
  · rintro _ rfl
    exact absurd rfl plain
  · rintro _ _ rfl
    exact absurd rfl plain

/-- Expanding specifiers finds none in a quoted argument. The induction is on the text: a percent
sign is doubled when it is quoted, and a doubled one expands to one. -/
theorem expand_quoted (specifier : Char → List Char) (text rest : List Char) :
    expand specifier (text.flatMap Service.quoteChar ++ rest) =
      text.flatMap escapeChar ++ expand specifier rest := by
  induction text with
  | nil => rfl
  | cons char text inductionHypothesis =>
    rw [List.flatMap_cons, List.flatMap_cons, List.append_assoc, List.append_assoc,
      ← inductionHypothesis]
    by_cases special : char = '"' ∨ char = '\\'
    · have plain : char ≠ '%' := by
        rintro rfl
        revert special
        decide
      rw [Service.quoteChar, if_pos special, escapeChar, if_pos special]
      simp only [List.cons_append, List.nil_append]
      rw [expand_cons specifier _ _ (by decide), expand_cons specifier _ _ plain]
    · rw [Service.quoteChar, if_neg special, escapeChar, if_neg special]
      by_cases percent : char = '%'
      · subst percent
        rfl
      · rw [if_neg percent]
        exact expand_cons specifier char _ percent

/-- Within quotes, a character goes on the word unless it ends them or escapes another. -/
theorem split_cons (word : List Char) (char : Char) (rest : List Char) (open_quote : char ≠ '"')
    (escape : char ≠ '\\') :
    split (some word) true (char :: rest) = split (some (word ++ [char])) true rest := by
  rw [split]
  · rfl
  · rintro _ rfl
    exact absurd rfl escape
  · rintro _ rfl
    exact absurd rfl escape
  · rintro rfl
    exact absurd rfl escape
  · rintro rfl
    exact absurd rfl open_quote

/-- Splitting undoes the escapes, up to the closing quote. The induction is on the text: an
escaped character is taken as it is, and the first bare quote ends the word. -/
theorem split_quoted (word text rest : List Char) :
    split (some word) true (text.flatMap escapeChar ++ '"' :: rest) =
      split (some (word ++ text)) false rest := by
  induction text generalizing word with
  | nil =>
    rw [List.append_nil]
    rfl
  | cons char text inductionHypothesis =>
    have further := inductionHypothesis (word ++ [char])
    rw [List.append_assoc, List.singleton_append] at further
    rw [List.flatMap_cons, List.append_assoc, ← further, escapeChar]
    by_cases quotes : char = '"'
    · subst quotes
      rfl
    · by_cases escapes : char = '\\'
      · subst escapes
        rfl
      · rw [if_neg (by simp [quotes, escapes])]
        exact split_cons word char _ quotes escapes

/-- No dollar sign in the text starts a reference. -/
def NoReference (text : List Char) : Prop :=
  ∀ before after, text = before ++ '$' :: after → reference after = none

/-- A text has no reference if none starts in front and none further on. A reference starts at a
dollar sign, so it starts at the first character or in the rest. -/
theorem noReference_cons_iff (char : Char) (rest : List Char) :
    NoReference (char :: rest) ↔
      (if char = '$' then reference rest else none) = none ∧ NoReference rest := by
  constructor
  · intro none_at
    refine ⟨?_, fun before after split => none_at (char :: before) after (by rw [split]; rfl)⟩
    split
    · subst char
      exact none_at [] rest rfl
    · rfl
  · rintro ⟨here, later⟩ before after split
    cases before with
    | nil =>
      obtain ⟨rfl, rfl⟩ := List.cons.inj split
      simpa using here
    | cons first before => exact later before after (List.cons.inj split).2

/-- What a reference is replaced by where every variable is empty, and what follows it, is
shorter than the reference and what follows it. -/
theorem reference_length (rest after : List Char) (found : Reference)
    (refers : reference rest = some (found, after)) :
    (found.value (fun _ => [])).length + after.length ≤ rest.length := by
  unfold reference at refers
  split at refers
  · cases refers
    simp [Reference.value, Nat.add_comm]
  · rename_i inner
    split at refers
    · rename_i closed
      simp only [Option.ite_none_right_eq_some, Option.some.injEq, Prod.mk.injEq] at refers
      obtain ⟨_, rfl, rfl⟩ := refers
      have shorter := List.length_dropWhile_le isNameChar inner
      rw [closed, List.length_cons] at shorter
      simp only [Reference.value, List.length_nil, List.length_cons]
      omega
    · cases refers
  · simp only [Option.ite_none_right_eq_some, Option.some.injEq, Prod.mk.injEq] at refers
    obtain ⟨_, rfl, rfl⟩ := refers
    simpa [Reference.value] using List.length_dropWhile_le isNameChar rest

/-- There is fuel for a text without references, and it stays as it is. -/
theorem substituteFrom_eq (environment : List Char → List Char) (fuel : Nat) (text : List Char)
    (enough : text.length ≤ fuel) (no_reference : NoReference text) :
    substituteFrom environment fuel text = text := by
  induction text generalizing fuel with
  | nil => cases fuel <;> rfl
  | cons char rest inductionHypothesis =>
    obtain ⟨here, later⟩ := (noReference_cons_iff char rest).mp no_reference
    cases fuel with
    | zero => cases enough
    | succ fuel =>
      rw [substituteFrom, here]
      exact congrArg (char :: ·) (inductionHypothesis fuel (Nat.le_of_succ_le_succ enough) later)

/-- Where every variable is empty, a text does not get longer. The induction is on the fuel: a
reference is replaced by nothing, and any other character by itself. -/
theorem substituteFrom_length_le (fuel : Nat) (text : List Char) :
    (substituteFrom (fun _ => []) fuel text).length ≤ text.length := by
  induction fuel generalizing text with
  | zero => cases text <;> simp [substituteFrom]
  | succ fuel inductionHypothesis =>
    cases text with
    | nil => rfl
    | cons char rest =>
      rw [substituteFrom]
      cases refers : (if char = '$' then reference rest else none) with
      | none => exact Nat.succ_le_succ (inductionHypothesis rest)
      | some found =>
        obtain ⟨found, after⟩ := found
        have begins := (Option.ite_none_right_eq_some.mp refers).2
        have shorter := reference_length rest after found begins
        have bound := inductionHypothesis after
        simp only [List.length_append, List.length_cons]
        omega

/-- Where every variable is empty, only a text without references stays as it is. A reference that
expands to nothing makes the text shorter, so there is none. -/
theorem noReference_of_eq (fuel : Nat) (text : List Char) (enough : text.length ≤ fuel)
    (same : substituteFrom (fun _ => []) fuel text = text) : NoReference text := by
  induction text generalizing fuel with
  | nil =>
    intro before after split
    cases before <;> cases split
  | cons char rest inductionHypothesis =>
    cases fuel with
    | zero => cases enough
    | succ fuel =>
      rw [noReference_cons_iff]
      rw [substituteFrom] at same
      cases refers : (if char = '$' then reference rest else none) with
      | none =>
        rw [refers] at same
        exact ⟨rfl, inductionHypothesis fuel (Nat.le_of_succ_le_succ enough) (List.cons.inj same).2⟩
      | some found =>
        obtain ⟨found, after⟩ := found
        rw [refers] at same
        have begins := (Option.ite_none_right_eq_some.mp refers).2
        have shorter := reference_length rest after found begins
        have bound := substituteFrom_length_le fuel after
        have lengths := congrArg List.length same
        simp only [List.length_append, List.length_cons] at lengths
        omega

/-- A text is the same in every environment if and only if there is no reference in it. -/
theorem substitute_eq_iff (text : List Char) :
    (∀ environment, substitute environment text = text) ↔ NoReference text := by
  constructor
  · intro same
    exact noReference_of_eq text.length text le_rfl (same (fun _ => []))
  · intro no_reference environment
    exact substituteFrom_eq environment text.length text le_rfl no_reference

end Systemd

namespace Service

open Systemd

/-- An argument without control characters is quoted. -/
theorem quote_eq (text : String) (clean : ∀ char ∈ text.toList, Text.isControl char = false) :
    quote (Files.utf8 text) =
      .ok (String.ofList ('"' :: text.toList.flatMap quoteChar ++ ['"'])) := by
  have none_of : text.toList.any Text.isControl = false := by
    rw [List.any_eq_false]
    intro char member
    rw [clean char member]
    exact Bool.false_ne_true
  rw [quote, Files.toStr_utf8]
  change (ensure (!text.toList.any Text.isControl) QuoteFailure.controlCharacters >>= fun _ =>
    pure (String.ofList ('"' :: text.toList.flatMap quoteChar ++ ['"']))) = _
  rw [none_of]
  rfl

/-- Reading a quoted program and one quoted argument gives the argument, with the references
in it replaced. -/
theorem arguments_quoted (specifier : Char → List Char) (environment : List Char → List Char)
    (program text : List Char) :
    arguments specifier environment
        (String.ofList ('"' :: program.flatMap quoteChar ++ ['"']) ++ " " ++
          String.ofList ('"' :: text.flatMap quoteChar ++ ['"'])) =
      some [String.ofList (substitute environment text)] := by
  have blank : " ".toList = [' '] := rfl
  have line : (String.ofList ('"' :: program.flatMap quoteChar ++ ['"']) ++ " " ++
      String.ofList ('"' :: text.flatMap quoteChar ++ ['"'])).toList =
      '"' :: (program.flatMap quoteChar ++
        '"' :: ' ' :: '"' :: (text.flatMap quoteChar ++ ['"'])) := by
    simp [String.toList_append, blank]
  have expanded : expand specifier ('"' :: (program.flatMap quoteChar ++
      '"' :: ' ' :: '"' :: (text.flatMap quoteChar ++ ['"']))) =
      '"' :: (program.flatMap escapeChar ++
        '"' :: ' ' :: '"' :: (text.flatMap escapeChar ++ ['"'])) := by
    have plain (char : Char) (rest : List Char) (other : char ≠ '%') :=
      expand_cons specifier char rest other
    rw [plain _ _ (by decide), expand_quoted, plain _ _ (by decide), plain _ _ (by decide),
      plain _ _ (by decide), expand_quoted]
    rfl
  have second : split none false ('"' :: (text.flatMap escapeChar ++ ['"'])) = some [text] := by
    change split (some []) true _ = _
    rw [split_quoted]
    rfl
  have first : split none false ('"' :: (program.flatMap escapeChar ++
      '"' :: ' ' :: '"' :: (text.flatMap escapeChar ++ ['"']))) = some [program, text] := by
    change split (some []) true _ = _
    rw [split_quoted]
    change (split none false ('"' :: (text.flatMap escapeChar ++ ['"']))).map _ = _
    rw [second]
    rfl
  rw [arguments, line, expanded, first]
  rfl

/-- Quoting a unit file's argument is faithful for a text without references. For every
program and every text without control characters, both are quoted, and the text is read back
as the one argument after the program, whatever the specifiers and the environment, if and
only if no dollar sign in it comes before another one, a name or a name in braces. -/
theorem quote_reads_back_iff (program text : String)
    (program_clean : ∀ char ∈ program.toList, Text.isControl char = false)
    (text_clean : ∀ char ∈ text.toList, Text.isControl char = false) :
    ∃ first second, quote (Files.utf8 program) = .ok first ∧ quote (Files.utf8 text) = .ok second ∧
      ((∀ specifier environment,
          arguments specifier environment (first ++ " " ++ second) = some [text]) ↔
        NoReference text.toList) := by
  refine ⟨_, _, quote_eq program program_clean, quote_eq text text_clean, ?_⟩
  simp only [arguments_quoted, Option.some.injEq, List.cons.injEq, and_true]
  rw [← substitute_eq_iff]
  constructor
  · intro same environment
    rw [← String.toList_ofList (l := substitute environment text.toList),
      same (fun _ => []) environment]
  · intro same _ environment
    rw [same environment, String.ofList_toList]

/-- A directory with a blank, quotes, a percent sign and a dollar sign before a slash. -/
theorem quote_reads_back_of_specials :
    ∃ first second, quote (Files.utf8 "/opt/yank") = .ok first ∧
      quote (Files.utf8 "/my \"$/%h") = .ok second ∧
        ∀ specifier environment,
          arguments specifier environment (first ++ " " ++ second) = some ["/my \"$/%h"] := by
  obtain ⟨first, second, program, text, reads_iff⟩ :=
    quote_reads_back_iff "/opt/yank" "/my \"$/%h" (Text.each_of_any _ _ (by decide))
      (Text.each_of_any _ _ (by decide))
  refine ⟨first, second, program, text, reads_iff.mpr ?_⟩
  rw [← substitute_eq_iff]
  intro environment
  rfl

/-- Two dollar signs are read back as one. -/
theorem dollars_are_not_escaped :
    ¬ ∃ first second, quote (Files.utf8 "/opt/yank") = .ok first ∧
      quote (Files.utf8 "/srv/a$$b") = .ok second ∧
        ∀ specifier environment,
          arguments specifier environment (first ++ " " ++ second) = some ["/srv/a$$b"] := by
  rintro ⟨first, second, program, text, reads⟩
  rw [quote_eq "/opt/yank" (Text.each_of_any _ _ (by decide))] at program
  rw [quote_eq "/srv/a$$b" (Text.each_of_any _ _ (by decide))] at text
  obtain rfl := Except.ok.inj program
  obtain rfl := Except.ok.inj text
  have same := reads (fun _ => []) (fun _ => [])
  rw [arguments_quoted] at same
  revert same
  decide

end Service

end Yank
