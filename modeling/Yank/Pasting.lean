import Yank.Preview
import Yank.Reoffering
import Yank.UriList

/-!
# Pasting in a terminal and in an application

`yank paste` looks a type up among the representations of the clip, an application asks the
compositor for one of the types that were announced for it. The first goes by the name a
representation has, the second by every name it was announced under, and text is announced under
all names for text, by whichever representation is text and comes first.
-/

namespace Yank

namespace Mime

/-- A representation is announced under a name for plain text exactly when it is text. A type that
is text announces every name for plain text, and one that is not announces its own name alone. -/
theorem goesBy_alias (mime name : String) (named : isTextAlias name = true) :
    (aliases mime).any (fun own => eqIgnoreAsciiCase own name) = announcesText mime := by
  cases text : announcesText mime with
  | false =>
    rw [aliases_other mime text, List.any_cons, List.any_nil, Bool.or_false, Bool.eq_false_iff]
    intro same
    rw [eqIgnoreAsciiCase_symm] at same
    have own := announcesText_of_alias mime (isTextAlias_congr name mime same named)
    rw [text] at own
    cases own
  | true =>
    obtain ⟨known, among, same⟩ := (isTextAlias_iff name).mp named
    rw [List.any_eq_true]
    have split : isLocal mime = false ∧ isText mime = true := by
      simpa [announcesText, and_comm] using text
    rw [aliases, split.1, split.2]
    cases own : eqIgnoreAsciiCase known mime with
    | true =>
      refine ⟨mime, List.mem_cons_self, ?_⟩
      rw [eqIgnoreAsciiCase_symm] at own
      exact eqIgnoreAsciiCase_trans mime known name own same
    | false =>
      refine ⟨known, List.mem_cons_of_mem _ (List.mem_filter.mpr ⟨among, ?_⟩), same⟩
      rw [own]
      rfl

/-- Under any other name it is announced only if the name is its own. The names for plain text are
apart from it, so no type that is text announces it. -/
theorem goesBy_other (mime name : String) (other : isTextAlias name = false) :
    (aliases mime).any (fun own => eqIgnoreAsciiCase own name) = eqIgnoreAsciiCase mime name := by
  have apart : ∀ known ∈ text, eqIgnoreAsciiCase known name = false := by
    intro known among
    rw [Bool.eq_false_iff]
    intro same
    rw [(isTextAlias_iff name).mpr ⟨known, among, same⟩] at other
    cases other
  rw [aliases]
  split
  case isTrue => simp
  case isFalse =>
    rw [List.any_cons]
    have none : (text.filter (fun known => !eqIgnoreAsciiCase known mime)).any
        (fun own => eqIgnoreAsciiCase own name) = false := by
      rw [List.any_eq_false]
      intro known among
      rw [apart known (List.mem_of_mem_filter among)]
      exact Bool.false_ne_true
    rw [none, Bool.or_false]

end Mime

/-- An entry announces a name. -/
def announces (mime : String) (serve : Serve) : Bool :=
  serve.mimes.any (fun name => Mime.eqIgnoreAsciiCase name mime)

/-- A representation goes by a name. -/
def goesBy (mime : String) (rep : Rep) : Bool :=
  (Mime.aliases rep.mime).any (fun name => Mime.eqIgnoreAsciiCase name mime)

/-- By a name for plain text goes whatever is text. -/
theorem goesBy_named (mime : String) (named : Mime.isTextAlias mime = true) :
    goesBy mime = fun rep => Mime.announcesText rep.mime :=
  funext fun rep => Mime.goesBy_alias rep.mime mime named

/-- By any other name goes what has it. -/
theorem goesBy_unnamed (mime : String) (other : Mime.isTextAlias mime = false) :
    goesBy mime = fun rep => Mime.eqIgnoreAsciiCase rep.mime mime :=
  funext fun rep => Mime.goesBy_other rep.mime mime other

/-- The first entry to announce a name has the bytes of the first representation to go by it. The
induction is on the representations and carries the entries so far: a name that one of them
announces is left out of all that follow. -/
theorem find_servesFrom (mime : String) (reps : List Rep) (serves : List Serve) :
    ((servesFrom reps serves).find? (announces mime)).map Serve.bytes =
      ((serves.find? (announces mime)).map Serve.bytes).or
        ((reps.find? (goesBy mime)).map Rep.bytes) := by
  induction reps generalizing serves with
  | nil => simp [servesFrom]
  | cons rep reps inductionHypothesis =>
    cases before : serves.find? (announces mime) with
    | some serve =>
      obtain ⟨more, all⟩ := servesFrom_prefix (rep :: reps) serves
      rw [all, List.find?_append, before]
      rfl
    | none =>
      -- Nothing is announced under the name yet, so no name like it was left out.
      have fresh : ((Mime.aliases rep.mime).filter (fun name =>
          !serves.any (fun serve => serve.mimes.contains name))).any
            (fun name => Mime.eqIgnoreAsciiCase name mime) = goesBy mime rep := by
        rw [goesBy, Bool.eq_iff_iff, List.any_eq_true, List.any_eq_true]
        constructor
        · rintro ⟨name, among, same⟩
          exact ⟨name, List.mem_of_mem_filter among, same⟩
        · rintro ⟨name, among, same⟩
          refine ⟨name, List.mem_filter.mpr ⟨among, ?_⟩, same⟩
          rw [Bool.not_eq_true', List.any_eq_false]
          intro serve member taken
          have silent := List.find?_eq_none.mp before serve member
          exact silent (List.any_eq_true.mpr ⟨name, List.contains_iff_mem.mp taken, same⟩)
      rw [servesFrom]
      split
      case isTrue empty =>
        have passed : goesBy mime rep = false := by
          rw [← fresh, empty]
          rfl
        rw [inductionHypothesis, before, List.find?_cons, passed]
      case isFalse =>
        rw [inductionHypothesis, List.find?_append, before, List.find?_cons, List.find?_cons]
        rw [announces, fresh]
        cases goesBy mime rep with
        | true => rfl
        | false => rfl

namespace Selection

/-- The representation offered under a type, with all the others. -/
def findRep (mime : String) : List Rep → Option (Rep × List Rep)
  | [] => none
  | rep :: reps =>
      if Mime.eqIgnoreAsciiCase rep.mime mime then some (rep, reps)
      else (findRep mime reps).map (fun (found, others) => (found, rep :: others))

/-- Whoever asks for text by one of its names means the first text there is, or gets the same
bytes. -/
def TextFirst (selection : Selection) : Prop :=
  ∀ mime rep, Mime.isTextAlias mime = true → selection.rep mime = some rep →
    ∃ first, textRep selection = some first ∧ first.bytes = rep.bytes

/-- A selection as this program makes one: captured from what was offered, as far as it could be
read and fits, copied under one type, or naming files. -/
inductive MadeHere : Selection → Prop where
  | captured (offered ignore : List String) (selection : Selection)
      (chosen : (selection.reps.map Rep.mime).Sublist (Mime.select offered ignore)) :
      MadeHere selection
  | copied (rep : Rep) : MadeHere (.of rep)
  | copiedFiles (paths : List Path) : MadeHere (.ofFiles paths)

/-- What is pasted is one of the representations, and the others are all there are besides. The
induction is on the representations: the first that answers is taken out, and the order of the
others stays. -/
theorem findRep_split (mime : String) (reps : List Rep) (found : Rep) (others : List Rep)
    (answered : findRep mime reps = some (found, others)) :
    ∃ early late, reps = early ++ found :: late ∧ others = early ++ late := by
  induction reps generalizing others with
  | nil => cases answered
  | cons rep reps inductionHypothesis =>
    rw [findRep] at answered
    split at answered
    case isTrue =>
      cases answered
      exact ⟨[], reps, rfl, rfl⟩
    case isFalse =>
      obtain ⟨⟨found, rest⟩, later, same⟩ := Option.map_eq_some_iff.mp answered
      cases same
      obtain ⟨early, late, rfl, rfl⟩ := inductionHypothesis rest later
      exact ⟨rep :: early, late, rfl, rfl⟩

/-- What is found is the representation offered under the type. -/
theorem findRep_rep (mime : String) (reps : List Rep) :
    (findRep mime reps).map Prod.fst =
      reps.find? (fun rep => Mime.eqIgnoreAsciiCase rep.mime mime) := by
  induction reps with
  | nil => rfl
  | cons rep reps inductionHypothesis =>
    rw [findRep, List.find?_cons, ← inductionHypothesis]
    cases Mime.eqIgnoreAsciiCase rep.mime mime with
    | true => rfl
    | false =>
      cases findRep mime reps with
      | none => rfl
      | some found => rfl

/-- What is selected after the types already chosen is no name for plain text. The induction is on
the types that are offered; a name for plain text is passed over. -/
theorem selectRest_unnamed (ignore offered chosen : List String) :
    ∃ more, Mime.selectRest ignore offered chosen = chosen ++ more ∧
      ∀ mime ∈ more, Mime.isTextAlias mime = false := by
  have nothing : ∃ more, chosen = chosen ++ more ∧ ∀ mime ∈ more, Mime.isTextAlias mime = false :=
    ⟨[], (List.append_nil _).symm, by rintro mime ⟨⟩⟩
  induction offered generalizing chosen with
  | nil => exact nothing
  | cons other offered inductionHypothesis =>
    rw [Mime.selectRest]
    split
    case isTrue => exact nothing
    case isFalse =>
      split
      case isTrue => exact inductionHypothesis chosen nothing
      case isFalse carried =>
        split
        case isTrue => exact inductionHypothesis chosen nothing
        case isFalse =>
          obtain ⟨more, rest, unnamed⟩ := inductionHypothesis (chosen ++ [other])
            ⟨[], (List.append_nil _).symm, by rintro mime ⟨⟩⟩
          simp only [Bool.or_eq_true, not_or, Bool.not_eq_true] at carried
          refine ⟨other :: more, ?_, List.forall_mem_cons.mpr ⟨carried.1.2, unnamed⟩⟩
          rw [rest, List.append_assoc, List.singleton_append]

/-- A selection of this program has at most one representation under a name for plain text, and
that comes first. -/
theorem MadeHere.alternates {selection : Selection} (made : MadeHere selection) :
    ∀ rep ∈ selection.alternates, Mime.isTextAlias rep.mime = false := by
  cases made with
  | captured offered ignore selection chosen =>
    intro rep member
    rw [Selection.reps, List.map_cons, Mime.select] at chosen
    split at chosen
    case h_1 => cases chosen
    case h_2 first _ =>
      split at chosen
      case isTrue => cases chosen
      case isFalse =>
        obtain ⟨more, all, unnamed⟩ := selectRest_unnamed ignore offered [first]
        rw [all] at chosen
        exact unnamed rep.mime (chosen.tail.subset (List.mem_map_of_mem member))
  | copied rep =>
    intro other member
    cases member
  | copiedFiles paths =>
    intro rep member
    rw [ofFiles] at member
    simp only [List.mem_cons, List.not_mem_nil, or_false] at member
    obtain rfl | rfl := member
    · exact (by decide : Mime.isTextAlias Mime.uriList = false)
    · exact (by decide : Mime.isTextAlias Mime.gnomeCopiedFiles = false)

/-- Where no other representation goes by a name for plain text, those names mean the first text. -/
theorem textFirst_of_alternates (selection : Selection)
    (unnamed : ∀ rep ∈ selection.alternates, Mime.isTextAlias rep.mime = false) :
    selection.TextFirst := by
  intro mime rep named answered
  rw [Selection.rep, Selection.reps] at answered
  have same := List.find?_some answered
  have own : Mime.isTextAlias rep.mime = true := by
    rw [Mime.eqIgnoreAsciiCase_symm] at same
    exact Mime.isTextAlias_congr mime rep.mime same named
  obtain rfl | later := List.mem_cons.mp (List.mem_of_find?_eq_some answered)
  · refine ⟨_, ?_, rfl⟩
    rw [textRep, Selection.reps, List.find?_cons, Mime.announcesText_of_alias _ own]
  · rw [unnamed rep later] at own
    cases own

end Selection

namespace Clipboard

variable {Id Hash : Type} [LinearOrder Id]

/-- Why there is nothing to paste. -/
inductive PasteFailure where
  | empty
  /-- The type asked for, and those there are. -/
  | lacks (mime : String) (has : List String)
deriving DecidableEq

/-- What is said about it. -/
def PasteFailure.message : PasteFailure → String
  | .empty => "the clipboard is empty"
  | .lacks mime has =>
      "the clipboard has no " ++ String.ofList (sanitize mime.toList) ++ " in it; it has " ++
        ", ".intercalate has

/-- A representation that is pasted, and the other types there are. -/
structure Pasted where
  mime : String
  alternates : List String
  bytes : Bytes
deriving DecidableEq

def Pasted.of (found : Rep × List Rep) : Pasted where
  mime := found.1.mime
  alternates := found.2.map Rep.mime
  bytes := found.1.bytes

/-- One representation of the clipboard, its best type when none is asked for. -/
def paste (mime : Option String) (board : Clipboard Id Hash) : Except PasteFailure Pasted :=
  match board.current with
  | none => .error .empty
  | some (_, copy) =>
      match mime with
      | none => .ok (.of (copy.selection.primary, copy.selection.alternates))
      | some mime =>
          match Selection.findRep mime copy.selection.reps with
          | none => .error (.lacks mime (copy.selection.reps.map Rep.mime))
          | some found => .ok (.of found)

omit [LinearOrder Id] in
/-- A type is answered as the representation offered under it is. -/
theorem paste_iff (board : Clipboard Id Hash) (stamp : Stamp Id) (copy : Copy Hash)
    (held : board.current = some (stamp, copy)) (mime : String) (bytes : Bytes) :
    (∃ pasted, board.paste (some mime) = .ok pasted ∧ pasted.bytes = bytes) ↔
      ∃ rep, copy.selection.rep mime = some rep ∧ rep.bytes = bytes := by
  rw [paste, held, Selection.rep, ← Selection.findRep_rep]
  dsimp only
  cases Selection.findRep mime copy.selection.reps with
  | none => simp
  | some found => simp [Pasted.of]

omit [LinearOrder Id] in
/-- What is answered is asked for by the type of a representation. -/
theorem paste_answers_iff (board : Clipboard Id Hash) (stamp : Stamp Id) (copy : Copy Hash)
    (held : board.current = some (stamp, copy)) (mime : String) :
    (∃ pasted, board.paste (some mime) = .ok pasted) ↔
      ∃ rep ∈ copy.selection.reps, Mime.eqIgnoreAsciiCase rep.mime mime = true := by
  rw [← List.find?_isSome, ← Selection.rep, Option.isSome_iff_exists]
  constructor
  · rintro ⟨pasted, said⟩
    obtain ⟨rep, answered, _⟩ :=
      (paste_iff board stamp copy held mime pasted.bytes).mp ⟨pasted, said, rfl⟩
    exact ⟨rep, answered⟩
  · rintro ⟨rep, answered⟩
    obtain ⟨pasted, said, _⟩ :=
      (paste_iff board stamp copy held mime rep.bytes).mpr ⟨rep, answered, rfl⟩
    exact ⟨pasted, said⟩

omit [LinearOrder Id] in
/-- What is pasted is one of the representations, and the others are the rest. -/
theorem paste_split (board : Clipboard Id Hash) (stamp : Stamp Id) (copy : Copy Hash)
    (held : board.current = some (stamp, copy)) (mime : Option String) (pasted : Pasted)
    (said : board.paste mime = .ok pasted) :
    ∃ found others, (∃ early late, copy.selection.reps = early ++ found :: late ∧
      others = early ++ late) ∧ pasted = .of (found, others) := by
  rw [paste, held] at said
  cases mime with
  | none =>
    cases said
    exact ⟨copy.selection.primary, copy.selection.alternates, ⟨[], _, rfl, rfl⟩, rfl⟩
  | some mime =>
    dsimp only at said
    cases answered : Selection.findRep mime copy.selection.reps with
    | none =>
      rw [answered] at said
      cases said
    | some found =>
      rw [answered] at said
      cases said
      exact ⟨found.1, found.2, Selection.findRep_split mime _ _ _ answered, rfl⟩

/-- An application gets the bytes of the first representation to go by the type. -/
theorem offered_answers (board : Clipboard Id Hash) (copy : Copy Hash) (mime : String) (rep : Rep)
    (goes : (board.carried copy).reps.find? (goesBy mime) = some rep) :
    onSource (board.offered copy) mime = some rep.bytes := by
  have answered := find_servesFrom mime (board.carried copy).reps []
  rw [goes, List.find?_nil, Option.map_none, Option.none_or, Option.map_some] at answered
  obtain ⟨serve, found, same⟩ := Option.map_eq_some_iff.mp answered
  have first : (board.offered copy).find? (announces mime) = some serve := by
    rw [offered, List.find?_append, serves, found]
    rfl
  change (((board.offered copy).find? (announces mime)).or _).map Serve.bytes = _
  rw [first, Option.some_or, Option.map_some, same]

/-- The types answered in a terminal are those the copy was made with, in any case they are
written in. Where a copy means here what it meant where it was copied, each of them gives what an
application pastes under it, exactly if the names for plain text all mean the first text there is,
which they do in every selection this program makes. Whatever is pasted, it is said which types
there are besides, and each of them is answered. -/
theorem paste_agrees_with_applications_iff (board : Clipboard Id Hash) (stamp : Stamp Id)
    (copy : Copy Hash) (held : board.current = some (stamp, copy))
    (whole : board.carried copy = copy.selection) :
    (∀ mime, (∃ pasted, board.paste (some mime) = .ok pasted) ↔
        ∃ rep ∈ copy.selection.reps, Mime.eqIgnoreAsciiCase rep.mime mime = true) ∧
      ((∀ mime pasted, board.paste (some mime) = .ok pasted →
        onSource (board.offered copy) mime = some pasted.bytes) ↔ copy.selection.TextFirst) ∧
      (copy.selection.MadeHere → copy.selection.TextFirst) ∧
      ∀ mime pasted, board.paste mime = .ok pasted →
        (pasted.mime :: pasted.alternates).Perm (copy.selection.reps.map Rep.mime) ∧
          ∀ other ∈ pasted.alternates, ∃ answer, board.paste (some other) = .ok answer := by
  have answers : ∀ mime rep, copy.selection.reps.find? (goesBy mime) = some rep →
      onSource (board.offered copy) mime = some rep.bytes := by
    intro mime rep goes
    rw [← whole] at goes
    exact board.offered_answers copy mime rep goes
  refine ⟨board.paste_answers_iff stamp copy held, ⟨?_, ?_⟩,
    fun made => Selection.textFirst_of_alternates _ made.alternates, ?_⟩
  · intro agrees mime rep named answered
    obtain ⟨pasted, said, same⟩ :=
      (paste_iff board stamp copy held mime rep.bytes).mpr ⟨rep, answered, rfl⟩
    have alike : Mime.isTextAlias rep.mime = true := by
      have own := List.find?_some answered
      rw [Mime.eqIgnoreAsciiCase_symm] at own
      exact Mime.isTextAlias_congr mime rep.mime own named
    cases text : textRep copy.selection with
    | none =>
      have silent := List.find?_eq_none.mp text rep (List.mem_of_find?_eq_some answered)
      exact absurd (Mime.announcesText_of_alias rep.mime alike) silent
    | some first =>
      refine ⟨first, rfl, ?_⟩
      have gets := answers mime first (by rw [goesBy_named mime named, ← text, textRep])
      rw [agrees mime pasted said, same] at gets
      exact (Option.some.inj gets).symm
  · intro textFirst mime pasted said
    obtain ⟨rep, answered, same⟩ :=
      (paste_iff board stamp copy held mime pasted.bytes).mp ⟨pasted, said, rfl⟩
    cases named : Mime.isTextAlias mime with
    | false =>
      rw [← same]
      refine answers mime rep ?_
      rw [goesBy_unnamed mime named]
      exact answered
    | true =>
      obtain ⟨first, text, bytes⟩ := textFirst mime rep named answered
      rw [← same, ← bytes]
      refine answers mime first ?_
      rw [goesBy_named mime named]
      exact text
  · intro mime pasted said
    obtain ⟨found, others, reps, rfl⟩ := paste_split board stamp copy held mime pasted said
    refine ⟨?_, ?_⟩
    · have perm : (found :: others).Perm copy.selection.reps := by
        obtain ⟨early, late, all, rfl⟩ := reps
        rw [all]
        exact List.perm_middle.symm
      exact perm.map Rep.mime
    · intro other listed
      obtain ⟨rep, member, rfl⟩ := List.mem_map.mp listed
      obtain ⟨early, late, all, rfl⟩ := reps
      have there : rep ∈ copy.selection.reps := by
        rw [all]
        obtain before | after := List.mem_append.mp member
        · exact List.mem_append_left _ before
        · exact List.mem_append_right _ (List.mem_cons_of_mem _ after)
      exact (board.paste_answers_iff stamp copy held rep.mime).mpr
        ⟨rep, there, Mime.eqIgnoreAsciiCase_refl rep.mime⟩

/-- Markup before the text it stands for, as no copy made by this program has it. -/
def markupFirst : Copy Bytes where
  selection := {
    primary := { mime := "text/html", bytes := [60, 98, 62, 104] }
    alternates := [{ mime := "text/plain", bytes := [104] }] }
  secret := false
  ttl := none
  files := []

/-- It came from another machine, was saved here and read again. -/
def resumed : Clipboard Nat Bytes :=
  .new { stamp := 0, believed := 0, set := 0, lapse := 0 } 0 Settings.default
    (some { stamp := { millis := 5, origin := 1 }, copy := some markupFirst })

/-- A clip that came with its markup first is pasted in a terminal as it is not in an
application. -/
theorem paste_agrees_with_applications_iff_markup :
    ¬ ∀ mime pasted, resumed.paste (some mime) = .ok pasted →
      onSource (resumed.offered markupFirst) mime = some pasted.bytes := by
  rw [(paste_agrees_with_applications_iff resumed { millis := 5, origin := 1 } markupFirst
    (by decide) (by decide)).2.1]
  intro textFirst
  obtain ⟨first, found, same⟩ := textFirst "Text/Plain" { mime := "text/plain", bytes := [104] }
    (by decide) (by decide)
  have markup : textRep markupFirst.selection =
      some { mime := "text/html", bytes := [60, 98, 62, 104] } := by
    decide
  rw [markup] at found
  obtain rfl := Option.some.inj found
  exact absurd same (by decide)

end Clipboard

end Yank
