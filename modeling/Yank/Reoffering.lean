import Yank.Clipboard

/-!
# What is announced, captured again

Which types a selection is captured under and which it is announced under are one policy
in two directions. Text is announced under every name for plain text by the first
representation that is text; everything else under its own type. Read back, a selection is
what its best plain text is, and failing that its first type with content.

Both directions agree as long as the first text there is says what the selection is. An
image carried with its description in another text type comes back as the description.
-/

namespace Yank

namespace Mime

/-- Whether a payload in this type is announced under the names for plain text. -/
def announcesText (mime : String) : Bool := isText mime && !isLocal mime

/-- Two types are the same where their letters are, in one case. -/
theorem eqIgnoreAsciiCase_iff (left right : String) :
    eqIgnoreAsciiCase left right = true ↔
      left.toList.map Char.toLower = right.toList.map Char.toLower := by
  simp [eqIgnoreAsciiCase]

/-- A type is the same as itself. -/
theorem eqIgnoreAsciiCase_refl (mime : String) : eqIgnoreAsciiCase mime mime = true := by
  simp [eqIgnoreAsciiCase]

/-- It does not matter which comes first. -/
theorem eqIgnoreAsciiCase_symm (left right : String) :
    eqIgnoreAsciiCase left right = eqIgnoreAsciiCase right left := by
  rw [Bool.eq_iff_iff, eqIgnoreAsciiCase_iff, eqIgnoreAsciiCase_iff]
  exact eq_comm

/-- What is the same as one type is the same as any other that is. -/
theorem eqIgnoreAsciiCase_trans (left middle right : String)
    (first : eqIgnoreAsciiCase left middle = true)
    (second : eqIgnoreAsciiCase middle right = true) : eqIgnoreAsciiCase left right = true := by
  rw [eqIgnoreAsciiCase_iff] at first second ⊢
  exact first.trans second

/-- A name for plain text is one that is known, in some case. -/
theorem isTextAlias_iff (mime : String) :
    isTextAlias mime = true ↔ ∃ known ∈ text, eqIgnoreAsciiCase known mime = true := by
  simp [isTextAlias, List.any_eq_true]

/-- A name is an alias in every case it is written in. -/
theorem isTextAlias_congr (left right : String) (same : eqIgnoreAsciiCase left right = true)
    (named : isTextAlias left = true) : isTextAlias right = true := by
  rw [isTextAlias_iff] at named ⊢
  obtain ⟨known, listed, equal⟩ := named
  exact ⟨known, listed, eqIgnoreAsciiCase_trans known left right equal same⟩

/-- No name for plain text names a file. -/
theorem isLocal_of_alias (mime : String) (named : isTextAlias mime = true) :
    isLocal mime = false := by
  obtain ⟨known, listed, same⟩ := (isTextAlias_iff mime).mp named
  have apart : ∀ known ∈ text, ∀ local_ ∈ localTypes, eqIgnoreAsciiCase local_ known = false := by
    decide
  rw [isLocal, List.any_eq_false]
  intro file among equal
  rw [eqIgnoreAsciiCase_symm] at same
  have crossed := eqIgnoreAsciiCase_trans file mime known equal same
  rw [apart known listed file among] at crossed
  cases crossed

/-- Every name for plain text is announced as text. -/
theorem announcesText_of_alias (mime : String) (named : isTextAlias mime = true) :
    announcesText mime = true := by
  simp [announcesText, isText, named, isLocal_of_alias mime named]

/-- Text is announced under plain text, one way or another. -/
theorem aliases_plainText (mime : String) (announces : announcesText mime = true) :
    ∃ name ∈ aliases mime, eqIgnoreAsciiCase name plainText = true := by
  have split : isLocal mime = false ∧ isText mime = true := by
    simpa [announcesText, and_comm] using announces
  have all : aliases mime = mime :: text.filter (fun known => !eqIgnoreAsciiCase known mime) := by
    simp [aliases, split.1, split.2]
  rw [all]
  cases same : eqIgnoreAsciiCase plainText mime with
  | true => exact ⟨mime, List.mem_cons_self, by rwa [eqIgnoreAsciiCase_symm]⟩
  | false =>
    refine ⟨plainText, List.mem_cons_of_mem _ (List.mem_filter.mpr ⟨?_, by simp [same]⟩), ?_⟩
    · exact List.mem_cons_self
    · exact eqIgnoreAsciiCase_refl plainText

/-- Anything else is announced as itself. -/
theorem aliases_other (mime : String) (silent : announcesText mime = false) :
    aliases mime = [mime] := by
  cases named : isLocal mime with
  | true => simp [aliases, named]
  | false =>
    have plain : isText mime = false := by simpa [announcesText, named] using silent
    simp [aliases, plain]

/-- The types already chosen stay in front. -/
theorem selectRest_prefix (ignore offered chosen : List String) :
    ∃ more, selectRest ignore offered chosen = chosen ++ more := by
  induction offered generalizing chosen with
  | nil => exact ⟨[], by simp [selectRest]⟩
  | cons mime offered inductionHypothesis =>
    rw [selectRest]
    split
    · exact ⟨[], by simp⟩
    split
    · exact inductionHypothesis chosen
    split
    · exact inductionHypothesis chosen
    · obtain ⟨more, rest⟩ := inductionHypothesis (chosen ++ [mime])
      exact ⟨mime :: more, by simp [rest]⟩

/-- The first type captured is the one that describes the selection. -/
theorem select_head (offered : List String) : (select offered []).head? = choose offered := by
  unfold select
  cases chosen : choose offered with
  | none => rfl
  | some primary =>
    obtain ⟨more, rest⟩ := selectRest_prefix [] offered [primary]
    simp [rest]

/-- What describes a selection is a name for plain text or carries content. -/
theorem choose_spec (offered : List String) (primary : String)
    (chosen : choose offered = some primary) :
    isTextAlias primary = true ∨ isContent primary = true := by
  rw [choose, Option.or_eq_some_iff] at chosen
  obtain best | ⟨_, content⟩ := chosen
  · left
    obtain ⟨wanted, listed, found⟩ := List.exists_of_findSome?_eq_some best
    have same := List.find?_some found
    rw [eqIgnoreAsciiCase_symm] at same
    exact (isTextAlias_iff primary).mpr ⟨wanted, listed, same⟩
  · right
    exact List.find?_some content

/-- So is whatever else is captured with it. The induction is on what is offered: a type is taken
only if it is one of content. -/
theorem selectRest_spec (ignore offered chosen : List String) :
    ∀ mime ∈ selectRest ignore offered chosen, mime ∈ chosen ∨ isContent mime = true := by
  induction offered generalizing chosen with
  | nil => exact fun mime member => .inl member
  | cons next offered inductionHypothesis =>
    rw [selectRest]
    split
    · exact fun mime member => .inl member
    split
    · exact inductionHypothesis chosen
    case isFalse useful =>
      split
      · exact inductionHypothesis chosen
      · intro mime member
        obtain before | content := inductionHypothesis (chosen ++ [next]) mime member
        · obtain before | same := List.mem_append.mp before
          · exact .inl before
          · obtain rfl := List.mem_singleton.mp same
            simp only [Bool.or_eq_true, not_or, Bool.not_eq_true, Bool.not_eq_false'] at useful
            exact .inr useful.1.1
        · exact .inr content

/-- Every type that is captured is a name for plain text or carries content. -/
theorem select_spec (offered ignore : List String) (mime : String)
    (chosen : mime ∈ select offered ignore) : isTextAlias mime = true ∨ isContent mime = true := by
  rw [select] at chosen
  split at chosen
  case h_1 => cases chosen
  case h_2 primary first =>
    split at chosen
    case isTrue => cases chosen
    case isFalse =>
      obtain same | content := selectRest_spec ignore offered [primary] mime chosen
      · obtain rfl := List.mem_singleton.mp same
        exact choose_spec offered mime first
      · exact .inr content

/-- Where plain text is offered, the first name it is offered under describes the
selection. -/
theorem choose_plainText (offered : List String) (name : String)
    (found : offered.find? (fun mime => eqIgnoreAsciiCase mime plainText) = some name) :
    choose offered = some name := by
  simp [choose, bestText, text, found]

/-- Where no name for plain text is offered, the first type with content does. -/
theorem choose_content (offered : List String)
    (quiet : ∀ name ∈ offered, isTextAlias name = false) :
    choose offered = offered.find? isContent := by
  have nothing : bestText offered = none := by
    rw [bestText, List.findSome?_eq_none_iff]
    intro wanted listed
    rw [List.find?_eq_none]
    intro name among same
    rw [eqIgnoreAsciiCase_symm] at same
    have named := (isTextAlias_iff name).mpr ⟨wanted, listed, same⟩
    rw [quiet name among] at named
    cases named
  simp [choose, nothing]

end Mime

/-- Every type name a list of representations is announced under, in order. -/
def announced (serves : List Serve) : List String := serves.flatMap Serve.mimes

/-- The bytes a request for a type is answered with: those of the first entry that
announces it, and of the first of all for a type never announced. -/
def onSource (serves : List Serve) (mime : String) : Option Bytes :=
  ((serves.find? (fun serve =>
    serve.mimes.any (fun name => Mime.eqIgnoreAsciiCase name mime))).or serves.head?).map Serve.bytes

/-- A selection captured from what was offered: of the types that were chosen, those that
something was read under, in order. The one that describes the offer may have come empty. -/
def CapturedFrom (offered : List String) (selection : Selection) : Prop :=
  (selection.reps.map Rep.mime).Sublist (Mime.select offered [])

/-- The representation plain text is answered with, when the selection has any text. -/
def textRep (selection : Selection) : Option Rep :=
  selection.reps.find? (fun rep => Mime.announcesText rep.mime)

/-- Nothing announces a name for plain text. -/
def Quiet (serves : List Serve) : Prop :=
  ∀ name ∈ announced serves, Mime.isTextAlias name = false

/-- Later representations are announced after earlier ones. -/
theorem servesFrom_append (early late : List Rep) (serves : List Serve) :
    servesFrom (early ++ late) serves = servesFrom late (servesFrom early serves) := by
  induction early generalizing serves with
  | nil => rfl
  | cons rep early inductionHypothesis =>
    simp only [List.cons_append, servesFrom]
    split
    · exact inductionHypothesis serves
    · exact inductionHypothesis _

/-- What is announced first stays first. -/
theorem servesFrom_prefix (reps : List Rep) (serves : List Serve) :
    ∃ more, servesFrom reps serves = serves ++ more := by
  induction reps generalizing serves with
  | nil => exact ⟨[], by simp [servesFrom]⟩
  | cons rep reps inductionHypothesis =>
    rw [servesFrom]
    split
    · exact inductionHypothesis serves
    · obtain ⟨more, rest⟩ := inductionHypothesis _
      exact ⟨_ :: more, by rw [rest, List.append_assoc]; rfl⟩

/-- The names a representation is still announced under. -/
theorem mem_announced_iff (serves : List Serve) (name : String) :
    name ∈ announced serves ↔ serves.any (fun serve => serve.mimes.contains name) = true := by
  simp [announced, List.any_eq_true]

/-- The first entry is the primary representation under all of its names. -/
theorem serves_head (selection : Selection) :
    ∃ more, serves selection =
      { mimes := Mime.aliases selection.primary.mime, bytes := selection.primary.bytes } :: more := by
  have named : Mime.aliases selection.primary.mime ≠ [] := by
    intro empty
    have head := Mime.aliases_head selection.primary.mime
    rw [empty] at head
    cases head
  obtain ⟨more, rest⟩ := servesFrom_prefix selection.alternates
    [{ mimes := Mime.aliases selection.primary.mime, bytes := selection.primary.bytes }]
  refine ⟨more, ?_⟩
  simpa [serves, Selection.reps, servesFrom, named] using rest

/-- Representations that are no text announce no name for plain text. The induction is on the
representations and carries that nothing so far announces such a name. -/
theorem servesFrom_quiet (reps : List Rep) (serves : List Serve) (quiet : Quiet serves)
    (silent : ∀ rep ∈ reps, Mime.announcesText rep.mime = false) :
    Quiet (servesFrom reps serves) := by
  induction reps generalizing serves with
  | nil => exact quiet
  | cons rep reps inductionHypothesis =>
    rw [List.forall_mem_cons] at silent
    rw [servesFrom]
    split
    · exact inductionHypothesis serves quiet silent.2
    · refine inductionHypothesis _ ?_ silent.2
      intro name among
      rw [announced, List.flatMap_append, List.mem_append] at among
      obtain before | now := among
      · exact quiet name before
      · have own : name = rep.mime := by
          simp only [List.flatMap_cons, List.flatMap_nil, List.append_nil, List.mem_filter,
            Mime.aliases_other rep.mime silent.1, List.mem_singleton] at now
          exact now.1
        rw [own]
        cases named : Mime.isTextAlias rep.mime with
        | false => rfl
        | true => exact absurd (Mime.announcesText_of_alias rep.mime named) (by simp [silent.1])

/-- The first representation that is text announces plain text. No entry has a name for plain text
yet, so it keeps its own. -/
theorem servesFrom_text (rep : Rep) (serves : List Serve) (quiet : Quiet serves)
    (text : Mime.announcesText rep.mime = true) :
    ∃ mimes, servesFrom [rep] serves = serves ++ [{ mimes, bytes := rep.bytes }] ∧
      ∃ name ∈ mimes, Mime.eqIgnoreAsciiCase name Mime.plainText = true := by
  obtain ⟨name, among, plain⟩ := Mime.aliases_plainText rep.mime text
  have spelled : Mime.isTextAlias name = true := by
    rw [Mime.eqIgnoreAsciiCase_symm] at plain
    exact (Mime.isTextAlias_iff name).mpr ⟨Mime.plainText, List.mem_cons_self, plain⟩
  have fresh : serves.any (fun serve => serve.mimes.contains name) = false := by
    rw [Bool.eq_false_iff, ne_eq, ← mem_announced_iff]
    intro taken
    rw [quiet name taken] at spelled
    cases spelled
  have left : name ∈ (Mime.aliases rep.mime).filter
      (fun mime => !serves.any (fun serve => serve.mimes.contains mime)) :=
    List.mem_filter.mpr ⟨among, by rw [fresh]; rfl⟩
  refine ⟨_, ?_, name, left, plain⟩
  rw [servesFrom, if_neg (List.ne_nil_of_mem left), servesFrom]

/-- Past entries that announce no plain text, the first entry that does is what the
selection is captured as and answered with. -/
theorem recaptured_text (quiet more : List Serve) (mimes : List String) (bytes : Bytes)
    (silent : Quiet quiet)
    (plain : ∃ name ∈ mimes, Mime.eqIgnoreAsciiCase name Mime.plainText = true) :
    ∃ name, Mime.choose (announced (quiet ++ { mimes, bytes } :: more)) = some name ∧
      onSource (quiet ++ { mimes, bytes } :: more) name = some bytes := by
  have unnamed : ∀ name ∈ announced quiet, Mime.eqIgnoreAsciiCase name Mime.plainText = false := by
    intro name among
    rw [Bool.eq_false_iff, ne_eq, Mime.eqIgnoreAsciiCase_symm]
    intro same
    have spelled := (Mime.isTextAlias_iff name).mpr ⟨Mime.plainText, List.mem_cons_self, same⟩
    rw [silent name among] at spelled
    cases spelled
  obtain ⟨name, found⟩ : ∃ name, mimes.find?
      (fun mime => Mime.eqIgnoreAsciiCase mime Mime.plainText) = some name := by
    rw [← Option.isSome_iff_exists, List.find?_isSome]
    exact plain
  have same : Mime.eqIgnoreAsciiCase name Mime.plainText = true := by
    simpa using List.find?_some found
  refine ⟨name, ?_, ?_⟩
  · apply Mime.choose_plainText
    have skipped : (announced quiet).find?
        (fun mime => Mime.eqIgnoreAsciiCase mime Mime.plainText) = none := by
      rw [List.find?_eq_none]
      intro other among
      simp [unnamed other among]
    rw [announced, List.flatMap_append, List.find?_append]
    change ((announced quiet).find? _).or _ = _
    rw [skipped, Option.none_or, List.flatMap_cons, List.find?_append, found, Option.some_or]
  · have skipped : quiet.find? (fun serve =>
        serve.mimes.any (fun other => Mime.eqIgnoreAsciiCase other name)) = none := by
      rw [List.find?_eq_none]
      intro serve among
      rw [Bool.not_eq_true, List.any_eq_false]
      intro other listed equal
      have reached := Mime.eqIgnoreAsciiCase_trans other name Mime.plainText equal same
      rw [unnamed other (List.mem_flatMap.mpr ⟨serve, among, listed⟩)] at reached
      cases reached
    have answers : mimes.any (fun other => Mime.eqIgnoreAsciiCase other name) = true :=
      List.any_eq_true.mpr ⟨name, List.mem_of_find?_eq_some found, Mime.eqIgnoreAsciiCase_refl name⟩
    simp [onSource, List.find?_append, skipped, answers]

/-- Without text, the selection is captured as its primary type and answered with it. -/
theorem recaptured_other (more : List Serve) (mime : String) (bytes : Bytes)
    (silent : Quiet ({ mimes := [mime], bytes } :: more)) (content : Mime.isContent mime = true) :
    Mime.choose (announced ({ mimes := [mime], bytes } :: more)) = some mime ∧
      onSource ({ mimes := [mime], bytes } :: more) mime = some bytes := by
  constructor
  · rw [Mime.choose_content _ silent]
    simp [announced, content]
  · simp [onSource, Mime.eqIgnoreAsciiCase_refl]

/-- What yank announces for a captured selection is captured again as that selection
exactly when the first representation that is text, if there is any, carries the bytes of
the primary one. -/
theorem recaptured_as_itself_iff (offered : List String) (selection : Selection)
    (captured : CapturedFrom offered selection) :
    (∃ mime, (Mime.select (announced (serves selection)) []).head? = some mime ∧
        onSource (serves selection) mime = some selection.primary.bytes) ↔
      ∀ rep, textRep selection = some rep → rep.bytes = selection.primary.bytes := by
  rw [Mime.select_head]
  cases found : textRep selection with
  | none =>
    have silent : ∀ rep ∈ selection.reps, Mime.announcesText rep.mime = false := by
      simpa [textRep, List.find?_eq_none] using found
    have quiet : Quiet (serves selection) :=
      servesFrom_quiet selection.reps [] (fun name among => nomatch among) silent
    have primary := silent selection.primary List.mem_cons_self
    have content : Mime.isContent selection.primary.mime = true := by
      have chosen := captured.subset (List.mem_map_of_mem List.mem_cons_self)
      obtain spelled | content := Mime.select_spec offered [] _ chosen
      · have announces := Mime.announcesText_of_alias _ spelled
        rw [primary] at announces
        cases announces
      · exact content
    obtain ⟨more, first⟩ := serves_head selection
    rw [Mime.aliases_other _ primary] at first
    rw [first] at quiet ⊢
    obtain ⟨chosen, answered⟩ :=
      recaptured_other more selection.primary.mime selection.primary.bytes quiet content
    constructor
    · intro _ rep impossible
      cases impossible
    · intro _
      exact ⟨selection.primary.mime, chosen, answered⟩
  | some rep =>
    obtain ⟨text, early, late, split, silent⟩ := List.find?_eq_some_iff_append.mp found
    have quiet : Quiet (servesFrom early []) := by
      refine servesFrom_quiet early [] (fun name among => nomatch among) ?_
      intro other before
      simpa using silent other before
    obtain ⟨mimes, announces, plain⟩ := servesFrom_text rep (servesFrom early []) quiet text
    obtain ⟨more, rest⟩ := servesFrom_prefix late (servesFrom [rep] (servesFrom early []))
    have served : serves selection =
        servesFrom early [] ++ { mimes, bytes := rep.bytes } :: more := by
      rw [serves, split, servesFrom_append, ← List.singleton_append, servesFrom_append, rest,
        announces, List.append_assoc, List.singleton_append]
    obtain ⟨name, chosen, answered⟩ :=
      recaptured_text (servesFrom early []) more mimes rep.bytes quiet plain
    rw [served]
    constructor
    · rintro ⟨mime, captures, answers⟩ other same
      obtain rfl := Option.some.inj same
      obtain rfl := Option.some.inj (chosen.symm.trans captures)
      exact Option.some.inj (answered.symm.trans answers)
    · intro agrees
      exact ⟨name, chosen, answered.trans (congrArg some (agrees rep rfl))⟩

/-- A formatted text is announced as plain text, captured as that and answered with its own
bytes. -/
theorem recaptured_as_itself_iff_html :
    let selection : Selection :=
      { primary := { mime := "text/html", bytes := [60, 98, 62] },
        alternates := [{ mime := "image/png", bytes := [137] }] }
    (Mime.select (announced (serves selection)) []).head? = some Mime.plainText ∧
      ∃ mime, (Mime.select (announced (serves selection)) []).head? = some mime ∧
        onSource (serves selection) mime = some selection.primary.bytes := by
  intro selection
  have captured : CapturedFrom ["text/html", "TARGETS", "image/png"] selection := by
    rw [CapturedFrom]
    decide
  refine ⟨by decide, (recaptured_as_itself_iff _ selection captured).mpr ?_⟩
  intro rep found
  have first : textRep selection = some selection.primary := by decide
  obtain rfl := Option.some.inj (first.symm.trans found)
  rfl

/-- An image with a description beside it, as a browser offers it, comes back as the
description. -/
theorem image_comes_back_as_its_description :
    let selection : Selection :=
      { primary := { mime := "image/png", bytes := [137] },
        alternates := [{ mime := "text/html", bytes := [60, 105, 109, 103, 62] }] }
    CapturedFrom ["image/png", "text/html"] selection ∧
      ¬ ∃ mime, (Mime.select (announced (serves selection)) []).head? = some mime ∧
        onSource (serves selection) mime = some selection.primary.bytes := by
  intro selection
  have captured : CapturedFrom ["image/png", "text/html"] selection := by
    rw [CapturedFrom]
    decide
  refine ⟨captured, ?_⟩
  rintro ⟨mime, captures, answers⟩
  have chosen : (Mime.select (announced (serves selection)) []).head? = some Mime.plainText := by
    decide
  obtain rfl := Option.some.inj (chosen.symm.trans captures)
  have answered : onSource (serves selection) Mime.plainText = some [60, 105, 109, 103, 62] := by
    decide
  rw [answered] at answers
  cases answers

end Yank
