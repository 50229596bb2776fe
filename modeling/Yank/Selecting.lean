import Yank.Collect
import Yank.Reoffering

/-!
# Which types are selected

Of the types a selection is offered under, the first selected is the best ranked name for
plain text, or else the first with content. The rest is gathered up to a cap, comparing
names in any case.

What is ignored is compared by name exactly. A selection is well chosen when
nothing ignored in any case is in it, and that depends on two things: how the first choice is
spelled in the list of what is ignored, and whether a type ignored under another
spelling comes while there is room.
-/

namespace Yank.Mime

/-- A name in the case it is compared in. -/
def folded (mime : String) : List Char := mime.toList.map Char.toLower

/-- Whether a type is ignored under any spelling. -/
def ignoredInAnyCase (ignore : List String) (mime : String) : Bool :=
  ignore.any (fun name => eqIgnoreAsciiCase name mime)

/-- Whether a type is gathered after the first. -/
def isGathered (ignore : List String) (mime : String) : Bool :=
  isContent mime && !isTextAlias mime && !ignore.contains mime

/-- Where a name stands among the names for plain text; past them for any other. -/
def rank (mime : String) : Nat :=
  Collect.rank (fun wanted mime => eqIgnoreAsciiCase mime wanted) text mime

/-- What a selection is: the first of the best ranked names for plain text, or the first type
with content when plain text is not offered. -/
inductive FirstChoice (offered : List String) (first : String) : Prop
  | text (before after : List String) (split : offered = before ++ first :: after)
      (named : isTextAlias first = true) (worse : ∀ mime ∈ before, rank first < rank mime)
      (best : ∀ mime ∈ after, rank first ≤ rank mime)
  | content (before after : List String) (split : offered = before ++ first :: after)
      (carries : isContent first = true) (empty : ∀ mime ∈ before, isContent mime = false)
      (quiet : ∀ mime ∈ offered, isTextAlias mime = false)

/-- Types are alike in one case if they are the same in any. -/
theorem folded_eq_iff (left right : String) :
    folded left = folded right ↔ eqIgnoreAsciiCase left right = true :=
  (eqIgnoreAsciiCase_iff left right).symm

/-- The loop gathers types up to the cap, each in one case only. The induction is on what is
offered: a type is known in another case exactly if its folding is among those taken. -/
theorem selectRest_eq (ignore offered chosen : List String) :
    selectRest ignore offered chosen =
      Collect.collect maxReps folded (isGathered ignore) offered chosen := by
  induction offered generalizing chosen with
  | nil => rfl
  | cons mime offered inductionHypothesis =>
    have known : (chosen.any (fun taken => eqIgnoreAsciiCase taken mime) = true) ↔
        folded mime ∈ chosen.map folded := by
      rw [List.any_eq_true, List.mem_map]
      exact exists_congr fun taken => and_congr_right fun _ => (folded_eq_iff taken mime).symm
    have skips : (!isContent mime || isTextAlias mime || ignore.contains mime) =
        !isGathered ignore mime := by
      simp [isGathered, Bool.not_and, Bool.or_assoc]
    rw [selectRest, Collect.collect_cons, Collect.advance, skips]
    split
    · rename_i full
      rw [Collect.collect_full offered chosen full]
    split
    · rename_i skipped
      have unwanted : isGathered ignore mime = false := by simpa using skipped
      rw [if_neg (by simp [unwanted]), inductionHypothesis]
    split
    · rename_i taken
      rw [if_neg (fun fits => fits.2 (known.mp taken)), inductionHypothesis]
    · rename_i wanted fresh
      have wanted : isGathered ignore mime = true := by simpa using wanted
      rw [if_pos ⟨wanted, fun taken => fresh (known.mpr taken)⟩, inductionHypothesis]

/-! ## The first choice -/

/-- The names for plain text are those that rank among them. -/
theorem rank_lt_iff (mime : String) : rank mime < text.length ↔ isTextAlias mime = true := by
  rw [rank, Collect.rank, List.findIdx_lt_length, isTextAlias_iff]
  exact exists_congr fun known => and_congr_right fun _ => by rw [eqIgnoreAsciiCase_symm]

/-- The best text is the first type of the best rank there is. -/
theorem bestText_iff (offered : List String) (first : String) :
    bestText offered = some first ↔
      ∃ before after, offered = before ++ first :: after ∧ rank first < text.length ∧
        (∀ mime ∈ before, rank first < rank mime) ∧ ∀ mime ∈ after, rank first ≤ rank mime :=
  Collect.best_iff text offered first

/-- Plain text is found as soon as it is offered. The table is gone through name by name, so a
type is missed only if it matches none of them. -/
theorem bestText_none_iff (offered : List String) :
    bestText offered = none ↔ ∀ mime ∈ offered, isTextAlias mime = false := by
  rw [bestText, List.findSome?_eq_none_iff]
  constructor
  · intro nowhere mime member
    rw [Bool.eq_false_iff, Ne, isTextAlias_iff]
    rintro ⟨known, listed, same⟩
    rw [eqIgnoreAsciiCase_symm] at same
    exact List.find?_eq_none.mp (nowhere known listed) mime member same
  · intro quiet wanted listed
    rw [List.find?_eq_none]
    intro mime member same
    rw [eqIgnoreAsciiCase_symm] at same
    have named := (isTextAlias_iff mime).mpr ⟨wanted, listed, same⟩
    rw [quiet mime member] at named
    cases named

/-- The type chosen is the first choice, and there is no other. Names for plain text are looked
for first, in the order of their table, and where there is none the first type that carries
content is taken. -/
theorem choose_iff (offered : List String) (first : String) :
    choose offered = some first ↔ FirstChoice offered first := by
  cases found : bestText offered with
  | some best =>
    obtain ⟨early, late, shape, ranked, _⟩ := (bestText_iff offered best).mp found
    have named := (rank_lt_iff best).mp ranked
    have chosen : choose offered = bestText offered := by rw [choose, found]; rfl
    rw [chosen, bestText_iff]
    constructor
    · rintro ⟨before, after, split, ranked, worse, best⟩
      exact .text before after split ((rank_lt_iff first).mp ranked) worse best
    · rintro (⟨before, after, split, named, worse, best⟩ | ⟨before, after, split, _, _, quiet⟩)
      · exact ⟨before, after, split, (rank_lt_iff first).mpr named, worse, best⟩
      · have silent := quiet best (by rw [shape]; simp)
        rw [silent] at named
        cases named
  | none =>
    have quiet := (bestText_none_iff offered).mp found
    rw [choose_content offered quiet, List.find?_eq_some_iff_append]
    constructor
    · rintro ⟨carries, before, after, split, empty⟩
      exact .content before after split carries (fun mime member => by simpa using empty mime member)
        quiet
    · rintro (⟨before, after, split, named, _⟩ | ⟨before, after, split, carries, empty, _⟩)
      · have silent := quiet first (by rw [split]; simp)
        rw [silent] at named
        cases named
      · exact ⟨carries, before, after, split, fun mime member => by simp [empty mime member]⟩

/-- There is no first choice exactly when nothing offered is of use. -/
theorem choose_none_iff (offered : List String) :
    choose offered = none ↔
      ∀ mime ∈ offered, isTextAlias mime = false ∧ isContent mime = false := by
  rw [choose, Option.or_eq_none_iff, bestText_none_iff, List.find?_eq_none]
  constructor
  · rintro ⟨quiet, empty⟩ mime member
    exact ⟨quiet mime member, by simpa using empty mime member⟩
  · intro useless
    exact ⟨fun mime member => (useless mime member).1,
      fun mime member => by simp [(useless mime member).2]⟩

/-- The first choice is offered. -/
theorem FirstChoice.offered {offered : List String} {first : String}
    (choice : FirstChoice offered first) : first ∈ offered := by
  obtain ⟨before, after, rfl, _⟩ | ⟨before, after, rfl, _⟩ := choice <;> simp

/-! ## What is selected -/

/-- What a selection is offered under and what is carried of it: within the cap, each type
once, nothing ignored, the first choice in front and everything else of use behind it. -/
structure WellChosen (offered ignore chosen : List String) : Prop where
  capped : chosen.length ≤ maxReps
  among : ∀ mime ∈ chosen, mime ∈ offered
  distinct : chosen.Pairwise (fun left right => eqIgnoreAsciiCase left right = false)
  content : ∀ mime ∈ chosen, chatter.contains mime = false
  heeded : ∀ mime ∈ chosen, ignoredInAnyCase ignore mime = false
  plainTextFirst : ∀ mime ∈ chosen.tail, isTextAlias mime = false
  first : ∀ mime, chosen.head? = some mime → FirstChoice offered mime
  empty_iff : chosen = [] ↔ (∀ mime ∈ offered, isTextAlias mime = false ∧ isContent mime = false) ∨
    ∃ first, FirstChoice offered first ∧ ignoredInAnyCase ignore first = true
  ordered : chosen.tail.Sublist offered
  complete : ∀ before mime after first, offered = before ++ mime :: after →
    chosen.head? = some first → isContent mime = true → isTextAlias mime = false →
    ignoredInAnyCase ignore mime = false →
    (∃ taken ∈ chosen, eqIgnoreAsciiCase taken mime = true) ∨
      maxReps ≤ chosen.length ∧ ∀ taken ∈ chosen, taken = first ∨ taken ∈ before

/-- Whether every spelling of what is ignored comes too late to matter: the first choice is
ignored by the very name it has or under no spelling, and a type ignored under another
spelling only comes once the cap was reached. -/
def IgnoredByName (offered ignore : List String) : Prop :=
  ∀ first, FirstChoice offered first → ignore.contains first = true ∨
    ignoredInAnyCase ignore first = false ∧
      ∀ before mime after, offered = before ++ mime :: after → isContent mime = true →
        isTextAlias mime = false → ignoredInAnyCase ignore mime = true →
        ignore.contains mime = true ∨
          maxReps ≤ (Collect.inReach folded (isGathered ignore) before [first]).card

/-- A type ignored in any case is so in every case. -/
theorem ignoredInAnyCase_congr (ignore : List String) (left right : String)
    (same : eqIgnoreAsciiCase left right = true) :
    ignoredInAnyCase ignore left = ignoredInAnyCase ignore right := by
  have spelled := (eqIgnoreAsciiCase_iff left right).mp same
  simp only [ignoredInAnyCase, eqIgnoreAsciiCase, spelled]

/-- A type ignored as it is written is ignored in any case. -/
theorem ignoredInAnyCase_of_contains (ignore : List String) (mime : String)
    (named : ignore.contains mime = true) : ignoredInAnyCase ignore mime = true := by
  rw [ignoredInAnyCase, List.any_eq_true]
  exact ⟨mime, List.contains_iff_mem.mp named, eqIgnoreAsciiCase_refl mime⟩

/-- What is ignored under no spelling is not ignored by name. -/
theorem contains_of_heeded (ignore : List String) (mime : String)
    (heeded : ignoredInAnyCase ignore mime = false) : ignore.contains mime = false := by
  rw [Bool.eq_false_iff]
  intro listed
  rw [ignoredInAnyCase_of_contains ignore mime listed] at heeded
  cases heeded

/-- A type is gathered with the first if it carries content, is no name for plain text and is not
ignored. -/
theorem isGathered_iff (ignore : List String) (mime : String) :
    isGathered ignore mime = true ↔
      isContent mime = true ∧ isTextAlias mime = false ∧ ignore.contains mime = false := by
  rw [isGathered, Bool.and_eq_true, Bool.and_eq_true, Bool.not_eq_true', Bool.not_eq_true',
    and_assoc]

/-- No name for plain text is bookkeeping. -/
theorem chatter_of_alias (mime : String) (named : isTextAlias mime = true) :
    chatter.contains mime = false := by
  have apart : ∀ known ∈ chatter, isTextAlias known = false := by decide
  rw [Bool.eq_false_iff, Ne, List.contains_iff_mem]
  intro listed
  rw [apart mime listed] at named
  cases named

/-- The selected types are the first choice and what is gathered after it. -/
theorem select_eq (offered ignore : List String) (first : String)
    (choice : FirstChoice offered first) (shared : ignore.contains first = false) :
    select offered ignore =
      Collect.collect maxReps folded (isGathered ignore) offered [first] := by
  rw [select, (choose_iff offered first).mpr choice]
  simp only [shared, Bool.false_eq_true, if_false, selectRest_eq]

/-- A type worth gathering is there in some case, or the cap was reached before it. While there
was room it was taken, unless it was there in another case; otherwise the cap was reached by what
came before. -/
theorem gathered_or_full (ignore before after : List String) (first mime : String)
    (likes : isGathered ignore mime = true) :
    let chosen := Collect.collect maxReps folded (isGathered ignore) (before ++ mime :: after) [first]
    (∃ taken ∈ chosen, eqIgnoreAsciiCase taken mime = true) ∨
      maxReps ≤ chosen.length ∧ ∀ taken ∈ chosen, taken = first ∨ taken ∈ before := by
  intro chosen
  by_cases room :
      (Collect.collect maxReps folded (isGathered ignore) before [first]).length < maxReps
  · left
    have taken := Collect.wanted_taken before after [first] mime likes room
    obtain ⟨kept, member, same⟩ := List.mem_map.mp taken
    exact ⟨kept, member, (folded_eq_iff kept mime).mp same⟩
  · right
    rw [Nat.not_lt] at room
    have unchanged : chosen = Collect.collect maxReps folded (isGathered ignore) before [first] := by
      simp only [chosen, Collect.collect_append, Collect.collect_full (mime :: after) _ room]
    rw [unchanged]
    refine ⟨room, fun taken member => ?_⟩
    obtain ⟨early, shape, source, _⟩ :=
      Collect.collect_extends maxReps folded (isGathered ignore) before [first]
    rw [shape, List.singleton_append, List.mem_cons] at member
    exact member.imp id (fun later => source.subset later)

/-- Nothing selected is well chosen where nothing may be. -/
theorem wellChosen_nil (offered ignore : List String)
    (nothing : (∀ mime ∈ offered, isTextAlias mime = false ∧ isContent mime = false) ∨
      ∃ first, FirstChoice offered first ∧ ignoredInAnyCase ignore first = true) :
    WellChosen offered ignore [] where
  capped := Nat.zero_le _
  among := by simp
  distinct := List.Pairwise.nil
  content := by simp
  heeded := by simp
  plainTextFirst := by simp
  first := by simp
  empty_iff := by simp only [nothing]
  ordered := List.nil_sublist offered
  complete := by simp

/-- What was gathered behind a first choice is well chosen as long as nothing in it is
ignored. -/
theorem wellChosen_gathered (offered ignore : List String) (first : String)
    (choice : FirstChoice offered first)
    (heeded : ∀ mime ∈ Collect.collect maxReps folded (isGathered ignore) offered [first],
      ignoredInAnyCase ignore mime = false) :
    WellChosen offered ignore
      (Collect.collect maxReps folded (isGathered ignore) offered [first]) := by
  obtain ⟨more, extended, among, gathered⟩ :=
    Collect.collect_extends maxReps folded (isGathered ignore) offered [first]
  have named := (choose_iff offered first).mpr choice
  have wanted (mime : String) (member : mime ∈ more) : isContent mime = true ∧
      isTextAlias mime = false := by
    obtain ⟨carries, plain, _⟩ := (isGathered_iff ignore mime).mp (gathered mime member)
    exact ⟨carries, plain⟩
  have head : (Collect.collect maxReps folded (isGathered ignore) offered [first]).head? =
      some first := by
    rw [extended]
    rfl
  have tail : (Collect.collect maxReps folded (isGathered ignore) offered [first]).tail = more := by
    rw [extended]
    rfl
  have nothingKnown : ([first].map folded).Nodup := List.nodup_singleton _
  have room : [first].length ≤ maxReps := by
    change 1 ≤ 8
    omega
  refine ⟨Collect.collect_length offered [first] room, ?_, ?_, ?_, heeded, ?_, ?_, ?_, ?_, ?_⟩
  · intro mime member
    rw [extended, List.singleton_append, List.mem_cons] at member
    obtain rfl | later := member
    · exact choice.offered
    · exact among.subset later
  · have nodup := Collect.collect_nodup maxReps _ (isGathered ignore) offered
      [first] nothingKnown
    refine (List.pairwise_map.mp nodup).imp fun {left right} apart => ?_
    rw [Bool.eq_false_iff, Ne, ← folded_eq_iff]
    exact apart
  · intro mime member
    rw [extended, List.singleton_append, List.mem_cons] at member
    have plain (carries : isContent mime = true) : chatter.contains mime = false := by
      rw [isContent, Bool.and_eq_true, Bool.not_eq_true'] at carries
      exact carries.1
    obtain rfl | later := member
    · obtain text | carries := choose_spec offered mime named
      · exact chatter_of_alias mime text
      · exact plain carries
    · exact plain (wanted mime later).1
  · intro mime member
    rw [tail] at member
    exact (wanted mime member).2
  · intro mime chosen
    rw [head, Option.some.injEq] at chosen
    exact chosen ▸ choice
  · constructor
    · intro empty
      rw [empty] at head
      cases head
    · rintro (useless | ⟨other, sole, ignored⟩)
      · rw [(choose_none_iff offered).mpr useless] at named
        cases named
      · rw [(choose_iff offered other).mpr sole, Option.some.injEq] at named
        subst named
        have first : other ∈
            Collect.collect maxReps folded (isGathered ignore) offered [other] := by
          rw [extended]
          exact List.mem_cons_self
        rw [heeded other first] at ignored
        cases ignored
  · rw [tail]
    exact among
  · rintro before mime after other rfl chosen carries plain shared
    rw [head, Option.some.injEq] at chosen
    subst chosen
    have likes := (isGathered_iff ignore mime).mpr
      ⟨carries, plain, contains_of_heeded ignore mime shared⟩
    obtain taken | ⟨full, source⟩ := gathered_or_full ignore before after first mime likes
    · exact Or.inl taken
    · exact Or.inr ⟨full, source⟩

/-- Types are well chosen exactly when what is ignored is ignored by name. The first type and
those gathered behind it are looked up among the ignored ones exactly, so the choice is right
where no type is ignored under another spelling only. -/
theorem well_chosen_iff (offered ignore : List String) :
    WellChosen offered ignore (select offered ignore) ↔ IgnoredByName offered ignore := by
  constructor
  · intro chosen first choice
    cases named : ignore.contains first with
    | true => exact Or.inl rfl
    | false =>
      rw [select_eq offered ignore first choice named] at chosen
      obtain ⟨more, extended, _⟩ :=
        Collect.collect_extends maxReps folded (isGathered ignore) offered [first]
      refine Or.inr ⟨chosen.heeded first (by rw [extended]; exact List.mem_cons_self), ?_⟩
      rintro before mime after rfl carries plain ignored
      cases unnamed : ignore.contains mime with
      | true => exact Or.inl rfl
      | false =>
        right
        rw [← Collect.full_iff before [first] (List.nodup_singleton _)]
        by_contra room
        rw [Nat.not_le] at room
        have likes := (isGathered_iff ignore mime).mpr ⟨carries, plain, unnamed⟩
        have taken := Collect.wanted_taken before after [first] mime likes room
        obtain ⟨kept, member, same⟩ := List.mem_map.mp taken
        have heeded := chosen.heeded kept member
        rw [ignoredInAnyCase_congr ignore kept mime ((folded_eq_iff kept mime).mp same), ignored]
          at heeded
        cases heeded
  · intro byName
    cases named : choose offered with
    | none =>
      have nothing : select offered ignore = [] := by rw [select, named]
      rw [nothing]
      exact wellChosen_nil offered ignore (Or.inl ((choose_none_iff offered).mp named))
    | some first =>
      have choice := (choose_iff offered first).mp named
      obtain listed | ⟨shared, late⟩ := byName first choice
      · have nothing : select offered ignore = [] := by
          rw [select, named]
          exact if_pos listed
        rw [nothing]
        exact wellChosen_nil offered ignore
          (Or.inr ⟨first, choice, ignoredInAnyCase_of_contains ignore first listed⟩)
      · have unlisted : ignore.contains first = false := by
          rw [Bool.eq_false_iff]
          intro listed
          rw [ignoredInAnyCase_of_contains ignore first listed] at shared
          cases shared
        rw [select_eq offered ignore first choice unlisted]
        refine wellChosen_gathered offered ignore first choice fun mime member => ?_
        obtain sole | ⟨before, after, split, likes, room⟩ := Collect.mem_collect offered [first]
          mime member
        · rw [List.mem_singleton] at sole
          exact sole ▸ shared
        · obtain ⟨carries, plain, unlisted⟩ := (isGathered_iff ignore mime).mp likes
          rw [Bool.eq_false_iff]
          intro ignored
          obtain listed | full := late before mime after split carries plain ignored
          · rw [unlisted] at listed
            cases listed
          · rw [← Collect.full_iff before [first] (List.nodup_singleton _)] at full
            omega

/-- What is ignored in capitals is captured in small letters. -/
theorem ignored_in_another_case_is_selected :
    ¬ WellChosen ["text/html"] ["TEXT/HTML"] (select ["text/html"] ["TEXT/HTML"]) := by
  intro chosen
  have taken : select ["text/html"] ["TEXT/HTML"] = ["text/html"] := by decide
  have heeded := chosen.heeded "text/html" (by rw [taken]; exact List.mem_singleton_self _)
  exact absurd heeded (by decide)

end Yank.Mime

namespace Yank

/-! ## Nothing selected is lost -/

namespace Mime

/-- No name is announced twice for a type. -/
theorem aliases_nodup (mime : String) : (aliases mime).Nodup := by
  unfold aliases
  split
  · exact List.nodup_singleton mime
  · have apart : mime ∉ text.filter (fun known => !eqIgnoreAsciiCase known mime) := by
      intro member
      have differs := (List.mem_filter.mp member).2
      rw [eqIgnoreAsciiCase_refl] at differs
      cases differs
    exact List.nodup_cons.mpr ⟨apart, (by decide : text.Nodup).filter _⟩

/-- Besides its own type a payload is announced under names for plain text only. -/
theorem mem_aliases (mime name : String) (member : name ∈ aliases mime) :
    name = mime ∨ isTextAlias name = true := by
  unfold aliases at member
  split at member
  · exact Or.inl (List.mem_singleton.mp member)
  · obtain own | alternative := List.mem_cons.mp member
    · exact Or.inl own
    · have listed := (List.mem_filter.mp alternative).1
      exact Or.inr ((isTextAlias_iff name).mpr ⟨name, listed, eqIgnoreAsciiCase_refl name⟩)

/-- The selected types differ in any case, and only the first may name plain text. What is
collected differs from what was collected before it and from the first type, and plain text is
passed over by name. -/
theorem select_apart (offered ignore early late : List String) (mime : String)
    (split : select offered ignore = early ++ mime :: late) :
    (∀ other ∈ early, eqIgnoreAsciiCase other mime = false) ∧
      (isTextAlias mime = true → early = []) := by
  cases named : choose offered with
  | none =>
    rw [select, named] at split
    cases early <;> cases split
  | some first =>
    cases listed : ignore.contains first with
    | true =>
      rw [select, named] at split
      simp only [listed, if_true] at split
      cases early <;> cases split
    | false =>
      rw [select_eq offered ignore first ((choose_iff offered first).mp named) listed] at split
      have nodup := Collect.collect_nodup maxReps _ (isGathered ignore) offered
        [first] (List.nodup_singleton (folded first))
      rw [split, List.map_append, List.map_cons] at nodup
      refine ⟨fun other member => ?_, fun spelled => ?_⟩
      · rw [Bool.eq_false_iff, Ne, ← folded_eq_iff]
        intro same
        exact (List.nodup_append.mp nodup).2.2 _ (List.mem_map_of_mem member) _ List.mem_cons_self
          same
      · obtain ⟨more, extended, _, gathered⟩ :=
          Collect.collect_extends maxReps folded (isGathered ignore) offered [first]
        rw [extended] at split
        cases early with
        | nil => rfl
        | cons head early =>
          have behind : mime ∈ more := by
            have rest : more = early ++ mime :: late := (List.cons.inj split).2
            rw [rest]
            exact List.mem_append_right _ List.mem_cons_self
          obtain ⟨_, plain, _⟩ := (isGathered_iff ignore mime).mp (gathered mime behind)
          rw [plain] at spelled
          cases spelled

end Mime

/-- A representation that comes after others has a type of its own, and one that names plain
text comes after none. -/
def Apart (early : List Rep) (rep : Rep) : Prop :=
  (∀ other ∈ early, Mime.eqIgnoreAsciiCase other.mime rep.mime = false) ∧
    (Mime.isTextAlias rep.mime = true → early = [])

/-- What is announced for representations: one entry each, under its own type first, every
name once, and no name but their types and those for plain text. -/
structure Announcing (reps : List Rep) (serves : List Serve) : Prop where
  entries : List.Forall₂
    (fun rep serve => serve.bytes = rep.bytes ∧ serve.mimes.head? = some rep.mime) reps serves
  once : (announced serves).Nodup
  names : ∀ name ∈ announced serves,
    (∃ rep ∈ reps, name = rep.mime) ∨ Mime.isTextAlias name = true

/-- Nothing is announced for nothing. -/
theorem Announcing.nil : Announcing [] [] where
  entries := List.Forall₂.nil
  once := List.nodup_nil
  names := by simp [announced]

/-- The type of a representation that comes next is not announced yet. -/
theorem Announcing.unannounced {reps : List Rep} {serves : List Serve}
    (announcing : Announcing reps serves) {rep : Rep} (apart : Apart reps rep) :
    rep.mime ∉ announced serves := by
  intro member
  obtain ⟨other, among, same⟩ | spelled := announcing.names rep.mime member
  · have differs := apart.1 other among
    rw [← same, Mime.eqIgnoreAsciiCase_refl] at differs
    cases differs
  · have entries := announcing.entries
    rw [apart.2 spelled, List.forall₂_nil_left_iff] at entries
    rw [entries] at member
    cases member

/-- It is announced in an entry of its own, under its own type first. Nothing announced so far is
a spelling of its type, so its own type heads the entry. -/
theorem Announcing.step {reps : List Rep} {serves : List Serve}
    (announcing : Announcing reps serves) {rep : Rep} (apart : Apart reps rep) :
    ∃ mimes, servesFrom [rep] serves = serves ++ [{ mimes := rep.mime :: mimes, bytes := rep.bytes }] ∧
      Announcing (reps ++ [rep]) (serves ++ [{ mimes := rep.mime :: mimes, bytes := rep.bytes }]) := by
  have fresh : (!serves.any (fun serve => serve.mimes.contains rep.mime)) = true := by
    rw [Bool.not_eq_true', Bool.eq_false_iff, Ne, ← mem_announced_iff]
    exact announcing.unannounced apart
  obtain ⟨others, all⟩ : ∃ others, Mime.aliases rep.mime = rep.mime :: others := by
    have head := Mime.aliases_head rep.mime
    cases listed : Mime.aliases rep.mime with
    | nil =>
      rw [listed] at head
      cases head
    | cons first others =>
      rw [listed, List.head?_cons, Option.some.injEq] at head
      exact ⟨others, by rw [head]⟩
  have kept : (Mime.aliases rep.mime).filter
      (fun mime => !serves.any (fun serve => serve.mimes.contains mime)) =
        rep.mime :: others.filter
          (fun mime => !serves.any (fun serve => serve.mimes.contains mime)) := by
    rw [all]
    exact List.filter_cons_of_pos fresh
  refine ⟨others.filter (fun mime => !serves.any (fun serve => serve.mimes.contains mime)), ?_, ?_⟩
  · rw [servesFrom, kept, if_neg (List.cons_ne_nil _ _), servesFrom]
  rw [← kept]
  have names : announced (serves ++ [{
      mimes := (Mime.aliases rep.mime).filter
        (fun mime => !serves.any (fun serve => serve.mimes.contains mime)),
      bytes := rep.bytes }]) = announced serves ++ (Mime.aliases rep.mime).filter
        (fun mime => !serves.any (fun serve => serve.mimes.contains mime)) := by
    simp [announced]
  refine ⟨?_, ?_, ?_⟩
  · refine List.rel_append announcing.entries (List.Forall₂.cons ⟨rfl, ?_⟩ List.Forall₂.nil)
    rw [kept]
    rfl
  · rw [names, List.nodup_append]
    refine ⟨announcing.once, (Mime.aliases_nodup rep.mime).filter _, ?_⟩
    rintro name old other added rfl
    have unused := (List.mem_filter.mp added).2
    rw [(mem_announced_iff serves name).mp old] at unused
    cases unused
  · intro name member
    rw [names, List.mem_append] at member
    obtain old | added := member
    · obtain ⟨other, among, same⟩ | unused := announcing.names name old
      · exact Or.inl ⟨other, List.mem_append_left _ among, same⟩
      · exact Or.inr unused
    · exact (Mime.mem_aliases rep.mime name (List.mem_filter.mp added).1).imp
        (fun own => ⟨rep, List.mem_append_right _ (List.mem_singleton_self rep), own⟩) id

/-- Representations that are apart are each announced. -/
theorem announcing_all (reps : List Rep)
    (apart : ∀ early rep late, reps = early ++ rep :: late → Apart early rep) :
    Announcing reps (servesFrom reps []) := by
  induction reps using List.reverseRecOn with
  | nil => exact Announcing.nil
  | append_singleton reps rep inductionHypothesis =>
    have before : ∀ early other late, reps = early ++ other :: late → Apart early other := by
      intro early other late split
      exact apart early other (late ++ [rep]) (by rw [split, List.append_assoc, List.cons_append])
    obtain ⟨mimes, next, announcing⟩ :=
      (inductionHypothesis before).step (apart reps rep [] rfl)
    rw [servesFrom_append, next]
    exact announcing

/-- Asked for by its own type, a representation answers with its own entry. The entries in front
announce other names in any case, and the entry of the representation begins with its own. -/
theorem find_own (early late : List Rep) (rep : Rep)
    (apart : ∀ before other after, early ++ rep :: late = before ++ other :: after →
      Apart before other) :
    ∃ serve, (servesFrom (early ++ rep :: late) []).find? (fun serve =>
        serve.mimes.any (fun name => Mime.eqIgnoreAsciiCase name rep.mime)) = some serve ∧
      serve.bytes = rep.bytes := by
  have announcing := announcing_all early fun before other after split =>
    apart before other (after ++ rep :: late) (by rw [split, List.append_assoc, List.cons_append])
  have own := apart early rep late rfl
  obtain ⟨mimes, next, _⟩ := announcing.step own
  obtain ⟨more, rest⟩ := servesFrom_prefix late (servesFrom [rep] (servesFrom early []))
  have skipped : (servesFrom early []).find? (fun serve =>
      serve.mimes.any (fun name => Mime.eqIgnoreAsciiCase name rep.mime)) = none := by
    rw [List.find?_eq_none]
    intro serve among
    rw [Bool.not_eq_true, List.any_eq_false]
    intro name listed same
    obtain ⟨other, earlier, spelled⟩ | text :=
      announcing.names name (List.mem_flatMap.mpr ⟨serve, among, listed⟩)
    · rw [spelled, own.1 other earlier] at same
      cases same
    · have empty := own.2 (Mime.isTextAlias_congr name rep.mime same text)
      rw [empty] at among
      cases among
  have answers : (rep.mime :: mimes).any (fun name => Mime.eqIgnoreAsciiCase name rep.mime) = true :=
    List.any_eq_true.mpr ⟨rep.mime, List.mem_cons_self, Mime.eqIgnoreAsciiCase_refl rep.mime⟩
  refine ⟨{ mimes := rep.mime :: mimes, bytes := rep.bytes }, ?_, rfl⟩
  rw [servesFrom_append, ← List.singleton_append, servesFrom_append, rest, next, List.append_assoc,
    List.find?_append, skipped, Option.none_or]
  simp only [List.singleton_append, List.find?_cons, answers]

/-- A selection of selected types is announced whole: an entry for each representation, every
name once, and a request for a representation's own type answered by its own entry. -/
theorem no_representation_is_lost (offered ignore : List String) (selection : Selection)
    (chosen : selection.reps.map Rep.mime = Mime.select offered ignore) :
    List.Forall₂ (fun rep serve => serve.bytes = rep.bytes ∧ serve.mimes.head? = some rep.mime)
        selection.reps (serves selection) ∧
      (announced (serves selection)).Nodup ∧
      ∀ rep ∈ selection.reps,
        (∃ serve, (serves selection).find? (fun serve =>
            serve.mimes.any (fun name => Mime.eqIgnoreAsciiCase name rep.mime)) = some serve ∧
          serve.bytes = rep.bytes) ∧
        onSource (serves selection) rep.mime = some rep.bytes := by
  have apart : ∀ early rep late, selection.reps = early ++ rep :: late → Apart early rep := by
    intro early rep late split
    rw [split, List.map_append, List.map_cons] at chosen
    obtain ⟨others, first⟩ := Mime.select_apart offered ignore _ _ rep.mime chosen.symm
    exact ⟨fun other among => others other.mime (List.mem_map_of_mem among),
      fun spelled => List.map_eq_nil_iff.mp (first spelled)⟩
  have announcing := announcing_all selection.reps apart
  refine ⟨announcing.entries, announcing.once, fun rep member => ?_⟩
  obtain ⟨early, late, split⟩ := List.append_of_mem member
  obtain ⟨serve, found, own⟩ := find_own early late rep (split ▸ apart)
  rw [← split] at found
  refine ⟨⟨serve, found, own⟩, ?_⟩
  rw [onSource, serves, found, Option.some_or, Option.map_some, own]

/-- Plain text and a formatted form of it, each answered with its own bytes. -/
theorem text_and_its_markup_are_both_there :
    let selection : Selection :=
      { primary := { mime := "STRING", bytes := [98] },
        alternates := [{ mime := "text/html", bytes := [60, 98, 62] }] }
    List.Forall₂ (fun rep serve => serve.bytes = rep.bytes ∧ serve.mimes.head? = some rep.mime)
        selection.reps (serves selection) ∧
      (announced (serves selection)).Nodup ∧
      ∀ rep ∈ selection.reps,
        (∃ serve, (serves selection).find? (fun serve =>
            serve.mimes.any (fun name => Mime.eqIgnoreAsciiCase name rep.mime)) = some serve ∧
          serve.bytes = rep.bytes) ∧
        onSource (serves selection) rep.mime = some rep.bytes :=
  no_representation_is_lost ["text/html", "STRING"] [] _ (by decide)

end Yank
