import Mathlib

/-!
# Runs of partial steps

A system is a partial step: given a state and a label it either moves to one
state or refuses the label. A run takes the labels of a list in turn and exists
only when none is refused. Nondeterminism is in the choice of the labels.

An invariant of every step is an invariant of every run. Where a step keeps the
invariant only under a guard on the state before it, the invariant holds along
every run whose steps all meet the guard; the guard constrains the schedule and
never the state reached.

Messages on streams of their own keep no order: any one of those that are on the way may be
taken next. They are a list that is added to at the end and taken from anywhere.
-/

namespace Runs

universe u v
variable {State : Type u} {Label : Type v}

/-- Takes every label in turn, stopping at the first one refused. -/
def run (step : State → Label → Option State) : State → List Label → Option State
  | state, [] => some state
  | state, label :: labels => (step state label).bind (fun next => run step next labels)

/-- With no labels nothing happens. -/
@[simp] theorem run_nil (step : State → Label → Option State) (state : State) :
    run step state [] = some state := rfl

/-- A run of one label more is a step and then a run. -/
theorem run_cons_iff (step : State → Label → Option State) (state last : State) (label : Label)
    (labels : List Label) :
    run step state (label :: labels) = some last ↔
      ∃ next, step state label = some next ∧ run step next labels = some last := by
  simp [run, Option.bind_eq_some_iff]

/-- A run splits wherever its labels do. -/
theorem run_append_iff (step : State → Label → Option State) (state last : State)
    (early late : List Label) :
    run step state (early ++ late) = some last ↔
      ∃ middle, run step state early = some middle ∧ run step middle late = some last := by
  induction early generalizing state with
  | nil => simp
  | cons label labels inductionHypothesis =>
    simp only [List.cons_append, run_cons_iff, inductionHypothesis]
    constructor
    · rintro ⟨next, taken, middle, reached, rest⟩
      exact ⟨middle, ⟨next, taken, reached⟩, rest⟩
    · rintro ⟨middle, ⟨next, taken, reached⟩, rest⟩
      exact ⟨next, taken, middle, reached, rest⟩

/-- A run through a label is a run up to it, its step, and a run on from there. -/
theorem run_through_iff (step : State → Label → Option State) (state last : State)
    (early late : List Label) (label : Label) :
    run step state (early ++ label :: late) = some last ↔
      ∃ before after, run step state early = some before ∧ step before label = some after ∧
        run step after late = some last := by
  simp only [run_append_iff, run_cons_iff]
  constructor
  · rintro ⟨before, through, after, taken, rest⟩
    exact ⟨before, after, through, taken, rest⟩
  · rintro ⟨before, after, through, taken, rest⟩
    exact ⟨before, through, after, taken, rest⟩

/-- The last label of a run is taken where the others lead. -/
theorem run_concat_iff (step : State → Label → Option State) (state last : State)
    (labels : List Label) (label : Label) :
    run step state (labels ++ [label]) = some last ↔
      ∃ before, run step state labels = some before ∧ step before label = some last := by
  simp [run_through_iff]

/-- The guard holds of every label of the run where it is taken. -/
def Guarded (step : State → Label → Option State) (guard : State → Label → Prop) :
    State → List Label → Prop
  | _, [] => True
  | state, label :: labels =>
      guard state label ∧ ∀ next, step state label = some next → Guarded step guard next labels

/-- A guard that can be decided can be checked along a run. -/
instance decidableGuarded (step : State → Label → Option State) (guard : State → Label → Prop)
    [∀ state label, Decidable (guard state label)] :
    (state : State) → (labels : List Label) → Decidable (Guarded step guard state labels)
  | _, [] => inferInstanceAs (Decidable True)
  | state, label :: labels =>
      letI _rest (next : State) : Decidable (Guarded step guard next labels) :=
        decidableGuarded step guard next labels
      inferInstanceAs (Decidable (guard state label ∧
        ∀ next ∈ step state label, Guarded step guard next labels))

/-- A guard along a run is a guard along both its parts. The induction is on the early labels, and
the late part is asked for only where the early one gets through. -/
theorem guarded_append_iff (step : State → Label → Option State) (guard : State → Label → Prop)
    (state : State) (early late : List Label) :
    Guarded step guard state (early ++ late) ↔
      Guarded step guard state early ∧
        ∀ middle, run step state early = some middle → Guarded step guard middle late := by
  induction early generalizing state with
  | nil => simp [Guarded]
  | cons label labels inductionHypothesis =>
    simp only [List.cons_append, Guarded, run_cons_iff, inductionHypothesis]
    constructor
    · rintro ⟨first, rest⟩
      refine ⟨⟨first, fun next taken => (rest next taken).1⟩, ?_⟩
      rintro middle ⟨next, taken, reached⟩
      exact (rest next taken).2 middle reached
    · rintro ⟨⟨first, rest⟩, after⟩
      exact ⟨first, fun next taken =>
        ⟨rest next taken, fun middle reached => after middle ⟨next, taken, reached⟩⟩⟩

/-- Two guards along a run are one guard along it. -/
theorem guarded_and_iff (step : State → Label → Option State) (first second : State → Label → Prop)
    (state : State) (labels : List Label) :
    Guarded step (fun state label => first state label ∧ second state label) state labels ↔
      Guarded step first state labels ∧ Guarded step second state labels := by
  induction labels generalizing state with
  | nil => simp [Guarded]
  | cons label labels inductionHypothesis =>
    simp only [Guarded, inductionHypothesis]
    constructor
    · rintro ⟨⟨now, also⟩, rest⟩
      exact ⟨⟨now, fun next taken => (rest next taken).1⟩, also,
        fun next taken => (rest next taken).2⟩
    · rintro ⟨⟨now, rest⟩, also, others⟩
      exact ⟨⟨now, also⟩, fun next taken => ⟨rest next taken, others next taken⟩⟩

/-- A guard that an invariant brings about holds along every run of labels that keep
the invariant. -/
theorem guarded_of_invariant (step : State → Label → Option State)
    (guard : State → Label → Prop) (invariant : State → Prop) (allowed : Label → Prop)
    (kept : ∀ state label next, invariant state → allowed label → step state label = some next →
      invariant next)
    (guards : ∀ state label, invariant state → allowed label → guard state label)
    (state : State) (labels : List Label) (held : invariant state)
    (each : ∀ label ∈ labels, allowed label) : Guarded step guard state labels := by
  induction labels generalizing state with
  | nil => exact trivial
  | cons label labels inductionHypothesis =>
    rw [List.forall_mem_cons] at each
    refine ⟨guards state label held each.1, ?_⟩
    intro next taken
    exact inductionHypothesis next (kept state label next held each.1 taken) each.2

/-- What every guarded step keeps, every guarded run keeps. -/
theorem guarded_invariant (step : State → Label → Option State) (guard : State → Label → Prop)
    (invariant : State → Prop)
    (kept : ∀ state label next, invariant state → guard state label →
      step state label = some next → invariant next)
    (state last : State) (labels : List Label) (held : invariant state)
    (guarded : Guarded step guard state labels) (reached : run step state labels = some last) :
    invariant last := by
  induction labels generalizing state with
  | nil =>
    obtain rfl : state = last := Option.some.inj reached
    exact held
  | cons label labels inductionHypothesis =>
    obtain ⟨next, taken, rest⟩ := (run_cons_iff step state last label labels).mp reached
    exact inductionHypothesis next (kept state label next held guarded.1 taken)
      (guarded.2 next taken) rest

/-- Where one guarded step keeps an invariant and brings another guard about, a run
guarded the one way is guarded the other way. -/
theorem guarded_of_guarded (step : State → Label → Option State) (guard other : State → Label → Prop)
    (invariant : State → Prop)
    (kept : ∀ state label next, invariant state → guard state label →
      step state label = some next → invariant next)
    (guards : ∀ state label, invariant state → guard state label → other state label)
    (state : State) (labels : List Label) (held : invariant state)
    (guarded : Guarded step guard state labels) : Guarded step other state labels := by
  induction labels generalizing state with
  | nil => exact trivial
  | cons label labels inductionHypothesis =>
    refine ⟨guards state label held guarded.1, ?_⟩
    intro next taken
    exact inductionHypothesis next (kept state label next held guarded.1 taken)
      (guarded.2 next taken)

/-- Where a step keeps an invariant exactly under a guard, a run meets the guard
exactly when the invariant holds of every state it reaches. -/
theorem guarded_iff_reached (step : State → Label → Option State) (guard : State → Label → Prop)
    (invariant : State → Prop)
    (exactly : ∀ state label next, invariant state → step state label = some next →
      (invariant next ↔ guard state label))
    (state last : State) (labels : List Label) (held : invariant state)
    (reached : run step state labels = some last) :
    Guarded step guard state labels ↔
      ∀ early late middle, labels = early ++ late → run step state early = some middle →
        invariant middle := by
  constructor
  · intro guarded early late middle split through
    subst split
    have first := ((guarded_append_iff step guard state early late).mp guarded).1
    have keeps : ∀ state label next, invariant state → guard state label →
        step state label = some next → invariant next :=
      fun state label next held allowed taken => (exactly state label next held taken).mpr allowed
    exact guarded_invariant step guard invariant keeps state middle early held first through
  · intro always
    induction labels generalizing state with
    | nil => exact trivial
    | cons label labels inductionHypothesis =>
      obtain ⟨next, taken, rest⟩ := (run_cons_iff step state last label labels).mp reached
      have after : invariant next :=
        always [label] labels next rfl ((run_cons_iff _ _ _ _ _).mpr ⟨next, taken, rfl⟩)
      refine ⟨(exactly state label next held taken).mp after, ?_⟩
      intro other also
      obtain rfl : next = other := Option.some.inj (taken.symm.trans also)
      refine inductionHypothesis next after rest ?_
      intro early late middle split through
      exact always (label :: early) late middle (by rw [split]; rfl)
        ((run_cons_iff _ _ _ _ _).mpr ⟨next, taken, through⟩)

/-- Where under an invariant a step is fine exactly under a guard, a run meets the guard
exactly when every one of its steps is fine. -/
theorem guarded_iff_steps (step : State → Label → Option State) (guard : State → Label → Prop)
    (invariant : State → Prop) (fine : State → Label → State → Prop)
    (kept : ∀ state label next, invariant state → step state label = some next → invariant next)
    (exactly : ∀ state label next, invariant state → step state label = some next →
      (fine state label next ↔ guard state label))
    (state last : State) (labels : List Label) (held : invariant state)
    (reached : run step state labels = some last) :
    Guarded step guard state labels ↔
      ∀ early label late before after, labels = early ++ label :: late →
        run step state early = some before → step before label = some after →
        fine before label after := by
  induction labels generalizing state with
  | nil =>
    constructor
    · intro _ early label late before after split
      cases early with
      | nil => cases split
      | cons first early => cases split
    · intro _
      exact trivial
  | cons first labels inductionHypothesis =>
    obtain ⟨next, taken, rest⟩ := (run_cons_iff step state last first labels).mp reached
    have later := inductionHypothesis next (kept state first next held taken) rest
    constructor
    · rintro ⟨guarded, others⟩ early label late before after split through stepped
      cases early with
      | nil =>
        obtain ⟨rfl, rfl⟩ := List.cons.inj split
        obtain rfl : state = before := Option.some.inj through
        exact (exactly state first after held stepped).mpr guarded
      | cons other early =>
        obtain ⟨rfl, parts⟩ := List.cons.inj split
        obtain ⟨second, moved, through⟩ := (run_cons_iff _ _ _ _ _).mp through
        obtain rfl : next = second := Option.some.inj (taken.symm.trans moved)
        exact later.mp (others next taken) early label late before after parts through stepped
    · intro always
      refine ⟨?_, ?_⟩
      · exact (exactly state first next held taken).mp
          (always [] first labels state next rfl rfl taken)
      · intro other moved
        obtain rfl : next = other := Option.some.inj (taken.symm.trans moved)
        refine later.mpr ?_
        intro early label late before after split through stepped
        exact always (first :: early) label late before after (by rw [split]; rfl)
          ((run_cons_iff _ _ _ _ _).mpr ⟨next, taken, through⟩) stepped

/-- What every step keeps, every run keeps. -/
theorem run_invariant (step : State → Label → Option State) (invariant : State → Prop)
    (kept : ∀ state label next, invariant state → step state label = some next → invariant next)
    (state last : State) (labels : List Label) (held : invariant state)
    (reached : run step state labels = some last) : invariant last := by
  induction labels generalizing state with
  | nil =>
    obtain rfl : state = last := Option.some.inj reached
    exact held
  | cons label labels inductionHypothesis =>
    obtain ⟨next, taken, rest⟩ := (run_cons_iff step state last label labels).mp reached
    exact inductionHypothesis next (kept state label next held taken) rest

/-- A reflexive and transitive relation that every step respects, under an
invariant, relates the two ends of every run. -/
theorem run_relation (step : State → Label → Option State) (invariant : State → Prop)
    (relation : State → State → Prop)
    (kept : ∀ state label next, invariant state → step state label = some next → invariant next)
    (respected : ∀ state label next, invariant state → step state label = some next →
      relation state next)
    (refl : ∀ state, relation state state)
    (trans : ∀ first second third, relation first second → relation second third →
      relation first third)
    (state last : State) (labels : List Label) (held : invariant state)
    (reached : run step state labels = some last) : relation state last := by
  induction labels generalizing state with
  | nil =>
    obtain rfl : state = last := Option.some.inj reached
    exact refl state
  | cons label labels inductionHypothesis =>
    obtain ⟨next, taken, rest⟩ := (run_cons_iff step state last label labels).mp reached
    exact trans state next last (respected state label next held taken)
      (inductionHypothesis next (kept state label next held taken) rest)

/-- Steps that each use up some of a finite amount of work are no more than there is work. The
induction is on the labels and carries the invariant, under which each step pays for itself. -/
theorem run_works (step : State → Label → Option State) (invariant : State → Prop)
    (allowed : Label → Prop) (work : State → Nat)
    (works : ∀ state label next, invariant state → allowed label → step state label = some next →
      invariant next ∧ work next + 1 ≤ work state)
    (state last : State) (labels : List Label) (held : invariant state)
    (each : ∀ label ∈ labels, allowed label) (reached : run step state labels = some last) :
    work last + labels.length ≤ work state := by
  induction labels generalizing state with
  | nil =>
    obtain rfl : state = last := Option.some.inj reached
    exact le_rfl
  | cons label labels inductionHypothesis =>
    obtain ⟨next, taken, rest⟩ := (run_cons_iff step state last label labels).mp reached
    rw [List.forall_mem_cons] at each
    obtain ⟨kept, now⟩ := works state label next held each.1 taken
    have later := inductionHypothesis next kept each.2 rest
    rw [List.length_cons]
    omega

section Flights
variable {Message : Type u}

/-- Whatever is taken, every other message is left. -/
theorem taken_or_left (messages : List Message) (index : Nat) (taken message : Message)
    (found : messages[index]? = some taken) (member : message ∈ messages) :
    message = taken ∨ message ∈ messages.eraseIdx index := by
  obtain ⟨place, placed⟩ := List.getElem?_of_mem member
  by_cases same : place = index
  · rw [same, found] at placed
    exact .inl (Option.some.inj placed).symm
  · exact .inr (List.mem_eraseIdx_iff_getElem?.mpr ⟨place, same, placed⟩)

/-- One message less is left. -/
theorem length_left (messages : List Message) (index : Nat) (inside : index < messages.length) :
    (messages.eraseIdx index).length + 1 = messages.length := by
  have left := List.length_eraseIdx_of_lt inside
  omega

end Flights

end Runs
