import Yank.Runs
import Yank.Stamp

/-!
# One pull at a time of each clip

Whoever wants to pull a clip claims its stamp first. A claim takes a `Notified`, then tries
to insert the stamp into the set of those being pulled, and when it is there already awaits
the `Notified` and starts again. A pull that is dropped takes its stamp out of the set and
then notifies everyone who waits, for whatever stamp. All of these are steps of their own,
and steps of other tasks come between any two of them.

A `Notified` is woken by any `notify_waiters` issued after it was created, and so it is as
good as the number of those issued before.
-/

namespace Yank

/-- Where a caller of `claim` is at. A claim that was not polled yet did nothing, and is not
told from no claim. -/
inductive PullPhase (Id : Type) where
  | idle
  /-- At the top of the loop. -/
  | claiming (stamp : Stamp Id)
  /-- Created its `Notified` after so many wake-ups, and is about to insert. -/
  | trying (stamp : Stamp Id) (seen : Nat)
  /-- Awaits its `Notified`. -/
  | parked (stamp : Stamp Id) (seen : Nat)
  /-- Has its `Pull`. -/
  | granted (stamp : Stamp Id)
  /-- The drop of its `Pull` removed the stamp, and did not wake anyone yet. -/
  | dropping (stamp : Stamp Id)
deriving DecidableEq

/-- The clips being pulled, and everyone who claims, holds or drops a pull. -/
structure Pulls (Caller Id : Type) where
  stamps : Finset (Stamp Id)
  /-- How many times `notify_waiters` was called on `done`. -/
  done : Nat
  phase : Caller → PullPhase Id

/-- What can happen next, and to which caller. -/
inductive PullLabel (Caller Id : Type) where
  | claim (caller : Caller) (stamp : Stamp Id)
  | notified (caller : Caller)
  | insert (caller : Caller)
  /-- The `Notified` it awaits is done. -/
  | wake (caller : Caller)
  /-- Its claim is dropped where it awaits. -/
  | cancel (caller : Caller)
  | remove (caller : Caller)
  | notifyWaiters (caller : Caller)
deriving DecidableEq

namespace Pulls

variable {Caller Id : Type} [DecidableEq Caller] [DecidableEq Id]

/-- Nothing is claimed. -/
def start : Pulls Caller Id where
  stamps := ∅
  done := 0
  phase _ := .idle

/-- Moves one caller. -/
def move (caller : Caller) (phase : PullPhase Id) (state : Pulls Caller Id) : Pulls Caller Id :=
  { state with phase := Function.update state.phase caller phase }

/-- The steps of `claim` and of the drop of a `Pull`. -/
def step (state : Pulls Caller Id) : PullLabel Caller Id → Option (Pulls Caller Id)
  | .claim caller stamp =>
      match state.phase caller with
      | .idle => some (state.move caller (.claiming stamp))
      | _ => none
  | .notified caller =>
      match state.phase caller with
      | .claiming stamp => some (state.move caller (.trying stamp state.done))
      | _ => none
  | .insert caller =>
      match state.phase caller with
      | .trying stamp seen =>
          if stamp ∈ state.stamps then some (state.move caller (.parked stamp seen))
          else some { state.move caller (.granted stamp) with stamps := insert stamp state.stamps }
      | _ => none
  | .wake caller =>
      match state.phase caller with
      | .parked stamp seen =>
          if seen < state.done then some (state.move caller (.claiming stamp)) else none
      | _ => none
  | .cancel caller =>
      match state.phase caller with
      | .parked _ _ => some (state.move caller .idle)
      | _ => none
  | .remove caller =>
      match state.phase caller with
      | .granted stamp =>
          some { state.move caller (.dropping stamp) with stamps := state.stamps.erase stamp }
      | _ => none
  | .notifyWaiters caller =>
      match state.phase caller with
      | .dropping _ => some { state.move caller .idle with done := state.done + 1 }
      | _ => none

/-- Somebody has a pull of the stamp. -/
def Held (state : Pulls Caller Id) (stamp : Stamp Id) : Prop :=
  ∃ caller, state.phase caller = .granted stamp

/-- A drop that removed the stamp has yet to wake the waiters. -/
def Leaving (state : Pulls Caller Id) (stamp : Stamp Id) : Prop :=
  ∃ caller, state.phase caller = .dropping stamp

/-- The caller is parked on the stamp, and its `Notified` is not done. -/
def Waits (state : Pulls Caller Id) (caller : Caller) (stamp : Stamp Id) : Prop :=
  ∃ seen, state.phase caller = .parked stamp seen ∧ ¬ seen < state.done

/-- What holds whatever was claimed, cancelled and dropped. -/
structure Fair (state : Pulls Caller Id) : Prop where
  /-- The set is of the stamps that are held. -/
  held : ∀ stamp, stamp ∈ state.stamps ↔ state.Held stamp
  once : ∀ first second stamp, state.phase first = .granted stamp →
    state.phase second = .granted stamp → first = second
  /-- No `Notified` is of a later time. -/
  tried : ∀ caller stamp seen, state.phase caller = .trying stamp seen → seen ≤ state.done
  parked : ∀ caller stamp seen, state.phase caller = .parked stamp seen → seen ≤ state.done
  /-- Somebody will wake who waits. -/
  awaited : ∀ caller stamp, state.Waits caller stamp → state.Held stamp ∨ state.Leaving stamp

omit [DecidableEq Id] in
/-- A caller that moves is where it went, and the others are where they were. -/
theorem move_phase_iff (state : Pulls Caller Id) (caller other : Caller)
    (phase seen : PullPhase Id) :
    (state.move caller phase).phase other = seen ↔
      (other = caller ∧ phase = seen) ∨ (other ≠ caller ∧ state.phase other = seen) := by
  by_cases same : other = caller
  · simp [move, same]
  · simp [move, same]

omit [DecidableEq Id] in
/-- What the caller has not come to was so before. -/
theorem move_before (state : Pulls Caller Id) (caller other : Caller) (phase seen : PullPhase Id)
    (apart : phase ≠ seen) (now : (state.move caller phase).phase other = seen) :
    state.phase other = seen := by
  obtain ⟨_, same⟩ | ⟨_, before⟩ := (move_phase_iff ..).mp now
  · exact absurd same apart
  · exact before

/-- What a step does, and when. -/
inductive Moves (state : Pulls Caller Id) : Pulls Caller Id → Prop where
  | claim (caller : Caller) (stamp : Stamp Id) (phase : state.phase caller = .idle) :
      Moves state (state.move caller (.claiming stamp))
  | notified (caller : Caller) (stamp : Stamp Id) (phase : state.phase caller = .claiming stamp) :
      Moves state (state.move caller (.trying stamp state.done))
  | park (caller : Caller) (stamp : Stamp Id) (seen : Nat)
      (phase : state.phase caller = .trying stamp seen) (taken : stamp ∈ state.stamps) :
      Moves state (state.move caller (.parked stamp seen))
  | grant (caller : Caller) (stamp : Stamp Id) (seen : Nat)
      (phase : state.phase caller = .trying stamp seen) (free : stamp ∉ state.stamps) :
      Moves state { state.move caller (.granted stamp) with stamps := insert stamp state.stamps }
  | wake (caller : Caller) (stamp : Stamp Id) (seen : Nat)
      (phase : state.phase caller = .parked stamp seen) (woken : seen < state.done) :
      Moves state (state.move caller (.claiming stamp))
  | cancel (caller : Caller) (stamp : Stamp Id) (seen : Nat)
      (phase : state.phase caller = .parked stamp seen) : Moves state (state.move caller .idle)
  | remove (caller : Caller) (stamp : Stamp Id) (phase : state.phase caller = .granted stamp) :
      Moves state
        { state.move caller (.dropping stamp) with stamps := state.stamps.erase stamp }
  | notifyWaiters (caller : Caller) (stamp : Stamp Id)
      (phase : state.phase caller = .dropping stamp) :
      Moves state { state.move caller .idle with done := state.done + 1 }

/-- A step moves the caller it is of. The label and the phase of the caller say which case of
`Moves` it is, with the guard of the source's step. -/
theorem step_moves (state next : Pulls Caller Id) (label : PullLabel Caller Id)
    (taken : state.step label = some next) : Moves state next := by
  cases label with
  | claim caller stamp =>
    cases phase : state.phase caller <;>
      simp only [step, phase, Option.some.injEq, reduceCtorEq] at taken
    exact taken ▸ .claim caller stamp phase
  | notified caller =>
    cases phase : state.phase caller <;>
      simp only [step, phase, Option.some.injEq, reduceCtorEq] at taken
    exact taken ▸ .notified caller _ phase
  | insert caller =>
    cases phase : state.phase caller <;> simp only [step, phase, reduceCtorEq] at taken
    rename_i stamp seen
    by_cases member : stamp ∈ state.stamps
    · rw [if_pos member] at taken
      exact Option.some.inj taken ▸ .park caller stamp seen phase member
    · rw [if_neg member] at taken
      exact Option.some.inj taken ▸ .grant caller stamp seen phase member
  | wake caller =>
    cases phase : state.phase caller <;>
      simp only [step, phase, Option.ite_none_right_eq_some, Option.some.injEq,
        reduceCtorEq] at taken
    exact taken.2 ▸ .wake caller _ _ phase taken.1
  | cancel caller =>
    cases phase : state.phase caller <;>
      simp only [step, phase, Option.some.injEq, reduceCtorEq] at taken
    exact taken ▸ .cancel caller _ _ phase
  | remove caller =>
    cases phase : state.phase caller <;>
      simp only [step, phase, Option.some.injEq, reduceCtorEq] at taken
    exact taken ▸ .remove caller _ phase
  | notifyWaiters caller =>
    cases phase : state.phase caller <;>
      simp only [step, phase, Option.some.injEq, reduceCtorEq] at taken
    exact taken ▸ .notifyWaiters caller _ phase

omit [DecidableEq Id] in
/-- A caller that neither gets a pull nor lets go of one leaves things fair, once it parks
on nothing but a stamp that is held. -/
theorem Fair.moved (state : Pulls Caller Id) (fair : Fair state) (caller : Caller)
    (phase : PullPhase Id)
    (left : ∀ stamp, state.phase caller ≠ .granted stamp ∧ state.phase caller ≠ .dropping stamp)
    (reached : ∀ stamp, phase ≠ .granted stamp ∧ phase ≠ .dropping stamp)
    (tried : ∀ stamp seen, phase = .trying stamp seen → seen ≤ state.done)
    (parked : ∀ stamp seen, phase = .parked stamp seen → seen ≤ state.done ∧ stamp ∈ state.stamps) :
    Fair (state.move caller phase) := by
  have grants (other : Caller) (stamp : Stamp Id) :
      (state.move caller phase).phase other = .granted stamp ↔
        state.phase other = .granted stamp := by
    rw [move_phase_iff]
    have := left stamp
    have := reached stamp
    grind
  have drops (other : Caller) (stamp : Stamp Id) :
      (state.move caller phase).phase other = .dropping stamp ↔
        state.phase other = .dropping stamp := by
    rw [move_phase_iff]
    have := left stamp
    have := reached stamp
    grind
  constructor
  · intro stamp
    simp only [Held, grants]
    exact fair.held stamp
  · intro first second stamp
    simp only [grants]
    exact fair.once first second stamp
  · intro other stamp seen tries
    obtain ⟨_, now⟩ | ⟨_, before⟩ := (move_phase_iff ..).mp tries
    · exact tried stamp seen now
    · exact fair.tried other stamp seen before
  · intro other stamp seen parks
    obtain ⟨_, now⟩ | ⟨_, before⟩ := (move_phase_iff ..).mp parks
    · exact (parked stamp seen now).1
    · exact fair.parked other stamp seen before
  · rintro other stamp ⟨seen, parks, sleeps⟩
    simp only [Held, Leaving, grants, drops]
    obtain ⟨_, now⟩ | ⟨_, before⟩ := (move_phase_iff ..).mp parks
    · exact .inl ((fair.held stamp).mp (parked stamp seen now).2)
    · exact fair.awaited other stamp ⟨seen, before, sleeps⟩

/-- A stamp that nobody holds may be granted. The caller goes from trying to holding, nobody else
moves, and the stamp joins those that are held. -/
theorem Fair.grant (state : Pulls Caller Id) (fair : Fair state) (caller : Caller)
    (stamp : Stamp Id) (seen : Nat) (phase : state.phase caller = .trying stamp seen)
    (free : stamp ∉ state.stamps) :
    Fair { state.move caller (.granted stamp) with stamps := insert stamp state.stamps } := by
  have grants (other : Caller) (held : Stamp Id) :
      (state.move caller (.granted stamp)).phase other = .granted held ↔
        other = caller ∧ stamp = held ∨ state.phase other = .granted held := by
    rw [move_phase_iff]
    grind
  have drops (other : Caller) (left : Stamp Id) :
      (state.move caller (.granted stamp)).phase other = .dropping left ↔
        state.phase other = .dropping left := by
    rw [move_phase_iff]
    grind
  have nobody : ∀ other, state.phase other ≠ .granted stamp := by
    intro other holds
    exact free ((fair.held stamp).mpr ⟨other, holds⟩)
  constructor
  · intro held
    simp only [Held, grants, Finset.mem_insert, fair.held]
    constructor
    · rintro (rfl | ⟨other, holds⟩)
      · exact ⟨caller, .inl ⟨rfl, rfl⟩⟩
      · exact ⟨other, .inr holds⟩
    · rintro ⟨other, ⟨_, rfl⟩ | holds⟩
      · exact .inl rfl
      · exact .inr ⟨other, holds⟩
  · intro first second held one another
    obtain ⟨rfl, rfl⟩ | before := (grants ..).mp one
    · obtain ⟨rfl, _⟩ | also := (grants ..).mp another
      · rfl
      · exact absurd also (nobody second)
    · obtain ⟨rfl, rfl⟩ | also := (grants ..).mp another
      · exact absurd before (nobody first)
      · exact fair.once first second held before also
  · intro other tried since tries
    exact fair.tried other tried since (move_before _ _ _ _ _ (by simp) tries)
  · intro other parked since parks
    exact fair.parked other parked since (move_before _ _ _ _ _ (by simp) parks)
  · rintro other parked ⟨since, parks, sleeps⟩
    have before := move_before _ _ _ _ _ (by simp) parks
    simp only [Held, Leaving, grants, drops]
    obtain ⟨holder, holds⟩ | leaves := fair.awaited other parked ⟨since, before, sleeps⟩
    · exact .inl ⟨holder, .inr holds⟩
    · exact .inr leaves

/-- A pull may be dropped. The caller held it alone, so nobody holds it once it is on its way to
be dropped. -/
theorem Fair.remove (state : Pulls Caller Id) (fair : Fair state) (caller : Caller)
    (stamp : Stamp Id) (phase : state.phase caller = .granted stamp) :
    Fair { state.move caller (.dropping stamp) with stamps := state.stamps.erase stamp } := by
  have grants (other : Caller) (held : Stamp Id) :
      (state.move caller (.dropping stamp)).phase other = .granted held ↔
        held ≠ stamp ∧ state.phase other = .granted held := by
    rw [move_phase_iff]
    have := fair.once other caller held
    grind
  constructor
  · intro held
    simp only [Held, grants, Finset.mem_erase, fair.held, exists_and_left]
  · intro first second held one another
    exact fair.once first second held ((grants ..).mp one).2 ((grants ..).mp another).2
  · intro other tried since tries
    exact fair.tried other tried since (move_before _ _ _ _ _ (by simp) tries)
  · intro other parked since parks
    exact fair.parked other parked since (move_before _ _ _ _ _ (by simp) parks)
  · rintro other parked ⟨since, parks, sleeps⟩
    have before := move_before _ _ _ _ _ (by simp) parks
    by_cases same : parked = stamp
    · exact .inr ⟨caller, by simp [move, same]⟩
    · simp only [Held, Leaving, grants]
      obtain ⟨holder, holds⟩ | ⟨dropper, drops⟩ :=
        fair.awaited other parked ⟨since, before, sleeps⟩
      · exact .inl ⟨holder, same, holds⟩
      · refine .inr ⟨dropper, (move_phase_iff ..).mpr (.inr ⟨?_, drops⟩)⟩
        rintro rfl
        rw [phase] at drops
        cases drops

omit [DecidableEq Id] in
/-- Once everyone is woken, nobody waits for anything. The count of drops goes up, which is what
those who wait compare with the one they saw. -/
theorem Fair.notifyWaiters (state : Pulls Caller Id) (fair : Fair state) (caller : Caller)
    (stamp : Stamp Id) (phase : state.phase caller = .dropping stamp) :
    Fair { state.move caller .idle with done := state.done + 1 } := by
  have grants (other : Caller) (held : Stamp Id) :
      (state.move caller .idle).phase other = .granted held ↔
        state.phase other = .granted held := by
    rw [move_phase_iff]
    grind
  constructor
  · intro held
    simp only [Held, grants]
    exact fair.held held
  · intro first second held
    simp only [grants]
    exact fair.once first second held
  · intro other tried since tries
    have before := move_before _ _ _ _ _ (by simp) tries
    exact Nat.le_succ_of_le (fair.tried other tried since before)
  · intro other parked since parks
    have before := move_before _ _ _ _ _ (by simp) parks
    exact Nat.le_succ_of_le (fair.parked other parked since before)
  · rintro other parked ⟨since, parks, sleeps⟩
    have before := move_before _ _ _ _ _ (by simp) parks
    exact absurd (Nat.lt_succ_of_le (fair.parked other parked since before)) sleeps

/-- Every step is fair. -/
theorem Fair.step (state : Pulls Caller Id) (label : PullLabel Caller Id) (next : Pulls Caller Id)
    (fair : Fair state) (taken : state.step label = some next) : Fair next := by
  cases step_moves state next label taken with
  | claim caller stamp phase =>
    exact fair.moved state caller _ (by simp [phase]) (by simp) (by simp) (by simp)
  | notified caller stamp phase =>
    exact fair.moved state caller _ (by simp [phase]) (by simp) (by simp) (by simp)
  | park caller stamp seen phase member =>
    refine fair.moved state caller _ (by simp [phase]) (by simp) (by simp) ?_
    intro parked since parks
    cases parks
    exact ⟨fair.tried caller stamp seen phase, member⟩
  | grant caller stamp seen phase free => exact fair.grant state caller stamp seen phase free
  | wake caller stamp seen phase woken =>
    exact fair.moved state caller _ (by simp [phase]) (by simp) (by simp) (by simp)
  | cancel caller stamp seen phase =>
    exact fair.moved state caller _ (by simp [phase]) (by simp) (by simp) (by simp)
  | remove caller stamp phase => exact fair.remove state caller stamp phase
  | notifyWaiters caller stamp phase => exact fair.notifyWaiters state caller stamp phase

omit [DecidableEq Caller] [DecidableEq Id] in
/-- Nobody pulls anything yet. -/
theorem fair_start : Fair (start : Pulls Caller Id) := by
  constructor <;> simp [start, Held, Waits]

/-- One pull at a time of each clip, and no waiter forgotten. Whatever was claimed, cancelled
and dropped in whatever order: a stamp has one pull at most; a claim that tries to insert its
stamp gets its pull there and then unless somebody has a pull of that very stamp; and while a
claim waits for its stamp, that stamp is held, or a drop that removed it has yet to wake the
waiters. -/
theorem one_pull_per_clip (labels : List (PullLabel Caller Id)) (state : Pulls Caller Id)
    (reached : Runs.run step start labels = some state) :
    (∀ first second stamp, state.phase first = .granted stamp →
      state.phase second = .granted stamp → first = second) ∧
    (∀ caller stamp seen, state.phase caller = .trying stamp seen →
      ∃ next, state.step (.insert caller) = some next ∧
        (next.phase caller = .granted stamp ↔ ¬ state.Held stamp)) ∧
    ∀ caller stamp, state.Waits caller stamp → state.Held stamp ∨ state.Leaving stamp := by
  have fair : Fair state :=
    Runs.run_invariant step Fair Fair.step start state labels fair_start reached
  refine ⟨fair.once, ?_, fair.awaited⟩
  intro caller stamp seen phase
  rw [← fair.held stamp]
  by_cases member : stamp ∈ state.stamps
  · refine ⟨state.move caller (.parked stamp seen), by simp [Pulls.step, phase, member], ?_⟩
    simp [move, member]
  · refine ⟨_, by simp only [Pulls.step, phase, if_neg member]; rfl, ?_⟩
    simp [move, member]

/-- Two callers of one clip and one of another, when the drop of the first pull has removed
the stamp and not woken the second caller yet. -/
theorem one_pull_per_clip_of_three :
    let one : Stamp Nat := { millis := 1, origin := 0 }
    let two : Stamp Nat := { millis := 2, origin := 0 }
    let labels : List (PullLabel Nat Nat) :=
      [.claim 0 one, .notified 0, .claim 1 one, .notified 1, .insert 0, .insert 1,
        .claim 2 two, .notified 2, .remove 0]
    ∃ state, Runs.run step start labels = some state ∧ state.phase 0 = .dropping one ∧
      state.Waits 1 one ∧ (state.Held one ∨ state.Leaving one) ∧
      ∃ next, state.step (.insert 2) = some next ∧
        (next.phase 2 = .granted two ↔ ¬ state.Held two) := by
  intro one two labels
  have phases : (Runs.run step start labels).map
      (fun state => (state.phase 0, state.phase 1, state.phase 2, state.done)) =
        some (.dropping one, .parked one 0, .trying two 0, 0) := by decide
  obtain ⟨state, reached, seen⟩ := Option.map_eq_some_iff.mp phases
  simp only [Prod.mk.injEq] at seen
  obtain ⟨drops, parks, tries, done⟩ := seen
  have waits : state.Waits 1 one := ⟨0, parks, by simp [done]⟩
  obtain ⟨_, inserts, awaited⟩ := one_pull_per_clip labels state reached
  exact ⟨state, reached, drops, waits, awaited 1 one waits, inserts 2 two 0 tries⟩

end Pulls

end Yank
