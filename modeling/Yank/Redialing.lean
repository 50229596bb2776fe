import Mathlib.Algebra.BigOperators.Group.Finset.Basic
import Mathlib.Data.List.Chain
import Yank.Runs
import Yank.Stamp

/-!
# How often a machine is dialed

The task of a machine dials it, serves the connection and dials again. After a dial that failed,
and after a connection that died young, it waits before it does; the delay doubles with each
wait, up to a ceiling, and is back at its floor after a connection that lasted. An incoming
connection cuts the wait short, and so does a change of our own addresses once it took a while.

Time is in nanoseconds and passes anywhere. What is drawn at random for a delay is any that is a
fifth longer or shorter at most. What is said of the dials is said of connections, which are
written down as they end, and not of the delays that the task keeps. It is one life of the task:
a machine that is removed and paired again has another.
-/

namespace Yank

/-- Delay before redialing after a first failure. -/
def backoffMin : Duration := 1000000000

/-- Ceiling of that delay. -/
def backoffMax : Duration := 600000000000

/-- How long a wait lasts before a change of our own addresses cuts it short. -/
def addrChangeGrace : Duration := 60000000000

/-- A connection that lasted this long resets the delay. -/
def stableUptime : Duration := 10000000000

/-- Growing delays, up to a ceiling. -/
structure Backoff where
  min : Duration
  max : Duration
  current : Duration
deriving DecidableEq

namespace Backoff

def new (min max : Duration) : Backoff := { min, max, current := min }

/-- The following delay, toward the ceiling. -/
def advanced (backoff : Backoff) : Backoff :=
  { backoff with current := Min.min (backoff.current * 2) backoff.max }

/-- A delay that may be drawn: jittered by a fifth either way. -/
def MayDraw (backoff : Backoff) (delay : Duration) : Prop :=
  4 * backoff.current ≤ 5 * delay ∧ 5 * delay ≤ 6 * backoff.current

instance (backoff : Backoff) (delay : Duration) : Decidable (backoff.MayDraw delay) :=
  inferInstanceAs (Decidable (_ ∧ _))

/-- Returns to the floor delay. -/
def reset (backoff : Backoff) : Backoff := { backoff with current := backoff.min }

end Backoff

/-- Where the task of a machine is at. -/
inductive RedialPhase where
  | dialing
  /-- Serves a connection since then. -/
  | serving (held : Nat)
  | waiting (since due : Nat)
deriving DecidableEq

/-- The task of a machine. -/
structure Redialing where
  now : Nat
  backoff : Backoff
  phase : RedialPhase
  /-- Every dial there was, the last one first: when, and the delay it is followed by if it
  fails. -/
  dials : List (Nat × Duration)
  /-- Every time it was connected, the last one first: since when, and when that was over. Another
  connection may take the place of the one there is in between. -/
  connections : List (Nat × Nat)
deriving DecidableEq

/-- What happens to it. -/
inductive RedialLabel where
  | pass (span : Duration)
  /-- The wait is over, or our addresses changed. -/
  | due
  | moved
  /-- The machine dialed us. -/
  | adopt
  | connect
  | fail (delay : Duration)
  /-- The connection is gone. Where it lasted, there is no delay. -/
  | close (delay : Duration)
deriving DecidableEq

namespace Redialing

/-- The task dials as it starts. -/
def start : Redialing where
  now := 0
  backoff := .new backoffMin backoffMax
  phase := .dialing
  dials := [(0, backoffMin)]
  connections := []

/-- Dials. -/
def dial (task : Redialing) : Redialing :=
  { task with phase := .dialing, dials := (task.now, task.backoff.current) :: task.dials }

/-- The connection it was served since then is gone. -/
def closed (held : Nat) (task : Redialing) : Redialing :=
  { task with connections := (held, task.now) :: task.connections }

/-- Waits for the next delay. -/
def wait (delay : Duration) (task : Redialing) : Option Redialing :=
  if task.backoff.MayDraw delay then
    some { task with
      phase := .waiting task.now (task.now + delay)
      backoff := task.backoff.advanced }
  else none

def step (task : Redialing) : RedialLabel → Option Redialing
  | .pass span => some { task with now := task.now + span }
  | .due =>
      match task.phase with
      | .waiting _ due => if due ≤ task.now then some task.dial else none
      | _ => none
  | .moved =>
      match task.phase with
      | .waiting since _ => if since + addrChangeGrace ≤ task.now then some task.dial else none
      | _ => none
  | .adopt =>
      match task.phase with
      | .waiting _ _ => some { task with phase := .serving task.now }
      | _ => none
  | .connect =>
      match task.phase with
      | .dialing => some { task with phase := .serving task.now }
      | _ => none
  | .fail delay =>
      match task.phase with
      | .dialing => task.wait delay
      | _ => none
  | .close delay =>
      match task.phase with
      | .serving held =>
          if held + stableUptime ≤ task.now then
            some ({ task.closed held with backoff := task.backoff.reset } : Redialing).dial
          else (task.closed held).wait delay
      | _ => none

/-- One of the connections that began and ended in between lasted. -/
def Lasted (connections : List (Nat × Nat)) (begins ends : Nat) : Prop :=
  ∃ connection ∈ connections, begins ≤ connection.1 ∧ connection.1 + stableUptime ≤ connection.2 ∧
    connection.2 ≤ ends

/-- Between two dials a connection lasted, or the delay of the first went by, or as much of it
as a change of addresses leaves, and the delay doubled. -/
def Spaced (connections : List (Nat × Nat)) (later earlier : Nat × Duration) : Prop :=
  Lasted connections earlier.1 later.1 ∧ later.2 = backoffMin ∨
    5 * earlier.1 + min (4 * earlier.2) (5 * addrChangeGrace) ≤ 5 * later.1 ∧
      min (earlier.2 * 2) backoffMax ≤ later.2

/-- A connection that ends later takes nothing from what is so of the earlier ones. -/
theorem Spaced.cons (connection : Nat × Nat) {connections : List (Nat × Nat)}
    {later earlier : Nat × Duration} (spaced : Spaced connections later earlier) :
    Spaced (connection :: connections) later earlier := by
  obtain ⟨⟨lasting, member, within⟩, floor⟩ | apart := spaced
  · exact .inl ⟨⟨lasting, List.mem_cons_of_mem _ member, within⟩, floor⟩
  · exact .inr apart

/-- Where the task stands since its last dial. -/
def Since (task : Redialing) (time : Nat) (delay : Duration) : RedialPhase → Prop
  | .dialing => delay = task.backoff.current
  | .serving held => time ≤ held ∧ held ≤ task.now ∧ delay ≤ task.backoff.current
  | .waiting since due =>
      time ≤ since ∧ since ≤ task.now ∧ min (delay * 2) backoffMax ≤ task.backoff.current ∧
        5 * since + 4 * delay ≤ 5 * due ∧ 5 * due ≤ 5 * since + 6 * backoffMax

/-- Dials are spaced, delays are between the floor and the ceiling. -/
structure Paced (task : Redialing) : Prop where
  bounds : task.backoff.min = backoffMin ∧ task.backoff.max = backoffMax
  least : backoffMin ≤ task.backoff.current
  most : task.backoff.current ≤ backoffMax
  last : ∃ time delay rest, task.dials = (time, delay) :: rest ∧ time ≤ task.now ∧
    delay ≤ backoffMax ∧ task.Since time delay task.phase
  floors : ∀ dial ∈ task.dials, backoffMin ≤ dial.2
  spaced : task.dials.IsChain (Spaced task.connections)

/-- The first dial needs no space. -/
theorem start_paced : start.Paced where
  bounds := ⟨rfl, rfl⟩
  least := le_rfl
  most := by decide
  last := ⟨0, backoffMin, [], rfl, le_rfl, by decide, rfl⟩
  floors := List.forall_mem_singleton.mpr le_rfl
  spaced := List.isChain_singleton _

/-- Another dial, where it is spaced from the last one. The new dial is the last now, and its
neighbour is the one before it. -/
theorem dial_paced (task : Redialing) (time delay : Nat) (rest : List (Nat × Duration))
    (bounds : task.backoff.min = backoffMin ∧ task.backoff.max = backoffMax)
    (least : backoffMin ≤ task.backoff.current) (most : task.backoff.current ≤ backoffMax)
    (dials : task.dials = (time, delay) :: rest) (floors : ∀ dial ∈ task.dials, backoffMin ≤ dial.2)
    (spaced : task.dials.IsChain (Spaced task.connections))
    (apart : Spaced task.connections (task.now, task.backoff.current) (time, delay)) :
    task.dial.Paced where
  bounds := bounds
  least := least
  most := most
  last := ⟨task.now, task.backoff.current, task.dials, rfl, le_rfl, most, rfl⟩
  floors := List.forall_mem_cons.mpr ⟨least, floors⟩
  spaced := by
    rw [dials] at spaced
    rw [Redialing.dial, dials]
    exact List.isChain_cons_cons.mpr ⟨apart, spaced⟩

/-- The end of a connection is no dial. -/
theorem Paced.closed {task : Redialing} (paced : task.Paced) (held : Nat) :
    (task.closed held).Paced :=
  { paced with spaced := paced.spaced.imp fun _ _ => Spaced.cons (held, task.now) }

/-- A wait that starts, where the delay of the last dial is no longer than the next one. The delay
for the next dial is twice the one that is waited for, or the ceiling. -/
theorem Paced.wait {task next : Redialing} (paced : task.Paced) (delay : Duration)
    (follows : ∀ time first rest, task.dials = (time, first) :: rest →
      first ≤ task.backoff.current) (waits : task.wait delay = some next) : next.Paced := by
  obtain ⟨time, first, rest, dials, past, known, _⟩ := paced.last
  have before := follows time first rest dials
  have floor := paced.least
  have ceiling := paced.most
  have most := paced.bounds.2
  rw [Redialing.wait] at waits
  split at waits
  case isFalse => cases waits
  case isTrue drawn =>
    obtain ⟨short, long⟩ := drawn
    cases waits
    have doubled : task.backoff.advanced.current = min (task.backoff.current * 2) backoffMax := by
      rw [← most]
      rfl
    refine ⟨paced.bounds, ?_, ?_, ⟨time, first, rest, dials, past, known, past, le_rfl, ?_, ?_, ?_⟩,
      paced.floors, paced.spaced⟩
    · rw [doubled]
      exact le_min (floor.trans (Nat.le_mul_of_pos_right _ (by decide))) (floor.trans ceiling)
    · rw [doubled]
      exact min_le_right _ _
    · rw [doubled]
      exact min_le_min_right _ (Nat.mul_le_mul_right 2 before)
    · have enough : 4 * first ≤ 5 * delay := (Nat.mul_le_mul_left 4 before).trans short
      rw [Nat.mul_add]
      exact Nat.add_le_add_left enough _
    · have enough : 5 * delay ≤ 6 * backoffMax := long.trans (Nat.mul_le_mul_left 6 ceiling)
      rw [Nat.mul_add]
      exact Nat.add_le_add_left enough _

/-- Whatever happens next, dials are spaced. One case for each label. What is carried from one
dial to the next is its moment and its delay, and in a connection the moment it began. -/
theorem step_paced (task next : Redialing) (label : RedialLabel) (paced : task.Paced)
    (taken : step task label = some next) : next.Paced := by
  obtain ⟨time, delay, rest, dials, past, ceiling, stands⟩ := paced.last
  have latest : ∀ other first more, task.dials = (other, first) :: more →
      other = time ∧ first = delay := by
    intro other first more same
    rw [dials] at same
    obtain ⟨⟨⟩, _⟩ := List.cons.inj same
    exact ⟨rfl, rfl⟩
  cases label with
  | pass span =>
    cases taken
    refine { paced with last := ⟨time, delay, rest, dials, past.trans (Nat.le_add_right _ _), ceiling, ?_⟩ }
    dsimp only
    cases phase : task.phase with
    | dialing =>
      rw [phase] at stands
      exact stands
    | serving held =>
      rw [phase] at stands
      obtain ⟨after, before, short⟩ := stands
      exact ⟨after, before.trans (Nat.le_add_right _ _), short⟩
    | waiting since due =>
      rw [phase] at stands
      obtain ⟨after, before, spans⟩ := stands
      exact ⟨after, before.trans (Nat.le_add_right _ _), spans⟩
  | due =>
    rw [step] at taken
    split at taken
    case h_2 => cases taken
    case h_1 since due phase =>
      split at taken
      case isFalse => cases taken
      case isTrue elapsed =>
        cases taken
        rw [phase] at stands
        obtain ⟨after, _, doubled, enough, _⟩ := stands
        refine dial_paced task time delay rest paced.bounds paced.least paced.most dials
          paced.floors paced.spaced (.inr ⟨?_, doubled⟩)
        have least := min_le_left (4 * delay) (5 * addrChangeGrace)
        dsimp only
        omega
  | moved =>
    rw [step] at taken
    split at taken
    case h_2 => cases taken
    case h_1 since due phase =>
      split at taken
      case isFalse => cases taken
      case isTrue grace =>
        cases taken
        rw [phase] at stands
        obtain ⟨after, _, doubled, _, _⟩ := stands
        refine dial_paced task time delay rest paced.bounds paced.least paced.most dials
          paced.floors paced.spaced (.inr ⟨?_, doubled⟩)
        have least := min_le_right (4 * delay) (5 * addrChangeGrace)
        dsimp only
        omega
  | adopt =>
    rw [step] at taken
    split at taken
    case h_2 => cases taken
    case h_1 since due phase =>
      cases taken
      rw [phase] at stands
      obtain ⟨_, _, doubled, _, _⟩ := stands
      refine { paced with last := ⟨time, delay, rest, dials, past, ceiling, past, le_rfl, ?_⟩ }
      exact (le_min (Nat.le_mul_of_pos_right _ (by decide)) ceiling).trans doubled
  | connect =>
    rw [step] at taken
    split at taken
    case h_2 => cases taken
    case h_1 phase =>
      cases taken
      rw [phase] at stands
      exact { paced with last := ⟨time, delay, rest, dials, past, ceiling, past, le_rfl, stands.le⟩ }
  | fail drawn =>
    rw [step] at taken
    split at taken
    case h_2 => cases taken
    case h_1 phase =>
      rw [phase] at stands
      refine paced.wait drawn (fun other first more same => ?_) taken
      obtain ⟨rfl, rfl⟩ := latest other first more same
      exact stands.le
  | close drawn =>
    rw [step] at taken
    split at taken
    case h_2 => cases taken
    case h_1 held phase =>
      rw [phase] at stands
      obtain ⟨after, _, short⟩ := stands
      split at taken
      case isFalse =>
        refine (paced.closed held).wait drawn (fun other first more same => ?_) taken
        obtain ⟨rfl, rfl⟩ := latest other first more same
        exact short
      case isTrue lasted =>
        cases taken
        have floor : task.backoff.reset.current = backoffMin := paced.bounds.1
        refine dial_paced _ time delay rest paced.bounds floor.ge (floor.trans_le (by decide)) dials
          paced.floors (paced.closed held).spaced (.inl ⟨?_, floor⟩)
        exact ⟨(held, task.now), List.mem_cons_self, after, lasted, le_rfl⟩

/-- However a machine comes and goes while its task lives, whoever dials whom and however our
addresses change: between two dials of it there was a connection that lasted ten seconds, or four
fifths of the delay of the first went by, or a minute where that is less, and the delay doubled.
No wait is longer than a fifth more than the ceiling. -/
theorem dials_are_spaced (labels : List RedialLabel) (last : Redialing)
    (reached : Runs.run step start labels = some last) :
    last.dials.IsChain (Spaced last.connections) ∧
      ∀ since due, last.phase = .waiting since due → 5 * (due - since) ≤ 6 * backoffMax := by
  have paced := Runs.run_invariant step Paced
    (fun task label next => step_paced task next label) start last labels start_paced reached
  refine ⟨paced.spaced, ?_⟩
  intro since due phase
  obtain ⟨time, delay, rest, _, _, _, stands⟩ := paced.last
  rw [phase] at stands
  obtain ⟨_, _, _, _, short⟩ := stands
  omega

/-- How long so many waits that nothing interrupts last at least, in fifths: each is a minute, or
four fifths of a delay that doubles. -/
def pauses (count : Nat) : Nat :=
  ∑ turn ∈ Finset.range count, min (4 * min (backoffMin * 2 ^ turn) backoffMax) (5 * addrChangeGrace)

/-- Where no connection lasted, each dial comes a pause after the one before it, and the delay
doubles with each. -/
theorem spaced_pauses (connections : List (Nat × Nat)) (dials : List (Nat × Duration)) (time : Nat)
    (delay : Duration) (spaced : ((time, delay) :: dials).IsChain (Spaced connections))
    (first : ∀ earliest ∈ ((time, delay) :: dials).getLast?, backoffMin ≤ earliest.2)
    (short : ∀ connection ∈ connections, connection.2 < connection.1 + stableUptime) :
    pauses dials.length ≤ 5 * time ∧ min (backoffMin * 2 ^ dials.length) backoffMax ≤ delay := by
  induction dials generalizing time delay with
  | nil =>
    have least := first (time, delay) rfl
    exact ⟨Nat.zero_le _, by simpa [pauses] using .inl least⟩
  | cons dial dials inductionHypothesis =>
    obtain ⟨before, doubled⟩ := dial
    obtain ⟨apart, rest⟩ := List.isChain_cons_cons.mp spaced
    obtain ⟨paused, grown⟩ := inductionHypothesis before doubled rest first
    obtain ⟨⟨connection, member, _, lasted, _⟩, _⟩ | ⟨gap, next⟩ := apart
    · exact absurd lasted (short connection member).not_ge
    · have widened : min (4 * min (backoffMin * 2 ^ dials.length) backoffMax)
          (5 * addrChangeGrace) ≤ min (4 * doubled) (5 * addrChangeGrace) :=
        min_le_min_right _ (Nat.mul_le_mul_left 4 grown)
      refine ⟨?_, ?_⟩
      · calc pauses (dials.length + 1)
            = pauses dials.length + min (4 * min (backoffMin * 2 ^ dials.length) backoffMax)
                (5 * addrChangeGrace) := Finset.sum_range_succ _ _
          _ ≤ 5 * before + min (4 * doubled) (5 * addrChangeGrace) := Nat.add_le_add paused widened
          _ ≤ 5 * time := gap
      · calc min (backoffMin * 2 ^ (dials.length + 1)) backoffMax
            ≤ min (min (backoffMin * 2 ^ dials.length) backoffMax * 2) backoffMax := by
              rw [Nat.pow_succ, ← Nat.mul_assoc, ← Nat.mul_min_mul_right]
              refine le_min (le_min (min_le_left _ _) ?_) (min_le_right _ _)
              exact (min_le_right _ _).trans (Nat.le_mul_of_pos_right _ (by decide))
          _ ≤ min (doubled * 2) backoffMax := min_le_min_right _ (Nat.mul_le_mul_right 2 grown)
          _ ≤ delay := next

/-- An absent machine is not dialed often: where no connection to it lasted ten seconds since its
task began, so many dials after the first took at least so many pauses, which double up to a
minute each. -/
theorem absent_machine_is_dialed_seldom (labels : List RedialLabel) (last : Redialing)
    (reached : Runs.run step start labels = some last)
    (short : ∀ connection ∈ last.connections, connection.2 < connection.1 + stableUptime) :
    pauses (last.dials.length - 1) ≤ 5 * last.now := by
  have paced := Runs.run_invariant step Paced
    (fun task label next => step_paced task next label) start last labels start_paced reached
  obtain ⟨time, delay, rest, dials, past, _, _⟩ := paced.last
  have spaced := paced.spaced
  have floors := paced.floors
  rw [dials] at spaced floors ⊢
  obtain ⟨paused, _⟩ := spaced_pauses last.connections rest time delay spaced
    (fun earliest member => floors earliest (List.mem_of_mem_getLast? member)) short
  exact paused.trans (Nat.mul_le_mul_left 5 past)

/-- Two dials fail, the machine dials us and goes away at once, our addresses change, and a
connection lasts. -/
def flapping : List RedialLabel :=
  [.pass 30, .fail 800000000, .pass 800000000, .due, .fail 2400000000, .adopt, .pass 1000,
    .close 3200000000, .pass 3200000000, .due, .fail 6400000000, .pass 70000000000, .moved,
    .connect, .pass 10000000000, .close 0]

/-- Only the last of the five dials comes after a connection that lasted. -/
theorem dials_are_spaced_flapping :
    ∃ last, Runs.run step start flapping = some last ∧ last.dials.length = 5 ∧
      last.connections.length = 2 ∧ last.dials.IsChain (Spaced last.connections) := by
  have observed : (Runs.run step start flapping).map (fun last =>
      (last.dials.length, last.connections.length)) = some (5, 2) := by
    decide +kernel
  obtain ⟨last, ran, counts⟩ := Option.map_eq_some_iff.mp observed
  obtain ⟨dials, connections⟩ := Prod.mk.inj counts
  exact ⟨last, ran, dials, connections, (dials_are_spaced flapping last ran).1⟩

/-- The connection that lasts comes last: before it ends, four dials took three pauses. -/
theorem absent_machine_is_dialed_seldom_flapping :
    ∃ last, Runs.run step start (flapping.take 15) = some last ∧ last.dials.length = 4 ∧
      pauses 3 ≤ 5 * last.now := by
  have observed : (Runs.run step start (flapping.take 15)).map (fun last =>
      (last.dials.length, decide (∀ connection ∈ last.connections,
        connection.2 < connection.1 + stableUptime))) = some (4, true) := by
    decide +kernel
  obtain ⟨last, ran, holds⟩ := Option.map_eq_some_iff.mp observed
  obtain ⟨count, short⟩ := Prod.mk.inj holds
  have paused := absent_machine_is_dialed_seldom _ last ran (of_decide_eq_true short)
  rw [count] at paused
  exact ⟨last, ran, count, paused⟩

end Redialing

end Yank
