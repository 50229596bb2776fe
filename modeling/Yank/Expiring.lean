import Yank.Drift
import Yank.Runs
import Yank.TakenOver

/-!
# When a lifetime runs out

A loop drops the copy whose lifetime has run out. It sleeps until the deadline, at most a
minute, or until the next attempt to reach the compositor; a change of the clipboard and an
event of the compositor wake it before. Lifetimes are a matter of the wall clock, which may be
set at any moment, and sleeping is not.

A wake-up that comes while the loop is not asleep yet is kept for it. Time passes only while
the loop has nothing to do: it sleeps and is neither due nor woken, or it waits for the
compositor, which takes as long as it takes.
-/

namespace Yank

variable {Id Hash : Type}

/-- How often the service loop wakes while a copy has a lifetime. -/
def expiryFloor : Duration := 60000000000

/-- Where the service loop is at. -/
inductive ExpiringPhase where
  /-- At its top. -/
  | looking
  /-- Waits for the compositor. -/
  | connecting
  | sleeping (wakes : WithTop Nat)
  /-- About to drop what is due. -/
  | woken
deriving DecidableEq

/-- The service loop, the clipboard and the two clocks. -/
structure Expiring (Id Hash : Type) where
  board : Clipboard Id Hash
  wall : SystemTime
  /-- The clock that is never set. -/
  instant : Nat
  /-- A wake-up nobody took yet. -/
  notified : Bool
  reconnectAt : Option Nat
  phase : ExpiringPhase

/-- What happens to the loop and around it. -/
inductive ExpiringLabel (Id Hash : Type) where
  /-- An operation on the clipboard. -/
  | act (event : Clipboard.Event Id Hash)
  | pass (span : Duration)
  /-- The wall clock is set. -/
  | setClock (wall : SystemTime)
  | look
  /-- The compositor is there, or is tried again after a delay. -/
  | connected (again : Option Duration)
  /-- An event of the compositor; after the last one it is tried again. -/
  | event (again : Option Duration)
  | wake
  | awake
  | expire

/-- Whether an event is one that others bring about while the loop runs. -/
def Clipboard.Event.isOthers : Clipboard.Event Id Hash → Bool
  | .restart _ _ => false
  | .expire _ => false
  | _ => true

namespace Expiring

/-- The loop as it starts. -/
def start (board : Clipboard Id Hash) (wall : SystemTime) (instant : Nat)
    (reconnectAt : Option Nat) : Expiring Id Hash where
  board := board
  wall := wall
  instant := instant
  notified := true
  reconnectAt := reconnectAt
  phase := .looking

/-- How long the loop may sleep. A deadline that is past means no sleep at all. -/
def nextWake (state : Expiring Id Hash) : WithTop Duration :=
  let expiry := match state.board.expires with
    | none => ⊤
    | some deadline => ↑(min (deadline - state.wall).toNat expiryFloor)
  let reconnect := match state.reconnectAt with
    | none => ⊤
    | some due => ↑(due - state.instant)
  min expiry reconnect

/-- Goes to sleep. -/
def sleep (state : Expiring Id Hash) : Expiring Id Hash :=
  { state with phase := .sleeping (↑state.instant + state.nextWake) }

/-- Whether the loop has nothing to do for as long. -/
def idles (state : Expiring Id Hash) (span : Duration) : Bool :=
  match state.phase with
  | .connecting => true
  | .sleeping wakes => !state.notified && decide (↑(state.instant + span) ≤ wakes)
  | _ => false

variable [LinearOrder Id] [ContentHash Hash] [DecidableEq Hash]

/-- `ClipService::change`: whatever asks for something wakes the loop. -/
def change (event : Clipboard.Event Id Hash) (state : Expiring Id Hash) : Expiring Id Hash :=
  let outcome := state.board.step event
  { state with
    board := outcome.1
    notified := state.notified || decide (effectsOf outcome ≠ []) }

/-- One step of the loop, of the clocks or of others. -/
def step (state : Expiring Id Hash) : ExpiringLabel Id Hash → Option (Expiring Id Hash)
  | .act event => if event.isOthers then some (state.change event) else none
  | .pass span =>
      if state.idles span then
        some { state with instant := state.instant + span, wall := state.wall + (span : Int) }
      else none
  | .setClock wall => some { state with wall }
  | .look =>
      if state.phase = .looking then
        if state.reconnectAt.any (· ≤ state.instant) then some { state with phase := .connecting }
        else some state.sleep
      else none
  | .connected again =>
      if state.phase = .connecting then
        some { state with reconnectAt := again.map (state.instant + ·) }.sleep
      else none
  | .event again =>
      match state.phase with
      | .sleeping _ =>
          some
            { state with
              phase := .woken
              reconnectAt := (again.map (state.instant + ·)).or state.reconnectAt }
      | _ => none
  | .wake =>
      match state.phase, state.notified with
      | .sleeping _, true => some { state with phase := .woken, notified := false }
      | _, _ => none
  | .awake =>
      match state.phase with
      | .sleeping wakes =>
          if wakes ≤ ↑state.instant then some { state with phase := .woken } else none
      | _ => none
  | .expire =>
      if state.phase = .woken then
        some { state.change (.expire state.wall) with phase := .looking }
      else none

/-- Asleep with no wake-up under way, until `wakes`, while a lifetime ends at `deadline`. -/
structure Asleep (state : Expiring Id Hash) (wakes : WithTop Nat) (deadline : SystemTime) :
    Prop where
  sleeping : state.phase = .sleeping wakes
  unwoken : state.notified = false
  expires : state.board.expires = some deadline

/-- Whoever is asleep after a step just fell asleep or was asleep before, and then at most time
went by, not past the end of the sleep, or the clock was set. -/
inductive Slept (state next : Expiring Id Hash) (wakes : WithTop Nat) (deadline : SystemTime) :
    ExpiringLabel Id Hash → Prop where
  | fell (label : ExpiringLabel Id Hash) (expires : state.board.expires = some deadline)
      (wall : next.wall = state.wall) (instant : next.instant = state.instant)
      (due : wakes ≤ ↑(next.instant + (deadline - next.wall).toNat))
      (floor : wakes ≤ ↑(next.instant + expiryFloor)) : Slept state next wakes deadline label
  | undisturbed (label : ExpiringLabel Id Hash) (asleep : state.Asleep wakes deadline)
      (wall : next.wall = state.wall) (instant : next.instant = state.instant) :
      Slept state next wakes deadline label
  | passed (span : Duration) (asleep : state.Asleep wakes deadline)
      (wall : next.wall = state.wall + (span : Int)) (instant : next.instant = state.instant + span)
      (until_wakes : ↑(state.instant + span) ≤ wakes) :
      Slept state next wakes deadline (.pass span)
  | set (wall : SystemTime) (asleep : state.Asleep wakes deadline)
      (instant : next.instant = state.instant) : Slept state next wakes deadline (.setClock wall)

omit [LinearOrder Id] [ContentHash Hash] [DecidableEq Hash] in
/-- With a lifetime the loop sleeps until its end, and no longer than a minute. -/
theorem nextWake_le (state : Expiring Id Hash) (deadline : SystemTime)
    (expires : state.board.expires = some deadline) :
    state.nextWake ≤ ↑(min (deadline - state.wall).toNat expiryFloor) := by
  unfold nextWake
  rw [expires]
  exact min_le_left _ _

omit [LinearOrder Id] [ContentHash Hash] [DecidableEq Hash] in
/-- Nobody sleeps past the deadline, as the clock is now, or longer than a minute. -/
theorem sleep_le (state : Expiring Id Hash) (deadline : SystemTime) (wakes : WithTop Nat)
    (expires : state.board.expires = some deadline) (asleep : state.sleep.phase = .sleeping wakes) :
    wakes ≤ ↑(state.instant + (deadline - state.wall).toNat) ∧
      wakes ≤ ↑(state.instant + expiryFloor) := by
  obtain rfl : ↑state.instant + state.nextWake = wakes := ExpiringPhase.sleeping.inj asleep
  have bound := nextWake_le state deadline expires
  rw [Nat.cast_add, Nat.cast_add]
  exact ⟨add_le_add le_rfl (bound.trans (WithTop.coe_le_coe.mpr (min_le_left _ _))),
    add_le_add le_rfl (bound.trans (WithTop.coe_le_coe.mpr (min_le_right _ _)))⟩

/-- An operation that asks for nothing leaves the deadline alone. Whatever sets a clip or drops a
copy asks to save it. -/
theorem silent_expires (board : Clipboard Id Hash) (event : Clipboard.Event Id Hash)
    (running : ∀ clock settings, event ≠ .restart clock settings)
    (silent : effectsOf (board.step event) = []) :
    (board.step event).1.expires = board.expires := by
  have did := board.step_did event
  generalize board.step event = outcome at did silent ⊢
  cases did with
  | nothing => rfl
  | echoed => rfl
  | recorded => cases silent
  | applied ready first readied =>
    rw [Clipboard.apply_expires]
    cases readied with
    | landed => rfl
    | _ => cases silent
  | restarted clock settings restarts => exact absurd restarts (running clock settings)

/-- A change that wakes nobody leaves the sleeper asleep. -/
theorem asleep_of_change (state : Expiring Id Hash) (event : Clipboard.Event Id Hash)
    (running : ∀ clock settings, event ≠ .restart clock settings) (wakes : WithTop Nat)
    (deadline : SystemTime) (asleep : (state.change event).Asleep wakes deadline) :
    state.Asleep wakes deadline := by
  obtain ⟨sleeping, unwoken, expires⟩ := asleep
  simp only [change, Bool.or_eq_false_iff, decide_eq_false_iff_not, ne_eq, not_not] at unwoken expires
  exact ⟨sleeping, unwoken.1, (silent_expires state.board event running unwoken.2) ▸ expires⟩

/-- What was done to whoever is asleep after a step. The labels that wake the loop leave nobody
asleep; the two that let it sleep bound how long by the lifetime and the floor. -/
theorem step_slept (state next : Expiring Id Hash) (label : ExpiringLabel Id Hash)
    (wakes : WithTop Nat) (deadline : SystemTime) (taken : state.step label = some next)
    (asleep : next.Asleep wakes deadline) : Slept state next wakes deadline label := by
  cases label with
  | act event =>
    rw [step] at taken
    split at taken
    · rename_i others
      obtain rfl := Option.some.inj taken
      refine .undisturbed _ (asleep_of_change state event ?_ wakes deadline asleep) rfl rfl
      rintro clock settings rfl
      cases others
    · cases taken
  | pass span =>
    rw [step] at taken
    split at taken
    · rename_i idle
      obtain rfl := Option.some.inj taken
      have before : state.Asleep wakes deadline :=
        ⟨asleep.sleeping, asleep.unwoken, asleep.expires⟩
      refine .passed span before rfl rfl ?_
      rw [idles, before.sleeping, Bool.and_eq_true, decide_eq_true_eq] at idle
      exact idle.2
    · cases taken
  | setClock wall =>
    obtain rfl := Option.some.inj taken
    exact .set wall ⟨asleep.sleeping, asleep.unwoken, asleep.expires⟩ rfl
  | look =>
    rw [step] at taken
    split at taken
    · split at taken
      · obtain rfl := Option.some.inj taken
        cases asleep.sleeping
      · obtain rfl := Option.some.inj taken
        have bound := sleep_le state deadline wakes asleep.expires asleep.sleeping
        exact .fell _ asleep.expires rfl rfl bound.1 bound.2
    · cases taken
  | connected again =>
    rw [step] at taken
    split at taken
    · obtain rfl := Option.some.inj taken
      have bound := sleep_le { state with reconnectAt := again.map (state.instant + ·) } deadline
        wakes asleep.expires asleep.sleeping
      exact .fell _ asleep.expires rfl rfl bound.1 bound.2
    · cases taken
  | event again =>
    rw [step] at taken
    split at taken
    · obtain rfl := Option.some.inj taken
      cases asleep.sleeping
    · cases taken
  | wake =>
    rw [step] at taken
    split at taken
    · obtain rfl := Option.some.inj taken
      cases asleep.sleeping
    · cases taken
  | awake =>
    rw [step] at taken
    split at taken
    · split at taken
      · obtain rfl := Option.some.inj taken
        cases asleep.sleeping
      · cases taken
    · cases taken
  | expire =>
    rw [step] at taken
    split at taken
    · obtain rfl := Option.some.inj taken
      cases asleep.sleeping
    · cases taken

/-- No sleep with a lifetime to end takes more than a minute. -/
def Alert (state : Expiring Id Hash) : Prop :=
  ∀ wakes deadline, state.Asleep wakes deadline → wakes ≤ ↑(state.instant + expiryFloor)

/-- While nobody sets the clock, the loop wakes by the deadline. -/
def Punctual (state : Expiring Id Hash) : Prop :=
  ∀ wakes deadline, state.Asleep wakes deadline →
    wakes ≤ ↑(state.instant + (deadline - state.wall).toNat)

/-- Whatever happens, no sleep with a lifetime to end gets longer than a minute. -/
theorem step_alert (state next : Expiring Id Hash) (label : ExpiringLabel Id Hash)
    (alert : state.Alert) (taken : state.step label = some next) : next.Alert := by
  intro wakes deadline asleep
  cases step_slept state next label wakes deadline taken asleep with
  | fell _ expires wall instant due floor => exact floor
  | undisturbed _ before wall instant => exact instant ▸ alert wakes deadline before
  | passed span before wall instant =>
    refine (alert wakes deadline before).trans (Nat.cast_le.mpr ?_)
    omega
  | set wall before instant => exact instant ▸ alert wakes deadline before

/-- While nobody sets the clock, the loop goes on waking by the deadline. Whoever falls asleep
does so until the deadline at the latest, and while time passes the deadline comes closer by as
much. -/
theorem step_punctual (state next : Expiring Id Hash) (label : ExpiringLabel Id Hash)
    (unset : ∀ wall, label ≠ .setClock wall) (punctual : state.Punctual)
    (taken : state.step label = some next) : next.Punctual := by
  intro wakes deadline asleep
  cases step_slept state next label wakes deadline taken asleep with
  | fell _ expires wall instant due floor => exact due
  | undisturbed _ before wall instant =>
    rw [instant, wall]
    exact punctual wakes deadline before
  | passed span before wall instant until_wakes =>
    have bound := punctual wakes deadline before
    have early := Nat.cast_le.mp (until_wakes.trans bound)
    refine bound.trans (Nat.cast_le.mpr ?_)
    rw [wall, instant]
    omega
  | set wall before instant => exact absurd rfl (unset wall)

/-- A copy whose lifetime has run out is held, and the loop does not wait for the compositor. -/
def Overdue (state : Expiring Id Hash) : Prop :=
  state.board.hasLapsed state.wall = true ∧ state.phase ≠ .connecting

instance decidableOverdue (state : Expiring Id Hash) : Decidable state.Overdue :=
  inferInstanceAs (Decidable (_ ∧ _))

/-- It is not later than `bound`, and will not be by the time the loop wakes. -/
structure Within (bound : Nat) (state : Expiring Id Hash) : Prop where
  instant : state.instant ≤ bound
  wakes : ∀ wakes deadline, state.Asleep wakes deadline → wakes ≤ ↑bound

omit [LinearOrder Id] [ContentHash Hash] [DecidableEq Hash] in
/-- A copy has lapsed once its deadline is reached. -/
theorem hasLapsed_iff (board : Clipboard Id Hash) (now : SystemTime) :
    board.hasLapsed now = true ↔ ∃ deadline, board.expires = some deadline ∧ deadline ≤ now := by
  rw [Clipboard.hasLapsed, Option.any_eq_true]
  simp only [decide_eq_true_eq]

/-- Only idling takes time. -/
theorem step_instant (state next : Expiring Id Hash) (label : ExpiringLabel Id Hash)
    (taken : state.step label = some next) :
    next.instant = state.instant ∨
      ∃ span, state.idles span = true ∧ next.instant = state.instant + span := by
  cases label with
  | pass span =>
    rw [step] at taken
    split at taken
    · rename_i idle
      obtain rfl := Option.some.inj taken
      exact .inr ⟨span, idle, rfl⟩
    · cases taken
  | _ =>
    rw [step] at taken
    repeat' split at taken
    all_goals cases taken
    all_goals exact .inl rfl

/-- While a copy is overdue, time does not pass beyond the bound. Time passes only while the loop
sleeps, and a sleeper wakes by the bound; what was overdue before stays so until an expiry looks
at it. -/
theorem step_within (bound : Nat) (state next : Expiring Id Hash)
    (label : ExpiringLabel Id Hash) (within : state.Within bound) (overdue : state.Overdue)
    (taken : state.step label = some next) : next.Within bound := by
  obtain ⟨past, expired, lapsed⟩ := (hasLapsed_iff state.board state.wall).mp overdue.1
  constructor
  · obtain same | ⟨span, idle, later⟩ := step_instant state next label taken
    · exact same ▸ within.instant
    · unfold idles at idle
      split at idle
      · rename_i connecting
        exact absurd connecting overdue.2
      · rename_i wakes sleeping
        rw [Bool.and_eq_true, Bool.not_eq_true', decide_eq_true_eq] at idle
        rw [later]
        exact Nat.cast_le.mp (idle.2.trans (within.wakes wakes past ⟨sleeping, idle.1, expired⟩))
      · cases idle
  · intro wakes deadline asleep
    cases step_slept state next label wakes deadline taken asleep with
    | fell _ expires wall instant due floor =>
      obtain rfl : past = deadline := Option.some.inj (expired.symm.trans expires)
      have over_by : (past - next.wall).toNat = 0 := by
        rw [wall]
        exact Int.toNat_of_nonpos (Int.sub_nonpos_of_le lapsed)
      rw [over_by, instant] at due
      exact due.trans (Nat.cast_le.mpr within.instant)
    | undisturbed _ before => exact within.wakes wakes deadline before
    | passed span before => exact within.wakes wakes deadline before
    | set wall before => exact within.wakes wakes deadline before

/-- What the loop drops is gone. What is due is dropped at the very moment that is looked at, and
what is not due has not lapsed. -/
theorem expire_drops (state next : Expiring Id Hash) (dated : state.board.Dated)
    (taken : state.step .expire = some next) : next.board.hasLapsed next.wall = false := by
  rw [step] at taken
  split at taken
  · obtain rfl := Option.some.inj taken
    change (state.board.expire state.wall).1.hasLapsed state.wall = false
    obtain ⟨running, ignored⟩ | ⟨due, dropped⟩ := Clipboard.expire_cases state.wall state.board
    · rw [ignored]
      exact running
    · obtain ⟨deadline, expires, _⟩ := (hasLapsed_iff state.board state.wall).mp due
      obtain ⟨⟨stamp, copy⟩, held⟩ := Option.isSome_iff_exists.mp (dated (by rw [expires]; rfl))
      have carried := (Clipboard.current_iff state.board stamp copy).mp held
      have emptied : state.board.lapse state.wall =
          state.board.set state.wall { stamp, copy := none } := by
        simp [Clipboard.lapse, due, carried]
      rw [dropped, emptied, Clipboard.hasLapsed, Clipboard.apply_expires]
      rfl
  · cases taken

/-- What every step of the loop keeps. -/
structure Keeping (state : Expiring Id Hash) : Prop where
  dated : state.board.Dated
  marked : state.board.Marked
  alert : state.Alert

/-- Every step of the loop keeps it. -/
theorem step_keeping (state : Expiring Id Hash) (label : ExpiringLabel Id Hash)
    (next : Expiring Id Hash) (keeping : state.Keeping) (taken : state.step label = some next) :
    next.Keeping := by
  have marked : next.board.Dated ∧ next.board.Marked := by
    cases label with
    | act event =>
      rw [step] at taken
      split at taken
      · obtain rfl := Option.some.inj taken
        exact Clipboard.step_marked state.board event keeping.dated keeping.marked
      · cases taken
    | expire =>
      rw [step] at taken
      split at taken
      · obtain rfl := Option.some.inj taken
        exact Clipboard.step_marked state.board (.expire state.wall) keeping.dated keeping.marked
      · cases taken
    | _ =>
      -- The others leave the clipboard alone.
      rw [step] at taken
      repeat' split at taken
      all_goals cases taken
      all_goals exact ⟨keeping.dated, keeping.marked⟩
  exact ⟨marked.1, marked.2, step_alert state next label keeping.alert taken⟩

omit [LinearOrder Id] [ContentHash Hash] [DecidableEq Hash] in
/-- The loop starts awake. -/
theorem start_awake (board : Clipboard Id Hash) (wall : SystemTime) (instant : Nat)
    (reconnectAt : Option Nat) (wakes : WithTop Nat) (deadline : SystemTime) :
    ¬ (start board wall instant reconnectAt).Asleep wakes deadline :=
  fun asleep => nomatch asleep.unwoken

omit [DecidableEq Hash] in
/-- It holds as the loop starts. -/
theorem start_keeping (clock : Clock) (origin : Id) (settings : Settings)
    (saved : Option (Clip Id Hash)) (wall : SystemTime) (instant : Nat)
    (reconnectAt : Option Nat) :
    (start (.new clock origin settings saved) wall instant reconnectAt).Keeping := by
  have marked := Clipboard.new_marked clock origin settings saved
  exact ⟨marked.1, marked.2, fun wakes deadline asleep =>
    absurd asleep (start_awake _ wall instant reconnectAt wakes deadline)⟩

/-- An overdue copy goes within a minute. Whatever happened before, while the loop holds a copy
whose lifetime has run out by the wall clock, and does not wait for the compositor, no more
than a minute goes by, whatever the clock is set to and whoever changes the clipboard; and the
next time the loop comes to it, the copy goes. -/
theorem overdue_copy_goes_within_a_minute (clock : Clock) (origin : Id) (settings : Settings)
    (saved : Option (Clip Id Hash)) (wall : SystemTime) (instant : Nat)
    (reconnectAt : Option Nat) (early labels : List (ExpiringLabel Id Hash))
    (state last : Expiring Id Hash)
    (reached : Runs.run step (start (.new clock origin settings saved) wall instant reconnectAt)
      early = some state)
    (overdue : Runs.Guarded step (fun state _ => state.Overdue) state labels)
    (ran : Runs.run step state labels = some last) :
    last.instant ≤ state.instant + expiryFloor ∧
      ∀ next, last.step .expire = some next → next.board.hasLapsed next.wall = false := by
  have kept := Runs.run_invariant step Keeping step_keeping _ state early
    (start_keeping clock origin settings saved wall instant reconnectAt) reached
  have within := Runs.guarded_invariant step (fun state _ => state.Overdue)
    (Within (state.instant + expiryFloor))
    (fun state label next within overdue taken =>
      step_within _ state next label within overdue taken)
    state last labels ⟨Nat.le_add_right _ _, kept.alert⟩ overdue ran
  have dated := Runs.run_invariant step Keeping step_keeping state last labels kept ran
  exact ⟨within.instant, fun next => expire_drops last next dated.dated⟩

/-- The loop of a machine without a compositor. -/
def unattended : Expiring Nat Bytes :=
  start (.new (Aging.readAt 0) 0 Settings.default none) 0 0 none

/-- A text is copied for ninety seconds, and one minute is slept through. -/
def minuteSlept : List (ExpiringLabel Nat Bytes) :=
  [.look, .wake, .expire, .look,
    .act (.copy (Aging.readAt 0) Clipboard.hello [] false (some 90000000000)), .wake, .expire, .look,
    .pass 60000000000, .awake, .expire, .look]

/-- The clock jumps an hour ahead while the service sleeps. -/
theorem overdue_copy_goes_within_a_minute_of_a_jump :
    ∃ state last, Runs.run step unattended
        (minuteSlept ++ [.setClock 3600000000000]) = some state ∧
      Runs.run step state [.pass 30000000000, .awake] = some last ∧
        last.instant ≤ state.instant + expiryFloor := by
  have observed : ((Runs.run step unattended (minuteSlept ++ [.setClock 3600000000000])).bind
      (fun state => (Runs.run step state [.pass 30000000000, .awake]).map (fun _ =>
        decide (Runs.Guarded step (fun state _ => state.Overdue) state
          [.pass 30000000000, .awake])))) = some true := by
    decide +kernel
  obtain ⟨state, reached, ran⟩ := Option.bind_eq_some_iff.mp observed
  obtain ⟨last, ran, overdue⟩ := Option.map_eq_some_iff.mp ran
  exact ⟨state, last, reached, ran, (overdue_copy_goes_within_a_minute (Aging.readAt 0) 0
    Settings.default none 0 0 none _ _ state last reached (of_decide_eq_true overdue) ran).1⟩

/-- A copy goes on time while nobody sets the clock. Unless the loop waits for the compositor,
no time goes by with a copy whose lifetime has run out: whoever lets time pass stops at the
deadline at the latest. -/
theorem copy_goes_on_time (clock : Clock) (origin : Id) (settings : Settings)
    (saved : Option (Clip Id Hash)) (wall : SystemTime) (instant : Nat)
    (reconnectAt : Option Nat) (labels : List (ExpiringLabel Id Hash)) (last : Expiring Id Hash)
    (unset : ∀ label ∈ labels, ∀ wall, label ≠ .setClock wall)
    (ran : Runs.run step (start (.new clock origin settings saved) wall instant reconnectAt)
      labels = some last)
    (deadline : SystemTime) (expires : last.board.expires = some deadline)
    (apart : last.phase ≠ .connecting) (span : Duration) (later : Expiring Id Hash)
    (passed : last.step (.pass span) = some later) :
    span = 0 ∨ last.wall + (span : Int) ≤ deadline := by
  have started : (start (.new clock origin settings saved) wall instant reconnectAt).Punctual :=
    fun wakes deadline asleep =>
      absurd asleep (start_awake _ wall instant reconnectAt wakes deadline)
  have kept (state : Expiring Id Hash) (label : ExpiringLabel Id Hash) (next : Expiring Id Hash)
      (punctual : state.Punctual) (unset : ∀ wall, label ≠ .setClock wall)
      (taken : state.step label = some next) : next.Punctual :=
    step_punctual state next label unset punctual taken
  have guarded := Runs.guarded_of_invariant step
    (fun _ label => ∀ wall, label ≠ .setClock wall) Punctual
    (fun label => ∀ wall, label ≠ .setClock wall) kept (fun _ _ _ unset => unset) _ labels started
    unset
  have punctual := Runs.guarded_invariant step (fun _ label => ∀ wall, label ≠ .setClock wall)
    Punctual kept _ last labels started guarded ran
  rw [step] at passed
  split at passed
  · rename_i idle
    unfold idles at idle
    split at idle
    · rename_i connecting
      exact absurd connecting apart
    · rename_i wakes sleeping
      rw [Bool.and_eq_true, Bool.not_eq_true', decide_eq_true_eq] at idle
      have due := Nat.cast_le.mp
        (idle.2.trans (punctual wakes deadline ⟨sleeping, idle.1, expires⟩))
      by_cases none : span = 0
      · exact .inl none
      · right
        have positive : 0 < deadline - last.wall := by
          by_contra past
          rw [Int.toNat_of_nonpos (not_lt.mp past)] at due
          exact none (Nat.le_zero.mp (Nat.le_of_add_le_add_left due))
        have spans : (span : Int) ≤ deadline - last.wall := by
          rw [← Int.toNat_of_nonneg positive.le]
          exact Int.ofNat_le.mpr (by omega)
        exact Int.add_comm _ _ ▸ Int.add_le_of_le_sub_right spans
    · cases idle
  · cases passed

/-- A secret of ninety seconds, with one sleep of a minute in between. -/
theorem copy_goes_on_time_after_ninety_seconds :
    ∃ last later, Runs.run step unattended minuteSlept = some last ∧
      last.step (.pass 30000000000) = some later ∧
        last.wall + ((30000000000 : Duration) : Int) ≤ 90000000000 := by
  have observed : ((Runs.run step unattended minuteSlept).bind (fun last =>
      (last.step (.pass 30000000000)).map (fun _ =>
        decide (last.board.expires = some 90000000000) &&
          decide (last.phase ≠ .connecting)))) = some true := by
    decide +kernel
  obtain ⟨last, ran, passes⟩ := Option.bind_eq_some_iff.mp observed
  obtain ⟨later, passed, holds⟩ := Option.map_eq_some_iff.mp passes
  simp only [Bool.and_eq_true, decide_eq_true_eq] at holds
  refine ⟨last, later, ran, passed, ?_⟩
  exact (copy_goes_on_time (Aging.readAt 0) 0 Settings.default none 0 0 none minuteSlept last
    (by simp [minuteSlept]) ran _ holds.1 holds.2 _ later passed).resolve_left (by decide)

end Expiring

end Yank
