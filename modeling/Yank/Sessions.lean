import Yank.Redialing

/-!
# Sessions with the compositor

The service connects to the compositor, and connects again after the session was lost. Each
session has a thread of its own, which says once that it is gone, whether it met an error or was
dropped; dropping a session waits for its thread. What sessions say goes through one queue, where
it may lie while the service connects again, and what was copied in a session may be told after
the session is gone.

No word of one session is ever taken for another's: at most one thread is there, a loss that is
heard is that of the session that is held, and the service never waits for a thread.
-/

namespace Yank

/-- First delay before reconnecting to the compositor. -/
def reconnectMin : Duration := 1000000000

/-- Ceiling of that delay. -/
def reconnectMax : Duration := 30000000000

/-- What a session tells the service. -/
inductive SessionEvent where
  | copied (session : Nat)
  | lost (session : Nat)
deriving DecidableEq

/-- Where the service loop is at. -/
inductive ReconnectPhase where
  | looking
  /-- Connects, and the thread of a session may be there already. -/
  | connecting (opened : Option Nat)
  | waiting
deriving DecidableEq

/-- The session whose thread is just there. -/
def ReconnectPhase.opened : ReconnectPhase → Option Nat
  | .connecting opened => opened
  | _ => none

/-- The service loop and the threads of its sessions. -/
structure Reconnecting where
  now : Nat
  backoff : Backoff
  /-- The session that is held. -/
  backend : Option Nat
  reconnectAt : Option Nat
  phase : ReconnectPhase
  /-- How many sessions there ever were. -/
  made : Nat
  /-- The sessions whose threads are gone. -/
  ended : List Nat
  inbox : List SessionEvent
  /-- The sessions whose threads the service waited for. -/
  waited : List Nat
  /-- When it connected, the last time first. -/
  attempts : List Nat
deriving DecidableEq

/-- What happens next. -/
inductive ReconnectLabel where
  | pass (span : Duration)
  | look
  /-- The thread of a new session is there. -/
  | opens
  | connected
  | refused (delay : Duration)
  /-- The loop hears something; where it is a loss, it waits so long. -/
  | event (delay : Duration)
  /-- The loop has slept enough or is woken. -/
  | wake
  | copies (session : Nat)
  | ends (session : Nat)
deriving DecidableEq

namespace Reconnecting

/-- The loop as it starts. Without a clipboard it never looks for a compositor. -/
def start (clipboard : Bool) : Reconnecting where
  now := 0
  backoff := .new reconnectMin reconnectMax
  backend := none
  reconnectAt := if clipboard then some 0 else none
  phase := .looking
  made := 0
  ended := []
  inbox := []
  waited := []
  attempts := []

/-- A thread says that it is gone. -/
def endSession (session : Nat) (state : Reconnecting) : Reconnecting :=
  { state with ended := session :: state.ended, inbox := state.inbox ++ [.lost session] }

/-- `set_backend`: what was held is dropped, which waits for its thread. -/
def setBackend (backend : Option Nat) (state : Reconnecting) : Reconnecting :=
  match state.backend with
  | none => { state with backend }
  | some previous =>
      if previous ∈ state.ended then { state with backend }
      else { state.endSession previous with backend, waited := state.waited ++ [previous] }

/-- Connects again after the next delay. -/
def retry (delay : Duration) (state : Reconnecting) : Option Reconnecting :=
  if state.backoff.MayDraw delay then
    some { state with
      reconnectAt := some (state.now + delay)
      backoff := state.backoff.advanced }
  else none

/-- One step of the loop, of a thread or of time. -/
def step (state : Reconnecting) : ReconnectLabel → Option Reconnecting
  | .pass span => some { state with now := state.now + span }
  | .look =>
      if state.phase = .looking then
        if state.reconnectAt.any (· ≤ state.now) then
          some { state with phase := .connecting none, attempts := state.now :: state.attempts }
        else some { state with phase := .waiting }
      else none
  | .opens =>
      if state.phase = .connecting none then
        some { state with phase := .connecting (some state.made), made := state.made + 1 }
      else none
  | .connected =>
      match state.phase with
      | .connecting (some session) =>
          some { state.setBackend (some session) with
            backoff := state.backoff.reset
            reconnectAt := none
            phase := .waiting }
      | _ => none
  | .refused delay =>
      if state.phase = .connecting none then
        ({ state.setBackend none with phase := .waiting } : Reconnecting).retry delay
      else none
  | .event delay =>
      if state.phase = .waiting then
        match state.inbox with
        | [] => none
        | .copied _ :: inbox => some { state with inbox, phase := .looking }
        | .lost _ :: inbox =>
            (({ state with inbox, phase := .looking } : Reconnecting).setBackend none).retry delay
      else none
  | .wake => if state.phase = .waiting then some { state with phase := .looking } else none
  | .copies session =>
      if session < state.made then some { state with inbox := state.inbox ++ [.copied session] }
      else none
  | .ends session =>
      if session < state.made ∧ session ∉ state.ended then some (state.endSession session) else none

/-- The losses among what sessions say. -/
def losses (inbox : List SessionEvent) : List Nat :=
  inbox.filterMap (fun event =>
    match event with
    | .lost session => some session
    | .copied _ => none)

/-- The current session is the last there was. The threads of all others are gone, and so is its
own once it says so; that is the only loss nobody heard of. -/
structure Booked (current : Option Nat) (made : Nat) (ended losses : List Nat) : Prop where
  latest : ∀ session ∈ current, session + 1 = made
  known : ∀ session ∈ ended, session < made
  others : ∀ session < made, session ∈ ended ∨ current = some session
  losses : losses = (current.filter (· ∈ ended)).toList

namespace Booked
variable {made : Nat} {ended : List Nat}

/-- A session that opens when there is none is the current one. -/
theorem opens (booked : Booked none made ended []) : Booked (some made) (made + 1) ended [] where
  latest session same := by
    obtain rfl := Option.some.inj same
    rfl
  known session member := (booked.known session member).trans (Nat.lt_succ_self made)
  others session below := by
    obtain earlier | rfl := Nat.lt_succ_iff_lt_or_eq.mp below
    · obtain gone | ⟨⟨⟩⟩ := booked.others session earlier
      exact .inl gone
    · exact .inr rfl
  losses := by
    have fresh : made ∉ ended := fun member => absurd (booked.known made member) (lt_irrefl made)
    rw [Option.filter_some_neg (by simpa using fresh)]
    rfl

/-- A thread that goes is that of the current session. -/
theorem ends {current : Option Nat} {losses : List Nat} (booked : Booked current made ended losses)
    (session : Nat) (below : session < made) (there : session ∉ ended) :
    Booked current made (session :: ended) (losses ++ [session]) := by
  have own : current = some session := (booked.others session below).resolve_left there
  subst own
  have quiet := booked.losses
  rw [Option.filter_some_neg (by simpa using there)] at quiet
  refine ⟨booked.latest, List.forall_mem_cons.mpr ⟨below, booked.known⟩, ?_, ?_⟩
  · intro other earlier
    exact (booked.others other earlier).imp_left (List.mem_cons_of_mem _)
  · rw [quiet, Option.filter_some_pos (by simp)]
    rfl

/-- A loss that is heard is that of the current session, whose thread is gone. There is one loss
at most for the session that is current, and none for any before it. -/
theorem heard {current : Option Nat} {session : Nat} {losses : List Nat}
    (booked : Booked current made ended (session :: losses)) :
    current = some session ∧ session ∈ ended ∧ Booked none made ended losses := by
  have one := booked.losses
  cases current with
  | none => cases one
  | some other =>
    by_cases gone : other ∈ ended
    · rw [Option.filter_some_pos (by simpa using gone)] at one
      obtain ⟨rfl, rfl⟩ := List.cons.inj one
      refine ⟨rfl, gone, by rintro _ ⟨⟩, booked.known, ?_, rfl⟩
      intro another below
      obtain ended | same := booked.others another below
      · exact .inl ended
      · obtain rfl := Option.some.inj same
        exact .inl gone
    · rw [Option.filter_some_neg (by simpa using gone)] at one
      cases one

end Booked

/-- The session that is held or just opened. -/
def current (state : Reconnecting) : Option Nat := state.backend.or state.phase.opened

/-- The books are kept, a session is held or another one is on its way, and the service never
waited for a thread. -/
structure Single (clipboard : Bool) (state : Reconnecting) : Prop where
  booked : Booked state.current state.made state.ended (losses state.inbox)
  connecting : ∀ opened, state.phase = .connecting opened → state.reconnectAt ≠ none
  held : state.backend ≠ none → state.reconnectAt = none
  down : clipboard = true → state.backend = none → state.reconnectAt ≠ none
  off : clipboard = false → state.reconnectAt = none ∧ state.backend = none ∧ state.attempts = []
  waited : state.waited = []

/-- There was no session yet. -/
theorem start_single (clipboard : Bool) : (start clipboard).Single clipboard where
  booked :=
    { latest := by rintro session ⟨⟩
      known := by rintro session ⟨⟩
      others := fun session below => absurd below (Nat.not_lt_zero session)
      losses := by cases clipboard <;> rfl }
  connecting _ connecting := by cases connecting
  held some := absurd rfl some
  down on _ := by
    subst on
    exact Option.some_ne_none 0
  off off := by
    subst off
    exact ⟨rfl, rfl, rfl⟩
  waited := rfl

section Stepping
variable {clipboard : Bool} {state next : Reconnecting}

/-- Nothing is held while the service knows when it connects. -/
theorem Single.unheld (single : state.Single clipboard) (due : state.reconnectAt ≠ none) :
    state.backend = none := by
  by_contra some
  exact due (single.held some)

/-- What is retried is so after the delay. -/
theorem retry_cases (delay : Duration) (waits : state.retry delay = some next) :
    state.backoff.MayDraw delay ∧ next = { state with
      reconnectAt := some (state.now + delay)
      backoff := state.backoff.advanced } := by
  rw [retry] at waits
  split at waits
  case isFalse => cases waits
  case isTrue drawn =>
    cases waits
    exact ⟨drawn, rfl⟩

/-- A state that waits to connect again. -/
theorem single_retrying (single : state.Single clipboard) (clip : clipboard = true)
    (booked : Booked none next.made next.ended (losses next.inbox)) (unheld : next.backend = none)
    (closed : next.phase.opened = none) (going : ∀ opened, next.phase ≠ .connecting opened)
    (due : next.reconnectAt ≠ none) (waited : next.waited = state.waited) :
    next.Single clipboard where
  booked := by
    rw [current, unheld, closed]
    exact booked
  connecting opened same := absurd same (going opened)
  held some := absurd unheld some
  down _ _ := due
  off off := by
    rw [clip] at off
    cases off
  waited := waited.trans single.waited

/-- Whatever happens next, one session at a time is held or about to be, or another is on its
way. -/
theorem step_single (label : ReconnectLabel) (single : state.Single clipboard)
    (taken : step state label = some next) : next.Single clipboard := by
  have on (due : state.reconnectAt ≠ none) : clipboard = true := by
    cases clipboard with
    | true => rfl
    | false => exact absurd (single.off rfl).1 due
  cases label with
  | pass span =>
    cases taken
    exact { single with }
  | look =>
    rw [step] at taken
    split at taken
    case isFalse => cases taken
    case isTrue looking =>
      have booked := single.booked
      rw [current, looking] at booked
      split at taken
      case isTrue due =>
        cases taken
        have set : state.reconnectAt ≠ none := by
          intro none
          rw [none] at due
          cases due
        exact { single with
          booked := booked
          connecting := fun _ _ => set
          off := fun off => absurd (single.off off).1 set }
      case isFalse =>
        cases taken
        exact { single with
          booked := booked
          connecting := by rintro _ ⟨⟩ }
  | opens =>
    rw [step] at taken
    split at taken
    case isFalse => cases taken
    case isTrue connecting =>
      cases taken
      have set := single.connecting none connecting
      have booked := single.booked
      rw [current, connecting, single.unheld set] at booked
      have quiet : losses state.inbox = [] := booked.losses
      rw [quiet] at booked
      refine { single with
        booked := ?_
        connecting := fun _ _ => set }
      rw [current, single.unheld set, quiet]
      exact booked.opens
  | connected =>
    rw [step] at taken
    split at taken
    case h_2 => cases taken
    case h_1 session connecting =>
      cases taken
      have set := single.connecting _ connecting
      have unheld := single.unheld set
      have booked := single.booked
      rw [current, connecting, unheld] at booked
      rw [setBackend, unheld]
      exact
        { booked := booked
          connecting := by rintro _ ⟨⟩
          held := fun _ => rfl
          down := by rintro _ ⟨⟩
          off := fun off => absurd (single.off off).1 set
          waited := single.waited }
  | refused delay =>
    rw [step] at taken
    split at taken
    case isFalse => cases taken
    case isTrue connecting =>
      have set := single.connecting none connecting
      have unheld := single.unheld set
      have booked := single.booked
      rw [current, connecting, unheld] at booked
      rw [setBackend, unheld] at taken
      obtain ⟨_, rfl⟩ := retry_cases delay taken
      exact single_retrying single (on set) booked rfl rfl (by rintro _ ⟨⟩) (Option.some_ne_none _) rfl
  | event delay =>
    rw [step] at taken
    split at taken
    case isFalse => cases taken
    case isTrue waiting =>
      have booked := single.booked
      rw [current, waiting] at booked
      split at taken
      case h_1 => cases taken
      case h_2 session inbox first =>
        cases taken
        rw [first] at booked
        exact { single with
          booked := booked
          connecting := by rintro _ ⟨⟩ }
      case h_3 session inbox first =>
        rw [first] at booked
        have unheard : Booked (state.backend.or none) state.made state.ended
            (session :: losses inbox) := booked
        obtain ⟨held, gone, heard⟩ := unheard.heard
        have backend : state.backend = some session := by
          rw [← held]
          exact (Option.or_none).symm
        have clip : clipboard = true := by
          cases clipboard with
          | true => rfl
          | false =>
            have none := (single.off rfl).2.1
            rw [backend] at none
            cases none
        have dropped : setBackend none { state with inbox, phase := .looking } =
            { state with inbox, phase := .looking, backend := none } := by
          rw [setBackend]
          dsimp only
          rw [backend]
          exact if_pos gone
        rw [dropped] at taken
        obtain ⟨_, rfl⟩ := retry_cases delay taken
        exact single_retrying single clip heard rfl rfl (by rintro _ ⟨⟩) (Option.some_ne_none _) rfl
  | wake =>
    rw [step] at taken
    split at taken
    case isFalse => cases taken
    case isTrue waiting =>
      cases taken
      have booked := single.booked
      rw [current, waiting] at booked
      exact { single with
        booked := booked
        connecting := by rintro _ ⟨⟩ }
  | copies session =>
    rw [step] at taken
    split at taken
    case isFalse => cases taken
    case isTrue =>
      cases taken
      have same : losses (state.inbox ++ [.copied session]) = losses state.inbox := by
        rw [losses, List.filterMap_append]
        exact List.append_nil _
      exact { single with booked := same ▸ single.booked }
  | ends session =>
    rw [step] at taken
    split at taken
    case isFalse => cases taken
    case isTrue there =>
      cases taken
      have more : losses (state.inbox ++ [.lost session]) = losses state.inbox ++ [session] := by
        rw [losses, List.filterMap_append]
        rfl
      exact { single with booked := more ▸ single.booked.ends session there.1 there.2 }

end Stepping

/-- Delays are between the floor and the ceiling, and it never connects twice within four fifths
of the floor. -/
structure Timed (state : Reconnecting) : Prop where
  bounds : state.backoff.min = reconnectMin ∧ state.backoff.max = reconnectMax
  least : reconnectMin ≤ state.backoff.current
  most : state.backoff.current ≤ reconnectMax
  soon : ∀ due ∈ state.reconnectAt, 5 * due ≤ 5 * state.now + 6 * reconnectMax
  past : ∀ attempt ∈ state.attempts.head?, attempt ≤ state.now
  spaced : state.attempts.IsChain (fun later earlier => 5 * earlier + 4 * reconnectMin ≤ 5 * later)

/-- Connecting when it is due is not too soon after the last time. -/
def Apart (state : Reconnecting) : Prop :=
  ∀ attempt ∈ state.attempts.head?, ∀ due ∈ state.reconnectAt,
    5 * attempt + 4 * reconnectMin ≤ 5 * due

/-- What is due while it connects is what it connected for. -/
def Going (state : Reconnecting) : Prop := ∃ opened, state.phase = .connecting opened

/-- Nothing was tried yet, so nothing too soon. -/
theorem start_timed (clipboard : Bool) : (start clipboard).Timed ∧ (start clipboard).Apart := by
  refine ⟨⟨⟨rfl, rfl⟩, le_rfl, by change reconnectMin ≤ reconnectMax; decide, ?_, ?_, ?_⟩, ?_⟩
  · intro due set
    cases clipboard with
    | true =>
      obtain rfl := Option.some.inj set
      exact Nat.zero_le _
    | false => cases set
  · rintro _ ⟨⟩
  · exact List.IsChain.nil
  · rintro _ ⟨⟩

section Pacing
variable {state next : Reconnecting}

/-- Dropping a session does not change when it connects. -/
theorem Timed.setBackend (timed : state.Timed) (backend : Option Nat) :
    (state.setBackend backend).Timed := by
  rw [Reconnecting.setBackend]
  split
  · exact { timed with }
  · split
    · exact { timed with }
    · exact { timed with }

/-- Where it is retried, the delay keeps the next time apart from the last one. The wait is drawn
around the delay, which is doubled for the next one or stays at the ceiling. -/
theorem Timed.retry (timed : state.Timed) (delay : Duration)
    (waits : state.retry delay = some next) : next.Timed ∧ next.Apart := by
  obtain ⟨⟨short, long⟩, rfl⟩ := retry_cases delay waits
  have floor := timed.least
  have ceiling := timed.most
  have doubled : state.backoff.advanced.current = min (state.backoff.current * 2) reconnectMax := by
    rw [← timed.bounds.2]
    rfl
  refine ⟨{ timed with bounds := timed.bounds, least := ?_, most := ?_, soon := ?_ }, ?_⟩
  · rw [doubled]
    exact le_min (floor.trans (Nat.le_mul_of_pos_right _ (by decide))) (floor.trans ceiling)
  · rw [doubled]
    exact min_le_right _ _
  · intro due set
    obtain rfl := Option.some.inj set
    have enough : 5 * delay ≤ 6 * reconnectMax := long.trans (Nat.mul_le_mul_left 6 ceiling)
    rw [Nat.mul_add]
    exact Nat.add_le_add_left enough _
  · intro attempt last due set
    obtain rfl := Option.some.inj set
    have enough : 4 * reconnectMin ≤ 5 * delay := (Nat.mul_le_mul_left 4 floor).trans short
    rw [Nat.mul_add]
    exact Nat.add_le_add (Nat.mul_le_mul_left 5 (timed.past attempt last)) enough

/-- A step leaves the next connection due in time, and not too soon after the last. One case for
each label: only a refused connection and the end of a session set the next one due, by the wait
that is drawn there. -/
theorem step_timed (label : ReconnectLabel) (timed : state.Timed) (apart : state.Going ∨ state.Apart)
    (taken : step state label = some next) : next.Timed ∧ (next.Going ∨ next.Apart) := by
  have separate (still : ∀ opened, state.phase ≠ .connecting opened) : state.Apart := by
    obtain ⟨opened, connecting⟩ | separate := apart
    · exact absurd connecting (still opened)
    · exact separate
  cases label with
  | pass span =>
    cases taken
    refine ⟨{ timed with soon := ?_, past := ?_ }, apart⟩
    · intro due set
      have before := timed.soon due set
      dsimp only
      omega
    · intro attempt last
      exact (timed.past attempt last).trans (Nat.le_add_right _ _)
  | look =>
    rw [step] at taken
    split at taken
    case isFalse => cases taken
    case isTrue looking =>
      have separate := separate (by simp [looking])
      split at taken
      case isTrue reached =>
        cases taken
        refine ⟨{ timed with past := ?_, spaced := ?_ }, .inl ⟨none, rfl⟩⟩
        · intro attempt last
          obtain rfl := Option.some.inj last
          exact le_rfl
        · obtain ⟨due, set, reached⟩ := (Option.any_eq_true _ _).mp reached
          refine List.isChain_cons.mpr ⟨?_, timed.spaced⟩
          intro attempt last
          exact (separate attempt last due set).trans
            (Nat.mul_le_mul_left 5 (of_decide_eq_true reached))
      case isFalse =>
        cases taken
        exact ⟨{ timed with }, .inr separate⟩
  | opens =>
    rw [step] at taken
    split at taken
    case isFalse => cases taken
    case isTrue =>
      cases taken
      exact ⟨{ timed with }, .inl ⟨some state.made, rfl⟩⟩
  | connected =>
    rw [step] at taken
    split at taken
    case h_2 => cases taken
    case h_1 session connecting =>
      cases taken
      have floor : state.backoff.reset.current = reconnectMin := timed.bounds.1
      have kept := timed.setBackend (some session)
      refine ⟨{ kept with bounds := timed.bounds, least := floor.ge, most := ?_, soon := ?_ }, .inr ?_⟩
      · exact floor.trans_le (by decide)
      · rintro _ ⟨⟩
      · rintro _ _ _ ⟨⟩
  | refused delay =>
    rw [step] at taken
    split at taken
    case isFalse => cases taken
    case isTrue =>
      have kept : ({ state.setBackend none with phase := .waiting } : Reconnecting).Timed :=
        { timed.setBackend none with }
      obtain ⟨timed, apart⟩ := kept.retry delay taken
      exact ⟨timed, .inr apart⟩
  | event delay =>
    rw [step] at taken
    split at taken
    case isFalse => cases taken
    case isTrue waiting =>
      split at taken
      case h_1 => cases taken
      case h_2 =>
        cases taken
        exact ⟨{ timed with }, .inr (separate (by simp [waiting]))⟩
      case h_3 session inbox first =>
        have kept : ({ state with inbox, phase := .looking } : Reconnecting).Timed := { timed with }
        obtain ⟨timed, apart⟩ := (kept.setBackend none).retry delay taken
        exact ⟨timed, .inr apart⟩
  | wake =>
    rw [step] at taken
    split at taken
    case isFalse => cases taken
    case isTrue waiting =>
      cases taken
      exact ⟨{ timed with }, .inr (separate (by simp [waiting]))⟩
  | copies session =>
    rw [step] at taken
    split at taken
    case isFalse => cases taken
    case isTrue =>
      cases taken
      exact ⟨{ timed with }, apart⟩
  | ends session =>
    rw [step] at taken
    split at taken
    case isFalse => cases taken
    case isTrue =>
      cases taken
      exact ⟨{ timed with }, apart⟩

end Pacing

/-- The books are kept along every run. -/
theorem run_single (clipboard : Bool) (labels : List ReconnectLabel) (last : Reconnecting)
    (reached : Runs.run step (start clipboard) labels = some last) : last.Single clipboard :=
  Runs.run_invariant step (Single clipboard)
    (fun _ label _ kept taken => step_single label kept taken) (start clipboard) last labels
    (start_single clipboard) reached

/-- However sessions come and go, and whatever lies in the queue meanwhile: the service never
waits for a thread, no thread is there but that of the session that is held or just opened, and
the only loss there is to hear is that of this session, once, when its thread is gone. -/
theorem one_session_at_a_time (clipboard : Bool) (labels : List ReconnectLabel)
    (last : Reconnecting) (reached : Runs.run step (start clipboard) labels = some last) :
    last.waited = [] ∧
      (∀ session < last.made, session ∉ last.ended → last.current = some session) ∧
      losses last.inbox = (last.current.filter (· ∈ last.ended)).toList := by
  have single := run_single clipboard labels last reached
  refine ⟨single.waited, ?_, single.booked.losses⟩
  intro session below there
  exact (single.booked.others session below).resolve_left there

/-- While a session is held the service does not connect. Otherwise, where it has a clipboard, it
connects within thirty-six seconds, and never twice within eight tenths of a second; where it has
none it never does. -/
theorem connects_again_in_time (clipboard : Bool) (labels : List ReconnectLabel)
    (last : Reconnecting) (reached : Runs.run step (start clipboard) labels = some last) :
    (last.backend ≠ none → last.reconnectAt = none) ∧
      (clipboard = true → last.backend = none →
        ∃ due, last.reconnectAt = some due ∧ 5 * due ≤ 5 * last.now + 6 * reconnectMax) ∧
      last.attempts.IsChain (fun later earlier => 5 * earlier + 4 * reconnectMin ≤ 5 * later) ∧
      (clipboard = false → last.attempts = []) := by
  have single := run_single clipboard labels last reached
  have timed := Runs.run_invariant step (fun state => state.Timed ∧ (state.Going ∨ state.Apart))
    (fun _ label _ kept => step_timed label kept.1 kept.2) (start clipboard) last labels
    ((start_timed clipboard).imp_right .inr) reached
  refine ⟨single.held, ?_, timed.1.spaced, fun off => (single.off off).2.2⟩
  intro on unheld
  obtain ⟨due, set⟩ := Option.ne_none_iff_exists'.mp (single.down on unheld)
  exact ⟨due, set, timed.1.soon due set⟩

/-- There is no compositor at first. The first session is gone before the service holds it, and
what was copied in it is told later. -/
def logins : List ReconnectLabel :=
  [.look, .refused 800000000, .pass 800000000, .wake, .look, .opens, .ends 0, .connected, .event 1000000000,
    .look, .copies 0, .pass 1000000000, .event 0, .look, .opens, .connected, .ends 1]

/-- The second of two sessions is gone in the end, and the service is about to hear of it. -/
theorem one_session_at_a_time_logins :
    ∃ last, Runs.run step (start true) logins = some last ∧ last.made = 2 ∧ last.waited = [] ∧
      losses last.inbox = [1] := by
  have observed : (Runs.run step (start true) logins).map (fun last =>
      (last.made, (last.current.filter (· ∈ last.ended)).toList)) = some (2, [1]) := by
    decide +kernel
  obtain ⟨last, ran, holds⟩ := Option.map_eq_some_iff.mp observed
  obtain ⟨made, gone⟩ := Prod.mk.inj holds
  obtain ⟨waited, _, heard⟩ := one_session_at_a_time true logins last ran
  exact ⟨last, ran, made, waited, heard.trans gone⟩

/-- After two attempts another one is due. -/
theorem connects_again_in_time_logins :
    ∃ last, Runs.run step (start true) (logins.take 9) = some last ∧ last.attempts.length = 2 ∧
      ∃ due, last.reconnectAt = some due ∧ 5 * due ≤ 5 * last.now + 6 * reconnectMax := by
  have observed : (Runs.run step (start true) (logins.take 9)).map (fun last =>
      (last.attempts.length, last.backend)) = some (2, none) := by
    decide +kernel
  obtain ⟨last, ran, holds⟩ := Option.map_eq_some_iff.mp observed
  obtain ⟨count, unheld⟩ := Prod.mk.inj holds
  exact ⟨last, ran, count, (connects_again_in_time true _ last ran).2.1 rfl unheld⟩

end Reconnecting

end Yank
