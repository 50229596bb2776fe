import Yank.Pairing

/-!
# Tickets

A ticket registers at most one machine, and only while it is outstanding. The exchange
that redeems it started under some ticket seconds before, while others ran beside it and
the user may have asked for a new one; what decides is the lock under which the ticket is
looked at again, consumed and the machine registered.

The ledger of a machine says what happened to its tickets in order. A ticket that is
outstanding is the last thing in it, so whatever redeems it stands right above its issue.
-/

namespace Yank

variable {Id Secret : Type}

/-- The ticket an event is about. -/
def TicketEvent.number : TicketEvent Secret → Option Nat
  | .revoked => none
  | .issued number _ _ => some number
  | .redeemed number _ _ => some number

/-- The ticket an event redeems. -/
def TicketEvent.redeems : TicketEvent Secret → Option Nat
  | .redeemed number _ _ => some number
  | _ => none

/-- The ticket of a number is outstanding at a moment: it was issued with the presented
secret, it has not expired, and nothing happened to the tickets since, so it was neither
revoked nor redeemed. -/
def Outstanding (ledger : List (TicketEvent Secret)) (number : Nat) (presented : Option Secret)
    (now : Instant) : Prop :=
  ∃ secret expires early, ledger = .issued number secret expires :: early ∧
    presented = some secret ∧ now < expires

/-- Tickets are numbered upwards, and each redemption is of the outstanding one. -/
def Orderly : List (TicketEvent Secret) → Prop
  | [] => True
  | .revoked :: early => Orderly early
  | .issued number _ _ :: early =>
      (∀ event ∈ early, ∀ other ∈ event.number, other < number) ∧ Orderly early
  | .redeemed number presented now :: early => Outstanding early number presented now ∧ Orderly early

/-- An event that redeems a ticket is numbered with it. -/
theorem redeems_number (event : TicketEvent Secret) (number : Nat)
    (redeems : event.redeems = some number) : event.number = some number := by
  cases event with
  | redeemed number presented now => exact redeems
  | _ => cases redeems

/-- Every part of an orderly ledger is orderly. -/
theorem Orderly.early (late early : List (TicketEvent Secret)) (orderly : Orderly (late ++ early)) :
    Orderly early := by
  induction late with
  | nil => exact orderly
  | cons event late inductionHypothesis =>
    cases event with
    | revoked => exact inductionHypothesis orderly
    | issued number secret expires => exact inductionHypothesis orderly.2
    | redeemed number presented now => exact inductionHypothesis orderly.2

/-- No ticket of an orderly ledger is redeemed twice. The induction is on the ledger: a redemption
is of the ticket outstanding then, and a number that was redeemed is never outstanding again. -/
theorem Orderly.once (ledger : List (TicketEvent Secret)) (orderly : Orderly ledger) :
    (ledger.filterMap TicketEvent.redeems).Nodup := by
  induction ledger with
  | nil => exact List.nodup_nil
  | cons event early inductionHypothesis =>
    cases event with
    | revoked => exact inductionHypothesis orderly
    | issued number secret expires => exact inductionHypothesis orderly.2
    | redeemed number presented now =>
      obtain ⟨outstanding, rest⟩ := orderly
      refine List.nodup_cons.mpr ⟨?_, inductionHypothesis rest⟩
      obtain ⟨secret, expires, older, rfl, _⟩ := outstanding
      intro again
      obtain ⟨event, member, redeems⟩ := List.mem_filterMap.mp again
      -- An earlier redemption of the same number would be older than its issue.
      obtain rfl | member := List.mem_cons.mp member
      · cases redeems
      · have lower : number < number :=
          rest.1 event member number (redeems_number event number redeems)
        exact lt_irrefl number lower

variable [LinearOrder Id]

/-- The ticket an exchange runs under once it read a hello that holds its secret. -/
def Serving.grantedBy : Serving Id Secret → Option (PairTicket Id Secret)
  | .welcoming ticket _ _ => some ticket
  | .confirming ticket _ => some ticket
  | .paired ticket _ => some ticket
  | _ => none

namespace Machine

/-- What the tickets of a machine keep: the ledger is orderly, and its last event is the
issue of the ticket that is held. -/
structure Accounted (machine : Machine Id Secret) : Prop where
  orderly : Orderly machine.ledger
  numbered : ∀ event ∈ machine.ledger, ∀ number ∈ event.number, number < machine.tickets
  held : ∀ held, machine.issued = some held →
    ∃ early, machine.ledger = .issued held.number held.ticket.secret held.expires :: early

/-- A change of the mesh state leaves everything else. -/
theorem update_cases (saves : Bool)
    (mutate : MeshState Id → Except MeshFailure (MeshState Id)) (machine : Machine Id Secret) :
    (machine.update saves mutate).2 = machine ∨ ∃ next, mutate machine.state = .ok next ∧
      (machine.update saves mutate).2 =
        { machine with state := next, saved := next :: machine.saved } := by
  unfold update
  cases made : mutate machine.state with
  | error failure => exact Or.inl rfl
  | ok next =>
    dsimp only
    split
    · exact Or.inl rfl
    · cases saves with
      | true => exact Or.inr ⟨next, rfl, rfl⟩
      | false => exact Or.inl rfl

/-- A change of the mesh issues and redeems nothing. -/
@[simp] theorem update_ledger (saves : Bool)
    (mutate : MeshState Id → Except MeshFailure (MeshState Id)) (machine : Machine Id Secret) :
    (machine.update saves mutate).2.ledger = machine.ledger := by
  obtain same | ⟨next, _, changed⟩ := update_cases saves mutate machine
  · rw [same]
  · rw [changed]

/-- It leaves the accounts. -/
theorem update_accounted (saves : Bool)
    (mutate : MeshState Id → Except MeshFailure (MeshState Id)) (machine : Machine Id Secret)
    (accounted : machine.Accounted) : (machine.update saves mutate).2.Accounted := by
  obtain same | ⟨next, _, changed⟩ := update_cases saves mutate machine
  · rw [same]
    exact accounted
  · rw [changed]
    exact ⟨accounted.orderly, accounted.numbered, accounted.held⟩

/-- Looking for the ticket leaves the machine, or drops a ticket that ran out. -/
theorem outstanding_cases (now : Instant) (machine : Machine Id Secret) :
    machine.outstanding now = machine ∨
      machine.outstanding now = { machine with issued := none } := by
  unfold outstanding
  split
  · exact Or.inr rfl
  · exact Or.inl rfl

/-- A ticket that goes leaves the ledger as it is. -/
theorem dropped_accounted (machine : Machine Id Secret) (accounted : machine.Accounted) :
    ({ machine with issued := none } : Machine Id Secret).Accounted where
  orderly := accounted.orderly
  numbered := accounted.numbered
  held _ impossible := nomatch impossible

/-- Either way the accounts stay. -/
theorem outstanding_accounted (now : Instant) (machine : Machine Id Secret)
    (accounted : machine.Accounted) : (machine.outstanding now).Accounted := by
  obtain same | dropped := outstanding_cases now machine
  · rw [same]
    exact accounted
  · rw [dropped]
    exact dropped_accounted machine accounted

/-- Taking a name leaves the accounts. -/
theorem host_accounted (localName : String) (machine : Machine Id Secret)
    (accounted : machine.Accounted) : (machine.host localName).Accounted where
  orderly := accounted.orderly
  numbered := by
    intro event member number about
    obtain rfl | member := List.mem_cons.mp member
    · cases about
    · exact accounted.numbered event member number about
  held _ impossible := nomatch impossible

/-- A ticket that is issued is written down as the last event. -/
theorem issue_accounted (own : Id) (call : Nat) (localName : String) (secret : Secret)
    (now : Instant) (machine : Machine Id Secret) (accounted : machine.Accounted) :
    (machine.issue own call localName secret now).Accounted where
  orderly := ⟨accounted.numbered, accounted.orderly⟩
  numbered := by
    intro event member number about
    obtain rfl | member := List.mem_cons.mp member
    · obtain rfl : machine.tickets = number := Option.some.inj about
      exact Nat.lt_succ_self _
    · exact Nat.lt_succ_of_lt (accounted.numbered event member number about)
  held := by
    intro held isIssued
    obtain rfl := Option.some.inj isIssued
    exact ⟨machine.ledger, rfl⟩

/-- A restart drops the ticket. -/
theorem restart_accounted (machine : Machine Id Secret) (accounted : machine.Accounted) :
    machine.restart.Accounted where
  orderly := accounted.orderly
  numbered := accounted.numbered
  held _ impossible := nomatch impossible

/-- A redemption is of the ticket held, whose secret was presented. -/
theorem held_outstanding (machine : Machine Id Secret) (held : IssuedTicket Id Secret)
    (presented : Option Secret) (now : Instant) (accounted : machine.Accounted)
    (isOut : machine.issued = some held) (shown : presented = some held.ticket.secret)
    (live : now < held.expires) : Outstanding machine.ledger held.number presented now := by
  obtain ⟨early, last⟩ := accounted.held held isOut
  exact ⟨held.ticket.secret, held.expires, early, last, shown, live⟩

/-- A ticket that was outstanding is redeemed with its own secret, and gone. The ledger gets one
redemption longer, and the ticket it names was the outstanding one. -/
theorem consumed_accounted (machine : Machine Id Secret) (held : IssuedTicket Id Secret)
    (presented : Option Secret) (now : Instant) (accounted : machine.Accounted)
    (isOut : machine.issued = some held)
    (outstanding : Outstanding machine.ledger held.number presented now) :
    ({ machine with
      issued := none
      ledger := .redeemed held.number presented now :: machine.ledger } :
        Machine Id Secret).Accounted where
  orderly := ⟨outstanding, accounted.orderly⟩
  numbered := by
    intro event member number about
    obtain rfl | member := List.mem_cons.mp member
    · obtain ⟨early, last⟩ := accounted.held held isOut
      refine accounted.numbered (.issued held.number held.ticket.secret held.expires) ?_ number about
      rw [last]
      exact List.mem_cons_self
    · exact accounted.numbered event member number about
  held _ impossible := nomatch impossible

end Machine

namespace Attempt

/-- The host grants nothing to an exchange that did not present the secret of its ticket. -/
def Presented (attempt : Attempt Id Secret) : Prop :=
  ∀ ticket, attempt.serving.grantedBy = some ticket → attempt.presented = some ticket.secret

variable [DecidableEq Secret] {busy : Bool} {attempt next : Attempt Id Secret}
  {machine after : Machine Id Secret}

/-- The host grants a ticket to whoever presented its secret. The secret of the greeting is
compared with the ticket's before anything is granted. -/
theorem serves_presented {move : ServeMove} (serves : attempt.Serves busy machine move next after)
    (presented : attempt.Presented) : next.Presented := by
  cases serves with
  | greeted ticket localName state announced name toHost =>
    intro granted isGranted
    obtain rfl := Option.some.inj isGranted
    rfl
  | welcomed ticket localName name atPhase =>
    intro granted isGranted
    obtain rfl := Option.some.inj isGranted
    exact presented ticket (by rw [atPhase]; rfl)
  | agreed ticket name toHost atPhase sent =>
    intro granted isGranted
    obtain rfl := Option.some.inj isGranted
    exact presented ticket (by rw [atPhase]; rfl)
  | _ =>
    intro granted isGranted
    cases isGranted

omit [DecidableEq Secret] in
/-- The joiner's steps grant nothing. -/
theorem joins_presented {move : JoinMove} (joins : attempt.Joins machine move next after)
    (presented : attempt.Presented) : next.Presented := by
  cases joins with
  | connected ticket localName state atPhase =>
    intro granted isGranted
    cases isGranted
  | _ => exact presented

omit [DecidableEq Secret] in
/-- Nor does a machine that stops. -/
theorem stopped_presented (stops : Id) (presented : attempt.Presented) :
    (attempt.stopped stops).Presented := by
  intro ticket granted
  simp only [stopped] at granted
  split at granted
  · cases granted
  · exact presented ticket granted

/-- The host's steps keep its accounts. The moves that look at the ticket may find it expired, and
the two that end the exchange use it up; the others leave the machine. -/
theorem serves_accounted {move : ServeMove} (serves : attempt.Serves busy machine move next after)
    (presented : attempt.Presented) (accounted : machine.Accounted) : after.Accounted := by
  cases serves with
  | unticketed now => exact Machine.outstanding_accounted now machine accounted
  | ticketed now => exact Machine.outstanding_accounted now machine accounted
  | failed now saves ticket name held atPhase isOut same live _ added
  | redeemed now saves ticket name held atPhase isOut same live _ added =>
    have shown : attempt.presented = some held.ticket.secret := by
      rw [same]
      exact presented ticket (by rw [atPhase]; rfl)
    have outstanding := machine.held_outstanding held _ now accounted isOut shown live
    have consumed := machine.consumed_accounted held _ now accounted isOut outstanding
    have updated := Machine.update_accounted saves (MeshState.addPaired attempt.joiner name) _
      consumed
    rw [Machine.addPaired] at added
    rwa [added] at updated
  | _ => exact accounted

omit [DecidableEq Secret] in
/-- The joiner's steps keep those of its own machine. -/
theorem joins_accounted {move : JoinMove} (joins : attempt.Joins machine move next after)
    (accounted : machine.Accounted) : after.Accounted := by
  cases joins with
  | registered saves name atPhase => exact Machine.update_accounted saves _ machine accounted
  | _ => exact accounted

end Attempt

namespace Pairings

/-- Every machine accounts for its tickets, and every exchange for its secret. -/
structure Accounted (pairings : Pairings Id Secret) : Prop where
  machines : ∀ id, (pairings.machines id).Accounted
  attempts : ∀ attempt ∈ pairings.attempts, attempt.Presented

variable [EndpointText Id] [DecidableEq Secret]

/-- Every step keeps the accounts. A change, a restart and a move of an exchange each keep the
account of the one machine they touch; the attempts only ever show what was presented to it. -/
theorem step_accounted (pairings next : Pairings Id Secret) (label : PairingLabel Id Secret)
    (accounted : pairings.Accounted) (taken : pairings.step label = some next) :
    next.Accounted := by
  obtain ⟨machines, attempts⟩ := accounted
  cases step_took pairings next label taken with
  | changed machine saves change =>
    exact ⟨forall_on pairings machine _ machines
      (Machine.update_accounted saves _ _ (machines machine)), attempts⟩
  | restarted machine =>
    refine ⟨forall_on pairings machine _ machines
      (Machine.restart_accounted _ (machines machine)), ?_⟩
    intro attempt member
    obtain ⟨before, listed, rfl⟩ := List.mem_map.mp member
    exact Attempt.stopped_presented machine (attempts before listed)
  | hosted machine localName =>
    exact ⟨forall_on pairings machine _ machines
      (Machine.host_accounted localName _ (machines machine)), attempts⟩
  | issued machine call secret now localName =>
    exact ⟨forall_on pairings machine _ machines
      (Machine.issue_accounted machine call localName secret now _ (machines machine)), attempts⟩
  | unissued machine call =>
    have held := machines machine
    exact ⟨forall_on pairings machine _ machines ⟨held.orderly, held.numbered, held.held⟩,
      attempts⟩
  | dialed joiner ticket localName =>
    exact ⟨machines, forall_append pairings _ attempts (fun _ granted => nomatch granted)⟩
  | met joiner host =>
    exact ⟨machines, forall_append pairings _ attempts (fun _ granted => nomatch granted)⟩
  | said index message attempt listed isStranger =>
    exact ⟨machines, forall_set pairings index _ attempts
      (attempts attempt (List.mem_of_getElem? listed))⟩
  | joined index move attempt after machine listed joins =>
    have presented := attempts attempt (List.mem_of_getElem? listed)
    exact ⟨forall_on pairings attempt.joiner machine machines
        (Attempt.joins_accounted joins (machines attempt.joiner)),
      forall_set pairings index after attempts (Attempt.joins_presented joins presented)⟩
  | served index move attempt after machine listed serves =>
    have presented := attempts attempt (List.mem_of_getElem? listed)
    exact ⟨forall_on pairings attempt.host machine machines
        (Attempt.serves_accounted serves presented (machines attempt.host)),
      forall_set pairings index after attempts (Attempt.serves_presented serves presented)⟩

omit [EndpointText Id] [DecidableEq Secret] in
/-- No ticket was issued yet. -/
theorem start_accounted (loaded : Id → MeshState Id) :
    (start loaded : Pairings Id Secret).Accounted where
  machines id := ⟨trivial, by simp [start], by simp [start]⟩
  attempts := by simp [start]

/-- Every run keeps the accounts. -/
theorem run_accounted (loaded : Id → MeshState Id) (labels : List (PairingLabel Id Secret))
    (pairings : Pairings Id Secret) (reached : Runs.run step (start loaded) labels = some pairings) :
    pairings.Accounted :=
  Runs.run_invariant step Accounted
    (fun state label next accounted taken => step_accounted state next label accounted taken) _ _ _
    (start_accounted loaded) reached

omit [EndpointText Id] in
/-- Nothing a host does in an exchange registers a machine but the end of the exchange,
which enters it in the ledger. -/
theorem serves_registers {busy : Bool} {attempt next : Attempt Id Secret}
    {machine after : Machine Id Secret} {move : ServeMove}
    (serves : attempt.Serves busy machine move next after) (presented : attempt.Presented)
    (accounted : machine.Accounted)
    (registers : after.state ≠ machine.state ∨ next.registered ≠ attempt.registered) :
    ∃ number now saves, move = .redeem now saves ∧
      after.ledger = .redeemed number attempt.presented now :: machine.ledger ∧
      Outstanding machine.ledger number attempt.presented now := by
  cases serves with
  | unticketed now | ticketed now =>
    obtain same | dropped := machine.outstanding_cases now
    · simp [same] at registers
    · simp [dropped] at registers
  | failed now saves ticket name held atPhase isOut same live _ added
  | redeemed now saves ticket name held atPhase isOut same live _ added =>
    have shown : attempt.presented = some held.ticket.secret := by
      rw [same]
      exact presented ticket (by rw [atPhase]; rfl)
    refine ⟨held.number, now, saves, rfl, ?_,
      machine.held_outstanding held _ now accounted isOut shown live⟩
    have kept := congrArg (fun answer => answer.2.ledger) added
    simpa [Machine.addPaired] using kept.symm
  | _ => simp [Attempt.close, Attempt.reject] at registers

/-- A ticket registers at most one machine, and only while it is outstanding. In every run
each redemption in the ledger of a machine is of the ticket outstanding just before it, with
the secret the exchange presented, and no ticket is redeemed twice; and no step of a host in
an exchange changes its mesh state or registers the joiner but such a redemption. -/
theorem tickets_register_once (loaded : Id → MeshState Id)
    (labels : List (PairingLabel Id Secret)) (pairings : Pairings Id Secret)
    (reached : Runs.run step (start loaded) labels = some pairings) :
    (∀ machine,
      (∀ late number presented now early, (pairings.machines machine).ledger =
        late ++ .redeemed number presented now :: early → Outstanding early number presented now) ∧
      ((pairings.machines machine).ledger.filterMap TicketEvent.redeems).Nodup) ∧
    ∀ index move next attempt after, pairings.step (.serves index move) = some next →
      pairings.attempts[index]? = some attempt → next.attempts[index]? = some after →
      (next.machines attempt.host).state ≠ (pairings.machines attempt.host).state ∨
        after.registered ≠ attempt.registered →
      ∃ number now saves, move = .redeem now saves ∧
        (next.machines attempt.host).ledger =
          .redeemed number attempt.presented now :: (pairings.machines attempt.host).ledger ∧
        Outstanding (pairings.machines attempt.host).ledger number attempt.presented now := by
  have accounted := run_accounted loaded labels pairings reached
  refine ⟨?_, ?_⟩
  · intro machine
    have orderly := (accounted.machines machine).orderly
    refine ⟨?_, orderly.once⟩
    intro late number presented now early split
    rw [split] at orderly
    exact (orderly.early late _).1
  · intro index move next attempt after taken listed left registers
    cases step_took pairings next _ taken with
    | served _ _ served after' machine listed' serves =>
      obtain rfl : attempt = served := Option.some.inj (listed.symm.trans listed')
      have inside : index < pairings.attempts.length := (List.getElem?_eq_some_iff.mp listed).1
      simp only [List.getElem?_set_self inside, Option.some.injEq] at left
      subst left
      simp only [on, Function.update_self] at registers ⊢
      exact serves_registers serves (accounted.attempts attempt (List.mem_of_getElem? listed))
        (accounted.machines attempt.host) registers

/-- A ticket is issued, redeemed by a machine and presented again by a stranger. -/
def redeemedOnce : List (PairingLabel Nat Nat) :=
  [.host 0 "desk", .online 0 0 7 100, .join 1 { addr := 0, secret := 7 } "lap",
    .joins 0 .connect, .serves 0 (.accept 200), .serves 0 .snapshot, .joins 0 .greet,
    .serves 0 .read, .serves 0 .welcome, .joins 0 .read, .joins 0 .agree, .serves 0 .read,
    .stranger 2 0, .tells 1 (.hello 7 "else"), .serves 1 (.accept 300),
    .serves 0 (.redeem 400 true)]

/-- The exchange that completed first registered the machine, and was the only one. -/
theorem tickets_register_once_of_two :
    ∃ pairings, Runs.run step (start (fun _ => .empty)) redeemedOnce = some pairings ∧
      (pairings.machines 0).ledger.filterMap TicketEvent.redeems = [0] ∧
      ((pairings.machines 0).ledger.filterMap TicketEvent.redeems).Nodup := by
  have observed :
      (Runs.run step (start (fun _ => .empty)) redeemedOnce).map
        (fun pairings =>
          decide ((pairings.machines 0).ledger.filterMap TicketEvent.redeems = [0])) =
        some true := by
    decide
  obtain ⟨pairings, reached, holds⟩ := Option.map_eq_some_iff.mp observed
  obtain ⟨tickets, _⟩ := tickets_register_once (fun _ => .empty) redeemedOnce pairings reached
  exact ⟨pairings, reached, of_decide_eq_true holds, (tickets 0).2⟩

end Pairings

end Yank
