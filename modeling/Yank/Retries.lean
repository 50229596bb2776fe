import Yank.Agreement

/-!
# Trying again

A failed exchange should leave the ticket for the joiner to try again with, and does as long
as it fails before its end. At the end the ticket is consumed first and the machine
registered after. A registration can still fail there: nothing checked at the hello holds
for longer than the hello, the mesh may have filled up meanwhile, and the file may not be
written at all. The exchange is over then, its machine unknown, and the ticket gone.

The lock under which both happen only keeps others away. It undoes nothing.
-/

namespace Yank

variable {Id Secret : Type} [LinearOrder Id]

/-- The exchange a step is of. -/
def PairingLabel.exchange : PairingLabel Id Secret → Option Nat
  | .tells index _ => some index
  | .joins index _ => some index
  | .serves index _ => some index
  | _ => none

/-- When a step looked for a ticket that expired. -/
def PairingLabel.looked : PairingLabel Id Secret → Option Instant
  | .serves _ (.accept now) => some now
  | _ => none

namespace Machine

/-- The machine is in the saved mesh state. -/
def Holds (machine : Machine Id Secret) (id : Id) : Prop :=
  ∃ state, machine.saved.head? = some state ∧ (state.peerName id).isSome = true

/-- Whether a registration would go through. -/
def Registrable (machine : Machine Id Secret) (saves : Bool) (id : Id) (name : String) : Prop :=
  (machine.state.peerName id).isSome = true ∨
    saves = true ∧ machine.state.validateNewPeer name id = .ok () ∧
      machine.state.versionOf id < maxRecordVersion

/-- A current file has the machines the state has. -/
theorem holds_iff (machine : Machine Id Secret) (id : Id) (current : machine.Current) :
    machine.Holds id ↔ (machine.state.peerName id).isSome = true := by
  constructor
  · rintro ⟨state, saved, named⟩
    obtain rfl : machine.state = state := Option.some.inj (current.symm.trans saved)
    exact named
  · intro named
    exact ⟨machine.state, current, named⟩

/-- A registration answers no error exactly when it may go through. The guards are those of
`add_paired`: who is registered already is not written again, and who is not needs a valid name,
room for a version, and a file that takes the save. -/
theorem addPaired_iff (saves : Bool) (id : Id) (name : String) (machine : Machine Id Secret) :
    (machine.addPaired saves id name).1 = true ↔ machine.Registrable saves id name := by
  unfold addPaired update MeshState.addPaired Registrable
  cases known : (machine.state.peerName id).isSome with
  | true => simp
  | false =>
    simp only [Bool.false_eq_true, if_false, false_or]
    cases made : machine.state.addPeer id name with
    | error failure =>
      constructor
      · intro impossible
        cases impossible
      · rintro ⟨_, valid, below⟩
        have goes := (MeshState.addPeer_ok_iff id name machine.state _).mpr ⟨valid, below, rfl⟩
        rw [made] at goes
        cases goes
    | ok next =>
      obtain ⟨valid, below, rfl⟩ := (MeshState.addPeer_ok_iff id name machine.state next).mp made
      have written : machine.state.insert id
          { version := machine.state.versionOf id + 1, status := .alive name } ≠ machine.state := by
        intro same
        have named := MeshState.peerName_isSome_iff machine.state id |>.mpr
          ⟨_, name, by rw [← MeshState.insert_record_self id
            { version := machine.state.versionOf id + 1, status := .alive name } machine.state,
            same]⟩
        rw [known] at named
        cases named
      cases saves with
      | true => simp [written, valid, below]
      | false => simp [written]

/-- A registration that fails changes nothing. -/
theorem addPaired_failed (saves : Bool) (id : Id) (name : String)
    (machine after : Machine Id Secret)
    (failed : machine.addPaired saves id name = (false, after)) : after = machine := by
  unfold addPaired update at failed
  cases made : machine.state.addPaired id name with
  | error failure =>
    simp only [made, Prod.mk.injEq] at failed
    exact failed.2.symm
  | ok next =>
    simp only [made] at failed
    split at failed
    · cases failed
    · cases saves with
      | true => cases failed
      | false => exact (Prod.mk.inj failed).2.symm

/-- One that does not leaves the machine in the file. -/
theorem addPaired_holds (saves : Bool) (id : Id) (name : String)
    (machine after : Machine Id Secret) (current : machine.Current)
    (added : machine.addPaired saves id name = (true, after)) : after.Holds id := by
  have named := addPaired_registers saves id name machine (by rw [added])
  have kept := (addPaired_goes saves id name machine).current current
  rw [added] at named kept
  exact (holds_iff after id kept).mpr named

end Machine

/-- The ticket that was outstanding is outstanding still, unless it had expired, or the
machine is registered for it. -/
def Machine.Spares (looked : Option Instant) (joiner : Id) (machine after : Machine Id Secret) :
    Prop :=
  ∀ held, machine.issued = some held →
    after.issued = some held ∨ (∃ now, looked = some now ∧ held.expires ≤ now) ∨
      after.Holds joiner

namespace Pairings

/-- No step of an exchange takes the ticket of the host for nothing. -/
def Spares (pairings : Pairings Id Secret) (label : PairingLabel Id Secret)
    (next : Pairings Id Secret) : Prop :=
  ∀ index attempt, label.exchange = some index → pairings.attempts[index]? = some attempt →
    (pairings.machines attempt.host).Spares label.looked attempt.joiner
      (next.machines attempt.host)

/-- Where an exchange is at its end under a live ticket, its machine can be registered. -/
def Registers (pairings : Pairings Id Secret) : PairingLabel Id Secret → Prop
  | .serves index (.redeem now saves) =>
      ∀ attempt ticket name held, pairings.attempts[index]? = some attempt →
        attempt.serving = .paired ticket name →
        (pairings.machines attempt.host).issued = some held →
        held.ticket.secret = ticket.secret → now < held.expires →
        (pairings.machines attempt.host).Registrable saves attempt.joiner name
  | _ => True

end Pairings

namespace Attempt
variable {attempt next : Attempt Id Secret} {machine after : Machine Id Secret}

/-- A host that keeps its tickets spares them. -/
theorem spares_of_issued (looked : Option Instant) (joiner : Id)
    (kept : after.issued = machine.issued) : machine.Spares looked joiner after := by
  intro held isOut
  exact Or.inl (kept.trans isOut)

/-- Looking for a ticket drops none that has not expired. -/
theorem outstanding_spares (now : Instant) (joiner : Id) (machine : Machine Id Secret) :
    machine.Spares (some now) joiner (machine.outstanding now) := by
  intro held isOut
  by_cases expired : held.expires ≤ now
  · exact Or.inr (Or.inl ⟨now, rfl, expired⟩)
  · refine Or.inl ?_
    simp [Machine.outstanding, isOut, expired]

variable [DecidableEq Secret]

/-- The end of an exchange spares a live ticket exactly when the registration goes through. The
ticket is cleared before the registration is tried, so a failed one finds it gone; a ticket that
is spent, replaced or past its time was not live. -/
theorem redeem_spares_iff (now : Instant) (saves : Bool) (ticket : PairTicket Id Secret)
    (name : String) (current : machine.Current) :
    machine.Spares none attempt.joiner (attempt.redeem now saves ticket name machine).2 ↔
      ∀ held, machine.issued = some held → held.ticket.secret = ticket.secret →
        now < held.expires → machine.Registrable saves attempt.joiner name := by
  cases isOut : machine.issued with
  | none =>
    constructor
    · intro _ held impossible
      cases impossible
    · intro _ held impossible
      rw [isOut] at impossible
      cases impossible
  | some held =>
    by_cases live : held.ticket.secret = ticket.secret ∧ now < held.expires
    · have consumes : (attempt.redeem now saves ticket name machine).2 =
          (Machine.addPaired saves attempt.joiner name { machine with
            issued := none
            ledger := .redeemed held.number attempt.presented now :: machine.ledger }).2 := by
        simp only [redeem, isOut, if_pos live]
        split
        · rfl
        · rfl
      rw [consumes]
      have goes := Machine.addPaired_iff saves attempt.joiner name { machine with
        issued := none
        ledger := .redeemed held.number attempt.presented now :: machine.ledger }
      cases added : Machine.addPaired saves attempt.joiner name { machine with
          issued := none
          ledger := .redeemed held.number attempt.presented now :: machine.ledger } with
      | mk saved last =>
        rw [added] at goes
        cases saved with
        | true =>
          constructor
          · intro _ _ _ _ _
            exact goes.mp rfl
          · intro _ _ _
            refine Or.inr (Or.inr ?_)
            refine Machine.addPaired_holds saves attempt.joiner name _ last ?_ added
            exact current
        | false =>
          obtain rfl := Machine.addPaired_failed saves attempt.joiner name _ _ added
          constructor
          · intro spares
            -- The file is what it was, so a machine in it could be registered again.
            obtain kept | ⟨_, looked, _⟩ | holds := spares held isOut
            · cases kept
            · cases looked
            · have named := (Machine.holds_iff machine attempt.joiner current).mp holds
              cases goes.mpr (Or.inl named)
          · intro registers
            cases goes.mpr (registers held rfl live.1 live.2)
    · have cancels : (attempt.redeem now saves ticket name machine).2 = machine := by
        simp only [redeem, isOut, if_neg live]
      constructor
      · intro _ other isHeld same unexpired
        obtain rfl := Option.some.inj isHeld
        exact absurd ⟨same, unexpired⟩ live
      · intro _
        rw [cancels]
        exact spares_of_issued none attempt.joiner rfl

variable [EndpointText Id] in
/-- The end of an exchange follows its done. -/
theorem serve_redeem {busy : Bool} {now : Instant} {saves : Bool}
    (taken : attempt.serve busy machine (.redeem now saves) = some (next, after)) :
    ∃ ticket name, attempt.serving = .paired ticket name ∧
      (attempt.redeem now saves ticket name machine).2 = after := by
  cases atPhase : attempt.serving with
  | paired ticket name =>
    simp only [serve, atPhase, Option.some.injEq] at taken
    exact ⟨ticket, name, rfl, by rw [taken]⟩
  | _ => simp [serve, atPhase] at taken

/-- No step of the host but the last takes the ticket. -/
theorem serves_spares {busy : Bool} {move : ServeMove}
    (serves : attempt.Serves busy machine move next after) (index : Nat)
    (early : ∀ now saves, move ≠ .redeem now saves) :
    machine.Spares (PairingLabel.looked (.serves index move : PairingLabel Id Secret))
      attempt.joiner after := by
  cases serves with
  | unticketed now => exact outstanding_spares now attempt.joiner machine
  | ticketed now => exact outstanding_spares now attempt.joiner machine
  | failed now saves => exact absurd rfl (early now saves)
  | redeemed now saves => exact absurd rfl (early now saves)
  | _ => exact spares_of_issued _ attempt.joiner rfl

omit [DecidableEq Secret] in
/-- The joiner has no say in tickets. -/
theorem joins_spares {move : JoinMove} (joins : attempt.Joins machine move next after) :
    after.issued = machine.issued := by
  cases joins with
  | registered saves name atPhase =>
    obtain same | ⟨_, _, changed⟩ :=
      Machine.update_cases saves (MeshState.addPaired attempt.host name) machine
    · rw [Machine.addPaired, same]
    · rw [Machine.addPaired, changed]
  | _ => rfl

end Attempt

namespace Pairings
variable [EndpointText Id] [DecidableEq Secret]

/-- A step spares the ticket of the host exactly when it does not end an exchange whose
machine cannot be registered. -/
theorem step_spares_iff (pairings next : Pairings Id Secret) (label : PairingLabel Id Secret)
    (agreed : pairings.Agreed) (taken : pairings.step label = some next) :
    pairings.Spares label next ↔ pairings.Registers label := by
  cases label with
  | serves index move =>
    obtain ⟨attempt, listed, moves⟩ := Option.bind_eq_some_iff.mp taken
    obtain ⟨⟨after, machine⟩, moved, rfl⟩ := Option.map_eq_some_iff.mp moves
    have current := agreed.current attempt.host
    have one : pairings.Spares (.serves index move)
        { pairings.on attempt.host machine with attempts := pairings.attempts.set index after } ↔
          (pairings.machines attempt.host).Spares
            (PairingLabel.looked (.serves index move : PairingLabel Id Secret)) attempt.joiner
            machine := by
      constructor
      · intro spares
        simpa [on] using spares index attempt rfl listed
      · intro spares _ other isIndex listed'
        obtain rfl : index = _ := Option.some.inj isIndex
        obtain rfl : attempt = other := Option.some.inj (listed.symm.trans listed')
        simpa [on] using spares
    rw [one]
    cases move with
    | redeem now saves =>
      obtain ⟨ticket, name, atPhase, ended⟩ := attempt.serve_redeem moved
      rw [← ended]
      refine (Attempt.redeem_spares_iff now saves ticket name current).trans ?_
      constructor
      · intro registers other ticket' name' held listed' atPhase' isOut same live
        obtain rfl : attempt = other := Option.some.inj (listed.symm.trans listed')
        obtain ⟨rfl, rfl⟩ := Serving.paired.inj (atPhase.symm.trans atPhase')
        exact registers held isOut same live
      · intro registers held isOut same live
        exact registers attempt ticket name held listed atPhase isOut same live
    | _ =>
      constructor
      · intro _
        exact trivial
      · intro _
        exact Attempt.serves_spares (attempt.serve_serves _ after _ machine _ moved) index (by simp)
  | joins index move =>
    obtain ⟨attempt, listed, moves⟩ := Option.bind_eq_some_iff.mp taken
    obtain ⟨⟨after, machine⟩, moved, rfl⟩ := Option.map_eq_some_iff.mp moves
    have kept := Attempt.joins_spares (attempt.join_joins after _ machine move moved)
    constructor
    · intro _
      exact trivial
    · intro _ _ other _ _
      refine Attempt.spares_of_issued _ other.joiner ?_
      simp only [on]
      by_cases same : other.host = attempt.joiner
      · rw [same, Function.update_self, kept]
      · rw [Function.update_of_ne same]
  | tells index message =>
    cases step_took pairings next _ taken with
    | said _ _ attempt listed isStranger =>
      constructor
      · intro _
        exact trivial
      · intro _ _ other _ _
        exact Attempt.spares_of_issued _ other.joiner rfl
  | _ =>
    constructor
    · intro _
      exact trivial
    · intro _ _ _ impossible
      cases impossible

/-- Along a run a ticket is consumed only by an exchange that registers its machine, exactly
when at the end of each exchange under a live ticket the machine has a name already, or there is
room for it below the ceiling of versions and the file can be written. -/
theorem tickets_are_spared_iff (loaded : Id → MeshState Id)
    (labels : List (PairingLabel Id Secret)) (pairings : Pairings Id Secret)
    (reached : Runs.run step (start loaded) labels = some pairings) :
    (∀ early label late before after, labels = early ++ label :: late →
      Runs.run step (start loaded) early = some before → before.step label = some after →
      before.Spares label after) ↔
      Runs.Guarded step Registers (start loaded) labels := by
  rw [Runs.guarded_iff_steps step Registers Agreed Spares
    (fun state label next agreed taken => step_agreed state next label agreed taken)
    (fun state label next agreed taken => step_spares_iff state next label agreed taken) _ _ _
    (start_agreed loaded) reached]

end Pairings

/-- The name both sides agreed on. -/
def Serving.agreed : Serving Id Secret → Option String
  | .paired _ name => some name
  | _ => none

namespace Pairings

/-- The file cannot be written when a machine is registered. -/
def unsaved : List (PairingLabel Nat Nat) :=
  [.host 0 "desk", .online 0 0 7 100, .join 1 { addr := 0, secret := 7 } "lap",
    .joins 0 .connect, .serves 0 (.accept 200), .serves 0 .snapshot, .joins 0 .greet,
    .serves 0 .read, .serves 0 .welcome, .joins 0 .read, .joins 0 .agree, .serves 0 .read]

/-- The exchange fails at its end, long before the ticket expires. The machine is not in the
file, and there is no ticket to try again with. -/
theorem a_failed_exchange_takes_the_ticket :
    ∃ before after attempt held, Runs.run step (start (fun _ => .empty)) unsaved = some before ∧
      before.step (.serves 0 (.redeem 400 false)) = some after ∧
      before.attempts[0]? = some attempt ∧ attempt.host = 0 ∧ attempt.joiner = 1 ∧
      (before.machines 0).issued = some held ∧ 400 < held.expires ∧
      (after.machines 0).issued = none ∧ ¬ (after.machines 0).Holds 1 ∧
      ¬ before.Spares (.serves 0 (.redeem 400 false)) after := by
  have observed :
      (Runs.run step (start (fun _ => .empty)) unsaved).bind (fun before =>
        (before.step (.serves 0 (.redeem 400 false))).map (fun after =>
          before.attempts[0]?.any (fun attempt =>
              decide (attempt.host = 0) && decide (attempt.joiner = 1)) &&
            (before.machines 0).issued.any (fun held => decide (400 < held.expires)) &&
            (after.machines 0).issued.isNone &&
            (after.machines 0).saved.head?.all (fun state =>
              decide (state.peerName 1 = none)))) = some true := by
    decide
  obtain ⟨before, reached, moves⟩ := Option.bind_eq_some_iff.mp observed
  obtain ⟨after, taken, holds⟩ := Option.map_eq_some_iff.mp moves
  simp only [Bool.and_eq_true, Option.any_eq_true, Option.isNone_iff_eq_none,
    decide_eq_true_eq] at holds
  obtain ⟨⟨⟨⟨attempt, listed, isHost, isJoiner⟩, held, isOut, live⟩, gone⟩, unknown⟩ := holds
  have unsaved : ¬ (after.machines 0).Holds 1 := by
    rintro ⟨state, saved, named⟩
    rw [saved, Option.all_some, decide_eq_true_eq] at unknown
    rw [unknown] at named
    cases named
  refine ⟨before, after, attempt, held, reached, taken, listed, isHost, isJoiner, isOut, live, gone,
    unsaved, ?_⟩
  intro spares
  have spared := spares 0 attempt rfl listed
  rw [isHost, isJoiner] at spared
  obtain kept | ⟨_, looked, _⟩ | saved := spared held isOut
  · rw [gone] at kept
    cases kept
  · cases looked
  · exact unsaved saved

/-- Where the file can be written, the ticket goes for the machine that is in it. The labels are
those of the run in which the save fails, with a save that goes through in its place. -/
theorem tickets_are_spared_once :
    ∃ pairings, Runs.run step (start (fun _ => .empty))
        (unsaved ++ [.serves 0 (.redeem 400 true)]) = some pairings ∧
      (pairings.machines 0).issued = none ∧
      ∀ early label late before after,
        unsaved ++ [.serves 0 (.redeem 400 true)] = early ++ label :: late →
        Runs.run step (start (fun _ => .empty)) early = some before →
        before.step label = some after → before.Spares label after := by
  have observed :
      (Runs.run step (start (fun _ => .empty)) (unsaved ++ [.serves 0 (.redeem 400 true)])).map
        (fun pairings => (pairings.machines 0).issued.isNone) = some true := by
    decide
  obtain ⟨pairings, reached, gone⟩ := Option.map_eq_some_iff.mp observed
  have room :
      (Runs.run step (start (fun _ => .empty)) unsaved).map (fun middle =>
        middle.attempts[0]?.all (fun attempt => attempt.serving.agreed.all (fun name =>
          decide ((middle.machines attempt.host).state.validateNewPeer name attempt.joiner =
            .ok ()) &&
          decide ((middle.machines attempt.host).state.versionOf attempt.joiner <
            maxRecordVersion)))) = some true := by
    decide
  refine ⟨pairings, reached, Option.isNone_iff_eq_none.mp gone, ?_⟩
  refine (tickets_are_spared_iff (fun _ => .empty) _ pairings reached).mpr ?_
  rw [Runs.guarded_append_iff]
  constructor
  · refine Runs.guarded_of_invariant step Registers (fun _ => True)
      (fun label => ∀ state : Pairings Nat Nat, state.Registers label) (fun _ _ _ _ _ _ => trivial)
      (fun state _ _ allowed => allowed state) _ _ trivial ?_
    simp [unsaved, Registers]
  · intro middle through
    rw [through, Option.map_some, Option.some.injEq] at room
    refine ⟨?_, fun _ _ => trivial⟩
    intro attempt ticket name held listed atPhase _ _ _
    rw [listed, Option.all_some, atPhase, Serving.agreed, Option.all_some] at room
    simp only [Bool.and_eq_true, decide_eq_true_eq] at room
    exact Or.inr ⟨rfl, room.1, room.2⟩

end Pairings

end Yank
