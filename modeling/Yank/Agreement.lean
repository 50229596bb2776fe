import Yank.Tickets

/-!
# Pairing agreement

The host saves the joiner before it confirms with the close, and the joiner registers the
host after it saw that close. So a joiner that registers the host was registered by it, and
a refusal on either side comes before anything is registered on either.

The last step is the joiner's own, and nobody takes back what the host did if it fails. The
host then knows the joiner and is not known by it; pairing again repairs it, since a machine
that is registered is left as it is.
-/

namespace Yank

variable {Id Secret : Type} [LinearOrder Id]

/-- Whether the host may have registered the joiner. -/
def Serving.isSettled : Serving Id Secret → Bool
  | .saved => true
  | .over => true
  | _ => false

/-- Whether the host took the joiner's confirmation and is not through with it. -/
def Serving.hasDone : Serving Id Secret → Bool
  | .paired _ _ => true
  | .saved => true
  | _ => false

/-- Whether the host does nothing more but close. -/
def Serving.isEnding : Serving Id Secret → Bool
  | .rejecting => true
  | .over => true
  | _ => false

/-- Whether the host is in an exchange. -/
def Serving.isRunning : Serving Id Secret → Bool
  | .unreached => false
  | .over => false
  | _ => true

/-- Only an exchange that runs has one of the permits. -/
theorem running_of_holdsPermit (serving : Serving Id Secret)
    (holds : serving.holdsPermit = true) : serving.isRunning = true := by
  cases serving <;> first | rfl | cases holds

/-- One that has a permit is not settled, unless the machine was just registered. -/
theorem unsettled_of_holdsPermit (serving : Serving Id Secret)
    (holds : serving.holdsPermit = true) (unsaved : serving ≠ .saved) :
    serving.isSettled = false := by
  cases serving <;> first | rfl | exact absurd rfl unsaved | cases holds

def Joining.isDialing : Joining Id Secret → Bool
  | .dialing _ _ _ => true
  | _ => false

/-- Whether a machine of ours that joins has not confirmed yet. -/
def Joining.isBeforeDone : Joining Id Secret → Bool
  | .dialing _ _ _ => true
  | .connected _ _ _ => true
  | .greeted _ => true
  | .agreeing _ => true
  | .refusing => true
  | _ => false

def Joining.hasGivenUp : Joining Id Secret → Bool
  | .refusing => true
  | .over => true
  | _ => false

namespace Attempt

/-- What the two sides of an exchange know of each other at every point of it. -/
structure Consistent (attempt : Attempt Id Secret) : Prop where
  unregistered : attempt.serving.isSettled = false → attempt.registered = none
  saved : attempt.serving = .saved → attempt.registered.isSome = true
  closed : attempt.closed = some pairedReason → attempt.registered.isSome = true
  confirmed : ∀ name, attempt.joining = .confirmed name → attempt.registered.isSome = true
  joined : attempt.joined.isSome = true → attempt.registered.isSome = true
  undialed : attempt.joining.isDialing = true →
    attempt.serving.isRunning = false ∧ attempt.refused = false
  undone : attempt.joining.isBeforeDone = true →
    .done ∉ attempt.toHost ∧ attempt.serving.hasDone = false ∧ attempt.registered = none
  refusal : attempt.refused = true → attempt.registered = none ∧
    (attempt.serving.isEnding = true ∨ .done ∉ attempt.toHost ∧
      attempt.serving.hasDone = false ∧ attempt.joining.hasGivenUp = true)
  rejects : ∀ reason, .reject reason ∈ attempt.toJoiner → attempt.refused = true

variable {attempt next : Attempt Id Secret}

/-- After a refusal the host is at its end, unless the joiner refused and gave up. -/
theorem Consistent.ending (consistent : attempt.Consistent) (refused : attempt.refused = true)
    (goesOn : attempt.joining.hasGivenUp = false) : attempt.serving.isEnding = true := by
  obtain ⟨_, ended | ⟨_, _, givenUp⟩⟩ := consistent.refusal refused
  · exact ended
  · rw [goesOn] at givenUp
    cases givenUp

/-- An exchange begins with nothing said. Most of what is promised is promised of phases that
neither side is in yet. -/
theorem opened_consistent (joiner host : Id) (joining : Joining Id Secret)
    (serving : Serving Id Secret) (isNew : serving.isSettled = false)
    (unconfirmed : ∀ name, joining ≠ .confirmed name)
    (unreached : joining.isDialing = true → serving.isRunning = false)
    (undone : serving.hasDone = false) : (opened joiner host joining serving).Consistent where
  unregistered _ := rfl
  saved isSaved := by
    change serving = .saved at isSaved
    subst isSaved
    cases isNew
  closed impossible := nomatch impossible
  confirmed name isConfirmed := absurd isConfirmed (unconfirmed name)
  joined impossible := nomatch impossible
  undialed dials := ⟨unreached dials, rfl⟩
  undone _ := ⟨List.not_mem_nil, undone, rfl⟩
  refusal impossible := nomatch impossible
  rejects _ impossible := nomatch impossible

/-- The host leaves an exchange in which it registered nothing. A host that is over promises
nothing of what it registered, and the reason it closes with is not that it paired. -/
theorem Consistent.ends (consistent : attempt.Consistent) (reason : String)
    (toHost : List (Message Secret)) (refused : Bool) (unregistered : attempt.registered = none)
    (other : reason ≠ pairedReason) (fewer : ∀ message ∈ toHost, message ∈ attempt.toHost)
    (running : attempt.joining.isDialing = false)
    (stays : attempt.refused = true → refused = true) :
    ({ attempt with serving := .over, closed := some reason, toHost, refused } :
      Attempt Id Secret).Consistent where
  unregistered impossible := nomatch impossible
  saved impossible := nomatch impossible
  closed isPaired := absurd (Option.some.inj isPaired) other
  confirmed := consistent.confirmed
  joined := consistent.joined
  undialed dials := by
    rw [running] at dials
    cases dials
  undone before := by
    obtain ⟨undone, _, _⟩ := consistent.undone before
    exact ⟨fun member => undone (fewer _ member), rfl, unregistered⟩
  refusal _ := ⟨unregistered, Or.inl rfl⟩
  rejects reason member := stays (consistent.rejects reason member)

/-- The host goes on without having heard that the joiner is done. What it promised was promised
of a host that had not registered anybody, so the new phase only has to promise no more than that.
-/
theorem Consistent.goes (consistent : attempt.Consistent) (phase : Serving Id Secret)
    (toHost toJoiner : List (Message Secret)) (presented : Option Secret)
    (unregistered : attempt.registered = none) (unended : attempt.serving.isEnding = false)
    (unsettled : phase.isSettled = false) (undone : phase.hasDone = false)
    (fewer : ∀ message ∈ toHost, message ∈ attempt.toHost)
    (running : attempt.joining.isDialing = false)
    (quiet : ∀ reason, .reject reason ∈ toJoiner → .reject reason ∈ attempt.toJoiner) :
    ({ attempt with serving := phase, toHost, toJoiner, presented } :
      Attempt Id Secret).Consistent where
  unregistered _ := unregistered
  saved isSaved := by
    change phase = .saved at isSaved
    subst isSaved
    cases unsettled
  closed := consistent.closed
  confirmed := consistent.confirmed
  joined := consistent.joined
  undialed dials := by
    rw [running] at dials
    cases dials
  undone before :=
    ⟨fun member => (consistent.undone before).1 (fewer _ member), undone, unregistered⟩
  refusal refused := by
    obtain ⟨_, ended | ⟨unheard, _, givenUp⟩⟩ := consistent.refusal refused
    · rw [unended] at ended
      cases ended
    · exact ⟨unregistered, Or.inr ⟨fun member => unheard (fewer _ member), undone, givenUp⟩⟩
  rejects reason member := consistent.rejects reason (quiet reason member)

/-- The joiner goes on, or gives up, and registers nothing. The joiner may say more and may learn
that it is refused, so long as what it says is not yet that it is done. -/
theorem Consistent.goesOn (consistent : attempt.Consistent) (phase : Joining Id Secret)
    (toHost toJoiner : List (Message Secret)) (refused : Bool) (dialed : phase.isDialing = false)
    (unconfirmed : ∀ name, phase ≠ .confirmed name)
    (undone : phase.isBeforeDone = true →
      .done ∉ toHost ∧ attempt.serving.hasDone = false ∧ attempt.registered = none)
    (refusal : refused = true → attempt.registered = none ∧
      (attempt.serving.isEnding = true ∨
        .done ∉ toHost ∧ attempt.serving.hasDone = false ∧ phase.hasGivenUp = true))
    (rejects : ∀ reason, .reject reason ∈ toJoiner → refused = true) :
    ({ attempt with joining := phase, toHost, toJoiner, refused } :
      Attempt Id Secret).Consistent where
  unregistered := consistent.unregistered
  saved := consistent.saved
  closed := consistent.closed
  confirmed name isConfirmed := absurd isConfirmed (unconfirmed name)
  joined := consistent.joined
  undialed dials := nomatch dialed.symm.trans dials
  undone := undone
  refusal := refusal
  rejects := rejects

/-- Once the host has heard that the joiner is done, the joiner is past it. -/
theorem Consistent.past_done (consistent : attempt.Consistent)
    (heard : attempt.serving.hasDone = true) : attempt.joining.isBeforeDone = false := by
  cases early : attempt.joining.isBeforeDone with
  | false => rfl
  | true =>
    have unheard := (consistent.undone early).2.1
    rw [heard] at unheard
    cases unheard

section Serves
variable [DecidableEq Secret] {busy : Bool} {machine after : Machine Id Secret}

/-- Only an exchange that runs goes on. -/
theorem serves_running {move : ServeMove} (serves : attempt.Serves busy machine move next after) :
    attempt.serving.isRunning = true := by
  cases serves with
  | rejected _ _ _ _ atPhase =>
    obtain refusing | ⟨ticket, localName, state, opening⟩ := atPhase
    · rw [refusing]
      rfl
    · rw [opening]
      rfl
  | gone _ _ _ running => exact running_of_holdsPermit attempt.serving running
  | turnedAway _ atPhase | unticketed _ atPhase | ticketed _ _ atPhase | looked _ _ atPhase
  | greeted _ _ _ _ _ _ atPhase | welcomed _ _ _ atPhase | agreed _ _ _ atPhase
  | refusedBy _ _ _ _ atPhase | cancelled _ _ _ _ atPhase | failed _ _ _ _ _ atPhase
  | redeemed _ _ _ _ _ atPhase | confirmed atPhase =>
    rw [atPhase]
    rfl

/-- What a step of the host leaves of what the two sides know. One case for each move of the host;
most leave the joiner's side alone, and only a registration and its answer touch what is promised
of both. While the joiner still dials the host has not begun, so no move of the host is of that
phase. -/
theorem serves_consistent {move : ServeMove}
    (serves : attempt.Serves busy machine move next after) (consistent : attempt.Consistent) :
    next.Consistent := by
  have running : attempt.joining.isDialing = false := by
    cases dials : attempt.joining.isDialing with
    | false => rfl
    | true =>
      have unreached := (consistent.undialed dials).1
      rw [serves_running serves] at unreached
      cases unreached
  cases serves with
  | turnedAway now atPhase =>
    exact consistent.ends "busy" attempt.toHost attempt.refused
      (consistent.unregistered (by rw [atPhase]; rfl)) (by decide) (fun _ member => member) running
      id
  | unticketed now atPhase =>
    exact consistent.goes .refusing attempt.toHost attempt.toJoiner attempt.presented
      (consistent.unregistered (by rw [atPhase]; rfl)) (by rw [atPhase]; rfl) rfl rfl
      (fun _ member => member) running (fun _ member => member)
  | ticketed now held atPhase =>
    exact consistent.goes _ attempt.toHost attempt.toJoiner attempt.presented
      (consistent.unregistered (by rw [atPhase]; rfl)) (by rw [atPhase]; rfl) rfl rfl
      (fun _ member => member) running (fun _ member => member)
  | looked ticket localName atPhase =>
    exact consistent.goes _ attempt.toHost attempt.toJoiner attempt.presented
      (consistent.unregistered (by rw [atPhase]; rfl)) (by rw [atPhase]; rfl) rfl rfl
      (fun _ member => member) running (fun _ member => member)
  | rejected move reason toHost presented atPhase rest =>
    obtain ⟨read, split⟩ := rest
    have fewer : ∀ message ∈ toHost, message ∈ attempt.toHost :=
      fun _ member => split ▸ List.mem_append_right read member
    have unregistered : attempt.registered = none := by
      obtain refusing | ⟨_, _, _, opening⟩ := atPhase
      · exact consistent.unregistered (by rw [refusing]; rfl)
      · exact consistent.unregistered (by rw [opening]; rfl)
    exact {
      unregistered := fun _ => unregistered
      saved := fun impossible => nomatch impossible
      closed := consistent.closed
      confirmed := consistent.confirmed
      joined := consistent.joined
      undialed := fun dials => nomatch running.symm.trans dials
      undone := fun before =>
        ⟨fun member => (consistent.undone before).1 (fewer _ member), rfl, unregistered⟩
      refusal := fun _ => ⟨unregistered, Or.inl rfl⟩
      rejects := fun _ _ => rfl }
  | greeted ticket localName state announced name toHost atPhase sent =>
    exact consistent.goes _ toHost attempt.toJoiner (some ticket.secret)
      (consistent.unregistered (by rw [atPhase]; rfl)) (by rw [atPhase]; rfl) rfl rfl
      (fun _ member => sent ▸ List.mem_cons_of_mem _ member) running (fun _ member => member)
  | welcomed ticket localName name atPhase =>
    exact consistent.goes _ attempt.toHost _ attempt.presented
      (consistent.unregistered (by rw [atPhase]; rfl)) (by rw [atPhase]; rfl) rfl rfl
      (fun _ member => member) running (by simp)
  | agreed ticket name toHost atPhase sent =>
    -- The confirmation was on its way, so the joiner sent it and nobody has refused.
    have heard : .done ∈ attempt.toHost := sent ▸ List.mem_cons_self
    have unregistered := consistent.unregistered (by rw [atPhase]; rfl)
    have willing : attempt.refused = true → False := by
      intro refused
      obtain ⟨_, ended | ⟨unheard, _⟩⟩ := consistent.refusal refused
      · rw [atPhase] at ended
        cases ended
      · exact unheard heard
    exact {
      unregistered := fun _ => unregistered
      saved := fun impossible => nomatch impossible
      closed := consistent.closed
      confirmed := consistent.confirmed
      joined := consistent.joined
      undialed := fun dials => nomatch running.symm.trans dials
      undone := fun before => absurd heard (consistent.undone before).1
      refusal := fun refused => (willing refused).elim
      rejects := consistent.rejects }
  | refusedBy ticket name reason toHost atPhase sent =>
    exact consistent.ends "" toHost true (consistent.unregistered (by rw [atPhase]; rfl))
      (by decide) (fun _ member => sent ▸ List.mem_cons_of_mem _ member) running (fun _ => rfl)
  | gone move reason toHost atPhase unpaired unsaved other rest =>
    obtain ⟨read, split⟩ := rest
    refine consistent.ends reason toHost attempt.refused (consistent.unregistered ?_) other
      (fun _ member => split ▸ List.mem_append_right read member) running id
    exact unsettled_of_holdsPermit attempt.serving atPhase unsaved
  | cancelled now saves ticket name atPhase =>
    exact consistent.ends "cancelled" attempt.toHost true
      (consistent.unregistered (by rw [atPhase]; rfl)) (by decide) (fun _ member => member) running
      (fun _ => rfl)
  | failed now saves ticket name held atPhase =>
    exact consistent.ends "failed" attempt.toHost true
      (consistent.unregistered (by rw [atPhase]; rfl)) (by decide) (fun _ member => member) running
      (fun _ => rfl)
  | redeemed now saves ticket name held atPhase =>
    have before := consistent.past_done (by rw [atPhase]; rfl)
    have willing : attempt.refused = true → False := by
      intro refused
      obtain ⟨_, ended | ⟨_, unheard, _⟩⟩ := consistent.refusal refused
      · rw [atPhase] at ended
        cases ended
      · rw [atPhase] at unheard
        cases unheard
    exact {
      unregistered := fun impossible => nomatch impossible
      saved := fun _ => rfl
      closed := fun _ => rfl
      confirmed := fun _ _ => rfl
      joined := fun _ => rfl
      undialed := fun dials => nomatch running.symm.trans dials
      undone := fun early => nomatch before.symm.trans early
      refusal := fun refused => (willing refused).elim
      rejects := consistent.rejects }
  | confirmed atPhase =>
    have registered := consistent.saved atPhase
    have before := consistent.past_done (by rw [atPhase]; rfl)
    exact {
      unregistered := fun impossible => nomatch impossible
      saved := fun impossible => nomatch impossible
      closed := fun _ => registered
      confirmed := consistent.confirmed
      joined := consistent.joined
      undialed := fun dials => nomatch running.symm.trans dials
      undone := fun early => nomatch before.symm.trans early
      refusal := fun refused => ⟨(consistent.refusal refused).1, Or.inl rfl⟩
      rejects := consistent.rejects }

end Serves

/-- What a step of the joiner leaves of what the two sides know. One case for each move of the
joiner. What the host does not know yet stays unknown: a move reads or adds a message, and a
registration comes after the confirmation that the host's own registration wrote. -/
theorem joins_consistent {machine after : Machine Id Secret} {move : JoinMove}
    (joins : attempt.Joins machine move next after) (consistent : attempt.Consistent) :
    next.Consistent := by
  cases joins with
  | connected ticket localName state atPhase =>
    obtain ⟨_, willing⟩ := consistent.undialed (by rw [atPhase]; rfl)
    obtain ⟨unheard, _, unregistered⟩ := consistent.undone (by rw [atPhase]; rfl)
    exact {
      unregistered := fun _ => unregistered
      saved := fun impossible => nomatch impossible
      closed := consistent.closed
      confirmed := fun _ impossible => nomatch impossible
      joined := consistent.joined
      undialed := fun impossible => nomatch impossible
      undone := fun _ => ⟨unheard, rfl, unregistered⟩
      refusal := fun refused => nomatch willing.symm.trans refused
      rejects := consistent.rejects }
  | greeted ticket localName state atPhase =>
    obtain ⟨unheard, unpaired, unregistered⟩ := consistent.undone (by rw [atPhase]; rfl)
    refine consistent.goesOn _ _ attempt.toJoiner attempt.refused rfl (by simp) ?_ ?_
      consistent.rejects
    · intro _
      exact ⟨by simp [unheard], unpaired, unregistered⟩
    · intro refused
      exact ⟨unregistered, Or.inl (consistent.ending refused (by rw [atPhase]; rfl))⟩
  | welcomed state announced name toJoiner atPhase sent =>
    have undone := consistent.undone (by rw [atPhase]; rfl)
    refine consistent.goesOn _ attempt.toHost toJoiner attempt.refused rfl (by simp)
      (fun _ => undone) ?_ ?_
    · intro refused
      exact ⟨undone.2.2, Or.inl (consistent.ending refused (by rw [atPhase]; rfl))⟩
    · intro reason member
      exact consistent.rejects reason (sent ▸ List.mem_cons_of_mem _ member)
  | refused state announced reason toJoiner atPhase sent =>
    obtain ⟨unheard, unpaired, unregistered⟩ := consistent.undone (by rw [atPhase]; rfl)
    have unsaid : Message.done ∉ attempt.toHost ++ [.reject reason] := by simp [unheard]
    exact consistent.goesOn _ _ toJoiner true rfl (by simp)
      (fun _ => ⟨unsaid, unpaired, unregistered⟩)
      (fun _ => ⟨unregistered, Or.inr ⟨unsaid, unpaired, rfl⟩⟩) (fun _ _ => rfl)
  | refusedBy state reason toJoiner atPhase sent =>
    have already := consistent.rejects reason (sent ▸ List.mem_cons_self)
    have ending := consistent.ending already (by rw [atPhase]; rfl)
    exact consistent.goesOn _ attempt.toHost toJoiner true rfl (by simp)
      (fun impossible => nomatch impossible)
      (fun _ => ⟨(consistent.refusal already).1, Or.inl ending⟩) (fun _ _ => rfl)
  | gone move toJoiner ours rest =>
    obtain ⟨read, split⟩ := rest
    refine consistent.goesOn _ attempt.toHost toJoiner attempt.refused rfl (by simp)
      (fun impossible => nomatch impossible) ?_ ?_
    · intro refused
      obtain ⟨unregistered, ended | ⟨unheard, unpaired, _⟩⟩ := consistent.refusal refused
      · exact ⟨unregistered, Or.inl ended⟩
      · exact ⟨unregistered, Or.inr ⟨unheard, unpaired, rfl⟩⟩
    · intro reason member
      exact consistent.rejects reason (split ▸ List.mem_append_right read member)
  | agreed name atPhase =>
    have undone := consistent.undone (by rw [atPhase]; rfl)
    refine consistent.goesOn _ _ attempt.toJoiner attempt.refused rfl (by simp)
      (fun impossible => nomatch impossible) ?_ consistent.rejects
    intro refused
    exact ⟨undone.2.2, Or.inl (consistent.ending refused (by rw [atPhase]; rfl))⟩
  | confirmed name atPhase isPaired =>
    exact {
      unregistered := consistent.unregistered
      saved := consistent.saved
      closed := consistent.closed
      confirmed := fun _ _ => consistent.closed isPaired
      joined := consistent.joined
      undialed := fun impossible => nomatch impossible
      undone := fun impossible => nomatch impossible
      refusal := fun refused => ⟨(consistent.refusal refused).1,
        Or.inl (consistent.ending refused (by rw [atPhase]; rfl))⟩
      rejects := consistent.rejects }
  | registered saves name atPhase =>
    exact {
      unregistered := consistent.unregistered
      saved := consistent.saved
      closed := consistent.closed
      confirmed := fun _ impossible => nomatch impossible
      joined := fun _ => consistent.confirmed name atPhase
      undialed := fun impossible => nomatch impossible
      undone := fun impossible => nomatch impossible
      refusal := fun refused => ⟨(consistent.refusal refused).1,
        Or.inl (consistent.ending refused (by rw [atPhase]; rfl))⟩
      rejects := consistent.rejects }

/-- A stranger may say anything. A stranger is no joiner of ours, so nothing it says is taken for
one. -/
theorem said_consistent (message : Message Secret) (isStranger : attempt.joining = .stranger)
    (consistent : attempt.Consistent) :
    ({ attempt with toHost := attempt.toHost ++ [message] } : Attempt Id Secret).Consistent where
  unregistered := consistent.unregistered
  saved := consistent.saved
  closed := consistent.closed
  confirmed := consistent.confirmed
  joined := consistent.joined
  undialed := consistent.undialed
  undone before := by
    change attempt.joining.isBeforeDone = true at before
    rw [isStranger] at before
    cases before
  refusal refused := ⟨(consistent.refusal refused).1,
    Or.inl (consistent.ending refused (by rw [isStranger]; rfl))⟩
  rejects := consistent.rejects

/-- A machine that stops leaves its side of an exchange over, or has no part in it. -/
theorem stopped_joining (attempt : Attempt Id Secret) (machine : Id) :
    (attempt.stopped machine).joining = attempt.joining ∨
      (attempt.stopped machine).joining = .over := by
  unfold stopped
  cases attempt.joining with
  | stranger => exact Or.inl rfl
  | _ =>
    dsimp only
    split
    · exact Or.inr rfl
    · exact Or.inl rfl

/-- An exchange whose machine stops is over, or was no exchange of that machine. -/
theorem stopped_serving (attempt : Attempt Id Secret) (machine : Id) :
    (attempt.stopped machine).serving = attempt.serving ∨
      (attempt.stopped machine).serving = .over := by
  unfold stopped
  dsimp only
  split
  · exact Or.inr rfl
  · exact Or.inl rfl

/-- A machine that stops leaves nothing of an exchange half done. Its side of the exchange keeps
its phase or ends, and an ended side promises less. -/
theorem stopped_consistent (machine : Id) (consistent : attempt.Consistent) :
    (attempt.stopped machine).Consistent where
  unregistered unsettled := by
    obtain same | ended := stopped_serving attempt machine
    · exact consistent.unregistered (same ▸ unsettled)
    · rw [ended] at unsettled
      cases unsettled
  saved isSaved := by
    obtain same | ended := stopped_serving attempt machine
    · exact consistent.saved (same ▸ isSaved)
    · rw [ended] at isSaved
      cases isSaved
  closed := consistent.closed
  confirmed name isConfirmed := by
    obtain same | ended := stopped_joining attempt machine
    · exact consistent.confirmed name (same ▸ isConfirmed)
    · rw [ended] at isConfirmed
      cases isConfirmed
  joined := consistent.joined
  undialed dials := by
    obtain same | ended := stopped_joining attempt machine
    · rw [same] at dials
      obtain ⟨unreached, willing⟩ := consistent.undialed dials
      refine ⟨?_, willing⟩
      obtain still | ended := stopped_serving attempt machine
      · rw [still]
        exact unreached
      · rw [ended]
        rfl
    · rw [ended] at dials
      cases dials
  undone before := by
    obtain same | ended := stopped_joining attempt machine
    · rw [same] at before
      obtain ⟨unheard, unpaired, unregistered⟩ := consistent.undone before
      refine ⟨unheard, ?_, unregistered⟩
      obtain still | ended := stopped_serving attempt machine
      · rw [still]
        exact unpaired
      · rw [ended]
        rfl
    · rw [ended] at before
      cases before
  refusal refused := by
    obtain ⟨unregistered, reason⟩ := consistent.refusal refused
    refine ⟨unregistered, ?_⟩
    obtain still | ended := stopped_serving attempt machine
    · rw [still]
      obtain ending | ⟨unheard, unpaired, givenUp⟩ := reason
      · exact Or.inl ending
      · refine Or.inr ⟨unheard, unpaired, ?_⟩
        obtain same | ended := stopped_joining attempt machine
        · rw [same]
          exact givenUp
        · rw [ended]
          rfl
    · rw [ended]
      exact Or.inl rfl
  rejects := consistent.rejects

end Attempt

/-- A state that names a machine names it by its record. -/
theorem peerName_congr (left right : MeshState Id) (id : Id)
    (same : left.record id = right.record id) : left.peerName id = right.peerName id := by
  unfold MeshState.record at same
  unfold MeshState.peerName
  rw [same]

namespace Machine

/-- The last state of the file is the one in memory. -/
def Current (machine : Machine Id Secret) : Prop := machine.saved.head? = some machine.state

/-- What the steps of an exchange leave of a machine: the last state of the file is the one
in memory, no state it held is forgotten, and a machine that is registered stays registered
as it is. -/
structure Goes (before after : Machine Id Secret) : Prop where
  current : before.Current → after.Current
  grows : ∀ state ∈ before.saved, state ∈ after.saved
  keeps : ∀ id, (before.state.peerName id).isSome = true →
    after.state.record id = before.state.record id

/-- Nothing happened to the machine. -/
theorem Goes.refl (machine : Machine Id Secret) : Goes machine machine :=
  ⟨id, fun _ member => member, fun _ _ => rfl⟩

/-- Only the mesh state and its file matter. -/
theorem goes_of_same {before after : Machine Id Secret} (state : after.state = before.state)
    (saved : after.saved = before.saved) : Goes before after where
  current held := by rw [Current, saved, held, state]
  grows state member := saved ▸ member
  keeps id _ := by rw [state]

/-- Registering a machine leaves those registered. -/
theorem addPaired_keeps (id other : Id) (name : String) (state next : MeshState Id)
    (added : state.addPaired id name = .ok next) (named : (state.peerName other).isSome = true) :
    next.record other = state.record other := by
  obtain rfl | ⟨unnamed, _, rfl⟩ := MeshState.addPaired_ok_cases id name state next added
  · rfl
  · refine MeshState.insert_record_of_ne id other _ state ?_
    rintro rfl
    rw [named] at unnamed
    cases unnamed

/-- A registration that succeeds registers. -/
theorem addPaired_names (id : Id) (name : String) (state next : MeshState Id)
    (added : state.addPaired id name = .ok next) : (next.peerName id).isSome = true := by
  unfold MeshState.addPaired at added
  cases known : (state.peerName id).isSome with
  | true =>
    rw [known, if_pos rfl] at added
    obtain rfl := Except.ok.inj added
    exact known
  | false =>
    rw [known, if_neg Bool.false_ne_true, MeshState.addPeer_ok_iff] at added
    obtain ⟨_, _, rfl⟩ := added
    rw [MeshState.peerName_isSome_iff]
    exact ⟨_, name, MeshState.insert_record_self id _ state⟩

/-- Registering a machine saves the mesh first, and leaves every machine that is there. -/
theorem addPaired_goes (saves : Bool) (id : Id) (name : String) (machine : Machine Id Secret) :
    Goes machine (machine.addPaired saves id name).2 := by
  obtain same | ⟨next, added, changed⟩ :=
    update_cases saves (MeshState.addPaired id name) machine
  · rw [addPaired, same]
    exact Goes.refl machine
  · rw [addPaired, changed]
    exact ⟨fun _ => rfl, fun _ member => List.mem_cons_of_mem _ member,
      fun other named => addPaired_keeps id other name machine.state next added named⟩

/-- What answers no error was written to the file, or had been. -/
theorem addPaired_registers (saves : Bool) (id : Id) (name : String) (machine : Machine Id Secret)
    (added : (machine.addPaired saves id name).1 = true) :
    ((machine.addPaired saves id name).2.state.peerName id).isSome = true := by
  unfold addPaired update at added ⊢
  cases made : machine.state.addPaired id name with
  | error failure => simp [made] at added
  | ok next =>
    have named := addPaired_names id name machine.state next made
    simp only [made] at added ⊢
    split
    · rename_i same
      rwa [← same]
    · cases saves with
      | true => exact named
      | false => simp_all

/-- Any change that is committed was saved. -/
theorem update_current (saves : Bool)
    (mutate : MeshState Id → Except MeshFailure (MeshState Id)) (machine : Machine Id Secret)
    (current : machine.Current) :
    (machine.update saves mutate).2.Current ∧
      ∀ state ∈ machine.saved, state ∈ (machine.update saves mutate).2.saved := by
  obtain same | ⟨next, _, changed⟩ := update_cases saves mutate machine
  · rw [same]
    exact ⟨current, fun _ member => member⟩
  · rw [changed]
    exact ⟨rfl, fun _ member => List.mem_cons_of_mem _ member⟩

/-- A new process finds in the file what the last one had. -/
theorem restart_goes (machine : Machine Id Secret)
    (current : machine.Current) : Goes machine machine.restart := by
  refine goes_of_same ?_ rfl
  change machine.saved.headD machine.state = machine.state
  rw [List.headD_eq_head?_getD, (current : machine.saved.head? = some machine.state)]
  rfl

/-- Looking for the ticket may drop it, and leaves the mesh. -/
theorem outstanding_goes (now : Instant) (machine : Machine Id Secret) :
    Goes machine (machine.outstanding now) := by
  obtain same | dropped := machine.outstanding_cases now
  · rw [same]
    exact Goes.refl machine
  · rw [dropped]
    exact goes_of_same rfl rfl

end Machine

namespace Attempt
variable {attempt next : Attempt Id Secret} {machine after : Machine Id Secret}

/-- The host's steps leave of its machine what they may. -/
theorem serves_goes [DecidableEq Secret] {busy : Bool} {move : ServeMove}
    (serves : attempt.Serves busy machine move next after) : Machine.Goes machine after := by
  cases serves with
  | unticketed now => exact Machine.outstanding_goes now machine
  | ticketed now => exact Machine.outstanding_goes now machine
  | failed now saves ticket name held atPhase isOut same live _ added
  | redeemed now saves ticket name held atPhase isOut same live _ added =>
    have goes := Machine.addPaired_goes saves attempt.joiner name ({ machine with
      issued := none
      ledger := .redeemed held.number attempt.presented now :: machine.ledger } :
        Machine Id Secret)
    rw [added] at goes
    exact ⟨goes.current, goes.grows, goes.keeps⟩
  | _ => exact Machine.Goes.refl machine

/-- And so do the joiner's of its own. -/
theorem joins_goes {move : JoinMove} (joins : attempt.Joins machine move next after) :
    Machine.Goes machine after := by
  cases joins with
  | registered saves name atPhase => exact Machine.addPaired_goes saves attempt.host name machine
  | _ => exact Machine.Goes.refl machine

/-- An exchange never changes who is in it. -/
theorem serves_parties [DecidableEq Secret] {busy : Bool} {move : ServeMove}
    (serves : attempt.Serves busy machine move next after) :
    next.joiner = attempt.joiner ∧ next.host = attempt.host ∧ next.joined = attempt.joined := by
  cases serves <;> exact ⟨rfl, rfl, rfl⟩

/-- The joiner's side leaves the two machines and what the host registered. -/
theorem joins_parties {move : JoinMove} (joins : attempt.Joins machine move next after) :
    next.joiner = attempt.joiner ∧ next.host = attempt.host ∧
      next.registered = attempt.registered := by
  cases joins <;> exact ⟨rfl, rfl, rfl⟩

/-- The host registers the joiner only with a state that is in its file and names it. Only the end
of an exchange registers, and the state it registers with is the one that was just saved. -/
theorem serves_registered [DecidableEq Secret] {busy : Bool} {move : ServeMove}
    (serves : attempt.Serves busy machine move next after)
    (current : after.Current) (state : MeshState Id)
    (registered : next.registered = some state) :
    attempt.registered = some state ∨
      state ∈ after.saved ∧ (state.peerName attempt.joiner).isSome = true := by
  cases serves with
  | redeemed now saves ticket name held atPhase isOut same live _ added =>
    obtain rfl := Option.some.inj registered
    have names := Machine.addPaired_registers saves attempt.joiner name ({ machine with
      issued := none
      ledger := .redeemed held.number attempt.presented now :: machine.ledger } :
        Machine Id Secret) (by rw [added])
    rw [added] at names
    exact Or.inr ⟨List.mem_of_mem_head? current, names⟩
  | _ => exact Or.inl registered

/-- What the joiner answers with is the mesh it has and saved, with the host in it. -/
theorem joins_joined {move : JoinMove} (joins : attempt.Joins machine move next after)
    (current : after.Current) (state : MeshState Id)
    (joined : next.joined = some state) :
    attempt.joined = some state ∨
      state = after.state ∧ state ∈ after.saved ∧ (state.peerName attempt.host).isSome = true := by
  cases joins with
  | registered saves name atPhase =>
    simp only [Option.ite_none_right_eq_some, Option.some.injEq] at joined
    obtain ⟨added, rfl⟩ := joined
    exact Or.inr ⟨rfl, List.mem_of_mem_head? current,
      Machine.addPaired_registers saves attempt.host name machine added⟩
  | _ => exact Or.inl joined

end Attempt

namespace Attempt

/-- Whoever registered the other did so with a state that is in its file and names it. -/
structure Backed (machines : Id → Machine Id Secret) (attempt : Attempt Id Secret) : Prop where
  registered : ∀ state, attempt.registered = some state →
    state ∈ (machines attempt.host).saved ∧ (state.peerName attempt.joiner).isSome = true
  joined : ∀ state, attempt.joined = some state →
    state ∈ (machines attempt.joiner).saved ∧ (state.peerName attempt.host).isSome = true

/-- What was saved stays saved. -/
theorem Backed.mono {before after : Id → Machine Id Secret} {attempt : Attempt Id Secret}
    (backed : attempt.Backed before)
    (grows : ∀ id, ∀ state ∈ (before id).saved, state ∈ (after id).saved) :
    attempt.Backed after where
  registered state isState :=
    ⟨grows _ state (backed.registered state isState).1, (backed.registered state isState).2⟩
  joined state isState :=
    ⟨grows _ state (backed.joined state isState).1, (backed.joined state isState).2⟩

end Attempt

namespace Pairings

/-- What every reachable mesh keeps: files that are current, and exchanges whose sides know
of each other what they should. -/
structure Agreed (pairings : Pairings Id Secret) : Prop where
  current : ∀ id, (pairings.machines id).Current
  consistent : ∀ attempt ∈ pairings.attempts, attempt.Consistent
  backed : ∀ attempt ∈ pairings.attempts, attempt.Backed pairings.machines

/-- A change of one machine that forgets no state forgets none anywhere. -/
theorem grows_on (pairings : Pairings Id Secret) (machine : Id) (next : Machine Id Secret)
    (grows : ∀ state ∈ (pairings.machines machine).saved, state ∈ next.saved) (id : Id) :
    ∀ state ∈ (pairings.machines id).saved, state ∈ ((pairings.on machine next).machines id).saved := by
  by_cases same : id = machine
  · subst same
    simpa [on] using grows
  · simp [on, Function.update_of_ne same]

section Step
variable [EndpointText Id] [DecidableEq Secret]

/-- Every step keeps the agreement. A change of another kind touches the machines and not the
exchanges, a move of an exchange touches one side of it, and a restart ends the sides of its
machine: each case keeps the three parts of the agreement on its own. -/
theorem step_agreed (pairings next : Pairings Id Secret) (label : PairingLabel Id Secret)
    (agreed : pairings.Agreed) (taken : pairings.step label = some next) : next.Agreed := by
  obtain ⟨current, consistent, backed⟩ := agreed
  cases step_took pairings next label taken with
  | changed machine saves change =>
    obtain ⟨held, grows⟩ := Machine.update_current saves (change.mutate machine) _ (current machine)
    exact ⟨pairings.forall_on machine _ current held, consistent,
      fun attempt member => (backed attempt member).mono (pairings.grows_on machine _ grows)⟩
  | restarted machine =>
    have goes := Machine.restart_goes _ (current machine)
    refine ⟨pairings.forall_on machine _ current (goes.current (current machine)), ?_, ?_⟩
    · intro attempt member
      obtain ⟨before, listed, rfl⟩ := List.mem_map.mp member
      exact Attempt.stopped_consistent machine (consistent before listed)
    · intro attempt member
      obtain ⟨before, listed, rfl⟩ := List.mem_map.mp member
      have held := (backed before listed).mono (pairings.grows_on machine _ goes.grows)
      exact ⟨held.registered, held.joined⟩
  | hosted machine localName =>
    exact ⟨pairings.forall_on machine _ current (current machine), consistent,
      fun attempt member => (backed attempt member).mono
        (pairings.grows_on machine _ (fun _ member => member))⟩
  | issued machine call secret now localName =>
    exact ⟨pairings.forall_on machine _ current (current machine), consistent,
      fun attempt member => (backed attempt member).mono
        (pairings.grows_on machine _ (fun _ member => member))⟩
  | unissued machine call =>
    exact ⟨pairings.forall_on machine _ current (current machine), consistent,
      fun attempt member => (backed attempt member).mono
        (pairings.grows_on machine _ (fun _ member => member))⟩
  | dialed joiner ticket localName other =>
    refine ⟨current, pairings.forall_append _ consistent ?_, pairings.forall_append _ backed ?_⟩
    · exact Attempt.opened_consistent _ _ _ _ rfl (fun _ impossible => nomatch impossible)
        (fun _ => rfl) rfl
    · exact ⟨fun _ impossible => (nomatch impossible), fun _ impossible => (nomatch impossible)⟩
  | met joiner host =>
    refine ⟨current, pairings.forall_append _ consistent ?_, pairings.forall_append _ backed ?_⟩
    · exact Attempt.opened_consistent _ _ _ _ rfl (fun _ impossible => nomatch impossible)
        (fun impossible => nomatch impossible) rfl
    · exact ⟨fun _ impossible => (nomatch impossible), fun _ impossible => (nomatch impossible)⟩
  | said index message attempt listed isStranger =>
    have member := List.mem_of_getElem? listed
    have held := backed attempt member
    exact ⟨current,
      pairings.forall_set index _ consistent
        (Attempt.said_consistent message isStranger (consistent attempt member)),
      pairings.forall_set index _ backed ⟨held.registered, held.joined⟩⟩
  | joined index move attempt after machine listed joins =>
    have member := List.mem_of_getElem? listed
    have goes := Attempt.joins_goes joins
    have held := goes.current (current attempt.joiner)
    have grows := pairings.grows_on attempt.joiner machine goes.grows
    refine ⟨pairings.forall_on attempt.joiner machine current held,
      pairings.forall_set index after consistent
        (Attempt.joins_consistent joins (consistent attempt member)),
      pairings.forall_set index after (fun other listed => (backed other listed).mono grows) ?_⟩
    have kept := (backed attempt member).mono grows
    obtain ⟨joiner, host, registered⟩ := Attempt.joins_parties joins
    refine ⟨?_, ?_⟩
    · rw [joiner, host, registered]
      exact kept.registered
    · rw [joiner, host]
      intro state joined
      obtain before | ⟨_, saved, named⟩ := Attempt.joins_joined joins held state joined
      · exact kept.joined state before
      · exact ⟨by simpa [on] using saved, named⟩
  | served index move attempt after machine listed serves =>
    have member := List.mem_of_getElem? listed
    have goes := Attempt.serves_goes serves
    have held := goes.current (current attempt.host)
    have grows := pairings.grows_on attempt.host machine goes.grows
    refine ⟨pairings.forall_on attempt.host machine current held,
      pairings.forall_set index after consistent
        (Attempt.serves_consistent serves (consistent attempt member)),
      pairings.forall_set index after (fun other listed => (backed other listed).mono grows) ?_⟩
    have kept := (backed attempt member).mono grows
    obtain ⟨joiner, host, joined⟩ := Attempt.serves_parties serves
    refine ⟨?_, ?_⟩
    · rw [joiner, host]
      intro state registered
      obtain before | ⟨saved, named⟩ := Attempt.serves_registered serves held state registered
      · exact kept.registered state before
      · exact ⟨by simpa [on] using saved, named⟩
    · rw [joiner, host, joined]
      exact kept.joined

omit [EndpointText Id] [DecidableEq Secret] in
/-- Nobody exchanges anything yet. -/
theorem start_agreed (loaded : Id → MeshState Id) :
    (start loaded : Pairings Id Secret).Agreed where
  current id := rfl
  consistent := by simp [start]
  backed := by simp [start]

/-- Every run keeps both sides of all exchanges agreed. -/
theorem run_agreed (loaded : Id → MeshState Id) (labels : List (PairingLabel Id Secret))
    (pairings : Pairings Id Secret) (reached : Runs.run step (start loaded) labels = some pairings) :
    pairings.Agreed :=
  Runs.run_invariant step Agreed
    (fun state label next agreed taken => step_agreed state next label agreed taken) _ _ _
    (start_agreed loaded) reached

omit [EndpointText Id] [DecidableEq Secret] in
/-- Where one machine goes on, all do, the others by standing still. -/
theorem goes_on (pairings : Pairings Id Secret) (machine : Id) (next : Machine Id Secret)
    (goes : (pairings.machines machine).Goes next) (id : Id) :
    (pairings.machines id).Goes ((pairings.on machine next).machines id) := by
  by_cases same : id = machine
  · subst same
    simpa [on] using goes
  · simpa [on, Function.update_of_ne same] using Machine.Goes.refl (pairings.machines id)

/-- Whatever is not a change for another reason leaves the machines that are registered. The
machine that a label touches is changed as one of the lemmas about machines says, and the others
are not touched. -/
theorem step_goes (pairings next : Pairings Id Secret) (label : PairingLabel Id Secret)
    (agreed : pairings.Agreed) (taken : pairings.step label = some next)
    (inside : ∀ machine saves change, label ≠ .change machine saves change) (id : Id) :
    (pairings.machines id).Goes (next.machines id) := by
  cases step_took pairings next label taken with
  | changed machine saves change => exact absurd rfl (inside machine saves change)
  | restarted machine =>
    exact goes_on pairings machine _ (Machine.restart_goes _ (agreed.current machine)) id
  | hosted machine localName =>
    refine goes_on pairings machine _ ?_ id
    exact Machine.goes_of_same rfl rfl
  | issued machine call secret now localName =>
    refine goes_on pairings machine _ ?_ id
    exact Machine.goes_of_same rfl rfl
  | unissued machine call =>
    refine goes_on pairings machine _ ?_ id
    exact Machine.goes_of_same rfl rfl
  | joined index move attempt after machine listed joins =>
    exact goes_on pairings attempt.joiner machine (Attempt.joins_goes joins) id
  | served index move attempt after machine listed serves =>
    exact goes_on pairings attempt.host machine (Attempt.serves_goes serves) id
  | _ => exact Machine.Goes.refl (pairings.machines id)

omit [LinearOrder Id] [EndpointText Id] [DecidableEq Secret] in
/-- An entry of a list with one more at its end is an old one or the new one. -/
theorem appended_cases {Entry : Type} (entries : List Entry) (last found : Entry) (index : Nat)
    (listed : (entries ++ [last])[index]? = some found) :
    entries[index]? = some found ∨ found = last := by
  rw [List.getElem?_append] at listed
  split at listed
  · exact Or.inl listed
  · exact Or.inr (List.mem_singleton.mp (List.mem_of_getElem? listed))

omit [LinearOrder Id] [EndpointText Id] [DecidableEq Secret] in
/-- An entry of a list with one set is an old one or the one set. -/
theorem set_cases {Entry : Type} (entries : List Entry) (next found : Entry) (set index : Nat)
    (listed : (entries.set set next)[index]? = some found) :
    entries[index]? = some found ∨ set = index ∧ found = next := by
  by_cases same : set = index
  · subst same
    have inside : set < entries.length := by
      simpa using (List.getElem?_eq_some_iff.mp listed).1
    rw [List.getElem?_set_self inside, Option.some.injEq] at listed
    exact Or.inr ⟨rfl, listed.symm⟩
  · rw [List.getElem?_set_ne same] at listed
    exact Or.inl listed

/-- A joiner that registered the host did so before, or names it now. Only the joiner's own move
can register it, and then the record it just wrote names the host. -/
theorem step_joined (pairings next : Pairings Id Secret) (label : PairingLabel Id Secret)
    (agreed : pairings.Agreed) (taken : pairings.step label = some next) (index : Nat)
    (after : Attempt Id Secret) (listed : next.attempts[index]? = some after)
    (joined : after.joined.isSome = true) :
    (∃ attempt, pairings.attempts[index]? = some attempt ∧ attempt.host = after.host ∧
        attempt.joiner = after.joiner ∧ attempt.joined.isSome = true) ∨
      ((next.machines after.joiner).state.peerName after.host).isSome = true := by
  have current := (step_agreed pairings next label agreed taken).current
  cases step_took pairings next label taken with
  | restarted machine =>
    left
    obtain ⟨attempt, before, rfl⟩ := Option.map_eq_some_iff.mp (List.getElem?_map.symm.trans listed)
    exact ⟨attempt, before, rfl, rfl, joined⟩
  | dialed joiner ticket localName other | met joiner host =>
    left
    obtain before | rfl := appended_cases _ _ _ index listed
    · exact ⟨after, before, rfl, rfl, joined⟩
    · cases joined
  | said told message attempt before isStranger =>
    left
    obtain kept | ⟨rfl, rfl⟩ := set_cases _ _ _ told index listed
    · exact ⟨after, kept, rfl, rfl, joined⟩
    · exact ⟨attempt, before, rfl, rfl, joined⟩
  | joined told move attempt stepped machine before joins =>
    obtain kept | ⟨rfl, rfl⟩ := set_cases _ _ _ told index listed
    · exact Or.inl ⟨after, kept, rfl, rfl, joined⟩
    · obtain ⟨joiner, host, _⟩ := Attempt.joins_parties joins
      obtain ⟨state, isState⟩ := Option.isSome_iff_exists.mp joined
      have held : machine.Current := by simpa [on] using current attempt.joiner
      obtain already | ⟨rfl, _, named⟩ := Attempt.joins_joined joins held state isState
      · exact Or.inl ⟨attempt, before, host.symm, joiner.symm, by simp [already]⟩
      · right
        simpa [on, joiner, host] using named
  | served told move attempt stepped machine before serves =>
    left
    obtain kept | ⟨rfl, rfl⟩ := set_cases _ _ _ told index listed
    · exact ⟨after, kept, rfl, rfl, joined⟩
    · obtain ⟨joiner, host, unmoved⟩ := Attempt.serves_parties serves
      exact ⟨attempt, before, host.symm, joiner.symm, unmoved ▸ joined⟩
  | _ => exact Or.inl ⟨after, listed, rfl, rfl, joined⟩

/-- A change for another reason leaves the record the host has of the joiner, and does not
take away the one the joiner has of the host. -/
def LeavesAlone (host joiner : Id) (pairings : Pairings Id Secret) :
    PairingLabel Id Secret → Prop
  | .change machine saves change =>
      let before := pairings.machines machine
      let after := (before.update saves (change.mutate machine)).2
      (machine = host → after.state.record joiner = before.state.record joiner) ∧
        (machine = joiner → (before.state.peerName host).isSome = true →
          (after.state.peerName host).isSome = true)
  | _ => True

/-- A pairing that is being repaired: the host has the joiner registered, as it did before,
and the joiner has the host registered once an exchange that began since completed. -/
structure Repairing (host joiner : Id) (record : WithBot Peer) (begun : Nat)
    (pairings : Pairings Id Secret) : Prop where
  agreed : pairings.Agreed
  record : (pairings.machines host).state.record joiner = record
  named : ((pairings.machines host).state.peerName joiner).isSome = true
  joined : ∀ index attempt, begun ≤ index → pairings.attempts[index]? = some attempt →
    attempt.host = host → attempt.joiner = joiner → attempt.joined.isSome = true →
    ((pairings.machines joiner).state.peerName host).isSome = true

/-- A step that leaves the two records alone keeps the host's where it names the joiner, and
leaves the host named by the joiner. -/
theorem step_keeps (host joiner : Id) (pairings next : Pairings Id Secret)
    (label : PairingLabel Id Secret) (agreed : pairings.Agreed)
    (leaves : LeavesAlone host joiner pairings label) (taken : pairings.step label = some next) :
    (((pairings.machines host).state.peerName joiner).isSome = true →
      (next.machines host).state.record joiner = (pairings.machines host).state.record joiner) ∧
    (((pairings.machines joiner).state.peerName host).isSome = true →
      ((next.machines joiner).state.peerName host).isSome = true) := by
  by_cases outside : ∃ machine saves change, label = .change machine saves change
  · obtain ⟨machine, saves, change, rfl⟩ := outside
    obtain rfl := Option.some.inj taken
    obtain ⟨hostSame, joinerNames⟩ := leaves
    refine ⟨fun _ => ?_, fun named => ?_⟩
    · by_cases same : host = machine
      · subst same
        simpa [on] using hostSame rfl
      · simp [on, Function.update_of_ne same]
    · by_cases same : joiner = machine
      · subst same
        simpa [on] using joinerNames rfl named
      · simpa [on, Function.update_of_ne same] using named
  · have goes := step_goes pairings next label agreed taken
      (fun machine saves change same => outside ⟨machine, saves, change, same⟩)
    refine ⟨(goes host).keeps joiner, fun named => ?_⟩
    rwa [peerName_congr _ _ host ((goes joiner).keeps host named)]

/-- Nothing but a change for another reason interferes with a repair. The step keeps the agreement
and both records, and an exchange that began since is not one from before. -/
theorem step_repairing (host joiner : Id) (record : WithBot Peer) (begun : Nat)
    (pairings next : Pairings Id Secret) (label : PairingLabel Id Secret)
    (repairing : Repairing host joiner record begun pairings)
    (leaves : LeavesAlone host joiner pairings label) (taken : pairings.step label = some next) :
    Repairing host joiner record begun next := by
  have agreed := step_agreed pairings next label repairing.agreed taken
  obtain ⟨hostSame, joinerKeeps⟩ :=
    step_keeps host joiner pairings next label repairing.agreed leaves taken
  have hostKeeps := hostSame repairing.named
  refine ⟨agreed, hostKeeps.trans repairing.record, ?_, ?_⟩
  · rw [peerName_congr _ _ joiner hostKeeps]
    exact repairing.named
  · intro index attempt since listed isHost isJoiner joined
    obtain ⟨before, was, sameHost, sameJoiner, already⟩ | named :=
      step_joined pairings next label repairing.agreed taken index attempt listed joined
    · exact joinerKeeps (repairing.joined index before since was (sameHost.trans isHost)
        (sameJoiner.trans isJoiner) already)
    · rw [isHost, isJoiner] at named
      exact named

/-- The two machines agree on a pairing, in every run and at every point of it. A joiner
that registers the host does so after the host saved a state that registers it. Where one
side refused the other during the exchange, neither registers the other from it. And where
the host has the joiner registered, every exchange that completes later leaves the joiner
with the host registered, and the host with the record it had, unless a change for another
reason touches the host's record or takes away the joiner's. -/
theorem pairing_agrees (loaded : Id → MeshState Id) (labels : List (PairingLabel Id Secret))
    (pairings : Pairings Id Secret) (reached : Runs.run step (start loaded) labels = some pairings) :
    (∀ index saves next attempt after, pairings.step (.joins index (.register saves)) = some next →
      pairings.attempts[index]? = some attempt → next.attempts[index]? = some after →
      after.joined.isSome = true →
      ∃ state, attempt.registered = some state ∧
        state ∈ (pairings.machines attempt.host).saved ∧
        (state.peerName attempt.joiner).isSome = true) ∧
    (∀ attempt ∈ pairings.attempts, attempt.refused = true →
      attempt.registered = none ∧ attempt.joined = none) ∧
    ∀ host joiner, ((pairings.machines host).state.peerName joiner).isSome = true →
      ∀ later after index attempt, Runs.run step pairings later = some after →
        Runs.Guarded step (LeavesAlone host joiner) pairings later →
        pairings.attempts.length ≤ index → after.attempts[index]? = some attempt →
        attempt.host = host → attempt.joiner = joiner → attempt.joined.isSome = true →
        (after.machines host).state.record joiner = (pairings.machines host).state.record joiner ∧
          ((after.machines joiner).state.peerName host).isSome = true := by
  have agreed := run_agreed loaded labels pairings reached
  refine ⟨?_, ?_, ?_⟩
  · intro index saves next attempt after taken listed left joined
    cases step_took pairings next _ taken with
    | joined _ _ other stepped machine before joins =>
      obtain rfl : attempt = other := Option.some.inj (listed.symm.trans before)
      have member := List.mem_of_getElem? listed
      have inside : index < pairings.attempts.length := (List.getElem?_eq_some_iff.mp listed).1
      simp only [List.getElem?_set_self inside, Option.some.injEq] at left
      subst left
      have registered : attempt.registered.isSome = true := by
        rw [← (Attempt.joins_parties joins).2.2]
        exact (Attempt.joins_consistent joins (agreed.consistent attempt member)).joined joined
      obtain ⟨state, isState⟩ := Option.isSome_iff_exists.mp registered
      exact ⟨state, isState, (agreed.backed attempt member).registered state isState⟩
  · intro attempt member refused
    have consistent := agreed.consistent attempt member
    have unregistered := (consistent.refusal refused).1
    refine ⟨unregistered, Option.not_isSome_iff_eq_none.mp ?_⟩
    intro joined
    have registered := consistent.joined joined
    rw [unregistered] at registered
    cases registered
  · intro host joiner named later after index attempt ran leaves since listed isHost isJoiner joined
    have repairing := Runs.guarded_invariant step (LeavesAlone host joiner)
      (Repairing host joiner ((pairings.machines host).state.record joiner)
        pairings.attempts.length)
      (fun state label next held leaves taken =>
        step_repairing host joiner _ _ state next label held leaves taken)
      pairings after later ⟨agreed, rfl, named, ?_⟩ leaves ran
    · exact ⟨repairing.record,
        repairing.joined index attempt since listed isHost isJoiner joined⟩
    · intro index attempt since listed
      have inside := (List.getElem?_eq_some_iff.mp listed).1
      omega

end Step

/-- One exchange in full, the joiner's last step apart. -/
def exchanged (index : Nat) (secret : Nat) : List (PairingLabel Nat Nat) :=
  [.host 0 "desk", .online 0 0 secret 100, .join 1 { addr := 0, secret } "lap",
    .joins index .connect, .serves index (.accept 200), .serves index .snapshot,
    .joins index .greet, .serves index .read, .serves index .welcome, .joins index .read,
    .joins index .agree, .serves index .read, .serves index (.redeem 300 true),
    .serves index .confirm]

/-- The joiner loses the connection after the host registered it, and pairs again. The host
registers it anew without changing its record, and both know each other in the end. -/
theorem pairing_agrees_again :
    ∃ cut repaired, Runs.run step (start (fun _ => .empty)) (exchanged 0 7 ++ [.joins 0 .fail]) =
        some cut ∧
      ((cut.machines 0).state.peerName 1).isSome = true ∧
      (cut.machines 1).state.peerName 0 = none ∧
      Runs.run step cut (exchanged 1 8 ++ [.joins 1 .close, .joins 1 (.register true)]) =
        some repaired ∧
      (repaired.machines 0).state.record 1 = (cut.machines 0).state.record 1 ∧
      ((repaired.machines 1).state.peerName 0).isSome = true := by
  have observed :
      (Runs.run step (start (fun _ => .empty)) (exchanged 0 7 ++ [.joins 0 .fail])).any
        (fun cut => decide (((cut.machines 0).state.peerName 1).isSome = true) &&
          decide ((cut.machines 1).state.peerName 0 = none) &&
          decide (cut.attempts.length = 1) &&
          (Runs.run step cut (exchanged 1 8 ++ [.joins 1 .close, .joins 1 (.register true)])).any
            (fun repaired => repaired.attempts[1]?.any (fun attempt =>
              decide (attempt.host = 0) && decide (attempt.joiner = 1) &&
                attempt.joined.isSome))) = true := by
    decide
  obtain ⟨cut, reached, holds⟩ := (Option.any_eq_true _ _).mp observed
  simp only [Bool.and_eq_true, decide_eq_true_eq] at holds
  obtain ⟨⟨⟨named, unknown⟩, one⟩, again⟩ := holds
  obtain ⟨repaired, ran, holds⟩ := (Option.any_eq_true _ _).mp again
  obtain ⟨attempt, listed, parties⟩ := (Option.any_eq_true _ _).mp holds
  simp only [Bool.and_eq_true, decide_eq_true_eq] at parties
  obtain ⟨⟨isHost, isJoiner⟩, joined⟩ := parties
  have leaves : Runs.Guarded step (LeavesAlone 0 1) cut
      (exchanged 1 8 ++ [.joins 1 .close, .joins 1 (.register true)]) := by
    refine Runs.guarded_of_invariant step (LeavesAlone 0 1) (fun _ => True)
      (fun label => ∀ machine saves change, label ≠ .change machine saves change)
      (fun _ _ _ _ _ _ => trivial) ?_ cut _ trivial (by simp [exchanged])
    intro state label _ inside
    cases label with
    | change machine saves change => exact absurd rfl (inside machine saves change)
    | _ => trivial
  obtain ⟨_, _, repairs⟩ := pairing_agrees (fun _ => .empty) _ cut reached
  exact ⟨cut, repaired, reached, named, unknown, ran,
    repairs 0 1 named _ repaired 1 attempt ran leaves one.le listed isHost isJoiner joined⟩

/-- A mesh with room for one machine more. -/
def crowded : MeshState Nat where
  peers := (List.range 63).foldl (fun peers id =>
    peers.insert (id + 10) { version := 1, status := .alive "one" }) ∅

/-- The joiner learns of another machine while it waits for the host to confirm, and then
has no room for the host that registered it. -/
theorem refused_joiner_stays_registered :
    (Runs.run step (start (fun id => if id = 1 then crowded else .empty)) (exchanged 0 7 ++
        [.change 1 true (.pair 9 "else"), .joins 0 .close, .joins 0 (.register true)])).any
      (fun pairings =>
        decide ((pairings.machines 1).state.validateNewPeer "desk" 0 = .error .meshFull) &&
        decide (((pairings.machines 0).state.peerName 1).isSome = true) &&
        pairings.attempts[0]?.any (fun attempt =>
          attempt.registered.isSome && decide (attempt.joined = none))) = true := by
  decide +kernel

end Pairings

end Yank
