import Yank.Removal
import Yank.Store

/-!
# Pairing

How machines join the mesh. The user carries a ticket with a one-time secret from one
machine to another, which dials the first and goes through a short exchange with it: a
hello with the secret, a welcome, a done, and a close that says it is paired.

Any number of machines pair with each other here, each a host and a joiner at once, and
anyone else may connect to the pairing protocol and say anything. Every point where the
source awaits is a step of its own, and each side takes its steps as it likes: a message or
a close that never comes is a step that is never taken, and a read, a write or a wait may
fail at any time. Only two things are asked of the transport: both sides know whom they are
talking to, and a side reads nothing and sees no close reason that the other did not send.
-/

namespace Yank

/-- A moment on the monotonic clock of a machine, in nanoseconds. -/
abbrev Instant := Nat

/-- How long a ticket can be redeemed. -/
def pairTicketTtl : Instant := 3 * 60 * 1000000000

/-- How many inbound exchanges a machine runs at a time. -/
def maxExchanges : Nat := 4

/-- Close reason that confirms a pairing to the joiner. -/
def pairedReason : String := "paired"

/-- What the host prints and the joiner redeems. -/
structure PairTicket (Id Secret : Type) where
  addr : Id
  secret : Secret
deriving DecidableEq

/-- A ticket handed to the user, redeemable until it is revoked or expires. -/
structure IssuedTicket (Id Secret : Type) where
  ticket : PairTicket Id Secret
  expires : Instant
  /-- The name this machine announces to whoever redeems it. -/
  localName : String
  /-- Which of the machine's tickets it is. No step looks at it but the ledger's. -/
  number : Nat
deriving DecidableEq

/-- What happened to the tickets of a machine. -/
inductive TicketEvent (Secret : Type) where
  /-- `host` was called. -/
  | revoked
  | issued (number : Nat) (secret : Secret) (expires : Instant)
  /-- `add_paired` was called for an exchange that presented a secret. -/
  | redeemed (number : Nat) (presented : Option Secret) (now : Instant)
deriving DecidableEq

/-- A message of the exchange. -/
inductive Message (Secret : Type) where
  | hello (secret : Secret) (name : String)
  | welcome (name : String)
  | done
  | reject (reason : String)
deriving DecidableEq

/-- One machine of those that pair. -/
structure Machine (Id Secret : Type) [LinearOrder Id] where
  state : MeshState Id
  /-- Every mesh state the file held, the last one first. -/
  saved : List (MeshState Id)
  issued : Option (IssuedTicket Id Secret)
  /-- The calls of `host` that wait for a relay, by the name they will announce. -/
  hosting : List String
  /-- How many tickets were issued. -/
  tickets : Nat
  /-- What happened to the tickets, the last event first. -/
  ledger : List (TicketEvent Secret)

/-- What the host is at in one exchange. -/
inductive Serving (Id Secret : Type) [LinearOrder Id] where
  | unreached
  | arrived
  | refusing
  | ticketed (ticket : PairTicket Id Secret) (localName : String)
  | opening (ticket : PairTicket Id Secret) (localName : String) (state : MeshState Id)
  | welcoming (ticket : PairTicket Id Secret) (localName : String) (name : String)
  | confirming (ticket : PairTicket Id Secret) (name : String)
  | paired (ticket : PairTicket Id Secret) (name : String)
  | saved
  | rejecting
  | over

/-- What the joiner is at in one exchange. A stranger is not a machine of ours and says
what it wants. -/
inductive Joining (Id Secret : Type) [LinearOrder Id] where
  | stranger
  | dialing (ticket : PairTicket Id Secret) (localName : String) (state : MeshState Id)
  | connected (ticket : PairTicket Id Secret) (localName : String) (state : MeshState Id)
  | greeted (state : MeshState Id)
  | agreeing (name : String)
  | waiting (name : String)
  | confirmed (name : String)
  | refusing
  | over

/-- One exchange between two machines, with its connection. -/
structure Attempt (Id Secret : Type) [LinearOrder Id] where
  joiner : Id
  host : Id
  joining : Joining Id Secret
  serving : Serving Id Secret
  /-- Messages the host has not read yet. -/
  toHost : List (Message Secret)
  /-- Messages the joiner has not read yet. -/
  toJoiner : List (Message Secret)
  /-- The reason the host closed with; empty when it dropped the connection. -/
  closed : Option String
  /-- The secret the host read. -/
  presented : Option Secret
  /-- The state the host was in once it registered the joiner. -/
  registered : Option (MeshState Id)
  /-- The state the joiner was in once it registered the host. -/
  joined : Option (MeshState Id)
  /-- Whether one side refused the other during the exchange. -/
  refused : Bool

/-- The machines and the exchanges between them. -/
structure Pairings (Id Secret : Type) [LinearOrder Id] where
  machines : Id → Machine Id Secret
  attempts : List (Attempt Id Secret)

/-- The host's side of an exchange. -/
inductive ServeMove where
  | accept (now : Instant)
  | refuse
  | snapshot
  | read
  /-- What was read is no message, or the hello could not be read. -/
  | garbled
  | welcome
  /-- The connection failed before it was closed. -/
  | lost
  | timeout
  | redeem (now : Instant) (saves : Bool)
  | confirm
  /-- A refusal was read, or waited for long enough. -/
  | linger
deriving DecidableEq

/-- The joiner's side of an exchange. -/
inductive JoinMove where
  | connect
  | greet
  | read
  | agree
  | close
  | register (saves : Bool)
  /-- The connection failed, or the time was up. -/
  | fail
deriving DecidableEq

/-- What can happen next. -/
inductive PairingLabel (Id Secret : Type) [LinearOrder Id] where
  /-- The mesh state of a machine changes for another reason. -/
  | change (machine : Id) (saves : Bool) (change : Change Id)
  | restart (machine : Id)
  /-- `host` is called. -/
  | host (machine : Id) (localName : String)
  /-- A call of `host` issues its ticket. -/
  | online (machine : Id) (call : Nat) (secret : Secret) (now : Instant)
  /-- A call of `host` reaches no relay. -/
  | offline (machine : Id) (call : Nat)
  | join (joiner : Id) (ticket : PairTicket Id Secret) (localName : String)
  | stranger (joiner host : Id)
  | tells (index : Nat) (message : Message Secret)
  | joins (index : Nat) (move : JoinMove)
  | serves (index : Nat) (move : ServeMove)

/-- Decides the name to register for a machine that announced itself. One we already know
keeps the name we have for it. -/
def resolvePeerName {Id : Type} [LinearOrder Id] (state : MeshState Id) (announced : String)
    (id : Id) : Except MeshFailure String :=
  match state.peerName id with
  | some existing => .ok existing
  | none => (state.validateNewPeer announced id).map (fun _ => announced)

variable {Id Secret : Type} [LinearOrder Id]

namespace Machine

/-- `MeshStore::update`, and whether it answers no error. -/
def update (saves : Bool) (mutate : MeshState Id → Except MeshFailure (MeshState Id))
    (machine : Machine Id Secret) : Bool × Machine Id Secret :=
  match mutate machine.state with
  | .error _ => (false, machine)
  | .ok next =>
      if next = machine.state then (true, machine)
      else if saves then (true, { machine with state := next, saved := next :: machine.saved })
      else (false, machine)

/-- `MeshStore::add_paired`. -/
def addPaired (saves : Bool) (id : Id) (name : String) (machine : Machine Id Secret) :
    Bool × Machine Id Secret :=
  machine.update saves (MeshState.addPaired id name)

/-- `host` before its wait: the outstanding ticket is revoked. -/
def host (localName : String) (machine : Machine Id Secret) : Machine Id Secret :=
  { machine with
    issued := none
    hosting := machine.hosting ++ [localName]
    ledger := .revoked :: machine.ledger }

/-- `host` after its wait: a fresh ticket is outstanding. -/
def issue (own : Id) (call : Nat) (localName : String) (secret : Secret) (now : Instant)
    (machine : Machine Id Secret) : Machine Id Secret :=
  { machine with
    issued := some {
      ticket := { addr := own, secret }
      expires := now + pairTicketTtl
      localName
      number := machine.tickets }
    hosting := machine.hosting.eraseIdx call
    tickets := machine.tickets + 1
    ledger := .issued machine.tickets secret (now + pairTicketTtl) :: machine.ledger }

/-- `outstanding`: the ticket is dropped when it turns out to have expired. -/
def outstanding (now : Instant) (machine : Machine Id Secret) : Machine Id Secret :=
  if machine.issued.any (fun held => held.expires ≤ now) then { machine with issued := none }
  else machine

/-- The process ends and a new one loads the file. -/
def restart (machine : Machine Id Secret) : Machine Id Secret :=
  { machine with
    state := machine.saved.headD machine.state
    issued := none
    hosting := [] }

end Machine

/-- Whether an exchange holds one of the host's permits. -/
def Serving.holdsPermit : Serving Id Secret → Bool
  | .unreached => false
  | .arrived => false
  | .over => false
  | _ => true

namespace Attempt

/-- The host closes the connection. -/
def close (reason : String) (attempt : Attempt Id Secret) : Attempt Id Secret :=
  { attempt with serving := .over, closed := some reason }

/-- The host sends a refusal and waits for it to be read. -/
def reject (reason : String) (attempt : Attempt Id Secret) : Attempt Id Secret :=
  { attempt with
    serving := .rejecting
    toJoiner := attempt.toJoiner ++ [.reject reason]
    refused := true }

section Serve
variable [EndpointText Id] [DecidableEq Secret]

/-- Answers the hello of an exchange that runs under a ticket. -/
def greeting (ticket : PairTicket Id Secret) (localName : String) (state : MeshState Id)
    (attempt : Attempt Id Secret) : Message Secret → Attempt Id Secret
  | .hello secret announced =>
      let attempt := { attempt with presented := some secret }
      if secret = ticket.secret then
        match resolvePeerName state announced attempt.joiner with
        | .ok name => { attempt with serving := .welcoming ticket localName name }
        | .error failure => attempt.reject (failure.text (EndpointText.text attempt.joiner))
      else attempt.reject "invalid pairing ticket"
  | _ => attempt.reject "invalid pairing ticket"

/-- The end of an exchange, under the lock of the outstanding ticket: a ticket that is no
longer valid registers nothing. -/
def redeem (now : Instant) (saves : Bool) (ticket : PairTicket Id Secret) (name : String)
    (attempt : Attempt Id Secret) (machine : Machine Id Secret) :
    Attempt Id Secret × Machine Id Secret :=
  match machine.issued with
  | some held =>
      if held.ticket.secret = ticket.secret ∧ now < held.expires then
        let consumed := { machine with
          issued := none
          ledger := .redeemed held.number attempt.presented now :: machine.ledger }
        let added := consumed.addPaired saves attempt.joiner name
        if added.1 then
          ({ attempt with serving := .saved, registered := some added.2.state }, added.2)
        else ({ attempt.close "failed" with refused := true }, added.2)
      else ({ attempt.close "cancelled" with refused := true }, machine)
  | none => ({ attempt.close "cancelled" with refused := true }, machine)

/-- One step of the host in an exchange, `busy` when it runs as many as it may. -/
def serve (busy : Bool) (attempt : Attempt Id Secret) (machine : Machine Id Secret) :
    ServeMove → Option (Attempt Id Secret × Machine Id Secret)
  | .accept now =>
      match attempt.serving with
      | .arrived =>
          if busy then some (attempt.close "busy", machine)
          else
            let looked := machine.outstanding now
            match looked.issued with
            | none => some ({ attempt with serving := .refusing }, looked)
            | some held =>
                some ({ attempt with serving := .ticketed held.ticket held.localName }, looked)
      | _ => none
  | .refuse =>
      match attempt.serving with
      | .refusing => some (attempt.reject "no pairing in progress on this machine", machine)
      | _ => none
  | .snapshot =>
      match attempt.serving with
      | .ticketed ticket localName =>
          some ({ attempt with serving := .opening ticket localName machine.state }, machine)
      | _ => none
  | .read =>
      match attempt.serving, attempt.toHost with
      | .opening ticket localName state, message :: toHost =>
          some (greeting ticket localName state { attempt with toHost } message, machine)
      | .confirming ticket name, .done :: toHost =>
          some ({ attempt with toHost, serving := .paired ticket name }, machine)
      | .confirming _ _, .reject _ :: toHost =>
          some ({ attempt.close "" with toHost, refused := true }, machine)
      | .confirming _ _, _ :: toHost => some ({ attempt.close "" with toHost }, machine)
      | _, _ => none
  | .garbled =>
      match attempt.serving with
      | .opening _ _ _ => some (attempt.reject "invalid pairing ticket", machine)
      | .confirming _ _ => some (attempt.close "", machine)
      | _ => none
  | .welcome =>
      match attempt.serving with
      | .welcoming ticket localName name =>
          some ({ attempt with
            serving := .confirming ticket name
            toJoiner := attempt.toJoiner ++ [.welcome localName] }, machine)
      | _ => none
  | .lost =>
      match attempt.serving with
      | .opening _ _ _ => some (attempt.close "", machine)
      | .welcoming _ _ _ => some (attempt.close "", machine)
      | .confirming _ _ => some (attempt.close "", machine)
      | _ => none
  | .timeout =>
      match attempt.serving with
      | .refusing => some (attempt.close "timeout", machine)
      | .opening _ _ _ => some (attempt.close "timeout", machine)
      | .welcoming _ _ _ => some (attempt.close "timeout", machine)
      | .confirming _ _ => some (attempt.close "timeout", machine)
      | .rejecting => some (attempt.close "timeout", machine)
      | _ => none
  | .redeem now saves =>
      match attempt.serving with
      | .paired ticket name => some (attempt.redeem now saves ticket name machine)
      | _ => none
  | .confirm =>
      match attempt.serving with
      | .saved => some (attempt.close pairedReason, machine)
      | _ => none
  | .linger =>
      match attempt.serving with
      | .rejecting => some (attempt.close "rejected", machine)
      | _ => none

/-- Answers what the joiner read after its hello. -/
def answered (state : MeshState Id) (attempt : Attempt Id Secret) :
    Message Secret → Attempt Id Secret
  | .welcome announced =>
      match resolvePeerName state announced attempt.host with
      | .ok name => { attempt with joining := .agreeing name }
      | .error failure =>
          { attempt with
            joining := .refusing
            toHost := attempt.toHost ++ [.reject (failure.text (EndpointText.text attempt.host))]
            refused := true }
  | .reject _ => { attempt with joining := .over, refused := true }
  | _ => { attempt with joining := .over }

/-- One step of the joiner in an exchange. -/
def join (attempt : Attempt Id Secret) (machine : Machine Id Secret) :
    JoinMove → Option (Attempt Id Secret × Machine Id Secret)
  | .connect =>
      match attempt.joining with
      | .dialing ticket localName state =>
          some ({ attempt with
            joining := .connected ticket localName state
            serving := .arrived }, machine)
      | _ => none
  | .greet =>
      match attempt.joining with
      | .connected ticket localName state =>
          some ({ attempt with
            joining := .greeted state
            toHost := attempt.toHost ++ [.hello ticket.secret localName] }, machine)
      | _ => none
  | .read =>
      match attempt.joining, attempt.toJoiner with
      | .greeted state, message :: toJoiner =>
          some (answered state { attempt with toJoiner } message, machine)
      | _, _ => none
  | .agree =>
      match attempt.joining with
      | .agreeing name =>
          some ({ attempt with
            joining := .waiting name
            toHost := attempt.toHost ++ [.done] }, machine)
      | _ => none
  | .close =>
      match attempt.joining, attempt.closed with
      | .waiting name, some reason =>
          if reason = pairedReason then some ({ attempt with joining := .confirmed name }, machine)
          else some ({ attempt with joining := .over }, machine)
      | _, _ => none
  | .register saves =>
      match attempt.joining with
      | .confirmed name =>
          let added := machine.addPaired saves attempt.host name
          some ({ attempt with
            joining := .over
            joined := if added.1 then some added.2.state else none }, added.2)
      | _ => none
  | .fail =>
      match attempt.joining with
      | .stranger => none
      | .confirmed _ => none
      | .over => none
      | _ => some ({ attempt with joining := .over }, machine)

end Serve

/-- An exchange that begins. -/
def opened (joiner host : Id) (joining : Joining Id Secret) (serving : Serving Id Secret) :
    Attempt Id Secret where
  joiner := joiner
  host := host
  joining := joining
  serving := serving
  toHost := []
  toJoiner := []
  closed := none
  presented := none
  registered := none
  joined := none
  refused := false

/-- What is left of an exchange when one of its machines stops. -/
def stopped (machine : Id) (attempt : Attempt Id Secret) : Attempt Id Secret :=
  { attempt with
    serving := if attempt.host = machine then .over else attempt.serving
    joining := match attempt.joining with
      | .stranger => .stranger
      | joining => if attempt.joiner = machine then .over else joining }

end Attempt

namespace Pairings

/-- Machines that loaded their files and have paired with nobody since. -/
def start (loaded : Id → MeshState Id) : Pairings Id Secret where
  machines id := {
    state := loaded id
    saved := [loaded id]
    issued := none
    hosting := []
    tickets := 0
    ledger := [] }
  attempts := []

/-- Changes one machine. -/
def on (machine : Id) (next : Machine Id Secret) (pairings : Pairings Id Secret) :
    Pairings Id Secret :=
  { pairings with machines := Function.update pairings.machines machine next }

/-- Whether a machine runs as many exchanges as it may. -/
def busy (host : Id) (pairings : Pairings Id Secret) : Bool :=
  maxExchanges ≤ (pairings.attempts.filter
    (fun attempt => decide (attempt.host = host) && attempt.serving.holdsPermit)).length

section Step
variable [EndpointText Id] [DecidableEq Secret]

/-- One step; `none` when it cannot be taken. -/
def step (pairings : Pairings Id Secret) : PairingLabel Id Secret → Option (Pairings Id Secret)
  | .change machine saves change =>
      some (pairings.on machine
        ((pairings.machines machine).update saves (change.mutate machine)).2)
  | .restart machine =>
      let stopped := pairings.on machine (pairings.machines machine).restart
      some { stopped with attempts := pairings.attempts.map (Attempt.stopped machine) }
  | .host machine localName =>
      if (validateName localName).isOk then
        some (pairings.on machine ((pairings.machines machine).host localName))
      else none
  | .online machine call secret now =>
      (pairings.machines machine).hosting[call]?.map (fun localName =>
        pairings.on machine
          ((pairings.machines machine).issue machine call localName secret now))
  | .offline machine call =>
      let held := pairings.machines machine
      some (pairings.on machine { held with hosting := held.hosting.eraseIdx call })
  | .join joiner ticket localName =>
      if (validateName localName).isOk ∧ ticket.addr ≠ joiner then
        some { pairings with attempts := pairings.attempts ++
          [.opened joiner ticket.addr
            (.dialing ticket localName (pairings.machines joiner).state) .unreached] }
      else none
  | .stranger joiner host =>
      some { pairings with attempts := pairings.attempts ++
        [.opened joiner host .stranger .arrived] }
  | .tells index message =>
      match pairings.attempts[index]? with
      | some attempt =>
          match attempt.joining with
          | .stranger =>
              let said := { attempt with toHost := attempt.toHost ++ [message] }
              some { pairings with attempts := pairings.attempts.set index said }
          | _ => none
      | none => none
  | .joins index move =>
      pairings.attempts[index]?.bind (fun attempt =>
        (attempt.join (pairings.machines attempt.joiner) move).map (fun moved =>
          { pairings.on attempt.joiner moved.2 with
            attempts := pairings.attempts.set index moved.1 }))
  | .serves index move =>
      pairings.attempts[index]?.bind (fun attempt =>
        (attempt.serve (pairings.busy attempt.host) (pairings.machines attempt.host) move).map
          (fun moved =>
            { pairings.on attempt.host moved.2 with
              attempts := pairings.attempts.set index moved.1 }))

end Step

end Pairings

namespace Attempt

/-- Everything a step of the host does in an exchange, with what it takes for it. -/
inductive Serves [DecidableEq Secret] (busy : Bool) (attempt : Attempt Id Secret)
    (machine : Machine Id Secret) :
    ServeMove → Attempt Id Secret → Machine Id Secret → Prop where
  | turnedAway (now : Instant) (arrived : attempt.serving = .arrived) (full : busy = true) :
      Serves busy attempt machine (.accept now) (attempt.close "busy") machine
  | unticketed (now : Instant) (arrived : attempt.serving = .arrived) :
      Serves busy attempt machine (.accept now) { attempt with serving := .refusing }
        (machine.outstanding now)
  | ticketed (now : Instant) (held : IssuedTicket Id Secret) (arrived : attempt.serving = .arrived)
      (free : busy = false) (isOut : (machine.outstanding now).issued = some held) :
      Serves busy attempt machine (.accept now)
        { attempt with serving := .ticketed held.ticket held.localName } (machine.outstanding now)
  | looked (ticket : PairTicket Id Secret) (localName : String)
      (atPhase : attempt.serving = .ticketed ticket localName) :
      Serves busy attempt machine .snapshot
        { attempt with serving := .opening ticket localName machine.state } machine
  | rejected (move : ServeMove) (reason : String) (toHost : List (Message Secret))
      (presented : Option Secret)
      (atPhase : attempt.serving = .refusing ∨
        ∃ ticket localName state, attempt.serving = .opening ticket localName state)
      (rest : ∃ read, attempt.toHost = read ++ toHost) :
      Serves busy attempt machine move ({ attempt with toHost, presented }.reject reason) machine
  | greeted (ticket : PairTicket Id Secret) (localName : String) (state : MeshState Id)
      (announced name : String) (toHost : List (Message Secret))
      (atPhase : attempt.serving = .opening ticket localName state)
      (sent : attempt.toHost = .hello ticket.secret announced :: toHost)
      (resolved : resolvePeerName state announced attempt.joiner = .ok name) :
      Serves busy attempt machine .read
        { attempt with
          toHost
          presented := some ticket.secret
          serving := .welcoming ticket localName name } machine
  | welcomed (ticket : PairTicket Id Secret) (localName name : String)
      (atPhase : attempt.serving = .welcoming ticket localName name) :
      Serves busy attempt machine .welcome
        { attempt with
          serving := .confirming ticket name
          toJoiner := attempt.toJoiner ++ [.welcome localName] } machine
  | agreed (ticket : PairTicket Id Secret) (name : String) (toHost : List (Message Secret))
      (atPhase : attempt.serving = .confirming ticket name)
      (sent : attempt.toHost = .done :: toHost) :
      Serves busy attempt machine .read { attempt with toHost, serving := .paired ticket name }
        machine
  | refusedBy (ticket : PairTicket Id Secret) (name reason : String)
      (toHost : List (Message Secret)) (atPhase : attempt.serving = .confirming ticket name)
      (sent : attempt.toHost = .reject reason :: toHost) :
      Serves busy attempt machine .read { attempt.close "" with toHost, refused := true } machine
  | gone (move : ServeMove) (reason : String) (toHost : List (Message Secret))
      (running : attempt.serving.holdsPermit = true) (unpaired : ∀ ticket name,
        attempt.serving ≠ .paired ticket name) (unsaved : attempt.serving ≠ .saved)
      (other : reason ≠ pairedReason) (rest : ∃ read, attempt.toHost = read ++ toHost) :
      Serves busy attempt machine move { attempt.close reason with toHost } machine
  | cancelled (now : Instant) (saves : Bool) (ticket : PairTicket Id Secret) (name : String)
      (atPhase : attempt.serving = .paired ticket name) :
      Serves busy attempt machine (.redeem now saves)
        { attempt.close "cancelled" with refused := true } machine
  | failed (now : Instant) (saves : Bool) (ticket : PairTicket Id Secret) (name : String)
      (held : IssuedTicket Id Secret) (atPhase : attempt.serving = .paired ticket name)
      (isOut : machine.issued = some held) (same : held.ticket.secret = ticket.secret)
      (live : now < held.expires) (after : Machine Id Secret)
      (added : ({ machine with
        issued := none
        ledger := .redeemed held.number attempt.presented now :: machine.ledger } :
          Machine Id Secret).addPaired saves attempt.joiner name = (false, after)) :
      Serves busy attempt machine (.redeem now saves)
        { attempt.close "failed" with refused := true } after
  | redeemed (now : Instant) (saves : Bool) (ticket : PairTicket Id Secret) (name : String)
      (held : IssuedTicket Id Secret) (atPhase : attempt.serving = .paired ticket name)
      (isOut : machine.issued = some held) (same : held.ticket.secret = ticket.secret)
      (live : now < held.expires) (after : Machine Id Secret)
      (added : ({ machine with
        issued := none
        ledger := .redeemed held.number attempt.presented now :: machine.ledger } :
          Machine Id Secret).addPaired saves attempt.joiner name = (true, after)) :
      Serves busy attempt machine (.redeem now saves)
        { attempt with serving := .saved, registered := some after.state } after
  | confirmed (atPhase : attempt.serving = .saved) :
      Serves busy attempt machine .confirm (attempt.close pairedReason) machine

/-- Everything a step of the joiner does in an exchange, with what it takes for it. -/
inductive Joins (attempt : Attempt Id Secret) (machine : Machine Id Secret) :
    JoinMove → Attempt Id Secret → Machine Id Secret → Prop where
  | connected (ticket : PairTicket Id Secret) (localName : String) (state : MeshState Id)
      (atPhase : attempt.joining = .dialing ticket localName state) :
      Joins attempt machine .connect
        { attempt with joining := .connected ticket localName state, serving := .arrived } machine
  | greeted (ticket : PairTicket Id Secret) (localName : String) (state : MeshState Id)
      (atPhase : attempt.joining = .connected ticket localName state) :
      Joins attempt machine .greet
        { attempt with
          joining := .greeted state
          toHost := attempt.toHost ++ [.hello ticket.secret localName] } machine
  | welcomed (state : MeshState Id) (announced name : String) (toJoiner : List (Message Secret))
      (atPhase : attempt.joining = .greeted state)
      (sent : attempt.toJoiner = .welcome announced :: toJoiner)
      (resolved : resolvePeerName state announced attempt.host = .ok name) :
      Joins attempt machine .read { attempt with toJoiner, joining := .agreeing name } machine
  | refused (state : MeshState Id) (announced reason : String)
      (toJoiner : List (Message Secret)) (atPhase : attempt.joining = .greeted state)
      (sent : attempt.toJoiner = .welcome announced :: toJoiner) :
      Joins attempt machine .read
        { attempt with
          toJoiner
          joining := .refusing
          toHost := attempt.toHost ++ [.reject reason]
          refused := true } machine
  | refusedBy (state : MeshState Id) (reason : String) (toJoiner : List (Message Secret))
      (atPhase : attempt.joining = .greeted state)
      (sent : attempt.toJoiner = .reject reason :: toJoiner) :
      Joins attempt machine .read { attempt with toJoiner, joining := .over, refused := true }
        machine
  | gone (move : JoinMove) (toJoiner : List (Message Secret))
      (ours : attempt.joining ≠ .stranger) (rest : ∃ read, attempt.toJoiner = read ++ toJoiner) :
      Joins attempt machine move { attempt with toJoiner, joining := .over } machine
  | agreed (name : String) (atPhase : attempt.joining = .agreeing name) :
      Joins attempt machine .agree
        { attempt with joining := .waiting name, toHost := attempt.toHost ++ [.done] } machine
  | confirmed (name : String) (atPhase : attempt.joining = .waiting name)
      (closed : attempt.closed = some pairedReason) :
      Joins attempt machine .close { attempt with joining := .confirmed name } machine
  | registered (saves : Bool) (name : String) (atPhase : attempt.joining = .confirmed name) :
      Joins attempt machine (.register saves)
        { attempt with
          joining := .over
          joined := if (machine.addPaired saves attempt.host name).1 then
            some (machine.addPaired saves attempt.host name).2.state else none }
        (machine.addPaired saves attempt.host name).2

section Inversion
variable [EndpointText Id] [DecidableEq Secret]

omit [EndpointText Id] in
/-- What the end of an exchange does. The ticket is gone, spent on a registration that fails, or
spent on one that is saved. -/
theorem redeem_serves (busy : Bool) (attempt next : Attempt Id Secret)
    (machine after : Machine Id Secret) (now : Instant) (saves : Bool)
    (ticket : PairTicket Id Secret) (name : String)
    (atPhase : attempt.serving = .paired ticket name)
    (ended : attempt.redeem now saves ticket name machine = (next, after)) :
    Serves busy attempt machine (.redeem now saves) next after := by
  unfold redeem at ended
  split at ended
  · rename_i held isOut
    split at ended
    · rename_i live
      cases added : Machine.addPaired saves attempt.joiner name { machine with
          issued := none
          ledger := .redeemed held.number attempt.presented now :: machine.ledger } with
      | mk saved last =>
        simp only [added] at ended
        cases saved with
        | true =>
          obtain ⟨rfl, rfl⟩ := Prod.mk.inj ended
          exact .redeemed now saves ticket name held atPhase isOut live.1 live.2 _ added
        | false =>
          obtain ⟨rfl, rfl⟩ := Prod.mk.inj ended
          exact .failed now saves ticket name held atPhase isOut live.1 live.2 _ added
    · obtain ⟨rfl, rfl⟩ := Prod.mk.inj ended
      exact .cancelled now saves ticket name atPhase
  · obtain ⟨rfl, rfl⟩ := Prod.mk.inj ended
    exact .cancelled now saves ticket name atPhase

/-- What the host does with the first message. A secret that is not the ticket's is refused as it
is read, and so are a name that does not resolve and every other message. -/
theorem greeting_serves (busy : Bool) (attempt : Attempt Id Secret) (machine : Machine Id Secret)
    (ticket : PairTicket Id Secret) (localName : String) (state : MeshState Id)
    (message : Message Secret) (toHost : List (Message Secret))
    (atPhase : attempt.serving = .opening ticket localName state)
    (sent : attempt.toHost = message :: toHost) :
    Serves busy attempt machine .read
      (greeting ticket localName state { attempt with toHost } message) machine := by
  have early : attempt.serving = .refusing ∨
      ∃ ticket localName state, attempt.serving = .opening ticket localName state :=
    Or.inr ⟨ticket, localName, state, atPhase⟩
  cases message with
  | hello secret announced =>
    simp only [greeting]
    split
    · rename_i same
      subst same
      split
      · rename_i name resolved
        exact .greeted ticket localName state announced name toHost atPhase sent resolved
      · exact .rejected .read _ toHost _ early ⟨[_], sent⟩
    · exact .rejected .read _ toHost _ early ⟨[_], sent⟩
  | welcome name => exact .rejected .read _ toHost attempt.presented early ⟨[_], sent⟩
  | done => exact .rejected .read _ toHost attempt.presented early ⟨[_], sent⟩
  | reject reason => exact .rejected .read _ toHost attempt.presented early ⟨[_], sent⟩

/-- A step of the host does one of these things. The cases of `Serves` are the branches of `serve`
in the source's order, each with the guard it is taken under, so no later proof unfolds the host's
side. -/
theorem serve_serves (busy : Bool) (attempt next : Attempt Id Secret)
    (machine after : Machine Id Secret) (move : ServeMove)
    (taken : attempt.serve busy machine move = some (next, after)) :
    Serves busy attempt machine move next after := by
  cases move with
  | accept now =>
    cases atPhase : attempt.serving with
    | arrived =>
      simp only [serve, atPhase] at taken
      split at taken
      · rename_i full
        obtain ⟨rfl, rfl⟩ := Prod.mk.inj (Option.some.inj taken)
        exact .turnedAway now atPhase full
      · rename_i free
        split at taken
        · obtain ⟨rfl, rfl⟩ := Prod.mk.inj (Option.some.inj taken)
          exact .unticketed now atPhase
        · rename_i held isOut
          obtain ⟨rfl, rfl⟩ := Prod.mk.inj (Option.some.inj taken)
          exact .ticketed now held atPhase (Bool.eq_false_iff.mpr free) isOut
    | _ => simp [serve, atPhase] at taken
  | refuse =>
    cases atPhase : attempt.serving with
    | refusing =>
      simp only [serve, atPhase] at taken
      obtain ⟨rfl, rfl⟩ := Prod.mk.inj (Option.some.inj taken)
      exact .rejected .refuse _ attempt.toHost attempt.presented (Or.inl atPhase) ⟨[], rfl⟩
    | _ => simp [serve, atPhase] at taken
  | snapshot =>
    cases atPhase : attempt.serving with
    | ticketed ticket localName =>
      simp only [serve, atPhase] at taken
      obtain ⟨rfl, rfl⟩ := Prod.mk.inj (Option.some.inj taken)
      exact .looked ticket localName atPhase
    | _ => simp [serve, atPhase] at taken
  | read =>
    cases atPhase : attempt.serving with
    | opening ticket localName state =>
      cases sent : attempt.toHost with
      | nil => simp [serve, atPhase, sent] at taken
      | cons message toHost =>
        simp only [serve, atPhase, sent] at taken
        obtain ⟨rfl, rfl⟩ := Prod.mk.inj (Option.some.inj taken)
        simpa only [atPhase] using
          greeting_serves busy attempt machine ticket localName state message toHost atPhase sent
    | confirming ticket name =>
      have running : attempt.serving.holdsPermit = true := by rw [atPhase]; rfl
      have unpaired : ∀ ticket name, attempt.serving ≠ .paired ticket name := by simp [atPhase]
      have unsaved : attempt.serving ≠ .saved := by simp [atPhase]
      cases sent : attempt.toHost with
      | nil => simp [serve, atPhase, sent] at taken
      | cons message toHost =>
        cases message with
        | done =>
          simp only [serve, atPhase, sent] at taken
          obtain ⟨rfl, rfl⟩ := Prod.mk.inj (Option.some.inj taken)
          exact .agreed ticket name toHost atPhase sent
        | reject reason =>
          simp only [serve, atPhase, sent] at taken
          obtain ⟨rfl, rfl⟩ := Prod.mk.inj (Option.some.inj taken)
          exact .refusedBy ticket name reason toHost atPhase sent
        | _ =>
          simp only [serve, atPhase, sent] at taken
          obtain ⟨rfl, rfl⟩ := Prod.mk.inj (Option.some.inj taken)
          exact .gone .read "" toHost running unpaired unsaved (by decide) ⟨[_], sent⟩
    | _ => simp [serve, atPhase] at taken
  | garbled =>
    cases atPhase : attempt.serving with
    | opening ticket localName state =>
      simp only [serve, atPhase] at taken
      obtain ⟨rfl, rfl⟩ := Prod.mk.inj (Option.some.inj taken)
      exact .rejected .garbled _ attempt.toHost attempt.presented
        (Or.inr ⟨ticket, localName, state, atPhase⟩) ⟨[], rfl⟩
    | confirming ticket name =>
      simp only [serve, atPhase] at taken
      obtain ⟨rfl, rfl⟩ := Prod.mk.inj (Option.some.inj taken)
      exact .gone .garbled "" attempt.toHost (by rw [atPhase]; rfl) (by simp [atPhase])
        (by simp [atPhase]) (by decide) ⟨[], rfl⟩
    | _ => simp [serve, atPhase] at taken
  | welcome =>
    cases atPhase : attempt.serving with
    | welcoming ticket localName name =>
      simp only [serve, atPhase] at taken
      obtain ⟨rfl, rfl⟩ := Prod.mk.inj (Option.some.inj taken)
      exact .welcomed ticket localName name atPhase
    | _ => simp [serve, atPhase] at taken
  | lost =>
    cases atPhase : attempt.serving with
    | opening | welcoming | confirming =>
      simp only [serve, atPhase] at taken
      obtain ⟨rfl, rfl⟩ := Prod.mk.inj (Option.some.inj taken)
      exact .gone .lost "" attempt.toHost (by rw [atPhase]; rfl) (by simp [atPhase])
        (by simp [atPhase]) (by decide) ⟨[], rfl⟩
    | _ => simp [serve, atPhase] at taken
  | timeout =>
    cases atPhase : attempt.serving with
    | refusing | opening | welcoming | confirming | rejecting =>
      simp only [serve, atPhase] at taken
      obtain ⟨rfl, rfl⟩ := Prod.mk.inj (Option.some.inj taken)
      exact .gone .timeout "timeout" attempt.toHost (by rw [atPhase]; rfl) (by simp [atPhase])
        (by simp [atPhase]) (by decide) ⟨[], rfl⟩
    | _ => simp [serve, atPhase] at taken
  | redeem now saves =>
    cases atPhase : attempt.serving with
    | paired ticket name =>
      simp only [serve, atPhase, Option.some.injEq] at taken
      exact redeem_serves busy attempt next machine after now saves ticket name atPhase taken
    | _ => simp [serve, atPhase] at taken
  | confirm =>
    cases atPhase : attempt.serving with
    | saved =>
      simp only [serve, atPhase] at taken
      obtain ⟨rfl, rfl⟩ := Prod.mk.inj (Option.some.inj taken)
      exact .confirmed atPhase
    | _ => simp [serve, atPhase] at taken
  | linger =>
    cases atPhase : attempt.serving with
    | rejecting =>
      simp only [serve, atPhase] at taken
      obtain ⟨rfl, rfl⟩ := Prod.mk.inj (Option.some.inj taken)
      exact .gone .linger "rejected" attempt.toHost (by rw [atPhase]; rfl) (by simp [atPhase])
        (by simp [atPhase]) (by decide) ⟨[], rfl⟩
    | _ => simp [serve, atPhase] at taken

omit [DecidableEq Secret] in
/-- What the joiner does with the first message. -/
theorem answered_joins (attempt : Attempt Id Secret) (machine : Machine Id Secret)
    (state : MeshState Id) (message : Message Secret) (toJoiner : List (Message Secret))
    (atPhase : attempt.joining = .greeted state) (sent : attempt.toJoiner = message :: toJoiner) :
    Joins attempt machine .read (answered state { attempt with toJoiner } message) machine := by
  have ours : attempt.joining ≠ .stranger := by simp [atPhase]
  cases message with
  | welcome announced =>
    simp only [answered]
    split
    · rename_i name resolved
      exact .welcomed state announced name toJoiner atPhase sent resolved
    · exact .refused state announced _ toJoiner atPhase sent
  | reject reason => exact .refusedBy state reason toJoiner atPhase sent
  | hello secret name => exact .gone .read toJoiner ours ⟨[_], sent⟩
  | done => exact .gone .read toJoiner ours ⟨[_], sent⟩

omit [DecidableEq Secret] in
/-- A step of the joiner does one of these things. The cases of `Joins` are the branches of `join`
in the source's order, each with the guard it is taken under, so no later proof unfolds the
joiner's side. -/
theorem join_joins (attempt next : Attempt Id Secret) (machine after : Machine Id Secret)
    (move : JoinMove) (taken : attempt.join machine move = some (next, after)) :
    Joins attempt machine move next after := by
  cases move with
  | connect =>
    cases atPhase : attempt.joining with
    | dialing ticket localName state =>
      simp only [join, atPhase] at taken
      obtain ⟨rfl, rfl⟩ := Prod.mk.inj (Option.some.inj taken)
      exact .connected ticket localName state atPhase
    | _ => simp [join, atPhase] at taken
  | greet =>
    cases atPhase : attempt.joining with
    | connected ticket localName state =>
      simp only [join, atPhase] at taken
      obtain ⟨rfl, rfl⟩ := Prod.mk.inj (Option.some.inj taken)
      exact .greeted ticket localName state atPhase
    | _ => simp [join, atPhase] at taken
  | read =>
    cases atPhase : attempt.joining with
    | greeted state =>
      cases sent : attempt.toJoiner with
      | nil => simp [join, atPhase, sent] at taken
      | cons message toJoiner =>
        simp only [join, atPhase, sent] at taken
        obtain ⟨rfl, rfl⟩ := Prod.mk.inj (Option.some.inj taken)
        simpa only [atPhase] using
          answered_joins attempt machine state message toJoiner atPhase sent
    | _ => simp [join, atPhase] at taken
  | agree =>
    cases atPhase : attempt.joining with
    | agreeing name =>
      simp only [join, atPhase] at taken
      obtain ⟨rfl, rfl⟩ := Prod.mk.inj (Option.some.inj taken)
      exact .agreed name atPhase
    | _ => simp [join, atPhase] at taken
  | close =>
    cases atPhase : attempt.joining with
    | waiting name =>
      cases closed : attempt.closed with
      | none => simp [join, atPhase, closed] at taken
      | some reason =>
        simp only [join, atPhase, closed] at taken
        split at taken
        · rename_i isPaired
          obtain ⟨rfl, rfl⟩ := Prod.mk.inj (Option.some.inj taken)
          have confirms : attempt.closed = some pairedReason := by rw [closed, isPaired]
          have joins : Joins attempt machine .close { attempt with joining := .confirmed name }
              machine := .confirmed name atPhase confirms
          simpa only [closed] using joins
        · obtain ⟨rfl, rfl⟩ := Prod.mk.inj (Option.some.inj taken)
          have ours : attempt.joining ≠ .stranger := by simp [atPhase]
          have joins : Joins attempt machine .close { attempt with joining := .over } machine :=
            .gone .close attempt.toJoiner ours ⟨[], rfl⟩
          simpa only [closed] using joins
    | _ => simp [join, atPhase] at taken
  | register saves =>
    cases atPhase : attempt.joining with
    | confirmed name =>
      simp only [join, atPhase] at taken
      obtain ⟨rfl, rfl⟩ := Prod.mk.inj (Option.some.inj taken)
      exact .registered saves name atPhase
    | _ => simp [join, atPhase] at taken
  | fail =>
    cases atPhase : attempt.joining with
    | dialing | connected | greeted | agreeing | waiting | refusing =>
      simp only [join, atPhase] at taken
      obtain ⟨rfl, rfl⟩ := Prod.mk.inj (Option.some.inj taken)
      exact .gone .fail attempt.toJoiner (by simp [atPhase]) ⟨[], rfl⟩
    | _ => simp [join, atPhase] at taken

end Inversion

end Attempt

namespace Pairings

/-- Everything a step can do, with what it takes for it. -/
inductive Took [EndpointText Id] [DecidableEq Secret] (pairings : Pairings Id Secret) :
    PairingLabel Id Secret → Pairings Id Secret → Prop where
  | changed (machine : Id) (saves : Bool) (change : Change Id) :
      Took pairings (.change machine saves change) (pairings.on machine
        ((pairings.machines machine).update saves (change.mutate machine)).2)
  | restarted (machine : Id) :
      Took pairings (.restart machine)
        { pairings.on machine (pairings.machines machine).restart with
          attempts := pairings.attempts.map (Attempt.stopped machine) }
  | hosted (machine : Id) (localName : String) :
      Took pairings (.host machine localName)
        (pairings.on machine ((pairings.machines machine).host localName))
  | issued (machine : Id) (call : Nat) (secret : Secret) (now : Instant) (localName : String) :
      Took pairings (.online machine call secret now) (pairings.on machine
        ((pairings.machines machine).issue machine call localName secret now))
  | unissued (machine : Id) (call : Nat) :
      Took pairings (.offline machine call) (pairings.on machine
        { pairings.machines machine with
          hosting := (pairings.machines machine).hosting.eraseIdx call })
  | dialed (joiner : Id) (ticket : PairTicket Id Secret) (localName : String)
      (other : ticket.addr ≠ joiner) :
      Took pairings (.join joiner ticket localName)
        { pairings with attempts := pairings.attempts ++
          [.opened joiner ticket.addr
            (.dialing ticket localName (pairings.machines joiner).state) .unreached] }
  | met (joiner host : Id) :
      Took pairings (.stranger joiner host)
        { pairings with attempts := pairings.attempts ++
          [.opened joiner host .stranger .arrived] }
  | said (index : Nat) (message : Message Secret) (attempt : Attempt Id Secret)
      (listed : pairings.attempts[index]? = some attempt) (isStranger : attempt.joining = .stranger) :
      Took pairings (.tells index message)
        { pairings with
          attempts := pairings.attempts.set index
            ({ attempt with toHost := attempt.toHost ++ [message] } : Attempt Id Secret) }
  | joined (index : Nat) (move : JoinMove) (attempt next : Attempt Id Secret)
      (machine : Machine Id Secret) (listed : pairings.attempts[index]? = some attempt)
      (joins : attempt.Joins (pairings.machines attempt.joiner) move next machine) :
      Took pairings (.joins index move)
        { pairings.on attempt.joiner machine with attempts := pairings.attempts.set index next }
  | served (index : Nat) (move : ServeMove) (attempt next : Attempt Id Secret)
      (machine : Machine Id Secret) (listed : pairings.attempts[index]? = some attempt)
      (serves : attempt.Serves (pairings.busy attempt.host) (pairings.machines attempt.host) move
        next machine) :
      Took pairings (.serves index move)
        { pairings.on attempt.host machine with attempts := pairings.attempts.set index next }

/-- A step does one of these things. A move of an exchange comes with the move of its side, and
everything else with the machines it leaves. -/
theorem step_took [EndpointText Id] [DecidableEq Secret] (pairings next : Pairings Id Secret)
    (label : PairingLabel Id Secret) (taken : pairings.step label = some next) :
    Took pairings label next := by
  cases label with
  | change machine saves change =>
    obtain rfl := Option.some.inj taken
    exact .changed machine saves change
  | restart machine =>
    obtain rfl := Option.some.inj taken
    exact .restarted machine
  | host machine localName =>
    simp only [step, Option.ite_none_right_eq_some, Option.some.injEq] at taken
    obtain ⟨_, rfl⟩ := taken
    exact .hosted machine localName
  | online machine call secret now =>
    obtain ⟨localName, _, rfl⟩ := Option.map_eq_some_iff.mp taken
    exact .issued machine call secret now localName
  | offline machine call =>
    obtain rfl := Option.some.inj taken
    exact .unissued machine call
  | join joiner ticket localName =>
    simp only [step, Option.ite_none_right_eq_some, Option.some.injEq] at taken
    obtain ⟨⟨_, other⟩, rfl⟩ := taken
    exact .dialed joiner ticket localName other
  | stranger joiner host =>
    obtain rfl := Option.some.inj taken
    exact .met joiner host
  | tells index message =>
    cases listed : pairings.attempts[index]? with
    | none => simp [step, listed] at taken
    | some attempt =>
      simp only [step, listed] at taken
      split at taken
      · rename_i isStranger
        obtain rfl := Option.some.inj taken
        exact .said index message attempt listed isStranger
      · cases taken
  | joins index move =>
    obtain ⟨attempt, listed, moves⟩ := Option.bind_eq_some_iff.mp taken
    obtain ⟨⟨next, machine⟩, moved, rfl⟩ := Option.map_eq_some_iff.mp moves
    exact .joined index move attempt next machine listed (attempt.join_joins next _ _ move moved)
  | serves index move =>
    obtain ⟨attempt, listed, moves⟩ := Option.bind_eq_some_iff.mp taken
    obtain ⟨⟨next, machine⟩, moved, rfl⟩ := Option.map_eq_some_iff.mp moves
    exact .served index move attempt next machine listed
      (attempt.serve_serves _ next _ _ move moved)

/-- What holds of every machine, and of one that is changed, holds of every machine after. -/
theorem forall_on {holds : Id → Machine Id Secret → Prop} (pairings : Pairings Id Secret)
    (machine : Id) (next : Machine Id Secret) (before : ∀ id, holds id (pairings.machines id))
    (changed : holds machine next) (id : Id) :
    holds id ((pairings.on machine next).machines id) := by
  by_cases same : id = machine
  · subst same
    simpa [on] using changed
  · simpa [on, Function.update_of_ne same] using before id

/-- What holds of every exchange, and of one that begins or goes on, holds of every exchange
after. -/
theorem forall_append {holds : Attempt Id Secret → Prop} (pairings : Pairings Id Secret)
    (attempt : Attempt Id Secret) (before : ∀ other ∈ pairings.attempts, holds other)
    (begun : holds attempt) : ∀ other ∈ pairings.attempts ++ [attempt], holds other := by
  rw [List.forall_mem_append]
  exact ⟨before, List.forall_mem_singleton.mpr begun⟩

/-- What holds of all exchanges does so when one of them goes on to where it holds. -/
theorem forall_set {holds : Attempt Id Secret → Prop} (pairings : Pairings Id Secret)
    (index : Nat) (next : Attempt Id Secret) (before : ∀ other ∈ pairings.attempts, holds other)
    (goes : holds next) : ∀ other ∈ pairings.attempts.set index next, holds other := by
  intro other member
  obtain kept | rfl := List.mem_or_eq_of_mem_set member
  · exact before other kept
  · exact goes

end Pairings

end Yank
