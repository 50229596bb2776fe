import Yank.Runs

/-!
# The thread that talks to the compositor

Commands are queued for the thread, which sleeps until the compositor says something or a byte
arrives on its wake pipe; a command is queued before its byte is written, and the thread takes
bytes off the pipe before it looks at the queue. Everything here happens in any order: bytes are
written late, several are taken at once, events arrive while commands run, and a read from the
compositor may bring only some of what has arrived.

The thread never sleeps over a command, an event or a request of a command that was not sent. A
thread that was dropped runs what is queued and ends.
-/

namespace Yank.Wayland

/-- Where the thread is in its loop. -/
inductive PollPhase where
  /-- About to look whether the session is alive, and to flush. -/
  | top
  | dispatching
  /-- About to prepare a read. -/
  | preparing
  | polling
  /-- The poll returned: whether the connection and the wake pipe were readable. -/
  | polled (connection wake : Bool)
  | draining (wake : Bool)
  | dispatchingAgain
  | running
  /-- The loop was left, because it was told to or with an error. -/
  | ended (stopped : Bool)
deriving DecidableEq

namespace PollPhase

/-- The thread looks at the queue before it sleeps. -/
def looks : PollPhase → Bool
  | .polled _ _ | .draining _ | .dispatchingAgain | .running | .ended _ => true
  | _ => false

/-- Everything that was read has been handled. -/
def caughtUp : PollPhase → Bool
  | .preparing | .polling | .polled _ _ | .running => true
  | _ => false

/-- No command ran since requests were flushed. -/
def flushed : PollPhase → Bool
  | .dispatching | .preparing | .polling | .polled _ _ | .draining _ | .dispatchingAgain => true
  | _ => false

def isEnded : PollPhase → Bool
  | .ended _ => true
  | _ => false

/-- How far from its end the loop is that does not start over. -/
def rank : PollPhase → Nat
  | .top => 8
  | .dispatching => 7
  | .preparing => 6
  | .polling => 5
  | .polled _ _ => 4
  | .draining _ => 3
  | .dispatchingAgain => 2
  | .running => 1
  | .ended _ => 0

/-- A thread that goes on has a step to take. -/
theorem rank_pos (phase : PollPhase) (going : phase.isEnded = false) : 1 ≤ phase.rank := by
  cases phase with
  | ended stopped => cases going
  | _ => simp [rank]

end PollPhase

/-- The daemon's end of the queue. -/
inductive Sender where
  | idle
  /-- A command was queued and its byte was not written yet. -/
  | pushed
  /-- The queue was closed and its byte was not written yet. -/
  | closed
  /-- It waits for the thread to end. -/
  | joining
deriving DecidableEq

/-- The daemon's end, the queue and the wake pipe, the thread, and what the compositor said. A
request is known by the command or the event it was made for. -/
structure Polling (Command Event : Type) where
  sender : Sender
  /-- Every command there ever was. -/
  sent : List Command
  queue : List Command
  /-- How many bytes there are in the wake pipe. -/
  pipe : Nat
  /-- Every event there ever was. -/
  arrived : List Event
  /-- What has arrived and was not read. -/
  socket : List Event
  /-- What was read and not handled. -/
  read : List Event
  handled : List Event
  /-- The compositor has not withdrawn the device. -/
  alive : Bool
  ran : List Command
  /-- Requests that were made and not sent. -/
  buffer : List (Command ⊕ Event)
  requested : List (Command ⊕ Event)
  phase : PollPhase

/-- What happens next. -/
inductive PollLabel (Command Event : Type) where
  | send (command : Command)
  | wake
  | close
  | arrive (event : Event)
  /-- The thread goes on; its call fails, or a read brings so many events. -/
  | thread (failed : Bool) (count : Nat)

namespace Polling

/-- How many bytes a pipe holds. -/
def pipeCapacity : Nat := 65536

/-- How many bytes are taken off the wake pipe at a time. -/
def drained : Nat := 64

variable {Command Event : Type}

/-- The thread as it starts, with events that were read while it connected. -/
def start (left : List Event) : Polling Command Event where
  sender := .idle
  sent := []
  queue := []
  pipe := 0
  arrived := left
  socket := []
  read := left
  handled := []
  alive := true
  ran := []
  buffer := []
  requested := []
  phase := .top

/-- Handles one event. -/
def handle (finishes : Event → Bool) (event : Event) (state : Polling Command Event) :
    Polling Command Event :=
  { state with
    handled := state.handled ++ [event]
    alive := state.alive && !finishes event
    buffer := state.buffer ++ [.inr event] }

/-- The thread goes on. -/
def advance (finishes : Event → Bool) (failed : Bool) (count : Nat)
    (state : Polling Command Event) : Option (Polling Command Event) :=
  match state.phase with
  | .top =>
      if !state.alive || failed then some { state with phase := .ended false }
      else some { state with
        requested := state.requested ++ state.buffer
        buffer := []
        phase := .dispatching }
  | .dispatching =>
      match state.read with
      | [] => some { state with phase := .preparing }
      | event :: read =>
          if failed then some { state with phase := .ended false }
          else some (handle finishes event { state with read })
  | .preparing => some { state with phase := if state.read.isEmpty then .polling else .top }
  | .polling =>
      if failed then some { state with phase := .ended false }
      else if state.socket.isEmpty && state.pipe == 0 then none
      else some { state with phase := .polled (!state.socket.isEmpty) (0 < state.pipe) }
  | .polled connection wake =>
      if connection then
        if failed then some { state with phase := .ended false }
        else some { state with
          read := state.read ++ state.socket.take count
          socket := state.socket.drop count
          phase := .draining wake }
      else some { state with phase := .draining wake }
  | .draining wake =>
      some { state with
        pipe := if wake then state.pipe - drained else state.pipe
        phase := .dispatchingAgain }
  | .dispatchingAgain =>
      match state.read with
      | [] => some { state with phase := .running }
      | event :: read =>
          if failed then some { state with phase := .ended false }
          else some (handle finishes event { state with read })
  | .running =>
      match state.queue with
      | command :: queue =>
          some { state with
            queue
            ran := state.ran ++ [command]
            buffer := state.buffer ++ [.inl command] }
      | [] =>
          match state.sender with
          | .idle | .pushed => some { state with phase := .top }
          -- The queue is closed and nothing is left in it.
          | .closed | .joining => some { state with phase := .ended true }
  | .ended _ => none

/-- One step of the daemon, the compositor or the thread. -/
def step (finishes : Event → Bool) (state : Polling Command Event) :
    PollLabel Command Event → Option (Polling Command Event)
  | .send command =>
      if state.sender = .idle then
        -- Nobody takes the commands of a thread that is gone.
        if state.phase.isEnded then some state
        else some { state with
          sender := .pushed
          sent := state.sent ++ [command]
          queue := state.queue ++ [command] }
      else none
  | .wake =>
      if state.pipe < pipeCapacity || state.phase.isEnded then
        match state.sender with
        | .pushed => some { state with sender := .idle, pipe := state.pipe + 1 }
        | .closed => some { state with sender := .joining, pipe := state.pipe + 1 }
        | _ => none
      else none
  | .close => if state.sender = .idle then some { state with sender := .closed } else none
  | .arrive event =>
      some { state with arrived := state.arrived ++ [event], socket := state.socket ++ [event] }
  | .thread failed count => advance finishes failed count state

/-- Everything the thread can do when it goes on. -/
inductive Advanced (finishes : Event → Bool) (state : Polling Command Event) :
    Polling Command Event → Prop where
  | failed (going : state.phase.isEnded = false) :
      Advanced finishes state { state with phase := .ended false }
  | flushes (here : state.phase = .top) :
      Advanced finishes state { state with
        requested := state.requested ++ state.buffer
        buffer := []
        phase := .dispatching }
  | handles (event : Event) (read : List Event)
      (here : state.phase = .dispatching ∨ state.phase = .dispatchingAgain)
      (first : state.read = event :: read) :
      Advanced finishes state (handle finishes event { state with read })
  | dispatched (here : state.phase = .dispatching) (done : state.read = []) :
      Advanced finishes state { state with phase := .preparing }
  | restarts (here : state.phase = .preparing) (more : state.read ≠ []) :
      Advanced finishes state { state with phase := .top }
  | prepared (here : state.phase = .preparing) (done : state.read = []) :
      Advanced finishes state { state with phase := .polling }
  | wakes (here : state.phase = .polling) (connection wake : Bool) :
      Advanced finishes state { state with phase := .polled connection wake }
  | reads (connection wake : Bool) (here : state.phase = .polled connection wake) (count : Nat) :
      Advanced finishes state { state with
        read := state.read ++ state.socket.take count
        socket := state.socket.drop count
        phase := .draining wake }
  | drains (wake : Bool) (here : state.phase = .draining wake) (pipe : Nat) :
      Advanced finishes state { state with pipe, phase := .dispatchingAgain }
  | dispatchedAgain (here : state.phase = .dispatchingAgain) (done : state.read = []) :
      Advanced finishes state { state with phase := .running }
  | runs (command : Command) (queue : List Command) (here : state.phase = .running)
      (first : state.queue = command :: queue) :
      Advanced finishes state { state with
        queue
        ran := state.ran ++ [command]
        buffer := state.buffer ++ [.inl command] }
  | ran (here : state.phase = .running) (done : state.queue = [])
      (going : state.sender = .idle ∨ state.sender = .pushed) :
      Advanced finishes state { state with phase := .top }
  | stops (here : state.phase = .running) (done : state.queue = [])
      (gone : state.sender = .closed ∨ state.sender = .joining) :
      Advanced finishes state { state with phase := .ended true }

/-- The thread goes on unless it has ended. The cases of `Advanced` are the steps of the loop's
body in order; a call that fails ends the loop from any of them. -/
theorem advance_cases (finishes : Event → Bool) (failed : Bool) (count : Nat)
    (state next : Polling Command Event) (taken : advance finishes failed count state = some next) :
    Advanced finishes state next := by
  rw [advance] at taken
  split at taken
  case h_1 here =>
    split at taken
    · cases taken
      exact .failed (by rw [here]; rfl)
    · cases taken
      exact .flushes here
  case h_2 here =>
    split at taken
    case h_1 done =>
      cases taken
      exact .dispatched here done
    case h_2 event read first =>
      split at taken
      · cases taken
        exact .failed (by rw [here]; rfl)
      · cases taken
        exact .handles event read (.inl here) first
  case h_3 here =>
    cases taken
    split
    case isTrue done => exact .prepared here (List.isEmpty_iff.mp done)
    case isFalse more => exact .restarts here (fun none => more (List.isEmpty_iff.mpr none))
  case h_4 here =>
    split at taken
    · cases taken
      exact .failed (by rw [here]; rfl)
    · split at taken
      · cases taken
      · cases taken
        exact .wakes here _ _
  case h_5 connection wake here =>
    split at taken
    · split at taken
      · cases taken
        exact .failed (by rw [here]; rfl)
      · cases taken
        exact .reads connection wake here count
    · cases taken
      have nothing : Advanced finishes state _ := .reads connection wake here 0
      rwa [List.take_zero, List.append_nil, List.drop_zero] at nothing
  case h_6 wake here =>
    cases taken
    exact .drains wake here _
  case h_7 here =>
    split at taken
    case h_1 done =>
      cases taken
      exact .dispatchedAgain here done
    case h_2 event read first =>
      split at taken
      · cases taken
        exact .failed (by rw [here]; rfl)
      · cases taken
        exact .handles event read (.inr here) first
  case h_8 here =>
    split at taken
    case h_1 command queue first =>
      cases taken
      exact .runs command queue here first
    case h_2 done =>
      split at taken
      case h_1 sender =>
        cases taken
        exact .ran here done (.inl sender)
      case h_2 sender =>
        cases taken
        exact .ran here done (.inr sender)
      case h_3 sender =>
        cases taken
        exact .stops here done (.inl sender)
      case h_4 sender =>
        cases taken
        exact .stops here done (.inr sender)
  case h_9 here => cases taken

/-- Nobody's work is forgotten. Commands run in order. One that waits has a byte on its way or a
thread that will look, and where two wait a byte is there; the closing of the queue has its byte as
well. What was read is handled in order, and the requests of commands are flushed before the thread
sleeps. -/
structure Awake (left : List Event) (state : Polling Command Event) : Prop where
  order : state.ran ++ state.queue = state.sent
  heard : state.handled ++ (state.read ++ state.socket) = state.arrived
  caughtUp : state.phase.caughtUp = true → state.read = []
  waiting : state.queue ≠ [] → 0 < state.pipe ∨ state.sender = .pushed ∨ state.phase.looks = true
  crowded : 1 < state.queue.length → 0 < state.pipe ∨ state.phase.looks = true
  closing : state.sender = .joining → 0 < state.pipe ∨ state.phase.looks = true
  flushed : state.phase.flushed = true → ∀ command, .inl command ∉ state.buffer
  requested : (state.requested ++ state.buffer).filterMap Sum.getLeft? = state.ran
  silent : left = [] → state.phase.flushed = true → state.phase ≠ .dispatchingAgain →
    state.buffer = []
  unread : left = [] → state.phase = .top ∨ state.phase = .dispatching → state.read = []
  stopped : state.phase = .ended true → state.queue = []

/-- The thread is awake at first, and nothing has been asked of it. -/
theorem start_awake (left : List Event) : (start left : Polling Command Event).Awake left where
  order := rfl
  heard := by simp [start]
  caughtUp caught := by cases caught
  waiting some := absurd rfl some
  crowded some := by cases some
  closing sender := by cases sender
  flushed _ _ member := by cases member
  requested := rfl
  silent _ _ _ := rfl
  unread nothing _ := nothing
  stopped _ := rfl

section Keeping
variable {finishes : Event → Bool} {left : List Event} {state next : Polling Command Event}

/-- Another thing the thread did is no other place in what it is owed. One case for each thing the
thread does. What it is owed is a byte in the pipe, an event on the socket, or a place in the body
from which it still looks at the queue. -/
theorem Awake.advanced (awake : state.Awake left) (advanced : Advanced finishes state next) :
    next.Awake left := by
  cases advanced with
  | failed going =>
    exact { awake with
      caughtUp := by rintro ⟨⟩
      waiting := fun _ => .inr (.inr rfl)
      crowded := fun _ => .inr rfl
      closing := fun _ => .inr rfl
      flushed := by rintro ⟨⟩
      silent := by rintro _ ⟨⟩
      unread := by rintro _ (⟨⟨⟩⟩ | ⟨⟨⟩⟩)
      stopped := by rintro ⟨⟩ }
  | flushes here =>
    have waits := awake.waiting
    have crowds := awake.crowded
    have closes := awake.closing
    rw [here] at waits crowds closes
    exact { awake with
      caughtUp := by rintro ⟨⟩
      waiting := waits
      crowded := crowds
      closing := closes
      flushed := fun _ _ member => by cases member
      requested := by rw [List.append_nil]; exact awake.requested
      silent := fun _ _ _ => rfl
      unread := fun nothing _ => awake.unread nothing (.inl here)
      stopped := by rintro ⟨⟩ }
  | handles event read here first =>
    have unflushed : ∀ command, .inl command ∉ state.buffer ++ [.inr event] := by
      intro command member
      obtain old | new := List.mem_append.mp member
      · refine awake.flushed ?_ command old
        obtain now | now := here
        · rw [now]; rfl
        · rw [now]; rfl
      · cases List.mem_singleton.mp new
    have behind : state.phase.caughtUp = false := by
      obtain now | now := here
      · rw [now]; rfl
      · rw [now]; rfl
    have again (nothing : left = []) : state.phase = .dispatchingAgain := by
      obtain now | now := here
      · have none := awake.unread nothing (.inr now)
        rw [first] at none
        cases none
      · exact now
    exact { awake with
      heard := by
        rw [← awake.heard, first]
        exact List.append_assoc ..
      caughtUp := fun caught => by
        rw [handle, behind] at caught
        cases caught
      flushed := fun _ => unflushed
      requested := by
        rw [← awake.requested]
        change (state.requested ++ (state.buffer ++ [Sum.inr event])).filterMap Sum.getLeft? = _
        rw [← List.append_assoc, List.filterMap_append]
        exact List.append_nil _
      silent := fun nothing _ other => absurd (again nothing) other
      unread := by
        intro nothing early
        rw [handle, again nothing] at early
        obtain ⟨⟨⟩⟩ | ⟨⟨⟩⟩ := early }
  | dispatched here done =>
    have waits := awake.waiting
    have crowds := awake.crowded
    have closes := awake.closing
    have flushed := awake.flushed
    have silent := awake.silent
    rw [here] at waits crowds closes flushed silent
    exact { awake with
      caughtUp := fun _ => done
      waiting := waits
      crowded := crowds
      closing := closes
      flushed := flushed
      silent := fun nothing _ _ => silent nothing rfl PollPhase.noConfusion
      unread := by rintro _ (⟨⟨⟩⟩ | ⟨⟨⟩⟩)
      stopped := by rintro ⟨⟩ }
  | restarts here more =>
    exact absurd (awake.caughtUp (by rw [here]; rfl)) more
  | prepared here done =>
    have waits := awake.waiting
    have crowds := awake.crowded
    have closes := awake.closing
    have flushed := awake.flushed
    have silent := awake.silent
    rw [here] at waits crowds closes flushed silent
    exact { awake with
      caughtUp := fun _ => done
      waiting := waits
      crowded := crowds
      closing := closes
      flushed := flushed
      silent := fun nothing _ _ => silent nothing rfl PollPhase.noConfusion
      unread := by rintro _ (⟨⟨⟩⟩ | ⟨⟨⟩⟩)
      stopped := by rintro ⟨⟩ }
  | wakes here connection wake =>
    have caught := awake.caughtUp
    have flushed := awake.flushed
    have silent := awake.silent
    rw [here] at caught flushed silent
    exact { awake with
      caughtUp := fun _ => caught rfl
      waiting := fun _ => .inr (.inr rfl)
      crowded := fun _ => .inr rfl
      closing := fun _ => .inr rfl
      flushed := flushed
      silent := fun nothing _ _ => silent nothing rfl PollPhase.noConfusion
      unread := by rintro _ (⟨⟨⟩⟩ | ⟨⟨⟩⟩)
      stopped := by rintro ⟨⟩ }
  | reads connection wake here count =>
    have flushed := awake.flushed
    have silent := awake.silent
    rw [here] at flushed silent
    exact { awake with
      heard := by
        rw [← awake.heard]
        dsimp only
        rw [List.append_assoc, List.take_append_drop]
      caughtUp := by rintro ⟨⟩
      waiting := fun _ => .inr (.inr rfl)
      crowded := fun _ => .inr rfl
      closing := fun _ => .inr rfl
      flushed := flushed
      silent := fun nothing _ _ => silent nothing rfl PollPhase.noConfusion
      unread := by rintro _ (⟨⟨⟩⟩ | ⟨⟨⟩⟩)
      stopped := by rintro ⟨⟩ }
  | drains wake here pipe =>
    have flushed := awake.flushed
    rw [here] at flushed
    exact { awake with
      caughtUp := by rintro ⟨⟩
      waiting := fun _ => .inr (.inr rfl)
      crowded := fun _ => .inr rfl
      closing := fun _ => .inr rfl
      flushed := flushed
      silent := fun _ _ other => absurd rfl other
      unread := by rintro _ (⟨⟨⟩⟩ | ⟨⟨⟩⟩)
      stopped := by rintro ⟨⟩ }
  | dispatchedAgain here done =>
    exact { awake with
      caughtUp := fun _ => done
      waiting := fun _ => .inr (.inr rfl)
      crowded := fun _ => .inr rfl
      closing := fun _ => .inr rfl
      flushed := by rintro ⟨⟩
      silent := by rintro _ ⟨⟩
      unread := by rintro _ (⟨⟨⟩⟩ | ⟨⟨⟩⟩)
      stopped := by rintro ⟨⟩ }
  | runs command queue here first =>
    have looks : state.phase.looks = true := by rw [here]; rfl
    exact { awake with
      order := by
        rw [← awake.order, first]
        exact List.append_assoc ..
      waiting := fun _ => .inr (.inr looks)
      crowded := fun _ => .inr looks
      closing := fun _ => .inr looks
      flushed := fun flushed => by
        rw [here] at flushed
        cases flushed
      requested := by
        rw [← awake.requested]
        change (state.requested ++ (state.buffer ++ [Sum.inl command])).filterMap Sum.getLeft? = _
        rw [← List.append_assoc, List.filterMap_append]
        rfl
      silent := fun _ flushed => by
        rw [here] at flushed
        cases flushed
      stopped := fun ended => by
        rw [here] at ended
        cases ended }
  | ran here done going =>
    exact { awake with
      caughtUp := by rintro ⟨⟩
      waiting := fun some => absurd done some
      crowded := fun more => absurd more (by simp [done])
      closing := fun sender => by
        obtain idle | pushed := going
        · cases idle.symm.trans sender
        · cases pushed.symm.trans sender
      flushed := by rintro ⟨⟩
      silent := by rintro _ ⟨⟩
      unread := fun _ _ => awake.caughtUp (by rw [here]; rfl)
      stopped := by rintro ⟨⟩ }
  | stops here done gone =>
    exact { awake with
      caughtUp := by rintro ⟨⟩
      waiting := fun some => absurd done some
      crowded := fun _ => .inr rfl
      closing := fun _ => .inr rfl
      flushed := by rintro ⟨⟩
      silent := by rintro _ ⟨⟩
      unread := by rintro _ (⟨⟨⟩⟩ | ⟨⟨⟩⟩)
      stopped := fun _ => done }

/-- Neither the daemon nor the compositor forgets to leave word. A command and the end are each
followed by a byte in the pipe, and what the compositor sends waits on the socket. -/
theorem step_awake (finishes : Event → Bool) (left : List Event)
    (state next : Polling Command Event) (label : PollLabel Command Event)
    (awake : state.Awake left) (taken : step finishes state label = some next) :
    next.Awake left := by
  cases label with
  | thread failed count => exact awake.advanced (advance_cases finishes failed count state next taken)
  | send command =>
    rw [step] at taken
    split at taken
    case isFalse => cases taken
    case isTrue idle =>
      split at taken
      case isTrue =>
        cases taken
        exact awake
      case isFalse going =>
        cases taken
        exact { awake with
          order := by
            rw [← awake.order]
            exact (List.append_assoc ..).symm
          waiting := fun _ => .inr (.inl rfl)
          crowded := fun more => by
            have some : state.queue ≠ [] := by
              intro none
              rw [none] at more
              exact absurd more (lt_irrefl 1)
            obtain bytes | pushed | looks := awake.waiting some
            · exact .inl bytes
            · cases idle.symm.trans pushed
            · exact .inr looks
          closing := by rintro ⟨⟩
          stopped := fun ended => absurd (by rw [ended]; rfl) going }
  | wake =>
    rw [step] at taken
    split at taken
    case isFalse => cases taken
    case isTrue =>
      split at taken
      case h_1 =>
        cases taken
        exact { awake with
          waiting := fun _ => .inl (Nat.succ_pos _)
          crowded := fun _ => .inl (Nat.succ_pos _)
          closing := fun _ => .inl (Nat.succ_pos _) }
      case h_2 =>
        cases taken
        exact { awake with
          waiting := fun _ => .inl (Nat.succ_pos _)
          crowded := fun _ => .inl (Nat.succ_pos _)
          closing := fun _ => .inl (Nat.succ_pos _) }
      case h_3 => cases taken
  | close =>
    rw [step] at taken
    split at taken
    case isFalse => cases taken
    case isTrue idle =>
      cases taken
      exact { awake with
        waiting := fun some => by
          obtain bytes | pushed | looks := awake.waiting some
          · exact .inl bytes
          · cases idle.symm.trans pushed
          · exact .inr (.inr looks)
        closing := by rintro ⟨⟩ }
  | arrive event =>
    cases taken
    exact { awake with
      heard := by
        rw [← awake.heard]
        simp only [List.append_assoc] }

end Keeping

/-- The thread is in its poll, and nothing wakes it. -/
structure Asleep (state : Polling Command Event) : Prop where
  polling : state.phase = .polling
  unsaid : state.socket = []
  dry : state.pipe = 0

/-- However the daemon, the thread and the compositor interleave: while the thread sleeps, every
event there was has been handled, and every command has run and its requests were sent, in order,
save one whose byte is about to be written; a thread that is waited for does not sleep. What the
thread may owe the compositor are requests about events from before its loop, if there were any. -/
theorem sleeps_with_nothing_to_do (finishes : Event → Bool) (left : List Event)
    (labels : List (PollLabel Command Event)) (last : Polling Command Event)
    (reached : Runs.run (step finishes) (start left) labels = some last) (asleep : last.Asleep) :
    last.handled = last.arrived ∧ last.sender ≠ .joining ∧
      last.requested.filterMap Sum.getLeft? = last.ran ∧ (left = [] → last.buffer = []) ∧
      last.ran ++ last.queue = last.sent ∧ (last.sender ≠ .pushed → last.queue = []) ∧
      last.queue.length ≤ 1 := by
  have awake := Runs.run_invariant (step finishes) (Awake left)
    (fun state label next => step_awake finishes left state next label) _ last labels
    (start_awake left) reached
  have here := asleep.polling
  have caught := awake.caughtUp
  have waits := awake.waiting
  have crowds := awake.crowded
  have closes := awake.closing
  have flushed := awake.flushed
  have silent := awake.silent
  rw [here] at caught waits crowds closes flushed silent
  refine ⟨?_, ?_, ?_, fun nothing => silent nothing rfl PollPhase.noConfusion, awake.order, ?_, ?_⟩
  · have heard := awake.heard
    rwa [caught rfl, asleep.unsaid, List.append_nil, List.append_nil] at heard
  · intro joining
    obtain bytes | ⟨⟨⟩⟩ := closes joining
    rw [asleep.dry] at bytes
    exact absurd bytes (lt_irrefl 0)
  · have none : last.buffer.filterMap Sum.getLeft? = [] := by
      rw [List.filterMap_eq_nil_iff]
      intro request member
      cases request with
      | inl command => exact absurd member (flushed rfl command)
      | inr event => rfl
    have requested := awake.requested
    rwa [List.filterMap_append, none, List.append_nil] at requested
  · intro calm
    by_contra some
    obtain bytes | pushed | ⟨⟨⟩⟩ := waits some
    · rw [asleep.dry] at bytes
      exact absurd bytes (lt_irrefl 0)
    · exact calm pushed
  · by_contra many
    obtain bytes | ⟨⟨⟩⟩ := crowds (by omega)
    rw [asleep.dry] at bytes
    exact absurd bytes (lt_irrefl 0)

/-- How much is left to do before the loop ends that does not start over. -/
def work (state : Polling Command Event) : Nat :=
  state.phase.rank + state.read.length + state.socket.length + state.queue.length

section Ending
variable {finishes : Event → Bool} {left : List Event} {state next : Polling Command Event}

/-- A loop that does not start over gets closer to its end. Everything it does takes an event or a
command off a queue, or goes on to a later place in the body. -/
theorem advanced_works (awake : state.Awake left) (gone : state.sender = .joining)
    (advanced : Advanced finishes state next) :
    next.sender = .joining ∧ next.work + 1 ≤ state.work := by
  unfold work
  cases advanced with
  | failed going =>
    have some := PollPhase.rank_pos state.phase going
    refine ⟨gone, ?_⟩
    change 0 + state.read.length + state.socket.length + state.queue.length + 1 ≤ _
    omega
  | flushes here =>
    refine ⟨gone, ?_⟩
    simp only [here, PollPhase.rank]
    omega
  | handles event read here first =>
    refine ⟨gone, ?_⟩
    simp only [handle, first, List.length_cons]
    omega
  | dispatched here done =>
    refine ⟨gone, ?_⟩
    simp only [here, PollPhase.rank]
    omega
  | restarts here more => exact absurd (awake.caughtUp (by rw [here]; rfl)) more
  | prepared here done =>
    refine ⟨gone, ?_⟩
    simp only [here, PollPhase.rank]
    omega
  | wakes here connection wake =>
    refine ⟨gone, ?_⟩
    simp only [here, PollPhase.rank]
    omega
  | reads connection wake here count =>
    refine ⟨gone, ?_⟩
    simp only [here, PollPhase.rank, List.length_append, List.length_take, List.length_drop]
    omega
  | drains wake here pipe =>
    refine ⟨gone, ?_⟩
    simp only [here, PollPhase.rank]
    omega
  | dispatchedAgain here done =>
    refine ⟨gone, ?_⟩
    simp only [here, PollPhase.rank]
    omega
  | runs command queue here first =>
    refine ⟨gone, ?_⟩
    simp only [first, List.length_cons]
    omega
  | ran here done going =>
    obtain idle | pushed := going
    · cases idle.symm.trans gone
    · cases pushed.symm.trans gone
  | stops here done left =>
    refine ⟨gone, ?_⟩
    simp only [here, PollPhase.rank]
    omega

/-- A thread that is waited for is never stuck before its end. Wherever the body stands something
can be done: at the poll the byte that was left in the pipe wakes it. -/
theorem joining_goes_on (awake : state.Awake left) (gone : state.sender = .joining)
    (going : state.phase.isEnded = false) : ∃ next, advance finishes false 0 state = some next := by
  rw [advance]
  split
  case h_1 =>
    split
    · exact ⟨_, rfl⟩
    · exact ⟨_, rfl⟩
  case h_2 => split <;> exact ⟨_, rfl⟩
  case h_3 => exact ⟨_, rfl⟩
  case h_4 here =>
    have closes := awake.closing gone
    rw [here] at closes
    obtain bytes | ⟨⟨⟩⟩ := closes
    have wet : (state.pipe == 0) = false := by
      rw [beq_eq_false_iff_ne]
      exact bytes.ne'
    rw [wet, Bool.and_false]
    exact ⟨_, rfl⟩
  case h_5 => split <;> exact ⟨_, rfl⟩
  case h_6 => exact ⟨_, rfl⟩
  case h_7 => split <;> exact ⟨_, rfl⟩
  case h_8 =>
    split
    · exact ⟨_, rfl⟩
    · split <;> exact ⟨_, rfl⟩
  case h_9 here =>
    rw [here] at going
    cases going

end Ending

/-- The thread's own steps. -/
def isThread : PollLabel Command Event → Bool
  | .thread _ _ => true
  | _ => false

/-- The steps of anyone else. -/
def isOther (label : PollLabel Command Event) : Bool := !isThread label

/-- What is done while the daemon waits for the thread: the thread's steps, each of which uses up
some work, and what the compositor says, which adds to it. -/
theorem joining_works (finishes : Event → Bool) (left : List Event)
    (labels : List (PollLabel Command Event)) (state last : Polling Command Event)
    (awake : state.Awake left) (gone : state.sender = .joining)
    (reached : Runs.run (step finishes) state labels = some last) :
    last.Awake left ∧ last.sender = .joining ∧
      last.work + labels.countP isThread ≤ state.work + labels.countP isOther := by
  induction labels generalizing state with
  | nil =>
    obtain rfl : state = last := Option.some.inj reached
    exact ⟨awake, gone, le_rfl⟩
  | cons label labels inductionHypothesis =>
    obtain ⟨next, taken, rest⟩ := (Runs.run_cons_iff (step finishes) state last label labels).mp reached
    have kept := step_awake finishes left state next label awake taken
    cases label with
    | thread failed count =>
      obtain ⟨still, less⟩ := advanced_works awake gone
        (advance_cases finishes failed count state next taken)
      obtain ⟨held, joining, bound⟩ := inductionHypothesis next kept still rest
      refine ⟨held, joining, ?_⟩
      rw [List.countP_cons_of_pos rfl, List.countP_cons_of_neg Bool.false_ne_true]
      omega
    | arrive event =>
      cases taken
      obtain ⟨held, joining, bound⟩ := inductionHypothesis _ kept gone rest
      refine ⟨held, joining, ?_⟩
      have more : ({ state with
          arrived := state.arrived ++ [event]
          socket := state.socket ++ [event] } : Polling Command Event).work = state.work + 1 := by
        simp only [work, List.length_append, List.length_singleton]
        omega
      rw [List.countP_cons_of_neg Bool.false_ne_true, List.countP_cons_of_pos rfl]
      omega
    | send command =>
      rw [step, gone] at taken
      cases taken
    | close =>
      rw [step, gone] at taken
      cases taken
    | wake =>
      rw [step, gone] at taken
      split at taken <;> cases taken

/-- Dropping the backend ends: once the queue is closed and its byte is written, the thread goes
on until its loop is left, after no more steps than there was work and than the compositor says
things meanwhile, and unless it met an error it has run every command there was, in order. -/
theorem dropped_thread_ends (finishes : Event → Bool) (left : List Event)
    (early late : List (PollLabel Command Event)) (state last : Polling Command Event)
    (reached : Runs.run (step finishes) (start left) early = some state)
    (ran : Runs.run (step finishes) state late = some last) (gone : state.sender = .joining) :
    late.countP isThread ≤ state.work + late.countP isOther ∧
      ((∀ failed count, step finishes last (.thread failed count) = none) ↔
        last.phase.isEnded = true) ∧
      (last.phase = .ended true → last.ran = last.sent) := by
  have awake := Runs.run_invariant (step finishes) (Awake left)
    (fun state label next => step_awake finishes left state next label) _ state early
    (start_awake left) reached
  obtain ⟨kept, joining, bound⟩ := joining_works finishes left late state last awake gone ran
  refine ⟨by omega, ⟨?_, ?_⟩, ?_⟩
  · intro stuck
    by_contra going
    obtain ⟨next, taken⟩ : ∃ next, advance finishes false 0 last = some next :=
      joining_goes_on kept joining (Bool.eq_false_iff.mpr going)
    exact Option.some_ne_none next (taken.symm.trans (stuck false 0))
  · intro ended failed count
    cases phase : last.phase with
    | ended stopped =>
      rw [step, advance, phase]
    | _ =>
      rw [phase] at ended
      cases ended
  · intro ended
    have order := kept.order
    rwa [kept.stopped ended, List.append_nil] at order

/-- The thread goes on so many times, and nothing fails. -/
def goesOn (times : Nat) : List (PollLabel Nat Nat) := List.replicate times (.thread false 1)

/-- A command arrives while the thread sleeps, and another while it wakes up; the byte of the
second wakes it once more, beside an event. -/
def napping : List (PollLabel Nat Nat) :=
  goesOn 4 ++ [.send 1, .wake] ++ goesOn 1 ++ [.send 2] ++ goesOn 6 ++ [.wake, .arrive 5] ++
    goesOn 12

/-- Both commands have run by the time the thread sleeps again. -/
theorem sleeps_with_nothing_to_do_napping :
    ∃ last, Runs.run (step (fun _ => false)) (start [0]) napping = some last ∧
      last.sent = [1, 2] ∧ last.ran ++ last.queue = last.sent ∧ last.queue = [] ∧
        last.handled = last.arrived := by
  have observed : (Runs.run (step (fun _ => false)) (start [0]) napping).map (fun last =>
      decide (last.sent = [1, 2]) && decide (last.sender ≠ .pushed) &&
        decide (last.phase = .polling) && decide (last.socket = []) && decide (last.pipe = 0)) =
      some true := by
    decide +kernel
  obtain ⟨last, reached, holds⟩ := Option.map_eq_some_iff.mp observed
  simp only [Bool.and_eq_true, decide_eq_true_eq] at holds
  obtain ⟨⟨⟨⟨sent, calm⟩, polling⟩, unsaid⟩, dry⟩ := holds
  obtain ⟨handled, _, _, _, order, empty, _⟩ :=
    sleeps_with_nothing_to_do (fun _ => false) [0] napping last reached ⟨polling, unsaid, dry⟩
  exact ⟨last, reached, sent, order, empty calm, handled⟩

/-- A command is queued, and then the backend is dropped. -/
def dropping : List (PollLabel Nat Nat) := goesOn 3 ++ [.send 1, .wake, .close, .wake]

/-- The command runs before the thread ends. -/
theorem dropped_thread_ends_dropping :
    ∃ state last, Runs.run (step (fun _ => false)) (start []) dropping = some state ∧
      Runs.run (step (fun _ => false)) state (goesOn 6) = some last ∧ last.ran = last.sent ∧
        ∀ failed count, step (fun _ => false) last (.thread failed count) = none := by
  have observed : ((Runs.run (step (fun _ => false)) (start []) dropping).bind (fun state =>
      (Runs.run (step (fun _ => false)) state (goesOn 6)).map (fun last =>
        decide (state.sender = .joining) && decide (last.phase = .ended true)))) = some true := by
    decide +kernel
  obtain ⟨state, reached, ran⟩ := Option.bind_eq_some_iff.mp observed
  obtain ⟨last, ran, holds⟩ := Option.map_eq_some_iff.mp ran
  simp only [Bool.and_eq_true, decide_eq_true_eq] at holds
  obtain ⟨gone, ended⟩ := holds
  obtain ⟨_, ends, whole⟩ :=
    dropped_thread_ends (fun _ => false) [] dropping (goesOn 6) state last reached ran gone
  exact ⟨state, last, reached, ran, whole ended, ends.mpr (by rw [ended]; rfl)⟩

end Polling

end Yank.Wayland
