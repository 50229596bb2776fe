import Yank.Runs

/-!
# One connection between two machines

Two paired machines dial each other and settle on one connection. The one with the lower id
takes no other connection while its own dial is on the way, and keeps the one it dialed; the
other one takes whatever comes.

Connections are numbered by their dials. A side has a connection while it dials it, holds
it, has it in the queue of its task, or has it still coming to that queue; a side that lets
go of one has closed it, and the other side gets a notice. Notices, deliveries and dials take
any time they like and come in any order, and a connection may fail at any moment.
-/

namespace Yank

/-- The two machines of a pair. -/
inductive Side where
  | one
  | another
deriving DecidableEq

def Side.other : Side → Side
  | .one => .another
  | .another => .one

/-- The other side of the other side is this one. -/
@[simp] theorem Side.other_other (side : Side) : side.other.other = side := by
  cases side <;> rfl

/-- There are two sides. -/
theorem Side.other_ne (side : Side) : side.other ≠ side := by
  cases side <;> decide

/-- And no more than two. -/
theorem Side.eq_or_other (side known : Side) : side = known ∨ side = known.other := by
  cases side <;> cases known <;> simp [Side.other]

/-- How many connections wait in the queue of a peer task. -/
def inboundCapacity : Nat := 4

/-- Where a peer task is at. -/
inductive PeerPhase where
  /-- About to dial, without a delay. -/
  | starting
  | backoff
  | connecting (index : Nat)
  | connected (index : Nat) (outbound : Bool)
deriving DecidableEq

/-- The connection a phase is about. -/
def PeerPhase.index : PeerPhase → Option Nat
  | .connecting index => some index
  | .connected index _ => some index
  | _ => none

/-- A machine that dials is after the connection it dials. -/
@[simp] theorem PeerPhase.index_connecting (index : Nat) :
    (PeerPhase.connecting index).index = some index := rfl

/-- A connected one has its connection. -/
@[simp] theorem PeerPhase.index_connected (index : Nat) (outbound : Bool) :
    (PeerPhase.connected index outbound).index = some index := rfl

/-- What one side has of the other. -/
structure PeerSide where
  phase : PeerPhase
  /-- The queue of the task. -/
  inbound : List Nat
  /-- Connections the other side dialed that are not in the queue yet. -/
  coming : List Nat
deriving DecidableEq

/-- The connections a side has and did not let go of. -/
def PeerSide.handles (peer : PeerSide) : List Nat :=
  peer.phase.index.toList ++ peer.inbound ++ peer.coming

/-- Two machines and the connections between them. -/
structure Connections where
  /-- Who dialed each connection. -/
  dialers : List Side
  peers : Side → PeerSide
  /-- Closes on their way, each with the side it goes to. -/
  notices : List (Side × Nat)
  /-- Every close, with the side that closed. -/
  closed : List (Side × Nat)
  /-- Every connection closed as a duplicate, or dropped while it was dialed, with the one it
  was given up for. -/
  duplicates : List (Nat × Nat)

/-- What can happen next, and on which side. -/
inductive ConnectionLabel where
  /-- `establish` begins. -/
  | dial (side : Side)
  | dialed (side : Side)
  | dialFailed (side : Side)
  /-- A connection that was accepted reaches `route_inbound`. -/
  | route (side : Side) (index : Nat)
  /-- A connection is refused before that. -/
  | refuse (side : Side) (index : Nat)
  /-- A queued connection is taken instead of dialing. -/
  | adopt (side : Side)
  /-- A queued connection is taken while another one is served. -/
  | receive (side : Side)
  /-- A connection stalls or is lost; it is redialed at once when it was `stable`. -/
  | lose (side : Side) (stable : Bool)
  /-- A close of the other side arrives. -/
  | notice (side : Side) (index : Nat) (stable : Bool)
deriving DecidableEq

namespace Connections

/-- Machines that never connected yet. -/
def start : Connections where
  dialers := []
  peers _ := { phase := .starting, inbound := [], coming := [] }
  notices := []
  closed := []
  duplicates := []

/-- Changes what one side has. -/
def on (side : Side) (peer : PeerSide) (state : Connections) : Connections :=
  { state with peers := Function.update state.peers side peer }

/-- A side lets go of a connection, and the other is told. -/
def close (side : Side) (index : Nat) (state : Connections) : Connections :=
  { state with
    closed := (side, index) :: state.closed
    notices := (side.other, index) :: state.notices }

/-- The phase after a connection is over. -/
def afterwards (stable : Bool) : PeerPhase := if stable then .starting else .backoff

section Step
variable {Id : Type} [LinearOrder Id] (id : Side → Id)

/-- `establish`: the machine with the lower id prefers its own dial. -/
def prefersOwn (side : Side) : Bool := decide (id side < id side.other)

/-- The tie-break of `serve` when a connection comes while another one is served. -/
def tieBreak (side : Side) (index : Nat) (outbound : Bool) (new : Nat) (inbound : List Nat)
    (state : Connections) : Connections :=
  let peer := state.peers side
  if outbound && prefersOwn id side then
    let kept := (state.on side { peer with inbound }).close side new
    { kept with duplicates := (new, index) :: state.duplicates }
  else
    let taken := (state.on side { peer with phase := .connected new false, inbound }).close side index
    { taken with duplicates := (index, new) :: state.duplicates }

/-- One step; `none` when it cannot be taken. -/
def step (state : Connections) : ConnectionLabel → Option Connections
  | .dial side =>
      let begun : Connections :=
        let index := state.dialers.length
        let own := { state.peers side with phase := .connecting index }
        let other := { state.peers side.other with
          coming := (state.peers side.other).coming ++ [index] }
        { (state.on side own).on side.other other with dialers := state.dialers ++ [side] }
      match (state.peers side).phase with
      | .starting => some begun
      | .backoff => some begun
      | _ => none
  | .dialed side =>
      let peer := state.peers side
      match peer.phase with
      | .connecting index => some (state.on side { peer with phase := .connected index true })
      | _ => none
  | .dialFailed side =>
      let peer := state.peers side
      match peer.phase with
      | .connecting index => some ((state.on side { peer with phase := .backoff }).close side index)
      | _ => none
  | .route side index =>
      let peer := state.peers side
      if index ∈ peer.coming then
        if peer.inbound.length < inboundCapacity then
          some (state.on side { peer with
            inbound := peer.inbound ++ [index]
            coming := peer.coming.erase index })
        else some ((state.on side { peer with coming := peer.coming.erase index }).close side index)
      else none
  | .refuse side index =>
      let peer := state.peers side
      if index ∈ peer.coming then
        some ((state.on side { peer with coming := peer.coming.erase index }).close side index)
      else none
  | .adopt side =>
      let peer := state.peers side
      match peer.inbound, peer.phase with
      | new :: inbound, .backoff =>
          some (state.on side { peer with phase := .connected new false, inbound })
      | new :: inbound, .connecting index =>
          -- The dial that is dropped may have connected.
          if prefersOwn id side then none
          else
            let taken := (state.on side
              { peer with phase := .connected new false, inbound }).close side index
            some { taken with duplicates := (index, new) :: state.duplicates }
      | _, _ => none
  | .receive side =>
      let peer := state.peers side
      match peer.inbound, peer.phase with
      | new :: inbound, .connected index outbound =>
          some (tieBreak id side index outbound new inbound state)
      | _, _ => none
  | .lose side stable =>
      let peer := state.peers side
      match peer.phase with
      | .connected index _ =>
          some ((state.on side { peer with phase := afterwards stable }).close side index)
      | _ => none
  | .notice side index stable =>
      let peer := state.peers side
      if (side, index) ∈ state.notices then
        let heard := { state with notices := state.notices.erase (side, index) }
        if peer.phase.index = some index then
          match peer.phase with
          | .connected _ _ =>
              some ((heard.on side { peer with phase := afterwards stable }).close side index)
          | _ => none
        -- A connection that is not served yet ends as soon as it is.
        else if index ∈ peer.inbound ++ peer.coming then none
        else some heard
      else none

end Step

/-- A side goes on to where it is told to. -/
@[simp] theorem on_self (side : Side) (peer : PeerSide) (state : Connections) :
    (state.on side peer).peers side = peer := by
  simp [on]

/-- The other side stays where it is. -/
@[simp] theorem on_other (side : Side) (peer : PeerSide) (state : Connections) :
    (state.on side peer).peers side.other = state.peers side.other := by
  simp [on, Function.update_of_ne side.other_ne]

/-- A side that went on stays there while the other goes on. -/
@[simp] theorem on_before (side : Side) (peer other : PeerSide) (state : Connections) :
    ((state.on side peer).on side.other other).peers side = peer := by
  simp [on, Function.update_of_ne side.other_ne.symm]

/-- What one side has, told apart by who dialed it: each connection once, none that it
closed, and in the queue only what the other side dialed. -/
structure Kept (dialers : List Side) (closed : List (Side × Nat)) (side : Side)
    (peer : PeerSide) : Prop where
  once : peer.handles.Nodup
  dialed : ∀ index ∈ peer.handles, index < dialers.length
  unclosed : ∀ index ∈ peer.handles, (side, index) ∉ closed
  theirs : ∀ index ∈ peer.inbound ++ peer.coming, dialers[index]? = some side.other
  own : ∀ index, peer.phase = .connecting index → dialers[index]? = some side
  held : ∀ index outbound, peer.phase = .connected index outbound →
    dialers[index]? = some (if outbound then side else side.other)

/-- Whatever one side has, the other has too, or a notice that it has not is on its way. -/
def Answered (state : Connections) : Prop :=
  ∀ side, ∀ index ∈ (state.peers side).handles,
    index ∈ (state.peers side.other).handles ∨ (side, index) ∈ state.notices

section Sound
variable {Id : Type} [LinearOrder Id] (id : Side → Id)

/-- A connection dialed by the machine with the lower id was closed in favour of one dialed
by the other. -/
def Lost (dialers : List Side) (duplicate : Nat × Nat) : Prop :=
  ∃ side, dialers[duplicate.1]? = some side ∧ dialers[duplicate.2]? = some side.other ∧
    id side < id side.other

/-- What every reachable state keeps. -/
structure Sound (state : Connections) : Prop where
  sides : ∀ side, Kept state.dialers state.closed side (state.peers side)
  answered : state.Answered
  past : ∀ close ∈ state.closed, close.2 < state.dialers.length
  known : ∀ duplicate ∈ state.duplicates,
    duplicate.1 < state.dialers.length ∧ duplicate.2 < state.dialers.length
  unlost : ∀ duplicate ∈ state.duplicates, ¬ Lost id state.dialers duplicate

variable {id} {state : Connections}

/-- A side that only moves its connections about. Its handles are the same up to their order, so
what they promise is promised of the new places. -/
theorem Sound.moves (sound : Sound id state) (side : Side) (peer : PeerSide)
    (same : (state.peers side).handles.Perm peer.handles)
    (theirs : ∀ index ∈ peer.inbound ++ peer.coming, state.dialers[index]? = some side.other)
    (own : ∀ index, peer.phase = .connecting index → state.dialers[index]? = some side)
    (held : ∀ index outbound, peer.phase = .connected index outbound →
      state.dialers[index]? = some (if outbound then side else side.other)) :
    Sound id (state.on side peer) where
  sides other := by
    have before := sound.sides side
    obtain rfl | rfl := other.eq_or_other side
    · rw [on_self]
      exact ⟨same.nodup_iff.mp before.once,
        fun index member => before.dialed index (same.mem_iff.mpr member),
        fun index member => before.unclosed index (same.mem_iff.mpr member), theirs, own, held⟩
    · rw [on_other]
      exact sound.sides side.other
  answered other index member := by
    obtain rfl | rfl := other.eq_or_other side
    · rw [on_self] at member
      rw [on_other]
      exact sound.answered other index (same.mem_iff.mpr member)
    · rw [on_other] at member
      have answered := sound.answered side.other index member
      rw [Side.other_other] at answered ⊢
      rw [on_self, ← same.mem_iff]
      exact answered
  past := sound.past
  known := sound.known
  unlost := sound.unlost

/-- A side that lets go of one connection. The connection leaves the handles of that side and is
noted as closed there; nothing of the other side changes. -/
theorem Sound.releases (sound : Sound id state) (side : Side) (peer : PeerSide) (gone : Nat)
    (same : (state.peers side).handles.Perm (gone :: peer.handles))
    (theirs : ∀ index ∈ peer.inbound ++ peer.coming, state.dialers[index]? = some side.other)
    (own : ∀ index, peer.phase = .connecting index → state.dialers[index]? = some side)
    (held : ∀ index outbound, peer.phase = .connected index outbound →
      state.dialers[index]? = some (if outbound then side else side.other)) :
    Sound id ((state.on side peer).close side gone) where
  sides other := by
    have before := sound.sides side
    have apart := List.nodup_cons.mp (same.nodup_iff.mp before.once)
    obtain rfl | rfl := other.eq_or_other side
    · change Kept _ _ other ((state.on other peer).peers other)
      rw [on_self]
      refine ⟨apart.2, fun index member =>
        before.dialed index (same.mem_iff.mpr (List.mem_cons_of_mem _ member)), ?_, theirs, own,
        held⟩
      intro index member closed
      obtain again | earlier := List.mem_cons.mp closed
      · obtain ⟨_, rfl⟩ := Prod.mk.inj again
        exact apart.1 member
      · exact before.unclosed index (same.mem_iff.mpr (List.mem_cons_of_mem _ member)) earlier
    · change Kept _ _ side.other ((state.on side peer).peers side.other)
      rw [on_other]
      have kept := sound.sides side.other
      refine ⟨kept.once, kept.dialed, ?_, kept.theirs, kept.own, kept.held⟩
      intro index member closed
      obtain again | earlier := List.mem_cons.mp closed
      · exact side.other_ne (Prod.mk.inj again).1
      · exact kept.unclosed index member earlier
  answered other index member := by
    change index ∈ ((state.on side peer).peers other).handles at member
    change index ∈ ((state.on side peer).peers other.other).handles ∨
      (other, index) ∈ (side.other, gone) :: state.notices
    obtain rfl | rfl := other.eq_or_other side
    · rw [on_self] at member
      rw [on_other]
      have had := same.mem_iff.mpr (List.mem_cons_of_mem _ member)
      exact (sound.answered other index had).imp_right (List.mem_cons_of_mem _)
    · rw [on_other] at member
      rw [Side.other_other, on_self]
      obtain had | told := sound.answered side.other index member
      · rw [Side.other_other, same.mem_iff, List.mem_cons] at had
        obtain rfl | kept := had
        · exact Or.inr List.mem_cons_self
        · exact Or.inl kept
      · exact Or.inr (List.mem_cons_of_mem _ told)
  past := List.forall_mem_cons.mpr
    ⟨(sound.sides side).dialed gone (same.mem_iff.mpr List.mem_cons_self), sound.past⟩
  known := sound.known
  unlost := sound.unlost

/-- A notice for a connection that a side no longer has says nothing new. -/
theorem Sound.hears (sound : Sound id state) (side : Side) (index : Nat)
    (gone : index ∉ (state.peers side).handles) :
    Sound id { state with notices := state.notices.erase (side, index) } where
  sides := sound.sides
  answered other heard member := by
    refine (sound.answered other heard member).imp_right ?_
    intro told
    refine (List.mem_erase_of_ne ?_).mpr told
    intro same
    obtain ⟨rfl, rfl⟩ := Prod.mk.inj same
    exact gone member
  past := sound.past
  known := sound.known
  unlost := sound.unlost

/-- A connection closed in favour of another. -/
theorem Sound.decides (sound : Sound id state) (gone kept : Nat)
    (goneDialed : gone < state.dialers.length) (keptDialed : kept < state.dialers.length)
    (fair : ¬ Lost id state.dialers (gone, kept)) :
    Sound id { state with duplicates := (gone, kept) :: state.duplicates } where
  sides := sound.sides
  answered := sound.answered
  past := sound.past
  known := List.forall_mem_cons.mpr ⟨⟨goneDialed, keptDialed⟩, sound.known⟩
  unlost := List.forall_mem_cons.mpr ⟨fair, sound.unlost⟩

/-- Connections dialed before are known by the same dialer after another dial. -/
theorem dialer_before (dialers : List Side) (side : Side) (index : Nat)
    (before : index < dialers.length) : (dialers ++ [side])[index]? = dialers[index]? :=
  List.getElem?_append_left before

/-- Another dial leaves what a side has. The numbers of earlier dials stay what they are, and the
new one is past them all. -/
theorem Kept.grows {dialers : List Side} {closed : List (Side × Nat)} {side : Side}
    {peer : PeerSide} (kept : Kept dialers closed side peer) (dialer : Side) :
    Kept (dialers ++ [dialer]) closed side peer where
  once := kept.once
  dialed index member := by
    have before := kept.dialed index member
    simp
    omega
  unclosed := kept.unclosed
  theirs index member := by
    have before : index ∈ peer.handles := by
      simp only [PeerSide.handles, List.append_assoc]
      exact List.mem_append_right _ member
    rw [dialer_before dialers dialer index (kept.dialed index before)]
    exact kept.theirs index member
  own index isPhase := by
    have before : index ∈ peer.handles := by simp [PeerSide.handles, isPhase]
    rw [dialer_before dialers dialer index (kept.dialed index before)]
    exact kept.own index isPhase
  held index outbound isPhase := by
    have before : index ∈ peer.handles := by simp [PeerSide.handles, isPhase]
    rw [dialer_before dialers dialer index (kept.dialed index before)]
    exact kept.held index outbound isPhase

/-- A new connection is one that a side had not, and had not closed. Its number is the one past
all dials, so it is among no handles and no closed ones. -/
theorem Kept.gains {dialers : List Side} {closed : List (Side × Nat)} {side : Side}
    {before after : PeerSide} (kept : Kept dialers closed side before) (dialer : Side)
    (past : ∀ close ∈ closed, close.2 < dialers.length)
    (same : after.handles.Perm (dialers.length :: before.handles))
    (theirs : ∀ index ∈ after.inbound ++ after.coming,
      (dialers ++ [dialer])[index]? = some side.other)
    (own : ∀ index, after.phase = .connecting index →
      (dialers ++ [dialer])[index]? = some side)
    (held : ∀ index outbound, after.phase = .connected index outbound →
      (dialers ++ [dialer])[index]? = some (if outbound then side else side.other)) :
    Kept (dialers ++ [dialer]) closed side after where
  once := by
    refine same.nodup_iff.mpr (List.nodup_cons.mpr ⟨?_, kept.once⟩)
    intro member
    exact lt_irrefl _ (kept.dialed _ member)
  dialed index member := by
    simp only [List.length_append, List.length_singleton]
    obtain rfl | earlier := List.mem_cons.mp (same.mem_iff.mp member)
    · omega
    · have before := kept.dialed index earlier
      omega
  unclosed index member closes := by
    obtain rfl | earlier := List.mem_cons.mp (same.mem_iff.mp member)
    · exact lt_irrefl _ (past _ closes)
    · exact kept.unclosed index earlier closes
  theirs := theirs
  own := own
  held := held

/-- A side that dials, and the other to which the new connection comes. The new connection gets
the next index, which neither side holds yet, so whatever the two sides held stays apart from it.
-/
theorem Sound.dials (sound : Sound id state) (side : Side)
    (idle : (state.peers side).phase.index = none) :
    Sound id { (state.on side { state.peers side with
          phase := .connecting state.dialers.length }).on side.other
        { state.peers side.other with
          coming := (state.peers side.other).coming ++ [state.dialers.length] } with
      dialers := state.dialers ++ [side] } where
  sides other := by
    have last : (state.dialers ++ [side])[state.dialers.length]? = some side := by simp
    obtain rfl | rfl := other.eq_or_other side
    · have kept := sound.sides other
      have grown := kept.grows other
      change Kept _ _ other (((state.on other _).on other.other _).peers other)
      rw [on_before]
      refine kept.gains other sound.past ?_ grown.theirs ?_ ?_
      · simp [PeerSide.handles, idle]
      · intro index isPhase
        obtain rfl := PeerPhase.connecting.inj isPhase
        exact last
      · intro index outbound impossible
        cases impossible
    · have kept := sound.sides side.other
      have grown := kept.grows side
      change Kept _ _ side.other (((state.on side _).on side.other _).peers side.other)
      rw [on_self]
      refine kept.gains side sound.past ?_ ?_ grown.own grown.held
      · simpa [PeerSide.handles] using
          List.perm_append_singleton state.dialers.length (state.peers side.other).handles
      · intro index member
        rw [← List.append_assoc] at member
        obtain before | isNew := List.mem_append.mp member
        · exact grown.theirs index before
        · obtain rfl := List.mem_singleton.mp isNew
          rw [Side.other_other]
          exact last
  answered other index member := by
    change index ∈ (((state.on side _).on side.other _).peers other).handles at member
    change index ∈ (((state.on side _).on side.other _).peers other.other).handles ∨ _
    obtain rfl | rfl := other.eq_or_other side
    · rw [on_before] at member
      rw [on_self]
      have either : index = state.dialers.length ∨ index ∈ (state.peers other).handles := by
        simpa [PeerSide.handles, idle] using member
      obtain rfl | before := either
      · left
        simp [PeerSide.handles]
      · refine (sound.answered other index before).imp_left ?_
        intro had
        simp only [PeerSide.handles, ← List.append_assoc] at had ⊢
        exact List.mem_append_left _ had
    · rw [on_self] at member
      rw [Side.other_other, on_before]
      have either : index ∈ (state.peers side.other).handles ∨ index = state.dialers.length := by
        simpa [PeerSide.handles, ← List.append_assoc, or_assoc] using member
      obtain before | rfl := either
      · have answered := sound.answered side.other index before
        rw [Side.other_other] at answered
        refine answered.imp_left ?_
        intro had
        have kept : index ∈ (state.peers side).inbound ++ (state.peers side).coming := by
          simpa [PeerSide.handles, idle] using had
        simp only [PeerSide.handles, List.append_assoc]
        exact List.mem_append_right _ kept
      · left
        simp [PeerSide.handles]
  past close member := by
    have before := sound.past close member
    simp
    omega
  known duplicate member := by
    have before := sound.known duplicate member
    simp
    omega
  unlost duplicate member := by
    obtain ⟨gone, kept⟩ := sound.known duplicate member
    have fair := sound.unlost duplicate member
    simpa only [Lost, dialer_before _ side _ gone, dialer_before _ side _ kept] using fair

/-- The handles of a side, phase first. -/
theorem handles_of_index (peer : PeerSide) (index : Nat) (isIndex : peer.phase.index = some index) :
    peer.handles = index :: (peer.inbound ++ peer.coming) := by
  simp [PeerSide.handles, isIndex]

/-- A side after no connection has what came in, and what is coming. -/
theorem handles_of_idle (peer : PeerSide) (idle : peer.phase.index = none) :
    peer.handles = peer.inbound ++ peer.coming := by
  simp [PeerSide.handles, idle]

/-- One connection less is coming. -/
theorem handles_uncoming (peer : PeerSide) (index : Nat) (comes : index ∈ peer.coming) :
    peer.handles.Perm
      (index :: ({ peer with coming := peer.coming.erase index } : PeerSide).handles) := by
  have apart := List.perm_cons_erase comes
  simp only [PeerSide.handles]
  exact (apart.append_left _).trans List.perm_middle

/-- Whoever lost a connection is after none. -/
theorem afterwards_index (stable : Bool) : (afterwards stable).index = none := by
  cases stable <;> rfl

/-- A side whose task begins anew lets go of its connection. -/
theorem Sound.ends (sound : Sound id state) (side : Side) (index : Nat) (next : PeerPhase)
    (isIndex : (state.peers side).phase.index = some index) (idle : next.index = none) :
    Sound id ((state.on side { state.peers side with phase := next }).close side index) := by
  have kept := sound.sides side
  refine sound.releases side _ index ?_ kept.theirs ?_ ?_
  · rw [handles_of_index _ index isIndex, handles_of_idle _ idle]
  · intro other isPhase
    have same : next = .connecting other := isPhase
    rw [same] at idle
    cases idle
  · intro other outbound isPhase
    have same : next = .connected other outbound := isPhase
    rw [same] at idle
    cases idle

/-- The head of the queue was dialed by the other side. -/
theorem Kept.inbound_head {dialers : List Side} {closed : List (Side × Nat)} {side : Side}
    {peer : PeerSide} (kept : Kept dialers closed side peer) (new : Nat) (inbound : List Nat)
    (queue : peer.inbound = new :: inbound) :
    dialers[new]? = some side.other ∧
      ∀ index ∈ inbound ++ peer.coming, dialers[index]? = some side.other := by
  refine ⟨kept.theirs new (by simp [queue]), ?_⟩
  intro index member
  refine kept.theirs index ?_
  rw [queue, List.cons_append]
  exact List.mem_cons_of_mem _ member

/-- A connection given up for one the other side dialed is no loss: the other side dialed it
as well, or this side has the higher id. -/
theorem yielded_unlost (dialers : List Side) (side : Side) (gone kept : Nat)
    (theirs : dialers[kept]? = some side.other)
    (yields : dialers[gone]? = some side → ¬ prefersOwn id side = true) :
    ¬ Lost id dialers (gone, kept) := by
  rintro ⟨dialer, isDialer, isOther, lower⟩
  obtain same : side.other = dialer.other := Option.some.inj (theirs.symm.trans isOther)
  obtain rfl : side = dialer := by
    rw [← side.other_other, same, dialer.other_other]
  exact yields isDialer (by simpa [prefersOwn] using lower)

/-- The tie-break lets go of one connection, and never of one dialed by the lower id for one
dialed by the other. -/
theorem Sound.tieBreak (sound : Sound id state) (side : Side) (index new : Nat) (outbound : Bool)
    (inbound : List Nat) (isPhase : (state.peers side).phase = .connected index outbound)
    (queue : (state.peers side).inbound = new :: inbound) :
    Sound id (tieBreak id side index outbound new inbound state) := by
  have kept := sound.sides side
  have heldBy := kept.held index outbound isPhase
  obtain ⟨newBy, theirs⟩ := kept.inbound_head new inbound queue
  have handles : (state.peers side).handles =
      index :: (new :: (inbound ++ (state.peers side).coming)) := by
    rw [handles_of_index _ index (by rw [isPhase]; rfl), queue]
    rfl
  have indexDialed : index < state.dialers.length := kept.dialed index (by simp [handles])
  have newDialed : new < state.dialers.length := kept.dialed new (by simp [handles])
  unfold Connections.tieBreak
  dsimp only
  split
  · rename_i keeps
    simp only [prefersOwn, Bool.and_eq_true, decide_eq_true_eq] at keeps
    have released := sound.releases side { state.peers side with inbound } new ?_ theirs kept.own
      kept.held
    refine released.decides new index newDialed indexDialed ?_
    case refine_1 =>
      rw [handles, handles_of_index _ index (by rw [isPhase]; rfl)]
      exact List.Perm.swap _ _ _
    · rintro ⟨dialer, isDialer, _, lower⟩
      obtain rfl : side.other = dialer := Option.some.inj (newBy.symm.trans isDialer)
      rw [Side.other_other] at lower
      exact lt_asymm lower keeps.2
  · rename_i takes
    refine Sound.decides (sound.releases side _ index ?_ theirs ?_ ?_) index new
      indexDialed newDialed ?_
    · rw [handles, handles_of_index _ new rfl]
    · intro other impossible
      cases impossible
    · intro other back isOther
      obtain ⟨rfl, rfl⟩ := PeerPhase.connected.inj isOther
      exact newBy
    · refine yielded_unlost state.dialers side index new newBy fun ours => ?_
      cases outbound with
      | true => simpa using takes
      | false => exact absurd (Option.some.inj (heldBy.symm.trans ours)) side.other_ne

/-- Every step keeps a sound state sound. One case for each label, by the phase the side is in: it
takes a connection in, lets one go, or moves one from one place of the side to another. -/
theorem step_sound (state next : Connections) (label : ConnectionLabel)
    (sound : Sound id state) (taken : step id state label = some next) : Sound id next := by
  cases label with
  | dial side =>
    have kept := sound.dials side
    cases phase : (state.peers side).phase with
    | starting | backoff =>
      simp only [step, phase, Option.some.injEq] at taken
      subst taken
      exact sound.dials side (by rw [phase]; rfl)
    | _ => simp [step, phase] at taken
  | dialed side =>
    have kept := sound.sides side
    cases phase : (state.peers side).phase with
    | connecting index =>
      simp only [step, phase, Option.some.injEq] at taken
      subst taken
      refine sound.moves side _ ?_ kept.theirs ?_ ?_
      · rw [handles_of_index _ index (by rw [phase]; rfl), handles_of_index _ index rfl]
      · intro other impossible
        cases impossible
      · intro other outbound isOther
        obtain ⟨rfl, rfl⟩ := PeerPhase.connected.inj isOther
        exact kept.own index phase
    | _ => simp [step, phase] at taken
  | dialFailed side =>
    cases phase : (state.peers side).phase with
    | connecting index =>
      simp only [step, phase, Option.some.injEq] at taken
      subst taken
      exact sound.ends side index .backoff (by rw [phase]; rfl) rfl
    | _ => simp [step, phase] at taken
  | route side index =>
    have kept := sound.sides side
    simp only [step, Option.ite_none_right_eq_some] at taken
    obtain ⟨comes, taken⟩ := taken
    obtain ⟨queued, coming⟩ := List.forall_mem_append.mp kept.theirs
    have fewer : ∀ other ∈ (state.peers side).coming.erase index,
        state.dialers[other]? = some side.other := fun other member =>
      coming other (List.mem_of_mem_erase member)
    split at taken
    · obtain rfl := Option.some.inj taken
      refine sound.moves side _ ?_ ?_ kept.own kept.held
      · refine (handles_uncoming _ index comes).trans ?_
        simp only [PeerSide.handles, List.append_assoc, List.singleton_append]
        exact (List.perm_middle.symm.trans (List.Perm.append_left _ List.perm_middle.symm))
      · intro other member
        rw [List.append_assoc] at member
        obtain queued | comesOrLast := List.mem_append.mp member
        · exact kept.theirs other (List.mem_append_left _ queued)
        · obtain rfl | comes' := List.mem_cons.mp comesOrLast
          · exact kept.theirs other (List.mem_append_right _ comes)
          · exact fewer other comes'
    · obtain rfl := Option.some.inj taken
      exact sound.releases side _ index (handles_uncoming _ index comes)
        (List.forall_mem_append.mpr ⟨queued, fewer⟩) kept.own kept.held
  | refuse side index =>
    have kept := sound.sides side
    simp only [step, Option.ite_none_right_eq_some, Option.some.injEq] at taken
    obtain ⟨comes, rfl⟩ := taken
    obtain ⟨queued, coming⟩ := List.forall_mem_append.mp kept.theirs
    exact sound.releases side _ index (handles_uncoming _ index comes)
      (List.forall_mem_append.mpr
        ⟨queued, fun other member => coming other (List.mem_of_mem_erase member)⟩)
      kept.own kept.held
  | adopt side =>
    have kept := sound.sides side
    cases queue : (state.peers side).inbound with
    | nil => simp [step, queue] at taken
    | cons new inbound =>
      obtain ⟨newBy, theirs⟩ := kept.inbound_head new inbound queue
      have adopted : ∀ other outbound, PeerPhase.connected new false = .connected other outbound →
          state.dialers[other]? = some (if outbound then side else side.other) := by
        intro other outbound isOther
        obtain ⟨rfl, rfl⟩ := PeerPhase.connected.inj isOther
        exact newBy
      cases phase : (state.peers side).phase with
      | backoff =>
        simp only [step, queue, phase, Option.some.injEq] at taken
        subst taken
        refine sound.moves side _ ?_ theirs (fun _ impossible => nomatch impossible) adopted
        rw [handles_of_idle _ (by rw [phase]; rfl), queue, handles_of_index _ new rfl]
        exact List.Perm.refl _
      | connecting index =>
        simp only [step, queue, phase, Option.ite_none_left_eq_some, Option.some.injEq] at taken
        obtain ⟨yields, rfl⟩ := taken
        have handles : (state.peers side).handles =
            index :: (new :: (inbound ++ (state.peers side).coming)) := by
          rw [handles_of_index _ index (by rw [phase]; rfl), queue]
          rfl
        refine Sound.decides (sound.releases side _ index ?_ theirs
          (fun _ impossible => by cases impossible) adopted) index new
          (kept.dialed index (by simp [handles])) (kept.dialed new (by simp [handles])) ?_
        · rw [handles, handles_of_index _ new rfl]
        · exact yielded_unlost state.dialers side index new newBy fun _ => yields
      | _ => simp [step, queue, phase] at taken
  | receive side =>
    cases queue : (state.peers side).inbound with
    | nil => simp [step, queue] at taken
    | cons new inbound =>
      cases phase : (state.peers side).phase with
      | connected index outbound =>
        simp only [step, queue, phase, Option.some.injEq] at taken
        subst taken
        exact sound.tieBreak side index new outbound inbound phase queue
      | _ => simp [step, queue, phase] at taken
  | lose side stable =>
    cases phase : (state.peers side).phase with
    | connected index outbound =>
      simp only [step, phase, Option.some.injEq] at taken
      subst taken
      exact sound.ends side index _ (by rw [phase]; rfl) (afterwards_index stable)
    | _ => simp [step, phase] at taken
  | notice side index stable =>
    simp only [step, Option.ite_none_right_eq_some] at taken
    obtain ⟨told, taken⟩ := taken
    split at taken
    · rename_i isIndex
      cases phase : (state.peers side).phase with
      | connected held outbound =>
        simp only [phase, Option.some.injEq] at taken
        subst taken
        have ended := sound.ends side index (afterwards stable) isIndex (afterwards_index stable)
        have gone : index ∉ (((state.on side { state.peers side with
            phase := afterwards stable }).close side index).peers side).handles := by
          change index ∉ ((state.on side _).peers side).handles
          have once := (sound.sides side).once
          rw [handles_of_index _ index isIndex] at once
          rw [on_self, handles_of_idle _ (afterwards_index stable)]
          exact (List.nodup_cons.mp once).1
        have heard := ended.hears side index gone
        have apart : ¬ ((side.other, index) == (side, index)) = true := by
          simp [side.other_ne]
        simpa only [close, on, List.erase_cons_tail apart] using heard
      | _ => simp [phase] at taken
    · rename_i elsewhere
      split at taken
      · cases taken
      · rename_i unqueued
        obtain rfl := Option.some.inj taken
        refine sound.hears side index ?_
        intro member
        simp only [PeerSide.handles, List.append_assoc] at member
        obtain inPhase | queued := List.mem_append.mp member
        · exact elsewhere (Option.mem_toList.mp inPhase)
        · exact unqueued queued

/-- Nobody dialed yet. -/
theorem start_sound : Sound id start where
  sides side := ⟨by simp [start, PeerSide.handles, PeerPhase.index],
    by simp [start, PeerSide.handles, PeerPhase.index], by simp [start], by simp [start],
    by simp [start], by simp [start]⟩
  answered side index member := by simp [start, PeerSide.handles, PeerPhase.index] at member
  past := by simp [start]
  known := by simp [start]
  unlost := by simp [start]

/-- Nothing is under way: no dial, no delivery and no close, and both queues are empty. -/
structure Quiescent (state : Connections) : Prop where
  undialed : ∀ side index, (state.peers side).phase ≠ .connecting index
  delivered : ∀ side, (state.peers side).coming = []
  taken : ∀ side, (state.peers side).inbound = []
  told : state.notices = []

/-- Two machines settle on one connection. In every run no connection dialed by the machine
with the lower id is closed as a duplicate, or dropped while it is dialed, in favour of one
the other machine dialed; and whenever nothing is under way and both sides are connected, they
are on the same connection and neither side has closed it. -/
theorem one_connection_survives (id : Side → Id) (labels : List ConnectionLabel)
    (state : Connections) (reached : Runs.run (step id) start labels = some state) :
    (∀ gone kept side, (gone, kept) ∈ state.duplicates → id side < id side.other →
      ¬ (state.dialers[gone]? = some side ∧ state.dialers[kept]? = some side.other)) ∧
    ∀ side index other outbound back, state.Quiescent →
      (state.peers side).phase = .connected index outbound →
      (state.peers side.other).phase = .connected other back →
      index = other ∧ ∀ closer, (closer, index) ∉ state.closed := by
  have sound : Sound id state := Runs.run_invariant (step id) (Sound id)
    (fun state label next sound taken => step_sound state next label sound taken) _ _ _
    start_sound reached
  refine ⟨?_, ?_⟩
  · intro gone kept side closed lower swapped
    exact sound.unlost (gone, kept) closed ⟨side, swapped.1, swapped.2, lower⟩
  · intro side index other outbound back quiescent here there
    have ours : index ∈ (state.peers side).handles := by simp [PeerSide.handles, here]
    have theirs : index ∈ (state.peers side.other).handles := by
      obtain had | told := sound.answered side index ours
      · exact had
      · rw [quiescent.told] at told
        cases told
    have same : index = other := by
      simpa [PeerSide.handles, there, quiescent.taken, quiescent.delivered, eq_comm] using theirs
    refine ⟨same, ?_⟩
    intro closer
    obtain rfl | rfl := closer.eq_or_other side
    · exact (sound.sides closer).unclosed index ours
    · exact (sound.sides side.other).unclosed index theirs

/-- Both machines dial at once, and the one with the higher id connects first. -/
def mutualDials : List ConnectionLabel :=
  [.dial .one, .dial .another, .route .one 1, .dialed .another, .dialed .one, .receive .one,
    .notice .another 1 false, .route .another 0, .adopt .another, .notice .one 1 false]

/-- They end on the connection the machine with the lower id dialed. The dial of the other machine
is the one that is given up. -/
theorem one_connection_survives_mutual_dials :
    ∃ state, Runs.run (step (fun side => if side = .one then 1 else 2)) start mutualDials =
        some state ∧
      state.duplicates = [(1, 0)] ∧ (state.peers .one).phase = .connected 0 true ∧
      (state.peers .another).phase = .connected 0 false ∧ ∀ closer, (closer, 0) ∉ state.closed := by
  have observed :
      (Runs.run (step (fun side => if side = .one then 1 else 2)) start mutualDials).map
        (fun state => decide (state.duplicates = [(1, 0)]) &&
          decide (state.peers .one = { phase := .connected 0 true, inbound := [], coming := [] }) &&
          decide (state.peers .another =
            { phase := .connected 0 false, inbound := [], coming := [] }) &&
          decide (state.notices = [])) = some true := by
    decide
  obtain ⟨state, reached, holds⟩ := Option.map_eq_some_iff.mp observed
  simp only [Bool.and_eq_true, decide_eq_true_eq] at holds
  obtain ⟨⟨⟨duplicates, one⟩, another⟩, told⟩ := holds
  have quiescent : state.Quiescent := by
    refine ⟨?_, ?_, ?_, told⟩
    · intro side
      cases side <;> simp [one, another]
    · intro side
      cases side <;> simp [one, another]
    · intro side
      cases side <;> simp [one, another]
  have survives := one_connection_survives (fun side => if side = .one then 1 else 2) mutualDials
    state reached
  refine ⟨state, reached, duplicates, by rw [one], by rw [another], ?_⟩
  exact (survives.2 .one 0 0 true false quiescent (by rw [one]) (by simp [Side.other, another])).2

end Sound

end Connections

end Yank
