import Yank.Containment
import Yank.Removal

/-!
# Gossip comes to rest

Every connection has a sender that watches the mesh state and sends it whenever it changed;
what arrives is queued and merged one at a time, and a merge that changes nothing wakes no
sender. Connections come and go, messages get lost, and every so often a sender sends again
though nothing changed.

Left to itself the gossip stops. Merging makes no record, so a machine can only go up through
records that somebody already has, and every message but the first of a connection is owed to
such a change.

Where it stops, everybody was told. A sender that has nothing to send has its state on the way
or taken in by the other side, as long as nothing was lost since it last had something to send.
-/

namespace Yank

/-- Mesh states from peers waiting to be merged. -/
def gossipQueue : Nat := 16

/-- The machines, the connections between them and what is on its way. -/
structure Spreading (Id : Type) [LinearOrder Id] where
  /-- What each machine holds, for its senders to watch. -/
  states : Id → MeshState Id
  /-- Which machine runs a sender to which. -/
  connected : Id → Id → Bool
  /-- Whether the sender has a state it did not send yet. -/
  unsent : Id → Id → Bool
  /-- The mesh states on the streams, with the machine each goes to. -/
  flight : List (Id × MeshState Id)
  /-- What waits to be merged. -/
  queues : Id → List (MeshState Id)

/-- What happens to the gossip. -/
inductive SpreadingLabel (Id : Type) [LinearOrder Id] where
  /-- A connection starts a sender, whose first tick is due at once. -/
  | connect (sender receiver : Id)
  | disconnect (sender receiver : Id)
  /-- The periodic resend. -/
  | tick (sender receiver : Id)
  /-- A change made on a machine, saved or not. -/
  | change (machine : Id) (saves : Bool) (change : Change Id)
  | send (sender receiver : Id)
  | lose (index : Nat)
  /-- A message is read and queued, or dropped when the queue is full. -/
  | arrive (index : Nat)
  | merge (machine : Id) (saves : Bool)

variable {Id : Type} [LinearOrder Id]

/-- Whether the gossip takes the step by itself: nobody connects, nobody changes anything and
the periodic resend is not due. -/
def SpreadingLabel.isOwn : SpreadingLabel Id → Bool
  | .send _ _ => true
  | .lose _ => true
  | .arrive _ => true
  | .merge _ _ => true
  | _ => false

namespace Spreading

/-- The machines as they start, with nobody connected. -/
def start (loaded : Id → MeshState Id) : Spreading Id where
  states := loaded
  connected _ _ := false
  unsent _ _ := false
  flight := []
  queues _ := []

/-- Sets whether a sender has something to send. -/
def mark (sender receiver : Id) (unsent : Bool) (state : Spreading Id) : Spreading Id :=
  { state with
    unsent := fun one other =>
      if one = sender ∧ other = receiver then unsent else state.unsent one other }

/-- `MeshStore::update` on a machine: a state that changed wakes every sender. -/
def commit (machine : Id) (after : MeshState Id) (state : Spreading Id) : Spreading Id :=
  if after = state.states machine then state
  else
    { state with
      states := Function.update state.states machine after
      unsent := fun one other =>
        state.unsent one other || (decide (one = machine) && state.connected one other) }

/-- One round of `merge_gossip`. -/
def mergeNext (machine : Id) (saves : Bool) (remote : MeshState Id) (rest : List (MeshState Id))
    (state : Spreading Id) : Spreading Id :=
  commit machine
    ((state.states machine).update saves (fun ours => .ok (ours.merge remote machine)))
    { state with queues := Function.update state.queues machine rest }

/-- One step among the machines there are. -/
def step (machines : Finset Id) (state : Spreading Id) :
    SpreadingLabel Id → Option (Spreading Id)
  | .connect sender receiver =>
      if sender ∈ machines ∧ receiver ∈ machines ∧ sender ≠ receiver then
        some (mark sender receiver true
          { state with
            connected := fun one other =>
              decide (one = sender ∧ other = receiver) || state.connected one other })
      else none
  | .disconnect sender receiver =>
      some (mark sender receiver false
        { state with
          connected := fun one other =>
            !decide (one = sender ∧ other = receiver) && state.connected one other })
  | .tick sender receiver =>
      if state.connected sender receiver then some (mark sender receiver true state) else none
  | .change machine saves change =>
      some (commit machine ((state.states machine).update saves (change.mutate machine)) state)
  | .send sender receiver =>
      if state.unsent sender receiver then
        some (mark sender receiver false
          { state with flight := state.flight ++ [(receiver, state.states sender)] })
      else none
  | .lose index =>
      if index < state.flight.length then
        some { state with flight := state.flight.eraseIdx index }
      else none
  | .arrive index =>
      match state.flight[index]? with
      | none => none
      | some (receiver, message) =>
          let queue := state.queues receiver
          some
            { state with
              flight := state.flight.eraseIdx index
              queues := Function.update state.queues receiver
                (if queue.length < gossipQueue then queue ++ [message] else queue) }
  | .merge machine saves =>
      match state.queues machine with
      | [] => none
      | remote :: rest => some (mergeNext machine saves remote rest state)

/-- The records of a state. -/
def saidBy (state : MeshState Id) : Finset (Id × Peer) := state.peers.toList.toFinset

/-- Every record that is held or on its way. -/
def said (machines : Finset Id) (state : Spreading Id) : Finset (Id × Peer) :=
  machines.biUnion (fun machine =>
      (state.states machine :: state.queues machine).toFinset.biUnion saidBy) ∪
    (state.flight.map Prod.snd).toFinset.biUnion saidBy

/-- How many of the records in `entries` are still above what a machine holds. -/
def above (entries : Finset (Id × Peer)) (state : MeshState Id) : Nat :=
  (entries.filter (fun entry => state.record entry.1 < ↑entry.2)).card

/-- The senders that have something to send. -/
def owed (machines : Finset Id) (state : Spreading Id) : Finset (Id × Id) :=
  (machines ×ˢ machines).filter (fun link => state.unsent link.1 link.2 = true)

/-- How many steps the gossip can take by itself: a message takes three from its sender to
the merge, and a state that changed makes every sender of its machine send it. -/
def work (machines : Finset Id) (entries : Finset (Id × Peer)) (state : Spreading Id) : Nat :=
  3 * ((state.owed machines).card +
      machines.card * ∑ machine ∈ machines, above entries (state.states machine)) +
    2 * state.flight.length + ∑ machine ∈ machines, (state.queues machine).length

/-- Nothing is held or on its way but what `entries` lists, and all of it among the
machines there are. -/
structure Closed (machines : Finset Id) (entries : Finset (Id × Peer)) (state : Spreading Id) :
    Prop where
  linked : ∀ one other, state.connected one other = true → one ∈ machines ∧ other ∈ machines
  marked : ∀ one other, state.unsent one other = true → state.connected one other = true
  aimed : ∀ message ∈ state.flight, message.1 ∈ machines
  waiting : ∀ machine, state.queues machine ≠ [] → machine ∈ machines
  held : ∀ machine ∈ machines, saidBy (state.states machine) ⊆ entries
  sent : ∀ message ∈ state.flight, saidBy message.2 ⊆ entries
  queued : ∀ machine, ∀ message ∈ state.queues machine, saidBy message ⊆ entries

/-- A state says its records. -/
theorem mem_saidBy_iff (state : MeshState Id) (id : Id) (peer : Peer) :
    (id, peer) ∈ saidBy state ↔ state.record id = ↑peer := by
  rw [saidBy, List.mem_toFinset, MeshState.mem_toList_iff]

section Above

variable (entries : Finset (Id × Peer)) (before after : MeshState Id)

/-- A state that went up went up to a record of the entries, which is above it no more. Some
record went up, and the one it went up to is among the entries: it was above the state before and
is not above the state after. -/
theorem above_lt (higher : ∀ id, before.record id ≤ after.record id)
    (known : saidBy after ⊆ entries) (changed : after ≠ before) :
    above entries after + 1 ≤ above entries before := by
  obtain ⟨id, differs⟩ : ∃ id, before.record id ≠ after.record id := by
    by_contra same
    push Not at same
    exact changed (MeshState.ext_record before after same).symm
  have raised : before.record id < after.record id := lt_of_le_of_ne (higher id) differs
  obtain ⟨peer, held⟩ : ∃ peer : Peer, after.record id = ↑peer :=
    (WithBot.ne_bot_iff_exists.mp (ne_bot_of_gt raised)).imp fun _ same => same.symm
  apply Finset.card_lt_card
  rw [Finset.ssubset_iff_of_subset]
  · refine ⟨(id, peer), ?_, ?_⟩
    · rw [Finset.mem_filter]
      exact ⟨known ((mem_saidBy_iff after id peer).mpr held), held ▸ raised⟩
    · rw [Finset.mem_filter]
      rintro ⟨_, still⟩
      exact absurd held still.ne
  · intro entry member
    rw [Finset.mem_filter] at member ⊢
    exact ⟨member.1, (higher entry.1).trans_lt member.2⟩

end Above

/-- A merge moves no record down, whether or not it is saved. -/
theorem merged_record_le (machine id : Id) (saves : Bool) (remote state : MeshState Id) :
    state.record id ≤
      (state.update saves (fun ours => .ok (ours.merge remote machine))).record id := by
  obtain same | made := MeshState.update_cases saves
    (fun ours => .ok (ours.merge remote machine)) state
  · rw [same]
  · rw [← Except.ok.inj made, MeshState.merge_eq_walk]
    exact MeshState.walk_record_le machine id state _

/-- A merge makes no record. -/
theorem saidBy_merged (machine : Id) (saves : Bool) (remote state : MeshState Id)
    (entries : Finset (Id × Peer)) (ours : saidBy state ⊆ entries)
    (theirs : saidBy remote ⊆ entries) :
    saidBy (state.update saves (fun ours => .ok (ours.merge remote machine))) ⊆ entries := by
  obtain same | made := MeshState.update_cases saves
    (fun ours => .ok (ours.merge remote machine)) state
  · rwa [same]
  · rw [← Except.ok.inj made]
    rintro ⟨id, peer⟩ member
    rw [mem_saidBy_iff] at member
    obtain held | ⟨offered, _⟩ := MeshState.merge_record_source state remote machine id peer member
    · exact ours ((mem_saidBy_iff state id peer).mpr held)
    · exact theirs ((mem_saidBy_iff remote id peer).mpr offered)

/-- One value of a function replaced changes a sum by the difference. -/
theorem sum_update {Value : Type} (machines : Finset Id) (machine : Id)
    (among : machine ∈ machines) (values : Id → Value) (value : Value) (size : Value → Nat) :
    ∑ one ∈ machines, size (Function.update values machine value one) + size (values machine) =
      ∑ one ∈ machines, size (values one) + size value := by
  rw [← Finset.add_sum_erase machines _ among, ← Finset.add_sum_erase machines _ among]
  have others : ∑ one ∈ machines.erase machine, size (Function.update values machine value one) =
      ∑ one ∈ machines.erase machine, size (values one) :=
    Finset.sum_congr rfl fun one member => by
      rw [Function.update_of_ne (Finset.ne_of_mem_erase member)]
  rw [others, Function.update_self]
  omega

section Owed

variable (machines : Finset Id) (state : Spreading Id)

/-- A sender that sends owes one message less. The link was marked, and is the only one that is
taken off. -/
theorem owed_mark (sender receiver : Id) (among : sender ∈ machines ∧ receiver ∈ machines)
    (unsent : state.unsent sender receiver = true) :
    ((mark sender receiver false state).owed machines).card + 1 = (state.owed machines).card := by
  have member : (sender, receiver) ∈ state.owed machines := by
    rw [owed, Finset.mem_filter, Finset.mem_product]
    exact ⟨among, unsent⟩
  rw [← Finset.card_erase_add_one member]
  congr 2
  ext ⟨one, other⟩
  simp only [owed, Finset.mem_filter, Finset.mem_erase, Finset.mem_product, ne_eq,
    Prod.mk.injEq]
  simp only [mark]
  by_cases same : one = sender ∧ other = receiver
  · simp [same]
  · rw [if_neg same]
    exact ⟨fun owing => ⟨same, owing⟩, And.right⟩

/-- A state that changed is owed by the senders of one machine. Only the links of that machine are
marked anew, and it has one to each other machine at most. -/
theorem owed_commit (machine : Id) (after : MeshState Id) :
    ((commit machine after state).owed machines).card ≤
      (state.owed machines).card + machines.card := by
  unfold commit
  split
  · exact Nat.le_add_right _ _
  · have woken : owed machines
        { state with
          states := Function.update state.states machine after
          unsent := fun one other =>
            state.unsent one other || (decide (one = machine) && state.connected one other) } ⊆
        state.owed machines ∪ ({machine} ×ˢ machines) := by
      rintro ⟨one, other⟩ member
      simp only [owed, Finset.mem_filter, Finset.mem_product, Bool.or_eq_true, Bool.and_eq_true,
        decide_eq_true_eq, Finset.mem_union, Finset.mem_singleton] at member ⊢
      obtain ⟨among, already | ⟨same, _⟩⟩ := member
      · exact .inl ⟨among, already⟩
      · exact .inr ⟨same, among.2⟩
    calc _ ≤ _ := Finset.card_le_card woken
      _ ≤ _ := Finset.card_union_le _ _
      _ = _ := by rw [Finset.card_product, Finset.card_singleton, Nat.one_mul]

end Owed

section Steps

variable {machines : Finset Id} {entries : Finset (Id × Peer)} {state next : Spreading Id}

/-- Waking a sender of a connection brings nothing new. -/
theorem Closed.mark (closed : Closed machines entries state) (sender receiver : Id)
    (unsent : Bool) (linked : unsent = true → state.connected sender receiver = true) :
    Closed machines entries (mark sender receiver unsent state) := by
  refine ⟨closed.linked, ?_, closed.aimed, closed.waiting, closed.held, closed.sent,
    closed.queued⟩
  intro one other marked
  simp only [Spreading.mark] at marked ⊢
  split at marked
  · rename_i same
    rw [same.1, same.2]
    exact linked marked
  · exact closed.marked one other marked

/-- Nor does a state of known records. The marks it makes are on links there are, and what it
holds now is listed. -/
theorem Closed.commit (closed : Closed machines entries state) (machine : Id)
    (after : MeshState Id) (known : saidBy after ⊆ entries) :
    Closed machines entries (commit machine after state) := by
  unfold Spreading.commit
  split
  · exact closed
  · refine ⟨closed.linked, ?_, closed.aimed, closed.waiting, ?_, closed.sent, closed.queued⟩
    · intro one other marked
      simp only [Bool.or_eq_true, Bool.and_eq_true] at marked
      exact marked.elim (closed.marked one other) And.right
    · intro one among
      dsimp only
      by_cases same : one = machine
      · rw [same, Function.update_self]
        exact known
      · rw [Function.update_of_ne same]
        exact closed.held one among

/-- A message more for a machine there is. It goes along a link between machines there are, and
says what its sender holds. -/
theorem Closed.sends (closed : Closed machines entries state) (sender receiver : Id)
    (unsent : state.unsent sender receiver = true) :
    Closed machines entries
      { state with flight := state.flight ++ [(receiver, state.states sender)] } := by
  have linked := closed.linked sender receiver (closed.marked sender receiver unsent)
  refine ⟨closed.linked, closed.marked, ?_, closed.waiting, closed.held, ?_, closed.queued⟩
  · intro message member
    obtain early | last := List.mem_append.mp member
    · exact closed.aimed message early
    · rw [List.mem_singleton.mp last]
      exact linked.2
  · intro message member
    obtain early | last := List.mem_append.mp member
    · exact closed.sent message early
    · rw [List.mem_singleton.mp last]
      exact closed.held sender linked.1

/-- Fewer messages on the way. -/
theorem Closed.loses (closed : Closed machines entries state) (index : Nat) :
    Closed machines entries { state with flight := state.flight.eraseIdx index } :=
  ⟨closed.linked, closed.marked,
    fun message member => closed.aimed message (List.mem_of_mem_eraseIdx member),
    closed.waiting, closed.held,
    fun message member => closed.sent message (List.mem_of_mem_eraseIdx member), closed.queued⟩

/-- Another queue for a machine there is. What it holds is listed, and the other queues are as
they were. -/
theorem Closed.queues (closed : Closed machines entries state) (machine : Id)
    (queue : List (MeshState Id)) (among : machine ∈ machines)
    (known : ∀ message ∈ queue, saidBy message ⊆ entries) :
    Closed machines entries
      { state with queues := Function.update state.queues machine queue } := by
  refine ⟨closed.linked, closed.marked, closed.aimed, ?_, closed.held, closed.sent, ?_⟩
  · intro one nonempty
    dsimp only at nonempty
    by_cases same : one = machine
    · rwa [same]
    · rw [Function.update_of_ne same] at nonempty
      exact closed.waiting one nonempty
  · intro one
    dsimp only
    by_cases same : one = machine
    · rw [same, Function.update_self]
      exact known
    · rw [Function.update_of_ne same]
      exact closed.queued one

/-- A state that went up through a record pays for everyone who has to be told. A state that
changed lost a record above it, which was counted with three for each machine that is to be told.
-/
theorem work_commit (machine : Id) (among : machine ∈ machines) (after : MeshState Id)
    (higher : ∀ id, (state.states machine).record id ≤ after.record id)
    (known : saidBy after ⊆ entries) :
    (commit machine after state).work machines entries ≤ state.work machines entries := by
  have woken := owed_commit machines state machine after
  by_cases changed : after = state.states machine
  · rw [commit, if_pos changed]
  · have lower := above_lt entries (state.states machine) after higher known changed
    have total := sum_update machines machine among state.states after (above entries)
    have paid : machines.card * ∑ one ∈ machines,
          above entries (Function.update state.states machine after one) + machines.card ≤
        machines.card * ∑ one ∈ machines, above entries (state.states one) := by
      rw [← Nat.mul_succ]
      exact Nat.mul_le_mul_left _ (by omega)
    simp only [work, commit, if_neg changed] at woken ⊢
    omega

/-- What the gossip does by itself keeps to the records there are, and uses up work. What is sent,
taken in or merged uses up what it was counted with, and a merge that changes a state pays for the
sends it makes by the records that rose. -/
theorem own_step (closed : Closed machines entries state) (label : SpreadingLabel Id)
    (own : label.isOwn = true) (taken : step machines state label = some next) :
    Closed machines entries next ∧ next.work machines entries + 1 ≤ state.work machines entries := by
  cases label with
  | connect sender receiver => cases own
  | disconnect sender receiver => cases own
  | tick sender receiver => cases own
  | change machine saves change => cases own
  | send sender receiver =>
    rw [step] at taken
    split at taken
    · rename_i unsent
      obtain rfl := Option.some.inj taken
      have linked := closed.linked sender receiver (closed.marked sender receiver unsent)
      refine ⟨(closed.sends sender receiver unsent).mark sender receiver false
        (fun impossible => nomatch impossible), ?_⟩
      have fewer := owed_mark machines
        { state with flight := state.flight ++ [(receiver, state.states sender)] }
        sender receiver linked unsent
      change ((Spreading.mark _ _ _ _).owed machines).card + 1 = (state.owed machines).card at fewer
      simp only [work, Spreading.mark, List.length_append, List.length_singleton] at fewer ⊢
      omega
    · cases taken
  | lose index =>
    rw [step] at taken
    split at taken
    · rename_i inside
      obtain rfl := Option.some.inj taken
      refine ⟨closed.loses index, ?_⟩
      have fewer := Runs.length_left state.flight index inside
      simp only [work, owed]
      omega
    · cases taken
  | arrive index =>
    rw [step] at taken
    split at taken
    · cases taken
    · rename_i receiver message found
      obtain rfl := Option.some.inj taken
      have member := List.mem_of_getElem? found
      have among := closed.aimed _ member
      constructor
      · refine (closed.loses index).queues receiver _ among ?_
        intro waiting inQueue
        split at inQueue
        · obtain early | last := List.mem_append.mp inQueue
          · exact closed.queued receiver waiting early
          · rw [List.mem_singleton.mp last]
            exact closed.sent _ member
        · exact closed.queued receiver waiting inQueue
      · have fewer := Runs.length_left state.flight index (List.getElem?_eq_some_iff.mp found).1
        have total := sum_update machines receiver among state.queues
          (if (state.queues receiver).length < gossipQueue then
            state.queues receiver ++ [message] else state.queues receiver) List.length
        have longer : (if (state.queues receiver).length < gossipQueue then
            state.queues receiver ++ [message] else state.queues receiver).length ≤
              (state.queues receiver).length + 1 := by
          split
          · exact (List.length_append).le
          · exact Nat.le_succ _
        simp only [work, owed]
        omega
  | merge machine saves =>
    rw [step] at taken
    split at taken
    · cases taken
    · rename_i remote rest waiting
      obtain rfl := Option.some.inj taken
      have among := closed.waiting machine (by rw [waiting]; exact List.cons_ne_nil _ _)
      have queued := closed.queued machine
      rw [waiting, List.forall_mem_cons] at queued
      have known := saidBy_merged machine saves remote (state.states machine) entries
        (closed.held machine among) queued.1
      have popped := closed.queues machine rest among queued.2
      refine ⟨popped.commit machine _ known, ?_⟩
      let left : Spreading Id := { state with queues := Function.update state.queues machine rest }
      have committed : (commit machine _ left).work machines entries ≤ left.work machines entries :=
        work_commit machine among _ (fun id => merged_record_le machine id saves remote _) known
      have total := sum_update machines machine among state.queues rest List.length
      rw [waiting, List.length_cons] at total
      refine (Nat.add_le_add_right committed 1).trans ?_
      simp only [work, owed, left]
      omega

end Steps

/-- The records there are in all are enough. -/
theorem Closed.said {machines : Finset Id} {entries : Finset (Id × Peer)} {state : Spreading Id}
    (closed : Closed machines entries state) : Closed machines (state.said machines) state := by
  have kept : ∀ machine ∈ machines, ∀ message, message = state.states machine ∨
      message ∈ state.queues machine → saidBy message ⊆ state.said machines := by
    intro machine among message ours entry member
    apply Finset.mem_union_left
    rw [Finset.mem_biUnion]
    refine ⟨machine, among, Finset.mem_biUnion.mpr ⟨message, ?_, member⟩⟩
    rw [List.mem_toFinset]
    exact List.mem_cons.mpr ours
  refine ⟨closed.linked, closed.marked, closed.aimed, closed.waiting, ?_, ?_, ?_⟩
  · intro machine among
    exact kept machine among _ (.inl rfl)
  · intro message member entry spoken
    apply Finset.mem_union_right
    rw [Finset.mem_biUnion]
    exact ⟨message.2, List.mem_toFinset.mpr (List.mem_map_of_mem member), spoken⟩
  · intro machine message member
    exact kept machine (closed.waiting machine (List.ne_nil_of_mem member)) message (.inr member)

/-- What is listed may be listed with more. -/
theorem Closed.mono {machines : Finset Id} {entries more : Finset (Id × Peer)}
    {state : Spreading Id} (closed : Closed machines entries state) (known : entries ⊆ more) :
    Closed machines more state :=
  ⟨closed.linked, closed.marked, closed.aimed, closed.waiting,
    fun machine among => (closed.held machine among).trans known,
    fun message member => (closed.sent message member).trans known,
    fun machine message member => (closed.queued machine message member).trans known⟩

/-- A connection more between machines there are. -/
theorem Closed.connects {machines : Finset Id} {entries : Finset (Id × Peer)}
    {state : Spreading Id} (closed : Closed machines entries state) (sender receiver : Id)
    (sends : sender ∈ machines) (receives : receiver ∈ machines) :
    Closed machines entries
      { state with
        connected := fun one other =>
          decide (one = sender ∧ other = receiver) || state.connected one other } := by
  refine ⟨?_, ?_, closed.aimed, closed.waiting, closed.held, closed.sent, closed.queued⟩
  · intro one other linked
    rw [Bool.or_eq_true, decide_eq_true_eq] at linked
    obtain ⟨rfl, rfl⟩ | already := linked
    · exact ⟨sends, receives⟩
    · exact closed.linked one other already
  · intro one other marked
    rw [Bool.or_eq_true]
    exact .inr (closed.marked one other marked)

/-- Whatever happens, the records there are can be listed. A change of a machine adds the records
it leaves to the list; nothing else brings in a record that is not held or on its way. -/
theorem step_closed (machines : Finset Id) (state next : Spreading Id)
    (label : SpreadingLabel Id) (closed : ∃ entries, Closed machines entries state)
    (taken : step machines state label = some next) :
    ∃ entries, Closed machines entries next := by
  obtain ⟨entries, closed⟩ := closed
  cases label with
  | connect sender receiver =>
    rw [step] at taken
    split at taken
    · rename_i apart
      obtain rfl := Option.some.inj taken
      refine ⟨entries, (closed.connects sender receiver apart.1 apart.2.1).mark sender receiver true
        (fun _ => ?_)⟩
      simp
    · cases taken
  | disconnect sender receiver =>
    obtain rfl := Option.some.inj taken
    refine ⟨entries, ?_, ?_, closed.aimed, closed.waiting, closed.held, closed.sent,
      closed.queued⟩
    · intro one other linked
      simp only [mark, Bool.and_eq_true] at linked
      exact closed.linked one other linked.2
    · intro one other marked
      simp only [mark] at marked ⊢
      split at marked
      · cases marked
      · rename_i apart
        simp [apart, closed.marked one other marked]
  | tick sender receiver =>
    rw [step] at taken
    split at taken
    · rename_i linked
      obtain rfl := Option.some.inj taken
      exact ⟨entries, closed.mark sender receiver true (fun _ => linked)⟩
    · cases taken
  | change machine saves change =>
    obtain rfl := Option.some.inj taken
    refine ⟨entries ∪ saidBy ((state.states machine).update saves (change.mutate machine)), ?_⟩
    exact (closed.mono Finset.subset_union_left).commit machine _ Finset.subset_union_right
  | send sender receiver => exact ⟨entries, (own_step closed _ rfl taken).1⟩
  | lose index => exact ⟨entries, (own_step closed _ rfl taken).1⟩
  | arrive index => exact ⟨entries, (own_step closed _ rfl taken).1⟩
  | merge machine saves => exact ⟨entries, (own_step closed _ rfl taken).1⟩

/-- At first there is what was loaded. -/
theorem start_closed (machines : Finset Id) (loaded : Id → MeshState Id) :
    Closed machines (machines.biUnion (fun machine => saidBy (loaded machine))) (start loaded) where
  linked _ _ impossible := nomatch impossible
  marked _ _ impossible := nomatch impossible
  aimed _ impossible := nomatch impossible
  waiting _ nonempty := absurd rfl nonempty
  held _ among := Finset.subset_biUnion_of_mem (fun machine => saidBy (loaded machine)) among
  sent _ impossible := nomatch impossible
  queued _ _ impossible := nomatch impossible

/-- Nothing is left to do. -/
structure AtRest (state : Spreading Id) : Prop where
  sent : ∀ one other, state.unsent one other = false
  arrived : state.flight = []
  merged : ∀ machine, state.queues machine = []

/-- As long as the gossip is not at rest it goes on. A mark can be sent, a message on its way can
arrive, and a queue that is not empty can be merged from. -/
theorem goes_on (machines : Finset Id) (state : Spreading Id) (restless : ¬ state.AtRest) :
    ∃ label : SpreadingLabel Id, label.isOwn = true ∧
      (step machines state label).isSome = true := by
  by_cases sent : ∃ one other, state.unsent one other = true
  · obtain ⟨one, other, unsent⟩ := sent
    exact ⟨.send one other, rfl, by simp [step, unsent]⟩
  · by_cases arrived : state.flight = []
    · by_cases merged : ∀ machine, state.queues machine = []
      · push Not at sent
        exact absurd ⟨fun one other => Bool.eq_false_iff.mpr (sent one other), arrived, merged⟩
          restless
      · push Not at merged
        obtain ⟨machine, waiting⟩ := merged
        obtain ⟨remote, rest, queued⟩ := List.exists_cons_of_ne_nil waiting
        exact ⟨.merge machine true, rfl, by simp [step, queued]⟩
    · obtain ⟨message, rest, onWay⟩ := List.exists_cons_of_ne_nil arrived
      exact ⟨.arrive 0, rfl, by simp [step, onWay]⟩

/-- Gossip comes to rest. After any history, as long as nobody connects, disconnects or changes
anything and no periodic resend is due, the gossip takes no more steps than a number that the state
tells beforehand, whatever is lost, dropped or not saved; and it goes on until nothing is
unsent, on its way or waiting to be merged. -/
theorem gossip_comes_to_rest (machines : Finset Id) (loaded : Id → MeshState Id)
    (early labels : List (SpreadingLabel Id)) (state last : Spreading Id)
    (reached : Runs.run (step machines) (start loaded) early = some state)
    (own : ∀ label ∈ labels, label.isOwn = true)
    (ran : Runs.run (step machines) state labels = some last) :
    labels.length ≤ state.work machines (state.said machines) ∧
      (last.AtRest ∨ ∃ label : SpreadingLabel Id, label.isOwn = true ∧
        (step machines last label).isSome = true) := by
  obtain ⟨entries, listed⟩ := Runs.run_invariant (step machines)
    (fun state => ∃ entries, Closed machines entries state)
    (fun state label next closed taken => step_closed machines state next label closed taken)
    (start loaded) state early ⟨_, start_closed machines loaded⟩ reached
  constructor
  · have bounded := Runs.run_works (step machines) (Closed machines (state.said machines))
      (fun label => label.isOwn = true) (work machines (state.said machines))
      (fun _ label _ closed own taken => own_step closed label own taken)
      state last labels listed.said own ran
    omega
  · by_cases rest : last.AtRest
    · exact .inl rest
    · exact .inr (goes_on machines last rest)

/-- One machine that knows a third and one that knows nobody. -/
def acquainted : Fin 3 → MeshState (Fin 3)
  | 0 => MeshState.empty.insert 2 { version := 1, status := .alive "laptop" }
  | _ => MeshState.empty

/-- The two connect. -/
def connecting : List (SpreadingLabel (Fin 3)) := [.connect 0 1, .connect 1 0]

/-- Each tells the other what it has, and the one that learnt something tells it back. -/
def acquainting : List (SpreadingLabel (Fin 3)) :=
  [.send 0 1, .send 1 0, .arrive 1, .merge 0 true, .arrive 0, .merge 1 true, .send 1 0, .arrive 0,
    .merge 0 true]

/-- Two machines that know others connect and tell each other. -/
theorem gossip_comes_to_rest_between_two :
    ∃ state last, Runs.run (step {0, 1}) (start acquainted) connecting = some state ∧
      Runs.run (step {0, 1}) state acquainting = some last ∧
        acquainting.length ≤ state.work {0, 1} (state.said {0, 1}) := by
  have observed : ((Runs.run (step {0, 1}) (start acquainted) connecting).bind
      (fun state => Runs.run (step {0, 1}) state acquainting)).isSome = true := by
    decide +kernel
  obtain ⟨last, ran⟩ := Option.isSome_iff_exists.mp observed
  obtain ⟨state, reached, ran⟩ := Option.bind_eq_some_iff.mp ran
  exact ⟨state, last, reached, ran, (gossip_comes_to_rest {0, 1} acquainted connecting acquainting
    state last reached (by decide) ran).1⟩

/-- The record is held, or there is no room for its machine. -/
def Knows (state : MeshState Id) (id : Id) (peer : Peer) : Prop :=
  ↑peer ≤ state.record id ∨ (state.record id = ⊥ ∧ maxMeshPeers ≤ state.peers.size)

/-- Everything that a machine may take of a state is taken. -/
def Told (machine : Id) (ours remote : MeshState Id) : Prop :=
  ∀ (id : Id) (peer : Peer), id ≠ machine → remote.record id = ↑peer →
    peer.isValid = true → Knows ours id peer

/-- No record goes down, and where there is no room for a machine there never will be. -/
structure Grows (before after : MeshState Id) : Prop where
  higher : ∀ id, before.record id ≤ after.record id
  full : ∀ id, before.record id = ⊥ → maxMeshPeers ≤ before.peers.size →
    after.record id = ⊥ ∧ maxMeshPeers ≤ after.peers.size

/-- A state has grown from itself. -/
theorem Grows.refl (state : MeshState Id) : Grows state state :=
  ⟨fun _ => le_rfl, fun _ unknown crowded => ⟨unknown, crowded⟩⟩

/-- Growing twice is growing. -/
theorem Grows.trans {first second third : MeshState Id} (early : Grows first second)
    (late : Grows second third) : Grows first third where
  higher id := (early.higher id).trans (late.higher id)
  full id unknown crowded :=
    late.full id (early.full id unknown crowded).1 (early.full id unknown crowded).2

/-- What is known stays known. -/
theorem Grows.knows {before after : MeshState Id} (grows : Grows before after) {id : Id}
    {peer : Peer} (knows : Knows before id peer) : Knows after id peer :=
  knows.imp (fun held => held.trans (grows.higher id)) (fun crowded => grows.full id crowded.1 crowded.2)

/-- A record written over a lower one, or with room for a new machine. -/
theorem insert_grows (state : MeshState Id) (id : Id) (peer : Peer)
    (higher : state.record id ≤ ↑peer)
    (room : state.record id = ⊥ → state.peers.size < maxMeshPeers) :
    Grows state (state.insert id peer) where
  higher other := MeshState.insert_record_le state id other peer higher
  full other unknown crowded := by
    have known : state.record id ≠ ⊥ := fun absent => absurd (room absent) (not_lt.mpr crowded)
    have apart : other ≠ id := fun same => known (same ▸ unknown)
    refine ⟨by rw [MeshState.insert_record_of_ne id other peer state apart, unknown], ?_⟩
    exact crowded.trans (Std.ExtTreeMap.size_le_size_insert)

/-- Taking a record grows. -/
theorem adopt_grows (own id : Id) (state : MeshState Id) (peer : Peer) :
    Grows state (MeshState.adopt own state id peer) := by
  refine ⟨MeshState.adopt_record_le own id state peer, ?_⟩
  obtain same | ⟨_, _, adopted, wrote⟩ := MeshState.adopt_cases own id state peer
  · rw [same]
    exact (Grows.refl state).full
  · have higher := MeshState.adopt_record_le own id state peer id
    rw [wrote, MeshState.insert_record_self] at higher
    rw [wrote]
    refine (insert_grows state id peer higher ?_).full
    intro unknown
    have absent : state.peers[id]? = none := unknown
    simpa [MeshState.adopts, absent] using adopted

/-- So does taking several. -/
theorem walk_grows (own : Id) (state : MeshState Id) (entries : List (Id × Peer)) :
    Grows state (MeshState.walk own state entries) := by
  induction entries generalizing state with
  | nil => exact Grows.refl state
  | cons entry entries inductionHypothesis =>
    rw [MeshState.walk_cons]
    exact (adopt_grows own entry.1 state entry.2).trans (inductionHypothesis _)

/-- A valid record of another machine is known once it was looked at. -/
theorem adopt_knows (own id : Id) (state : MeshState Id) (peer : Peer) (foreign : id ≠ own)
    (valid : peer.isValid = true) : Knows (MeshState.adopt own state id peer) id peer := by
  by_cases room : state.record id = ⊥ → state.peers.size < maxMeshPeers
  · left
    rw [MeshState.adopt_join own id state peer foreign valid room]
    exact le_sup_right
  · right
    push Not at room
    exact (adopt_grows own id state peer).full id room.1 room.2

/-- A valid record that was taken in is known, unless it is of this machine. -/
theorem walk_knows (own id : Id) (state : MeshState Id) (peer : Peer)
    (entries : List (Id × Peer)) (member : (id, peer) ∈ entries) (foreign : id ≠ own)
    (valid : peer.isValid = true) : Knows (MeshState.walk own state entries) id peer := by
  induction entries generalizing state with
  | nil => cases member
  | cons entry entries inductionHypothesis =>
    rw [MeshState.walk_cons]
    obtain rfl | later := List.mem_cons.mp member
    · exact (walk_grows own _ entries).knows (adopt_knows own id state peer foreign valid)
    · exact inductionHypothesis _ later

/-- A merge takes everything it may. -/
theorem merge_told (machine : Id) (state remote : MeshState Id) :
    Told machine (state.merge remote machine) remote := by
  intro id peer foreign held valid
  rw [MeshState.merge_eq_walk]
  exact walk_knows machine id state peer _ ((MeshState.mem_toList_iff remote id peer).mpr held)
    foreign valid

/-- What a machine changes itself takes nothing back either. A pairing and a removal go one
version up, a merge never goes down, and a change that is not saved is none. -/
theorem change_grows (machine : Id) (saves : Bool) (change : Change Id) (state : MeshState Id) :
    Grows state (state.update saves (change.mutate machine)) := by
  obtain same | made := MeshState.update_cases saves (change.mutate machine) state
  · rw [same]
    exact Grows.refl state
  · cases change with
    | pair id name =>
      change state.addPaired id name = _ at made
      unfold MeshState.addPaired at made
      split at made
      · rw [← Except.ok.inj made]
        exact Grows.refl state
      · obtain ⟨checked, below, wrote⟩ := (MeshState.addPeer_ok_iff id name state _).mp made
        rw [wrote]
        apply insert_grows state id _ (MeshState.record_le_next state id _ below)
        intro unknown
        obtain room | known := ((MeshState.validateNewPeer_ok_iff state name id).mp checked).2
        · exact room
        · exact absurd unknown ((MeshState.contains_iff state id).mp known)
    | remove id =>
      obtain ⟨known, below, wrote⟩ := (MeshState.removePeer_ok_iff id state _).mp made
      rw [wrote]
      apply insert_grows state id _ (MeshState.record_le_next state id .removed below)
      obtain ⟨version, name, held⟩ := (MeshState.peerName_isSome_iff state id).mp known
      exact fun unknown => absurd (held.symm.trans unknown) WithBot.coe_ne_bot
    | merge remote =>
      rw [← Except.ok.inj made, MeshState.merge_eq_walk]
      exact walk_grows machine state _

/-- The way of a message from the sender of a connection to what the other side holds. -/
def Heard (state : Spreading Id) (sender receiver : Id) : Prop :=
  state.unsent sender receiver = true ∨ (receiver, state.states sender) ∈ state.flight ∨
    state.states sender ∈ state.queues receiver ∨
      Told receiver (state.states receiver) (state.states sender)

/-- Nothing gets lost: not on the way, not at a full queue and not for want of saving. -/
def Faithful (state : Spreading Id) : SpreadingLabel Id → Prop
  | .lose _ => False
  | .arrive index =>
      ∀ message ∈ state.flight[index]?, (state.queues message.1).length < gossipQueue
  | .merge _ saves => saves = true
  | _ => True

/-- A sender has something to send, or not, as it is set. -/
theorem mark_unsent_self (sender receiver : Id) (unsent : Bool) (state : Spreading Id) :
    (mark sender receiver unsent state).unsent sender receiver = unsent :=
  if_pos ⟨rfl, rfl⟩

/-- The other senders stay as they are. -/
theorem mark_unsent_of_ne (sender receiver one other : Id) (unsent : Bool) (state : Spreading Id)
    (apart : ¬ (one = sender ∧ other = receiver)) :
    (mark sender receiver unsent state).unsent one other = state.unsent one other :=
  if_neg apart

/-- A new state connects nobody. -/
@[simp] theorem commit_connected (machine : Id) (after : MeshState Id) (state : Spreading Id) :
    (commit machine after state).connected = state.connected := by
  unfold commit
  split <;> rfl

/-- A commit is told to everyone the machine is connected to. The sender of a machine that changed
is marked anew, and a receiver that goes up still holds what it was told. -/
theorem Heard.commit {state : Spreading Id} {sender receiver : Id}
    (heard : state.Heard sender receiver) (linked : state.connected sender receiver = true)
    (machine : Id) (after : MeshState Id) (grows : Grows (state.states machine) after) :
    (commit machine after state).Heard sender receiver := by
  unfold Spreading.commit
  split
  · exact heard
  · by_cases ours : sender = machine
    · subst ours
      exact .inl (by simp [linked])
    · refine heard.imp (fun unsent => by simp [unsent]) (fun sent => ?_)
      simp only [Function.update_of_ne ours]
      refine sent.imp_right (Or.imp_right fun told => ?_)
      by_cases theirs : receiver = machine
      · subst theirs
        rw [Function.update_self]
        exact fun id peer foreign held valid => grows.knows (told id peer foreign held valid)
      · rwa [Function.update_of_ne theirs]

instance decidableFaithful (state : Spreading Id) :
    (label : SpreadingLabel Id) → Decidable (state.Faithful label)
  | .lose _ => inferInstanceAs (Decidable False)
  | .arrive index => inferInstanceAs (Decidable
      (∀ message ∈ state.flight[index]?, (state.queues message.1).length < gossipQueue))
  | .merge _ saves => inferInstanceAs (Decidable (saves = true))
  | .connect _ _ => inferInstanceAs (Decidable True)
  | .disconnect _ _ => inferInstanceAs (Decidable True)
  | .tick _ _ => inferInstanceAs (Decidable True)
  | .change _ _ _ => inferInstanceAs (Decidable True)
  | .send _ _ => inferInstanceAs (Decidable True)

/-- A merge that is saved leaves what it computed. -/
theorem update_merge (machine : Id) (state remote : MeshState Id) :
    state.update true (fun ours => .ok (ours.merge remote machine)) =
      state.merge remote machine := by
  unfold MeshState.update
  dsimp only
  split
  · rename_i same
    exact same.symm
  · rfl

/-- Whoever took everything in has heard it, and passes it on. -/
theorem commit_heard {state : Spreading Id} {sender receiver : Id} {after : MeshState Id}
    (told : Told receiver after (state.states sender))
    (linked : state.connected sender receiver = true) :
    (commit receiver after state).Heard sender receiver := by
  unfold commit
  split
  · rename_i same
    rw [same] at told
    exact .inr (.inr (.inr told))
  · by_cases ours : sender = receiver
    · subst ours
      exact .inl (by simp [linked])
    · refine .inr (.inr (.inr ?_))
      simp only [Function.update_self, Function.update_of_ne ours]
      exact told

/-- Nothing that gets lost is needed: every faithful step keeps everyone heard. A link is heard
when its state is still to be sent, is on its way or has arrived; a change marks every link of its
machine, and a faithful step loses no message. -/
theorem step_heard (machines : Finset Id) (state next : Spreading Id)
    (label : SpreadingLabel Id)
    (heard : ∀ one other, state.connected one other = true → state.Heard one other)
    (faithful : state.Faithful label) (taken : step machines state label = some next) (one other : Id)
    (linked : next.connected one other = true) : next.Heard one other := by
  cases label with
  | connect sender receiver =>
    rw [step] at taken
    split at taken
    · obtain rfl := Option.some.inj taken
      by_cases same : one = sender ∧ other = receiver
      · obtain ⟨rfl, rfl⟩ := same
        exact .inl (mark_unsent_self _ _ _ _)
      · simp only [mark, Bool.or_eq_true, decide_eq_true_eq] at linked
        exact (heard one other (linked.resolve_left same)).imp_left
          ((mark_unsent_of_ne _ _ _ _ _ _ same).trans ·)
    · cases taken
  | disconnect sender receiver =>
    obtain rfl := Option.some.inj taken
    simp only [mark, Bool.and_eq_true, Bool.not_eq_true', decide_eq_false_iff_not] at linked
    exact (heard one other linked.2).imp_left ((mark_unsent_of_ne _ _ _ _ _ _ linked.1).trans ·)
  | tick sender receiver =>
    rw [step] at taken
    split at taken
    · obtain rfl := Option.some.inj taken
      refine (heard one other linked).imp_left (fun unsent => ?_)
      simp [mark, unsent]
    · cases taken
  | change machine saves change =>
    obtain rfl := Option.some.inj taken
    rw [commit_connected] at linked
    exact (heard one other linked).commit linked machine _ (change_grows machine saves change _)
  | send sender receiver =>
    rw [step] at taken
    split at taken
    · obtain rfl := Option.some.inj taken
      by_cases same : one = sender ∧ other = receiver
      · obtain ⟨rfl, rfl⟩ := same
        exact .inr (.inl (List.mem_append_right _ (List.mem_singleton.mpr rfl)))
      · obtain unsent | sent | rest := heard one other linked
        · exact .inl ((mark_unsent_of_ne _ _ _ _ _ _ same).trans unsent)
        · exact .inr (.inl (List.mem_append_left _ sent))
        · exact .inr (.inr rest)
    · cases taken
  | lose index => exact faithful.elim
  | arrive index =>
    rw [step] at taken
    split at taken
    · cases taken
    · rename_i receiver message found
      obtain rfl := Option.some.inj taken
      have room : (state.queues receiver).length < gossipQueue := faithful _ found
      obtain unsent | sent | queued | told := heard one other linked
      · exact .inl unsent
      · obtain same | still := Runs.taken_or_left state.flight index _ _ found sent
        · obtain ⟨rfl, rfl⟩ := Prod.mk.inj same
          refine .inr (.inr (.inl ?_))
          simp only [Function.update_self, if_pos room]
          exact List.mem_append_right _ (List.mem_singleton.mpr rfl)
        · exact .inr (.inl still)
      · refine .inr (.inr (.inl ?_))
        by_cases same : other = receiver
        · subst same
          simp only [Function.update_self, if_pos room]
          exact List.mem_append_left _ queued
        · simpa [Function.update_of_ne same] using queued
      · exact .inr (.inr (.inr told))
  | merge machine saves =>
    rw [step] at taken
    split at taken
    · cases taken
    · rename_i remote rest waiting
      obtain rfl := Option.some.inj taken
      obtain rfl : saves = true := faithful
      rw [mergeNext, commit_connected] at linked
      by_cases head : other = machine ∧ state.states one = remote
      · -- The message that is merged is the one that was waited for.
        obtain ⟨rfl, rfl⟩ := head
        have told := merge_told other (state.states other) (state.states one)
        rw [← update_merge] at told
        exact commit_heard told linked
      · refine Heard.commit ?_ linked machine _ (change_grows machine true (.merge remote) _)
        refine (heard one other linked).imp_right (Or.imp_right (Or.imp_left fun queued => ?_))
        by_cases same : other = machine
        · subst same
          rw [waiting] at queued
          simp only [Function.update_self]
          exact (List.mem_cons.mp queued).resolve_left (fun first => head ⟨rfl, first⟩)
        · simpa [Function.update_of_ne same] using queued

/-- A connection that carries records of `id`: its own machine takes none. -/
def Tells (state : Spreading Id) (id one other : Id) : Prop :=
  state.connected one other = true ∧ other ≠ id

/-- Rest is agreement. After every connected sender had something to send, by connecting or by
the periodic resend, and with nothing lost since, a mesh that has come to rest agrees: along
connections through other machines than the one it is about, no record is below the one it was
told, and machines that reach each other hold the same. Only a record that nobody may take,
and a machine with no room for one more, are left out. -/
theorem rest_is_agreement (machines : Finset Id) (state last : Spreading Id)
    (labels : List (SpreadingLabel Id))
    (owing : ∀ one other, state.connected one other = true → state.unsent one other = true)
    (faithful : Runs.Guarded (step machines) Faithful state labels)
    (reached : Runs.run (step machines) state labels = some last) (rest : last.AtRest) (id : Id)
    (valid : ∀ machine, ∀ peer ∈ (last.states machine).peers[id]?, peer.isValid = true)
    (room : ∀ machine, (last.states machine).peers.contains id = true ∨
      (last.states machine).peers.size < maxMeshPeers) (one other : Id)
    (path : Relation.ReflTransGen (last.Tells id) one other) :
    (last.states one).record id ≤ (last.states other).record id ∧
      (Relation.ReflTransGen (last.Tells id) other one →
        (last.states one).record id = (last.states other).record id) := by
  have heard := Runs.guarded_invariant (step machines) Faithful
    (fun state => ∀ one other, state.connected one other = true → state.Heard one other)
    (fun state label next heard faithful taken =>
      step_heard machines state next label heard faithful taken)
    state last labels (fun one other linked => .inl (owing one other linked)) faithful reached
  have along : ∀ one other, last.Tells id one other →
      (last.states one).record id ≤ (last.states other).record id := by
    rintro one other ⟨linked, foreign⟩
    obtain told : Told other (last.states other) (last.states one) := by
      obtain unsent | sent | queued | told := heard one other linked
      · exact absurd unsent (by simp [rest.sent])
      · exact absurd sent (by simp [rest.arrived])
      · exact absurd queued (by simp [rest.merged])
      · exact told
    cases held : (last.states one).record id with
    | bot => exact bot_le
    | coe peer =>
      obtain known | ⟨unknown, crowded⟩ :=
        told id peer foreign.symm held (valid one peer held)
      · exact known
      · obtain known | free := room other
        · exact absurd unknown ((MeshState.contains_iff _ id).mp known)
        · exact absurd crowded (not_le.mpr free)
  have through : ∀ one other, Relation.ReflTransGen (last.Tells id) one other →
      (last.states one).record id ≤ (last.states other).record id := by
    intro one other path
    induction path with
    | refl => exact le_rfl
    | tail _ linked inductionHypothesis => exact inductionHypothesis.trans (along _ _ linked)
  exact ⟨through one other path, fun back => le_antisymm (through one other path)
    (through other one back)⟩

/-- In the end both know the machine that one of them knew. The links come up, each side sends
what it knows, and after that nothing is owed. -/
theorem rest_is_agreement_between_two :
    ∃ state last, Runs.run (step {0, 1}) (start acquainted) connecting = some state ∧
      Runs.run (step {0, 1}) state acquainting = some last ∧
        (last.states 0).record 2 = (last.states 1).record 2 := by
  have observed : ((Runs.run (step {0, 1}) (start acquainted) connecting).bind (fun state =>
      (Runs.run (step {0, 1}) state acquainting).map (fun last =>
        decide (∀ one other, state.connected one other = true → state.unsent one other = true) &&
        decide (Runs.Guarded (step {0, 1}) Faithful state acquainting) &&
        decide (∀ one other, last.unsent one other = false) && decide (last.flight = []) &&
        decide (∀ machine, last.queues machine = []) &&
        decide (∀ machine, ∀ peer ∈ (last.states machine).peers[(2 : Fin 3)]?,
          peer.isValid = true) &&
        decide (∀ machine, (last.states machine).peers.size < maxMeshPeers) &&
        last.connected 0 1 && last.connected 1 0))) = some true := by
    decide +kernel
  obtain ⟨state, reached, ran⟩ := Option.bind_eq_some_iff.mp observed
  obtain ⟨last, ran, holds⟩ := Option.map_eq_some_iff.mp ran
  simp only [Bool.and_eq_true, decide_eq_true_eq] at holds
  obtain ⟨⟨⟨⟨⟨⟨⟨⟨owing, faithful⟩, sent⟩, arrived⟩, merged⟩, valid⟩, room⟩, there⟩, back⟩ := holds
  exact ⟨state, last, reached, ran, (rest_is_agreement {0, 1} state last acquainting owing faithful
    ran ⟨sent, arrived, merged⟩ 2 valid (fun machine => .inr (room machine)) 0 1
    (.single ⟨there, by decide⟩)).2 (.single ⟨back, by decide⟩)⟩

end Spreading

end Yank
