import Yank.Drift

/-!
# From one clipboard to another

A connection announces the stamp of the clip of one machine to another, which pulls the clip
when it is newer than its own. One machine's side of it is a sender that watches the published
head and sends the latest one, when it changed and again every so often; the other's is the
latest head that arrived, and a fetcher that looks at it whenever one arrives.

Heads travel on streams of their own. They overtake each other, they get lost, and a peer may
send any head it likes. A pull takes time, meanwhile both clipboards go on, and it may fail;
nobody tries it again for its own sake.

What holds throughout is that the published head is on its way: unsent, on a stream, held
where the fetcher will look, or what the fetcher is after.
-/

namespace Yank

variable {Id Hash : Type}

/-- Where the fetcher of a connection is at. -/
inductive Fetching (Id Hash : Type) where
  /-- Waits for a head to arrive. -/
  | waiting
  /-- Waits for its turn to pull the clip. -/
  | claiming (head : Stamp Id)
  /-- Asked for the clip. -/
  | pulling (head : Stamp Id)
  /-- The peer answered with what it held then. -/
  | answered (head : Stamp Id) (clip : Option (Clip Id Hash))
deriving DecidableEq

/-- The clip the fetcher was given. -/
def Fetching.clip : Fetching Id Hash → Option (Clip Id Hash)
  | .answered _ clip => clip
  | _ => none

/-- A connection between two clipboards, in one of its directions. -/
structure Replication (Id Hash : Type) where
  source : Clipboard Id Hash
  /-- The head the source's peers watch. -/
  published : WithBot (Stamp Id)
  /-- Whether the sender has a head it did not send yet. -/
  unsent : Bool
  /-- The heads on the streams. -/
  flight : List (Stamp Id)
  /-- The newest head that arrived. -/
  heads : WithBot (Stamp Id)
  /-- Whether one arrived since the fetcher last looked. -/
  unseen : Bool
  fetching : Fetching Id Hash
  target : Clipboard Id Hash

/-- What happens to a connection and at its ends. -/
inductive ReplicationLabel (Id Hash : Type) where
  | source (event : Clipboard.Event Id Hash)
  | target (event : Clipboard.Event Id Hash)
  /-- The periodic resend. -/
  | tick
  | send
  /-- The peer says something else than its head. -/
  | pretend (head : Stamp Id)
  | lose (index : Nat)
  | arrive (index : Nat) (now : SystemTime)
  /-- The fetcher looks at the newest head. -/
  | look
  /-- It is its turn. -/
  | claim
  | answer
  | accept (clock : Clock)
  /-- The pull fails or takes too long. -/
  | fail

/-- Whether an event takes the machine's connections with it. -/
def Clipboard.Event.isRestart : Clipboard.Event Id Hash → Bool
  | .restart _ _ => true
  | _ => false

namespace Replication

variable [LinearOrder Id]

/-- What the fetcher does about the newest head. -/
def fetchingOf (heads : WithBot (Stamp Id)) : Fetching Id Hash :=
  match (heads : Option (Stamp Id)) with
  | none => .waiting
  | some head => .claiming head

/-- A new connection: nothing arrived, and the first tick is due at once. -/
def opened (source target : Clipboard Id Hash) : Replication Id Hash where
  source := source
  published := source.head
  unsent := true
  flight := []
  heads := ⊥
  unseen := false
  fetching := .waiting
  target := target

variable [ContentHash Hash] [DecidableEq Hash]

/-- `ClipService::try_change` on the source: a head that changed is published. -/
def change (event : Clipboard.Event Id Hash) (state : Replication Id Hash) :
    Replication Id Hash :=
  let outcome := state.source.step event
  if effectsOf outcome = [] then { state with source := outcome.1 }
  else
    { state with
      source := outcome.1
      published := outcome.1.head
      unsent := state.unsent || decide (state.published ≠ outcome.1.head) }

/-- One step of the connection or at one of its ends. -/
def step (state : Replication Id Hash) :
    ReplicationLabel Id Hash → Option (Replication Id Hash)
  | .source event => if event.isRestart then none else some (state.change event)
  | .target event =>
      if event.isRestart then none
      else some { state with target := (state.target.step event).1 }
  | .tick => some { state with unsent := true }
  | .send =>
      if state.unsent then
        some
          { state with
            unsent := false
            flight := state.flight ++ (state.published : Option (Stamp Id)).toList }
      else none
  | .pretend head => some { state with flight := state.flight ++ [head] }
  | .lose index =>
      if index < state.flight.length then
        some { state with flight := state.flight.eraseIdx index }
      else none
  | .arrive index now =>
      match state.flight[index]? with
      | none => none
      | some head =>
          if head.isPlausible now then
            some
              { state with
                flight := state.flight.eraseIdx index
                heads := max state.heads head
                unseen := true }
          else some { state with flight := state.flight.eraseIdx index }
  | .look =>
      match state.fetching, state.unseen with
      | .waiting, true =>
          some { state with unseen := false, fetching := fetchingOf state.heads }
      | _, _ => none
  | .claim =>
      match state.fetching with
      | .claiming head =>
          some
            { state with
              fetching := if ↑head ≤ state.target.head then .waiting else .pulling head }
      | _ => none
  | .answer =>
      match state.fetching with
      | .pulling head => some { state with fetching := .answered head state.source.clip }
      | _ => none
  | .accept clock =>
      match state.fetching with
      | .answered _ none => some { state with fetching := .waiting }
      | .answered _ (some clip) =>
          some
            { state with
              fetching := .waiting
              target := (state.target.accept clock clip).1 }
      | _ => none
  | .fail =>
      match state.fetching with
      | .pulling _ => some { state with fetching := .waiting }
      | .answered _ _ => some { state with fetching := .waiting }
      | _ => none

/-- The published head will come up again: it is unsent, on a stream, or where the fetcher
has yet to look. -/
def Coming (state : Replication Id Hash) : Prop :=
  state.unsent = true ∨ (∃ head ∈ state.flight, state.published = ↑head) ∨
    (state.unseen = true ∧ state.published ≤ state.heads)

/-- The target has the published head or will hear of it again. -/
def Retried (state : Replication Id Hash) : Prop :=
  state.published ≤ state.target.head ∨ state.Coming

/-- What the fetcher is after is as new as the published head. -/
def Pursued (state : Replication Id Hash) : Prop :=
  match state.fetching with
  | .waiting => False
  | .claiming head => state.published ≤ ↑head
  -- Whatever made it ask, it will be given what the source holds.
  | .pulling _ => True
  | .answered _ clip => state.published ≤ clip.map Clip.stamp

/-- What every step keeps that does not waste the last chance. -/
structure Chased (state : Replication Id Hash) : Prop where
  published : state.published = state.source.head
  chased : state.Retried ∨ state.Pursued

/-- A step that does not waste the last chance: where it loses the published head, or a pull
comes to nothing, the head comes up again. -/
def Lasting (state : Replication Id Hash) : ReplicationLabel Id Hash → Prop
  | .lose index => ∀ head ∈ state.flight[index]?, state.published = ↑head →
      Retried { state with flight := state.flight.eraseIdx index }
  | .arrive index now => ∀ head ∈ state.flight[index]?, state.published = ↑head →
      head.isPlausible now = true ∨ Retried { state with flight := state.flight.eraseIdx index }
  | .accept clock =>
      state.Retried ∨ ∀ clip ∈ state.fetching.clip, state.target.acceptable clock clip = .ok ()
  | .fail => state.Retried
  | _ => True

instance decidableRetried (state : Replication Id Hash) : Decidable state.Retried :=
  inferInstanceAs (Decidable (_ ∨ _ ∨ _ ∨ _))

instance decidableLasting (state : Replication Id Hash) :
    (label : ReplicationLabel Id Hash) → Decidable (state.Lasting label)
  | .lose index => inferInstanceAs (Decidable (∀ head ∈ state.flight[index]?, _ → Retried _))
  | .arrive index _ =>
      inferInstanceAs (Decidable (∀ head ∈ state.flight[index]?, _ → _ ∨ Retried _))
  | .accept clock =>
      inferInstanceAs (Decidable (state.Retried ∨ ∀ clip ∈ state.fetching.clip,
        state.target.acceptable clock clip = .ok ()))
  | .fail => inferInstanceAs (Decidable state.Retried)
  | .source _ => inferInstanceAs (Decidable True)
  | .target _ => inferInstanceAs (Decidable True)
  | .tick => inferInstanceAs (Decidable True)
  | .send => inferInstanceAs (Decidable True)
  | .pretend _ => inferInstanceAs (Decidable True)
  | .look => inferInstanceAs (Decidable True)
  | .claim => inferInstanceAs (Decidable True)
  | .answer => inferInstanceAs (Decidable True)

/-- Nothing is on its way and nobody is about to do anything. -/
structure Quiet (state : Replication Id Hash) : Prop where
  sent : state.unsent = false
  arrived : state.flight = []
  seen : state.unseen = false
  fetched : state.fetching = .waiting

section Steps

variable {state : Replication Id Hash}

/-- Whatever the source does, what is published is its head: a change that asks for nothing
leaves the clip alone. -/
theorem change_published (event : Clipboard.Event Id Hash) (running : event.isRestart = false)
    (published : state.published = state.source.head) :
    (state.change event).published = (state.change event).source.head := by
  unfold change
  dsimp only
  split
  · rename_i silent
    obtain same | ⟨rest, saves⟩ | ⟨clock, settings, rfl⟩ := state.source.saves_first event
    · exact published.trans (Clipboard.head_congr _ _ same).symm
    · rw [silent] at saves
      cases saves
    · cases running
  · rfl

/-- The head that is published is that of the clip. Every event of the source publishes its head
when it is through; the other labels leave both. -/
theorem step_published (state : Replication Id Hash) (label : ReplicationLabel Id Hash)
    (next : Replication Id Hash) (published : state.published = state.source.head)
    (taken : state.step label = some next) : next.published = next.source.head := by
  cases label with
  | source event =>
    rw [step] at taken
    split at taken
    · cases taken
    · rename_i running
      obtain rfl := Option.some.inj taken
      exact change_published event (Bool.eq_false_iff.mpr running) published
  | _ =>
    -- Nothing else touches the source or what it published.
    rw [step] at taken
    repeat' split at taken
    all_goals cases taken
    all_goals exact published

/-- A published head that did not change is as far as it was. -/
theorem Chased.source (chased : state.Chased) (event : Clipboard.Event Id Hash)
    (running : event.isRestart = false) : (state.change event).Chased := by
  refine ⟨change_published event running chased.published, ?_⟩
  unfold change
  dsimp only
  split
  · exact chased.chased
  · by_cases same : state.published = (state.source.step event).1.head
    · simpa [Retried, Coming, Pursued, ← same] using chased.chased
    · exact .inl (.inr (.inl (by simp [same])))

omit [ContentHash Hash] [DecidableEq Hash] in
/-- The target only goes on. -/
theorem Chased.target (chased : state.Chased) (target : Clipboard Id Hash)
    (onward : state.target.head ≤ target.head) : Chased { state with target } :=
  ⟨chased.published, chased.chased.imp_left (Or.imp_left onward.trans')⟩

omit [ContentHash Hash] [DecidableEq Hash] in
/-- A message taken off the streams leaves the head chased, unless it was the last of it. -/
theorem Chased.taken (chased : state.Chased) (index : Nat) (taken : Stamp Id)
    (found : state.flight[index]? = some taken)
    (spared : state.published = ↑taken →
      Retried { state with flight := state.flight.eraseIdx index }) :
    Chased { state with flight := state.flight.eraseIdx index } := by
  refine ⟨chased.published, ?_⟩
  obtain (has | unsent | ⟨head, member, same⟩ | unseen) | pursued := chased.chased
  · exact .inl (.inl has)
  · exact .inl (.inr (.inl unsent))
  · obtain rfl | left := Runs.taken_or_left state.flight index taken head found member
    · exact .inl (spared same)
    · exact .inl (.inr (.inr (.inl ⟨head, left, same⟩)))
  · exact .inl (.inr (.inr (.inr unseen)))
  · exact .inr pursued

/-- Every step that does not waste the last chance keeps the head chased. One case for each label,
by what chases the head: an attempt that is still to come, or whatever is on its way to tell of
it. -/
theorem step_chased (next : Replication Id Hash) (label : ReplicationLabel Id Hash)
    (chased : state.Chased) (lasting : state.Lasting label)
    (taken : state.step label = some next) : next.Chased := by
  obtain ⟨published, chasing⟩ := chased
  cases label with
  | source event =>
    rw [step] at taken
    split at taken
    · cases taken
    · rename_i running
      obtain rfl := Option.some.inj taken
      exact Chased.source ⟨published, chasing⟩ event (Bool.eq_false_iff.mpr running)
  | target event =>
    rw [step] at taken
    split at taken
    · cases taken
    · obtain rfl := Option.some.inj taken
      exact Chased.target ⟨published, chasing⟩ _ (Clipboard.step_moved state.target event).head_le
  | tick =>
    obtain rfl := Option.some.inj taken
    exact ⟨published, .inl (.inr (.inl rfl))⟩
  | send =>
    rw [step] at taken
    split at taken
    · obtain rfl := Option.some.inj taken
      refine ⟨published, .inl ?_⟩
      cases same : state.published with
      | bot => exact .inl bot_le
      | coe head =>
        exact .inr (.inr (.inl ⟨head, List.mem_append_right _ (List.mem_singleton.mpr rfl), rfl⟩))
    · cases taken
  | pretend head =>
    obtain rfl := Option.some.inj taken
    refine ⟨published, chasing.imp_left (Or.imp_right (Or.imp_right (Or.imp_left ?_)))⟩
    rintro ⟨sent, member, same⟩
    exact ⟨sent, List.mem_append_left _ member, same⟩
  | lose index =>
    rw [step] at taken
    split at taken
    · rename_i inside
      obtain rfl := Option.some.inj taken
      have found := List.getElem?_eq_getElem inside
      exact Chased.taken ⟨published, chasing⟩ index _ found (lasting _ found)
    · cases taken
  | arrive index now =>
    rw [step] at taken
    split at taken
    · cases taken
    · rename_i head found
      split at taken
      · obtain rfl := Option.some.inj taken
        refine ⟨published, ?_⟩
        by_cases same : state.published = ↑head
        · exact .inl (.inr (.inr (.inr ⟨rfl, same ▸ le_max_right _ _⟩)))
        · have chased := Chased.taken ⟨published, chasing⟩ index head found (absurd · same)
          refine chased.chased.imp_left (Or.imp_right (Or.imp_right (Or.imp_right ?_)))
          rintro ⟨_, below⟩
          exact ⟨rfl, below.trans (le_max_left _ _)⟩
      · rename_i implausible
        obtain rfl := Option.some.inj taken
        exact Chased.taken ⟨published, chasing⟩ index head found
          (fun same => (lasting head found same).resolve_left implausible)
  | look =>
    rw [step] at taken
    split at taken
    · rename_i idle unseen
      obtain rfl := Option.some.inj taken
      refine ⟨published, ?_⟩
      obtain (has | unsent | sent | ⟨_, below⟩) | pursued := chasing
      · exact .inl (.inl has)
      · exact .inl (.inr (.inl unsent))
      · exact .inl (.inr (.inr (.inl sent)))
      · cases newest : state.heads with
        | bot =>
          have nothing : state.published = ⊥ := le_bot_iff.mp (newest ▸ below)
          exact .inl (.inl (nothing.le.trans bot_le))
        | coe head =>
          have behind : state.published ≤ ↑head := newest ▸ below
          exact .inr behind
      · simp [Pursued, idle] at pursued
    · cases taken
  | claim =>
    rw [step] at taken
    split at taken
    · rename_i head claiming
      obtain rfl := Option.some.inj taken
      refine ⟨published, ?_⟩
      obtain retried | pursued := chasing
      · exact .inl retried
      · by_cases has : ↑head ≤ state.target.head
        · have below : state.published ≤ ↑head := by simpa [Pursued, claiming] using pursued
          exact .inl (.inl (below.trans has))
        · exact .inr (by simp [Pursued, has])
    · cases taken
  | answer =>
    rw [step] at taken
    split at taken
    · obtain rfl := Option.some.inj taken
      exact ⟨published, .inr published.le⟩
    · cases taken
  | accept clock =>
    rw [step] at taken
    split at taken
    · rename_i head answered
      obtain rfl := Option.some.inj taken
      refine ⟨published, .inl ?_⟩
      obtain retried | pursued := chasing
      · exact retried
      · have nothing : state.published ≤ ⊥ := by
          unfold Pursued at pursued
          rwa [answered] at pursued
        exact .inl (nothing.trans bot_le)
    · rename_i head clip answered
      obtain rfl := Option.some.inj taken
      have onward : state.target.head ≤ (state.target.accept clock clip).1.head :=
        (Clipboard.step_moved state.target (.accept clock clip)).head_le
      refine ⟨published, .inl ?_⟩
      by_cases retried : state.Retried
      · exact retried.imp_left onward.trans'
      · have welcome := (lasting.resolve_left retried) clip (by rw [answered]; rfl)
        have pulled : state.published ≤ ↑clip.stamp := by
          have pursued := chasing.resolve_left retried
          unfold Pursued at pursued
          rwa [answered] at pursued
        left
        rw [Clipboard.accept_head clock clip state.target welcome]
        exact pulled.trans le_sup_right
    · cases taken
  | fail =>
    rw [step] at taken
    split at taken
    · obtain rfl := Option.some.inj taken
      exact ⟨published, .inl lasting⟩
    · obtain rfl := Option.some.inj taken
      exact ⟨published, .inl lasting⟩
    · cases taken

end Steps

/-- A quiet connection has caught up. From any moment at which the sender has something to
send, as it does on connecting and at every periodic resend, whatever happened before: when
no step since has wasted the last chance of the published head and the connection is quiet,
the target's clip is not older than the source's. Older heads may be lost, overtaken or made
up, pulls may fail, and both ends may change at any step. -/
theorem quiet_connection_has_caught_up (source target : Clipboard Id Hash)
    (early labels : List (ReplicationLabel Id Hash)) (state last : Replication Id Hash)
    (reached : Runs.run step (opened source target) early = some state)
    (owing : state.unsent = true) (lasting : Runs.Guarded step Lasting state labels)
    (ran : Runs.run step state labels = some last) (quiet : last.Quiet) :
    last.source.head ≤ last.target.head := by
  have published := Runs.run_invariant step
    (fun state : Replication Id Hash => state.published = state.source.head)
    step_published (opened source target) state early rfl reached
  have chased := Runs.guarded_invariant step Lasting Chased
    (fun state label next chased lasting taken => step_chased next label chased lasting taken)
    state last labels ⟨published, .inl (.inr (.inl owing))⟩ lasting ran
  rw [← chased.published]
  obtain (has | unsent | ⟨head, member, _⟩ | ⟨unseen, _⟩) | pursued := chased.chased
  · exact has
  · exact absurd unsent (by simp [quiet.sent])
  · simp [quiet.arrived] at member
  · exact absurd unseen (by simp [quiet.seen])
  · simp [Pursued, quiet.fetched] at pursued

/-- A text is copied and its first announcement lost; then it is time to send again. -/
def missing : List (ReplicationLabel Nat Bytes) :=
  [.send, .source (Clipboard.copyHello 5000000), .send, .lose 0, .tick]

/-- It is asked for, copied again meanwhile, and the first pull fails. -/
def bringing : List (ReplicationLabel Nat Bytes) :=
  [.send, .arrive 0 5000000, .look, .claim, .source (Clipboard.copyHello 6000000), .fail, .send,
    .arrive 0 6000000, .look, .claim, .answer, .accept (Aging.readAt 6000000)]

/-- A text arrives though the first head that told of it was lost. It is told of again at a tick,
and the second pull brings it. -/
theorem quiet_connection_has_caught_up_with_a_text :
    ∃ state last : Replication Nat Bytes,
      Runs.run step (opened (.new (Aging.readAt 0) 0 Settings.default none)
        (.new (Aging.readAt 0) 1 Settings.default none)) missing = some state ∧
      Runs.run step state bringing = some last ∧ last.source.head ≤ last.target.head := by
  have observed : ((Runs.run step (opened (.new (Aging.readAt 0) 0 Settings.default none)
      (.new (Aging.readAt 0) 1 Settings.default none)) missing).bind (fun state =>
        (Runs.run step state bringing).map (fun last =>
          state.unsent && decide (Runs.Guarded step Lasting state bringing) && !last.unsent &&
            decide (last.flight = []) && !last.unseen &&
            decide (last.fetching = .waiting)))) = some true := by
    decide +kernel
  obtain ⟨state, reached, ran⟩ := Option.bind_eq_some_iff.mp observed
  obtain ⟨last, ran, holds⟩ := Option.map_eq_some_iff.mp ran
  simp only [Bool.and_eq_true, Bool.not_eq_true', decide_eq_true_eq] at holds
  obtain ⟨⟨⟨⟨⟨owing, lasting⟩, sent⟩, arrived⟩, seen⟩, fetched⟩ := holds
  exact ⟨state, last, reached, ran, quiet_connection_has_caught_up _ _ missing bringing state last
    reached owing lasting ran ⟨sent, arrived, seen, fetched⟩⟩

end Replication

end Yank
