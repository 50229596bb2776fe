import Mathlib.Data.List.AList
import Yank.Mime
import Yank.Runs

/-!
# Reading the selection that is there

The compositor introduces an offer, announces its types and makes it the selection; what
was offered before is then destroyed, and the read of the new selection is left to be
started once the events at hand are dispatched. Several selections can come in one batch.

The compositor is a party of its own. It introduces each offer once and makes an offer the
selection at most once, out of those it introduced since the selection changed last.

Every offer is destroyed at most once, whatever comes. A read that is left to be started
is for the selection that is there as long as no selection that is not read, one of yank's
own or one that is gone, comes between. Where one does, the read that is started is of an
offer that was destroyed, and the library sends no request on it.
-/

namespace Yank.Wayland

variable {Offer : Type}

/-- What is asked of the compositor about an offer. -/
inductive Request (Offer : Type) where
  | destroy (offer : Offer)
  | receive (offer : Offer) (mime : String)
deriving DecidableEq

def Request.offer : Request Offer → Offer
  | destroy offer => offer
  | receive offer _ => offer

/-- What tells how a capture may read. -/
structure Policy where
  /-- Most bytes one selection may have. -/
  maxBytes : Nat
  /-- Types never read. -/
  ignore : List String
deriving DecidableEq

/-- A selection the handler decided to read. -/
structure PendingRead (Offer : Type) where
  offer : Offer
  /-- The types to read it in, best first. -/
  mimes : List String
  secret : Bool
deriving DecidableEq

/-- The offers destroyed, in order. -/
def destroyed (requests : List (Request Offer)) : List Offer :=
  requests.filterMap (fun request =>
    match request with
    | .destroy offer => some offer
    | .receive _ _ => none)

/-- The dispatch target, with every request on an offer that was sent so far. -/
structure State (Offer : Type) where
  /-- Mime types announced so far, per offer, until the offer becomes the selection or is
  superseded. -/
  offers : AList (fun _ : Offer => List String)
  /-- The offer the current selection came from. -/
  current : Option Offer
  policy : Policy
  /-- Cleared when the compositor withdraws the device. -/
  alive : Bool
  /-- Set when a selection has to be read. -/
  pendingRead : Option (PendingRead Offer)
  requests : List (Request Offer)

/-- What is dispatched: what a device and an offer tell us, and the call that starts the
read there is to start, which creates pipes until it cannot. -/
inductive Event (Offer : Type) where
  | newOffer (offer : Offer)
  | offerMime (offer : Offer) (mime : String)
  | selection (offer : Option Offer)
  | finished
  | startPendingRead (pipes : Nat)

namespace State

/-- A session that has heard nothing yet. -/
def initial (policy : Policy) : State Offer where
  offers := ∅
  current := none
  policy := policy
  alive := true
  pendingRead := none
  requests := []

/-- Releases the offers the compositor superseded. -/
def forgetStaleOffers (state : State Offer) : State Offer :=
  { state with
    requests := state.requests ++ (state.offers.keys ++ state.current.toList).map .destroy
    offers := ∅
    current := none }

variable [DecidableEq Offer]

/-- Issues the reads a selection event asked for, one pipe per type. -/
def startPendingRead (pipes : Nat) (state : State Offer) : State Offer :=
  match state.pendingRead with
  | none => state
  | some pending =>
      -- The library drops what is asked of an offer that was destroyed.
      let sent := if pending.offer ∈ destroyed state.requests then [] else pending.mimes.take pipes
      { state with
        pendingRead := none
        requests := state.requests ++ sent.map (.receive pending.offer) }

/-- Collects a mime type announced by an offer. -/
def onOfferMime (offer : Offer) (mime : String) (state : State Offer) : State Offer :=
  match state.offers.lookup offer with
  | none => state
  | some mimes => { state with offers := state.offers.replace offer (mimes ++ [mime]) }

/-- Handles a selection event that names an offer. -/
def onSelection (offer : Offer) (state : State Offer) : State Offer :=
  let mimes := (state.offers.lookup offer).getD []
  let forgotten := ({ state with offers := state.offers.erase offer } : State Offer).forgetStaleOffers
  let taken : State Offer := { forgotten with current := some offer }
  -- Our own selection comes back as an event like any other.
  if mimes.contains Mime.marker then taken
  else if Mime.select mimes state.policy.ignore = [] then taken
  else
    { taken with
      pendingRead := some {
        offer
        mimes := Mime.select mimes state.policy.ignore
        secret := mimes.contains Mime.secretHint } }

/-- Handles what is dispatched. -/
def dispatch (state : State Offer) : Event Offer → State Offer
  | .newOffer offer => { state with offers := state.offers.insert offer [] }
  | .offerMime offer mime => state.onOfferMime offer mime
  | .selection (some offer) => state.onSelection offer
  | .selection none => state.forgetStaleOffers
  | .finished => { state with alive := false }
  | .startPendingRead pipes => state.startPendingRead pipes

end State

/-- What the compositor has introduced, and what of it since the selection changed last. -/
structure Compositor (Offer : Type) where
  introduced : List Offer
  unused : List Offer

namespace Compositor

def initial : Compositor Offer where
  introduced := []
  unused := []

variable [DecidableEq Offer]

/-- The compositor introduces an offer once, and makes it the selection, if it does, before
another selection comes. -/
def send (compositor : Compositor Offer) : Event Offer → Option (Compositor Offer)
  | .newOffer offer =>
      if offer ∈ compositor.introduced then none
      else some {
        introduced := offer :: compositor.introduced
        unused := offer :: compositor.unused }
  | .selection (some offer) =>
      if offer ∈ compositor.unused then some { compositor with unused := [] } else none
  | .selection none => some { compositor with unused := [] }
  | _ => some compositor

end Compositor

/-- The two ends of a session. -/
structure Session (Offer : Type) where
  compositor : Compositor Offer
  state : State Offer

namespace Session

def initial (policy : Policy) : Session Offer where
  compositor := .initial
  state := .initial policy

/-- An event is dispatched when the compositor may send it. -/
def step [DecidableEq Offer] (session : Session Offer) (event : Event Offer) :
    Option (Session Offer) :=
  (session.compositor.send event).map
    (fun compositor => { compositor, state := session.state.dispatch event })

end Session

/-! ## Requests on offers -/

/-- No request is made on an offer that was destroyed before. -/
def Live (requests : List (Request Offer)) : Prop :=
  ∀ before request after, requests = before ++ request :: after →
    request.offer ∉ destroyed before

/-- The offers destroyed by requests are those of each part. -/
@[simp] theorem destroyed_append (early late : List (Request Offer)) :
    destroyed (early ++ late) = destroyed early ++ destroyed late := List.filterMap_append

/-- Destroying offers destroys these. -/
@[simp] theorem destroyed_destroys (offers : List Offer) :
    destroyed (offers.map .destroy) = offers := by
  rw [destroyed, List.filterMap_map]
  exact List.filterMap_some

/-- Reading destroys none. -/
@[simp] theorem destroyed_receives (offer : Offer) (mimes : List String) :
    destroyed (mimes.map (.receive offer)) = [] := by
  rw [destroyed, List.filterMap_map, List.filterMap_eq_nil_iff]
  intro mime _
  rfl

/-- A request on an offer that is there leaves all requests on offers that were. -/
theorem live_concat (requests : List (Request Offer)) (request : Request Offer)
    (live : Live requests) (there : request.offer ∉ destroyed requests) :
    Live (requests ++ [request]) := by
  intro before other after split
  obtain rfl | ⟨early, last, rfl⟩ := List.eq_nil_or_concat after
  · obtain ⟨rfl, same⟩ := List.append_inj' split rfl
    obtain rfl := (List.cons.inj same).1
    exact there
  · rw [List.concat_eq_append, ← List.cons_append, ← List.append_assoc] at split
    exact live before other early (List.append_inj' split rfl).1

/-- Offers that are there may be destroyed one after the other. -/
theorem live_destroys (requests : List (Request Offer)) (offers : List Offer)
    (live : Live requests) (once : (destroyed requests ++ offers).Nodup) :
    Live (requests ++ offers.map .destroy) := by
  induction offers generalizing requests with
  | nil => simpa using live
  | cons offer offers inductionHypothesis =>
    have there : offer ∉ destroyed requests := by
      intro gone
      exact (List.nodup_append.mp once).2.2 offer gone offer List.mem_cons_self rfl
    have next := inductionHypothesis (requests ++ [.destroy offer])
      (live_concat requests (.destroy offer) live there)
      (by simpa [destroyed, List.append_assoc] using once)
    simpa using next

/-- An offer that is there may be read in any types. -/
theorem live_receives (requests : List (Request Offer)) (offer : Offer) (mimes : List String)
    (live : Live requests) (there : offer ∉ destroyed requests) :
    Live (requests ++ mimes.map (.receive offer)) := by
  induction mimes generalizing requests with
  | nil => simpa using live
  | cons mime mimes inductionHypothesis =>
    have next := inductionHypothesis (requests ++ [.receive offer mime])
      (live_concat requests (.receive offer mime) live there)
      (by simpa [destroyed] using there)
    simpa using next

/-! ## What every session keeps -/

/-- The offers there are to destroy. -/
def State.stale (state : State Offer) : List Offer := state.offers.keys ++ state.current.toList

/-- What is destroyed once more is forgotten is what was stale. -/
theorem destroyed_forgotten (state : State Offer) :
    destroyed state.forgetStaleOffers.requests = destroyed state.requests ++ state.stale := by
  rw [State.forgetStaleOffers, destroyed_append, destroyed_destroys]
  rfl

/-- The offers that were announced are those the compositor has not used, the current
offer and those destroyed are others, and each was introduced and destroyed once at most. -/
structure Kept (session : Session Offer) : Prop where
  announced : ∀ offer, offer ∈ session.state.offers ↔ offer ∈ session.compositor.unused
  introduced : ∀ offer ∈ session.compositor.unused, offer ∈ session.compositor.introduced
  selected : ∀ offer, session.state.current = some offer →
    offer ∈ session.compositor.introduced ∧ offer ∉ session.compositor.unused ∧
      offer ∉ destroyed session.state.requests
  gone : ∀ offer ∈ destroyed session.state.requests,
    offer ∈ session.compositor.introduced ∧ offer ∉ session.compositor.unused
  once : (destroyed session.state.requests).Nodup

/-- No offer was introduced yet. -/
theorem Kept.initial (policy : Policy) : Kept (Session.initial policy : Session Offer) where
  announced := by simp [Session.initial, State.initial, Compositor.initial]
  introduced := by simp [Session.initial, Compositor.initial]
  selected := by simp [Session.initial, State.initial]
  gone := by simp [Session.initial, State.initial, destroyed]
  once := List.nodup_nil

/-- Only introduced offers are stale. -/
theorem Kept.stale {session : Session Offer} (kept : Kept session) (offer : Offer)
    (member : offer ∈ session.state.stale) : offer ∈ session.compositor.introduced := by
  rw [State.stale, List.mem_append] at member
  obtain announced | selected := member
  · rw [← AList.mem_keys, kept.announced] at announced
    exact kept.introduced offer announced
  · exact (kept.selected offer (Option.mem_toList.mp selected)).1

/-- What is stale can still be destroyed, each offer once. The announced offers are unused, so
they are apart from the current one and from those destroyed before. -/
theorem Kept.forget {session : Session Offer} (kept : Kept session) :
    (destroyed session.state.requests ++ session.state.stale).Nodup := by
  have unused (offer : Offer) (member : offer ∈ session.state.offers.keys) :
      offer ∈ session.compositor.unused := by
    rw [← AList.mem_keys, kept.announced] at member
    exact member
  have selected : ∀ offer ∈ session.state.current.toList,
      session.state.current = some offer := fun offer member => Option.mem_toList.mp member
  refine List.nodup_append.mpr ⟨kept.once, List.nodup_append.mpr ⟨?_, ?_, ?_⟩, ?_⟩
  · exact session.state.offers.keys_nodup
  · cases session.state.current with
    | none => exact List.nodup_nil
    | some offer => exact List.nodup_singleton offer
  · rintro offer member other current rfl
    exact (kept.selected offer (selected offer current)).2.1 (unused offer member)
  · rintro offer before other after rfl
    obtain member | current := List.mem_append.mp after
    · exact (kept.gone offer before).2 (unused offer member)
    · exact (kept.selected offer (selected offer current)).2.2 before

/-- What is kept is about the announced offers, the current one and those destroyed. -/
theorem Kept.congr {session : Session Offer} (kept : Kept session) (state : State Offer)
    (offers : ∀ offer, offer ∈ state.offers ↔ offer ∈ session.state.offers)
    (current : state.current = session.state.current)
    (gone : destroyed state.requests = destroyed session.state.requests) :
    Kept { session with state } where
  announced offer := (offers offer).trans (kept.announced offer)
  introduced := kept.introduced
  selected offer selected := by
    rw [gone]
    exact kept.selected offer (current ▸ selected)
  gone offer before := kept.gone offer (gone ▸ before)
  once := by
    rw [gone]
    exact kept.once

/-- A selection changes what is kept when it leaves nothing announced, destroys only what was
stale, once, and selects at most an unused offer that it did not destroy. -/
theorem Kept.replace {session : Session Offer} (kept : Kept session) (state : State Offer)
    (forgotten : List Offer) (among : forgotten.Sublist session.state.stale)
    (offers : state.offers = ∅)
    (gone : destroyed state.requests = destroyed session.state.requests ++ forgotten)
    (current : ∀ offer, state.current = some offer →
      offer ∈ session.compositor.unused ∧ offer ∉ forgotten) :
    Kept { compositor := { session.compositor with unused := [] }, state } where
  announced offer := by simp [offers]
  introduced offer member := by cases member
  selected offer selected := by
    obtain ⟨unused, kept_⟩ := current offer selected
    refine ⟨kept.introduced offer unused, List.not_mem_nil, ?_⟩
    rw [gone, List.mem_append, not_or]
    exact ⟨fun before => (kept.gone offer before).2 unused, kept_⟩
  gone offer before := by
    rw [gone, List.mem_append] at before
    exact ⟨before.elim (fun old => (kept.gone offer old).1)
      (fun stale => kept.stale offer (among.subset stale)), List.not_mem_nil⟩
  once := by
    rw [gone]
    exact kept.forget.sublist (List.Sublist.append_left among _)

variable [DecidableEq Offer]

/-- An offer that is introduced waits to be used. It was not introduced before, so it is neither
current nor destroyed. -/
theorem Kept.newOffer {session : Session Offer} (kept : Kept session) (offer : Offer)
    (fresh : offer ∉ session.compositor.introduced) :
    Kept { compositor := {
             introduced := offer :: session.compositor.introduced
             unused := offer :: session.compositor.unused }
           state := { session.state with offers := session.state.offers.insert offer [] } } where
  announced other := by
    rw [AList.mem_insert, kept.announced, List.mem_cons]
  introduced other member := by
    obtain rfl | old := List.mem_cons.mp member
    · exact List.mem_cons_self
    · exact List.mem_cons_of_mem offer (kept.introduced other old)
  selected other current := by
    obtain ⟨known, used, there⟩ := kept.selected other current
    refine ⟨List.mem_cons_of_mem offer known, fun member => ?_, there⟩
    obtain rfl | old := List.mem_cons.mp member
    · exact fresh known
    · exact used old
  gone other before := by
    obtain ⟨known, used⟩ := kept.gone other before
    refine ⟨List.mem_cons_of_mem offer known, fun member => ?_⟩
    obtain rfl | old := List.mem_cons.mp member
    · exact fresh known
    · exact used old
  once := kept.once

/-- What an announced type changes is the offer's own list. -/
theorem onOfferMime_spec (offer : Offer) (mime : String) (state : State Offer) :
    (∀ other, other ∈ (state.onOfferMime offer mime).offers ↔ other ∈ state.offers) ∧
      (state.onOfferMime offer mime).current = state.current ∧
      (state.onOfferMime offer mime).requests = state.requests ∧
      (state.onOfferMime offer mime).pendingRead = state.pendingRead := by
  unfold State.onOfferMime
  split
  · exact ⟨fun _ => Iff.rfl, rfl, rfl, rfl⟩
  · exact ⟨fun _ => AList.mem_replace, rfl, rfl, rfl⟩

/-- What a selection that names an offer is read in: nothing when it is yank's own or has no
usable type. -/
def State.wanted (state : State Offer) (offer : Offer) : List String :=
  let mimes := (state.offers.lookup offer).getD []
  if mimes.contains Mime.marker then [] else Mime.select mimes state.policy.ignore

/-- A selection event leaves nothing announced and its own offer selected, destroys what was
stale beside it, and leaves the read it asks for, if it asks for one. -/
theorem onSelection_spec (offer : Offer) (state : State Offer) :
    (state.onSelection offer).offers = ∅ ∧ (state.onSelection offer).current = some offer ∧
      (state.onSelection offer).requests = state.requests ++
        ((state.offers.erase offer).keys ++ state.current.toList).map .destroy ∧
      if state.wanted offer = [] then
        (state.onSelection offer).pendingRead = state.pendingRead
      else ∃ read, (state.onSelection offer).pendingRead = some read ∧ read.offer = offer := by
  unfold State.onSelection State.wanted
  by_cases marked : ((state.offers.lookup offer).getD []).contains Mime.marker = true
  · simp only [marked, if_true]
    exact ⟨rfl, trivial, rfl, rfl⟩
  by_cases nothing : Mime.select ((state.offers.lookup offer).getD []) state.policy.ignore = []
  · simp only [marked, nothing, Bool.false_eq_true, if_false, if_true]
    exact ⟨rfl, trivial, rfl, rfl⟩
  · simp only [marked, nothing, Bool.false_eq_true, if_false]
    exact ⟨rfl, trivial, rfl, _, rfl, rfl⟩

/-- Erasing an offer erases it from what is stale. -/
theorem stale_erase (state : State Offer) (offer : Offer) :
    ((state.offers.erase offer).keys ++ state.current.toList).Sublist state.stale := by
  rw [AList.keys_erase]
  exact List.Sublist.append_right List.erase_sublist _

/-- The read that is started is taken, and only read from. -/
theorem startPendingRead_spec (pipes : Nat) (state : State Offer) :
    (state.startPendingRead pipes).offers = state.offers ∧
      (state.startPendingRead pipes).current = state.current ∧
      destroyed (state.startPendingRead pipes).requests = destroyed state.requests := by
  unfold State.startPendingRead
  split
  · exact ⟨rfl, rfl, rfl⟩
  · refine ⟨rfl, rfl, ?_⟩
    rw [destroyed_append, destroyed_receives, List.append_nil]

/-- Every event keeps each offer in its place. Each event of the compositor is followed by its
handler, which at most moves an offer on: announced, then current or destroyed. -/
theorem step_kept (session : Session Offer) (event : Event Offer) (next : Session Offer)
    (kept : Kept session) (taken : session.step event = some next) : Kept next := by
  obtain ⟨compositor, sent, rfl⟩ := Option.map_eq_some_iff.mp taken
  cases event with
  | newOffer offer =>
    rw [Compositor.send, Option.ite_none_left_eq_some, Option.some.injEq] at sent
    obtain ⟨fresh, rfl⟩ := sent
    exact kept.newOffer offer fresh
  | offerMime offer mime =>
    obtain rfl := Option.some.inj sent
    obtain ⟨offers, current, requests, _⟩ := onOfferMime_spec offer mime session.state
    exact kept.congr _ offers current (congrArg destroyed requests)
  | selection offered =>
    cases offered with
    | none =>
      obtain rfl := Option.some.inj sent
      exact kept.replace session.state.forgetStaleOffers session.state.stale (List.Sublist.refl _)
        rfl (destroyed_forgotten session.state) (fun offer impossible => nomatch impossible)
    | some offer =>
      rw [Compositor.send, Option.ite_none_right_eq_some, Option.some.injEq] at sent
      obtain ⟨unused, rfl⟩ := sent
      obtain ⟨offers, current, requests, _⟩ := onSelection_spec offer session.state
      refine kept.replace (session.state.onSelection offer) _ (stale_erase session.state offer)
        offers (by rw [requests, destroyed_append, destroyed_destroys]) fun other selected => ?_
      obtain rfl : offer = other := Option.some.inj (current.symm.trans selected)
      refine ⟨unused, ?_⟩
      rw [List.mem_append, not_or, ← AList.mem_keys, AList.mem_erase]
      exact ⟨fun erased => erased.1 rfl,
        fun still => (kept.selected offer (Option.mem_toList.mp still)).2.1 unused⟩
  | finished =>
    obtain rfl := Option.some.inj sent
    exact kept.congr _ (fun _ => Iff.rfl) rfl rfl
  | startPendingRead pipes =>
    obtain rfl := Option.some.inj sent
    obtain ⟨offers, current, gone⟩ := startPendingRead_spec pipes session.state
    refine kept.congr (session.state.startPendingRead pipes) (fun other => ?_) current gone
    rw [offers]

/-! ## The read that is left to be started -/

/-- Every offer is destroyed at most once, no request is made on one that was, and the read
that is left to be started is of the selection that is there. -/
structure Sound (state : State Offer) : Prop where
  once : (destroyed state.requests).Nodup
  live : Live state.requests
  pending : ∀ read, state.pendingRead = some read → state.current = some read.offer

/-- No read is left to be started when a selection comes that is not read. -/
def Heeds (session : Session Offer) : Event Offer → Prop
  | .selection (some offer) => session.state.wanted offer = [] → session.state.pendingRead = none
  | .selection none => session.state.pendingRead = none
  | _ => True

/-- Where a session is sound, a step leaves it sound exactly when no read was left for a
selection that the step replaces without one of its own. -/
theorem step_sound_iff (session : Session Offer) (event : Event Offer) (next : Session Offer)
    (held : Kept session ∧ Sound session.state) (taken : session.step event = some next) :
    (Kept next ∧ Sound next.state) ↔ Heeds session event := by
  obtain ⟨kept, sound⟩ := held
  have after := step_kept session event next kept taken
  obtain ⟨compositor, sent, rfl⟩ := Option.map_eq_some_iff.mp taken
  rw [and_iff_right after]
  cases event with
  | newOffer offer => exact ⟨fun _ => trivial, fun _ => ⟨sound.once, sound.live, sound.pending⟩⟩
  | offerMime offer mime =>
    obtain ⟨_, current, requests, pending⟩ := onOfferMime_spec offer mime session.state
    refine ⟨fun _ => trivial, fun _ => ⟨after.once, ?_, fun read left => ?_⟩⟩
    · change Live (session.state.onOfferMime offer mime).requests
      rw [requests]
      exact sound.live
    · exact current.trans (sound.pending read (pending.symm.trans left))
  | selection offered =>
    cases offered with
    | none =>
      constructor
      · intro still
        change session.state.pendingRead = none
        cases left : session.state.pendingRead with
        | none => rfl
        | some read => cases still.pending read left
      · intro none_left
        refine ⟨after.once, live_destroys _ _ sound.live kept.forget, fun read left => ?_⟩
        cases none_left.symm.trans left
    | some offer =>
      rw [Compositor.send, Option.ite_none_right_eq_some] at sent
      obtain ⟨offers, current, requests, pending⟩ := onSelection_spec offer session.state
      constructor
      · intro still unwanted
        rw [if_pos unwanted] at pending
        cases left : session.state.pendingRead with
        | none => rfl
        | some read =>
          have moved : offer = read.offer :=
            Option.some.inj (current.symm.trans (still.pending read (pending.trans left)))
          have used := (kept.selected read.offer (sound.pending read left)).2.1
          exact absurd (moved ▸ sent.1) used
      · intro heeds
        refine ⟨after.once, ?_, fun read left => ?_⟩
        · change Live (session.state.onSelection offer).requests
          rw [requests]
          exact live_destroys _ _ sound.live
            (kept.forget.sublist (List.Sublist.append_left (stale_erase session.state offer) _))
        · change (session.state.onSelection offer).pendingRead = some read at left
          change (session.state.onSelection offer).current = some read.offer
          split at pending
          · rename_i unwanted
            rw [pending, heeds unwanted] at left
            cases left
          · obtain ⟨own, same, named⟩ := pending
            obtain rfl : own = read := Option.some.inj (same.symm.trans left)
            rw [current, named]
  | finished => exact ⟨fun _ => trivial, fun _ => ⟨sound.once, sound.live, sound.pending⟩⟩
  | startPendingRead pipes =>
    refine ⟨fun _ => trivial, fun _ => ⟨after.once, ?_, ?_⟩⟩
    · change Live (session.state.startPendingRead pipes).requests
      unfold State.startPendingRead
      split
      · exact sound.live
      · rename_i read left
        have there := (kept.selected read.offer (sound.pending read left)).2.2
        exact live_receives _ _ _ sound.live there
    · intro read left
      change (session.state.startPendingRead pipes).pendingRead = some read at left
      unfold State.startPendingRead at left
      split at left
      · rename_i nothing
        cases nothing.symm.trans left
      · cases left

omit [DecidableEq Offer] in
/-- No request was made yet. -/
theorem Sound.initial (policy : Policy) : Sound (State.initial policy : State Offer) where
  once := List.nodup_nil
  live := by
    intro before request after split
    cases before <;> cases split
  pending read left := by cases left

/-- In every session, reads are of the selection that is there and offers are destroyed once
and then left alone, in every state it reaches, exactly when no selection that is not read
comes while a read is left to be started. -/
theorem pending_read_is_live_iff (policy : Policy) (events : List (Event Offer))
    (last : Session Offer) (reached : Runs.run Session.step (.initial policy) events = some last) :
    (∀ early late middle, events = early ++ late →
        Runs.run Session.step (.initial policy) early = some middle → Sound middle.state) ↔
      Runs.Guarded Session.step Heeds (.initial policy) events := by
  have start : Kept (Session.initial policy : Session Offer) ∧
      Sound (Session.initial policy : Session Offer).state :=
    ⟨Kept.initial policy, Sound.initial policy⟩
  rw [Runs.guarded_iff_reached Session.step Heeds (fun session => Kept session ∧ Sound session.state)
    step_sound_iff (.initial policy) last events start reached]
  constructor
  · intro sound early late middle split through
    exact ⟨Runs.run_invariant Session.step Kept step_kept _ middle early (Kept.initial policy)
      through, sound early late middle split through⟩
  · intro held early late middle split through
    exact (held early late middle split through).2

/-- One selection is announced and read. -/
def readOnce : List (Event Nat) :=
  [.newOffer 0, .offerMime 0 "text/plain", .selection (some 0), .startPendingRead 1]

/-- A selection that is read before another comes is the one that is there. -/
theorem pending_read_is_live_once :
    ∃ last, Runs.run Session.step (.initial { maxBytes := 10, ignore := [] }) readOnce = some last ∧
      ∀ early late middle, readOnce = early ++ late →
        Runs.run Session.step (.initial { maxBytes := 10, ignore := [] }) early = some middle →
          Sound middle.state := by
  obtain ⟨last, reached⟩ : ∃ last, Runs.run Session.step
      (.initial { maxBytes := 10, ignore := [] }) readOnce = some last := ⟨_, rfl⟩
  refine ⟨last, reached, (pending_read_is_live_iff _ readOnce last reached).mpr ?_⟩
  refine ⟨trivial, fun first taken => ⟨trivial, fun second then_ => ⟨?_, fun third last => ?_⟩⟩⟩
  · obtain rfl := Option.some.inj taken
    obtain rfl := Option.some.inj then_
    exact fun _ => rfl
  · exact ⟨trivial, fun _ _ => trivial⟩

/-- A selection is announced, and one of yank's own after it, before the read is started. -/
def supersededByOwn : List (Event Nat) :=
  [.newOffer 0, .offerMime 0 "text/plain", .selection (some 0), .newOffer 1,
    .offerMime 1 Mime.marker, .selection (some 1)]

/-- The read that is left to be started then is of an offer that was destroyed, and not of
the selection that is there. -/
theorem a_superseded_selection_is_left_to_be_read :
    ∃ session : Session Nat,
      Runs.run Session.step (.initial { maxBytes := 10, ignore := [] }) supersededByOwn =
        some session ∧
      session.state.requests = [.destroy 0] ∧ session.state.current = some 1 ∧
      session.state.pendingRead =
        some { offer := 0, mimes := ["text/plain"], secret := false } ∧
      ¬ Sound session.state := by
  refine ⟨_, rfl, rfl, rfl, rfl, fun sound => ?_⟩
  have same : some 1 = some 0 := sound.pending _ rfl
  exact absurd (Option.some.inj same) (by decide)

end Yank.Wayland
