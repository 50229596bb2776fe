import Yank.Reoffering
import Yank.Runs

/-!
# The selections yank owns

The daemon queues commands; the backend's thread makes a source for each selection it is told
to offer, has the compositor select it and destroys the one before it. The compositor hears of
that later, tells the thread later still which source was overtaken and which one somebody
pastes from, and other applications take the selection at any point in between.

What a source serves never changes, and each source is selected once and destroyed once. A
paste that is answered is then answered out of the selection it was made on, and once nothing
is on its way the compositor and the thread agree on whose the selection is.
-/

namespace Yank.Wayland

/-- A selection this daemon owns, and the number of its source among those made. -/
structure Held where
  source : Nat
  serves : List Serve
deriving DecidableEq

/-- What the thread asks of the compositor about its sources. -/
inductive SourceRequest where
  /-- A new source, with the types it announces, becomes the selection. -/
  | select (source : Nat) (types : List String)
  | deselect
  | destroy (source : Nat)
deriving DecidableEq

/-- What a source tells the thread. -/
inductive SourceEvent where
  /-- Somebody is pasting. -/
  | send (source : Nat) (mime : String) (paste : Nat)
  /-- Another source took its place. -/
  | cancelled (source : Nat)
deriving DecidableEq

def SourceEvent.source : SourceEvent → Nat
  | send source _ _ | cancelled source => source

/-- Whose the selection is. -/
inductive Owner where
  | nobody
  | another
  | ours (source : Nat)
deriving DecidableEq

namespace Owner

/-- What a request makes of the selection. The data control protocol says of `set_selection` that
it "asks the compositor to set the selection to the data from the source", and "to unset the
selection, set the source to NULL". It does not say what a source leaves behind that is destroyed
while it is the selection: nothing here, and no source of ours is. -/
def apply (owner : Owner) : SourceRequest → Owner
  | .select source _ => .ours source
  | .deselect => .nobody
  | .destroy source => if owner = .ours source then .nobody else owner

/-- What a source of ours hears when something takes its place. The protocol says of `cancelled`:
"this data source is no longer valid", it "has been replaced by another data source". -/
def cancels : Owner → List SourceEvent
  | .ours source => [.cancelled source]
  | _ => []

/-- Whose the selection is once the requests on their way have arrived. -/
def settle (owner : Owner) (requests : List SourceRequest) : Owner := requests.foldl apply owner

end Owner

/-- The daemon's commands, the thread, the compositor, and what is between them. -/
structure Ownership where
  commands : List Command
  /-- The selection we own, if any. -/
  held : Option Held
  /-- What every source there ever was serves. -/
  made : List (List Serve)
  /-- The sources destroyed, in order. -/
  released : List Nat
  requests : List SourceRequest
  owner : Owner
  events : List SourceEvent
  /-- Every paste from us there ever was: the source it was made on and the type asked for. -/
  pastes : List (Nat × String)
  /-- What pastes were answered with. -/
  answers : List (Nat × Option Bytes)

/-- What happens next. -/
inductive OwnershipLabel where
  | command (command : Command)
  | runCommand
  | request
  | dispatch
  /-- Another application takes the selection, or the one that has it goes. -/
  | take
  | leave
  | paste (mime : String)
deriving DecidableEq

namespace Ownership

/-- A session that was told nothing yet. -/
def start : Ownership where
  commands := []
  held := none
  made := []
  released := []
  requests := []
  owner := .nobody
  events := []
  pastes := []
  answers := []

/-- The source that is held. -/
def current (state : Ownership) : List Nat := (state.held.map Held.source).toList

/-- Takes the selection, unless there is nothing to serve. -/
def offer (serves : List Serve) (state : Ownership) : Ownership :=
  if serves = [] then state
  else
    { state with
      made := state.made ++ [serves]
      requests := state.requests ++
        .select state.made.length (announced serves ++ [Mime.marker]) ::
          state.current.map .destroy
      released := state.released ++ state.current
      held := some { source := state.made.length, serves } }

/-- Empties the selection, whoever owns it. -/
def clear (state : Ownership) : Ownership :=
  { state with
    requests := state.requests ++ .deselect :: state.current.map .destroy
    released := state.released ++ state.current
    held := none }

/-- Handles an event about the selection we own. -/
def onSource (event : SourceEvent) (state : Ownership) : Ownership :=
  match state.held with
  | none => state
  | some held =>
      if held.source = event.source then
        match event with
        | .send _ mime paste =>
            { state with answers := state.answers ++ [(paste, Yank.onSource held.serves mime)] }
        | .cancelled source =>
            { state with
              requests := state.requests ++ [.destroy source]
              released := state.released ++ [source]
              held := none }
      else state

/-- Applies one command. -/
def runCommand (command : Command) (state : Ownership) : Ownership :=
  match command with
  | .offer serves => state.offer serves
  | .clear => state.clear

/-- The compositor handles one request. -/
def handle (request : SourceRequest) (state : Ownership) : Ownership :=
  { state with
    owner := state.owner.apply request
    events := state.events ++
      match request with
      | .destroy _ => []
      | _ => state.owner.cancels }

/-- One step of the thread, the compositor or an application. -/
def step (state : Ownership) : OwnershipLabel → Option Ownership
  | .command command => some { state with commands := state.commands ++ [command] }
  | .runCommand =>
      match state.commands with
      | [] => none
      | command :: commands => some (runCommand command { state with commands })
  | .request =>
      match state.requests with
      | [] => none
      | request :: requests => some (handle request { state with requests })
  | .dispatch =>
      match state.events with
      | [] => none
      | event :: events => some (onSource event { state with events })
  | .take => some { state with owner := .another, events := state.events ++ state.owner.cancels }
  | .leave => if state.owner = .another then some { state with owner := .nobody } else none
  | .paste mime =>
      match state.owner with
      | .ours source =>
          some { state with
            events := state.events ++ [.send source mime state.pastes.length]
            pastes := state.pastes ++ [(source, mime)] }
      | _ => none

end Ownership

namespace Owner

/-- No source is destroyed while it is the selection. -/
def Safe : Owner → List SourceRequest → Prop
  | _, [] => True
  | owner, request :: requests =>
      (∀ source, request = .destroy source → owner ≠ .ours source) ∧
        Safe (owner.apply request) requests

/-- With nothing on its way the selection stays. -/
@[simp] theorem settle_nil (owner : Owner) : owner.settle [] = owner := rfl

/-- Requests arrive one by one. -/
theorem settle_cons (owner : Owner) (request : SourceRequest) (requests : List SourceRequest) :
    owner.settle (request :: requests) = (owner.apply request).settle requests := rfl

/-- Later requests arrive after earlier ones. -/
theorem settle_append (owner : Owner) (early late : List SourceRequest) :
    owner.settle (early ++ late) = (owner.settle early).settle late :=
  List.foldl_append

/-- Requests are safe as far as they go, and on from there. -/
theorem safe_append_iff (owner : Owner) (early late : List SourceRequest) :
    owner.Safe (early ++ late) ↔ owner.Safe early ∧ (owner.settle early).Safe late := by
  induction early generalizing owner with
  | nil => simp [Safe]
  | cons request requests inductionHypothesis =>
    simp only [List.cons_append, Safe, inductionHypothesis, settle_cons, and_assoc]

/-- Destroying other sources is no change. -/
theorem settle_destroys (owner : Owner) (sources : List Nat)
    (others : ∀ source ∈ sources, owner ≠ .ours source) :
    owner.settle (sources.map .destroy) = owner ∧ owner.Safe (sources.map .destroy) := by
  induction sources with
  | nil => exact ⟨rfl, trivial⟩
  | cons source sources inductionHypothesis =>
    have apart := others source List.mem_cons_self
    have same : owner.apply (.destroy source) = owner := if_neg apart
    obtain ⟨settled, safe⟩ := inductionHypothesis
      fun other member => others other (List.mem_cons_of_mem _ member)
    refine ⟨?_, ?_, ?_⟩
    · rw [List.map_cons, settle_cons, same, settled]
    · rintro other ⟨⟩
      exact apart
    · rwa [same]

/-- A source that ends up selected is, or is about to be. The induction is on the requests: a
source ends up selected by its own request or was selected before all of them. -/
theorem settled_selected (owner : Owner) (requests : List SourceRequest) (source : Nat)
    (settled : owner.settle requests = .ours source) :
    owner = .ours source ∨ ∃ types, .select source types ∈ requests := by
  induction requests generalizing owner with
  | nil => exact .inl settled
  | cons request requests inductionHypothesis =>
    obtain applied | ⟨types, member⟩ := inductionHypothesis _ settled
    · cases request with
      | select other types =>
        obtain rfl : other = source := Owner.ours.inj applied
        exact .inr ⟨types, List.mem_cons_self⟩
      | deselect => cases applied
      | destroy other =>
        rw [apply] at applied
        split at applied
        · cases applied
        · exact .inl applied
    · exact .inr ⟨types, List.mem_cons_of_mem _ member⟩

section Foreign
variable (owner foreign : Owner) (requests : List SourceRequest) (source : Nat)

/-- Nothing of ours is destroyed while it is selected once nothing of ours is. -/
theorem safe_foreign (others : ∀ source, foreign ≠ .ours source) (safe : owner.Safe requests) :
    foreign.Safe requests := by
  induction requests generalizing owner with
  | nil => trivial
  | cons request requests inductionHypothesis =>
    refine ⟨fun source _ => others source, ?_⟩
    cases request with
    | select other types => exact safe.2
    | deselect => exact safe.2
    | destroy other =>
      rw [apply, if_neg (others other)]
      exact inductionHypothesis _ safe.2

/-- What ends up selected although another application took the selection would have anyway. -/
theorem settle_foreign (others : ∀ source, foreign ≠ .ours source)
    (settled : foreign.settle requests = .ours source) :
    owner.settle requests = .ours source := by
  induction requests generalizing owner with
  | nil => exact absurd settled (others source)
  | cons request requests inductionHypothesis =>
    rw [settle_cons] at settled ⊢
    cases request with
    | select other types => exact settled
    | deselect => exact settled
    | destroy other =>
      rw [apply, if_neg (others other)] at settled
      exact inductionHypothesis _ settled

/-- What was to end up selected still does, or is the selection that was taken. The induction is
on the requests: the first that selects or gives up makes what was before it no matter. -/
theorem settle_taken (others : ∀ source, foreign ≠ .ours source)
    (settled : owner.settle requests = .ours source) :
    foreign.settle requests = .ours source ∨ owner = .ours source := by
  induction requests generalizing owner with
  | nil => exact .inr settled
  | cons request requests inductionHypothesis =>
    rw [settle_cons] at settled ⊢
    cases request with
    | select other types => exact .inl settled
    | deselect => exact .inl settled
    | destroy other =>
      rw [apply, if_neg (others other)]
      obtain kept | applied := inductionHypothesis _ settled
      · exact .inl kept
      · rw [apply] at applied
        split at applied
        · cases applied
        · exact .inr applied

end Foreign

end Owner

namespace Ownership

/-- The source that a request has selected. -/
def selected : SourceRequest → Option Nat
  | .select source _ => some source
  | _ => none

/-- Every source but the one that is held was destroyed, once. Each is selected at most once,
which comes before whatever it hears, and what the thread holds is what will be selected, or was
until something took its place. -/
structure Owned (state : Ownership) : Prop where
  serving : ∀ held ∈ state.held, state.made[held.source]? = some held.serves
  stocked : ∀ serves ∈ state.made, serves ≠ []
  released : (state.released ++ state.current).Perm (List.range state.made.length)
  pending : ∀ source ∈ state.requests.filterMap selected, source < state.made.length ∧
    state.owner ≠ .ours source ∧ .cancelled source ∉ state.events
  once : (state.requests.filterMap selected).Nodup
  chosen : ∀ source, state.owner = .ours source → source < state.made.length ∧
    .cancelled source ∉ state.events
  overtaken : ∀ source, .cancelled source ∈ state.events → source < state.made.length
  safe : state.owner.Safe state.requests
  settled : ∀ source, state.owner.settle state.requests = .ours source → source ∈ state.current
  holding : ∀ source ∈ state.current,
    state.owner.settle state.requests = .ours source ∨ .cancelled source ∈ state.events

/-- A source is selected by a request that selects it. -/
theorem mem_selected_iff (requests : List SourceRequest) (source : Nat) :
    source ∈ requests.filterMap selected ↔ ∃ types, .select source types ∈ requests := by
  rw [List.mem_filterMap]
  constructor
  · rintro ⟨request, member, selects⟩
    cases request with
    | select other types =>
      obtain rfl : other = source := Option.some.inj selects
      exact ⟨types, member⟩
    | deselect => cases selects
    | destroy other => cases selects
  · rintro ⟨types, member⟩
    exact ⟨_, member, rfl⟩

/-- Destroying sources selects none. -/
@[simp] theorem selected_destroys (sources : List Nat) :
    (sources.map .destroy).filterMap selected = [] := by
  rw [List.filterMap_eq_nil_iff]
  intro request member
  obtain ⟨source, _, rfl⟩ := List.mem_map.mp member
  rfl

/-- Only the selection is told that something took its place. -/
theorem heard_cancels (state : Ownership) (source : Nat)
    (told : .cancelled source ∈ state.events ++ state.owner.cancels) :
    .cancelled source ∈ state.events ∨ state.owner = .ours source := by
  obtain old | new := List.mem_append.mp told
  · exact .inl old
  · right
    cases ours : state.owner with
    | ours last =>
      rw [ours] at new
      obtain ⟨⟩ := List.mem_singleton.mp new
      rfl
    | nobody =>
      rw [ours] at new
      cases new
    | another =>
      rw [ours] at new
      cases new

/-- There is no source yet. -/
theorem start_owned : start.Owned where
  serving _ held := by cases held
  stocked _ member := by cases member
  released := .nil
  pending _ member := by cases member
  once := .nil
  chosen _ ours := by cases ours
  overtaken _ member := by cases member
  safe := trivial
  settled _ ours := by cases ours
  holding _ member := by cases member

section Owning
variable {state : Ownership}

/-- What is held was made. -/
theorem Owned.current_made (owned : state.Owned) (source : Nat) (held : source ∈ state.current) :
    source < state.made.length :=
  List.mem_range.mp (owned.released.mem_iff.mp (List.mem_append_right _ held))

/-- A source that is told that it was overtaken will not be selected again. -/
theorem Owned.overtaken_unselected (owned : state.Owned) (source : Nat)
    (overtaken : .cancelled source ∈ state.events) :
    state.owner.settle state.requests ≠ .ours source := by
  intro settled
  obtain ours | selects := Owner.settled_selected _ _ source settled
  · exact (owned.chosen source ours).2 overtaken
  · exact (owned.pending source ((mem_selected_iff _ _).mpr selects)).2.2 overtaken

/-- An offer leaves one source that is held, and the one before it destroyed. If there is nothing
to offer nothing happens; otherwise the new source is numbered past all that were made, so no
earlier request names it. -/
theorem Owned.offer (owned : state.Owned) (serves : List Serve) : (state.offer serves).Owned := by
  rw [Ownership.offer]
  split
  case isTrue => exact owned
  case isFalse stocked =>
    have apart : ∀ source ∈ state.current, Owner.ours state.made.length ≠ .ours source := by
      rintro source held ⟨⟩
      exact absurd (owned.current_made _ held) (lt_irrefl _)
    obtain ⟨settled, safe⟩ := Owner.settle_destroys (.ours state.made.length) state.current apart
    have settles : state.owner.settle (state.requests ++
        .select state.made.length (announced serves ++ [Mime.marker]) ::
          state.current.map .destroy) = .ours state.made.length := by
      rw [Owner.settle_append, Owner.settle_cons]
      exact settled
    have newer : state.made.length ∉ state.requests.filterMap selected := by
      intro member
      exact absurd (owned.pending _ member).1 (lt_irrefl _)
    constructor
    · rintro held ⟨⟩
      exact List.getElem?_concat_length
    · intro other member
      obtain old | rfl := List.mem_append.mp member |>.imp_right List.mem_singleton.mp
      · exact owned.stocked other old
      · exact stocked
    · have before := owned.released
      simp only [List.length_append, List.length_singleton, List.range_succ]
      exact before.append_right _
    · intro source member
      dsimp only
      rw [List.length_append, List.length_singleton]
      rw [List.filterMap_append, List.mem_append] at member
      obtain old | new := member
      · obtain ⟨made, rest⟩ := owned.pending source old
        exact ⟨by omega, rest⟩
      · obtain rfl : source = state.made.length := by
          simpa [List.filterMap_cons, selected] using new
        refine ⟨Nat.lt_succ_self _, ?_, ?_⟩
        · intro ours
          exact absurd (owned.chosen _ ours).1 (lt_irrefl _)
        · intro overtaken
          exact absurd (owned.overtaken _ overtaken) (lt_irrefl _)
    · have names : (state.requests ++
          SourceRequest.select state.made.length (announced serves ++ [Mime.marker]) ::
            state.current.map SourceRequest.destroy).filterMap selected =
          state.requests.filterMap selected ++ [state.made.length] := by
        rw [List.filterMap_append, List.filterMap_cons, selected_destroys]
        rfl
      dsimp only
      rw [names]
      exact List.nodup_append.mpr ⟨owned.once, List.nodup_singleton _, by
        rintro source member _ (_ | ⟨_, ⟨⟩⟩) rfl
        exact newer member⟩
    · intro source ours
      obtain ⟨made, unheard⟩ := owned.chosen source ours
      exact ⟨by rw [List.length_append]; omega, unheard⟩
    · intro source overtaken
      have made := owned.overtaken source overtaken
      rw [List.length_append]
      omega
    · refine (Owner.safe_append_iff _ _ _).mpr ⟨owned.safe, ?_, safe⟩
      rintro source ⟨⟩
    · intro source ours
      rw [settles] at ours
      obtain rfl := Owner.ours.inj ours
      exact List.mem_singleton_self _
    · intro source held
      obtain rfl := List.mem_singleton.mp held
      exact .inl settles

/-- A clear leaves none, and the one there was destroyed. The selection is given up before the
source is destroyed, so nothing is destroyed while it is selected. -/
theorem Owned.clear (owned : state.Owned) : state.clear.Owned := by
  obtain ⟨settled, safe⟩ := Owner.settle_destroys .nobody state.current (by rintro _ _ ⟨⟩)
  have settles : state.owner.settle (state.requests ++
      .deselect :: state.current.map .destroy) = .nobody := by
    rw [Owner.settle_append, Owner.settle_cons]
    exact settled
  have names : (state.requests ++ SourceRequest.deselect ::
      state.current.map SourceRequest.destroy).filterMap selected =
      state.requests.filterMap selected := by
    rw [List.filterMap_append, List.filterMap_cons, selected_destroys]
    exact List.append_nil _
  rw [Ownership.clear]
  constructor
  · rintro held ⟨⟩
  · exact owned.stocked
  · change (state.released ++ state.current ++ []).Perm _
    rw [List.append_nil]
    exact owned.released
  · dsimp only
    rw [names]
    exact owned.pending
  · dsimp only
    rw [names]
    exact owned.once
  · exact owned.chosen
  · exact owned.overtaken
  · refine (Owner.safe_append_iff _ _ _).mpr ⟨owned.safe, ?_, safe⟩
    rintro source ⟨⟩
  · intro source ours
    rw [settles] at ours
    cases ours
  · intro source held
    cases held

/-- An event is heard, unless it says that what is held was overtaken. The queue gets shorter by
an event that says nothing of the source that is held. -/
theorem Owned.hears (event : SourceEvent) (events : List SourceEvent)
    (queued : state.events = event :: events) (owned : state.Owned)
    (elsewhere : ∀ source ∈ state.current, event ≠ .cancelled source) :
    ({ state with events } : Ownership).Owned := by
  have kept : ∀ other ∈ events, other ∈ state.events := by
    intro other member
    rw [queued]
    exact List.mem_cons_of_mem _ member
  constructor
  · exact owned.serving
  · exact owned.stocked
  · exact owned.released
  · intro source member
    obtain ⟨made, other, unheard⟩ := owned.pending source member
    exact ⟨made, other, fun heard => unheard (kept _ heard)⟩
  · exact owned.once
  · intro source ours
    obtain ⟨made, unheard⟩ := owned.chosen source ours
    exact ⟨made, fun heard => unheard (kept _ heard)⟩
  · exact fun source heard => owned.overtaken source (kept _ heard)
  · exact owned.safe
  · exact owned.settled
  · intro source held
    obtain settles | heard := owned.holding source held
    · exact .inl settles
    · rw [queued] at heard
      obtain same | later := List.mem_cons.mp heard
      · exact absurd same.symm (elsewhere source held)
      · exact .inr later

/-- The source that was overtaken is destroyed. Nothing that is on its way to the compositor
selects it again: a source is selected once, and its cancellation says that it was. -/
theorem Owned.gives (held : Held) (holds : state.held = some held) (events : List SourceEvent)
    (queued : state.events = .cancelled held.source :: events) (owned : state.Owned) :
    ({ state with
        events
        requests := state.requests ++ [.destroy held.source]
        released := state.released ++ [held.source]
        held := none } : Ownership).Owned := by
  have kept : ∀ other ∈ events, other ∈ state.events := by
    intro other member
    rw [queued]
    exact List.mem_cons_of_mem _ member
  have current : state.current = [held.source] := by
    rw [Ownership.current, holds]
    rfl
  have gone : ∀ source, state.owner.settle state.requests ≠ .ours source := by
    intro source settles
    have same := owned.settled source settles
    rw [current, List.mem_singleton] at same
    subst same
    exact owned.overtaken_unselected _ (by rw [queued]; exact List.mem_cons_self) settles
  have settles : state.owner.settle (state.requests ++ [.destroy held.source]) =
      state.owner.settle state.requests := by
    rw [Owner.settle_append, Owner.settle_cons, Owner.settle_nil, Owner.apply,
      if_neg (gone held.source)]
  have names : (state.requests ++ [SourceRequest.destroy held.source]).filterMap selected =
      state.requests.filterMap selected := by
    rw [List.filterMap_append]
    exact List.append_nil _
  constructor
  · rintro other ⟨⟩
  · exact owned.stocked
  · change (state.released ++ [held.source] ++ []).Perm _
    rw [List.append_nil, ← current]
    exact owned.released
  · dsimp only
    rw [names]
    intro source member
    obtain ⟨made, other, unheard⟩ := owned.pending source member
    exact ⟨made, other, fun heard => unheard (kept _ heard)⟩
  · dsimp only
    rw [names]
    exact owned.once
  · intro source ours
    obtain ⟨made, unheard⟩ := owned.chosen source ours
    exact ⟨made, fun heard => unheard (kept _ heard)⟩
  · exact fun source heard => owned.overtaken source (kept _ heard)
  · refine (Owner.safe_append_iff _ _ _).mpr ⟨owned.safe, ?_, trivial⟩
    rintro source ⟨⟩
    exact gone _
  · intro source ours
    rw [settles] at ours
    exact absurd ours (gone source)
  · intro source other
    cases other

/-- A paste is answered, or an overtaken source is destroyed, or nothing happens. An event of
another source is dropped, a paste is answered, and a cancellation destroys the source. -/
theorem Owned.onSource (event : SourceEvent) (events : List SourceEvent)
    (queued : state.events = event :: events) (owned : state.Owned) :
    (Ownership.onSource event { state with events }).Owned := by
  rw [Ownership.onSource]
  dsimp only
  split
  case h_1 nothing =>
    refine owned.hears event events queued ?_
    intro source held
    rw [current, nothing] at held
    cases held
  case h_2 held holds =>
    split
    case isFalse apart =>
      refine owned.hears event events queued ?_
      rintro source member rfl
      rw [current, holds] at member
      exact apart (List.mem_singleton.mp member).symm
    case isTrue same =>
      cases event with
      | send source mime paste =>
        have heard := owned.hears _ events queued (by rintro _ _ ⟨⟩)
        exact { heard with }
      | cancelled source =>
        obtain rfl : held.source = source := same
        exact owned.gives held holds events queued

/-- Something foreign is the selection now. The source that was the selection is told so, and is
held until its event is handled. -/
theorem Owned.foreign (owner : Owner) (others : ∀ source, owner ≠ .ours source)
    (owned : state.Owned) :
    ({ state with owner, events := state.events ++ state.owner.cancels } : Ownership).Owned := by
  have heard := heard_cancels state
  constructor
  · exact owned.serving
  · exact owned.stocked
  · exact owned.released
  · intro source member
    obtain ⟨made, other, unheard⟩ := owned.pending source member
    exact ⟨made, others source, fun told => (heard source told).elim unheard other⟩
  · exact owned.once
  · exact fun source ours => absurd ours (others source)
  · intro source told
    obtain old | ours := heard source told
    · exact owned.overtaken source old
    · exact (owned.chosen source ours).1
  · exact Owner.safe_foreign state.owner owner state.requests others owned.safe
  · intro source settles
    exact owned.settled source
      (Owner.settle_foreign state.owner owner state.requests source others settles)
  · intro source held
    obtain settles | told := owned.holding source held
    · obtain kept | ours :=
        Owner.settle_taken state.owner owner state.requests source others settles
      · exact .inl kept
      · refine .inr (List.mem_append_right _ ?_)
        rw [ours]
        exact List.mem_singleton_self _
    · exact .inr (List.mem_append_left _ told)

/-- A request that changes nothing has arrived. Nothing hears of it, and what is still on its way
is less by one request. -/
theorem Owned.passes (owned : state.Owned) (request : SourceRequest)
    (requests : List SourceRequest) (queued : state.requests = request :: requests)
    (same : state.owner.apply request = state.owner) :
    ({ state with requests } : Ownership).Owned := by
  have settles : state.owner.settle state.requests = state.owner.settle requests := by
    rw [queued, Owner.settle_cons, same]
  have later : (requests.filterMap selected).Sublist (state.requests.filterMap selected) := by
    rw [queued]
    exact (List.sublist_cons_self request requests).filterMap selected
  have safe := owned.safe
  rw [queued, Owner.Safe, same] at safe
  exact {
    owned with
    pending := fun source member => owned.pending source (later.subset member)
    once := owned.once.sublist later
    safe := safe.2
    settled := fun source ours => owned.settled source (settles.trans ours)
    holding := fun source held => (owned.holding source held).imp_left settles.symm.trans }

/-- A source becomes the selection. Its request is the only one to name it, and the source it
takes over from is told that it is cancelled. -/
theorem Owned.selects (source : Nat) (types : List String) (requests : List SourceRequest)
    (queued : state.requests = .select source types :: requests) (owned : state.Owned) :
    (Ownership.handle (.select source types) { state with requests }).Owned := by
  have names : state.requests.filterMap selected = source :: requests.filterMap selected := by
    rw [queued]
    rfl
  have once := owned.once
  rw [names, List.nodup_cons] at once
  have pending := owned.pending
  rw [names] at pending
  have settles : state.owner.settle state.requests = (Owner.ours source).settle requests := by
    rw [queued, Owner.settle_cons]
    rfl
  have safe := owned.safe
  rw [queued] at safe
  have heard := heard_cancels state
  constructor
  · exact owned.serving
  · exact owned.stocked
  · exact owned.released
  · intro other member
    obtain ⟨made, apart, unheard⟩ := pending other (List.mem_cons_of_mem _ member)
    refine ⟨made, ?_, fun told => (heard other told).elim unheard apart⟩
    rintro ⟨⟩
    exact once.1 member
  · exact once.2
  · rintro _ ⟨⟩
    obtain ⟨made, apart, unheard⟩ := pending source List.mem_cons_self
    exact ⟨made, fun told => (heard source told).elim unheard apart⟩
  · intro other told
    obtain old | ours := heard other told
    · exact owned.overtaken other old
    · exact (owned.chosen other ours).1
  · exact safe.2
  · exact fun other ours => owned.settled other (settles.trans ours)
  · intro other held
    obtain ours | told := owned.holding other held
    · exact .inl (settles.symm.trans ours)
    · exact .inr (List.mem_append_left _ told)

/-- A request arrives. A request that selects takes the selection over, one that gives it up
leaves it to nobody, and destroying a source that is not selected changes nothing. -/
theorem Owned.handle (request : SourceRequest) (requests : List SourceRequest)
    (queued : state.requests = request :: requests) (owned : state.Owned) :
    (Ownership.handle request { state with requests }).Owned := by
  cases request with
  | select source types => exact owned.selects source types requests queued
  | deselect =>
    have left := owned.foreign .nobody (by rintro _ ⟨⟩)
    exact left.passes .deselect requests queued rfl
  | destroy source =>
    have safe := owned.safe
    rw [queued] at safe
    have same : state.owner.apply (.destroy source) = state.owner := if_neg (safe.1 source rfl)
    rw [Ownership.handle]
    dsimp only
    rw [same, List.append_nil]
    exact owned.passes _ requests queued same

/-- Somebody pastes. A paste is no cancellation, so what was told stays told. -/
theorem Owned.pastes (source : Nat) (mime : String) (owned : state.Owned) :
    ({ state with
        events := state.events ++ [.send source mime state.pastes.length]
        pastes := state.pastes ++ [(source, mime)] } : Ownership).Owned := by
  have heard : ∀ other, .cancelled other ∈
      state.events ++ [.send source mime state.pastes.length] ↔ .cancelled other ∈ state.events := by
    intro other
    simp
  constructor
  · exact owned.serving
  · exact owned.stocked
  · exact owned.released
  · simpa only [heard] using owned.pending
  · exact owned.once
  · simpa only [heard] using owned.chosen
  · simpa only [heard] using owned.overtaken
  · exact owned.safe
  · exact owned.settled
  · intro other held
    exact (owned.holding other held).imp_right (heard other).mpr

end Owning

/-- Whatever happens next, the sources stay in order. Each label hands the state to one of the
lemmas above, after what it takes off the front of a queue. -/
theorem step_owned (state next : Ownership) (label : OwnershipLabel) (owned : state.Owned)
    (taken : step state label = some next) : next.Owned := by
  cases label with
  | command command =>
    cases taken
    exact { owned with }
  | runCommand =>
    rw [step] at taken
    split at taken
    case h_1 => cases taken
    case h_2 command commands queued =>
      cases taken
      have rest : ({ state with commands } : Ownership).Owned := { owned with }
      cases command with
      | offer serves => exact rest.offer serves
      | clear => exact rest.clear
  | request =>
    rw [step] at taken
    split at taken
    case h_1 => cases taken
    case h_2 request requests queued =>
      cases taken
      exact owned.handle request requests queued
  | dispatch =>
    rw [step] at taken
    split at taken
    case h_1 => cases taken
    case h_2 event events queued =>
      cases taken
      exact owned.onSource event events queued
  | take =>
    cases taken
    exact owned.foreign .another (by rintro _ ⟨⟩)
  | leave =>
    rw [step] at taken
    split at taken
    case isFalse => cases taken
    case isTrue another =>
      cases taken
      have left := owned.foreign .nobody (by rintro _ ⟨⟩)
      rw [another] at left
      simpa only [Owner.cancels, List.append_nil] using left
  | paste mime =>
    rw [step] at taken
    split at taken
    case h_2 => cases taken
    case h_1 source ours =>
      cases taken
      exact owned.pastes source mime

/-- The pastes that a source was told of and that are on their way to it. -/
def waiting (events : List SourceEvent) : List Nat :=
  events.filterMap (fun event =>
    match event with
    | .send _ _ paste => some paste
    | .cancelled _ => none)

/-- A paste is answered at most once, and out of the source it was made on. One that is not is
on its way there, or found its source destroyed. -/
structure Pasted (state : Ownership) : Prop where
  answered : ∀ paste answer, (paste, answer) ∈ state.answers → ∃ source mime serves,
    state.pastes[paste]? = some (source, mime) ∧ state.made[source]? = some serves ∧
      answer = Yank.onSource serves mime
  sent : ∀ source mime paste, .send source mime paste ∈ state.events →
    state.pastes[paste]? = some (source, mime)
  once : (state.answers.map Prod.fst ++ waiting state.events).Nodup
  made : ∀ source mime, (source, mime) ∈ state.pastes → source < state.made.length
  pending : ∀ paste source mime, state.pastes[paste]? = some (source, mime) →
    paste ∈ state.answers.map Prod.fst ∨ paste ∈ waiting state.events ∨ source ∈ state.released

/-- Nothing was pasted yet. -/
theorem start_pasted : start.Pasted where
  answered _ _ member := by cases member
  sent _ _ _ member := by cases member
  once := .nil
  made _ _ member := by cases member
  pending _ _ _ pasted := by cases pasted

/-- The pastes that wait are those of each part of the events. -/
@[simp] theorem waiting_append (early late : List SourceEvent) :
    waiting (early ++ late) = waiting early ++ waiting late := List.filterMap_append

/-- No paste waits in what a source hears that was overtaken. -/
@[simp] theorem waiting_cancels (owner : Owner) : waiting owner.cancels = [] := by
  cases owner <;> rfl

/-- Nobody pastes by taking the selection. -/
theorem sent_before (events : List SourceEvent) (owner : Owner) (source : Nat) (mime : String)
    (paste : Nat) (member : .send source mime paste ∈ events ++ owner.cancels) :
    .send source mime paste ∈ events := by
  obtain old | new := List.mem_append.mp member
  · exact old
  · cases owner with
    | ours other => cases List.mem_singleton.mp new
    | nobody => cases new
    | another => cases new

section Pasting
variable {state next : Ownership}

/-- What neither pastes nor answers, and keeps what was made and destroyed. What was made and
destroyed only grows, so every paste stays where it is. -/
theorem Pasted.keeps (pasted : state.Pasted) (answers : next.answers = state.answers)
    (pastes : next.pastes = state.pastes) (made : state.made <+: next.made)
    (released : state.released <+: next.released)
    (sends : ∀ source mime paste,
      .send source mime paste ∈ next.events → .send source mime paste ∈ state.events)
    (waits : waiting next.events = waiting state.events) : next.Pasted := by
  constructor
  · rw [answers, pastes]
    intro paste answer member
    obtain ⟨source, mime, serves, asked, served, same⟩ := pasted.answered paste answer member
    obtain ⟨more, grown⟩ := made
    refine ⟨source, mime, serves, asked, ?_, same⟩
    rw [← grown, List.getElem?_append_left (List.getElem?_eq_some_iff.mp served).1, served]
  · rw [pastes]
    exact fun source mime paste member => pasted.sent source mime paste (sends _ _ _ member)
  · rw [answers, waits]
    exact pasted.once
  · rw [pastes]
    exact fun source mime member => (pasted.made source mime member).trans_le made.length_le
  · rw [answers, pastes, waits]
    intro paste source mime asked
    exact (pasted.pending paste source mime asked).imp_right
      (Or.imp_right (fun gone => released.subset gone))

/-- An event of a source that is not held finds it destroyed. A paste whose source is destroyed by
now is answered by nobody and counts as gone. -/
theorem Pasted.drops (event : SourceEvent) (events : List SourceEvent)
    (queued : state.events = event :: events) (owned : state.Owned) (pasted : state.Pasted)
    (elsewhere : event.source ∉ state.current) :
    ({ state with events } : Ownership).Pasted := by
  have kept : ∀ other ∈ events, other ∈ state.events := by
    intro other member
    rw [queued]
    exact List.mem_cons_of_mem _ member
  have fewer : (waiting events).Sublist (waiting state.events) := by
    rw [queued]
    exact (List.sublist_cons_self event events).filterMap _
  constructor
  · exact pasted.answered
  · exact fun source mime paste member => pasted.sent source mime paste (kept _ member)
  · exact pasted.once.sublist ((List.Sublist.refl _).append fewer)
  · exact pasted.made
  · intro paste source mime asked
    obtain answered | waits | gone := pasted.pending paste source mime asked
    · exact .inl answered
    · rw [queued] at waits
      cases event with
      | cancelled other => exact .inr (.inl waits)
      | send other type last =>
        obtain rfl | later := List.mem_cons.mp waits
        · have first := pasted.sent other type paste (by rw [queued]; exact List.mem_cons_self)
          obtain ⟨rfl, rfl⟩ := Prod.mk.inj (Option.some.inj (asked.symm.trans first))
          have made := pasted.made source mime (List.mem_of_getElem? asked)
          have somewhere := owned.released.mem_iff.mpr (List.mem_range.mpr made)
          exact .inr (.inr ((List.mem_append.mp somewhere).resolve_right elsewhere))
        · exact .inr (.inl later)
    · exact .inr (.inr gone)

/-- A paste from the source that is held is answered out of what it serves. Its event was the only
one of that paste, and leaves the queue as the answer is written down. -/
theorem Pasted.answers (held : Held) (holds : state.held = some held) (mime : String)
    (paste : Nat) (events : List SourceEvent)
    (queued : state.events = .send held.source mime paste :: events) (owned : state.Owned)
    (pasted : state.Pasted) :
    ({ state with
        events
        answers := state.answers ++ [(paste, Yank.onSource held.serves mime)] } :
      Ownership).Pasted := by
  have waits : waiting state.events = paste :: waiting events := by
    rw [queued]
    rfl
  have asked := pasted.sent held.source mime paste (by rw [queued]; exact List.mem_cons_self)
  have served := owned.serving held holds
  constructor
  · intro other answer member
    obtain old | new := List.mem_append.mp member
    · exact pasted.answered other answer old
    · obtain ⟨rfl, rfl⟩ := Prod.mk.inj (List.mem_singleton.mp new)
      exact ⟨_, _, _, asked, served, rfl⟩
  · intro source type other member
    exact pasted.sent source type other (by rw [queued]; exact List.mem_cons_of_mem _ member)
  · have once := pasted.once
    rw [waits] at once
    simpa using once
  · exact pasted.made
  · intro other source type made
    have before := pasted.pending other source type made
    rw [waits, List.mem_cons] at before
    simp only [List.map_append, List.map_cons, List.map_nil, List.mem_append, List.mem_singleton]
    tauto

/-- A paste is answered as it is heard of, if its source is still held. An event of any other
source finds that source destroyed. -/
theorem Pasted.onSource (event : SourceEvent) (events : List SourceEvent)
    (queued : state.events = event :: events) (owned : state.Owned) (pasted : state.Pasted) :
    (Ownership.onSource event { state with events }).Pasted := by
  rw [Ownership.onSource]
  dsimp only
  split
  case h_1 nothing =>
    refine pasted.drops event events queued owned ?_
    rw [current, nothing]
    exact List.not_mem_nil
  case h_2 held holds =>
    have current : state.current = [held.source] := by
      rw [Ownership.current, holds]
      rfl
    split
    case isFalse apart =>
      refine pasted.drops event events queued owned ?_
      rw [current, List.mem_singleton]
      exact fun same => apart same.symm
    case isTrue same =>
      cases event with
      | send source mime paste =>
        obtain rfl : held.source = source := same
        exact pasted.answers held holds mime paste events queued owned
      | cancelled source =>
        refine pasted.keeps rfl rfl (List.prefix_refl _) (List.prefix_append _ _) ?_ ?_
        · intro other mime paste member
          rw [queued]
          exact List.mem_cons_of_mem _ member
        · rw [queued]
          rfl

/-- A new paste is on its way. It is numbered past all others, so it is answered by nothing yet
and waits for the event that was queued with it. -/
theorem Pasted.pastes (source : Nat) (mime : String) (ours : state.owner = .ours source)
    (owned : state.Owned) (pasted : state.Pasted) :
    ({ state with
        events := state.events ++ [.send source mime state.pastes.length]
        pastes := state.pastes ++ [(source, mime)] } : Ownership).Pasted := by
  have older : ∀ (paste : Nat) (asked : Nat × String), state.pastes[paste]? = some asked →
      (state.pastes ++ [(source, mime)])[paste]? = some asked := by
    intro paste asked held
    rw [List.getElem?_append_left (List.getElem?_eq_some_iff.mp held).1, held]
  have waits : waiting (state.events ++ [.send source mime state.pastes.length]) =
      waiting state.events ++ [state.pastes.length] := waiting_append _ _
  have known : ∀ paste ∈ state.answers.map Prod.fst ++ waiting state.events,
      paste < state.pastes.length := by
    intro paste member
    obtain answered | waiting := List.mem_append.mp member
    · obtain ⟨⟨other, answer⟩, among, same⟩ := List.mem_map.mp answered
      obtain ⟨_, _, _, asked, _⟩ := pasted.answered other answer among
      rw [← same]
      exact (List.getElem?_eq_some_iff.mp asked).1
    · obtain ⟨event, among, sends⟩ := List.mem_filterMap.mp waiting
      cases event with
      | cancelled other => cases sends
      | send other type last =>
        have same : last = paste := Option.some.inj sends
        rw [← same]
        exact (List.getElem?_eq_some_iff.mp (pasted.sent other type last among)).1
  constructor
  · intro paste answer member
    obtain ⟨other, type, serves, asked, rest⟩ := pasted.answered paste answer member
    exact ⟨other, type, serves, older paste _ asked, rest⟩
  · intro other type paste member
    obtain old | new := List.mem_append.mp member
    · exact older paste _ (pasted.sent other type paste old)
    · obtain ⟨⟩ := List.mem_singleton.mp new
      exact List.getElem?_concat_length
  · dsimp only
    rw [waits, ← List.append_assoc]
    refine List.nodup_append.mpr ⟨pasted.once, List.nodup_singleton _, ?_⟩
    rintro paste member _ (_ | ⟨_, ⟨⟩⟩) rfl
    exact absurd (known _ member) (lt_irrefl _)
  · intro other type member
    obtain old | new := List.mem_append.mp member
    · exact pasted.made other type old
    · obtain ⟨rfl, rfl⟩ := Prod.mk.inj (List.mem_singleton.mp new)
      exact (owned.chosen _ ours).1
  · intro paste other type asked
    dsimp only at asked ⊢
    rw [waits, List.mem_append, List.mem_singleton]
    by_cases last : paste = state.pastes.length
    · exact .inr (.inl (.inr last))
    · rw [List.getElem?_append] at asked
      split at asked
      case isTrue =>
        have before := pasted.pending paste other type asked
        tauto
      case isFalse outside =>
        have beyond := (List.getElem?_eq_some_iff.mp asked).1
        rw [List.length_singleton] at beyond
        omega

end Pasting

/-- Whatever happens next, pastes are answered out of what they were made on. An event off the
queue answers its paste or finds its source destroyed, a new paste is numbered past the others,
and no other label touches pastes or answers. -/
theorem step_pasted (state next : Ownership) (label : OwnershipLabel) (owned : state.Owned)
    (pasted : state.Pasted) (taken : step state label = some next) : next.Pasted := by
  cases label with
  | command command =>
    cases taken
    exact { pasted with }
  | runCommand =>
    rw [step] at taken
    split at taken
    case h_1 => cases taken
    case h_2 command commands queued =>
      cases taken
      cases command with
      | offer serves =>
        rw [runCommand, offer]
        split
        · exact { pasted with }
        · exact pasted.keeps rfl rfl (List.prefix_append _ _) (List.prefix_append _ _)
            (fun _ _ _ member => member) rfl
      | clear =>
        exact pasted.keeps rfl rfl (List.prefix_refl _) (List.prefix_append _ _)
          (fun _ _ _ member => member) rfl
  | request =>
    rw [step] at taken
    split at taken
    case h_1 => cases taken
    case h_2 request requests queued =>
      cases taken
      have heard : ∃ owner : Owner, (handle request { state with requests }).events =
          state.events ++ owner.cancels := by
        cases request with
        | select source types => exact ⟨state.owner, rfl⟩
        | deselect => exact ⟨state.owner, rfl⟩
        | destroy source => exact ⟨.nobody, rfl⟩
      obtain ⟨owner, heard⟩ := heard
      refine pasted.keeps rfl rfl (List.prefix_refl _) (List.prefix_refl _) ?_ ?_
      · intro source mime paste member
        rw [heard] at member
        exact sent_before _ owner source mime paste member
      · rw [heard, waiting_append, waiting_cancels, List.append_nil]
  | dispatch =>
    rw [step] at taken
    split at taken
    case h_1 => cases taken
    case h_2 event events queued =>
      cases taken
      exact pasted.onSource event events queued owned
  | take =>
    cases taken
    exact pasted.keeps rfl rfl (List.prefix_refl _) (List.prefix_refl _)
      (fun source mime paste => sent_before _ state.owner source mime paste) (by simp)
  | leave =>
    rw [step] at taken
    split at taken
    case isFalse => cases taken
    case isTrue another =>
      cases taken
      exact { pasted with }
  | paste mime =>
    rw [step] at taken
    split at taken
    case h_2 => cases taken
    case h_1 source ours =>
      cases taken
      exact pasted.pastes source mime ours owned

/-- However commands, requests, other applications and pastes interleave: a paste is answered at
most once, with what its own source serves for the type asked for; one that was not answered is
still on its way or found that source destroyed. Every source but the one that is held was
destroyed, once, and never while it was the selection. -/
theorem pastes_are_answered_from_their_source (labels : List OwnershipLabel) (last : Ownership)
    (reached : Runs.run step start labels = some last) :
    (∀ paste answer, (paste, answer) ∈ last.answers → ∃ source mime serves bytes,
      last.pastes[paste]? = some (source, mime) ∧ last.made[source]? = some serves ∧
        Yank.onSource serves mime = some bytes ∧ answer = some bytes) ∧
    (last.answers.map Prod.fst).Nodup ∧
    (∀ paste source mime, last.pastes[paste]? = some (source, mime) →
      paste ∉ last.answers.map Prod.fst → paste ∉ waiting last.events →
      source ∈ last.released) ∧
    (last.released ++ last.current).Perm (List.range last.made.length) ∧
    last.owner.Safe last.requests := by
  have ⟨owned, pasted⟩ := Runs.run_invariant step (fun state => state.Owned ∧ state.Pasted)
    (fun state label next kept taken =>
      ⟨step_owned state next label kept.1 taken, step_pasted state next label kept.1 kept.2 taken⟩)
    start last labels ⟨start_owned, start_pasted⟩ reached
  refine ⟨?_, (List.nodup_append.mp pasted.once).1, ?_, owned.released, owned.safe⟩
  · intro paste answer member
    obtain ⟨source, mime, serves, asked, served, rfl⟩ := pasted.answered paste answer member
    have stocked := owned.stocked serves (List.mem_of_getElem? served)
    obtain ⟨bytes, answers⟩ : ∃ bytes, Yank.onSource serves mime = some bytes := by
      rw [← Option.isSome_iff_exists, Yank.onSource, Option.isSome_map, Option.isSome_or]
      cases serves with
      | nil => exact absurd rfl stocked
      | cons serve rest => simp
    exact ⟨source, mime, serves, bytes, asked, served, answers, answers⟩
  · intro paste source mime asked unanswered gone
    obtain answered | waits | released := pasted.pending paste source mime asked
    · exact absurd answered unanswered
    · exact absurd waits gone
    · exact released

/-- What there is to paste on this machine. -/
inductive Contents where
  | nothing
  | foreign
  | served (serves : List Serve)
deriving DecidableEq

/-- What there is to paste from whoever owns the selection. -/
def contents (made : List (List Serve)) : Owner → Contents
  | .nobody => .nothing
  | .another => .foreign
  | .ours source =>
      match made[source]? with
      | some serves => .served serves
      | none => .nothing

/-- What a command makes of it. -/
def leaves (before : Contents) : Command → Contents
  | .offer serves => if serves = [] then before else .served serves
  | .clear => .nothing

/-- What there will be to paste once everything that is on its way has arrived. -/
def outcome (state : Ownership) : Contents :=
  state.commands.foldl leaves (contents state.made (state.owner.settle state.requests))

section Outcome
variable {state : Ownership}

/-- The thread applies a command as it was meant. The requests it sends come to the same selection
as the command does, since they select last or give up first. -/
theorem Owned.outcome_runCommand (owned : state.Owned) (command : Command)
    (commands : List Command) (queued : state.commands = command :: commands) :
    (runCommand command { state with commands }).outcome = state.outcome := by
  rw [outcome, outcome, queued, List.foldl_cons]
  cases command with
  | clear =>
    obtain ⟨settled, _⟩ := Owner.settle_destroys .nobody state.current (by rintro _ _ ⟨⟩)
    have settles : state.owner.settle (state.requests ++
        SourceRequest.deselect :: state.current.map SourceRequest.destroy) = .nobody := by
      rw [Owner.settle_append, Owner.settle_cons]
      exact settled
    change commands.foldl leaves (contents state.made (state.owner.settle (state.requests ++
      SourceRequest.deselect :: state.current.map SourceRequest.destroy))) = _
    rw [settles]
    rfl
  | offer serves =>
    rw [runCommand, Ownership.offer, leaves]
    split
    case isTrue => rfl
    case isFalse stocked =>
      have apart : ∀ source ∈ state.current, Owner.ours state.made.length ≠ .ours source := by
        rintro source held ⟨⟩
        exact absurd (owned.current_made _ held) (lt_irrefl _)
      obtain ⟨settled, _⟩ := Owner.settle_destroys (.ours state.made.length) state.current apart
      have settles : state.owner.settle (state.requests ++
          SourceRequest.select state.made.length (announced serves ++ [Mime.marker]) ::
            state.current.map SourceRequest.destroy) = .ours state.made.length := by
        rw [Owner.settle_append, Owner.settle_cons]
        exact settled
      change commands.foldl leaves (contents (state.made ++ [serves]) (state.owner.settle
        (state.requests ++ SourceRequest.select state.made.length
          (announced serves ++ [Mime.marker]) ::
            state.current.map SourceRequest.destroy))) = _
      rw [settles, contents, List.getElem?_concat_length]

/-- Destroying what was overtaken is no change. The source that is destroyed is no longer the
selection, and a paste changes nothing of it. -/
theorem Owned.outcome_onSource (owned : state.Owned) (event : SourceEvent)
    (events : List SourceEvent) (queued : state.events = event :: events) :
    (Ownership.onSource event { state with events }).outcome = state.outcome := by
  rw [Ownership.onSource]
  dsimp only
  split
  case h_1 => rfl
  case h_2 held holds =>
    split
    case isFalse => rfl
    case isTrue same =>
      cases event with
      | send source mime paste => rfl
      | cancelled source =>
        have unselected := owned.overtaken_unselected source
          (by rw [queued]; exact List.mem_cons_self)
        have settles : state.owner.settle (state.requests ++ [.destroy source]) =
            state.owner.settle state.requests := by
          rw [Owner.settle_append, Owner.settle_cons, Owner.settle_nil, Owner.apply,
            if_neg unselected]
        change state.commands.foldl leaves (contents state.made (state.owner.settle
          (state.requests ++ [.destroy source]))) = _
        rw [settles]
        rfl

end Outcome

/-- Another application takes the selection, or it goes. -/
def isForeign : OwnershipLabel → Bool
  | .take | .leave => true
  | _ => false

/-- The commands among what happens. -/
def commanded (labels : List OwnershipLabel) : List Command :=
  labels.filterMap (fun label =>
    match label with
    | .command command => some command
    | _ => none)

/-- Only commands and other applications change what there will be to paste. A step of the thread
or of the compositor only moves what is on its way; what it will come to in the end is the same.
-/
theorem step_outcome (state next : Ownership) (label : OwnershipLabel) (owned : state.Owned)
    (ours : isForeign label = false) (taken : step state label = some next) :
    next.outcome = (commanded [label]).foldl leaves state.outcome := by
  cases label with
  | command command =>
    cases taken
    change (state.commands ++ [command]).foldl leaves _ = _
    rw [List.foldl_append]
    rfl
  | runCommand =>
    rw [step] at taken
    split at taken
    case h_1 => cases taken
    case h_2 command commands queued =>
      cases taken
      exact owned.outcome_runCommand command commands queued
  | request =>
    rw [step] at taken
    split at taken
    case h_1 => cases taken
    case h_2 request requests queued =>
      cases taken
      change state.commands.foldl leaves (contents state.made
        ((state.owner.apply request).settle requests)) = state.outcome
      rw [outcome, queued, Owner.settle_cons]
  | dispatch =>
    rw [step] at taken
    split at taken
    case h_1 => cases taken
    case h_2 event events queued =>
      cases taken
      exact owned.outcome_onSource event events queued
  | take => cases ours
  | leave => cases ours
  | paste mime =>
    rw [step] at taken
    split at taken
    case h_2 => cases taken
    case h_1 source ours =>
      cases taken
      rfl

/-- As long as no other application meddles, what there will be to paste follows the commands. The
induction is on the labels: a command is added to what there will be, and any other label leaves
it. -/
theorem run_outcome (labels : List OwnershipLabel) (state last : Ownership) (owned : state.Owned)
    (ours : ∀ label ∈ labels, isForeign label = false)
    (reached : Runs.run step state labels = some last) :
    last.outcome = (commanded labels).foldl leaves state.outcome := by
  induction labels generalizing state with
  | nil =>
    obtain rfl : state = last := Option.some.inj reached
    rfl
  | cons label labels inductionHypothesis =>
    obtain ⟨next, taken, rest⟩ := (Runs.run_cons_iff step state last label labels).mp reached
    have first := step_outcome state next label owned (ours label List.mem_cons_self) taken
    have later := inductionHypothesis next (step_owned state next label owned taken)
      (fun other member => ours other (List.mem_cons_of_mem _ member)) rest
    have split : commanded (label :: labels) = commanded [label] ++ commanded labels :=
      List.filterMap_append (l := [label]) ..
    rw [later, first, split, List.foldl_append]

/-- Nothing is on its way. -/
structure AtRest (state : Ownership) : Prop where
  run : state.commands = []
  arrived : state.requests = []
  heard : state.events = []

/-- Offers of nothing leave what there is to paste. -/
theorem leaves_offers (commands : List Command) (before : Contents)
    (idle : ∀ command ∈ commands, command = .offer []) :
    commands.foldl leaves before = before := by
  induction commands generalizing before with
  | nil => rfl
  | cons command commands inductionHypothesis =>
    rw [List.foldl_cons, idle command List.mem_cons_self]
    exact inductionHypothesis _ fun other member => idle other (List.mem_cons_of_mem _ member)

/-- The last word is what there is to paste: where no other application takes the selection after
a clip is put on it, or after it is emptied, and no other command that does anything follows,
that is what it is once nothing is on its way, whatever was on its way when the command came.
The thread then holds exactly what the compositor has. -/
theorem last_command_has_the_selection (early late : List OwnershipLabel) (command : Command)
    (state last : Ownership) (stocked : command ≠ .offer [])
    (reached : Runs.run step start early = some state)
    (ran : Runs.run step state (.command command :: late) = some last)
    (ours : ∀ label ∈ late, isForeign label = false)
    (idle : ∀ other ∈ commanded late, other = .offer []) (rest : last.AtRest) :
    contents last.made last.owner = leaves .nothing command ∧
      ∀ source, last.owner = .ours source ↔ source ∈ last.current := by
  have before := Runs.run_invariant step Owned
    (fun state label next => step_owned state next label) start state early start_owned reached
  have owned := Runs.run_invariant step Owned
    (fun state label next => step_owned state next label) state last _ before ran
  have followed := run_outcome _ state last before (List.forall_mem_cons.mpr ⟨rfl, ours⟩) ran
  constructor
  · have word : commanded (.command command :: late) = command :: commanded late := rfl
    have here : last.outcome = contents last.made last.owner := by
      rw [outcome, rest.run, rest.arrived, List.foldl_nil, Owner.settle_nil]
    rw [← here, followed, word, List.foldl_cons, leaves_offers _ _ idle]
    cases command with
    | clear => rfl
    | offer serves =>
      have serving : serves ≠ [] := fun empty => stocked (congrArg Command.offer empty)
      rw [leaves, leaves, if_neg serving, if_neg serving]
  · intro source
    constructor
    · intro selected
      refine owned.settled source ?_
      rw [rest.arrived]
      exact selected
    · intro held
      have settles := owned.holding source held
      rw [rest.arrived, rest.heard] at settles
      exact settles.resolve_right List.not_mem_nil

/-- A clip, its paste, another clip that takes its place before a second paste arrives, another
application, and a third clip. -/
def replacing : List OwnershipLabel :=
  [.command (.offer [{ mimes := ["text/plain"], bytes := [1] }]), .runCommand, .request,
    .paste "TEXT/PLAIN", .dispatch, .paste "text/plain",
    .command (.offer [{ mimes := ["text/plain"], bytes := [2] }]), .runCommand, .dispatch,
    .request, .take]

/-- A paste made before another offer arrives is not answered, as its source was destroyed. -/
theorem pastes_are_answered_from_their_source_replacing :
    ∃ last, Runs.run step start replacing = some last ∧ last.pastes[1]? = some (0, "text/plain") ∧
      1 ∉ last.answers.map Prod.fst ∧ 0 ∈ last.released := by
  have observed : ((Runs.run step start replacing).map (fun last =>
      decide (last.pastes[1]? = some (0, "text/plain")) &&
        decide (1 ∉ last.answers.map Prod.fst) && decide (1 ∉ waiting last.events))) =
      some true := by
    decide +kernel
  obtain ⟨last, ran, holds⟩ := Option.map_eq_some_iff.mp observed
  simp only [Bool.and_eq_true, decide_eq_true_eq] at holds
  obtain ⟨⟨asked, unanswered⟩, gone⟩ := holds
  exact ⟨last, ran, asked, unanswered,
    (pastes_are_answered_from_their_source replacing last ran).2.2.1 1 0 _ asked unanswered gone⟩

/-- What arrives after one more clip. -/
def arriving : List OwnershipLabel :=
  [.request, .runCommand, .dispatch, .request, .request, .dispatch]

/-- One more offer after that, which nobody takes the place of. Nothing is on its way any more
when it is looked at. -/
theorem last_command_has_the_selection_after_replacing :
    ∃ state last, Runs.run step start replacing = some state ∧
      Runs.run step state (.command (.offer [{ mimes := ["text/plain"], bytes := [3] }]) ::
        arriving) = some last ∧
      contents last.made last.owner = .served [{ mimes := ["text/plain"], bytes := [3] }] := by
  have observed : ((Runs.run step start replacing).bind (fun state =>
      (Runs.run step state (.command (.offer [{ mimes := ["text/plain"], bytes := [3] }]) ::
        arriving)).map (fun last =>
          decide (last.commands = []) && decide (last.requests = []) &&
            decide (last.events = [])))) = some true := by
    decide +kernel
  obtain ⟨state, reached, ran⟩ := Option.bind_eq_some_iff.mp observed
  obtain ⟨last, ran, holds⟩ := Option.map_eq_some_iff.mp ran
  simp only [Bool.and_eq_true, decide_eq_true_eq] at holds
  obtain ⟨⟨run, arrived⟩, heard⟩ := holds
  exact ⟨state, last, reached, ran, (last_command_has_the_selection replacing arriving
    (.offer [{ mimes := ["text/plain"], bytes := [3] }]) state last (by decide) reached ran
    (by decide) (by decide) ⟨run, arrived, heard⟩).1⟩

end Ownership

end Yank.Wayland
