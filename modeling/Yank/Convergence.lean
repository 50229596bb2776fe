import Yank.Joins
import Yank.Service

/-!
# A mesh of clipboards

Any number of machines, one for each id, each a clipboard with its file. A
machine copies, captures, clears, expires, restarts from its file, or is handed
a clip that some machine once held. The network is the set of every clip ever
held: a message may be lost, delayed, repeated or arrive out of order, which is
the freedom to deliver any of them at any time or never.

Everything follows from where stamps are made. A machine stamps a new copy after
its own head, and every clip of its origin anywhere is at most that head; so the
stamp is new to the whole mesh.
-/

namespace Yank

/-- The machines, the clips they ever held, and what each of them accepted. -/
structure Mesh (Id Hash : Type) where
  machines : Id → Service Id Hash
  held : List (Clip Id Hash)
  accepted : List (Id × Stamp Id)

variable {Id Hash : Type} [LinearOrder Id]

namespace Clipboard

/-- A clip of another machine, plausible and fit to hold, is welcome. -/
theorem acceptable_of (clock : Clock) (clip : Clip Id Hash) (board : Clipboard Id Hash)
    (foreign : clip.stamp.origin ≠ board.origin)
    (believed : clip.stamp.isPlausible clock.believed = true)
    (fit : ∀ copy, clip.copy = some copy → copy.check = .ok ()) :
    board.acceptable clock clip = .ok () := by
  simp only [acceptable, ensure_bind_ok_iff]
  refine ⟨by simp [foreign], by simp [believed], ?_⟩
  cases copied : clip.copy with
  | none => rfl
  | some copy => exact fit copy copied

/-- Everything the board can be after one event and what it then holds: the clip
it held, one nobody had stamped, one a peer sent, or an emptied one. -/
theorem Moved.holds_cases {before after : Clipboard Id Hash} {event : Event Id Hash}
    (moved : Moved before event after) (clip : Clip Id Hash) (holds : after.clip = some clip) :
    before.clip = some clip ∨ (∃ clock, event = .accept clock clip) ∨
      (before.head < clip.stamp ∧ clip.stamp.origin = before.origin) ∨
      (clip.copy = none ∧ ∃ other : Clip Id Hash, other.stamp = clip.stamp ∧
        (before.clip = some other ∨ ∃ clock, event = .accept clock other)) := by
  cases moved with
  | kept same => exact Or.inl (same.symm.trans holds)
  | made stamp copy later ours made =>
    obtain rfl := Option.some.inj (made.symm.trans holds)
    exact Or.inr (Or.inr (Or.inl ⟨later, ours⟩))
  | taken clock sent was later welcome landed =>
    rcases landed with whole | empty
    · obtain rfl := Option.some.inj (whole.symm.trans holds)
      exact Or.inr (Or.inl ⟨clock, was⟩)
    · obtain rfl := Option.some.inj (empty.symm.trans holds)
      exact Or.inr (Or.inr (Or.inr ⟨rfl, sent, rfl, Or.inr ⟨clock, was⟩⟩))
  | emptied stamp copy carried dropped =>
    obtain rfl := Option.some.inj (dropped.symm.trans holds)
    exact Or.inr (Or.inr (Or.inr ⟨rfl, { stamp, copy := some copy }, rfl, Or.inl carried⟩))

variable [ContentHash Hash]

/-- The head after a clip that nothing refuses is the later of the two. -/
theorem accept_head (clock : Clock) (clip : Clip Id Hash) (board : Clipboard Id Hash)
    (welcome : board.acceptable clock clip = .ok ()) :
    (board.accept clock clip).1.head = board.head ⊔ clip.stamp := by
  rcases accept_cases clock clip board with
    ⟨stale, ignored⟩ | ⟨failure, refused, _⟩ | ⟨newer, _, taken⟩
  · rw [ignored, sup_eq_left.mpr stale]
  · rw [welcome] at refused
    cases refused
  · rw [taken, apply_head, lapse_head, set_head, sup_eq_right.mpr newer.le]

/-- Accepting never changes what is asked of the next clip. -/
theorem accept_origin (clock : Clock) (clip : Clip Id Hash) (board : Clipboard Id Hash) :
    (board.accept clock clip).1.origin = board.origin := by
  rcases accept_cases clock clip board with
    ⟨_, ignored⟩ | ⟨failure, _, refused⟩ | ⟨_, _, taken⟩
  · rw [ignored]
  · rw [refused]
  · rw [taken, apply_origin, lapse_origin, set_origin]

variable [DecidableEq Hash]

/-- A head that accepts is a register updated by joins. The induction is on the deliveries: each
is welcome if it is newer, and ignored if it is not. -/
theorem accepts_head (deliveries : List (Clock × Clip Id Hash)) (board : Clipboard Id Hash)
    (foreign : ∀ delivery ∈ deliveries, delivery.2.stamp.origin ≠ board.origin)
    (believed : ∀ delivery ∈ deliveries,
      delivery.2.stamp.isPlausible delivery.1.believed = true)
    (fit : ∀ delivery ∈ deliveries, ∀ copy, delivery.2.copy = some copy → copy.check = .ok ()) :
    (board.after (deliveries.map (fun delivery => .accept delivery.1 delivery.2))).head =
      Joins.joinAll board.head (deliveries.map (fun delivery => ↑delivery.2.stamp)) := by
  induction deliveries generalizing board with
  | nil => rfl
  | cons delivery deliveries inductionHypothesis =>
    rw [List.forall_mem_cons] at foreign believed fit
    have welcome := acceptable_of delivery.1 delivery.2 board foreign.1 believed.1 fit.1
    rw [List.map_cons, List.map_cons, Joins.joinAll_cons,
      ← accept_head delivery.1 delivery.2 board welcome]
    refine inductionHypothesis (board.accept delivery.1 delivery.2).1 ?_ believed.2 fit.2
    rw [accept_origin]
    exact foreign.2

end Clipboard

namespace Mesh

variable [ContentHash Hash]

/-- Every machine starts with nothing saved. -/
def start (clocks : Id → Clock) (settings : Id → Settings) : Mesh Id Hash where
  machines id := Service.opened true (clocks id) id (settings id) none
  held := []
  accepted := []

variable [DecidableEq Hash]

/-- Whether an event can happen: only what was held is delivered. -/
def possible (mesh : Mesh Id Hash) (event : Clipboard.Event Id Hash) : Bool :=
  match event with
  | .accept _ clip => decide (clip ∈ mesh.held)
  | _ => true

/-- The stamp an event has a machine accept, stale or not. -/
def acceptedBy (board : Clipboard Id Hash) (event : Clipboard.Event Id Hash) :
    Option (Stamp Id) :=
  match event with
  | .accept clock clip =>
      match (board.accept clock clip).2 with
      | .ok _ => some clip.stamp
        | .error _ => none
  | _ => none

/-- One event on one machine, every save succeeding. -/
def step (mesh : Mesh Id Hash) (label : Id × Clipboard.Event Id Hash) :
    Option (Mesh Id Hash) :=
  if mesh.possible label.2 then
    let before := mesh.machines label.1
    let service := before.act true label.2
    some
      { machines := Function.update mesh.machines label.1 service
        held := service.board.clip.toList ++ mesh.held
        accepted :=
          (acceptedBy before.board label.2).toList.map (fun stamp => (label.1, stamp)) ++
            mesh.accepted }
  else none

/-- Two clips carry the same copy unless one of them carries none. -/
def Agree (left right : Clip Id Hash) : Prop :=
  left.stamp = right.stamp → left.copy = right.copy ∨ left.copy = none ∨ right.copy = none

/-- What every reachable mesh keeps. `behind` is what the rest is for: no clip
of a machine is ahead of that machine. -/
structure Sound (mesh : Mesh Id Hash) : Prop where
  named : ∀ id, (mesh.machines id).board.origin = id
  written : ∀ id, (mesh.machines id).disk = (mesh.machines id).board.saved
  holds : ∀ id clip, (mesh.machines id).board.clip = some clip → clip ∈ mesh.held
  behind : ∀ clip ∈ mesh.held, clip.stamp ≤ (mesh.machines clip.stamp.origin).board.head
  agree : ∀ left ∈ mesh.held, ∀ right ∈ mesh.held, Agree left right
  seen : ∀ entry ∈ mesh.accepted, entry.2 ≤ (mesh.machines entry.1).board.head

omit [DecidableEq Hash] in
/-- Nobody holds anything yet. -/
theorem start_sound (clocks : Id → Clock) (settings : Id → Settings) :
    Sound (start clocks settings : Mesh Id Hash) where
  named id := by simp [start]
  written id := by simp [start, Service.opened_disk]
  holds id clip held := by simp [start, Clipboard.new] at held
  behind clip member := by cases member
  agree left member := by cases member
  seen entry member := by cases member

/-- What one step of the mesh does, in full. -/
structure Taken (mesh : Mesh Id Hash) (id : Id) (event : Clipboard.Event Id Hash)
    (next : Mesh Id Hash) : Prop where
  possible : mesh.possible event = true
  acted : next.machines id = (mesh.machines id).act true event
  others : ∀ other, other ≠ id → next.machines other = mesh.machines other
  held : ∀ clip, clip ∈ next.held ↔
    (next.machines id).board.clip = some clip ∨ clip ∈ mesh.held
  accepted : ∀ entry ∈ next.accepted, entry ∈ mesh.accepted ∨
    entry.1 = id ∧ acceptedBy (mesh.machines id).board event = some entry.2

/-- A step of the mesh is an event of one machine that can happen, and the clip it leaves was held. -/
theorem step_taken (mesh : Mesh Id Hash) (id : Id) (event : Clipboard.Event Id Hash)
    (next : Mesh Id Hash) (taken : mesh.step (id, event) = some next) :
    Taken mesh id event next := by
  simp only [step, Option.ite_none_right_eq_some, Option.some.injEq] at taken
  obtain ⟨possible, rfl⟩ := taken
  refine ⟨possible, Function.update_self _ _ _, ?_, ?_, ?_⟩
  · intro other apart
    exact Function.update_of_ne apart _ _
  · intro clip
    simp
  · rintro ⟨owner, stamp⟩ member
    rcases List.mem_append.mp member with new | known
    · right
      simpa [eq_comm, and_comm] using new
    · exact Or.inl known

/-- What a machine accepts it is at least as new as from then on. -/
theorem acceptedBy_le (board : Clipboard Id Hash) (event : Clipboard.Event Id Hash)
    (stamp : Stamp Id) (accepted : acceptedBy board event = some stamp) :
    stamp ≤ (board.step event).1.head := by
  cases event with
  | accept clock clip =>
    rw [Clipboard.step]
    rcases Clipboard.accept_cases clock clip board with
      ⟨stale, ignored⟩ | ⟨failure, _, refused⟩ | ⟨_, _, taken⟩
    · obtain rfl : clip.stamp = stamp := by simpa [acceptedBy, ignored] using accepted
      rwa [ignored]
    · simp [acceptedBy, refused] at accepted
    · obtain rfl : clip.stamp = stamp := by simpa [acceptedBy, taken] using accepted
      rw [taken, Clipboard.apply_head, Clipboard.lapse_head, Clipboard.set_head]
  | _ => simp [acceptedBy] at accepted

section Step
variable (mesh next : Mesh Id Hash) (id : Id) (event : Clipboard.Event Id Hash)
  (sound : Sound mesh) (taken : Taken mesh id event next)
include sound taken

/-- The machine that took a step is where its event leaves it. -/
theorem taken_board : (next.machines id).board = ((mesh.machines id).board.step event).1 := by
  rw [taken.acted, Service.act_board true _ event (sound.written id)]

/-- No machine's head moves down. -/
theorem taken_head_le (other : Id) :
    (mesh.machines other).board.head ≤ (next.machines other).board.head := by
  by_cases same : other = id
  · subst same
    rw [taken_board mesh next other event sound taken]
    exact (Clipboard.step_moved (mesh.machines other).board event).head_le
  · rw [taken.others other same]

/-- Where a machine's clip after an event comes from: from the mesh as it was,
unchanged or emptied, or from a stamp the mesh has not seen. -/
theorem taken_clip (clip : Clip Id Hash) (holds : (next.machines id).board.clip = some clip) :
    clip ∈ mesh.held ∨ (clip.copy = none ∧ ∃ other ∈ mesh.held, other.stamp = clip.stamp) ∨
      ((mesh.machines id).board.head < clip.stamp ∧ clip.stamp.origin = id) := by
  have delivered : ∀ clock (sent : Clip Id Hash), event = .accept clock sent →
      sent ∈ mesh.held := by
    rintro clock sent rfl
    simpa [Mesh.possible] using taken.possible
  rw [taken_board mesh next id event sound taken] at holds
  have moved := Clipboard.step_moved (mesh.machines id).board event
  rcases moved.holds_cases clip holds with
    same | ⟨clock, was⟩ | ⟨later, ours⟩ | ⟨empty, other, stamped, source⟩
  · exact Or.inl (sound.holds id clip same)
  · exact Or.inl (delivered clock clip was)
  · exact Or.inr (Or.inr ⟨later, ours.trans (sound.named id)⟩)
  · refine Or.inr (Or.inl ⟨empty, other, ?_, stamped⟩)
    rcases source with before | ⟨clock, was⟩
    · exact sound.holds id other before
    · exact delivered clock other was

/-- The new clip agrees with every clip held before. Only a fresh stamp needs
`behind`, which puts it past all of its origin's. -/
theorem taken_agree (clip other : Clip Id Hash)
    (holds : (next.machines id).board.clip = some clip) (member : other ∈ mesh.held) :
    Agree clip other := by
  intro stamped
  rcases taken_clip mesh next id event sound taken clip holds with
    known | ⟨empty, _⟩ | ⟨later, ours⟩
  · exact sound.agree clip known other member stamped
  · exact Or.inr (Or.inl empty)
  · have bounded := sound.behind other member
    rw [← stamped, ours] at bounded
    exact absurd later (not_lt_of_ge bounded)

/-- No clip of a machine gets ahead of that machine. -/
theorem taken_behind (clip : Clip Id Hash) (member : clip ∈ next.held) :
    clip.stamp ≤ (next.machines clip.stamp.origin).board.head := by
  have before : ∀ known ∈ mesh.held,
      known.stamp ≤ (next.machines known.stamp.origin).board.head := fun known held =>
    (sound.behind known held).trans (taken_head_le mesh next id event sound taken _)
  rcases (taken.held clip).mp member with holds | known
  · rcases taken_clip mesh next id event sound taken clip holds with
      known | ⟨_, other, held, stamped⟩ | ⟨_, ours⟩
    · exact before clip known
    · rw [← stamped]
      exact before other held
    · rw [ours, Clipboard.head_of_clip _ clip holds]
  · exact before clip known

/-- One event keeps the mesh sound. The event touches one machine. That machine keeps its name and
writes what it holds, and a clip it holds now is among those that were ever held. -/
theorem taken_sound : Sound next where
  named other := by
    by_cases same : other = id
    · subst same
      rw [taken_board mesh next other event sound taken, Clipboard.step_origin]
      exact sound.named other
    · rw [taken.others other same]
      exact sound.named other
  written other := by
    by_cases same : other = id
    · subst same
      rw [taken.acted]
      exact Service.act_disk (mesh.machines other) event (sound.written other)
    · rw [taken.others other same]
      exact sound.written other
  holds other clip holds := by
    rw [taken.held]
    by_cases same : other = id
    · subst same
      exact Or.inl holds
    · rw [taken.others other same] at holds
      exact Or.inr (sound.holds other clip holds)
  behind := taken_behind mesh next id event sound taken
  agree left leftMember right rightMember := by
    rcases (taken.held left).mp leftMember with leftHolds | leftKnown
    · rcases (taken.held right).mp rightMember with rightHolds | rightKnown
      · obtain rfl := Option.some.inj (leftHolds.symm.trans rightHolds)
        exact fun _ => Or.inl rfl
      · exact taken_agree mesh next id event sound taken left right leftHolds rightKnown
    · rcases (taken.held right).mp rightMember with rightHolds | rightKnown
      · intro stamped
        rcases taken_agree mesh next id event sound taken right left rightHolds leftKnown
          stamped.symm with same | empty | empty
        · exact Or.inl same.symm
        · exact Or.inr (Or.inr empty)
        · exact Or.inr (Or.inl empty)
      · exact sound.agree left leftKnown right rightKnown
  seen entry member := by
    rcases taken.accepted entry member with known | ⟨owner, accepted⟩
    · exact (sound.seen entry known).trans (taken_head_le mesh next id event sound taken _)
    · rw [owner, taken_board mesh next id event sound taken]
      exact acceptedBy_le (mesh.machines id).board event entry.2 accepted

end Step

/-- Every mesh a run reaches is sound. -/
theorem run_sound (clocks : Id → Clock) (settings : Id → Settings)
    (labels : List (Id × Clipboard.Event Id Hash)) (mesh : Mesh Id Hash)
    (reached : Runs.run step (start clocks settings) labels = some mesh) : Sound mesh :=
  Runs.run_invariant step Sound (fun state label next sound taken =>
    taken_sound state next label.1 label.2 sound (step_taken state label.1 label.2 next taken))
    _ _ labels (start_sound clocks settings) reached

/-- The mesh converges. In every configuration a run reaches, clips of one stamp
carry one copy unless one was emptied; a machine that takes any clips of others,
in any order and however often, ends at the newest of them and its own; and two
machines that each accepted something as new as what the other holds have the
same head. -/
theorem mesh_converges (clocks : Id → Clock) (settings : Id → Settings)
    (labels : List (Id × Clipboard.Event Id Hash)) (mesh : Mesh Id Hash)
    (reached : Runs.run step (start clocks settings) labels = some mesh) :
    (∀ id clip, (mesh.machines id).board.clip = some clip → clip ∈ mesh.held) ∧
      (∀ left ∈ mesh.held, ∀ right ∈ mesh.held, left.stamp = right.stamp →
        left.copy = right.copy ∨ left.copy = none ∨ right.copy = none) ∧
      (∀ (id : Id) (deliveries : List (Clock × Clip Id Hash)),
        (∀ delivery ∈ deliveries, delivery.2.stamp.origin ≠ id) →
        (∀ delivery ∈ deliveries,
          delivery.2.stamp.isPlausible delivery.1.believed = true) →
        (∀ delivery ∈ deliveries, ∀ copy, delivery.2.copy = some copy →
          copy.check = .ok ()) →
        IsGreatest
          (insert (mesh.machines id).board.head
            {head | ∃ delivery ∈ deliveries, head = ↑delivery.2.stamp})
          ((mesh.machines id).board.after
            (deliveries.map (fun delivery => .accept delivery.1 delivery.2))).head) ∧
      ∀ (left right : Id) (atLeft atRight : Stamp Id),
        (left, atLeft) ∈ mesh.accepted → (mesh.machines right).board.head ≤ atLeft →
        (right, atRight) ∈ mesh.accepted → (mesh.machines left).board.head ≤ atRight →
        (mesh.machines left).board.head = (mesh.machines right).board.head := by
  have sound := run_sound clocks settings labels mesh reached
  refine ⟨sound.holds, sound.agree, ?_, ?_⟩
  · intro id deliveries foreign believed fit
    rw [Clipboard.accepts_head deliveries _ ((sound.named id).symm ▸ foreign) believed fit]
    constructor
    · rcases Joins.joinAll_mem (mesh.machines id).board.head
          (deliveries.map (fun delivery => ↑delivery.2.stamp)) with own | among
      · exact Or.inl own
      · obtain ⟨delivery, member, same⟩ := List.mem_map.mp among
        exact Or.inr ⟨delivery, member, same.symm⟩
    · rintro head (rfl | ⟨delivery, member, rfl⟩)
      · exact Joins.start_le_joinAll _ _
      · exact Joins.member_le_joinAll _ _ _ (List.mem_map_of_mem member)
  · intro left right atLeft atRight leftAccepted rightBelow rightAccepted leftBelow
    exact le_antisymm (leftBelow.trans (sound.seen (right, atRight) rightAccepted))
      (rightBelow.trans (sound.seen (left, atLeft) leftAccepted))

/-- A copy made on one machine, delivered to another and announced back. What is announced back is
no news to the machine that made it, and both have the same head. -/
theorem mesh_converges_two :
    let clock : Clock :=
      { stamp := 5000000, believed := 5000000, set := 5000000, lapse := 5000000 }
    let selection := Selection.of { mime := "text/plain", bytes := [104, 105] }
    let clip : Clip Nat Bytes :=
      { stamp := { millis := 5, origin := 0 },
        copy := some { selection, secret := false, ttl := none, files := [] } }
    ∃ mesh : Mesh Nat Bytes,
      Runs.run step (start (fun _ => clock) (fun _ => Settings.default))
        [(0, .copy clock selection [] false none), (1, .accept clock clip),
          (0, .accept clock clip)] = some mesh ∧
      (mesh.machines 0).board.head = (mesh.machines 1).board.head := by
  intro clock selection clip
  have observed : (Runs.run step (start (fun _ => clock) (fun _ => Settings.default))
      [(0, .copy clock selection [] false none), (1, .accept clock clip),
        (0, .accept clock clip)]).map (fun mesh =>
          decide (mesh.accepted = [(0, clip.stamp), (1, clip.stamp)]) &&
            decide ((mesh.machines 0).board.head ≤ (clip.stamp : WithBot (Stamp Nat))) &&
            decide ((mesh.machines 1).board.head ≤ (clip.stamp : WithBot (Stamp Nat)))) = some true := by
    decide
  obtain ⟨mesh, reached, holds⟩ := Option.map_eq_some_iff.mp observed
  simp only [Bool.and_eq_true, decide_eq_true_eq] at holds
  obtain ⟨⟨accepted, atZero⟩, atOne⟩ := holds
  refine ⟨mesh, reached, ?_⟩
  exact (mesh_converges _ _ _ mesh reached).2.2.2 0 1 clip.stamp clip.stamp
    (by simp [accepted]) atOne (by simp [accepted]) atZero

end Mesh

end Yank
