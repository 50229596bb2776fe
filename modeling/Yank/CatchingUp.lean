import Yank.Drift

/-!
# Catching up after a save that failed

A clip is announced whether or not it could be saved, and a machine whose file is
behind or unreadable starts with an older clip or none. Its peers hold what it
lost, and it takes that back from them, except for a clip that it copied itself: a
clip that names this machine as its origin is refused as a forgery.

A machine never loses track of a clip of its own as long as it resumes from a file
that is no older than any clip of its own still out there.
-/

namespace Yank

variable {Id Hash : Type} [LinearOrder Id]

/-- A clip that every machine may hold. -/
def Clip.Fit (clip : Clip Id Hash) : Prop :=
  ∀ copy, clip.copy = some copy → copy.check = .ok ()

namespace Clipboard

omit [LinearOrder Id] in
/-- A lapse leaves a clip fit. -/
theorem lapse_fit (now : SystemTime) (board : Clipboard Id Hash)
    (fit : ∀ clip, board.clip = some clip → clip.Fit) (clip : Clip Id Hash)
    (holds : (board.lapse now).clip = some clip) : clip.Fit := by
  obtain same | ⟨held, _, _, emptied⟩ := lapse_cases now board
  · rw [same] at holds
    exact fit clip holds
  · rw [emptied, set_clip] at holds
    obtain rfl := Option.some.inj holds
    intro copy impossible
    cases impossible

omit [LinearOrder Id] in
/-- What is saved of a fit clip is fit. -/
theorem saved_fit (board : Clipboard Id Hash)
    (fit : ∀ clip, board.clip = some clip → clip.Fit) (clip : Clip Id Hash)
    (wrote : board.saved = some clip) : clip.Fit := by
  obtain same | ⟨held, _, emptied⟩ := saved_cases board
  · exact fit clip (same.symm.trans wrote)
  · obtain rfl := Option.some.inj (emptied.symm.trans wrote)
    intro copy impossible
    cases impossible

variable [ContentHash Hash]

/-- A clip made on a machine is checked before it is set. -/
theorem new_fit (clock : Clock) (origin : Id) (settings : Settings)
    (saved : Option (Clip Id Hash)) (fit : ∀ clip, saved = some clip → clip.Fit)
    (clip : Clip Id Hash) (holds : (new clock origin settings saved).clip = some clip) :
    clip.Fit := by
  obtain same | ⟨held, _, emptied⟩ := new_clip clock origin settings saved
  · exact fit clip (same.symm.trans holds)
  · obtain rfl := Option.some.inj (emptied.symm.trans holds)
    intro copy impossible
    cases impossible

omit [ContentHash Hash] in
/-- What a clip was asked to pass before it was taken. -/
theorem acceptable_fit (clock : Clock) (clip : Clip Id Hash) (board : Clipboard Id Hash)
    (welcome : board.acceptable clock clip = .ok ()) : clip.Fit := by
  simp only [acceptable, ensure_bind_ok_iff] at welcome
  intro copy copied
  have checked := welcome.2.2
  rw [copied] at checked
  exact checked

variable [DecidableEq Hash]

/-- An operation leaves the machine with a clip that is fit. What it held was fit, and what it
recorded, copied or accepted has passed `check`; a removal leaves a clip without a copy. -/
theorem step_fit (board : Clipboard Id Hash) (event : Event Id Hash)
    (running : ¬ ∃ clock settings, event = .restart clock settings)
    (fit : ∀ clip, board.clip = some clip → clip.Fit) (clip : Clip Id Hash)
    (holds : (board.step event).1.clip = some clip) : clip.Fit := by
  have did := step_did board event
  generalize board.step event = outcome at did holds
  cases did with
  | nothing => exact fit clip holds
  | echoed => exact fit clip holds
  | recorded _ _ _ _ _ _ _ _ _ checked =>
    obtain rfl := Option.some.inj holds
    intro copy same
    obtain rfl := Option.some.inj same
    exact checked
  | applied ready first readied =>
    rw [apply_clip] at holds
    cases readied with
    | copied clock selection files secret ttl copy stamp recorded =>
      obtain rfl := Option.some.inj holds
      intro held same
      obtain rfl := Option.some.inj same
      exact toCopy_check board selection files secret ttl copy recorded
    | cleared =>
      obtain rfl := Option.some.inj holds
      intro held impossible
      cases impossible
    | taken clock taken newer welcome =>
      refine lapse_fit clock.lapse _ ?_ clip holds
      intro held same
      obtain rfl : taken = held := Option.some.inj same
      exact acceptable_fit clock taken board welcome
    | lapsed now due => exact lapse_fit now board fit clip holds
    | landed => exact fit clip holds
  | restarted clock settings isRestart => exact absurd ⟨clock, settings, isRestart⟩ running

end Clipboard

namespace Service

variable [ContentHash Hash] [DecidableEq Hash]

/-- What a machine may hold and what its file may hold, with a name that stays. -/
structure Honest (id : Id) (service : Service Id Hash) : Prop where
  named : service.board.origin = id
  held : ∀ clip, service.board.clip = some clip → clip.Fit
  written : ∀ clip, service.disk = some clip → clip.Fit

omit [DecidableEq Hash] in
/-- A machine that starts with a copy that fits is honest. -/
theorem opened_honest (saves : Bool) (clock : Clock) (id : Id) (settings : Settings)
    (disk : Option (Clip Id Hash)) (fit : ∀ clip, disk = some clip → clip.Fit) :
    Honest id (opened saves clock id settings disk) where
  named := by simp
  held := by
    rw [opened_board]
    exact Clipboard.new_fit clock id settings disk fit
  written := by
    rw [opened_disk]
    split
    · exact Clipboard.saved_fit _ (Clipboard.new_fit clock id settings disk fit)
    · exact fit

/-- Whatever happens on a machine, its saves failing or not, it stays honest. A restart is honest
because the disk was, and any other event because it leaves a clip that is fit under the name it
had. -/
theorem act_honest (saves : Bool) (id : Id) (service : Service Id Hash)
    (event : Clipboard.Event Id Hash) (honest : Honest id service) :
    Honest id (service.act saves event) := by
  by_cases restarts : ∃ clock settings, event = .restart clock settings
  · obtain ⟨clock, settings, rfl⟩ := restarts
    rw [act_restart, honest.named]
    exact opened_honest saves clock id settings service.disk honest.written
  · have fit := Clipboard.step_fit service.board event restarts honest.held
    rw [act_running saves service event restarts]
    constructor
    · rw [tryChange_board, Clipboard.step_origin]
      exact honest.named
    · rw [tryChange_board]
      exact fit
    · rw [tryChange_disk]
      split
      · exact Clipboard.saved_fit _ fit
      · exact honest.written

omit [DecidableEq Hash] in
/-- Pulling a clip through `accept` succeeds, and leaves the machine at its stamp. -/
def Pulls (service : Service Id Hash) (clock : Clock) (clip : Clip Id Hash) : Prop :=
  ∀ saves, (service.tryChange saves (service.board.accept clock clip)).2 = .ok () ∧
    (service.tryChange saves (service.board.accept clock clip)).1.board.head = clip.stamp

omit [DecidableEq Hash] in
/-- A newer plausible clip that is fit to hold is pulled exactly when it was copied on
another machine. -/
theorem pulls_iff (id : Id) (service : Service Id Hash) (clock : Clock) (clip : Clip Id Hash)
    (named : service.board.origin = id) (fit : clip.Fit)
    (newer : service.board.head < clip.stamp)
    (believed : clip.stamp.isPlausible clock.believed = true) :
    service.Pulls clock clip ↔ clip.stamp.origin ≠ id := by
  constructor
  · intro pulls ours
    have refused : service.board.acceptable clock clip = .error .claimsThisMachine := by
      have same : clip.stamp.origin = service.board.origin := ours.trans named.symm
      simp [Clipboard.acceptable, same, ensure]
      rfl
    have answered := (pulls true).1
    obtain ⟨stale, _⟩ | ⟨failure, _, ended⟩ | ⟨_, welcome, _⟩ :=
      Clipboard.accept_cases clock clip service.board
    · exact absurd newer (not_lt_of_ge stale)
    · rw [ended] at answered
      cases answered
    · rw [refused] at welcome
      cases welcome
  · intro foreign saves
    have welcome : service.board.acceptable clock clip = .ok () :=
      Clipboard.acceptable_of clock clip service.board (named.symm ▸ foreign) believed fit
    constructor
    · obtain ⟨_, ignored⟩ | ⟨failure, refused, _⟩ | ⟨_, _, taken⟩ :=
        Clipboard.accept_cases clock clip service.board
      · rw [ignored]
        rfl
      · rw [refused] at welcome
        cases welcome
      · rw [taken]
        rfl
    · rw [tryChange_board, Clipboard.accept_head clock clip service.board welcome,
        sup_eq_right.mpr newer.le]

end Service

namespace Mesh

variable [ContentHash Hash] [DecidableEq Hash]

/-- What happens on one machine: an operation or a restart, its save working or not,
or a start from a file that cannot be read. -/
inductive Incident (Id Hash : Type) where
  | act (saves : Bool) (event : Clipboard.Event Id Hash)
  | startEmpty (saves : Bool) (clock : Clock) (settings : Settings)

/-- The machine after it. -/
def Incident.on (service : Service Id Hash) : Incident Id Hash → Service Id Hash
  | .act saves event => service.act saves event
  | .startEmpty saves clock settings =>
      Service.opened saves clock service.board.origin settings none

/-- One incident on one machine. Only what some machine held is delivered. -/
def undergo (mesh : Mesh Id Hash) (label : Id × Incident Id Hash) : Option (Mesh Id Hash) :=
  let possible := match label.2 with
    | .act _ event => mesh.possible event
    | .startEmpty _ _ _ => true
  if possible then
    let service := label.2.on (mesh.machines label.1)
    some
      { machines := Function.update mesh.machines label.1 service
        held := service.board.clip.toList ++ mesh.held
        accepted := mesh.accepted }
  else none

/-- What an incident changes. -/
theorem undergo_cases (mesh next : Mesh Id Hash) (id : Id) (incident : Incident Id Hash)
    (taken : mesh.undergo (id, incident) = some next) :
    (∀ saves event, incident = .act saves event → mesh.possible event = true) ∧
      next.machines = Function.update mesh.machines id (incident.on (mesh.machines id)) ∧
      next.held = (incident.on (mesh.machines id)).board.clip.toList ++ mesh.held := by
  simp only [undergo, Option.ite_none_right_eq_some, Option.some.injEq] at taken
  obtain ⟨possible, rfl⟩ := taken
  refine ⟨?_, rfl, rfl⟩
  rintro saves event rfl
  exact possible

/-- The file after an incident holds the stamp of the clip on the board, or what it
held before. -/
theorem Incident.on_disk (service : Service Id Hash) (incident : Incident Id Hash)
    (clip : Clip Id Hash) (wrote : (incident.on service).disk = some clip) :
    (∃ shown, (incident.on service).board.clip = some shown ∧ shown.stamp = clip.stamp) ∨
      ∃ before, service.disk = some before ∧ before.stamp = clip.stamp := by
  have saved (board : Clipboard Id Hash) (same : board.saved = some clip) :
      ∃ shown, board.clip = some shown ∧ shown.stamp = clip.stamp := by
    obtain whole | ⟨shown, carried, emptied⟩ := Clipboard.saved_cases board
    · exact ⟨clip, whole.symm.trans same, rfl⟩
    · obtain rfl := Option.some.inj (emptied.symm.trans same)
      exact ⟨shown, carried, rfl⟩
  have opens (saves : Bool) (clock : Clock) (settings : Settings) (disk : Option (Clip Id Hash))
      (opened : (Service.opened saves clock service.board.origin settings disk).disk = some clip) :
      (∃ shown, (Service.opened saves clock service.board.origin settings disk).board.clip =
        some shown ∧ shown.stamp = clip.stamp) ∨ disk = some clip := by
    rw [Service.opened_disk] at opened
    split at opened
    · rw [Service.opened_board]
      exact .inl (saved _ opened)
    · exact .inr opened
  cases incident with
  | startEmpty saves clock settings =>
    obtain shown | impossible := opens saves clock settings none wrote
    · exact .inl shown
    · cases impossible
  | act saves event =>
    rw [Incident.on] at wrote ⊢
    by_cases restarts : ∃ clock settings, event = .restart clock settings
    · obtain ⟨clock, settings, rfl⟩ := restarts
      rw [Service.act_restart] at wrote ⊢
      obtain shown | kept := opens saves clock settings service.disk wrote
      · exact .inl shown
      · exact .inr ⟨clip, kept, rfl⟩
    · rw [Service.act_running saves service event restarts] at wrote ⊢
      rw [Service.tryChange_disk] at wrote
      split at wrote
      · rw [Service.tryChange_board]
        exact .inl (saved _ wrote)
      · exact .inr ⟨clip, wrote, rfl⟩

/-- Every machine is honest, and what is out there was held by one. -/
structure Trusted (mesh : Mesh Id Hash) : Prop where
  honest : ∀ id, (mesh.machines id).Honest id
  fit : ∀ clip ∈ mesh.held, clip.Fit
  holds : ∀ id clip, (mesh.machines id).board.clip = some clip → clip ∈ mesh.held
  filed : ∀ id clip, (mesh.machines id).disk = some clip →
    ∃ other ∈ mesh.held, other.stamp = clip.stamp

omit [DecidableEq Hash] in
/-- Machines that hold nothing hold nothing they should not. -/
theorem start_trusted (clocks : Id → Clock) (settings : Id → Settings) :
    Trusted (start clocks settings : Mesh Id Hash) where
  honest id := Service.opened_honest true (clocks id) id (settings id) none
    (fun _ impossible => by cases impossible)
  fit clip member := by cases member
  holds id clip held := by simp [start, Clipboard.new] at held
  filed id clip wrote := by simp [start, Service.opened_disk, Clipboard.new, Clipboard.saved] at wrote

/-- Whatever happens to one machine, all stay honest about what they hold. The incident changes
one machine, and what that machine makes or is left with is added to what was ever held. -/
theorem undergo_trusted (mesh next : Mesh Id Hash) (label : Id × Incident Id Hash)
    (trusted : Trusted mesh) (taken : mesh.undergo label = some next) : Trusted next := by
  obtain ⟨id, incident⟩ := label
  obtain ⟨_, machines, held⟩ := undergo_cases mesh next id incident taken
  have honest : (incident.on (mesh.machines id)).Honest id := by
    cases incident with
    | act saves event => exact Service.act_honest saves id _ event (trusted.honest id)
    | startEmpty saves clock settings =>
      have fit : ∀ clip : Clip Id Hash, none = some clip → clip.Fit :=
        fun _ impossible => by cases impossible
      rw [Incident.on, (trusted.honest id).named]
      exact Service.opened_honest saves clock id settings none fit
  constructor
  · intro other
    rw [machines]
    by_cases same : other = id
    · subst same
      rw [Function.update_self]
      exact honest
    · rw [Function.update_of_ne same]
      exact trusted.honest other
  · intro clip member
    rw [held, List.mem_append, Option.mem_toList] at member
    obtain new | known := member
    · exact honest.held clip new
    · exact trusted.fit clip known
  · intro other clip carried
    rw [held, List.mem_append, Option.mem_toList]
    by_cases same : other = id
    · subst same
      rw [machines, Function.update_self] at carried
      exact .inl carried
    · rw [machines, Function.update_of_ne same] at carried
      exact .inr (trusted.holds other clip carried)
  · intro other clip wrote
    rw [held]
    by_cases same : other = id
    · subst same
      rw [machines, Function.update_self] at wrote
      obtain ⟨shown, carried, stamped⟩ | ⟨before, stamped⟩ :=
        Incident.on_disk (mesh.machines other) incident clip wrote
      · refine ⟨shown, ?_, stamped⟩
        rw [List.mem_append, Option.mem_toList]
        exact .inl carried
      · obtain ⟨known, member, seen⟩ := trusted.filed other before stamped.1
        exact ⟨known, List.mem_append_right _ member, seen.trans stamped.2⟩
    · rw [machines, Function.update_of_ne same] at wrote
      obtain ⟨known, member, seen⟩ := trusted.filed other clip wrote
      exact ⟨known, List.mem_append_right _ member, seen⟩

/-- The stamp of a clip in a file, below every stamp when there is none. -/
def fileStamp (disk : Option (Clip Id Hash)) : WithBot (Stamp Id) :=
  disk.map (fun clip => clip.stamp)

/-- A machine that starts does so from a file no older than any clip of its own that
is out there. -/
def Remembers (mesh : Mesh Id Hash) (label : Id × Incident Id Hash) : Prop :=
  match label.2 with
  | .act _ (.restart _ _) => ∀ clip ∈ mesh.held, clip.stamp.origin = label.1 →
      clip.stamp ≤ fileStamp (mesh.machines label.1).disk
  | .act _ _ => True
  | .startEmpty _ _ _ => ∀ clip ∈ mesh.held, clip.stamp.origin ≠ label.1

/-- No clip is ahead of the machine it was copied on. -/
def Behind (mesh : Mesh Id Hash) : Prop :=
  ∀ clip ∈ mesh.held, clip.stamp ≤ (mesh.machines clip.stamp.origin).board.head

omit [DecidableEq Hash] in
/-- A machine starts under the stamp in its file. -/
theorem opened_head (saves : Bool) (clock : Clock) (id : Id) (settings : Settings)
    (disk : Option (Clip Id Hash)) :
    (Service.opened saves clock id settings disk).board.head = fileStamp disk := by
  rw [Service.opened_board]
  obtain same | ⟨clip, rfl, emptied⟩ := Clipboard.new_clip clock id settings disk
  · rw [Clipboard.head, same]
    rfl
  · rw [Clipboard.head_of_clip _ _ emptied]
    rfl

/-- A machine that remembers does not fall behind a clip of its own. Its head never falls, and a
start with an empty disk forgets no clip of its own by what is asked of it. -/
theorem on_remembers (mesh : Mesh Id Hash) (id : Id) (incident : Incident Id Hash)
    (behind : Behind mesh) (remembers : Remembers mesh (id, incident)) (clip : Clip Id Hash)
    (member : clip ∈ mesh.held) (ours : clip.stamp.origin = id) :
    clip.stamp ≤ (incident.on (mesh.machines id)).board.head := by
  cases incident with
  | startEmpty saves clock settings => exact absurd ours (remembers clip member)
  | act saves event =>
    rw [Incident.on]
    by_cases restarts : ∃ clock settings, event = .restart clock settings
    · obtain ⟨clock, settings, rfl⟩ := restarts
      rw [Service.act_restart, opened_head]
      exact remembers clip member ours
    · rw [Service.act_running saves _ event restarts, Service.tryChange_board]
      have before := behind clip member
      rw [ours] at before
      exact before.trans (Clipboard.step_moved _ event).head_le

/-- The stamp of a clip on a board after an incident is known, or was made there. It comes from
the disk, from the board before, out of a clip that was delivered, or from the machine itself, and
only the last makes a stamp. -/
theorem on_seen (mesh : Mesh Id Hash) (id : Id) (incident : Incident Id Hash)
    (trusted : Trusted mesh)
    (delivered : ∀ saves event, incident = .act saves event → mesh.possible event = true)
    (clip : Clip Id Hash) (holds : (incident.on (mesh.machines id)).board.clip = some clip) :
    clip.stamp.origin = id ∨ ∃ other ∈ mesh.held, other.stamp = clip.stamp := by
  have opens (saves : Bool) (clock : Clock) (settings : Settings)
      (opened : (Service.opened saves clock (mesh.machines id).board.origin settings
        (mesh.machines id).disk).board.clip = some clip) :
      ∃ other ∈ mesh.held, other.stamp = clip.stamp := by
    rw [Service.opened_board] at opened
    obtain same | ⟨was, wrote, emptied⟩ := Clipboard.new_clip clock
      (mesh.machines id).board.origin settings (mesh.machines id).disk
    · exact trusted.filed id clip (same.symm.trans opened)
    · obtain rfl := Option.some.inj (emptied.symm.trans opened)
      exact trusted.filed id was wrote
  cases incident with
  | startEmpty saves clock settings =>
    rw [Incident.on, Service.opened_board] at holds
    cases holds
  | act saves event =>
    rw [Incident.on] at holds
    by_cases restarts : ∃ clock settings, event = .restart clock settings
    · obtain ⟨clock, settings, rfl⟩ := restarts
      rw [Service.act_restart] at holds
      exact .inr (opens saves clock settings holds)
    · have sent : ∀ clock (taken : Clip Id Hash), event = .accept clock taken →
          taken ∈ mesh.held := by
        rintro clock taken rfl
        simpa [Mesh.possible] using delivered saves _ rfl
      rw [Service.act_running saves _ event restarts, Service.tryChange_board] at holds
      obtain same | ⟨clock, was⟩ | ⟨_, ours⟩ | ⟨_, other, stamped, source⟩ :=
        (Clipboard.step_moved (mesh.machines id).board event).holds_cases clip holds
      · exact .inr ⟨clip, trusted.holds id clip same, rfl⟩
      · exact .inr ⟨clip, sent clock clip was, rfl⟩
      · exact .inl (ours.trans (trusted.honest id).named)
      · right
        obtain before | ⟨clock, was⟩ := source
        · exact ⟨other, trusted.holds id other before, stamped⟩
        · exact ⟨other, sent clock other was, stamped⟩

/-- One incident that remembers keeps every clip behind its machine. Only the machine of the
incident may fall behind a clip of its own, and one that remembers does not. -/
theorem undergo_behind (mesh next : Mesh Id Hash) (label : Id × Incident Id Hash)
    (trusted : Trusted mesh) (behind : Behind mesh) (remembers : Remembers mesh label)
    (taken : mesh.undergo label = some next) : Behind next := by
  obtain ⟨id, incident⟩ := label
  obtain ⟨delivered, machines, held⟩ := undergo_cases mesh next id incident taken
  have known (clip : Clip Id Hash) (member : clip ∈ mesh.held) :
      clip.stamp ≤ (next.machines clip.stamp.origin).board.head := by
    rw [machines]
    by_cases ours : clip.stamp.origin = id
    · rw [ours, Function.update_self]
      exact on_remembers mesh id incident behind remembers clip member ours
    · rw [Function.update_of_ne ours]
      exact behind clip member
  intro clip member
  rw [held, List.mem_append, Option.mem_toList] at member
  obtain new | old := member
  · obtain ours | ⟨other, member, stamped⟩ := on_seen mesh id incident trusted delivered clip new
    · rw [machines, ours, Function.update_self, Clipboard.head_of_clip _ clip new]
    · have bounded := known other member
      rwa [stamped] at bounded
  · exact known clip old

/-- A machine can catch up with every clip but one it copied itself. Take any run of
honest machines whose saves may fail and whose files may be unreadable. A machine that
is behind a clip its peer holds, plausible on its clock, pulls it if and only if it was
copied on another machine; and where no machine ever starts from a file older than a
clip of its own still out there, every such clip is pulled. -/
theorem machine_catches_up_iff (clocks : Id → Clock) (settings : Id → Settings)
    (labels : List (Id × Incident Id Hash)) (mesh : Mesh Id Hash)
    (reached : Runs.run undergo (start clocks settings) labels = some mesh) :
    (∀ id peer clip clock, (mesh.machines peer).board.clip = some clip →
      (mesh.machines id).board.head < clip.stamp → clip.stamp.isPlausible clock.believed = true →
      ((mesh.machines id).Pulls clock clip ↔ clip.stamp.origin ≠ id)) ∧
    (Runs.Guarded undergo Remembers (start clocks settings) labels →
      ∀ id peer clip clock, (mesh.machines peer).board.clip = some clip →
        (mesh.machines id).board.head < clip.stamp →
        clip.stamp.isPlausible clock.believed = true → (mesh.machines id).Pulls clock clip) := by
  have begins : Trusted (start clocks settings : Mesh Id Hash) := start_trusted clocks settings
  have trusted : Trusted mesh :=
    Runs.run_invariant undergo Trusted
      (fun state label next held taken => undergo_trusted state next label held taken)
      _ _ labels begins reached
  have exactly : ∀ id peer clip clock, (mesh.machines peer).board.clip = some clip →
      (mesh.machines id).board.head < clip.stamp → clip.stamp.isPlausible clock.believed = true →
      ((mesh.machines id).Pulls clock clip ↔ clip.stamp.origin ≠ id) := by
    intro id peer clip clock carried newer believed
    exact Service.pulls_iff id (mesh.machines id) clock clip (trusted.honest id).named
      (trusted.fit clip (trusted.holds peer clip carried)) newer believed
  refine ⟨exactly, ?_⟩
  intro guarded id peer clip clock carried newer believed
  have kept : Trusted mesh ∧ Behind mesh := by
    refine Runs.guarded_invariant undergo Remembers (fun mesh => Trusted mesh ∧ Behind mesh) ?_
      _ _ labels ⟨begins, ?_⟩ guarded reached
    · rintro state label next ⟨held, behind⟩ remembers taken
      exact ⟨undergo_trusted state next label held taken,
        undergo_behind state next label held behind remembers taken⟩
    · intro clip member
      cases member
  rw [exactly id peer clip clock carried newer believed]
  rintro rfl
  exact absurd newer (not_lt_of_ge (kept.2 clip (trusted.holds peer clip carried)))

/-- The text, as machine 0 copies it. -/
def helloClip : Clip Nat Bytes where
  stamp := { millis := 5, origin := 0 }
  copy := some { selection := Clipboard.hello, secret := false, ttl := none, files := [] }

/-- A machine that lost a peer's clip with its file takes it again. The clip was another
machine's, so nothing keeps it from being accepted again. -/
theorem machine_catches_up_after_losing_its_file :
    ∃ mesh : Mesh Nat Bytes,
      Runs.run undergo (start (fun _ => Aging.readAt 0) (fun _ => Settings.default))
        [(0, .act true (Clipboard.copyHello 5000000)),
          (1, .act true (.accept (Aging.readAt 5000000) helloClip)),
          (1, .startEmpty true (Aging.readAt 6000000) Settings.default)] = some mesh ∧
      (mesh.machines 1).Pulls (Aging.readAt 6000000) helloClip := by
  have observed : (Runs.run undergo (start (fun _ => Aging.readAt 0) (fun _ => Settings.default))
      [(0, .act true (Clipboard.copyHello 5000000)),
        (1, .act true (.accept (Aging.readAt 5000000) helloClip)),
        (1, .startEmpty true (Aging.readAt 6000000) Settings.default)]).map
          (fun mesh : Mesh Nat Bytes =>
            decide ((mesh.machines 0).board.clip = some helloClip) &&
              decide ((mesh.machines 1).board.head < (helloClip.stamp : WithBot (Stamp Nat)))) =
      some true := by
    decide
  obtain ⟨mesh, reached, holds⟩ := Option.map_eq_some_iff.mp observed
  simp only [Bool.and_eq_true, decide_eq_true_eq] at holds
  refine ⟨mesh, reached, ?_⟩
  exact ((machine_catches_up_iff _ _ _ mesh reached).1 1 0 helloClip (Aging.readAt 6000000) holds.1
    holds.2 (by decide)).mpr (by decide)

/-- A machine copies a text, cannot save it and restarts. Its peer has the text, and
the machine refuses it as a forgery. -/
theorem machine_refuses_its_own_clip :
    ∃ mesh : Mesh Nat Bytes,
      Runs.run undergo (start (fun _ => Aging.readAt 0) (fun _ => Settings.default))
        [(0, .act false (Clipboard.copyHello 5000000)),
          (1, .act true (.accept (Aging.readAt 5000000) helloClip)),
          (0, .act true (.restart (Aging.readAt 6000000) Settings.default))] = some mesh ∧
      (mesh.machines 1).board.clip = some helloClip ∧
      (mesh.machines 0).board.head < (helloClip.stamp : WithBot (Stamp Nat)) ∧
      helloClip.stamp.isPlausible 6000000 = true ∧
      ¬ (mesh.machines 0).Pulls (Aging.readAt 6000000) helloClip := by
  have observed : (Runs.run undergo (start (fun _ => Aging.readAt 0) (fun _ => Settings.default))
      [(0, .act false (Clipboard.copyHello 5000000)),
        (1, .act true (.accept (Aging.readAt 5000000) helloClip)),
        (0, .act true (.restart (Aging.readAt 6000000) Settings.default))]).map
          (fun mesh : Mesh Nat Bytes =>
            decide ((mesh.machines 1).board.clip = some helloClip) &&
              decide ((mesh.machines 0).board.head < (helloClip.stamp : WithBot (Stamp Nat))) &&
              decide (((mesh.machines 0).tryChange true
                ((mesh.machines 0).board.accept (Aging.readAt 6000000) helloClip)).1.board.head ≠
                  (helloClip.stamp : WithBot (Stamp Nat)))) =
      some true := by
    decide
  obtain ⟨mesh, reached, holds⟩ := Option.map_eq_some_iff.mp observed
  simp only [Bool.and_eq_true, decide_eq_true_eq] at holds
  refine ⟨mesh, reached, holds.1.1, holds.1.2, by decide, ?_⟩
  intro pulls
  exact holds.2 (pulls true).2

end Mesh

end Yank
