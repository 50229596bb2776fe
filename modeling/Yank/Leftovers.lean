import Yank.FileService

/-!
# What a sweep leaves behind

A change of the clip queues a sweep in the same breath, and a sweep drops what the
clip does not name when it is asked. What comes into the spool afterwards is dropped
by a later sweep only, and nothing but a change of the clip queues one. So content
is left behind when it comes in and no clip is made of it: a capture that is
dropped, a copy that is refused, a transfer that goes on for a clip that is gone.
-/

namespace Yank.FileService

variable {Id Hash : Type}

section Terms
variable [LinearOrder Id] [EndpointText Id] [DecidableEq Hash] [ContentHash Hash]

/-- Nothing is queued, at work or being fetched. -/
def Quiet (state : FileService Id Hash) : Prop :=
  state.loop = .idle ∧ state.service.jobs = [] ∧
    ∀ fetch, state.fetch = some fetch → fetch.phase = .ended

/-- Every blob, partial and tree is one the current clip names. -/
def Clean (state : FileService Id Hash) : Prop :=
  (∀ name ∈ state.store.blobs.names,
      Store.isNamed state.service.board.referenced.2 name = true) ∧
    ∀ tree ∈ state.store.trees,
      state.service.board.referenced.1.map Stamp.fileName = some tree

/-- A sweep is still to ask what to keep. -/
def SweepAhead (state : FileService Id Hash) : Prop :=
  Job.sweep ∈ state.service.jobs ∨ state.loop = .sweeping .called

/-- The clip stamped `stamp` is the current one, and not emptied. -/
def IsCurrent (board : Clipboard Id Hash) (stamp : Stamp Id) : Prop :=
  ∃ copy, board.current = some (stamp, copy)

/-- What `captured` asks of a selection to make a clip of it. -/
def Records (capture : Captured) (files : List (Files.FileRef Hash)) (board : Clipboard Id Hash) :
    Prop :=
  board.settings.capture = true ∧ (Stamp.after board.head).isSome = true ∧
    ∃ selection, board.fit capture.selection = some selection ∧
      board.isEcho selection.primary.bytes = false ∧
      (board.capturedCopy capture selection files).check = .ok ()

/-- What the end of a job asks to make a clip. -/
def MakesClip (state : FileService Id Hash) (job : Job Id)
    (files : Option (List (Files.FileRef Hash))) : Prop :=
  match job, files with
  | .record base capture _, files =>
      (state.service.board.head = base ∨ state.service.board.head = state.recorded) ∧
        Records capture (files.getD []) state.service.board
  | .copy paths ttl, some files =>
      (Stamp.after state.service.board.head).isSome = true ∧
        ∃ copy, state.service.board.toCopy (Selection.ofFiles paths) files false ttl = .ok copy
  | _, _ => False

/-- Content is accounted for when it comes in. A job that took files in ends by
making a clip, or took in only what the clip names; a transfer makes names while
its clip is the current one; or a sweep is still ahead. -/
def Accounted (state : FileService Id Hash) (label : Label Id Hash) : Prop :=
  SweepAhead state ∨
    match label with
    | .settle _ _ =>
        (∀ file ∈ takenBy state.loop, file.hash ∈ state.service.board.referenced.2) ∨
          ∃ job files, spooled state.loop = some (job, files) ∧ MakesClip state job files
    | .fetched move => Fetch.names move = true →
        ∀ fetch, state.fetch = some fetch → IsCurrent state.service.board fetch.stamp
    | .ran index => ∀ entry, state.detached[index]? = some entry → entry.2.names = true →
        IsCurrent state.service.board entry.1
    | _ => True

/-- Whether the sweep that is going on still looks at a name. -/
def Examines (loop : Loop Id Hash) (name : SpoolName Hash) : Prop :=
  match loop with
  | .sweeping (.blobs _ left) => name ∈ left
  | .sweeping _ => True
  | _ => False

/-- Whether the sweep that is going on still looks at a tree. -/
def ExaminesTree (loop : Loop Id Hash) (tree : String) : Prop :=
  match loop with
  | .sweeping .called => True
  | .sweeping (.referenced _ _) => True
  | .sweeping (.trees _ _ left) => tree ∈ left
  | _ => False

/-- A sweep was told to keep what the clip names. -/
def Told (board : Clipboard Id Hash) : Loop Id Hash → Prop
  | .sweeping (.referenced live content) => (live, content) = board.referenced
  | .sweeping (.trees live content _) => (live, content) = board.referenced
  | .sweeping (.blobs content _) => content = board.referenced.2
  | _ => True

omit [LinearOrder Id] [EndpointText Id] [DecidableEq Hash] [ContentHash Hash] in
/-- A sweep was told of the clip, and of nothing else there is. -/
theorem Told.congr (before after : Clipboard Id Hash) (loop : Loop Id Hash)
    (same : after.clip = before.clip) (told : Told before loop) : Told after loop := by
  have referenced := Clipboard.referenced_congr before after same
  cases loop with
  | sweeping phase => cases phase <;> simp only [Told, referenced] at told ⊢ <;> exact told
  | _ => exact trivial

/-- What is in the spool is named by the clip, about to be, or still to be looked at
by the sweep that is going on. -/
structure Covered (board : Clipboard Id Hash) (store : Store Hash) (loop : Loop Id Hash) : Prop where
  names : ∀ name ∈ store.blobs.names, Store.isNamed board.referenced.2 name = true ∨
    Examines loop name ∨ ∃ file ∈ takenBy loop, name = .blob file.hash
  trees : ∀ tree ∈ store.trees, board.referenced.1.map Stamp.fileName = some tree ∨
    ExaminesTree loop tree
  told : Told board loop

/-- What a transfer may bring is what its clip names, while that is current. -/
structure Tracks (board : Clipboard Id Hash) (stamp : Stamp Id) (content : List Hash) : Prop where
  seen : content ≠ [] → (stamp : WithBot (Stamp Id)) ≤ board.head
  named : ∀ copy, board.current = some (stamp, copy) →
    content ⊆ copy.files.map Files.FileRef.hash

/-- Every transfer, also one left behind, may bring what its clip names. -/
structure Tracking (state : FileService Id Hash) : Prop where
  fetching : ∀ fetch, state.fetch = some fetch →
    Tracks state.service.board fetch.stamp fetch.content
  trailing : ∀ entry ∈ state.detached, Tracks state.service.board entry.1 entry.2.content

/-- A sweep is queued, or everything is covered. -/
def Tidy (state : FileService Id Hash) : Prop :=
  Job.sweep ∈ state.service.jobs ∨ Covered state.service.board state.store state.loop

end Terms

namespace Tracks
variable [LinearOrder Id]

/-- Whatever brings less brings what its clip names. -/
theorem mono (board : Clipboard Id Hash) (stamp : Stamp Id) (content fewer : List Hash)
    (tracks : Tracks board stamp content) (among : fewer ⊆ content) :
    Tracks board stamp fewer where
  seen some_left := tracks.seen (by
    rintro rfl
    exact some_left (List.subset_nil.mp among))
  named copy current := List.Subset.trans among (tracks.named copy current)

/-- A clip that is no longer the current one does not come back. -/
theorem onward (before after : Clipboard Id Hash) (stamp : Stamp Id) (content : List Hash)
    (tracks : Tracks before stamp content) (onward : Clipboard.Onward before after) :
    Tracks after stamp content where
  seen some_left := (tracks.seen some_left).trans onward.head_le
  named copy current := by
    obtain same | newer := onward.fresh stamp copy current
    · exact tracks.named copy same
    · by_cases nothing : content = []
      · rw [nothing]
        exact List.nil_subset _
      · exact absurd (tracks.seen nothing) (not_le_of_gt newer)

/-- So does what brings nothing. -/
theorem nothing (board : Clipboard Id Hash) (stamp : Stamp Id) : Tracks board stamp [] where
  seen some_left := absurd rfl some_left
  named _ _ := List.nil_subset _

/-- What is wanted for a clip is what it names. It is the manifest of the clip of that stamp, or
nothing where there is no such clip. -/
theorem wanted (board : Clipboard Id Hash) (stamp : Stamp Id) :
    Tracks board stamp ((board.wanted stamp).map Files.FileRef.hash) := by
  unfold Clipboard.wanted
  cases held : board.current with
  | none => exact nothing board stamp
  | some entry =>
    obtain ⟨current, copy⟩ := entry
    dsimp only
    by_cases asked : current = stamp ∧ board.tree.isNone
    · rw [if_pos asked]
      obtain ⟨rfl, _⟩ := asked
      refine ⟨fun _ => ?_, ?_⟩
      · have clip := (Clipboard.current_iff board current copy).mp held
        rw [Clipboard.head_of_clip board _ clip]
      · intro other same
        obtain ⟨_, rfl⟩ := Prod.mk.inj (Option.some.inj (held.symm.trans same))
        exact List.Subset.refl _
    · rw [if_neg asked]
      exact nothing board stamp

end Tracks

namespace Covered
variable [EndpointText Id] [DecidableEq Hash] (board after : Clipboard Id Hash)
  (store : Store Hash) (loop : Loop Id Hash)

/-- A sweep that just began is to look at everything. -/
theorem called : Covered board store (.sweeping .called : Loop Id Hash) where
  names _ _ := Or.inr (Or.inl trivial)
  trees _ _ := Or.inr trivial
  told := trivial

/-- What is covered is covered for the clip, whatever else is different. -/
theorem congr (covered : Covered board store loop) (same : after.clip = board.clip) :
    Covered after store loop := by
  have referenced := Clipboard.referenced_congr board after same
  obtain ⟨names, trees, told⟩ := covered
  refine ⟨?_, ?_, ?_⟩
  · rw [referenced]
    exact names
  · rw [referenced]
    exact trees
  · exact told.congr board after loop same

/-- A loop that looks at nothing and took nothing in leaves all to the clip. -/
theorem of_plain (next : Loop Id Hash) (covered : Covered board store loop)
    (unexamined : ∀ name, ¬ Examines loop name) (alone : ∀ tree, ¬ ExaminesTree loop tree)
    (nothing : takenBy loop = []) (told : Told board next) : Covered board store next where
  names name member := by
    obtain named | examined | ⟨file, took, _⟩ := covered.names name member
    · exact Or.inl named
    · exact absurd examined (unexamined name)
    · rw [nothing] at took
      cases took
  trees tree member := by
    obtain named | examined := covered.trees tree member
    · exact Or.inl named
    · exact absurd examined (alone tree)
  told := told

/-- What is confined to what the clip names is covered by it. A name that is new is of content the
clip names, and a tree that is new is the clip's. -/
theorem confined [LinearOrder Id] (grown : Store Hash) (stamp : Stamp Id) (content : List Hash)
    (covered : Covered board store loop) (current : IsCurrent board stamp)
    (tracks : Tracks board stamp content)
    (within : Store.Confined stamp.fileName content store grown) : Covered board grown loop := by
  obtain ⟨copy, held⟩ := current
  have referenced := Clipboard.referenced_of_current board stamp copy held
  refine ⟨?_, ?_, covered.told⟩
  · intro name member
    obtain stood | ⟨hash, among, named⟩ := within.names name member
    · exact covered.names name stood
    · left
      rw [referenced, Store.isNamed_iff]
      exact ⟨hash, tracks.named copy held among, named⟩
  · intro tree member
    obtain stood | rfl := within.trees tree member
    · exact covered.trees tree stood
    · left
      rw [referenced]
      rfl

/-- And stays so where the spool only shrinks. -/
theorem shrinks (grown : Store Hash) (covered : Covered board store loop)
    (within : Store.Shrinks store grown) : Covered board grown loop where
  names name member := covered.names name (within.names member)
  trees tree member := covered.trees tree (by rw [← within.trees]; exact member)
  told := covered.told

end Covered

section Steps

/-- There is a stamp for a new clip unless the last one is the last there is. -/
theorem replace_isSome (clock : Clock) (copy : Option (Copy Hash)) (board : Clipboard Id Hash)
    (room : (Stamp.after board.head).isSome = true) : (board.replace clock copy).isSome = true := by
  simpa [Clipboard.replace, Stamp.next] using room

variable [LinearOrder Id] [ContentHash Hash]

/-- A plain copy that is recorded is saved. -/
theorem copy_saves (clock : Clock) (selection : Selection) (files : List (Files.FileRef Hash))
    (ttl : Option Duration) (board : Clipboard Id Hash) (copy : Copy Hash)
    (room : (Stamp.after board.head).isSome = true)
    (recorded : board.toCopy selection files false ttl = .ok copy) :
    (effectsOf (board.copy clock selection files false ttl)).any Service.isSave = true := by
  obtain ⟨replaced, made⟩ :=
    Option.isSome_iff_exists.mp (replace_isSome clock (some copy) board room)
  simp only [Clipboard.copy, recorded, made]
  rfl

variable [DecidableEq Hash]

omit [LinearOrder Id] in
/-- So is a selection that makes a clip. -/
theorem captured_saves (clock : Clock) (capture : Captured) (files : List (Files.FileRef Hash))
    (board : Clipboard Id Hash) (records : Records capture files board) :
    (effectsOf (board.captured clock capture files)).any Service.isSave = true := by
  obtain ⟨on, room, selection, fitted, fresh, checked⟩ := records
  obtain ⟨replaced, made⟩ := Option.isSome_iff_exists.mp
    (replace_isSome clock (some (board.capturedCopy capture selection files)) board room)
  have answer : board.captured clock capture files =
      ({ replaced with applied := replaced.clip.map (fun clip => clip.stamp) }, .ok [.save]) := by
    simp [Clipboard.captured, on, fitted, fresh, checked, made]
  rw [answer]
  rfl

/-- The end of a job that makes a clip queues a sweep. It saves, and whatever saves is swept
after. -/
theorem settle_makes (saves : Bool) (clock : Clock) (state : FileService Id Hash) (job : Job Id)
    (files : Option (List (Files.FileRef Hash))) (makes : MakesClip state job files) :
    Job.sweep ∈ (settle saves clock state job files).service.jobs := by
  cases job with
  | record base capture paths =>
    obtain ⟨last, records⟩ := makes
    have kept : ¬ (state.service.board.head ≠ base ∧
        state.service.board.head ≠ state.recorded) := by
      rintro ⟨notBase, notRecorded⟩
      exact last.elim notBase notRecorded
    apply Service.tryChange_sweeps
    rw [Clipboard.record, if_neg kept]
    exact captured_saves clock capture _ _ records
  | copy paths ttl =>
    cases files with
    | none => exact makes.elim
    | some files =>
      obtain ⟨room, copy, recorded⟩ := makes
      exact Service.tryChange_sweeps saves _ _ (copy_saves clock _ _ _ _ copy room recorded)
  | fetch stamp => exact makes.elim
  | sweep => exact makes.elim

/-- Recording has the clipboard go on. -/
theorem record_onward (clock : Clock) (base recorded : WithBot (Stamp Id)) (capture : Captured)
    (files : List (Files.FileRef Hash)) (board : Clipboard Id Hash) :
    Clipboard.Onward board (board.record clock base recorded capture files).1.1 := by
  obtain dropped | captured := record_cases clock base recorded capture files board
  · rw [dropped]
    exact Clipboard.Onward.refl board
  · rw [captured]
    exact (Clipboard.step_moved board (.captured clock capture files)).onward

/-- The end of a job leaves the clip alone or queues a sweep, and what was queued
stays. -/
theorem settle_spec (saves : Bool) (clock : Clock) (state : FileService Id Hash) (job : Job Id)
    (files : Option (List (Files.FileRef Hash))) :
    ((settle saves clock state job files).service.board.clip = state.service.board.clip ∨
        Job.sweep ∈ (settle saves clock state job files).service.jobs) ∧
      (∀ queued ∈ state.service.jobs,
        queued ∈ (settle saves clock state job files).service.jobs) ∧
      Clipboard.Onward state.service.board (settle saves clock state job files).service.board ∧
      (settle saves clock state job files).store = state.store ∧
      (settle saves clock state job files).loop = .idle ∧
      (settle saves clock state job files).fetch = state.fetch ∧
      (settle saves clock state job files).detached = state.detached := by
  have untouched : ∀ queued ∈ state.service.jobs, queued ∈ state.service.jobs :=
    fun _ member => member
  cases job with
  | record base capture paths =>
    let answered := state.service.board.record clock base state.recorded capture (files.getD [])
    refine ⟨?_, Service.tryChange_queued saves answered.1 state.service, ?_, rfl, rfl, rfl, rfl⟩
    · obtain kept | saved := Service.record_saves clock base state.recorded capture
        (files.getD []) state.service.board
      · left
        exact (congrArg Clipboard.clip (Service.tryChange_board saves answered.1 _)).trans kept
      · exact Or.inr (Service.tryChange_sweeps saves answered.1 state.service saved)
    · change Clipboard.Onward _ (state.service.tryChange saves answered.1).1.board
      rw [Service.tryChange_board]
      exact record_onward clock base state.recorded capture _ state.service.board
  | copy paths ttl =>
    cases files with
    | none =>
      exact ⟨Or.inl rfl, untouched, Clipboard.Onward.refl _, rfl, rfl, rfl, rfl⟩
    | some files =>
      let outcome := state.service.board.copy clock (Selection.ofFiles paths) files false ttl
      refine ⟨?_, Service.tryChange_queued saves outcome state.service, ?_, rfl, rfl, rfl, rfl⟩
      · obtain kept | saved | ⟨_, _, restarted⟩ := Service.step_saves state.service.board
          (.copy clock (Selection.ofFiles paths) files false ttl)
        · left
          exact (congrArg Clipboard.clip (Service.tryChange_board saves outcome _)).trans kept
        · exact Or.inr (Service.tryChange_sweeps saves outcome state.service saved)
        · cases restarted
      · change Clipboard.Onward _ (state.service.tryChange saves outcome).1.board
        rw [Service.tryChange_board]
        exact (Clipboard.step_moved state.service.board
          (.copy clock (Selection.ofFiles paths) files false ttl)).onward
  | fetch stamp =>
    exact ⟨Or.inl rfl, untouched, Clipboard.Onward.refl _, rfl, rfl, rfl, rfl⟩
  | sweep =>
    exact ⟨Or.inl rfl, untouched, Clipboard.Onward.refl _, rfl, rfl, rfl, rfl⟩

/-- An event leaves the clip alone or queues a sweep, what was queued stays, and
nothing older comes back. -/
theorem act_spec (saves : Bool) (service : Service Id Hash) (event : Clipboard.Event Id Hash)
    (running : ¬ ∃ clock settings, event = .restart clock settings) :
    ((service.act saves event).board.clip = service.board.clip ∨
        Job.sweep ∈ (service.act saves event).jobs) ∧
      (∀ queued ∈ service.jobs, queued ∈ (service.act saves event).jobs) ∧
      Clipboard.Onward service.board (service.act saves event).board := by
  refine ⟨service.act_sweeps saves event, service.act_queued saves event running, ?_⟩
  rw [Service.act_running saves service event running, Service.tryChange_board]
  exact (Clipboard.step_moved service.board event).onward

variable [EndpointText Id]

omit [LinearOrder Id] [ContentHash Hash] in
/-- What is covered stays so where the clip is left alone or a sweep is queued. -/
theorem covered_of_event (before after : Service Id Hash) (store : Store Hash)
    (loop : Loop Id Hash)
    (covered : Job.sweep ∈ before.jobs ∨ Covered before.board store loop)
    (swept : after.board.clip = before.board.clip ∨ Job.sweep ∈ after.jobs)
    (queued : ∀ job ∈ before.jobs, job ∈ after.jobs) :
    Job.sweep ∈ after.jobs ∨ Covered after.board store loop := by
  obtain waiting | covers := covered
  · exact Or.inl (queued _ waiting)
  · exact swept.symm.imp_right (fun same => Covered.congr _ _ store loop covers same)

omit [ContentHash Hash] in
/-- What is covered stays so under work for a clip that is the current one, or with a
sweep ahead, or that makes no name. -/
theorem covered_of_work (service : Service Id Hash) (store after : Store Hash)
    (loop : Loop Id Hash) (stamp : Stamp Id) (content : List Hash)
    (covered : Job.sweep ∈ service.jobs ∨ Covered service.board store loop)
    (tracks : Tracks service.board stamp content)
    (confined : Store.Confined stamp.fileName content store after) {naming : Bool}
    (quiet : naming = false → Store.Shrinks store after)
    (accounted : naming = true → (Job.sweep ∈ service.jobs ∨ loop = .sweeping .called) ∨
      IsCurrent service.board stamp) :
    Job.sweep ∈ service.jobs ∨ Covered service.board after loop := by
  obtain waiting | covers := covered
  · exact Or.inl waiting
  · cases names : naming with
    | false => exact Or.inr (Covered.shrinks _ store loop after covers (quiet names))
    | true =>
      obtain (waiting | rfl) | current := accounted names
      · exact Or.inl waiting
      · exact Or.inr (Covered.called _ _)
      · exact Or.inr (Covered.confined _ store loop after stamp content covers current tracks
          confined)

/-- A job that ends with what it took named by the clip, or under a sweep, leaves nothing
uncovered. -/
theorem settle_tidy (saves : Bool) (clock : Clock) (state : FileService Id Hash) (job : Job Id)
    (files : Option (List (Files.FileRef Hash))) (covered : Tidy state)
    (spool : spooled state.loop = some (job, files))
    (accounted : Accounted state (.settle saves clock)) : Tidy (settle saves clock state job files) := by
  obtain ⟨swept, queued, _, sameStore, ended, _⟩ := settle_spec saves clock state job files
  have awake : state.loop ≠ .sweeping .called := by
    intro called
    rw [called] at spool
    cases spool
  unfold Tidy
  rw [sameStore, ended]
  obtain waiting | covers := covered
  · exact Or.inl (queued _ waiting)
  obtain (waiting | called) | named | ⟨_, _, same, makes⟩ := accounted
  · exact Or.inl (queued _ waiting)
  · exact absurd called awake
  · refine swept.symm.imp_right (fun kept => ?_)
    apply Covered.congr state.service.board _ state.store .idle _ kept
    have silent : ∀ name, ¬ Examines state.loop name := by
      intro name
      cases loop : state.loop with
      | sweeping phase =>
        rw [loop] at spool
        cases spool
      | _ => exact id
    have silentTrees : ∀ tree, ¬ ExaminesTree state.loop tree := by
      intro tree
      cases loop : state.loop with
      | sweeping phase =>
        rw [loop] at spool
        cases spool
      | _ => exact id
    refine ⟨?_, ?_, trivial⟩
    · intro name member
      obtain isNamed | examined | ⟨file, took, rfl⟩ := covers.names name member
      · exact Or.inl isNamed
      · exact absurd examined (silent name)
      · exact Or.inl ((Store.isNamed_iff _ _).mpr ⟨file.hash, named file took, rfl⟩)
    · intro tree member
      obtain isNamed | examined := covers.trees tree member
      · exact Or.inl isNamed
      · exact absurd examined (silentTrees tree)
  · obtain ⟨rfl, rfl⟩ := Prod.mk.inj (Option.some.inj (spool.symm.trans same))
    exact Or.inl (settle_makes saves clock state job files makes)

omit [LinearOrder Id] [ContentHash Hash] in
/-- A sweep that goes on has told itself what the clip names, and lists what there is. The first
step reads what the clip names, the next list the trees and the contents, and from then on each
entry is looked at against what was read. -/
theorem sweep_tidy (state : FileService Id Hash) (phase next : Sweeping Id Hash)
    (covers : Covered state.service.board state.store (.sweeping phase : Loop Id Hash))
    (goesOn : sweep state phase = some next) :
    Covered state.service.board state.store (.sweeping next : Loop Id Hash) := by
  cases phase with
  | called =>
    obtain rfl := Option.some.inj goesOn
    exact ⟨fun _ _ => Or.inr (Or.inl trivial), fun _ _ => Or.inr trivial, rfl⟩
  | referenced live content =>
    obtain rfl := Option.some.inj goesOn
    exact ⟨fun _ _ => Or.inr (Or.inl trivial), fun _ member => Or.inr member, covers.told⟩
  | trees live content left =>
    simp only [sweep, Option.ite_none_right_eq_some, Option.some.injEq] at goesOn
    obtain ⟨rfl, rfl⟩ := goesOn
    have told : content = state.service.board.referenced.2 := congrArg Prod.snd covers.told
    refine ⟨fun _ member => Or.inr (Or.inl member), ?_, told⟩
    intro tree member
    obtain named | listed := covers.trees tree member
    · exact Or.inl named
    · exact absurd listed (Finset.notMem_empty tree)
  | blobs content left => cases goesOn

/-- Where what it brings in is accounted for, a step leaves a sweep queued or everything covered.
An event that lets go of content queues a sweep, a queued one waits until it begins, and one that
begins covers all there is: what it covers is what every other step has to keep. -/
theorem step_tidy (state next : FileService Id Hash) (label : Label Id Hash)
    (covered : Tidy state) (tracking : Tracking state) (accounted : Accounted state label)
    (taken : state.step label = some next) : Tidy next := by
  cases step_took state next label taken with
  | changed saves event outside =>
    obtain ⟨swept, queued, _⟩ :=
      act_spec saves state.service event (running_of_outside event outside)
    exact covered_of_event state.service _ state.store state.loop covered swept queued
  | copied => exact covered.imp_left (List.mem_append_left _)
  | copyAsked => exact covered.imp_left (List.mem_append_left _)
  | fetchAsked => exact covered.imp_left (List.mem_append_left _)
  | restarted => exact Or.inr (Covered.called _ _)
  | started job jobs idle queued =>
    let popped : FileService Id Hash := { state with service := { state.service with jobs } }
    unfold Tidy at covered ⊢
    rw [takeJob_service, takeJob_store]
    obtain ⟨_, called⟩ | ⟨other, started⟩ := takeJob_loop popped job idle
    · rw [called]
      exact Or.inr (Covered.called _ _)
    · rw [queued, idle] at covered
      refine covered.imp (fun waiting => ?_) (fun covers => ?_)
      · exact List.mem_of_ne_of_mem (Ne.symm other) waiting
      · refine Covered.of_plain _ state.store .idle _ covers (fun _ => id) (fun _ => id) rfl ?_
        obtain loop | loop | loop := started <;> rw [loop] <;> exact trivial
  | walked job found loop walking leads =>
    refine covered.imp_right (fun covers => ?_)
    rw [walking] at covers
    obtain rfl | ⟨left, rfl⟩ := leads
    · exact Covered.of_plain _ state.store _ _ covers (fun _ => id) (fun _ => id) rfl trivial
    · exact Covered.of_plain _ state.store _ _ covers (fun _ => id) (fun _ => id) rfl trivial
  | took job path left taken tag source hash size spooling answered =>
    obtain ⟨_, sameTrees, _, arrived⟩ := state.store.take_spec tag source
    refine covered.imp_right (fun covers => ?_)
    rw [spooling] at covers
    refine ⟨?_, fun tree member => covers.trees tree (by rw [← sameTrees]; exact member), trivial⟩
    intro name member
    obtain stood | ⟨_, _, same, isBlob⟩ := arrived name member
    · obtain named | examined | ⟨file, before, held⟩ := covers.names name stood
      · exact Or.inl named
      · exact examined.elim
      · exact Or.inr (Or.inr ⟨file, List.mem_append_left _ before, held⟩)
    · obtain ⟨rfl, rfl⟩ := Prod.mk.inj (Option.some.inj (answered.symm.trans same))
      exact Or.inr (Or.inr ⟨_, List.mem_append_right _ List.mem_cons_self, isBlob⟩)
  | untaken job path left taken tag source spooling answered =>
    obtain ⟨_, sameTrees, _, arrived⟩ := state.store.take_spec tag source
    refine covered.imp_right (fun covers => ?_)
    rw [spooling] at covers
    refine ⟨?_, fun tree member => covers.trees tree (by rw [← sameTrees]; exact member), trivial⟩
    intro name member
    obtain stood | ⟨hash, size, impossible, _⟩ := arrived name member
    · exact covers.names name stood
    · rw [answered] at impossible
      cases impossible
  | settled saves clock job files spool =>
    exact settle_tidy saves clock state job files covered spool accounted
  | sweeping phase next atPhase goesOn =>
    refine covered.imp_right (fun covers => ?_)
    rw [atPhase] at covers
    exact sweep_tidy state phase next covers goesOn
  | swept content done =>
    refine covered.imp_right (fun covers => ?_)
    rw [done] at covers
    refine ⟨?_, covers.trees, trivial⟩
    intro name member
    obtain named | listed | ⟨file, took, _⟩ := covers.names name member
    · exact Or.inl named
    · exact absurd listed (Finset.notMem_empty name)
    · cases took
  | treeSwept live content left tree atPhase listed =>
    obtain ⟨sameBlobs, kept⟩ := state.store.sweepTree_spec live tree
    refine covered.imp_right (fun covers => ?_)
    rw [atPhase] at covers
    refine ⟨fun _ _ => Or.inr (Or.inl trivial), ?_, covers.told⟩
    intro other member
    obtain ⟨stood, living⟩ := (kept other).mp member
    by_cases same : other = tree
    · left
      rw [← congrArg Prod.fst covers.told, same]
      exact living same
    · exact (covers.trees other stood).imp_right
        (fun listed => Finset.mem_erase.mpr ⟨same, listed⟩)
  | blobSwept content left name atPhase listed =>
    obtain ⟨sameTrees, kept⟩ := state.store.sweepBlob_spec content name
    refine covered.imp_right (fun covers => ?_)
    rw [atPhase] at covers
    refine ⟨?_, fun tree member => covers.trees tree (by rw [← sameTrees]; exact member),
      covers.told⟩
    intro other member
    obtain ⟨stood, named⟩ := (kept other).mp member
    by_cases same : other = name
    · left
      rw [← covers.told, same]
      exact named same
    · obtain isNamed | listed | ⟨file, took, _⟩ := covers.names other stood
      · exact Or.inl isNamed
      · exact Or.inr (Or.inl (Finset.mem_erase.mpr ⟨same, listed⟩))
      · cases took
  | fetched running next move after isFetch stepped =>
    have law := Fetch.step_spec state.service.board state.store running after next move stepped
    refine covered_of_work state.service state.store after state.loop running.stamp
      running.content covered (tracking.fetching running isFetch) law.confined law.quiet ?_
    intro naming
    exact accounted.imp_right (fun current => current naming running isFetch)
  | landed saves running =>
    obtain ⟨swept, queued, _⟩ :=
      act_spec saves state.service _ (running_of_materialized running.stamp _)
    exact covered_of_event state.service _ state.store state.loop covered swept queued
  | ran index stamp work listed =>
    obtain ⟨confined, _, quiet⟩ := work.run_spec stamp state.store
    refine covered_of_work state.service state.store _ state.loop stamp work.content covered
      (tracking.trailing _ (List.mem_of_getElem? listed)) confined quiet ?_
    intro naming
    exact accounted.imp_right (fun current => current _ listed naming)

omit [DecidableEq Hash] [ContentHash Hash] in
/-- What a fetch brings is what it might bring before, or what the clip names. -/
theorem tracks_of_step (board : Clipboard Id Hash) (store after : Store Hash)
    (fetch next : Fetch Id Hash) (move : Move) (law : Fetch.Stepped board store after fetch next move)
    (tracks : Tracks board fetch.stamp fetch.content) : Tracks board next.stamp next.content := by
  rw [law.stamp]
  obtain fewer | wanted := law.content
  · exact tracks.mono board fetch.stamp _ _ fewer
  · rw [wanted]
    exact Tracks.wanted board fetch.stamp

omit [EndpointText Id] [DecidableEq Hash] [ContentHash Hash] in
/-- What a fetch leaves behind is within what it may bring. -/
theorem tracks_of_left (board : Clipboard Id Hash) (fetch : Option (Fetch Id Hash))
    (fetching : ∀ running, fetch = some running → Tracks board running.stamp running.content) :
    ∀ entry ∈ leftBy fetch, Tracks board entry.1 entry.2.content := by
  intro entry member
  cases fetch with
  | none => cases member
  | some running =>
    simp only [leftBy, Option.bind_some, Option.mem_toList, Option.map_eq_some_iff] at member
    obtain ⟨work, waits, rfl⟩ := member
    exact (fetching running rfl).mono board running.stamp _ _ (running.work_content work waits)

omit [EndpointText Id] [DecidableEq Hash] [ContentHash Hash] in
/-- Transfers that are left alone track their clips on. -/
theorem Tracking.onward (state next : FileService Id Hash) (tracking : Tracking state)
    (board : Clipboard.Onward state.service.board next.service.board)
    (fetch : next.fetch = state.fetch) (detached : next.detached = state.detached) :
    Tracking next where
  fetching running isFetch := by
    rw [fetch] at isFetch
    exact (tracking.fetching running isFetch).onward _ _ running.stamp _ board
  trailing entry member := by
    rw [detached] at member
    exact (tracking.trailing entry member).onward _ _ entry.1 _ board

/-- A step leaves every transfer with what its clip names. A transfer brings in what its clip
named when it was asked for, and a clip of that stamp names the same. -/
theorem step_tracking (state next : FileService Id Hash) (label : Label Id Hash)
    (tracking : Tracking state) (taken : state.step label = some next) : Tracking next := by
  have same := Clipboard.Onward.refl state.service.board
  cases step_took state next label taken with
  | changed saves event outside =>
    obtain ⟨_, _, onward⟩ := act_spec saves state.service event (running_of_outside event outside)
    exact tracking.onward _ _ onward rfl rfl
  | restarted =>
    refine ⟨fun _ none_running => ?_, fun _ none_left => ?_⟩
    · cases none_running
    · cases none_left
  | started job jobs idle queued =>
    cases job with
    | record base capture paths =>
      simp only [takeJob]
      split <;> exact tracking.onward _ _ same rfl rfl
    | copy paths ttl => exact tracking.onward _ _ same rfl rfl
    | fetch stamp =>
      simp only [takeJob]
      split
      · exact tracking.onward _ _ same rfl rfl
      · refine ⟨?_, ?_⟩
        · intro running isFetch
          obtain rfl := Option.some.inj isFetch
          exact Tracks.nothing state.service.board stamp
        · intro entry member
          obtain before | left := List.mem_append.mp member
          · exact tracking.trailing entry before
          · exact tracks_of_left state.service.board state.fetch tracking.fetching entry left
    | sweep => exact tracking.onward _ _ same rfl rfl
  | settled saves clock job files spool =>
    obtain ⟨_, _, onward, _, _, sameFetch, sameDetached⟩ :=
      settle_spec saves clock state job files
    exact tracking.onward _ _ onward sameFetch sameDetached
  | fetched running next move after isFetch stepped =>
    have law := Fetch.step_spec state.service.board state.store running after next move stepped
    refine ⟨?_, ?_⟩
    · intro other isNext
      obtain rfl := Option.some.inj isNext
      exact tracks_of_step state.service.board state.store after running next move law
        (tracking.fetching running isFetch)
    · intro entry member
      obtain before | left := List.mem_append.mp member
      · exact tracking.trailing entry before
      · by_cases fails : move = .fail
        · rw [if_pos fails] at left
          exact tracks_of_left state.service.board state.fetch tracking.fetching entry left
        · rw [if_neg fails] at left
          cases left
  | landed saves running isFetch laid =>
    obtain ⟨_, _, onward⟩ :=
      act_spec saves state.service _ (running_of_materialized running.stamp _)
    refine ⟨?_, ?_⟩
    · intro ended isEnded
      obtain rfl := Option.some.inj isEnded
      have tracks := (tracking.fetching running isFetch).onward _ _ running.stamp _ onward
      exact tracks.mono _ running.stamp _ _ (List.append_subset.mpr
        ⟨List.subset_append_left _ _, List.nil_subset _⟩)
    · intro entry member
      exact (tracking.trailing entry member).onward _ _ entry.1 _ onward
  | ran index stamp work listed =>
    obtain ⟨_, within, _⟩ := work.run_spec stamp state.store
    refine ⟨tracking.fetching, ?_⟩
    intro entry member
    obtain before | left := List.mem_append.mp member
    · exact tracking.trailing entry (List.mem_of_mem_eraseIdx before)
    · simp only [Option.mem_toList, Option.map_eq_some_iff] at left
      obtain ⟨rest, more, rfl⟩ := left
      exact (tracking.trailing _ (List.mem_of_getElem? listed)).mono _ stamp _ _
        (within rest more)
  -- The rest touches neither the clip nor a transfer.
  | _ => exact tracking.onward _ _ same rfl rfl

/-- The spool keeps nothing the clip does not name, in every run whose steps account
for what they bring in. -/
theorem spool_keeps_nothing_else (saves : Bool) (clock : Clock) (identity : Id)

    (settings : Settings) (trees : Path) (labels : List (Label Id Hash)) (last : FileService Id Hash)
    (guarded : Runs.Guarded step Accounted (start saves clock identity settings trees) labels)
    (reached : Runs.run step (start saves clock identity settings trees) labels = some last)
    (quiet : Quiet last) : Clean last := by
  have kept : ∀ (state : FileService Id Hash) (label : Label Id Hash) (next : FileService Id Hash),
      Tidy state ∧ Tracking state → Accounted state label → state.step label = some next →
        Tidy next ∧ Tracking next :=
    fun state label next held accounted taken =>
      ⟨step_tidy state next label held.1 held.2 accounted taken,
        step_tracking state next label held.2 taken⟩
  have first : Tidy (start saves clock identity settings trees : FileService Id Hash) ∧
      Tracking (start saves clock identity settings trees : FileService Id Hash) := by
    refine ⟨Or.inr (Covered.called _ _), fun _ none_running => ?_, fun _ none_left => ?_⟩
    · cases none_running
    · cases none_left
  obtain ⟨tidy, _⟩ := Runs.guarded_invariant step Accounted
    (fun state => Tidy state ∧ Tracking state) kept _ last labels first guarded reached
  obtain ⟨idle, empty, _⟩ := quiet
  obtain waiting | covers := tidy
  · rw [empty] at waiting
    cases waiting
  · rw [idle] at covers
    refine ⟨?_, ?_⟩
    · intro name member
      obtain named | examined | ⟨file, took, _⟩ := covers.names name member
      · exact named
      · exact examined.elim
      · cases took
    · intro tree member
      exact (covers.trees tree member).elim id (fun examined => examined.elim)

end Steps

/-- Whether a step may bring content into the spool that has to be accounted for. -/
def brings : Label Id Hash → Bool
  | .settle _ _ => true
  | .fetched _ => true
  | .ran _ => true
  | _ => false

/-- Steps that bring nothing in have nothing to account for. -/
theorem guarded_of_bringing_nothing [LinearOrder Id] [EndpointText Id] [DecidableEq Hash]
    [ContentHash Hash] (state : FileService Id Hash) (labels : List (Label Id Hash))
    (nothing : ∀ label ∈ labels, brings label = false) :
    Runs.Guarded step Accounted state labels := by
  apply Runs.guarded_of_invariant step Accounted (fun _ => True) (fun label => brings label = false)
  · exact fun _ _ _ _ _ _ => trivial
  · intro state label _ silent
    right
    cases label with
    | settle saves clock => cases silent
    | fetched move => cases silent
    | ran index => cases silent
    | _ => exact trivial
  · exact trivial
  · exact nothing

/-- A file copied while a sweep is still queued stays for its clip, and nothing else. The sweep
that is still queued when the job ends accounts for what the job took in. -/
theorem spool_keeps_nothing_else_than_a_copied_file :
    let clock : Clock :=
      { stamp := 5000000, believed := 5000000, set := 5000000, lapse := 5000000 }
    let text := Selection.of { mime := "text/plain", bytes := [104, 105] }
    ∃ last : FileService Nat Bytes,
      Runs.run step (start true clock 0 Settings.default [47])
        ([.sweep, .sweep, .sweep, .sweep, .copyFiles [[47, 97]] none,
          .change true (.copy clock text [] false none), .takeJob, .sweep, .sweep, .sweep, .sweep,
          .takeJob, .walked (some ["a"]), .taken 7 (some [1, 2])] ++
          [.settle true clock, .takeJob, .sweep, .sweep, .sweep, .sweepBlob (.blob [1, 2]), .sweep,
            .takeJob, .sweep, .sweep, .sweep, .sweepBlob (.blob [1, 2]), .sweep]) = some last ∧
      last.store.has [1, 2] = true ∧ Clean last := by
  intro clock text
  let early : List (Label Nat Bytes) :=
    [.sweep, .sweep, .sweep, .sweep, .copyFiles [[47, 97]] none,
      .change true (.copy clock text [] false none), .takeJob, .sweep, .sweep, .sweep, .sweep,
      .takeJob, .walked (some ["a"]), .taken 7 (some [1, 2])]
  let late : List (Label Nat Bytes) :=
    [.takeJob, .sweep, .sweep, .sweep, .sweepBlob (.blob [1, 2]), .sweep,
      .takeJob, .sweep, .sweep, .sweep, .sweepBlob (.blob [1, 2]), .sweep]
  have observed : (Runs.run step (start true clock 0 Settings.default [47])
      (early ++ .settle true clock :: late)).map (fun last : FileService Nat Bytes =>
        decide (last.loop = .idle) && decide (last.service.jobs = []) &&
          decide (last.fetch = none) && last.store.has [1, 2]) = some true := by
    decide
  obtain ⟨last, reached, held⟩ := Option.map_eq_some_iff.mp observed
  simp only [Bool.and_eq_true, decide_eq_true_eq] at held
  obtain ⟨⟨⟨idle, empty⟩, unfetched⟩, present⟩ := held
  have waiting : (Runs.run step (start true clock 0 Settings.default [47]) early).map
      (fun middle => decide (Job.sweep ∈ middle.service.jobs)) = some true := by
    decide
  have guarded : Runs.Guarded step Accounted (start true clock 0 Settings.default [47])
      (early ++ .settle true clock :: late) := by
    rw [Runs.guarded_append_iff]
    refine ⟨guarded_of_bringing_nothing _ early (by decide), ?_⟩
    intro middle through
    rw [through] at waiting
    have ahead : SweepAhead middle := Or.inl (of_decide_eq_true (Option.some.inj waiting))
    exact ⟨Or.inl ahead, fun next _ => guarded_of_bringing_nothing next late (by decide)⟩
  refine ⟨last, reached, present, ?_⟩
  refine spool_keeps_nothing_else true clock 0 Settings.default [47] _ last guarded reached
    ⟨idle, empty, ?_⟩
  intro fetch running
  rw [unfetched] at running
  cases running

/-- A file selection on a machine that shares nothing: its content is taken into the
spool, no clip is made of it and nothing sweeps it away. -/
theorem unshared_selection_stays_in_the_spool :
    let clock : Clock :=
      { stamp := 5000000, believed := 5000000, set := 5000000, lapse := 5000000 }
    let settings : Settings := { Settings.default with capture := false }
    let capture : Captured :=
      { selection := Selection.ofFiles [[47, 97]], secret := false }
    ∃ last : FileService Nat Bytes,
      Runs.run step (start true clock 0 settings [47])
        [.sweep, .sweep, .sweep, .sweep, .takeJob, .sweep, .sweep, .sweep, .sweep,
          .copied capture [[47, 97]], .takeJob, .walked (some ["a"]), .taken 7 (some [1, 2]),
          .settle true clock] = some last ∧ Quiet last ∧ ¬ Clean last := by
  intro clock settings capture
  have observed : (Runs.run step (start true clock 0 settings [47])
      [.sweep, .sweep, .sweep, .sweep, .takeJob, .sweep, .sweep, .sweep, .sweep,
        .copied capture [[47, 97]], .takeJob, .walked (some ["a"]), .taken 7 (some [1, 2]),
        .settle true clock]).map (fun last : FileService Nat Bytes =>
        decide (last.loop = .idle) && decide (last.service.jobs = []) &&
          decide (last.fetch = none) && decide (SpoolName.blob [1, 2] ∈ last.store.blobs.names) &&
          decide (last.service.board.referenced.2 = [])) = some true := by
    decide
  obtain ⟨last, reached, held⟩ := Option.map_eq_some_iff.mp observed
  simp only [Bool.and_eq_true, decide_eq_true_eq] at held
  obtain ⟨⟨⟨⟨idle, empty⟩, unfetched⟩, present⟩, nothing⟩ := held
  refine ⟨last, reached, ⟨idle, empty, ?_⟩, ?_⟩
  · intro fetch running
    rw [unfetched] at running
    cases running
  · intro clean
    have named := clean.1 _ present
    rw [nothing] at named
    cases named

end Yank.FileService
