import Yank.FileService

/-!
# A clip names what its machine can serve

Only the job loop makes a clip of this machine that names files, and it makes it
from what it has just taken in. A sweep asks what to keep and then goes through the
spool in the same loop, so no such clip appears while it runs; what it was told to
keep covers every clip it can meet.

What a restart resumes from is the file. A save that fails leaves an older clip
there, and a sweep goes by the clipboard: the older clip may come back after its
content is gone.
-/

namespace Yank.FileService

variable {Id Hash : Type} [LinearOrder Id]

/-- The files a clip names, when this machine made it. -/
def ownFilesOf (origin : Id) (clip : Option (Clip Id Hash)) : List (Files.FileRef Hash) :=
  match clip with
  | none => []
  | some clip =>
      if clip.stamp.origin = origin then (clip.copy.map Copy.files).getD [] else []

/-- The files of the current clip, when this machine made it. -/
def ownFiles (board : Clipboard Id Hash) : List (Files.FileRef Hash) :=
  ownFilesOf board.origin board.clip

/-- Every file of a clip made on this machine can be served from the spool. -/
def Served (state : FileService Id Hash) : Prop :=
  ∀ stamp copy, state.service.board.current = some (stamp, copy) →
    stamp.origin = state.service.board.origin → ∀ file ∈ copy.files,
      state.store.has file.hash = true

/-- An emptied clip has no files. -/
theorem ownFilesOf_empty (origin : Id) (stamp : Stamp Id) :
    ownFilesOf origin (some ({ stamp, copy := none } : Clip Id Hash)) = [] := by
  simp [ownFilesOf]

/-- A clip of another machine has none of ours. -/
theorem ownFilesOf_other (origin : Id) (clip : Clip Id Hash) (other : clip.stamp.origin ≠ origin) :
    ownFilesOf origin (some clip) = [] := if_neg other

/-- The files of a clip that was made here are those of its copy. -/
theorem ownFiles_of_current (board : Clipboard Id Hash) (stamp : Stamp Id) (copy : Copy Hash)
    (current : board.current = some (stamp, copy)) (ours : stamp.origin = board.origin) :
    ownFiles board = copy.files := by
  rw [Clipboard.current_iff] at current
  simp [ownFiles, ownFilesOf, current, ours]

/-- A file of this machine's own is one of a copy that was made here. -/
theorem ownFiles_cases (board : Clipboard Id Hash) (file : Files.FileRef Hash)
    (member : file ∈ ownFiles board) :
    ∃ stamp copy, board.current = some (stamp, copy) ∧ stamp.origin = board.origin ∧
      file ∈ copy.files := by
  cases held : board.clip with
  | none => simp [ownFiles, ownFilesOf, held] at member
  | some clip =>
    obtain ⟨stamp, copied⟩ := clip
    cases copied with
    | none => simp [ownFiles, ownFilesOf, held] at member
    | some copy =>
      refine ⟨stamp, copy, (Clipboard.current_iff board stamp copy).mpr held, ?_⟩
      by_cases ours : stamp.origin = board.origin
      · exact ⟨ours, by simpa [ownFiles, ownFilesOf, held, ours] using member⟩
      · simp [ownFiles, ownFilesOf, held, ours] at member

/-- What the spool may keep covers the files of a clip of this machine. -/
theorem ownFiles_referenced (board : Clipboard Id Hash) :
    ∀ file ∈ ownFiles board, file.hash ∈ board.referenced.2 := by
  intro file member
  obtain ⟨stamp, copy, current, _, among⟩ := ownFiles_cases board file member
  simp only [Clipboard.referenced, current]
  exact List.mem_map_of_mem among

/-- Emptying a clip names no more files. -/
theorem ownFiles_emptied (board after : Clipboard Id Hash) (stamp : Stamp Id)
    (emptied : after.clip = some { stamp, copy := none }) : ownFiles after ⊆ ownFiles board := by
  rw [ownFiles, emptied, ownFilesOf_empty]
  exact List.nil_subset _

/-- They are those of the clip, whatever else is different. -/
theorem ownFiles_congr (board after : Clipboard Id Hash) (origin : after.origin = board.origin)
    (clip : after.clip = board.clip) : ownFiles after = ownFiles board := by
  rw [ownFiles, ownFiles, origin, clip]

variable [ContentHash Hash]

/-- What reaches the clipboard from outside the file service names no files of this
machine that were not named before. -/
theorem outside_ownFiles [DecidableEq Hash] (board : Clipboard Id Hash)
    (event : Clipboard.Event Id Hash) (outside : isOutside event = true) :
    ownFiles (board.step event).1 ⊆ ownFiles board := by
  cases event with
  | copy clock selection files secret ttl =>
    have bytes : files = [] := List.isEmpty_iff.mp outside
    obtain ⟨failure, refused⟩ | ⟨copy, stamp, recorded, _, _, made⟩ :=
      Clipboard.copy_cases clock selection files secret ttl board
    · rw [Clipboard.step, refused]
      exact List.Subset.refl _
    · have nothing : copy.files = [] := by
        rw [Clipboard.toCopy_spec board selection files secret ttl copy recorded, bytes]
      rw [Clipboard.step, made]
      simp [ownFiles, ownFilesOf, nothing]
  | accept clock clip =>
    obtain ⟨_, ignored⟩ | ⟨failure, _, refused⟩ | ⟨_, welcome, taken⟩ :=
      Clipboard.accept_cases clock clip board
    · rw [Clipboard.step, ignored]
      exact List.Subset.refl _
    · rw [Clipboard.step, refused]
      exact List.Subset.refl _
    · have foreign : clip.stamp.origin ≠ board.origin := by
        have first := ((ensure_bind_ok_iff _ _ _ _).mp welcome).1
        simpa using first
      rw [Clipboard.step, taken]
      obtain same | ⟨other, _, held, emptied⟩ :=
        Clipboard.lapse_cases clock.lapse (board.set clock.set clip)
      · simp [ownFiles, same, ownFilesOf_other board.origin clip foreign]
      · exact ownFiles_emptied board _ other.stamp (by simp [emptied])
  | clear clock =>
    obtain refused | ⟨stamp, _, _, cleared⟩ := Clipboard.clear_cases clock board
    · rw [Clipboard.step, refused]
      exact List.Subset.refl _
    · exact ownFiles_emptied board _ stamp (by simp [Clipboard.step, cleared])
  | expire now =>
    obtain ⟨_, ignored⟩ | ⟨_, dropped⟩ := Clipboard.expire_cases now board
    · rw [Clipboard.step, ignored]
      exact List.Subset.refl _
    · obtain same | ⟨clip, _, held, emptied⟩ := Clipboard.lapse_cases now board
      · rw [Clipboard.step, dropped, same, ownFiles_congr board _ (by simp) (by simp)]
        exact List.Subset.refl _
      · exact ownFiles_emptied board _ clip.stamp (by simp [Clipboard.step, dropped, emptied])
  | captured clock capture files => cases outside
  | materialized stamp tree => cases outside
  | restart clock settings => cases outside

/-- What a record leaves named was named before or is the manifest it was given. A report that is
dropped or comes to nothing leaves the clip, and one that is recorded names its own manifest. -/
theorem record_ownFiles [DecidableEq Hash] (clock : Clock) (base recorded : WithBot (Stamp Id))
    (capture : Captured) (files : List (Files.FileRef Hash)) (board : Clipboard Id Hash) :
    ∀ file ∈ ownFiles (board.record clock base recorded capture files).1.1,
      file ∈ ownFiles board ∨ file ∈ files := by
  unfold Clipboard.record
  by_cases dropped : board.head ≠ base ∧ board.head ≠ recorded
  · rw [if_pos dropped]
    exact fun file member => Or.inl member
  · rw [if_neg dropped]
    obtain ⟨_, ignored⟩ | failed | ⟨_, _, _, _, echoed⟩ | ⟨_, stamp, _, _, _, _, _, ours, made⟩ :=
      Clipboard.captured_cases clock capture files board
    · rw [ignored]
      exact fun file member => Or.inl member
    · rw [failed]
      exact fun file member => Or.inl member
    · rw [echoed]
      exact fun file member => Or.inl member
    · rw [made]
      intro file member
      right
      simpa [ownFiles, ownFilesOf, ours, Clipboard.capturedCopy] using member

/-- After a copy, they are those there were or those copied. -/
theorem copy_ownFiles (clock : Clock) (selection : Selection) (files : List (Files.FileRef Hash))
    (ttl : Option Duration) (board : Clipboard Id Hash) :
    ∀ file ∈ ownFiles (board.copy clock selection files false ttl).1,
      file ∈ ownFiles board ∨ file ∈ files := by
  obtain ⟨failure, refused⟩ | ⟨copy, stamp, recorded, _, ours, made⟩ :=
    Clipboard.copy_cases clock selection files false ttl board
  · rw [refused]
    exact fun file member => Or.inl member
  · have given : copy.files = files := by
      rw [Clipboard.toCopy_spec board selection files false ttl copy recorded]
    rw [made]
    intro file member
    right
    simpa [ownFiles, ownFilesOf, ours, given] using member

/-- A tree that is laid out brings no files of ours. -/
theorem materialized_ownFiles (stamp : Stamp Id) (tree : Path) (board : Clipboard Id Hash) :
    ownFiles (board.materialized stamp tree).1 ⊆ ownFiles board := by
  obtain ⟨_, ignored⟩ | ⟨_, landed⟩ := Clipboard.materialized_cases stamp tree board
  · rw [ignored]
    exact List.Subset.refl _
  · rw [landed, ownFiles_congr board _ (by simp) (by simp)]
    exact List.Subset.refl _

/-- What a restart names was named in the file. -/
theorem new_ownFiles (clock : Clock) (origin : Id) (settings : Settings)
    (saved : Option (Clip Id Hash)) :
    ownFiles (Clipboard.new clock origin settings saved) ⊆ ownFilesOf origin saved := by
  obtain same | ⟨clip, _, emptied⟩ := Clipboard.new_clip clock origin settings saved
  · rw [ownFiles, same, Clipboard.new_origin]
    exact List.Subset.refl _
  · rw [ownFiles, emptied, ownFilesOf_empty]
    exact List.nil_subset _

omit [ContentHash Hash] in
/-- What is saved has no other files than what is there. -/
theorem saved_ownFiles (board : Clipboard Id Hash) :
    ownFilesOf board.origin board.saved ⊆ ownFiles board := by
  obtain same | ⟨clip, _, secret⟩ := Clipboard.saved_cases board
  · rw [same]
    exact List.Subset.refl _
  · rw [secret, ownFilesOf_empty]
    exact List.nil_subset _

/-- What the sweep that is going on was told to keep. -/
def keptBy : Loop Id Hash → Option (List Hash)
  | .sweeping (.referenced _ content) => some content
  | .sweeping (.trees _ content _) => some content
  | .sweeping (.blobs content _) => some content
  | _ => none

/-- What carries the result: what was taken in is there, and a sweep keeps what a
clip of this machine names. -/
structure Sustained (board : Clipboard Id Hash) (store : Store Hash) (loop : Loop Id Hash) :
    Prop where
  named : ∀ file ∈ ownFiles board, store.has file.hash = true
  taken : ∀ file ∈ takenBy loop, store.has file.hash = true
  kept : ∀ content, keptBy loop = some content → ∀ file ∈ ownFiles board, file.hash ∈ content

namespace Sustained
variable {board : Clipboard Id Hash} {store : Store Hash} {loop : Loop Id Hash}

omit [ContentHash Hash] in
/-- It holds on while the clip names no more and nothing goes from the spool. -/
theorem mono (sustained : Sustained board store loop) (after : Clipboard Id Hash)
    (grown : Store Hash) (fewer : ownFiles after ⊆ ownFiles board)
    (keeps : ∀ hash, store.has hash = true → grown.has hash = true) :
    Sustained after grown loop where
  named file member := keeps _ (sustained.named file (fewer member))
  taken file member := keeps _ (sustained.taken file member)
  kept content told file member := sustained.kept content told file (fewer member)

omit [ContentHash Hash] in
/-- A loop that holds nothing and was told nothing asks for no more. -/
theorem of_named (named : ∀ file ∈ ownFiles board, store.has file.hash = true)
    (nothing : takenBy loop = []) (untold : keptBy loop = none) :
    Sustained board store loop where
  named := named
  taken file member := by
    rw [nothing] at member
    cases member
  kept content told := by
    rw [untold] at told
    cases told

end Sustained

variable [EndpointText Id] [DecidableEq Hash]

/-- A restart finds in the file what the clipboard last asked to have saved, or a
clip that names no files of this machine. -/
def RestartsCurrent (state : FileService Id Hash) (label : Label Id Hash) : Prop :=
  match label with
  | .restart _ _ _ _ => state.service.disk = state.service.board.saved ∨
      ownFilesOf state.service.board.origin state.service.disk = []
  | _ => True

omit [EndpointText Id] in
/-- The end of a job makes a clip of what it took in, or of nothing. What the job took in is in
the spool by the invariant of the loop, and the clip that is made names these files; with an error
nothing is named that was not before. -/
theorem settle_sustained (saves : Bool) (clock : Clock) (state : FileService Id Hash)
    (job : Job Id) (files : Option (List (Files.FileRef Hash)))
    (spool : spooled state.loop = some (job, files))
    (sustained : Sustained state.service.board state.store state.loop) :
    Sustained (settle saves clock state job files).service.board
      (settle saves clock state job files).store (settle saves clock state job files).loop := by
  have given : ∀ file ∈ files.getD [], state.store.has file.hash = true := by
    intro file member
    apply sustained.taken
    revert spool
    cases state.loop with
    | spooling held left taken =>
      cases left with
      | nil =>
        intro spool
        obtain ⟨_, rfl⟩ := Prod.mk.inj (Option.some.inj spool)
        exact member
      | cons path left =>
        intro spool
        cases spool
    | failed held taken =>
      intro spool
      obtain ⟨_, rfl⟩ := Prod.mk.inj (Option.some.inj spool)
      cases member
    | idle => intro spool; cases spool
    | walking held => intro spool; cases spool
    | sweeping phase => intro spool; cases spool
  have ended : ∀ board : Clipboard Id Hash,
      (∀ file ∈ ownFiles board, file ∈ ownFiles state.service.board ∨ file ∈ files.getD []) →
        Sustained board state.store .idle := by
    intro board among
    refine Sustained.of_named ?_ rfl rfl
    intro file member
    cases among file member with
    | inl before => exact sustained.named file before
    | inr manifest => exact given file manifest
  unfold settle
  split
  · refine ended _ ?_
    rw [Service.tryChange_board]
    exact record_ownFiles clock _ _ _ _ state.service.board
  · refine ended _ ?_
    rw [Service.tryChange_board]
    exact copy_ownFiles clock _ _ _ state.service.board
  · exact ended _ (fun file member => Or.inl member)

/-- A step leaves all files of the clip in the spool, where a restart finds on disk the clip there
was. -/
theorem step_sustained (state next : FileService Id Hash) (label : Label Id Hash)
    (sustained : Sustained state.service.board state.store state.loop)
    (current : RestartsCurrent state label) (taken : state.step label = some next) :
    Sustained next.service.board next.store next.loop := by
  cases step_took state next label taken with
  | changed saves event outside =>
    refine sustained.mono _ state.store ?_ (fun _ held => held)
    rw [Service.act_running saves state.service event (running_of_outside event outside),
      Service.tryChange_board]
    exact outside_ownFiles state.service.board event outside
  | copied => exact sustained
  | copyAsked => exact sustained
  | fetchAsked => exact sustained
  | restarted saves clock settings stray store left =>
    refine Sustained.of_named ?_ rfl rfl
    intro file member
    have inFile : file ∈ ownFilesOf state.service.board.origin state.service.disk := by
      apply new_ownFiles clock state.service.board.origin settings state.service.disk
      rw [← Service.opened_board saves]
      exact member
    have held : state.store.has file.hash = true := by
      cases current with
      | inl saved =>
        rw [saved] at inFile
        exact sustained.named file (saved_ownFiles state.service.board inFile)
      | inr foreign =>
        rw [foreign] at inFile
        cases inFile
    rw [left]
    cases stray with
    | none => exact held
    | some torn =>
      rw [Store.has_iff] at held ⊢
      exact (Inodes.Dir.mem_create_iff _ _ _ _).mpr (Or.inr held)
  | started job jobs idle queued =>
    let popped : FileService Id Hash := { state with service := { state.service with jobs } }
    have fresh : takenBy (takeJob popped job).loop = [] ∧
        keptBy (takeJob popped job).loop = none := by
      obtain ⟨_, loop⟩ | ⟨_, loop | loop | loop⟩ := takeJob_loop popped job idle <;>
        rw [loop] <;> exact ⟨rfl, rfl⟩
    refine Sustained.of_named ?_ fresh.1 fresh.2
    rw [takeJob_service, takeJob_store]
    exact sustained.named
  | walked job found loop walking leads =>
    obtain rfl | ⟨left, rfl⟩ := leads
    · exact Sustained.of_named sustained.named rfl rfl
    · exact Sustained.of_named sustained.named rfl rfl
  | took job path left taken tag source hash size spooling answered =>
    obtain ⟨keeps, _, arrived, _⟩ := state.store.take_spec tag source
    refine ⟨fun file member => keeps _ (sustained.named file member), ?_, ?_⟩
    · intro file member
      have before := sustained.taken
      rw [spooling] at before
      cases List.mem_append.mp member with
      | inl early => exact keeps _ (before file early)
      | inr last =>
        rw [List.mem_singleton.mp last]
        exact arrived hash size answered
    · intro content told
      cases told
  | untaken job path left taken tag source spooling answered =>
    obtain ⟨keeps, _⟩ := state.store.take_spec tag source
    have held := sustained.mono state.service.board _ (List.Subset.refl _) keeps
    rw [spooling] at held
    exact ⟨held.named, held.taken, held.kept⟩
  | settled saves clock job files spool =>
    exact settle_sustained saves clock state job files spool sustained
  | sweeping phase next atPhase goesOn =>
    rw [atPhase] at sustained
    cases phase with
    | called =>
      obtain rfl := Option.some.inj goesOn
      refine ⟨sustained.named, sustained.taken, ?_⟩
      intro content told
      rw [← Option.some.inj told]
      exact ownFiles_referenced state.service.board
    | referenced live content =>
      obtain rfl := Option.some.inj goesOn
      exact ⟨sustained.named, sustained.taken, sustained.kept⟩
    | trees live content left =>
      simp only [sweep, Option.ite_none_right_eq_some, Option.some.injEq] at goesOn
      obtain ⟨_, rfl⟩ := goesOn
      exact ⟨sustained.named, sustained.taken, sustained.kept⟩
    | blobs content left => cases goesOn
  | swept content done =>
    exact Sustained.of_named sustained.named rfl rfl
  | treeSwept live content left tree atPhase listed =>
    rw [atPhase] at sustained
    have same := (state.store.sweepTree_spec live tree).1
    have keeps : ∀ hash, state.store.has hash = true →
        (state.store.sweepTree live tree).has hash = true := by
      intro hash held
      rw [Store.has_iff] at held ⊢
      rw [same]
      exact held
    have held := sustained.mono state.service.board _ (List.Subset.refl _) keeps
    exact ⟨held.named, held.taken, held.kept⟩
  | blobSwept content left name atPhase listed =>
    rw [atPhase] at sustained
    refine ⟨?_, (fun file none_taken => by cases none_taken), sustained.kept⟩
    intro file member
    have held := sustained.named file member
    rw [Store.has_iff] at held ⊢
    refine ((state.store.sweepBlob_spec content name).2 _).mpr ⟨held, ?_⟩
    rintro rfl
    have kept := sustained.kept content rfl file member
    simpa [Store.isNamed, SpoolName.named] using kept
  | fetched running next move after isFetch stepped =>
    have law := Fetch.step_spec state.service.board state.store running after next move stepped
    exact sustained.mono state.service.board after (List.Subset.refl _) law.confined.keeps
  | landed saves running =>
    refine sustained.mono _ state.store ?_ (fun _ held => held)
    rw [Service.act_running saves state.service _ (running_of_materialized running.stamp _),
      Service.tryChange_board]
    exact materialized_ownFiles running.stamp _ state.service.board
  | ran index stamp work listed =>
    obtain ⟨confined, _⟩ := work.run_spec stamp state.store
    exact sustained.mono state.service.board _ (List.Subset.refl _) confined.keeps

omit [EndpointText Id] [DecidableEq Hash] in
/-- There are no files yet. -/
theorem start_sustained (saves : Bool) (clock : Clock) (identity : Id)
    (settings : Settings) (trees : Path) :
    Sustained (start saves clock identity settings trees : FileService Id Hash).service.board .empty
      (.sweeping .called) := by
  refine Sustained.of_named ?_ rfl rfl
  intro file member
  have nothing : ownFiles (Clipboard.new clock identity settings none : Clipboard Id Hash) = [] := rfl
  rw [start, Service.opened_board, nothing] at member
  cases member

/-- Whether the writes of the clip that a step makes succeed. -/
def savesAll : Label Id Hash → Bool
  | .change saves _ => saves
  | .restart saves _ _ _ => saves
  | .settle saves _ => saves
  | .landed saves => saves
  | _ => true

omit [EndpointText Id] in
/-- Where the disk has the clip, it has it after a job as well. Whatever the job comes to is saved
if it changes the clip, and the save goes through. -/
theorem settle_current (clock : Clock) (state : FileService Id Hash) (job : Job Id)
    (files : Option (List (Files.FileRef Hash)))
    (current : state.service.disk = state.service.board.saved) :
    (settle true clock state job files).service.disk =
      (settle true clock state job files).service.board.saved := by
  unfold settle
  split
  · exact Service.tryChange_current _ state.service current
      (Service.record_saves clock _ _ _ _ state.service.board)
  · apply Service.tryChange_current _ state.service current
    obtain kept | saved | ⟨_, _, restarted⟩ := Service.step_saves state.service.board
      (.copy clock (Selection.ofFiles _) _ false _)
    · exact Or.inl kept
    · exact Or.inr saved
    · cases restarted
  · exact current

/-- While every write of the clip succeeds, the file is what the clipboard saves. Whatever changes
the clip saves it, and here the save goes through. -/
theorem step_current (state next : FileService Id Hash) (label : Label Id Hash)
    (current : state.service.disk = state.service.board.saved) (saved : savesAll label = true)
    (taken : state.step label = some next) :
    next.service.disk = next.service.board.saved := by
  cases step_touched state next label taken with
  | changed saves event _ isChange acted =>
    rw [isChange] at saved
    obtain rfl : saves = true := saved
    rw [acted]
    exact Service.act_disk state.service event current
  | restarted saves clock settings stray isRestart acted =>
    rw [isRestart] at saved
    obtain rfl : saves = true := saved
    rw [acted]
    exact Service.act_disk state.service _ current
  | landed saves stamp isLanding acted =>
    rw [isLanding] at saved
    obtain rfl : saves = true := saved
    rw [acted]
    exact Service.act_disk state.service _ current
  | settled saves clock job files isEnd _ ended =>
    rw [isEnd] at saved
    obtain rfl : saves = true := saved
    rw [ended]
    exact settle_current clock state job files current
  | untouched board disk => rw [board, disk, current]

/-- Along a run whose restarts are current, what carries the result holds. -/
theorem run_sustained (saves : Bool) (clock : Clock) (identity : Id)
    (settings : Settings) (trees : Path)
    (labels : List (Label Id Hash)) (last : FileService Id Hash)
    (guarded : Runs.Guarded step RestartsCurrent (start saves clock identity settings trees) labels)
    (reached : Runs.run step (start saves clock identity settings trees) labels = some last) :
    Sustained last.service.board last.store last.loop :=
  Runs.guarded_invariant step RestartsCurrent
    (fun state => Sustained state.service.board state.store state.loop)
    (fun state label next held current taken =>
      step_sustained state next label held current taken)
    _ last labels (start_sustained saves clock identity settings trees) guarded reached

omit [ContentHash Hash] [EndpointText Id] [DecidableEq Hash] in
/-- What is sustained is served. -/
theorem Sustained.served (state : FileService Id Hash)
    (sustained : Sustained state.service.board state.store state.loop) : Served state := by
  intro stamp copy current ours file member
  apply sustained.named
  rwa [ownFiles_of_current _ stamp copy current ours]

/-- Where every write of the clip succeeds, a clip made on a machine names nothing
the machine cannot serve. -/
theorem own_clip_is_served_by_a_sound_disk (clock : Clock) (identity : Id)
    (settings : Settings) (trees : Path)
    (labels : List (Label Id Hash)) (last : FileService Id Hash)
    (saved : ∀ label ∈ labels, savesAll label = true)
    (reached : Runs.run step (start true clock identity settings trees) labels = some last) :
    Served last := by
  have guarded : Runs.Guarded step RestartsCurrent (start true clock identity settings trees) labels := by
    apply Runs.guarded_of_invariant step RestartsCurrent
      (fun state => state.service.disk = state.service.board.saved)
      (fun label => savesAll label = true)
    · exact fun state label next current saves taken => step_current state next label current saves taken
    · intro state label current _
      cases label with
      | restart saves clock settings stray => exact Or.inl current
      | _ => exact trivial
    · rw [start, Service.opened_disk, Service.opened_board, if_pos rfl]
    · exact saved
  exact (run_sustained true clock identity settings trees labels last guarded reached).served

omit [ContentHash Hash] [EndpointText Id] [DecidableEq Hash] in
/-- And what is served is there. -/
theorem served_ownFiles (state : FileService Id Hash) (served : Served state) :
    ∀ file ∈ ownFiles state.service.board, state.store.has file.hash = true := by
  intro file member
  obtain ⟨stamp, copy, current, ours, among⟩ := ownFiles_cases state.service.board file member
  exact served stamp copy current ours file among

/-- A clip made on a machine names nothing the machine cannot serve, in every run
whose restarts find in the file what was last to be saved there or a clip that
names no files of this machine. -/
theorem own_clip_is_served (saves : Bool) (clock : Clock) (identity : Id)
    (settings : Settings) (trees : Path)
    (labels : List (Label Id Hash)) (last : FileService Id Hash)
    (guarded : Runs.Guarded step RestartsCurrent (start saves clock identity settings trees) labels)
    (reached : Runs.run step (start saves clock identity settings trees) labels = some last) :
    Served last :=
  (run_sustained saves clock identity settings trees labels last guarded reached).served

/-- Whether a step is a restart. -/
def restarts : Label Id Hash → Bool
  | .restart _ _ _ _ => true
  | _ => false

/-- A first start, and a file of two bytes copied. -/
def copyOneFile (clock : Clock) : List (Label Nat Bytes) :=
  [.sweep, .sweep, .sweep, .sweep, .takeJob, .sweep, .sweep, .sweep, .sweep,
    .copyFiles [[47, 97]] none, .takeJob, .walked (some ["a"]), .taken 7 (some [1, 2]),
    .settle true clock]

/-- A copied file is served by the process that comes after a restart. The save that comes with
the copy goes through, so the disk has what the restart takes up. -/
theorem own_clip_is_served_after_a_restart :
    let clock : Clock :=
      { stamp := 5000000, believed := 5000000, set := 5000000, lapse := 5000000 }
    ∃ last : FileService Nat Bytes,
      Runs.run step (start true clock 0 Settings.default [47])
        (copyOneFile clock ++ [.restart true clock Settings.default none]) = some last ∧
      Served last ∧ last.service.board.isOurs = true ∧ last.store.has [1, 2] = true := by
  intro clock
  have observed : (Runs.run step (start true clock 0 Settings.default [47])
      (copyOneFile clock ++ [.restart true clock Settings.default none])).map
        (fun last => last.service.board.isOurs && last.store.has [1, 2]) = some true := by
    decide
  obtain ⟨last, reached, held⟩ := Option.map_eq_some_iff.mp observed
  have current : (Runs.run step (start true clock 0 Settings.default [47]) (copyOneFile clock)).map
      (fun middle => decide (middle.service.disk = middle.service.board.saved)) = some true := by
    decide
  have guarded : Runs.Guarded step RestartsCurrent (start true clock 0 Settings.default [47])
      (copyOneFile clock ++ [.restart true clock Settings.default none]) := by
    rw [Runs.guarded_append_iff]
    constructor
    · apply Runs.guarded_of_invariant step RestartsCurrent (fun _ => True)
        (fun label => restarts label = false)
      · exact fun _ _ _ _ _ _ => trivial
      · intro state label _ stays
        cases label with
        | restart saves clock settings stray => cases stays
        | _ => exact trivial
      · exact trivial
      · decide
    · intro middle through
      rw [through] at current
      exact ⟨Or.inl (of_decide_eq_true (Option.some.inj current)), fun _ _ => trivial⟩
  rw [Bool.and_eq_true] at held
  exact ⟨last, reached, own_clip_is_served true clock 0 Settings.default [47] _ last guarded reached,
    held.1, held.2⟩

/-- A copied file, then a text whose save fails: the sweep goes by the text, and the
next process resumes the file copy without its content. -/
theorem failed_save_brings_back_an_unserved_clip :
    let clock : Clock :=
      { stamp := 5000000, believed := 5000000, set := 5000000, lapse := 5000000 }
    let text := Selection.of { mime := "text/plain", bytes := [104, 105] }
    ∃ last : FileService Nat Bytes,
      Runs.run step (start true clock 0 Settings.default [47])
        (copyOneFile clock ++
          [.change false (.copy clock text [] false none), .takeJob, .sweep, .sweep, .sweep,
            .sweepBlob (.blob [1, 2]), .sweep, .restart true clock Settings.default none]) =
          some last ∧
      ¬ Served last := by
  intro clock text
  have observed : (Runs.run step (start true clock 0 Settings.default [47])
      (copyOneFile clock ++
        [.change false (.copy clock text [] false none), .takeJob, .sweep, .sweep, .sweep,
          .sweepBlob (.blob [1, 2]), .sweep, .restart true clock Settings.default none])).map
      (fun last : FileService Nat Bytes =>
        (ownFiles last.service.board).map Files.FileRef.hash == [[1, 2]] &&
          !last.store.has [1, 2]) = some true := by
    decide
  obtain ⟨last, reached, held⟩ := Option.map_eq_some_iff.mp observed
  rw [Bool.and_eq_true, beq_iff_eq, Bool.not_eq_true'] at held
  obtain ⟨named, gone⟩ := held
  refine ⟨last, reached, ?_⟩
  intro served
  have listed : [1, 2] ∈ (ownFiles last.service.board).map Files.FileRef.hash := by
    rw [named]
    exact List.mem_singleton_self _
  obtain ⟨file, member, hash⟩ := List.mem_map.mp listed
  have present := served_ownFiles last served file member
  rw [hash, gone] at present
  cases present

end Yank.FileService
