import Yank.Fetch

/-!
# The file service

One loop takes jobs in order: it spools the files of a selection or a copy and
then has the clip made, starts fetches and sweeps. Beside it runs one fetch, the
threads that aborted fetches left working, and the clipboard, which changes under
all of them.

Every point where the source awaits, and every file a sweep looks at, is a step of
its own, so anything may happen between two of them. What the disk holds, what
peers send and what fails is the choice of the labels; a sweep may look at what it
listed in any order.
-/

namespace Yank

variable {Id Hash : Type}

/-- How far a sweep is: before it asks the clipboard what to keep, before it lists
the trees, going through them, and going through the files listed after. -/
inductive Sweeping (Id Hash : Type) where
  | called
  | referenced (live : Option (Stamp Id)) (content : List Hash)
  | trees (live : Option (Stamp Id)) (content : List Hash) (left : Finset String)
  | blobs (content : List Hash) (left : Finset (SpoolName Hash))
deriving DecidableEq

/-- What the job loop is at. A job that spools keeps what it took in so far, in the
order of the manifest. -/
inductive Loop (Id Hash : Type) where
  | idle
  | walking (job : Job Id)
  | spooling (job : Job Id) (left : List String) (taken : List (Files.FileRef Hash))
  | failed (job : Job Id) (taken : List (Files.FileRef Hash))
  | sweeping (sweeping : Sweeping Id Hash)
deriving DecidableEq

/-- The file service of one machine, with all it works on. -/
structure FileService (Id Hash : Type) where
  service : Service Id Hash
  store : Store Hash
  /-- Where the trees of the spool are. -/
  trees : Path
  loop : Loop Id Hash
  /-- The clip the last record made, which the next one was queued behind. -/
  recorded : WithBot (Stamp Id)
  fetch : Option (Fetch Id Hash)
  /-- What threads are still at for fetches that are gone, with their clips. -/
  detached : List (Stamp Id × Work Hash)

namespace FileService

/-- What can happen next. -/
inductive Label (Id Hash : Type) where
  | change (saves : Bool) (event : Clipboard.Event Id Hash)
  | copied (capture : Captured) (paths : List Path)
  | copyFiles (paths : List Path) (ttl : Option Duration)
  | located (stamp : Stamp Id)
  /-- The process ends anywhere and a new one starts; a file that was being taken
  in may be left behind. -/
  | restart (saves : Bool) (clock : Clock) (settings : Settings) (stray : Option (UInt64 × Bytes))
  | takeJob
  | walked (found : Option (List String))
  | taken (tag : UInt64) (source : Option Bytes)
  | settle (saves : Bool) (clock : Clock)
  | sweep
  | sweepTree (tree : String)
  | sweepBlob (name : SpoolName Hash)
  | fetched (move : Move)
  | landed (saves : Bool)
  | ran (index : Nat)

/-- Whether an event reaches the clipboard from anywhere but the file service:
copies of bytes, clips of peers, clears and lifetimes. -/
def isOutside : Clipboard.Event Id Hash → Bool
  | .copy _ _ files _ _ => files.isEmpty
  | .accept _ _ => true
  | .clear _ => true
  | .expire _ => true
  | _ => false

/-- What comes from elsewhere is no restart. -/
theorem running_of_outside (event : Clipboard.Event Id Hash) (outside : isOutside event = true) :
    ¬ ∃ clock settings, event = .restart clock settings := by
  rintro ⟨clock, settings, rfl⟩
  cases outside

/-- Nor is a tree that is handed over. -/
theorem running_of_materialized (stamp : Stamp Id) (tree : Path) :
    ¬ ∃ clock settings, (.materialized stamp tree : Clipboard.Event Id Hash) =
      .restart clock settings := by
  rintro ⟨clock, settings, same⟩
  cases same

/-- What `spool` answered for a job, once it did: the manifest, or `none` after an
error. -/
def spooled : Loop Id Hash → Option (Job Id × Option (List (Files.FileRef Hash)))
  | .spooling job [] taken => some (job, some taken)
  | .failed job _ => some (job, none)
  | _ => none

/-- What the job loop took in and has not made a clip of. -/
def takenBy : Loop Id Hash → List (Files.FileRef Hash)
  | .spooling _ _ taken => taken
  | .failed _ taken => taken
  | _ => []

/-- The work a fetch that goes away leaves behind. -/
def leftBy (fetch : Option (Fetch Id Hash)) : List (Stamp Id × Work Hash) :=
  (fetch.bind (fun fetch => fetch.work.map (fun work => (fetch.stamp, work)))).toList

/-- `Store::tree`: where the files of a clip are laid out. -/
def treeOf [EndpointText Id] (state : FileService Id Hash) (stamp : Stamp Id) : Path :=
  Files.join state.trees stamp.fileName

section Step
variable [LinearOrder Id] [EndpointText Id] [DecidableEq Hash] [ContentHash Hash]

/-- Takes a job off the queue. A fetch of the newest clip asked about goes on;
another one is aborted. -/
def takeJob (state : FileService Id Hash) : Job Id → FileService Id Hash
  | .record base capture paths =>
      if paths = [] then { state with loop := .spooling (.record base capture paths) [] [] }
      else { state with loop := .walking (.record base capture paths) }
  | .copy paths ttl => { state with loop := .walking (.copy paths ttl) }
  | .fetch stamp =>
      if state.fetch.any (fun fetch => decide (stamp ≤ fetch.stamp) && fetch.phase ≠ .ended) then
        state
      else
        { state with
          fetch := some { stamp, files := [], phase := .called }
          detached := state.detached ++ leftBy state.fetch }
  | .sweep => { state with loop := .sweeping .called }

/-- Ends a job that spooled: a selection is recorded without a manifest when its
files could not be had, a copy of files fails. -/
def settle (saves : Bool) (clock : Clock) (state : FileService Id Hash) (job : Job Id)
    (files : Option (List (Files.FileRef Hash))) : FileService Id Hash :=
  match job, files with
  | .record base capture _, files =>
      let answered := state.service.board.record clock base state.recorded capture
        (files.getD [])
      { state with
        service := (state.service.tryChange saves answered.1).1
        recorded := answered.2
        loop := .idle }
  | .copy paths ttl, some files =>
      { state with
        service := (state.service.tryChange saves
          (state.service.board.copy clock (Selection.ofFiles paths) files false ttl)).1
        loop := .idle }
  | _, _ => { state with loop := .idle }

/-- The next step of a sweep, when it does not look at anything. -/
def sweep (state : FileService Id Hash) : Sweeping Id Hash → Option (Sweeping Id Hash)
  | .called =>
      let (live, content) := state.service.board.referenced
      some (.referenced live content)
  | .referenced live content => some (.trees live content state.store.trees)
  | .trees _ content left =>
      if left = ∅ then some (.blobs content state.store.blobs.names) else none
  | .blobs _ _ => none

/-- One step; `none` when it cannot be taken. -/
def step (state : FileService Id Hash) : Label Id Hash → Option (FileService Id Hash)
  | .change saves event =>
      if isOutside event then some { state with service := state.service.act saves event } else none
  | .copied capture paths =>
      -- A secret never touches the disk, and is not spooled.
      let spooling := state.service.board.settings.files && !capture.secret
      some { state with
        service := state.service.send
          (.record state.service.board.head capture (if spooling then paths else [])) }
  | .copyFiles paths ttl =>
      if state.service.board.settings.files then
        some { state with service := state.service.send (.copy paths ttl) }
      else none
  | .located stamp =>
      -- Asked again while a caller waits, also for a copy that is gone meanwhile.
      if state.service.board.head = stamp ∧ state.service.board.tree.isNone then
        some { state with service := state.service.send (.fetch stamp) }
      else none
  | .restart saves clock settings stray =>
      some {
        service := state.service.act saves (.restart clock settings)
        store := match stray with
          | none => state.store
          | some (tag, bytes) =>
              { state.store with blobs := state.store.blobs.create (.taking tag) bytes }
        trees := state.trees
        loop := .sweeping .called
        recorded := ⊥
        fetch := none
        detached := [] }
  | .takeJob =>
      match state.loop, state.service.jobs with
      | .idle, job :: jobs =>
          some (takeJob { state with service := { state.service with jobs } } job)
      | _, _ => none
  | .walked found =>
      match state.loop with
      | .walking job =>
          match found with
          | none => some { state with loop := .failed job [] }
          | some [] => some { state with loop := .failed job [] }
          | some (path :: paths) => some { state with loop := .spooling job (path :: paths) [] }
      | _ => none
  | .taken tag source =>
      match state.loop with
      | .spooling job (path :: left) taken =>
          let took := state.store.take tag source
          match took.2 with
          | some (hash, size) =>
              some { state with
                store := took.1
                loop := .spooling job left (taken ++ [{ path, size, hash }]) }
          | none => some { state with store := took.1, loop := .failed job taken }
      | _ => none
  | .settle saves clock =>
      (spooled state.loop).map (fun answer => settle saves clock state answer.1 answer.2)
  | .sweep =>
      match state.loop with
      | .sweeping (.blobs _ left) => if left = ∅ then some { state with loop := .idle } else none
      | .sweeping phase => (sweep state phase).map (fun next => { state with loop := .sweeping next })
      | _ => none
  | .sweepTree tree =>
      match state.loop with
      | .sweeping (.trees live content left) =>
          if tree ∈ left then
            some { state with
              store := state.store.sweepTree live tree
              loop := .sweeping (.trees live content (left.erase tree)) }
          else none
      | _ => none
  | .sweepBlob name =>
      match state.loop with
      | .sweeping (.blobs content left) =>
          if name ∈ left then
            some { state with
              store := state.store.sweepBlob content name
              loop := .sweeping (.blobs content (left.erase name)) }
          else none
      | _ => none
  | .fetched move =>
      state.fetch.bind (fun fetch =>
        (fetch.step state.service.board state.store move).map (fun moved =>
          { state with
            fetch := some moved.1
            store := moved.2
            detached := state.detached ++ if move = .fail then leftBy state.fetch else [] }))
  | .landed saves =>
      match state.fetch with
      | some fetch =>
          if fetch.phase = .laid then
            some { state with
              service := state.service.act saves
                (.materialized fetch.stamp (state.treeOf fetch.stamp))
              fetch := some { fetch with phase := .ended } }
          else none
      | none => none
  | .ran index =>
      state.detached[index]?.map (fun entry =>
        let done := entry.2.run entry.1 state.store
        { state with
          store := done.2
          detached := state.detached.eraseIdx index ++
            (done.1.map (fun work => (entry.1, work))).toList })

/-- A machine that starts for the first time. -/
def start (saves : Bool) (clock : Clock) (identity : Id) (settings : Settings) (trees : Path) :
    FileService Id Hash where
  service := .opened saves clock identity settings none
  store := .empty
  trees := trees
  loop := .sweeping .called
  recorded := ⊥
  fetch := none
  detached := []

omit [EndpointText Id] [ContentHash Hash] in
/-- Taking up a job leaves the clipboard, its file and the other jobs. -/
@[simp] theorem takeJob_service (state : FileService Id Hash) (job : Job Id) :
    (takeJob state job).service = state.service := by
  cases job <;> simp only [takeJob] <;> split <;> rfl

omit [EndpointText Id] [ContentHash Hash] in
/-- It leaves the spool. -/
@[simp] theorem takeJob_store (state : FileService Id Hash) (job : Job Id) :
    (takeJob state job).store = state.store := by
  cases job <;> simp only [takeJob] <;> split <;> rfl

omit [EndpointText Id] [ContentHash Hash] in
/-- A job starts with nothing taken in. A job without paths goes straight to its end, a sweep
begins by reading what the clip names, and a fetch is none of the loop's. -/
theorem takeJob_loop (state : FileService Id Hash) (job : Job Id) (idle : state.loop = .idle) :
    (job = .sweep ∧ (takeJob state job).loop = .sweeping .called) ∨
      job ≠ .sweep ∧ ((takeJob state job).loop = .idle ∨ (takeJob state job).loop = .walking job ∨
        (takeJob state job).loop = .spooling job [] []) := by
  cases job with
  | record base capture paths =>
    refine Or.inr ⟨by simp, ?_⟩
    by_cases none_named : paths = []
    · exact Or.inr (Or.inr (by simp only [takeJob, if_pos none_named]))
    · exact Or.inr (Or.inl (by simp only [takeJob, if_neg none_named]))
  | copy paths ttl => exact Or.inr ⟨by simp, Or.inr (Or.inl rfl)⟩
  | fetch stamp =>
    refine Or.inr ⟨by simp, Or.inl ?_⟩
    simp only [takeJob]
    split
    · exact idle
    · exact idle
  | sweep => exact Or.inl ⟨rfl, rfl⟩

/-- Everything one step can do, with what it takes for it. -/
inductive Took (state : FileService Id Hash) : Label Id Hash → FileService Id Hash → Prop where
  | changed (saves : Bool) (event : Clipboard.Event Id Hash) (outside : isOutside event = true) :
      Took state (.change saves event) { state with service := state.service.act saves event }
  | copied (capture : Captured) (paths : List Path) :
      Took state (.copied capture paths) { state with
        service := state.service.send (.record state.service.board.head capture
          (if state.service.board.settings.files && !capture.secret then paths else [])) }
  | copyAsked (paths : List Path) (ttl : Option Duration) :
      Took state (.copyFiles paths ttl)
        { state with service := state.service.send (.copy paths ttl) }
  | fetchAsked (stamp : Stamp Id) (head : state.service.board.head = stamp) :
      Took state (.located stamp) { state with service := state.service.send (.fetch stamp) }
  | restarted (saves : Bool) (clock : Clock) (settings : Settings)
      (stray : Option (UInt64 × Bytes)) (store : Store Hash)
      (left : store = match stray with
        | none => state.store
        | some (tag, bytes) =>
            { state.store with blobs := state.store.blobs.create (.taking tag) bytes }) :
      Took state (.restart saves clock settings stray) {
        service := state.service.act saves (.restart clock settings)
        store
        trees := state.trees
        loop := .sweeping .called
        recorded := ⊥
        fetch := none
        detached := [] }
  | started (job : Job Id) (jobs : List (Job Id)) (idle : state.loop = .idle)
      (queued : state.service.jobs = job :: jobs) :
      Took state .takeJob (takeJob { state with service := { state.service with jobs } } job)
  | walked (job : Job Id) (found : Option (List String)) (next : Loop Id Hash)
      (walking : state.loop = .walking job)
      (leads : next = .failed job [] ∨ ∃ left, next = .spooling job left []) :
      Took state (.walked found) { state with loop := next }
  | took (job : Job Id) (path : String) (left : List String) (taken : List (Files.FileRef Hash))
      (tag : UInt64) (source : Option Bytes) (hash : Hash) (size : UInt64)
      (spooling : state.loop = .spooling job (path :: left) taken)
      (answered : (state.store.take tag source).2 = some (hash, size)) :
      Took state (.taken tag source) { state with
        store := (state.store.take tag source).1
        loop := .spooling job left (taken ++ [{ path, size, hash }]) }
  | untaken (job : Job Id) (path : String) (left : List String)
      (taken : List (Files.FileRef Hash)) (tag : UInt64) (source : Option Bytes)
      (spooling : state.loop = .spooling job (path :: left) taken)
      (answered : (state.store.take tag source).2 = none) :
      Took state (.taken tag source) { state with
        store := (state.store.take tag source).1
        loop := .failed job taken }
  | settled (saves : Bool) (clock : Clock) (job : Job Id)
      (files : Option (List (Files.FileRef Hash))) (spool : spooled state.loop = some (job, files)) :
      Took state (.settle saves clock) (settle saves clock state job files)
  | sweeping (phase next : Sweeping Id Hash) (atPhase : state.loop = .sweeping phase)
      (goesOn : sweep state phase = some next) : Took state .sweep { state with loop := .sweeping next }
  | swept (content : List Hash) (done : state.loop = .sweeping (.blobs content ∅)) :
      Took state .sweep { state with loop := .idle }
  | treeSwept (live : Option (Stamp Id)) (content : List Hash) (left : Finset String)
      (tree : String) (atPhase : state.loop = .sweeping (.trees live content left))
      (listed : tree ∈ left) :
      Took state (.sweepTree tree) { state with
        store := state.store.sweepTree live tree
        loop := .sweeping (.trees live content (left.erase tree)) }
  | blobSwept (content : List Hash) (left : Finset (SpoolName Hash)) (name : SpoolName Hash)
      (atPhase : state.loop = .sweeping (.blobs content left)) (listed : name ∈ left) :
      Took state (.sweepBlob name) { state with
        store := state.store.sweepBlob content name
        loop := .sweeping (.blobs content (left.erase name)) }
  | fetched (running next : Fetch Id Hash) (move : Move) (after : Store Hash)
      (isFetch : state.fetch = some running)
      (stepped : running.step state.service.board state.store move = some (next, after)) :
      Took state (.fetched move) { state with
        fetch := some next
        store := after
        detached := state.detached ++ if move = .fail then leftBy state.fetch else [] }
  | landed (saves : Bool) (running : Fetch Id Hash)
      (isFetch : state.fetch = some running) (laid : running.phase = .laid) :
      Took state (.landed saves) { state with
        service := state.service.act saves
          (.materialized running.stamp (state.treeOf running.stamp))
        fetch := some { running with phase := .ended } }
  | ran (index : Nat) (stamp : Stamp Id) (work : Work Hash)
      (listed : state.detached[index]? = some (stamp, work)) :
      Took state (.ran index) { state with
        store := (work.run stamp state.store).2
        detached := state.detached.eraseIdx index ++
          ((work.run stamp state.store).1.map (fun work => (stamp, work))).toList }

/-- A step does one of these things. The cases of `Took` say all that a label can do, guards
included; the invariants of this service are case analyses over them. -/
theorem step_took (state next : FileService Id Hash) (label : Label Id Hash)
    (taken : state.step label = some next) : Took state label next := by
  cases label with
  | change saves event =>
    simp only [step, Option.ite_none_right_eq_some, Option.some.injEq] at taken
    obtain ⟨outside, rfl⟩ := taken
    exact .changed saves event outside
  | copied capture paths =>
    obtain rfl := Option.some.inj taken
    exact .copied capture paths
  | copyFiles paths ttl =>
    simp only [step, Option.ite_none_right_eq_some, Option.some.injEq] at taken
    obtain ⟨_, rfl⟩ := taken
    exact .copyAsked paths ttl
  | located stamp =>
    simp only [step, Option.ite_none_right_eq_some, Option.some.injEq] at taken
    obtain ⟨⟨head, _⟩, rfl⟩ := taken
    exact .fetchAsked stamp head
  | restart saves clock settings stray =>
    obtain rfl := Option.some.inj taken
    exact .restarted saves clock settings stray _ rfl
  | takeJob =>
    obtain ⟨service, store, trees, loop, recorded, fetch, detached⟩ := state
    cases loop with
    | idle =>
      obtain ⟨board, disk, head, jobs, backend⟩ := service
      cases jobs with
      | nil => cases taken
      | cons job jobs =>
        obtain rfl := Option.some.inj taken
        exact .started job jobs rfl rfl
    | _ => cases taken
  | walked found =>
    obtain ⟨service, store, trees, loop, recorded, fetch, detached⟩ := state
    cases loop with
    | walking job =>
      match found with
      | none =>
        obtain rfl := Option.some.inj taken
        exact .walked job _ _ rfl (Or.inl rfl)
      | some [] =>
        obtain rfl := Option.some.inj taken
        exact .walked job _ _ rfl (Or.inl rfl)
      | some (path :: paths) =>
        obtain rfl := Option.some.inj taken
        exact .walked job _ _ rfl (Or.inr ⟨path :: paths, rfl⟩)
    | _ => cases taken
  | taken tag source =>
    obtain ⟨service, store, trees, loop, recorded, fetch, detached⟩ := state
    cases loop with
    | spooling job left took =>
      cases left with
      | nil => cases taken
      | cons path left =>
        dsimp only [step] at taken
        cases answered : (store.take tag source).2 with
        | none =>
          rw [answered] at taken
          obtain rfl := Option.some.inj taken
          exact .untaken job path left took tag source rfl answered
        | some answer =>
          obtain ⟨hash, size⟩ := answer
          rw [answered] at taken
          obtain rfl := Option.some.inj taken
          exact .took job path left took tag source hash size rfl answered
    | _ => cases taken
  | settle saves clock =>
    obtain ⟨⟨job, files⟩, spool, rfl⟩ := Option.map_eq_some_iff.mp taken
    exact .settled saves clock job files spool
  | sweep =>
    obtain ⟨service, store, trees, loop, recorded, fetch, detached⟩ := state
    cases loop with
    | sweeping phase =>
      cases phase with
      | blobs content left =>
        simp only [step, Option.ite_none_right_eq_some, Option.some.injEq] at taken
        obtain ⟨rfl, rfl⟩ := taken
        exact .swept content rfl
      | _ =>
        simp only [step, Option.map_eq_some_iff] at taken
        obtain ⟨next, goesOn, rfl⟩ := taken
        exact .sweeping _ next rfl goesOn
    | _ => cases taken
  | sweepTree tree =>
    obtain ⟨service, store, trees, loop, recorded, fetch, detached⟩ := state
    cases loop with
    | sweeping phase =>
      cases phase with
      | trees live content left =>
        simp only [step, Option.ite_none_right_eq_some, Option.some.injEq] at taken
        obtain ⟨listed, rfl⟩ := taken
        exact .treeSwept live content left tree rfl listed
      | _ => cases taken
    | _ => cases taken
  | sweepBlob name =>
    obtain ⟨service, store, trees, loop, recorded, fetch, detached⟩ := state
    cases loop with
    | sweeping phase =>
      cases phase with
      | blobs content left =>
        simp only [step, Option.ite_none_right_eq_some, Option.some.injEq] at taken
        obtain ⟨listed, rfl⟩ := taken
        exact .blobSwept content left name rfl listed
      | _ => cases taken
    | _ => cases taken
  | fetched move =>
    obtain ⟨running, isFetch, moves⟩ := Option.bind_eq_some_iff.mp taken
    obtain ⟨⟨next, after⟩, stepped, rfl⟩ := Option.map_eq_some_iff.mp moves
    exact .fetched running next move after isFetch stepped
  | landed saves =>
    cases running : state.fetch with
    | none => simp [step, running] at taken
    | some fetch =>
      simp only [step, running, Option.ite_none_right_eq_some, Option.some.injEq] at taken
      obtain ⟨laid, rfl⟩ := taken
      exact .landed saves fetch running laid
  | ran index =>
    obtain ⟨⟨stamp, work⟩, listed, rfl⟩ := Option.map_eq_some_iff.mp taken
    exact .ran index stamp work listed

/-- No step moves the trees of the spool. -/
theorem step_trees (state next : FileService Id Hash) (label : Label Id Hash)
    (taken : state.step label = some next) : next.trees = state.trees := by
  cases step_took state next label taken with
  | started job jobs => cases job <;> simp only [takeJob] <;> split <;> rfl
  | settled saves clock job files =>
    unfold settle
    split <;> rfl
  | _ => rfl

/-- What a step does to the clipboard: an event, the end of a job, or nothing. -/
inductive Touched (state next : FileService Id Hash) (label : Label Id Hash) : Prop where
  | changed (saves : Bool) (event : Clipboard.Event Id Hash) (outside : isOutside event = true)
      (isChange : label = .change saves event) (acted : next.service = state.service.act saves event)
  | restarted (saves : Bool) (clock : Clock) (settings : Settings) (stray : Option (UInt64 × Bytes))
      (isRestart : label = .restart saves clock settings stray)
      (acted : next.service = state.service.act saves (.restart clock settings))
  | landed (saves : Bool) (stamp : Stamp Id) (isLanding : label = .landed saves)
      (acted : next.service = state.service.act saves (.materialized stamp (state.treeOf stamp)))
  | settled (saves : Bool) (clock : Clock) (job : Job Id)
      (files : Option (List (Files.FileRef Hash))) (isEnd : label = .settle saves clock)
      (spool : spooled state.loop = some (job, files))
      (ended : next = settle saves clock state job files)
  | untouched (board : next.service.board = state.service.board)
      (disk : next.service.disk = state.service.disk)

/-- A step does nothing else to the clipboard. -/
theorem step_touched (state next : FileService Id Hash) (label : Label Id Hash)
    (taken : state.step label = some next) : Touched state next label := by
  cases step_took state next label taken with
  | changed saves event outside => exact .changed saves event outside rfl rfl
  | restarted saves clock settings stray => exact .restarted saves clock settings stray rfl rfl
  | started job jobs => exact .untouched (by rw [takeJob_service]) (by rw [takeJob_service])
  | settled saves clock job files spool => exact .settled saves clock job files rfl spool rfl
  | landed saves running => exact .landed saves running.stamp rfl rfl
  | _ => exact .untouched rfl rfl

omit [EndpointText Id] in
/-- A record is dropped or is the capture it says. -/
theorem record_cases (clock : Clock) (base recorded : WithBot (Stamp Id)) (capture : Captured)
    (files : List (Files.FileRef Hash)) (board : Clipboard Id Hash) :
    (board.record clock base recorded capture files).1 = (board, .ok []) ∨
      (board.record clock base recorded capture files).1 =
        board.step (.captured clock capture files) := by
  unfold Clipboard.record
  split
  · exact Or.inl rfl
  · exact Or.inr rfl

omit [EndpointText Id] in
/-- An event from elsewhere leaves the settings. -/
theorem act_settings (saves : Bool) (service : Service Id Hash) (event : Clipboard.Event Id Hash)
    (running : ¬ ∃ clock settings, event = .restart clock settings) :
    (service.act saves event).board.settings = service.board.settings := by
  rw [Service.act_running saves service event running, Service.tryChange_board]
  exact service.board.step_settings event running

omit [EndpointText Id] in
/-- The end of a job leaves the settings. A report that is dropped leaves the clipboard, and a
copy or a record is an event that runs on. -/
theorem settle_settings (saves : Bool) (clock : Clock) (state : FileService Id Hash) (job : Job Id)
    (files : Option (List (Files.FileRef Hash))) :
    (settle saves clock state job files).service.board.settings = state.service.board.settings := by
  cases job with
  | record base capture paths =>
    change (state.service.tryChange saves _).1.board.settings = _
    rw [Service.tryChange_board]
    obtain dropped | captured :=
      record_cases clock base state.recorded capture (files.getD []) state.service.board
    · rw [dropped]
    · rw [captured]
      exact state.service.board.step_settings _ (by rintro ⟨clock, settings, same⟩; cases same)
  | copy paths ttl =>
    cases files with
    | none => rfl
    | some files =>
      change (state.service.tryChange saves _).1.board.settings = _
      rw [Service.tryChange_board]
      exact state.service.board.step_settings (.copy clock _ _ false _)
        (by rintro ⟨clock, settings, same⟩; cases same)
  | fetch stamp => rfl
  | sweep => rfl

/-- Settings change at restarts only. Every other label performs an event of the clipboard that is
no restart, or none. -/
theorem step_settings (state next : FileService Id Hash) (label : Label Id Hash)
    (taken : state.step label = some next)
    (goesOn : ∀ saves clock settings stray, label ≠ .restart saves clock settings stray) :
    next.service.board.settings = state.service.board.settings := by
  cases step_touched state next label taken with
  | changed saves event outside isChange acted =>
    rw [acted]
    exact act_settings saves state.service event (running_of_outside event outside)
  | restarted saves clock settings stray isRestart acted =>
    exact absurd isRestart (goesOn saves clock settings stray)
  | landed saves stamp isLanding acted =>
    rw [acted]
    exact act_settings saves state.service _ (running_of_materialized stamp _)
  | settled saves clock job files isEnd spool ended =>
    rw [ended]
    exact settle_settings saves clock state job files
  | untouched board disk => rw [board]

end Step

end FileService

end Yank
