import Yank.Leftovers
import Yank.Reoffering
import Yank.Trees

/-!
# Files are offered when they are here

A clip of another machine is offered as text until its files are laid out, and as
files from then on. The fetch that laid them out is the only thing that hands a tree
to the clipboard, for the clip that is the head by then.

Nothing the job loop does takes such a tree apart: a fetch is only asked for once its
clip is the head, sweeps run in the same loop, and stamps never come back. A thread
left behind by an older fetch may: it starts its own tree over, which is another
clip's when the two have one name, and it may give the name of some content to a file
the tree does not lead to.
-/

namespace Yank

variable {Id Hash : Type}

/-- Whether an offer announces file types. -/
def announcesFiles (serves : List Serve) : Bool :=
  serves.any (fun serve => serve.mimes.any Mime.isLocal)

/-- Whether an effect puts something on the local clipboard. -/
def isOffer : Effect Id → Bool
  | .backend (.offer _) => true
  | _ => false

/-- What names no file is announced under no file type. -/
theorem Mime.aliases_notLocal (mime : String) (content : isLocal mime = false) :
    ∀ name ∈ aliases mime, isLocal name = false := by
  have names : ∀ known ∈ text, isLocal known = false := by decide
  intro name member
  unfold aliases at member
  split at member
  · rw [List.mem_singleton.mp member]
    exact content
  · obtain rfl | among := List.mem_cons.mp member
    · exact content
    · exact names name (List.mem_filter.mp among).1

/-- Representations that name no file are served without a file type. The induction is on the
representations: none has a file type among its names. -/
theorem servesFrom_content (reps : List Rep) (serves : List Serve)
    (content : ∀ rep ∈ reps, Mime.isLocal rep.mime = false) (before : announcesFiles serves = false) :
    announcesFiles (servesFrom reps serves) = false := by
  induction reps generalizing serves with
  | nil => exact before
  | cons rep reps inductionHypothesis =>
    rw [List.forall_mem_cons] at content
    rw [servesFrom]
    split
    · exact inductionHypothesis serves content.2 before
    · refine inductionHypothesis _ content.2 ?_
      have named : ∀ name ∈ (Mime.aliases rep.mime).filter
          (fun mime => !serves.any (fun serve => serve.mimes.contains mime)),
          Mime.isLocal name = false := fun name member =>
        Mime.aliases_notLocal rep.mime content.1 name (List.mem_filter.mp member).1
      rw [announcesFiles, List.any_append, Bool.or_eq_false_iff]
      refine ⟨before, ?_⟩
      simpa using named

/-- With the file references taken out nothing names a file. What is left is what names no file,
or plain text if nothing is. -/
theorem stripped_content (copy : Copy Hash) :
    ∀ rep ∈ (stripped copy).reps, Mime.isLocal rep.mime = false := by
  intro rep member
  unfold stripped at member
  rw [List.partition_eq_filter_filter] at member
  dsimp only at member
  cases kept : copy.selection.reps.filter (not ∘ fun rep => Mime.isLocal rep.mime) with
  | nil =>
    rw [kept] at member
    obtain rfl := List.mem_singleton.mp member
    exact Mime.isLocal_of_alias Mime.plainText (by decide)
  | cons primary alternates =>
    rw [kept] at member
    have among : rep ∈ copy.selection.reps.filter (not ∘ fun rep => Mime.isLocal rep.mime) := by
      rw [kept]
      exact member
    simpa using (List.mem_filter.mp among).2

namespace Clipboard

section Offers
variable [LinearOrder Id]

/-- A clip of another machine is offered as files only where its files are. -/
theorem offered_files (board : Clipboard Id Hash) (copy : Copy Hash)
    (files : announcesFiles (board.offered copy) = true) (foreign : board.isOurs = false) :
    board.tree.isSome = true := by
  cases held : board.tree with
  | some tree => rfl
  | none =>
    have carried : board.carried copy = stripped copy := by simp [Clipboard.carried, held, foreign]
    have silent : announcesFiles (serves (stripped copy)) = false :=
      servesFrom_content _ [] (stripped_content copy) rfl
    have secret : announcesFiles (if copy.secret then [secretServe] else []) = false := by
      cases copy.secret <;> decide
    rw [offered, carried, announcesFiles, List.any_append, Bool.or_eq_true] at files
    simp only [announcesFiles] at silent secret
    simp [silent, secret] at files

end Offers

/-- What a change leaves of a tree: nothing, once the clip is another one. -/
structure Turned [LinearOrder Id] (before after : Clipboard Id Hash) : Prop where
  onward : Onward before after
  tree : after.clip = before.clip ∧ after.tree = before.tree ∨
    after.tree = none ∧ ∀ stamp copy, after.current = some (stamp, copy) → before.head < stamp

variable [LinearOrder Id]

/-- A clipboard that nothing happened to has its tree. -/
theorem Turned.refl (board : Clipboard Id Hash) : Turned board board where
  onward := Onward.refl board
  tree := Or.inl ⟨rfl, rfl⟩

/-- A clip that is still there has the tree it had. -/
theorem Turned.kept (before after : Clipboard Id Hash) (turned : Turned before after)
    (stamp : Stamp Id) (copy : Copy Hash) (seen : (stamp : WithBot (Stamp Id)) ≤ before.head)
    (current : after.current = some (stamp, copy)) :
    before.current = some (stamp, copy) ∧ after.tree = before.tree := by
  obtain ⟨clip, tree⟩ | ⟨_, newer⟩ := turned.tree
  · rw [current_iff] at current ⊢
    exact ⟨clip ▸ current, tree⟩
  · exact absurd (newer stamp copy current) (not_lt_of_ge seen)

omit [LinearOrder Id] in
/-- The copy that is there is under the head. -/
theorem head_of_current (board : Clipboard Id Hash) (stamp : Stamp Id) (copy : Copy Hash)
    (current : board.current = some (stamp, copy)) : board.head = stamp :=
  board.head_of_clip _ ((current_iff board stamp copy).mp current)

/-- Making a newer clip of this or another machine leaves no tree. -/
theorem tree_of_set (now : SystemTime) (clip : Clip Id Hash) (board after : Clipboard Id Hash)
    (newer : clip.copy = none ∨ board.head < clip.stamp) (made : after.clip = (board.set now clip).clip)
    (tree : after.tree = none) :
    after.tree = none ∧ ∀ stamp copy, after.current = some (stamp, copy) → board.head < stamp := by
  refine ⟨tree, fun stamp copy current => ?_⟩
  rw [current_iff, made] at current
  obtain rfl : clip = { stamp, copy := some copy } := Option.some.inj current
  obtain nothing | later := newer
  · cases nothing
  · exact later

variable [ContentHash Hash] [DecidableEq Hash]

/-- Any event but a tree handed over or a restart. Nothing here hands over a tree: an operation
leaves clip and tree as they are, or puts a newer clip whose tree is not there yet. -/
theorem step_turned (board : Clipboard Id Hash) (event : Event Id Hash)
    (running : ¬ ∃ clock settings, event = .restart clock settings)
    (bare : ¬ ∃ stamp tree, event = .materialized stamp tree) : Turned board (board.step event).1 := by
  refine ⟨(step_moved board event).onward, ?_⟩
  have did := step_did board event
  generalize board.step event = outcome at did ⊢
  cases did with
  | nothing => exact Or.inl ⟨rfl, rfl⟩
  | echoed => exact Or.inl ⟨rfl, rfl⟩
  | recorded clock capture files selection stamp _ _ _ _ _ newer =>
    exact Or.inr (tree_of_set clock.set _ board _ (Or.inr newer) rfl rfl)
  | applied ready first readied =>
    cases readied with
    | copied clock selection files secret ttl copy stamp _ newer =>
      exact Or.inr (tree_of_set clock.set _ board _ (Or.inr newer) (apply_clip _) (apply_tree _))
    | cleared clock stamp newer =>
      exact Or.inr (tree_of_set clock.set _ board _ (Or.inr newer) (apply_clip _) (apply_tree _))
    | taken clock clip newer =>
      right
      obtain same | ⟨other, _, held, emptied⟩ := lapse_cases clock.lapse (board.set clock.set clip)
      · rw [same]
        exact tree_of_set clock.set _ board _ (Or.inr newer) (apply_clip _) (apply_tree _)
      · rw [emptied]
        exact tree_of_set clock.lapse _ board _ (Or.inl rfl) (apply_clip _) (apply_tree _)
    | lapsed now due =>
      obtain same | ⟨clip, _, held, emptied⟩ := lapse_cases now board
      · rw [same]
        exact Or.inl ⟨apply_clip board, apply_tree board⟩
      · rw [emptied]
        exact Or.inr (tree_of_set now _ board _ (Or.inl rfl) (apply_clip _) (apply_tree _))
    | landed stamp tree => exact absurd ⟨stamp, tree, rfl⟩ bare
  | restarted clock settings isRestart => exact absurd ⟨clock, settings, isRestart⟩ running

omit [DecidableEq Hash] in
/-- A clipboard that was just opened has no tree. -/
theorem new_tree (clock : Clock) (origin : Id) (settings : Settings) (saved : Option (Clip Id Hash)) :
    (new clock origin settings saved).tree = none := by
  cases saved with
  | none => rfl
  | some clip =>
    obtain ⟨blank, shape⟩ := new_some clock origin settings clip
    rw [shape, apply_tree]
    obtain same | ⟨_, _, _, emptied⟩ := lapse_cases clock.lapse (blank.set clock.set clip)
    · rw [same]
      rfl
    · rw [emptied]
      rfl

omit [DecidableEq Hash] in
/-- A fetch is asked for the clip that is the head then. -/
theorem apply_fetches (board : Clipboard Id Hash) (stamp : Stamp Id)
    (asked : Effect.fetch stamp ∈ board.apply.2) : board.head = stamp := by
  obtain cleared | ⟨other, copy, current, fetched | offered⟩ := apply_asks board _ asked
  · cases cleared
  · cases fetched
    exact head_of_current board stamp copy current
  · cases offered

/-- A fetch is asked for the clip that is the head then. -/
theorem step_fetches (board : Clipboard Id Hash) (event : Event Id Hash) (stamp : Stamp Id)
    (asked : Effect.fetch stamp ∈ effectsOf (board.step event)) :
    (board.step event).1.head = stamp := by
  obtain ⟨ready, made, among⟩ := step_asks board event _ asked (by simp)
  rw [made, apply_head]
  exact apply_fetches ready stamp among

end Clipboard

/-- Some work of an older fetch takes nothing from the tree of the clip stamped `stamp`. -/
def Work.Spares [EndpointText Id] [DecidableEq Hash] [ContentHash Hash] (store : Store Hash)
    (stamp : Stamp Id) (files : List (Files.FileRef Hash)) (other : Stamp Id) : Work Hash → Prop
  | .planting _ => stamp.fileName ≠ other.fileName
  | .finishing incoming => ContentHash.of incoming.hashed = incoming.hash →
      (store.part incoming.hash).isSome = true → ∀ file ∈ files, file.hash = incoming.hash →
        ¬ store.Linked stamp.fileName file
  | _ => True

namespace FileService

section Terms
variable [LinearOrder Id] [EndpointText Id] [DecidableEq Hash] [ContentHash Hash]

/-- The outcome a step hands to the clipboard service. -/
def outcome (state : FileService Id Hash) : Label Id Hash → Option (Outcome Id Hash)
  | .change _ event => some (state.service.board.step event)
  | .landed _ =>
      state.fetch.map (fun fetch =>
        state.service.board.step (.materialized fetch.stamp (state.treeOf fetch.stamp)))
  | .settle _ clock =>
      match spooled state.loop with
      | some (.record base capture _, files) =>
          some (state.service.board.record clock base state.recorded capture (files.getD [])).1
      | some (.copy paths ttl, some files) =>
          some (state.service.board.step (.copy clock (Selection.ofFiles paths) files false ttl))
      | _ => none
  | _ => none

/-- The tree of the clip stamped `stamp` is offered, or its fetch is linking it. -/
def Exposed (state : FileService Id Hash) (stamp : Stamp Id) : Prop :=
  state.service.board.tree.isSome = true ∨
    ∃ fetch, state.fetch = some fetch ∧ fetch.stamp = stamp ∧
      ((∃ files, fetch.phase = .linking files) ∨ fetch.phase = .laid)

/-- A thread that outlived its fetch spares the tree of the clip: it does not start
one of the same name over, and it gives no name of content that is linked there to
another file. -/
def Undisturbed (state : FileService Id Hash) (label : Label Id Hash) : Prop :=
  match label with
  | .ran index => ∀ other work, state.detached[index]? = some (other, work) →
      ∀ stamp copy, state.service.board.current = some (stamp, copy) → Exposed state stamp →
        work.Spares state.store stamp copy.files other
  | _ => True

/-- How far the tree of a clip is that a fetch is for. -/
def Along (store : Store Hash) (stamp : Stamp Id) (files : List (Files.FileRef Hash))
    (fetch : Fetch Id Hash) : Prop :=
  match fetch.phase with
  | .called => True
  | .ended => True
  | .linking rest => ∃ done, files = done ++ rest ∧ store.LaidOut stamp.fileName done
  | .laid => store.LaidOut stamp.fileName files
  | _ => fetch.files = files

/-- The clip stamped `stamp` has its tree, or a fetch. -/
def Held (state : FileService Id Hash) (stamp : Stamp Id) : Prop :=
  state.service.board.tree.isSome = true ∨
    ∃ fetch, state.fetch = some fetch ∧ fetch.stamp = stamp

/-- What carries the result. Fetches are for clips that were the head; a sweep that
goes on beside one was told of its clip; what is linked so far is in the tree, and
all of it once the tree was handed over. -/
structure Housed (state : FileService Id Hash) : Prop where
  asked : ∀ stamp, Job.fetch stamp ∈ state.service.jobs →
    (stamp : WithBot (Stamp Id)) ≤ state.service.board.head
  seen : ∀ fetch, state.fetch = some fetch →
    (fetch.stamp : WithBot (Stamp Id)) ≤ state.service.board.head
  told : ∀ stamp copy, state.service.board.current = some (stamp, copy) → Held state stamp →
    Told state.service.board state.loop
  along : ∀ stamp copy fetch, state.service.board.current = some (stamp, copy) →
    state.fetch = some fetch → fetch.stamp = stamp → Along state.store stamp copy.files fetch
  offered : ∀ stamp copy, state.service.board.current = some (stamp, copy) →
    state.service.board.tree.isSome = true → state.store.LaidOut stamp.fileName copy.files ∧
      ∀ fetch, state.fetch = some fetch → fetch.phase = .called ∨ fetch.phase = .ended

end Terms

section Steps
variable [LinearOrder Id] [EndpointText Id] [DecidableEq Hash] [ContentHash Hash]

omit [LinearOrder Id] in
/-- Work that spares a tree keeps what is linked there. One case for each kind of work: planting
another tree and ending a transfer of other content touch nothing that is linked there. -/
theorem run_keeps (store : Store Hash) (stamp other : Stamp Id) (files : List (Files.FileRef Hash))
    (work : Work Hash) (spares : work.Spares store stamp files other) :
    Store.Keeps stamp.fileName
      (fun hash => ∃ file ∈ files, file.hash = hash ∧ store.Linked stamp.fileName file) store
      (work.run other store).2 := by
  cases work with
  | opening hash => exact Store.Keeps.receive _ _ store hash
  | writing incoming queue =>
    cases queue with
    | nil => exact Store.Keeps.refl _ _ store
    | cons bytes queue => exact Store.Keeps.write _ _ store bytes incoming
  | finishing incoming =>
    refine Store.Keeps.finish _ _ store incoming ?_
    rintro right there ⟨file, member, named, linked⟩
    exact spares right there file member named linked
  | planting files => exact Store.Keeps.plant _ _ store other spares
  | linking files =>
    cases files with
    | nil => exact Store.Keeps.refl _ _ store
    | cons file files => exact (Store.linkIn_spec _ _ store other file).1

omit [LinearOrder Id] [DecidableEq Hash] [ContentHash Hash] in
/-- What is laid out stays so where the content it is linked to is kept. -/
theorem laidOut_keeps (before after : Store Hash) (stamp : Stamp Id)
    (files linked : List (Files.FileRef Hash))
    (keeps : Store.Keeps stamp.fileName
      (fun hash => ∃ file ∈ files, file.hash = hash ∧ before.Linked stamp.fileName file) before after)
    (among : linked ⊆ files) (laid : before.LaidOut stamp.fileName linked) :
    after.LaidOut stamp.fileName linked := by
  intro file member
  have linked := laid file member
  exact linked.keeps _ _ before after file keeps ⟨file, among member, rfl, linked⟩

omit [LinearOrder Id] in
/-- A tree with files in it stays as it is exactly under work that spares it. Only two kinds of
work can take a tree apart: planting it again, and ending a transfer of a content that it links
already, whose blob the partial then takes the place of. -/
theorem run_laidOut_iff (store : Store Hash) (stamp other : Stamp Id)
    (files : List (Files.FileRef Hash)) (work : Work Hash) (named : files ≠ [])
    (laid : store.LaidOut stamp.fileName files) :
    (work.run other store).2.LaidOut stamp.fileName files ↔
      work.Spares store stamp files other := by
  constructor
  · intro stays
    cases work with
    | planting laying =>
      intro same
      obtain ⟨file, member⟩ := List.exists_mem_of_ne_nil files named
      obtain ⟨_, blob, leads, _⟩ := stays file member
      change (Function.update store.links other.fileName [] stamp.fileName).lookup file.path =
        some blob at leads
      rw [same, Function.update_self] at leads
      cases leads
    | finishing incoming =>
      intro right there file member own linked
      obtain ⟨_, blob, leads, under⟩ := linked
      obtain ⟨_, moved, leadsOn, after⟩ := stays file member
      have isPart : (store.blobs.entries (.part incoming.hash)).isSome = true := by
        rwa [Store.part, Inodes.Dir.read, Option.isSome_map] at there
      have shape : ((Work.finishing incoming).run other store).2 = { store with
          blobs := store.blobs.rename (.part incoming.hash) (.blob incoming.hash) } := by
        rw [Work.run, Store.finish, if_neg (not_not.mpr right)]
      rw [shape] at leadsOn
      -- The content has the name of the partial now, and the link leads where it led.
      have renamed : ((Work.finishing incoming).run other store).2.blobs.entries (.blob file.hash) =
          store.blobs.entries (.part incoming.hash) := by
        rw [shape, own]
        exact Inodes.Dir.entries_rename_self _ _ _ isPart
      have same : moved = blob := Option.some.inj (leadsOn.symm.trans leads)
      subst same
      have isBlob : SpoolName.blob file.hash = .part incoming.hash :=
        store.blobs.apart _ _ moved under (renamed.symm.trans after)
      cases isBlob
    | _ => exact trivial
  · intro spares
    exact laidOut_keeps store _ stamp files files (run_keeps store stamp other files work spares)
      (List.Subset.refl _) laid

/-- A step hands over at most one outcome, and the service performs it. The outcomes are those of
an event, of a tree that landed, and of the end of a job. -/
theorem step_performs (state next : FileService Id Hash) (label : Label Id Hash)
    (outcome : Outcome Id Hash) (made : state.outcome label = some outcome)
    (taken : state.step label = some next) :
    ∃ saves, next.service = (state.service.tryChange saves outcome).1 := by
  cases step_took state next label taken with
  | changed saves event outside =>
    obtain rfl := Option.some.inj made
    exact ⟨saves, Service.act_running saves state.service event (running_of_outside event outside)⟩
  | landed saves running isFetch laid =>
    simp only [FileService.outcome, isFetch, Option.map_some, Option.some.injEq] at made
    subst made
    exact ⟨saves, rfl⟩
  | settled saves clock job files spool =>
    simp only [FileService.outcome, spool] at made
    unfold settle
    split at made
    · obtain ⟨rfl, rfl⟩ := Prod.mk.inj (Option.some.inj ‹some (job, files) = _›)
      obtain rfl := Option.some.inj made
      exact ⟨saves, rfl⟩
    · obtain ⟨rfl, rfl⟩ := Prod.mk.inj (Option.some.inj ‹some (job, files) = _›)
      obtain rfl := Option.some.inj made
      exact ⟨saves, rfl⟩
    · cases made
  | _ => cases made

/-- What an outcome asks for is about the clip it leaves. An operation asks about the board it
leaves, and so does the end of a job that made a clip. -/
theorem outcome_asks (state : FileService Id Hash) (label : Label Id Hash)
    (outcome : Outcome Id Hash) (made : state.outcome label = some outcome) :
    (∀ stamp, Effect.fetch stamp ∈ effectsOf outcome → outcome.1.head = stamp) ∧
      ∀ serves, Effect.backend (.offer serves) ∈ effectsOf outcome →
        ∃ stamp copy, outcome.1.current = some (stamp, copy) ∧ serves = outcome.1.offered copy := by
  have events : ∀ event, outcome = state.service.board.step event →
      (∀ stamp, Effect.fetch stamp ∈ effectsOf outcome → outcome.1.head = stamp) ∧
        ∀ serves, Effect.backend (.offer serves) ∈ effectsOf outcome →
          ∃ stamp copy, outcome.1.current = some (stamp, copy) ∧ serves = outcome.1.offered copy := by
    rintro event rfl
    exact ⟨state.service.board.step_fetches event, state.service.board.step_offers event⟩
  cases label with
  | change saves event => exact events event (Option.some.inj made).symm
  | landed saves =>
    obtain ⟨fetch, _, shape⟩ := Option.map_eq_some_iff.mp made
    exact events _ shape.symm
  | settle saves clock =>
    simp only [FileService.outcome] at made
    split at made
    · rename_i base capture paths files spool
      obtain dropped | recorded :=
        record_cases clock base state.recorded capture (files.getD []) state.service.board
      · rw [dropped] at made
        obtain rfl := Option.some.inj made
        constructor
        · intro stamp none_asked
          cases none_asked
        · intro serves none_offered
          cases none_offered
      · exact events _ ((Option.some.inj made).symm.trans recorded)
    · exact events _ (Option.some.inj made).symm
    · cases made
  | _ => cases made

omit [EndpointText Id] in
/-- The end of a job turns the clip or leaves it. A report that was overtaken or comes to nothing
leaves it, and any other outcome is that of an event. -/
theorem settle_turned (saves : Bool) (clock : Clock) (state : FileService Id Hash) (job : Job Id)
    (files : Option (List (Files.FileRef Hash))) :
    Clipboard.Turned state.service.board (settle saves clock state job files).service.board := by
  cases job with
  | record base capture paths =>
    change Clipboard.Turned _ (state.service.tryChange saves _).1.board
    rw [Service.tryChange_board]
    obtain dropped | recorded :=
      record_cases clock base state.recorded capture (files.getD []) state.service.board
    · rw [dropped]
      exact Clipboard.Turned.refl _
    · rw [recorded]
      exact Clipboard.step_turned _ _ (by simp) (by simp)
  | copy paths ttl =>
    cases files with
    | none => exact Clipboard.Turned.refl _
    | some files =>
      change Clipboard.Turned _ (state.service.tryChange saves _).1.board
      rw [Service.tryChange_board]
      exact Clipboard.step_turned _ (.copy clock _ _ false _) (by simp) (by simp)
  | fetch stamp => exact Clipboard.Turned.refl _
  | sweep => exact Clipboard.Turned.refl _

omit [EndpointText Id] [LinearOrder Id] [DecidableEq Hash] [ContentHash Hash] in
/-- What is queued for an outcome was queued before, or it asked for it. -/
theorem fetch_asked (saves : Bool) (service : Service Id Hash) (outcome : Outcome Id Hash)
    (stamp : Stamp Id) (queued : Job.fetch stamp ∈ (service.tryChange saves outcome).1.jobs) :
    Job.fetch stamp ∈ service.jobs ∨ Effect.fetch stamp ∈ effectsOf outcome := by
  rw [Service.tryChange_jobs, List.mem_append] at queued
  refine queued.imp_right (fun among => ?_)
  obtain ⟨effect, member, isFetch⟩ := List.mem_filterMap.mp among
  cases effect with
  | save => cases isFetch
  | backend command => cases isFetch
  | fetch other =>
    obtain rfl : other = stamp := by simpa [Service.jobOf] using isFetch
    exact member

omit [LinearOrder Id] [DecidableEq Hash] [ContentHash Hash] in
/-- A fetch is as far as it was where what it linked is kept. In the phases before it links,
nothing is there to keep. -/
theorem Along.keeps (before after : Store Hash) (stamp : Stamp Id) (files : List (Files.FileRef Hash))
    (running : Fetch Id Hash) (along : Along before stamp files running)
    (keeps : (∃ rest, running.phase = .linking rest) ∨ running.phase = .laid →
      Store.Keeps stamp.fileName
        (fun hash => ∃ file ∈ files, file.hash = hash ∧ before.Linked stamp.fileName file)
        before after) : Along after stamp files running := by
  obtain ⟨own, wanted, phase⟩ := running
  cases phase with
  | linking rest =>
    obtain ⟨done, split, laid⟩ := along
    refine ⟨done, split, laidOut_keeps before after stamp files done (keeps (Or.inl ⟨rest, rfl⟩)) ?_ laid⟩
    rw [split]
    exact List.subset_append_left done rest
  | laid =>
    exact laidOut_keeps before after stamp files files (keeps (Or.inr rfl)) (List.Subset.refl _) along
  | _ => exact along

/-- A move of the fetch for the clip gets along: it links what the clip names, one
file after another, and is done when all of them are in the tree. -/
theorem Along.step (board : Clipboard Id Hash) (store after : Store Hash) (fetch moved : Fetch Id Hash)
    (move : Move) (copy : Copy Hash) (current : board.current = some (fetch.stamp, copy))
    (along : Along store fetch.stamp copy.files fetch)
    (stepped : fetch.step board store move = some (moved, after)) :
    Along after fetch.stamp copy.files moved := by
  have moves := Fetch.step_moves board store after fetch moved move stepped
  obtain ⟨stamp, files, phase⟩ := fetch
  dsimp only at current
  cases moves with
  | wanted wants =>
    change board.wanted stamp = copy.files
    unfold Clipboard.wanted at wants ⊢
    rw [current] at wants ⊢
    dsimp only at wants ⊢
    split
    · rfl
    · rename_i unwanted
      rw [if_neg unwanted] at wants
      exact absurd (Or.inl rfl) wants
  | planted =>
    have named : files = copy.files := along
    exact ⟨[], by rw [named, List.nil_append], fun _ none_linked => nomatch none_linked⟩
  | laid =>
    obtain ⟨done, split, laid⟩ := along
    rw [List.append_nil] at split
    change store.LaidOut stamp.fileName copy.files
    rw [split]
    exact laid
  | linked file rest made =>
    obtain ⟨done, split, laid⟩ := along
    obtain ⟨keeps, links⟩ := store.linkIn_spec stamp.fileName
      (fun hash => ∃ file ∈ copy.files, file.hash = hash ∧ store.Linked stamp.fileName file) stamp file
    refine ⟨done ++ [file], by rw [split, List.append_assoc, List.singleton_append], ?_⟩
    intro other member
    obtain before | isFile := List.mem_append.mp member
    · refine laidOut_keeps store _ stamp copy.files done keeps ?_ laid other before
      rw [split]
      exact List.subset_append_left done _
    · rw [List.mem_singleton.mp isFile]
      exact links made
  | unwanted | unlinked | gaveUp => exact trivial
  -- The rest goes on with the files it has.
  | _ => exact along

omit [LinearOrder Id] [DecidableEq Hash] [ContentHash Hash] [EndpointText Id] in
/-- A tree that others may look at is the clip's, or its fetch is at it. -/
theorem Exposed.held (state : FileService Id Hash) (stamp : Stamp Id) (exposed : Exposed state stamp) :
    Held state stamp := by
  obtain treed | ⟨fetch, isFetch, own, _⟩ := exposed
  · exact Or.inl treed
  · exact Or.inr ⟨fetch, isFetch, own⟩

namespace Housed
variable {state next : FileService Id Hash}

omit [DecidableEq Hash] [ContentHash Hash] in
/-- It goes on where the clip at most turns, the fetch stays as it is, and what
happens to the spool keeps what is linked in the tree of the clip. -/
theorem onward (housed : Housed state)
    (turned : Clipboard.Turned state.service.board next.service.board)
    (asked : ∀ stamp, Job.fetch stamp ∈ next.service.jobs →
      Job.fetch stamp ∈ state.service.jobs ∨ next.service.board.head = stamp)
    (fetch : next.fetch = state.fetch)
    (told : next.service.board.clip = state.service.board.clip →
      Told state.service.board state.loop → Told next.service.board next.loop)
    (keeps : ∀ stamp copy, state.service.board.current = some (stamp, copy) → Exposed state stamp →
      Store.Keeps stamp.fileName
        (fun hash => ∃ file ∈ copy.files, file.hash = hash ∧ state.store.Linked stamp.fileName file)
        state.store next.store) : Housed next := by
  -- A clip with a tree or a fetch is not a new one.
  have same : ∀ stamp copy, next.service.board.current = some (stamp, copy) → Held next stamp →
      state.service.board.current = some (stamp, copy) ∧
        next.service.board.clip = state.service.board.clip ∧
        next.service.board.tree = state.service.board.tree := by
    intro stamp copy current held
    obtain ⟨clip, tree⟩ | ⟨bare, newer⟩ := turned.tree
    · refine ⟨?_, clip, tree⟩
      rw [Clipboard.current_iff] at current ⊢
      exact clip ▸ current
    · exfalso
      obtain treed | ⟨running, isFetch, rfl⟩ := held
      · rw [bare] at treed
        cases treed
      · rw [fetch] at isFetch
        exact not_lt_of_ge (housed.seen running isFetch) (newer running.stamp copy current)
  have heldBefore : ∀ stamp copy, next.service.board.current = some (stamp, copy) →
      Held next stamp → Held state stamp := by
    intro stamp copy current held
    obtain ⟨_, _, tree⟩ := same stamp copy current held
    obtain treed | running := held
    · exact Or.inl (tree ▸ treed)
    · exact Or.inr (fetch ▸ running)
  refine ⟨?_, ?_, ?_, ?_, ?_⟩
  · intro stamp queued
    obtain before | isHead := asked stamp queued
    · exact (housed.asked stamp before).trans turned.onward.head_le
    · exact isHead.ge
  · intro running isFetch
    rw [fetch] at isFetch
    exact (housed.seen running isFetch).trans turned.onward.head_le
  · intro stamp copy current held
    obtain ⟨before, clip, _⟩ := same stamp copy current held
    exact told clip (housed.told stamp copy before (heldBefore stamp copy current held))
  · intro stamp copy running current isFetch own
    obtain ⟨before, _, _⟩ := same stamp copy current (Or.inr ⟨running, isFetch, own⟩)
    rw [fetch] at isFetch
    refine (housed.along stamp copy running before isFetch own).keeps _ _ stamp copy.files running ?_
    intro links
    exact keeps stamp copy before (Or.inr ⟨running, isFetch, own, links⟩)
  · intro stamp copy current treed
    obtain ⟨before, _, tree⟩ := same stamp copy current (Or.inl treed)
    rw [tree] at treed
    obtain ⟨laid, resting⟩ := housed.offered stamp copy before treed
    refine ⟨laidOut_keeps state.store next.store stamp copy.files copy.files
      (keeps stamp copy before (Or.inl treed)) (List.Subset.refl _) laid, ?_⟩
    rw [fetch]
    exact resting

omit [DecidableEq Hash] [ContentHash Hash] in
/-- It goes on where neither the clipboard nor the spool is touched and no fetch is
asked for. -/
theorem left (housed : Housed state) (board : next.service.board = state.service.board)
    (asked : ∀ stamp, Job.fetch stamp ∈ next.service.jobs → Job.fetch stamp ∈ state.service.jobs)
    (store : next.store = state.store) (fetch : next.fetch = state.fetch)
    (told : Told state.service.board state.loop → Told state.service.board next.loop) :
    Housed next := by
  refine housed.onward ?_ (fun stamp queued => Or.inl (asked stamp queued)) fetch ?_ ?_
  · rw [board]
    exact Clipboard.Turned.refl _
  · intro _ before
    rw [board]
    exact told before
  · intro stamp copy _ _
    rw [store]
    exact Store.Keeps.refl _ _ _

/-- A step that hands over an outcome which at most turns the clip. The outcome asks for a fetch
or an offer only about the clip it leaves, and the store and the fetch are as they were. -/
theorem handed (housed : Housed state) (label : Label Id Hash) (outcome : Outcome Id Hash)
    (made : state.outcome label = some outcome) (taken : state.step label = some next)
    (turned : Clipboard.Turned state.service.board next.service.board)
    (store : next.store = state.store) (fetch : next.fetch = state.fetch)
    (told : next.service.board.clip = state.service.board.clip →
      Told state.service.board state.loop → Told next.service.board next.loop) : Housed next := by
  obtain ⟨saves, performed⟩ := step_performs state next label outcome made taken
  refine housed.onward turned ?_ fetch told ?_
  · intro stamp queued
    rw [performed] at queued ⊢
    rw [Service.tryChange_board]
    refine (fetch_asked saves state.service outcome stamp queued).imp_right ?_
    exact (outcome_asks state label outcome made).1 stamp
  · intro stamp copy _ _
    rw [store]
    exact Store.Keeps.refl _ _ _

/-- A fetch beside an offered tree wants nothing. What it would want is withheld while the tree is
there, so it ends at its next move and touches nothing. -/
theorem rests (board : Clipboard Id Hash) (store after : Store Hash) (fetch moved : Fetch Id Hash)
    (move : Move) (treed : board.tree.isSome = true)
    (resting : fetch.phase = .called ∨ fetch.phase = .ended)
    (stepped : fetch.step board store move = some (moved, after)) :
    moved.phase = .ended ∧ after = store := by
  have unwanted : board.wanted fetch.stamp = [] := by
    unfold Clipboard.wanted
    split
    · refine if_neg ?_
      rintro ⟨_, bare⟩
      rw [Option.isNone_iff_eq_none] at bare
      rw [bare] at treed
      cases treed
    · rfl
  have moves := Fetch.step_moves board store after fetch moved move stepped
  obtain ⟨stamp, files, phase⟩ := fetch
  obtain rfl | rfl : phase = .called ∨ phase = .ended := resting
  · cases moves with
    | unwanted => exact ⟨rfl, rfl⟩
    | wanted wants => exact absurd (Or.inl unwanted) wants
  · cases moves

end Housed

/-- A fetch that has linked everything hands over the tree of its clip, if that is
still the head. -/
theorem landed_housed (saves : Bool) (state : FileService Id Hash) (running : Fetch Id Hash)
    (housed : Housed state) (isFetch : state.fetch = some running) (laid : running.phase = .laid) :
    Housed { state with
      service := state.service.act saves
        (.materialized running.stamp (state.treeOf running.stamp))
      fetch := some { running with phase := .ended } } := by
  let tree := state.treeOf running.stamp
  let outcome := state.service.board.step (.materialized running.stamp tree)
  have made : state.outcome (.landed saves) = some outcome := by
    rw [FileService.outcome, isFetch, Option.map_some]
  have acted : state.service.act saves (.materialized running.stamp tree) =
      (state.service.tryChange saves outcome).1 := rfl
  have board : (state.service.act saves (.materialized running.stamp tree)).board = outcome.1 := by
    rw [acted, Service.tryChange_board]
  have clip : outcome.1.clip = state.service.board.clip := by
    obtain ⟨_, ignored⟩ | ⟨_, landed⟩ :=
      Clipboard.materialized_cases running.stamp tree state.service.board
    · change (state.service.board.materialized running.stamp tree).1.clip = _
      rw [ignored]
    · change (state.service.board.materialized running.stamp tree).1.clip = _
      rw [landed, Clipboard.apply_clip]
  have head := Clipboard.head_congr outcome.1 state.service.board clip
  have same : ∀ stamp copy, outcome.1.current = some (stamp, copy) →
      state.service.board.current = some (stamp, copy) := by
    intro stamp copy current
    rw [Clipboard.current_iff] at current ⊢
    exact clip ▸ current
  -- The tree is new for the clip of this fetch, and was there before for any other.
  have treed : ∀ stamp copy, state.service.board.current = some (stamp, copy) →
      outcome.1.tree.isSome = true →
        running.stamp = stamp ∨ state.service.board.tree.isSome = true := by
    intro stamp copy current there
    obtain ⟨_, ignored⟩ | ⟨isHead, _⟩ :=
      Clipboard.materialized_cases running.stamp tree state.service.board
    · right
      change (state.service.board.materialized running.stamp tree).1.tree.isSome = true at there
      rw [ignored] at there
      exact there
    · left
      rw [Clipboard.head_of_current _ stamp copy current] at isHead
      exact (WithBot.coe_injective isHead).symm
  refine ⟨?_, ?_, ?_, ?_, ?_⟩
  · intro stamp queued
    rw [board, head]
    dsimp only at queued
    rw [acted] at queued
    obtain before | isAsked := fetch_asked saves state.service outcome stamp queued
    · exact housed.asked stamp before
    · rw [← head]
      exact ((outcome_asks state _ outcome made).1 stamp isAsked).ge
  · intro fetch isNext
    obtain rfl := Option.some.inj isNext
    rw [board, head]
    exact housed.seen running isFetch
  · intro stamp copy current held
    rw [board] at current ⊢
    have before := same stamp copy current
    refine Told.congr _ _ state.loop clip (housed.told stamp copy before ?_)
    obtain there | ⟨fetch, isNext, own⟩ := held
    · rw [board] at there
      obtain own | stood := treed stamp copy before there
      · exact Or.inr ⟨running, isFetch, own⟩
      · exact Or.inl stood
    · obtain rfl := Option.some.inj isNext
      exact Or.inr ⟨running, isFetch, own⟩
  · intro stamp copy fetch _ isNext _
    obtain rfl := Option.some.inj isNext
    exact trivial
  · intro stamp copy current there
    rw [board] at current there
    have before := same stamp copy current
    refine ⟨?_, ?_⟩
    · obtain own | stood := treed stamp copy before there
      · have along := housed.along stamp copy running before isFetch own
        unfold Along at along
        rw [laid] at along
        exact along
      · exact (housed.offered stamp copy before stood).1
    · intro fetch isNext
      obtain rfl := Option.some.inj isNext
      exact Or.inr rfl

/-- Every step keeps what carries the result, as long as the threads left behind spare
the tree. -/
theorem step_housed (state next : FileService Id Hash) (label : Label Id Hash)
    (housed : Housed state) (undisturbed : Undisturbed state label)
    (taken : state.step label = some next) : Housed next := by
  cases step_took state next label taken with
  | changed saves event outside =>
    refine housed.handed (.change saves event) _ rfl taken ?_ rfl rfl ?_
    · have running := running_of_outside event outside
      change Clipboard.Turned _ (state.service.act saves event).board
      rw [Service.act_running saves state.service event running, Service.tryChange_board]
      refine Clipboard.step_turned _ event running ?_
      rintro ⟨stamp, tree, rfl⟩
      cases outside
    · intro clip told
      exact told.congr _ _ state.loop clip
  | copied capture paths =>
    refine housed.left rfl ?_ rfl rfl id
    intro stamp queued
    simpa [Service.send] using queued
  | copyAsked paths ttl =>
    refine housed.left rfl ?_ rfl rfl id
    intro stamp queued
    simpa [Service.send] using queued
  | fetchAsked stamp head =>
    refine housed.onward (Clipboard.Turned.refl _) ?_ rfl (fun _ told => told)
      (fun _ _ _ _ => Store.Keeps.refl _ _ _)
    intro other queued
    obtain before | isAsked := List.mem_append.mp queued
    · exact Or.inl before
    · obtain rfl : other = stamp := by simpa using isAsked
      exact Or.inr head
  | restarted saves clock settings stray store left =>
    have bare : (state.service.act saves (.restart clock settings)).board.tree = none := by
      rw [Service.act_restart, Service.opened_board]
      exact Clipboard.new_tree _ _ _ _
    refine ⟨?_, ?_, fun _ _ _ _ => trivial, ?_, ?_⟩
    · intro stamp queued
      rw [Service.act_restart, Service.opened_jobs] at queued
      cases List.mem_singleton.mp queued
    · intro fetch none_running
      cases none_running
    · intro stamp copy fetch _ none_running
      cases none_running
    · intro stamp copy _ treed
      dsimp only at treed
      rw [bare] at treed
      cases treed
  | started job jobs idle queued =>
    have popped : Housed { state with service := { state.service with jobs } } := by
      refine housed.left rfl ?_ rfl rfl id
      intro stamp waiting
      rw [queued]
      exact List.mem_cons_of_mem job waiting
    cases job with
    | record base capture paths =>
      simp only [takeJob]
      split
      · exact popped.left rfl (fun _ waiting => waiting) rfl rfl (fun _ => trivial)
      · exact popped.left rfl (fun _ waiting => waiting) rfl rfl (fun _ => trivial)
    | copy paths ttl =>
      exact popped.left rfl (fun _ waiting => waiting) rfl rfl (fun _ => trivial)
    | fetch stamp =>
      simp only [takeJob]
      split
      · exact popped
      · refine ⟨popped.asked, ?_, ?_, ?_, ?_⟩
        · intro fetch isFetch
          obtain rfl := Option.some.inj isFetch
          refine housed.asked stamp ?_
          rw [queued]
          exact List.mem_cons_self
        · intro stamp copy _ _
          rw [idle]
          exact trivial
        · intro other copy fetch _ isFetch _
          obtain rfl := Option.some.inj isFetch
          exact trivial
        · intro other copy current treed
          refine ⟨(popped.offered other copy current treed).1, ?_⟩
          intro fetch isFetch
          obtain rfl := Option.some.inj isFetch
          exact Or.inl rfl
    | sweep =>
      exact popped.left rfl (fun _ waiting => waiting) rfl rfl (fun _ => trivial)
  | walked job found loop walking leads =>
    refine housed.left rfl (fun _ queued => queued) rfl rfl (fun _ => ?_)
    obtain rfl | ⟨left, rfl⟩ := leads <;> exact trivial
  | took job path left taken tag source hash size spooling =>
    exact housed.onward (Clipboard.Turned.refl _) (fun _ queued => Or.inl queued) rfl
      (fun _ _ => trivial) (fun _ _ _ _ => Store.Keeps.take _ _ state.store tag source)
  | untaken job path left taken tag source spooling =>
    exact housed.onward (Clipboard.Turned.refl _) (fun _ queued => Or.inl queued) rfl
      (fun _ _ => trivial) (fun _ _ _ _ => Store.Keeps.take _ _ state.store tag source)
  | settled saves clock job files spool =>
    obtain ⟨_, _, _, sameStore, ended, sameFetch, _⟩ := settle_spec saves clock state job files
    have turned := settle_turned saves clock state job files
    cases made : state.outcome (.settle saves clock) with
    | some outcome =>
      refine housed.handed (.settle saves clock) outcome made taken turned sameStore sameFetch ?_
      intro _ _
      rw [ended]
      exact trivial
    | none =>
      -- The job ends without a clip to make.
      have alone : (settle saves clock state job files).service = state.service := by
        simp only [FileService.outcome, spool] at made
        cases job with
        | record base capture paths => cases made
        | copy paths ttl =>
          cases files with
          | none => rfl
          | some files => cases made
        | fetch stamp => rfl
        | sweep => rfl
      refine housed.left (congrArg Service.board alone) ?_ sameStore sameFetch ?_
      · intro stamp queued
        rw [alone] at queued
        exact queued
      · intro _
        rw [ended]
        exact trivial
  | sweeping phase goes atPhase goesOn =>
    refine housed.left rfl (fun _ queued => queued) rfl rfl (fun told => ?_)
    rw [atPhase] at told
    cases phase with
    | called =>
      obtain rfl := Option.some.inj goesOn
      exact rfl
    | referenced live content =>
      obtain rfl := Option.some.inj goesOn
      exact told
    | trees live content left =>
      simp only [FileService.sweep, Option.ite_none_right_eq_some, Option.some.injEq] at goesOn
      obtain ⟨_, rfl⟩ := goesOn
      exact congrArg Prod.snd told
    | blobs content left => cases goesOn
  | swept content done =>
    exact housed.left rfl (fun _ queued => queued) rfl rfl (fun _ => trivial)
  | treeSwept live content left tree atPhase listed =>
    refine housed.onward (Clipboard.Turned.refl _) (fun _ queued => Or.inl queued) rfl ?_ ?_
    · intro _ told
      rw [atPhase] at told
      exact told
    · intro stamp copy current exposed
      have told := housed.told stamp copy current exposed.held
      rw [atPhase] at told
      have keeping : (live, content) = _ := told
      rw [Clipboard.referenced_of_current _ stamp copy current] at keeping
      obtain ⟨rfl, _⟩ := Prod.mk.inj keeping
      exact Store.Keeps.sweepTree _ state.store stamp tree
  | blobSwept content left name atPhase listed =>
    refine housed.onward (Clipboard.Turned.refl _) (fun _ queued => Or.inl queued) rfl ?_ ?_
    · intro _ told
      rw [atPhase] at told
      exact told
    · intro stamp copy current exposed
      have told := housed.told stamp copy current exposed.held
      rw [atPhase] at told
      have keeping : content = _ := told
      rw [Clipboard.referenced_of_current _ stamp copy current] at keeping
      subst keeping
      refine Store.Keeps.sweepBlob _ _ state.store _ name ?_
      rintro hash ⟨file, member, rfl, _⟩
      exact List.mem_map_of_mem member
  | fetched running moved move after isFetch stepped =>
    have law := Fetch.step_spec state.service.board state.store running after moved move stepped
    refine ⟨housed.asked, ?_, ?_, ?_, ?_⟩
    · intro other isNext
      obtain rfl := Option.some.inj isNext
      rw [law.stamp]
      exact housed.seen running isFetch
    · intro stamp copy current held
      refine housed.told stamp copy current (held.imp_right ?_)
      rintro ⟨other, isNext, rfl⟩
      obtain rfl := Option.some.inj isNext
      exact ⟨running, isFetch, law.stamp.symm⟩
    · intro stamp copy other current isNext own
      obtain rfl := Option.some.inj isNext
      rw [law.stamp] at own
      subst own
      have along := housed.along running.stamp copy running current isFetch rfl
      exact along.step _ state.store after running moved move copy current stepped
    · intro stamp copy current treed
      obtain ⟨laid, resting⟩ := housed.offered stamp copy current treed
      obtain ⟨ended, rfl⟩ := Housed.rests _ state.store after running moved move treed
        (resting running isFetch) stepped
      refine ⟨laid, fun other isNext => ?_⟩
      obtain rfl := Option.some.inj isNext
      exact Or.inr ended
  | landed saves running isFetch laid =>
    exact landed_housed saves state running housed isFetch laid
  | ran index other work listed =>
    have spares := undisturbed other work listed
    have kept : Housed { state with store := (work.run other state.store).2 } := housed.onward
      (Clipboard.Turned.refl _) (fun _ queued => Or.inl queued) rfl (fun _ told => told)
      (fun stamp copy current exposed =>
        run_keeps state.store stamp other copy.files work (spares stamp copy current exposed))
    exact ⟨kept.asked, kept.seen, kept.told, kept.along, kept.offered⟩

omit [DecidableEq Hash] in
/-- Nothing is fetched yet. The tree is gone with the process that laid it out, and no fetch is
queued or running. -/
theorem start_housed (saves : Bool) (clock : Clock) (identity : Id)
    (settings : Settings) (trees : Path) :
    Housed (start saves clock identity settings trees : FileService Id Hash) := by
  have bare :
      (start saves clock identity settings trees : FileService Id Hash).service.board.tree = none := by
    rw [start, Service.opened_board]
    exact Clipboard.new_tree _ _ _ _
  refine ⟨?_, ?_, fun _ _ _ _ => trivial, ?_, ?_⟩
  · intro stamp queued
    rw [start, Service.opened_jobs] at queued
    cases List.mem_singleton.mp queued
  · intro fetch none_running
    cases none_running
  · intro stamp copy fetch _ none_running
    cases none_running
  · intro stamp copy _ treed
    rw [bare] at treed
    cases treed

/-- A clip that was there with its tree is there with its tree, or not at all. -/
structure Stays (stamp : Stamp Id) (copy : Copy Hash) (state : FileService Id Hash) : Prop where
  seen : (stamp : WithBot (Stamp Id)) ≤ state.service.board.head
  treed : state.service.board.current = some (stamp, copy) →
    state.service.board.tree.isSome = true

omit [EndpointText Id] [DecidableEq Hash] [ContentHash Hash] in
/-- It goes on where the clipboard keeps its tree or changes its clip. -/
theorem Stays.turned (stamp : Stamp Id) (copy : Copy Hash) (state next : FileService Id Hash)
    (stays : Stays stamp copy state)
    (turned : Clipboard.Turned state.service.board next.service.board) : Stays stamp copy next where
  seen := stays.seen.trans turned.onward.head_le
  treed current := by
    obtain ⟨before, tree⟩ := turned.kept _ _ stamp copy stays.seen current
    rw [tree]
    exact stays.treed before

/-- Until a restart, a step leaves a clip with its tree, or takes the clip. The clip keeps the
tree it has until it is overtaken, and a stamp that is overtaken is never held again. -/
theorem step_stays (stamp : Stamp Id) (copy : Copy Hash) (state next : FileService Id Hash)
    (label : Label Id Hash) (stays : Stays stamp copy state)
    (running : ∀ saves clock settings stray, label ≠ .restart saves clock settings stray)
    (taken : state.step label = some next) : Stays stamp copy next := by
  cases step_touched state next label taken with
  | changed saves event outside _ acted =>
    refine stays.turned stamp copy state next ?_
    have runs := running_of_outside event outside
    rw [acted, Service.act_running saves state.service event runs, Service.tryChange_board]
    refine Clipboard.step_turned _ event runs ?_
    rintro ⟨other, tree, rfl⟩
    cases outside
  | restarted saves clock settings stray isRestart =>
    exact absurd isRestart (running saves clock settings stray)
  | landed saves other _ acted =>
    have board : next.service.board =
        (state.service.board.materialized other (state.treeOf other)).1 := by
      rw [acted, Service.act_running saves _ _ (running_of_materialized other _),
        Service.tryChange_board]
      rfl
    obtain ⟨_, ignored⟩ | ⟨_, landed⟩ :=
      Clipboard.materialized_cases other (state.treeOf other) state.service.board
    · rw [ignored] at board
      refine ⟨?_, ?_⟩
      · rw [board]
        exact stays.seen
      · rw [board]
        exact stays.treed
    · rw [landed] at board
      refine ⟨?_, ?_⟩
      · rw [board, Clipboard.apply_head]
        exact stays.seen
      · intro _
        rw [board, Clipboard.apply_tree]
        rfl
  | settled saves clock job files _ _ ended =>
    subst ended
    exact stays.turned stamp copy state _ (settle_turned saves clock state job files)
  | untouched board =>
    refine stays.turned stamp copy state next ?_
    rw [board]
    exact Clipboard.Turned.refl _

/-- The tree the clipboard holds is the one of its clip, where the spool has its trees. -/
structure Rooted (trees : Path) (state : FileService Id Hash) : Prop where
  unmoved : state.trees = trees
  own : ∀ (tree : Path) (stamp : Stamp Id), state.service.board.tree = some tree →
    state.service.board.head = stamp → tree = Files.join trees stamp.fileName

omit [DecidableEq Hash] [ContentHash Hash] in
/-- A clip that at most turns keeps its tree, or has none. -/
theorem Rooted.turned (trees : Path) (state next : FileService Id Hash) (rooted : Rooted trees state)
    (unmoved : next.trees = state.trees)
    (turned : Clipboard.Turned state.service.board next.service.board) : Rooted trees next where
  unmoved := unmoved.trans rooted.unmoved
  own tree stamp isTree isHead := by
    obtain ⟨clip, same⟩ | ⟨bare, _⟩ := turned.tree
    · rw [Clipboard.head_congr _ _ clip] at isHead
      exact rooted.own tree stamp (same ▸ isTree) isHead
    · rw [bare] at isTree
      cases isTree

/-- The tree that is handed over is the one `lay_out` returned for the clip. A fetch hands the
board the path of its stamp's tree, a restart and a newer clip leave it without one, and nothing
else touches it. -/
theorem step_rooted (trees : Path) (state next : FileService Id Hash) (label : Label Id Hash)
    (rooted : Rooted trees state) (taken : state.step label = some next) : Rooted trees next := by
  have unmoved := step_trees state next label taken
  cases step_touched state next label taken with
  | changed saves event outside _ acted =>
    refine rooted.turned trees state next unmoved ?_
    have runs := running_of_outside event outside
    rw [acted, Service.act_running saves state.service event runs, Service.tryChange_board]
    refine Clipboard.step_turned _ event runs ?_
    rintro ⟨other, tree, rfl⟩
    cases outside
  | restarted saves clock settings stray _ acted =>
    refine ⟨unmoved.trans rooted.unmoved, ?_⟩
    intro tree stamp isTree
    rw [acted, Service.act_restart, Service.opened_board, Clipboard.new_tree] at isTree
    cases isTree
  | landed saves other _ acted =>
    have board : next.service.board =
        (state.service.board.materialized other (state.treeOf other)).1 := by
      rw [acted, Service.act_running saves _ _ (running_of_materialized other _),
        Service.tryChange_board]
      rfl
    refine ⟨unmoved.trans rooted.unmoved, ?_⟩
    intro tree stamp isTree isHead
    rw [board] at isTree isHead
    obtain ⟨_, ignored⟩ | ⟨same, landed⟩ :=
      Clipboard.materialized_cases other (state.treeOf other) state.service.board
    · rw [ignored] at isTree isHead
      exact rooted.own tree stamp isTree isHead
    · rw [landed, Clipboard.apply_tree] at isTree
      rw [landed, Clipboard.apply_head] at isHead
      obtain rfl : other = stamp := WithBot.coe_injective (same.symm.trans isHead)
      obtain rfl := Option.some.inj isTree
      rw [treeOf, rooted.unmoved]
  | settled saves clock job files _ _ ended =>
    refine rooted.turned trees state next unmoved ?_
    rw [ended]
    exact settle_turned saves clock state job files
  | untouched board =>
    refine rooted.turned trees state next unmoved ?_
    rw [board]
    exact Clipboard.Turned.refl _

omit [DecidableEq Hash] in
/-- The folder of the trees is the one the service was started with. -/
theorem start_rooted (saves : Bool) (clock : Clock) (identity : Id) (settings : Settings)
    (trees : Path) :
    Rooted trees (start saves clock identity settings trees : FileService Id Hash) where
  unmoved := rfl
  own tree stamp isTree := by
    rw [start, Service.opened_board, Clipboard.new_tree] at isTree
    cases isTree

omit [LinearOrder Id] [EndpointText Id] [DecidableEq Hash] [ContentHash Hash] in
/-- What names files of a rehomed copy names those in its tree. -/
theorem rehomed_names (copy : Copy Hash) (tree : Path) (rep : Rep)
    (member : rep ∈ (rehomed copy tree).reps) (names : Mime.isLocal rep.mime = true) :
    rep ∈ (Selection.ofFiles (copy.files.map (fun file => Files.join tree file.path))).reps := by
  rw [rehomed, Selection.reps, ← List.cons_append, List.mem_append] at member
  obtain own | carried := member
  · exact own
  · obtain ⟨_, kept⟩ := List.mem_filter.mp carried
    simp [names] at kept

/-- An offer that announces file types for a clip of another machine is made when every
file the clip names is in the tree of the clip's stamp, as a link to the content it names;
the paths it announces are those of these files in that tree; and the files all stay there
for as long as the clip does, in every run whose threads spare the tree. -/
theorem announced_files_are_laid_out (saves : Bool) (clock : Clock) (identity : Id)
    (settings : Settings) (trees : Path) (early late : List (Label Id Hash)) (label : Label Id Hash)
    (state next last : FileService Id Hash)
    (guarded : Runs.Guarded step Undisturbed (start saves clock identity settings trees)
      (early ++ label :: late))
    (before : Runs.run step (start saves clock identity settings trees) early = some state)
    (taken : state.step label = some next) (after : Runs.run step next late = some last)
    (running : ∀ saves clock settings stray, .restart saves clock settings stray ∉ late)
    (outcome : Outcome Id Hash) (made : state.outcome label = some outcome) (serves : List Serve)
    (offered : Effect.backend (.offer serves) ∈ effectsOf outcome)
    (files : announcesFiles serves = true) (foreign : next.service.board.isOurs = false) :
    ∃ stamp copy, next.service.board.current = some (stamp, copy) ∧
      serves = next.service.board.offered copy ∧
      next.service.board.carried copy = rehomed copy (Files.join trees stamp.fileName) ∧
      (∀ rep ∈ (next.service.board.carried copy).reps, Mime.isLocal rep.mime = true →
        rep ∈ (Selection.ofFiles (copy.files.map (fun file =>
          Files.join (Files.join trees stamp.fileName) file.path))).reps) ∧
      next.store.LaidOut stamp.fileName copy.files ∧
      (last.service.board.current = some (stamp, copy) →
        last.store.LaidOut stamp.fileName copy.files) := by
  have housed : ∀ (labels : List (Label Id Hash)) (reaches : FileService Id Hash),
      Runs.Guarded step Undisturbed (start saves clock identity settings trees) labels →
      Runs.run step (start saves clock identity settings trees) labels = some reaches → Housed reaches :=
    fun labels reaches sparing reached => Runs.guarded_invariant step Undisturbed Housed
      (fun state label next housed spares taken => step_housed state next label housed spares taken)
      _ reaches labels (start_housed saves clock identity settings trees) sparing reached
  -- The run to the state after the offer, and on to the last one.
  have upTo : Runs.run step (start saves clock identity settings trees) (early ++ [label]) = some next :=
    (Runs.run_concat_iff ..).mpr ⟨state, before, taken⟩
  have whole : Runs.run step (start saves clock identity settings trees) (early ++ label :: late) =
      some last :=
    (Runs.run_through_iff ..).mpr ⟨state, next, before, taken, after⟩
  have first : Runs.Guarded step Undisturbed (start saves clock identity settings trees)
      (early ++ [label]) := by
    rw [List.append_cons] at guarded
    exact ((Runs.guarded_append_iff _ _ _ _ _).mp guarded).1
  have here := housed (early ++ [label]) next first upTo
  have there := housed (early ++ label :: late) last guarded whole
  obtain ⟨save, performed⟩ := step_performs state next label outcome made taken
  have board : next.service.board = outcome.1 := by rw [performed, Service.tryChange_board]
  obtain ⟨stamp, copy, current, shown⟩ := (outcome_asks state label outcome made).2 serves offered
  rw [← board] at current shown
  have treed : next.service.board.tree.isSome = true :=
    Clipboard.offered_files _ copy (shown ▸ files) foreign
  obtain ⟨tree, isTree⟩ := Option.isSome_iff_exists.mp treed
  have rooted : Rooted trees next := Runs.run_invariant step (Rooted trees)
    (fun state label next held taken => step_rooted trees state next label held taken)
    _ _ _ (start_rooted saves clock identity settings trees) upTo
  have carried : next.service.board.carried copy =
      rehomed copy (Files.join trees stamp.fileName) := by
    rw [← rooted.own tree stamp isTree (Clipboard.head_of_current _ stamp copy current)]
    simp only [Clipboard.carried, isTree]
  refine ⟨stamp, copy, current, shown, carried, ?_, (here.offered stamp copy current treed).1, ?_⟩
  · intro rep member names
    rw [carried] at member
    exact rehomed_names copy _ rep member names
  · intro still
    have stays : Stays stamp copy last := by
      have each : ∀ label ∈ late, ∀ saves clock settings stray,
          label ≠ .restart saves clock settings stray := by
        rintro label member saves clock settings stray rfl
        exact running saves clock settings stray member
      have sparing : Runs.Guarded step (fun _ label => ∀ saves clock settings stray,
          label ≠ .restart saves clock settings stray) next late :=
        Runs.guarded_of_invariant step _ (fun _ => True) _ (fun _ _ _ _ _ _ => trivial)
          (fun _ _ _ allowed => allowed) next late trivial each
      refine Runs.guarded_invariant step _ (Stays stamp copy)
        (fun state label next stays runs taken => step_stays stamp copy state next label stays runs taken)
        next last late ⟨?_, fun _ => treed⟩ sparing after
      exact (Clipboard.head_of_current _ stamp copy current).ge
    exact (there.offered stamp copy still (stays.treed still)).1

/-- A step that offers a clip announces what the clip is offered as. The outcome of the step
offers something, and what an outcome offers is what its clip is offered as. -/
theorem step_announces (state next : FileService Id Hash) (label : Label Id Hash) (stamp : Stamp Id)
    (copy : Copy Hash) (taken : state.step label = some next)
    (offers : (state.outcome label).any (fun outcome =>
      (effectsOf outcome).any isOffer) = true)
    (current : next.service.board.current = some (stamp, copy)) :
    ∃ outcome, state.outcome label = some outcome ∧
      Effect.backend (.offer (next.service.board.offered copy)) ∈ effectsOf outcome := by
  obtain ⟨outcome, made, asks⟩ := (Option.any_eq_true _ _).mp offers
  obtain ⟨effect, asked, offer⟩ := List.any_eq_true.mp asks
  obtain ⟨saves, performed⟩ := step_performs state next label outcome made taken
  have board : next.service.board = outcome.1 := by rw [performed, Service.tryChange_board]
  cases effect with
  | backend command =>
    cases command with
    | offer serves =>
      obtain ⟨other, held, same, rfl⟩ := (outcome_asks state label outcome made).2 serves asked
      rw [← board, current] at same
      obtain ⟨rfl, rfl⟩ := Prod.mk.inj (Option.some.inj same)
      rw [board]
      exact ⟨outcome, made, asked⟩
    | clear => cases offer
  | save => cases offer
  | fetch other => cases offer

end Steps

/-- A clip of another machine: its one file comes here, and a copy of files that fails
afterwards leaves it where it is. -/
theorem announced_files_are_laid_out_for_a_clip :
    let clock : Clock :=
      { stamp := 5000000, believed := 5000000, set := 5000000, lapse := 5000000 }
    let copy : Copy Bytes :=
      { selection := Selection.ofFiles [[47, 97]]
        secret := false
        ttl := none
        files := [{ path := "a", size := 2, hash := [1, 2] }] }
    let stamp : Stamp Nat := { millis := 1, origin := 1 }
    let first : FileService Nat Bytes := start true clock 0 Settings.default [47]
    ∃ last, Runs.run step first
        ([.sweep, .sweep, .sweep, .sweep, .takeJob, .sweep, .sweep, .sweep, .sweep,
          .change true (.accept clock { stamp, copy := some copy }), .takeJob, .sweep, .sweep, .sweep,
          .sweep, .takeJob, .fetched .want, .fetched .pull, .fetched .next,
          .fetched (.reply (.sending 2)), .fetched .resume, .fetched (.chunk [1, 2]),
          .fetched .write, .fetched .close, .fetched .finish, .fetched .next, .fetched .layOut,
          .fetched .plant, .fetched .link, .fetched .link] ++
        .landed true :: [.copyFiles [[47, 97]] none, .takeJob, .walked none,
          .settle true clock]) = some last ∧
      last.service.board.current = some (stamp, copy) ∧
      last.store.LaidOut stamp.fileName copy.files := by
  intro clock copy stamp first
  let early : List (Label Nat Bytes) :=
    [.sweep, .sweep, .sweep, .sweep, .takeJob, .sweep, .sweep, .sweep, .sweep,
      .change true (.accept clock { stamp, copy := some copy }), .takeJob, .sweep, .sweep, .sweep,
      .sweep, .takeJob, .fetched .want, .fetched .pull, .fetched .next,
      .fetched (.reply (.sending 2)), .fetched .resume, .fetched (.chunk [1, 2]),
      .fetched .write, .fetched .close, .fetched .finish, .fetched .next, .fetched .layOut,
      .fetched .plant, .fetched .link, .fetched .link]
  let late : List (Label Nat Bytes) :=
    [.copyFiles [[47, 97]] none, .takeJob, .walked none, .settle true clock]
  let landing : Label Nat Bytes := .landed true
  let tree : Path := [47, 49, 45, 49]
  have offers : (Runs.run step first early).any (fun state =>
      (state.outcome landing).any (fun outcome =>
        (effectsOf outcome).any isOffer)) = true := by
    decide +kernel
  have treed : (Runs.run step first (early ++ [landing])).any (fun next =>
      !next.service.board.isOurs && decide (next.service.board.tree = some tree)) = true := by
    decide +kernel
  have current : (Runs.run step first (early ++ [landing])).any (fun next =>
      decide (next.service.board.current = some (stamp, copy))) = true := by
    decide +kernel
  have still : (Runs.run step first (early ++ landing :: late)).any (fun last =>
      decide (last.service.board.current = some (stamp, copy))) = true := by
    decide +kernel
  have files : announcesFiles (serves (rehomed copy tree) ++ []) = true := by decide +kernel
  obtain ⟨last, reached, held⟩ := (Option.any_eq_true _ _).mp still
  obtain ⟨state, next, before, taken, after⟩ := (Runs.run_through_iff ..).mp reached
  have landed : Runs.run step first (early ++ [landing]) = some next :=
    (Runs.run_concat_iff ..).mpr ⟨state, before, taken⟩
  rw [before, Option.any_some] at offers
  rw [landed, Option.any_some] at treed current
  rw [Bool.and_eq_true, Bool.not_eq_true', decide_eq_true_eq] at treed
  have here := of_decide_eq_true current
  obtain ⟨outcome, made, asked⟩ := step_announces state next landing stamp copy taken offers here
  have announces : announcesFiles (next.service.board.offered copy) = true := by
    rw [Clipboard.offered, Clipboard.carried, treed.2]
    exact files
  have guarded : Runs.Guarded step Undisturbed first (early ++ landing :: late) := by
    apply Runs.guarded_of_invariant step Undisturbed (fun _ => True)
      (fun label => ¬ ∃ index, label = .ran index)
    · exact fun _ _ _ _ _ _ => trivial
    · intro state label _ alone
      cases label with
      | ran index => exact absurd ⟨index, rfl⟩ alone
      | _ => exact trivial
    · exact trivial
    · intro label member
      rintro ⟨index, rfl⟩
      simp [early, late, landing] at member
  obtain ⟨other, carried, same, _, _, _, _, stays⟩ :=
    announced_files_are_laid_out true clock 0 Settings.default [47] early late landing state next last
      guarded before taken after (by simp [late]) outcome made _ asked announces treed.1
  obtain ⟨rfl, rfl⟩ := Prod.mk.inj (Option.some.inj (here.symm.trans same))
  exact ⟨last, reached, of_decide_eq_true held, stays (of_decide_eq_true held)⟩

/-- An offer of files that stops being true while its clip is still there. -/
def Forsaken [LinearOrder Id] [EndpointText Id] [DecidableEq Hash] [ContentHash Hash]
    (first : FileService Id Hash) (early late : List (Label Id Hash)) (label : Label Id Hash) : Prop :=
  ∃ state next last outcome serves stamp copy, Runs.run step first early = some state ∧
    state.step label = some next ∧ Runs.run step next late = some last ∧
    state.outcome label = some outcome ∧ Effect.backend (.offer serves) ∈ effectsOf outcome ∧
    announcesFiles serves = true ∧ next.service.board.isOurs = false ∧
    next.service.board.current = some (stamp, copy) ∧
    last.service.board.current = some (stamp, copy) ∧
    ¬ last.store.LaidOut stamp.fileName copy.files

/-- Two clips of one millisecond, of machines whose ids start alike, have one tree: the
thread of the older fetch starts it over under the offer of the newer one. -/
theorem older_fetch_takes_tree_apart :
    let clock : Clock :=
      { stamp := 5000000, believed := 5000000, set := 5000000, lapse := 5000000 }
    let copy : Copy Bytes :=
      { selection := Selection.ofFiles [[47, 97]]
        secret := false
        ttl := none
        files := [{ path := "a", size := 2, hash := [1, 2] }] }
    let named : Nat → Clip Nat Bytes := fun origin =>
      { stamp := { millis := 1, origin }, copy := some copy }
    let first : FileService Nat Bytes := start true clock 0 Settings.default [47]
    Forsaken first
        [.sweep, .sweep, .sweep, .sweep, .takeJob, .sweep, .sweep, .sweep, .sweep,
          .change true (.accept clock (named 123456781)), .takeJob, .sweep, .sweep, .sweep, .sweep,
          .takeJob, .fetched .want, .fetched .pull, .fetched .next, .fetched (.reply (.sending 2)),
          .fetched .resume, .fetched (.chunk [1, 2]), .fetched .write, .fetched .close,
          .fetched .finish, .fetched .next, .fetched .layOut,
          .change true (.accept clock (named 123456782)), .takeJob, .sweep, .sweep, .sweep,
          .sweepBlob (.blob [1, 2]), .sweep, .takeJob, .fetched .want, .fetched .layOut,
          .fetched .plant, .fetched .link, .fetched .link]
        [.ran 0] (.landed true) := by
  intro clock copy named first
  let early : List (Label Nat Bytes) :=
    [.sweep, .sweep, .sweep, .sweep, .takeJob, .sweep, .sweep, .sweep, .sweep,
      .change true (.accept clock (named 123456781)), .takeJob, .sweep, .sweep, .sweep, .sweep,
      .takeJob, .fetched .want, .fetched .pull, .fetched .next, .fetched (.reply (.sending 2)),
      .fetched .resume, .fetched (.chunk [1, 2]), .fetched .write, .fetched .close,
      .fetched .finish, .fetched .next, .fetched .layOut,
      .change true (.accept clock (named 123456782)), .takeJob, .sweep, .sweep, .sweep,
      .sweepBlob (.blob [1, 2]), .sweep, .takeJob, .fetched .want, .fetched .layOut,
      .fetched .plant, .fetched .link, .fetched .link]
  let stamp : Stamp Nat := { millis := 1, origin := 123456782 }
  have offers : (Runs.run step first early).any (fun state =>
      (state.outcome (.landed true)).any (fun outcome =>
        (effectsOf outcome).any isOffer)) = true := by
    decide +kernel
  have treed : (Runs.run step first (early ++ [.landed true])).any (fun next =>
      !next.service.board.isOurs &&
        decide (next.service.board.tree = some (Files.utf8 "/1-12345678"))) = true := by
    decide +kernel
  have current : (Runs.run step first (early ++ [.landed true])).any (fun next =>
      decide (next.service.board.current = some (stamp, copy))) = true := by
    decide +kernel
  have still : (Runs.run step first (early ++ [.landed true, .ran 0])).any (fun last =>
      decide (last.service.board.current = some (stamp, copy))) = true := by
    decide +kernel
  have astray : (Runs.run step first (early ++ [.landed true, .ran 0])).any (fun last =>
      decide ((last.store.links "1-12345678").lookup "a" ≠
        last.store.blobs.entries (.blob [1, 2]))) = true := by
    decide +kernel
  have tree : stamp.fileName = "1-12345678" := by decide +kernel
  have files : announcesFiles (serves (rehomed copy (Files.utf8 "/1-12345678")) ++ []) = true := by
    decide +kernel
  -- The checks are about one run.
  obtain ⟨last, reached, held⟩ := (Option.any_eq_true _ _).mp still
  obtain ⟨state, next, before, taken, after⟩ := (Runs.run_through_iff ..).mp reached
  have landed : Runs.run step first (early ++ [.landed true]) = some next :=
    (Runs.run_concat_iff ..).mpr ⟨state, before, taken⟩
  rw [before, Option.any_some] at offers
  rw [landed, Option.any_some] at treed current
  rw [reached, Option.any_some] at astray
  rw [Bool.and_eq_true, Bool.not_eq_true', decide_eq_true_eq] at treed
  have here := of_decide_eq_true current
  obtain ⟨outcome, made, asked⟩ := step_announces state next _ stamp copy taken offers here
  have announces : announcesFiles (next.service.board.offered copy) = true := by
    rw [Clipboard.offered, Clipboard.carried, treed.2]
    exact files
  have apart : ¬ last.store.LaidOut stamp.fileName copy.files := by
    intro laid
    obtain ⟨_, blob, leads, under⟩ := laid _ (List.mem_singleton_self _)
    rw [tree] at leads
    exact of_decide_eq_true astray (leads.trans under.symm)
  exact ⟨state, next, last, outcome, _, stamp, copy, before, taken, after, made, asked, announces,
    treed.1, here, of_decide_eq_true held, apart⟩

end FileService

end Yank
