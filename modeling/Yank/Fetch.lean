import Yank.Service
import Yank.Transfer
import Yank.SpoolNames

/-!
# Bringing the files of a clip here

A fetch runs beside the job loop. What it does to the spool is done on threads of
their own, and a thread carries its work through even when the fetch that waits
for it is aborted: it may open a partial, write what was queued, finish a
transfer or lay out a tree long after the clip is gone.

The moves of a fetch are small enough to interleave with everything else at the
points where the source awaits. What peers send, and when a connection fails, is
the choice of the moves.
-/

namespace Yank

variable {Id Hash : Type}

/-- The files the clip stamped `stamp` names, while it is the clip and they are
not laid out here. -/
def Clipboard.wanted [DecidableEq Id] (stamp : Stamp Id) (board : Clipboard Id Hash) :
    List (Files.FileRef Hash) :=
  match board.current with
  | some (current, copy) => if current = stamp ∧ board.tree.isNone then copy.files else []
  | none => []

/-- What the spool may keep: the clip's tree, and the content it names. -/
def Clipboard.referenced (board : Clipboard Id Hash) : Option (Stamp Id) × List Hash :=
  match board.current with
  | some (stamp, copy) => (some stamp, copy.files.map Files.FileRef.hash)
  | none => (none, [])

/-- What a clipboard refers to is what its clip refers to. -/
theorem Clipboard.referenced_congr (before after : Clipboard Id Hash) (same : after.clip = before.clip) :
    after.referenced = before.referenced := by
  simp only [Clipboard.referenced, Clipboard.current, same]

/-- What is referenced while a clip is current. -/
theorem Clipboard.referenced_of_current (board : Clipboard Id Hash) (stamp : Stamp Id) (copy : Copy Hash)
    (current : board.current = some (stamp, copy)) :
    board.referenced = (some stamp, copy.files.map Files.FileRef.hash) := by
  simp [Clipboard.referenced, current]

/-- What a fetch leaves to a thread. -/
inductive Work (Hash : Type) where
  | opening (hash : Hash)
  | writing (incoming : Incoming Hash) (queue : List Bytes)
  | finishing (incoming : Incoming Hash)
  | planting (files : List (Files.FileRef Hash))
  | linking (files : List (Files.FileRef Hash))
deriving DecidableEq

/-- How far a fetch is. What it still has to ask for, and what of a tree is still
to be linked, go with it. -/
inductive Phase (Hash : Type) where
  | called
  | between
  | pulling (asked : List (Files.FileRef Hash × UInt64))
  | reading (file : Files.FileRef Hash) (offset : UInt64)
      (asked : List (Files.FileRef Hash × UInt64))
  | opening (file : Files.FileRef Hash) (offset : UInt64)
      (asked : List (Files.FileRef Hash × UInt64))
  | receiving (incoming : Incoming Hash) (queue : List Bytes) (left : Nat)
      (asked : List (Files.FileRef Hash × UInt64))
  | finishing (incoming : Incoming Hash) (asked : List (Files.FileRef Hash × UInt64))
  | planting
  | linking (files : List (Files.FileRef Hash))
  | laid
  | ended
deriving DecidableEq

/-- A fetch, with the files its clip named when it was asked. -/
structure Fetch (Id Hash : Type) where
  stamp : Stamp Id
  files : List (Files.FileRef Hash)
  phase : Phase Hash
deriving DecidableEq

/-- What a fetch does next. -/
inductive Move where
  | want
  | pull
  | next
  | reply (reply : Transfer.ContentReply)
  | resume
  | chunk (bytes : Bytes)
  | write
  | close
  | finish
  | fail
  | layOut
  | plant
  | link
  | giveUp
deriving DecidableEq

namespace Work

/-- The content some work may bring into the spool. -/
def content : Work Hash → List Hash
  | .opening hash => [hash]
  | .writing incoming _ => [incoming.hash]
  | .finishing incoming => [incoming.hash]
  | .planting _ => []
  | .linking _ => []

/-- Whether the next step of some work can put a name into the spool. -/
def names : Work Hash → Bool
  | .writing _ _ => false
  | _ => true

variable [EndpointText Id] [DecidableEq Hash] [ContentHash Hash]

/-- The next step of some work, and what is left of it. -/
def run (stamp : Stamp Id) (store : Store Hash) : Work Hash → Option (Work Hash) × Store Hash
  | .opening hash => (none, (store.receive hash).2)
  | .writing _ [] => (none, store)
  | .writing incoming (bytes :: queue) =>
      let written := store.write bytes incoming
      (some (.writing written.1 queue), written.2)
  | .finishing incoming => (none, store.finish incoming)
  | .planting files => (some (.linking files), store.plant stamp)
  | .linking [] => (none, store)
  | .linking (file :: files) =>
      let linked := store.linkIn stamp file
      (if linked.2 then some (.linking files) else none, linked.1)

/-- Work is confined to the content it is for and the tree of its clip, and only
what names something makes a name. -/
theorem run_spec (stamp : Stamp Id) (store : Store Hash) (work : Work Hash) :
    Store.Confined stamp.fileName work.content store (work.run stamp store).2 ∧
      (∀ left, (work.run stamp store).1 = some left → left.content ⊆ work.content) ∧
      (work.names = false → Store.Shrinks store (work.run stamp store).2) := by
  cases work with
  | opening hash =>
    refine ⟨Store.Confined.receive _ _ store hash (List.mem_singleton_self hash), ?_, ?_⟩
    · intro left more
      cases more
    · intro silent
      cases silent
  | writing incoming queue =>
    cases queue with
    | nil =>
      refine ⟨Store.Confined.refl _ _ store, ?_, fun _ => Store.Shrinks.refl store⟩
      intro left more
      cases more
    | cons bytes queue =>
      refine ⟨Store.Confined.write _ _ store bytes incoming, ?_,
        fun _ => ⟨Finset.Subset.refl _, rfl⟩⟩
      intro left more
      rw [← Option.some.inj more]
      exact List.Subset.refl _
  | finishing incoming =>
    refine ⟨Store.Confined.finish _ _ store incoming (List.mem_singleton_self _), ?_, ?_⟩
    · intro left more
      cases more
    · intro silent
      cases silent
  | planting files =>
    refine ⟨Store.Confined.plant _ store stamp, ?_, ?_⟩
    · intro left more
      rw [← Option.some.inj more]
      exact List.Subset.refl _
    · intro silent
      cases silent
  | linking files =>
    cases files with
    | nil =>
      refine ⟨Store.Confined.refl _ _ store, ?_, fun _ => Store.Shrinks.refl store⟩
      intro left more
      cases more
    | cons file files =>
      refine ⟨Store.Confined.linkIn _ store stamp file, ?_, ?_⟩
      · intro left more
        cases linked : (store.linkIn stamp file).2 with
        | true =>
          simp only [run, linked, if_true, Option.some.injEq] at more
          rw [← more]
          exact List.Subset.refl _
        | false => simp [run, linked] at more
      · intro silent
        cases silent

end Work

namespace Phase

/-- The content a fetch may still bring, besides what it may ask for. -/
def content : Phase Hash → List Hash
  | .pulling asked => asked.map (fun entry => entry.1.hash)
  | .reading file _ asked => file.hash :: asked.map (fun entry => entry.1.hash)
  | .opening file _ asked => file.hash :: asked.map (fun entry => entry.1.hash)
  | .receiving incoming _ _ asked => incoming.hash :: asked.map (fun entry => entry.1.hash)
  | .finishing incoming asked => incoming.hash :: asked.map (fun entry => entry.1.hash)
  | _ => []

end Phase

namespace Fetch

/-- The content a fetch may bring into the spool. -/
def content (fetch : Fetch Id Hash) : List Hash :=
  fetch.files.map Files.FileRef.hash ++ fetch.phase.content

/-- The work a fetch waits for, which goes on without it. -/
def work (fetch : Fetch Id Hash) : Option (Work Hash) :=
  match fetch.phase with
  | .opening file _ _ => some (.opening file.hash)
  | .receiving incoming queue _ _ => some (.writing incoming queue)
  | .finishing incoming _ => some (.finishing incoming)
  | .planting => some (.planting fetch.files)
  | .linking files => some (.linking files)
  | _ => none

/-- What a fetch waits for has contents of the fetch. -/
theorem work_content (fetch : Fetch Id Hash) (work : Work Hash) (waits : fetch.work = some work) :
    work.content ⊆ fetch.content := by
  obtain ⟨stamp, files, phase⟩ := fetch
  cases phase <;> simp only [Fetch.work, Option.some.injEq, reduceCtorEq] at waits <;>
    subst waits <;> simp [Work.content, content, Phase.content]

/-- What of the files is not spooled yet, each content once. -/
def missing [DecidableEq Hash] (store : Store Hash) :
    List (Files.FileRef Hash) → List Hash → List (Files.FileRef Hash)
  | [], _ => []
  | file :: files, seen =>
      if !store.has file.hash && !seen.contains file.hash then
        file :: missing store files (file.hash :: seen)
      else missing store files seen

/-- Nothing is missing but what was asked for. -/
theorem missing_subset [DecidableEq Hash] (store : Store Hash)
    (files : List (Files.FileRef Hash)) (seen : List Hash) : missing store files seen ⊆ files := by
  induction files generalizing seen with
  | nil => exact List.Subset.refl _
  | cons file files inductionHypothesis =>
    rw [missing]
    split
    · exact List.cons_subset_cons file (inductionHypothesis _)
    · exact List.Subset.trans (inductionHypothesis _) (List.subset_cons_self file files)

/-- What is missing is not here and is listed by its first entry, each content once. The induction
is on the manifest and carries what was seen so far: a file whose content is here or was seen is
passed over. -/
theorem missing_spec [DecidableEq Hash] (store : Store Hash)
    (files : List (Files.FileRef Hash)) (seen : List Hash) :
    (missing store files seen).length ≤ files.length ∧
      ((missing store files seen).map Files.FileRef.hash).Nodup ∧
      ∀ file ∈ missing store files seen, file.hash ∉ seen ∧ store.blob file.hash = none ∧
        files.find? (fun other => other.hash = file.hash) = some file := by
  induction files generalizing seen with
  | nil => simp [missing]
  | cons file files inductionHypothesis =>
    have later (hash : Hash) (apart : hash ≠ file.hash) :
        (file :: files).find? (fun other => other.hash = hash) =
          files.find? (fun other => other.hash = hash) := by
      simp [Ne.symm apart]
    rw [missing]
    split
    · rename_i lacking
      rw [Bool.and_eq_true, Bool.not_eq_true', Bool.not_eq_true'] at lacking
      obtain ⟨fewer, once, each⟩ := inductionHypothesis (file.hash :: seen)
      refine ⟨Nat.succ_le_succ fewer, ?_, ?_⟩
      · rw [List.map_cons, List.nodup_cons]
        refine ⟨?_, once⟩
        intro again
        obtain ⟨other, member, same⟩ := List.mem_map.mp again
        exact (each other member).1 (same ▸ List.mem_cons_self)
      · intro other member
        obtain rfl | rest := List.mem_cons.mp member
        · refine ⟨by simpa using lacking.2, ?_, by simp⟩
          rw [Store.blob, Inodes.Dir.read, Option.map_eq_none_iff]
          simpa [Store.has] using lacking.1
        · obtain ⟨fresh, absent, first⟩ := each other rest
          rw [List.mem_cons, not_or] at fresh
          exact ⟨fresh.2, absent, (later other.hash fresh.1).trans first⟩
    · rename_i passed
      obtain ⟨fewer, once, each⟩ := inductionHypothesis seen
      refine ⟨Nat.le_succ_of_le fewer, once, ?_⟩
      intro other member
      obtain ⟨fresh, absent, first⟩ := each other member
      refine ⟨fresh, absent, (later other.hash ?_).trans first⟩
      intro same
      apply passed
      rw [Store.blob, Inodes.Dir.read, Option.map_eq_none_iff] at absent
      simp [Store.has, ← same, absent, fresh]

variable [DecidableEq Id] [EndpointText Id] [DecidableEq Hash] [ContentHash Hash]

/-- One move of a fetch; `none` when it is not its turn. -/
def step (board : Clipboard Id Hash) (store : Store Hash) (fetch : Fetch Id Hash) (move : Move) :
    Option (Fetch Id Hash × Store Hash) :=
  match fetch.phase, move with
  | .called, .want =>
      let files := board.wanted fetch.stamp
      if files = [] ∨ board.settings.maxFileSize.toNat < Files.total files then
        some ({ fetch with phase := .ended }, store)
      else some ({ fetch with files, phase := .between }, store)
  | .between, .pull =>
      let lacking := missing store fetch.files []
      if lacking = [] then none
      else
        let asked := Transfer.ask lacking store
        some ({ fetch with phase := .pulling asked.1 }, asked.2)
  | .pulling [], .next => some ({ fetch with phase := .between }, store)
  | .pulling ((file, offset) :: asked), .next =>
      if board.head = fetch.stamp then
        some ({ fetch with phase := .reading file offset asked }, store)
      else some ({ fetch with phase := .between }, store)
  | .reading _ _ asked, .reply .missing => some ({ fetch with phase := .pulling asked }, store)
  | .reading file offset asked, .reply (.sending size) =>
      if offset.toNat + size.toNat = file.size.toNat then
        some ({ fetch with phase := .opening file offset asked }, store)
      else some ({ fetch with phase := .between }, store)
  | .opening file offset asked, .resume =>
      let opened := store.receive file.hash
      if opened.1.at = offset then
        some ({ fetch with
          phase := .receiving opened.1 [] (file.size.toNat - offset.toNat) asked }, opened.2)
      else some ({ fetch with phase := .between }, opened.2)
  | .receiving incoming queue left asked, .chunk bytes =>
      if 0 < left ∧ bytes.length ≤ left then
        some ({ fetch with
          phase := .receiving incoming (queue ++ [bytes]) (left - bytes.length) asked }, store)
      else none
  | .receiving incoming (bytes :: queue) left asked, .write =>
      let written := store.write bytes incoming
      some ({ fetch with phase := .receiving written.1 queue left asked }, written.2)
  | .receiving incoming [] 0 asked, .close =>
      some ({ fetch with phase := .finishing incoming asked }, store)
  | .finishing incoming asked, .finish =>
      some ({ fetch with phase := .pulling asked }, store.finish incoming)
  -- The stream ended or stalled: the next attempt resumes what was written.
  | .pulling _, .fail => some ({ fetch with phase := .between }, store)
  | .reading _ _ _, .fail => some ({ fetch with phase := .between }, store)
  | .receiving _ _ _ _, .fail => some ({ fetch with phase := .between }, store)
  | .between, .layOut =>
      if fetch.files.all (fun file => store.has file.hash) then
        some ({ fetch with phase := .planting }, store)
      else none
  | .planting, .plant =>
      some ({ fetch with phase := .linking fetch.files }, store.plant fetch.stamp)
  | .linking [], .link => some ({ fetch with phase := .laid }, store)
  | .linking (file :: files), .link =>
      let linked := store.linkIn fetch.stamp file
      some ({ fetch with phase := if linked.2 then .linking files else .ended }, linked.1)
  | .between, .giveUp => some ({ fetch with phase := .ended }, store)
  | _, _ => none

/-- Everything a move can do, and when. -/
inductive Moves (board : Clipboard Id Hash) (store : Store Hash) (stamp : Stamp Id)
    (files : List (Files.FileRef Hash)) : Phase Hash → Move → Fetch Id Hash → Store Hash → Prop where
  | unwanted (declined : board.wanted stamp = [] ∨
      board.settings.maxFileSize.toNat < Files.total (board.wanted stamp)) :
      Moves board store stamp files .called .want { stamp, files, phase := .ended } store
  | wanted (wants : ¬ (board.wanted stamp = [] ∨
      board.settings.maxFileSize.toNat < Files.total (board.wanted stamp))) :
      Moves board store stamp files .called .want
        { stamp, files := board.wanted stamp, phase := .between } store
  | asked (lacking : missing store files [] ≠ []) :
      Moves board store stamp files .between .pull
        { stamp, files, phase := .pulling (Transfer.ask (missing store files []) store).1 }
        (Transfer.ask (missing store files []) store).2
  | pulled :
      Moves board store stamp files (.pulling []) .next { stamp, files, phase := .between } store
  | requested (file : Files.FileRef Hash) (offset : UInt64)
      (asked : List (Files.FileRef Hash × UInt64)) (head : board.head = stamp) :
      Moves board store stamp files (.pulling ((file, offset) :: asked)) .next
        { stamp, files, phase := .reading file offset asked } store
  | replaced (file : Files.FileRef Hash) (offset : UInt64)
      (asked : List (Files.FileRef Hash × UInt64)) (past : board.head ≠ stamp) :
      Moves board store stamp files (.pulling ((file, offset) :: asked)) .next
        { stamp, files, phase := .between } store
  | unheld (file : Files.FileRef Hash) (offset : UInt64)
      (asked : List (Files.FileRef Hash × UInt64)) :
      Moves board store stamp files (.reading file offset asked) (.reply .missing)
        { stamp, files, phase := .pulling asked } store
  | promised (file : Files.FileRef Hash) (offset : UInt64)
      (asked : List (Files.FileRef Hash × UInt64)) (size : UInt64)
      (whole : offset.toNat + size.toNat = file.size.toNat) :
      Moves board store stamp files (.reading file offset asked) (.reply (.sending size))
        { stamp, files, phase := .opening file offset asked } store
  | mispromised (file : Files.FileRef Hash) (offset : UInt64)
      (asked : List (Files.FileRef Hash × UInt64)) (size : UInt64)
      (other : offset.toNat + size.toNat ≠ file.size.toNat) :
      Moves board store stamp files (.reading file offset asked) (.reply (.sending size))
        { stamp, files, phase := .between } store
  | resumed (file : Files.FileRef Hash) (offset : UInt64)
      (asked : List (Files.FileRef Hash × UInt64))
      (stands : (store.receive file.hash).1.at = offset) :
      Moves board store stamp files (.opening file offset asked) .resume
        { stamp, files
          phase := .receiving (store.receive file.hash).1 [] (file.size.toNat - offset.toNat) asked }
        (store.receive file.hash).2
  | shifted (file : Files.FileRef Hash) (offset : UInt64)
      (asked : List (Files.FileRef Hash × UInt64))
      (moved : (store.receive file.hash).1.at ≠ offset) :
      Moves board store stamp files (.opening file offset asked) .resume
        { stamp, files, phase := .between } (store.receive file.hash).2
  | arrived (incoming : Incoming Hash) (queue : List Bytes) (left : Nat)
      (asked : List (Files.FileRef Hash × UInt64)) (bytes : Bytes)
      (fits : 0 < left ∧ bytes.length ≤ left) :
      Moves board store stamp files (.receiving incoming queue left asked) (.chunk bytes)
        { stamp, files, phase := .receiving incoming (queue ++ [bytes]) (left - bytes.length) asked }
        store
  | wrote (incoming : Incoming Hash) (bytes : Bytes) (queue : List Bytes) (left : Nat)
      (asked : List (Files.FileRef Hash × UInt64)) :
      Moves board store stamp files (.receiving incoming (bytes :: queue) left asked) .write
        { stamp, files, phase := .receiving (store.write bytes incoming).1 queue left asked }
        (store.write bytes incoming).2
  | closed (incoming : Incoming Hash) (asked : List (Files.FileRef Hash × UInt64)) :
      Moves board store stamp files (.receiving incoming [] 0 asked) .close
        { stamp, files, phase := .finishing incoming asked } store
  | finished (incoming : Incoming Hash) (asked : List (Files.FileRef Hash × UInt64)) :
      Moves board store stamp files (.finishing incoming asked) .finish
        { stamp, files, phase := .pulling asked } (store.finish incoming)
  | failedPulling (asked : List (Files.FileRef Hash × UInt64)) :
      Moves board store stamp files (.pulling asked) .fail { stamp, files, phase := .between } store
  | failedReading (file : Files.FileRef Hash) (offset : UInt64)
      (asked : List (Files.FileRef Hash × UInt64)) :
      Moves board store stamp files (.reading file offset asked) .fail
        { stamp, files, phase := .between } store
  | failedReceiving (incoming : Incoming Hash) (queue : List Bytes) (left : Nat)
      (asked : List (Files.FileRef Hash × UInt64)) :
      Moves board store stamp files (.receiving incoming queue left asked) .fail
        { stamp, files, phase := .between } store
  | complete (here : files.all (fun file => store.has file.hash) = true) :
      Moves board store stamp files .between .layOut { stamp, files, phase := .planting } store
  | planted :
      Moves board store stamp files .planting .plant { stamp, files, phase := .linking files }
        (store.plant stamp)
  | laid : Moves board store stamp files (.linking []) .link { stamp, files, phase := .laid } store
  | linked (file : Files.FileRef Hash) (rest : List (Files.FileRef Hash))
      (made : (store.linkIn stamp file).2 = true) :
      Moves board store stamp files (.linking (file :: rest)) .link
        { stamp, files, phase := .linking rest } (store.linkIn stamp file).1
  | unlinked (file : Files.FileRef Hash) (rest : List (Files.FileRef Hash))
      (failed : (store.linkIn stamp file).2 = false) :
      Moves board store stamp files (.linking (file :: rest)) .link
        { stamp, files, phase := .ended } (store.linkIn stamp file).1
  | gaveUp : Moves board store stamp files .between .giveUp { stamp, files, phase := .ended } store

/-- A move does one of these things. The cases of `Moves` follow the source's loop in order and
carry its guards, so nothing that is proved of a fetch unfolds the step again. -/
theorem step_moves (board : Clipboard Id Hash) (store after : Store Hash)
    (fetch next : Fetch Id Hash) (move : Move)
    (moved : fetch.step board store move = some (next, after)) :
    Moves board store fetch.stamp fetch.files fetch.phase move next after := by
  obtain ⟨stamp, files, phase⟩ := fetch
  unfold step at moved
  dsimp only at moved ⊢
  -- The branches of the step in turn; the last one is a move out of turn.
  split at moved
  · split at moved <;> obtain ⟨rfl, rfl⟩ := Prod.mk.inj (Option.some.inj moved)
    · exact .unwanted ‹_›
    · exact .wanted ‹_›
  · split at moved
    · cases moved
    · obtain ⟨rfl, rfl⟩ := Prod.mk.inj (Option.some.inj moved)
      exact .asked ‹_›
  · obtain ⟨rfl, rfl⟩ := Prod.mk.inj (Option.some.inj moved)
    exact .pulled
  · split at moved <;> obtain ⟨rfl, rfl⟩ := Prod.mk.inj (Option.some.inj moved)
    · exact .requested _ _ _ ‹_›
    · exact .replaced _ _ _ ‹_›
  · obtain ⟨rfl, rfl⟩ := Prod.mk.inj (Option.some.inj moved)
    exact .unheld _ _ _
  · split at moved <;> obtain ⟨rfl, rfl⟩ := Prod.mk.inj (Option.some.inj moved)
    · exact .promised _ _ _ _ ‹_›
    · exact .mispromised _ _ _ _ ‹_›
  · split at moved <;> obtain ⟨rfl, rfl⟩ := Prod.mk.inj (Option.some.inj moved)
    · exact .resumed _ _ _ ‹_›
    · exact .shifted _ _ _ ‹_›
  · split at moved
    · obtain ⟨rfl, rfl⟩ := Prod.mk.inj (Option.some.inj moved)
      exact .arrived _ _ _ _ _ ‹_›
    · cases moved
  · obtain ⟨rfl, rfl⟩ := Prod.mk.inj (Option.some.inj moved)
    exact .wrote _ _ _ _ _
  · obtain ⟨rfl, rfl⟩ := Prod.mk.inj (Option.some.inj moved)
    exact .closed _ _
  · obtain ⟨rfl, rfl⟩ := Prod.mk.inj (Option.some.inj moved)
    exact .finished _ _
  · obtain ⟨rfl, rfl⟩ := Prod.mk.inj (Option.some.inj moved)
    exact .failedPulling _
  · obtain ⟨rfl, rfl⟩ := Prod.mk.inj (Option.some.inj moved)
    exact .failedReading _ _ _
  · obtain ⟨rfl, rfl⟩ := Prod.mk.inj (Option.some.inj moved)
    exact .failedReceiving _ _ _ _
  · split at moved
    · obtain ⟨rfl, rfl⟩ := Prod.mk.inj (Option.some.inj moved)
      exact .complete ‹_›
    · cases moved
  · obtain ⟨rfl, rfl⟩ := Prod.mk.inj (Option.some.inj moved)
    exact .planted
  · obtain ⟨rfl, rfl⟩ := Prod.mk.inj (Option.some.inj moved)
    exact .laid
  · rename_i file rest
    obtain ⟨rfl, rfl⟩ := Prod.mk.inj (Option.some.inj moved)
    cases made : (store.linkIn stamp file).2 with
    | true => exact .linked file rest made
    | false => exact .unlinked file rest made
  · obtain ⟨rfl, rfl⟩ := Prod.mk.inj (Option.some.inj moved)
    exact .gaveUp
  · cases moved

/-- Whether a move can put a name into the spool. -/
def names : Move → Bool
  | .resume | .finish | .plant | .link => true
  | _ => false

/-- What a move does: it stays with its clip, it is confined to the content it may
bring and the tree of the clip, and only what names something makes a name. What
it may bring is what it might before, or what the clip names now. -/
structure Stepped (board : Clipboard Id Hash) (store after : Store Hash)
    (fetch next : Fetch Id Hash) (move : Move) : Prop where
  stamp : next.stamp = fetch.stamp
  confined : Store.Confined fetch.stamp.fileName fetch.content store after
  content : next.content ⊆ fetch.content ∨
    next.content = (board.wanted fetch.stamp).map Files.FileRef.hash
  quiet : names move = false → Store.Shrinks store after

section Stepped
variable (board : Clipboard Id Hash) (store : Store Hash) (fetch : Fetch Id Hash)

omit [DecidableEq Hash] [ContentHash Hash] in
/-- A move that only goes on to another phase. -/
theorem Stepped.moveOn (phase : Phase Hash) (move : Move)
    (content : phase.content ⊆ fetch.phase.content) :
    Stepped board store store fetch { fetch with phase } move where
  stamp := rfl
  confined := Store.Confined.refl _ _ store
  content := Or.inl (List.append_subset.mpr ⟨List.subset_append_left _ _,
    List.Subset.trans content (List.subset_append_right _ _)⟩)
  quiet _ := Store.Shrinks.refl store

omit [DecidableEq Hash] [ContentHash Hash] in
/-- A move that works on the spool, within the content of the phase. -/
theorem Stepped.workOn (after : Store Hash) (phase : Phase Hash) (move : Move)
    (content : phase.content ⊆ fetch.content)
    (confined : Store.Confined fetch.stamp.fileName fetch.content store after)
    (quiet : names move = false → Store.Shrinks store after) :
    Stepped board store after fetch { fetch with phase } move where
  stamp := rfl
  confined := confined
  content := Or.inl (List.append_subset.mpr ⟨List.subset_append_left _ _, content⟩)
  quiet := quiet

omit [EndpointText Id] [ContentHash Hash] [DecidableEq Id] in
/-- Looking at what is held of the files makes no name. -/
theorem ask_spec (tree : String) (content : List Hash) (files : List (Files.FileRef Hash)) :
    Store.Confined tree content store (Transfer.ask files store).2 ∧
      Store.Shrinks store (Transfer.ask files store).2 ∧
      (Transfer.ask files store).1.map (fun entry => entry.1.hash) =
        files.map Files.FileRef.hash := by
  induction files generalizing store with
  | nil => exact ⟨Store.Confined.refl tree content store, Store.Shrinks.refl store, rfl⟩
  | cons file files inductionHypothesis =>
    obtain ⟨confined, shrinks, hashes⟩ :=
      inductionHypothesis (store.partialSize file.hash file.size).2
    refine ⟨?_, ?_, congrArg (file.hash :: ·) hashes⟩
    · exact Store.Confined.trans tree content _ _ _
        (Store.Confined.partialSize tree content store file.hash file.size) confined
    · exact Store.Shrinks.trans _ _ _ (Store.Shrinks.partialSize file.hash file.size store) shrinks

/-- A move of a fetch does to it and to the spool what is said of that move. A move that only goes
on to another phase touches nothing; the others call the spool, each by what is known of that
call. -/
theorem step_spec (after : Store Hash) (next : Fetch Id Hash) (move : Move)
    (moved : fetch.step board store move = some (next, after)) :
    Stepped board store after fetch next move := by
  have moves := step_moves board store after fetch next move moved
  obtain ⟨stamp, files, phase⟩ := fetch
  cases moves with
  | wanted =>
    refine ⟨rfl, Store.Confined.refl _ _ store, Or.inr ?_, fun _ => Store.Shrinks.refl store⟩
    exact List.append_nil _
  | asked =>
    let lacking := missing store files []
    have among : lacking.map Files.FileRef.hash ⊆ files.map Files.FileRef.hash :=
      List.map_subset _ (missing_subset store files [])
    obtain ⟨confined, shrinks, hashes⟩ := ask_spec store stamp.fileName
      (Fetch.content { stamp, files, phase := Phase.between }) lacking
    refine Stepped.workOn board store _ _ _ .pull ?_ confined (fun _ => shrinks)
    change (Transfer.ask lacking store).1.map (fun entry => entry.1.hash) ⊆ _
    rw [hashes]
    exact List.Subset.trans among (List.subset_append_left _ _)
  | requested file offset asked =>
    exact Stepped.moveOn board store _ (.reading file offset asked) .next (List.Subset.refl _)
  | unheld file offset asked =>
    exact Stepped.moveOn board store _ (.pulling asked) _ (List.subset_cons_self _ _)
  | promised file offset asked =>
    exact Stepped.moveOn board store _ (.opening file offset asked) _ (List.Subset.refl _)
  | resumed file offset asked =>
    have named : file.hash ∈ Fetch.content { stamp, files, phase := .opening file offset asked } :=
      List.mem_append_right _ List.mem_cons_self
    obtain ⟨_, hash, _⟩ := store.receive_spec file.hash
    refine Stepped.workOn board store _ _ _ .resume ?_
      (Store.Confined.receive stamp.fileName _ store file.hash named) (fun silent => nomatch silent)
    change (store.receive file.hash).1.hash :: _ ⊆ _
    rw [hash]
    exact List.subset_append_right _ _
  | shifted file offset asked =>
    have named : file.hash ∈ Fetch.content { stamp, files, phase := .opening file offset asked } :=
      List.mem_append_right _ List.mem_cons_self
    exact Stepped.workOn board store _ _ .between .resume (List.nil_subset _)
      (Store.Confined.receive stamp.fileName _ store file.hash named) (fun silent => nomatch silent)
  | arrived => exact Stepped.moveOn board store _ _ _ (List.Subset.refl _)
  | wrote incoming bytes =>
    exact Stepped.workOn board store _ _ _ .write (List.subset_append_right _ _)
      (Store.Confined.write _ _ store bytes incoming)
      (fun _ => ⟨Finset.Subset.refl _, rfl⟩)
  | closed incoming asked =>
    exact Stepped.moveOn board store _ (.finishing incoming asked) _ (List.Subset.refl _)
  | finished incoming asked =>
    refine Stepped.workOn board store _ _ (.pulling asked) .finish ?_ ?_
      (fun silent => nomatch silent)
    · exact List.Subset.trans (List.subset_cons_self _ _) (List.subset_append_right _ _)
    · exact Store.Confined.finish _ _ store incoming
        (List.mem_append_right _ List.mem_cons_self)
  | planted =>
    exact Stepped.workOn board store _ _ (.linking files) .plant (List.nil_subset _)
      (Store.Confined.plant _ store stamp) (fun silent => nomatch silent)
  | linked file | unlinked file =>
    exact Stepped.workOn board store _ _ _ .link (List.nil_subset _)
      (Store.Confined.linkIn _ store stamp file) (fun silent => nomatch silent)
  -- The rest goes on to a phase that asks for nothing more.
  | _ => exact Stepped.moveOn board store _ _ _ (List.nil_subset _)

end Stepped

end Fetch

end Yank
