import Yank.Sizes

/-!
# What a fetch can write

The sizes come from one peer's manifest, the offsets from what is on the disk and the
bytes from other peers. A fetch asks past what it holds of a file, takes exactly what is
missing of it and drops a peer whose header says anything else; a thread that goes on
writing after its transfer failed writes what it was handed before.

So no transfer writes past the size of its file, each content of the manifest takes up
that size once, and all of them together the total that was checked first. The total
saturates: where the limit is the largest there is, it is none.
-/

namespace Yank

variable {Id Hash : Type}

namespace Fetch
variable [DecidableEq Hash]

/-- One file that is asked for: no more of it than its size is asked past or held, and what
was opened for it is not its blob. -/
structure Asking (files : List (Files.FileRef Hash)) (opened : List (Hash × Nat))
    (store : Store Hash) (file : Files.FileRef Hash) (offset : UInt64) : Prop where
  first : Files.first files file.hash = some file
  past : offset.toNat ≤ file.size.toNat
  fits : ((store.part file.hash).getD []).length ≤ file.size.toNat
  unfinished : ∀ entry ∈ opened, entry.1 = file.hash →
    store.blobs.entries (.blob file.hash) ≠ some entry.2

/-- What is asked of a peer, each content once. -/
structure Asked (files : List (Files.FileRef Hash)) (opened : List (Hash × Nat))
    (store : Store Hash) (asked : List (Files.FileRef Hash × UInt64)) : Prop where
  once : (asked.map (fun entry => entry.1.hash)).Nodup
  each : ∀ entry ∈ asked, Asking files opened store entry.1 entry.2

section Asking
variable {files : List (Files.FileRef Hash)} {opened : List (Hash × Nat)} {store after : Store Hash}
  {file : Files.FileRef Hash} {offset : UInt64} {asked : List (Files.FileRef Hash × UInt64)}
  {size : Hash → Nat} {writers : List (Incoming Hash × Nat)}

/-- A file that is asked for has the size the manifest first gives its content. -/
theorem Asking.isSize (asking : Asking files opened store file offset) :
    Files.firstSize files file.hash = file.size.toNat := by
  rw [Files.firstSize, asking.first]
  rfl

/-- A file that is asked for still is once others wrote. -/
theorem Asking.leaves (asking : Asking files opened store file offset)
    (tame : Store.Tame size opened writers store) (leaves : Store.Leaves store after) :
    Asking files opened after file offset where
  first := asking.first
  past := asking.past
  fits := Nat.le_trans (leaves.part file.hash) asking.fits
  unfinished entry known same whole :=
    asking.unfinished entry known same (leaves.names _ entry.2 (tame.there entry known) whole)

/-- Other content may be finished meanwhile. -/
theorem Asking.finish [ContentHash Hash] (asking : Asking files opened store file offset)
    (incoming : Incoming Hash) (apart : file.hash ≠ incoming.hash) :
    Asking files opened (store.finish incoming) file offset where
  first := asking.first
  past := asking.past
  fits := by
    have same := (store.finish_entries incoming (.part file.hash) (by simpa using apart)
      (by simp)).2
    rw [Store.part, same]
    exact asking.fits
  unfinished entry known same := by
    rw [(store.finish_entries incoming (.blob file.hash) (by simp) (by simpa using apart)).1]
    exact asking.unfinished entry known same

/-- Other content may be opened meanwhile. Opening touches the partial of its own content only. -/
theorem Asking.receive (asking : Asking files opened store file offset) (hash : Hash)
    (apart : file.hash ≠ hash) (lead : Nat) :
    Asking files ((hash, lead) :: opened) (store.receive hash).2 file offset where
  first := asking.first
  past := asking.past
  fits := by
    obtain ⟨_, _, _, _, touches⟩ := store.receive_spec hash
    rw [(touches.other hash file.hash store _ apart).2]
    exact asking.fits
  unfinished entry member same := by
    obtain rfl | known := List.mem_cons.mp member
    · exact absurd same.symm apart
    · have kept : (store.receive hash).2.blobs.entries (.blob file.hash) =
          store.blobs.entries (.blob file.hash) := by
        unfold Store.receive
        split
        · rfl
        · exact Inodes.Dir.entries_create_of_ne _ _ _ _ (by simp)
      rw [kept]
      exact asking.unfinished entry known same

/-- A tame transfer writes no more of any content than its size. The bytes go where the transfer
has come to, so the partial that leads to its file is no shorter than what was asked past, and by
tameness no longer than the content. -/
theorem Asking.write (asking : Asking files opened store file offset) (bytes : Bytes)
    (incoming : Incoming Hash) (mine : (incoming.hash, incoming.file) ∈ opened)
    (before : Store.Tame (Files.firstSize files) opened writers store)
    (tame : Store.Tame (Files.firstSize files) opened [] (store.write bytes incoming).2) :
    Asking files opened (store.write bytes incoming).2 file offset where
  first := asking.first
  past := asking.past
  fits := by
    have fits := asking.fits
    have entries : (store.write bytes incoming).2.blobs.entries = store.blobs.entries := rfl
    rw [Store.part, Inodes.Dir.read] at fits ⊢
    rw [entries]
    cases held : store.blobs.entries (.part file.hash) with
    | none => exact Nat.zero_le _
    | some lead =>
      rw [held] at fits
      change (Inodes.Dir.content _ lead).length ≤ _ at fits
      change (Inodes.Dir.content _ lead).length ≤ _
      by_cases own : lead = incoming.file
      · obtain isPart | other := before.leads _ mine _ (held.trans (congrArg some own))
        · have short := tame.short _ mine
          rw [own, ← asking.isSize, SpoolName.part.inj isPart]
          exact short
        · cases other
      · rw [Store.content_write bytes incoming store lead (before.there _ mine), if_neg own]
        exact fits
  unfinished := asking.unfinished

/-- Nothing is left to ask for. -/
theorem Asked.nil (files : List (Files.FileRef Hash)) (opened : List (Hash × Nat))
    (store : Store Hash) : Asked files opened store [] where
  once := List.nodup_nil
  each entry member := by cases member

/-- What comes after the first file is asked for too. -/
theorem Asked.tail {entry : Files.FileRef Hash × UInt64}
    (all : Asked files opened store (entry :: asked)) : Asked files opened store asked where
  once := (List.nodup_cons.mp all.once).2
  each other member := all.each other (List.mem_cons_of_mem entry member)

/-- All that is asked for still is once others wrote. -/
theorem Asked.leaves (all : Asked files opened store asked)
    (tame : Store.Tame size opened writers store) (leaves : Store.Leaves store after) :
    Asked files opened after asked where
  once := all.once
  each entry member := (all.each entry member).leaves tame leaves

omit [DecidableEq Hash] in
/-- A content that is not asked for is none of those that are. -/
theorem hash_ne_of_notMem (hash : Hash) (apart : hash ∉ asked.map (fun entry => entry.1.hash))
    (entry : Files.FileRef Hash × UInt64) (member : entry ∈ asked) : entry.1.hash ≠ hash := by
  rintro rfl
  exact apart (List.mem_map_of_mem (f := fun entry => entry.1.hash) member)

/-- Looking at what is held of the files leaves other content alone. -/
theorem ask_touches (files : List (Files.FileRef Hash)) (store : Store Hash) (hash : Hash)
    (apart : hash ∉ files.map Files.FileRef.hash) :
    (Transfer.ask files store).2.blob hash = store.blob hash ∧
      (Transfer.ask files store).2.part hash = store.part hash := by
  induction files generalizing store with
  | nil => exact ⟨rfl, rfl⟩
  | cons file files inductionHypothesis =>
    rw [List.map_cons, List.mem_cons, not_or] at apart
    obtain ⟨_, _, _, _, touches⟩ := store.partialSize_spec file.hash file.size
    obtain ⟨blob, part⟩ := touches.other file.hash hash store _ apart.1
    obtain ⟨blob', part'⟩ := inductionHypothesis (store.partialSize file.hash file.size).2 apart.2
    exact ⟨blob'.trans blob, part'.trans part⟩

/-- What is asked past is what is held, once what is too long is gone. The induction is on the
files that are asked for. Asking for one touches the partial of that content only, and no content
is listed twice, so what was counted of the others stands. -/
theorem ask_asked (manifest files : List (Files.FileRef Hash)) (opened : List (Hash × Nat))
    (store : Store Hash) (once : (files.map Files.FileRef.hash).Nodup)
    (each : ∀ file ∈ files, store.blob file.hash = none ∧
      Files.first manifest file.hash = some file) :
    Asked manifest opened (Transfer.ask files store).2 (Transfer.ask files store).1 := by
  induction files generalizing store with
  | nil => exact Asked.nil manifest opened store
  | cons file files inductionHypothesis =>
    rw [List.map_cons, List.nodup_cons] at once
    rw [List.forall_mem_cons] at each
    obtain ⟨held, small, _, same, touches⟩ := store.partialSize_spec file.hash file.size
    have rest := inductionHypothesis (store.partialSize file.hash file.size).2 once.2
      (fun other member => by
        have apart : other.hash ≠ file.hash := fun own =>
          once.1 (own ▸ List.mem_map_of_mem (f := Files.FileRef.hash) member)
        obtain ⟨blob, _⟩ := touches.other file.hash other.hash store _ apart
        exact ⟨blob.trans (each.2 other member).1, (each.2 other member).2⟩)
    obtain ⟨blob, part⟩ := ask_touches files (store.partialSize file.hash file.size).2 file.hash once.1
    have bounded : (store.partialSize file.hash file.size).1.toNat ≤ file.size.toNat :=
      UInt64.le_iff_toNat_le.mp small
    have self : Asking manifest opened (Transfer.ask files (store.partialSize file.hash file.size).2).2
        file (store.partialSize file.hash file.size).1 := by
      refine ⟨each.1.2, bounded, ?_, ?_⟩
      · rw [part, ← held]
        exact bounded
      · intro entry _ _ whole
        have absent := blob.trans (same.trans each.1.1)
        rw [Store.blob, Inodes.Dir.read, whole] at absent
        cases absent
    have hashes : (Transfer.ask files (store.partialSize file.hash file.size).2).1.map
        (fun entry => entry.1.hash) = files.map Files.FileRef.hash :=
      (ask_spec _ "" [] files).2.2
    constructor
    · change (file.hash :: (Transfer.ask files _).1.map (fun entry => entry.1.hash)).Nodup
      rw [hashes, List.nodup_cons]
      exact once
    · intro entry member
      obtain rfl | later := List.mem_cons.mp member
      · exact self
      · exact rest.each entry later

end Asking

end Fetch

/-! A fetch and the threads it leaves. -/

/-- The transfer some work goes on with, and how much it may still write. -/
def Work.writer : Work Hash → Option (Incoming Hash × Nat)
  | .writing incoming queue => some (incoming, queue.flatten.length)
  | _ => none

namespace Phase

/-- The transfer of a fetch, and how much it may still write. -/
def writer : Phase Hash → Option (Incoming Hash × Nat)
  | .receiving incoming queue left _ => some (incoming, queue.flatten.length + left)
  | .finishing incoming _ => some (incoming, 0)
  | _ => none

/-- The files whose turn is yet to come. -/
def asked : Phase Hash → List (Files.FileRef Hash × UInt64)
  | .pulling asked => asked
  | .reading file offset asked => (file, offset) :: asked
  | .opening file offset asked => (file, offset) :: asked
  | .receiving _ _ _ asked => asked
  | .finishing _ asked => asked
  | _ => []

end Phase

/-- What some work writes next. -/
def Work.nextWrite : Work Hash → Option (Incoming Hash × Bytes)
  | .writing incoming (bytes :: _) => some (incoming, bytes)
  | _ => none

/-- What the thread of a fetch writes next. -/
def Phase.nextWrite : Phase Hash → Option (Incoming Hash × Bytes)
  | .receiving incoming (bytes :: _) _ _ => some (incoming, bytes)
  | _ => none

/-- What is written is some of what may be. -/
theorem Work.nextWrite_writer (work : Work Hash) (incoming : Incoming Hash) (bytes : Bytes)
    (isWriting : work.nextWrite = some (incoming, bytes)) :
    ∃ rest, work.writer = some (incoming, bytes.length + rest) := by
  unfold Work.nextWrite at isWriting
  split at isWriting
  · rename_i queue
    obtain ⟨rfl, rfl⟩ := Prod.mk.inj (Option.some.inj isWriting)
    exact ⟨queue.flatten.length, by simp [Work.writer]⟩
  · cases isWriting

/-- What is written next is the first of what the writer has left. -/
theorem Phase.nextWrite_writer (phase : Phase Hash) (incoming : Incoming Hash) (bytes : Bytes)
    (isWriting : phase.nextWrite = some (incoming, bytes)) :
    ∃ rest, phase.writer = some (incoming, bytes.length + rest) := by
  unfold Phase.nextWrite at isWriting
  split at isWriting
  · rename_i queue left asked
    obtain ⟨rfl, rfl⟩ := Prod.mk.inj (Option.some.inj isWriting)
    exact ⟨queue.flatten.length + left, by simp [Phase.writer, Nat.add_assoc]⟩
  · cases isWriting

/-- Every transfer that can still write. -/
def writersOf (phase : Phase Hash) (detached : List (Stamp Id × Work Hash)) :
    List (Incoming Hash × Nat) :=
  phase.writer.toList ++ detached.filterMap (fun entry => entry.2.writer)

/-- A fetch of a manifest within the limit, with what it opened and the threads it left:
what it opened is tame, and it asks for what it has not finished. -/
structure Fetch.Within [DecidableEq Hash] (limit : Nat) (opened : List (Hash × Nat))
    (fetch : Fetch Id Hash) (detached : List (Stamp Id × Work Hash)) (store : Store Hash) : Prop where
  total : Files.total fetch.files ≤ limit
  /-- Before it knows its files it has done nothing. -/
  called : fetch.phase = .called → opened = [] ∧ detached = []
  known : ∀ entry ∈ opened, ∃ file, Files.first fetch.files entry.1 = some file
  tame : Store.Tame (Files.firstSize fetch.files) opened (writersOf fetch.phase detached) store
  asked : Asked fetch.files opened store fetch.phase.asked
  apart : ∀ writer, fetch.phase.writer = some writer →
    writer.1.hash ∉ fetch.phase.asked.map (fun entry => entry.1.hash)
  threads : ∀ entry ∈ detached, ∃ incoming queue, entry.2 = .writing incoming queue

namespace Fetch

section Steps
variable [DecidableEq Hash] {limit : Nat} {opened : List (Hash × Nat)} {fetch : Fetch Id Hash}
  {detached : List (Stamp Id × Work Hash)} {store : Store Hash}

/-- A move that leaves the spool and opens nothing. Nobody writes but those who did, and none of
them more than it still might. -/
theorem Within.moveOn (within : Within limit opened fetch detached store) (phase : Phase Hash)
    (late : List (Stamp Id × Work Hash)) (goesOn : phase ≠ .called)
    (writers : ∀ writer ∈ writersOf phase late, ∃ rest,
      (writer.1, rest) ∈ writersOf fetch.phase detached ∧ writer.2 ≤ rest)
    (asked : Asked fetch.files opened store phase.asked)
    (apart : ∀ writer, phase.writer = some writer →
      writer.1.hash ∉ phase.asked.map (fun entry => entry.1.hash))
    (threads : ∀ entry ∈ late, ∃ incoming queue, entry.2 = .writing incoming queue) :
    Within limit opened { fetch with phase } late store where
  total := within.total
  called impossible := absurd impossible goesOn
  known := within.known
  tame := within.tame.mono _ writers
  asked := asked
  apart := apart
  threads := threads

omit [DecidableEq Hash] in
/-- A phase without a transfer has the writers that were detached. -/
theorem writersOf_quiet (phase : Phase Hash) (quiet : phase.writer = none)
    (before : List (Incoming Hash × Nat)) :
    ∀ writer ∈ writersOf phase detached, ∃ rest,
      (writer.1, rest) ∈ before ++ detached.filterMap (fun entry => entry.2.writer) ∧
        writer.2 ≤ rest := by
  intro writer member
  rw [writersOf, quiet] at member
  exact ⟨writer.2, List.mem_append_right before member, le_refl _⟩

/-- A move to a phase without a transfer, that asks for no more than before. -/
theorem Within.rest (within : Within limit opened fetch detached store) (phase : Phase Hash)
    (goesOn : phase ≠ .called) (quiet : phase.writer = none)
    (asked : Asked fetch.files opened store phase.asked) :
    Within limit opened { fetch with phase } detached store := by
  apply within.moveOn phase detached goesOn _ asked
  · intro writer isWriter
    rw [quiet] at isWriter
    cases isWriter
  · exact within.threads
  · exact writersOf_quiet phase quiet _

/-- A fetch that has opened nothing is within any limit that covers its files. Nothing is opened,
nobody writes and nothing is asked, so only the total is left to say. -/
theorem Within.fresh (stamp : Stamp Id) (files : List (Files.FileRef Hash)) (phase : Phase Hash)
    (fits : Files.total files ≤ limit) (quiet : phase.writer = none) (nothing : phase.asked = []) :
    Within limit [] { stamp, files, phase } [] store := by
  have nobody : writersOf phase ([] : List (Stamp Id × Work Hash)) = [] := by
    simp [writersOf, quiet]
  refine ⟨fits, fun _ => ⟨rfl, rfl⟩, ?_, ?_, ?_, ?_, ?_⟩
  · intro entry impossible
    cases impossible
  · rw [nobody]
    constructor <;> intro entry impossible <;> cases impossible
  · rw [nothing]
    exact Asked.nil _ _ _
  · intro writer isWriter
    rw [quiet] at isWriter
    cases isWriter
  · intro entry impossible
    cases impossible

/-- What leaves the files of the spool alone leaves a fetch within its limit. -/
theorem Within.leaves (within : Within limit opened fetch detached store) {after : Store Hash}
    (leaves : Store.Leaves store after) : Within limit opened fetch detached after :=
  { within with
    tame := within.tame.leaves leaves
    asked := within.asked.leaves within.tame leaves }

/-- A transfer within its size writes, and keeps the fetch within its limit. The bytes come out of
what was still pending of that writer, and what is asked for next is of other contents. -/
theorem Within.write (within : Within limit opened fetch detached store) (incoming : Incoming Hash)
    (pending rest : Nat) (bytes : Bytes)
    (member : (incoming, pending) ∈ writersOf fetch.phase detached)
    (enough : bytes.length + rest ≤ pending) (phase : Phase Hash) (goesOn : phase ≠ .called)
    (late : List (Stamp Id × Work Hash))
    (among : ∀ writer ∈ writersOf phase late, writer ∈ writersOf fetch.phase detached ∨
      writer = ((store.write bytes incoming).1, rest))
    (asked : phase.asked = fetch.phase.asked)
    (apart : ∀ writer, phase.writer = some writer →
      writer.1.hash ∉ phase.asked.map (fun entry => entry.1.hash))
    (threads : ∀ entry ∈ late, ∃ incoming queue, entry.2 = .writing incoming queue) :
    Within limit opened { fetch with phase } late (store.write bytes incoming).2 where
  total := within.total
  called impossible := absurd impossible goesOn
  known := within.known
  tame := within.tame.write incoming pending rest bytes member enough _ among
  asked := by
    have mine := within.tame.mine _ member
    have quiet := within.tame.write incoming pending rest bytes member enough []
      (fun writer impossible => nomatch impossible)
    rw [asked]
    exact ⟨within.asked.once, fun entry listed =>
      (within.asked.each entry listed).write bytes incoming mine within.tame quiet⟩
  apart := apart
  threads := threads

/-- A transfer that is opened reads what is held of a file that is asked for, and may go on
to its size. -/
theorem resume_tame {size : Hash → Nat} {writers : List (Incoming Hash × Nat)}
    {files : List (Files.FileRef Hash)} {file : Files.FileRef Hash} {offset : UInt64}
    (asking : Asking files opened store file offset) (tame : Store.Tame size opened writers store)
    (isSize : size file.hash = file.size.toNat) :
    Store.Tame size ((file.hash, (store.receive file.hash).1.file) :: opened) writers
        (store.receive file.hash).2 ∧
      ((store.receive file.hash).1.at = offset →
        (store.receive file.hash).1.hashed.length = offset.toNat ∧
          Store.Tame size ((file.hash, (store.receive file.hash).1.file) :: opened)
            (((store.receive file.hash).1, file.size.toNat - offset.toNat) :: writers)
            (store.receive file.hash).2) := by
  obtain ⟨_, named, resumed, _, _⟩ := store.receive_spec file.hash
  have fits := asking.fits
  have received := tame.receive file.hash (isSize ▸ fits) asking.unfinished
  refine ⟨received, ?_⟩
  intro stands
  have small : ((store.part file.hash).getD []).length < 2 ^ 64 :=
    lt_of_le_of_lt fits file.size.toNat_lt
  have length : (store.receive file.hash).1.hashed.length = offset.toNat := by
    rw [← stands, Incoming.at, UInt64.toNat_ofNat', resumed, Nat.mod_eq_of_lt small]
  have past := asking.past
  refine ⟨length, received.join _ _ ?_ ?_⟩
  · rw [named]
    exact List.mem_cons_self
  · rw [named, isSize, length]
    omega

/-- What is opened for the file asked for is known then, and nothing else is asked of it. -/
theorem Within.opens {stamp : Stamp Id} {files : List (Files.FileRef Hash)}
    {file : Files.FileRef Hash} {offset : UInt64} {asked : List (Files.FileRef Hash × UInt64)}
    (within : Within limit opened { stamp, files, phase := .opening file offset asked } detached
      store) :
    (∀ entry ∈ (file.hash, (store.receive file.hash).1.file) :: opened,
        ∃ first, Files.first files entry.1 = some first) ∧
      Asked files ((file.hash, (store.receive file.hash).1.file) :: opened)
        (store.receive file.hash).2 asked ∧
      file.hash ∉ asked.map (fun entry => entry.1.hash) := by
  have asking := within.asked.each (file, offset) List.mem_cons_self
  have once := List.nodup_cons.mp within.asked.once
  refine ⟨?_, ⟨once.2, ?_⟩, once.1⟩
  · intro entry member
    obtain rfl | before := List.mem_cons.mp member
    · exact ⟨file, asking.first⟩
    · exact within.known entry before
  · intro entry listed
    exact (within.asked.each entry (List.mem_cons_of_mem _ listed)).receive file.hash
      (hash_ne_of_notMem file.hash once.1 entry listed) _

variable [LinearOrder Id] [EndpointText Id] [ContentHash Hash]

/-- A move of a fetch keeps it within its limit; what it opens, it may open. One case for each
move. A move that opens a file adds its size to what may be opened, a write uses up what its file
still lacks, and every other move only goes on to a phase that holds nothing of its own. -/
theorem step_within (board : Clipboard Id Hash) (next : Fetch Id Hash) (after : Store Hash) (move : Move)
    (within : Within limit opened fetch detached store)
    (settings : board.settings.maxFileSize.toNat = limit)
    (moved : fetch.step board store move = some (next, after)) :
    ∃ more, opened ⊆ more ∧ Within limit more next
      (detached ++ if move = .fail then FileService.leftBy (some fetch) else []) after := by
  have moves := step_moves board store after fetch next move moved
  obtain ⟨stamp, files, phase⟩ := fetch
  -- Most moves only go on, to a phase that writes nothing of its own.
  have goesOn (phase' : Phase Hash) (late : List (Stamp Id × Work Hash)) (none_left : late = [])
      (notCalled : phase' ≠ .called) (quiet : phase'.writer = none)
      (asked : Asked files opened store phase'.asked) :
      ∃ more, opened ⊆ more ∧
        Within limit more { stamp, files, phase := phase' } (detached ++ late) store := by
    refine ⟨opened, List.Subset.refl _, ?_⟩
    rw [none_left, List.append_nil]
    exact within.rest phase' notCalled quiet asked
  cases moves with
  | unwanted => exact goesOn .ended _ rfl (by simp) rfl (Asked.nil _ _ _)
  | wanted wants =>
    obtain ⟨nothing, nobody⟩ := within.called rfl
    have fits : Files.total (board.wanted stamp) ≤ limit := by
      rw [← settings]
      exact not_lt.mp (fun larger => wants (Or.inr larger))
    refine ⟨opened, List.Subset.refl _, ?_⟩
    rw [nothing, nobody]
    exact Within.fresh stamp _ .between fits rfl rfl
  | asked =>
    obtain ⟨_, once, each⟩ := missing_spec store files []
    have leaves := Store.Leaves.ask (missing store files []) store
    have asked := ask_asked files (missing store files []) opened store once
      (fun file member => (each file member).2)
    refine ⟨opened, List.Subset.refl _, ?_⟩
    rw [if_neg (by simp), List.append_nil]
    exact (within.leaves leaves).rest (.pulling _) (by simp) rfl asked
  | requested file offset asked =>
    exact goesOn (.reading file offset asked) _ rfl (by simp) rfl within.asked
  | unheld file offset asked =>
    exact goesOn (.pulling asked) _ rfl (by simp) rfl (Asked.tail within.asked)
  | promised file offset asked =>
    exact goesOn (.opening file offset asked) _ rfl (by simp) rfl within.asked
  | resumed file offset asked stands =>
    have asking := within.asked.each (file, offset) List.mem_cons_self
    obtain ⟨known, rest, once⟩ := within.opens
    obtain ⟨_, named, _, _, _⟩ := store.receive_spec file.hash
    obtain ⟨_, resumes⟩ := resume_tame asking within.tame asking.isSize
    obtain ⟨_, tame⟩ := resumes stands
    refine ⟨(file.hash, (store.receive file.hash).1.file) :: opened, List.subset_cons_self _ _, ?_⟩
    rw [if_neg (by simp), List.append_nil]
    refine ⟨within.total, ?_, known, ?_, rest, ?_, within.threads⟩
    · intro impossible
      cases impossible
    · simpa [writersOf, Phase.writer] using tame
    · intro writer own
      obtain rfl := Option.some.inj own
      rw [named]
      exact once
  | shifted file offset asked =>
    have asking := within.asked.each (file, offset) List.mem_cons_self
    obtain ⟨known, _, _⟩ := within.opens
    obtain ⟨received, _⟩ := resume_tame asking within.tame asking.isSize
    refine ⟨(file.hash, (store.receive file.hash).1.file) :: opened, List.subset_cons_self _ _, ?_⟩
    rw [if_neg (by simp), List.append_nil]
    refine ⟨within.total, ?_, known, received, Asked.nil _ _ _, ?_, within.threads⟩
    · intro impossible
      cases impossible
    · intro writer impossible
      cases impossible
  | arrived incoming queue left asked bytes fits =>
    refine ⟨opened, List.Subset.refl _, ?_⟩
    rw [if_neg (by simp), List.append_nil]
    refine within.moveOn (.receiving incoming (queue ++ [bytes]) (left - bytes.length) asked)
      detached (by simp) ?_ within.asked ?_ within.threads
    · intro writer member
      obtain own | other := List.mem_append.mp member
      · obtain rfl := List.mem_singleton.mp own
        refine ⟨queue.flatten.length + left, List.mem_append_left _ (List.mem_singleton_self _), ?_⟩
        rw [List.flatten_append, List.length_append, List.flatten_singleton]
        omega
      · exact ⟨writer.2, List.mem_append_right _ other, le_refl _⟩
    · intro writer own
      obtain rfl := Option.some.inj own
      exact within.apart (incoming, queue.flatten.length + left) rfl
  | wrote incoming bytes queue left asked =>
    rw [if_neg (by simp), List.append_nil]
    have member : (incoming, (bytes :: queue).flatten.length + left) ∈
        writersOf (.receiving incoming (bytes :: queue) left asked) detached :=
      List.mem_append_left _ (List.mem_singleton_self _)
    have enough : bytes.length + (queue.flatten.length + left) ≤
        (bytes :: queue).flatten.length + left := by
      rw [List.flatten_cons, List.length_append, Nat.add_assoc]
    refine ⟨opened, List.Subset.refl _, ?_⟩
    refine within.write incoming _ _ bytes member enough
      (.receiving (store.write bytes incoming).1 queue left asked) (by simp) detached ?_ rfl ?_
      within.threads
    · intro writer later
      obtain own | other := List.mem_append.mp later
      · exact Or.inr (List.mem_singleton.mp own)
      · exact Or.inl (List.mem_append_right _ other)
    · intro writer own
      obtain rfl := Option.some.inj own
      exact within.apart (incoming, (bytes :: queue).flatten.length + left) rfl
  | closed incoming asked =>
    refine ⟨opened, List.Subset.refl _, ?_⟩
    rw [if_neg (by simp), List.append_nil]
    exact within.moveOn (.finishing incoming asked) detached (by simp)
      (fun writer member => ⟨writer.2, member, le_refl _⟩) within.asked within.apart within.threads
  | finished incoming asked =>
    rw [if_neg (by simp), List.append_nil]
    refine ⟨opened, List.Subset.refl _, within.total, ?_, within.known, ?_, ?_, ?_, within.threads⟩
    · intro impossible
      cases impossible
    · exact (within.tame.finish incoming).mono _ (writersOf_quiet (.pulling asked) rfl _)
    · have apart := within.apart (incoming, 0) rfl
      exact ⟨within.asked.once, fun entry listed => (within.asked.each entry listed).finish incoming
        (hash_ne_of_notMem incoming.hash apart entry listed)⟩
    · intro writer impossible
      cases impossible
  | failedReceiving incoming queue left asked =>
    refine ⟨opened, List.Subset.refl _, ?_⟩
    -- The thread has what was handed to it and goes on.
    refine within.moveOn .between (detached ++ [(stamp, .writing incoming queue)]) (by simp) ?_
      (Asked.nil _ _ _) ?_ ?_
    · intro writer member
      have among : writer ∈ detached.filterMap (fun entry => entry.2.writer) ++
          [(incoming, queue.flatten.length)] := by
        simpa [writersOf, Phase.writer, Work.writer] using member
      obtain other | own := List.mem_append.mp among
      · exact ⟨writer.2, List.mem_append_right _ other, le_refl _⟩
      · obtain rfl := List.mem_singleton.mp own
        exact ⟨queue.flatten.length + left, List.mem_append_left _ (List.mem_singleton_self _),
          Nat.le_add_right _ _⟩
    · intro writer impossible
      cases impossible
    · intro entry member
      obtain other | own := List.mem_append.mp member
      · exact within.threads entry other
      · obtain rfl := List.mem_singleton.mp own
        exact ⟨incoming, queue, rfl⟩
  | complete => exact goesOn .planting _ rfl (by simp) rfl (Asked.nil _ _ _)
  | planted =>
    obtain ⟨more, grows, goes⟩ := goesOn (.linking files) [] rfl (by simp) rfl (Asked.nil _ _ _)
    rw [if_neg (by simp)]
    exact ⟨more, grows, goes.leaves (Store.Leaves.of_blobs rfl)⟩
  | laid => exact goesOn .laid _ rfl (by simp) rfl (Asked.nil _ _ _)
  | linked file rest =>
    obtain ⟨more, grows, goes⟩ := goesOn (.linking rest) [] rfl (by simp) rfl (Asked.nil _ _ _)
    rw [if_neg (by simp)]
    exact ⟨more, grows, goes.leaves (Store.Leaves.of_blobs (Store.linkIn_blobs stamp file store))⟩
  | unlinked file rest =>
    obtain ⟨more, grows, goes⟩ := goesOn .ended [] rfl (by simp) rfl (Asked.nil _ _ _)
    rw [if_neg (by simp)]
    exact ⟨more, grows, goes.leaves (Store.Leaves.of_blobs (Store.linkIn_blobs stamp file store))⟩
  | gaveUp => exact goesOn .ended _ rfl (by simp) rfl (Asked.nil _ _ _)
  -- The rest is an attempt that is over.
  | _ => exact goesOn .between _ rfl (by simp) rfl (Asked.nil _ _ _)

omit [LinearOrder Id] in
/-- A move changes a file only by writing to it. Everything else the file service does creates,
renames, links or removes names, and leaves the bytes behind them as they are. -/
theorem step_writes [DecidableEq Id] (board : Clipboard Id Hash) (next : Fetch Id Hash)
    (after : Store Hash) (move : Move) (moved : fetch.step board store move = some (next, after)) :
    (∃ incoming bytes, move = .write ∧ fetch.phase.nextWrite = some (incoming, bytes) ∧
        after = (store.write bytes incoming).2) ∨
      move ≠ .write ∧ Store.Unwritten store after := by
  have moves := step_moves board store after fetch next move moved
  obtain ⟨stamp, files, phase⟩ := fetch
  cases moves with
  | asked => exact Or.inr ⟨by simp, (Store.Leaves.ask _ store).toUnwritten⟩
  | resumed file | shifted file => exact Or.inr ⟨by simp, .receive file.hash store⟩
  | wrote incoming bytes => exact Or.inl ⟨incoming, bytes, rfl, rfl, rfl⟩
  | finished incoming => exact Or.inr ⟨by simp, .finish incoming store⟩
  | linked file | unlinked file =>
    have same := Store.linkIn_blobs stamp file store
    exact Or.inr ⟨by simp, .of_contents (by rw [same])⟩
  -- The rest leaves the spool, or its files.
  | _ => exact Or.inr ⟨by simp, .of_contents rfl⟩

end Steps

end Fetch

namespace FileService

/-- The write a step makes for a fetch, or for the thread one left. -/
def writes (state : FileService Id Hash) : Label Id Hash → Option (Incoming Hash × Bytes)
  | .fetched .write => state.fetch.bind (fun fetch => fetch.phase.nextWrite)
  | .ran index => state.detached[index]?.bind (fun entry => entry.2.nextWrite)
  | _ => none

section Along
variable [LinearOrder Id] [EndpointText Id] [DecidableEq Hash] [ContentHash Hash]

/-- The files that are written to along a run. -/
def wrote : FileService Id Hash → List (Label Id Hash) → List Nat
  | _, [] => []
  | state, label :: labels =>
      (state.writes label).toList.map (fun write => write.1.file) ++
        (match state.step label with
          | some next => wrote next labels
          | none => [])

/-- The fetch is not disturbed: its process goes on, and no job puts another fetch in its
place. -/
def Uninterrupted (state : FileService Id Hash) : Label Id Hash → Prop
  | .restart _ _ _ _ => False
  | .takeJob => ∀ stamp jobs, state.service.jobs = .fetch stamp :: jobs →
      state.fetch.any (fun fetch => decide (stamp ≤ fetch.stamp) && fetch.phase ≠ .ended) = true
  | _ => True

/-- One fetch of a clip, within its limit and with what it opened. -/
def Bounded (limit : Nat) (stamp : Stamp Id) (opened : List (Hash × Nat))
    (state : FileService Id Hash) : Prop :=
  state.service.board.settings.maxFileSize.toNat = limit ∧
    ∃ fetch, state.fetch = some fetch ∧ fetch.stamp = stamp ∧
      fetch.Within limit opened state.detached state.store

section
variable {limit : Nat} {stamp : Stamp Id} {opened : List (Hash × Nat)}
  {state next : FileService Id Hash}

omit [LinearOrder Id] [EndpointText Id] [DecidableEq Hash] [ContentHash Hash] in
/-- A write is one of a transfer that may make it. -/
theorem writes_writer (fetch : Fetch Id Hash) (running : state.fetch = some fetch)
    (label : Label Id Hash) (incoming : Incoming Hash) (bytes : Bytes)
    (writing : state.writes label = some (incoming, bytes)) :
    ∃ rest, (incoming, bytes.length + rest) ∈ writersOf fetch.phase state.detached := by
  unfold writes at writing
  split at writing
  · rw [running] at writing
    obtain ⟨rest, own⟩ := Phase.nextWrite_writer fetch.phase incoming bytes writing
    exact ⟨rest, List.mem_append_left _ (Option.mem_toList.mpr own)⟩
  · obtain ⟨entry, listed, isWriting⟩ := Option.bind_eq_some_iff.mp writing
    obtain ⟨rest, own⟩ := Work.nextWrite_writer entry.2 incoming bytes isWriting
    exact ⟨rest, List.mem_append_right _
      (List.mem_filterMap.mpr ⟨entry, List.mem_of_getElem? listed, own⟩)⟩
  · cases writing

omit [EndpointText Id] [ContentHash Hash] in
/-- A job that does not start another fetch leaves the one that runs. -/
theorem takeJob_fetch (state : FileService Id Hash) (job : Job Id)
    (keeps : ∀ stamp, job = .fetch stamp →
      state.fetch.any (fun fetch => decide (stamp ≤ fetch.stamp) && fetch.phase ≠ .ended) = true) :
    (takeJob state job).fetch = state.fetch ∧ (takeJob state job).detached = state.detached := by
  cases job with
  | record base capture paths =>
    simp only [takeJob]
    split <;> exact ⟨rfl, rfl⟩
  | copy paths ttl => exact ⟨rfl, rfl⟩
  | fetch stamp =>
    simp only [takeJob]
    rw [if_pos (keeps stamp rfl)]
    exact ⟨rfl, rfl⟩
  | sweep => exact ⟨rfl, rfl⟩

omit [LinearOrder Id] in
/-- What a thread that was left does stays within the limit. The write takes its bytes out of what
the thread was counted with, and a thread with an empty queue is gone from the list. -/
theorem run_within (fetch : Fetch Id Hash) (index : Nat) (whose : Stamp Id) (work : Work Hash)
    (detached : List (Stamp Id × Work Hash)) (store : Store Hash)
    (within : fetch.Within limit opened detached store)
    (listed : detached[index]? = some (whose, work)) :
    fetch.Within limit opened
      (detached.eraseIdx index ++
        ((work.run whose store).1.map (fun work => (whose, work))).toList) (work.run whose store).2 := by
  have member := List.mem_of_getElem? listed
  have goesOn : fetch.phase ≠ .called := by
    intro called
    rw [(within.called called).2] at member
    cases member
  have others : ∀ entry ∈ detached.eraseIdx index, entry ∈ detached :=
    fun entry left => List.mem_of_mem_eraseIdx left
  obtain ⟨incoming, queue, rfl⟩ := within.threads _ member
  cases queue with
  | nil =>
    change fetch.Within limit opened (detached.eraseIdx index ++ []) store
    rw [List.append_nil]
    refine within.moveOn fetch.phase _ goesOn ?_ within.asked within.apart
      (fun entry left => within.threads entry (others entry left))
    intro writer later
    refine ⟨writer.2, ?_, le_refl _⟩
    obtain own | detachedWriter := List.mem_append.mp later
    · exact List.mem_append_left _ own
    · obtain ⟨entry, left, isWriter⟩ := List.mem_filterMap.mp detachedWriter
      exact List.mem_append_right _ (List.mem_filterMap.mpr ⟨entry, others entry left, isWriter⟩)
  | cons bytes queue =>
    change fetch.Within limit opened
      (detached.eraseIdx index ++ [(whose, .writing (store.write bytes incoming).1 queue)])
      (store.write bytes incoming).2
    refine within.write incoming (bytes :: queue).flatten.length queue.flatten.length bytes ?_ ?_
      fetch.phase goesOn _ ?_ rfl within.apart ?_
    · exact List.mem_append_right _ (List.mem_filterMap.mpr ⟨_, member, rfl⟩)
    · rw [List.flatten_cons, List.length_append]
    · intro writer later
      rw [writersOf, List.filterMap_append, ← List.append_assoc] at later
      obtain before | own := List.mem_append.mp later
      · left
        obtain running | detachedWriter := List.mem_append.mp before
        · exact List.mem_append_left _ running
        · obtain ⟨entry, left, isWriter⟩ := List.mem_filterMap.mp detachedWriter
          exact List.mem_append_right _ (List.mem_filterMap.mpr ⟨entry, others entry left, isWriter⟩)
      · exact Or.inr (List.mem_singleton.mp own)
    · intro entry later
      obtain left | own := List.mem_append.mp later
      · exact within.threads entry (others entry left)
      · obtain rfl := List.mem_singleton.mp own
        exact ⟨_, queue, rfl⟩

/-- A step keeps the fetch within its limit, and what it writes to was opened. What the job loop,
the clipboard and the sweeps do leaves the fetch alone; only its own moves and the threads it left
behind touch what is counted. -/
theorem step_bounded (label : Label Id Hash) (bounded : Bounded limit stamp opened state)
    (uninterrupted : Uninterrupted state label) (taken : state.step label = some next) :
    ∃ more, opened ⊆ more ∧ Bounded limit stamp more next := by
  obtain ⟨settings, fetch, running, isStamp, within⟩ := bounded
  -- Most of what happens leaves the fetch and the names of the spool.
  have stays (sameFetch : next.fetch = state.fetch) (sameThreads : next.detached = state.detached)
      (kept : next.service.board.settings = state.service.board.settings)
      (leaves : Store.Leaves state.store next.store) :
      ∃ more, opened ⊆ more ∧ Bounded limit stamp more next := by
    refine ⟨opened, List.Subset.refl _, ?_, fetch, sameFetch.trans running, isStamp, ?_⟩
    · rw [kept]
      exact settings
    · rw [sameThreads]
      exact within.leaves leaves
  cases step_took state next label taken with
  | changed saves event outside =>
    exact stays rfl rfl (act_settings saves state.service event (running_of_outside event outside))
      (.refl _)
  | restarted saves clock settings stray store left => exact uninterrupted.elim
  | started job jobs idle queued =>
    obtain ⟨sameFetch, sameThreads⟩ := takeJob_fetch
      { state with service := { state.service with jobs } } job (by
        rintro stamp rfl
        exact uninterrupted stamp jobs queued)
    apply stays sameFetch sameThreads
    · rw [takeJob_service]
    · rw [takeJob_store]
      exact .refl _
  | took job path left taken tag source => exact stays rfl rfl rfl (.take tag source _)
  | untaken job path left taken tag source => exact stays rfl rfl rfl (.take tag source _)
  | settled saves clock job files =>
    obtain ⟨_, _, _, sameStore, _, sameFetch, sameThreads⟩ := settle_spec saves clock state job files
    apply stays sameFetch sameThreads (settle_settings saves clock state job files)
    rw [sameStore]
    exact .refl _
  | treeSwept live content left tree =>
    apply stays rfl rfl rfl
    apply Store.Leaves.of_blobs
    unfold Store.sweepTree
    split <;> rfl
  | blobSwept content left name =>
    apply stays rfl rfl rfl
    unfold Store.sweepBlob
    split
    · exact .refl _
    · exact .remove _ name
  | fetched ran after move store isFetch stepped =>
    obtain rfl := Option.some.inj (running.symm.trans isFetch)
    obtain ⟨more, grows, goes⟩ := Fetch.step_within state.service.board after store move within
      settings stepped
    have sameStamp := (Fetch.step_spec state.service.board state.store fetch store after move
      stepped).stamp
    refine ⟨more, grows, settings, after, rfl, sameStamp.trans isStamp, ?_⟩
    rw [running]
    exact goes
  | landed saves ran isFetch laid =>
    obtain rfl := Option.some.inj (running.symm.trans isFetch)
    refine ⟨opened, List.Subset.refl _, ?_, { fetch with phase := .ended }, rfl, isStamp, ?_⟩
    · rw [act_settings saves state.service _ (running_of_materialized fetch.stamp _)]
      exact settings
    · exact within.rest .ended (by simp) rfl (Fetch.Asked.nil _ _ _)
  | ran index whose work listed =>
    exact ⟨opened, List.Subset.refl _, settings, fetch, running, isStamp,
      run_within fetch index whose work state.detached state.store within listed⟩
  | _ => exact stays rfl rfl rfl (.refl _)

/-- A run keeps the fetch within its limit, and what was written to along it was opened. The
induction is on the labels and carries what was opened so far, which only grows. -/
theorem run_bounded (state last : FileService Id Hash) (labels : List (Label Id Hash))
    (opened : List (Hash × Nat)) (bounded : Bounded limit stamp opened state)
    (guarded : Runs.Guarded step Uninterrupted state labels)
    (reached : Runs.run step state labels = some last) :
    ∃ more, opened ⊆ more ∧ Bounded limit stamp more last ∧
      wrote state labels ⊆ more.map Prod.snd := by
  induction labels generalizing state opened with
  | nil =>
    obtain rfl := Option.some.inj reached
    exact ⟨opened, List.Subset.refl _, bounded, List.nil_subset _⟩
  | cons label labels inductionHypothesis =>
    obtain ⟨next, taken, rest⟩ := (Runs.run_cons_iff step state last label labels).mp reached
    obtain ⟨more, grows, after⟩ := step_bounded label bounded guarded.1 taken
    obtain ⟨all, growsOn, last_bounded, written⟩ :=
      inductionHypothesis next more after (guarded.2 next taken) rest
    refine ⟨all, List.Subset.trans grows growsOn, last_bounded, ?_⟩
    rw [wrote, taken]
    refine List.append_subset.mpr ⟨?_, written⟩
    intro file among
    obtain ⟨write, isWrite, rfl⟩ := List.mem_map.mp among
    obtain ⟨_, fetch, running, _, within⟩ := bounded
    obtain ⟨incoming, bytes⟩ := write
    obtain ⟨left, member⟩ := writes_writer fetch running label incoming bytes
      (Option.mem_toList.mp isWrite)
    exact List.mem_map.mpr
      ⟨_, growsOn (grows (within.tame.mine _ member)), rfl⟩

omit [LinearOrder Id] in
/-- What a thread does changes a file only by writing to it. The other kinds of work rename, link
and remove, or open without a change. -/
theorem run_writes (whose : Stamp Id) (work : Work Hash) (store : Store Hash) :
    (∃ incoming bytes, work.nextWrite = some (incoming, bytes) ∧
        (work.run whose store).2 = (store.write bytes incoming).2) ∨
      work.nextWrite = none ∧ Store.Unwritten store (work.run whose store).2 := by
  cases work with
  | opening hash => exact Or.inr ⟨rfl, .receive hash store⟩
  | writing incoming queue =>
    cases queue with
    | nil => exact Or.inr ⟨rfl, .of_contents rfl⟩
    | cons bytes queue => exact Or.inl ⟨incoming, bytes, rfl, rfl⟩
  | finishing incoming => exact Or.inr ⟨rfl, .finish incoming store⟩
  | planting files => exact Or.inr ⟨rfl, .of_contents rfl⟩
  | linking files =>
    cases files with
    | nil => exact Or.inr ⟨rfl, .of_contents rfl⟩
    | cons file files =>
      have same : ((Work.linking (file :: files)).run whose store).2.blobs = store.blobs :=
        Store.linkIn_blobs whose file store
      exact Or.inr ⟨rfl, .of_contents (by rw [same])⟩

/-- A step changes a file only by a write of the fetch. -/
theorem step_writes (label : Label Id Hash) (taken : state.step label = some next) :
    (∃ incoming bytes, state.writes label = some (incoming, bytes) ∧
        next.store = (state.store.write bytes incoming).2) ∨
      state.writes label = none ∧ Store.Unwritten state.store next.store := by
  cases step_took state next label taken with
  | restarted saves clock settings stray store left =>
    refine Or.inr ⟨rfl, ?_⟩
    subst left
    cases stray with
    | none => exact .of_contents rfl
    | some torn => exact .create _ torn.2 state.store
  | started job jobs =>
    refine Or.inr ⟨rfl, ?_⟩
    rw [takeJob_store]
    exact .of_contents rfl
  | took job path left taken tag source => exact Or.inr ⟨rfl, (Store.Leaves.take tag source _).toUnwritten⟩
  | untaken job path left taken tag source =>
    exact Or.inr ⟨rfl, (Store.Leaves.take tag source _).toUnwritten⟩
  | settled saves clock job files =>
    obtain ⟨_, _, _, sameStore, _⟩ := settle_spec saves clock state job files
    refine Or.inr ⟨rfl, ?_⟩
    rw [sameStore]
    exact .of_contents rfl
  | treeSwept live content left tree =>
    refine Or.inr ⟨rfl, ?_⟩
    unfold Store.sweepTree
    split <;> exact .of_contents rfl
  | blobSwept content left name =>
    refine Or.inr ⟨rfl, ?_⟩
    unfold Store.sweepBlob
    split <;> exact .of_contents rfl
  | fetched ran after move store isFetch stepped =>
    obtain ⟨incoming, bytes, rfl, isWriting, wrote⟩ | ⟨silent, keeps⟩ :=
      ran.step_writes state.service.board after store move stepped
    · refine Or.inl ⟨incoming, bytes, ?_, wrote⟩
      rw [writes, isFetch]
      exact isWriting
    · refine Or.inr ⟨?_, keeps⟩
      unfold writes
      split
      · rename_i same
        exact absurd (Label.fetched.inj same) silent
      · rename_i same
        cases same
      · rfl
  | ran index whose work listed =>
    obtain ⟨incoming, bytes, isWriting, wrote⟩ | ⟨silent, keeps⟩ := run_writes whose work state.store
    · refine Or.inl ⟨incoming, bytes, ?_, wrote⟩
      rw [writes, listed]
      exact isWriting
    · refine Or.inr ⟨?_, keeps⟩
      rw [writes, listed]
      exact silent
  | _ => exact Or.inr ⟨rfl, .of_contents rfl⟩

end

end Along

end FileService

/-- `u64::checked_add`. -/
def checkedAdd (left right : UInt64) : Option UInt64 :=
  if left.toNat + right.toNat < 2 ^ 64 then some (left + right) else none

/-- A header completes a file where the sum is its size, without an overflow. -/
theorem checkedAdd_eq_some_iff (left right sum : UInt64) :
    checkedAdd left right = some sum ↔ left.toNat + right.toNat = sum.toNat := by
  have small := sum.toNat_lt
  rw [checkedAdd, Option.ite_none_right_eq_some, Option.some.injEq, ← UInt64.toNat_inj,
    UInt64.toNat_add]
  omega

/-- The arithmetic of a fetch on offsets and sizes is that of the numbers: nothing is taken
from less than it, and a transfer stands where it says. -/
structure Fetch.Exact [DecidableEq Hash] (fetch : Fetch Id Hash) (store : Store Hash) : Prop where
  past : ∀ file offset asked,
    fetch.phase = .reading file offset asked ∨ fetch.phase = .opening file offset asked →
      offset.toNat ≤ file.size.toNat
  stands : ∀ file offset asked, fetch.phase = .opening file offset asked →
    (store.receive file.hash).1.at.toNat = (store.receive file.hash).1.hashed.length
  room : ∀ incoming queue left asked, fetch.phase = .receiving incoming queue left asked →
    incoming.hashed.length + queue.flatten.length + left ≤
      Files.firstSize fetch.files incoming.hash

/-- Within the limit, a fetch knows what is in its files. What is asked past and what the transfer
resumes from are lengths that fit 64 bits, and by tameness what is still to come fits behind them.
-/
theorem Fetch.Within.exact [DecidableEq Hash] {limit : Nat} {opened : List (Hash × Nat)}
    {fetch : Fetch Id Hash} {detached : List (Stamp Id × Work Hash)} {store : Store Hash}
    (within : fetch.Within limit opened detached store) : fetch.Exact store where
  past file offset asked isPhase := by
    have first : (file, offset) ∈ fetch.phase.asked := by
      obtain reading | opening := isPhase
      · rw [reading]
        exact List.mem_cons_self
      · rw [opening]
        exact List.mem_cons_self
    exact (within.asked.each _ first).past
  stands file offset asked opening := by
    have first : (file, offset) ∈ fetch.phase.asked := by
      rw [opening]
      exact List.mem_cons_self
    obtain ⟨_, _, resumed, _, _⟩ := store.receive_spec file.hash
    have fits := (within.asked.each _ first).fits
    have small := lt_of_le_of_lt fits file.size.toNat_lt
    rw [Incoming.at, UInt64.toNat_ofNat', resumed, Nat.mod_eq_of_lt small]
  room incoming queue left asked receiving := by
    have member : (incoming, queue.flatten.length + left) ∈ writersOf fetch.phase detached := by
      rw [receiving]
      exact List.mem_append_left _ (List.mem_singleton_self _)
    have room := within.tame.room _ member
    dsimp only at room
    omega

namespace FileService

section Along
variable [LinearOrder Id] [EndpointText Id] [DecidableEq Hash] [ContentHash Hash]

/-- From the moment a fetch starts where no thread of another is left, whatever is on the disk,
whatever peers send and whatever else happens until another fetch takes its place: what
changes a file is a write of the fetch, and no write goes past the size the first entry of the
manifest states for its content; everything it wrote to takes up the limit at most, unless the
limit is the largest there is; no sum or difference of offsets and sizes wraps; and a header that
does not complete its file ends the pull with nothing opened or written. -/
theorem a_transfer_is_bounded (state last : FileService Id Hash) (labels : List (Label Id Hash))
    (stamp : Stamp Id) (called : state.fetch = some { stamp, files := [], phase := .called })
    (alone : state.detached = []) (guarded : Runs.Guarded step Uninterrupted state labels)
    (reached : Runs.run step state labels = some last) :
    ∃ fetch, last.fetch = some fetch ∧ fetch.stamp = stamp ∧
      (∀ label next, last.step label = some next →
        ∀ file < last.store.blobs.contents.length,
          next.store.blobs.content file ≠ last.store.blobs.content file →
          ∃ incoming bytes, last.writes label = some (incoming, bytes) ∧ incoming.file = file) ∧
      (∀ label incoming bytes, last.writes label = some (incoming, bytes) →
        ∃ file, Files.first fetch.files incoming.hash = some file ∧
          incoming.hashed.length + bytes.length ≤ file.size.toNat) ∧
      (last.store.weight (wrote state labels) ≤ state.service.board.settings.maxFileSize.toNat ∨
        state.service.board.settings.maxFileSize.toNat = 2 ^ 64 - 1) ∧
      fetch.Exact last.store ∧
      ∀ file offset asked size, fetch.phase = .reading file offset asked →
        checkedAdd offset size ≠ some file.size →
        last.step (.fetched (.reply (.sending size))) =
          some { last with fetch := some { fetch with phase := .between } } := by
  have begun : Bounded state.service.board.settings.maxFileSize.toNat stamp [] state := by
    refine ⟨rfl, _, called, rfl, ?_⟩
    rw [alone]
    exact Fetch.Within.fresh stamp [] .called (Nat.zero_le _) rfl rfl
  obtain ⟨opened, _, ⟨_, fetch, running, isStamp, within⟩, written⟩ :=
    run_bounded state last labels [] begun guarded reached
  refine ⟨fetch, running, isStamp, ?_, ?_, ?_, within.exact, ?_⟩
  · intro label next taken file there changed
    obtain ⟨incoming, bytes, isWrite, wrote⟩ | ⟨_, keeps⟩ := step_writes label taken
    · refine ⟨incoming, bytes, isWrite, ?_⟩
      by_contra apart
      obtain ⟨rest, member⟩ := writes_writer fetch running label incoming bytes isWrite
      have mine := within.tame.there _ (within.tame.mine _ member)
      apply changed
      rw [wrote, Store.content_write bytes incoming last.store file mine,
        if_neg (fun same => apart same.symm)]
    · exact absurd (keeps.kept file there) changed
  · intro label incoming bytes isWrite
    obtain ⟨rest, member⟩ := writes_writer fetch running label incoming bytes isWrite
    obtain ⟨file, first⟩ := within.known _ (within.tame.mine _ member)
    have room := within.tame.room _ member
    rw [Files.firstSize, first] at room
    change _ ≤ file.size.toNat at room
    dsimp only at room
    exact ⟨file, first, by omega⟩
  · have weighs := within.tame.weight_le (wrote state labels) written
    have total := within.total
    rw [Files.total_eq] at total
    have limit := state.service.board.settings.maxFileSize.toNat_lt
    omega
  · intro file offset asked size reading short
    obtain ⟨whose, files, phase⟩ := fetch
    obtain rfl : phase = .reading file offset asked := reading
    rw [Ne, checkedAdd_eq_some_iff] at short
    simp [step, running, Fetch.step, short]

end Along

/-- A clip is accepted and its fetch gets a first chunk, is aborted by its stream, and the
thread it left writes. -/
theorem a_transfer_is_bounded_once_aborted :
    let clock : Clock :=
      { stamp := 5000000, believed := 5000000, set := 5000000, lapse := 5000000 }
    let named : Clip Nat Bytes :=
      { stamp := { millis := 1, origin := 1 }
        copy := some {
          selection := Selection.ofFiles [[47, 97]]
          secret := false
          ttl := none
          files := [{ path := "a", size := 2, hash := [1, 2] }] } }
    let early : List (Label Nat Bytes) :=
      [.sweep, .sweep, .sweep, .sweep, .takeJob, .sweep, .sweep, .sweep, .sweep,
        .change true (.accept clock named), .takeJob, .sweep, .sweep, .sweep, .sweep, .takeJob]
    let late : List (Label Nat Bytes) :=
      [.fetched .want, .fetched .pull, .fetched .next, .fetched (.reply (.sending 2)),
        .fetched .resume, .fetched (.chunk [1]), .fetched .fail, .ran 0]
    ∃ state last, Runs.run step (start true clock 0 Settings.default [47]) early = some state ∧
      Runs.run step state late = some last ∧ wrote state late = [0] ∧
      last.store.weight (wrote state late) = 1 ∧ ∃ fetch, last.fetch = some fetch ∧
        fetch.Exact last.store := by
  intro clock named early late
  have observed : (Runs.run step (start true clock 0 Settings.default [47]) early).any (fun state =>
      decide (state.fetch = some { stamp := named.stamp, files := [], phase := .called }) &&
        decide (state.detached = []) && decide (wrote state late = [0]) &&
        (Runs.run step state late).any (fun last =>
          decide (last.store.weight (wrote state late) = 1))) = true := by
    decide +kernel
  obtain ⟨state, started, holds⟩ := (Option.any_eq_true _ _).mp observed
  rw [Bool.and_eq_true, Bool.and_eq_true, Bool.and_eq_true] at holds
  obtain ⟨⟨⟨called, alone⟩, files⟩, runs⟩ := holds
  obtain ⟨last, reached, weighs⟩ := (Option.any_eq_true _ _).mp runs
  have guarded : Runs.Guarded step Uninterrupted state late := by
    simp [Runs.Guarded, Uninterrupted, late]
  obtain ⟨fetch, running, _, _, _, _, exact_, _⟩ := a_transfer_is_bounded state last late named.stamp
    (of_decide_eq_true called) (of_decide_eq_true alone) guarded reached
  exact ⟨state, last, started, reached, of_decide_eq_true files, of_decide_eq_true weighs, fetch,
    running, exact_⟩

/-! Where the limit is the largest number there is, the total that is checked saturates
below what the files weigh. -/

namespace Saturating

def smallFile : Files.FileRef Bytes := { path := "a", size := 2, hash := [7, 7] }

def leftFile : Files.FileRef Bytes := { path := "b", size := 9223372036854775807, hash := [1] }

def rightFile : Files.FileRef Bytes := { path := "c", size := 9223372036854775807, hash := [2] }

def stamp : Stamp Nat := { millis := 1, origin := 1 }

/-- A machine without a limit that accepted a clip of all three. -/
def unlimited : Service Nat Bytes :=
  let clock : Clock := { stamp := 5000000, believed := 5000000, set := 5000000, lapse := 5000000 }
  let settings := { Settings.default with maxFileSize := 18446744073709551615 }
  (Service.opened true clock 0 settings none).act true
    (.accept clock {
      stamp
      copy := some {
        selection := Selection.ofFiles [[47, 97]]
        secret := false
        ttl := none
        files := [smallFile, leftFile, rightFile] } })

/-- That machine with a fetch, a spool and what its fetch left to threads. -/
def pulling (files : List (Files.FileRef Bytes)) (phase : Phase Bytes) (store : Store Bytes)
    (detached : List (Stamp Nat × Work Bytes)) : FileService Nat Bytes where
  service := unlimited
  store := store
  trees := [47]
  loop := .idle
  recorded := ⊥
  fetch := some { stamp, files, phase }
  detached := detached

/-- Where labels lead from one point of the fetch, and the files written to. -/
def Pulls (files : List (Files.FileRef Bytes)) (phase : Phase Bytes) (store : Store Bytes)
    (detached : List (Stamp Nat × Work Bytes)) (labels : List (Label Nat Bytes))
    (last : FileService Nat Bytes) (written : List Nat) : Prop :=
  Runs.run step (pulling files phase store detached) labels = some last ∧
    wrote (pulling files phase store detached) labels = written

section Pulls
variable {files : List (Files.FileRef Bytes)} {phase : Phase Bytes} {store : Store Bytes}
  {detached : List (Stamp Nat × Work Bytes)} {labels : List (Label Nat Bytes)}
  {last : FileService Nat Bytes} {written : List Nat}

/-- One move more; `also` is what it writes to. -/
theorem Pulls.move (files' : List (Files.FileRef Bytes)) (phase' : Phase Bytes)
    (after : Store Bytes) (move : Move) (also : List Nat) (goesOn : move ≠ .fail)
    (moved : Fetch.step unlimited.board store { stamp, files, phase } move =
      some ({ stamp, files := files', phase := phase' }, after))
    (writes : ((pulling files phase store detached).writes (.fetched move)).toList.map
      (fun write => write.1.file) = also)
    (rest : Pulls files' phase' after detached labels last written) :
    Pulls files phase store detached (.fetched move :: labels) last (also ++ written) := by
  have taken : (pulling files phase store detached).step (.fetched move) =
      some (pulling files' phase' after detached) := by
    simp [step, pulling, moved, goesOn]
  constructor
  · exact (Runs.run_cons_iff _ _ _ _ _).mpr ⟨_, taken, rest.1⟩
  · rw [wrote, taken, writes]
    exact congrArg (also ++ ·) rest.2

/-- A transfer that fails leaves its thread. -/
theorem Pulls.fail (incoming : Incoming Bytes) (queue : List Bytes) (left : Nat)
    (asked : List (Files.FileRef Bytes × UInt64))
    (rest : Pulls files .between store (detached ++ [(stamp, .writing incoming queue)]) labels last
      written) :
    Pulls files (.receiving incoming queue left asked) store detached (.fetched .fail :: labels)
      last written := by
  have taken : (pulling files (.receiving incoming queue left asked) store detached).step
      (.fetched .fail) =
        some (pulling files .between store (detached ++ [(stamp, .writing incoming queue)])) := rfl
  constructor
  · exact (Runs.run_cons_iff _ _ _ _ _).mpr ⟨_, taken, rest.1⟩
  · rw [wrote, taken]
    exact rest.2

end Pulls

/-- A spool with partials of the large files. -/
def spool (held : Bytes) : Store Bytes :=
  { (Store.empty : Store Bytes) with
    blobs := (Inodes.Dir.empty.create (.part [1]) held).create (.part [2]) held }

def small (bytes : Bytes) : Incoming Bytes := { hash := [7, 7], file := 2, hashed := bytes }

def left (bytes : Bytes) : Incoming Bytes := { hash := [1], file := 0, hashed := bytes }

def right (bytes : Bytes) : Incoming Bytes := { hash := [2], file := 1, hashed := bytes }

def opened (held : Bytes) : Store Bytes := ((spool held).receive [7, 7]).2

def received (held : Bytes) : Store Bytes := ((opened held).write [7, 7] (small [])).2

def finished (held : Bytes) : Store Bytes := (received held).finish (small [7, 7])

def filled (held : Bytes) : Store Bytes := ((finished held).write [0] (left held)).2

def completed (held : Bytes) : Store Bytes := ((filled held).write [0] (right held)).2

/-- The small file comes whole. The transfer of the next one fails after its last byte, and it
is passed over when the fetch asks again. -/
def hostile : List (Label Nat Bytes) :=
  [.fetched .want, .fetched .pull, .fetched .next, .fetched (.reply (.sending 2)),
    .fetched .resume, .fetched (.chunk [7, 7]), .fetched .write, .fetched .close, .fetched .finish,
    .fetched .next, .fetched (.reply (.sending 1)), .fetched .resume, .fetched (.chunk [0]),
    .fetched .write, .fetched .fail, .fetched .pull, .fetched .next, .fetched (.reply .missing),
    .fetched .next, .fetched (.reply (.sending 1)), .fetched .resume, .fetched (.chunk [0]),
    .fetched .write]

/-- What the partials of the large files hold at the end. -/
theorem filled_part (held : Bytes) : (filled held).part leftFile.hash = some (held ++ [0]) := by
  have named : (filled held).blobs.entries (.part [1]) = some 0 := by rfl
  have content : (filled held).blobs.content 0 = held ++ [0] := Inodes.Dir.splice_length [0] held
  rw [Store.part, Inodes.Dir.read, leftFile, named, Option.map_some, content]

/-- All three files are pulled and written to, whatever the partials hold. Of each long file a
partial of 2^63 - 2 bytes is held, so a byte completes it, and the three sizes add up to one byte
more than their saturated total. -/
theorem hostile_pulls (held : Bytes) (length : held.length = 9223372036854775806) :
    Pulls [] .called (spool held) [] hostile
      (pulling [smallFile, leftFile, rightFile] (.receiving (right (held ++ [0])) [] 0 [])
        (completed held) [(stamp, .writing (left (held ++ [0])) [])])
      [2, 0, 1] := by
  let files := [smallFile, leftFile, rightFile]
  let last : List (Files.FileRef Bytes × UInt64) := [(rightFile, 9223372036854775806)]
  let rest := (leftFile, 9223372036854775806) :: last
  let thread : Stamp Nat × Work Bytes := (stamp, .writing (left (held ++ [0])) [])
  have wanted : unlimited.board.wanted stamp = files := by decide +kernel
  have head : unlimited.board.head = stamp := by decide +kernel
  have total : Files.total files = 2 ^ 64 - 1 := by decide +kernel
  have limit : unlimited.board.settings.maxFileSize.toNat = 2 ^ 64 - 1 := by decide +kernel
  have lacking : Fetch.missing (spool held) files [] = files := by rfl
  have lackingStill : Fetch.missing (filled held) files [] = [leftFile, rightFile] := by rfl
  have absent : (spool held).part smallFile.hash = none := by rfl
  have leftPresent : (spool held).part leftFile.hash = some held := by rfl
  have rightPresent : (spool held).part rightFile.hash = some held := by rfl
  have rightStill : (filled held).part rightFile.hash = some held := by rfl
  have leftFits : 9223372036854775806 ≤ leftFile.size.toNat := by decide
  have rightFits : 9223372036854775806 ≤ rightFile.size.toNat := by decide
  have leftWhole : 9223372036854775807 ≤ leftFile.size.toNat := by decide
  have asked : Transfer.ask files (spool held) = ((smallFile, 0) :: rest, spool held) := by
    simp [files, rest, last, Transfer.ask, Store.partialSize, absent, leftPresent, rightPresent,
      leftFits, rightFits, length]
  have askedAgain : Transfer.ask [leftFile, rightFile] (filled held) =
      ((leftFile, 9223372036854775807) :: last, filled held) := by
    simp [last, Transfer.ask, Store.partialSize, filled_part, rightStill, leftWhole, rightFits,
      length]
  have leftResumed : (finished held).receive leftFile.hash = (left held, finished held) := by rfl
  have rightResumed : (filled held).receive rightFile.hash = (right held, filled held) := by rfl
  have leftStands : (left held).at = 9223372036854775806 := by
    rw [Incoming.at, left, length]
    rfl
  have rightStands : (right held).at = 9223372036854775806 := by
    rw [Incoming.at, right, length]
    rfl
  refine Pulls.move files .between (spool held) .want [] (by simp) ?_ rfl ?_
  · simp [Fetch.step, wanted, total, limit, files]
  refine Pulls.move files (.pulling ((smallFile, 0) :: rest)) (spool held) .pull [] (by simp) ?_ rfl ?_
  · simp [Fetch.step, lacking, asked, files]
  -- The small file.
  refine Pulls.move files (.reading smallFile 0 rest) (spool held) .next [] (by simp) ?_ rfl ?_
  · simp [Fetch.step, head]
  refine Pulls.move files (.opening smallFile 0 rest) (spool held) _ [] (by simp) rfl rfl ?_
  refine Pulls.move files (.receiving (small []) [] 2 rest) (opened held) _ [] (by simp) rfl rfl ?_
  refine Pulls.move files (.receiving (small []) [[7, 7]] 0 rest) (opened held) _ [] (by simp) rfl
    rfl ?_
  refine Pulls.move files (.receiving (small [7, 7]) [] 0 rest) (received held) _ [2] (by simp) rfl
    rfl ?_
  refine Pulls.move files (.finishing (small [7, 7]) rest) (received held) _ [] (by simp) rfl rfl ?_
  refine Pulls.move files (.pulling rest) (finished held) _ [] (by simp) rfl rfl ?_
  -- The first large file, up to its last byte.
  refine Pulls.move files (.reading leftFile 9223372036854775806 last) (finished held) .next []
    (by simp) ?_ rfl ?_
  · simp [Fetch.step, head, rest]
  refine Pulls.move files (.opening leftFile 9223372036854775806 last) (finished held) _ []
    (by simp) rfl rfl ?_
  refine Pulls.move files (.receiving (left held) [] 1 last) (finished held) .resume [] (by simp) ?_
    rfl ?_
  · simp [Fetch.step, leftResumed, leftStands]
    rfl
  refine Pulls.move files (.receiving (left held) [[0]] 0 last) (finished held) _ [] (by simp) rfl
    rfl ?_
  refine Pulls.move files (.receiving (left (held ++ [0])) [] 0 last) (filled held) _ [0] (by simp)
    rfl rfl ?_
  refine Pulls.fail (left (held ++ [0])) [] 0 last ?_
  refine Pulls.move files (.pulling ((leftFile, 9223372036854775807) :: last)) (filled held) .pull []
    (by simp) ?_ rfl ?_
  · simp [Fetch.step, lackingStill, askedAgain, files]
  -- The second large file.
  refine Pulls.move files (.reading leftFile 9223372036854775807 last) (filled held) .next []
    (by simp) ?_ rfl ?_
  · simp [Fetch.step, head]
  refine Pulls.move files (.pulling last) (filled held) _ [] (by simp) rfl rfl ?_
  refine Pulls.move files (.reading rightFile 9223372036854775806 []) (filled held) .next []
    (by simp) ?_ rfl ?_
  · simp [Fetch.step, head, last]
  refine Pulls.move files (.opening rightFile 9223372036854775806 []) (filled held) _ []
    (by simp) rfl rfl ?_
  refine Pulls.move files (.receiving (right held) [] 1 []) (filled held) .resume [] (by simp) ?_
    rfl ?_
  · simp [Fetch.step, rightResumed, rightStands]
    rfl
  refine Pulls.move files (.receiving (right held) [[0]] 0 []) (filled held) _ [] (by simp) rfl rfl ?_
  refine Pulls.move files (.receiving (right (held ++ [0])) [] 0 []) (completed held) _ [1] (by simp)
    rfl rfl ?_
  exact ⟨rfl, rfl⟩

/-- Whole, the files weigh one byte more than the largest number there is. -/
theorem completed_weight (held : Bytes) (length : held.length = 9223372036854775806) :
    (completed held).weight [2, 0, 1] = 2 ^ 64 := by
  have names : (completed held).blobs.names = {.blob [7, 7], .part [2], .part [1]} := by rfl
  have leftPart : (completed held).blobs.entries (.part [1]) = some 0 := by rfl
  have rightPart : (completed held).blobs.entries (.part [2]) = some 1 := by rfl
  have blob : (completed held).blobs.entries (.blob [7, 7]) = some 2 := by rfl
  have leftContent : (completed held).blobs.content 0 = held ++ [0] :=
    Inodes.Dir.splice_length [0] held
  have rightContent : (completed held).blobs.content 1 = held ++ [0] :=
    Inodes.Dir.splice_length [0] held
  have smallContent : (completed held).blobs.content 2 = [7, 7] := by rfl
  rw [Store.weight, names]
  simp [Finset.filter_insert, Finset.filter_singleton, Inodes.Dir.read, leftPart, rightPart, blob,
    leftContent, rightContent, smallContent, length]

/-- Where the limit is the largest there is, a fetch of three files, two of them almost whole
already, writes to more than it. -/
theorem hostile_exceeds :
    let held : Bytes := List.replicate 9223372036854775806 0
    let state := pulling [] .called (spool held) []
    ∃ last, Runs.Guarded step Uninterrupted state hostile ∧
      Runs.run step state hostile = some last ∧
      state.service.board.settings.maxFileSize.toNat < last.store.weight (wrote state hostile) := by
  intro held state
  have length : held.length = 9223372036854775806 := List.length_replicate
  obtain ⟨reached, written⟩ := hostile_pulls held length
  refine ⟨_, ?_, reached, ?_⟩
  · simp [Runs.Guarded, Uninterrupted, hostile]
  · have weighs := completed_weight held length
    have limit := state.service.board.settings.maxFileSize.toNat_lt
    rw [written]
    exact weighs ▸ limit

end Saturating

/-! A thread that an aborted fetch left at a content of the next clip writes what it was
handed, which may be more than the next clip states. -/

namespace Overtaken

def clock : Clock := { stamp := 5000000, believed := 5000000, set := 5000000, lapse := 5000000 }

def clip (millis : UInt64) (files : List (Files.FileRef Bytes)) : Clip Nat Bytes where
  stamp := { millis, origin := 1 }
  copy := some {
    selection := Selection.ofFiles [[47, 97]]
    secret := false
    ttl := none
    files }

/-- Two bytes are the limit. -/
def limited : Settings := { Settings.default with maxFileSize := 2 }

/-- A clip whose fetch has a chunk of two bytes to write, and one that names the content with
one byte after it. -/
def early : List (Label Nat Bytes) :=
  [.sweep, .sweep, .sweep, .sweep, .takeJob, .sweep, .sweep, .sweep, .sweep,
    .change true (.accept clock (clip 1 [{ path := "a", size := 2, hash := [5] }])),
    .takeJob, .sweep, .sweep, .sweep, .sweep, .takeJob, .fetched .want, .fetched .pull,
    .fetched .next, .fetched (.reply (.sending 2)), .fetched .resume, .fetched (.chunk [5, 6]),
    .change true (.accept clock (clip 2
      [{ path := "a", size := 1, hash := [5] }, { path := "b", size := 1, hash := [3] }])),
    .takeJob, .sweep, .sweep, .sweep, .sweepBlob (.part [5]), .sweep, .takeJob]

/-- The fetch of the second clip, with the thread of the first between its own steps. -/
def late : List (Label Nat Bytes) :=
  [.fetched .want, .fetched .pull, .fetched .next, .fetched (.reply (.sending 1)),
    .fetched .resume, .fetched (.chunk [5]), .ran 0, .fetched .write, .fetched .close,
    .fetched .finish, .fetched .next, .fetched (.reply (.sending 1)), .fetched .resume,
    .fetched (.chunk [3]), .fetched .write]

end Overtaken

/-- A fetch may write to more than the limit: where the limit is the largest there is, so that
the total that is checked saturates, and where a thread of an aborted fetch is still at a
content of the clip. -/
theorem a_limit_is_exceeded :
    (let held : Bytes := List.replicate 9223372036854775806 0
      let state := Saturating.pulling [] .called (Saturating.spool held) []
      ∃ last, Runs.Guarded step Uninterrupted state Saturating.hostile ∧
        Runs.run step state Saturating.hostile = some last ∧
        state.service.board.settings.maxFileSize.toNat <
          last.store.weight (wrote state Saturating.hostile)) ∧
    (Runs.run step (start true Overtaken.clock 0 Overtaken.limited [47]) Overtaken.early).any
      (fun state =>
        decide (state.fetch = some
          { stamp := (Overtaken.clip 2 []).stamp, files := [], phase := .called }) &&
        (Runs.run step state Overtaken.late).any (fun last =>
          decide (state.service.board.settings.maxFileSize.toNat <
            last.store.weight (wrote state Overtaken.late)))) = true := by
  constructor
  · exact Saturating.hostile_exceeds
  · decide +kernel

end FileService

end Yank
