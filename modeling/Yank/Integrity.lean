import Yank.FileService
import Yank.Runs

/-!
# What is under a hash

The operations of the spool, by anyone and in any order: content is taken in, any
number of transfers are open at a time and each goes on, ends or is dropped where
it stands, trees are laid out and sweeps look at one file after another. The file
service is one such party.

A transfer is checked by what it hashed itself, and what becomes a blob is whatever
file is under the name of its partial by then. Two transfers of one content share
that file: each hashes its own bytes and both write there.
-/

namespace Yank

variable {Id Hash : Type}

namespace Store

/-- Every content has the hash its name says. -/
def Intact [ContentHash Hash] (store : Store Hash) : Prop :=
  ∀ hash bytes, store.blob hash = some bytes → ContentHash.of bytes = hash

/-- What is new under a hash has it. -/
def Honest [ContentHash Hash] (before after : Store Hash) : Prop :=
  ∀ hash bytes, after.blob hash = some bytes →
    before.blob hash = some bytes ∨ ContentHash.of bytes = hash

/-- Where what is new has the hash it is named by, all of it stays so. -/
theorem Intact.honest [ContentHash Hash] (before after : Store Hash) (intact : Intact before)
    (honest : Honest before after) : Intact after := by
  intro hash bytes held
  obtain stood | right := honest hash bytes held
  · exact intact hash bytes stood
  · exact right

/-- Where nothing is new, nothing wrong is. -/
theorem Honest.of_same [ContentHash Hash] (before after : Store Hash)
    (same : ∀ hash, after.blob hash = before.blob hash) : Honest before after := by
  intro hash bytes held
  left
  rw [← same hash]
  exact held

/-- Only the content touched can have changed. -/
theorem Touches.blob (hash : Hash) (before after : Store Hash) (touches : Touches hash before after)
    (own : after.blob hash = before.blob hash) (other : Hash) :
    after.blob other = before.blob other := by
  by_cases same : other = hash
  · rw [same]
    exact own
  · exact (touches.other hash other before after same).1

/-- A write is read under a hash exactly when its file has become that content. -/
theorem blob_write (bytes : Bytes) (incoming : Incoming Hash) (store : Store Hash) (hash : Hash)
    (apart : store.blobs.entries (.blob hash) ≠ some incoming.file) :
    (store.write bytes incoming).2.blob hash = store.blob hash :=
  Inodes.Dir.read_writeAt_of_ne store.blobs (.blob hash) bytes incoming.file _ apart

/-- Writing to a file that already has its name changes the content under that name. -/
theorem blob_write_under (bytes : Bytes) (incoming : Incoming Hash) (store : Store Hash) (hash : Hash)
    (under : store.blobs.entries (.blob hash) = some incoming.file) :
    (store.write bytes incoming).2.blob hash = some (Inodes.Dir.splice incoming.hashed.length bytes
      (store.blobs.content incoming.file)) :=
  Inodes.Dir.read_writeAt_self store.blobs (.blob hash) bytes incoming.file _ under

/-- The content under a hash is that of the file named so. -/
theorem blob_of_entry (store : Store Hash) (hash : Hash) (file : Nat)
    (under : store.blobs.entries (.blob hash) = some file) :
    store.blob hash = some (store.blobs.content file) := by
  rw [blob, Inodes.Dir.read, under, Option.map_some]

section Operations
variable [DecidableEq Hash] [ContentHash Hash] (store : Store Hash)

/-- Taking a name away brings nothing. -/
theorem honest_remove (name : SpoolName Hash) :
    Honest store { store with blobs := store.blobs.remove name } := by
  intro hash bytes held
  left
  by_cases gone : SpoolName.blob hash = name
  · rw [Store.blob, gone, Inodes.Dir.read_remove_self] at held
    cases held
  · rw [Store.blob, Inodes.Dir.read_remove_of_ne _ _ _ gone] at held
    exact held

/-- A file under a tag is no content yet. -/
theorem honest_stray (tag : UInt64) (bytes : Bytes) :
    Honest store { store with blobs := store.blobs.create (.taking tag) bytes } :=
  Honest.of_same store _ (fun hash => Inodes.Dir.read_create_of_ne store.blobs _ _ bytes (by simp))

/-- What is taken in goes under the hash of what was read. The copy is named by the hash of the
bytes that were copied, if that content is not there already. -/
theorem honest_take (tag : UInt64) (source : Option Bytes) :
    Honest store (store.take tag source).1 := by
  cases source with
  | none => exact honest_remove store (.taking tag)
  | some taken =>
    let created := store.blobs.create (.taking tag) taken
    have others : ∀ hash, created.read (.blob hash) = store.blob hash := fun hash =>
      Inodes.Dir.read_create_of_ne store.blobs _ _ taken (by simp)
    by_cases here : store.has (ContentHash.of taken) = true
    · have shape : (store.take tag (some taken)).1.blobs = created.remove (.taking tag) := if_pos here
      refine Honest.of_same store _ ?_
      intro hash
      rw [Store.blob, shape, Inodes.Dir.read_remove_of_ne _ _ _ (by simp), others]
    · have shape : (store.take tag (some taken)).1.blobs =
          created.rename (.taking tag) (.blob (ContentHash.of taken)) := if_neg here
      have present : (created.entries (.taking tag)).isSome = true := by
        simp [created, Inodes.Dir.create]
      intro hash bytes held
      rw [Store.blob, shape, Inodes.Dir.read_rename _ _ _ _ present] at held
      by_cases own : SpoolName.blob hash = .blob (ContentHash.of taken)
      · rw [if_pos own] at held
        have read : created.read (.taking tag) = some taken := Inodes.Dir.read_create_self _ _ _
        rw [read] at held
        right
        rw [← Option.some.inj held]
        exact (SpoolName.blob.inj own).symm
      · rw [if_neg own, if_neg (by simp), others] at held
        exact Or.inl held

omit [ContentHash Hash] in
/-- Looking at a partial changes no content. -/
theorem blob_partialSize (hash : Hash) (size : UInt64) (other : Hash) :
    (store.partialSize hash size).2.blob other = store.blob other := by
  obtain ⟨_, _, _, own, touches⟩ := partialSize_spec hash size store
  exact touches.blob hash store _ own other

omit [ContentHash Hash] in
/-- Nor does opening a transfer. -/
theorem blob_receive (hash other : Hash) :
    (store.receive hash).2.blob other = store.blob other := by
  obtain ⟨_, _, _, own, touches⟩ := receive_spec hash store
  exact touches.blob hash store _ own other

/-- A transfer that got the wrong bytes leaves every content. -/
theorem blob_finish_wrong (incoming : Incoming Hash)
    (wrong : ContentHash.of incoming.hashed ≠ incoming.hash) (other : Hash) :
    (store.finish incoming).blob other = store.blob other := by
  obtain ⟨_, own, touches⟩ := finish_mismatch incoming store wrong
  exact touches.blob incoming.hash store _ own other

/-- Any other gives its hash whatever its partial holds, if there is one. The rename takes the
partial away and puts it over whatever was there under the content's name. -/
theorem blob_finish_right (incoming : Incoming Hash)
    (right : ContentHash.of incoming.hashed = incoming.hash) (other : Hash) :
    (store.finish incoming).blob other =
      if other = incoming.hash then (store.part incoming.hash).or (store.blob other)
      else store.blob other := by
  have shape : (store.finish incoming).blobs =
      store.blobs.rename (.part incoming.hash) (.blob incoming.hash) := by
    rw [finish, if_neg (not_not.mpr right)]
  rw [Store.blob, shape]
  cases held : store.blobs.entries (.part incoming.hash) with
  | none =>
    have absent : SpoolName.part incoming.hash ∉ store.blobs.names := by
      intro listed
      have present := (store.blobs.listed _).mp listed
      rw [held] at present
      cases present
    have nothing : store.part incoming.hash = none := by
      rw [Store.part, Inodes.Dir.read, held, Option.map_none]
    rw [Inodes.Dir.rename_absent _ _ _ absent, nothing, Option.none_or, ite_self]
    rfl
  | some file =>
    have there : store.part incoming.hash = some (store.blobs.content file) := by
      rw [Store.part, Inodes.Dir.read, held, Option.map_some]
    rw [Inodes.Dir.read_rename _ _ _ _ (by rw [held]; rfl), there, Option.some_or]
    by_cases own : other = incoming.hash
    · rw [if_pos (congrArg SpoolName.blob own), if_pos own]
      exact there
    · rw [if_neg (fun same => own (SpoolName.blob.inj same)), if_neg (by simp), if_neg own]
      rfl

variable [EndpointText Id]

omit [DecidableEq Hash] [ContentHash Hash] in
/-- Links are no content. -/
theorem blob_linkIn (stamp : Stamp Id) (file : Files.FileRef Hash) (other : Hash) :
    (store.linkIn stamp file).1.blob other = store.blob other := by
  rw [Store.blob, linkIn_blobs]
  rfl

omit [ContentHash Hash] [DecidableEq Hash] in
/-- Sweeping trees leaves all content. -/
theorem blob_sweepTree (live : Option (Stamp Id)) (tree : String) (other : Hash) :
    (store.sweepTree live tree).blob other = store.blob other := by
  rw [Store.blob, (sweepTree_spec live tree store).1]
  rfl

omit [EndpointText Id] in
/-- Sweeping content brings none. -/
theorem honest_sweepBlob (content : List Hash) (name : SpoolName Hash) :
    Honest store (store.sweepBlob content name) := by
  unfold sweepBlob
  by_cases kept : isNamed content name = true
  · rw [if_pos kept]
    exact Honest.of_same store store (fun _ => rfl)
  · rw [if_neg kept]
    exact honest_remove store name

end Operations

end Store

/-- The spool with the transfers that are open: those that still hash back in what
their partial holds, and those that take what arrives. -/
structure Spool (Hash : Type) where
  store : Store Hash
  reading : Multiset (Incoming Hash)
  writing : Multiset (Incoming Hash)

namespace Spool

/-- One operation. Content is read back in as many pieces as it takes, and a
transfer may be dropped anywhere. -/
inductive Label (Id Hash : Type) where
  | take (tag : UInt64) (source : Option Bytes)
  | stray (tag : UInt64) (bytes : Bytes)
  | partialSize (hash : Hash) (size : UInt64)
  | receive (hash : Hash)
  | rehash (incoming : Incoming Hash) (count : Nat)
  | resume (incoming : Incoming Hash)
  | write (incoming : Incoming Hash) (bytes : Bytes)
  | finish (incoming : Incoming Hash)
  | dropReading (incoming : Incoming Hash)
  | dropWriting (incoming : Incoming Hash)
  | plant (stamp : Stamp Id)
  | linkIn (stamp : Stamp Id) (file : Files.FileRef Hash)
  | sweepTree (live : Option (Stamp Id)) (tree : String)
  | sweepBlob (content : List Hash) (name : SpoolName Hash)

variable [EndpointText Id] [DecidableEq Hash] [ContentHash Hash]

/-- What one operation makes of the spool; `none` when no such transfer is open. -/
def step (spool : Spool Hash) : Label Id Hash → Option (Spool Hash)
  | .take tag source => some { spool with store := (spool.store.take tag source).1 }
  | .stray tag bytes =>
      some { spool with
        store := { spool.store with blobs := spool.store.blobs.create (.taking tag) bytes } }
  | .partialSize hash size => some { spool with store := (spool.store.partialSize hash size).2 }
  | .receive hash =>
      let opened := spool.store.receive hash
      some { spool with
        store := opened.2
        reading := { opened.1 with hashed := [] } ::ₘ spool.reading }
  | .rehash incoming count =>
      if incoming ∈ spool.reading then
        let rest := (spool.store.blobs.content incoming.file).drop incoming.hashed.length
        some { spool with
          reading := { incoming with hashed := incoming.hashed ++ rest.take count } ::ₘ
            spool.reading.erase incoming }
      else none
  | .resume incoming =>
      -- The file is read to its end before anything is written.
      if incoming ∈ spool.reading ∧
          (spool.store.blobs.content incoming.file).length ≤ incoming.hashed.length then
        some { spool with
          reading := spool.reading.erase incoming
          writing := incoming ::ₘ spool.writing }
      else none
  | .write incoming bytes =>
      if incoming ∈ spool.writing then
        let written := spool.store.write bytes incoming
        some { spool with
          store := written.2
          writing := written.1 ::ₘ spool.writing.erase incoming }
      else none
  | .finish incoming =>
      if incoming ∈ spool.writing then
        some { spool with
          store := spool.store.finish incoming
          writing := spool.writing.erase incoming }
      else none
  | .dropReading incoming =>
      if incoming ∈ spool.reading then
        some { spool with reading := spool.reading.erase incoming }
      else none
  | .dropWriting incoming =>
      if incoming ∈ spool.writing then
        some { spool with writing := spool.writing.erase incoming }
      else none
  | .plant stamp => some { spool with store := spool.store.plant stamp }
  | .linkIn stamp file => some { spool with store := (spool.store.linkIn stamp file).1 }
  | .sweepTree live tree => some { spool with store := spool.store.sweepTree live tree }
  | .sweepBlob content name => some { spool with store := spool.store.sweepBlob content name }

/-- Nothing stands between what a transfer hashed and what its partial holds: one
that got the right bytes finds them there when it ends, if it finds anything, and
one that still writes to a file that became a blob writes what is there already. -/
def Verified (spool : Spool Hash) (label : Label Id Hash) : Prop :=
  match label with
  | .write incoming bytes => ∀ hash, spool.store.blobs.entries (.blob hash) = some incoming.file →
      Inodes.Dir.splice incoming.hashed.length bytes (spool.store.blobs.content incoming.file) =
        spool.store.blobs.content incoming.file
  | .finish incoming => ContentHash.of incoming.hashed = incoming.hash →
      ∀ held, spool.store.part incoming.hash = some held → held = incoming.hashed
  | _ => True

section Steps
variable (free : Function.Injective (ContentHash.of : Bytes → Hash))
include free

omit [DecidableEq Hash] in
/-- A write into a file that became a blob spoils it unless it changes nothing. The blob is named
by a hash, and no other bytes have that hash. -/
theorem intact_write_iff (store : Store Hash) (incoming : Incoming Hash) (bytes : Bytes)
    (intact : store.Intact) :
    (store.write bytes incoming).2.Intact ↔
      ∀ hash, store.blobs.entries (.blob hash) = some incoming.file →
        Inodes.Dir.splice incoming.hashed.length bytes (store.blobs.content incoming.file) =
          store.blobs.content incoming.file := by
  constructor
  · intro after hash under
    have before := intact hash _ (store.blob_of_entry hash incoming.file under)
    have written := after hash _ (store.blob_write_under bytes incoming hash under)
    exact free (written.trans before.symm)
  · intro unchanged hash held read
    by_cases under : store.blobs.entries (.blob hash) = some incoming.file
    · rw [store.blob_write_under bytes incoming hash under, unchanged hash under,
        ← store.blob_of_entry hash incoming.file under] at read
      exact intact hash held read
    · rw [store.blob_write bytes incoming hash under] at read
      exact intact hash held read

/-- The end of a transfer spoils its content unless its partial holds what it hashed. A transfer
whose hash is wrong drops the partial; one whose hash is right renames whatever the partial holds,
which another transfer may have written to. -/
theorem intact_finish_iff (store : Store Hash) (incoming : Incoming Hash) (intact : store.Intact) :
    (store.finish incoming).Intact ↔
      (ContentHash.of incoming.hashed = incoming.hash →
        ∀ held, store.part incoming.hash = some held → held = incoming.hashed) := by
  by_cases right : ContentHash.of incoming.hashed = incoming.hash
  · have moved := store.blob_finish_right incoming right
    constructor
    · intro after _ held there
      have blob : (store.finish incoming).blob incoming.hash = some held := by
        rw [moved, if_pos rfl, there, Option.some_or]
      exact free ((after incoming.hash held blob).trans right.symm)
    · intro verified hash bytes read
      rw [moved] at read
      by_cases own : hash = incoming.hash
      · subst own
        rw [if_pos rfl] at read
        cases there : store.part incoming.hash with
        | none =>
          rw [there, Option.none_or] at read
          exact intact _ bytes read
        | some held =>
          rw [there, Option.some_or] at read
          rw [← Option.some.inj read, verified right held there]
          exact right
      · rw [if_neg own] at read
        exact intact hash bytes read
  · have same := store.blob_finish_wrong incoming right
    constructor
    · intro _ matched
      exact absurd matched right
    · intro _
      exact Store.Intact.honest store _ intact (Store.Honest.of_same store _ same)

/-- An operation keeps every content what it is named exactly when it is verified. Only `write`
and `finish` are ever in doubt; the others touch no blob, remove some, or name a new one by what
it holds. -/
theorem step_intact_iff (spool next : Spool Hash) (label : Label Id Hash)
    (intact : spool.store.Intact) (taken : spool.step label = some next) :
    next.store.Intact ↔ spool.Verified label := by
  have kept : ∀ after, Store.Honest spool.store after → (after.Intact ↔ True) := fun after honest =>
    iff_true_intro (Store.Intact.honest spool.store after intact honest)
  have same : ∀ after : Store Hash, (∀ hash, after.blob hash = spool.store.blob hash) →
      (after.Intact ↔ True) := fun after same => kept after (Store.Honest.of_same spool.store after same)
  cases label with
  | take tag source =>
    obtain rfl := Option.some.inj taken
    exact kept _ (spool.store.honest_take tag source)
  | stray tag bytes =>
    obtain rfl := Option.some.inj taken
    exact kept _ (spool.store.honest_stray tag bytes)
  | partialSize hash size =>
    obtain rfl := Option.some.inj taken
    exact same _ (spool.store.blob_partialSize hash size)
  | receive hash =>
    obtain rfl := Option.some.inj taken
    exact same _ (spool.store.blob_receive hash)
  | rehash incoming count =>
    obtain ⟨_, rfl⟩ := by simpa [step] using taken
    exact same _ (fun _ => rfl)
  | resume incoming =>
    obtain ⟨_, rfl⟩ := by simpa [step] using taken
    exact same _ (fun _ => rfl)
  | write incoming bytes =>
    obtain ⟨_, rfl⟩ := by simpa [step] using taken
    exact intact_write_iff free spool.store incoming bytes intact
  | finish incoming =>
    obtain ⟨_, rfl⟩ := by simpa [step] using taken
    exact intact_finish_iff free spool.store incoming intact
  | dropReading incoming =>
    obtain ⟨_, rfl⟩ := by simpa [step] using taken
    exact same _ (fun _ => rfl)
  | dropWriting incoming =>
    obtain ⟨_, rfl⟩ := by simpa [step] using taken
    exact same _ (fun _ => rfl)
  | plant stamp =>
    obtain rfl := Option.some.inj taken
    exact same _ (fun _ => rfl)
  | linkIn stamp file =>
    obtain rfl := Option.some.inj taken
    exact same _ (spool.store.blob_linkIn stamp file)
  | sweepTree live tree =>
    obtain rfl := Option.some.inj taken
    exact same _ (spool.store.blob_sweepTree live tree)
  | sweepBlob content name =>
    obtain rfl := Option.some.inj taken
    exact kept _ (spool.store.honest_sweepBlob content name)

/-- Along a run from a spool whose contents are what they are named, they stay so in
every state exactly when every operation is verified: a transfer that got the right
bytes ends on a partial that holds them, and none writes other bytes into a file that
became a blob. -/
theorem blobs_keep_their_hash_iff (spool last : Spool Hash) (labels : List (Label Id Hash))
    (intact : spool.store.Intact) (reached : Runs.run step spool labels = some last) :
    Runs.Guarded step Verified spool labels ↔
      ∀ early late middle, labels = early ++ late → Runs.run step spool early = some middle →
        middle.store.Intact :=
  Runs.guarded_iff_reached step Verified (fun spool => spool.store.Intact)
    (fun spool label next held taken => step_intact_iff free spool next label held taken)
    spool last labels intact reached

end Steps

/-- One transfer by itself: what it hashed is what becomes the blob. With the partial to itself,
each of its steps is verified. -/
theorem blobs_keep_their_hash_of_one_transfer :
    let opened : Incoming Bytes := { hash := [1, 2], file := 0, hashed := [] }
    let whole : Incoming Bytes := { opened with hashed := [1, 2] }
    let labels : List (Label Nat Bytes) :=
      [.receive [1, 2], .resume opened, .write opened [1, 2], .finish whole]
    ∃ last, Runs.run step { store := .empty, reading := 0, writing := 0 } labels = some last ∧
      last.store.blob [1, 2] = some [1, 2] ∧ last.store.Intact := by
  intro opened whole labels
  let first : Spool Bytes := { store := .empty, reading := 0, writing := 0 }
  have observed : (Runs.run step first labels).any (fun last =>
      decide (last.store.blob [1, 2] = some [1, 2])) = true := by
    decide
  obtain ⟨last, reached, there⟩ := (Option.any_eq_true _ _).mp observed
  refine ⟨last, reached, of_decide_eq_true there, ?_⟩
  have intact : first.store.Intact := by
    intro hash bytes held
    cases held
  have free : Function.Injective (ContentHash.of : Bytes → Bytes) := fun _ _ same => same
  have verified : Runs.Guarded step Verified first labels := by
    refine ⟨trivial, fun second opens => ⟨trivial, fun third resumes => ?_⟩⟩
    obtain rfl := Option.some.inj opens
    obtain rfl := Option.some.inj resumes
    refine ⟨?_, fun fourth writes => ?_⟩
    · intro hash under
      cases under
    obtain rfl := Option.some.inj writes
    refine ⟨?_, fun _ _ => trivial⟩
    intro _ held there
    exact (Option.some.inj there).symm
  exact (blobs_keep_their_hash_iff free first last labels intact reached).mp verified labels [] last
    (List.append_nil labels).symm reached

/-- Some operations lead from one spool to the other. -/
def Leads (Id : Type) [EndpointText Id] (before after : Spool Hash) : Prop :=
  ∃ labels : List (Label Id Hash), Runs.run step before labels = some after

/-- No operations lead to the same spool. -/
theorem Leads.refl (spool : Spool Hash) : Leads Id spool spool := ⟨[], rfl⟩

/-- One operation leads where it goes. -/
theorem Leads.of_step (before after : Spool Hash) (label : Label Id Hash)
    (taken : before.step label = some after) : Leads Id before after :=
  ⟨[label], (Runs.run_cons_iff _ _ _ _ _).mpr ⟨after, taken, rfl⟩⟩

/-- Operations after operations are operations. -/
theorem Leads.trans (first second third : Spool Hash) (early : Leads Id first second)
    (late : Leads Id second third) : Leads Id first third := by
  obtain ⟨earlyLabels, reached⟩ := early
  obtain ⟨lateLabels, further⟩ := late
  exact ⟨earlyLabels ++ lateLabels, (Runs.run_append_iff _ _ _ _ _).mpr ⟨second, reached, further⟩⟩

end Spool

/-- The transfers some work goes on with. -/
def Work.transfers : Work Hash → Multiset (Incoming Hash)
  | .writing incoming _ => {incoming}
  | .finishing incoming => {incoming}
  | _ => 0

namespace FileService

/-- The transfers of all that works. -/
def transfersOf (works : List (Stamp Id × Work Hash)) : Multiset (Incoming Hash) :=
  (works.map (fun entry => entry.2.transfers)).sum

/-- The spool of a machine, with what its fetches have open. -/
def spool (state : FileService Id Hash) : Spool Hash where
  store := state.store
  reading := 0
  writing := transfersOf (leftBy state.fetch) + transfersOf state.detached

/-- The transfers of two lists are those of each. -/
theorem transfersOf_append (early late : List (Stamp Id × Work Hash)) :
    transfersOf (early ++ late) = transfersOf early + transfersOf late := by
  simp [transfersOf]

/-- The transfers of work that may be there are its own. -/
theorem transfersOf_toList (stamp : Stamp Id) (work : Option (Work Hash)) :
    transfersOf (work.map (fun work => (stamp, work))).toList = work.elim 0 Work.transfers := by
  cases work <;> simp [transfersOf]

/-- Work that is taken off a list takes its transfers with it. -/
theorem transfersOf_eraseIdx (works : List (Stamp Id × Work Hash)) (index : Nat)
    (entry : Stamp Id × Work Hash) (listed : works[index]? = some entry) :
    transfersOf works = entry.2.transfers + transfersOf (works.eraseIdx index) := by
  obtain ⟨inside, rfl⟩ := List.getElem?_eq_some_iff.mp listed
  have order := (List.getElem_cons_eraseIdx_perm inside).map (fun entry => entry.2.transfers)
  have sums := order.sum_eq
  rw [List.map_cons, List.sum_cons] at sums
  exact sums.symm

variable [EndpointText Id] [DecidableEq Hash] [ContentHash Hash]

/-- A step of a thread is an operation or two. Opening a partial and giving it up again is two
operations, a thread with nothing left to link does none, and the rest is one each. -/
theorem run_leads (stamp : Stamp Id) (store : Store Hash) (work : Work Hash)
    (others : Multiset (Incoming Hash)) :
    Spool.Leads Id { store, reading := 0, writing := work.transfers + others }
      { store := (work.run stamp store).2
        reading := 0
        writing := ((work.run stamp store).1.elim 0 Work.transfers) + others } := by
  cases work with
  | opening hash =>
    let opened : Incoming Hash := { (store.receive hash).1 with hashed := [] }
    refine Spool.Leads.trans _ { store := (store.receive hash).2, reading := {opened}, writing := others }
      _ ?_ ?_
    · refine Spool.Leads.of_step _ _ (.receive hash) ?_
      simp [Spool.step, Work.transfers, opened]
    · refine Spool.Leads.of_step _ _ (.dropReading opened) ?_
      simp [Spool.step, Work.run]
  | writing incoming queue =>
    cases queue with
    | nil =>
      refine Spool.Leads.of_step _ _ (.dropWriting incoming) ?_
      simp [Spool.step, Work.run, Work.transfers]
    | cons bytes queue =>
      refine Spool.Leads.of_step _ _ (.write incoming bytes) ?_
      simp [Spool.step, Work.run, Work.transfers]
  | finishing incoming =>
    refine Spool.Leads.of_step _ _ (.finish incoming) ?_
    simp [Spool.step, Work.run, Work.transfers]
  | planting files =>
    refine Spool.Leads.of_step _ _ (.plant stamp) ?_
    simp [Spool.step, Work.run, Work.transfers]
  | linking files =>
    cases files with
    | nil => exact Spool.Leads.refl _
    | cons file files =>
      refine Spool.Leads.of_step _ _ (.linkIn stamp file) ?_
      cases linked : (store.linkIn stamp file).2 <;> simp [Spool.step, Work.run, Work.transfers, linked]

/-- What a fetch has open. -/
def held (fetch : Fetch Id Hash) : Multiset (Incoming Hash) := fetch.work.elim 0 Work.transfers

omit [EndpointText Id] [DecidableEq Hash] [ContentHash Hash] in
/-- What a fetch leaves behind has the transfers it held. -/
theorem transfersOf_leftBy (fetch : Option (Fetch Id Hash)) :
    transfersOf (leftBy fetch) = fetch.elim 0 held := by
  cases fetch with
  | none => rfl
  | some fetch => exact transfersOf_toList fetch.stamp fetch.work

/-- Looking at what is held of some files looks at each partial. -/
theorem ask_leads (files : List (Files.FileRef Hash)) (store : Store Hash)
    (writing : Multiset (Incoming Hash)) :
    Spool.Leads Id { store, reading := 0, writing }
      { store := (Transfer.ask files store).2, reading := 0, writing } := by
  induction files generalizing store with
  | nil => exact Spool.Leads.refl _
  | cons file files inductionHypothesis =>
    refine Spool.Leads.trans _ _ _ ?_ (inductionHypothesis (store.partialSize file.hash file.size).2)
    exact Spool.Leads.of_step _ _ (.partialSize file.hash file.size) rfl

/-- A transfer that opens has read its partial to the end. It is opened, read in one piece as far
as it goes, and resumed behind that. -/
theorem receive_leads (hash : Hash) (store : Store Hash) (others : Multiset (Incoming Hash)) :
    Spool.Leads Id { store, reading := 0, writing := others }
      { store := (store.receive hash).2
        reading := 0
        writing := (store.receive hash).1 ::ₘ others } := by
  obtain ⟨opened, _⟩ := store.receive_spec hash
  let whole := (store.receive hash).1
  let fresh : Incoming Hash := { whole with hashed := [] }
  let standing := (store.receive hash).2
  have all : [] ++ ((standing.blobs.content fresh.file).drop 0).take whole.hashed.length =
      whole.hashed := by
    rw [List.nil_append, List.drop_zero, opened.hashed, List.take_length]
  refine Spool.Leads.trans _ { store := standing, reading := {fresh}, writing := others } _ ?_ ?_
  · refine Spool.Leads.of_step _ _ (.receive hash) ?_
    simp [Spool.step, fresh, whole, standing]
  refine Spool.Leads.trans _ { store := standing, reading := {whole}, writing := others } _ ?_ ?_
  · refine Spool.Leads.of_step _ _ (.rehash fresh whole.hashed.length) ?_
    simp only [Spool.step, Multiset.mem_singleton, if_true, fresh, List.length_nil]
    rw [all]
    simp [whole]
  · refine Spool.Leads.of_step _ _ (.resume whole) ?_
    have atEnd : (standing.blobs.content whole.file).length ≤ whole.hashed.length := by
      rw [opened.hashed]
    simp [Spool.step, atEnd, whole, standing]

/-- A move of a fetch is some operations on the spool. The handles it holds before and after are
accounted for, and those it leaves when it fails go on as handles of a thread. -/
theorem fetch_leads [DecidableEq Id] (board : Clipboard Id Hash) (store after : Store Hash)
    (fetch next : Fetch Id Hash) (move : Move) (others : Multiset (Incoming Hash))
    (moved : fetch.step board store move = some (next, after)) :
    Spool.Leads Id { store, reading := 0, writing := held fetch + others }
      { store := after
        reading := 0
        writing := held next + (if move = .fail then held fetch else 0) + others } := by
  have moves := Fetch.step_moves board store after fetch next move moved
  obtain ⟨stamp, files, phase⟩ := fetch
  have opens (hash : Hash) : Spool.Leads Id { store, reading := 0, writing := others }
      { store := (store.receive hash).2
        reading := 0
        writing := (store.receive hash).1 ::ₘ others } :=
    receive_leads hash store others
  cases moves with
  | asked => exact ask_leads _ store _
  | resumed file => simpa [held, Fetch.work, Work.transfers] using opens file.hash
  | shifted file =>
    -- The partial moved: what was opened is given up again.
    have dropped : Spool.Leads Id
        { store := (store.receive file.hash).2
          reading := 0
          writing := (store.receive file.hash).1 ::ₘ others }
        { store := (store.receive file.hash).2, reading := 0, writing := others } := by
      refine Spool.Leads.of_step _ _ (.dropWriting (store.receive file.hash).1) ?_
      simp [Spool.step]
    simpa [held, Fetch.work, Work.transfers] using
      Spool.Leads.trans _ _ _ (opens file.hash) dropped
  | wrote incoming bytes queue =>
    simpa [held, Fetch.work, Work.run, Work.transfers] using
      run_leads stamp store (.writing incoming (bytes :: queue)) others
  | finished incoming =>
    simpa [held, Fetch.work, Work.run, Work.transfers] using
      run_leads stamp store (.finishing incoming) others
  | planted =>
    simpa [held, Fetch.work, Work.run, Work.transfers] using
      run_leads stamp store (.planting files) others
  | linked file rest made =>
    simpa [held, Fetch.work, Work.run, Work.transfers, made] using
      run_leads stamp store (.linking (file :: rest)) others
  | unlinked file rest failed =>
    simpa [held, Fetch.work, Work.run, Work.transfers, failed] using
      run_leads stamp store (.linking (file :: rest)) others
  -- The rest leaves the spool alone.
  | _ => simpa [held, Fetch.work, Work.transfers] using Spool.Leads.refl _

/-- A process that ends drops what it had open. -/
theorem end_leads (store : Store Hash) (writing : Multiset (Incoming Hash)) :
    Spool.Leads Id { store, reading := 0, writing } { store, reading := 0, writing := 0 } := by
  induction writing using Multiset.induction with
  | empty => exact Spool.Leads.refl _
  | cons incoming writing inductionHypothesis =>
    refine Spool.Leads.trans _ { store, reading := 0, writing } _ ?_ inductionHypothesis
    refine Spool.Leads.of_step _ _ (.dropWriting incoming) ?_
    simp [Spool.step]

variable [LinearOrder Id]

omit [EndpointText Id] [ContentHash Hash] in
/-- A fetch that another one takes the place of leaves its transfer to a thread. -/
theorem takeJob_spool (state : FileService Id Hash) (job : Job Id) :
    spool (takeJob state job) = spool state := by
  cases job with
  | record base capture paths =>
    simp only [takeJob]
    split <;> rfl
  | copy paths ttl => rfl
  | fetch stamp =>
    simp only [takeJob]
    split
    · rfl
    · have fresh : transfersOf (leftBy (some { stamp, files := [], phase := Phase.called } :
          Option (Fetch Id Hash))) = 0 := rfl
      simp only [spool, fresh, transfersOf_append, zero_add, add_comm]
  | sweep => rfl

/-- Whatever a machine does is some operations on its spool. What a machine does besides to its
clipboard and its jobs is none of the spool's. -/
theorem step_leads (state next : FileService Id Hash) (label : Label Id Hash)
    (taken : state.step label = some next) : Spool.Leads Id (spool state) (spool next) := by
  cases step_took state next label taken with
  | restarted saves clock settings stray store left =>
    refine Spool.Leads.trans _ _ _ (end_leads state.store _) ?_
    subst left
    cases stray with
    | none => exact Spool.Leads.refl _
    | some torn =>
      obtain ⟨tag, bytes⟩ := torn
      exact Spool.Leads.of_step _ _ (.stray tag bytes) rfl
  | started job jobs =>
    rw [takeJob_spool]
    exact Spool.Leads.refl _
  | took job path left taken tag source hash size =>
    exact Spool.Leads.of_step _ _ (.take tag source) rfl
  | untaken job path left taken tag source =>
    exact Spool.Leads.of_step _ _ (.take tag source) rfl
  | settled saves clock job files spooled =>
    have same : spool (settle saves clock state job files) = spool state := by
      unfold settle
      split <;> rfl
    rw [same]
    exact Spool.Leads.refl _
  | treeSwept live content left tree =>
    exact Spool.Leads.of_step _ _ (.sweepTree live tree) rfl
  | blobSwept content left name =>
    exact Spool.Leads.of_step _ _ (.sweepBlob content name) rfl
  | fetched running after move store isFetch stepped =>
    have moves := fetch_leads state.service.board state.store store running after move
      (transfersOf state.detached) stepped
    have open_before : spool state = { store := state.store
                                       reading := 0
                                       writing := held running + transfersOf state.detached } := by
      simp [spool, isFetch, transfersOf_leftBy]
    rw [open_before]
    by_cases fails : move = .fail
    · simpa [spool, isFetch, transfersOf_leftBy, transfersOf_append, fails, add_assoc, add_comm,
        add_left_comm] using moves
    · simpa [spool, transfersOf_leftBy, fails] using moves
  | landed saves running isFetch laid =>
    have nothing : held running = 0 := by simp [held, Fetch.work, laid]
    have ended : held { running with phase := .ended } = 0 := rfl
    simpa [spool, isFetch, transfersOf_leftBy, nothing, ended] using Spool.Leads.refl _
  | ran index stamp work listed =>
    have runs := run_leads stamp state.store work
      (transfersOf (leftBy state.fetch) + transfersOf (state.detached.eraseIdx index))
    have split := transfersOf_eraseIdx state.detached index (stamp, work) listed
    simpa [spool, split, transfersOf_append, transfersOf_toList, add_assoc, add_comm, add_left_comm]
      using runs
  | _ => exact Spool.Leads.refl _

/-- What the file service does to the spool is a run of the spool. -/
theorem run_spool (state last : FileService Id Hash) (labels : List (Label Id Hash))
    (reached : Runs.run step state labels = some last) :
    Spool.Leads Id (spool state) (spool last) :=
  Runs.run_relation step (fun _ => True) (fun before after => Spool.Leads Id (spool before) (spool after))
    (fun _ _ _ _ _ => trivial) (fun state label next _ taken => step_leads state next label taken)
    (fun _ => Spool.Leads.refl _) (fun _ _ _ early late => Spool.Leads.trans _ _ _ early late)
    state last labels trivial reached

/-- A clip names a file and its fetch is aborted while wrong bytes wait to be written;
the next clip names the same file and gets the right ones through the same partial.
The late write is what is left under the hash. -/
theorem late_write_spoils_blob :
    let clock : Clock :=
      { stamp := 5000000, believed := 5000000, set := 5000000, lapse := 5000000 }
    let named : UInt64 → Clip Nat Bytes := fun millis =>
      { stamp := { millis, origin := 1 }
        copy := some {
          selection := Selection.ofFiles [[47, 97]]
          secret := false
          ttl := none
          files := [{ path := "a", size := 2, hash := [1, 2] }] } }
    let early : List (Label Nat Bytes) :=
      [.sweep, .sweep, .sweep, .sweep, .takeJob, .sweep, .sweep, .sweep, .sweep,
        .change true (.accept clock (named 1)), .takeJob, .sweep, .sweep, .sweep, .sweep, .takeJob,
        .fetched .want, .fetched .pull, .fetched .next, .fetched (.reply (.sending 2)),
        .fetched .resume, .fetched (.chunk [9, 9])]
    let late : List (Label Nat Bytes) :=
      [.change true (.accept clock (named 2)), .takeJob, .sweep, .sweep, .sweep,
        .sweepBlob (.part [1, 2]), .sweep, .takeJob, .fetched .want, .fetched .pull, .fetched .next,
        .fetched (.reply (.sending 2)), .fetched .resume, .fetched (.chunk [1, 2]), .fetched .write,
        .fetched .close, .fetched .finish, .ran 0]
    let first : FileService Nat Bytes := start true clock 0 Settings.default [47]
    ∃ last, Runs.run step first (early ++ late) = some last ∧
      Spool.Leads Nat (spool first) (spool last) ∧
      last.store.blob [1, 2] = some [9, 9] ∧ ¬ last.store.Intact := by
  intro clock named early late first
  have observed : (Runs.run step first (early ++ late)).any
      (fun last => decide (last.store.blob [1, 2] = some [9, 9])) = true := by
    decide +kernel
  obtain ⟨last, reached, spoiled⟩ := (Option.any_eq_true _ _).mp observed
  have there := of_decide_eq_true spoiled
  refine ⟨last, reached, run_spool first last _ reached, there, ?_⟩
  intro intact
  have same : ([9, 9] : Bytes) = [1, 2] := intact [1, 2] [9, 9] there
  cases same

end FileService

end Yank
