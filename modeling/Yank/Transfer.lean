import Yank.Store
import Yank.Wire

/-!
# Pulling content from a peer

A peer answers a list of requests on one stream: for each, a header that says it
is missing, or one that says how many bytes follow and then the bytes, raw. The
receiver knows what it asked for and reads the answers in the same order.

Both loops are here, each with its own bookkeeping. Every byte the server puts on
the stream carries the file it was sent for and whether it is header or content;
every byte the receiver takes off carries what the receiver took it for. The two
records are compared byte by byte, so it does not matter how the stream is cut
into chunks.
-/

namespace Yank.Transfer

open Wire

variable {Hash : Type}

/-- Asks for content, and says how much of it is already here. -/
structure ContentRequest (Hash : Type) where
  hash : Hash
  offset : UInt64
deriving DecidableEq

/-- What comes back before the bytes of each content asked for. -/
inductive ContentReply where
  | sending (size : UInt64)
  | missing
deriving DecidableEq

/-- Cap on a content reply header. -/
def maxReplySize : Nat := 64

/-- What a byte of the stream is: part of the header of a file or of its content. -/
inductive Tag (Hash : Type) where
  | header (hash : Hash)
  | content (hash : Hash)
deriving DecidableEq

/-- Bytes that are all the same thing. -/
def tagged (tag : Tag Hash) (bytes : Bytes) : List (Tag Hash × UInt8) :=
  bytes.map (fun byte => (tag, byte))

/-- The bytes of a record, without what they are. -/
def bytesOf (log : List (Tag Hash × UInt8)) : Bytes := log.map Prod.snd

/-- Why a pull stops early. -/
inductive Failure where
  | replaced
  | unreadable
  | offered (size : UInt64)
  | moved
  | short (left : Nat)
deriving DecidableEq

section Server
variable (codec : Codec ContentReply) (server : Store Hash)

/-- What is sent for one request; `none` when its header cannot be written. The
chunks a file is read in do not show on the stream. -/
def answer (request : ContentRequest Hash) : Option (List (Tag Hash × UInt8)) :=
  match server.blob request.hash with
  | none => (writeMessage codec .missing maxReplySize).map (tagged (.header request.hash))
  | some bytes =>
      let offset := min request.offset.toNat bytes.length
      (writeMessage codec (.sending (UInt64.ofNat (bytes.length - offset))) maxReplySize).map
        (fun header => tagged (.header request.hash) header ++
          tagged (.content request.hash) (bytes.drop offset))

/-- Streams files out of the spool, in the order asked. -/
def sendContents : List (ContentRequest Hash) → List (Tag Hash × UInt8)
  | [] => []
  | request :: requests =>
      match answer codec server request with
      | none => []
      | some sent => sent ++ sendContents requests

end Server

/-- What a pull works on: the spool, what is left of the stream, and what every
byte taken off it was taken for. -/
structure Session (Hash : Type) where
  store : Store Hash
  stream : List Bytes
  log : List (Tag Hash × UInt8)

/-- What taking bytes off a stream for one file leaves. -/
structure Drained (Hash : Type) where
  left : Nat
  stream : List Bytes
  incoming : Incoming Hash
  store : Store Hash
  got : Bytes

/-- Takes `left` bytes off the stream, chunk by chunk, and writes each. -/
def drain : Nat → List Bytes → Incoming Hash → Store Hash → Drained Hash
  | left, [], incoming, store => { left, stream := [], incoming, store, got := [] }
  | left, chunk :: chunks, incoming, store =>
      if left = 0 then { left, stream := chunk :: chunks, incoming, store, got := [] }
      else
        let written := store.write (chunk.take left) incoming
        if chunk.length ≤ left then
          let rest := drain (left - chunk.length) chunks written.1 written.2
          { rest with got := chunk.take left ++ rest.got }
        else
          { left := 0, stream := chunk.drop left :: chunks, incoming := written.1,
            store := written.2, got := chunk.take left }

section Receiver
variable [DecidableEq Hash]

/-- How much of each file is here already, which is what is asked past. -/
def ask : List (Files.FileRef Hash) → Store Hash →
    List (Files.FileRef Hash × UInt64) × Store Hash
  | [], store => ([], store)
  | file :: files, store =>
      let held := store.partialSize file.hash file.size
      let rest := ask files held.2
      ((file, held.1) :: rest.1, rest.2)

/-- The requests a pull sends. -/
def requests (asked : List (Files.FileRef Hash × UInt64)) : List (ContentRequest Hash) :=
  asked.map (fun entry => { hash := entry.1.hash, offset := entry.2 })

variable [ContentHash Hash]

/-- Takes the rest of `file`, past the bytes already here, off the stream and into
the spool. Content that is not what it was named is no failure. -/
def receive (session : Session Hash) (file : Files.FileRef Hash) (offset : UInt64) :
    Session Hash × Except Failure Unit :=
  let opened := session.store.receive file.hash
  if opened.1.at ≠ offset then ({ session with store := opened.2 }, .error .moved)
  else
    let drained := drain (file.size.toNat - offset.toNat) session.stream opened.1 opened.2
    let session : Session Hash :=
      { store := drained.store, stream := drained.stream,
        log := session.log ++ tagged (.content file.hash) drained.got }
    if drained.left ≠ 0 then (session, .error (.short drained.left))
    else ({ session with store := session.store.finish drained.incoming }, .ok ())

variable (codec : Codec ContentReply)

/-- The loop of `pull`. `current` says, by the number of files after this one,
whether the clip is still the one pulled for when this one's turn comes. -/
def pullFiles (current : Nat → Bool) :
    List (Files.FileRef Hash × UInt64) → Session Hash → Session Hash × Except Failure Unit
  | [], session => (session, .ok ())
  | (file, offset) :: asked, session =>
      if !current asked.length then (session, .error .replaced)
      else match readMessage codec maxReplySize session.stream with
        | none => (session, .error .unreadable)
        | some (reply, header, stream) =>
            let session : Session Hash :=
              { session with stream, log := session.log ++ tagged (.header file.hash) header }
            match reply with
            | .missing => pullFiles current asked session
            | .sending size =>
                if offset.toNat + size.toNat ≠ file.size.toNat then
                  (session, .error (.offered size))
                else
                  let received := receive session file offset
                  match received.2 with
                  | .error failure => (received.1, .error failure)
                  | .ok _ => pullFiles current asked received.1

/-- Pulls `files` from one peer over a single stream. -/
def pull (current : Nat → Bool) (files : List (Files.FileRef Hash)) (stream : List Bytes)
    (store : Store Hash) : Session Hash × Except Failure Unit :=
  let asked := ask files store
  pullFiles codec current asked.1 { store := asked.2, stream, log := [] }

end Receiver

/-- The bytes of a log are those of each part. -/
@[simp] theorem bytesOf_append (left right : List (Tag Hash × UInt8)) :
    bytesOf (left ++ right) = bytesOf left ++ bytesOf right := List.map_append

/-- A tag is not part of the bytes. -/
@[simp] theorem bytesOf_tagged (tag : Tag Hash) (bytes : Bytes) :
    bytesOf (tagged tag bytes) = bytes := by
  simp [bytesOf, tagged]

/-- Bytes are tagged one by one. -/
theorem tagged_append (tag : Tag Hash) (left right : Bytes) :
    tagged tag (left ++ right) = tagged tag left ++ tagged tag right := List.map_append

/-- Draining takes what it may off the front, writes it at the end of the partial,
and touches nothing else. -/
theorem drain_spec (left : Nat) (stream : List Bytes) (incoming : Incoming Hash)
    (store : Store Hash) (opened : store.Open incoming) :
    (drain left stream incoming store).got = stream.flatten.take left ∧
      (drain left stream incoming store).stream.flatten = stream.flatten.drop left ∧
      (drain left stream incoming store).left = left - stream.flatten.length ∧
      (drain left stream incoming store).store.Open (drain left stream incoming store).incoming ∧
      (drain left stream incoming store).incoming.hash = incoming.hash ∧
      (drain left stream incoming store).incoming.hashed =
        incoming.hashed ++ stream.flatten.take left ∧
      (drain left stream incoming store).store.blob incoming.hash = store.blob incoming.hash ∧
      Store.Touches incoming.hash store (drain left stream incoming store).store := by
  induction stream generalizing left incoming store with
  | nil => simp [drain, opened, Store.Touches.refl]
  | cons chunk chunks inductionHypothesis =>
    by_cases done : left = 0
    · simp [drain, done, opened, Store.Touches.refl]
    · obtain ⟨stillOpen, sameBlob, touched⟩ :=
        store.write_spec (chunk.take left) incoming opened
      by_cases whole : chunk.length ≤ left
      · obtain ⟨got, rest, less, open_, hash, hashed, blob, touches⟩ :=
          inductionHypothesis (left - chunk.length) (store.write (chunk.take left) incoming).1
            (store.write (chunk.take left) incoming).2 stillOpen
        have all : chunk.take left = chunk := List.take_of_length_le whole
        have taken : (chunk :: chunks).flatten.take left =
            chunk ++ chunks.flatten.take (left - chunk.length) := by
          rw [List.flatten_cons, List.take_append, all]
        have dropped : (chunk :: chunks).flatten.drop left =
            chunks.flatten.drop (left - chunk.length) := by
          rw [List.flatten_cons, List.drop_append, List.drop_of_length_le whole,
            List.nil_append]
        rw [drain, if_neg done, if_pos whole, taken, dropped]
        refine ⟨?_, rest, ?_, open_, hash, ?_, blob.trans sameBlob, ?_⟩
        · exact congrArg₂ (· ++ ·) all got
        · rw [less, List.flatten_cons, List.length_append]
          omega
        · rw [hashed]
          change incoming.hashed ++ chunk.take left ++ _ = _
          rw [all, List.append_assoc]
        · exact Store.Touches.trans incoming.hash _ _ _ touched touches
      · have none_over : left - chunk.length = 0 := by omega
        have taken : (chunk :: chunks).flatten.take left = chunk.take left := by
          rw [List.flatten_cons, List.take_append, none_over, List.take_zero, List.append_nil]
        have dropped : (chunk :: chunks).flatten.drop left =
            (chunk.drop left :: chunks).flatten := by
          rw [List.flatten_cons, List.flatten_cons, List.drop_append, none_over, List.drop_zero]
        rw [drain, if_neg done, if_neg whole, taken, dropped]
        refine ⟨rfl, rfl, ?_, stillOpen, rfl, rfl, sameBlob, touched⟩
        change 0 = left - _
        rw [List.flatten_cons, List.length_append]
        omega

/-- What a partial holds; nothing when there is none. -/
def heldOf (store : Store Hash) (hash : Hash) : Bytes := (store.part hash).getD []

/-- What a pull leaves of one file: what the server lacks as it was, and otherwise
no partial, and the assembled content if it is what it was named. -/
def Settled [DecidableEq Hash] [ContentHash Hash] (server before after : Store Hash)
    (hash : Hash) : Prop :=
  match server.blob hash with
  | none => after.blob hash = before.blob hash ∧ after.part hash = before.part hash
  | some bytes =>
      let assembled := heldOf before hash ++ bytes.drop (heldOf before hash).length
      after.part hash = none ∧
        after.blob hash =
          if ContentHash.of assembled = hash then some assembled else before.blob hash

/-- Two spools hold the same of every file but one. -/
def SameBut (hash : Hash) (before after : Store Hash) : Prop :=
  ∀ other, other ≠ hash → after.blob other = before.blob other ∧
    after.part other = before.part other

/-- What touches one content leaves the others. -/
theorem SameBut.of_touches (hash : Hash) (before after : Store Hash)
    (touches : Store.Touches hash before after) : SameBut hash before after :=
  fun other apart => touches.other hash other before after apart

section Receive
variable [DecidableEq Hash] [ContentHash Hash] (session : Session Hash)
  (file : Files.FileRef Hash) (offset : UInt64) (bytes : Bytes)

/-- What taking the rest of a file off the stream comes to. -/
def drainFile : Drained Hash :=
  drain (file.size.toNat - offset.toNat) session.stream (session.store.receive file.hash).1
    (session.store.receive file.hash).2

omit [ContentHash Hash] in
/-- What is known of it: the bytes taken are the next ones on the stream, they
follow what was held, and no other file is touched. -/
theorem drainFile_spec :
    (drainFile session file offset).got =
        session.stream.flatten.take (file.size.toNat - offset.toNat) ∧
      (drainFile session file offset).stream.flatten =
        session.stream.flatten.drop (file.size.toNat - offset.toNat) ∧
      (drainFile session file offset).left =
        file.size.toNat - offset.toNat - session.stream.flatten.length ∧
      (drainFile session file offset).store.Open (drainFile session file offset).incoming ∧
      (drainFile session file offset).incoming.hash = file.hash ∧
      (drainFile session file offset).incoming.hashed = heldOf session.store file.hash ++
        session.stream.flatten.take (file.size.toNat - offset.toNat) ∧
      (drainFile session file offset).store.blob file.hash = session.store.blob file.hash ∧
      Store.Touches file.hash session.store (drainFile session file offset).store := by
  obtain ⟨opened, named, resumed, sameBlob, touched⟩ := session.store.receive_spec file.hash
  obtain ⟨got, left, less, stillOpen, hash, hashed, blob, touches⟩ :=
    drain_spec (file.size.toNat - offset.toNat) session.stream _ _ opened
  rw [named] at hash blob touches
  rw [resumed] at hashed
  exact ⟨got, left, less, stillOpen, hash, hashed, blob.trans sameBlob,
    Store.Touches.trans file.hash _ _ _ touched touches⟩

variable (asked : offset.toNat = (heldOf session.store file.hash).length)
include asked

/-- The transfer opens at the offset that was asked past. What was drained is then judged as a
whole: too short, or ended by `finish`. -/
theorem receive_eq : receive session file offset =
    if (drainFile session file offset).left ≠ 0 then
      ({ store := (drainFile session file offset).store,
         stream := (drainFile session file offset).stream,
         log := session.log ++ tagged (.content file.hash) (drainFile session file offset).got },
        .error (.short (drainFile session file offset).left))
    else
      ({ store := (drainFile session file offset).store.finish
          (drainFile session file offset).incoming,
         stream := (drainFile session file offset).stream,
         log := session.log ++ tagged (.content file.hash) (drainFile session file offset).got },
        .ok ()) := by
  obtain ⟨_, _, resumed, _, _⟩ := session.store.receive_spec file.hash
  have stands : (session.store.receive file.hash).1.at = offset := by
    have small : (heldOf session.store file.hash).length < 2 ^ 64 := by
      rw [← asked]
      exact offset.toNat_lt
    apply UInt64.toNat_inj.mp
    rw [Incoming.at, resumed, UInt64.toNat_ofNat', asked]
    exact Nat.mod_eq_of_lt small
  unfold receive
  rw [if_neg (not_not.mpr stands)]
  rfl

variable (real : file.size.toNat = bytes.length)
include real

/-- Where the stream has the rest of a file, exactly that is taken, and the file is
settled. -/
theorem receive_whole (rest : Bytes)
    (front : session.stream.flatten = bytes.drop offset.toNat ++ rest) :
    (receive session file offset).2 = .ok () ∧
      (receive session file offset).1.stream.flatten = rest ∧
      (receive session file offset).1.log =
        session.log ++ tagged (.content file.hash) (bytes.drop offset.toNat) ∧
      SameBut file.hash session.store (receive session file offset).1.store ∧
      ∀ server : Store Hash, server.blob file.hash = some bytes →
        Settled server session.store (receive session file offset).1.store file.hash := by
  obtain ⟨got, left, less, stillOpen, hash, hashed, blob, touches⟩ :=
    drainFile_spec session file offset
  have length : (bytes.drop offset.toNat).length = file.size.toNat - offset.toNat := by
    rw [List.length_drop, real]
  rw [front, ← length, List.take_left] at got hashed
  rw [front, ← length, List.drop_left] at left
  have nothing : (drainFile session file offset).left = 0 := by
    rw [less, front, List.length_append, length]
    omega
  rw [receive_eq session file offset asked, if_neg (not_not.mpr nothing)]
  generalize drainFile session file offset = drained at *
  obtain ⟨_, stream, incoming, store, _⟩ := drained
  dsimp only at *
  subst got
  rw [← hash] at touches blob ⊢
  by_cases right : ContentHash.of incoming.hashed = incoming.hash
  · obtain ⟨arrived, cleared, moved⟩ := store.finish_match incoming stillOpen right
    refine ⟨rfl, left, rfl, ?_, ?_⟩
    · exact SameBut.of_touches incoming.hash _ _
        (Store.Touches.trans incoming.hash _ _ _ touches moved)
    · intro server served
      rw [Settled, served]
      refine ⟨cleared, ?_⟩
      rw [hash, ← asked, ← hashed, ← hash, if_pos right]
      exact arrived
  · obtain ⟨cleared, kept, moved⟩ := store.finish_mismatch incoming right
    refine ⟨rfl, left, rfl, ?_, ?_⟩
    · exact SameBut.of_touches incoming.hash _ _
        (Store.Touches.trans incoming.hash _ _ _ touches moved)
    · intro server served
      rw [Settled, served]
      refine ⟨cleared, ?_⟩
      rw [hash, ← asked, ← hashed, ← hash, if_neg right]
      exact kept.trans blob

/-- Where the stream ends inside a file, what there is is taken for that file. -/
theorem receive_cut (short : session.stream.flatten.length < bytes.length - offset.toNat) :
    ∃ failure, (receive session file offset).2 = .error failure ∧
      (receive session file offset).1.log =
        session.log ++ tagged (.content file.hash) session.stream.flatten ∧
      SameBut file.hash session.store (receive session file offset).1.store := by
  obtain ⟨got, left, less, stillOpen, hash, hashed, blob, touches⟩ :=
    drainFile_spec session file offset
  have something : (drainFile session file offset).left ≠ 0 := by
    rw [less, real]
    omega
  rw [receive_eq session file offset asked, if_pos something]
  refine ⟨_, rfl, ?_, SameBut.of_touches file.hash _ _ touches⟩
  rw [got, real, List.take_of_length_le (le_of_lt short)]

end Receive

section Loop
variable [DecidableEq Hash] [ContentHash Hash] (codec : Codec ContentReply)
  (server : Store Hash) (current : Nat → Bool)

/-- What is settled depends on nothing but what the spools hold of the file. -/
theorem settled_congr (before before' after after' : Store Hash) (hash : Hash)
    (early : before'.blob hash = before.blob hash ∧ before'.part hash = before.part hash)
    (late : after'.blob hash = after.blob hash ∧ after'.part hash = after.part hash)
    (settled : Settled server before after hash) : Settled server before' after' hash := by
  unfold Settled heldOf at settled ⊢
  rw [early.1, early.2, late.1, late.2]
  exact settled

/-- What is asked for matches what is held. -/
def Ready (store : Store Hash) (asked : List (Files.FileRef Hash × UInt64)) : Prop :=
  ∀ entry ∈ asked, entry.2.toNat = (heldOf store entry.1.hash).length ∧ entry.2 ≤ entry.1.size

omit [DecidableEq Hash] [ContentHash Hash] in
/-- What stands ready stays ready while another file is pulled. -/
theorem ready_tail (file : Files.FileRef Hash) (offset : UInt64)
    (asked : List (Files.FileRef Hash × UInt64)) (before after : Store Hash)
    (alone : file.hash ∉ asked.map (fun entry => entry.1.hash))
    (same : SameBut file.hash before after)
    (ready : Ready before ((file, offset) :: asked)) : Ready after asked := by
  intro entry member
  have apart : entry.1.hash ≠ file.hash := by
    intro equal
    apply alone
    rw [← equal]
    exact List.mem_map_of_mem member
  unfold heldOf
  rw [(same entry.1.hash apart).2]
  exact ready entry (List.mem_cons_of_mem _ member)

/-- Less than a header: what a read that failed had of one. -/
def InHeader (bytes : Bytes) : Prop :=
  ∃ reply, bytes <+: frame codec reply ∧ bytes ≠ frame codec reply

/-- What the loop of `pull` promises of the files it is to go through, on a stream
that lacks `lost` and with `stays` saying that the clip is never replaced. -/
structure InStep (asked : List (Files.FileRef Hash × UInt64)) (lost : Bytes) (stays : Prop)
    (session : Session Hash) (done : Session Hash × Except Failure Unit) : Prop where
  attributed : ∃ got, done.1.log = session.log ++ got ∧
    got <+: sendContents codec server (requests asked) ∧
    (stays → ∃ unread, session.stream.flatten = bytesOf got ++ unread ∧ InHeader codec unread)
  others : ∀ hash, hash ∉ asked.map (fun entry => entry.1.hash) →
    done.1.store.blob hash = session.store.blob hash ∧
      done.1.store.part hash = session.store.part hash
  complete : lost = [] → stays → done.2 = .ok () ∧
    done.1.log = session.log ++ sendContents codec server (requests asked) ∧
    ∀ entry ∈ asked, Settled server session.store done.1.store entry.1.hash

/-- A loop that stops in a file took nothing for another one. -/
theorem InStep.stopped (file : Files.FileRef Hash) (offset : UInt64)
    (asked : List (Files.FileRef Hash × UInt64)) (lost : Bytes) (stays : Prop)
    (session : Session Hash) (done : Session Hash × Except Failure Unit)
    (got : List (Tag Hash × UInt8)) (logged : done.1.log = session.log ++ got)
    (sent : got <+: sendContents codec server (requests ((file, offset) :: asked)))
    (same : SameBut file.hash session.store done.1.store)
    (read : stays → ∃ unread, session.stream.flatten = bytesOf got ++ unread ∧
      InHeader codec unread)
    (stops : stays → lost ≠ []) :
    InStep codec server ((file, offset) :: asked) lost stays session done where
  attributed := ⟨got, logged, sent, read⟩
  others hash absent := same hash (by
    simp only [List.map_cons, List.mem_cons, not_or] at absent
    exact absent.1)
  complete uncut promised := absurd uncut (stops promised)

/-- A loop that is through with one file and keeps its promise for the others keeps
it for all. -/
theorem InStep.cons (file : Files.FileRef Hash) (offset : UInt64)
    (asked : List (Files.FileRef Hash × UInt64)) (lost : Bytes) (stays : Prop)
    (session middle : Session Hash) (done : Session Hash × Except Failure Unit)
    (first : List (Tag Hash × UInt8))
    (sent : sendContents codec server (requests ((file, offset) :: asked)) =
      first ++ sendContents codec server (requests asked))
    (alone : file.hash ∉ asked.map (fun entry => entry.1.hash))
    (logged : middle.log = session.log ++ first)
    (taken : session.stream.flatten = bytesOf first ++ middle.stream.flatten)
    (same : SameBut file.hash session.store middle.store)
    (settled : Settled server session.store middle.store file.hash)
    (rest : InStep codec server asked lost stays middle done) :
    InStep codec server ((file, offset) :: asked) lost stays session done where
  attributed := by
    obtain ⟨got, later, among, read⟩ := rest.attributed
    refine ⟨first ++ got, ?_, ?_, ?_⟩
    · rw [later, logged, List.append_assoc]
    · rw [sent]
      exact (List.prefix_append_right_inj first).mpr among
    · intro promised
      obtain ⟨unread, left, header⟩ := read promised
      refine ⟨unread, ?_, header⟩
      rw [taken, left, bytesOf_append, List.append_assoc]
  others hash absent := by
    simp only [List.map_cons, List.mem_cons, not_or] at absent
    obtain ⟨blob, part⟩ := rest.others hash absent.2
    obtain ⟨blobBefore, partBefore⟩ := same hash absent.1
    exact ⟨blob.trans blobBefore, part.trans partBefore⟩
  complete uncut promised := by
    obtain ⟨ended, later, each⟩ := rest.complete uncut promised
    refine ⟨ended, ?_, ?_⟩
    · rw [later, logged, sent, List.append_assoc]
    · intro entry member
      cases List.mem_cons.mp member with
      | inl head =>
        subst head
        exact settled_congr server session.store session.store middle.store _ file.hash
          ⟨rfl, rfl⟩ (rest.others file.hash alone) settled
      | inr tail =>
        have apart : entry.1.hash ≠ file.hash := by
          intro equal
          apply alone
          rw [← equal]
          exact List.mem_map_of_mem tail
        obtain ⟨blobBefore, partBefore⟩ := same entry.1.hash apart
        exact settled_congr server middle.store session.store done.1.store _ entry.1.hash
          ⟨blobBefore.symm, partBefore.symm⟩ ⟨rfl, rfl⟩ (each entry tail)

/-- Nothing is less than a header. -/
theorem inHeader_nil (reply : ContentReply) : InHeader codec [] := by
  refine ⟨reply, List.nil_prefix, ?_⟩
  intro nothing
  have length := congrArg List.length nothing
  simp [frame, le32] at length

/-- A header that is cut stops the loop before anything is taken for its file. What was read is no
more than a part of that header, so nothing was tagged for the file. -/
theorem InStep.cutHeader (file : Files.FileRef Hash) (offset : UInt64)
    (asked : List (Files.FileRef Hash × UInt64)) (lost : Bytes) (stays : Prop)
    (session : Session Hash) (failure : Failure) (reply : ContentReply) (missing tail : Bytes)
    (some_lost : missing ≠ []) (inside : frame codec reply = session.stream.flatten ++ missing)
    (after : lost = missing ++ tail) :
    InStep codec server ((file, offset) :: asked) lost stays session (session, .error failure) := by
  refine InStep.stopped codec server file offset asked lost stays session _ []
    (List.append_nil _).symm List.nil_prefix (fun _ _ => ⟨rfl, rfl⟩) ?_ ?_
  · intro _
    refine ⟨session.stream.flatten, rfl, reply, ⟨missing, inside.symm⟩, ?_⟩
    intro whole
    rw [← whole] at inside
    exact some_lost (List.self_eq_append_right.mp inside)
  · intro _ nothing
    rw [nothing] at after
    exact some_lost (List.append_eq_nil_iff.mp after.symm).1

/-- What is there of some bytes and what follows them, where the whole is cut:
either the cut is inside them, or all of them are there. -/
theorem cut_cases (there lost first tail : Bytes) (whole : there ++ lost = first ++ tail) :
    (∃ missing, missing ≠ [] ∧ first = there ++ missing ∧ lost = missing ++ tail) ∨
      ∃ rest, there = first ++ rest ∧ rest ++ lost = tail := by
  obtain ⟨missing, inside, after⟩ | ⟨rest, all, after⟩ := List.append_eq_append_iff.mp whole
  · by_cases nothing : missing = []
    · subst nothing
      rw [List.append_nil] at inside
      exact Or.inr ⟨[], by rw [inside, List.append_nil], after⟩
    · exact Or.inl ⟨missing, nothing, inside, after⟩
  · exact Or.inr ⟨rest, all, after.symm⟩

variable (lawful : codec.Lawful maxReplySize)
include lawful

omit [DecidableEq Hash] [ContentHash Hash] in
/-- Content that is not there is answered with a header alone. -/
theorem answer_missing (request : ContentRequest Hash)
    (absent : server.blob request.hash = none) :
    answer codec server request =
      some (tagged (.header request.hash) (frame codec .missing)) := by
  unfold answer
  rw [absent]
  dsimp only
  rw [writeMessage_eq codec maxReplySize lawful (by decide), Option.map_some]

omit [DecidableEq Hash] [ContentHash Hash] in
/-- Content that is there is answered with a header and its bytes from the offset on. -/
theorem answer_sending (request : ContentRequest Hash) (bytes : Bytes)
    (served : server.blob request.hash = some bytes)
    (within : request.offset.toNat ≤ bytes.length) :
    answer codec server request =
      some (tagged (.header request.hash)
          (frame codec (.sending (UInt64.ofNat (bytes.length - request.offset.toNat)))) ++
        tagged (.content request.hash) (bytes.drop request.offset.toNat)) := by
  unfold answer
  rw [served]
  dsimp only
  rw [min_eq_left within, writeMessage_eq codec maxReplySize lawful (by decide), Option.map_some]

/-- The loop of `pull`, fed what the server sends up to wherever it is cut, stays in
step with the loop of `sendContents`. -/
theorem pullFiles_inStep (asked : List (Files.FileRef Hash × UInt64)) (session : Session Hash)
    (lost : Bytes) (distinct : (asked.map (fun entry => entry.1.hash)).Nodup)
    (ready : Ready session.store asked)
    (real : ∀ entry ∈ asked, ∀ bytes, server.blob entry.1.hash = some bytes →
      entry.1.size.toNat = bytes.length)
    (delivered : session.stream.flatten ++ lost =
      bytesOf (sendContents codec server (requests asked))) :
    InStep codec server asked lost (∀ later, current later = true) session
      (pullFiles codec current asked session) := by
  induction asked generalizing session with
  | nil =>
    have nothing : session.stream.flatten = [] := (List.append_eq_nil_iff.mp delivered).1
    refine ⟨⟨[], (List.append_nil _).symm, List.nil_prefix, fun _ => ⟨[], nothing,
      inHeader_nil codec .missing⟩⟩, fun _ _ => ⟨rfl, rfl⟩, fun _ _ => ⟨rfl, ?_, ?_⟩⟩
    · exact (List.append_nil _).symm
    · intro entry member
      cases member
  | cons entry asked inductionHypothesis =>
    obtain ⟨file, offset⟩ := entry
    rw [List.map_cons, List.nodup_cons] at distinct
    rw [List.forall_mem_cons] at real
    obtain ⟨held, within⟩ := ready (file, offset) List.mem_cons_self
    rw [pullFiles]
    by_cases replaced : current asked.length = true
    swap
    · rw [if_pos (by simpa using replaced)]
      exact InStep.stopped codec server file offset asked lost _ session _ []
        (List.append_nil _).symm List.nil_prefix (fun _ _ => ⟨rfl, rfl⟩)
        (fun always => absurd (always asked.length) replaced)
        (fun always => absurd (always asked.length) replaced)
    rw [if_neg (by simp [replaced])]
    cases served : server.blob file.hash with
    | none =>
      have sent : sendContents codec server (requests ((file, offset) :: asked)) =
          tagged (.header file.hash) (frame codec .missing) ++
            sendContents codec server (requests asked) := by
        rw [requests, List.map_cons, sendContents, answer_missing codec server lawful _ served]
        rfl
      rw [sent, bytesOf_append, bytesOf_tagged] at delivered
      obtain ⟨missing, some_lost, inside, after⟩ | ⟨rest, front, follows⟩ :=
        cut_cases _ _ _ _ delivered
      · rw [readMessage_cut codec maxReplySize lawful (by decide) _ _ _ some_lost inside]
        exact InStep.cutHeader codec server file offset asked lost _ session _ .missing missing _
          some_lost inside after
      · obtain ⟨stream, read, left⟩ :=
          readMessage_write codec maxReplySize lawful (by decide) _ _ _ front
        rw [read]
        dsimp only
        refine InStep.cons codec server file offset asked lost _ session
          { store := session.store, stream,
            log := session.log ++ tagged (.header file.hash) (frame codec .missing) }
          _ _ sent distinct.1 rfl ?_ (fun _ _ => ⟨rfl, rfl⟩) ?_ ?_
        · rw [bytesOf_tagged, left]
          exact front
        · rw [Settled, served]
          exact ⟨rfl, rfl⟩
        · refine inductionHypothesis _ distinct.2 (fun entry member => ready entry
            (List.mem_cons_of_mem _ member)) real.2 ?_
          dsimp only
          rw [left]
          exact follows
    | some bytes =>
      have exact_size := real.1 bytes served
      have inside_file : offset.toNat ≤ bytes.length := by
        rw [← exact_size]
        exact UInt64.le_iff_toNat_le.mp within
      let header := frame codec (.sending (UInt64.ofNat (bytes.length - offset.toNat)))
      have sent : sendContents codec server (requests ((file, offset) :: asked)) =
          (tagged (.header file.hash) header ++
            tagged (.content file.hash) (bytes.drop offset.toNat)) ++
            sendContents codec server (requests asked) := by
        rw [requests, List.map_cons, sendContents,
          answer_sending codec server lawful _ bytes served inside_file]
        rfl
      rw [sent, bytesOf_append, bytesOf_append, bytesOf_tagged, bytesOf_tagged,
        List.append_assoc] at delivered
      obtain ⟨missing, some_lost, inside, after⟩ | ⟨rest, front, follows⟩ :=
        cut_cases _ _ _ _ delivered
      · rw [readMessage_cut codec maxReplySize lawful (by decide) _ _ _ some_lost inside]
        exact InStep.cutHeader codec server file offset asked lost _ session _ _ missing _
          some_lost inside after
      · obtain ⟨stream, read, left⟩ :=
          readMessage_write codec maxReplySize lawful (by decide) _ _ _ front
        rw [read]
        dsimp only
        have small : bytes.length - offset.toNat < 2 ^ 64 := by
          calc bytes.length - offset.toNat ≤ bytes.length := Nat.sub_le _ _
            _ = file.size.toNat := exact_size.symm
            _ < 2 ^ 64 := file.size.toNat_lt
        have whole : offset.toNat + (UInt64.ofNat (bytes.length - offset.toNat)).toNat =
            file.size.toNat := by
          rw [UInt64.toNat_ofNat', Nat.mod_eq_of_lt small, Nat.add_sub_cancel' inside_file]
          exact exact_size.symm
        rw [if_neg (not_not.mpr whole)]
        -- The header is through; the content starts at the front of the stream.
        let started : Session Hash :=
          { store := session.store, stream,
            log := session.log ++ tagged (.header file.hash) header }
        change InStep codec server _ lost _ session
          (match (receive started file offset).2 with
            | .error failure => ((receive started file offset).1, .error failure)
            | .ok _ => pullFiles codec current asked (receive started file offset).1)
        obtain ⟨absent, some_lost, inside, after⟩ | ⟨tail, there, follows⟩ :=
          cut_cases _ _ _ _ follows
        · have short : started.stream.flatten.length < bytes.length - offset.toNat := by
            have positive := List.length_pos_iff.mpr some_lost
            have lengths := congrArg List.length inside
            rw [List.length_drop, List.length_append, ← left] at lengths
            change stream.flatten.length < _
            omega
          obtain ⟨failure, failed, logged, same⟩ :=
            receive_cut started file offset bytes held exact_size short
          rw [failed]
          refine InStep.stopped codec server file offset asked lost _ session _
            (tagged (.header file.hash) header ++ tagged (.content file.hash) rest)
            ?_ ?_ same ?_ ?_
          · dsimp only
            rw [logged, ← List.append_assoc]
            exact congrArg (fun bytes => _ ++ tagged _ bytes) left
          · rw [sent, inside, tagged_append]
            simp only [List.append_assoc]
            exact (List.prefix_append_right_inj _).mpr (List.prefix_append _ _)
          · intro _
            refine ⟨[], ?_, inHeader_nil codec .missing⟩
            rw [bytesOf_append, bytesOf_tagged, bytesOf_tagged, List.append_nil]
            exact front
          · intro _ nothing
            rw [nothing] at after
            exact some_lost (List.append_eq_nil_iff.mp after.symm).1
        · obtain ⟨ended, remaining, logged, same, settled⟩ :=
            receive_whole started file offset bytes held exact_size tail (left.trans there)
          rw [ended]
          dsimp only
          refine InStep.cons codec server file offset asked lost _ session _ _ _ sent distinct.1
            ?_ ?_ same (settled server served) ?_
          · rw [logged, List.append_assoc]
          · rw [remaining, bytesOf_append, bytesOf_tagged, bytesOf_tagged, List.append_assoc,
              ← there]
            exact front
          · refine inductionHypothesis _ distinct.2
              (ready_tail file offset asked session.store _ distinct.1 same ready) real.2 ?_
            rw [remaining]
            exact follows

end Loop

section Ask
variable [DecidableEq Hash]

/-- Asking what is here of some files touches those files only: a partial too long
for its file goes. -/
theorem ask_spec (files : List (Files.FileRef Hash)) (store : Store Hash)
    (distinct : (files.map Files.FileRef.hash).Nodup) :
    (ask files store).1.map Prod.fst = files ∧
      Ready (ask files store).2 (ask files store).1 ∧
      (∀ hash, (ask files store).2.blob hash = store.blob hash) ∧
      (∀ hash, hash ∉ files.map Files.FileRef.hash →
        (ask files store).2.part hash = store.part hash) ∧
      ∀ file ∈ files,
        (ask files store).2.part file.hash = Store.trimmed file.size (store.part file.hash) := by
  induction files generalizing store with
  | nil => simp [ask, Ready]
  | cons file files inductionHypothesis =>
    rw [List.map_cons, List.nodup_cons] at distinct
    obtain ⟨offset, within, left, sameBlob, touched⟩ := store.partialSize_spec file.hash file.size
    obtain ⟨order, ready, blobs, parts, looked⟩ :=
      inductionHypothesis (store.partialSize file.hash file.size).2 distinct.2
    have kept := parts file.hash distinct.1
    rw [ask]
    refine ⟨congrArg (file :: ·) order, ?_, ?_, ?_, ?_⟩
    · intro entry member
      cases List.mem_cons.mp member with
      | inl head =>
        subst head
        refine ⟨?_, within⟩
        dsimp only [heldOf]
        rw [kept]
        exact offset
      | inr tail => exact ready entry tail
    · intro hash
      by_cases same : hash = file.hash
      · rw [same, blobs, sameBlob]
      · rw [blobs, (touched.other file.hash hash _ _ same).1]
    · intro hash absent
      rw [List.map_cons, List.mem_cons, not_or] at absent
      rw [parts hash absent.2, (touched.other file.hash hash _ _ absent.1).2]
    · intro other member
      cases List.mem_cons.mp member with
      | inl head =>
        rw [head, kept]
        exact left
      | inr tail =>
        have apart : other.hash ≠ file.hash := by
          intro equal
          apply distinct.1
          rw [← equal]
          exact List.mem_map_of_mem tail
        rw [looked other tail, (touched.other file.hash other.hash _ _ apart).2]

/-- What is asked for are the files, in their order. -/
theorem ask_hashes (files : List (Files.FileRef Hash)) (store : Store Hash)
    (distinct : (files.map Files.FileRef.hash).Nodup) :
    (ask files store).1.map (fun entry => entry.1.hash) = files.map Files.FileRef.hash := by
  obtain ⟨order, _⟩ := ask_spec files store distinct
  conv_rhs => rw [← order]
  rw [List.map_map]
  rfl

/-- The bytes of a record that are content of `hash`. -/
def contentOf (hash : Hash) (log : List (Tag Hash × UInt8)) : Bytes :=
  bytesOf (log.filter (fun byte => decide (byte.1 = .content hash)))

/-- The content in a log is that of each part. -/
theorem contentOf_append (hash : Hash) (left right : List (Tag Hash × UInt8)) :
    contentOf hash (left ++ right) = contentOf hash left ++ contentOf hash right := by
  simp [contentOf]

/-- Bytes count for the content they are tagged with. -/
theorem contentOf_tagged (hash : Hash) (tag : Tag Hash) (bytes : Bytes) :
    contentOf hash (tagged tag bytes) = if tag = .content hash then bytes else [] := by
  by_cases same : tag = .content hash
  · have all : (tagged tag bytes).filter (fun byte => decide (byte.1 = .content hash)) =
        tagged tag bytes := by
      rw [List.filter_eq_self]
      simp [tagged, same]
    rw [if_pos same, contentOf, all, bytesOf_tagged]
  · have none_of :
        (tagged tag bytes).filter (fun byte => decide (byte.1 = .content hash)) = [] := by
      rw [List.filter_eq_nil_iff]
      simp [tagged, same]
    rw [if_neg same, contentOf, none_of]
    rfl

/-- What is taken for a file out of a record is in front of what is taken out of a
longer one. -/
theorem contentOf_prefix (hash : Hash) (left right : List (Tag Hash × UInt8))
    (front : left <+: right) : contentOf hash left <+: contentOf hash right :=
  (front.filter _).map _

variable (codec : Codec ContentReply) (lawful : codec.Lawful maxReplySize) (server : Store Hash)
include lawful

/-- What a server answers one request with: of other files nothing, and of the file
asked for what is past the offset. -/
theorem answer_spec (request : ContentRequest Hash)
    (within : ∀ bytes, server.blob request.hash = some bytes →
      request.offset.toNat ≤ bytes.length) :
    ∃ sent, answer codec server request = some sent ∧
      ∀ hash, contentOf hash sent = if request.hash = hash
        then ((server.blob hash).getD []).drop request.offset.toNat else [] := by
  cases served : server.blob request.hash with
  | none =>
    refine ⟨_, answer_missing codec server lawful request served, ?_⟩
    intro hash
    rw [contentOf_tagged, if_neg (by simp)]
    by_cases same : request.hash = hash
    · rw [if_pos same, ← same, served]
      exact List.drop_nil.symm
    · rw [if_neg same]
  | some bytes =>
    refine ⟨_, answer_sending codec server lawful request bytes served (within bytes served), ?_⟩
    intro hash
    rw [contentOf_append, contentOf_tagged, contentOf_tagged, if_neg (by simp), List.nil_append]
    by_cases same : request.hash = hash
    · rw [if_pos same, if_pos (congrArg Tag.content same), ← same, served]
      rfl
    · rw [if_neg same, if_neg (by simpa using same)]

/-- What a server sends of each file is what is past the offset asked for. The induction is on
what is asked for: what is sent of the first is tagged by its hash, and no other entry asks for
that. -/
theorem contentOf_sendContents (asked : List (Files.FileRef Hash × UInt64))
    (distinct : (asked.map (fun entry => entry.1.hash)).Nodup)
    (within : ∀ entry ∈ asked, ∀ bytes, server.blob entry.1.hash = some bytes →
      entry.2.toNat ≤ bytes.length) :
    (∀ hash, hash ∉ asked.map (fun entry => entry.1.hash) →
        contentOf hash (sendContents codec server (requests asked)) = []) ∧
      ∀ entry ∈ asked, contentOf entry.1.hash (sendContents codec server (requests asked)) =
        ((server.blob entry.1.hash).getD []).drop entry.2.toNat := by
  induction asked with
  | nil =>
    refine ⟨fun _ _ => rfl, ?_⟩
    intro entry member
    cases member
  | cons first asked inductionHypothesis =>
    rw [List.map_cons, List.nodup_cons] at distinct
    rw [List.forall_mem_cons] at within
    obtain ⟨absent, present⟩ := inductionHypothesis distinct.2 within.2
    obtain ⟨sent, answered, content⟩ := answer_spec codec lawful server
      { hash := first.1.hash, offset := first.2 } within.1
    have all : sendContents codec server (requests (first :: asked)) =
        sent ++ sendContents codec server (requests asked) := by
      rw [requests, List.map_cons, sendContents, answered]
      rfl
    rw [all]
    constructor
    · intro hash missing
      rw [List.map_cons, List.mem_cons, not_or] at missing
      rw [contentOf_append, content, if_neg (Ne.symm missing.1), absent hash missing.2]
      rfl
    · intro entry member
      rw [contentOf_append, content]
      cases List.mem_cons.mp member with
      | inl head =>
        rw [head, if_pos rfl, absent first.1.hash distinct.1, List.append_nil]
      | inr tail =>
        have apart : first.1.hash ≠ entry.1.hash := by
          intro equal
          apply distinct.1
          rw [equal]
          exact List.mem_map_of_mem tail
        rw [if_neg apart, present entry tail]
        rfl

end Ask

section Exact
variable [DecidableEq Hash] [ContentHash Hash]

/-- A partial the rest of the file is right for: one that is its start, or too long
to be kept. -/
def Resumable (bytes held : Bytes) : Prop := held <+: bytes ∨ bytes.length < held.length

/-- What asking finds of a file: nothing, or a partial no longer than the file. -/
theorem heldOf_trimmed (size : UInt64) (bytes : Bytes) (held : Option Bytes)
    (real : size.toNat = bytes.length)
    (resumable : ∀ partly, held = some partly → Resumable bytes partly) :
    (Store.trimmed size held).getD [] <+: bytes := by
  cases held with
  | none => exact List.nil_prefix
  | some partly =>
    rw [Store.trimmed]
    by_cases fits : partly.length ≤ size.toNat
    · rw [if_pos fits]
      cases resumable partly rfl with
      | inl front => exact front
      | inr long => omega
    · rw [if_neg fits]
      exact List.nil_prefix

/-- Content transfer is exact and stays in step. The pull keeps in step with what was sent by
`pullFiles_inStep`, whatever the chunks and wherever the stream is cut off; what it took of each
file is then what the server sends of it, which is all that lies past the offset. -/
theorem transfer_is_exact (codec : Codec ContentReply) (lawful : codec.Lawful maxReplySize)
    (server before : Store Hash) (files : List (Files.FileRef Hash)) (current : Nat → Bool)
    (stream : List Bytes) (lost : Bytes)
    (named : ∀ hash bytes, server.blob hash = some bytes → ContentHash.of bytes = hash)
    (distinct : (files.map Files.FileRef.hash).Nodup)
    (real : ∀ file ∈ files, ∀ bytes, server.blob file.hash = some bytes →
      file.size.toNat = bytes.length)
    (delivered : stream.flatten ++ lost =
      bytesOf (sendContents codec server (requests (ask files before).1))) :
    let asked := (ask files before).1
    let sent := sendContents codec server (requests asked)
    let done := pull codec current files stream before
    -- Every byte taken is taken for what it was sent for, in the same order.
    done.1.log <+: sent ∧
    (∀ entry ∈ asked, contentOf entry.1.hash done.1.log <+:
      ((server.blob entry.1.hash).getD []).drop entry.2.toNat) ∧
    ((∀ later, current later = true) → ∃ unread,
      stream.flatten = bytesOf done.1.log ++ unread ∧ InHeader codec unread) ∧
    (lost = [] → (∀ later, current later = true) →
      done.2 = .ok () ∧ done.1.log = sent ∧
      (∀ entry ∈ asked, contentOf entry.1.hash done.1.log =
        ((server.blob entry.1.hash).getD []).drop entry.2.toNat) ∧
      (∀ file ∈ files, server.blob file.hash = none →
        done.1.store.blob file.hash = before.blob file.hash ∧
          done.1.store.part file.hash = Store.trimmed file.size (before.part file.hash)) ∧
      ∀ file ∈ files, ∀ bytes, server.blob file.hash = some bytes →
        done.1.store.part file.hash = none ∧
          (done.1.store.partialSize file.hash file.size).1 = 0 ∧
          ((∀ held, before.part file.hash = some held → Resumable bytes held) →
            done.1.store.blob file.hash = some bytes)) := by
  intro asked sent done
  obtain ⟨order, ready, blobs, _, looked⟩ := ask_spec files before distinct
  have hashes := ask_hashes files before distinct
  have among : ∀ entry ∈ asked, entry.1 ∈ files := by
    intro entry member
    rw [← order]
    exact List.mem_map_of_mem member
  have sizes : ∀ entry ∈ asked, ∀ bytes, server.blob entry.1.hash = some bytes →
      entry.1.size.toNat = bytes.length :=
    fun entry member => real entry.1 (among entry member)
  have within : ∀ entry ∈ asked, ∀ bytes, server.blob entry.1.hash = some bytes →
      entry.2.toNat ≤ bytes.length := by
    intro entry member bytes served
    rw [← sizes entry member bytes served]
    exact UInt64.le_iff_toNat_le.mp (ready entry member).2
  rw [← hashes] at distinct
  have content := (contentOf_sendContents codec lawful server asked distinct within).2
  have inStep := pullFiles_inStep codec server current lawful asked
    { store := (ask files before).2, stream, log := [] } lost distinct ready sizes delivered
  obtain ⟨got, logged, front, read⟩ := inStep.attributed
  change done.1.log = [] ++ got at logged
  rw [List.nil_append] at logged
  subst logged
  refine ⟨front, ?_, read, ?_⟩
  · intro entry member
    rw [← content entry member]
    exact contentOf_prefix entry.1.hash _ _ front
  · intro uncut stays
    obtain ⟨ended, whole, settled⟩ := inStep.complete uncut stays
    change done.1.log = [] ++ sent at whole
    rw [List.nil_append] at whole
    have each : ∀ file ∈ files,
        Settled server (ask files before).2 done.1.store file.hash := by
      intro file member
      rw [← order] at member
      obtain ⟨entry, listed, same⟩ := List.mem_map.mp member
      rw [← same]
      exact settled entry listed
    refine ⟨ended, whole, ?_, ?_, ?_⟩
    · intro entry member
      rw [whole]
      exact content entry member
    · intro file member absent
      have left := each file member
      rw [Settled, absent] at left
      exact ⟨left.1.trans (blobs file.hash), left.2.trans (looked file member)⟩
    · intro file member bytes served
      have left := each file member
      rw [Settled, served] at left
      obtain ⟨cleared, arrived⟩ := left
      refine ⟨cleared, by rw [Store.partialSize, cleared], ?_⟩
      intro resumable
      have start := heldOf_trimmed file.size bytes (before.part file.hash)
        (real file member bytes served) resumable
      have assembled : heldOf (ask files before).2 file.hash ++
          bytes.drop (heldOf (ask files before).2 file.hash).length = bytes := by
        rw [heldOf, looked file member]
        exact List.prefix_iff_eq_append.mp start
      rw [assembled, if_pos (named file.hash bytes served)] at arrived
      exact arrived

/-- How replies are encoded: the number of the variant, then its size. -/
def replyCodec : Codec ContentReply where
  encode
    | .sending size => Varint.encode 0 ++ Varint.encode size.toNat
    | .missing => Varint.encode 1
  decode bytes := do
    let (variant, bytes) ← Varint.decode bytes
    if variant = 0 then
      let (size, rest) ← Varint.decode bytes
      if size < 2 ^ 64 then some (.sending (UInt64.ofNat size), rest) else none
    else if variant = 1 then some (.missing, bytes)
    else none

/-- A reply is read back as it was written. The two replies differ in their first byte, and the
size behind it is read by the law of its own numbers. -/
theorem replyCodec_lawful : replyCodec.Lawful maxReplySize where
  roundTrip message := by
    cases message with
    | sending size =>
      have variant := Varint.decode_encode 0 (Varint.encode size.toNat)
      have read := Varint.decode_encode size.toNat []
      rw [List.append_nil] at read
      have bound := size.toNat_lt
      simp only [replyCodec, variant, Option.bind_eq_bind, Option.bind_some, read, if_true,
        if_pos bound, UInt64.ofNat_toNat]
    | missing =>
      have variant := Varint.decode_encode 1 []
      rw [List.append_nil] at variant
      simp [replyCodec, variant]
  fits message := by
    cases message with
    | sending size =>
      have first := Varint.encode_length 0 0 (by decide)
      have second := Varint.encode_length 9 size.toNat (lt_of_lt_of_le size.toNat_lt (by decide))
      simp only [replyCodec, List.length_append, maxReplySize]
      omega
    | missing =>
      have first := Varint.encode_length 0 1 (by decide)
      simp only [replyCodec, maxReplySize]
      omega

/-- A spool with one file in it. -/
def holding (name : SpoolName Bytes) (bytes : Bytes) : Store Bytes :=
  { (Store.empty : Store Bytes) with blobs := Inodes.Dir.empty.create name bytes }

/-- Two files to pull: one half here, one its server lacks. -/
def wanted : List (Files.FileRef Bytes) :=
  [{ path := "notes", size := 3, hash := [1, 2, 3] }, { path := "draft", size := 1, hash := [9] }]

/-- One of three bytes is here already, and the other two are sent. A content that neither side
has is not made up. -/
theorem transfer_is_exact_halfway :
    let server := holding (.blob [1, 2, 3]) [1, 2, 3]
    let before := holding (.part [1, 2, 3]) [1]
    let stream := bytesOf (sendContents replyCodec server (requests (ask wanted before).1))
    let done := pull replyCodec (fun _ => true) wanted [stream] before
    done.2 = .ok () ∧ done.1.store.blob [1, 2, 3] = some [1, 2, 3] ∧
      done.1.store.part [1, 2, 3] = none ∧ done.1.store.blob [9] = none := by
  intro server before stream done
  have held : ∀ hash bytes, server.blob hash = some bytes →
      hash = [1, 2, 3] ∧ bytes = [1, 2, 3] := by
    intro hash bytes served
    by_cases same : hash = [1, 2, 3]
    · subst same
      exact ⟨rfl, (Option.some.inj (served.symm.trans (Inodes.Dir.read_create_self _ _ _)))⟩
    · have absent : server.blob hash = none :=
        Inodes.Dir.read_create_of_ne _ _ _ _ (by simpa using same)
      rw [absent] at served
      cases served
  have exact_pull := transfer_is_exact replyCodec replyCodec_lawful server before wanted
    (fun _ => true) [stream] []
    (by
      intro hash bytes served
      obtain ⟨rfl, rfl⟩ := held hash bytes served
      rfl)
    (by decide)
    (by
      intro file member bytes served
      obtain ⟨same, rfl⟩ := held file.hash bytes served
      cases List.mem_cons.mp member with
      | inl first => rw [first]; rfl
      | inr second =>
        rw [List.mem_singleton.mp second] at same
        exact absurd same (by decide))
    (by rw [List.append_nil]; exact List.append_nil _)
  obtain ⟨_, _, _, complete⟩ := exact_pull
  obtain ⟨ended, _, _, lacking, present⟩ := complete rfl (fun _ => rfl)
  obtain ⟨cleared, _, arrived⟩ := present _ List.mem_cons_self [1, 2, 3] (by decide)
  obtain ⟨blob, _⟩ := lacking _ (List.mem_cons_of_mem _ List.mem_cons_self) (by decide)
  refine ⟨ended, arrived ?_, cleared, blob.trans (by decide)⟩
  intro partly stored
  have same : before.part [1, 2, 3] = some [1] := by decide
  rw [Option.some.inj (stored.symm.trans same)]
  exact Or.inl (by decide)

end Exact

end Yank.Transfer
