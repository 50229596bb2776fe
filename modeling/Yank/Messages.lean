import Yank.Postcard
import Yank.Containment
import Yank.Fetch

/-!
# What machines say to each other

Every message has a cap that its receiver enforces, so an honest message over its cap
would be lost for good. What is said is as large as a copy, a manifest or a mesh may
be, each of which is bounded by a check of its own.
-/

namespace Yank

open Postcard Postcard.Format

variable {Id Hash : Type}

/-- Cap on a unidirectional message. -/
def maxUniSize : Nat := 64 * 1024

/-- Cap on what opens a bidirectional stream. -/
def maxRequestSize : Nat := 256 * 1024

/-- Cap on a clip: a copy at the ceiling, plus its envelope. -/
def maxClipSize : Nat := maxSize + 64 * 1024

/-- The hash of a file's bytes as it is carried: 32 bytes. -/
abbrev Digest := { bytes : Bytes // bytes.length = 32 }

/-- A message on a one-shot unidirectional stream. -/
inductive UniMessage (Id : Type) [LinearOrder Id] where
  | membership (state : MeshState Id)
  | head (stamp : Stamp Id)

/-- What opens a bidirectional stream. -/
inductive Ask (Hash : Type) where
  | clip
  | contents (requests : List (Transfer.ContentRequest Hash))

/-- Why a request is refused. -/
inductive AskFailure where
  | tooMany
  | twice
deriving DecidableEq

/-- The text of a refusal. -/
def AskFailure.text : AskFailure → String
  | .tooMany => "too many files asked for"
  | .twice => "a file asked for twice"

/-- Whether every hash is new to those before it, `seen` included. -/
def allNew [DecidableEq Hash] : List Hash → List Hash → Bool
  | _, [] => true
  | seen, hash :: hashes => !seen.contains hash && allNew (hash :: seen) hashes

/-- Refuses a request no honest machine sends. -/
def Ask.validate [DecidableEq Hash] : Ask Hash → Except AskFailure Unit
  | .clip => .ok ()
  | .contents requests => do
      ensure (requests.length ≤ Files.maxFiles) .tooMany
      ensure (allNew [] (requests.map (fun request => request.hash))) .twice

/-- The scan finds whether anything comes twice, or was seen before. The induction is on the
hashes and carries those seen so far. -/
theorem allNew_iff [DecidableEq Hash] (seen hashes : List Hash) :
    allNew seen hashes = true ↔ hashes.Nodup ∧ ∀ hash ∈ hashes, hash ∉ seen := by
  induction hashes generalizing seen with
  | nil => simp [allNew]
  | cons hash hashes inductionHypothesis =>
    rw [allNew, Bool.and_eq_true, Bool.not_eq_true', inductionHypothesis, List.nodup_cons,
      List.forall_mem_cons, List.contains_eq_mem, decide_eq_false_iff_not]
    simp only [List.mem_cons, not_or]
    constructor
    · rintro ⟨fresh, once, apart⟩
      exact ⟨⟨fun member => (apart hash member).1 rfl, once⟩, fresh,
        fun other member => (apart other member).2⟩
    · rintro ⟨⟨absent, once⟩, fresh, apart⟩
      refine ⟨fresh, once, fun other member => ⟨?_, apart other member⟩⟩
      rintro rfl
      exact absent member

/-- A request for contents is fit if it is short and names none twice. -/
theorem Ask.validate_ok_iff [DecidableEq Hash] (requests : List (Transfer.ContentRequest Hash)) :
    (Ask.contents requests).validate = .ok () ↔
      requests.length ≤ Files.maxFiles ∧ (requests.map (fun request => request.hash)).Nodup := by
  rw [validate, ensure_bind_ok_iff, ensure_ok_iff, allNew_iff, decide_eq_true_eq]
  simp

/-! How messages are written, given how an endpoint id is. -/

def stampFormat (id : Format Id) : Format (Stamp Id) :=
  (u64.pair id).via (fun stamp => (stamp.millis, stamp.origin))
    (fun read => some { millis := read.1, origin := read.2 }) (fun _ => rfl)

def repFormat : Format Rep :=
  (text.pair bytes).via (fun rep => (rep.mime, rep.bytes))
    (fun read => some { mime := read.1, bytes := read.2 }) (fun _ => rfl)

def selectionFormat : Format Selection :=
  (repFormat.pair repFormat.list).via (fun selection => (selection.primary, selection.alternates))
    (fun read => some { primary := read.1, alternates := read.2 }) (fun _ => rfl)

def fileRefFormat (hash : Format Hash) : Format (Files.FileRef Hash) :=
  (text.pair (u64.pair hash)).via (fun file => (file.path, file.size, file.hash))
    (fun read => some { path := read.1, size := read.2.1, hash := read.2.2 }) (fun _ => rfl)

def copyFormat (hash : Format Hash) : Format (Copy Hash) :=
  (selectionFormat.pair (bool.pair (u32.option.pair (fileRefFormat hash).list))).via
    (fun copy => (copy.selection, copy.secret, copy.ttl, copy.files))
    (fun read => some
      { selection := read.1, secret := read.2.1, ttl := read.2.2.1, files := read.2.2.2 })
    (fun _ => rfl)

def clipFormat (id : Format Id) (hash : Format Hash) : Format (Clip Id Hash) :=
  ((stampFormat id).pair (copyFormat hash).option).via (fun clip => (clip.stamp, clip.copy))
    (fun read => some { stamp := read.1, copy := read.2 }) (fun _ => rfl)

def contentRequestFormat (hash : Format Hash) : Format (Transfer.ContentRequest Hash) :=
  (hash.pair u64).via (fun request => (request.hash, request.offset))
    (fun read => some { hash := read.1, offset := read.2 }) (fun _ => rfl)

def askFormat (hash : Format Hash) : Format (Ask Hash) :=
  (unit.choice (contentRequestFormat hash).list).via
    (fun ask => match ask with
      | .clip => .inl ()
      | .contents requests => .inr requests)
    (fun read => match read with
      | .inl () => some .clip
      | .inr requests => some (.contents requests))
    (fun ask => by cases ask <;> rfl)

def contentReplyFormat : Format Transfer.ContentReply :=
  (u64.choice unit).via
    (fun reply => match reply with
      | .sending size => .inl size
      | .missing => .inr ())
    (fun read => match read with
      | .inl size => some (.sending size)
      | .inr () => some .missing)
    (fun reply => by cases reply <;> rfl)

def peerStatusFormat : Format PeerStatus :=
  (text.choice unit).via
    (fun status => match status with
      | .alive name => .inl name
      | .removed => .inr ())
    (fun read => match read with
      | .inl name => some (.alive name)
      | .inr () => some .removed)
    (fun status => by cases status <;> rfl)

def peerFormat : Format Peer :=
  (u64.pair peerStatusFormat).via (fun peer => (peer.version, peer.status))
    (fun read => some { version := read.1, status := read.2 }) (fun _ => rfl)

section Mesh

variable [LinearOrder Id]

/-- A map is its entries. -/
theorem MeshState.ofList_toList (state : MeshState Id) :
    Std.ExtTreeMap.ofList state.peers.toList compare = state.peers := by
  apply Std.ExtTreeMap.ext_getElem?
  intro id
  have distinct := Std.ExtTreeMap.distinct_keys_toList (t := state.peers)
  cases held : state.peers[id]? with
  | some peer =>
    have member := (MeshState.mem_toList_iff state id peer).mpr held
    exact Std.ExtTreeMap.getElem?_ofList_of_mem (compare_eq_iff_eq.mpr rfl) distinct member
  | none =>
    apply Std.ExtTreeMap.getElem?_ofList_of_contains_eq_false
    rw [List.contains_eq_mem, decide_eq_false_iff_not]
    intro among
    obtain ⟨⟨other, peer⟩, member, rfl⟩ := List.mem_map.mp among
    have present := (MeshState.mem_toList_iff state other peer).mp member
    rw [MeshState.record, held] at present
    cases present

def meshFormat (id : Format Id) : Format (MeshState Id) :=
  (id.pair peerFormat).list.via (fun state => state.peers.toList)
    (fun entries => some { peers := Std.ExtTreeMap.ofList entries compare })
    (fun state => by rw [MeshState.ofList_toList])

def uniMessageFormat (id : Format Id) : Format (UniMessage Id) :=
  ((meshFormat id).choice (stampFormat id)).via
    (fun message => match message with
      | .membership state => .inl state
      | .head stamp => .inr stamp)
    (fun read => match read with
      | .inl state => some (.membership state)
      | .inr stamp => some (.head stamp))
    (fun message => by cases message <;> rfl)

end Mesh

/-! What a message takes up. -/

section Sizes

variable (id : Format Id) (idSize : ∀ endpoint, (id.encode endpoint).length ≤ 64)

/-- How a hash is written. -/
def digestFormat : Format Digest := raw 32

include idSize in
/-- A stamp is short. -/
theorem stampFormat_length (stamp : Stamp Id) : ((stampFormat id).encode stamp).length ≤ 74 := by
  have millis := u64_length stamp.millis
  have origin := idSize stamp.origin
  rw [stampFormat, via_encode, pair_length]
  dsimp only
  omega

/-- A representation takes up its bytes and little else. -/
theorem repFormat_length (rep : Rep) (usable : rep.mime.utf8ByteSize ≤ maxMimeLen)
    (fits : rep.bytes.length ≤ maxSize) :
    (repFormat.encode rep).length ≤ 261 + rep.bytes.length := by
  rw [maxMimeLen] at usable
  rw [maxSize] at fits
  have mime := text_length 1 rep.mime (by omega)
  have bytes := bytes_length 3 rep.bytes (by omega)
  rw [repFormat, via_encode, pair_length]
  dsimp only
  omega

/-- A file takes up its path and no more than it is counted for. -/
theorem fileRefFormat_length (file : Files.FileRef Digest) (fits : file.path.utf8ByteSize ≤ maxSize) :
    ((fileRefFormat digestFormat).encode file).length ≤ file.path.utf8ByteSize + fileOverhead := by
  rw [maxSize] at fits
  have path := text_length 3 file.path (by omega)
  have size := u64_length file.size
  rw [fileRefFormat, via_encode, pair_length, pair_length, digestFormat, raw_length, fileOverhead]
  dsimp only
  omega

/-- A selection takes up its bytes and a bounded envelope. Each representation takes up its bytes,
its type and two numbers, and there are no more of them than `max_reps`. -/
theorem selectionFormat_length (selection : Selection)
    (few : selection.reps.length ≤ Mime.maxReps)
    (usable : ∀ rep ∈ selection.reps, rep.mime.utf8ByteSize ≤ maxMimeLen)
    (fits : selection.size ≤ maxSize) :
    (selectionFormat.encode selection).length ≤ 1 + 261 * Mime.maxReps + selection.size := by
  have each (rep : Rep) (among : rep ∈ selection.reps) : rep.bytes.length ≤ maxSize :=
    le_trans (List.single_le_sum (fun _ _ => Nat.zero_le _) _
      (List.mem_map_of_mem (f := fun rep => rep.bytes.length) among)) fits
  rw [Selection.reps, List.forall_mem_cons] at usable each
  have first := repFormat_length selection.primary usable.1 each.1
  rw [Selection.reps, List.length_cons, Mime.maxReps] at few
  have others := list_length 0 repFormat (fun rep => 261 + rep.bytes.length) selection.alternates
    (by omega) (fun rep among => repFormat_length rep (usable.2 rep among) (each.2 rep among))
  have counted : (selection.alternates.map (fun rep => 261 + rep.bytes.length)).sum =
      261 * selection.alternates.length + (selection.alternates.map (fun rep => rep.bytes.length)).sum := by
    rw [List.sum_map_add, List.map_const', List.sum_replicate, smul_eq_mul, Nat.mul_comm]
  rw [counted] at others
  rw [selectionFormat, via_encode, pair_length, Selection.size, Selection.reps, List.map_cons,
    List.sum_cons, Mime.maxReps]
  dsimp only
  omega

/-- What passes the check fits, with a bounded envelope. The envelope is that of the selection
with a flag, a lifetime and the names and numbers of the files. -/
theorem copyFormat_length (copy : Copy Digest) (checked : copy.check = .ok ()) :
    ((copyFormat digestFormat).encode copy).length ≤ 2098 + maxSize := by
  simp only [Copy.check, ensure_bind_ok_iff, decide_eq_true_eq, Bool.and_eq_true,
    List.all_eq_true] at checked
  obtain ⟨small, ⟨few, types⟩, named, _⟩ := checked
  have usable (rep : Rep) (among : rep ∈ copy.selection.reps) :
      rep.mime.utf8ByteSize ≤ maxMimeLen := by
    have type := types rep among
    simp only [Copy.isUsableType, Bool.and_eq_true, decide_eq_true_eq] at type
    exact type.1.2
  rw [Copy.size] at small
  have selection := selectionFormat_length copy.selection few usable (by omega)
  have lifetime := option_length u32 5 copy.ttl (fun ttl _ => u32_length ttl)
  have paths (file : Files.FileRef Digest) (among : file ∈ copy.files) :
      file.path.utf8ByteSize ≤ maxSize := by
    have counted := List.single_le_sum (fun _ _ => Nat.zero_le _) _
      (List.mem_map_of_mem (f := fun file => file.path.utf8ByteSize + fileOverhead) among)
    omega
  rw [Files.maxFiles] at named
  have manifest := list_length 1 (fileRefFormat digestFormat)
    (fun file => file.path.utf8ByteSize + fileOverhead) copy.files (by omega)
    (fun file among => fileRefFormat_length file (paths file among))
  rw [Mime.maxReps] at selection
  rw [copyFormat, via_encode, pair_length, pair_length, pair_length, bool_length]
  dsimp only
  omega

include idSize in
/-- A clip fits, and so does nothing. -/
theorem clipFormat_length (clip : Option (Clip Id Digest))
    (checked : ∀ held copy, clip = some held → held.copy = some copy → copy.check = .ok ()) :
    ((clipFormat id digestFormat).option.encode clip).length ≤ maxClipSize := by
  have inside (held : Clip Id Digest) (same : clip = some held) :
      ((clipFormat id digestFormat).encode held).length ≤ 2173 + maxSize := by
    have stamp := stampFormat_length id idSize held.stamp
    have copy := option_length (copyFormat digestFormat) (2098 + maxSize) held.copy
      (fun copy copied => copyFormat_length copy (checked held copy same copied))
    rw [clipFormat, via_encode, pair_length]
    dsimp only
    omega
  have whole := option_length (clipFormat id digestFormat) (2173 + maxSize) clip inside
  have room (ceiling : Nat) : 1 + (2173 + ceiling) ≤ ceiling + 64 * 1024 := by omega
  exact whole.trans (room maxSize)

end Sizes

section Requests

/-- A request for some of what is missing, each past what is here of it, is one every
machine answers. -/
theorem contents_fits (copy : Copy Digest) (checked : copy.check = .ok ()) (store : Store Digest)
    (asked : List (Files.FileRef Digest × UInt64))
    (lacking : (asked.map Prod.fst).Sublist (Fetch.missing store copy.files [])) :
    ((Transfer.requests asked).map (fun request => request.hash)).Nodup ∧
      (Ask.contents (Transfer.requests asked)).validate = .ok () ∧
      ((askFormat digestFormat).encode (.contents (Transfer.requests asked))).length ≤
        maxRequestSize := by
  obtain ⟨fewer, once, _⟩ := Fetch.missing_spec store copy.files []
  simp only [Copy.check, ensure_bind_ok_iff, decide_eq_true_eq] at checked
  have named := checked.2.2.1
  have hashes : (Transfer.requests asked).map (fun request => request.hash) =
      (asked.map Prod.fst).map Files.FileRef.hash := by
    simp [Transfer.requests]
  have distinct : ((Transfer.requests asked).map (fun request => request.hash)).Nodup := by
    rw [hashes]
    exact (lacking.map _).nodup once
  have few : (Transfer.requests asked).length ≤ Files.maxFiles := by
    have shorter := lacking.length_le
    rw [List.length_map] at shorter
    rw [Transfer.requests, List.length_map]
    omega
  refine ⟨distinct, (Ask.validate_ok_iff _).mpr ⟨few, distinct⟩, ?_⟩
  have each (request : Transfer.ContentRequest Digest) :
      ((contentRequestFormat digestFormat).encode request).length ≤ 42 := by
    have offset := u64_length request.offset
    rw [contentRequestFormat, via_encode, pair_length, digestFormat, raw_length]
    dsimp only
    omega
  rw [Files.maxFiles] at few
  have listed := list_length 1 (contentRequestFormat digestFormat) (fun _ => 42)
    (Transfer.requests asked) (by omega) (fun request _ => each request)
  rw [List.map_const', List.sum_replicate, smul_eq_mul] at listed
  have whole := choice_length unit (contentRequestFormat digestFormat).list (2 + 42 * 4096)
    (.inr (Transfer.requests asked)) (fun _ impossible => by cases impossible) (by
      intro requests same
      cases same
      omega)
  rw [askFormat, via_encode, maxRequestSize]
  dsimp only
  omega

/-- A reply to a request for content is short. -/
theorem contentReplyFormat_length (reply : Transfer.ContentReply) :
    (contentReplyFormat.encode reply).length ≤ Transfer.maxReplySize := by
  rw [contentReplyFormat, via_encode, Transfer.maxReplySize]
  have whole := choice_length u64 unit 10 (match reply with
    | .sending size => .inl size
    | .missing => .inr ()) (fun size _ => u64_length size) (fun _ _ => Nat.zero_le _)
  omega

end Requests

section Membership

variable [LinearOrder Id]

/-- Along any run from an empty mesh every name that is there passes its check. -/
theorem MeshState.callAll_named (ops : List (Op Id)) (start : MeshState Id)
    (named : ∀ id version name, start.record id = ↑({ version, status := .alive name } : Peer) →
      validateName name = .ok ())
    (id : Id) (version : UInt64) (name : String)
    (held : (callAll start ops).record id = ↑({ version, status := .alive name } : Peer)) :
    validateName name = .ok () := by
  induction ops generalizing start with
  | nil => exact named id version name held
  | cons op ops inductionHypothesis =>
    refine inductionHypothesis (called start op).2 ?_ held
    intro other version name alive
    obtain ours | checked := called_named start op other version name alive
    · exact named other version name ours
    · exact checked

/-- A name that is fit is short. -/
theorem validateName_length (name : String) (checked : validateName name = .ok ()) :
    name.utf8ByteSize ≤ maxNameLen := by
  simp only [validateName, ensure_bind_ok_iff, decide_eq_true_eq] at checked
  exact checked.2.1

/-- A record takes up little more than the longest name. A name that passes its check is at most
sixty-four bytes long. -/
theorem peerFormat_length (peer : Peer)
    (named : ∀ name, peer.status = .alive name → validateName name = .ok ()) :
    (peerFormat.encode peer).length ≤ 76 := by
  have version := u64_length peer.version
  have status : (peerStatusFormat.encode peer.status).length ≤ 66 := by
    cases same : peer.status with
    | removed =>
      exact choice_length text unit 65 (.inr ()) (fun _ impossible => by cases impossible)
        (fun _ _ => Nat.zero_le _)
    | alive name =>
      have short := validateName_length name (named name same)
      rw [maxNameLen] at short
      have written := text_length 0 name (by omega)
      have whole := choice_length text unit 65 (.inl name) (by
        intro inner equal
        cases equal
        omega) (fun _ impossible => by cases impossible)
      exact whole
  rw [peerFormat, via_encode, pair_length]
  dsimp only
  omega

/-- Whatever happened to a mesh, what is said of it fits. The mesh stays under its cap and every
name under its own, so sixty-four entries of bounded length are all there is to encode. -/
theorem membership_fits (id : Format Id) (idSize : ∀ endpoint, (id.encode endpoint).length ≤ 64)
    (ops : List (MeshState.Op Id)) :
    ((uniMessageFormat id).encode (.membership (MeshState.callAll .empty ops))).length ≤
      maxUniSize := by
  have within : (MeshState.callAll (.empty : MeshState Id) ops).peers.size ≤ 64 :=
    (MeshState.hostile_runs_are_bounded .empty (Nat.zero_le _) ops).1
  have named := MeshState.callAll_named ops (.empty : MeshState Id) (by
    intro id version name impossible
    rw [MeshState.empty_record] at impossible
    cases impossible)
  generalize MeshState.callAll (.empty : MeshState Id) ops = state at within named ⊢
  have few : state.peers.toList.length ≤ 64 := by
    rwa [Std.ExtTreeMap.length_toList]
  have entries := list_length 0 (id.pair peerFormat) (fun _ => 140) state.peers.toList (by omega) (by
    rintro ⟨endpoint, peer⟩ among
    have key := idSize endpoint
    have record := peerFormat_length peer (by
      intro name alive
      have held := (MeshState.mem_toList_iff state endpoint peer).mp among
      apply named endpoint peer.version name
      rw [held, ← alive])
    rw [pair_length]
    dsimp only
    omega)
  rw [List.map_const', List.sum_replicate, smul_eq_mul] at entries
  have whole := choice_length (meshFormat id) (stampFormat id) (1 + 64 * 140) (.inl state) (by
    intro inner same
    cases same
    rw [meshFormat, via_encode]
    omega) (fun _ impossible => by cases impossible)
  rw [uniMessageFormat, via_encode, maxUniSize]
  dsimp only
  omega

/-- No honest message is refused for its size. With endpoint ids of at most 64 bytes,
every clip whose copy passes its check fits, and so does an emptied one. A pull asks
for exactly the files still missing, and whatever of each is here already, the request
names no hash twice, is valid and fits. Every reply fits, and so does the membership
of every mesh state that can be reached. -/
theorem honest_messages_fit (id : Format Id)
    (idSize : ∀ endpoint, (id.encode endpoint).length ≤ 64) :
    (∀ (stamp : Stamp Id) (copied : Option (Copy Digest)),
      (∀ copy, copied = some copy → copy.check = .ok ()) →
      ((clipFormat id digestFormat).option.encode (some { stamp, copy := copied })).length ≤
        maxClipSize) ∧
    (∀ (copy : Copy Digest) (store : Store Digest) (lacking : List (Files.FileRef Digest)),
      copy.check = .ok () → lacking.Sublist (Fetch.missing store copy.files []) →
      (∀ spool : Store Digest, (Transfer.ask lacking spool).1.map Prod.fst = lacking) ∧
      ∀ asked : List (Files.FileRef Digest × UInt64), asked.map Prod.fst = lacking →
        ((Transfer.requests asked).map (fun request => request.hash)).Nodup ∧
        (Ask.contents (Transfer.requests asked)).validate = .ok () ∧
        ((askFormat digestFormat).encode (.contents (Transfer.requests asked))).length ≤
          maxRequestSize) ∧
    (∀ reply, (contentReplyFormat.encode reply).length ≤ Transfer.maxReplySize) ∧
    ∀ ops : List (MeshState.Op Id),
      ((uniMessageFormat id).encode (.membership (MeshState.callAll .empty ops))).length ≤
        maxUniSize := by
  refine ⟨?_, ?_, contentReplyFormat_length, membership_fits id idSize⟩
  · intro stamp copied checked
    apply clipFormat_length id idSize
    rintro held copy same carried
    obtain rfl := Option.some.inj same
    exact checked copy carried
  · intro copy store lacking checked sub
    obtain ⟨_, once, _⟩ := Fetch.missing_spec store copy.files []
    constructor
    · intro spool
      exact (Transfer.ask_spec lacking spool ((sub.map _).nodup once)).1
    · rintro asked rfl
      exact contents_fits copy checked store asked sub

end Membership

/-- An endpoint id as it is carried: a key of 32 bytes, ordered by them. -/
structure EndpointKey where
  bytes : Digest

/-- No two keys have the same bytes. -/
theorem EndpointKey.ordered :
    Function.Injective (fun key : EndpointKey => key.bytes.val.map UInt8.toNat) := by
  rintro ⟨left, _⟩ ⟨right, _⟩ same
  have bytes := List.map_injective_iff.mpr (fun _ _ => UInt8.toNat_inj.mp) same
  simpa using bytes

instance : LinearOrder EndpointKey := LinearOrder.lift' _ EndpointKey.ordered

def endpointFormat : Format EndpointKey :=
  (raw 32).via EndpointKey.bytes (fun bytes => some ⟨bytes⟩) (fun _ => rfl)

/-- A copy of one file of three bytes. -/
def oneFile : Copy Digest where
  selection := .of { mime := Mime.uriList, bytes := Files.utf8 "file:///a\r\n" }
  files := [{ path := "a", size := 3, hash := ⟨List.replicate 32 9, by decide⟩ }]
  secret := false
  ttl := none

/-- A mesh with one machine added, a clip of that machine that names a file, and the request for
the rest of the file, of which one byte is here. -/
theorem honest_messages_fit_for_keys :
    let key : EndpointKey := ⟨⟨List.replicate 32 7, by decide⟩⟩
    let asked := oneFile.files.map (fun file => (file, (1 : UInt64)))
    ((uniMessageFormat endpointFormat).encode
        (.membership (MeshState.callAll .empty [.add key "laptop"]))).length ≤ maxUniSize ∧
      ((clipFormat endpointFormat digestFormat).option.encode
        (some { stamp := { millis := 5, origin := key }, copy := some oneFile })).length ≤
          maxClipSize ∧
      (Ask.contents (Transfer.requests asked)).validate = .ok () ∧
      ((askFormat digestFormat).encode (.contents (Transfer.requests asked))).length ≤
        maxRequestSize := by
  intro key asked
  have fits := honest_messages_fit endpointFormat
    (fun endpoint => le_of_eq_of_le endpoint.bytes.property (by decide))
  have checked : oneFile.check = .ok () := by decide
  have lacking : Fetch.missing (.empty : Store Digest) oneFile.files [] = oneFile.files := by
    decide
  obtain ⟨_, requested⟩ := fits.2.1 oneFile .empty oneFile.files checked (by rw [lacking])
  obtain ⟨_, valid, short⟩ := requested asked rfl
  refine ⟨fits.2.2.2 _, fits.1 _ (some oneFile) ?_, valid, short⟩
  rintro copy ⟨⟩
  exact checked

end Yank
