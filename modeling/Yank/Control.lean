import Yank.CatchingUp
import Yank.Hex
import Yank.Locating
import Yank.Messages
import Yank.Pasting
import Yank.PeerSet
import Yank.Preview
import Yank.Wire

/-!
# What the daemon and its clients say to each other

A client connects, sends one request and reads one answer. Both are messages of one cap, made for
the largest there is, a copy at the ceiling. An answer over the cap would never be written, and
the client would be left with a stream that ends.

Neither happens: whatever is on the clipboard and whoever is in the mesh, every answer is written
and read back as it was given, and a copy that is too large to be asked for is one the daemon
would not take.
-/

namespace Yank.Control

open Postcard Postcard.Format

/-- Cap on a control message. -/
def maxMessageSize : Nat := maxClipSize

/-- A span of time that can be carried: whole seconds of 64 bits and a part of one. -/
abbrev Span := { nanos : Duration // nanos < 2 ^ 64 * 1000000000 }

/-- A request from a client. -/
inductive Request where
  | status
  | pairHost (name : String)
  | pairJoin (ticket name : String)
  | removePeer (peer : String)
  | copy (mime : String) (bytes : Bytes) (secret : Bool) (ttl : Option Span)
  | paste (mime : Option String)
  | copyFiles (paths : List String) (ttl : Option Span)
  | files
  | clear

/-- What the clipboard holds. -/
structure ClipInfo where
  preview : String
  secret : Bool
  files : UInt64
  origin : String
  ageSecs : UInt64
  expiresInSecs : Option UInt64

/-- The clipboard half of the status. -/
structure ClipboardStatus where
  /-- Why the compositor side is not up. -/
  backend : Option String
  current : Option ClipInfo

/-- How traffic reaches a machine. -/
inductive Route where
  | direct (addr : String) (rttMs : UInt64)
  | relay (url : String) (rttMs : UInt64)

/-- Where it goes, as it is printed. -/
def Route.text : Route → String
  | direct addr _ => addr
  | relay url _ => url

/-- Where a machine's connection is at. -/
inductive ConnectionStatus where
  | connecting
  | connected (route : Option Route) (sinceSecs : UInt64)
  | backoff (retryInSecs : UInt64)

/-- One paired machine. -/
structure PeerInfo where
  name : String
  connection : ConnectionStatus

/-- What the daemon is doing. -/
structure Status (Id : Type) where
  endpoint : Id
  uptimeSecs : UInt64
  version : String
  clipboard : ClipboardStatus
  peers : List PeerInfo

/-- The daemon's answer. -/
inductive Response (Id Hash : Type) where
  | done
  | status (status : Status Id)
  | pairTicket (ticket : String)
  | paired (name : String)
  | peerRemoved (id : Id)
  | contents (pasted : Clipboard.Pasted)
  | files (tree : Option String) (files : List (Files.FileRef Hash))
  | error (message : String)

/-! How they are written, given how an endpoint id and a hash are. -/

/-- The seconds and the rest are the span. -/
theorem span_whole (nanos : Nat) (small : nanos < 2 ^ 64 * 1000000000) :
    (UInt64.ofNat (nanos / 1000000000)).toNat * 1000000000 +
      (UInt32.ofNat (nanos % 1000000000)).toNat = nanos := by
  have secs : (UInt64.ofNat (nanos / 1000000000)).toNat = nanos / 1000000000 :=
    UInt64.toNat_ofNat_of_lt' (by rw [UInt64.size]; omega)
  have rest : (UInt32.ofNat (nanos % 1000000000)).toNat = nanos % 1000000000 :=
    UInt32.toNat_ofNat_of_lt' (by rw [UInt32.size]; omega)
  rw [secs, rest]
  omega

def spanFormat : Format Span :=
  (u64.pair u32).via
    (fun span => (.ofNat (span.val / 1000000000), .ofNat (span.val % 1000000000)))
    (fun read =>
      let nanos := read.1.toNat * 1000000000 + read.2.toNat
      if small : nanos < 2 ^ 64 * 1000000000 then some ⟨nanos, small⟩ else none)
    (fun span => by simp only [span_whole span.val span.property, span.property, dite_true])

namespace Request

def variant : Request → Nat
  | status => 0
  | pairHost _ => 1
  | pairJoin _ _ => 2
  | removePeer _ => 3
  | copy _ _ _ _ => 4
  | paste _ => 5
  | copyFiles _ _ => 6
  | files => 7
  | clear => 8

def copyFields : Format (String × Bytes × Bool × Option Span) :=
  text.pair (bytes.pair (bool.pair spanFormat.option))

def fields : Request → List UInt8
  | status | files | clear => []
  | pairHost name => text.encode name
  | pairJoin ticket name => (text.pair text).encode (ticket, name)
  | removePeer peer => text.encode peer
  | copy mime bytes secret ttl => copyFields.encode (mime, bytes, secret, ttl)
  | paste mime => text.option.encode mime
  | copyFiles paths ttl => (text.list.pair spanFormat.option).encode (paths, ttl)

def read : Nat → List UInt8 → Option (Request × List UInt8)
  | 0, rest => some (status, rest)
  | 1, rest => text.read pairHost rest
  | 2, rest => (text.pair text).read (fun read => pairJoin read.1 read.2) rest
  | 3, rest => text.read removePeer rest
  | 4, rest => copyFields.read (fun read => copy read.1 read.2.1 read.2.2.1 read.2.2.2) rest
  | 5, rest => text.option.read paste rest
  | 6, rest => (text.list.pair spanFormat.option).read (fun read => copyFiles read.1 read.2) rest
  | 7, rest => some (files, rest)
  | 8, rest => some (clear, rest)
  | _, _ => none

/-- A request is read back from its variant and its fields. -/
theorem read_fields (request : Request) (rest : List UInt8) :
    read request.variant (request.fields ++ rest) = some (request, rest) := by
  cases request <;> simp [read, variant, fields]

def format : Format Request := variants variant fields read read_fields

end Request

def clipInfoFormat : Format ClipInfo :=
  (text.pair (bool.pair (u64.pair (text.pair (u64.pair u64.option))))).via
    (fun info => (info.preview, info.secret, info.files, info.origin, info.ageSecs,
      info.expiresInSecs))
    (fun read => some
      { preview := read.1, secret := read.2.1, files := read.2.2.1, origin := read.2.2.2.1
        ageSecs := read.2.2.2.2.1, expiresInSecs := read.2.2.2.2.2 })
    (fun _ => rfl)

def clipboardStatusFormat : Format ClipboardStatus :=
  (text.option.pair clipInfoFormat.option).via (fun status => (status.backend, status.current))
    (fun read => some { backend := read.1, current := read.2 }) (fun _ => rfl)

def routeFormat : Format Route :=
  ((text.pair u64).choice (text.pair u64)).via
    (fun route => match route with
      | .direct addr rttMs => .inl (addr, rttMs)
      | .relay url rttMs => .inr (url, rttMs))
    (fun read => match read with
      | .inl (addr, rttMs) => some (.direct addr rttMs)
      | .inr (url, rttMs) => some (.relay url rttMs))
    (fun route => by cases route <;> rfl)

namespace ConnectionStatus

def variant : ConnectionStatus → Nat
  | connecting => 0
  | connected _ _ => 1
  | backoff _ => 2

def fields : ConnectionStatus → List UInt8
  | connecting => []
  | connected route sinceSecs => (routeFormat.option.pair u64).encode (route, sinceSecs)
  | backoff retryInSecs => u64.encode retryInSecs

def read : Nat → List UInt8 → Option (ConnectionStatus × List UInt8)
  | 0, rest => some (connecting, rest)
  | 1, rest => (routeFormat.option.pair u64).read (fun read => connected read.1 read.2) rest
  | 2, rest => u64.read backoff rest
  | _, _ => none

/-- A state of a connection is read back from its variant and its fields. -/
theorem read_fields (status : ConnectionStatus) (rest : List UInt8) :
    read status.variant (status.fields ++ rest) = some (status, rest) := by
  cases status <;> simp [read, variant, fields]

def format : Format ConnectionStatus := variants variant fields read read_fields

end ConnectionStatus

def peerInfoFormat : Format PeerInfo :=
  (text.pair ConnectionStatus.format).via (fun peer => (peer.name, peer.connection))
    (fun read => some { name := read.1, connection := read.2 }) (fun _ => rfl)

def pastedFormat : Format Clipboard.Pasted :=
  (text.pair (text.list.pair bytes)).via (fun pasted => (pasted.mime, pasted.alternates, pasted.bytes))
    (fun read => some { mime := read.1, alternates := read.2.1, bytes := read.2.2 }) (fun _ => rfl)

section Formats

variable {Id Hash : Type} (id : Format Id) (hash : Format Hash)

def statusFormat : Format (Status Id) :=
  (id.pair (u64.pair (text.pair (clipboardStatusFormat.pair peerInfoFormat.list)))).via
    (fun status => (status.endpoint, status.uptimeSecs, status.version, status.clipboard,
      status.peers))
    (fun read => some
      { endpoint := read.1, uptimeSecs := read.2.1, version := read.2.2.1
        clipboard := read.2.2.2.1, peers := read.2.2.2.2 })
    (fun _ => rfl)

namespace Response

def variant : Response Id Hash → Nat
  | done => 0
  | status _ => 1
  | pairTicket _ => 2
  | paired _ => 3
  | peerRemoved _ => 4
  | contents _ => 5
  | files _ _ => 6
  | error _ => 7

def fields : Response Id Hash → List UInt8
  | done => []
  | status told => (statusFormat id).encode told
  | pairTicket ticket => text.encode ticket
  | paired name => text.encode name
  | peerRemoved removed => id.encode removed
  | contents pasted => pastedFormat.encode pasted
  | files tree named => (text.option.pair (fileRefFormat hash).list).encode (tree, named)
  | error message => text.encode message

def read : Nat → List UInt8 → Option (Response Id Hash × List UInt8)
  | 0, rest => some (done, rest)
  | 1, rest => (statusFormat id).read status rest
  | 2, rest => text.read pairTicket rest
  | 3, rest => text.read paired rest
  | 4, rest => id.read peerRemoved rest
  | 5, rest => pastedFormat.read contents rest
  | 6, rest => (text.option.pair (fileRefFormat hash).list).read (fun read => files read.1 read.2) rest
  | 7, rest => text.read error rest
  | _, _ => none

/-- A response is read back from its variant and its fields. -/
theorem read_fields (response : Response Id Hash) (rest : List UInt8) :
    read id hash response.variant (response.fields id hash ++ rest) = some (response, rest) := by
  cases response <;> simp [read, variant, fields]

def format : Format (Response Id Hash) :=
  variants variant (fields id hash) (read id hash) (read_fields id hash)

end Response

end Formats

/-! What the daemon answers. -/

/-- Maximum length kept of a string whose size is not ours to trust. -/
def maxSanitizedLen : Nat := 256

/-- `sanitize` and a bound; `none` for a panic. -/
def sanitizeBounded (text : String) : Option String :=
  let clean := sanitize text.toList
  match Text.offset maxSanitizedLen clean with
  | some cut => (Text.truncate cut clean).map (fun kept => String.ofList (kept ++ ['…']))
  | none => some (String.ofList clean)

/-- How what this program has no say in is printed. -/
structure Printing (Id : Type) where
  id : Id → String
  byteSize : Nat → String
  version : String

/-- Whole seconds since an instant, none where it is yet to come. -/
def elapsedSecs (since now : SystemTime) : UInt64 := .ofNat (asSecs (now - since).toNat)

section Answers

variable {Id Hash : Type} [LinearOrder Id]

/-- What the clipboard holds; `none` for a panic. -/
def describe (printing : Printing Id) (name : Id → String) (now : SystemTime)
    (board : Clipboard Id Hash) : Option (Option ClipInfo) :=
  match board.current with
  | none => some none
  | some (stamp, copy) =>
      (copy.preview printing.byteSize).map (fun preview => some
        { preview
          secret := copy.secret
          files := .ofNat copy.files.length
          origin := name stamp.origin
          ageSecs := elapsedSecs stamp.time now
          expiresInSecs := board.expires.map (fun deadline => elapsedSecs now deadline) })

/-- Every paired machine, connected or not. -/
def statuses (connection : Id → ConnectionStatus) (set : PeerSet Id) : List PeerInfo :=
  set.peers.toList.map (fun entry => { name := entry.2.name, connection := connection entry.1 })

/-- The name of a machine. One that left the mesh is shown by its id. -/
def originName (printing : Printing Id) (identity : Id) (mesh : MeshState Id) (origin : Id) : String :=
  if origin = identity then "this machine" else (mesh.peerName origin).getD (printing.id origin)

/-- Why the compositor side is not up, cleaned up; `none` for a panic. -/
def backendDown : Option String → Option (Option String)
  | none => some none
  | some reason => (sanitizeBounded reason).map some

/-- Snapshots the daemon; `none` for a panic. -/
def status (printing : Printing Id) (identity : Id) (uptimeSecs : UInt64) (down : Option String)
    (connection : Id → ConnectionStatus) (now : SystemTime) (mesh : MeshState Id) (set : PeerSet Id)
    (board : Clipboard Id Hash) : Option (Status Id) := do
  let backend ← backendDown down
  let current ← describe printing (originName printing identity mesh) now board
  return {
    endpoint := identity
    uptimeSecs
    version := printing.version
    clipboard := { backend, current }
    peers := statuses connection set }

/-- What may come of a request, given what the daemon holds; `none` for a panic. Any text may be
that of a failure; where files are, and the ticket of this machine, is given. -/
inductive Answer (printing : Printing Id) (identity : Id) (mesh : MeshState Id) (set : PeerSet Id)
    (board : Clipboard Id Hash) : Option (Except String (Response Id Hash)) → Prop where
  | failed (message : String) : Answer printing identity mesh set board (some (.error message))
  | done : Answer printing identity mesh set board (some (.ok .done))
  | status (uptimeSecs : UInt64) (down : Option String) (connection : Id → ConnectionStatus)
      (now : SystemTime)
      (routes : ∀ id route sinceSecs, connection id = .connected (some route) sinceSecs →
        route.text.utf8ByteSize ≤ 32768) :
      Answer printing identity mesh set board
        ((status printing identity uptimeSecs down connection now mesh set board).map
          (fun told => .ok (.status told)))
  | pairTicket (ticket : String) (short : ticket.utf8ByteSize ≤ 32768) :
      Answer printing identity mesh set board (some (.ok (.pairTicket ticket)))
  | paired (name : String) (checked : validateName name = .ok ()) :
      Answer printing identity mesh set board (some (.ok (.paired name)))
  | peerRemoved (id : Id) : Answer printing identity mesh set board (some (.ok (.peerRemoved id)))
  | contents (mime : Option String) (pasted : Clipboard.Pasted)
      (found : board.paste mime = .ok pasted) :
      Answer printing identity mesh set board (some (.ok (.contents pasted)))
  | files (tree : Option String) (short : ∀ path ∈ tree, path.utf8ByteSize ≤ 32768)
      (stamp : Stamp Id) (copy : Copy Hash) (held : board.current = some (stamp, copy)) :
      Answer printing identity mesh set board (some (.ok (.files tree copy.files)))

/-- Errors are cleaned up before they are handed back; `none` for a panic. -/
def reply : Except String (Response Id Hash) → Option (Response Id Hash)
  | .ok response => some response
  | .error message => (sanitizeBounded message).map .error

end Answers

/-! What they take up. -/

/-- No character takes more than four bytes. -/
theorem utf8ByteSize_le (text : List Char) : (String.ofList text).utf8ByteSize ≤ 4 * text.length := by
  induction text with
  | nil => exact Nat.zero_le _
  | cons char text inductionHypothesis =>
    have four := char.utf8Size_le_four
    rw [← List.singleton_append, String.ofList_append, String.utf8ByteSize_append, List.length_append]
    have one : (String.ofList [char]).utf8ByteSize = char.utf8Size := String.utf8ByteSize_singleton
    rw [one, List.length_singleton]
    omega

/-- Cleaning a string up never panics, and what is kept is short. The cut is between two
characters, and an ellipsis comes behind it. -/
theorem sanitizeBounded_eq (text : String) :
    ∃ kept, sanitizeBounded text = some kept ∧ kept.utf8ByteSize ≤ 1028 := by
  rw [sanitizeBounded]
  generalize sanitize text.toList = clean
  cases starts : Text.offset maxSanitizedLen clean with
  | none =>
    have short := (Text.offset_none_iff maxSanitizedLen clean).mp starts
    have size := utf8ByteSize_le clean
    rw [maxSanitizedLen] at short
    exact ⟨_, rfl, by omega⟩
  | some cut =>
    have short := List.length_take_le maxSanitizedLen clean
    have size := utf8ByteSize_le (clean.take maxSanitizedLen ++ ['…'])
    rw [List.length_append, List.length_singleton] at size
    have cutOff := Text.truncate_offset maxSanitizedLen cut clean starts
    refine ⟨String.ofList (clean.take maxSanitizedLen ++ ['…']), ?_, ?_⟩
    · dsimp only
      rw [cutOff]
      rfl
    · have few : (clean.take maxSanitizedLen).length ≤ 256 := short
      omega

/-- What is behind the byte that says whether, where there is anything. -/
theorem option_le {Value : Type} (format : Format Value) (bound : Nat) (value : Option Value)
    (bounded : ∀ inner ∈ value, (format.encode inner).length ≤ bound) :
    (format.option.encode value).length ≤ 1 + bound :=
  option_length format bound value (fun inner same => bounded inner same)

/-- A text that is not huge takes up its bytes and few more. -/
theorem text_le (bound : Nat) (value : String) (short : value.utf8ByteSize ≤ bound)
    (few : bound < 128 ^ 4) : (text.encode value).length ≤ 4 + bound :=
  (text_length 3 value (short.trans_lt few)).trans (Nat.add_le_add_left short 4)

/-- What a copy that passes its check is bounded by. -/
theorem check_bounds (copy : Copy Digest) (checked : copy.check = .ok ()) :
    copy.size ≤ maxSize ∧ copy.selection.reps.length ≤ Mime.maxReps ∧
      (∀ rep ∈ copy.selection.reps, rep.mime.utf8ByteSize ≤ maxMimeLen) ∧
      copy.files.length ≤ Files.maxFiles := by
  simp only [Copy.check, ensure_bind_ok_iff, decide_eq_true_eq, Bool.and_eq_true,
    List.all_eq_true] at checked
  obtain ⟨small, ⟨few, types⟩, named, _⟩ := checked
  refine ⟨small, few, ?_, named⟩
  intro rep among
  have type := types rep among
  simp only [Copy.isUsableType, Bool.and_eq_true, decide_eq_true_eq] at type
  exact type.1.2

/-- What is pasted takes its own bytes and little more. -/
theorem pastedFormat_length (pasted : Clipboard.Pasted) (typed : pasted.mime.utf8ByteSize ≤ 255)
    (others : ∀ mime ∈ pasted.alternates, mime.utf8ByteSize ≤ 255) (few : pasted.alternates.length ≤ 8)
    (fits : pasted.bytes.length ≤ maxSize) :
    (pastedFormat.encode pasted).length ≤ 4096 + maxSize := by
  have ceiling : maxSize < 128 ^ 4 := by decide
  have mime := text_le 255 pasted.mime typed (by decide)
  have bytes := bytes_length 3 pasted.bytes (fits.trans_lt ceiling)
  have listed := list_length 0 text (fun _ => 259) pasted.alternates (by omega)
    (fun other among => text_le 255 other (others other among) (by decide))
  rw [List.map_const', List.sum_replicate, smul_eq_mul] at listed
  rw [pastedFormat, via_encode, pair_length, pair_length]
  dsimp only
  omega

/-- One of the representations of a copy that passes takes up its bytes and little else, the names
of the others included. -/
theorem contents_length (copy : Copy Digest) (checked : copy.check = .ok ()) (found : Rep)
    (early late : List Rep) (split : copy.selection.reps = early ++ found :: late) :
    (pastedFormat.encode (.of (found, early ++ late))).length ≤ 4096 + maxSize := by
  obtain ⟨small, few, usable, _⟩ := check_bounds copy checked
  rw [split] at few usable
  rw [List.length_append, List.length_cons, Mime.maxReps] at few
  refine pastedFormat_length _ (usable found (by simp)) ?_ ?_ ?_
  · intro mime among
    obtain ⟨rep, member, rfl⟩ := List.mem_map.mp among
    refine usable rep ?_
    rw [List.mem_append] at member ⊢
    exact member.imp_right (List.mem_cons_of_mem found)
  · rw [Clipboard.Pasted.of]
    simp only [List.length_map, List.length_append]
    omega
  · have within : found.bytes.length ≤ copy.selection.size := by
      rw [Selection.size, split]
      exact List.single_le_sum (fun _ _ => Nat.zero_le _) _
        (List.mem_map_of_mem (f := fun rep : Rep => rep.bytes.length) (by simp))
    rw [Copy.size] at small
    exact within.trans ((Nat.le_add_right _ _).trans small)

/-- The files of a copy that passes take up what they are counted for. -/
theorem files_length (copy : Copy Digest) (checked : copy.check = .ok ()) :
    ((fileRefFormat digestFormat).list.encode copy.files).length ≤ 2 + maxSize := by
  obtain ⟨small, _, _, named⟩ := check_bounds copy checked
  rw [Copy.size] at small
  have paths (file : Files.FileRef Digest) (among : file ∈ copy.files) :
      file.path.utf8ByteSize ≤ maxSize := by
    have counted := List.single_le_sum (fun _ _ => Nat.zero_le _) _
      (List.mem_map_of_mem (f := fun file => file.path.utf8ByteSize + fileOverhead) among)
    omega
  rw [Files.maxFiles] at named
  have listed := list_length 1 (fileRefFormat digestFormat)
    (fun file => file.path.utf8ByteSize + fileOverhead) copy.files (by omega)
    (fun file among => fileRefFormat_length file (paths file among))
  omega

/-- A preview is short. A secret is a constant, a text is cut, and anything else is named by its
type and size. -/
theorem preview_length (byteSize : Nat → String) (brief : ∀ size, (byteSize size).utf8ByteSize ≤ 64)
    (copy : Copy Digest) (checked : copy.check = .ok ()) :
    ∃ preview, copy.preview byteSize = some preview ∧ preview.utf8ByteSize ≤ 1024 := by
  rw [Copy.preview]
  split
  · exact ⟨_, rfl, by decide⟩
  · split
    · have typed := (check_bounds copy checked).2.2.1 copy.selection.primary List.mem_cons_self
      have sized := brief copy.selection.primary.bytes.length
      rw [maxMimeLen] at typed
      refine ⟨_, rfl, ?_⟩
      have marks : "<".utf8ByteSize = 1 ∧ ", ".utf8ByteSize = 2 ∧ ">".utf8ByteSize = 1 := by decide
      simp only [String.utf8ByteSize_append, marks]
      omega
    · obtain ⟨line, marks, shown, short, _, few⟩ := Copy.previewText_eq copy.selection.primary.bytes
      have size := utf8ByteSize_le (line ++ marks)
      have three : marks.length ≤ 3 := by
        simp only [List.mem_cons, List.not_mem_nil, or_false] at few
        obtain rfl | rfl | rfl | rfl := few <;> decide
      rw [List.length_append] at size
      rw [Copy.previewChars] at short
      exact ⟨_, by rw [shown]; rfl, by omega⟩

/-- A route takes its text and little more. The variant is a byte, and the time of a round trip at
most ten. -/
theorem routeFormat_length (route : Route) (short : route.text.utf8ByteSize ≤ 32768) :
    (routeFormat.encode route).length ≤ 1 + 32782 := by
  have each (goes : String) (rttMs : UInt64) (brief : goes.utf8ByteSize ≤ 32768) :
      ((text.pair u64).encode (goes, rttMs)).length ≤ 32782 := by
    have written := text_le 32768 goes brief (by decide)
    have rtt := u64_length rttMs
    rw [pair_length]
    dsimp only
    omega
  rw [routeFormat, via_encode]
  cases route with
  | direct addr rttMs =>
    refine choice_length _ _ _ _ ?_ (by rintro _ ⟨⟩)
    rintro _ ⟨⟩
    exact each addr rttMs short
  | relay url rttMs =>
    refine choice_length _ _ _ _ (by rintro _ ⟨⟩) ?_
    rintro _ ⟨⟩
    exact each url rttMs short

/-- A connection takes up where it goes. The longest variant is a connection with its route. -/
theorem connection_length (connection : ConnectionStatus)
    (routes : ∀ route sinceSecs, connection = .connected (some route) sinceSecs →
      route.text.utf8ByteSize ≤ 32768) :
    (ConnectionStatus.format.encode connection).length ≤ 32800 := by
  have led := variants_length ConnectionStatus.variant ConnectionStatus.fields ConnectionStatus.read
    ConnectionStatus.read_fields connection (by cases connection <;> simp [ConnectionStatus.variant])
  refine led.trans ?_
  cases connection with
  | connecting => decide
  | backoff retryInSecs =>
    have secs := u64_length retryInSecs
    rw [ConnectionStatus.fields]
    omega
  | connected route sinceSecs =>
    have secs := u64_length sinceSecs
    have through := option_le routeFormat (1 + 32782) route
      (fun inner same => routeFormat_length inner (routes inner sinceSecs (by rw [same])))
    rw [ConnectionStatus.fields, pair_length]
    dsimp only
    omega

/-! Machines. -/

section Machines

variable {Id : Type} [LinearOrder Id] (ops : List (MeshState.Op Id)) (set : PeerSet Id)

/-- The machines shown are those in the mesh. -/
theorem synced_named (mesh : MeshState Id) (tended : set.Tended) (id : Id) (handle : PeerHandle)
    (shown : (id, handle) ∈ (set.sync mesh).peers.toList) :
    mesh.peerName id = some handle.name := by
  rw [← (PeerSet.sync_spec mesh set tended).2.1 id, PeerSet.nameOf,
    Std.ExtTreeMap.mem_toList_iff_getElem?_eq_some.mp shown]
  rfl

/-- A name that is there passed its check. -/
theorem peerName_short (id : Id) (name : String)
    (known : (MeshState.callAll .empty ops).peerName id = some name) : name.utf8ByteSize ≤ 64 := by
  obtain ⟨peer, held, alive⟩ := Option.bind_eq_some_iff.mp known
  refine validateName_length name (MeshState.callAll_named ops .empty ?_ id peer.version name ?_)
  · intro id version name impossible
    rw [MeshState.empty_record] at impossible
    cases impossible
  · obtain ⟨version, status⟩ := peer
    cases status with
    | removed => cases alive
    | alive name =>
      obtain rfl := Option.some.inj alive
      exact held

/-- No more machines are shown than a mesh has. Those that are shown are alive in the mesh, which
stays under its cap. -/
theorem synced_few (tended : set.Tended) :
    (set.sync (MeshState.callAll .empty ops)).peers.toList.length ≤ 64 := by
  have within : (MeshState.callAll (.empty : MeshState Id) ops).peers.size ≤ 64 :=
    (MeshState.hostile_runs_are_bounded .empty (Nat.zero_le _) ops).1
  generalize MeshState.callAll (.empty : MeshState Id) ops = mesh at within ⊢
  have known : (set.sync mesh).peers.keys ⊆ mesh.peers.keys := by
    intro id member
    rw [← Std.ExtTreeMap.map_fst_toList_eq_keys] at member
    obtain ⟨⟨_, handle⟩, shown, rfl⟩ := List.mem_map.mp member
    obtain ⟨peer, held, _⟩ := Option.bind_eq_some_iff.mp (synced_named set mesh tended _ handle shown)
    rw [Std.ExtTreeMap.mem_keys, Std.ExtTreeMap.mem_iff_isSome_getElem?, held]
    rfl
  have fewer := (Std.ExtTreeMap.nodup_keys.subperm known).length_le
  rw [Std.ExtTreeMap.length_toList, ← Std.ExtTreeMap.length_keys]
  rw [← Std.ExtTreeMap.length_keys] at within
  exact fewer.trans within

/-- What is said of the machines takes up a bounded part. There are at most sixty-four machines,
and each takes up its name, its connection and a route that is bounded by assumption. -/
theorem statuses_length (tended : set.Tended) (connection : Id → ConnectionStatus)
    (routes : ∀ id route sinceSecs, connection id = .connected (some route) sinceSecs →
      route.text.utf8ByteSize ≤ 32768) :
    (peerInfoFormat.list.encode
      (statuses connection (set.sync (MeshState.callAll .empty ops)))).length ≤ 1 + 64 * 32868 := by
  have few := synced_few ops set tended
  have entries := list_length 0 peerInfoFormat (fun _ => 32868)
    (statuses connection (set.sync (MeshState.callAll .empty ops)))
    (by rw [statuses, List.length_map]; omega) (by
      intro peer among
      obtain ⟨⟨id, handle⟩, shown, rfl⟩ := List.mem_map.mp among
      have named := peerName_short ops id handle.name (synced_named set _ tended id handle shown)
      have name := text_le 64 handle.name named (by decide)
      have goes := connection_length (connection id) (routes id)
      rw [peerInfoFormat, via_encode, pair_length]
      dsimp only
      omega)
  have counted (bound : Nat) (peers : List PeerInfo) :
      (peers.map (fun _ => bound)).sum = peers.length * bound := by
    rw [List.map_const', List.sum_replicate, smul_eq_mul]
  have all : (statuses connection (set.sync (MeshState.callAll .empty ops))).length ≤ 64 := by
    rwa [statuses, List.length_map]
  rw [counted] at entries
  exact entries.trans (Nat.add_le_add_left (Nat.mul_le_mul_right 32868 all) 1)

end Machines

/-- What is printed by others is short. -/
structure Printing.Brief {Id : Type} (printing : Printing Id) : Prop where
  id : ∀ endpoint, (printing.id endpoint).utf8ByteSize ≤ 1024
  byteSize : ∀ size, (printing.byteSize size).utf8ByteSize ≤ 64
  version : printing.version.utf8ByteSize ≤ 64

section Answers

variable {Id : Type} [LinearOrder Id] {printing : Printing Id} (ops : List (MeshState.Op Id))
  (identity : Id)

/-- What names the machine a copy was made on is short. -/
theorem originName_short (brief : printing.Brief) (origin : Id) :
    (originName printing identity (MeshState.callAll .empty ops) origin).utf8ByteSize ≤ 1024 := by
  rw [originName]
  split
  · decide
  · cases known : (MeshState.callAll (.empty : MeshState Id) ops).peerName origin with
    | none => exact brief.id origin
    | some name => exact (peerName_short ops origin name known).trans (by decide)

/-- What is said of the clipboard is there and short. The parts are the preview, the name of the
origin and numbers, each short by a lemma of its own. -/
theorem describe_length (brief : printing.Brief) (now : SystemTime) (board : Clipboard Id Digest)
    (fit : ∀ clip, board.clip = some clip → clip.Fit) :
    ∃ current, describe printing (originName printing identity (MeshState.callAll .empty ops)) now
        board = some current ∧ (clipInfoFormat.option.encode current).length ≤ 4096 := by
  rw [describe]
  cases held : board.current with
  | none => exact ⟨none, rfl, by decide⟩
  | some entry =>
    obtain ⟨stamp, copy⟩ := entry
    have checked := fit _ ((Clipboard.current_iff board stamp copy).mp held) copy rfl
    obtain ⟨preview, shown, short⟩ := preview_length printing.byteSize brief.byteSize copy checked
    dsimp only
    rw [shown]
    refine ⟨_, rfl, ?_⟩
    refine (option_le clipInfoFormat 4095 _ ?_).trans (by decide)
    rintro info ⟨⟩
    have origin := text_le 1024 _ (originName_short ops identity brief stamp.origin) (by decide)
    have line := text_le 1024 preview short (by decide)
    have expires := option_le u64 10
      (board.expires.map (fun deadline => elapsedSecs now deadline)) (fun secs _ => u64_length secs)
    have files := u64_length (.ofNat copy.files.length)
    have age := u64_length (elapsedSecs stamp.time now)
    simp only [clipInfoFormat, via_encode, pair_length, bool_length]
    omega

omit [LinearOrder Id] in
/-- Why there is no clipboard is said briefly. -/
theorem backendDown_length (down : Option String) :
    ∃ backend, backendDown down = some backend ∧
      (text.option.encode backend).length ≤ 1 + (4 + 1028) := by
  cases down with
  | none => exact ⟨none, rfl, by decide⟩
  | some reason =>
    obtain ⟨kept, clean, bounded⟩ := sanitizeBounded_eq reason
    refine ⟨some kept, by rw [backendDown, clean]; rfl, option_le text _ _ ?_⟩
    rintro inner ⟨⟩
    exact text_le 1028 kept bounded (by decide)

/-- The whole status is there and bounded. The parts are those of the two lemmas above with what
is said of this machine itself. -/
theorem status_length (id : Format Id) (idSize : ∀ endpoint, (id.encode endpoint).length ≤ 64)
    (brief : printing.Brief) (set : PeerSet Id) (tended : set.Tended) (uptimeSecs : UInt64)
    (down : Option String) (connection : Id → ConnectionStatus) (now : SystemTime)
    (routes : ∀ id route sinceSecs, connection id = .connected (some route) sinceSecs →
      route.text.utf8ByteSize ≤ 32768)
    (board : Clipboard Id Digest) (fit : ∀ clip, board.clip = some clip → clip.Fit) :
    ∃ told, status printing identity uptimeSecs down connection now (MeshState.callAll .empty ops)
        (set.sync (MeshState.callAll .empty ops)) board = some told ∧
      ((statusFormat id).encode told).length ≤ 4194304 := by
  obtain ⟨current, described, short⟩ := describe_length ops identity brief now board fit
  obtain ⟨backend, said, cleaned⟩ := backendDown_length down
  have shown := statuses_length ops set tended connection routes
  have endpoint := idSize identity
  have version := text_le 64 printing.version brief.version (by decide)
  have uptime := u64_length uptimeSecs
  refine ⟨{
    endpoint := identity
    uptimeSecs
    version := printing.version
    clipboard := { backend, current }
    peers := statuses connection (set.sync (MeshState.callAll .empty ops)) }, ?_, ?_⟩
  · simp only [status, said, described, Option.bind_eq_bind, Option.bind_some, Option.pure_def]
  · simp only [statusFormat, clipboardStatusFormat, via_encode, pair_length]
    omega

/-- Whatever comes of a request is said, and small enough to be. Every field of an answer is
bounded by what the daemon keeps it to: names, messages and previews are cut, and a clip that is
there has passed the check of its size. -/
theorem answer_fits (id : Format Id) (idSize : ∀ endpoint, (id.encode endpoint).length ≤ 64)
    (brief : printing.Brief) (set : PeerSet Id) (tended : set.Tended)
    (board : Clipboard Id Digest) (fit : ∀ clip, board.clip = some clip → clip.Fit)
    (outcome : Option (Except String (Response Id Digest)))
    (answer : Answer printing identity (MeshState.callAll .empty ops)
      (set.sync (MeshState.callAll .empty ops)) board outcome) :
    ∃ response, outcome.bind reply = some response ∧
      ((Response.format id digestFormat).encode response).length ≤ maxMessageSize := by
  have whole (response : Response Id Digest)
      (bounded : (response.fields id digestFormat).length ≤ maxSize + 61440) :
      ((Response.format id digestFormat).encode response).length ≤ maxMessageSize := by
    have room : 1 + (maxSize + 61440) ≤ maxMessageSize := by decide
    have led := variants_length Response.variant (Response.fields id digestFormat) _
      (Response.read_fields id digestFormat) response (by cases response <;> simp [Response.variant])
    exact (led.trans (Nat.add_le_add_left bounded 1)).trans room
  have brief_fits (message : String) (bound : Nat) (short : message.utf8ByteSize ≤ bound)
      (few : 4 + bound ≤ 61440) : (text.encode message).length ≤ maxSize + 61440 :=
    ((text_le bound message short (by omega)).trans few).trans (Nat.le_add_left _ _)
  cases answer with
  | failed message =>
    obtain ⟨kept, clean, short⟩ := sanitizeBounded_eq message
    refine ⟨.error kept, ?_, whole _ (brief_fits kept 1028 short (by decide))⟩
    rw [Option.bind_some, reply, clean]
    rfl
  | done => exact ⟨.done, rfl, whole _ (Nat.zero_le _)⟩
  | status uptimeSecs down connection now routes =>
    obtain ⟨told, seen, small⟩ := status_length ops identity id idSize brief set tended uptimeSecs down
      connection now routes board fit
    refine ⟨.status told, ?_, whole _ (small.trans (by decide))⟩
    rw [seen]
    rfl
  | pairTicket ticket short =>
    exact ⟨_, rfl, whole _ (brief_fits ticket 32768 short (by decide))⟩
  | paired name checked =>
    exact ⟨_, rfl, whole _ (brief_fits name 64 (validateName_length name checked) (by decide))⟩
  | peerRemoved removed => exact ⟨_, rfl, whole _ ((idSize removed).trans (by decide))⟩
  | contents mime pasted found =>
    refine ⟨_, rfl, whole _ ?_⟩
    cases held : board.current with
    | none =>
      rw [Clipboard.paste, held] at found
      cases found
    | some entry =>
      obtain ⟨stamp, copy⟩ := entry
      have checked := fit _ ((Clipboard.current_iff board stamp copy).mp held) copy rfl
      obtain ⟨rep, others, ⟨early, late, split, rest⟩, rfl⟩ :=
        Clipboard.paste_split board stamp copy held mime pasted found
      obtain rfl := rest
      calc (pastedFormat.encode (.of (rep, early ++ late))).length
          ≤ 4096 + maxSize := contents_length copy checked rep early late split
        _ = maxSize + 4096 := Nat.add_comm _ _
        _ ≤ maxSize + 61440 := Nat.add_le_add_left (by decide) _
  | files tree short stamp copy held =>
    have checked := fit _ ((Clipboard.current_iff board stamp copy).mp held) copy rfl
    have named := files_length copy checked
    have place := option_le text (4 + 32768) tree
      (fun path there => text_le 32768 path (short path there) (by decide))
    refine ⟨_, rfl, whole _ ?_⟩
    rw [Response.fields, pair_length]
    dsimp only
    omega

end Answers

/-! What is written is read. -/

section Reading

variable {Message : Type} (format : Format Message) (cap : Nat)

def codec : Wire.Codec Message where
  encode := format.encode
  decode := format.decode

/-- The messages under a cap alone. -/
def codecUnder : Wire.Codec { message // (format.encode message).length ≤ cap } where
  encode message := format.encode message.val
  decode bytes := (format.decode bytes).bind (fun read =>
    if small : (format.encode read.1).length ≤ cap then some (⟨read.1, small⟩, read.2) else none)

/-- A codec with a cap reads back what it writes. -/
theorem codecUnder_lawful : (codecUnder format cap).Lawful cap where
  roundTrip message := by
    have read := format.reads_alone message.val
    simp [codecUnder, read, message.property]
  fits message := message.property

/-- What is read of the messages under a cap is what is read of them all. The cap is looked at
before the message is decoded, so a message under it is decoded in the same way. -/
theorem readMessage_under (stream rest : List Bytes) (bytes : Bytes)
    (message : { message // (format.encode message).length ≤ cap })
    (read : Wire.readMessage (codecUnder format cap) cap stream = some (message, bytes, rest)) :
    Wire.readMessage (codec format) cap stream = some (message.val, bytes, rest) := by
  simp only [Wire.readMessage, Option.bind_eq_bind, Option.bind_eq_some_iff, Prod.exists] at read ⊢
  obtain ⟨led, stream, sized, read⟩ := read
  refine ⟨led, stream, sized, ?_⟩
  split at read
  case isTrue => cases read
  case isFalse allowed =>
    rw [if_neg allowed]
    simp only [Option.bind_eq_some_iff, Prod.exists] at read ⊢
    obtain ⟨encoded, after, taken, under, left, decoded, read⟩ := read
    split at read
    case isFalse => cases read
    case isTrue whole =>
      cases read
      refine ⟨encoded, rest, taken, message.val, left, ?_, if_pos whole⟩
      simp only [codecUnder, Option.bind_eq_some_iff] at decoded
      obtain ⟨⟨other, more⟩, plain, small⟩ := decoded
      split at small
      case isFalse => cases small
      case isTrue =>
        cases small
        exact plain

/-- A message under the cap is written, and read back however it arrives. -/
theorem exchanged (small : cap < 4294967296) (message : Message)
    (fits : (format.encode message).length ≤ cap) :
    ∃ bytes, Wire.writeMessage (codec format) message cap = some bytes ∧
      ∀ stream : List Bytes, stream.flatten = bytes →
        ∃ rest, Wire.readMessage (codec format) cap stream = some (message, bytes, rest) ∧
          rest.flatten = [] := by
  refine ⟨Wire.frame (codec format) message, if_pos ⟨fits.trans_lt small, fits⟩, ?_⟩
  intro stream arrived
  obtain ⟨rest, read, left⟩ := Wire.readMessage_write (codecUnder format cap) cap
    (codecUnder_lawful format cap) small ⟨message, fits⟩ stream [] (by rw [arrived, List.append_nil]; rfl)
  exact ⟨rest, readMessage_under format cap stream rest _ _ read, left⟩

end Reading

section Socket

variable {Id : Type} [LinearOrder Id] [ContentHash Digest]

/-- Whatever happens to a clipboard, it holds what every machine may. -/
theorem after_fit (board : Clipboard Id Digest) (events : List (Clipboard.Event Id Digest))
    (fit : ∀ clip, board.clip = some clip → clip.Fit) :
    ∀ clip, (board.after events).clip = some clip → clip.Fit := by
  induction events generalizing board with
  | nil => exact fit
  | cons event events inductionHypothesis =>
    refine inductionHypothesis (board.step event).1 ?_
    by_cases restarts : ∃ clock settings, event = .restart clock settings
    · obtain ⟨clock, settings, rfl⟩ := restarts
      exact Clipboard.new_fit clock board.origin settings board.saved (Clipboard.saved_fit board fit)
    · exact Clipboard.step_fit board event restarts fit

omit [LinearOrder Id] [ContentHash Digest] in
/-- A copy the daemon would take is small enough to be asked for. The bytes are at most `max_size`
and the type is no longer than a type may be, which leaves room for the numbers in front of them.
-/
theorem copy_fits (board : Clipboard Id Digest) (rep : Rep) (secret : Bool) (ttl : Option Span)
    (copy : Copy Digest)
    (taken : board.toCopy (.of rep) [] secret (ttl.map Subtype.val) = .ok copy) :
    (Request.format.encode (.copy rep.mime rep.bytes secret ttl)).length ≤ maxMessageSize := by
  obtain ⟨small, _, usable, _⟩ := check_bounds copy
    (Clipboard.toCopy_check board _ _ _ _ copy taken)
  have selection : copy.selection = .of rep := by
    simp only [Clipboard.toCopy, bind_ok_iff] at taken
    obtain ⟨_, _, _, _, _, _, made⟩ := taken
    rw [← Except.ok.inj made]
  rw [Copy.size, selection] at small
  rw [selection] at usable
  have typed := usable rep List.mem_cons_self
  rw [maxMimeLen] at typed
  have weighs : rep.bytes.length ≤ maxSize := by
    have alone : (Selection.of rep).size = rep.bytes.length := by
      simp [Selection.size, Selection.of, Selection.reps]
    rw [alone] at small
    exact (Nat.le_add_right _ _).trans small
  have ceiling : maxSize < 128 ^ 4 := by decide
  have mime := text_le 255 rep.mime typed (by decide)
  have bytes := bytes_length 3 rep.bytes (weighs.trans_lt ceiling)
  have lifetime := option_le spanFormat 15 ttl (by
    intro span _
    have secs := u64_length (.ofNat (span.val / 1000000000))
    have part := u32_length (.ofNat (span.val % 1000000000))
    rw [spanFormat, via_encode, pair_length]
    dsimp only
    omega)
  have led := variants_length Request.variant Request.fields Request.read Request.read_fields
    (.copy rep.mime rep.bytes secret ttl) (by decide : (4 : Nat) < 128)
  have inside : (Request.fields (.copy rep.mime rep.bytes secret ttl)).length ≤
      259 + (4 + rep.bytes.length) + 1 + 16 := by
    rw [Request.fields, Request.copyFields, pair_length, pair_length, pair_length, bool_length]
    dsimp only
    omega
  calc (Request.format.encode (.copy rep.mime rep.bytes secret ttl)).length
      ≤ 1 + (259 + (4 + rep.bytes.length) + 1 + 16) := led.trans (Nat.add_le_add_left inside 1)
    _ = rep.bytes.length + 281 := by omega
    _ ≤ maxSize + 281 := Nat.add_le_add_right weighs 281
    _ ≤ maxMessageSize := by decide

/-- What is asked and answered arrives. Whatever happened to the clipboard and the mesh, restarts
and hostile peers included: every answer of the daemon is said without a panic, written and read
back by the client as it was given, however it arrives; and a client can ask for every copy of a
content that the daemon would take. A request that names files by their paths is not spoken of. -/
theorem answers_reach_the_client (id : Format Id)
    (idSize : ∀ endpoint, (id.encode endpoint).length ≤ 64) (printing : Printing Id)
    (brief : printing.Brief) (clock : Clock) (identity : Id) (settings : Settings)
    (events : List (Clipboard.Event Id Digest)) (ops : List (MeshState.Op Id)) (set : PeerSet Id)
    (tended : set.Tended) :
    let board := (Clipboard.new clock identity settings none).after events
    (∀ outcome, Answer printing identity (MeshState.callAll .empty ops)
        (set.sync (MeshState.callAll .empty ops)) board outcome →
      ∃ response bytes, outcome.bind reply = some response ∧
        Wire.writeMessage (codec (Response.format id digestFormat)) response maxMessageSize =
          some bytes ∧
        ∀ stream : List Bytes, stream.flatten = bytes →
          ∃ rest, Wire.readMessage (codec (Response.format id digestFormat)) maxMessageSize stream =
            some (response, bytes, rest) ∧ rest.flatten = []) ∧
      ∀ rep secret (ttl : Option Span) copy,
        board.toCopy (.of rep) [] secret (ttl.map Subtype.val) = .ok copy →
        ∃ bytes, Wire.writeMessage (codec Request.format) (.copy rep.mime rep.bytes secret ttl)
            maxMessageSize = some bytes ∧
          ∀ stream : List Bytes, stream.flatten = bytes →
            ∃ rest, Wire.readMessage (codec Request.format) maxMessageSize stream =
              some (.copy rep.mime rep.bytes secret ttl, bytes, rest) ∧ rest.flatten = [] := by
  intro board
  have fit : ∀ clip, board.clip = some clip → clip.Fit :=
    after_fit _ events (Clipboard.new_fit clock identity settings none (by rintro _ ⟨⟩))
  have few : maxMessageSize < 4294967296 := by decide
  constructor
  · intro outcome answer
    obtain ⟨response, said, fits⟩ :=
      answer_fits ops identity id idSize brief set tended board fit outcome answer
    obtain ⟨bytes, written, read⟩ := exchanged (Response.format id digestFormat) maxMessageSize few
      response fits
    exact ⟨response, bytes, said, written, read⟩
  · intro rep secret ttl copy taken
    exact exchanged Request.format maxMessageSize few _ (copy_fits board rep secret ttl copy taken)

end Socket

/-- Ids in hexadecimal, as they are printed. -/
def hexPrinting : Printing EndpointKey where
  id key := String.ofList (Hex.encode key.bytes.val)
  byteSize _ := "2 B"
  version := "0.1.0"

/-- Hexadecimal ids are short enough. -/
theorem hexPrinting_brief : hexPrinting.Brief where
  id key := by
    have size := utf8ByteSize_le (Hex.encode key.bytes.val)
    rw [Hex.encode_length, key.bytes.property] at size
    exact size.trans (by decide)
  byteSize _ := by
    change "2 B".utf8ByteSize ≤ 64
    decide
  version := by
    change "0.1.0".utf8ByteSize ≤ 64
    decide

/-- A machine. -/
def desktop : EndpointKey := ⟨⟨List.replicate 32 7, by decide⟩⟩

/-- Short contents stand for their hash. -/
@[reducible] def padded : ContentHash Digest := ⟨fun bytes => ⟨(bytes ++ List.replicate 32 0).take 32, by simp⟩⟩

/-- The text that is copied. -/
def hi : Rep := { mime := "text/plain", bytes := [104, 105] }

def noon : Clock := ⟨1000000, 1000000, 1000000, 1000000⟩

/-- The clipboard after it. -/
def greeted : Clipboard EndpointKey Digest :=
  letI := padded
  (Clipboard.new noon desktop .default none).after [.copy noon (.of hi) [] false none]

/-- A text is copied on a machine with one peer, and pasted there. The answer comes in two pieces,
cut inside the message. -/
theorem answers_reach_the_client_pasting :
    greeted.paste none = .ok (.of (hi, [])) ∧
      ∃ bytes, Wire.writeMessage (codec (Response.format endpointFormat digestFormat))
          (.contents (.of (hi, []))) maxMessageSize = some bytes ∧
        ∃ rest, Wire.readMessage (codec (Response.format endpointFormat digestFormat)) maxMessageSize
          [bytes.take 3, bytes.drop 3] = some (.contents (.of (hi, [])), bytes, rest) ∧
          rest.flatten = [] := by
  have observed : (greeted.paste none).toOption = some (.of (hi, [])) := by decide +kernel
  have found : greeted.paste none = .ok (.of (hi, [])) := by
    cases pasted : greeted.paste none with
    | error failure =>
      rw [pasted] at observed
      cases observed
    | ok contents =>
      rw [pasted] at observed
      obtain rfl := Option.some.inj observed
      rfl
  let _hashes := padded
  have sound := answers_reach_the_client endpointFormat
    (fun endpoint => le_of_eq_of_le endpoint.bytes.property (by decide)) hexPrinting
    hexPrinting_brief noon desktop .default [.copy noon (.of hi) [] false none]
    [.add desktop "laptop"] .empty PeerSet.empty_tended
  obtain ⟨response, bytes, said, written, read⟩ := sound.1 _ (.contents none _ found)
  obtain rfl := Option.some.inj said
  obtain ⟨rest, heard, left⟩ := read [bytes.take 3, bytes.drop 3] (by simp)
  exact ⟨found, bytes, written, rest, heard, left⟩

end Yank.Control
