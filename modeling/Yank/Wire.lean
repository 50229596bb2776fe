import Yank.Manifest
import Yank.Varint

/-!
# Messages on a stream

A message is a little-endian 32-bit size followed by its encoding. The encoding
is a codec: how a message is turned into bytes and back, with what is left over.
What it must satisfy for a reader to get back what was written is stated as a
property of the codec and of the size both sides accept.

A stream is the list of the chunks it arrives in. Where it is cut is where the
list ends; a reader that needs more than there is fails.
-/

namespace Yank.Wire

/-- How messages are encoded. Decoding answers the message and what follows. -/
structure Codec (Message : Type) where
  encode : Message → Bytes
  decode : Bytes → Option (Message × Bytes)

/-- What is encoded is decoded with nothing left over, and fits. -/
structure Codec.Lawful {Message : Type} (codec : Codec Message) (maxSize : Nat) : Prop where
  roundTrip : ∀ message, codec.decode (codec.encode message) = some (message, [])
  fits : ∀ message, (codec.encode message).length ≤ maxSize

variable {Message : Type}

/-- The four bytes of a size, the lowest first. -/
def le32 (size : Nat) : Bytes :=
  [UInt8.ofNat (size % 256), UInt8.ofNat (size / 256 % 256), UInt8.ofNat (size / 65536 % 256),
    UInt8.ofNat (size / 16777216 % 256)]

/-- The size some bytes spell, the lowest first. -/
def fromLe (bytes : Bytes) : Nat := bytes.foldr (fun byte size => byte.toNat + 256 * size) 0

/-- A size is read back from its four bytes. -/
theorem fromLe_le32 (size : Nat) (bounded : size < 4294967296) : fromLe (le32 size) = size := by
  simp only [fromLe, le32, List.foldr_cons, List.foldr_nil, UInt8.toNat_ofNat']
  omega

/-- Writes a message already encoded; `none` when it is too large. -/
def writeEncoded (bytes : Bytes) (maxSize : Nat) : Option Bytes :=
  if bytes.length < 4294967296 ∧ bytes.length ≤ maxSize then some (le32 bytes.length ++ bytes)
  else none

/-- Writes a length-prefixed message. -/
def writeMessage (codec : Codec Message) (message : Message) (maxSize : Nat) : Option Bytes :=
  writeEncoded (codec.encode message) maxSize

/-- A message on the wire: its size, and its encoding. -/
def frame (codec : Codec Message) (message : Message) : Bytes :=
  le32 (codec.encode message).length ++ codec.encode message

/-- Takes exactly `want` bytes off a stream. -/
def readExact : Nat → List Bytes → Option (Bytes × List Bytes)
  | want, [] => if want = 0 then some ([], []) else none
  | want, chunk :: chunks =>
      if chunk.length ≤ want then
        (readExact (want - chunk.length) chunks).map (fun read => (chunk ++ read.1, read.2))
      else some (chunk.take want, chunk.drop want :: chunks)

/-- Reads a length-prefixed message: the message, the bytes it was read from and
the rest of the stream. -/
def readMessage (codec : Codec Message) (maxSize : Nat) (stream : List Bytes) :
    Option (Message × Bytes × List Bytes) := do
  let (prefixed, stream) ← readExact 4 stream
  if maxSize < fromLe prefixed then none
  else
    let (bytes, stream) ← readExact (fromLe prefixed) stream
    let (message, rest) ← codec.decode bytes
    if rest = [] then some (message, prefixed ++ bytes, stream) else none

/-- A read takes what it wants off the front, however the stream is cut up. The induction is on
the chunks: one is used up whole or cut where the read ends. -/
theorem readExact_enough (want : Nat) (stream : List Bytes)
    (enough : want ≤ stream.flatten.length) :
    ∃ rest, readExact want stream = some (stream.flatten.take want, rest) ∧
      rest.flatten = stream.flatten.drop want := by
  induction stream generalizing want with
  | nil =>
    obtain rfl : want = 0 := by simpa using enough
    exact ⟨[], rfl, rfl⟩
  | cons chunk chunks inductionHypothesis =>
    rw [List.flatten_cons, List.length_append] at enough
    by_cases whole : chunk.length ≤ want
    · obtain ⟨rest, read, left⟩ := inductionHypothesis (want - chunk.length) (by omega)
      refine ⟨rest, ?_, ?_⟩
      · rw [readExact, if_pos whole, read, Option.map_some, List.flatten_cons, List.take_append,
          List.take_of_length_le whole]
      · rw [left, List.flatten_cons, List.drop_append, List.drop_of_length_le whole,
          List.nil_append]
    · have under : want ≤ chunk.length := by omega
      have none_over : want - chunk.length = 0 := by omega
      refine ⟨chunk.drop want :: chunks, ?_, ?_⟩
      · rw [readExact, if_neg whole, List.flatten_cons, List.take_append, none_over,
          List.take_zero, List.append_nil]
      · rw [List.flatten_cons, List.flatten_cons, List.drop_append, none_over, List.drop_zero]

/-- A read that wants more than there is fails. -/
theorem readExact_short (want : Nat) (stream : List Bytes)
    (short : stream.flatten.length < want) : readExact want stream = none := by
  induction stream generalizing want with
  | nil =>
    have wanted : want ≠ 0 := by
      intro nothing
      rw [nothing] at short
      exact Nat.not_lt_zero _ short
    rw [readExact, if_neg wanted]
  | cons chunk chunks inductionHypothesis =>
    rw [List.flatten_cons, List.length_append] at short
    rw [readExact, if_pos (by omega), inductionHypothesis (want - chunk.length) (by omega),
      Option.map_none]

section Lawful
variable (codec : Codec Message) (maxSize : Nat) (lawful : codec.Lawful maxSize)
  (bounded : maxSize < 4294967296) (message : Message)
include lawful bounded

/-- A lawful message is always written. -/
theorem writeMessage_eq : writeMessage codec message maxSize = some (frame codec message) := by
  have fits := lawful.fits message
  exact if_pos ⟨by omega, fits⟩

/-- A message is read back off any stream it is at the front of, and what follows
it stays. -/
theorem readMessage_write (stream : List Bytes) (tail : Bytes)
    (front : stream.flatten = frame codec message ++ tail) :
    ∃ rest, readMessage codec maxSize stream = some (message, frame codec message, rest) ∧
      rest.flatten = tail := by
  unfold frame at front ⊢
  have fits := lawful.fits message
  have four : (le32 (codec.encode message).length).length = 4 := rfl
  have size : fromLe (le32 (codec.encode message).length) = (codec.encode message).length :=
    fromLe_le32 _ (by omega)
  rw [List.append_assoc] at front
  obtain ⟨afterSize, sizeRead, sizeLeft⟩ := readExact_enough 4 stream (by
    rw [front, List.length_append]
    omega)
  rw [front, ← four, List.take_left] at sizeRead
  rw [front, ← four, List.drop_left] at sizeLeft
  obtain ⟨rest, bytesRead, bytesLeft⟩ :=
    readExact_enough (codec.encode message).length afterSize (by
      rw [sizeLeft, List.length_append]
      omega)
  rw [sizeLeft, List.take_left] at bytesRead
  rw [sizeLeft, List.drop_left] at bytesLeft
  refine ⟨rest, ?_, bytesLeft⟩
  have allowed : ¬ maxSize < (codec.encode message).length := by omega
  rw [four] at sizeRead
  simp [readMessage, sizeRead, size, allowed, bytesRead, lawful.roundTrip message]

/-- A stream cut inside a message does not yield it. Either the four bytes of the length are not
all there, or the message they announce is not. -/
theorem readMessage_cut (stream : List Bytes) (missing : Bytes) (lost : missing ≠ [])
    (front : frame codec message = stream.flatten ++ missing) :
    readMessage codec maxSize stream = none := by
  unfold frame at front
  have fits := lawful.fits message
  have four : (le32 (codec.encode message).length).length = 4 := rfl
  have size : fromLe (le32 (codec.encode message).length) = (codec.encode message).length :=
    fromLe_le32 _ (by omega)
  have positive : 0 < missing.length := List.length_pos_iff.mpr lost
  have lengths := congrArg List.length front
  rw [List.length_append, List.length_append, four] at lengths
  by_cases short : stream.flatten.length < 4
  · simp [readMessage, readExact_short 4 stream short]
  · obtain ⟨afterSize, sizeRead, sizeLeft⟩ := readExact_enough 4 stream (by omega)
    have spelled : stream.flatten.take 4 = le32 (codec.encode message).length := by
      have cut := congrArg (List.take 4) front
      rw [List.take_append_of_le_length (by omega : 4 ≤ stream.flatten.length),
        List.take_append_of_le_length (by omega), ← four, List.take_length] at cut
      exact cut.symm
    rw [spelled] at sizeRead
    have tooFew : afterSize.flatten.length < (codec.encode message).length := by
      rw [sizeLeft, List.length_drop]
      omega
    simp [readMessage, sizeRead, size, readExact_short _ afterSize tooFew]

end Lawful

end Yank.Wire
