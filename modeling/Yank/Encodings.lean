import Yank.Runs
import Yank.Copy

/-!
# The clip encoded once

A peer that asks for the clip gets it encoded. The encoding is kept as long as anyone sends
it, under the address of the clip it was made from, and neither the clip nor the bytes are
kept alive for that. A call reads the board under the lock of the board and looks the clip up
under the lock of the cache, and anything may come between the two.

Clips and payloads are counted references. What is stored at an address stays there while
anything refers to it, and a weak reference does too, though it only gives the value back
while there is a strong one. A new value is stored wherever nothing refers to. The codec is
any function of a clip or none.
-/

namespace Yank

variable {Address Id Hash : Type}

/-- Where one call of `encoded` is at, with the references it has. -/
inductive EncodedCall (Address : Type) where
  | called
  /-- Read the board, and is about to lock the cache. -/
  | read (clip : Option Address)
  /-- About to return, with what it returns. -/
  | returning (clip : Option Address) (bytes : Address)
  | over
deriving DecidableEq

/-- The clip a call has. -/
def EncodedCall.clip : EncodedCall Address → Option Address
  | .read clip => clip
  | .returning clip _ => clip
  | _ => none

/-- The encoding a call has. -/
def EncodedCall.bytes : EncodedCall Address → Option Address
  | .returning _ bytes => some bytes
  | _ => none

/-- The cache: weak references to an encoding and to the clip it was encoded from. -/
structure Encodings.Encoded (Address : Type) where
  source : Option Address
  bytes : Option Address

/-- The board, the cache and the calls, and who else has a clip or an encoding. -/
structure Encodings (Address Id Hash : Type) where
  clips : Address → Clip Id Hash
  payloads : Address → Bytes
  board : Option Address
  encoded : Encodings.Encoded Address
  /-- Every call so far, the first one first. -/
  calls : List (EncodedCall Address)
  clipHolders : List Address
  payloadHolders : List Address

/-- What can happen next. -/
inductive EncodingLabel (Address Id Hash : Type) where
  /-- The board gets a clip that is allocated at the address. -/
  | change (address : Address) (clip : Clip Id Hash)
  /-- Somebody else gets the clip of the board. -/
  | share
  | release (address : Address)
  | call
  | read (index : Nat)
  /-- A call looks its clip up; an encoding it makes is allocated at the address. -/
  | consult (index : Nat) (fresh : Address)
  | finish (index : Nat)
  /-- Somebody who has an encoding clones it. -/
  | clone (address : Address)
  | drop (address : Address)

namespace Encodings

/-- The clip of the board. -/
def current (state : Encodings Address Id Hash) : Option (Clip Id Hash) :=
  state.board.map state.clips

/-- Every reference to a clip. -/
def clipRefs (state : Encodings Address Id Hash) : List Address :=
  state.board.toList ++ state.encoded.source.toList ++ state.calls.filterMap (·.clip) ++
    state.clipHolders

/-- Every strong reference to an encoding. -/
def payloadStrong (state : Encodings Address Id Hash) : List Address :=
  state.calls.filterMap (·.bytes) ++ state.payloadHolders

/-- Every reference to an encoding. -/
def payloadRefs (state : Encodings Address Id Hash) : List Address :=
  state.encoded.bytes.toList ++ state.payloadStrong

/-- A daemon that loaded a clip or none, before the first call. -/
def start (board : Option Address) (clips : Address → Clip Id Hash)
    (payloads : Address → Bytes) : Encodings Address Id Hash where
  clips := clips
  payloads := payloads
  board := board
  encoded := { source := none, bytes := none }
  calls := []
  clipHolders := []
  payloadHolders := []

section Step
variable [DecidableEq Address] (encode : Option (Clip Id Hash) → Bytes)

/-- The bytes in the cache, when they are of the clip and somebody has them still. -/
def lookup (state : Encodings Address Id Hash) (clip : Option Address) : Option Address :=
  if clip.isSome && clip == state.encoded.source then
    state.encoded.bytes.filter (fun bytes => bytes ∈ state.payloadStrong)
  else none

/-- The part of `encoded` under the lock of the cache. -/
def consult (state : Encodings Address Id Hash) (index : Nat) (clip : Option Address)
    (fresh : Address) : Option (Encodings Address Id Hash) :=
  match state.lookup clip with
  | some bytes => some { state with calls := state.calls.set index (.returning clip bytes) }
  | none =>
      if fresh ∈ state.payloadRefs then none
      else some { state with
        payloads := Function.update state.payloads fresh (encode (clip.map state.clips))
        encoded := { source := clip, bytes := some fresh }
        calls := state.calls.set index (.returning clip fresh) }

/-- What happens, where it can. -/
def step (state : Encodings Address Id Hash) :
    EncodingLabel Address Id Hash → Option (Encodings Address Id Hash)
  | .change address clip =>
      if address ∈ state.clipRefs then none
      else some { state with
        clips := Function.update state.clips address clip
        board := some address }
  | .share => some { state with clipHolders := state.board.toList ++ state.clipHolders }
  | .release address =>
      if address ∈ state.clipHolders then
        some { state with clipHolders := state.clipHolders.erase address }
      else none
  | .call => some { state with calls := state.calls ++ [.called] }
  | .read index =>
      match state.calls[index]? with
      | some .called => some { state with calls := state.calls.set index (.read state.board) }
      | _ => none
  | .consult index fresh =>
      match state.calls[index]? with
      | some (.read clip) => state.consult encode index clip fresh
      | _ => none
  | .finish index =>
      match state.calls[index]? with
      | some (.returning _ bytes) =>
          some { state with
            calls := state.calls.set index .over
            payloadHolders := bytes :: state.payloadHolders }
      | _ => none
  | .clone address =>
      if address ∈ state.payloadHolders then
        some { state with payloadHolders := address :: state.payloadHolders }
      else none
  | .drop address =>
      if address ∈ state.payloadHolders then
        some { state with payloadHolders := state.payloadHolders.erase address }
      else none

/-- What a step changes, and when. -/
inductive Moves (state : Encodings Address Id Hash) : Encodings Address Id Hash → Prop where
  | change (address : Address) (clip : Clip Id Hash) (free : address ∉ state.clipRefs) :
      Moves state { state with
        clips := Function.update state.clips address clip
        board := some address }
  | clipHolders (holders : List Address) : Moves state { state with clipHolders := holders }
  | payloadHolders (holders : List Address) : Moves state { state with payloadHolders := holders }
  | call : Moves state { state with calls := state.calls ++ [.called] }
  | read (index : Nat) (called : state.calls[index]? = some .called) :
      Moves state { state with calls := state.calls.set index (.read state.board) }
  | hit (index : Nat) (clip : Option Address) (bytes : Address)
      (read : state.calls[index]? = some (.read clip)) (found : state.lookup clip = some bytes) :
      Moves state { state with calls := state.calls.set index (.returning clip bytes) }
  | encode (index : Nat) (clip : Option Address) (fresh : Address)
      (read : state.calls[index]? = some (.read clip)) (free : fresh ∉ state.payloadRefs) :
      Moves state { state with
        payloads := Function.update state.payloads fresh (encode (clip.map state.clips))
        encoded := { source := clip, bytes := some fresh }
        calls := state.calls.set index (.returning clip fresh) }
  | finish (index : Nat) (bytes : Address) :
      Moves state { state with
        calls := state.calls.set index .over
        payloadHolders := bytes :: state.payloadHolders }

/-- A step is one of the moves there are. The guard of the source's step is part of each move. -/
theorem step_moves (state next : Encodings Address Id Hash)
    (label : EncodingLabel Address Id Hash) (taken : state.step encode label = some next) :
    Moves encode state next := by
  cases label with
  | change address clip =>
    simp only [step, Option.ite_none_left_eq_some, Option.some.injEq] at taken
    exact taken.2 ▸ .change address clip taken.1
  | share => exact Option.some.inj taken ▸ .clipHolders _
  | release address =>
    simp only [step, Option.ite_none_right_eq_some, Option.some.injEq] at taken
    exact taken.2 ▸ .clipHolders _
  | call => exact Option.some.inj taken ▸ .call
  | read index =>
    simp only [step] at taken
    split at taken
    · exact Option.some.inj taken ▸ .read index ‹_›
    · cases taken
  | consult index fresh =>
    simp only [step] at taken
    split at taken
    · rename_i clip read
      unfold consult at taken
      split at taken
      · exact Option.some.inj taken ▸ .hit index clip _ read ‹_›
      · simp only [Option.ite_none_left_eq_some, Option.some.injEq] at taken
        exact taken.2 ▸ .encode index clip fresh read taken.1
    · cases taken
  | finish index =>
    simp only [step] at taken
    split at taken
    · exact Option.some.inj taken ▸ .finish index _
    · cases taken
  | clone address =>
    simp only [step, Option.ite_none_right_eq_some, Option.some.injEq] at taken
    exact taken.2 ▸ .payloadHolders _
  | drop address =>
    simp only [step, Option.ite_none_right_eq_some, Option.some.injEq] at taken
    exact taken.2 ▸ .payloadHolders _

/-- A clip stays as it is while anything refers to it. -/
theorem Moves.clips_eq (state next : Encodings Address Id Hash) (moves : Moves encode state next)
    (address : Address) (kept : address ∈ state.clipRefs) :
    next.clips address = state.clips address := by
  cases moves with
  | change fresh clip free =>
    have other : address ≠ fresh := fun same => free (same ▸ kept)
    exact Function.update_of_ne other ..
  | _ => rfl

/-- So does an encoding. -/
theorem Moves.payloads_eq (state next : Encodings Address Id Hash)
    (moves : Moves encode state next) (address : Address) (kept : address ∈ state.payloadRefs) :
    next.payloads address = state.payloads address := by
  cases moves with
  | encode index clip fresh read free =>
    have other : address ≠ fresh := fun same => free (same ▸ kept)
    exact Function.update_of_ne other ..
  | _ => rfl

/-- Bytes in the cache are the encoding of the clip they are kept under. -/
def Sound (state : Encodings Address Id Hash) : Prop :=
  ∀ clip bytes, state.encoded.source = some clip → state.encoded.bytes = some bytes →
    state.payloads bytes = encode (some (state.clips clip))

omit [DecidableEq Address] in
/-- The clip the cache was made of is referred to. -/
theorem source_mem (state : Encodings Address Id Hash) (clip : Address)
    (source : state.encoded.source = some clip) : clip ∈ state.clipRefs := by
  simp [clipRefs, source]

omit [DecidableEq Address] in
/-- So are the bytes in the cache. -/
theorem bytes_mem (state : Encodings Address Id Hash) (bytes : Address)
    (cached : state.encoded.bytes = some bytes) : bytes ∈ state.payloadRefs := by
  simp [payloadRefs, cached]

omit [DecidableEq Address] in
/-- So is the clip that a call has read. -/
theorem read_mem (state : Encodings Address Id Hash) (index : Nat) (clip : Address)
    (read : state.calls[index]? = some (.read (some clip))) : clip ∈ state.clipRefs := by
  have member : ∃ call ∈ state.calls, call.clip = some clip :=
    ⟨_, List.mem_of_getElem? read, rfl⟩
  simp [clipRefs, member]

omit [DecidableEq Address] in
/-- And so are the bytes that a call returns. -/
theorem returning_mem (state : Encodings Address Id Hash) (index : Nat) (clip : Option Address)
    (bytes : Address) (returns : state.calls[index]? = some (.returning clip bytes)) :
    bytes ∈ state.payloadRefs := by
  have member : ∃ call ∈ state.calls, call.bytes = some bytes :=
    ⟨_, List.mem_of_getElem? returns, rfl⟩
  simp [payloadRefs, payloadStrong, member]

/-- The clip of a call is what it was when the call read it. -/
theorem Moves.map_clips (state next : Encodings Address Id Hash)
    (moves : Moves encode state next) (index : Nat) (clip : Option Address)
    (read : state.calls[index]? = some (.read clip)) : clip.map next.clips = clip.map state.clips := by
  cases clip with
  | none => rfl
  | some clip => exact congrArg some (moves.clips_eq encode _ _ clip (read_mem state index clip read))

/-- The cache is only replaced by a new encoding. -/
theorem Moves.encoded_cases (state next : Encodings Address Id Hash)
    (moves : Moves encode state next) :
    next.encoded = state.encoded ∨ ∃ clip fresh, next.encoded = { source := clip, bytes := some fresh } ∧
      next.clips = state.clips ∧ next.payloads fresh = encode (clip.map state.clips) := by
  cases moves with
  | encode index clip fresh read free =>
    exact .inr ⟨clip, fresh, rfl, rfl, Function.update_self ..⟩
  | _ => exact .inl rfl

/-- A step leaves every reference to what it was a reference to. -/
theorem Sound.step (state : Encodings Address Id Hash) (label : EncodingLabel Address Id Hash)
    (next : Encodings Address Id Hash) (sound : Sound encode state)
    (taken : state.step encode label = some next) : Sound encode next := by
  have moves := step_moves encode state next label taken
  intro clip bytes source cached
  obtain same | ⟨made, fresh, replaced, clips, made_bytes⟩ := moves.encoded_cases encode state next
  · rw [same] at source cached
    rw [moves.payloads_eq encode _ _ bytes (bytes_mem state bytes cached),
      moves.clips_eq encode _ _ clip (source_mem state clip source)]
    exact sound clip bytes source cached
  · rw [replaced] at source cached
    obtain rfl : made = some clip := source
    obtain rfl : fresh = bytes := Option.some.inj cached
    rw [clips]
    exact made_bytes

omit [DecidableEq Address] in
/-- One call is at something else, and the rest as before. -/
theorem set_cases (calls : List (EncodedCall Address)) (changed index : Nat)
    (call seen : EncodedCall Address) (at_index : (calls.set changed call)[index]? = some seen) :
    changed = index ∧ call = seen ∨ calls[index]? = some seen := by
  rw [List.getElem?_set] at at_index
  split at at_index
  · split at at_index
    · exact .inl ⟨‹_›, Option.some.inj at_index⟩
    · cases at_index
  · exact .inr at_index

omit [DecidableEq Address] in
/-- The call that begins has nothing. -/
theorem begun_cases (calls : List (EncodedCall Address)) (index : Nat) (seen : EncodedCall Address)
    (at_index : (calls ++ [.called])[index]? = some seen) :
    seen = .called ∨ calls[index]? = some seen := by
  rw [List.getElem?_append] at at_index
  split at at_index
  · exact .inr at_index
  · exact .inl (List.mem_singleton.mp (List.mem_of_getElem? at_index))

/-- A call that has a clip had it before, or reads the board. No other move of this or of another
call gives it one. -/
theorem Moves.read_cases (state next : Encodings Address Id Hash) (moves : Moves encode state next)
    (index : Nat) (clip : Option Address) (read : next.calls[index]? = some (.read clip)) :
    state.calls[index]? = some (.read clip) ∨
      state.calls[index]? = some .called ∧ clip = state.board ∧ next.clips = state.clips := by
  cases moves with
  | change => exact .inl read
  | clipHolders => exact .inl read
  | payloadHolders => exact .inl read
  | call =>
    obtain begins | before := begun_cases _ _ _ read
    · cases begins
    · exact .inl before
  | read reader called =>
    obtain ⟨rfl, reads⟩ | before := set_cases _ _ _ _ _ read
    · cases reads
      exact .inr ⟨called, rfl, rfl⟩
    · exact .inl before
  | hit other found bytes has hits =>
    obtain ⟨_, returns⟩ | before := set_cases _ _ _ _ _ read
    · cases returns
    · exact .inl before
  | encode other found fresh has free =>
    obtain ⟨_, returns⟩ | before := set_cases _ _ _ _ _ read
    · cases returns
    · exact .inl before
  | finish other bytes =>
    obtain ⟨_, ends⟩ | before := set_cases _ _ _ _ _ read
    · cases ends
    · exact .inl before

/-- Only bytes kept under the clip itself are found. -/
theorem lookup_eq_some (state : Encodings Address Id Hash) (clip : Option Address)
    (bytes : Address) (found : state.lookup clip = some bytes) :
    ∃ address, clip = some address ∧ state.encoded.source = some address ∧
      state.encoded.bytes = some bytes := by
  simp only [lookup, Option.ite_none_right_eq_some, Bool.and_eq_true, beq_iff_eq,
    Option.filter_eq_some_iff] at found
  obtain ⟨⟨present, same⟩, cached, _⟩ := found
  obtain ⟨address, rfl⟩ := Option.isSome_iff_exists.mp present
  exact ⟨address, rfl, same.symm, cached⟩

/-- A call that has an encoding had it before, or gets the one of its clip. Only a call that
consults the cache gets an encoding, and what is cached is right by the invariant. -/
theorem Moves.returning_cases (state next : Encodings Address Id Hash)
    (moves : Moves encode state next) (sound : Sound encode state) (index : Nat)
    (clip : Option Address) (bytes : Address)
    (returns : next.calls[index]? = some (.returning clip bytes)) :
    state.calls[index]? = some (.returning clip bytes) ∨
      state.calls[index]? = some (.read clip) ∧
        next.payloads bytes = encode (clip.map state.clips) := by
  cases moves with
  | change => exact .inl returns
  | clipHolders => exact .inl returns
  | payloadHolders => exact .inl returns
  | call =>
    obtain begins | before := begun_cases _ _ _ returns
    · cases begins
    · exact .inl before
  | read reader called =>
    obtain ⟨_, reads⟩ | before := set_cases _ _ _ _ _ returns
    · cases reads
    · exact .inl before
  | hit other found known has hits =>
    obtain ⟨rfl, gets⟩ | before := set_cases _ _ _ _ _ returns
    · cases gets
      obtain ⟨address, rfl, source, cached⟩ := lookup_eq_some state clip bytes hits
      exact .inr ⟨has, sound address bytes source cached⟩
    · exact .inl before
  | encode other found fresh has free =>
    obtain ⟨rfl, gets⟩ | before := set_cases _ _ _ _ _ returns
    · cases gets
      exact .inr ⟨has, Function.update_self ..⟩
    · exact .inl before
  | finish other known =>
    obtain ⟨_, ends⟩ | before := set_cases _ _ _ _ _ returns
    · cases ends
    · exact .inl before

/-- At some moment of the run the call was under way and the clip was this one. -/
def WasCurrent (first : Encodings Address Id Hash) (labels : List (EncodingLabel Address Id Hash))
    (index : Nat) (clip : Option (Clip Id Hash)) : Prop :=
  ∃ early late moment, labels = early ++ late ∧
    Runs.run (step encode) first early = some moment ∧
    moment.calls[index]? = some .called ∧ moment.current = clip

/-- What was current during a call was so whatever comes after. -/
theorem WasCurrent.later (first : Encodings Address Id Hash)
    (labels : List (EncodingLabel Address Id Hash)) (label : EncodingLabel Address Id Hash)
    (index : Nat) (clip : Option (Clip Id Hash)) (was : WasCurrent encode first labels index clip) :
    WasCurrent encode first (labels ++ [label]) index clip := by
  obtain ⟨early, late, moment, rfl, reached, called, current⟩ := was
  exact ⟨early, late ++ [label], moment, List.append_assoc .., reached, called, current⟩

/-- What every call has goes back to a clip that was current while it was under way. The induction
is on the labels from the end: a call that was already reading keeps the clip it read, and one
that reads now reads the clip of this very moment. -/
theorem was_current (first : Encodings Address Id Hash) (none_yet : first.calls = [])
    (nothing : first.encoded.source = none) (labels : List (EncodingLabel Address Id Hash))
    (state : Encodings Address Id Hash)
    (reached : Runs.run (step encode) first labels = some state) :
    Sound encode state ∧
    (∀ index clip, state.calls[index]? = some (.read clip) →
      WasCurrent encode first labels index (clip.map state.clips)) ∧
    ∀ index clip bytes, state.calls[index]? = some (.returning clip bytes) →
      ∃ seen, WasCurrent encode first labels index seen ∧ state.payloads bytes = encode seen := by
  induction labels using List.reverseRecOn generalizing state with
  | nil =>
    obtain rfl : first = state := Option.some.inj reached
    refine ⟨?_, by simp [none_yet], by simp [none_yet]⟩
    intro clip bytes source
    simp [nothing] at source
  | append_singleton labels label inductionHypothesis =>
    obtain ⟨before, through, taken⟩ := (Runs.run_concat_iff ..).mp reached
    obtain ⟨sound, reads, returns⟩ := inductionHypothesis before through
    have moves := step_moves encode before state label taken
    refine ⟨sound.step encode before label state taken, ?_, ?_⟩
    · intro index clip read
      obtain had | ⟨called, rfl, clips⟩ := moves.read_cases encode before state index clip read
      · rw [moves.map_clips encode before state index clip had]
        exact (reads index clip had).later encode first labels label index _
      · exact ⟨labels, [label], before, rfl, through, called, by rw [clips]; rfl⟩
    · intro index clip bytes returned
      obtain had | ⟨read, made⟩ :=
        moves.returning_cases encode before state sound index clip bytes returned
      · obtain ⟨seen, was, same⟩ := returns index clip bytes had
        refine ⟨seen, was.later encode first labels label index _, ?_⟩
        rw [moves.payloads_eq encode before state bytes (returning_mem before index clip bytes had)]
        exact same
      · exact ⟨_, (reads index clip read).later encode first labels label index _, made⟩

/-- The encoded clip is never stale. Whatever clip the daemon starts with, wherever clips and
encodings are allocated, and in whatever order clips change, calls read the board and consult
the cache, and holders come and go: what a call returns is the encoding of a clip that was
current at a moment when the call was under way. -/
theorem encoded_is_never_stale (board : Option Address) (clips : Address → Clip Id Hash)
    (payloads : Address → Bytes) (labels : List (EncodingLabel Address Id Hash))
    (state : Encodings Address Id Hash)
    (reached : Runs.run (step encode) (start board clips payloads) labels = some state)
    (index : Nat) (clip : Option Address) (bytes : Address)
    (returns : state.calls[index]? = some (.returning clip bytes)) :
    ∃ early late moment, labels = early ++ late ∧
      Runs.run (step encode) (start board clips payloads) early = some moment ∧
      moment.calls[index]? = some .called ∧ state.payloads bytes = encode moment.current := by
  obtain ⟨_, _, all⟩ := was_current encode _ rfl rfl labels state reached
  obtain ⟨seen, ⟨early, late, moment, split, through, called, rfl⟩, same⟩ :=
    all index clip bytes returns
  exact ⟨early, late, moment, split, through, called, same⟩

end Step

/-- Two calls that overlap a change and cache their clips in the other order, and a third one
after the encoding in the cache was dropped and the clip replaced. -/
theorem encoded_is_never_stale_past_a_drop :
    let clip (millis : UInt64) : Clip Nat Bytes := { stamp := { millis, origin := 1 }, copy := none }
    let encode : Option (Clip Nat Bytes) → Bytes
      | none => [0]
      | some clip => [1, clip.stamp.millis.toUInt8]
    let first : Encodings Nat Nat Bytes := start (some 0) (fun _ => clip 10) (fun _ => [])
    let labels := [.call, .read 0, .change 1 (clip 11), .call, .read 1, .consult 1 7,
      .consult 0 8, .finish 0, .finish 1, .drop 8, .change 2 (clip 12), .call, .read 2,
      .consult 2 9]
    ∃ state, Runs.run (step encode) first labels = some state ∧
      state.calls[2]? = some (.returning (some 2) 9) ∧ state.payloads 9 = [1, 12] ∧
      ∃ early late moment, labels = early ++ late ∧
        Runs.run (step encode) first early = some moment ∧
        moment.calls[2]? = some .called ∧ state.payloads 9 = encode moment.current := by
  intro clip encode first labels
  have ends : (Runs.run (step encode) first labels).map
      (fun state => (state.calls[2]?, state.payloads 9)) =
        some (some (.returning (some 2) 9), [1, 12]) := by decide
  obtain ⟨state, reached, seen⟩ := Option.map_eq_some_iff.mp ends
  obtain ⟨returns, bytes⟩ := Prod.mk.inj seen
  exact ⟨state, reached, returns, bytes, encoded_is_never_stale encode (some 0) (fun _ => clip 10)
    (fun _ => []) labels state reached 2 (some 2) 9 returns⟩

end Encodings

end Yank
