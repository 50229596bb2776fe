import Yank.Drift
import Yank.Messages

/-!
# The clipboard under its lock

A change of the clipboard holds the lock from the mutation until the last of its
effects is performed and the head is published. While it does, nobody reads the clip;
the compositor, the file service and the peers that wait for the head do see what has
been issued so far. A step of the model is one thing done under the lock, so that all
of it can be looked at in the middle of a change.

Every operation that changes the clip saves first. What is issued after that, read
once the lock is free, or announced, is about a clip that is in the file.
-/

namespace Yank

variable {Id Hash : Type} [LinearOrder Id] [ContentHash Hash] [DecidableEq Hash]

/-- What is run on the clipboard of a running service. -/
inductive Mutation (Id Hash : Type) where
  | copy (clock : Clock) (selection : Selection) (files : List (Files.FileRef Hash))
      (secret : Bool) (ttl : Option Duration)
  | record (clock : Clock) (base recorded : WithBot (Stamp Id)) (captured : Captured)
      (files : List (Files.FileRef Hash))
  | accept (clock : Clock) (clip : Clip Id Hash)
  | clear (clock : Clock)
  | expire (now : SystemTime)
  | materialized (stamp : Stamp Id) (tree : Path)

/-- The mutation itself. -/
def Mutation.on (board : Clipboard Id Hash) : Mutation Id Hash → Outcome Id Hash
  | .copy clock selection files secret ttl => board.copy clock selection files secret ttl
  | .record clock base recorded captured files =>
      (board.record clock base recorded captured files).1
  | .accept clock clip => board.accept clock clip
  | .clear clock => board.clear clock
  | .expire now => board.expire now
  | .materialized stamp tree => board.materialized stamp tree

/-- What the file holds, once read: nothing when it is missing, unreadable or has bytes
left over. -/
def load (codec : Wire.Codec (Option (Clip Id Hash))) (file : Option Bytes) :
    Option (Clip Id Hash) :=
  match file with
  | none => none
  | some bytes =>
      match codec.decode bytes with
      | some (saved, []) => saved
      | some (_, _ :: _) => none
      | none => none

/-- The clip encoded once for every pull in flight, and the clip it was encoded from. -/
structure Encoded (Id Hash : Type) where
  source : Clip Id Hash
  bytes : Bytes
deriving DecidableEq

/-- The service with its lock. -/
structure Locked (Id Hash : Type) where
  board : Clipboard Id Hash
  file : Option Bytes
  head : WithBot (Stamp Id)
  jobs : List (Job Id)
  backend : Option (List Command)
  /-- What the holder of the lock has yet to perform; `none` while it is free. -/
  pending : Option (List (Effect Id))
  /-- What the pulls in flight read and have yet to encode. -/
  pulls : List (Option (Clip Id Hash))
  /-- Gone with the last pull that holds it. -/
  encoded : Option (Encoded Id Hash)

namespace Locked

/-- One thing done under the lock, or by whoever is on the other side of what the
service writes to. -/
inductive Label (Id Hash : Type) where
  | mutate (mutation : Mutation Id Hash)
  | perform
  | publish
  | read
  | answer (which : Nat)
  | forget
  | takeJob
  | takeCommand
  | connect (connected : Bool)

variable (codec : Wire.Codec (Option (Clip Id Hash)))

/-- The service as `open` starts it, about to save what it resumed with. -/
def opening (clock : Clock) (identity : Id) (settings : Settings) (file : Option Bytes) :
    Locked Id Hash :=
  let board := Clipboard.new clock identity settings (load codec file)
  { board, file, head := board.head, jobs := [], backend := none, pending := some [.save],
    pulls := [], encoded := none }

/-- Performs one effect. -/
def issue (state : Locked Id Hash) : Effect Id → Locked Id Hash
  | .save => { state with
      file := some (codec.encode state.board.saved), jobs := state.jobs ++ [.sweep] }
  | .backend command => { state with
      backend := state.backend.map (fun queued => queued ++ [command]) }
  | .fetch stamp => { state with jobs := state.jobs ++ [.fetch stamp] }

/-- `ClipService::encoded`, once it let go of the lock: what a peer that read the clip
is answered. -/
def answer [DecidableEq Id] (which : Nat) (state : Locked Id Hash) :
    Option (Bytes × Locked Id Hash) :=
  match state.pulls[which]? with
  | none => none
  | some clip =>
      let bytes := codec.encode clip
      let fresh := { state with
        pulls := state.pulls.eraseIdx which
        encoded := clip.map (fun source => ⟨source, bytes⟩) }
      match state.encoded with
      | some encoded =>
          if clip = some encoded.source then
            some (encoded.bytes, { state with pulls := state.pulls.eraseIdx which })
          else some (bytes, fresh)
      | none => some (bytes, fresh)

/-- One step; `none` when the lock is not in a state for it. -/
def step (state : Locked Id Hash) (label : Label Id Hash) : Option (Locked Id Hash) :=
  match label with
  | .mutate mutation =>
      match state.pending with
      | some _ => none
      | none =>
          let outcome := mutation.on state.board
          match effectsOf outcome with
          | [] => some { state with board := outcome.1 }
          | effects => some { state with board := outcome.1, pending := some effects }
  | .perform =>
      match state.pending with
      | some (effect :: effects) => some { state.issue codec effect with pending := some effects }
      | _ => none
  | .publish =>
      match state.pending with
      | some [] => some { state with head := state.board.head, pending := none }
      | _ => none
  | .read =>
      match state.pending with
      | some _ => none
      | none => some { state with pulls := state.pulls ++ [state.board.clip] }
  | .answer which => (state.answer codec which).map Prod.snd
  | .forget => some { state with encoded := none }
  | .takeJob => some { state with jobs := state.jobs.tail }
  | .takeCommand => some { state with backend := state.backend.map List.tail }
  | .connect connected => some { state with backend := if connected then some [] else none }

/-- The file decodes to what the board saves. -/
def Saved (state : Locked Id Hash) : Prop := load codec state.file = state.board.saved

/-- What holds in the middle of a change too: the file is behind only while a save comes
next. -/
structure Kept (state : Locked Id Hash) : Prop where
  free : state.pending = none → Saved codec state ∧ state.head = state.board.head
  busy : ∀ effects, state.pending = some effects →
    Saved codec state ∨ ∃ rest, effects = .save :: rest
  cached : ∀ encoded, state.encoded = some encoded →
    encoded.bytes = codec.encode (some encoded.source)

end Locked

/-- A mutation leaves the clip, or saves before anything else. A mutation is an event of the
clipboard, or a record that drops its report or is the event of it. -/
theorem Mutation.saves_first (board : Clipboard Id Hash) (mutation : Mutation Id Hash) :
    (mutation.on board).1.clip = board.clip ∨
      ∃ rest, effectsOf (mutation.on board) = .save :: rest := by
  have performed (event : Clipboard.Event Id Hash)
      (running : ∀ clock settings, event ≠ .restart clock settings) :
      (board.step event).1.clip = board.clip ∨
        ∃ rest, effectsOf (board.step event) = .save :: rest := by
    obtain kept | saves | ⟨clock, settings, restarts⟩ := board.saves_first event
    · exact .inl kept
    · exact .inr saves
    · exact absurd restarts (running clock settings)
  cases mutation with
  | copy clock selection files secret ttl =>
    exact performed (.copy clock selection files secret ttl) nofun
  | record clock base recorded captured files =>
    rw [Mutation.on, Clipboard.record]
    split
    · exact .inl rfl
    · exact performed (.captured clock captured files) nofun
  | accept clock clip => exact performed (.accept clock clip) nofun
  | clear clock => exact performed (.clear clock) nofun
  | expire now => exact performed (.expire now) nofun
  | materialized stamp tree => exact performed (.materialized stamp tree) nofun

namespace Locked

section Codec

variable (codec : Wire.Codec (Option (Clip Id Hash)))
  (roundTrip : ∀ clip, codec.decode (codec.encode clip) = some (clip, []))
include roundTrip

omit [LinearOrder Id] [ContentHash Hash] [DecidableEq Hash] in
/-- What is written is what is read back. -/
theorem load_encode (clip : Option (Clip Id Hash)) : load codec (some (codec.encode clip)) = clip := by
  simp only [load, roundTrip]

omit roundTrip [DecidableEq Hash] in
/-- What a machine starts with is on disk. -/
theorem opening_kept (clock : Clock) (identity : Id) (settings : Settings) (file : Option Bytes) :
    Kept codec (opening codec clock identity settings file) where
  free impossible := by cases impossible
  busy effects asked := by
    obtain rfl := Option.some.inj asked
    exact .inr ⟨[], rfl⟩
  cached encoded impossible := by cases impossible

omit [LinearOrder Id] [ContentHash Hash] [DecidableEq Hash] in
/-- After one more effect nothing is behind. -/
theorem issue_saved (state : Locked Id Hash) (effect : Effect Id)
    (ready : Saved codec state ∨ effect = .save) : Saved codec (state.issue codec effect) := by
  cases effect with
  | save => exact load_encode codec roundTrip state.board.saved
  | backend command =>
    obtain saved | impossible := ready
    · exact saved
    · cases impossible
  | fetch stamp =>
    obtain saved | impossible := ready
    · exact saved
    · cases impossible

omit roundTrip [LinearOrder Id] [ContentHash Hash] in
/-- A peer is answered the clip it read, freshly encoded or as it was encoded before. The encoding
that is kept is used where its source is the clip that was read, and replaced otherwise. -/
theorem answer_cases [DecidableEq Id] (which : Nat) (state after : Locked Id Hash) (bytes : Bytes)
    (answered : state.answer codec which = some (bytes, after)) :
    ∃ clip, state.pulls[which]? = some clip ∧
      ((after = { state with pulls := state.pulls.eraseIdx which } ∧
          ∃ encoded, state.encoded = some encoded ∧ clip = some encoded.source ∧
            bytes = encoded.bytes) ∨
        (bytes = codec.encode clip ∧
          after = { state with
            pulls := state.pulls.eraseIdx which
            encoded := clip.map (fun source => ⟨source, codec.encode clip⟩) })) := by
  cases begun : state.pulls[which]? with
  | none => simp [answer, begun] at answered
  | some clip =>
    refine ⟨clip, rfl, ?_⟩
    cases cached : state.encoded with
    | none =>
      simp only [answer, begun, cached, Option.some.injEq, Prod.mk.injEq] at answered
      exact .inr ⟨answered.1.symm, answered.2.symm⟩
    | some encoded =>
      by_cases current : clip = some encoded.source
      · simp only [answer, begun, cached, if_pos current, Option.some.injEq,
          Prod.mk.injEq] at answered
        exact .inl ⟨answered.2.symm, encoded, rfl, current, answered.1.symm⟩
      · simp only [answer, begun, cached, if_neg current, Option.some.injEq,
          Prod.mk.injEq] at answered
        exact .inr ⟨answered.1.symm, answered.2.symm⟩

omit roundTrip in
/-- A mutation either changes no clip, or leaves a save to be performed first. -/
theorem mutate_kept (state : Locked Id Hash) (mutation : Mutation Id Hash)
    (kept : Kept codec state) (free : state.pending = none) (effects : List (Effect Id))
    (asked : effectsOf (mutation.on state.board) = effects) :
    (Saved codec { state with board := (mutation.on state.board).1 } ∧
      state.head = (mutation.on state.board).1.head) ∨ ∃ rest, effects = .save :: rest := by
  obtain ⟨saved, published⟩ := kept.free free
  obtain same | saves := mutation.saves_first state.board
  · left
    constructor
    · have wrote : (mutation.on state.board).1.saved = state.board.saved := by
        rw [Clipboard.saved, Clipboard.saved, same]
      exact saved.trans wrote.symm
    · exact published.trans (Clipboard.head_congr _ _ same).symm
  · right
    rwa [← asked]

/-- Every step keeps what holds in the middle of a change. Between two effects the file holds the
state the change began from or the one it made, and a read sees the state that is held: the first
effect of a change that saves is the save, so nothing is announced before it. -/
theorem step_kept (state next : Locked Id Hash) (label : Label Id Hash) (kept : Kept codec state)
    (taken : state.step codec label = some next) : Kept codec next := by
  cases label with
  | mutate mutation =>
    cases free : state.pending with
    | some effects => simp [step, free] at taken
    | none =>
      cases asked : effectsOf (mutation.on state.board) with
      | nil =>
        simp only [step, free, asked, Option.some.injEq] at taken
        subst taken
        obtain same | ⟨rest, impossible⟩ := mutate_kept codec state mutation kept free _ asked
        · exact ⟨fun _ => same, fun effects busy => by simp at busy, kept.cached⟩
        · cases impossible
      | cons effect effects =>
        simp only [step, free, asked, Option.some.injEq] at taken
        subst taken
        refine ⟨fun impossible => (by cases impossible), ?_, kept.cached⟩
        intro pending busy
        obtain rfl := Option.some.inj busy
        exact (mutate_kept codec state mutation kept free _ asked).imp_left And.left
  | perform =>
    cases busy : state.pending with
    | none => simp [step, busy] at taken
    | some effects =>
      cases effects with
      | nil => simp [step, busy] at taken
      | cons effect effects =>
        simp only [step, busy, Option.some.injEq] at taken
        subst taken
        have ready : Saved codec state ∨ effect = .save := by
          obtain saved | ⟨rest, same⟩ := kept.busy _ busy
          · exact .inl saved
          · exact .inr (List.cons.inj same).1
        have saved := issue_saved codec roundTrip state effect ready
        refine ⟨fun impossible => (by cases impossible), fun _ _ => .inl saved, ?_⟩
        cases effect <;> exact kept.cached
  | publish =>
    cases busy : state.pending with
    | none => simp [step, busy] at taken
    | some effects =>
      cases effects with
      | cons effect effects => simp [step, busy] at taken
      | nil =>
        simp only [step, busy, Option.some.injEq] at taken
        subst taken
        have saved : Saved codec state := by
          obtain saved | ⟨rest, impossible⟩ := kept.busy [] busy
          · exact saved
          · cases impossible
        exact ⟨fun _ => ⟨saved, rfl⟩, fun _ impossible => (by cases impossible), kept.cached⟩
  | read =>
    cases free : state.pending with
    | some effects => simp [step, free] at taken
    | none =>
      simp only [step, free, Option.some.injEq] at taken
      subst taken
      exact ⟨fun _ => kept.free free, fun _ impossible => (by cases impossible), kept.cached⟩
  | answer which =>
    obtain ⟨⟨bytes, after⟩, answered, rfl⟩ := Option.map_eq_some_iff.mp taken
    obtain ⟨clip, _, ⟨rfl, _⟩ | ⟨_, rfl⟩⟩ := answer_cases codec which state after bytes answered
    · exact ⟨kept.free, kept.busy, kept.cached⟩
    · refine ⟨kept.free, kept.busy, ?_⟩
      intro fresh made
      obtain ⟨source, rfl, rfl⟩ := Option.map_eq_some_iff.mp made
      rfl
  | forget =>
    obtain rfl := Option.some.inj taken
    exact ⟨kept.free, kept.busy, fun _ impossible => (by cases impossible)⟩
  | takeJob =>
    obtain rfl := Option.some.inj taken
    exact ⟨kept.free, kept.busy, kept.cached⟩
  | takeCommand =>
    obtain rfl := Option.some.inj taken
    exact ⟨kept.free, kept.busy, kept.cached⟩
  | connect connected =>
    obtain rfl := Option.some.inj taken
    exact ⟨kept.free, kept.busy, kept.cached⟩

/-- The service without its lock, its file read. -/
def service (state : Locked Id Hash) : Service Id Hash where
  board := state.board
  disk := load codec state.file
  head := state.head
  jobs := state.jobs
  backend := state.backend

/-- The steps of one whole change. -/
def changing (board : Clipboard Id Hash) (mutation : Mutation Id Hash) : List (Label Id Hash) :=
  .mutate mutation ::
    match effectsOf (mutation.on board) with
    | [] => []
    | effects => effects.map (fun _ => .perform) ++ [.publish]

omit [LinearOrder Id] [ContentHash Hash] [DecidableEq Hash] in
/-- An effect that is issued is performed by the service, saves included. -/
theorem issue_service (state : Locked Id Hash) (effect : Effect Id) :
    (state.issue codec effect).service codec = (state.service codec).perform true effect := by
  cases effect with
  | save =>
    simp only [service, issue, load_encode codec roundTrip]
    rfl
  | backend command => rfl
  | fetch stamp => rfl

/-- Performing what is pending, one effect after the other. -/
theorem run_perform (effects : List (Effect Id)) (state : Locked Id Hash)
    (busy : state.pending = some effects) :
    ∃ last, Runs.run (step codec) state (effects.map (fun _ => .perform)) = some last ∧
      last.pending = some [] ∧
      last.service codec = effects.foldl (Service.perform true) (state.service codec) := by
  induction effects generalizing state with
  | nil => exact ⟨state, rfl, busy, rfl⟩
  | cons effect effects inductionHypothesis =>
    let next := { state.issue codec effect with pending := some effects }
    have taken : state.step codec .perform = some next := by simp only [step, busy, next]
    obtain ⟨last, reached, done, left⟩ := inductionHypothesis next rfl
    refine ⟨last, ?_, done, ?_⟩
    · exact (Runs.run_cons_iff _ _ _ _ _).mpr ⟨next, taken, reached⟩
    · rw [left, List.foldl_cons, ← issue_service codec roundTrip]
      rfl

/-- A change step by step is the change as a whole. The labels that spell a change out are the
mutation, its effects in order and the publication, and what they come to is what `try_change`
computes at once. -/
theorem run_changing (state : Locked Id Hash) (mutation : Mutation Id Hash)
    (free : state.pending = none) :
    ∃ last, Runs.run (step codec) state (changing state.board mutation) = some last ∧
      last.pending = none ∧
      last.service codec =
        ((state.service codec).tryChange true (mutation.on state.board)).1 := by
  unfold changing
  generalize outcome_eq : mutation.on state.board = outcome
  obtain ⟨board, answer⟩ := outcome
  have quiet (silent : effectsOf (board, answer) = []) :
      state.step codec (.mutate mutation) = some { state with board } := by
    simp only [step, free, outcome_eq, silent]
  cases answer with
  | error failure => exact ⟨{ state with board }, by simp [Runs.run, quiet rfl, effectsOf], free, rfl⟩
  | ok effects =>
    cases effects with
    | nil => exact ⟨{ state with board }, by simp [Runs.run, quiet rfl, effectsOf], free, rfl⟩
    | cons effect effects =>
      let begun := { state with board, pending := some (effect :: effects) }
      have taken : state.step codec (.mutate mutation) = some begun := by
        simp only [step, free, outcome_eq, effectsOf, begun]
      obtain ⟨middle, performed, done, left⟩ := run_perform codec roundTrip (effect :: effects) begun rfl
      let last := { middle with head := middle.board.head, pending := none }
      have published : middle.step codec .publish = some last := by simp only [step, done, last]
      refine ⟨last, ?_, rfl, ?_⟩
      · refine (Runs.run_cons_iff _ _ _ _ _).mpr ⟨begun, taken, ?_⟩
        refine (Runs.run_append_iff _ _ _ _ _).mpr ⟨middle, performed, ?_⟩
        exact (Runs.run_cons_iff _ _ _ _ _).mpr ⟨last, published, rfl⟩
      · have whole := Service.performAll_board true (effect :: effects) (begun.service codec)
        rw [← left] at whole
        have same : middle.board = board := whole
        rw [Service.tryChange]
        change { middle.service codec with head := middle.board.head } = _
        rw [left, same]
        rfl

/-- What is announced is what is held and saved. Take any interleaving of mutations, of
their effects, of peers pulling the clip and of the other sides taking what was issued,
from any start. Whenever the lock is free the announced head is the board's and the
file decodes to what the board saves. When a command or a fetch is about to be issued
the file does so already, and so it does when a peer reads the clip; what the peer is
answered is the clip it read. -/
theorem announced_is_held_and_saved (clock : Clock) (identity : Id) (settings : Settings)
    (file : Option Bytes) (labels : List (Label Id Hash)) (state : Locked Id Hash)
    (reached : Runs.run (step codec) (opening codec clock identity settings file) labels =
      some state) :
    (state.pending = none →
      state.head = state.board.head ∧ load codec state.file = state.board.saved) ∧
    (∀ effect rest, state.pending = some (effect :: rest) → effect ≠ .save →
      load codec state.file = state.board.saved) ∧
    (∀ next, state.step codec .read = some next →
      next.pulls = state.pulls ++ [state.board.clip] ∧ state.head = state.board.head ∧
        load codec state.file = state.board.saved) ∧
    ∀ which bytes after, state.answer codec which = some (bytes, after) →
      ∃ clip, state.pulls[which]? = some clip ∧ bytes = codec.encode clip := by
  have kept : Kept codec state := by
    refine Runs.run_invariant (step codec) (Kept codec) ?_ _ _ labels
      (opening_kept codec clock identity settings file) reached
    intro before label after held taken
    exact step_kept codec roundTrip before after label held taken
  refine ⟨?_, ?_, ?_, ?_⟩
  · intro free
    exact (kept.free free).symm
  · intro effect rest busy other
    obtain saved | ⟨later, same⟩ := kept.busy _ busy
    · exact saved
    · exact absurd (List.cons.inj same).1 other
  · intro next taken
    cases free : state.pending with
    | some effects => simp [step, free] at taken
    | none =>
      simp only [step, free, Option.some.injEq] at taken
      subst taken
      exact ⟨rfl, (kept.free free).symm⟩
  · intro which bytes after answered
    obtain ⟨clip, begun, ⟨_, encoded, cached, rfl, rfl⟩ | ⟨fresh, _⟩⟩ :=
      answer_cases codec which state after bytes answered
    · exact ⟨_, begun, kept.cached encoded cached⟩
    · exact ⟨clip, begun, fresh⟩

end Codec

/-- How a clip of a numbered machine is written, its hashes being what they are of. -/
def numbered : Wire.Codec (Option (Clip Nat Bytes)) where
  encode := (clipFormat .number .bytes).option.encode
  decode := (clipFormat .number .bytes).option.decode

/-- A text is copied. Between the save and the offer to the compositor the text is in
the file. -/
theorem copied_text_is_saved_first :
    ∃ state : Locked Nat Bytes,
      Runs.run (step numbered) (opening numbered (Aging.readAt 0) 0 Settings.default none)
        [.perform, .publish, .mutate (.copy (Aging.readAt 0) Clipboard.hello [] false none),
          .perform] = some state ∧
      state.pending = some [.backend (.offer (serves Clipboard.hello))] ∧
      load numbered state.file = state.board.saved := by
  have observed : (Runs.run (step numbered)
      (opening numbered (Aging.readAt 0) 0 Settings.default none)
      [.perform, .publish, .mutate (.copy (Aging.readAt 0) Clipboard.hello [] false none),
        .perform]).map (fun state => decide (state.pending =
          some [.backend (.offer (serves Clipboard.hello))])) = some true := by
    decide
  obtain ⟨state, reached, holds⟩ := Option.map_eq_some_iff.mp observed
  have busy := of_decide_eq_true holds
  refine ⟨state, reached, busy, ?_⟩
  exact (announced_is_held_and_saved numbered (clipFormat .number .bytes).option.reads_alone
    (Aging.readAt 0) 0 Settings.default none _ state reached).2.1 _ [] busy (by decide)

end Locked

end Yank
