import Yank.Convergence
import Yank.Lifetimes

/-!
# How far ahead of the clock a copy made here may be

A peer's clip is believed up to five minutes ahead of the wall clock. A copy made
on top of it is stamped one millisecond past it, which other machines need not
believe any more; and a clock stepped back leaves the clip of this machine itself
ahead by as much.

A copy made here is believed by every machine whose clock agrees exactly while
the clip it replaces is less than five minutes ahead.
-/

namespace Yank

variable {Id Hash : Type}

/-- The drift that is believed, in milliseconds. -/
def maxDriftMillis : Nat := 300000

/-- The drift that is believed, in milliseconds. -/
theorem millisOf_maxDrift : (millisOf maxDrift).toNat = maxDriftMillis := by decide

/-- Milliseconds are whole, and no more than there are. -/
theorem millisOf_toNat (duration : Duration) :
    (millisOf duration).toNat = min (duration / 1000000) (2 ^ 64 - 1) := by
  have bounded : min (duration / 1000000) (2 ^ 64 - 1) < 2 ^ 64 :=
    lt_of_le_of_lt (Nat.min_le_right _ _) (by decide)
  exact UInt64.toNat_ofNat_of_lt bounded

/-- A later clock reads no fewer milliseconds. -/
theorem wallMillis_mono (early late : SystemTime) (ordered : early ≤ late) :
    (wallMillis early).toNat ≤ (wallMillis late).toNat := by
  have nonnegative : early.toNat ≤ late.toNat := Int.toNat_le_toNat ordered
  have divided : early.toNat / 1000000 ≤ late.toNat / 1000000 := Nat.div_le_div_right nonnegative
  rw [wallMillis, wallMillis, millisOf_toNat, millisOf_toNat]
  omega

namespace Stamp

/-- A stamp is believed up to the drift past the wall clock. -/
theorem isPlausible_iff (stamp : Stamp Id) (now : SystemTime) :
    stamp.isPlausible now = true ↔ stamp.millis.toNat ≤ (wallMillis now).toNat + maxDriftMillis := by
  have bounded : stamp.millis.toNat < 2 ^ 64 := stamp.millis.toNat_lt
  rw [isPlausible, decide_eq_true_eq, millisOf_maxDrift]
  omega

/-- The clip a copy replaces is less than five minutes ahead of the clock. -/
def Near (last : WithBot (Stamp Id)) (now : SystemTime) : Prop :=
  ∀ stamp : Stamp Id, last = stamp → stamp.millis.toNat < (wallMillis now).toNat + maxDriftMillis

/-- A stamp made here is wall time, or one past the last. Without a last stamp it is wall time
alone; with one it is the later of wall time and the successor. -/
theorem next_millis (now : SystemTime) (last : WithBot (Stamp Id)) (origin : Id)
    (stamp : Stamp Id) (made : next now last origin = some stamp) :
    (last = ⊥ ∧ stamp.millis.toNat = (wallMillis now).toNat) ∨
      ∃ before : Stamp Id, last = before ∧
        stamp.millis.toNat = max (wallMillis now).toNat (before.millis.toNat + 1) := by
  simp only [next, Option.map_eq_some_iff] at made
  obtain ⟨after, successor, rfl⟩ := made
  induction last with
  | bot =>
    left
    obtain rfl : (0 : UInt64) = after := Option.some.inj successor
    constructor
    · rfl
    · rw [toNat_max]
      exact Nat.max_zero _
  | coe before =>
    right
    obtain ⟨fits, rfl⟩ : before.millis.toNat + 1 < 2 ^ 64 ∧ before.millis + 1 = after := by
      simpa [Stamp.after] using successor
    have count : (before.millis + 1).toNat = before.millis.toNat + 1 := by
      rw [UInt64.toNat_add]
      exact Nat.mod_eq_of_lt fits
    refine ⟨before, rfl, ?_⟩
    rw [toNat_max, count]

/-- A stamp made here is believed by every clock that reads no less, exactly when
the last one is near. -/
theorem next_isPlausible_iff (now : SystemTime) (last : WithBot (Stamp Id)) (origin : Id)
    (stamp : Stamp Id) (made : next now last origin = some stamp) :
    (∀ later, now ≤ later → stamp.isPlausible later = true) ↔ Near last now := by
  obtain ⟨unset, millis⟩ | ⟨before, set, millis⟩ := next_millis now last origin stamp made
  · constructor
    · intro _ other same
      rw [unset] at same
      cases same
    · intro _ later ordered
      have grown := wallMillis_mono now later ordered
      rw [isPlausible_iff]
      omega
  · constructor
    · intro believed other same
      obtain rfl := WithBot.coe_injective (set.symm.trans same)
      have here := (isPlausible_iff stamp now).mp (believed now le_rfl)
      omega
    · intro near later ordered
      have grown := wallMillis_mono now later ordered
      have close := near before set
      rw [isPlausible_iff, millis]
      have drift : maxDriftMillis = 300000 := rfl
      omega

/-- Where the last stamp is not near, the one made here is one millisecond past it, and no
clock that reads as much or less believes it. -/
theorem next_of_far (now : SystemTime) (last : WithBot (Stamp Id)) (origin : Id)
    (stamp : Stamp Id) (made : next now last origin = some stamp) (far : ¬ Near last now) :
    ∃ before : Stamp Id, last = before ∧ stamp.millis.toNat = before.millis.toNat + 1 ∧
      ∀ earlier, earlier ≤ now → stamp.isPlausible earlier = false := by
  obtain ⟨unset, _⟩ | ⟨before, set, millis⟩ := next_millis now last origin stamp made
  · refine absurd ?_ far
    intro other same
    rw [unset] at same
    cases same
  · have ahead : (wallMillis now).toNat + maxDriftMillis ≤ before.millis.toNat := by
      by_contra close
      refine far ?_
      intro other same
      obtain rfl := WithBot.coe_injective (set.symm.trans same)
      omega
    have past : stamp.millis.toNat = before.millis.toNat + 1 := by omega
    refine ⟨before, set, past, ?_⟩
    intro earlier ordered
    have grown := wallMillis_mono earlier now ordered
    rw [Bool.eq_false_iff]
    intro believed
    have here := (isPlausible_iff stamp earlier).mp believed
    omega

end Stamp

namespace Clipboard

variable [LinearOrder Id] [ContentHash Hash] [DecidableEq Hash]

/-- The clock of an operation that makes a clip here. -/
def Event.maker : Event Id Hash → Option Clock
  | .copy clock _ _ _ _ => some clock
  | .captured clock _ _ => some clock
  | .clear clock => some clock
  | _ => none

omit [LinearOrder Id] [ContentHash Hash] [DecidableEq Hash] in
/-- What `copy` records is fit to hold. -/
theorem toCopy_check (board : Clipboard Id Hash) (selection : Selection)
    (files : List (Files.FileRef Hash)) (secret : Bool) (ttl : Option Duration)
    (copy : Copy Hash) (recorded : board.toCopy selection files secret ttl = .ok copy) :
    copy.check = .ok () := by
  simp only [toCopy, bind_ok_iff] at recorded
  obtain ⟨_, _, _, _, _, checked, made⟩ := recorded
  obtain rfl := Except.ok.inj made
  exact checked

omit [LinearOrder Id] [ContentHash Hash] [DecidableEq Hash] in
/-- A clip made here has the next stamp. -/
theorem replace_stamped (clock : Clock) (copy : Option (Copy Hash))
    (board replaced : Clipboard Id Hash) (made : board.replace clock copy = some replaced) :
    ∃ stamp, Stamp.next clock.stamp board.head board.origin = some stamp ∧
      replaced = board.set clock.set { stamp, copy } := by
  simp only [replace, Option.map_eq_some_iff] at made
  obtain ⟨stamp, stamped, rfl⟩ := made
  exact ⟨stamp, stamped, rfl⟩

/-- An operation that makes a clip here leaves the clip that was there, or one with
the next stamp that every machine may hold. -/
theorem maker_cases (board : Clipboard Id Hash) (event : Event Id Hash) (clock : Clock)
    (reads : event.maker = some clock) :
    (board.step event).1.clip = board.clip ∨
      ∃ clip, (board.step event).1.clip = some clip ∧
        Stamp.next clock.stamp board.head board.origin = some clip.stamp ∧
        ∀ copy, clip.copy = some copy → copy.check = .ok () := by
  cases event with
  | copy other selection files secret ttl =>
    obtain rfl := Option.some.inj reads
    rw [step, Clipboard.copy]
    cases recorded : board.toCopy selection files secret ttl with
    | error failure => exact .inl rfl
    | ok copy =>
      cases made : board.replace other (some copy) with
      | none => exact .inl (by simp [made])
      | some replaced =>
        obtain ⟨stamp, stamped, rfl⟩ := replace_stamped other (some copy) board replaced made
        right
        refine ⟨{ stamp, copy := some copy }, by simp [made], stamped, ?_⟩
        intro held same
        obtain rfl := Option.some.inj same
        exact toCopy_check board selection files secret ttl copy recorded
  | captured other capture files =>
    obtain rfl := Option.some.inj reads
    rw [step, captured]
    cases board.settings.capture with
    | false => exact .inl rfl
    | true =>
      cases fitted : board.fit capture.selection with
      | none => exact .inl (by simp)
      | some selection =>
        cases echo : board.isEcho selection.primary.bytes with
        | true => exact .inl (by simp [echo])
        | false =>
          cases checked : (board.capturedCopy capture selection files).check with
          | error failure => exact .inl (by simp [echo, checked])
          | ok passed =>
            cases made : board.replace other (some (board.capturedCopy capture selection files)) with
            | none => exact .inl (by simp [echo, checked, made])
            | some replaced =>
              obtain ⟨stamp, stamped, rfl⟩ := replace_stamped other _ board replaced made
              right
              refine ⟨{ stamp, copy := some (board.capturedCopy capture selection files) },
                by simp [echo, checked, made], stamped, ?_⟩
              intro held same
              obtain rfl := Option.some.inj same
              exact checked
  | clear other =>
    obtain rfl := Option.some.inj reads
    rw [step, clear]
    cases made : board.replace other none with
    | none => exact .inl (by simp)
    | some replaced =>
      obtain ⟨stamp, stamped, rfl⟩ := replace_stamped other none board replaced made
      right
      refine ⟨{ stamp, copy := none }, by simp, stamped, ?_⟩
      intro held same
      cases same
  | accept other clip => cases reads
  | expire now => cases reads
  | materialized stamp tree => cases reads
  | restart other settings => cases reads

omit [DecidableEq Hash] in
/-- A newer clip of another machine that is not believed is refused for its clock. -/
theorem accept_of_implausible (clock : Clock) (clip : Clip Id Hash) (board : Clipboard Id Hash)
    (older : board.head < clip.stamp) (apart : clip.stamp.origin ≠ board.origin)
    (doubted : clip.stamp.isPlausible clock.believed = false) :
    board.accept clock clip = (board, .error .clockTooFarAhead) := by
  have refused : board.acceptable clock clip = .error .clockTooFarAhead := by
    rw [acceptable, ensure, if_pos (decide_eq_true apart), ensure, doubted]
    rfl
  rw [accept, if_neg (not_le_of_gt older), refused]

/-- A copy made here is believed exactly where clocks agree and the clip it replaces
is near. Take any history of any machine and an operation that then makes a clip
when the clock reads `reading.stamp`. Every machine whose clock reads no less believes
its stamp if and only if the clip it replaced was less than five minutes ahead of
that reading, and then every other such machine with an older head adopts it. Otherwise
it is stamped one millisecond past the clip it replaced, and every other machine with an
older head whose clock reads no more refuses it. -/
theorem made_clip_is_believed_iff (clock : Clock) (origin : Id) (settings : Settings)
    (saved : Option (Clip Id Hash)) (events : List (Event Id Hash)) (event : Event Id Hash)
    (reading : Clock) (reads : event.maker = some reading) (clip : Clip Id Hash)
    (made : (((new clock origin settings saved).after events).step event).1.clip = some clip)
    (newer : ((new clock origin settings saved).after events).head < clip.stamp) :
    ((∀ now, reading.stamp ≤ now → clip.stamp.isPlausible now = true) ↔
      Stamp.Near ((new clock origin settings saved).after events).head reading.stamp) ∧
    (Stamp.Near ((new clock origin settings saved).after events).head reading.stamp →
      ∀ (peer : Clipboard Id Hash) (at_peer : Clock), peer.origin ≠ origin →
        reading.stamp ≤ at_peer.believed → peer.head < clip.stamp →
        (peer.accept at_peer clip).1.head = clip.stamp) ∧
    (¬ Stamp.Near ((new clock origin settings saved).after events).head reading.stamp →
      (∃ before : Stamp Id, ((new clock origin settings saved).after events).head = before ∧
        clip.stamp.millis.toNat = before.millis.toNat + 1) ∧
      ∀ (peer : Clipboard Id Hash) (at_peer : Clock), peer.origin ≠ origin →
        at_peer.believed ≤ reading.stamp → peer.head < clip.stamp →
        peer.accept at_peer clip = (peer, .error .clockTooFarAhead)) := by
  generalize reached : (new clock origin settings saved).after events = board at made newer ⊢
  have named : board.origin = origin := by
    rw [← reached]
    refine Runs.run_invariant advance (fun board => board.origin = origin) ?_ _ _ events
      (new_origin clock origin settings saved) (run_advance _ events)
    intro before event after held taken
    obtain rfl := Option.some.inj taken
    rw [step_origin, held]
  obtain same | ⟨fresh, holds, stamped, fit⟩ := maker_cases board event reading reads
  · rw [made] at same
    rw [head_of_clip board clip same.symm] at newer
    exact absurd newer (lt_irrefl _)
  · obtain rfl := Option.some.inj (made.symm.trans holds)
    have believed := Stamp.next_isPlausible_iff reading.stamp board.head board.origin clip.stamp stamped
    have ours := Stamp.next_origin reading.stamp board.head board.origin clip.stamp stamped
    refine ⟨believed, ?_, ?_⟩
    · intro near peer at_peer apart agrees older
      have welcome : peer.acceptable at_peer clip = .ok () := by
        apply acceptable_of at_peer clip peer
        · rw [ours, named]
          exact apart.symm
        · exact believed.mpr near _ agrees
        · exact fit
      rw [accept_head at_peer clip peer welcome, sup_eq_right.mpr older.le]
    · intro far
      obtain ⟨before, replaced, past, doubted⟩ :=
        Stamp.next_of_far reading.stamp board.head board.origin clip.stamp stamped far
      refine ⟨⟨before, replaced, past⟩, ?_⟩
      intro peer at_peer apart agrees older
      refine accept_of_implausible at_peer clip peer older ?_ (doubted _ agrees)
      rw [ours, named]
      exact apart.symm

/-- A text. -/
def hello : Selection := .of { mime := Mime.plainText, bytes := [104, 105] }

/-- The text copied on a machine. -/
def copyHello (now : SystemTime) : Event Nat Bytes :=
  .copy (Aging.readAt now) hello [] false none

/-- A clip copied on top of one taken a minute ahead of the clock. The stamp is one past the other
clip, which is still within what is believed. -/
theorem made_clip_is_believed_after_a_minute :
    let ahead : Clip Nat Bytes := { stamp := { millis := 60000, origin := 2 }, copy := none }
    let board := (new (Aging.readAt 0) 1 Settings.default none).after [.accept (Aging.readAt 0) ahead]
    let made : Clip Nat Bytes := {
      stamp := { millis := 60001, origin := 1 }
      copy := some { selection := hello, secret := false, ttl := none, files := [] } }
    (board.step (copyHello 0)).1.clip = some made ∧
      ∀ now, 0 ≤ now → made.stamp.isPlausible now = true := by
  intro ahead board made
  have holds : (board.step (copyHello 0)).1.clip = some made := by decide
  refine ⟨holds, ?_⟩
  refine (made_clip_is_believed_iff (Aging.readAt 0) 1 Settings.default none
    [.accept (Aging.readAt 0) ahead] (copyHello 0) (Aging.readAt 0) rfl made holds
    (by decide)).1.mpr ?_
  intro stamp held
  have head : board.head = ahead.stamp := by decide
  obtain rfl : ahead.stamp = stamp := WithBot.coe_injective (head.symm.trans held)
  decide

/-- A copy on top of a clip that is just believed is not believed itself, and
neither is a clear after the clock was stepped back an hour. -/
theorem copy_past_the_drift_is_refused :
    let ahead : Clip Nat Bytes := { stamp := { millis := 300000, origin := 2 }, copy := none }
    let onTop := ((new (Aging.readAt 0) 1 Settings.default none).after [.accept (Aging.readAt 0) ahead]).step
      (copyHello 0)
    let steppedBack := ((new (Aging.readAt 0) 1 Settings.default none).after
      [copyHello 3600000000000]).step (.clear (Aging.readAt 0))
    onTop.1.clip.any (fun clip => clip.stamp.origin = 1 && !clip.stamp.isPlausible 0) = true ∧
      steppedBack.1.clip.any (fun clip => clip.stamp.origin = 1 && !clip.stamp.isPlausible 0) =
        true := by
  decide

end Clipboard

end Yank
