import Yank.ClipboardHistory

/-!
# How long a copy with a lifetime is kept

Every machine drops a copy on its own once its lifetime runs out. The deadline counts from
the stamp, but never from later than the moment it is set: a peer whose clock runs ahead
must not keep a copy around longer than it promised.

A restart sets the deadline again. A stamp that was ahead of the clock when the clip was
first held is counted from the restart then, or from the stamp, and either is later than
the moment the clip was first held. The first result bounds the lifetime along every run
whose restarts do not do that; the second says that every restart that does extends it.

The wall clock does not go backwards here: an event takes its readings in order, after all
readings of the events before it.
-/

namespace Yank

variable {Id Hash : Type}

/-- A machine with its clock. -/
structure Aging (Id Hash : Type) where
  board : Clipboard Id Hash
  /-- The last reading of the wall clock. -/
  now : SystemTime
  /-- When the machine first held its clip. -/
  since : SystemTime

namespace Aging

/-- The readings an event takes, in order. -/
def readings : Clipboard.Event Id Hash → List SystemTime
  | .copy clock _ _ _ _ => [clock.stamp, clock.set]
  | .captured clock _ _ => [clock.stamp, clock.set]
  | .accept clock _ => [clock.believed, clock.set, clock.lapse]
  | .clear clock => [clock.stamp, clock.set]
  | .expire now => [now]
  | .materialized _ _ => []
  | .restart clock _ => [clock.set, clock.lapse]

/-- When a clip that an event brings is first held: as it is set. -/
def heldAt (now : SystemTime) : Clipboard.Event Id Hash → SystemTime
  | .copy clock _ _ _ _ => clock.set
  | .captured clock _ _ => clock.set
  | .accept clock _ => clock.set
  | .clear clock => clock.set
  | _ => now

/-- The span of a lifetime. -/
def span (ttl : UInt32) : SystemTime := (ttl.toNat : Int) * 1000000000

/-- When a lifetime that counts from the stamp, but not from later than the clip was first
held, runs out. -/
def dueAt (state : Aging Id Hash) (stamp : Stamp Id) (ttl : UInt32) : SystemTime :=
  min stamp.time state.since + span ttl

/-- A copy with a lifetime has a deadline, no later than promised to a machine that first
held the clip at `since`. -/
def Promised (board : Clipboard Id Hash) (since : SystemTime) : Prop :=
  ∀ stamp copy ttl, board.current = some (stamp, copy) → copy.ttl = some ttl →
    ∃ deadline, board.expires = some deadline ∧ deadline ≤ min stamp.time since + span ttl

/-- The promise is about the clip and its deadline. -/
theorem promised_congr (before after : Clipboard Id Hash) (since : SystemTime)
    (clip : after.clip = before.clip) (expires : after.expires = before.expires)
    (promised : Promised before since) : Promised after since := by
  intro stamp copy ttl returned lifetime
  rw [Clipboard.current_iff, clip, ← Clipboard.current_iff] at returned
  rw [expires]
  exact promised stamp copy ttl returned lifetime

/-- A clip gets the deadline it is promised as it is set. -/
theorem set_promised (now : SystemTime) (clip : Clip Id Hash) (board : Clipboard Id Hash) :
    Promised (board.set now clip) now := by
  intro stamp copy ttl returned lifetime
  rw [Clipboard.current_iff, Clipboard.set_clip] at returned
  obtain rfl := Option.some.inj returned
  refine ⟨min stamp.time now + span ttl, ?_, le_refl _⟩
  simp [Clipboard.set, lifetime, span]

/-- A lapse that leaves a copy leaves the board. -/
theorem lapse_of_current (now : SystemTime) (board : Clipboard Id Hash) (stamp : Stamp Id)
    (copy : Copy Hash) (returned : (board.lapse now).current = some (stamp, copy)) :
    board.lapse now = board := by
  obtain same | ⟨clip, _, _, emptied⟩ := Clipboard.lapse_cases now board
  · exact same
  · rw [emptied, Clipboard.current_iff, Clipboard.set_clip] at returned
    cases returned

/-- It is kept when a lifetime is over. -/
theorem lapse_promised (now since : SystemTime) (board : Clipboard Id Hash)
    (promised : Promised board since) : Promised (board.lapse now) since := by
  intro stamp copy ttl returned lifetime
  have same := lapse_of_current now board stamp copy returned
  rw [same] at returned ⊢
  exact promised stamp copy ttl returned lifetime

/-- A copy whose deadline has come does not stay through a lapse. -/
theorem lapse_due (now since : SystemTime) (board : Clipboard Id Hash) (stamp : Stamp Id)
    (copy : Copy Hash) (ttl : UInt32) (promised : Promised board since)
    (lifetime : copy.ttl = some ttl) (due : min stamp.time since + span ttl ≤ now) :
    (board.lapse now).current ≠ some (stamp, copy) := by
  intro returned
  have same := lapse_of_current now board stamp copy returned
  rw [same] at returned
  obtain ⟨deadline, expires, bounded⟩ := promised stamp copy ttl returned lifetime
  have lapsed : board.hasLapsed now = true := by
    simp [Clipboard.hasLapsed, expires, bounded.trans due]
  have held := (Clipboard.current_iff board stamp copy).mp returned
  have emptied := congrArg Clipboard.clip same
  simp [Clipboard.lapse, lapsed, held] at emptied

section Order
variable [LinearOrder Id] [ContentHash Hash] [DecidableEq Hash]

/-- One event; `none` when its readings are not in order. -/
def step (state : Aging Id Hash) (event : Clipboard.Event Id Hash) : Option (Aging Id Hash) :=
  if (state.now :: readings event).Pairwise (· ≤ ·) then
    let board := (state.board.step event).1
    some {
      board
      now := (readings event).getLastD state.now
      since := if board.head = state.board.head then state.since else heldAt state.now event }
  else none

/-- A machine that starts for the first time. -/
def start (clock : Clock) (identity : Id) (settings : Settings) : Aging Id Hash where
  board := .new clock identity settings none
  now := clock.lapse
  since := clock.lapse

/-- A restart does not count the lifetime of the clip it resumes from later than it was
counted when the clip was first held: the stamp was not ahead of the clock then, or the
clock has not moved since, or the copy is a secret, which no restart resumes, or its
lifetime is over however it is counted. -/
def InTime (state : Aging Id Hash) : Clipboard.Event Id Hash → Prop
  | .restart clock _ => ∀ stamp copy ttl, state.board.current = some (stamp, copy) →
      copy.ttl = some ttl →
      stamp.time ≤ state.since ∨ clock.set ≤ state.since ∨ copy.secret = true ∨
        min stamp.time clock.set + span ttl ≤ clock.lapse
  | _ => True

/-- What an event is due against: the moment it drops what has run out. -/
def Due (bound : SystemTime) : Clipboard.Event Id Hash → Prop
  | .expire now => bound ≤ now
  | .restart clock _ => bound ≤ clock.set
  | _ => False

omit [DecidableEq Hash] in
/-- It is kept when the clip is put on the local clipboard. -/
theorem apply_promised (board : Clipboard Id Hash) (since : SystemTime)
    (promised : Promised board since) : Promised board.apply.1 since :=
  promised_congr board _ since board.apply_clip board.apply_expires promised

omit [DecidableEq Hash] in
/-- A restart resumes from what was saved as if it were set then. -/
theorem new_promised (clock : Clock) (origin : Id) (settings : Settings)
    (saved : Option (Clip Id Hash)) :
    Promised (Clipboard.new clock origin settings saved) clock.set := by
  cases saved with
  | none =>
    intro stamp copy ttl returned _
    simp [Clipboard.new, Clipboard.current] at returned
  | some clip =>
    exact apply_promised _ _ (lapse_promised clock.lapse _ _ (set_promised clock.set clip _))

omit [DecidableEq Hash] in
/-- A restart goes on under the stamp it was left under. What is saved has the stamp of what is
held, whether its copy is saved or not. -/
theorem restart_head (clock : Clock) (settings : Settings) (board : Clipboard Id Hash) :
    (Clipboard.new clock board.origin settings board.saved).head = board.head := by
  have resumed := Clipboard.new_clip clock board.origin settings board.saved
  cases held : board.clip with
  | none =>
    have nothing : board.saved = none := by simp [Clipboard.saved, held]
    have empty : board.head = ⊥ := by simp only [Clipboard.head, held]; rfl
    rw [nothing, empty]
    rfl
  | some clip =>
    have stamped : ∃ copy, board.saved = some { stamp := clip.stamp, copy } := by
      obtain same | ⟨was, carried, emptied⟩ := Clipboard.saved_cases board
      · exact ⟨clip.copy, same.trans held⟩
      · obtain rfl : clip = was := Option.some.inj (held.symm.trans carried)
        exact ⟨none, emptied⟩
    obtain ⟨copy, saved⟩ := stamped
    rw [Clipboard.head_of_clip board clip held]
    obtain same | ⟨was, carried, emptied⟩ := resumed
    · exact Clipboard.head_of_clip _ { stamp := clip.stamp, copy } (same.trans saved)
    · obtain rfl := Option.some.inj (saved.symm.trans carried)
      exact Clipboard.head_of_clip _ { stamp := clip.stamp, copy := none } emptied

omit [DecidableEq Hash] in
/-- A restart resumes no secret, and no copy whose lifetime is over as it counts. What is saved of
a secret has no copy, and the lapse of a restart drops what is due by the earlier of its stamp and
the moment it is set. -/
theorem restart_current (clock : Clock) (settings : Settings) (board : Clipboard Id Hash)
    (stamp : Stamp Id) (copy : Copy Hash)
    (returned : (Clipboard.new clock board.origin settings board.saved).current =
      some (stamp, copy)) :
    board.current = some (stamp, copy) ∧ copy.secret = false ∧
      ∀ ttl, copy.ttl = some ttl → clock.lapse < min stamp.time clock.set + span ttl := by
  cases saved : board.saved with
  | none =>
    rw [saved] at returned
    cases returned
  | some clip =>
    obtain ⟨blank, resumed⟩ := Clipboard.new_some clock board.origin settings clip
    rw [saved, Clipboard.current_iff] at returned
    rw [resumed, Clipboard.apply_clip, ← Clipboard.current_iff] at returned
    have same := lapse_of_current clock.lapse _ stamp copy returned
    have set : clip = { stamp, copy := some copy } := by
      rw [same, Clipboard.current_iff, Clipboard.set_clip] at returned
      exact Option.some.inj returned
    subst set
    obtain whole | ⟨was, _, emptied⟩ := board.saved_cases
    · refine ⟨?_, ?_, ?_⟩
      · rw [Clipboard.current_iff, ← whole, saved]
      · cases secret : copy.secret with
        | false => rfl
        | true =>
          have kept : board.clip = some { stamp, copy := some copy } := whole.symm.trans saved
          simp [Clipboard.saved, kept, secret] at saved
      · intro ttl lifetime
        refine lt_of_not_ge (fun due => ?_)
        exact lapse_due clock.lapse clock.set _ stamp copy ttl (set_promised clock.set _ blank)
          lifetime due returned
    · rw [emptied] at saved
      simp at saved

omit [DecidableEq Hash] in
/-- A restart resumes a copy that is no secret while its lifetime, counted from then, is not
over. -/
theorem restart_resumes (clock : Clock) (settings : Settings) (board : Clipboard Id Hash)
    (stamp : Stamp Id) (copy : Copy Hash) (ttl : UInt32)
    (held : board.current = some (stamp, copy)) (plain : copy.secret = false)
    (lifetime : copy.ttl = some ttl) (running : clock.lapse < min stamp.time clock.set + span ttl) :
    (Clipboard.new clock board.origin settings board.saved).current = some (stamp, copy) ∧
      (Clipboard.new clock board.origin settings board.saved).expires =
        some (min stamp.time clock.set + span ttl) := by
  have carried := (Clipboard.current_iff board stamp copy).mp held
  have saved : board.saved = some { stamp, copy := some copy } := by
    simp [Clipboard.saved, carried, plain]
  obtain ⟨blank, resumed⟩ := Clipboard.new_some clock board.origin settings
    { stamp, copy := some copy }
  have expires : (blank.set clock.set { stamp, copy := some copy }).expires =
      some (min stamp.time clock.set + span ttl) := by
    simp [Clipboard.set, lifetime, span]
  have unlapsed : (blank.set clock.set { stamp, copy := some copy }).hasLapsed clock.lapse =
      false := by
    simp [Clipboard.hasLapsed, expires, running]
  have kept : (blank.set clock.set { stamp, copy := some copy }).lapse clock.lapse =
      blank.set clock.set { stamp, copy := some copy } := by
    simp [Clipboard.lapse, unlapsed]
  rw [saved, resumed, kept]
  constructor
  · rw [Clipboard.current_iff, Clipboard.apply_clip, Clipboard.set_clip]
  · rw [Clipboard.apply_expires, expires]

omit [DecidableEq Hash] in
/-- A copy resumed in time is counted as it was when it was first held. -/
theorem restart_counts (state : Aging Id Hash) (clock : Clock) (settings : Settings)
    (inTime : state.InTime (.restart clock settings)) (stamp : Stamp Id) (copy : Copy Hash)
    (ttl : UInt32) (lifetime : copy.ttl = some ttl)
    (returned : (Clipboard.new clock state.board.origin settings state.board.saved).current =
      some (stamp, copy)) : min stamp.time clock.set ≤ min stamp.time state.since := by
  obtain ⟨held, plain, running⟩ := restart_current clock settings state.board stamp copy returned
  obtain past | still | secret | spent := inTime stamp copy ttl held lifetime
  · rw [min_eq_left past]
    exact min_le_left _ _
  · exact min_le_min_left _ still
  · rw [plain] at secret
    cases secret
  · exact absurd spent (not_le_of_gt (running ttl lifetime))

omit [DecidableEq Hash] in
/-- A restart that counts in time keeps what was promised. -/
theorem restart_promised (state : Aging Id Hash) (clock : Clock) (settings : Settings)
    (inTime : state.InTime (.restart clock settings)) :
    Promised (Clipboard.new clock state.board.origin settings state.board.saved) state.since := by
  intro stamp copy ttl returned lifetime
  obtain ⟨deadline, expires, bounded⟩ :=
    new_promised clock state.board.origin settings state.board.saved stamp copy ttl returned lifetime
  have counted := restart_counts state clock settings inTime stamp copy ttl lifetime returned
  exact ⟨deadline, expires, bounded.trans (add_le_add_left counted _)⟩

omit [LinearOrder Id] [ContentHash Hash] [DecidableEq Hash] in
/-- A clip is held since its head came. -/
theorem promised_since (before after : Clipboard Id Hash) (since held : SystemTime)
    [Decidable (after.head = before.head)]
    (stays : after.head = before.head → Promised after since)
    (comes : after.head ≠ before.head → Promised after held) :
    Promised after (if after.head = before.head then since else held) := by
  by_cases same : after.head = before.head
  · rw [if_pos same]
    exact stays same
  · rw [if_neg same]
    exact comes same

/-- Every restart that counts lifetimes in time, and every other event, keeps the deadline
within what was promised. -/
theorem step_promised (state next : Aging Id Hash) (event : Clipboard.Event Id Hash)
    (promised : Promised state.board state.since) (inTime : state.InTime event)
    (taken : state.step event = some next) : Promised next.board next.since := by
  simp only [step, Option.ite_none_right_eq_some, Option.some.injEq] at taken
  obtain ⟨_, rfl⟩ := taken
  have did := state.board.step_did event
  generalize state.board.step event = outcome at did ⊢
  apply promised_since
  · intro same
    cases did with
    | nothing answer silent => exact promised
    | echoed => exact promised_congr state.board _ _ rfl rfl promised
    | recorded clock capture files selection stamp reported _ _ _ _ newer _ =>
      exact absurd same newer.ne'
    | applied ready first readied =>
      apply apply_promised
      rw [Clipboard.apply_head] at same
      cases readied with
      | copied clock selection files secret ttl copy stamp recorded newer ours =>
        exact absurd same newer.ne'
      | cleared clock stamp newer ours => exact absurd same newer.ne'
      | taken clock clip newer welcome =>
        rw [Clipboard.lapse_head, Clipboard.set_head] at same
        exact absurd same newer.ne'
      | lapsed now due => exact lapse_promised now _ _ promised
      | landed stamp tree head => exact promised_congr state.board _ _ rfl rfl promised
    | restarted clock settings isRestart =>
      subst isRestart
      exact restart_promised state clock settings inTime
  · intro moved
    cases did with
    | nothing answer silent => exact absurd rfl moved
    | echoed => exact absurd rfl moved
    | recorded clock capture files selection stamp reported =>
      subst reported
      exact promised_congr _ _ _ rfl rfl (set_promised clock.set _ state.board)
    | applied ready first readied =>
      apply apply_promised
      cases readied with
      | copied clock => exact set_promised clock.set _ state.board
      | cleared clock => exact set_promised clock.set _ state.board
      | taken clock clip =>
        exact lapse_promised clock.lapse _ _ (set_promised clock.set clip state.board)
      | lapsed now due =>
        rw [Clipboard.apply_head, Clipboard.lapse_head] at moved
        exact absurd rfl moved
      | landed stamp tree head =>
        rw [Clipboard.apply_head] at moved
        exact absurd rfl moved
    | restarted clock settings isRestart =>
      exact absurd (restart_head clock settings state.board) moved

/-- What an event that is due leaves does not return the copy, and goes on under its
stamp. -/
theorem due_drops (state next : Aging Id Hash) (event : Clipboard.Event Id Hash)
    (promised : Promised state.board state.since) (inTime : state.InTime event)
    (taken : state.step event = some next) (stamp : Stamp Id) (copy : Copy Hash) (ttl : UInt32)
    (lifetime : copy.ttl = some ttl) (due : Due (state.dueAt stamp ttl) event) :
    next.board.current ≠ some (stamp, copy) ∧ next.board.head = state.board.head := by
  simp only [step, Option.ite_none_right_eq_some, Option.some.injEq] at taken
  obtain ⟨inOrder, rfl⟩ := taken
  cases event with
  | expire now =>
    have gone := lapse_due now state.since state.board stamp copy ttl promised lifetime due
    obtain ⟨unlapsed, ignored⟩ | ⟨_, dropped⟩ := Clipboard.expire_cases now state.board
    · have kept : state.board.lapse now = state.board := by simp [Clipboard.lapse, unlapsed]
      rw [kept] at gone
      rw [Clipboard.step, ignored]
      exact ⟨gone, rfl⟩
    · rw [Clipboard.step, dropped]
      refine ⟨?_, by rw [Clipboard.apply_head, Clipboard.lapse_head]⟩
      rw [ne_eq, Clipboard.current_iff, Clipboard.apply_clip, ← Clipboard.current_iff]
      exact gone
  | restart clock settings =>
    refine ⟨?_, restart_head clock settings state.board⟩
    intro returned
    have counted := restart_counts state clock settings inTime stamp copy ttl lifetime returned
    obtain ⟨_, _, running⟩ := restart_current clock settings state.board stamp copy returned
    have ordered : clock.set ≤ clock.lapse := by
      simp only [readings, List.pairwise_cons] at inOrder
      exact inOrder.2.1 clock.lapse (by simp)
    have spent : min stamp.time clock.set + span ttl ≤ clock.lapse :=
      calc min stamp.time clock.set + span ttl
        _ ≤ min stamp.time state.since + span ttl := add_le_add_left counted _
        _ ≤ clock.set := due
        _ ≤ clock.lapse := ordered
    exact absurd spent (not_le_of_gt (running ttl lifetime))
  | _ => exact due.elim

/-- A lifetime is never exceeded along a run whose restarts all count in time: once the
clip's promised deadline has come, an `expire` or a restart takes the copy away for good. -/
theorem lifetime_is_never_exceeded (clock : Clock) (identity : Id) (settings : Settings)
    (events : List (Clipboard.Event Id Hash)) (last : Clipboard.Event Id Hash)
    (before after : Aging Id Hash)
    (reached : Runs.run step (start clock identity settings) events = some before)
    (inTime : Runs.Guarded step InTime (start clock identity settings) (events ++ [last]))
    (taken : before.step last = some after) (stamp : Stamp Id) (copy : Copy Hash) (ttl : UInt32)
    (held : before.board.current = some (stamp, copy)) (lifetime : copy.ttl = some ttl)
    (due : Due (before.dueAt stamp ttl) last) (later : List (Clipboard.Event Id Hash)) :
    (after.board.after later).current ≠ some (stamp, copy) := by
  rw [Runs.guarded_append_iff] at inTime
  obtain ⟨early, final⟩ := inTime
  have promised : Promised before.board before.since := by
    refine Runs.guarded_invariant step InTime (fun state => Promised state.board state.since) ?_
      _ before events ?_ early reached
    · intro state event next promised counts moved
      exact step_promised state next event promised counts moved
    · intro stamped copied span returned
      cases returned
  obtain ⟨gone, unmoved⟩ := due_drops before after last promised (final before reached).1 taken
    stamp copy ttl lifetime due
  intro returned
  obtain still | newer := (Clipboard.after_onward after.board later).fresh stamp copy returned
  · exact gone still
  · rw [unmoved, Clipboard.head_of_clip _ _ ((Clipboard.current_iff _ _ _).mp held)] at newer
    exact lt_irrefl _ newer

/-- A restart that does not count in time keeps a copy past its promised deadline. -/
theorem late_restart_exceeds (state next : Aging Id Hash) (clock : Clock) (settings : Settings)
    (late : ¬ state.InTime (.restart clock settings))
    (taken : state.step (.restart clock settings) = some next) :
    ∃ stamp copy ttl now, copy.ttl = some ttl ∧ state.board.current = some (stamp, copy) ∧
      state.dueAt stamp ttl ≤ now ∧ next.now ≤ now ∧
      (next.board.expire now).1.current = some (stamp, copy) := by
  simp only [InTime, not_forall, not_or, not_le, Bool.not_eq_true] at late
  obtain ⟨stamp, copy, ttl, held, lifetime, ahead, moved, plain, running⟩ := late
  simp only [step, Option.ite_none_right_eq_some, Option.some.injEq] at taken
  obtain ⟨_, rfl⟩ := taken
  obtain ⟨returned, expires⟩ :=
    restart_resumes clock settings state.board stamp copy ttl held plain lifetime running
  have extended : state.dueAt stamp ttl < min stamp.time clock.set + span ttl := by
    refine add_lt_add_left ?_ _
    exact lt_of_le_of_lt (min_le_right _ _) (lt_min ahead moved)
  refine ⟨stamp, copy, ttl, max (state.dueAt stamp ttl) clock.lapse, lifetime, held,
    le_max_left _ _, le_max_right _ _, ?_⟩
  have unlapsed : (Clipboard.new clock state.board.origin settings state.board.saved).hasLapsed
      (max (state.dueAt stamp ttl) clock.lapse) = false := by
    simp [Clipboard.hasLapsed, expires, extended, running]
  change ((Clipboard.new clock state.board.origin settings state.board.saved).expire _).1.current =
    some (stamp, copy)
  rw [Clipboard.expire, unlapsed]
  exact returned

end Order

/-- Every reading of an event at one instant. -/
def readAt (now : SystemTime) : Clock :=
  { stamp := now, believed := now, set := now, lapse := now }

/-- A text of a peer that is gone a minute after it was copied. -/
def minuteClip (millis : UInt64) : Clip Nat Bytes where
  stamp := { millis, origin := 1 }
  copy := some {
    selection := .of { mime := Mime.plainText, bytes := [104, 105] }
    secret := false
    ttl := some 60
    files := [] }

/-- A clip copied when the clock read zero, taken a second later and resumed by a restart
at half a minute, is gone after the minute. -/
theorem lifetime_is_never_exceeded_across_a_restart :
    let first : Aging Nat Bytes := start (readAt 0) 0 Settings.default
    let events : List (Clipboard.Event Nat Bytes) :=
      [.accept (readAt 1000000000) (minuteClip 0), .restart (readAt 30000000000) Settings.default]
    ∃ before after : Aging Nat Bytes, Runs.run step first events = some before ∧
      before.step (.expire 60000000000) = some after ∧
      before.board.current = (minuteClip 0).copy.map (fun copy => ((minuteClip 0).stamp, copy)) ∧
      ∀ later, (after.board.after later).current ≠ before.board.current := by
  intro first events
  have observed : (Runs.run step first events).map (fun before =>
      (before.step (.expire 60000000000)).isSome && decide (before.since = 1000000000) &&
        decide (before.board.current =
          (minuteClip 0).copy.map (fun copy => ((minuteClip 0).stamp, copy)))) = some true := by
    decide
  obtain ⟨before, reached, holds⟩ := Option.map_eq_some_iff.mp observed
  simp only [Bool.and_eq_true, decide_eq_true_eq, Option.isSome_iff_exists] at holds
  obtain ⟨⟨⟨after, taken⟩, since⟩, held⟩ := holds
  have accepted : (first.step (.accept (readAt 1000000000) (minuteClip 0))).map (fun taken =>
      decide (taken.since = 1000000000) && decide (taken.board.current.map Prod.fst =
        some (minuteClip 0).stamp)) = some true := by
    decide
  have inTime : Runs.Guarded step InTime first (events ++ [.expire 60000000000]) := by
    refine ⟨trivial, fun next moved => ⟨?_, fun _ _ => ⟨trivial, fun _ _ => trivial⟩⟩⟩
    rw [moved, Option.map_some, Option.some.injEq, Bool.and_eq_true, decide_eq_true_eq,
      decide_eq_true_eq] at accepted
    intro stamp copy ttl current _
    left
    rw [current] at accepted
    obtain rfl : stamp = (minuteClip 0).stamp := Option.some.inj accepted.2
    rw [accepted.1]
    decide
  have due : before.dueAt (minuteClip 0).stamp 60 ≤ 60000000000 := by
    rw [dueAt, since]
    decide
  refine ⟨before, after, reached, taken, held, ?_⟩
  intro later
  rw [held]
  exact lifetime_is_never_exceeded (readAt 0) 0 Settings.default events (.expire 60000000000) before
    after reached inTime taken (minuteClip 0).stamp _ 60 held rfl due later

/-- A clip stamped five minutes ahead with a lifetime of one is taken when the clock reads
zero. A restart just before the minute is over starts it again. -/
theorem restart_exceeds_a_lifetime :
    let first : Aging Nat Bytes := start (readAt 0) 0 Settings.default
    ∃ before after : Aging Nat Bytes,
      Runs.run step first [.accept (readAt 0) (minuteClip 300000),
        .restart (readAt 59000000000) Settings.default] = some before ∧
      before.since = 0 ∧ before.dueAt (minuteClip 300000).stamp 60 = 60000000000 ∧
      before.step (.expire 61000000000) = some after ∧
      after.board.current =
        (minuteClip 300000).copy.map (fun copy => ((minuteClip 300000).stamp, copy)) := by
  intro first
  have observed : (Runs.run step first [.accept (readAt 0) (minuteClip 300000),
      .restart (readAt 59000000000) Settings.default]).map (fun before =>
        decide (before.since = 0) &&
        decide (before.dueAt (minuteClip 300000).stamp 60 = 60000000000) &&
        decide ((before.step (.expire 61000000000)).map (fun after => after.board.current) =
          some ((minuteClip 300000).copy.map (fun copy => ((minuteClip 300000).stamp, copy))))) =
      some true := by
    decide
  obtain ⟨before, reached, holds⟩ := Option.map_eq_some_iff.mp observed
  simp only [Bool.and_eq_true, decide_eq_true_eq] at holds
  obtain ⟨⟨since, due⟩, expired⟩ := holds
  obtain ⟨after, taken, current⟩ := Option.map_eq_some_iff.mp expired
  exact ⟨before, after, reached, since, due, taken, current⟩

end Aging

end Yank
