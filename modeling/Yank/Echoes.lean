import Yank.ClipboardHistory
import Yank.Reoffering

/-!
# What was served coming back

An application may announce what yank put on the local clipboard as its own. Such a report
is not a new copy: it is recognized by the clip's first representation, or by the one that
was served for it last.

One clip is served in up to three forms, its own, its paths as text and the copies of its
files here, and only the last one is remembered. The result says exactly which reports are
recognized: those in the form the clip is carried in now, or under its own first
representation. A clip whose files landed is no longer known as the text it was before; a
restart forgets where they landed; and a secret is not resumed at all.
-/

namespace Yank.Clipboard

variable {Id Hash : Type} [LinearOrder Id] [ContentHash Hash]

/-- What was served last is what the copy is carried as. -/
def Remembered (board : Clipboard Id Hash) : Prop :=
  ∀ stamp copy, board.current = some (stamp, copy) →
    board.served = some (ContentHash.of (board.carried copy).primary.bytes)

/-- The first representation of everything put on the clipboard. -/
def firstBytes (serves : List Serve) : Option Bytes := serves.head?.map Serve.bytes

/-- The machine puts copies on the local clipboard and shares what is copied there. -/
def Sharing (settings : Settings) : Prop := settings.apply = true ∧ settings.capture = true

/-- A restart of the history reads settings that share. -/
def StaysSharing : Event Id Hash → Prop
  | .restart _ settings => Sharing settings
  | _ => True

omit [ContentHash Hash] in
/-- What is offered starts with the first representation the copy is carried as. -/
theorem offered_first (board : Clipboard Id Hash) (copy : Copy Hash) :
    firstBytes (board.offered copy) = some (board.carried copy).primary.bytes := by
  obtain ⟨more, head⟩ := serves_head (board.carried copy)
  simp [firstBytes, offered, head]

/-- A copy that is applied is remembered as it is carried. -/
theorem apply_remembered (board : Clipboard Id Hash) (applies : board.settings.apply = true) :
    board.apply.1.Remembered := by
  intro stamp copy returned
  rw [apply_current] at returned
  rw [apply_carried]
  simp [apply, applies, (current_iff _ _ _).mp returned]

/-- What apply offers starts with what the copy is carried as. -/
theorem apply_offered (board : Clipboard Id Hash) (serves : List Serve) (stamp : Stamp Id)
    (copy : Copy Hash) (returned : board.current = some (stamp, copy))
    (asked : Effect.backend (.offer serves) ∈ board.apply.2) :
    firstBytes serves = some (board.carried copy).primary.bytes := by
  obtain ⟨stamped, offeredFor, current, rfl⟩ := apply_offers board serves asked
  obtain ⟨-, rfl⟩ := Prod.mk.inj (Option.some.inj (returned.symm.trans current))
  exact offered_first board copy

/-- A restart remembers what it resumes. -/
theorem new_remembered (clock : Clock) (origin : Id) (settings : Settings)
    (saved : Option (Clip Id Hash)) (sharing : Sharing settings) :
    (new clock origin settings saved).Remembered := by
  cases saved with
  | none =>
    intro stamp copy returned
    cases returned
  | some clip =>
    apply apply_remembered
    rw [lapse_settings, set_settings]
    exact sharing.1

variable [DecidableEq Hash]

/-- Settings change at restarts only. The only event that may change them is a restart, which is
asked to keep both on. -/
theorem step_sharing (board : Clipboard Id Hash) (event : Event Id Hash)
    (sharing : Sharing board.settings) (stays : StaysSharing event) :
    Sharing (board.step event).1.settings := by
  have did := board.step_did event
  generalize board.step event = outcome at did ⊢
  cases did with
  | nothing => exact sharing
  | echoed => exact sharing
  | recorded => exact sharing
  | applied ready first readied =>
    rw [apply_settings, readied.settings]
    exact sharing
  | restarted clock settings isRestart =>
    subst isRestart
    rw [new_settings]
    exact stays

/-- A machine that shares what is copied goes on sharing, through restarts as well. -/
theorem after_sharing (board : Clipboard Id Hash) (events : List (Event Id Hash))
    (sharing : Sharing board.settings) (stays : ∀ event ∈ events, StaysSharing event) :
    Sharing (board.after events).settings := by
  induction events generalizing board with
  | nil => exact sharing
  | cons event events inductionHypothesis =>
    rw [List.forall_mem_cons] at stays
    exact inductionHypothesis _ (step_sharing board event sharing stays.1) stays.2

/-- An event that goes on under the same stamp still remembers what it serves. An event that
leaves the stamp leaves what is served, or serves it anew. -/
theorem step_remembered (board : Clipboard Id Hash) (event : Event Id Hash)
    (sharing : Sharing board.settings) (stays : StaysSharing event)
    (remembered : board.Remembered) (unmoved : (board.step event).1.head = board.head) :
    (board.step event).1.Remembered := by
  have did := board.step_did event
  generalize board.step event = outcome at did unmoved ⊢
  cases did with
  | nothing => exact remembered
  | echoed => exact remembered
  | recorded clock capture files selection stamp _ _ _ _ _ newer =>
    exact absurd unmoved newer.ne'
  | applied ready first readied =>
    apply apply_remembered
    rw [readied.settings]
    exact sharing.1
  | restarted clock settings isRestart =>
    subst isRestart
    exact new_remembered clock board.origin settings board.saved stays

/-- What an event puts on the local clipboard starts with what the copy is carried as, and
is remembered. -/
theorem step_offered (board : Clipboard Id Hash) (event : Event Id Hash)
    (sharing : Sharing board.settings) (serves : List Serve) (stamp : Stamp Id)
    (copy : Copy Hash) (returned : (board.step event).1.current = some (stamp, copy))
    (asked : Effect.backend (.offer serves) ∈ effectsOf (board.step event)) :
    (board.step event).1.Remembered ∧
      firstBytes serves = some ((board.step event).1.carried copy).primary.bytes := by
  obtain ⟨ready, first, readied, made, offered⟩ := board.step_readied event _ asked (by simp)
  rw [made] at returned ⊢
  rw [apply_current] at returned
  refine ⟨apply_remembered ready (by rw [readied.settings]; exact sharing.1), ?_⟩
  rw [apply_carried]
  exact apply_offered ready serves stamp copy returned offered

/-- The lifetime of the clip does not run out with the event. -/
def Unlapsed (board : Clipboard Id Hash) : Event Id Hash → Prop
  | .expire now => board.hasLapsed now = false
  | .restart clock _ => ∀ clip, board.saved = some clip →
      (board.set clock.set clip).hasLapsed clock.lapse = false
  | _ => True

def isRestart : Event Id Hash → Bool
  | .restart _ _ => true
  | _ => false

omit [DecidableEq Hash] in
/-- A restart while the lifetime is running resumes the copy, unless it is a secret. A secret is
saved without its copy, and the lapse of the restart drops what is due. -/
theorem restart_current (clock : Clock) (settings : Settings) (board : Clipboard Id Hash)
    (stamp : Stamp Id) (copy : Copy Hash) (held : board.current = some (stamp, copy))
    (running : board.Unlapsed (.restart clock settings)) :
    (new clock board.origin settings board.saved).current =
      if copy.secret then none else some (stamp, copy) := by
  have carried := (current_iff board stamp copy).mp held
  have saved : board.saved = some { stamp, copy := if copy.secret then none else some copy } := by
    cases secret : copy.secret <;> simp [Clipboard.saved, carried, secret]
  obtain ⟨blank, resumed⟩ := new_some clock board.origin settings
    { stamp, copy := if copy.secret then none else some copy }
  have unlapsed := running _ saved
  have kept : ∀ clip, (board.set clock.set clip).hasLapsed clock.lapse = false →
      (blank.set clock.set clip).lapse clock.lapse = blank.set clock.set clip := by
    intro clip lasts
    have same : (blank.set clock.set clip).hasLapsed clock.lapse = false := lasts
    simp [lapse, same]
  rw [saved, resumed, apply_current, kept _ unlapsed]
  cases copy.secret <;> simp [current]

/-- Under an unchanged stamp and within its lifetime a copy stays, through everything but
the restart of a machine that holds it as a secret. -/
theorem step_current (board : Clipboard Id Hash) (event : Event Id Hash) (stamp : Stamp Id)
    (copy : Copy Hash) (held : board.current = some (stamp, copy))
    (running : board.Unlapsed event) (unmoved : (board.step event).1.head = board.head) :
    (board.step event).1.current =
      if copy.secret && isRestart event then none else some (stamp, copy) := by
  cases restarts : isRestart event with
  | true =>
    cases event with
    | restart clock settings =>
      rw [Bool.and_true]
      exact restart_current clock settings board stamp copy held running
    | _ => cases restarts
  | false =>
    rw [Bool.and_false]
    have did := board.step_did event
    generalize board.step event = outcome at did unmoved ⊢
    cases did with
    | nothing => exact held
    | echoed => exact held
    | recorded clock capture files selection stamp _ _ _ _ _ newer =>
      exact absurd unmoved newer.ne'
    | applied ready first readied =>
      rw [apply_head] at unmoved
      rw [apply_current]
      cases readied with
      | copied clock selection files secret ttl copy stamp recorded newer =>
        exact absurd unmoved newer.ne'
      | cleared clock stamp newer => exact absurd unmoved newer.ne'
      | taken clock clip newer =>
        rw [lapse_head, set_head] at unmoved
        exact absurd unmoved newer.ne'
      | lapsed now due =>
        have impossible := due.symm.trans running
        cases impossible
      | landed => exact held
    | restarted clock settings isOne =>
      subst isOne
      cases restarts

/-- Under an unchanged stamp an emptied clip stays empty. -/
theorem after_empty (board : Clipboard Id Hash) (events : List (Event Id Hash))
    (empty : board.current = none) (unmoved : (board.after events).head = board.head) :
    (board.after events).current = none := by
  cases later : (board.after events).current with
  | none => rfl
  | some pair =>
    obtain ⟨stamp, copy⟩ := pair
    have stamped := head_of_clip _ _ ((current_iff _ stamp copy).mp later)
    obtain before | newer := (after_onward board events).fresh stamp copy later
    · rw [empty] at before
      cases before
    · rw [← unmoved, stamped] at newer
      exact absurd newer (lt_irrefl _)

/-- Under an unchanged stamp and within its lifetime a copy stays through a whole history,
unless it is a secret and the machine restarts. -/
theorem after_current (board : Clipboard Id Hash) (events : List (Event Id Hash))
    (stamp : Stamp Id) (copy : Copy Hash) (held : board.current = some (stamp, copy))
    (running : Runs.Guarded advance Unlapsed board events)
    (unmoved : (board.after events).head = board.head) :
    (board.after events).current =
      if copy.secret && events.any isRestart then none else some (stamp, copy) := by
  induction events generalizing board with
  | nil => simp [after, held]
  | cons event events inductionHypothesis =>
    have still := step_unmoved board event events unmoved
    have kept := step_current board event stamp copy held running.1 still
    change ((board.step event).1.after events).current = _
    rw [List.any_cons]
    cases forgets : copy.secret && isRestart event with
    | true =>
      rw [forgets] at kept
      rw [after_empty _ events kept (unmoved.trans still.symm)]
      simp [Bool.and_or_distrib_left, forgets]
    | false =>
      rw [forgets] at kept
      rw [inductionHypothesis _ kept (running.2 _ rfl) (unmoved.trans still.symm)]
      simp [Bool.and_or_distrib_left, forgets]

/-- A history that goes on under the same stamp remembers what it serves. -/
theorem after_remembered (board : Clipboard Id Hash) (events : List (Event Id Hash))
    (sharing : Sharing board.settings) (stays : ∀ event ∈ events, StaysSharing event)
    (remembered : board.Remembered) (unmoved : (board.after events).head = board.head) :
    (board.after events).Remembered := by
  induction events generalizing board with
  | nil => exact remembered
  | cons event events inductionHypothesis =>
    rw [List.forall_mem_cons] at stays
    have still := step_unmoved board event events unmoved
    exact inductionHypothesis _ (step_sharing board event sharing stays.1) stays.2
      (step_remembered board event sharing stays.1 remembered still) (unmoved.trans still.symm)

omit [LinearOrder Id] [ContentHash Hash] [DecidableEq Hash] in
/-- The cap takes alternates and never the first representation. -/
theorem fit_primary (board : Clipboard Id Hash) (selection fitted : Selection)
    (fits : board.fit selection = some fitted) : fitted.primary = selection.primary := by
  simp only [fit, Option.map_eq_some_iff] at fits
  obtain ⟨kept, _, rfl⟩ := fits
  rfl

omit [LinearOrder Id] in
/-- A report on a machine that shares answers no effects exactly when it is recognized or
ignored. -/
theorem captured_quiet_iff (clock : Clock) (capture : Captured)
    (files : List (Files.FileRef Hash)) (board : Clipboard Id Hash)
    (sharing : Sharing board.settings) :
    (board.captured clock capture files).2 = .ok [] ↔
      board.isEcho capture.selection.primary.bytes = true ∨ board.Drops capture files := by
  cases fits : board.fit capture.selection with
  | none =>
    have quiet : board.captured clock capture files = (board, .ok []) := by
      simp [captured, sharing.2, fits]
    rw [quiet]
    exact ⟨fun _ => Or.inr (Or.inr (Or.inl fits)), fun _ => rfl⟩
  | some selection =>
    have primary := fit_primary board capture.selection selection fits
    rw [← primary]
    cases echo : board.isEcho selection.primary.bytes with
    | true => simp [captured, sharing.2, fits, echo]
    | false =>
      cases checked : (board.capturedCopy capture selection files).check with
      | error failure =>
        have quiet : board.captured clock capture files = (board, .ok []) := by
          simp [captured, sharing.2, fits, echo, checked]
        rw [quiet]
        exact ⟨fun _ => Or.inr (Or.inr (Or.inr ⟨selection, failure, fits, checked⟩)), fun _ => rfl⟩
      | ok passed =>
        have news : ¬ board.Drops capture files := by
          rintro (off | unfit | ⟨other, failure, refitted, refused⟩)
          · rw [sharing.2] at off
            cases off
          · rw [fits] at unfit
            cases unfit
          · obtain rfl := Option.some.inj (fits.symm.trans refitted)
            rw [checked] at refused
            cases refused
        have loud : (board.captured clock capture files).2 ≠ .ok [] := by
          cases made : board.replace clock
              (some (board.capturedCopy capture selection files)) <;>
            simp [captured, sharing.2, fits, echo, checked, made]
        simp [loud, news]

/-- A clip is recognized by its own first representation and by what it is carried as. -/
theorem isEcho_iff (board : Clipboard Id Hash) (bytes : Bytes) (stamp : Stamp Id)
    (copy : Copy Hash) (held : board.current = some (stamp, copy)) (remembered : board.Remembered) :
    board.isEcho bytes = true ↔ copy.selection.primary.bytes = bytes ∨
      (ContentHash.of (board.carried copy).primary.bytes : Hash) = ContentHash.of bytes := by
  simp [isEcho, held, remembered stamp copy held]

/-- What was served is recognized when it comes back, for a clip that is still the head
and within its lifetime, exactly when the copy was not forgotten as a secret by a restart
and was served under its own first representation, or under the one it is carried with
now; and where it is not recognized nothing happens only if the report is ignored anyway. -/
theorem served_comes_back_iff (clock : Clock) (origin : Id) (settings : Settings)
    (saved : Option (Clip Id Hash)) (early late : List (Event Id Hash)) (event : Event Id Hash)
    (serves : List Serve) (stamp : Stamp Id) (copy : Copy Hash) (reported : Clock)
    (capture : Captured) (files : List (Files.FileRef Hash)) (sharing : Sharing settings)
    (stays : ∀ other ∈ early ++ event :: late, StaysSharing other)
    (asked : Effect.backend (.offer serves) ∈
      effectsOf (((new clock origin settings saved).after early).step event))
    (held : (((new clock origin settings saved).after early).step event).1.current =
      some (stamp, copy))
    (head : ((((new clock origin settings saved).after early).step event).1.after late).head = stamp)
    (running : Runs.Guarded advance Unlapsed
      (((new clock origin settings saved).after early).step event).1 late)
    (repeats : firstBytes serves = some capture.selection.primary.bytes) :
    let put := (((new clock origin settings saved).after early).step event).1
    let now := put.after late
    ((now.captured reported capture files).2 = .ok [] ∧
        (now.captured reported capture files).1.head = now.head) ↔
      ((copy.secret && late.any isRestart) = false ∧
          (copy.selection.primary.bytes = (put.carried copy).primary.bytes ∨
            (ContentHash.of (now.carried copy).primary.bytes : Hash) =
              ContentHash.of (put.carried copy).primary.bytes)) ∨
        now.Drops capture files := by
  intro put now
  have before : Sharing ((new clock origin settings saved).after early).settings := by
    refine after_sharing _ early ?_ (fun other among => stays other (List.mem_append_left _ among))
    rwa [new_settings]
  have rest : ∀ other ∈ late, StaysSharing other := fun other among =>
    stays other (List.mem_append_right _ (List.mem_cons_of_mem _ among))
  have shares : Sharing put.settings :=
    step_sharing _ event before (stays event (List.mem_append_right _ List.mem_cons_self))
  have unmoved : now.head = put.head := by
    rw [head, head_of_clip _ _ ((current_iff _ _ _).mp held)]
  obtain ⟨remembered, first⟩ := step_offered _ event before serves stamp copy held asked
  have still : now.Remembered := after_remembered put late shares rest remembered unmoved
  have current := after_current put late stamp copy held running unmoved
  have same : capture.selection.primary.bytes = (put.carried copy).primary.bytes :=
    Option.some.inj (repeats.symm.trans first)
  have quiet := captured_quiet_iff reported capture files now (after_sharing put late shares rest)
  have settled : (now.captured reported capture files).2 = .ok [] →
      (now.captured reported capture files).1.head = now.head := by
    intro silent
    exact head_congr _ _ (refuses_sameClip now (.captured reported capture files)
      (Or.inr silent)).clip
  rw [and_iff_left_of_imp settled, quiet, same]
  apply or_congr_left
  cases forgets : copy.secret && late.any isRestart with
  | true =>
    rw [forgets] at current
    have none_held : now.current = none := current
    simp [isEcho, none_held]
  | false =>
    rw [forgets] at current
    rw [isEcho_iff now _ stamp copy current still]
    simp

/-- Files another machine copied, carried as nothing but references. -/
def referencesClip : Clip Nat Bytes where
  stamp := { millis := 5, origin := 1 }
  copy := some {
    selection := {
      primary := { mime := Mime.gnomeCopiedFiles, bytes := [99, 121] }
      alternates := [{ mime := Mime.uriList, bytes := [102, 121] }] }
    secret := false
    ttl := none
    files := [{ path := "y", size := 1, hash := [7] }] }

/-- The text served for references is recognized while they are text. The clip serves references,
the capture brings back the text they are served as, and the board keeps its head. -/
theorem served_comes_back_iff_text :
    let clock : Clock :=
      { stamp := 5000000, believed := 5000000, set := 5000000, lapse := 5000000 }
    let text : Captured :=
      { selection := .of { mime := Mime.plainText, bytes := [102, 121] }, secret := false }
    let put := ((new clock 0 Settings.default none).step (.accept clock referencesClip)).1
    (put.captured clock text []).2 = .ok [] ∧
      (put.captured clock text []).1.head = put.head := by
  intro clock text put
  obtain ⟨copy, carried⟩ : ∃ copy, referencesClip.copy = some copy := ⟨_, rfl⟩
  have held : put.current = some (referencesClip.stamp, copy) := by
    rw [current_iff, ← carried]
    decide
  have asked : Effect.backend (.offer (serves (.of { mime := Mime.plainText, bytes := [102, 121] }))) ∈
      effectsOf ((new clock 0 Settings.default none).step (.accept clock referencesClip)) := by
    decide
  have stays : ∀ other ∈ ([] ++ (.accept clock referencesClip : Event Nat Bytes) :: []),
      StaysSharing other := by
    intro other among
    obtain rfl := List.mem_singleton.mp among
    exact trivial
  have head : put.head = referencesClip.stamp := by decide
  have first : firstBytes (serves (.of { mime := Mime.plainText, bytes := [102, 121] })) =
      some text.selection.primary.bytes := by
    decide
  have form : ∀ board : Clipboard Nat Bytes, (board.after []).carried copy = board.carried copy :=
    fun _ => rfl
  exact (served_comes_back_iff clock 0 Settings.default none [] [] (.accept clock referencesClip) _
    referencesClip.stamp copy clock text [] ⟨rfl, rfl⟩ stays asked held head trivial
    first).mpr (Or.inl ⟨by simp, Or.inr (by rw [form])⟩)

/-- Once the files are here the clip is served as them, and the text it was served as
before is recorded as a new copy when it comes back. -/
theorem text_served_before_is_a_new_copy :
    let clock : Clock :=
      { stamp := 5000000, believed := 5000000, set := 5000000, lapse := 5000000 }
    let text : Captured :=
      { selection := .of { mime := Mime.plainText, bytes := [102, 121] }, secret := false }
    let put := (new clock 0 Settings.default none).step (.accept clock referencesClip)
    let landed := put.1.step (.materialized referencesClip.stamp (Files.utf8 "spool"))
    Effect.backend (.offer (serves text.selection)) ∈ effectsOf put ∧
      landed.1.current.map Prod.fst = some referencesClip.stamp ∧
      landed.1.hasLapsed 5000000 = false ∧
      (landed.1.captured clock text []).2 = .ok [.save] ∧
      (landed.1.captured clock text []).1.head ≠ landed.1.head := by
  decide

end Yank.Clipboard
