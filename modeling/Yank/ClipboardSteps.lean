import Yank.Clipboard
import Yank.Runs

/-!
# What one operation does to the clipboard

Each operation has one law saying everything it can do: the cases it returns
from, the state each leaves and the effects it answers. Later results split
these laws and never the operations.

`apply` never touches the clip, its lifetime or its tree. `lapse` either leaves
the board alone or empties the clip under its own stamp. Every other change of
the clip is a newer stamp.
-/

namespace Yank.Clipboard

variable {Id Hash : Type}

/-- The clip that is set is the clip. -/
@[simp] theorem set_clip (now : SystemTime) (clip : Clip Id Hash) (board : Clipboard Id Hash) :
    (board.set now clip).clip = some clip := rfl

/-- Whose clipboard it is stays when a clip is set. -/
@[simp] theorem set_origin (now : SystemTime) (clip : Clip Id Hash)
    (board : Clipboard Id Hash) : (board.set now clip).origin = board.origin := rfl

/-- So do the settings. -/
@[simp] theorem set_settings (now : SystemTime) (clip : Clip Id Hash)
    (board : Clipboard Id Hash) : (board.set now clip).settings = board.settings := rfl

/-- A clip that is set was not served yet. -/
@[simp] theorem set_served (now : SystemTime) (clip : Clip Id Hash)
    (board : Clipboard Id Hash) : (board.set now clip).served = none := rfl

/-- And its files are not laid out yet. -/
@[simp] theorem set_tree (now : SystemTime) (clip : Clip Id Hash) (board : Clipboard Id Hash) :
    (board.set now clip).tree = none := rfl

/-- The stamp of a clip that is set is the head. -/
@[simp] theorem set_head (now : SystemTime) (clip : Clip Id Hash) (board : Clipboard Id Hash) :
    (board.set now clip).head = clip.stamp := rfl

/-- The head is the stamp of the clip. -/
theorem head_of_clip (board : Clipboard Id Hash) (clip : Clip Id Hash)
    (held : board.clip = some clip) : board.head = clip.stamp := by
  simp only [head, held]
  rfl

/-- The head is that of the clip, whatever else is different. -/
theorem head_congr (left right : Clipboard Id Hash) (same : left.clip = right.clip) :
    left.head = right.head := by
  unfold head
  rw [same]

/-- A board returns a copy exactly when its clip carries it. -/
theorem current_iff (board : Clipboard Id Hash) (stamp : Stamp Id) (copy : Copy Hash) :
    board.current = some (stamp, copy) ↔ board.clip = some { stamp, copy := some copy } := by
  cases held : board.clip with
  | none => simp [current, held]
  | some clip =>
    obtain ⟨stamped, copied⟩ := clip
    cases copied <;> simp [current, held]

/-- A lapse leaves the board or empties the clip under its own stamp. -/
theorem lapse_cases (now : SystemTime) (board : Clipboard Id Hash) :
    board.lapse now = board ∨
      ∃ clip, board.hasLapsed now = true ∧ board.clip = some clip ∧
        board.lapse now = board.set now { stamp := clip.stamp, copy := none } := by
  unfold lapse
  cases lapsed : board.hasLapsed now with
  | false => exact Or.inl rfl
  | true =>
    cases held : board.clip with
    | none => exact Or.inl rfl
    | some clip => exact Or.inr ⟨clip, rfl, rfl, rfl⟩

/-- Whose clipboard it is stays when a lifetime is over. -/
@[simp] theorem lapse_origin (now : SystemTime) (board : Clipboard Id Hash) :
    (board.lapse now).origin = board.origin := by
  rcases lapse_cases now board with same | ⟨clip, _, _, emptied⟩
  · rw [same]
  · rw [emptied, set_origin]

/-- So do the settings. -/
@[simp] theorem lapse_settings (now : SystemTime) (board : Clipboard Id Hash) :
    (board.lapse now).settings = board.settings := by
  rcases lapse_cases now board with same | ⟨clip, _, _, emptied⟩
  · rw [same]
  · rw [emptied, set_settings]

/-- And the head: what is emptied keeps its stamp. -/
@[simp] theorem lapse_head (now : SystemTime) (board : Clipboard Id Hash) :
    (board.lapse now).head = board.head := by
  rcases lapse_cases now board with same | ⟨clip, _, held, emptied⟩
  · rw [same]
  · rw [emptied, set_head, head_of_clip board clip held]

/-- The clip on disk carries the stamp of the clip. The copy itself is left out where it is a
secret. -/
theorem saved_cases (board : Clipboard Id Hash) :
    board.saved = board.clip ∨
      ∃ clip, board.clip = some clip ∧
        board.saved = some { stamp := clip.stamp, copy := none } := by
  unfold saved
  cases held : board.clip with
  | none => exact Or.inl rfl
  | some clip =>
    cases copied : clip.copy with
    | none =>
      left
      simp [copied]
    | some copy =>
      cases secret : copy.secret with
      | true => exact Or.inr ⟨clip, rfl, by simp [copied, secret]⟩
      | false =>
        left
        simp [copied, secret]

/-- A secret always gets a lifetime: the one asked for or the configured one. -/
theorem lifetime_secret (board : Clipboard Id Hash) (ttl : Option Duration) :
    (board.lifetime true ttl).isSome = true := by
  cases ttl <;> rfl

/-- A copy that is recorded is made of what was asked for, with the lifetime that is due. -/
theorem toCopy_spec (board : Clipboard Id Hash) (selection : Selection)
    (files : List (Files.FileRef Hash)) (secret : Bool) (ttl : Option Duration)
    (copy : Copy Hash) (recorded : board.toCopy selection files secret ttl = .ok copy) :
    copy = { selection, secret, ttl := board.lifetime secret ttl, files } := by
  simp only [toCopy, ensure_bind_ok_iff] at recorded
  have checked := recorded.2.2
  revert checked
  cases Copy.check { selection, secret, ttl := board.lifetime secret ttl, files } with
  | error failure =>
    intro impossible
    cases impossible
  | ok passed =>
    intro made
    exact (Except.ok.inj made).symm

section Order
variable [LinearOrder Id]

/-- What is said of a clip made on this machine. -/
theorem isOurs_iff (board : Clipboard Id Hash) :
    board.isOurs = true ↔ ∃ clip, board.clip = some clip ∧ clip.stamp.origin = board.origin := by
  simp [isOurs, Option.any_eq_true]

/-- A new clip made here is stamped after the head, by this machine. -/
theorem replace_spec (clock : Clock) (copy : Option (Copy Hash))
    (board replaced : Clipboard Id Hash) (made : board.replace clock copy = some replaced) :
    ∃ stamp : Stamp Id, board.head < stamp ∧ stamp.origin = board.origin ∧
      replaced = board.set clock.set { stamp, copy } := by
  simp only [replace, Option.map_eq_some_iff] at made
  obtain ⟨stamp, stamped, rfl⟩ := made
  exact ⟨stamp, Stamp.lt_next clock.stamp board.head board.origin stamp stamped,
    Stamp.next_origin clock.stamp board.head board.origin stamp stamped, rfl⟩

variable [ContentHash Hash]

/-- Putting the clip on the local clipboard leaves the clip. -/
@[simp] theorem apply_clip (board : Clipboard Id Hash) : board.apply.1.clip = board.clip := by
  unfold apply
  repeat' split
  all_goals rfl

/-- It leaves the deadline. -/
@[simp] theorem apply_expires (board : Clipboard Id Hash) :
    board.apply.1.expires = board.expires := by
  unfold apply
  repeat' split
  all_goals rfl

/-- It leaves the tree. -/
@[simp] theorem apply_tree (board : Clipboard Id Hash) : board.apply.1.tree = board.tree := by
  unfold apply
  repeat' split
  all_goals rfl

/-- It leaves whose clipboard it is. -/
@[simp] theorem apply_origin (board : Clipboard Id Hash) :
    board.apply.1.origin = board.origin := by
  unfold apply
  repeat' split
  all_goals rfl

/-- It leaves the settings. -/
@[simp] theorem apply_settings (board : Clipboard Id Hash) :
    board.apply.1.settings = board.settings := by
  unfold apply
  repeat' split
  all_goals rfl

/-- It leaves the head. -/
@[simp] theorem apply_head (board : Clipboard Id Hash) : board.apply.1.head = board.head :=
  head_congr _ _ board.apply_clip

/-- It leaves what is to be saved. -/
@[simp] theorem apply_saved (board : Clipboard Id Hash) : board.apply.1.saved = board.saved := by
  simp [saved]

omit [ContentHash Hash] in
/-- How a copy is carried depends on whose clip it is and where its files are. -/
theorem carried_congr (left right : Clipboard Id Hash) (copy : Copy Hash)
    (clip : left.clip = right.clip) (origin : left.origin = right.origin)
    (tree : left.tree = right.tree) : left.carried copy = right.carried copy := by
  unfold carried isOurs
  rw [clip, origin, tree]

/-- It leaves what a copy means here. -/
@[simp] theorem apply_carried (board : Clipboard Id Hash) (copy : Copy Hash) :
    board.apply.1.carried copy = board.carried copy :=
  carried_congr _ _ copy board.apply_clip board.apply_origin board.apply_tree

/-- It leaves the copy that is there. -/
@[simp] theorem apply_current (board : Clipboard Id Hash) :
    board.apply.1.current = board.current := by
  simp [current]

/-- Putting a clip on the local clipboard changes nothing that is offered for it. -/
theorem apply_shows (board : Clipboard Id Hash) (copy : Copy Hash) :
    board.apply.1.offered copy = board.offered copy := by
  rw [offered, offered, apply_carried]

/-- Applying empties the local clipboard, or fetches and offers the copy that is there. Nothing
else is in the list, whatever the settings: the cases are those of the source. -/
theorem apply_asks (board : Clipboard Id Hash) (effect : Effect Id)
    (asked : effect ∈ board.apply.2) :
    effect = .backend .clear ∨ ∃ stamp copy, board.current = some (stamp, copy) ∧
      (effect = .fetch stamp ∨ effect = .backend (.offer (board.offered copy))) := by
  unfold apply at asked
  cases on : board.settings.apply with
  | false => simp [on] at asked
  | true =>
    cases held : board.clip with
    | none => simp [on, held] at asked
    | some clip =>
      cases copied : clip.copy with
      | none =>
        left
        by_cases put : board.applied.isSome = true
        · simpa [on, held, copied, put] using asked
        · simp [on, held, copied, put] at asked
      | some copy =>
        right
        refine ⟨clip.stamp, copy, by simp [current, held, copied], ?_⟩
        have among : effect ∈
            (if copy.isFiles && board.settings.files && !board.isOurs && board.tree.isNone then
              [Effect.fetch clip.stamp] else []) ++
              [Effect.backend (.offer (board.offered copy))] := by
          simpa [on, held, copied] using asked
        obtain fetched | offered := List.mem_append.mp among
        · split at fetched
          · exact .inl (List.mem_singleton.mp fetched)
          · cases fetched
        · exact .inr (List.mem_singleton.mp offered)

/-- What is offered is offered for the clip's copy; nothing else names types. -/
theorem apply_offers (board : Clipboard Id Hash) (serves : List Serve)
    (asked : Effect.backend (.offer serves) ∈ board.apply.2) :
    ∃ stamp copy, board.current = some (stamp, copy) ∧ serves = board.offered copy := by
  obtain cleared | ⟨stamp, copy, current, fetched | offered⟩ := apply_asks board _ asked
  · cases cleared
  · cases fetched
  · cases offered
    exact ⟨stamp, copy, current, rfl⟩

/-- `copy` refuses and leaves the board, or puts a newer clip of this machine on
it and on the local clipboard. -/
theorem copy_cases (clock : Clock) (selection : Selection) (files : List (Files.FileRef Hash))
    (secret : Bool) (ttl : Option Duration) (board : Clipboard Id Hash) :
    (∃ failure, board.copy clock selection files secret ttl = (board, .error failure)) ∨
      ∃ (copy : Copy Hash) (stamp : Stamp Id), board.toCopy selection files secret ttl = .ok copy ∧
        board.head < stamp ∧ stamp.origin = board.origin ∧
        board.copy clock selection files secret ttl =
          ((board.set clock.set { stamp, copy := some copy }).apply.1,
            .ok (.save :: (board.set clock.set { stamp, copy := some copy }).apply.2)) := by
  unfold Clipboard.copy
  cases recorded : board.toCopy selection files secret ttl with
  | error failure => exact Or.inl ⟨failure, rfl⟩
  | ok copy =>
    dsimp only
    cases made : board.replace clock (some copy) with
    | none => exact Or.inl ⟨.overflow, rfl⟩
    | some replaced =>
      obtain ⟨stamp, newer, ours, rfl⟩ := replace_spec clock (some copy) board replaced made
      exact Or.inr ⟨copy, stamp, rfl, newer, ours, rfl⟩

/-- `clear` leaves the board on overflow, or empties it under a newer stamp. -/
theorem clear_cases (clock : Clock) (board : Clipboard Id Hash) :
    board.clear clock = (board, .error .overflow) ∨
      ∃ stamp : Stamp Id, board.head < stamp ∧ stamp.origin = board.origin ∧
        board.clear clock =
          ((board.set clock.set { stamp, copy := none }).apply.1,
            .ok (.save :: (board.set clock.set { stamp, copy := none }).apply.2)) := by
  unfold clear
  cases made : board.replace clock none with
  | none => exact Or.inl rfl
  | some replaced =>
    obtain ⟨stamp, newer, ours, rfl⟩ := replace_spec clock none board replaced made
    exact Or.inr ⟨stamp, newer, ours, rfl⟩

/-- `accept` ignores what is not newer, refuses what it should not hold, or takes
the clip, whose lifetime may be over already. -/
theorem accept_cases (clock : Clock) (clip : Clip Id Hash) (board : Clipboard Id Hash) :
    (clip.stamp ≤ board.head ∧ board.accept clock clip = (board, .ok [])) ∨
      (∃ failure, board.acceptable clock clip = .error failure ∧
        board.accept clock clip = (board, .error failure)) ∨
      (board.head < clip.stamp ∧ board.acceptable clock clip = .ok () ∧
        board.accept clock clip =
          (((board.set clock.set clip).lapse clock.lapse).apply.1,
            .ok (.save :: ((board.set clock.set clip).lapse clock.lapse).apply.2))) := by
  unfold accept
  by_cases stale : (clip.stamp : WithBot (Stamp Id)) ≤ board.head
  · exact Or.inl ⟨stale, if_pos stale⟩
  · rw [if_neg stale]
    cases checked : board.acceptable clock clip with
    | error failure => exact Or.inr (Or.inl ⟨failure, rfl, rfl⟩)
    | ok passed => exact Or.inr (Or.inr ⟨lt_of_not_ge stale, rfl, rfl⟩)

/-- `expire` acts exactly when the lifetime has run out. -/
theorem expire_cases (now : SystemTime) (board : Clipboard Id Hash) :
    (board.hasLapsed now = false ∧ board.expire now = (board, .ok [])) ∨
      (board.hasLapsed now = true ∧
        board.expire now =
          ((board.lapse now).apply.1, .ok (.save :: (board.lapse now).apply.2))) := by
  unfold expire
  cases board.hasLapsed now with
  | false => exact Or.inl ⟨rfl, rfl⟩
  | true => exact Or.inr ⟨rfl, rfl⟩

/-- `materialized` acts exactly for the clip that is still the head. -/
theorem materialized_cases (stamp : Stamp Id) (tree : Path) (board : Clipboard Id Hash) :
    (board.head ≠ stamp ∧ board.materialized stamp tree = (board, .ok [])) ∨
      (board.head = stamp ∧
        board.materialized stamp tree =
          (({ board with tree := some tree } : Clipboard Id Hash).apply.1,
            .ok ({ board with tree := some tree } : Clipboard Id Hash).apply.2)) := by
  unfold materialized
  by_cases same : board.head = (stamp : WithBot (Stamp Id))
  · exact Or.inr ⟨same, if_neg (not_not.mpr same)⟩
  · exact Or.inl ⟨same, if_pos same⟩

/-- A restart sets what was saved, drops it if its lifetime is over and applies it. -/
theorem new_some (clock : Clock) (origin : Id) (settings : Settings) (clip : Clip Id Hash) :
    ∃ blank : Clipboard Id Hash, new clock origin settings (some clip) =
      ((blank.set clock.set clip).lapse clock.lapse).apply.1 := ⟨_, rfl⟩

/-- A restart holds nothing, what was saved, or what was saved emptied because
its lifetime ran out meanwhile. -/
theorem new_clip (clock : Clock) (origin : Id) (settings : Settings)
    (saved : Option (Clip Id Hash)) :
    (new clock origin settings saved).clip = saved ∨
      ∃ clip, saved = some clip ∧
        (new clock origin settings saved).clip = some { stamp := clip.stamp, copy := none } := by
  unfold new
  cases saved with
  | none => exact Or.inl rfl
  | some clip =>
    dsimp only
    rw [apply_clip]
    generalize board_eq : set clock.set clip _ = board
    have held : board.clip = some clip := by rw [← board_eq, set_clip]
    rcases lapse_cases clock.lapse board with same | ⟨other, _, was, emptied⟩
    · left
      rw [same, held]
    · right
      obtain rfl : clip = other := Option.some.inj (held.symm.trans was)
      exact ⟨clip, rfl, by rw [emptied, set_clip]⟩

/-- A clipboard is whose it was opened for. -/
@[simp] theorem new_origin (clock : Clock) (origin : Id) (settings : Settings)
    (saved : Option (Clip Id Hash)) : (new clock origin settings saved).origin = origin := by
  unfold new
  cases saved <;> simp

/-- It has the settings it was opened with. -/
@[simp] theorem new_settings (clock : Clock) (origin : Id) (settings : Settings)
    (saved : Option (Clip Id Hash)) :
    (new clock origin settings saved).settings = settings := by
  unfold new
  cases saved <;> simp

variable [DecidableEq Hash]

/-- Why `captured` ignores a selection: nothing is shared from this machine, its
first representation alone is over the cap, or no machine should hold it. -/
def Drops (capture : Captured) (files : List (Files.FileRef Hash))
    (board : Clipboard Id Hash) : Prop :=
  board.settings.capture = false ∨ board.fit capture.selection = none ∨
    ∃ selection failure, board.fit capture.selection = some selection ∧
      (board.capturedCopy capture selection files).check = .error failure

/-- `captured` ignores the selection, fails to stamp it, recognizes the clip it
already holds, or records a newer clip of this machine without putting it
anywhere. -/
theorem captured_cases (clock : Clock) (capture : Captured) (files : List (Files.FileRef Hash))
    (board : Clipboard Id Hash) :
    (board.Drops capture files ∧ board.captured clock capture files = (board, .ok [])) ∨
      board.captured clock capture files = (board, .error .overflow) ∨
      (∃ selection, board.settings.capture = true ∧ board.fit capture.selection = some selection ∧
        board.isEcho selection.primary.bytes = true ∧
        board.captured clock capture files =
          ({ board with applied := board.clip.map (fun clip => clip.stamp) }, .ok [])) ∨
      ∃ (selection : Selection) (stamp : Stamp Id),
        board.settings.capture = true ∧ board.fit capture.selection = some selection ∧
        board.isEcho selection.primary.bytes = false ∧
        (board.capturedCopy capture selection files).check = .ok () ∧
        board.head < stamp ∧ stamp.origin = board.origin ∧
        board.captured clock capture files =
          ({ board.set clock.set
              { stamp, copy := some (board.capturedCopy capture selection files) } with
              applied := some stamp },
            .ok [.save]) := by
  unfold captured
  cases on : board.settings.capture with
  | false => exact Or.inl ⟨Or.inl on, rfl⟩
  | true =>
    cases fitted : board.fit capture.selection with
    | none => exact Or.inl ⟨Or.inr (Or.inl fitted), rfl⟩
    | some selection =>
      cases echo : board.isEcho selection.primary.bytes with
      | true => exact Or.inr (Or.inr (Or.inl ⟨selection, rfl, rfl, echo, by simp [echo]⟩))
      | false =>
        cases checked : (board.capturedCopy capture selection files).check with
        | error failure =>
          have drops : board.Drops capture files :=
            Or.inr (Or.inr ⟨selection, failure, fitted, checked⟩)
          exact Or.inl ⟨drops, by simp [echo, checked]⟩
        | ok passed =>
          cases made : board.replace clock
              (some (board.capturedCopy capture selection files)) with
          | none => exact Or.inr (Or.inl (by simp [echo, checked, made]))
          | some replaced =>
            obtain ⟨stamp, newer, ours, rfl⟩ := replace_spec clock _ board replaced made
            refine Or.inr (Or.inr (Or.inr
              ⟨selection, stamp, rfl, rfl, echo, checked, newer, ours, ?_⟩))
            simp [echo, checked, made]

end Order

end Yank.Clipboard
