import Yank.ClipboardHistory
import Yank.Reoffering

/-!
# What is copied on this machine

A copy made here is shared, and the local clipboard follows it. Two things stand in the
way, and each result says when they do.

A report of the clip's own first representation is an echo. For files that representation
is their paths, so the same files copied again after a change are taken for the clip that
is there, and what they hold now is not shared.

Whether copies of other machines reach the local clipboard is a setting. It is looked at
where any clip is brought to the clipboard or taken off it, one made here as well.
-/

namespace Yank

/-- What one representation announces is there when the next is looked at. -/
theorem servesFrom_cons (rep : Rep) (reps : List Rep) (serves : List Serve) :
    servesFrom (rep :: reps) serves = servesFrom reps (servesFrom [rep] serves) := by
  rw [← List.singleton_append, servesFrom_append]

/-- One more representation is found under the names nothing was announced under. Its entry has
the names of it that no entry before has, or there is none if none is left. -/
theorem servesFrom_single (rep : Rep) (serves : List Serve) (name : String) (bytes : Bytes) :
    (∃ serve ∈ servesFrom [rep] serves, name ∈ serve.mimes ∧ serve.bytes = bytes) ↔
      (∃ serve ∈ serves, name ∈ serve.mimes ∧ serve.bytes = bytes) ∨
        name ∉ announced serves ∧ name ∈ Mime.aliases rep.mime ∧ rep.bytes = bytes := by
  have left : name ∈ (Mime.aliases rep.mime).filter
      (fun mime => !serves.any (fun serve => serve.mimes.contains mime)) ↔
        name ∈ Mime.aliases rep.mime ∧ name ∉ announced serves := by
    rw [List.mem_filter, Bool.not_eq_true', Bool.eq_false_iff, Ne, ← mem_announced_iff]
  rw [servesFrom]
  split
  · rename_i none_left
    have gone : ¬ (name ∈ Mime.aliases rep.mime ∧ name ∉ announced serves) := by
      rw [← left, none_left]
      exact List.not_mem_nil
    simp only [servesFrom]
    constructor
    · exact Or.inl
    · rintro (known | ⟨unheard, goes, _⟩)
      · exact known
      · exact absurd ⟨goes, unheard⟩ gone
  · simp only [servesFrom, List.mem_append, List.mem_singleton, or_and_right, exists_or,
      exists_eq_left, left]
    rw [and_assoc, and_left_comm]

/-- After a representation what is announced is what was, and the names of its type. The names of
its type that were announced before are announced still, and the others are announced now. -/
theorem announced_single (rep : Rep) (serves : List Serve) (name : String) :
    name ∈ announced (servesFrom [rep] serves) ↔
      name ∈ announced serves ∨ name ∈ Mime.aliases rep.mime := by
  have listed (entries : List Serve) : name ∈ announced entries ↔
      ∃ bytes, ∃ serve ∈ entries, name ∈ serve.mimes ∧ serve.bytes = bytes := by
    simp only [announced, List.mem_flatMap]
    constructor
    · rintro ⟨serve, among, named⟩
      exact ⟨serve.bytes, serve, among, named, rfl⟩
    · rintro ⟨_, serve, among, named, _⟩
      exact ⟨serve, among, named⟩
  rw [listed (servesFrom [rep] serves)]
  simp only [servesFrom_single, exists_or, ← listed]
  by_cases known : name ∈ announced serves
  · simp [known]
  · simp [known]

/-- A name is announced once, by the first representation to go by it. The induction is on the
representations: the first takes the names that are left, and the rest are looked for behind it.
-/
theorem servesFrom_first (reps : List Rep) (serves : List Serve) (name : String) (bytes : Bytes) :
    (∃ serve ∈ servesFrom reps serves, name ∈ serve.mimes ∧ serve.bytes = bytes) ↔
      (∃ serve ∈ serves, name ∈ serve.mimes ∧ serve.bytes = bytes) ∨
        name ∉ announced serves ∧
          ∃ rep, reps.find? (fun rep => (Mime.aliases rep.mime).contains name) = some rep ∧
            rep.bytes = bytes := by
  induction reps generalizing serves with
  | nil => simp [servesFrom]
  | cons rep reps inductionHypothesis =>
    rw [servesFrom_cons, inductionHypothesis, servesFrom_single, announced_single]
    by_cases goes : name ∈ Mime.aliases rep.mime
    · have found : (rep :: reps).find? (fun rep => (Mime.aliases rep.mime).contains name) =
          some rep := by
        rw [List.find?_cons, List.contains_iff_mem.mpr goes]
      simp only [found, goes, or_true, not_true_eq_false, false_and, or_false, true_and,
        Option.some.injEq, exists_eq_left']
    · have passed : (rep :: reps).find? (fun rep => (Mime.aliases rep.mime).contains name) =
          reps.find? (fun rep => (Mime.aliases rep.mime).contains name) := by
        have other : (Mime.aliases rep.mime).contains name = false := by
          rw [Bool.eq_false_iff, Ne, List.contains_iff_mem]
          exact goes
        rw [List.find?_cons, other]
      simp only [passed, goes, false_and, and_false, or_false]

namespace Clipboard

variable {Id Hash : Type} [LinearOrder Id] [ContentHash Hash]

/-! ## Files copied again -/

/-- The copy the board holds names these files, with their sizes and hashes. -/
def SharesFiles (files : List (Files.FileRef Hash)) (board : Clipboard Id Hash) : Prop :=
  ∃ stamp copy, board.current = some (stamp, copy) ∧ copy.files = files

/-- Files are reported to a board that is empty or whose clip was made here: copies are
shared from this machine, the report is no secret, fits the cap, and may be held. -/
structure ReportsFiles (capture : Captured) (files : List (Files.FileRef Hash))
    (selection : Selection) (board : Clipboard Id Hash) : Prop where
  here : board.current = none ∨ board.isOurs = true
  shared : board.settings.capture = true
  named : files ≠ []
  plain : capture.secret = false
  fitted : board.fit capture.selection = some selection
  checked : (board.capturedCopy capture selection files).check = .ok ()

omit [LinearOrder Id] [ContentHash Hash] in
/-- A stamp overflows only after the last there is. -/
theorem replace_none_iff (clock : Clock) (copy : Option (Copy Hash)) (board : Clipboard Id Hash) :
    board.replace clock copy = none ↔ Stamp.after board.head = none := by
  rw [replace, Option.map_eq_none_iff, Stamp.next, Option.map_eq_none_iff]

section
variable [DecidableEq Hash]

/-- In every reachable state, files that are reported are shared as they are now exactly
when the report is not taken for the clip that is there, or that clip names them as they are
already. -/
theorem reported_files_are_shared_iff (clock again : Clock) (origin : Id) (settings : Settings)
    (saved : Option (Clip Id Hash)) (early : List (Event Id Hash)) (capture : Captured)
    (files : List (Files.FileRef Hash)) (selection : Selection)
    (reports : ((new clock origin settings saved).after early).ReportsFiles capture files
      selection) :
    (((new clock origin settings saved).after early).captured again capture files).1.SharesFiles
        files ↔
      ((new clock origin settings saved).after early).isEcho selection.primary.bytes = false ∧
          Stamp.after ((new clock origin settings saved).after early).head ≠ none ∨
        ((new clock origin settings saved).after early).SharesFiles files := by
  generalize (new clock origin settings saved).after early = board at reports ⊢
  cases echo : board.isEcho selection.primary.bytes with
  | true =>
    have outcome : board.captured again capture files =
        ({ board with applied := board.clip.map (fun clip => clip.stamp) }, .ok []) := by
      simp [captured, reports.shared, reports.fitted, echo]
    rw [outcome]
    simp only [Bool.true_eq_false, false_and, false_or]
    rfl
  | false =>
    cases made : board.replace again (some (board.capturedCopy capture selection files)) with
    | none =>
      have outcome : board.captured again capture files = (board, .error .overflow) := by
        simp [captured, reports.shared, reports.fitted, reports.checked, echo, made]
      have last := (replace_none_iff again _ board).mp made
      rw [outcome]
      simp [last]
    | some replaced =>
      have outcome : board.captured again capture files =
          ({ replaced with applied := replaced.clip.map (fun clip => clip.stamp) }, .ok [.save]) := by
        simp [captured, reports.shared, reports.fitted, reports.checked, echo, made]
      have room : Stamp.after board.head ≠ none := by
        rw [Ne, ← replace_none_iff again (some (board.capturedCopy capture selection files)), made]
        simp
      obtain ⟨stamp, _, _, rfl⟩ := replace_spec again _ board replaced made
      rw [outcome]
      refine ⟨fun _ => Or.inl ⟨rfl, room⟩, fun _ => ?_⟩
      exact ⟨stamp, board.capturedCopy capture selection files, rfl, rfl⟩

/-- Files copied, changed and copied again under the same paths. -/
def pathsOnly : Captured where
  selection := .of { mime := Mime.uriList, bytes := Files.utf8 "file:///a\r\n" }
  secret := false

/-- What a file held, and what it holds now. -/
def fileBefore : Files.FileRef Bytes := { path := "a", size := 1, hash := [1] }
def fileAfter : Files.FileRef Bytes := { path := "a", size := 1, hash := [2] }

/-- Files under other paths. -/
def otherPaths : Captured where
  selection := .of { mime := Mime.uriList, bytes := Files.utf8 "file:///b\r\n" }
  secret := false

/-- Files copied after others were copied here are shared as they are. -/
theorem reported_files_are_shared_once :
    let clock : Clock :=
      { stamp := 5000000, believed := 5000000, set := 5000000, lapse := 5000000 }
    let board : Clipboard Nat Bytes :=
      (new clock 0 Settings.default none).after [.captured clock otherPaths [fileAfter]]
    board.isOurs = true ∧
      (board.captured clock pathsOnly [fileBefore]).1.SharesFiles [fileBefore] := by
  intro clock board
  have ours : board.isOurs = true := by decide
  have reports : board.ReportsFiles pathsOnly [fileBefore] pathsOnly.selection :=
    ⟨Or.inr ours, by decide, by simp, rfl, by decide, by decide⟩
  exact ⟨ours, (reported_files_are_shared_iff clock clock 0 Settings.default none
    [.captured clock otherPaths [fileAfter]] pathsOnly [fileBefore] pathsOnly.selection reports).mpr
      (Or.inl ⟨by decide, by decide⟩)⟩

/-- Copied again once it changed, the file is still shared as it was. -/
theorem a_changed_file_is_shared_as_it_was :
    let clock : Clock :=
      { stamp := 5000000, believed := 5000000, set := 5000000, lapse := 5000000 }
    let board : Clipboard Nat Bytes :=
      (new clock 0 Settings.default none).after [.captured clock pathsOnly [fileBefore]]
    board.ReportsFiles pathsOnly [fileAfter] pathsOnly.selection ∧
      ¬ (board.captured clock pathsOnly [fileAfter]).1.SharesFiles [fileAfter] := by
  intro clock board
  have reports : board.ReportsFiles pathsOnly [fileAfter] pathsOnly.selection :=
    ⟨Or.inr (by decide), by decide, by simp, rfl, by decide, by decide⟩
  refine ⟨reports, ?_⟩
  rintro ⟨stamp, copy, returned, same⟩
  have held : (board.captured clock pathsOnly [fileAfter]).1.current.map
      (fun held => held.2.files) = some [fileBefore] := by
    decide
  rw [returned, Option.map_some, same] at held
  exact absurd held (by decide)

end

/-! ## The local clipboard -/

/-- What effects put on the local clipboard, in order. -/
def offersOf (effects : List (Effect Id)) : List (List Serve) :=
  effects.filterMap (fun effect =>
    match effect with
    | .backend (.offer serves) => some serves
    | _ => none)

/-- Effects put one thing on the local clipboard: every representation under its own type,
and the hint that goes with a secret. -/
def PutsOnce (secret : Bool) (selection : Selection) (effects : List (Effect Id)) : Prop :=
  ∃ serves, offersOf effects = [serves ++ if secret then [secretServe] else []] ∧
    ∀ rep ∈ selection.reps, ∃ serve ∈ serves, rep.mime ∈ serve.mimes ∧ serve.bytes = rep.bytes

/-- Effects empty the local clipboard once. -/
def EmptiesOnce (effects : List (Effect Id)) : Prop := effects.count (.backend .clear) = 1

/-- No representation goes by the type of a later one that differs. -/
def NamesItsOwn (selection : Selection) : Prop :=
  ∀ rep ∈ selection.reps, ∀ other,
    selection.reps.find? (fun other => (Mime.aliases other.mime).contains rep.mime) = some other →
      other.bytes = rep.bytes

/-- Where clips reach the local clipboard, the one there is was put on it or came from it. -/
def Tracked (board : Clipboard Id Hash) : Prop :=
  board.settings.apply = true → ∀ stamp copy, board.current = some (stamp, copy) →
    board.applied.isSome = true

omit [LinearOrder Id] in
/-- A representation of its own type is found among what is announced exactly when the first
to go by that type has its bytes. -/
theorem serves_carry_iff (selection : Selection) :
    (∀ rep ∈ selection.reps, ∃ serve ∈ serves selection,
        rep.mime ∈ serve.mimes ∧ serve.bytes = rep.bytes) ↔ NamesItsOwn selection := by
  refine forall₂_congr fun rep member => ?_
  rw [serves, servesFrom_first]
  simp only [List.not_mem_nil, false_and, exists_false, false_or, announced, List.flatMap_nil,
    not_false_eq_true, true_and]
  constructor
  · rintro ⟨first, found, same⟩ other also
    rw [found, Option.some.injEq] at also
    exact also ▸ same
  · intro own
    have goes : (Mime.aliases rep.mime).contains rep.mime = true := by
      rw [List.contains_iff_mem]
      exact List.mem_of_mem_head? (Mime.aliases_head rep.mime)
    cases found : selection.reps.find? (fun other => (Mime.aliases other.mime).contains rep.mime) with
    | none => exact absurd goes (List.find?_eq_none.mp found rep member)
    | some other => exact ⟨other, rfl, own other found⟩

/-- A copy made here is put on the local clipboard exactly where clips reach it. -/
theorem apply_ours (board : Clipboard Id Hash) (stamp : Stamp Id) (copy : Copy Hash)
    (held : board.clip = some { stamp, copy := some copy }) (ours : stamp.origin = board.origin)
    (elsewhere : board.tree = none) :
    board.apply.2 = if board.settings.apply then
      [.backend (.offer (serves copy.selection ++ if copy.secret then [secretServe] else []))]
      else [] := by
  have here : board.isOurs = true := (isOurs_iff board).mpr ⟨_, held, ours⟩
  have carried : board.carried copy = copy.selection := by simp [carried, elsewhere, here]
  cases on : board.settings.apply with
  | false => simp [apply, on]
  | true => simp [apply, on, held, here, offered, carried]

/-- A successful copy puts its selection on the local clipboard exactly where clips reach it
and no representation hides another. -/
theorem copy_puts_iff (board : Clipboard Id Hash) (clock : Clock) (selection : Selection)
    (files : List (Files.FileRef Hash)) (secret : Bool) (ttl : Option Duration)
    (effects : List (Effect Id))
    (copied : (board.copy clock selection files secret ttl).2 = .ok effects) :
    PutsOnce secret selection effects ↔ board.settings.apply = true ∧ NamesItsOwn selection := by
  obtain ⟨failure, refused⟩ | ⟨copy, stamp, recorded, _, ours, made⟩ :=
    copy_cases clock selection files secret ttl board
  · rw [refused] at copied
    cases copied
  · rw [made] at copied
    obtain rfl := Except.ok.inj copied
    obtain rfl := toCopy_spec board selection files secret ttl copy recorded
    rw [apply_ours _ stamp _ (set_clip _ _ _) ours (set_tree _ _ _), set_settings]
    cases on : board.settings.apply with
    | false =>
      constructor
      · rintro ⟨serves, nothing, _⟩
        simp [offersOf] at nothing
      · rintro ⟨impossible, _⟩
        cases impossible
    | true =>
      have offer : offersOf (.save :: [Effect.backend (.offer (serves selection ++
          if secret then [secretServe] else []))] : List (Effect Id)) =
            [serves selection ++ if secret then [secretServe] else []] := rfl
      rw [← serves_carry_iff]
      constructor
      · rintro ⟨others, put, carry⟩
        rw [if_pos rfl, offer, List.cons.injEq] at put
        rw [← List.append_cancel_right put.1] at carry
        exact ⟨rfl, carry⟩
      · rintro ⟨_, carry⟩
        exact ⟨serves selection, by rw [if_pos rfl, offer], carry⟩

/-- An empty clip takes what is there off the local clipboard, where clips reach it. -/
theorem apply_empty (board : Clipboard Id Hash) (stamp : Stamp Id)
    (held : board.clip = some { stamp, copy := none })
    (tracked : board.settings.apply = true → board.applied.isSome = true) :
    EmptiesOnce (.save :: board.apply.2 : List (Effect Id)) ↔ board.settings.apply = true := by
  cases on : board.settings.apply with
  | false => simp [EmptiesOnce, apply, on]
  | true => simp [EmptiesOnce, apply, on, held, tracked on]

/-- What is applied is tracked. -/
theorem apply_tracked (board : Clipboard Id Hash) : board.apply.1.Tracked := by
  intro applies stamp copy returned
  rw [apply_settings] at applies
  rw [apply_current, current_iff] at returned
  simp [apply, applies, returned]

/-- A saved clip is put on the local clipboard as the machine starts. -/
theorem new_tracked (clock : Clock) (origin : Id) (settings : Settings)
    (saved : Option (Clip Id Hash)) : (new clock origin settings saved).Tracked := by
  cases saved with
  | none =>
    intro _ stamp copy returned
    cases returned
  | some clip =>
    obtain ⟨blank, resumed⟩ := new_some clock origin settings clip
    rw [resumed]
    exact apply_tracked _

/-- A clear empties the local clipboard exactly where clips reach it. -/
theorem clear_empties_iff (board : Clipboard Id Hash) (tracked : board.Tracked) (stamp : Stamp Id)
    (copy : Copy Hash) (held : board.current = some (stamp, copy)) (clock : Clock)
    (effects : List (Effect Id)) (cleared : (board.clear clock).2 = .ok effects) :
    EmptiesOnce effects ↔ board.settings.apply = true := by
  obtain refused | ⟨later, _, _, done⟩ := clear_cases clock board
  · rw [refused] at cleared
    cases cleared
  · rw [done] at cleared
    obtain rfl := Except.ok.inj cleared
    exact apply_empty (board.set clock.set { stamp := later, copy := none }) later rfl
      (fun on => tracked on stamp copy held)

/-- So does the end of a lifetime. -/
theorem expire_empties_iff (board : Clipboard Id Hash) (tracked : board.Tracked) (stamp : Stamp Id)
    (copy : Copy Hash) (held : board.current = some (stamp, copy)) (now : SystemTime)
    (due : board.hasLapsed now = true) :
    EmptiesOnce (effectsOf (board.expire now)) ↔ board.settings.apply = true := by
  obtain ⟨early, _⟩ | ⟨_, dropped⟩ := expire_cases now board
  · rw [due] at early
    cases early
  · have clip := (current_iff board stamp copy).mp held
    have emptied : board.lapse now = board.set now { stamp, copy := none } := by
      simp [lapse, due, clip]
    rw [dropped, emptied]
    exact apply_empty (board.set now { stamp, copy := none }) stamp rfl
      (fun on => tracked on stamp copy held)

variable [DecidableEq Hash]

/-- An event keeps what is there tracked. What is made ready is applied, which tracks it, and a
report is what the local clipboard has already. -/
theorem step_tracked (board : Clipboard Id Hash) (event : Event Id Hash) (tracked : board.Tracked) :
    (board.step event).1.Tracked := by
  have did := board.step_did event
  generalize board.step event = outcome at did ⊢
  cases did with
  | nothing => exact tracked
  | echoed =>
    intro _ stamp copy returned
    rw [current_iff] at returned
    have held : board.clip = some { stamp, copy := some copy } := returned
    simp [held]
  | recorded =>
    intro _ _ _ _
    rfl
  | applied ready first readied => exact apply_tracked ready
  | restarted clock settings isRestart => exact new_tracked _ _ _ _

/-- Along every history, the clip was put on the local clipboard or came from it. -/
theorem after_tracked (board : Clipboard Id Hash) (events : List (Event Id Hash))
    (tracked : board.Tracked) : (board.after events).Tracked := by
  refine Runs.run_invariant advance Tracked ?_ _ _ events tracked (run_advance board events)
  intro board event next held taken
  obtain rfl := Option.some.inj taken
  exact step_tracked board event held

/-- In every reachable state the local clipboard follows what is done here exactly where the
setting lets clips reach it: a successful copy is put on it, whole as long as no
representation goes by the type of another, and a clear or the end of a lifetime takes off
it what is there. -/
theorem local_clipboard_follows_iff (clock : Clock) (origin : Id) (settings : Settings)
    (saved : Option (Clip Id Hash)) (events : List (Event Id Hash)) :
    let board := (new clock origin settings saved).after events
    (∀ clock selection files secret ttl effects,
        (board.copy clock selection files secret ttl).2 = .ok effects →
          (PutsOnce secret selection effects ↔
            board.settings.apply = true ∧ NamesItsOwn selection)) ∧
      ∀ stamp copy, board.current = some (stamp, copy) →
        (∀ clock effects, (board.clear clock).2 = .ok effects →
          (EmptiesOnce effects ↔ board.settings.apply = true)) ∧
        ∀ now, board.hasLapsed now = true →
          (EmptiesOnce (effectsOf (board.expire now)) ↔ board.settings.apply = true) := by
  intro board
  have tracked : board.Tracked := after_tracked _ events (new_tracked clock origin settings saved)
  refine ⟨fun clock selection files secret ttl effects copied =>
    copy_puts_iff board clock selection files secret ttl effects copied, fun stamp copy held => ?_⟩
  exact ⟨clear_empties_iff board tracked stamp copy held,
    expire_empties_iff board tracked stamp copy held⟩

/-- Where clips of other machines are kept off the local clipboard, a copy made here is not
put on it, and what was captured from it stays on it after a clear. -/
theorem the_local_clipboard_is_left_alone :
    let clock : Clock :=
      { stamp := 5000000, believed := 5000000, set := 5000000, lapse := 5000000 }
    let selection := Selection.of { mime := Mime.plainText, bytes := [104, 105] }
    let board : Clipboard Nat Bytes := new clock 0 { Settings.default with apply := false } none
    let reported := board.step (.captured clock { selection, secret := false } [])
    (board.copy clock selection [] false none).2 = .ok [.save] ∧
      ¬ PutsOnce false selection ([.save] : List (Effect Nat)) ∧
      reported.1.applied.isSome = true ∧ reported.1.current.isSome = true ∧
      effectsOf (reported.1.clear clock) = [.save] ∧
      ¬ EmptiesOnce (effectsOf (reported.1.clear clock)) := by
  intro clock selection board reported
  have cleared : effectsOf (reported.1.clear clock) = [.save] := by decide
  refine ⟨by decide, ?_, by decide, by decide, cleared, ?_⟩
  · rintro ⟨serves, nothing, _⟩
    cases nothing
  · rw [cleared, EmptiesOnce]
    decide

end Clipboard

end Yank
