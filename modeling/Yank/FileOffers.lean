import Yank.LaidOut

/-!
# Where a file reference is offered

A path is true where the files are. A type that names a file is announced in two places
only: for the selection this machine was just asked to copy, and for a clip whose files
were just laid out here under its own stamp. Whatever a peer wrote into its list of
types, and in whichever case it wrote them, the types that name files are left out in
the first form a clip takes here and rebuilt from the tree in the second.
-/

namespace Yank

variable {Id Hash : Type}

/-- A type that names a file is only ever announced for a payload of that type. -/
theorem Mime.aliases_local (mime name : String) (announced : name ∈ aliases mime)
    (file : isLocal name = true) : name = mime := by
  cases content : isLocal mime with
  | false =>
    have silent := Mime.aliases_notLocal mime content name announced
    rw [file] at silent
    cases silent
  | true =>
    have alone : aliases mime = [mime] := by simp [aliases, content]
    rw [alone] at announced
    exact List.mem_singleton.mp announced

/-- Every entry is served for one representation, under names of its own. The induction is on the
representations; an entry has the names that were left of its own type. -/
theorem servesFrom_sources (reps : List Rep) (before : List Serve) (serve : Serve)
    (among : serve ∈ servesFrom reps before) :
    serve ∈ before ∨
      ∃ rep ∈ reps, serve.bytes = rep.bytes ∧ ∀ name ∈ serve.mimes, name ∈ Mime.aliases rep.mime := by
  induction reps generalizing before with
  | nil => exact Or.inl among
  | cons rep reps inductionHypothesis =>
    rw [servesFrom] at among
    split at among
    · obtain known | ⟨other, later, served⟩ := inductionHypothesis before among
      · exact Or.inl known
      · exact Or.inr ⟨other, List.mem_cons_of_mem rep later, served⟩
    · obtain known | ⟨other, later, served⟩ := inductionHypothesis _ among
      · obtain earlier | now := List.mem_append.mp known
        · exact Or.inl earlier
        · right
          obtain rfl := List.mem_singleton.mp now
          refine ⟨rep, List.mem_cons_self, rfl, ?_⟩
          intro name listed
          exact (List.mem_filter.mp listed).1
      · exact Or.inr ⟨other, List.mem_cons_of_mem rep later, served⟩

/-- A type that names a file is served with the bytes of a representation of that type. -/
theorem serves_local (selection : Selection) (serve : Serve) (among : serve ∈ serves selection)
    (name : String) (announced : name ∈ serve.mimes) (file : Mime.isLocal name = true) :
    { mime := name, bytes := serve.bytes } ∈ selection.reps := by
  obtain nothing | ⟨rep, member, bytes, names⟩ := servesFrom_sources selection.reps [] serve among
  · cases nothing
  · have own : name = rep.mime := Mime.aliases_local rep.mime name (names name announced) file
    rw [own, bytes]
    exact member

/-- Where a copy's files are under a tree. -/
def treePaths (copy : Copy Hash) (tree : Path) : List Path :=
  copy.files.map (fun file => Files.join tree file.path)

/-- What names a file in a selection at home in a tree is rebuilt from the tree. -/
theorem rehomed_local (copy : Copy Hash) (tree : Path) (rep : Rep)
    (member : rep ∈ (rehomed copy tree).reps) (file : Mime.isLocal rep.mime = true) :
    rep ∈ (Selection.ofFiles (treePaths copy tree)).reps := by
  have split : rep ∈ (Selection.ofFiles (treePaths copy tree)).reps ∨
      rep ∈ copy.selection.reps.filter
        (fun rep => !Mime.isLocal rep.mime && !Mime.isText rep.mime) := by
    rw [← List.mem_append]
    exact member
  obtain rebuilt | kept := split
  · exact rebuilt
  · have content := (List.mem_filter.mp kept).2
    rw [file] at content
    cases content

/-- Every type that names a file is announced with what the tree makes of it, and
nothing else that names one is carried. -/
structure Rebuilt (copy : Copy Hash) (tree : Path) (carried : Selection) (serves : List Serve) :
    Prop where
  announced : ∀ serve ∈ serves, ∀ name ∈ serve.mimes, Mime.isLocal name = true →
    { mime := name, bytes := serve.bytes } ∈ (Selection.ofFiles (treePaths copy tree)).reps
  carried : ∀ rep ∈ carried.reps, Mime.isLocal rep.mime = true →
    rep ∈ (Selection.ofFiles (treePaths copy tree)).reps

namespace Clipboard

section Offers
variable [LinearOrder Id] [ContentHash Hash]

omit [ContentHash Hash] in
/-- Something is offered for every copy. -/
theorem offered_ne_nil (board : Clipboard Id Hash) (copy : Copy Hash) :
    board.offered copy ≠ [] := by
  obtain ⟨more, first⟩ := serves_head (board.carried copy)
  rw [offered, first]
  exact List.cons_ne_nil _ _

omit [ContentHash Hash] in
/-- With its files here, a copy is offered as they are here. What is served is the rebuilt
selection and a hint for secrets, which names no file. -/
theorem offered_rebuilt (board : Clipboard Id Hash) (copy : Copy Hash) (tree : Path)
    (here : board.tree = some tree) :
    Rebuilt copy tree (board.carried copy) (board.offered copy) := by
  have carried : board.carried copy = rehomed copy tree := by simp [Clipboard.carried, here]
  constructor
  · intro serve among name announced file
    rw [offered, carried, List.mem_append] at among
    obtain served | hint := among
    · exact rehomed_local copy tree _ (serves_local _ serve served name announced file) file
    · have secret : serve = secretServe := by
        split at hint
        · exact List.mem_singleton.mp hint
        · cases hint
      rw [secret, secretServe, List.mem_singleton] at announced
      have content : Mime.isLocal Mime.secretHint = false := by decide
      rw [announced, content] at file
      cases file
  · intro rep member file
    rw [carried] at member
    exact rehomed_local copy tree rep member file

omit [ContentHash Hash] in
/-- A clip taken from a peer is another machine's, and has no tree yet. -/
theorem taken_foreign (clock : Clock) (clip : Clip Id Hash) (board : Clipboard Id Hash)
    (welcome : board.acceptable clock clip = .ok ()) :
    ((board.set clock.set clip).lapse clock.lapse).isOurs = false ∧
      ((board.set clock.set clip).lapse clock.lapse).tree = none := by
  have foreign : clip.stamp.origin ≠ board.origin := by
    intro own
    simp [acceptable, ensure, own, bind, Except.bind] at welcome
  obtain same | ⟨was, _, held, dropped⟩ := lapse_cases clock.lapse (board.set clock.set clip)
  · rw [same]
    simp [isOurs, foreign]
  · obtain rfl : clip = was := Option.some.inj held
    rw [dropped]
    simp [isOurs, foreign]

end Offers

variable [LinearOrder Id] [ContentHash Hash] [DecidableEq Hash]

/-- Where an event has the files from that it offers a clip's copy with: the copy is
what this machine was just asked to copy, or its files were just laid out here under the
stamp of the clip. -/
inductive TrueHere (board : Clipboard Id Hash) (stamp : Stamp Id) (copy : Copy Hash)
    (carried : Selection) (serves : List Serve) : Event Id Hash → Prop where
  | copied (clock : Clock) (selection : Selection) (files : List (Files.FileRef Hash))
      (secret : Bool) (ttl : Option Duration)
      (recorded : board.toCopy selection files secret ttl = .ok copy)
      (ours : stamp.origin = board.origin) :
      TrueHere board stamp copy carried serves (.copy clock selection files secret ttl)
  | landed (tree : Path) (rebuilt : Rebuilt copy tree carried serves) :
      TrueHere board stamp copy carried serves (.materialized stamp tree)

omit [ContentHash Hash] [DecidableEq Hash] in
/-- What is made ready and names a file when it is offered was copied here or has landed
here. -/
theorem Readied.trueHere {board ready : Clipboard Id Hash} {event : Event Id Hash}
    {first : List (Effect Id)} (readied : Readied board event ready first)
    (stamp : Stamp Id) (copy : Copy Hash) (current : ready.current = some (stamp, copy))
    (names : announcesFiles (ready.offered copy) = true) :
    TrueHere board stamp copy (ready.carried copy) (ready.offered copy) event := by
  have held := (current_iff ready stamp copy).mp current
  cases readied with
  | copied clock selection files secret ttl copied made recorded newer ours =>
    obtain ⟨rfl, rfl⟩ : made = stamp ∧ copied = copy := by simpa using held
    exact .copied clock selection files secret ttl recorded ours
  | cleared clock made newer ours => simp at held
  | taken clock clip newer welcome =>
    obtain ⟨foreign, untreed⟩ := taken_foreign clock clip board welcome
    have treed := offered_files _ copy names foreign
    rw [untreed] at treed
    cases treed
  | lapsed now due =>
    -- What has lapsed is a clear, and a clear offers nothing.
    obtain kept | ⟨clip, _, _, dropped⟩ := lapse_cases now board
    · rw [kept] at held
      have emptied : (board.lapse now).clip = some { stamp, copy := none } := by
        simp [lapse, due, held]
      rw [kept, held] at emptied
      simp at emptied
    · rw [dropped] at held
      simp at held
  | landed landing tree head =>
    have same : landing = stamp := by
      have own : board.head = stamp := head_of_clip board _ held
      exact WithBot.coe_inj.mp (head.symm.trans own)
    rw [same]
    exact .landed tree (offered_rebuilt _ copy tree rfl)

/-- From any board, an event that offers something offers at least one entry, and offers
a file reference only where it is true. -/
theorem step_offers_true (board : Clipboard Id Hash) (event : Event Id Hash) (serves : List Serve)
    (asked : Effect.backend (.offer serves) ∈ effectsOf (board.step event)) :
    serves ≠ [] ∧
      (announcesFiles serves = true →
        ∃ stamp copy, (board.step event).1.current = some (stamp, copy) ∧
          TrueHere board stamp copy ((board.step event).1.carried copy) serves event) := by
  obtain ⟨ready, first, readied, made, among⟩ := step_readied board event _ asked (by simp)
  obtain ⟨stamp, copy, current, shown⟩ := apply_offers ready serves among
  rw [made, shown]
  constructor
  · exact offered_ne_nil ready copy
  · intro names
    refine ⟨stamp, copy, ?_, ?_⟩
    · rw [apply_current]
      exact current
    · rw [apply_carried]
      exact readied.trueHere stamp copy current names

/-- A file reference is only offered where it is true. In every history of a clipboard,
from whatever was saved, with any clips from peers and any settings, an offer has an
entry, and one that announces a type that names a file is for what this machine was just
asked to copy or for a clip whose files were just laid out here under its own stamp, with
every such type rebuilt from the tree. -/
theorem file_references_are_offered_where_true (clock : Clock) (origin : Id) (settings : Settings)
    (saved : Option (Clip Id Hash)) (events : List (Event Id Hash)) (event : Event Id Hash)
    (serves : List Serve)
    (asked : Effect.backend (.offer serves) ∈
      effectsOf (((new clock origin settings saved).after events).step event)) :
    let board := (new clock origin settings saved).after events
    let next := (board.step event).1
    serves ≠ [] ∧
      (announcesFiles serves = true →
        ∃ stamp copy, next.current = some (stamp, copy) ∧
          TrueHere board stamp copy (next.carried copy) serves event) :=
  step_offers_true _ event serves asked

/-- A peer's copy names a file of its own in capitals and carries a picture. Once its file
is here both are offered, the file where it is here. -/
theorem file_references_are_offered_where_true_once_landed :
    let clock : Clock :=
      { stamp := 5000000, believed := 5000000, set := 5000000, lapse := 5000000 }
    let copy : Copy Bytes :=
      { selection :=
          { primary := { mime := "TEXT/URI-LIST", bytes := Files.utf8 "file:///etc/passwd" }
            alternates := [{ mime := "image/png", bytes := [137] }] }
        secret := false
        ttl := none
        files := [{ path := "a", size := 2, hash := [1, 2] }] }
    let stamp : Stamp Nat := { millis := 1, origin := 1 }
    let board : Clipboard Nat Bytes :=
      (new clock 0 Settings.default none).after [.accept clock { stamp, copy := some copy }]
    let landing : Event Nat Bytes := .materialized stamp (Files.utf8 "/spool")
    Effect.backend (.offer (serves (rehomed copy (Files.utf8 "/spool")) ++ [])) ∈
        effectsOf (board.step landing) ∧
      TrueHere board stamp copy (rehomed copy (Files.utf8 "/spool"))
        (serves (rehomed copy (Files.utf8 "/spool")) ++ []) landing := by
  intro clock copy stamp board landing
  have asked : Effect.backend (.offer (serves (rehomed copy (Files.utf8 "/spool")) ++ [])) ∈
      effectsOf (board.step landing) := by
    decide +kernel
  have held : (board.step landing).1.current = some (stamp, copy) := by decide +kernel
  have treed : (board.step landing).1.tree = some (Files.utf8 "/spool") := by decide +kernel
  refine ⟨asked, ?_⟩
  obtain ⟨_, named⟩ := file_references_are_offered_where_true clock 0 Settings.default none
    [.accept clock { stamp, copy := some copy }] landing _ asked
  obtain ⟨was, copied, current, here⟩ := named (by decide +kernel)
  change TrueHere board was copied ((board.step landing).1.carried copied) _ landing at here
  obtain ⟨rfl, rfl⟩ := Prod.mk.inj (Option.some.inj (held.symm.trans current))
  have carried : (board.step landing).1.carried copy = rehomed copy (Files.utf8 "/spool") := by
    simp only [Clipboard.carried, treed]
  rw [carried] at here
  exact here

end Clipboard

end Yank
