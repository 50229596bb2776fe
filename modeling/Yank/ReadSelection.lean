import Yank.Copy
import Yank.Runs

/-!
# Reading a selection

Every type of a selection is read from a pipe of its own, and the pipes are drained
together. A wait for them says which can be read, and each of those is read once: it gives
bytes, ends, was interrupted or fails. What is held may weigh as much as the budget; past
it the last type is dropped, and the next to last, until the rest fits.

The loop is followed one pipe at a time. What a pipe gave depends on its own answers only,
and a type is kept as long as it and those before it fit the budget together. From there
the result is what the first of the kept pipes wrote before they ended.

A type whose source wrote nothing is left out in the end, the first one included. Then the
result starts with another type than the selection is.
-/

namespace Yank.Wayland

/-- What reading a pipe once gives. No bytes are the end of it. -/
inductive Answer where
  | bytes (chunk : Bytes)
  | interrupted
  | error
deriving DecidableEq

/-- What a wait for the pipes comes to. Pipes that are not open are not waited for. -/
inductive Poll where
  | ready (answers : Nat → Option Answer)
  | interrupted
  | failed

structure Reading where
  mime : String
  /-- Until the transfer ends, one way or another. -/
  isOpen : Bool
  /-- Whether the source wrote all of it. -/
  whole : Bool
  bytes : Bytes
deriving DecidableEq

/-- The transfers there are, best first, and the count of the bytes they hold. -/
structure Transfer where
  reading : List Reading
  held : Int
deriving DecidableEq

def Reading.start (mime : String) : Reading where
  mime := mime
  isOpen := true
  whole := false
  bytes := []

/-- What an answer does to a transfer. -/
def Reading.answer (entry : Reading) : Answer → Reading
  | .bytes [] => { entry with isOpen := false, whole := true }
  | .bytes chunk => { entry with bytes := entry.bytes ++ chunk }
  | .interrupted => entry
  | .error => { entry with isOpen := false, bytes := [] }

/-- What an answer does to the count of held bytes. -/
def Reading.change (entry : Reading) : Answer → Int
  | .bytes chunk => chunk.length
  | .interrupted => 0
  | .error => -entry.bytes.length

/-- Reads the pipes that are ready, from one position on. -/
def readReady (answers : Nat → Option Answer) : Nat → List Reading → Int → List Reading × Int
  | _, [], held => ([], held)
  | index, entry :: rest, held =>
      match if entry.isOpen then answers index else none with
      | none =>
          let (read, held) := readReady answers (index + 1) rest held
          (entry :: read, held)
      | some answer =>
          let (read, held) := readReady answers (index + 1) rest (held + entry.change answer)
          (entry.answer answer :: read, held)

/-- Drops transfers while they hold more than the budget; the last one comes first. -/
def dropOver (budget : Nat) : List Reading → Int → List Reading × Int
  | [], held => ([], held)
  | last :: rest, held =>
      if (budget : Int) < held then dropOver budget rest (held - last.bytes.length)
      else (last :: rest, held)

/-- What follows a wait. -/
def Transfer.round (budget : Nat) (transfer : Transfer) (answers : Nat → Option Answer) :
    Transfer :=
  let (read, held) := readReady answers 0 transfer.reading transfer.held
  let (kept, held) := dropOver budget read.reverse held
  { reading := kept.reverse, held }

/-- The loop. When there are no more waits the deadline has come. -/
def readLoop (budget : Nat) : List Poll → Transfer → Transfer
  | [], transfer => transfer
  | poll :: polls, transfer =>
      if transfer.reading.all (fun entry => !entry.isOpen) then transfer
      else match poll with
        | .ready answers =>
            let next := transfer.round budget answers
            if next.reading = [] then next else readLoop budget polls next
        | .interrupted => readLoop budget polls transfer
        | .failed => transfer

def Transfer.start (types : List String) : Transfer where
  reading := types.map Reading.start
  held := 0

/-- What is left of a selection in the end: nothing unless the first type is whole. -/
def Transfer.result (transfer : Transfer) : List Rep :=
  if transfer.reading.head?.any (fun entry => entry.whole) then
    (transfer.reading.filter (fun entry => entry.whole && entry.bytes != [])).map
      (fun entry => { mime := entry.mime, bytes := entry.bytes })
  else []

/-- Reads every representation of a selection, best first, dropping the ones that do not fit
the budget in total. -/
def readSelection (types : List String) (budget : Nat) (polls : List Poll) : List Rep :=
  (readLoop budget polls (.start types)).result

/-- What the transfers hold together. -/
def weight (entries : List Reading) : Nat := (entries.map (fun entry => entry.bytes.length)).sum

/-! ## One move at a time -/

/-- What the loop does to its transfers: read one pipe, or drop the last transfer. -/
inductive Move where
  | read (index : Nat) (answer : Answer)
  | drop
deriving DecidableEq

/-- A pipe is read while it is open, a transfer dropped while the budget is exceeded. -/
def move (budget : Nat) (transfer : Transfer) : Move → Option Transfer
  | .read index answer =>
      match transfer.reading[index]? with
      | none => none
      | some entry =>
          if entry.isOpen then
            some {
              reading := transfer.reading.set index (entry.answer answer)
              held := transfer.held + entry.change answer }
          else none
  | .drop =>
      match transfer.reading.getLast? with
      | none => none
      | some last =>
          if (budget : Int) < transfer.held then
            some {
              reading := transfer.reading.dropLast
              held := transfer.held - last.bytes.length }
          else none

/-- The count is what is held, and what is held is the first of the types. -/
structure Tallied (types : List String) (transfer : Transfer) : Prop where
  held : transfer.held = weight transfer.reading
  kept : transfer.reading.map Reading.mime <+: types

/-- What transfers hold together is what each part of them holds. -/
@[simp] theorem weight_append (early late : List Reading) :
    weight (early ++ late) = weight early + weight late := by
  simp [weight]

/-- One more transfer weighs what it has read. -/
@[simp] theorem weight_cons (entry : Reading) (entries : List Reading) :
    weight (entry :: entries) = entry.bytes.length + weight entries := rfl

/-- Their order does not matter. -/
@[simp] theorem weight_reverse (entries : List Reading) : weight entries.reverse = weight entries := by
  simp [weight]

/-- An answer leaves the type that is read. -/
@[simp] theorem answer_mime (entry : Reading) (answer : Answer) :
    (entry.answer answer).mime = entry.mime := by
  unfold Reading.answer
  split <;> rfl

/-- An answer changes the count by what it changes of the bytes. -/
theorem answer_weight (entry : Reading) (answer : Answer) :
    ((entry.answer answer).bytes.length : Int) = entry.bytes.length + entry.change answer := by
  cases answer with
  | bytes chunk =>
    cases chunk with
    | nil => simp [Reading.answer, Reading.change]
    | cons byte chunk => simp [Reading.answer, Reading.change]
  | interrupted => simp [Reading.answer, Reading.change]
  | error => simp [Reading.answer, Reading.change]

/-- Every move keeps the count and the order. A read adds to the count what it adds to its pipe,
and the pipes stay in the order of their types; what is dropped is taken off the end and off the
count. -/
theorem move_tallied (types : List String) (budget : Nat) (transfer : Transfer) (label : Move)
    (next : Transfer) (tallied : Tallied types transfer)
    (taken : move budget transfer label = some next) : Tallied types next := by
  cases label with
  | read index answer =>
    cases found : transfer.reading[index]? with
    | none => simp [move, found] at taken
    | some entry =>
      simp only [move, found, Option.ite_none_right_eq_some, Option.some.injEq] at taken
      obtain ⟨_, rfl⟩ := taken
      obtain ⟨inside, there⟩ := List.getElem?_eq_some_iff.mp found
      have split : transfer.reading = transfer.reading.take index ++
          entry :: transfer.reading.drop (index + 1) := by
        rw [← there, List.getElem_cons_drop, List.take_append_drop]
      have changed : transfer.reading.set index (entry.answer answer) =
          transfer.reading.take index ++ entry.answer answer :: transfer.reading.drop (index + 1) :=
        List.set_eq_take_append_cons_drop.trans (if_pos inside)
      have counted := tallied.held
      have kept := tallied.kept
      rw [split] at counted kept
      refine ⟨?_, ?_⟩
      · have answered := answer_weight entry answer
        simp only [changed, weight_append, weight_cons] at counted ⊢
        push_cast at counted ⊢
        omega
      · simpa [changed] using kept
  | drop =>
    cases found : transfer.reading.getLast? with
    | none => simp [move, found] at taken
    | some last =>
      simp only [move, found, Option.ite_none_right_eq_some, Option.some.injEq] at taken
      obtain ⟨_, rfl⟩ := taken
      obtain ⟨front, split⟩ := List.getLast?_eq_some_iff.mp found
      have counted := tallied.held
      have kept := tallied.kept
      rw [split] at counted kept
      refine ⟨?_, ?_⟩
      · simp only [split, List.dropLast_concat, weight_append, weight_cons] at counted ⊢
        push_cast at counted ⊢
        have nothing : weight [] = 0 := rfl
        omega
      · rw [List.map_append] at kept
        simp only [split, List.dropLast_concat]
        exact (List.prefix_append _ _).trans kept

/-- At first nothing is read, and nothing is counted. -/
theorem start_tallied (types : List String) : Tallied types (.start types) where
  held := by
    have nothing : ∀ types : List String, weight (types.map Reading.start) = 0 := by
      intro types
      induction types with
      | nil => rfl
      | cons mime types inductionHypothesis =>
        rw [List.map_cons, weight_cons, inductionHypothesis]
        rfl
    simp [Transfer.start, nothing]
  kept := by simp [Transfer.start, Reading.start, Function.comp_def]

/-- Reading the pipes that are ready is a run of moves. The induction is on the pipes that are
still to be read, behind those that were. -/
theorem readReady_moves (budget : Nat) (answers : Nat → Option Answer) (early rest : List Reading)
    (held : Int) :
    ∃ moves, Runs.run (move budget) { reading := early ++ rest, held } moves = some {
      reading := early ++ (readReady answers early.length rest held).1
      held := (readReady answers early.length rest held).2 } := by
  induction rest generalizing early held with
  | nil => exact ⟨[], rfl⟩
  | cons entry rest inductionHypothesis =>
    cases ready : if entry.isOpen then answers early.length else none with
    | none =>
      obtain ⟨moves, reached⟩ := inductionHypothesis (early ++ [entry]) held
      rw [List.length_append, List.length_singleton, List.append_assoc, List.append_assoc]
        at reached
      refine ⟨moves, ?_⟩
      simp only [readReady, ready]
      exact reached
    | some answer =>
      rw [Option.ite_none_right_eq_some] at ready
      have first : move budget { reading := early ++ entry :: rest, held }
          (.read early.length answer) = some {
            reading := (early ++ [entry.answer answer]) ++ rest
            held := held + entry.change answer } := by
        simp [move, ready.1]
      obtain ⟨moves, reached⟩ := inductionHypothesis (early ++ [entry.answer answer])
        (held + entry.change answer)
      rw [List.length_append, List.length_singleton, List.append_assoc, List.append_assoc]
        at reached
      refine ⟨.read early.length answer :: moves, ?_⟩
      rw [Runs.run_cons_iff]
      refine ⟨_, first, ?_⟩
      simp only [readReady, ready, if_true, List.append_assoc]
      exact reached

/-- Dropping what exceeds the budget is a run of moves. The induction is on the pipes from the
last one: each that is dropped is a move. -/
theorem dropOver_moves (budget : Nat) (back : List Reading) (held : Int) :
    ∃ moves, Runs.run (move budget) { reading := back.reverse, held } moves = some {
      reading := (dropOver budget back held).1.reverse
      held := (dropOver budget back held).2 } := by
  induction back generalizing held with
  | nil => exact ⟨[], rfl⟩
  | cons last rest inductionHypothesis =>
    rw [dropOver]
    split
    · rename_i exceeds
      have first : move budget { reading := (last :: rest).reverse, held } .drop =
          some { reading := rest.reverse, held := held - last.bytes.length } := by
        simp [move, exceeds]
      obtain ⟨moves, reached⟩ := inductionHypothesis (held - last.bytes.length)
      exact ⟨.drop :: moves, (Runs.run_cons_iff _ _ _ _ _).mpr ⟨_, first, reached⟩⟩
    · exact ⟨[], rfl⟩

/-- A wait is some moves, one after another. -/
theorem round_moves (budget : Nat) (transfer : Transfer) (answers : Nat → Option Answer) :
    ∃ moves, Runs.run (move budget) transfer moves = some (transfer.round budget answers) := by
  obtain ⟨reads, read⟩ := readReady_moves budget answers [] transfer.reading transfer.held
  obtain ⟨drops, dropped⟩ := dropOver_moves budget
    (readReady answers 0 transfer.reading transfer.held).1.reverse
    (readReady answers 0 transfer.reading transfer.held).2
  rw [List.reverse_reverse] at dropped
  exact ⟨reads ++ drops, (Runs.run_append_iff _ _ _ _ _).mpr ⟨_, read, dropped⟩⟩

/-- A wait is gone through, and then the loop is left or waits again. -/
theorem readLoop_cons (budget : Nat) (poll : Poll) (polls : List Poll) (transfer : Transfer) :
    readLoop budget (poll :: polls) transfer =
      if transfer.reading.all (fun entry => !entry.isOpen) then transfer
      else match poll with
        | .ready answers =>
            if (transfer.round budget answers).reading = [] then transfer.round budget answers
            else readLoop budget polls (transfer.round budget answers)
        | .interrupted => readLoop budget polls transfer
        | .failed => transfer := by
  cases poll <;> rfl

/-- The loop is a run of moves. The induction is on the polls: a wait reads what is ready and
drops what exceeds the budget. -/
theorem readLoop_moves (budget : Nat) (polls : List Poll) (transfer : Transfer) :
    ∃ moves, Runs.run (move budget) transfer moves = some (readLoop budget polls transfer) := by
  induction polls generalizing transfer with
  | nil => exact ⟨[], rfl⟩
  | cons poll polls inductionHypothesis =>
    rw [readLoop_cons]
    split
    · exact ⟨[], rfl⟩
    cases poll with
    | ready answers =>
      dsimp only
      obtain ⟨first, reached⟩ := round_moves budget transfer answers
      split
      · exact ⟨first, reached⟩
      · obtain ⟨rest, last⟩ := inductionHypothesis (transfer.round budget answers)
        exact ⟨first ++ rest, (Runs.run_append_iff _ _ _ _ _).mpr ⟨_, reached, last⟩⟩
    | interrupted => exact inductionHypothesis transfer
    | failed => exact ⟨[], rfl⟩

/-! ## One pipe at a time -/

/-- What a wait does to the transfer at a position. -/
def hear (answers : Nat → Option Answer) (index : Nat) (entry : Reading) : Reading :=
  match if entry.isOpen then answers index else none with
  | none => entry
  | some answer => entry.answer answer

/-- What waits do to the transfer at a position. -/
def heard (rounds : List (Nat → Option Answer)) (index : Nat) (entry : Reading) : Reading :=
  rounds.foldl (fun entry answers => hear answers index entry) entry

/-- Every transfer after some waits, had none been dropped. -/
def entriesAfter (types : List String) (rounds : List (Nat → Option Answer)) : List Reading :=
  types.mapIdx (fun index mime => heard rounds index (.start mime))

/-- The waits there are answers from: those before one fails. -/
def roundsOf : List Poll → List (Nat → Option Answer)
  | [] => []
  | .ready answers :: polls => answers :: roundsOf polls
  | .interrupted :: polls => roundsOf polls
  | .failed :: _ => []

/-- What reading one pipe gives, in order. -/
def stream (rounds : List (Nat → Option Answer)) (index : Nat) : List Answer :=
  rounds.filterMap (fun answers => answers index)

/-- All the bytes a source wrote before it ended, when it did. -/
def wrote : List Answer → Option Bytes
  | [] => none
  | .bytes [] :: _ => some []
  | .bytes chunk :: rest => (wrote rest).map (fun more => chunk ++ more)
  | .interrupted :: rest => wrote rest
  | .error :: _ => none

/-- A type is kept: it and those before it never exceed the budget together. -/
def Survives (types : List String) (budget : Nat) (rounds : List (Nat → Option Answer))
    (index : Nat) : Prop :=
  ∀ count ≤ rounds.length,
    weight ((entriesAfter types (rounds.take count)).take (index + 1)) ≤ budget

/-- Every pipe is read as its own answer says. The induction is on the pipes; the count goes along
and changes none of them. -/
theorem readReady_reading (answers : Nat → Option Answer) (index : Nat) (entries : List Reading)
    (held : Int) :
    (readReady answers index entries held).1 =
      entries.mapIdx (fun offset entry => hear answers (index + offset) entry) := by
  induction entries generalizing index held with
  | nil => rfl
  | cons entry entries inductionHypothesis =>
    have later : (fun offset entry => hear answers (index + 1 + offset) entry) =
        fun offset entry => hear answers (index + (offset + 1)) entry := by
      funext offset entry
      rw [Nat.add_right_comm, Nat.add_assoc]
    rw [List.mapIdx_cons]
    cases ready : if entry.isOpen then answers index else none with
    | none =>
      have first : hear answers (index + 0) entry = entry := by rw [hear, Nat.add_zero, ready]
      simp only [readReady, ready, inductionHypothesis, later, first]
    | some answer =>
      have first : hear answers (index + 0) entry = entry.answer answer := by
        rw [hear, Nat.add_zero, ready]
      simp only [readReady, ready, inductionHypothesis, later, first]

/-- What is dropped leaves the longest part in front that fits. The induction is on the pipes from
the last one: while the count exceeds the budget the last goes, and the first time that it fits
the loop ends. -/
theorem dropOver_spec (budget : Nat) (back : List Reading) (held : Int)
    (counted : held = weight back) :
    ∃ size ≤ back.length, (dropOver budget back held).1.reverse = back.reverse.take size ∧
      (dropOver budget back held).2 = weight (back.reverse.take size) ∧
      weight (back.reverse.take size) ≤ budget ∧
      ∀ index < back.length, index < size ↔ weight (back.reverse.take (index + 1)) ≤ budget := by
  induction back generalizing held with
  | nil => exact ⟨0, le_refl _, rfl, counted, Nat.zero_le _, fun index inside => by cases inside⟩
  | cons last rest inductionHypothesis =>
    rw [weight_cons] at counted
    have whole : weight (last :: rest).reverse = last.bytes.length + weight rest := by
      rw [weight_reverse, weight_cons]
    have shorter (index : Nat) (inside : index ≤ rest.length) :
        (last :: rest).reverse.take index = rest.reverse.take index := by
      rw [List.reverse_cons, List.take_append_of_le_length (by simpa using inside)]
    rw [dropOver]
    split
    · rename_i exceeds
      obtain ⟨size, bound, kept, tally, fits, exactly⟩ :=
        inductionHypothesis (held - last.bytes.length) (by push_cast at counted; omega)
      refine ⟨size, Nat.le_succ_of_le bound, ?_, ?_, ?_, ?_⟩
      · rw [kept, shorter size bound]
      · rw [tally, shorter size bound]
      · rw [shorter size bound]
        exact fits
      · intro index inside
        rw [List.length_cons] at inside
        by_cases final : index = rest.length
        · subst final
          rw [List.take_of_length_le (by simp), whole]
          constructor
          · intro among
            omega
          · intro under
            push_cast at counted
            omega
        · rw [shorter (index + 1) (by omega)]
          exact exactly index (by omega)
    · rename_i under
      have all : (last :: rest).reverse.take (last :: rest).length = (last :: rest).reverse :=
        List.take_of_length_le (by simp)
      have fits : weight (last :: rest).reverse ≤ budget := by
        rw [whole]
        push_cast at counted
        omega
      refine ⟨(last :: rest).length, le_refl _, all.symm, ?_, ?_, ?_⟩
      · rw [all, weight_reverse, weight_cons]
        exact counted
      · rw [all]
        exact fits
      · intro index inside
        refine iff_of_true inside (le_trans ?_ fits)
        conv_rhs => rw [← List.take_append_drop (index + 1) (last :: rest).reverse, weight_append]
        omega

/-- What the loop comes to after some waits: the types that survive them, each as far as its
own pipe got. -/
structure Following (types : List String) (budget : Nat) (rounds : List (Nat → Option Answer))
    (transfer : Transfer) (size : Nat) : Prop where
  bound : size ≤ types.length
  reading : transfer.reading = (entriesAfter types rounds).take size
  held : transfer.held = weight transfer.reading
  fits : weight transfer.reading ≤ budget
  survive : ∀ index < types.length, index < size ↔ Survives types budget rounds index

/-- There are as many transfers as types. -/
@[simp] theorem entriesAfter_length (types : List String) (rounds : List (Nat → Option Answer)) :
    (entriesAfter types rounds).length = types.length := by
  simp [entriesAfter]

/-- One more wait is heard at every position. -/
theorem entriesAfter_concat (types : List String) (rounds : List (Nat → Option Answer))
    (answers : Nat → Option Answer) :
    entriesAfter types (rounds ++ [answers]) =
      (entriesAfter types rounds).mapIdx (fun index entry => hear answers index entry) := by
  rw [entriesAfter, entriesAfter, List.mapIdx_mapIdx]
  simp only [heard, List.foldl_append, List.foldl_cons, List.foldl_nil, Function.comp_def]

/-- A type survives one more wait if it did so far and still fits with those before it. The waits
before the last are those that it survived already, and the last adds the one comparison. -/
theorem survives_concat (types : List String) (budget : Nat)
    (rounds : List (Nat → Option Answer)) (answers : Nat → Option Answer) (index : Nat) :
    Survives types budget (rounds ++ [answers]) index ↔ Survives types budget rounds index ∧
      weight ((entriesAfter types (rounds ++ [answers])).take (index + 1)) ≤ budget := by
  have early (count : Nat) (bound : count ≤ rounds.length) :
      (rounds ++ [answers]).take count = rounds.take count :=
    List.take_append_of_le_length bound
  have whole : (rounds ++ [answers]).take (rounds.length + 1) = rounds ++ [answers] :=
    List.take_of_length_le (by simp)
  constructor
  · intro always
    refine ⟨fun count bound => ?_, ?_⟩
    · rw [← early count bound]
      exact always count (by rw [List.length_append]; omega)
    · rw [← whole]
      exact always (rounds.length + 1) (by simp)
  · rintro ⟨before, now⟩ count bound
    rw [List.length_append, List.length_singleton] at bound
    by_cases last : count = rounds.length + 1
    · rw [last, whole]
      exact now
    · rw [early count (by omega)]
      exact before count (by omega)

/-- The first items are changed as all of them are. -/
theorem mapIdx_take {α β : Type} (change : Nat → α → β) (items : List α) (size : Nat) :
    (items.take size).mapIdx change = (items.mapIdx change).take size := by
  refine List.ext_getElem? fun index => ?_
  rw [List.getElem?_mapIdx, List.getElem?_take, List.getElem?_take, List.getElem?_mapIdx]
  split <;> rfl

/-- Before any wait every type is there. Nothing was read yet, so all of it fits any budget. -/
theorem Following.start (types : List String) (budget : Nat) :
    Following types budget [] (.start types) types.length := by
  have empty : (Transfer.start types).reading = entriesAfter types [] := by
    rw [Transfer.start, entriesAfter]
    exact List.ext_getElem? fun index => by
      rw [List.getElem?_map, List.getElem?_mapIdx]
      rfl
  have nothing : weight (entriesAfter types []) = 0 := by
    have counted := (start_tallied types).held
    rw [empty] at counted
    exact (Int.natCast_eq_zero.mp counted.symm)
  have part (index : Nat) : weight ((entriesAfter types []).take index) ≤ budget := by
    have split := weight_append ((entriesAfter types []).take index)
      ((entriesAfter types []).drop index)
    rw [List.take_append_drop, nothing] at split
    omega
  refine ⟨le_refl _, ?_, (start_tallied types).held, ?_, fun index inside => ?_⟩
  · rw [empty, List.take_of_length_le (by simp)]
  · rw [empty, nothing]
    exact Nat.zero_le _
  · exact iff_of_true inside fun count _ => by simpa using part (index + 1)

/-- A wait is followed by what it did to each pipe, and by what then exceeds the budget. The reads
are moves, so the count is right after them, and what `dropOver` leaves is the longest part in
front that fits. -/
theorem Following.round {types : List String} {budget : Nat}
    {rounds : List (Nat → Option Answer)} {transfer : Transfer} {size : Nat}
    (following : Following types budget rounds transfer size) (answers : Nat → Option Answer) :
    ∃ less, Following types budget (rounds ++ [answers]) (transfer.round budget answers) less := by
  have read : (readReady answers 0 transfer.reading transfer.held).1 =
      (entriesAfter types (rounds ++ [answers])).take size := by
    rw [readReady_reading, following.reading, entriesAfter_concat, mapIdx_take]
    simp only [Nat.zero_add]
  have counted : (readReady answers 0 transfer.reading transfer.held).2 =
      weight ((entriesAfter types (rounds ++ [answers])).take size) := by
    obtain ⟨moves, reached⟩ := readReady_moves budget answers [] transfer.reading transfer.held
    have start : Tallied (transfer.reading.map Reading.mime) transfer :=
      ⟨following.held, List.prefix_refl _⟩
    have tallied := Runs.run_invariant (move budget) (Tallied _) (move_tallied _ budget) _ _ moves
      start reached
    have held := tallied.held
    simp only [List.nil_append, List.length_nil, read] at held
    exact held
  obtain ⟨less, bound, kept, tally, fits, exactly⟩ := dropOver_spec budget
    (readReady answers 0 transfer.reading transfer.held).1.reverse
    (readReady answers 0 transfer.reading transfer.held).2
    (by rw [counted, read, weight_reverse])
  rw [List.reverse_reverse, read] at kept tally fits
  simp only [List.length_reverse, List.reverse_reverse, read, List.length_take,
    entriesAfter_length] at bound exactly
  have within : less ≤ size := by omega
  have part (index : Nat) (inside : index ≤ size) :
      ((entriesAfter types (rounds ++ [answers])).take size).take index =
        (entriesAfter types (rounds ++ [answers])).take index := by
    rw [List.take_take, min_eq_left inside]
  have next : transfer.round budget answers = {
      reading := (entriesAfter types (rounds ++ [answers])).take less
      held := weight ((entriesAfter types (rounds ++ [answers])).take less) } := by
    rw [part less within] at kept tally
    rw [Transfer.round]
    simp only [read, kept, tally]
  rw [part less within] at fits
  rw [next]
  refine ⟨less, within.trans following.bound, rfl, rfl, fits, fun index inside => ?_⟩
  rw [survives_concat, ← following.survive index inside]
  constructor
  · intro among
    refine ⟨by omega, ?_⟩
    rw [← part (index + 1) (by omega)]
    exact (exactly index (by omega)).mp among
  · rintro ⟨among, light⟩
    refine (exactly index (by omega)).mpr ?_
    rw [part (index + 1) (by omega)]
    exact light

/-- A wait changes nothing once every pipe has ended. A pipe that ended is not read, and what fits
is not dropped. -/
theorem round_settled (budget : Nat) (transfer : Transfer) (answers : Nat → Option Answer)
    (settled : transfer.reading.all (fun entry => !entry.isOpen) = true)
    (fits : transfer.held ≤ budget) : transfer.round budget answers = transfer := by
  have unread (index : Nat) (entries : List Reading) (held : Int)
      (closed : entries.all (fun entry => !entry.isOpen) = true) :
      readReady answers index entries held = (entries, held) := by
    induction entries generalizing index with
    | nil => rfl
    | cons entry entries inductionHypothesis =>
      rw [List.all_cons, Bool.and_eq_true, Bool.not_eq_true'] at closed
      simp [readReady, closed.1, inductionHypothesis (index + 1) closed.2]
  have kept (back : List Reading) (held : Int) (under : held ≤ budget) :
      dropOver budget back held = (back, held) := by
    cases back with
    | nil => rfl
    | cons last rest => rw [dropOver, if_neg (not_lt.mpr under)]
  rw [Transfer.round]
  simp only [unread 0 transfer.reading transfer.held settled, kept _ _ fits, List.reverse_reverse]

/-- The loop comes to what all the waits before a failed one come to. The induction is on the
polls: an interrupted one does nothing, a failed one ends the loop, and once all pipes are closed
the waits that follow change nothing. -/
theorem readLoop_following (types : List String) (budget : Nat) (polls : List Poll)
    (rounds : List (Nat → Option Answer)) (transfer : Transfer) (size : Nat)
    (following : Following types budget rounds transfer size) :
    ∃ less, Following types budget (rounds ++ roundsOf polls) (readLoop budget polls transfer) less := by
  have settle (later : List (Nat → Option Answer)) (rounds : List (Nat → Option Answer))
      (transfer : Transfer) (size : Nat) (following : Following types budget rounds transfer size)
      (settled : transfer.reading.all (fun entry => !entry.isOpen) = true) :
      ∃ less, Following types budget (rounds ++ later) transfer less := by
    induction later generalizing rounds size with
    | nil => exact ⟨size, by simpa using following⟩
    | cons answers later inductionHypothesis =>
      obtain ⟨less, next⟩ := following.round answers
      have fits : transfer.held ≤ budget := by
        rw [following.held]
        exact_mod_cast following.fits
      rw [round_settled budget transfer answers settled fits] at next
      have rest := inductionHypothesis (rounds ++ [answers]) less next
      rwa [List.append_assoc] at rest
  induction polls generalizing rounds transfer size with
  | nil => exact ⟨size, by simpa [roundsOf, readLoop] using following⟩
  | cons poll polls inductionHypothesis =>
    rw [readLoop_cons]
    split
    · rename_i settled
      exact settle _ rounds transfer size following settled
    cases poll with
    | ready answers =>
      obtain ⟨less, next⟩ := following.round answers
      have assoc : rounds ++ roundsOf (.ready answers :: polls) =
          (rounds ++ [answers]) ++ roundsOf polls := by
        rw [roundsOf, List.append_assoc, List.singleton_append]
      rw [assoc]
      dsimp only
      split
      · rename_i empty
        exact settle _ _ _ less next (by rw [empty]; rfl)
      · exact inductionHypothesis _ _ less next
    | interrupted => exact inductionHypothesis rounds transfer size following
    | failed => exact ⟨size, by simpa [roundsOf] using following⟩

/-! ## What is read -/

/-- A transfer that ended hears nothing more. -/
theorem heard_closed (rounds : List (Nat → Option Answer)) (index : Nat) (entry : Reading)
    (closed : entry.isOpen = false) : heard rounds index entry = entry := by
  induction rounds with
  | nil => rfl
  | cons answers rounds inductionHypothesis =>
    have unheard : hear answers index entry = entry := by simp [hear, closed]
    rw [heard, List.foldl_cons, unheard]
    exact inductionHypothesis

/-- An open transfer becomes whole exactly when its source ends it, and then holds all of
what the source wrote. -/
theorem heard_whole (rounds : List (Nat → Option Answer)) (index : Nat) (entry : Reading)
    (isOpen : entry.isOpen = true) (unfinished : entry.whole = false) :
    match wrote (stream rounds index) with
    | some more => (heard rounds index entry).whole = true ∧
        (heard rounds index entry).bytes = entry.bytes ++ more
    | none => (heard rounds index entry).whole = false := by
  induction rounds generalizing entry with
  | nil => exact unfinished
  | cons answers rounds inductionHypothesis =>
    have next : heard (answers :: rounds) index entry =
        heard rounds index (hear answers index entry) := rfl
    cases given : answers index with
    | none =>
      have silent : stream (answers :: rounds) index = stream rounds index :=
        List.filterMap_cons_none given
      have same : hear answers index entry = entry := by simp [hear, given]
      rw [next, silent, same]
      exact inductionHypothesis entry isOpen unfinished
    | some answer =>
      have first : stream (answers :: rounds) index = answer :: stream rounds index :=
        List.filterMap_cons_some given
      have heardNow : hear answers index entry = entry.answer answer := by
        simp [hear, given, isOpen]
      rw [next, first, heardNow]
      cases answer with
      | bytes chunk =>
        cases chunk with
        | nil =>
          rw [heard_closed rounds index _ rfl]
          simp [wrote, Reading.answer]
        | cons byte chunk =>
          have rest := inductionHypothesis (entry.answer (.bytes (byte :: chunk))) isOpen unfinished
          cases written : wrote (stream rounds index) with
          | none =>
            rw [written] at rest
            simpa [wrote, written] using rest
          | some more =>
            rw [written] at rest
            have gave : (entry.answer (.bytes (byte :: chunk))).bytes =
                entry.bytes ++ (byte :: chunk) := rfl
            simp only [wrote, written, Option.map_some]
            refine ⟨rest.1, ?_⟩
            rw [rest.2, gave, List.append_assoc]
      | interrupted => exact inductionHypothesis entry isOpen unfinished
      | error =>
        rw [heard_closed rounds index _ rfl]
        exact unfinished

/-- A wait leaves the type that is read. -/
@[simp] theorem hear_mime (answers : Nat → Option Answer) (index : Nat) (entry : Reading) :
    (hear answers index entry).mime = entry.mime := by
  unfold hear
  split
  · rfl
  · exact answer_mime _ _

/-- So do several. -/
@[simp] theorem heard_mime (rounds : List (Nat → Option Answer)) (index : Nat) (entry : Reading) :
    (heard rounds index entry).mime = entry.mime := by
  induction rounds generalizing entry with
  | nil => rfl
  | cons answers rounds inductionHypothesis =>
    rw [heard, List.foldl_cons]
    exact (inductionHypothesis _).trans (hear_mime answers index entry)

/-- A transfer after some waits, in terms of its own pipe alone. What is heard of a pipe is the
stream of its own answers, up to its end. -/
theorem entriesAfter_spec (types : List String) (rounds : List (Nat → Option Answer)) (index : Nat)
    (entry : Reading) (there : (entriesAfter types rounds)[index]? = some entry) :
    types[index]? = some entry.mime ∧ ∀ bytes,
      entry.whole = true ∧ entry.bytes = bytes ↔ wrote (stream rounds index) = some bytes := by
  rw [entriesAfter, List.getElem?_mapIdx, Option.map_eq_some_iff] at there
  obtain ⟨mime, among, rfl⟩ := there
  refine ⟨by rw [among, heard_mime, Reading.start], fun bytes => ?_⟩
  have whole := heard_whole rounds index (.start mime) rfl rfl
  cases written : wrote (stream rounds index) with
  | none =>
    rw [written] at whole
    simp [whole]
  | some more =>
    rw [written] at whole
    rw [whole.1, whole.2, Option.some.injEq]
    exact and_iff_right rfl

/-- Every representation whose source ended it, with all of its bytes. -/
def wholeReps (types : List String) (rounds : List (Nat → Option Answer)) : List Rep :=
  types.zipIdx.filterMap (fun (mime, index) =>
    (wrote (stream rounds index)).map (fun bytes => { mime, bytes }))

/-- A selection is read as it should be: the count is right at every move, what is dropped is
the last there is, and what comes out is nothing or starts with the first type, in the order
of the types, whole, and within the budget. -/
structure ReadsWhole (types : List String) (budget : Nat) (polls : List Poll) : Prop where
  counted : ∃ moves, Runs.run (move budget) (.start types) moves =
      some (readLoop budget polls (.start types)) ∧
    ∀ early late transfer, moves = early ++ late →
      Runs.run (move budget) (.start types) early = some transfer → Tallied types transfer
  first : readSelection types budget polls = [] ∨ ∃ mime bytes, types.head? = some mime ∧
    wrote (stream (roundsOf polls) 0) = some bytes ∧
      (readSelection types budget polls).head? = some { mime, bytes }
  ordered : ((readSelection types budget polls).map Rep.mime).Sublist types
  whole : (readSelection types budget polls).Sublist (wholeReps types (roundsOf polls))
  fits : ((readSelection types budget polls).map (fun rep => rep.bytes.length)).sum ≤ budget

/-- The first source ended without writing anything, and another wrote something, ended, and
was kept. -/
def EmptyFirst (types : List String) (budget : Nat) (polls : List Poll) : Prop :=
  wrote (stream (roundsOf polls) 0) = some [] ∧ ∃ index bytes, 0 < index ∧ index < types.length ∧
    Survives types budget (roundsOf polls) index ∧
      wrote (stream (roundsOf polls) index) = some bytes ∧ bytes ≠ []

/-- What a transfer that ended is as a representation. -/
def Reading.rep (entry : Reading) : Rep := { mime := entry.mime, bytes := entry.bytes }

/-- The whole representations are the whole transfers, had none been dropped. -/
theorem wholeReps_eq (types : List String) (rounds : List (Nat → Option Answer)) :
    wholeReps types rounds =
      ((entriesAfter types rounds).filter (fun entry => entry.whole)).map Reading.rep := by
  have pairs : entriesAfter types rounds = types.zipIdx.map
      (fun pair => heard rounds pair.2 (.start pair.1)) := by
    rw [entriesAfter, List.mapIdx_eq_zipIdx_map]
  rw [wholeReps, pairs, List.filter_map, List.map_map, ← List.filterMap_eq_map,
    List.filterMap_filter]
  refine List.filterMap_congr fun (mime, index) member => ?_
  have whole := heard_whole rounds index (.start mime) rfl rfl
  cases written : wrote (stream rounds index) with
  | none =>
    rw [written] at whole
    simp [whole, written]
  | some more =>
    rw [written] at whole
    simp only [Function.comp_apply, whole.1, whole.2, Reading.rep, if_true, written,
      Option.map_some, Option.some.injEq, Rep.mk.injEq]
    exact ⟨(heard_mime rounds index (.start mime)).symm, rfl⟩

/-- The loop follows its waits from the start. -/
theorem readLoop_start (types : List String) (budget : Nat) (polls : List Poll) :
    ∃ size, Following types budget (roundsOf polls) (readLoop budget polls (.start types)) size := by
  simpa using readLoop_following types budget polls [] _ _ (Following.start types budget)

/-- Where the first type arrived whole, the result is what arrived whole and not empty. -/
theorem result_eq (transfer : Transfer)
    (first : transfer.reading.head?.any (fun entry => entry.whole) = true) :
    transfer.result = (transfer.reading.filter
      (fun entry => entry.whole && entry.bytes != [])).map Reading.rep := by
  rw [Transfer.result, if_pos first]
  rfl

/-- What comes out is whole transfers among those that are left. -/
theorem result_sublist (transfer : Transfer) : transfer.result.Sublist
    ((transfer.reading.filter (fun entry => entry.whole)).map Reading.rep) := by
  cases first : transfer.reading.head?.any (fun entry => entry.whole) with
  | false => simp [Transfer.result, first]
  | true =>
    rw [result_eq transfer first, ← List.filter_filter]
    refine List.Sublist.map Reading.rep ?_
    rw [List.filter_filter, List.filter_congr (fun entry _ => Bool.and_comm _ _),
      ← List.filter_filter]
    exact List.filter_sublist

/-- In what comes out every representation holds something. -/
theorem result_nonempty (transfer : Transfer) (rep : Rep) (member : rep ∈ transfer.result) :
    ∃ entry ∈ transfer.reading, entry.whole = true ∧ entry.bytes ≠ [] ∧ rep = entry.rep := by
  cases first : transfer.reading.head?.any (fun entry => entry.whole) with
  | false => simp [Transfer.result, first] at member
  | true =>
    rw [result_eq transfer first, List.mem_map] at member
    obtain ⟨entry, kept, rfl⟩ := member
    simp only [List.mem_filter, Bool.and_eq_true, bne_iff_ne] at kept
    exact ⟨entry, kept.1, kept.2.1, kept.2.2, rfl⟩

/-- The transfers are of the types asked for. -/
theorem entriesAfter_mime (types : List String) (rounds : List (Nat → Option Answer)) :
    (entriesAfter types rounds).map Reading.mime = types := by
  refine List.ext_getElem? fun index => ?_
  rw [List.getElem?_map, entriesAfter, List.getElem?_mapIdx, Option.map_map]
  cases types[index]? with
  | none => rfl
  | some mime => simp [Reading.start]

/-- What comes out is whole and comes in order. -/
theorem readSelection_whole (types : List String) (budget : Nat) (polls : List Poll) :
    (readSelection types budget polls).Sublist (wholeReps types (roundsOf polls)) := by
  obtain ⟨size, following⟩ := readLoop_start types budget polls
  refine (result_sublist _).trans ?_
  rw [wholeReps_eq, following.reading]
  exact ((List.take_sublist size _).filter _).map Reading.rep

/-- What is read is of types asked for, in their order. -/
theorem readSelection_ordered (types : List String) (budget : Nat) (polls : List Poll) :
    ((readSelection types budget polls).map Rep.mime).Sublist types := by
  refine ((readSelection_whole types budget polls).map Rep.mime).trans ?_
  rw [wholeReps_eq, List.map_map]
  have among := (List.filter_sublist (p := fun entry => entry.whole)
    (l := entriesAfter types (roundsOf polls))).map Reading.mime
  rwa [entriesAfter_mime] at among

/-- What is read fits the budget. -/
theorem readSelection_fits (types : List String) (budget : Nat) (polls : List Poll) :
    ((readSelection types budget polls).map (fun rep => rep.bytes.length)).sum ≤ budget := by
  obtain ⟨size, following⟩ := readLoop_start types budget polls
  refine le_trans ?_ following.fits
  have among := (result_sublist (readLoop budget polls (.start types))).map
    (fun rep => rep.bytes.length)
  rw [List.map_map] at among
  exact (among.trans (List.filter_sublist.map _)).sum_le_sum (fun _ _ => Nat.zero_le _)

/-- The transfer at a place is there in the end exactly when its type survives. The types that
survive are those in front, and each is read as its own pipe says. -/
theorem Following.getElem {types : List String} {budget : Nat}
    {rounds : List (Nat → Option Answer)} {transfer : Transfer} {size : Nat}
    (following : Following types budget rounds transfer size) (index : Nat) (entry : Reading) :
    transfer.reading[index]? = some entry ↔
      Survives types budget rounds index ∧ (entriesAfter types rounds)[index]? = some entry := by
  rw [following.reading, List.getElem?_take]
  by_cases inside : index < types.length
  · rw [← following.survive index inside]
    split
    · rename_i among
      simp [among]
    · rename_i dropped
      simp [dropped]
  · have past : (entriesAfter types rounds)[index]? = none := by
      rw [List.getElem?_eq_none_iff, entriesAfter_length]
      omega
    simp [past]

/-- A selection is read as it should be exactly when its first source did not end without
writing anything while another type that was kept holds something. -/
theorem reads_whole_iff (types : List String) (budget : Nat) (polls : List Poll) :
    ReadsWhole types budget polls ↔ ¬ EmptyFirst types budget polls := by
  obtain ⟨size, following⟩ := readLoop_start types budget polls
  constructor
  · rintro reads ⟨nothing, index, bytes, later, inside, survives, written, something⟩
    obtain ⟨entry, there⟩ : ∃ entry, (entriesAfter types (roundsOf polls))[index]? = some entry :=
      ⟨_, List.getElem?_eq_getElem (by rw [entriesAfter_length]; exact inside)⟩
    have kept := (following.getElem index entry).mpr ⟨survives, there⟩
    obtain ⟨whole, holds⟩ := ((entriesAfter_spec types _ index entry there).2 bytes).mpr written
    obtain ⟨first, front⟩ : ∃ first, (readLoop budget polls (.start types)).reading[0]? =
        some first := by
      have room := (List.getElem?_eq_some_iff.mp kept).1
      exact ⟨_, List.getElem?_eq_getElem (by omega)⟩
    have firstThere := ((following.getElem 0 first).mp front).2
    have firstWhole := (((entriesAfter_spec types _ 0 first firstThere).2 []).mpr nothing).1
    have starts : (readLoop budget polls (.start types)).reading.head?.any
        (fun entry => entry.whole) = true := by
      rw [List.head?_eq_getElem?, front]
      exact firstWhole
    have member : entry.rep ∈ readSelection types budget polls := by
      rw [readSelection, result_eq _ starts]
      refine List.mem_map_of_mem (List.mem_filter.mpr ⟨List.mem_of_getElem? kept, ?_⟩)
      rw [whole, holds]
      simpa using something
    obtain empty | ⟨mime, wroteFirst, _, ended, head⟩ := reads.first
    · rw [empty] at member
      cases member
    · obtain rfl : [] = wroteFirst := Option.some.inj (nothing.symm.trans ended)
      obtain ⟨source, _, _, holdsFirst, same⟩ := result_nonempty _ _ (List.mem_of_mem_head? head)
      exact holdsFirst (congrArg Rep.bytes same).symm
  · intro filled
    obtain ⟨moves, reached⟩ := readLoop_moves budget polls (.start types)
    refine ⟨⟨moves, reached, ?_⟩, ?_, readSelection_ordered types budget polls,
      readSelection_whole types budget polls, readSelection_fits types budget polls⟩
    · intro early late transfer _ through
      exact Runs.run_invariant (move budget) (Tallied types) (move_tallied types budget) _ _ early
        (start_tallied types) through
    · cases starts : (readLoop budget polls (.start types)).reading.head?.any
          (fun entry => entry.whole) with
      | false =>
        left
        rw [readSelection, Transfer.result, starts]
        rfl
      | true =>
        obtain ⟨first, front, firstWhole⟩ := (Option.any_eq_true _ _).mp starts
        have there := front
        rw [List.head?_eq_getElem?, following.getElem] at there
        obtain ⟨named, spec⟩ := entriesAfter_spec types _ 0 first there.2
        have ended := (spec first.bytes).mp ⟨firstWhole, rfl⟩
        obtain ⟨rest, split⟩ := List.head?_eq_some_iff.mp front
        by_cases something : first.bytes = []
        · left
          rw [List.eq_nil_iff_forall_not_mem]
          intro rep member
          obtain ⟨entry, kept, whole, holds, _⟩ := result_nonempty _ rep member
          obtain ⟨index, place⟩ := List.mem_iff_getElem?.mp kept
          obtain ⟨survives, source⟩ := (following.getElem index entry).mp place
          have inside := (List.getElem?_eq_some_iff.mp source).1
          rw [entriesAfter_length] at inside
          have later : 0 < index := by
            rcases Nat.eq_zero_or_pos index with rfl | positive
            · rw [there.2, Option.some.injEq] at source
              exact absurd (source ▸ something) holds
            · exact positive
          have written := ((entriesAfter_spec types _ index entry source).2 entry.bytes).mp
            ⟨whole, rfl⟩
          exact filled ⟨something ▸ ended, index, entry.bytes, later, inside, survives, written, holds⟩
        · right
          refine ⟨first.mime, first.bytes, by rw [List.head?_eq_getElem?, named], ended, ?_⟩
          have kept : (first.whole && first.bytes != []) = true := by
            simpa [firstWhole] using something
          rw [readSelection, result_eq _ starts, split, List.filter_cons, if_pos kept]
          rfl

/-- A text that is offered and never written, beside an image that is. -/
def emptyText : List Poll :=
  [.ready (fun index => if index = 0 then some (.bytes []) else some (.bytes [137])),
    .ready (fun _ => some (.bytes []))]

/-- The image is read, and as if it were the selection. -/
theorem another_type_is_read_first :
    readSelection ["text/plain", "image/png"] 10 emptyText =
        [{ mime := "image/png", bytes := [137] }] ∧
      ¬ ReadsWhole ["text/plain", "image/png"] 10 emptyText := by
  have read : readSelection ["text/plain", "image/png"] 10 emptyText =
      [{ mime := "image/png", bytes := [137] }] := by
    decide
  refine ⟨read, fun reads => ?_⟩
  obtain empty | ⟨mime, bytes, named, _, head⟩ := reads.first
  · rw [read] at empty
    cases empty
  · rw [read, List.head?_cons, Option.some.injEq, Rep.mk.injEq] at head
    rw [List.head?_cons, Option.some.injEq] at named
    exact absurd (named.trans head.1.symm) (by decide)

end Yank.Wayland
