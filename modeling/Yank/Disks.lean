import Mathlib

/-!
# Files by where they are asked for

A place is the steps a path takes. What is asked for at a place happens there as long as every
step on the way is a folder. A link on the way, or at the place, leads elsewhere: what happens
then is not at the place, and all that is said of it is that the link was followed.

Folders are created on the way to a place, down from the first one that is missing. So what
goes wrong half way leaves folders above the place and nothing else.
-/

namespace Disks

variable {Step : Type}

inductive Node where
  | file
  | folder
  | link
deriving DecidableEq

/-- What was done where. -/
inductive Touch (Step : Type) where
  /-- A folder was created. -/
  | made (place : List Step)
  /-- A file was created or written. -/
  | wrote (place : List Step)
  | followed (place : List Step)
deriving DecidableEq

structure Disk (Step : Type) where
  node : List Step → Option Node
  touched : List (Touch Step)

/-- How a write ends. -/
inductive Luck where
  | works
  /-- It fails when something was written already. -/
  | cut
  | fails
deriving DecidableEq

namespace Disk

/-- A disk before anything is done. -/
def untouched (node : List Step → Option Node) : Disk Step where
  node := node
  touched := []

def follow (place : List Step) (disk : Disk Step) : Disk Step :=
  { disk with touched := disk.touched ++ [.followed place] }

/-- Does each item's work in turn, up to the first that fails. -/
def allOf {Item : Type} (act : Item → Disk Step → Bool × Disk Step) :
    List Item → Disk Step → Bool × Disk Step
  | [], disk => (true, disk)
  | item :: items, disk =>
      if (act item disk).1 then allOf act items (act item disk).2 else (false, (act item disk).2)

/-- Nothing is where its folder is not. -/
def Grounded (disk : Disk Step) : Prop :=
  ∀ place more, disk.node place = none → disk.node (place ++ more) = none

variable [DecidableEq Step]

def put (place : List Step) (node : Node) (touch : Touch Step) (disk : Disk Step) : Disk Step where
  node := Function.update disk.node place (some node)
  touched := disk.touched ++ [touch]

/-- What is put somewhere is there. -/
@[simp] theorem put_node_self (place : List Step) (node : Node) (touch : Touch Step)
    (disk : Disk Step) : (disk.put place node touch).node place = some node :=
  Function.update_self _ _ _

/-- Elsewhere there is what was there. -/
theorem put_node_of_ne (place other : List Step) (node : Node) (touch : Touch Step)
    (disk : Disk Step) (apart : other ≠ place) :
    (disk.put place node touch).node other = disk.node other :=
  Function.update_of_ne apart _ _

/-- One folder. A folder that is there will do, and so will a link that leads to one. -/
def createDir (works : List Step → Bool) (place : List Step) (disk : Disk Step) :
    Bool × Disk Step :=
  match disk.node place with
  | some .folder => (true, disk)
  | some .link => (works place, disk.follow place)
  | some .file => (false, disk)
  | none => if works place then (true, disk.put place .folder (.made place)) else (false, disk)

/-- A folder and those above it. -/
def createDirAll (works : List Step → Bool) (place : List Step) (disk : Disk Step) :
    Bool × Disk Step :=
  allOf (createDir works) place.inits.tail disk

/-- Writes a file, over what is there. -/
def copy (luck : Luck) (place : List Step) (disk : Disk Step) : Bool × Disk Step :=
  if luck = .fails then (false, disk)
  else
    match disk.node place with
    | some .folder => (false, disk)
    | some .link => (luck = .works, disk.follow place)
    | _ => (luck = .works, disk.put place .file (.wrote place))

/-- Gives a file another name, where there is nothing. -/
def hardLink (works : Bool) (place : List Step) (disk : Disk Step) : Bool × Disk Step :=
  match disk.node place with
  | none => if works then (true, disk.put place .file (.wrote place)) else (false, disk)
  | some _ => (false, disk)

/-- Removes a folder and what is in it, or what of it can be removed. -/
def removeAll (gone : List Step → Bool) (place : List Step) (disk : Disk Step) : Disk Step :=
  { disk with node := fun other =>
      if place <+: other ∧ gone other = true then none else disk.node other }

end Disk

/-! ## What stays within a folder -/

/-- Strictly below a folder, in one of some entries. -/
def Inside (base : List Step) (entries : Step → Prop) (place : List Step) : Prop :=
  ∃ top more, place = base ++ top :: more ∧ entries top

/-- Something done within a folder: folders are created on the way to it where they are missing,
and inside; files inside only; and what is followed is on the way to it, or was a link inside
before. -/
inductive Within (base : List Step) (entries : Step → Prop) (before : Disk Step) :
    Touch Step → Prop where
  | above (place : List Step) (isAbove : place <+: base) (missing : before.node place = none) :
      Within base entries before (.made place)
  | through (place : List Step) (isAbove : place <+: base) :
      Within base entries before (.followed place)
  | made (place : List Step) (inside : Inside base entries place) :
      Within base entries before (.made place)
  | wrote (place : List Step) (inside : Inside base entries place) :
      Within base entries before (.wrote place)
  | strayed (place : List Step) (inside : Inside base entries place)
      (known : before.node place = some .link) : Within base entries before (.followed place)

variable {base : List Step} {entries : Step → Prop}

/-- All that was done since was done within a folder, no link came about inside, and what was
there is there. -/
structure Contained (base : List Step) (entries : Step → Prop) (before disk : Disk Step) :
    Prop where
  touches : ∀ touch ∈ disk.touched, touch ∈ before.touched ∨ Within base entries before touch
  links : ∀ place, Inside base entries place → disk.node place = some .link →
    before.node place = some .link
  grows : ∀ place, disk.node place = none → before.node place = none

/-- What is above a place inside is inside too, or above the folder. -/
theorem above_cases (place early : List Step)
    (whereabouts : place <+: base ∨ Inside base entries place) (isAbove : early <+: place) :
    early <+: base ∨ Inside base entries early := by
  obtain up | ⟨top, more, rfl, fits⟩ := whereabouts
  · exact Or.inl (isAbove.trans up)
  · obtain up | ⟨rest, rfl⟩ :=
      List.prefix_or_prefix_of_prefix isAbove (List.prefix_append base (top :: more))
    · exact Or.inl up
    · cases rest with
      | nil => exact Or.inl (by simp)
      | cons first rest =>
        have below := (List.prefix_append_right_inj base).mp isAbove
        obtain ⟨rfl, _⟩ := List.cons_prefix_cons.mp below
        exact Or.inr ⟨first, rest, rfl, fits⟩

namespace Disk

/-- What each act keeps, a list of acts keeps, as far as it gets. -/
theorem allOf_keeps {Item : Type} (act : Item → Disk Step → Bool × Disk Step)
    (invariant : Disk Step → Prop) (allowed : Item → Prop)
    (kept : ∀ item disk, allowed item → invariant disk → invariant (act item disk).2)
    (items : List Item) (disk : Disk Step) (each : ∀ item ∈ items, allowed item)
    (held : invariant disk) : invariant (allOf act items disk).2 := by
  induction items generalizing disk with
  | nil => exact held
  | cons item items inductionHypothesis =>
    rw [List.forall_mem_cons] at each
    have next := kept item disk each.1 held
    rw [allOf]
    split
    · exact inductionHypothesis _ each.2 next
    · exact next

end Disk

namespace Contained
variable {before disk : Disk Step}

/-- Nothing was touched yet. -/
theorem refl : Contained base entries disk disk where
  touches _ member := Or.inl member
  links _ _ isLink := isLink
  grows _ missing := missing

/-- Following a link inside the base, or on the way to it, leaves everything contained. -/
theorem follow (contained : Contained base entries before disk) (place : List Step)
    (isLink : disk.node place = some .link)
    (whereabouts : place <+: base ∨ Inside base entries place) :
    Contained base entries before (disk.follow place) where
  touches touch member := by
    obtain member | among := List.mem_append.mp member
    · exact contained.touches touch member
    · obtain rfl := List.mem_singleton.mp among
      obtain isAbove | inside := whereabouts
      · exact Or.inr (.through place isAbove)
      · exact Or.inr (.strayed place inside (contained.links place inside isLink))
  links := contained.links
  grows := contained.grows

variable [DecidableEq Step]

/-- So does putting a file or a folder there. What is put there is no link, so no path leads
anywhere else by it. -/
theorem put (contained : Contained base entries before disk) (place : List Step)
    (node : Node) (touch : Touch Step) (solid : node ≠ .link)
    (within : Within base entries before touch) :
    Contained base entries before (disk.put place node touch) where
  touches other member := by
    obtain member | among := List.mem_append.mp member
    · exact contained.touches other member
    · obtain rfl := List.mem_singleton.mp among
      exact Or.inr within
  links other inside isLink := by
    by_cases same : other = place
    · subst same
      rw [Disk.put_node_self, Option.some.injEq] at isLink
      exact absurd isLink solid
    · rw [Disk.put_node_of_ne place other node touch disk same] at isLink
      exact contained.links other inside isLink
  grows other missing := by
    by_cases same : other = place
    · subst same
      rw [Disk.put_node_self] at missing
      cases missing
    · rw [Disk.put_node_of_ne place other node touch disk same] at missing
      exact contained.grows other missing

/-- So does making a folder on the way or inside. A folder is made only where nothing is, and a
link on the way was there before. -/
theorem createDir (contained : Contained base entries before disk)
    (works : List Step → Bool) (place : List Step)
    (whereabouts : place <+: base ∨ Inside base entries place) :
    Contained base entries before (disk.createDir works place).2 := by
  unfold Disk.createDir
  split
  · exact contained
  · rename_i isLink
    exact contained.follow place isLink whereabouts
  · exact contained
  · rename_i missing
    split
    · refine contained.put place .folder (.made place) (by decide) ?_
      obtain isAbove | inside := whereabouts
      · exact .above place isAbove (contained.grows place missing)
      · exact .made place inside
    · exact contained

/-- Folders are created on the way to a place within. -/
theorem createDirAll (contained : Contained base entries before disk)
    (works : List Step → Bool) (place : List Step)
    (whereabouts : place <+: base ∨ Inside base entries place) :
    Contained base entries before (disk.createDirAll works place).2 := by
  refine Disk.allOf_keeps _ _ (fun early => early <+: place) ?_ _ disk ?_ contained
  · intro early disk isAbove held
    exact held.createDir works early (above_cases place early whereabouts isAbove)
  · intro early member
    exact (List.mem_inits _ _).mp (List.mem_of_mem_tail member)

/-- So does copying to a place inside. -/
theorem copy (contained : Contained base entries before disk) (luck : Luck)
    (place : List Step) (inside : Inside base entries place) :
    Contained base entries before (disk.copy luck place).2 := by
  unfold Disk.copy
  split
  · exact contained
  · split
    · exact contained
    · rename_i isLink
      exact contained.follow place isLink (Or.inr inside)
    · exact contained.put place .file (.wrote place) (by decide) (.wrote place inside)

/-- And so does linking there. -/
theorem hardLink (contained : Contained base entries before disk) (works : Bool)
    (place : List Step) (inside : Inside base entries place) :
    Contained base entries before (disk.hardLink works place).2 := by
  unfold Disk.hardLink
  split
  · split
    · exact contained.put place .file (.wrote place) (by decide) (.wrote place inside)
    · exact contained
  · exact contained

end Contained

/-- Below an entry that is not there nothing is, so no link either. -/
theorem Within.straight {before : Disk Step} {touch : Touch Step}
    (within : Within base entries before touch) (grounded : before.Grounded)
    (absent : ∀ top, entries top → before.node (base ++ [top]) = none) (place : List Step)
    (isFollowed : touch = .followed place) : place <+: base := by
  cases within with
  | through other isAbove =>
    obtain rfl := Touch.followed.inj isFollowed
    exact isAbove
  | strayed other inside known =>
    obtain ⟨top, more, rfl, fits⟩ := inside
    have nothing := grounded _ more (absent top fits)
    rw [List.append_assoc, List.singleton_append, known] at nothing
    cases nothing
  | _ => cases isFollowed

/-- Where the folder is there, what is created or written is strictly below it. A folder above it
would have been made only where it was missing. -/
theorem Within.strict {before : Disk Step} {touch : Touch Step}
    (within : Within base entries before touch)
    (stands : ∀ place, place <+: base → before.node place ≠ none) (place : List Step)
    (changed : touch = .made place ∨ touch = .wrote place) : Inside base entries place := by
  cases within with
  | above other isAbove missing => exact absurd missing (stands other isAbove)
  | made other inside =>
    obtain made | impossible := changed
    · obtain rfl := Touch.made.inj made
      exact inside
    · cases impossible
  | wrote other inside =>
    obtain impossible | wrote := changed
    · cases impossible
    · obtain rfl := Touch.wrote.inj wrote
      exact inside
  | _ => simp at changed

end Disks
