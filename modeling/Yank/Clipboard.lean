import Yank.Copy

/-!
# The clipboard as a state machine

The mesh shares one clip and the one with the newest stamp wins everywhere. A
copy here, a clip from a peer and a clear are the same move: a newer stamp
replaces an older one. Mutations return effects and the caller performs them.

Every operation returns the state it leaves and either its effects or the error
it ends in, so that what an error leaves behind is part of what is said about
it. A clock supplies one reading for each place an operation asks for the time.
-/

namespace Yank

/-- One representation to hand a pasting application, and every type it is
announced under. -/
structure Serve where
  mimes : List String
  bytes : Bytes
deriving DecidableEq

/-- What the daemon asks a backend to do. -/
inductive Command where
  | offer (serves : List Serve)
  | clear
deriving DecidableEq

/-- What a mutation asks the caller to do. -/
inductive Effect (Id : Type) where
  | save
  | backend (command : Command)
  | fetch (stamp : Stamp Id)
deriving DecidableEq

/-- A selection read off the local clipboard. -/
structure Captured where
  selection : Selection
  /-- Whether the source flagged this as a password. -/
  secret : Bool
deriving DecidableEq

/-- What the system clock answers at each place an operation asks it. -/
structure Clock where
  /-- Read by `Stamp::next`. -/
  stamp : SystemTime
  /-- Read by `Stamp::is_plausible`. -/
  believed : SystemTime
  /-- Read by `Clipboard::set`. -/
  set : SystemTime
  /-- Read for `Clipboard::lapse`. -/
  lapse : SystemTime
deriving DecidableEq

/-- The clipboard of one machine. -/
structure Clipboard (Id : Type) (Hash : Type) where
  origin : Id
  settings : Settings
  /-- `none` until anything was copied anywhere. -/
  clip : Option (Clip Id Hash)
  /-- When the copy disappears, if it has a lifetime. -/
  expires : Option SystemTime
  /-- The clip last put on the local clipboard, whether or not it is still
  there. -/
  applied : Option (Stamp Id)
  /-- What the clip's first representation was when served. -/
  served : Option Hash
  /-- Where the clip's files are laid out here, once they are. -/
  tree : Option Path
deriving DecidableEq

variable {Id : Type} {Hash : Type}

/-- What an operation leaves and what it answers. -/
abbrev Outcome (Id : Type) (Hash : Type) :=
  Clipboard Id Hash × Except Failure (List (Effect Id))

/-- The effects an outcome asks for: none after an error. -/
def effectsOf (outcome : Outcome Id Hash) : List (Effect Id) :=
  match outcome.2 with
  | .error _ => []
  | .ok effects => effects

/-- What the compositor is handed for a selection, after `serves`: types already
announced are left out, and a representation with none left is too. -/
def servesFrom : List Rep → List Serve → List Serve
  | [], serves => serves
  | rep :: reps, serves =>
      let mimes := (Mime.aliases rep.mime).filter
        (fun mime => !serves.any (fun serve => serve.mimes.contains mime))
      if mimes = [] then servesFrom reps serves
      else servesFrom reps (serves ++ [{ mimes, bytes := rep.bytes }])

/-- Every representation under its own type, text under all of its names. -/
def serves (selection : Selection) : List Serve := servesFrom selection.reps []

/-- The selection with its file references taken out. A copy that was nothing
but paths keeps them as text. -/
def stripped (copy : Copy Hash) : Selection :=
  let (paths, kept) := copy.selection.reps.partition (fun rep => Mime.isLocal rep.mime)
  match Selection.new kept with
  | some selection => selection
  | none =>
      -- Nothing was kept, so the primary is among the paths and one is found.
      let named := (paths.find? (fun rep => Mime.eqIgnoreAsciiCase rep.mime Mime.uriList)).or
        paths.head?
      Selection.of { mime := Mime.plainText, bytes := (named.getD copy.selection.primary).bytes }

/-- The selection, naming the copies of its files that are on this machine. -/
def rehomed (copy : Copy Hash) (tree : Path) : Selection :=
  let selection := Selection.ofFiles (copy.files.map (fun file => Files.join tree file.path))
  { selection with
    alternates := selection.alternates ++ copy.selection.reps.filter
      (fun rep => !Mime.isLocal rep.mime && !Mime.isText rep.mime) }

/-- Drops alternates from the back, the last one first, while `size` is over the
cap; `none` when the primary alone is. -/
def fitReversed (cap : Nat) : Nat → List Rep → Option (List Rep)
  | size, [] => if size ≤ cap then some [] else none
  | size, last :: rest =>
      if size ≤ cap then some (last :: rest)
      else fitReversed cap (size - last.bytes.length) rest

/-- What announces a secret to clipboard managers. -/
def secretServe : Serve where
  mimes := [Mime.secretHint]
  bytes := Files.utf8 "secret"

namespace Clipboard

/-- The stamp of the clip, below every stamp when there is none. -/
def head (board : Clipboard Id Hash) : WithBot (Stamp Id) :=
  board.clip.map (fun clip => clip.stamp)

/-- What the clipboard holds and its stamp, `none` when it is empty. -/
def current (board : Clipboard Id Hash) : Option (Stamp Id × Copy Hash) :=
  board.clip.bind (fun clip => clip.copy.map (fun copy => (clip.stamp, copy)))

/-- What to write to disk. A secret is saved as a clear. -/
def saved (board : Clipboard Id Hash) : Option (Clip Id Hash) :=
  board.clip.map (fun clip =>
    match clip.copy with
    | some copy => if copy.secret then { stamp := clip.stamp, copy := none } else clip
    | none => clip)

/-- Makes `clip` the current one. A lifetime counts from the stamp, but never
from later than now. -/
def set (now : SystemTime) (clip : Clip Id Hash) (board : Clipboard Id Hash) :
    Clipboard Id Hash :=
  { board with
    expires := clip.copy.bind (fun copy => copy.ttl.map (fun ttl =>
      min clip.stamp.time now + (ttl.toNat : Int) * 1000000000))
    served := none
    tree := none
    clip := some clip }

/-- Whether the lifetime has run out. -/
def hasLapsed (now : SystemTime) (board : Clipboard Id Hash) : Bool :=
  board.expires.any (fun deadline => deadline ≤ now)

/-- Drops the copy if its lifetime has run out, keeping its stamp. The clip it
sets has no lifetime, so the reading `set` takes for it does not matter. -/
def lapse (now : SystemTime) (board : Clipboard Id Hash) : Clipboard Id Hash :=
  match board.hasLapsed now, board.clip with
  | true, some clip => board.set now { stamp := clip.stamp, copy := none }
  | _, _ => board

/-- The lifetime a copy gets: what was asked for, or the configured default when
it is a secret and nothing was asked. -/
def lifetime (board : Clipboard Id Hash) (secret : Bool) (ttl : Option Duration) :
    Option UInt32 :=
  (ttl.or (if secret then some board.settings.secretTtl else none)).map
    (fun ttl => UInt32.ofNat (min (asSecs ttl) (2 ^ 32 - 1)))

/-- Drops the alternates that do not fit the size cap, from the back. -/
def fit (board : Clipboard Id Hash) (selection : Selection) : Option Selection :=
  (fitReversed board.settings.maxBytes selection.size selection.alternates.reverse).map
    (fun kept => { selection with alternates := kept.reverse })

/-- What `captured` records of a selection that fits. -/
def capturedCopy (board : Clipboard Id Hash) (capture : Captured) (selection : Selection)
    (files : List (Files.FileRef Hash)) : Copy Hash where
  selection := selection
  secret := capture.secret
  ttl := board.lifetime capture.secret none
  files := files

section Order
variable [LinearOrder Id]

/-- Whether the clip was made on this machine. -/
def isOurs (board : Clipboard Id Hash) : Bool :=
  board.clip.any (fun clip => clip.stamp.origin = board.origin)

/-- The representations of the copy that mean anything on this machine. -/
def carried (board : Clipboard Id Hash) (copy : Copy Hash) : Selection :=
  match board.tree with
  | some tree => rehomed copy tree
  | none => if board.isOurs then copy.selection else stripped copy

variable [ContentHash Hash]

/-- What the local clipboard is offered for the copy. -/
def offered (board : Clipboard Id Hash) (copy : Copy Hash) : List Serve :=
  serves (board.carried copy) ++ if copy.secret then [secretServe] else []

/-- Brings the local clipboard in line with a clip that just changed. -/
def apply (board : Clipboard Id Hash) : Clipboard Id Hash × List (Effect Id) :=
  if !board.settings.apply then (board, [])
  else match board.clip with
    | none => (board, [])
    | some clip =>
      match clip.copy with
      | some copy =>
          ({ board with
              applied := some clip.stamp
              served := some (ContentHash.of (board.carried copy).primary.bytes) },
            (if copy.isFiles && board.settings.files && !board.isOurs && board.tree.isNone then
                [.fetch clip.stamp]
              else []) ++ [.backend (.offer (board.offered copy))])
      | none =>
          if board.applied.isSome then ({ board with applied := none }, [.backend .clear])
          else (board, [])

/-- Resumes from what was saved. Nothing reaches the clipboard for it. -/
def new (clock : Clock) (origin : Id) (settings : Settings) (saved : Option (Clip Id Hash)) :
    Clipboard Id Hash :=
  let board : Clipboard Id Hash :=
    { origin, settings, clip := none, expires := none, applied := none, served := none,
      tree := none }
  match saved with
  | none => board
  -- Remembered as applied, to recognize it when reported back.
  | some clip => (((board.set clock.set clip).lapse clock.lapse).apply).1

/-- Makes a new clip from this machine the current one, `none` when its stamp
overflows. -/
def replace (clock : Clock) (copy : Option (Copy Hash)) (board : Clipboard Id Hash) :
    Option (Clipboard Id Hash) :=
  (Stamp.next clock.stamp board.head board.origin).map
    (fun stamp => board.set clock.set { stamp, copy })

/-- What `copy` records of what it was asked to, when nothing refuses it. -/
def toCopy (board : Clipboard Id Hash) (selection : Selection)
    (files : List (Files.FileRef Hash)) (secret : Bool) (ttl : Option Duration) :
    Except Failure (Copy Hash) := do
  ensure (0 < selection.size) .nothingToCopy
  ensure (selection.size ≤ board.settings.maxBytes) .overLimit
  let copy : Copy Hash := { selection, secret, ttl := board.lifetime secret ttl, files }
  copy.check
  return copy

/-- Records something copied on this machine, from `yank copy`: shares it and
puts it on the clipboard. -/
def copy (clock : Clock) (selection : Selection) (files : List (Files.FileRef Hash))
    (secret : Bool) (ttl : Option Duration) (board : Clipboard Id Hash) : Outcome Id Hash :=
  match board.toCopy selection files secret ttl with
  | .error failure => (board, .error failure)
  | .ok copy =>
      match board.replace clock (some copy) with
      | none => (board, .error .overflow)
      | some replaced => (replaced.apply.1, .ok (.save :: replaced.apply.2))

/-- Whether bytes read off the clipboard are the clip's own first
representation, or what it was when served. -/
def isEcho (board : Clipboard Id Hash) [DecidableEq Hash] (bytes : Bytes) : Bool :=
  match board.current with
  | some (_, copy) =>
      copy.selection.primary.bytes == bytes || board.served == some (ContentHash.of bytes)
  | none => false

variable [DecidableEq Hash]

/-- Records something the compositor says was copied. The bytes are already on
the clipboard, so the clip is only marked as applied. -/
def captured (clock : Clock) (capture : Captured) (files : List (Files.FileRef Hash))
    (board : Clipboard Id Hash) : Outcome Id Hash :=
  if !board.settings.capture then (board, .ok [])
  else match board.fit capture.selection with
    | none => (board, .ok [])
    | some selection =>
      if board.isEcho selection.primary.bytes then
        -- The clip's own bytes reported back: not a new copy.
        ({ board with applied := board.clip.map (fun clip => clip.stamp) }, .ok [])
      else match (board.capturedCopy capture selection files).check with
        | .error _ => (board, .ok [])
        | .ok _ =>
            match board.replace clock (some (board.capturedCopy capture selection files)) with
            | none => (board, .error .overflow)
            | some replaced =>
                ({ replaced with applied := replaced.clip.map (fun clip => clip.stamp) },
                  .ok [.save])

omit [DecidableEq Hash]

/-- What `accept` asks of a clip newer than ours. -/
def acceptable (clock : Clock) (clip : Clip Id Hash) (board : Clipboard Id Hash) :
    Except Failure Unit := do
  ensure (clip.stamp.origin ≠ board.origin) .claimsThisMachine
  ensure (clip.stamp.isPlausible clock.believed) .clockTooFarAhead
  match clip.copy with
  | some copy => copy.check
  | none => pure ()

/-- Takes a clip from a peer, if it is newer than ours. -/
def accept (clock : Clock) (clip : Clip Id Hash) (board : Clipboard Id Hash) :
    Outcome Id Hash :=
  if (clip.stamp : WithBot (Stamp Id)) ≤ board.head then (board, .ok [])
  else match board.acceptable clock clip with
    | .error failure => (board, .error failure)
    | .ok _ =>
        -- Its lifetime may have run out on the way.
        let taken := ((board.set clock.set clip).lapse clock.lapse).apply
        (taken.1, .ok (.save :: taken.2))

/-- Empties the clipboard on every machine. -/
def clear (clock : Clock) (board : Clipboard Id Hash) : Outcome Id Hash :=
  match board.replace clock none with
  | none => (board, .error .overflow)
  | some replaced => (replaced.apply.1, .ok (.save :: replaced.apply.2))

/-- Drops the copy once its lifetime has run out. -/
def expire (now : SystemTime) (board : Clipboard Id Hash) : Outcome Id Hash :=
  if !board.hasLapsed now then (board, .ok [])
  else
    let lapsed := (board.lapse now).apply
    (lapsed.1, .ok (.save :: lapsed.2))

/-- Records that the files of the clip stamped `stamp` are laid out under
`tree`, and offers them as files. -/
def materialized (stamp : Stamp Id) (tree : Path) (board : Clipboard Id Hash) :
    Outcome Id Hash :=
  if board.head ≠ stamp then (board, .ok [])
  else
    let applied := ({ board with tree := some tree } : Clipboard Id Hash).apply
    (applied.1, .ok applied.2)

end Order

end Clipboard

end Yank
