import Yank.Json
import Yank.Messages

/-!
# The mesh as it is saved

`mesh.json` is an object of one member, an object with a member for every machine in the
order of their ids. How an id is written, quotes included, is left open.
-/

namespace Yank

open Postcard Json

/-- A machine that left: one word. -/
def removedJson : Format Unit := literal (ascii "\"removed\"")

/-- A machine in the mesh: an object around an object with its name. -/
def aliveJson : Format String :=
  between (ascii "\x7b\n        \"alive\": \x7b\n          \"name\": ") quoted
    (ascii "\n        \x7d\n      \x7d")

def statusJson : Format PeerStatus :=
  (either removedJson aliveJson (fun _ _ => rfl)).via
    (fun status => match status with
      | .alive name => .inr name
      | .removed => .inl ())
    (fun read => match read with
      | .inr name => some (.alive name)
      | .inl () => some .removed)
    (fun status => by cases status <;> rfl)

/-- The version and what follows it. -/
def versionJson : Format UInt64 :=
  (number (ascii ",\n      \"status\": ") (fun _ => rfl)).via UInt64.toNat
    (fun value => if value < 2 ^ 64 then some (UInt64.ofNat value) else none)
    Format.ofNat_toNat_u64

/-- A record is its two fields. -/
theorem peer_of_fields (peer : Peer) :
    some ({ version := (peer.version, peer.status).1, status := (peer.version, peer.status).2 } :
      Peer) = some peer := rfl

def peerJson : Format Peer :=
  (between (ascii ": \x7b\n      \"version\": ") (versionJson.pair statusJson)
    (ascii "\n    \x7d")).via (fun peer => (peer.version, peer.status))
    (fun read => some { version := read.1, status := read.2 }) peer_of_fields

/-- The machines, each on lines of its own. -/
def peersLayout : Layout where
  before := ascii "\x7b\n    "
  separator := ascii ",\n    "
  after := ascii "\n  \x7d"
  hollow := ascii "\x7b\x7d"
  separates := by decide
  goesOn _ := rfl
  begins _ := rfl

variable {Id : Type} [LinearOrder Id]

/-- A mesh is its machines. -/
theorem mesh_of_machines (state : MeshState Id) :
    some ({ peers := Std.ExtTreeMap.ofList state.peers.toList compare } : MeshState Id) =
      some state := by
  rw [MeshState.ofList_toList]

/-- What `serde_json` writes for a mesh, and reads back. -/
def meshJson (id : Format Id) : Format (MeshState Id) :=
  (between (ascii "\x7b\n  \"peers\": ") (object peersLayout (id.pair peerJson))
    (ascii "\n\x7d")).via (fun state => state.peers.toList)
    (fun entries => some { peers := Std.ExtTreeMap.ofList entries compare }) mesh_of_machines

/-- A number in quotes. -/
def numberedJson : Format Nat :=
  between (ascii "\"") (number (ascii "\"") (fun _ => rfl)) []

end Yank
