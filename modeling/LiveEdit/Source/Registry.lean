import LiveEdit.Source.Snapshot

/-!
The registry of the snapshots that can be found by their identity. A queue beside it says which
of them is dropped next to make room for another.
-/

namespace LiveEdit

structure Registry where
  /-- The identities of the snapshots, the next to be dropped first. -/
  order : List SnapshotId := []
  /-- One snapshot for an identity. -/
  held : List Snapshot := []

namespace Registry

def find? (registry : Registry) (id : SnapshotId) : Option Snapshot :=
  registry.held.find? (·.id = id)

/-- Drops the snapshot that is next in the queue, if there is one. -/
def dropNext : Registry → Registry
  | ⟨[], held⟩ => ⟨[], held⟩
  | ⟨id :: order, held⟩ => ⟨order, held.filter (·.id ≠ id)⟩

/-- Goes through a queue and drops its snapshots, until fewer are left than the limit. -/
def dropUntil (limit : Nat) : List SnapshotId → List Snapshot → Registry
  | [], held => ⟨[], held⟩
  | id :: order, held =>
    if limit ≤ order.length + 1 then dropUntil limit order (held.filter (·.id ≠ id))
    else ⟨id :: order, held⟩

def makeRoom (limit : Nat) (registry : Registry) : Registry :=
  dropUntil limit registry.order registry.held

/-- Makes room for a snapshot and adds it, over one with the same identity. -/
def register (limit : Nat) (registry : Registry) (s : Snapshot) : Registry :=
  let room := registry.makeRoom limit
  ⟨room.order ++ [s.id], room.held.filter (·.id ≠ s.id) ++ [s]⟩

end Registry

end LiveEdit
