import LiveEdit.Source.DocumentSet

/-! Snapshots: a whole document set under a version, told apart by who published it and when. -/

namespace LiveEdit

/-- The `serial`-th snapshot of a publisher. -/
structure SnapshotId where
  publisher : Nat
  serial : Nat
  deriving DecidableEq

structure Snapshot where
  id : SnapshotId
  version : Nat
  documents : DocumentSet
  deriving DecidableEq

/-- Versions fit in 64 bits. -/
def versionLimit : Nat := 0x10000000000000000

/-- The version after this one. -/
def nextVersion? (version : Nat) : Option Nat :=
  if version + 1 < versionLimit then some (version + 1) else none

def versionLabel (version : Nat) : String := "v" ++ toString version

namespace Snapshot

/-- Any spelling of a path finds its document. -/
def document? (s : Snapshot) (spelling : String) : Option Document :=
  s.documents.find? (.ofText spelling)

def project? (s : Snapshot) (spelling : String) : Option String :=
  (s.document? spelling).map (·.project)

end Snapshot

end LiveEdit
