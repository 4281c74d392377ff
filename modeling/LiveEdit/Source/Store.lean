import LiveEdit.Source.Registry

/-!
The store of published snapshots. It holds the current one, and a registry of those that can
still be found by their identity. An edit tells the version that is current afterwards.
-/

namespace LiveEdit

def defaultHistoryLimit : Nat := 16

structure Store where
  publisher : Nat
  /-- How many snapshots can be found by identity at once. -/
  capacity : Nat
  /-- What edits work on. -/
  documents : DocumentSet
  current : Snapshot
  /-- An edit publishes what it leaves. -/
  in_step : current.documents = documents
  registry : Registry
  /-- How many snapshots were published so far. -/
  published : Nat

namespace Store

/-- A store with one empty snapshot of version 1; at least one snapshot can always be found. -/
def new (publisher : Nat) (historyLimit : Nat := defaultHistoryLimit) : Store :=
  let capacity := max historyLimit 1
  let initial : Snapshot := ⟨⟨publisher, 1⟩, 1, .empty⟩
  { publisher
    capacity
    documents := .empty
    current := initial
    in_step := rfl
    registry := ({} : Registry).register capacity initial
    published := 1 }

/-- Puts documents in place of those there are, and makes the next snapshot of them. -/
def publishing (store : Store) (documents : DocumentSet) : Nat × Store :=
  let version := store.current.version + 1
  let s : Snapshot := ⟨⟨store.publisher, store.published + 1⟩, version, documents⟩
  (version,
    { store with
      documents
      current := s
      in_step := rfl
      registry := store.registry.register store.capacity s
      published := store.published + 1 })

/-- What is published has the next version, as long as there is one. -/
theorem publishing_version {store : Store} {version : Nat}
    (h : nextVersion? store.current.version = some version) (documents : DocumentSet) :
    (store.publishing documents).1 = version := by
  rw [nextVersion?] at h
  split at h
  · exact Option.some.inj h
  · cases h

/-- Adds or replaces a document. One with the same source as before publishes nothing. -/
def upserting (store : Store) (d : Document) : Nat × Store :=
  match store.documents.find? d.path with
  | some e =>
    if e.SameSource d then (store.current.version, store)
    else store.publishing (store.documents.insert d)
  | none => store.publishing (store.documents.insert d)

/-- Without a document at the path there is nothing to remove, and no version to tell. -/
def removing (store : Store) (p : SourcePath) : Option Nat × Store :=
  if (store.documents.find? p).isSome then
    let (version, store) := store.publishing (store.documents.erase p)
    (some version, store)
  else (none, store)

/-- Puts a whole set in place of the current one; the same sources publish nothing. -/
def replacing (store : Store) (documents : DocumentSet) : Nat × Store :=
  if documents.SameSources store.documents then (store.current.version, store)
  else store.publishing documents

def publish (store : Store) (documents : DocumentSet) : Store := (store.publishing documents).2

def upsert (store : Store) (d : Document) : Store := (store.upserting d).2

def remove (store : Store) (p : SourcePath) : Store := (store.removing p).2

def replaceAll (store : Store) (documents : DocumentSet) : Store := (store.replacing documents).2

/-- Forgets every snapshot's identity. The current snapshot stays current. -/
def clear (store : Store) : Store := { store with registry := {} }

def find? (store : Store) (id : SnapshotId) : Option Snapshot := store.registry.find? id

/-- The snapshots that can be found by identity. -/
def registered (store : Store) : List Snapshot := store.registry.held

end Store

end LiveEdit
