import LiveEdit.Broadcast
import LiveEdit.ControlPlane.Router
import LiveEdit.Kernel.Script
import LiveEdit.Session.System
import LiveEdit.Source.Store
import LiveEdit.Tree.Edit

/-!
The coordinator in its world: a store, a checksum engine, a source tree and those who listen. A
script, mostly empty, tells single calls to do something else than their work.
-/

namespace LiveEdit

/-- The snapshot of an identity, or the error that there is none. -/
def Store.resolve (store : Store) (id : SnapshotId) : Except ProviderError Snapshot :=
  match store.find? id with
  | some s => .ok s
  | none => .error (.notRegistered id)

namespace Kernel

/-- The collaborators that the program has of its own. -/
structure Collaborators where
  store : Store
  engine : ChecksumEngine

/-- The errors of an engine are faults. -/
def Collaborators.answered {α : Type} (c : Collaborators)
    (r : Except EngineError α × ChecksumEngine) : Except Fault α × Collaborators :=
  (match r.1 with
    | .ok a => (Outcome.value a).contained .engine
    | .error e => (Outcome.error e).contained .engine,
    { c with engine := r.2 })

def Collaborators.perform (c : Collaborators) :
    (call : Call) → Except Fault call.Answer × Collaborators
  | .currentSnapshot => (.ok c.store.current, c)
  | .startSession baseline reportDiagnostics =>
    let (id, engine) := c.engine.start baseline reportDiagnostics
    (.ok id, { c with engine })
  | .reportBreak id inBreak => c.answered (c.engine.reportBreak id inBreak)
  | .compute id committed latest => c.answered (c.engine.compute id committed latest)
  | .commit id => c.answered (c.engine.commit id)
  | .discard id => c.answered (c.engine.discard id)
  | .closeSession id => c.answered (c.engine.close id)

/-- An entry of a record: a call, or the provider's release. -/
inductive Heard where
  | call (place : Place)
  | release
  deriving DecidableEq, Repr

/-- What was told and noted. -/
structure Record where
  calls : List Heard := []
  reports : List (Operation × Fault) := []
  audit : List AuditRecord := []
  noted : List Diagnostic := []

structure World extends Collaborators where
  system : System
  /-- What the provider answers in place of the store's current snapshot. -/
  provided : Option Snapshot := none
  /-- The provider finds no snapshot by identity and keeps all at a release. -/
  bare : Bool := false
  script : List (Place × Action) := []
  files : FileSystem
  watch : WatchSettings := {}
  /-- The way to the folder where paths start. -/
  base : List FileName
  /-- The path of the source tree, and how it is shown. -/
  root : List UInt8 × String
  counters : Counters := []
  events : Channel SessionEvent := { capacity := eventCapacity }
  /-- A subscriber to all events. -/
  receiver : Receiver := ⟨0⟩
  /-- How much of the system's history was acted on. -/
  heard : Nat := 0
  record : Record := {}

namespace World

/-- Acts on one effect. -/
def take (w : World) : Effect → World
  | .report operation fault =>
    { w with record := { w.record with reports := w.record.reports ++ [(operation, fault)] } }
  | .release =>
    if w.bare then w
    else
      { w with
        store := w.store.clear
        record := { w.record with calls := w.record.calls ++ [.release] } }
  | .log _ => w
  | .count counter => { w with counters := w.counters.increment counter }
  | .audit r => { w with record := { w.record with audit := w.record.audit ++ [r] } }
  | .publish event => { w with events := w.events.publish event }

/-- Acts on what the system said since the last time. -/
def hear (w : World) : World :=
  { (w.system.history.drop w.heard).foldl take w with heard := w.system.history.length }

/-- Lets the system make a step. -/
def step (f : System → System) (w : World) : World := { w with system := f w.system }.hear

/-- What a call does when it is told nothing. -/
def perform (w : World) (call : Call) : Except Fault call.Answer × World :=
  match call, w.provided with
  | .currentSnapshot, some s => (.ok s, w)
  | call, _ =>
    let (answer, c) := w.toCollaborators.perform call
    (answer, { w with toCollaborators := c })

/-- What a call does under an action that does not make it wait. -/
def performAs (w : World) (action : Action) (call : Call) : Except Fault call.Answer × World :=
  match action.fault? call, action with
  | some fault, _ => (.error fault, w)
  | none, .result update =>
    match scriptedAnswer? update call with
    | some answer => (.ok answer, w)
    | none => w.perform call
  | none, _ => w.perform call

/-- Enters a call in the record and takes the script's next action for it. -/
def noteCall (w : World) (call : Call) : Action × World :=
  let place := Place.of call
  let w := { w with record := { w.record with calls := w.record.calls ++ [Heard.call place] } }
  let isNext (e : Place × Action) : Bool := e.1 = place
  match w.script.find? isNext with
  | some e => (e.2, { w with script := w.script.eraseP isNext })
  | none => (.pass, w)

/-- The snapshot of an identity, as the provider finds it. -/
def find? (w : World) (id : SnapshotId) : Option Snapshot :=
  if w.bare then none else w.store.find? id

/-- What the provider answers to a request for the snapshot of an identity. -/
def resolve (w : World) (id : SnapshotId) : Except ProviderError Snapshot :=
  if w.bare then .error (.notRegistered id) else w.store.resolve id

def controlPlane (w : World) : ControlPlane := ⟨w.system.state, w.find?, w.counters⟩

def scan (w : World) : Except ScanError (List Finding) :=
  w.files.scan w.watch w.base w.root.2 w.root.1

/-- Scans the source tree into the store; a failed scan leaves the store as it is. -/
def rescan (w : World) : Bool × World :=
  match w.scan with
  | .ok findings =>
    (true, { w with store := w.store.replaceAll (.ofList (findings.filterMap Finding.document?)) })
  | .error _ => (false, w)

/-- The events published since they were last asked for. -/
def newEvents (w : World) : List SessionEvent × World :=
  let (events, receiver) := w.events.drain (w.events.kept.length + 1) w.receiver
  (events, { w with receiver })

end World

end Kernel

end LiveEdit
