import LiveEdit.Engine.Marker
import LiveEdit.Source.Snapshot

/-!
The reference engine. It compares snapshots document by document: a changed document is a delta,
a deleted one needs a restart, and one that contains the marker blocks the update.
-/

namespace LiveEdit

/-- The `serial`-th session that an engine opened, counted from 1. -/
structure EngineSessionId where
  serial : Nat
  deriving DecidableEq

inductive EngineError where
  | unknownSession (id : EngineSessionId)
  | noPendingUpdate (id : EngineSessionId)
  | internal (message : String)
  deriving DecidableEq

structure EngineSession where
  id : EngineSessionId
  /-- The version that the process runs. -/
  baseline : Nat
  /-- The version of the last ready update that was neither committed nor discarded. -/
  tentative : Option Nat := none
  /-- Whether the process is stopped, as far as it was ever reported. -/
  inBreak : Option Bool := none
  reportDiagnostics : Bool
  deriving DecidableEq

structure ChecksumEngine where
  marker : Option String := none
  sessions : List EngineSession := []
  /-- How many sessions were opened so far. -/
  opened : Nat := 0

/-- The update that a list of changes amounts to. -/
def updateOf (marker : Option String) (reportDiagnostics : Bool) (changes : List Change) :
    Update :=
  match firstMarkerError? marker changes with
  | some error =>
    { status := .blocked, syntaxError := if reportDiagnostics then some error else none }
  | none =>
    match changes.filterMap Change.removed? with
    | [] =>
      { status := .ready
        deltas := changes.filterMap fun change => change.written?.map fun d =>
          ⟨d.path.text, d.project, encodeUtf8 d.content⟩ }
    | removed =>
      { status := .restartRequired
        rudeEdits := removed.map fun d => { kind := .deleteUnit, location := ⟨d.path.text, .point 1 1⟩ } }

namespace ChecksumEngine

/-- An empty marker is no marker. -/
def new (marker : String := "") : ChecksumEngine :=
  { marker := if marker.isEmpty then none else some marker }

def session? (engine : ChecksumEngine) (id : EngineSessionId) : Option EngineSession :=
  engine.sessions.find? (·.id = id)

def sessionCount (engine : ChecksumEngine) : Nat := engine.sessions.length

def baselineVersion? (engine : ChecksumEngine) (id : EngineSessionId) : Option Nat :=
  (engine.session? id).map (·.baseline)

def breakState? (engine : ChecksumEngine) (id : EngineSessionId) : Option Bool :=
  (engine.session? id).bind (·.inBreak)

def put (engine : ChecksumEngine) (session : EngineSession) : ChecksumEngine :=
  { engine with
    sessions := engine.sessions.map fun s => if s.id = session.id then session else s }

def start (engine : ChecksumEngine) (baseline : Snapshot) (reportDiagnostics : Bool) :
    EngineSessionId × ChecksumEngine :=
  let id : EngineSessionId := ⟨engine.opened + 1⟩
  (id, { engine with
    sessions := engine.sessions ++ [{ id, baseline := baseline.version, reportDiagnostics }]
    opened := engine.opened + 1 })

/-- Runs an action on an open session; an engine that has no such session stays as it is. -/
def withSession {α : Type} (engine : ChecksumEngine) (id : EngineSessionId)
    (act : EngineSession → Except EngineError α × ChecksumEngine) :
    Except EngineError α × ChecksumEngine :=
  match engine.session? id with
  | none => (.error (.unknownSession id), engine)
  | some s => act s

/-- No news leaves the break state as it was. -/
def reportBreak (engine : ChecksumEngine) (id : EngineSessionId) (inBreak : Option Bool) :
    Except EngineError Unit × ChecksumEngine :=
  engine.withSession id fun s => (.ok (), engine.put { s with inBreak := inBreak <|> s.inBreak })

/-- A ready update is kept as tentative; any other leaves the tentative update as it was. -/
def compute (engine : ChecksumEngine) (id : EngineSessionId) (baseline target : Snapshot) :
    Except EngineError Update × ChecksumEngine :=
  engine.withSession id fun s =>
    let update := updateOf engine.marker s.reportDiagnostics
      (baseline.documents.changesTo target.documents)
    (.ok update,
      if update.status = .ready then engine.put { s with tentative := some target.version }
      else engine)

def commit (engine : ChecksumEngine) (id : EngineSessionId) :
    Except EngineError Unit × ChecksumEngine :=
  engine.withSession id fun s =>
    match s.tentative with
    | none => (.error (.noPendingUpdate id), engine)
    | some version => (.ok (), engine.put { s with baseline := version, tentative := none })

def discard (engine : ChecksumEngine) (id : EngineSessionId) :
    Except EngineError Unit × ChecksumEngine :=
  engine.withSession id fun s =>
    match s.tentative with
    | none => (.error (.noPendingUpdate id), engine)
    | some _ => (.ok (), engine.put { s with tentative := none })

def close (engine : ChecksumEngine) (id : EngineSessionId) :
    Except EngineError Unit × ChecksumEngine :=
  engine.withSession id fun _ =>
    (.ok (), { engine with sessions := engine.sessions.filter (·.id ≠ id) })

end ChecksumEngine

end LiveEdit
