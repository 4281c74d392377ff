import LiveEdit.Kernel.Play
import LiveEdit.Net.Address
import LiveEdit.Session.Bridge
import LiveEdit.Watch.Tick

/-! Rehearsals: the world is changed and asked step by step, also while a step is held up. -/

namespace LiveEdit.Kernel

inductive SnapshotChoice where
  | first
  | committed
  | unknown
  deriving DecidableEq, Repr

/-- One step of a rehearsal, with the token of its client where it has one. -/
inductive Act where
  | request (request : Request) (fired : Bool)
  | status
  | upsert (document : Document)
  | remove (path : SourcePath)
  | replaceAll (documents : DocumentSet)
  | clearStore
  | provide (snapshot : Option Snapshot)
  | resolve (choice : SnapshotChoice)
  /-- Ends the active session in the engine without the coordinator. -/
  | forget
  | script (place : Place) (action : Action)
  | bridge (events : List BridgeEvent) (fired : Bool)
  | serve (host : String) (port : Nat)
  | describe
  | edit (edit : TreeEdit)
  | rescan
  | tick (fired : Bool)
  | run (fired : Bool)
  | http (method target : String)

inductive Result where
  | done
  | nothing
  | flag (value : Bool)
  | number (value : Nat)
  | text (value : String)
  | updates (updates : Updates)
  | violation (violation : Violation)
  | cancelled
  | ticked (outcome : TickOutcome)
  | stopped
  | found (snapshot : Snapshot)
  | notFound (error : ProviderError)
  | invalidAddress (message : String)
  /-- The tree was changed, unless there is an error. -/
  | edited (error : Option PathError)
  | response (response : Response)

def Result.ofReply : Reply → Result
  | .done => .done
  | .changed answer => .flag answer
  | .updates u => .updates u
  | .violation v => .violation v
  | .cancelled => .cancelled

def Result.ofTick : Option TickOutcome → Result
  | some outcome => .ticked outcome
  | none => .cancelled

/-- The text of a coordinator that has no session. -/
def describeIdle (s : SessionSettings) : String :=
  let flag (b : Bool) : String := if b then "true" else "false"
  "SessionCoordinator \x7b state: NoSession, settings: SessionSettings \x7b report_diagnostics: " ++
    flag s.reportDiagnostics ++ ", change_detection: ChangeDetectionSettings \x7b trust_versions: " ++
    flag s.detection.trustVersions ++ ", include_generated: " ++ flag s.detection.includeGenerated ++
    " \x7d \x7d, .. \x7d"

/-- The identity that a step means; without a committed snapshot it is the first one's. -/
def SnapshotChoice.id (w : World) : SnapshotChoice → SnapshotId
  | first => ⟨w.store.publisher, 1⟩
  | committed =>
    (w.system.state.session?.map (·.committed.id)).getD ⟨w.store.publisher, 1⟩
  | unknown => ⟨0, 0⟩

/-- As many cycles as a script can keep a watcher busy before it stops it or nothing changes. -/
def cycleBound (w : World) : Nat := 2 * w.script.length + 8

def finish (f : World → Result × World) : Play (Progress Result) := do
  return .finished (← modifyGet f)

/-- Runs a step as far as it gets. -/
def Act.begin : Act → Play (Progress Result)
  | request r fired => play fired (Result.ofReply <$> Client.request r)
  | status => return .finished .done
  | upsert d => finish fun w =>
    let (version, store) := w.store.upserting d
    (.number version, { w with store })
  | remove path => finish fun w =>
    let (version, store) := w.store.removing path
    (version.elim .nothing .number, { w with store })
  | replaceAll documents => finish fun w =>
    let (version, store) := w.store.replacing documents
    (.number version, { w with store })
  | clearStore => finish fun w => (.nothing, { w with store := w.store.clear })
  | provide snapshot => finish fun w => (.done, { w with provided := snapshot })
  | resolve choice => finish fun w =>
    (match w.resolve (choice.id w) with
      | .ok s => .found s
      | .error e => .notFound e, w)
  | forget => finish fun w =>
    match w.system.state.session? with
    | none => (.flag false, w)
    | some session =>
      let (r, engine) := w.engine.close session.engine
      (.flag r.isOk, { w with engine })
  | script place action => finish fun w =>
    (.done, { w with script := w.script ++ [(place, action)] })
  | bridge events fired => play fired (Result.number <$> listen 0 events)
  | serve host port => finish fun w =>
    (match SocketAddress.of host port with
      | .ok _ => .nothing
      | .error message => .invalidAddress message, w)
  | describe => finish fun w =>
    (match w.system.state with
      | .noSession => .text (describeIdle w.system.settings)
      | _ => .nothing, w)
  | edit e => finish fun w =>
    let (error, top) := w.files.top.edit w.base e
    (.edited error, { w with files := { w.files with top } })
  | rescan => finish fun w =>
    let (ok, w) := w.rescan
    (.flag ok, w)
  | tick fired => do
    let autoCommit := (← get).watch.autoCommit
    play fired (Result.ofTick <$> LiveEdit.tick autoCommit)
  | run fired => do
    let w ← get
    play fired ((fun _ => Result.stopped) <$> watch w.watch.autoCommit (cycleBound w))
  | http method target => finish fun w =>
    (.response (w.controlPlane.respond method target), w)

/-- A bound on the requests of a step's client. -/
def Act.requestBound (w : World) : Act → Nat
  | bridge events _ => events.length
  | tick _ => 3
  | run _ => 3 * cycleBound w
  | _ => 1

/-- How a held step goes on. -/
inductive Release where
  | letGo
  | cancel
  | drop
  deriving DecidableEq, Repr

/-- What a step beside a held one came to, and what the session then looked like. -/
inductive Beside where
  | waiting
  | finished (result : Result) (hasPending : Bool) (phase : Phase)

inductive HeldResult where
  /-- The step ended without being held. -/
  | unheld (op : Result)
  /-- The held step's result is none if it was dropped. -/
  | held (beside : List Beside) (op : Option Result) (queued : List Result)

/-- Whether a client that waits for a task can go on. -/
def isReady (w : World) : Progress Result → Bool
  | .finished _ => false
  | .stopped i _ =>
    match w.system.task? i with
    | some ⟨_, _, .waiting⟩ => w.system.gate.holder == some i
    | some ⟨_, _, .inCall ..⟩ => true
    | some ⟨_, _, .ended _⟩ => true
    | _ => false

/-- Lets the first client that can go on do so. -/
def goOnFirst : List (Progress Result) → Play (List (Progress Result))
  | [] => return []
  | p :: ps => do
    match isReady (← get) p, p with
    | true, .stopped i next => return (← goOn i next) :: ps
    | _, _ => return p :: (← goOnFirst ps)

/-- Lets clients go on, at most so many times. -/
def goOnAll : Nat → List (Progress Result) → Play (List (Progress Result))
  | 0, ps => return ps
  | turns + 1, ps => do
    if ps.any (isReady (← get)) then goOnAll turns (← goOnFirst ps) else return ps

def resultOf? : Progress Result → Option Result
  | .finished r => some r
  | .stopped _ _ => none

def beside (p : Progress Result) : Play Beside := do
  let s := (← get).system.state
  match p with
  | .finished r => return .finished r (s.session?.any (·.pending.isSome)) s.phase
  | .stopped _ _ => return .waiting

/--
Runs a step until the next call at a place, does other steps meanwhile, and then lets all of them
go on to their ends.
-/
def hold (place : Place) (op : Act) (others : List Act) (ending : Release) : Play HeldResult := do
  modify fun w => { w with script := w.script ++ [(place, .hold)] }
  match ← op.begin with
  | .finished r =>
    modify fun w => { w with script := [] }
    return .unheld r
  | .stopped i next =>
    let met ← others.mapM fun act => do
      let p ← act.begin
      return (p, ← beside p)
    match ending with
    | .letGo => pure ()
    | .cancel => modify (·.step (·.fire i))
    | .drop => modify (·.step (·.drop i))
    let w ← get
    let turns := (op :: others).foldl (fun n act => n + act.requestBound w) 1
    let waiting := (met.map (·.1)).filter fun p => (resultOf? p).isNone
    match ← goOnAll turns (.stopped i next :: waiting) with
    | own :: queued =>
      return .held (met.map (·.2)) (resultOf? own) (queued.filterMap resultOf?)
    | [] => return .held (met.map (·.2)) none []

inductive Step where
  | act (act : Act)
  | held (place : Place) (op : Act) (others : List Act) (ending : Release)

inductive Answer where
  | plain (result : Result)
  | held (result : HeldResult)

/-- Runs one step on a fresh record. -/
def Step.run (s : Step) : Play Answer := do
  modify fun w => { w with record := {} }
  match s with
  | act a =>
    match ← a.begin with
    | .finished r => return .plain r
    | .stopped _ _ => return .plain .nothing
  | held place op others ending => return .held (← hold place op others ending)

end LiveEdit.Kernel
