import LiveEdit.Kernel.Play
import LiveEdit.Log.Audit
import LiveEdit.Log.Filter
import LiveEdit.Net.Address
import LiveEdit.Net.Endpoint
import LiveEdit.Settings.Environment
import LiveEdit.Watch.Tick

/-!
The life of the program: it reads its settings, takes a first snapshot, starts a session, goes
through watch cycles and shuts down. Each phase says what it logs; a filter decides what is shown.
-/

namespace LiveEdit.Kernel

/-- What the program finds when it is launched. -/
structure Surroundings where
  /-- Environment variables, in their order. -/
  environment : List (String × String)
  /-- The path of the source tree, and how it is shown. -/
  root : List UInt8 × String
  files : FileSystem
  /-- The way to the folder where paths start. -/
  base : List FileName

/-- The source tree that is named by an argument: the folder where paths start if there is none. -/
def rootOfArgument (argument : Option String) : List UInt8 × String :=
  let shown := argument.getD "."
  (encodeUtf8 shown, shown)

/-- Why the program gives up before it runs. -/
inductive LaunchError where
  | settings
  /-- The log's filter cannot be read at all. -/
  | filter
  | telemetry
  | scan (root : String) (error : ScanError)
  deriving DecidableEq, Repr

namespace LaunchError

def message : LaunchError → String
  | .settings => "Failed to load configuration"
  | .filter => "Failed to read the log filter"
  | .telemetry => "Failed to initialize telemetry"
  | .scan root _ => "Failed to scan " ++ root

def cause? : LaunchError → Option String
  | .settings => none
  | .filter => none
  | .telemetry => some "Failed to build OTLP span exporter"
  | .scan _ error => some error.message

/-- What the program says about it when it gives up. It breaks off with an empty line. -/
def report : LaunchError → String
  | .filter => "\n" ++ filter.message
  | e => "Error: " ++ e.message ++ e.cause?.elim "" ("\n\nCaused by:\n    " ++ ·)

def exitCode : LaunchError → Nat
  | .filter => 101
  | _ => 1

end LaunchError

def kernelTarget : String := "hotreload_kernel"

def moduleTarget (name : String) : String := kernelTarget ++ "::" ++ name

abbrev LogFields := List (String × String)

def kernelLog (level : LogLevel) (message : String) (fields : LogFields := []) : LogRecord :=
  { level, target := kernelTarget, message, fields }

def watchLog (level : LogLevel) (message : String) (fields : LogFields := []) : LogRecord :=
  { level, target := moduleTarget "watch", message, fields }

/-- What a scan logs: each source file that is no text, and that it is over. -/
def scanLog (root : String) (findings : List Finding) : List LogRecord :=
  let log (level : LogLevel) (message : String) (fields : LogFields) : LogRecord :=
    { level, target := moduleTarget "snapshot::directory", message, fields }
  let skipped : List LogRecord := findings.filterMap fun
    | .source _ => none
    | .undecodable way =>
      some (log .warn "Skipping non UTF-8 source file" [("path", root ++ "/" ++ wayText way)])
  skipped ++
    [log .debug "Scanned source tree"
      [("root", root), ("documents", toString (findings.filterMap Finding.document?).length)]]

/-- The log of a change from one store to another by at most one snapshot. -/
def publishedLog (earlier later : Store) : List LogRecord :=
  if later.published = earlier.published then []
  else
    [{ level := .debug, target := moduleTarget "snapshot::store", message := "Published snapshot"
       fields :=
        [("version", versionLabel later.current.version),
          ("documents", toString later.current.documents.size)] }]

/-- The engine speaks while the coordinator starts a session. -/
def engineStartedLog (settings : SessionSettings) (session : ActiveSession) : LogRecord :=
  let target := moduleTarget "engine::checksum"
  { level := .debug, target, message := "Engine session started"
    fields := [("session", session.engine.uuid.text)]
    spans :=
      [{ target := coordinatorTarget, name := Operation.startSession.text },
        { target, name := "start"
          fields :=
            [("options",
                "StartOptions \x7b report_diagnostics: " ++ toString settings.reportDiagnostics ++
                  " \x7d"),
              ("version", versionLabel session.committed.version)] }] }

def reportLog (operation : Operation) (fault : Fault) : LogRecord :=
  { level := .error
    target := moduleTarget "session::failure"
    message := "Hot reload operation failed"
    fields := [("operation", operation.text), ("error", fault.message)]
    spans := [{ target := coordinatorTarget, name := operation.text }] }

def effectLog? : Effect → Option LogRecord
  | .log record => some record
  | .audit record => some record.logRecord
  | .report operation fault => some (reportLog operation fault)
  | _ => none

/-- What the coordinator logged between two moments. -/
def World.logSince (earlier later : World) : List LogRecord :=
  (later.system.history.drop earlier.system.history.length).filterMap effectLog?

/-- The world before anything was scanned: a store with an empty snapshot, and no session. -/
def World.initial (s : Surroundings) (settings : Settings) : World :=
  { store := .new 1 settings.watch.snapshotHistory
    engine := .new settings.engine.syntaxErrorMarker
    system := { settings := settings.session }
    files := s.files
    watch := settings.watch
    base := s.base
    root := s.root }

/-- The control plane's complaint about its address. -/
def serverLog (settings : ServerSettings) : List LogRecord :=
  match settings.enabled, SocketAddress.of settings.host settings.port with
  | true, .error message => [kernelLog .error ("Control Plane failed: " ++ message)]
  | _, _ => []

/-- A program that has been launched. -/
structure Launched where
  filter : LogFilter := ⟨[]⟩
  /-- What the filter leaves out of its text. -/
  warnings : List String := []
  log : List LogRecord := []
  world : Except LaunchError World

/-- Starts the session and all that runs beside it. -/
def World.start (server : ServerSettings) (w : World) : List LogRecord × World :=
  let later := ((play false (Client.request .start)).run w).2
  (later.system.state.session?.toList.map (engineStartedLog later.system.settings) ++
    w.logSince later ++ serverLog server ++
    [watchLog .info "Watching source tree"
        [("root", w.root.2), ("interval_ms", toString w.watch.pollIntervalMs)],
      kernelLog .info "Hotreload Kernel Initialized. Waiting for shutdown signal..."], later)

/-- Scans the source tree for the first time and starts the session. -/
def launchWith (s : Surroundings) (settings : Settings) (filter : LogFilter)
    (warnings : List String) : Launched :=
  let log :=
    [kernelLog .info "Hotreload Kernel Starting..." [("root", s.root.2)],
      (AuditRecord.systemStartup "Kernel").logRecord]
  let empty := World.initial s settings
  match empty.scan with
  | .error e => { filter, warnings, log, world := .error (.scan s.root.2 e) }
  | .ok findings =>
    let documents := findings.filterMap Finding.document?
    let full := { empty with store := empty.store.replaceAll (.ofList documents) }
    let (started, world) := full.start settings.server
    { filter, warnings
      log := log ++ scanLog s.root.2 findings ++
        [kernelLog .info "Initial snapshot captured" [("documents", toString documents.length)]] ++
        publishedLog empty.store full.store ++ started
      world := .ok world }

def launch (s : Surroundings) : Launched :=
  match Settings.ofEnvironment? s.environment with
  | none => { world := .error .settings }
  | some settings =>
    let collector := settings.telemetry.otlpEndpoint.map (Endpoint.choose s.environment)
    match LogFilter.read settings.telemetry.logLevel with
    | (none, warnings) => { warnings, world := .error .filter }
    | (some filter, warnings) =>
      if collector.any (!Endpoint.isValid ·) then
        { filter, warnings, world := .error .telemetry }
      else launchWith s settings filter warnings

def tickLog : Option TickOutcome → List LogRecord
  | none => []
  | some .unchanged => []
  | some (.committed deltas) =>
    [watchLog .info "Applied hot reload update" [("deltas", toString deltas)],
      watchLog .debug "Poll tick finished" [("outcome", (TickOutcome.committed deltas).name)]]
  | some outcome => [watchLog .debug "Poll tick finished" [("outcome", outcome.name)]]

def diagnosticLog (d : Diagnostic) : LogRecord :=
  watchLog .warn d.message
    ([("id", d.id)] ++ d.location.toList.map fun l => ("path", l.path))

/-- One cycle of the watcher. -/
def World.cycle (w : World) : List LogRecord × World :=
  let (progress, later) := (play false (tick w.watch.autoCommit)).run { w with record := {} }
  let scanned := match w.scan with
    | .ok findings =>
      scanLog w.root.2 findings ++ publishedLog w.store later.store ++
        [watchLog .debug "Source tree scanned"
          [("version", versionLabel later.store.current.version)]]
    | .error e =>
      [watchLog .warn "Failed to scan source tree" [("root", w.root.2), ("error", e.message)]]
  let outcome := match progress with
    | .finished outcome => tickLog outcome
    | .stopped _ _ => []
  (scanned ++ w.logSince later ++ later.record.noted.map diagnosticLog ++ outcome, later)

/-- Ends the session. -/
def World.shutDown (w : World) : List LogRecord × World :=
  let later := ((play false (Client.request .finish)).run w).2
  ([kernelLog .info "Shutdown signal received, cleaning up...",
    watchLog .debug "Watcher stopped"] ++ w.logSince later ++
    [(AuditRecord.systemShutdown "Signal received").logRecord,
      kernelLog .info "Hotreload Kernel Shutdown Complete."], later)

/-- What a program leaves behind that is shut down after its first cycle. -/
structure Run where
  /-- What is shown of the log. -/
  shown : List LogRecord
  warnings : List String
  error : Option LaunchError

def Run.exitCode (r : Run) : Nat := r.error.elim 0 (·.exitCode)

/-- Launches the program, goes through one cycle and shuts it down. -/
def run (s : Surroundings) : Run :=
  let launched := launch s
  let (log, error) := match launched.world with
    | .error e => ([], some e)
    | .ok w =>
      let (cycleLog, w) := w.cycle
      (cycleLog ++ w.shutDown.1, none)
  ⟨(launched.log ++ log).filter launched.filter.shows, launched.warnings, error⟩

end LiveEdit.Kernel
