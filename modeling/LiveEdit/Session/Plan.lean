import LiveEdit.Diagnostic.Merge
import LiveEdit.Log.Record
import LiveEdit.Session.Event
import LiveEdit.Session.Fault
import LiveEdit.Source.Detection

/-!
What a coordinator does for each request. A plan names the collaborator call to wait for, or
concludes: all that an operation writes and tells the world is in its conclusion, after its last
call.
-/

namespace LiveEdit

structure SessionSettings where
  reportDiagnostics : Bool := true
  detection : DetectionSettings := {}
  deriving DecidableEq, Repr

inductive Request where
  | start
  | enterBreak
  | exitBreak
  | capabilitiesChanged
  | hasChanges (scope : Option String)
  | getUpdates
  | commit
  | discard
  | finish
  deriving DecidableEq, Repr

def Request.operation : Request → Operation
  | .start => .startSession
  | .enterBreak => .enterBreak
  | .exitBreak => .exitBreak
  | .capabilitiesChanged => .capabilitiesChanged
  | .hasChanges _ => .hasChanges
  | .getUpdates => .getUpdates
  | .commit => .commitUpdates
  | .discard => .discardUpdates
  | .finish => .endSession

/-- All requests but the check for changes are served one at a time. -/
def Request.takesGate : Request → Bool
  | .hasChanges _ => false
  | _ => true

/-- What the caller gets for a request for updates. -/
structure Updates where
  status : UpdateStatus := .ready
  deltas : List Delta := []
  diagnostics : List Diagnostic := []
  deriving DecidableEq

def Updates.isEmpty (u : Updates) : Bool :=
  u.status == .ready && u.deltas.isEmpty && u.diagnostics.isEmpty

inductive Reply where
  | done
  | changed (answer : Bool)
  | updates (updates : Updates)
  | violation (violation : Violation)
  | cancelled
  deriving DecidableEq

/-- A call to the snapshot provider or to the diff engine. -/
inductive Call where
  | currentSnapshot
  | startSession (baseline : Snapshot) (reportDiagnostics : Bool)
  | reportBreak (session : EngineSessionId) (inBreak : Option Bool)
  | compute (session : EngineSessionId) (committed latest : Snapshot)
  | commit (session : EngineSessionId)
  | discard (session : EngineSessionId)
  | closeSession (session : EngineSessionId)
  deriving DecidableEq

abbrev Call.Answer : Call → Type
  | .currentSnapshot => Snapshot
  | .startSession _ _ => EngineSessionId
  | .compute _ _ _ => Update
  | _ => Unit

/-- What a started call does when its caller's token fires. -/
inductive Discipline where
  /-- It is given up. -/
  | interruptible
  /-- It runs to its end. -/
  | settled
  deriving DecidableEq, Repr

inductive Effect where
  | report (operation : Operation) (fault : Fault)
  /-- The provider may forget its snapshots. -/
  | release
  | log (record : LogRecord)
  | count (counter : Counter)
  | audit (record : AuditRecord)
  | publish (event : SessionEvent)
  deriving DecidableEq

structure Conclusion where
  reply : Reply
  state : SessionState
  effects : List Effect := []

inductive Plan where
  | conclude (conclusion : SessionState → Conclusion)
  | await (discipline : Discipline) (call : Call) (resume : Except Fault call.Answer → Plan)

namespace Plan

/-- Ends without a trace. -/
def reply (r : Reply) : Plan := conclude fun s => { reply := r, state := s }

def coordinatorLog (operation : Operation) (level : LogLevel) (message : String)
    (fields : List (String × String)) : Effect :=
  .log
    { level, target := coordinatorTarget, message, fields
      spans := [{ target := coordinatorTarget, name := operation.text }] }

/-- Reports a fault once and turns hot reload off; `extra` follows what every fault leaves behind. -/
def disable (operation : Operation) (fault : Fault) (r : Reply) (extra : List Effect := []) :
    Plan :=
  conclude fun _ =>
    { reply := r
      state := .disabled ⟨operation, fault.message⟩
      effects :=
        [.report operation fault, .release,
          coordinatorLog operation .warn "Hot reload disabled"
            [("operation", operation.text), ("reason", fault.message)],
          .count (.disables operation), .audit (.sessionDisabled operation.text fault.message),
          .publish (.disabled operation fault.message)] ++ extra }

/-- Waits for a call. A fault disables hot reload, and the caller gets the reply `r`. -/
def awaitOrDisable (operation : Operation) (discipline : Discipline) (call : Call) (r : Reply)
    (next : call.Answer → Plan) : Plan :=
  await discipline call fun
    | .ok answer => next answer
    | .error fault => disable operation fault r

end Plan

namespace SessionState

open Plan

def startPlan (settings : SessionSettings) : SessionState → Plan
  | .noSession =>
    awaitOrDisable .startSession .interruptible .currentSnapshot .done fun baseline =>
    awaitOrDisable .startSession .interruptible
        (.startSession baseline settings.reportDiagnostics) .done fun engine =>
      conclude fun _ =>
        { reply := .done
          state := .active { engine, committed := baseline }
          effects :=
            [coordinatorLog .startSession .info "Hot reload session started"
                [("version", versionLabel baseline.version), ("session_id", engine.uuid.text)],
              .count .sessionsStarted, .audit (.sessionStarted baseline.version),
              .publish (.started baseline.version)] }
  | _ => .reply .done

def breakPlan (operation : Operation) (inBreak : Option Bool) (s : SessionState) : Plan :=
  match s.session? with
  | none => .reply .done
  | some session =>
    awaitOrDisable operation .interruptible (.reportBreak session.engine inBreak) .done fun _ =>
      conclude fun s =>
        { reply := .done
          state := s.modifySession fun session =>
            { session with breakState := session.breakState.apply inBreak }
          effects := s.session?.toList.map fun session =>
            .publish (.breakStateChanged (session.breakState.apply inBreak)) }

/--
The session may have moved on while the snapshot was fetched, so the answer is about the session
at the end. A fault counts as a change and is reported, but nothing else happens.
-/
def hasChangesPlan (settings : SessionSettings) (scope : Option String) (s : SessionState) :
    Plan :=
  match s.session? with
  | none => .reply (.changed false)
  | some _ =>
    .await .interruptible .currentSnapshot fun
      | .error fault =>
        conclude fun s =>
          { reply := .changed true, state := s, effects := [.report .hasChanges fault] }
      | .ok latest =>
        conclude fun s =>
          { reply := .changed (s.session?.any fun session =>
              session.committed.differsFrom latest scope settings.detection)
            state := s }

def getUpdatesPlan (s : SessionState) : Plan :=
  match s.session? with
  | none => .reply (.updates {})
  | some session =>
    awaitOrDisable .getUpdates .interruptible .currentSnapshot (.updates {}) fun latest =>
    .await .interruptible (.compute session.engine session.committed latest) fun
      | .error fault =>
        disable .getUpdates fault
          (.updates
            { status := .restartRequired
              diagnostics := [internalErrorDiagnostic fault.message] })
          [.count (.updates .restartRequired)]
      | .ok update =>
        let diagnostics := update.report latest
        conclude fun s =>
          { reply := .updates ⟨update.status, update.deltas, diagnostics⟩
            state :=
              if update.status = .ready then
                s.modifySession fun session => { session with pending := some latest }
              else s
            effects :=
              [coordinatorLog .getUpdates .info "Updates computed"
                  [("status", update.status.text), ("from", versionLabel session.committed.version),
                    ("to", versionLabel latest.version), ("deltas", toString update.deltas.length),
                    ("diagnostics", toString diagnostics.length)],
                .count (.updates update.status),
                .publish (.updatesComputed update.status latest.version update.deltas.length
                  diagnostics.length)] }

/-- The pending snapshot becomes the committed one. -/
def commitPlan (s : SessionState) : Plan :=
  let violation := disable .commitUpdates (.protocol .commitWithoutPending)
    (.violation .commitWithoutPending)
  match s with
  | .disabled _ => .reply .done
  | .noSession => violation
  | .active session =>
    match session.pending with
    | none => violation
    | some pending =>
      awaitOrDisable .commitUpdates .settled (.commit session.engine) .done fun _ =>
        conclude fun s =>
          { reply := .done
            state := s.modifySession fun session =>
              { session with
                committed := session.pending.getD session.committed
                pending := none }
            effects :=
              [coordinatorLog .commitUpdates .info "Updates committed"
                  [("version", versionLabel pending.version)],
                .count .commits, .audit (.updatesCommitted pending.version),
                .publish (.committed pending.version)] }

/-- The pending snapshot is dropped. -/
def discardPlan (s : SessionState) : Plan :=
  let violation := disable .discardUpdates (.protocol .discardWithoutPending)
    (.violation .discardWithoutPending)
  match s with
  | .disabled _ => .reply .done
  | .noSession => violation
  | .active session =>
    match session.pending with
    | none => violation
    | some pending =>
      awaitOrDisable .discardUpdates .settled (.discard session.engine) .done fun _ =>
        conclude fun s =>
          { reply := .done
            state := s.modifySession fun session => { session with pending := none }
            effects := [.count .discards, .publish (.discarded pending.version)] }

def finishPlan (s : SessionState) : Plan :=
  match s.session? with
  | none => .reply .done
  | some session =>
    awaitOrDisable .endSession .settled (.closeSession session.engine) .done fun _ =>
      conclude fun _ =>
        { reply := .done
          state := .noSession
          effects :=
            [coordinatorLog .endSession .info "Hot reload session ended"
                [("session_id", session.engine.uuid.text)],
              .audit .sessionEnded, .publish .ended] }

end SessionState

/-- The plan for a request, made when its turn comes. -/
def Request.plan (settings : SessionSettings) (s : SessionState) : Request → Plan
  | .start => s.startPlan settings
  | .enterBreak => s.breakPlan .enterBreak (some true)
  | .exitBreak => s.breakPlan .exitBreak (some false)
  | .capabilitiesChanged => s.breakPlan .capabilitiesChanged none
  | .hasChanges scope => s.hasChangesPlan settings scope
  | .getUpdates => s.getUpdatesPlan
  | .commit => s.commitPlan
  | .discard => s.discardPlan
  | .finish => s.finishPlan

end LiveEdit
