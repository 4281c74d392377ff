import LiveEdit.Engine.Checksum

/-! The state of a coordinator: no session, an active one, or disabled for good. -/

namespace LiveEdit

inductive BreakState where
  /-- Nothing was reported yet. -/
  | unknown
  | running
  | broken
  deriving DecidableEq, Repr

namespace BreakState

def text : BreakState → String
  | .unknown => "unknown"
  | .running => "running"
  | .broken => "broken"

/-- A report of a stop or a resumption counts; no news changes nothing. -/
def apply (s : BreakState) : Option Bool → BreakState
  | some true => .broken
  | some false => .running
  | none => s

end BreakState

/-- What a coordinator can be asked to do. -/
inductive Operation where
  | startSession
  | enterBreak
  | exitBreak
  | capabilitiesChanged
  | hasChanges
  | getUpdates
  | commitUpdates
  | discardUpdates
  | endSession
  deriving DecidableEq, Repr

namespace Operation

def text : Operation → String
  | .startSession => "start_session"
  | .enterBreak => "enter_break"
  | .exitBreak => "exit_break"
  | .capabilitiesChanged => "capabilities_changed"
  | .hasChanges => "has_changes"
  | .getUpdates => "get_updates"
  | .commitUpdates => "commit_updates"
  | .discardUpdates => "discard_updates"
  | .endSession => "end_session"

def all : List Operation :=
  [.startSession, .enterBreak, .exitBreak, .capabilitiesChanged, .hasChanges, .getUpdates,
   .commitUpdates, .discardUpdates, .endSession]

end Operation

/-- Why hot reload was turned off. -/
structure DisableReason where
  operation : Operation
  message : String
  deriving DecidableEq, Repr

structure ActiveSession where
  /-- The engine's session. -/
  engine : EngineSessionId
  /-- The snapshot that the process runs. -/
  committed : Snapshot
  /-- The snapshot of the last ready update, until it is committed or discarded. -/
  pending : Option Snapshot := none
  breakState : BreakState := .unknown
  deriving DecidableEq

inductive SessionState where
  | noSession
  | active (session : ActiveSession)
  | disabled (reason : DisableReason)
  deriving DecidableEq

inductive Phase where
  | noSession
  | active
  | disabled
  deriving DecidableEq, Repr

def Phase.text : Phase → String
  | .noSession => "no_session"
  | .active => "active"
  | .disabled => "disabled"

namespace SessionState

def phase : SessionState → Phase
  | .noSession => .noSession
  | .active _ => .active
  | .disabled _ => .disabled

def session? : SessionState → Option ActiveSession
  | .active session => some session
  | _ => none

def isDisabled : SessionState → Bool
  | .disabled _ => true
  | _ => false

/-- Changes the active session; without one nothing changes. -/
def modifySession (f : ActiveSession → ActiveSession) : SessionState → SessionState
  | .active session => .active (f session)
  | s => s

end SessionState

/-- What everyone may know about a session. -/
structure SessionStatus where
  phase : Phase
  breakState : Option BreakState := none
  committed : Option (SnapshotId × Nat) := none
  pendingVersion : Option Nat := none
  disableReason : Option DisableReason := none
  deriving DecidableEq

def SessionState.status : SessionState → SessionStatus
  | .noSession => { phase := .noSession }
  | .active session =>
    { phase := .active
      breakState := some session.breakState
      committed := some (session.committed.id, session.committed.version)
      pendingVersion := session.pending.map (·.version) }
  | .disabled reason => { phase := .disabled, disableReason := some reason }

end LiveEdit
