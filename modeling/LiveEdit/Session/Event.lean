import LiveEdit.Json.Basic
import LiveEdit.Session.State

/-! What a coordinator tells the world: events, audit records and counters. -/

namespace LiveEdit

/-- A change of the session's state, as its subscribers learn of it. -/
inductive SessionEvent where
  | started (version : Nat)
  | breakStateChanged (breakState : BreakState)
  | updatesComputed (status : UpdateStatus) (version deltas diagnostics : Nat)
  | committed (version : Nat)
  | discarded (version : Nat)
  | ended
  | disabled (operation : Operation) (message : String)
  deriving DecidableEq, Repr

namespace SessionEvent

def json : SessionEvent → Json
  | .started version => .object [("event", .string "started"), ("version", .ofNat version)]
  | .breakStateChanged breakState =>
    .object [("event", .string "break_state_changed"), ("break_state", .string breakState.text)]
  | .updatesComputed status version deltas diagnostics =>
    .object [("event", .string "updates_computed"), ("status", .string status.text),
      ("version", .ofNat version), ("deltas", .ofNat deltas), ("diagnostics", .ofNat diagnostics)]
  | .committed version => .object [("event", .string "committed"), ("version", .ofNat version)]
  | .discarded version => .object [("event", .string "discarded"), ("version", .ofNat version)]
  | .ended => .object [("event", .string "ended")]
  | .disabled operation message =>
    .object [("event", .string "disabled"), ("operation", .string operation.text),
      ("message", .string message)]

end SessionEvent

/-- The part of the program that a coordinator speaks for in the log. -/
def coordinatorTarget : String := "hotreload_kernel::session::coordinator"

/-- An entry of the audit trail. -/
inductive AuditRecord where
  | systemStartup (component : String)
  | systemShutdown (reason : String)
  | sessionStarted (version : Nat)
  | updatesCommitted (version : Nat)
  | sessionDisabled (operation reason : String)
  | sessionEnded
  deriving DecidableEq, Repr

namespace AuditRecord

def json : AuditRecord → Json
  | .systemStartup component =>
    .object [("event_type", .string "system_startup"), ("component", .string component)]
  | .systemShutdown reason =>
    .object [("event_type", .string "system_shutdown"), ("reason", .string reason)]
  | .sessionStarted version =>
    .object [("event_type", .string "session_started"), ("version", .ofNat version)]
  | .updatesCommitted version =>
    .object [("event_type", .string "updates_committed"), ("version", .ofNat version)]
  | .sessionDisabled operation reason =>
    .object [("event_type", .string "session_disabled"), ("operation", .string operation),
      ("reason", .string reason)]
  | .sessionEnded => .object [("event_type", .string "session_ended")]

end AuditRecord

/-- What a session counts. -/
inductive Counter where
  | sessionsStarted
  | updates (status : UpdateStatus)
  | commits
  | discards
  | disables (operation : Operation)
  deriving DecidableEq, Repr

/-- The counter's name and, in braces, what tells it from others of the name. -/
def Counter.series : Counter → String
  | .sessionsStarted => "hotreload_sessions_started_total"
  | .updates status => "hotreload_updates_total\x7bstatus=\"" ++ status.text ++ "\"\x7d"
  | .commits => "hotreload_commits_total"
  | .discards => "hotreload_discards_total"
  | .disables operation => "hotreload_disables_total\x7boperation=\"" ++ operation.text ++ "\"\x7d"

end LiveEdit
