import LiveEdit.Json.Printer
import LiveEdit.Log.Record
import LiveEdit.Session.Event

/-! Audit records go to the log under a target of their own. -/

namespace LiveEdit

def auditTarget : String := "audit"

namespace AuditRecord

/-- The name of the activity in whose course a record is made, if there is one. -/
def activity? : AuditRecord → Option String
  | .systemStartup _ => none
  | .systemShutdown _ => none
  | .sessionStarted _ => some Operation.startSession.text
  | .updatesCommitted _ => some Operation.commitUpdates.text
  | .sessionDisabled operation _ => some operation
  | .sessionEnded => some Operation.endSession.text

def logRecord (r : AuditRecord) : LogRecord :=
  { level := .info
    target := auditTarget
    message := "Audit Event"
    fields := [("audit_json", r.json.text)]
    spans :=
      r.activity?.toList.map (fun name => { target := coordinatorTarget, name }) ++
        [{ target := auditTarget, name := "audit_event" }] }

end AuditRecord

end LiveEdit
