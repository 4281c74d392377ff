import LiveEdit.Diagnostic.Descriptor
import LiveEdit.Order.Sorting
import LiveEdit.Source.Snapshot

/-! One list of diagnostics for an update: the engine's, the syntax error, then the rude edits. -/

namespace LiveEdit

/-- Rude edits are reported by location, and by kind where the location is the same. -/
def RudeEdit.compare (e f : RudeEdit) : Ordering :=
  (e.location.compare f.location).then (Ord.compare e.kind.rank f.kind.rank)

def RudeEdit.diagnostic (severity : Severity) (e : RudeEdit) : Diagnostic :=
  let descriptor := Descriptor.rudeEdit e.kind
  { id := descriptor.id
    severity
    message := descriptor.message [e.argument.getD e.location.path]
    location := some e.location }

/-- The diagnostic of a rude edit tells its kind. -/
theorem RudeEdit.diagnostic_id_inj {e f : RudeEdit} {s s' : Severity} :
    (e.diagnostic s).id = (f.diagnostic s').id ↔ e.kind = f.kind := Descriptor.rudeEdit_id_inj

/-- A diagnostic without a project gets that of the document it points into. -/
def Diagnostic.within (snapshot : Snapshot) (d : Diagnostic) : Diagnostic :=
  match d.project with
  | some _ => d
  | none => { d with project := d.location.bind fun l => snapshot.project? l.path }

/-- Rude edits are as severe as the update: they ask for a restart only if it does. -/
def Update.rudeSeverity (u : Update) : Severity :=
  if u.status = .restartRequired then .restartRequired else .error

def Update.rudeDiagnostics (u : Update) : List Diagnostic :=
  (inOrder (fun e f => (e.compare f).isLE) u.rudeEdits).map (·.diagnostic u.rudeSeverity)

def Update.report (u : Update) (snapshot : Snapshot) : List Diagnostic :=
  (u.diagnostics ++ u.syntaxError.toList ++ u.rudeDiagnostics).map (·.within snapshot)

end LiveEdit
