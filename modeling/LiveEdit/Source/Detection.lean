import LiveEdit.Source.Snapshot

/-! A quick check for changes, which need not look at every document. -/

namespace LiveEdit

structure DetectionSettings where
  /-- Equal versions count as equal documents. -/
  trustVersions : Bool := true
  /-- A check of everything looks at generated documents too. -/
  includeGenerated : Bool := false
  deriving DecidableEq, Repr

namespace DocumentSet

/-- Whether a written document differs at the path; a generated one on either side hides it. -/
def differsAt (older newer : DocumentSet) (p : SourcePath) : Bool :=
  match older.find? p, newer.find? p with
  | none, none => false
  | some d, none | none, some d => !d.generated
  | some d, some e => !d.generated && !e.generated && !decide (d.SameSource e)

/-- Whether a relevant document of the newer set is new, or a relevant one of the older is gone. -/
def differsAnywhere (older newer : DocumentSet) (includeGenerated : Bool) : Bool :=
  let relevant (d : Document) : Bool := includeGenerated || !d.generated
  (newer.toList.any fun d => relevant d &&
    match older.find? d.path with
    | none => true
    | some e => !decide (e.SameSource d)) ||
  older.toList.any fun d => relevant d && (newer.find? d.path).isNone

end DocumentSet

namespace Snapshot

/-- Looks at one path if a scope is given, else at everything. -/
def differsFrom (committed latest : Snapshot) (scope : Option String)
    (settings : DetectionSettings) : Bool :=
  if committed.id = latest.id then false
  else if settings.trustVersions && committed.version == latest.version then false
  else match scope with
    | some spelling => committed.documents.differsAt latest.documents (.ofText spelling)
    | none => committed.documents.differsAnywhere latest.documents settings.includeGenerated

end Snapshot

end LiveEdit
