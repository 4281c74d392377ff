/-! Diagnostics: an identity, a severity, a message and, at most, a place and a project. -/

namespace LiveEdit

inductive Severity where
  | info
  | warning
  | error
  | restartRequired
  deriving DecidableEq, Repr

structure SourceSpan where
  startLine : Nat := 0
  startColumn : Nat := 0
  endLine : Nat := 0
  endColumn : Nat := 0
  deriving DecidableEq, Repr

namespace SourceSpan

def point (line column : Nat) : SourceSpan := ⟨line, column, line, column⟩

/-- Spans are compared by start line, start column, end line, end column, in this order. -/
def compare (s t : SourceSpan) : Ordering :=
  (Ord.compare s.startLine t.startLine).then <|
  (Ord.compare s.startColumn t.startColumn).then <|
  (Ord.compare s.endLine t.endLine).then <|
  Ord.compare s.endColumn t.endColumn

end SourceSpan

/-- A span in the file at a path, which may be in any spelling. -/
structure Location where
  path : String
  span : SourceSpan
  deriving DecidableEq, Repr

namespace Location

/-- By path, then by span. -/
def compare (l m : Location) : Ordering :=
  (Ord.compare l.path m.path).then (l.span.compare m.span)

end Location

structure Diagnostic where
  id : String
  severity : Severity
  message : String
  location : Option Location := none
  project : Option String := none
  deriving DecidableEq, Repr

end LiveEdit
