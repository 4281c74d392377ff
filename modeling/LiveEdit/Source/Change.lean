import LiveEdit.Order.Sorting
import LiveEdit.Source.DocumentSet

/-! What differs between two document sets, as one list in path order. -/

namespace LiveEdit

inductive Change where
  /-- The document is only in the newer set. -/
  | added (document : Document)
  /-- The newer document at a path that both sets have, with another source. -/
  | modified (document : Document)
  /-- The document is only in the older set. -/
  | deleted (document : Document)
  deriving DecidableEq

namespace Change

def document : Change → Document
  | added d | modified d | deleted d => d

/-- The document that an applied change leaves in place. -/
def written? : Change → Option Document
  | added d | modified d => some d
  | deleted _ => none

/-- The document that an applied change takes away. -/
def removed? : Change → Option Document
  | added _ | modified _ => none
  | deleted d => some d

end Change

namespace DocumentSet

/-- What became of a document of the newer set. -/
def arrival? (older : DocumentSet) (d : Document) : Option Change :=
  match older.find? d.path with
  | none => some (.added d)
  | some e => if e.SameSource d then none else some (.modified d)

/-- What became of a document of the older set, if nothing took its place. -/
def departure? (newer : DocumentSet) (d : Document) : Option Change :=
  if (newer.find? d.path).isNone then some (.deleted d) else none

/-- Every difference once, in path order. -/
def changesTo (older newer : DocumentSet) : List Change :=
  inOrder (fun a b => !decide (b.document.path < a.document.path))
    (newer.toList.filterMap older.arrival? ++ older.toList.filterMap newer.departure?)

end DocumentSet

end LiveEdit
