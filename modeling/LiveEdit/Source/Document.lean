import LiveEdit.Digest
import LiveEdit.Source.Path

/-! One source document, and what makes two of them the same source. -/

namespace LiveEdit

structure Document where
  path : SourcePath
  project : String
  content : String
  generated : Bool := false
  deriving DecidableEq

namespace Document

def checksum (d : Document) : Digest := Digest.ofText d.content

/-- Neither the content's checksum nor the owner nor the kind of the document differs. -/
def SameSource (d e : Document) : Prop :=
  d.checksum = e.checksum ∧ d.project = e.project ∧ d.generated = e.generated

instance (d e : Document) : Decidable (d.SameSource e) :=
  inferInstanceAs (Decidable (_ ∧ _ ∧ _))

end Document

end LiveEdit
