import LiveEdit.Diagnostic.Descriptor
import LiveEdit.Source.Change

/-! Where a marker first occurs in a text, as a line and a column counted in bytes. -/

namespace LiveEdit

/-- The text before the first occurrence of a pattern. -/
def textBefore? (pattern : List Char) : List Char → Option (List Char)
  | [] => if pattern.isEmpty then some [] else none
  | c :: cs =>
    if pattern.isPrefixOf (c :: cs) then some []
    else (textBefore? pattern cs).map (c :: ·)

/-- The end of a text, after its last line break. -/
def lastLine : List Char → List Char
  | [] => []
  | c :: cs => if '\n' ∈ cs then lastLine cs else if c = '\n' then cs else c :: cs

def byteCount : List Char → Nat
  | [] => 0
  | c :: cs => c.utf8Size + byteCount cs

/-- Lines and columns are 32-bit numbers; larger ones are all shown as the largest. -/
def clampedCoordinate (n : Nat) : Nat := min n 0xffffffff

/-- The place right after a text. -/
def positionAfter (before : List Char) : SourceSpan :=
  .point (clampedCoordinate (before.count '\n' + 1))
    (clampedCoordinate (byteCount (lastLine before) + 1))

def Document.markerError? (marker : String) (d : Document) : Option Diagnostic :=
  (textBefore? marker.toList d.content.toList).map fun before =>
    { id := Descriptor.invalidSource.id
      severity := .error
      message := Descriptor.invalidSource.message [d.path.text]
      location := some ⟨d.path.text, positionAfter before⟩ }

/-- The error of the first changed document that contains the marker. -/
def firstMarkerError? (marker : Option String) (changes : List Change) : Option Diagnostic :=
  marker.bind fun marker => changes.findSome? fun change =>
    change.written?.bind (·.markerError? marker)

end LiveEdit
