import LiveEdit.Diagnostic.Template
import LiveEdit.Engine.Update

/-! The diagnostics of a session, each with its identity and its message template. -/

namespace LiveEdit

structure Descriptor where
  id : String
  template : String
  deriving DecidableEq, Repr

namespace Descriptor

def message (d : Descriptor) (args : List String) : String := fill d.template args

def internalError : Descriptor :=
  ⟨"HR0001", "Hot reload can't continue due to an internal error: \x7b0\x7d"⟩

def invalidSource : Descriptor :=
  ⟨"HR0002", "Syntax error in '\x7b0\x7d' blocks applying changes"⟩

def rudeEdit : RudeEditKind → Descriptor
  | .deleteUnit =>
    ⟨"HR0101", "Deleting source unit '\x7b0\x7d' requires restarting the application"⟩
  | .signatureChange =>
    ⟨"HR0102", "Changing the signature of '\x7b0\x7d' requires restarting the application"⟩
  | .activeStatementUpdate =>
    ⟨"HR0103", "Updating an active statement in '\x7b0\x7d' requires restarting the application"⟩
  | .unsupported => ⟨"HR0104", "The change in '\x7b0\x7d' is not supported by the runtime"⟩

/-- The identity of a rude edit's descriptor tells its kind. -/
theorem rudeEdit_id_inj {kind kind' : RudeEditKind} :
    (rudeEdit kind).id = (rudeEdit kind').id ↔ kind = kind' := by
  cases kind <;> cases kind' <;> simp [rudeEdit]

/-- No rude edit has the identity of another diagnostic. -/
theorem rudeEdit_id_ne (kind : RudeEditKind) :
    (rudeEdit kind).id ≠ internalError.id ∧ (rudeEdit kind).id ≠ invalidSource.id := by
  cases kind <;> simp [rudeEdit, internalError, invalidSource]

end Descriptor

/-- Says that hot reload cannot go on. -/
def internalErrorDiagnostic (message : String) : Diagnostic :=
  { id := Descriptor.internalError.id
    severity := .restartRequired
    message := Descriptor.internalError.message [message] }

/-- An internal error is told in the very words of its cause. -/
theorem message_internalErrorDiagnostic (text : String) :
    (internalErrorDiagnostic text).message =
      "Hot reload can't continue due to an internal error: " ++ text := by
  have htemplate : Descriptor.internalError.template =
      "Hot reload can't continue due to an internal error: " ++ "\x7b0\x7d" ++ "" := rfl
  rw [internalErrorDiagnostic, Descriptor.message, htemplate,
    fill_once (by decide +kernel) (by decide +kernel), String.append_empty]

end LiveEdit
