import LiveEdit.Engine.Checksum
import LiveEdit.Text.Uuid

/-! What can go wrong in a session, and how it is put into words. -/

namespace LiveEdit

def SnapshotId.uuid (id : SnapshotId) : Uuid :=
  ⟨UInt64.ofNat id.publisher, UInt64.ofNat id.serial⟩

def SnapshotId.ofUuid (u : Uuid) : SnapshotId := ⟨u.high.toNat, u.low.toNat⟩

def EngineSessionId.uuid (id : EngineSessionId) : Uuid := ⟨0, UInt64.ofNat id.serial⟩

inductive ProviderError where
  | unavailable (message : String)
  | notRegistered (id : SnapshotId)
  deriving DecidableEq

def ProviderError.message : ProviderError → String
  | .unavailable message => "Snapshot source unavailable: " ++ message
  | .notRegistered id => "Snapshot not registered: " ++ id.uuid.text

def EngineError.message : EngineError → String
  | .unknownSession id => "Unknown engine session: " ++ id.uuid.text
  | .noPendingUpdate id => "No tentative update in engine session " ++ id.uuid.text
  | .internal message => "Internal engine error: " ++ message

/-- A request that the session's state does not allow. -/
inductive Violation where
  | commitWithoutPending
  | discardWithoutPending
  deriving DecidableEq, Repr

def Violation.message : Violation → String
  | .commitWithoutPending => "Commit requested without a pending update"
  | .discardWithoutPending => "Discard requested without a pending update"

/-- A failure that turns hot reload off, except in a mere check for changes. -/
inductive Fault where
  | provider (error : ProviderError)
  | engine (error : EngineError)
  | panic (message : String)
  | protocol (violation : Violation)
  deriving DecidableEq

def Fault.message : Fault → String
  | .provider error => "Snapshot provider failed: " ++ error.message
  | .engine error => "Diff engine failed: " ++ error.message
  | .panic message => "Collaborator panicked: " ++ message
  | .protocol violation => "Protocol violation: " ++ violation.message

/-- How a collaborator's call ends. A panic may carry a text. -/
inductive Outcome (ε α : Type) where
  | value (a : α)
  | error (e : ε)
  | panic (text : Option String)

/-- Whatever goes wrong in a collaborator becomes a fault. -/
def Outcome.contained {ε α : Type} (ofError : ε → Fault) : Outcome ε α → Except Fault α
  | .value a => .ok a
  | .error e => .error (ofError e)
  | .panic text => .error (.panic (text.getD "unknown panic payload"))

end LiveEdit
