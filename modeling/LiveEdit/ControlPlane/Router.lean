import LiveEdit.ControlPlane.Counters
import LiveEdit.Net.Uri
import LiveEdit.Session.Fault
import LiveEdit.Text.Utf8

/-! The control plane: what it answers to a method and a path. -/

namespace LiveEdit

inductive Resource where
  | liveness
  | readiness
  | session
  /-- The snapshot of an identity, as it is written in the path. -/
  | snapshot (idText : String)
  | metrics
  deriving DecidableEq, Repr

inductive Body where
  | none
  | text (text : String)
  | status (status : SessionStatus)
  | snapshot (snapshot : Snapshot)
  | metrics (lines : List String)

structure Response where
  code : Nat
  body : Body := .none

def snapshotsPath : List Char := "/snapshots/".toList

/-- A path has no resource if it says more than a resource's path, be it a slash. -/
def Resource.ofPath? (path : String) : Option Resource :=
  if path = "/health/live" then some .liveness
  else if path = "/health/ready" then some .readiness
  else if path = "/session" then some .session
  else if path = "/metrics" then some .metrics
  else
    let cs := path.toList
    let id := cs.drop snapshotsPath.length
    if snapshotsPath.isPrefixOf cs ∧ ¬ id.isEmpty ∧ '/' ∉ id then some (.snapshot (String.ofList id))
    else none

/-- The resource of a request's target, whichever host the target names. -/
def Resource.ofTarget? (target : String) : Option Resource :=
  (Uri.parse? target).bind (ofPath? ·.path)

/-- The bytes that a path stands for: a percent sign and two digits stand for one byte. -/
def percentDecoded : List Char → List UInt8
  | '%' :: a :: b :: cs =>
    match hexValue? a, hexValue? b with
    | some x, some y => UInt8.ofNat (16 * x + y) :: percentDecoded cs
    | _, _ => String.utf8EncodeChar '%' ++ percentDecoded (a :: b :: cs)
  | c :: cs => String.utf8EncodeChar c ++ percentDecoded cs
  | [] => []

def snapshotId? (idText : String) : Option SnapshotId :=
  ((decodeUtf8? (percentDecoded idText.toList)).bind Uuid.parse?).map .ofUuid

/-- What the control plane answers from. -/
structure ControlPlane where
  state : SessionState
  find? : SnapshotId → Option Snapshot
  counters : Counters

namespace ControlPlane

def readiness : Phase → Response
  | .active => ⟨200, .text "OK"⟩
  | .noSession => ⟨503, .text "No session"⟩
  | .disabled => ⟨503, .text "Hot reload disabled"⟩

def get (plane : ControlPlane) : Resource → Response
  | .liveness => ⟨200, .text "OK"⟩
  | .readiness => readiness plane.state.phase
  | .session => ⟨200, .status plane.state.status⟩
  | .snapshot idText =>
    match snapshotId? idText with
    | none => ⟨400, .none⟩
    | some id =>
      match plane.find? id with
      | some s => ⟨200, .snapshot s⟩
      | none => ⟨404, .none⟩
  | .metrics => ⟨200, .metrics plane.counters.lines⟩

/-- A `HEAD` request gets what `GET` gets, with an empty text in place of a body. -/
def respond (plane : ControlPlane) (method target : String) : Response :=
  match Resource.ofTarget? target with
  | none => ⟨404, .none⟩
  | some resource =>
    if method = "GET" then plane.get resource
    else if method = "HEAD" then
      match plane.get resource with
      | ⟨code, .none⟩ => ⟨code, .none⟩
      | ⟨code, _⟩ => ⟨code, .text ""⟩
    else ⟨405, .none⟩

end ControlPlane

end LiveEdit
