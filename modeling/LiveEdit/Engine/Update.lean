import LiveEdit.Diagnostic.Basic

/-! What a diff engine says about a step from one snapshot to another. -/

namespace LiveEdit

inductive UpdateStatus where
  /-- The deltas can be applied. -/
  | ready
  /-- The sources have errors. -/
  | blocked
  /-- The edit cannot be applied to a running process. -/
  | restartRequired
  deriving DecidableEq, Repr

def UpdateStatus.text : UpdateStatus → String
  | .ready => "ready"
  | .blocked => "blocked"
  | .restartRequired => "restart_required"

/-- The new bytes of one source unit. -/
structure Delta where
  path : String
  project : String
  payload : List UInt8
  deriving DecidableEq

/-- The kinds of edit that no running process can take, in the order of their reports. -/
inductive RudeEditKind where
  | deleteUnit
  | signatureChange
  | activeStatementUpdate
  | unsupported
  deriving DecidableEq, Repr

def RudeEditKind.rank : RudeEditKind → Nat
  | .deleteUnit => 0
  | .signatureChange => 1
  | .activeStatementUpdate => 2
  | .unsupported => 3

structure RudeEdit where
  kind : RudeEditKind
  location : Location
  /-- What the message names; the location's path if absent. -/
  argument : Option String := none
  deriving DecidableEq

structure Update where
  status : UpdateStatus := .ready
  deltas : List Delta := []
  diagnostics : List Diagnostic := []
  rudeEdits : List RudeEdit := []
  syntaxError : Option Diagnostic := none
  deriving DecidableEq

end LiveEdit
