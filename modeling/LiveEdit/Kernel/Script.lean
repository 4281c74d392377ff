import LiveEdit.Session.Plan

/-!
What collaborators can be told to do in place of their work, call by call: fail, panic, stall or
fire the token of their caller.
-/

namespace LiveEdit.Kernel

/-- Where a call goes to. -/
inductive Place where
  | current
  | start
  | break
  | compute
  | commit
  | discard
  | finish
  deriving DecidableEq, Repr

def Place.of : Call → Place
  | .currentSnapshot => .current
  | .startSession _ _ => .start
  | .reportBreak _ _ => .break
  | .compute _ _ _ => .compute
  | .commit _ => .commit
  | .discard _ => .discard
  | .closeSession _ => .finish

/-- What a call is told to do. -/
inductive Action where
  | pass
  | fail (message : String)
  /-- The error that names an unknown identity. -/
  | unknown
  /-- The error that there is no tentative update. -/
  | noPending
  | panic (text : Option String)
  /-- Fires the token, then goes on at once. -/
  | cancel
  /-- Fires the token, waits a moment, then goes on. -/
  | cancelAndYield
  /-- Succeeds without asking the engine, with an update where one is asked for. -/
  | result (update : Update)
  /-- Waits to be let go. -/
  | hold
  deriving DecidableEq

/-- The fault that an action makes of a call. -/
def Action.fault? (action : Action) (call : Call) : Option Fault :=
  let atProvider := Place.of call = .current
  match action with
  | .fail message =>
    some (if atProvider then .provider (.unavailable message) else .engine (.internal message))
  | .unknown =>
    some (if atProvider then .provider (.notRegistered ⟨0, 0⟩) else .engine (.unknownSession ⟨0⟩))
  | .noPending =>
    some (if atProvider then .provider (.notRegistered ⟨0, 0⟩) else .engine (.noPendingUpdate ⟨0⟩))
  | .panic text =>
    match (Outcome.panic text : Outcome EngineError Unit).contained .engine with
    | .error fault => some fault
    | .ok () => none
  | _ => none

/-- The answer to a call that succeeds without being made. -/
def scriptedAnswer? (update : Update) : (call : Call) → Option call.Answer
  | .compute _ _ _ => some update
  | .commit _ => some ()
  | .discard _ => some ()
  | .closeSession _ => some ()
  | _ => none

end LiveEdit.Kernel
