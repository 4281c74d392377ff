import LiveEdit.Session.Client

/-! Notifications from the running process, passed on to the coordinator one by one. -/

namespace LiveEdit

inductive BridgeEvent where
  | breakEntered
  | breakExited
  | capabilitiesChanged
  deriving DecidableEq, Repr

def BridgeEvent.request : BridgeEvent → Request
  | .breakEntered => .enterBreak
  | .breakExited => .exitBreak
  | .capabilitiesChanged => .capabilitiesChanged

/-- Passes on events until there are no more or the token fires; counts those passed on. -/
def listen (handled : Nat) : List BridgeEvent → Client Nat
  | [] => return handled
  | event :: events => do
    if ← Client.hasFired then return handled
    match ← Client.request event.request with
    | .cancelled => return handled
    | _ => listen (handled + 1) events

end LiveEdit
