import LiveEdit.Session.Gate
import LiveEdit.Session.Plan

/-!
A coordinator with any number of requests under way. Each request is a task with a token of its
own; tasks take turns at the gate and wait for their calls, and every step of one is a function
on the whole system.
-/

namespace LiveEdit

/-- Where a task stands. -/
inductive Position where
  /-- It waits for its turn. -/
  | waiting
  /-- It waits for a call. -/
  | inCall (discipline : Discipline) (call : Call) (resume : Except Fault call.Answer → Plan)
  | ended (reply : Reply)
  | dropped

structure Task where
  request : Request
  /-- Whether its token has fired. -/
  fired : Bool
  position : Position := .waiting

structure System where
  settings : SessionSettings
  state : SessionState := .noSession
  gate : Gate := {}
  tasks : List Task := []
  /-- All that the world was told so far. -/
  history : List Effect := []

namespace System

def task? (sys : System) (i : Nat) : Option Task := sys.tasks[i]?

def hasFired (sys : System) (i : Nat) : Bool := (sys.task? i).any (·.fired)

def reply? (sys : System) (i : Nat) : Option Reply :=
  match sys.task? i with
  | some ⟨_, _, .ended reply⟩ => some reply
  | _ => none

def setPosition (sys : System) (i : Nat) (p : Position) : System :=
  { sys with tasks := sys.tasks.modify i fun t => { t with position := p } }

/-- A task leaves for good. -/
def leave (sys : System) (i : Nat) (p : Position) : System :=
  { sys.setPosition i p with gate := sys.gate.leave i }

/-- A new request, with a token that may have fired before. -/
def issue (sys : System) (r : Request) (fired : Bool) : System :=
  { sys with tasks := sys.tasks ++ [{ request := r, fired }] }

def fire (sys : System) (i : Nat) : System :=
  { sys with tasks := sys.tasks.modify i fun t => { t with fired := true } }

/-- Nobody waits for the task any more. One that has ended stays as it is. -/
def drop (sys : System) (i : Nat) : System :=
  match sys.reply? i with
  | some _ => sys
  | none => sys.leave i .dropped

/-- A task comes to the gate: it gives up if its token has fired, else it joins the queue. -/
def approach (sys : System) (i : Nat) : System :=
  if sys.hasFired i then sys.leave i (.ended .cancelled)
  else { sys with gate := sys.gate.join i }

/-- What a task does when it has its turn. -/
def planOf (sys : System) (r : Request) : Plan := r.plan sys.settings sys.state

/--
A task comes to the next point of its plan. No call is started once the token has fired. A
conclusion happens at once: nobody sees it half done.
-/
def arrive (sys : System) (i : Nat) : Plan → System
  | .conclude conclusion =>
    let c := conclusion sys.state
    { sys.leave i (.ended c.reply) with state := c.state, history := sys.history ++ c.effects }
  | .await discipline call resume =>
    if sys.hasFired i then sys.leave i (.ended .cancelled)
    else sys.setPosition i (.inCall discipline call resume)

/-- A task gives up the call it waits for, if the call may be given up and the token has fired. -/
def giveUp (sys : System) (i : Nat) : System :=
  match sys.task? i with
  | some ⟨_, true, .inCall .interruptible _ _⟩ => sys.leave i (.ended .cancelled)
  | _ => sys

end System

end LiveEdit
