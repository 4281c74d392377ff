import LiveEdit.Kernel.World
import LiveEdit.Session.Client

/-! Clients of a coordinator in its world. Each runs until it is done or waits for a task. -/

namespace LiveEdit.Kernel

abbrev Play := StateM World

/-- Runs a task's plan to its end. It stays open only if the script holds a call. -/
def serve (i : Nat) : Plan → Play (Option Reply)
  | .conclude conclusion => do
    modify (·.step (·.arrive i (.conclude conclusion)))
    return (← get).system.reply? i
  | .await discipline call resume => do
    modify (·.step (·.arrive i (.await discipline call resume)))
    match (← get).system.reply? i with
    | some reply => return some reply
    | none =>
      match ← modifyGet (·.noteCall call) with
      | .hold => return none
      | .cancelAndYield =>
        modify (·.step (·.fire i))
        match discipline with
        | .interruptible =>
          modify (·.step (·.giveUp i))
          return (← get).system.reply? i
        | .settled => serve i (resume (← modifyGet (·.perform call)))
      | .cancel =>
        modify (·.step (·.fire i))
        serve i (resume (← modifyGet (·.perform call)))
      | action => serve i (resume (← modifyGet (·.performAs action call)))

/-- Goes on with a task as far as it gets. -/
def attend (i : Nat) : Play (Option Reply) := do
  match (← get).system.task? i with
  | none => return none
  | some task =>
    match task.position with
    | .ended reply => return some reply
    | .dropped => return none
    | .waiting =>
      if task.request.takesGate then
        modify (·.step (·.approach i))
        match (← get).system.reply? i with
        | some reply => return some reply
        | none =>
          if (← get).system.gate.holder = some i then
            serve i ((← get).system.planOf task.request)
          else return none
      else serve i ((← get).system.planOf task.request)
    | .inCall discipline call resume =>
      if task.fired && discipline == .interruptible then
        modify (·.step (·.giveUp i))
        return (← get).system.reply? i
      else serve i (resume (← modifyGet (·.perform call)))

/-- How far a client gets. -/
inductive Progress (α : Type) where
  | finished (a : α)
  /-- It waits for a task. -/
  | stopped (task : Nat) (next : Reply → Client α)

def play {α : Type} (fired : Bool) : Client α → Play (Progress α)
  | .done a => return .finished a
  | .look next => do play fired (next (← get).system.state)
  | .poll next => play fired (next fired)
  | .rescan next => do play fired (next (← modifyGet (·.rescan)))
  | .note diagnostics rest => do
    modify fun w => { w with record := { w.record with noted := w.record.noted ++ diagnostics } }
    play fired rest
  | .ask request next => do
    let i := (← get).system.tasks.length
    modify (·.step (·.issue request fired))
    match ← attend i with
    | some reply => play ((← get).system.hasFired i) (next reply)
    | none => return .stopped i next

/-- Goes on with a client that waited. -/
def goOn {α : Type} (task : Nat) (next : Reply → Client α) : Play (Progress α) := do
  match ← attend task with
  | some reply => play ((← get).system.hasFired task) (next reply)
  | none => return .stopped task next

end LiveEdit.Kernel
