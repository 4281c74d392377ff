/-! A lock that is handed on in the order in which it was asked for. -/

namespace LiveEdit

structure Gate where
  holder : Option Nat := none
  /-- Who waits, first come first. -/
  queue : List Nat := []
  deriving DecidableEq, Repr

namespace Gate

/-- Asks for the gate. To ask again changes nothing. -/
def join (g : Gate) (i : Nat) : Gate :=
  if g.holder = some i ∨ i ∈ g.queue then g
  else
    match g.holder with
    | none => { g with holder := some i }
    | some _ => { g with queue := g.queue ++ [i] }

/-- Gives the gate to the next in the queue, or stops waiting for it. -/
def leave (g : Gate) (i : Nat) : Gate :=
  if g.holder = some i then ⟨g.queue.head?, g.queue.tail⟩
  else { g with queue := g.queue.erase i }

end Gate

end LiveEdit
