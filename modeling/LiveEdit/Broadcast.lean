/-! A channel that keeps the last few messages for receivers that read at their own pace. -/

namespace LiveEdit

structure Channel (α : Type) where
  capacity : Nat
  /-- The latest messages, oldest first. -/
  kept : List α := []
  /-- How many messages were sent so far. -/
  sent : Nat := 0
  isOpen : Bool := true

/-- What one reader has seen so far: all messages before the `next`. -/
structure Receiver where
  next : Nat
  deriving DecidableEq, Repr

/-- What a receiver gets. -/
inductive Received (α : Type) where
  | message (m : α)
  /-- So many messages were dropped before they could be read. -/
  | lagged (count : Nat)
  /-- There is nothing yet. -/
  | waiting
  /-- There is nothing, and nothing will come. -/
  | closed
  deriving DecidableEq, Repr

namespace Channel

variable {α : Type}

/-- The number of the oldest message that is kept. -/
def oldest (c : Channel α) : Nat := c.sent - c.kept.length

def publish (c : Channel α) (m : α) : Channel α :=
  let all := c.kept ++ [m]
  { c with kept := all.drop (all.length - c.capacity), sent := c.sent + 1 }

def close (c : Channel α) : Channel α := { c with isOpen := false }

/-- A new receiver gets what is sent from now on. -/
def subscribe (c : Channel α) : Receiver := ⟨c.sent⟩

/-- A receiver that fell behind is told so once, and goes on with the oldest message kept. -/
def receive (c : Channel α) (r : Receiver) : Received α × Receiver :=
  if r.next < c.oldest then (.lagged (c.oldest - r.next), ⟨c.oldest⟩)
  else
    match c.kept[r.next - c.oldest]? with
    | some m => (.message m, ⟨r.next + 1⟩)
    | none => (if c.isOpen then .waiting else .closed, r)

/-- Takes the next message without waiting. A receiver that fell behind gets nothing this time. -/
def receiveNow (c : Channel α) (r : Receiver) : Option α × Receiver :=
  match c.receive r with
  | (.message m, r) => (some m, r)
  | (_, r) => (none, r)

/-- Takes messages without waiting until there is none. -/
def drain (c : Channel α) : Nat → Receiver → List α × Receiver
  | 0, r => ([], r)
  | count + 1, r =>
    match c.receiveNow r with
    | (some m, r) =>
      let (ms, r) := c.drain count r
      (m :: ms, r)
    | (none, r) => ([], r)

end Channel

/-- As many session events are kept. -/
def eventCapacity : Nat := 256

def lagMessage (count : Nat) : String := "Receiver lagged behind by " ++ toString count ++ " events"

def closedMessage : String := "Event channel closed"

end LiveEdit
