import LiveEdit.Session.Client

/-!
The watcher's cycle: bring the store up to date, ask for changes, compute the update and settle
it by a commit or a discard.
-/

namespace LiveEdit

/-- What one cycle came to. Counts are of deltas or of diagnostics. -/
inductive TickOutcome where
  | unchanged
  | committed (deltas : Nat)
  | discarded (deltas : Nat)
  | blocked (diagnostics : Nat)
  | restartRequired (diagnostics : Nat)
  | scanFailed
  /-- There is no session to serve. -/
  | inactive
  deriving DecidableEq, Repr

def TickOutcome.name : TickOutcome → String
  | .unchanged => "Unchanged"
  | .committed _ => "Committed"
  | .discarded _ => "Discarded"
  | .blocked _ => "Blocked"
  | .restartRequired _ => "RestartRequired"
  | .scanFailed => "ScanFailed"
  | .inactive => "Inactive"

/-- Commits or discards a ready update. The result is none if the token fired. -/
def settle (autoCommit : Bool) (deltas : Nat) : Client (Option TickOutcome) := do
  match ← Client.request (if autoCommit then .commit else .discard) with
  | .done =>
    if (← Client.state).isDisabled then return some .inactive
    else if autoCommit then return some (.committed deltas)
    else return some (.discarded deltas)
  | .violation _ => return some .inactive
  | _ => return none

/-- What to do with a computed update. -/
def conclude (autoCommit : Bool) (u : Updates) : Client (Option TickOutcome) := do
  if (← Client.state).isDisabled then
    Client.log u.diagnostics
    return some .inactive
  else
    match u.status with
    | .ready => settle autoCommit u.deltas.length
    | .blocked =>
      Client.log u.diagnostics
      return some (.blocked u.diagnostics.length)
    | .restartRequired =>
      Client.log u.diagnostics
      return some (.restartRequired u.diagnostics.length)

/-- One cycle. The result is none if the token fired. -/
def tick (autoCommit : Bool) : Client (Option TickOutcome) := do
  if !(← Client.updateStore) then return some .scanFailed
  else if (← Client.state).session?.isNone then return some .inactive
  else
    match ← Client.request (.hasChanges none) with
    | .changed false => return some .unchanged
    | .changed true =>
      match ← Client.request .getUpdates with
      | .updates u => conclude autoCommit u
      | _ => return none
    | _ => return none

/-- Goes through at most so many cycles, until the token fires. -/
def watch (autoCommit : Bool) : Nat → Client Unit
  | 0 => return ()
  | cycles + 1 => do
    if ← Client.hasFired then return ()
    match ← tick autoCommit with
    | none => return ()
    | some _ => watch autoCommit cycles

end LiveEdit
