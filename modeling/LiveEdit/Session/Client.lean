import LiveEdit.Session.Plan

/-!
Clients of a coordinator: they make requests one after the other under one token, and look at
the session between them.
-/

namespace LiveEdit

inductive Client (α : Type) where
  | done (a : α)
  /-- Makes a request and waits for the reply. -/
  | ask (request : Request) (next : Reply → Client α)
  /-- Looks at the session's state. -/
  | look (next : SessionState → Client α)
  /-- Asks whether the client's token has fired. -/
  | poll (next : Bool → Client α)
  /-- Brings the store up to date with the source tree, and learns whether that worked. -/
  | rescan (next : Bool → Client α)
  /-- Logs diagnostics. -/
  | note (diagnostics : List Diagnostic) (rest : Client α)

namespace Client

variable {α β : Type}

def bind : Client α → (α → Client β) → Client β
  | done a, f => f a
  | ask request next, f => ask request fun reply => (next reply).bind f
  | look next, f => look fun s => (next s).bind f
  | poll next, f => poll fun fired => (next fired).bind f
  | rescan next, f => rescan fun ok => (next ok).bind f
  | note diagnostics rest, f => note diagnostics (rest.bind f)

instance : Monad Client where
  pure := done
  bind := bind

def request (r : Request) : Client Reply := ask r done

def state : Client SessionState := look done

def hasFired : Client Bool := poll done

def updateStore : Client Bool := rescan done

def log (diagnostics : List Diagnostic) : Client Unit := note diagnostics (done ())

end Client

end LiveEdit
