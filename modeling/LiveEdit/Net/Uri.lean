/-!
Identifiers of resources: a path, or an authority with or without a scheme, a path and a query.
-/

namespace LiveEdit

structure Uri where
  /-- The text before the colon and the two slashes. -/
  scheme : Option String := none
  /-- A host, perhaps with a user's name and a port. -/
  authority : String := ""
  /-- With a scheme it is at least a slash. -/
  path : String := ""
  deriving DecidableEq, Repr

namespace Uri

/-- Visible characters, with these exceptions, may stand in an authority. -/
def isAuthorityChar (c : Char) : Bool :=
  '!' ≤ c && c ≤ '~' &&
    !(['"', '%', '<', '>', '\\', '^', '\x60', '{', '|', '}'].contains c)

/-- A path may hold more than an authority, also what is not in ASCII. -/
def isPathChar (c : Char) : Bool := '!' ≤ c && !(['<', '>', '\x60', '\x7f'].contains c)

def isQueryChar (c : Char) : Bool := '!' ≤ c && !(['"', '<', '>', '\x7f'].contains c)

def endsAuthority (c : Char) : Bool := c == '/' || c == '?' || c == '#'

def endsPath (c : Char) : Bool := c == '?' || c == '#'

/-- What is known of an authority after some of its characters. -/
structure AuthorityScan where
  /-- Colons since the last bracket or at sign. -/
  colons : Nat := 0
  opened : Bool := false
  closed : Bool := false
  /-- A percent sign was met since then. -/
  percent : Bool := false
  endsWithAt : Bool := false
  deriving DecidableEq, Repr

namespace AuthorityScan

def step? (s : AuthorityScan) (c : Char) : Option AuthorityScan :=
  let s := { s with endsWithAt := false }
  if c = ':' then if s.colons < 8 then some { s with colons := s.colons + 1 } else none
  else if c = '[' then if s.percent || s.opened then none else some { s with opened := true }
  else if c = ']' then
    if !s.opened || s.closed then none
    else some { s with closed := true, colons := 0, percent := false }
  else if c = '@' then some { s with endsWithAt := true, colons := 0, percent := false }
  else if c = '%' then some { s with percent := true }
  else if isAuthorityChar c then some s
  else none

def isComplete (s : AuthorityScan) : Bool :=
  s.opened == s.closed && s.colons ≤ 1 && !s.endsWithAt && !s.percent

end AuthorityScan

/-- A user's name before an at sign, a host, which may be in brackets, and a port. -/
def isAuthority (cs : List Char) : Bool :=
  (cs.foldlM AuthorityScan.step? {}).any (·.isComplete)

/-- The path of a path and a query; what follows a number sign does not matter. -/
def path? (cs : List Char) : Option (List Char) :=
  let (path, rest) := cs.span (!endsPath ·)
  let query := if rest.head? = some '?' then (rest.drop 1).takeWhile (· != '#') else []
  if path.all isPathChar && query.all isQueryChar then some path else none

def isSchemeChar (c : Char) : Bool := c.isAlphanum || ['+', '-', '.', '~'].contains c

def maxScheme : Nat := 64

/-- A scheme, and what follows the colon and the two slashes. -/
def scheme? (cs : List Char) : Option (List Char × List Char) :=
  match cs.span isSchemeChar with
  | (scheme, ':' :: '/' :: '/' :: rest) => some (scheme, rest)
  | _ => none

def maxBytes : Nat := 65534

def parse? (text : String) : Option Uri :=
  let cs := text.toList
  if text.isEmpty || maxBytes < text.utf8ByteSize then none
  else if cs.head? = some '/' then
    (path? cs).map fun path => { path := String.ofList path }
  else if text = "*" then some { path := text }
  else
    match scheme? cs with
    | none => if isAuthority cs && !cs.any endsAuthority then some { authority := text } else none
    | some (scheme, rest) =>
      let (authority, rest) := rest.span (!endsAuthority ·)
      if maxScheme < scheme.length || authority.isEmpty || !isAuthority authority then none
      else
        (path? rest).map fun path =>
          { scheme := some (String.ofList scheme)
            authority := String.ofList authority
            path := if path.isEmpty then "/" else String.ofList path }

end Uri

end LiveEdit
