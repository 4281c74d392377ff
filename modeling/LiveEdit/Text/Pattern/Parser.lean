import LiveEdit.Text.Alphanumeric
import LiveEdit.Text.Hex
import LiveEdit.Text.Pattern.Basic

/-!
The notation of patterns: `.`, sets in brackets, groups, bars, `*`, `+`, `?`, edges, escapes and
switches. Counts are no part of it. Neither is what would need a table of all characters: classes
and cases of letters can be asked for only where a switch confines them to ASCII.
-/

namespace LiveEdit

inductive PatternError where
  | malformed
  /-- An edge of a word is asked for, and words are not confined to ASCII. -/
  | wordEdge
  deriving DecidableEq, Repr

namespace CharSet

/-- Names that sets go by within brackets. -/
def named : List (String × List (Char × Char)) :=
  [("alnum", [('0', '9'), ('A', 'Z'), ('a', 'z')]), ("alpha", [('A', 'Z'), ('a', 'z')]),
    ("ascii", [('\x00', '\x7f')]), ("blank", [('\t', '\t'), (' ', ' ')]),
    ("cntrl", [('\x00', '\x1f'), ('\x7f', '\x7f')]), ("digit", [('0', '9')]),
    ("graph", [('!', '~')]), ("lower", [('a', 'z')]), ("print", [(' ', '~')]),
    ("punct", [('!', '/'), (':', '@'), ('[', '\x60'), ('\x7b', '~')]),
    ("space", [('\t', '\r'), (' ', ' ')]), ("upper", [('A', 'Z')]),
    ("word", [('0', '9'), ('A', 'Z'), ('_', '_'), ('a', 'z')]),
    ("xdigit", [('0', '9'), ('A', 'F'), ('a', 'f')])]

/-- A name up to a colon and a bracket; an accent in front means all but these. -/
def named? (cs : List Char) : Option (CharSet × List Char) :=
  let (negated, cs) := if cs.head? = some '^' then (true, cs.drop 1) else (false, cs)
  match cs.span (· ≠ ':') with
  | (name, ':' :: ']' :: rest) => do
    let set := ofRanges (← named.lookup (String.ofList name))
    return (if negated then set.complement else set, rest)
  | _ => failure

/-- The set that a letter after a backslash stands for. -/
def lettered? : Char → Option CharSet
  | 'd' => some (range '0' '9')
  | 'D' => some (range '0' '9').complement
  | 's' => some (ofRanges [('\t', '\r'), (' ', ' ')])
  | 'S' => some (ofRanges [('\t', '\r'), (' ', ' ')]).complement
  | 'w' => some word
  | 'W' => some word.complement
  | _ => none

end CharSet

namespace Pattern

/-- What switches say about the signs after them. -/
structure Switches where
  anyCase : Bool := false
  /-- A dot stands for the end of a line too. -/
  dotAll : Bool := false
  /-- `^` and `$` mean lines. -/
  lines : Bool := false
  /-- Preferably seldom is the rule, and often is asked for. -/
  seldom : Bool := false
  /-- Blanks, and remarks after `#`, do not count. -/
  spaced : Bool := false
  /-- Sets are of all characters, not of ASCII. -/
  wide : Bool := true
  deriving DecidableEq, Repr

namespace Switches

/-- A switch for line ends is known and, as lines go here, changes nothing. -/
def set? (s : Switches) (value : Bool) : Char → Option Switches
  | 'i' => some { s with anyCase := value }
  | 's' => some { s with dotAll := value }
  | 'm' => some { s with lines := value }
  | 'U' => some { s with seldom := value }
  | 'x' => some { s with spaced := value }
  | 'u' => some { s with wide := value }
  | 'R' => some s
  | _ => none

/-- Letters that switch on and, after a dash, off. None may be repeated, nor may the dash end. -/
def read? (s : Switches) (letters : List Char) : Option Switches :=
  if letters.eraseDups.length < letters.length ∨ letters.getLast? = some '-' then none
  else
    let (on, off) := letters.span (· ≠ '-')
    do (off.drop 1).foldlM (·.set? false) (← on.foldlM (·.set? true) s)

/-- What comes after blanks and remarks, if they do not count. -/
def skip (s : Switches) (cs : List Char) : List Char :=
  if s.spaced then go false cs else cs
where
  go (remark : Bool) : List Char → List Char
    | [] => []
    | c :: cs =>
      if remark then go (c != '\n') cs
      else if c = '#' then go true cs
      else if CharClass.blank.contains c then go false cs
      else c :: cs

/-- A character by itself. Its cases are known only in ASCII. -/
def single? (s : Switches) (c : Char) : Option CharSet :=
  if !s.anyCase then some (.single c)
  else if s.wide then none
  else some (if c.toNat < 0x80 then (CharSet.single c).anyCase else .single c)

/-- What a set becomes by its closing bracket. -/
def close? (s : Switches) (negated : Bool) (set : CharSet) : Option CharSet :=
  if s.anyCase ∧ s.wide then none
  else
    let set := if s.anyCase then set.anyCase else set
    some (if negated then set.complement else set)

/-- Whether a set is allowed as a whole: one of ASCII must not go beyond it. -/
def allows (s : Switches) (set : CharSet) : Bool := s.wide || !set.contains '\x80'

end Switches

/-- The character of so many hexadecimal digits. -/
def codePoint? (digits : Nat) (cs : List Char) : Option (Char × List Char) := do
  if cs.length < digits then failure
  let n ← ofHex? (cs.take digits)
  if n.isValidChar then return (Char.ofNat n, cs.drop digits) else failure

/-- A character as it stands after a backslash. Punctuation stands for itself. -/
def escaped? : List Char → Option (Char × List Char)
  | 'a' :: cs => some ('\x07', cs)
  | 'f' :: cs => some ('\x0c', cs)
  | 'n' :: cs => some ('\n', cs)
  | 'r' :: cs => some ('\r', cs)
  | 't' :: cs => some ('\t', cs)
  | 'v' :: cs => some ('\x0b', cs)
  | 'x' :: cs => codePoint? 2 cs
  | 'u' :: cs => codePoint? 4 cs
  | 'U' :: cs => codePoint? 8 cs
  | c :: cs => if c.toNat < 0x80 ∧ !c.isAlphanum ∧ c ≠ '<' ∧ c ≠ '>' then some (c, cs) else none
  | [] => none

/-- One character of a set, as it stands or escaped. -/
def setChar? (s : Switches) (cs : List Char) : Option (Char × List Char) := do
  let (c, rest) ← match cs with
    | '\\' :: cs => escaped? cs
    | c :: cs => some (c, cs)
    | [] => none
  if s.wide ∨ c.toNat < 0x80 then return (c, rest) else failure

/-- The start of a set: whether it is meant by what is not in it, and what surely is in it. -/
def setFront (s : Switches) (cs : List Char) : Bool × CharSet × List Char :=
  let cs := s.skip cs
  let (negated, cs) := if cs.head? = some '^' then (true, s.skip (cs.drop 1)) else (false, cs)
  match cs with
  | '-' :: _ => (negated, .single '-', cs.dropWhile (· = '-'))
  | ']' :: rest => (negated, .single ']', rest)
  | _ => (negated, .nothing, cs)

/-- What two signs between sets mean. -/
def setSign? : List Char → Option ((CharSet → CharSet → CharSet) × List Char)
  | '&' :: '&' :: cs => some (CharSet.inter, cs)
  | '-' :: '-' :: cs => some (CharSet.diff, cs)
  | '~' :: '~' :: cs => some (fun s t => (s.diff t).union (t.diff s), cs)
  | _ => none

/-- One item of a set: a character, a range of them or a lettered set. -/
def setItem? (s : Switches) (cs : List Char) : Option (CharSet × List Char) :=
  match cs with
  | '\\' :: c :: rest =>
    match CharSet.lettered? c with
    | some set =>
      if s.wide ∨ startsRange rest then none else some (set, rest)
    | none => range? cs
  | cs => range? cs
where
  /-- A dash makes a range, unless another one or the end of the set follows. -/
  startsRange (cs : List Char) : Bool :=
    match s.skip cs with
    | '-' :: cs => !([some ']', some '-'].contains (s.skip cs).head?)
    | _ => false
  range? (cs : List Char) : Option (CharSet × List Char) := do
    let (first, rest) ← setChar? s cs
    if startsRange rest then
      let (last, rest) ← setChar? s (s.skip ((s.skip rest).drop 1))
      if first ≤ last then return (.range first last, rest) else failure
    else return (.single first, rest)

/--
The rest of a set up to its closing bracket. What came before the last sign between sets waits in
`pending` for what comes after it.
-/
def setRest? (s : Switches) : Nat → (pending : CharSet → CharSet) → CharSet → List Char →
    Option (CharSet × List Char)
  | 0, _, _, _ => none
  | fuel + 1, pending, set, cs =>
    let cs := s.skip cs
    match setSign? cs, cs with
    | some (sign, rest), _ => setRest? s fuel (sign (pending set)) .nothing rest
    | none, [] => none
    | none, ']' :: rest => some (pending set, rest)
    | none, '[' :: rest =>
      match rest.head?, CharSet.named? (rest.drop 1) with
      | some ':', some (part, rest) => setRest? s fuel pending (set.union part) rest
      | _, _ => do
        let (negated, front, rest) := setFront s rest
        let (part, rest) ← setRest? s fuel id front rest
        setRest? s fuel pending (set.union (← s.close? negated part)) rest
    | none, cs => do
      let (part, rest) ← setItem? s cs
      setRest? s fuel pending (set.union part) rest

/-- A set after its opening bracket. -/
def set? (s : Switches) (cs : List Char) : Option (CharSet × List Char) := do
  let (negated, front, rest) := setFront s cs
  let (set, rest) ← setRest? s (cs.length + 1) id front rest
  let set ← s.close? negated set
  if s.allows set then return (set, rest) else failure

/-- A group that is not closed yet. -/
structure Open where
  /-- The choices before the last bar. -/
  before : Option Pattern := none
  /-- What follows that, the last part first; none stands for switches. -/
  parts : List (Option Pattern) := []

namespace Open

def choice (o : Open) : Pattern :=
  let last := (o.parts.filterMap id).reverse.foldl seq empty
  o.before.elim last (·.either last)

def add (o : Open) (p : Option Pattern) : Open := { o with parts := p :: o.parts }

def bar (o : Open) : Open := { before := some o.choice }

/-- Changes the last part. -/
def modifyLast? (o : Open) (f : Pattern → Pattern) : Option Open :=
  match o.parts with
  | some p :: ps => some { o with parts := some (f p) :: ps }
  | _ => none

end Open

/-- What was read of a pattern. -/
structure Reading where
  switches : Switches := {}
  here : Open := {}
  /-- The groups around, and the switches that hold in them. -/
  around : List (Switches × Open) := []
  /-- Names of groups. -/
  names : List String := []
  /-- An edge of a word was asked for that is not confined to ASCII. -/
  wideEdge : Bool := false

namespace Reading

def add (r : Reading) (p : Pattern) : Reading := { r with here := r.here.add (some p) }

def opened (r : Reading) (switches : Switches) : Reading :=
  { r with switches, here := {}, around := (r.switches, r.here) :: r.around }

def close? (r : Reading) : Option Reading :=
  match r.around with
  | [] => none
  | (switches, outer) :: around =>
    some { r with switches, here := outer.add (some r.here.choice), around }

/-- A dot stands for any character but the end of a line. -/
def dot? (r : Reading) : Option Reading :=
  if !r.switches.wide then none
  else if r.switches.dotAll then some (r.add (.char (.complement .nothing)))
  else some (r.add (.char (.complement (.single '\n'))))

def wordEdge (r : Reading) (e : Edge) : Reading :=
  if r.switches.wide then { r.add .empty with wideEdge := true } else r.add (.edge e)

def isNameStart (c : Char) : Bool := c == '_' || CharClass.alphanumeric.contains c && !c.isDigit

def isNameChar (c : Char) : Bool :=
  CharClass.alphanumeric.contains c || ['_', '.', '[', ']'].contains c

/-- The start of a group with a name. No two groups have the same. -/
def named? (r : Reading) (cs : List Char) : Option (Reading × List Char) :=
  match cs.span (· ≠ '>') with
  | (c :: name, '>' :: rest) =>
    let text := String.ofList (c :: name)
    if isNameStart c ∧ name.all isNameChar ∧ !r.names.contains text then
      some ({ r.opened r.switches with names := text :: r.names }, rest)
    else none
  | _ => none

/-- Switches for the rest of a group, or for a group of their own. -/
def switched? (r : Reading) (cs : List Char) : Option (Reading × List Char) := do
  let (letters, rest) := cs.span fun c => c ≠ ':' ∧ c ≠ ')'
  let switches ← r.switches.read? letters
  match rest with
  | ':' :: rest => return (r.opened switches, rest)
  | ')' :: rest =>
    if letters.isEmpty then failure
    return ({ r with switches, here := r.here.add none }, rest)
  | _ => failure

def group? (r : Reading) (cs : List Char) : Option (Reading × List Char) :=
  match r.switches.skip cs with
  | '?' :: 'P' :: '<' :: cs => r.named? cs
  | '?' :: '<' :: cs => r.named? cs
  | '?' :: cs => r.switched? cs
  | cs => some (r.opened r.switches, cs)

def escape? (r : Reading) (cs : List Char) : Option (Reading × List Char) :=
  match cs with
  | 'A' :: cs => some (r.add (.edge .textStart), cs)
  | 'z' :: cs => some (r.add (.edge .textEnd), cs)
  | 'b' :: cs => some (r.wordEdge .word, cs)
  | 'B' :: cs => some (r.wordEdge .noWord, cs)
  | '<' :: cs => some (r.wordEdge .wordStart, cs)
  | '>' :: cs => some (r.wordEdge .wordEnd, cs)
  | _ =>
    match cs.head?.bind CharSet.lettered? with
    | some set =>
      if r.switches.wide || !r.switches.allows set then none
      else some (r.add (.char set), cs.drop 1)
    | none => do
      let (c, rest) ← escaped? cs
      let set ← r.switches.single? c
      if r.switches.wide ∨ c.toNat < 0x80 then return (r.add (.char set), rest) else failure

/-- How often the last part may stand; a question mark after the sign turns the preference. -/
def repeat? (r : Reading) (sign : Char) (cs : List Char) : Option (Reading × List Char) := do
  let turned := cs.head? = some '?'
  let greedy := r.switches.seldom == turned
  let here ← r.here.modifyLast? fun p =>
    if sign = '*' then many greedy p
    else if sign = '+' then seq p (many greedy p)
    else if greedy then either p empty
    else either empty p
  return ({ r with here }, if turned then cs.drop 1 else cs)

/-- Goes on by one sign. -/
def step? (r : Reading) (c : Char) (cs : List Char) : Option (Reading × List Char) :=
  match c with
  | '(' => r.group? cs
  | ')' => r.close?.map (·, cs)
  | '|' => some ({ r with here := r.here.bar }, cs)
  | '.' => r.dot?.map (·, cs)
  | '^' => some (r.add (.edge (if r.switches.lines then .lineStart else .textStart)), cs)
  | '$' => some (r.add (.edge (if r.switches.lines then .lineEnd else .textEnd)), cs)
  | '[' => (set? r.switches cs).map fun (set, rest) => (r.add (.char set), rest)
  | '\\' => r.escape? cs
  | '{' => none
  | '*' | '+' | '?' => r.repeat? c cs
  | c => (r.switches.single? c).map fun set => (r.add (.char set), cs)

/-- Goes on to the end of the text, where no group may be open. -/
def finish? : Nat → Reading → List Char → Option Reading
  | 0, _, _ => none
  | fuel + 1, r, cs =>
    match r.switches.skip cs with
    | [] => if r.around.isEmpty then some r else none
    | c :: cs => do
      let (r, cs) ← r.step? c cs
      finish? fuel r cs

end Reading

def parse (text : String) : Except PatternError Pattern :=
  let cs := text.toList
  match Reading.finish? (cs.length + 1) {} cs with
  | some r => if r.wideEdge then .error .wordEdge else .ok r.here.choice
  | none => .error .malformed

end Pattern

end LiveEdit
