import LiveEdit.Number.Decimal
import LiveEdit.Text.Hex

/-! Internet addresses: strict reading, and the canonical way to write them. -/

namespace LiveEdit

inductive IpAddress where
  | v4 (a b c d : Nat)
  /-- Eight groups of 16 bits. -/
  | v6 (groups : List Nat)
  deriving DecidableEq, Repr

namespace IpAddress

/-- The hexadecimal digits at the front of a text, and what follows them. -/
def takeHex : List Char → List Nat × List Char
  | [] => ([], [])
  | c :: cs =>
    match hexValue? c with
    | none => ([], c :: cs)
    | some d => (d :: (takeHex cs).1, (takeHex cs).2)

/-- A byte in at most three decimal digits, with no zero in front. -/
def octet? (cs : List Char) : Option (Nat × List Char) :=
  let (digits, rest) := takeDigits cs
  if digits.isEmpty ∨ 3 < digits.length ∨ (1 < digits.length ∧ digits.head? = some 0) then none
  else if 255 < ofDigits digits then none
  else some (ofDigits digits, rest)

/-- A group of at most four hexadecimal digits. -/
def group? (cs : List Char) : Option (Nat × List Char) :=
  let (digits, rest) := takeHex cs
  if digits.isEmpty ∨ 4 < digits.length then none
  else some (digits.foldl (fun n d => 16 * n + d) 0, rest)

def expect? (c : Char) : List Char → Option (List Char)
  | d :: cs => if d = c then some cs else none
  | [] => none

/-- Four bytes with points between them. -/
def octets? (cs : List Char) : Option ((Nat × Nat × Nat × Nat) × List Char) := do
  let (a, cs) ← octet? cs
  let (b, cs) ← octet? (← expect? '.' cs)
  let (c, cs) ← octet? (← expect? '.' cs)
  let (d, cs) ← octet? (← expect? '.' cs)
  return ((a, b, c, d), cs)

/-- A colon is expected before every group but the first. -/
def afterColon? (isFirst : Bool) (cs : List Char) : Option (List Char) :=
  if isFirst then some cs else expect? ':' cs

/-- Groups read in a row, whether they end with four bytes, and what follows them. -/
structure GroupRun where
  groups : List Nat
  endsWithOctets : Bool
  rest : List Char

/-- At most so many groups; four bytes stand for two of them and end the row. -/
def groupRun (isFirst : Bool) : Nat → List Char → GroupRun
  | 0, cs => ⟨[], false, cs⟩
  | limit + 1, cs =>
    match if limit = 0 then none else (afterColon? isFirst cs).bind octets? with
    | some ((a, b, c, d), rest) => ⟨[256 * a + b, 256 * c + d], true, rest⟩
    | none =>
      match (afterColon? isFirst cs).bind group? with
      | none => ⟨[], false, cs⟩
      | some (g, rest) =>
        let run := groupRun false limit rest
        { run with groups := g :: run.groups }

/-- Eight groups, or fewer with a double colon for the missing zeros. -/
def groups? (cs : List Char) : Option (List Nat × List Char) := do
  let head := groupRun true 8 cs
  if head.groups.length = 8 then return (head.groups, head.rest)
  else if head.endsWithOctets then none
  else
    let cs ← expect? ':' (← expect? ':' head.rest)
    let tail := groupRun true (7 - head.groups.length) cs
    let zeros := List.replicate (8 - head.groups.length - tail.groups.length) 0
    return (head.groups ++ zeros ++ tail.groups, tail.rest)

def parse? (text : String) : Option IpAddress :=
  match octets? text.toList with
  | some ((a, b, c, d), rest) => if rest.isEmpty then some (.v4 a b c d) else none
  | none =>
    match groups? text.toList with
    | some (groups, rest) => if rest.isEmpty then some (.v6 groups) else none
    | none => none

def isV6 : IpAddress → Bool
  | v4 .. => false
  | v6 _ => true

def octetsText (a b c d : Nat) : String := ".".intercalate ([a, b, c, d].map toString)

def groupText (g : Nat) : String := String.ofList (Nat.toDigits 16 g)

def groupsText (groups : List Nat) : String := ":".intercalate (groups.map groupText)

def leadingZeros (groups : List Nat) : Nat := (groups.takeWhile (· == 0)).length

/-- Where the first of the longest runs of zeros starts, and its length. -/
def longestZeros (groups : List Nat) : Nat × Nat :=
  (List.range groups.length).foldl (fun best start =>
    let length := leadingZeros (groups.drop start)
    if best.2 < length then (start, length) else best) (0, 0)

/--
The longest run of at least two zero groups is written as a double colon. An address that holds
four bytes after five zero groups and one of all ones shows them as bytes.
-/
def text : IpAddress → String
  | v4 a b c d => octetsText a b c d
  | v6 groups =>
    match groups with
    | [0, 0, 0, 0, 0, 0xffff, g, h] =>
      "::ffff:" ++ octetsText (g / 256) (g % 256) (h / 256) (h % 256)
    | _ =>
      let (start, length) := longestZeros groups
      if length < 2 then groupsText groups
      else groupsText (groups.take start) ++ "::" ++ groupsText (groups.drop (start + length))

end IpAddress

/-- A place to listen on. -/
structure SocketAddress where
  ip : IpAddress
  port : Nat
  deriving DecidableEq, Repr

namespace SocketAddress

/-- A long address stands in brackets before its port. -/
def text (a : SocketAddress) : String :=
  (if a.ip.isV6 then "[" ++ a.ip.text ++ "]" else a.ip.text) ++ ":" ++ toString a.port

end SocketAddress

/-- Says that a host's name is no address. -/
def invalidAddressMessage (host : String) : String :=
  "Invalid IP address '" ++ host ++ "': invalid IP address syntax"

/-- The place that a host and a port name, or why they name none. -/
def SocketAddress.of (host : String) (port : Nat) : Except String SocketAddress :=
  match IpAddress.parse? host with
  | some ip => .ok ⟨ip, port⟩
  | none => .error (invalidAddressMessage host)

end LiveEdit
