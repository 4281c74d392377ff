import LiveEdit.Json.Basic
import LiveEdit.Text.Hex

/-! Reading JSON text. A reader takes what it reads off the front of the text. -/

namespace LiveEdit.Json

def skipBlanks : List Char → List Char
  | c :: cs => if c = ' ' ∨ c = '\n' ∨ c = '\r' ∨ c = '\t' then skipBlanks cs else c :: cs
  | [] => []

/-- A code point other than a surrogate. -/
def scalar? (n : Nat) : Option Char :=
  if h : n.isValidChar then some (Char.ofNatAux n h) else none

def simpleEscape? : Char → Option Char
  | '"' => some '"'
  | '\\' => some '\\'
  | '/' => some '/'
  | 'b' => some '\x08'
  | 'f' => some '\x0c'
  | 'n' => some '\n'
  | 'r' => some '\r'
  | 't' => some '\t'
  | _ => none

/-- The rest of a string after its opening quote. Surrogates must come in pairs. -/
def stringBody? : List Char → Option (List Char × List Char)
  | [] => none
  | '"' :: rest => some ([], rest)
  | '\\' :: 'u' :: a :: b :: c :: d :: '\\' :: 'u' :: e :: f :: g :: h :: rest => do
    let high ← ofHex? [a, b, c, d]
    let low ← ofHex? [e, f, g, h]
    if 0xd800 ≤ high ∧ high < 0xdc00 then
      if 0xdc00 ≤ low ∧ low < 0xe000 then
        let char ← scalar? (0x10000 + 0x400 * (high - 0xd800) + (low - 0xdc00))
        let (chars, rest) ← stringBody? rest
        return (char :: chars, rest)
      else none
    else
      let char ← scalar? high
      let (chars, rest) ← stringBody? ('\\' :: 'u' :: e :: f :: g :: h :: rest)
      return (char :: chars, rest)
  | '\\' :: 'u' :: a :: b :: c :: d :: rest => do
    let char ← scalar? (← ofHex? [a, b, c, d])
    let (chars, rest) ← stringBody? rest
    return (char :: chars, rest)
  | '\\' :: c :: rest => do
    let char ← simpleEscape? c
    let (chars, rest) ← stringBody? rest
    return (char :: chars, rest)
  | c :: rest =>
    if c.toNat < 32 then none
    else do
      let (chars, rest) ← stringBody? rest
      return (c :: chars, rest)

/-- The digits after a point, if there is one. -/
def fraction? : List Char → Option (Option (List Nat) × List Char)
  | '.' :: cs =>
    match takeDigits cs with
    | ([], _) => none
    | (digits, rest) => some (some digits, rest)
  | cs => some (none, cs)

def unsignedExponent? (negative : Bool) (cs : List Char) : Option (Option Int × List Char) :=
  match takeDigits cs with
  | ([], _) => none
  | (digits, rest) =>
    let n : Int := ofDigits digits
    some (some (if negative then -n else n), rest)

/-- The power of ten after an `e`, if there is one. -/
def exponent? : List Char → Option (Option Int × List Char)
  | c :: cs =>
    if c = 'e' ∨ c = 'E' then
      match cs with
      | '-' :: cs => unsignedExponent? true cs
      | '+' :: cs => unsignedExponent? false cs
      | cs => unsignedExponent? false cs
    else some (none, c :: cs)
  | [] => some (none, [])

/-- A number after its sign. A number of several digits does not start with 0. -/
def magnitude? (negative : Bool) (cs : List Char) : Option (Json × List Char) := do
  let (whole, rest) := takeDigits cs
  if whole.isEmpty ∨ (whole.head? = some 0 ∧ whole.length ≠ 1) then none
  else
    let (fraction, rest) ← fraction? rest
    let (exponent, rest) ← exponent? rest
    let n : Int := ofDigits whole
    if fraction.isNone ∧ exponent.isNone ∧ ¬ (negative ∧ n = 0) then
      return (integer (if negative then -n else n), rest)
    else
      return (decimal ⟨negative, whole, fraction.getD [], exponent.getD 0⟩, rest)

mutual

/-- A value within so many levels and items. -/
def value? : Nat → List Char → Option (Json × List Char)
  | 0, _ => none
  | bound + 1, cs =>
    match skipBlanks cs with
    | 'n' :: 'u' :: 'l' :: 'l' :: rest => some (null, rest)
    | 't' :: 'r' :: 'u' :: 'e' :: rest => some (bool true, rest)
    | 'f' :: 'a' :: 'l' :: 's' :: 'e' :: rest => some (bool false, rest)
    | '"' :: rest => do
      let (chars, rest) ← stringBody? rest
      return (string (String.ofList chars), rest)
    | '[' :: rest =>
      match skipBlanks rest with
      | ']' :: rest => some (array [], rest)
      | rest => do
        let (items, rest) ← items? bound rest
        return (array items, rest)
    | '{' :: rest =>
      match skipBlanks rest with
      | '}' :: rest => some (object [], rest)
      | rest => do
        let (members, rest) ← members? bound rest
        return (object members, rest)
    | '-' :: rest => magnitude? true rest
    | rest => magnitude? false rest

/-- The items of an array up to its closing bracket. -/
def items? : Nat → List Char → Option (List Json × List Char)
  | 0, _ => none
  | bound + 1, cs => do
    let (item, rest) ← value? bound cs
    match skipBlanks rest with
    | ',' :: rest =>
      let (items, rest) ← items? bound rest
      return (item :: items, rest)
    | ']' :: rest => return ([item], rest)
    | _ => none

/-- The members of an object up to its closing brace. -/
def members? : Nat → List Char → Option (List (String × Json) × List Char)
  | 0, _ => none
  | bound + 1, cs =>
    match skipBlanks cs with
    | '"' :: rest => do
      let (name, rest) ← stringBody? rest
      match skipBlanks rest with
      | ':' :: rest =>
        let (value, rest) ← value? bound rest
        let member := (String.ofList name, value)
        match skipBlanks rest with
        | ',' :: rest =>
          let (members, rest) ← members? bound rest
          return (member :: members, rest)
        | '}' :: rest => return ([member], rest)
        | _ => none
      | _ => none
    | _ => none

end

/-- Reads a text that is one value and nothing else. -/
def parse? (text : String) : Option Json :=
  match value? (text.length + 1) text.toList with
  | some (value, rest) => if (skipBlanks rest).isEmpty then some value else none
  | none => none

end LiveEdit.Json
