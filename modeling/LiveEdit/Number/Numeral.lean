import LiveEdit.Number.Binary64

/-! Numbers that a person types: whole ones, and binary ones in decimal notation. -/

namespace LiveEdit

/-- Digits after at most one plus sign. -/
def typedNatural? (text : String) : Option Nat :=
  match text.toList with
  | '+' :: cs => natural? cs
  | cs => natural? cs

namespace Binary64

/-- A power of ten after an `e`, up to the end of the text. -/
def typedExponent? : List Char → Option Int
  | [] => some 0
  | c :: cs =>
    if c = 'e' ∨ c = 'E' then
      match cs with
      | '-' :: cs => (natural? cs).map fun n => -(n : Int)
      | '+' :: cs => (natural? cs).map fun n => (n : Int)
      | cs => (natural? cs).map fun n => (n : Int)
    else none

/-- Digits with at most one point among or around them, and an exponent. -/
def typedDecimal? (cs : List Char) : Option Decimal :=
  let (whole, rest) := takeDigits cs
  let (fraction, rest) := match rest with
    | '.' :: rest => takeDigits rest
    | rest => ([], rest)
  if whole.isEmpty ∧ fraction.isEmpty then none
  else (typedExponent? rest).map fun exponent => { whole, fraction, exponent }

/-- A decimal, or the name of what is no finite number, in any case. -/
def typedMagnitude? (cs : List Char) : Option Binary64 :=
  let name := String.ofList (cs.map Char.toLower)
  if name = "inf" ∨ name = "infinity" then some infinity
  else if name = "nan" then some notANumber
  else (typedDecimal? cs).map ofDecimal

def typed? (text : String) : Option Binary64 :=
  match text.toList with
  | '-' :: cs => (typedMagnitude? cs).map neg
  | '+' :: cs => typedMagnitude? cs
  | cs => typedMagnitude? cs

end Binary64

end LiveEdit
