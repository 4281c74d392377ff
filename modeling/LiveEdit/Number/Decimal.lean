/-! Numbers in decimal notation, digit by digit as they are written. -/

namespace LiveEdit

/-- A sign, digits before and after the point, and an exponent of ten. -/
structure Decimal where
  negative : Bool := false
  whole : List Nat
  fraction : List Nat := []
  exponent : Int := 0
  deriving DecidableEq, Repr

def digit? (c : Char) : Option Nat :=
  if c.isDigit then some (c.toNat - '0'.toNat) else none

/-- The number that digits stand for, the highest digit first. -/
def ofDigits (digits : List Nat) : Nat := digits.foldl (fun n d => 10 * n + d) 0

/-- The digits at the front of a text, and what follows them. -/
def takeDigits : List Char → List Nat × List Char
  | [] => ([], [])
  | c :: cs =>
    match digit? c with
    | none => ([], c :: cs)
    | some d => (d :: (takeDigits cs).1, (takeDigits cs).2)

/-- A number without sign, all digits. -/
def natural? (text : List Char) : Option Nat :=
  match takeDigits text with
  | ([], _) => none
  | (digits, []) => some (ofDigits digits)
  | (_, _ :: _) => none

namespace Decimal

def ofNat (n : Nat) : Decimal := { whole := (Nat.toDigits 10 n).map fun c => c.toNat - '0'.toNat }

def isZero (d : Decimal) : Bool := (d.whole ++ d.fraction).all (· == 0)

end Decimal

end LiveEdit
