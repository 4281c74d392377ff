import LiveEdit.Number.Decimal

/-!
Binary floating point in 64 bits, as exact arithmetic on natural numbers: a magnitude is
`m * 2 ^ (q - 1074)`, and rounding goes to the nearest, a tie to the even neighbour.
-/

namespace LiveEdit

structure Binary64 where
  bits : UInt64
  deriving DecidableEq, Repr

namespace Binary64

def infinity : Binary64 := ⟨0x7ff0000000000000⟩

def notANumber : Binary64 := ⟨0x7ff8000000000000⟩

def zero : Binary64 := ⟨0⟩

def neg (x : Binary64) : Binary64 := ⟨x.bits ^^^ 0x8000000000000000⟩

def signed (negative : Bool) (x : Binary64) : Binary64 := if negative then x.neg else x

/-- The whole number nearest to a quotient, the even one of two. -/
def nearest (num den : Nat) : Nat :=
  let q := num / den
  let r := num % den
  if 2 * r < den then q
  else if 2 * r = den then q + q % 2
  else q + 1

/-- The highest of the 53 binary digits of a number, which is not stored. -/
def hiddenBit : Nat := 0x10000000000000

/-- The numerator and denominator of a quotient in units of `2 ^ (q - 1074)`. -/
def inUnits (num den q : Nat) : Nat × Nat :=
  if q ≤ 1074 then (num <<< (1074 - q), den) else (num, den <<< (q - 1074))

/-- The unit that leaves 53 binary digits before the point, or the smallest unit. -/
def unitOf (num den : Nat) : Nat :=
  let q := 1074 + num.log2 - den.log2 - 52
  if (inUnits num den q).1 / (inUnits num den q).2 < hiddenBit then q - 1 else q

/-- The nearest number to a quotient; `den` is not zero. -/
def ofRatio (num den : Nat) : Binary64 :=
  if num = 0 then zero
  else
    let q := unitOf num den
    let bits := nearest (inUnits num den q).1 (inUnits num den q).2 + q * hiddenBit
    if bits < 0x7ff0000000000000 then ⟨UInt64.ofNat bits⟩ else infinity

/-- The magnitude in units of `2 ^ (-1074)`, for a finite number. -/
def units (x : Binary64) : Nat :=
  let exponent := x.bits.toNat / hiddenBit % 2048
  let fraction := x.bits.toNat % hiddenBit
  if exponent = 0 then fraction else (fraction + hiddenBit) <<< (exponent - 1)

def isInfinite (x : Binary64) : Bool := x.bits &&& 0x7fffffffffffffff == infinity.bits

def isZero (x : Binary64) : Bool := x.bits &&& 0x7fffffffffffffff == 0

/-- The product of two finite magnitudes. -/
def mul (x y : Binary64) : Binary64 := ofRatio (x.units * y.units) (1 <<< 2148)

/-- The quotient of two finite magnitudes. -/
def div (x y : Binary64) : Binary64 := ofRatio x.units y.units

/-- The power of ten, for exponents that stay finite. -/
def powerOfTen (n : Nat) : Binary64 := ofRatio (Nat.pow 10 n) 1

/-- `digits * 10 ^ exponent`, rounded once. Exponents far out of range are not computed. -/
def ofScaled (digits : List Nat) (exponent : Int) : Binary64 :=
  let digits := digits.dropWhile (· == 0)
  let size : Int := digits.length + exponent
  if digits.isEmpty || size < -330 then zero
  else if size > 310 then infinity
  else if exponent < 0 then ofRatio (ofDigits digits) (Nat.pow 10 exponent.natAbs)
  else ofRatio (ofDigits digits * Nat.pow 10 exponent.natAbs) 1

/-- The number nearest to a decimal. -/
def ofDecimal (d : Decimal) : Binary64 :=
  signed d.negative (ofScaled (d.whole ++ d.fraction) (d.exponent - d.fraction.length))

/-- Scales down by at most `10 ^ 308` at a time, rounding at each step. -/
def scaleDown : Nat → Binary64 → Nat → Binary64
  | 0, x, _ => x
  | steps + 1, x, n =>
    if n ≤ 308 then x.div (powerOfTen n)
    else if x.isZero then x
    else scaleDown steps (x.div (powerOfTen 308)) (n - 308)

/-- Reads digits while they fit in 64 bits. The rest only count. -/
def leadingDigits (significand : Nat) : List Nat → Nat × Nat
  | [] => (significand, 0)
  | d :: ds =>
    if 10 * significand + d < 0x10000000000000000 then leadingDigits (10 * significand + d) ds
    else (significand, ds.length + 1)

/--
Reads a decimal in steps that round one after the other: the leading digits become a number,
which is then multiplied or divided by a power of ten. Too large a number is none.
-/
def ofDecimalInSteps? (d : Decimal) : Option Binary64 :=
  let (whole, dropped) := leadingDigits 0 d.whole
  let (significand, unread) := leadingDigits whole d.fraction
  let exponent : Int := d.exponent + dropped - (d.fraction.length - unread)
  let x := ofRatio significand 1
  if exponent < 0 then some (signed d.negative (scaleDown 4 x exponent.natAbs))
  else if x.isZero then some (signed d.negative x)
  else if exponent > 308 then none
  else
    let y := x.mul (powerOfTen exponent.natAbs)
    if y.isInfinite then none else some (signed d.negative y)

end Binary64

end LiveEdit
