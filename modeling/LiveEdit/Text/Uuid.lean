import LiveEdit.Text.Hex

/-! Identifiers of 128 bits and the four spellings in which they are read. -/

namespace LiveEdit

structure Uuid where
  high : UInt64
  low : UInt64
  deriving DecidableEq, Repr

namespace Uuid

/-- The 32 digits, in lower case. -/
def digits (u : Uuid) : List Char := hexDigits 16 u.high.toNat ++ hexDigits 16 u.low.toNat

/-- Hyphens after the 8th, 12th, 16th and 20th digit. -/
def hyphenated (digits : List Char) : List Char :=
  digits.take 8 ++ '-' :: (digits.drop 8).take 4 ++ '-' :: (digits.drop 12).take 4 ++
    '-' :: (digits.drop 16).take 4 ++ '-' :: digits.drop 20

def text (u : Uuid) : String := String.ofList (hyphenated u.digits)

/-- Reads 32 digits in either case. -/
def ofDigits? (digits : List Char) : Option Uuid := do
  if digits.length ≠ 32 then none
  else
    let high ← ofHex? (digits.take 16)
    let low ← ofHex? (digits.drop 16)
    return ⟨UInt64.ofNat high, UInt64.ofNat low⟩

def ofHyphenated? (cs : List Char) : Option Uuid :=
  let digits := cs.filter (· ≠ '-')
  if cs = hyphenated digits then ofDigits? digits else none

/-- What makes an identifier a resource name, in any case. -/
def resourcePrefix : List Char := "urn:uuid:".toList

/-- Reads the plain digits, the hyphenated form, and that form in braces or as a resource name. -/
def parse? (text : String) : Option Uuid :=
  let cs := text.toList
  if cs.length = 32 then ofDigits? cs
  else if cs.length = 38 ∧ cs.head? = some '{' ∧ cs.getLast? = some '}' then
    ofHyphenated? (cs.drop 1).dropLast
  else if (cs.take resourcePrefix.length).map Char.toLower = resourcePrefix then
    ofHyphenated? (cs.drop resourcePrefix.length)
  else ofHyphenated? cs

end Uuid

end LiveEdit
