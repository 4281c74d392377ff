/-! Reading UTF-8, strictly or with a mark for each part that is none. -/

namespace LiveEdit

/-- The character at the front of some bytes, or how many of them are surely wrong. -/
inductive Utf8Step where
  | char (c : Char) (width : Nat)
  | bad (width : Nat)
  deriving DecidableEq, Repr

namespace Utf8Step

def isTail (b : UInt8) : Bool := 0x80 ≤ b && b ≤ 0xbf

def tailBits (b : UInt8) : Nat := b.toNat % 64

/-- Whether a second byte can follow the first byte of a long character. -/
def secondFits (first second : UInt8) : Bool :=
  if first = 0xe0 then 0xa0 ≤ second && second ≤ 0xbf
  else if first = 0xed then 0x80 ≤ second && second ≤ 0x9f
  else if first = 0xf0 then 0x90 ≤ second && second ≤ 0xbf
  else if first = 0xf4 then 0x80 ≤ second && second ≤ 0x8f
  else isTail second

def ofTwo (a : UInt8) : List UInt8 → Utf8Step
  | b :: _ => if isTail b then .char (Char.ofNat (a.toNat % 32 * 64 + tailBits b)) 2 else .bad 1
  | _ => .bad 1

def ofThree (a : UInt8) : List UInt8 → Utf8Step
  | b :: c :: _ =>
    if secondFits a b then
      if isTail c then .char (Char.ofNat (a.toNat % 16 * 4096 + tailBits b * 64 + tailBits c)) 3
      else .bad 2
    else .bad 1
  | b :: _ => if secondFits a b then .bad 2 else .bad 1
  | _ => .bad 1

def ofFour (a : UInt8) : List UInt8 → Utf8Step
  | b :: c :: d :: _ =>
    if secondFits a b then
      if isTail c then
        if isTail d then
          .char (Char.ofNat
            (a.toNat % 8 * 262144 + tailBits b * 4096 + tailBits c * 64 + tailBits d)) 4
        else .bad 3
      else .bad 2
    else .bad 1
  | b :: c :: _ => if secondFits a b then if isTail c then .bad 3 else .bad 2 else .bad 1
  | b :: _ => if secondFits a b then .bad 2 else .bad 1
  | _ => .bad 1

/-- Looks at a first byte and what follows it. -/
def of (a : UInt8) (rest : List UInt8) : Utf8Step :=
  if a < 0x80 then .char (Char.ofNat a.toNat) 1
  else if a < 0xc2 then .bad 1
  else if a < 0xe0 then ofTwo a rest
  else if a < 0xf0 then ofThree a rest
  else if a < 0xf5 then ofFour a rest
  else .bad 1

end Utf8Step

/-- The characters and the wrong parts of some bytes, after passing over `skip` of them. -/
def utf8Parts (skip : Nat) : List UInt8 → List (Option Char)
  | [] => []
  | b :: bs =>
    match skip with
    | skip + 1 => utf8Parts skip bs
    | 0 =>
      match Utf8Step.of b bs with
      | .char c width => some c :: utf8Parts (width - 1) bs
      | .bad width => none :: utf8Parts (width - 1) bs

/-- The text, if all bytes are right. -/
def decodeUtf8? (bytes : List UInt8) : Option String :=
  ((utf8Parts 0 bytes).mapM id).map String.ofList

/-- The text with a replacement character for each wrong part. -/
def decodeUtf8Lossy (bytes : List UInt8) : String :=
  String.ofList ((utf8Parts 0 bytes).map (·.getD '\ufffd'))

def encodeUtf8 (text : String) : List UInt8 := text.toList.flatMap String.utf8EncodeChar

end LiveEdit
