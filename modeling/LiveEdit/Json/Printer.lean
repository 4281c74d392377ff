import LiveEdit.Json.Basic
import LiveEdit.Text.Hex

/-! The text of a JSON value, without blanks. -/

namespace LiveEdit.Json

/-- A character inside a string's quotes. -/
def escapedChar (c : Char) : List Char :=
  if c = '"' then ['\\', '"']
  else if c = '\\' then ['\\', '\\']
  else if c = '\n' then ['\\', 'n']
  else if c = '\r' then ['\\', 'r']
  else if c = '\t' then ['\\', 't']
  else if c = '\x08' then ['\\', 'b']
  else if c = '\x0c' then ['\\', 'f']
  else if c.toNat < 32 then '\\' :: 'u' :: hexDigits 4 c.toNat
  else [c]

def quoted (s : String) : String :=
  String.ofList ('"' :: s.toList.flatMap escapedChar ++ ['"'])

def decimalText (d : Decimal) : String :=
  let digits (ds : List Nat) : String := String.ofList (ds.map Nat.digitChar)
  (if d.negative then "-" else "") ++ digits d.whole ++
    (if d.fraction.isEmpty then "" else "." ++ digits d.fraction) ++ "e" ++ toString d.exponent

mutual

def text : Json → String
  | null => "null"
  | bool b => if b then "true" else "false"
  | integer i => toString i
  | decimal d => decimalText d
  | string s => quoted s
  | array items => "[" ++ itemsText items ++ "]"
  | object members => "\x7b" ++ membersText members ++ "\x7d"

def itemsText : List Json → String
  | [] => ""
  | [item] => item.text
  | item :: rest => item.text ++ "," ++ itemsText rest

def membersText : List (String × Json) → String
  | [] => ""
  | [(name, value)] => quoted name ++ ":" ++ value.text
  | (name, value) :: rest => quoted name ++ ":" ++ value.text ++ "," ++ membersText rest

end

end LiveEdit.Json
