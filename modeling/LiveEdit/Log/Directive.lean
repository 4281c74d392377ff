import LiveEdit.Log.Record
import LiveEdit.Number.Numeral
import LiveEdit.Text.Alphanumeric
import LiveEdit.Text.Pattern.Parser
import LiveEdit.Text.Utf8

/-!
Directives for the log. Each names a target, an activity in brackets, in braces a field of the
activity or the record, and the level of detail: `audit=info`, `[commit]=debug`,
`kernel[start{version=v2}]=trace`.
-/

namespace LiveEdit

/-- The most detailed level that is shown, or none where nothing is shown. -/
abbrev LogThreshold := Option LogLevel

def LogThreshold.admits (t : LogThreshold) (level : LogLevel) : Bool :=
  t.any fun limit => level.verbosity ≤ limit.verbosity

def LogThreshold.ofVerbosity? : Nat → Option LogThreshold
  | 0 => some none
  | 1 => some (some .error)
  | 2 => some (some .warn)
  | 3 => some (some .info)
  | 4 => some (some .debug)
  | 5 => some (some .trace)
  | _ => none

/-- A level's name in any case, the word for none of them, or a number from 0 to 5. -/
def LogThreshold.parse? (text : String) : Option LogThreshold :=
  match typedNatural? text with
  | some n => ofVerbosity? n
  | none =>
    let word := text.toLower
    if word = "off" then some none
    else
      ([.error, .warn, .info, .debug, .trace].find? fun l : LogLevel =>
        l.text.toLower = word).map some

/-- What the value of a field is compared with. -/
inductive ValueTest where
  /-- A number or a truth value, which no text is equal to. -/
  | literal (text : String)
  | pattern (text : String) (pattern : Pattern)
  deriving DecidableEq, Repr

namespace ValueTest

def isLiteral (text : String) : Bool :=
  text = "true" || text = "false" || (Binary64.typed? text).isSome

def parse (text : String) : Except PatternError ValueTest :=
  if isLiteral text then .ok (literal text) else pattern text <$> Pattern.parse text

def admits (value : String) : ValueTest → Bool
  | literal _ => false
  | pattern _ p => p.admits value

end ValueTest

structure FieldTest where
  name : String
  value : Option ValueTest := none
  deriving DecidableEq, Repr

/-- A name, alone or with an equals sign and a value; a second sign ends the value. -/
def FieldTest.parse (text : String) : Except PatternError FieldTest :=
  match text.splitOn "=" with
  | name :: value :: _ => (fun value => ⟨name, some value⟩) <$> ValueTest.parse value
  | _ => .ok { name := text }

structure LogDirective where
  /-- The targets meant start with this text. -/
  target : Option String := none
  /-- Only what happens within activities of this name is meant. -/
  activity : Option String := none
  field : Option FieldTest := none
  threshold : LogThreshold := some .trace
  deriving DecidableEq, Repr

inductive DirectiveError where
  | malformed
  | unknownLevel
  | badPattern (error : PatternError)
  /-- A part starts or ends within a character. -/
  | brokenCharacter
  deriving DecidableEq, Repr

def DirectiveError.message : DirectiveError → String
  | .malformed => "invalid filter directive"
  | .unknownLevel =>
    "error parsing level filter: expected one of \"off\", \"error\", \"warn\", \"info\", " ++
      "\"debug\", \"trace\", or a number 0-5"
  | .badPattern .malformed => "invalid field filter: error building NFA"
  | .badPattern .wordEdge =>
    "invalid field filter: unsupported regex feature for DFAs: cannot build DFAs for regexes " ++
      "with Unicode word boundaries; switch to ASCII word boundaries, or heuristically enable " ++
      "Unicode word boundaries or use a different regex engine"
  | .brokenCharacter => "a part of the directive starts or ends within a character"

namespace LogDirective

/-- The part of a directive that a character belongs to, and where that part starts, in bytes. -/
inductive Part where
  | front
  /-- A level's name or a target. -/
  | word
  | activity (start : Nat)
  | field (start : Nat)
  | fieldEnd
  | activityEnd
  | level (start : Nat)
  deriving DecidableEq, Repr

/-- The characters of a text with their places, counted in bytes. -/
def placed (start : Nat) : List Char → List (Nat × Char)
  | [] => []
  | c :: cs => (start, c) :: placed (start + c.utf8Size) cs

/-- The text between two places. -/
def cut (bytes : List UInt8) (start stop : Nat) : Except DirectiveError String :=
  match decodeUtf8? ((bytes.drop start).take (stop - start)) with
  | some text => .ok text
  | none => .error .brokenCharacter

def isWordStart (c : Char) : Bool :=
  c == '-' || c == ':' || c == '_' || CharClass.alphanumeric.contains c

def withField (d : LogDirective) (text : String) : Except DirectiveError LogDirective :=
  if text.isEmpty then .error .malformed
  else
    match FieldTest.parse text with
    | .ok field => .ok { d with field := some field }
    | .error e => .error (.badPattern e)

/-- Goes on by one character of the directive whose bytes are given. -/
def step (bytes : List UInt8) : Part × LogDirective → Nat × Char →
    Except DirectiveError (Part × LogDirective)
  | (.front, d), (i, c) =>
    if c = '[' then .ok (.activity (i + 1), d)
    else if isWordStart c then .ok (.word, d)
    else .error .malformed
  | (.word, d), (i, c) =>
    if c = '=' then do return (.level (i + 1), { d with target := some (← cut bytes 0 i) })
    else if c = '[' then do return (.activity (i + 1), { d with target := some (← cut bytes 0 i) })
    else .ok (.word, d)
  | (.activity start, d), (i, c) =>
    if c = ']' then do
      return (.activityEnd, { d with activity := some (← cut bytes start i) })
    else if c = '{' then do
      let name ← cut bytes start i
      return (.field (i + 1), { d with activity := if name.isEmpty then none else some name })
    else .ok (.activity start, d)
  | (.field start, d), (i, c) =>
    if c = '}' then do return (.fieldEnd, ← d.withField (← cut bytes start i))
    else .ok (.field start, d)
  | (.fieldEnd, d), (_, c) => if c = ']' then .ok (.activityEnd, d) else .error .malformed
  | (.activityEnd, d), (i, c) => if c = '=' then .ok (.level (i + 1), d) else .error .malformed
  | (.level start, d), _ => .ok (.level start, d)

/-- A word alone is a level if it names one and else a target, of which all is shown. -/
def ofWord (text : String) : LogDirective :=
  match LogThreshold.parse? text with
  | some threshold => { threshold }
  | none => { target := some text }

/-- No text at all after the equals sign stands for the most detailed level. -/
def withLevel (d : LogDirective) (text : String) : Except DirectiveError LogDirective :=
  if text.isEmpty then .ok d
  else
    match LogThreshold.parse? text with
    | some threshold => .ok { d with threshold }
    | none => .error .unknownLevel

/--
Blanks around a directive do not count for its shape. Its parts are cut from the text as it
stands, though, at the places they have in the shape, so that blanks in front shift them.
-/
def parse (text : String) : Except DirectiveError LogDirective := do
  let bytes := encodeUtf8 text
  match ← (placed 0 (trimmed text.toList)).foldlM (step bytes) (.front, {}) with
  | (.word, _) => return ofWord text
  | (.activityEnd, d) => return d
  | (.level start, d) => d.withLevel (← cut bytes start bytes.length)
  | _ => .error .malformed

/-- The directive is about all records; what happens in an activity is no matter. -/
def isGeneral (d : LogDirective) : Bool :=
  d.activity.isNone && d.field.all (·.value.isNone)

/-- The directive is about activities. -/
def isSituated (d : LogDirective) : Bool := d.activity.isSome || d.field.isSome

def hasValueTest (d : LogDirective) : Bool := d.field.any (·.value.isSome)

/-- Directives about the same differ in the level at most. -/
def sameSubject (d e : LogDirective) : Bool :=
  d.target == e.target && d.activity == e.activity && d.field == e.field

def meansTarget (d : LogDirective) (target : String) : Bool :=
  d.target.all fun start => start.toList.isPrefixOf target.toList

def meansRecord (d : LogDirective) (r : LogRecord) : Bool :=
  d.isGeneral && d.meansTarget r.target && d.field.all fun f => r.fieldNames.contains f.name

def meansSpan (d : LogDirective) (span : LogSpan) : Bool :=
  d.isSituated && d.meansTarget span.target && d.activity.all (· == span.name) &&
    d.field.all fun f =>
      match span.fields.lookup f.name with
      | none => false
      | some value => f.value.all (·.admits value)

/--
Whether a directive about a record counts more than another one about it: one with a longer
target does, and of those one with a field, of two with fields the one whose field comes last.
-/
def outranks (d e : LogDirective) : Bool :=
  let length (d : LogDirective) : Nat := d.target.elim 0 (·.utf8ByteSize + 1)
  let name (d : LogDirective) : String := d.field.elim "" (·.name)
  decide (length e < length d) || length e == length d && decide (name e < name d)

end LogDirective

end LiveEdit
