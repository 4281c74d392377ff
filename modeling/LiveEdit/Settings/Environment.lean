import LiveEdit.Settings.Reading

/-!
Settings from environment variables. The name of a variable is a path into the tree of settings,
with a double underscore for each step, and its value replaces what is there.
-/

namespace LiveEdit

/-- A step into a tree of values; a negative index counts from the end. -/
inductive TreeStep where
  | key (name : String)
  | index (position : Int)
  deriving DecidableEq, Repr

def isKeyChar (c : Char) : Bool := c.isAlphanum || c == '_' || c == '-'

/-- A key at the front of a text, and what follows it. -/
def takeKey? (cs : List Char) : Option (String × List Char) :=
  let (key, rest) := cs.span isKeyChar
  if key.isEmpty then none else some (String.ofList key, rest)

/-- Indices are below this. -/
def indexLimit : Nat := 0x8000000000000000

/-- An index and its closing bracket, with blanks around the number. -/
def takeIndex? (cs : List Char) : Option (Int × List Char) :=
  let isGap (c : Char) : Bool := c == ' ' || c == '\t'
  let (negative, cs) := match cs.dropWhile isGap with
    | '-' :: cs => (true, cs)
    | cs => (false, cs)
  let (digits, rest) := takeDigits cs
  match rest.dropWhile isGap with
  | ']' :: rest =>
    if digits.isEmpty ∨ indexLimit ≤ ofDigits digits then none
    else some (if negative then -(ofDigits digits : Int) else ofDigits digits, rest)
  | _ => none

/-- The steps after the first key of a path; `bound` is the length of the text. -/
def laterSteps? : Nat → List Char → Option (List TreeStep)
  | _, [] => some []
  | bound + 1, '.' :: cs => do
    let (key, rest) ← takeKey? cs
    return .key key :: (← laterSteps? bound rest)
  | bound + 1, '[' :: cs => do
    let (position, rest) ← takeIndex? cs
    return .index position :: (← laterSteps? bound rest)
  | _, _ :: _ => none

/-- A path is a key and then keys after points and indices in brackets. -/
def treePath? (text : List Char) : Option (List TreeStep) := do
  let (key, rest) ← takeKey? text
  return .key key :: (← laterSteps? rest.length rest)

/-- Puts a member in place of one of the same name, or at the end. -/
def putMember (name : String) (value : Json) : List (String × Json) → List (String × Json)
  | [] => [(name, value)]
  | m :: ms => if m.1 = name then (name, value) :: ms else m :: putMember name value ms

/-- The items with room for an index, and the place of the index among them. -/
def makeRoom (position : Int) (items : List Json) : List Json × Nat :=
  match position with
  | .ofNat n => (items ++ List.replicate (n + 1 - items.length) .null, n)
  | .negSucc n =>
    (List.replicate (n + 1 - items.length) .null ++ items, items.length - (n + 1))

namespace Json

/-- Puts a value at the end of a path. What is in the way of a step gives way to it. -/
def put (value : Json) : List TreeStep → Json → Json
  | [], _ => value
  | .key name :: steps, tree =>
    let members := match tree with
      | object members => members
      | _ => []
    object (putMember name (put value steps (((object members).member? name).getD null)) members)
  | .index position :: steps, tree =>
    let (items, place) := makeRoom position (match tree with
      | array items => items
      | _ => [])
    array (items.set place (put value steps (items.getD place null)))

end Json

/-- The letter in ASCII that a letter becomes in lower case: only the Kelvin sign is not in ASCII. -/
def loweredLetter (c : Char) : Char := if c = '\u212a' then 'k' else c.toLower

def settingsNamePrefix : List Char := "hotreload__".toList

/-- Each double underscore becomes a point. -/
def pointed : List Char → List Char
  | '_' :: '_' :: cs => '.' :: pointed cs
  | c :: cs => c :: pointed cs
  | [] => []

/-- The path that a variable's name stands for, whatever its case. -/
def settingsPath? (name : String) : Option (List TreeStep) :=
  let cs := name.toList.map loweredLetter
  if settingsNamePrefix.isPrefixOf cs then treePath? (pointed (cs.drop settingsNamePrefix.length))
  else none

/-- What the program assumes before it looks at the environment. -/
def plainSettings : Json :=
  .object
    [("server", .object
        [("enabled", .bool true), ("host", .string "127.0.0.1"), ("port", .integer 9190)]),
      ("telemetry", .object
        [("service_name", .string "hotreload-kernel"), ("log_level", .string "info"),
          ("sampling_ratio", .decimal { whole := [1], fraction := [0] })])]

/-- Of several variables for one place the last counts. -/
def Settings.ofEnvironment? (environment : List (String × String)) : Option Settings :=
  Settings.read? .lenient <| environment.foldl (fun tree (name, value) =>
    match settingsPath? name with
    | some path => Json.put (.string value) path tree
    | none => tree) plainSettings

end LiveEdit
