import LiveEdit.Text.Utf8

/-! Directory trees: files, folders and symbolic links, with names that are bytes. -/

namespace LiveEdit

abbrev FileName := List UInt8

inductive Node where
  | file (content : List UInt8)
  | folder (entries : List (FileName × Node))
  | link (target : List UInt8)

namespace Node

def empty : Node := folder []

instance : Inhabited Node := ⟨empty⟩

def isFolder : Node → Bool
  | folder _ => true
  | _ => false

def child? (name : FileName) : Node → Option Node
  | folder entries => (entries.find? (·.1 = name)).map (·.2)
  | _ => none

/-- The node at the end of a way down, with no link followed. -/
def at? (node : Node) : List FileName → Option Node
  | [] => some node
  | name :: names => (node.child? name).bind (·.at? names)

def putEntry (name : FileName) (child : Node) : List (FileName × Node) → List (FileName × Node)
  | [] => [(name, child)]
  | e :: es => if e.1 = name then (name, child) :: es else e :: putEntry name child es

/-- Puts a node at the end of a way down and makes the folders on the way. -/
def put (child : Node) (node : Node) : List FileName → Node
  | [] => child
  | name :: names =>
    match node with
    | folder entries =>
      folder (putEntry name (child.put ((node.child? name).getD empty) names) entries)
    | other => other

/-- Takes away what is at the end of a way down. -/
def erase (node : Node) : List FileName → Node
  | [] => node
  | [name] =>
    match node with
    | folder entries => folder (entries.filter (·.1 ≠ name))
    | other => other
  | name :: names =>
    match node with
    | folder entries =>
      match node.child? name with
      | some child => folder (putEntry name (child.erase names) entries)
      | none => node
    | other => other

end Node

end LiveEdit
