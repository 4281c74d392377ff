import LiveEdit.Order.Sorting
import LiveEdit.Settings.Basic
import LiveEdit.Tree.Resolve

/-! The source documents of a directory tree. -/

namespace LiveEdit

inductive ScanError where
  /-- The root's path, as given, leads nowhere. -/
  | invalidRoot (path : String) (error : PathError)
  /-- The root's real path leads to something else than a folder. -/
  | notFolder (path : String)
  deriving DecidableEq, Repr

def ScanError.message : ScanError → String
  | .invalidRoot path error => "Invalid source root '" ++ path ++ "': " ++ error.message
  | .notFolder path => "Source root is not a directory: " ++ path

/-- What a walk comes upon. -/
inductive Finding where
  | source (document : Document)
  /-- A source file whose content is no text. -/
  | undecodable (path : List FileName)

def Finding.document? : Finding → Option Document
  | .source d => some d
  | .undecodable _ => none

def isHidden (name : FileName) : Bool := name.head? == some 0x2e

/-- What follows the last dot, if anything precedes it. -/
def extension? (name : FileName) : Option FileName :=
  let (reversedEnd, rest) := name.reverse.span (· ≠ 0x2e)
  if rest.length < 2 then none else some reversedEnd.reverse

namespace WatchSettings

def ignores (settings : WatchSettings) (name : FileName) : Bool :=
  settings.ignoredDirs.contains (decodeUtf8Lossy name)

def watches (settings : WatchSettings) (name : FileName) : Bool :=
  settings.extensions.isEmpty ||
    ((extension? name).bind decodeUtf8?).any settings.extensions.contains

end WatchSettings

/-- The names of a way, with slashes between them. -/
def wayText (way : List FileName) : String := "/".intercalate (way.map decodeUtf8Lossy)

/-- A file at the top belongs to the root's project, any other to that of its first folder. -/
def projectOf (rootName : String) : List FileName → String
  | first :: _ :: _ => decodeUtf8Lossy first
  | _ => rootName

def findingAt (rootName : String) (way : List FileName) (content : List UInt8) : Finding :=
  match decodeUtf8? content with
  | some text =>
    .source
      { path := .ofText (wayText way), project := projectOf rootName way, content := text }
  | none => .undecodable way

namespace Node

mutual

/-- What a walk finds at and below a node that is not hidden, `above` being the way to it. -/
def findings (settings : WatchSettings) (rootName : String) (above : List FileName)
    (name : FileName) : Node → List Finding
  | file content =>
    if settings.watches name then [findingAt rootName (above ++ [name]) content] else []
  | folder entries =>
    if settings.ignores name then []
    else
      (inOrder (fun e f => decide (e.1 ≤ f.1))
        (findingsOf settings rootName (above ++ [name]) entries)).flatMap (·.2)
  | link _ => []

/-- What a walk finds below each entry of a folder. -/
def findingsOf (settings : WatchSettings) (rootName : String) (above : List FileName) :
    List (FileName × Node) → List (FileName × List Finding)
  | [] => []
  | (name, node) :: rest =>
    (name, if isHidden name then [] else node.findings settings rootName above name) ::
      findingsOf settings rootName above rest

end

/-- Walks a folder depth first, the entries of each folder in the order of their names. -/
def walk (settings : WatchSettings) (rootName : String) (root : Node) : List Finding :=
  match root with
  | folder entries =>
    (inOrder (fun e f => decide (e.1 ≤ f.1))
      (findingsOf settings rootName [] entries)).flatMap (·.2)
  | _ => []

end Node

/-- A tree, one folder of which goes by another name in messages. -/
structure FileSystem where
  top : Node := .empty
  /-- The way to that folder. -/
  mount : List FileName := []
  name : String := ""

namespace FileSystem

def realPathText (fs : FileSystem) (way : List FileName) : String :=
  let slashed (way : List FileName) : String := String.join (way.map fun n => "/" ++ decodeUtf8Lossy n)
  if fs.mount.isPrefixOf way then fs.name ++ slashed (way.drop fs.mount.length) else slashed way

/--
Walks the folder that a path leads to from the folder at `base`. The path is called `shown` in
messages.
-/
def scan (fs : FileSystem) (settings : WatchSettings) (base : List FileName) (shown : String)
    (path : List UInt8) : Except ScanError (List Finding) :=
  match fs.top.resolve base path with
  | .error error => .error (.invalidRoot shown error)
  | .ok way =>
    match fs.top.at? way with
    | some (.folder entries) =>
      .ok ((Node.folder entries).walk settings
        ((way.getLast?.map decodeUtf8Lossy).getD "root"))
    | _ => .error (.notFolder (fs.realPathText way))

end FileSystem

end LiveEdit
