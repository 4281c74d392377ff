import LiveEdit.Tree.Scan

/-! Changes to a directory tree, made by path. -/

namespace LiveEdit

inductive TreeEdit where
  /-- Writes a file and makes the folders on the way to it. -/
  | write (path content : List UInt8)
  | makeFolder (path : List UInt8)
  /-- Makes a link and the folders on the way to it. -/
  | makeLink (path target : List UInt8)
  /-- Takes away a file, a link or a folder with all it holds. -/
  | remove (path : List UInt8)

/-- A change under way. If it fails, what was done before stays done. -/
abbrev Editing := EStateM PathError Node

namespace Editing

def follow (free : Bool) (way : List FileName) (steps : List PathStep) :
    Editing (List FileName) := do
  let top ← get
  match top.follow free (top.stepBound steps) 0 way steps with
  | .ok way => return way
  | .error e => throw e

/-- Puts a node where nothing is. -/
def place (node : Node) (way : List FileName) (name : FileName) : Editing Unit := do
  if maxNameBytes < name.length then throw .nameTooLong
  modify fun top => node.put top (way ++ [name])

/-- Takes a step, into a new folder if nothing is there. -/
def enter (way : List FileName) (step : PathStep) (isLast : Bool) : Editing (List FileName) := do
  match step with
  | .stay => return way
  | .up => return way.dropLast
  | .down name =>
    let top ← get
    if (top.at? (way ++ [name])).isNone then
      place .empty way name
      return way ++ [name]
    else
      match top.follow false (top.stepBound [step]) 0 way [step] with
      | .ok inner =>
        if (top.at? inner).any (·.isFolder) then return inner
        else if isLast then throw .taken
        else throw .notFolder
      | .error e => throw (if isLast ∨ e = .missing then .taken else e)

/-- Takes the steps one by one and makes the folders that are missing. -/
def enterAll (way : List FileName) : List PathStep → Editing (List FileName)
  | [] => return way
  | step :: steps => do enterAll (← enter way step steps.isEmpty) steps

/-- Takes the steps of a path, as many as `limit` leaves of them. -/
def enterPath (base : List FileName) (path : List UInt8)
    (limit : List PathStep → List PathStep) : Editing (List FileName) := do
  if path.contains 0 then throw .zeroByte
  enterAll [] ((pathStart base path).map .down ++ limit (pathSteps path))

/-- The steps before the last one that goes anywhere. -/
def outerSteps (steps : List PathStep) : List PathStep :=
  ((steps.reverse.dropWhile (· = .stay)).drop 1).reverse

/-- A new file, or new content for a file, also for one that a link leads to. -/
def write (base : List FileName) (path content : List UInt8) : Editing Unit := do
  let way ← enterPath base path outerSteps
  match (pathSteps path).getLast? with
  | some (.down name) =>
    let file ← follow true way [.down name]
    if ((← get).at? file).any (·.isFolder) then throw .isFolder
    modify fun top => (Node.file content).put top file
  | _ => throw .isFolder

def makeLink (base : List FileName) (path target : List UInt8) : Editing Unit := do
  let way ← enterPath base path outerSteps
  match (pathSteps path).getLast? with
  | some (.down name) =>
    if target.contains 0 then throw .zeroByte
    if target.isEmpty then throw .missing
    if ((← get).at? (way ++ [name])).isSome then throw .taken
    place (.link target) way name
  | _ => throw .missing

/-- A link at the very end of the path is not followed. -/
def remove (base : List FileName) (path : List UInt8) : Editing Unit := do
  if path.contains 0 then throw .zeroByte
  let steps := (pathSteps path).filter (· ≠ .stay)
  let way ← match steps.getLast? with
    | some (.down name) =>
      pure ((← follow false (pathStart base path) steps.dropLast) ++ [name])
    | _ => follow false (pathStart base path) steps
  if ((← get).at? way).isNone then throw .missing
  modify (·.erase way)

def perform (base : List FileName) : TreeEdit → Editing Unit
  | .write path content => write base path content
  | .makeFolder path => do discard (enterPath base path id)
  | .makeLink path target => makeLink base path target
  | .remove path => remove base path

end Editing

/-- Makes a change, with paths that start in the folder at `base`. -/
def Node.edit (top : Node) (base : List FileName) (e : TreeEdit) : Option PathError × Node :=
  match (Editing.perform base e).run top with
  | .ok _ top => (none, top)
  | .error error top => (some error, top)

end LiveEdit
