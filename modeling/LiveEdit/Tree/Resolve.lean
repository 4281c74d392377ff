import LiveEdit.Tree.Node

/-!
Following a path through a tree. The way found holds neither links nor dots; it is what the
system calls the real path.
-/

namespace LiveEdit

/-- Why a path leads nowhere. -/
inductive PathError where
  | missing
  | notFolder
  | taken
  | isFolder
  | nameTooLong
  | tooManyLinks
  /-- A zero byte cannot be part of a path. -/
  | zeroByte
  deriving DecidableEq, Repr

/-- The system's words, with its number for the error if it has one. -/
def PathError.message : PathError → String
  | .missing => "No such file or directory (os error 2)"
  | .notFolder => "Not a directory (os error 20)"
  | .taken => "File exists (os error 17)"
  | .isFolder => "Is a directory (os error 21)"
  | .nameTooLong => "File name too long (os error 36)"
  | .tooManyLinks => "Too many levels of symbolic links (os error 40)"
  | .zeroByte => "file name contained an unexpected NUL byte"

/-- The parts between slashes. -/
def splitSlashes : List UInt8 → List FileName
  | [] => [[]]
  | b :: bs =>
    if b = 0x2f then [] :: splitSlashes bs
    else
      match splitSlashes bs with
      | [] => [[b]]
      | name :: names => (b :: name) :: names

def dot : FileName := [0x2e]

def dotDot : FileName := [0x2e, 0x2e]

/-- What to do about the next part of a path. -/
inductive PathStep where
  | stay
  | up
  | down (name : FileName)
  deriving DecidableEq, Repr

def PathStep.of (name : FileName) : PathStep :=
  if name = [] ∨ name = dot then .stay else if name = dotDot then .up else .down name

/-- The steps of a path. -/
def pathSteps (path : List UInt8) : List PathStep := (splitSlashes path).map .of

/-- Where the steps of a path start: at the top if it starts with a slash, and else at `base`. -/
def pathStart (base : List FileName) (path : List UInt8) : List FileName :=
  if path.head? = some 0x2f then [] else base

def maxNameBytes : Nat := 255

/-- As many links as are followed for one path. -/
def maxLinks : Nat := 40

namespace Node

/--
Takes the steps one by one from the folder at `way`. Each link that is met puts its own steps in
front, from where it is, or from the top if its target starts with a slash. If `free`, nothing
needs to be under the last name. The `fuel` counts steps.
-/
def follow (top : Node) (free : Bool) :
    (fuel : Nat) → (links : Nat) → (way : List FileName) → List PathStep →
      Except PathError (List FileName)
  | 0, _, _, _ => .error .tooManyLinks
  | _ + 1, _, way, [] => .ok way
  | fuel + 1, links, way, step :: steps =>
    match top.at? way with
    | none => .error .missing
    | some (folder entries) =>
      match step with
      | .stay => follow top free fuel links way steps
      | .up => follow top free fuel links way.dropLast steps
      | .down name =>
        if maxNameBytes < name.length then .error .nameTooLong
        else
          match (folder entries).child? name with
          | none => if free && steps.isEmpty then .ok (way ++ [name]) else .error .missing
          | some (link target) =>
            if links < maxLinks then
              follow top free fuel (links + 1) (pathStart way target) (pathSteps target ++ steps)
            else .error .tooManyLinks
          | some _ => follow top free fuel links (way ++ [name]) steps
    | some _ => .error .notFolder

mutual

/-- The number of bytes in all link targets, which bounds the steps that one link adds. -/
def linkBytes : Node → Nat
  | file _ => 0
  | link target => target.length + 2
  | folder entries => linkBytesOf entries

def linkBytesOf : List (FileName × Node) → Nat
  | [] => 0
  | (_, node) :: rest => node.linkBytes + linkBytesOf rest

end

/-- A bound on the steps that are taken where so many are given. -/
def stepBound (top : Node) (steps : List PathStep) : Nat :=
  steps.length + 1 + maxLinks * top.linkBytes

/-- The real path of a path that starts in the folder at `base`. -/
def resolve (top : Node) (base : List FileName) (path : List UInt8) :
    Except PathError (List FileName) :=
  if path.contains 0 then .error .zeroByte
  else if path.isEmpty then .error .missing
  else
    let steps := pathSteps path
    top.follow false (top.stepBound steps) 0 (pathStart base path) steps

end Node

end LiveEdit
