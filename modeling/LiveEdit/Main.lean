import LiveEdit.Kernel.Launch
import Std.Internal.UV.Signal

/-! The program: it watches a source tree and keeps a session going until a signal ends it. -/

namespace LiveEdit.Main

/-- The environment of the process, in its order. -/
def environment : IO (List (String × String)) := do
  let block ← try IO.FS.readBinFile "/proc/self/environ" catch _ => pure .empty
  let entries := (decodeUtf8Lossy block.toList).splitOn "\x00"
  return entries.filterMap fun e =>
    match e.splitOn "=" with
    | name :: value@(_ :: _) => some (name, "=".intercalate value)
    | _ => none

/-- The tree below a path. What is neither a file nor a folder counts as an empty link. -/
partial def readNode (path : String) : IO Node := do
  let resolved ← IO.FS.realPath path
  if ← resolved.isDir then
    let entries ← resolved.readDir
    return .folder (← entries.toList.mapM fun e => do
      let node ← match (← e.path.symlinkMetadata).type with
        | .dir => readNode e.path.toString
        | .file => return (encodeUtf8 e.fileName, .file (← IO.FS.readBinFile e.path).toList)
        | _ => pure (.link [])
      return (encodeUtf8 e.fileName, node))
  else return .file (← IO.FS.readBinFile resolved).toList

/-- The part of the disk that a path leads to, and its real path; nothing if it leads nowhere. -/
def readTree (path : String) : IO (FileSystem × List UInt8) := do
  try
    let real := encodeUtf8 (← IO.FS.realPath path).toString
    let way := (splitSlashes real).filter (!·.isEmpty)
    return ({ top := (← readNode path).put .empty way }, real)
  catch _ => return ({}, encodeUtf8 path)

def jsonOf (r : LogRecord) : Json :=
  .object
    [("level", .string r.level.text),
      ("fields", .object (("message", .string r.message) ::
        r.fields.map fun (name, value) => (name, .string value))),
      ("target", .string r.target)]

def display (filter : LogFilter) (log : List LogRecord) : IO Unit := do
  for r in log do
    if filter.shows r then IO.println (jsonOf r).text
  (← IO.getStdout).flush

/-- Cycles until all is over; asks for that every few milliseconds. -/
partial def watch (isOver : IO Bool) (filter : LogFilter) (path : String) (w : Kernel.World) :
    IO Kernel.World := do
  let (files, real) ← readTree path
  let (log, w) := { w with files, root := (real, w.root.2) }.cycle
  display filter log
  let mut waited := 0
  let mut isDone := false
  while !isDone && waited < max w.watch.pollIntervalMs 1 do
    isDone ← isOver
    IO.sleep 5
    waited := waited + 5
  if isDone then return w else watch isOver filter path w

def interruptSignal : Int32 := 2

def terminateSignal : Int32 := 15

end LiveEdit.Main

open LiveEdit LiveEdit.Main in
def main (arguments : List String) : IO UInt32 := do
  let (path, shown) := Kernel.rootOfArgument arguments.head?
  let (files, real) ← if path.isEmpty then pure ({}, path) else readTree shown
  let launched := Kernel.launch
    { environment := ← environment, root := (real, shown), files, base := [] }
  for warning in launched.warnings do IO.eprintln warning
  display launched.filter launched.log
  match launched.world with
  | .error e =>
    IO.eprintln e.report
    return e.exitCode.toUInt32
  | .ok w =>
    let signals ← [interruptSignal, terminateSignal].mapM fun number => do
      return (← (← Std.Internal.UV.Signal.mk number false).next).result?
    let w ← watch (signals.anyM fun s => IO.hasFinished s) launched.filter shown w
    display launched.filter w.shutDown.1
    return 0
