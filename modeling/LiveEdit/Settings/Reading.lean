import LiveEdit.Json.Basic
import LiveEdit.Number.Numeral
import LiveEdit.Settings.Basic

/-!
Settings from a tree of values. A strict reader takes each value for what it is; a lenient one
also understands what a person typed. Either way a record is an object, whose unknown members
do not matter, or an array of its fields in order.
-/

namespace LiveEdit

inductive Reading where
  | strict
  | lenient
  deriving DecidableEq, Repr

/-- Words for yes and no, in any case. -/
def flagWord? (text : String) : Option Bool :=
  let word := text.toLower
  if word = "true" ∨ word = "on" ∨ word = "yes" then some true
  else if word = "false" ∨ word = "off" ∨ word = "no" then some false
  else none

namespace Reading

def flag? : Reading → Json → Option Bool
  | _, .bool b => some b
  | .lenient, .string s =>
    if s = "1" then some true else if s = "0" then some false else flagWord? s
  | _, _ => none

/-- A whole number below the bound; a word for yes is 1 and one for no is 0. -/
def natural? (r : Reading) (bound : Nat) (value : Json) : Option Nat :=
  let n := match r, value with
    | _, .integer (.ofNat n) => some n
    | .lenient, .string s =>
      match flagWord? s with
      | some b => some b.toNat
      | none => typedNatural? s
    | _, _ => none
  n.filter (· < bound)

def ratio? : Reading → Json → Option Binary64
  | _, .integer i =>
    Binary64.ofDecimalInSteps? { Decimal.ofNat i.natAbs with negative := decide (i < 0) }
  | _, .decimal d => Binary64.ofDecimalInSteps? d
  | .lenient, .string s =>
    match flagWord? s with
    | some b => some (.ofRatio b.toNat 1)
    | none => Binary64.typed? s
  | _, _ => none

def text? : Json → Option String
  | .string s => some s
  | _ => none

def texts? : Json → Option (List String)
  | .array items => items.mapM text?
  | _ => none

end Reading

/-- What a record has for one of its fields. -/
inductive Slot where
  | given (value : Json)
  /-- An object has no such member. -/
  | unnamed
  /-- An array ends before the field. -/
  | cutOff

namespace Slot

def required? {α : Type} (read : Json → Option α) : Slot → Option α
  | given value => read value
  | _ => none

def orElse? {α : Type} (fallback : α) (read : Json → Option α) : Slot → Option α
  | given value => read value
  | _ => some fallback

/-- A missing member and a null stand for nothing. -/
def optional? {α : Type} (read : Json → Option α) : Slot → Option (Option α)
  | given .null => some none
  | given value => (read value).map some
  | unnamed => some none
  | cutOff => none

end Slot

/-- The fields of a record. A strict reader refuses more items than there are fields. -/
def Reading.fields? (r : Reading) (names : List String) : Json → Option (List Slot)
  | .object members =>
    some (names.map fun name => ((Json.object members).member? name).elim .unnamed .given)
  | .array items =>
    if r = .strict ∧ names.length < items.length then none
    else some ((List.range names.length).map fun i => (items[i]?).elim .cutOff .given)
  | _ => none

def ServerSettings.read? (r : Reading) (value : Json) : Option ServerSettings := do
  match ← r.fields? ["enabled", "host", "port"] value with
  | [enabled, host, port] =>
    return { enabled := ← enabled.required? r.flag?
             host := ← host.required? Reading.text?
             port := ← port.required? (r.natural? 0x10000) }
  | _ => none

def TelemetrySettings.read? (r : Reading) (value : Json) : Option TelemetrySettings := do
  match ← r.fields? ["service_name", "log_level", "otlp_endpoint", "sampling_ratio"] value with
  | [serviceName, logLevel, otlpEndpoint, samplingRatio] =>
    return { serviceName := ← serviceName.required? Reading.text?
             logLevel := ← logLevel.required? Reading.text?
             otlpEndpoint := ← otlpEndpoint.optional? Reading.text?
             samplingRatio := ← samplingRatio.orElse? (.ofRatio 1 1) r.ratio? }
  | _ => none

def DetectionSettings.read? (r : Reading) (value : Json) : Option DetectionSettings := do
  match ← r.fields? ["trust_versions", "include_generated"] value with
  | [trustVersions, includeGenerated] =>
    let plain : DetectionSettings := {}
    return { trustVersions := ← trustVersions.orElse? plain.trustVersions r.flag?
             includeGenerated := ← includeGenerated.orElse? plain.includeGenerated r.flag? }
  | _ => none

def SessionSettings.read? (r : Reading) (value : Json) : Option SessionSettings := do
  match ← r.fields? ["report_diagnostics", "change_detection"] value with
  | [reportDiagnostics, detection] =>
    let plain : SessionSettings := {}
    return { reportDiagnostics := ← reportDiagnostics.orElse? plain.reportDiagnostics r.flag?
             detection := ← detection.orElse? plain.detection (DetectionSettings.read? r) }
  | _ => none

def EngineSettings.read? (r : Reading) (value : Json) : Option EngineSettings := do
  match ← r.fields? ["syntax_error_marker"] value with
  | [marker] =>
    let plain : EngineSettings := {}
    return { syntaxErrorMarker := ← marker.orElse? plain.syntaxErrorMarker Reading.text? }
  | _ => none

def WatchSettings.read? (r : Reading) (value : Json) : Option WatchSettings := do
  match ← r.fields? ["poll_interval_ms", "extensions", "ignored_dirs", "snapshot_history",
      "auto_commit"] value with
  | [pollIntervalMs, extensions, ignoredDirs, snapshotHistory, autoCommit] =>
    let plain : WatchSettings := {}
    let size := r.natural? 0x10000000000000000
    return { pollIntervalMs := ← pollIntervalMs.orElse? plain.pollIntervalMs size
             extensions := ← extensions.orElse? plain.extensions Reading.texts?
             ignoredDirs := ← ignoredDirs.orElse? plain.ignoredDirs Reading.texts?
             snapshotHistory := ← snapshotHistory.orElse? plain.snapshotHistory size
             autoCommit := ← autoCommit.orElse? plain.autoCommit r.flag? }
  | _ => none

/-- The server and telemetry parts are required; the others have defaults. -/
def Settings.read? (r : Reading) (value : Json) : Option Settings := do
  match ← r.fields? ["server", "telemetry", "session", "engine", "watch"] value with
  | [server, telemetry, session, engine, watch] =>
    return { server := ← server.required? (ServerSettings.read? r)
             telemetry := ← telemetry.required? (TelemetrySettings.read? r)
             session := ← session.orElse? {} (SessionSettings.read? r)
             engine := ← engine.orElse? {} (EngineSettings.read? r)
             watch := ← watch.orElse? {} (WatchSettings.read? r) }
  | _ => none

end LiveEdit
