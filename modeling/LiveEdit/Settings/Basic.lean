import LiveEdit.Number.Binary64
import LiveEdit.Session.Plan

/-! The settings of the program and their defaults. -/

namespace LiveEdit

structure ServerSettings where
  /-- Whether there is a control plane at all. -/
  enabled : Bool
  host : String
  port : Nat
  deriving DecidableEq, Repr

structure TelemetrySettings where
  serviceName : String
  /-- Which log records are shown. -/
  logLevel : String
  /-- Where spans are sent, if anywhere. -/
  otlpEndpoint : Option String := none
  samplingRatio : Binary64 := .ofRatio 1 1
  deriving DecidableEq, Repr

structure EngineSettings where
  syntaxErrorMarker : String := "#error"
  deriving DecidableEq, Repr

structure WatchSettings where
  pollIntervalMs : Nat := 500
  /-- The extensions of source files; none at all means that every file is one. -/
  extensions : List String := ["rs"]
  ignoredDirs : List String := ["target", "node_modules"]
  snapshotHistory : Nat := 16
  autoCommit : Bool := true
  deriving DecidableEq, Repr

structure Settings where
  server : ServerSettings
  telemetry : TelemetrySettings
  session : SessionSettings := {}
  engine : EngineSettings := {}
  watch : WatchSettings := {}
  deriving DecidableEq, Repr

end LiveEdit
