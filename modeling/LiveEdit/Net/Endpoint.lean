import LiveEdit.Net.Uri

/-! Where the collector of traces is. -/

namespace LiveEdit.Endpoint

def usual : String := "http://localhost:4317"

/-- Variables of the environment that tell where the collector is; the first counts. -/
def variableNames : List String :=
  ["OTEL_EXPORTER_OTLP_TRACES_ENDPOINT", "OTEL_EXPORTER_OTLP_ENDPOINT"]

/-- The address in the settings, unless it is empty. -/
def choose (environment : List (String × String)) (given : String) : String :=
  if given.isEmpty then (variableNames.findSome? (environment.lookup ·)).getD usual else given

def isValid (address : String) : Bool := (Uri.parse? address).isSome

end LiveEdit.Endpoint
