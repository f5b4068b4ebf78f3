import Wardx.Control.ProjectState
import Wardx.Core.MeasurementWindows
import Wardx.Ingest.Envelope
import Wardx.Ingest.ValidateMetrics
import Wardx.Storage.RetentionLedger

/-!
# Envelopes at the server

`validateEnvelope` on the body of a request, check after check, the first that
fails giving the message. Beside it stands what it is for: a reading of the body
as an envelope, and the bounds a read envelope has to keep.

The clock is read once for the latest and once for the earliest time.
-/
namespace Wardx.ValidateEnvelope

open Lib Json Control HistoryBucket ValidateMetrics

structure WireLimits extends IngestLimits where
  maxFramesPerEnvelope : ℕ
  maxItemsPerEnvelope : ℕ
  maxClockSkewMs : ℚ
  maxAcceptedPastAgeMs : ℚ

/-- The times a timestamp may have. -/
structure TimeRange where
  earliest : ℚ
  latest : ℚ

/-! ## The checks -/

section
variable (js : Js) (limits : WireLimits) (range : TimeRange)

def hashField (attrs : Json) (label key : String) : Except String Unit :=
  require ((text? (attrs.get? key)).any ExperimentLedger.isHash)
    (label ++ "." ++ key ++ " must be a 64-bit lowercase hex hash")

def labelField (optional : Bool) (attrs : Json) (label key : String) : Except String Unit :=
  match attrs.get? key with
  | none =>
      require optional (label ++ "." ++ key ++ " must match /^[a-z0-9][a-z0-9._-]\x7b0,63\x7d$/")
  | some value =>
      require ((text? (some value)).any RetentionLedger.isLabel)
        (label ++ "." ++ key ++ " must match /^[a-z0-9][a-z0-9._-]\x7b0,63\x7d$/")

/-- `validateRetention`, with the one label each of its callers names. -/
def validateRetention (attrs : Json) (label : String) (optional : Bool) (key : String) :
    Except String Unit := do
  require attrs.isObject (label ++ " retention event requires subject and salt hashes")
  checkKeys ["subject", "salt", key] label attrs
  checkAll (hashField attrs label) ["subject", "salt"]
  labelField optional attrs label key

def validateEvent (row : Json) (label : String) : Except String Unit := do
  let values := items (some row)
  require (values.length = 3) (label ++ " must be a 3-item tuple")
  validateTimestamp values[0]? (label ++ "[0]") range.earliest range.latest
  validateName limits.toIngestLimits values[1]? (label ++ "[1]")
  validateAttrs limits.toIngestLimits values[2]? (label ++ "[2]")
  if values[1]? = some (.str "retention.activity") then
    validateRetention (values[2]?.getD .null) label true "channel"
  else if values[1]? = some (.str "retention.conversion") then
    validateRetention (values[2]?.getD .null) label false "goal"
  else pure ()

/-- `LOG_LEVELS`. -/
def readLevel (value : Option Json) : Option LogLevel :=
  match text? value with
  | some "debug" => some .debug
  | some "info" => some .info
  | some "warn" => some .warn
  | some "error" => some .error
  | _ => none

def validateLog (row : Json) (label : String) : Except String Unit := do
  let values := items (some row)
  require (values.length = 4) (label ++ " must be a 4-item tuple")
  validateTimestamp values[0]? (label ++ "[0]") range.earliest range.latest
  require (readLevel values[1]?).isSome (label ++ "[1] must be a supported log level")
  validateName limits.toIngestLimits values[2]? (label ++ "[2]")
  validateAttrs limits.toIngestLimits values[3]? (label ++ "[3]")

/-- `validateRows`. -/
def validateRows (rows : Option Json) (label : String)
    (validateRow : Json → String → Except String Unit) : Except String Unit :=
  match rows with
  | some (.arr rows) =>
      checkAll (fun row : Json × ℕ => validateRow row.1 (label ++ "[" ++ toString row.2 ++ "]"))
        rows.zipIdx
  | _ => .error (label ++ " must be an array")

/-- What a frame adds to `itemCount`. -/
def itemsIn (frame : Json) : ℕ :=
  let metrics := (frame.get? "metrics").getD .null
  ([metrics.get? "counters", metrics.get? "gauges", metrics.get? "histograms",
    metrics.get? "distincts", frame.get? "events", frame.get? "logs"].map
      fun rows => (items rows).length).sum

/-- Distincts may be left out of a frame. -/
def validateDistincts (rows : Option Json) (label : String) : Except String Unit :=
  match rows with
  | none => .ok ()
  | some rows => validateRows (some rows) label (validateDistinct js limits.toIngestLimits)

def validateFrame (frame : Json) (label : String) (itemCount : ℕ) : Except String Unit := do
  require frame.isObject (label ++ " must be an object")
  checkKeys ["seq", "from", "to", "metrics", "events", "logs"] label frame
  require (integerFrom 1 (frame.get? "seq")) (label ++ ".seq must be an integer >= 1")
  validateTimestamp (frame.get? "from") (label ++ ".from") range.earliest range.latest
  validateTimestamp (frame.get? "to") (label ++ ".to") range.earliest range.latest
  require (decide ((number? (frame.get? "from")).getD 0 ≤ (number? (frame.get? "to")).getD 0))
    (label ++ ".from must be <= to")
  let metrics := (frame.get? "metrics").getD .null
  require metrics.isObject (label ++ ".metrics is required")
  checkKeys ["counters", "gauges", "histograms", "distincts"] (label ++ ".metrics") metrics
  require (decide (itemCount ≤ limits.maxItemsPerEnvelope))
    ("envelope collections must contain at most " ++ toString limits.maxItemsPerEnvelope ++ " items")
  validateRows (metrics.get? "counters") (label ++ ".metrics.counters")
    (validateCounter js limits.toIngestLimits)
  validateRows (metrics.get? "gauges") (label ++ ".metrics.gauges") fun row rowLabel =>
    validateGauge js limits.toIngestLimits row rowLabel range.earliest range.latest
  validateRows (metrics.get? "histograms") (label ++ ".metrics.histograms")
    (validateHistogram js limits.toIngestLimits)
  validateDistincts js limits (metrics.get? "distincts") (label ++ ".metrics.distincts")
  validateRows (frame.get? "events") (label ++ ".events") (validateEvent limits range)
  validateRows (frame.get? "logs") (label ++ ".logs") (validateLog limits range)

/-- The loop over the frames, which counts items as it goes. -/
def validateFrames : List Json → ℕ → ℕ → Except String Unit
  | [], _, _ => .ok ()
  | frame :: frames, i, itemCount => do
      validateFrame js limits range frame ("frames[" ++ toString i ++ "]") (itemCount + itemsIn frame)
      validateFrames frames (i + 1) (itemCount + itemsIn frame)

def validateNamesOf (object : Json) (label : String) (keys : List String) : Except String Unit :=
  checkAll (fun key => validateName limits.toIngestLimits (object.get? key) (label ++ "." ++ key)) keys

def validateOptionalName (value : Option Json) (label : String) : Except String Unit :=
  match value with
  | none => .ok ()
  | some value => validateName limits.toIngestLimits (some value) label

def validateClient (client : Json) : Except String Unit := do
  require client.isObject "client is required"
  checkKeys ["instanceId", "sessionId", "role", "appVersion", "environment", "platform", "os",
    "attributes"] "client" client
  validateNamesOf limits client "client" ["instanceId", "sessionId"]
  require (validateName limits.toIngestLimits (client.get? "role") "client.role").toBool
    "client.role is required"
  require (client.get? "role" ≠ some (.str "*")) "client.role cannot be *"
  validateNamesOf limits client "client" ["appVersion", "environment", "platform"]
  validateOptionalName limits (client.get? "os") "client.os"

def validateAttributes (attributes : Option Json) : Except String Unit :=
  match attributes with
  | none => .ok ()
  | some value => do
      require value.isObject "client.attributes must be an object"
      validateJsonValue limits.toIngestLimits value "client.attributes"
      checkAll (fun field => require (scalar field.2)
        "client.attributes values must be strings, finite numbers, or booleans") (fieldsOf value)

/-- `validateEnvelope`. -/
def validateEnvelope (body : Json) : Except String Unit := do
  require body.isObject "body must be an object"
  checkKeys ["protocol", "project", "sdk", "client", "configVersion", "configContext", "frames"]
    "body" body
  require (body.get? "protocol" = some (.num 1)) "protocol must be 1"
  validateName limits.toIngestLimits (body.get? "project") "project"
  let sdk := (body.get? "sdk").getD .null
  require sdk.isObject "sdk is required"
  checkKeys ["name", "version"] "sdk" sdk
  validateNamesOf limits sdk "sdk" ["name", "version"]
  let client := (body.get? "client").getD .null
  validateClient limits client
  require (integerFrom 0 (body.get? "configVersion")) "configVersion must be an integer >= 0"
  require ((body.get? "configContext").isNone ||
      (text? (body.get? "configContext")).any ExperimentLedger.isHash)
    "configContext must be an XXHash64 hex digest"
  validateAttributes limits (client.get? "attributes")
  match body.get? "frames" with
  | some (.arr frames) => do
      require (decide (frames.length ≤ limits.maxFramesPerEnvelope))
        ("frames must contain at most " ++ toString limits.maxFramesPerEnvelope ++ " items")
      validateFrames js limits range frames 0 0
  | _ => .error "frames must be an array"

end

end Wardx.ValidateEnvelope
