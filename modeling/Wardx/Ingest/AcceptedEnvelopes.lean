import Wardx.Aggregation.FrameAggregator
import Wardx.Ingest.ValidateEnvelope
import Wardx.Lib.Readings

/-!
# What the validator accepts

A body read as an envelope, with the bounds such an envelope keeps. The validator
passes exactly the bodies that are read and keep them, so nothing behind it has
to look at a body's shape again.

Each kind of row has its reading, its bounds and one lemma that joins the two to
the check.
-/
namespace Wardx.ValidateEnvelope

open Lib Json Control HistoryBucket ValidateMetrics MetricsRegistry

/-! ## Reading -/

def onlyKeys (allowed : List String) (value : Json) : Bool := value.keys.all fun key => key ∈ allowed

def readScalar : Json → Option Scalar
  | .str text => some (.str text)
  | .num q => some (.num q)
  | .bool b => some (.bool b)
  | _ => none

def readDimension (field : String × Json) : Option (String × Scalar) :=
  (readScalar field.2).map fun value => (field.1, value)

def readDimensions : Option Json → Option Dimensions
  | some .null => some none
  | some (.obj fields) => (fields.mapM readDimension).map some
  | _ => none

def readAttrs : Option Json → Option Json
  | some .null => some .null
  | some (.obj fields) => some (.obj fields)
  | _ => none

def readRows {α : Type} (read : Json → Option α) : Option Json → Option (List α)
  | some (.arr rows) => rows.mapM read
  | _ => none

def readCounter (row : Json) : Option CounterRow :=
  match items (some row) with
  | [name, dims, value] => do
      let name ← text? (some name)
      let dimensions ← readDimensions (some dims)
      let value ← number? (some value)
      pure ⟨name, dimensions, value⟩
  | _ => none

def readGauge (row : Json) : Option GaugeRow :=
  match items (some row) with
  | [name, dims, value, timestamp] => do
      let name ← text? (some name)
      let dimensions ← readDimensions (some dims)
      let value ← number? (some value)
      let timestamp ← number? (some timestamp)
      pure ⟨name, dimensions, value, timestamp⟩
  | _ => none

def readExemplar : Option Json → Option (Option Exemplar)
  | none => some none
  | some body =>
      if body.isObject && onlyKeys ["value", "attrs"] body then do
        let value ← number? (body.get? "value")
        let attrs ← readAttrs (body.get? "attrs")
        pure (some ⟨value, attrs⟩)
      else none

def readBody (name : String) (dimensions : Dimensions) (body : Json) : Option HistogramRow :=
  if onlyKeys ["count", "sum", "min", "max", "buckets", "exemplar"] body then do
    let count ← natural? (body.get? "count")
    let sum ← number? (body.get? "sum")
    let min ← number? (body.get? "min")
    let max ← number? (body.get? "max")
    let buckets ← readRows readBucket (body.get? "buckets")
    let exemplar ← readExemplar (body.get? "exemplar")
    pure ⟨name, dimensions, count, sum, min, max, buckets, exemplar⟩
  else none

def readHistogramRow (row : Json) : Option HistogramRow :=
  match items (some row) with
  | [name, dims, .obj fields] => do
      let name ← text? (some name)
      let dimensions ← readDimensions (some dims)
      readBody name dimensions (.obj fields)
  | _ => none

def readDistinct (row : Json) : Option DistinctRow :=
  match items (some row) with
  | [name, dims, body] => do
      let name ← text? (some name)
      let dimensions ← readDimensions (some dims)
      let registers ← (HyperLogLog.decodeHllBody body).toOption
      pure ⟨name, dimensions, registers⟩
  | _ => none

def readEvent (row : Json) : Option EventRow :=
  match items (some row) with
  | [timestamp, name, attrs] => do
      let timestamp ← number? (some timestamp)
      let name ← text? (some name)
      let attrs ← readAttrs (some attrs)
      pure ⟨timestamp, name, attrs⟩
  | _ => none

def readLog (row : Json) : Option LogRow :=
  match items (some row) with
  | [timestamp, level, message, attrs] => do
      let timestamp ← number? (some timestamp)
      let level ← readLevel (some level)
      let message ← text? (some message)
      let attrs ← readAttrs (some attrs)
      pure ⟨timestamp, level, message, attrs⟩
  | _ => none

def readDistincts : Option Json → Option (Option (List DistinctRow))
  | none => some none
  | some rows => (readRows readDistinct (some rows)).map some

def readMetrics (metrics : Json) : Option Metrics :=
  if metrics.isObject && onlyKeys ["counters", "gauges", "histograms", "distincts"] metrics then do
    let counters ← readRows readCounter (metrics.get? "counters")
    let gauges ← readRows readGauge (metrics.get? "gauges")
    let histograms ← readRows readHistogramRow (metrics.get? "histograms")
    let distincts ← readDistincts (metrics.get? "distincts")
    pure ⟨counters, gauges, histograms, distincts⟩
  else none

def readFrame (frame : Json) : Option Frame :=
  if frame.isObject && onlyKeys ["seq", "from", "to", "metrics", "events", "logs"] frame then do
    let seq ← natural? (frame.get? "seq")
    let frameFrom ← number? (frame.get? "from")
    let frameTo ← number? (frame.get? "to")
    let metrics ← readMetrics ((frame.get? "metrics").getD .null)
    let events ← readRows readEvent (frame.get? "events")
    let logs ← readRows readLog (frame.get? "logs")
    pure ⟨seq, frameFrom, frameTo, metrics, events, logs⟩
  else none

/-- A text that may be absent, but is no other value. -/
def readOptionalText : Option Json → Option (Option String)
  | none => some none
  | some value => (text? (some value)).map some

def readAttributes : Option Json → Option (Option Fields)
  | none => some none
  | some (.obj fields) => some (some fields)
  | _ => none

def readClient (client : Json) : Option Client :=
  if client.isObject && onlyKeys ["instanceId", "sessionId", "role", "appVersion", "environment",
      "platform", "os", "attributes"] client then do
    let instanceId ← text? (client.get? "instanceId")
    let sessionId ← text? (client.get? "sessionId")
    let role ← text? (client.get? "role")
    let appVersion ← text? (client.get? "appVersion")
    let environment ← text? (client.get? "environment")
    let platform ← text? (client.get? "platform")
    let os ← readOptionalText (client.get? "os")
    let attributes ← readAttributes (client.get? "attributes")
    pure ⟨instanceId, sessionId, role, appVersion, environment, platform, os, attributes⟩
  else none

def readSdk (sdk : Json) : Option Sdk :=
  if sdk.isObject && onlyKeys ["name", "version"] sdk then do
    let name ← text? (sdk.get? "name")
    let version ← text? (sdk.get? "version")
    pure ⟨name, version⟩
  else none

/-- The body as an envelope. -/
def readEnvelope (body : Json) : Option Envelope :=
  if body.isObject && onlyKeys ["protocol", "project", "sdk", "client", "configVersion",
      "configContext", "frames"] body then do
    let protocol ← natural? (body.get? "protocol")
    let project ← text? (body.get? "project")
    let sdk ← readSdk ((body.get? "sdk").getD .null)
    let client ← readClient ((body.get? "client").getD .null)
    let configVersion ← natural? (body.get? "configVersion")
    let configContext ← readOptionalText (body.get? "configContext")
    let frames ← readRows readFrame (body.get? "frames")
    pure ⟨protocol, project, sdk, client, configVersion, configContext, frames⟩
  else none

/-! ## Bounds -/

section
variable (js : Js) (limits : WireLimits) (range : TimeRange)

def NameOk (name : String) : Prop := name ≠ "" ∧ utf8Length name ≤ limits.maxNameBytes

def TimeOk (time : ℚ) : Prop := range.earliest ≤ time ∧ time ≤ range.latest

def DimensionOk (field : String × Scalar) : Prop :=
  NameOk limits field.1 ∧
    utf16Length (FrameAggregator.scalarText js field.2) ≤ limits.maxDimensionValueLength

def DimensionsOk (dimensions : Dimensions) : Prop :=
  ∀ fields ∈ dimensions, fields.length ≤ limits.maxDimensionKeys ∧
    ∀ field ∈ fields, DimensionOk js limits field

mutual
/-- The lengths of a value's texts, keys and objects. -/
def JsonOk : Json → Prop
  | .null | .bool _ | .num _ => True
  | .str text => utf16Length text ≤ limits.maxAttributeValueLength
  | .arr values => ItemsOk values
  | .obj fields => fields.length ≤ limits.maxAttributeKeys ∧ FieldsOk fields

def ItemsOk : List Json → Prop
  | [] => True
  | value :: values => JsonOk value ∧ ItemsOk values

def FieldsOk : List (String × Json) → Prop
  | [] => True
  | (key, value) :: fields => NameOk limits key ∧ JsonOk value ∧ FieldsOk fields
end

def CounterOk (row : CounterRow) : Prop :=
  NameOk limits row.name ∧ DimensionsOk js limits row.dimensions

def GaugeOk (row : GaugeRow) : Prop :=
  NameOk limits row.name ∧ DimensionsOk js limits row.dimensions ∧ TimeOk range row.timestamp

structure HistogramOk (row : HistogramRow) : Prop where
  name : NameOk limits row.name
  dimensions : DimensionsOk js limits row.dimensions
  counted : 1 ≤ row.count
  ordered : row.min ≤ row.max
  bounds : (row.buckets.map Prod.fst).IsChain (· < ·)
  total : (row.buckets.map Prod.snd).sum ≤ row.count
  exemplar : ∀ exemplar ∈ row.exemplar, exemplar.value = row.max ∧ JsonOk limits exemplar.attrs

def DistinctOk (row : DistinctRow) : Prop :=
  NameOk limits row.name ∧ DimensionsOk js limits row.dimensions

/-- The attributes of a retention event: two hashes and the label its kind has. -/
structure RetentionOk (attrs : Json) (optional : Bool) (key : String) : Prop where
  isObject : attrs.isObject = true
  keys : onlyKeys ["subject", "salt", key] attrs = true
  subject : (text? (attrs.get? "subject")).any ExperimentLedger.isHash = true
  salt : (text? (attrs.get? "salt")).any ExperimentLedger.isHash = true
  label : (attrs.get? key = none ∧ optional = true) ∨
    (text? (attrs.get? key)).any RetentionLedger.isLabel = true

structure EventOk (row : EventRow) : Prop where
  timestamp : TimeOk range row.timestamp
  name : NameOk limits row.name
  attrs : JsonOk limits row.attrs
  activity : row.name = "retention.activity" → RetentionOk row.attrs true "channel"
  conversion : row.name = "retention.conversion" → RetentionOk row.attrs false "goal"

structure LogOk (row : LogRow) : Prop where
  timestamp : TimeOk range row.timestamp
  message : NameOk limits row.message
  attrs : JsonOk limits row.attrs

structure MetricsOk (metrics : Metrics) : Prop where
  counters : ∀ row ∈ metrics.counters, CounterOk js limits row
  gauges : ∀ row ∈ metrics.gauges, GaugeOk js limits range row
  histograms : ∀ row ∈ metrics.histograms, HistogramOk js limits row
  distincts : ∀ rows ∈ metrics.distincts, ∀ row ∈ rows, DistinctOk js limits row

structure FrameOk (frame : Frame) : Prop where
  seq : 1 ≤ frame.seq
  frameFrom : TimeOk range frame.frameFrom
  frameTo : TimeOk range frame.frameTo
  ordered : frame.frameFrom ≤ frame.frameTo
  metrics : MetricsOk js limits range frame.metrics
  events : ∀ row ∈ frame.events, EventOk limits range row
  logs : ∀ row ∈ frame.logs, LogOk limits range row

/-- The rows of a frame. -/
def itemCount (frame : Frame) : ℕ :=
  frame.metrics.counters.length + frame.metrics.gauges.length + frame.metrics.histograms.length +
    (frame.metrics.distincts.getD []).length + frame.events.length + frame.logs.length

structure ClientOk (client : Client) : Prop where
  instanceId : NameOk limits client.instanceId
  sessionId : NameOk limits client.sessionId
  role : NameOk limits client.role
  role_ne : client.role ≠ "*"
  appVersion : NameOk limits client.appVersion
  environment : NameOk limits client.environment
  platform : NameOk limits client.platform
  os : ∀ os ∈ client.os, NameOk limits os
  attributes : ∀ fields ∈ client.attributes, JsonOk limits (.obj fields) ∧
    ∀ field ∈ fields, scalar field.2 = true

/-- The bounds an accepted envelope keeps. -/
structure EnvelopeOk (envelope : Envelope) : Prop where
  protocol : envelope.protocol = 1
  project : NameOk limits envelope.project
  sdkName : NameOk limits envelope.sdk.name
  sdkVersion : NameOk limits envelope.sdk.version
  client : ClientOk limits envelope.client
  configContext : ∀ context ∈ envelope.configContext, ExperimentLedger.isHash context = true
  frames : envelope.frames.length ≤ limits.maxFramesPerEnvelope
  items : (envelope.frames.map itemCount).sum ≤ limits.maxItemsPerEnvelope
  frame : ∀ frame ∈ envelope.frames, FrameOk js limits range frame

end

/-! ## The checks of values -/

section
variable {limits : WireLimits}

theorem validateName_iff (value : Option Json) (label : String) :
    validateName limits.toIngestLimits value label = .ok () ↔
      ∃ text, text? value = some text ∧ NameOk limits text := by
  unfold validateName NameOk
  cases text? value with
  | none => simp
  | some text => simp

mutual
theorem validateJsonValue_iff (value : Json) (label : String) :
    validateJsonValue limits.toIngestLimits value label = .ok () ↔ JsonOk limits value := by
  cases value with
  | null => simp [validateJsonValue, JsonOk]
  | bool b => simp [validateJsonValue, JsonOk]
  | num q => simp [validateJsonValue, JsonOk]
  | str text => simp [validateJsonValue, JsonOk]
  | arr values =>
      rw [validateJsonValue, JsonOk]
      exact validateJsonItems_iff values label 0
  | obj fields =>
      simp only [validateJsonValue, JsonOk, bind_eq_ok_iff, require_eq_ok_iff, exists_const,
        decide_eq_true_eq]
      rw [validateJsonFields_iff fields label]

theorem validateJsonItems_iff (values : List Json) (label : String) (i : ℕ) :
    validateJsonItems limits.toIngestLimits values label i = .ok () ↔ ItemsOk limits values := by
  cases values with
  | nil => simp [validateJsonItems, ItemsOk]
  | cons value values =>
      rw [validateJsonItems, ItemsOk, check_bind_eq_ok_iff, validateJsonValue_iff value,
        validateJsonItems_iff values label (i + 1)]

theorem validateJsonFields_iff (fields : List (String × Json)) (label : String) :
    validateJsonFields limits.toIngestLimits fields label = .ok () ↔ FieldsOk limits fields := by
  cases fields with
  | nil => simp [validateJsonFields, FieldsOk]
  | cons field fields =>
      obtain ⟨key, value⟩ := field
      rw [validateJsonFields, FieldsOk, check_bind_eq_ok_iff, check_bind_eq_ok_iff,
        validateJsonValue_iff value, validateJsonFields_iff fields label, validateName_iff]
      simp [text?]
end

theorem validateAttrs_iff (attrs : Option Json) (label : String) :
    validateAttrs limits.toIngestLimits attrs label = .ok () ↔
      ∃ value, readAttrs attrs = some value ∧ JsonOk limits value := by
  unfold validateAttrs readAttrs
  split
  · simp [JsonOk]
  · simp [validateJsonValue_iff]
  · simp

theorem validateNumber_iff (value : Option Json) (label : String) :
    validateNumber value label = .ok () ↔ ∃ q, number? value = some q := by
  unfold validateNumber
  rw [require_eq_ok_iff, Option.isSome_iff_exists]

theorem validateTimestamp_iff {range : TimeRange} (value : Option Json) (label : String) :
    validateTimestamp value label range.earliest range.latest = .ok () ↔
      ∃ time, number? value = some time ∧ TimeOk range time := by
  unfold validateTimestamp TimeOk
  cases number? value with
  | none => simp
  | some time => simp

theorem eq_toNat {q : ℚ} (hden : q.den = 1) (hnum : (q.num.toNat : ℤ) = q.num) :
    q = (q.num.toNat : ℚ) := by
  have hcast : ((q.num.toNat : ℤ) : ℚ) = (q.num : ℚ) := congrArg _ hnum
  rw [Int.cast_natCast] at hcast
  rw [hcast]
  exact ((Rat.den_eq_one_iff q).mp hden).symm

theorem natural?_eq_some_iff (value : Option Json) (n : ℕ) :
    natural? value = some n ↔ number? value = some (n : ℚ) := by
  unfold natural?
  cases number? value with
  | none => simp
  | some q =>
      simp only [Option.bind_some, Option.some.injEq]
      constructor
      · intro h
        split_ifs at h with hq
        have hnum : (q.num.toNat : ℤ) = q.num := Int.toNat_of_nonneg (Rat.num_nonneg.mpr hq.2)
        rw [← Option.some.inj h]
        exact eq_toNat hq.1 hnum
      · rintro rfl
        simp

theorem integerFrom_iff (least : ℕ) (value : Option Json) :
    integerFrom least value = true ↔ ∃ n, natural? value = some n ∧ least ≤ n := by
  simp only [natural?_eq_some_iff]
  unfold integerFrom number?
  split
  · rename_i q
    simp only [Bool.and_eq_true, decide_eq_true_eq, Option.some.injEq]
    constructor
    · rintro ⟨hden, hleast⟩
      refine ⟨q.num.toNat, ?_, by omega⟩
      have hnum : (q.num.toNat : ℤ) = q.num := Int.toNat_of_nonneg (by omega)
      exact eq_toNat hden hnum
    · rintro ⟨n, rfl, hleast⟩
      exact ⟨by simp, by simpa using hleast⟩
  · rename_i hne
    simp
    

/-! ## Dimensions -/

variable {js : Js}

theorem validateDimension_iff (label : String) (field : String × Json) :
    validateDimension js limits.toIngestLimits label field = .ok () ↔
      ∃ dimension, readDimension field = some dimension ∧ DimensionOk js limits dimension := by
  obtain ⟨key, value⟩ := field
  unfold validateDimension readDimension DimensionOk
  rw [check_bind_eq_ok_iff, validateName_iff]
  cases value <;> simp [dimensionText, readScalar, FrameAggregator.scalarText, text?]

theorem validateDimensions_iff (dims : Option Json) (label : String) :
    ValidateMetrics.validateDimensions js limits.toIngestLimits dims label = .ok () ↔
      ∃ dimensions, readDimensions dims = some dimensions ∧ DimensionsOk js limits dimensions := by
  unfold ValidateMetrics.validateDimensions readDimensions DimensionsOk
  split
  · simp
  · rename_i fields
    simp only [check_bind_eq_ok_iff, require_eq_ok_iff, checkAll_eq_ok_iff,
      decide_eq_true_eq, mapM_iff (validateDimension_iff label), Option.map_eq_some_iff]
    constructor
    · rintro ⟨hlength, read, hread, hgood⟩
      refine ⟨_, ⟨read, hread, rfl⟩, ?_⟩
      intro held hheld
      rw [← Option.mem_some.mp hheld]
      exact ⟨(length_mapM hread).trans_le hlength, hgood⟩
    · rintro ⟨_, ⟨read, hread, rfl⟩, hgood⟩
      obtain ⟨hlength, hall⟩ := hgood read rfl
      exact ⟨(length_mapM hread).symm.trans_le hlength, read, hread, hall⟩
  · simp

theorem validateNamed_iff (name dims : Json) (rest : List Json) (label : String) :
    validateNamed js limits.toIngestLimits (name :: dims :: rest) label = .ok () ↔
      (∃ text, text? (some name) = some text ∧ NameOk limits text) ∧
        ∃ dimensions, readDimensions (some dims) = some dimensions ∧
          DimensionsOk js limits dimensions := by
  unfold validateNamed
  rw [check_bind_eq_ok_iff]
  simp only [List.getElem?_cons_zero, List.getElem?_cons_succ, validateName_iff,
    validateDimensions_iff]

/-! ## Rows -/

theorem validateCounter_iff (row : Json) (label : String) :
    validateCounter js limits.toIngestLimits row label = .ok () ↔
      ∃ counter, readCounter row = some counter ∧ CounterOk js limits counter := by
  unfold validateCounter readCounter CounterOk
  dsimp only
  generalize items (some row) = values
  rcases values with _ | ⟨name, _ | ⟨dims, _ | ⟨value, _ | ⟨extra, rest⟩⟩⟩⟩
  case cons.cons.cons.nil =>
    rw [check_bind_eq_ok_iff, check_bind_eq_ok_iff, validateNamed_iff]
    simp only [List.getElem?_cons_succ, List.getElem?_cons_zero, validateNumber_iff,
      Option.bind_eq_bind, Option.bind_eq_some_iff, Option.pure_def, Option.some.injEq]
    constructor
    · rintro ⟨_, ⟨⟨text, htext, hname⟩, dimensions, hread, hdims⟩, q, hq⟩
      exact ⟨_, ⟨text, htext, dimensions, hread, q, hq, rfl⟩, hname, hdims⟩
    · rintro ⟨_, ⟨text, htext, dimensions, hread, q, hq, rfl⟩, hname, hdims⟩
      exact ⟨rfl, ⟨⟨text, htext, hname⟩, dimensions, hread, hdims⟩, q, hq⟩
  all_goals simp

theorem validateGauge_iff {range : TimeRange} (row : Json) (label : String) :
    validateGauge js limits.toIngestLimits row label range.earliest range.latest = .ok () ↔
      ∃ gauge, readGauge row = some gauge ∧ GaugeOk js limits range gauge := by
  unfold validateGauge readGauge GaugeOk
  dsimp only
  generalize items (some row) = values
  rcases values with _ | ⟨name, _ | ⟨dims, _ | ⟨value, _ | ⟨timestamp, _ | ⟨extra, rest⟩⟩⟩⟩⟩
  case cons.cons.cons.cons.nil =>
    rw [check_bind_eq_ok_iff, check_bind_eq_ok_iff, check_bind_eq_ok_iff, validateNamed_iff]
    simp only [List.getElem?_cons_succ, List.getElem?_cons_zero, validateNumber_iff,
      validateTimestamp_iff, Option.bind_eq_bind, Option.bind_eq_some_iff, Option.pure_def,
      Option.some.injEq]
    constructor
    · rintro ⟨_, ⟨⟨text, htext, hname⟩, dimensions, hread, hdims⟩, ⟨q, hq⟩, time, htime, hrange⟩
      exact ⟨_, ⟨text, htext, dimensions, hread, q, hq, time, htime, rfl⟩, hname, hdims, hrange⟩
    · rintro ⟨_, ⟨text, htext, dimensions, hread, q, hq, time, htime, rfl⟩, hname, hdims, hrange⟩
      exact ⟨rfl, ⟨⟨text, htext, hname⟩, dimensions, hread, hdims⟩, ⟨q, hq⟩, time, htime, hrange⟩
  all_goals simp

theorem validateDistinct_iff (row : Json) (label : String) :
    validateDistinct js limits.toIngestLimits row label = .ok () ↔
      ∃ distinct, readDistinct row = some distinct ∧ DistinctOk js limits distinct := by
  unfold validateDistinct readDistinct DistinctOk
  dsimp only
  generalize items (some row) = values
  rcases values with _ | ⟨name, _ | ⟨dims, _ | ⟨body, _ | ⟨extra, rest⟩⟩⟩⟩
  case cons.cons.cons.nil =>
    rw [check_bind_eq_ok_iff, check_bind_eq_ok_iff, validateNamed_iff]
    simp only [List.getElem?_cons_succ, List.getElem?_cons_zero, Option.getD_some,
      Option.bind_eq_bind, Option.bind_eq_some_iff, Option.pure_def, Option.some.injEq]
    cases HyperLogLog.decodeHllBody body with
    | error message => simp [Except.toOption]
    | ok registers =>
        constructor
        · rintro ⟨_, ⟨⟨text, htext, hname⟩, dimensions, hread, hdims⟩, _⟩
          exact ⟨_, ⟨text, htext, dimensions, hread, registers, rfl, rfl⟩, hname, hdims⟩
        · rintro ⟨_, ⟨text, htext, dimensions, hread, registers, _, rfl⟩, hname, hdims⟩
          exact ⟨rfl, ⟨⟨text, htext, hname⟩, dimensions, hread, hdims⟩, rfl⟩
  all_goals simp

/-! ## Histograms -/

theorem checkKeys_iff (allowed : List String) (label : String) (value : Json) :
    checkKeys allowed label value = .ok () ↔ onlyKeys allowed value = true := by
  unfold checkKeys onlyKeys
  rw [checkAll_eq_ok_iff, List.all_eq_true]
  simp only [require_eq_ok_iff]

theorem wholeFrom_iff (least : ℕ) (value : Option Json) (z : ℤ) :
    wholeFrom least value = some z ↔ ∃ n, natural? value = some n ∧ least ≤ n ∧ z = n := by
  simp only [natural?_eq_some_iff]
  unfold wholeFrom
  cases number? value with
  | none => simp
  | some q =>
      simp only [Option.bind_some, Option.some.injEq]
      constructor
      · intro h
        split_ifs at h with hq
        have hz : q.num = z := Option.some.inj h
        have hnum : (q.num.toNat : ℤ) = q.num := Int.toNat_of_nonneg (by omega)
        exact ⟨q.num.toNat, eq_toNat hq.1 hnum, by omega, by omega⟩
      · rintro ⟨n, rfl, hleast, rfl⟩
        simpa using hleast

theorem validateBuckets_cons_of_some {bucket : Json} {bound : ℚ} {count : ℕ}
    (h : readBucket bucket = some (bound, count)) (label : String) (buckets : List Json) (i : ℕ)
    (previous : Option ℚ) (total : ℤ) :
    validateBuckets label (bucket :: buckets) i previous total = (do
      require (previous.all fun before => decide (before < bound))
        (label ++ ".buckets bounds must be strictly increasing finite numbers")
      validateBuckets label buckets (i + 1) (some bound) (total + count)) := by
  unfold readBucket at h
  split at h
  · rename_i first second
    obtain ⟨n, hn, hpair⟩ := Option.map_eq_some_iff.mp h
    rw [Prod.mk.injEq] at hpair
    obtain ⟨rfl, rfl⟩ := hpair
    have hwhole : wholeFrom 0 (some second) = some (n : ℤ) :=
      (wholeFrom_iff 0 _ _).mpr ⟨n, hn, Nat.zero_le n, rfl⟩
    simp only [validateBuckets, items, number?, List.getElem?_cons_zero, List.getElem?_cons_succ,
      hwhole]
    rfl
  · cases h

/-- What cannot be read as a bucket stops the loop. -/
theorem validateBuckets_cons_of_none {bucket : Json} (h : readBucket bucket = none) (label : String)
    (buckets : List Json) (i : ℕ) (previous : Option ℚ) (total final : ℤ) :
    validateBuckets label (bucket :: buckets) i previous total ≠ .ok final := by
  intro hok
  rw [validateBuckets, bind_eq_ok_iff] at hok
  obtain ⟨_, hlength, hok⟩ := hok
  rw [require_eq_ok_iff, decide_eq_true_eq] at hlength
  obtain ⟨first, second, hpair⟩ := List.length_eq_two.mp hlength
  rw [hpair] at hok
  cases hnumber : number? (some first) with
  | none =>
      simp only [List.getElem?_cons_zero, hnumber] at hok
      cases hok
  | some bound =>
      simp only [List.getElem?_cons_zero, List.getElem?_cons_succ, hnumber, bind_eq_ok_iff] at hok
      obtain ⟨_, _, hok⟩ := hok
      cases hwhole : wholeFrom 0 (some second) with
      | none =>
          rw [hwhole] at hok
          cases hok
      | some z =>
          obtain ⟨n, hn, _⟩ := (wholeFrom_iff 0 _ z).mp hwhole
          have hbucket : bucket = .arr [first, second] := by
            cases bucket <;> simp_all [items]
          have hfirst : first = .num bound := by
            cases first <;> simp_all [number?]
          rw [hbucket, hfirst, readBucket, hn] at h
          cases h

/-- The loop's answer is the sum of the counts; the bounds it read are a chain
that goes on from the one before. -/
theorem validateBuckets_iff (label : String) (buckets : List Json) (i : ℕ) (previous : Option ℚ)
    (total final : ℤ) :
    validateBuckets label buckets i previous total = .ok final ↔
      ∃ pairs, buckets.mapM readBucket = some pairs ∧
        (previous.toList ++ pairs.map Prod.fst).IsChain (· < ·) ∧
        final = total + ((pairs.map Prod.snd).sum : ℕ) := by
  induction buckets generalizing i previous total with
  | nil => cases previous <;> simp [validateBuckets, eq_comm]
  | cons bucket buckets ih =>
      cases hread : readBucket bucket with
      | none =>
          have hstop := validateBuckets_cons_of_none hread label buckets i previous total final
          simp [hstop, List.mapM_cons, hread]
      | some pair =>
          obtain ⟨bound, count⟩ := pair
          have hchain : ∀ pairs : List (ℚ × ℕ),
              (previous.toList ++ (bound :: pairs.map Prod.fst)).IsChain (· < ·) ↔
                (previous.all fun before => decide (before < bound)) = true ∧
                  (bound :: pairs.map Prod.fst).IsChain (· < ·) := by
            intro pairs
            cases previous with
            | none => simp
            | some before => simp [List.isChain_cons_cons]
          rw [validateBuckets_cons_of_some hread, bind_eq_ok_iff]
          simp only [require_eq_ok_iff, exists_const, ih, List.mapM_cons, hread, Option.bind_eq_bind,
            Option.bind_some, Option.bind_eq_some_iff, Option.pure_def, Option.some.injEq]
          constructor
          · rintro ⟨hprevious, pairs, hpairs, hbounds, rfl⟩
            refine ⟨_, ⟨pairs, hpairs, rfl⟩, (hchain pairs).mpr ⟨hprevious, hbounds⟩, ?_⟩
            rw [List.map_cons, List.sum_cons, Nat.cast_add, add_assoc]
          · rintro ⟨_, ⟨pairs, hpairs, rfl⟩, hbounds, rfl⟩
            obtain ⟨hprevious, hrest⟩ := (hchain pairs).mp hbounds
            refine ⟨hprevious, pairs, hpairs, hrest, ?_⟩
            rw [List.map_cons, List.sum_cons, Nat.cast_add, add_assoc]

theorem validateTotals_iff (body : Json) (label : String) (count : ℤ) (max : ℚ) :
    validateTotals body label = .ok (count, max) ↔
      ∃ n sum min, natural? (body.get? "count") = some n ∧ number? (body.get? "sum") = some sum ∧
        number? (body.get? "min") = some min ∧ number? (body.get? "max") = some max ∧
        1 ≤ n ∧ min ≤ max ∧ count = n := by
  unfold validateTotals
  cases hcount : wholeFrom 1 (body.get? "count") with
  | none =>
      simp only [reduceCtorEq, false_iff]
      rintro ⟨n, _, _, hn, _, _, _, hpos, _⟩
      have hwhole := (wholeFrom_iff 1 (body.get? "count") n).mpr ⟨n, hn, hpos, rfl⟩
      rw [Nat.cast_one, hcount] at hwhole
      cases hwhole
  | some z =>
      obtain ⟨n, hn, hpos, rfl⟩ := (wholeFrom_iff 1 (body.get? "count") z).mp hcount
      simp only [hn, Option.some.injEq]
      rw [bind_eq_ok_iff]
      cases hmin : number? (body.get? "min") with
      | none => simp
      | some min =>
          cases hmax : number? (body.get? "max") with
          | none => simp
          | some held =>
              have hnumber := validateNumber_iff (body.get? "sum") (label ++ ".sum")
              constructor
              · rintro ⟨_, hsum, hrest⟩
                obtain ⟨sum, hsum⟩ := hnumber.mp hsum
                simp only [bind_eq_ok_iff, require_eq_ok_iff, exists_const, decide_eq_true_eq, pure,
                  Except.pure, Except.ok.injEq, Prod.mk.injEq] at hrest
                obtain ⟨hle, rfl, rfl⟩ := hrest
                exact ⟨n, sum, min, rfl, hsum, rfl, rfl, hpos, hle, rfl⟩
              · rintro ⟨_, sum, _, rfl, hsum, hmin, hheld, _, hle, rfl⟩
                cases hmin
                cases hheld
                refine ⟨(), hnumber.mpr ⟨sum, hsum⟩, ?_⟩
                simp only [bind_eq_ok_iff, require_eq_ok_iff, exists_const, decide_eq_true_eq]
                exact ⟨hle, rfl⟩

theorem validateExemplar_iff (exemplar : Option Json) (max : ℚ) (label : String) :
    validateExemplar limits.toIngestLimits exemplar max label = .ok () ↔
      ∃ held, readExemplar exemplar = some held ∧
        ∀ exemplar ∈ held, exemplar.value = max ∧ JsonOk limits exemplar.attrs := by
  unfold validateExemplar readExemplar
  cases exemplar with
  | none => simp
  | some body =>
      dsimp only
      rw [check_bind_eq_ok_iff, check_bind_eq_ok_iff, require_eq_ok_iff, checkKeys_iff]
      by_cases hshape : (body.isObject && onlyKeys ["value", "attrs"] body) = true
      · rw [if_pos hshape]
        rw [Bool.and_eq_true] at hshape
        cases number? (body.get? "value") with
        | none => simp
        | some value =>
            dsimp only
            rw [check_bind_eq_ok_iff, require_eq_ok_iff, validateAttrs_iff]
            simp only [hshape, true_and, decide_eq_true_eq, Option.bind_eq_bind, Option.bind_some,
              Option.bind_eq_some_iff, Option.pure_def, Option.some.injEq]
            constructor
            · rintro ⟨rfl, attrs, hattrs, hok⟩
              refine ⟨_, ⟨attrs, hattrs, rfl⟩, ?_⟩
              intro held hheld
              rw [← Option.mem_some.mp hheld]
              exact ⟨rfl, hok⟩
            · rintro ⟨_, ⟨attrs, hattrs, rfl⟩, hok⟩
              obtain ⟨hvalue, hjson⟩ := hok _ rfl
              exact ⟨hvalue, attrs, hattrs, hjson⟩
      · rw [if_neg hshape]
        rw [Bool.and_eq_true] at hshape
        simp only [reduceCtorEq, false_and, exists_false, iff_false]
        rintro ⟨hobject, hkeys, _⟩
        exact hshape ⟨hobject, hkeys⟩

theorem readBody_named {name : String} {dimensions : Dimensions} {body : Json} {row : HistogramRow}
    (h : readBody name dimensions body = some row) :
    row.name = name ∧ row.dimensions = dimensions := by
  unfold readBody at h
  split_ifs at h
  simp only [Option.bind_eq_bind, Option.bind_eq_some_iff, Option.pure_def, Option.some.injEq] at h
  obtain ⟨_, _, _, _, _, _, _, _, _, _, _, _, rfl⟩ := h
  exact ⟨rfl, rfl⟩

theorem validateHistogramBody_iff (name : String) (dimensions : Dimensions) (fields : Fields)
    (label : String) :
    validateHistogramBody limits.toIngestLimits (some (.obj fields)) label = .ok () ↔
      ∃ row, readBody name dimensions (.obj fields) = some row ∧
        1 ≤ row.count ∧ row.min ≤ row.max ∧ (row.buckets.map Prod.fst).IsChain (· < ·) ∧
        (row.buckets.map Prod.snd).sum ≤ row.count ∧
        ∀ exemplar ∈ row.exemplar, exemplar.value = row.max ∧ JsonOk limits exemplar.attrs := by
  unfold validateHistogramBody readBody
  dsimp only
  generalize Json.obj fields = body
  rw [check_bind_eq_ok_iff, checkKeys_iff]
  by_cases hkeys : onlyKeys ["count", "sum", "min", "max", "buckets", "exemplar"] body = true
  · rw [if_pos hkeys, bind_eq_ok_iff]
    simp only [hkeys, true_and, Prod.exists, validateTotals_iff, Option.bind_eq_bind,
      Option.bind_eq_some_iff, Option.pure_def, Option.some.injEq]
    cases hbuckets : body.get? "buckets" with
    | none => simp [readRows]
    | some buckets =>
        cases buckets with
        | arr buckets =>
            simp only [bind_eq_ok_iff, validateBuckets_iff, require_eq_ok_iff, exists_const,
              decide_eq_true_eq, validateExemplar_iff, readRows, Option.toList_none,
              List.nil_append]
            constructor
            · rintro ⟨_, max, ⟨count, sum, min, hcount, hsum, hmin, hmax, hpos, hle, rfl⟩, _,
                ⟨pairs, hpairs, hchain, rfl⟩, htotal, exemplar, hexemplar, hok⟩
              exact ⟨_, ⟨count, hcount, sum, hsum, min, hmin, max, hmax, pairs, hpairs, exemplar,
                hexemplar, rfl⟩, hpos, hle, hchain, by rw [zero_add] at htotal; exact Nat.cast_le.mp htotal, hok⟩
            · rintro ⟨_, ⟨count, hcount, sum, hsum, min, hmin, max, hmax, pairs, hpairs, exemplar,
                hexemplar, rfl⟩, hpos, hle, hchain, htotal, hok⟩
              exact ⟨count, max, ⟨count, sum, min, hcount, hsum, hmin, hmax, hpos, hle, rfl⟩, _,
                ⟨pairs, hpairs, hchain, rfl⟩, by rw [zero_add]; exact Nat.cast_le.mpr htotal, exemplar,
                hexemplar, hok⟩
        | _ => simp [readRows]
  · simp [hkeys]

theorem validateHistogram_iff (row : Json) (label : String) :
    validateHistogram js limits.toIngestLimits row label = .ok () ↔
      ∃ histogram, readHistogramRow row = some histogram ∧ HistogramOk js limits histogram := by
  unfold validateHistogram readHistogramRow
  dsimp only
  generalize items (some row) = values
  rcases values with _ | ⟨name, _ | ⟨dims, _ | ⟨body, _ | ⟨extra, rest⟩⟩⟩⟩
  case cons.cons.cons.nil =>
    rw [check_bind_eq_ok_iff, check_bind_eq_ok_iff, validateNamed_iff]
    cases body with
    | obj fields =>
        simp only [List.getElem?_cons_succ, List.getElem?_cons_zero, Option.bind_eq_bind,
          Option.bind_eq_some_iff]
        constructor
        · rintro ⟨_, ⟨⟨text, htext, hname⟩, dimensions, hread, hdims⟩, hbody⟩
          obtain ⟨row, hrow, hpos, hle, hchain, htotal, hok⟩ :=
            (validateHistogramBody_iff text dimensions fields _).mp hbody
          refine ⟨row, ⟨text, htext, dimensions, hread, hrow⟩, ?_⟩
          have hsame := readBody_named hrow
          exact ⟨hsame.1 ▸ hname, hsame.2 ▸ hdims, hpos, hle, hchain, htotal, hok⟩
        · rintro ⟨row, ⟨text, htext, dimensions, hread, hrow⟩, hok⟩
          have hsame := readBody_named hrow
          have hbody := (validateHistogramBody_iff text dimensions fields (label ++ "[2]")).mpr
            ⟨row, hrow, hok.counted, hok.ordered, hok.bounds, hok.total, hok.exemplar⟩
          exact ⟨rfl, ⟨⟨text, htext, hsame.1 ▸ hok.name⟩, dimensions, hread,
            hsame.2 ▸ hok.dimensions⟩, hbody⟩
    | _ => simp [validateHistogramBody]
  all_goals simp

/-! ## Events and logs -/

theorem labelField_iff (optional : Bool) (attrs : Json) (label key : String) :
    labelField optional attrs label key = .ok () ↔
      (attrs.get? key = none ∧ optional = true) ∨
        (text? (attrs.get? key)).any RetentionLedger.isLabel = true := by
  unfold labelField
  cases attrs.get? key with
  | none => simp [text?]
  | some value => simp

theorem validateRetention_iff (attrs : Json) (label : String) (optional : Bool) (key : String) :
    validateRetention attrs label optional key = .ok () ↔ RetentionOk attrs optional key := by
  unfold validateRetention hashField
  rw [check_bind_eq_ok_iff, check_bind_eq_ok_iff, check_bind_eq_ok_iff, require_eq_ok_iff,
    checkKeys_iff, checkAll_eq_ok_iff, labelField_iff]
  simp only [List.forall_mem_cons, List.not_mem_nil, false_implies, implies_true, and_true,
    require_eq_ok_iff]
  constructor
  · rintro ⟨hobject, hkeys, ⟨hsubject, hsalt⟩, hlabel⟩
    exact ⟨hobject, hkeys, hsubject, hsalt, hlabel⟩
  · rintro ⟨hobject, hkeys, hsubject, hsalt, hlabel⟩
    exact ⟨hobject, hkeys, ⟨hsubject, hsalt⟩, hlabel⟩

theorem readAttrs_eq {attrs : Option Json} {value : Json} (h : readAttrs attrs = some value) :
    attrs = some value := by
  unfold readAttrs at h
  split at h
  · rw [← Option.some.inj h]
  · rw [← Option.some.inj h]
  · cases h

theorem text?_eq {value : Json} {text : String} (h : text? (some value) = some text) :
    value = .str text := by
  cases value <;> simp_all [text?]

variable {range : TimeRange}

theorem validateEvent_iff (row : Json) (label : String) :
    validateEvent limits range row label = .ok () ↔
      ∃ event, readEvent row = some event ∧ EventOk limits range event := by
  unfold validateEvent readEvent
  dsimp only
  generalize items (some row) = values
  rcases values with _ | ⟨timestamp, _ | ⟨name, _ | ⟨attrs, _ | ⟨extra, rest⟩⟩⟩⟩
  case cons.cons.cons.nil =>
    rw [check_bind_eq_ok_iff, check_bind_eq_ok_iff, check_bind_eq_ok_iff, check_bind_eq_ok_iff]
    simp only [List.getElem?_cons_succ, List.getElem?_cons_zero, validateTimestamp_iff,
      validateName_iff, validateAttrs_iff, Option.bind_eq_bind, Option.bind_eq_some_iff,
      Option.pure_def, Option.some.injEq, Option.getD_some]
    have hretention : ∀ {text : String} {value : Json}, text? (some name) = some text →
        readAttrs (some attrs) = some value →
        (((if name = .str "retention.activity" then validateRetention attrs label true "channel"
          else if name = .str "retention.conversion" then validateRetention attrs label false "goal"
          else pure ()) = Except.ok ()) ↔
          (text = "retention.activity" → RetentionOk value true "channel") ∧
            (text = "retention.conversion" → RetentionOk value false "goal")) := by
      intro text value htext hvalue
      have hattrs : attrs = value := Option.some.inj (readAttrs_eq hvalue)
      rw [text?_eq htext, hattrs]
      simp only [Json.str.injEq]
      by_cases hactivity : text = "retention.activity"
      · simp [hactivity, validateRetention_iff]
      · by_cases hconversion : text = "retention.conversion"
        · simp [hconversion, validateRetention_iff]
        · simp [hactivity, hconversion, pure, Except.pure]
    constructor
    · rintro ⟨_, ⟨time, htime, hrange⟩, ⟨text, htext, hname⟩, ⟨value, hvalue, hok⟩, hrest⟩
      obtain ⟨hactivity, hconversion⟩ := (hretention htext hvalue).mp hrest
      exact ⟨_, ⟨time, htime, text, htext, value, hvalue, rfl⟩, hrange, hname, hok, hactivity,
        hconversion⟩
    · rintro ⟨_, ⟨time, htime, text, htext, value, hvalue, rfl⟩, hok⟩
      exact ⟨rfl, ⟨time, htime, hok.timestamp⟩, ⟨text, htext, hok.name⟩, ⟨value, hvalue, hok.attrs⟩,
        (hretention htext hvalue).mpr ⟨hok.activity, hok.conversion⟩⟩
  all_goals simp

theorem validateLog_iff (row : Json) (label : String) :
    validateLog limits range row label = .ok () ↔
      ∃ log, readLog row = some log ∧ LogOk limits range log := by
  unfold validateLog readLog
  dsimp only
  generalize items (some row) = values
  rcases values with _ | ⟨timestamp, _ | ⟨level, _ | ⟨message, _ | ⟨attrs, _ | ⟨extra, rest⟩⟩⟩⟩⟩
  case cons.cons.cons.cons.nil =>
    rw [check_bind_eq_ok_iff, check_bind_eq_ok_iff, check_bind_eq_ok_iff, check_bind_eq_ok_iff,
      require_eq_ok_iff, require_eq_ok_iff]
    simp only [List.getElem?_cons_succ, List.getElem?_cons_zero, validateTimestamp_iff,
      validateName_iff, validateAttrs_iff, Option.isSome_iff_exists, Option.bind_eq_bind,
      Option.bind_eq_some_iff, Option.pure_def, Option.some.injEq]
    constructor
    · rintro ⟨_, ⟨time, htime, hrange⟩, ⟨held, hlevel⟩, ⟨text, htext, hname⟩, value, hvalue, hok⟩
      exact ⟨_, ⟨time, htime, held, hlevel, text, htext, value, hvalue, rfl⟩, hrange, hname, hok⟩
    · rintro ⟨_, ⟨time, htime, held, hlevel, text, htext, value, hvalue, rfl⟩, hok⟩
      exact ⟨rfl, ⟨time, htime, hok.timestamp⟩, ⟨held, hlevel⟩, ⟨text, htext, hok.message⟩, value,
        hvalue, hok.attrs⟩
  all_goals simp

/-! ## Frames -/

theorem forall_mem_zipIdx {α : Type} (P : α → Prop) (xs : List α) :
    (∀ x ∈ xs.zipIdx, P x.1) ↔ ∀ x ∈ xs, P x := by
  constructor
  · intro h x hx
    obtain ⟨i, hi⟩ := List.mem_iff_getElem?.mp hx
    exact h (x, i) (List.mem_zipIdx_iff_getElem?.mpr hi)
  · rintro h ⟨x, i⟩ hx
    exact h x (List.mem_iff_getElem?.mpr ⟨i, List.mem_zipIdx_iff_getElem?.mp hx⟩)

theorem validateRows_iff {α : Type} {check : Json → String → Except String Unit}
    {read : Json → Option α} {good : α → Prop}
    (h : ∀ row label, check row label = .ok () ↔ ∃ a, read row = some a ∧ good a)
    (rows : Option Json) (label : String) :
    validateRows rows label check = .ok () ↔
      ∃ read', readRows read rows = some read' ∧ ∀ a ∈ read', good a := by
  unfold validateRows readRows
  split
  · rw [checkAll_eq_ok_iff]
    simp only [h]
    rw [forall_mem_zipIdx fun row => ∃ a, read row = some a ∧ good a]
    exact mapM_iff (fun row => Iff.rfl) _
  · simp

theorem length_readRows {α : Type} {read : Json → Option α} {rows : Option Json} {held : List α}
    (h : readRows read rows = some held) : (items rows).length = held.length := by
  unfold readRows at h
  split at h
  · exact (length_mapM h).symm
  · cases h

theorem validateDistincts_iff (rows : Option Json) (label : String) :
    validateDistincts js limits rows label = .ok () ↔
      ∃ held, readDistincts rows = some held ∧ ∀ rows ∈ held, ∀ row ∈ rows, DistinctOk js limits row := by
  cases rows with
  | none => simp [readDistincts, validateDistincts]
  | some rows =>
      have hrows := validateRows_iff (@validateDistinct_iff limits js)
      unfold validateDistincts readDistincts
      rw [hrows]
      simp only [Option.map_eq_some_iff]
      constructor
      · rintro ⟨held, hheld, hok⟩
        refine ⟨_, ⟨held, hheld, rfl⟩, fun other hother => ?_⟩
        rw [← Option.mem_some.mp hother]
        exact hok
      · rintro ⟨_, ⟨held, hheld, rfl⟩, hok⟩
        exact ⟨held, hheld, hok held rfl⟩

theorem length_readDistincts {rows : Option Json} {held : Option (List DistinctRow)}
    (h : readDistincts rows = some held) : (items rows).length = (held.getD []).length := by
  cases rows with
  | none =>
      cases h
      rfl
  | some rows =>
      obtain ⟨read, hread, rfl⟩ := Option.map_eq_some_iff.mp h
      exact length_readRows hread

theorem validateFrame_iff (frame : Json) (label : String) (count : ℕ) :
    validateFrame js limits range frame label count = .ok () ↔
      ∃ read, readFrame frame = some read ∧ FrameOk js limits range read ∧
        count ≤ limits.maxItemsPerEnvelope := by
  have hseq := integerFrom_iff 1 (frame.get? "seq")
  rw [Nat.cast_one] at hseq
  unfold validateFrame readFrame readMetrics
  generalize (frame.get? "metrics").getD .null = metrics
  simp only [check_bind_eq_ok_iff, require_eq_ok_iff, checkKeys_iff, hseq, validateTimestamp_iff,
    validateRows_iff (@validateCounter_iff limits js),
    validateRows_iff (@validateGauge_iff limits js range),
    validateRows_iff (@validateHistogram_iff limits js),
    validateDistincts_iff, validateRows_iff (@validateEvent_iff limits range),
    validateRows_iff (@validateLog_iff limits range), decide_eq_true_eq]
  constructor
  · rintro ⟨hobject, hkeys, ⟨seq, hseq, hpos⟩, ⟨frameFrom, hfrom, hfromOk⟩, ⟨frameTo, hto, htoOk⟩,
      hle, hmetrics, hmetricKeys, hcount, ⟨counters, hcounters, hcountersOk⟩,
      ⟨gauges, hgauges, hgaugesOk⟩, ⟨histograms, hhistograms, hhistogramsOk⟩,
      ⟨distincts, hdistincts, hdistinctsOk⟩, ⟨events, hevents, heventsOk⟩, logs, hlogs, hlogsOk⟩
    rw [hfrom, hto] at hle
    refine ⟨⟨seq, frameFrom, frameTo, ⟨counters, gauges, histograms, distincts⟩, events, logs⟩, ?_,
      ⟨hpos, hfromOk, htoOk, hle, ⟨hcountersOk, hgaugesOk, hhistogramsOk, hdistinctsOk⟩, heventsOk,
        hlogsOk⟩, hcount⟩
    simp [hobject, hkeys, hmetrics, hmetricKeys, hseq, hfrom, hto, hcounters, hgauges, hhistograms,
      hdistincts, hevents, hlogs]
  · rintro ⟨read, hread, hok, hcount⟩
    split_ifs at hread with hshape hmetricShape
    · simp only [Option.bind_eq_bind, Option.bind_eq_some_iff, Option.pure_def,
        Option.some.injEq] at hread
      obtain ⟨seq, hseq, frameFrom, hfrom, frameTo, hto, _, ⟨counters, hcounters, gauges, hgauges,
        histograms, hhistograms, distincts, hdistincts, rfl⟩, events, hevents, logs, hlogs, rfl⟩ :=
        hread
      rw [Bool.and_eq_true] at hshape hmetricShape
      refine ⟨hshape.1, hshape.2, ⟨seq, hseq, hok.seq⟩, ⟨frameFrom, hfrom, hok.frameFrom⟩,
        ⟨frameTo, hto, hok.frameTo⟩, ?_, hmetricShape.1, hmetricShape.2, hcount,
        ⟨counters, hcounters, hok.metrics.counters⟩, ⟨gauges, hgauges, hok.metrics.gauges⟩,
        ⟨histograms, hhistograms, hok.metrics.histograms⟩,
        ⟨distincts, hdistincts, hok.metrics.distincts⟩, ⟨events, hevents, hok.events⟩, logs, hlogs,
        hok.logs⟩
      rw [hfrom, hto]
      exact hok.ordered
    · simp at hread

/-- The items counted in a body are the rows of the frame it is read as. -/
theorem itemsIn_eq {frame : Json} {read : Frame} (h : readFrame frame = some read) :
    itemsIn frame = itemCount read := by
  unfold readFrame readMetrics at h
  split_ifs at h with hshape hmetricShape
  · simp only [Option.bind_eq_bind, Option.bind_eq_some_iff, Option.pure_def,
      Option.some.injEq] at h
    obtain ⟨seq, _, frameFrom, _, frameTo, _, _, ⟨counters, hcounters, gauges, hgauges,
      histograms, hhistograms, distincts, hdistincts, rfl⟩, events, hevents, logs, hlogs, rfl⟩ := h
    unfold itemsIn itemCount
    simp only [List.map_cons, List.map_nil, List.sum_cons, List.sum_nil, length_readRows hcounters,
      length_readRows hgauges, length_readRows hhistograms, length_readDistincts hdistincts,
      length_readRows hevents, length_readRows hlogs]
    omega
  · simp at h

theorem validateFrames_iff (frames : List Json) (i count : ℕ)
    (hcount : count ≤ limits.maxItemsPerEnvelope) :
    validateFrames js limits range frames i count = .ok () ↔
      ∃ read, frames.mapM readFrame = some read ∧ (∀ frame ∈ read, FrameOk js limits range frame) ∧
        count + (read.map itemCount).sum ≤ limits.maxItemsPerEnvelope := by
  induction frames generalizing i count with
  | nil => simp [validateFrames, hcount]
  | cons frame frames ih =>
      rw [validateFrames, check_bind_eq_ok_iff, validateFrame_iff]
      simp only [List.mapM_cons, Option.bind_eq_bind, Option.bind_eq_some_iff, Option.pure_def,
        Option.some.injEq]
      constructor
      · rintro ⟨⟨first, hfirst, hok, hitems⟩, hrest⟩
        obtain ⟨read, hread, hall, hsum⟩ := (ih (i + 1) _ hitems).mp hrest
        refine ⟨_, ⟨first, hfirst, read, hread, rfl⟩, List.forall_mem_cons.mpr ⟨hok, hall⟩, ?_⟩
        rw [itemsIn_eq hfirst] at hsum
        rw [List.map_cons, List.sum_cons]
        omega
      · rintro ⟨_, ⟨first, hfirst, read, hread, rfl⟩, hall, hsum⟩
        rw [List.forall_mem_cons] at hall
        rw [List.map_cons, List.sum_cons] at hsum
        have hitems : count + itemsIn frame ≤ limits.maxItemsPerEnvelope := by
          rw [itemsIn_eq hfirst]
          omega
        refine ⟨⟨first, hfirst, hall.1, hitems⟩, (ih (i + 1) _ hitems).mpr ⟨read, hread, hall.2, ?_⟩⟩
        rw [itemsIn_eq hfirst]
        omega

/-! ## Bodies -/

theorem validateNamesOf_iff (object : Json) (label : String) (keys : List String) :
    validateNamesOf limits object label keys = .ok () ↔
      ∀ key ∈ keys, ∃ text, text? (object.get? key) = some text ∧ NameOk limits text := by
  unfold validateNamesOf
  rw [checkAll_eq_ok_iff]
  simp only [validateName_iff]

theorem validateOptionalName_iff (value : Option Json) (label : String) :
    validateOptionalName limits value label = .ok () ↔
      ∃ held, readOptionalText value = some held ∧ ∀ text ∈ held, NameOk limits text := by
  unfold validateOptionalName readOptionalText
  cases value with
  | none => simp
  | some value =>
      dsimp only
      rw [validateName_iff]
      simp only [Option.map_eq_some_iff]
      constructor
      · rintro ⟨text, htext, hok⟩
        refine ⟨_, ⟨text, htext, rfl⟩, fun other hother => ?_⟩
        rw [← Option.mem_some.mp hother]
        exact hok
      · rintro ⟨_, ⟨text, htext, rfl⟩, hok⟩
        exact ⟨text, htext, hok text rfl⟩

theorem toBool_iff {ε : Type} (check : Except ε Unit) : check.toBool = true ↔ check = .ok () := by
  cases check <;> simp [Except.toBool]

theorem validateAttributes_iff (attributes : Option Json) :
    validateAttributes limits attributes = .ok () ↔
      ∃ held, readAttributes attributes = some held ∧ ∀ fields ∈ held, JsonOk limits (.obj fields) ∧
        ∀ field ∈ fields, scalar field.2 = true := by
  unfold validateAttributes readAttributes
  cases attributes with
  | none => simp
  | some value =>
      dsimp only
      rw [check_bind_eq_ok_iff, check_bind_eq_ok_iff, require_eq_ok_iff, validateJsonValue_iff,
        checkAll_eq_ok_iff]
      simp only [require_eq_ok_iff]
      cases value with
      | obj fields =>
          simp only [Option.some.injEq, exists_eq_left', Option.mem_some]
          constructor
          · rintro ⟨_, hok, hscalar⟩
            rintro other rfl
            exact ⟨hok, hscalar⟩
          · intro h
            exact ⟨rfl, h fields rfl⟩
      | _ => simp [isObject]

theorem validateClient_iff (client : Json) :
    (validateClient limits client = .ok () ∧
        validateAttributes limits (client.get? "attributes") = .ok ()) ↔
      ∃ read, readClient client = some read ∧ ClientOk limits read := by
  unfold validateClient readClient
  simp only [check_bind_eq_ok_iff, require_eq_ok_iff, checkKeys_iff, validateNamesOf_iff, toBool_iff,
    validateName_iff, validateOptionalName_iff, validateAttributes_iff, List.forall_mem_cons,
    List.not_mem_nil, false_implies, implies_true, and_true, decide_eq_true_eq]
  constructor
  · rintro ⟨⟨hobject, hkeys, ⟨⟨instanceId, hinstance, hinstanceOk⟩, sessionId, hsession, hsessionOk⟩,
      ⟨role, hrole, hroleOk⟩, hstar, ⟨⟨appVersion, happ, happOk⟩, ⟨environment, henv, henvOk⟩,
      platform, hplatform, hplatformOk⟩, os, hos, hosOk⟩, attributes, hattributes, hattributesOk⟩
    have hstarRole : role ≠ "*" := by
      intro h
      cases hget : client.get? "role" with
      | none => simp [hget, text?] at hrole
      | some value =>
          rw [hget] at hrole hstar
          rw [text?_eq hrole, h] at hstar
          exact hstar rfl
    refine ⟨⟨instanceId, sessionId, role, appVersion, environment, platform, os, attributes⟩, ?_,
      ⟨hinstanceOk, hsessionOk, hroleOk, hstarRole, happOk, henvOk, hplatformOk, hosOk,
        hattributesOk⟩⟩
    simp [hobject, hkeys, hinstance, hsession, hrole, happ, henv, hplatform, hos, hattributes]
  · rintro ⟨read, hread, hok⟩
    split_ifs at hread with hshape
    simp only [Option.bind_eq_bind, Option.bind_eq_some_iff, Option.pure_def,
      Option.some.injEq] at hread
    obtain ⟨instanceId, hinstance, sessionId, hsession, role, hrole, appVersion, happ, environment,
      henv, platform, hplatform, os, hos, attributes, hattributes, rfl⟩ := hread
    rw [Bool.and_eq_true] at hshape
    refine ⟨⟨hshape.1, hshape.2, ⟨⟨instanceId, hinstance, hok.instanceId⟩, sessionId, hsession,
      hok.sessionId⟩, ⟨role, hrole, hok.role⟩, ?_, ⟨⟨appVersion, happ, hok.appVersion⟩,
      ⟨environment, henv, hok.environment⟩, platform, hplatform, hok.platform⟩, os, hos, hok.os⟩,
      attributes, hattributes, hok.attributes⟩
    intro hstar
    rw [hstar] at hrole
    exact hok.role_ne (Option.some.inj hrole).symm

theorem validateContext_iff (context : Option Json) :
    (context.isNone || (text? context).any ExperimentLedger.isHash) = true ↔
      ∃ held, readOptionalText context = some held ∧
        ∀ context ∈ held, ExperimentLedger.isHash context = true := by
  unfold readOptionalText
  cases context with
  | none => simp
  | some value =>
      rw [Option.isNone_some, Bool.false_or, Option.any_eq_true]
      simp only [Option.map_eq_some_iff]
      constructor
      · rintro ⟨text, htext, hhash⟩
        refine ⟨_, ⟨text, htext, rfl⟩, fun other hother => ?_⟩
        rw [← Option.mem_some.mp hother]
        exact hhash
      · rintro ⟨_, ⟨text, htext, rfl⟩, hhash⟩
        exact ⟨text, htext, hhash text rfl⟩

theorem protocol_iff (protocol : Option Json) :
    protocol = some (.num 1) ↔ natural? protocol = some 1 := by
  rw [natural?_eq_some_iff]
  cases protocol with
  | none => simp [number?]
  | some value => cases value <;> simp [number?]

/-- The validator passes exactly the bodies that are read as envelopes within the
bounds. -/
theorem validateEnvelope_iff (js : Js) (limits : WireLimits) (range : TimeRange) (body : Json) :
    validateEnvelope js limits range body = .ok () ↔
      ∃ envelope, readEnvelope body = some envelope ∧ EnvelopeOk js limits range envelope := by
  have hversion := integerFrom_iff 0 (body.get? "configVersion")
  rw [Nat.cast_zero] at hversion
  unfold validateEnvelope readEnvelope readSdk
  generalize hclient : (body.get? "client").getD .null = client
  generalize (body.get? "sdk").getD .null = sdk
  have hclients := @validateClient_iff limits client
  simp only [check_bind_eq_ok_iff, require_eq_ok_iff, checkKeys_iff, decide_eq_true_eq,
    protocol_iff, validateName_iff, validateNamesOf_iff, hversion, validateContext_iff,
    List.forall_mem_cons, List.not_mem_nil, false_implies, implies_true, and_true]
  constructor
  · rintro ⟨hobject, hkeys, hprotocol, ⟨project, hproject, hprojectOk⟩, hsdk, hsdkKeys,
      ⟨⟨name, hname, hnameOk⟩, version, hsdkVersion, hsdkVersionOk⟩, hclientOk, ⟨configVersion,
      hconfigVersion, _⟩, ⟨context, hcontext, hcontextOk⟩, hattributes, hframes⟩
    obtain ⟨read, hread, hreadOk⟩ := hclients.mp ⟨hclientOk, hattributes⟩
    cases hbody : body.get? "frames" with
    | none => simp [hbody] at hframes
    | some value =>
        cases value with
        | arr frames =>
            simp only [hbody, check_bind_eq_ok_iff, require_eq_ok_iff, decide_eq_true_eq] at hframes
            obtain ⟨hlength, hframes⟩ := hframes
            obtain ⟨held, hheld, hheldOk, hitems⟩ :=
              (validateFrames_iff frames 0 0 (Nat.zero_le _)).mp hframes
            refine ⟨⟨1, project, ⟨name, version⟩, read, configVersion, context, held⟩, ?_,
              ⟨rfl, hprojectOk, hnameOk, hsdkVersionOk, hreadOk, hcontextOk, ?_, ?_, hheldOk⟩⟩
            · simp [hobject, hkeys, hprotocol, hproject, hsdk, hsdkKeys, hname, hsdkVersion, hread,
                hconfigVersion, hcontext, readRows, hheld]
            · rw [length_mapM hheld]
              exact hlength
            · rwa [zero_add] at hitems
        | _ => simp [hbody] at hframes
  · rintro ⟨envelope, hread, hok⟩
    split_ifs at hread with hshape hsdkShape
    · simp only [Option.bind_eq_bind, Option.bind_eq_some_iff, Option.pure_def,
        Option.some.injEq] at hread
      obtain ⟨protocol, hprotocol, project, hproject, _, ⟨name, hname, version, hsdkVersion, rfl⟩,
        read, hreadClient, configVersion, hconfigVersion, context, hcontext, frames, hframes, rfl⟩ :=
        hread
      rw [Bool.and_eq_true] at hshape hsdkShape
      obtain ⟨hclientOk, hattributes⟩ := hclients.mpr ⟨read, hreadClient, hok.client⟩
      have hone : protocol = 1 := hok.protocol
      rw [hone] at hprotocol
      refine ⟨hshape.1, hshape.2, hprotocol, ⟨project, hproject, hok.project⟩, hsdkShape.1,
        hsdkShape.2, ⟨⟨name, hname, hok.sdkName⟩, version, hsdkVersion, hok.sdkVersion⟩, hclientOk,
        ⟨configVersion, hconfigVersion, Nat.zero_le _⟩, ⟨context, hcontext, hok.configContext⟩,
        hattributes, ?_⟩
      cases hbody : body.get? "frames" with
      | none => simp [hbody, readRows] at hframes
      | some value =>
          cases value with
          | arr held =>
              rw [hbody] at hframes
              have hlength : held.length = frames.length := (length_mapM hframes).symm
              simp only [check_bind_eq_ok_iff, require_eq_ok_iff, decide_eq_true_eq]
              refine ⟨?_, (validateFrames_iff held 0 0 (Nat.zero_le _)).mpr
                ⟨frames, hframes, hok.frame, ?_⟩⟩
              · rw [hlength]
                exact hok.frames
              · rw [zero_add]
                exact hok.items
          | _ => simp [hbody, readRows] at hframes
    · simp at hread

end

end Wardx.ValidateEnvelope
