import Mathlib.Order.WithBot
import Wardx.Aggregation.HistoryAccumulator
import Wardx.Control.ValidateExperiment

/-!
# The live aggregator

The minute windows in memory, with what `FrameAggregator.ingest` adds to them,
and the instances whose newest frame end bounds how far each role has delivered.
A series beyond the cap of its name is dropped and counted.

The clock is an argument; a call reads it once.
-/
namespace Wardx.FrameAggregator

open Lib Json Control HistoryBucket HyperLogLog

/-! ## Keys -/

/-- `String(value)`. -/
def scalarText (js : Js) : Scalar → String
  | .str s => s
  | .num q => js.numberText q
  | .bool b => if b then "true" else "false"

def dimKey (js : Js) : Dimensions → String
  | none => ""
  | some fields => String.join ((fields.insertionSort fun a b => utf16Le a.1 b.1).map
      fun field => field.1 ++ "=" ++ scalarText js field.2 ++ "\n")

def seriesKey (js : Js) (role name : String) (dims : Dimensions) : String :=
  role ++ "\x00" ++ name ++ "\x00" ++ dimKey js dims

def eventKey (role name : String) : String := role ++ "\x00" ++ name

def persistLogKey (role level name : String) : String := role ++ "\x00" ++ level ++ "\x00" ++ name

/-! ## Series -/

structure CounterSeries where
  name : String
  dims : Dimensions
  role : String
  value : ℚ
deriving DecidableEq, Repr

structure GaugeSeries where
  name : String
  dims : Dimensions
  role : String
  value : ℚ
  timestamp : ℚ
deriving DecidableEq, Repr

/-- The body of a window's histogram. -/
structure Body where
  count : ℕ
  sum : ℚ
  min : ℚ
  max : ℚ
  buckets : List (ℚ × ℕ)
  exemplar : Option Exemplar
deriving DecidableEq, Repr

structure HistogramSeries where
  name : String
  dims : Dimensions
  role : String
  body : Body
deriving DecidableEq, Repr

structure DistinctSeries where
  name : String
  dims : Dimensions
  role : String
  body : Registers
deriving DecidableEq, Repr

/-- The series of a kind, with the number admitted for each name. -/
structure SeriesMap (S : Type) where
  rows : Table String S
  byName : Table String ℕ
deriving DecidableEq, Repr

def SeriesMap.empty {S : Type} : SeriesMap S := ⟨Table.empty, Table.empty⟩

/-- `admitSeries`; none is the series beyond the cap. -/
def SeriesMap.admitSeries {S : Type} (map : SeriesMap S) (capKey key : String) (most : ℕ) :
    Option (SeriesMap S) :=
  if (map.rows.get key).isSome then some map
  else
    let n := (map.byName.get capKey).getD 0
    if most ≤ n then none else some { map with byName := map.byName.put capKey (n + 1) }

/-- One row of a frame: the series after it and the drops it adds. -/
def SeriesMap.ingestRow {S : Type} (map : SeriesMap S) (capKey key : String) (most : ℕ)
    (change : Option S → S) : SeriesMap S × ℕ :=
  match map.admitSeries capKey key most with
  | none => (map, 1)
  | some admitted =>
      ({ admitted with rows := admitted.rows.put key (change (admitted.rows.get key)) }, 0)

/-- The rows of one kind in a frame. -/
def ingestRows {R S : Type} (capKey key : R → String) (most : ℕ) (change : R → Option S → S)
    (map : SeriesMap S) (rows : List R) : SeriesMap S × ℕ :=
  rows.foldl (fun result row =>
    let next := result.1.ingestRow (capKey row) (key row) most (change row)
    (next.1, result.2 + next.2)) (map, 0)

section
variable (role : String)

def ingestCounter (row : CounterRow) (previous : Option CounterSeries) : CounterSeries where
  name := row.name
  dims := row.dimensions
  role := role
  value := ((previous.map CounterSeries.value).getD 0) + row.value

/-- A sample as old as the one held replaces it. -/
def ingestGauge (row : GaugeRow) (previous : Option GaugeSeries) : GaugeSeries :=
  let fresh : GaugeSeries := ⟨row.name, row.dimensions, role, row.value, row.timestamp⟩
  match previous with
  | none => fresh
  | some held => if held.timestamp ≤ row.timestamp then fresh else held

/-- `byBound.set(bound, (byBound.get(bound) || 0) + count)`. -/
def addBucket (buckets : List (ℚ × ℕ)) (pair : ℚ × ℕ) : List (ℚ × ℕ) :=
  if buckets.any fun held => decide (held.1 = pair.1) then
    buckets.map fun held => if held.1 = pair.1 then (held.1, held.2 + pair.2) else held
  else buckets ++ [pair]

/-- The exemplar after a merge: a new maximum brings its own or none. -/
def exemplarAfter (existing : Body) (incoming : HistogramRow) : Option Exemplar :=
  if existing.max < incoming.max then incoming.exemplar
  else if incoming.max = existing.max then incoming.exemplar.or existing.exemplar
  else existing.exemplar

/-- `mergeHistogram`. -/
def mergeHistogram (existing : Option Body) (incoming : HistogramRow) : Body :=
  match existing with
  | none => ⟨incoming.count, incoming.sum, incoming.min, incoming.max, incoming.buckets,
      incoming.exemplar⟩
  | some existing =>
      { count := existing.count + incoming.count
        sum := existing.sum + incoming.sum
        min := if incoming.min < existing.min then incoming.min else existing.min
        max := if existing.max < incoming.max then incoming.max else existing.max
        exemplar := exemplarAfter existing incoming
        buckets := (incoming.buckets.foldl addBucket existing.buckets).insertionSort
          fun a b => a.1 ≤ b.1 }

def ingestHistogram (row : HistogramRow) (previous : Option HistogramSeries) : HistogramSeries where
  name := row.name
  dims := row.dimensions
  role := role
  body := mergeHistogram (previous.map HistogramSeries.body) row

def ingestDistinct (row : DistinctRow) (previous : Option DistinctSeries) : DistinctSeries where
  name := row.name
  dims := row.dimensions
  role := role
  body := match previous with
    | none => row.registers
    | some held => mergeHllBodies held.body row.registers

end

/-! ## Events and logs -/

structure EventName where
  name : String
  role : String
  count : ℕ
deriving DecidableEq, Repr

structure LogExemplar where
  ts : ℚ
  attrs : Json
  instanceId : String
deriving DecidableEq, Repr

structure LogName where
  name : String
  level : LogLevel
  role : String
  count : ℕ
  exemplar : Option LogExemplar
deriving DecidableEq, Repr

structure Slot where
  exposures : ℕ
  goals : ℕ
  goalSum : ℚ
  goalSumSq : ℚ
deriving DecidableEq, Repr

/-- The slots of experiments by their variants. -/
abbrev Slots := Table String (Table String Slot)

/-- `experimentSlot`, changed. -/
def changeSlot (slots : Slots) (experiment variant : String) (change : Slot → Slot) : Slots :=
  let byVariant := (slots.get experiment).getD Table.empty
  slots.put experiment
    (byVariant.put variant (change ((byVariant.get variant).getD ⟨0, 0, 0, 0⟩)))

def addGoal (value : ℚ) (slot : Slot) : Slot :=
  { slot with
    goals := slot.goals + 1
    goalSum := slot.goalSum + value
    goalSumSq := slot.goalSumSq + value * value }

/-- The experiment and variant two attributes name. -/
def namedVariant (attrs : Json) : Option (String × String) :=
  match text? (attrs.get? "experiment"), text? (attrs.get? "variant") with
  | some experiment, some variant => some (experiment, variant)
  | _, _ => none

/-- What an event does to the slots. -/
def slotChange (row : EventRow) : Option ((String × String) × (Slot → Slot)) :=
  if row.name = "experiment.exposure" then
    (namedVariant row.attrs).map fun named =>
      (named, fun slot => { slot with exposures := slot.exposures + 1 })
  else if row.name = "experiment.goal" then
    match items (row.attrs.get? "experiments") with
    | [item] => (namedVariant item).map fun named =>
        (named, addGoal ((number? (row.attrs.get? "value")).getD 1))
    | _ => none
  else none

def applySlotChange (slots : Slots) (row : EventRow) : Slots :=
  match slotChange row with
  | none => slots
  | some (named, change) => changeSlot slots named.1 named.2 change

def countEvent (role : String) (eventNames : Table String EventName) (row : EventRow) :
    Table String EventName :=
  let key := eventKey role row.name
  match eventNames.get key with
  | none => eventNames.put key ⟨row.name, role, 1⟩
  | some held => eventNames.put key { held with count := held.count + 1 }

/-- `allowedPersistLogs`. -/
def allowedPersistLogs (persistLogs : List String) : Option (List String) :=
  if persistLogs.isEmpty then none else some persistLogs

/-- `copyLogAttrs`. -/
def copyLogAttrs (attrs : Json) : Json := if attrs.isObject then attrs else .null

/-- `bumpPersistLog`: a sample as old as the one held replaces it. -/
def bumpPersistLog (role instanceId : String) (names : Table String LogName) (row : LogRow) :
    Table String LogName :=
  let key := persistLogKey role row.level.text row.message
  let copied : LogExemplar := ⟨row.timestamp, copyLogAttrs row.attrs, instanceId⟩
  match names.get key with
  | none => names.put key ⟨row.message, row.level, role, 1, some copied⟩
  | some held => names.put key { held with
      count := held.count + 1
      exemplar := if held.exemplar.all fun sample => decide (sample.ts ≤ copied.ts) then some copied
        else held.exemplar }

/-- The logs `ingestPersistLogs` does not skip. -/
def persistedLogs (instanceId : String) (persistLogs : List String) (logs : List LogRow) :
    List LogRow :=
  match allowedPersistLogs persistLogs with
  | none => []
  | some allowed => if instanceId = "" then []
      else logs.filter fun row => decide (row.message ≠ "" ∧ row.message ∈ allowed)

/-! ## Windows -/

structure RoleStats where
  frames : ℕ
  events : ℕ
  logs : ℕ
deriving DecidableEq, Repr

structure Window where
  windowFrom : ℤ
  windowTo : ℤ
  counters : SeriesMap CounterSeries
  gauges : SeriesMap GaugeSeries
  histograms : SeriesMap HistogramSeries
  distincts : SeriesMap DistinctSeries
  eventNames : Table String EventName
  logNames : Table String LogName
  experiments : Slots
  frames : ℕ
  events : ℕ
  logs : ℕ
  cardinalityDropped : ℕ
  roleStats : Table String RoleStats
deriving DecidableEq, Repr

/-- `minuteFloor`. -/
def minuteFloor (ts : ℚ) : ℤ := ⌊ts / 60000⌋ * 60000

def emptyWindow (minute : ℤ) : Window where
  windowFrom := minute
  windowTo := minute + 60000
  counters := SeriesMap.empty
  gauges := SeriesMap.empty
  histograms := SeriesMap.empty
  distincts := SeriesMap.empty
  eventNames := Table.empty
  logNames := Table.empty
  experiments := Table.empty
  frames := 0
  events := 0
  logs := 0
  cardinalityDropped := 0
  roleStats := Table.empty

def countFrame (frame : Frame) (stats : RoleStats) : RoleStats :=
  ⟨stats.frames + 1, stats.events + frame.events.length, stats.logs + frame.logs.length⟩

/-- The settings of the aggregator. -/
structure Limits where
  retentionMs : ℤ
  maxSeriesPerMetric : ℕ
  instanceTtlMs : ℤ

section
variable (js : Js) (limits : Limits) (role instanceId : String) (persistLogs : List String)

/-- What a frame does to its window. -/
def ingestFrame (window : Window) (frame : Frame) : Window :=
  let capKey := eventKey role
  let counters := ingestRows (fun row : CounterRow => capKey row.name)
    (fun row => seriesKey js role row.name row.dimensions) limits.maxSeriesPerMetric
    (ingestCounter role) window.counters frame.metrics.counters
  let gauges := ingestRows (fun row : GaugeRow => capKey row.name)
    (fun row => seriesKey js role row.name row.dimensions) limits.maxSeriesPerMetric
    (ingestGauge role) window.gauges frame.metrics.gauges
  let histograms := ingestRows (fun row : HistogramRow => capKey row.name)
    (fun row => seriesKey js role row.name row.dimensions) limits.maxSeriesPerMetric
    (ingestHistogram role) window.histograms frame.metrics.histograms
  let distincts := ingestRows (fun row : DistinctRow => capKey row.name)
    (fun row => seriesKey js role row.name row.dimensions) limits.maxSeriesPerMetric
    (ingestDistinct role) window.distincts (frame.metrics.distincts.getD [])
  { window with
    frames := window.frames + 1
    events := window.events + frame.events.length
    logs := window.logs + frame.logs.length
    roleStats := window.roleStats.put role
      (countFrame frame ((window.roleStats.get role).getD ⟨0, 0, 0⟩))
    eventNames := frame.events.foldl (countEvent role) window.eventNames
    experiments := frame.events.foldl applySlotChange window.experiments
    logNames := (persistedLogs instanceId persistLogs frame.logs).foldl
      (bumpPersistLog role instanceId) window.logNames
    counters := counters.1
    gauges := gauges.1
    histograms := histograms.1
    distincts := distincts.1
    cardinalityDropped :=
      window.cardinalityDropped + counters.2 + gauges.2 + histograms.2 + distincts.2 }

/-- A frame goes to the window of the minute it starts in. -/
def ingestInto (windows : Table ℤ Window) (frame : Frame) : Table ℤ Window :=
  let minute := minuteFloor frame.frameFrom
  windows.put minute (ingestFrame js limits role instanceId persistLogs
    ((windows.get minute).getD (emptyWindow minute)) frame)

end

/-! ## The aggregator -/

/-- The newest frame end of a sync instance, and when it last synced. -/
structure Instance where
  role : String
  dataThrough : WithBot ℚ
  lastSyncAt : ℚ
deriving DecidableEq

structure Aggregator where
  instances : Table String Instance
  windows : Table ℤ Window
  lifetime : Slots
  persistLogLifetime : Table String LogName

def Aggregator.init : Aggregator := ⟨Table.empty, Table.empty, Table.empty, Table.empty⟩

/-- `delete` and `set`: the entry becomes the newest. -/
def refresh (instances : Table String Instance) (instanceId : String) (latest : Instance) :
    Table String Instance :=
  (instances.erase instanceId).put instanceId latest

/-- The stale instances at the front. -/
def dropStale (staleBefore : ℚ) (instances : Table String Instance) : Table String Instance where
  entries := instances.entries.dropWhile fun entry => decide (entry.2.lastSyncAt < staleBefore)
  nodup := instances.nodup.sublist ((List.dropWhile_sublist _).map _)

/-- `_prune`. -/
def prune (limits : Limits) (now : ℚ) (aggregator : Aggregator) : Aggregator :=
  { aggregator with
    windows := aggregator.windows.filter fun minute _ => decide (now - limits.retentionMs ≤ minute)
    instances := dropStale (now - limits.instanceTtlMs) aggregator.instances }

/-- The newest frame end after the frames. -/
def newestEnd (held : WithBot ℚ) (frames : List Frame) : WithBot ℚ :=
  frames.foldl (fun through frame => max through (frame.frameTo : WithBot ℚ)) held

/-- What `ingest` answers. -/
structure Changed where
  experiments : Bool
  persistLogs : Bool
  windows : Bool
deriving DecidableEq, Repr

/-- The aggregator with an envelope's frames, before it prunes. -/
def addFrames (js : Js) (limits : Limits) (envelope : Envelope) (persistLogs : List String)
    (now : ℚ) (aggregator : Aggregator) : Aggregator :=
  let role := envelope.client.role
  let instanceId := envelope.client.instanceId
  let held := ((aggregator.instances.get instanceId).map Instance.dataThrough).getD ⊥
  let through := newestEnd held envelope.frames
  { instances := if envelope.frames.isEmpty then aggregator.instances
      else refresh aggregator.instances instanceId ⟨role, through, now⟩
    windows := envelope.frames.foldl (ingestInto js limits role instanceId persistLogs)
      aggregator.windows
    lifetime := envelope.frames.foldl (fun slots frame => frame.events.foldl applySlotChange slots)
      aggregator.lifetime
    persistLogLifetime := envelope.frames.foldl (fun names frame =>
      (persistedLogs instanceId persistLogs frame.logs).foldl (bumpPersistLog role instanceId) names)
      aggregator.persistLogLifetime }

def changed (envelope : Envelope) (persistLogs : List String) : Changed where
  experiments := envelope.frames.any fun frame => frame.events.any fun row => (slotChange row).isSome
  persistLogs := envelope.frames.any fun frame =>
    !(persistedLogs envelope.client.instanceId persistLogs frame.logs).isEmpty
  windows := !envelope.frames.isEmpty

/-- `ingest`. -/
def ingest (js : Js) (limits : Limits) (envelope : Envelope) (persistLogs : List String) (now : ℚ)
    (aggregator : Aggregator) : Except String (Changed × Aggregator) := do
  require (envelope.client.role ≠ "" && envelope.client.role ≠ "*")
    "client.role must be a non-empty string"
  pure (changed envelope persistLogs,
    prune limits now (addFrames js limits envelope persistLogs now aggregator))

/-! ## Completeness -/

/-- An instance that synced within the last while. -/
def live (limits : Limits) (now : ℚ) (synced : Instance) : Bool :=
  decide (now - limits.instanceTtlMs ≤ synced.lastSyncAt)

def settleInstance (settled : Table String (WithBot ℚ)) (synced : Instance) :
    Table String (WithBot ℚ) :=
  match settled.get synced.role with
  | none => settled.put synced.role synced.dataThrough
  | some previous =>
      if synced.dataThrough < previous then settled.put synced.role synced.dataThrough else settled

/-- `_settledThrough`: the oldest frame end of each role's live instances. -/
def settledThrough (limits : Limits) (now : ℚ) (aggregator : Aggregator) :
    Table String (WithBot ℚ) :=
  (aggregator.instances.values.filter (live limits now)).foldl settleInstance Table.empty

structure RoleReport where
  stats : RoleStats
  complete : Bool
deriving DecidableEq, Repr

/-- The window's end as a frame end. -/
def Window.endsAt (window : Window) : WithBot ℚ := ((window.windowTo : ℚ) : WithBot ℚ)

/-- The entries of a window's `roles`: of the roles with frames in it, and of
those that have not delivered it yet. -/
def roleReports (settled : Table String (WithBot ℚ)) (window : Window) : Table String RoleReport :=
  let own := window.roleStats.mapValues fun role stats =>
    ⟨stats, (settled.get role).all fun through => decide (window.endsAt ≤ through)⟩
  settled.entries.foldl (fun reports entry =>
    if (reports.get entry.1).isNone ∧ entry.2 < window.endsAt then
      reports.put entry.1 ⟨⟨0, 0, 0⟩, false⟩
    else reports) own

structure WindowReport where
  reportFrom : ℤ
  reportTo : ℤ
  complete : Bool
  roles : Table String RoleReport
deriving DecidableEq, Repr

/-- `snapshot`, its windows with their completeness. -/
def snapshot (limits : Limits) (role : Option String) (fromTime toTime : Option ℚ) (now : ℚ)
    (aggregator : Aggregator) : List WindowReport :=
  let settled := settledThrough limits now aggregator
  let shown := aggregator.windows.values.filter fun window =>
    (fromTime.all fun t => decide (t < window.windowTo)) &&
      (toTime.all fun t => decide ((window.windowFrom : ℚ) < t))
  (shown.map fun window =>
    let roles := roleReports settled window
    { reportFrom := window.windowFrom
      reportTo := window.windowTo
      complete := match role with
        | some role => ((roles.get role).map RoleReport.complete).getD true
        | none => roles.values.all RoleReport.complete
      roles := roles }).insertionSort fun a b => a.reportFrom ≤ b.reportFrom

end Wardx.FrameAggregator
