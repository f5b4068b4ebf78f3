import Mathlib.Data.List.Sort
import Wardx.Aggregation.SketchText
import Wardx.Lib.Check
import Wardx.Lib.Run
import Wardx.Lib.Table

/-!
# Metrics in the SDK

An application asks the registry for a counter, a gauge, a histogram or a
distinct by name and dimensions and records through the handle it gets. A series
that is not admitted has a handle that does nothing. A snapshot takes the rows of
the series touched since the last one.

Dimensions and attributes are whatever values the application passes. Sums are
sums of doubles: `nearest` rounds, and from the overflow threshold on a sum is
infinite. Counts are below the range in which doubles skip integers.
-/
namespace Wardx.MetricsRegistry

open Lib HyperLogLog

/-! ## Numbers -/

inductive JsNumber
  | finite (q : ℚ)
  | infinite (negative : Bool)
  | nan
deriving DecidableEq, Repr

namespace JsNumber

/-- The least magnitude that rounds to infinity. -/
def overflow : ℚ := 2 ^ 1024 - 2 ^ 970

def rounded (nearest : ℚ → ℚ) (q : ℚ) : JsNumber :=
  if |q| < overflow then .finite (nearest q) else .infinite (decide (q < 0))

def add (nearest : ℚ → ℚ) : JsNumber → JsNumber → JsNumber
  | .finite a, .finite b => rounded nearest (a + b)
  | .finite _, .infinite n => .infinite n
  | .infinite n, .finite _ => .infinite n
  | .infinite n, .infinite m => if n = m then .infinite n else .nan
  | _, _ => .nan

/-- `a < b`. -/
def lt : JsNumber → JsNumber → Bool
  | .finite a, .finite b => decide (a < b)
  | .finite _, .infinite n => !n
  | .infinite n, .finite _ => n
  | .infinite n, .infinite m => n && !m
  | _, _ => false

/-- `a >= b`. -/
def ge : JsNumber → JsNumber → Bool
  | .nan, _ => false
  | _, .nan => false
  | a, b => !lt a b

def isFinite : JsNumber → Bool
  | .finite _ => true
  | _ => false

/-- `String(value)`. -/
def text (js : Js) : JsNumber → String
  | .finite q => js.numberText q
  | .infinite false => "Infinity"
  | .infinite true => "-Infinity"
  | .nan => "NaN"

/-- What the number is after `JSON.stringify` and `JSON.parse`. -/
def json : JsNumber → Json
  | .finite q => .num q
  | _ => .null

end JsNumber

/-! ## Values -/

/-- A value of the application; texts are spread by characters. -/
inductive JsValue
  | undefined
  | null
  | bool (value : Bool)
  | num (value : JsNumber)
  | str (value : String)
  | arr (items : List JsValue)
  | obj (fields : List (String × JsValue))
deriving Repr

namespace JsValue

mutual
/-- `String(value)`. -/
def text (js : Js) : JsValue → String
  | .undefined => "undefined"
  | .null => "null"
  | .bool b => if b then "true" else "false"
  | .num n => n.text js
  | .str s => s
  | .arr items => itemsText js items
  | .obj _ => "[object Object]"

def itemsText (js : Js) : List JsValue → String
  | [] => ""
  | [item] => itemText js item
  | item :: items => itemText js item ++ "," ++ itemsText js items

/-- A missing item of an array is printed as nothing. -/
def itemText (js : Js) : JsValue → String
  | .undefined => ""
  | .null => ""
  | .bool b => if b then "true" else "false"
  | .num n => n.text js
  | .str s => s
  | .arr items => itemsText js items
  | .obj _ => "[object Object]"
end

/-- `value == null`. -/
def isNullish : JsValue → Bool
  | .undefined => true
  | .null => true
  | _ => false

/-- The own property of a name. -/
def get? : JsValue → String → Option JsValue
  | .obj fields, key => fields.lookup key
  | _, _ => none

/-- The own properties that `{ ...value }` copies. -/
def spread : JsValue → List (String × JsValue)
  | .obj fields => fields
  | .arr items => items.zipIdx.map fun item => (toString item.2, item.1)
  | .str s => s.toList.zipIdx.map fun c => (toString c.2, .str (String.singleton c.1))
  | _ => []

/-- `target[key] = value`, at the place the runtime enumerates the key. -/
def putField (key : String) (value : JsValue) : List (String × JsValue) → List (String × JsValue)
  | [] => [(key, value)]
  | (k, v) :: fields =>
      if k = key then (k, value) :: fields
      else if Json.enumeratedBefore key k then (key, value) :: (k, v) :: fields
      else (k, v) :: putField key value fields

/-- `{ ...fields, ...extra }`. -/
def assign (fields extra : List (String × JsValue)) : List (String × JsValue) :=
  extra.foldl (fun fields field => putField field.1 field.2 fields) fields

end JsValue

/-! ## Dimensions -/

/-- A dimension's value. -/
inductive DimensionValue
  | str (value : String)
  | num (value : JsNumber)
  | bool (value : Bool)
deriving DecidableEq, Repr

def DimensionValue.json : DimensionValue → Json
  | .str s => .str s
  | .num n => n.json
  | .bool b => .bool b

/-- A value of an allowed type. -/
def dimensionValue? : JsValue → Option DimensionValue
  | .str s => some (.str s)
  | .num n => some (.num n)
  | .bool b => some (.bool b)
  | _ => none

abbrev Dims := List (String × DimensionValue)

/-- A row's dimensions. -/
def dimsJson : Option Dims → Json
  | none => .null
  | some dims => .obj (dims.map fun dim => (dim.1, dim.2.json))

/-- The limits of the settings. -/
structure RegistryLimits where
  maxSeriesPerMetric : ℕ
  maxDimensionKeys : ℕ
  maxDimensionValueLength : ℕ

inductive Checked
  | ok (dims : Option Dims)
  | refused (reason : String)
deriving DecidableEq, Repr

section
variable (js : Js) (limits : RegistryLimits)

/-- The loop over the keys; none is a value that is too long. -/
def checkValues : List (String × JsValue) → Except String (Option Dims)
  | [] => .ok (some [])
  | (key, value) :: fields =>
      match dimensionValue? value with
      | none => .error ("dimension " ++ key ++ " must be string, number, or boolean")
      | some dim =>
          if limits.maxDimensionValueLength < utf16Length (value.text js) then .ok none
          else do
            let rest ← checkValues fields
            pure (rest.map ((key, dim) :: ·))

def validateDimensions (dims : JsValue) : Except String Checked :=
  match dims with
  | .undefined => .ok (.ok none)
  | .null => .ok (.ok none)
  | .obj [] => .ok (.ok none)
  | .obj fields =>
      if limits.maxDimensionKeys < fields.length then .ok (.refused "maxDimensionKeys")
      else do
        match ← checkValues js limits fields with
        | none => pure (.refused "maxDimensionValueLength")
        | some dims => pure (.ok (some dims))
  | _ => .error "dimensions must be a plain object"

/-- The text that tells the series of a name apart. -/
def dimKey (dims : JsValue) : String :=
  match dims with
  | .obj fields => "\n".intercalate ((fields.insertionSort fun a b => utf16Le a.1 b.1).map
      fun field => field.1 ++ "=" ++ field.2.text js)
  | _ => ""

end

/-! ## Series -/

structure Counter where
  name : String
  dims : Option Dims
  value : JsNumber
deriving DecidableEq, Repr

structure Gauge where
  name : String
  dims : Option Dims
  value : ℚ
  timestamp : ℚ
  dirty : Bool
deriving DecidableEq, Repr

structure SdkExemplar where
  value : JsNumber
  attrs : Dims
deriving DecidableEq, Repr

structure Histogram where
  name : String
  dims : Option Dims
  bounds : List ℚ
  counts : List ℕ
  count : ℕ
  sum : JsNumber
  min : JsNumber
  max : JsNumber
  exemplar : Option SdkExemplar
deriving DecidableEq, Repr

structure Distinct where
  name : String
  dims : Option Dims
  registers : Registers
  dirty : Bool
deriving DecidableEq, Repr

def Counter.new (name : String) (dims : Option Dims) : Counter := ⟨name, dims, .finite 0⟩

def Counter.add (nearest : ℚ → ℚ) (n : JsNumber) (counter : Counter) : Except String Counter :=
  if n.isFinite then .ok { counter with value := counter.value.add nearest n }
  else .error "counter.add requires a finite number"

def Counter.row (counter : Counter) : Json :=
  .arr [.str counter.name, dimsJson counter.dims, counter.value.json]

def Gauge.new (name : String) (dims : Option Dims) : Gauge := ⟨name, dims, 0, 0, false⟩

/-- `set`, with the time on the clock. -/
def Gauge.set (value : JsNumber) (now : ℚ) (gauge : Gauge) : Except String Gauge :=
  match value with
  | .finite q => .ok { gauge with value := q, timestamp := now, dirty := true }
  | _ => .error "gauge.set requires a finite number"

def Gauge.row (gauge : Gauge) : Json :=
  .arr [.str gauge.name, dimsJson gauge.dims, .num gauge.value, .num gauge.timestamp]

def Histogram.new (bounds : List ℚ) (name : String) (dims : Option Dims) : Histogram where
  name := name
  dims := dims
  bounds := bounds
  counts := List.replicate bounds.length 0
  count := 0
  sum := .finite 0
  min := .infinite false
  max := .infinite true
  exemplar := none

/-- The loop of `observe` over the bounds. -/
def bump (value : JsNumber) : List ℚ → List ℕ → List ℕ
  | bound :: bounds, count :: counts =>
      if value.lt (.finite bound) || value = .finite bound then (count + 1) :: counts
      else count :: bump value bounds counts
  | _, counts => counts

/-- `_exemplarFrom`; the settings' limits are integers. -/
def exemplarFrom (js : Js) (limits : RegistryLimits) (value : JsNumber) (attrs : JsValue) :
    Except String (Option SdkExemplar) :=
  if attrs.isNullish then .ok none
  else do
    match ← validateDimensions js limits attrs with
    | .ok (some dims) => pure (some ⟨value, dims⟩)
    | _ => pure none

/-- The exemplar after a value: a new one with a new maximum. -/
def Histogram.exemplarAfter (js : Js) (limits : RegistryLimits) (value : JsNumber)
    (attrs : JsValue) (histogram : Histogram) : Except String (Option SdkExemplar) :=
  if value.ge histogram.max then exemplarFrom js limits value attrs else .ok histogram.exemplar

def Histogram.observe (js : Js) (nearest : ℚ → ℚ) (limits : RegistryLimits) (value : JsNumber)
    (attrs : JsValue) (histogram : Histogram) : Except String Histogram :=
  if value.isFinite then do
    let exemplar ← histogram.exemplarAfter js limits value attrs
    pure { histogram with
      count := histogram.count + 1
      sum := histogram.sum.add nearest value
      min := if value.lt histogram.min then value else histogram.min
      max := if value.ge histogram.max then value else histogram.max
      exemplar := exemplar
      counts := bump value histogram.bounds histogram.counts }
  else .error "histogram.observe requires a finite number"

/-- What an `observe` leaves that throws at its attributes. They are read when the
value is the maximum already and before it is put into a bucket. -/
def Histogram.abandoned (nearest : ℚ → ℚ) (value : JsNumber) (histogram : Histogram) : Histogram :=
  { histogram with
    count := histogram.count + 1
    sum := histogram.sum.add nearest value
    min := if value.lt histogram.min then value else histogram.min
    max := value }

def SdkExemplar.json (exemplar : SdkExemplar) : Json :=
  .obj [("value", exemplar.value.json), ("attrs", dimsJson (some exemplar.attrs))]

/-- `snapshot`. -/
def Histogram.body (histogram : Histogram) : Json :=
  .obj ([("count", .num histogram.count), ("sum", histogram.sum.json), ("min", histogram.min.json),
    ("max", histogram.max.json),
    ("buckets", .arr (List.zipWith (fun bound (count : ℕ) => .arr [.num bound, .num count])
      histogram.bounds histogram.counts))] ++
    histogram.exemplar.toList.map fun exemplar => ("exemplar", exemplar.json))

def Histogram.row (histogram : Histogram) : Json :=
  .arr [.str histogram.name, dimsJson histogram.dims, histogram.body]

/-- `reset`. -/
def Histogram.reset (histogram : Histogram) : Histogram :=
  { Histogram.new histogram.bounds histogram.name histogram.dims with
    counts := List.replicate histogram.counts.length 0 }

/-- `Math.clz32`. -/
def clz32 (n : ℕ) : ℕ := 32 - Nat.size n

/-- The rank of a digest: the place of the first one behind the nine index bits. -/
def rankAfterIndex (digest : Fin (2 ^ 64)) : ℕ :=
  let remainingHigh := digest.val / 2 ^ 32 * 2 ^ 9 % 2 ^ 32
  if remainingHigh ≠ 0 then clz32 remainingHigh + 1
  else 32 - 9 + clz32 (digest.val % 2 ^ 32) + 1

theorem rankAfterIndex_le (digest : Fin (2 ^ 64)) : rankAfterIndex digest ≤ maxRank := by
  unfold rankAfterIndex clz32 maxRank
  dsimp only
  split_ifs with h
  · omega
  · omega

/-- The registers with one rank raised. -/
def raise (registers : Registers) (index rank : ℕ) (hrank : rank ≤ maxRank) : Registers where
  ranks := registers.ranks.modify index (max rank)
  length_eq := by rw [List.length_modify, registers.length_eq]
  ranks_le := by
    intro r hr
    obtain ⟨i, hi, rfl⟩ := List.mem_iff_getElem.mp hr
    rw [List.length_modify] at hi
    have hold := registers.ranks_le _ (List.getElem_mem hi)
    rw [List.getElem_modify]
    split_ifs
    · exact max_le hrank hold
    · exact hold

def Distinct.new (name : String) (dims : Option Dims) : Distinct :=
  ⟨name, dims, Registers.empty, false⟩

/-- `add`, given the digest of the salted identifier. -/
def Distinct.add (h64 : String → Fin (2 ^ 64)) (privacySalt identifier : String)
    (distinct : Distinct) : Except String Distinct :=
  if identifier = "" then .error "distinct.add requires a non-empty string"
  else
    let digest := h64 (privacySalt ++ "\x00" ++ identifier)
    .ok { distinct with
      registers := raise distinct.registers (digest.val / 2 ^ 55) (rankAfterIndex digest)
        (rankAfterIndex_le digest)
      dirty := true }

def Distinct.row (distinct : Distinct) : Json :=
  .arr [.str distinct.name, dimsJson distinct.dims, distinct.registers.body]

/-- `reset`. -/
def Distinct.reset (distinct : Distinct) : Distinct :=
  { distinct with registers := Registers.empty, dirty := false }

/-! ## The registry -/

/-- The series of a kind, by name and key. -/
abbrev SeriesMap (S : Type) := Table String (Table String S)

/-- The name and the key of a series. -/
abbrev Handle := String × String

/-- What a request for a series comes to; without a handle it gets a no-op. -/
structure Lookup (S : Type) where
  handle : Option Handle
  map : SeriesMap S
  rejected : List String
  dropped : ℕ

section
variable {S : Type} (js : Js) (limits : RegistryLimits)

/-- The part of `_series` behind the check of the dimensions. -/
def register (kindPrefix name key : String) (make : Option Dims → S) (checked : Checked)
    (map : SeriesMap S) (rejected : List String) : Lookup S :=
  let rejectKey := kindPrefix ++ "\x00" ++ name ++ "\x00" ++ key
  if rejectKey ∈ rejected then ⟨none, map, rejected, 0⟩
  else
    match checked with
    | .refused _ => ⟨none, map, rejected ++ [rejectKey], 1⟩
    | .ok dims =>
        let byKey := (map.get name).getD Table.empty
        match byKey.get key with
        | some _ => ⟨some (name, key), map, rejected, 0⟩
        | none =>
            if limits.maxSeriesPerMetric ≤ byKey.size then
              ⟨none, map.put name byKey, rejected ++ [rejectKey], 1⟩
            else ⟨some (name, key), map.put name (byKey.put key (make dims)), rejected, 0⟩

/-- `_series`. The dimensions checked have the key of the ones passed. -/
def series (kindPrefix : String) (make : Option Dims → S) (name : String) (dims : JsValue)
    (map : SeriesMap S) (rejected : List String) : Except String (Lookup S) := do
  require (name ≠ "") "metric name must be a non-empty string"
  let checked ← validateDimensions js limits dims
  pure (register limits kindPrefix name (dimKey js dims) make checked map rejected)

/-- Record through a handle; one without a series does nothing. -/
def record (handle : Handle) (f : S → Except String S) (map : SeriesMap S) :
    Except String (SeriesMap S) :=
  match map.get handle.1 with
  | none => .ok map
  | some byKey =>
      match byKey.get handle.2 with
      | none => .ok map
      | some found => do
          let next ← f found
          pure (map.put handle.1 (byKey.put handle.2 next))

/-- The series of a handle changed in place. -/
def alter (handle : Handle) (f : S → S) (map : SeriesMap S) : SeriesMap S :=
  match map.get handle.1 with
  | none => map
  | some byKey =>
      match byKey.get handle.2 with
      | none => map
      | some found => map.put handle.1 (byKey.put handle.2 (f found))

end

/-- The loop over the bounds. -/
def increasingBounds : Option ℚ → List JsValue → Except String (List ℚ)
  | _, [] => .ok []
  | previous, .num (.finite bound) :: bounds =>
      if previous.all fun before => decide (before < bound) then do
        let rest ← increasingBounds (some bound) bounds
        pure (bound :: rest)
      else .error "histogram buckets must be strictly increasing finite numbers"
  | _, _ => .error "histogram buckets must be strictly increasing finite numbers"

def checkBuckets (buckets : JsValue) : Except String (List ℚ) :=
  match buckets with
  | .arr (bound :: bounds) => increasingBounds none (bound :: bounds)
  | _ => .error "histogram buckets must be a non-empty array"

/-- The buckets and the dimensions that the arguments of `histogram` name. -/
def histogramArgs (a b : JsValue) (defaultBuckets : JsValue) : JsValue × JsValue :=
  if a.isNullish then (defaultBuckets, .null)
  else
    match a.get? "buckets" with
    | some buckets =>
        let rest := a.spread.filter fun field => field.1 ≠ "buckets"
        if b.isNullish then (buckets, if rest.isEmpty then .null else .obj rest)
        else (buckets, if rest.isEmpty then b else .obj (JsValue.assign rest b.spread))
    | none => ((b.get? "buckets").getD defaultBuckets, a)

structure Registry where
  counters : SeriesMap Counter
  gauges : SeriesMap Gauge
  histograms : SeriesMap Histogram
  distincts : SeriesMap Distinct
  rejected : List String
  /-- How often `onCardinalityDropped` was called. -/
  dropped : ℕ
deriving DecidableEq

def Registry.initial : Registry :=
  ⟨Table.empty, Table.empty, Table.empty, Table.empty, [], 0⟩

/-- The settings of the registry and what the runtime and the hash package give. -/
structure Sdk where
  js : Js
  nearest : ℚ → ℚ
  h64 : String → Fin (2 ^ 64)
  limits : RegistryLimits
  defaultHistogramBuckets : JsValue
  privacySalt : String

/-- What an application calls: a request for a handle, a recording through one,
or the snapshot of the rows. -/
inductive Call
  | counter (name : String) (dims : JsValue)
  | gauge (name : String) (dims : JsValue)
  | histogram (name : String) (a b : JsValue)
  | distinct (name : String) (dims : JsValue)
  | add (handle : Handle) (n : JsNumber)
  | set (handle : Handle) (value : JsNumber) (now : ℚ)
  | observe (handle : Handle) (value : JsNumber) (attrs : JsValue)
  | identify (handle : Handle) (identifier : String)
  | snapshot

/-- The series of a map, in the order of the snapshot. -/
def seriesOf {S : Type} (map : SeriesMap S) : List S := map.values.flatMap Table.values

/-- The rows of the live series. -/
def rowsOf {S : Type} (live : S → Bool) (row : S → Json) (map : SeriesMap S) : List Json :=
  ((seriesOf map).filter live).map row

def resetLive {S : Type} (live : S → Bool) (reset : S → S) (map : SeriesMap S) : SeriesMap S :=
  map.mapValues fun _ byKey =>
    byKey.mapValues fun _ found => if live found then reset found else found

/-- A counter that counted something. -/
def Counter.live (counter : Counter) : Bool := counter.value ≠ .finite 0

def Histogram.live (histogram : Histogram) : Bool := 0 < histogram.count

structure Snapshot where
  counters : List Json
  gauges : List Json
  histograms : List Json
  distincts : List Json
deriving DecidableEq

/-- The rows of `snapshotAndReset`. -/
def Registry.snapshot (registry : Registry) : Snapshot where
  counters := rowsOf Counter.live Counter.row registry.counters
  gauges := rowsOf Gauge.dirty Gauge.row registry.gauges
  histograms := rowsOf Histogram.live Histogram.row registry.histograms
  distincts := rowsOf Distinct.dirty Distinct.row registry.distincts

/-- The registry after `snapshotAndReset`. -/
def Registry.reset (registry : Registry) : Registry where
  counters := resetLive Counter.live (fun counter => { counter with value := .finite 0 })
    registry.counters
  gauges := resetLive Gauge.dirty (fun gauge => { gauge with dirty := false }) registry.gauges
  histograms := resetLive Histogram.live Histogram.reset registry.histograms
  distincts := resetLive Distinct.dirty Distinct.reset registry.distincts
  rejected := registry.rejected
  dropped := registry.dropped

section
variable (sdk : Sdk) (registry : Registry)

/-- `histogram`: an existing series keeps its bounds. -/
def histogram (name : String) (a b : JsValue) : Except String (Lookup Histogram) := do
  let args := histogramArgs a b sdk.defaultHistogramBuckets
  let bounds ← checkBuckets args.1
  let found ← series sdk.js sdk.limits "h" (Histogram.new bounds name) name args.2
    registry.histograms registry.rejected
  let held := found.handle.bind fun handle =>
    (found.map.get handle.1).bind fun byKey => byKey.get handle.2
  require (held.all fun held => decide (held.bounds = bounds))
    ("histogram " ++ name ++ " buckets cannot change for an existing series")
  pure found

def call : Call → Except String Registry
  | .counter name dims => do
      let found ← series sdk.js sdk.limits "c" (Counter.new name) name dims registry.counters
        registry.rejected
      pure { registry with
        counters := found.map, rejected := found.rejected
        dropped := registry.dropped + found.dropped }
  | .gauge name dims => do
      let found ← series sdk.js sdk.limits "g" (Gauge.new name) name dims registry.gauges
        registry.rejected
      pure { registry with
        gauges := found.map, rejected := found.rejected
        dropped := registry.dropped + found.dropped }
  | .histogram name a b => do
      let found ← histogram sdk registry name a b
      pure { registry with
        histograms := found.map, rejected := found.rejected
        dropped := registry.dropped + found.dropped }
  | .distinct name dims => do
      let found ← series sdk.js sdk.limits "d" (Distinct.new name) name dims registry.distincts
        registry.rejected
      pure { registry with
        distincts := found.map, rejected := found.rejected
        dropped := registry.dropped + found.dropped }
  | .add handle n => do
      let counters ← record handle (Counter.add sdk.nearest n) registry.counters
      pure { registry with counters := counters }
  | .set handle value now => do
      let gauges ← record handle (Gauge.set value now) registry.gauges
      pure { registry with gauges := gauges }
  | .observe handle value attrs => do
      let histograms ← record handle (Histogram.observe sdk.js sdk.nearest sdk.limits value attrs)
        registry.histograms
      pure { registry with histograms := histograms }
  | .identify handle identifier => do
      let distincts ← record handle (Distinct.add sdk.h64 sdk.privacySalt identifier)
        registry.distincts
      pure { registry with distincts := distincts }
  | .snapshot => .ok registry.reset

end

/-- The registry after a call that throws: only `observe` throws behind a write. -/
def abandoned (sdk : Sdk) (registry : Registry) : Call → Registry
  | .observe handle value _ =>
      if value.isFinite then
        { registry with
          histograms := alter handle (Histogram.abandoned sdk.nearest value) registry.histograms }
      else registry
  | _ => registry

/-- The registry after a call. -/
def afterCall (sdk : Sdk) (made : Call) (registry : Registry) : Registry :=
  match call sdk registry made with
  | .ok next => next
  | .error _ => abandoned sdk registry made

end Wardx.MetricsRegistry
