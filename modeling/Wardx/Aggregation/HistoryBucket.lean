import Mathlib.Data.List.Sort
import Mathlib.Order.Lex
import Wardx.Aggregation.HyperLogLog
import Wardx.Lib.KeyedMerge

/-!
# Historical rows and buckets

A historical row is a series (kind, client fields, name, level, dimensions)
with the aggregate of one bucket. Rows of one series merge: counts and sums
add, extremes widen, a gauge keeps its latest sample, a sketch takes the larger
ranks. Histograms merge only under equal bounds.

Arithmetic is exact. A sum of finite doubles can overflow to infinity in the
code; such a row is outside the model. Counts are naturals: a count of another
type is refused by every validator that reads it.

`seriesMerge` packages `mergeRow` as a guarded merge whose key is the code's
`historicalSeriesKey` text and whose shape is the kind with the bounds.
-/
namespace Wardx.HistoryBucket

open Lib HyperLogLog

inductive Tier
  | minute
  | hour
  | day
deriving DecidableEq, Repr

def Tier.text : Tier → String
  | .minute => "minute"
  | .hour => "hour"
  | .day => "day"

/-- `WIDTH`, in milliseconds. -/
def Tier.width : Tier → ℤ
  | .minute => 60000
  | .hour => 3600000
  | .day => 86400000

theorem Tier.width_pos (tier : Tier) : 0 < tier.width := by
  cases tier <;> decide

/-- `LOG_LEVELS`. -/
inductive LogLevel
  | debug
  | info
  | warn
  | error
deriving DecidableEq, Repr

def LogLevel.text : LogLevel → String
  | .debug => "debug"
  | .info => "info"
  | .warn => "warn"
  | .error => "error"

/-- A dimension's value. -/
inductive Scalar
  | str (value : String)
  | num (value : ℚ)
  | bool (value : Bool)
deriving DecidableEq, Repr

def Scalar.json : Scalar → Json
  | .str s => .str s
  | .num q => .num q
  | .bool b => .bool b

abbrev Dimensions := Option (List (String × Scalar))

inductive Kind
  | counter
  | event
  | log
  | gauge
  | histogram
  | distinct
  | drop
deriving DecidableEq, Repr

def Kind.text : Kind → String
  | .counter => "counter"
  | .event => "event"
  | .log => "log"
  | .gauge => "gauge"
  | .histogram => "histogram"
  | .distinct => "distinct"
  | .drop => "drop"

structure Gauge where
  lastValue : ℚ
  lastTimestamp : ℚ
  min : ℚ
  max : ℚ
  sampleCount : ℕ
deriving DecidableEq, Repr

/-- Buckets are pairs of an upper bound and a count. -/
structure Histogram where
  count : ℕ
  sum : ℚ
  min : ℚ
  max : ℚ
  buckets : List (ℚ × ℕ)
deriving DecidableEq, Repr

structure Distinct where
  registers : Registers
  estimate : ℤ
deriving DecidableEq, Repr

/-- The fields a kind adds to the common ones. -/
inductive RowBody
  | counter (value : ℚ)
  | event (count : ℕ)
  | log (level : LogLevel) (count : ℕ)
  | gauge (gauge : Gauge)
  | histogram (histogram : Histogram)
  | distinct (distinct : Distinct)
  | drop (count : ℕ)
deriving DecidableEq, Repr

def RowBody.kind : RowBody → Kind
  | .counter _ => .counter
  | .event _ => .event
  | .log _ _ => .log
  | .gauge _ => .gauge
  | .histogram _ => .histogram
  | .distinct _ => .distinct
  | .drop _ => .drop

def RowBody.level : RowBody → Option LogLevel
  | .log level _ => some level
  | _ => none

structure HistoricalRow where
  name : String
  role : String
  environment : String
  appVersion : String
  dimensions : Dimensions
  os : Option String
  body : RowBody
deriving DecidableEq, Repr

def HistoricalRow.kind (row : HistoricalRow) : Kind := row.body.kind

/-! ## Normalization -/

def forbiddenKeys : List String :=
  ["attrs", "exemplar", "instanceid", "sessionid", "subject", "subjectid", "subjecthash",
    "assignmenthash"]

def nonEmptyString (value label : String) : Except String Unit :=
  require (value ≠ "") (label ++ " must be a non-empty string")

/-- Fields in the order the runtime enumerates an object built from sorted keys. -/
def propertyLe (a b : String × Scalar) : Prop := propertyRank a.1 ≤ propertyRank b.1

instance : DecidableRel propertyLe := fun a b =>
  inferInstanceAs (Decidable (propertyRank a.1 ≤ propertyRank b.1))

def sortedFields (fields : List (String × Scalar)) : List (String × Scalar) :=
  fields.insertionSort propertyLe

def checkDimension (label : String) (field : String × Scalar) : Except String Unit := do
  nonEmptyString field.1 (label ++ " key")
  require (field.1.toLower ∉ forbiddenKeys)
    (label ++ "." ++ field.1 ++ " is prohibited in history")

/-- `dimensions`: keys are checked in sorted order. -/
def dimensions (value : Dimensions) (label : String) : Except String Dimensions :=
  match value with
  | none => .ok none
  | some fields => do
      checkAll (checkDimension label) (fields.insertionSort fun a b => utf16Le a.1 b.1)
      pure (some (sortedFields fields))

def boundsOf (buckets : List (ℚ × ℕ)) : List ℚ := buckets.map Prod.fst

def increasing : List ℚ → Bool
  | a :: b :: rest => a < b && increasing (b :: rest)
  | _ => true

/-- The checks of one kind, and the estimate a sketch gets. -/
def normalizeBody (js : Js) (label : String) : RowBody → Except String RowBody
  | .gauge gauge => do
      require (1 ≤ gauge.sampleCount) (label ++ ".sampleCount must be >= 1")
      require (gauge.min ≤ gauge.max) (label ++ ".min must be <= max")
      pure (.gauge gauge)
  | .histogram histogram => do
      require (histogram.min ≤ histogram.max) (label ++ ".min must be <= max")
      require (increasing (boundsOf histogram.buckets))
        (label ++ ".buckets bounds must be strictly increasing")
      pure (.histogram histogram)
  | .distinct distinct =>
      .ok (.distinct ⟨distinct.registers, estimateHllBody js distinct.registers⟩)
  | body => .ok body

/-- `normalizeHistoricalRow`. -/
def normalizeHistoricalRow (js : Js) (row : HistoricalRow) (label : String) :
    Except String HistoricalRow := do
  nonEmptyString row.name (label ++ ".name")
  nonEmptyString row.role (label ++ ".role")
  nonEmptyString row.environment (label ++ ".environment")
  nonEmptyString row.appVersion (label ++ ".appVersion")
  let dims ← dimensions row.dimensions (label ++ ".dimensions")
  require (row.os ≠ some "") (label ++ ".os must be a non-empty string")
  let body ← normalizeBody js label row.body
  pure { row with dimensions := dims, body := body }

/-! ## The series key -/

def fieldsJson (fields : List (String × Scalar)) : Json :=
  .obj (fields.map fun field => (field.1, field.2.json))

/-- `JSON.stringify(value ?? null)`. -/
def stableDimensions (js : Js) (value : Dimensions) : String :=
  match value with
  | none => "null"
  | some fields => (fieldsJson fields).stringify js

/-- The key after the kind. -/
def seriesTail (js : Js) (row : HistoricalRow) : String :=
  row.role ++ "\x00" ++ row.environment ++ "\x00" ++ row.appVersion ++ "\x00" ++
    row.os.getD "" ++ "\x00" ++ row.name ++ "\x00" ++ (row.body.level.map LogLevel.text).getD "" ++
    "\x00" ++ stableDimensions js row.dimensions

/-- `historicalSeriesKey`. -/
def historicalSeriesKey (js : Js) (row : HistoricalRow) : String :=
  row.kind.text ++ "\x00" ++ seriesTail js row

/-! ## Merging rows -/

/-- Same length, and the same bound at each place. -/
def compatibleBounds (left right : List (ℚ × ℕ)) : Bool := boundsOf left == boundsOf right

def addCounts (left right : List (ℚ × ℕ)) : List (ℚ × ℕ) :=
  List.zipWith (fun a b => (a.1, a.2 + b.2)) left right

/-- The later sample wins; of two at one time, the larger. -/
def mergeGauge (existing incoming : Gauge) : Gauge :=
  let later := incoming.lastTimestamp > existing.lastTimestamp ∨
    (incoming.lastTimestamp = existing.lastTimestamp ∧ incoming.lastValue > existing.lastValue)
  { min := min existing.min incoming.min
    max := max existing.max incoming.max
    sampleCount := existing.sampleCount + incoming.sampleCount
    lastTimestamp := if later then incoming.lastTimestamp else existing.lastTimestamp
    lastValue := if later then incoming.lastValue else existing.lastValue }

def mergeHistogram (existing incoming : Histogram) : Histogram where
  count := existing.count + incoming.count
  sum := existing.sum + incoming.sum
  min := min existing.min incoming.min
  max := max existing.max incoming.max
  buckets := addCounts existing.buckets incoming.buckets

def mergeDistinct (js : Js) (existing incoming : Distinct) : Distinct :=
  let registers := mergeHllBodies existing.registers incoming.registers
  ⟨registers, estimateHllBody js registers⟩

/-- The body of `mergeRow`. Rows are paired by their key, so their kinds agree
and the last case is never reached. -/
def mergeBody (js : Js) (name : String) : RowBody → RowBody → Except String RowBody
  | .counter a, .counter b => .ok (.counter (a + b))
  | .event a, .event b => .ok (.event (a + b))
  | .log level a, .log _ b => .ok (.log level (a + b))
  | .drop a, .drop b => .ok (.drop (a + b))
  | .gauge a, .gauge b => .ok (.gauge (mergeGauge a b))
  | .histogram a, .histogram b =>
      if compatibleBounds a.buckets b.buckets then .ok (.histogram (mergeHistogram a b))
      else .error ("incompatible histogram bounds for historical series " ++ name)
  | .distinct a, .distinct b => .ok (.distinct (mergeDistinct js a b))
  | a, _ => .ok a

/-- `mergeRow`, and `mergeHistoricalRow`, which applies it to a copy. -/
def mergeRow (js : Js) (existing incoming : HistoricalRow) : Except String HistoricalRow := do
  let body ← mergeBody js incoming.name existing.body incoming.body
  pure { existing with body := body }

/-- What two rows of one series must share to merge. -/
def RowBody.shape : RowBody → Kind × List ℚ
  | .histogram h => (.histogram, boundsOf h.buckets)
  | body => (body.kind, [])

def HistoricalRow.shape (row : HistoricalRow) : Kind × List ℚ := row.body.shape

theorem boundsOf_addCounts {a b : List (ℚ × ℕ)} (h : boundsOf a = boundsOf b) :
    boundsOf (addCounts a b) = boundsOf a := by
  have hlen : a.length = b.length := by
    simpa [boundsOf] using congrArg List.length h
  unfold boundsOf addCounts
  rw [List.map_zipWith]
  induction a generalizing b with
  | nil => simp
  | cons x xs ih =>
      cases b with
      | nil => simp at hlen
      | cons y ys =>
          simp only [boundsOf, List.map_cons, List.cons.injEq] at h
          simp only [List.length_cons, Nat.add_right_cancel_iff] at hlen
          simp only [List.zipWith_cons_cons, List.map_cons, List.cons.injEq, true_and]
          exact ih h.2 hlen

theorem mergeBody_ok_iff (js : Js) (name : String) {a b : RowBody} (h : a.kind = b.kind) :
    (∃ c, mergeBody js name a b = .ok c) ↔ a.shape = b.shape := by
  cases a <;> cases b <;> try cases h
  case histogram.histogram.refl a b =>
    by_cases hb : boundsOf a.buckets = boundsOf b.buckets <;>
      simp [mergeBody, compatibleBounds, RowBody.shape, hb]
  all_goals simp [mergeBody, RowBody.shape, RowBody.kind]

theorem mergeBody_ok {js : Js} {name : String} {a b c : RowBody}
    (h : mergeBody js name a b = .ok c) :
    c.kind = a.kind ∧ c.level = a.level ∧ c.shape = a.shape := by
  cases a <;> cases b <;>
    simp only [mergeBody, Except.ok.injEq] at h <;>
    first | (subst h; exact ⟨rfl, rfl, rfl⟩) | skip
  case histogram.histogram a b =>
    split_ifs at h with hb
    cases h
    refine ⟨rfl, rfl, ?_⟩
    have hbounds := boundsOf_addCounts (by simpa [compatibleBounds] using hb)
    simp only [RowBody.shape, mergeHistogram, hbounds]

/-- A successful merge rewrites the body of the left row and nothing else. -/
theorem mergeRow_ok_iff {js : Js} {a b c : HistoricalRow} :
    mergeRow js a b = .ok c ↔
      ∃ body, mergeBody js b.name a.body b.body = .ok body ∧ c = { a with body := body } := by
  unfold mergeRow
  simp only [bind_eq_ok_iff, pure, Except.pure, Except.ok.injEq]
  constructor
  · rintro ⟨body, hb, rfl⟩
    exact ⟨body, hb, rfl⟩
  · rintro ⟨body, hb, rfl⟩
    exact ⟨body, hb, rfl⟩

theorem Kind.text_injective {a b : Kind} (h : a.text = b.text) : a = b := by
  cases a <;> cases b <;> first | rfl | exact absurd h (by decide)

/-- No kind's text holds the separator. -/
theorem Kind.text_takeWhile (kind : Kind) (rest : List Char) :
    (kind.text.toList ++ '\x00' :: rest).takeWhile (fun c => c ≠ '\x00') =
      kind.text.toList := by
  cases kind <;> simp [Kind.text]

/-- Rows of one series are of one kind. -/
theorem kind_eq_of_key_eq {js : Js} {a b : HistoricalRow}
    (h : historicalSeriesKey js a = historicalSeriesKey js b) : a.kind = b.kind := by
  have ht := congrArg String.toList h
  simp only [historicalSeriesKey, String.toList_append, List.append_assoc] at ht
  have hw := congrArg (List.takeWhile fun c => decide (c ≠ '\x00')) ht
  have hsep : "\x00".toList = ['\x00'] := rfl
  simp only [hsep, List.singleton_append, Kind.text_takeWhile] at hw
  exact Kind.text_injective (String.toList_inj.mp hw)

/-- The key reads a body only through its kind and level. -/
theorem key_withBody (js : Js) (row : HistoricalRow) {body : RowBody}
    (hk : body.kind = row.body.kind) (hl : body.level = row.body.level) :
    historicalSeriesKey js { row with body := body } = historicalSeriesKey js row := by
  unfold historicalSeriesKey seriesTail HistoricalRow.kind
  simp only [hk, hl]

/-- `mergeRow` as a guarded merge of series. -/
def seriesMerge (js : Js) : GuardedMerge HistoricalRow String (Kind × List ℚ) String where
  key := historicalSeriesKey js
  shape := HistoricalRow.shape
  merge := mergeRow js
  merge_ok_iff := by
    intro a b hkey
    rw [show a.shape = b.shape ↔ a.body.shape = b.body.shape from Iff.rfl,
      ← mergeBody_ok_iff js b.name (kind_eq_of_key_eq hkey)]
    simp only [mergeRow_ok_iff]
    constructor
    · rintro ⟨c, body, hb, _⟩
      exact ⟨body, hb⟩
    · rintro ⟨body, hb⟩
      exact ⟨_, body, hb, rfl⟩
  key_merge := by
    intro a b c _ h
    obtain ⟨body, hb, rfl⟩ := mergeRow_ok_iff.mp h
    obtain ⟨hk, hl, _⟩ := mergeBody_ok hb
    exact key_withBody js a hk hl
  shape_merge := by
    intro a b c _ h
    obtain ⟨body, hb, rfl⟩ := mergeRow_ok_iff.mp h
    exact (mergeBody_ok hb).2.2

/-! ## Normal rows -/

/-- What `normalizeHistoricalRow` demands of a body. -/
def ValidBody : RowBody → Prop
  | .gauge gauge => 1 ≤ gauge.sampleCount ∧ gauge.min ≤ gauge.max
  | .histogram histogram =>
      histogram.min ≤ histogram.max ∧ increasing (boundsOf histogram.buckets) = true
  | _ => True

/-- What `normalizeHistoricalRow` demands of a row. -/
structure ValidRow (row : HistoricalRow) : Prop where
  name : row.name ≠ ""
  role : row.role ≠ ""
  environment : row.environment ≠ ""
  appVersion : row.appVersion ≠ ""
  dimensions : ∀ fields, row.dimensions = some fields →
    ∀ field ∈ fields, field.1 ≠ "" ∧ field.1.toLower ∉ forbiddenKeys
  os : row.os ≠ some ""
  body : ValidBody row.body

def normalizedBody (js : Js) : RowBody → RowBody
  | .distinct distinct =>
      .distinct ⟨distinct.registers, estimateHllBody js distinct.registers⟩
  | body => body

/-- What `normalizeHistoricalRow` returns for a valid row. -/
def normalized (js : Js) (row : HistoricalRow) : HistoricalRow :=
  { row with dimensions := row.dimensions.map sortedFields, body := normalizedBody js row.body }

theorem normalizeBody_eq_ok_iff (js : Js) (label : String) (body body' : RowBody) :
    normalizeBody js label body = .ok body' ↔ ValidBody body ∧ normalizedBody js body = body' := by
  cases body <;>
    simp [normalizeBody, ValidBody, normalizedBody, pure, Except.pure, and_assoc]

theorem dimensions_eq_ok_iff (value value' : Dimensions) (label : String) :
    dimensions value label = .ok value' ↔
      (∀ fields, value = some fields →
        ∀ field ∈ fields, field.1 ≠ "" ∧ field.1.toLower ∉ forbiddenKeys) ∧
      value.map sortedFields = value' := by
  cases value with
  | none => simp [dimensions]
  | some fields =>
      simp [dimensions, checkAll_eq_ok_iff, checkDimension, nonEmptyString, pure, Except.pure]

theorem normalizeHistoricalRow_eq_ok_iff (js : Js) (row row' : HistoricalRow) (label : String) :
    normalizeHistoricalRow js row label = .ok row' ↔
      ValidRow row ∧ normalized js row = row' := by
  unfold normalizeHistoricalRow nonEmptyString
  simp only [bind_eq_ok_iff, require_eq_ok_iff, exists_const, dimensions_eq_ok_iff,
    normalizeBody_eq_ok_iff, decide_eq_true_eq, pure, Except.pure, Except.ok.injEq]
  constructor
  · rintro ⟨h₁, h₂, h₃, h₄, dims, ⟨h₅, rfl⟩, h₆, body, ⟨h₇, rfl⟩, rfl⟩
    exact ⟨⟨h₁, h₂, h₃, h₄, h₅, h₆, h₇⟩, rfl⟩
  · rintro ⟨h, rfl⟩
    exact ⟨h.name, h.role, h.environment, h.appVersion, _, ⟨h.dimensions, rfl⟩, h.os, _,
      ⟨h.body, rfl⟩, rfl⟩

/-- A row that normalization leaves as it is. -/
structure NormalRow (js : Js) (row : HistoricalRow) : Prop where
  valid : ValidRow row
  fixed : normalized js row = row

theorem sortedFields_idem (fields : List (String × Scalar)) :
    sortedFields (sortedFields fields) = sortedFields fields := by
  unfold sortedFields
  have : Std.Total propertyLe := ⟨fun a b => le_total (propertyRank a.1) (propertyRank b.1)⟩
  have : IsTrans (String × Scalar) propertyLe :=
    ⟨fun a b c hab hbc => le_trans (α := List ℕ) hab hbc⟩
  exact (List.pairwise_insertionSort propertyLe fields).insertionSort_eq

theorem mem_sortedFields {fields : List (String × Scalar)} {field : String × Scalar} :
    field ∈ sortedFields fields ↔ field ∈ fields :=
  List.mem_insertionSort _

theorem validBody_normalizedBody {js : Js} {body : RowBody} (h : ValidBody body) :
    ValidBody (normalizedBody js body) := by
  cases body <;> exact h

theorem normalizedBody_idem (js : Js) (body : RowBody) :
    normalizedBody js (normalizedBody js body) = normalizedBody js body := by
  cases body <;> rfl

/-- Normalization is idempotent. -/
theorem normalRow_normalized {js : Js} {row : HistoricalRow} (h : ValidRow row) :
    NormalRow js (normalized js row) where
  valid :=
    { name := h.name
      role := h.role
      environment := h.environment
      appVersion := h.appVersion
      os := h.os
      body := validBody_normalizedBody h.body
      dimensions := by
        intro fields hf field hm
        obtain ⟨fields', hd, rfl⟩ := Option.map_eq_some_iff.mp hf
        exact h.dimensions fields' hd field (mem_sortedFields.mp hm) }
  fixed := by
    unfold normalized
    simp only [normalizedBody_idem, Option.map_map]
    congr 1
    cases row.dimensions with
    | none => rfl
    | some fields => exact congrArg some (sortedFields_idem fields)

theorem NormalRow.normalize {js : Js} {row : HistoricalRow} (h : NormalRow js row)
    (label : String) : normalizeHistoricalRow js row label = .ok row :=
  (normalizeHistoricalRow_eq_ok_iff js row row label).mpr ⟨h.valid, h.fixed⟩

theorem validBody_mergeBody {js : Js} {name : String} {a b c : RowBody} (ha : ValidBody a)
    (hb : ValidBody b) (h : mergeBody js name a b = .ok c) : ValidBody c := by
  cases a <;> cases b <;> simp only [mergeBody, Except.ok.injEq] at h <;>
    first | (subst h; exact ha) | skip
  case gauge.gauge a b =>
    subst h
    obtain ⟨ha₁, ha₂⟩ := ha
    obtain ⟨hb₁, hb₂⟩ := hb
    exact ⟨by simp only [mergeGauge]; omega,
      le_trans (min_le_left _ _) (le_trans ha₂ (le_max_left _ _))⟩
  case histogram.histogram a b =>
    split_ifs at h with hbounds
    cases h
    refine ⟨le_trans (min_le_left _ _) (le_trans ha.1 (le_max_left _ _)), ?_⟩
    simp only [mergeHistogram,
      boundsOf_addCounts (by simpa [compatibleBounds] using hbounds)]
    exact ha.2

theorem normalizedBody_mergeBody {js : Js} {name : String} {a b c : RowBody}
    (ha : normalizedBody js a = a) (h : mergeBody js name a b = .ok c) :
    normalizedBody js c = c := by
  cases a <;> cases b <;> simp only [mergeBody, Except.ok.injEq] at h <;>
    first | (subst h; exact ha) | (subst h; rfl) | skip
  case histogram.histogram a b =>
    split_ifs at h
    cases h
    rfl

/-- Merging normal rows gives a normal row. -/
theorem mergeRow_normal {js : Js} {a b c : HistoricalRow} (ha : NormalRow js a)
    (hb : NormalRow js b) (h : mergeRow js a b = .ok c) : NormalRow js c := by
  obtain ⟨body, hbody, rfl⟩ := mergeRow_ok_iff.mp h
  have hfix := ha.fixed
  unfold normalized at hfix
  have hdims : a.dimensions.map sortedFields = a.dimensions :=
    congrArg HistoricalRow.dimensions hfix
  have hab : normalizedBody js a.body = a.body := congrArg HistoricalRow.body hfix
  refine ⟨⟨ha.valid.name, ha.valid.role, ha.valid.environment, ha.valid.appVersion,
    ha.valid.dimensions, ha.valid.os, validBody_mergeBody ha.valid.body hb.valid.body hbody⟩, ?_⟩
  unfold normalized
  simp only [hdims, normalizedBody_mergeBody hab hbody]

/-- Merging normal rows into an empty table leaves normal rows. -/
theorem insertAll_normal {js : Js} {rows : List HistoricalRow} {merged : Table String HistoricalRow}
    (hrows : ∀ row ∈ rows, NormalRow js row)
    (h : (seriesMerge js).insertAll Table.empty rows = .ok merged) :
    ∀ row ∈ merged.values, NormalRow js row := by
  have hmerge : ∀ a b c, NormalRow js a → NormalRow js b →
      (seriesMerge js).merge a b = .ok c → NormalRow js c :=
    fun a b c ha hb hc => mergeRow_normal ha hb hc
  have hempty : ∀ key row, (Table.empty : Table String HistoricalRow).get key = some row →
      NormalRow js row := by simp
  intro row hrow
  obtain ⟨⟨key, value⟩, hentry, rfl⟩ := List.mem_map.mp hrow
  exact GuardedMerge.insertAll_forall hmerge hempty hrows h key value
    ((Table.get_eq_some_iff _ _ _).mpr hentry)

/-! ## Buckets -/

structure Bucket where
  project : String
  tier : Tier
  bucketFrom : ℤ
  bucketTo : ℤ
  finalized : Bool
  dropCount : ℕ
  rows : List HistoricalRow
deriving DecidableEq, Repr

/-- `assertHistoryBoundary`. -/
def assertHistoryBoundary (tier : Tier) (bucketFrom bucketTo : ℤ) (label : String) :
    Except String Unit :=
  require (bucketFrom % tier.width = 0 && bucketTo = bucketFrom + tier.width)
    (label ++ " must have a UTC-aligned " ++ tier.text ++ " boundary")

/-- Rows are kept in the collation order of their keys. -/
def keyLe (js : Js) (a b : HistoricalRow) : Prop :=
  js.localeCompare (historicalSeriesKey js a) (historicalSeriesKey js b) ≠ .gt

instance (js : Js) : DecidableRel (keyLe js) := fun _ _ =>
  inferInstanceAs (Decidable (js.localeCompare _ _ ≠ .gt))

def sortRows (js : Js) (rows : List HistoricalRow) : List HistoricalRow :=
  rows.insertionSort (keyLe js)

theorem sortRows_perm (js : Js) (rows : List HistoricalRow) : (sortRows js rows).Perm rows :=
  List.perm_insertionSort _ rows

def normalizeRows (js : Js) (label : String) :
    ℕ → List HistoricalRow → Except String (List HistoricalRow)
  | _, [] => .ok []
  | index, row :: rows => do
      let first ← normalizeHistoricalRow js row (label ++ ".rows[" ++ toString index ++ "]")
      let rest ← normalizeRows js label (index + 1) rows
      pure (first :: rest)

/-- `normalizeHistoryBucket`. -/
def normalizeHistoryBucket (js : Js) (bucket : Bucket) (label : String) :
    Except String Bucket := do
  assertHistoryBoundary bucket.tier bucket.bucketFrom bucket.bucketTo label
  let rows ← normalizeRows js label 0 bucket.rows
  nonEmptyString bucket.project (label ++ ".project")
  pure { bucket with rows := sortRows js rows }

/-- The loop over the source buckets: a table of merged rows and the drops. -/
def mergeSources (js : Js) (project : String) (bucketFrom bucketTo : ℤ) :
    ℕ → Table String HistoricalRow → ℕ → List Bucket →
      Except String (Table String HistoricalRow × ℕ)
  | _, merged, dropCount, [] => .ok (merged, dropCount)
  | index, merged, dropCount, bucket :: buckets => do
      let source ← normalizeHistoryBucket js bucket
        ("sourceBuckets[" ++ toString index ++ "]")
      require (source.project = project && bucketFrom ≤ source.bucketFrom &&
        source.bucketTo ≤ bucketTo) "source bucket falls outside the destination bucket"
      let next ← (seriesMerge js).insertAll merged source.rows
      mergeSources js project bucketFrom bucketTo (index + 1) next
        (dropCount + source.dropCount) buckets

/-- `mergeHistoryBuckets`. -/
def mergeHistoryBuckets (js : Js) (project : String) (tier : Tier) (bucketFrom bucketTo : ℤ)
    (sourceBuckets : List Bucket) (finalized : Bool) : Except String Bucket := do
  let expected ← normalizeHistoryBucket js
    ⟨project, tier, bucketFrom, bucketTo, finalized, 0, []⟩ "history bucket"
  let (merged, dropCount) ← mergeSources js project bucketFrom bucketTo 0 Table.empty 0
    sourceBuckets
  pure { expected with dropCount := dropCount, rows := sortRows js merged.values }

/-- A bucket as the server builds and stores it. -/
structure WellFormed (js : Js) (bucket : Bucket) : Prop where
  project : bucket.project ≠ ""
  aligned : bucket.bucketFrom % bucket.tier.width = 0
  width : bucket.bucketTo = bucket.bucketFrom + bucket.tier.width
  rows : ∀ row ∈ bucket.rows, NormalRow js row

theorem normalizeRows_normal {js : Js} (label : String) (index : ℕ) {rows : List HistoricalRow}
    (h : ∀ row ∈ rows, NormalRow js row) : normalizeRows js label index rows = .ok rows := by
  induction rows generalizing index with
  | nil => rfl
  | cons row rows ih =>
      have hrow := h row List.mem_cons_self
      have hrest := ih (index + 1) fun r hr => h r (List.mem_cons_of_mem row hr)
      simp [normalizeRows, hrow.normalize, hrest, pure, Except.pure]

/-- A stored bucket normalizes to itself, rows sorted. -/
theorem WellFormed.normalize {js : Js} {bucket : Bucket} (h : WellFormed js bucket)
    (label : String) :
    normalizeHistoryBucket js bucket label = .ok { bucket with rows := sortRows js bucket.rows } := by
  unfold normalizeHistoryBucket
  simp only [bind_eq_ok_iff, normalizeRows_normal label 0 h.rows, assertHistoryBoundary,
    nonEmptyString, require_eq_ok_iff, exists_const, Bool.and_eq_true, decide_eq_true_eq]
  exact ⟨⟨h.aligned, h.width⟩, _, rfl, h.project, rfl⟩

/-- The rows the merge loop inserts, in its order. -/
def sourceRows (js : Js) (buckets : List Bucket) : List HistoricalRow :=
  buckets.flatMap fun bucket => sortRows js bucket.rows

theorem mem_sourceRows {js : Js} {buckets : List Bucket} {row : HistoricalRow} :
    row ∈ sourceRows js buckets ↔ ∃ bucket ∈ buckets, row ∈ bucket.rows := by
  unfold sourceRows
  simp only [List.mem_flatMap, (sortRows_perm js _).mem_iff]

theorem mem_sourceRows_signature {js : Js} {buckets : List Bucket}
    (s : String × Kind × List ℚ) :
    s ∈ (sourceRows js buckets).map (seriesMerge js).signature ↔
      ∃ bucket ∈ buckets, s ∈ bucket.rows.map (seriesMerge js).signature := by
  simp only [List.mem_map, mem_sourceRows]
  constructor
  · rintro ⟨row, ⟨bucket, hb, hr⟩, rfl⟩
    exact ⟨bucket, hb, row, hr, rfl⟩
  · rintro ⟨bucket, hb, row, hr, rfl⟩
    exact ⟨row, ⟨bucket, hb, hr⟩, rfl⟩

/-- A source bucket of one project inside the destination. -/
structure SourceOf (js : Js) (project : String) (bucketFrom bucketTo : ℤ) (bucket : Bucket) :
    Prop where
  wellFormed : WellFormed js bucket
  project : bucket.project = project
  fromLe : bucketFrom ≤ bucket.bucketFrom
  toLe : bucket.bucketTo ≤ bucketTo

theorem mergeSources_ok_iff {js : Js} {project : String} {bucketFrom bucketTo : ℤ} (index : ℕ)
    (merged : Table String HistoricalRow) (dropCount : ℕ) {buckets : List Bucket}
    (h : ∀ bucket ∈ buckets, SourceOf js project bucketFrom bucketTo bucket)
    (result : Table String HistoricalRow × ℕ) :
    mergeSources js project bucketFrom bucketTo index merged dropCount buckets = .ok result ↔
      (seriesMerge js).insertAll merged (sourceRows js buckets) = .ok result.1 ∧
        result.2 = dropCount + (buckets.map Bucket.dropCount).sum := by
  induction buckets generalizing index merged dropCount with
  | nil =>
      obtain ⟨t, d⟩ := result
      simp [mergeSources, sourceRows, GuardedMerge.insertAll, eq_comm]
  | cons bucket buckets ih =>
      have hb := h bucket List.mem_cons_self
      have hrest := fun i m d => ih i m d fun b hm => h b (List.mem_cons_of_mem bucket hm)
      have hcheck : (decide (bucket.project = project) && decide (bucketFrom ≤ bucket.bucketFrom) &&
          decide (bucket.bucketTo ≤ bucketTo)) = true := by
        simp [hb.project, hb.fromLe, hb.toLe]
      have hrows : sourceRows js (bucket :: buckets) =
          sortRows js bucket.rows ++ sourceRows js buckets := List.flatMap_cons
      simp only [mergeSources, hb.wellFormed.normalize, bind_eq_ok_iff, Except.ok.injEq,
        exists_eq_left', require_eq_ok_iff, hcheck, exists_const, true_and, hrest, hrows,
        GuardedMerge.insertAll_append_ok_iff, List.map_cons, List.sum_cons, Nat.add_assoc]
      constructor
      · rintro ⟨next, hnext, hall, hsum⟩
        exact ⟨⟨next, hnext, hall⟩, hsum⟩
      · rintro ⟨⟨next, hnext, hall⟩, hsum⟩
        exact ⟨next, hnext, hall, hsum⟩

/-- The shape of a successful merge, and the rows it holds. -/
theorem mergeHistoryBuckets_ok_iff {js : Js} {project : String} {tier : Tier}
    {bucketFrom : ℤ} {buckets : List Bucket} (finalized : Bool) (hp : project ≠ "")
    (ha : bucketFrom % tier.width = 0)
    (h : ∀ bucket ∈ buckets, SourceOf js project bucketFrom (bucketFrom + tier.width) bucket)
    (result : Bucket) :
    mergeHistoryBuckets js project tier bucketFrom (bucketFrom + tier.width) buckets finalized =
        .ok result ↔
      ∃ merged, (seriesMerge js).insertAll Table.empty (sourceRows js buckets) = .ok merged ∧
        result = ⟨project, tier, bucketFrom, bucketFrom + tier.width, finalized,
          (buckets.map Bucket.dropCount).sum, sortRows js merged.values⟩ := by
  have hexpected : WellFormed js
      ⟨project, tier, bucketFrom, bucketFrom + tier.width, finalized, 0, []⟩ :=
    ⟨hp, ha, rfl, by simp⟩
  unfold mergeHistoryBuckets
  simp only [hexpected.normalize, bind_eq_ok_iff, Except.ok.injEq, exists_eq_left',
    mergeSources_ok_iff 0 Table.empty 0 h, Prod.exists, Nat.zero_add]
  constructor
  · rintro ⟨merged, drops, ⟨hm, rfl⟩, hr⟩
    exact ⟨merged, hm, (Except.ok.inj hr).symm⟩
  · rintro ⟨merged, hm, rfl⟩
    exact ⟨merged, _, ⟨hm, rfl⟩, rfl⟩

/-- The merge of a period succeeds exactly when no series of its sources has
histogram rows under two lists of bounds. -/
theorem mergeHistoryBuckets_isOk_iff {js : Js} {project : String} {tier : Tier}
    {bucketFrom : ℤ} {buckets : List Bucket} (finalized : Bool) (hp : project ≠ "")
    (ha : bucketFrom % tier.width = 0)
    (h : ∀ bucket ∈ buckets, SourceOf js project bucketFrom (bucketFrom + tier.width) bucket) :
    (∃ result, mergeHistoryBuckets js project tier bucketFrom (bucketFrom + tier.width) buckets
        finalized = .ok result) ↔
      Agree fun s => ∃ bucket ∈ buckets, s ∈ bucket.rows.map (seriesMerge js).signature := by
  have hiff := mergeHistoryBuckets_ok_iff finalized hp ha h
  rw [← agree_congr mem_sourceRows_signature, ← GuardedMerge.insertAll_empty_ok_iff]
  constructor
  · rintro ⟨result, hresult⟩
    obtain ⟨merged, hm, _⟩ := (hiff result).mp hresult
    exact ⟨merged, hm⟩
  · rintro ⟨merged, hm⟩
    exact ⟨_, (hiff _).mpr ⟨merged, hm, rfl⟩⟩

end Wardx.HistoryBucket
