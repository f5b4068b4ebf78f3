import Wardx.Aggregation.SketchText

/-!
# Metric rows at the server

The checks of `validate.js` on the rows of a frame's metrics. The first check
that fails stops with its message, which rejects the whole envelope.
-/
namespace Wardx.ValidateMetrics

open Lib Json Control HyperLogLog

structure IngestLimits where
  maxNameBytes : ℕ
  maxDimensionKeys : ℕ
  maxDimensionValueLength : ℕ
  maxAttributeKeys : ℕ
  maxAttributeValueLength : ℕ

section
variable (js : Js) (limits : IngestLimits)

/-- `validateNonEmptyString`. -/
def validateName (value : Option Json) (label : String) : Except String Unit :=
  match text? value with
  | none => .error (label ++ " must be a non-empty string")
  | some text => do
      require (text ≠ "") (label ++ " must be a non-empty string")
      require (utf8Length text ≤ limits.maxNameBytes)
        (label ++ " must be at most " ++ toString limits.maxNameBytes ++ " UTF-8 bytes")

mutual
/-- `validateJsonValue`. -/
def validateJsonValue : Json → String → Except String Unit
  | .null, _ => .ok ()
  | .bool _, _ => .ok ()
  | .num _, _ => .ok ()
  | .str text, label =>
      require (utf16Length text ≤ limits.maxAttributeValueLength)
        (label ++ " must be at most " ++ toString limits.maxAttributeValueLength ++ " characters")
  | .arr values, label => validateJsonItems values label 0
  | .obj fields, label => do
      require (fields.length ≤ limits.maxAttributeKeys)
        (label ++ " must contain at most " ++ toString limits.maxAttributeKeys ++ " keys")
      validateJsonFields fields label

def validateJsonItems : List Json → String → ℕ → Except String Unit
  | [], _, _ => .ok ()
  | value :: values, label, i => do
      validateJsonValue value (label ++ "[" ++ toString i ++ "]")
      validateJsonItems values label (i + 1)

def validateJsonFields : List (String × Json) → String → Except String Unit
  | [], _ => .ok ()
  | (key, value) :: fields, label => do
      validateName limits (some (.str key)) (label ++ " key")
      validateJsonValue value (label ++ "." ++ key)
      validateJsonFields fields label
end

def validateAttrs (attrs : Option Json) (label : String) : Except String Unit :=
  match attrs with
  | some .null => .ok ()
  | some (.obj fields) => validateJsonValue limits (.obj fields) label
  | _ => .error (label ++ " must be an object or null")

/-- `String(value)` of a dimension's value, when it is of an allowed type. -/
def dimensionText : Json → Option String
  | .str text => some text
  | .bool b => some (if b then "true" else "false")
  | .num q => some (js.numberText q)
  | _ => none

def validateDimension (label : String) (field : String × Json) : Except String Unit := do
  validateName limits (some (.str field.1)) (label ++ " key")
  match dimensionText js field.2 with
  | none =>
      .error (label ++ "." ++ field.1 ++ " must be a string, finite number, or boolean")
  | some text =>
      require (utf16Length text ≤ limits.maxDimensionValueLength)
        (label ++ "." ++ field.1 ++ " must be at most " ++
          toString limits.maxDimensionValueLength ++ " characters")

/-- `validateDimensions`. -/
def validateDimensions (dims : Option Json) (label : String) : Except String Unit :=
  match dims with
  | some .null => .ok ()
  | some (.obj fields) => do
      require (fields.length ≤ limits.maxDimensionKeys)
        (label ++ " must contain at most " ++ toString limits.maxDimensionKeys ++ " keys")
      checkAll (validateDimension js limits label) fields
  | _ => .error (label ++ " must be an object or null")

def validateNumber (value : Option Json) (label : String) : Except String Unit :=
  require (number? value).isSome (label ++ " must be a finite number")

/-- What every row starts with. -/
def validateNamed (row : List Json) (label : String) : Except String Unit := do
  validateName limits row[0]? (label ++ "[0]")
  validateDimensions js limits row[1]? (label ++ "[1]")

def validateCounter (row : Json) (label : String) : Except String Unit := do
  let values := items (some row)
  require (values.length = 3) (label ++ " must be a 3-item tuple")
  validateNamed js limits values label
  validateNumber values[2]? (label ++ "[2]")

def validateTimestamp (value : Option Json) (label : String) (earliest latest : ℚ) :
    Except String Unit :=
  match number? value with
  | none => .error (label ++ " must be a finite timestamp")
  | some time => do
      require (decide (earliest ≤ time)) (label ++ " exceeds history.maxAcceptedPastAgeMs")
      require (decide (time ≤ latest)) (label ++ " exceeds maxClockSkewMs")

def validateGauge (row : Json) (label : String) (earliest latest : ℚ) : Except String Unit := do
  let values := items (some row)
  require (values.length = 4) (label ++ " must be a 4-item tuple")
  validateNamed js limits values label
  validateNumber values[2]? (label ++ "[2]")
  validateTimestamp values[3]? (label ++ "[3]") earliest latest

/-- An integer of at least the given one. -/
def wholeFrom (least : ℤ) (value : Option Json) : Option ℤ :=
  (number? value).bind fun q => if q.den = 1 ∧ least ≤ q.num then some q.num else none

/-- The loop over the buckets; the answer is the total of their counts. -/
def validateBuckets (label : String) : List Json → ℕ → Option ℚ → ℤ → Except String ℤ
  | [], _, _, total => .ok total
  | bucket :: buckets, i, previous, total => do
      let pair := items (some bucket)
      let bucketLabel := label ++ ".buckets[" ++ toString i ++ "]"
      require (pair.length = 2) (bucketLabel ++ " must be a 2-item tuple")
      match number? pair[0]? with
      | none => .error (label ++ ".buckets bounds must be strictly increasing finite numbers")
      | some bound => do
          require (previous.all fun before => decide (before < bound))
            (label ++ ".buckets bounds must be strictly increasing finite numbers")
          match wholeFrom 0 pair[1]? with
          | none => .error (bucketLabel ++ "[1] must be an integer >= 0")
          | some count => validateBuckets label buckets (i + 1) (some bound) (total + count)

def validateExemplar (exemplar : Option Json) (max : ℚ) (label : String) : Except String Unit :=
  match exemplar with
  | none => .ok ()
  | some body => do
      require body.isObject (label ++ " must be an object")
      checkKeys ["value", "attrs"] label body
      match number? (body.get? "value") with
      | none => .error (label ++ ".value must be a finite number")
      | some value => do
          require (decide (value = max)) (label ++ ".value must equal max")
          validateAttrs limits (body.get? "attrs") (label ++ ".attrs")

/-- The count, sum, least and greatest value of a body. -/
def validateTotals (body : Json) (label : String) : Except String (ℤ × ℚ) :=
  match wholeFrom 1 (body.get? "count") with
  | none => .error (label ++ ".count must be an integer >= 1")
  | some count => do
      validateNumber (body.get? "sum") (label ++ ".sum")
      match number? (body.get? "min"), number? (body.get? "max") with
      | none, _ => .error (label ++ ".min must be a finite number")
      | some _, none => .error (label ++ ".max must be a finite number")
      | some min, some max => do
          require (decide (min ≤ max)) (label ++ ".min must be <= max")
          pure (count, max)

def validateHistogramBody (body : Option Json) (label : String) : Except String Unit :=
  match body with
  | some (.obj fields) => do
      let body := Json.obj fields
      checkKeys ["count", "sum", "min", "max", "buckets", "exemplar"] label body
      let (count, max) ← validateTotals body label
      match body.get? "buckets" with
      | some (.arr buckets) => do
          let total ← validateBuckets label buckets 0 none 0
          require (decide (total ≤ count)) (label ++ ".buckets total must be <= count")
          validateExemplar limits (body.get? "exemplar") max (label ++ ".exemplar")
      | _ => .error (label ++ ".buckets must be an array")
  | _ => .error (label ++ " must be an object")

def validateHistogram (row : Json) (label : String) : Except String Unit := do
  let values := items (some row)
  require (values.length = 3) (label ++ " must be a 3-item tuple")
  validateNamed js limits values label
  validateHistogramBody limits values[2]? (label ++ "[2]")

def validateDistinct (row : Json) (label : String) : Except String Unit := do
  let values := items (some row)
  require (values.length = 3) (label ++ " must be a 3-item tuple")
  validateNamed js limits values label
  match decodeHllBody (values[2]?.getD .null) with
  | .error message => .error (label ++ "[2] " ++ message)
  | .ok _ => .ok ()

end

end Wardx.ValidateMetrics
