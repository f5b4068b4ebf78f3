import Mathlib.Algebra.Order.Group.Unbundled.Abs
import Mathlib.Algebra.Order.Ring.Rat
import Mathlib.Data.List.Sort
import Wardx.Control.Decision
import Wardx.Control.ValidateExperiment

/-!
# Fixed-horizon decisions

`decideExperiment` reads a definition and the aggregated evidence of its
variants. Until both horizons are reached it reports progress; then it checks
the health of the evidence, compares every treatment with the control and
corrects the comparisons by Holm's method.

Numbers are exact rationals and decimal constants are the rationals they
denote. The transcendental functions are those of the runtime. A bisection that
would run until the runtime's numbers overflow is cut after 1024 doublings.
-/
namespace Wardx.Control

open Lib Json

/-- Aggregated evidence of one variant. -/
structure VariantRow where
  key : String
  exposures : ℕ
  goals : ℕ
  goalSum : ℚ
  goalSumSq : ℚ
  goalMean : ℚ
  rate : ℚ
deriving DecidableEq, Repr

/-- Counts of rejected and unusual evidence, by name. -/
abbrev HealthCounts := List (String × ℕ)

/-! ## Distributions -/

/-- A polynomial, highest coefficient first, by Horner's rule. -/
def horner (coefficients : List ℚ) (x : ℚ) : ℚ :=
  coefficients.foldl (fun value coefficient => value * x + coefficient) 0

def normsInvA : List ℚ :=
  [-39.69683028665376, 220.9460984213642, -275.9285104469687, 138.357751867269,
    -30.66479806614716, 2.506628277459239]

def normsInvB : List ℚ :=
  [-54.47609879822406, 161.5858368580409, -155.6989798598866, 66.80131188771972,
    -13.28068155288572]

def normsInvC : List ℚ :=
  [-0.007784894002430293, -0.3223964580411365, -2.400758277161838, -2.549732539343734,
    4.374664141464968, 2.938163982698783]

def normsInvD : List ℚ :=
  [0.007784695709041462, 0.3224671290700398, 2.445134137142996, 3.754408661907416]

/-- `normsInv`. -/
def normsInv (js : Js) (p : ℚ) : Except String ℚ := do
  require (0 < p && p < 1) "normsInv p must be in (0, 1)"
  if p = 0.5 then pure 0
  else if p < 0.02425 then
    let q := js.sqrt (-2 * js.log p)
    pure (horner normsInvC q / (horner normsInvD q * q + 1))
  else if p ≤ 1 - 0.02425 then
    let q := p - 0.5
    let r := q * q
    pure (horner normsInvA r * q / (horner normsInvB r * r + 1))
  else
    let q := js.sqrt (-2 * js.log (1 - p))
    pure (-(horner normsInvC q) / (horner normsInvD q * q + 1))

def erf (js : Js) (value : ℚ) : ℚ :=
  let sign : ℚ := if value < 0 then -1 else 1
  let x := |value|
  let t := 1 / (1 + 0.3275911 * x)
  let polynomial :=
    horner [1.061405429, -1.453152027, 1.421413741, -0.284496736, 0.254829592] t * t
  sign * (1 - polynomial * js.exp (-x * x))

def normalCdf (js : Js) (value : ℚ) : ℚ := 0.5 * (1 + erf js (value / 1.4142135623730951))

def logGammaCoefficients : List ℚ :=
  [676.5203681218851, -1259.1392167224028, 771.3234287776531, -176.6150291621406,
    12.507343278686905, -0.13857109526572012, 0.00000998436957802, 0.00000015056327351493116]

/-- `logGamma` of a value from one half on. -/
def logGammaUpper (js : Js) (value : ℚ) : ℚ :=
  let z := value - 1
  let sum := (logGammaCoefficients.zipIdx.map fun c => c.1 / (z + c.2 + 1)).foldl (· + ·)
    0.99999999999981
  let t := z + logGammaCoefficients.length - 0.5
  0.5 * js.log (2 * 3.141592653589793) + (z + 0.5) * js.log t - t + js.log sum

/-- `logGamma`; the reflection leads to a value above one half. -/
def logGamma (js : Js) (value : ℚ) : ℚ :=
  if value < 0.5 then
    js.log 3.141592653589793 - js.log (js.sin (3.141592653589793 * value)) -
      logGammaUpper js (1 - value)
  else logGammaUpper js value

def atLeast (value : ℚ) : ℚ := if |value| < 1 / 10 ^ 300 then 1 / 10 ^ 300 else value

/-- The iterations of `betaContinuedFraction` from `iteration` on. -/
def betaIterations (a b x : ℚ) : ℕ → ℚ → ℚ → ℚ → ℚ → Except String ℚ
  | 0, _, _, _, _ => .error "beta continued fraction did not converge"
  | rounds + 1, iteration, c, d, result =>
      let doubled := 2 * iteration
      let even := iteration * (b - iteration) * x / ((a - 1 + doubled) * (a + doubled))
      let d := 1 / atLeast (1 + even * d)
      let c := atLeast (1 + even / c)
      let result := result * (d * c)
      let odd := -(a + iteration) * (a + b + iteration) * x /
        ((a + doubled) * (a + 1 + doubled))
      let d := 1 / atLeast (1 + odd * d)
      let c := atLeast (1 + odd / c)
      let delta := d * c
      let result := result * delta
      if |delta - 1| < 3 / 10 ^ 14 then .ok result
      else betaIterations a b x rounds (iteration + 1) c d result

def betaContinuedFraction (a b x : ℚ) : Except String ℚ :=
  let d := 1 / atLeast (1 - (a + b) * x / (a + 1))
  betaIterations a b x 200 1 1 d d

def regularizedBeta (js : Js) (x a b : ℚ) : Except String ℚ :=
  if x ≤ 0 then .ok 0
  else if 1 ≤ x then .ok 1
  else do
    let scale := js.exp (logGamma js (a + b) - logGamma js a - logGamma js b + a * js.log x +
      b * js.log (1 - x))
    if x < (a + 1) / (a + b + 2) then
      let fraction ← betaContinuedFraction a b x
      pure (scale * fraction / a)
    else
      let fraction ← betaContinuedFraction b a (1 - x)
      pure (1 - scale * fraction / b)

def studentTCdf (js : Js) (value : ℚ) : DegreesOfFreedom → Except String ℚ
  | .infinite => .ok (normalCdf js value)
  | .finite degrees => do
      let x := degrees / (degrees + value * value)
      let beta ← regularizedBeta js x (degrees / 2) 0.5
      let tail := 0.5 * beta
      pure (if 0 ≤ value then 1 - tail else tail)

def doubleUpper (cdf : ℚ → Except String ℚ) (p : ℚ) : ℕ → ℚ → Except String ℚ
  | 0, upper => .ok upper
  | rounds + 1, upper => do
      let reached ← cdf upper
      if reached < p then doubleUpper cdf p rounds (upper * 2) else pure upper

def bisect (cdf : ℚ → Except String ℚ) (p : ℚ) : ℕ → ℚ → ℚ → Except String ℚ
  | 0, lower, upper => .ok ((lower + upper) / 2)
  | rounds + 1, lower, upper => do
      let middle := (lower + upper) / 2
      let reached ← cdf middle
      if reached < p then bisect cdf p rounds middle upper else bisect cdf p rounds lower middle

/-- `studentTInv` of a probability above one half. -/
def studentTInvUpper (js : Js) (p : ℚ) (degrees : DegreesOfFreedom) : Except String ℚ :=
  match degrees with
  | .infinite => normsInv js p
  | .finite _ => do
      let cdf := fun value => studentTCdf js value degrees
      let upper ← doubleUpper cdf p 1024 1
      bisect cdf p 100 0 upper

/-- `studentTInv`. -/
def studentTInv (js : Js) (p : ℚ) (degrees : DegreesOfFreedom) : Except String ℚ :=
  if p = 0.5 then .ok 0
  else if p < 0.5 then do
    let upper ← studentTInvUpper js (1 - p) degrees
    pure (-upper)
  else studentTInvUpper js p degrees

/-! ## Rows -/

def emptyRow (key : String) : VariantRow := ⟨key, 0, 0, 0, 0, 0, 0⟩

/-- A row with its mean and rate computed. -/
def withRates (key : String) (row : VariantRow) : VariantRow :=
  { row with
    key := key
    goalMean := if 0 < row.goals then row.goalSum / row.goals else 0
    rate := if 0 < row.exposures then row.goals / row.exposures else 0 }

def variantKeysOf (definition : Json) : List String :=
  (items (definition.get? "variants")).map fun variant => propertyKey (variant.get? "key")

/-- `mergeVariantRows`: the variants of the definition, then any other row. -/
def mergeVariantRows (definition : Json) (rows : List VariantRow) : List VariantRow :=
  let others := (rows.map VariantRow.key).foldl
    (fun keys key => if key ∈ keys then keys else keys ++ [key]) (variantKeysOf definition)
  others.map fun key =>
    match rows.reverse.find? fun row => row.key = key with
    | none => emptyRow key
    | some row => withRates key row

def isMean (definition : Json) : Bool := definition.get? "outcomeKind" = some (.str "mean")

def sampleSize (mean : Bool) (row : VariantRow) : ℕ := if mean then row.goals else row.exposures

def metricOf (mean : Bool) (row : VariantRow) : ℚ := if mean then row.goalMean else row.rate

def sampleVariance (row : VariantRow) : Option ℚ :=
  if row.goals < 2 then none
  else
    let sumOfSquares := row.goalSumSq - row.goalSum * row.goalSum / row.goals
    let tolerance := 1 / 2 ^ 52 * max 1 |row.goalSumSq| * 16
    if sumOfSquares < -tolerance then none
    else some (max 0 sumOfSquares / (row.goals - 1))

/-! ## Intervals and p-values -/

structure Interval where
  lower : ℚ
  upper : ℚ
deriving DecidableEq, Repr

def wilsonInterval (js : Js) (successes total : ℕ) (z : ℚ) : Interval :=
  let proportion : ℚ := successes / total
  let zSquared := z * z
  let denominator := 1 + zSquared / total
  let center := (proportion + zSquared / (2 * total)) / denominator
  let radius := z / denominator *
    js.sqrt (proportion * (1 - proportion) / total + zSquared / (4 * total * total))
  ⟨max 0 (center - radius), min 1 (center + radius)⟩

/-- `newcombeDifferenceInterval`. -/
def newcombeDifferenceInterval (js : Js) (treatment control : VariantRow) (alpha : ℚ) :
    Except String Interval := do
  let z ← normsInv js (1 - alpha / 2)
  let treatmentInterval := wilsonInterval js treatment.goals treatment.exposures z
  let controlInterval := wilsonInterval js control.goals control.exposures z
  let effect := treatment.rate - control.rate
  pure
    { lower := effect - js.sqrt ((treatment.rate - treatmentInterval.lower) ^ 2 +
        (controlInterval.upper - control.rate) ^ 2)
      upper := effect + js.sqrt ((treatmentInterval.upper - treatment.rate) ^ 2 +
        (control.rate - controlInterval.lower) ^ 2) }

def directionalPValue (statistic : ℚ) (direction : String) (cdf : ℚ → Except String ℚ) :
    Except String ℚ := do
  if direction = "increase" then
    let p ← cdf statistic
    pure (max 0 (min 1 (1 - p)))
  else if direction = "decrease" then
    let p ← cdf statistic
    pure (max 0 (min 1 p))
  else
    let p ← cdf |statistic|
    pure (max 0 (min 1 (2 * (1 - p))))

def conversionPValue (js : Js) (treatment control : VariantRow) (direction : String) :
    Except String ℚ :=
  let pooled : ℚ := (treatment.goals + control.goals) / (treatment.exposures + control.exposures)
  let standardError :=
    js.sqrt (pooled * (1 - pooled) * (1 / treatment.exposures + 1 / control.exposures))
  let effect := treatment.rate - control.rate
  if standardError = 0 then .ok (if effect = 0 then 1 else 0)
  else directionalPValue (effect / standardError) direction fun value => .ok (normalCdf js value)

structure Welch where
  standardError : ℚ
  degreesOfFreedom : DegreesOfFreedom
deriving DecidableEq, Repr

def welchInputs (js : Js) (treatment control : VariantRow) : Option Welch := do
  let treatmentVariance ← sampleVariance treatment
  let controlVariance ← sampleVariance control
  let treatmentTerm := treatmentVariance / treatment.goals
  let controlTerm := controlVariance / control.goals
  let standardError := js.sqrt (treatmentTerm + controlTerm)
  pure
    { standardError := standardError
      degreesOfFreedom :=
        if 0 < standardError then
          .finite ((treatmentTerm + controlTerm) ^ 2 /
            (treatmentTerm ^ 2 / (treatment.goals - 1) + controlTerm ^ 2 / (control.goals - 1)))
        else .infinite }

def welchPValue (js : Js) (treatment control : VariantRow) (direction : String) (welch : Welch) :
    Except String ℚ :=
  let effect := treatment.goalMean - control.goalMean
  if welch.standardError = 0 then .ok (if effect = 0 then 1 else 0)
  else directionalPValue (effect / welch.standardError) direction fun value =>
    studentTCdf js value welch.degreesOfFreedom

def welchInterval (js : Js) (treatment control : VariantRow) (alpha : ℚ) (welch : Welch) :
    Except String Interval :=
  let effect := treatment.goalMean - control.goalMean
  if welch.standardError = 0 then .ok ⟨effect, effect⟩
  else do
    let critical ← studentTInv js (1 - alpha / 2) welch.degreesOfFreedom
    let radius := critical * welch.standardError
    pure ⟨effect - radius, effect + radius⟩

/-! ## Holm's correction -/

structure RawComparison where
  key : String
  effect : ℚ
  pValue : ℚ
  treatment : VariantRow
  control : VariantRow
  welch : Option Welch
deriving DecidableEq, Repr

structure AdjustedComparison extends RawComparison where
  holmAlpha : ℚ
  adjustedPValue : ℚ
  significant : Bool
deriving DecidableEq, Repr

/-- By p-value, then by collation of the keys. -/
def holmLe (js : Js) (left right : RawComparison) : Prop :=
  left.pValue < right.pValue ∨
    left.pValue = right.pValue ∧ js.localeCompare left.key right.key ≠ .gt

instance (js : Js) : DecidableRel (holmLe js) := fun left right =>
  inferInstanceAs (Decidable (left.pValue < right.pValue ∨
    left.pValue = right.pValue ∧ js.localeCompare left.key right.key ≠ .gt))

/-- The loop over the ordered comparisons. -/
def holmStep (familyWiseAlpha : ℚ) : Bool → ℚ → List RawComparison → List AdjustedComparison
  | _, _, [] => []
  | canReject, previousAdjusted, comparison :: rest =>
      let remaining : ℚ := rest.length + 1
      let holmAlpha := familyWiseAlpha / remaining
      let adjusted := min 1 (max previousAdjusted (comparison.pValue * remaining))
      let significant := canReject && decide (comparison.pValue ≤ holmAlpha)
      { toRawComparison := comparison, holmAlpha := holmAlpha, adjustedPValue := adjusted,
        significant := significant } :: holmStep familyWiseAlpha significant adjusted rest

/-- `holmAdjust`. -/
def holmAdjust (js : Js) (comparisons : List RawComparison) (familyWiseAlpha : ℚ) :
    List AdjustedComparison :=
  holmStep familyWiseAlpha true 0 (comparisons.insertionSort (holmLe js))

/-! ## The decision -/

def invalidDecision (reason : String) : Decision where
  status := .invalid
  next := "leave"
  reason := reason

def checkRows (expected : List String) : List String → List VariantRow → Option String
  | _, [] => none
  | seen, row :: rest =>
      if row.key ∉ expected then some ("unknown experiment variant row: " ++ row.key)
      else if row.key ∈ seen then some ("duplicate experiment variant row: " ++ row.key)
      else if row.goalSumSq < 0 then some (row.key ++ ".goalSumSq must be >= 0")
      else checkRows expected (row.key :: seen) rest

/-- `validateRows`; counts are naturals and sums rationals by type. -/
def validateRows (definition : Json) (rows : List VariantRow) : Option String :=
  checkRows (variantKeysOf definition) [] rows

def healthCountByThreshold : List (String × String) :=
  [("maxDroppedFrames", "droppedFrames"), ("maxDuplicateExposures", "duplicateExposures"),
    ("maxDuplicateGoals", "duplicateGoals"), ("maxConflictingGoals", "conflictingGoals"),
    ("maxVariantConflicts", "variantConflicts"), ("maxUntrustedRows", "untrustedRows"),
    ("maxLateRows", "lateRows"), ("maxMissingExposures", "missingExposures"),
    ("maxImplicitExposures", "implicitExposures")]

def healthViolation (definition : Json) (health : HealthCounts) (field : String × String) :
    Option String :=
  match health.lookup field.2 with
  | none => some (field.2 ++ " must be an integer >= 0")
  | some value =>
      let thresholds := (definition.get? "healthThresholds").getD .null
      let maximum := (number? (thresholds.get? field.1)).getD 0
      if maximum < value then
        some (field.2 ++ " " ++ toString value ++ " exceeds " ++ toString maximum.num)
      else none

/-- `evidenceHealth` against the thresholds of the definition. -/
def evidenceHealth (definition : Json) (health : HealthCounts) : EvidenceHealth :=
  let violations := healthCountByThreshold.filterMap (healthViolation definition health)
  { healthy := violations.isEmpty
    counts := healthCountByThreshold.filterMap fun field =>
      (health.lookup field.2).map fun value => (field.2, value)
    violations := violations }

def minSampleOf (mean : Bool) (variants : List VariantRow) : ℕ :=
  ((variants.map (sampleSize mean)).min?).getD 0

def scoreEffect (effect : ℚ) (direction : String) : ℚ :=
  if direction = "decrease" then -effect
  else if direction = "two-sided" then |effect|
  else effect

/-- The first variant with the best score. -/
def leadingVariant (mean : Bool) (direction : String) (variants : List VariantRow) :
    Option VariantRow :=
  variants.foldl (fun best row =>
    match best with
    | none => some row
    | some leader =>
        if scoreEffect (metricOf mean leader) direction < scoreEffect (metricOf mean row) direction
        then some row else some leader) none

def favoredVariant (variant : String) (band : Interval) (minimum : ℚ) (direction control : String) :
    Option String :=
  if direction = "decrease" then
    if band.upper < -minimum then some variant
    else if minimum < band.lower then some control
    else none
  else
    if minimum < band.lower then some variant
    else if band.upper < -minimum then some control
    else none

def terminalInputOf (analysisAt : ℕ) (variants : List VariantRow) : TerminalInput where
  analysisAt := analysisAt
  variants := variants.map fun row =>
    (row.key, ⟨row.exposures, row.goals, row.goalSum, row.goalSumSq⟩)

def methodOf (mean : Bool) : String :=
  if mean then "fixed-horizon-welch-holm-v1" else "fixed-horizon-newcombe-wilson-holm-v1"

/-- The fields of the definition the analysis reads. -/
structure Plan where
  mean : Bool
  control : String
  targetSampleSizePerVariant : ℕ
  earliestAnalysisAt : ℕ
  familyWiseAlpha : ℚ
  minimumEffect : ℚ
  direction : String
deriving DecidableEq, Repr

def naturalOf (value : Option Json) : ℕ := ((number? value).getD 0).num.toNat

def planOf (definition : Json) : Plan where
  mean := isMean definition
  control := propertyKey (definition.get? "control")
  targetSampleSizePerVariant := naturalOf (definition.get? "targetSampleSizePerVariant")
  earliestAnalysisAt := naturalOf (definition.get? "earliestAnalysisAt")
  familyWiseAlpha := (number? (definition.get? "familyWiseAlpha")).getD 0
  minimumEffect := (number? (definition.get? "minimumEffect")).getD 0
  direction := propertyKey (definition.get? "direction")

/-- What every decision after the row checks carries. -/
structure Progress where
  plan : Plan
  variants : List VariantRow
  analysisAt : ℕ
deriving DecidableEq, Repr

namespace Progress

def leading (p : Progress) : Option String :=
  (leadingVariant p.plan.mean p.plan.direction p.variants).map VariantRow.key

def minimumSample (p : Progress) : ℕ := minSampleOf p.plan.mean p.variants

def sampleProgress (p : Progress) : ℚ :=
  min 1 (p.minimumSample / p.plan.targetSampleSizePerVariant)

def horizon (p : Progress) : Horizon where
  timeReached := p.plan.earliestAnalysisAt ≤ p.analysisAt
  sampleReached := p.plan.targetSampleSizePerVariant ≤ p.minimumSample

/-- An invalid decision with the data a ledger can store. -/
def invalid (p : Progress) (reason : String) (health : Option EvidenceHealth) : Decision :=
  { invalidDecision reason with
    leadingVariant := p.leading
    sampleProgress := some p.sampleProgress
    horizon := some p.horizon
    method := some (methodOf p.plan.mean)
    evidenceHealth := health
    terminalInput := some (terminalInputOf p.analysisAt p.variants) }

def collectingReason (p : Progress) : String :=
  match p.horizon.timeReached, p.horizon.sampleReached with
  | false, false => "earliest analysis time and sample horizon are not reached"
  | false, true => "earliest analysis time is not reached"
  | true, _ => "need " ++ toString (p.plan.targetSampleSizePerVariant - p.minimumSample) ++
      " more samples on the smallest variant"

def collecting (p : Progress) : Decision where
  status := .collecting
  next := "wait"
  reason := p.collectingReason
  leadingVariant := p.leading
  sampleProgress := some p.sampleProgress
  horizon := some p.horizon

/-- Statistics no accepted events could add up to. -/
def inconsistency (p : Progress) : Option String :=
  if p.plan.mean then
    (p.variants.find? fun row => decide (2 ≤ row.goals) && (sampleVariance row).isNone).map
      fun row => row.key ++ " has inconsistent mean sufficient statistics"
  else
    (p.variants.find? fun row => row.exposures < row.goals).map
      fun row => row.key ++ ".goals cannot exceed exposures for a conversion outcome"

end Progress

def compareConversion (js : Js) (plan : Plan) (treatment control : VariantRow) :
    Except String RawComparison := do
  let pValue ← conversionPValue js treatment control plan.direction
  pure ⟨treatment.key, treatment.rate - control.rate, pValue, treatment, control, none⟩

def compareMean (js : Js) (plan : Plan) (treatment control : VariantRow) (welch : Welch) :
    Except String RawComparison := do
  let pValue ← welchPValue js treatment control plan.direction welch
  pure ⟨treatment.key, treatment.goalMean - control.goalMean, pValue, treatment, control,
    some welch⟩

/-- The loop over the treatments; `none` when a variance is missing. -/
def rawComparisons (js : Js) (plan : Plan) (control : VariantRow) :
    List VariantRow → Except String (Option (List RawComparison))
  | [] => .ok (some [])
  | treatment :: rest =>
      if treatment.key = control.key then rawComparisons js plan control rest
      else if plan.mean then
        match welchInputs js treatment control with
        | none => .ok none
        | some welch => do
            let first ← compareMean js plan treatment control welch
            let others ← rawComparisons js plan control rest
            pure (others.map fun list => first :: list)
      else do
        let first ← compareConversion js plan treatment control
        let others ← rawComparisons js plan control rest
        pure (others.map fun list => first :: list)

def bandOf (js : Js) (comparison : AdjustedComparison) : Except String Interval :=
  match comparison.welch with
  | none =>
      newcombeDifferenceInterval js comparison.treatment comparison.control comparison.holmAlpha
  | some welch =>
      welchInterval js comparison.treatment comparison.control comparison.holmAlpha welch

/-- One corrected comparison as the decision reports it. -/
def reportComparison (js : Js) (plan : Plan) (comparison : AdjustedComparison) :
    Except String Comparison := do
  let band ← bandOf js comparison
  let favored :=
    if comparison.significant then
      favoredVariant comparison.key band plan.minimumEffect plan.direction plan.control
    else none
  pure
    { variant := comparison.key
      effect := comparison.effect
      lift := comparison.effect
      lower := band.lower
      upper := band.upper
      pValue := comparison.pValue
      adjustedPValue := comparison.adjustedPValue
      holmAlpha := comparison.holmAlpha
      significant := comparison.significant
      degreesOfFreedom := comparison.welch.map Welch.degreesOfFreedom
      favoredVariant := favored
      material := favored.isSome
      equivalent := decide (-plan.minimumEffect ≤ band.lower) &&
        decide (band.upper ≤ plan.minimumEffect)
      beatsControl := favored = some comparison.key }

/-- Larger effects first, then by collation. -/
def winnerLe (js : Js) (direction : String) (left right : Comparison) : Prop :=
  scoreEffect right.effect direction < scoreEffect left.effect direction ∨
    scoreEffect right.effect direction = scoreEffect left.effect direction ∧
      js.localeCompare left.variant right.variant ≠ .gt

instance (js : Js) (direction : String) : DecidableRel (winnerLe js direction) :=
  fun left right => inferInstanceAs (Decidable
    (scoreEffect right.effect direction < scoreEffect left.effect direction ∨
      scoreEffect right.effect direction = scoreEffect left.effect direction ∧
        js.localeCompare left.variant right.variant ≠ .gt))

/-- The verdict over the corrected comparisons. -/
def verdict (js : Js) (p : Progress) (health : EvidenceHealth) (comparisons : List Comparison) :
    Decision :=
  let common : Decision :=
    { status := .inconclusive
      next := "leave"
      reason := "the fixed horizon was reached without a material corrected winner or equivalence"
      leadingVariant := p.leading
      sampleProgress := some p.sampleProgress
      horizon := some p.horizon
      method := some (methodOf p.plan.mean)
      evidenceHealth := some health
      terminalInput := some (terminalInputOf p.analysisAt p.variants)
      comparisons := comparisons }
  let treatmentWinners := (comparisons.filter fun comparison =>
    comparison.favoredVariant.any fun favored => favored ≠ p.plan.control).insertionSort
      (winnerLe js p.plan.direction)
  match treatmentWinners with
  | winner :: _ =>
      { common with
        status := .winner
        next := "ship"
        reason := winner.variant ++ " has a family-wise corrected material " ++ p.plan.direction ++
          " effect"
        leadingVariant := some winner.variant }
  | [] =>
      if comparisons ≠ [] ∧
          comparisons.all (fun comparison => comparison.favoredVariant = some p.plan.control) then
        { common with
          status := .winner
          next := "ship"
          reason := p.plan.control ++
            " is favored against every treatment after family-wise correction"
          leadingVariant := some p.plan.control }
      else if comparisons.all Comparison.equivalent then
        { common with
          status := .noDifference
          reason := "all corrected intervals are inside the declared minimum-effect region" }
      else common

/-- The analysis once both horizons are reached. -/
def decideAtHorizon (js : Js) (definition : Json) (p : Progress) (health : HealthCounts) :
    Except String Decision :=
  let checked := evidenceHealth definition health
  if !checked.healthy then
    .ok (p.invalid ("unhealthy experiment evidence: " ++ "; ".intercalate checked.violations)
      (some checked))
  else match p.variants.find? fun row => row.key = p.plan.control with
    | none => .error "Cannot read properties of undefined (reading 'key')"
    | some control => do
        let raw ← rawComparisons js p.plan control p.variants
        match raw with
        | none => pure (p.invalid
            "mean comparison requires at least two accepted values per variant" (some checked))
        | some raw => do
            let comparisons ← mapAll (reportComparison js p.plan)
              (holmAdjust js raw p.plan.familyWiseAlpha)
            pure (verdict js p checked comparisons)

/-- The analysis of a valid plan and valid rows. -/
def decidePlan (js : Js) (definition : Json) (rows : List VariantRow) (analysisAt : ℕ)
    (health : HealthCounts) : Except String Decision :=
  let p : Progress := ⟨planOf definition, mergeVariantRows definition rows, analysisAt⟩
  match p.inconsistency with
  | some reason => .ok (p.invalid reason none)
  | none =>
      if p.horizon.timeReached && p.horizon.sampleReached then
        decideAtHorizon js definition p health
      else .ok p.collecting

/-- `decideExperiment`; the clock gives a natural `analysisAt`. -/
def decideExperiment (js : Js) (definition : Option Json) (rows : List VariantRow)
    (analysisAt : ℕ) (health : HealthCounts) : Except String Decision :=
  match definition with
  | none => .ok (invalidDecision "unknown experiment")
  | some definition =>
      if truthy (definition.get? "shippedVariant") &&
          decide (definition.get? "enabled" = some (.bool false)) then
        let shipped := propertyKey (definition.get? "shippedVariant")
        .ok { status := .shipped, next := "leave", reason := "already shipped " ++ shipped,
              leadingVariant := some shipped }
      else if !hasFixedHorizonPlan definition then
        .ok (invalidDecision "descriptive experiment has no fixed-horizon terminal plan")
      else match assertFixedHorizonPlan definition (variantKeysOf definition) with
        | .error message => .ok (invalidDecision message)
        | .ok _ =>
            match validateRows definition rows with
            | some message => .ok (invalidDecision message)
            | none => decidePlan js definition rows analysisAt health

end Wardx.Control
