import Wardx.Json
import Wardx.Lib.Check

/-!
# Experiment definitions

A stored definition is a JSON object. Its validator reads field by field and
stops at the first fault; `toClientExperiment` copies the known fields in one
order. A field that is missing reads as `undefined`, here `none`.
-/
namespace Wardx.Control

open Lib Json

/-! ## Reading fields -/

def nonEmptyText : Option Json → Bool
  | some (.str text) => text ≠ ""
  | _ => false

/-- `Number.isInteger(value) && value >= least`. -/
def integerFrom (least : ℤ) : Option Json → Bool
  | some (.num q) => q.den = 1 && least ≤ q.num
  | _ => false

/-- The value of a number, `none` for any other value. -/
def number? : Option Json → Option ℚ
  | some (.num q) => some q
  | _ => none

def text? : Option Json → Option String
  | some (.str text) => some text
  | _ => none

def items : Option Json → List Json
  | some (.arr values) => values
  | _ => []

/-- The truth of an optional text: the empty text is false. -/
def truthy : Option Json → Bool
  | some .null => false
  | some (.bool b) => b
  | some (.num q) => q ≠ 0
  | some (.str text) => text ≠ ""
  | some (.arr _) => true
  | some (.obj _) => true
  | none => false

/-- The name a value has as a property key. -/
def propertyKey (value : Option Json) : String := (text? value).getD "undefined"

def checkKeys (allowed : List String) (label : String) (value : Json) : Except String Unit :=
  checkAll (fun key => require (key ∈ allowed) (label ++ " unknown key: " ++ key)) value.keys

/-! ## Roles -/

/-- `assertRole`. -/
def assertRole (value label : String) : Except String Unit := do
  require (value ≠ "") (label ++ " must be a non-empty string")
  require (value ≠ "*") (label ++ " cannot be *")

def assertRoleList (label : String) (total : ℕ) : List String → List Json → Except String Unit
  | _, [] => .ok ()
  | seen, .str role :: rest => do
      require (role ≠ "") (label ++ " must be a non-empty array of role names")
      if role = "*" then
        require (total = 1) (label ++ " cannot mix * with named roles")
        assertRoleList label total seen rest
      else
        require (role ∉ seen) (label ++ " duplicate " ++ role)
        assertRoleList label total (role :: seen) rest
  | _, _ :: _ => .error (label ++ " must be a non-empty array of role names")

/-- `assertRoles`. -/
def assertRoles (value : Option Json) (label : String) : Except String Unit :=
  match value with
  | some (.arr (role :: roles)) =>
      assertRoleList label (roles.length + 1) [] (role :: roles)
  | _ => .error (label ++ " must be a non-empty array of role names")

/-- `Array.prototype.includes` of a text. -/
def includesText (text : String) (value : Option Json) : Bool := .str text ∈ items value

/-- `roleSees`. -/
def roleSees (targets : Option Json) (role : String) : Bool :=
  includesText "*" targets || includesText role targets

/-! ## Fixed-horizon plans -/

def experimentKeys : List String :=
  ["id", "enabled", "allocation", "salt", "roles", "primaryMetric", "goalMetric",
    "assignmentUnitKind", "outcomeKind", "control", "targetSampleSizePerVariant",
    "earliestAnalysisAt", "familyWiseAlpha", "minimumEffect", "direction", "terminalRetentionMs",
    "healthThresholds", "shippedVariant", "hypothesis", "variants"]

def variantKeys : List String := ["key", "weight", "values"]

def fixedHorizonFields : List String :=
  ["outcomeKind", "control", "targetSampleSizePerVariant", "earliestAnalysisAt",
    "familyWiseAlpha", "minimumEffect", "direction", "healthThresholds"]

def healthThresholdFields : List String :=
  ["maxDroppedFrames", "maxDuplicateExposures", "maxDuplicateGoals", "maxConflictingGoals",
    "maxVariantConflicts", "maxUntrustedRows", "maxLateRows", "maxMissingExposures",
    "maxImplicitExposures"]

def hasFixedHorizonPlan (experiment : Json) : Bool :=
  fixedHorizonFields.any fun field => (experiment.get? field).isSome

def assertHealthThreshold (thresholds : Json) (field : String) : Except String Unit := do
  require (thresholds.get? field).isSome ("experiment.healthThresholds." ++ field ++ " is required")
  require (integerFrom 0 (thresholds.get? field))
    ("experiment.healthThresholds." ++ field ++ " must be an integer >= 0")

def assertHealthThresholds (value : Option Json) : Except String Unit :=
  match value with
  | some (.obj fields) => do
      checkKeys healthThresholdFields "experiment.healthThresholds" (.obj fields)
      checkAll (assertHealthThreshold (.obj fields)) healthThresholdFields
  | _ => .error "experiment.healthThresholds must be an object"

/-- A finite number that satisfies the bounds. -/
def numberWith (bounds : ℚ → Bool) (value : Option Json) : Bool := (number? value).any bounds

/-- `assertFixedHorizonPlan`; the result says whether there is a plan. -/
def assertFixedHorizonPlan (experiment : Json) (keys : List String) : Except String Bool := do
  if hasFixedHorizonPlan experiment then
    checkAll (fun field => require (experiment.get? field).isSome
      ("experiment." ++ field ++ " is required for a fixed-horizon plan")) fixedHorizonFields
    require (experiment.get? "outcomeKind" = some (.str "conversion") ||
        experiment.get? "outcomeKind" = some (.str "mean"))
      "experiment.outcomeKind must be conversion or mean"
    require (nonEmptyText (experiment.get? "control"))
      "experiment.control must be a non-empty string"
    require (integerFrom 1 (experiment.get? "targetSampleSizePerVariant"))
      "experiment.targetSampleSizePerVariant must be an integer >= 1"
    require (experiment.get? "outcomeKind" ≠ some (.str "mean") ||
        integerFrom 2 (experiment.get? "targetSampleSizePerVariant"))
      "experiment.targetSampleSizePerVariant must be >= 2 when outcomeKind is mean"
    require (integerFrom 0 (experiment.get? "earliestAnalysisAt"))
      "experiment.earliestAnalysisAt must be an integer >= 0"
    require (numberWith (fun q => 0 < q && q < 1) (experiment.get? "familyWiseAlpha"))
      "experiment.familyWiseAlpha must be a number in (0, 1)"
    require (numberWith (fun q => 0 ≤ q) (experiment.get? "minimumEffect"))
      "experiment.minimumEffect must be a finite number >= 0"
    require (experiment.get? "direction" ∈ [some (.str "increase"), some (.str "decrease"),
        some (.str "two-sided")])
      "experiment.direction must be increase, decrease, or two-sided"
    assertHealthThresholds (experiment.get? "healthThresholds")
    require (2 ≤ keys.length) "fixed-horizon experiment requires at least two variants"
    require ((text? (experiment.get? "control")).any fun control => control ∈ keys)
      "experiment.control must be a variant key"
    pure true
  else pure false

/-! ## Definitions -/

/-- The loop over the variants: their keys and the total weight. -/
def validateVariants : List String → ℚ → List Json → Except String (List String × ℚ)
  | keys, totalWeight, [] => .ok (keys, totalWeight)
  | keys, totalWeight, variant :: rest => do
      require variant.isObject "experiment variant must be an object"
      checkKeys variantKeys "experiment variant" variant
      require (nonEmptyText (variant.get? "key")) "variant.key is required"
      let key := propertyKey (variant.get? "key")
      require (key ∉ keys) ("duplicate variant key: " ++ key)
      require (numberWith (fun q => 0 ≤ q) (variant.get? "weight"))
        "variant.weight must be a finite number >= 0"
      require ((variant.get? "values").any isObject) "variant.values must be an object"
      validateVariants (keys ++ [key]) (totalWeight + (number? (variant.get? "weight")).getD 0) rest

/-- `validateExperiment`. -/
def validateExperiment (experiment : Json) : Except String Unit := do
  require experiment.isObject "experiment must be an object"
  checkKeys experimentKeys "experiment" experiment
  require (nonEmptyText (experiment.get? "id")) "experiment.id is required"
  require (experiment.get? "enabled" ∈ [some (.bool true), some (.bool false)])
    "experiment.enabled must be a boolean"
  require (numberWith (fun q => 0 ≤ q && q ≤ 1) (experiment.get? "allocation"))
    "experiment.allocation must be a number in [0, 1]"
  require (nonEmptyText (experiment.get? "salt")) "experiment.salt is required"
  assertRoles (experiment.get? "roles") "experiment.roles"
  require (nonEmptyText (experiment.get? "goalMetric")) "experiment.goalMetric is required"
  require (nonEmptyText (experiment.get? "assignmentUnitKind"))
    "experiment.assignmentUnitKind is required and must be a non-empty string"
  require (integerFrom 1 (experiment.get? "terminalRetentionMs"))
    "experiment.terminalRetentionMs is required and must be an integer >= 1"
  require ((experiment.get? "primaryMetric").isNone ||
    nonEmptyText (experiment.get? "primaryMetric"))
    "experiment.primaryMetric must be a non-empty string"
  require ((experiment.get? "shippedVariant").isNone ||
    nonEmptyText (experiment.get? "shippedVariant"))
    "experiment.shippedVariant must be a non-empty string"
  require (items (experiment.get? "variants") ≠ []) "experiment.variants must be a non-empty array"
  let (keys, totalWeight) ← validateVariants [] 0 (items (experiment.get? "variants"))
  require (0 < totalWeight) "experiment variant weights must sum to > 0"
  let _ ← assertFixedHorizonPlan experiment keys
  require ((experiment.get? "shippedVariant").all fun key => text? (some key) ∈ keys.map some)
    "experiment.shippedVariant must be a variant key"

def rolesOverlap (a b : Option Json) : Bool :=
  includesText "*" a || includesText "*" b || (items a).any fun role => role ∈ items b

/-- Whether two enabled definitions share a goal metric for some role. -/
def ambiguous (left right : Json) : Bool :=
  truthy (left.get? "enabled") && truthy (right.get? "enabled") &&
    decide (left.get? "goalMetric" = right.get? "goalMetric") &&
    rolesOverlap (left.get? "roles") (right.get? "roles")

/-- `assertUnambiguousGoalMetrics`. -/
def assertUnambiguousGoalMetrics : List Json → Except String Unit
  | [] => .ok ()
  | left :: rest => do
      checkAll (fun right => require (!ambiguous left right)
        ("enabled experiments " ++ propertyKey (left.get? "id") ++ " and " ++
          propertyKey (right.get? "id") ++ " share goalMetric " ++
          propertyKey (left.get? "goalMetric") ++ " for overlapping roles")) rest
      assertUnambiguousGoalMetrics rest

/-! ## Copies -/

/-- The named fields of a value, in the order of the names. -/
def pick (project : String → Option Json) (names : List String) : Fields :=
  names.filterMap fun name => (project name).map fun value => (name, value)

def clientVariant (variant : Json) : Json := .obj (pick variant.get? variantKeys)

def clientKeys : List String :=
  ["id", "enabled", "allocation", "salt", "goalMetric", "roles", "variants", "primaryMetric",
    "assignmentUnitKind", "terminalRetentionMs"] ++ fixedHorizonFields ++ ["shippedVariant"]

/-- A field as the client copy has it. -/
def clientField (experiment : Json) (name : String) : Option Json :=
  if name = "variants" then
    (experiment.get? name).map fun value => .arr ((items (some value)).map clientVariant)
  else experiment.get? name

/-- `toClientExperiment`. -/
def toClientExperiment (experiment : Json) : Json := .obj (pick (clientField experiment) clientKeys)

theorem lookup_pick (project : String → Option Json) {names : List String} (name : String) :
    (pick project names).lookup name = if name ∈ names then project name else none := by
  unfold pick
  induction names with
  | nil => rfl
  | cons first names ih =>
      cases hp : project first with
      | none =>
          simp only [List.filterMap_cons, hp, Option.map_none, ih, List.mem_cons]
          by_cases h : name = first
          · subst h
            simp [hp]
          · simp [h]
      | some value =>
          simp only [List.filterMap_cons, hp, Option.map_some, lookup_field, ih, List.mem_cons]
          by_cases h : name = first
          · subst h
            simp [hp]
          · simp [h]

theorem get?_toClientExperiment (experiment : Json) (name : String) :
    (toClientExperiment experiment).get? name =
      if name ∈ clientKeys then clientField experiment name else none :=
  lookup_pick (clientField experiment) name

/-- The client copy has a known field as the definition has it. -/
theorem get?_toClientExperiment_of_mem {experiment : Json} {name : String}
    (h : name ∈ clientKeys) (hv : name ≠ "variants") :
    (toClientExperiment experiment).get? name = experiment.get? name := by
  rw [get?_toClientExperiment, if_pos h, clientField, if_neg hv]

/-! ## Config keys -/

/-- The roles of an experiment must see the key. -/
def assertKeyVisible (key : String) (targets : Option Json) (role : Json) : Except String Unit :=
  if role = .str "*" then
    require (includesText "*" targets) ("config key " ++ key ++ " is not visible to all roles")
  else
    require (includesText "*" targets || decide (role ∈ items targets))
      ("config key " ++ key ++ " is not visible to role " ++ propertyKey (some role))

/-- `assertExperimentKeysExist`. -/
def assertExperimentKeysExist (experiment values keyRoles : Json) : Except String Unit :=
  checkAll (fun variant =>
    checkAll (fun key => do
      require (values.get? key).isSome ("unknown config key: " ++ key)
      checkAll (assertKeyVisible key (keyRoles.get? key)) (items (experiment.get? "roles")))
      (((variant : Json).get? "values").getD .null).keys)
    (items (experiment.get? "variants"))

end Wardx.Control
