import Mathlib.Algebra.Order.Floor.Ring
import Mathlib.Data.Rat.Floor
import Wardx.Control.ControlStateChange
import Wardx.Control.ValidateExperiment

/-!
# Project state

The stored row of a project, the normalized control state the journal edits,
and the snapshot and catalog that are served. A stored row keeps experiments as
a list; the normalized state keys them by id, the last of two with one id.

`validateProjectState` is the single check of a candidate state. Every value it
sees came from JSON, so the checks that refuse other values have no case here.
-/
namespace Wardx.Control

open Lib Json ControlStateChange

/-! ## Served and stored shapes -/

structure Snapshot where
  values : Json
  keyRoles : Json
  keyRules : Json
  experiments : List Json
deriving DecidableEq, Repr

/-- A row of `project_state`. -/
structure StoredProject where
  version : ℕ
  values : Json
  keyRoles : Json
  keyRules : Json
  experiments : List Json
  catalog : Json
deriving DecidableEq, Repr

def emptyObject : Json := .obj []

def child (state : Json) (key : String) : Json := (state.get? key).getD emptyObject

def fieldsOf : Json → Fields
  | .obj fields => fields
  | _ => []

theorem get?_fieldsOf (value : Json) (name : String) :
    (fieldsOf value).lookup name = value.get? name := by
  cases value <;> rfl

/-- `Object.fromEntries` of experiments by id. -/
def byId (experiments : List Json) : Fields :=
  experiments.foldl (fun fields experiment =>
    setField (propertyKey (experiment.get? "id")) experiment fields) []

/-- The names of a list, each set to true. -/
def nameSet (names : List Json) : Json :=
  .obj (names.foldl (fun fields name => setField (propertyKey (some name)) (.bool true) fields) [])

/-- `catalog.persistLogs` turned into an object of names. -/
def catalogByName (catalog : Json) : Json :=
  .obj (deleteField "persistLogs"
    (setField "persistLogsByName" (nameSet (items (catalog.get? "persistLogs")))
      (fieldsOf catalog)))

/-- `Object.keys(catalog.persistLogsByName).sort()`. -/
def persistLogNames (catalog : Json) : Json :=
  .arr (((child catalog "persistLogsByName").keys.insertionSort utf16Le).map .str)

/-- The catalog with its names as a sorted list again. -/
def catalogWithList (catalog : Json) : Json :=
  .obj (deleteField "persistLogsByName"
    (setField "persistLogs" (persistLogNames catalog) (fieldsOf catalog)))

/-- `normalize`. -/
def normalize (stored : StoredProject) : Json :=
  .obj [("values", stored.values), ("keyRoles", stored.keyRoles), ("keyRules", stored.keyRules),
    ("experimentsById", .obj (byId stored.experiments)),
    ("catalog", catalogByName (.obj (setField "inspectEvents"
      (.arr (items (stored.catalog.get? "inspectEvents"))) (fieldsOf stored.catalog))))]

def experimentsById (state : Json) : Fields := fieldsOf (child state "experimentsById")

/-- `denormalize`, as the row of a version. -/
def denormalize (version : ℕ) (state : Json) : StoredProject where
  version := version
  values := child state "values"
  keyRoles := child state "keyRoles"
  keyRules := child state "keyRules"
  experiments := (experimentsById state).map Prod.snd
  catalog := catalogWithList (child state "catalog")

/-- `materialize`. -/
def materialize (state : Json) : Snapshot × Json :=
  ({ values := child state "values"
     keyRoles := child state "keyRoles"
     keyRules := child state "keyRules"
     experiments := (experimentsById state).map Prod.snd },
   catalogWithList (child state "catalog"))

/-! ## Constraints -/

def constraintTypes : List String :=
  ["string", "number", "integer", "boolean", "object", "array", "null"]

def constraintKeys : List String := ["type", "min", "max", "enum"]

def matchesType (value : Json) (type : String) : Bool :=
  match type, value with
  | "null", .null => true
  | "array", .arr _ => true
  | "object", .obj _ => true
  | "integer", .num q => q.den = 1
  | "number", .num _ => true
  | "string", .str _ => true
  | "boolean", .bool _ => true
  | _, _ => false

/-- A bound holds of a value that is a number. -/
def within (compare : ℚ → ℚ → Bool) (value : Json) (bound : Option Json) : Bool :=
  match number? (some value), number? bound with
  | some q, some b => compare q b
  | _, _ => true

/-- `validateValue`. -/
def validateValue (js : Js) (value constraint : Json) (label : String) : Except String Unit := do
  let type := propertyKey (constraint.get? "type")
  require (matchesType value type) (label ++ " must have type " ++ type)
  require (within (fun q b => b ≤ q) value (constraint.get? "min"))
    (label ++ " must be >= " ++ ((constraint.get? "min").getD .null).stringify js)
  require (within (fun q b => q ≤ b) value (constraint.get? "max"))
    (label ++ " must be <= " ++ ((constraint.get? "max").getD .null).stringify js)
  require ((constraint.get? "enum").isNone || decide (value ∈ items (constraint.get? "enum")))
    (label ++ " must be an allowed enum value")

def assertBound (constraint : Json) (label key : String) : Except String Unit :=
  match constraint.get? key with
  | none => .ok ()
  | some bound => do
      require (constraint.get? "type" = some (.str "number") ||
        constraint.get? "type" = some (.str "integer")) (label ++ "." ++ key ++ " requires a numeric type")
      require (number? (some bound)).isSome (label ++ "." ++ key ++ " must be finite")

def assertRange (constraint : Json) (label : String) : Except String Unit :=
  match number? (constraint.get? "min"), number? (constraint.get? "max") with
  | some lo, some hi => do
      require (lo ≤ hi) (label ++ ".min must be <= max")
      require (constraint.get? "type" ≠ some (.str "integer") || ⌈lo⌉ ≤ ⌊hi⌋)
        (label ++ " range must contain an integer")
  | _, _ => .ok ()

def assertEnum (js : Js) (constraint : Json) (label : String) : Except String Unit :=
  match constraint.get? "enum" with
  | none => .ok ()
  | some values => do
      require (constraint.get? "type" ≠ some (.str "object") &&
        constraint.get? "type" ≠ some (.str "array")) (label ++ ".enum requires a scalar type")
      require (items (some values) ≠ []) (label ++ ".enum must be a non-empty array")
      require (decide (items (some values)).Nodup) (label ++ ".enum must contain unique values")
      checkAll (fun value => validateValue js value constraint (label ++ ".enum item"))
        (items (some values))

/-- `validateConfigConstraint`. -/
def validateConfigConstraint (js : Js) (constraint : Json) (label : String) :
    Except String Unit := do
  require constraint.isObject (label ++ " must be an object")
  checkKeys constraintKeys label constraint
  require ((text? (constraint.get? "type")).any fun type => type ∈ constraintTypes)
    (label ++ ".type must be one of " ++ ", ".intercalate constraintTypes)
  assertBound constraint label "min"
  assertBound constraint label "max"
  assertRange constraint label
  assertEnum js constraint label

/-- Every place a constrained key has a value in. -/
def constrainedValues (snapshot : Snapshot) (label key : String) : List (Json × String) :=
  ((snapshot.values.get? key).toList.map fun value => (value, label ++ ".values." ++ key)) ++
  ((items (snapshot.keyRules.get? key)).map fun rule =>
    (child rule "value", label ++ ".keyRules." ++ key ++ ".value")) ++
  snapshot.experiments.flatMap fun experiment =>
    (items (experiment.get? "variants")).flatMap fun variant =>
      ((child variant "values").get? key).toList.map fun value =>
        (value, label ++ ".experiments." ++ propertyKey (experiment.get? "id") ++ ".variants." ++
          propertyKey (variant.get? "key") ++ ".values." ++ key)

def checkSignal (js : Js) (snapshot : Snapshot) (label : String) (signal : String × Json) :
    Except String Unit :=
  match signal.2.get? "constraint" with
  | none => .ok ()
  | some constraint => do
      validateConfigConstraint js constraint (label ++ ".catalog.signals." ++ signal.1 ++ ".constraint")
      checkAll (fun entry => validateValue js entry.1 constraint entry.2)
        (constrainedValues snapshot label signal.1)

/-- `validateConfigConstraints`. -/
def validateConfigConstraints (js : Js) (snapshot : Snapshot) (catalog : Json) (label : String) :
    Except String Unit :=
  checkAll (checkSignal js snapshot label) (fieldsOf (child catalog "signals"))

/-! ## Rules -/

def clientFields : List String := ["role", "appVersion", "environment", "platform", "os"]

def operators : List String := ["eq", "in", "gt", "gte", "lt", "lte"]

def scalar : Json → Bool
  | .str _ | .bool _ | .num _ => true
  | _ => false

/-- An object with exactly the given keys. -/
def assertShape (value : Json) (names : List String) (label : String) : Except String Unit := do
  require value.isObject (label ++ " must be an object")
  checkKeys names label value
  checkAll (fun key => require (value.get? key).isSome (label ++ "." ++ key ++ " is required")) names

def clientFieldNamed (field : Option Json) : Bool :=
  (text? field).any fun name =>
    decide (name ∈ clientFields) || ("attributes.".isPrefixOf name && name ≠ "attributes.")

def checkCondition (label : String) (condition : Json) : Except String Unit := do
  assertShape condition ["field", "op", "value"] (label ++ ".when")
  require (clientFieldNamed (condition.get? "field"))
    (label ++ " field must be client metadata or attributes.<name>")
  let op := propertyKey (condition.get? "op")
  require (op ∈ operators) (label ++ " unknown operator: " ++ op)
  let value := condition.get? "value"
  if op = "in" then
    require (items value ≠ [] && (items value).all scalar)
      (label ++ " in requires a non-empty scalar array")
  else if op = "eq" then require (value.any scalar) (label ++ " eq requires a scalar value")
  else require (number? value).isSome (label ++ " " ++ op ++ " requires a finite number")

def checkRule (label : String) (rule : Json) : Except String Unit := do
  assertShape rule ["when", "value"] label
  require (items (rule.get? "when") ≠ []) (label ++ ".when must be a non-empty array")
  checkAll (checkCondition label) (items (rule.get? "when"))

def checkKeyRules (values : Json) (entry : String × Json) : Except String Unit := do
  let label := "config snapshot.keyRules." ++ entry.1
  require (values.get? entry.1).isSome (label ++ " references an unknown config key")
  match entry.2 with
  | .arr rules => checkAll (checkRule label) rules
  | _ => .error (label ++ " must be an array")

/-- `validateConfigRules`. -/
def validateConfigRules (values keyRules : Json) : Except String Unit := do
  require keyRules.isObject "config snapshot.keyRules must be an object"
  checkAll (checkKeyRules values) (fieldsOf keyRules)

/-! ## Snapshots -/

/-- `validateKeyRoles`. -/
def validateKeyRoles (values keyRoles : Json) (label : String) : Except String Unit := do
  require keyRoles.isObject (label ++ ".keyRoles must be an object")
  require (values.keys.length = keyRoles.keys.length)
    (label ++ ".keyRoles must list every config key")
  checkAll (fun key => do
    require (keyRoles.get? key).isSome (label ++ ".keyRoles missing " ++ key)
    assertRoles (keyRoles.get? key) (label ++ ".keyRoles." ++ key)) values.keys
  checkAll (fun key => require (values.get? key).isSome (label ++ ".keyRoles extra key " ++ key))
    keyRoles.keys

/-- `validateConfigSnapshot`. -/
def validateConfigSnapshot (snapshot : Snapshot) : Except String Unit := do
  require snapshot.values.isObject "config values must be an object"
  validateKeyRoles snapshot.values snapshot.keyRoles "config snapshot"
  validateConfigRules snapshot.values snapshot.keyRules
  checkAll validateExperiment snapshot.experiments
  assertUnambiguousGoalMetrics snapshot.experiments

/-! ## Catalogs -/

/-- An optional text field that must not be empty. -/
def assertOptionalText (row : Json) (label field : String) : Except String Unit :=
  require ((row.get? field).isNone || nonEmptyText (row.get? field))
    (label ++ "." ++ field ++ " must be a non-empty string")

/-- `validateRoleEntry`. -/
def validateRoleEntry (row : Json) (label : String) : Except String Unit := do
  require row.isObject (label ++ " must be an object")
  checkKeys ["description", "path", "git"] label row
  require ((row.get? "description").all fun text => (text? (some text)).isSome)
    (label ++ ".description must be a string")
  assertOptionalText row label "path"
  assertOptionalText row label "git"

/-- `validateSignalEntry`. -/
def validateSignalEntry (js : Js) (row : Json) (label : String) : Except String Unit := do
  require row.isObject (label ++ " must be an object")
  checkKeys ["description", "category", "constraint"] label row
  require (nonEmptyText (row.get? "description"))
    (label ++ ".description must be a non-empty string")
  assertOptionalText row label "category"
  match row.get? "constraint" with
  | none => pure ()
  | some constraint => validateConfigConstraint js constraint (label ++ ".constraint")

def validateNames (label : String) : ℕ → List String → List Json → Except String Unit
  | _, _, [] => .ok ()
  | index, seen, name :: rest => do
      require (nonEmptyText (some name))
        (label ++ "[" ++ toString index ++ "] must be a non-empty string")
      require (propertyKey (some name) ∉ seen)
        (label ++ " duplicate name: " ++ propertyKey (some name))
      validateNames label (index + 1) (propertyKey (some name) :: seen) rest

/-- `validateNameList`. -/
def validateNameList (value : Json) (label : String) : Except String Unit :=
  match value with
  | .arr names => validateNames label 0 [] names
  | _ => .error (label ++ " must be an array")

/-- An optional object whose entries pass a check. -/
def checkEntries (catalog : Json) (label field : String) (check : String × Json → Except String Unit) :
    Except String Unit :=
  match catalog.get? field with
  | none => .ok ()
  | some (.obj fields) => checkAll check fields
  | some _ => .error (label ++ "." ++ field ++ " must be an object")

def checkHypothesis (label : String) (entry : String × Json) : Except String Unit := do
  require (entry.1 ≠ "") (label ++ ".experiments keys must be non-empty strings")
  require entry.2.isObject (label ++ ".experiments." ++ entry.1 ++ " must be an object")
  require (nonEmptyText (entry.2.get? "hypothesis"))
    (label ++ ".experiments." ++ entry.1 ++ ".hypothesis must be a non-empty string")

/-- `validateCatalog`. -/
def validateCatalog (js : Js) (catalog : Json) (label : String) : Except String Unit := do
  require catalog.isObject (label ++ " must be an object")
  checkKeys ["description", "roles", "signals", "experiments", "inspectEvents", "persistLogs"]
    label catalog
  require ((catalog.get? "description").all fun text => (text? (some text)).isSome)
    (label ++ ".description must be a string")
  checkEntries catalog label "roles" fun entry => do
    assertRole entry.1 (label ++ ".roles key")
    validateRoleEntry entry.2 (label ++ ".roles." ++ entry.1)
  checkEntries catalog label "signals" fun entry => do
    require (entry.1 ≠ "") (label ++ ".signals keys must be non-empty strings")
    validateSignalEntry js entry.2 (label ++ ".signals." ++ entry.1)
  match catalog.get? "inspectEvents" with
  | none => pure ()
  | some names => validateNameList names (label ++ ".inspectEvents")
  match catalog.get? "persistLogs" with
  | none => pure ()
  | some names => validateNameList names (label ++ ".persistLogs")
  checkEntries catalog label "experiments" (checkHypothesis label)

/-- `validateProjectState`. -/
def validateProjectState (js : Js) (candidate : Snapshot × Json) (label catalogLabel : String) :
    Except String Unit := do
  validateConfigSnapshot candidate.1
  validateCatalog js candidate.2 catalogLabel
  validateConfigConstraints js candidate.1 candidate.2 label

/-- `applyChange` of the journal: run the change and check the result. -/
def applyChange (js : Js) (state : Json) (change : Change) : Except String Json := do
  let next ← applyControlStateChange state change
  validateProjectState js (materialize next) "config snapshot" "catalog"
  pure next

end Wardx.Control
