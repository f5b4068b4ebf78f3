import Wardx.Control.ProjectState
import Wardx.Ingest.Envelope

/-!
# Config rules

A key may carry an ordered list of rules, each with conditions on the client
and a value. The first rule all of whose conditions match gives the key's
value, else the base does.
-/
namespace Wardx.Config

open Lib Json Control

/-- A field of the client under its own name; attributes are read apart. -/
def clientField (client : Client) (name : String) : Option Json :=
  match name with
  | "instanceId" => some (.str client.instanceId)
  | "sessionId" => some (.str client.sessionId)
  | "role" => some (.str client.role)
  | "appVersion" => some (.str client.appVersion)
  | "environment" => some (.str client.environment)
  | "platform" => some (.str client.platform)
  | "os" => client.os.map .str
  | "attributes" => client.attributes.map .obj
  | _ => none

def attributePrefix : String := "attributes."

/-- What a condition's field reads of the client. -/
def clientValue (client : Client) (field : String) : Option Json :=
  if attributePrefix.isPrefixOf field then
    client.attributes.bind fun fields =>
      fields.lookup (String.ofList (field.toList.drop attributePrefix.length))
  else clientField client field

/-- A comparison of two numbers. -/
def compareNumbers (compare : ℚ → ℚ → Bool) (actual : Json) (value : Option Json) : Bool :=
  match number? (some actual), number? value with
  | some a, some b => compare a b
  | _, _ => false

/-- `matches`. -/
def matchesCondition (client : Client) (condition : Json) : Bool :=
  match clientValue client (propertyKey (condition.get? "field")) with
  | none => false
  | some actual =>
      let value := condition.get? "value"
      if scalar actual then
        match propertyKey (condition.get? "op") with
        | "eq" => some actual = value
        | "in" => actual ∈ items value
        | "gt" => compareNumbers (fun a b => b < a) actual value
        | "gte" => compareNumbers (fun a b => b ≤ a) actual value
        | "lt" => compareNumbers (fun a b => a < b) actual value
        | _ => compareNumbers (fun a b => a ≤ b) actual value
      else false

/-- The first rule all of whose conditions match. -/
def matchingRule (rules : List Json) (client : Client) : Option Json :=
  rules.find? fun candidate =>
    (items (candidate.get? "when")).all fun condition => matchesCondition client condition

def ruleValue (rule : Json) : Json := (rule.get? "value").getD .null

def rulesOf (keyRules : Fields) (key : String) : List Json := items (keyRules.lookup key)

/-- The value of one key. -/
def resolveValue (keyRules : Fields) (client : Client) (key : String) (base : Json) : Json :=
  match matchingRule (rulesOf keyRules key) client with
  | some rule => ruleValue rule
  | none => base

/-- `resolveConfigRules`. -/
def resolveConfigRules (values keyRules : Fields) (client : Client) : Fields :=
  values.map fun entry => (entry.1, resolveValue keyRules client entry.1 entry.2)

/-- A value that `===` compares by its content. -/
def isPrimitive : Json → Bool
  | .arr _ | .obj _ => false
  | _ => true

/-- The resolved value when it is not identical to the base: an unmatched key
resolves to the base itself, and no object of a rule is the base's object. -/
def override (keyRules : Fields) (client : Client) (key : String) (base : Json) : Option Json :=
  match matchingRule (rulesOf keyRules key) client with
  | none => none
  | some rule =>
      if isPrimitive (ruleValue rule) && decide (ruleValue rule = base) then none
      else some (ruleValue rule)

theorem resolveValue_eq (keyRules : Fields) (client : Client) (key : String) (base : Json) :
    resolveValue keyRules client key base = (override keyRules client key base).getD base := by
  unfold resolveValue override
  cases matchingRule (rulesOf keyRules key) client with
  | none => rfl
  | some rule =>
      dsimp only
      split_ifs with h
      · rw [Bool.and_eq_true, decide_eq_true_eq] at h
        exact h.2
      · rfl

/-- A key without rules resolves to its base. -/
theorem resolveValue_of_no_rules {keyRules : Fields} {key : String} (client : Client) (base : Json)
    (h : rulesOf keyRules key = []) : resolveValue keyRules client key base = base := by
  unfold resolveValue
  rw [h]
  rfl

end Wardx.Config
