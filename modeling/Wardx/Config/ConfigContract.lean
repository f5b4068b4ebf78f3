import Wardx.Control.Published
import Wardx.Core.ExperimentResolver

/-!
# Served values keep their contract

A catalog signal may constrain the config key of its name: a type, inclusive
bounds, allowed values. Every change of a project is checked against the
catalog it leaves, so every stored row is in contract, and what is served
mirrors a row. A client finds the value of a key in three places: the values,
the rules on them, and the variants of the experiments it sees. Each is a copy
of a place the check looked at.
-/
namespace Wardx.Config

open Lib Json Control Wardx.Core ControlService

/-! ## Constraints -/

/-- A value is what a constraint allows. -/
structure Satisfies (constraint value : Json) : Prop where
  type : ∃ type, constraint.get? "type" = some (.str type) ∧ matchesType value type = true
  min : ∀ bound, constraint.get? "min" = some bound →
    ∃ lo q, bound = .num lo ∧ value = .num q ∧ lo ≤ q
  max : ∀ bound, constraint.get? "max" = some bound →
    ∃ hi q, bound = .num hi ∧ value = .num q ∧ q ≤ hi
  enum : ∀ allowed, constraint.get? "enum" = some allowed → value ∈ items (some allowed)

theorem num_of_matchesType {value : Json} {type : String} (h : matchesType value type = true)
    (htype : type = "number" ∨ type = "integer") : ∃ q, value = .num q := by
  rcases htype with rfl | rfl
  · cases value <;> simp [matchesType] at h ⊢
  · cases value <;> simp [matchesType] at h ⊢

theorem num_of_number? {value : Json} (h : (number? (some value)).isSome = true) :
    ∃ q, value = .num q := by
  cases value <;> simp [number?] at h ⊢

/-- A bound of a checked constraint is a number, on a numeric type. -/
theorem numeric_of_bound {constraint bound : Json} {label key : String}
    (h : assertBound constraint label key = .ok ()) (hbound : constraint.get? key = some bound) :
    (∃ b, bound = .num b) ∧ (constraint.get? "type" = some (.str "number") ∨
      constraint.get? "type" = some (.str "integer")) := by
  unfold assertBound at h
  rw [hbound] at h
  simp only [bind_eq_ok_iff, require_eq_ok_iff, exists_const, Bool.or_eq_true,
    decide_eq_true_eq] at h
  exact ⟨num_of_number? h.2, h.1⟩

theorem type_of_text {constraint : Json} {p : String → Bool}
    (h : (text? (constraint.get? "type")).any p = true) :
    ∃ type, constraint.get? "type" = some (.str type) := by
  cases hfield : constraint.get? "type" with
  | none =>
      rw [hfield] at h
      cases h
  | some value =>
      rw [hfield] at h
      cases value with
      | str type => exact ⟨type, rfl⟩
      | _ => cases h

/-- A checked value satisfies a checked constraint. -/
theorem satisfies_of_ok {js : Js} {constraint value : Json} {label valueLabel : String}
    (hconstraint : validateConfigConstraint js constraint label = .ok ())
    (hvalue : validateValue js value constraint valueLabel = .ok ()) :
    Satisfies constraint value := by
  unfold validateConfigConstraint at hconstraint
  simp only [bind_eq_ok_iff, require_eq_ok_iff, exists_const] at hconstraint
  obtain ⟨_, _, _, htype, ⟨⟩, hmin, ⟨⟩, hmax, _⟩ := hconstraint
  obtain ⟨type, htype⟩ := type_of_text htype
  unfold validateValue at hvalue
  simp only [bind_eq_ok_iff, require_eq_ok_iff, exists_const, Bool.or_eq_true,
    decide_eq_true_eq] at hvalue
  obtain ⟨hmatches, hlo, hhi, henum⟩ := hvalue
  rw [htype] at hmatches
  -- A bound is only there on a numeric type, whose values are numbers.
  have hnumber : (constraint.get? "type" = some (.str "number") ∨
      constraint.get? "type" = some (.str "integer")) → ∃ q, value = .num q := by
    intro hnumeric
    rw [htype] at hnumeric
    refine num_of_matchesType hmatches ?_
    rcases hnumeric with h | h
    · exact Or.inl (Json.str.inj (Option.some.inj h))
    · exact Or.inr (Json.str.inj (Option.some.inj h))
  refine ⟨⟨type, htype, hmatches⟩, ?_, ?_, ?_⟩
  · intro bound hbound
    obtain ⟨⟨lo, rfl⟩, hnumeric⟩ := numeric_of_bound hmin hbound
    obtain ⟨q, rfl⟩ := hnumber hnumeric
    rw [hbound] at hlo
    exact ⟨lo, q, rfl, rfl, by simpa [within, number?] using hlo⟩
  · intro bound hbound
    obtain ⟨⟨hi, rfl⟩, hnumeric⟩ := numeric_of_bound hmax hbound
    obtain ⟨q, rfl⟩ := hnumber hnumeric
    rw [hbound] at hhi
    exact ⟨hi, q, rfl, rfl, by simpa [within, number?] using hhi⟩
  · intro allowed hallowed
    rw [hallowed] at henum
    rcases henum with hnone | hmem
    · cases hnone
    · exact hmem

/-- The constraint a catalog declares for a key. -/
def constraintOf (catalog : Json) (key : String) : Option Json :=
  ((child catalog "signals").get? key).bind fun signal => signal.get? "constraint"

/-- Every value the check looks at satisfies the key's constraint. -/
theorem satisfies_of_constrained {js : Js} {snapshot : Snapshot} {catalog : Json} {label key : String}
    {constraint : Json} (h : validateConfigConstraints js snapshot catalog label = .ok ())
    (hconstraint : constraintOf catalog key = some constraint) {value : Json}
    {valueLabel : String} (hvalue : (value, valueLabel) ∈ constrainedValues snapshot label key) :
    Satisfies constraint value := by
  obtain ⟨signal, hsignal, hdeclared⟩ := Option.bind_eq_some_iff.mp hconstraint
  unfold validateConfigConstraints at h
  rw [checkAll_eq_ok_iff] at h
  have hchecked := h (key, signal) (mem_of_lookup ((get?_fieldsOf _ key).trans hsignal))
  unfold checkSignal at hchecked
  rw [show (key, signal).2.get? "constraint" = some constraint from hdeclared] at hchecked
  simp only [bind_eq_ok_iff, checkAll_eq_ok_iff] at hchecked
  obtain ⟨⟨⟩, hok, hvalues⟩ := hchecked
  exact satisfies_of_ok hok (hvalues _ hvalue)

/-! ## Rows in contract -/

/-- A row that passes the check of its catalog's constraints. -/
structure InContract (js : Js) (stored : StoredProject) : Prop where
  snapshot : validateConfigSnapshot stored.snapshot = .ok ()
  constraints : ∃ label, validateConfigConstraints js stored.snapshot stored.catalog label = .ok ()

/-- What the journal stores was checked. -/
theorem inContract_appended {js : Js} {capacity : ℕ} {record after : ProjectRecord} {next : Json}
    {entry : Entry} (h : Appended js capacity record after next entry) :
    InContract js after.stored := by
  have hvalid := h.valid
  unfold validateProjectState at hvalid
  simp only [bind_eq_ok_iff] at hvalid
  obtain ⟨⟨⟩, hsnapshot, ⟨⟩, _, hconstraints⟩ := hvalid
  rw [h.stored]
  exact ⟨hsnapshot, _, hconstraints⟩

/-- A rule of a checked snapshot has a value. -/
theorem value_of_rule {snapshot : Snapshot} (h : validateConfigSnapshot snapshot = .ok ())
    {key : String} {rule : Json} (hrule : rule ∈ rulesOf (fieldsOf snapshot.keyRules) key) :
    (rule.get? "value").isSome = true := by
  unfold validateConfigSnapshot validateConfigRules at h
  simp only [bind_eq_ok_iff, checkAll_eq_ok_iff] at h
  obtain ⟨_, _, _, _, _, ⟨_, _, hrules⟩, _⟩ := h
  unfold rulesOf at hrule
  cases hlookup : (fieldsOf snapshot.keyRules).lookup key with
  | none =>
      rw [hlookup] at hrule
      cases hrule
  | some rules =>
      rw [hlookup] at hrule
      have hentry := hrules (key, rules) (mem_of_lookup hlookup)
      unfold checkKeyRules at hentry
      simp only [bind_eq_ok_iff] at hentry
      obtain ⟨_, _, hentry⟩ := hentry
      cases rules with
      | arr list =>
          rw [checkAll_eq_ok_iff] at hentry
          have hshape := hentry rule hrule
          unfold checkRule assertShape at hshape
          simp only [bind_eq_ok_iff, checkAll_eq_ok_iff, require_eq_ok_iff] at hshape
          obtain ⟨_, ⟨_, _, _, _, hkeys⟩, _⟩ := hshape
          exact hkeys "value" (by simp)
      | _ => cases hentry

/-- A visible key resolves to its value in the row, or to that of a rule on it. -/
theorem constrained_of_resolved {snapshot : Snapshot} (h : validateConfigSnapshot snapshot = .ok ())
    (client : Client) (label : String) {key : String} {base : Json}
    (hbase : (fieldsOf snapshot.values).lookup key = some base) :
    ∃ valueLabel, (resolveValue (fieldsOf snapshot.keyRules) client key base, valueLabel) ∈
      constrainedValues snapshot label key := by
  unfold resolveValue
  split
  · rename_i rule hmatch
    have hrule : rule ∈ rulesOf (fieldsOf snapshot.keyRules) key := List.mem_of_find?_eq_some hmatch
    have hvalue : child rule "value" = ruleValue rule := by
      obtain ⟨value, hsome⟩ := Option.isSome_iff_exists.mp (value_of_rule h hrule)
      unfold child ruleValue
      rw [hsome]
      rfl
    refine ⟨label ++ ".keyRules." ++ key ++ ".value", ?_⟩
    unfold rulesOf at hrule
    rw [get?_fieldsOf] at hrule
    apply List.mem_append_left
    apply List.mem_append_right
    exact List.mem_map.mpr ⟨rule, hrule, by rw [hvalue]⟩
  · refine ⟨label ++ ".values." ++ key, ?_⟩
    rw [get?_fieldsOf] at hbase
    apply List.mem_append_left
    apply List.mem_append_left
    rw [hbase]
    exact List.mem_singleton.mpr rfl

/-- A variant's value for a key is looked at under its experiment. -/
theorem constrained_of_variant {snapshot : Snapshot} (label : String) {key : String}
    {experiment variant value : Json} (hexperiment : experiment ∈ snapshot.experiments)
    (hvariant : variant ∈ items (experiment.get? "variants"))
    (hvalue : (child variant "values").get? key = some value) :
    ∃ valueLabel, (value, valueLabel) ∈ constrainedValues snapshot label key := by
  refine ⟨label ++ ".experiments." ++ propertyKey (experiment.get? "id") ++ ".variants." ++
    propertyKey (variant.get? "key") ++ ".values." ++ key, ?_⟩
  apply List.mem_append_right
  apply List.mem_flatMap.mpr
  refine ⟨experiment, hexperiment, List.mem_flatMap.mpr ⟨variant, hvariant, ?_⟩⟩
  rw [hvalue]
  exact List.mem_singleton.mpr rfl

/-! ## Resolved values -/

/-- Where a client's value for a key stands in the row its config mirrors. -/
theorem constrained_of_configGet {wiring : Wiring} {stored : StoredProject} {store : Served}
    (hmirrors : Mirrors stored store) (hvalid : validateConfigSnapshot stored.snapshot = .ok ())
    {client : Client} {key : String} {subjectId : Option String} {value : Json} (label : String)
    (h : configGet (resolvedWire wiring store.snapshot client).config key subjectId =
      .ok (some value)) :
    ∃ valueLabel, (value, valueLabel) ∈ constrainedValues stored.snapshot label key := by
  rcases configGet_source h with hlookup | ⟨experiment, hmem, _, variant, hvariant, hvalue⟩
  · rw [lookup_resolvedWire_values, hmirrors.values, hmirrors.keyRoles, hmirrors.keyRules] at hlookup
    split_ifs at hlookup
    obtain ⟨base, hbase, rfl⟩ := Option.map_eq_some_iff.mp hlookup
    exact constrained_of_resolved hvalid client label hbase
  · obtain ⟨own, hown, _, rfl⟩ := mem_resolvedWire_experiments hmem
    obtain ⟨origin, horigin, rfl⟩ := hmirrors.experiment hown
    unfold variantsOf at hvariant
    rw [items_wireVariants, items_clientVariants, List.map_map] at hvariant
    obtain ⟨first, hfirst, rfl⟩ := List.mem_map.mp hvariant
    have hvalues : child (clientVariant (clientVariant first)) "values" = child first "values" := by
      unfold child
      rw [values_clientVariant, values_clientVariant]
    unfold variantValue at hvalue
    rw [Function.comp_apply, hvalues] at hvalue
    exact constrained_of_variant label horigin hfirst hvalue

/-- After any calls and restarts, whatever a client of a project resolves a key
to satisfies the constraint the project's catalog declares for the key. -/
theorem resolved_in_contract (settings : ControlSettings) (config : CheckedConfig settings)
    (events : List ServiceEvent) (project : String) (store : Served)
    (hstore : (run (serve settings) (boot config.toConfig) events).served.get project = some store)
    (wiring : Wiring) (client : Client) (subjectId : Option String) (key : String)
    (constraint value : Json) (hconstraint : constraintOf store.catalog key = some constraint)
    (hvalue : configGet (resolvedWire wiring store.snapshot client).config key subjectId =
      .ok (some value)) :
    Satisfies constraint value := by
  have hrows := rowsServed_run settings (P := InContract settings.js)
    (fun _ _ _ _ _ happended => inContract_appended happended) config.toConfig
    (fun project stored hstored => ⟨config.valid project stored hstored, _,
      config.constraints project stored hstored⟩) events
  obtain ⟨record, hrecord, hmirrors⟩ := hrows.mirrored project store hstore
  obtain ⟨hvalid, label, hconstraints⟩ := hrows.rows project record hrecord
  have hdeclared : constraintOf record.stored.catalog key = some constraint := by
    unfold constraintOf at hconstraint ⊢
    rw [← hmirrors.signals]
    exact hconstraint
  obtain ⟨valueLabel, hlooked⟩ := constrained_of_configGet hmirrors hvalid label hvalue
  exact satisfies_of_constrained hconstraints hdeclared hlooked

/-! ## A constrained key -/

/-- The key `color` must be one of the two texts its experiment serves. -/
def constrainedProject : StoredProject :=
  { sampleProject [sampleExperiment "exp" true 1 ["a", "b"]] with
    catalog := .obj [("description", .str ""), ("roles", .obj []),
      ("signals", .obj [("color", .obj [("description", .str "the color"),
        ("constraint", .obj [("type", .str "string"), ("enum", .arr [.str "a", .str "b"])])])]),
      ("experiments", .obj []), ("inspectEvents", .arr []), ("persistLogs", .arr [])] }

def constrainedConfig : CheckedConfig sampleSettings where
  toConfig := configOf constrainedProject (by decide +kernel)
  constraints := by
    intro project stored hstored
    change (Table.empty.put "shop" constrainedProject).get project = some stored at hstored
    rw [Table.get_put] at hstored
    split_ifs at hstored with hproject
    · cases hstored
      rw [hproject]
      decide +kernel
    · cases hstored
  reserved := by decide +kernel

/-- A client of the role `web` with no attributes. -/
def webClient : Client where
  instanceId := "instance"
  sessionId := "session"
  role := "web"
  appVersion := "1.0.0"
  environment := "production"
  platform := "browser"
  os := none
  attributes := none

/-- After a change of the base value and a restart, subject `u` resolves the key
to its variant's value. -/
theorem resolved_in_contract_constrained :
    ∃ value, Satisfies
      (.obj [("type", .str "string"), ("enum", .arr [.str "a", .str "b"])]) value := by
  let events : List ServiceEvent :=
    [.call (.setValue "shop" "color" (.str "b") (.arr [.str "*"]) none (requestAt 1 "c1")), .restart]
  let wiring : Wiring := ⟨Js.plain, id⟩
  have hstore : ((run (serve sampleSettings) (boot constrainedConfig.toConfig) events).served.get
      "shop").isSome = true := by decide +kernel
  obtain ⟨store, hstore⟩ := Option.isSome_iff_exists.mp hstore
  have hserved : (((run (serve sampleSettings) (boot constrainedConfig.toConfig) events).served.get
      "shop").map fun store => (store.version, constraintOf store.catalog "color",
        configGet (resolvedWire wiring store.snapshot webClient).config "color" (some "u"))) =
      some (2, some (.obj [("type", .str "string"), ("enum", .arr [.str "a", .str "b"])]),
        .ok (some (.str "b"))) := by decide +kernel
  rw [hstore, Option.map_some, Option.some.injEq, Prod.mk.injEq, Prod.mk.injEq] at hserved
  exact ⟨.str "b", resolved_in_contract sampleSettings constrainedConfig events "shop" store hstore
    wiring webClient (some "u") "color" _ _ hserved.2.1 hserved.2.2⟩

end Wardx.Config
