import Wardx.Core.ExperimentResolver
import Wardx.Config.ConfigSync

/-!
# What the client remembers of its subjects

For each subject, by hash, the resolver keeps the assignments it made, under
the experiment's id, with a fingerprint of the definition. It keeps the newest
subjects only. An applied snapshot drops every assignment whose definition is
not the one of an enabled experiment any more.

Fingerprints are digests of the JSON text of a definition with its keys sorted.
Texts are equal exactly when the values are, so the digest is one of the value.
An event counts as emitted when the core hands it to its buffer, which may be
full.
-/
namespace Wardx.Core

open Lib Json Control Config

/-! ## Fingerprints -/

/-- The fields in the order of their sorted keys. -/
def sortFields (fields : Fields) : Fields :=
  ((fields.map Prod.fst).insertionSort utf16Le).foldl (fun sorted key =>
    match fields.lookup key with
    | some value => setField key value sorted
    | none => sorted) []

mutual
/-- `canonicalize`. -/
def canonicalize : Json → Json
  | .arr values => .arr (canonicalizeItems values)
  | .obj fields => .obj (sortFields (canonicalizeFields fields))
  | value => value

def canonicalizeItems : List Json → List Json
  | [] => []
  | value :: rest => canonicalize value :: canonicalizeItems rest

def canonicalizeFields : List (String × Json) → List (String × Json)
  | [] => []
  | (key, value) :: rest => (key, canonicalize value) :: canonicalizeFields rest
end

/-- The digests the client takes: of its subjects, under its salt, and of
definitions. The package that computes them is outside the sources. -/
structure Hashes where
  subjectHash : String → String
  snapshotHash : Json → String

/-- `experimentFingerprint`. -/
def experimentFingerprint (hashes : Hashes) (experiment : Json) : String :=
  hashes.snapshotHash (canonicalize experiment)

/-! ## Assignments -/

structure Assignment where
  experiment : String
  variant : String
  goalMetric : Option Json
  fingerprint : String
  exposed : Bool
deriving DecidableEq, Repr

abbrev SubjectState := Table String Assignment

abbrev SubjectStates := Table String SubjectState

/-- The `while` loop of `recordAssignment`: without the oldest subjects there is
room for one more. -/
def evictOldest (stateMaxSubjects : ℕ) (states : SubjectStates) : SubjectStates where
  entries := states.entries.drop (states.size + 1 - stateMaxSubjects)
  nodup := states.nodup.sublist ((List.drop_sublist _ _).map Prod.fst)

def idOf (experiment : Json) : String := propertyKey (experiment.get? "id")

def keyOf (variant : Json) : String := propertyKey (variant.get? "key")

def newAssignment (hashes : Hashes) (experiment variant : Json) : Assignment where
  experiment := idOf experiment
  variant := keyOf variant
  goalMetric := experiment.get? "goalMetric"
  fingerprint := experimentFingerprint hashes experiment
  exposed := false

/-- `recordAssignment`. -/
def recordAssignment (hashes : Hashes) (stateMaxSubjects : ℕ) (subjectId : String)
    (experiment variant : Json) (states : SubjectStates) : Assignment × SubjectStates :=
  let subject := hashes.subjectHash subjectId
  let (state, kept) := match states.get subject with
    | some state => (state, states)
    | none => (Table.empty, evictOldest stateMaxSubjects states)
  match state.get (idOf experiment) with
  | some assignment => (assignment, kept)
  | none =>
      let assignment := newAssignment hashes experiment variant
      (assignment, kept.put subject (state.put (idOf experiment) assignment))

/-- `assignmentsFor`. -/
def assignmentsFor (hashes : Hashes) (subjectId : String) (states : SubjectStates) :
    List Assignment :=
  match states.get (hashes.subjectHash subjectId) with
  | some state => state.values
  | none => []

/-- The payload of an `experiment.exposure` event. -/
structure Exposure where
  experiment : String
  variant : String
  subject : String
deriving DecidableEq, Repr

/-- `_expose`; the assignment is the one in the subject's state. -/
def expose (hashes : Hashes) (assignment : Assignment) (subjectId : String)
    (states : SubjectStates) : List Exposure × SubjectStates :=
  let subject := hashes.subjectHash subjectId
  if assignment.exposed then ([], states)
  else
    let state := (states.get subject).getD Table.empty
    ([⟨assignment.experiment, assignment.variant, subject⟩],
      states.put subject (state.put assignment.experiment { assignment with exposed := true }))

/-- `exposedAssignmentForGoal`. -/
def exposedAssignmentForGoal (hashes : Hashes) (subjectId goalMetric : String)
    (states : SubjectStates) : Except String (Option Assignment) :=
  let found := (assignmentsFor hashes subjectId states).filter fun assignment =>
    assignment.exposed && decide (assignment.goalMetric = some (.str goalMetric))
  if 1 < found.length then
    .error ("goal metric " ++ goalMetric ++ " matches multiple exposed experiments")
  else .ok found.head?

/-- The fingerprints of the enabled experiments. -/
def activeFingerprints (hashes : Hashes) (experiments : List Json) : Table String String :=
  experiments.foldl (fun active experiment =>
    if truthy (experiment.get? "enabled") then
      active.put (idOf experiment) (experimentFingerprint hashes experiment)
    else active) Table.empty

/-- `applySnapshot` of the resolver. -/
def applySnapshot (hashes : Hashes) (experiments : List Json) (states : SubjectStates) :
    SubjectStates :=
  let active := activeFingerprints hashes experiments
  (states.mapValues fun _ state => state.filter fun id assignment =>
    decide (active.get id = some assignment.fingerprint)).filter fun _ state => state.size ≠ 0

/-! ## The core -/

/-- What the core keeps for config and experiments. -/
structure ClientCore where
  config : CoreConfig
  stateBySubject : SubjectStates
  subjectId : Option String

def ClientCore.initial : ClientCore := ⟨CoreConfig.initial, Table.empty, none⟩

/-- The payload of an `experiment.goal` event, with its one experiment. -/
structure Goal where
  metric : String
  subject : String
  experiment : String
  variant : String
  value : Option Json
deriving DecidableEq, Repr

inductive ClientEvent
  | exposure (payload : Exposure)
  | goal (payload : Goal)
deriving DecidableEq, Repr

structure ClientSettings where
  hashes : Hashes
  experimentStateMaxSubjects : ℕ
  max_pos : 1 ≤ experimentStateMaxSubjects

/-- The loop of `resolve`: the first experiment whose variant carries the key. -/
def served (key subjectId : String) : List Json → Except String (Option (Json × Json × Json))
  | [] => .ok none
  | experiment :: rest => do
      let variant ← assignVariant experiment subjectId
      match variant.bind fun variant => (variantValue variant key).map (variant, ·) with
      | some (variant, value) => pure (some (experiment, variant, value))
      | none => served key subjectId rest

/-- `_subjectIdFrom`. -/
def ClientCore.subjectFrom (core : ClientCore) (context : Option String) : Option String :=
  context.or core.subjectId

namespace ClientCore

variable (settings : ClientSettings)

/-- `configGet` with its exposures; `none` is the caller's fallback. -/
def configGet (key : String) (context : Option String) (core : ClientCore) :
    Except String (Option Json) × List ClientEvent × ClientCore :=
  match core.config.values.lookup key with
  | none => (.ok none, [], core)
  | some remote =>
      match core.subjectFrom context with
      | none => (.ok (some remote), [], core)
      | some subjectId =>
          match served key subjectId (experimentsByKey core.config.experiments key) with
          | .error e => (.error e, [], core)
          | .ok none => (.ok (some remote), [], core)
          | .ok (some (experiment, variant, value)) =>
              let (assignment, recorded) := recordAssignment settings.hashes
                settings.experimentStateMaxSubjects subjectId experiment variant core.stateBySubject
              let (exposures, states) := expose settings.hashes assignment subjectId recorded
              (.ok (some value), exposures.map .exposure, { core with stateBySubject := states })

/-- `experimentGoal`. -/
def experimentGoal (name : String) (context : Option String) (value : Option Json)
    (core : ClientCore) : Except String Unit × List ClientEvent :=
  match core.subjectFrom context with
  | none => (.error "experiment.goal requires subjectId", [])
  | some subjectId =>
      if name = "" then (.error "experiment.goal requires a metric name", [])
      else
        match exposedAssignmentForGoal settings.hashes subjectId name core.stateBySubject with
        | .error e => (.error e, [])
        | .ok none => (.ok (), [])
        | .ok (some assignment) =>
            (.ok (), [.goal ⟨name, settings.hashes.subjectHash subjectId, assignment.experiment,
              assignment.variant, value⟩])

/-- `identify`. -/
def identify (subjectId : Option String) (core : ClientCore) : Except String Unit × ClientCore :=
  if subjectId = some "" then (.error "identify requires a non-empty subjectId", core)
  else (.ok (), { core with subjectId := subjectId })

/-- `applyConfig`. -/
def applyConfig (version : ℕ) (config : WireConfig) (core : ClientCore) :
    Except String Unit × ClientCore :=
  match Config.applyConfig version config core.config with
  | .error e => (.error e, core)
  | .ok applied =>
      (.ok (), { core with
        config := applied
        stateBySubject := applySnapshot settings.hashes applied.experiments core.stateBySubject })

end ClientCore

inductive CoreCall
  | applyConfig (version : ℕ) (config : WireConfig)
  | configGet (key : String) (context : Option String)
  | identify (subjectId : Option String)
  | experimentGoal (name : String) (context : Option String) (value : Option Json)

/-- The events of a call. -/
def emitted (settings : ClientSettings) (core : ClientCore) : CoreCall → List ClientEvent
  | .applyConfig _ _ => []
  | .configGet key context => (core.configGet settings key context).2.1
  | .identify _ => []
  | .experimentGoal name context value => (core.experimentGoal settings name context value).2

/-- The core after a call. -/
def afterCall (settings : ClientSettings) (call : CoreCall) (core : ClientCore) : ClientCore :=
  match call with
  | .applyConfig version config => (core.applyConfig settings version config).2
  | .configGet key context => (core.configGet settings key context).2.2
  | .identify subjectId => (core.identify subjectId).2
  | .experimentGoal _ _ _ => core

/-- The core after a list of calls on a new one. -/
def coreAfter (settings : ClientSettings) (calls : List CoreCall) : ClientCore :=
  run (afterCall settings) ClientCore.initial calls

/-! ## Canonical values -/

theorem lookup_sortFields (fields : Fields) (key : String) :
    (sortFields fields).lookup key = fields.lookup key := by
  have hfold : ∀ (keys : List String) (sorted : Fields), (∀ k ∈ keys, k ∈ fields.map Prod.fst) →
      (keys.foldl (fun sorted key =>
        match fields.lookup key with
        | some value => setField key value sorted
        | none => sorted) sorted).lookup key =
          if key ∈ keys then fields.lookup key else sorted.lookup key := by
    intro keys
    induction keys with
    | nil => exact fun _ _ => rfl
    | cons k keys ih =>
        intro sorted hkeys
        rw [List.forall_mem_cons] at hkeys
        obtain ⟨value, hvalue⟩ := Option.isSome_iff_exists.mp ((isSome_lookup k fields).mpr hkeys.1)
        rw [List.foldl_cons, ih _ hkeys.2, hvalue]
        simp only [lookup_setField]
        by_cases hrest : key ∈ keys
        · rw [if_pos hrest, if_pos (List.mem_cons_of_mem k hrest)]
        · by_cases hk : key = k
          · rw [if_neg hrest, if_pos hk, if_pos (hk ▸ List.mem_cons_self), hk, hvalue]
          · rw [if_neg hrest, if_neg hk,
              if_neg fun hmem => (List.mem_cons.mp hmem).elim hk hrest]
  unfold sortFields
  rw [hfold _ _ fun k hk => (List.mem_insertionSort utf16Le).mp hk]
  split_ifs with hmem
  · rfl
  · have habsent : key ∉ fields.map Prod.fst :=
      fun h => hmem ((List.mem_insertionSort utf16Le).mpr h)
    rw [← isSome_lookup, Option.not_isSome_iff_eq_none] at habsent
    exact habsent.symm

theorem lookup_canonicalizeFields (fields : Fields) (key : String) :
    (canonicalizeFields fields).lookup key = (fields.lookup key).map canonicalize := by
  induction fields with
  | nil => rfl
  | cons field fields ih =>
      obtain ⟨k, value⟩ := field
      rw [canonicalizeFields, lookup_field, lookup_field, ih]
      split_ifs
      · rfl
      · rfl

theorem canonicalizeItems_eq (values : List Json) :
    canonicalizeItems values = values.map canonicalize := by
  induction values with
  | nil => rfl
  | cons value values ih => rw [canonicalizeItems, ih, List.map_cons]

theorem get?_canonicalize (value : Json) (key : String) :
    (canonicalize value).get? key = (value.get? key).map canonicalize := by
  cases value with
  | obj fields =>
      show (sortFields (canonicalizeFields fields)).lookup key = (fields.lookup key).map canonicalize
      rw [lookup_sortFields, lookup_canonicalizeFields]
  | _ => rfl

theorem text?_canonicalize (value : Option Json) : text? (value.map canonicalize) = text? value := by
  cases value with
  | none => rfl
  | some value => cases value <;> rfl

theorem number?_canonicalize (value : Option Json) :
    number? (value.map canonicalize) = number? value := by
  cases value with
  | none => rfl
  | some value => cases value <;> rfl

theorem truthy_canonicalize (value : Option Json) :
    truthy (value.map canonicalize) = truthy value := by
  cases value with
  | none => rfl
  | some value => cases value <;> rfl

theorem items_canonicalize (value : Option Json) :
    items (value.map canonicalize) = (items value).map canonicalize := by
  cases value with
  | none => rfl
  | some value =>
      cases value with
      | arr values => exact canonicalizeItems_eq values
      | _ => rfl

/-! ## Definitions with one fingerprint -/

section
variable {a b : Json}

theorem get?_of_canonical (h : canonicalize a = canonicalize b) (key : String) :
    (a.get? key).map canonicalize = (b.get? key).map canonicalize := by
  rw [← get?_canonicalize, h, get?_canonicalize]

theorem text?_of_canonical (h : canonicalize a = canonicalize b) (key : String) :
    text? (a.get? key) = text? (b.get? key) := by
  rw [← text?_canonicalize, get?_of_canonical h, text?_canonicalize]

theorem propertyKey_of_canonical (h : canonicalize a = canonicalize b) (key : String) :
    propertyKey (a.get? key) = propertyKey (b.get? key) := by
  unfold propertyKey
  rw [text?_of_canonical h]

theorem number?_of_canonical (h : canonicalize a = canonicalize b) (key : String) :
    number? (a.get? key) = number? (b.get? key) := by
  rw [← number?_canonicalize, get?_of_canonical h, number?_canonicalize]

theorem truthy_of_canonical (h : canonicalize a = canonicalize b) (key : String) :
    truthy (a.get? key) = truthy (b.get? key) := by
  rw [← truthy_canonicalize, get?_of_canonical h, truthy_canonicalize]

theorem idOf_of_canonical (h : canonicalize a = canonicalize b) : idOf a = idOf b :=
  propertyKey_of_canonical h "id"

theorem keyOf_of_canonical (h : canonicalize a = canonicalize b) : keyOf a = keyOf b :=
  propertyKey_of_canonical h "key"

theorem weightOf_of_canonical (h : canonicalize a = canonicalize b) : weightOf a = weightOf b := by
  unfold weightOf
  rw [number?_of_canonical h]

theorem variantsOf_of_canonical (h : canonicalize a = canonicalize b) :
    (variantsOf a).map canonicalize = (variantsOf b).map canonicalize := by
  unfold variantsOf
  rw [← items_canonicalize, get?_of_canonical h, items_canonicalize]

theorem goalMetric_of_canonical (h : canonicalize a = canonicalize b) {metric : String}
    (hmetric : a.get? "goalMetric" = some (.str metric)) :
    b.get? "goalMetric" = some (.str metric) := by
  have htext := text?_of_canonical h "goalMetric"
  rw [hmetric] at htext
  cases hb : b.get? "goalMetric" with
  | none =>
      rw [hb] at htext
      cases htext
  | some value =>
      rw [hb] at htext
      cases value with
      | str text =>
          cases htext
          rfl
      | _ => cases htext

end

theorem variantBelow_of_canonical {bucket allocation total threshold : ℚ} {xs ys : List Json}
    (h : xs.map canonicalize = ys.map canonicalize) :
    (variantBelow bucket allocation total threshold xs).map canonicalize =
      (variantBelow bucket allocation total threshold ys).map canonicalize := by
  induction xs generalizing threshold ys with
  | nil =>
      cases ys with
      | nil => rfl
      | cons y ys => cases h
  | cons x xs ih =>
      cases ys with
      | nil => cases h
      | cons y ys =>
          obtain ⟨hhead, htail⟩ := List.cons.inj h
          unfold variantBelow
          dsimp only
          rw [weightOf_of_canonical hhead]
          split_ifs
          · exact congrArg some hhead
          · exact ih htail

theorem checkAll_of_canonical {check : Json → Except String Unit} {xs ys : List Json}
    (hcheck : ∀ x y, canonicalize x = canonicalize y → check x = check y)
    (h : xs.map canonicalize = ys.map canonicalize) : checkAll check xs = checkAll check ys := by
  induction xs generalizing ys with
  | nil =>
      cases ys with
      | nil => rfl
      | cons y ys => cases h
  | cons x xs ih =>
      cases ys with
      | nil => cases h
      | cons y ys =>
          obtain ⟨hhead, htail⟩ := List.cons.inj h
          unfold checkAll
          rw [hcheck x y hhead, ih htail]

/-- Definitions that print the same text with sorted keys assign alike. -/
theorem assignVariant_of_canonical {a b : Json} (h : canonicalize a = canonicalize b)
    (subjectId : String) :
    (assignVariant a subjectId).map (Option.map canonicalize) =
      (assignVariant b subjectId).map (Option.map canonicalize) := by
  have hvariants := variantsOf_of_canonical h
  have hallocation : allocationOf a = allocationOf b := by
    unfold allocationOf
    rw [number?_of_canonical h]
  have hweights : (variantsOf a).map weightOf = (variantsOf b).map weightOf := by
    have hall : ∀ {xs ys : List Json}, xs.map canonicalize = ys.map canonicalize →
        xs.map weightOf = ys.map weightOf := by
      intro xs
      induction xs with
      | nil =>
          intro ys hxy
          cases ys with
          | nil => rfl
          | cons y ys => cases hxy
      | cons x xs ih =>
          intro ys hxy
          cases ys with
          | nil => cases hxy
          | cons y ys =>
              obtain ⟨hhead, htail⟩ := List.cons.inj hxy
              rw [List.map_cons, List.map_cons, weightOf_of_canonical hhead, ih htail]
    exact hall hvariants
  have hnil : decide (variantsOf a ≠ []) = decide (variantsOf b ≠ []) := by
    apply decide_eq_decide.mpr
    rw [ne_eq, ne_eq, ← List.map_eq_nil_iff (f := canonicalize), hvariants, List.map_eq_nil_iff]
  have hlast : (variantsOf a).getLast?.map canonicalize = (variantsOf b).getLast?.map canonicalize := by
    rw [← List.getLast?_map, hvariants, List.getLast?_map]
  have hcheck : ∀ id : String, checkAll (fun variant => require
      (numberWith (fun q => 0 ≤ q) (variant.get? "weight"))
      ("experiment " ++ id ++ " has invalid variant weight")) (variantsOf a) =
        checkAll (fun variant => require (numberWith (fun q => 0 ≤ q) (variant.get? "weight"))
      ("experiment " ++ id ++ " has invalid variant weight")) (variantsOf b) := by
    intro id
    refine checkAll_of_canonical (fun x y hxy => ?_) hvariants
    unfold numberWith
    rw [number?_of_canonical hxy]
  unfold assignVariant
  dsimp only
  rw [propertyKey_of_canonical h "id", propertyKey_of_canonical h "salt",
    truthy_of_canonical h "enabled", hallocation]
  split_ifs
  · rfl
  · rw [hnil, hcheck, hweights]
    have hresult : ∀ {bucket allocation total : ℚ},
        Option.map canonicalize ((variantBelow bucket allocation total 0 (variantsOf a)).or
          (variantsOf a).getLast?) = Option.map canonicalize
            ((variantBelow bucket allocation total 0 (variantsOf b)).or (variantsOf b).getLast?) := by
      intro bucket allocation total
      rw [Option.map_or, Option.map_or, variantBelow_of_canonical hvariants, hlast]
    -- The checks are the same on both sides, so only the assigned variants differ.
    generalize require (decide (variantsOf b ≠ [])) _ = some_variants
    generalize checkAll _ (variantsOf b) = weights
    generalize require _ _ = total
    cases some_variants with
    | error e => rfl
    | ok _ =>
        cases weights with
        | error e => rfl
        | ok _ =>
            cases total with
            | error e => rfl
            | ok _ => exact congrArg Except.ok hresult

/-- A subject's variant under one definition is one under the other, with the
same key. -/
theorem exists_assignVariant_of_canonical {a b variant : Json} {subjectId : String}
    (h : canonicalize a = canonicalize b) (hvariant : assignVariant a subjectId = .ok (some variant)) :
    ∃ own, assignVariant b subjectId = .ok (some own) ∧ keyOf own = keyOf variant := by
  have hsame := assignVariant_of_canonical h subjectId
  rw [hvariant] at hsame
  cases hb : assignVariant b subjectId with
  | error e =>
      rw [hb] at hsame
      cases hsame
  | ok assigned =>
      rw [hb] at hsame
      cases assigned with
      | none => cases Except.ok.inj hsame
      | some own =>
          have hcanonical := Option.some.inj (Except.ok.inj hsame)
          exact ⟨own, rfl, (keyOf_of_canonical hcanonical).symm⟩

end Wardx.Core
