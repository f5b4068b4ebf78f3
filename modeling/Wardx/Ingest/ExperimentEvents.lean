import Wardx.Control.ProjectState
import Wardx.Ingest.Envelope
import Wardx.Storage.ExperimentLedger

/-!
# Experiment events

The pipeline reads experiment evidence out of an envelope's events. Before that
`validateExperimentEvents` checks each such event against the served
definitions: it names an enabled experiment the role sees and one of its
variants, and a goal reports the experiment's goal metric.

A check stops with the message it rejects the envelope with.
-/
namespace Wardx

open Lib Json Control

/-- `validateNonEmptyString` without a limit. -/
def assertText (value : Option Json) (label : String) : Except String Unit :=
  require (nonEmptyText value) (label ++ " must be a non-empty string")

/-- The pattern of sixteen lowercase hexadecimal digits. -/
def assertSubject (attrs : Json) (label : String) : Except String Unit :=
  require ((text? (attrs.get? "subject")).any ExperimentLedger.isHash)
    (label ++ ".subject must be a 64-bit lowercase hex hash")

/-- The definition an assignment names, if the role may send its events. -/
def openDefinition (experiments : List Json) (role label : String) (assignment : Json) :
    Except String Json :=
  match (byId experiments).lookup (propertyKey (assignment.get? "experiment")) with
  | none => .error (label ++ ".experiment is unknown")
  | some definition => do
      require (truthy (definition.get? "enabled")) (label ++ ".experiment is disabled")
      require (roleSees (definition.get? "roles") role)
        (label ++ ".experiment is not visible to client.role")
      pure definition

def hasVariant (definition : Json) (key : Option Json) : Bool :=
  (items (definition.get? "variants")).any fun variant => variant.get? "key" = key

def checkVariant (definition : Json) (label : String) (assignment : Json) : Except String Unit :=
  require (hasVariant definition (assignment.get? "variant")) (label ++ ".variant is unknown")

def validateExposure (experiments : List Json) (role label : String) (attrs : Json) :
    Except String Unit := do
  checkKeys ["experiment", "variant", "subject"] label attrs
  checkAll (fun key => assertText (attrs.get? key) (label ++ "." ++ key))
    ["experiment", "variant", "subject"]
  assertSubject attrs label
  let definition ← openDefinition experiments role label attrs
  checkVariant definition label attrs

/-- `attrs.experiments[0]`. -/
def firstAssignment (attrs : Json) : Json := (items (attrs.get? "experiments")).headD .null

def validateGoal (experiments : List Json) (role label : String) (attrs : Json) :
    Except String Unit := do
  checkKeys ["metric", "subject", "experiments", "value"] label attrs
  checkAll (fun key => assertText (attrs.get? key) (label ++ "." ++ key)) ["metric", "subject"]
  assertSubject attrs label
  require ((items (attrs.get? "experiments")).length = 1)
    (label ++ ".experiments must contain exactly one assignment")
  require ((attrs.get? "value").isNone || (number? (attrs.get? "value")).isSome)
    (label ++ ".value must be a finite number")
  let assignment := firstAssignment attrs
  let inner := label ++ ".experiments[0]"
  require assignment.isObject (inner ++ " must be an object")
  checkKeys ["experiment", "variant"] inner assignment
  checkAll (fun key => assertText (assignment.get? key) (inner ++ "." ++ key))
    ["experiment", "variant"]
  let definition ← openDefinition experiments role inner assignment
  require (definition.get? "goalMetric" = attrs.get? "metric")
    (label ++ ".metric does not match experiment.goalMetric")
  checkVariant definition inner assignment

/-- One round of the loop: an event of another name is skipped. -/
def validateExperimentEvent (experiments : List Json) (role label : String) (row : EventRow) :
    Except String Unit :=
  if row.name = "experiment.exposure" then do
    require row.attrs.isObject (label ++ " must be an object")
    validateExposure experiments role label row.attrs
  else if row.name = "experiment.goal" then do
    require row.attrs.isObject (label ++ " must be an object")
    validateGoal experiments role label row.attrs
  else .ok ()

def eventLabel (frame event : ℕ) : String :=
  "frames[" ++ toString frame ++ "].events[" ++ toString event ++ "][2]"

/-- `validateExperimentEvents`. -/
def validateExperimentEvents (body : Envelope) (experiments : List Json) : Except String Unit :=
  checkAll (fun frame : Frame × ℕ =>
    checkAll (fun row : EventRow × ℕ =>
      validateExperimentEvent experiments body.client.role (eventLabel frame.2 row.2) row.1)
      frame.1.events.zipIdx) body.frames.zipIdx

/-! ## Extraction -/

def goalValue (attrs : Json) : ℚ :=
  match attrs.get? "value" with
  | none => 1
  | some value => (number? (some value)).getD 0

/-- The evidence an event carries. -/
def experimentEvent (row : EventRow) : Option ExperimentEvent :=
  if row.name = "experiment.exposure" then
    some
      { kind := .exposure
        experiment := propertyKey (row.attrs.get? "experiment")
        variant := propertyKey (row.attrs.get? "variant")
        assignmentHash := propertyKey (row.attrs.get? "subject")
        timestamp := row.timestamp }
  else if row.name = "experiment.goal" then
    some
      { kind := .goal (goalValue row.attrs)
        experiment := propertyKey ((firstAssignment row.attrs).get? "experiment")
        variant := propertyKey ((firstAssignment row.attrs).get? "variant")
        assignmentHash := propertyKey (row.attrs.get? "subject")
        timestamp := row.timestamp }
  else none

/-- `experimentEvents`. -/
def experimentEvents (envelope : Envelope) : List ExperimentEvent :=
  envelope.frames.flatMap fun frame => frame.events.filterMap experimentEvent

/-! ## What a valid event names -/

/-- An event the served definitions admit. -/
structure Admitted (experiments : List Json) (event : ExperimentEvent) : Prop where
  experiment_ne : event.experiment ≠ ""
  variant_ne : event.variant ≠ ""
  hash : ExperimentLedger.isHash event.assignmentHash = true
  open_definition : ∃ definition, (byId experiments).lookup event.experiment = some definition ∧
    truthy (definition.get? "enabled") = true ∧
    hasVariant definition (some (.str event.variant)) = true

theorem nonEmptyText_iff (value : Option Json) :
    nonEmptyText value = true ↔ ∃ text, value = some (.str text) ∧ text ≠ "" := by
  unfold nonEmptyText
  split
  · simp
  · rename_i hne
    constructor
    · intro h
      cases h
    · rintro ⟨text, rfl, _⟩
      exact absurd rfl (hne text)

theorem openDefinition_eq_ok {experiments : List Json} {role label : String}
    {assignment definition : Json}
    (h : openDefinition experiments role label assignment = .ok definition) :
    (byId experiments).lookup (propertyKey (assignment.get? "experiment")) = some definition ∧
      truthy (definition.get? "enabled") = true := by
  unfold openDefinition at h
  split at h
  · cases h
  · rename_i found hfound
    simp only [bind_eq_ok_iff, require_eq_ok_iff, pure, Except.pure, Except.ok.injEq,
      exists_const] at h
    obtain ⟨henabled, _, rfl⟩ := h
    exact ⟨hfound, henabled⟩

theorem propertyKey_text (text : String) : propertyKey (some (.str text)) = text := rfl

/-- The three texts of an assignment and the definition it names. -/
theorem admitted_of_assignment {experiments : List Json} {role label : String}
    {assignment definition : Json} {hash : String} {kind : EventKind} {timestamp : ℚ}
    (hexperiment : nonEmptyText (assignment.get? "experiment") = true)
    (hvariant : nonEmptyText (assignment.get? "variant") = true)
    (hhash : ExperimentLedger.isHash hash = true)
    (hopen : openDefinition experiments role label assignment = .ok definition)
    (hknown : hasVariant definition (assignment.get? "variant") = true) :
    Admitted experiments ⟨kind, propertyKey (assignment.get? "experiment"),
      propertyKey (assignment.get? "variant"), hash, timestamp⟩ := by
  obtain ⟨experiment, hex, hexne⟩ := (nonEmptyText_iff _).mp hexperiment
  obtain ⟨variant, hvar, hvarne⟩ := (nonEmptyText_iff _).mp hvariant
  obtain ⟨hlookup, henabled⟩ := openDefinition_eq_ok hopen
  rw [hex, propertyKey_text] at hlookup
  rw [hvar] at hknown
  rw [hex, hvar, propertyKey_text, propertyKey_text]
  exact ⟨hexne, hvarne, hhash, definition, hlookup, henabled, hknown⟩

theorem isHash_of_subject {attrs : Json} {label : String}
    (h : assertSubject attrs label = .ok ()) :
    ExperimentLedger.isHash (propertyKey (attrs.get? "subject")) = true := by
  unfold assertSubject at h
  rw [require_eq_ok_iff, Option.any_eq_true] at h
  obtain ⟨text, htext, hhash⟩ := h
  unfold propertyKey
  rw [htext]
  exact hhash

theorem validateExperimentEvent_admits {experiments : List Json} {role label : String}
    {row : EventRow} {event : ExperimentEvent}
    (h : validateExperimentEvent experiments role label row = .ok ())
    (hevent : experimentEvent row = some event) : Admitted experiments event := by
  unfold validateExperimentEvent at h
  unfold experimentEvent at hevent
  by_cases hexposure : row.name = "experiment.exposure"
  · rw [if_pos hexposure] at h hevent
    simp only [validateExposure, checkVariant, assertText, bind_eq_ok_iff, require_eq_ok_iff,
      checkAll_eq_ok_iff, exists_const, List.forall_mem_cons] at h
    obtain ⟨_, _, _, ⟨hexperiment, hvariant, _⟩, _, hsubject, definition, hopen, hknown⟩ := h
    cases hevent
    exact admitted_of_assignment hexperiment hvariant (isHash_of_subject hsubject) hopen hknown
  · rw [if_neg hexposure] at h hevent
    by_cases hgoal : row.name = "experiment.goal"
    · rw [if_pos hgoal] at h hevent
      simp only [validateGoal, checkVariant, assertText, bind_eq_ok_iff, require_eq_ok_iff,
        checkAll_eq_ok_iff, exists_const, List.forall_mem_cons] at h
      obtain ⟨_, _, _, _, _, hsubject, _, _, _, _, _, ⟨hexperiment, hvariant, _⟩, definition, hopen,
        _, hknown⟩ := h
      cases hevent
      exact admitted_of_assignment hexperiment hvariant (isHash_of_subject hsubject) hopen hknown
    · rw [if_neg hgoal] at hevent
      cases hevent

/-- Every piece of evidence in a valid envelope is admitted. -/
theorem admitted_of_mem_experimentEvents {body : Envelope} {experiments : List Json}
    {event : ExperimentEvent} (h : validateExperimentEvents body experiments = .ok ())
    (hmem : event ∈ experimentEvents body) : Admitted experiments event := by
  unfold validateExperimentEvents at h
  simp only [checkAll_eq_ok_iff] at h
  unfold experimentEvents at hmem
  rw [List.mem_flatMap] at hmem
  obtain ⟨frame, hframe, hmem⟩ := hmem
  obtain ⟨row, hrow, hevent⟩ := List.mem_filterMap.mp hmem
  obtain ⟨i, hi⟩ := List.mem_iff_getElem?.mp hframe
  obtain ⟨j, hj⟩ := List.mem_iff_getElem?.mp hrow
  have hvalid := h (frame, i) (List.mem_zipIdx_iff_getElem?.mpr hi) (row, j)
    (List.mem_zipIdx_iff_getElem?.mpr hj)
  exact validateExperimentEvent_admits hvalid hevent

end Wardx
