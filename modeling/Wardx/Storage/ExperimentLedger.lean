import Mathlib.Data.List.Sort
import Wardx.Control.Decision
import Wardx.Lib.Check
import Wardx.Lib.Table

/-!
# The experiment ledger

Three relations: assignment rows keyed by project, experiment and assignment
hash; running totals keyed by project, experiment, variant, source role and
trust class; and one terminal decision per project and experiment. Each is a
keyed table, so a primary key holds by construction.

Texts are Unicode strings. The stored hash is the decoding of sixteen checked
hexadecimal digits, an injective map, so rows are keyed by the digits. Sums of
goal values are exact rationals.

`ingest` is the code's `_ingest` branch by branch. What one call can do is said
once, in `ingest_eq`: the status that `classify` reads off the current row
decides the row written and the counter raised, and nothing else changes.
-/
namespace Wardx

open Lib Control

/-- `trustClass` of a source, as stored with its rows. -/
inductive TrustClass
  | trusted
  | untrusted
deriving DecidableEq, Repr

def TrustClass.text : TrustClass → String
  | .trusted => "trusted"
  | .untrusted => "untrusted"

/-- The authenticated credential behind an envelope. -/
structure Source where
  label : String
  role : String
  trustedForDecisions : Bool
deriving DecidableEq, Repr

def trustClass (source : Source) : TrustClass :=
  if source.trustedForDecisions then .trusted else .untrusted

/-- A goal carries its value; an exposure has none. -/
inductive EventKind
  | exposure
  | goal (value : ℚ)
deriving DecidableEq, Repr

/-- The value a goal adds to the sums. -/
def EventKind.value : EventKind → ℚ
  | .exposure => 0
  | .goal value => value

structure ExperimentEvent where
  kind : EventKind
  experiment : String
  variant : String
  assignmentHash : String
  timestamp : ℚ
deriving DecidableEq, Repr

inductive IngestStatus
  | lateRow
  | variantConflict
  | duplicateExposure
  | acceptedExposure
  | missingExposure
  | conflictingGoal
  | duplicateGoal
  | acceptedGoal
deriving DecidableEq, Repr

/-- The two statuses that reject a whole batch. -/
def IngestStatus.isRejection : IngestStatus → Bool
  | .variantConflict | .missingExposure => true
  | _ => false

structure IngestResult where
  status : IngestStatus
  experiment : String
deriving DecidableEq, Repr

/-- `exposure_json`. -/
structure ExposureDetails where
  timestamp : ℚ
  sourceRole : String
  trustClass : TrustClass
deriving DecidableEq, Repr

/-- `goal_json`. -/
structure GoalDetails where
  timestamp : ℚ
  value : ℚ
  sourceRole : String
  trustClass : TrustClass
deriving DecidableEq, Repr

structure AssignmentKey where
  project : String
  experiment : String
  assignmentHash : String
deriving DecidableEq, Repr

structure AssignmentRow where
  variant : String
  exposure : ExposureDetails
  goal : Option GoalDetails
  sourceRole : String
  trustClass : TrustClass
  expiresAt : ℕ
deriving DecidableEq, Repr

structure TotalsKey where
  project : String
  experiment : String
  variant : String
  sourceRole : String
  trustClass : TrustClass
deriving DecidableEq, Repr

/-- `EMPTY_TOTALS` is the record of defaults. -/
structure Totals where
  exposures : ℕ := 0
  goals : ℕ := 0
  goalSum : ℚ := 0
  goalSumSq : ℚ := 0
  duplicateExposures : ℕ := 0
  duplicateGoals : ℕ := 0
  conflictingGoals : ℕ := 0
  variantConflicts : ℕ := 0
  untrustedRows : ℕ := 0
  lateRows : ℕ := 0
  missingExposures : ℕ := 0
  implicitExposures : ℕ := 0
deriving DecidableEq, Repr

def emptyTotals : Totals := {}

structure TerminalDecisionRow where
  decidedAt : ℕ
  decision : Decision
deriving DecidableEq, Repr

/-- The ledger's relations in the state store. -/
structure ExperimentLedger where
  assignments : Table AssignmentKey AssignmentRow
  totalsRows : Table TotalsKey Totals
  terminalDecisions : Table (String × String) TerminalDecisionRow
deriving DecidableEq, Repr

/-- `maxWriteBatch` comes from the store's settings, `maxRows` from the
ledger's; both constructors refuse a value below one. -/
structure LedgerSettings where
  maxRows : ℕ
  maxWriteBatch : ℕ
  maxRows_pos : 1 ≤ maxRows
  maxWriteBatch_pos : 1 ≤ maxWriteBatch

namespace ExperimentLedger

def empty : ExperimentLedger := ⟨Table.empty, Table.empty, Table.empty⟩

/-! ## Checks -/

def isHexDigit (c : Char) : Bool := ('0' ≤ c && c ≤ '9') || ('a' ≤ c && c ≤ 'f')

/-- `/^[0-9a-f]{16}$/`. -/
def isHash (value : String) : Bool := value.toList.length == 16 && value.toList.all isHexDigit

def assertHash (value : String) : Except String Unit :=
  require (isHash value) "assignment hash must be 16 lowercase hexadecimal characters"

def assertNonEmptyString (value label : String) : Except String Unit :=
  require (value ≠ "") (label ++ " must be a non-empty string")

def assertSource (source : Source) : Except String Unit :=
  assertNonEmptyString source.role "experiment evidence source.role"

/-- `Number.isInteger(value) && value >= 0`. -/
def isNatural (value : ℚ) : Bool := value.den == 1 && 0 ≤ value.num

def assertEvent (event : ExperimentEvent) : Except String Unit := do
  assertNonEmptyString event.experiment "experiment event.experiment"
  assertNonEmptyString event.variant "experiment event.variant"
  assertHash event.assignmentHash
  require (isNatural event.timestamp) "experiment event.timestamp must be an integer >= 0"

theorem assertEvent_eq_ok_iff (event : ExperimentEvent) :
    assertEvent event = .ok () ↔
      event.experiment ≠ "" ∧ event.variant ≠ "" ∧ isHash event.assignmentHash = true ∧
        isNatural event.timestamp = true := by
  simp [assertEvent, assertNonEmptyString, assertHash]

/-! ## Totals -/

def totalsKey (project experiment variant : String) (source : Source) : TotalsKey :=
  ⟨project, experiment, variant, source.role, trustClass source⟩

/-- The stored totals under a key, all zero when there is no row. -/
def totalsAt (ledger : ExperimentLedger) (key : TotalsKey) : Totals :=
  (ledger.totalsRows.get key).getD emptyTotals

/-- `_updateTotals`. -/
def updateTotals (ledger : ExperimentLedger) (project experiment variant : String)
    (source : Source) (mutate : Totals → Totals) : ExperimentLedger :=
  let key := totalsKey project experiment variant source
  { ledger with totalsRows := ledger.totalsRows.put key (mutate (ledger.totalsAt key)) }

/-- `if (!source.trustedForDecisions) totals.untrustedRows += 1`. -/
def countUntrusted (source : Source) (totals : Totals) : Totals :=
  if source.trustedForDecisions then totals
  else { totals with untrustedRows := totals.untrustedRows + 1 }

/-! ## One event -/

def assignmentKey (project : String) (event : ExperimentEvent) : AssignmentKey :=
  ⟨project, event.experiment, event.assignmentHash⟩

/-- `selectTerminalDecision` finds a row. -/
def isTerminal (ledger : ExperimentLedger) (project experiment : String) : Bool :=
  (ledger.terminalDecisions.get (project, experiment)).isSome

def eventDetails (event : ExperimentEvent) (source : Source) : ExposureDetails :=
  ⟨event.timestamp, source.role, trustClass source⟩

/-- The row `insertAssignment` writes. -/
def exposureRow (event : ExperimentEvent) (source : Source) : AssignmentRow where
  variant := event.variant
  exposure := eventDetails event source
  goal := none
  sourceRole := source.role
  trustClass := trustClass source
  expiresAt := 0

def goalDetails (event : ExperimentEvent) (source : Source) (value : ℚ) : GoalDetails :=
  ⟨event.timestamp, value, source.role, trustClass source⟩

/-- `_ingest`: record one event, reading the row and the decision as stored. -/
def ingest (ledger : ExperimentLedger) (project : String) (event : ExperimentEvent)
    (source : Source) : ExperimentLedger × IngestStatus :=
  let key := assignmentKey project event
  let current := ledger.assignments.get key
  let update := fun (base : ExperimentLedger) (mutate : Totals → Totals) =>
    base.updateTotals project event.experiment event.variant source
      fun totals => countUntrusted source (mutate totals)
  if ledger.isTerminal project event.experiment || current.any (fun row => 0 < row.expiresAt) then
    (update ledger fun totals => { totals with lateRows := totals.lateRows + 1 }, .lateRow)
  else if current.any (fun row => row.variant ≠ event.variant) then
    (update ledger fun totals => { totals with variantConflicts := totals.variantConflicts + 1 },
      .variantConflict)
  else match event.kind with
    | .exposure =>
        if current.isSome then
          (update ledger fun totals =>
            { totals with duplicateExposures := totals.duplicateExposures + 1 },
            .duplicateExposure)
        else
          let inserted :=
            { ledger with assignments := ledger.assignments.put key (exposureRow event source) }
          (update inserted fun totals => { totals with exposures := totals.exposures + 1 },
            .acceptedExposure)
    | .goal value =>
        match current with
        | none =>
            (update ledger fun totals =>
              { totals with missingExposures := totals.missingExposures + 1 }, .missingExposure)
        | some row =>
            if row.sourceRole ≠ source.role ∨ row.trustClass ≠ trustClass source then
              (update ledger fun totals =>
                { totals with missingExposures := totals.missingExposures + 1 },
                .missingExposure)
            else match row.goal with
              | some accepted =>
                  if accepted.value ≠ value then
                    (update ledger fun totals =>
                      { totals with conflictingGoals := totals.conflictingGoals + 1 },
                      .conflictingGoal)
                  else
                    (update ledger fun totals =>
                      { totals with duplicateGoals := totals.duplicateGoals + 1 },
                      .duplicateGoal)
              | none =>
                  let updated :=
                    { ledger with
                      assignments := ledger.assignments.put key
                        { row with goal := some (goalDetails event source value) } }
                  (update updated fun totals =>
                    { totals with
                      goals := totals.goals + 1
                      goalSum := totals.goalSum + value
                      goalSumSq := totals.goalSumSq + value * value },
                    .acceptedGoal)

/-! ## What one event can do -/

/-- The status an event of an open unit gets from the row stored under its key. -/
def classifyOpen (current : Option AssignmentRow) (event : ExperimentEvent) (source : Source) :
    IngestStatus :=
  if current.any (fun row => row.variant ≠ event.variant) then .variantConflict
  else match event.kind, current with
    | .exposure, some _ => .duplicateExposure
    | .exposure, none => .acceptedExposure
    | .goal _, none => .missingExposure
    | .goal value, some row =>
        if row.sourceRole ≠ source.role ∨ row.trustClass ≠ trustClass source then
          .missingExposure
        else match row.goal with
          | some accepted =>
              if accepted.value ≠ value then .conflictingGoal else .duplicateGoal
          | none => .acceptedGoal

/-- A decided experiment and an expiring row close a unit; its events are late. -/
def classify (terminal : Bool) (current : Option AssignmentRow) (event : ExperimentEvent)
    (source : Source) : IngestStatus :=
  if terminal || current.any (fun row => 0 < row.expiresAt) then .lateRow
  else classifyOpen current event source

/-- The counter a status raises. -/
def counted (status : IngestStatus) (value : ℚ) (totals : Totals) : Totals :=
  match status with
  | .lateRow => { totals with lateRows := totals.lateRows + 1 }
  | .variantConflict => { totals with variantConflicts := totals.variantConflicts + 1 }
  | .duplicateExposure => { totals with duplicateExposures := totals.duplicateExposures + 1 }
  | .acceptedExposure => { totals with exposures := totals.exposures + 1 }
  | .missingExposure => { totals with missingExposures := totals.missingExposures + 1 }
  | .conflictingGoal => { totals with conflictingGoals := totals.conflictingGoals + 1 }
  | .duplicateGoal => { totals with duplicateGoals := totals.duplicateGoals + 1 }
  | .acceptedGoal =>
      { totals with
        goals := totals.goals + 1
        goalSum := totals.goalSum + value
        goalSumSq := totals.goalSumSq + value * value }

/-- The assignment rows after an event that got `status`. -/
def assignmentsAfter (ledger : ExperimentLedger) (project : String) (event : ExperimentEvent)
    (source : Source) (status : IngestStatus) : Table AssignmentKey AssignmentRow :=
  match status, ledger.assignments.get (assignmentKey project event) with
  | .acceptedExposure, _ =>
      ledger.assignments.put (assignmentKey project event) (exposureRow event source)
  | .acceptedGoal, some row =>
      ledger.assignments.put (assignmentKey project event)
        { row with goal := some (goalDetails event source event.kind.value) }
  | _, _ => ledger.assignments

/-- The ledger after an event that got `status`. -/
def record (ledger : ExperimentLedger) (project : String) (event : ExperimentEvent)
    (source : Source) (status : IngestStatus) : ExperimentLedger :=
  updateTotals { ledger with assignments := ledger.assignmentsAfter project event source status }
    project event.experiment event.variant source
    fun totals => countUntrusted source (counted status event.kind.value totals)

/-- The status of one event, from the ledger as stored. -/
def statusOf (ledger : ExperimentLedger) (project : String) (event : ExperimentEvent)
    (source : Source) : IngestStatus :=
  classify (ledger.isTerminal project event.experiment)
    (ledger.assignments.get (assignmentKey project event)) event source

/-- One event is classified by the stored row, and recorded under that status. -/
theorem ingest_eq (ledger : ExperimentLedger) (project : String) (event : ExperimentEvent)
    (source : Source) :
    ledger.ingest project event source =
      (ledger.record project event source (ledger.statusOf project event source),
        ledger.statusOf project event source) := by
  obtain ⟨kind, experiment, variant, hash, timestamp⟩ := event
  unfold ingest record statusOf classify classifyOpen assignmentsAfter
  cases hc : ledger.assignments.get
      (assignmentKey project ⟨kind, experiment, variant, hash, timestamp⟩) with
  | none =>
      cases kind with
      | exposure =>
          simp only [hc, Option.isSome_none, Bool.false_eq_true, if_false]
          split_ifs <;> rfl
      | goal value =>
          simp only [hc]
          split_ifs <;> rfl
  | some row =>
      cases kind with
      | exposure =>
          simp only [hc, Option.isSome_some, if_true]
          split_ifs <;> rfl
      | goal value =>
          cases hg : row.goal with
          | none =>
              simp only [hc, hg]
              split_ifs <;> rfl
          | some accepted =>
              simp only [hc, hg]
              split_ifs <;> rfl

@[simp] theorem ingest_status (ledger : ExperimentLedger) (project : String)
    (event : ExperimentEvent) (source : Source) :
    (ledger.ingest project event source).2 = ledger.statusOf project event source := by
  rw [ingest_eq]

@[simp] theorem ingest_terminalDecisions (ledger : ExperimentLedger) (project : String)
    (event : ExperimentEvent) (source : Source) :
    (ledger.ingest project event source).1.terminalDecisions = ledger.terminalDecisions := by
  rw [ingest_eq]
  rfl

theorem ingest_assignments (ledger : ExperimentLedger) (project : String)
    (event : ExperimentEvent) (source : Source) :
    (ledger.ingest project event source).1.assignments =
      ledger.assignmentsAfter project event source (ledger.statusOf project event source) := by
  rw [ingest_eq]
  rfl

/-- An exposure is accepted only for a unit without a row, before any decision. -/
theorem statusOf_eq_acceptedExposure {ledger : ExperimentLedger} {project : String}
    {event : ExperimentEvent} {source : Source}
    (h : ledger.statusOf project event source = .acceptedExposure) :
    ledger.isTerminal project event.experiment = false ∧ event.kind = .exposure ∧
      ledger.assignments.get (assignmentKey project event) = none := by
  unfold statusOf classify classifyOpen at h
  split_ifs at h with h₁ h₂
  rw [Bool.or_eq_true, not_or] at h₁
  split at h
  · cases h
  · exact ⟨by simpa using h₁.1, by assumption, by assumption⟩
  · cases h
  · split_ifs at h
    split at h
    · split_ifs at h
    · cases h

/-- A goal is accepted only on an open row of the same variant, role and trust
class that has no goal yet. -/
theorem statusOf_eq_acceptedGoal {ledger : ExperimentLedger} {project : String}
    {event : ExperimentEvent} {source : Source}
    (h : ledger.statusOf project event source = .acceptedGoal) :
    ∃ value row, event.kind = .goal value ∧
      ledger.assignments.get (assignmentKey project event) = some row ∧
      ledger.isTerminal project event.experiment = false ∧ row.expiresAt = 0 ∧
      row.variant = event.variant ∧ row.sourceRole = source.role ∧
      row.trustClass = trustClass source ∧ row.goal = none := by
  unfold statusOf classify classifyOpen at h
  split_ifs at h with h₁ h₂
  rw [Bool.or_eq_true, not_or] at h₁
  split at h
  · cases h
  · cases h
  · cases h
  · rename_i value row hk hr
    split_ifs at h with h₃
    split at h
    · split_ifs at h
    · rename_i hg
      rw [hr] at h₁ h₂
      refine ⟨value, row, hk, hr, ?_, ?_, ?_, ?_, ?_, hg⟩
      · simpa using h₁.1
      · simpa using h₁.2
      · simpa using h₂
      · exact not_not.mp fun e => h₃ (Or.inl e)
      · exact not_not.mp fun e => h₃ (Or.inr e)

/-- An accepted exposure adds one row; every other status keeps the count. -/
theorem size_ingest (ledger : ExperimentLedger) (project : String) (event : ExperimentEvent)
    (source : Source) :
    (ledger.ingest project event source).1.assignments.size =
      ledger.assignments.size +
        if ledger.statusOf project event source = .acceptedExposure then 1 else 0 := by
  rw [ingest_assignments]
  unfold assignmentsAfter
  cases hs : ledger.statusOf project event source with
  | acceptedExposure =>
      simp [Table.size_put_of_none _ (statusOf_eq_acceptedExposure hs).2.2]
  | acceptedGoal =>
      obtain ⟨_, row, _, hr, _⟩ := statusOf_eq_acceptedGoal hs
      simp [hr, Table.size_put_of_some _ hr]
  | _ => simp

/-- The row left under the event's own key. -/
def rowAfter (status : IngestStatus) (event : ExperimentEvent) (source : Source)
    (current : Option AssignmentRow) : Option AssignmentRow :=
  match status with
  | .acceptedExposure => some (exposureRow event source)
  | .acceptedGoal =>
      current.map fun row => { row with goal := some (goalDetails event source event.kind.value) }
  | _ => current

/-- Only the row under the event's key can change. -/
theorem get_ingest (ledger : ExperimentLedger) (project : String) (event : ExperimentEvent)
    (source : Source) (key : AssignmentKey) :
    (ledger.ingest project event source).1.assignments.get key =
      if key = assignmentKey project event then
        rowAfter (ledger.statusOf project event source) event source (ledger.assignments.get key)
      else ledger.assignments.get key := by
  rw [ingest_assignments]
  unfold assignmentsAfter
  by_cases hk : key = assignmentKey project event
  · subst hk
    rw [if_pos rfl]
    cases hs : ledger.statusOf project event source <;>
      cases hr : ledger.assignments.get (assignmentKey project event) <;> simp [rowAfter, hr]
  · rw [if_neg hk]
    split
    · exact Table.get_put_of_ne _ _ hk
    · exact Table.get_put_of_ne _ _ hk
    · rfl

theorem totalsAt_updateTotals (ledger : ExperimentLedger) (project experiment variant : String)
    (source : Source) (mutate : Totals → Totals) (key : TotalsKey) :
    (ledger.updateTotals project experiment variant source mutate).totalsAt key =
      if key = totalsKey project experiment variant source then mutate (ledger.totalsAt key)
      else ledger.totalsAt key := by
  unfold updateTotals totalsAt
  rw [Table.get_put]
  split_ifs with h
  · rw [h]
    rfl
  · rfl

/-- Only the totals under the event's key and source can change. -/
theorem totalsAt_ingest (ledger : ExperimentLedger) (project : String) (event : ExperimentEvent)
    (source : Source) (key : TotalsKey) :
    (ledger.ingest project event source).1.totalsAt key =
      if key = totalsKey project event.experiment event.variant source then
        countUntrusted source (counted (ledger.statusOf project event source) event.kind.value
          (ledger.totalsAt key))
      else ledger.totalsAt key := by
  rw [ingest_eq]
  exact totalsAt_updateTotals _ _ _ _ _ _ key

/-! ## Reading evidence -/

/-- One row of `totals(project, experiment)`; its `key` is the variant. -/
structure TotalsRow extends Totals where
  key : String
  sourceRole : String
  trustClass : TrustClass
deriving DecidableEq, Repr

def totalsRow (entry : TotalsKey × Totals) : TotalsRow where
  toTotals := entry.2
  key := entry.1.variant
  sourceRole := entry.1.sourceRole
  trustClass := entry.1.trustClass

/-- `ORDER BY variant, trust_class, source_role`. -/
def inTotalsOrder (a b : TotalsRow) : Prop :=
  a.key < b.key ∨ a.key = b.key ∧
    (a.trustClass.text < b.trustClass.text ∨ a.trustClass = b.trustClass ∧
      a.sourceRole ≤ b.sourceRole)

instance : DecidableRel inTotalsOrder := fun a b => by
  unfold inTotalsOrder
  infer_instance

def totals (ledger : ExperimentLedger) (project experiment : String) : List TotalsRow :=
  (((ledger.totalsRows.entries.filter fun entry =>
      entry.1.project = project ∧ entry.1.experiment = experiment).map totalsRow).insertionSort
    inTotalsOrder)

theorem mem_totals_iff (ledger : ExperimentLedger) (project experiment : String)
    (row : TotalsRow) :
    row ∈ ledger.totals project experiment ↔
      ledger.totalsRows.get ⟨project, experiment, row.key, row.sourceRole, row.trustClass⟩ =
        some row.toTotals := by
  unfold totals
  rw [List.mem_insertionSort, Table.get_eq_some_iff]
  simp only [List.mem_map, List.mem_filter, Prod.exists, decide_eq_true_eq]
  constructor
  · rintro ⟨⟨p, e, v, r, c⟩, t, ⟨hm, rfl, rfl⟩, rfl⟩
    exact hm
  · intro hm
    exact ⟨_, _, ⟨hm, rfl, rfl⟩, rfl⟩

def hasTrustedExposure (ledger : ExperimentLedger) (project experiment : String) : Bool :=
  (ledger.totals project experiment).any fun row =>
    row.trustClass = .trusted && 0 < row.exposures

def hasAnyEvidence (ledger : ExperimentLedger) (project experiment : String) : Bool :=
  (ledger.totals project experiment).any fun row => 0 < row.exposures || 0 < row.goals

theorem hasTrustedExposure_iff (ledger : ExperimentLedger) (project experiment : String) :
    ledger.hasTrustedExposure project experiment = true ↔
      ∃ variant role,
        0 < (ledger.totalsAt ⟨project, experiment, variant, role, .trusted⟩).exposures := by
  unfold hasTrustedExposure totalsAt
  simp only [List.any_eq_true, mem_totals_iff, Bool.and_eq_true, decide_eq_true_eq]
  constructor
  · rintro ⟨row, hrow, htrust, hpos⟩
    rw [htrust] at hrow
    exact ⟨row.key, row.sourceRole, by simpa [hrow] using hpos⟩
  · rintro ⟨variant, role, hpos⟩
    cases hg : ledger.totalsRows.get ⟨project, experiment, variant, role, .trusted⟩ with
    | none => simp [hg, emptyTotals] at hpos
    | some t => exact ⟨⟨t, variant, role, .trusted⟩, hg, rfl, by simpa [hg] using hpos⟩

theorem hasAnyEvidence_iff (ledger : ExperimentLedger) (project experiment : String) :
    ledger.hasAnyEvidence project experiment = true ↔
      ∃ variant role trust,
        0 < (ledger.totalsAt ⟨project, experiment, variant, role, trust⟩).exposures ∨
          0 < (ledger.totalsAt ⟨project, experiment, variant, role, trust⟩).goals := by
  unfold hasAnyEvidence totalsAt
  simp only [List.any_eq_true, mem_totals_iff, Bool.or_eq_true, decide_eq_true_eq]
  constructor
  · rintro ⟨row, hrow, hpos⟩
    exact ⟨row.key, row.sourceRole, row.trustClass, by simpa [hrow] using hpos⟩
  · rintro ⟨variant, role, trust, hpos⟩
    cases hg : ledger.totalsRows.get ⟨project, experiment, variant, role, trust⟩ with
    | none => simp [hg, emptyTotals] at hpos
    | some t => exact ⟨⟨t, variant, role, trust⟩, hg, by simpa [hg] using hpos⟩

/-! ## Expiry -/

def hasAssignmentRows (ledger : ExperimentLedger) (project experiment : String) : Bool :=
  ledger.assignments.entries.any fun entry =>
    entry.1.project = project && entry.1.experiment = experiment

theorem hasAssignmentRows_iff (ledger : ExperimentLedger) (project experiment : String) :
    ledger.hasAssignmentRows project experiment = true ↔
      ∃ hash row, ledger.assignments.get ⟨project, experiment, hash⟩ = some row := by
  unfold hasAssignmentRows
  rw [Table.any_entries_iff]
  simp only [Bool.and_eq_true, decide_eq_true_eq]
  constructor
  · rintro ⟨⟨p, e, hash⟩, row, hg, rfl, rfl⟩
    exact ⟨hash, row, hg⟩
  · rintro ⟨hash, row, hg⟩
    exact ⟨⟨project, experiment, hash⟩, row, hg, rfl, rfl⟩

/-- Rows of one experiment with no expiry yet get one. -/
def withExpiry (ledger : ExperimentLedger) (project experiment : String) (expiresAt : ℕ) :
    ExperimentLedger :=
  { ledger with
    assignments := ledger.assignments.mapValues fun key row =>
      if key.project = project ∧ key.experiment = experiment ∧ row.expiresAt = 0 then
        { row with expiresAt := expiresAt }
      else row }

def scheduleExpiry (ledger : ExperimentLedger) (project experiment : String) (expiresAt : ℚ) :
    Except String ExperimentLedger := do
  assertNonEmptyString project "project"
  assertNonEmptyString experiment "experiment"
  require (isNatural expiresAt && decide (1 ≤ expiresAt)) "expiresAt must be an integer >= 1"
  pure (ledger.withExpiry project experiment expiresAt.num.toNat)

def clearExpiry (ledger : ExperimentLedger) (project experiment : String) : ExperimentLedger :=
  { ledger with
    assignments := ledger.assignments.mapValues fun key row =>
      if key.project = project ∧ key.experiment = experiment then { row with expiresAt := 0 }
      else row }

/-- Rows whose expiry has come are deleted; totals and decisions stay. -/
def pruneExpired (ledger : ExperimentLedger) (now : ℕ) : ExperimentLedger :=
  { ledger with
    assignments := ledger.assignments.filter fun _ row =>
      !(decide (0 < row.expiresAt) && decide (row.expiresAt ≤ now)) }

/-! ## Terminal decisions -/

def readTerminalDecision (ledger : ExperimentLedger) (project experiment : String) :
    Option Decision :=
  (ledger.terminalDecisions.get (project, experiment)).map TerminalDecisionRow.decision

def assertTerminalDecision (decision : Decision) : Except String Unit := do
  require decision.status.isTerminal
    "terminal decision status must be winner, no_difference, inconclusive, or invalid"
  require (decision.method.any fun method => method ≠ "")
    "terminal decision.method must be a non-empty string"
  require decision.terminalInput.isSome "terminal decision.terminalInput must be an object"

/-- The first decision stays; a later call returns it. -/
def persistTerminalDecision (ledger : ExperimentLedger) (project experiment : String)
    (decision : Decision) (decidedAt : ℕ) : Except String (ExperimentLedger × Decision) := do
  assertNonEmptyString project "project"
  assertNonEmptyString experiment "experiment"
  match ledger.readTerminalDecision project experiment with
  | some existing => pure (ledger, existing)
  | none =>
      assertTerminalDecision decision
      pure ({ ledger with
        terminalDecisions :=
          ledger.terminalDecisions.put (project, experiment) ⟨decidedAt, decision⟩ }, decision)

/-- Both writes are one transaction: a failure of either leaves the ledger as it was. -/
def persistTerminalDecisionAndScheduleExpiry (ledger : ExperimentLedger)
    (project experiment : String) (decision : Decision) (expiresAt : ℚ) (decidedAt : ℕ) :
    Except String (ExperimentLedger × Decision) := do
  let (persisted, stored) ← ledger.persistTerminalDecision project experiment decision decidedAt
  let scheduled ← persisted.scheduleExpiry project experiment expiresAt
  pure (scheduled, stored)

end ExperimentLedger
end Wardx
