import Wardx.Control.ControlEffects
import Wardx.Lib.SubjectLog

/-!
# The log of accepted evidence

The ledger answers every event with a status. The log of a run keeps what it
accepted, under the unit and the totals it counts in, and the units whose rows
were pruned. The stored rows and totals are read off it: a row is the state its
unit's history ends in, and the totals sum what was accepted under their key.

A unit lives by a fixed cycle: exposed, converted at most once under the totals
of its exposure, removed. `Lives` is that cycle, and the counts follow from it.
-/
namespace Wardx

open Lib

/-! ## The life of a unit -/

inductive UnitEvent
  | exposed (slot : TotalsKey)
  | converted (slot : TotalsKey) (value : ℚ)
  | removed
deriving DecidableEq, Repr

/-- The totals a unit was exposed in, and the value it converted with. -/
abbrev UnitState := Option (TotalsKey × Option ℚ)

inductive Lives : List UnitEvent → UnitState → Prop
  | unseen : Lives [] none
  | exposed {history : List UnitEvent} (slot : TotalsKey) (h : Lives history none) :
      Lives (history ++ [.exposed slot]) (some (slot, none))
  | converted {history : List UnitEvent} {slot : TotalsKey} (value : ℚ)
      (h : Lives history (some (slot, none))) :
      Lives (history ++ [.converted slot value]) (some (slot, some value))
  | removed {history : List UnitEvent} {held : TotalsKey × Option ℚ}
      (h : Lives history (some held)) : Lives (history ++ [.removed]) none

namespace UnitEvent

def isExposure : UnitEvent → Bool
  | .exposed _ => true
  | _ => false

def isConversion : UnitEvent → Bool
  | .converted _ _ => true
  | _ => false

def isRemoval : UnitEvent → Bool
  | .removed => true
  | _ => false

/-- An exposure that counts in the totals under `slot`. -/
def exposesIn (slot : TotalsKey) (event : UnitEvent) : Bool := event = .exposed slot

/-- The value that counts in the totals under `slot`. -/
def valueIn (slot : TotalsKey) : UnitEvent → Option ℚ
  | .converted slot' value => if slot' = slot then some value else none
  | _ => none

end UnitEvent

open UnitEvent

/-- The exposures of a unit are its removals, and one more while it has a row. -/
theorem Lives.exposures {history : List UnitEvent} {state : UnitState} (h : Lives history state) :
    history.countP isExposure = history.countP isRemoval + if state.isSome then 1 else 0 := by
  induction h with
  | unseen => rfl
  | exposed slot _ ih => simpa [isExposure, isRemoval] using ih
  | converted value _ ih => simpa [isExposure, isRemoval] using ih
  | removed _ ih => simpa [isExposure, isRemoval] using ih

/-- Each conversion has an exposure of its own. -/
theorem Lives.conversions {history : List UnitEvent} {state : UnitState} (h : Lives history state) :
    history.countP isConversion + (if state.any fun held => held.2.isNone then 1 else 0) ≤
      history.countP isExposure := by
  induction h with
  | unseen => exact Nat.le_refl 0
  | exposed slot _ ih => simpa [isExposure, isConversion] using ih
  | converted value _ ih => simpa [isExposure, isConversion] using ih
  | removed _ ih =>
      simp [isExposure, isConversion] at ih ⊢
      omega

/-- Also among the events of one key of the totals. -/
theorem Lives.conversionsIn (slot : TotalsKey) {history : List UnitEvent} {state : UnitState}
    (h : Lives history state) :
    history.countP (fun event => (valueIn slot event).isSome) +
        (if state = some (slot, none) then 1 else 0) ≤
      history.countP (exposesIn slot) := by
  induction h with
  | unseen => exact Nat.le_refl 0
  | exposed own _ ih =>
      by_cases hown : own = slot
      · subst hown
        simpa [exposesIn, valueIn] using ih
      · simpa [exposesIn, valueIn, hown] using ih
  | @converted _ own value _ ih =>
      by_cases hown : own = slot
      · subst hown
        simpa [exposesIn, valueIn] using ih
      · simpa [exposesIn, valueIn, hown] using ih
  | removed _ ih =>
      simp [exposesIn, valueIn] at ih ⊢
      omega

/-! ## What the log says of the totals -/

abbrev EvidenceLog := List (AssignmentKey × UnitEvent)

namespace EvidenceLog

def exposures (log : EvidenceLog) (slot : TotalsKey) : ℕ :=
  log.countP fun entry => exposesIn slot entry.2

/-- The values of the goals counted under a key. -/
def values (log : EvidenceLog) (slot : TotalsKey) : List ℚ :=
  log.filterMap fun entry => valueIn slot entry.2

theorem exposures_append (xs ys : EvidenceLog) (slot : TotalsKey) :
    (xs ++ ys : EvidenceLog).exposures slot = exposures xs slot + exposures ys slot :=
  List.countP_append

theorem values_append (xs ys : EvidenceLog) (slot : TotalsKey) :
    (xs ++ ys : EvidenceLog).values slot = values xs slot ++ values ys slot :=
  List.filterMap_append

theorem length_values (log : EvidenceLog) (slot : TotalsKey) :
    (log.values slot).length = log.countP fun entry => (valueIn slot entry.2).isSome :=
  List.length_filterMap_eq_countP

end EvidenceLog

/-- The totals of a key are the sums over the log. -/
structure Sums (log : EvidenceLog) (slot : TotalsKey) (totals : Totals) : Prop where
  exposures : totals.exposures = log.exposures slot
  goals : totals.goals = (log.values slot).length
  goalSum : totals.goalSum = (log.values slot).sum
  goalSumSq : totals.goalSumSq = ((log.values slot).map fun value => value * value).sum

/-- Totals whose accepted evidence is the same. -/
theorem Sums.of_same {log : EvidenceLog} {slot : TotalsKey} {totals after : Totals}
    (h : Sums log slot totals) (hexposures : after.exposures = totals.exposures)
    (hgoals : after.goals = totals.goals) (hsum : after.goalSum = totals.goalSum)
    (hsumSq : after.goalSumSq = totals.goalSumSq) : Sums log slot after :=
  ⟨hexposures.trans h.exposures, hgoals.trans h.goals, hsum.trans h.goalSum, hsumSq.trans h.goalSumSq⟩

theorem sum_mul_self_nonneg (values : List ℚ) :
    0 ≤ (values.map fun value => value * value).sum := by
  induction values with
  | nil => exact le_refl 0
  | cons v values ih =>
      rw [List.map_cons, List.sum_cons]
      exact add_nonneg (mul_self_nonneg v) ih

/-- The square of a sum is at most the count times the sum of squares. -/
theorem sum_sq_le (values : List ℚ) :
    values.sum ^ 2 ≤ values.length * (values.map fun value => value * value).sum := by
  induction values with
  | nil => simp
  | cons v values ih =>
      have hnonneg := sum_mul_self_nonneg values
      rw [List.sum_cons, List.map_cons, List.sum_cons, List.length_cons, Nat.cast_succ]
      generalize values.sum = s, (values.map fun value => value * value).sum = q at ih hnonneg ⊢
      cases hlength : values.length with
      | zero =>
          rw [hlength, Nat.cast_zero, zero_mul] at ih
          have hs : s = 0 := pow_eq_zero_iff two_ne_zero |>.mp (le_antisymm ih (sq_nonneg s))
          rw [hs]
          nlinarith
      | succ n =>
          rw [hlength] at ih
          have hpos : (0 : ℚ) < (n + 1 : ℕ) := Nat.cast_pos.mpr (Nat.succ_pos n)
          generalize ((n + 1 : ℕ) : ℚ) = count at ih hpos ⊢
          -- the mixed term is bounded by the square of `count * v - s`
          have hmixed : 0 ≤ count * (count * (v * v) + q - 2 * (s * v)) := by
            nlinarith [sq_nonneg (count * v - s)]
          have hrest := nonneg_of_mul_nonneg_right hmixed hpos
          nlinarith

/-! ## What the ledger accepts -/

namespace ExperimentLedger

/-- The totals a row was exposed in. -/
def slotOf (unit : AssignmentKey) (row : AssignmentRow) : TotalsKey :=
  ⟨unit.project, unit.experiment, row.variant, row.sourceRole, row.trustClass⟩

/-- The state a unit's row stands for. -/
def unitState (ledger : ExperimentLedger) (unit : AssignmentKey) : UnitState :=
  (ledger.assignments.get unit).map fun row => (slotOf unit row, row.goal.map GoalDetails.value)

/-- What the log keeps of an event that got `status`. -/
def logged (project : String) (event : ExperimentEvent) (source : Source) (status : IngestStatus) :
    EvidenceLog :=
  let slot := totalsKey project event.experiment event.variant source
  match status with
  | .acceptedExposure => [(assignmentKey project event, .exposed slot)]
  | .acceptedGoal => [(assignmentKey project event, .converted slot event.kind.value)]
  | _ => []

/-- The events of a batch with the answers it got. -/
def loggedAll (project : String) (source : Source) (events : List ExperimentEvent)
    (results : List IngestResult) : EvidenceLog :=
  (events.zip results).flatMap fun pair => logged project pair.1 source pair.2.status

def batchLog (settings : LedgerSettings) (ledger : ExperimentLedger) (batch : Batch) : EvidenceLog :=
  match ingestBatch settings ledger batch.project batch.events batch.source with
  | .ok (_, results) => loggedAll batch.project batch.source batch.events results
  | .error _ => []

/-- A row whose expiry has come. -/
def isExpired (now : ℕ) (row : AssignmentRow) : Bool :=
  decide (0 < row.expiresAt) && decide (row.expiresAt ≤ now)

/-- The rows `pruneExpired` deletes. -/
def prunedLog (ledger : ExperimentLedger) (now : ℕ) : EvidenceLog :=
  (ledger.assignments.entries.filter fun entry => isExpired now entry.2).map fun entry =>
    (entry.1, .removed)

/-- The rows are the states of the histories, and the totals the sums of the log. -/
structure Accounts (log : EvidenceLog) (ledger : ExperimentLedger) : Prop where
  units : ∀ unit, Lives (history unit log) (ledger.unitState unit)
  totals : ∀ slot, Sums log slot (ledger.totalsAt slot)

theorem accounts_empty : Accounts [] empty := by
  refine ⟨fun unit => Lives.unseen, fun slot => ?_⟩
  exact ⟨rfl, rfl, rfl, rfl⟩

section
variable {log : EvidenceLog} {ledger : ExperimentLedger}

theorem history_logged_of_ne {unit : AssignmentKey} {project : String} {event : ExperimentEvent}
    (h : unit ≠ assignmentKey project event) (source : Source) (status : IngestStatus) :
    history unit (logged project event source status) = [] := by
  apply history_eq_nil
  intro entry hentry hunit
  cases status <;> simp [logged] at hentry
  · rw [hentry] at hunit
    exact h hunit.symm
  · rw [hentry] at hunit
    exact h hunit.symm

theorem unitState_of_get {a b : ExperimentLedger} {unit : AssignmentKey}
    (h : a.assignments.get unit = b.assignments.get unit) : a.unitState unit = b.unitState unit := by
  unfold unitState
  rw [h]

/-- An event moves its own unit along, and no other. -/
theorem lives_ingest (h : ∀ unit, Lives (history unit log) (ledger.unitState unit))
    (project : String) (event : ExperimentEvent) (source : Source) (unit : AssignmentKey) :
    Lives (history unit (log ++ logged project event source (ledger.statusOf project event source)))
      ((ledger.ingest project event source).1.unitState unit) := by
  have hget := get_ingest ledger project event source unit
  rw [history_append]
  by_cases hunit : unit = assignmentKey project event
  · rw [if_pos hunit] at hget
    have hlives := h unit
    unfold unitState at hlives ⊢
    rw [hget]
    subst hunit
    cases hstatus : ledger.statusOf project event source with
    | acceptedExposure =>
        rw [(statusOf_eq_acceptedExposure hstatus).2.2] at hlives
        have hlast := hlives.exposed (totalsKey project event.experiment event.variant source)
        simpa [logged, history_cons, rowAfter, exposureRow, slotOf, totalsKey, assignmentKey] using hlast
    | acceptedGoal =>
        obtain ⟨value, row, hkind, hrow, _, _, hvariant, hrole, htrust, hgoal⟩ :=
          statusOf_eq_acceptedGoal hstatus
        have hslot : slotOf (assignmentKey project event) row =
            totalsKey project event.experiment event.variant source := by
          unfold slotOf totalsKey assignmentKey
          rw [hvariant, hrole, htrust]
        rw [hrow, Option.map_some, hgoal, hslot] at hlives
        have hlast := hlives.converted event.kind.value
        have hafter : ((rowAfter .acceptedGoal event source (some row)).map fun row =>
            (slotOf (assignmentKey project event) row, row.goal.map GoalDetails.value)) =
              some (totalsKey project event.experiment event.variant source,
                some event.kind.value) := by
          rw [← hslot]
          rfl
        rw [hrow, hafter]
        simpa [logged, history_cons] using hlast
    | _ => simpa [logged, rowAfter] using hlives
  · rw [if_neg hunit] at hget
    rw [history_logged_of_ne hunit, List.append_nil, unitState_of_get hget]
    exact h unit

theorem exposures_logged_of_ne {slot : TotalsKey} {project : String} {event : ExperimentEvent}
    {source : Source} (h : slot ≠ totalsKey project event.experiment event.variant source)
    (status : IngestStatus) :
    (logged project event source status).exposures slot = 0 ∧
      (logged project event source status).values slot = [] := by
  cases status <;>
    simp [logged, EvidenceLog.exposures, EvidenceLog.values, exposesIn, valueIn, Ne.symm h]

/-- An event raises the sums of the log as it raises the totals. -/
theorem sums_ingest (h : ∀ slot, Sums log slot (ledger.totalsAt slot)) (project : String)
    (event : ExperimentEvent) (source : Source) (slot : TotalsKey) :
    Sums (log ++ logged project event source (ledger.statusOf project event source)) slot
      ((ledger.ingest project event source).1.totalsAt slot) := by
  have hsums := h slot
  rw [totalsAt_ingest]
  by_cases hslot : slot = totalsKey project event.experiment event.variant source
  · rw [if_pos hslot]
    have hcounted : Sums (log ++ logged project event source (ledger.statusOf project event source))
        slot (counted (ledger.statusOf project event source) event.kind.value
          (ledger.totalsAt slot)) := by
      subst hslot
      obtain ⟨hexposures, hgoals, hsum, hsumSq⟩ := hsums
      cases ledger.statusOf project event source with
      | acceptedExposure =>
          refine ⟨?_, ?_, ?_, ?_⟩
          · rw [EvidenceLog.exposures_append, ← hexposures]
            simp [counted, logged, EvidenceLog.exposures, exposesIn]
          · rw [EvidenceLog.values_append, List.length_append, ← hgoals]
            simp [counted, logged, EvidenceLog.values, valueIn]
          · rw [EvidenceLog.values_append, List.sum_append, ← hsum]
            simp [counted, logged, EvidenceLog.values, valueIn]
          · rw [EvidenceLog.values_append, List.map_append, List.sum_append, ← hsumSq]
            simp [counted, logged, EvidenceLog.values, valueIn]
      | acceptedGoal =>
          refine ⟨?_, ?_, ?_, ?_⟩
          · rw [EvidenceLog.exposures_append, ← hexposures]
            simp [counted, logged, EvidenceLog.exposures, exposesIn]
          · rw [EvidenceLog.values_append, List.length_append, ← hgoals]
            simp [counted, logged, EvidenceLog.values, valueIn]
          · rw [EvidenceLog.values_append, List.sum_append, ← hsum]
            simp [counted, logged, EvidenceLog.values, valueIn]
          · rw [EvidenceLog.values_append, List.map_append, List.sum_append, ← hsumSq]
            simp [counted, logged, EvidenceLog.values, valueIn]
      | _ =>
          simp only [logged, List.append_nil]
          exact ⟨hexposures, hgoals, hsum, hsumSq⟩
    unfold countUntrusted
    split_ifs
    · exact hcounted
    · exact hcounted.of_same rfl rfl rfl rfl
  · rw [if_neg hslot]
    obtain ⟨hexposures, hvalues⟩ := exposures_logged_of_ne hslot
      (ledger.statusOf project event source)
    refine ⟨?_, ?_, ?_, ?_⟩
    · rw [EvidenceLog.exposures_append, hexposures, Nat.add_zero]
      exact hsums.exposures
    · rw [EvidenceLog.values_append, hvalues, List.append_nil]
      exact hsums.goals
    · rw [EvidenceLog.values_append, hvalues, List.append_nil]
      exact hsums.goalSum
    · rw [EvidenceLog.values_append, hvalues, List.append_nil]
      exact hsums.goalSumSq

theorem Accounts.ingest (h : Accounts log ledger) (project : String) (event : ExperimentEvent)
    (source : Source) :
    Accounts (log ++ logged project event source (ledger.statusOf project event source))
      (ledger.ingest project event source).1 :=
  ⟨lives_ingest h.units project event source, sums_ingest h.totals project event source⟩

theorem Accounts.ingestAll (h : Accounts log ledger) (project : String) (source : Source)
    (events : List ExperimentEvent) :
    Accounts (log ++ loggedAll project source events (ledger.ingestAll project source events).2)
      (ledger.ingestAll project source events).1 := by
  induction events generalizing log ledger with
  | nil =>
      show Accounts (log ++ []) ledger
      rw [List.append_nil]
      exact h
  | cons event events ih =>
      have hrest := ih (h.ingest project event source)
      rw [List.append_assoc] at hrest
      have hstatus : (ledger.ingest project event source).2 =
          ledger.statusOf project event source := ingest_status ledger project event source
      rw [← hstatus] at hrest
      exact hrest

/-- A change of rejection counters and of nothing else. -/
theorem Accounts.same (h : Accounts log ledger) {after : ExperimentLedger}
    (hsame : SameEvidence ledger after) : Accounts log after := by
  refine ⟨fun unit => ?_, fun slot => ?_⟩
  · have hstate : after.unitState unit = ledger.unitState unit := by
      apply unitState_of_get
      rw [hsame.assignments]
    rw [hstate]
    exact h.units unit
  · have htotals := hsame.totals slot
    have hexposures := congrArg Totals.exposures htotals
    have hgoals := congrArg Totals.goals htotals
    have hsum := congrArg Totals.goalSum htotals
    have hsumSq := congrArg Totals.goalSumSq htotals
    exact (h.totals slot).of_same hexposures hgoals hsum hsumSq

/-- The status a preflight rejects with is not one of acceptance. -/
theorem preflightStep_rejects {project : String} {source : Source} {state : PreflightState}
    {event : ExperimentEvent} {rejected : Rejected}
    (h : preflightStep ledger project source state event = .error rejected) :
    rejected.status = .variantConflict ∨ rejected.status = .missingExposure := by
  unfold preflightStep at h
  dsimp only at h
  split_ifs at h
  · cases h
    exact Or.inl rfl
  · split at h
    · split at h <;> cases h
    · split at h
      · cases h
        exact Or.inr rfl
      · split_ifs at h
        cases h
        exact Or.inr rfl

theorem preflight_rejects {project : String} {source : Source} {events : List ExperimentEvent}
    {rejected : Rejected} (h : (ledger.preflight project events source).rejected = some rejected) :
    rejected.status = .variantConflict ∨ rejected.status = .missingExposure := by
  have key : ∀ state, (preflightFrom ledger project source state events).rejected = some rejected →
      rejected.status = .variantConflict ∨ rejected.status = .missingExposure := by
    clear h
    induction events with
    | nil =>
        intro state h
        cases h
    | cons event events ih =>
        intro state h
        unfold preflightFrom at h
        split at h
        · exact ih _ h
        · rename_i own hstep
          cases h
          exact preflightStep_rejects hstep
  exact key _ h

theorem loggedAll_rejected {project : String} {source : Source} (events : List ExperimentEvent)
    {rejected : Rejected}
    (h : rejected.status = .variantConflict ∨ rejected.status = .missingExposure) :
    loggedAll project source events [⟨rejected.status, rejected.event.experiment⟩] = [] := by
  cases events with
  | nil => rfl
  | cons event events =>
      rcases h with h | h
      · simp [loggedAll, logged, h]
      · simp [loggedAll, logged, h]

/-- A batch moves the ledger along with what the log keeps of its answers. -/
theorem Accounts.batch (settings : LedgerSettings) (h : Accounts log ledger) (batch : Batch) :
    Accounts (log ++ batchLog settings ledger batch) (afterBatch settings ledger batch) := by
  unfold batchLog afterBatch
  cases hok : ingestBatch settings ledger batch.project batch.events batch.source with
  | error e =>
      rw [List.append_nil]
      exact h
  | ok answer =>
      obtain ⟨after, results⟩ := answer
      dsimp only
      rcases (ingestBatch_cases hok).2 with ⟨hnil, rfl, rfl⟩ | ⟨rejected, hrejected, rfl, rfl⟩ |
        ⟨_, heq, _⟩
      · rw [hnil]
        show Accounts (log ++ []) _
        rw [List.append_nil]
        exact h
      · rw [loggedAll_rejected batch.events (preflight_rejects hrejected), List.append_nil]
        exact h.same (SameEvidence.recordRejection _ _ _ _ _)
      · have hall := h.ingestAll batch.project batch.source batch.events
        rw [← heq] at hall
        exact hall

/-- Pruning removes the units whose rows it deletes. -/
theorem Accounts.pruneExpired (h : Accounts log ledger) (now : ℕ) :
    Accounts (log ++ ledger.prunedLog now) (ledger.pruneExpired now) := by
  have hkeys : ((ledger.prunedLog now).map Prod.fst).Nodup := by
    unfold prunedLog
    rw [List.map_map]
    exact ledger.assignments.nodup.sublist (List.filter_sublist.map Prod.fst)
  refine ⟨fun unit => ?_, fun slot => ?_⟩
  · have hlives := h.units unit
    have hmem : ∀ row, ledger.assignments.get unit = some row → isExpired now row = true →
        (unit, UnitEvent.removed) ∈ ledger.prunedLog now := by
      intro row hrow hexpired
      have hentry := (Table.get_eq_some_iff ledger.assignments unit row).mp hrow
      exact List.mem_map.mpr ⟨(unit, row), List.mem_filter.mpr ⟨hentry, hexpired⟩, rfl⟩
    have hother : (∀ row, ledger.assignments.get unit = some row → isExpired now row = false) →
        history unit (ledger.prunedLog now) = [] := by
      intro hkept
      apply history_eq_nil
      intro entry hentry hunit
      obtain ⟨⟨key, row⟩, hstored, rfl⟩ := List.mem_map.mp hentry
      obtain ⟨hstored, hexpired⟩ := List.mem_filter.mp hstored
      have hunit' : key = unit := hunit
      subst hunit'
      have hrow := (Table.get_eq_some_iff ledger.assignments key row).mpr hstored
      rw [hkept row hrow] at hexpired
      cases hexpired
    have hget : (ledger.pruneExpired now).assignments.get unit =
        (ledger.assignments.get unit).filter fun row => !isExpired now row :=
      Table.get_filter _ _ unit
    rw [history_append]
    unfold unitState at hlives ⊢
    rw [hget]
    cases hrow : ledger.assignments.get unit with
    | none =>
        have hkept : ∀ row, ledger.assignments.get unit = some row → isExpired now row = false := by
          intro row hsome
          rw [hrow] at hsome
          cases hsome
        rw [hrow] at hlives
        rw [hother hkept, List.append_nil]
        exact hlives
    | some row =>
        rw [hrow] at hlives
        cases hexpired : isExpired now row with
        | true =>
            rw [history_of_nodup hkeys (hmem row hrow hexpired)]
            have hgone := hlives.removed
            rw [Option.filter_some, hexpired]
            exact hgone
        | false =>
            have hkept : ∀ own, ledger.assignments.get unit = some own →
                isExpired now own = false := by
              intro own hsome
              rw [hrow] at hsome
              cases hsome
              exact hexpired
            rw [hother hkept, List.append_nil]
            rw [Option.filter_some, hexpired]
            exact hlives
  · have hnothing : (ledger.prunedLog now).exposures slot = 0 ∧
        (ledger.prunedLog now).values slot = [] := by
      unfold prunedLog EvidenceLog.exposures EvidenceLog.values
      simp [exposesIn, valueIn, List.countP_map, Function.comp_def]
    have hsums := h.totals slot
    refine ⟨?_, ?_, ?_, ?_⟩
    · rw [EvidenceLog.exposures_append, hnothing.1, Nat.add_zero]
      exact hsums.exposures
    · rw [EvidenceLog.values_append, hnothing.2, List.append_nil]
      exact hsums.goals
    · rw [EvidenceLog.values_append, hnothing.2, List.append_nil]
      exact hsums.goalSum
    · rw [EvidenceLog.values_append, hnothing.2, List.append_nil]
      exact hsums.goalSumSq

end

end ExperimentLedger

namespace ControlService

open Json Control ExperimentLedger

/-! ## Ledgers after a control operation -/

/-- A relation that contains what control operations do to a ledger: they
schedule and clear expiries, and put a decision. -/
structure Keeps (R : ExperimentLedger → ExperimentLedger → Prop) : Prop where
  refl : ∀ ledger, R ledger ledger
  trans : ∀ {a b c}, R a b → R b c → R a c
  scheduled : ∀ ledger project id expiresAt, R ledger (ledger.withExpiry project id expiresAt)
  cleared : ∀ ledger project id, R ledger (ledger.clearExpiry project id)
  decided : ∀ ledger : ExperimentLedger, ∀ key row,
    R ledger { ledger with terminalDecisions := ledger.terminalDecisions.put key row }

/-- Two servers whose ledgers are related. -/
def Ledgers (R : ExperimentLedger → ExperimentLedger → Prop) (server after : Server) : Prop :=
  R server.ledger after.ledger

section
variable {R : ExperimentLedger → ExperimentLedger → Prop} (hR : Keeps R) {settings : ControlSettings}
  {server : Server}

include hR

theorem ledgers_refl (server : Server) : Ledgers R server server := hR.refl server.ledger

theorem keeps_persist {ledger after : ExperimentLedger} {project id : String}
    {decision stored : Decision} {expiresAt : ℚ} {decidedAt : ℕ}
    (h : ledger.persistTerminalDecisionAndScheduleExpiry project id decision expiresAt decidedAt =
      .ok (after, stored)) : R ledger after := by
  unfold ExperimentLedger.persistTerminalDecisionAndScheduleExpiry at h
  simp only [bind_eq_ok_iff, pure, Except.pure, Except.ok.injEq, Prod.mk.injEq] at h
  obtain ⟨⟨persisted, decided⟩, hpersist, scheduled, hschedule, rfl, _⟩ := h
  rw [scheduleExpiry_ok hschedule]
  refine hR.trans ?_ (hR.scheduled persisted project id _)
  unfold ExperimentLedger.persistTerminalDecision at hpersist
  simp only [bind_eq_ok_iff] at hpersist
  obtain ⟨_, _, _, _, hpersist⟩ := hpersist
  split at hpersist
  · cases hpersist
    exact hR.refl ledger
  · simp only [bind_eq_ok_iff, pure, Except.pure, Except.ok.injEq, Prod.mk.injEq] at hpersist
    obtain ⟨_, _, rfl, _⟩ := hpersist
    exact hR.decided ledger _ _

theorem keeps_persistDecision (project id : String) (decision : Decision) (definition : Json)
    (decidedAt : ℕ) :
    Ledgers R server (persistDecision project id decision definition decidedAt server).2 := by
  unfold persistDecision Action.transaction
  split
  · rename_i stored after hok
    simp only [bind_eq_ok_iff, pure, Except.pure, Except.ok.injEq, Prod.mk.injEq] at hok
    obtain ⟨⟨ledger, _⟩, hpersist, _, rfl⟩ := hok
    exact keeps_persist hR hpersist
  · exact ledgers_refl hR server

theorem keeps_reportPersisted (project id : String) (definition : Option Json)
    (persisted : Decision) (decidedAt : ℕ) :
    Ledgers R server (reportPersisted project id definition persisted decidedAt server).2 := by
  cases definition with
  | none => exact ledgers_refl hR server
  | some definition =>
      have hpersist : Ledgers R server
          (persistDecision project id persisted definition decidedAt server).2 :=
        keeps_persistDecision hR project id persisted definition decidedAt
      refine Action.bind_last ?_ ?_
      · intro e m hm
        rw [hm] at hpersist
        exact hpersist
      · intro decision m hm
        rw [hm] at hpersist
        split_ifs <;> exact hpersist

theorem keeps_decideNow (project id : String) (definition : Option Json)
    (variants : List VariantRow) (health : HealthCounts) (clock : AnalysisClock) :
    Ledgers R server (decideNow settings project id definition variants health clock server).2 := by
  unfold decideNow
  refine Action.check_bind_last (ledgers_refl hR server) fun decision _ => ?_
  cases definition with
  | none => exact ledgers_refl hR server
  | some row =>
      show Ledgers R server ((if _ then _ else _ : Service Decision) server).2
      split_ifs
      · exact keeps_persistDecision hR _ _ _ _ _
      · exact ledgers_refl hR server

theorem keeps_experimentStats (project id : String) (clock : AnalysisClock) :
    Ledgers R server (experimentStats settings project id clock server).2 := by
  have hstats : ∀ definition provenance, Ledgers R server
      (decideStats settings project id definition provenance clock server).2 := by
    intro definition provenance
    unfold decideStats
    rw [Action.read_bind]
    cases server.ledger.readTerminalDecision project id with
    | some persisted => exact keeps_reportPersisted hR _ _ _ _ _
    | none =>
        show Ledgers R server ((if _ then _ else _ : Service Decision) server).2
        split_ifs
        · exact ledgers_refl hR server
        · exact keeps_decideNow hR _ _ _ _ _ _
  unfold experimentStats
  refine Action.check_bind_last (ledgers_refl hR server) fun _ _ => ?_
  rw [Action.read_bind]
  refine Action.check_bind_last (ledgers_refl hR server) fun store _ => ?_
  have hown := hstats (servedDefinition store id) (server.ledger.totals project id)
  refine Action.bind_last ?_ ?_
  · intro e m hm
    rw [hm] at hown
    exact hown
  · intro decision m hm
    rw [hm] at hown
    exact hown

theorem keeps_shipExperiment (h : ServerOk server) (project id : String) (variant : Option String)
    (request : Request) (clock : AnalysisClock) (now : ℕ) :
    Ledgers R server
      (shipExperiment settings project id variant request clock now server).2 := by
  unfold shipExperiment
  refine Action.check_bind_last (ledgers_refl hR server) fun _ _ => ?_
  refine Action.check_bind_last (ledgers_refl hR server) fun _ _ => ?_
  have hstats : Ledgers R server (experimentStats settings project id clock server).2 :=
    keeps_experimentStats hR project id clock
  have hconcludes := experimentStats_concludes settings server project id clock
  refine Action.bind_last ?_ ?_
  · intro e m hm
    rw [hm] at hstats
    exact hstats
  · intro analysis m hm
    rw [hm] at hstats hconcludes
    have hok := hconcludes.serverOk h
    rw [Action.read_bind]
    refine Action.check_bind_last hstats fun shipment _ => ?_
    refine Action.check_bind_last hstats fun store _ => ?_
    show Ledgers R server ((if _ then _ else _ : Service ShipResult) m).2
    split_ifs
    · exact hstats
    · refine mutate_bind_last hok (fun _ _ => True) ?_ hstats ?_
      · intro r edited hr hedited
        obtain ⟨fields, _, hstate⟩ := shipEdit_written (hok.record project r hr) hedited
        exact ⟨_, trivial, hstate⟩
      · intro record after result written _ _
        refine Action.bind_last ?_ ?_
        · intro e m' hm'
          unfold ledgerWrite Action.transaction at hm'
          split at hm' <;> cases hm'
          exact hstats
        · intro _ m' hm'
          rw [ledgerWrite, Action.transaction_eq_ok_iff, bind_eq_ok_iff] at hm'
          obtain ⟨scheduled, hschedule, hm'⟩ := hm'
          cases hm'
          rw [scheduleExpiry_ok hschedule]
          exact hR.trans hstats (hR.scheduled _ _ _ _)

end

/-- A command that neither brings evidence nor prunes. -/
def Command.isControl : Command → Bool
  | .ledgerIngest .. | .pipelineIngest .. | .pruneExpired .. => false
  | _ => true

theorem keeps_step {R : ExperimentLedger → ExperimentLedger → Prop} (hR : Keeps R)
    {settings : ControlSettings} {server : Server} (h : ServerOk server) {command : Command}
    (hcontrol : Command.isControl command = true) :
    R server.ledger (step settings command server).ledger := by
  have heffect := step_effect settings h command
  cases command with
  | ledgerIngest => cases hcontrol
  | pipelineIngest => cases hcontrol
  | pruneExpired => cases hcontrol
  | experimentStats project id clock => exact keeps_experimentStats hR project id clock
  | shipExperiment project id variant request clock now =>
      exact keeps_shipExperiment hR h project id variant request clock now
  | setExperimentEnabled project id enabled request now =>
      generalize step settings _ server = after at heffect ⊢
      cases heffect with
      | same | unrelated => exact hR.refl _
      | enabled => exact hR.cleared _ _ _
      | disabled => exact hR.scheduled _ _ _ _
  | _ =>
      generalize step settings _ server = after at heffect ⊢
      cases heffect <;> exact hR.refl _

/-! ## The log of a run -/

/-- Rows change at most their expiry, and totals not at all. -/
structure Adjusted (before after : ExperimentLedger) : Prop where
  totalsRows : after.totalsRows = before.totalsRows
  units : ∀ unit, after.unitState unit = before.unitState unit

theorem unitState_mapValues {ledger : ExperimentLedger} {f : AssignmentKey → AssignmentRow → AssignmentRow}
    (hf : ∀ key row, slotOf key (f key row) = slotOf key row ∧ (f key row).goal = row.goal)
    (unit : AssignmentKey) :
    unitState { ledger with assignments := ledger.assignments.mapValues f } unit =
      ledger.unitState unit := by
  unfold unitState
  rw [Table.get_mapValues, Option.map_map]
  congr 1
  funext row
  have hrow := hf unit row
  simp only [Function.comp_apply]
  rw [hrow.1, hrow.2]

theorem keeps_adjusted : Keeps Adjusted where
  refl _ := ⟨rfl, fun _ => rfl⟩
  trans hab hbc := ⟨hbc.totalsRows.trans hab.totalsRows,
    fun unit => (hbc.units unit).trans (hab.units unit)⟩
  scheduled ledger project id expiresAt := by
    refine ⟨rfl, unitState_mapValues fun key row => ?_⟩
    split_ifs <;> exact ⟨rfl, rfl⟩
  cleared ledger project id := by
    refine ⟨rfl, unitState_mapValues fun key row => ?_⟩
    split_ifs <;> exact ⟨rfl, rfl⟩
  decided _ _ _ := ⟨rfl, fun _ => rfl⟩

theorem Adjusted.accounts {log : EvidenceLog} {before after : ExperimentLedger}
    (h : Adjusted before after) (haccounts : Accounts log before) : Accounts log after := by
  refine ⟨fun unit => ?_, fun slot => ?_⟩
  · rw [h.units unit]
    exact haccounts.units unit
  · have htotals : after.totalsAt slot = before.totalsAt slot := by
      unfold totalsAt
      rw [h.totalsRows]
    rw [htotals]
    exact haccounts.totals slot

/-- What an envelope adds to the log. -/
def envelopeLog (settings : ControlSettings) (project : String) (envelope : Envelope)
    (source : Source) (server : Server) : EvidenceLog :=
  match server.served.get project with
  | none => []
  | some store =>
      match validateExperimentEvents envelope store.snapshot.experiments with
      | .error _ => []
      | .ok _ => batchLog settings.ledger server.ledger ⟨project, experimentEvents envelope, source⟩

/-- What a command adds to the log. -/
def evidenceLog (settings : ControlSettings) (server : Server) : Command → EvidenceLog
  | .ledgerIngest project events source =>
      batchLog settings.ledger server.ledger ⟨project, events, source⟩
  | .pipelineIngest project envelope source => envelopeLog settings project envelope source server
  | .pruneExpired now => server.ledger.prunedLog now
  | _ => []

theorem accounts_envelope (settings : ControlSettings) {log : EvidenceLog} {server : Server}
    (h : Accounts log server.ledger) (project : String) (envelope : Envelope) (source : Source) :
    Accounts (log ++ envelopeLog settings project envelope source server)
      (ingestEnvelope settings project envelope source server).ledger := by
  unfold envelopeLog ingestEnvelope
  cases server.served.get project with
  | none =>
      rw [List.append_nil]
      exact h
  | some store =>
      cases hvalid : validateExperimentEvents envelope store.snapshot.experiments with
      | error e =>
          simp only [hvalid, List.append_nil]
          exact h
      | ok _ =>
          simp only [hvalid]
          exact h.batch settings.ledger ⟨project, experimentEvents envelope, source⟩

theorem accounts_step (settings : ControlSettings) {log : EvidenceLog} {server : Server}
    (hserver : ServerOk server) (h : Accounts log server.ledger) (command : Command) :
    Accounts (log ++ evidenceLog settings server command) (step settings command server).ledger := by
  have hquiet : Command.isControl command = true → evidenceLog settings server command = [] →
      Accounts (log ++ evidenceLog settings server command) (step settings command server).ledger := by
    intro hcontrol hnothing
    rw [hnothing, List.append_nil]
    exact (keeps_step keeps_adjusted hserver hcontrol).accounts h
  cases command with
  | ledgerIngest project events source => exact h.batch settings.ledger ⟨project, events, source⟩
  | pipelineIngest project envelope source => exact accounts_envelope settings h project envelope source
  | pruneExpired now => exact h.pruneExpired now
  | _ => exact hquiet rfl rfl

/-- The log of a run accounts for the ledger it leaves. -/
theorem accounts_run (settings : ControlSettings) (config : Config) (commands : List Command) :
    Accounts (outputs (evidenceLog settings) (step settings) (boot config) commands)
      (run (step settings) (boot config) commands).ledger := by
  have hstart : ServerOk (boot config) ∧ Accounts [] (boot config).ledger :=
    ⟨serverOk_boot config, accounts_empty⟩
  have hend := outputs_invariant
    (fun log server => ServerOk server ∧ Accounts log server.ledger) (evidenceLog settings)
    (fun log server command h => ⟨step_serverOk settings h.1 command,
      accounts_step settings h.1 h.2 command⟩) hstart commands
  exact hend.2

/-- In every run a unit is exposed once for each row it gets: again only after
its row was pruned, and never converted more often than exposed. -/
theorem exposed_once_a_row (settings : ControlSettings) (config : Config) (commands : List Command)
    (unit : AssignmentKey) :
    let events := history unit (outputs (evidenceLog settings) (step settings) (boot config) commands)
    let ledger := (run (step settings) (boot config) commands).ledger
    Lives events (ledger.unitState unit) ∧
      events.countP isExposure =
        events.countP isRemoval + (if (ledger.assignments.get unit).isSome then 1 else 0) ∧
      events.countP isConversion ≤ events.countP isExposure := by
  intro events ledger
  have hlives : Lives events (ledger.unitState unit) :=
    (accounts_run settings config commands).units unit
  refine ⟨hlives, ?_, Nat.le_of_add_right_le hlives.conversions⟩
  have hexposures := hlives.exposures
  unfold unitState at hexposures
  rw [Option.isSome_map] at hexposures
  exact hexposures

end ControlService

end Wardx
