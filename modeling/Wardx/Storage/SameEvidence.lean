import Wardx.Lib.Lockstep
import Wardx.Storage.LedgerBatch

/-!
# What the experiment ledger decides by

A batch is refused, late, a duplicate or accepted by the rows and the decisions
alone. Two ledgers that differ in the counters of rejected evidence answer every
batch alike and differ in no more afterwards.
-/
namespace Wardx.ExperimentLedger

open Lib

section
variable {a b : ExperimentLedger}

theorem SameEvidence.isTerminal (h : SameEvidence a b) (project experiment : String) :
    b.isTerminal project experiment = a.isTerminal project experiment := by
  unfold ExperimentLedger.isTerminal
  rw [h.decisions]

theorem SameEvidence.statusOf (h : SameEvidence a b) (project : String) (event : ExperimentEvent)
    (source : Source) : b.statusOf project event source = a.statusOf project event source := by
  unfold ExperimentLedger.statusOf
  rw [h.isTerminal, h.assignments]

theorem SameEvidence.preflightStep (h : SameEvidence a b) (project : String) (source : Source)
    (state : PreflightState) (event : ExperimentEvent) :
    b.preflightStep project source state event = a.preflightStep project source state event := by
  unfold ExperimentLedger.preflightStep currentView
  rw [h.isTerminal, h.assignments]

theorem SameEvidence.preflightFrom (h : SameEvidence a b) (project : String) (source : Source)
    (state : PreflightState) (events : List ExperimentEvent) :
    b.preflightFrom project source state events = a.preflightFrom project source state events := by
  induction events generalizing state with
  | nil => rfl
  | cons event events ih =>
      rw [ExperimentLedger.preflightFrom, ExperimentLedger.preflightFrom, h.preflightStep]
      cases a.preflightStep project source state event with
      | error rejected => rfl
      | ok next => exact ih next

/-- Counting one status in two totals that agree but for the rejections. -/
theorem withoutRejectionCounts_counted {source : Source} {status : IngestStatus} {value : ℚ}
    {s t : Totals} (h : withoutRejectionCounts t = withoutRejectionCounts s) :
    withoutRejectionCounts (countUntrusted source (counted status value t)) =
      withoutRejectionCounts (countUntrusted source (counted status value s)) := by
  have hany : ∀ totals, withoutRejectionCounts (countUntrusted source totals) =
      withoutRejectionCounts totals := by
    intro totals
    unfold countUntrusted
    split_ifs <;> rfl
  rw [hany, hany]
  simp only [withoutRejectionCounts, Totals.mk.injEq] at h ⊢
  cases status <;> simp [counted, h]

theorem SameEvidence.ingest (h : SameEvidence a b) (project : String) (event : ExperimentEvent)
    (source : Source) :
    SameEvidence (a.ingest project event source).1 (b.ingest project event source).1 where
  assignments := by
    rw [ingest_assignments, ingest_assignments, h.statusOf]
    unfold assignmentsAfter
    rw [h.assignments]
  decisions := by
    rw [ingest_terminalDecisions, ingest_terminalDecisions, h.decisions]
  totals key := by
    rw [totalsAt_ingest, totalsAt_ingest, h.statusOf]
    split_ifs
    · exact withoutRejectionCounts_counted (h.totals key)
    · exact h.totals key

theorem SameEvidence.ingestAll (h : SameEvidence a b) (project : String) (source : Source)
    (events : List ExperimentEvent) :
    SameEvidence (a.ingestAll project source events).1 (b.ingestAll project source events).1 ∧
      (b.ingestAll project source events).2 = (a.ingestAll project source events).2 := by
  induction events generalizing a b with
  | nil => exact ⟨h, rfl⟩
  | cons event events ih =>
      obtain ⟨hrest, hresults⟩ := ih (h.ingest project event source)
      refine ⟨hrest, ?_⟩
      rw [ExperimentLedger.ingestAll, ExperimentLedger.ingestAll]
      dsimp only
      rw [hresults, ingest_status, ingest_status, h.statusOf]

theorem SameEvidence.symm (h : SameEvidence a b) : SameEvidence b a :=
  ⟨h.assignments.symm, h.decisions.symm, fun key => (h.totals key).symm⟩

/-- A batch ends alike on both. -/
theorem SameEvidence.ingestBatch (h : SameEvidence a b) (settings : LedgerSettings)
    (project : String) (events : List ExperimentEvent) (source : Source) :
    EndsAlike (fun x y => SameEvidence x.1 y.1 ∧ y.2 = x.2)
      (a.ingestBatch settings project events source)
      (b.ingestBatch settings project events source) := by
  unfold ExperimentLedger.ingestBatch
  refine EndsAlike.after _ fun _ => EndsAlike.after _ fun _ => EndsAlike.after _ fun _ =>
    EndsAlike.after _ fun _ => ?_
  by_cases hnil : events = []
  · rw [if_pos hnil, if_pos hnil]
    exact ⟨h, rfl⟩
  · rw [if_neg hnil, if_neg hnil, preflight, preflight, h.preflightFrom, h.assignments]
    refine EndsAlike.after _ fun _ => ?_
    cases (a.preflightFrom project source ⟨Table.empty, 0⟩ events).rejected with
    | none => exact h.ingestAll project source events
    | some rejected =>
        refine ⟨?_, rfl⟩
        exact ((SameEvidence.recordRejection a project events source rejected).symm.trans h).trans
          (SameEvidence.recordRejection b project events source rejected)

/-- A refused batch changes the counters of rejected evidence alone. -/
theorem sameEvidence_of_refused {settings : LedgerSettings} {ledger after : ExperimentLedger}
    {project : String} {events : List ExperimentEvent} {source : Source}
    {results : List IngestResult} {refused : IngestResult}
    (h : ledger.ingestBatch settings project events source = .ok (after, results))
    (hrefused : results.find? (fun result => result.status.isRejection) = some refused) :
    SameEvidence ledger after := by
  obtain ⟨hevents, hcases⟩ := ingestBatch_cases h
  rcases hcases with ⟨_, rfl, _⟩ | ⟨rejected, _, rfl, _⟩ | ⟨hnone, hall, _⟩
  · exact .refl _
  · exact .recordRejection _ _ _ _ _
  · -- an accepted batch has no refused event
    have hclean := (preflight_spec ledger project events source hevents hnone).1
    have hmem := List.mem_of_find?_eq_some hrefused
    have hstatus := List.find?_some hrefused
    rw [← hall] at hclean
    rw [hclean refused hmem] at hstatus
    cases hstatus

/-! ## Decisions and expiry -/

theorem SameEvidence.withExpiry (h : SameEvidence a b) (project experiment : String)
    (expiresAt : ℕ) :
    SameEvidence (a.withExpiry project experiment expiresAt)
      (b.withExpiry project experiment expiresAt) where
  assignments := by
    unfold ExperimentLedger.withExpiry
    rw [h.assignments]
  decisions := h.decisions
  totals := h.totals

theorem SameEvidence.scheduleExpiry (h : SameEvidence a b) (project experiment : String)
    (expiresAt : ℚ) :
    EndsAlike SameEvidence (a.scheduleExpiry project experiment expiresAt)
      (b.scheduleExpiry project experiment expiresAt) := by
  unfold ExperimentLedger.scheduleExpiry
  refine EndsAlike.after _ fun _ => EndsAlike.after _ fun _ => EndsAlike.after _ fun _ => ?_
  exact h.withExpiry project experiment expiresAt.num.toNat

theorem SameEvidence.clearExpiry (h : SameEvidence a b) (project experiment : String) :
    SameEvidence (a.clearExpiry project experiment) (b.clearExpiry project experiment) where
  assignments := by
    unfold ExperimentLedger.clearExpiry
    rw [h.assignments]
  decisions := h.decisions
  totals := h.totals

theorem SameEvidence.pruneExpired (h : SameEvidence a b) (now : ℕ) :
    SameEvidence (a.pruneExpired now) (b.pruneExpired now) where
  assignments := by
    unfold ExperimentLedger.pruneExpired
    rw [h.assignments]
  decisions := h.decisions
  totals := h.totals

theorem SameEvidence.persistTerminalDecision (h : SameEvidence a b) (project experiment : String)
    (decision : Control.Decision) (decidedAt : ℕ) :
    EndsAlike (fun x y => SameEvidence x.1 y.1 ∧ y.2 = x.2)
      (a.persistTerminalDecision project experiment decision decidedAt)
      (b.persistTerminalDecision project experiment decision decidedAt) := by
  have hread : b.readTerminalDecision project experiment =
      a.readTerminalDecision project experiment := by
    unfold readTerminalDecision
    rw [h.decisions]
  unfold ExperimentLedger.persistTerminalDecision
  refine EndsAlike.after _ fun _ => EndsAlike.after _ fun _ => ?_
  rw [hread]
  cases a.readTerminalDecision project experiment with
  | some existing => exact ⟨h, rfl⟩
  | none =>
      refine EndsAlike.after _ fun _ => ⟨⟨h.assignments, ?_, h.totals⟩, rfl⟩
      rw [h.decisions]

theorem SameEvidence.persistTerminalDecisionAndScheduleExpiry (h : SameEvidence a b)
    (project experiment : String) (decision : Control.Decision) (expiresAt : ℚ) (decidedAt : ℕ) :
    EndsAlike (fun x y => SameEvidence x.1 y.1 ∧ y.2 = x.2)
      (a.persistTerminalDecisionAndScheduleExpiry project experiment decision expiresAt decidedAt)
      (b.persistTerminalDecisionAndScheduleExpiry project experiment decision expiresAt
        decidedAt) := by
  unfold ExperimentLedger.persistTerminalDecisionAndScheduleExpiry
  refine EndsAlike.bind (h.persistTerminalDecision project experiment decision decidedAt) ?_
  rintro ⟨left, stored⟩ ⟨right, other⟩ ⟨hsame, hstored⟩
  refine EndsAlike.bind (hsame.scheduleExpiry project experiment expiresAt) ?_
  intro left right hscheduled
  exact ⟨hscheduled, hstored⟩

end

end Wardx.ExperimentLedger
