import Wardx.Control.ControlEffects

/-!
# Terminal decisions are final

Once an experiment is decided, its decision row stays, and whatever still
arrives for it is late: no total row of it gains an exposure or a goal.

`Frozen` compares two ledgers at one experiment. It is kept by every status an
event can get, by the counters of a rejected batch, by expiry and pruning, and
by an analysis that meets the decision again, so a run keeps it.
-/
namespace Wardx.ControlService

open Lib Json Control ExperimentLedger

/-- The accepted evidence in a row of totals. -/
def acceptedEvidence (totals : Totals) : ℕ × ℕ × ℚ × ℚ :=
  (totals.exposures, totals.goals, totals.goalSum, totals.goalSumSq)

/-- The decision of an experiment stands and its accepted evidence is unchanged. -/
structure Frozen (project id : String) (row : TerminalDecisionRow)
    (before after : ExperimentLedger) : Prop where
  decided : after.terminalDecisions.get (project, id) = some row
  evidence : ∀ key : TotalsKey, key.project = project → key.experiment = id →
    acceptedEvidence (after.totalsAt key) = acceptedEvidence (before.totalsAt key)

section
variable {project id : String} {row : TerminalDecisionRow} {before ledger : ExperimentLedger}

theorem Frozen.isTerminal (h : Frozen project id row before ledger) :
    ledger.isTerminal project id = true := by
  unfold ExperimentLedger.isTerminal
  rw [h.decided]
  rfl

/-- A change of neither totals nor this decision. -/
theorem Frozen.of_eq (h : Frozen project id row before ledger) {after : ExperimentLedger}
    (htotals : after.totalsRows = ledger.totalsRows)
    (hdecided : after.terminalDecisions.get (project, id) = some row) :
    Frozen project id row before after := by
  refine ⟨hdecided, fun key hproject hid => ?_⟩
  rw [← h.evidence key hproject hid]
  unfold totalsAt
  rw [htotals]

/-- An event of a decided experiment is late, and late events are only counted. -/
theorem Frozen.ingest (h : Frozen project id row before ledger) (p : String)
    (event : ExperimentEvent) (source : Source) :
    Frozen project id row before (ledger.ingest p event source).1 := by
  refine ⟨?_, fun key hproject hid => ?_⟩
  · rw [ingest_terminalDecisions]
    exact h.decided
  · rw [← h.evidence key hproject hid, totalsAt_ingest]
    split_ifs with hkey
    · have hp : p = project := by rw [← hproject, hkey]; rfl
      have he : event.experiment = id := by rw [← hid, hkey]; rfl
      have hlate : ledger.statusOf p event source = .lateRow := by
        apply statusOf_of_closed
        left
        rw [hp, he]
        exact h.isTerminal
      rw [hlate]
      unfold counted countUntrusted
      split_ifs <;> rfl
    · rfl

theorem acceptedEvidence_of_same {a b : Totals}
    (h : withoutRejectionCounts a = withoutRejectionCounts b) :
    acceptedEvidence a = acceptedEvidence b := by
  have hexposures := congrArg Totals.exposures h
  have hgoals := congrArg Totals.goals h
  have hsum := congrArg Totals.goalSum h
  have hsumSq := congrArg Totals.goalSumSq h
  exact Prod.ext hexposures (Prod.ext hgoals (Prod.ext hsum hsumSq))

theorem Frozen.same (h : Frozen project id row before ledger) {after : ExperimentLedger}
    (hsame : SameEvidence ledger after) : Frozen project id row before after := by
  refine ⟨?_, fun key hproject hid => ?_⟩
  · rw [hsame.decisions]
    exact h.decided
  · rw [← h.evidence key hproject hid]
    exact acceptedEvidence_of_same (hsame.totals key)

theorem Frozen.batch (settings : LedgerSettings) (batch : Batch)
    (h : Frozen project id row before ledger) :
    Frozen project id row before (afterBatch settings ledger batch) :=
  afterBatch_induction settings batch h (fun _ hsame => h.same hsame)
    (fun _ event _ _ hl => hl.ingest batch.project event batch.source)

theorem Frozen.concluded {p experiment : String} {after : ExperimentLedger}
    (h : Frozen project id row before ledger) (hafter : Concluded ledger p experiment after) :
    Frozen project id row before after :=
  h.of_eq hafter.totalsRows (hafter.kept _ _ h.decided)

end

theorem frozen_step (settings : ControlSettings) {project id : String} {row : TerminalDecisionRow}
    {before : ExperimentLedger} {server : Server} (hserver : ServerOk server)
    (h : Frozen project id row before server.ledger) (command : Command) :
    Frozen project id row before (step settings command server).ledger := by
  have heffect := step_effect settings hserver command
  generalize step settings command server = after at heffect ⊢
  cases heffect with
  | same | upserted | replaced | unrelated | rolledBack => exact h
  | enabled => exact h.of_eq rfl h.decided
  | disabled => exact h.of_eq rfl h.decided
  | analysed _ _ _ _ hledger => exact h.concluded hledger
  | notShipped _ _ _ _ _ _ _ hledger => exact h.concluded hledger
  | shipped _ _ _ _ _ _ _ _ _ _ _ _ _ hledger => exact h.concluded hledger
  | ingested => exact h.batch settings.ledger _
  | sent => exact h.batch settings.ledger _
  | pruned => exact h.of_eq rfl h.decided

/-- A decision found at some point of a run is found at every later point, and
the experiment's accepted evidence is the same there. -/
theorem decision_final (settings : ControlSettings) (config : Config) (earlier later : List Command)
    (project id : String) (decision : Decision)
    (h : (run (step settings) (boot config) earlier).ledger.readTerminalDecision project id =
      some decision) :
    let decided := (run (step settings) (boot config) earlier).ledger
    let last := (run (step settings) (boot config) (earlier ++ later)).ledger
    last.readTerminalDecision project id = some decision ∧
      ∀ key : TotalsKey, key.project = project → key.experiment = id →
        (last.totalsAt key).exposures = (decided.totalsAt key).exposures ∧
        (last.totalsAt key).goals = (decided.totalsAt key).goals ∧
        (last.totalsAt key).goalSum = (decided.totalsAt key).goalSum ∧
        (last.totalsAt key).goalSumSq = (decided.totalsAt key).goalSumSq := by
  intro decided last
  obtain ⟨row, hrow, hdecision⟩ := Option.map_eq_some_iff.mp h
  have hok : ServerOk (run (step settings) (boot config) earlier) :=
    run_serverOk settings (serverOk_boot config) earlier
  have hstart : ServerOk (run (step settings) (boot config) earlier) ∧
      Frozen project id row decided (run (step settings) (boot config) earlier).ledger :=
    ⟨hok, hrow, fun _ _ _ => rfl⟩
  have hend := run_invariant_all (fun s => ServerOk s ∧ Frozen project id row decided s.ledger)
    (fun s i hs => ⟨step_serverOk settings hs.1 i, frozen_step settings hs.1 hs.2 i⟩) hstart later
  rw [← run_append] at hend
  refine ⟨?_, fun key hproject hid => ?_⟩
  · show (last.terminalDecisions.get (project, id)).map TerminalDecisionRow.decision = _
    rw [hend.2.decided]
    exact congrArg some hdecision
  · have hevidence := hend.2.evidence key hproject hid
    simp only [acceptedEvidence, Prod.mk.injEq] at hevidence
    exact hevidence

/-- A small fixed-horizon experiment is decided after four units; later traffic
and the expiry of its rows leave the decision. -/
def decidedRun : List Command :=
  [.ledgerIngest "shop"
    (unitEvents "exp" "a" "0000000000000001" false ++ unitEvents "exp" "a" "0000000000000002" false ++
      unitEvents "exp" "b" "0000000000000003" true ++ unitEvents "exp" "b" "0000000000000004" true)
    trustedSource,
   .experimentStats "shop" "exp" ⟨10, 10⟩]

def sampleConfig : Config :=
  configOf (sampleProject [sampleExperiment "exp" true 1 ["a", "b"]]) (by decide +kernel)

theorem decision_final_decidedRun :
    ∃ decision, (run (step sampleSettings) (boot sampleConfig) (decidedRun ++
      [.pruneExpired 5000, .ledgerIngest "shop"
        (unitEvents "exp" "a" "0000000000000001" true) trustedSource])).ledger.readTerminalDecision
      "shop" "exp" = some decision := by
  have hsome : ((run (step sampleSettings) (boot sampleConfig) decidedRun).ledger.readTerminalDecision
      "shop" "exp").isSome = true := by decide +kernel
  obtain ⟨decision, hdecision⟩ := Option.isSome_iff_exists.mp hsome
  exact ⟨decision, (decision_final sampleSettings sampleConfig decidedRun
    [.pruneExpired 5000, .ledgerIngest "shop"
      (unitEvents "exp" "a" "0000000000000001" true) trustedSource]
    "shop" "exp" decision hdecision).1⟩

end Wardx.ControlService
