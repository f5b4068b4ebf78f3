import Wardx.Ingest.ProjectIsolation

/-!
# Where evidence comes from

A stored row names a role and a trust class. Both were read off a credential:
an enabled one of the row's project, that allows the role and is trusted for
decisions exactly when the row says so. What a client claims of itself never
decides it.
-/
namespace Wardx.SyncHandler

open Lib

/-- An enabled credential of the project allows the role, with this trust. -/
def Vouched (settings : ServerSettings) (project role : String) (trust : TrustClass) : Prop :=
  ∃ value credential, settings.credentials.records.get value = some credential ∧
    credential.enabled = true ∧ credential.project = project ∧
    role ∈ credential.allowedRoles.names ∧
    trust = if credential.trustedForDecisions then .trusted else .untrusted

theorem Admitted.vouched {settings : ServerSettings} {request : SyncRequest} {server : IngestServer}
    {credential : CredentialRecord} {store : Project} {envelope : Envelope} {source : Source}
    (h : Admitted settings request server credential store envelope source) :
    Vouched settings credential.project source.role (trustClass source) := by
  obtain ⟨value, hrecord, henabled⟩ := CredentialRegistry.authenticate_eq_ok h.authenticated
  obtain ⟨hrole, hsource⟩ := CredentialRegistry.authorize_eq_ok h.authorized
  refine ⟨value, credential, hrecord, henabled, rfl, ?_, ?_⟩
  · rw [hsource]
    exact hrole
  · rw [hsource]
    rfl

/-- Every row and every total is vouched for, and a goal is of its row's source. -/
structure Attested (settings : ServerSettings) (ledger : ExperimentLedger) : Prop where
  assignments : ∀ key row, ledger.assignments.get key = some row →
    Vouched settings key.project row.sourceRole row.trustClass ∧
      (row.exposure.sourceRole = row.sourceRole ∧ row.exposure.trustClass = row.trustClass) ∧
      ∀ goal, row.goal = some goal →
        goal.sourceRole = row.sourceRole ∧ goal.trustClass = row.trustClass
  totals : ∀ key totals, ledger.totalsRows.get key = some totals →
    Vouched settings key.project key.sourceRole key.trustClass

section
variable {settings : ServerSettings} {ledger : ExperimentLedger} {project : String} {source : Source}

theorem attested_empty (settings : ServerSettings) : Attested settings ExperimentLedger.empty := by
  constructor
  · intro key row h
    cases h
  · intro key totals h
    cases h

theorem vouched_updateTotals
    (h : ∀ key totals, ledger.totalsRows.get key = some totals →
      Vouched settings key.project key.sourceRole key.trustClass)
    (hsource : Vouched settings project source.role (trustClass source)) (experiment variant : String)
    (mutate : Totals → Totals) :
    ∀ key totals, (ledger.updateTotals project experiment variant source mutate).totalsRows.get key =
      some totals → Vouched settings key.project key.sourceRole key.trustClass := by
  intro key totals hkey
  unfold ExperimentLedger.updateTotals at hkey
  dsimp only at hkey
  rw [Table.get_put] at hkey
  split_ifs at hkey with hown
  · rw [hown]
    exact hsource
  · exact h key totals hkey

theorem Attested.updateTotals (h : Attested settings ledger)
    (hsource : Vouched settings project source.role (trustClass source)) (experiment variant : String)
    (mutate : Totals → Totals) :
    Attested settings (ledger.updateTotals project experiment variant source mutate) :=
  ⟨h.assignments, vouched_updateTotals h.totals hsource experiment variant mutate⟩

theorem Attested.ingest (h : Attested settings ledger)
    (hsource : Vouched settings project source.role (trustClass source)) (event : ExperimentEvent) :
    Attested settings (ledger.ingest project event source).1 where
  totals := by
    rw [ExperimentLedger.ingest_eq]
    unfold ExperimentLedger.record
    refine vouched_updateTotals ?_ hsource _ _ _
    exact h.totals
  assignments key row hkey := by
    rw [ExperimentLedger.get_ingest] at hkey
    split_ifs at hkey with hown
    · subst hown
      cases hstatus : ledger.statusOf project event source with
      | acceptedExposure =>
          rw [hstatus] at hkey
          cases hkey
          exact ⟨hsource, ⟨rfl, rfl⟩, fun goal hgoal => by cases hgoal⟩
      | acceptedGoal =>
          -- a goal is accepted on a row of its own role and trust
          obtain ⟨value, stored, _, hstored, _, _, _, hrole, htrust, _⟩ :=
            ExperimentLedger.statusOf_eq_acceptedGoal hstatus
          rw [hstatus, hstored] at hkey
          cases hkey
          obtain ⟨hvouched, hexposure, _⟩ := h.assignments _ stored hstored
          refine ⟨hvouched, hexposure, fun goal hgoal => ?_⟩
          cases hgoal
          exact ⟨hrole.symm, htrust.symm⟩
      | _ =>
          rw [hstatus] at hkey
          exact h.assignments _ row hkey
    · exact h.assignments key row hkey

theorem Attested.countUntrustedRows (h : Attested settings ledger)
    (hsource : Vouched settings project source.role (trustClass source))
    (events : List ExperimentEvent) :
    Attested settings (ledger.countUntrustedRows project source events) := by
  induction events generalizing ledger with
  | nil => exact h
  | cons event events ih => exact ih (h.updateTotals hsource _ _ _)

theorem Attested.ingestBatch (h : Attested settings ledger)
    (hsource : Vouched settings project source.role (trustClass source))
    {ledgerSettings : LedgerSettings} {events : List ExperimentEvent} {after : ExperimentLedger}
    {results : List IngestResult}
    (hbatch : ledger.ingestBatch ledgerSettings project events source = .ok (after, results)) :
    Attested settings after := by
  obtain ⟨_, hcases⟩ := ExperimentLedger.ingestBatch_cases hbatch
  rcases hcases with ⟨_, rfl, _⟩ | ⟨rejected, _, rfl, _⟩ | ⟨_, heq, _⟩
  · exact h
  · unfold ExperimentLedger.recordRejection
    split_ifs
    · exact h.updateTotals hsource _ _ _
    · exact (h.countUntrustedRows hsource events).updateTotals hsource _ _ _
  · have hlast : Attested settings (ledger.ingestAll project source events).1 :=
      ExperimentLedger.ingestAll_induction (fun l event _ hl => hl.ingest hsource event) h
    rw [← heq] at hlast
    exact hlast

/-- Rows whose expiry alone changes keep their source. -/
theorem Attested.mapExpiry (h : Attested settings ledger) (f : AssignmentKey → AssignmentRow → ℕ) :
    Attested settings
      { ledger with
        assignments := ledger.assignments.mapValues fun key row =>
          { row with expiresAt := f key row } } where
  totals := h.totals
  assignments key row hkey := by
    dsimp only at hkey
    rw [Table.get_mapValues] at hkey
    obtain ⟨stored, hstored, rfl⟩ := Option.map_eq_some_iff.mp hkey
    exact h.assignments key stored hstored

theorem Attested.withExpiry (h : Attested settings ledger) (named experiment : String)
    (expiresAt : ℕ) : Attested settings (ledger.withExpiry named experiment expiresAt) := by
  have hmapped := h.mapExpiry fun key row =>
    if key.project = named ∧ key.experiment = experiment ∧ row.expiresAt = 0 then expiresAt
    else row.expiresAt
  have hsame : ledger.withExpiry named experiment expiresAt =
      { ledger with
        assignments := ledger.assignments.mapValues fun key row =>
          { row with
            expiresAt :=
              if key.project = named ∧ key.experiment = experiment ∧ row.expiresAt = 0 then expiresAt
              else row.expiresAt } } := by
    unfold ExperimentLedger.withExpiry
    congr 2
    funext key row
    split_ifs <;> rfl
  rw [hsame]
  exact hmapped

theorem Attested.clearExpiry (h : Attested settings ledger) (named experiment : String) :
    Attested settings (ledger.clearExpiry named experiment) := by
  have hmapped := h.mapExpiry fun key row =>
    if key.project = named ∧ key.experiment = experiment then 0 else row.expiresAt
  have hsame : ledger.clearExpiry named experiment =
      { ledger with
        assignments := ledger.assignments.mapValues fun key row =>
          { row with
            expiresAt :=
              if key.project = named ∧ key.experiment = experiment then 0 else row.expiresAt } } := by
    unfold ExperimentLedger.clearExpiry
    congr 2
    funext key row
    split_ifs <;> rfl
  rw [hsame]
  exact hmapped

theorem Attested.pruneExpired (h : Attested settings ledger) (now : ℕ) :
    Attested settings (ledger.pruneExpired now) where
  totals := h.totals
  assignments key row hkey := by
    unfold ExperimentLedger.pruneExpired at hkey
    rw [Table.get_filter] at hkey
    exact h.assignments key row (Option.filter_eq_some_iff.mp hkey).1

theorem Attested.scheduleExpiry (h : Attested settings ledger) {named experiment : String}
    {expiresAt : ℚ} {after : ExperimentLedger}
    (hscheduled : ledger.scheduleExpiry named experiment expiresAt = .ok after) :
    Attested settings after := by
  unfold ExperimentLedger.scheduleExpiry at hscheduled
  simp only [bind_eq_ok_iff, pure, Except.pure, Except.ok.injEq] at hscheduled
  obtain ⟨_, _, _, _, _, _, rfl⟩ := hscheduled
  exact h.withExpiry named experiment _

theorem Attested.decide (h : Attested settings ledger) {named experiment : String}
    {decision : Control.Decision} {expiresAt : ℚ} {decidedAt : ℕ} {after : ExperimentLedger}
    {stored : Control.Decision}
    (hdone : ledger.persistTerminalDecisionAndScheduleExpiry named experiment decision expiresAt
      decidedAt = .ok (after, stored)) : Attested settings after := by
  unfold ExperimentLedger.persistTerminalDecisionAndScheduleExpiry at hdone
  simp only [bind_eq_ok_iff, pure, Except.pure, Except.ok.injEq, Prod.mk.injEq] at hdone
  obtain ⟨⟨persisted, first⟩, hpersisted, scheduled, hscheduled, rfl, _⟩ := hdone
  refine Attested.scheduleExpiry ?_ hscheduled
  cases ExperimentLedger.persistTerminalDecision_cases hpersisted with
  | inl hsame => exact hsame ▸ h
  | inr hput =>
      dsimp only
      rw [hput]
      exact ⟨h.assignments, h.totals⟩

/-! ## Runs of the server -/

theorem attested_step {server : IngestServer} (hnamed : Named server)
    (h : Attested settings server.ledger) (command : ServerCommand) :
    Attested settings (step settings command server).ledger := by
  have hupdate : ∀ name f, (updateProject name f server).ledger = server.ledger := by
    intro name f
    unfold updateProject
    cases server.projects.get name <;> rfl
  have hkeep : ∀ result : Except String ExperimentLedger,
      (∀ ledger, result = .ok ledger → Attested settings ledger) →
        Attested settings (keepLedger server result).ledger := by
    intro result hresult
    cases result with
    | error message => exact h
    | ok ledger => exact hresult ledger rfl
  cases command with
  | sync request =>
      have hhandled := handleSync_handled settings request server
      show Attested settings (handleSync settings request server).2.ledger
      generalize (handleSync settings request server).1 = reply at hhandled
      generalize (handleSync settings request server).2 = after at hhandled ⊢
      cases hhandled with
      | turnedAway => exact h
      | ingested credential store envelope source outcome after hadmission hadmitted heffect =>
          have hvouched := hadmitted.vouched
          rw [← hnamed _ store hadmitted.store] at hvouched
          cases heffect with
          | nothing => exact h
          | refused _ _ ledger results hbatch => exact h.ingestBatch hvouched hbatch
          | accepted prepared ledger work hvalid hprepared hroom htaken =>
              obtain ⟨results, hbatch, _⟩ := htaken.batch
              exact h.ingestBatch hvouched hbatch
  | publish name snapshot catalog => exact (hupdate name _).symm ▸ h
  | acknowledge name buckets => exact (hupdate name _).symm ▸ h
  | prunePersisted name through => exact (hupdate name _).symm ▸ h
  | historyWritten => exact h
  | decide name experiment decision expiresAt decidedAt =>
      refine hkeep _ fun ledger hledger => ?_
      obtain ⟨⟨after, stored⟩, hdone, rfl⟩ := map_eq_ok hledger
      exact h.decide hdone
  | scheduleExpiry name experiment expiresAt => exact hkeep _ fun ledger => h.scheduleExpiry
  | clearExpiry name experiment => exact h.clearExpiry name experiment
  | pruneExpired now => exact h.pruneExpired now

/-- After any run, whatever the requests claimed, each stored row and each total is of
a role that an enabled credential of its project allows, and of that credential's
trust; a goal is of the role and the trust of its exposure. -/
theorem evidence_vouched (settings : ServerSettings) (config : ServerConfig) (sink : Sink)
    (commands : List ServerCommand) :
    Attested settings (run (step settings) (boot settings config sink) commands).ledger := by
  have hrun := run_invariant_all
    (fun server => Named server ∧ Attested settings server.ledger)
    (fun server command h => ⟨named_step h.1 command, attested_step h.1 h.2 command⟩)
    ⟨named_boot settings config sink, attested_empty settings⟩ commands
  exact hrun.2

end

end Wardx.SyncHandler
