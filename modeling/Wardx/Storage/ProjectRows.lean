import Wardx.Lib.Lockstep
import Wardx.Storage.LedgerBatch
import Wardx.Storage.RetentionCapacity

/-!
# The rows of one project

The ledgers hold the rows of all projects. A call for one project reads and
writes rows of that project alone, so two ledgers with the same rows of it do
the same there, and a call for another project leaves them. One thing is shared:
the cap on assignment rows counts those of all projects.
-/
namespace Wardx

open Lib

/-! ## Assignments, totals and decisions -/

namespace ExperimentLedger

/-- The rows of a project are the same. -/
structure SameProject (project : String) (a b : ExperimentLedger) : Prop where
  assignments : ∀ key, key.project = project → b.assignments.get key = a.assignments.get key
  totals : ∀ key, key.project = project → b.totalsAt key = a.totalsAt key
  decisions : ∀ experiment, b.terminalDecisions.get (project, experiment) =
    a.terminalDecisions.get (project, experiment)

/-- All assignment rows are the project's. -/
def OnlyOf (project : String) (ledger : ExperimentLedger) : Prop :=
  ∀ key ∈ ledger.assignments.keys, key.project = project

section
variable {project other : String} {a b c ledger : ExperimentLedger}

theorem SameProject.refl (ledger : ExperimentLedger) : SameProject project ledger ledger :=
  ⟨fun _ _ => rfl, fun _ _ => rfl, fun _ => rfl⟩

theorem SameProject.trans (h : SameProject project a b) (h' : SameProject project b c) :
    SameProject project a c where
  assignments key hkey := (h'.assignments key hkey).trans (h.assignments key hkey)
  totals key hkey := (h'.totals key hkey).trans (h.totals key hkey)
  decisions experiment := (h'.decisions experiment).trans (h.decisions experiment)

/-- A ledger with one project's rows alone has no more of them. -/
theorem SameProject.size_le (h : SameProject project a b) (honly : OnlyOf project a) :
    a.assignments.size ≤ b.assignments.size := by
  rw [Table.size_eq_length_keys, Table.size_eq_length_keys]
  refine (List.Nodup.subperm a.assignments.nodup fun key hkey => ?_).length_le
  rw [← Table.get_isSome_iff, h.assignments key (honly key hkey)]
  exact (Table.get_isSome_iff _ _).mpr hkey

/-! ### Calls for the project -/

theorem SameProject.isTerminal (h : SameProject project a b) (experiment : String) :
    b.isTerminal project experiment = a.isTerminal project experiment := by
  unfold ExperimentLedger.isTerminal
  rw [h.decisions]

theorem SameProject.statusOf (h : SameProject project a b) (event : ExperimentEvent)
    (source : Source) : b.statusOf project event source = a.statusOf project event source := by
  unfold ExperimentLedger.statusOf
  rw [h.isTerminal, h.assignments (assignmentKey project event) rfl]

theorem SameProject.preflightStep (h : SameProject project a b) (source : Source)
    (state : PreflightState) (event : ExperimentEvent) :
    b.preflightStep project source state event = a.preflightStep project source state event := by
  unfold ExperimentLedger.preflightStep currentView
  rw [h.isTerminal, h.assignments (assignmentKey project event) rfl]

theorem SameProject.preflightFrom (h : SameProject project a b) (source : Source)
    (state : PreflightState) (events : List ExperimentEvent) :
    b.preflightFrom project source state events = a.preflightFrom project source state events := by
  induction events generalizing state with
  | nil => rfl
  | cons event events ih =>
      rw [ExperimentLedger.preflightFrom, ExperimentLedger.preflightFrom, h.preflightStep]
      cases a.preflightStep project source state event with
      | error rejected => rfl
      | ok next => exact ih next

theorem SameProject.ingest (h : SameProject project a b) (event : ExperimentEvent)
    (source : Source) :
    SameProject project (a.ingest project event source).1 (b.ingest project event source).1 where
  assignments key hkey := by
    rw [get_ingest, get_ingest, h.statusOf, h.assignments key hkey]
  totals key hkey := by
    rw [totalsAt_ingest, totalsAt_ingest, h.statusOf, h.totals key hkey]
  decisions experiment := by
    rw [ingest_terminalDecisions, ingest_terminalDecisions, h.decisions]

theorem SameProject.ingestAll (h : SameProject project a b) (source : Source)
    (events : List ExperimentEvent) :
    SameProject project (a.ingestAll project source events).1 (b.ingestAll project source events).1 ∧
      (b.ingestAll project source events).2 = (a.ingestAll project source events).2 := by
  induction events generalizing a b with
  | nil => exact ⟨h, rfl⟩
  | cons event events ih =>
      obtain ⟨hrest, hresults⟩ := ih (h.ingest event source)
      refine ⟨hrest, ?_⟩
      rw [ExperimentLedger.ingestAll, ExperimentLedger.ingestAll]
      dsimp only
      rw [hresults, ingest_status, ingest_status, h.statusOf]

theorem SameProject.updateTotals (h : SameProject project a b) (experiment variant : String)
    (source : Source) (mutate : Totals → Totals) :
    SameProject project (a.updateTotals project experiment variant source mutate)
      (b.updateTotals project experiment variant source mutate) where
  assignments := h.assignments
  totals key hkey := by
    rw [totalsAt_updateTotals, totalsAt_updateTotals, h.totals key hkey]
  decisions := h.decisions

theorem SameProject.countUntrustedRows (h : SameProject project a b) (source : Source)
    (events : List ExperimentEvent) :
    SameProject project (a.countUntrustedRows project source events)
      (b.countUntrustedRows project source events) := by
  induction events generalizing a b with
  | nil => exact h
  | cons event events ih => exact ih (h.updateTotals _ _ _ _)

theorem SameProject.recordRejection (h : SameProject project a b) (events : List ExperimentEvent)
    (source : Source) (rejected : Rejected) :
    SameProject project (a.recordRejection project events source rejected)
      (b.recordRejection project events source rejected) := by
  unfold ExperimentLedger.recordRejection
  split_ifs
  · exact h.updateTotals _ _ _ _
  · exact (h.countUntrustedRows source events).updateTotals _ _ _ _

/-- The cap is not met by the events. -/
def hasRoom (settings : LedgerSettings) (ledger : ExperimentLedger) (project : String)
    (events : List ExperimentEvent) (source : Source) : Bool :=
  (ledger.preflight project events source).newAssignments + ledger.assignments.size ≤ settings.maxRows

/-- Where all rows have room, a batch ends alike on the project's rows alone. -/
theorem SameProject.ingestBatch (h : SameProject project a b) (honly : OnlyOf project a)
    {settings : LedgerSettings} {events : List ExperimentEvent} {source : Source}
    (hroom : hasRoom settings b project events source = true) :
    EndsAlike (fun x y => SameProject project x.1 y.1 ∧ y.2 = x.2)
      (a.ingestBatch settings project events source)
      (b.ingestBatch settings project events source) := by
  have hsize := h.size_le honly
  have hpreflight : b.preflight project events source = a.preflight project events source :=
    h.preflightFrom source _ events
  unfold hasRoom at hroom
  rw [hpreflight, decide_eq_true_eq] at hroom
  unfold ExperimentLedger.ingestBatch
  refine EndsAlike.after _ fun _ => EndsAlike.after _ fun _ => EndsAlike.after _ fun _ =>
    EndsAlike.after _ fun _ => ?_
  by_cases hnil : events = []
  · rw [if_pos hnil, if_pos hnil]
    exact ⟨h, rfl⟩
  · rw [if_neg hnil, if_neg hnil, hpreflight]
    have hless : (a.preflight project events source).newAssignments + a.assignments.size ≤
        settings.maxRows := by omega
    dsimp only
    rw [decide_eq_true hroom, decide_eq_true hless]
    refine EndsAlike.after _ fun _ => ?_
    cases (a.preflight project events source).rejected with
    | none => exact h.ingestAll source events
    | some rejected => exact ⟨h.recordRejection events source rejected, rfl⟩

theorem SameProject.withExpiry (h : SameProject project a b) (experiment : String) (expiresAt : ℕ) :
    SameProject project (a.withExpiry project experiment expiresAt)
      (b.withExpiry project experiment expiresAt) where
  assignments key hkey := by
    unfold ExperimentLedger.withExpiry
    rw [Table.get_mapValues, Table.get_mapValues, h.assignments key hkey]
  totals := h.totals
  decisions := h.decisions

theorem SameProject.scheduleExpiry (h : SameProject project a b) (experiment : String)
    (expiresAt : ℚ) :
    EndsAlike (SameProject project) (a.scheduleExpiry project experiment expiresAt)
      (b.scheduleExpiry project experiment expiresAt) := by
  unfold ExperimentLedger.scheduleExpiry
  refine EndsAlike.after _ fun _ => EndsAlike.after _ fun _ => EndsAlike.after _ fun _ => ?_
  exact h.withExpiry experiment expiresAt.num.toNat

theorem SameProject.clearExpiry (h : SameProject project a b) (experiment : String) :
    SameProject project (a.clearExpiry project experiment) (b.clearExpiry project experiment) where
  assignments key hkey := by
    unfold ExperimentLedger.clearExpiry
    rw [Table.get_mapValues, Table.get_mapValues, h.assignments key hkey]
  totals := h.totals
  decisions := h.decisions

theorem SameProject.pruneExpired (h : SameProject project a b) (now : ℕ) :
    SameProject project (a.pruneExpired now) (b.pruneExpired now) where
  assignments key hkey := by
    unfold ExperimentLedger.pruneExpired
    rw [Table.get_filter, Table.get_filter, h.assignments key hkey]
  totals := h.totals
  decisions := h.decisions

theorem SameProject.persistTerminalDecision (h : SameProject project a b) (experiment : String)
    (decision : Control.Decision) (decidedAt : ℕ) :
    EndsAlike (fun x y => SameProject project x.1 y.1 ∧ y.2 = x.2)
      (a.persistTerminalDecision project experiment decision decidedAt)
      (b.persistTerminalDecision project experiment decision decidedAt) := by
  have hread : b.readTerminalDecision project experiment =
      a.readTerminalDecision project experiment := by
    unfold readTerminalDecision
    rw [h.decisions]
  unfold ExperimentLedger.persistTerminalDecision
  refine EndsAlike.after _ fun _ => EndsAlike.after _ fun _ => ?_
  rw [hread]
  cases a.readTerminalDecision project experiment with
  | some existing => exact ⟨h, rfl⟩
  | none =>
      refine EndsAlike.after _ fun _ => ⟨⟨h.assignments, h.totals, fun e => ?_⟩, rfl⟩
      rw [Table.get_put, Table.get_put, h.decisions]

theorem SameProject.persistTerminalDecisionAndScheduleExpiry (h : SameProject project a b)
    (experiment : String) (decision : Control.Decision) (expiresAt : ℚ) (decidedAt : ℕ) :
    EndsAlike (fun x y => SameProject project x.1 y.1 ∧ y.2 = x.2)
      (a.persistTerminalDecisionAndScheduleExpiry project experiment decision expiresAt decidedAt)
      (b.persistTerminalDecisionAndScheduleExpiry project experiment decision expiresAt
        decidedAt) := by
  unfold ExperimentLedger.persistTerminalDecisionAndScheduleExpiry
  refine EndsAlike.bind (h.persistTerminalDecision experiment decision decidedAt) ?_
  rintro ⟨left, stored⟩ ⟨right, stored'⟩ ⟨hsame, hstored⟩
  refine EndsAlike.bind (hsame.scheduleExpiry experiment expiresAt) ?_
  intro left right hscheduled
  exact ⟨hscheduled, hstored⟩

/-- A decision is stored once. -/
theorem persistTerminalDecision_cases {experiment : String} {decision : Control.Decision}
    {decidedAt : ℕ} {after : ExperimentLedger} {stored : Control.Decision}
    (h : ledger.persistTerminalDecision project experiment decision decidedAt = .ok (after, stored)) :
    after = ledger ∨ after = { ledger with
      terminalDecisions := ledger.terminalDecisions.put (project, experiment)
        ⟨decidedAt, decision⟩ } := by
  unfold ExperimentLedger.persistTerminalDecision at h
  simp only [bind_eq_ok_iff] at h
  obtain ⟨_, _, _, _, h⟩ := h
  cases hread : ledger.readTerminalDecision project experiment with
  | some existing =>
      simp only [hread, pure, Except.pure, Except.ok.injEq, Prod.mk.injEq] at h
      exact Or.inl h.1.symm
  | none =>
      simp only [hread, bind_eq_ok_iff, pure, Except.pure, Except.ok.injEq, Prod.mk.injEq] at h
      obtain ⟨_, _, hafter, _⟩ := h
      exact Or.inr hafter.symm

/-! ### Calls for another project -/

section
variable (hother : project ≠ other)
include hother

theorem sameProject_updateTotals (experiment variant : String) (source : Source)
    (mutate : Totals → Totals) :
    SameProject project ledger (ledger.updateTotals other experiment variant source mutate) where
  assignments _ _ := rfl
  totals key hkey := by
    rw [totalsAt_updateTotals, if_neg]
    intro hsame
    rw [hsame] at hkey
    exact hother hkey.symm
  decisions _ := rfl

theorem sameProject_ingest (event : ExperimentEvent) (source : Source) :
    SameProject project ledger (ledger.ingest other event source).1 where
  assignments key hkey := by
    rw [get_ingest, if_neg]
    intro hsame
    rw [hsame] at hkey
    exact hother hkey.symm
  totals key hkey := by
    rw [totalsAt_ingest, if_neg]
    intro hsame
    rw [hsame] at hkey
    exact hother hkey.symm
  decisions experiment := by rw [ingest_terminalDecisions]

theorem sameProject_countUntrustedRows (source : Source) (events : List ExperimentEvent) :
    SameProject project ledger (ledger.countUntrustedRows other source events) := by
  induction events generalizing ledger with
  | nil => exact .refl ledger
  | cons event events ih => exact (sameProject_updateTotals hother _ _ _ _).trans ih

theorem sameProject_recordRejection (events : List ExperimentEvent) (source : Source)
    (rejected : Rejected) :
    SameProject project ledger (ledger.recordRejection other events source rejected) := by
  unfold ExperimentLedger.recordRejection
  split_ifs
  · exact sameProject_updateTotals hother _ _ _ _
  · exact (sameProject_countUntrustedRows hother source events).trans
      (sameProject_updateTotals hother _ _ _ _)

theorem sameProject_ingestBatch {settings : LedgerSettings} {events : List ExperimentEvent}
    {source : Source} {after : ExperimentLedger} {results : List IngestResult}
    (h : ledger.ingestBatch settings other events source = .ok (after, results)) :
    SameProject project ledger after := by
  obtain ⟨_, hcases⟩ := ingestBatch_cases h
  rcases hcases with ⟨_, rfl, _⟩ | ⟨rejected, _, rfl, _⟩ | ⟨_, heq, _⟩
  · exact .refl _
  · exact sameProject_recordRejection hother events source rejected
  · have hlast : SameProject project ledger (ledger.ingestAll other source events).1 :=
      ingestAll_induction (fun l event _ hl => hl.trans (sameProject_ingest hother event source))
        (.refl ledger)
    rw [← heq] at hlast
    exact hlast

theorem sameProject_withExpiry (experiment : String) (expiresAt : ℕ) :
    SameProject project ledger (ledger.withExpiry other experiment expiresAt) where
  assignments key hkey := by
    have hne : ¬ key.project = other := by rwa [hkey]
    unfold ExperimentLedger.withExpiry
    rw [Table.get_mapValues]
    simp only [hne, false_and, if_false]
    exact Option.map_id'
  totals _ _ := rfl
  decisions _ := rfl

theorem sameProject_scheduleExpiry {experiment : String} {expiresAt : ℚ} {after : ExperimentLedger}
    (h : ledger.scheduleExpiry other experiment expiresAt = .ok after) :
    SameProject project ledger after := by
  unfold ExperimentLedger.scheduleExpiry at h
  simp only [bind_eq_ok_iff, pure, Except.pure, Except.ok.injEq] at h
  obtain ⟨_, _, _, _, _, _, rfl⟩ := h
  exact sameProject_withExpiry hother experiment _

theorem sameProject_clearExpiry (experiment : String) :
    SameProject project ledger (ledger.clearExpiry other experiment) where
  assignments key hkey := by
    have hne : ¬ key.project = other := by rwa [hkey]
    unfold ExperimentLedger.clearExpiry
    rw [Table.get_mapValues]
    simp only [hne, false_and, if_false]
    exact Option.map_id'
  totals _ _ := rfl
  decisions _ := rfl

theorem sameProject_persistTerminalDecision {experiment : String} {decision : Control.Decision}
    {decidedAt : ℕ} {after : ExperimentLedger} {stored : Control.Decision}
    (h : ledger.persistTerminalDecision other experiment decision decidedAt = .ok (after, stored)) :
    SameProject project ledger after := by
  cases persistTerminalDecision_cases h with
  | inl hsame =>
      rw [hsame]
      exact .refl ledger
  | inr hput =>
      rw [hput]
      refine ⟨fun _ _ => rfl, fun _ _ => rfl, fun e => Table.get_put_of_ne _ _ ?_⟩
      intro hsame
      exact hother (congrArg Prod.fst hsame)

theorem sameProject_persistTerminalDecisionAndScheduleExpiry {experiment : String}
    {decision : Control.Decision} {expiresAt : ℚ} {decidedAt : ℕ} {after : ExperimentLedger}
    {stored : Control.Decision}
    (h : ledger.persistTerminalDecisionAndScheduleExpiry other experiment decision expiresAt
      decidedAt = .ok (after, stored)) : SameProject project ledger after := by
  unfold ExperimentLedger.persistTerminalDecisionAndScheduleExpiry at h
  simp only [bind_eq_ok_iff, pure, Except.pure, Except.ok.injEq, Prod.mk.injEq] at h
  obtain ⟨⟨persisted, first⟩, hpersisted, scheduled, hscheduled, rfl, _⟩ := h
  exact (sameProject_persistTerminalDecision hother hpersisted).trans
    (sameProject_scheduleExpiry hother hscheduled)

end

/-! ### A ledger of one project -/

/-- No assignment is new. -/
theorem OnlyOf.of_get (h : OnlyOf project ledger) {after : ExperimentLedger}
    (hget : ∀ key, (after.assignments.get key).isSome → (ledger.assignments.get key).isSome) :
    OnlyOf project after := by
  intro key hkey
  rw [← Table.get_isSome_iff] at hkey
  exact h key ((Table.get_isSome_iff _ _).mp (hget key hkey))

theorem OnlyOf.ingest (h : OnlyOf project ledger) (event : ExperimentEvent) (source : Source) :
    OnlyOf project (ledger.ingest project event source).1 := by
  intro key hkey
  by_cases hown : key = assignmentKey project event
  · rw [hown]
    rfl
  · apply h key
    rw [← Table.get_isSome_iff] at hkey ⊢
    rwa [get_ingest, if_neg hown] at hkey

theorem OnlyOf.ingestBatch (h : OnlyOf project ledger) {settings : LedgerSettings}
    {events : List ExperimentEvent} {source : Source} {after : ExperimentLedger}
    {results : List IngestResult}
    (hbatch : ledger.ingestBatch settings project events source = .ok (after, results)) :
    OnlyOf project after := by
  obtain ⟨_, hcases⟩ := ingestBatch_cases hbatch
  rcases hcases with ⟨_, rfl, _⟩ | ⟨rejected, _, rfl, _⟩ | ⟨_, heq, _⟩
  · exact h
  · unfold OnlyOf
    rw [(SameEvidence.recordRejection _ _ _ _ _).assignments]
    exact h
  · have hlast : OnlyOf project (ledger.ingestAll project source events).1 :=
      ingestAll_induction (fun l event _ hl => hl.ingest event source) h
    rw [← heq] at hlast
    exact hlast

theorem OnlyOf.withExpiry (h : OnlyOf project ledger) (named experiment : String) (expiresAt : ℕ) :
    OnlyOf project (ledger.withExpiry named experiment expiresAt) := by
  refine h.of_get fun key hkey => ?_
  unfold ExperimentLedger.withExpiry at hkey
  rwa [Table.get_mapValues, Option.isSome_map] at hkey

theorem OnlyOf.scheduleExpiry (h : OnlyOf project ledger) {named experiment : String}
    {expiresAt : ℚ} {after : ExperimentLedger}
    (hscheduled : ledger.scheduleExpiry named experiment expiresAt = .ok after) :
    OnlyOf project after := by
  unfold ExperimentLedger.scheduleExpiry at hscheduled
  simp only [bind_eq_ok_iff, pure, Except.pure, Except.ok.injEq] at hscheduled
  obtain ⟨_, _, _, _, _, _, rfl⟩ := hscheduled
  exact h.withExpiry named experiment _

theorem OnlyOf.clearExpiry (h : OnlyOf project ledger) (named experiment : String) :
    OnlyOf project (ledger.clearExpiry named experiment) := by
  refine h.of_get fun key hkey => ?_
  unfold ExperimentLedger.clearExpiry at hkey
  rwa [Table.get_mapValues, Option.isSome_map] at hkey

theorem OnlyOf.pruneExpired (h : OnlyOf project ledger) (now : ℕ) :
    OnlyOf project (ledger.pruneExpired now) := by
  refine h.of_get fun key hkey => ?_
  unfold ExperimentLedger.pruneExpired at hkey
  rw [Table.get_filter] at hkey
  obtain ⟨row, hrow⟩ := Option.isSome_iff_exists.mp hkey
  exact Option.isSome_iff_exists.mpr ⟨row, (Option.filter_eq_some_iff.mp hrow).1⟩

theorem OnlyOf.persistTerminalDecisionAndScheduleExpiry (h : OnlyOf project ledger)
    {named experiment : String} {decision : Control.Decision} {expiresAt : ℚ} {decidedAt : ℕ}
    {after : ExperimentLedger} {stored : Control.Decision}
    (hdone : ledger.persistTerminalDecisionAndScheduleExpiry named experiment decision expiresAt
      decidedAt = .ok (after, stored)) : OnlyOf project after := by
  unfold ExperimentLedger.persistTerminalDecisionAndScheduleExpiry at hdone
  simp only [bind_eq_ok_iff, pure, Except.pure, Except.ok.injEq, Prod.mk.injEq] at hdone
  obtain ⟨⟨persisted, first⟩, hpersisted, scheduled, hscheduled, rfl, _⟩ := hdone
  refine OnlyOf.scheduleExpiry ?_ hscheduled
  cases persistTerminalDecision_cases hpersisted with
  | inl hsame => exact hsame ▸ h
  | inr hput => exact h.of_get fun key hkey => by rwa [hput] at hkey

end

end ExperimentLedger

/-! ## Retention -/

namespace RetentionLedger

/-- The rows of a project and the drops of the batch are the same. -/
def SameWork (project : String) (a b : Work) : Prop :=
  SameProject project a.ledger b.ledger ∧ b.dropped = a.dropped

section
variable {settings : RetentionSettings} {project : String} {a b : RetentionLedger}
  (h : SameProject project a b)
include h

theorem SameProject.userCount : b.userCount project = a.userCount project := by
  unfold RetentionLedger.userCount
  rw [h.row]

theorem SameProject.knownSubject (subject : String) :
    b.knownSubject project subject = a.knownSubject project subject := by
  rw [Bool.eq_iff_iff, knownSubject_iff, knownSubject_iff, h.users]
  simp only [h.conversions]

theorem SameProject.labelCount (kind : LabelKind) :
    b.labelCount project kind = a.labelCount project kind :=
  labelCount_congr fun label => h.labels kind label

theorem SameProject.updateProject (f : RetentionProject → RetentionProject) :
    SameProject project (a.updateProject project f) (b.updateProject project f) := by
  obtain ⟨husers, hlabels, hchannels, hconversions⟩ := sameTables_updateProject project a f
  obtain ⟨husers', hlabels', hchannels', hconversions'⟩ := sameTables_updateProject project b f
  refine ⟨?_, fun s => ?_, fun kind label => ?_, fun s => ?_, fun s goal => ?_⟩
  · rw [updateProject_get, updateProject_get, if_pos rfl, if_pos rfl, h.row]
  · rw [husers, husers', h.users]
  · rw [hlabels, hlabels', h.labels]
  · have hchannel := h.channels s
    unfold heldTouch at hchannel ⊢
    rwa [hchannels, hchannels']
  · rw [hconversions, hconversions', h.conversions]

theorem SameProject.pinSalt (salt : String) :
    SameProject project (pinSalt project salt a) (pinSalt project salt b) := by
  obtain ⟨husers, hlabels, hchannels, hconversions⟩ := sameTables_pinSalt project salt a
  obtain ⟨husers', hlabels', hchannels', hconversions'⟩ := sameTables_pinSalt project salt b
  refine ⟨?_, fun s => ?_, fun kind label => ?_, fun s => ?_, fun s goal => ?_⟩
  · rw [pinSalt_get, pinSalt_get, if_pos rfl, if_pos rfl, h.row]
  · rw [husers, husers', h.users]
  · rw [hlabels, hlabels', h.labels]
  · have hchannel := h.channels s
    unfold heldTouch at hchannel ⊢
    rwa [hchannels, hchannels']
  · rw [hconversions, hconversions', h.conversions]

theorem SameProject.admitSubject :
    Option.Rel (SameProject project) (admitSubject settings project a)
      (admitSubject settings project b) := by
  unfold RetentionLedger.admitSubject
  rw [h.userCount]
  split_ifs
  · exact .none
  · exact .some (h.updateProject _)

theorem SameProject.registerLabel (kind : LabelKind) (label : String) (limit : ℕ) :
    Option.Rel (SameProject project) (registerLabel project kind label limit a)
      (registerLabel project kind label limit b) := by
  unfold RetentionLedger.registerLabel
  rw [h.labels, h.labelCount]
  split_ifs
  · exact .some h
  · exact .none
  · refine .some ⟨h.row, h.users, fun k l => ?_, h.channels, h.conversions⟩
    rw [Table.get_put, Table.get_put, h.labels]

theorem SameProject.recordUser (subject : String) (day : ℕ) :
    SameProject project (recordUser project subject day a) (recordUser project subject day b) := by
  obtain ⟨hprojects, hlabels, hchannels, hconversions⟩ := recordUser_others project subject a day
  obtain ⟨hprojects', hlabels', hchannels', hconversions'⟩ := recordUser_others project subject b day
  refine ⟨?_, fun s => ?_, fun kind label => ?_, fun s => ?_, fun s goal => ?_⟩
  · rw [hprojects, hprojects', h.row]
  · rw [recordUser_users, recordUser_users, h.users, h.users]
  · rw [hlabels, hlabels', h.labels]
  · have hchannel := h.channels s
    unfold heldTouch at hchannel ⊢
    rwa [hchannels, hchannels']
  · rw [hconversions, hconversions', h.conversions]

theorem SameProject.userChannels (subject : String) :
    b.userChannels.get (project, subject) = a.userChannels.get (project, subject) := by
  have hchannel := h.channels subject
  unfold heldTouch at hchannel
  refine Option.map_injective (fun left right hpair => ?_) hchannel
  obtain ⟨channel, touchedAt⟩ := left
  obtain ⟨channel', touchedAt'⟩ := right
  simp only [Prod.mk.injEq] at hpair
  rw [hpair.1, hpair.2]

theorem SameProject.putChannel (subject : String) (touch : UserChannel) :
    SameProject project
      { a with userChannels := a.userChannels.put (project, subject) touch }
      { b with userChannels := b.userChannels.put (project, subject) touch } := by
  refine ⟨h.row, h.users, h.labels, fun s => ?_, h.conversions⟩
  unfold heldTouch
  rw [Table.get_put, Table.get_put, h.userChannels]

theorem SameProject.admitted (subject : String) :
    Option.Rel (SameProject project) (admitted settings project subject a)
      (admitted settings project subject b) := by
  unfold RetentionLedger.admitted
  rw [h.knownSubject]
  split_ifs
  · exact .some h
  · exact h.admitSubject

theorem SameProject.recordConversionDay (subject goal : String) (day : ℕ) :
    SameProject project (recordConversionDay project subject goal day a)
      (recordConversionDay project subject goal day b) := by
  refine ⟨h.row, h.users, h.labels, h.channels, fun s g => ?_⟩
  unfold RetentionLedger.recordConversionDay
  dsimp only
  rw [Table.get_put, Table.get_put, h.conversions, h.conversions]

end

section
variable {settings : RetentionSettings} {project : String} {a b : Work}
  (h : SameWork project a b)
include h

theorem SameWork.recordTouch (subject : String) (timestamp : ℕ) (channel : String) :
    SameWork project (recordTouch settings project subject timestamp channel a)
      (recordTouch settings project subject timestamp channel b) := by
  unfold RetentionLedger.recordTouch
  rw [h.1.userChannels]
  split_ifs
  · exact h
  · have hregistered := h.1.registerLabel .channel channel settings.maxChannelsPerProject
    dsimp only
    generalize registerLabel project .channel channel settings.maxChannelsPerProject a.ledger = left
      at hregistered ⊢
    generalize registerLabel project .channel channel settings.maxChannelsPerProject b.ledger = right
      at hregistered ⊢
    cases hregistered with
    | none =>
        refine ⟨h.1.putChannel subject _, ?_⟩
        rw [h.2]
    | some hledger => exact ⟨hledger.putChannel subject _, h.2⟩

theorem SameWork.recordActivity (event : RetentionEvent) :
    SameWork project (recordActivity settings project event a)
      (recordActivity settings project event b) := by
  have hadmitted : Option.Rel (SameProject project)
      (admitted settings project event.subject a.ledger)
      (admitted settings project event.subject b.ledger) := h.1.admitted event.subject
  unfold RetentionLedger.recordActivity
  generalize admitted settings project event.subject a.ledger = left at hadmitted ⊢
  generalize admitted settings project event.subject b.ledger = right at hadmitted ⊢
  cases hadmitted with
  | none =>
      refine ⟨h.1, ?_⟩
      rw [h.2]
  | some hledger =>
      have hnext : SameWork project ⟨_, a.dropped⟩ ⟨_, b.dropped⟩ :=
        ⟨hledger.recordUser event.subject event.day, h.2⟩
      cases event.channel with
      | none => exact hnext
      | some channel => exact hnext.recordTouch event.subject event.moment channel

theorem SameWork.recordConversion (goal : String) (event : RetentionEvent) :
    SameWork project (recordConversion settings project goal event a)
      (recordConversion settings project goal event b) := by
  have hregistered := h.1.registerLabel .goal goal settings.maxGoalsPerProject
  have hrefused : SameWork project
      { a with dropped := { a.dropped with conversions := a.dropped.conversions + 1 } }
      { b with dropped := { b.dropped with conversions := b.dropped.conversions + 1 } } := by
    refine ⟨h.1, ?_⟩
    rw [h.2]
  unfold RetentionLedger.recordConversion
  dsimp only
  rw [h.1.knownSubject, h.1.userCount]
  by_cases hfull : (!a.ledger.knownSubject project event.subject &&
      decide (settings.maxUsersPerProject ≤ a.ledger.userCount project)) = true
  · rw [if_pos hfull, if_pos hfull]
    exact hrefused
  · rw [if_neg hfull, if_neg hfull]
    generalize registerLabel project .goal goal settings.maxGoalsPerProject a.ledger = left
      at hregistered ⊢
    generalize registerLabel project .goal goal settings.maxGoalsPerProject b.ledger = right
      at hregistered ⊢
    cases hregistered with
    | none => exact hrefused
    | @some left right hledger =>
        refine ⟨SameProject.recordConversionDay ?_ event.subject goal event.day, h.2⟩
        split_ifs
        · exact hledger
        · have hadmitted : Option.Rel (SameProject project) (admitSubject settings project left)
              (admitSubject settings project right) := hledger.admitSubject
          generalize admitSubject settings project left = counted at hadmitted ⊢
          generalize admitSubject settings project right = counted' at hadmitted ⊢
          cases hadmitted with
          | none => exact hledger
          | some hcounted => exact hcounted

theorem SameWork.ingestEvent (event : RetentionEvent) :
    EndsAlike (SameWork project) (ingestEvent settings project a event)
      (ingestEvent settings project b event) := by
  have hpinned := h.1.pinSalt event.salt
  unfold RetentionLedger.ingestEvent
  refine EndsAlike.after _ fun _ => ?_
  dsimp only
  rw [hpinned.row]
  refine EndsAlike.after _ fun _ => ?_
  have hwork : SameWork project ⟨pinSalt project event.salt a.ledger, a.dropped⟩
      ⟨pinSalt project event.salt b.ledger, b.dropped⟩ := ⟨hpinned, h.2⟩
  show SameWork project _ _
  unfold RetentionLedger.record
  cases event.goal with
  | none => exact hwork.recordActivity event
  | some goal => exact hwork.recordConversion goal event

theorem SameWork.ingestEvents (events : List RetentionEvent) :
    EndsAlike (SameWork project) (ingestEvents settings project a events)
      (ingestEvents settings project b events) := by
  induction events generalizing a b with
  | nil => exact h
  | cons event events ih =>
      exact EndsAlike.bind (h.ingestEvent event) fun left right hnext => ih hnext

end

/-- A batch of a project ends alike where its rows are the same. -/
theorem SameProject.ingestBatch {settings : RetentionSettings} {project : String}
    {a b : RetentionLedger} (h : SameProject project a b) (events : List RetentionEvent) :
    EndsAlike (SameWork project) (a.ingestBatch settings project events)
      (b.ingestBatch settings project events) := by
  have hwork : SameWork project ⟨a, {}⟩ ⟨b, {}⟩ := ⟨h, rfl⟩
  unfold RetentionLedger.ingestBatch
  refine EndsAlike.bind (hwork.ingestEvents events) fun left right hnext => ⟨?_, hnext.2⟩
  unfold addDropped
  rw [hnext.2]
  split_ifs
  · exact hnext.1.updateProject _
  · exact hnext.1

/-- A batch of another project leaves the rows. -/
theorem sameProject_ingestBatch {settings : RetentionSettings} {project other : String}
    (hother : project ≠ other) {ledger : RetentionLedger} {events : List RetentionEvent} {work : Work}
    (h : ledger.ingestBatch settings other events = .ok work) :
    SameProject project ledger work.ledger := by
  have hbatch := @sameProject_afterBatch settings project ledger ⟨other, events⟩ hother
  unfold afterBatch at hbatch
  simp only [h] at hbatch
  exact hbatch

end RetentionLedger

end Wardx
