import Wardx.Storage.ExperimentLedger

/-!
# All-or-nothing batches

`ingestBatch` first runs the whole batch against a private map and only then
writes. The private map starts empty and shadows the stored rows: an entry
stands for the row as the batch so far would have left it, and a closed entry
for a unit that any event can only be late for.

`Simulates` relates that map to the ledger the same prefix would really have
produced. One event keeps the relation and gets a rejecting status on one side
exactly when it does on the other, so the induction over the batch transfers
the whole answer: the rejection, and the number of rows inserted.
-/
namespace Wardx.ExperimentLedger

open Lib

/-- An entry of the private map. The entry written for a closed unit that has
no row carries the closed mark and nothing else. -/
structure PreflightRow where
  variant : Option String := none
  hasExposure : Bool := false
  goalValue : Option ℚ := none
  sourceRole : Option String := none
  trustClass : Option TrustClass := none
  closed : Bool := false
deriving DecidableEq, Repr

structure PreflightState where
  assignments : Table String PreflightRow
  newAssignments : ℕ
deriving DecidableEq, Repr

structure Rejected where
  status : IngestStatus
  event : ExperimentEvent
deriving DecidableEq, Repr

structure Preflight where
  newAssignments : ℕ
  rejected : Option Rejected
deriving DecidableEq, Repr

/-- What the preflight remembers of a stored row. -/
def storedView (row : AssignmentRow) : PreflightRow where
  variant := some row.variant
  hasExposure := true
  goalValue := row.goal.map GoalDetails.value
  sourceRole := some row.sourceRole
  trustClass := some row.trustClass
  closed := 0 < row.expiresAt

/-- The text the private map is keyed by. -/
def preflightKey (experiment assignmentHash : String) : String :=
  experiment ++ "\x00" ++ assignmentHash

/-- The entry in the map, else the stored row. -/
def currentView (ledger : ExperimentLedger) (project : String) (state : PreflightState)
    (event : ExperimentEvent) : Option PreflightRow :=
  match state.assignments.get (preflightKey event.experiment event.assignmentHash) with
  | some row => some row
  | none => (ledger.assignments.get (assignmentKey project event)).map storedView

/-- One turn of the preflight loop. The terminal decision is read from the
store each time; the code's memo of it is a cache of the same read. -/
def preflightStep (ledger : ExperimentLedger) (project : String) (source : Source)
    (state : PreflightState) (event : ExperimentEvent) : Except Rejected PreflightState :=
  let key := preflightKey event.experiment event.assignmentHash
  let terminal := ledger.isTerminal project event.experiment
  let current := currentView ledger project state event
  if terminal || current.any PreflightRow.closed then
    .ok { state with
      assignments := state.assignments.put key { current.getD {} with closed := true } }
  else if current.any (fun row => row.variant ≠ some event.variant) then
    .error ⟨.variantConflict, event⟩
  else match event.kind with
    | .exposure =>
        match current with
        | none =>
            .ok ⟨state.assignments.put key
              { variant := some event.variant
                hasExposure := true
                goalValue := none
                sourceRole := some source.role
                trustClass := some (trustClass source)
                closed := false }, state.newAssignments + 1⟩
        | some row => .ok { state with assignments := state.assignments.put key row }
    | .goal value =>
        match current with
        | none => .error ⟨.missingExposure, event⟩
        | some row =>
            if row.hasExposure = false ∨ row.sourceRole ≠ some source.role ∨
                row.trustClass ≠ some (trustClass source) then
              .error ⟨.missingExposure, event⟩
            else
              .ok { state with
                assignments := state.assignments.put key
                  { row with goalValue := some (row.goalValue.getD value) } }

def preflightFrom (ledger : ExperimentLedger) (project : String) (source : Source) :
    PreflightState → List ExperimentEvent → Preflight
  | state, [] => ⟨state.newAssignments, none⟩
  | state, event :: events =>
      match preflightStep ledger project source state event with
      | .ok next => preflightFrom ledger project source next events
      | .error rejected => ⟨state.newAssignments, some rejected⟩

/-- `_preflight`. -/
def preflight (ledger : ExperimentLedger) (project : String) (events : List ExperimentEvent)
    (source : Source) : Preflight :=
  preflightFrom ledger project source ⟨Table.empty, 0⟩ events

/-- `events.map((event) => this._ingest(project, event, source))`. -/
def ingestAll (ledger : ExperimentLedger) (project : String) (source : Source) :
    List ExperimentEvent → ExperimentLedger × List IngestResult
  | [] => (ledger, [])
  | event :: events =>
      let (next, status) := ledger.ingest project event source
      let (last, results) := next.ingestAll project source events
      (last, ⟨status, event.experiment⟩ :: results)

/-- The untrusted events of a rejected batch are still counted. -/
def countUntrustedRows (ledger : ExperimentLedger) (project : String) (source : Source) :
    List ExperimentEvent → ExperimentLedger
  | [] => ledger
  | event :: events =>
      countUntrustedRows
        (ledger.updateTotals project event.experiment event.variant source fun totals =>
          { totals with untrustedRows := totals.untrustedRows + 1 })
        project source events

/-- The counter of the rejecting status. -/
def countRejection (rejected : Rejected) (totals : Totals) : Totals :=
  if rejected.status = .variantConflict then
    { totals with variantConflicts := totals.variantConflicts + 1 }
  else { totals with missingExposures := totals.missingExposures + 1 }

/-- The transaction of a rejected batch. -/
def recordRejection (ledger : ExperimentLedger) (project : String)
    (events : List ExperimentEvent) (source : Source) (rejected : Rejected) : ExperimentLedger :=
  let counted :=
    if source.trustedForDecisions then ledger
    else ledger.countUntrustedRows project source events
  counted.updateTotals project rejected.event.experiment rejected.event.variant source
    (countRejection rejected)

/-- `ingestBatch`. Every throw precedes the first write. -/
def ingestBatch (settings : LedgerSettings) (ledger : ExperimentLedger) (project : String)
    (events : List ExperimentEvent) (source : Source) :
    Except String (ExperimentLedger × List IngestResult) := do
  assertNonEmptyString project "project"
  assertSource source
  require (events.length ≤ settings.maxWriteBatch)
    "experiment event batch exceeds configured maximum"
  checkAll assertEvent events
  if events = [] then
    pure (ledger, [])
  else
    let preflight := ledger.preflight project events source
    require (preflight.newAssignments + ledger.assignments.size ≤ settings.maxRows)
      "experiment ledger capacity exceeded"
    match preflight.rejected with
    | some rejected =>
        pure (ledger.recordRejection project events source rejected,
          [⟨rejected.status, rejected.event.experiment⟩])
    | none => pure (ledger.ingestAll project source events)

/-! ## The private map simulates the ledger -/

/-- Any event for this unit can only be late. -/
def Closed (ledger : ExperimentLedger) (project experiment hash : String) : Prop :=
  ledger.isTerminal project experiment = true ∨
    ∃ row, ledger.assignments.get ⟨project, experiment, hash⟩ = some row ∧ 0 < row.expiresAt

/-- An entry is right about a unit when both are closed, or when it is exactly
what a fresh read of the row would give. -/
def Agrees (ledger : ExperimentLedger) (project experiment hash : String)
    (entry : PreflightRow) : Prop :=
  (entry.closed = true ∧ ledger.Closed project experiment hash) ∨
    ∃ row, ledger.assignments.get ⟨project, experiment, hash⟩ = some row ∧
      entry = storedView row

/-- The private map after a prefix, against the ledger that really ingested it. -/
structure Simulates (start : ExperimentLedger) (project : String) (state : PreflightState)
    (ledger : ExperimentLedger) : Prop where
  decisions : ledger.terminalDecisions = start.terminalDecisions
  count : ledger.assignments.size = start.assignments.size + state.newAssignments
  shadowed : ∀ experiment hash entry, isHash hash = true →
    state.assignments.get (preflightKey experiment hash) = some entry →
    ledger.Agrees project experiment hash entry
  untouched : ∀ experiment hash, isHash hash = true →
    state.assignments.get (preflightKey experiment hash) = none →
    ledger.assignments.get ⟨project, experiment, hash⟩ =
      start.assignments.get ⟨project, experiment, hash⟩

/-- Hashes have one length, so the text splits back in one way. -/
theorem preflightKey_injective {experiment experiment' hash hash' : String}
    (h : isHash hash = true) (h' : isHash hash' = true)
    (he : preflightKey experiment hash = preflightKey experiment' hash') :
    experiment = experiment' ∧ hash = hash' := by
  unfold isHash at h h'
  rw [Bool.and_eq_true, beq_iff_eq] at h h'
  have ht := congrArg String.toList he
  simp only [preflightKey, String.toList_append] at ht
  obtain ⟨h₁, h₂⟩ := List.append_inj' ht (by rw [h.1, h'.1])
  obtain ⟨h₃, _⟩ := List.append_inj' h₁ rfl
  exact ⟨String.toList_inj.mp h₃, String.toList_inj.mp h₂⟩

theorem Simulates.init (ledger : ExperimentLedger) (project : String) :
    Simulates ledger project ⟨Table.empty, 0⟩ ledger where
  decisions := rfl
  count := rfl
  shadowed := by simp
  untouched := by simp

theorem Simulates.isTerminal_eq {start ledger : ExperimentLedger} {project : String}
    {state : PreflightState} (hs : Simulates start project state ledger) (experiment : String) :
    ledger.isTerminal project experiment = start.isTerminal project experiment := by
  unfold isTerminal
  rw [hs.decisions]

@[simp] theorem isTerminal_ingest (ledger : ExperimentLedger) (project : String)
    (event : ExperimentEvent) (source : Source) (project' experiment : String) :
    (ledger.ingest project event source).1.isTerminal project' experiment =
      ledger.isTerminal project' experiment := by
  unfold isTerminal
  rw [ingest_terminalDecisions]

/-- Events for other units leave an entry right. -/
theorem Agrees.ingest_other {ledger : ExperimentLedger} {project experiment hash : String}
    {entry : PreflightRow} (h : ledger.Agrees project experiment hash entry)
    (event : ExperimentEvent) (source : Source)
    (hne : ¬(experiment = event.experiment ∧ hash = event.assignmentHash)) :
    (ledger.ingest project event source).1.Agrees project experiment hash entry := by
  have hk : (⟨project, experiment, hash⟩ : AssignmentKey) ≠ assignmentKey project event := by
    intro he
    injection he with _ h₁ h₂
    exact hne ⟨h₁, h₂⟩
  unfold Agrees Closed at *
  simpa only [isTerminal_ingest, get_ingest, if_neg hk] using h

/-- The unit is closed in the ledger exactly when the preflight sees it closed. -/
theorem Simulates.closed_iff {start ledger : ExperimentLedger} {project : String}
    {state : PreflightState} (hs : Simulates start project state ledger)
    (event : ExperimentEvent) (hh : isHash event.assignmentHash = true) :
    (start.isTerminal project event.experiment ||
        (currentView start project state event).any PreflightRow.closed) = true ↔
      ledger.Closed project event.experiment event.assignmentHash := by
  rw [Bool.or_eq_true, ← hs.isTerminal_eq]
  unfold currentView
  cases hm : state.assignments.get (preflightKey event.experiment event.assignmentHash) with
  | none =>
      rw [show assignmentKey project event =
        ⟨project, event.experiment, event.assignmentHash⟩ from rfl,
        ← hs.untouched _ _ hh hm]
      unfold Closed
      cases ledger.assignments.get ⟨project, event.experiment, event.assignmentHash⟩ <;>
        simp [storedView]
  | some entry =>
      have ha := hs.shadowed _ _ _ hh hm
      constructor
      · rintro (ht | hc)
        · exact Or.inl ht
        · obtain ⟨_, hcl⟩ | ⟨row, hr, rfl⟩ := ha
          · exact hcl
          · exact Or.inr ⟨row, hr, by simpa [storedView] using hc⟩
      · rintro (ht | ⟨row, hr, hpos⟩)
        · exact Or.inl ht
        · obtain ⟨hc, _⟩ | ⟨row', hr', rfl⟩ := ha
          · exact Or.inr (by simpa using hc)
          · rw [hr] at hr'
            cases hr'
            exact Or.inr (by simpa [storedView] using hpos)

/-- For an open unit the preflight sees the row as the ledger has it. -/
theorem Simulates.currentView_eq {start ledger : ExperimentLedger} {project : String}
    {state : PreflightState} (hs : Simulates start project state ledger)
    (event : ExperimentEvent) (hh : isHash event.assignmentHash = true)
    (ho : ¬ledger.Closed project event.experiment event.assignmentHash) :
    currentView start project state event =
      (ledger.assignments.get (assignmentKey project event)).map storedView := by
  unfold currentView
  cases hm : state.assignments.get (preflightKey event.experiment event.assignmentHash) with
  | none => exact congrArg (Option.map storedView) (hs.untouched _ _ hh hm).symm
  | some entry =>
      obtain ⟨_, hc⟩ | ⟨row, hr, rfl⟩ := hs.shadowed _ _ _ hh hm
      · exact absurd hc ho
      · rw [show assignmentKey project event =
          ⟨project, event.experiment, event.assignmentHash⟩ from rfl, hr]
        rfl

/-- Writing the event's entry keeps the relation when the entry is right and
the count is. -/
theorem Simulates.advance {start ledger : ExperimentLedger} {project : String}
    {state : PreflightState} (hs : Simulates start project state ledger)
    (event : ExperimentEvent) (source : Source) (hh : isHash event.assignmentHash = true)
    (entry : PreflightRow) (newAssignments : ℕ)
    (hcount : (ledger.ingest project event source).1.assignments.size =
      start.assignments.size + newAssignments)
    (hentry : (ledger.ingest project event source).1.Agrees project event.experiment
      event.assignmentHash entry) :
    Simulates start project
      ⟨state.assignments.put (preflightKey event.experiment event.assignmentHash) entry,
        newAssignments⟩
      (ledger.ingest project event source).1 where
  decisions := by rw [ingest_terminalDecisions, hs.decisions]
  count := hcount
  shadowed := by
    intro experiment hash entry' hh' hget
    rw [Table.get_put] at hget
    by_cases hk : preflightKey experiment hash =
        preflightKey event.experiment event.assignmentHash
    · obtain ⟨rfl, rfl⟩ := preflightKey_injective hh' hh hk
      rw [if_pos rfl, Option.some.injEq] at hget
      exact hget ▸ hentry
    · rw [if_neg hk] at hget
      refine (hs.shadowed _ _ _ hh' hget).ingest_other event source ?_
      rintro ⟨rfl, rfl⟩
      exact hk rfl
  untouched := by
    intro experiment hash hh' hget
    rw [Table.get_put] at hget
    by_cases hk : preflightKey experiment hash =
        preflightKey event.experiment event.assignmentHash
    · rw [if_pos hk] at hget
      cases hget
    · rw [if_neg hk] at hget
      rw [get_ingest, if_neg, hs.untouched _ _ hh' hget]
      intro he
      injection he with _ h₁ h₂
      exact hk (by rw [h₁, h₂])

/-- A closed unit's event is late. -/
theorem statusOf_of_closed {ledger : ExperimentLedger} {project : String}
    {event : ExperimentEvent}
    (hc : ledger.Closed project event.experiment event.assignmentHash) (source : Source) :
    ledger.statusOf project event source = .lateRow := by
  unfold statusOf classify
  rw [if_pos]
  obtain ht | ⟨row, hr, hpos⟩ := hc
  · simp [ht]
  · simp [assignmentKey, hr, hpos]

/-- An open unit's event is classified by its row alone. -/
theorem statusOf_of_open {ledger : ExperimentLedger} {project : String}
    {event : ExperimentEvent}
    (ho : ¬ledger.Closed project event.experiment event.assignmentHash) (source : Source) :
    ledger.statusOf project event source =
      classifyOpen (ledger.assignments.get (assignmentKey project event)) event source := by
  unfold statusOf classify
  rw [if_neg]
  rw [Bool.or_eq_true]
  rintro (ht | hr)
  · exact ho (Or.inl ht)
  · cases hg : ledger.assignments.get (assignmentKey project event) with
    | none => simp [hg] at hr
    | some row => exact ho (Or.inr ⟨row, hg, by simpa [hg] using hr⟩)

/-- What the preflight makes of an open unit, read off the row itself. -/
def openStep (source : Source) (state : PreflightState) (event : ExperimentEvent)
    (current : Option AssignmentRow) : Except Rejected PreflightState :=
  let key := preflightKey event.experiment event.assignmentHash
  match classifyOpen current event source, current with
  | .variantConflict, _ => .error ⟨.variantConflict, event⟩
  | .missingExposure, _ => .error ⟨.missingExposure, event⟩
  | .acceptedGoal, some row =>
      .ok { state with
        assignments := state.assignments.put key
          (storedView { row with goal := some (goalDetails event source event.kind.value) }) }
  | _, some row => .ok { state with assignments := state.assignments.put key (storedView row) }
  | _, none =>
      .ok ⟨state.assignments.put key (storedView (exposureRow event source)),
        state.newAssignments + 1⟩

theorem preflightStep_of_open {start ledger : ExperimentLedger} {project : String}
    {state : PreflightState} (hs : Simulates start project state ledger)
    {event : ExperimentEvent} (source : Source) (hh : isHash event.assignmentHash = true)
    (ho : ¬ledger.Closed project event.experiment event.assignmentHash) :
    preflightStep start project source state event =
      openStep source state event (ledger.assignments.get (assignmentKey project event)) := by
  unfold preflightStep openStep classifyOpen
  rw [if_neg ((hs.closed_iff event hh).not.mpr ho), hs.currentView_eq event hh ho]
  cases hr : ledger.assignments.get (assignmentKey project event) with
  | none =>
      cases hk : event.kind with
      | exposure => simp [storedView, exposureRow]
      | goal value => simp
  | some row =>
      by_cases hv : row.variant = event.variant
      · cases hk : event.kind with
        | exposure => simp [storedView, hv]
        | goal value =>
            by_cases hsrc : row.sourceRole = source.role ∧ row.trustClass = trustClass source
            · cases hg : row.goal with
              | none => simp [storedView, hv, hsrc, hg, goalDetails, EventKind.value]
              | some accepted =>
                  by_cases ha : accepted.value = value <;> simp [storedView, hv, hsrc, hg, ha]
            · have hor := not_and_or.mp hsrc
              simp [storedView, hv, hor]
      · simp [storedView, hv]

/-- Without a row an open unit can only be exposed, or miss its exposure. -/
theorem classifyOpen_none (event : ExperimentEvent) (source : Source) :
    classifyOpen none event source = .acceptedExposure ∨
      classifyOpen none event source = .missingExposure := by
  unfold classifyOpen
  cases event.kind <;> simp

/-- A unit with a row is never exposed afresh. -/
theorem classifyOpen_some (row : AssignmentRow) (event : ExperimentEvent) (source : Source) :
    classifyOpen (some row) event source ≠ .acceptedExposure ∧
      classifyOpen (some row) event source ≠ .lateRow := by
  unfold classifyOpen
  cases event.kind with
  | exposure => simp only; split_ifs <;> simp
  | goal value => simp only; split_ifs <;> [simp; simp; (split <;> [split_ifs; skip] <;> simp)]

/-- One event: rejected on both sides with one status, or accepted on both and
the relation kept. -/
theorem preflightStep_spec {start ledger : ExperimentLedger} {project : String}
    {state : PreflightState} (hs : Simulates start project state ledger)
    (event : ExperimentEvent) (source : Source) (hh : isHash event.assignmentHash = true) :
    match preflightStep start project source state event with
    | .ok next =>
        (ledger.statusOf project event source).isRejection = false ∧
          Simulates start project next (ledger.ingest project event source).1
    | .error rejected =>
        rejected = ⟨ledger.statusOf project event source, event⟩ ∧
          (ledger.statusOf project event source).isRejection = true := by
  have hsize := size_ingest ledger project event source
  have hget : (ledger.ingest project event source).1.assignments.get
      ⟨project, event.experiment, event.assignmentHash⟩ =
        rowAfter (ledger.statusOf project event source) event source
          (ledger.assignments.get (assignmentKey project event)) := by
    rw [get_ingest]
    exact if_pos rfl
  by_cases hc : ledger.Closed project event.experiment event.assignmentHash
  · -- A late event writes no row, so the unit stays closed on both sides.
    have hst := statusOf_of_closed hc source
    rw [hst] at hsize hget
    unfold preflightStep
    rw [if_pos ((hs.closed_iff event hh).mpr hc)]
    refine ⟨by rw [hst]; rfl, hs.advance event source hh _ _ ?_ (Or.inl ⟨rfl, ?_⟩)⟩
    · simpa [hs.count] using hsize
    · unfold Closed
      rw [isTerminal_ingest, hget]
      exact hc
  · rw [preflightStep_of_open hs source hh hc]
    rw [statusOf_of_open hc source] at hsize hget ⊢
    unfold openStep
    cases hr : ledger.assignments.get (assignmentKey project event) with
    | none =>
        rw [hr] at hsize hget
        obtain hst | hst := classifyOpen_none event source
        · rw [hst] at hsize hget ⊢
          refine ⟨rfl, hs.advance event source hh _ _ ?_ (Or.inr ⟨_, hget, rfl⟩)⟩
          rw [hsize, hs.count, if_pos rfl, Nat.add_assoc]
        · rw [hst]
          exact ⟨rfl, rfl⟩
    | some row =>
        rw [hr] at hsize hget
        have hne := classifyOpen_some row event source
        have hcount : (ledger.ingest project event source).1.assignments.size =
            start.assignments.size + state.newAssignments := by
          rw [hsize, if_neg hne.1, hs.count, Nat.add_zero]
        cases hst : classifyOpen (some row) event source with
        | lateRow => exact absurd hst hne.2
        | acceptedExposure => exact absurd hst hne.1
        | variantConflict => exact ⟨rfl, rfl⟩
        | missingExposure => exact ⟨rfl, rfl⟩
        | _ =>
            rw [hst] at hget
            exact ⟨rfl, hs.advance event source hh _ _ hcount (Or.inr ⟨_, hget, rfl⟩)⟩

/-- Over the rest of a batch: a rejection is the status the running ledger
reaches first, and without one every event is accepted or counted. -/
theorem preflightFrom_spec {start ledger : ExperimentLedger} {project : String}
    {state : PreflightState} (hs : Simulates start project state ledger) (source : Source)
    (events : List ExperimentEvent) (hh : ∀ event ∈ events, isHash event.assignmentHash = true)
    (h : (preflightFrom start project source state events).rejected = none) :
    (∀ result ∈ (ledger.ingestAll project source events).2, result.status.isRejection = false) ∧
      (ledger.ingestAll project source events).1.assignments.size =
        start.assignments.size +
          (preflightFrom start project source state events).newAssignments := by
  induction events generalizing ledger state with
  | nil => exact ⟨by simp [ingestAll], hs.count⟩
  | cons event events ih =>
      have hspec := preflightStep_spec hs event source (hh event List.mem_cons_self)
      unfold preflightFrom at h ⊢
      cases hstep : preflightStep start project source state event with
      | error rejected =>
          rw [hstep] at h
          cases h
      | ok next =>
          rw [hstep] at h hspec
          obtain ⟨hstatus, hnext⟩ := hspec
          obtain ⟨hrest, hsize⟩ :=
            ih hnext (fun e he => hh e (List.mem_cons_of_mem event he)) h
          refine ⟨?_, hsize⟩
          intro result hresult
          simp only [ingestAll, List.mem_cons] at hresult
          obtain rfl | hresult := hresult
          · rw [ingest_status]
            exact hstatus
          · exact hrest result hresult

/-! ## The whole batch -/

/-- The totals without the three counters a rejected batch may raise. -/
def withoutRejectionCounts (totals : Totals) : Totals :=
  { totals with untrustedRows := 0, variantConflicts := 0, missingExposures := 0 }

/-- Equal but for the three counters a rejected batch may raise. -/
structure SameEvidence (before after : ExperimentLedger) : Prop where
  assignments : after.assignments = before.assignments
  decisions : after.terminalDecisions = before.terminalDecisions
  totals : ∀ key, withoutRejectionCounts (after.totalsAt key) =
    withoutRejectionCounts (before.totalsAt key)

theorem SameEvidence.refl (ledger : ExperimentLedger) : SameEvidence ledger ledger :=
  ⟨rfl, rfl, fun _ => rfl⟩

theorem SameEvidence.trans {a b c : ExperimentLedger} (hab : SameEvidence a b)
    (hbc : SameEvidence b c) : SameEvidence a c where
  assignments := hbc.assignments.trans hab.assignments
  decisions := hbc.decisions.trans hab.decisions
  totals key := (hbc.totals key).trans (hab.totals key)

theorem SameEvidence.updateTotals (ledger : ExperimentLedger)
    (project experiment variant : String) (source : Source) {mutate : Totals → Totals}
    (h : ∀ totals, withoutRejectionCounts (mutate totals) = withoutRejectionCounts totals) :
    SameEvidence ledger (ledger.updateTotals project experiment variant source mutate) where
  assignments := rfl
  decisions := rfl
  totals key := by
    rw [totalsAt_updateTotals]
    split_ifs
    · exact h _
    · rfl

theorem SameEvidence.countUntrustedRows (ledger : ExperimentLedger) (project : String)
    (source : Source) (events : List ExperimentEvent) :
    SameEvidence ledger (ledger.countUntrustedRows project source events) := by
  induction events generalizing ledger with
  | nil => exact .refl ledger
  | cons event events ih =>
      unfold ExperimentLedger.countUntrustedRows
      refine SameEvidence.trans ?_ (ih _)
      exact SameEvidence.updateTotals ledger _ _ _ _ fun _ => rfl

theorem SameEvidence.recordRejection (ledger : ExperimentLedger) (project : String)
    (events : List ExperimentEvent) (source : Source) (rejected : Rejected) :
    SameEvidence ledger (ledger.recordRejection project events source rejected) := by
  have hlast (base : ExperimentLedger) : SameEvidence base
      (base.updateTotals project rejected.event.experiment rejected.event.variant source
        (countRejection rejected)) := by
    refine SameEvidence.updateTotals base _ _ _ _ fun totals => ?_
    unfold countRejection
    split_ifs <;> rfl
  unfold ExperimentLedger.recordRejection
  by_cases ht : source.trustedForDecisions
  · rw [if_pos ht]
    exact hlast ledger
  · rw [if_neg ht]
    exact (SameEvidence.countUntrustedRows ledger project source events).trans (hlast _)

/-- What a batch that was not refused did. -/
theorem ingestBatch_cases {settings : LedgerSettings} {ledger after : ExperimentLedger}
    {project : String} {events : List ExperimentEvent} {source : Source}
    {results : List IngestResult}
    (h : ingestBatch settings ledger project events source = .ok (after, results)) :
    (∀ event ∈ events, assertEvent event = .ok ()) ∧
      ((events = [] ∧ after = ledger ∧ results = []) ∨
        (∃ rejected, (ledger.preflight project events source).rejected = some rejected ∧
          after = ledger.recordRejection project events source rejected ∧
          results = [⟨rejected.status, rejected.event.experiment⟩]) ∨
        ((ledger.preflight project events source).rejected = none ∧
          (after, results) = ledger.ingestAll project source events ∧
          (ledger.preflight project events source).newAssignments + ledger.assignments.size ≤
            settings.maxRows)) := by
  unfold ingestBatch at h
  simp only [bind_eq_ok_iff, assertNonEmptyString, assertSource, require_eq_ok_iff,
    checkAll_eq_ok_iff, exists_const] at h
  obtain ⟨_, _, _, hevents, h⟩ := h
  refine ⟨hevents, ?_⟩
  split_ifs at h with hnil
  · cases h
    exact Or.inl ⟨hnil, rfl, rfl⟩
  · simp only [bind_eq_ok_iff, require_eq_ok_iff, exists_const, decide_eq_true_eq] at h
    obtain ⟨hcap, h⟩ := h
    split at h
    · rename_i rejected hrej
      cases h
      exact Or.inr (Or.inl ⟨rejected, hrej, rfl, rfl⟩)
    · rename_i hrej
      exact Or.inr (Or.inr ⟨hrej, (Except.ok.inj h).symm, hcap⟩)

/-- One call of `ingestBatch`; a throw leaves the ledger as it was. -/
structure Batch where
  project : String
  events : List ExperimentEvent
  source : Source
deriving DecidableEq, Repr

def afterBatch (settings : LedgerSettings) (ledger : ExperimentLedger) (batch : Batch) :
    ExperimentLedger :=
  match ingestBatch settings ledger batch.project batch.events batch.source with
  | .ok (after, _) => after
  | .error _ => ledger

theorem ingestAll_induction {P : ExperimentLedger → Prop} {project : String} {source : Source}
    {events : List ExperimentEvent}
    (hingest : ∀ ledger event, event ∈ events → P ledger →
      P (ledger.ingest project event source).1) {ledger : ExperimentLedger} (h : P ledger) :
    P (ledger.ingestAll project source events).1 := by
  induction events generalizing ledger with
  | nil => exact h
  | cons event events ih =>
      exact ih (fun ledger e he => hingest ledger e (List.mem_cons_of_mem _ he))
        (hingest ledger event List.mem_cons_self h)

/-- What every event and every rejection keeps, a batch keeps. -/
theorem afterBatch_induction {P : ExperimentLedger → Prop} (settings : LedgerSettings)
    {ledger : ExperimentLedger} (batch : Batch) (h : P ledger)
    (hsame : ∀ after, SameEvidence ledger after → P after)
    (hingest : ∀ ledger event, event ∈ batch.events → assertEvent event = .ok () → P ledger →
      P (ledger.ingest batch.project event batch.source).1) :
    P (afterBatch settings ledger batch) := by
  unfold afterBatch
  split
  · rename_i after results hok
    obtain ⟨hevents, ⟨_, rfl, _⟩ | ⟨rejected, _, rfl, _⟩ | ⟨_, heq, _⟩⟩ := ingestBatch_cases hok
    · exact h
    · exact hsame _ (SameEvidence.recordRejection _ _ _ _ _)
    · have hlast : P (ledger.ingestAll batch.project batch.source batch.events).1 :=
        ingestAll_induction (fun l event hmem hl => hingest l event hmem (hevents event hmem) hl) h
      rw [← heq] at hlast
      exact hlast
  · exact h

theorem preflight_spec (ledger : ExperimentLedger) (project : String)
    (events : List ExperimentEvent) (source : Source)
    (hevents : ∀ event ∈ events, assertEvent event = .ok ())
    (h : (ledger.preflight project events source).rejected = none) :
    (∀ result ∈ (ledger.ingestAll project source events).2, result.status.isRejection = false) ∧
      (ledger.ingestAll project source events).1.assignments.size =
        ledger.assignments.size + (ledger.preflight project events source).newAssignments :=
  preflightFrom_spec (Simulates.init ledger project) source events
    (fun event he => ((assertEvent_eq_ok_iff event).mp (hevents event he)).2.2.1) h

/-- A batch keeps the row count within the larger of the count it found and the cap. -/
theorem size_afterBatch_le (settings : LedgerSettings) (ledger : ExperimentLedger)
    (batch : Batch) :
    (afterBatch settings ledger batch).assignments.size ≤
      max ledger.assignments.size settings.maxRows := by
  unfold afterBatch
  split
  · rename_i after results h
    obtain ⟨hevents, ⟨_, rfl, _⟩ | ⟨rejected, _, rfl, _⟩ | ⟨hrej, heq, hcap⟩⟩ :=
      ingestBatch_cases h
    · exact le_max_left _ _
    · rw [(SameEvidence.recordRejection _ _ _ _ _).assignments]
      exact le_max_left _ _
    · have hsize := (preflight_spec _ _ _ _ hevents hrej).2
      rw [← heq] at hsize
      simp only at hsize
      exact le_max_of_le_right (by omega)
  · exact le_max_left _ _

theorem size_batches_le (settings : LedgerSettings) (ledger : ExperimentLedger)
    (batches : List Batch) :
    (batches.foldl (afterBatch settings) ledger).assignments.size ≤
      max ledger.assignments.size settings.maxRows := by
  induction batches generalizing ledger with
  | nil => exact le_max_left _ _
  | cons batch batches ih =>
      have hstep := size_afterBatch_le settings ledger batch
      have hrest := ih (afterBatch settings ledger batch)
      simp only [List.foldl_cons]
      omega

/-- Evidence of one batch is written whole or not at all. -/
theorem ingestBatch_all_or_nothing (settings : LedgerSettings) (ledger : ExperimentLedger)
    (project : String) (events : List ExperimentEvent) (source : Source)
    (hevents : ∀ event ∈ events, assertEvent event = .ok ()) :
    ((ledger.preflight project events source).rejected = none →
        (∀ result ∈ (ledger.ingestAll project source events).2,
          result.status ≠ .variantConflict ∧ result.status ≠ .missingExposure) ∧
        (ledger.ingestAll project source events).1.assignments.size =
          ledger.assignments.size + (ledger.preflight project events source).newAssignments) ∧
      ((ledger.preflight project events source).rejected ≠ none →
        SameEvidence ledger (afterBatch settings ledger ⟨project, events, source⟩)) ∧
      ∀ batches : List Batch,
        (batches.foldl (afterBatch settings) ledger).assignments.size ≤
          max ledger.assignments.size settings.maxRows := by
  refine ⟨?_, ?_, size_batches_le settings ledger⟩
  · intro h
    obtain ⟨hstatus, hsize⟩ := preflight_spec ledger project events source hevents h
    refine ⟨fun result hresult => ?_, hsize⟩
    have hr := hstatus result hresult
    constructor <;> intro hs <;> simp [hs, IngestStatus.isRejection] at hr
  · intro h
    unfold afterBatch
    split
    · rename_i after results hok
      obtain ⟨_, ⟨_, rfl, _⟩ | ⟨rejected, _, rfl, _⟩ | ⟨hrej, _, _⟩⟩ := ingestBatch_cases hok
      · exact .refl _
      · exact .recordRejection _ _ _ _ _
      · exact absurd hrej h
    · exact .refl _

/-- An exposure and its goal in one batch: one row planned, one row inserted. -/
theorem ingestBatch_all_or_nothing_exposure_goal :
    let source : Source := ⟨"web", "player", true⟩
    let exposure : ExperimentEvent := ⟨.exposure, "price", "a", "00000000000000aa", 1⟩
    let goal : ExperimentEvent := ⟨.goal 2, "price", "a", "00000000000000aa", 2⟩
    (empty.preflight "shop" [exposure, goal] source).rejected = none ∧
      (empty.ingestAll "shop" source [exposure, goal]).1.assignments.size = 0 + 1 := by
  have hevents : ∀ event ∈ [(⟨.exposure, "price", "a", "00000000000000aa", 1⟩ : ExperimentEvent),
      ⟨.goal 2, "price", "a", "00000000000000aa", 2⟩], assertEvent event = .ok () := by
    decide +kernel
  have h := ingestBatch_all_or_nothing ⟨10, 10, by decide, by decide⟩ empty "shop" _
    ⟨"web", "player", true⟩ hevents
  have hnone : (empty.preflight "shop" [⟨.exposure, "price", "a", "00000000000000aa", 1⟩,
      ⟨.goal 2, "price", "a", "00000000000000aa", 2⟩] ⟨"web", "player", true⟩).rejected = none := by
    decide +kernel
  have hnew : (empty.preflight "shop" [⟨.exposure, "price", "a", "00000000000000aa", 1⟩,
      ⟨.goal 2, "price", "a", "00000000000000aa", 2⟩] ⟨"web", "player", true⟩).newAssignments =
        1 := by
    decide +kernel
  exact ⟨hnone, (h.1 hnone).2.trans (by rw [hnew]; rfl)⟩

end Wardx.ExperimentLedger
