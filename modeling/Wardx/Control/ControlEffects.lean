import Wardx.Control.ControlRun

/-!
# The effect of a command

`step_effect` says once what a command can do to a server in order, with the
checks it passed: nothing, or the one change its constructor of `Effect` names.
The invariants of runs are derived from it and never look at a command's body.

A change of definitions is given as what the operation wrote, by id; the row
that is stored patches the old definitions towards it (`Rewrites`).
-/
namespace Wardx.Control

open Lib Json ControlStateChange

/-- The rows a patch stores, by id, from the rows before and what was written. -/
def Rewrites (before : StoredProject) (written : Fields) (after : StoredProject) : Prop :=
  ∀ id, PatchedField (before.definition id) (written.lookup id) (after.definition id)

theorem rewrites_of_patched {js : Js} {capacity : ℕ} {record after : ProjectRecord}
    {edited next : Json} {entry : Entry} {written : Fields} (hedited : StateWith edited written)
    (hpatched : Patched (normalize record.stored) edited next)
    (hafter : Appended js capacity record after next entry) : Rewrites record.stored written after.stored := by
  intro id
  rw [hafter.definition id]
  obtain ⟨top, rfl, hlookup, _⟩ := hedited
  obtain ⟨experiments, topNext, rfl, hnext, hkeyed⟩ := hafter.keyed
  have hfield := hpatched.patchedField "experimentsById"
  rw [hlookup, hnext] at hfield
  obtain ⟨z, hz, hinner⟩ := hfield
  cases hz
  have hexperiments : experimentsById (.obj topNext) = experiments :=
    StateWith.experimentsById ⟨topNext, rfl, hnext, hkeyed⟩
  rw [hexperiments]
  exact hinner.patchedField id

end Wardx.Control

namespace Wardx.ControlService

open Lib Json Control ControlStateChange

theorem stateWith_normalize {record : ProjectRecord} (h : RecordOk record) :
    StateWith (normalize record.stored) (byId record.stored.experiments) :=
  ⟨_, rfl, rfl, h.keyed⟩

theorem stateWith_editChild {state : Json} {experiments : Fields}
    (h : StateWith state experiments) {key : String} (hkey : key ≠ "experimentsById")
    (edit : Fields → Fields) : StateWith (editChild key edit state) experiments := by
  obtain ⟨top, rfl, hlookup, hkeyed⟩ := h
  exact StateWith.setField_ne ⟨top, rfl, hlookup, hkeyed⟩ hkey _

theorem stateWith_editCatalog {state : Json} {experiments : Fields}
    (h : StateWith state experiments) (edit : Fields → Fields) :
    StateWith (editCatalog edit state) experiments := by
  obtain ⟨top, rfl, hlookup, hkeyed⟩ := h
  exact StateWith.setField_ne ⟨top, rfl, hlookup, hkeyed⟩ (by decide) _

theorem child_editCatalog (edit : Fields → Fields) (state : Json) {key : String}
    (hkey : key ≠ "catalog") : child (editCatalog edit state) key = child state key := by
  unfold child editCatalog
  rw [Json.get?, lookup_setField, if_neg hkey, get?_fieldsOf]

theorem stateWith_editExperiments {state : Json} {experiments : Fields}
    (h : StateWith state experiments) {edit : Fields → Fields} (hedit : Keyed (edit experiments)) :
    StateWith (editChild "experimentsById" edit state) (edit experiments) := by
  have hexperiments := h.experimentsById
  obtain ⟨top, rfl, hlookup, _⟩ := h
  refine ⟨_, rfl, ?_, hedit⟩
  rw [lookup_setField, if_pos rfl]
  show some (Json.obj (edit (experimentsById (.obj top)))) = _
  rw [hexperiments]

/-- A mutation of one project that wrote these experiments, by id. -/
structure Mutated (settings : ControlSettings) (server : Server) (project : String)
    (record after : ProjectRecord) (written : Fields) : Prop where
  found : server.records.get project = some record
  keyed : Keyed written
  rewrites : Rewrites record.stored written after.stored
  reserved : ∃ candidate : Snapshot, candidate.experiments = written.map Prod.snd ∧
    Reserved settings server project candidate
  appended : ∃ next entry, Appended settings.js settings.journalCapacity record after next entry

theorem Mutated.ok {settings : ControlSettings} {server : Server} {project : String}
    {record after : ProjectRecord} {written : Fields}
    (h : Mutated settings server project record after written) : RecordOk after := by
  obtain ⟨next, entry, hafter⟩ := h.appended
  exact hafter.ok

/-- A mutation fails, or stores a patch towards what its edit wrote. -/
theorem mutate_written (settings : ControlSettings) {server : Server} (h : ServerOk server)
    (project operation : String) (affectedNames : List String)
    {edit : Json → Except String Json} (request : Request) (How : ProjectRecord → Fields → Prop)
    (hedit : ∀ record edited, server.records.get project = some record →
      edit (normalize record.stored) = .ok edited →
      ∃ written, How record written ∧ StateWith edited written) :
    (∃ e, mutate settings project operation affectedNames edit request server = (.error e, server)) ∨
      ∃ record after result written,
        mutate settings project operation affectedNames edit request server =
          (.ok result, published server project after) ∧ How record written ∧
        Mutated settings server project record after written := by
  have hcases := mutate_cases settings h project operation affectedNames request
    fun record edited hrecord hedited =>
      (hedit record edited hrecord hedited).elim fun _ hwritten => hwritten.2.keyedState
  cases hout : mutate settings project operation affectedNames edit request server with
  | mk result after =>
      rw [hout] at hcases
      cases hcases with
      | failed e => exact Or.inl ⟨e, rfl⟩
      | changed record after next entry result hrecord hhow hafter =>
          obtain ⟨edited, hedited, hpatched, hreserved⟩ := hhow
          obtain ⟨written, hwritten, hstate⟩ := hedit record edited hrecord hedited
          have hexperiments : (materialize edited).1.experiments = written.map Prod.snd := by
            rw [← hstate.experimentsById]
            rfl
          have hkeyed : Keyed written := by
            obtain ⟨_, _, _, hkeyed⟩ := hstate
            exact hkeyed
          exact Or.inr ⟨record, after, result, written, rfl, hwritten, hrecord, hkeyed,
            rewrites_of_patched hstate hpatched hafter, ⟨_, hexperiments, hreserved⟩,
            next, entry, hafter⟩

/-- Where a mutation and what follows it end. -/
theorem mutate_bind_last {α : Type} {settings : ControlSettings} {server : Server}
    (h : ServerOk server) {project operation : String} {affectedNames : List String}
    {edit : Json → Except String Json} {request : Request} {rest : MutationResult → Service α}
    {P : Server → Prop} (How : ProjectRecord → Fields → Prop)
    (hedit : ∀ record edited, server.records.get project = some record →
      edit (normalize record.stored) = .ok edited →
      ∃ written, How record written ∧ StateWith edited written)
    (hstop : P server)
    (hok : ∀ record after result written, How record written →
      Mutated settings server project record after written →
      P (rest result (published server project after)).2) :
    P ((mutate settings project operation affectedNames edit request >>= rest) server).2 := by
  rcases mutate_written settings h project operation affectedNames request How hedit with
    ⟨e, hout⟩ | ⟨record, after, result, written, hout, hhow, hmutated⟩
  · rw [Action.bind_of_error rest hout]
    exact hstop
  · rw [Action.bind_of_ok rest hout]
    exact hok record after result written hhow hmutated

theorem mutate_last {settings : ControlSettings} {server : Server}
    (h : ServerOk server) {project operation : String} {affectedNames : List String}
    {edit : Json → Except String Json} {request : Request}
    {P : Server → Prop} (How : ProjectRecord → Fields → Prop)
    (hedit : ∀ record edited, server.records.get project = some record →
      edit (normalize record.stored) = .ok edited →
      ∃ written, How record written ∧ StateWith edited written)
    (hstop : P server)
    (hok : ∀ record after written, How record written →
      Mutated settings server project record after written → P (published server project after)) :
    P (mutate settings project operation affectedNames edit request server).2 := by
  rcases mutate_written settings h project operation affectedNames request How hedit with
    ⟨e, hout⟩ | ⟨record, after, result, written, hout, hhow, hmutated⟩
  · rw [hout]
    exact hstop
  · rw [hout]
    exact hok record after written hhow hmutated

/-! ## Effects -/

/-- The client copy and the id of an upserted experiment. -/
def upsertedId (experiment : Json) : String := propertyKey ((upsertedExperiment experiment).get? "id")

theorem get?_upsertedExperiment {experiment : Json} {name : String} (h : name ≠ "shippedVariant") :
    (upsertedExperiment experiment).get? name = (toClientExperiment experiment).get? name :=
  (lookup_deleteField "shippedVariant" name _).trans (if_neg h)

theorem get?_upsertedExperiment_shippedVariant (experiment : Json) :
    (upsertedExperiment experiment).get? "shippedVariant" = none :=
  (lookup_deleteField "shippedVariant" "shippedVariant" _).trans (if_pos rfl)

theorem id_of_valid {experiment : Json} (h : validateExperiment experiment = .ok ()) :
    ∃ id, id ≠ "" ∧ experiment.get? "id" = some (.str id) := by
  obtain ⟨id, hid, hne⟩ := (nonEmptyText_iff _).mp (validExperiment_of_ok h).id
  exact ⟨id, hne, hid⟩

theorem get?_id_toClientExperiment (experiment : Json) :
    (toClientExperiment experiment).get? "id" = experiment.get? "id" :=
  get?_toClientExperiment_of_mem (by decide) (by decide)

theorem get?_id_upsertedExperiment {experiment : Json}
    (h : validateExperiment experiment = .ok ()) :
    (upsertedExperiment experiment).get? "id" = some (.str (upsertedId experiment)) := by
  obtain ⟨id, _, hid⟩ := id_of_valid h
  unfold upsertedId
  rw [get?_upsertedExperiment (by decide), get?_id_toClientExperiment, hid]
  rfl

/-- The ledger after an analysis or a shipment of one experiment: nothing
changed, or the experiment is decided. -/
structure Concluded (before : ExperimentLedger) (project id : String) (after : ExperimentLedger) :
    Prop where
  totalsRows : after.totalsRows = before.totalsRows
  rows : ∀ key, ¬(key.project = project ∧ key.experiment = id) →
    after.assignments.get key = before.assignments.get key
  decisions : ∀ key, key ≠ (project, id) →
    after.terminalDecisions.get key = before.terminalDecisions.get key
  kept : ∀ key row, before.terminalDecisions.get key = some row →
    after.terminalDecisions.get key = some row
  own : after = before ∨ after.isTerminal project id = true

/-- The experiments with one of them rewritten. -/
def withExperiment (record : ProjectRecord) (id : String) (definition : Json) : Fields :=
  setField id definition (byId record.stored.experiments)

/-- What a command did, with the checks it passed. -/
inductive Effect (settings : ControlSettings) (server : Server) : Command → Server → Prop
  | same (command : Command) : Effect settings server command server
  | upserted (project : String) (experiment : Json) (request : Request)
      (record after : ProjectRecord)
      (hmutated : Mutated settings server project record after
        (withExperiment record (upsertedId experiment) (upsertedExperiment experiment)))
      (hvalid : validateExperiment experiment = .ok ())
      (hkeys : assertExperimentKeysExist (upsertedExperiment experiment) record.stored.values
        record.stored.keyRoles = .ok ())
      (hplan : assertPlanKept server project
        (record.stored.definition (upsertedId experiment)) (upsertedExperiment experiment) = .ok ()) :
      Effect settings server (.upsertExperiment project experiment request)
        (published server project after)
  | enabled (project id : String) (request : Request) (now : ℕ) (record after : ProjectRecord)
      (fields : Fields)
      (hmutated : Mutated settings server project record after
        (withExperiment record id (.obj (setField "enabled" (.bool true) fields))))
      (hdefinition : record.stored.definition id = some (.obj fields))
      (hshipped : truthy ((Json.obj fields).get? "shippedVariant") = false)
      (hevidence : server.ledger.hasAnyEvidence project id = true →
        server.ledger.hasAssignmentRows project id = true) :
      Effect settings server (.setExperimentEnabled project id true request now)
        { published server project after with ledger := server.ledger.clearExpiry project id }
  | disabled (project id : String) (request : Request) (now : ℕ) (record after : ProjectRecord)
      (fields : Fields) (expiresAt : ℕ)
      (hmutated : Mutated settings server project record after
        (withExperiment record id (.obj (setField "enabled" (.bool false) fields))))
      (hdefinition : record.stored.definition id = some (.obj fields))
      (hexpiresAt : 0 < expiresAt) :
      Effect settings server (.setExperimentEnabled project id false request now)
        { published server project after with
          ledger := server.ledger.withExpiry project id expiresAt }
  | replaced (project : String) (snapshot : Json) (request : Request) (experiments : List Json)
      (record after : ProjectRecord)
      (hmutated : Mutated settings server project record after
        (byId (experiments.map toClientExperiment)))
      (hsnapshot : checkSnapshot snapshot = .ok experiments) :
      Effect settings server (.replaceSnapshot project snapshot request)
        (published server project after)
  | analysed (project id : String) (clock : AnalysisClock) (ledger : ExperimentLedger)
      (hledger : Concluded server.ledger project id ledger) :
      Effect settings server (.experimentStats project id clock) { server with ledger := ledger }
  | notShipped (project id : String) (variant : Option String) (request : Request)
      (clock : AnalysisClock) (now : ℕ) (ledger : ExperimentLedger)
      (hledger : Concluded server.ledger project id ledger) :
      Effect settings server (.shipExperiment project id variant request clock now)
        { server with ledger := ledger }
  | shipped (project id : String) (variant : Option String) (request : Request)
      (clock : AnalysisClock) (now : ℕ) (record after : ProjectRecord) (fields : Fields)
      (key : String) (ledger : ExperimentLedger)
      (hmutated : Mutated settings server project record after
        (withExperiment record id
          (.obj (setField "shippedVariant" (.str key) (setField "enabled" (.bool false) fields)))))
      (hdefinition : record.stored.definition id = some (.obj fields))
      (hledger : Concluded server.ledger project id ledger)
      (hterminal : ledger.isTerminal project id = true) :
      Effect settings server (.shipExperiment project id variant request clock now)
        { published server project after with ledger := ledger }
  | unrelated (command : Command) (project : String) (record after : ProjectRecord)
      (hmutated : Mutated settings server project record after (byId record.stored.experiments)) :
      Effect settings server command (published server project after)
  | rolledBack (project changeId : String) (request : Request) (record after : ProjectRecord)
      (target : Entry) (next : Json) (entry : Entry)
      (hrecord : server.records.get project = some record)
      (hafter : Appended settings.js settings.journalCapacity record after next entry)
      (htarget : findChange settings.journalCapacity record changeId = some target)
      (hedits : editAll target.reversible.inverse.operations (normalize record.stored) = some next) :
      Effect settings server (.rollbackConfigChange project changeId request)
        (published server project after)
  | ingested (project : String) (events : List ExperimentEvent) (source : Source) :
      Effect settings server (.ledgerIngest project events source)
        (ingestLedger settings project events source server)
  | sent (project : String) (envelope : Envelope) (source : Source) (store : Served)
      (hstore : server.served.get project = some store)
      (hvalid : validateExperimentEvents envelope store.snapshot.experiments = .ok ()) :
      Effect settings server (.pipelineIngest project envelope source)
        (ingestLedger settings project (experimentEvents envelope) source server)
  | pruned (now : ℕ) :
      Effect settings server (.pruneExpired now)
        { server with ledger := server.ledger.pruneExpired now }

/-! ## Each command has its effect -/

section
variable {settings : ControlSettings} {server : Server}

theorem readState_eq_ok_iff {project : String} {state : Json} :
    readState server project = .ok state ↔
      ∃ record, server.records.get project = some record ∧ state = normalize record.stored := by
  unfold readState
  simp only [bind_eq_ok_iff, readRecord_eq_ok_iff, pure, Except.pure, Except.ok.injEq]
  constructor
  · rintro ⟨record, hrecord, rfl⟩
    exact ⟨record, hrecord, rfl⟩
  · rintro ⟨record, hrecord, rfl⟩
    exact ⟨record, hrecord, rfl⟩

theorem stateWith_writeHypothesis {state : Json} {experiments : Fields}
    (h : StateWith state experiments) (id : String) (hypothesis : Option Json) :
    StateWith (writeHypothesis id hypothesis state) experiments := by
  cases hypothesis with
  | none => exact h
  | some text => exact stateWith_editChild h (by decide) _

theorem upsertExperiment_effect (h : ServerOk server) (project : String) (experiment : Json)
    (request : Request) :
    Effect settings server (.upsertExperiment project experiment request)
      (upsertExperiment settings project experiment request server).2 := by
  unfold upsertExperiment
  refine Action.check_bind_last (Effect.same _) fun _ hvalid => ?_
  refine Action.check_bind_last (Effect.same _) fun _ _ => ?_
  rw [Action.read_bind]
  refine Action.check_bind_last (Effect.same _) fun _ _ => ?_
  refine Action.check_bind_last (Effect.same _) fun current hcurrent => ?_
  refine Action.check_bind_last (Effect.same _) fun _ hkeys => ?_
  refine Action.check_bind_last (Effect.same _) fun _ hplan => ?_
  obtain ⟨record, hrecord, rfl⟩ := readState_eq_ok_iff.mp hcurrent
  refine mutate_last h (fun r written => written = withExperiment r (upsertedId experiment)
    (upsertedExperiment experiment)) ?_ (Effect.same _) ?_
  · intro r edited hr hedited
    cases hedited
    have hok := h.record project r hr
    exact ⟨_, rfl, stateWith_writeHypothesis (stateWith_editExperiments (stateWith_normalize hok)
      (hok.keyed.setField (get?_id_upsertedExperiment hvalid))) _ _⟩
  · rintro r after written rfl hmutated
    cases hrecord.symm.trans hmutated.found
    exact Effect.upserted project experiment request record after hmutated hvalid hkeys hplan

/-- An assignment to a field of a stored definition, other than its id. -/
theorem stateWith_editExperiment {record : ProjectRecord} (hok : RecordOk record) {id : String}
    {edit : Fields → Fields} {state edited : Json}
    (hstate : StateWith state (byId record.stored.experiments))
    (hid : ∀ fields, (edit fields).lookup "id" = fields.lookup "id")
    (h : editExperiment id edit state = .ok edited) :
    ∃ fields, record.stored.definition id = some (.obj fields) ∧
      StateWith edited (withExperiment record id (.obj (edit fields))) := by
  unfold editExperiment at h
  rw [hstate.experimentsById] at h
  split at h
  · rename_i fields hlookup
    cases h
    refine ⟨fields, hlookup, ?_⟩
    have hown : (Json.obj (edit fields)).get? "id" = some (.str id) :=
      (hid fields).trans (hok.keyed.id_of_lookup hlookup)
    exact stateWith_editExperiments hstate (hok.keyed.setField hown)
  · cases h

theorem lookup_setField_of_ne {key k : String} (h : k ≠ key) (value : Json) (fields : Fields) :
    (setField key value fields).lookup k = fields.lookup k :=
  (lookup_setField key k value fields).trans (if_neg h)

/-- A definition stored in a record in order is valid. -/
theorem valid_of_definition {record : ProjectRecord} (hok : RecordOk record) {id : String}
    {definition : Json} (h : record.stored.definition id = some definition) :
    validateExperiment definition = .ok () := by
  have hmem := (Table.lookup_eq_some_iff hok.keyed.nodup id definition).mp h
  exact hok.valid definition (mem_byId hmem)

theorem terminalRetentionMs_of_valid {definition : Json}
    (h : validateExperiment definition = .ok ()) :
    ∃ n : ℕ, 0 < n ∧ terminalRetentionMs definition = n := by
  have hretention := (validExperiment_of_ok h).terminalRetentionMs
  unfold terminalRetentionMs
  cases hfield : definition.get? "terminalRetentionMs" with
  | none =>
      rw [hfield] at hretention
      cases hretention
  | some value =>
      rw [hfield] at hretention
      cases value with
      | num q =>
          simp only [integerFrom, Bool.and_eq_true, decide_eq_true_eq] at hretention
          obtain ⟨hden, hnum⟩ := hretention
          refine ⟨q.num.toNat, by omega, ?_⟩
          have hcast : ((q.num.toNat : ℤ) : ℚ) = q.num := by
            rw [Int.toNat_of_nonneg (by omega)]
          show q = _
          rw [← Rat.coe_int_num_of_den_eq_one hden]
          exact_mod_cast hcast.symm
      | _ => cases hretention

theorem scheduleExpiry_nat (ledger : ExperimentLedger) {project id : String} (hproject : project ≠ "")
    (hid : id ≠ "") (n : ℕ) (hn : 0 < n) :
    ledger.scheduleExpiry project id n = .ok (ledger.withExpiry project id n) := by
  have hnatural : ExperimentLedger.isNatural (n : ℚ) = true := by
    simp [ExperimentLedger.isNatural]
  have hone : decide ((1 : ℚ) ≤ n) = true := by
    rw [decide_eq_true_eq]
    exact_mod_cast hn
  unfold ExperimentLedger.scheduleExpiry ExperimentLedger.assertNonEmptyString
  simp only [bind_eq_ok_iff, require_eq_ok_iff, exists_const, decide_eq_true_eq, Bool.and_eq_true]
  exact ⟨hproject, hid, ⟨hnatural, of_decide_eq_true hone⟩, by simp [pure, Except.pure]⟩

/-- What the checks before a toggle found. -/
theorem findToggled_ok {project id : String} {enabled : Bool} {experiment : Json}
    (h : findToggled server project id enabled = .ok experiment) :
    ∃ record, server.records.get project = some record ∧
      record.stored.definition id = some experiment ∧
      (enabled = true → truthy (experiment.get? "shippedVariant") = false ∧
        (server.ledger.hasAnyEvidence project id = true →
          server.ledger.hasAssignmentRows project id = true)) := by
  unfold findToggled at h
  rw [bind_eq_ok_iff] at h
  obtain ⟨current, hcurrent, h⟩ := h
  obtain ⟨record, hrecord, rfl⟩ := readState_eq_ok_iff.mp hcurrent
  rw [experimentsById_normalize] at h
  split at h
  · cases h
  · rename_i definition hdefinition
    simp only [bind_eq_ok_iff, require_eq_ok_iff, exists_const, pure, Except.pure,
      Except.ok.injEq] at h
    obtain ⟨hshipped, hevidence, rfl⟩ := h
    refine ⟨record, hrecord, hdefinition, ?_⟩
    rintro rfl
    simp only [Bool.true_and, Bool.not_eq_eq_eq_not, Bool.not_true] at hshipped
    refine ⟨hshipped, fun hany => ?_⟩
    simpa [hany] using hevidence

/-- Disabling a valid definition always schedules the expiry of its rows. -/
theorem followToggle_disabled {project id : String} (hproject : project ≠ "") (hid : id ≠ "")
    {experiment : Json} (hvalid : validateExperiment experiment = .ok ()) (now : ℕ) (s : Server) :
    ∃ expiresAt, 0 < expiresAt ∧ followToggle project id false experiment now s =
      (.ok (), { s with ledger := s.ledger.withExpiry project id expiresAt }) := by
  obtain ⟨n, hn, hretention⟩ := terminalRetentionMs_of_valid hvalid
  refine ⟨now + n, by omega, ?_⟩
  unfold followToggle
  rw [if_neg (by decide), ledgerWrite, Action.transaction_eq_ok_iff, bind_eq_ok_iff]
  refine ⟨_, ?_, rfl⟩
  rw [hretention]
  have hschedule := scheduleExpiry_nat s.ledger hproject hid (now + n) (by omega)
  rw [Nat.cast_add] at hschedule
  exact hschedule

theorem setExperimentEnabled_effect (h : ServerOk server) (project id : String) (enabled : Bool)
    (request : Request) (now : ℕ) :
    Effect settings server (.setExperimentEnabled project id enabled request now)
      (setExperimentEnabled settings project id enabled request now server).2 := by
  unfold setExperimentEnabled
  refine Action.check_bind_last (Effect.same _) fun _ hid => ?_
  rw [Action.read_bind]
  refine Action.check_bind_last (Effect.same _) fun store hstore => ?_
  refine Action.check_bind_last (Effect.same _) fun experiment hfound => ?_
  rw [require_eq_ok_iff, decide_eq_true_eq] at hid
  obtain ⟨hproject, _⟩ := requireStore_eq_ok_iff.mp hstore
  obtain ⟨found, hfoundRecord, hexperiment, hchecked⟩ := findToggled_ok hfound
  refine mutate_bind_last h (fun r written => ∃ fields,
    r.stored.definition id = some (.obj fields) ∧ written = withExperiment r id
      (.obj (setField "enabled" (.bool enabled) fields))) ?_ (Effect.same _) ?_
  · intro r edited hr hedited
    have hok := h.record project r hr
    obtain ⟨fields, hdefinition, hstate⟩ := stateWith_editExperiment hok (stateWith_normalize hok)
      (fun fields => lookup_setField_of_ne (by decide) _ fields) hedited
    exact ⟨_, ⟨fields, hdefinition, rfl⟩, hstate⟩
  · rintro record after result _ ⟨fields, hdefinition, rfl⟩ hmutated
    cases hfoundRecord.symm.trans hmutated.found
    cases hexperiment.symm.trans hdefinition
    cases enabled with
    | true =>
        obtain ⟨hshipped, hevidence⟩ := hchecked rfl
        exact Effect.enabled project id request now found after fields hmutated hdefinition
          hshipped hevidence
    | false =>
        obtain ⟨expiresAt, hexpiresAt, hwrite⟩ := followToggle_disabled hproject hid
          (valid_of_definition (h.record project found hmutated.found) hdefinition) now
          (published server project after)
        rw [Action.bind_of_ok _ hwrite]
        exact Effect.disabled project id request now found after fields expiresAt hmutated
          hdefinition hexpiresAt

theorem checkSnapshot_valid {snapshot : Json} {experiments : List Json}
    (h : checkSnapshot snapshot = .ok experiments) :
    ∀ experiment ∈ experiments, validateExperiment experiment = .ok () := by
  unfold checkSnapshot at h
  simp only [bind_eq_ok_iff] at h
  obtain ⟨_, _, _, _, h⟩ := h
  split at h
  · simp only [bind_eq_ok_iff, checkAll_eq_ok_iff, pure, Except.pure, Except.ok.injEq] at h
    obtain ⟨_, hall, rfl⟩ := h
    intro experiment hmem
    obtain ⟨⟨⟩, hvalid, _⟩ := hall experiment hmem
    exact hvalid
  · cases h

theorem keyed_byId_clients {experiments : List Json}
    (h : ∀ experiment ∈ experiments, validateExperiment experiment = .ok ()) :
    Keyed (byId (experiments.map toClientExperiment)) := by
  apply keyed_byId
  intro client hmem
  obtain ⟨experiment, hexperiment, rfl⟩ := List.mem_map.mp hmem
  rw [get?_id_toClientExperiment]
  exact (validExperiment_of_ok (h experiment hexperiment)).id

theorem replaceSnapshot_effect (h : ServerOk server) (project : String) (snapshot : Json)
    (request : Request) :
    Effect settings server (.replaceSnapshot project snapshot request)
      (replaceSnapshot settings project snapshot request server).2 := by
  unfold replaceSnapshot
  rw [Action.read_bind]
  refine Action.check_bind_last (Effect.same _) fun _ _ => ?_
  refine Action.check_bind_last (Effect.same _) fun experiments hsnapshot => ?_
  refine mutate_last h (fun _ written => written = byId (experiments.map toClientExperiment))
    ?_ (Effect.same _) ?_
  · intro r edited hr hedited
    cases hedited
    refine ⟨_, rfl, _, rfl, ?_, keyed_byId_clients (checkSnapshot_valid hsnapshot)⟩
    rw [lookup_setField, if_pos rfl]
  · rintro record after written rfl hmutated
    exact Effect.replaced project snapshot request experiments record after hmutated hsnapshot

/-! ### Config values and the catalog -/

/-- A mutation that writes no experiment. -/
theorem mutate_unrelated (h : ServerOk server) {project operation : String}
    {affectedNames : List String} {edit : Json → Except String Json} {request : Request}
    (command : Command)
    (hedit : ∀ record edited, server.records.get project = some record →
      edit (normalize record.stored) = .ok edited →
      StateWith edited (byId record.stored.experiments)) :
    Effect settings server command
      (mutate settings project operation affectedNames edit request server).2 := by
  refine mutate_last h (fun r written => written = byId r.stored.experiments) ?_
    (Effect.same _) ?_
  · intro r edited hr hedited
    exact ⟨_, rfl, hedit r edited hr hedited⟩
  · rintro record after written rfl hmutated
    exact Effect.unrelated command project record after hmutated

theorem setValue_effect (h : ServerOk server) (project key : String) (value roles : Json)
    (rules : Option Json) (request : Request) :
    Effect settings server (.setValue project key value roles rules request)
      (setValue settings project key value roles rules request server).2 := by
  unfold setValue
  refine Action.check_bind_last (Effect.same _) fun _ _ => ?_
  refine Action.check_bind_last (Effect.same _) fun _ _ => ?_
  rw [Action.read_bind]
  refine Action.check_bind_last (Effect.same _) fun _ _ => ?_
  apply mutate_unrelated h
  intro r edited hr hedited
  cases hedited
  have hstate := stateWith_normalize (h.record project r hr)
  have hvalues := stateWith_editChild
    (stateWith_editChild hstate (by decide : "values" ≠ "experimentsById") (setField key value))
    (by decide : "keyRoles" ≠ "experimentsById") (setField key roles)
  unfold editRules
  split
  · exact hvalues
  · exact stateWith_editChild hvalues (by decide) _
  · exact stateWith_editChild hvalues (by decide) _

theorem deleteValue_effect (h : ServerOk server) (project key : String) (request : Request) :
    Effect settings server (.deleteValue project key request)
      (deleteValue settings project key request server).2 := by
  unfold deleteValue
  refine Action.check_bind_last (Effect.same _) fun _ _ => ?_
  rw [Action.read_bind]
  refine Action.check_bind_last (Effect.same _) fun _ _ => ?_
  refine Action.check_bind_last (Effect.same _) fun _ _ => ?_
  refine Action.check_bind_last (Effect.same _) fun _ _ => ?_
  apply mutate_unrelated h
  intro r edited hr hedited
  cases hedited
  have hstate := stateWith_normalize (h.record project r hr)
  exact stateWith_editChild (stateWith_editChild (stateWith_editChild hstate (by decide) _)
    (by decide) _) (by decide) _

theorem commitCatalog_effect (h : ServerOk server) (command : Command)
    (project operation : String) (affectedNames : List String)
    (prepare : Served → Except String (Fields → Fields)) (request : Request) :
    Effect settings server command
      (commitCatalog settings project operation affectedNames prepare request server).2 := by
  unfold commitCatalog
  rw [Action.read_bind]
  refine Action.check_bind_last (Effect.same _) fun _ _ => ?_
  refine Action.check_bind_last (Effect.same _) fun edit _ => ?_
  apply mutate_unrelated h
  intro r edited hr hedited
  cases hedited
  exact stateWith_editCatalog (stateWith_normalize (h.record project r hr)) edit

theorem catalog_effect (h : ServerOk server) (project : String) (operation : CatalogOperation)
    (request : Request) :
    Effect settings server (.catalog project operation request)
      (CatalogOperation.call settings project request operation server).2 := by
  cases operation with
  | setProjectDescription description => exact commitCatalog_effect h _ _ _ _ _ _
  | setSignal name signal =>
      refine Action.check_bind_last (Effect.same _) fun _ _ => ?_
      refine Action.check_bind_last (Effect.same _) fun _ _ => ?_
      refine Action.check_bind_last (Effect.same _) fun _ _ => ?_
      exact commitCatalog_effect h _ _ _ _ _ _
  | setRoleDescription role description =>
      refine Action.check_bind_last (Effect.same _) fun _ _ => ?_
      refine Action.check_bind_last (Effect.same _) fun _ _ => ?_
      exact commitCatalog_effect h _ _ _ _ _ _
  | setRoleSource role path git =>
      refine Action.check_bind_last (Effect.same _) fun _ _ => ?_
      refine Action.check_bind_last (Effect.same _) fun _ _ => ?_
      refine Action.check_bind_last (Effect.same _) fun _ _ => ?_
      refine Action.check_bind_last (Effect.same _) fun _ _ => ?_
      exact commitCatalog_effect h _ _ _ _ _ _
  | deleteSignal name | setInspectEvent name | deleteInspectEvent name | setPersistLog name
  | deletePersistLog name =>
      refine Action.check_bind_last (Effect.same _) fun _ _ => ?_
      exact commitCatalog_effect h _ _ _ _ _ _

/-! ### Analyses and shipments -/

theorem Concluded.refl (ledger : ExperimentLedger) (project id : String) :
    Concluded ledger project id ledger :=
  ⟨rfl, fun _ _ => rfl, fun _ _ => rfl, fun _ _ h => h, Or.inl rfl⟩

theorem Concluded.trans {a b c : ExperimentLedger} {project id : String}
    (hab : Concluded a project id b) (hbc : Concluded b project id c) :
    Concluded a project id c := by
  refine ⟨hbc.totalsRows.trans hab.totalsRows,
    fun key hkey => (hbc.rows key hkey).trans (hab.rows key hkey),
    fun key hkey => (hbc.decisions key hkey).trans (hab.decisions key hkey),
    fun key row hrow => hbc.kept key row (hab.kept key row hrow), ?_⟩
  rcases hbc.own with rfl | hterminal
  · exact hab.own
  · exact Or.inr hterminal

theorem withExpiry_rows (ledger : ExperimentLedger) {project id : String} (expiresAt : ℕ)
    {key : AssignmentKey} (hkey : ¬(key.project = project ∧ key.experiment = id)) :
    (ledger.withExpiry project id expiresAt).assignments.get key = ledger.assignments.get key := by
  unfold ExperimentLedger.withExpiry
  rw [Table.get_mapValues]
  have hrow : ∀ row : AssignmentRow, (if key.project = project ∧ key.experiment = id ∧
      row.expiresAt = 0 then { row with expiresAt := expiresAt } else row) = row :=
    fun row => if_neg fun hrow => hkey ⟨hrow.1, hrow.2.1⟩
  simp only [hrow, Option.map_id']

theorem concluded_withExpiry {ledger : ExperimentLedger} {project id : String} (expiresAt : ℕ)
    (h : ledger.isTerminal project id = true) :
    Concluded ledger project id (ledger.withExpiry project id expiresAt) :=
  ⟨rfl, fun _ hkey => withExpiry_rows ledger expiresAt hkey, fun _ _ => rfl, fun _ _ hrow => hrow,
    Or.inr h⟩

theorem scheduleExpiry_ok {ledger after : ExperimentLedger} {project id : String} {expiresAt : ℚ}
    (h : ledger.scheduleExpiry project id expiresAt = .ok after) :
    after = ledger.withExpiry project id expiresAt.num.toNat := by
  unfold ExperimentLedger.scheduleExpiry at h
  simp only [bind_eq_ok_iff, pure, Except.pure, Except.ok.injEq] at h
  obtain ⟨_, _, _, _, _, _, rfl⟩ := h
  rfl

theorem readTerminalDecision_eq_some {ledger : ExperimentLedger} {project id : String}
    {decision : Decision} (h : ledger.readTerminalDecision project id = some decision) :
    ledger.isTerminal project id = true := by
  unfold ExperimentLedger.readTerminalDecision at h
  obtain ⟨row, hrow, _⟩ := Option.map_eq_some_iff.mp h
  unfold ExperimentLedger.isTerminal
  rw [hrow]
  rfl

/-- A first decision is found, and displaces none. -/
theorem concluded_put {ledger : ExperimentLedger} {project id : String}
    (hnone : ledger.readTerminalDecision project id = none) (row : TerminalDecisionRow) :
    let after : ExperimentLedger :=
      { ledger with terminalDecisions := ledger.terminalDecisions.put (project, id) row }
    Concluded ledger project id after ∧ after.isTerminal project id = true := by
  intro after
  have hterminal : after.isTerminal project id = true := by
    show ((ledger.terminalDecisions.put (project, id) row).get (project, id)).isSome = true
    rw [Table.get_put_self]
    rfl
  refine ⟨⟨rfl, fun _ _ => rfl, fun key hkey => Table.get_put_of_ne _ _ hkey, ?_, Or.inr hterminal⟩,
    hterminal⟩
  intro key existing hexisting
  have hne : key ≠ (project, id) := by
    rintro rfl
    rw [ExperimentLedger.readTerminalDecision, hexisting] at hnone
    cases hnone
  exact (Table.get_put_of_ne _ _ hne).trans hexisting

theorem concluded_of_persist {ledger after : ExperimentLedger} {project id : String}
    {decision stored : Decision} {expiresAt : ℚ} {decidedAt : ℕ}
    (h : ledger.persistTerminalDecisionAndScheduleExpiry project id decision expiresAt decidedAt =
      .ok (after, stored)) : Concluded ledger project id after := by
  unfold ExperimentLedger.persistTerminalDecisionAndScheduleExpiry at h
  simp only [bind_eq_ok_iff, pure, Except.pure, Except.ok.injEq, Prod.mk.injEq] at h
  obtain ⟨⟨persisted, decided⟩, hpersist, scheduled, hschedule, rfl, _⟩ := h
  rw [scheduleExpiry_ok hschedule]
  unfold ExperimentLedger.persistTerminalDecision at hpersist
  simp only [bind_eq_ok_iff] at hpersist
  obtain ⟨_, _, _, _, hpersist⟩ := hpersist
  split at hpersist
  · rename_i existing hexisting
    cases hpersist
    exact concluded_withExpiry _ (readTerminalDecision_eq_some hexisting)
  · rename_i hnone
    simp only [bind_eq_ok_iff, pure, Except.pure, Except.ok.injEq, Prod.mk.injEq] at hpersist
    obtain ⟨_, _, rfl, _⟩ := hpersist
    have hput := concluded_put hnone ⟨decidedAt, decision⟩
    exact hput.1.trans (concluded_withExpiry _ hput.2)

/-- Only the ledger changed, and only towards a decision of the experiment. -/
def Concludes (server : Server) (project id : String) (after : Server) : Prop :=
  ∃ ledger, Concluded server.ledger project id ledger ∧ after = { server with ledger := ledger }

theorem Concludes.refl (server : Server) (project id : String) :
    Concludes server project id server :=
  ⟨server.ledger, Concluded.refl _ _ _, rfl⟩

variable (server) in
theorem persistDecision_concludes (project id : String) (decision : Decision) (definition : Json)
    (decidedAt : ℕ) :
    Concludes server project id (persistDecision project id decision definition decidedAt server).2 := by
  unfold persistDecision Action.transaction
  split
  · rename_i stored after hok
    simp only [bind_eq_ok_iff, pure, Except.pure, Except.ok.injEq, Prod.mk.injEq] at hok
    obtain ⟨⟨ledger, _⟩, hpersist, _, rfl⟩ := hok
    exact ⟨ledger, concluded_of_persist hpersist, rfl⟩
  · exact Concludes.refl _ _ _

theorem reportPersisted_concludes (project id : String) (definition : Option Json)
    (persisted : Decision) (decidedAt : ℕ) :
    Concludes server project id
      (reportPersisted project id definition persisted decidedAt server).2 := by
  cases definition with
  | none => exact Concludes.refl _ _ _
  | some definition =>
      have hpersist := persistDecision_concludes server project id persisted definition
        decidedAt
      refine Action.bind_last ?_ ?_
      · intro e m hm
        rw [hm] at hpersist
        exact hpersist
      · intro decision m hm
        rw [hm] at hpersist
        split_ifs <;> exact hpersist

theorem decideNow_concludes (project id : String) (definition : Option Json)
    (variants : List VariantRow) (health : HealthCounts) (clock : AnalysisClock) :
    Concludes server project id
      (decideNow settings project id definition variants health clock server).2 := by
  unfold decideNow
  refine Action.check_bind_last (Concludes.refl _ _ _) fun decision _ => ?_
  cases definition with
  | none => exact Concludes.refl _ _ _
  | some row =>
      show Concludes server project id ((if _ then _ else _ : Service Decision) server).2
      split_ifs
      · exact persistDecision_concludes _ _ _ _ _ _
      · exact Concludes.refl _ _ _

variable (settings) (server) in
theorem decideStats_concludes (project id : String) (definition : Option Json)
    (provenance : List ExperimentLedger.TotalsRow) (clock : AnalysisClock) :
    Concludes server project id
      (decideStats settings project id definition provenance clock server).2 := by
  unfold decideStats
  rw [Action.read_bind]
  cases server.ledger.readTerminalDecision project id with
  | some persisted => exact reportPersisted_concludes _ _ _ _ _
  | none =>
      show Concludes server project id ((if _ then _ else _ : Service Decision) server).2
      split_ifs
      · exact Concludes.refl _ _ _
      · exact decideNow_concludes _ _ _ _ _ _

variable (settings) (server) in
theorem experimentStats_concludes (project id : String) (clock : AnalysisClock) :
    Concludes server project id (experimentStats settings project id clock server).2 := by
  unfold experimentStats
  refine Action.check_bind_last (Concludes.refl _ _ _) fun _ _ => ?_
  rw [Action.read_bind]
  refine Action.check_bind_last (Concludes.refl _ _ _) fun store _ => ?_
  have hstats := decideStats_concludes settings server project id
    (servedDefinition store id) (server.ledger.totals project id) clock
  refine Action.bind_last ?_ ?_
  · intro e m hm
    rw [hm] at hstats
    exact hstats
  · intro decision m hm
    rw [hm] at hstats
    exact hstats

theorem Concludes.serverOk {project id : String} {after : Server} (h : ServerOk server)
    (hafter : Concludes server project id after) : ServerOk after := by
  obtain ⟨ledger, _, rfl⟩ := hafter
  exact ⟨h.record, h.named, h.served⟩

theorem chooseShipment_terminal {project id : String} {analysis : Analysis}
    {variant : Option String} {shipment : Shipment}
    (h : chooseShipment server project id analysis variant = .ok shipment) :
    server.ledger.isTerminal project id = true := by
  unfold chooseShipment at h
  split at h
  · cases h
  · simp only at h
    split at h
    · cases h
    · rename_i decision hdecision
      exact readTerminalDecision_eq_some hdecision

theorem shipEdit_written {record : ProjectRecord} (hok : RecordOk record) {id : String}
    {shipment : Shipment} {edited : Json}
    (h : shipEdit id shipment (normalize record.stored) = .ok edited) :
    ∃ fields, record.stored.definition id = some (.obj fields) ∧
      StateWith edited (withExperiment record id (.obj (setField "shippedVariant"
        (.str shipment.key) (setField "enabled" (.bool false) fields)))) := by
  refine stateWith_editExperiment hok
    (stateWith_editChild (stateWith_normalize hok) (by decide) _) ?_ h
  intro fields
  rw [lookup_setField_of_ne (by decide), lookup_setField_of_ne (by decide)]

theorem shipExperiment_effect (h : ServerOk server) (project id : String)
    (variant : Option String) (request : Request) (clock : AnalysisClock) (now : ℕ) :
    Effect settings server (.shipExperiment project id variant request clock now)
      (shipExperiment settings project id variant request clock now server).2 := by
  unfold shipExperiment
  refine Action.check_bind_last (Effect.same _) fun _ _ => ?_
  refine Action.check_bind_last (Effect.same _) fun _ _ => ?_
  have hstats := experimentStats_concludes settings server project id clock
  refine Action.bind_last ?_ ?_
  · intro e m hm
    rw [hm] at hstats
    obtain ⟨ledger, hledger, rfl⟩ := hstats
    exact Effect.notShipped project id variant request clock now ledger hledger
  · intro analysis m hm
    rw [hm] at hstats
    have hok := hstats.serverOk h
    obtain ⟨ledger, hledger, rfl⟩ := hstats
    have hstop : Effect settings server (.shipExperiment project id variant request clock now)
        { server with ledger := ledger } :=
      Effect.notShipped project id variant request clock now ledger hledger
    rw [Action.read_bind]
    refine Action.check_bind_last hstop fun shipment hshipment => ?_
    have hterminal := chooseShipment_terminal hshipment
    refine Action.check_bind_last hstop fun store _ => ?_
    show Effect settings server _ ((if _ then _ else _ : Service ShipResult) _).2
    split_ifs
    · exact hstop
    · refine mutate_bind_last hok (fun r written => ∃ fields,
        r.stored.definition id = some (.obj fields) ∧ written = withExperiment r id
          (.obj (setField "shippedVariant" (.str shipment.key)
            (setField "enabled" (.bool false) fields)))) ?_ hstop ?_
      · intro r edited hr hedited
        obtain ⟨fields, hdefinition, hstate⟩ := shipEdit_written (hok.record project r hr) hedited
        exact ⟨_, ⟨fields, hdefinition, rfl⟩, hstate⟩
      · rintro record after result _ ⟨fields, hdefinition, rfl⟩ hmutated
        have hmutated' : Mutated settings server project record after _ :=
          ⟨hmutated.found, hmutated.keyed, hmutated.rewrites, hmutated.reserved, hmutated.appended⟩
        refine Action.bind_last ?_ ?_
        · intro e m' hm'
          unfold ledgerWrite Action.transaction at hm'
          split at hm'
          · cases hm'
          · cases hm'
            exact Effect.shipped project id variant request clock now record after fields
              shipment.key ledger hmutated' hdefinition hledger hterminal
        · intro _ m' hm'
          rw [ledgerWrite, Action.transaction_eq_ok_iff, bind_eq_ok_iff] at hm'
          obtain ⟨scheduled, hschedule, hm'⟩ := hm'
          cases hm'
          rw [scheduleExpiry_ok hschedule]
          exact Effect.shipped project id variant request clock now record after fields
            shipment.key _ hmutated' hdefinition
            (hledger.trans (concluded_withExpiry _ hterminal)) hterminal

/-! ### Rollbacks, evidence and the timer -/

theorem rollbackConfigChange_effect (h : ServerOk server) (project changeId : String)
    (request : Request) :
    Effect settings server (.rollbackConfigChange project changeId request)
      (rollbackConfigChange settings project changeId request server).2 := by
  have hcases := rollback_cases settings h project changeId request
  cases hout : rollbackConfigChange settings project changeId request server with
  | mk result after =>
      rw [hout] at hcases
      cases hcases with
      | failed e => exact Effect.same _
      | changed record after next entry result hrecord hhow hafter =>
          obtain ⟨target, htarget, hedits⟩ := hhow
          exact Effect.rolledBack project changeId request record after target next entry hrecord
            hafter htarget hedits

theorem ingestEnvelope_effect (project : String) (envelope : Envelope) (source : Source) :
    Effect settings server (.pipelineIngest project envelope source)
      (ingestEnvelope settings project envelope source server) := by
  unfold ingestEnvelope
  split
  · exact Effect.same _
  · rename_i store hstore
    split
    · exact Effect.same _
    · rename_i hvalid
      exact Effect.sent project envelope source store hstore hvalid

variable (settings) in
/-- Every command does what its effect says, from any server in order. -/
theorem step_effect (h : ServerOk server) (command : Command) :
    Effect settings server command (step settings command server) := by
  cases command with
  | upsertExperiment project experiment request =>
      exact upsertExperiment_effect h project experiment request
  | setExperimentEnabled project id enabled request now =>
      exact setExperimentEnabled_effect h project id enabled request now
  | replaceSnapshot project snapshot request => exact replaceSnapshot_effect h project snapshot request
  | shipExperiment project id variant request clock now =>
      exact shipExperiment_effect h project id variant request clock now
  | setValue project key value roles rules request =>
      exact setValue_effect h project key value roles rules request
  | deleteValue project key request => exact deleteValue_effect h project key request
  | catalog project operation request => exact catalog_effect h project operation request
  | rollbackConfigChange project changeId request =>
      exact rollbackConfigChange_effect h project changeId request
  | experimentStats project id clock =>
      obtain ⟨ledger, hledger, hafter⟩ :=
        experimentStats_concludes settings server project id clock
      show Effect settings server _ (experimentStats settings project id clock server).2
      rw [hafter]
      exact Effect.analysed project id clock ledger hledger
  | ledgerIngest project events source => exact Effect.ingested project events source
  | pipelineIngest project envelope source => exact ingestEnvelope_effect project envelope source
  | pruneExpired now => exact Effect.pruned now

variable (settings) in
/-- A server in order stays in order. -/
theorem step_serverOk (h : ServerOk server) (command : Command) :
    ServerOk (step settings command server) := by
  have hledger : ∀ s : Server, ServerOk s → ∀ ledger, ServerOk { s with ledger := ledger } :=
    fun s hs ledger => ⟨hs.record, hs.named, hs.served⟩
  have heffect := step_effect settings h command
  generalize step settings command server = after at heffect ⊢
  cases heffect with
  | same => exact h
  | upserted _ _ _ _ _ hmutated => exact h.published hmutated.found hmutated.ok
  | enabled _ _ _ _ _ _ _ hmutated => exact hledger _ (h.published hmutated.found hmutated.ok) _
  | disabled _ _ _ _ _ _ _ _ hmutated => exact hledger _ (h.published hmutated.found hmutated.ok) _
  | replaced _ _ _ _ _ _ hmutated => exact h.published hmutated.found hmutated.ok
  | analysed => exact hledger _ h _
  | notShipped => exact hledger _ h _
  | shipped _ _ _ _ _ _ _ _ _ _ _ hmutated =>
      exact hledger _ (h.published hmutated.found hmutated.ok) _
  | unrelated _ _ _ _ hmutated => exact h.published hmutated.found hmutated.ok
  | rolledBack _ _ _ _ _ _ _ _ hrecord hafter => exact h.published hrecord hafter.ok
  | ingested => exact hledger _ h _
  | sent => exact hledger _ h _
  | pruned => exact hledger _ h _

variable (settings) in
theorem run_serverOk (h : ServerOk server) (commands : List Command) :
    ServerOk (run (step settings) server commands) :=
  run_invariant_all ServerOk (fun _ command hs => step_serverOk settings hs command) h commands

end

end Wardx.ControlService
