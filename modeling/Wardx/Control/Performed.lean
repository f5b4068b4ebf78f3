import Wardx.Control.Published

/-!
# What a call did

`perform` runs a command and keeps its answer. `perform_performed` says once
what a call can answer and do to the rows and the served configs: it stopped
and left both as they were; it answered without changing a project; it wrote
an edit of one project's control state through the journal; or it rolled a
retained change back. `Edited` names the edit of each command, with the checks
the command made before it.

Where `Effect` follows the definitions and the ledger, this follows the control
state as a whole and the answers.
-/
namespace Wardx.ControlService

open Lib Json Control ControlStateChange

/-! ## Answers -/

/-- An outcome with its answer read another way. -/
def answer {α β : Type} (f : α → β) (outcome : Except String α × Server) :
    Except String β × Server :=
  (outcome.1.map f, outcome.2)

/-- A shipment that found the winner shipped has changed nothing. -/
def ShipResult.mutation (result : ShipResult) : Option MutationResult :=
  result.changeId.map fun changeId => { version := result.version, changeId := changeId }

/-- A command with its answer: the mutation it made, if it made one. -/
def perform (settings : ControlSettings) (command : Command) (server : Server) :
    Except String (Option MutationResult) × Server :=
  match command with
  | .upsertExperiment project experiment request =>
      answer some (upsertExperiment settings project experiment request server)
  | .setExperimentEnabled project id enabled request now =>
      answer some (setExperimentEnabled settings project id enabled request now server)
  | .replaceSnapshot project snapshot request =>
      answer some (replaceSnapshot settings project snapshot request server)
  | .shipExperiment project id variant request clock now =>
      answer ShipResult.mutation (shipExperiment settings project id variant request clock now server)
  | .setValue project key value roles rules request =>
      answer some (setValue settings project key value roles rules request server)
  | .deleteValue project key request => answer some (deleteValue settings project key request server)
  | .catalog project operation request =>
      answer some (CatalogOperation.call settings project request operation server)
  | .rollbackConfigChange project changeId request =>
      answer some (rollbackConfigChange settings project changeId request server)
  | .experimentStats project id clock =>
      answer (fun _ => none) (experimentStats settings project id clock server)
  | .ledgerIngest project events source =>
      (.ok none, ingestLedger settings project events source server)
  | .pipelineIngest project envelope source =>
      (.ok none, ingestEnvelope settings project envelope source server)
  | .pruneExpired now => (.ok none, { server with ledger := server.ledger.pruneExpired now })

theorem step_eq_perform (settings : ControlSettings) (command : Command) (server : Server) :
    step settings command server = (perform settings command server).2 := by
  cases command <;> rfl

/-! ## Edits -/

/-- A catalog edit leaves the inspect events a list. -/
def KeepsEvents (edit : Fields → Fields) : Prop :=
  ∀ catalog events, catalog.lookup "inspectEvents" = some (.arr events) →
    ∃ after, (edit catalog).lookup "inspectEvents" = some (.arr after)

/-- The edited control state of a command, with the checks the command made. -/
inductive Edited : Command → String → Request → ProjectRecord → Json → Prop
  | upserted (project : String) (experiment : Json) (request : Request) (record : ProjectRecord)
      (hvalid : validateExperiment experiment = .ok ())
      (hkeys : assertExperimentKeysExist (upsertedExperiment experiment) record.stored.values
        record.stored.keyRoles = .ok ()) :
      Edited (.upsertExperiment project experiment request) project request record
        (writeHypothesis (upsertedId experiment) (experiment.get? "hypothesis")
          (editChild "experimentsById"
            (setField (upsertedId experiment) (upsertedExperiment experiment))
            (normalize record.stored)))
  | toggled (project id : String) (enabled : Bool) (request : Request) (now : ℕ)
      (record : ProjectRecord) (fields : Fields)
      (hdefinition : record.stored.definition id = some (.obj fields)) :
      Edited (.setExperimentEnabled project id enabled request now) project request record
        (editChild "experimentsById" (setField id (.obj (setField "enabled" (.bool enabled) fields)))
          (normalize record.stored))
  | replaced (project : String) (snapshot : Json) (request : Request) (record : ProjectRecord)
      (experiments : List Json) (hsnapshot : checkSnapshot snapshot = .ok experiments) :
      Edited (.replaceSnapshot project snapshot request) project request record
        (writeSnapshot snapshot experiments (normalize record.stored))
  | shipped (project id : String) (variant : Option String) (request : Request)
      (clock : AnalysisClock) (now : ℕ) (record : ProjectRecord) (fields : Fields)
      (shipment : Shipment) (hdefinition : record.stored.definition id = some (.obj fields)) :
      Edited (.shipExperiment project id variant request clock now) project request record
        (editChild "experimentsById" (setField id (.obj (setField "shippedVariant"
          (.str shipment.key) (setField "enabled" (.bool false) fields))))
          (editChild "values" (fun values =>
            shipment.values.foldl (fun values field => setField field.1 field.2 values) values)
            (normalize record.stored)))
  | valueSet (project key : String) (value roles : Json) (rules : Option Json) (request : Request)
      (record : ProjectRecord) (hroles : assertRoles (some roles) "roles" = .ok ()) :
      Edited (.setValue project key value roles rules request) project request record
        (editRules key rules (editChild "keyRoles" (setField key roles)
          (editChild "values" (setField key value) (normalize record.stored))))
  | valueDeleted (project key : String) (request : Request) (record : ProjectRecord)
      (hkey : (record.stored.values.get? key).isSome = true) :
      Edited (.deleteValue project key request) project request record
        (editChild "keyRules" (deleteField key) (editChild "keyRoles" (deleteField key)
          (editChild "values" (deleteField key) (normalize record.stored))))
  | catalogEdited (project : String) (operation : CatalogOperation) (request : Request)
      (record : ProjectRecord) (edit : Fields → Fields) (hedit : KeepsEvents edit) :
      Edited (.catalog project operation request) project request record
        (editCatalog edit (normalize record.stored))

theorem Edited.keyedState {command : Command} {project : String}
    {request : Request} {record : ProjectRecord} {edited : Json}
    (h : Edited command project request record edited) (hok : RecordOk record) :
    KeyedState edited := by
  have hstate := stateWith_normalize hok
  cases h with
  | upserted _ experiment _ _ hvalid =>
      exact (stateWith_writeHypothesis (stateWith_editExperiments hstate
        (hok.keyed.setField (get?_id_upsertedExperiment hvalid))) _ _).keyedState
  | toggled _ id enabled _ _ _ fields hdefinition =>
      refine (stateWith_editExperiments hstate (hok.keyed.setField ?_)).keyedState
      exact (lookup_setField_of_ne (by decide) _ fields).trans (hok.keyed.id_of_lookup hdefinition)
  | replaced _ _ _ _ experiments hsnapshot =>
      refine ⟨_, _, rfl, ?_, keyed_byId_clients (checkSnapshot_valid hsnapshot)⟩
      rw [lookup_setField, if_pos rfl]
  | shipped _ id _ _ _ _ _ fields shipment hdefinition =>
      refine (stateWith_editExperiments (stateWith_editChild hstate (by decide) _)
        (hok.keyed.setField ?_)).keyedState
      have hid : (setField "shippedVariant" (.str shipment.key)
          (setField "enabled" (.bool false) fields)).lookup "id" = fields.lookup "id" := by
        rw [lookup_setField_of_ne (by decide), lookup_setField_of_ne (by decide)]
      exact hid.trans (hok.keyed.id_of_lookup hdefinition)
  | valueSet _ key value roles rules =>
      have hvalues := stateWith_editChild
        (stateWith_editChild hstate (by decide : "values" ≠ "experimentsById") (setField key value))
        (by decide : "keyRoles" ≠ "experimentsById") (setField key roles)
      unfold editRules
      split
      · exact hvalues.keyedState
      · exact (stateWith_editChild hvalues (by decide) _).keyedState
      · exact (stateWith_editChild hvalues (by decide) _).keyedState
  | valueDeleted =>
      exact (stateWith_editChild (stateWith_editChild (stateWith_editChild hstate (by decide) _)
        (by decide) _) (by decide) _).keyedState
  | catalogEdited _ _ _ _ edit _ => exact (stateWith_editCatalog hstate edit).keyedState

/-! ## Calls -/

/-- What a call answers, and what it did to rows and served configs. -/
inductive Performed (settings : ControlSettings) (server : Server) (command : Command) :
    Except String (Option MutationResult) × Server → Prop
  | stopped (e : String) (last : Server) (hsame : SamePublished server last) :
      Performed settings server command (.error e, last)
  | kept (last : Server) (hsame : SamePublished server last) :
      Performed settings server command (.ok none, last)
  | mutated (project : String) (request : Request) (record after : ProjectRecord)
      (edited next : Json) (entry : Entry) (result : MutationResult) (last : Server)
      (hedited : Edited command project request record edited)
      (hcommitted : Committed settings server project request record edited next entry result)
      (hpublishes : Publishes settings server project record after next entry last) :
      Performed settings server command (.ok (some result), last)
  | rolledBack (project changeId : String) (request : Request) (record after : ProjectRecord)
      (target : Entry) (next : Json) (entry : Entry) (result : MutationResult) (last : Server)
      (hcommand : command = .rollbackConfigChange project changeId request)
      (htarget : findChange settings.journalCapacity record changeId = some target)
      (hedits : editAll target.reversible.inverse.operations (normalize record.stored) = some next)
      (hreversible : entry.reversible = ⟨target.reversible.inverse, target.reversible.forward⟩)
      (htransacted : Transacted settings.journalCapacity record request.options entry result)
      (hpublishes : Publishes settings server project record after next entry last) :
      Performed settings server command (.ok (some result), last)

/-- What happened to the ledger before does not matter here. -/
theorem Performed.of_ledger {settings : ControlSettings} {server : Server} {command : Command}
    {ledger : ExperimentLedger} {outcome : Except String (Option MutationResult) × Server}
    (h : Performed settings { server with ledger := ledger } command outcome) :
    Performed settings server command outcome := by
  cases h with
  | stopped e last hsame => exact Performed.stopped e last ⟨hsame.records, hsame.served⟩
  | kept last hsame => exact Performed.kept last ⟨hsame.records, hsame.served⟩
  | mutated project request record after edited next entry result last hedited hcommitted hpublishes =>
      refine Performed.mutated project request record after edited next entry result last hedited
        ?_ ⟨hpublishes.found, hpublishes.appended, hpublishes.records, hpublishes.served⟩
      exact ⟨hcommitted.forward, hcommitted.inverse, hcommitted.edits, hcommitted.patched,
        hcommitted.reserved, hcommitted.transacted, hcommitted.notRollback⟩
  | rolledBack project changeId request record after target next entry result last hcommand htarget
      hedits hreversible htransacted hpublishes =>
      exact Performed.rolledBack project changeId request record after target next entry result
        last hcommand htarget hedits hreversible htransacted
        ⟨hpublishes.found, hpublishes.appended, hpublishes.records, hpublishes.served⟩

/-- The outcome of an operation that answers with its mutation. -/
def Meets (settings : ControlSettings) (server : Server) (command : Command)
    (outcome : Except String MutationResult × Server) : Prop :=
  Performed settings server command (answer some outcome)

section
variable {settings : ControlSettings} {server : Server}

theorem SamePublished.refl (server : Server) : SamePublished server server := ⟨rfl, rfl⟩

theorem Meets.stopped (command : Command) (e : String) :
    Meets settings server command (.error e, server) :=
  Performed.stopped e server (SamePublished.refl server)

theorem mutate_meets (h : ServerOk server) (command : Command) {project operation : String}
    {affectedNames : List String} {edit : Json → Except String Json} {request : Request}
    (hedit : ∀ record edited, server.records.get project = some record →
      edit (normalize record.stored) = .ok edited →
      Edited command project request record edited) :
    Meets settings server command
      (mutate settings project operation affectedNames edit request server) := by
  rcases mutate_run settings h project operation affectedNames request
      fun record edited hrecord hedited =>
        (hedit record edited hrecord hedited).keyedState (h.record project record hrecord) with
    ⟨e, hout⟩ | ⟨record, after, edited, next, entry, result, hout, hrecord, hedited, hcommitted, hafter⟩
  · rw [hout]
    exact Meets.stopped command e
  · rw [hout]
    exact Performed.mutated project request record after edited next entry result _
      (hedit record edited hrecord hedited) hcommitted ⟨hrecord, hafter, rfl, rfl⟩

/-- What follows a mutation and only writes the ledger leaves its outcome. -/
theorem mutate_bind_performed {α : Type} (h : ServerOk server) (command : Command)
    {project operation : String} {affectedNames : List String}
    {edit : Json → Except String Json} {request : Request} {rest : MutationResult → Service α}
    {read : α → Option MutationResult}
    (hedit : ∀ record edited, server.records.get project = some record →
      edit (normalize record.stored) = .ok edited →
      Edited command project request record edited)
    (hrest : ∀ after result, result.rolledBackChangeId = none →
      ∃ a ledger, rest result (published server project after) =
        (.ok a, { published server project after with ledger := ledger }) ∧
        read a = some result) :
    Performed settings server command
      (answer read ((mutate settings project operation affectedNames edit request >>= rest) server)) := by
  rcases mutate_run settings h project operation affectedNames request
      fun record edited hrecord hedited =>
        (hedit record edited hrecord hedited).keyedState (h.record project record hrecord) with
    ⟨e, hout⟩ | ⟨record, after, edited, next, entry, result, hout, hrecord, hedited, hcommitted, hafter⟩
  · rw [Action.bind_of_error rest hout]
    exact Performed.stopped e server (SamePublished.refl server)
  · obtain ⟨a, ledger, hlast, hread⟩ := hrest after result hcommitted.notRollback
    rw [Action.bind_of_ok rest hout, hlast]
    show Performed settings server command (.ok (read a), _)
    rw [hread]
    exact Performed.mutated project request record after edited next entry result _
      (hedit record edited hrecord hedited) hcommitted ⟨hrecord, hafter, rfl, rfl⟩

theorem upsertExperiment_meets (h : ServerOk server) (project : String) (experiment : Json)
    (request : Request) :
    Meets settings server (.upsertExperiment project experiment request)
      (upsertExperiment settings project experiment request server) := by
  unfold upsertExperiment
  refine Action.check_bind_run (Meets.stopped _) fun _ hvalid => ?_
  refine Action.check_bind_run (Meets.stopped _) fun _ _ => ?_
  rw [Action.read_bind]
  refine Action.check_bind_run (Meets.stopped _) fun _ _ => ?_
  refine Action.check_bind_run (Meets.stopped _) fun current hcurrent => ?_
  refine Action.check_bind_run (Meets.stopped _) fun _ hkeys => ?_
  refine Action.check_bind_run (Meets.stopped _) fun _ _ => ?_
  obtain ⟨record, hrecord, rfl⟩ := readState_eq_ok_iff.mp hcurrent
  apply mutate_meets h
  intro r edited hr hedited
  cases hrecord.symm.trans hr
  cases hedited
  exact Edited.upserted project experiment request record hvalid hkeys

theorem replaceSnapshot_meets (h : ServerOk server) (project : String) (snapshot : Json)
    (request : Request) :
    Meets settings server (.replaceSnapshot project snapshot request)
      (replaceSnapshot settings project snapshot request server) := by
  unfold replaceSnapshot
  rw [Action.read_bind]
  refine Action.check_bind_run (Meets.stopped _) fun _ _ => ?_
  refine Action.check_bind_run (Meets.stopped _) fun experiments hsnapshot => ?_
  apply mutate_meets h
  intro r edited hr hedited
  cases hedited
  exact Edited.replaced project snapshot request r experiments hsnapshot

theorem setValue_meets (h : ServerOk server) (project key : String) (value roles : Json)
    (rules : Option Json) (request : Request) :
    Meets settings server (.setValue project key value roles rules request)
      (setValue settings project key value roles rules request server) := by
  unfold setValue
  refine Action.check_bind_run (Meets.stopped _) fun _ _ => ?_
  refine Action.check_bind_run (Meets.stopped _) fun _ hroles => ?_
  rw [Action.read_bind]
  refine Action.check_bind_run (Meets.stopped _) fun _ _ => ?_
  apply mutate_meets h
  intro r edited hr hedited
  cases hedited
  exact Edited.valueSet project key value roles rules request r hroles

theorem deleteValue_meets (h : ServerOk server) (project key : String) (request : Request) :
    Meets settings server (.deleteValue project key request)
      (deleteValue settings project key request server) := by
  unfold deleteValue
  refine Action.check_bind_run (Meets.stopped _) fun _ _ => ?_
  rw [Action.read_bind]
  refine Action.check_bind_run (Meets.stopped _) fun _ _ => ?_
  refine Action.check_bind_run (Meets.stopped _) fun current hcurrent => ?_
  refine Action.check_bind_run (Meets.stopped _) fun _ hkey => ?_
  obtain ⟨record, hrecord, rfl⟩ := readState_eq_ok_iff.mp hcurrent
  rw [require_eq_ok_iff] at hkey
  apply mutate_meets h
  intro r edited hr hedited
  cases hrecord.symm.trans hr
  cases hedited
  exact Edited.valueDeleted project key request record hkey

theorem keepsEvents_setField {key : String} (hkey : key ≠ "inspectEvents") (value : Fields → Json) :
    KeepsEvents fun catalog => setField key (value catalog) catalog := by
  intro catalog events hevents
  refine ⟨events, ?_⟩
  rw [lookup_setField, if_neg (Ne.symm hkey)]
  exact hevents

theorem keepsEvents_setList (key : String) (list : Fields → List Json) :
    KeepsEvents fun catalog => setField key (.arr (list catalog)) catalog := by
  intro catalog events hevents
  by_cases hkey : key = "inspectEvents"
  · refine ⟨list catalog, ?_⟩
    rw [lookup_setField, if_pos hkey.symm]
  · exact keepsEvents_setField hkey (fun catalog => .arr (list catalog)) catalog events hevents

theorem keepsEvents_pushName (key name : String) : KeepsEvents (pushName key name) := by
  intro catalog events hevents
  unfold pushName
  split_ifs
  · exact ⟨events, hevents⟩
  · exact keepsEvents_setList key (fun catalog => namesUnder key catalog ++ [.str name]) catalog
      events hevents

theorem keepsEvents_removeName {key label name : String} {store : Served} {edit : Fields → Fields}
    (h : removeName key label name store = .ok edit) : KeepsEvents edit := by
  unfold removeName at h
  split at h
  · cases h
  · cases h
    exact keepsEvents_setList key _

theorem commitCatalog_meets (h : ServerOk server) (project : String) (catalog : CatalogOperation)
    (request : Request) (operation : String) (affectedNames : List String)
    {prepare : Served → Except String (Fields → Fields)}
    (hprepare : ∀ store edit, prepare store = .ok edit → KeepsEvents edit) :
    Meets settings server (.catalog project catalog request)
      (commitCatalog settings project operation affectedNames prepare request server) := by
  unfold commitCatalog
  rw [Action.read_bind]
  refine Action.check_bind_run (Meets.stopped _) fun store _ => ?_
  refine Action.check_bind_run (Meets.stopped _) fun edit hedit => ?_
  apply mutate_meets h
  intro r edited hr hedited
  cases hedited
  exact Edited.catalogEdited project catalog request r edit (hprepare store edit hedit)

theorem catalog_meets (h : ServerOk server) (project : String) (operation : CatalogOperation)
    (request : Request) :
    Meets settings server (.catalog project operation request)
      (CatalogOperation.call settings project request operation server) := by
  have hplain : ∀ {key : String} (value : Fields → Json), key ≠ "inspectEvents" →
      ∀ (_ : Served) edit, (.ok fun catalog => setField key (value catalog) catalog :
        Except String (Fields → Fields)) = .ok edit → KeepsEvents edit := by
    intro key value hkey _ edit heq
    cases heq
    exact keepsEvents_setField hkey value
  cases operation with
  | setProjectDescription description =>
      exact commitCatalog_meets h _ _ _ _ _ (hplain _ (by decide))
  | setSignal name signal =>
      refine Action.check_bind_run (Meets.stopped _) fun _ _ => ?_
      refine Action.check_bind_run (Meets.stopped _) fun _ _ => ?_
      refine Action.check_bind_run (Meets.stopped _) fun _ _ => ?_
      exact commitCatalog_meets h _ _ _ _ _ (hplain _ (by decide))
  | deleteSignal name =>
      refine Action.check_bind_run (Meets.stopped _) fun _ _ => ?_
      refine commitCatalog_meets h _ _ _ _ _ fun store edit hedit => ?_
      obtain ⟨_, _, heq⟩ := bind_eq_ok_iff.mp hedit
      exact hplain _ (by decide) store edit heq
  | setInspectEvent name | setPersistLog name =>
      refine Action.check_bind_run (Meets.stopped _) fun _ _ => ?_
      refine commitCatalog_meets h _ _ _ _ _ fun _ edit hedit => ?_
      cases hedit
      exact keepsEvents_pushName _ name
  | deleteInspectEvent name | deletePersistLog name =>
      refine Action.check_bind_run (Meets.stopped _) fun _ _ => ?_
      exact commitCatalog_meets h _ _ _ _ _ fun _ _ hedit => keepsEvents_removeName hedit
  | setRoleDescription role description =>
      refine Action.check_bind_run (Meets.stopped _) fun _ _ => ?_
      refine Action.check_bind_run (Meets.stopped _) fun _ _ => ?_
      exact commitCatalog_meets h _ _ _ _ _ (hplain _ (by decide))
  | setRoleSource role path git =>
      refine Action.check_bind_run (Meets.stopped _) fun _ _ => ?_
      refine Action.check_bind_run (Meets.stopped _) fun _ _ => ?_
      refine Action.check_bind_run (Meets.stopped _) fun _ _ => ?_
      refine Action.check_bind_run (Meets.stopped _) fun _ _ => ?_
      exact commitCatalog_meets h _ _ _ _ _ (hplain _ (by decide))

/-- A definition found under its id is an object. -/
theorem editExperiment_eq_ok {id : String} {edit : Fields → Fields} {state edited : Json}
    {experiments : Fields} (hstate : StateWith state experiments)
    (h : editExperiment id edit state = .ok edited) :
    ∃ fields, experiments.lookup id = some (.obj fields) ∧
      edited = editChild "experimentsById" (setField id (.obj (edit fields))) state := by
  unfold editExperiment at h
  rw [hstate.experimentsById] at h
  split at h
  · rename_i fields hlookup
    cases h
    exact ⟨fields, hlookup, rfl⟩
  · cases h

theorem setExperimentEnabled_performed (h : ServerOk server) (project id : String) (enabled : Bool)
    (request : Request) (now : ℕ) :
    Performed settings server (.setExperimentEnabled project id enabled request now)
      (answer some (setExperimentEnabled settings project id enabled request now server)) := by
  show Meets settings server _ _
  unfold setExperimentEnabled
  refine Action.check_bind_run (Meets.stopped _) fun _ hid => ?_
  rw [Action.read_bind]
  refine Action.check_bind_run (Meets.stopped _) fun store hstore => ?_
  refine Action.check_bind_run (Meets.stopped _) fun experiment hfound => ?_
  rw [require_eq_ok_iff, decide_eq_true_eq] at hid
  obtain ⟨hproject, _⟩ := requireStore_eq_ok_iff.mp hstore
  refine mutate_bind_performed h _ ?_ ?_
  · intro r edited hr hedited
    obtain ⟨fields, hdefinition, rfl⟩ :=
      editExperiment_eq_ok (stateWith_normalize (h.record project r hr)) hedited
    exact Edited.toggled project id enabled request now r fields hdefinition
  · intro after result _
    cases enabled with
    | true => exact ⟨result, server.ledger.clearExpiry project id, rfl, rfl⟩
    | false =>
        obtain ⟨found, hrecord, hdefinition, _⟩ := findToggled_ok hfound
        obtain ⟨expiresAt, _, hwrite⟩ := followToggle_disabled hproject hid
          (valid_of_definition (h.record project found hrecord) hdefinition) now
          (published server project after)
        refine ⟨result, server.ledger.withExpiry project id expiresAt, ?_, rfl⟩
        rw [Action.bind_of_ok _ hwrite]
        rfl

/-! ### Shipments -/

/-- The definition an analysis answers with is the served one. -/
theorem experimentStats_experiment {project id : String} {clock : AnalysisClock}
    {analysis : Analysis} {last : Server}
    (h : experimentStats settings project id clock server = (.ok analysis, last)) :
    ∃ store, server.served.get project = some store ∧
      analysis.experiment = (servedDefinition store id).map (attachHypothesis store.catalog) := by
  unfold experimentStats at h
  rw [Action.bind_eq_ok_iff] at h
  obtain ⟨_, m, hid, h⟩ := h
  rw [Action.check_run, Prod.mk.injEq] at hid
  obtain ⟨_, rfl⟩ := hid
  rw [Action.read_bind, Action.bind_eq_ok_iff] at h
  obtain ⟨store, m, hstore, h⟩ := h
  rw [Action.check_run, Prod.mk.injEq] at hstore
  rw [Action.bind_eq_ok_iff] at h
  obtain ⟨decision, _, _, h⟩ := h
  cases h
  exact ⟨store, (requireStore_eq_ok_iff.mp hstore.1).2, rfl⟩

theorem chooseShipment_experiment {project id : String} {analysis : Analysis}
    {variant : Option String} {shipment : Shipment}
    (h : chooseShipment server project id analysis variant = .ok shipment) :
    analysis.experiment = some shipment.experiment := by
  unfold chooseShipment at h
  split at h
  · cases h
  · rename_i experiment hexperiment
    dsimp only at h
    split at h
    · cases h
    · simp only [bind_eq_ok_iff] at h
      obtain ⟨_, _, _, _, h⟩ := h
      split at h
      · cases h
      · cases h
        exact hexperiment

theorem terminalRetentionMs_attachHypothesis (catalog experiment : Json) :
    terminalRetentionMs (attachHypothesis catalog experiment) = terminalRetentionMs experiment := by
  have hfield : ∀ text : String, terminalRetentionMs (.obj (setField "hypothesis" (.str text)
      (fieldsOf experiment))) = terminalRetentionMs experiment := by
    intro text
    unfold terminalRetentionMs
    show ((number? ((setField "hypothesis" (.str text) (fieldsOf experiment)).lookup
      "terminalRetentionMs")).getD 0) = _
    rw [lookup_setField_of_ne (by decide), get?_fieldsOf]
  unfold attachHypothesis
  split
  · split
    · split_ifs
      · exact hfield _
      · rfl
    · rfl
  · rfl

/-- A served definition retains its rows for a positive time. -/
theorem retention_of_served (h : ServerOk server) (hmirrored : Mirrored server) {project id : String}
    {store : Served} (hstore : server.served.get project = some store) {definition : Json}
    (hdefinition : servedDefinition store id = some definition) :
    ∃ n : ℕ, 0 < n ∧ terminalRetentionMs definition = n := by
  obtain ⟨record, hrecord, hmirrors⟩ := hmirrored project store hstore
  obtain ⟨experiment, hmem, rfl⟩ := hmirrors.experiment (List.mem_of_find?_eq_some hdefinition)
  obtain ⟨n, hn, hretention⟩ :=
    terminalRetentionMs_of_valid ((h.record project record hrecord).valid experiment hmem)
  refine ⟨n, hn, ?_⟩
  unfold terminalRetentionMs at hretention ⊢
  rw [get?_toClientExperiment_of_mem (by decide) (by decide)]
  exact hretention

/-- Scheduling the expiry of a shipped experiment's rows does not fail. -/
theorem ledgerWrite_schedule {project id : String} (hproject : project ≠ "") (hid : id ≠ "")
    {experiment : Json} {n : ℕ} (hn : 0 < n) (hretention : terminalRetentionMs experiment = n)
    (now : ℕ) (s : Server) :
    ledgerWrite (fun ledger => ledger.scheduleExpiry project id (now + terminalRetentionMs experiment)) s =
      (.ok (), { s with ledger := s.ledger.withExpiry project id (now + n) }) := by
  have hschedule := scheduleExpiry_nat s.ledger hproject hid (now + n) (by omega)
  rw [Nat.cast_add] at hschedule
  rw [ledgerWrite, Action.transaction_eq_ok_iff, bind_eq_ok_iff]
  refine ⟨_, ?_, rfl⟩
  rw [hretention]
  exact hschedule

theorem shipExperiment_performed (h : ServerOk server) (hmirrored : Mirrored server)
    (project id : String) (variant : Option String) (request : Request) (clock : AnalysisClock)
    (now : ℕ) :
    Performed settings server (.shipExperiment project id variant request clock now)
      (answer ShipResult.mutation
        (shipExperiment settings project id variant request clock now server)) := by
  let command : Command := .shipExperiment project id variant request clock now
  let P : Except String ShipResult × Server → Prop := fun outcome =>
    Performed settings server command (answer ShipResult.mutation outcome)
  show P _
  have hstop : ∀ e last, SamePublished server last → P (.error e, last) :=
    fun e last hsame => Performed.stopped e last hsame
  unfold shipExperiment
  refine Action.check_bind_run (fun e => hstop e server (SamePublished.refl server)) fun _ hid => ?_
  rw [require_eq_ok_iff, decide_eq_true_eq] at hid
  refine Action.check_bind_run (fun e => hstop e server (SamePublished.refl server)) fun _ _ => ?_
  have hstats := experimentStats_concludes settings server project id clock
  refine Action.bind_run ?_ ?_
  · intro e m hm
    rw [hm] at hstats
    obtain ⟨ledger, _, rfl⟩ := hstats
    exact hstop e _ ⟨rfl, rfl⟩
  · intro analysis m hm
    rw [hm] at hstats
    have hok := hstats.serverOk h
    obtain ⟨ledger, _, rfl⟩ := hstats
    obtain ⟨store, hstore, hexperiment⟩ := experimentStats_experiment hm
    rw [Action.read_bind]
    refine Action.check_bind_run (fun e => hstop e _ ⟨rfl, rfl⟩) fun shipment hshipment => ?_
    refine Action.check_bind_run (fun e => hstop e _ ⟨rfl, rfl⟩) fun store' hstore' => ?_
    obtain ⟨hproject, hserved⟩ := requireStore_eq_ok_iff.mp hstore'
    cases hstore.symm.trans hserved
    rw [chooseShipment_experiment hshipment] at hexperiment
    obtain ⟨definition, hdefinition, hattached⟩ := Option.map_eq_some_iff.mp hexperiment.symm
    obtain ⟨n, hn, hretention⟩ := retention_of_served h hmirrored hstore hdefinition
    rw [← terminalRetentionMs_attachHypothesis store.catalog, hattached] at hretention
    show P ((if _ then _ else _ : Service ShipResult) _)
    split_ifs
    · exact Performed.kept _ ⟨rfl, rfl⟩
    · refine @Performed.of_ledger _ _ _ ledger _ (mutate_bind_performed hok command ?_ ?_)
      · intro record edited hrecord hedited
        obtain ⟨fields, hlookup, rfl⟩ := editExperiment_eq_ok
          (stateWith_editChild (stateWith_normalize (hok.record project record hrecord))
            (by decide) _) hedited
        exact Edited.shipped project id variant request clock now record fields shipment hlookup
      · intro after result hnone
        refine ⟨⟨result.version, some result.changeId, shipment.key⟩,
          ledger.withExpiry project id (now + n), ?_, ?_⟩
        · rw [Action.bind_of_ok _ (ledgerWrite_schedule hproject hid hn hretention now _)]
          rfl
        · cases result
          cases hnone
          rfl

/-! ### Every command -/

theorem rollbackConfigChange_performed (h : ServerOk server) (project changeId : String)
    (request : Request) :
    Performed settings server (.rollbackConfigChange project changeId request)
      (answer some (rollbackConfigChange settings project changeId request server)) := by
  rcases rollback_run settings h project changeId request with
    ⟨e, hout⟩ | ⟨record, after, target, next, entry, result, hout, hrecord, htarget, hedits,
      hreversible, htransacted, hafter⟩
  · rw [hout]
    exact Meets.stopped _ e
  · rw [hout]
    exact Performed.rolledBack project changeId request record after target next entry result _ rfl
      htarget hedits hreversible htransacted ⟨hrecord, hafter, rfl, rfl⟩

theorem experimentStats_performed (project id : String) (clock : AnalysisClock) :
    Performed settings server (.experimentStats project id clock)
      (answer (fun _ => none) (experimentStats settings project id clock server)) := by
  have hstats := experimentStats_concludes settings server project id clock
  rcases hout : experimentStats settings project id clock server with ⟨e | analysis, last⟩
  · rw [hout] at hstats
    obtain ⟨ledger, _, rfl⟩ := hstats
    exact Performed.stopped e _ ⟨rfl, rfl⟩
  · rw [hout] at hstats
    obtain ⟨ledger, _, rfl⟩ := hstats
    exact Performed.kept _ ⟨rfl, rfl⟩

theorem ingestEnvelope_same (project : String) (envelope : Envelope) (source : Source) :
    SamePublished server (ingestEnvelope settings project envelope source server) := by
  unfold ingestEnvelope
  split
  · exact SamePublished.refl server
  · split
    · exact SamePublished.refl server
    · exact ⟨rfl, rfl⟩

variable (settings) in
/-- Every call, on a server in order whose served configs mirror its rows. -/
theorem perform_performed (h : ServerOk server) (hmirrored : Mirrored server) (command : Command) :
    Performed settings server command (perform settings command server) := by
  cases command with
  | upsertExperiment project experiment request =>
      exact upsertExperiment_meets h project experiment request
  | setExperimentEnabled project id enabled request now =>
      exact setExperimentEnabled_performed h project id enabled request now
  | replaceSnapshot project snapshot request => exact replaceSnapshot_meets h project snapshot request
  | shipExperiment project id variant request clock now =>
      exact shipExperiment_performed h hmirrored project id variant request clock now
  | setValue project key value roles rules request =>
      exact setValue_meets h project key value roles rules request
  | deleteValue project key request => exact deleteValue_meets h project key request
  | catalog project operation request => exact catalog_meets h project operation request
  | rollbackConfigChange project changeId request =>
      exact rollbackConfigChange_performed h project changeId request
  | experimentStats project id clock => exact experimentStats_performed project id clock
  | ledgerIngest project events source => exact Performed.kept _ ⟨rfl, rfl⟩
  | pipelineIngest project envelope source =>
      exact Performed.kept _ (ingestEnvelope_same project envelope source)
  | pruneExpired now => exact Performed.kept _ ⟨rfl, rfl⟩

end

end Wardx.ControlService
