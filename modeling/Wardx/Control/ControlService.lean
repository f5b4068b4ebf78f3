import Wardx.Control.ExperimentDecision
import Wardx.Control.MutationJournal
import Wardx.Lib.Action
import Wardx.Storage.LedgerBatch

/-!
# The control service

The operations that read and change a project: config values, experiments, the
catalog, rollbacks and experiment analyses. The state is what they share: the
stored rows with their journals, the config and catalog each project serves,
and the experiment ledger.

Every change of a project goes through `mutate`: the edit is run on a copy, the
result is checked, both differences are taken, the journal commits the forward
one to the stored row, and the row is published. An operation that stops keeps
what it wrote before, so a step's state is the last one whatever its outcome.

The clock's readings and the new change id come with the request. Diagnostics
and the telemetry views a query reads are not part of the state.
-/
namespace Wardx

open Lib Json Control ControlStateChange

/-- The config and catalog a project serves; experiments are client copies. -/
structure Served where
  version : ℕ
  snapshot : Snapshot
  catalog : Json
deriving DecidableEq, Repr

structure Server where
  records : Table String ProjectRecord
  served : Table String Served
  ledger : ExperimentLedger
deriving DecidableEq, Repr

structure ControlSettings where
  js : Js
  journalCapacity : ℕ
  ledger : LedgerSettings
  journalCapacity_pos : 1 ≤ journalCapacity

/-- The caller's options, and the clock and id factory while it is served. -/
structure Request where
  options : MutationOptions
  moment : Moment
deriving DecidableEq, Repr

abbrev Service := Action Server String

namespace ControlService

/-! ## Reading -/

/-- `requireStore`. -/
def requireStore (server : Server) (project : String) : Except String Served := do
  require (project ≠ "") "project is required"
  match server.served.get project with
  | some store => pure store
  | none => .error ("unknown project: " ++ project)

/-- The row and journal of a project. -/
def readRecord (server : Server) (project : String) : Except String ProjectRecord :=
  match server.records.get project with
  | some record => .ok record
  | none => .error ("unknown project: " ++ project)

/-- `mutationRepository.read(project).state`. -/
def readState (server : Server) (project : String) : Except String Json := do
  let record ← readRecord server project
  pure (normalize record.stored)

/-! ## Publishing -/

/-- What a stored row serves. -/
def servedOf (stored : StoredProject) : Served :=
  let (snapshot, catalog) := materialize (normalize stored)
  { version := stored.version
    snapshot := { snapshot with experiments := snapshot.experiments.map toClientExperiment }
    catalog := catalog }

/-- `_publish`. -/
def publish (project : String) : Service Unit := Action.transaction fun server => do
  let record ← readRecord server project
  let _ ← requireStore server project
  validateConfigSnapshot (materialize (normalize record.stored)).1
  pure ((), { server with served := server.served.put project (servedOf record.stored) })

/-! ## Mutating -/

/-- An edit of the object under a key of the control state. -/
def editChild (key : String) (edit : Fields → Fields) (state : Json) : Json :=
  .obj (setField key (.obj (edit (fieldsOf (child state key)))) (fieldsOf state))

/-- The ledger rows an enabled plan may fill. -/
def plannedRows (experiment : Json) : ℚ :=
  if truthy (experiment.get? "enabled") && (experiment.get? "targetSampleSizePerVariant").isSome then
    (number? (experiment.get? "targetSampleSizePerVariant")).getD 0 *
      (items (experiment.get? "variants")).length
  else 0

/-- Every project's served snapshot, the candidate in place of its own. -/
def snapshotsWith (server : Server) (project : String) (candidate : Snapshot) : List Snapshot :=
  server.served.entries.map fun entry =>
    if entry.1 = project then candidate else entry.2.snapshot

def reservedExperimentRows (snapshots : List Snapshot) : ℚ :=
  ((snapshots.flatMap Snapshot.experiments).map plannedRows).sum

/-- The checks and differences of `_mutate`. -/
def prepareChange (settings : ControlSettings) (server : Server) (project operation : String)
    (affectedNames : List String) (edit : Json → Except String Json) : Except String Mutation := do
  let record ← readRecord server project
  let before := normalize record.stored
  let after ← edit before
  let candidate := materialize after
  let label := "server config.projects." ++ project
  validateProjectState settings.js candidate label (label ++ ".catalog")
  let reserved := reservedExperimentRows (snapshotsWith server project candidate.1)
  require (reserved ≤ settings.ledger.maxRows)
    ("enabled experiment plans reserve " ++ settings.js.numberText reserved ++
      " ledger rows, exceeding " ++ toString settings.ledger.maxRows)
  let forward ← diffControlState before after
  let inverse ← diffControlState after before
  pure ⟨project, operation, affectedNames, forward, inverse⟩

/-- A journal transaction on the record of a project. -/
def transact (project : String)
    (work : ProjectRecord → Except String (ProjectRecord × MutationResult)) :
    Service MutationResult := Action.transaction fun server => do
  let record ← readRecord server project
  let (next, result) ← work record
  pure (result, { server with records := server.records.put project next })

/-- `_mutate`. -/
def mutate (settings : ControlSettings) (project operation : String) (affectedNames : List String)
    (edit : Json → Except String Json) (request : Request) : Service MutationResult := do
  let server ← Action.read
  let mutation ← Action.check (prepareChange settings server project operation affectedNames edit)
  let result ← transact project fun record =>
    commit settings.js settings.journalCapacity record mutation request.options request.moment
  publish project
  pure result

/-! ## Config values -/

/-- `rules` of `setValue`: an empty list clears, `undefined` leaves them. -/
def editRules (key : String) (rules : Option Json) (state : Json) : Json :=
  match rules with
  | none => state
  | some (.arr []) => editChild "keyRules" (deleteField key) state
  | some value => editChild "keyRules" (setField key value) state

def setValue (settings : ControlSettings) (project key : String) (value roles : Json)
    (rules : Option Json) (request : Request) : Service MutationResult := do
  Action.check (require (key ≠ "") "key is required")
  Action.check (assertRoles (some roles) "roles")
  let server ← Action.read
  let _ ← Action.check (requireStore server project)
  mutate settings project "set_config_value" [key] (fun state =>
    .ok (editRules key rules (editChild "keyRoles" (setField key roles)
      (editChild "values" (setField key value) state)))) request

def deleteValue (settings : ControlSettings) (project key : String) (request : Request) :
    Service MutationResult := do
  Action.check (require (key ≠ "") "key is required")
  let server ← Action.read
  let _ ← Action.check (requireStore server project)
  let current ← Action.check (readState server project)
  Action.check (require ((child current "values").get? key).isSome ("unknown config key: " ++ key))
  mutate settings project "delete_config_value" [key] (fun state =>
    .ok (editChild "keyRules" (deleteField key) (editChild "keyRoles" (deleteField key)
      (editChild "values" (deleteField key) state)))) request

/-! ## Catalog operations -/

/-- `_commitCatalog`'s edit: the catalog is edited with its names as lists. -/
def editCatalog (edit : Fields → Fields) (state : Json) : Json :=
  .obj (setField "catalog"
    (catalogByName (.obj (edit (fieldsOf (catalogWithList (child state "catalog"))))))
    (fieldsOf state))

/-- `_commitCatalog`, after the store's own checks. -/
def commitCatalog (settings : ControlSettings) (project operation : String)
    (affectedNames : List String) (prepare : Served → Except String (Fields → Fields))
    (request : Request) : Service MutationResult := do
  let server ← Action.read
  let store ← Action.check (requireStore server project)
  let edit ← Action.check (prepare store)
  mutate settings project operation affectedNames (fun state => .ok (editCatalog edit state)) request

/-- `requireName`. -/
def requireName (name : String) : Except String Unit := require (name ≠ "") "name is required"

/-- An edit of the object under a key of the catalog. -/
def editEntry (key : String) (edit : Fields → Fields) (catalog : Fields) : Fields :=
  setField key (.obj (edit (fieldsOf (child (.obj catalog) key)))) catalog

def namesUnder (key : String) (catalog : Fields) : List Json := items (catalog.lookup key)

/-- `if (!names.includes(name)) names.push(name)`. -/
def pushName (key name : String) (catalog : Fields) : Fields :=
  if .str name ∈ namesUnder key catalog then catalog
  else setField key (.arr (namesUnder key catalog ++ [.str name])) catalog

/-- `names.splice(index, 1)`. -/
def spliceName (key : String) (index : ℕ) (catalog : Fields) : Fields :=
  setField key (.arr ((namesUnder key catalog).eraseIdx index)) catalog

/-- The edit that removes a name from where the served catalog has it. -/
def removeName (key label name : String) (store : Served) : Except String (Fields → Fields) :=
  match (items (store.catalog.get? key)).idxOf? (.str name) with
  | none => .error ("unknown " ++ label ++ ": " ++ name)
  | some index => .ok (spliceName key index)

/-- `ensureRoleEntry(catalog, role)` and assignments to its fields. -/
def editRole (role : String) (edit : Fields → Fields) (catalog : Fields) : Fields :=
  editEntry "roles" (fun roles =>
    let entry := (roles.lookup role).getD (.obj [("description", .str "")])
    setField role (.obj (edit (fieldsOf entry))) roles) catalog

def setProjectDescription (settings : ControlSettings) (project description : String)
    (request : Request) : Service MutationResult :=
  commitCatalog settings project "set_project_description" ["description"]
    (fun _ => .ok (setField "description" (.str description))) request

def setSignal (settings : ControlSettings) (project name : String) (signal : Json)
    (request : Request) : Service MutationResult := do
  Action.check (requireName name)
  Action.check (require signal.isObject "signal is required")
  Action.check (validateSignalEntry settings.js signal "signal")
  commitCatalog settings project "set_signal" [name]
    (fun _ => .ok (editEntry "signals" (setField name signal))) request

def deleteSignal (settings : ControlSettings) (project name : String) (request : Request) :
    Service MutationResult := do
  Action.check (requireName name)
  commitCatalog settings project "delete_signal" [name] (fun store => do
    require ((child store.catalog "signals").get? name).isSome ("unknown signal: " ++ name)
    pure (editEntry "signals" (deleteField name))) request

def setInspectEvent (settings : ControlSettings) (project name : String) (request : Request) :
    Service MutationResult := do
  Action.check (requireName name)
  commitCatalog settings project "set_inspect_event" [name]
    (fun _ => .ok (pushName "inspectEvents" name)) request

def deleteInspectEvent (settings : ControlSettings) (project name : String) (request : Request) :
    Service MutationResult := do
  Action.check (requireName name)
  commitCatalog settings project "delete_inspect_event" [name]
    (removeName "inspectEvents" "inspect event" name) request

def setPersistLog (settings : ControlSettings) (project name : String) (request : Request) :
    Service MutationResult := do
  Action.check (requireName name)
  commitCatalog settings project "set_persist_log" [name]
    (fun _ => .ok (pushName "persistLogs" name)) request

def deletePersistLog (settings : ControlSettings) (project name : String) (request : Request) :
    Service MutationResult := do
  Action.check (requireName name)
  commitCatalog settings project "delete_persist_log" [name]
    (removeName "persistLogs" "persist log" name) request

def setRoleDescription (settings : ControlSettings) (project role description : String)
    (request : Request) : Service MutationResult := do
  Action.check (assertRole role "role")
  Action.check (require (description ≠ "") "description is required")
  commitCatalog settings project "set_role_description" [role]
    (fun _ => .ok (editRole role (setField "description" (.str description)))) request

/-- The fields of a role's source that were given. -/
def writeSource (path git : Option String) (entry : Fields) : Fields :=
  let withPath := match path with
    | some value => setField "path" (.str value) entry
    | none => entry
  match git with
  | some value => setField "git" (.str value) withPath
  | none => withPath

def setRoleSource (settings : ControlSettings) (project role : String) (path git : Option String)
    (request : Request) : Service MutationResult := do
  Action.check (assertRole role "role")
  Action.check (require (path.all fun value => value ≠ "") "path must be a non-empty string")
  Action.check (require (git.all fun value => value ≠ "") "git must be a non-empty string")
  Action.check (require (path.isSome || git.isSome) "path or git is required")
  commitCatalog settings project "set_role_source" [role]
    (fun _ => .ok (editRole role (writeSource path git))) request

/-! ## Experiments -/

/-- The two fields that may change after the first trusted exposure. -/
def mutableFields : List String := ["enabled", "shippedVariant"]

/-- The entries of a definition that the guard compares. -/
def planEntries (definition : Json) : Fields :=
  (fieldsOf definition).filter fun field => field.1 ∉ mutableFields

/-- The client copy without `shippedVariant`. -/
def upsertedExperiment (experiment : Json) : Json :=
  .obj (deleteField "shippedVariant" (fieldsOf (toClientExperiment experiment)))

def assertHypothesis (experiment : Json) : Except String Unit :=
  require ((experiment.get? "hypothesis").isNone || nonEmptyText (experiment.get? "hypothesis"))
    "experiment.hypothesis must be a non-empty string"

/-- The plan of an experiment with evidence stays as it is. -/
def assertPlanKept (server : Server) (project : String) (existing : Option Json) (client : Json) :
    Except String Unit :=
  let id := propertyKey (client.get? "id")
  match existing with
  | none => .ok ()
  | some existing =>
      require (!server.ledger.hasTrustedExposure project id ||
          planEntries existing = planEntries client)
        ("experiment " ++ id ++ " plan is immutable after the first trusted exposure")

def writeHypothesis (id : String) (hypothesis : Option Json) (state : Json) : Json :=
  match hypothesis with
  | none => state
  | some text =>
      editChild "catalog" (fun catalog => setField "experiments"
        (.obj (setField id (.obj [("hypothesis", text)])
          (fieldsOf (child (.obj catalog) "experiments")))) catalog) state

def upsertExperiment (settings : ControlSettings) (project : String) (experiment : Json)
    (request : Request) : Service MutationResult := do
  Action.check (validateExperiment experiment)
  Action.check (assertHypothesis experiment)
  let client := upsertedExperiment experiment
  let id := propertyKey (client.get? "id")
  let server ← Action.read
  let _ ← Action.check (requireStore server project)
  let current ← Action.check (readState server project)
  Action.check (assertExperimentKeysExist client (child current "values") (child current "keyRoles"))
  Action.check (assertPlanKept server project ((experimentsById current).lookup id) client)
  mutate settings project "upsert_experiment" [id] (fun state =>
    .ok (writeHypothesis id (experiment.get? "hypothesis")
      (editChild "experimentsById" (setField id client) state))) request

/-- Assignments to fields of a stored definition, which must be there. -/
def editExperiment (id : String) (edit : Fields → Fields) (state : Json) : Except String Json :=
  match (experimentsById state).lookup id with
  | some (.obj fields) =>
      .ok (editChild "experimentsById" (setField id (.obj (edit fields))) state)
  | _ => .error "Cannot set properties of undefined"

def terminalRetentionMs (definition : Json) : ℚ :=
  (number? (definition.get? "terminalRetentionMs")).getD 0

/-- A change of the ledger that is one write. -/
def ledgerWrite (work : ExperimentLedger → Except String ExperimentLedger) : Service Unit :=
  Action.transaction fun server => do
    let ledger ← work server.ledger
    pure ((), { server with ledger := ledger })

/-- The checks of `setExperimentEnabled`; the definition it found. -/
def findToggled (server : Server) (project id : String) (enabled : Bool) : Except String Json := do
  let current ← readState server project
  match (experimentsById current).lookup id with
  | none => .error ("unknown experiment: " ++ id)
  | some experiment => do
      require (!(enabled && truthy (experiment.get? "shippedVariant")))
        ("experiment " ++ id ++ " was shipped and cannot be re-enabled")
      require (!(enabled && server.ledger.hasAnyEvidence project id &&
          !server.ledger.hasAssignmentRows project id))
        ("experiment " ++ id ++ " evidence retention expired; use a new experiment id")
      pure experiment

/-- The expiry of the experiment's rows follows the flag. -/
def followToggle (project id : String) (enabled : Bool) (experiment : Json) (now : ℕ) :
    Service Unit :=
  if enabled then ledgerWrite fun ledger => .ok (ledger.clearExpiry project id)
  else ledgerWrite fun ledger =>
    ledger.scheduleExpiry project id (now + terminalRetentionMs experiment)

def setExperimentEnabled (settings : ControlSettings) (project id : String) (enabled : Bool)
    (request : Request) (now : ℕ) : Service MutationResult := do
  Action.check (require (id ≠ "") "experiment id is required")
  let server ← Action.read
  let _ ← Action.check (requireStore server project)
  let experiment ← Action.check (findToggled server project id enabled)
  let result ← mutate settings project "set_experiment_enabled" [id]
    (editExperiment id (setField "enabled" (.bool enabled))) request
  followToggle project id enabled experiment now
  pure result

/-- The checks of `replaceSnapshot`; the experiments it will store. -/
def checkSnapshot (snapshot : Json) : Except String (List Json) := do
  require snapshot.isObject "config snapshot must be an object"
  require ((snapshot.get? "values").any isObject) "config values must be an object"
  match snapshot.get? "experiments" with
  | some (.arr experiments) => do
      checkAll (fun experiment => do
        validateExperiment experiment
        assertExperimentKeysExist experiment (child snapshot "values")
          ((snapshot.get? "keyRoles").getD .null)) experiments
      pure experiments
  | _ => .error "config experiments must be an array"

/-- `snapshot.keyRules ?? {}`. -/
def rulesOrNone (snapshot : Json) : Json :=
  match snapshot.get? "keyRules" with
  | none | some .null => emptyObject
  | some rules => rules

def writeSnapshot (snapshot : Json) (experiments : List Json) (state : Json) : Json :=
  .obj (setField "experimentsById" (.obj (byId (experiments.map toClientExperiment)))
    (setField "keyRules" (rulesOrNone snapshot)
      (setField "keyRoles" ((snapshot.get? "keyRoles").getD .null)
        (setField "values" (child snapshot "values") (fieldsOf state)))))

def replaceSnapshot (settings : ControlSettings) (project : String) (snapshot : Json)
    (request : Request) : Service MutationResult := do
  let server ← Action.read
  let _ ← Action.check (requireStore server project)
  let experiments ← Action.check (checkSnapshot snapshot)
  mutate settings project "replace_snapshot" ["*"]
    (fun state => .ok (writeSnapshot snapshot experiments state)) request

/-! ## Analyses -/

/-- The totals of a variant over the roles and trust classes it was reported by. -/
def addEvidence (byVariant : Table String VariantRow) (row : ExperimentLedger.TotalsRow) :
    Table String VariantRow :=
  let total := (byVariant.get row.key).getD (emptyRow row.key)
  byVariant.put row.key
    { total with
      exposures := total.exposures + row.exposures
      goals := total.goals + row.goals
      goalSum := total.goalSum + row.goalSum
      goalSumSq := total.goalSumSq + row.goalSumSq }

/-- `aggregateEvidence`. -/
def aggregateEvidence (rows : List ExperimentLedger.TotalsRow) (trustedOnly : Bool) :
    List VariantRow :=
  let counted := rows.filter fun row => !trustedOnly || row.trustClass = .trusted
  (counted.foldl addEvidence Table.empty).values.map fun row => withRates row.key row

/-- `HEALTH_FIELDS`, each with the counter it reads. -/
def healthFields : List (String × (Totals → ℕ)) :=
  [("duplicateExposures", Totals.duplicateExposures), ("duplicateGoals", Totals.duplicateGoals),
    ("conflictingGoals", Totals.conflictingGoals), ("variantConflicts", Totals.variantConflicts),
    ("untrustedRows", Totals.untrustedRows), ("lateRows", Totals.lateRows),
    ("missingExposures", Totals.missingExposures), ("implicitExposures", Totals.implicitExposures)]

/-- `evidenceHealth` of the service. -/
def healthCounts (rows : List ExperimentLedger.TotalsRow) : HealthCounts :=
  ("droppedFrames", 0) :: healthFields.map fun field =>
    (field.1, (rows.map fun row => field.2 row.toTotals).sum)

/-- `attachHypothesis`. -/
def attachHypothesis (catalog experiment : Json) : Json :=
  match (child catalog "experiments").get? (propertyKey (experiment.get? "id")) with
  | some row =>
      match row.get? "hypothesis" with
      | some (.str text) =>
          if text ≠ "" then .obj (setField "hypothesis" (.str text) (fieldsOf experiment))
          else experiment
      | _ => experiment
  | none => experiment

/-- What `experimentStats` answers. -/
structure Analysis where
  experiment : Option Json
  variants : List VariantRow
  telemetryVariants : List VariantRow
  provenance : List ExperimentLedger.TotalsRow
  health : HealthCounts
  decision : Decision
deriving DecidableEq, Repr

/-- The clock while an analysis runs. -/
structure AnalysisClock where
  analysisAt : ℕ
  decidedAt : ℕ
deriving DecidableEq, Repr

def persistDecision (project experimentId : String) (decision : Decision) (definition : Json)
    (decidedAt : ℕ) : Service Decision := Action.transaction fun server => do
  let analysisAt := (decision.terminalInput.map TerminalInput.analysisAt).getD 0
  let (ledger, stored) ← server.ledger.persistTerminalDecisionAndScheduleExpiry project
    experimentId decision (analysisAt + terminalRetentionMs definition) decidedAt
  pure (stored, { server with ledger := ledger })

/-- A persisted decision, shown as shipped when the definition says so. -/
def reportPersisted (project experimentId : String) (definition : Option Json)
    (persisted : Decision) (decidedAt : ℕ) : Service Decision :=
  match definition with
  | none => pure persisted
  | some definition => do
      let _ ← persistDecision project experimentId persisted definition decidedAt
      if truthy (definition.get? "shippedVariant") then
        pure { persisted with
          status := .shipped
          shippedVariant := some (propertyKey (definition.get? "shippedVariant")) }
      else pure persisted

def noEvidence (definition : Option Json) : Decision where
  status := .cannotDecide
  next := if truthy (definition.bind fun row => row.get? "outcomeKind") then "collect"
    else "configure"
  reason := "no trusted eligible experiment evidence"

/-- Decide now, and persist a decision with terminal input. -/
def decideNow (settings : ControlSettings) (project experimentId : String)
    (definition : Option Json) (variants : List VariantRow) (health : HealthCounts)
    (clock : AnalysisClock) : Service Decision := do
  let decision ← Action.check
    (decideExperiment settings.js definition variants clock.analysisAt health)
  match definition with
  | some row =>
      if decision.status ≠ .collecting ∧ decision.terminalInput.isSome then
        persistDecision project experimentId decision row clock.decidedAt
      else pure decision
  | none => pure decision

/-- The served definition of an experiment. -/
def servedDefinition (store : Served) (experimentId : String) : Option Json :=
  store.snapshot.experiments.find? fun row => row.get? "id" = some (.str experimentId)

/-- The decision part of `experimentStats`. -/
def decideStats (settings : ControlSettings) (project experimentId : String)
    (definition : Option Json) (provenance : List ExperimentLedger.TotalsRow)
    (clock : AnalysisClock) : Service Decision := do
  let server ← Action.read
  let variants := aggregateEvidence provenance true
  match server.ledger.readTerminalDecision project experimentId with
  | some persisted => reportPersisted project experimentId definition persisted clock.decidedAt
  | none =>
      if variants.all fun row => row.exposures = 0 ∧ row.goals = 0 then
        pure (noEvidence definition)
      else decideNow settings project experimentId definition variants (healthCounts provenance) clock

def experimentStats (settings : ControlSettings) (project experimentId : String)
    (clock : AnalysisClock) : Service Analysis := do
  Action.check (require (experimentId ≠ "") "experiment id is required")
  let server ← Action.read
  let store ← Action.check (requireStore server project)
  let definition := servedDefinition store experimentId
  let provenance := server.ledger.totals project experimentId
  let decision ← decideStats settings project experimentId definition provenance clock
  pure
    { experiment := definition.map (attachHypothesis store.catalog)
      variants := aggregateEvidence provenance true
      telemetryVariants := aggregateEvidence provenance false
      provenance := provenance
      health := healthCounts provenance
      decision := decision }

/-! ## Shipping -/

structure Shipment where
  experiment : Json
  key : String
  values : Fields
deriving DecidableEq, Repr

/-- The persisted healthy winner, and the chosen variant's values. -/
def chooseShipment (server : Server) (project experimentId : String) (analysis : Analysis)
    (variant : Option String) : Except String Shipment :=
  match analysis.experiment with
  | none => .error ("unknown experiment: " ++ experimentId)
  | some experiment =>
      let notReady := "experiment " ++ experimentId ++ " is not ready to ship: "
      match server.ledger.readTerminalDecision project experimentId with
      | none => .error (notReady ++ "persisted healthy terminal winner required")
      | some decision => do
          require (decision.status = .winner && decision.evidenceHealth.any EvidenceHealth.healthy)
            (notReady ++ "persisted healthy terminal winner required")
          require (variant.all fun key => decision.leadingVariant = some key)
            (notReady ++ decision.reason)
          let key := decision.leadingVariant.getD "null"
          match (items (experiment.get? "variants")).find? fun row =>
              row.get? "key" = some (.str key) with
          | none => .error ("unknown variant: " ++ key)
          | some chosen => pure ⟨experiment, key, fieldsOf (child chosen "values")⟩

def shipEdit (experimentId : String) (shipment : Shipment) (state : Json) : Except String Json :=
  editExperiment experimentId (fun fields =>
    setField "shippedVariant" (.str shipment.key) (setField "enabled" (.bool false) fields))
    (editChild "values" (fun values =>
      shipment.values.foldl (fun values field => setField field.1 field.2 values) values) state)

def alreadyShipped (definition : Option Json) (key : String) : Bool :=
  definition.any fun row =>
    row.get? "enabled" = some (.bool false) && row.get? "shippedVariant" = some (.str key)

structure ShipResult where
  version : ℕ
  changeId : Option String
  shippedVariant : String
deriving DecidableEq, Repr

def shipExperiment (settings : ControlSettings) (project experimentId : String)
    (variant : Option String) (request : Request) (clock : AnalysisClock) (now : ℕ) :
    Service ShipResult := do
  Action.check (require (experimentId ≠ "") "experiment id is required")
  Action.check (require (variant.all fun key => key ≠ "") "variant must be a non-empty string")
  let analysis ← experimentStats settings project experimentId clock
  let server ← Action.read
  let shipment ← Action.check (chooseShipment server project experimentId analysis variant)
  let store ← Action.check (requireStore server project)
  if alreadyShipped (servedDefinition store experimentId) shipment.key then
    pure ⟨store.version, none, shipment.key⟩
  else do
    let result ← mutate settings project "ship_experiment"
      (experimentId :: shipment.values.map Prod.fst) (shipEdit experimentId shipment) request
    ledgerWrite fun ledger =>
      ledger.scheduleExpiry project experimentId (now + terminalRetentionMs shipment.experiment)
    pure ⟨result.version, some result.changeId, shipment.key⟩

/-! ## Rollbacks -/

def rollbackConfigChange (settings : ControlSettings) (project changeId : String)
    (request : Request) : Service MutationResult := do
  let result ← transact project fun record =>
    rollback settings.js settings.journalCapacity record project changeId request.options
      request.moment
  publish project
  pure result

end ControlService
end Wardx
