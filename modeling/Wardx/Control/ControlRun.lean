import Wardx.Control.ServiceSpec
import Wardx.Ingest.ExperimentEvents
import Wardx.Lib.Run

/-!
# Runs of the control service

A command is one call of the service, one batch that reaches the experiment
ledger, or one round of the expiry timer. A step runs the command and keeps the
state it ends in, whether the call succeeded or stopped.

`pipelineIngest` is the part of the ingest pipeline this state sees: the check
of an envelope's experiment events against the served definitions, then the
ledger. The other checks of the pipeline only refuse envelopes, and a refused
envelope changes nothing here. `ledgerIngest` is the ledger without that check.
-/
namespace Wardx

open Lib Json Control ControlStateChange

inductive CatalogOperation
  | setProjectDescription (description : String)
  | setSignal (name : String) (signal : Json)
  | deleteSignal (name : String)
  | setInspectEvent (name : String)
  | deleteInspectEvent (name : String)
  | setPersistLog (name : String)
  | deletePersistLog (name : String)
  | setRoleDescription (role description : String)
  | setRoleSource (role : String) (path git : Option String)
deriving DecidableEq, Repr

inductive Command
  | upsertExperiment (project : String) (experiment : Json) (request : Request)
  | setExperimentEnabled (project id : String) (enabled : Bool) (request : Request) (now : ℕ)
  | replaceSnapshot (project : String) (snapshot : Json) (request : Request)
  | shipExperiment (project id : String) (variant : Option String) (request : Request)
      (clock : ControlService.AnalysisClock) (now : ℕ)
  | setValue (project key : String) (value roles : Json) (rules : Option Json) (request : Request)
  | deleteValue (project key : String) (request : Request)
  | catalog (project : String) (operation : CatalogOperation) (request : Request)
  | rollbackConfigChange (project changeId : String) (request : Request)
  | experimentStats (project id : String) (clock : ControlService.AnalysisClock)
  | ledgerIngest (project : String) (events : List ExperimentEvent) (source : Source)
  | pipelineIngest (project : String) (envelope : Envelope) (source : Source)
  | pruneExpired (now : ℕ)
deriving DecidableEq, Repr

namespace ControlService

def CatalogOperation.call (settings : ControlSettings) (project : String) (request : Request) :
    CatalogOperation → Service MutationResult
  | .setProjectDescription description => setProjectDescription settings project description request
  | .setSignal name signal => setSignal settings project name signal request
  | .deleteSignal name => deleteSignal settings project name request
  | .setInspectEvent name => setInspectEvent settings project name request
  | .deleteInspectEvent name => deleteInspectEvent settings project name request
  | .setPersistLog name => setPersistLog settings project name request
  | .deletePersistLog name => deletePersistLog settings project name request
  | .setRoleDescription role description =>
      setRoleDescription settings project role description request
  | .setRoleSource role path git => setRoleSource settings project role path git request

/-- A batch that throws leaves the ledger as it was. -/
def ingestLedger (settings : ControlSettings) (project : String) (events : List ExperimentEvent)
    (source : Source) (server : Server) : Server :=
  { server with
    ledger := server.ledger.afterBatch settings.ledger ⟨project, events, source⟩ }

/-- The experiment part of the pipeline. -/
def ingestEnvelope (settings : ControlSettings) (project : String) (envelope : Envelope)
    (source : Source) (server : Server) : Server :=
  match server.served.get project with
  | none => server
  | some store =>
      match validateExperimentEvents envelope store.snapshot.experiments with
      | .error _ => server
      | .ok _ => ingestLedger settings project (experimentEvents envelope) source server

/-- One command, to the state it leaves. -/
def step (settings : ControlSettings) (command : Command) (server : Server) : Server :=
  match command with
  | .upsertExperiment project experiment request =>
      (upsertExperiment settings project experiment request server).2
  | .setExperimentEnabled project id enabled request now =>
      (setExperimentEnabled settings project id enabled request now server).2
  | .replaceSnapshot project snapshot request =>
      (replaceSnapshot settings project snapshot request server).2
  | .shipExperiment project id variant request clock now =>
      (shipExperiment settings project id variant request clock now server).2
  | .setValue project key value roles rules request =>
      (setValue settings project key value roles rules request server).2
  | .deleteValue project key request => (deleteValue settings project key request server).2
  | .catalog project operation request =>
      (CatalogOperation.call settings project request operation server).2
  | .rollbackConfigChange project changeId request =>
      (rollbackConfigChange settings project changeId request server).2
  | .experimentStats project id clock => (experimentStats settings project id clock server).2
  | .ledgerIngest project events source => ingestLedger settings project events source server
  | .pipelineIngest project envelope source =>
      ingestEnvelope settings project envelope source server
  | .pruneExpired now => { server with ledger := server.ledger.pruneExpired now }

/-- Projects of a checked configuration. -/
structure Config where
  projects : Table String StoredProject
  named : ∀ project stored, projects.get project = some stored → project ≠ ""
  valid : ∀ project stored, projects.get project = some stored →
    validateConfigSnapshot
      ⟨stored.values, stored.keyRoles, stored.keyRules, stored.experiments⟩ = .ok ()

/-- What a project serves before its first change. -/
def bootstrapServed (stored : StoredProject) : Served where
  version := stored.version
  snapshot := ⟨stored.values, stored.keyRoles, stored.keyRules,
    stored.experiments.map toClientExperiment⟩
  catalog := stored.catalog

/-- A server on a fresh database. -/
def boot (config : Config) : Server where
  records := config.projects.mapValues fun _ stored => ⟨stored, []⟩
  served := config.projects.mapValues fun _ stored => bootstrapServed stored
  ledger := ExperimentLedger.empty

theorem serverOk_boot (config : Config) : ServerOk (boot config) := by
  have hget : ∀ project record, (boot config).records.get project = some record →
      ∃ stored, config.projects.get project = some stored ∧ record = ⟨stored, []⟩ := by
    intro project record h
    rw [boot, Table.get_mapValues] at h
    obtain ⟨stored, hstored, rfl⟩ := Option.map_eq_some_iff.mp h
    exact ⟨stored, hstored, rfl⟩
  refine ⟨?_, ?_, ?_⟩
  · intro project record h
    obtain ⟨stored, hstored, rfl⟩ := hget project record h
    exact ⟨validateConfigSnapshot_experiments (config.valid project stored hstored),
      by simp, by simp⟩
  · intro project record h
    obtain ⟨stored, hstored, _⟩ := hget project record h
    exact config.named project stored hstored
  · intro project record h
    obtain ⟨stored, hstored, _⟩ := hget project record h
    rw [boot, Table.get_mapValues, hstored]
    rfl

/-- The definition a project stores under an id. -/
def definition (server : Server) (project id : String) : Option Json :=
  (server.records.get project).bind fun record => record.stored.definition id

/-! ## A small configuration -/

def sampleVariant (key : String) : Json :=
  .obj [("key", .str key), ("weight", .num 1), ("values", .obj [("color", .str key)])]

/-- A fixed-horizon experiment with the given id, flag, allocation and variants;
its goal metric is named like it. -/
def sampleExperiment (id : String) (enabled : Bool) (allocation : ℚ) (variants : List String) :
    Json :=
  .obj [("id", .str id), ("enabled", .bool enabled), ("allocation", .num allocation),
    ("salt", .str "salt"), ("goalMetric", .str id), ("roles", .arr [.str "web"]),
    ("variants", .arr (variants.map sampleVariant)), ("assignmentUnitKind", .str "user"),
    ("terminalRetentionMs", .num 1000), ("outcomeKind", .str "conversion"), ("control", .str "a"),
    ("targetSampleSizePerVariant", .num 2), ("earliestAnalysisAt", .num 0),
    ("familyWiseAlpha", .num (9 / 10)), ("minimumEffect", .num 0), ("direction", .str "increase"),
    ("healthThresholds", .obj (healthThresholdFields.map fun field => (field, .num 0)))]

def sampleProject (experiments : List Json) : StoredProject where
  version := 1
  values := .obj [("color", .str "a")]
  keyRoles := .obj [("color", .arr [.str "*"])]
  keyRules := .obj []
  experiments := experiments
  catalog := .obj [("description", .str ""), ("roles", .obj []), ("signals", .obj []),
    ("experiments", .obj []), ("inspectEvents", .arr []), ("persistLogs", .arr [])]

/-- A configuration of one project. -/
def configOf (stored : StoredProject) (h : validateConfigSnapshot
    ⟨stored.values, stored.keyRoles, stored.keyRules, stored.experiments⟩ = .ok ()) : Config where
  projects := Table.empty.put "shop" stored
  named := by
    intro project stored' hget
    rw [Table.get_put] at hget
    split_ifs at hget with hproject
    · rw [hproject]
      decide
    · cases hget
  valid := by
    intro project stored' hget
    rw [Table.get_put] at hget
    split_ifs at hget
    · cases hget
      exact h
    · cases hget

theorem ten_pos : 1 ≤ 10 := Nat.zero_lt_succ _

def sampleSettings : ControlSettings where
  js := Js.plain
  journalCapacity := 10
  ledger := ⟨100, 10, Nat.zero_lt_succ _, ten_pos⟩
  journalCapacity_pos := ten_pos

/-- A request that expects a version. -/
def requestAt (version : ℚ) (changeId : String) : Request where
  options := ⟨version, "because", none⟩
  moment := ⟨5, changeId⟩

/-- The evidence of one unit: an exposure, and a goal when it converted. -/
def unitEvents (experiment variant hash : String) (converted : Bool) : List ExperimentEvent :=
  ⟨.exposure, experiment, variant, hash, 1⟩ ::
    if converted then [⟨.goal 1, experiment, variant, hash, 2⟩] else []

def trustedSource : Source := ⟨"web", "web", true⟩

end ControlService
end Wardx
