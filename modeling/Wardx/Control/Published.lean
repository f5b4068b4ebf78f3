import Wardx.Control.ControlEffects

/-!
# What is published

Seen from the stored rows and the served configs, a command does nothing or
appends to one row and publishes it: `step_changes`. An invariant of every row
or of every served config then needs one argument, about an appended row.

What a project serves mirrors its row. It is the row's own list of experiments
until the first change, and again after a restart; a publish serves what the
row's keyed state materializes to. Values, roles and rules are the row's, and
each served experiment is the client copy of a stored one.
-/
namespace Wardx.Control

/-- The config part of a row. -/
def StoredProject.snapshot (stored : StoredProject) : Snapshot :=
  ⟨stored.values, stored.keyRoles, stored.keyRules, stored.experiments⟩

end Wardx.Control

namespace Wardx.ControlService

open Lib Json Control ControlStateChange

/-! ## Changes -/

/-- One project's row was appended to and published. The ledger is not compared. -/
structure Publishes (settings : ControlSettings) (server : Server) (project : String)
    (record after : ProjectRecord) (next : Json) (entry : Entry) (last : Server) : Prop where
  found : server.records.get project = some record
  appended : Appended settings.js settings.journalCapacity record after next entry
  records : last.records = server.records.put project after
  served : last.served = server.served.put project (servedOf after.stored)

/-- Rows and served configs are as they were. -/
structure SamePublished (server last : Server) : Prop where
  records : last.records = server.records
  served : last.served = server.served

variable {settings : ControlSettings} {server : Server}

theorem Mutated.publishes {project : String} {record after : ProjectRecord} {written : Fields}
    {last : Server} (h : Mutated settings server project record after written)
    (hrecords : last.records = server.records.put project after)
    (hserved : last.served = server.served.put project (servedOf after.stored)) :
    ∃ project record after next entry,
      Publishes settings server project record after next entry last := by
  obtain ⟨next, entry, hafter⟩ := h.appended
  exact ⟨project, record, after, next, entry, h.found, hafter, hrecords, hserved⟩

variable (settings) in
/-- A command publishes at most one row. -/
theorem step_changes (h : ServerOk server) (command : Command) :
    SamePublished server (step settings command server) ∨
      ∃ project record after next entry,
        Publishes settings server project record after next entry (step settings command server) := by
  have heffect := step_effect settings h command
  generalize step settings command server = after at heffect ⊢
  cases heffect with
  | same | analysed | notShipped | ingested | sent | pruned => exact Or.inl ⟨rfl, rfl⟩
  | upserted _ _ _ _ _ hmutated => exact Or.inr (hmutated.publishes rfl rfl)
  | enabled _ _ _ _ _ _ _ hmutated => exact Or.inr (hmutated.publishes rfl rfl)
  | disabled _ _ _ _ _ _ _ _ hmutated => exact Or.inr (hmutated.publishes rfl rfl)
  | replaced _ _ _ _ _ _ hmutated => exact Or.inr (hmutated.publishes rfl rfl)
  | shipped _ _ _ _ _ _ _ _ _ _ _ hmutated => exact Or.inr (hmutated.publishes rfl rfl)
  | unrelated _ _ _ _ hmutated => exact Or.inr (hmutated.publishes rfl rfl)
  | rolledBack project _ _ record after _ next entry hrecord hafter =>
      exact Or.inr ⟨project, record, after, next, entry, hrecord, hafter, rfl, rfl⟩

/-! ## Invariants of rows -/

/-- What holds of every stored row. -/
def EveryRow (P : StoredProject → Prop) (server : Server) : Prop :=
  ∀ project record, server.records.get project = some record → P record.stored

theorem everyRow_of_same {P : StoredProject → Prop} {last : Server} (h : EveryRow P server)
    (hsame : SamePublished server last) : EveryRow P last := by
  unfold EveryRow
  rw [hsame.records]
  exact h

theorem everyRow_of_publishes {P : StoredProject → Prop} {last : Server} {project : String}
    {record after : ProjectRecord} {next : Json} {entry : Entry} (h : EveryRow P server)
    (hpublishes : Publishes settings server project record after next entry last)
    (hafter : P after.stored) : EveryRow P last := by
  intro p r hr
  rw [hpublishes.records, Table.get_put] at hr
  split_ifs at hr
  · cases hr
    exact hafter
  · exact h p r hr

/-- A property of rows that every appended row has is kept. -/
theorem everyRow_step {P : StoredProject → Prop}
    (happended : ∀ record after next entry, P record.stored →
      Appended settings.js settings.journalCapacity record after next entry → P after.stored)
    (hserver : ServerOk server) (h : EveryRow P server) (command : Command) :
    EveryRow P (step settings command server) := by
  rcases step_changes settings hserver command with hsame | ⟨_, record, after, _, _, hpublishes⟩
  · exact everyRow_of_same h hsame
  · exact everyRow_of_publishes h hpublishes
      (happended record after _ _ (h _ record hpublishes.found) hpublishes.appended)

/-! ## Served configs -/

/-- A served config read off a row: its own list, or the list of its keyed state. -/
def Mirrors (stored : StoredProject) (store : Served) : Prop :=
  store = bootstrapServed stored ∨ store = servedOf stored

/-- Every served config mirrors the project's row. -/
def Mirrored (server : Server) : Prop :=
  ∀ project store, server.served.get project = some store →
    ∃ record, server.records.get project = some record ∧ Mirrors record.stored store

section
variable {stored : StoredProject} {store : Served}

theorem Mirrors.version (h : Mirrors stored store) : store.version = stored.version := by
  rcases h with rfl | rfl
  · rfl
  · rfl

theorem Mirrors.values (h : Mirrors stored store) : store.snapshot.values = stored.values := by
  rcases h with rfl | rfl
  · rfl
  · rfl

theorem Mirrors.keyRoles (h : Mirrors stored store) : store.snapshot.keyRoles = stored.keyRoles := by
  rcases h with rfl | rfl
  · rfl
  · rfl

theorem Mirrors.keyRules (h : Mirrors stored store) : store.snapshot.keyRules = stored.keyRules := by
  rcases h with rfl | rfl
  · rfl
  · rfl

/-- A served experiment is the client copy of a stored one. -/
theorem Mirrors.experiment (h : Mirrors stored store) {client : Json}
    (hclient : client ∈ store.snapshot.experiments) :
    ∃ experiment ∈ stored.experiments, client = toClientExperiment experiment := by
  rcases h with rfl | rfl
  · obtain ⟨experiment, hmem, rfl⟩ := List.mem_map.mp hclient
    exact ⟨experiment, hmem, rfl⟩
  · obtain ⟨experiment, hmem, rfl⟩ := List.mem_map.mp hclient
    obtain ⟨field, hfield, rfl⟩ := List.mem_map.mp hmem
    exact ⟨field.2, mem_byId hfield, rfl⟩

/-- The catalog's lists of names are rebuilt; the rest of it is the row's. -/
theorem get?_materialized_catalog (stored : StoredProject) {name : String}
    (hevents : name ≠ "inspectEvents") (hlogs : name ≠ "persistLogs")
    (hbyName : name ≠ "persistLogsByName") :
    (materialize (normalize stored)).2.get? name = (fieldsOf stored.catalog).lookup name := by
  show (deleteField "persistLogsByName" (setField "persistLogs" _
    (deleteField "persistLogs" (setField "persistLogsByName" _
      (setField "inspectEvents" _ (fieldsOf stored.catalog)))))).lookup name = _
  rw [lookup_deleteField, if_neg hbyName, lookup_setField, if_neg hlogs, lookup_deleteField,
    if_neg hlogs, lookup_setField, if_neg hbyName, lookup_setField, if_neg hevents]

theorem Mirrors.signals (h : Mirrors stored store) :
    child store.catalog "signals" = child stored.catalog "signals" := by
  rcases h with rfl | rfl
  · rfl
  · have hcatalog := get?_materialized_catalog stored (by decide : "signals" ≠ "inspectEvents")
      (by decide) (by decide)
    rw [get?_fieldsOf] at hcatalog
    exact congrArg (fun signals => signals.getD emptyObject) hcatalog

end

theorem mirrored_of_publishes {last : Server} {project : String} {record after : ProjectRecord}
    {next : Json} {entry : Entry} (h : Mirrored server)
    (hpublishes : Publishes settings server project record after next entry last) :
    Mirrored last := by
  intro p store hstore
  rw [hpublishes.served, Table.get_put] at hstore
  rw [hpublishes.records, Table.get_put]
  split_ifs at hstore ⊢
  · cases hstore
    exact ⟨after, rfl, Or.inr rfl⟩
  · exact h p store hstore

theorem mirrored_step (hserver : ServerOk server) (h : Mirrored server) (command : Command) :
    Mirrored (step settings command server) := by
  rcases step_changes settings hserver command with hsame | ⟨_, _, _, _, _, hpublishes⟩
  · unfold Mirrored
    rw [hsame.records, hsame.served]
    exact h
  · exact mirrored_of_publishes h hpublishes

theorem mirrored_boot (config : Config) : Mirrored (boot config) := by
  intro project store hstore
  rw [boot, Table.get_mapValues] at hstore
  obtain ⟨stored, hstored, rfl⟩ := Option.map_eq_some_iff.mp hstore
  refine ⟨⟨stored, []⟩, ?_, Or.inl rfl⟩
  rw [boot, Table.get_mapValues, hstored]
  rfl

/-! ## Configurations -/

/-- A configuration that passed all checks of its projects. -/
structure CheckedConfig (settings : ControlSettings) extends Config where
  constraints : ∀ project stored, projects.get project = some stored →
    validateConfigConstraints settings.js stored.snapshot stored.catalog
      ("server config.projects." ++ project) = .ok ()
  reserved : reservedExperimentRows (projects.values.map StoredProject.snapshot) ≤
    settings.ledger.maxRows

/-! ## Restarts -/

/-- A restart over the same database: each row is served as it is stored. -/
def restart (server : Server) : Server :=
  { server with served := server.records.mapValues fun _ record => bootstrapServed record.stored }

inductive ServiceEvent
  | call (command : Command)
  | restart
deriving DecidableEq, Repr

def serve (settings : ControlSettings) (event : ServiceEvent) (server : Server) : Server :=
  match event with
  | .call command => step settings command server
  | .restart => restart server

theorem serverOk_restart (h : ServerOk server) : ServerOk (restart server) := by
  refine ⟨h.record, h.named, fun project record hrecord => ?_⟩
  change server.records.get project = some record at hrecord
  rw [restart, Table.get_mapValues, hrecord]
  rfl

theorem mirrored_restart (server : Server) : Mirrored (restart server) := by
  intro project store hstore
  rw [restart, Table.get_mapValues] at hstore
  obtain ⟨record, hrecord, rfl⟩ := Option.map_eq_some_iff.mp hstore
  exact ⟨record, hrecord, Or.inl rfl⟩

/-- Rows, and what is served of them, along calls and restarts. -/
structure RowsServed (P : StoredProject → Prop) (server : Server) : Prop where
  ok : ServerOk server
  mirrored : Mirrored server
  rows : EveryRow P server

variable (settings) in
theorem rowsServed_serve {P : StoredProject → Prop}
    (happended : ∀ record after next entry, P record.stored →
      Appended settings.js settings.journalCapacity record after next entry → P after.stored)
    (h : RowsServed P server) (event : ServiceEvent) : RowsServed P (serve settings event server) := by
  cases event with
  | call command =>
      exact ⟨step_serverOk settings h.ok command, mirrored_step h.ok h.mirrored command,
        everyRow_step happended h.ok h.rows command⟩
  | restart => exact ⟨serverOk_restart h.ok, mirrored_restart server, h.rows⟩

theorem rowsServed_boot {P : StoredProject → Prop} (config : Config)
    (h : ∀ project stored, config.projects.get project = some stored → P stored) :
    RowsServed P (boot config) := by
  refine ⟨serverOk_boot config, mirrored_boot config, fun project record hrecord => ?_⟩
  rw [boot, Table.get_mapValues] at hrecord
  obtain ⟨stored, hstored, rfl⟩ := Option.map_eq_some_iff.mp hrecord
  exact h project stored hstored

variable (settings) in
/-- What holds of every configured row and of every appended one holds of every
row, after any calls and restarts. -/
theorem rowsServed_run {P : StoredProject → Prop}
    (happended : ∀ record after next entry, P record.stored →
      Appended settings.js settings.journalCapacity record after next entry → P after.stored)
    (config : Config)
    (hboot : ∀ project stored, config.projects.get project = some stored → P stored)
    (events : List ServiceEvent) : RowsServed P (run (serve settings) (boot config) events) :=
  run_invariant_all (RowsServed P) (fun _ event h => rowsServed_serve settings happended h event)
    (rowsServed_boot config hboot) events

end Wardx.ControlService
