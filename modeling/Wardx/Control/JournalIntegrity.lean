import Mathlib.Data.List.DropRight
import Wardx.Control.Performed
import Wardx.Control.TerminalDecisions

/-!
# The journal of a project

A call either leaves every row, journal and served config as it was, or moves
one project from a version to the next: the version the caller expected. The
row, the journal and the served config move together.

`Kept` is what holds of a project along a run: its journal is the retained end
of the log of all its changes, one entry for each answered mutation, with the
versions counted up from the first one. What the project serves is the
bootstrap list until its first change and what its row materializes to from
then on.
-/
namespace Wardx

/-- The project a mutation is for, and what its caller asked. -/
def Command.target : Command → Option (String × Request)
  | .upsertExperiment project _ request => some (project, request)
  | .setExperimentEnabled project _ _ request _ => some (project, request)
  | .replaceSnapshot project _ request => some (project, request)
  | .shipExperiment project _ _ request _ _ => some (project, request)
  | .setValue project _ _ _ _ request => some (project, request)
  | .deleteValue project _ request => some (project, request)
  | .catalog project _ request => some (project, request)
  | .rollbackConfigChange project _ request => some (project, request)
  | .experimentStats _ _ _ => none
  | .ledgerIngest _ _ _ => none
  | .pipelineIngest _ _ _ => none
  | .pruneExpired _ => none

end Wardx

namespace Wardx.ControlService

open Lib Json Control ControlStateChange

/-! ## Retained entries -/

theorem retained_eq_rtake (capacity : ℕ) (entries : List Entry) :
    retained capacity entries = entries.rtake capacity := rfl

theorem length_retained (capacity : ℕ) (entries : List Entry) :
    (retained capacity entries).length = min entries.length capacity := by
  unfold retained
  rw [List.length_drop]
  omega

/-- Appending to the retained end retains the end of the whole log. -/
theorem retained_append (capacity : ℕ) (entries : List Entry) (entry : Entry) :
    retained capacity (retained capacity entries ++ [entry]) =
      retained capacity (entries ++ [entry]) := by
  have htake : ∀ xs : List Entry, (entry :: xs.take capacity).take capacity =
      (entry :: xs).take capacity := by
    intro xs
    cases capacity with
    | zero => rfl
    | succ n =>
        rw [List.take_succ_cons, List.take_succ_cons, List.take_take, min_eq_left (Nat.le_succ n)]
  simp only [retained_eq_rtake, List.rtake_eq_reverse_take_reverse, List.reverse_append,
    List.reverse_reverse, List.reverse_singleton, List.singleton_append]
  rw [htake]

/-! ## One call -/

/-- A project moved from a version to the next, and its journal and its served
config with it. -/
structure Advanced (settings : ControlSettings) (server : Server) (project : String)
    (request : Request) (result : MutationResult) (last : Server) (record after : ProjectRecord)
    (entry : Entry) : Prop where
  found : server.records.get project = some record
  expected : (record.stored.version : ℚ) = request.options.expectedVersion
  records : last.records = server.records.put project after
  served : last.served = server.served.put project (servedOf after.stored)
  version : after.stored.version = record.stored.version + 1
  journal : after.journal = retained settings.journalCapacity (record.journal ++ [entry])
  previousVersion : entry.previousVersion = record.stored.version
  newVersion : entry.newVersion = record.stored.version + 1
  answered : result.version = record.stored.version + 1
  changeId : result.changeId = entry.id

/-- A shipment of the winner that is already shipped. -/
def Reshipped (server : Server) (command : Command) : Prop :=
  ∃ project id variant request clock now store key,
    command = .shipExperiment project id variant request clock now ∧
    server.served.get project = some store ∧ alreadyShipped (servedDefinition store id) key = true

/-- What a call may do: stop and change nothing; answer without a mutation and
change nothing; or advance the project it is for, at the expected version. -/
def Integral (settings : ControlSettings) (server : Server) (command : Command) : Prop :=
  match perform settings command server with
  | (.error _, last) => SamePublished server last
  | (.ok none, last) =>
      SamePublished server last ∧ (command.target = none ∨ Reshipped server command)
  | (.ok (some result), last) => ∃ project request record after entry,
      command.target = some (project, request) ∧
      Advanced settings server project request result last record after entry

section
variable {settings : ControlSettings} {server : Server}

theorem Edited.target {command : Command} {project : String} {request : Request}
    {record : ProjectRecord} {edited : Json} (h : Edited command project request record edited) :
    command.target = some (project, request) := by
  cases h <;> rfl

theorem advanced_of_publishes {project : String} {request : Request} {record after : ProjectRecord}
    {next : Json} {entry : Entry} {result : MutationResult} {last : Server}
    (htransacted : Transacted settings.journalCapacity record request.options entry result)
    (hpublishes : Publishes settings server project record after next entry last) :
    Advanced settings server project request result last record after entry := by
  refine ⟨hpublishes.found, htransacted.expected, hpublishes.records, hpublishes.served, ?_, ?_,
    htransacted.previousVersion, htransacted.newVersion, htransacted.version, htransacted.changeId⟩
  · rw [hpublishes.appended.stored]
    rfl
  · rw [hpublishes.appended.eq]
    rfl

/-- Only a shipment answers a mutation's call without a mutation. -/
theorem unanswered_is_shipment {command : Command} {last : Server}
    (h : perform settings command server = (.ok none, last)) :
    command.target = none ∨ ∃ project id variant request clock now,
      command = .shipExperiment project id variant request clock now := by
  have hsome : ∀ outcome : Except String MutationResult × Server,
      answer some outcome ≠ (.ok none, last) := by
    rintro ⟨e | result, s⟩ hanswer
    · cases hanswer
    · cases hanswer
  cases command with
  | upsertExperiment => exact absurd h (hsome _)
  | setExperimentEnabled => exact absurd h (hsome _)
  | replaceSnapshot => exact absurd h (hsome _)
  | shipExperiment project id variant request clock now =>
      exact Or.inr ⟨project, id, variant, request, clock, now, rfl⟩
  | setValue => exact absurd h (hsome _)
  | deleteValue => exact absurd h (hsome _)
  | catalog => exact absurd h (hsome _)
  | rollbackConfigChange => exact absurd h (hsome _)
  | experimentStats => exact Or.inl rfl
  | ledgerIngest => exact Or.inl rfl
  | pipelineIngest => exact Or.inl rfl
  | pruneExpired => exact Or.inl rfl

/-- A shipment without a mutation found its variant shipped. -/
theorem reshipped_of_unanswered {project id : String} {variant : Option String} {request : Request}
    {clock : AnalysisClock} {now : ℕ} {last : Server}
    (h : perform settings (.shipExperiment project id variant request clock now) server =
      (.ok none, last)) :
    Reshipped server (.shipExperiment project id variant request clock now) := by
  have hanswer : ∃ result, shipExperiment settings project id variant request clock now server =
      (.ok result, last) ∧ result.changeId = none := by
    change answer ShipResult.mutation (shipExperiment settings project id variant request clock now
      server) = _ at h
    rcases hship : shipExperiment settings project id variant request clock now server with
      ⟨e | result, s⟩
    · rw [hship] at h
      cases h
    · rw [hship] at h
      obtain ⟨hmutation, hlast⟩ := Prod.mk.inj h
      refine ⟨result, by rw [show s = last from hlast], ?_⟩
      have hnone : result.mutation = none := Except.ok.inj hmutation
      exact Option.map_eq_none_iff.mp hnone
  obtain ⟨result, hship, hnone⟩ := hanswer
  unfold shipExperiment at hship
  rw [Action.bind_eq_ok_iff] at hship
  obtain ⟨_, m, hid, hship⟩ := hship
  rw [Action.check_run, Prod.mk.injEq] at hid
  obtain ⟨_, rfl⟩ := hid
  rw [Action.bind_eq_ok_iff] at hship
  obtain ⟨_, m, hvariant, hship⟩ := hship
  rw [Action.check_run, Prod.mk.injEq] at hvariant
  obtain ⟨_, rfl⟩ := hvariant
  rw [Action.bind_eq_ok_iff] at hship
  obtain ⟨analysis, m, hstats, hship⟩ := hship
  have hconcludes := experimentStats_concludes settings server project id clock
  rw [hstats] at hconcludes
  obtain ⟨ledger, _, rfl⟩ := hconcludes
  rw [Action.read_bind, Action.bind_eq_ok_iff] at hship
  obtain ⟨shipment, m, hshipment, hship⟩ := hship
  rw [Action.check_run, Prod.mk.injEq] at hshipment
  obtain ⟨_, rfl⟩ := hshipment
  rw [Action.bind_eq_ok_iff] at hship
  obtain ⟨store, m, hstore, hship⟩ := hship
  rw [Action.check_run, Prod.mk.injEq] at hstore
  obtain ⟨hstore, rfl⟩ := hstore
  split_ifs at hship with hshipped
  · exact ⟨project, id, variant, request, clock, now, store, shipment.key, rfl,
      (requireStore_eq_ok_iff.mp hstore).2, hshipped⟩
  · simp only [Action.bind_eq_ok_iff] at hship
    obtain ⟨mutation, _, _, _, _, _, hship⟩ := hship
    cases hship
    cases hnone

variable (settings) in
theorem integral_of_mirrored (h : ServerOk server) (hmirrored : Mirrored server) (command : Command) :
    Integral settings server command := by
  have hperformed := perform_performed settings h hmirrored command
  unfold Integral
  rcases hout : perform settings command server with ⟨e | mutation, last⟩
  · rw [hout] at hperformed
    cases hperformed with
    | stopped _ _ hsame => exact hsame
  · rw [hout] at hperformed
    cases hperformed with
    | kept _ hsame =>
        refine ⟨hsame, ?_⟩
        rcases unanswered_is_shipment hout with hnone | ⟨project, id, variant, request, clock, now, rfl⟩
        · exact Or.inl hnone
        · exact Or.inr (reshipped_of_unanswered hout)
    | mutated project request record after edited next entry result _ hedited hcommitted hpublishes =>
        exact ⟨project, request, record, after, entry, hedited.target,
          advanced_of_publishes hcommitted.transacted hpublishes⟩
    | rolledBack project changeId request record after target next entry result _ hcommand _ _ _
        htransacted hpublishes =>
        refine ⟨project, request, record, after, entry, ?_,
          advanced_of_publishes htransacted hpublishes⟩
        rw [hcommand]
        rfl

/-! ## Runs -/

/-- The mutation of a project that a command answered. -/
def answered (settings : ControlSettings) (project : String) (server : Server) (command : Command) :
    List MutationResult :=
  match command.target, (perform settings command server).1 with
  | some (target, _), .ok (some result) => if target = project then [result] else []
  | _, _ => []

/-- A project after the answered mutations of a run, from its configured row. -/
structure Kept (capacity : ℕ) (first : StoredProject) (results : List MutationResult)
    (record : ProjectRecord) (store : Served) (log : List Entry) : Prop where
  journal : record.journal = retained capacity log
  ids : log.map Entry.id = results.map MutationResult.changeId
  previousVersions : log.map Entry.previousVersion = List.range' first.version log.length
  newVersions : log.map Entry.newVersion = List.range' (first.version + 1) log.length
  version : record.stored.version = first.version + log.length
  unchanged : log = [] → record.stored = first ∧ store = bootstrapServed first
  published : log ≠ [] → store = servedOf record.stored

theorem Kept.advance {project : String} {request : Request} {first : StoredProject}
    {results : List MutationResult} {record after : ProjectRecord} {store : Served}
    {log : List Entry} {entry : Entry} {result : MutationResult} {last : Server}
    (h : Kept settings.journalCapacity first results record store log)
    (hadvanced : Advanced settings server project request result last record after entry) :
    Kept settings.journalCapacity first (results ++ [result]) after (servedOf after.stored)
      (log ++ [entry]) := by
  have hlength : (log ++ [entry]).length = log.length + 1 := by simp
  refine ⟨?_, ?_, ?_, ?_, ?_, ?_, fun _ => rfl⟩
  · rw [hadvanced.journal, h.journal, retained_append]
  · rw [List.map_append, List.map_append, h.ids, List.map_singleton, List.map_singleton,
      hadvanced.changeId]
  · rw [List.map_append, h.previousVersions, List.map_singleton, hadvanced.previousVersion,
      h.version, hlength, List.range'_1_concat]
  · rw [List.map_append, h.newVersions, List.map_singleton, hadvanced.newVersion, h.version,
      hlength, List.range'_1_concat]
    congr 2
    omega
  · rw [hadvanced.version, h.version, hlength]
    omega
  · intro hnil
    simp at hnil

/-- A project kept its log, whatever was called. -/
structure KeptRun (settings : ControlSettings) (project : String) (first : StoredProject)
    (results : List MutationResult) (server : Server) : Prop where
  ok : ServerOk server
  mirrored : Mirrored server
  kept : ∃ record store log, server.records.get project = some record ∧
    server.served.get project = some store ∧
    Kept settings.journalCapacity first results record store log

theorem answered_of_not_mutation {project : String} {command : Command}
    (h : ∀ result, (perform settings command server).1 ≠ .ok (some result)) :
    answered settings project server command = [] := by
  unfold answered
  split
  · rename_i hout
    exact absurd hout (h _)
  · rfl

theorem keptRun_step {project : String} {first : StoredProject} (results : List MutationResult)
    (command : Command) (h : KeptRun settings project first results server) :
    KeptRun settings project first (results ++ answered settings project server command)
      (step settings command server) := by
  have hok := step_serverOk settings h.ok command
  have hmirrored : Mirrored (step settings command server) :=
    mirrored_step h.ok h.mirrored command
  have hintegral := integral_of_mirrored settings h.ok h.mirrored command
  refine ⟨hok, hmirrored, ?_⟩
  obtain ⟨record, store, log, hrecord, hstore, hkept⟩ := h.kept
  -- Nothing of the project changed when no row did.
  have hsame : SamePublished server (step settings command server) →
      answered settings project server command = [] →
      ∃ record store log, (step settings command server).records.get project = some record ∧
        (step settings command server).served.get project = some store ∧
        Kept settings.journalCapacity first (results ++ answered settings project server command)
          record store log := by
    intro hsame hnone
    rw [hnone, List.append_nil, hsame.records, hsame.served]
    exact ⟨record, store, log, hrecord, hstore, hkept⟩
  unfold Integral at hintegral
  rw [step_eq_perform] at hsame ⊢
  rcases hout : perform settings command server with ⟨e | mutation, last⟩
  · rw [hout] at hintegral hsame
    refine hsame hintegral (answered_of_not_mutation ?_)
    intro result hresult
    rw [hout] at hresult
    cases hresult
  · cases mutation with
    | none =>
        rw [hout] at hintegral hsame
        refine hsame hintegral.1 (answered_of_not_mutation ?_)
        intro result hresult
        rw [hout] at hresult
        cases hresult
    | some result =>
        rw [hout] at hintegral
        obtain ⟨target, request, before, after, entry, htarget, hadvanced⟩ := hintegral
        have hanswered : answered settings project server command =
            if target = project then [result] else [] := by
          unfold answered
          rw [htarget, hout]
        rw [hanswered]
        by_cases hproject : target = project
        · subst hproject
          cases hrecord.symm.trans hadvanced.found
          refine ⟨after, servedOf after.stored, log ++ [entry], ?_, ?_, ?_⟩
          · rw [hadvanced.records, Table.get_put_self]
          · rw [hadvanced.served, Table.get_put_self]
          · rw [if_pos rfl]
            exact hkept.advance hadvanced
        · refine ⟨record, store, log, ?_, ?_, ?_⟩
          · rw [hadvanced.records, Table.get_put_of_ne _ _ (Ne.symm hproject)]
            exact hrecord
          · rw [hadvanced.served, Table.get_put_of_ne _ _ (Ne.symm hproject)]
            exact hstore
          · rw [if_neg hproject, List.append_nil]
            exact hkept

theorem keptRun_boot {config : Config} {project : String} {first : StoredProject}
    (h : config.projects.get project = some first) :
    KeptRun settings project first [] (boot config) := by
  refine ⟨serverOk_boot config, mirrored_boot config, ⟨first, []⟩, bootstrapServed first, [], ?_, ?_,
    ⟨List.drop_nil.symm, rfl, rfl, rfl, rfl, fun _ => ⟨rfl, rfl⟩, fun hne => absurd rfl hne⟩⟩
  · rw [boot, Table.get_mapValues, h]
    rfl
  · rw [boot, Table.get_mapValues, h]
    rfl

theorem keptRun_run {config : Config} {project : String} {first : StoredProject}
    (h : config.projects.get project = some first) (commands : List Command) :
    KeptRun settings project first
      (outputs (answered settings project) (step settings) (boot config) commands)
      (run (step settings) (boot config) commands) :=
  outputs_invariant (KeptRun settings project first) (answered settings project)
    (fun results _ command hkept => keptRun_step results command hkept) (keptRun_boot h) commands

/-- Two experiments listed against the order their ids are enumerated in. -/
def numberedConfig : Config :=
  configOf (sampleProject [sampleExperiment "2" true 1 ["a", "b"], sampleExperiment "1" true 1 ["a", "b"]])
    (by decide +kernel)

end

end Wardx.ControlService
