import Wardx.Control.ControlService
import Wardx.Control.StoredExperiments

/-!
# What a mutation does

An operation either leaves the server as it was or publishes one project: its
record is replaced by an appended one, and what it serves is read off that.
`mutate_cases` and `rollback_cases` say so, and say what the stored definitions
become: a mutation patches them towards the edited state, a rollback runs a
retained inverse on them.

Publishing cannot fail after a commit. What the journal committed is keyed, so
the stored list keys back to the same experiments and passes the same checks.
-/
namespace Wardx.Control

open Lib Json ControlStateChange

/-! ## Definitions -/

/-- The definition a row stores under an id. -/
def StoredProject.definition (stored : StoredProject) (id : String) : Option Json :=
  (byId stored.experiments).lookup id

/-- What a valid definition has. -/
structure ValidExperiment (experiment : Json) : Prop where
  object : experiment.isObject = true
  id : nonEmptyText (experiment.get? "id") = true
  enabled : ∃ b, experiment.get? "enabled" = some (.bool b)
  terminalRetentionMs : integerFrom 1 (experiment.get? "terminalRetentionMs") = true
  variants : ∃ variants, experiment.get? "variants" = some (.arr variants)
  target : experiment.get? "targetSampleSizePerVariant" = none ∨
    ∃ q, experiment.get? "targetSampleSizePerVariant" = some (.num q)

theorem integerFrom_num {least : ℤ} {value : Option Json} (h : integerFrom least value = true) :
    ∃ q, value = some (.num q) := by
  unfold integerFrom at h
  split at h
  · exact ⟨_, rfl⟩
  · cases h

/-- Without a plan there is no target, and a plan's target is a number. -/
theorem target_of_plan {experiment : Json} {keys : List String} {plan : Bool}
    (h : assertFixedHorizonPlan experiment keys = .ok plan) :
    experiment.get? "targetSampleSizePerVariant" = none ∨
      ∃ q, experiment.get? "targetSampleSizePerVariant" = some (.num q) := by
  unfold assertFixedHorizonPlan at h
  split_ifs at h with hplan
  · right
    simp only [bind_eq_ok_iff, require_eq_ok_iff, exists_const] at h
    obtain ⟨_, _, _, _, htarget, _⟩ := h
    exact integerFrom_num htarget
  · left
    unfold hasFixedHorizonPlan at hplan
    rw [List.any_eq_true] at hplan
    by_contra hsome
    refine hplan ⟨"targetSampleSizePerVariant", by decide, ?_⟩
    rw [Option.isSome_iff_ne_none]
    exact hsome

theorem items_ne_nil {value : Option Json} (h : items value ≠ []) : ∃ list, value = some (.arr list) := by
  unfold items at h
  split at h
  · exact ⟨_, rfl⟩
  · exact absurd rfl h

theorem validExperiment_of_ok {experiment : Json} (h : validateExperiment experiment = .ok ()) :
    ValidExperiment experiment := by
  unfold validateExperiment at h
  simp only [bind_eq_ok_iff, require_eq_ok_iff, exists_const, List.mem_cons, List.not_mem_nil,
    or_false, decide_eq_true_eq] at h
  obtain ⟨hobject, _, _, hid, henabled, _, _, _, _, _, _, hretention, _, _, hvariants, _, _, _, _,
    hplan, _⟩ := h
  refine ⟨hobject, hid, ?_, hretention, items_ne_nil hvariants, target_of_plan hplan⟩
  rcases henabled with h | h
  · exact ⟨true, h⟩
  · exact ⟨false, h⟩

/-! ## Records -/

/-- A record the server can have: valid definitions and keyed operations. -/
structure RecordOk (record : ProjectRecord) : Prop where
  valid : ∀ experiment ∈ record.stored.experiments, validateExperiment experiment = .ok ()
  forward : ∀ entry ∈ record.journal, ∀ item ∈ entry.reversible.forward.operations, OpKeyed item
  inverse : ∀ entry ∈ record.journal, ∀ item ∈ entry.reversible.inverse.operations, OpKeyed item

theorem RecordOk.keyed {record : ProjectRecord} (h : RecordOk record) :
    Keyed (byId record.stored.experiments) :=
  keyed_byId fun experiment hmem => (validExperiment_of_ok (h.valid experiment hmem)).id

theorem experimentsById_normalize (stored : StoredProject) :
    experimentsById (normalize stored) = byId stored.experiments := rfl

theorem RecordOk.keyedState {record : ProjectRecord} (h : RecordOk record) :
    KeyedState (normalize record.stored) :=
  ⟨byId record.stored.experiments, _, rfl, rfl, h.keyed⟩

theorem validateProjectState_snapshot {js : Js} {candidate : Snapshot × Json}
    {label catalogLabel : String}
    (h : validateProjectState js candidate label catalogLabel = .ok ()) :
    validateConfigSnapshot candidate.1 = .ok () := by
  unfold validateProjectState at h
  simp only [bind_eq_ok_iff] at h
  obtain ⟨⟨⟩, hsnapshot, _⟩ := h
  exact hsnapshot

theorem validateConfigSnapshot_experiments {snapshot : Snapshot}
    (h : validateConfigSnapshot snapshot = .ok ()) :
    ∀ experiment ∈ snapshot.experiments, validateExperiment experiment = .ok () := by
  unfold validateConfigSnapshot at h
  simp only [bind_eq_ok_iff, checkAll_eq_ok_iff] at h
  obtain ⟨_, _, _, _, _, _, _, hvalid, _⟩ := h
  exact hvalid

theorem applyChange_ok {js : Js} {state next : Json} {change : Change}
    (h : applyChange js state change = .ok next) :
    editAll change.operations state = some next ∧
      validateProjectState js (materialize next) "config snapshot" "catalog" = .ok () := by
  unfold applyChange at h
  simp only [bind_eq_ok_iff, pure, Except.pure, Except.ok.injEq] at h
  obtain ⟨reached, happly, ⟨⟩, hvalid, rfl⟩ := h
  unfold applyControlStateChange at happly
  simp only [bind_eq_ok_iff] at happly
  obtain ⟨_, _, _, _, hops⟩ := happly
  exact ⟨((applyOperations_eq_ok_iff _ _ _).mp hops).2, hvalid⟩

/-- A transaction stored a checked, keyed state under the next version, and
appended the entry that says so. -/
structure Appended (js : Js) (capacity : ℕ) (record after : ProjectRecord) (next : Json)
    (entry : Entry) : Prop where
  keyed : KeyedState next
  valid : validateProjectState js (materialize next) "config snapshot" "catalog" = .ok ()
  eq : after = appended capacity record next entry
  previousVersion : entry.previousVersion = record.stored.version
  newVersion : entry.newVersion = record.stored.version + 1
  ok : RecordOk after

section
variable {js : Js} {capacity : ℕ} {record after : ProjectRecord} {next : Json} {entry : Entry}

theorem Appended.snapshot (h : Appended js capacity record after next entry) :
    validateConfigSnapshot (materialize next).1 = .ok () :=
  validateProjectState_snapshot h.valid

theorem Appended.stored (h : Appended js capacity record after next entry) :
    after.stored = denormalize (record.stored.version + 1) next := by
  rw [h.eq, ← h.newVersion]
  rfl

theorem Appended.definition (h : Appended js capacity record after next entry) (id : String) :
    after.stored.definition id = (experimentsById next).lookup id := by
  rw [StoredProject.definition, h.stored]
  exact lookup_byId h.keyed.experiments id

theorem appended_of_transaction (hrecord : RecordOk record) (hkeyed : KeyedState next)
    (hvalid : validateProjectState js (materialize next) "config snapshot" "catalog" = .ok ())
    (hprevious : entry.previousVersion = record.stored.version)
    (hnew : entry.newVersion = record.stored.version + 1)
    (hforward : ∀ item ∈ entry.reversible.forward.operations, OpKeyed item)
    (hinverse : ∀ item ∈ entry.reversible.inverse.operations, OpKeyed item) :
    Appended js capacity record (appended capacity record next entry) next entry := by
  have hsnapshot := validateProjectState_snapshot hvalid
  have hmem : ∀ e ∈ (appended capacity record next entry).journal, e ∈ record.journal ∨ e = entry := by
    intro e he
    have := mem_retained he
    rwa [List.mem_append, List.mem_singleton] at this
  refine ⟨hkeyed, hvalid, rfl, hprevious, hnew, validateConfigSnapshot_experiments hsnapshot,
    ?_, ?_⟩
  · intro e he
    rcases hmem e he with he | rfl
    · exact hrecord.forward e he
    · exact hforward
  · intro e he
    rcases hmem e he with he | rfl
    · exact hrecord.inverse e he
    · exact hinverse

end

/-! ## Publishing what was committed -/

theorem rolesOverlap_comm (a b : Option Json) : rolesOverlap a b = rolesOverlap b a := by
  have hany : (items a).any (fun role => role ∈ items b) = (items b).any fun role => role ∈ items a := by
    rw [Bool.eq_iff_iff, List.any_eq_true, List.any_eq_true]
    simp only [decide_eq_true_eq]
    constructor
    · rintro ⟨role, ha, hb⟩
      exact ⟨role, hb, ha⟩
    · rintro ⟨role, hb, ha⟩
      exact ⟨role, ha, hb⟩
  unfold rolesOverlap
  rw [hany, Bool.or_comm (includesText "*" a)]

theorem ambiguous_comm (a b : Json) : ambiguous a b = ambiguous b a := by
  unfold ambiguous
  rw [rolesOverlap_comm, Bool.and_comm (truthy (a.get? "enabled"))]
  congr 2
  exact decide_eq_decide.mpr eq_comm

theorem assertUnambiguousGoalMetrics_eq_ok_iff (experiments : List Json) :
    assertUnambiguousGoalMetrics experiments = .ok () ↔
      experiments.Pairwise fun left right => ambiguous left right = false := by
  induction experiments with
  | nil => simp [assertUnambiguousGoalMetrics]
  | cons left rest ih =>
      simp only [assertUnambiguousGoalMetrics, bind_eq_ok_iff, checkAll_eq_ok_iff,
        require_eq_ok_iff, exists_const, ih, List.pairwise_cons, Bool.not_eq_eq_eq_not,
        Bool.not_true]

/-- The checks of a snapshot do not see the order of its experiments. -/
theorem validateConfigSnapshot_perm {snapshot : Snapshot} {experiments : List Json}
    (h : validateConfigSnapshot snapshot = .ok ()) (hperm : experiments.Perm snapshot.experiments) :
    validateConfigSnapshot { snapshot with experiments := experiments } = .ok () := by
  unfold validateConfigSnapshot at h ⊢
  simp only [bind_eq_ok_iff, checkAll_eq_ok_iff, assertUnambiguousGoalMetrics_eq_ok_iff] at h ⊢
  obtain ⟨⟨⟩, hvalues, ⟨⟩, hroles, ⟨⟩, hrules, ⟨⟩, hvalid, hpair⟩ := h
  refine ⟨(), hvalues, (), hroles, (), hrules, (), fun e he => hvalid e (hperm.mem_iff.mp he), ?_⟩
  refine (hperm.pairwise_iff ?_).mpr hpair
  intro a b hab
  rw [ambiguous_comm]
  exact hab

section
variable {js : Js} {capacity : ℕ} {record after : ProjectRecord} {next : Json} {entry : Entry}

theorem Appended.publishable (h : Appended js capacity record after next entry) :
    validateConfigSnapshot (materialize (normalize after.stored)).1 = .ok () := by
  rw [h.stored]
  exact validateConfigSnapshot_perm h.snapshot ((byId_perm h.keyed.experiments).map Prod.snd)

/-! ## Journal transactions -/

theorem commit_cases {mutation : Mutation} {options : MutationOptions} {moment : Moment} {result : MutationResult}
    {edited : Json} (hrecord : RecordOk record) (hedited : KeyedState edited)
    (hforward : diffControlState (normalize record.stored) edited = .ok mutation.forward)
    (hinverse : diffControlState edited (normalize record.stored) = .ok mutation.inverse)
    (h : commit js capacity record mutation options moment = .ok (after, result)) :
    ∃ next entry, Patched (normalize record.stored) edited next ∧
      editAll mutation.forward.operations (normalize record.stored) = some next ∧
      entry.reversible = ⟨mutation.forward, mutation.inverse⟩ ∧
      Transacted capacity record options entry result ∧ result.rolledBackChangeId = none ∧
      Appended js capacity record after next entry := by
  obtain ⟨next, entry, hnext, rfl, hreversible, htransacted, hnone⟩ := commit_ok h
  obtain ⟨hedits, hvalid⟩ := applyChange_ok hnext
  have hbefore := hrecord.keyedState
  have hforwardOps : ∀ item ∈ mutation.forward.operations, OpKeyed item := by
    obtain ⟨_, _, _, _, heq⟩ := (diffControlState_eq_ok_iff _ _ _).mp hforward
    rw [heq]
    exact fun item hitem => opKeyed_collect hbefore hedited hitem
  have hinverseOps : ∀ item ∈ mutation.inverse.operations, OpKeyed item := by
    obtain ⟨_, _, _, _, heq⟩ := (diffControlState_eq_ok_iff _ _ _).mp hinverse
    rw [heq]
    exact fun item hitem => opKeyed_collect hedited hbefore hitem
  obtain ⟨patched, happly, hpatched⟩ := apply_diff hforward
  have heq : patched = next := by
    unfold applyControlStateChange at happly
    simp only [bind_eq_ok_iff] at happly
    obtain ⟨_, _, _, _, hops⟩ := happly
    have := ((applyOperations_eq_ok_iff _ _ _).mp hops).2
    exact Option.some.inj (this.symm.trans hedits)
  subst heq
  refine ⟨patched, entry, hpatched, hedits, hreversible, htransacted, hnone, ?_⟩
  exact appended_of_transaction hrecord (keyedState_editAll hbefore hforwardOps hedits) hvalid
    htransacted.previousVersion htransacted.newVersion
    (by rw [hreversible]; exact hforwardOps) (by rw [hreversible]; exact hinverseOps)

theorem rollback_record_cases {project changeId : String} {options : MutationOptions} {moment : Moment}
    {result : MutationResult} (hrecord : RecordOk record)
    (h : rollback js capacity record project changeId options moment = .ok (after, result)) :
    ∃ target next entry, findChange capacity record changeId = some target ∧
      editAll target.reversible.inverse.operations (normalize record.stored) = some next ∧
      entry.reversible = ⟨target.reversible.inverse, target.reversible.forward⟩ ∧
      Transacted capacity record options entry result ∧
      Appended js capacity record after next entry := by
  obtain ⟨target, next, entry, htarget, hnext, rfl, hreversible, htransacted⟩ := rollback_ok h
  obtain ⟨hedits, hvalid⟩ := applyChange_ok hnext
  have hmem := mem_of_findChange htarget
  refine ⟨target, next, entry, htarget, hedits, hreversible, htransacted, ?_⟩
  exact appended_of_transaction hrecord
    (keyedState_editAll hrecord.keyedState (hrecord.inverse target hmem) hedits) hvalid
    htransacted.previousVersion htransacted.newVersion
    (by rw [hreversible]; exact hrecord.inverse target hmem)
    (by rw [hreversible]; exact hrecord.forward target hmem)

end

end Wardx.Control

namespace Wardx.ControlService

open Lib Json Control ControlStateChange

/-! ## The server -/

/-- Records are in order, and every project with one is served. -/
structure ServerOk (server : Server) : Prop where
  record : ∀ project record, server.records.get project = some record → RecordOk record
  named : ∀ project record, server.records.get project = some record → project ≠ ""
  served : ∀ project record, server.records.get project = some record →
    (server.served.get project).isSome = true

/-- One project's record replaced, and published. -/
def published (server : Server) (project : String) (after : ProjectRecord) : Server :=
  { server with
    records := server.records.put project after
    served := server.served.put project (servedOf after.stored) }

theorem readRecord_eq_ok_iff {server : Server} {project : String} {record : ProjectRecord} :
    readRecord server project = .ok record ↔ server.records.get project = some record := by
  unfold readRecord
  cases server.records.get project <;> simp

theorem requireStore_eq_ok_iff {server : Server} {project : String} {store : Served} :
    requireStore server project = .ok store ↔
      project ≠ "" ∧ server.served.get project = some store := by
  unfold requireStore
  cases server.served.get project <;> simp [pure, Except.pure]

theorem ServerOk.published {server : Server} {project : String} {record after : ProjectRecord}
    (h : ServerOk server) (hrecord : server.records.get project = some record)
    (hafter : RecordOk after) : ServerOk (published server project after) := by
  refine ⟨?_, ?_, ?_⟩
  · intro p r hr
    rw [ControlService.published, Table.get_put] at hr
    split_ifs at hr
    · cases hr
      exact hafter
    · exact h.record p r hr
  · intro p r hr
    rw [ControlService.published, Table.get_put] at hr
    split_ifs at hr with hp
    · rw [hp]
      exact h.named project record hrecord
    · exact h.named p r hr
  · intro p r hr
    rw [ControlService.published, Table.get_put] at hr ⊢
    split_ifs at hr ⊢
    · rfl
    · exact h.served p r hr

/-- After a commit the project is published. -/
theorem transact_publish {server : Server} {project : String} {js : Js} {capacity : ℕ}
    {record after : ProjectRecord} {next : Json} {entry : Entry} {result : MutationResult}
    {work : ProjectRecord → Except String (ProjectRecord × MutationResult)} (h : ServerOk server)
    (hrecord : server.records.get project = some record) (hwork : work record = .ok (after, result))
    (hafter : Appended js capacity record after next entry) :
    (do
      let result ← transact project work
      publish project
      pure result : Service MutationResult) server = (.ok result, published server project after) := by
  have htransact : transact project work server =
      (.ok result, { server with records := server.records.put project after }) := by
    rw [transact, Action.transaction_eq_ok_iff]
    simp only [bind_eq_ok_iff, readRecord_eq_ok_iff]
    exact ⟨record, hrecord, (after, result), hwork, rfl⟩
  have hpublish : publish project { server with records := server.records.put project after } =
      (.ok (), published server project after) := by
    obtain ⟨store, hstore⟩ := Option.isSome_iff_exists.mp (h.served project record hrecord)
    rw [publish, Action.transaction_eq_ok_iff]
    simp only [bind_eq_ok_iff, readRecord_eq_ok_iff, requireStore_eq_ok_iff]
    exact ⟨after, Table.get_put_self _ _ _, store, ⟨h.named project record hrecord, hstore⟩, (),
      hafter.publishable, rfl⟩
  rw [Action.bind_eq_ok_iff]
  refine ⟨result, _, htransact, ?_⟩
  rw [Action.bind_eq_ok_iff]
  exact ⟨(), _, hpublish, rfl⟩

theorem transact_fails {server : Server} {project : String}
    (work : ProjectRecord → Except String (ProjectRecord × MutationResult))
    (h : ∀ record after result, server.records.get project = some record →
      work record ≠ .ok (after, result)) :
    ∃ e, (do
      let result ← transact project work
      publish project
      pure result : Service MutationResult) server = (.error e, server) := by
  have hfails : ∃ e, transact project work server = (.error e, server) := by
    rcases hwork : transact project work server with ⟨e | result, after⟩
    · rw [transact, Action.transaction] at hwork
      split at hwork
      · cases hwork
      · cases hwork
        exact ⟨e, rfl⟩
    · rw [transact, Action.transaction_eq_ok_iff] at hwork
      simp only [bind_eq_ok_iff, readRecord_eq_ok_iff] at hwork
      obtain ⟨record, hrecord, pair, hpair, _⟩ := hwork
      exact absurd hpair (h record pair.1 pair.2 hrecord)
  obtain ⟨e, he⟩ := hfails
  exact ⟨e, Action.bind_of_error _ he⟩

/-- An operation failed and changed nothing, or published one project. -/
inductive Outcome (settings : ControlSettings) (server : Server) (project : String)
    (how : ProjectRecord → Json → Prop) : Except String MutationResult × Server → Prop
  | failed (e : String) : Outcome settings server project how (.error e, server)
  | changed (record after : ProjectRecord) (next : Json) (entry : Entry) (result : MutationResult)
      (hrecord : server.records.get project = some record) (hhow : how record next)
      (hafter : Appended settings.js settings.journalCapacity record after next entry) :
      Outcome settings server project how (.ok result, published server project after)

/-- The check of `_mutate` on the ledger rows that enabled plans may fill. -/
def Reserved (settings : ControlSettings) (server : Server) (project : String)
    (candidate : Snapshot) : Prop :=
  reservedExperimentRows (snapshotsWith server project candidate) ≤ settings.ledger.maxRows

/-- What a mutation did to a record: it took both differences of the edit, and
the journal patched the row with the forward one. -/
structure Committed (settings : ControlSettings) (server : Server) (project : String)
    (request : Request) (record : ProjectRecord) (edited next : Json) (entry : Entry)
    (result : MutationResult) : Prop where
  forward : diffControlState (normalize record.stored) edited = .ok entry.reversible.forward
  inverse : diffControlState edited (normalize record.stored) = .ok entry.reversible.inverse
  edits : editAll entry.reversible.forward.operations (normalize record.stored) = some next
  patched : Patched (normalize record.stored) edited next
  reserved : Reserved settings server project (materialize edited).1
  transacted : Transacted settings.journalCapacity record request.options entry result
  notRollback : result.rolledBackChangeId = none

/-- A mutation fails and changes nothing, or commits and publishes one project. -/
theorem mutate_run (settings : ControlSettings) {server : Server} (h : ServerOk server)
    (project operation : String) (affectedNames : List String)
    {edit : Json → Except String Json} (request : Request)
    (hedit : ∀ record edited, server.records.get project = some record →
      edit (normalize record.stored) = .ok edited → KeyedState edited) :
    (∃ e, mutate settings project operation affectedNames edit request server = (.error e, server)) ∨
      ∃ record after edited next entry result,
        mutate settings project operation affectedNames edit request server =
          (.ok result, published server project after) ∧
        server.records.get project = some record ∧ edit (normalize record.stored) = .ok edited ∧
        Committed settings server project request record edited next entry result ∧
        Appended settings.js settings.journalCapacity record after next entry := by
  unfold mutate
  rw [Action.read_bind]
  cases hprepare : prepareChange settings server project operation affectedNames edit with
  | error e => exact Or.inl ⟨e, rfl⟩
  | ok mutation =>
      unfold prepareChange at hprepare
      simp only [bind_eq_ok_iff, readRecord_eq_ok_iff, require_eq_ok_iff, exists_const,
        decide_eq_true_eq] at hprepare
      obtain ⟨record, hrecord, edited, hedited, _, _, hreserved, forward, hforward, inverse,
        hinverse, hmutation⟩ := hprepare
      cases hmutation
      have hok := h.record project record hrecord
      rw [Action.bind_of_ok _ (Action.check_run _ _)]
      cases hcommit : commit settings.js settings.journalCapacity record
          ⟨project, operation, affectedNames, forward, inverse⟩ request.options request.moment with
      | error e =>
          refine Or.inl (transact_fails (fun record => commit settings.js settings.journalCapacity
            record ⟨project, operation, affectedNames, forward, inverse⟩ request.options
            request.moment) ?_)
          intro r after result hr hwork
          rw [hrecord] at hr
          cases hr
          rw [hcommit] at hwork
          cases hwork
      | ok pair =>
          obtain ⟨after, result⟩ := pair
          obtain ⟨next, entry, hpatched, hedits, hreversible, htransacted, hnone, hafter⟩ :=
            commit_cases hok (hedit record edited hrecord hedited) hforward hinverse hcommit
          refine Or.inr ⟨record, after, edited, next, entry, result,
            transact_publish h hrecord hcommit hafter, hrecord, hedited, ?_, hafter⟩
          refine ⟨?_, ?_, ?_, hpatched, hreserved, htransacted, hnone⟩
          · rw [hreversible]
            exact hforward
          · rw [hreversible]
            exact hinverse
          · rw [hreversible]
            exact hedits

theorem mutate_cases (settings : ControlSettings) {server : Server} (h : ServerOk server)
    (project operation : String) (affectedNames : List String)
    {edit : Json → Except String Json} (request : Request)
    (hedit : ∀ record edited, server.records.get project = some record →
      edit (normalize record.stored) = .ok edited → KeyedState edited) :
    Outcome settings server project
      (fun record next => ∃ edited, edit (normalize record.stored) = .ok edited ∧
        Patched (normalize record.stored) edited next ∧
        Reserved settings server project (materialize edited).1)
      (mutate settings project operation affectedNames edit request server) := by
  rcases mutate_run settings h project operation affectedNames request hedit with
    ⟨e, hout⟩ | ⟨record, after, edited, next, entry, result, hout, hrecord, hedited, hcommitted, hafter⟩
  · rw [hout]
    exact Outcome.failed e
  · rw [hout]
    exact Outcome.changed record after next entry result hrecord
      ⟨edited, hedited, hcommitted.patched, hcommitted.reserved⟩ hafter

/-- A rollback fails and changes nothing, or runs a retained inverse and
publishes the project. -/
theorem rollback_run (settings : ControlSettings) {server : Server} (h : ServerOk server)
    (project changeId : String) (request : Request) :
    (∃ e, rollbackConfigChange settings project changeId request server = (.error e, server)) ∨
      ∃ record after target next entry result,
        rollbackConfigChange settings project changeId request server =
          (.ok result, published server project after) ∧
        server.records.get project = some record ∧
        findChange settings.journalCapacity record changeId = some target ∧
        editAll target.reversible.inverse.operations (normalize record.stored) = some next ∧
        entry.reversible = ⟨target.reversible.inverse, target.reversible.forward⟩ ∧
        Transacted settings.journalCapacity record request.options entry result ∧
        Appended settings.js settings.journalCapacity record after next entry := by
  unfold rollbackConfigChange
  by_cases hok : ∃ record after result, server.records.get project = some record ∧
      rollback settings.js settings.journalCapacity record project changeId request.options
        request.moment = .ok (after, result)
  · obtain ⟨record, after, result, hrecord, hrollback⟩ := hok
    obtain ⟨target, next, entry, htarget, hedits, hreversible, htransacted, hafter⟩ :=
      rollback_record_cases (h.record project record hrecord) hrollback
    exact Or.inr ⟨record, after, target, next, entry, result,
      transact_publish h hrecord hrollback hafter, hrecord, htarget, hedits, hreversible,
      htransacted, hafter⟩
  · exact Or.inl (transact_fails (fun record => rollback settings.js settings.journalCapacity
      record project changeId request.options request.moment)
      fun record after result hrecord hwork => hok ⟨record, after, result, hrecord, hwork⟩)

theorem rollback_cases (settings : ControlSettings) {server : Server} (h : ServerOk server)
    (project changeId : String) (request : Request) :
    Outcome settings server project
      (fun record next => ∃ target,
        findChange settings.journalCapacity record changeId = some target ∧
        editAll target.reversible.inverse.operations (normalize record.stored) = some next)
      (rollbackConfigChange settings project changeId request server) := by
  rcases rollback_run settings h project changeId request with
    ⟨e, hout⟩ | ⟨record, after, target, next, entry, result, hout, hrecord, htarget, hedits, _, _, hafter⟩
  · rw [hout]
    exact Outcome.failed e
  · rw [hout]
    exact Outcome.changed record after next entry result hrecord ⟨target, htarget, hedits⟩ hafter

end Wardx.ControlService
