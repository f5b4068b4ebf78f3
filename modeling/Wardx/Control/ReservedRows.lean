import Wardx.Control.JournalIntegrity

/-!
# Reserved ledger rows

An enabled fixed-horizon experiment reserves the ledger rows its variants may
fill. A mutation is refused when the plans of all projects, with the edited one
in place, reserve more than the ledger holds. A rollback makes no such check.

The check counts what the projects serve and the edit as it was written; the
bound is about what they store. Both count the same: a served list is a
reordering of client copies, and a patch keeps every field a plan is read from.
-/
namespace Wardx.ControlService

open Lib Json Control ControlStateChange

/-! ## Counting -/

/-- The rows the plans of one snapshot reserve. -/
def snapshotRows (snapshot : Snapshot) : ℚ := (snapshot.experiments.map plannedRows).sum

theorem reservedExperimentRows_eq (snapshots : List Snapshot) :
    reservedExperimentRows snapshots = (snapshots.map snapshotRows).sum := by
  unfold reservedExperimentRows
  induction snapshots with
  | nil => rfl
  | cons snapshot rest ih =>
      rw [List.flatMap_cons, List.map_append, List.sum_append, ih, List.map_cons, List.sum_cons]
      rfl

/-- The rows reserved by everything that is stored. -/
def reservedRows (server : Server) : ℚ :=
  reservedExperimentRows (server.records.values.map fun record => record.stored.snapshot)

/-- A plan reads only fields that hold no object. -/
theorem plannedRows_congr {a b : Json} (henabled : a.get? "enabled" = b.get? "enabled")
    (htarget : a.get? "targetSampleSizePerVariant" = b.get? "targetSampleSizePerVariant")
    (hvariants : (items (a.get? "variants")).length = (items (b.get? "variants")).length) :
    plannedRows a = plannedRows b := by
  unfold plannedRows
  rw [henabled, htarget, hvariants]

theorem plannedRows_toClientExperiment (experiment : Json) :
    plannedRows (toClientExperiment experiment) = plannedRows experiment := by
  apply plannedRows_congr
  · exact get?_toClientExperiment_of_mem (by decide) (by decide)
  · exact get?_toClientExperiment_of_mem (by decide) (by decide)
  · rw [get?_toClientExperiment, if_pos (by decide), Control.clientField, if_pos rfl]
    cases experiment.get? "variants" with
    | none => rfl
    | some variants => exact List.length_map _

/-- A patch that is a valid definition plans what was written. -/
theorem plannedRows_patched {x y z : Json} (h : Patched x y z)
    (hz : validateExperiment z = .ok ()) : plannedRows z = plannedRows y := by
  have hvalid := validExperiment_of_ok hz
  apply plannedRows_congr
  · apply h.get?_eq_of_plain
    obtain ⟨b, hb⟩ := hvalid.enabled
    intro value hvalue
    cases hb.symm.trans hvalue
    rfl
  · apply h.get?_eq_of_plain
    intro value hvalue
    rcases hvalid.target with hnone | ⟨q, hq⟩
    · cases hnone.symm.trans hvalue
    · cases hq.symm.trans hvalue
      rfl
  · congr 2
    apply h.get?_eq_of_plain
    obtain ⟨variants, hvariants⟩ := hvalid.variants
    intro value hvalue
    cases hvariants.symm.trans hvalue
    rfl

/-- Fields with the same number under each key have the same sum. -/
theorem sum_of_lookup {xs ys : Fields} (hxs : (xs.map Prod.fst).Nodup)
    (hys : (ys.map Prod.fst).Nodup) (f : Json → ℚ)
    (h : ∀ id, (xs.lookup id).map f = (ys.lookup id).map f) :
    ((xs.map Prod.snd).map f).sum = ((ys.map Prod.snd).map f).sum := by
  have hnodup : ∀ fields : Fields, (fields.map Prod.fst).Nodup →
      (fields.map fun field => (field.1, f field.2)).Nodup := by
    intro fields hfields
    apply List.Nodup.of_map Prod.fst
    rw [List.map_map]
    exact hfields
  have hmem : ∀ fields : Fields, (fields.map Prod.fst).Nodup → ∀ id q,
      (id, q) ∈ fields.map (fun field => (field.1, f field.2)) ↔
        (fields.lookup id).map f = some q := by
    intro fields hfields id q
    rw [List.mem_map, Option.map_eq_some_iff]
    constructor
    · rintro ⟨⟨k, v⟩, hfield, heq⟩
      cases heq
      exact ⟨v, (Table.lookup_eq_some_iff hfields k v).mpr hfield, rfl⟩
    · rintro ⟨v, hv, rfl⟩
      exact ⟨(id, v), (Table.lookup_eq_some_iff hfields id v).mp hv, rfl⟩
  have hperm : (xs.map fun field => (field.1, f field.2)).Perm
      (ys.map fun field => (field.1, f field.2)) := by
    refine (List.perm_ext_iff_of_nodup (hnodup xs hxs) (hnodup ys hys)).mpr ?_
    rintro ⟨id, q⟩
    rw [hmem xs hxs, hmem ys hys, h]
  have hsum := (hperm.map Prod.snd).sum_eq
  rw [List.map_map, List.map_map] at hsum
  rw [List.map_map, List.map_map]
  exact hsum

/-! ## Edited, stored and served -/

section
variable {settings : ControlSettings} {server : Server} {project : String}
  {record after : ProjectRecord} {edited next : Json} {entry : Entry}

/-- What a mutation stores plans what its edit wrote. -/
theorem snapshotRows_mutated (hedited : KeyedState edited)
    (hpatched : Patched (normalize record.stored) edited next)
    (hafter : Appended settings.js settings.journalCapacity record after next entry) :
    snapshotRows after.stored.snapshot = snapshotRows (materialize edited).1 := by
  obtain ⟨written, hwritten⟩ := hedited
  have hkeyed : Keyed written := by
    rw [← hwritten.experimentsById]
    exact hwritten.keyedState.experiments
  have hrewrites := rewrites_of_patched hwritten hpatched hafter
  have hstored : (byId after.stored.experiments).map Prod.snd |>.Perm after.stored.experiments := by
    rw [hafter.stored]
    exact (byId_perm hafter.keyed.experiments).map Prod.snd
  have hrows : ∀ id, ((byId after.stored.experiments).lookup id).map plannedRows =
      (written.lookup id).map plannedRows := by
    intro id
    have hfield := hrewrites id
    cases hdefinition : after.stored.definition id with
    | none =>
        rw [show (byId after.stored.experiments).lookup id = none from hdefinition]
        cases hlookup : written.lookup id with
        | none => rfl
        | some y =>
            rw [hlookup, hdefinition] at hfield
            cases hbefore : record.stored.definition id with
            | none =>
                rw [hbefore] at hfield
                cases hfield
            | some x =>
                rw [hbefore] at hfield
                obtain ⟨z, hz, _⟩ := hfield
                cases hz
    | some z =>
        rw [show (byId after.stored.experiments).lookup id = some z from hdefinition]
        have hvalid := valid_of_definition hafter.ok hdefinition
        rw [hdefinition] at hfield
        cases hlookup : written.lookup id with
        | none =>
            rw [hlookup] at hfield
            cases hfield.eq_none
        | some y =>
            rw [hlookup] at hfield
            cases hbefore : record.stored.definition id with
            | none =>
                rw [hbefore] at hfield
                cases hfield
                rfl
            | some x =>
                rw [hbefore] at hfield
                obtain ⟨z', hz', hinner⟩ := hfield
                cases hz'
                rw [Option.map_some, Option.map_some, plannedRows_patched hinner hvalid]
  have hsum := sum_of_lookup hafter.ok.keyed.nodup hkeyed.nodup plannedRows hrows
  rw [(hstored.map plannedRows).sum_eq] at hsum
  show (after.stored.experiments.map plannedRows).sum =
    ((experimentsById edited).map Prod.snd |>.map plannedRows).sum
  rw [hwritten.experimentsById]
  exact hsum

/-- What is published plans what is stored. -/
theorem snapshotRows_servedOf
    (hafter : Appended settings.js settings.journalCapacity record after next entry) :
    snapshotRows (servedOf after.stored).snapshot = snapshotRows after.stored.snapshot := by
  have hperm : ((byId after.stored.experiments).map Prod.snd).Perm after.stored.experiments := by
    rw [hafter.stored]
    exact (byId_perm hafter.keyed.experiments).map Prod.snd
  show ((((byId after.stored.experiments).map Prod.snd).map toClientExperiment).map plannedRows).sum =
    (after.stored.experiments.map plannedRows).sum
  rw [List.map_map, show plannedRows ∘ toClientExperiment = plannedRows from
    funext plannedRows_toClientExperiment]
  exact (hperm.map plannedRows).sum_eq

/-! ## The bound -/

/-- The reserved rows fit the ledger, and what is served counts as what is stored. -/
structure InReserve (settings : ControlSettings) (server : Server) : Prop where
  ok : ServerOk server
  mirrored : Mirrored server
  keys : server.served.keys = server.records.keys
  agree : ∀ project store record, server.served.get project = some store →
    server.records.get project = some record →
    snapshotRows store.snapshot = snapshotRows record.stored.snapshot
  bound : reservedRows server ≤ settings.ledger.maxRows

/-- The sum the check of a mutation computes, over the rows after it. -/
theorem reservedRows_published {last : Server} (h : InReserve settings server)
    (hpublishes : Publishes settings server project record after next entry last)
    {candidate : Snapshot} (hcandidate : snapshotRows after.stored.snapshot = snapshotRows candidate) :
    reservedRows last = reservedExperimentRows (snapshotsWith server project candidate) := by
  let served := server.served.mapValues fun name store =>
    if name = project then candidate else store.snapshot
  have hserved : snapshotsWith server project candidate = served.values := by
    unfold served snapshotsWith Table.values Table.mapValues
    rw [List.map_map]
    rfl
  have hproject : project ∈ server.records.keys :=
    (Table.get_isSome_iff _ _).mp (by rw [hpublishes.found]; rfl)
  have hkeys : last.records.keys = served.keys := by
    rw [hpublishes.records, Table.keys_put, if_pos hproject, ← h.keys]
    unfold served Table.keys Table.mapValues
    rw [List.map_map]
    rfl
  unfold reservedRows
  rw [reservedExperimentRows_eq, reservedExperimentRows_eq, hserved, List.map_map]
  refine congrArg List.sum (Table.map_values_congr hkeys ?_)
  intro name stored snapshot hstored hsnapshot
  rw [hpublishes.records, Table.get_put] at hstored
  rw [Table.get_mapValues] at hsnapshot
  obtain ⟨store, hstore, rfl⟩ := Option.map_eq_some_iff.mp hsnapshot
  split_ifs at hstored ⊢ with hname
  · cases hstored
    exact hcandidate
  · exact (h.agree name store stored hstore hstored).symm

theorem inReserve_published {last : Server} (h : InReserve settings server)
    (hpublishes : Publishes settings server project record after next entry last)
    (hok : ServerOk last) {candidate : Snapshot}
    (hcandidate : snapshotRows after.stored.snapshot = snapshotRows candidate)
    (hreserved : Reserved settings server project candidate) : InReserve settings last := by
  have hproject : project ∈ server.records.keys :=
    (Table.get_isSome_iff _ _).mp (by rw [hpublishes.found]; rfl)
  refine ⟨hok, mirrored_of_publishes h.mirrored hpublishes, ?_, ?_, ?_⟩
  · rw [hpublishes.records, hpublishes.served, Table.keys_put, Table.keys_put, h.keys]
  · intro name store stored hstore hstored
    rw [hpublishes.served, Table.get_put] at hstore
    rw [hpublishes.records, Table.get_put] at hstored
    split_ifs at hstore hstored
    · cases hstore
      cases hstored
      exact snapshotRows_servedOf hpublishes.appended
    · exact h.agree name store stored hstore hstored
  · rw [reservedRows_published h hpublishes hcandidate]
    exact hreserved

end

/-- What a rollback leaves would pass the check of a mutation: with the retained
inverse run on the project's row, the enabled plans still fit the ledger. -/
def KeepsReserve (settings : ControlSettings) (server : Server) (command : Command) : Prop :=
  match command with
  | .rollbackConfigChange project changeId _ =>
      ∀ record ∈ server.records.get project,
        ∀ target ∈ findChange settings.journalCapacity record changeId,
          ∀ next ∈ editAll target.reversible.inverse.operations (normalize record.stored),
            Reserved settings server project (materialize next).1
  | _ => True

theorem inReserve_step (settings : ControlSettings) {server : Server} (command : Command)
    (h : InReserve settings server) (hkeeps : KeepsReserve settings server command) :
    InReserve settings (step settings command server) := by
  have hok := step_serverOk settings h.ok command
  have hsame : ∀ last, ServerOk last → SamePublished server last → InReserve settings last := by
    intro last hlast hsame
    refine ⟨hlast, ?_, ?_, ?_, ?_⟩
    · unfold Mirrored
      rw [hsame.records, hsame.served]
      exact h.mirrored
    · rw [hsame.records, hsame.served]
      exact h.keys
    · rw [hsame.records, hsame.served]
      exact h.agree
    · unfold reservedRows
      rw [hsame.records]
      exact h.bound
  have hperformed := perform_performed settings h.ok h.mirrored command
  rw [step_eq_perform] at hok ⊢
  generalize perform settings command server = outcome at hok hperformed ⊢
  cases hperformed with
  | stopped e last hunchanged => exact hsame last hok hunchanged
  | kept last hunchanged => exact hsame last hok hunchanged
  | mutated project request record after edited next entry result last hedited hcommitted hpublishes =>
      have hkeyed := hedited.keyedState (h.ok.record project record hpublishes.found)
      exact inReserve_published h hpublishes hok
        (snapshotRows_mutated hkeyed hcommitted.patched hpublishes.appended) hcommitted.reserved
  | rolledBack project changeId request record after target next entry result last hcommand htarget
      hedits _ _ hpublishes =>
      subst hcommand
      have hstored : after.stored.snapshot = (materialize next).1 := by
        rw [hpublishes.appended.stored]
        rfl
      exact inReserve_published h hpublishes hok (congrArg snapshotRows hstored)
        (hkeeps record hpublishes.found target htarget next hedits)

theorem inReserve_boot {settings : ControlSettings} (config : CheckedConfig settings) :
    InReserve settings (boot config.toConfig) := by
  refine ⟨serverOk_boot _, mirrored_boot _, ?_, ?_, ?_⟩
  · unfold boot Table.keys Table.mapValues
    rw [List.map_map, List.map_map]
    rfl
  · intro project store record hstore hrecord
    rw [boot, Table.get_mapValues] at hstore hrecord
    obtain ⟨stored, hstored, rfl⟩ := Option.map_eq_some_iff.mp hstore
    obtain ⟨_, hstored', rfl⟩ := Option.map_eq_some_iff.mp hrecord
    cases hstored.symm.trans hstored'
    show ((stored.experiments.map toClientExperiment).map plannedRows).sum =
      (stored.experiments.map plannedRows).sum
    rw [List.map_map, show plannedRows ∘ toClientExperiment = plannedRows from
      funext plannedRows_toClientExperiment]
  · have hvalues : (boot config.toConfig).records.values.map
        (fun record => record.stored.snapshot) =
        config.projects.values.map StoredProject.snapshot := by
      unfold boot Table.values Table.mapValues
      rw [List.map_map, List.map_map, List.map_map]
      rfl
    unfold reservedRows
    rw [hvalues]
    exact config.reserved

instance (settings : ControlSettings) (server : Server) (project : String) (candidate : Snapshot) :
    Decidable (Reserved settings server project candidate) :=
  inferInstanceAs (Decidable (_ ≤ (settings.ledger.maxRows : ℚ)))

instance (settings : ControlSettings) (server : Server) :
    (command : Command) → Decidable (KeepsReserve settings server command)
  | .rollbackConfigChange project changeId _ =>
      inferInstanceAs (Decidable (∀ record ∈ server.records.get project,
        ∀ target ∈ findChange settings.journalCapacity record changeId,
          ∀ next ∈ editAll target.reversible.inverse.operations (normalize record.stored),
            Reserved settings server project (materialize next).1))
  | .upsertExperiment .. | .setExperimentEnabled .. | .replaceSnapshot .. | .shipExperiment ..
  | .setValue .. | .deleteValue .. | .catalog .. | .experimentStats .. | .ledgerIngest ..
  | .pipelineIngest .. | .pruneExpired .. => isTrue trivial

/-! ## Two plans of which one fits -/

/-- Each of the two experiments plans four rows. -/
def tightSettings : ControlSettings :=
  { sampleSettings with ledger := ⟨6, 10, Nat.zero_lt_succ _, ten_pos⟩ }

def tightConfig : CheckedConfig tightSettings where
  toConfig := configOf (sampleProject [sampleExperiment "first" true 1 ["a", "b"],
    sampleExperiment "second" false 1 ["a", "b"]]) (by decide +kernel)
  constraints := by
    intro project stored hstored
    change (Table.empty.put "shop" _).get project = some stored at hstored
    rw [Table.get_put] at hstored
    split_ifs at hstored with hproject
    · cases hstored
      rw [hproject]
      decide +kernel
    · cases hstored
  reserved := by decide +kernel

end Wardx.ControlService
