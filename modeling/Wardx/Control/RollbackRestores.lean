import Wardx.Control.ExperimentOrder
import Wardx.Control.RetainedChanges
import Wardx.Control.TerminalDecisions

/-!
# What a rollback restores

A mutation and the rollback of its entry run the entry's two changes one after
the other. The second undoes the first where the state had what it writes: for
the entry of a mutation it did, for the entry of a rollback only while the
change that was rolled back was still in effect. The experiments come back in
their order when those the mutation removed were the last ones.
-/
namespace Wardx.ControlService

open Lib Json Control ControlStateChange

/-! ## Rows that serve the same -/

/-- A row serves what another does, two versions later. -/
structure Restores (before after : StoredProject) : Prop where
  version : after.version = before.version + 2
  values : Agree (materialize (normalize after)).1.values (materialize (normalize before)).1.values
  keyRoles : Agree (materialize (normalize after)).1.keyRoles
    (materialize (normalize before)).1.keyRoles
  keyRules : Agree (materialize (normalize after)).1.keyRules
    (materialize (normalize before)).1.keyRules
  experiments : List.Forall₂ Agree (materialize (normalize after)).1.experiments
    (materialize (normalize before)).1.experiments
  catalog : Agree (materialize (normalize after)).2 (materialize (normalize before)).2

/-- The catalog of a shaped row, its names once each. -/
theorem catalogFields_normalize {stored : StoredProject} (h : Shaped (normalize stored)) :
    ∃ fields events names, child (normalize stored) "catalog" = .obj fields ∧
      CatalogFields fields events names ∧ (names.map Prod.fst).Nodup := by
  obtain ⟨fields, events, names, hchild, hfields⟩ := shaped_child_catalog h
  refine ⟨fields, events, names, hchild, hfields, ?_⟩
  have hnames : (child (normalize stored) "catalog").get? "persistLogsByName" =
      some (.obj (nameFields (items ((setField "inspectEvents"
        (.arr (items (stored.catalog.get? "inspectEvents"))) (fieldsOf stored.catalog)).lookup
          "persistLogs")))) := by
    have hget := lookup_catalogByName (setField "inspectEvents"
      (.arr (items (stored.catalog.get? "inspectEvents"))) (fieldsOf stored.catalog))
      "persistLogsByName"
    rw [if_neg (by decide), if_pos rfl] at hget
    exact hget
  rw [hchild, Json.get?, hfields.persistLogsByName] at hnames
  cases hnames
  exact nodup_nameFields _

theorem agree_served_catalog_iff {before after : StoredProject} (hbefore : Shaped (normalize before))
    (hafter : Shaped (normalize after)) :
    Agree (materialize (normalize after)).2 (materialize (normalize before)).2 ↔
      Agree (child (normalize after) "catalog") (child (normalize before) "catalog") := by
  obtain ⟨fields, events, names, hchild, hfields, hnodup⟩ := catalogFields_normalize hbefore
  obtain ⟨fields', events', names', hchild', hfields', hnodup'⟩ := catalogFields_normalize hafter
  show Agree (catalogWithList (child (normalize after) "catalog"))
    (catalogWithList (child (normalize before) "catalog")) ↔ _
  rw [hchild, hchild']
  exact agree_catalogWithList_iff hfields' hfields hnodup' hnodup

/-- Rows serve the same when their control states agree and list the same ids. -/
theorem restores_iff {before after : StoredProject} (hbefore : Shaped (normalize before))
    (hafter : Shaped (normalize after)) (hkeyed : Keyed (byId before.experiments))
    (hkeyed' : Keyed (byId after.experiments)) :
    Restores before after ↔ after.version = before.version + 2 ∧
      Agree (normalize after) (normalize before) ∧ experimentIds after = experimentIds before := by
  have hexperiments : List.Forall₂ Agree (materialize (normalize after)).1.experiments
      (materialize (normalize before)).1.experiments ↔ experimentIds after = experimentIds before ∧
        ∀ id, Option.Rel Agree ((byId after.experiments).lookup id)
          ((byId before.experiments).lookup id) :=
    forall₂_agree_iff hkeyed' hkeyed
  have hcatalog := agree_served_catalog_iff hbefore hafter
  constructor
  · intro h
    obtain ⟨hids, hlookup⟩ := hexperiments.mp h.experiments
    refine ⟨h.version, agree_obj fun key => ?_, hids⟩
    apply agreeField_cons h.values
    apply agreeField_cons h.keyRoles
    apply agreeField_cons h.keyRules
    apply agreeField_cons (agree_obj hlookup)
    apply agreeField_cons (hcatalog.mp h.catalog)
    exact Option.Rel.none
  · rintro ⟨hversion, hagree, hids⟩
    refine ⟨hversion, agree_child hagree "values", agree_child hagree "keyRoles",
      agree_child hagree "keyRules", hexperiments.mpr ⟨hids, ?_⟩,
      hcatalog.mpr (agree_child hagree "catalog")⟩
    exact agree_experimentsById hagree

theorem Restores.experimentIds {before after : StoredProject} (h : Restores before after)
    (hkeyed : Keyed (byId before.experiments)) (hkeyed' : Keyed (byId after.experiments)) :
    experimentIds after = experimentIds before :=
  ((forall₂_agree_iff hkeyed' hkeyed).mp h.experiments).1

/-- Values that are no objects come back as they were. -/
theorem Restores.value {before after : StoredProject} (h : Restores before after) {key : String}
    (hplain : ∀ value, after.values.get? key = some value → value.isObject = false) :
    after.values.get? key = before.values.get? key :=
  agreeField_eq_of_plain (h.values.get? key) hplain

/-! ## Undoing a change -/

/-- The state has what the change would write. -/
def InEffect (change : Change) (state : Json) : Prop :=
  ∀ item ∈ change.operations, item.write.Holds state.view

/-- Of the experiments whose ids are no array indices, those the change removed
were the last, in sorted order. -/
def OrderKept (before middle : StoredProject) : Prop :=
  ∀ i j, [i, j].Sublist (experimentIds before) → arrayIndex i = none → arrayIndex j = none →
    i ∉ experimentIds middle → j ∉ experimentIds middle ∧ utf16Le i j

theorem holds_iff_of_agree {item : Operation} {a b : Json} (h : Agree a b) :
    item.write.Holds a.view ↔ item.write.Holds b.view := by
  rw [(agree_iff_view a b).mp h]

section
variable {js : Js} {capacity : ℕ} {record middle last : ProjectRecord} {next back left right : Json}
  {entry undo : Entry}

/-- A change and its reverse leave what was there exactly when that is what the
reverse writes. -/
theorem agree_undone_iff {reversible : Reversible} {before between : Json}
    (hopposed : OpposedBy reversible left right)
    (hnext : editAll reversible.forward.operations before = some next) (hbetween : Agree between next)
    (hback : editAll reversible.inverse.operations between = some back) :
    Agree back before ↔ InEffect reversible.inverse before := by
  have hviews : back.view = writeAll (reversible.inverse.operations.map Operation.write)
      (writeAll (reversible.forward.operations.map Operation.write) before.view) := by
    rw [view_editAll hback, (agree_iff_view between next).mp hbetween, view_editAll hnext]
  have hpaths : ∀ write ∈ reversible.forward.operations.map Operation.write,
      ∃ other ∈ reversible.inverse.operations.map Operation.write, other.path = write.path := by
    intro write hwrite
    obtain ⟨item, hitem, rfl⟩ := List.mem_map.mp hwrite
    rw [hopposed.forward] at hitem
    obtain ⟨other, hother, hpath⟩ := exists_path_collect_swap left right item hitem
    rw [hopposed.inverse]
    exact ⟨other.write, List.mem_map_of_mem hother, hpath⟩
  have hapart : Apart (reversible.inverse.operations.map Operation.write) := by
    rw [hopposed.inverse]
    exact apart_collect right left
  rw [agree_iff_view, hviews, writeAll_undo hapart hpaths]
  exact List.forall_mem_map

/-- The moves of an entry's two changes, from the ids of its two states. -/
theorem OpposedBy.moves {reversible : Reversible} (h : OpposedBy reversible left right) :
    idMoves reversible.forward.operations =
        (unionKeys (experimentsById left) (experimentsById right)).filterMap
          (moveOf (experimentsById left) (experimentsById right)) ∧
      idMoves reversible.inverse.operations =
        (unionKeys (experimentsById right) (experimentsById left)).filterMap
          (moveOf (experimentsById right) (experimentsById left)) := by
  obtain ⟨xs, hleft⟩ := h.left_keyed
  obtain ⟨ys, hright⟩ := h.right_keyed
  rw [h.forward, h.inverse, hleft.experimentsById, hright.experimentsById]
  exact ⟨idMoves_collect hleft hright, idMoves_collect hright hleft⟩

/-- What a change's reverse sets is there before the change, what it deletes is not. -/
theorem ids_of_inEffect {change : Change} {stored : StoredProject}
    (h : InEffect change (normalize stored)) :
    (∀ id ∈ Lib.left (idMoves change.operations), id ∉ experimentIds stored) ∧
      ∀ id ∈ entered (idMoves change.operations), id ∈ experimentIds stored := by
  have hspot : ∀ id, spot ["experimentsById", id] (normalize stored) =
      spot [id] (.obj (byId stored.experiments)) := fun id =>
    spot_cons_of_some (show (normalize stored).get? "experimentsById" = some _ from rfl) [id]
  constructor
  · intro id hid hmem
    have hmissing := h _ (mem_left_idMoves hid) []
    change spot ["experimentsById", id] (normalize stored) = .missing at hmissing
    obtain ⟨value, hvalue⟩ := Option.isSome_iff_exists.mp ((isSome_lookup id _).mpr hmem)
    have hget : (Json.obj (byId stored.experiments)).get? id = some value := hvalue
    rw [hspot, spot_cons_of_some hget] at hmissing
    exact spot_nil_ne_missing value hmissing
  · intro id hid
    obtain ⟨value, hitem⟩ := mem_entered_idMoves hid
    have hfound := h _ hitem []
    change spot ["experimentsById", id] (normalize stored) = spot [] value at hfound
    by_contra habsent
    have hget : (Json.obj (byId stored.experiments)).get? id = none := by
      show (byId stored.experiments).lookup id = none
      rw [← Option.not_isSome_iff_eq_none, isSome_lookup]
      exact habsent
    rw [hspot, spot_cons_of_none hget] at hfound
    exact spot_nil_ne_missing value hfound.symm

theorem orderKept_iff_rank {before between : StoredProject}
    (hkeyed : Keyed (byId before.experiments)) :
    OrderKept before between ↔ ∀ i j, [i, j].Sublist (experimentIds before) →
      enumerationRank i = enumerationRank j → i ∉ experimentIds between →
        j ∉ experimentIds between ∧ utf16Le i j := by
  constructor
  · intro h i j hij hrank
    have hne : i ≠ j := by
      have hnodup := hkeyed.nodup.sublist hij
      exact fun heq => (List.nodup_cons.mp hnodup).1 (List.mem_singleton.mpr heq)
    obtain ⟨hi, hj⟩ := text_of_same_rank hrank hne
    exact h i j hij hi hj
  · intro h i j hij hi hj
    apply h i j hij
    unfold enumerationRank
    rw [hi, hj]

/-- The ids come back in their order exactly when those that left were the last. -/
theorem experimentIds_undone_iff {reversible : Reversible} (hopposed : OpposedBy reversible left right)
    {before between after : StoredProject} (hkeyed : Keyed (byId before.experiments))
    (hbetween : experimentIds between =
      moveAll enumerationRank (idMoves reversible.forward.operations) (experimentIds before))
    (hafter : experimentIds after =
      moveAll enumerationRank (idMoves reversible.inverse.operations) (experimentIds between))
    (heffect : InEffect reversible.inverse (normalize before)) :
    experimentIds after = experimentIds before ↔ OrderKept before between := by
  obtain ⟨hforward, hinverse⟩ := hopposed.moves
  obtain ⟨hgone, hthere⟩ := ids_of_inEffect heffect
  rw [hinverse] at hgone hthere
  rw [orderKept_iff_rank hkeyed, hafter, hbetween, hforward, hinverse]
  refine moveBack_moveOf_iff (ordered_byId before.experiments) hkeyed.nodup ?_ ?_
  · exact fun id hleft hright => hgone id (mem_left_moveOf.mpr ⟨hright, hleft⟩)
  · exact fun id hleft hright => hthere id (mem_entered_moveOf.mpr ⟨hright, hleft⟩)

/-- A row, its entry run on it, and the entry's inverse run on that. -/
theorem restores_undone_iff (hok : RecordOk record) (hshaped : Shaped (normalize record.stored))
    (hopposed : OpposedBy entry.reversible left right)
    (hnext : editAll entry.reversible.forward.operations (normalize record.stored) = some next)
    (hmiddle : Appended js capacity record middle next entry)
    (hforward : ∀ item ∈ entry.reversible.forward.operations, OpKeyed item)
    (hback : editAll entry.reversible.inverse.operations (normalize middle.stored) = some back)
    (hlast : Appended js capacity middle last back undo)
    (hinverse : ∀ item ∈ entry.reversible.inverse.operations, OpKeyed item) :
    Restores record.stored last.stored ↔ InEffect entry.reversible.inverse (normalize record.stored) ∧
      OrderKept record.stored middle.stored := by
  have hnextShaped : Shaped next :=
    hshaped.mixed hopposed.right_shaped (spot_editAll_collect (hopposed.forward ▸ hnext))
  have hbetween : Agree (normalize middle.stored) next := by
    rw [hmiddle.stored]
    exact agree_normalize_denormalize hnextShaped hmiddle.keyed _
  have hmiddleShaped : Shaped (normalize middle.stored) := hnextShaped.of_agree hbetween.symm
  have hbackShaped : Shaped back :=
    hmiddleShaped.mixed hopposed.left_shaped (spot_editAll_collect (hopposed.inverse ▸ hback))
  have hagree : Agree (normalize last.stored) back := by
    rw [hlast.stored]
    exact agree_normalize_denormalize hbackShaped hlast.keyed _
  have hlastShaped : Shaped (normalize last.stored) := hbackShaped.of_agree hagree.symm
  have hversion : last.stored.version = record.stored.version + 2 := by
    have hfirst := congrArg StoredProject.version hmiddle.stored
    have hsecond := congrArg StoredProject.version hlast.stored
    change middle.stored.version = record.stored.version + 1 at hfirst
    change last.stored.version = middle.stored.version + 1 at hsecond
    omega
  have hids : experimentIds middle.stored =
      moveAll enumerationRank (idMoves entry.reversible.forward.operations)
        (experimentIds record.stored) := by
    have hordered := ordered_editAll hok.keyedState hforward (ordered_byId _) hnext
    rw [hmiddle.stored, experimentIds_denormalize hmiddle.keyed hordered]
    exact keys_editAll hok.keyedState hforward hnext
  have hids' : experimentIds last.stored =
      moveAll enumerationRank (idMoves entry.reversible.inverse.operations)
        (experimentIds middle.stored) := by
    have hstate := hmiddle.ok.keyedState
    have hordered := ordered_editAll hstate hinverse (ordered_byId _) hback
    rw [hlast.stored, experimentIds_denormalize hlast.keyed hordered]
    exact keys_editAll hstate hinverse hback
  have hmaps : Agree (normalize last.stored) (normalize record.stored) ↔
      InEffect entry.reversible.inverse (normalize record.stored) := by
    rw [← agree_undone_iff hopposed hnext hbetween hback]
    exact ⟨fun h => hagree.symm.trans h, fun h => hagree.trans h⟩
  rw [restores_iff hshaped hlastShaped hok.keyed hlast.ok.keyed, hmaps]
  constructor
  · rintro ⟨_, heffect, hsame⟩
    exact ⟨heffect, (experimentIds_undone_iff hopposed hok.keyed hids hids' heffect).mp hsame⟩
  · rintro ⟨heffect, hkept⟩
    exact ⟨hversion, heffect,
      (experimentIds_undone_iff hopposed hok.keyed hids hids' heffect).mpr hkept⟩

/-- The newest entry is retained and found by its id. -/
theorem findChange_newest (hcapacity : 1 ≤ capacity)
    (hfresh : ∀ e ∈ retained capacity record.journal, e.id ≠ entry.id) :
    findChange capacity (appended capacity record next entry) entry.id = some entry := by
  have hmem : ∀ e ∈ retained capacity (record.journal ++ [entry]),
      e = entry ∨ e ∈ retained capacity record.journal := by
    intro e he
    unfold retained at he ⊢
    rw [List.length_append, List.length_singleton, List.drop_append, List.mem_append] at he
    rcases he with hold | hnew
    · right
      have hdrop : List.drop (record.journal.length + 1 - capacity) record.journal =
          List.drop (record.journal.length + 1 - capacity - (record.journal.length - capacity))
            (List.drop (record.journal.length - capacity) record.journal) := by
        rw [List.drop_drop]
        congr 1
        omega
      rw [hdrop] at hold
      exact List.mem_of_mem_drop hold
    · exact Or.inl (List.mem_singleton.mp (List.mem_of_mem_drop hnew))
  have hentry : entry ∈ retained capacity (retained capacity (record.journal ++ [entry])) := by
    have hlast : ∀ entries : List Entry, entry ∈ retained capacity (entries ++ [entry]) := by
      intro entries
      unfold retained
      rw [List.length_append, List.length_singleton, List.drop_append_of_le_length (by omega)]
      exact List.mem_append_right _ List.mem_cons_self
    have hagain : retained capacity (retained capacity (record.journal ++ [entry])) =
        retained capacity (record.journal ++ [entry]) := by
      have hlength := length_retained capacity (record.journal ++ [entry])
      rw [retained, hlength, Nat.sub_eq_zero_of_le (Nat.min_le_right _ _), List.drop_zero]
    rw [hagain]
    exact hlast record.journal
  have hsome : (findChange capacity (appended capacity record next entry) entry.id).isSome = true :=
    List.find?_isSome.mpr ⟨entry, hentry, decide_eq_true rfl⟩
  obtain ⟨found, hfound⟩ := Option.isSome_iff_exists.mp hsome
  have hid : found.id = entry.id := by
    have htrue := List.find?_some hfound
    exact of_decide_eq_true htrue
  rcases hmem found (mem_of_findChange hfound) with heq | hold
  · rw [hfound, heq]
  · exact absurd hid (hfresh found hold)

end

/-! ## Rolling a mutation back -/

/-- A mutation is no rollback, or rolls back a change that is still in effect. -/
def UndoesEffect (settings : ControlSettings) (command : Command) (record : ProjectRecord) : Prop :=
  ∀ project changeId request target, command = .rollbackConfigChange project changeId request →
    findChange settings.journalCapacity record changeId = some target →
    InEffect target.reversible.forward (normalize record.stored)

section
variable {settings : ControlSettings} {server middle : Server} {command : Command}

/-- What the rollback of a mutation needs to know of it. -/
structure Undoable (settings : ControlSettings) (server middle : Server) (command : Command)
    (project : String) (record between : ProjectRecord) (next : Json) (entry : Entry) : Prop where
  publishes : Publishes settings server project record between next entry middle
  fresh : ∀ e ∈ retained settings.journalCapacity record.journal, e.id ≠ entry.id
  edits : editAll entry.reversible.forward.operations (normalize record.stored) = some next
  opposed : ∃ left right, OpposedBy entry.reversible left right
  effect : InEffect entry.reversible.inverse (normalize record.stored) ↔
    UndoesEffect settings command record

theorem undoable_of_performed (h : AllRetain server) {project : String} {request : Request}
    {result : MutationResult} (htarget : command.target = some (project, request))
    (hperformed : Performed settings server command (.ok (some result), middle)) :
    ∃ record between next entry, result.changeId = entry.id ∧
      Undoable settings server middle command project record between next entry := by
  cases hperformed with
  | mutated p r record after edited next entry _ _ hedited hcommitted hpublishes =>
      cases htarget.symm.trans hedited.target
      have hrecord := h.records project record hpublishes.found
      have hopposed := opposed_of_mutated (h.ok.record project record hpublishes.found)
        hrecord.shaped hedited hcommitted hpublishes.appended
      refine ⟨record, after, next, entry, hcommitted.transacted.changeId, hpublishes,
        hcommitted.transacted.fresh, hcommitted.edits, ⟨_, _, hopposed⟩, ?_⟩
      have hinverse : InEffect entry.reversible.inverse (normalize record.stored) := by
        intro item hitem
        rw [hopposed.inverse] at hitem
        exact holds_of_mem_collect edited (normalize record.stored) item hitem
      have hvacuous : UndoesEffect settings command record := by
        intro p changeId r target hcommand _
        rw [hcommand] at hedited
        cases hedited
      exact ⟨fun _ => hvacuous, fun _ => hinverse⟩
  | rolledBack p changeId r record after target next entry _ _ hcommand hfound hedits hreversible
      htransacted hpublishes =>
      rw [hcommand] at htarget
      cases htarget
      have hrecord := h.records project record hpublishes.found
      obtain ⟨left, right, hopposed⟩ := hrecord.opposed target (mem_of_findChange hfound)
      refine ⟨record, after, next, entry, htransacted.changeId, hpublishes, htransacted.fresh, ?_,
        ⟨right, left, ?_⟩, ?_⟩
      · rw [hreversible]
        exact hedits
      · rw [hreversible]
        exact hopposed.swap
      · rw [hreversible]
        constructor
        · intro heffect p' changeId' r' target' hcommand' hfound'
          cases hcommand.symm.trans hcommand'
          cases hfound.symm.trans hfound'
          exact heffect
        · exact fun heffect => heffect project changeId request target hcommand hfound

end

/-- In every state a run of calls reaches, of every mutation and the rollback of
its change right after it: the row materializes to what it did, at the version
two on, exactly when the mutation was no rollback or rolled back a change that
was still in effect, and of the experiments with ids in order of arrival the
mutation removed only the last ones, in sorted order. -/
theorem rollback_restores_iff (settings : ControlSettings) (config : Config)
    (commands : List Command) (command : Command) (project : String) (request undo : Request)
    (result undone : MutationResult) (middle last : Server)
    (hcommand : command.target = some (project, request))
    (hmutation : perform settings command (run (step settings) (boot config) commands) =
      (.ok (some result), middle))
    (hrollback : perform settings (.rollbackConfigChange project result.changeId undo) middle =
      (.ok (some undone), last)) :
    ∃ before between after,
      (run (step settings) (boot config) commands).records.get project = some before ∧
      middle.records.get project = some between ∧ last.records.get project = some after ∧
      last.served.get project = some (servedOf after.stored) ∧
      (Restores before.stored after.stored ↔
        UndoesEffect settings command before ∧ OrderKept before.stored between.stored) := by
  have hretain := allRetain_run settings config commands
  generalize run (step settings) (boot config) commands = server at hretain hmutation ⊢
  have hmiddle : AllRetain middle := by
    have hstep := allRetain_step settings hretain command
    rw [step_eq_perform, hmutation] at hstep
    exact hstep
  have hfirst := perform_performed settings hretain.ok hretain.mirrored command
  rw [hmutation] at hfirst
  obtain ⟨before, between, next, entry, hid, hundoable⟩ :=
    undoable_of_performed hretain hcommand hfirst
  have hsecond := perform_performed settings hmiddle.ok hmiddle.mirrored
    (.rollbackConfigChange project result.changeId undo)
  rw [hrollback] at hsecond
  have hpublishes := hundoable.publishes
  have hbetween : middle.records.get project = some between := by
    rw [hpublishes.records]
    exact Table.get_put_self _ _ _
  have hnewest : findChange settings.journalCapacity between result.changeId = some entry := by
    rw [hid, hpublishes.appended.eq]
    exact findChange_newest settings.journalCapacity_pos hundoable.fresh
  cases hsecond with
  | mutated p r record after edited next' entry' _ _ hedited => cases hedited
  | rolledBack p changeId r record after target back entry' _ _ hcall hfound hedits _ _ hlast =>
      cases hcall
      cases hbetween.symm.trans hlast.found
      cases hnewest.symm.trans hfound
      obtain ⟨left, right, hopposed⟩ := hundoable.opposed
      have hok := hretain.ok.record project before hpublishes.found
      have hokBetween := hmiddle.ok.record project between hbetween
      have hentry := mem_of_findChange hnewest
      refine ⟨before, between, after, hpublishes.found, hbetween, ?_, ?_, ?_⟩
      · rw [hlast.records]
        exact Table.get_put_self _ _ _
      · rw [hlast.served]
        exact Table.get_put_self _ _ _
      · rw [← hundoable.effect]
        exact restores_undone_iff hok (hretain.records project before hpublishes.found).shaped
          hopposed hundoable.edits hpublishes.appended (hokBetween.forward entry hentry) hedits
          hlast.appended (hokBetween.inverse entry hentry)

/-- A value set and the change rolled back. -/
theorem rollback_restores_setValue :
    ∃ before after, (boot sampleConfig).records.get "shop" = some before ∧
      (run (step sampleSettings) (boot sampleConfig)
        [.setValue "shop" "color" (.str "b") (.arr [.str "*"]) none (requestAt 1 "c1"),
          .rollbackConfigChange "shop" "c1" (requestAt 2 "c2")]).records.get "shop" = some after ∧
      Restores before.stored after.stored := by
  let change : Command := .setValue "shop" "color" (.str "b") (.arr [.str "*"]) none (requestAt 1 "c1")
  let back : Command := .rollbackConfigChange "shop" "c1" (requestAt 2 "c2")
  have hchange : (perform sampleSettings change (boot sampleConfig)).1 =
      .ok (some ⟨2, "c1", none⟩) := by decide +kernel
  have hback : (perform sampleSettings back (perform sampleSettings change (boot sampleConfig)).2).1 =
      .ok (some ⟨3, "c2", some "c1"⟩) := by decide +kernel
  have hlast : run (step sampleSettings) (boot sampleConfig) [change, back] =
      (perform sampleSettings back (perform sampleSettings change (boot sampleConfig)).2).2 := by
    show step sampleSettings back (step sampleSettings change (boot sampleConfig)) = _
    rw [step_eq_perform, step_eq_perform]
  have hids : ((boot sampleConfig).records.get "shop").map (fun r => experimentIds r.stored) =
      some ["exp"] := by decide +kernel
  obtain ⟨before, between, after, hbefore, _, hafter, _, hiff⟩ := rollback_restores_iff
    sampleSettings sampleConfig [] change "shop" (requestAt 1 "c1") (requestAt 2 "c2")
    ⟨2, "c1", none⟩ ⟨3, "c2", some "c1"⟩ _ _ rfl (Prod.ext hchange rfl) (Prod.ext hback rfl)
  change (boot sampleConfig).records.get "shop" = some before at hbefore
  refine ⟨before, after, hbefore, ?_, hiff.mpr ⟨?_, ?_⟩⟩
  · rw [hlast]
    exact hafter
  · intro project changeId request target hcommand _
    exact Command.noConfusion hcommand
  · -- There is one experiment, so no two in order.
    intro i j hij
    rw [hbefore, Option.map_some] at hids
    rw [Option.some.inj hids] at hij
    have hlength : 2 ≤ 1 := hij.length_le
    omega

/-- Two experiments of one project. -/
def pairConfig : Config :=
  configOf (sampleProject [sampleExperiment "first" true 1 ["a", "b"],
    sampleExperiment "second" true 1 ["a", "b"]]) (by decide +kernel)

/-- The snapshot without the first of them. -/
def secondSnapshot : Json :=
  .obj [("values", .obj [("color", .str "a")]), ("keyRoles", .obj [("color", .arr [.str "*"])]),
    ("keyRules", .obj []), ("experiments", .arr [sampleExperiment "second" true 1 ["a", "b"]])]

/-- Of two experiments the first, removed and brought back, is served last. And
a rollback of the older of two changes of a value, rolled back itself, leaves
the older change's value. -/
theorem rollback_does_not_restore :
    (let removal : Command := .replaceSnapshot "shop" secondSnapshot (requestAt 1 "c1")
      let back : Command := .rollbackConfigChange "shop" "c1" (requestAt 2 "c2")
      let removed := perform sampleSettings removal (boot pairConfig)
      removed.1 = .ok (some ⟨2, "c1", none⟩) ∧
        (perform sampleSettings back removed.2).1 = .ok (some ⟨3, "c2", some "c1"⟩) ∧
        ∃ before after, (boot pairConfig).records.get "shop" = some before ∧
          (run (step sampleSettings) (boot pairConfig) [removal, back]).records.get "shop" =
            some after ∧
          ¬ Restores before.stored after.stored) ∧
      let changes : List Command :=
        [.setValue "shop" "color" (.str "b") (.arr [.str "*"]) none (requestAt 1 "c1"),
          .setValue "shop" "color" (.str "c") (.arr [.str "*"]) none (requestAt 2 "c2")]
      let older : Command := .rollbackConfigChange "shop" "c1" (requestAt 3 "c3")
      let back : Command := .rollbackConfigChange "shop" "c3" (requestAt 4 "c4")
      let changed := run (step sampleSettings) (boot pairConfig) changes
      let rolled := perform sampleSettings older changed
      rolled.1 = .ok (some ⟨4, "c3", some "c1"⟩) ∧
        (perform sampleSettings back rolled.2).1 = .ok (some ⟨5, "c4", some "c3"⟩) ∧
        ∃ before after, changed.records.get "shop" = some before ∧
          (run (step sampleSettings) (boot pairConfig) (changes ++ [older, back])).records.get
            "shop" = some after ∧
          ¬ Restores before.stored after.stored := by
  refine ⟨⟨by decide +kernel, by decide +kernel, ?_⟩, by decide +kernel, by decide +kernel, ?_⟩
  · have hbefore : ((boot pairConfig).records.get "shop").map (fun r => experimentIds r.stored) =
        some ["first", "second"] := by decide +kernel
    have hafter : ((run (step sampleSettings) (boot pairConfig)
        [.replaceSnapshot "shop" secondSnapshot (requestAt 1 "c1"),
          .rollbackConfigChange "shop" "c1" (requestAt 2 "c2")]).records.get "shop").map
            (fun r => experimentIds r.stored) = some ["second", "first"] := by decide +kernel
    obtain ⟨before, hbefore, hids⟩ := Option.map_eq_some_iff.mp hbefore
    obtain ⟨after, hafter, hids'⟩ := Option.map_eq_some_iff.mp hafter
    refine ⟨before, after, hbefore, hafter, fun h => ?_⟩
    have hsame := h.experimentIds
      ((allRetain_run sampleSettings pairConfig []).ok.record "shop" before hbefore).keyed
      ((allRetain_run sampleSettings pairConfig _).ok.record "shop" after hafter).keyed
    rw [hids, hids'] at hsame
    exact absurd hsame (by decide)
  · have hbefore : ((run (step sampleSettings) (boot pairConfig)
        [.setValue "shop" "color" (.str "b") (.arr [.str "*"]) none (requestAt 1 "c1"),
          .setValue "shop" "color" (.str "c") (.arr [.str "*"]) none
            (requestAt 2 "c2")]).records.get "shop").map (fun r => r.stored.values.get? "color") =
        some (some (.str "c")) := by decide +kernel
    have hafter : ((run (step sampleSettings) (boot pairConfig)
        [.setValue "shop" "color" (.str "b") (.arr [.str "*"]) none (requestAt 1 "c1"),
          .setValue "shop" "color" (.str "c") (.arr [.str "*"]) none (requestAt 2 "c2"),
          .rollbackConfigChange "shop" "c1" (requestAt 3 "c3"),
          .rollbackConfigChange "shop" "c3" (requestAt 4 "c4")]).records.get "shop").map
            (fun r => r.stored.values.get? "color") = some (some (.str "b")) := by decide +kernel
    obtain ⟨before, hbefore, hcolor⟩ := Option.map_eq_some_iff.mp hbefore
    obtain ⟨after, hafter, hcolor'⟩ := Option.map_eq_some_iff.mp hafter
    refine ⟨before, after, hbefore, hafter, fun h => ?_⟩
    have hsame := @Restores.value _ _ h "color" fun value hvalue => by
      rw [hcolor'] at hvalue
      cases hvalue
      rfl
    rw [hcolor, hcolor'] at hsame
    exact absurd hsame (by decide)

end Wardx.ControlService
