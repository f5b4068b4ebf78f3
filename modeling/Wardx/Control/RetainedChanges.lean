import Wardx.Control.ControlShape
import Wardx.Control.JournalIntegrity

/-!
# Retained changes

The two changes of a journal entry come from two control states: one is the
difference of the first to the second, the other of the second to the first.
That holds of mutations, which take both differences, and of rollbacks, which
swap them; and every stored row has a shaped control state.
-/
namespace Wardx.ControlService

open Lib Json Control ControlStateChange

/-! ## Shapes of edits -/

theorem shaped_editChild {state : Json} (h : Shaped state) {key : String} (hkey : key ∈ partNames)
    (edit : Fields → Fields) : Shaped (editChild key edit state) := by
  obtain ⟨top, rfl⟩ := h.fields
  exact h.setPart hkey rfl

/-- The catalog of a shaped state, field by field. -/
theorem shaped_child_catalog {state : Json} (h : Shaped state) :
    ∃ fields events names, child state "catalog" = .obj fields ∧
      CatalogFields fields events names := by
  obtain ⟨catalog, hget, hcatalog⟩ := h.catalog
  obtain ⟨fields, events, names, rfl, hfields⟩ := hcatalog.fields
  refine ⟨fields, events, names, ?_, hfields⟩
  unfold child
  rw [hget]
  rfl

theorem shaped_writeHypothesis {state : Json} (h : Shaped state) (id : String)
    (hypothesis : Option Json) : Shaped (writeHypothesis id hypothesis state) := by
  unfold writeHypothesis
  split
  · exact h
  · obtain ⟨fields, events, names, hchild, hfields⟩ := shaped_child_catalog h
    obtain ⟨top, rfl⟩ := h.fields
    unfold editChild
    rw [hchild]
    refine h.setCatalog ?_
    have hkept : ∀ key, key ≠ "experiments" → ∀ value : Json,
        (setField "experiments" value fields).lookup key = fields.lookup key := by
      intro key hkey value
      rw [lookup_setField, if_neg hkey]
    suffices hset : CatalogFields (setField "experiments" _ fields) events names from
      catalogShaped_of_fields hset
    refine ⟨?_, ?_, ?_, hfields.named⟩
    · rw [hkept _ (by decide)]
      exact hfields.inspectEvents
    · rw [hkept _ (by decide)]
      exact hfields.persistLogs
    · rw [hkept _ (by decide)]
      exact hfields.persistLogsByName

theorem shaped_editCatalog {state : Json} (h : Shaped state) {edit : Fields → Fields}
    (hedit : KeepsEvents edit) : Shaped (editCatalog edit state) := by
  obtain ⟨fields, events, names, hchild, hfields⟩ := shaped_child_catalog h
  obtain ⟨top, rfl⟩ := h.fields
  unfold editCatalog
  rw [hchild]
  refine h.setCatalog ?_
  have hevents : (fieldsOf (catalogWithList (.obj fields))).lookup "inspectEvents" =
      some (.arr events) := by
    rw [get?_fieldsOf, get?_catalogWithList hfields, if_neg (by decide), if_neg (by decide),
      hfields.inspectEvents]
  obtain ⟨after, hafter⟩ := hedit _ events hevents
  exact catalogShaped_byName hafter

/-- An edit of a shaped state that writes objects for roles and rules is shaped. -/
theorem shaped_edited {command : Command} {project : String} {request : Request}
    {record : ProjectRecord} {edited : Json} (h : Shaped (normalize record.stored))
    (hedited : Edited command project request record edited)
    (hroles : (child edited "keyRoles").isObject = true)
    (hrules : (child edited "keyRules").isObject = true) : Shaped edited := by
  cases hedited with
  | upserted => exact shaped_writeHypothesis (shaped_editChild h (by decide) _) _ _
  | toggled => exact shaped_editChild h (by decide) _
  | replaced _ snapshot _ _ experiments hsnapshot =>
      obtain ⟨top, htop⟩ := h.fields
      have hvalues : (child snapshot "values").isObject = true := by
        unfold checkSnapshot at hsnapshot
        simp only [bind_eq_ok_iff, require_eq_ok_iff] at hsnapshot
        obtain ⟨_, _, _, hvalues, _⟩ := hsnapshot
        unfold child
        cases hget : snapshot.get? "values" with
        | none =>
            rw [hget] at hvalues
            cases hvalues
        | some values =>
            rw [hget] at hvalues
            exact hvalues
      have hchild : ∀ key value, (writeSnapshot snapshot experiments (.obj top)).get? key =
          some value → child (writeSnapshot snapshot experiments (.obj top)) key = value := by
        intro key value hget
        unfold child
        rw [hget]
        rfl
      rw [htop] at h hroles hrules ⊢
      have hkeyRoles := hchild "keyRoles" ((snapshot.get? "keyRoles").getD .null) (by
        simp [writeSnapshot, Json.get?, lookup_setField])
      have hkeyRules := hchild "keyRules" (rulesOrNone snapshot) (by
        simp [writeSnapshot, Json.get?, lookup_setField])
      rw [hkeyRoles] at hroles
      rw [hkeyRules] at hrules
      exact (((h.setPart (by decide) hvalues).setPart (by decide) hroles).setPart (by decide)
        hrules).setPart (by decide) rfl
  | shipped => exact shaped_editChild (shaped_editChild h (by decide) _) (by decide) _
  | valueSet _ key value roles rules =>
      have hvalues := shaped_editChild (shaped_editChild h (by decide : "values" ∈ partNames)
        (setField key value)) (by decide : "keyRoles" ∈ partNames) (setField key roles)
      unfold editRules
      split
      · exact hvalues
      · exact shaped_editChild hvalues (by decide) _
      · exact shaped_editChild hvalues (by decide) _
  | valueDeleted =>
      exact shaped_editChild (shaped_editChild (shaped_editChild h (by decide) _) (by decide) _)
        (by decide) _
  | catalogEdited _ _ _ _ edit hedit => exact shaped_editCatalog h hedit

/-- A valid snapshot holds objects. -/
theorem objects_of_snapshot {snapshot : Snapshot} (h : validateConfigSnapshot snapshot = .ok ()) :
    snapshot.values.isObject = true ∧ snapshot.keyRoles.isObject = true ∧
      snapshot.keyRules.isObject = true := by
  unfold validateConfigSnapshot validateKeyRoles validateConfigRules at h
  simp only [bind_eq_ok_iff, require_eq_ok_iff] at h
  obtain ⟨_, hvalues, _, ⟨_, hroles, _⟩, _, ⟨_, hrules, _⟩, _⟩ := h
  exact ⟨hvalues, hroles, hrules⟩

/-! ## Entries -/

/-- The changes of an entry are the differences of two states, one each way. -/
structure OpposedBy (reversible : Reversible) (left right : Json) : Prop where
  left_shaped : Shaped left
  right_shaped : Shaped right
  left_keyed : KeyedState left
  right_keyed : KeyedState right
  forward : reversible.forward.operations = collect left right []
  inverse : reversible.inverse.operations = collect right left []

theorem OpposedBy.swap {reversible : Reversible} {left right : Json}
    (h : OpposedBy reversible left right) :
    OpposedBy ⟨reversible.inverse, reversible.forward⟩ right left :=
  ⟨h.right_shaped, h.left_shaped, h.right_keyed, h.left_keyed, h.inverse, h.forward⟩

/-- A shaped row with entries that keep opposed changes. -/
structure Retains (record : ProjectRecord) : Prop where
  shaped : Shaped (normalize record.stored)
  opposed : ∀ entry ∈ record.journal, ∃ left right, OpposedBy entry.reversible left right

/-- A path leads to what it led to or to what the second state of the difference has. -/
theorem spot_editAll_collect {left right state next : Json}
    (h : editAll (collect left right []) state = some next) (path : List String) :
    spot path next = spot path state ∨ spot path next = spot path right := by
  have hview := congrFun (view_editAll h) path
  by_cases hcovered : ∃ item ∈ collect left right [], item.path <+: path
  · obtain ⟨item, hitem, rest, rfl⟩ := hcovered
    right
    have hwritten : item.write.Holds (writeAll ((collect left right []).map Operation.write)
        state.view) := writeAll_holds (apart_collect left right) (List.mem_map_of_mem hitem)
    exact (hview.trans (hwritten rest)).trans (holds_of_mem_collect left right item hitem rest).symm
  · left
    refine hview.trans (writeAll_elsewhere fun write hwrite hprefix => ?_)
    obtain ⟨item, hitem, rfl⟩ := List.mem_map.mp hwrite
    exact hcovered ⟨item, hitem, hprefix⟩

section
variable {settings : ControlSettings} {server : Server} {project : String}
  {record after : ProjectRecord} {edited next : Json} {entry : Entry}

/-- Two states agree and one is shaped: what a mutation reached is shaped as its
edit, and its entry keeps the differences of the row and the edit. -/
theorem opposed_of_mutated {command : Command} {request : Request} {result : MutationResult}
    (hok : RecordOk record) (h : Shaped (normalize record.stored))
    (hedited : Edited command project request record edited)
    (hcommitted : Committed settings server project request record edited next entry result)
    (hafter : Appended settings.js settings.journalCapacity record after next entry) :
    OpposedBy entry.reversible (normalize record.stored) edited := by
  have hagree : Agree next edited := hcommitted.patched.agree
  obtain ⟨_, hroles, hrules⟩ := objects_of_snapshot hafter.snapshot
  change (child next "keyRoles").isObject = true at hroles
  change (child next "keyRules").isObject = true at hrules
  rw [(agree_child hagree "keyRoles").isObject] at hroles
  rw [(agree_child hagree "keyRules").isObject] at hrules
  have hforward := (diffControlState_eq_ok_iff _ _ _).mp hcommitted.forward
  have hinverse := (diffControlState_eq_ok_iff _ _ _).mp hcommitted.inverse
  refine ⟨h, shaped_edited h hedited hroles hrules, (stateWith_normalize hok).keyedState,
    hedited.keyedState hok, ?_, ?_⟩
  · rw [hforward.2.2.2.2]
  · rw [hinverse.2.2.2.2]

/-- A row stored from a shaped state, after an entry with opposed changes. -/
theorem retains_appended (h : Retains record) (hnext : Shaped next)
    (hopposed : ∃ left right, OpposedBy entry.reversible left right)
    (hafter : Appended settings.js settings.journalCapacity record after next entry) :
    Retains after := by
  refine ⟨?_, ?_⟩
  · rw [hafter.stored]
    exact hnext.of_agree (agree_normalize_denormalize hnext hafter.keyed _).symm
  · intro kept hkept
    rw [hafter.eq] at hkept
    rcases List.mem_append.mp (mem_retained hkept) with hold | hnew
    · exact h.opposed kept hold
    · rw [List.mem_singleton.mp hnew]
      exact hopposed

end

/-- Every row retains opposed changes, and what is served mirrors the rows. -/
structure AllRetain (server : Server) : Prop where
  ok : ServerOk server
  mirrored : Mirrored server
  records : ∀ project record, server.records.get project = some record → Retains record

theorem allRetain_of_publishes {settings : ControlSettings} {server last : Server} {project : String}
    {record after : ProjectRecord} {next : Json} {entry : Entry} (hok : ServerOk last)
    (hmirrored : Mirrored last)
    (h : ∀ p r, server.records.get p = some r → Retains r)
    (hpublishes : Publishes settings server project record after next entry last)
    (hafter : Retains after) : AllRetain last := by
  refine ⟨hok, hmirrored, fun p r hr => ?_⟩
  rw [hpublishes.records, Table.get_put] at hr
  split_ifs at hr
  · cases hr
    exact hafter
  · exact h p r hr

/-- What a command publishes has a shaped control state, and its entry keeps
opposed changes. -/
theorem step_publishes (settings : ControlSettings) {server : Server} (h : AllRetain server) (command : Command) :
    SamePublished server (step settings command server) ∨
      ∃ project record after next entry,
        Publishes settings server project record after next entry (step settings command server) ∧
        Shaped next ∧ ∃ left right, OpposedBy entry.reversible left right := by
  have hperformed := perform_performed settings h.ok h.mirrored command
  rw [step_eq_perform]
  generalize perform settings command server = outcome at hperformed ⊢
  cases hperformed with
  | stopped _ _ hunchanged => exact Or.inl hunchanged
  | kept _ hunchanged => exact Or.inl hunchanged
  | mutated project request record after edited next entry result last hedited hcommitted hpublishes =>
      have hrecord := h.records project record hpublishes.found
      have hopposed := opposed_of_mutated (h.ok.record project record hpublishes.found)
        hrecord.shaped hedited hcommitted hpublishes.appended
      have hnext : Shaped next := hopposed.right_shaped.of_agree hcommitted.patched.agree.symm
      exact Or.inr ⟨project, record, after, next, entry, hpublishes, hnext, _, _, hopposed⟩
  | rolledBack project changeId request record after target next entry result last hcommand htarget
      hedits hreversible _ hpublishes =>
      have hrecord := h.records project record hpublishes.found
      obtain ⟨left, right, hopposed⟩ := hrecord.opposed target (mem_of_findChange htarget)
      rw [hopposed.inverse] at hedits
      have hnext : Shaped next :=
        hrecord.shaped.mixed hopposed.left_shaped (spot_editAll_collect hedits)
      refine Or.inr ⟨project, record, after, next, entry, hpublishes, hnext, right, left, ?_⟩
      rw [hreversible]
      exact hopposed.swap

theorem allRetain_step (settings : ControlSettings) {server : Server} (h : AllRetain server)
    (command : Command) : AllRetain (step settings command server) := by
  have hok := step_serverOk settings h.ok command
  have hmirrored : Mirrored (step settings command server) := mirrored_step h.ok h.mirrored command
  rcases step_publishes settings h command with
    hsame | ⟨project, record, after, next, entry, hpublishes, hnext, hopposed⟩
  · refine ⟨hok, hmirrored, ?_⟩
    rw [hsame.records]
    exact h.records
  · exact allRetain_of_publishes hok hmirrored h.records hpublishes
      (retains_appended (h.records project record hpublishes.found) hnext hopposed
        hpublishes.appended)

theorem allRetain_restart {server : Server} (h : AllRetain server) : AllRetain (restart server) :=
  ⟨serverOk_restart h.ok, mirrored_restart server, h.records⟩

theorem allRetain_boot (config : Config) : AllRetain (boot config) := by
  refine ⟨serverOk_boot config, mirrored_boot config, fun project record hrecord => ?_⟩
  rw [boot, Table.get_mapValues] at hrecord
  obtain ⟨stored, hstored, rfl⟩ := Option.map_eq_some_iff.mp hrecord
  obtain ⟨hvalues, hroles, hrules⟩ := objects_of_snapshot (config.valid project stored hstored)
  exact ⟨shaped_normalize hvalues hroles hrules, by simp⟩

theorem allRetain_run (settings : ControlSettings) (config : Config) (commands : List Command) :
    AllRetain (run (step settings) (boot config) commands) :=
  run_invariant_all AllRetain (fun _ command h => allRetain_step settings h command)
    (allRetain_boot config) commands

end Wardx.ControlService
