import Wardx.Control.MutationJournal
import Wardx.Lib.Table

/-!
# Stored experiments

The control state keys experiments by id, and a stored row lists them. Between
the two nothing is lost as long as every key is the id of its value: `Keyed`.
The operations the journal retains keep that, because each came from the
difference of two keyed states: `OpKeyed`. So a retained inverse can run on any
later state and the row it leaves reads back as the state it left.
-/
namespace Wardx.Control

open Lib Json ControlStateChange

/-! ## Experiments by id -/

/-- Every key once, and every value under its own id. -/
structure Keyed (fields : Fields) : Prop where
  nodup : (fields.map Prod.fst).Nodup
  own : ∀ id value, (id, value) ∈ fields → value.get? "id" = some (.str id)

theorem Keyed.nil : Keyed [] := ⟨List.nodup_nil, by simp⟩

theorem Keyed.setField {fields : Fields} (h : Keyed fields) {id : String} {value : Json}
    (hid : value.get? "id" = some (.str id)) : Keyed (setField id value fields) := by
  refine ⟨nodup_setField id value h.nodup, ?_⟩
  intro key v hmem
  rcases mem_setField hmem with heq | hmem
  · cases heq
    exact hid
  · exact h.own key v hmem

theorem Keyed.deleteField {fields : Fields} (h : Keyed fields) (id : String) :
    Keyed (deleteField id fields) :=
  ⟨h.nodup.sublist (List.filter_sublist.map _),
    fun key v hmem => h.own key v (List.mem_of_mem_filter hmem)⟩

theorem Keyed.id_of_lookup {fields : Fields} (h : Keyed fields) {id : String} {value : Json}
    (hlookup : fields.lookup id = some value) : value.get? "id" = some (.str id) :=
  h.own id value ((Table.lookup_eq_some_iff h.nodup id value).mp hlookup)

/-- Experiments with ids are keyed by them. -/
theorem keyed_byId {experiments : List Json}
    (h : ∀ experiment ∈ experiments, nonEmptyText (experiment.get? "id") = true) :
    Keyed (byId experiments) := by
  unfold byId
  have key : ∀ acc : Fields, Keyed acc → Keyed (experiments.foldl (fun fields experiment =>
      setField (propertyKey (experiment.get? "id")) experiment fields) acc) := by
    induction experiments with
    | nil => exact fun acc hacc => hacc
    | cons experiment rest ih =>
        intro acc hacc
        rw [List.forall_mem_cons] at h
        have hid : experiment.get? "id" = some (.str (propertyKey (experiment.get? "id"))) := by
          revert h
          cases experiment.get? "id" with
          | none => simp [nonEmptyText]
          | some value => cases value <;> simp [nonEmptyText, propertyKey, text?]
        exact ih h.2 _ (hacc.setField hid)
  exact key [] Keyed.nil

theorem mem_byId {experiments : List Json} {field : String × Json}
    (h : field ∈ byId experiments) : field.2 ∈ experiments := by
  unfold byId at h
  have key : ∀ acc : Fields, field ∈ experiments.foldl (fun fields experiment =>
      setField (propertyKey (experiment.get? "id")) experiment fields) acc →
      field ∈ acc ∨ field.2 ∈ experiments := by
    clear h
    induction experiments with
    | nil => exact fun acc hmem => Or.inl hmem
    | cons experiment rest ih =>
        intro acc hmem
        rcases ih _ hmem with hacc | hrest
        · rcases mem_setField hacc with rfl | hacc
          · exact Or.inr List.mem_cons_self
          · exact Or.inl hacc
        · exact Or.inr (List.mem_cons_of_mem _ hrest)
  rcases key [] h with hnil | hmem
  · cases hnil
  · exact hmem

/-- Listing keyed experiments and keying the list again only reorders them. -/
theorem byId_perm {fields : Fields} (h : Keyed fields) :
    (byId (fields.map Prod.snd)).Perm fields := by
  unfold byId
  have key : ∀ acc : Fields, ((acc ++ fields).map Prod.fst).Nodup →
      ((fields.map Prod.snd).foldl (fun fields experiment =>
        setField (propertyKey (experiment.get? "id")) experiment fields) acc).Perm
          (acc ++ fields) := by
    have hown := h.own
    clear h
    induction fields with
    | nil =>
        intro acc _
        rw [List.append_nil]
        exact List.Perm.refl _
    | cons field rest ih =>
        intro acc hnodup
        obtain ⟨id, value⟩ := field
        have hid : propertyKey (value.get? "id") = id := by
          rw [hown id value List.mem_cons_self]
          rfl
        have hnew : id ∉ acc.map Prod.fst := by
          rw [List.map_append, List.map_cons] at hnodup
          exact fun hmem => (List.nodup_append.mp hnodup).2.2 id hmem id List.mem_cons_self rfl
        have hperm : (setField id value acc ++ rest).Perm (acc ++ (id, value) :: rest) :=
          ((setField_perm value hnew).append_right rest).trans List.perm_middle.symm
        rw [List.map_cons, List.foldl_cons, hid]
        have hrest := ih (fun k v hmem => hown k v (List.mem_cons_of_mem _ hmem))
          (setField id value acc) ((hperm.map Prod.fst).nodup_iff.mpr hnodup)
        exact hrest.trans hperm
  exact key [] h.nodup

theorem lookup_of_perm {xs ys : Fields} (h : xs.Perm ys) (hys : (ys.map Prod.fst).Nodup)
    (id : String) : xs.lookup id = ys.lookup id := by
  have hxs : (xs.map Prod.fst).Nodup := (h.map Prod.fst).nodup_iff.mpr hys
  apply Option.ext
  intro value
  have hx := Table.lookup_eq_some_iff hxs id value
  have hy := Table.lookup_eq_some_iff hys id value
  exact hx.trans (h.mem_iff.trans hy.symm)

theorem lookup_byId {fields : Fields} (h : Keyed fields) (id : String) :
    (byId (fields.map Prod.snd)).lookup id = fields.lookup id :=
  lookup_of_perm (byId_perm h) h.nodup id

/-! ## Keyed control states -/

/-- A control state with the given experiments, keyed. -/
def StateWith (state : Json) (experiments : Fields) : Prop :=
  ∃ top, state = .obj top ∧ top.lookup "experimentsById" = some (.obj experiments) ∧
    Keyed experiments

/-- A control state whose experiments are keyed. -/
def KeyedState (state : Json) : Prop := ∃ experiments, StateWith state experiments

theorem StateWith.keyedState {state : Json} {experiments : Fields}
    (h : StateWith state experiments) : KeyedState state :=
  ⟨experiments, h⟩

theorem StateWith.experimentsById {state : Json} {experiments : Fields}
    (h : StateWith state experiments) : experimentsById state = experiments := by
  obtain ⟨top, rfl, hlookup, _⟩ := h
  show fieldsOf ((top.lookup "experimentsById").getD emptyObject) = experiments
  rw [hlookup]
  rfl

theorem StateWith.setField_ne {top experiments : Fields} (h : StateWith (.obj top) experiments)
    {key : String} (hkey : key ≠ "experimentsById") (value : Json) :
    StateWith (.obj (Json.setField key value top)) experiments := by
  obtain ⟨_, heq, hlookup, hkeyed⟩ := h
  cases heq
  refine ⟨_, rfl, ?_, hkeyed⟩
  rw [lookup_setField, if_neg (Ne.symm hkey)]
  exact hlookup

theorem KeyedState.experiments {state : Json} (h : KeyedState state) :
    Keyed (experimentsById state) := by
  obtain ⟨experiments, hstate⟩ := h
  rw [hstate.experimentsById]
  obtain ⟨_, _, _, hkeyed⟩ := hstate
  exact hkeyed

/-- What a retained operation never does: it sets no experiment under a key
that is not its id, and reaches no id inside one. -/
structure OpKeyed (item : Operation) : Prop where
  not_all : item.path ≠ ["experimentsById"]
  own : ∀ id value, item.path = ["experimentsById", id] → item.edit = .set value →
    value.get? "id" = some (.str id)
  not_id : ∀ id rest, item.path ≠ "experimentsById" :: id :: "id" :: rest

theorem keyed_onField {fields : Fields} (h : Keyed fields) {edit : Edit} {id : String}
    (hown : ∀ value, edit = .set value → value.get? "id" = some (.str id)) :
    Keyed (edit.onField id fields) := by
  cases edit with
  | set value => exact h.setField (hown value rfl)
  | delete => exact h.deleteField id

theorem lookup_onField_of_ne {edit : Edit} {key k : String} {fields : Fields} (h : k ≠ key) :
    (edit.onField key fields).lookup k = fields.lookup k := by
  cases edit with
  | set value => exact (lookup_setField key k value fields).trans (if_neg h)
  | delete => exact (lookup_deleteField key k fields).trans (if_neg h)

/-- An edit is below the first key of its path. -/
theorem editAt_lookup_of_ne {edit : Edit} {key k : String} {rest : List String}
    {fields : Fields} {next : Json} (h : editAt edit (key :: rest) (.obj fields) = some next)
    (hk : k ≠ key) : next.get? k = fields.lookup k := by
  cases rest with
  | nil =>
      simp only [editAt, Option.some.injEq] at h
      rw [← h]
      exact lookup_onField_of_ne hk
  | cons second rest =>
      simp only [editAt] at h
      split at h
      · obtain ⟨edited, _, rfl⟩ := Option.map_eq_some_iff.mp h
        exact (lookup_setField key k edited fields).trans (if_neg hk)
      · cases h

/-- An edit below a key edits what the key holds. -/
theorem editAt_cons_cons {edit : Edit} {key second : String} {rest : List String}
    {fields : Fields} {next : Json}
    (h : editAt edit (key :: second :: rest) (.obj fields) = some next) :
    ∃ child edited, fields.lookup key = some child ∧
      editAt edit (second :: rest) child = some edited ∧
      next = .obj (setField key edited fields) := by
  simp only [editAt] at h
  split at h
  · rename_i child hchild
    obtain ⟨edited, hedited, rfl⟩ := Option.map_eq_some_iff.mp h
    exact ⟨child, edited, hchild, hedited, rfl⟩
  · cases h

/-- An edit inside one experiment or of one entry keeps the experiments keyed. -/
theorem keyed_editAt_experiments {edit : Edit} {id : String} {rest : List String}
    {experiments : Fields} {next : Json} (hkeyed : Keyed experiments)
    (hown : ∀ value, rest = [] → edit = .set value → value.get? "id" = some (.str id))
    (hid : ∀ inner, rest ≠ "id" :: inner)
    (h : editAt edit (id :: rest) (.obj experiments) = some next) :
    ∃ fields, next = .obj fields ∧ Keyed fields := by
  cases rest with
  | nil =>
      simp only [editAt, Option.some.injEq] at h
      exact ⟨_, h.symm, keyed_onField hkeyed fun value => hown value rfl⟩
  | cons field inner =>
      obtain ⟨experiment, edited, hlookup, hedited, rfl⟩ := editAt_cons_cons h
      refine ⟨_, rfl, hkeyed.setField ?_⟩
      have hfield : "id" ≠ field := fun e => hid inner (by rw [e])
      cases experiment with
      | obj fields =>
          rw [editAt_lookup_of_ne hedited hfield]
          exact hkeyed.id_of_lookup hlookup
      | _ => cases inner <;> simp [editAt] at hedited

theorem keyedState_editAt {state next : Json} {item : Operation} (hstate : KeyedState state)
    (hop : OpKeyed item) (h : editAt item.edit item.path state = some next) : KeyedState next := by
  obtain ⟨experiments, top, rfl, hlookup, hkeyed⟩ := hstate
  obtain ⟨fields, rfl⟩ := editAt_isObject h
  cases hpath : item.path with
  | nil =>
      rw [hpath] at h
      simp [editAt] at h
  | cons key rest =>
      rw [hpath] at h
      by_cases hkey : key = "experimentsById"
      · subst hkey
        cases rest with
        | nil => exact absurd hpath hop.not_all
        | cons id inner =>
            obtain ⟨_, edited, hchild, hedited, hnext⟩ := editAt_cons_cons h
            rw [hlookup] at hchild
            cases hchild
            obtain ⟨after, rfl, hafter⟩ := keyed_editAt_experiments hkeyed
              (fun value hrest => hop.own id value (by rw [hpath, hrest]))
              (fun more hrest => hop.not_id id more (by rw [hpath, hrest])) hedited
            refine ⟨after, _, hnext, ?_, hafter⟩
            rw [lookup_setField, if_pos rfl]
      · have hsame := editAt_lookup_of_ne h (Ne.symm hkey)
        exact ⟨experiments, fields, rfl, hsame.trans hlookup, hkeyed⟩

theorem keyedState_editAll {items : List Operation} {state next : Json} (hstate : KeyedState state)
    (hops : ∀ item ∈ items, OpKeyed item) (h : editAll items state = some next) :
    KeyedState next := by
  induction items generalizing state with
  | nil =>
      cases h
      exact hstate
  | cons item items ih =>
      rw [List.forall_mem_cons] at hops
      rw [editAll, Option.bind_eq_some_iff] at h
      obtain ⟨mid, hmid, hrest⟩ := h
      exact ih (keyedState_editAt hstate hops.1 hmid) hops.2 hrest

/-! ## Differences of keyed states -/

/-- Where both sides agree on a field, no operation starts there. -/
theorem collect_path_ne {left right : Json} {key : String} {value : Json}
    (hleft : left.get? key = some value) (hright : right.get? key = some value)
    {item : Operation} (h : item ∈ collect left right []) (rest : List String) :
    item.path ≠ key :: rest := by
  cases left with
  | obj xs =>
      cases right with
      | obj ys =>
          obtain ⟨k, ⟨x, hx, hy, rfl⟩ | ⟨y, hx, hy, rfl⟩ | ⟨x, y, inner, hx, hy, hinner, rfl⟩⟩ :=
            mem_collect_obj h
          · intro hpath
            cases hpath
            exact absurd (hy.symm.trans hright) (by simp)
          · intro hpath
            cases hpath
            exact absurd (hx.symm.trans hleft) (by simp)
          · intro hpath
            cases hpath
            have hxy : x = y := by
              have hx' := hx.symm.trans hleft
              have hy' := hy.symm.trans hright
              rw [Option.some.inj hx', Option.some.inj hy']
            rw [hxy, collect_self] at hinner
            cases hinner
      | _ => cases hright
  | _ => cases hleft

theorem opKeyed_under_experiments {xs ys : Fields} (hxs : Keyed xs) (hys : Keyed ys)
    {item : Operation} (h : item ∈ collect (.obj xs) (.obj ys) []) :
    OpKeyed (item.under "experimentsById") := by
  obtain ⟨id, ⟨x, _, _, rfl⟩ | ⟨y, _, hy, rfl⟩ | ⟨x, y, inner, hx, hy, hinner, rfl⟩⟩ :=
    mem_collect_obj h
  · exact ⟨by simp [Operation.under], by simp [Operation.under], by simp [Operation.under]⟩
  · refine ⟨by simp [Operation.under], ?_, by simp [Operation.under]⟩
    intro key value hpath hedit
    cases hpath
    cases hedit
    exact hys.id_of_lookup hy
  · have hne := collect_path_ne (hxs.id_of_lookup hx) (hys.id_of_lookup hy) hinner
    refine ⟨by simp [Operation.under], ?_, ?_⟩
    · intro key value hkey hedit
      simp only [Operation.under, List.cons.injEq, true_and] at hkey
      obtain ⟨rfl, hnil⟩ := hkey
      -- Both definitions are objects, so no operation replaces one whole.
      cases x with
      | obj fx =>
          cases y with
          | obj fy => exact absurd hnil (collect_obj_path hinner)
          | _ => cases hys.id_of_lookup hy
      | _ => cases hxs.id_of_lookup hx
    · intro key rest hkey
      simp only [Operation.under, List.cons.injEq, true_and] at hkey
      exact hne rest hkey.2

/-- Every operation of a difference of keyed states is keyed. -/
theorem opKeyed_collect {before after : Json} (hbefore : KeyedState before)
    (hafter : KeyedState after) {item : Operation} (h : item ∈ collect before after []) :
    OpKeyed item := by
  obtain ⟨ex, xs, rfl, hx, hex⟩ := hbefore
  obtain ⟨ey, ys, rfl, hy, hey⟩ := hafter
  obtain ⟨key, ⟨x, hxk, hyk, rfl⟩ | ⟨y, hxk, hyk, rfl⟩ | ⟨x, y, inner, hxk, hyk, hinner, rfl⟩⟩ :=
    mem_collect_obj h
  · refine ⟨?_, by simp, by simp⟩
    intro hpath
    cases hpath
    rw [hy] at hyk
    cases hyk
  · refine ⟨?_, by simp, by simp⟩
    intro hpath
    cases hpath
    rw [hx] at hxk
    cases hxk
  · by_cases hkey : key = "experimentsById"
    · subst hkey
      rw [hx] at hxk
      rw [hy] at hyk
      cases hxk
      cases hyk
      exact opKeyed_under_experiments hex hey hinner
    · exact ⟨by simp [Operation.under, hkey], by simp [Operation.under, hkey],
        by simp [Operation.under, hkey]⟩

end Wardx.Control
