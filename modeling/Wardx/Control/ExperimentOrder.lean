import Wardx.Control.ControlShape

/-!
# The order of experiments

The operations of a change let ids of experiments enter and leave: one that
sets an id the state has not puts it behind the ids of its rank. A difference
moves the ids that only one side has, each once and in sorted order. A row
keyed again keeps the order its state had.
-/
namespace Wardx.Control

open Lib Json ControlStateChange

/-- The ids of a row's experiments, in the order they are served. -/
def experimentIds (stored : StoredProject) : List String := (byId stored.experiments).map Prod.fst

/-! ## Keyed again -/

theorem ordered_byId (experiments : List Json) : Ordered (byId experiments) := by
  have hfold : ∀ fields : Fields, Ordered fields →
      Ordered (experiments.foldl (fun fields experiment =>
        setField (propertyKey (experiment.get? "id")) experiment fields) fields) := by
    induction experiments with
    | nil => exact fun fields hfields => hfields
    | cons experiment experiments ih => exact fun fields hfields => ih _ (hfields.setField _ _)
  exact hfold [] ordered_nil

theorem insertField_last {key : String} (value : Json) {fields : Fields}
    (h : ∀ k ∈ fields.map Prod.fst, enumerationRank k ≤ enumerationRank key) :
    insertField key value fields = fields ++ [(key, value)] := by
  induction fields with
  | nil => rfl
  | cons field fields ih =>
      obtain ⟨k, v⟩ := field
      rw [List.map_cons, List.forall_mem_cons] at h
      have hbehind : ¬ enumeratedBefore key k = true :=
        fun hbefore => absurd ((enumeratedBefore_iff key k).mp hbefore) (not_lt.mpr h.1)
      unfold insertField
      rw [if_neg hbehind, ih h.2, List.cons_append]

/-- Keyed experiments in order are what they were once listed and keyed again. -/
theorem byId_of_ordered {fields : Fields} (hkeyed : Keyed fields) (hordered : Ordered fields) :
    byId (fields.map Prod.snd) = fields := by
  have hfold : ∀ acc : Fields, ((acc ++ fields).map Prod.fst).Nodup → Ordered (acc ++ fields) →
      (fields.map Prod.snd).foldl (fun fields experiment =>
        setField (propertyKey (experiment.get? "id")) experiment fields) acc = acc ++ fields := by
    have hown := hkeyed.own
    clear hkeyed hordered
    induction fields with
    | nil =>
        intro acc _ _
        rw [List.append_nil]
        rfl
    | cons field rest ih =>
        intro acc hnodup hordered
        obtain ⟨id, value⟩ := field
        have hid : propertyKey (value.get? "id") = id := by
          rw [hown id value List.mem_cons_self]
          rfl
        have hsplit : acc ++ (id, value) :: rest = (acc ++ [(id, value)]) ++ rest := by
          rw [List.append_assoc]
          rfl
        have hnew : id ∉ acc.map Prod.fst := by
          rw [List.map_append, List.map_cons] at hnodup
          exact fun hmem => (List.nodup_append.mp hnodup).2.2 id hmem id List.mem_cons_self rfl
        have hlast : ∀ k ∈ acc.map Prod.fst, enumerationRank k ≤ enumerationRank id := by
          unfold Ordered Ranked at hordered
          rw [List.map_append, List.map_cons] at hordered
          exact fun k hk => (List.pairwise_append.mp hordered).2.2 k hk id List.mem_cons_self
        have hset : setField id value acc = acc ++ [(id, value)] := by
          unfold setField
          rw [if_neg fun hsome => hnew ((isSome_lookup id acc).mp hsome),
            insertField_last value hlast]
        rw [List.map_cons, List.foldl_cons, hid, hset, hsplit]
        rw [hsplit] at hnodup hordered
        exact ih (fun k v hmem => hown k v (List.mem_cons_of_mem _ hmem)) _ hnodup hordered
  exact hfold [] hkeyed.nodup hordered

theorem experimentIds_denormalize {state : Json} (hkeyed : KeyedState state)
    (hordered : Ordered (experimentsById state)) (version : ℕ) :
    experimentIds (denormalize version state) = (experimentsById state).map Prod.fst := by
  show (byId ((experimentsById state).map Prod.snd)).map Prod.fst = _
  rw [byId_of_ordered hkeyed.experiments hordered]

/-! ## Moves of operations -/

/-- The move an operation makes: it sets or deletes a whole experiment. -/
def idMove (item : Operation) : Option (Move String) :=
  match item.path, item.edit with
  | ["experimentsById", id], .set _ => some (.enter id)
  | ["experimentsById", id], .delete => some (.leave id)
  | _, _ => none

def idMoves (items : List Operation) : List (Move String) := items.filterMap idMove

theorem idMove_of_path_ne {item : Operation} (h : ∀ id, item.path ≠ ["experimentsById", id]) :
    idMove item = none := by
  unfold idMove
  split
  · rename_i id _ hpath _
    exact absurd hpath (h id)
  · rename_i id hpath _
    exact absurd hpath (h id)
  · rfl

/-- An id that leaves is deleted. -/
theorem mem_left_idMoves {items : List Operation} {id : String} (h : id ∈ left (idMoves items)) :
    ⟨.delete, ["experimentsById", id]⟩ ∈ items := by
  obtain ⟨move, hmove, hid⟩ := List.mem_filterMap.mp h
  obtain ⟨item, hitem, hmove⟩ := List.mem_filterMap.mp hmove
  obtain ⟨edit, path⟩ := item
  unfold idMove at hmove
  split at hmove
  · cases hmove
    cases hid
  · rename_i k hpath hedit
    cases hmove
    cases hid
    change path = _ at hpath
    change edit = _ at hedit
    rw [← hpath, ← hedit]
    exact hitem
  · cases hmove

/-- An id that enters is set. -/
theorem mem_entered_idMoves {items : List Operation} {id : String}
    (h : id ∈ entered (idMoves items)) :
    ∃ value, ⟨.set value, ["experimentsById", id]⟩ ∈ items := by
  obtain ⟨move, hmove, hid⟩ := List.mem_filterMap.mp h
  obtain ⟨item, hitem, hmove⟩ := List.mem_filterMap.mp hmove
  obtain ⟨edit, path⟩ := item
  unfold idMove at hmove
  split at hmove
  · rename_i k value hpath hedit
    cases hmove
    cases hid
    change path = _ at hpath
    change edit = _ at hedit
    refine ⟨value, ?_⟩
    rw [← hpath, ← hedit]
    exact hitem
  · cases hmove
    cases hid
  · cases hmove

/-- The ids after an operation. -/
theorem keys_editAt {state next : Json} {item : Operation} (hstate : KeyedState state)
    (hop : OpKeyed item) (h : editAt item.edit item.path state = some next) :
    (experimentsById next).map Prod.fst =
      moveAll enumerationRank (idMove item).toList ((experimentsById state).map Prod.fst) := by
  obtain ⟨experiments, hwith⟩ := hstate
  rw [hwith.experimentsById]
  obtain ⟨top, rfl, hlookup, hkeyed⟩ := hwith
  obtain ⟨fields, rfl⟩ := editAt_isObject h
  have hread : ∀ after : Fields, fields.lookup "experimentsById" = some (.obj after) →
      experimentsById (.obj fields) = after := by
    intro after hafter
    show fieldsOf ((fields.lookup "experimentsById").getD emptyObject) = after
    rw [hafter]
    rfl
  cases hpath : item.path with
  | nil =>
      rw [hpath] at h
      simp [editAt] at h
  | cons key rest =>
      rw [hpath] at h
      by_cases hkey : key = "experimentsById"
      · subst hkey
        cases rest with
        | nil => exact absurd hpath hop.not_all
        | cons id inner =>
            obtain ⟨_, edited, hchild, hedited, hnext⟩ := editAt_cons_cons h
            rw [hlookup] at hchild
            cases hchild
            cases hnext
            cases inner with
            | nil =>
                simp only [editAt, Option.some.injEq] at hedited
                subst hedited
                rw [hread (item.edit.onField id experiments) (by rw [lookup_setField, if_pos rfl])]
                unfold idMove
                rw [hpath]
                cases item.edit with
                | set value => exact keys_setField id value experiments
                | delete => exact keys_deleteField id experiments
            | cons field more =>
                -- Inside an experiment an operation moves no id.
                obtain ⟨experiment, inside, hexperiment, _, rfl⟩ := editAt_cons_cons hedited
                have hmem : id ∈ experiments.map Prod.fst := by
                  rw [← isSome_lookup, hexperiment]
                  rfl
                rw [hread (setField id inside experiments) (by rw [lookup_setField, if_pos rfl]),
                  idMove_of_path_ne (by simp [hpath]), keys_setField]
                exact if_pos hmem
      · have hsame := editAt_lookup_of_ne h (Ne.symm hkey)
        rw [hread experiments (hsame.trans hlookup),
          idMove_of_path_ne (by simp [hpath, hkey])]
        rfl

/-- The ids after a list of operations. -/
theorem keys_editAll {items : List Operation} {state next : Json} (hstate : KeyedState state)
    (hops : ∀ item ∈ items, OpKeyed item) (h : editAll items state = some next) :
    (experimentsById next).map Prod.fst =
      moveAll enumerationRank (idMoves items) ((experimentsById state).map Prod.fst) := by
  induction items generalizing state with
  | nil =>
      cases h
      rfl
  | cons item items ih =>
      rw [List.forall_mem_cons] at hops
      rw [editAll, Option.bind_eq_some_iff] at h
      obtain ⟨mid, hmid, hrest⟩ := h
      have hsplit : idMoves (item :: items) = (idMove item).toList ++ idMoves items := by
        unfold idMoves
        rw [List.filterMap_cons]
        cases idMove item <;> rfl
      rw [ih (keyedState_editAt hstate hops.1 hmid) hops.2 hrest, keys_editAt hstate hops.1 hmid,
        hsplit]
      unfold moveAll
      rw [List.foldl_append]

theorem ordered_editAll {items : List Operation} {state next : Json} (hstate : KeyedState state)
    (hops : ∀ item ∈ items, OpKeyed item) (hordered : Ordered (experimentsById state))
    (h : editAll items state = some next) : Ordered (experimentsById next) := by
  unfold Ordered
  rw [keys_editAll hstate hops h]
  exact Ranked.moveAll hordered _

/-! ## Moves of differences -/

/-- An id that only the second side has enters, one that only the first has leaves. -/
def moveOf (xs ys : Fields) (id : String) : Option (Move String) :=
  match xs.lookup id, ys.lookup id with
  | none, some _ => some (.enter id)
  | some _, none => some (.leave id)
  | _, _ => none

theorem flatMap_only {keys : List String} (hnodup : keys.Nodup) {key : String} (h : key ∈ keys)
    (moves : List (Move String)) :
    (keys.flatMap fun k => if k = key then moves else []) = moves := by
  induction keys with
  | nil => cases h
  | cons k keys ih =>
      rw [List.nodup_cons] at hnodup
      rw [List.flatMap_cons]
      rcases List.mem_cons.mp h with rfl | hmem
      · have hrest : (keys.flatMap fun k => if k = key then moves else []) = [] := by
          refine List.flatMap_eq_nil_iff.mpr fun k hk => if_neg ?_
          rintro rfl
          exact hnodup.1 hk
        rw [if_pos rfl, hrest, List.append_nil]
      · have hne : k ≠ key := by
          rintro rfl
          exact hnodup.1 hmem
        rw [if_neg hne, ih hnodup.2 hmem, List.nil_append]

theorem idMoves_collectKey {xs ys : Fields} (hxs : Keyed xs) (hys : Keyed ys) (id : String) :
    idMoves ((collectKey id xs ys []).map (Operation.under "experimentsById")) =
      (moveOf xs ys id).toList := by
  rw [collectKey_eq]
  unfold moveOf
  cases hx : xs.lookup id with
  | none =>
      cases hy : ys.lookup id with
      | none => rfl
      | some y => rfl
  | some x =>
      cases hy : ys.lookup id with
      | none => rfl
      | some y =>
          -- Both definitions are objects, so each operation is inside them.
          have hobjects : ∃ fx fy, x = .obj fx ∧ y = .obj fy := by
            cases x with
            | obj fx =>
                cases y with
                | obj fy => exact ⟨fx, fy, rfl, rfl⟩
                | _ => cases hys.id_of_lookup hy
            | _ => cases hxs.id_of_lookup hx
          obtain ⟨fx, fy, rfl, rfl⟩ := hobjects
          refine List.filterMap_eq_nil_iff.mpr fun item hitem => idMove_of_path_ne fun k hpath => ?_
          simp only [List.nil_append, collect_cons, List.map_map] at hitem
          obtain ⟨inner, hinner, rfl⟩ := List.mem_map.mp hitem
          have hnil : inner.path = [] := (List.cons.inj (List.cons.inj hpath).2).2
          exact collect_obj_path hinner hnil

theorem idMoves_under {xs ys : Fields} (hxs : Keyed xs) (hys : Keyed ys) :
    idMoves ((collect (.obj xs) (.obj ys) []).map (Operation.under "experimentsById")) =
      (unionKeys xs ys).filterMap (moveOf xs ys) := by
  by_cases heq : Json.obj xs = .obj ys
  · cases heq
    rw [collect_self]
    refine (List.filterMap_eq_nil_iff.mpr fun id _ => ?_).symm
    unfold moveOf
    cases xs.lookup id <;> rfl
  · rw [collect_obj heq, List.map_flatMap, List.filterMap_eq_flatMap_toList]
    unfold idMoves
    rw [List.filterMap_flatMap]
    congr 1
    funext id
    exact idMoves_collectKey hxs hys id

/-- The moves of a difference, from the ids of both sides. -/
theorem idMoves_collect {left right : Json} {xs ys : Fields} (hleft : StateWith left xs)
    (hright : StateWith right ys) :
    idMoves (collect left right []) = (unionKeys xs ys).filterMap (moveOf xs ys) := by
  obtain ⟨a, rfl, ha, hxs⟩ := hleft
  obtain ⟨b, rfl, hb, hys⟩ := hright
  have hpart : ∀ key, idMoves (collectKey key a b []) =
      if key = "experimentsById" then (unionKeys xs ys).filterMap (moveOf xs ys) else [] := by
    intro key
    by_cases hkey : key = "experimentsById"
    · rw [if_pos hkey, hkey, collectKey_eq, ha, hb]
      simp only [List.nil_append, collect_cons]
      exact idMoves_under hxs hys
    · rw [if_neg hkey]
      refine List.filterMap_eq_nil_iff.mpr fun item hitem => idMove_of_path_ne fun id hpath => ?_
      obtain ⟨rest, hrest⟩ := path_head_of_mem_collectKey hitem
      exact hkey (List.cons.inj (hrest.symm.trans hpath)).1
  by_cases heq : Json.obj a = .obj b
  · cases heq
    cases ha.symm.trans hb
    rw [collect_self]
    refine (List.filterMap_eq_nil_iff.mpr fun id _ => ?_).symm
    unfold moveOf
    cases xs.lookup id <;> rfl
  · have hmem : "experimentsById" ∈ unionKeys a b := mem_unionKeys.mpr (Or.inl (by rw [ha]; rfl))
    rw [collect_obj heq]
    unfold idMoves at hpart ⊢
    rw [List.filterMap_flatMap]
    simp only [hpart]
    exact flatMap_only (nodup_unionKeys a b) hmem _

variable {xs ys : Fields}

theorem entered_moveOf (ids : List String) :
    entered (ids.filterMap (moveOf xs ys)) =
      ids.filter fun id => (xs.lookup id).isNone && (ys.lookup id).isSome := by
  unfold entered
  rw [List.filterMap_filterMap, ← List.filterMap_eq_filter]
  congr 1
  funext id
  cases hx : xs.lookup id <;> cases hy : ys.lookup id <;>
    simp [moveOf, Option.guard, Move.entered?, hx, hy]

theorem left_moveOf (ids : List String) :
    left (ids.filterMap (moveOf xs ys)) =
      ids.filter fun id => (xs.lookup id).isSome && (ys.lookup id).isNone := by
  unfold left
  rw [List.filterMap_filterMap, ← List.filterMap_eq_filter]
  congr 1
  funext id
  cases hx : xs.lookup id <;> cases hy : ys.lookup id <;>
    simp [moveOf, Option.guard, Move.left?, hx, hy]

theorem keys_moveOf (ids : List String) :
    (ids.filterMap (moveOf xs ys)).map Move.key =
      ids.filter fun id => (xs.lookup id).isSome != (ys.lookup id).isSome := by
  rw [List.map_filterMap, ← List.filterMap_eq_filter]
  congr 1
  funext id
  cases hx : xs.lookup id <;> cases hy : ys.lookup id <;>
    simp [moveOf, Option.guard, Move.key, hx, hy]

theorem mem_entered_moveOf {id : String} :
    id ∈ entered ((unionKeys xs ys).filterMap (moveOf xs ys)) ↔
      xs.lookup id = none ∧ (ys.lookup id).isSome = true := by
  rw [entered_moveOf, List.mem_filter, mem_unionKeys, Bool.and_eq_true, Option.isNone_iff_eq_none]
  constructor
  · exact fun h => h.2
  · exact fun h => ⟨Or.inr h.2, h⟩

theorem mem_left_moveOf {id : String} :
    id ∈ left ((unionKeys xs ys).filterMap (moveOf xs ys)) ↔
      (xs.lookup id).isSome = true ∧ ys.lookup id = none := by
  rw [left_moveOf, List.mem_filter, mem_unionKeys, Bool.and_eq_true, Option.isNone_iff_eq_none]
  constructor
  · exact fun h => h.2
  · exact fun h => ⟨Or.inl h.1, h⟩

/-- The ids move there and back by a difference and its reverse: their order is
what it was exactly when of each rank those that left were last and sorted. -/
theorem moveBack_moveOf_iff {keys : List String} (hranked : Ranked enumerationRank keys)
    (hkeys : keys.Nodup) (hnew : ∀ id, xs.lookup id = none → (ys.lookup id).isSome = true → id ∉ keys)
    (hold : ∀ id, (xs.lookup id).isSome = true → ys.lookup id = none → id ∈ keys) :
    let moved := moveAll enumerationRank ((unionKeys xs ys).filterMap (moveOf xs ys)) keys;
    moveAll enumerationRank ((unionKeys ys xs).filterMap (moveOf ys xs)) moved = keys ↔
      ∀ i j, [i, j].Sublist keys → enumerationRank i = enumerationRank j → i ∉ moved →
        j ∉ moved ∧ utf16Le i j := by
  intro moved
  have hmoves := nodup_unionKeys xs ys
  have hback := nodup_unionKeys ys xs
  have hnew' : ∀ id ∈ entered ((unionKeys xs ys).filterMap (moveOf xs ys)), id ∉ keys := by
    intro id hid
    obtain ⟨hx, hy⟩ := mem_entered_moveOf.mp hid
    exact hnew id hx hy
  have hold' : ∀ id ∈ left ((unionKeys xs ys).filterMap (moveOf xs ys)), id ∈ keys := by
    intro id hid
    obtain ⟨hx, hy⟩ := mem_left_moveOf.mp hid
    exact hold id hx hy
  have hreturn : ∀ id, id ∈ entered ((unionKeys ys xs).filterMap (moveOf ys xs)) ↔
      id ∈ left ((unionKeys xs ys).filterMap (moveOf xs ys)) := by
    intro id
    rw [mem_entered_moveOf, mem_left_moveOf]
    exact and_comm
  have hgone : ∀ id, id ∈ left ((unionKeys ys xs).filterMap (moveOf ys xs)) ↔
      id ∈ entered ((unionKeys xs ys).filterMap (moveOf xs ys)) := by
    intro id
    rw [mem_entered_moveOf, mem_left_moveOf]
    exact and_comm
  have hnodup : (((unionKeys xs ys).filterMap (moveOf xs ys)).map Move.key).Nodup := by
    rw [keys_moveOf]
    exact hmoves.filter _
  have hnodup' : (((unionKeys ys xs).filterMap (moveOf ys xs)).map Move.key).Nodup := by
    rw [keys_moveOf]
    exact hback.filter _
  have hsorted : (entered ((unionKeys ys xs).filterMap (moveOf ys xs))).Pairwise utf16Le := by
    rw [entered_moveOf]
    exact List.Pairwise.sublist List.filter_sublist (List.pairwise_insertionSort utf16Le _)
  have hreturned : (entered ((unionKeys ys xs).filterMap (moveOf ys xs))).Nodup := by
    rw [entered_moveOf]
    exact hback.filter _
  have hleft : ∀ id ∈ keys, id ∉ moved ↔ id ∈ left ((unionKeys xs ys).filterMap (moveOf xs ys)) := by
    intro id hid
    rw [mem_moveAll hranked hnodup hnew']
    constructor
    · intro h
      by_contra hstays
      exact h (Or.inl ⟨hid, hstays⟩)
    · intro h hmem
      rcases hmem with hkept | hentered
      · exact hkept.2 h
      · exact hnew' id hentered hid
  rw [moveBack_eq_iff utf16Le hranked hkeys hnodup hnodup' hnew' hold' hreturn hgone hreturned
    hsorted]
  refine forall_congr' fun i => forall_congr' fun j => forall_congr' fun hij => ?_
  rw [hleft i (hij.subset List.mem_cons_self),
    hleft j (hij.subset (List.mem_cons_of_mem i List.mem_cons_self))]

end Wardx.Control
