import Wardx.Control.ControlStateChange
import Wardx.JsonView

/-!
# Changes as writes at paths

Seen path by path, an operation is a write at its path, and a change is the
writes of its operations. The operations of a difference are apart, and the
difference taken the other way has the same paths.
-/
namespace Wardx.ControlStateChange

open Lib Json

/-- What a patch leaves agrees with what it was taken from. -/
theorem Patched.agree {a b c : Json} (h : Patched a b c) : Agree c b := by
  induction h with
  | same a => exact Agree.refl a
  | replaced a b => exact Agree.refl b
  | fields xs ys zs _ deleted added kept _ ih =>
      refine agree_obj fun key => ?_
      cases hy : ys.lookup key with
      | none =>
          rw [deleted key hy]
          exact Option.Rel.none
      | some y =>
          cases hx : xs.lookup key with
          | none =>
              rw [added key y hx hy]
              exact agreeField_refl _
          | some x =>
              obtain ⟨z, hz⟩ := Option.isSome_iff_exists.mp (kept key x y hx hy)
              rw [hz]
              exact Option.Rel.some (ih key x y z hx hy hz)

/-! ## Operations -/

/-- What an edit leaves under its key. -/
def Edit.below : Edit → View String Spot
  | .set value => value.view
  | .delete => fun _ => .missing

def Operation.write (item : Operation) : PathWrite String Spot := ⟨item.path, item.edit.below⟩

theorem spot_onField_self (edit : Edit) (key : String) (fields : Fields) (rest : List String) :
    spot (key :: rest) (.obj (edit.onField key fields)) = edit.below rest := by
  cases edit with
  | set value =>
      have hget : (Json.obj (setField key value fields)).get? key = some value := by
        rw [Json.get?, lookup_setField, if_pos rfl]
      exact spot_cons_of_some hget rest
  | delete =>
      have hget : (Json.obj (deleteField key fields)).get? key = none := by
        rw [Json.get?, lookup_deleteField, if_pos rfl]
      exact spot_cons_of_none hget rest

theorem spot_obj_congr {xs ys : Fields} {key : String} (h : xs.lookup key = ys.lookup key)
    (rest : List String) : spot (key :: rest) (.obj xs) = spot (key :: rest) (.obj ys) := by
  have hget : (Json.obj xs).get? key = (Json.obj ys).get? key := h
  unfold spot
  rw [hget]

/-- An edit at a path is a write at the path. -/
theorem view_editAt {edit : Edit} {path : List String} {state next : Json}
    (h : editAt edit path state = some next) :
    next.view = (⟨path, edit.below⟩ : PathWrite String Spot).apply state.view := by
  induction path generalizing state next with
  | nil => simp [editAt] at h
  | cons key rest ih =>
      obtain ⟨after, rfl⟩ := editAt_isObject h
      funext q
      unfold PathWrite.apply view
      cases rest with
      | nil =>
          cases state with
          | obj fields =>
              simp only [editAt, Option.some.injEq, Json.obj.injEq] at h
              subst h
              cases q with
              | nil => exact (if_neg (by simp)).symm
              | cons k r =>
                  by_cases hk : key = k
                  · subst hk
                    rw [if_pos (by simp)]
                    exact spot_onField_self edit key fields r
                  · rw [if_neg (by simp [List.cons_prefix_cons, hk])]
                    apply spot_obj_congr
                    cases edit with
                    | set value => exact (lookup_setField _ _ _ _).trans (if_neg (Ne.symm hk))
                    | delete => exact (lookup_deleteField _ _ _).trans (if_neg (Ne.symm hk))
          | _ => simp [editAt] at h
      | cons second rest =>
          cases state with
          | obj fields =>
              simp only [editAt] at h
              split at h
              · rename_i child hchild
                obtain ⟨edited, hedited, hnext⟩ := Option.map_eq_some_iff.mp h
                cases hnext
                cases q with
                | nil => exact (if_neg (by simp)).symm
                | cons k r =>
                    by_cases hk : key = k
                    · subst hk
                      have hget : (Json.obj (setField key edited fields)).get? key = some edited := by
                        rw [Json.get?, lookup_setField, if_pos rfl]
                      have hget' : (Json.obj fields).get? key = some child := hchild
                      have hinner := congrFun (ih hedited) r
                      unfold PathWrite.apply view at hinner
                      rw [spot_cons_of_some hget, spot_cons_of_some hget', hinner]
                      simp only [List.cons_prefix_cons, true_and, List.length_cons,
                        List.drop_succ_cons]
                    · rw [if_neg (by simp [List.cons_prefix_cons, hk])]
                      exact spot_obj_congr ((lookup_setField _ _ _ _).trans (if_neg (Ne.symm hk))) r
              · cases h
          | _ => simp [editAt] at h

/-- A list of operations is the writes of its operations. -/
theorem view_editAll {items : List Operation} {state next : Json}
    (h : editAll items state = some next) :
    next.view = writeAll (items.map Operation.write) state.view := by
  induction items generalizing state with
  | nil =>
      cases h
      rfl
  | cons item items ih =>
      rw [editAll, Option.bind_eq_some_iff] at h
      obtain ⟨edited, hedited, hrest⟩ := h
      rw [ih hrest, view_editAt hedited]
      rfl

/-! ## Differences -/

theorem mem_collect_obj_of_key {xs ys : Fields} (key : String) {item : Operation}
    (hkey : (xs.lookup key).isSome = true ∨ (ys.lookup key).isSome = true)
    (h : item ∈ collectKey key xs ys []) : item ∈ collect (.obj xs) (.obj ys) [] := by
  by_cases hne : Json.obj xs = .obj ys
  · cases hne
    rw [collectKey_eq] at h
    cases hx : xs.lookup key with
    | none =>
        rw [hx] at h
        cases h
    | some x =>
        rw [hx] at h
        simp only [collect_self, List.not_mem_nil] at h
  · rw [collect_obj hne, List.mem_flatMap]
    exact ⟨key, mem_unionKeys.mpr hkey, h⟩

/-- A difference leaves what the second side holds. -/
theorem holds_of_mem_collect (left right : Json) :
    ∀ item ∈ collect left right [], item.write.Holds right.view := by
  revert right
  refine fields_induction (P := fun left => ∀ right, ∀ item ∈ collect left right [],
    item.write.Holds right.view) ?_ ?_ left
  · intro left hleft right item hitem
    by_cases heq : left = right
    · rw [heq, collect_self] at hitem
      cases hitem
    · rw [collect_replaced heq (Or.inl hleft), List.mem_singleton] at hitem
      rw [hitem]
      exact fun rest => rfl
  · intro xs ih right item hitem
    obtain heq | ⟨hne, hobj⟩ | ⟨_, ys, hxs, rfl, hne⟩ := collect_cases (.obj xs) right
    · rw [heq, collect_self] at hitem
      cases hitem
    · rw [collect_replaced hne hobj, List.mem_singleton] at hitem
      rw [hitem]
      exact fun rest => rfl
    · obtain ⟨key, ⟨x, _, hy, rfl⟩ | ⟨y, _, hy, rfl⟩ | ⟨x, y, inner, hx, hy, hinner, rfl⟩⟩ :=
        mem_collect_obj hitem
      · intro rest
        have hget : (Json.obj ys).get? key = none := hy
        exact spot_cons_of_none hget rest
      · intro rest
        have hget : (Json.obj ys).get? key = some y := hy
        exact spot_cons_of_some hget rest
      · intro rest
        have hget : (Json.obj ys).get? key = some y := hy
        have hbelow := ih key x hx y inner hinner rest
        show spot (key :: (inner.path ++ rest)) (.obj ys) = _
        rw [spot_cons_of_some hget]
        exact hbelow

/-- The difference taken the other way has the same paths. -/
theorem exists_path_collect_swap (left right : Json) :
    ∀ item ∈ collect left right [], ∃ other ∈ collect right left [], other.path = item.path := by
  revert right
  refine fields_induction (P := fun left => ∀ right, ∀ item ∈ collect left right [],
    ∃ other ∈ collect right left [], other.path = item.path) ?_ ?_ left
  · intro left hleft right item hitem
    by_cases heq : left = right
    · rw [heq, collect_self] at hitem
      cases hitem
    · rw [collect_replaced heq (Or.inl hleft), List.mem_singleton] at hitem
      refine ⟨⟨.set left, []⟩, ?_, by rw [hitem]⟩
      rw [collect_replaced (Ne.symm heq) (Or.inr hleft)]
      exact List.mem_singleton.mpr rfl
  · intro xs ih right item hitem
    obtain heq | ⟨hne, hobj⟩ | ⟨_, ys, hxs, rfl, hne⟩ := collect_cases (.obj xs) right
    · rw [heq, collect_self] at hitem
      cases hitem
    · rw [collect_replaced hne hobj, List.mem_singleton] at hitem
      refine ⟨⟨.set (.obj xs), []⟩, ?_, by rw [hitem]⟩
      rw [collect_replaced (Ne.symm hne) hobj.symm]
      exact List.mem_singleton.mpr rfl
    · obtain ⟨key, ⟨x, hx, hy, rfl⟩ | ⟨y, hx, hy, rfl⟩ | ⟨x, y, inner, hx, hy, hinner, rfl⟩⟩ :=
        mem_collect_obj hitem
      · refine ⟨⟨.set x, [key]⟩, mem_collect_obj_of_key key (Or.inr ?_) ?_, rfl⟩
        · rw [hx]
          rfl
        · rw [collectKey_eq, hx, hy]
          exact List.mem_singleton.mpr rfl
      · refine ⟨⟨.delete, [key]⟩, mem_collect_obj_of_key key (Or.inl ?_) ?_, rfl⟩
        · rw [hy]
          rfl
        · rw [collectKey_eq, hx, hy]
          exact List.mem_singleton.mpr rfl
      · obtain ⟨other, hother, hpath⟩ := ih key x hx y inner hinner
        refine ⟨other.under key, mem_collect_obj_of_key key (Or.inl ?_) ?_, ?_⟩
        · rw [hy]
          rfl
        · rw [collectKey_eq, hx, hy]
          simp only [List.nil_append, collect_cons]
          exact List.mem_map_of_mem hother
        · show key :: other.path = key :: inner.path
          rw [hpath]

theorem apart_under {items : List Operation} (key : String)
    (h : Apart (items.map Operation.write)) :
    Apart ((items.map (Operation.under key)).map Operation.write) := by
  unfold Apart at h ⊢
  rw [List.map_map, List.pairwise_map]
  refine (List.pairwise_map.mp h).imp fun {a b} hab => ?_
  show ¬ key :: a.path <+: key :: b.path ∧ ¬ key :: b.path <+: key :: a.path
  rw [List.cons_prefix_cons, List.cons_prefix_cons]
  exact ⟨fun hprefix => hab.1 hprefix.2, fun hprefix => hab.2 hprefix.2⟩

theorem path_head_of_mem_collectKey {key : String} {xs ys : Fields} {item : Operation}
    (h : item ∈ collectKey key xs ys []) : ∃ rest, item.path = key :: rest := by
  obtain ⟨x, _, _, rfl⟩ | ⟨y, _, _, rfl⟩ | ⟨x, y, inner, _, _, _, rfl⟩ := mem_collectKey h
  · exact ⟨[], rfl⟩
  · exact ⟨[], rfl⟩
  · exact ⟨inner.path, rfl⟩

/-- The operations of a difference are apart. -/
theorem apart_collect (left right : Json) :
    Apart ((collect left right []).map Operation.write) := by
  revert right
  refine fields_induction (P := fun left => ∀ right,
    Apart ((collect left right []).map Operation.write)) ?_ ?_ left
  · intro left hleft right
    by_cases heq : left = right
    · rw [heq, collect_self]
      exact List.Pairwise.nil
    · rw [collect_replaced heq (Or.inl hleft)]
      exact List.pairwise_singleton _ _
  · intro xs ih right
    obtain heq | ⟨hne, hobj⟩ | ⟨_, ys, hxs, rfl, hne⟩ := collect_cases (.obj xs) right
    · rw [heq, collect_self]
      exact List.Pairwise.nil
    · rw [collect_replaced hne hobj]
      exact List.pairwise_singleton _ _
    · cases hxs
      rw [collect_obj hne]
      unfold Apart
      rw [List.pairwise_map, List.pairwise_flatMap]
      refine ⟨fun key _ => ?_, (nodup_unionKeys xs ys).imp fun {k l} hkl a ha b hb => ?_⟩
      · rw [← List.pairwise_map (f := Operation.write)
          (R := fun a b : PathWrite String Spot => ¬ a.path <+: b.path ∧ ¬ b.path <+: a.path),
          collectKey_eq]
        cases hx : xs.lookup key with
        | none =>
            cases ys.lookup key with
            | none => exact List.Pairwise.nil
            | some y => exact List.pairwise_singleton _ _
        | some x =>
            cases ys.lookup key with
            | none => exact List.pairwise_singleton _ _
            | some y =>
                simp only [List.nil_append, collect_cons]
                exact apart_under key (ih key x hx y)
      · -- Operations of different keys differ at the head of their paths.
        obtain ⟨as, has⟩ := path_head_of_mem_collectKey ha
        obtain ⟨bs, hbs⟩ := path_head_of_mem_collectKey hb
        show ¬ a.path <+: b.path ∧ ¬ b.path <+: a.path
        rw [has, hbs, List.cons_prefix_cons, List.cons_prefix_cons]
        exact ⟨fun hprefix => hkl hprefix.1, fun hprefix => hkl hprefix.1.symm⟩

/-! ## Differences undone -/

/-- There is nothing to change exactly between values that agree. -/
theorem collect_eq_nil_of_agree (left right : Json) (h : Agree left right) :
    collect left right [] = [] := by
  revert right
  refine fields_induction (P := fun left => ∀ right, Agree left right →
    collect left right [] = []) ?_ ?_ left
  · intro left hleft right h
    rw [h.eq_of_plain hleft, collect_self]
  · intro xs ih right h
    obtain heq | ⟨hne, hobj⟩ | ⟨_, ys, hxs, rfl, hne⟩ := collect_cases (.obj xs) right
    · rw [heq, collect_self]
    · cases hobj with
      | inl hplain => cases hplain
      | inr hplain => exact absurd (h.symm.eq_of_plain hplain).symm hne
    · cases hxs
      rw [List.eq_nil_iff_forall_not_mem]
      intro item hitem
      obtain ⟨key, ⟨x, hx, hy, -⟩ | ⟨y, hx, hy, -⟩ | ⟨x, y, inner, hx, hy, hinner, -⟩⟩ :=
        mem_collect_obj hitem
      · have hfield : Option.Rel Agree (xs.lookup key) (ys.lookup key) := h.get? key
        rw [hx, hy] at hfield
        cases hfield
      · have hfield : Option.Rel Agree (xs.lookup key) (ys.lookup key) := h.get? key
        rw [hx, hy] at hfield
        cases hfield
      · have hfield : Option.Rel Agree (xs.lookup key) (ys.lookup key) := h.get? key
        rw [hx, hy] at hfield
        cases hfield with
        | some hagree =>
            rw [ih key x hx y hagree] at hinner
            cases hinner

theorem collect_eq_nil_iff {a b : Json} (ha : a.isObject = true) (hb : b.isObject = true) :
    collect a b [] = [] ↔ Agree a b := by
  refine ⟨fun hnil => ?_, collect_eq_nil_of_agree a b⟩
  cases a with
  | obj xs =>
      cases b with
      | obj ys =>
          obtain ⟨zs, hzs, hpatched⟩ := editAll_collect xs ys
          rw [hnil] at hzs
          have hsame := Option.some.inj hzs
          rw [hsame]
          exact hpatched.agree
      | _ => cases hb
  | _ => cases ha

/-- No path of the difference has an empty or a prohibited segment. -/
def SafePaths (a b : Json) : Prop :=
  ∀ item ∈ collect a b [], ∀ segment ∈ item.path, segment ≠ "" ∧ segment ∉ unsafePathSegments

theorem SafePaths.swap {a b : Json} (h : SafePaths a b) : SafePaths b a := by
  intro item hitem segment hsegment
  obtain ⟨other, hother, hpath⟩ := exists_path_collect_swap b a item hitem
  exact h other hother segment (hpath ▸ hsegment)

theorem validateOperation_of_safe {item : Operation} (hpath : item.path ≠ [])
    (hsafe : ∀ segment ∈ item.path, segment ≠ "" ∧ segment ∉ unsafePathSegments) :
    validateOperation item = .ok () := by
  unfold validateOperation assertPath
  rw [bind_eq_ok_iff]
  refine ⟨(), (require_eq_ok_iff _ _ _).mpr (decide_eq_true hpath), ?_⟩
  rw [checkAll_eq_ok_iff]
  intro segment hsegment
  unfold assertSegment
  rw [bind_eq_ok_iff]
  have hsegmentSafe := hsafe segment hsegment
  exact ⟨(), (require_eq_ok_iff _ _ _).mpr (decide_eq_true hsegmentSafe.1),
    (require_eq_ok_iff _ _ _).mpr (decide_eq_true hsegmentSafe.2)⟩

/-- A difference with safe paths is taken, unless the states agree. -/
theorem diffControlState_of_safe {a b : Json} (ha : a.isObject = true) (hb : b.isObject = true)
    (hsafe : SafePaths a b) :
    diffControlState a b = if collect a b [] = [] then
      .error "control mutation did not change state" else .ok ⟨collect a b []⟩ := by
  have hpaths : ∀ item ∈ collect a b [], item.path ≠ [] := by
    cases a with
    | obj xs =>
        cases b with
        | obj ys => exact fun item hitem => collect_obj_path hitem
        | _ => cases hb
    | _ => cases ha
  split_ifs with hnil
  · unfold diffControlState assertControlState
    rw [ha, hb, hnil]
    rfl
  · rw [diffControlState_eq_ok_iff]
    exact ⟨ha, hb, hnil, fun item hitem =>
      validateOperation_of_safe (hpaths item hitem) (hsafe item hitem), rfl⟩

/-- Applying a difference leaves what the second state holds, and leaves alone
every path at or above which it has no operation. -/
theorem apply_diff_view {a b : Json} {change : Change} (h : diffControlState a b = .ok change) :
    ∃ next, applyControlStateChange a change = .ok next ∧ Agree next b ∧
      ∀ path, (∀ item ∈ change.operations, ¬ item.path <+: path) → spot path next = spot path a := by
  obtain ⟨next, hnext, hpatched⟩ := apply_diff h
  refine ⟨next, hnext, hpatched.agree, fun path hpath => ?_⟩
  unfold applyControlStateChange at hnext
  simp only [bind_eq_ok_iff, applyOperations_eq_ok_iff] at hnext
  obtain ⟨_, _, _, _, _, hedits⟩ := hnext
  have hview := congrFun (view_editAll hedits) path
  rw [writeAll_elsewhere] at hview
  · exact hview
  · intro write hwrite
    obtain ⟨item, hitem, rfl⟩ := List.mem_map.mp hwrite
    exact hpath item hitem

theorem diff_apply_inverse (a b : Json) (ha : a.isObject = true) (hb : b.isObject = true)
    (hsafe : SafePaths a b) :
    (diffControlState a b = .error "control mutation did not change state" ↔ Agree a b) ∧
      (¬ Agree a b → ∃ forward backward b' a',
        diffControlState a b = .ok forward ∧ diffControlState b a = .ok backward ∧
        applyControlStateChange a forward = .ok b' ∧ Agree b' b ∧
        applyControlStateChange b backward = .ok a' ∧ Agree a' a ∧
        (∀ path, (∀ item ∈ forward.operations, ¬ item.path <+: path) → spot path b' = spot path a) ∧
        ∀ path, (∀ item ∈ backward.operations, ¬ item.path <+: path) →
          spot path a' = spot path b) := by
  have hforward := diffControlState_of_safe ha hb hsafe
  have hbackward := diffControlState_of_safe hb ha hsafe.swap
  constructor
  · rw [hforward, ← collect_eq_nil_iff ha hb]
    split_ifs with hnil
    · exact ⟨fun _ => hnil, fun _ => rfl⟩
    · exact ⟨fun h => (nomatch h), fun h => absurd h hnil⟩
  · intro hdiffer
    have hsome : collect a b [] ≠ [] := fun hnil => hdiffer ((collect_eq_nil_iff ha hb).mp hnil)
    have hsome' : collect b a [] ≠ [] := fun hnil =>
      hdiffer ((collect_eq_nil_iff hb ha).mp hnil).symm
    rw [if_neg hsome] at hforward
    rw [if_neg hsome'] at hbackward
    obtain ⟨b', hb', hagreeB, hkeptB⟩ := apply_diff_view hforward
    obtain ⟨a', ha', hagreeA, hkeptA⟩ := apply_diff_view hbackward
    exact ⟨_, _, b', a', hforward, hbackward, hb', hagreeB, ha', hagreeA, hkeptB, hkeptA⟩

theorem diff_apply_inverse_values :
    let a : Json := .obj [("values", .obj [("a", .num 1), ("b", .num 2)]), ("on", .bool true)]
    let b : Json := .obj [("values", .obj [("a", .num 3), ("c", .arr [.num 2])])]
    (diffControlState a b = .error "control mutation did not change state" ↔ Agree a b) ∧
      (¬ Agree a b → ∃ forward backward b' a',
        diffControlState a b = .ok forward ∧ diffControlState b a = .ok backward ∧
        applyControlStateChange a forward = .ok b' ∧ Agree b' b ∧
        applyControlStateChange b backward = .ok a' ∧ Agree a' a ∧
        (∀ path, (∀ item ∈ forward.operations, ¬ item.path <+: path) → spot path b' = spot path a) ∧
        ∀ path, (∀ item ∈ backward.operations, ¬ item.path <+: path) →
          spot path a' = spot path b) := by
  intro a b
  have hsafe : SafePaths a b := by
    unfold SafePaths
    decide +kernel
  exact diff_apply_inverse a b rfl rfl hsafe

end Wardx.ControlStateChange
