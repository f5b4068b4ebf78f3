import Mathlib.Data.List.Dedup
import Mathlib.Data.List.Sort
import Wardx.Json
import Wardx.Lib.Check

/-!
# Changes of control state

`diffControlState` lists the operations that turn one state into another, and
`applyControlStateChange` runs a list of operations on a state. The texts that
`equal` compares are equal exactly when the values are, so values are compared.

Applying the difference of two states to the first gives a value that agrees
with the second field by field: `Patched`. The order of keys may differ, since
a key both states have keeps its place in the first.
-/
namespace Wardx.ControlStateChange

open Lib Json

inductive Edit
  | set (value : Json)
  | delete
deriving DecidableEq, Repr

structure Operation where
  edit : Edit
  path : List String
deriving DecidableEq, Repr

structure Change where
  operations : List Operation
deriving DecidableEq, Repr

/-- `UNSAFE_PATH_SEGMENTS`. -/
def unsafePathSegments : List String := ["__proto__", "constructor", "prototype"]

def assertControlState (value : Json) (label : String) : Except String Unit :=
  require value.isObject (label ++ " must be an object")

def assertSegment (segment : String) : Except String Unit := do
  require (segment ≠ "") "control change path segments must be non-empty strings"
  require (segment ∉ unsafePathSegments)
    ("control change path contains prohibited segment: " ++ segment)

def assertPath (path : List String) : Except String Unit := do
  require (path ≠ []) "control change path is required"
  checkAll assertSegment path

def validateOperation (item : Operation) : Except String Unit := assertPath item.path

/-! ## Differences -/

/-- The keys of either side, by code units. -/
def unionKeys (left right : Fields) : List String :=
  (left.map Prod.fst ++ right.map Prod.fst).dedup.insertionSort utf16Le

mutual
/-- `collect`. -/
def collect (left right : Json) (path : List String) : List Operation :=
  if left = right then [] else
    match left, right with
    | .obj xs, .obj ys => (unionKeys xs ys).flatMap fun key => collectKey key xs ys path
    | _, _ => [⟨.set right, path⟩]

/-- One round of the loop over the keys. -/
def collectKey (key : String) (xs ys : Fields) (path : List String) : List Operation :=
  match xs with
  | [] =>
      match ys.lookup key with
      | some value => [⟨.set value, path ++ [key]⟩]
      | none => []
  | (k, x) :: rest =>
      if key = k then
        match ys.lookup key with
        | some y => collect x y (path ++ [key])
        | none => [⟨.delete, path ++ [key]⟩]
      else collectKey key rest ys path
end

/-- `diffControlState`. -/
def diffControlState (before after : Json) : Except String Change := do
  assertControlState before "control state before"
  assertControlState after "control state after"
  let operations := collect before after []
  require (operations ≠ []) "control mutation did not change state"
  checkAll validateOperation operations
  pure ⟨operations⟩

/-! ## Applying -/

def Edit.onField (edit : Edit) (key : String) (fields : Fields) : Fields :=
  match edit with
  | .set value => setField key value fields
  | .delete => deleteField key fields

/-- Walk to the object that holds the last key and edit it there. -/
def editAt (edit : Edit) : List String → Json → Option Json
  | [key], .obj fields => some (.obj (edit.onField key fields))
  | key :: rest, .obj fields =>
      match fields.lookup key with
      | some child =>
          (editAt edit rest child).map fun edited => .obj (setField key edited fields)
      | none => none
  | _, _ => none

/-- The keys up to the first that does not hold an object. -/
def unresolved : List String → Json → List String
  | key :: rest, target =>
      match target.get? key with
      | some child => if child.isObject then key :: unresolved rest child else [key]
      | none => [key]
  | [], _ => []

def applyOperation (state : Json) (item : Operation) : Except String Json := do
  validateOperation item
  match editAt item.edit item.path state with
  | some next => pure next
  | none =>
      .error ("control change path does not resolve to an object: " ++
        ".".intercalate (unresolved item.path.dropLast state))

def applyOperations (state : Json) : List Operation → Except String Json
  | [] => .ok state
  | item :: items => do
      let next ← applyOperation state item
      applyOperations next items

/-- `applyControlStateChange`. -/
def applyControlStateChange (state : Json) (change : Change) : Except String Json := do
  assertControlState state "control state"
  require (change.operations ≠ []) "control change operations must not be empty"
  applyOperations state change.operations

/-! ## The result of applying a difference -/

/-- `c` is `a` with exactly what differs from `b` replaced by what `b` has. -/
inductive Patched : Json → Json → Json → Prop
  | same (a : Json) : Patched a a a
  | replaced (a b : Json) (hne : a ≠ b) (hobj : a.isObject = false ∨ b.isObject = false) :
      Patched a b b
  | fields (xs ys zs : Fields) (hne : Json.obj xs ≠ .obj ys)
      (deleted : ∀ k, ys.lookup k = none → zs.lookup k = none)
      (added : ∀ k y, xs.lookup k = none → ys.lookup k = some y → zs.lookup k = some y)
      (kept : ∀ k x y, xs.lookup k = some x → ys.lookup k = some y → (zs.lookup k).isSome = true)
      (patched : ∀ k x y z, xs.lookup k = some x → ys.lookup k = some y →
        zs.lookup k = some z → Patched x y z) :
      Patched (.obj xs) (.obj ys) (.obj zs)

theorem Patched.eq_of_eq {a b c : Json} (h : Patched a b c) (hab : a = b) : c = a := by
  cases h with
  | same => rfl
  | replaced _ _ hne => exact absurd hab hne
  | fields _ _ _ hne => exact absurd hab hne

/-- A field of the patched object, from the field of both sides. -/
theorem Patched.lookup {xs ys zs : Fields} (h : Patched (.obj xs) (.obj ys) (.obj zs)) (k : String) :
    (ys.lookup k = none ∧ zs.lookup k = none) ∨
      (∃ y, xs.lookup k = none ∧ ys.lookup k = some y ∧ zs.lookup k = some y) ∨
      ∃ x y z, xs.lookup k = some x ∧ ys.lookup k = some y ∧ zs.lookup k = some z ∧
        Patched x y z := by
  cases h with
  | same =>
      cases hx : xs.lookup k with
      | none => exact Or.inl ⟨rfl, rfl⟩
      | some x => exact Or.inr (Or.inr ⟨x, x, x, rfl, rfl, rfl, Patched.same x⟩)
  | replaced _ _ _ hobj => simp [isObject] at hobj
  | fields _ _ _ _ deleted added kept patched =>
      cases hy : ys.lookup k with
      | none => exact Or.inl ⟨rfl, deleted k hy⟩
      | some y =>
          cases hx : xs.lookup k with
          | none => exact Or.inr (Or.inl ⟨y, rfl, rfl, added k y hx hy⟩)
          | some x =>
              obtain ⟨z, hz⟩ := Option.isSome_iff_exists.mp (kept k x y hx hy)
              exact Or.inr (Or.inr ⟨x, y, z, rfl, rfl, hz, patched k x y z hx hy hz⟩)

/-- The patched object has the fields of the second. -/
theorem Patched.isSome_lookup {xs ys zs : Fields} (h : Patched (.obj xs) (.obj ys) (.obj zs))
    (k : String) : (zs.lookup k).isSome = (ys.lookup k).isSome := by
  obtain ⟨hy, hz⟩ | ⟨y, _, hy, hz⟩ | ⟨x, y, z, _, hy, hz, _⟩ := h.lookup k
  · rw [hy, hz]
  · rw [hy, hz]
  · rw [hy, hz]
    rfl

/-- A field both sides agree on keeps its value. -/
theorem Patched.lookup_of_eq {xs ys zs : Fields} (h : Patched (.obj xs) (.obj ys) (.obj zs))
    {k : String} (hk : xs.lookup k = ys.lookup k) : zs.lookup k = xs.lookup k := by
  obtain ⟨hy, hz⟩ | ⟨y, hx, hy, _⟩ | ⟨x, y, z, hx, hy, hz, hp⟩ := h.lookup k
  · rw [hk, hy, hz]
  · rw [hx, hy] at hk
    cases hk
  · rw [hx, hy] at hk
    rw [hz, hx, hp.eq_of_eq (Option.some.inj hk)]

/-- Where the second side holds no object, its value is taken as it is. -/
theorem Patched.eq_of_not_object {a b c : Json} (h : Patched a b c) (hb : b.isObject = false) :
    c = b := by
  cases h with
  | same => rfl
  | replaced => rfl
  | fields => cases hb

/-! ## Applying a difference patches -/

/-- The edits of a list of operations, in order. -/
def editAll : List Operation → Json → Option Json
  | [], state => some state
  | item :: items, state => (editAt item.edit item.path state).bind (editAll items)

theorem editAll_append (items items' : List Operation) (state : Json) :
    editAll (items ++ items') state = (editAll items state).bind (editAll items') := by
  induction items generalizing state with
  | nil => rfl
  | cons item items ih =>
      simp only [List.cons_append, editAll, Option.bind_assoc]
      congr 1
      funext next
      exact ih next

theorem applyOperation_eq_ok_iff (state next : Json) (item : Operation) :
    applyOperation state item = .ok next ↔
      validateOperation item = .ok () ∧ editAt item.edit item.path state = some next := by
  unfold applyOperation
  rw [bind_eq_ok_iff]
  constructor
  · rintro ⟨⟨⟩, hv, hedit⟩
    split at hedit
    · rename_i edited he
      exact ⟨hv, he.trans (congrArg some (Except.ok.inj hedit))⟩
    · cases hedit
  · rintro ⟨hv, he⟩
    exact ⟨(), hv, by rw [he]; rfl⟩

theorem applyOperations_eq_ok_iff (state next : Json) (items : List Operation) :
    applyOperations state items = .ok next ↔
      (∀ item ∈ items, validateOperation item = .ok ()) ∧ editAll items state = some next := by
  induction items generalizing state with
  | nil => simp [applyOperations, editAll]
  | cons item items ih =>
      simp only [applyOperations, bind_eq_ok_iff, applyOperation_eq_ok_iff, ih, List.forall_mem_cons,
        editAll, Option.bind_eq_some_iff]
      constructor
      · rintro ⟨edited, ⟨hv, he⟩, hvs, hrest⟩
        exact ⟨⟨hv, hvs⟩, edited, he, hrest⟩
      · rintro ⟨⟨hv, hvs⟩, edited, he, hrest⟩
        exact ⟨edited, ⟨hv, he⟩, hvs, hrest⟩

/-- The operations on the part of a state under one key. -/
def Operation.under (key : String) (item : Operation) : Operation :=
  { item with path := key :: item.path }

theorem collectKey_eq (key : String) (xs ys : Fields) (path : List String) :
    collectKey key xs ys path =
      match xs.lookup key, ys.lookup key with
      | some x, some y => collect x y (path ++ [key])
      | some _, none => [⟨.delete, path ++ [key]⟩]
      | none, some value => [⟨.set value, path ++ [key]⟩]
      | none, none => [] := by
  induction xs with
  | nil =>
      simp only [collectKey, List.lookup_nil]
      cases ys.lookup key <;> rfl
  | cons field rest ih =>
      obtain ⟨k, x⟩ := field
      rw [collectKey, lookup_field]
      by_cases hk : key = k
      · rw [if_pos hk, if_pos hk]
        cases ys.lookup key <;> rfl
      · rw [if_neg hk, if_neg hk, ih]

/-- The operations of two different values. -/
theorem collect_obj {xs ys : Fields} (hne : Json.obj xs ≠ .obj ys) (path : List String) :
    collect (.obj xs) (.obj ys) path =
      (unionKeys xs ys).flatMap fun key => collectKey key xs ys path := by
  rw [collect, if_neg hne]

theorem collect_replaced {left right : Json} (hne : left ≠ right)
    (hobj : left.isObject = false ∨ right.isObject = false) (path : List String) :
    collect left right path = [⟨.set right, path⟩] := by
  unfold collect
  rw [if_neg hne]
  cases left <;> cases right <;> first | rfl | simp [isObject] at hobj

theorem collect_self (value : Json) (path : List String) : collect value value path = [] := by
  unfold collect
  rw [if_pos rfl]

/-- Two values are equal, differ as objects, or are replaced whole. -/
theorem collect_cases (left right : Json) :
    left = right ∨
      (left ≠ right ∧ (left.isObject = false ∨ right.isObject = false)) ∨
      ∃ xs ys, left = .obj xs ∧ right = .obj ys ∧ Json.obj xs ≠ .obj ys := by
  by_cases h : left = right
  · exact Or.inl h
  · cases left with
    | obj xs =>
        cases right with
        | obj ys => exact Or.inr (Or.inr ⟨xs, ys, rfl, rfl, h⟩)
        | _ => exact Or.inr (Or.inl ⟨h, Or.inr rfl⟩)
    | _ => exact Or.inr (Or.inl ⟨h, Or.inl rfl⟩)

theorem collect_cons_leaf (key : String) {left : Json} (hleft : left.isObject = false)
    (right : Json) (path : List String) :
    collect left right (key :: path) = (collect left right path).map (Operation.under key) := by
  by_cases h : left = right
  · rw [h, collect_self, collect_self, List.map_nil]
  · rw [collect_replaced h (Or.inl hleft), collect_replaced h (Or.inl hleft)]
    rfl

mutual
/-- A longer path is a prefix of every operation's path. -/
theorem collect_cons (key : String) : ∀ (left right : Json) (path : List String),
    collect left right (key :: path) = (collect left right path).map (Operation.under key)
  | .obj xs, right, path => by
      obtain rfl | ⟨hne, hobj⟩ | ⟨_, ys, hx, rfl, hne⟩ := collect_cases (.obj xs) right
      · rw [collect_self, collect_self, List.map_nil]
      · rw [collect_replaced hne hobj, collect_replaced hne hobj]
        rfl
      · cases hx
        rw [collect_obj hne, collect_obj hne, List.map_flatMap]
        congr 1
        funext k
        exact collectKey_cons key k xs ys path
  | .null, right, path => collect_cons_leaf key rfl right path
  | .bool _, right, path => collect_cons_leaf key rfl right path
  | .num _, right, path => collect_cons_leaf key rfl right path
  | .str _, right, path => collect_cons_leaf key rfl right path
  | .arr _, right, path => collect_cons_leaf key rfl right path

theorem collectKey_cons (key k : String) : ∀ (xs ys : Fields) (path : List String),
    collectKey k xs ys (key :: path) = (collectKey k xs ys path).map (Operation.under key)
  | [], ys, path => by
      rw [collectKey, collectKey]
      cases ys.lookup k <;> rfl
  | (j, x) :: rest, ys, path => by
      rw [collectKey, collectKey]
      split_ifs
      · cases ys.lookup k with
        | none => rfl
        | some y => exact collect_cons key x y (path ++ [k])
      · exact collectKey_cons key k rest ys path
end

/-- What an edit leaves of an object is an object. -/
theorem editAt_isObject {edit : Edit} {path : List String} {state next : Json}
    (h : editAt edit path state = some next) : ∃ fields, next = .obj fields := by
  match path, state with
  | [key], .obj fields =>
      simp only [editAt, Option.some.injEq] at h
      exact ⟨_, h.symm⟩
  | key :: second :: rest, .obj fields =>
      simp only [editAt] at h
      split at h
      · obtain ⟨edited, _, rfl⟩ := Option.map_eq_some_iff.mp h
        exact ⟨_, rfl⟩
      · cases h
  | [], _ => simp [editAt] at h
  | _ :: _, .null | _ :: _, .bool _ | _ :: _, .num _ | _ :: _, .str _ | _ :: _, .arr _ =>
      simp [editAt] at h

/-- Operations under a key run on what the key holds. -/
theorem editAll_under {key : String} {fields : Fields} {child edited : Json}
    {items : List Operation} (hpaths : ∀ item ∈ items, item.path ≠ [])
    (hget : fields.lookup key = some child) (h : editAll items child = some edited) :
    editAll (items.map (Operation.under key)) (.obj fields) =
      some (.obj (setField key edited fields)) := by
  induction items generalizing fields child with
  | nil =>
      cases h
      rw [setField_self hget]
      rfl
  | cons item items ih =>
      rw [List.forall_mem_cons] at hpaths
      rw [editAll, Option.bind_eq_some_iff] at h
      obtain ⟨next, hnext, hrest⟩ := h
      have hedit : editAt item.edit (key :: item.path) (.obj fields) =
          some (.obj (setField key next fields)) := by
        obtain ⟨segment, rest, hpath⟩ := List.exists_cons_of_ne_nil hpaths.1
        rw [hpath] at hnext ⊢
        simp [editAt, hget, hnext]
      have hget' : (setField key next fields).lookup key = some next := by
        rw [lookup_setField, if_pos rfl]
      have hih := ih hpaths.2 hget' hrest
      rw [setField_setField hget] at hih
      rw [List.map_cons, editAll, Operation.under, hedit]
      exact hih

/-- Where the operations of two objects come from. -/
theorem mem_collectKey {key : String} {xs ys : Fields} {item : Operation}
    (h : item ∈ collectKey key xs ys []) :
    (∃ x, xs.lookup key = some x ∧ ys.lookup key = none ∧ item = ⟨.delete, [key]⟩) ∨
      (∃ y, xs.lookup key = none ∧ ys.lookup key = some y ∧ item = ⟨.set y, [key]⟩) ∨
      ∃ x y inner, xs.lookup key = some x ∧ ys.lookup key = some y ∧
        inner ∈ collect x y [] ∧ item = inner.under key := by
  rw [collectKey_eq] at h
  cases hx : xs.lookup key with
  | none =>
      cases hy : ys.lookup key with
      | none =>
          rw [hx, hy] at h
          cases h
      | some y =>
          rw [hx, hy] at h
          exact Or.inr (Or.inl ⟨y, rfl, rfl, List.mem_singleton.mp h⟩)
  | some x =>
      cases hy : ys.lookup key with
      | none =>
          rw [hx, hy] at h
          exact Or.inl ⟨x, rfl, rfl, List.mem_singleton.mp h⟩
      | some y =>
          rw [hx, hy] at h
          simp only [List.nil_append, collect_cons, List.mem_map] at h
          obtain ⟨inner, hinner, rfl⟩ := h
          exact Or.inr (Or.inr ⟨x, y, inner, rfl, rfl, hinner, rfl⟩)

theorem mem_collect_obj {xs ys : Fields} {item : Operation}
    (h : item ∈ collect (.obj xs) (.obj ys) []) :
    ∃ key, (∃ x, xs.lookup key = some x ∧ ys.lookup key = none ∧ item = ⟨.delete, [key]⟩) ∨
      (∃ y, xs.lookup key = none ∧ ys.lookup key = some y ∧ item = ⟨.set y, [key]⟩) ∨
      ∃ x y inner, xs.lookup key = some x ∧ ys.lookup key = some y ∧
        inner ∈ collect x y [] ∧ item = inner.under key := by
  by_cases hne : Json.obj xs = .obj ys
  · rw [hne, collect_self] at h
    cases h
  · rw [collect_obj hne, List.mem_flatMap] at h
    obtain ⟨key, _, hmem⟩ := h
    exact ⟨key, mem_collectKey hmem⟩

theorem collect_obj_path {xs ys : Fields} {item : Operation}
    (h : item ∈ collect (.obj xs) (.obj ys) []) : item.path ≠ [] := by
  obtain ⟨key, ⟨x, _, _, rfl⟩ | ⟨y, _, _, rfl⟩ | ⟨x, y, inner, _, _, _, rfl⟩⟩ := mem_collect_obj h
  · exact List.cons_ne_nil _ _
  · exact List.cons_ne_nil _ _
  · exact List.cons_ne_nil _ _

/-- One field of the patched object, from the field of both sides. -/
def PatchedField : Option Json → Option Json → Option Json → Prop
  | _, none, c => c = none
  | none, some y, c => c = some y
  | some x, some y, c => ∃ z, c = some z ∧ Patched x y z

/-- Under any key that holds `x`, the operations of `x` and `y` leave a patch. -/
def Patches (x : Json) : Prop :=
  ∀ (y : Json) (key : String) (fs : Fields), fs.lookup key = some x →
    ∃ z, editAll (collect x y [key]) (.obj fs) = some (.obj (setField key z fs)) ∧ Patched x y z

/-- The operations of one key edit that key and no other. -/
theorem editAll_collectKey {xs fs : Fields} (ys : Fields) {key : String}
    (hx : ∀ x, xs.lookup key = some x → Patches x) (hfs : fs.lookup key = xs.lookup key) :
    ∃ zs, editAll (collectKey key xs ys []) (.obj fs) = some (.obj zs) ∧
      (∀ k, k ≠ key → zs.lookup k = fs.lookup k) ∧
      PatchedField (xs.lookup key) (ys.lookup key) (zs.lookup key) := by
  rw [collectKey_eq]
  cases hxs : xs.lookup key with
  | none =>
      cases hys : ys.lookup key with
      | none => exact ⟨fs, rfl, fun _ _ => rfl, hfs.trans hxs⟩
      | some y =>
          refine ⟨setField key y fs, rfl, fun k hk => ?_, ?_⟩
          · rw [lookup_setField, if_neg hk]
          · rw [lookup_setField, if_pos rfl]
            rfl
  | some x =>
      cases hys : ys.lookup key with
      | none =>
          refine ⟨deleteField key fs, rfl, fun k hk => ?_, ?_⟩
          · rw [lookup_deleteField, if_neg hk]
          · rw [lookup_deleteField, if_pos rfl]
            rfl
      | some y =>
          obtain ⟨z, hz, hpatched⟩ := hx x hxs y key fs (hfs.trans hxs)
          refine ⟨setField key z fs, hz, fun k hk => ?_, ?_⟩
          · rw [lookup_setField, if_neg hk]
          · rw [lookup_setField, if_pos rfl]
            exact ⟨z, rfl, hpatched⟩

/-- Distinct keys are edited one after the other. -/
theorem editAll_keys {xs fs : Fields} (ys : Fields) {keys : List String} (hnodup : keys.Nodup)
    (hx : ∀ key x, xs.lookup key = some x → Patches x)
    (hfs : ∀ key ∈ keys, fs.lookup key = xs.lookup key) :
    ∃ zs, editAll (keys.flatMap fun key => collectKey key xs ys []) (.obj fs) = some (.obj zs) ∧
      (∀ k, k ∉ keys → zs.lookup k = fs.lookup k) ∧
      ∀ k ∈ keys, PatchedField (xs.lookup k) (ys.lookup k) (zs.lookup k) := by
  induction keys generalizing fs with
  | nil => exact ⟨fs, rfl, fun _ _ => rfl, by simp⟩
  | cons key keys ih =>
      rw [List.nodup_cons] at hnodup
      obtain ⟨ms, hms, hother, hkey⟩ :=
        editAll_collectKey ys (hx key) (hfs key List.mem_cons_self)
      have hfs' : ∀ k ∈ keys, ms.lookup k = xs.lookup k := by
        intro k hk
        rw [hother k (ne_of_mem_of_not_mem hk hnodup.1)]
        exact hfs k (List.mem_cons_of_mem key hk)
      obtain ⟨zs, hzs, hrest, hkeys⟩ := ih hnodup.2 hfs'
      refine ⟨zs, ?_, fun k hk => ?_, fun k hk => ?_⟩
      · rw [List.flatMap_cons, editAll_append, hms]
        exact hzs
      · rw [List.mem_cons, not_or] at hk
        rw [hrest k hk.2, hother k hk.1]
      · rw [List.mem_cons] at hk
        obtain rfl | hk := hk
        · rw [hrest k hnodup.1]
          exact hkey
        · exact hkeys k hk

theorem mem_unionKeys {xs ys : Fields} {key : String} :
    key ∈ unionKeys xs ys ↔ (xs.lookup key).isSome = true ∨ (ys.lookup key).isSome = true := by
  unfold unionKeys
  rw [List.mem_insertionSort, List.mem_dedup, List.mem_append, isSome_lookup, isSome_lookup]

theorem nodup_unionKeys (xs ys : Fields) : (unionKeys xs ys).Nodup :=
  (List.perm_insertionSort utf16Le _).nodup_iff.mpr (List.nodup_dedup _)

/-- The difference of two objects patches the first. -/
theorem editAll_collect_of_patches {xs : Fields} (ys : Fields)
    (hx : ∀ key x, xs.lookup key = some x → Patches x) :
    ∃ zs, editAll (collect (.obj xs) (.obj ys) []) (.obj xs) = some (.obj zs) ∧
      Patched (.obj xs) (.obj ys) (.obj zs) := by
  by_cases hne : Json.obj xs = .obj ys
  · cases hne
    rw [collect_self]
    exact ⟨xs, rfl, Patched.same _⟩
  · rw [collect_obj hne]
    obtain ⟨zs, hzs, hother, hkeys⟩ :=
      editAll_keys ys (nodup_unionKeys xs ys) hx fun key _ => rfl
    -- A key of neither side is in neither result.
    have hfield : ∀ k, PatchedField (xs.lookup k) (ys.lookup k) (zs.lookup k) := by
      intro k
      by_cases hk : k ∈ unionKeys xs ys
      · exact hkeys k hk
      · rw [hother k hk]
        rw [mem_unionKeys, not_or, Option.not_isSome_iff_eq_none,
          Option.not_isSome_iff_eq_none] at hk
        rw [hk.1, hk.2]
        rfl
    refine ⟨zs, hzs, Patched.fields xs ys zs hne ?_ ?_ ?_ ?_⟩
    · intro k hy
      have h := hfield k
      rw [hy] at h
      exact h
    · intro k y hxk hy
      have h := hfield k
      rw [hxk, hy] at h
      exact h
    · intro k x y hxk hy
      have h := hfield k
      rw [hxk, hy] at h
      obtain ⟨z, hz, _⟩ := h
      rw [hz]
      rfl
    · intro k x y z hxk hy hz
      have h := hfield k
      rw [hxk, hy, hz] at h
      obtain ⟨z', hz', hp⟩ := h
      cases hz'
      exact hp

theorem patches_of_not_object {x : Json} (hx : x.isObject = false) : Patches x := by
  intro y key fs hget
  by_cases h : x = y
  · subst h
    rw [collect_self]
    exact ⟨x, by rw [setField_self hget]; rfl, Patched.same x⟩
  · rw [collect_replaced h (Or.inl hx)]
    exact ⟨y, rfl, Patched.replaced x y h (Or.inl hx)⟩

mutual
theorem patches : ∀ x : Json, Patches x
  | .obj xs => by
      intro y key fs hget
      obtain rfl | ⟨hne, hobj⟩ | ⟨_, ys, hxs, rfl, _⟩ := collect_cases (.obj xs) y
      · rw [collect_self]
        exact ⟨_, by rw [setField_self hget]; rfl, Patched.same _⟩
      · rw [collect_replaced hne hobj]
        exact ⟨y, rfl, Patched.replaced _ y hne hobj⟩
      · cases hxs
        obtain ⟨zs, hzs, hp⟩ := editAll_collect_of_patches ys (patches_fields xs)
        refine ⟨.obj zs, ?_, hp⟩
        rw [collect_cons]
        exact editAll_under (fun item hitem => collect_obj_path hitem) hget hzs
  | .null => patches_of_not_object rfl
  | .bool _ => patches_of_not_object rfl
  | .num _ => patches_of_not_object rfl
  | .str _ => patches_of_not_object rfl
  | .arr _ => patches_of_not_object rfl

theorem patches_fields : ∀ (xs : Fields) (key : String) (x : Json),
    xs.lookup key = some x → Patches x
  | [], key, x => by
      intro h
      cases h
  | (k, v) :: rest, key, x => by
      intro h
      rw [lookup_field] at h
      split_ifs at h
      · cases h
        exact patches v
      · exact patches_fields rest key x h
end

/-- Applying the difference of two objects to the first patches it. -/
theorem editAll_collect (xs ys : Fields) :
    ∃ zs, editAll (collect (.obj xs) (.obj ys) []) (.obj xs) = some (.obj zs) ∧
      Patched (.obj xs) (.obj ys) (.obj zs) :=
  editAll_collect_of_patches ys (patches_fields xs)

theorem diffControlState_eq_ok_iff (before after : Json) (change : Change) :
    diffControlState before after = .ok change ↔
      before.isObject = true ∧ after.isObject = true ∧ collect before after [] ≠ [] ∧
        (∀ item ∈ collect before after [], validateOperation item = .ok ()) ∧
        change = ⟨collect before after []⟩ := by
  unfold diffControlState assertControlState
  simp only [bind_eq_ok_iff, require_eq_ok_iff, exists_const, checkAll_eq_ok_iff,
    decide_eq_true_eq, pure, Except.pure, Except.ok.injEq]
  constructor
  · rintro ⟨hb, ha, hne, hvalid, rfl⟩
    exact ⟨hb, ha, hne, hvalid, rfl⟩
  · rintro ⟨hb, ha, hne, hvalid, rfl⟩
    exact ⟨hb, ha, hne, hvalid, rfl⟩

/-- A difference applies to the state it was taken from, and patches it. -/
theorem apply_diff {before after : Json} {change : Change}
    (h : diffControlState before after = .ok change) :
    ∃ next, applyControlStateChange before change = .ok next ∧ Patched before after next := by
  obtain ⟨hb, ha, hne, hvalid, rfl⟩ := (diffControlState_eq_ok_iff _ _ _).mp h
  cases before with
  | obj xs =>
      cases after with
      | obj ys =>
          obtain ⟨zs, hzs, hp⟩ := editAll_collect xs ys
          refine ⟨.obj zs, ?_, hp⟩
          unfold applyControlStateChange assertControlState
          simp only [bind_eq_ok_iff, require_eq_ok_iff, exists_const, decide_eq_true_eq]
          exact ⟨rfl, hne, (applyOperations_eq_ok_iff _ _ _).mpr ⟨hvalid, hzs⟩⟩
      | _ => cases ha
  | _ => cases hb

/-! ## Fields of a patch -/

theorem Patched.patchedField {xs ys zs : Fields} (h : Patched (.obj xs) (.obj ys) (.obj zs))
    (key : String) : PatchedField (xs.lookup key) (ys.lookup key) (zs.lookup key) := by
  obtain ⟨hy, hz⟩ | ⟨y, hx, hy, hz⟩ | ⟨x, y, z, hx, hy, hz, hp⟩ := h.lookup key
  · rw [hy, hz]
    cases xs.lookup key <;> rfl
  · rw [hx, hy, hz]
    rfl
  · rw [hx, hy, hz]
    exact ⟨z, rfl, hp⟩

theorem Patched.isObject {x y z : Json} (h : Patched x y z) (hx : x.isObject = true)
    (hy : y.isObject = true) : z.isObject = true := by
  cases h with
  | same => exact hx
  | replaced => exact hy
  | fields => rfl

/-- A patched object has each field patched. -/
theorem Patched.get? {x y z : Json} (h : Patched x y z) (hx : x.isObject = true)
    (hy : y.isObject = true) (key : String) :
    PatchedField (x.get? key) (y.get? key) (z.get? key) := by
  have hz := h.isObject hx hy
  cases x with
  | obj xs =>
      cases y with
      | obj ys =>
          cases z with
          | obj zs => exact h.patchedField key
          | _ => cases hz
      | _ => cases hy
  | _ => cases hx

theorem PatchedField.eq_of_eq {x c : Option Json} (h : PatchedField x x c) : c = x := by
  cases x with
  | none => exact h
  | some a =>
      obtain ⟨z, rfl, hp⟩ := h
      rw [hp.eq_of_eq rfl]

/-- A field that is written no object is written as it is. -/
theorem PatchedField.eq_of_not_object {x c : Option Json} {y : Json}
    (h : PatchedField x (some y) c) (hy : y.isObject = false) : c = some y := by
  cases x with
  | none => exact h
  | some a =>
      obtain ⟨z, rfl, hp⟩ := h
      rw [hp.eq_of_not_object hy]

theorem Patched.eq_of_plain {x y z : Json} (h : Patched x y z) (hz : z.isObject = false) : z = y := by
  cases h with
  | same => rfl
  | replaced => rfl
  | fields => cases hz

/-- A field of a patch that holds no object is the written one. -/
theorem PatchedField.eq_of_plain {x y c : Option Json} (h : PatchedField x y c)
    (hc : ∀ value, c = some value → value.isObject = false) : c = y := by
  cases y with
  | none => cases x <;> exact h
  | some b =>
      cases x with
      | none => exact h
      | some a =>
          obtain ⟨z, rfl, hp⟩ := h
          rw [hp.eq_of_plain (hc z rfl)]

theorem Patched.get?_eq_of_plain {x y z : Json} (h : Patched x y z) {key : String}
    (hz : ∀ value, z.get? key = some value → value.isObject = false) : z.get? key = y.get? key := by
  cases h with
  | same => rfl
  | replaced => rfl
  | fields xs ys zs hne deleted added kept patched =>
      exact ((Patched.fields xs ys zs hne deleted added kept patched).patchedField key).eq_of_plain hz

theorem PatchedField.eq_none {x c : Option Json} (h : PatchedField x none c) : c = none := by
  cases x <;> exact h

end Wardx.ControlStateChange
