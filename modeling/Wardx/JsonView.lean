import Wardx.Json
import Wardx.Lib.PathWrites

/-!
# What a JSON value holds, path by path

Two values agree when every path of keys leads to the same in both. That is
equality up to the order of keys; an array is seen as a whole, so inside one
the order of keys counts too.
-/
namespace Wardx.Json

open Lib

/-! ## Induction on what fields hold -/

mutual
/-- What holds of values that are no objects, and of an object when it holds of
what its fields hold, holds of all values. -/
theorem fields_induction {P : Json → Prop} (hplain : ∀ value, value.isObject = false → P value)
    (hobject : ∀ fields, (∀ key value, fields.lookup key = some value → P value) →
      P (.obj fields)) : ∀ value, P value
  | .obj fields => hobject fields (fields_induction_lookup hplain hobject fields)
  | .null => hplain _ rfl
  | .bool _ => hplain _ rfl
  | .num _ => hplain _ rfl
  | .str _ => hplain _ rfl
  | .arr _ => hplain _ rfl

theorem fields_induction_lookup {P : Json → Prop}
    (hplain : ∀ value, value.isObject = false → P value)
    (hobject : ∀ fields, (∀ key value, fields.lookup key = some value → P value) →
      P (.obj fields)) :
    ∀ (fields : Fields) (key : String) (value : Json), fields.lookup key = some value → P value
  | [], _, _ => fun h => by cases h
  | (k, v) :: rest, key, value => fun h => by
      rw [lookup_field] at h
      split_ifs at h
      · cases h
        exact fields_induction hplain hobject v
      · exact fields_induction_lookup hplain hobject rest key value h
end

/-! ## Spots -/

/-- What a path of keys leads to. -/
inductive Spot
  | missing
  | object
  | plain (value : Json)
deriving DecidableEq, Repr

def spot : List String → Json → Spot
  | [], value => if value.isObject then .object else .plain value
  | key :: rest, value =>
      match value.get? key with
      | some child => spot rest child
      | none => .missing

def view (value : Json) : View String Spot := fun path => spot path value

def Agree (a b : Json) : Prop := ∀ path, spot path a = spot path b

theorem Agree.refl (a : Json) : Agree a a := fun _ => rfl

theorem Agree.symm {a b : Json} (h : Agree a b) : Agree b a := fun path => (h path).symm

theorem Agree.trans {a b c : Json} (hab : Agree a b) (hbc : Agree b c) : Agree a c :=
  fun path => (hab path).trans (hbc path)

theorem agree_iff_view (a b : Json) : Agree a b ↔ view a = view b :=
  ⟨fun h => funext h, fun h path => congrFun h path⟩

theorem spot_nil (value : Json) :
    spot [] value = if value.isObject = true then .object else .plain value :=
  rfl

theorem spot_nil_ne_missing (value : Json) : spot [] value ≠ .missing := by
  rw [spot_nil]
  split_ifs
  · exact Spot.noConfusion
  · exact Spot.noConfusion

theorem spot_cons_of_some {value child : Json} {key : String} (h : value.get? key = some child)
    (rest : List String) : spot (key :: rest) value = spot rest child := by
  rw [spot, h]

theorem spot_cons_of_none {value : Json} {key : String} (h : value.get? key = none)
    (rest : List String) : spot (key :: rest) value = .missing := by
  rw [spot, h]

/-- A value that is no object agrees only with itself. -/
theorem Agree.eq_of_plain {a b : Json} (h : Agree a b) (ha : a.isObject = false) : a = b := by
  have hnil := h []
  rw [spot_nil, spot_nil, if_neg (by rw [ha]; exact Bool.false_ne_true)] at hnil
  split_ifs at hnil
  exact Spot.plain.inj hnil

theorem Agree.isObject {a b : Json} (h : Agree a b) : a.isObject = b.isObject := by
  cases ha : a.isObject with
  | false => rw [← h.eq_of_plain ha, ha]
  | true =>
      cases hb : b.isObject with
      | true => rfl
      | false => rw [h.symm.eq_of_plain hb, ha] at hb; exact hb

/-- Values that agree agree field by field. -/
theorem Agree.get? {a b : Json} (h : Agree a b) (key : String) :
    Option.Rel Agree (a.get? key) (b.get? key) := by
  cases ha : a.get? key with
  | none =>
      cases hb : b.get? key with
      | none => exact Option.Rel.none
      | some y =>
          have hkey := h [key]
          rw [spot_cons_of_none ha, spot_cons_of_some hb] at hkey
          exact absurd hkey.symm (spot_nil_ne_missing y)
  | some x =>
      cases hb : b.get? key with
      | none =>
          have hkey := h [key]
          rw [spot_cons_of_some ha, spot_cons_of_none hb] at hkey
          exact absurd hkey (spot_nil_ne_missing x)
      | some y =>
          refine Option.Rel.some fun path => ?_
          have hpath := h (key :: path)
          rw [spot_cons_of_some ha, spot_cons_of_some hb] at hpath
          exact hpath

theorem agree_obj {xs ys : Fields}
    (h : ∀ key, Option.Rel Agree (xs.lookup key) (ys.lookup key)) : Agree (.obj xs) (.obj ys) := by
  intro path
  cases path with
  | nil => rfl
  | cons key rest =>
      have hkey : Option.Rel Agree ((Json.obj xs).get? key) ((Json.obj ys).get? key) := h key
      cases hx : (Json.obj xs).get? key with
      | none =>
          rw [hx] at hkey
          cases hy : (Json.obj ys).get? key with
          | none => rw [spot_cons_of_none hx, spot_cons_of_none hy]
          | some y =>
              rw [hy] at hkey
              cases hkey
      | some x =>
          rw [hx] at hkey
          cases hy : (Json.obj ys).get? key with
          | none =>
              rw [hy] at hkey
              cases hkey
          | some y =>
              rw [hy] at hkey
              cases hkey with
              | some hxy => rw [spot_cons_of_some hx, spot_cons_of_some hy, hxy rest]

/-- Optional values that agree. -/
theorem agreeField_refl (a : Option Json) : Option.Rel Agree a a := by
  cases a with
  | none => exact Option.Rel.none
  | some x => exact Option.Rel.some (Agree.refl x)

theorem agreeField_cons {key k : String} {x y : Json} {xs ys : Fields} (h : Agree x y)
    (hrest : Option.Rel Agree (xs.lookup key) (ys.lookup key)) :
    Option.Rel Agree (((k, x) :: xs).lookup key) (((k, y) :: ys).lookup key) := by
  rw [lookup_field, lookup_field]
  split_ifs
  · exact Option.Rel.some h
  · exact hrest

theorem agreeField_isSome {a b : Option Json} (h : Option.Rel Agree a b) : a.isSome = b.isSome := by
  cases h <;> rfl

/-- A field that holds no object is the same on both sides. -/
theorem agreeField_eq_of_plain {a b : Option Json} (h : Option.Rel Agree a b)
    (ha : ∀ value, a = some value → value.isObject = false) : a = b := by
  cases h with
  | none => rfl
  | some hxy => rw [hxy.eq_of_plain (ha _ rfl)]

end Wardx.Json
