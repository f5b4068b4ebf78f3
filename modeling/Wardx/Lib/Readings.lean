import Mathlib.Data.List.Basic
import Mathlib.Data.Option.Basic
import Wardx.Lib.Check

/-!
# Checks and readings

A check of an untyped value stands beside a reading of it as a typed one, and is
right when it passes exactly where the reading succeeds with a good value. The
statement goes through lists element by element.
-/
namespace Wardx.Lib

universe u

variable {ε α β : Type}

/-- A check and what follows it. -/
theorem check_bind_eq_ok_iff {x : Except ε Unit} {y : Except ε Unit} :
    (do x; y) = .ok () ↔ x = .ok () ∧ y = .ok () := by
  rw [bind_eq_ok_iff]
  exact ⟨fun ⟨_, hx, hy⟩ => ⟨hx, hy⟩, fun ⟨hx, hy⟩ => ⟨(), hx, hy⟩⟩

/-- The check passes on every element exactly when all are read to good values. -/
theorem mapM_iff {check : α → Prop} {read : α → Option β} {good : β → Prop}
    (h : ∀ a, check a ↔ ∃ b, read a = some b ∧ good b) (xs : List α) :
    (∀ x ∈ xs, check x) ↔ ∃ ys, xs.mapM read = some ys ∧ ∀ y ∈ ys, good y := by
  induction xs with
  | nil => simp
  | cons x xs ih =>
      rw [List.forall_mem_cons, ih, h]
      simp only [List.mapM_cons, Option.bind_eq_bind, Option.bind_eq_some_iff, Option.pure_def,
        Option.some.injEq]
      constructor
      · rintro ⟨⟨y, hy, hgood⟩, ys, hys, hall⟩
        exact ⟨y :: ys, ⟨y, hy, ys, hys, rfl⟩, List.forall_mem_cons.mpr ⟨hgood, hall⟩⟩
      · rintro ⟨_, ⟨y, hy, ys, hys, rfl⟩, hall⟩
        rw [List.forall_mem_cons] at hall
        exact ⟨⟨y, hy, hall.1⟩, ys, hys, hall.2⟩

theorem length_mapM {read : α → Option β} {xs : List α} {ys : List β}
    (h : xs.mapM read = some ys) : ys.length = xs.length := by
  induction xs generalizing ys with
  | nil =>
      cases h
      rfl
  | cons x xs ih =>
      simp only [List.mapM_cons, Option.bind_eq_bind, Option.bind_eq_some_iff, Option.pure_def,
        Option.some.injEq] at h
      obtain ⟨y, _, zs, hzs, rfl⟩ := h
      rw [List.length_cons, List.length_cons, ih hzs]

end Wardx.Lib
