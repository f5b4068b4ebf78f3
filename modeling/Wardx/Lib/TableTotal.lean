import Mathlib.Algebra.BigOperators.Group.List.Basic
import Wardx.Lib.Table

/-!
# Totals of tables

The total of a table sums a weight over its values. Writing a key exchanges the
weight it had for the new one; the total is the sum over the keys in any order.
-/
namespace Wardx.Lib.Table

universe u v w

variable {κ : Type u} {α : Type v} {M : Type w} [AddCommGroup M]

def total (weight : α → M) (t : Table κ α) : M := (t.values.map weight).sum

@[simp] theorem total_empty (weight : α → M) : (empty : Table κ α).total weight = 0 := rfl

variable [DecidableEq κ]

/-- The weight under a key; a key that is absent weighs nothing. -/
def weightAt (weight : α → M) (t : Table κ α) (k : κ) : M := ((t.get k).map weight).getD 0

theorem weightAt_of_none {weight : α → M} {t : Table κ α} {k : κ} (h : t.get k = none) :
    t.weightAt weight k = 0 := by
  unfold weightAt
  rw [h]
  rfl

theorem weightAt_of_some {weight : α → M} {t : Table κ α} {k : κ} {v : α} (h : t.get k = some v) :
    t.weightAt weight k = weight v := by
  unfold weightAt
  rw [h]
  rfl

/-- The total is the sum of the weights under the keys. -/
theorem total_eq_sum_keys (weight : α → M) (t : Table κ α) :
    t.total weight = (t.keys.map (t.weightAt weight)).sum := by
  unfold total keys values
  rw [List.map_map, List.map_map]
  refine congrArg List.sum (List.map_congr_left fun e he => ?_)
  have hget : t.get e.1 = some e.2 := (get_eq_some_iff t e.1 e.2).mpr he
  exact (weightAt_of_some hget).symm

/-- A list of the keys in another order gives the same total. -/
theorem total_of_perm {weight : α → M} {t : Table κ α} {keys : List κ} (h : keys.Perm t.keys)
    {f : κ → M} (hf : ∀ k ∈ keys, f k = t.weightAt weight k) :
    (keys.map f).sum = t.total weight := by
  rw [total_eq_sum_keys, List.map_congr_left hf]
  exact (h.map _).sum_eq

/-- A written key exchanges its weight. -/
theorem total_put (weight : α → M) (t : Table κ α) (k : κ) (v : α) :
    (t.put k v).total weight = t.total weight - t.weightAt weight k + weight v := by
  have hput : ∀ entries : List (κ × α), (entries.map Prod.fst).Nodup →
      ((putEntry k v entries).map fun e => weight e.2).sum =
        (entries.map fun e => weight e.2).sum - ((entries.lookup k).map weight).getD 0 + weight v := by
    intro entries hnodup
    induction entries with
    | nil => simp [putEntry]
    | cons e entries ih =>
        obtain ⟨j, w⟩ := e
        rw [List.map_cons, List.nodup_cons] at hnodup
        rw [putEntry, List.lookup_cons]
        by_cases hj : j = k
        · subst hj
          simp [add_comm]
        · have hne : (k == j) = false := beq_eq_false_iff_ne.mpr (Ne.symm hj)
          rw [if_neg hj, hne, List.map_cons, List.sum_cons, ih hnodup.2, List.map_cons, List.sum_cons]
          simp only
          abel
  have hvalues : ∀ s : Table κ α, s.total weight = (s.entries.map fun e => weight e.2).sum := by
    intro s
    unfold total values
    rw [List.map_map]
    rfl
  rw [hvalues, hvalues]
  exact hput t.entries t.nodup

end Wardx.Lib.Table
