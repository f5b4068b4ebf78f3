import Mathlib.Algebra.BigOperators.Group.List.Basic
import Mathlib.Data.List.Dedup
import Mathlib.Data.List.Sort

/-!
# Joins and groups of rows

A left join keeps every row, once for each row it meets on the other side and
once with nothing when there is none, so it keeps the number of rows when no row
meets two. Rows grouped by a key and added up group by group have the total of
the groups' rows, also over all the groups that a coarser key puts together.
-/
namespace Wardx.Lib

universe u v w

variable {α : Type u} {β : Type v} {κ : Type w}

/-! ## Left joins -/

/-- `LEFT JOIN`. -/
def leftJoin (on : α → β → Bool) (rows : List α) (others : List β) : List (α × Option β) :=
  rows.flatMap fun row =>
    match others.filter (on row) with
    | [] => [(row, none)]
    | found => found.map fun other => (row, some other)

theorem filter_of_find {p : β → Bool} {others : List β} (h : (others.filter p).length ≤ 1) :
    others.filter p = (others.find? p).toList := by
  rw [← List.head?_filter]
  cases hfound : others.filter p with
  | nil => rfl
  | cons other rest =>
      rw [hfound, List.length_cons] at h
      have hrest : rest = [] := List.length_eq_zero_iff.mp (by omega)
      rw [hrest]
      rfl

/-- Where no row meets two, every row is joined once. -/
theorem leftJoin_eq_map {on : α → β → Bool} {rows : List α} {others : List β}
    (h : ∀ row ∈ rows, (others.filter (on row)).length ≤ 1) :
    leftJoin on rows others = rows.map fun row => (row, others.find? (on row)) := by
  induction rows with
  | nil => rfl
  | cons row rows ih =>
      have hrest := ih fun later hlater => h later (List.mem_cons_of_mem row hlater)
      have hrow := filter_of_find (h row List.mem_cons_self)
      unfold leftJoin at hrest ⊢
      rw [List.flatMap_cons, List.map_cons, hrest, hrow]
      cases others.find? (on row) <;> rfl

/-- Rows with distinct keys meet at most one row of a key. -/
theorem length_filter_le_one {key : β → κ} {others : List β} {p : β → Bool}
    (hnodup : (others.map key).Nodup) (k : κ) (hp : ∀ other ∈ others, p other = true → key other = k) :
    (others.filter p).length ≤ 1 := by
  induction others with
  | nil => simp
  | cons other others ih =>
      rw [List.map_cons, List.nodup_cons] at hnodup
      have hrest := ih hnodup.2 fun later hlater => hp later (List.mem_cons_of_mem other hlater)
      rw [List.filter_cons]
      split_ifs with hother
      · -- a second row of the key would repeat it
        have hnil : others.filter p = [] := by
          rw [List.filter_eq_nil_iff]
          intro later hlater hmeets
          apply hnodup.1
          rw [hp other List.mem_cons_self hother,
            ← hp later (List.mem_cons_of_mem other hlater) hmeets]
          exact List.mem_map_of_mem hlater
        rw [hnil]
        simp
      · exact hrest

/-! ## Groups -/

variable [DecidableEq κ]

/-- `GROUP BY` a key in the order of the keys. -/
def groups (le : κ → κ → Prop) [DecidableRel le] (key : α → κ) (rows : List α) :
    List (κ × List α) :=
  ((rows.map key).dedup.insertionSort le).map fun k => (k, rows.filter fun row => key row = k)

section

variable {le : κ → κ → Prop} [DecidableRel le] {key : α → κ} {rows : List α}

theorem mem_groups {group : κ × List α} :
    group ∈ groups le key rows ↔
      (∃ row ∈ rows, key row = group.1) ∧ group.2 = rows.filter fun row => key row = group.1 := by
  unfold groups
  rw [List.mem_map]
  simp only [List.mem_insertionSort, List.mem_dedup, List.mem_map]
  constructor
  · rintro ⟨k, hmem, rfl⟩
    exact ⟨hmem, rfl⟩
  · rintro ⟨hmem, hrows⟩
    exact ⟨group.1, hmem, Prod.ext rfl hrows.symm⟩

theorem keys_groups : (groups le key rows).map Prod.fst = (rows.map key).dedup.insertionSort le := by
  unfold groups
  rw [List.map_map]
  exact List.map_id _

/-- Every key has one group. -/
theorem nodup_keys_groups : ((groups le key rows).map Prod.fst).Nodup := by
  rw [keys_groups, (List.perm_insertionSort le _).nodup_iff]
  exact List.nodup_dedup _

theorem mem_keys_groups {k : κ} :
    k ∈ (groups le key rows).map Prod.fst ↔ ∃ row ∈ rows, key row = k := by
  rw [keys_groups, List.mem_insertionSort, List.mem_dedup, List.mem_map]

end

section

variable {M : Type*} [AddCommMonoid M]

/-- Keys that are distinct and cover the rows share out their total. -/
theorem sum_over_keys {key : α → κ} {rows : List α} {keys : List κ} (measure : α → M)
    (hnodup : keys.Nodup) (hcover : ∀ row ∈ rows, key row ∈ keys) :
    (keys.map fun k => ((rows.filter fun row => key row = k).map measure).sum).sum =
      (rows.map measure).sum := by
  induction rows with
  | nil => simp
  | cons row rows ih =>
      have hrest := ih fun later hlater => hcover later (List.mem_cons_of_mem row hlater)
      have hone : (keys.map fun k => if key row = k then measure row else 0).sum = measure row := by
        rw [List.sum_map_eq_nsmul_single (key row) _ fun k hk _ => if_neg (Ne.symm hk),
          List.count_eq_one_of_mem hnodup (hcover row List.mem_cons_self), one_nsmul, if_pos rfl]
      have hstep : ∀ k, (((row :: rows).filter fun row => key row = k).map measure).sum =
          (if key row = k then measure row else 0) +
            ((rows.filter fun row => key row = k).map measure).sum := by
        intro k
        rw [List.filter_cons]
        by_cases hk : key row = k <;> simp [hk]
      simp only [hstep]
      rw [List.sum_map_add, hone, hrest, List.map_cons, List.sum_cons]

/-- The groups that a coarser key puts together add up to its rows. -/
theorem sum_groups {le : κ → κ → Prop} [DecidableRel le] {key : α → κ} (rows : List α)
    (measure : α → M) (p : κ → Bool) :
    (((groups le key rows).filter fun group => p group.1).map
      fun group => (group.2.map measure).sum).sum =
      ((rows.filter fun row => p (key row)).map measure).sum := by
  have hperm := List.perm_insertionSort le (rows.map key).dedup
  have hnodup : (((rows.map key).dedup.insertionSort le).filter p).Nodup :=
    (hperm.nodup_iff.mpr (List.nodup_dedup _)).filter _
  have hcover : ∀ row ∈ rows.filter fun row => p (key row),
      key row ∈ ((rows.map key).dedup.insertionSort le).filter p := by
    intro row hrow
    rw [List.mem_filter] at hrow
    rw [List.mem_filter, List.mem_insertionSort, List.mem_dedup]
    exact ⟨List.mem_map_of_mem hrow.1, hrow.2⟩
  rw [← sum_over_keys measure hnodup hcover]
  unfold groups
  rw [List.filter_map, List.map_map]
  congr 1
  apply List.map_congr_left
  intro k hk
  have hpk : p k = true := (List.mem_filter.mp hk).2
  dsimp only [Function.comp_apply]
  rw [List.filter_filter]
  congr 2
  apply List.filter_congr
  intro row _
  by_cases hkey : key row = k <;> simp [hkey, hpk]

end

end Wardx.Lib
