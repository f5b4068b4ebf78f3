import Mathlib.Algebra.BigOperators.Group.Finset.Basic
import Mathlib.Algebra.Order.BigOperators.Group.Finset

/-!
# Logs of many subjects

A log interleaves the events of many subjects. The history of a subject is the
part of the log about it, in order. What appends to the log appends to the
histories, and a bound that holds in every history holds in the whole log.
-/
namespace Wardx.Lib

universe u v

variable {κ : Type u} {ε : Type v} [DecidableEq κ]

/-- The events of one subject. -/
def history (k : κ) (log : List (κ × ε)) : List ε :=
  log.filterMap fun entry => if entry.1 = k then some entry.2 else none

@[simp] theorem history_nil (k : κ) : history k ([] : List (κ × ε)) = [] := rfl

theorem history_cons (k : κ) (entry : κ × ε) (log : List (κ × ε)) :
    history k (entry :: log) = (if entry.1 = k then [entry.2] else []) ++ history k log := by
  unfold history
  by_cases h : entry.1 = k
  · simp [h]
  · simp [h]

theorem history_append (k : κ) (xs ys : List (κ × ε)) :
    history k (xs ++ ys) = history k xs ++ history k ys := List.filterMap_append

theorem history_eq_nil {k : κ} {log : List (κ × ε)} (h : ∀ entry ∈ log, entry.1 ≠ k) :
    history k log = [] := by
  unfold history
  rw [List.filterMap_eq_nil_iff]
  intro entry hentry
  exact if_neg (h entry hentry)

/-- One event for each of distinct subjects. -/
theorem history_of_nodup {k : κ} {log : List (κ × ε)} (hnodup : (log.map Prod.fst).Nodup) {event : ε}
    (h : (k, event) ∈ log) : history k log = [event] := by
  induction log with
  | nil => cases h
  | cons entry log ih =>
      rw [List.map_cons, List.nodup_cons] at hnodup
      rw [history_cons]
      rcases List.mem_cons.mp h with rfl | hrest
      · have hother : ∀ other ∈ log, other.1 ≠ k := by
          intro other hmem hk
          exact hnodup.1 (List.mem_map.mpr ⟨other, hmem, hk⟩)
        rw [if_pos rfl, history_eq_nil hother]
        rfl
      · have hne : entry.1 ≠ k := by
          intro hk
          exact hnodup.1 (List.mem_map.mpr ⟨(k, event), hrest, hk.symm⟩)
        rw [if_neg hne, ih hnodup.2 hrest]
        rfl

/-- Events of one subject, in a log. -/
theorem history_tagged (k k' : κ) (events : List ε) :
    history k' (events.map fun event => (k, event)) = if k' = k then events else [] := by
  by_cases h : k' = k
  · rw [if_pos h]
    unfold history
    simp [List.filterMap_map, h]
  · rw [if_neg h]
    apply history_eq_nil
    intro entry hentry
    obtain ⟨event, _, rfl⟩ := List.mem_map.mp hentry
    exact Ne.symm h

/-! ## Counts -/

/-- The count in a log is the sum of the counts in the histories. -/
theorem countP_eq_sum_history (p : ε → Bool) {log : List (κ × ε)} {subjects : Finset κ}
    (h : ∀ entry ∈ log, entry.1 ∈ subjects) :
    log.countP (fun entry => p entry.2) = ∑ k ∈ subjects, (history k log).countP p := by
  induction log with
  | nil => simp
  | cons entry log ih =>
      have hrest : ∀ other ∈ log, other.1 ∈ subjects :=
        fun other hmem => h other (List.mem_cons_of_mem entry hmem)
      have hown : ∑ k ∈ subjects, ((if entry.1 = k then [entry.2] else []).countP p) =
          [entry.2].countP p := by
        rw [Finset.sum_eq_single_of_mem entry.1 (h entry List.mem_cons_self), if_pos rfl]
        intro k _ hk
        rw [if_neg (Ne.symm hk)]
        rfl
      simp only [history_cons, List.countP_append, Finset.sum_add_distrib]
      rw [hown, ← ih hrest, List.countP_cons, List.countP_singleton]
      exact Nat.add_comm _ _

/-- A bound in every history is a bound in the log. -/
theorem countP_le_of_histories (p q : ε → Bool) (log : List (κ × ε))
    (h : ∀ k, (history k log).countP p ≤ (history k log).countP q) :
    log.countP (fun entry => p entry.2) ≤ log.countP fun entry => q entry.2 := by
  have hmem : ∀ entry ∈ log, entry.1 ∈ (log.map Prod.fst).toFinset :=
    fun entry hentry => List.mem_toFinset.mpr (List.mem_map.mpr ⟨entry, hentry, rfl⟩)
  rw [countP_eq_sum_history p hmem, countP_eq_sum_history q hmem]
  exact Finset.sum_le_sum fun k _ => h k

end Wardx.Lib
