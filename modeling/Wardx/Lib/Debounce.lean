import Mathlib.Data.List.Basic
import Mathlib.Tactic.TypeStar

/-!
# Debounced readings

A level that changes only after enough readings in a row. The readings are
listed with the newest first; a counter that stops at its threshold is enough to
tell whether the latest run of equal readings is long enough.
-/
namespace Wardx.Lib

/-- How many of the latest readings in a row are this one. -/
def streak (reading : Bool) (readings : List Bool) : ℕ :=
  (readings.takeWhile (· == reading)).length

@[simp] theorem streak_nil (reading : Bool) : streak reading [] = 0 := rfl

@[simp] theorem streak_cons_self (reading : Bool) (older : List Bool) :
    streak reading (reading :: older) = streak reading older + 1 := by
  simp [streak]

@[simp] theorem streak_true_cons_false (older : List Bool) : streak true (false :: older) = 0 := rfl

@[simp] theorem streak_false_cons_true (older : List Bool) : streak false (true :: older) = 0 := rfl

section
variable {α : Type*} (down up : ℕ) (low high start : α)

/-- The level is low once `down` readings in a row are false, high once `up`
readings in a row are true, and otherwise what it was. -/
def debounced : List Bool → α
  | [] => start
  | reading :: older =>
      if down ≤ streak false (reading :: older) then low
      else if up ≤ streak true (reading :: older) then high
      else debounced older

variable {down up} {low high start}

theorem debounced_cons_true (hdown : 1 ≤ down) (older : List Bool) :
    debounced down up low high start (true :: older) =
      if up ≤ streak true (true :: older) then high else debounced down up low high start older := by
  have hlow : ¬ down ≤ streak false (true :: older) := by
    rw [streak_false_cons_true]
    omega
  rw [debounced, if_neg hlow]

theorem debounced_cons_false (hup : 1 ≤ up) (older : List Bool) :
    debounced down up low high start (false :: older) =
      if down ≤ streak false (false :: older) then low
      else debounced down up low high start older := by
  have hhigh : ¬ up ≤ streak true (false :: older) := by
    rw [streak_true_cons_false]
    omega
  rw [debounced, if_neg hhigh]

end

/-- One more equal reading, counted up to the threshold. -/
theorem capped_streak_succ (reading : Bool) (older : List Bool) (threshold : ℕ) :
    min (min (streak reading older) threshold + 1) threshold =
      min (streak reading (reading :: older)) threshold := by
  rw [streak_cons_self]
  omega

/-- The capped counter reaches the threshold with the run. -/
theorem threshold_le_capped (n threshold : ℕ) : threshold ≤ min n threshold ↔ threshold ≤ n := by
  omega

end Wardx.Lib
