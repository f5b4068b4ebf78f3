import Mathlib.Algebra.Order.Floor.Semiring
import Mathlib.Algebra.Order.BigOperators.Group.List
import Mathlib.Algebra.Order.Field.Basic
import Mathlib.Tactic.Linarith

/-!
# Cumulative thresholds

A list of steps cuts a line into consecutive half-open pieces, and a point
belongs to the piece that ends at the first partial sum above it. Cut at whole
points only, a piece keeps its length up to less than one.
-/
namespace Wardx.Lib

universe u

variable {α : Type u} [AddCommGroup α] [LinearOrder α]

/-- The position of the first partial sum above the point. -/
def firstAbove (point : α) : α → List α → Option ℕ
  | _, [] => none
  | threshold, step :: steps =>
      if point < threshold + step then some 0
      else (firstAbove point (threshold + step) steps).map (· + 1)

theorem firstAbove_lt_length {point threshold : α} {steps : List α} {i : ℕ}
    (h : firstAbove point threshold steps = some i) : i < steps.length := by
  induction steps generalizing threshold i with
  | nil => cases h
  | cons step steps ih =>
      unfold firstAbove at h
      split_ifs at h
      · cases h
        simp
      · obtain ⟨j, hj, rfl⟩ := Option.map_eq_some_iff.mp h
        simpa using ih hj

variable [IsOrderedAddMonoid α]

theorem le_add_sum {threshold : α} {steps : List α} (hsteps : ∀ step ∈ steps, 0 ≤ step) :
    threshold ≤ threshold + steps.sum :=
  le_add_of_nonneg_right (List.sum_nonneg hsteps)

/-- No partial sum is above the point exactly when the last one is not. -/
theorem firstAbove_eq_none_iff {point threshold : α} {steps : List α}
    (hsteps : ∀ step ∈ steps, 0 ≤ step) (hstart : threshold ≤ point) :
    firstAbove point threshold steps = none ↔ threshold + steps.sum ≤ point := by
  induction steps generalizing threshold with
  | nil => simpa [firstAbove] using hstart
  | cons step steps ih =>
      have hrest : ∀ later ∈ steps, 0 ≤ later := fun later hlater =>
        hsteps later (List.mem_cons_of_mem step hlater)
      rw [List.sum_cons, ← add_assoc]
      by_cases hbelow : point < threshold + step
      · have habove : point < threshold + step + steps.sum :=
          lt_of_lt_of_le hbelow (le_add_sum hrest)
        simp [firstAbove, hbelow, habove]
      · simp only [firstAbove, hbelow, if_false, Option.map_eq_none_iff]
        exact ih hrest (not_lt.mp hbelow)

/-- The point lies in a piece exactly when it is between the partial sums of its ends. -/
theorem firstAbove_eq_some_iff {point threshold : α} {steps : List α} {i : ℕ}
    (hsteps : ∀ step ∈ steps, 0 ≤ step) (hstart : threshold ≤ point) (hi : i < steps.length) :
    firstAbove point threshold steps = some i ↔
      threshold + (steps.take i).sum ≤ point ∧ point < threshold + (steps.take (i + 1)).sum := by
  induction steps generalizing threshold i with
  | nil => simp at hi
  | cons step steps ih =>
      have hrest : ∀ later ∈ steps, 0 ≤ later := fun later hlater =>
        hsteps later (List.mem_cons_of_mem step hlater)
      cases i with
      | zero => by_cases hbelow : point < threshold + step <;> simp [firstAbove, hbelow, hstart]
      | succ i =>
          have hi' : i < steps.length := by simpa using hi
          simp only [List.take_succ_cons, List.sum_cons, ← add_assoc]
          by_cases hbelow : point < threshold + step
          · -- the point is already in the first piece
            have habove : point < threshold + step + (steps.take i).sum :=
              lt_of_lt_of_le hbelow
                (le_add_sum fun later hlater => hrest later (List.mem_of_mem_take hlater))
            simp [firstAbove, hbelow, not_le.mpr habove]
          · simpa only [firstAbove, hbelow, if_false, Option.map_eq_some_iff,
              Nat.add_right_cancel_iff, exists_eq_right] using ih hrest (not_lt.mp hbelow) hi'

/-! ## Whole points of a piece -/

section Whole

variable {𝕜 : Type u} [Field 𝕜] [LinearOrder 𝕜] [IsStrictOrderedRing 𝕜] [FloorSemiring 𝕜]

/-- The least number of the whole points `0, 1, …` that is a fraction or more of `total`. -/
def wholeBound (total : ℕ) (fraction : 𝕜) : ℕ := ⌈(total : 𝕜) * fraction⌉₊

theorem wholeBound_le_iff {total : ℕ} (htotal : 0 < total) {fraction : 𝕜} {h : ℕ} :
    wholeBound total fraction ≤ h ↔ fraction ≤ (h : 𝕜) / total := by
  have hpos : (0 : 𝕜) < total := by exact_mod_cast htotal
  rw [wholeBound, Nat.ceil_le, le_div_iff₀ hpos, mul_comm]

theorem lt_wholeBound_iff {total : ℕ} (htotal : 0 < total) {fraction : 𝕜} {h : ℕ} :
    h < wholeBound total fraction ↔ (h : 𝕜) / total < fraction := by
  rw [← not_le, wholeBound_le_iff htotal, not_le]

theorem wholeBound_mono {total : ℕ} {p q : 𝕜} (hpq : p ≤ q) :
    wholeBound total p ≤ wholeBound total q :=
  Nat.ceil_le_ceil (mul_le_mul_of_nonneg_left hpq (Nat.cast_nonneg total))

@[simp] theorem wholeBound_zero (total : ℕ) : wholeBound total (0 : 𝕜) = 0 := by
  simp [wholeBound]

@[simp] theorem wholeBound_one (total : ℕ) : wholeBound total (1 : 𝕜) = total := by
  simp [wholeBound]

/-- Between two fractions there are as many whole points as the length says, within one. -/
theorem abs_wholeBound_sub_lt {total : ℕ} {p q : 𝕜} (hp : 0 ≤ p) (hq : 0 ≤ q) :
    |((wholeBound total q : 𝕜) - wholeBound total p) - total * (q - p)| < 1 := by
  have hlow (fraction : 𝕜) : (total : 𝕜) * fraction ≤ wholeBound total fraction := Nat.le_ceil _
  have hhigh (fraction : 𝕜) (hfraction : 0 ≤ fraction) :
      (wholeBound total fraction : 𝕜) < total * fraction + 1 :=
    Nat.ceil_lt_add_one (mul_nonneg (Nat.cast_nonneg total) hfraction)
  have hplow := hlow p
  have hphigh := hhigh p hp
  have hqlow := hlow q
  have hqhigh := hhigh q hq
  rw [abs_lt, mul_sub]
  constructor <;> linarith

end Whole

end Wardx.Lib
