import Mathlib.Data.Nat.Bitwise
import Mathlib.Data.Set.Insert
import Mathlib.Tactic.TypeStar

/-!
# A window of days as a bit mask

Bit `i` of a mask stands for the day `first + i`. Only a window of `width` days
is kept, and the first day may move back: then the mask is shifted up and what
leaves the window is cut off.

`Marks` is the meaning of a mask as a set of days. Marking a day and moving the
first day back are the two changes, and each keeps the meaning.
-/
namespace Wardx.Lib.DayMask

/-- The mask shows the days of the set that lie in the window. -/
structure Marks (width first mask : ℕ) (days : Set ℕ) : Prop where
  bounded : mask < 2 ^ width
  testBit : ∀ i < width, mask.testBit i = true ↔ first + i ∈ days

/-- Shift the window back. -/
def rebase (width shift mask : ℕ) : ℕ := (mask <<< shift) &&& (2 ^ width - 1)

variable {width first mask : ℕ} {days : Set ℕ}

theorem testBit_of_ge (h : mask < 2 ^ width) {i : ℕ} (hi : width ≤ i) :
    mask.testBit i = false :=
  Nat.testBit_lt_two_pow (lt_of_lt_of_le h (Nat.pow_le_pow_right (by decide) hi))

/-- A set of days has one mask. -/
theorem Marks.unique {mask' : ℕ} (h : Marks width first mask days)
    (h' : Marks width first mask' days) : mask = mask' := by
  apply Nat.eq_of_testBit_eq
  intro i
  by_cases hi : i < width
  · apply Bool.eq_iff_iff.mpr
    rw [h.testBit i hi, h'.testBit i hi]
  · rw [testBit_of_ge h.bounded (not_lt.mp hi), testBit_of_ge h'.bounded (not_lt.mp hi)]

/-- One day, the first of its window. -/
theorem marks_first (hwidth : 0 < width) : Marks width first 1 {first} := by
  refine ⟨Nat.one_lt_two_pow hwidth.ne', fun i _ => ?_⟩
  rw [Nat.testBit_one_eq_true_iff_self_eq_zero, Set.mem_singleton_iff]
  omega

/-- A later day inside the window. -/
theorem Marks.insert_of_lt (h : Marks width first mask days) {offset : ℕ} (hoffset : offset < width) :
    Marks width first (mask ||| 2 ^ offset) (insert (first + offset) days) := by
  refine ⟨Nat.or_lt_two_pow h.bounded (Nat.pow_lt_pow_right (by decide) hoffset), fun i hi => ?_⟩
  rw [Nat.testBit_or, Bool.or_eq_true, h.testBit i hi, Nat.testBit_two_pow, decide_eq_true_eq,
    Set.mem_insert_iff, or_comm]
  apply or_congr_left
  omega

/-- A day past the window leaves the mask. -/
theorem Marks.insert_of_ge (h : Marks width first mask days) {offset : ℕ}
    (hoffset : width ≤ offset) : Marks width first mask (insert (first + offset) days) := by
  refine ⟨h.bounded, fun i hi => ?_⟩
  rw [h.testBit i hi, Set.mem_insert_iff]
  have hne : first + i ≠ first + offset := by omega
  exact (or_iff_right hne).symm

/-- Moving the first day back to one no marked day precedes. -/
theorem Marks.rebase (h : Marks width first mask days) (hdays : ∀ day ∈ days, first ≤ day)
    {earlier shift : ℕ} (hshift : earlier + shift = first) :
    Marks width earlier (rebase width shift mask) days := by
  constructor
  · unfold DayMask.rebase
    rw [Nat.and_two_pow_sub_one_eq_mod]
    exact Nat.mod_lt _ (Nat.two_pow_pos width)
  · intro i hi
    unfold DayMask.rebase
    rw [Nat.and_two_pow_sub_one_eq_mod, Nat.testBit_mod_two_pow, Nat.testBit_shiftLeft,
      Bool.and_eq_true, Bool.and_eq_true, decide_eq_true_eq, decide_eq_true_eq]
    constructor
    · intro ⟨_, hge, hbit⟩
      have hday : first + (i - shift) ∈ days := (h.testBit _ (by omega)).mp hbit
      have heq : first + (i - shift) = earlier + i := by omega
      rwa [heq] at hday
    · intro hday
      have hge : first ≤ earlier + i := hdays _ hday
      refine ⟨hi, by omega, (h.testBit _ (by omega)).mpr ?_⟩
      have heq : first + (i - shift) = earlier + i := by omega
      rwa [heq]

/-- A shift by the whole window leaves nothing in it. -/
theorem Marks.rebase_far (hdays : ∀ day ∈ days, first ≤ day) {earlier shift : ℕ}
    (hshift : earlier + shift = first) (hfar : width ≤ shift) : Marks width earlier 0 days := by
  refine ⟨Nat.two_pow_pos width, fun i hi => ?_⟩
  rw [Nat.zero_testBit]
  constructor
  · intro h
    cases h
  · intro hday
    have hge : first ≤ earlier + i := hdays _ hday
    omega

end Wardx.Lib.DayMask
