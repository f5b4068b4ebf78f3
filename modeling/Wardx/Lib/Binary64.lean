import Mathlib.Algebra.Order.Floor.Ring
import Mathlib.Data.Int.Log
import Mathlib.Data.Rat.Floor
import Mathlib.Tactic

/-!
# Rounding to a double

A finite double is a rational that is an integer of 53 bits times a power of two,
the smallest of which is 2 ^ -1074. A rational rounds to the nearest multiple of
the power of two its magnitude calls for, to an even one from the middle between
two. From 2 ^ 1024 on it rounds to an infinity.

A double rounds to itself. A number that is nearer to a double than half of that
power rounds to it; a decimal with enough digits is.
-/
namespace Wardx.Lib.Binary64

inductive Double
  | finite (value : ℚ)
  | infinite (negative : Bool)
deriving DecidableEq

/-- The exponent of the last bit of the doubles of this magnitude. -/
def exponent (q : ℚ) : ℤ := max (Int.log 2 |q| - 52) (-1074)

/-- The nearest integer, and the even one of two. -/
def roundHalfEven (q : ℚ) : ℤ :=
  let low := ⌊q⌋
  if q - low < 1 / 2 then low
  else if 1 / 2 < q - low then low + 1
  else if low % 2 = 0 then low
  else low + 1

/-- The double nearest to a rational. -/
def round (q : ℚ) : Double :=
  let value := (roundHalfEven (q / 2 ^ exponent q) : ℚ) * 2 ^ exponent q
  if |value| < 2 ^ 1024 then .finite value else .infinite (q < 0)

/-- The rational is a finite double. -/
def IsDouble (q : ℚ) : Prop :=
  |q| < 2 ^ 1024 ∧ ∃ m e : ℤ, |m| < 2 ^ 53 ∧ -1074 ≤ e ∧ q = m * 2 ^ e

/-! ## The nearest integer -/

theorem roundHalfEven_intCast (m : ℤ) : roundHalfEven m = m := by
  unfold roundHalfEven
  simp

/-- A number less than one half away from an integer rounds to it. -/
theorem roundHalfEven_near {q : ℚ} {m : ℤ} (h : |q - m| < 1 / 2) : roundHalfEven q = m := by
  obtain ⟨hlow, hhigh⟩ := abs_lt.mp h
  unfold roundHalfEven
  dsimp only
  by_cases hle : (m : ℚ) ≤ q
  · have hfloor : ⌊q⌋ = m := Int.floor_eq_iff.mpr ⟨hle, by linarith⟩
    rw [hfloor, if_pos (by linarith)]
  · have hfloor : ⌊q⌋ = m - 1 := by
      apply Int.floor_eq_iff.mpr
      push_cast
      constructor
      · linarith
      · linarith
    have habove : 1 / 2 < q - ((m - 1 : ℤ) : ℚ) := by
      push_cast
      linarith
    rw [hfloor, if_neg (not_lt.mpr habove.le), if_pos habove, sub_add_cancel]

/-- The nearest integer is one half away at most. -/
theorem abs_sub_roundHalfEven_le (q : ℚ) : |q - roundHalfEven q| ≤ 1 / 2 := by
  have hlow := Int.floor_le q
  have hhigh := Int.lt_floor_add_one q
  unfold roundHalfEven
  dsimp only
  split_ifs with hbelow habove
  · rw [abs_of_nonneg (by linarith)]
    exact hbelow.le
  · push_cast
    rw [abs_of_nonpos (by linarith)]
    linarith
  · rw [abs_of_nonneg (by linarith)]
    exact not_lt.mp habove
  · push_cast
    rw [abs_of_nonpos (by linarith)]
    linarith

/-- The nearest multiple is half of the unit away at most. -/
theorem abs_roundHalfEven_mul_sub_le (q : ℚ) {digit : ℚ} (h : 0 < digit) :
    |roundHalfEven (q / digit) * digit - q| ≤ digit / 2 := by
  have hnear := abs_sub_roundHalfEven_le (q / digit)
  have hdistance : roundHalfEven (q / digit) * digit - q =
      -((q / digit - roundHalfEven (q / digit)) * digit) := by
    field_simp
    ring
  rw [hdistance, abs_neg, abs_mul, abs_of_pos h]
  calc |q / digit - roundHalfEven (q / digit)| * digit ≤ 1 / 2 * digit :=
        mul_le_mul_of_nonneg_right hnear h.le
    _ = digit / 2 := by ring

/-! ## Magnitudes -/

theorem two_zpow_pos (e : ℤ) : (0 : ℚ) < 2 ^ e := zpow_pos (by norm_num) e

/-- A number has 53 bits above the last one of its doubles. -/
theorem abs_lt_exponent (q : ℚ) : |q| < 2 ^ 53 * 2 ^ exponent q := by
  have hlog : |q| < (2 : ℚ) ^ (Int.log 2 |q| + 1) := by
    have h := Int.lt_zpow_succ_log_self (R := ℚ) (b := 2) (by norm_num) |q|
    exact_mod_cast h
  have hle : Int.log 2 |q| + 1 ≤ 53 + exponent q := by
    have h := le_max_left (Int.log 2 |q| - 52) (-1074)
    unfold exponent
    omega
  calc |q| < 2 ^ (Int.log 2 |q| + 1) := hlog
    _ ≤ 2 ^ (53 + exponent q) := zpow_le_zpow_right₀ (by norm_num) hle
    _ = 2 ^ 53 * 2 ^ exponent q := by
      rw [zpow_add₀ (by norm_num)]
      norm_num

/-- A number below a power of two has no bit from its exponent on. -/
theorem exponent_le {q : ℚ} {e : ℤ} (hq : q ≠ 0) (he : -1074 ≤ e) (h : |q| < 2 ^ 53 * 2 ^ e) :
    exponent q ≤ e := by
  have hpos : 0 < |q| := abs_pos.mpr hq
  have hpow : (2 : ℚ) ^ Int.log 2 |q| ≤ |q| := by
    have hle := Int.zpow_log_le_self (R := ℚ) (b := 2) (by norm_num) hpos
    exact_mod_cast hle
  have hlt : (2 : ℚ) ^ Int.log 2 |q| < 2 ^ (53 + e) := by
    refine hpow.trans_lt ?_
    rw [zpow_add₀ (by norm_num)]
    exact_mod_cast h
  have hlog := (zpow_lt_zpow_iff_right₀ (by norm_num)).mp hlt
  unfold exponent
  omega

/-! ## Doubles round to themselves -/

/-- A number rounds to a multiple of its last bit that is less than half of it
away. -/
theorem round_near {q d : ℚ} (hmultiple : ∃ m : ℤ, d = m * 2 ^ exponent q)
    (hnear : |q - d| < 2 ^ exponent q / 2) (hfinite : |d| < 2 ^ 1024) : round q = .finite d := by
  obtain ⟨m, rfl⟩ := hmultiple
  have hpos := two_zpow_pos (exponent q)
  have hhalf : |q / 2 ^ exponent q - m| < 1 / 2 := by
    have hscaled : q / 2 ^ exponent q - m = (q - m * 2 ^ exponent q) / 2 ^ exponent q := by
      field_simp
    rw [hscaled, abs_div, abs_of_pos hpos, div_lt_iff₀ hpos]
    linarith
  unfold round
  rw [roundHalfEven_near hhalf]
  exact if_pos hfinite

theorem IsDouble.multiple {q : ℚ} (h : IsDouble q) : ∃ m : ℤ, q = m * 2 ^ exponent q := by
  obtain ⟨_, m, e, hm, he, hq⟩ := h
  by_cases hzero : q = 0
  · exact ⟨0, by simp [hzero]⟩
  · have hpos := two_zpow_pos e
    have hlt : |q| < 2 ^ 53 * 2 ^ e := by
      rw [hq, abs_mul, abs_of_pos hpos]
      have hm' : |(m : ℚ)| < 2 ^ 53 := by exact_mod_cast hm
      exact mul_lt_mul_of_pos_right hm' hpos
    have hle := exponent_le hzero he hlt
    refine ⟨m * 2 ^ (e - exponent q).toNat, ?_⟩
    have hsplit : (2 : ℚ) ^ e = 2 ^ (e - exponent q).toNat * 2 ^ exponent q := by
      rw [← zpow_natCast, ← zpow_add₀ (by norm_num), Int.toNat_of_nonneg (by omega),
        sub_add_cancel]
    calc q = m * 2 ^ e := hq
      _ = m * (2 ^ (e - exponent q).toNat * 2 ^ exponent q) := by rw [hsplit]
      _ = ((m * 2 ^ (e - exponent q).toNat : ℤ) : ℚ) * 2 ^ exponent q := by
        push_cast
        ring

/-- A rational is its own rounding exactly when it is a double. -/
theorem round_eq_self_iff (q : ℚ) : round q = .finite q ↔ IsDouble q := by
  constructor
  · intro h
    unfold round at h
    dsimp only at h
    split_ifs at h with hfinite
    have hq := Double.finite.inj h
    rw [hq] at hfinite
    refine ⟨hfinite, roundHalfEven (q / 2 ^ exponent q), exponent q, ?_, le_max_right _ _, hq.symm⟩
    have hlt := abs_lt_exponent q
    have hpos := two_zpow_pos (exponent q)
    have hscaled : |q / 2 ^ exponent q| < 2 ^ 53 := by
      rw [abs_div, abs_of_pos hpos, div_lt_iff₀ hpos]
      exact hlt
    have hm : (roundHalfEven (q / 2 ^ exponent q) : ℚ) = q / 2 ^ exponent q :=
      (eq_div_iff hpos.ne').mpr hq
    rw [← hm] at hscaled
    exact_mod_cast hscaled
  · intro h
    refine round_near h.multiple ?_ h.1
    have hpos := two_zpow_pos (exponent q)
    rw [sub_self, abs_zero]
    linarith

/-! ## Seventeen digits -/

/-- A number whose last bit is above the smallest has 53 bits. -/
theorem exponent_le_abs {q : ℚ} (hq : q ≠ 0) (h : -1074 < exponent q) :
    2 ^ 52 * 2 ^ exponent q ≤ |q| := by
  have hlog : exponent q = Int.log 2 |q| - 52 := by
    unfold exponent at h ⊢
    omega
  have hle := Int.zpow_log_le_self (R := ℚ) (b := 2) (by norm_num) (abs_pos.mpr hq)
  have hsum : (52 : ℤ) + exponent q = Int.log 2 |q| := by omega
  calc (2 : ℚ) ^ 52 * 2 ^ exponent q = 2 ^ ((52 : ℤ) + exponent q) := by
        rw [zpow_add₀ (by norm_num)]
        norm_num
    _ = 2 ^ Int.log 2 |q| := by rw [hsum]
    _ ≤ |q| := by exact_mod_cast hle

/-- A double is a multiple of every last bit below its own. -/
theorem IsDouble.multiple_of_le {d : ℚ} (h : IsDouble d) {e : ℤ} (he : e ≤ exponent d) :
    ∃ m : ℤ, d = m * 2 ^ e := by
  obtain ⟨m, hm⟩ := h.multiple
  have hsplit : (2 : ℚ) ^ exponent d = 2 ^ (exponent d - e).toNat * 2 ^ e := by
    rw [← zpow_natCast, ← zpow_add₀ (by norm_num), Int.toNat_of_nonneg (by omega), sub_add_cancel]
  refine ⟨m * 2 ^ (exponent d - e).toNat, ?_⟩
  calc d = m * 2 ^ exponent d := hm
    _ = m * (2 ^ (exponent d - e).toNat * 2 ^ e) := by rw [hsplit]
    _ = ((m * 2 ^ (exponent d - e).toNat : ℤ) : ℚ) * 2 ^ e := by
      push_cast
      ring

/-- A double stays one of its last bit away from the next power of two. -/
theorem IsDouble.abs_le {d : ℚ} (h : IsDouble d) : |d| ≤ (2 ^ 53 - 1) * 2 ^ exponent d := by
  obtain ⟨m, hm⟩ := h.multiple
  have hpos := two_zpow_pos (exponent d)
  have hlt := abs_lt_exponent d
  have habs : |d| = |(m : ℚ)| * 2 ^ exponent d := by
    conv_lhs => rw [hm]
    rw [abs_mul, abs_of_pos hpos]
  rw [habs] at hlt ⊢
  have hbits : |(m : ℚ)| < 2 ^ 53 := lt_of_mul_lt_mul_right hlt hpos.le
  have hbits' : |m| < 2 ^ 53 := by exact_mod_cast hbits
  have hle : |m| ≤ 2 ^ 53 - 1 := by omega
  have hle' : |(m : ℚ)| ≤ 2 ^ 53 - 1 := by exact_mod_cast hle
  exact mul_le_mul_of_nonneg_right hle' hpos.le

/-- A decimal with seventeen digits next to a double rounds to it: half of its
last digit is less than half of the double's last bit. -/
theorem round_of_digits {q d digit : ℚ} (hd : IsDouble d) (hdigits : 10 ^ 16 * digit ≤ |d|)
    (hnear : |q - d| ≤ digit / 2) : round q = .finite d := by
  have hsum : |d| ≤ |q| + digit / 2 := by
    have h := abs_sub_abs_le_abs_sub d q
    rw [abs_sub_comm] at h
    linarith
  by_cases hzero : q = d
  · rw [hzero]
    exact (round_eq_self_iff d).mpr hd
  have hdigit : 0 < digit := by
    have h := abs_pos.mpr (sub_ne_zero.mpr hzero)
    linarith
  have hq : q ≠ 0 := by
    intro h
    rw [h, abs_zero] at hsum
    linarith
  have hbits := abs_lt_exponent q
  have hpos := two_zpow_pos (exponent q)
  refine round_near ?_ ?_ hd.1
  · apply hd.multiple_of_le
    by_contra hlt
    -- The power of two would lie between them, a last bit of the double away.
    rw [not_le] at hlt
    have hcases := le_max_right (Int.log 2 |d| - 52) (-1074)
    have hle := exponent_le_abs hq (lt_of_le_of_lt hcases hlt)
    have hdouble : 2 * (2 : ℚ) ^ exponent d ≤ 2 ^ exponent q := by
      calc 2 * (2 : ℚ) ^ exponent d = 2 ^ (exponent d + 1) := by
            rw [zpow_add_one₀ (by norm_num)]
            ring
        _ ≤ 2 ^ exponent q := zpow_le_zpow_right₀ (by norm_num) (by omega)
    have hbelow := hd.abs_le
    have hpos' := two_zpow_pos (exponent d)
    have h := abs_sub_abs_le_abs_sub q d
    norm_num at hle hbelow hdigits
    linarith
  · norm_num at hbits hdigits
    linarith

end Wardx.Lib.Binary64
