import Wardx.Clients.JsonAcceptance
import Mathlib.Data.List.DropRight

/-!
# The texts of numbers

An integer is written digit for digit, a double that is an integer beyond the
limits of a `long` with seventeen digits and an exponent. `double.Parse` reads the
nearest double of the first, and of the second the double itself.
-/
namespace Wardx.CSharpJson

open Lib JsonGrammar Binary64

/-! ## Casts -/

/-- `Math.Truncate`. -/
def truncate (q : ℚ) : ℤ := q.num.tdiv q.den

/-- `(long)d`. -/
def toLong (q : ℚ) : ℤ := (truncate q).bmod (2 ^ 64)

/-- `long.MinValue` and `long.MaxValue`, as a comparison with a double reads them. -/
def longMin : ℚ := -2 ^ 63
def longMax : ℚ := 2 ^ 63

/-- `long.MaxValue` itself is no double. -/
theorem round_longMax : Binary64.round (9223372036854775807 : ℤ) = .finite longMax := by
  decide +kernel

/-! ## Texts -/

def digit (n : ℕ) : CodeUnit := UInt16.ofNat (48 + n)

/-- The decimal digits of a number. -/
def decimalText (n : ℕ) : List CodeUnit :=
  if n < 10 then [digit n] else decimalText (n / 10) ++ [digit (n % 10)]

/-- `integer.ToString`. -/
def integerText (n : ℤ) : List CodeUnit :=
  if n < 0 then unit '-' :: decimalText n.natAbs else decimalText n.natAbs

/-- The digits without the zeros at the end. -/
def trimZeros (digits : List CodeUnit) : List CodeUnit :=
  (digits.reverse.dropWhile fun c => c = unit '0').reverse

/-- `ToString("G17")` of an integer that has more digits: the nearest number of
seventeen, in scientific notation. -/
def scientific (n : ℕ) : List CodeUnit :=
  let dropped := Nat.log 10 n - 16
  let digits := decimalText (roundHalfEven (n / 10 ^ dropped)).toNat
  let trimmed := trimZeros digits
  trimmed.take 1 ++ (if trimmed.drop 1 = [] then [] else unit '.' :: trimmed.drop 1) ++
    (unit 'E' :: unit '+' :: decimalText (dropped + (digits.length - 1)))

/-- `ToString("G17")`; `fraction` is that of doubles that are not integers. -/
def formatG17 (fraction : ℚ → List CodeUnit) (q : ℚ) : List CodeUnit :=
  if truncate q = q then
    if q < 0 then unit '-' :: scientific (truncate q).natAbs else scientific (truncate q).natAbs
  else fraction q

/-! ## Digits -/

theorem digit_toNat {n : ℕ} (h : n < 10) : (digit n).toNat = 48 + n := by
  unfold digit
  rw [UInt16.toNat_ofNat']
  omega

theorem isDigit_digit {n : ℕ} (h : n < 10) : isDigit (digit n) = true := by
  have hzero : (unit '0').toNat = 48 := rfl
  have hnine : (unit '9').toNat = 57 := rfl
  rw [isDigit_eq_true_iff, UInt16.lt_iff_toNat_lt, UInt16.lt_iff_toNat_lt, digit_toNat h, hzero,
    hnine]
  omega

theorem digits_decimalText (n : ℕ) : Digits (decimalText n) := by
  induction n using Nat.strong_induction_on with
  | _ n ih =>
      rw [decimalText]
      by_cases h : n < 10
      · rw [if_pos h]
        exact ⟨List.cons_ne_nil _ _, by simp [isDigit_digit h]⟩
      · rw [if_neg h]
        have hdigits := ih (n / 10) (by omega)
        have hlast := isDigit_digit (Nat.mod_lt n (by omega : 0 < 10))
        refine ⟨by simp, fun c hc => ?_⟩
        cases List.mem_append.mp hc with
        | inl hfirst => exact hdigits.2 c hfirst
        | inr hc => rwa [List.mem_singleton.mp hc]

theorem head_decimalText {n : ℕ} (h : n ≠ 0) : (decimalText n).head? ≠ some (unit '0') := by
  induction n using Nat.strong_induction_on with
  | _ n ih =>
      rw [decimalText]
      by_cases hn : n < 10
      · rw [if_pos hn]
        intro heq
        have hzero : (unit '0').toNat = 48 := rfl
        have hnat := congrArg UInt16.toNat (Option.some.inj heq)
        rw [digit_toNat hn, hzero] at hnat
        omega
      · rw [if_neg hn, List.head?_append_of_ne_nil _ (digits_decimalText _).1]
        exact ih (n / 10) (by omega) (by omega)

theorem isInt_decimalText (n : ℕ) : IsInt (decimalText n) := by
  by_cases h : n = 0
  · left
    rw [h, decimalText]
    rfl
  · exact Or.inr ⟨digits_decimalText n, head_decimalText h⟩

@[simp] theorem digitsValue_nil (n : ℕ) : digitsValue n [] = n := by
  conv_lhs => unfold digitsValue

theorem digitsValue_cons (n : ℕ) (c : CodeUnit) (rest : List CodeUnit) :
    digitsValue n (c :: rest) = digitsValue (n * 10 + (c.toNat - 48)) rest := by
  conv_lhs => unfold digitsValue

theorem digitsValue_append (a b : List CodeUnit) (n : ℕ) :
    digitsValue n (a ++ b) = digitsValue (digitsValue n a) b := by
  induction a generalizing n with
  | nil => rw [List.nil_append, digitsValue_nil]
  | cons c a ih => rw [List.cons_append, digitsValue_cons, digitsValue_cons, ih]

theorem digitsValue_decimalText (n : ℕ) : digitsValue 0 (decimalText n) = n := by
  induction n using Nat.strong_induction_on with
  | _ n ih =>
      rw [decimalText]
      by_cases h : n < 10
      · rw [if_pos h, digitsValue_cons, digitsValue_nil, digit_toNat h]
        omega
      · rw [if_neg h, digitsValue_append, ih (n / 10) (by omega), digitsValue_cons, digitsValue_nil,
          digit_toNat (Nat.mod_lt n (by omega))]
        omega

theorem digitsValue_zeros (n count : ℕ) :
    digitsValue n (List.replicate count (unit '0')) = n * 10 ^ count := by
  induction count generalizing n with
  | zero => simp
  | succ count ih =>
      have hzero : (unit '0').toNat = 48 := rfl
      rw [List.replicate_succ, digitsValue_cons, ih, hzero, pow_succ]
      ring

/-! ## Integers -/

theorem magnitude_digits {digits : List CodeUnit} (h : Digits digits) :
    magnitude digits = digitsValue 0 digits := by
  have htake : (digits ++ []).takeWhile isDigit = digits := takeWhile_append_stop h.2 (by simp)
  have hdrop : (digits ++ []).dropWhile isDigit = [] := dropWhile_append_stop h.2 (by simp)
  rw [List.append_nil] at htake hdrop
  unfold magnitude
  dsimp only
  rw [htake, hdrop]
  simp [peek, exponentValue, show (0 : CodeUnit) ≠ unit '.' by decide]

theorem peek_digits_ne_minus {digits : List CodeUnit} (h : Digits digits) :
    peek digits ≠ unit '-' :=
  ne_of_isDigit (isDigit_peek h) (by decide)

theorem isNumber_minus {text : List CodeUnit} (h : IsNumber text) (hpeek : peek text ≠ unit '-') :
    IsNumber (unit '-' :: text) := by
  obtain ⟨minus, int, frac, exp, hminus, hint, hfrac, hexp, rfl⟩ := h
  cases hminus with
  | inl hnone => exact ⟨[unit '-'], int, frac, exp, Or.inr rfl, hint, hfrac, hexp, by simp [hnone]⟩
  | inr hsign => exact absurd (by rw [hsign]; rfl) hpeek

theorem isNumber_integerText (n : ℤ) : IsNumber (integerText n) := by
  have hnat : IsNumber (decimalText n.natAbs) :=
    ⟨[], decimalText n.natAbs, [], [], Or.inl rfl, isInt_decimalText _, Or.inl rfl, Or.inl rfl,
      by simp⟩
  unfold integerText
  split_ifs with hsign
  · exact isNumber_minus hnat (peek_digits_ne_minus (digits_decimalText _))
  · exact hnat

theorem wasFloat_integerText (n : ℤ) : wasFloat (integerText n) = false := by
  have hdigits := wasFloat_digits (digits_decimalText n.natAbs).2
  unfold integerText
  split_ifs with hsign
  · rw [← List.singleton_append, wasFloat_append, hdigits]
    rfl
  · exact hdigits

/-- An integer is read as the nearest double. -/
theorem parseDouble_integerText (n : ℤ) : parseDouble (integerText n) = Binary64.round n := by
  have hdigits := digits_decimalText n.natAbs
  have hmagnitude : magnitude (decimalText n.natAbs) = (n.natAbs : ℚ) := by
    rw [magnitude_digits hdigits, digitsValue_decimalText]
  unfold parseDouble integerText
  by_cases hsign : n < 0
  · have habs : -(n.natAbs : ℚ) = n := by
      rw [Nat.cast_natAbs, abs_of_neg hsign, Int.cast_neg, neg_neg]
    rw [if_pos hsign, peek_cons, if_pos rfl, List.drop_succ_cons, List.drop_zero, hmagnitude, habs]
  · have habs : (n.natAbs : ℚ) = n := by
      rw [Nat.cast_natAbs, abs_of_nonneg (not_lt.mp hsign)]
    rw [if_neg hsign, if_neg (peek_digits_ne_minus hdigits), hmagnitude, habs]

/-! ## Seventeen digits -/

theorem trimZeros_append (digits : List CodeUnit) :
    ∃ count, digits = trimZeros digits ++ List.replicate count (unit '0') := by
  have hsplit := List.rdropWhile_append_rtakeWhile (p := fun c => decide (c = unit '0')) (l := digits)
  refine ⟨(digits.rtakeWhile fun c => decide (c = unit '0')).length, ?_⟩
  have hzeros : digits.rtakeWhile (fun c => decide (c = unit '0')) =
      List.replicate (digits.rtakeWhile fun c => decide (c = unit '0')).length (unit '0') := by
    rw [List.eq_replicate_iff]
    refine ⟨rfl, fun c hc => ?_⟩
    have hzero := List.mem_rtakeWhile_imp (p := fun c => decide (c = unit '0')) hc
    exact of_decide_eq_true hzero
  rw [← hzeros]
  exact hsplit.symm

theorem takeWhile_digit {c : CodeUnit} {rest : List CodeUnit} (hc : isDigit c = true)
    (hrest : ∀ d ∈ rest.head?, isDigit d = false) : (c :: rest).takeWhile isDigit = [c] :=
  @takeWhile_append_stop _ isDigit [c] rest (by simpa using hc) hrest

theorem dropWhile_digit {c : CodeUnit} {rest : List CodeUnit} (hc : isDigit c = true)
    (hrest : ∀ d ∈ rest.head?, isDigit d = false) : (c :: rest).dropWhile isDigit = rest :=
  @dropWhile_append_stop _ isDigit [c] rest (by simpa using hc) hrest

/-- One digit, the others behind a point, and an exponent. -/
theorem magnitude_exponent {c : CodeUnit} {digits exp : List CodeUnit}
    (hdigits : ∀ d ∈ c :: digits, isDigit d = true) :
    magnitude ([c] ++ (if digits = [] then [] else unit '.' :: digits) ++
      (unit 'E' :: unit '+' :: exp)) =
      digitsValue 0 (c :: digits) * 10 ^ ((digitsValue 0 exp : ℤ) - digits.length) := by
  have hc := hdigits c List.mem_cons_self
  have hexponent : exponentValue (unit 'E' :: unit '+' :: exp) = digitsValue 0 exp := by
    rw [exponentValue, peek_cons, if_neg (by decide), if_pos rfl, List.drop_succ_cons,
      List.drop_zero]
  have hstop : ∀ d ∈ (unit 'E' :: unit '+' :: exp).head?, isDigit d = false := by
    simp
    decide
  by_cases hnil : digits = []
  · rw [if_pos hnil, hnil]
    unfold magnitude
    simp only [List.append_nil, List.cons_append, List.nil_append]
    rw [takeWhile_digit hc hstop, dropWhile_digit hc hstop, peek_cons, if_neg (by decide),
      if_neg (by decide), hexponent]
    simp
  · have hpoint : ∀ d ∈ (unit '.' :: (digits ++ (unit 'E' :: unit '+' :: exp))).head?,
        isDigit d = false := by
      simp
      decide
    have hfrac : ∀ d ∈ digits, isDigit d = true := fun d hd => hdigits d (List.mem_cons_of_mem c hd)
    rw [if_neg hnil]
    unfold magnitude
    simp only [List.cons_append, List.nil_append]
    rw [takeWhile_digit hc hpoint, dropWhile_digit hc hpoint, peek_cons, if_pos rfl, if_pos rfl]
    simp only [List.drop_succ_cons, List.drop_zero]
    rw [takeWhile_append_stop hfrac hstop, dropWhile_append_stop hfrac hstop, hexponent]
    simp

theorem isNumber_exponent {c : CodeUnit} {digits exp : List CodeUnit}
    (hdigits : ∀ d ∈ c :: digits, isDigit d = true) (hc : c ≠ unit '0') (hexp : Digits exp) :
    IsNumber ([c] ++ (if digits = [] then [] else unit '.' :: digits) ++
      (unit 'E' :: unit '+' :: exp)) := by
  refine ⟨[], [c], if digits = [] then [] else unit '.' :: digits, unit 'E' :: unit '+' :: exp,
    Or.inl rfl, Or.inr ⟨⟨by simp, ?_⟩, by simpa using hc⟩, ?_,
    Or.inr ⟨unit 'E', [unit '+'], exp, Or.inr rfl, by simp, hexp, rfl⟩, by simp⟩
  · intro d hd
    rw [List.mem_singleton.mp hd]
    exact hdigits c List.mem_cons_self
  · by_cases hnil : digits = []
    · exact Or.inl (if_pos hnil)
    · right
      rw [if_neg hnil]
      exact ⟨digits, ⟨hnil, fun d hd => hdigits d (List.mem_cons_of_mem c hd)⟩, rfl⟩

/-- The digits without the zeros, and how many there are. -/
theorem trimZeros_decimalText {n : ℕ} (h : n ≠ 0) :
    ∃ c digits count, trimZeros (decimalText n) = c :: digits ∧ c ≠ unit '0' ∧
      (∀ d ∈ c :: digits, isDigit d = true) ∧
      (decimalText n).length - 1 = digits.length + count ∧
      n = digitsValue 0 (c :: digits) * 10 ^ count := by
  obtain ⟨count, hsplit⟩ := trimZeros_append (decimalText n)
  have hdigits := (digits_decimalText n).2
  have hhead := head_decimalText h
  have hvalue := digitsValue_decimalText n
  cases htrim : trimZeros (decimalText n) with
  | nil =>
      -- Nothing but zeros would be zero.
      rw [hsplit, htrim, List.nil_append, digitsValue_zeros] at hvalue
      omega
  | cons c digits =>
      rw [htrim] at hsplit
      rw [hsplit] at hdigits hhead hvalue
      refine ⟨c, digits, count, rfl, ?_, ?_, ?_, ?_⟩
      · simpa using hhead
      · intro d hd
        exact hdigits d (List.mem_append_left _ hd)
      · rw [hsplit]
        simp
      · rw [digitsValue_append, digitsValue_zeros] at hvalue
        exact hvalue.symm

/-- What a number's digits are written as, before some that are not. -/
theorem magnitude_trimmed {n : ℕ} (h : n ≠ 0) (dropped : ℕ) {text : List CodeUnit}
    (htext : text = (trimZeros (decimalText n)).take 1 ++
      (if (trimZeros (decimalText n)).drop 1 = [] then []
        else unit '.' :: (trimZeros (decimalText n)).drop 1) ++
      (unit 'E' :: unit '+' :: decimalText (dropped + ((decimalText n).length - 1)))) :
    IsNumber text ∧ peek text ≠ unit '-' ∧ magnitude text = n * 10 ^ dropped := by
  obtain ⟨c, digits, count, htrim, hc, hdigits, hlength, hvalue⟩ := trimZeros_decimalText h
  rw [htrim, List.take_one, List.head?_cons, Option.toList_some, List.drop_succ_cons,
    List.drop_zero] at htext
  rw [htext]
  refine ⟨isNumber_exponent hdigits hc (digits_decimalText _), ?_, ?_⟩
  · exact ne_of_isDigit (hdigits c List.mem_cons_self) (by decide)
  · have hexponent : ((dropped + ((decimalText n).length - 1) : ℕ) : ℤ) - digits.length =
        ((count + dropped : ℕ) : ℤ) := by
      rw [hlength]
      push_cast
      ring
    have hvalue' : (n : ℚ) = digitsValue 0 (c :: digits) * 10 ^ count := by exact_mod_cast hvalue
    rw [magnitude_exponent hdigits, digitsValue_decimalText, hexponent, zpow_natCast, pow_add,
      ← mul_assoc, hvalue']

/-- The nearest number of seventeen digits is half of the last one away at most. -/
theorem magnitude_scientific {n : ℕ} (hn : 10 ^ 16 ≤ n) :
    IsNumber (scientific n) ∧ peek (scientific n) ≠ unit '-' ∧
      10 ^ 16 * 10 ^ (Nat.log 10 n - 16) ≤ (n : ℚ) ∧
      |magnitude (scientific n) - n| ≤ 10 ^ (Nat.log 10 n - 16) / 2 := by
  have hlog : 16 ≤ Nat.log 10 n := Nat.le_log_of_pow_le (by norm_num) hn
  have hpow : 10 ^ Nat.log 10 n ≤ n := Nat.pow_log_le_self 10 (by omega)
  have hsize : (10 : ℚ) ^ 16 * 10 ^ (Nat.log 10 n - 16) ≤ n := by
    rw [← pow_add, Nat.add_sub_cancel' hlog]
    exact_mod_cast hpow
  have hpos : (0 : ℚ) < 10 ^ (Nat.log 10 n - 16) := by positivity
  have hnear := abs_roundHalfEven_mul_sub_le (n : ℚ) hpos
  have hrounded : 0 < roundHalfEven ((n : ℚ) / 10 ^ (Nat.log 10 n - 16)) := by
    have hlow := (abs_le.mp hnear).1
    have hproduct : (0 : ℚ) <
        roundHalfEven ((n : ℚ) / 10 ^ (Nat.log 10 n - 16)) * 10 ^ (Nat.log 10 n - 16) := by
      norm_num at hsize
      linarith
    exact_mod_cast (mul_pos_iff_of_pos_right hpos).mp hproduct
  obtain ⟨hnumber, hpeek, hmagnitude⟩ :=
    magnitude_trimmed (by omega) (Nat.log 10 n - 16) (rfl : scientific n = _)
  refine ⟨hnumber, hpeek, hsize, ?_⟩
  have hnat : (((roundHalfEven ((n : ℚ) / 10 ^ (Nat.log 10 n - 16))).toNat : ℕ) : ℚ) =
      roundHalfEven ((n : ℚ) / 10 ^ (Nat.log 10 n - 16)) := by
    have h := Int.toNat_of_nonneg hrounded.le
    exact_mod_cast congrArg (Int.cast (R := ℚ)) h
  rw [hmagnitude, hnat]
  exact hnear

/-- A double that is an integer of more than sixteen digits is read as it was. -/
theorem parseDouble_formatG17 (fraction : ℚ → List CodeUnit) {q : ℚ} (hdouble : IsDouble q)
    (htruncate : truncate q = q) (hq : 10 ^ 16 ≤ |q|) :
    IsNumber (formatG17 fraction q) ∧ parseDouble (formatG17 fraction q) = .finite q := by
  have habs : ((truncate q).natAbs : ℚ) = |q| := by
    rw [Nat.cast_natAbs, Int.cast_abs, htruncate]
  have hn : 10 ^ 16 ≤ (truncate q).natAbs := by
    rw [← habs] at hq
    exact_mod_cast hq
  obtain ⟨hnumber, hpeek, hdigits, hnear⟩ := magnitude_scientific hn
  rw [habs] at hdigits hnear
  unfold formatG17
  rw [if_pos htruncate]
  by_cases hsign : q < 0
  · rw [if_pos hsign]
    refine ⟨isNumber_minus hnumber hpeek, ?_⟩
    unfold parseDouble
    rw [peek_cons, if_pos rfl, List.drop_succ_cons, List.drop_zero]
    apply round_of_digits hdouble hdigits
    rw [abs_of_neg hsign] at hnear
    rw [← abs_neg]
    convert hnear using 2
    ring
  · rw [if_neg hsign]
    refine ⟨hnumber, ?_⟩
    unfold parseDouble
    rw [if_neg hpeek]
    apply round_of_digits hdouble hdigits
    rwa [abs_of_nonneg (not_lt.mp hsign)] at hnear

end Wardx.CSharpJson
