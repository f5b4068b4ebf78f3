import Mathlib.Data.Nat.Bitwise
import Mathlib.Data.Nat.Size
import Wardx.Core.MetricsRegistry

/-!
# The rank of a digest in three languages

The nine high bits of a digest name a register; its rank is one more than the
number of zeros that lead the other 55. JavaScript shifts the high half of the
digest left as a signed 32-bit integer and counts zeros of 32-bit words, one half
after the other. C# and Swift test bit after bit. A byte counts there, which wraps
in C# and stops a Swift program when it would pass 255.
-/
namespace Wardx.RankAfterIndex

open HyperLogLog

/-- The zeros that lead a number written in so many bits. -/
def leadingZeros (width n : ℕ) : ℕ := width - n.size

/-! ## JavaScript -/

/-- `ToInt32`. -/
def toInt32 (n : ℤ) : ℤ := n.bmod (2 ^ 32)

/-- `ToUint32`. -/
def toUint32 (n : ℤ) : ℕ := (n % 2 ^ 32).toNat

/-- `n << count`. -/
def shiftLeft (n : ℤ) (count : ℕ) : ℤ := toInt32 (toInt32 n * 2 ^ count)

/-- `Math.clz32`. -/
def clz32 (n : ℤ) : ℕ := leadingZeros 32 (toUint32 n)

namespace JavaScript

def rankAfterIndex (digest : UInt64) : ℕ :=
  let remainingHigh := shiftLeft (digest.toNat >>> 32 : ℕ) precision
  if remainingHigh ≠ 0 then clz32 remainingHigh + 1
  else 32 - precision + clz32 (digest.toNat &&& 0xffffffff : ℕ) + 1

/-- `Number(digest >> INDEX_SHIFT)`. -/
def index (digest : UInt64) : ℕ := digest.toNat >>> (64 - precision)

end JavaScript

/-! ## C# and Swift -/

/-- The loop over the bits from the highest on; `next` is `rank++`. -/
def scan (next : UInt8 → Option UInt8) (digest : UInt64) : List ℕ → UInt8 → Option UInt8
  | [], rank => some rank
  | bit :: bits, rank =>
      if digest &&& (1 <<< UInt64.ofNat (63 - bit)) ≠ 0 then some rank
      else (next rank).bind (scan next digest bits)

/-- The bits from `Precision` to 63. -/
def bits : List ℕ := List.range' precision (64 - precision)

namespace CSharp

def rankAfterIndex (digest : UInt64) : Option UInt8 := scan (fun rank => some (rank + 1)) digest bits 1

/-- `(int)(digest >> (64 - Precision))`. -/
def index (digest : UInt64) : ℤ := toInt32 (digest >>> UInt64.ofNat (64 - precision)).toNat

end CSharp

namespace Swift

def rankAfterIndex (digest : UInt64) : Option UInt8 :=
  scan (fun rank => if rank = 255 then none else some (rank + 1)) digest bits 1

/-- `Int(digest >> UInt64(64 - precision))`. -/
def index (digest : UInt64) : ℤ := (digest >>> UInt64.ofNat (64 - precision)).toNat

end Swift

/-! ## Sizes -/

theorem size_mul_two_pow_add {x l k : ℕ} (hx : x ≠ 0) (hl : l < 2 ^ k) :
    (x * 2 ^ k + l).size = x.size + k := by
  have hsize : x < 2 ^ x.size := Nat.lt_size_self x
  apply le_antisymm
  · rw [Nat.size_le, pow_add]
    calc x * 2 ^ k + l < x * 2 ^ k + 2 ^ k := by omega
      _ = (x + 1) * 2 ^ k := by ring
      _ ≤ 2 ^ x.size * 2 ^ k := Nat.mul_le_mul_right _ hsize
  · have hpos : 0 < x.size := Nat.size_pos.mpr (Nat.pos_of_ne_zero hx)
    obtain ⟨n, hn⟩ := Nat.exists_eq_succ_of_ne_zero hpos.ne'
    have hle : 2 ^ n ≤ x := Nat.lt_size.mp (by omega)
    have hshift : x.size + k = n + k + 1 := by omega
    rw [hshift, Nat.add_one_le_iff, Nat.lt_size, pow_add]
    have hmul : 2 ^ n * 2 ^ k ≤ x * 2 ^ k := Nat.mul_le_mul_right _ hle
    omega

/-- The low bits with the next one above them. -/
theorem mod_two_pow_succ (n w : ℕ) :
    n % 2 ^ (w + 1) = n % 2 ^ w + 2 ^ w * (n.testBit w).toNat := by
  rw [Nat.mod_pow_succ, Nat.toNat_testBit]

theorem size_eq_of_testBit {n w : ℕ} (h : n.testBit w = true) : (n % 2 ^ (w + 1)).size = w + 1 := by
  have hbit := mod_two_pow_succ n w
  rw [h, Bool.toNat_true, mul_one] at hbit
  apply le_antisymm
  · rw [Nat.size_le]
    exact Nat.mod_lt _ (by positivity)
  · rw [Nat.add_one_le_iff, Nat.lt_size, hbit]
    omega

theorem mod_eq_of_testBit {n w : ℕ} (h : n.testBit w = false) :
    n % 2 ^ (w + 1) = n % 2 ^ w := by
  rw [mod_two_pow_succ, h, Bool.toNat_false, mul_zero, add_zero]

/-! ## The scan -/

theorem and_shift_ne_zero_iff (digest : UInt64) {w : ℕ} (hw : w < 64) :
    digest &&& (1 <<< UInt64.ofNat w) ≠ 0 ↔ digest.toNat.testBit w = true := by
  have hshift : ((1 : UInt64) <<< UInt64.ofNat w).toNat = 2 ^ w := by
    have hlt : 2 ^ w < 2 ^ 64 := Nat.pow_lt_pow_right (by omega) hw
    simp only [UInt64.toNat_shiftLeft, UInt64.toNat_ofNat', UInt64.toNat_one]
    rw [Nat.mod_eq_of_lt (by omega : w < 2 ^ 64), Nat.mod_eq_of_lt hw, Nat.one_shiftLeft,
      Nat.mod_eq_of_lt hlt]
  rw [ne_eq, ← UInt64.toNat_inj, UInt64.toNat_and, hshift, Nat.and_two_pow]
  cases digest.toNat.testBit w with
  | false => simp
  | true => simp

/-- From a rank that leaves room, the scan of the low bits adds the zeros that lead them. -/
theorem scan_eq {next : UInt8 → Option UInt8}
    (hnext : ∀ rank : UInt8, rank.toNat < 255 → next rank = some (rank + 1)) (digest : UInt64)
    {w : ℕ} (hw : w ≤ 64) {rank : UInt8} (hrank : rank.toNat + w ≤ 255) :
    ∃ last, scan next digest (List.range' (64 - w) w) rank = some last ∧
      last.toNat = rank.toNat + leadingZeros w (digest.toNat % 2 ^ w) := by
  induction w generalizing rank with
  | zero => exact ⟨rank, rfl, by simp [leadingZeros]⟩
  | succ w ih =>
      have hbits : List.range' (64 - (w + 1)) (w + 1) =
          (64 - (w + 1)) :: List.range' (64 - w) w := by
        rw [List.range'_succ]
        congr 2
        omega
      have hplace : 63 - (64 - (w + 1)) = w := by omega
      rw [hbits, scan, hplace]
      by_cases hbit : digest.toNat.testBit w = true
      · rw [if_pos ((and_shift_ne_zero_iff digest (by omega)).mpr hbit)]
        refine ⟨rank, rfl, ?_⟩
        unfold leadingZeros
        rw [size_eq_of_testBit hbit]
        omega
      · have hzero : digest.toNat.testBit w = false := Bool.eq_false_iff.mpr hbit
        rw [if_neg fun h => hbit ((and_shift_ne_zero_iff digest (by omega)).mp h),
          hnext rank (by omega), Option.bind_some]
        have hstep : (rank + 1).toNat = rank.toNat + 1 := by
          rw [UInt8.toNat_add, UInt8.toNat_one, Nat.mod_eq_of_lt (by omega)]
        have hroom : (rank + 1).toNat + w ≤ 255 := by omega
        obtain ⟨last, hscan, hlast⟩ := ih (by omega) hroom
        refine ⟨last, hscan, ?_⟩
        have hsize : (digest.toNat % 2 ^ w).size ≤ w := Nat.size_le.mpr (Nat.mod_lt _ (by positivity))
        rw [hlast, hstep, mod_eq_of_testBit hzero]
        unfold leadingZeros
        omega

/-- The place of the first bit behind the index, in 55 bits. -/
def expectedRank (digest : UInt64) : ℕ := 1 + leadingZeros 55 (digest.toNat % 2 ^ 55)

theorem expectedRank_mem (digest : UInt64) : 1 ≤ expectedRank digest ∧ expectedRank digest ≤ 56 := by
  unfold expectedRank leadingZeros
  omega

theorem scan_bits {next : UInt8 → Option UInt8}
    (hnext : ∀ rank : UInt8, rank.toNat < 255 → next rank = some (rank + 1)) (digest : UInt64) :
    (scan next digest bits 1).map UInt8.toNat = some (expectedRank digest) := by
  have hroom : (1 : UInt8).toNat + 55 ≤ 255 := by decide
  obtain ⟨last, hscan, hlast⟩ := scan_eq hnext digest (by decide) hroom
  have hbits : bits = List.range' (64 - 55) 55 := rfl
  rw [hbits, hscan, Option.map_some, hlast]
  rfl

/-! ## The shift -/

/-- A shifted word is, without its sign, the word's low bits in the higher places. -/
theorem toUint32_shiftLeft (n : ℕ) :
    toUint32 (shiftLeft n precision) = n % 2 ^ 23 * 2 ^ 9 := by
  have hmod : shiftLeft n precision % 2 ^ 32 = (n * 2 ^ 9 : ℤ) % 2 ^ 32 := by
    have hcast : (2 : ℤ) ^ 32 = ((2 ^ 32 : ℕ) : ℤ) := by norm_num
    unfold shiftLeft toInt32 precision
    rw [hcast, Int.bmod_emod, Int.mul_emod, Int.bmod_emod, ← Int.mul_emod]
  unfold toUint32
  rw [hmod]
  omega

theorem shiftLeft_eq_zero_iff (n : ℕ) : shiftLeft n precision = 0 ↔ n % 2 ^ 23 = 0 := by
  have hword := toUint32_shiftLeft n
  constructor
  · intro h
    rw [h] at hword
    have hzero : toUint32 0 = 0 := rfl
    omega
  · intro h
    rw [h, zero_mul] at hword
    unfold shiftLeft toInt32 toUint32 at *
    rw [Int.bmod_def] at *
    split_ifs at * <;> omega

theorem javaScript_eq (digest : UInt64) :
    JavaScript.rankAfterIndex digest = expectedRank digest := by
  have hand : digest.toNat &&& 0xffffffff = digest.toNat % 2 ^ 32 :=
    Nat.and_two_pow_sub_one_eq_mod digest.toNat 32
  have hsplit : digest.toNat % 2 ^ 55 =
      digest.toNat / 2 ^ 32 % 2 ^ 23 * 2 ^ 32 + digest.toNat % 2 ^ 32 := by omega
  have hlow : digest.toNat % 2 ^ 32 < 2 ^ 32 := Nat.mod_lt _ (by decide)
  have hlowSize : (digest.toNat % 2 ^ 32).size ≤ 32 := Nat.size_le.mpr hlow
  unfold JavaScript.rankAfterIndex expectedRank clz32 leadingZeros
  dsimp only
  rw [hand, Nat.shiftRight_eq_div_pow, hsplit]
  by_cases hhigh : digest.toNat / 2 ^ 32 % 2 ^ 23 = 0
  · rw [if_neg fun h => h ((shiftLeft_eq_zero_iff _).mpr hhigh), hhigh, zero_mul, zero_add]
    have hword : toUint32 ((digest.toNat % 2 ^ 32 : ℕ) : ℤ) = digest.toNat % 2 ^ 32 := by
      unfold toUint32
      omega
    rw [hword]
    unfold precision
    omega
  · rw [if_pos fun h => hhigh ((shiftLeft_eq_zero_iff _).mp h), toUint32_shiftLeft,
      size_mul_two_pow_add hhigh hlow]
    have hword := size_mul_two_pow_add hhigh (by decide : 0 < 2 ^ 9)
    have hhighSize : (digest.toNat / 2 ^ 32 % 2 ^ 23).size ≤ 23 :=
      Nat.size_le.mpr (Nat.mod_lt _ (by decide))
    rw [add_zero] at hword
    rw [hword]
    omega

/-- The JavaScript rank is the one the metrics registry raises a register to. -/
theorem javaScript_eq_registry (digest : Fin (2 ^ 64)) :
    JavaScript.rankAfterIndex (UInt64.ofFin digest) = MetricsRegistry.rankAfterIndex digest := by
  have hvalue : (UInt64.ofFin digest).toNat = digest.val := rfl
  have hand : digest.val &&& 0xffffffff = digest.val % 2 ^ 32 :=
    Nat.and_two_pow_sub_one_eq_mod digest.val 32
  have hlow : toUint32 ((digest.val % 2 ^ 32 : ℕ) : ℤ) = digest.val % 2 ^ 32 := by
    unfold toUint32
    omega
  have hhigh : digest.val / 2 ^ 32 * 2 ^ 9 % 2 ^ 32 = digest.val / 2 ^ 32 % 2 ^ 23 * 2 ^ 9 := by
    omega
  unfold JavaScript.rankAfterIndex MetricsRegistry.rankAfterIndex MetricsRegistry.clz32 clz32
    leadingZeros
  dsimp only
  rw [hvalue, hand, Nat.shiftRight_eq_div_pow, hlow, hhigh, toUint32_shiftLeft]
  by_cases hzero : digest.val / 2 ^ 32 % 2 ^ 23 = 0
  · rw [if_neg fun h => h ((shiftLeft_eq_zero_iff _).mpr hzero), hzero]
    rfl
  · have hne : digest.val / 2 ^ 32 % 2 ^ 23 * 2 ^ 9 ≠ 0 := Nat.mul_ne_zero hzero (by decide)
    rw [if_pos fun h => hzero ((shiftLeft_eq_zero_iff _).mp h), if_pos hne]

/-! ## The three together -/

/-- Every digest has one rank and one register in the three languages. -/
theorem rank_agrees (digest : UInt64) :
    JavaScript.rankAfterIndex digest = expectedRank digest ∧
      (CSharp.rankAfterIndex digest).map UInt8.toNat = some (expectedRank digest) ∧
      (Swift.rankAfterIndex digest).map UInt8.toNat = some (expectedRank digest) ∧
      1 ≤ expectedRank digest ∧ expectedRank digest ≤ 56 ∧
      CSharp.index digest = JavaScript.index digest ∧
      Swift.index digest = JavaScript.index digest ∧
      JavaScript.index digest < registerCount := by
  have hshift : (digest >>> UInt64.ofNat (64 - precision)).toNat = digest.toNat / 2 ^ 55 := by
    rw [UInt64.toNat_shiftRight, Nat.shiftRight_eq_div_pow]
    rfl
  have hlt : digest.toNat / 2 ^ 55 < registerCount := by
    have hdigest := digest.toNat_lt
    unfold registerCount
    omega
  have hindex : JavaScript.index digest = digest.toNat / 2 ^ 55 := Nat.shiftRight_eq_div_pow _ _
  obtain ⟨hleast, hmost⟩ := expectedRank_mem digest
  refine ⟨javaScript_eq digest, ?_, ?_, hleast, hmost, ?_, ?_, hindex ▸ hlt⟩
  · exact scan_bits (fun rank _ => rfl) digest
  · apply scan_bits
    intro rank hrank
    rw [if_neg]
    intro h
    rw [h] at hrank
    exact absurd hrank (by decide)
  · rw [hindex, CSharp.index, hshift, toInt32, Int.bmod_def]
    unfold registerCount at hlt
    split_ifs <;> omega
  · rw [hindex, Swift.index, hshift]

example : expectedRank 0 = 56 := by decide
example : expectedRank (2 ^ 54 - 1) = 2 := by decide

end Wardx.RankAfterIndex
