import Mathlib.Algebra.Order.Floor.Ring
import Mathlib.Data.Rat.Floor
import Wardx.Json

/-!
# Distinct sketches

A sketch is 512 registers, each a rank of at most 56. On the wire it is the
canonical base64 of its bytes; a body of another precision, length, rank or
spelling is refused by `decodeHllBody` before anything reads it, so the model
starts from the decoded registers and carries their validity in the type.
Merging takes the larger rank of each register. It is commutative, associative
and idempotent, which is what every later merge of sketches rests on.
-/
namespace Wardx.HyperLogLog

def precision : ℕ := 9
def registerCount : ℕ := 512
def maxRank : ℕ := 56

/-- The decoded registers of a valid body. -/
structure Registers where
  ranks : List ℕ
  length_eq : ranks.length = registerCount
  ranks_le : ∀ rank ∈ ranks, rank ≤ maxRank
deriving DecidableEq, Repr

theorem Registers.ext {a b : Registers} (h : a.ranks = b.ranks) : a = b := by
  cases a
  cases b
  cases h
  rfl

/-- The sketch that has seen nothing. -/
def Registers.empty : Registers where
  ranks := List.replicate registerCount 0
  length_eq := List.length_replicate
  ranks_le := by
    intro rank h
    rw [List.eq_of_mem_replicate h]
    exact Nat.zero_le _

/-- `mergeHllBodies`. -/
def mergeHllBodies (left right : Registers) : Registers where
  ranks := List.zipWith max left.ranks right.ranks
  length_eq := by rw [List.length_zipWith, left.length_eq, right.length_eq, min_self]
  ranks_le := by
    intro rank h
    rw [List.zipWith_eq_zipWith_take_min, List.mem_iff_getElem] at h
    obtain ⟨i, hi, rfl⟩ := h
    rw [List.getElem_zipWith]
    refine max_le (left.ranks_le _ ?_) (right.ranks_le _ ?_)
    · exact List.mem_of_mem_take (List.getElem_mem _)
    · exact List.mem_of_mem_take (List.getElem_mem _)

theorem zipWith_max_comm (a b : List ℕ) : List.zipWith max a b = List.zipWith max b a :=
  List.zipWith_comm_of_comm fun x y => max_comm x y

theorem zipWith_max_assoc (a b c : List ℕ) :
    List.zipWith max (List.zipWith max a b) c = List.zipWith max a (List.zipWith max b c) := by
  induction a generalizing b c with
  | nil => simp
  | cons x xs ih =>
      cases b with
      | nil => simp
      | cons y ys =>
          cases c with
          | nil => simp
          | cons z zs => simp [max_assoc, ih]

theorem mergeHllBodies_comm (a b : Registers) : mergeHllBodies a b = mergeHllBodies b a :=
  Registers.ext (zipWith_max_comm _ _)

theorem mergeHllBodies_assoc (a b c : Registers) :
    mergeHllBodies (mergeHllBodies a b) c = mergeHllBodies a (mergeHllBodies b c) :=
  Registers.ext (zipWith_max_assoc _ _ _)

/-- `Math.round`. -/
def round (value : ℚ) : ℤ := ⌊value + 1 / 2⌋

/-- `estimateHllBody`: the harmonic estimate, with linear counting while it is
small and some register is still zero. -/
def estimateHllBody (js : Js) (registers : Registers) : ℤ :=
  let count : ℚ := registerCount
  let harmonic := (registers.ranks.map fun rank => (1 : ℚ) / 2 ^ rank).sum
  let zeros := registers.ranks.countP (· = 0)
  let alpha : ℚ := (7213 / 10000) / (1 + (1079 / 1000) / count)
  let raw := alpha * count * count / harmonic
  let corrected :=
    if raw ≤ (5 / 2) * count ∧ 0 < zeros then count * js.log (count / zeros) else raw
  round corrected

/-! ## The wire form -/

def base64Digit (n : ℕ) : Char :=
  "ABCDEFGHIJKLMNOPQRSTUVWXYZabcdefghijklmnopqrstuvwxyz0123456789+/".toList.getD n 'A'

def base64 : List ℕ → List Char
  | a :: b :: c :: rest =>
      base64Digit (a / 4) :: base64Digit (a % 4 * 16 + b / 16) ::
        base64Digit (b % 16 * 4 + c / 64) :: base64Digit (c % 64) :: base64 rest
  | [a, b] =>
      [base64Digit (a / 4), base64Digit (a % 4 * 16 + b / 16), base64Digit (b % 16 * 4), '=']
  | [a] => [base64Digit (a / 4), base64Digit (a % 4 * 16), '=', '=']
  | [] => []

/-- `registers.toString('base64')`. -/
def Registers.text (registers : Registers) : String := String.ofList (base64 registers.ranks)

end Wardx.HyperLogLog
