import Mathlib.Algebra.Order.Ring.Rat
import Wardx.Json
import Wardx.Lib.BoundedHeap

/-!
# Ranking outcomes

`rankOutcomes` sorts the rows of a kind and keeps the first few. Below the number
of rows it selects them through a bounded heap; the answer is that of the sort.
-/
namespace Wardx.FrameAggregator

open Lib BoundedHeap Json

inductive OutcomeKind where
  | counter | event | histogram | log
deriving DecidableEq, Repr

/-- An outcome row: the fields a ranking reads, and the others. -/
structure OutcomeRow (ρ : Type) where
  name : String
  value : ℚ
  count : ℚ
  max : ℚ
  others : ρ
deriving DecidableEq, Repr

variable {ρ : Type}

/-- `OUTCOME_ORDER[kind]`; a difference of finite numbers has the sign of their comparison. -/
def outcomeOrder (js : Js) : OutcomeKind → OutcomeRow ρ → OutcomeRow ρ → Ordering
  | .counter, a, b => compare b.value a.value
  | .event, a, b => compare b.count a.count
  | .histogram, a, b => (compare b.max a.max).then (compare b.count a.count)
  | .log, a, b => (compare b.count a.count).then (js.localeCompare a.name b.name)

/-- `rows.slice(0, limit)`. -/
def sliceTo {α : Type} (rows : List α) (limit : ℚ) : List α :=
  let stop := limit.num.tdiv limit.den
  rows.take (if stop < 0 then rows.length + stop else stop).toNat

def rankOutcomes (js : Js) (rows : List (OutcomeRow ρ)) (kind : OutcomeKind) :
    Option ℚ → List (OutcomeRow ρ)
  | none => sort (outcomeOrder js kind) rows
  | some limit =>
      if limit.den ≠ 1 ∨ limit < 0 ∨ (rows.length : ℚ) ≤ limit then
        sliceTo (sort (outcomeOrder js kind) rows) limit
      else if limit = 0 then []
      else (select (byPosition (outcomeOrder js kind)) limit.num.toNat rows.zipIdx).map Prod.fst

/-! ## The comparators -/

theorem transCmp_descending {α : Type} (f : α → ℚ) :
    Std.TransCmp fun a b => compare (f b) (f a) where
  eq_swap := Std.OrientedCmp.eq_swap
  isLE_trans hab hbc := Std.TransCmp.isLE_trans hbc hab

theorem transCmp_name (js : Js) [Std.TransCmp js.localeCompare] :
    Std.TransCmp fun a b : OutcomeRow ρ => js.localeCompare a.name b.name where
  eq_swap := Std.OrientedCmp.eq_swap
  isLE_trans := Std.TransCmp.isLE_trans

theorem transCmp_then {α : Type} {first second : α → α → Ordering} (hfirst : Std.TransCmp first)
    (hsecond : Std.TransCmp second) : Std.TransCmp fun a b => (first a b).then (second a b) :=
  inferInstanceAs (Std.TransCmp (compareLex first second))

theorem outcomeOrder_transCmp (ρ : Type) (js : Js) [Std.TransCmp js.localeCompare]
    (kind : OutcomeKind) : Std.TransCmp (outcomeOrder js kind : OutcomeRow ρ → _ → _) := by
  cases kind with
  | counter => exact transCmp_descending OutcomeRow.value
  | event => exact transCmp_descending OutcomeRow.count
  | histogram =>
      exact transCmp_then (transCmp_descending OutcomeRow.max) (transCmp_descending OutcomeRow.count)
  | log => exact transCmp_then (transCmp_descending OutcomeRow.count) (transCmp_name js)

/-! ## The ranking -/

theorem sliceTo_natCast {α : Type} (rows : List α) (limit : ℕ) :
    sliceTo rows limit = rows.take limit := by
  have hstop : (limit : ℚ).num.tdiv (limit : ℚ).den = limit := by simp
  have hnonneg : ¬ (limit : ℤ) < 0 := by omega
  simp only [sliceTo, hstop, if_neg hnonneg, Int.toNat_natCast]

/-- Ranking is sorting, cut at the limit. -/
theorem rankOutcomes_eq_sliceTo (js : Js) [Std.TransCmp js.localeCompare]
    (rows : List (OutcomeRow ρ)) (kind : OutcomeKind) (limit : ℚ) :
    rankOutcomes js rows kind (some limit) = sliceTo (sort (outcomeOrder js kind) rows) limit := by
  have htrans := outcomeOrder_transCmp ρ js kind
  simp only [rankOutcomes]
  split_ifs with hsort hzero
  · rfl
  · rw [hzero]
    simp [sliceTo]
  · simp only [not_or, not_not, not_lt] at hsort
    obtain ⟨hinteger, hpos, -⟩ := hsort
    have hnum : 0 < limit.num := Rat.num_pos.mpr (lt_of_le_of_ne hpos (Ne.symm hzero))
    rw [select_byPosition (by omega)]
    simp [sliceTo, hinteger, not_lt.mpr hnum.le]

/-- Selecting through the heap, cutting the sort, or not cutting it: for every limit
the ranking is the beginning of the stable sort. -/
theorem rankOutcomes_stable_take (js : Js) [Std.TransCmp js.localeCompare]
    (rows : List (OutcomeRow ρ)) (kind : OutcomeKind) :
    StableSort (outcomeOrder js kind) rows (rankOutcomes js rows kind none) ∧
      ∀ limit : ℕ, rankOutcomes js rows kind (some limit) =
        (rankOutcomes js rows kind none).take limit := by
  have htrans := outcomeOrder_transCmp ρ js kind
  refine ⟨sort_stable rows, fun limit => ?_⟩
  rw [rankOutcomes_eq_sliceTo, sliceTo_natCast]
  rfl

/-- Three checkouts, two of them tied. -/
def checkouts : List (OutcomeRow Unit) :=
  [⟨"cart", 0, 2, 0, ()⟩, ⟨"paid", 0, 5, 0, ()⟩, ⟨"lost", 0, 2, 0, ()⟩]

theorem rankOutcomes_stable_take_checkouts :
    rankOutcomes Js.plain checkouts .event (some 2) =
      [⟨"paid", 0, 5, 0, ()⟩, ⟨"cart", 0, 2, 0, ()⟩] := by
  have hplain : Std.TransCmp Js.plain.localeCompare :=
    inferInstanceAs (Std.TransCmp (compare : String → String → Ordering))
  have htop := (rankOutcomes_stable_take Js.plain checkouts .event).2 2
  have hsorted : (rankOutcomes Js.plain checkouts .event none).take 2 =
      [⟨"paid", 0, 5, 0, ()⟩, ⟨"cart", 0, 2, 0, ()⟩] := by decide +kernel
  exact htop.trans hsorted

end Wardx.FrameAggregator
