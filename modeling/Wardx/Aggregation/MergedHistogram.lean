import Mathlib.Order.Bounds.Basic
import Mathlib.Algebra.BigOperators.Group.List.Basic
import Wardx.Aggregation.FrameAggregator

/-!
# The histogram of values

Every value of a histogram falls in the first bucket whose bound it does not
exceed, or in none. A body tells the values it is of: their number, sum and
extremes, those of each bucket, and an exemplar at the maximum. Merged bodies of
the same bounds tell both values.
-/
namespace Wardx.FrameAggregator

open Lib

/-! ## Buckets -/

/-- The place of the first bound that the value does not exceed. -/
def bucketOf (bounds : List ℚ) (value : ℚ) : ℕ := bounds.findIdx fun bound => value ≤ bound

/-- How many values each bucket has. -/
def bucketCounts (bounds : List ℚ) (values : List ℚ) : List ℕ :=
  (List.range bounds.length).map fun i => values.countP fun value => bucketOf bounds value = i

@[simp] theorem length_bucketCounts (bounds values : List ℚ) :
    (bucketCounts bounds values).length = bounds.length := by
  simp [bucketCounts]

theorem bucketCounts_nil (bounds : List ℚ) :
    bucketCounts bounds [] = List.replicate bounds.length 0 := by
  simp [bucketCounts, List.map_const']

theorem bucketCounts_append (bounds values others : List ℚ) :
    bucketCounts bounds (values ++ others) =
      List.zipWith (· + ·) (bucketCounts bounds values) (bucketCounts bounds others) := by
  unfold bucketCounts
  rw [List.zipWith_map, List.zipWith_self]
  apply List.map_congr_left
  intro i _
  exact List.countP_append

/-- A further value counts in its bucket. -/
theorem bucketCounts_concat (bounds values : List ℚ) (value : ℚ) :
    bucketCounts bounds (values ++ [value]) =
      (bucketCounts bounds values).modify (bucketOf bounds value) (· + 1) := by
  apply List.ext_getElem
  · simp
  · intro i hleft hright
    rw [List.getElem_modify]
    simp only [bucketCounts, List.getElem_map, List.getElem_range, List.countP_append,
      List.countP_singleton, decide_eq_true_eq]
    split_ifs <;> rfl

/-! ## Merged buckets -/

theorem addBucket_mem {bound : ℚ} {count more : ℕ} {before after : List (ℚ × ℕ)}
    (hbefore : ∀ held ∈ before, held.1 ≠ bound) (hafter : ∀ held ∈ after, held.1 ≠ bound) :
    addBucket (before ++ (bound, count) :: after) (bound, more) =
      before ++ (bound, count + more) :: after := by
  have hsame : ∀ {part : List (ℚ × ℕ)}, (∀ held ∈ part, held.1 ≠ bound) →
      (part.map fun held => if held.1 = bound then (held.1, held.2 + more) else held) = part := by
    intro part hpart
    rw [List.map_congr_left (g := id)]
    · exact List.map_id part
    · intro held hheld
      exact if_neg (hpart held hheld)
  unfold addBucket
  rw [if_pos (by simp), List.map_append, List.map_cons, hsame hbefore, hsame hafter]
  simp

/-- The buckets of the same bounds are added one to one. -/
theorem foldl_addBucket {bounds : List ℚ} (hnodup : bounds.Nodup) {counts others : List ℕ}
    (hcounts : counts.length = bounds.length) (hothers : others.length = bounds.length) :
    (bounds.zip others).foldl addBucket (bounds.zip counts) =
      bounds.zip (List.zipWith (· + ·) counts others) := by
  have key : ∀ before : List (ℚ × ℕ), (∀ held ∈ before, held.1 ∉ bounds) →
      (bounds.zip others).foldl addBucket (before ++ bounds.zip counts) =
        before ++ bounds.zip (List.zipWith (· + ·) counts others) := by
    induction bounds generalizing counts others with
    | nil => simp
    | cons bound bounds ih =>
        intro before hbefore
        cases counts with
        | nil => simp at hcounts
        | cons count counts =>
            cases others with
            | nil => simp at hothers
            | cons more others =>
                rw [List.nodup_cons] at hnodup
                have hrest : ∀ held ∈ bounds.zip counts, held.1 ≠ bound := by
                  intro held hheld heq
                  apply hnodup.1
                  rw [← heq]
                  exact (List.of_mem_zip hheld).1
                have hhead : ∀ held ∈ before, held.1 ≠ bound := fun held hheld heq =>
                  hbefore held hheld (heq ▸ List.mem_cons_self)
                have hdone : ∀ held ∈ before ++ [(bound, count + more)], held.1 ∉ bounds := by
                  intro held hheld
                  rw [List.mem_append, List.mem_singleton] at hheld
                  cases hheld with
                  | inl hold => exact fun hmem => hbefore held hold (List.mem_cons_of_mem bound hmem)
                  | inr hnew => rw [hnew]; exact hnodup.1
                have hlater := ih hnodup.2 (by simpa using hcounts) (by simpa using hothers)
                  (before ++ [(bound, count + more)]) hdone
                rw [List.append_assoc, List.append_assoc] at hlater
                rw [List.zip_cons_cons, List.zip_cons_cons, List.foldl_cons,
                  addBucket_mem hhead hrest]
                exact hlater
  exact key [] fun held hheld => by cases hheld

/-- Sorting leaves buckets in the order of their bounds. -/
theorem insertionSort_zip {bounds : List ℚ} (hbounds : bounds.Pairwise (· < ·)) (counts : List ℕ) :
    (bounds.zip counts).insertionSort (fun a b => a.1 ≤ b.1) = bounds.zip counts := by
  apply List.Pairwise.insertionSort_eq
  induction bounds generalizing counts with
  | nil => exact List.Pairwise.nil
  | cons bound bounds ih =>
      cases counts with
      | nil => exact List.Pairwise.nil
      | cons count counts =>
          rw [List.pairwise_cons] at hbounds
          rw [List.zip_cons_cons, List.pairwise_cons]
          refine ⟨fun held hheld => ?_, ih hbounds.2 counts⟩
          exact (hbounds.1 held.1 (List.of_mem_zip hheld).1).le

/-! ## Bodies -/

/-- The body tells the values. -/
structure BodyOf (bounds values : List ℚ) (body : Body) : Prop where
  count : body.count = values.length
  sum : body.sum = values.sum
  min : IsLeast {value | value ∈ values} body.min
  max : IsGreatest {value | value ∈ values} body.max
  buckets : body.buckets = bounds.zip (bucketCounts bounds values)
  exemplar : ∀ exemplar, body.exemplar = some exemplar → exemplar.value = body.max

theorem isLeast_append {values others : List ℚ} {a b : ℚ}
    (ha : IsLeast {value | value ∈ values} a) (hb : IsLeast {value | value ∈ others} b) :
    IsLeast {value | value ∈ values ++ others} (if b < a then b else a) := by
  have hmin : (if b < a then b else a) = a ⊓ b := by
    split_ifs with h
    · exact (inf_eq_right.mpr h.le).symm
    · exact (inf_eq_left.mpr (not_lt.mp h)).symm
  have hunion : {value | value ∈ values ++ others} =
      {value | value ∈ values} ∪ {value | value ∈ others} := by
    ext value
    simp
  rw [hmin, hunion]
  exact ha.union hb

theorem isGreatest_append {values others : List ℚ} {a b : ℚ}
    (ha : IsGreatest {value | value ∈ values} a) (hb : IsGreatest {value | value ∈ others} b) :
    IsGreatest {value | value ∈ values ++ others} (if a < b then b else a) := by
  have hmax : (if a < b then b else a) = a ⊔ b := by
    split_ifs with h
    · exact (sup_eq_right.mpr h.le).symm
    · exact (sup_eq_left.mpr (not_lt.mp h)).symm
  have hunion : {value | value ∈ values ++ others} =
      {value | value ∈ values} ∪ {value | value ∈ others} := by
    ext value
    simp
  rw [hmax, hunion]
  exact ha.union hb

/-- A merge of bodies of the same bounds tells the values of both. -/
theorem BodyOf.merge {bounds values others : List ℚ} {existing : Body} {incoming : HistogramRow}
    (hbounds : bounds.Pairwise (· < ·)) (h : BodyOf bounds values existing)
    (hincoming : BodyOf bounds others (mergeHistogram none incoming)) :
    BodyOf bounds (values ++ others) (mergeHistogram (some existing) incoming) := by
  obtain ⟨hcount, hsum, hmin, hmax, hbuckets, hexemplar⟩ := hincoming
  dsimp only [mergeHistogram] at hcount hsum hmin hmax hbuckets hexemplar
  refine ⟨?_, ?_, ?_, ?_, ?_, ?_⟩
  · rw [List.length_append, ← h.count, ← hcount]
    rfl
  · rw [List.sum_append, ← h.sum, ← hsum]
    rfl
  · exact isLeast_append h.min hmin
  · exact isGreatest_append h.max hmax
  · show (incoming.buckets.foldl addBucket existing.buckets).insertionSort _ = _
    rw [h.buckets, hbuckets, foldl_addBucket hbounds.nodup (length_bucketCounts _ _)
      (length_bucketCounts _ _), insertionSort_zip hbounds, bucketCounts_append]
  · intro exemplar hafter
    show exemplar.value = if existing.max < incoming.max then incoming.max else existing.max
    have hown : exemplarAfter existing incoming = some exemplar := hafter
    unfold exemplarAfter at hown
    split_ifs at hown ⊢ with hlt heq
    · exact hexemplar exemplar hown
    · -- of two equal maxima the later exemplar is kept, if there is one
      rw [Option.or_eq_some_iff] at hown
      cases hown with
      | inl hnew => rw [← heq]; exact hexemplar exemplar hnew
      | inr hold => exact h.exemplar exemplar hold.2
    · exact h.exemplar exemplar hown

/-- The body that rows merge to, in order of arrival. -/
def mergedBody (rows : List HistogramRow) : Option Body :=
  rows.foldl (fun held row => some (mergeHistogram held row)) none

/-- Rows of windows merge to the body of all the windows' values. -/
theorem mergedBody_of {bounds : List ℚ} (hbounds : bounds.Pairwise (· < ·)) {rows : List HistogramRow}
    {windows : List (List ℚ)}
    (h : List.Forall₂ (fun row window => BodyOf bounds window (mergeHistogram none row)) rows windows) :
    (rows = [] ∧ windows = []) ∨
      ∃ body, mergedBody rows = some body ∧ BodyOf bounds windows.flatten body := by
  have hlater : ∀ {rows : List HistogramRow} {windows : List (List ℚ)} {held : Body}
      {values : List ℚ}, BodyOf bounds values held →
      List.Forall₂ (fun row window => BodyOf bounds window (mergeHistogram none row)) rows windows →
      ∃ body, rows.foldl (fun held row => some (mergeHistogram held row)) (some held) = some body ∧
        BodyOf bounds (values ++ windows.flatten) body := by
    intro rows windows held values hheld hrows
    induction hrows generalizing held values with
    | nil => exact ⟨held, rfl, by simpa using hheld⟩
    | cons hrow _ ih =>
        rw [List.flatten_cons, ← List.append_assoc]
        exact ih (hheld.merge hbounds hrow)
  cases h with
  | nil => exact Or.inl ⟨rfl, rfl⟩
  | cons hrow hrest => exact Or.inr (hlater hrow hrest)

end Wardx.FrameAggregator
