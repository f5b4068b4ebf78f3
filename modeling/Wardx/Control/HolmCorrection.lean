import Wardx.Control.ExperimentDecision
import Wardx.Lib.ArrivalOrder
import Mathlib.Tactic.Linarith

/-!
# Holm's correction

The loop rejects by a flag, as long as each p-value stands its own bound, and
adjusts by a running maximum: the two agree on every rank. The order of the
result is that of the p-values, then of the collation of the keys. Collation
does not tell every two texts apart (a letter with its accent may be one
character or two), and a tie that it leaves keeps the order of the input.
-/
namespace Wardx.Control

open Lib

/-! ## The loop -/

section
variable {familyWiseAlpha : ℚ} {comparisons : List RawComparison}

theorem holmStep_toRawComparison (familyWiseAlpha : ℚ) (canReject : Bool) (previous : ℚ)
    (comparisons : List RawComparison) :
    (holmStep familyWiseAlpha canReject previous comparisons).map
      AdjustedComparison.toRawComparison = comparisons := by
  induction comparisons generalizing canReject previous with
  | nil => rfl
  | cons comparison rest ih =>
      rw [holmStep, List.map_cons, ih]

/-- The running maximum stands the level exactly as long as the flag is up. -/
theorem adjusted_le_iff {canReject : Bool} {previous remaining : ℚ} (pValue : ℚ)
    (hcanReject : canReject = true ↔ previous ≤ familyWiseAlpha) (hlevel : familyWiseAlpha < 1)
    (hremaining : 0 < remaining) :
    (canReject && decide (pValue ≤ familyWiseAlpha / remaining)) = true ↔
      min 1 (max previous (pValue * remaining)) ≤ familyWiseAlpha := by
  have hone : ¬ (1 : ℚ) ≤ familyWiseAlpha := not_le.mpr hlevel
  rw [Bool.and_eq_true, decide_eq_true_eq, hcanReject, le_div_iff₀ hremaining, min_le_iff,
    max_le_iff]
  simp only [hone, false_or]

theorem holmStep_significant_iff (hlevel : familyWiseAlpha < 1) {canReject : Bool} {previous : ℚ}
    (hcanReject : canReject = true ↔ previous ≤ familyWiseAlpha) :
    ∀ comparison ∈ holmStep familyWiseAlpha canReject previous comparisons,
      comparison.significant = true ↔ comparison.adjustedPValue ≤ familyWiseAlpha := by
  induction comparisons generalizing canReject previous with
  | nil => simp [holmStep]
  | cons first rest ih =>
      have hremaining : (0 : ℚ) < rest.length + 1 := by positivity
      have hfirst := adjusted_le_iff first.pValue hcanReject hlevel hremaining
      intro comparison hmem
      cases List.mem_cons.mp hmem with
      | inl heq =>
          rw [heq]
          exact hfirst
      | inr hrest => exact ih hfirst comparison hrest

/-- What comes after a comparison is adjusted to no less. -/
theorem holmStep_adjusted (familyWiseAlpha : ℚ) (canReject : Bool) (previous : ℚ) (hprevious : previous ≤ 1)
    (hvalues : ∀ comparison ∈ comparisons, 0 ≤ comparison.pValue ∧ comparison.pValue ≤ 1) :
    (∀ comparison ∈ holmStep familyWiseAlpha canReject previous comparisons,
        previous ≤ comparison.adjustedPValue ∧ comparison.pValue ≤ comparison.adjustedPValue ∧
          comparison.adjustedPValue ≤ 1) ∧
      (holmStep familyWiseAlpha canReject previous comparisons).Pairwise
        fun before after => before.adjustedPValue ≤ after.adjustedPValue := by
  induction comparisons generalizing canReject previous with
  | nil => exact ⟨by simp [holmStep], List.Pairwise.nil⟩
  | cons first rest ih =>
      obtain ⟨hnonneg, hone⟩ := hvalues first List.mem_cons_self
      have hrest := ih
        (canReject && decide (first.pValue ≤ familyWiseAlpha / ((rest.length : ℚ) + 1)))
        (min 1 (max previous (first.pValue * ((rest.length : ℚ) + 1)))) (min_le_left _ _) fun comparison hmem => hvalues comparison (List.mem_cons_of_mem first hmem)
      have hkept : previous ≤ min 1 (max previous (first.pValue * ((rest.length : ℚ) + 1))) :=
        le_min hprevious (le_max_left _ _)
      have hraw : first.pValue ≤ first.pValue * ((rest.length : ℚ) + 1) := by
        have hlength : (0 : ℚ) ≤ rest.length := Nat.cast_nonneg _
        nlinarith
      refine ⟨fun comparison hmem => ?_, List.pairwise_cons.mpr ⟨fun after hafter => ?_, hrest.2⟩⟩
      · cases List.mem_cons.mp hmem with
        | inl heq =>
            rw [heq]
            exact ⟨hkept, le_min hone (hraw.trans (le_max_right _ _)), min_le_left _ _⟩
        | inr hmem =>
            obtain ⟨hle, hbounds⟩ := hrest.1 comparison hmem
            exact ⟨hkept.trans hle, hbounds⟩
      · exact (hrest.1 after hafter).1

/-- With the flag down nothing is significant. -/
theorem holmStep_false (previous : ℚ) :
    ∀ comparison ∈ holmStep familyWiseAlpha false previous comparisons,
      comparison.significant = false := by
  induction comparisons generalizing previous with
  | nil => simp [holmStep]
  | cons first rest ih =>
      intro comparison hmem
      cases List.mem_cons.mp hmem with
      | inl heq =>
          rw [heq]
          rfl
      | inr hrest => exact ih _ comparison hrest

/-- The significant comparisons come first. -/
theorem holmStep_prefix (canReject : Bool) (previous : ℚ) :
    ((holmStep familyWiseAlpha canReject previous comparisons).filter (·.significant)) <+:
      holmStep familyWiseAlpha canReject previous comparisons := by
  induction comparisons generalizing canReject previous with
  | nil => exact List.prefix_refl _
  | cons first rest ih =>
      rw [holmStep, List.filter_cons]
      split_ifs with hsignificant
      · exact (List.prefix_cons_inj _).mpr (ih _ _)
      · have hnone : (holmStep familyWiseAlpha (canReject && decide
            (first.pValue ≤ familyWiseAlpha / ((rest.length : ℚ) + 1)))
            (min 1 (max previous (first.pValue * ((rest.length : ℚ) + 1)))) rest).filter
              (·.significant) = [] := by
          have hdown : (canReject && decide
              (first.pValue ≤ familyWiseAlpha / ((rest.length : ℚ) + 1))) = false := by
            simpa using hsignificant
          rw [hdown, List.filter_eq_nil_iff]
          intro comparison hmem
          rw [holmStep_false _ comparison hmem]
          exact Bool.false_ne_true
        rw [hnone]
        exact List.nil_prefix

end

/-! ## The order -/

section
variable {js : Js}

theorem isLE_iff_ne_gt (order : Ordering) : order.isLE = true ↔ order ≠ .gt := by
  cases order <;> decide

theorem holmLe_total [Std.TransCmp js.localeCompare] : Std.Total (holmLe js) where
  total left right := by
    rcases lt_trichotomy left.pValue right.pValue with hlt | heq | hgt
    · exact Or.inl (Or.inl hlt)
    · have hswap : js.localeCompare right.key left.key =
          (js.localeCompare left.key right.key).swap := Std.OrientedCmp.eq_swap
      cases horder : js.localeCompare left.key right.key with
      | gt =>
          rw [horder] at hswap
          exact Or.inr (Or.inr ⟨heq.symm, by rw [hswap]; decide⟩)
      | lt => exact Or.inl (Or.inr ⟨heq, by rw [horder]; decide⟩)
      | eq => exact Or.inl (Or.inr ⟨heq, by rw [horder]; decide⟩)
    · exact Or.inr (Or.inl hgt)

theorem holmLe_trans [Std.TransCmp js.localeCompare] : IsTrans RawComparison (holmLe js) where
  trans a b c hab hbc := by
    cases hab with
    | inl hab =>
        cases hbc with
        | inl hbc => exact Or.inl (hab.trans hbc)
        | inr hbc => exact Or.inl (hbc.1 ▸ hab)
    | inr hab =>
        cases hbc with
        | inl hbc => exact Or.inl (hab.1 ▸ hbc)
        | inr hbc =>
            have hle := Std.TransCmp.isLE_trans ((isLE_iff_ne_gt _).mpr hab.2)
              ((isLE_iff_ne_gt _).mpr hbc.2)
            exact Or.inr ⟨hab.1.trans hbc.1, (isLE_iff_ne_gt _).mp hle⟩

/-- Two comparisons that the order leaves tied. -/
def Tied (js : Js) (left right : RawComparison) : Prop :=
  left.pValue = right.pValue ∧ js.localeCompare left.key right.key = .eq

theorem tied_of_holmLe [Std.TransCmp js.localeCompare] {left right : RawComparison}
    (h : holmLe js left right) (h' : holmLe js right left) : Tied js left right := by
  have hvalue : left.pValue = right.pValue := by
    cases h with
    | inl hlt =>
        cases h' with
        | inl hgt => exact absurd hgt (not_lt.mpr hlt.le)
        | inr heq => exact heq.1.symm
    | inr heq => exact heq.1
  have hle : js.localeCompare left.key right.key ≠ .gt := by
    cases h with
    | inl hlt => exact absurd hvalue hlt.ne
    | inr heq => exact heq.2
  have hge : js.localeCompare right.key left.key ≠ .gt := by
    cases h' with
    | inl hlt => exact absurd hvalue hlt.ne'
    | inr heq => exact heq.2
  have hswap : js.localeCompare right.key left.key =
      (js.localeCompare left.key right.key).swap := Std.OrientedCmp.eq_swap
  refine ⟨hvalue, ?_⟩
  cases horder : js.localeCompare left.key right.key with
  | gt => exact absurd horder hle
  | lt =>
      rw [horder] at hswap
      exact absurd hswap hge
  | eq => rfl

theorem holmLe_of_tied {left right : RawComparison} (h : Tied js left right) :
    holmLe js left right :=
  Or.inr ⟨h.1, by rw [h.2]; decide⟩

theorem Tied.symm [Std.TransCmp js.localeCompare] {left right : RawComparison}
    (h : Tied js left right) : Tied js right left :=
  ⟨h.1.symm, by
    have hswap : js.localeCompare right.key left.key =
        (js.localeCompare left.key right.key).swap := Std.OrientedCmp.eq_swap
    rw [hswap, h.2]
    rfl⟩

/-- Without ties the sort forgets the order of the input. -/
theorem sort_eq_of_perm [Std.TransCmp js.localeCompare] {comparisons others : List RawComparison}
    (hties : ∀ left ∈ comparisons, ∀ right ∈ comparisons, Tied js left right → left = right)
    (hperm : others.Perm comparisons) :
    others.insertionSort (holmLe js) = comparisons.insertionSort (holmLe js) := by
  have htotal : Std.Total (holmLe js) := holmLe_total
  have htrans : IsTrans RawComparison (holmLe js) := holmLe_trans
  have hsorted := List.perm_insertionSort (holmLe js)
  have hsame : (others.insertionSort (holmLe js)).Perm (comparisons.insertionSort (holmLe js)) :=
    (hsorted others).trans (hperm.trans (hsorted comparisons).symm)
  refine List.Perm.eq_of_pairwise ?_ (List.pairwise_insertionSort (holmLe js) others)
    (List.pairwise_insertionSort (holmLe js) comparisons) hsame
  intro left right hleft hright hle hge
  have hleft' := hperm.mem_iff.mp ((hsorted others).mem_iff.mp hleft)
  have hright' := (hsorted comparisons).mem_iff.mp hright
  exact hties left hleft' right hright' (tied_of_holmLe hle hge)

/-- A tie keeps the order of the input, so the reversed input sorts otherwise. -/
theorem sort_reverse_ne [Std.TransCmp js.localeCompare] {comparisons : List RawComparison}
    (hnodup : comparisons.Nodup) {left right : RawComparison} (htied : Tied js left right)
    (hpair : [left, right].Sublist comparisons) :
    comparisons.reverse.insertionSort (holmLe js) ≠ comparisons.insertionSort (holmLe js) := by
  intro hsame
  have hforward : [left, right].Sublist (comparisons.insertionSort (holmLe js)) :=
    List.pair_sublist_insertionSort (holmLe_of_tied htied) hpair
  have hback : [right, left].Sublist (comparisons.reverse.insertionSort (holmLe js)) :=
    List.pair_sublist_insertionSort (holmLe_of_tied htied.symm) hpair.reverse
  rw [hsame] at hback
  have hsorted : (comparisons.insertionSort (holmLe js)).Nodup :=
    (List.perm_insertionSort (holmLe js) comparisons).nodup_iff.mpr hnodup
  exact not_pair_sublist_swap hsorted hforward hback

/-- The result is that of every order of the input exactly when nothing is tied. -/
theorem holmAdjust_perm_iff [Std.TransCmp js.localeCompare] (comparisons : List RawComparison)
    (hkeys : (comparisons.map RawComparison.key).Nodup) (familyWiseAlpha : ℚ) :
    (∀ others : List RawComparison, others.Perm comparisons →
        holmAdjust js others familyWiseAlpha = holmAdjust js comparisons familyWiseAlpha) ↔
      ∀ left ∈ comparisons, ∀ right ∈ comparisons, Tied js left right → left = right := by
  constructor
  · intro h left hleft right hright htied
    by_contra hne
    have hsort : ∀ others : List RawComparison, others.Perm comparisons →
        others.insertionSort (holmLe js) = comparisons.insertionSort (holmLe js) := by
      intro others hperm
      have hraw := congrArg (List.map AdjustedComparison.toRawComparison) (h others hperm)
      unfold holmAdjust at hraw
      rwa [holmStep_toRawComparison, holmStep_toRawComparison] at hraw
    have hreverse := hsort comparisons.reverse (List.reverse_perm comparisons)
    cases pair_sublist_of_mem hleft hright hne with
    | inl hpair => exact sort_reverse_ne hkeys.of_map htied hpair hreverse
    | inr hpair => exact sort_reverse_ne hkeys.of_map htied.symm hpair hreverse
  · intro hties others hperm
    unfold holmAdjust
    rw [sort_eq_of_perm hties hperm]

/-- A comparison is significant exactly when its adjusted p-value stands the
level; adjusted p-values lie between the raw ones and one and do not fall; the
significant comparisons come first; and the order of the input does not matter
exactly when no two comparisons have one p-value and keys that collate alike. -/
theorem holm_consistent (js : Js) [Std.TransCmp js.localeCompare] (comparisons : List RawComparison)
    (hkeys : (comparisons.map RawComparison.key).Nodup)
    (hvalues : ∀ comparison ∈ comparisons, 0 ≤ comparison.pValue ∧ comparison.pValue ≤ 1)
    (familyWiseAlpha : ℚ) (hpos : 0 < familyWiseAlpha) (hlevel : familyWiseAlpha < 1) :
    let adjusted := holmAdjust js comparisons familyWiseAlpha
    (∀ comparison ∈ adjusted,
        (comparison.significant = true ↔ comparison.adjustedPValue ≤ familyWiseAlpha) ∧
          comparison.pValue ≤ comparison.adjustedPValue ∧ comparison.adjustedPValue ≤ 1) ∧
      adjusted.Pairwise (fun before after => before.adjustedPValue ≤ after.adjustedPValue) ∧
      (adjusted.filter (·.significant) <+: adjusted) ∧
      ((∀ others : List RawComparison, others.Perm comparisons →
          holmAdjust js others familyWiseAlpha = adjusted) ↔
        ∀ left ∈ comparisons, ∀ right ∈ comparisons, Tied js left right → left = right) := by
  intro adjusted
  have hsorted : ∀ comparison ∈ comparisons.insertionSort (holmLe js),
      0 ≤ comparison.pValue ∧ comparison.pValue ≤ 1 := by
    intro comparison hmem
    exact hvalues comparison ((List.perm_insertionSort (holmLe js) comparisons).mem_iff.mp hmem)
  have hstart : true = true ↔ (0 : ℚ) ≤ familyWiseAlpha := ⟨fun _ => hpos.le, fun _ => rfl⟩
  obtain ⟨hbounds, hmono⟩ := holmStep_adjusted familyWiseAlpha true 0
    zero_le_one hsorted
  refine ⟨fun comparison hmem => ⟨holmStep_significant_iff hlevel hstart comparison hmem,
    (hbounds comparison hmem).2⟩, hmono, holmStep_prefix true 0,
    holmAdjust_perm_iff comparisons hkeys familyWiseAlpha⟩

end

/-- A comparison of no outcome, for runs on fixed inputs. -/
def plainComparison (key : String) (pValue : ℚ) : RawComparison :=
  ⟨key, 0, pValue, ⟨key, 0, 0, 0, 0, 0, 0⟩, ⟨"control", 0, 0, 0, 0, 0, 0⟩, none⟩

theorem holm_consistent_colours :
    let comparisons := [plainComparison "red" (1 / 50), plainComparison "blue" (1 / 50),
      plainComparison "green" (1 / 1000)]
    (holmAdjust Js.plain comparisons (1 / 20)).map (fun c => (c.key, c.adjustedPValue, c.significant)) =
        [("green", 3 / 1000, true), ("blue", 1 / 25, true), ("red", 1 / 25, true)] ∧
      (holmAdjust Js.plain comparisons (1 / 20)).Pairwise
        fun before after => before.adjustedPValue ≤ after.adjustedPValue := by
  intro comparisons
  have hplain : Std.TransCmp Js.plain.localeCompare :=
    inferInstanceAs (Std.TransCmp (compare : String → String → Ordering))
  exact ⟨by decide +kernel, (holm_consistent Js.plain comparisons (by decide +kernel)
    (by decide +kernel) (1 / 20) (by decide +kernel) (by decide +kernel)).2.1⟩

/-- The text with each acute e as one character. -/
def composed : List Char → List Char
  | 'e' :: '\u0301' :: rest => '\u00e9' :: composed rest
  | first :: rest => first :: composed rest
  | [] => []

/-- Texts that are canonically equivalent collate as equal. -/
def Js.composing : Js :=
  { Js.plain with localeCompare := fun left right => compare (composed left.toList) (composed right.toList) }

theorem holm_depends_on_order :
    let written := plainComparison "caf\u00e9" (1 / 50)
    let combined := plainComparison "cafe\u0301" (1 / 50)
    written.key ≠ combined.key ∧ [written, combined].Perm [combined, written] ∧
      holmAdjust Js.composing [written, combined] (1 / 20) ≠
        holmAdjust Js.composing [combined, written] (1 / 20) := by
  refine ⟨by decide, List.Perm.swap _ _ _, ?_⟩
  decide +kernel

end Wardx.Control
