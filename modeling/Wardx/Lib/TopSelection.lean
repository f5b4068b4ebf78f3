import Mathlib.Data.List.Sort
import Mathlib.Data.List.Perm.Basic

/-!
# The largest elements of a list

A part of a list that no element left out exceeds holds the largest elements,
counted with their repetitions. A replacement of a least element by a larger one
keeps it so.
-/
namespace Wardx.Lib

universe u v

variable {α : Type u} {β : Type v} [LinearOrder β]

/-- The `n` largest elements, largest first. -/
def largest (n : ℕ) (xs : List β) : List β := (xs.insertionSort (· ≥ ·)).take n

theorem largest_min (n : ℕ) (xs : List β) : largest (min xs.length n) xs = largest n xs := by
  unfold largest
  rw [List.take_eq_take_iff, List.length_insertionSort]
  omega

/-- The list in two parts, with nothing left out above what is kept. -/
structure Selected (key : α → β) (all kept out : List α) : Prop where
  parts : (out ++ kept).Perm all
  below : ∀ x ∈ out, ∀ y ∈ kept, key x ≤ key y

variable {key : α → β} {all kept out : List α}

theorem selected_nil (key : α → β) : Selected key [] [] [] := ⟨List.Perm.refl _, by simp⟩

theorem Selected.length (h : Selected key all kept out) :
    out.length + kept.length = all.length := by
  rw [← h.parts.length_eq, List.length_append]

/-- The kept part is the largest elements of the list. -/
theorem Selected.largest (h : Selected key all kept out) :
    (kept.map key).Perm (largest kept.length (all.map key)) := by
  have hsorted : (all.map key).insertionSort (· ≥ ·) =
      (kept.map key).insertionSort (· ≥ ·) ++ (out.map key).insertionSort (· ≥ ·) := by
    have hout := List.perm_insertionSort (· ≥ ·) (out.map key)
    have hkept := List.perm_insertionSort (· ≥ ·) (kept.map key)
    have hperm : ((all.map key).insertionSort (· ≥ ·)).Perm
        ((kept.map key).insertionSort (· ≥ ·) ++ (out.map key).insertionSort (· ≥ ·)) := by
      have hparts := h.parts.map key
      rw [List.map_append] at hparts
      exact (List.perm_insertionSort _ _).trans
        (hparts.symm.trans (List.perm_append_comm.trans (hkept.append hout).symm))
    have hboth : ((kept.map key).insertionSort (· ≥ ·) ++
        (out.map key).insertionSort (· ≥ ·)).SortedGE := by
      apply List.Pairwise.sortedGE
      refine List.pairwise_append.mpr ⟨(List.pairwise_insertionSort _ _),
        (List.pairwise_insertionSort _ _), fun a ha b hb => ?_⟩
      obtain ⟨y, hy, rfl⟩ := List.mem_map.mp (hkept.mem_iff.mp ha)
      obtain ⟨x, hx, rfl⟩ := List.mem_map.mp (hout.mem_iff.mp hb)
      exact h.below x hx y hy
    exact hperm.eq_of_sortedGE List.sortedGE_insertionSort hboth
  unfold Lib.largest
  rw [hsorted, List.take_left' (by simp)]
  exact (List.perm_insertionSort _ _).symm

/-- One more element that is kept, while nothing is left out. -/
theorem Selected.keep (h : Selected key all kept []) (x : α) :
    Selected key (all ++ [x]) (kept ++ [x]) [] where
  parts := by
    have := h.parts.append_right [x]
    simpa using this
  below := by simp

/-- One more element that is left out, below all that is kept. -/
theorem Selected.leave (h : Selected key all kept out) {x : α} (hx : ∀ y ∈ kept, key x ≤ key y) :
    Selected key (all ++ [x]) kept (x :: out) where
  parts := by
    have hperm := h.parts.append_right [x]
    exact (List.perm_append_singleton x (out ++ kept)).symm.trans hperm
  below := by
    intro y hy z hz
    cases List.mem_cons.mp hy with
    | inl hyx => rw [hyx]; exact hx z hz
    | inr hout => exact h.below y hout z hz

/-- One more element in the place of a least one, which is left out. -/
theorem Selected.replace (h : Selected key all kept out) {x : α} {i : ℕ} (hi : i < kept.length)
    (hleast : ∀ y ∈ kept, key kept[i] ≤ key y) (hx : key kept[i] ≤ key x) :
    Selected key (all ++ [x]) (kept.set i x) (kept[i] :: out) where
  parts := by
    have hset : (kept.set i x).Perm (x :: kept.eraseIdx i) := List.set_perm_cons_eraseIdx hi x
    have hold : (kept[i] :: kept.eraseIdx i).Perm kept := List.getElem_cons_eraseIdx_perm hi
    have hswap : ((kept[i] :: out) ++ x :: kept.eraseIdx i).Perm
        (x :: (out ++ kept[i] :: kept.eraseIdx i)) := by
      refine List.perm_middle.trans (List.Perm.cons x ?_)
      exact List.perm_middle.symm
    have hall : (x :: (out ++ kept)).Perm (all ++ [x]) :=
      (h.parts.cons x).trans (List.perm_append_singleton x all).symm
    exact (hset.append_left _).trans (hswap.trans (((hold.append_left out).cons x).trans hall))
  below := by
    intro y hy z hz
    have hz' : z ∈ kept ∨ z = x := List.mem_or_eq_of_mem_set hz
    have hz : key kept[i] ≤ key z := by
      cases hz' with
      | inl hmem => exact hleast z hmem
      | inr heq => rw [heq]; exact hx
    cases List.mem_cons.mp hy with
    | inl heq => rw [heq]; exact hz
    | inr hout => exact (h.below y hout kept[i] (List.getElem_mem hi)).trans hz

end Wardx.Lib
