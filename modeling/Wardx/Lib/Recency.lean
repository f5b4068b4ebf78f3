import Mathlib.Data.List.Induction
import Mathlib.Data.List.Nodup
import Mathlib.Data.List.Pairwise
import Mathlib.Tactic.TypeStar
import Mathlib.Tactic.SplitIfs

/-!
# Recency

The latest element under each key, the newest first. A list that moves a
touched key to its front and forgets its last elements beyond a bound is the
beginning of that list: what it forgot never comes back by itself.
-/
namespace Wardx.Lib

variable {α κ : Type*} [DecidableEq κ] (key : α → κ)

/-- The last element under each key, the newest first. -/
def recency (xs : List α) : List α := (xs.pwFilter fun a b => key a ≠ key b).reverse

/-- A touched element stands first, an older one under its key leaves. -/
def refreshed (x : α) (held : List α) : List α := x :: held.filter fun y => key y ≠ key x

/-- An element behind the others drops the one under its key. -/
theorem pwFilter_concat (xs : List α) (x : α) :
    (xs ++ [x]).pwFilter (fun a b => key a ≠ key b) =
      (xs.pwFilter fun a b => key a ≠ key b).filter (fun y => key y ≠ key x) ++ [x] := by
  induction xs with
  | nil => simp [List.pwFilter]
  | cons a xs ih =>
      rw [List.cons_append]
      by_cases hall : ∀ b ∈ xs.pwFilter fun a b => key a ≠ key b, key a ≠ key b
      · rw [List.pwFilter_cons_of_pos hall, List.filter_cons]
        by_cases hax : key a = key x
        · rw [List.pwFilter_cons_of_neg, ih]
          · simp [hax]
          · intro hnew
            rw [ih] at hnew
            exact hnew x (by simp) hax
        · rw [List.pwFilter_cons_of_pos, ih]
          · simp [hax]
          · rw [ih]
            intro b hb
            rw [List.mem_append, List.mem_filter, List.mem_singleton] at hb
            cases hb with
            | inl hold => exact hall b hold.1
            | inr hlast => rwa [hlast]
      · rw [List.pwFilter_cons_of_neg hall]
        rw [List.pwFilter_cons_of_neg, ih]
        intro hnew
        rw [ih] at hnew
        apply hall
        intro b hb hab
        by_cases hbx : key b = key x
        · exact hnew x (by simp) (hab.trans hbx)
        · exact hnew b (by simp [hb, hbx]) hab

theorem recency_concat (xs : List α) (x : α) :
    recency key (xs ++ [x]) = refreshed key x (recency key xs) := by
  unfold recency refreshed
  rw [pwFilter_concat, List.reverse_append, List.filter_reverse]
  rfl

theorem nodup_recency (xs : List α) : ((recency key xs).map key).Nodup := by
  unfold recency
  rw [List.map_reverse, List.nodup_reverse, List.nodup_iff_pairwise_ne, List.pairwise_map]
  exact List.pairwise_pwFilter xs

/-- Dropping one key from the first elements and from all of them gives the same
first elements, but for the one that may move up. -/
theorem take_filter_take (k : κ) {held : List α} (hnodup : (held.map key).Nodup) (n : ℕ) :
    ((held.take (n + 1)).filter fun y => key y ≠ k).take n =
      (held.filter fun y => key y ≠ k).take n := by
  induction held generalizing n with
  | nil => simp
  | cons y held ih =>
      rw [List.map_cons, List.nodup_cons] at hnodup
      rw [List.take_succ_cons, List.filter_cons, List.filter_cons]
      by_cases hk : key y = k
      · -- the key stands here, so nothing behind it is dropped
        have hrest : ∀ xs : List α, xs ⊆ held → (xs.filter fun y => key y ≠ k) = xs := by
          intro xs hxs
          apply List.filter_eq_self.mpr
          intro z hz
          have hne : key z ≠ key y := fun h => hnodup.1 (h ▸ List.mem_map_of_mem (hxs hz))
          simpa [← hk] using hne
        rw [if_neg (by simp [hk]), if_neg (by simp [hk]), hrest _ (List.take_subset n held),
          hrest held (List.Subset.refl held), List.take_take, Nat.min_self]
      · rw [if_pos (by simp [hk]), if_pos (by simp [hk])]
        cases n with
        | zero => rfl
        | succ n => rw [List.take_succ_cons, List.take_succ_cons, ih hnodup.2]

/-- A bounded list may forget before it is touched. -/
theorem take_refreshed {held : List α} (hnodup : (held.map key).Nodup) (max : ℕ) (x : α) :
    (refreshed key x (held.take max)).take max = (refreshed key x held).take max := by
  unfold refreshed
  cases max with
  | zero => rfl
  | succ n => rw [List.take_succ_cons, List.take_succ_cons, take_filter_take key (key x) hnodup]

/-- The bounded list holds the latest of the latest. -/
theorem foldl_refreshed_take (max : ℕ) (xs : List α) :
    xs.foldl (fun held x => (refreshed key x held).take max) [] = (recency key xs).take max := by
  induction xs using List.reverseRecOn with
  | nil => simp [recency]
  | append_singleton xs x ih =>
      rw [List.foldl_append, List.foldl_cons, List.foldl_nil, ih,
        take_refreshed key (nodup_recency key xs), recency_concat]

end Wardx.Lib
