import Mathlib.Algebra.GroupWithZero.Nat
import Mathlib.Data.List.Basic

/-!
# Texts joined by a separator

Fields joined by a separator that they may hold themselves. The joined text tells
the pieces between separators, in order, and no more: fields of one text are the
same when each holds as many separators in both.
-/
namespace Wardx.Lib

universe u

variable {α : Type u} (sep : α)

theorem intercalate_ne_nil {field : List α} (h : field ≠ []) (fields : List (List α)) :
    [sep].intercalate (field :: fields) ≠ [] := by
  cases fields with
  | nil => simpa using h
  | cons next fields => simp [List.intercalate_cons_cons]

variable [DecidableEq α]

/-- What stands between the separators of the joined fields. -/
def pieces (fields : List (List α)) : List (List α) := fields.flatMap (List.splitOn sep)

@[simp] theorem pieces_nil : pieces sep [] = [] := rfl

@[simp] theorem pieces_cons (field : List α) (fields : List (List α)) :
    pieces sep (field :: fields) = field.splitOn sep ++ pieces sep fields := rfl

@[simp] theorem pieces_append (left right : List (List α)) :
    pieces sep (left ++ right) = pieces sep left ++ pieces sep right :=
  List.flatMap_append

theorem splitOn_intercalate_eq (field : List α) (fields : List (List α)) :
    ([sep].intercalate (field :: fields)).splitOn sep = pieces sep (field :: fields) := by
  induction fields generalizing field with
  | nil => simp
  | cons next fields ih =>
      rw [List.intercalate_cons_cons, List.append_assoc, List.singleton_append,
        List.splitOn_append_cons_self, ih, pieces_cons sep field]

/-- The joined text is as good as its pieces. -/
theorem intercalate_eq_iff_pieces {as bs : List (List α)} (ha : as ≠ []) (hb : bs ≠ []) :
    [sep].intercalate as = [sep].intercalate bs ↔ pieces sep as = pieces sep bs := by
  cases as with
  | nil => exact absurd rfl ha
  | cons a as =>
      cases bs with
      | nil => exact absurd rfl hb
      | cons b bs =>
          rw [← splitOn_intercalate_eq, ← splitOn_intercalate_eq]
          constructor
          · intro h
            rw [h]
          · intro h
            have hjoined := congrArg [sep].intercalate h
            rwa [List.intercalate_splitOn, List.intercalate_splitOn] at hjoined

theorem pieces_of_free {fields : List (List α)} (h : ∀ field ∈ fields, sep ∉ field) :
    pieces sep fields = fields := by
  induction fields with
  | nil => rfl
  | cons field fields ih =>
      rw [List.forall_mem_cons] at h
      rw [pieces_cons, List.splitOn_eq_singleton h.1, ih h.2, List.singleton_append]

theorem length_splitOn (field : List α) : (field.splitOn sep).length = field.count sep + 1 := by
  induction field with
  | nil => simp
  | cons x field ih =>
      rw [List.splitOn_cons_eq_if_modifyHead, List.count_cons]
      by_cases h : x = sep
      · simp [h, ih]
      · simp [h, ih]

theorem length_pieces (fields : List (List α)) :
    (pieces sep fields).length = (fields.map (List.count sep)).sum + fields.length := by
  induction fields with
  | nil => rfl
  | cons field fields ih =>
      rw [pieces_cons, List.length_append, length_splitOn, ih, List.map_cons, List.sum_cons,
        List.length_cons]
      omega

/-- Pieces cut alike come from the same fields. -/
theorem eq_of_pieces {as bs : List (List α)} (h : pieces sep as = pieces sep bs)
    (hcounts : as.map (List.count sep) = bs.map (List.count sep)) : as = bs := by
  induction as generalizing bs with
  | nil =>
      cases bs with
      | nil => rfl
      | cons b bs => simp at hcounts
  | cons a as ih =>
      cases bs with
      | nil => simp at hcounts
      | cons b bs =>
          simp only [List.map_cons, List.cons.injEq] at hcounts
          have hlength : (a.splitOn sep).length = (b.splitOn sep).length := by
            rw [length_splitOn, length_splitOn, hcounts.1]
          obtain ⟨hfirst, hrest⟩ := List.append_inj h hlength
          have hsame : a = b := by
            have hjoined := congrArg [sep].intercalate hfirst
            rwa [List.intercalate_splitOn, List.intercalate_splitOn] at hjoined
          rw [hsame, ih hrest hcounts.2]

end Wardx.Lib
