import Wardx.Json
import Wardx.Lib.ArrivalOrder
import Mathlib.Data.List.Induction
import Mathlib.Order.WithBot

/-!
# The order of properties

Texts are told apart by their code units, array indices by their numbers. An
object's keys stand in order of rank, an index's number or above all numbers,
and within the texts in order of arrival.
-/
namespace Wardx

open Lib

/-! ## Texts by code units -/

theorem toNat_valid (c : Char) : c.toNat < 0xD800 ∨ (0xDFFF < c.toNat ∧ c.toNat < 0x110000) :=
  c.valid

/-- A character's units tell it from every other one's, whatever follows. -/
theorem utf16Units_append_inj {c d : Char} {r s : List ℕ}
    (h : utf16Units c ++ r = utf16Units d ++ s) : c = d ∧ r = s := by
  have hc := toNat_valid c
  have hd := toNat_valid d
  unfold utf16Units at h
  dsimp only at h
  split_ifs at h with hsmall hsmall' hsmall'
  · obtain ⟨hunit, hrest⟩ := List.cons.inj h
    exact ⟨Char.toNat_inj.mp hunit, hrest⟩
  · have hunit := (List.cons.inj h).1
    omega
  · have hunit := (List.cons.inj h).1
    omega
  · obtain ⟨hhigh, hrest⟩ := List.cons.inj h
    obtain ⟨hlow, hrest⟩ := List.cons.inj hrest
    refine ⟨Char.toNat_inj.mp ?_, hrest⟩
    omega

theorem utf16Units_ne_nil (c : Char) : utf16Units c ≠ [] := by
  unfold utf16Units
  dsimp only
  split_ifs
  · exact List.cons_ne_nil _ _
  · exact List.cons_ne_nil _ _

theorem utf16_injective : Function.Injective utf16 := by
  intro s t h
  apply String.toList_inj.mp
  unfold utf16 at h
  generalize s.toList = cs at h ⊢
  generalize t.toList = ds at h ⊢
  induction cs generalizing ds with
  | nil =>
      cases ds with
      | nil => rfl
      | cons d ds =>
          rw [List.flatMap_cons, List.flatMap_nil] at h
          exact absurd (List.append_eq_nil_iff.mp h.symm).1 (utf16Units_ne_nil d)
  | cons c cs ih =>
      cases ds with
      | nil =>
          rw [List.flatMap_cons, List.flatMap_nil] at h
          exact absurd (List.append_eq_nil_iff.mp h).1 (utf16Units_ne_nil c)
      | cons d ds =>
          rw [List.flatMap_cons, List.flatMap_cons] at h
          obtain ⟨hc, hrest⟩ := utf16Units_append_inj h
          rw [hc, ih ds hrest]

instance : Std.Antisymm utf16Le :=
  ⟨fun _ _ h h' => utf16_injective (List.le_antisymm h h')⟩

instance : Std.Total utf16Le := ⟨fun s t => List.le_total (utf16 s) (utf16 t)⟩

instance : IsTrans String utf16Le := ⟨fun _ _ _ h h' => List.le_trans h h'⟩

/-! ## Array indices -/

def decimal (digits : List Char) : ℕ :=
  digits.foldl (fun n c => 10 * n + (c.toNat - '0'.toNat)) 0

theorem toNat_of_isDigit {c : Char} (h : c.isDigit = true) : 48 ≤ c.toNat ∧ c.toNat ≤ 57 := by
  simpa [Char.isDigit, UInt32.le_iff_toNat_le] using h

theorem digitChar_of_isDigit {c : Char} (h : c.isDigit = true) :
    Nat.digitChar (c.toNat - '0'.toNat) = c := by
  have hrange := toNat_of_isDigit h
  apply Char.toNat_inj.mp
  rw [Nat.toNat_digitChar_of_lt_ten (by show c.toNat - 48 < 10; omega)]
  show 48 + (c.toNat - 48) = c.toNat
  omega

theorem decimal_concat (digits : List Char) (c : Char) :
    decimal (digits ++ [c]) = 10 * decimal digits + (c.toNat - '0'.toNat) := by
  unfold decimal
  rw [List.foldl_append]
  rfl

/-- Digits that do not start with zero are the digits of their number. -/
theorem toDigits_decimal {digits : List Char} (hne : digits ≠ [])
    (hdigits : ∀ c ∈ digits, c.isDigit = true) (hhead : digits.head? ≠ some '0') :
    0 < decimal digits ∧ digits = Nat.toDigits 10 (decimal digits) := by
  induction digits using List.reverseRecOn with
  | nil => exact absurd rfl hne
  | append_singleton rest c ih =>
      have hc : c.isDigit = true := hdigits c (List.mem_append_right rest List.mem_cons_self)
      have hlt : c.toNat - '0'.toNat < 10 := by
        have hrange := toNat_of_isDigit hc
        show c.toNat - 48 < 10
        omega
      rw [decimal_concat]
      cases rest with
      | nil =>
          have hpos : 0 < c.toNat - '0'.toNat := by
            have hrange := toNat_of_isDigit hc
            have hzero : c.toNat ≠ 48 := by
              intro heq
              exact hhead (congrArg some (Char.toNat_inj.mp heq))
            show 0 < c.toNat - 48
            omega
          refine ⟨by omega, ?_⟩
          rw [show 10 * decimal [] + (c.toNat - '0'.toNat) = c.toNat - '0'.toNat from
            Nat.zero_add _, Nat.toDigits_of_lt_base hlt, digitChar_of_isDigit hc]
          rfl
      | cons d rest =>
          obtain ⟨hpos, hrest⟩ := ih (List.cons_ne_nil d rest)
            (fun k hk => hdigits k (List.mem_append_left [c] hk)) hhead
          refine ⟨by omega, ?_⟩
          rw [← Nat.toDigits_append_toDigits (by omega) hpos hlt, ← hrest,
            Nat.toDigits_of_lt_base hlt, digitChar_of_isDigit hc]

theorem decimal_toDigits (n : ℕ) : decimal (Nat.toDigits 10 n) = n := by
  induction n using Nat.strong_induction_on with
  | _ n ih =>
      have hlt : n % 10 < 10 := Nat.mod_lt n (by omega)
      have hdigit : (Nat.digitChar (n % 10)).toNat - '0'.toNat = n % 10 := by
        rw [Nat.toNat_digitChar_of_lt_ten hlt]
        show 48 + n % 10 - 48 = n % 10
        omega
      by_cases hsmall : n < 10
      · rw [Nat.toDigits_of_lt_base hsmall]
        rw [Nat.mod_eq_of_lt hsmall] at hdigit
        show 10 * 0 + ((Nat.digitChar n).toNat - '0'.toNat) = n
        omega
      · have hsplit : Nat.toDigits 10 n =
            Nat.toDigits 10 (n / 10) ++ Nat.toDigits 10 (n % 10) := by
          rw [Nat.toDigits_append_toDigits (by omega) (by omega) hlt, Nat.div_add_mod]
        rw [hsplit, Nat.toDigits_of_lt_base hlt, decimal_concat, ih (n / 10) (by omega), hdigit]
        omega

theorem toList_of_arrayIndex {key : String} {n : ℕ} (h : arrayIndex key = some n) :
    key.toList = Nat.toDigits 10 n := by
  unfold arrayIndex at h
  dsimp only at h
  split_ifs at h with hkey hbound
  obtain ⟨hne, hdigits, hzero⟩ := hkey
  have hn : decimal key.toList = n := Option.some.inj h
  rcases hzero with hzero | hhead
  · rw [hzero] at hn ⊢
    rw [← hn]
    decide
  · rw [← hn]
    exact (toDigits_decimal hne (List.all_eq_true.mp hdigits) hhead).2

theorem arrayIndex_injective {a b : String} {n : ℕ} (ha : arrayIndex a = some n)
    (hb : arrayIndex b = some n) : a = b :=
  String.toList_inj.mp ((toList_of_arrayIndex ha).trans (toList_of_arrayIndex hb).symm)

/-! ## Ranks -/

/-- An index ranks by its number, a text above all indices. -/
def enumerationRank (key : String) : WithTop ℕ :=
  match arrayIndex key with
  | some n => WithTop.some n
  | none => ⊤

namespace Json

theorem enumeratedBefore_iff (key k : String) :
    enumeratedBefore key k = true ↔ enumerationRank key < enumerationRank k := by
  unfold enumeratedBefore enumerationRank
  cases arrayIndex key with
  | none =>
      cases arrayIndex k with
      | none => simp
      | some m => simp
  | some n =>
      cases arrayIndex k with
      | none => simp
      | some m => simp

/-- Two keys of one rank that differ are texts. -/
theorem text_of_same_rank {a b : String} (h : enumerationRank a = enumerationRank b) (hne : a ≠ b) :
    arrayIndex a = none ∧ arrayIndex b = none := by
  unfold enumerationRank at h
  cases ha : arrayIndex a with
  | none =>
      cases hb : arrayIndex b with
      | none => exact ⟨rfl, rfl⟩
      | some m => simp [ha, hb] at h
  | some n =>
      cases hb : arrayIndex b with
      | none => simp [ha, hb] at h
      | some m =>
          rw [ha, hb] at h
          have hnm : n = m := WithTop.coe_inj.mp h
          rw [hnm] at ha
          exact absurd (arrayIndex_injective ha hb) hne

/-! ## Keys under writes -/

theorem keys_insertField (key : String) (value : Json) (fields : Fields) :
    (insertField key value fields).map Prod.fst =
      arrive enumerationRank key (fields.map Prod.fst) := by
  induction fields with
  | nil => rfl
  | cons field fields ih =>
      obtain ⟨k, v⟩ := field
      unfold insertField
      rw [List.map_cons, arrive]
      by_cases hbefore : enumeratedBefore key k = true
      · rw [if_pos hbefore, if_pos ((enumeratedBefore_iff key k).mp hbefore)]
        rfl
      · rw [if_neg hbefore, if_neg fun hlt => hbefore ((enumeratedBefore_iff key k).mpr hlt),
          List.map_cons, ih]

theorem keys_setField (key : String) (value : Json) (fields : Fields) :
    (setField key value fields).map Prod.fst =
      (Move.enter key).run enumerationRank (fields.map Prod.fst) := by
  unfold setField Move.run
  by_cases hmem : key ∈ fields.map Prod.fst
  · rw [if_pos ((isSome_lookup key fields).mpr hmem), keys_replaceField]
    exact (if_pos hmem).symm
  · rw [if_neg (fun hsome => hmem ((isSome_lookup key fields).mp hsome)), keys_insertField]
    exact (if_neg hmem).symm

theorem keys_deleteField (key : String) (fields : Fields) :
    (deleteField key fields).map Prod.fst =
      (Move.leave key).run enumerationRank (fields.map Prod.fst) := by
  show List.map Prod.fst (List.filter _ fields) = List.filter _ (List.map Prod.fst fields)
  rw [List.filter_map]
  rfl

/-- The fields stand in the order the runtime enumerates them. -/
def Ordered (fields : Fields) : Prop := Ranked enumerationRank (fields.map Prod.fst)

theorem ordered_nil : Ordered [] := List.Pairwise.nil

theorem Ordered.setField {fields : Fields} (h : Ordered fields) (key : String) (value : Json) :
    Ordered (setField key value fields) := by
  unfold Ordered
  rw [keys_setField]
  exact Ranked.moveAll h [Move.enter key]

theorem Ordered.deleteField {fields : Fields} (h : Ordered fields) (key : String) :
    Ordered (deleteField key fields) := by
  unfold Ordered
  rw [keys_deleteField]
  exact Ranked.moveAll h [Move.leave key]

end Json
end Wardx
