import Mathlib.Algebra.BigOperators.Group.List.Basic
import Wardx.Json

/-!
# Lengths of JSON texts

The UTF-8 length of a printed value is the sum of the lengths of its parts, one
byte for each bracket, colon and comma. A text of ASCII characters has as many
bytes as UTF-16 code units; the runtime prints every number in ASCII.
-/
namespace Wardx

/-- Numbers are printed in ASCII characters. -/
def AsciiNumbers (js : Js) : Prop := ∀ q, ∀ c ∈ (js.numberText q).toList, c.toNat < 128

/-! ## Texts -/

theorem utf8Length_append (s t : String) : utf8Length (s ++ t) = utf8Length s + utf8Length t := by
  unfold utf8Length
  rw [String.toList_append, List.map_append, List.sum_append]

theorem utf8Size_of_ascii {c : Char} (h : c.toNat < 128) : c.utf8Size = 1 := by
  have hval : c.val ≤ 0x7F := by
    rw [UInt32.le_iff_toNat_le]
    exact Nat.lt_succ_iff.mp h
  exact if_pos hval

theorem utf8Length_of_ascii {s : String} (h : ∀ c ∈ s.toList, c.toNat < 128) :
    utf8Length s = utf16Length s := by
  have hunits : ∀ chars : List Char, (∀ c ∈ chars, c.toNat < 128) →
      (chars.map fun c => c.utf8Size).sum = (chars.flatMap utf16Units).length := by
    intro chars hchars
    induction chars with
    | nil => rfl
    | cons c chars ih =>
        have hc := hchars c List.mem_cons_self
        have hunit : utf16Units c = [c.toNat] := by
          unfold utf16Units
          rw [if_pos (by omega)]
        rw [List.map_cons, List.sum_cons, utf8Size_of_ascii hc, List.flatMap_cons, hunit,
          List.length_append, ih fun c' hc' => hchars c' (List.mem_cons_of_mem c hc')]
        rfl
  exact hunits s.toList h

/-- A character that a quoted text holds as it is. -/
def Plain (c : Char) : Prop := c ≠ '"' ∧ c ≠ '\\' ∧ 32 ≤ c.toNat

instance : DecidablePred Plain := fun c =>
  inferInstanceAs (Decidable (c ≠ '"' ∧ c ≠ '\\' ∧ 32 ≤ c.toNat))

theorem quoteChar_of_plain {c : Char} (h : Plain c) : quoteChar c = String.ofList [c] := by
  obtain ⟨hquote, hslash, hcontrol⟩ := h
  have hne : ∀ d : Char, d.toNat < 32 → c ≠ d := by
    intro d hd hcd
    rw [hcd] at hcontrol
    omega
  unfold quoteChar
  rw [if_neg hquote, if_neg hslash, if_neg (hne '\n' (by decide)), if_neg (hne '\r' (by decide)),
    if_neg (hne '\t' (by decide)), if_neg (by omega), if_neg (by omega), if_neg (by omega)]

/-- A text without escapes gains its two quotes. -/
theorem utf8Length_quote_of_plain {s : String} (h : ∀ c ∈ s.toList, Plain c) :
    utf8Length (quote s) = utf8Length s + 2 := by
  have hjoin : String.join (s.toList.map quoteChar) = s := by
    apply String.toList_injective
    rw [String.toList_join]
    have hchars : ∀ chars : List Char, (∀ c ∈ chars, Plain c) →
        (chars.map quoteChar).flatMap String.toList = chars := by
      intro chars hchars
      induction chars with
      | nil => rfl
      | cons c chars ih =>
          rw [List.map_cons, List.flatMap_cons, quoteChar_of_plain (hchars c List.mem_cons_self),
            ih fun c' hc' => hchars c' (List.mem_cons_of_mem c hc'), String.toList_ofList]
          rfl
    exact hchars s.toList h
  unfold quote
  rw [utf8Length_append, utf8Length_append, hjoin]
  have hmark : utf8Length "\"" = 1 := by decide
  omega

namespace Json

variable (js : Js)

/-! ## Values -/

/-- `Buffer.byteLength(JSON.stringify(value))`. -/
def bytes (value : Json) : ℕ := utf8Length (value.stringify js)

theorem stringifyItems_cons_of_ne_nil (item : Json) {items : List Json} (h : items ≠ []) :
    stringifyItems js (item :: items) = stringify js item ++ "," ++ stringifyItems js items := by
  rw [stringifyItems]
  exact h

theorem stringifyFields_cons_of_ne_nil (field : String × Json) {fields : List (String × Json)}
    (h : fields ≠ []) :
    stringifyFields js (field :: fields) =
      quote field.1 ++ ":" ++ stringify js field.2 ++ "," ++ stringifyFields js fields := by
  rw [stringifyFields]
  exact h

theorem utf8Length_stringifyItems (items : List Json) :
    utf8Length (stringifyItems js items) = (items.map (bytes js)).sum + (items.length - 1) := by
  have hcomma : utf8Length "," = 1 := by decide
  induction items with
  | nil =>
      rw [stringifyItems]
      rfl
  | cons item items ih =>
      cases items with
      | nil =>
          rw [stringifyItems]
          rfl
      | cons next items =>
          have hsum : ((item :: next :: items).map (bytes js)).sum =
              bytes js item + ((next :: items).map (bytes js)).sum := List.sum_cons
          have hlength : (item :: next :: items).length = (next :: items).length + 1 := rfl
          have hnext : (next :: items).length = items.length + 1 := rfl
          rw [stringifyItems_cons_of_ne_nil js item (List.cons_ne_nil next items),
            utf8Length_append, utf8Length_append, ih, hcomma, hsum]
          unfold bytes
          omega

/-- The bytes of a field without the comma after it. -/
def fieldBytes (field : String × Json) : ℕ := utf8Length (quote field.1) + 1 + bytes js field.2

theorem utf8Length_stringifyFields (fields : List (String × Json)) :
    utf8Length (stringifyFields js fields) =
      (fields.map (fieldBytes js)).sum + (fields.length - 1) := by
  have hcomma : utf8Length "," = 1 := by decide
  have hcolon : utf8Length ":" = 1 := by decide
  induction fields with
  | nil =>
      rw [stringifyFields]
      rfl
  | cons field fields ih =>
      cases fields with
      | nil =>
          rw [stringifyFields, utf8Length_append, utf8Length_append, hcolon]
          rfl
      | cons next fields =>
          have hsum : ((field :: next :: fields).map (fieldBytes js)).sum =
              fieldBytes js field + ((next :: fields).map (fieldBytes js)).sum := List.sum_cons
          have hfield : fieldBytes js field =
              utf8Length (quote field.1) + 1 + utf8Length (field.2.stringify js) := rfl
          have hlength : (field :: next :: fields).length = (next :: fields).length + 1 := rfl
          have hnext : (next :: fields).length = fields.length + 1 := rfl
          rw [stringifyFields_cons_of_ne_nil js field (List.cons_ne_nil next fields),
            utf8Length_append, utf8Length_append, utf8Length_append, utf8Length_append, ih, hcomma,
            hcolon, hsum, hfield]
          omega

theorem bytes_arr (items : List Json) :
    bytes js (.arr items) = 2 + (items.map (bytes js)).sum + (items.length - 1) := by
  have hopen : utf8Length "[" = 1 := by decide
  have hclose : utf8Length "]" = 1 := by decide
  unfold bytes
  rw [stringify, utf8Length_append, utf8Length_append, utf8Length_stringifyItems, hopen, hclose]
  unfold bytes
  omega

theorem bytes_obj (fields : List (String × Json)) :
    bytes js (.obj fields) = 2 + (fields.map (fieldBytes js)).sum + (fields.length - 1) := by
  have hopen : utf8Length "\x7b" = 1 := by decide
  have hclose : utf8Length "\x7d" = 1 := by decide
  unfold bytes
  rw [stringify, utf8Length_append, utf8Length_append, utf8Length_stringifyFields, hopen, hclose]
  omega

theorem bytes_num {js : Js} (h : AsciiNumbers js) (q : ℚ) :
    bytes js (.num q) = utf16Length (js.numberText q) := by
  unfold bytes
  rw [stringify]
  exact utf8Length_of_ascii (h q)

end Json
end Wardx
