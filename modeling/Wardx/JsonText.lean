import Wardx.PropertyOrder

/-!
# Reading JSON texts back

Values with one JSON text are one value, wherever in a longer text it stands. The
characters of a quoted text are told apart one by one; a value's text ends before
the comma, bracket or brace that may follow it. No text holds the character
`U+0000`: a quoted one is escaped.

How a number is printed is the runtime's, with what is known of it in `NumberTexts`.
-/
namespace Wardx

/-- Numbers are printed in digits, signs, points and exponents, different ones differently. -/
structure NumberTexts (js : Js) : Prop where
  injective : Function.Injective js.numberText
  nonempty : ∀ q, js.numberText q ≠ ""
  chars : ∀ q, ∀ c ∈ (js.numberText q).toList, c.isDigit = true ∨ c ∈ ['-', '+', '.', 'e', '/']

/-! ## Characters -/

def hexValue (c : Char) : ℕ := "0123456789abcdef".toList.idxOf c

def escapes : List (Char × Char) :=
  [('"', '"'), ('\\', '\\'), ('n', '\n'), ('r', '\r'), ('t', '\t'), ('b', '\x08'), ('f', '\x0c')]

/-- The character a quoted text starts with. -/
def readChar : List Char → Option (Char × List Char)
  | [] => none
  | ['\\'] => none
  | '\\' :: 'u' :: '0' :: '0' :: high :: low :: rest =>
      some (Char.ofNat (16 * hexValue high + hexValue low), rest)
  | '\\' :: c :: rest => (escapes.lookup c).map fun d => (d, rest)
  | c :: rest => some (c, rest)

theorem ofNat_hexValue {n : ℕ} (h : n < 32) :
    Char.ofNat (16 * hexValue (hexDigit (n / 16)) + hexValue (hexDigit (n % 16))) = Char.ofNat n := by
  revert n
  decide

theorem readChar_quoteChar (c : Char) (rest : List Char) :
    readChar ((quoteChar c).toList ++ rest) = some (c, rest) := by
  unfold quoteChar
  split_ifs with hquote hslash hn hr ht hb hf hcontrol
  · rw [hquote]
    rfl
  · rw [hslash]
    rfl
  · rw [hn]
    rfl
  · rw [hr]
    rfl
  · rw [ht]
    rfl
  · rw [Char.toNat_inj.mp (show c.toNat = '\x08'.toNat from hb)]
    rfl
  · rw [Char.toNat_inj.mp (show c.toNat = '\x0c'.toNat from hf)]
    rfl
  · have hread := ofNat_hexValue hcontrol
    rw [Char.ofNat_toNat] at hread
    simp [readChar, hread]
  · simp only [String.toList_ofList, List.singleton_append]
    unfold readChar
    split <;> simp_all

theorem quoteChar_append_inj {c d : Char} {r s : List Char}
    (h : (quoteChar c).toList ++ r = (quoteChar d).toList ++ s) : c = d ∧ r = s := by
  have hread := congrArg readChar h
  rw [readChar_quoteChar, readChar_quoteChar] at hread
  exact Prod.mk.inj (Option.some.inj hread)

/-- A quoted character is no closing quote. -/
theorem quoteChar_ne_quote (c : Char) {r s : List Char} :
    (quoteChar c).toList ++ r ≠ '"' :: s := by
  intro h
  have hread := congrArg readChar h
  rw [readChar_quoteChar] at hread
  have hc : c = '"' := (Prod.mk.inj (Option.some.inj hread)).1
  rw [hc] at h
  exact absurd (List.cons.inj h).1 (by decide)

def quotedChars (text : List Char) : List Char := text.flatMap fun c => (quoteChar c).toList

theorem quotedChars_append_inj {a b r s : List Char}
    (h : quotedChars a ++ '"' :: r = quotedChars b ++ '"' :: s) : a = b ∧ r = s := by
  induction a generalizing b with
  | nil =>
      cases b with
      | nil => exact ⟨rfl, (List.cons.inj h).2⟩
      | cons d b =>
          simp only [quotedChars, List.flatMap_nil, List.flatMap_cons, List.nil_append,
            List.append_assoc] at h
          exact absurd h.symm (quoteChar_ne_quote d)
  | cons c a ih =>
      cases b with
      | nil =>
          simp only [quotedChars, List.flatMap_nil, List.flatMap_cons, List.nil_append,
            List.append_assoc] at h
          exact absurd h (quoteChar_ne_quote c)
      | cons d b =>
          simp only [quotedChars, List.flatMap_cons, List.append_assoc] at h
          obtain ⟨hfirst, hrest⟩ := quoteChar_append_inj h
          obtain ⟨hsame, htail⟩ := ih hrest
          exact ⟨by rw [hfirst, hsame], htail⟩

theorem toList_quote (s : String) : (quote s).toList = '"' :: (quotedChars s.toList ++ ['"']) := by
  unfold quote quotedChars
  simp [String.toList_append, String.toList_join, List.flatMap_map]

theorem quote_append_inj {a b : String} {r s : List Char}
    (h : (quote a).toList ++ r = (quote b).toList ++ s) : a = b ∧ r = s := by
  rw [toList_quote, toList_quote] at h
  simp only [List.cons_append, List.append_assoc, List.cons.injEq, true_and,
    List.nil_append] at h
  obtain ⟨hsame, hrest⟩ := quotedChars_append_inj h
  exact ⟨String.toList_inj.mp hsame, hrest⟩

/-- The characters of a fixed text are checked one by one. -/
theorem noControl_of_all {text : String} {c : Char} (hc : c ∈ text.toList)
    (h : text.toList.all (fun d => decide (32 ≤ d.toNat)) = true) : 32 ≤ c.toNat := by
  simpa using List.all_eq_true.mp h c hc

theorem hexDigit_noControl {n : ℕ} (h : n < 16) : 32 ≤ (hexDigit n).toNat := by
  revert n
  decide

theorem quoteChar_noControl {c d : Char} (hd : d ∈ (quoteChar c).toList) : 32 ≤ d.toNat := by
  unfold quoteChar at hd
  split_ifs at hd with hquote hslash hn hr ht hb hf hcontrol
  · exact noControl_of_all hd (by decide)
  · exact noControl_of_all hd (by decide)
  · exact noControl_of_all hd (by decide)
  · exact noControl_of_all hd (by decide)
  · exact noControl_of_all hd (by decide)
  · exact noControl_of_all hd (by decide)
  · exact noControl_of_all hd (by decide)
  · simp only [String.toList_append, String.toList_ofList, List.mem_append, List.mem_cons,
      List.not_mem_nil, or_false] at hd
    rcases hd with hd | hd | hd
    · exact noControl_of_all hd (by decide)
    · rw [hd]
      exact hexDigit_noControl (by omega)
    · rw [hd]
      exact hexDigit_noControl (by omega)
  · rw [String.toList_ofList, List.mem_singleton] at hd
    rw [hd]
    omega

theorem quote_noControl {text : String} {c : Char} (hc : c ∈ (quote text).toList) :
    32 ≤ c.toNat := by
  rw [toList_quote] at hc
  simp only [List.mem_cons, List.mem_append, List.not_mem_nil, or_false] at hc
  rcases hc with hc | hc | hc
  · rw [hc]
    decide
  · obtain ⟨d, -, hd⟩ := List.mem_flatMap.mp hc
    exact quoteChar_noControl hd
  · rw [hc]
    decide

/-! ## Values -/

/-- What may follow a value. -/
def Ended (rest : List Char) : Prop := ∀ c tail, rest = c :: tail → c ∈ [',', ']', '\x7d']

theorem ended_nil : Ended [] := fun _ _ h => nomatch h

theorem ended_cons {c : Char} (h : c ∈ [',', ']', '\x7d']) (tail : List Char) :
    Ended (c :: tail) := by
  intro d rest hsame
  rw [← (List.cons.inj hsame).1]
  exact h

theorem NumberTexts.noControl {js : Js} (h : NumberTexts js) {q : ℚ} {c : Char}
    (hc : c ∈ (js.numberText q).toList) : 32 ≤ c.toNat := by
  rcases h.chars q c hc with hdigit | hother
  · have hrange : 48 ≤ c.toNat ∧ c.toNat ≤ 57 := by
      simpa [Char.isDigit, UInt32.le_iff_toNat_le] using hdigit
    omega
  · simp only [List.mem_cons, List.not_mem_nil, or_false] at hother
    rcases hother with rfl | rfl | rfl | rfl | rfl <;> decide

/-- No character of a number may follow a value, or start one of another kind. -/
theorem NumberTexts.apart {js : Js} (h : NumberTexts js) {q : ℚ} {c : Char}
    (hc : c ∈ (js.numberText q).toList) :
    c ∉ [',', ']', '\x7d', '\x7b', '[', '"', 'n', 't', 'f', '\x00'] := by
  rcases h.chars q c hc with hdigit | hother
  · intro hmem
    simp only [List.mem_cons, List.not_mem_nil, or_false] at hmem
    rcases hmem with rfl | rfl | rfl | rfl | rfl | rfl | rfl | rfl | rfl | rfl <;>
      exact absurd hdigit (by decide)
  · simp only [List.mem_cons, List.not_mem_nil, or_false] at hother
    rcases hother with rfl | rfl | rfl | rfl | rfl <;> decide

theorem NumberTexts.exists_cons {js : Js} (h : NumberTexts js) (q : ℚ) :
    ∃ c tail, (js.numberText q).toList = c :: tail ∧
      c ∉ [',', ']', '\x7d', '\x7b', '[', '"', 'n', 't', 'f', '\x00'] := by
  cases htext : (js.numberText q).toList with
  | nil => exact absurd (String.toList_eq_nil_iff.mp htext) (h.nonempty q)
  | cons c tail =>
      refine ⟨c, tail, rfl, h.apart (q := q) ?_⟩
      rw [htext]
      exact List.mem_cons_self

/-- Texts without a terminator, and what ends them, are told apart. -/
theorem append_ended_inj {a b r s : List Char} (ha : ∀ c ∈ a, c ∉ [',', ']', '\x7d'])
    (hb : ∀ c ∈ b, c ∉ [',', ']', '\x7d']) (hr : Ended r) (hs : Ended s) (h : a ++ r = b ++ s) :
    a = b ∧ r = s := by
  induction a generalizing b with
  | nil =>
      cases b with
      | nil => exact ⟨rfl, h⟩
      | cons d b => exact absurd (hr d (b ++ s) h) (hb d List.mem_cons_self)
  | cons c a ih =>
      cases b with
      | nil => exact absurd (hs c (a ++ r) h.symm) (ha c List.mem_cons_self)
      | cons d b =>
          obtain ⟨hhead, htail⟩ := List.cons.inj h
          obtain ⟨hsame, hrest⟩ := ih (fun k hk => ha k (List.mem_cons_of_mem _ hk))
            (fun k hk => hb k (List.mem_cons_of_mem _ hk)) htail
          exact ⟨by rw [hhead, hsame], hrest⟩

namespace Json

variable {js : Js}

def kindIndex : Json → ℕ
  | .null => 0
  | .bool _ => 1
  | .num _ => 2
  | .str _ => 3
  | .arr _ => 4
  | .obj _ => 5

/-- The kind a value of this first character has. -/
def kindOfStart (c : Char) : ℕ :=
  if c = 'n' then 0
  else if c = 't' ∨ c = 'f' then 1
  else if c = '"' then 3
  else if c = '[' then 4
  else if c = '\x7b' then 5
  else 2

theorem exists_start (h : NumberTexts js) (value : Json) :
    ∃ c tail, (stringify js value).toList = c :: tail ∧ kindOfStart c = kindIndex value ∧
      c ∉ [',', ']', '\x7d'] := by
  cases value with
  | null => exact ⟨'n', "ull".toList, by simp [stringify], by decide, by decide⟩
  | bool b =>
      cases b with
      | true => exact ⟨'t', "rue".toList, by simp [stringify], by decide, by decide⟩
      | false => exact ⟨'f', "alse".toList, by simp [stringify], by decide, by decide⟩
  | num q =>
      obtain ⟨c, tail, htext, hapart⟩ := h.exists_cons q
      simp only [List.mem_cons, List.not_mem_nil, or_false, not_or] at hapart
      refine ⟨c, tail, by simpa [stringify] using htext, ?_, ?_⟩
      · simp [kindOfStart, kindIndex, hapart]
      · simp [hapart]
  | str text => exact ⟨'"', _, by simpa [stringify] using toList_quote text,
      by simp [kindOfStart, kindIndex], by decide⟩
  | arr items =>
      refine ⟨'[', (stringifyItems js items).toList ++ [']'], ?_, by simp [kindOfStart, kindIndex],
        by decide⟩
      simp [stringify, String.toList_append]
  | obj fields =>
      refine ⟨'\x7b', (stringifyFields js fields).toList ++ ['\x7d'], ?_,
        by simp [kindOfStart, kindIndex], by decide⟩
      simp [stringify, String.toList_append]

theorem kindIndex_eq (h : NumberTexts js) {a b : Json} {r s : List Char}
    (heq : (stringify js a).toList ++ r = (stringify js b).toList ++ s) :
    kindIndex a = kindIndex b := by
  obtain ⟨c, tail, ha, hca, -⟩ := exists_start h a
  obtain ⟨d, rest, hb, hdb, -⟩ := exists_start h b
  rw [ha, hb] at heq
  rw [← hca, ← hdb, (List.cons.inj heq).1]

/-- The text of an array's items and its end. -/
def itemsText (js : Js) (items : List Json) : List Char := (stringifyItems js items).toList ++ [']']

theorem itemsText_nil : itemsText js [] = [']'] := rfl

theorem itemsText_cons (first : Json) (items : List Json) :
    itemsText js (first :: items) = (stringify js first).toList ++
      (if items = [] then [']'] else ',' :: itemsText js items) := by
  cases items with
  | nil => rfl
  | cons second items => simp [itemsText, stringifyItems, String.toList_append]

/-- The text of an object's fields and its end. -/
def fieldsText (js : Js) (fields : Fields) : List Char :=
  (stringifyFields js fields).toList ++ ['\x7d']

theorem fieldsText_nil : fieldsText js [] = ['\x7d'] := rfl

theorem fieldsText_cons (key : String) (value : Json) (fields : Fields) :
    fieldsText js ((key, value) :: fields) = (quote key).toList ++ ':' :: ((stringify js value).toList ++
      (if fields = [] then ['\x7d'] else ',' :: fieldsText js fields)) := by
  cases fields with
  | nil => simp [fieldsText, stringifyFields, String.toList_append]
  | cons second fields => simp [fieldsText, stringifyFields, String.toList_append]

theorem ended_items (items : List Json) (r : List Char) :
    Ended ((if items = [] then [']'] else ',' :: itemsText js items) ++ r) := by
  split_ifs
  · exact ended_cons (by decide) r
  · exact ended_cons (by decide) (itemsText js items ++ r)

theorem ended_fields (fields : Fields) (r : List Char) :
    Ended ((if fields = [] then ['\x7d'] else ',' :: fieldsText js fields) ++ r) := by
  split_ifs
  · exact ended_cons (by decide) r
  · exact ended_cons (by decide) (fieldsText js fields ++ r)

theorem itemsText_ne (h : NumberTexts js) (first : Json) (items : List Json) {r s : List Char} :
    itemsText js [] ++ r ≠ itemsText js (first :: items) ++ s := by
  intro heq
  obtain ⟨c, tail, htext, -, hc⟩ := exists_start h first
  rw [itemsText_cons, htext] at heq
  have hstart : ']' = c := (List.cons.inj heq).1
  rw [← hstart] at hc
  exact hc (by decide)

theorem fieldsText_ne (first : String × Json) (fields : Fields) {r s : List Char} :
    fieldsText js [] ++ r ≠ fieldsText js (first :: fields) ++ s := by
  intro heq
  rw [fieldsText_cons, toList_quote] at heq
  exact absurd (List.cons.inj heq).1 (by decide)

/-- Two lists end together or both go on. -/
theorem rest_cases {α : Type} {as bs : List α} {close : Char} {x y r s : List Char}
    (hclose : close ≠ ',')
    (h : (if as = [] then [close] else ',' :: x) ++ r = (if bs = [] then [close] else ',' :: y) ++ s) :
    (as = [] ∧ bs = [] ∧ r = s) ∨ (as ≠ [] ∧ bs ≠ [] ∧ x ++ r = y ++ s) := by
  by_cases ha : as = [] <;> by_cases hb : bs = []
  · rw [if_pos ha, if_pos hb] at h
    exact Or.inl ⟨ha, hb, List.append_cancel_left h⟩
  · rw [if_pos ha, if_neg hb] at h
    exact absurd (List.cons.inj h).1 hclose
  · rw [if_neg ha, if_pos hb] at h
    exact absurd (List.cons.inj h).1.symm hclose
  · rw [if_neg ha, if_neg hb] at h
    exact Or.inr ⟨ha, hb, (List.cons.inj h).2⟩

mutual
/-- A value is read off the text it starts. -/
theorem stringify_append_inj (h : NumberTexts js) : ∀ (a b : Json) {r s : List Char},
    Ended r → Ended s → (stringify js a).toList ++ r = (stringify js b).toList ++ s → a = b ∧ r = s
  | .null, b, r, s, _, _, heq => by
      have hkind := kindIndex_eq h heq
      cases b with
      | null => exact ⟨rfl, List.append_cancel_left heq⟩
      | _ => cases hkind
  | .bool a, b, r, s, _, _, heq => by
      have hkind := kindIndex_eq h heq
      cases b with
      | bool b =>
          cases a <;> cases b
          · exact ⟨rfl, List.append_cancel_left heq⟩
          · simp [stringify] at heq
          · simp [stringify] at heq
          · exact ⟨rfl, List.append_cancel_left heq⟩
      | _ => cases hkind
  | .num a, b, r, s, hr, hs, heq => by
      have hkind := kindIndex_eq h heq
      cases b with
      | num b =>
          have hplain : ∀ q, ∀ c ∈ (js.numberText q).toList, c ∉ [',', ']', '\x7d'] := by
            intro q c hc hmem
            apply h.apart hc
            simp only [List.mem_cons, List.not_mem_nil, or_false] at hmem ⊢
            tauto
          obtain ⟨htext, hrest⟩ := append_ended_inj (hplain a) (hplain b) hr hs heq
          exact ⟨congrArg Json.num (h.injective (String.toList_inj.mp htext)), hrest⟩
      | _ => cases hkind
  | .str a, b, r, s, _, _, heq => by
      have hkind := kindIndex_eq h heq
      cases b with
      | str b =>
          obtain ⟨hsame, hrest⟩ := quote_append_inj heq
          exact ⟨congrArg Json.str hsame, hrest⟩
      | _ => cases hkind
  | .arr as, b, r, s, _, _, heq => by
      have hkind := kindIndex_eq h heq
      cases b with
      | arr bs =>
          have hitems : itemsText js as ++ r = itemsText js bs ++ s := by
            simpa [stringify, String.toList_append, itemsText] using heq
          obtain ⟨hsame, hrest⟩ := itemsText_append_inj h as bs hitems
          exact ⟨congrArg Json.arr hsame, hrest⟩
      | _ => cases hkind
  | .obj as, b, r, s, _, _, heq => by
      have hkind := kindIndex_eq h heq
      cases b with
      | obj bs =>
          have hfields : fieldsText js as ++ r = fieldsText js bs ++ s := by
            simpa [stringify, String.toList_append, fieldsText] using heq
          obtain ⟨hsame, hrest⟩ := fieldsText_append_inj h as bs hfields
          exact ⟨congrArg Json.obj hsame, hrest⟩
      | _ => cases hkind

theorem itemsText_append_inj (h : NumberTexts js) : ∀ (as bs : List Json) {r s : List Char},
    itemsText js as ++ r = itemsText js bs ++ s → as = bs ∧ r = s
  | [], bs, r, s, heq => by
      cases bs with
      | nil => exact ⟨rfl, List.append_cancel_left heq⟩
      | cons b bs => exact absurd heq (itemsText_ne h b bs)
  | a :: as, bs, r, s, heq => by
      cases bs with
      | nil => exact absurd heq.symm (itemsText_ne h a as)
      | cons b bs =>
          rw [itemsText_cons, itemsText_cons, List.append_assoc, List.append_assoc] at heq
          obtain ⟨hfirst, hrest⟩ :=
            stringify_append_inj h a b (ended_items as r) (ended_items bs s) heq
          rcases rest_cases (by decide) hrest with ⟨rfl, rfl, hend⟩ | ⟨-, -, hmore⟩
          · exact ⟨by rw [hfirst], hend⟩
          · obtain ⟨hsame, hend⟩ := itemsText_append_inj h as bs hmore
            exact ⟨by rw [hfirst, hsame], hend⟩

theorem fieldsText_append_inj (h : NumberTexts js) : ∀ (as bs : Fields) {r s : List Char},
    fieldsText js as ++ r = fieldsText js bs ++ s → as = bs ∧ r = s
  | [], bs, r, s, heq => by
      cases bs with
      | nil => exact ⟨rfl, List.append_cancel_left heq⟩
      | cons b bs => exact absurd heq (fieldsText_ne b bs)
  | (key, a) :: as, bs, r, s, heq => by
      cases bs with
      | nil => exact absurd heq.symm (fieldsText_ne (key, a) as)
      | cons field bs =>
          obtain ⟨name, b⟩ := field
          rw [fieldsText_cons, fieldsText_cons] at heq
          simp only [List.append_assoc, List.cons_append] at heq
          obtain ⟨hkey, htail⟩ := quote_append_inj heq
          obtain ⟨-, hvalue⟩ := List.cons.inj htail
          obtain ⟨hfirst, hrest⟩ :=
            stringify_append_inj h a b (ended_fields as r) (ended_fields bs s) hvalue
          rcases rest_cases (by decide) hrest with ⟨rfl, rfl, hend⟩ | ⟨-, -, hmore⟩
          · exact ⟨by rw [hkey, hfirst], hend⟩
          · obtain ⟨hsame, hend⟩ := fieldsText_append_inj h as bs hmore
            exact ⟨by rw [hkey, hfirst, hsame], hend⟩
end

/-- `JSON.stringify` tells values apart. -/
theorem stringify_injective (h : NumberTexts js) : Function.Injective (stringify js) := by
  intro a b hab
  have htext : (stringify js a).toList ++ [] = (stringify js b).toList ++ [] := by rw [hab]
  exact (stringify_append_inj h a b ended_nil ended_nil htext).1

/-! ## No control characters -/

mutual
/-- A JSON text holds no control character. -/
theorem stringify_noControl (h : NumberTexts js) : ∀ (value : Json),
    ∀ c ∈ (stringify js value).toList, 32 ≤ c.toNat
  | .null => by
      intro c hc
      rw [stringify] at hc
      exact noControl_of_all hc (by decide)
  | .bool b => by
      intro c hc
      rw [stringify] at hc
      cases b with
      | false => exact noControl_of_all hc (by decide)
      | true => exact noControl_of_all hc (by decide)
  | .num q => by
      intro c hc
      rw [stringify] at hc
      exact h.noControl hc
  | .str text => by
      intro c hc
      rw [stringify] at hc
      exact quote_noControl hc
  | .arr items => by
      intro c hc
      simp only [stringify, String.toList_append, List.mem_append] at hc
      rcases hc with (hc | hc) | hc
      · exact noControl_of_all hc (by decide)
      · exact stringifyItems_noControl h items c hc
      · exact noControl_of_all hc (by decide)
  | .obj fields => by
      intro c hc
      simp only [stringify, String.toList_append, List.mem_append] at hc
      rcases hc with (hc | hc) | hc
      · exact noControl_of_all hc (by decide)
      · exact stringifyFields_noControl h fields c hc
      · exact noControl_of_all hc (by decide)

theorem stringifyItems_noControl (h : NumberTexts js) : ∀ (items : List Json),
    ∀ c ∈ (stringifyItems js items).toList, 32 ≤ c.toNat
  | [] => by simp [stringifyItems]
  | [item] => stringify_noControl h item
  | item :: second :: items => by
      intro c hc
      simp only [stringifyItems, String.toList_append, List.mem_append] at hc
      rcases hc with (hc | hc) | hc
      · exact stringify_noControl h item c hc
      · exact noControl_of_all hc (by decide)
      · exact stringifyItems_noControl h (second :: items) c hc

theorem stringifyFields_noControl (h : NumberTexts js) : ∀ (fields : Fields),
    ∀ c ∈ (stringifyFields js fields).toList, 32 ≤ c.toNat
  | [] => by simp [stringifyFields]
  | [(key, value)] => by
      intro c hc
      simp only [stringifyFields, String.toList_append, List.mem_append] at hc
      rcases hc with (hc | hc) | hc
      · exact quote_noControl hc
      · exact noControl_of_all hc (by decide)
      · exact stringify_noControl h value c hc
  | (key, value) :: second :: fields => by
      intro c hc
      simp only [stringifyFields, String.toList_append, List.mem_append] at hc
      rcases hc with (((hc | hc) | hc) | hc) | hc
      · exact quote_noControl hc
      · exact noControl_of_all hc (by decide)
      · exact stringify_noControl h value c hc
      · exact noControl_of_all hc (by decide)
      · exact stringifyFields_noControl h (second :: fields) c hc
end

end Json

/-! ## The plain runtime -/

theorem isDigit_of_mem_repr {n : ℕ} {c : Char} (hc : c ∈ n.repr.toList) : c.isDigit = true := by
  rw [Nat.toList_repr] at hc
  exact Nat.isDigit_of_mem_toDigits (by omega) (by omega) hc

theorem natText_injective {m n : ℕ} (h : m.repr = n.repr) : m = n := by
  have htext := congrArg String.toList h
  rw [Nat.toList_repr, Nat.toList_repr] at htext
  have hnumber := congrArg decimal htext
  rwa [decimal_toDigits, decimal_toDigits] at hnumber

theorem toList_repr_ne_nil (n : ℕ) : n.repr.toList ≠ [] := by
  rw [Nat.toList_repr]
  exact Nat.toDigits_ne_nil

theorem toList_intText (i : ℤ) :
    (∃ n : ℕ, i = n ∧ (toString i).toList = n.repr.toList) ∨
      ∃ n : ℕ, i = Int.negSucc n ∧ (toString i).toList = '-' :: (n + 1).repr.toList := by
  cases i with
  | ofNat n => exact Or.inl ⟨n, rfl, rfl⟩
  | negSucc n =>
      have htext : toString (Int.negSucc n) = "-" ++ (n + 1).repr := rfl
      exact Or.inr ⟨n, rfl, by rw [htext, String.toList_append]; rfl⟩

theorem isDigit_of_mem_intText {i : ℤ} {c : Char} (hc : c ∈ (toString i).toList) :
    c.isDigit = true ∨ c = '-' := by
  rcases toList_intText i with ⟨n, -, htext⟩ | ⟨n, -, htext⟩
  · rw [htext] at hc
    exact Or.inl (isDigit_of_mem_repr hc)
  · rw [htext] at hc
    rcases List.mem_cons.mp hc with hc | hc
    · exact Or.inr hc
    · exact Or.inl (isDigit_of_mem_repr hc)

theorem intText_injective {i j : ℤ} (h : (toString i).toList = (toString j).toList) : i = j := by
  have hminus : ∀ m n : ℕ, m.repr.toList ≠ '-' :: n.repr.toList := by
    intro m n heq
    have hdigit : ('-' : Char).isDigit = true := by
      apply @isDigit_of_mem_repr m
      rw [heq]
      exact List.mem_cons_self
    exact absurd hdigit (by decide)
  rcases toList_intText i with ⟨m, rfl, hi⟩ | ⟨m, rfl, hi⟩ <;>
    rcases toList_intText j with ⟨n, rfl, hj⟩ | ⟨n, rfl, hj⟩ <;> rw [hi, hj] at h
  · rw [natText_injective (String.toList_inj.mp h)]
  · exact absurd h (hminus m (n + 1))
  · exact absurd h.symm (hminus n (m + 1))
  · have hsame := natText_injective (String.toList_inj.mp (List.cons.inj h).2)
    rw [Nat.succ.inj hsame]

theorem toList_plainText (q : ℚ) :
    (Js.plain.numberText q).toList =
      (toString q.num).toList ++ (if q.den = 1 then [] else '/' :: q.den.repr.toList) := by
  unfold Js.plain
  by_cases h : q.den = 1
  · simp [h]
  · simp only [h, if_false, String.toList_append, List.append_assoc]
    rfl

theorem numberTexts_plain : NumberTexts Js.plain where
  injective p q h := by
    have htext := congrArg String.toList h
    rw [toList_plainText, toList_plainText] at htext
    have hnumerator : ∀ r : ℚ, List.takeWhile (· ≠ '/') ((toString r.num).toList ++
        (if r.den = 1 then [] else '/' :: r.den.repr.toList)) = (toString r.num).toList := by
      intro r
      have hslash : ∀ c ∈ (toString r.num).toList, decide (c ≠ '/') = true := by
        intro c hc
        rw [decide_eq_true_iff]
        rintro rfl
        rcases isDigit_of_mem_intText hc with hdigit | hminus
        · exact absurd hdigit (by decide)
        · exact absurd hminus (by decide)
      rw [List.takeWhile_append_of_pos hslash]
      split_ifs <;> simp
    have hnums := congrArg (List.takeWhile (· ≠ '/')) htext
    rw [hnumerator, hnumerator] at hnums
    have hnum : p.num = q.num := intText_injective hnums
    rw [hnum] at htext
    have hdens := List.append_cancel_left htext
    apply Rat.ext hnum
    split_ifs at hdens with hp hq hq
    · rw [hp, hq]
    · exact natText_injective (String.toList_inj.mp (List.cons.inj hdens).2)
  nonempty q h := by
    have htext := congrArg String.toList h
    rw [toList_plainText] at htext
    have hnum := (List.append_eq_nil_iff.mp htext).1
    rcases toList_intText q.num with ⟨n, -, hn⟩ | ⟨n, -, hn⟩
    · rw [hn] at hnum
      exact toList_repr_ne_nil n hnum
    · rw [hn] at hnum
      cases hnum
  chars q c hc := by
    rw [toList_plainText] at hc
    rcases List.mem_append.mp hc with hc | hc
    · rcases isDigit_of_mem_intText hc with hdigit | hminus
      · exact Or.inl hdigit
      · rw [hminus]
        exact Or.inr (by decide)
    · split_ifs at hc
      · cases hc
      · rcases List.mem_cons.mp hc with hc | hc
        · rw [hc]
          exact Or.inr (by decide)
        · exact Or.inl (isDigit_of_mem_repr hc)

end Wardx
