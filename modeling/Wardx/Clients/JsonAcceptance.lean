import Wardx.Clients.CSharpJson
import Wardx.Lib.Check

/-!
# What the C# parser takes

The parser takes JSON, and in a string more than JSON: control characters, and
escapes that `Convert.ToInt32` reads although they are not four hexadecimal
digits. `csharpRules` are the rules of its strings. A text under them is what it
returns a node for, and on any other it stops with a `FormatException`, unless it
meets an escape with a minus sign, where `Convert.ToInt32` throws another
exception. `SignedValue` are the texts that begin well and go on with such an
escape.
-/
namespace Wardx.CSharpJson

open Lib JsonGrammar

/-- What the parser reads in a string. -/
def csharpRules : Rules where
  unescaped c := c ≠ unit '"' && c ≠ unit '\\'
  unicode digits := if digits.length = 4 then
    (convertToInt32 digits).toOption.map UInt16.ofNat else none

/-! ## Escapes with a minus sign -/

/-- Characters of a string up to an escape with a minus sign. -/
inductive SignedChars : List CodeUnit → Prop
  | here {digits s} : digits.length = 3 →
      SignedChars (unit '\\' :: unit 'u' :: unit '-' :: (digits ++ s))
  | unescaped {c s} : csharpRules.unescaped c = true → SignedChars s → SignedChars (c :: s)
  | escaped {c char s} : JsonGrammar.escaped c = some char → SignedChars s →
      SignedChars (unit '\\' :: c :: s)
  | unicode {digits char s} : digits.length = 4 → csharpRules.unicode digits = some char →
      SignedChars s → SignedChars (unit '\\' :: unit 'u' :: (digits ++ s))

mutual

/-- A value up to such an escape. -/
inductive SignedValue : List CodeUnit → Prop
  | string {s} : SignedChars s → SignedValue (unit '"' :: s)
  | array {s} : SignedElements s → SignedValue (unit '[' :: s)
  | object {s} : SignedMembers s → SignedValue (unit '\x7b' :: s)

/-- Elements of an array up to such an escape. -/
inductive SignedElements : List CodeUnit → Prop
  | here {s begun} : Ws s begun → SignedValue begun → SignedElements s
  | later {s item next} : Element csharpRules s item (unit ',' :: next) → SignedElements next →
      SignedElements s

/-- Members of an object up to such an escape. -/
inductive SignedMembers : List CodeUnit → Prop
  | name {s begun} : Ws s (unit '"' :: begun) → SignedChars begun → SignedMembers s
  | value {s begun name named colon begunValue} : Ws s (unit '"' :: begun) →
      Chars csharpRules begun name named → Ws named (unit ':' :: colon) → Ws colon begunValue →
      SignedValue begunValue → SignedMembers s
  | later {s name item next} : Member csharpRules s name item (unit ',' :: next) →
      SignedMembers next → SignedMembers s

end

/-- The text begins with a value up to an escape with a minus sign. -/
def SignedEscape (s : List CodeUnit) : Prop := ∃ begun, Ws s begun ∧ SignedValue begun

/-! ## The node of a text -/

/-- A number's text has a point or an exponent. -/
def wasFloat (text : List CodeUnit) : Bool :=
  text.any fun c => c = unit '.' || c = unit 'e' || c = unit 'E'

mutual

/-- What the parser builds for a text. -/
def nodeOf : Tree → JsonNode
  | .null => .null
  | .bool value => .bool value
  | .number text => .num (parseDouble text) (wasFloat text)
  | .string text => .str text
  | .array items => .arr (nodesOf items)
  | .object members => .obj (entriesOf [] members)

def nodesOf : List Tree → List JsonNode
  | [] => []
  | item :: items => nodeOf item :: nodesOf items

/-- The dictionary after the members. -/
def entriesOf (obj : List (List CodeUnit × JsonNode)) :
    List (List CodeUnit × Tree) → List (List CodeUnit × JsonNode)
  | [] => obj
  | (name, item) :: members => entriesOf (Table.putEntry name (nodeOf item) obj) members

end

/-- A failure is a `FormatException`, or the other one where it may be. -/
def Fails (signed : Prop) : Failure → Prop
  | .format _ => True
  | .argument _ => signed
  | _ => False

theorem Fails.mono {signed signed' : Prop} (h : signed → signed') (e : Failure)
    (he : Fails signed e) : Fails signed' e := by
  cases e with
  | format message => trivial
  | argument message => exact h he
  | invalidOperation message => exact he
  | outOfRange => exact he
  | outOfFuel => exact he

/-! ## Numbers -/

theorem peek_eq {s : List CodeUnit} {c : CodeUnit} (hc : c ≠ 0) (h : peek s = c) :
    s = c :: s.drop 1 := by
  cases s with
  | nil => exact absurd h.symm hc
  | cons d s => rw [← h]; rfl

theorem isDigit_eq_true_iff (c : CodeUnit) :
    isDigit c = true ↔ ¬ (c < unit '0' ∨ unit '9' < c) := by
  unfold isDigit
  simp [not_or]

/-- A digit that is not zero is one from one on. -/
theorem isDigit_and_ne_zero_iff (c : CodeUnit) :
    isDigit c = true ∧ c ≠ unit '0' ↔ ¬ (c < unit '1' ∨ unit '9' < c) := by
  have hzero : (unit '0').toNat = 48 := rfl
  have hone : (unit '1').toNat = 49 := rfl
  have hnine : (unit '9').toNat = 57 := rfl
  rw [isDigit_eq_true_iff, ne_eq, ← UInt16.toNat_inj]
  simp only [UInt16.lt_iff_toNat_lt, hzero, hone, hnine]
  omega

theorem digits_takeWhile {s : List CodeUnit} (h : isDigit (peek s) = true) :
    Digits (s.takeWhile isDigit) ∧ s = s.takeWhile isDigit ++ s.dropWhile isDigit := by
  refine ⟨⟨?_, fun c hc => List.mem_takeWhile_imp hc⟩, List.takeWhile_append_dropWhile.symm⟩
  cases s with
  | nil => exact absurd h (by decide)
  | cons c s =>
      have hc : isDigit c = true := h
      simp [hc]

theorem skipInt_ends (s : List CodeUnit) :
    Ends (fun rest => ∃ int, IsInt int ∧ s = int ++ rest) (Fails False) (skipInt s) := by
  unfold skipInt
  split_ifs with hzero hbad
  · exact ⟨[unit '0'], Or.inl rfl, peek_eq (by decide) hzero⟩
  · trivial
  · obtain ⟨hdigit, hne⟩ := (isDigit_and_ne_zero_iff _).mpr hbad
    obtain ⟨hdigits, hsplit⟩ := digits_takeWhile hdigit
    refine ⟨s.takeWhile isDigit, Or.inr ⟨hdigits, ?_⟩, hsplit⟩
    cases s with
    | nil => exact absurd hdigit (by decide)
    | cons c s =>
        have hc : isDigit c = true := hdigit
        have hne' : c ≠ unit '0' := hne
        simpa [hc] using hne'

theorem skipFraction_ends (s : List CodeUnit) :
    Ends (fun r => ∃ frac, IsFrac frac ∧ s = frac ++ r.2 ∧ r.1 = decide (frac ≠ []))
      (Fails False) (skipFraction s) := by
  unfold skipFraction
  split_ifs with hpoint hbad
  · trivial
  · obtain ⟨hdigits, hsplit⟩ := digits_takeWhile ((isDigit_eq_true_iff _).mpr hbad)
    refine ⟨unit '.' :: (s.drop 1).takeWhile isDigit, Or.inr ⟨_, hdigits, rfl⟩, ?_, by simp⟩
    rw [List.cons_append, ← hsplit]
    exact peek_eq (by decide) hpoint
  · exact ⟨[], Or.inl rfl, rfl, by simp⟩

theorem skipExponent_ends (isFloat : Bool) (s : List CodeUnit) :
    Ends (fun r => ∃ exp, IsExp exp ∧ s = exp ++ r.2 ∧ r.1 = (isFloat || decide (exp ≠ [])))
      (Fails False) (skipExponent isFloat s) := by
  unfold skipExponent
  by_cases he : peek s = unit 'e' ∨ peek s = unit 'E'
  · rw [if_pos he]
    have hhead : s = peek s :: s.drop 1 := by
      cases he with
      | inl hlower => rw [hlower]; exact peek_eq (by decide) hlower
      | inr hupper => rw [hupper]; exact peek_eq (by decide) hupper
    -- The sign, if there is one, and what follows it.
    have hsign : ∃ sign, (sign = [] ∨ sign = [unit '+'] ∨ sign = [unit '-']) ∧
        s.drop 1 = sign ++ (if peek (s.drop 1) = unit '+' ∨ peek (s.drop 1) = unit '-'
          then (s.drop 1).drop 1 else s.drop 1) := by
      by_cases hplus : peek (s.drop 1) = unit '+'
      · refine ⟨[unit '+'], by simp, ?_⟩
        rw [if_pos (Or.inl hplus)]
        exact peek_eq (by decide) hplus
      · by_cases hminus : peek (s.drop 1) = unit '-'
        · refine ⟨[unit '-'], by simp, ?_⟩
          rw [if_pos (Or.inr hminus)]
          exact peek_eq (by decide) hminus
        · exact ⟨[], by simp, by rw [if_neg (not_or.mpr ⟨hplus, hminus⟩)]; rfl⟩
    obtain ⟨sign, hkind, hsplit⟩ := hsign
    dsimp only
    generalize hrest : (if peek (s.drop 1) = unit '+' ∨ peek (s.drop 1) = unit '-'
      then (s.drop 1).drop 1 else s.drop 1) = rest at hsplit ⊢
    split_ifs with hbad
    · trivial
    · obtain ⟨hdigits, htake⟩ := digits_takeWhile ((isDigit_eq_true_iff _).mpr hbad)
      refine ⟨peek s :: (sign ++ rest.takeWhile isDigit),
        Or.inr ⟨_, sign, _, he, hkind, hdigits, rfl⟩, ?_, by simp⟩
      rw [List.cons_append, List.append_assoc, ← htake, ← hsplit]
      exact hhead
  · rw [if_neg he]
    exact ⟨[], Or.inl rfl, rfl, by simp⟩

theorem wasFloat_append (a b : List CodeUnit) : wasFloat (a ++ b) = (wasFloat a || wasFloat b) :=
  List.any_append

theorem wasFloat_digits {text : List CodeUnit} (h : ∀ c ∈ text, isDigit c = true) :
    wasFloat text = false := by
  unfold wasFloat
  rw [List.any_eq_false]
  intro c hc
  have hpoint : c ≠ unit '.' := ne_of_isDigit (h c hc) (by decide)
  have hlower : c ≠ unit 'e' := ne_of_isDigit (h c hc) (by decide)
  have hupper : c ≠ unit 'E' := ne_of_isDigit (h c hc) (by decide)
  simp [hpoint, hlower, hupper]

theorem wasFloat_int {int : List CodeUnit} (h : IsInt int) : wasFloat int = false := by
  cases h with
  | inl hzero => rw [hzero]; decide
  | inr hdigits => exact wasFloat_digits hdigits.1.2

theorem wasFloat_minus {minus : List CodeUnit} (h : minus = [] ∨ minus = [unit '-']) :
    wasFloat minus = false := by
  cases h with
  | inl hnone => rw [hnone]; rfl
  | inr hsign => rw [hsign]; decide

theorem wasFloat_frac {frac : List CodeUnit} (h : IsFrac frac) :
    wasFloat frac = decide (frac ≠ []) := by
  obtain rfl | ⟨digits, _, rfl⟩ := h
  · rfl
  · simp [wasFloat]

theorem wasFloat_exp {exp : List CodeUnit} (h : IsExp exp) :
    wasFloat exp = decide (exp ≠ []) := by
  obtain rfl | ⟨e, sign, digits, he, _, _, rfl⟩ := h
  · rfl
  · cases he with
    | inl hlower => simp [wasFloat, hlower]
    | inr hupper => simp [wasFloat, hupper]

/-- A number is a float when it has a fraction or an exponent. -/
theorem wasFloat_number {minus int frac exp : List CodeUnit}
    (hminus : minus = [] ∨ minus = [unit '-']) (hint : IsInt int) (hfrac : IsFrac frac)
    (hexp : IsExp exp) :
    wasFloat (minus ++ (int ++ (frac ++ exp))) = (decide (frac ≠ []) || decide (exp ≠ [])) := by
  rw [wasFloat_append, wasFloat_append, wasFloat_append, wasFloat_minus hminus, wasFloat_int hint,
    wasFloat_frac hfrac, wasFloat_exp hexp, Bool.false_or, Bool.false_or]

theorem substring_append (text rest : List CodeUnit) :
    substring (text ++ rest) ((text ++ rest).length - rest.length) = .ok text := by
  have hlength : (text ++ rest).length - rest.length = text.length := by
    rw [List.length_append]
    omega
  unfold substring
  rw [hlength, if_pos (by simp), List.take_left]

theorem parseNumber_ends (s : List CodeUnit) :
    Ends (fun r => ∃ text, IsNumber text ∧ s = text ++ r.2 ∧ r.1 = nodeOf (.number text))
      (Fails False) (parseNumber s) := by
  have hsign : ∃ minus, (minus = [] ∨ minus = [unit '-']) ∧
      s = minus ++ (if peek s = unit '-' then s.drop 1 else s) := by
    by_cases hminus : peek s = unit '-'
    · exact ⟨[unit '-'], Or.inr rfl, by rw [if_pos hminus]; exact peek_eq (by decide) hminus⟩
    · exact ⟨[], Or.inl rfl, by rw [if_neg hminus]; rfl⟩
  obtain ⟨minus, hminus, hstart⟩ := hsign
  unfold parseNumber
  refine (skipInt_ends _).bind fun afterInt hafterInt => ?_
  obtain ⟨int, hint, hrest⟩ := hafterInt
  refine (skipFraction_ends afterInt).bind fun afterFrac hafterFrac => ?_
  obtain ⟨isFrac, afterFrac⟩ := afterFrac
  obtain ⟨frac, hfrac, hafter, hisFrac⟩ := hafterFrac
  refine (skipExponent_ends isFrac afterFrac).bind fun afterExp hafterExp => ?_
  obtain ⟨isFloat, rest⟩ := afterExp
  obtain ⟨exp, hexp, hend, hisFloat⟩ := hafterExp
  dsimp only at hafter hisFrac hend hisFloat ⊢
  have hs : s = (minus ++ (int ++ (frac ++ exp))) ++ rest := by
    rw [hstart, hrest, hafter, hend]
    simp only [List.append_assoc]
  rw [hs, substring_append]
  refine ⟨_, ⟨minus, int, frac, exp, hminus, hint, hfrac, hexp, rfl⟩, rfl, ?_⟩
  rw [nodeOf, wasFloat_number hminus hint hfrac hexp, hisFloat, hisFrac]

/-- What cannot stand inside a number. -/
def Stops (rest : List CodeUnit) : Prop :=
  ∀ c ∈ rest.head?, isDigit c = false ∧ c ≠ unit '.' ∧ c ≠ unit 'e' ∧ c ≠ unit 'E'

theorem peek_ne_of_stops {rest : List CodeUnit} {c : CodeUnit} (hc : c ≠ 0)
    (h : ∀ d ∈ rest.head?, d ≠ c) : peek rest ≠ c := by
  cases rest with
  | nil => exact fun heq => hc heq.symm
  | cons d rest => exact h d rfl

@[simp] theorem peek_cons (c : CodeUnit) (s : List CodeUnit) : peek (c :: s) = c := rfl

theorem peek_append {a b : List CodeUnit} (h : a ≠ []) : peek (a ++ b) = peek a := by
  cases a with
  | nil => exact absurd rfl h
  | cons c a => rfl

theorem isDigit_peek {digits : List CodeUnit} (h : Digits digits) : isDigit (peek digits) = true := by
  cases digits with
  | nil => exact absurd rfl h.1
  | cons c digits => exact h.2 c List.mem_cons_self

theorem skipInt_append {int rest : List CodeUnit} (hint : IsInt int)
    (hrest : ∀ c ∈ rest.head?, isDigit c = false) : skipInt (int ++ rest) = .ok rest := by
  unfold skipInt
  cases hint with
  | inl hzero =>
      rw [hzero]
      exact if_pos rfl
  | inr hdigits =>
      obtain ⟨hdigits, hhead⟩ := hdigits
      have hdigit := isDigit_peek hdigits
      have hne : peek int ≠ unit '0' := by
        cases int with
        | nil => exact absurd rfl hdigits.1
        | cons c int => exact fun heq => hhead (congrArg some heq)
      have hrange := (isDigit_and_ne_zero_iff _).mp ⟨hdigit, hne⟩
      rw [peek_append hdigits.1, if_neg hne, if_neg hrange, dropWhile_append_stop hdigits.2 hrest]

theorem skipFraction_append {frac rest : List CodeUnit} (hfrac : IsFrac frac)
    (hrest : ∀ c ∈ rest.head?, isDigit c = false ∧ c ≠ unit '.') :
    skipFraction (frac ++ rest) = .ok (decide (frac ≠ []), rest) := by
  unfold skipFraction
  obtain rfl | ⟨digits, hdigits, rfl⟩ := hfrac
  · have hne : peek rest ≠ unit '.' := peek_ne_of_stops (by decide) fun c hc => (hrest c hc).2
    rw [List.nil_append, if_neg hne]
    rfl
  · have hdigit := (isDigit_eq_true_iff _).mp (isDigit_peek hdigits)
    rw [List.cons_append, peek_cons, if_pos rfl]
    simp only [List.drop_succ_cons, List.drop_zero]
    rw [peek_append hdigits.1, if_neg hdigit,
      dropWhile_append_stop hdigits.2 fun c hc => (hrest c hc).1]
    simp

theorem skipExponent_append {exp rest : List CodeUnit} (isFloat : Bool) (hexp : IsExp exp)
    (hrest : Stops rest) :
    skipExponent isFloat (exp ++ rest) = .ok (isFloat || decide (exp ≠ []), rest) := by
  unfold skipExponent
  obtain rfl | ⟨e, sign, digits, he, hsign, hdigits, rfl⟩ := hexp
  · have hlower : peek rest ≠ unit 'e' :=
      peek_ne_of_stops (by decide) fun c hc => (hrest c hc).2.2.1
    have hupper : peek rest ≠ unit 'E' :=
      peek_ne_of_stops (by decide) fun c hc => (hrest c hc).2.2.2
    rw [List.nil_append, if_neg (not_or.mpr ⟨hlower, hupper⟩)]
    simp
  · have hdigit := isDigit_peek hdigits
    have hrange := (isDigit_eq_true_iff _).mp hdigit
    have hafter : (if peek (sign ++ (digits ++ rest)) = unit '+' ∨
        peek (sign ++ (digits ++ rest)) = unit '-' then (sign ++ (digits ++ rest)).drop 1
        else sign ++ (digits ++ rest)) = digits ++ rest := by
      obtain rfl | rfl | rfl := hsign
      · have hplus : peek digits ≠ unit '+' := ne_of_isDigit hdigit (by decide)
        have hminus : peek digits ≠ unit '-' := ne_of_isDigit hdigit (by decide)
        rw [List.nil_append, peek_append hdigits.1, if_neg (not_or.mpr ⟨hplus, hminus⟩)]
      · exact if_pos (Or.inl rfl)
      · exact if_pos (Or.inr rfl)
    rw [List.cons_append, peek_cons, if_pos he, List.append_assoc]
    simp only [List.drop_succ_cons, List.drop_zero]
    rw [hafter, peek_append hdigits.1, if_neg hrange,
      dropWhile_append_stop hdigits.2 fun c hc => (hrest c hc).1]
    simp

/-- The parser reads a number up to what cannot stand inside one. -/
theorem parseNumber_append {text rest : List CodeUnit} (htext : IsNumber text)
    (hrest : Stops rest) : parseNumber (text ++ rest) = .ok (nodeOf (.number text), rest) := by
  obtain ⟨minus, int, frac, exp, hminus, hint, hfrac, hexp, rfl⟩ := htext
  have hafterFrac : ∀ c ∈ (exp ++ rest).head?, isDigit c = false ∧ c ≠ unit '.' := by
    intro c hc
    obtain rfl | ⟨e, sign, digits, he, _, _, rfl⟩ := hexp
    · exact ⟨(hrest c hc).1, (hrest c hc).2.1⟩
    · have hce : c = e := by simpa [eq_comm] using hc
      rw [hce]
      cases he with
      | inl hlower => rw [hlower]; decide
      | inr hupper => rw [hupper]; decide
  have hafterInt : ∀ c ∈ (frac ++ (exp ++ rest)).head?, isDigit c = false := by
    intro c hc
    obtain rfl | ⟨digits, _, rfl⟩ := hfrac
    · exact (hafterFrac c hc).1
    · have hpoint : c = unit '.' := by simpa [eq_comm] using hc
      rw [hpoint]
      decide
  have hstart : (if peek (minus ++ (int ++ (frac ++ (exp ++ rest)))) = unit '-'
      then (minus ++ (int ++ (frac ++ (exp ++ rest)))).drop 1
      else minus ++ (int ++ (frac ++ (exp ++ rest)))) = int ++ (frac ++ (exp ++ rest)) := by
    cases hminus with
    | inl hnone =>
        have hdigit : isDigit (peek int) = true := by
          cases hint with
          | inl hzero => rw [hzero]; decide
          | inr hdigits => exact isDigit_peek hdigits.1
        have hne : peek int ≠ unit '-' := ne_of_isDigit hdigit (by decide)
        rw [hnone, List.nil_append, peek_append hint.ne_nil, if_neg hne]
    | inr hsign =>
        rw [hsign]
        exact if_pos rfl
  have hsub := substring_append (minus ++ (int ++ (frac ++ exp))) rest
  simp only [List.append_assoc] at hsub ⊢
  unfold parseNumber
  rw [hstart, skipInt_append hint hafterInt]
  simp only [bind, Except.bind]
  rw [skipFraction_append hfrac hafterFrac]
  dsimp only
  rw [skipExponent_append _ hexp hrest]
  dsimp only
  rw [hsub, nodeOf, wasFloat_number hminus hint hfrac hexp]
  rfl

/-! ## Strings -/

theorem simpleEscape_eq (e : CodeUnit) : simpleEscape e = escaped e := by
  unfold simpleEscape escaped
  by_cases hquote : e = unit '"'
  · simp [hquote]
  · by_cases hback : e = unit '\\'
    · simp [hback]
    · by_cases hslash : e = unit '/'
      · subst hslash
        decide
      · simp [hquote, hback, hslash]

theorem unescaped_csharp (c : CodeUnit) :
    csharpRules.unescaped c = true ↔ c ≠ unit '"' ∧ c ≠ unit '\\' := by
  simp [csharpRules]

theorem unicode_csharp {digits : List CodeUnit} (h : digits.length = 4) {code : ℕ}
    (hcode : convertToInt32 digits = .ok code) :
    csharpRules.unicode digits = some (UInt16.ofNat code) := by
  simp [csharpRules, h, hcode, Except.toOption]

theorem exists_four {s : List CodeUnit} (h : ¬ s.length < 4) :
    ∃ sign digits rest, digits.length = 3 ∧ s = sign :: (digits ++ rest) ∧
      substring s 4 = .ok (sign :: digits) ∧ s.drop 4 = rest := by
  cases s with
  | nil => simp at h
  | cons sign s =>
      rw [List.length_cons] at h
      refine ⟨sign, s.take 3, s.drop 3, by rw [List.length_take]; omega, ?_, ?_, rfl⟩
      · rw [List.take_append_drop]
      · exact if_pos (by rw [List.length_cons]; omega)

@[simp] theorem charAt_cons (c : CodeUnit) (s : List CodeUnit) : charAt (c :: s) = .ok c := rfl

@[simp] theorem ok_bind {α β : Type} (a : α) (f : α → Except Failure β) :
    (Except.ok a >>= f) = f a := rfl

/-- A conversion fails with the other exception on a minus sign only. -/
theorem convertToInt32_ends (sign : CodeUnit) (rest : List CodeUnit) :
    Ends (fun code => sign ≠ unit '-' ∧ convertToInt32 (sign :: rest) = .ok code)
      (Fails (sign = unit '-')) (convertToInt32 (sign :: rest)) := by
  cases hcode : convertToInt32 (sign :: rest) with
  | ok code =>
      refine ⟨fun hminus => ?_, rfl⟩
      rw [convertToInt32, charAt_cons, ok_bind, if_pos hminus] at hcode
      cases hcode
  | error e =>
      rw [convertToInt32, charAt_cons, ok_bind] at hcode
      by_cases hminus : sign = unit '-'
      · rw [if_pos hminus] at hcode
        cases hcode
        exact hminus
      · rw [if_neg hminus] at hcode
        dsimp only at hcode
        by_cases hempty : skipPrefix (if sign = unit '+' then (sign :: rest).drop 1
            else sign :: rest) = []
        · rw [if_pos hempty] at hcode
          cases hcode
          trivial
        · rw [if_neg hempty] at hcode
          cases hdigits : hexDigits 0 (skipPrefix (if sign = unit '+' then (sign :: rest).drop 1
            else sign :: rest)) with
          | none =>
              rw [hdigits] at hcode
              cases hcode
              trivial
          | some n =>
              rw [hdigits] at hcode
              cases hcode

theorem parseChars_ends (fuel : ℕ) (sb s : List CodeUnit) (h : s.length < fuel) :
    Ends (fun r => ∃ text, Chars csharpRules s text r.2 ∧ r.1 = sb ++ text)
      (Fails (SignedChars s)) (parseChars fuel sb s) := by
  induction fuel generalizing sb s with
  | zero => omega
  | succ fuel ih =>
      -- What is read after this character ends as the rest of the string does.
      have hread : ∀ {next : List CodeUnit} (char : CodeUnit), next.length < fuel →
          (∀ {text rest}, Chars csharpRules next text rest →
            Chars csharpRules s (char :: text) rest) →
          (SignedChars next → SignedChars s) →
          Ends (fun r => ∃ text, Chars csharpRules s text r.2 ∧ r.1 = sb ++ text)
            (Fails (SignedChars s)) (parseChars fuel (sb ++ [char]) next) := by
        intro next char hlength hchars hsigned
        refine (ih (sb ++ [char]) next hlength).mono ?_ (Fails.mono hsigned)
        rintro ⟨read, rest⟩ ⟨text, htext, hread⟩
        exact ⟨char :: text, hchars htext, by rw [hread, List.append_assoc]; rfl⟩
      cases s with
      | nil => trivial
      | cons c s =>
          rw [List.length_cons] at h
          rw [parseChars, if_neg (List.cons_ne_nil c s)]
          simp only [charAt_cons, ok_bind, List.drop_succ_cons, List.drop_zero]
          by_cases hquote : c = unit '"'
          · rw [if_pos hquote, hquote]
            exact ⟨[], .done, (List.append_nil sb).symm⟩
          rw [if_neg hquote]
          by_cases hplain : c ≠ unit '\\'
          · rw [if_pos hplain]
            have hrule := (unescaped_csharp c).mpr ⟨hquote, hplain⟩
            exact hread c (by omega) (.unescaped hrule) (.unescaped hrule)
          rw [if_neg hplain]
          rw [not_not] at hplain
          subst hplain
          cases s with
          | nil => trivial
          | cons e s =>
              rw [List.length_cons] at h
              rw [if_neg (List.cons_ne_nil e s)]
              simp only [charAt_cons, ok_bind, List.drop_succ_cons, List.drop_zero]
              cases hescape : simpleEscape e with
              | some char =>
                  have hrule := hescape
                  rw [simpleEscape_eq] at hrule
                  exact hread char (by omega) (.escaped hrule) (.escaped hrule)
              | none =>
                  dsimp only
                  by_cases hu : e = unit 'u'
                  · rw [if_pos hu]
                    by_cases hshort : s.length < 4
                    · rw [if_pos hshort]
                      trivial
                    · obtain ⟨sign, digits, rest, hlength, hsplit, hsub, hdrop⟩ := exists_four hshort
                      rw [if_neg hshort, hsub, ok_bind, hdrop, hu]
                      rw [hu, hsplit] at hread
                      rw [hsplit, List.length_cons, List.length_append] at h
                      rw [hsplit]
                      have hsigned : sign = unit '-' →
                          SignedChars (unit '\\' :: unit 'u' :: sign :: (digits ++ rest)) := by
                        intro hminus
                        rw [hminus]
                        exact .here hlength
                      refine Ends.bind ((convertToInt32_ends sign digits).mono (fun _ => id)
                        (Fails.mono hsigned)) fun code hcode => ?_
                      have hfour : (sign :: digits).length = 4 := by rw [List.length_cons, hlength]
                      have hrule := unicode_csharp hfour hcode.2
                      exact hread _ (by omega) (.unicode hfour hrule) (.unicode hfour hrule)
                  · rw [if_neg hu]
                    trivial

/-- The conversion reads four units exactly when the rules do. -/
theorem convert_of_unicode {digits : List CodeUnit} {char : CodeUnit}
    (h : csharpRules.unicode digits = some char) :
    ∃ code, convertToInt32 digits = .ok code ∧ UInt16.ofNat code = char := by
  unfold csharpRules at h
  dsimp only at h
  split_ifs at h
  cases hcode : convertToInt32 digits with
  | error e =>
      rw [hcode] at h
      cases h
  | ok code =>
      rw [hcode] at h
      exact ⟨code, rfl, Option.some.inj h⟩

/-- Reading the character of an escape with four units. -/
theorem parseChars_unicode {digits s : List CodeUnit} (hlength : digits.length = 4) (fuel : ℕ)
    (sb : List CodeUnit) :
    parseChars (fuel + 1) sb (unit '\\' :: unit 'u' :: (digits ++ s)) = (do
      let code ← convertToInt32 digits
      parseChars fuel (sb ++ [UInt16.ofNat code]) s) := by
  have hshort : ¬ (digits ++ s).length < 4 := by
    rw [List.length_append]
    omega
  have hsub : substring (digits ++ s) 4 = .ok digits := by
    unfold substring
    rw [if_pos (by omega), ← hlength, List.take_left]
  have hdrop : (digits ++ s).drop 4 = s := by
    rw [← hlength, List.drop_left]
  have hescape : simpleEscape (unit 'u') = none := by decide
  rw [parseChars, if_neg (List.cons_ne_nil _ _)]
  simp only [charAt_cons, ok_bind, List.drop_succ_cons, List.drop_zero]
  rw [if_neg (by decide), if_neg (by decide), if_neg (List.cons_ne_nil _ _)]
  rw [hescape]
  dsimp only
  rw [if_pos trivial, if_neg hshort, hsub, ok_bind, hdrop]

theorem parseChars_escaped {e char : CodeUnit} (h : escaped e = some char) (fuel : ℕ)
    (sb s : List CodeUnit) :
    parseChars (fuel + 1) sb (unit '\\' :: e :: s) = parseChars fuel (sb ++ [char]) s := by
  rw [← simpleEscape_eq] at h
  rw [parseChars, if_neg (List.cons_ne_nil _ _)]
  simp only [charAt_cons, ok_bind, List.drop_succ_cons, List.drop_zero]
  rw [if_neg (by decide), if_neg (by decide), if_neg (List.cons_ne_nil _ _), h]

theorem parseChars_unescaped {c : CodeUnit} (h : csharpRules.unescaped c = true) (fuel : ℕ)
    (sb s : List CodeUnit) :
    parseChars (fuel + 1) sb (c :: s) = parseChars fuel (sb ++ [c]) s := by
  obtain ⟨hquote, hback⟩ := (unescaped_csharp c).mp h
  rw [parseChars, if_neg (List.cons_ne_nil _ _)]
  simp only [charAt_cons, ok_bind, List.drop_succ_cons, List.drop_zero]
  rw [if_neg hquote, if_pos hback]

/-- The parser reads every string of the grammar. -/
theorem parseChars_reads {s text rest : List CodeUnit} (h : Chars csharpRules s text rest)
    (fuel : ℕ) (sb : List CodeUnit) (hfuel : s.length < fuel) :
    parseChars fuel sb s = .ok (sb ++ text, rest) := by
  induction h generalizing fuel sb with
  | done =>
      obtain ⟨fuel, rfl⟩ : ∃ n, fuel = n + 1 := ⟨fuel - 1, by omega⟩
      rw [parseChars, if_neg (List.cons_ne_nil _ _), charAt_cons, ok_bind, if_pos rfl,
        List.append_nil]
      rfl
  | unescaped hrule _ ih =>
      obtain ⟨fuel, rfl⟩ : ∃ n, fuel = n + 1 := ⟨fuel - 1, by omega⟩
      rw [List.length_cons] at hfuel
      rw [parseChars_unescaped hrule, ih fuel _ (by omega), List.append_assoc]
      rfl
  | escaped hrule _ ih =>
      obtain ⟨fuel, rfl⟩ : ∃ n, fuel = n + 1 := ⟨fuel - 1, by omega⟩
      rw [List.length_cons, List.length_cons] at hfuel
      rw [parseChars_escaped hrule, ih fuel _ (by omega), List.append_assoc]
      rfl
  | unicode hlength hrule _ ih =>
      obtain ⟨fuel, rfl⟩ : ∃ n, fuel = n + 1 := ⟨fuel - 1, by omega⟩
      rw [List.length_cons, List.length_cons, List.length_append] at hfuel
      obtain ⟨code, hcode, rfl⟩ := convert_of_unicode hrule
      rw [parseChars_unicode hlength, hcode, ok_bind, ih fuel _ (by omega), List.append_assoc]
      rfl

/-- The parser stops at an escape with a minus sign. -/
theorem parseChars_signed {s : List CodeUnit} (h : SignedChars s) (fuel : ℕ) (sb : List CodeUnit)
    (hfuel : s.length < fuel) : ∃ message, parseChars fuel sb s = .error (.argument message) := by
  induction h generalizing fuel sb with
  | here hlength =>
      obtain ⟨fuel, rfl⟩ : ∃ n, fuel = n + 1 := ⟨fuel - 1, by omega⟩
      rw [← List.cons_append, parseChars_unicode (by rw [List.length_cons, hlength])]
      exact ⟨_, rfl⟩
  | unescaped hrule _ ih =>
      obtain ⟨fuel, rfl⟩ : ∃ n, fuel = n + 1 := ⟨fuel - 1, by omega⟩
      rw [List.length_cons] at hfuel
      rw [parseChars_unescaped hrule]
      exact ih fuel _ (by omega)
  | escaped hrule _ ih =>
      obtain ⟨fuel, rfl⟩ : ∃ n, fuel = n + 1 := ⟨fuel - 1, by omega⟩
      rw [List.length_cons, List.length_cons] at hfuel
      rw [parseChars_escaped hrule]
      exact ih fuel _ (by omega)
  | unicode hlength hrule _ ih =>
      obtain ⟨fuel, rfl⟩ : ∃ n, fuel = n + 1 := ⟨fuel - 1, by omega⟩
      rw [List.length_cons, List.length_cons, List.length_append] at hfuel
      obtain ⟨code, hcode, rfl⟩ := convert_of_unicode hrule
      rw [parseChars_unicode hlength, hcode, ok_bind]
      exact ih fuel _ (by omega)

/-! ## White space before what is read -/

theorem skipWs_eq (s : List CodeUnit) : skipWs s = s.dropWhile isWs := rfl

theorem ws_skipWs (s : List CodeUnit) : Ws s (skipWs s) := ws_dropWhile s

theorem skipWs_of_ws {s rest : List CodeUnit} {c : CodeUnit} (h : Ws s (c :: rest))
    (hc : isWs c = false) : skipWs s = c :: rest :=
  h.dropWhile_eq fun d hd => by
    rw [List.head?_cons, Option.mem_some_iff] at hd
    rw [← hd, hc]

/-- White space up to what the parser peeks at. -/
theorem ws_peek {s : List CodeUnit} {c : CodeUnit} (hc : c ≠ 0) (h : peek (skipWs s) = c) :
    Ws s (c :: (skipWs s).drop 1) := by
  have hws := ws_skipWs s
  rwa [peek_eq hc h] at hws

theorem SignedElements.ws {s t : List CodeUnit} (h : Ws s t) (ht : SignedElements t) :
    SignedElements s := by
  cases ht with
  | here hbefore hvalue => exact .here (h.trans hbefore) hvalue
  | later hitem hitems => exact .later (Element.ws h hitem) hitems

theorem SignedMembers.ws {s t : List CodeUnit} (h : Ws s t) (ht : SignedMembers t) :
    SignedMembers s := by
  cases ht with
  | name hbefore hname => exact .name (h.trans hbefore) hname
  | value hbefore hname hcolon hws hvalue => exact .value (h.trans hbefore) hname hcolon hws hvalue
  | later hmember hmembers => exact .later (Member.ws h hmember) hmembers

/-! ## What the parser takes is in the grammar -/

section
variable (length fuel : ℕ)

def ValueEnds : Prop :=
  ∀ s, 2 * s.length + 1 ≤ fuel →
    Ends (fun r => ∃ begun tree, Ws s begun ∧ Value csharpRules begun tree r.2 ∧ r.1 = nodeOf tree)
      (Fails (SignedEscape s)) (parseValue length fuel s)

def ElementsEnd : Prop :=
  ∀ list s, 2 * s.length + 2 ≤ fuel →
    Ends (fun r => ∃ items, Elements csharpRules s items r.2 ∧ r.1 = .arr (list ++ nodesOf items))
      (Fails (SignedElements s)) (parseElements length fuel list s)

def MembersEnd : Prop :=
  ∀ obj s, 2 * s.length + 2 ≤ fuel →
    Ends (fun r => ∃ members, Members csharpRules s members r.2 ∧ r.1 = .obj (entriesOf obj members))
      (Fails (SignedMembers s)) (parseMembers length fuel obj s)

end

section
variable {length fuel : ℕ}

theorem expect_ends (token : String) (s : List CodeUnit) :
    Ends (fun rest => s = units token ++ rest) (Fails False) (expect token s) := by
  unfold expect
  dsimp only
  by_cases hshort : s.length < (units token).length
  · rw [if_pos hshort]
    trivial
  · have hsub : substring s (units token).length = .ok (s.take (units token).length) :=
      if_pos (by omega)
    rw [if_neg hshort, hsub, ok_bind]
    by_cases htoken : s.take (units token).length = units token
    · rw [if_neg (not_not.mpr htoken)]
      calc s = s.take (units token).length ++ s.drop (units token).length :=
            (List.take_append_drop _ s).symm
        _ = units token ++ s.drop (units token).length := by rw [htoken]
    · rw [if_pos htoken]
      trivial

theorem expect_append (token : String) (rest : List CodeUnit) :
    expect token (units token ++ rest) = .ok rest := by
  unfold expect
  dsimp only
  have hsub : substring (units token ++ rest) (units token).length = .ok (units token) := by
    unfold substring
    rw [if_pos (by simp), List.take_left]
  rw [if_neg (by simp), hsub, ok_bind, if_neg (by simp), List.drop_left]
  rfl

theorem parseArray_ends (he : ElementsEnd length fuel) {s : List CodeUnit}
    (h : 2 * s.length + 2 ≤ fuel) :
    Ends (fun r => ∃ items, Value csharpRules (unit '[' :: s) (.array items) r.2 ∧
        r.1 = nodeOf (.array items))
      (Fails (SignedValue (unit '[' :: s)))
      (parseArray (parseElements length fuel) (unit '[' :: s)) := by
  have hws := ws_skipWs s
  have hle := hws.length_le
  unfold parseArray
  simp only [List.drop_succ_cons, List.drop_zero]
  by_cases hend : peek (skipWs s) = unit ']'
  · rw [if_pos hend]
    exact ⟨[], .emptyArray (ws_peek (by decide) hend), rfl⟩
  · rw [if_neg hend]
    refine (he [] (skipWs s) (by omega)).mono ?_ (Fails.mono fun hs => .array (hs.ws hws))
    rintro ⟨node, rest⟩ ⟨items, hitems, hnode⟩
    exact ⟨items, .array (Elements.ws hws hitems), hnode⟩

theorem parseObject_ends (hm : MembersEnd length fuel) {s : List CodeUnit}
    (h : 2 * s.length + 2 ≤ fuel) :
    Ends (fun r => ∃ members, Value csharpRules (unit '\x7b' :: s) (.object members) r.2 ∧
        r.1 = nodeOf (.object members))
      (Fails (SignedValue (unit '\x7b' :: s)))
      (parseObject (parseMembers length fuel) (unit '\x7b' :: s)) := by
  have hws := ws_skipWs s
  have hle := hws.length_le
  unfold parseObject
  simp only [List.drop_succ_cons, List.drop_zero]
  by_cases hend : peek (skipWs s) = unit '\x7d'
  · rw [if_pos hend]
    exact ⟨[], .emptyObject (ws_peek (by decide) hend), rfl⟩
  · rw [if_neg hend]
    refine (hm [] (skipWs s) (by omega)).mono ?_ (Fails.mono fun hs => .object (hs.ws hws))
    rintro ⟨node, rest⟩ ⟨members, hmembers, hnode⟩
    exact ⟨members, .object (Members.ws hws hmembers), hnode⟩

theorem valueEnds_succ (he : ElementsEnd length fuel) (hm : MembersEnd length fuel) :
    ValueEnds length (fuel + 1) := by
  intro s hfuel
  have hws := ws_skipWs s
  have hle := hws.length_le
  -- What is read from the first character on is read after the white space.
  have hread : ∀ {x : Except Failure (JsonNode × List CodeUnit)} {begun : List CodeUnit},
      skipWs s = begun →
      Ends (fun r => ∃ tree, Value csharpRules begun tree r.2 ∧ r.1 = nodeOf tree)
        (Fails (SignedValue begun)) x →
      Ends (fun r => ∃ begun tree, Ws s begun ∧ Value csharpRules begun tree r.2 ∧
        r.1 = nodeOf tree) (Fails (SignedEscape s)) x := by
    intro x begun hbegun hx
    rw [hbegun] at hws
    refine hx.mono ?_ (Fails.mono fun hs => ⟨begun, hws, hs⟩)
    rintro ⟨node, rest⟩ ⟨tree, htree, hnode⟩
    exact ⟨begun, tree, hws, htree, hnode⟩
  rw [parseValue]
  dsimp only
  cases hbegun : skipWs s with
  | nil => trivial
  | cons c begun =>
      rw [hbegun, List.length_cons] at hle
      rw [if_neg (List.cons_ne_nil c begun), charAt_cons, ok_bind]
      apply hread hbegun
      by_cases hobject : c = unit '\x7b'
      · rw [if_pos hobject, hobject]
        refine (parseObject_ends hm (by omega)).mono ?_ fun _ => id
        rintro ⟨node, rest⟩ ⟨members, hvalue, hnode⟩
        exact ⟨_, hvalue, hnode⟩
      rw [if_neg hobject]
      by_cases harray : c = unit '['
      · rw [if_pos harray, harray]
        refine (parseArray_ends he (by omega)).mono ?_ fun _ => id
        rintro ⟨node, rest⟩ ⟨items, hvalue, hnode⟩
        exact ⟨_, hvalue, hnode⟩
      rw [if_neg harray]
      by_cases hstring : c = unit '"'
      · rw [if_pos hstring, hstring]
        refine Ends.bind ((parseChars_ends fuel [] begun (by omega)).mono (fun _ => id)
          (Fails.mono .string)) ?_
        rintro ⟨read, rest⟩ ⟨text, htext, hread⟩
        refine ⟨.string text, .string htext, ?_⟩
        dsimp only at hread ⊢
        rw [hread, List.nil_append, nodeOf]
      rw [if_neg hstring]
      by_cases htrue : c = unit 't'
      · rw [if_pos htrue]
        refine Ends.bind ((expect_ends "true" (c :: begun)).mono (fun _ => id)
          (Fails.mono False.elim)) fun rest hrest => ?_
        rw [hrest]
        exact ⟨.bool true, .true, rfl⟩
      rw [if_neg htrue]
      by_cases hfalse : c = unit 'f'
      · rw [if_pos hfalse]
        refine Ends.bind ((expect_ends "false" (c :: begun)).mono (fun _ => id)
          (Fails.mono False.elim)) fun rest hrest => ?_
        rw [hrest]
        exact ⟨.bool false, .false, rfl⟩
      rw [if_neg hfalse]
      by_cases hnull : c = unit 'n'
      · rw [if_pos hnull]
        refine Ends.bind ((expect_ends "null" (c :: begun)).mono (fun _ => id)
          (Fails.mono False.elim)) fun rest hrest => ?_
        rw [hrest]
        exact ⟨.null, .null, rfl⟩
      rw [if_neg hnull]
      by_cases hnumber : c = unit '-' ∨ unit '0' ≤ c ∧ c ≤ unit '9'
      · rw [if_pos hnumber]
        refine (parseNumber_ends (c :: begun)).mono ?_ (Fails.mono False.elim)
        rintro ⟨node, rest⟩ ⟨text, htext, hsplit, hnode⟩
        rw [hsplit]
        exact ⟨.number text, .number htext, hnode⟩
      · rw [if_neg hnumber]
        trivial

theorem elementsEnd_succ (hv : ValueEnds length fuel) (he : ElementsEnd length fuel) :
    ElementsEnd length (fuel + 1) := by
  intro list s hfuel
  rw [parseElements]
  refine Ends.bind ((hv s (by omega)).mono (fun _ => id)
    (Fails.mono fun ⟨begun, hws, hvalue⟩ => .here hws hvalue)) ?_
  rintro ⟨node, ended⟩ ⟨begun, tree, hws, hvalue, hnode⟩
  have hle := hws.length_le
  have hlt := hvalue.length_lt
  have hle' := (ws_skipWs ended).length_le
  dsimp only at hvalue hnode hlt ⊢
  subst hnode
  by_cases hcomma : peek (skipWs ended) = unit ','
  · have hitem : Element csharpRules s tree (unit ',' :: (skipWs ended).drop 1) :=
      .mk hws hvalue (ws_peek (by decide) hcomma)
    have hdrop : ((skipWs ended).drop 1).length ≤ (skipWs ended).length := by simp
    rw [if_pos hcomma]
    refine (he _ _ (by omega)).mono ?_ (Fails.mono (.later hitem))
    rintro ⟨nodes, rest⟩ ⟨items, hitems, hnodes⟩
    refine ⟨tree :: items, .more hitem hitems, ?_⟩
    dsimp only at hnodes ⊢
    rw [hnodes, nodesOf, List.append_assoc]
    rfl
  · rw [if_neg hcomma]
    by_cases hend : peek (skipWs ended) = unit ']'
    · rw [if_pos hend]
      exact ⟨[tree], .last (.mk hws hvalue (ws_peek (by decide) hend)), rfl⟩
    · rw [if_neg hend]
      trivial

theorem membersEnd_succ (hv : ValueEnds length fuel) (hm : MembersEnd length fuel) :
    MembersEnd length (fuel + 1) := by
  intro obj s hfuel
  rw [parseMembers]
  dsimp only
  have hle := (ws_skipWs s).length_le
  by_cases hquote : peek (skipWs s) = unit '"'
  · have hbefore := ws_peek (by decide) hquote
    have hdrop : ((skipWs s).drop 1).length < (skipWs s).length := by
      rw [peek_eq (by decide) hquote]
      simp
    rw [if_neg (not_not.mpr hquote)]
    refine Ends.bind ((parseChars_ends fuel [] _ (by omega)).mono (fun _ => id)
      (Fails.mono (.name hbefore))) ?_
    rintro ⟨read, named⟩ ⟨name, hname, hread⟩
    have hlt := hname.length_lt
    have hle' := (ws_skipWs named).length_le
    dsimp only at hread hlt ⊢
    rw [List.nil_append] at hread
    subst hread
    by_cases hcolon : peek (skipWs named) = unit ':'
    · have hnamed := ws_peek (by decide) hcolon
      have hdrop' : ((skipWs named).drop 1).length ≤ (skipWs named).length := by simp
      rw [if_neg (not_not.mpr hcolon)]
      refine Ends.bind ((hv _ (by omega)).mono (fun _ => id)
        (Fails.mono fun ⟨begun, hws, hvalue⟩ => .value hbefore hname hnamed hws hvalue)) ?_
      rintro ⟨node, ended⟩ ⟨begun, tree, hws, hvalue, hnode⟩
      have hle2 := hws.length_le
      have hlt2 := hvalue.length_lt
      have hle3 := (ws_skipWs ended).length_le
      have hdrop2 : ((skipWs ended).drop 1).length ≤ (skipWs ended).length := by simp
      dsimp only at hvalue hnode hlt2 ⊢
      subst hnode
      by_cases hcomma : peek (skipWs ended) = unit ','
      · have hmember : Member csharpRules s read tree (unit ',' :: (skipWs ended).drop 1) :=
          .mk hbefore hname hnamed (.mk hws hvalue (ws_peek (by decide) hcomma))
        rw [if_pos hcomma]
        refine (hm _ _ (by omega)).mono ?_ (Fails.mono (.later hmember))
        rintro ⟨nodes, rest⟩ ⟨members, hmembers, hnodes⟩
        exact ⟨(read, tree) :: members, .more hmember hmembers, hnodes⟩
      · rw [if_neg hcomma]
        by_cases hend : peek (skipWs ended) = unit '\x7d'
        · rw [if_pos hend]
          exact ⟨[(read, tree)], .last (.mk hbefore hname hnamed
            (.mk hws hvalue (ws_peek (by decide) hend))), rfl⟩
        · rw [if_neg hend]
          trivial
    · rw [if_pos hcolon]
      trivial
  · rw [if_pos hquote]
    trivial

theorem all_end (length fuel : ℕ) :
    ValueEnds length fuel ∧ ElementsEnd length fuel ∧ MembersEnd length fuel := by
  induction fuel with
  | zero => exact ⟨fun s h => by omega, fun list s h => by omega, fun obj s h => by omega⟩
  | succ fuel ih =>
      obtain ⟨hv, he, hm⟩ := ih
      exact ⟨valueEnds_succ he hm, elementsEnd_succ hv he, membersEnd_succ hv hm⟩

end

/-! ## The parser takes what is in the grammar -/

section
variable (length fuel : ℕ)

def ValueReads : Prop :=
  ∀ s begun tree rest, 2 * s.length + 1 ≤ fuel → Ws s begun → Value csharpRules begun tree rest →
    Stops rest → parseValue length fuel s = .ok (nodeOf tree, rest)

def ElementsRead : Prop :=
  ∀ list s items rest, 2 * s.length + 2 ≤ fuel → Elements csharpRules s items rest →
    parseElements length fuel list s = .ok (.arr (list ++ nodesOf items), rest)

def MembersRead : Prop :=
  ∀ obj s members rest, 2 * s.length + 2 ≤ fuel → Members csharpRules s members rest →
    parseMembers length fuel obj s = .ok (.obj (entriesOf obj members), rest)

end

/-- White space, and what stands around an element, stops a number. -/
theorem stops_of_ws {s rest : List CodeUnit} (h : Ws s rest) (hrest : Stops rest) : Stops s := by
  obtain ⟨space, hspace, rfl⟩ := h
  cases space with
  | nil => exact hrest
  | cons c space =>
      intro d hd
      have hdc : d = c := by simpa [eq_comm] using hd
      have hws := hspace c List.mem_cons_self
      rw [← hdc] at hws
      unfold isWs at hws
      simp only [Bool.or_eq_true, decide_eq_true_eq] at hws
      obtain ((rfl | rfl) | rfl) | rfl := hws
      · decide
      · decide
      · decide
      · decide

theorem stops_cons {c : CodeUnit} (rest : List CodeUnit)
    (hc : isDigit c = false ∧ c ≠ unit '.' ∧ c ≠ unit 'e' ∧ c ≠ unit 'E') : Stops (c :: rest) := by
  intro d hd
  have hdc : d = c := by simpa [eq_comm] using hd
  rw [hdc]
  exact hc

section
variable {length fuel : ℕ}

/-- The parser dispatches on the first character after the white space. -/
theorem parseValue_of_ws {s begun : List CodeUnit} {c : CodeUnit} (h : Ws s (c :: begun))
    (hc : isWs c = false) :
    parseValue length (fuel + 1) s =
      if c = unit '\x7b' then parseObject (parseMembers length fuel) (c :: begun)
      else if c = unit '[' then parseArray (parseElements length fuel) (c :: begun)
      else if c = unit '"' then do
        let (text, s) ← parseString fuel (c :: begun)
        pure (.str text, s)
      else if c = unit 't' then do
        let s ← expect "true" (c :: begun)
        pure (.bool true, s)
      else if c = unit 'f' then do
        let s ← expect "false" (c :: begun)
        pure (.bool false, s)
      else if c = unit 'n' then do
        let s ← expect "null" (c :: begun)
        pure (.null, s)
      else if c = unit '-' ∨ unit '0' ≤ c ∧ c ≤ unit '9' then parseNumber (c :: begun)
      else .error (.format ("unexpected JSON at " ++ toString (length - (c :: begun).length))) := by
  rw [parseValue]
  dsimp only
  rw [skipWs_of_ws h hc, if_neg (List.cons_ne_nil c begun), charAt_cons, ok_bind]

theorem parseArray_of_ws {after more : List CodeUnit} {c : CodeUnit} (h : Ws after (c :: more))
    (hc : isWs c = false) (hne : c ≠ unit ']') :
    parseArray (parseElements length fuel) (unit '[' :: after) =
      parseElements length fuel [] (c :: more) := by
  unfold parseArray
  simp only [List.drop_succ_cons, List.drop_zero]
  rw [skipWs_of_ws h hc, peek_cons, if_neg hne]

theorem parseObject_of_ws {after more : List CodeUnit} (h : Ws after (unit '"' :: more)) :
    parseObject (parseMembers length fuel) (unit '\x7b' :: after) =
      parseMembers length fuel [] (unit '"' :: more) := by
  unfold parseObject
  simp only [List.drop_succ_cons, List.drop_zero]
  rw [skipWs_of_ws h (by decide), peek_cons, if_neg (by decide)]

theorem valueReads_succ (he : ElementsRead length fuel) (hm : MembersRead length fuel) :
    ValueReads length (fuel + 1) := by
  intro s begun tree rest hfuel hws hvalue hstops
  have hle := hws.length_le
  cases hvalue with
  | null =>
      have hbegun : units "null" ++ rest = unit 'n' :: (units "ull" ++ rest) := rfl
      rw [hbegun] at hws
      rw [parseValue_of_ws hws (by decide), if_neg (by decide), if_neg (by decide),
        if_neg (by decide), if_neg (by decide), if_neg (by decide), if_pos rfl, ← hbegun,
        expect_append]
      rfl
  | true =>
      have hbegun : units "true" ++ rest = unit 't' :: (units "rue" ++ rest) := rfl
      rw [hbegun] at hws
      rw [parseValue_of_ws hws (by decide), if_neg (by decide), if_neg (by decide),
        if_neg (by decide), if_pos rfl, ← hbegun, expect_append]
      rfl
  | false =>
      have hbegun : units "false" ++ rest = unit 'f' :: (units "alse" ++ rest) := rfl
      rw [hbegun] at hws
      rw [parseValue_of_ws hws (by decide), if_neg (by decide), if_neg (by decide),
        if_neg (by decide), if_neg (by decide), if_pos rfl, ← hbegun, expect_append]
      rfl
  | @number text _ hnumber =>
      obtain ⟨c, more, htext, hc⟩ := number_head hnumber rest
      have hne : ∀ d, isDigit d = Bool.false → unit '-' ≠ d → c ≠ d := by
        intro d hd hminus
        cases hc with
        | inl hsign => rw [hsign]; exact hminus
        | inr hdigit => exact ne_of_isDigit hdigit hd
      have hrange : c = unit '-' ∨ unit '0' ≤ c ∧ c ≤ unit '9' := by
        cases hc with
        | inl hsign => exact Or.inl hsign
        | inr hdigit =>
            right
            unfold isDigit at hdigit
            simpa using hdigit
      have hspace : isWs c = Bool.false := by
        unfold isWs
        simp [hne (unit ' ') (by decide) (by decide), hne (unit '\n') (by decide) (by decide),
          hne (unit '\r') (by decide) (by decide), hne (unit '\t') (by decide) (by decide)]
      rw [htext] at hws
      rw [parseValue_of_ws hws hspace, if_neg (hne _ (by decide) (by decide)),
        if_neg (hne _ (by decide) (by decide)), if_neg (hne _ (by decide) (by decide)),
        if_neg (hne _ (by decide) (by decide)), if_neg (hne _ (by decide) (by decide)),
        if_neg (hne _ (by decide) (by decide)), if_pos hrange, ← htext]
      exact parseNumber_append hnumber hstops
  | string hchars =>
      rw [List.length_cons] at hle
      rw [parseValue_of_ws hws (by decide), if_neg (by decide), if_neg (by decide), if_pos rfl]
      unfold parseString
      simp only [List.drop_succ_cons, List.drop_zero]
      rw [parseChars_reads hchars fuel [] (by omega)]
      rfl
  | emptyArray hend =>
      rw [parseValue_of_ws hws (by decide), if_neg (by decide), if_pos rfl]
      unfold parseArray
      simp only [List.drop_succ_cons, List.drop_zero]
      rw [skipWs_of_ws hend (by decide), peek_cons, if_pos rfl]
      rfl
  | array hitems =>
      obtain ⟨c, more, hmore, hc, hne, hitems⟩ := hitems.begun
      have hle' := hmore.length_le
      rw [List.length_cons] at hle
      rw [parseValue_of_ws hws (by decide), if_neg (by decide), if_pos rfl,
        parseArray_of_ws hmore hc hne, he [] _ _ rest (by omega) hitems]
      rfl
  | emptyObject hend =>
      rw [parseValue_of_ws hws (by decide), if_pos rfl]
      unfold parseObject
      simp only [List.drop_succ_cons, List.drop_zero]
      rw [skipWs_of_ws hend (by decide), peek_cons, if_pos rfl]
      rfl
  | object hmembers =>
      obtain ⟨more, hmore, hmembers⟩ := hmembers.begun
      have hle' := hmore.length_le
      rw [List.length_cons] at hle
      rw [parseValue_of_ws hws (by decide), if_pos rfl, parseObject_of_ws hmore,
        hm [] _ _ rest (by omega) hmembers]
      rfl

/-- The parser reads an element up to what follows it. -/
theorem parseValue_of_element (hv : ValueReads length fuel) {s : List CodeUnit} {tree : Tree}
    {c : CodeUnit} {rest : List CodeUnit} (hfuel : 2 * s.length + 1 ≤ fuel)
    (h : Element csharpRules s tree (c :: rest)) (hc : isWs c = false)
    (hstop : isDigit c = false ∧ c ≠ unit '.' ∧ c ≠ unit 'e' ∧ c ≠ unit 'E') :
    ∃ ended, parseValue length fuel s = .ok (nodeOf tree, ended) ∧ skipWs ended = c :: rest := by
  cases h with
  | mk hbefore hvalue hafter =>
      exact ⟨_, hv _ _ _ _ hfuel hbefore hvalue (stops_of_ws hafter (stops_cons rest hstop)),
        skipWs_of_ws hafter hc⟩

theorem elementsRead_succ (hv : ValueReads length fuel) (he : ElementsRead length fuel) :
    ElementsRead length (fuel + 1) := by
  intro list s items rest hfuel hitems
  rw [parseElements]
  cases hitems with
  | last hitem =>
      obtain ⟨ended, hparse, hskip⟩ :=
        parseValue_of_element hv (by omega) hitem (by decide) (by decide)
      rw [hparse, ok_bind]
      dsimp only
      rw [hskip, peek_cons, if_neg (by decide), if_pos rfl]
      rfl
  | more hitem hitems =>
      have hlt := hitem.length_lt
      rw [List.length_cons] at hlt
      obtain ⟨ended, hparse, hskip⟩ :=
        parseValue_of_element hv (by omega) hitem (by decide) (by decide)
      rw [hparse, ok_bind]
      dsimp only
      rw [hskip, peek_cons, if_pos rfl]
      simp only [List.drop_succ_cons, List.drop_zero]
      rw [he _ _ _ rest (by omega) hitems, nodesOf, List.append_assoc]
      rfl

/-- The parser reads a name up to the colon, then the value. -/
theorem parseMembers_of_member (hv : ValueReads length fuel)
    {obj : List (List CodeUnit × JsonNode)} {s name : List CodeUnit} {tree : Tree} {c : CodeUnit}
    {rest : List CodeUnit} (hfuel : 2 * s.length + 2 ≤ fuel + 1)
    (h : Member csharpRules s name tree (c :: rest)) (hc : isWs c = false)
    (hstop : isDigit c = false ∧ c ≠ unit '.' ∧ c ≠ unit 'e' ∧ c ≠ unit 'E') :
    parseMembers length (fuel + 1) obj s =
      if c = unit ',' then parseMembers length fuel (Table.putEntry name (nodeOf tree) obj) rest
      else if c = unit '\x7d' then .ok (.obj (Table.putEntry name (nodeOf tree) obj), rest)
      else .error (.format "expected comma or end of object") := by
  cases h with
  | mk hbefore hname hcolon hitem =>
      have hle := hbefore.length_le
      have hlt := hname.length_lt
      have hle' := hcolon.length_le
      rw [List.length_cons] at hle hle'
      obtain ⟨ended, hparse, hskip⟩ := parseValue_of_element hv (by omega) hitem hc hstop
      rw [parseMembers]
      dsimp only
      rw [skipWs_of_ws hbefore (by decide), peek_cons, if_neg (by decide)]
      unfold parseString
      simp only [List.drop_succ_cons, List.drop_zero]
      rw [parseChars_reads hname fuel [] (by omega), ok_bind]
      dsimp only
      rw [skipWs_of_ws hcolon (by decide), peek_cons, if_neg (by decide)]
      simp only [List.drop_succ_cons, List.drop_zero]
      rw [hparse, ok_bind]
      dsimp only
      rw [hskip, peek_cons, List.nil_append]
      rfl

theorem membersRead_succ (hv : ValueReads length fuel) (hm : MembersRead length fuel) :
    MembersRead length (fuel + 1) := by
  intro obj s members rest hfuel hmembers
  cases hmembers with
  | last hmember =>
      rw [parseMembers_of_member hv (by omega) hmember (by decide) (by decide),
        if_neg (by decide), if_pos rfl]
      rfl
  | more hmember hmembers =>
      have hlt := hmember.length_lt
      rw [List.length_cons] at hlt
      rw [parseMembers_of_member hv (by omega) hmember (by decide) (by decide), if_pos rfl,
        hm _ _ _ rest (by omega) hmembers]
      rfl

theorem all_read (length fuel : ℕ) :
    ValueReads length fuel ∧ ElementsRead length fuel ∧ MembersRead length fuel := by
  induction fuel with
  | zero =>
      exact ⟨fun s _ _ _ h => by omega, fun _ s _ _ h => by omega, fun _ s _ _ h => by omega⟩
  | succ fuel ih =>
      obtain ⟨hv, he, hm⟩ := ih
      exact ⟨valueReads_succ he hm, elementsRead_succ hv he, membersRead_succ hv hm⟩

end

/-! ## The parser stops at an escape with a minus sign -/

section
variable (length fuel : ℕ)

def ValueSigned : Prop :=
  ∀ s begun, 2 * s.length + 1 ≤ fuel → Ws s begun → SignedValue begun →
    ∃ message, parseValue length fuel s = .error (.argument message)

def ElementsSigned : Prop :=
  ∀ list s, 2 * s.length + 2 ≤ fuel → SignedElements s →
    ∃ message, parseElements length fuel list s = .error (.argument message)

def MembersSigned : Prop :=
  ∀ obj s, 2 * s.length + 2 ≤ fuel → SignedMembers s →
    ∃ message, parseMembers length fuel obj s = .error (.argument message)

end

theorem SignedValue.head {s : List CodeUnit} (h : SignedValue s) :
    ∃ c more, s = c :: more ∧ isWs c = false ∧ c ≠ unit ']' := by
  cases h with
  | string _ => exact ⟨unit '"', _, rfl, by decide, by decide⟩
  | array _ => exact ⟨unit '[', _, rfl, by decide, by decide⟩
  | object _ => exact ⟨unit '\x7b', _, rfl, by decide, by decide⟩

theorem SignedElements.begun {s : List CodeUnit} (h : SignedElements s) :
    ∃ c more, Ws s (c :: more) ∧ isWs c = false ∧ c ≠ unit ']' ∧ SignedElements (c :: more) := by
  cases h with
  | here hbefore hvalue =>
      obtain ⟨c, more, rfl, hc⟩ := hvalue.head
      exact ⟨c, more, hbefore, hc.1, hc.2, .here (.refl _) hvalue⟩
  | later hitem hitems =>
      cases hitem with
      | mk hbefore hvalue hafter =>
          obtain ⟨c, more, rfl, hc⟩ := hvalue.head
          exact ⟨c, more, hbefore, hc.1, hc.2, .later (.mk (.refl _) hvalue hafter) hitems⟩

theorem SignedMembers.begun {s : List CodeUnit} (h : SignedMembers s) :
    ∃ more, Ws s (unit '"' :: more) ∧ SignedMembers (unit '"' :: more) := by
  cases h with
  | name hbefore hname => exact ⟨_, hbefore, .name (.refl _) hname⟩
  | value hbefore hname hcolon hws hvalue =>
      exact ⟨_, hbefore, .value (.refl _) hname hcolon hws hvalue⟩
  | later hmember hmembers =>
      cases hmember with
      | mk hbefore hname hcolon hitem =>
          exact ⟨_, hbefore, .later (.mk (.refl _) hname hcolon hitem) hmembers⟩

section
variable {length fuel : ℕ}

theorem valueSigned_succ (he : ElementsSigned length fuel) (hm : MembersSigned length fuel) :
    ValueSigned length (fuel + 1) := by
  intro s begun hfuel hws hvalue
  have hle := hws.length_le
  cases hvalue with
  | string hchars =>
      rw [List.length_cons] at hle
      obtain ⟨message, hstop⟩ := parseChars_signed hchars fuel [] (by omega)
      rw [parseValue_of_ws hws (by decide), if_neg (by decide), if_neg (by decide), if_pos rfl]
      unfold parseString
      simp only [List.drop_succ_cons, List.drop_zero]
      rw [hstop]
      exact ⟨message, rfl⟩
  | array hitems =>
      obtain ⟨c, more, hmore, hc, hne, hitems⟩ := hitems.begun
      have hle' := hmore.length_le
      rw [List.length_cons] at hle
      rw [parseValue_of_ws hws (by decide), if_neg (by decide), if_pos rfl,
        parseArray_of_ws hmore hc hne]
      exact he [] _ (by omega) hitems
  | object hmembers =>
      obtain ⟨more, hmore, hmembers⟩ := hmembers.begun
      have hle' := hmore.length_le
      rw [List.length_cons] at hle
      rw [parseValue_of_ws hws (by decide), if_pos rfl, parseObject_of_ws hmore]
      exact hm [] _ (by omega) hmembers

theorem elementsSigned_succ (hr : ValueReads length fuel) (hv : ValueSigned length fuel)
    (he : ElementsSigned length fuel) : ElementsSigned length (fuel + 1) := by
  intro list s hfuel hitems
  rw [parseElements]
  cases hitems with
  | here hbefore hvalue =>
      obtain ⟨message, hstop⟩ := hv _ _ (by omega) hbefore hvalue
      rw [hstop]
      exact ⟨message, rfl⟩
  | later hitem hitems =>
      have hlt := hitem.length_lt
      rw [List.length_cons] at hlt
      obtain ⟨ended, hparse, hskip⟩ :=
        parseValue_of_element hr (by omega) hitem (by decide) (by decide)
      rw [hparse, ok_bind]
      dsimp only
      rw [hskip, peek_cons, if_pos rfl]
      exact he _ _ (by simp only [List.drop_succ_cons, List.drop_zero]; omega) hitems

theorem membersSigned_succ (hr : ValueReads length fuel) (hv : ValueSigned length fuel)
    (hm : MembersSigned length fuel) : MembersSigned length (fuel + 1) := by
  intro obj s hfuel hmembers
  cases hmembers with
  | name hbefore hname =>
      have hle := hbefore.length_le
      rw [List.length_cons] at hle
      obtain ⟨message, hstop⟩ := parseChars_signed hname fuel [] (by omega)
      rw [parseMembers]
      dsimp only
      rw [skipWs_of_ws hbefore (by decide), peek_cons, if_neg (by decide)]
      unfold parseString
      simp only [List.drop_succ_cons, List.drop_zero]
      rw [hstop]
      exact ⟨message, rfl⟩
  | value hbefore hname hcolon hws hvalue =>
      have hle := hbefore.length_le
      have hlt := hname.length_lt
      have hle' := hcolon.length_le
      rw [List.length_cons] at hle hle'
      obtain ⟨message, hstop⟩ := hv _ _ (by omega) hws hvalue
      rw [parseMembers]
      dsimp only
      rw [skipWs_of_ws hbefore (by decide), peek_cons, if_neg (by decide)]
      unfold parseString
      simp only [List.drop_succ_cons, List.drop_zero]
      rw [parseChars_reads hname fuel [] (by omega), ok_bind]
      dsimp only
      rw [skipWs_of_ws hcolon (by decide), peek_cons, if_neg (by decide)]
      simp only [List.drop_succ_cons, List.drop_zero]
      rw [hstop]
      exact ⟨message, rfl⟩
  | later hmember hmembers =>
      have hlt := hmember.length_lt
      rw [List.length_cons] at hlt
      rw [parseMembers_of_member hr (by omega) hmember (by decide) (by decide), if_pos rfl]
      exact hm _ _ (by omega) hmembers

theorem all_signed (length fuel : ℕ) :
    ValueSigned length fuel ∧ ElementsSigned length fuel ∧ MembersSigned length fuel := by
  induction fuel with
  | zero => exact ⟨fun s _ h => by omega, fun _ s h => by omega, fun _ s h => by omega⟩
  | succ fuel ih =>
      obtain ⟨hv, he, hm⟩ := ih
      have hr := (all_read length fuel).1
      exact ⟨valueSigned_succ he hm, elementsSigned_succ hr hv he, membersSigned_succ hr hv hm⟩

end

/-! ## Texts -/

/-- The node of a text of the parser's grammar. -/
theorem parse_of_text {s : List CodeUnit} {tree : Tree} (h : Text csharpRules s tree) :
    parse s = .ok (nodeOf tree) := by
  cases h with
  | @mk _ _ ended _ _ hbefore hvalue hafter =>
      have hstops : Stops ended := stops_of_ws hafter fun c hc => by cases hc
      have hskip : skipWs ended = [] := hafter.dropWhile_eq fun c hc => by cases hc
      unfold parse
      rw [(all_read s.length (2 * s.length + 2)).1 s _ tree ended (by omega) hbefore hvalue hstops,
        ok_bind]
      dsimp only
      rw [hskip]
      rfl

theorem parse_of_signed {s : List CodeUnit} (h : SignedEscape s) :
    ∃ message, parse s = .error (.argument message) := by
  obtain ⟨begun, hws, hvalue⟩ := h
  obtain ⟨message, hstop⟩ := (all_signed s.length (2 * s.length + 2)).1 s begun (by omega) hws hvalue
  unfold parse
  rw [hstop]
  exact ⟨message, rfl⟩

theorem parse_ends (s : List CodeUnit) :
    Ends (fun node => ∃ tree, Text csharpRules s tree ∧ node = nodeOf tree)
      (Fails (SignedEscape s)) (parse s) := by
  unfold parse
  refine Ends.bind ((all_end s.length (2 * s.length + 2)).1 s (by omega)) ?_
  rintro ⟨node, ended⟩ ⟨begun, tree, hws, hvalue, hnode⟩
  dsimp only at hvalue hnode ⊢
  by_cases htrailing : skipWs ended ≠ []
  · rw [if_pos htrailing]
    trivial
  · rw [if_neg htrailing]
    rw [not_not] at htrailing
    have hafter := ws_skipWs ended
    rw [htrailing] at hafter
    exact ⟨tree, .mk hws hvalue hafter, hnode⟩

/-- The parser returns a node for the texts of its grammar, and for no others. -/
theorem parse_isOk_iff (s : List CodeUnit) :
    (∃ node, parse s = .ok node) ↔ IsText csharpRules s := by
  constructor
  · rintro ⟨node, hnode⟩
    have h := parse_ends s
    rw [hnode] at h
    obtain ⟨tree, htree, _⟩ := h
    exact ⟨tree, htree⟩
  · rintro ⟨tree, htree⟩
    exact ⟨nodeOf tree, parse_of_text htree⟩

/-- The parser throws the other exception where it meets an escape with a minus
sign, and nowhere else. -/
theorem parse_argument_iff (s : List CodeUnit) :
    (∃ message, parse s = .error (.argument message)) ↔ SignedEscape s := by
  constructor
  · rintro ⟨message, hstop⟩
    have h := parse_ends s
    rw [hstop] at h
    exact h
  · exact parse_of_signed

/-! ## What the RFC allows, the parser reads -/

theorem hexDigit_ne {c d : CodeUnit} {n : ℕ} (h : JsonGrammar.hexDigit c = some n)
    (hd : JsonGrammar.hexDigit d = none) : c ≠ d := by
  intro heq
  rw [heq, hd] at h
  cases h

theorem hexDigits_cons {c : CodeUnit} {digits : List CodeUnit} {n m : ℕ}
    (h : hexDigits n (c :: digits) = some m) :
    ∃ d, JsonGrammar.hexDigit c = some d ∧ hexDigits (n * 16 + d) digits = some m :=
  Option.bind_eq_some_iff.mp h

/-- Four hexadecimal digits are read as they stand. -/
theorem convertToInt32_hex {digits : List CodeUnit} {n : ℕ} (hlength : digits.length = 4)
    (h : hexDigits 0 digits = some n) : convertToInt32 digits = .ok n := by
  cases digits with
  | nil => cases hlength
  | cons a digits =>
      cases digits with
      | nil => cases hlength
      | cons b digits =>
          obtain ⟨x, ha, hrest⟩ := hexDigits_cons h
          obtain ⟨y, hb, _⟩ := hexDigits_cons hrest
          have hminus : a ≠ unit '-' := hexDigit_ne ha (by decide)
          have hplus : a ≠ unit '+' := hexDigit_ne ha (by decide)
          have hlower : b ≠ unit 'x' := hexDigit_ne hb (by decide)
          have hupper : b ≠ unit 'X' := hexDigit_ne hb (by decide)
          have hskip : skipPrefix (a :: b :: digits) = a :: b :: digits := by
            simp [skipPrefix, hlower, hupper]
          rw [convertToInt32, charAt_cons, ok_bind, if_neg hminus, if_neg hplus]
          dsimp only
          rw [hskip, if_neg (List.cons_ne_nil _ _), h]

theorem csharp_allows : rfc8259.Allows csharpRules where
  unescaped c h := by
    rw [unescaped_csharp]
    simp only [rfc8259, Bool.and_eq_true, decide_eq_true_eq] at h
    exact ⟨h.1.2, h.2⟩
  unicode digits char h := by
    unfold rfc8259 at h
    dsimp only at h
    split_ifs at h with hlength
    obtain ⟨n, hn, rfl⟩ := Option.map_eq_some_iff.mp h
    exact unicode_csharp hlength (convertToInt32_hex hlength hn)

/-- A node for JSON, and a `FormatException` for everything else. -/
def ParsesJson (s : List CodeUnit) : Prop :=
  ((∃ node, parse s = .ok node) ↔ IsText rfc8259 s) ∧
    ∀ e, parse s = .error e → ∃ message, e = .format message

/-- The parser ends, and reads nothing past the end. It tells JSON from other
texts where the text is none that only its own rules for strings allow, and does
not go on to an escape with a minus sign. -/
theorem parsesJson_iff (s : List CodeUnit) :
    (ParsesJson s ↔ (IsText csharpRules s → IsText rfc8259 s) ∧ ¬ SignedEscape s) ∧
      parse s ≠ .error .outOfFuel ∧ parse s ≠ .error .outOfRange := by
  have hends := parse_ends s
  refine ⟨⟨fun ⟨hiff, hformat⟩ => ⟨fun htext => hiff.mp ((parse_isOk_iff s).mpr htext),
    fun hsigned => ?_⟩, fun ⟨hrfc, hsigned⟩ => ⟨⟨fun hok => hrfc ((parse_isOk_iff s).mp hok),
    fun htext => (parse_isOk_iff s).mpr (htext.mono csharp_allows)⟩, fun e he => ?_⟩⟩, ?_, ?_⟩
  · obtain ⟨message, hstop⟩ := parse_of_signed hsigned
    obtain ⟨other, hother⟩ := hformat _ hstop
    cases hother
  · rw [he] at hends
    cases e with
    | format message => exact ⟨message, rfl⟩
    | argument message => exact absurd hends hsigned
    | invalidOperation message => exact hends.elim
    | outOfRange => exact hends.elim
    | outOfFuel => exact hends.elim
  · intro hfuel
    rw [hfuel] at hends
    exact hends
  · intro hrange
    rw [hrange] at hends
    exact hends

/-- A string with a control character is no JSON, and the parser takes it; a minus
sign in an escape is another exception. -/
theorem parsesJson_control_character :
    ¬ ParsesJson [unit '"', 1, unit '"'] ∧ ¬ ParsesJson (units "\"\\u-000\"") := by
  constructor
  · intro h
    obtain ⟨tree, htree⟩ := h.1.mp ⟨.str [1], rfl⟩
    cases htree with
    | mk hbefore hvalue hafter =>
        obtain ⟨c, more, rfl, hc, _⟩ := hvalue.head
        have hbegun := hbefore.dropWhile_eq fun d hd => by
          rw [List.head?_cons, Option.mem_some_iff] at hd
          rw [← hd, hc]
        have hstart : [unit '"', 1, unit '"'] = c :: more := hbegun
        rw [← hstart] at hvalue
        obtain ⟨text, hchars⟩ := hvalue.chars_of_quote
        cases hchars with
        | unescaped hrule _ => exact absurd hrule (by decide)
  · intro h
    obtain ⟨message, hmessage⟩ := h.2 _ (rfl : parse (units "\"\\u-000\"") = .error _)
    cases hmessage

end Wardx.CSharpJson
