import Mathlib.Data.List.TakeWhile
import Mathlib.Tactic

/-!
# The grammar of JSON texts

RFC 8259 over the code units of UTF-16. Every nonterminal relates a list that
begins with one of its texts to what follows, and the value it stands for. White
space is that of the RFC; it stands around elements and names here instead of
around the structural characters, which gives the same texts.

What may stand in a string is a parameter, so that a parser that takes more there
has a grammar of its own. `rfc8259` is that of the RFC. A code unit that is half
of a surrogate pair is a character like any other to both.
-/
namespace Wardx.Lib.JsonGrammar

/-- A code unit of UTF-16. -/
abbrev CodeUnit := UInt16

def unit (c : Char) : CodeUnit := UInt16.ofNat c.toNat

def units (text : String) : List CodeUnit := text.toList.map unit

def isWs (c : CodeUnit) : Bool :=
  c = unit ' ' || c = unit '\n' || c = unit '\r' || c = unit '\t'

def isDigit (c : CodeUnit) : Bool := unit '0' ≤ c && c ≤ unit '9'

/-- The value of a hexadecimal digit. -/
def hexDigit (c : CodeUnit) : Option ℕ :=
  if unit '0' ≤ c ∧ c ≤ unit '9' then some (c.toNat - 48)
  else if unit 'a' ≤ c ∧ c ≤ unit 'f' then some (c.toNat - 87)
  else if unit 'A' ≤ c ∧ c ≤ unit 'F' then some (c.toNat - 55)
  else none

/-- The number of hexadecimal digits, read on from a number. -/
def hexDigits : ℕ → List CodeUnit → Option ℕ
  | n, [] => some n
  | n, c :: rest => (hexDigit c).bind fun d => hexDigits (n * 16 + d) rest

/-! ## Rules for strings -/

/-- What may stand for itself in a string, and what four units may follow `\u`. -/
structure Rules where
  unescaped : CodeUnit → Bool
  unicode : List CodeUnit → Option CodeUnit

/-- `unescaped` and `4HEXDIG` of the RFC. -/
def rfc8259 : Rules where
  unescaped c := 0x20 ≤ c && c ≠ unit '"' && c ≠ unit '\\'
  unicode digits := if digits.length = 4 then (hexDigits 0 digits).map UInt16.ofNat else none

/-- The character after a backslash, and the one it stands for. -/
def escaped (c : CodeUnit) : Option CodeUnit :=
  if c = unit '"' then some (unit '"')
  else if c = unit '\\' then some (unit '\\')
  else if c = unit '/' then some (unit '/')
  else if c = unit 'b' then some 0x8
  else if c = unit 'f' then some 0xc
  else if c = unit 'n' then some 0xa
  else if c = unit 'r' then some 0xd
  else if c = unit 't' then some 0x9
  else none

/-! ## Texts -/

/-- What a text says. -/
inductive Tree
  | null
  | bool (value : Bool)
  | number (text : List CodeUnit)
  | string (text : List CodeUnit)
  | array (items : List Tree)
  | object (members : List (List CodeUnit × Tree))

/-- `ws`. -/
def Ws (s rest : List CodeUnit) : Prop := ∃ space, (∀ c ∈ space, isWs c = true) ∧ s = space ++ rest

def Digits (text : List CodeUnit) : Prop := text ≠ [] ∧ ∀ c ∈ text, isDigit c = true

def IsInt (text : List CodeUnit) : Prop :=
  text = [unit '0'] ∨ Digits text ∧ text.head? ≠ some (unit '0')

def IsFrac (text : List CodeUnit) : Prop :=
  text = [] ∨ ∃ digits, Digits digits ∧ text = unit '.' :: digits

def IsExp (text : List CodeUnit) : Prop :=
  text = [] ∨ ∃ e sign digits, (e = unit 'e' ∨ e = unit 'E') ∧
    (sign = [] ∨ sign = [unit '+'] ∨ sign = [unit '-']) ∧ Digits digits ∧
      text = e :: (sign ++ digits)

/-- `number`. -/
def IsNumber (text : List CodeUnit) : Prop :=
  ∃ minus int frac exp, (minus = [] ∨ minus = [unit '-']) ∧ IsInt int ∧ IsFrac frac ∧ IsExp exp ∧
    text = minus ++ (int ++ (frac ++ exp))

/-- The characters of a string and its closing quotation mark. -/
inductive Chars (rules : Rules) : List CodeUnit → List CodeUnit → List CodeUnit → Prop
  | done {rest} : Chars rules (unit '"' :: rest) [] rest
  | unescaped {c s text rest} : rules.unescaped c = true → Chars rules s text rest →
      Chars rules (c :: s) (c :: text) rest
  | escaped {c char s text rest} : JsonGrammar.escaped c = some char → Chars rules s text rest →
      Chars rules (unit '\\' :: c :: s) (char :: text) rest
  | unicode {digits char s text rest} : digits.length = 4 → rules.unicode digits = some char →
      Chars rules s text rest →
      Chars rules (unit '\\' :: unit 'u' :: (digits ++ s)) (char :: text) rest

mutual

/-- `value`. -/
inductive Value (rules : Rules) : List CodeUnit → Tree → List CodeUnit → Prop
  | null {rest} : Value rules (units "null" ++ rest) .null rest
  | true {rest} : Value rules (units "true" ++ rest) (.bool true) rest
  | false {rest} : Value rules (units "false" ++ rest) (.bool false) rest
  | number {text rest} : IsNumber text → Value rules (text ++ rest) (.number text) rest
  | string {s text rest} : Chars rules s text rest →
      Value rules (unit '"' :: s) (.string text) rest
  | emptyArray {s rest} : Ws s (unit ']' :: rest) → Value rules (unit '[' :: s) (.array []) rest
  | array {s items rest} : Elements rules s items rest →
      Value rules (unit '[' :: s) (.array items) rest
  | emptyObject {s rest} : Ws s (unit '\x7d' :: rest) →
      Value rules (unit '\x7b' :: s) (.object []) rest
  | object {s members rest} : Members rules s members rest →
      Value rules (unit '\x7b' :: s) (.object members) rest

/-- A value between white space. -/
inductive Element (rules : Rules) : List CodeUnit → Tree → List CodeUnit → Prop
  | mk {s begun ended tree rest} : Ws s begun → Value rules begun tree ended → Ws ended rest →
      Element rules s tree rest

/-- The elements of an array and its closing bracket. -/
inductive Elements (rules : Rules) : List CodeUnit → List Tree → List CodeUnit → Prop
  | last {s item rest} : Element rules s item (unit ']' :: rest) → Elements rules s [item] rest
  | more {s item next items rest} : Element rules s item (unit ',' :: next) →
      Elements rules next items rest → Elements rules s (item :: items) rest

/-- A name with its value. -/
inductive Member (rules : Rules) :
    List CodeUnit → List CodeUnit → Tree → List CodeUnit → Prop
  | mk {s begun name named colon item rest} : Ws s (unit '"' :: begun) →
      Chars rules begun name named → Ws named (unit ':' :: colon) →
      Element rules colon item rest → Member rules s name item rest

/-- The members of an object and its closing brace. -/
inductive Members (rules : Rules) :
    List CodeUnit → List (List CodeUnit × Tree) → List CodeUnit → Prop
  | last {s name item rest} : Member rules s name item (unit '\x7d' :: rest) →
      Members rules s [(name, item)] rest
  | more {s name item next members rest} : Member rules s name item (unit ',' :: next) →
      Members rules next members rest → Members rules s ((name, item) :: members) rest

end

/-- `JSON-text`: the whole list is one element. -/
def Text (rules : Rules) (s : List CodeUnit) (tree : Tree) : Prop := Element rules s tree []

/-- The list is a JSON text under the rules. -/
def IsText (rules : Rules) (s : List CodeUnit) : Prop := ∃ tree, Text rules s tree

/-! ## White space -/

section
variable {α : Type*} {p : α → Bool} {xs rest : List α}

theorem dropWhile_append_stop (h : ∀ c ∈ xs, p c = true) (hrest : ∀ c ∈ rest.head?, p c = false) :
    (xs ++ rest).dropWhile p = rest := by
  rw [List.dropWhile_append_of_pos h]
  cases rest with
  | nil => rfl
  | cons c rest => exact List.dropWhile_cons_of_neg (by simp [hrest c rfl])

theorem takeWhile_append_stop (h : ∀ c ∈ xs, p c = true) (hrest : ∀ c ∈ rest.head?, p c = false) :
    (xs ++ rest).takeWhile p = xs := by
  rw [List.takeWhile_append_of_pos h]
  cases rest with
  | nil => simp
  | cons c rest => simp [hrest c rfl]

end

theorem Ws.refl (s : List CodeUnit) : Ws s s := ⟨[], by simp, rfl⟩

theorem ws_dropWhile (s : List CodeUnit) : Ws s (s.dropWhile isWs) :=
  ⟨s.takeWhile isWs, fun _ hc => List.mem_takeWhile_imp hc, (List.takeWhile_append_dropWhile).symm⟩

/-- The white space before something else is all of it. -/
theorem Ws.dropWhile_eq {s rest : List CodeUnit} (h : Ws s rest)
    (hrest : ∀ c ∈ rest.head?, isWs c = false) : s.dropWhile isWs = rest := by
  obtain ⟨space, hspace, rfl⟩ := h
  exact dropWhile_append_stop hspace hrest

theorem Ws.length_le {s rest : List CodeUnit} (h : Ws s rest) : rest.length ≤ s.length := by
  obtain ⟨space, _, rfl⟩ := h
  simp

theorem Ws.trans {s t rest : List CodeUnit} (h : Ws s t) (h' : Ws t rest) : Ws s rest := by
  obtain ⟨space, hspace, rfl⟩ := h
  obtain ⟨more, hmore, rfl⟩ := h'
  refine ⟨space ++ more, fun c hc => ?_, by rw [List.append_assoc]⟩
  cases List.mem_append.mp hc with
  | inl hfirst => exact hspace c hfirst
  | inr hsecond => exact hmore c hsecond

/-! ## Every nonterminal takes something -/

section
variable {rules : Rules}

theorem IsInt.ne_nil {text : List CodeUnit} (h : IsInt text) : text ≠ [] := by
  cases h with
  | inl hzero => simp [hzero]
  | inr hdigits => exact hdigits.1.1

theorem IsNumber.length_pos {text : List CodeUnit} (h : IsNumber text) : 0 < text.length := by
  obtain ⟨minus, int, frac, exp, _, hint, _, _, rfl⟩ := h
  have hpos := List.length_pos_iff.mpr hint.ne_nil
  simp only [List.length_append]
  omega

theorem Chars.length_lt {s text rest : List CodeUnit} (h : Chars rules s text rest) :
    rest.length < s.length := by
  induction h with
  | done => simp
  | unescaped _ _ ih => exact Nat.lt_succ_of_lt ih
  | escaped _ _ ih =>
      simp only [List.length_cons]
      omega
  | unicode _ _ _ ih =>
      simp only [List.length_cons, List.length_append]
      omega

theorem Value.length_lt {s : List CodeUnit} {tree : Tree} {rest : List CodeUnit}
    (h : Value rules s tree rest) : rest.length < s.length := by
  apply @Value.rec rules
    (fun s _ rest _ => rest.length < s.length)
    (fun s _ rest _ => rest.length < s.length)
    (fun s _ rest _ => rest.length < s.length)
    (fun s _ _ rest _ => rest.length < s.length)
    (fun s _ rest _ => rest.length < s.length)
  · intro rest
    simp [units]
    omega
  · intro rest
    simp [units]
    omega
  · intro rest
    simp [units]
    omega
  · intro text rest hnumber
    have hpos := hnumber.length_pos
    rw [List.length_append]
    omega
  · intro s text rest hchars
    exact Nat.lt_succ_of_lt hchars.length_lt
  · intro s rest hws
    have hle := hws.length_le
    simp only [List.length_cons] at hle ⊢
    omega
  · intro s items rest _ ih
    exact Nat.lt_succ_of_lt ih
  · intro s rest hws
    have hle := hws.length_le
    simp only [List.length_cons] at hle ⊢
    omega
  · intro s members rest _ ih
    exact Nat.lt_succ_of_lt ih
  · intro s begun ended tree rest hbefore _ hafter ih
    have hle := hbefore.length_le
    have hle' := hafter.length_le
    omega
  · intro s item rest _ ih
    simp only [List.length_cons] at ih
    omega
  · intro s item next items rest _ _ ih ihs
    simp only [List.length_cons] at ih
    omega
  · intro s begun name named colon item rest hbefore hchars hcolon _ ih
    have hle := hbefore.length_le
    have hlt := hchars.length_lt
    have hle' := hcolon.length_le
    simp only [List.length_cons] at hle hle'
    omega
  · intro s name item rest _ ih
    simp only [List.length_cons] at ih
    omega
  · intro s name item next members rest _ _ ih ihs
    simp only [List.length_cons] at ih
    omega
  · exact h

theorem Element.length_lt {s : List CodeUnit} {tree : Tree} {rest : List CodeUnit}
    (h : Element rules s tree rest) : rest.length < s.length := by
  cases h with
  | mk hbefore hvalue hafter =>
      have hle := hbefore.length_le
      have hlt := hvalue.length_lt
      have hle' := hafter.length_le
      omega

theorem Member.length_lt {s name : List CodeUnit} {item : Tree} {rest : List CodeUnit}
    (h : Member rules s name item rest) : rest.length < s.length := by
  cases h with
  | mk hbefore hchars hcolon helement =>
      have hle := hbefore.length_le
      have hlt := hchars.length_lt
      have hle' := hcolon.length_le
      have hlt' := helement.length_lt
      simp only [List.length_cons] at hle hle'
      omega

end

/-! ## What stands first -/

theorem ne_of_isDigit {c d : CodeUnit} (hc : isDigit c = true) (hd : isDigit d = false) : c ≠ d := by
  intro heq
  rw [heq, hd] at hc
  cases hc

theorem number_head {text : List CodeUnit} (h : IsNumber text) (rest : List CodeUnit) :
    ∃ c more, text ++ rest = c :: more ∧ (c = unit '-' ∨ isDigit c = true) := by
  obtain ⟨minus, int, frac, exp, hminus, hint, _, _, rfl⟩ := h
  cases hminus with
  | inr hsign =>
      rw [hsign]
      exact ⟨unit '-', _, rfl, Or.inl rfl⟩
  | inl hnone =>
      rw [hnone]
      cases hint with
      | inl hzero =>
          rw [hzero]
          exact ⟨unit '0', _, rfl, Or.inr (by decide)⟩
      | inr hdigits =>
          cases int with
          | nil => exact absurd rfl hdigits.1.1
          | cons c int => exact ⟨c, _, rfl, Or.inr (hdigits.1.2 c List.mem_cons_self)⟩

section
variable {rules : Rules}

theorem Element.ws {s t : List CodeUnit} {tree : Tree} {rest : List CodeUnit}
    (h : Ws s t) (ht : Element rules t tree rest) : Element rules s tree rest := by
  cases ht with
  | mk hbefore hvalue hafter => exact .mk (h.trans hbefore) hvalue hafter

theorem Elements.ws {s t : List CodeUnit} {items : List Tree}
    {rest : List CodeUnit} (h : Ws s t) (ht : Elements rules t items rest) :
    Elements rules s items rest := by
  cases ht with
  | last hitem => exact .last (Element.ws h hitem)
  | more hitem hitems => exact .more (Element.ws h hitem) hitems

theorem Member.ws {s t name : List CodeUnit} {tree : Tree} {rest : List CodeUnit}
    (h : Ws s t) (ht : Member rules t name tree rest) : Member rules s name tree rest := by
  cases ht with
  | mk hbefore hname hcolon hitem => exact .mk (h.trans hbefore) hname hcolon hitem

theorem Members.ws {s t : List CodeUnit} {members : List (List CodeUnit × Tree)}
    {rest : List CodeUnit} (h : Ws s t) (ht : Members rules t members rest) :
    Members rules s members rest := by
  cases ht with
  | last hmember => exact .last (Member.ws h hmember)
  | more hmember hmembers => exact .more (Member.ws h hmember) hmembers

/-- A value begins with no white space and closes nothing. -/
theorem Value.head {s : List CodeUnit} {tree : Tree} {rest : List CodeUnit}
    (h : Value rules s tree rest) :
    ∃ c more, s = c :: more ∧ isWs c = Bool.false ∧ c ≠ unit ']' := by
  cases h with
  | null => exact ⟨unit 'n', _, rfl, by decide, by decide⟩
  | true => exact ⟨unit 't', _, rfl, by decide, by decide⟩
  | false => exact ⟨unit 'f', _, rfl, by decide, by decide⟩
  | number hnumber =>
      obtain ⟨c, more, htext, hc⟩ := number_head hnumber rest
      refine ⟨c, more, htext, ?_⟩
      cases hc with
      | inl hsign => rw [hsign]; decide
      | inr hdigit =>
          have hne : ∀ d, isDigit d = Bool.false → c ≠ d := fun d => ne_of_isDigit hdigit
          refine ⟨?_, hne _ (by decide)⟩
          unfold isWs
          simp [hne (unit ' ') (by decide), hne (unit '\n') (by decide),
            hne (unit '\r') (by decide), hne (unit '\t') (by decide)]
  | string _ => exact ⟨unit '"', _, rfl, by decide, by decide⟩
  | emptyArray _ => exact ⟨unit '[', _, rfl, by decide, by decide⟩
  | array _ => exact ⟨unit '[', _, rfl, by decide, by decide⟩
  | emptyObject _ => exact ⟨unit '\x7b', _, rfl, by decide, by decide⟩
  | object _ => exact ⟨unit '\x7b', _, rfl, by decide, by decide⟩

/-- What begins with a quotation mark is a string. -/
theorem Value.chars_of_quote {s : List CodeUnit} {tree : Tree} {rest : List CodeUnit}
    (h : Value rules (unit '"' :: s) tree rest) : ∃ text, Chars rules s text rest := by
  generalize hs : unit '"' :: s = t at h
  have hhead : ∀ c more, t = c :: more → unit '"' = c := by
    intro c more ht
    rw [ht] at hs
    exact (List.cons.inj hs).1
  cases h with
  | string hchars =>
      rw [(List.cons.inj hs).2]
      exact ⟨_, hchars⟩
  | number hnumber =>
      obtain ⟨c, more, htext, hc⟩ := number_head hnumber rest
      rw [← hhead c more htext] at hc
      exact absurd hc (by decide)
  | null => exact absurd (hhead (unit 'n') _ rfl) (by decide)
  | true => exact absurd (hhead (unit 't') _ rfl) (by decide)
  | false => exact absurd (hhead (unit 'f') _ rfl) (by decide)
  | emptyArray _ => exact absurd (hhead (unit '[') _ rfl) (by decide)
  | array _ => exact absurd (hhead (unit '[') _ rfl) (by decide)
  | emptyObject _ => exact absurd (hhead (unit '\x7b') _ rfl) (by decide)
  | object _ => exact absurd (hhead (unit '\x7b') _ rfl) (by decide)

theorem Elements.begun {s : List CodeUnit} {items : List Tree}
    {rest : List CodeUnit} (h : Elements rules s items rest) :
    ∃ c more, Ws s (c :: more) ∧ isWs c = false ∧ c ≠ unit ']' ∧
      Elements rules (c :: more) items rest := by
  cases h with
  | last hitem =>
      cases hitem with
      | mk hbefore hvalue hafter =>
          obtain ⟨c, more, rfl, hc⟩ := hvalue.head
          exact ⟨c, more, hbefore, hc.1, hc.2, .last (.mk (.refl _) hvalue hafter)⟩
  | more hitem hitems =>
      cases hitem with
      | mk hbefore hvalue hafter =>
          obtain ⟨c, more, rfl, hc⟩ := hvalue.head
          exact ⟨c, more, hbefore, hc.1, hc.2, .more (.mk (.refl _) hvalue hafter) hitems⟩

theorem Members.begun {s : List CodeUnit}
    {members : List (List CodeUnit × Tree)} {rest : List CodeUnit}
    (h : Members rules s members rest) :
    ∃ more, Ws s (unit '"' :: more) ∧ Members rules (unit '"' :: more) members rest := by
  cases h with
  | last hmember =>
      cases hmember with
      | mk hbefore hname hcolon hitem =>
          exact ⟨_, hbefore, .last (.mk (.refl _) hname hcolon hitem)⟩
  | more hmember hmembers =>
      cases hmember with
      | mk hbefore hname hcolon hitem =>
          exact ⟨_, hbefore, .more (.mk (.refl _) hname hcolon hitem) hmembers⟩

end

/-! ## Rules that allow more -/

/-- Whatever the first rules allow in a string, the others read as the same. -/
structure Rules.Allows (rules more : Rules) : Prop where
  unescaped : ∀ c, rules.unescaped c = true → more.unescaped c = true
  unicode : ∀ digits char, rules.unicode digits = some char → more.unicode digits = some char

section
variable {rules more : Rules}

theorem Chars.mono (h : rules.Allows more) {s text rest : List CodeUnit}
    (hs : Chars rules s text rest) : Chars more s text rest := by
  induction hs with
  | done => exact .done
  | unescaped hc _ ih => exact .unescaped (h.unescaped _ hc) ih
  | escaped hc _ ih => exact .escaped hc ih
  | unicode hlength hdigits _ ih => exact .unicode hlength (h.unicode _ _ hdigits) ih

theorem Element.mono (h : rules.Allows more) {s : List CodeUnit} {tree : Tree}
    {rest : List CodeUnit} (hs : Element rules s tree rest) : Element more s tree rest := by
  apply @Element.rec rules
    (fun s tree rest _ => Value more s tree rest)
    (fun s tree rest _ => Element more s tree rest)
    (fun s items rest _ => Elements more s items rest)
    (fun s name tree rest _ => Member more s name tree rest)
    (fun s members rest _ => Members more s members rest)
  · exact .null
  · exact .true
  · exact .false
  · exact fun hnumber => .number hnumber
  · exact fun hchars => .string (hchars.mono h)
  · exact fun hws => .emptyArray hws
  · exact fun _ ih => .array ih
  · exact fun hws => .emptyObject hws
  · exact fun _ ih => .object ih
  · exact fun hbefore _ hafter ih => .mk hbefore ih hafter
  · exact fun _ ih => .last ih
  · exact fun _ _ ih ihs => .more ih ihs
  · exact fun hbefore hchars hcolon _ ih => .mk hbefore (hchars.mono h) hcolon ih
  · exact fun _ ih => .last ih
  · exact fun _ _ ih ihs => .more ih ihs
  · exact hs

theorem IsText.mono (h : rules.Allows more) {s : List CodeUnit} (hs : IsText rules s) :
    IsText more s := by
  obtain ⟨tree, htree⟩ := hs
  exact ⟨tree, htree.mono h⟩

end

end Wardx.Lib.JsonGrammar
