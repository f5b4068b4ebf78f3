import Mathlib.Algebra.Group.Int.Defs
import Mathlib.Algebra.GroupWithZero.Nat
import Mathlib.Data.Nat.Factorial.Basic
import Mathlib.Data.Nat.Sqrt
import Mathlib.Data.Rat.Defs
import Mathlib.Tactic.SplitIfs

/-!
# JSON values and the runtime's text functions

Numbers are exact rationals. An object is its list of fields in the order the
runtime enumerates them: array-index keys first, ascending, then the others in
insertion order. The key `__proto__` is not treated apart, and there is no minus
zero. A text is a Unicode string; where the runtime measures or compares UTF-16
code units, the units are computed here.

`Js` collects what the runtime computes and the code only uses: how a number
prints, how two texts collate, and the transcendental functions. Every
definition takes it as an argument and no statement constrains it unless it
says so.
-/
namespace Wardx

structure Js where
  /-- `String(value)` of a finite number. -/
  numberText : ℚ → String
  /-- `left.localeCompare(right)`. -/
  localeCompare : String → String → Ordering
  /-- `Math.log`. -/
  log : ℚ → ℚ
  /-- `Math.exp`. -/
  exp : ℚ → ℚ
  /-- `Math.sqrt`. -/
  sqrt : ℚ → ℚ
  /-- `Math.sin`. -/
  sin : ℚ → ℚ

/-- The value with twelve decimal digits. -/
def roundDown (q : ℚ) : ℚ := ((q.num * 10 ^ 12 / q.den : ℤ) : ℚ) / 10 ^ 12

/-- The sum of a power series with coefficients `1 / c n`. -/
def seriesSum (c : ℕ → ℚ) (x : ℚ) (terms : ℕ) : ℚ :=
  (List.range terms).foldl (fun total n => total + x ^ n / c n) 0

/-- The exponential series at a sixteenth of the argument, squared four times. -/
def expNear (q : ℚ) : ℚ :=
  (List.range 4).foldl (fun value _ => roundDown (value * value))
    (roundDown (seriesSum (fun n => n.factorial) (roundDown q / 16) 20))

/-- Twice the inverse hyperbolic tangent series. -/
def logNear (q : ℚ) : ℚ :=
  let x := roundDown ((q - 1) / (q + 1))
  2 * x * seriesSum (fun n => 2 * n + 1) (x * x) 20

/-- The sine series. -/
def sinNear (q : ℚ) : ℚ :=
  let x := roundDown q
  x * seriesSum (fun n => (2 * n + 1).factorial) (-(x * x)) 12

/-- A runtime that prints integers, collates by code point, and computes the
other functions to a few digits; runs on fixed inputs are evaluated with it. -/
def Js.plain : Js where
  numberText := fun q => if q.den = 1 then toString q.num else toString q.num ++ "/" ++ toString q.den
  localeCompare := compare
  log := logNear
  exp := expNear
  sqrt := fun q => (Nat.sqrt (q.num.toNat * q.den * 10 ^ 24) : ℚ) / (q.den * 10 ^ 12)
  sin := sinNear

inductive Json
  | null
  | bool (value : Bool)
  | num (value : ℚ)
  | str (value : String)
  | arr (items : List Json)
  | obj (fields : List (String × Json))
deriving Repr

/-! ## Texts -/

/-- The UTF-16 code units of a character. -/
def utf16Units (c : Char) : List ℕ :=
  let n := c.toNat
  if n < 0x10000 then [n]
  else [0xD800 + (n - 0x10000) / 0x400, 0xDC00 + (n - 0x10000) % 0x400]

def utf16 (s : String) : List ℕ := s.toList.flatMap utf16Units

/-- `value.length`. -/
def utf16Length (s : String) : ℕ := (utf16 s).length

/-- The order of `Array.prototype.sort` on texts: by code units. -/
def utf16Le (s t : String) : Prop := @LE.le (List ℕ) List.instLE (utf16 s) (utf16 t)

instance : DecidableRel utf16Le := fun s t =>
  inferInstanceAs (Decidable (@LE.le (List ℕ) List.instLE (utf16 s) (utf16 t)))

/-- What `String.prototype.trim` removes: white space and line terminators. -/
def isSpace (c : Char) : Bool :=
  let n := c.toNat
  (9 ≤ n && n ≤ 13) || n = 0x20 || n = 0xA0 || n = 0x1680 || (0x2000 ≤ n && n ≤ 0x200A) ||
    n = 0x2028 || n = 0x2029 || n = 0x202F || n = 0x205F || n = 0x3000 || n = 0xFEFF

/-- `value.trim()`. -/
def trim (s : String) : String :=
  String.ofList ((s.toList.dropWhile isSpace).reverse.dropWhile isSpace).reverse

/-- The number an array-index key denotes: canonical decimal, below `2^32 - 1`. -/
def arrayIndex (key : String) : Option ℕ :=
  let digits := key.toList
  if digits ≠ [] ∧ digits.all Char.isDigit ∧ (digits = ['0'] ∨ digits.head? ≠ some '0') then
    let n := digits.foldl (fun n c => 10 * n + (c.toNat - '0'.toNat)) 0
    if n < 4294967295 then some n else none
  else none

/-- Objects enumerate array-index keys first, ascending; texts follow. -/
def propertyRank (key : String) : List ℕ :=
  match arrayIndex key with
  | some n => [0, n]
  | none => 1 :: utf16 key

/-- `Buffer.byteLength(value, 'utf8')`. -/
def utf8Length (s : String) : ℕ := (s.toList.map fun c => c.utf8Size).sum

def hexDigit (n : ℕ) : Char := "0123456789abcdef".toList.getD n '0'

/-- One character inside a JSON text. -/
def quoteChar (c : Char) : String :=
  if c = '"' then "\\\""
  else if c = '\\' then "\\\\"
  else if c = '\n' then "\\n"
  else if c = '\r' then "\\r"
  else if c = '\t' then "\\t"
  else if c.toNat = 8 then "\\b"
  else if c.toNat = 12 then "\\f"
  else if c.toNat < 0x20 then
    "\\u00" ++ String.ofList [hexDigit (c.toNat / 16), hexDigit (c.toNat % 16)]
  else String.ofList [c]

/-- `JSON.stringify` of a text. -/
def quote (s : String) : String := "\"" ++ String.join (s.toList.map quoteChar) ++ "\""

namespace Json

/-! ## Printing -/

mutual
/-- `JSON.stringify`. -/
def stringify (js : Js) : Json → String
  | .null => "null"
  | .bool b => if b then "true" else "false"
  | .num q => js.numberText q
  | .str s => quote s
  | .arr items => "[" ++ stringifyItems js items ++ "]"
  | .obj fields => "\x7b" ++ stringifyFields js fields ++ "\x7d"

def stringifyItems (js : Js) : List Json → String
  | [] => ""
  | [item] => stringify js item
  | item :: items => stringify js item ++ "," ++ stringifyItems js items

def stringifyFields (js : Js) : List (String × Json) → String
  | [] => ""
  | [(key, value)] => quote key ++ ":" ++ stringify js value
  | (key, value) :: fields =>
      quote key ++ ":" ++ stringify js value ++ "," ++ stringifyFields js fields
end

/-! ## Equality -/

mutual
def beq : Json → Json → Bool
  | .null, .null => true
  | .bool a, .bool b => a == b
  | .num a, .num b => a == b
  | .str a, .str b => a == b
  | .arr a, .arr b => beqItems a b
  | .obj a, .obj b => beqFields a b
  | _, _ => false

def beqItems : List Json → List Json → Bool
  | [], [] => true
  | a :: as, b :: bs => beq a b && beqItems as bs
  | _, _ => false

def beqFields : List (String × Json) → List (String × Json) → Bool
  | [], [] => true
  | (k, a) :: as, (l, b) :: bs => k == l && (beq a b && beqFields as bs)
  | _, _ => false
end

mutual
theorem beq_iff : ∀ a b : Json, beq a b = true ↔ a = b
  | .null, b => by cases b <;> simp [beq]
  | .bool a, b => by cases b <;> simp [beq]
  | .num a, b => by cases b <;> simp [beq]
  | .str a, b => by cases b <;> simp [beq]
  | .arr a, b => by
      cases b with
      | arr b => simp [beq, beqItems_iff a b]
      | _ => simp [beq]
  | .obj a, b => by
      cases b with
      | obj b => simp [beq, beqFields_iff a b]
      | _ => simp [beq]

theorem beqItems_iff : ∀ a b : List Json, beqItems a b = true ↔ a = b
  | [], b => by cases b <;> simp [beqItems]
  | a :: as, b => by
      cases b with
      | nil => simp [beqItems]
      | cons b bs => simp [beqItems, beq_iff a b, beqItems_iff as bs]

theorem beqFields_iff : ∀ a b : List (String × Json), beqFields a b = true ↔ a = b
  | [], b => by cases b <;> simp [beqFields]
  | (k, a) :: as, b => by
      cases b with
      | nil => simp [beqFields]
      | cons b bs =>
          obtain ⟨l, b⟩ := b
          simp [beqFields, beq_iff a b, beqFields_iff as bs, and_assoc]
end

instance : DecidableEq Json := fun a b => decidable_of_iff (beq a b = true) (beq_iff a b)

/-! ## Objects -/

abbrev Fields := List (String × Json)

def isObject : Json → Bool
  | .obj _ => true
  | _ => false

/-- `Object.keys`; a value that is no object has none. -/
def keys : Json → List String
  | .obj fields => fields.map Prod.fst
  | _ => []

/-- `value[key]` for an own property. -/
def get? : Json → String → Option Json
  | .obj fields, key => fields.lookup key
  | _, _ => none

/-- An array index is enumerated before every larger index and every other key. -/
def enumeratedBefore (key k : String) : Bool :=
  match arrayIndex key, arrayIndex k with
  | some n, some m => n < m
  | some _, none => true
  | none, _ => false

/-- A new key goes where the runtime enumerates it, any but an index last. -/
def insertField (key : String) (value : Json) : Fields → Fields
  | [] => [(key, value)]
  | (k, v) :: fields =>
      if enumeratedBefore key k then (key, value) :: (k, v) :: fields
      else (k, v) :: insertField key value fields

def replaceField (key : String) (value : Json) : Fields → Fields
  | [] => []
  | (k, v) :: fields => if k = key then (k, value) :: fields else (k, v) :: replaceField key value fields

/-- `target[key] = value`. -/
def setField (key : String) (value : Json) (fields : Fields) : Fields :=
  if (fields.lookup key).isSome then replaceField key value fields
  else insertField key value fields

/-- `delete target[key]`. -/
def deleteField (key : String) (fields : Fields) : Fields :=
  fields.filter fun field => field.1 ≠ key

theorem lookup_field (j k : String) (v : Json) (fields : Fields) :
    List.lookup k ((j, v) :: fields) = if k = j then some v else fields.lookup k := by
  rw [List.lookup_cons]
  by_cases h : k = j
  · rw [if_pos h, beq_iff_eq.mpr h]
  · rw [if_neg h, beq_eq_false_iff_ne.mpr h]

theorem isSome_lookup (key : String) (fields : Fields) :
    (fields.lookup key).isSome = true ↔ key ∈ fields.map Prod.fst := by
  induction fields with
  | nil => simp
  | cons field fields ih =>
      obtain ⟨j, v⟩ := field
      rw [lookup_field, List.map_cons, List.mem_cons, ← ih]
      split_ifs with h
      · exact ⟨fun _ => Or.inl h, fun _ => rfl⟩
      · exact ⟨Or.inr, fun hor => hor.resolve_left h⟩

theorem mem_of_lookup {fields : Fields} {key : String} {value : Json}
    (h : fields.lookup key = some value) : (key, value) ∈ fields := by
  obtain ⟨before, rest, rfl, _⟩ := List.lookup_eq_some_iff.mp h
  exact List.mem_append_right before List.mem_cons_self

theorem lookup_insertField (key k : String) (value : Json) {fields : Fields}
    (h : fields.lookup key = none) :
    (insertField key value fields).lookup k = if k = key then some value else fields.lookup k := by
  induction fields with
  | nil => exact lookup_field key k value []
  | cons field fields ih =>
      obtain ⟨j, v⟩ := field
      rw [lookup_field] at h
      split_ifs at h with hj
      have ih := ih h
      unfold insertField
      by_cases hb : enumeratedBefore key j = true
      · rw [if_pos hb]
        exact lookup_field key k value ((j, v) :: fields)
      · rw [if_neg hb, lookup_field, lookup_field, ih]
        by_cases hk : k = j
        · subst hk
          rw [if_pos rfl, if_neg (Ne.symm hj), if_pos rfl]
        · rw [if_neg hk, if_neg hk]

theorem lookup_replaceField (key k : String) (value : Json) {fields : Fields}
    (h : (fields.lookup key).isSome = true) :
    (replaceField key value fields).lookup k = if k = key then some value else fields.lookup k := by
  induction fields with
  | nil => cases h
  | cons field fields ih =>
      obtain ⟨j, v⟩ := field
      rw [lookup_field] at h
      simp only [replaceField]
      by_cases hj : j = key
      · subst hj
        rw [if_pos rfl, lookup_field, lookup_field]
        by_cases hk : k = j
        · rw [if_pos hk, if_pos hk]
        · rw [if_neg hk, if_neg hk, if_neg hk]
      · rw [if_neg (Ne.symm hj)] at h
        rw [if_neg hj, lookup_field, lookup_field, ih h]
        by_cases hk : k = j
        · rw [if_pos hk, if_pos hk, if_neg (hk ▸ hj)]
        · rw [if_neg hk, if_neg hk]

theorem lookup_setField (key k : String) (value : Json) (fields : Fields) :
    (setField key value fields).lookup k = if k = key then some value else fields.lookup k := by
  unfold setField
  by_cases h : (fields.lookup key).isSome = true
  · rw [if_pos h]
    exact lookup_replaceField key k value h
  · rw [if_neg h]
    exact lookup_insertField key k value (Option.not_isSome_iff_eq_none.mp h)

/-- Setting a key to what it holds changes nothing. -/
theorem setField_self {key : String} {value : Json} {fields : Fields}
    (h : fields.lookup key = some value) : setField key value fields = fields := by
  have hsome : (fields.lookup key).isSome = true := by rw [h]; rfl
  unfold setField
  rw [if_pos hsome]
  clear hsome
  induction fields with
  | nil => cases h
  | cons field fields ih =>
      obtain ⟨j, v⟩ := field
      rw [lookup_field] at h
      unfold replaceField
      by_cases hj : key = j
      · rw [if_pos hj] at h
        rw [if_pos hj.symm, Option.some.inj h]
      · rw [if_neg hj] at h
        rw [if_neg (Ne.symm hj), ih h]

theorem replaceField_replaceField (key : String) (v w : Json) (fields : Fields) :
    replaceField key w (replaceField key v fields) = replaceField key w fields := by
  induction fields with
  | nil => rfl
  | cons field fields ih =>
      obtain ⟨j, x⟩ := field
      by_cases hj : j = key
      · simp [replaceField, hj]
      · simp [replaceField, hj, ih]

theorem setField_setField {key : String} {v w x : Json} {fields : Fields}
    (h : fields.lookup key = some x) :
    setField key w (setField key v fields) = setField key w fields := by
  have hsome : (fields.lookup key).isSome = true := by rw [h]; rfl
  have hsome' : ((replaceField key v fields).lookup key).isSome = true := by
    rw [lookup_replaceField key key v hsome, if_pos rfl]
    rfl
  unfold setField
  rw [if_pos hsome, if_pos hsome', replaceField_replaceField, if_pos hsome]

theorem insertField_perm (key : String) (value : Json) (fields : Fields) :
    (insertField key value fields).Perm ((key, value) :: fields) := by
  induction fields with
  | nil => exact List.Perm.refl _
  | cons field fields ih =>
      obtain ⟨j, v⟩ := field
      unfold insertField
      split_ifs
      · exact List.Perm.refl _
      · exact (ih.cons (j, v)).trans (List.Perm.swap _ _ _)

theorem keys_replaceField (key : String) (value : Json) (fields : Fields) :
    (replaceField key value fields).map Prod.fst = fields.map Prod.fst := by
  induction fields with
  | nil => rfl
  | cons field fields ih =>
      obtain ⟨j, v⟩ := field
      unfold replaceField
      split_ifs
      · rfl
      · exact congrArg (List.cons j) ih

theorem mem_replaceField {key : String} {value : Json} {fields : Fields} {field : String × Json}
    (h : field ∈ replaceField key value fields) : field = (key, value) ∨ field ∈ fields := by
  induction fields with
  | nil => cases h
  | cons first fields ih =>
      obtain ⟨j, v⟩ := first
      unfold replaceField at h
      split_ifs at h with hj
      · rcases List.mem_cons.mp h with rfl | h
        · exact Or.inl (by rw [hj])
        · exact Or.inr (List.mem_cons_of_mem _ h)
      · rcases List.mem_cons.mp h with rfl | h
        · exact Or.inr List.mem_cons_self
        · exact (ih h).imp_right (List.mem_cons_of_mem _)

/-- A new key is inserted. -/
theorem setField_perm {key : String} (value : Json) {fields : Fields}
    (h : key ∉ fields.map Prod.fst) :
    (setField key value fields).Perm ((key, value) :: fields) := by
  rw [← isSome_lookup] at h
  unfold setField
  rw [if_neg h]
  exact insertField_perm key value fields

theorem mem_setField {key : String} {value : Json} {fields : Fields} {field : String × Json}
    (h : field ∈ setField key value fields) : field = (key, value) ∨ field ∈ fields := by
  unfold setField at h
  split_ifs at h
  · exact mem_replaceField h
  · exact List.mem_cons.mp ((insertField_perm key value fields).mem_iff.mp h)

theorem nodup_setField (key : String) (value : Json) {fields : Fields}
    (h : (fields.map Prod.fst).Nodup) : ((setField key value fields).map Prod.fst).Nodup := by
  by_cases hk : key ∈ fields.map Prod.fst
  · unfold setField
    rw [if_pos ((isSome_lookup key fields).mpr hk), keys_replaceField]
    exact h
  · have hp := (setField_perm value hk).map Prod.fst
    exact hp.nodup_iff.mpr (List.nodup_cons.mpr ⟨hk, h⟩)

theorem lookup_deleteField (key k : String) (fields : Fields) :
    (deleteField key fields).lookup k = if k = key then none else fields.lookup k := by
  unfold deleteField
  induction fields with
  | nil => exact (ite_self _).symm
  | cons field fields ih =>
      obtain ⟨j, v⟩ := field
      by_cases hj : j = key
      · subst hj
        rw [List.filter_cons_of_neg (by simp), ih, lookup_field]
        by_cases hk : k = j
        · rw [if_pos hk, if_pos hk]
        · rw [if_neg hk, if_neg hk, if_neg hk]
      · rw [List.filter_cons_of_pos (by simpa using hj), lookup_field, ih, lookup_field]
        by_cases hk : k = j
        · rw [if_pos hk, if_neg (hk ▸ hj), if_pos hk]
        · rw [if_neg hk, if_neg hk]

end Json
end Wardx
