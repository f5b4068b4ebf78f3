import Wardx.Clients.NumberText

/-!
# Writing and reading the JSON of the C# client

`Stringify` writes a value and `Native` gives back the one a text denotes. A
`long` is written digit for digit, but read as a double. A double that is an
integer is written as a `long` where it lies between the limits of one; the upper
limit is compared as a double, so that 2 ^ 63 passes and is cast to the lowest
`long`. Nothing else is lost.

How a double with a fraction is formatted is a parameter. One that is an integer
beyond the limits is written with seventeen digits and an exponent.
-/
namespace Wardx.CSharpJson

open Lib JsonGrammar Binary64

/-! ## Values -/

/-- The objects the client writes and reads. -/
inductive Native
  | null
  | bool (value : Bool)
  | string (text : List CodeUnit)
  | int (value : ℤ)
  | long (value : ℤ)
  | double (value : Double)
  | list (items : List Native)
  | dictionary (entries : List (List CodeUnit × Native))

/-! ## Writing -/

/-- What `TryNumber` finds. -/
inductive Number
  | integer (n : ℤ)
  | number (q : ℚ)

/-- `TryNumber`. -/
def tryNumber : Native → Option Number
  | .int n => some (.integer n)
  | .long n => some (.integer n)
  | .double (.finite q) =>
      if truncate q = q ∧ longMin ≤ q ∧ q ≤ longMax then some (.integer (toLong q))
      else some (.number q)
  | _ => none

/-- The four digits of `ToString("x4")`. -/
def hex4 (n : ℕ) : List CodeUnit :=
  [n / 4096, n / 256 % 16, n / 16 % 16, n % 16].map fun d =>
    if d < 10 then digit d else UInt16.ofNat (87 + d)

/-- The loop body of `WriteString`. -/
def writeChar (c : CodeUnit) : List CodeUnit :=
  if c = unit '"' then units "\\\""
  else if c = unit '\\' then units "\\\\"
  else if c = 0x8 then units "\\b"
  else if c = 0xc then units "\\f"
  else if c = 0xa then units "\\n"
  else if c = 0xd then units "\\r"
  else if c = 0x9 then units "\\t"
  else if c < 0x20 then units "\\u" ++ hex4 c.toNat
  else [c]

/-- `WriteString`. -/
def writeString (text : List CodeUnit) : List CodeUnit :=
  unit '"' :: (text.flatMap writeChar ++ [unit '"'])

section
variable (fraction : ℚ → List CodeUnit)

def writeNumber (v : Native) : Except Failure (List CodeUnit) :=
  match tryNumber v with
  | some (.integer n) => .ok (integerText n)
  | some (.number q) => .ok (formatG17 fraction q)
  | none => .error (.invalidOperation "cannot JSON-encode System.Double")

mutual

/-- `Write`. -/
def write : Native → Except Failure (List CodeUnit)
  | .null => .ok (units "null")
  | .bool value => .ok (units (if value then "true" else "false"))
  | .string text => .ok (writeString text)
  | .list items => do
      let text ← writeItems true items
      pure (unit '[' :: (text ++ [unit ']']))
  | .dictionary entries => do
      let text ← writeEntries true entries
      pure (unit '\x7b' :: (text ++ [unit '\x7d']))
  | .int n => writeNumber fraction (.int n)
  | .long n => writeNumber fraction (.long n)
  | .double d => writeNumber fraction (.double d)

/-- The loop of `WriteArray`. -/
def writeItems (first : Bool) : List Native → Except Failure (List CodeUnit)
  | [] => .ok []
  | item :: items => do
      let text ← write item
      let rest ← writeItems false items
      pure ((if first then [] else [unit ',']) ++ (text ++ rest))

/-- The loop of `WriteObject`. -/
def writeEntries (first : Bool) : List (List CodeUnit × Native) → Except Failure (List CodeUnit)
  | [] => .ok []
  | (key, item) :: entries => do
      let text ← write item
      let rest ← writeEntries false entries
      pure ((if first then [] else [unit ',']) ++ (writeString key ++ (unit ':' :: (text ++ rest))))

end

/-- `Json.Stringify`. -/
def stringify (v : Native) : Except Failure (List CodeUnit) := write fraction v

end

/-! ## Reading -/

/-- `Native` of a number. -/
def nativeNumber (value : Double) (wasFloat : Bool) : Native :=
  match value with
  | .infinite _ => .double value
  | .finite q =>
      if wasFloat = false ∧ truncate q = q ∧ -2 ^ 31 ≤ q ∧ q ≤ 2 ^ 31 - 1 then .int (truncate q)
      else if wasFloat = false ∧ truncate q = q ∧ longMin ≤ q ∧ q ≤ longMax then .long (toLong q)
      else .double value

mutual

/-- `Native`. -/
def JsonNode.native : JsonNode → Native
  | .null => .null
  | .bool value => .bool value
  | .num value wasFloat => nativeNumber value wasFloat
  | .str text => .string text
  | .arr items => .list (nativeItems items)
  | .obj members => .dictionary (nativeMembers [] members)

def nativeItems : List JsonNode → List Native
  | [] => []
  | item :: items => item.native :: nativeItems items

def nativeMembers (dict : List (List CodeUnit × Native)) :
    List (List CodeUnit × JsonNode) → List (List CodeUnit × Native)
  | [] => dict
  | (key, node) :: members => nativeMembers (Table.putEntry key node.native dict) members

end

/-! ## What a value denotes -/

mutual

/-- The value with every number as a double, which may be no double any more. -/
def Native.value : Native → Native
  | .null => .null
  | .bool value => .bool value
  | .string text => .string text
  | .int n => .double (.finite n)
  | .long n => .double (.finite n)
  | .double d => .double d
  | .list items => .list (valueItems items)
  | .dictionary entries => .dictionary (valueEntries entries)

def valueItems : List Native → List Native
  | [] => []
  | item :: items => item.value :: valueItems items

def valueEntries : List (List CodeUnit × Native) → List (List CodeUnit × Native)
  | [] => []
  | (key, item) :: entries => (key, item.value) :: valueEntries entries

end

mutual

/-- A value of the client's types: integers in range, finite doubles, the keys of
a dictionary distinct. A double with a fraction is read back from what it is
formatted as. -/
def WellFormed (fraction : ℚ → List CodeUnit) : Native → Prop
  | .null => True
  | .bool _ => True
  | .string _ => True
  | .int n => -2 ^ 31 ≤ n ∧ n < 2 ^ 31
  | .long n => -2 ^ 63 ≤ n ∧ n < 2 ^ 63
  | .double (.finite q) => IsDouble q ∧
      (truncate q ≠ q → IsNumber (fraction q) ∧ parseDouble (fraction q) = .finite q)
  | .double (.infinite _) => False
  | .list items => WellFormedItems fraction items
  | .dictionary entries => (entries.map Prod.fst).Nodup ∧ WellFormedEntries fraction entries

def WellFormedItems (fraction : ℚ → List CodeUnit) : List Native → Prop
  | [] => True
  | item :: items => WellFormed fraction item ∧ WellFormedItems fraction items

def WellFormedEntries (fraction : ℚ → List CodeUnit) : List (List CodeUnit × Native) → Prop
  | [] => True
  | (_, item) :: entries => WellFormed fraction item ∧ WellFormedEntries fraction entries

end

mutual

/-- Every `long` is a double, and no double is 2 ^ 63. -/
def Exact : Native → Prop
  | .long n => IsDouble n
  | .double (.finite q) => q ≠ 2 ^ 63
  | .list items => ExactItems items
  | .dictionary entries => ExactEntries entries
  | _ => True

def ExactItems : List Native → Prop
  | [] => True
  | item :: items => Exact item ∧ ExactItems items

def ExactEntries : List (List CodeUnit × Native) → Prop
  | [] => True
  | (_, item) :: entries => Exact item ∧ ExactEntries entries

end

/-- The value is written, and what is read back denotes the same. -/
def RoundTrips (fraction : ℚ → List CodeUnit) (v : Native) : Prop :=
  ∃ text node, stringify fraction v = .ok text ∧ parse text = .ok node ∧
    node.native.value = v.value

/-! ## Strings -/

/-- A control character is four hexadecimal digits. -/
theorem unicode_hex4 : ∀ n < 32, rfc8259.unicode (hex4 n) = some (UInt16.ofNat n) := by
  decide

theorem chars_writeChar (c : CodeUnit) {s text rest : List CodeUnit}
    (h : Chars rfc8259 s text rest) : Chars rfc8259 (writeChar c ++ s) (c :: text) rest := by
  unfold writeChar
  split_ifs with hquote hslash hb hf hn hr ht hcontrol
  · rw [hquote]
    exact .escaped rfl h
  · rw [hslash]
    exact .escaped rfl h
  · rw [hb]
    exact .escaped rfl h
  · rw [hf]
    exact .escaped rfl h
  · rw [hn]
    exact .escaped rfl h
  · rw [hr]
    exact .escaped rfl h
  · rw [ht]
    exact .escaped rfl h
  · have hlt : c.toNat < 32 := UInt16.lt_iff_toNat_lt.mp hcontrol
    have hunicode := unicode_hex4 c.toNat hlt
    rw [UInt16.ofNat_toNat] at hunicode
    rw [List.append_assoc]
    change Chars rfc8259 (unit '\\' :: unit 'u' :: (hex4 c.toNat ++ s)) (c :: text) rest
    exact .unicode rfl hunicode h
  · refine .unescaped ?_ h
    have hle : 0x20 ≤ c := UInt16.not_lt.mp hcontrol
    simp [rfc8259, hle, hquote, hslash]

theorem chars_writeString (text rest : List CodeUnit) :
    Chars rfc8259 (text.flatMap writeChar ++ unit '"' :: rest) text rest := by
  induction text with
  | nil => exact .done
  | cons c text ih =>
      rw [List.flatMap_cons, List.append_assoc]
      exact chars_writeChar c ih

/-! ## Numbers -/

theorem truncate_intCast (n : ℤ) : truncate n = n := by
  simp [truncate]

theorem toLong_intCast {n : ℤ} (hlow : -2 ^ 63 ≤ n) (hhigh : n < 2 ^ 63) : toLong n = n := by
  unfold toLong
  rw [truncate_intCast, Int.bmod_eq_of_le (by omega) (by omega)]

theorem toLong_longMax : toLong (2 ^ 63) = -2 ^ 63 := by
  decide +kernel

theorem isDouble_longMax : IsDouble (2 ^ 63) := by
  refine ⟨?_, 1, 63, by norm_num, by norm_num, by norm_num⟩
  rw [abs_of_pos (by norm_num)]
  exact pow_lt_pow_right₀ (by norm_num) (by norm_num)

theorem isDouble_longMin : IsDouble (-2 ^ 63) := by
  refine ⟨?_, -1, 63, by norm_num, by norm_num, by norm_num⟩
  rw [abs_neg]
  exact isDouble_longMax.1

/-- A 32-bit integer is a double. -/
theorem isDouble_int {n : ℤ} (hlow : -2 ^ 31 ≤ n) (hhigh : n < 2 ^ 31) : IsDouble n := by
  have habs : |n| < 2 ^ 53 := abs_lt.mpr ⟨by omega, by omega⟩
  refine ⟨?_, n, 0, habs, by norm_num, by simp⟩
  have hcast : |(n : ℚ)| < 2 ^ 53 := by exact_mod_cast habs
  exact hcast.trans (pow_lt_pow_right₀ (by norm_num) (by norm_num))

/-- Every double but 2 ^ 63 stays what it is. -/
theorem value_nativeNumber {q : ℚ} (hq : q ≠ 2 ^ 63) (isFloat : Bool) :
    (nativeNumber (.finite q) isFloat).value = .double (.finite q) := by
  unfold nativeNumber
  dsimp only
  split_ifs with hint hlong
  · rw [Native.value, hint.2.1]
  · have hlow : -2 ^ 63 ≤ truncate q := by
      have h := hlong.2.2.1
      rw [← hlong.2.1] at h
      unfold longMin at h
      exact_mod_cast h
    have hhigh : truncate q < 2 ^ 63 := by
      have h := lt_of_le_of_ne hlong.2.2.2 hq
      rw [← hlong.2.1] at h
      unfold longMax at h
      exact_mod_cast h
    rw [Native.value, ← hlong.2.1, toLong_intCast hlow hhigh]
  · rw [Native.value]

theorem value_nativeNumber_limit :
    (nativeNumber (.finite (2 ^ 63)) false).value = .double (.finite (-2 ^ 63)) := by
  have htruncate : truncate (2 ^ 63) = 2 ^ 63 := by decide +kernel
  unfold nativeNumber longMin longMax
  dsimp only
  rw [if_neg (by norm_num), if_pos ⟨rfl, by rw [htruncate]; norm_num, by norm_num, le_rfl⟩,
    Native.value, toLong_longMax]
  norm_num

/-- What is written for a number is one, and denotes the same where it is exact. -/
def NumberReads (fraction : ℚ → List CodeUnit) (v : Native) : Prop :=
  ∃ text, writeNumber fraction v = .ok text ∧ IsNumber text ∧
    ((nodeOf (.number text)).native.value = v.value ↔ Exact v)

theorem native_integerText (n : ℤ) :
    (nodeOf (.number (integerText n))).native = nativeNumber (Binary64.round n) false := by
  rw [nodeOf, JsonNode.native, parseDouble_integerText, wasFloat_integerText]

/-- A `long` that is a double is read back, and no other one. -/
theorem value_integerText {n : ℤ} (hhigh : n < 2 ^ 63) :
    (nodeOf (.number (integerText n))).native.value = .double (.finite n) ↔ IsDouble n := by
  rw [native_integerText, ← round_eq_self_iff]
  have hne : (n : ℚ) ≠ 2 ^ 63 := by
    intro heq
    have h : n = 2 ^ 63 := by exact_mod_cast heq
    omega
  constructor
  · intro h
    cases hround : Binary64.round (n : ℚ) with
    | infinite negative =>
        rw [hround, nativeNumber, Native.value] at h
        cases h
    | finite q =>
        rw [hround] at h
        by_cases hq : q = 2 ^ 63
        · -- It is read as the lowest `long`, which would round to itself.
          rw [hq, value_nativeNumber_limit, Native.double.injEq] at h
          have hself := (round_eq_self_iff _).mpr isDouble_longMin
          rw [← Double.finite.inj h.symm] at hself
          rw [hself] at hround
          exact hround.symm
        · rw [value_nativeNumber hq, Native.double.injEq] at h
          exact h
  · intro h
    rw [h, value_nativeNumber hne]

theorem int_reads (fraction : ℚ → List CodeUnit) {n : ℤ} (hlow : -2 ^ 31 ≤ n) (hhigh : n < 2 ^ 31) :
    NumberReads fraction (.int n) := by
  refine ⟨integerText n, rfl, isNumber_integerText n, ?_⟩
  rw [Native.value, value_integerText (by omega)]
  exact iff_of_true (isDouble_int hlow hhigh) (by simp [Exact])

theorem long_reads (fraction : ℚ → List CodeUnit) {n : ℤ} (hhigh : n < 2 ^ 63) :
    NumberReads fraction (.long n) := by
  refine ⟨integerText n, rfl, isNumber_integerText n, ?_⟩
  rw [Native.value, value_integerText hhigh, Exact]

/-- A double between the limits is written as a `long`. -/
theorem double_reads_of_long (fraction : ℚ → List CodeUnit) {q : ℚ} (hdouble : IsDouble q)
    (htruncate : truncate q = q) (hlow : longMin ≤ q) (hhigh : q ≤ longMax) :
    NumberReads fraction (.double (.finite q)) := by
  have hwrite : writeNumber fraction (.double (.finite q)) = .ok (integerText (toLong q)) := by
    rw [writeNumber, tryNumber, if_pos ⟨htruncate, hlow, hhigh⟩]
  refine ⟨_, hwrite, isNumber_integerText _, ?_⟩
  rw [Native.value, Exact]
  by_cases hq : q = 2 ^ 63
  · -- The cast leaves the lowest `long`.
    have hcast : ((-2 ^ 63 : ℤ) : ℚ) = -2 ^ 63 := by norm_num
    have hdouble' : IsDouble ((-2 ^ 63 : ℤ) : ℚ) := by
      rw [hcast]
      exact isDouble_longMin
    have hread := (value_integerText (n := -2 ^ 63) (by norm_num)).mpr hdouble'
    rw [hq, toLong_longMax, hread, hcast]
    refine iff_of_false (fun h => ?_) (fun h => h rfl)
    rw [Native.double.injEq, Double.finite.injEq] at h
    norm_num at h
  · unfold longMin at hlow
    unfold longMax at hhigh
    have hlt := lt_of_le_of_ne hhigh hq
    rw [← htruncate] at hlow hlt hdouble
    have hlow' : -2 ^ 63 ≤ truncate q := by exact_mod_cast hlow
    have hlt' : truncate q < 2 ^ 63 := by exact_mod_cast hlt
    have hread := (value_integerText hlt').mpr hdouble
    rw [htruncate] at hread
    have hlong : toLong q = truncate q := by
      conv_lhs => rw [← htruncate]
      exact toLong_intCast hlow' hlt'
    rw [hlong, hread]
    exact iff_of_true rfl hq

/-- Every other double is formatted. -/
theorem double_reads (fraction : ℚ → List CodeUnit) {q : ℚ}
    (hv : WellFormed fraction (.double (.finite q))) :
    NumberReads fraction (.double (.finite q)) := by
  rw [WellFormed] at hv
  obtain ⟨hdouble, hfraction⟩ := hv
  by_cases hlong : truncate q = q ∧ longMin ≤ q ∧ q ≤ longMax
  · exact double_reads_of_long fraction hdouble hlong.1 hlong.2.1 hlong.2.2
  · have hwrite : writeNumber fraction (.double (.finite q)) = .ok (formatG17 fraction q) := by
      rw [writeNumber, tryNumber, if_neg hlong]
    have hread : IsNumber (formatG17 fraction q) ∧
        parseDouble (formatG17 fraction q) = .finite q := by
      by_cases htruncate : truncate q = q
      · refine parseDouble_formatG17 fraction hdouble htruncate ?_
        have hout : q < -2 ^ 63 ∨ 2 ^ 63 < q := by
          by_contra hin
          rw [not_or, not_lt, not_lt] at hin
          exact hlong ⟨htruncate, hin.1, hin.2⟩
        cases hout with
        | inl hbelow =>
            rw [abs_of_neg (by linarith)]
            linarith
        | inr habove =>
            rw [abs_of_pos (by linarith)]
            linarith
      · rw [formatG17, if_neg htruncate]
        exact hfraction htruncate
    have hq : q ≠ 2 ^ 63 := by
      intro heq
      apply hlong
      rw [heq]
      exact ⟨by decide +kernel, by norm_num [longMin], le_rfl⟩
    refine ⟨_, hwrite, hread.1, ?_⟩
    rw [nodeOf, JsonNode.native, hread.2, value_nativeNumber hq, Native.value, Exact]
    exact iff_of_true rfl hq

/-! ## Dictionaries -/

/-- The entries of a dictionary with distinct keys stay where they are. -/
theorem entriesOf_of_nodup (members : List (List CodeUnit × Tree))
    (obj : List (List CodeUnit × JsonNode))
    (hnodup : (obj.map Prod.fst ++ members.map Prod.fst).Nodup) :
    entriesOf obj members = obj ++ members.map fun m => (m.1, nodeOf m.2) := by
  induction members generalizing obj with
  | nil => simp [entriesOf]
  | cons member members ih =>
      obtain ⟨name, item⟩ := member
      have hnew : name ∉ obj.map Prod.fst := by
        intro hmem
        exact (List.nodup_append.mp hnodup).2.2 name hmem name (by simp) rfl
      rw [entriesOf, Table.putEntry_of_not_mem _ hnew, ih _ (by simpa using hnodup)]
      simp

theorem nativeMembers_of_nodup (members : List (List CodeUnit × JsonNode))
    (dict : List (List CodeUnit × Native))
    (hnodup : (dict.map Prod.fst ++ members.map Prod.fst).Nodup) :
    nativeMembers dict members = dict ++ members.map fun m => (m.1, m.2.native) := by
  induction members generalizing dict with
  | nil => simp [nativeMembers]
  | cons member members ih =>
      obtain ⟨key, node⟩ := member
      have hnew : key ∉ dict.map Prod.fst := by
        intro hmem
        exact (List.nodup_append.mp hnodup).2.2 key hmem key (by simp) rfl
      rw [nativeMembers, Table.putEntry_of_not_mem _ hnew, ih _ (by simpa using hnodup)]
      simp

theorem native_object {members : List (List CodeUnit × Tree)}
    (hnodup : (members.map Prod.fst).Nodup) :
    (nodeOf (.object members)).native =
      .dictionary (members.map fun m => (m.1, (nodeOf m.2).native)) := by
  rw [nodeOf, JsonNode.native, entriesOf_of_nodup members [] (by simpa using hnodup),
    List.nil_append, nativeMembers_of_nodup _ [] (by simpa [Function.comp_def] using hnodup)]
  simp

/-! ## Every value -/

section
variable (fraction : ℚ → List CodeUnit)

/-- What is written for a value says something, which denotes the same where the
value is exact. -/
def Reads (v : Native) : Prop :=
  ∃ text tree, write fraction v = .ok text ∧
    (∀ rest, Value rfc8259 (text ++ rest) tree rest) ∧
      ((nodeOf tree).native.value = v.value ↔ Exact v)

/-- So do the items that follow a first one. -/
def ItemsRead (items : List Native) : Prop :=
  ∃ text trees, writeItems fraction false items = .ok text ∧
    (∀ s tree rest, (∀ rest, Value rfc8259 (s ++ rest) tree rest) →
      Elements rfc8259 (s ++ (text ++ unit ']' :: rest)) (tree :: trees) rest) ∧
        (valueItems (nativeItems (nodesOf trees)) = valueItems items ↔ ExactItems items)

def EntriesRead (entries : List (List CodeUnit × Native)) : Prop :=
  ∃ text members, writeEntries fraction false entries = .ok text ∧
    members.map Prod.fst = entries.map Prod.fst ∧
      (∀ s name tree rest, (∀ rest, Member rfc8259 (s ++ rest) name tree rest) →
        Members rfc8259 (s ++ (text ++ unit '\x7d' :: rest)) ((name, tree) :: members) rest) ∧
          (valueEntries (members.map fun m => (m.1, (nodeOf m.2).native)) = valueEntries entries ↔
            ExactEntries entries)

end

section
variable {fraction : ℚ → List CodeUnit}

theorem reads_of_number {v : Native} (hwrite : write fraction v = writeNumber fraction v)
    (h : NumberReads fraction v) : Reads fraction v := by
  obtain ⟨text, htext, hnumber, hvalue⟩ := h
  exact ⟨text, .number text, by rw [hwrite, htext], fun rest => .number hnumber, hvalue⟩

theorem itemsRead_nil : ItemsRead fraction [] := by
  refine ⟨[], [], rfl, fun s tree rest hs => ?_, ?_⟩
  · exact .last (.mk (.refl _) (hs _) (.refl _))
  · exact iff_of_true rfl (by simp [ExactItems])

theorem itemsRead_cons {item : Native} {items : List Native} (hitem : Reads fraction item)
    (hitems : ItemsRead fraction items) : ItemsRead fraction (item :: items) := by
  obtain ⟨text, tree, hwrite, hvalue, hexact⟩ := hitem
  obtain ⟨more, trees, hwrites, helements, hexacts⟩ := hitems
  refine ⟨unit ',' :: (text ++ more), tree :: trees, ?_, fun s first rest hs => ?_, ?_⟩
  · rw [writeItems, hwrite, ok_bind, hwrites, ok_bind]
    rfl
  · have hrest := helements text tree rest hvalue
    rw [List.cons_append, List.append_assoc]
    exact .more (.mk (.refl _) (hs _) (.refl _)) hrest
  · rw [nodesOf, nativeItems, valueItems, valueItems, List.cons.injEq, hexact, hexacts, ExactItems]

theorem reads_nil : Reads fraction (.list []) := by
  refine ⟨units "[]", .array [], rfl, fun rest => .emptyArray (.refl _), ?_⟩
  exact iff_of_true rfl (by simp [Exact, ExactItems])

theorem reads_cons {item : Native} {items : List Native} (hitem : Reads fraction item)
    (hitems : ItemsRead fraction items) : Reads fraction (.list (item :: items)) := by
  obtain ⟨text, tree, hwrite, hvalue, hexact⟩ := hitem
  obtain ⟨more, trees, hwrites, helements, hexacts⟩ := hitems
  refine ⟨unit '[' :: (text ++ more ++ [unit ']']), .array (tree :: trees), ?_, fun rest => ?_, ?_⟩
  · rw [write, writeItems, hwrite, ok_bind, hwrites, ok_bind]
    rfl
  · have hrest := helements text tree rest hvalue
    have htext : unit '[' :: (text ++ more ++ [unit ']']) ++ rest =
        unit '[' :: (text ++ (more ++ unit ']' :: rest)) := by simp
    rw [htext]
    exact .array hrest
  · rw [nodeOf, JsonNode.native, nodesOf, nativeItems, Native.value, Native.value, valueItems,
      valueItems, Native.list.injEq, List.cons.injEq, hexact, hexacts, Exact, ExactItems]

/-- A key and its value, as they are written. -/
theorem member_write {text : List CodeUnit} {tree : Tree}
    (hvalue : ∀ rest, Value rfc8259 (text ++ rest) tree rest) (key rest : List CodeUnit) :
    Member rfc8259 (writeString key ++ (unit ':' :: text) ++ rest) key tree rest := by
  have htext : writeString key ++ (unit ':' :: text) ++ rest =
      unit '"' :: (key.flatMap writeChar ++ unit '"' :: (unit ':' :: (text ++ rest))) := by
    simp [writeString]
  rw [htext]
  exact .mk (.refl _) (chars_writeString key _) (.refl _) (.mk (.refl _) (hvalue rest) (.refl _))

theorem entriesRead_nil : EntriesRead fraction [] := by
  refine ⟨[], [], rfl, rfl, fun s name tree rest hs => .last (hs _), ?_⟩
  exact iff_of_true rfl (by simp [ExactEntries])

theorem entriesRead_cons (key : List CodeUnit) {item : Native}
    {entries : List (List CodeUnit × Native)} (hitem : Reads fraction item)
    (hentries : EntriesRead fraction entries) : EntriesRead fraction ((key, item) :: entries) := by
  obtain ⟨text, tree, hwrite, hvalue, hexact⟩ := hitem
  obtain ⟨more, members, hwrites, hkeys, hmembers, hexacts⟩ := hentries
  refine ⟨unit ',' :: (writeString key ++ (unit ':' :: text) ++ more), (key, tree) :: members, ?_,
    by rw [List.map_cons, List.map_cons, hkeys], fun s name first rest hs => ?_, ?_⟩
  · rw [writeEntries, hwrite, ok_bind, hwrites, ok_bind]
    simp [pure, Except.pure]
  · have hrest := hmembers _ key tree rest (member_write hvalue key)
    rw [List.cons_append, List.append_assoc]
    exact .more (hs _) hrest
  · rw [List.map_cons, valueEntries, valueEntries, List.cons.injEq, Prod.mk.injEq, hexacts,
      ExactEntries, hexact]
    exact and_congr_left' (and_iff_right rfl)

theorem reads_dictionary_nil : Reads fraction (.dictionary []) := by
  refine ⟨units "\x7b\x7d", .object [], rfl, fun rest => .emptyObject (.refl _), ?_⟩
  exact iff_of_true rfl (by simp [Exact, ExactEntries])

theorem reads_dictionary_cons (key : List CodeUnit) {item : Native}
    {entries : List (List CodeUnit × Native)}
    (hnodup : (((key, item) :: entries).map Prod.fst).Nodup) (hitem : Reads fraction item)
    (hentries : EntriesRead fraction entries) :
    Reads fraction (.dictionary ((key, item) :: entries)) := by
  obtain ⟨text, tree, hwrite, hvalue, hexact⟩ := hitem
  obtain ⟨more, members, hwrites, hkeys, hmembers, hexacts⟩ := hentries
  refine ⟨unit '\x7b' :: (writeString key ++ (unit ':' :: text) ++ more ++ [unit '\x7d']),
    .object ((key, tree) :: members), ?_, fun rest => ?_, ?_⟩
  · rw [write, writeEntries, hwrite, ok_bind, hwrites, ok_bind]
    simp [pure, Except.pure]
  · have hrest := hmembers _ key tree rest (member_write hvalue key)
    have htext : unit '\x7b' :: (writeString key ++ (unit ':' :: text) ++ more ++ [unit '\x7d']) ++
        rest = unit '\x7b' :: (writeString key ++ (unit ':' :: text) ++
          (more ++ unit '\x7d' :: rest)) := by simp
    rw [htext]
    exact .object hrest
  · have hnodup' : (((key, tree) :: members).map Prod.fst).Nodup := by
      rw [List.map_cons, hkeys]
      exact hnodup
    rw [native_object hnodup', Native.value, Native.value, Native.dictionary.injEq, List.map_cons,
      valueEntries, valueEntries, List.cons.injEq, Prod.mk.injEq, hexacts, Exact, ExactEntries,
      hexact]
    exact and_congr_left' (and_iff_right rfl)

end

mutual

theorem reads (fraction : ℚ → List CodeUnit) :
    ∀ v, WellFormed fraction v → Reads fraction v
  | .null, _ => ⟨units "null", .null, rfl, fun _ => .null, iff_of_true rfl (by simp [Exact])⟩
  | .bool true, _ =>
      ⟨units "true", .bool true, rfl, fun _ => .true, iff_of_true rfl (by simp [Exact])⟩
  | .bool false, _ =>
      ⟨units "false", .bool false, rfl, fun _ => .false, iff_of_true rfl (by simp [Exact])⟩
  | .string text, _ => by
      refine ⟨writeString text, .string text, rfl, fun rest => ?_,
        iff_of_true rfl (by simp [Exact])⟩
      have htext : writeString text ++ rest =
          unit '"' :: (text.flatMap writeChar ++ unit '"' :: rest) := by simp [writeString]
      rw [htext]
      exact .string (chars_writeString text rest)
  | .int n, hv => by
      rw [WellFormed] at hv
      exact reads_of_number rfl (int_reads fraction hv.1 hv.2)
  | .long n, hv => by
      rw [WellFormed] at hv
      exact reads_of_number rfl (long_reads fraction hv.2)
  | .double (.finite q), hv => reads_of_number rfl (double_reads fraction hv)
  | .double (.infinite _), hv => by
      rw [WellFormed] at hv
      exact hv.elim
  | .list [], _ => reads_nil
  | .list (item :: items), hv => by
      rw [WellFormed, WellFormedItems] at hv
      exact reads_cons (reads fraction item hv.1) (itemsRead fraction items hv.2)
  | .dictionary [], _ => reads_dictionary_nil
  | .dictionary ((key, item) :: entries), hv => by
      rw [WellFormed, WellFormedEntries] at hv
      exact reads_dictionary_cons key hv.1 (reads fraction item hv.2.1)
        (entriesRead fraction entries hv.2.2)

theorem itemsRead (fraction : ℚ → List CodeUnit) :
    ∀ items, WellFormedItems fraction items → ItemsRead fraction items
  | [], _ => itemsRead_nil
  | item :: items, hv => by
      rw [WellFormedItems] at hv
      exact itemsRead_cons (reads fraction item hv.1) (itemsRead fraction items hv.2)

theorem entriesRead (fraction : ℚ → List CodeUnit) :
    ∀ entries, WellFormedEntries fraction entries → EntriesRead fraction entries
  | [], _ => entriesRead_nil
  | (key, item) :: entries, hv => by
      rw [WellFormedEntries] at hv
      exact entriesRead_cons key (reads fraction item hv.1) (entriesRead fraction entries hv.2)

end

theorem Reads.roundTrips_iff {fraction : ℚ → List CodeUnit} {v : Native} (h : Reads fraction v) :
    RoundTrips fraction v ↔ Exact v := by
  obtain ⟨text, tree, hwrite, hvalue, hexact⟩ := h
  have htext : Text rfc8259 text tree := by
    have h := hvalue []
    rw [List.append_nil] at h
    exact .mk (.refl _) h (.refl _)
  have hparse := parse_of_text (htext.mono csharp_allows)
  rw [← hexact]
  constructor
  · rintro ⟨text', node, hwrite', hparse', hnode⟩
    rw [stringify, hwrite] at hwrite'
    rw [← Except.ok.inj hwrite', hparse] at hparse'
    rw [Except.ok.inj hparse', hnode]
  · intro h
    exact ⟨text, nodeOf tree, hwrite, hparse, h⟩

/-- A value comes back as itself exactly when every `long` in it is a double and no
double in it is 2 ^ 63. -/
theorem value_comes_back_iff (fraction : ℚ → List CodeUnit) (v : Native)
    (hv : WellFormed fraction v) : RoundTrips fraction v ↔ Exact v :=
  (reads fraction v hv).roundTrips_iff

/-- A dictionary with a `long` and a string that needs an escape. -/
theorem dictionary_comes_back :
    WellFormed (fun _ => []) (.dictionary [([0x1], .long (-4)), ([], .string [0xd800, 0x22])]) ∧
      (RoundTrips (fun _ => []) (.dictionary [([0x1], .long (-4)), ([], .string [0xd800, 0x22])]) ↔
        Exact (.dictionary [([0x1], .long (-4)), ([], .string [0xd800, 0x22])])) := by
  have hv : WellFormed (fun _ => [])
      (.dictionary [([0x1], .long (-4)), ([], .string [0xd800, 0x22])]) := by
    simp [WellFormed, WellFormedEntries]
  exact ⟨hv, value_comes_back_iff _ _ hv⟩

/-- The highest `long` comes back as the lowest one, and so does the double 2 ^ 63. -/
theorem highest_does_not_come_back :
    (WellFormed (fun _ => []) (.long 9223372036854775807) ∧
      ¬ RoundTrips (fun _ => []) (.long 9223372036854775807)) ∧
    (IsDouble (2 ^ 63) ∧ ¬ RoundTrips (fun _ => []) (.double (.finite (2 ^ 63)))) := by
  refine ⟨⟨by simp [WellFormed], fun h => ?_⟩, ⟨isDouble_longMax, fun h => ?_⟩⟩
  · have hexact := (reads_of_number rfl (long_reads _ (by norm_num))).roundTrips_iff.mp h
    rw [Exact, ← round_eq_self_iff, round_longMax, longMax, Double.finite.injEq] at hexact
    norm_num at hexact
  · have hreads := double_reads_of_long (fun _ => []) isDouble_longMax (by decide +kernel)
      (by norm_num [longMin]) le_rfl
    have hexact := (reads_of_number rfl hreads).roundTrips_iff.mp h
    rw [Exact] at hexact
    exact hexact rfl

end Wardx.CSharpJson
