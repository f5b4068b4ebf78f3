import Wardx.Aggregation.HyperLogLog
import Wardx.Control.ValidateExperiment

/-!
# Sketches on the wire

A sketch's body is its precision and the base64 of its registers. Node's decoder
takes both alphabets, skips what is in neither and stops at the padding, so
`decodeHllBody` encodes the bytes it read once more and compares.
-/
namespace Wardx.HyperLogLog

open Lib Json Control

/-- The six bits of a digit of either alphabet. -/
def base64Value (c : Char) : Option ℕ :=
  if c = '-' then some 62
  else if c = '_' then some 63
  else "ABCDEFGHIJKLMNOPQRSTUVWXYZabcdefghijklmnopqrstuvwxyz0123456789+/".toList.idxOf? c

/-- Four digits are three bytes; what is left over of a byte is dropped. -/
def bytesOf : List ℕ → List ℕ
  | a :: b :: c :: d :: rest =>
      (a * 4 + b / 16) :: (b % 16 * 16 + c / 4) :: (c % 4 * 64 + d) :: bytesOf rest
  | [a, b, c] => [a * 4 + b / 16, b % 16 * 16 + c / 4]
  | [a, b] => [a * 4 + b / 16]
  | _ => []

/-- `Buffer.from(text, 'base64')`. -/
def fromBase64 (text : String) : List ℕ :=
  bytesOf ((text.toList.takeWhile (· ≠ '=')).filterMap base64Value)

/-- The body a sketch is sent as. -/
def Registers.body (registers : Registers) : Json :=
  .obj [("precision", .num precision), ("registers", .str registers.text)]

def notCanonical : String := "HLL registers must be canonical base64"

def decodeHllBody (body : Json) : Except String Registers := do
  require body.isObject "HLL sketch must be an object"
  require (body.keys.all fun key => key = "precision" || key = "registers")
    "HLL sketch contains an unknown key"
  require (body.get? "precision" = some (.num precision)) "HLL precision must be 9"
  match text? (body.get? "registers") with
  | none => .error notCanonical
  | some text => do
      let registers := fromBase64 text
      require (base64 registers = text.toList) notCanonical
      if hlength : registers.length = registerCount then
        if hranks : ∀ rank ∈ registers, rank ≤ maxRank then .ok ⟨registers, hlength, hranks⟩
        else .error "HLL register rank must be <= 56"
      else .error "HLL registers must contain exactly 512 bytes"

/-! ## Round trip -/

/-- The digits of the bytes. -/
def digitsOf : List ℕ → List ℕ
  | a :: b :: c :: rest =>
      a / 4 :: (a % 4 * 16 + b / 16) :: (b % 16 * 4 + c / 64) :: c % 64 :: digitsOf rest
  | [a, b] => [a / 4, a % 4 * 16 + b / 16, b % 16 * 4]
  | [a] => [a / 4, a % 4 * 16]
  | [] => []

def padding : List ℕ → List Char
  | _ :: _ :: _ :: rest => padding rest
  | [_, _] => ['=']
  | [_] => ['=', '=']
  | [] => []

theorem base64_eq (bytes : List ℕ) :
    base64 bytes = (digitsOf bytes).map base64Digit ++ padding bytes := by
  induction bytes using digitsOf.induct with
  | case1 a b c rest ih => simp [base64, digitsOf, padding, ih]
  | case2 a b => rfl
  | case3 a => rfl
  | case4 => rfl

theorem bytesOf_digitsOf (bytes : List ℕ) (hbytes : ∀ byte ∈ bytes, byte < 256) :
    bytesOf (digitsOf bytes) = bytes := by
  induction bytes using digitsOf.induct with
  | case1 a b c rest ih =>
      have hrest := ih fun byte h => hbytes byte (by simp [h])
      have ha := hbytes a (by simp)
      have hb := hbytes b (by simp)
      have hc := hbytes c (by simp)
      rw [digitsOf, bytesOf, hrest]
      congr 1
      · omega
      · congr 1
        · omega
        · congr 1
          omega
  | case2 a b =>
      have ha := hbytes a (by simp)
      have hb := hbytes b (by simp)
      rw [digitsOf, bytesOf]
      congr 1
      · omega
      · congr 1
        omega
  | case3 a =>
      rw [digitsOf, bytesOf]
      congr 1
      omega
  | case4 => rfl

theorem digitsOf_lt (bytes : List ℕ) (hbytes : ∀ byte ∈ bytes, byte < 256) :
    ∀ digit ∈ digitsOf bytes, digit < 64 := by
  induction bytes using digitsOf.induct with
  | case1 a b c rest ih =>
      have hrest := ih fun byte h => hbytes byte (by simp [h])
      have ha := hbytes a (by simp)
      have hb := hbytes b (by simp)
      have hc := hbytes c (by simp)
      intro digit hdigit
      simp only [digitsOf, List.mem_cons] at hdigit
      rcases hdigit with h | h | h | h | h
      · omega
      · omega
      · omega
      · omega
      · exact hrest digit h
  | case2 a b =>
      have ha := hbytes a (by simp)
      have hb := hbytes b (by simp)
      intro digit hdigit
      simp only [digitsOf, List.mem_cons, List.not_mem_nil, or_false] at hdigit
      omega
  | case3 a =>
      have ha := hbytes a (by simp)
      intro digit hdigit
      simp only [digitsOf, List.mem_cons, List.not_mem_nil, or_false] at hdigit
      omega
  | case4 =>
      intro digit hdigit
      cases hdigit

theorem base64Value_base64Digit : ∀ n < 64, base64Value (base64Digit n) = some n := by
  decide +kernel

theorem base64Digit_ne_padding : ∀ n < 64, base64Digit n ≠ '=' := by
  decide +kernel

theorem head?_padding (bytes : List ℕ) : ∀ c ∈ (padding bytes).head?, c = '=' := by
  induction bytes using padding.induct with
  | case1 a b c rest ih => exact ih
  | _ => simp [padding]

theorem takeWhile_padding (digits : List ℕ) (hdigits : ∀ n ∈ digits, n < 64) (pad : List Char)
    (hpad : ∀ c ∈ pad.head?, c = '=') :
    (digits.map base64Digit ++ pad).takeWhile (· ≠ '=') = digits.map base64Digit := by
  have hall : ∀ c ∈ digits.map base64Digit, decide (c ≠ '=') = true := by
    intro c hc
    obtain ⟨n, hn, rfl⟩ := List.mem_map.mp hc
    exact decide_eq_true (base64Digit_ne_padding n (hdigits n hn))
  have hstop : pad.takeWhile (· ≠ '=') = [] := by
    cases pad with
    | nil => rfl
    | cons c pad =>
        rw [hpad c rfl]
        rfl
  rw [List.takeWhile_append_of_pos hall, hstop, List.append_nil]

theorem filterMap_digits (digits : List ℕ) (hdigits : ∀ n ∈ digits, n < 64) :
    (digits.map base64Digit).filterMap base64Value = digits := by
  induction digits with
  | nil => rfl
  | cons n digits ih =>
      have hrest := ih fun m hm => hdigits m (List.mem_cons_of_mem n hm)
      rw [List.map_cons,
        List.filterMap_cons_some (base64Value_base64Digit n (hdigits n List.mem_cons_self)), hrest]

/-- Decoding the text of bytes gives the bytes. -/
theorem fromBase64_base64 (bytes : List ℕ) (hbytes : ∀ byte ∈ bytes, byte < 256) :
    fromBase64 (String.ofList (base64 bytes)) = bytes := by
  have hdigits := digitsOf_lt bytes hbytes
  unfold fromBase64
  rw [String.toList_ofList, base64_eq, takeWhile_padding _ hdigits _ (head?_padding bytes),
    filterMap_digits _ hdigits, bytesOf_digitsOf bytes hbytes]

/-- The server reads back every sketch. -/
theorem decodeHllBody_body (registers : Registers) :
    decodeHllBody registers.body = .ok registers := by
  have hround : fromBase64 registers.text = registers.ranks := by
    apply fromBase64_base64
    intro rank hrank
    have := registers.ranks_le rank hrank
    unfold maxRank at this
    omega
  have hcanonical : base64 registers.ranks = registers.text.toList :=
    (String.toList_ofList).symm
  have htext : text? (registers.body.get? "registers") = some registers.text := rfl
  unfold decodeHllBody
  rw [htext]
  simp only [hround, dif_pos registers.length_eq, dif_pos registers.ranks_le, hcanonical]
  rfl

end Wardx.HyperLogLog
