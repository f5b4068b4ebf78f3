import Wardx.Lib.Binary64
import Wardx.Lib.JsonGrammar
import Wardx.Lib.Table

/-!
# The JSON of the C# client

The parser reads a string of UTF-16 code units by position. What is left of the
string stands for the position, and a position past the end for the end, which
no test of the source tells apart. Reading a unit or a substring that is not
there is a failure of its own. A function that calls itself, and the loop over a
string, run on fuel; `parse` gives them enough.

`double.Parse` is that of .NET Core 3.0 and later: exact, to the nearest double,
to an infinity where there is none. A dictionary is the list of its pairs, in the
order it lists them.
-/
namespace Wardx.CSharpJson

open Lib JsonGrammar Binary64

/-! ## Failures -/

inductive Failure
  | format (message : String)
  | argument (message : String)
  | invalidOperation (message : String)
  | outOfRange
  | outOfFuel
deriving DecidableEq

/-- `_s[_i]`. -/
def charAt : List CodeUnit → Except Failure CodeUnit
  | [] => .error .outOfRange
  | c :: _ => .ok c

/-- `_s.Substring(_i, length)`. -/
def substring (s : List CodeUnit) (length : ℕ) : Except Failure (List CodeUnit) :=
  if length ≤ s.length then .ok (s.take length) else .error .outOfRange

/-- `Peek`, which is a NUL at the end. -/
def peek : List CodeUnit → CodeUnit
  | [] => 0
  | c :: _ => c

/-! ## `JsonNode` -/

inductive JsonNode
  | null
  | bool (value : Bool)
  | num (value : Double) (wasFloat : Bool)
  | str (text : List CodeUnit)
  | arr (items : List JsonNode)
  | obj (members : List (List CodeUnit × JsonNode))

/-! ## Numbers -/

/-- The number of decimal digits, read on from a number. -/
def digitsValue : ℕ → List CodeUnit → ℕ
  | n, [] => n
  | n, c :: rest => digitsValue (n * 10 + (c.toNat - 48)) rest

/-- The exponent of a number's text, from its `e` on. -/
def exponentValue : List CodeUnit → ℤ
  | [] => 0
  | _ :: digits =>
      if peek digits = unit '-' then -(digitsValue 0 (digits.drop 1) : ℤ)
      else if peek digits = unit '+' then digitsValue 0 (digits.drop 1)
      else digitsValue 0 digits

/-- The number that a text denotes, without its sign. -/
def magnitude (text : List CodeUnit) : ℚ :=
  let int := text.takeWhile isDigit
  let rest := text.dropWhile isDigit
  let frac := if peek rest = unit '.' then (rest.drop 1).takeWhile isDigit else []
  let exp := if peek rest = unit '.' then (rest.drop 1).dropWhile isDigit else rest
  digitsValue 0 (int ++ frac) * 10 ^ (exponentValue exp - frac.length)

/-- `double.Parse`, for the texts `ParseNumber` takes. -/
def parseDouble (text : List CodeUnit) : Double :=
  if peek text = unit '-' then Binary64.round (-magnitude (text.drop 1))
  else Binary64.round (magnitude text)

/-- The part of `ParseNumber` up to the fraction. -/
def skipInt (s : List CodeUnit) : Except Failure (List CodeUnit) :=
  if peek s = unit '0' then .ok (s.drop 1)
  else if peek s < unit '1' ∨ unit '9' < peek s then .error (.format "bad number")
  else .ok (s.dropWhile isDigit)

/-- The part of `ParseNumber` from a point, if there is one. -/
def skipFraction (s : List CodeUnit) : Except Failure (Bool × List CodeUnit) :=
  if peek s = unit '.' then
    if peek (s.drop 1) < unit '0' ∨ unit '9' < peek (s.drop 1) then
      .error (.format "bad number fraction")
    else .ok (true, (s.drop 1).dropWhile isDigit)
  else .ok (false, s)

/-- The part of `ParseNumber` from an exponent, if there is one. -/
def skipExponent (isFloat : Bool) (s : List CodeUnit) : Except Failure (Bool × List CodeUnit) :=
  if peek s = unit 'e' ∨ peek s = unit 'E' then
    let s := s.drop 1
    let s := if peek s = unit '+' ∨ peek s = unit '-' then s.drop 1 else s
    if peek s < unit '0' ∨ unit '9' < peek s then .error (.format "bad number exponent")
    else .ok (true, s.dropWhile isDigit)
  else .ok (isFloat, s)

/-- `ParseNumber`. -/
def parseNumber (start : List CodeUnit) : Except Failure (JsonNode × List CodeUnit) := do
  let s ← skipInt (if peek start = unit '-' then start.drop 1 else start)
  let (isFloat, s) ← skipFraction s
  let (isFloat, s) ← skipExponent isFloat s
  let text ← substring start (start.length - s.length)
  pure (.num (parseDouble text) isFloat, s)

/-! ## Strings -/

/-- What `Convert.ToInt32` takes off the front of a hexadecimal number. -/
def skipPrefix : List CodeUnit → List CodeUnit
  | zero :: x :: rest =>
      if zero = unit '0' ∧ (x = unit 'x' ∨ x = unit 'X') then rest else zero :: x :: rest
  | s => s

/-- `Convert.ToInt32(hex, 16)`. -/
def convertToInt32 (hex : List CodeUnit) : Except Failure ℕ := do
  let sign ← charAt hex
  if sign = unit '-' then
    .error (.argument "String cannot contain a minus sign if the base is not 10.")
  else
    let digits := skipPrefix (if sign = unit '+' then hex.drop 1 else hex)
    if digits = [] then .error (.format "Could not find any recognizable digits.")
    else
      match hexDigits 0 digits with
      | some n => .ok n
      | none =>
          .error (.format "Additional non-parsable characters are at the end of the string.")

/-- The escapes of one character. -/
def simpleEscape (e : CodeUnit) : Option CodeUnit :=
  if e = unit '"' ∨ e = unit '\\' ∨ e = unit '/' then some e
  else if e = unit 'b' then some 0x8
  else if e = unit 'f' then some 0xc
  else if e = unit 'n' then some 0xa
  else if e = unit 'r' then some 0xd
  else if e = unit 't' then some 0x9
  else none

/-- The loop of `ParseString`, over what follows the quotation mark; the
characters are appended in the order they are read. -/
def parseChars : ℕ → List CodeUnit → List CodeUnit →
    Except Failure (List CodeUnit × List CodeUnit)
  | 0, _, _ => .error .outOfFuel
  | fuel + 1, sb, s =>
      if s = [] then .error (.format "unterminated string")
      else do
        let c ← charAt s
        let s := s.drop 1
        if c = unit '"' then pure (sb, s)
        else if c ≠ unit '\\' then parseChars fuel (sb ++ [c]) s
        else if s = [] then .error (.format "unterminated string escape")
        else do
          let e ← charAt s
          let s := s.drop 1
          match simpleEscape e with
          | some char => parseChars fuel (sb ++ [char]) s
          | none =>
              if e = unit 'u' then
                if s.length < 4 then .error (.format "bad unicode escape")
                else do
                  let hex ← substring s 4
                  let code ← convertToInt32 hex
                  parseChars fuel (sb ++ [UInt16.ofNat code]) (s.drop 4)
              else .error (.format "bad string escape")

/-- `ParseString`. -/
def parseString (fuel : ℕ) (s : List CodeUnit) : Except Failure (List CodeUnit × List CodeUnit) :=
  parseChars fuel [] (s.drop 1)

/-! ## Values -/

/-- `SkipWs`. -/
def skipWs (s : List CodeUnit) : List CodeUnit :=
  s.dropWhile fun c => c = unit ' ' || c = unit '\n' || c = unit '\r' || c = unit '\t'

/-- `Expect`. -/
def expect (token : String) (s : List CodeUnit) : Except Failure (List CodeUnit) :=
  let length := (units token).length
  if s.length < length then .error (.format ("expected " ++ token))
  else do
    let text ← substring s length
    if text ≠ units token then .error (.format ("expected " ++ token))
    else pure (s.drop length)

/-- `ParseArray`; `elements` is its loop. -/
def parseArray (elements : List JsonNode → List CodeUnit → Except Failure (JsonNode × List CodeUnit))
    (s : List CodeUnit) : Except Failure (JsonNode × List CodeUnit) :=
  let s := skipWs (s.drop 1)
  if peek s = unit ']' then .ok (.arr [], s.drop 1) else elements [] s

/-- `ParseObject`; `members` is its loop. -/
def parseObject
    (members : List (List CodeUnit × JsonNode) → List CodeUnit →
      Except Failure (JsonNode × List CodeUnit))
    (s : List CodeUnit) : Except Failure (JsonNode × List CodeUnit) :=
  let s := skipWs (s.drop 1)
  if peek s = unit '\x7d' then .ok (.obj [], s.drop 1) else members [] s

section
variable (length : ℕ)

mutual

/-- `ParseValue`; `length` is that of the whole string. -/
def parseValue : ℕ → List CodeUnit → Except Failure (JsonNode × List CodeUnit)
  | 0, _ => .error .outOfFuel
  | fuel + 1, s => do
      let s := skipWs s
      if s = [] then .error (.format "unexpected end of JSON")
      else
        let c ← charAt s
        if c = unit '\x7b' then parseObject (parseMembers fuel) s
        else if c = unit '[' then parseArray (parseElements fuel) s
        else if c = unit '"' then do
          let (text, s) ← parseString fuel s
          pure (.str text, s)
        else if c = unit 't' then do
          let s ← expect "true" s
          pure (.bool true, s)
        else if c = unit 'f' then do
          let s ← expect "false" s
          pure (.bool false, s)
        else if c = unit 'n' then do
          let s ← expect "null" s
          pure (.null, s)
        else if c = unit '-' ∨ unit '0' ≤ c ∧ c ≤ unit '9' then parseNumber s
        else .error (.format ("unexpected JSON at " ++ toString (length - s.length)))

/-- The loop of `ParseArray`. -/
def parseElements : ℕ → List JsonNode → List CodeUnit → Except Failure (JsonNode × List CodeUnit)
  | 0, _, _ => .error .outOfFuel
  | fuel + 1, list, s => do
      let (node, s) ← parseValue fuel s
      let s := skipWs s
      if peek s = unit ',' then parseElements fuel (list ++ [node]) (s.drop 1)
      else if peek s = unit ']' then pure (.arr (list ++ [node]), s.drop 1)
      else .error (.format "expected comma or end of array")

/-- The loop of `ParseObject`. -/
def parseMembers : ℕ → List (List CodeUnit × JsonNode) → List CodeUnit →
    Except Failure (JsonNode × List CodeUnit)
  | 0, _, _ => .error .outOfFuel
  | fuel + 1, obj, s => do
      let s := skipWs s
      if peek s ≠ unit '"' then .error (.format "expected object key")
      else
        let (key, s) ← parseString fuel s
        let s := skipWs s
        if peek s ≠ unit ':' then .error (.format "expected colon")
        else
          let (node, s) ← parseValue fuel (s.drop 1)
          let obj := Table.putEntry key node obj
          let s := skipWs s
          if peek s = unit ',' then parseMembers fuel obj (s.drop 1)
          else if peek s = unit '\x7d' then pure (.obj obj, s.drop 1)
          else .error (.format "expected comma or end of object")

end

end

/-- `Json.Parse`. -/
def parse (json : List CodeUnit) : Except Failure JsonNode := do
  let (node, s) ← parseValue json.length (2 * json.length + 2) json
  if skipWs s ≠ [] then .error (.format "unexpected trailing JSON")
  else pure node

example : parse (units "[true, \"a\\n\", null] ") =
    .ok (.arr [.bool true, .str (units "a\n"), .null]) := by
  rfl

end Wardx.CSharpJson
