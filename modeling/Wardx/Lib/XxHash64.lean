import Mathlib.Algebra.Group.Nat.Defs
import Mathlib.Tactic.TypeStar

/-!
# XXH64

The 64-bit digest of the XXH algorithm family. The input is taken in stripes of
32 bytes by four accumulators, then in lanes of 8 bytes, at most one of 4, and
single bytes. A shorter input skips the accumulators. Words are little-endian and
all arithmetic is modulo `2 ^ 64`.
-/
namespace Wardx.Lib.XxHash64

def prime1 : UInt64 := 0x9E3779B185EBCA87
def prime2 : UInt64 := 0xC2B2AE3D27D4EB4F
def prime3 : UInt64 := 0x165667B19E3779F9
def prime4 : UInt64 := 0x85EBCA77C2B2AE63
def prime5 : UInt64 := 0x27D4EB2F165667C5

/-- The little-endian word of some bytes. -/
def word : List UInt8 → UInt64
  | [] => 0
  | byte :: bytes => byte.toUInt64 + 256 * word bytes

def rotate (value count : UInt64) : UInt64 := (value <<< count) ||| (value >>> (64 - count))

def round (accumulator lane : UInt64) : UInt64 := rotate (accumulator + lane * prime2) 31 * prime1

def merge (digest accumulator : UInt64) : UInt64 := (digest ^^^ round 0 accumulator) * prime1 + prime4

/-! ## Stripes -/

@[ext] structure Accumulators where
  first : UInt64
  second : UInt64
  third : UInt64
  fourth : UInt64
deriving DecidableEq, Repr

def Accumulators.init (seed : UInt64) : Accumulators :=
  ⟨seed + prime1 + prime2, seed + prime2, seed, seed - prime1⟩

def stripe (accumulators : Accumulators) (bytes : List UInt8) : Accumulators where
  first := round accumulators.first (word (bytes.take 8))
  second := round accumulators.second (word ((bytes.drop 8).take 8))
  third := round accumulators.third (word ((bytes.drop 16).take 8))
  fourth := round accumulators.fourth (word ((bytes.drop 24).take 8))

/-- The accumulators after all whole stripes, and the bytes behind these. -/
def stripes (accumulators : Accumulators) (bytes : List UInt8) : Accumulators × List UInt8 :=
  if 32 ≤ bytes.length then stripes (stripe accumulators bytes) (bytes.drop 32)
  else (accumulators, bytes)
termination_by bytes.length
decreasing_by
  rw [List.length_drop]
  omega

def converge (accumulators : Accumulators) : UInt64 :=
  let sum := rotate accumulators.first 1 + rotate accumulators.second 7 +
    rotate accumulators.third 12 + rotate accumulators.fourth 18
  merge (merge (merge (merge sum accumulators.first) accumulators.second) accumulators.third)
    accumulators.fourth

/-! ## What is left -/

def lane (digest value : UInt64) : UInt64 := rotate (digest ^^^ round 0 value) 27 * prime1 + prime4

def lanes (digest : UInt64) (bytes : List UInt8) : UInt64 × List UInt8 :=
  if 8 ≤ bytes.length then lanes (lane digest (word (bytes.take 8))) (bytes.drop 8)
  else (digest, bytes)
termination_by bytes.length
decreasing_by
  rw [List.length_drop]
  omega

def halfLane (digest value : UInt64) : UInt64 :=
  rotate (digest ^^^ (value * prime1)) 23 * prime2 + prime3

def half (digest : UInt64) (bytes : List UInt8) : UInt64 × List UInt8 :=
  if 4 ≤ bytes.length then (halfLane digest (word (bytes.take 4)), bytes.drop 4)
  else (digest, bytes)

def single (digest : UInt64) (byte : UInt8) : UInt64 :=
  rotate (digest ^^^ (byte.toUInt64 * prime5)) 11 * prime1

def avalanche (digest : UInt64) : UInt64 :=
  let first := (digest ^^^ (digest >>> 33)) * prime2
  let second := (first ^^^ (first >>> 29)) * prime3
  second ^^^ (second >>> 32)

/-- The digest before its length is added, and the bytes that no stripe took. -/
def start (seed : UInt64) (bytes : List UInt8) : UInt64 × List UInt8 :=
  if 32 ≤ bytes.length then
    let taken := stripes (.init seed) bytes
    (converge taken.1, taken.2)
  else (seed + prime5, bytes)

def digest (seed : UInt64) (bytes : List UInt8) : UInt64 :=
  let started := start seed bytes
  let laned := lanes (started.1 + UInt64.ofNat bytes.length) started.2
  let halved := half laned.1 laned.2
  avalanche (halved.2.foldl single halved.1)

example : digest 0 [] = 0xEF46DB3751D8E999 := by decide +kernel

/-! ## Words by their bits -/

theorem toNat_word_lt (bytes : List UInt8) (h : bytes.length ≤ 8) :
    (word bytes).toNat < 2 ^ (8 * bytes.length) := by
  induction bytes with
  | nil => decide
  | cons byte bytes ih =>
      rw [List.length_cons] at h
      have hrest := ih (by omega)
      have hbyte := byte.toNat_lt
      have hpow : 2 ^ (8 * (bytes.length + 1)) = 256 * 2 ^ (8 * bytes.length) := by
        rw [Nat.mul_add, Nat.pow_add, Nat.mul_comm]
      have hle : 2 ^ (8 * (bytes.length + 1)) ≤ 2 ^ 64 := Nat.pow_le_pow_right (by decide) (by omega)
      rw [List.length_cons, word, UInt64.toNat_add, UInt64.toNat_mul, UInt8.toNat_toUInt64]
      have hconst : (256 : UInt64).toNat = 256 := rfl
      rw [hconst, hpow] at *
      omega

/-- Words without wrap: a byte and the word of the bytes behind it. -/
theorem toNat_word_cons (byte : UInt8) (bytes : List UInt8) (h : bytes.length < 8) :
    (word (byte :: bytes)).toNat = byte.toNat + 256 * (word bytes).toNat := by
  have hrest := toNat_word_lt bytes (by omega)
  have hbyte := byte.toNat_lt
  have hle : 2 ^ (8 * bytes.length) ≤ 2 ^ 56 := Nat.pow_le_pow_right (by decide) (by omega)
  have hconst : (256 : UInt64).toNat = 256 := rfl
  rw [word, UInt64.toNat_add, UInt64.toNat_mul, UInt8.toNat_toUInt64, hconst]
  omega

end Wardx.Lib.XxHash64
