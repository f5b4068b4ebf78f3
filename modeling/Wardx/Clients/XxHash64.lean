import Wardx.Lib.XxHash64
import Mathlib.Data.Nat.Bitwise

/-!
# XXH64 in C# and Swift

Both ports walk an array of bytes by an offset and read words where it points. A
read beyond the array throws in C# and traps in Swift; here it is none. The ports
differ in how a word is read: C# takes a span of the array and has it read, Swift
reads byte by byte and joins them.
-/
namespace Wardx.XxHash64

open Lib

/-! ## The ports -/

def prime1 : UInt64 := 11400714785074694791
def prime2 : UInt64 := 14029467366897019727
def prime3 : UInt64 := 1609587929392839161
def prime4 : UInt64 := 9650029242287828579
def prime5 : UInt64 := 2870177450012600261

def rotateLeft (value count : UInt64) : UInt64 := (value <<< count) ||| (value >>> (64 - count))

def round (accumulator lane : UInt64) : UInt64 :=
  rotateLeft (accumulator + lane * prime2) 31 * prime1

def mergeRound (accumulator lane : UInt64) : UInt64 :=
  (accumulator ^^^ round 0 lane) * prime1 + prime4

/-- `v1` to `v4`. -/
structure Lanes where
  v1 : UInt64
  v2 : UInt64
  v3 : UInt64
  v4 : UInt64
deriving DecidableEq, Repr

section
/- How a language reads the word of so many bytes at an offset. -/
variable (read : ℕ → List UInt8 → ℕ → Option UInt64)

/-- The body of the loop over stripes. -/
def readStripe (bytes : List UInt8) (offset : ℕ) (v : Lanes) : Option Lanes := do
  let lane1 ← read 8 bytes offset
  let lane2 ← read 8 bytes (offset + 8)
  let lane3 ← read 8 bytes (offset + 16)
  let lane4 ← read 8 bytes (offset + 24)
  some ⟨round v.v1 lane1, round v.v2 lane2, round v.v3 lane3, round v.v4 lane4⟩

/-- The loop that runs at least once. -/
def stripeLoop (bytes : List UInt8) (offset : ℕ) (v : Lanes) : Option (ℕ × Lanes) :=
  match readStripe read bytes offset v with
  | none => none
  | some next =>
      if (offset + 32 : ℤ) ≤ bytes.length - 32 then stripeLoop bytes (offset + 32) next
      else some (offset + 32, next)
termination_by bytes.length - offset

def laneLoop (bytes : List UInt8) (offset : ℕ) (hash : UInt64) : Option (ℕ × UInt64) :=
  if (offset : ℤ) ≤ bytes.length - 8 then
    match read 8 bytes offset with
    | none => none
    | some lane =>
        laneLoop bytes (offset + 8)
          (rotateLeft (hash ^^^ round 0 lane) 27 * prime1 + prime4)
  else some (offset, hash)
termination_by bytes.length - offset

/-- The test for four more bytes. -/
def halfLane (bytes : List UInt8) (offset : ℕ) (hash : UInt64) : Option (ℕ × UInt64) :=
  if (offset : ℤ) ≤ bytes.length - 4 then do
    let lane ← read 4 bytes offset
    some (offset + 4, rotateLeft (hash ^^^ (lane * prime1)) 23 * prime2 + prime3)
  else some (offset, hash)

def byteLoop (bytes : List UInt8) (offset : ℕ) (hash : UInt64) : Option UInt64 :=
  if offset < bytes.length then
    match bytes[offset]? with
    | none => none
    | some byte =>
        byteLoop bytes (offset + 1) (rotateLeft (hash ^^^ (byte.toUInt64 * prime5)) 11 * prime1)
  else some hash
termination_by bytes.length - offset

/-- The hash before the length is added, and the offset behind the stripes. -/
def open32 (bytes : List UInt8) : Option (ℕ × UInt64) :=
  if 32 ≤ bytes.length then do
    let (offset, v) ← stripeLoop read bytes 0 ⟨prime1 + prime2, prime2, 0, 0 - prime1⟩
    let hash := rotateLeft v.v1 1 + rotateLeft v.v2 7 + rotateLeft v.v3 12 + rotateLeft v.v4 18
    some (offset, mergeRound (mergeRound (mergeRound (mergeRound hash v.v1) v.v2) v.v3) v.v4)
  else some (0, prime5)

/-- The shifts and products at the end. -/
def finish (hash : UInt64) : UInt64 :=
  let hash := hash ^^^ (hash >>> 33)
  let hash := hash * prime2
  let hash := hash ^^^ (hash >>> 29)
  let hash := hash * prime3
  hash ^^^ (hash >>> 32)

/-- `XxHash64`, `xxHash64`. -/
def xxHash64 (bytes : List UInt8) : Option UInt64 := do
  let (offset, hash) ← open32 read bytes
  let (offset, hash) ← laneLoop read bytes offset (hash + UInt64.ofNat bytes.length)
  let (offset, hash) ← halfLane read bytes offset hash
  let hash ← byteLoop bytes offset hash
  some (finish hash)

end

namespace CSharp

/-- `bytes.AsSpan(offset)`. -/
def asSpan (bytes : List UInt8) (offset : ℕ) : Option (List UInt8) :=
  if offset ≤ bytes.length then some (bytes.drop offset) else none

/-- `ReadUInt64LittleEndian` and `ReadUInt32LittleEndian` of a span. -/
def readLittleEndian (width : ℕ) (span : List UInt8) : Option UInt64 :=
  if width ≤ span.length then some (Lib.XxHash64.word (span.take width)) else none

def read (width : ℕ) (bytes : List UInt8) (offset : ℕ) : Option UInt64 :=
  (asSpan bytes offset).bind (readLittleEndian width)

def xxHash64 : List UInt8 → Option UInt64 := XxHash64.xxHash64 read

end CSharp

namespace Swift

/-- The loop of `read64` and `read32` over the indices. -/
def readBytes (bytes : List UInt8) (offset : ℕ) : List ℕ → UInt64 → Option UInt64
  | [], value => some value
  | index :: indices, value =>
      match bytes[offset + index]? with
      | none => none
      | some byte =>
          readBytes bytes offset indices (value ||| (byte.toUInt64 <<< (8 * UInt64.ofNat index)))

def read (width : ℕ) (bytes : List UInt8) (offset : ℕ) : Option UInt64 :=
  readBytes bytes offset (List.range width) 0

def xxHash64 : List UInt8 → Option UInt64 := XxHash64.xxHash64 read

end Swift

/-! ## Reads -/

/-- Within the array a read is the word of the bytes there. -/
def ReadsWords (read : ℕ → List UInt8 → ℕ → Option UInt64) : Prop :=
  ∀ width bytes offset, width ≤ 8 → offset + width ≤ bytes.length →
    read width bytes offset = some (Lib.XxHash64.word ((bytes.drop offset).take width))

theorem cSharp_readsWords : ReadsWords CSharp.read := by
  intro width bytes offset _ h
  unfold CSharp.read CSharp.asSpan
  rw [if_pos (by omega), Option.bind_some, CSharp.readLittleEndian,
    if_pos (by rw [List.length_drop]; omega)]

/-- The word of bytes with one more behind them, which stands in higher bits. -/
theorem word_append_singleton (bytes : List UInt8) (byte : UInt8) (h : bytes.length < 8) :
    (Lib.XxHash64.word (bytes ++ [byte])).toNat =
      (Lib.XxHash64.word bytes).toNat + 2 ^ (8 * bytes.length) * byte.toNat := by
  induction bytes with
  | nil =>
      rw [List.nil_append, Lib.XxHash64.toNat_word_cons _ _ (by decide)]
      show byte.toNat + 256 * 0 = 0 + 1 * byte.toNat
      omega
  | cons first bytes ih =>
      rw [List.length_cons] at h
      have hlength : (bytes ++ [byte]).length < 8 := by
        rw [List.length_append, List.length_singleton]
        omega
      have hpow : 2 ^ (8 * (bytes.length + 1)) = 256 * 2 ^ (8 * bytes.length) := by
        rw [Nat.mul_add, Nat.pow_add, Nat.mul_comm]
      rw [List.cons_append, Lib.XxHash64.toNat_word_cons _ _ hlength, ih (by omega),
        Lib.XxHash64.toNat_word_cons _ _ (by omega), List.length_cons, hpow, Nat.mul_assoc]
      omega

theorem word_or_shift (bytes : List UInt8) (byte : UInt8) (h : bytes.length < 8) :
    Lib.XxHash64.word bytes ||| (byte.toUInt64 <<< (8 * UInt64.ofNat bytes.length)) =
      Lib.XxHash64.word (bytes ++ [byte]) := by
  have hbyte := byte.toNat_lt
  have hlow := Lib.XxHash64.toNat_word_lt bytes (by omega)
  have hcount : (8 * UInt64.ofNat bytes.length).toNat = 8 * bytes.length := by
    rw [UInt64.toNat_mul, UInt64.toNat_ofNat']
    have hconst : (8 : UInt64).toNat = 8 := rfl
    rw [hconst]
    omega
  have hpow : 2 ^ (8 * bytes.length) ≤ 2 ^ 56 := Nat.pow_le_pow_right (by decide) (by omega)
  have hshift : (byte.toUInt64 <<< (8 * UInt64.ofNat bytes.length)).toNat =
      2 ^ (8 * bytes.length) * byte.toNat := by
    have hplace : 8 * bytes.length % 64 = 8 * bytes.length := Nat.mod_eq_of_lt (by omega)
    rw [UInt64.toNat_shiftLeft, hcount, UInt8.toNat_toUInt64, hplace, Nat.shiftLeft_eq, Nat.mul_comm]
    apply Nat.mod_eq_of_lt
    calc 2 ^ (8 * bytes.length) * byte.toNat ≤ 2 ^ 56 * byte.toNat := Nat.mul_le_mul_right _ hpow
      _ < 2 ^ 64 := by omega
  rw [← UInt64.toNat_inj, UInt64.toNat_or, hshift, word_append_singleton bytes byte h, Nat.or_comm,
    ← Nat.two_pow_add_eq_or_of_lt hlow, Nat.add_comm]

theorem readBytes_eq (bytes : List UInt8) (offset : ℕ) {count taken : ℕ} (hwidth : taken + count ≤ 8)
    (h : offset + (taken + count) ≤ bytes.length) :
    Swift.readBytes bytes offset (List.range' taken count)
        (Lib.XxHash64.word ((bytes.drop offset).take taken)) =
      some (Lib.XxHash64.word ((bytes.drop offset).take (taken + count))) := by
  induction count generalizing taken with
  | zero => rfl
  | succ count ih =>
      have hin : offset + taken < bytes.length := by omega
      have hlength : ((bytes.drop offset).take taken).length = taken := by
        rw [List.length_take, List.length_drop]
        omega
      have hnext : (bytes.drop offset).take (taken + 1) =
          (bytes.drop offset).take taken ++ [bytes[offset + taken]] := by
        rw [List.take_add_one, List.getElem?_drop, List.getElem?_eq_getElem hin]
        rfl
      have hword := word_or_shift ((bytes.drop offset).take taken) bytes[offset + taken]
        (by omega)
      rw [hlength, ← hnext] at hword
      rw [List.range'_succ, Swift.readBytes, List.getElem?_eq_getElem hin]
      dsimp only
      rw [hword, ih (by omega) (by omega), Nat.add_right_comm, Nat.add_assoc taken count 1]

theorem swift_readsWords : ReadsWords Swift.read := by
  intro width bytes offset hwidth h
  have hread := @readBytes_eq bytes offset width 0 (by omega) (by omega)
  rw [zero_add] at hread
  rw [Swift.read, List.range_eq_range']
  exact hread

/-! ## The loops -/

def accumulators (v : Lanes) : XxHash64.Accumulators := ⟨v.v1, v.v2, v.v3, v.v4⟩

section
variable {read : ℕ → List UInt8 → ℕ → Option UInt64} (hread : ReadsWords read)
include hread

theorem readStripe_eq {bytes : List UInt8} {offset : ℕ} (h : offset + 32 ≤ bytes.length)
    (v : Lanes) : ∃ next, readStripe read bytes offset v = some next ∧
      accumulators next = Lib.XxHash64.stripe (accumulators v) (bytes.drop offset) := by
  have hlane : ∀ place, place + 8 ≤ 32 → read 8 bytes (offset + place) =
      some (Lib.XxHash64.word (((bytes.drop offset).drop place).take 8)) := by
    intro place hplace
    rw [hread 8 bytes (offset + place) le_rfl (by omega), List.drop_drop]
  have hfirst := hlane 0 (by decide)
  rw [add_zero, List.drop_zero] at hfirst
  unfold readStripe
  rw [hfirst, hlane 8 (by decide), hlane 16 (by decide), hlane 24 (by decide)]
  exact ⟨_, rfl, rfl⟩

/-- The loop takes the whole stripes and stops at the offset behind them. -/
theorem stripeLoop_eq {bytes : List UInt8} {offset : ℕ} (h : offset + 32 ≤ bytes.length)
    (v : Lanes) : ∃ last next, stripeLoop read bytes offset v = some (last, next) ∧
      last ≤ bytes.length ∧
      Lib.XxHash64.stripes (accumulators v) (bytes.drop offset) =
        (accumulators next, bytes.drop last) := by
  obtain ⟨next, hnext, hstripe⟩ := readStripe_eq hread h v
  have hlong : 32 ≤ (bytes.drop offset).length := by
    rw [List.length_drop]
    omega
  rw [stripeLoop, hnext, Lib.XxHash64.stripes, if_pos hlong, ← hstripe, List.drop_drop]
  dsimp only
  by_cases hmore : (offset + 32 : ℤ) ≤ bytes.length - 32
  · rw [if_pos hmore]
    exact stripeLoop_eq (by omega) next
  · have hshort : ¬ 32 ≤ (bytes.drop (offset + 32)).length := by
      rw [List.length_drop]
      omega
    rw [if_neg hmore, Lib.XxHash64.stripes, if_neg hshort]
    exact ⟨offset + 32, next, rfl, h, rfl⟩
termination_by bytes.length - offset

theorem laneLoop_eq {bytes : List UInt8} {offset : ℕ} (h : offset ≤ bytes.length) (hash : UInt64) :
    ∃ last next, laneLoop read bytes offset hash = some (last, next) ∧ last ≤ bytes.length ∧
      Lib.XxHash64.lanes hash (bytes.drop offset) = (next, bytes.drop last) := by
  rw [laneLoop, Lib.XxHash64.lanes, List.length_drop]
  by_cases hmore : (offset : ℤ) ≤ bytes.length - 8
  · have hword := hread 8 bytes offset le_rfl (by omega)
    rw [if_pos hmore, if_pos (by omega), hword, List.drop_drop]
    exact laneLoop_eq (by omega) _
  · rw [if_neg hmore, if_neg (by omega)]
    exact ⟨offset, hash, rfl, h, rfl⟩
termination_by bytes.length - offset

theorem halfLane_eq {bytes : List UInt8} {offset : ℕ} (h : offset ≤ bytes.length) (hash : UInt64) :
    ∃ last next, halfLane read bytes offset hash = some (last, next) ∧ last ≤ bytes.length ∧
      Lib.XxHash64.half hash (bytes.drop offset) = (next, bytes.drop last) := by
  unfold halfLane Lib.XxHash64.half
  rw [List.length_drop]
  by_cases hmore : (offset : ℤ) ≤ bytes.length - 4
  · have hword := hread 4 bytes offset (by decide) (by omega)
    rw [if_pos hmore, if_pos (by omega), hword, List.drop_drop]
    exact ⟨offset + 4, _, rfl, by omega, rfl⟩
  · rw [if_neg hmore, if_neg (by omega)]
    exact ⟨offset, hash, rfl, h, rfl⟩

omit hread in
theorem byteLoop_eq {bytes : List UInt8} (offset : ℕ) (hash : UInt64) :
    byteLoop bytes offset hash = some ((bytes.drop offset).foldl Lib.XxHash64.single hash) := by
  rw [byteLoop]
  by_cases hmore : offset < bytes.length
  · rw [if_pos hmore, List.getElem?_eq_getElem hmore, List.drop_eq_getElem_cons hmore]
    exact byteLoop_eq (offset + 1) _
  · rw [if_neg hmore, List.drop_eq_nil_of_le (by omega)]
    rfl
termination_by bytes.length - offset

theorem open32_eq (bytes : List UInt8) :
    ∃ last hash, open32 read bytes = some (last, hash) ∧ last ≤ bytes.length ∧
      Lib.XxHash64.start 0 bytes = (hash, bytes.drop last) := by
  unfold open32 Lib.XxHash64.start
  by_cases hlong : 32 ≤ bytes.length
  · have hinit : accumulators ⟨prime1 + prime2, prime2, 0, 0 - prime1⟩ = .init 0 := by decide
    obtain ⟨last, next, hloop, hlast, hstripes⟩ :=
      @stripeLoop_eq read hread bytes 0 (by omega) ⟨prime1 + prime2, prime2, 0, 0 - prime1⟩
    rw [hinit, List.drop_zero] at hstripes
    rw [if_pos hlong, if_pos hlong, hloop, hstripes]
    exact ⟨last, _, rfl, hlast, rfl⟩
  · rw [if_neg hlong, if_neg hlong]
    exact ⟨0, prime5, rfl, Nat.zero_le _, rfl⟩

/-- Whatever reads the words, the port stays within its bytes and gives their digest. -/
theorem xxHash64_eq (bytes : List UInt8) :
    xxHash64 read bytes = some (Lib.XxHash64.digest 0 bytes) := by
  obtain ⟨first, opened, hopen, hfirst, hstart⟩ := open32_eq hread bytes
  obtain ⟨second, laned, hlanes, hsecond, hlane⟩ :=
    laneLoop_eq hread hfirst (opened + UInt64.ofNat bytes.length)
  obtain ⟨third, halved, hhalf, -, hlast⟩ := halfLane_eq hread hsecond laned
  unfold xxHash64 Lib.XxHash64.digest
  rw [hopen, hstart]
  dsimp only [Option.bind_eq_bind, Option.bind_some]
  rw [hlanes, hlane]
  dsimp only [Option.bind_some]
  rw [hhalf, hlast]
  dsimp only [Option.bind_some]
  rw [byteLoop_eq]
  rfl

end

/-- Both ports read within the array and return the digest with seed 0. -/
theorem ports_agree (bytes : List UInt8) :
    CSharp.xxHash64 bytes = some (Lib.XxHash64.digest 0 bytes) ∧
      Swift.xxHash64 bytes = some (Lib.XxHash64.digest 0 bytes) :=
  ⟨xxHash64_eq cSharp_readsWords bytes, xxHash64_eq swift_readsWords bytes⟩

end Wardx.XxHash64
