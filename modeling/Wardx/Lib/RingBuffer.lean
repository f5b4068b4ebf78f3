import Mathlib.Data.List.Basic
import Mathlib.Data.List.DropRight
import Mathlib.Data.List.Range
import Mathlib.Order.Basic
import Mathlib.Tactic.SplitIfs
import Mathlib.Tactic.TypeStar

/-!
# Ring buffers

A ring writes at one position that moves around a buffer of fixed length, and
reads backwards from it. It stands for the list of the latest elements: `Holds`
relates the two, and every operation of the ring is one of the list.
-/
namespace Wardx.Lib

universe u

variable {α : Type u}

/-- The latest `max` elements. -/
def latest (max : ℕ) (xs : List α) : List α := xs.drop (xs.length - max)

theorem latest_of_length_le {max : ℕ} {xs : List α} (h : xs.length ≤ max) : latest max xs = xs := by
  unfold latest
  rw [Nat.sub_eq_zero_of_le h]
  rfl

theorem length_latest (max : ℕ) (xs : List α) : (latest max xs).length = min xs.length max := by
  unfold latest
  rw [List.length_drop]
  omega

theorem latest_append (max : ℕ) (xs ys : List α) :
    latest max (latest max xs ++ ys) = latest max (xs ++ ys) := by
  have hlength := length_latest max xs
  unfold latest at hlength ⊢
  by_cases hle : xs.length ≤ max
  · rw [Nat.sub_eq_zero_of_le hle, List.drop_zero]
  · have hdrop : xs.drop (xs.length - max) ++ ys = (xs ++ ys).drop (xs.length - max) := by
      rw [List.drop_append_of_le_length (by omega)]
    rw [hdrop, List.drop_drop, List.length_drop, List.length_append]
    congr 1
    omega

structure RingBuffer (α : Type u) where
  buf : List (Option α)
  next : ℕ
  size : ℕ
deriving DecidableEq, Repr

namespace RingBuffer

def new (max : ℕ) : RingBuffer α := ⟨List.replicate max none, 0, 0⟩

section
variable (max : ℕ)

def push (x : α) (ring : RingBuffer α) : RingBuffer α where
  buf := ring.buf.set ring.next (some x)
  next := (ring.next + 1) % max
  size := if ring.size < max then ring.size + 1 else ring.size

/-- The slot that many steps back; `max` is added before the subtraction. -/
def slot (ring : RingBuffer α) (offset : ℕ) : ℕ := (ring.next + max - offset) % max

def read (ring : RingBuffer α) (offset : ℕ) : Option α := ring.buf[slot max ring offset]?.join

/-- The elements from the last one back, unless a slot in use is empty. -/
def newestFirst (ring : RingBuffer α) : Option (List α) :=
  (List.range ring.size).mapM fun i => read max ring (i + 1)

/-- The elements up to the last one, unless a slot in use is empty. -/
def oldestFirst (ring : RingBuffer α) : Option (List α) :=
  (List.range ring.size).mapM fun i => read max ring (ring.size - i)

end

/-- The ring stands for the list. -/
structure Holds (max : ℕ) (ring : RingBuffer α) (xs : List α) : Prop where
  length : ring.buf.length = max
  next_lt : ring.next < max
  size : ring.size = xs.length
  size_le : xs.length ≤ max
  read : ∀ offset, 1 ≤ offset → offset ≤ xs.length →
    RingBuffer.read max ring offset = xs[xs.length - offset]?

section
variable {max : ℕ} {ring : RingBuffer α} {xs : List α}

theorem slot_eq {offset : ℕ} (hnext : ring.next < max) (hpos : 1 ≤ offset) (hle : offset ≤ max) :
    slot max ring offset =
      if offset ≤ ring.next then ring.next - offset else ring.next + max - offset := by
  unfold slot
  split_ifs with h
  · have hover : ring.next + max - offset = ring.next - offset + max := by omega
    rw [hover, Nat.add_mod_right, Nat.mod_eq_of_lt (by omega)]
  · exact Nat.mod_eq_of_lt (by omega)

theorem next_push (hnext : ring.next < max) (x : α) :
    (ring.push max x).next = if ring.next + 1 = max then 0 else ring.next + 1 := by
  show (ring.next + 1) % max = _
  split_ifs with h
  · rw [h, Nat.mod_self]
  · exact Nat.mod_eq_of_lt (by omega)

/-- The slot one step back is the one just written, the others have moved back. -/
theorem slot_push (hnext : ring.next < max) (x : α) {offset : ℕ} (hpos : 1 ≤ offset)
    (hle : offset ≤ max) :
    slot max (ring.push max x) offset =
      if offset = 1 then ring.next else slot max ring (offset - 1) := by
  have hnextPush := next_push hnext x
  have hlt : (ring.push max x).next < max := by
    rw [hnextPush]
    split_ifs <;> omega
  rw [slot_eq hlt hpos hle, hnextPush]
  by_cases hone : offset = 1
  · rw [if_pos hone]
    split_ifs <;> omega
  · rw [if_neg hone, slot_eq hnext (by omega) (by omega)]
    split_ifs <;> omega

theorem read_push (hnext : ring.next < max) (hlength : ring.buf.length = max) (x : α) {offset : ℕ}
    (hpos : 1 ≤ offset) (hle : offset ≤ max) :
    read max (ring.push max x) offset =
      if offset = 1 then some x else read max ring (offset - 1) := by
  unfold read
  rw [slot_push hnext x hpos hle]
  show (ring.buf.set ring.next (some x))[_]?.join = _
  split_ifs with hone
  · rw [List.getElem?_set_self (by omega)]
    rfl
  · have hother : ring.next ≠ slot max ring (offset - 1) := by
      rw [slot_eq hnext (by omega) (by omega)]
      split_ifs <;> omega
    rw [List.getElem?_set_ne hother]

theorem holds_new {max : ℕ} (hmax : 1 ≤ max) : Holds max (RingBuffer.new max : RingBuffer α) [] where
  length := List.length_replicate
  next_lt := hmax
  size := rfl
  size_le := Nat.zero_le _
  read offset hpos hle := by
    rw [List.length_nil] at hle
    omega

theorem Holds.push (h : Holds max ring xs) (x : α) :
    Holds max (ring.push max x) (latest max (xs ++ [x])) := by
  have hnext := h.next_lt
  have hsize := h.size
  have hsizeLe := h.size_le
  have hlength : (latest max (xs ++ [x])).length = min (xs.length + 1) max := by
    rw [length_latest, List.length_append, List.length_singleton]
  refine
    { length := by simpa [RingBuffer.push] using h.length
      next_lt := by
        rw [next_push hnext]
        split_ifs <;> omega
      size := ?_
      size_le := by omega
      read := ?_ }
  · show (if ring.size < max then ring.size + 1 else ring.size) = _
    split_ifs <;> omega
  · intro offset hpos hle
    rw [read_push hnext h.length x hpos (by omega)]
    have hposition : (latest max (xs ++ [x]))[(latest max (xs ++ [x])).length - offset]? =
        (xs ++ [x])[xs.length + 1 - offset]? := by
      rw [hlength]
      unfold latest
      rw [List.getElem?_drop, List.length_append, List.length_singleton]
      congr 1
      omega
    rw [hposition]
    split_ifs with hone
    · rw [hone]
      simp
    · rw [h.read (offset - 1) (by omega) (by omega), List.getElem?_append_left (by omega)]
      congr 1
      omega

theorem mapM_range (f : ℕ → Option α) (ys : List α) (h : ∀ i < ys.length, f i = ys[i]?) :
    (List.range ys.length).mapM f = some ys := by
  induction ys using List.reverseRecOn with
  | nil => rfl
  | append_singleton ys y ih =>
      have hrest : (List.range ys.length).mapM f = some ys := by
        apply ih
        intro i hi
        rw [h i (by simp; omega), List.getElem?_append_left hi]
      have hlast : f ys.length = some y := by
        rw [h ys.length (by simp)]
        simp
      rw [List.length_append, List.length_singleton, List.range_succ, List.mapM_append, hrest]
      simp [hlast]

theorem Holds.newestFirst (h : Holds max ring xs) : ring.newestFirst max = some xs.reverse := by
  have hread : ∀ i < xs.reverse.length, RingBuffer.read max ring (i + 1) = xs.reverse[i]? := by
    intro i hi
    rw [List.length_reverse] at hi
    rw [h.read (i + 1) (by omega) (by omega), List.getElem?_reverse hi]
    congr 1
    omega
  unfold RingBuffer.newestFirst
  rw [h.size, ← List.length_reverse]
  exact mapM_range _ _ hread

theorem Holds.oldestFirst (h : Holds max ring xs) : ring.oldestFirst max = some xs := by
  have hread : ∀ i < xs.length, RingBuffer.read max ring (ring.size - i) = xs[i]? := by
    intro i hi
    have hsize := h.size
    rw [h.read (ring.size - i) (by omega) (by omega)]
    congr 1
    omega
  unfold RingBuffer.oldestFirst
  rw [h.size] at hread ⊢
  exact mapM_range _ _ hread

end

end RingBuffer

end Wardx.Lib
