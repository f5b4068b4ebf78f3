import Mathlib.Data.List.Nodup
import Mathlib.Tactic

/-!
# Keyed tables in insertion order

A table is a list of entries with pairwise distinct keys. Writing a present key
replaces its value where it stands; writing a new key appends. This is the
discipline of an insertion-ordered map and, up to the order of a scan, that of
a relation under a primary key. The keys' distinctness is a field, so no later
statement assumes it again.

Every operation comes with the lookup it produces, and with its effect on the
number of entries. Later proofs use these lemmas and never unfold an operation.
-/
namespace Wardx.Lib

universe u v w

/-- Entries under pairwise distinct keys, oldest first. -/
structure Table (κ : Type u) (α : Type v) where
  entries : List (κ × α)
  nodup : (entries.map Prod.fst).Nodup

namespace Table

variable {κ : Type u} {α : Type v} {β : Type w}

instance [DecidableEq κ] [DecidableEq α] : DecidableEq (Table κ α) := fun s t =>
  decidable_of_iff (s.entries = t.entries) (by cases s; cases t; simp)

instance [Repr κ] [Repr α] : Repr (Table κ α) := ⟨fun t n => reprPrec t.entries n⟩

@[ext] theorem ext_entries {s t : Table κ α} (h : s.entries = t.entries) : s = t := by
  cases s
  cases t
  simpa using h

/-- The table with no entry. -/
def empty : Table κ α := ⟨[], List.nodup_nil⟩

/-- Keep the entries that satisfy a test. -/
def filter (p : κ → α → Bool) (t : Table κ α) : Table κ α where
  entries := t.entries.filter fun e => p e.1 e.2
  nodup := t.nodup.sublist (List.filter_sublist.map _)

/-- Rewrite every value, keys and order unchanged. -/
def mapValues (f : κ → α → β) (t : Table κ α) : Table κ β where
  entries := t.entries.map fun e => (e.1, f e.1 e.2)
  nodup := by simpa [List.map_map, Function.comp_def] using t.nodup

/-- The keys, oldest first. -/
def keys (t : Table κ α) : List κ := t.entries.map Prod.fst

/-- The values, oldest first. -/
def values (t : Table κ α) : List α := t.entries.map Prod.snd

/-- The number of entries. -/
def size (t : Table κ α) : ℕ := t.entries.length

@[simp] theorem size_empty : (empty : Table κ α).size = 0 := rfl

theorem size_eq_length_keys (t : Table κ α) : t.size = t.keys.length := by
  simp [size, keys]

theorem size_filter_le (p : κ → α → Bool) (t : Table κ α) : (t.filter p).size ≤ t.size :=
  List.length_filter_le _ _

@[simp] theorem size_mapValues (f : κ → α → β) (t : Table κ α) :
    (t.mapValues f).size = t.size := by
  simp [size, mapValues]

variable [DecidableEq κ]

/-- Replace the value under a present key in place, or append a new entry. -/
def putEntry (k : κ) (v : α) : List (κ × α) → List (κ × α)
  | [] => [(k, v)]
  | (k', v') :: rest => if k' = k then (k, v) :: rest else (k', v') :: putEntry k v rest

theorem keys_putEntry (k : κ) (v : α) (xs : List (κ × α)) :
    (putEntry k v xs).map Prod.fst =
      if k ∈ xs.map Prod.fst then xs.map Prod.fst else xs.map Prod.fst ++ [k] := by
  induction xs with
  | nil => simp [putEntry]
  | cons x xs ih =>
      obtain ⟨k', v'⟩ := x
      by_cases h : k' = k
      · simp [putEntry, h]
      · have h' : k ≠ k' := fun e => h e.symm
        simp only [putEntry, h, if_false, List.map_cons, ih, List.mem_cons, h', false_or]
        split_ifs <;> simp

/-- A new key stands last. -/
theorem putEntry_of_not_mem {k : κ} (v : α) {xs : List (κ × α)} (h : k ∉ xs.map Prod.fst) :
    putEntry k v xs = xs ++ [(k, v)] := by
  induction xs with
  | nil => rfl
  | cons x xs ih =>
      obtain ⟨k', v'⟩ := x
      rw [List.map_cons, List.mem_cons, not_or] at h
      rw [putEntry, if_neg (Ne.symm h.1), ih h.2, List.cons_append]

/-- The value under a key. -/
def get (t : Table κ α) (k : κ) : Option α := t.entries.lookup k

/-- Write one key. -/
def put (t : Table κ α) (k : κ) (v : α) : Table κ α where
  entries := putEntry k v t.entries
  nodup := by
    rw [keys_putEntry]
    split_ifs with h
    · exact t.nodup
    · refine List.nodup_append.mpr ⟨t.nodup, List.nodup_singleton k, ?_⟩
      intro a ha b hb hab
      rw [List.mem_singleton] at hb
      exact h (hb ▸ hab ▸ ha)

/-- Remove one key. -/
def erase (t : Table κ α) (k : κ) : Table κ α := t.filter fun k' _ => decide (k' ≠ k)

theorem lookup_eq_some_iff {xs : List (κ × α)} (hx : (xs.map Prod.fst).Nodup) (k : κ) (v : α) :
    xs.lookup k = some v ↔ (k, v) ∈ xs := by
  induction xs with
  | nil => simp
  | cons x xs ih =>
      obtain ⟨k', v'⟩ := x
      rw [List.map_cons, List.nodup_cons] at hx
      rw [List.lookup_cons]
      by_cases h : k = k'
      · subst h
        have hv : (k, v) ∉ xs := fun hm => hx.1 (List.mem_map.mpr ⟨_, hm, rfl⟩)
        simp only [beq_self_eq_true, Option.some.injEq, List.mem_cons, Prod.mk.injEq,
          true_and, hv, or_false]
        exact eq_comm
      · simp only [beq_eq_false_iff_ne.mpr h, List.mem_cons, Prod.mk.injEq, h, false_and,
          false_or]
        exact ih hx.2

theorem get_eq_some_iff (t : Table κ α) (k : κ) (v : α) : t.get k = some v ↔ (k, v) ∈ t.entries :=
  lookup_eq_some_iff t.nodup k v

theorem get_isSome_iff (t : Table κ α) (k : κ) : (t.get k).isSome ↔ k ∈ t.keys := by
  rw [Option.isSome_iff_exists]
  simp only [get_eq_some_iff, keys, List.mem_map, Prod.exists, exists_and_right, exists_eq_right]

theorem get_eq_none_iff (t : Table κ α) (k : κ) : t.get k = none ↔ k ∉ t.keys := by
  rw [← get_isSome_iff]
  simp

@[simp] theorem get_empty (k : κ) : (empty : Table κ α).get k = none := rfl

theorem lookup_putEntry (k k' : κ) (v : α) (xs : List (κ × α)) :
    (putEntry k v xs).lookup k' = if k' = k then some v else xs.lookup k' := by
  induction xs with
  | nil =>
      by_cases h : k' = k
      · simp [putEntry, h]
      · simp [putEntry, List.lookup_cons, beq_eq_false_iff_ne.mpr h, h]
  | cons x xs ih =>
      obtain ⟨a, b⟩ := x
      by_cases ha : a = k
      · subst ha
        by_cases h : k' = a
        · simp [putEntry, h]
        · simp [putEntry, List.lookup_cons, beq_eq_false_iff_ne.mpr h, h]
      · by_cases h : k' = a
        · subst h
          simp [putEntry, ha]
        · simp [putEntry, ha, List.lookup_cons, beq_eq_false_iff_ne.mpr h, ih]

theorem get_put (t : Table κ α) (k k' : κ) (v : α) :
    (t.put k v).get k' = if k' = k then some v else t.get k' :=
  lookup_putEntry k k' v t.entries

@[simp] theorem get_put_self (t : Table κ α) (k : κ) (v : α) : (t.put k v).get k = some v := by
  simp [get_put]

theorem get_put_of_ne (t : Table κ α) {k k' : κ} (v : α) (h : k' ≠ k) :
    (t.put k v).get k' = t.get k' := by
  simp [get_put, h]

@[simp] theorem get_filter (p : κ → α → Bool) (t : Table κ α) (k : κ) :
    (t.filter p).get k = (t.get k).filter (p k) := by
  ext v
  rw [get_eq_some_iff]
  simp only [filter, List.mem_filter, Option.filter_eq_some_iff, get_eq_some_iff]

theorem get_erase (t : Table κ α) (k k' : κ) :
    (t.erase k).get k' = if k' = k then none else t.get k' := by
  unfold erase
  rw [get_filter]
  by_cases h : k' = k
  · cases hg : t.get k' <;> simp [h]
  · cases hg : t.get k' <;> simp [h]

@[simp] theorem get_mapValues (f : κ → α → β) (t : Table κ α) (k : κ) :
    (t.mapValues f).get k = (t.get k).map (f k) := by
  ext v
  rw [get_eq_some_iff]
  simp only [mapValues, List.mem_map, Prod.mk.injEq, Prod.exists, Option.map_eq_some_iff,
    get_eq_some_iff]
  constructor
  · rintro ⟨a, b, hm, rfl, rfl⟩
    exact ⟨b, hm, rfl⟩
  · rintro ⟨b, hm, rfl⟩
    exact ⟨k, b, hm, rfl, rfl⟩

theorem keys_put (t : Table κ α) (k : κ) (v : α) :
    (t.put k v).keys = if k ∈ t.keys then t.keys else t.keys ++ [k] :=
  keys_putEntry k v t.entries

/-- Overwriting leaves the number of entries alone. -/
theorem size_put_of_some {t : Table κ α} {k : κ} {v : α} (w : α) (h : t.get k = some v) :
    (t.put k w).size = t.size := by
  have hk : k ∈ t.keys := (get_isSome_iff t k).mp (by simp [h])
  simp [size_eq_length_keys, keys_put, hk]

/-- A new key adds exactly one entry. -/
theorem size_put_of_none {t : Table κ α} {k : κ} (w : α) (h : t.get k = none) :
    (t.put k w).size = t.size + 1 := by
  have hk : k ∉ t.keys := (get_eq_none_iff t k).mp h
  simp [size_eq_length_keys, keys_put, hk]

/-! ## Writing one table over another -/

theorem putEntry_putEntry_self (k : κ) (v w : α) (xs : List (κ × α)) :
    putEntry k w (putEntry k v xs) = putEntry k w xs := by
  induction xs with
  | nil => simp [putEntry]
  | cons x xs ih =>
      obtain ⟨a, b⟩ := x
      by_cases h : a = k
      · simp [putEntry, h]
      · simp [putEntry, h, ih]

/-- Overwriting a present key does not move it, so it commutes with other writes. -/
theorem putEntry_comm {j k : κ} (hjk : j ≠ k) (v w : α) {xs : List (κ × α)}
    (hk : k ∈ xs.map Prod.fst) :
    putEntry k v (putEntry j w xs) = putEntry j w (putEntry k v xs) := by
  induction xs with
  | nil => simp at hk
  | cons x xs ih =>
      obtain ⟨a, b⟩ := x
      by_cases hak : a = k
      · subst hak
        have haj : a ≠ j := fun e => hjk e.symm
        simp [putEntry, haj]
      · have hk' : k ∈ xs.map Prod.fst := by
          simpa [Ne.symm hak] using hk
        by_cases haj : a = j
        · subst haj
          simp [putEntry, hjk]
        · simp [putEntry, hak, haj, ih hk']

/-- Write every entry of the second table over the first. -/
def overlay (t u : Table κ α) : Table κ α := u.entries.foldl (fun t e => t.put e.1 e.2) t

theorem get_foldl_put (t : Table κ α) {xs : List (κ × α)} (hx : (xs.map Prod.fst).Nodup)
    (k : κ) : (xs.foldl (fun t e => t.put e.1 e.2) t).get k = (xs.lookup k).or (t.get k) := by
  induction xs generalizing t with
  | nil => rfl
  | cons x xs ih =>
      obtain ⟨a, b⟩ := x
      rw [List.map_cons, List.nodup_cons] at hx
      rw [List.foldl_cons, ih _ hx.2, get_put, List.lookup_cons]
      by_cases h : k = a
      · subst h
        have hnone : xs.lookup k = none := by
          rw [List.lookup_eq_none_iff]
          intro p hp
          have hne : k ≠ p.1 := fun e => hx.1 (List.mem_map.mpr ⟨p, hp, e.symm⟩)
          simpa using hne
        simp [hnone]
      · simp [h, beq_eq_false_iff_ne.mpr h]

theorem get_overlay (t u : Table κ α) (k : κ) :
    (t.overlay u).get k = (u.get k).or (t.get k) :=
  get_foldl_put t u.nodup k

@[simp] theorem overlay_empty (t : Table κ α) : t.overlay empty = t := rfl

theorem put_put_self (t : Table κ α) (k : κ) (v w : α) : (t.put k v).put k w = t.put k w :=
  ext_entries (putEntry_putEntry_self k v w t.entries)

theorem put_comm {t : Table κ α} {j k : κ} (hjk : j ≠ k) (v w : α) (hk : k ∈ t.keys) :
    (t.put j w).put k v = (t.put k v).put j w :=
  ext_entries (putEntry_comm hjk v w hk)

theorem mem_keys_put (t : Table κ α) (j k : κ) (v : α) :
    j ∈ (t.put k v).keys ↔ j = k ∨ j ∈ t.keys := by
  rw [← get_isSome_iff, ← get_isSome_iff, get_put]
  split_ifs with h <;> simp [h]

theorem mem_values_put {t : Table κ α} {k : κ} {v w : α} (h : w ∈ (t.put k v).values) :
    w = v ∨ w ∈ t.values := by
  obtain ⟨⟨j, x⟩, hentry, rfl⟩ := List.mem_map.mp h
  have hget := ((t.put k v).get_eq_some_iff j x).mpr hentry
  rw [get_put] at hget
  split_ifs at hget with hj
  · exact Or.inl (Option.some.inj hget).symm
  · exact Or.inr (List.mem_map_of_mem ((t.get_eq_some_iff j x).mp hget))

/-- Overwriting a present key before or after other writes is the same. -/
theorem foldl_put_comm {t : Table κ α} {k : κ} (hk : k ∈ t.keys) (v : α) {xs : List (κ × α)}
    (hx : k ∉ xs.map Prod.fst) :
    (xs.foldl (fun t e => t.put e.1 e.2) t).put k v =
      xs.foldl (fun t e => t.put e.1 e.2) (t.put k v) := by
  induction xs generalizing t with
  | nil => rfl
  | cons x xs ih =>
      rw [List.map_cons, List.mem_cons, not_or] at hx
      rw [List.foldl_cons, List.foldl_cons, ih ((mem_keys_put t k x.1 x.2).mpr (Or.inr hk)) hx.2,
        put_comm (fun e => hx.1 e.symm) v x.2 hk]

theorem foldl_putEntry (t : Table κ α) (k : κ) (v : α) {xs : List (κ × α)}
    (hx : (xs.map Prod.fst).Nodup) :
    (putEntry k v xs).foldl (fun t e => t.put e.1 e.2) t =
      (xs.foldl (fun t e => t.put e.1 e.2) t).put k v := by
  induction xs generalizing t with
  | nil => rfl
  | cons x xs ih =>
      obtain ⟨a, b⟩ := x
      rw [List.map_cons, List.nodup_cons] at hx
      by_cases h : a = k
      · subst h
        rw [putEntry, if_pos rfl, List.foldl_cons, List.foldl_cons,
          foldl_put_comm ((mem_keys_put t a a b).mpr (Or.inl rfl)) v hx.1, put_put_self]
      · rw [putEntry, if_neg h, List.foldl_cons, List.foldl_cons, ih _ hx.2]

/-- Writing into the upper table writes the overlay. -/
theorem overlay_put (t u : Table κ α) (k : κ) (v : α) :
    t.overlay (u.put k v) = (t.overlay u).put k v :=
  foldl_putEntry t k v u.nodup

theorem map_values (f : α → β) (t : Table κ α) :
    (t.values.map f).map some = t.keys.map fun k => (t.get k).map f := by
  unfold values keys
  rw [List.map_map, List.map_map, List.map_map]
  refine List.map_congr_left fun e he => ?_
  have hget : t.get e.1 = some e.2 := (get_eq_some_iff t e.1 e.2).mpr he
  simp [hget]

/-- Tables with the same keys that agree under each key list the same values. -/
theorem map_values_congr {γ : Type*} {t : Table κ α} {u : Table κ β} {f : α → γ} {g : β → γ}
    (hkeys : t.keys = u.keys)
    (h : ∀ k v w, t.get k = some v → u.get k = some w → f v = g w) :
    t.values.map f = u.values.map g := by
  apply List.map_injective_iff.mpr (Option.some_injective γ)
  show (t.values.map f).map some = (u.values.map g).map some
  rw [map_values, map_values, hkeys]
  refine List.map_congr_left fun k hk => ?_
  obtain ⟨w, hw⟩ := Option.isSome_iff_exists.mp ((get_isSome_iff u k).mpr hk)
  obtain ⟨v, hv⟩ := Option.isSome_iff_exists.mp ((get_isSome_iff t k).mpr (hkeys ▸ hk))
  rw [hv, hw, Option.map_some, Option.map_some, h k v w hv hw]

/-- Some entry satisfies a test exactly when some key's value does. -/
theorem any_entries_iff (p : κ × α → Bool) (t : Table κ α) :
    t.entries.any p = true ↔ ∃ k v, t.get k = some v ∧ p (k, v) = true := by
  rw [List.any_eq_true]
  simp only [Prod.exists, get_eq_some_iff]

end Table
end Wardx.Lib
