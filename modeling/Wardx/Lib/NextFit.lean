import Mathlib.Data.List.Induction
import Wardx.Lib.Run

/-!
# Next fit with drops

Items are put one after another into the last bin. An item that does not fit
there closes the bin, unless it is empty, and goes to the next one; an item that
does not fit into an empty bin either is dropped. What fits may depend on the
number of the bin and on what is in it.

`slots` tells for each item the bin it was last tried in and whether it is kept.
The content of every bin and the dropped items can be read off the slots, so
packings of items with the same slots are alike.
-/
namespace Wardx.Lib

/-- The closed bins, the open one, and the dropped items. -/
structure Packing (α : Type*) where
  closed : List (List α)
  current : List α
  dropped : List α

/-- The bin an item was last tried in. -/
structure Slot where
  bin : ℕ
  kept : Bool
deriving DecidableEq, Repr

namespace Packing

variable {α β : Type*}

def empty : Packing α := ⟨[], [], []⟩

def add (p : Packing α) (item : α) : Packing α := { p with current := p.current ++ [item] }

def drop (p : Packing α) (item : α) : Packing α := { p with dropped := p.dropped ++ [item] }

def close (p : Packing α) : Packing α := ⟨p.closed ++ [p.current], [], p.dropped⟩

/-- The items of a bin; a bin not reached yet has none. -/
def bin (p : Packing α) (i : ℕ) : List α := ((p.closed ++ [p.current])[i]?).getD []

/-- The bins in use; an open one without items counts only when it is the first. -/
def bins (p : Packing α) : List (List α) :=
  if p.closed ≠ [] ∧ p.current = [] then p.closed else p.closed ++ [p.current]

section
variable (fits : ℕ → List α → α → Bool)

def put (item : α) (p : Packing α) : Packing α :=
  if fits p.closed.length p.current item then p.add item
  else if p.current = [] then p.drop item
  else if fits (p.closed.length + 1) [] item then p.close.add item
  else p.close.drop item

def slotOf (p : Packing α) (item : α) : Slot :=
  ⟨(p.put fits item).closed.length, fits (p.put fits item).closed.length [] item⟩

def slotsFrom (p : Packing α) (items : List α) : List Slot :=
  outputs (fun p item => [slotOf fits p item]) (fun item p => p.put fits item) p items

def slots (items : List α) : List Slot := slotsFrom fits empty items

def pack (items : List α) : Packing α := run (fun item p => p.put fits item) empty items

end

/-- The kept items of a bin. -/
def content (items : List α) (slots : List Slot) (i : ℕ) : List α :=
  ((items.zip slots).filter fun entry => entry.2.kept && decide (entry.2.bin = i)).map Prod.fst

/-- The kept items. -/
def packed (items : List α) (slots : List Slot) : List α :=
  ((items.zip slots).filter fun entry => entry.2.kept).map Prod.fst

/-- The items of no bin. -/
def refused (items : List α) (slots : List Slot) : List α :=
  ((items.zip slots).filter fun entry => !entry.2.kept).map Prod.fst

section
variable {fits : ℕ → List α → α → Bool} {p : Packing α} {item : α}

@[simp] theorem closed_add : (p.add item).closed = p.closed := rfl
@[simp] theorem current_add : (p.add item).current = p.current ++ [item] := rfl
@[simp] theorem dropped_add : (p.add item).dropped = p.dropped := rfl
@[simp] theorem closed_drop : (p.drop item).closed = p.closed := rfl
@[simp] theorem current_drop : (p.drop item).current = p.current := rfl
@[simp] theorem dropped_drop : (p.drop item).dropped = p.dropped ++ [item] := rfl
@[simp] theorem closed_close : p.close.closed = p.closed ++ [p.current] := rfl
@[simp] theorem current_close : p.close.current = [] := rfl
@[simp] theorem dropped_close : p.close.dropped = p.dropped := rfl

theorem bin_add (i : ℕ) :
    (p.add item).bin i = p.bin i ++ if p.closed.length = i then [item] else [] := by
  unfold bin
  rw [closed_add, current_add]
  rcases Nat.lt_trichotomy i p.closed.length with hi | rfl | hi
  · rw [List.getElem?_append_left hi, List.getElem?_append_left hi, if_neg (by omega),
      List.append_nil]
  · rw [if_pos rfl, List.getElem?_append_right (Nat.le_refl _),
      List.getElem?_append_right (Nat.le_refl _), Nat.sub_self]
    rfl
  · rw [if_neg (by omega), List.append_nil, List.getElem?_eq_none (by simp; omega),
      List.getElem?_eq_none (by simp; omega)]

@[simp] theorem bin_drop (i : ℕ) : (p.drop item).bin i = p.bin i := rfl

@[simp] theorem bin_close (i : ℕ) : p.close.bin i = p.bin i := by
  unfold bin
  rw [closed_close, current_close]
  rcases Nat.lt_or_ge i (p.closed ++ [p.current]).length with hi | hi
  · rw [List.getElem?_append_left hi]
  · rw [List.getElem?_append_right hi, List.getElem?_eq_none hi]
    cases i - (p.closed ++ [p.current]).length with
    | zero => rfl
    | succ n => rfl

/-- What a put does, when an item that fits behind others also fits alone. -/
inductive Put (fits : ℕ → List α → α → Bool) (p : Packing α) (item : α) : Packing α → Slot → Prop
  | added (hfits : fits p.closed.length p.current item) :
      Put fits p item (p.add item) ⟨p.closed.length, true⟩
  | dropped (hcurrent : p.current = []) (hfits : fits p.closed.length [] item = false) :
      Put fits p item (p.drop item) ⟨p.closed.length, false⟩
  | moved (hcurrent : p.current ≠ []) (hrefused : fits p.closed.length p.current item = false)
      (hfits : fits (p.closed.length + 1) [] item) :
      Put fits p item (p.close.add item) ⟨p.closed.length + 1, true⟩
  | lost (hcurrent : p.current ≠ []) (hrefused : fits p.closed.length p.current item = false)
      (hfits : fits (p.closed.length + 1) [] item = false) :
      Put fits p item (p.close.drop item) ⟨p.closed.length + 1, false⟩

theorem put_cases (hmono : ∀ k content item, fits k content item → fits k [] item)
    (p : Packing α) (item : α) : Put fits p item (p.put fits item) (slotOf fits p item) := by
  by_cases hfits : fits p.closed.length p.current item
  · have hput : p.put fits item = p.add item := if_pos hfits
    have hslot : slotOf fits p item = ⟨p.closed.length, true⟩ := by
      unfold slotOf
      rw [hput, closed_add, hmono _ _ _ hfits]
    rw [hput, hslot]
    exact Put.added hfits
  · have hrefused := Bool.eq_false_iff.mpr hfits
    by_cases hcurrent : p.current = []
    · have hput : p.put fits item = p.drop item := by
        unfold put
        rw [if_neg hfits, if_pos hcurrent]
      have halone : fits p.closed.length [] item = false := by
        rw [← hcurrent]
        exact hrefused
      have hslot : slotOf fits p item = ⟨p.closed.length, false⟩ := by
        unfold slotOf
        rw [hput, closed_drop, halone]
      rw [hput, hslot]
      exact Put.dropped hcurrent halone
    · cases hnext : fits (p.closed.length + 1) [] item with
      | true =>
          have hput : p.put fits item = p.close.add item := by
            unfold put
            rw [if_neg hfits, if_neg hcurrent, if_pos hnext]
          have hslot : slotOf fits p item = ⟨p.closed.length + 1, true⟩ := by
            unfold slotOf
            rw [hput, closed_add, closed_close, List.length_append, List.length_singleton, hnext]
          rw [hput, hslot]
          exact Put.moved hcurrent hrefused hnext
      | false =>
          have hput : p.put fits item = p.close.drop item := by
            unfold put
            rw [if_neg hfits, if_neg hcurrent, if_neg (by rw [hnext]; exact Bool.false_ne_true)]
          have hslot : slotOf fits p item = ⟨p.closed.length + 1, false⟩ := by
            unfold slotOf
            rw [hput, closed_drop, closed_close, List.length_append, List.length_singleton, hnext]
          rw [hput, hslot]
          exact Put.lost hcurrent hrefused hnext

variable (hmono : ∀ k content item, fits k content item → fits k [] item)
include hmono

theorem bin_put (p : Packing α) (item : α) (i : ℕ) :
    (p.put fits item).bin i = p.bin i ++ content [item] [slotOf fits p item] i := by
  have hput := put_cases hmono p item
  generalize p.put fits item = after, slotOf fits p item = slot at hput
  unfold content
  cases hput with
  | added hfits =>
      rw [bin_add]
      by_cases hi : p.closed.length = i
      · simp [hi]
      · simp [hi]
  | dropped hcurrent hfits => simp
  | moved hcurrent hrefused hfits =>
      rw [bin_add, bin_close, closed_close, List.length_append, List.length_singleton]
      by_cases hi : p.closed.length + 1 = i
      · simp [hi]
      · simp [hi]
  | lost hcurrent hrefused hfits => simp

theorem dropped_put (p : Packing α) (item : α) :
    (p.put fits item).dropped = p.dropped ++ refused [item] [slotOf fits p item] := by
  have hput := put_cases hmono p item
  generalize p.put fits item = after, slotOf fits p item = slot at hput
  unfold refused
  cases hput with
  | added hfits => simp
  | dropped hcurrent hfits => simp
  | moved hcurrent hrefused hfits => simp
  | lost hcurrent hrefused hfits => simp

omit hmono in
theorem content_cons (item : α) (items : List α) (slot : Slot) (slots : List Slot) (i : ℕ) :
    content (item :: items) (slot :: slots) i =
      content [item] [slot] i ++ content items slots i := by
  unfold content
  rw [List.zip_cons_cons, ← List.singleton_append, List.filter_append, List.map_append]
  rfl

omit hmono in
theorem refused_cons (item : α) (items : List α) (slot : Slot) (slots : List Slot) :
    refused (item :: items) (slot :: slots) = refused [item] [slot] ++ refused items slots := by
  unfold refused
  rw [List.zip_cons_cons, ← List.singleton_append, List.filter_append, List.map_append]
  rfl

theorem bin_run (p : Packing α) (items : List α) (i : ℕ) :
    (run (fun item p => p.put fits item) p items).bin i =
      p.bin i ++ content items (slotsFrom fits p items) i := by
  induction items generalizing p with
  | nil => exact (List.append_nil _).symm
  | cons item items ih =>
      show (run _ (p.put fits item) items).bin i = p.bin i ++ content (item :: items)
        (slotOf fits p item :: slotsFrom fits (p.put fits item) items) i
      rw [ih, bin_put hmono, content_cons item items, List.append_assoc]

/-- A bin holds the items whose slot says so. -/
theorem bin_pack (items : List α) (i : ℕ) :
    (pack fits items).bin i = content items (slots fits items) i := by
  have hrun := bin_run hmono empty items i
  have hempty : (empty : Packing α).bin i = [] := by
    cases i with
    | zero => rfl
    | succ n => rfl
  rw [hempty, List.nil_append] at hrun
  exact hrun

theorem dropped_run (p : Packing α) (items : List α) :
    (run (fun item p => p.put fits item) p items).dropped =
      p.dropped ++ refused items (slotsFrom fits p items) := by
  induction items generalizing p with
  | nil => exact (List.append_nil _).symm
  | cons item items ih =>
      show (run _ (p.put fits item) items).dropped = p.dropped ++ refused (item :: items)
        (slotOf fits p item :: slotsFrom fits (p.put fits item) items)
      rw [ih, dropped_put hmono, refused_cons item items, List.append_assoc]

/-- The dropped items are those whose slot says so. -/
theorem dropped_pack (items : List α) :
    (pack fits items).dropped = refused items (slots fits items) := by
  have hrun := dropped_run hmono empty items
  exact hrun

omit hmono in
theorem packed_cons (item : α) (items : List α) (slot : Slot) (slots : List Slot) :
    packed (item :: items) (slot :: slots) = packed [item] [slot] ++ packed items slots := by
  unfold packed
  rw [List.zip_cons_cons, ← List.singleton_append, List.filter_append, List.map_append]
  rfl

omit hmono in
theorem packed_singleton {item : α} {slot : Slot} (h : slot.kept = true) :
    packed [item] [slot] = [item] := by
  unfold packed
  simp [h]

theorem flatten_put (p : Packing α) (item : α) :
    (p.put fits item).closed.flatten ++ (p.put fits item).current =
      p.closed.flatten ++ p.current ++ packed [item] [slotOf fits p item] := by
  have hput := put_cases hmono p item
  generalize p.put fits item = after, slotOf fits p item = slot at hput
  unfold packed
  cases hput with
  | added hfits => simp
  | dropped hcurrent hfits => simp
  | moved hcurrent hrefused hfits => simp
  | lost hcurrent hrefused hfits => simp

theorem flatten_run (p : Packing α) (items : List α) :
    (run (fun item p => p.put fits item) p items).closed.flatten ++
        (run (fun item p => p.put fits item) p items).current =
      p.closed.flatten ++ p.current ++ packed items (slotsFrom fits p items) := by
  induction items generalizing p with
  | nil => exact (List.append_nil _).symm
  | cons item items ih =>
      show (run _ (p.put fits item) items).closed.flatten ++ (run _ (p.put fits item) items).current =
        p.closed.flatten ++ p.current ++ packed (item :: items)
          (slotOf fits p item :: slotsFrom fits (p.put fits item) items)
      rw [ih, flatten_put hmono, packed_cons item items, List.append_assoc]

omit hmono in
theorem flatten_bins (p : Packing α) : p.bins.flatten = p.closed.flatten ++ p.current := by
  unfold bins
  split_ifs with hopen
  · rw [hopen.2, List.append_nil]
  · rw [List.flatten_append, List.flatten_singleton]

/-- One after another the bins hold the kept items in their order. -/
theorem flatten_bins_pack (items : List α) :
    (pack fits items).bins.flatten = packed items (slots fits items) := by
  have hrun := flatten_run hmono empty items
  rw [flatten_bins]
  exact hrun

end

section
variable {fits : ℕ → List α → α → Bool}

theorem getD_bins (p : Packing α) (i : ℕ) : (p.bins[i]?).getD [] = p.bin i := by
  unfold bin bins
  split_ifs with hopen
  · rcases Nat.lt_or_ge i p.closed.length with hi | hi
    · rw [List.getElem?_append_left hi]
    · rw [List.getElem?_append_right hi, List.getElem?_eq_none hi, hopen.2]
      cases i - p.closed.length with
      | zero => rfl
      | succ n => rfl
  · rfl

theorem bins_ne_nil (p : Packing α) : p.bins ≠ [] := by
  unfold bins
  split_ifs with hopen
  · exact hopen.1
  · simp

/-- An item that fits alone somewhere is kept, in the last bin. -/
theorem bin_put_of_alone (hmono : ∀ k content item, fits k content item → fits k [] item)
    {p : Packing α} {item : α} (halone : ∀ n ≤ p.closed.length + 1, fits n [] item) :
    (slotOf fits p item).kept = true ∧ (p.put fits item).current ≠ [] ∧
      ∀ i, (p.put fits item).bin i =
        p.bin i ++ if i = (p.put fits item).closed.length then [item] else [] := by
  have hput := put_cases hmono p item
  generalize p.put fits item = after, slotOf fits p item = slot at hput ⊢
  cases hput with
  | added hfits =>
      refine ⟨rfl, by simp, fun i => ?_⟩
      rw [bin_add, closed_add]
      simp only [eq_comm]
  | dropped hcurrent hrefused =>
      rw [halone _ (Nat.le_succ _)] at hrefused
      cases hrefused
  | moved hcurrent hrefused hfits =>
      refine ⟨rfl, by simp, fun i => ?_⟩
      rw [bin_add, bin_close, closed_add]
      simp only [eq_comm]
  | lost hcurrent hrefused hlost =>
      rw [halone _ (Nat.le_refl _)] at hlost
      cases hlost

theorem length_bins_of_ne {p : Packing α} (h : p.current ≠ []) :
    p.bins.length = p.closed.length + 1 := by
  unfold bins
  rw [if_neg fun hopen => h hopen.2, List.length_append, List.length_singleton]

theorem length_bins_le (p : Packing α) : p.bins.length ≤ p.closed.length + 1 := by
  unfold bins
  split_ifs
  · exact Nat.le_succ _
  · simp

/-- A property of the bins that every put keeps. -/
structure Bins (P : ℕ → List α → Prop) (p : Packing α) : Prop where
  closed : ∀ i content, p.closed[i]? = some content → P i content
  current : P p.closed.length p.current

theorem Bins.empty {P : ℕ → List α → Prop} (h : P 0 []) : Bins P (empty : Packing α) :=
  ⟨fun i content hcontent => by simp [Packing.empty] at hcontent, h⟩

theorem Bins.bins {P : ℕ → List α → Prop} {p : Packing α} (h : Bins P p) {i : ℕ} {content : List α}
    (hcontent : p.bins[i]? = some content) : P i content := by
  have hall : (p.closed ++ [p.current])[i]? = some content := by
    unfold Packing.bins at hcontent
    split_ifs at hcontent
    · rw [List.getElem?_append_left ((List.getElem?_eq_some_iff.mp hcontent).1)]
      exact hcontent
    · exact hcontent
  rcases Nat.lt_or_ge i p.closed.length with hi | hi
  · rw [List.getElem?_append_left hi] at hall
    exact h.closed i content hall
  · rw [List.getElem?_append_right hi] at hall
    have hzero : i - p.closed.length = 0 := by
      have := (List.getElem?_eq_some_iff.mp hall).1
      rw [List.length_singleton] at this
      omega
    rw [hzero] at hall
    cases hall
    have heq : i = p.closed.length := by omega
    rw [heq]
    exact h.current

theorem Bins.add {P : ℕ → List α → Prop} {p : Packing α} {item : α} (h : Bins P p)
    (hitem : P p.closed.length (p.current ++ [item])) : Bins P (p.add item) :=
  ⟨h.closed, hitem⟩

theorem Bins.close {P : ℕ → List α → Prop} {p : Packing α} (h : Bins P p)
    (hnext : P (p.closed.length + 1) []) : Bins P p.close := by
  refine ⟨?_, ?_⟩
  · intro i content hcontent
    rw [closed_close] at hcontent
    rcases Nat.lt_or_ge i p.closed.length with hi | hi
    · rw [List.getElem?_append_left hi] at hcontent
      exact h.closed i content hcontent
    · have hlen := (List.getElem?_eq_some_iff.mp hcontent).1
      rw [List.length_append, List.length_singleton] at hlen
      have heq : i = p.closed.length := by omega
      rw [heq, List.getElem?_concat_length] at hcontent
      cases hcontent
      rw [heq]
      exact h.current
  · rw [closed_close, List.length_append, List.length_singleton]
    exact hnext

theorem Bins.drop {P : ℕ → List α → Prop} {p : Packing α} {item : α} (h : Bins P p) :
    Bins P (p.drop item) :=
  ⟨h.closed, h.current⟩

/-- Bins keep a property that an empty one has and a fitting item keeps. -/
theorem Bins.put {P : ℕ → List α → Prop} {p : Packing α} (h : Bins P p)
    (hnext : P (p.closed.length + 1) [])
    (hfits : ∀ k content item, P k content → fits k content item → P k (content ++ [item]))
    (item : α) : Bins P (p.put fits item) := by
  unfold Packing.put
  split_ifs with hcurrent _ halone
  · exact h.add (hfits _ _ _ h.current hcurrent)
  · exact h.drop
  · refine (h.close hnext).add ?_
    rw [closed_close, List.length_append, List.length_singleton]
    exact hfits _ _ _ hnext halone
  · exact (h.close hnext).drop

theorem length_slots (fits : ℕ → List α → α → Bool) (items : List α) :
    (slots fits items).length = items.length := by
  have hfrom : ∀ (items : List α) (p : Packing α), (slotsFrom fits p items).length = items.length := by
    intro items
    induction items with
    | nil => exact fun _ => rfl
    | cons item items ih => exact fun p => congrArg Nat.succ (ih (p.put fits item))
  exact hfrom items empty

/-- What a slot says of its item. -/
theorem kept_of_mem_slotsFrom {item : α} {slot : Slot} (items : List α) (p : Packing α)
    (h : (item, slot) ∈ items.zip (slotsFrom fits p items)) : slot.kept = fits slot.bin [] item := by
  induction items generalizing p with
  | nil => cases h
  | cons first rest ih =>
      change (item, slot) ∈ (first, slotOf fits p first) ::
        rest.zip (slotsFrom fits (p.put fits first) rest) at h
      rcases List.mem_cons.mp h with hfirst | hrest
      · cases hfirst
        rfl
      · exact ih _ hrest

theorem kept_of_mem_slots {items : List α} {item : α} {slot : Slot}
    (h : (item, slot) ∈ items.zip (slots fits items)) : slot.kept = fits slot.bin [] item :=
  kept_of_mem_slotsFrom items empty h

theorem length_closed_put_le (fits : ℕ → List α → α → Bool) (p : Packing α) (item : α) :
    (p.put fits item).closed.length ≤ p.closed.length + 1 := by
  unfold Packing.put
  split_ifs
  · exact Nat.le_succ _
  · exact Nat.le_succ _
  · simp
  · simp

theorem length_closed_pack_le (fits : ℕ → List α → α → Bool) (items : List α) :
    (pack fits items).closed.length ≤ items.length := by
  have hrun : ∀ (items : List α) (p : Packing α),
      (run (fun item p => p.put fits item) p items).closed.length ≤
        p.closed.length + items.length := by
    intro items
    induction items with
    | nil => exact fun p => Nat.le_add_right _ _
    | cons item items ih =>
        intro p
        have hput := length_closed_put_le fits p item
        have hrest := ih (p.put fits item)
        rw [List.length_cons]
        show (run _ (p.put fits item) items).closed.length ≤ _
        omega
  have hpack := hrun items empty
  rw [show (empty : Packing α).closed.length = 0 from rfl, Nat.zero_add] at hpack
  exact hpack

/-- The packing of the items' images. -/
def map (f : α → β) (p : Packing α) : Packing β :=
  ⟨p.closed.map (List.map f), p.current.map f, p.dropped.map f⟩

theorem map_put (f : α → β) (fits : ℕ → List β → β → Bool) (p : Packing α) (item : α) :
    (p.put (fun k content item => fits k (content.map f) (f item)) item).map f =
      (p.map f).put fits (f item) := by
  have hlength : (p.map f).closed.length = p.closed.length := List.length_map _
  have hnil : (p.map f).current = [] ↔ p.current = [] := List.map_eq_nil_iff
  unfold put
  rw [hlength]
  show map f _ = if fits p.closed.length (p.current.map f) (f item) then _ else _
  simp only [hnil, List.map_nil]
  split_ifs
  · simp [map, add]
  · simp [map, drop]
  · simp [map, add, close]
  · simp [map, drop, close]

theorem map_run (f : α → β) (fits : ℕ → List β → β → Bool) (items : List α) (p : Packing α) :
    (run (fun item p => p.put (fun k content item => fits k (content.map f) (f item)) item) p
        items).map f =
      run (fun item p => p.put fits item) (p.map f) (items.map f) := by
  induction items generalizing p with
  | nil => rfl
  | cons item items ih =>
      rw [List.map_cons]
      show (run _ (p.put _ item) items).map f = run _ ((p.map f).put fits (f item)) (items.map f)
      rw [ih, map_put]

theorem map_pack (f : α → β) (fits : ℕ → List β → β → Bool) (items : List α) :
    (pack (fun k content item => fits k (content.map f) (f item)) items).map f =
      pack fits (items.map f) :=
  map_run f fits items empty

theorem bins_map (f : α → β) (p : Packing α) : (p.map f).bins = p.bins.map (List.map f) := by
  unfold bins
  simp only [map, ne_eq, List.map_eq_nil_iff]
  split_ifs
  · rfl
  · rw [List.map_append, List.map_singleton]

/-- Items are packed by what decides whether they fit. -/
theorem slots_map (f : α → β) (fits : ℕ → List β → β → Bool) (items : List α) :
    slots (fun k content item => fits k (content.map f) (f item)) items =
      slots fits (items.map f) := by
  have hfrom : ∀ (items : List α) (p : Packing α),
      slotsFrom (fun k content item => fits k (content.map f) (f item)) p items =
        slotsFrom fits (p.map f) (items.map f) := by
    intro items
    induction items with
    | nil => exact fun _ => rfl
    | cons item items ih =>
        intro p
        show slotOf _ p item :: slotsFrom _ (p.put _ item) items =
          slotOf fits (p.map f) (f item) :: slotsFrom fits ((p.map f).put fits (f item)) (items.map f)
        have hslot : slotOf (fun k content item => fits k (content.map f) (f item)) p item =
            slotOf fits (p.map f) (f item) := by
          unfold slotOf
          rw [← map_put]
          simp [map]
        rw [hslot, ih, map_put]
  exact hfrom items empty

/-- What fits matters only for the bins that are reached. -/
theorem put_congr {fits' : ℕ → List α → α → Bool} {most : ℕ}
    (h : ∀ k ≤ most, ∀ content item, fits k content item = fits' k content item) {p : Packing α}
    (hmost : p.closed.length + 1 ≤ most) (item : α) : p.put fits item = p.put fits' item := by
  unfold put
  rw [h _ (by omega), h _ hmost]

theorem run_congr {fits' : ℕ → List α → α → Bool} {most : ℕ}
    (h : ∀ k ≤ most, ∀ content item, fits k content item = fits' k content item) (items : List α)
    (p : Packing α) (hmost : p.closed.length + items.length ≤ most) :
    run (fun item p => p.put fits item) p items = run (fun item p => p.put fits' item) p items ∧
      slotsFrom fits p items = slotsFrom fits' p items := by
  induction items generalizing p with
  | nil => exact ⟨rfl, rfl⟩
  | cons item items ih =>
      rw [List.length_cons] at hmost
      have hput : p.put fits item = p.put fits' item := put_congr h (by omega) item
      have hlength := length_closed_put_le fits' p item
      obtain ⟨hrun, hslots⟩ := ih (p.put fits' item) (by omega)
      have hslot : slotOf fits p item = slotOf fits' p item := by
        unfold slotOf
        rw [hput, h _ (by omega)]
      refine ⟨?_, ?_⟩
      · show run _ (p.put fits item) items = run _ (p.put fits' item) items
        rw [hput]
        exact hrun
      · show slotOf fits p item :: slotsFrom fits (p.put fits item) items =
          slotOf fits' p item :: slotsFrom fits' (p.put fits' item) items
        rw [hslot, hput, hslots]

theorem pack_congr {fits' : ℕ → List α → α → Bool} {items : List α}
    (h : ∀ k ≤ items.length, ∀ content item, fits k content item = fits' k content item) :
    pack fits items = pack fits' items ∧ slots fits items = slots fits' items :=
  run_congr h items empty (Nat.le_of_eq (Nat.zero_add _))

end

end Packing

end Wardx.Lib
