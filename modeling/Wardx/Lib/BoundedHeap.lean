import Mathlib.Data.List.Sort

/-!
# The least entries of a list, through a bounded heap

A list holds a binary heap by levels, the greatest entry at its head, under a
comparison that need not tell different entries apart. An entry sifts up or down
a hole, and the hole's neighbours are ordered across it at every step.

`select` offers every entry to a heap of bounded length and sorts what is left.
What the heap turned away is at least all it kept, so on entries the comparison
tells apart this is the beginning of the sorted list.
-/
namespace Wardx.Lib.BoundedHeap

universe u

variable {α : Type u} (cmp : α → α → Ordering)

/-- The entry rises past the parents it exceeds. -/
def siftUp (entry : α) (heap : List α) (child : ℕ) : List α :=
  if 0 < child then
    let parent := (child - 1) / 2
    if (cmp (heap.getD parent entry) entry).isGE then heap.set child entry
    else siftUp entry (heap.set child (heap.getD parent entry)) parent
  else heap.set child entry
termination_by child
decreasing_by omega

/-- The left child, or the right one when it is greater. -/
def greaterChild (entry : α) (heap : List α) (parent : ℕ) : ℕ :=
  let child := parent * 2 + 1
  if child + 1 < heap.length ∧ (cmp (heap.getD (child + 1) entry) (heap.getD child entry)).isGT then
    child + 1
  else child

theorem greaterChild_cases (entry : α) (heap : List α) (parent : ℕ) :
    greaterChild cmp entry heap parent = parent * 2 + 1 ∨
      greaterChild cmp entry heap parent = parent * 2 + 2 ∧ parent * 2 + 2 < heap.length := by
  simp only [greaterChild]
  split_ifs with h
  · exact Or.inr ⟨rfl, h.1⟩
  · exact Or.inl rfl

/-- The entry sinks below the children that exceed it. -/
def siftDown (entry : α) (heap : List α) (parent : ℕ) : List α :=
  if parent * 2 + 1 < heap.length then
    let child := greaterChild cmp entry heap parent
    if (cmp entry (heap.getD child entry)).isGE then heap.set parent entry
    else siftDown entry (heap.set parent (heap.getD child entry)) child
  else heap.set parent entry
termination_by heap.length - parent
decreasing_by
  have hchild := greaterChild_cases cmp entry heap parent
  simp only [List.length_set]
  omega

/-- The entry joins a heap with room, and else replaces a greater root. -/
def offer (limit : ℕ) (heap : List α) (entry : α) : List α :=
  if heap.length < limit then siftUp cmp entry (heap ++ [entry]) heap.length
  else if (cmp entry (heap.getD 0 entry)).isLT then siftDown cmp entry heap 0
  else heap

/-- The comparison as a relation, under which `sort` arranges a list. -/
def Le (a b : α) : Prop := (cmp a b).isLE

instance : DecidableRel (Le cmp) := fun a b => inferInstanceAs (Decidable ((cmp a b).isLE = true))

/-- A stable sort by the comparison. -/
def sort (entries : List α) : List α := entries.insertionSort (Le cmp)

def select (limit : ℕ) (entries : List α) : List α :=
  sort cmp (entries.foldl (offer cmp limit) [])

/-! ## The comparison -/

section Order

variable {cmp}

theorem le_of_isLT {a b : α} (h : (cmp a b).isLT) : Le cmp a b := by
  unfold Le
  cases hcmp : cmp a b <;> simp_all

theorem le_of_not_isGE {a b : α} (h : ¬ (cmp a b).isGE) : Le cmp a b := by
  unfold Le
  cases hcmp : cmp a b <;> simp_all

theorem le_of_not_isGT {a b : α} (h : ¬ (cmp a b).isGT) : Le cmp a b := by
  unfold Le
  cases hcmp : cmp a b <;> simp_all

variable [Std.TransCmp cmp]

theorem Le.refl (a : α) : Le cmp a a := Std.ReflCmp.isLE_rfl

theorem Le.trans {a b c : α} (hab : Le cmp a b) (hbc : Le cmp b c) : Le cmp a c :=
  Std.TransCmp.isLE_trans hab hbc

theorem le_of_isGE {a b : α} (h : (cmp a b).isGE) : Le cmp b a :=
  Std.OrientedCmp.isGE_iff_isLE.mp h

theorem le_of_isGT {a b : α} (h : (cmp a b).isGT) : Le cmp b a := by
  apply le_of_isGE
  cases hcmp : cmp a b <;> simp_all

theorem le_of_not_isLT {a b : α} (h : ¬ (cmp a b).isLT) : Le cmp b a := by
  apply le_of_isGE
  cases hcmp : cmp a b <;> simp_all

theorem Le.total (a b : α) : Le cmp a b ∨ Le cmp b a := by
  by_cases h : (cmp a b).isLT
  · exact Or.inl (le_of_isLT h)
  · exact Or.inr (le_of_not_isLT h)

instance : Std.Total (Le cmp) := ⟨Le.total⟩

instance : IsTrans α (Le cmp) := ⟨fun _ _ _ => Le.trans⟩

end Order

/-! ## The heap order and its holes -/

/-- No entry exceeds its parent. -/
def HeapOrder (heap : List α) : Prop :=
  ∀ i a b, 0 < i → heap[i]? = some a → heap[(i - 1) / 2]? = some b → Le cmp a b

/-- The entries that do not touch the hole are in order. -/
def OrderedOff (heap : List α) (hole : ℕ) : Prop :=
  ∀ i a b, 0 < i → i ≠ hole → (i - 1) / 2 ≠ hole →
    heap[i]? = some a → heap[(i - 1) / 2]? = some b → Le cmp a b

/-- The children of the hole do not exceed its parent. -/
def OrderedAcross (heap : List α) (hole : ℕ) : Prop :=
  ∀ i a b, 0 < hole → 0 < i → (i - 1) / 2 = hole →
    heap[i]? = some a → heap[(hole - 1) / 2]? = some b → Le cmp a b

/-- A hole under which the entry belongs at or above its children. -/
structure UpOrder (heap : List α) (hole : ℕ) (entry : α) : Prop where
  off : OrderedOff cmp heap hole
  across : OrderedAcross cmp heap hole
  below : ∀ i a, 0 < i → (i - 1) / 2 = hole → heap[i]? = some a → Le cmp a entry

/-- A hole over which the entry belongs at or below its parent. -/
structure DownOrder (heap : List α) (hole : ℕ) (entry : α) : Prop where
  off : OrderedOff cmp heap hole
  across : OrderedAcross cmp heap hole
  above : ∀ b, 0 < hole → heap[(hole - 1) / 2]? = some b → Le cmp entry b

section Sift

variable {cmp} {heap : List α} {hole : ℕ} {entry : α}

/-- An entry between the hole's parent and its children fills the hole. -/
theorem heapOrder_set (hoff : OrderedOff cmp heap hole)
    (habove : ∀ b, 0 < hole → heap[(hole - 1) / 2]? = some b → Le cmp entry b)
    (hbelow : ∀ i a, 0 < i → (i - 1) / 2 = hole → heap[i]? = some a → Le cmp a entry) :
    HeapOrder cmp (heap.set hole entry) := by
  intro i a b hpos ha hb
  rw [List.getElem?_set] at ha hb
  by_cases hi : hole = i
  · have hparent : hole ≠ (i - 1) / 2 := by omega
    rw [if_neg hparent] at hb
    rw [if_pos hi] at ha
    split_ifs at ha
    have heq : entry = a := Option.some.inj ha
    rw [← heq]
    apply habove b (by omega)
    rw [hi]
    exact hb
  · rw [if_neg hi] at ha
    by_cases hp : hole = (i - 1) / 2
    · rw [if_pos hp] at hb
      split_ifs at hb
      have heq : entry = b := Option.some.inj hb
      rw [← heq]
      exact hbelow i a hpos hp.symm ha
    · rw [if_neg hp] at hb
      exact hoff i a b hpos (fun h => hi h.symm) (fun h => hp h.symm) ha hb

/-- The greatest child moves into the hole and leaves one. -/
theorem DownOrder.move (h : DownOrder cmp heap hole entry) {child : ℕ} {top : α}
    (hchild : child = hole * 2 + 1 ∨ child = hole * 2 + 2) (htop : heap[child]? = some top)
    (hgreatest : ∀ i a, 0 < i → (i - 1) / 2 = hole → heap[i]? = some a → Le cmp a top)
    (hle : Le cmp entry top) : DownOrder cmp (heap.set hole top) child entry := by
  have hparent : (child - 1) / 2 = hole := by omega
  constructor
  · intro i a b hi hne hoff ha hb
    by_cases hih : hole = i
    · rw [List.getElem?_set, if_pos hih] at ha
      split_ifs at ha
      have heq : top = a := Option.some.inj ha
      rw [List.getElem?_set_ne (by omega), ← hih] at hb
      rw [← heq]
      exact h.across child top b (by omega) (by omega) hparent htop hb
    · rw [List.getElem?_set_ne hih] at ha
      by_cases hp : hole = (i - 1) / 2
      · rw [List.getElem?_set, if_pos hp] at hb
        split_ifs at hb
        have heq : top = b := Option.some.inj hb
        rw [← heq]
        exact hgreatest i a hi hp.symm ha
      · rw [List.getElem?_set_ne hp] at hb
        exact h.off i a b hi (fun heq => hih heq.symm) (fun heq => hp heq.symm) ha hb
  · intro i a b hpos hi hsame ha hb
    rw [List.getElem?_set_ne (by omega)] at ha
    rw [hparent, List.getElem?_set, if_pos rfl] at hb
    split_ifs at hb
    have heq : top = b := Option.some.inj hb
    rw [← heq]
    apply h.off i a top hi (by omega) (by omega) ha
    rw [hsame]
    exact htop
  · intro b hpos hb
    rw [hparent, List.getElem?_set, if_pos rfl] at hb
    split_ifs at hb
    have heq : top = b := Option.some.inj hb
    rw [← heq]
    exact hle

theorem getD_of_lt {i : ℕ} (h : i < heap.length) (d : α) : heap[i]? = some (heap.getD i d) := by
  rw [List.getD_eq_getElem?_getD, List.getElem?_eq_getElem h, Option.getD_some]

variable [Std.TransCmp cmp]

/-- The parent moves into the hole and leaves one. -/
theorem UpOrder.move (h : UpOrder cmp heap hole entry) (hpos : 0 < hole) {parent : α}
    (hparent : heap[(hole - 1) / 2]? = some parent) (hle : Le cmp parent entry) :
    UpOrder cmp (heap.set hole parent) ((hole - 1) / 2) entry := by
  have hchild : ∀ i a, 0 < i → i ≠ hole → (i - 1) / 2 = (hole - 1) / 2 → heap[i]? = some a →
      Le cmp a parent := by
    intro i a hi hne hsame ha
    apply h.off i a parent hi hne (by omega) ha
    rw [hsame]
    exact hparent
  constructor
  · intro i a b hi hne hsame ha hb
    rw [List.getElem?_set_ne (by omega)] at ha
    by_cases hp : hole = (i - 1) / 2
    · rw [List.getElem?_set, if_pos hp] at hb
      split_ifs at hb
      have heq : parent = b := Option.some.inj hb
      rw [← heq]
      exact h.across i a parent hpos hi hp.symm ha hparent
    · rw [List.getElem?_set_ne hp] at hb
      exact h.off i a b hi (by omega) (fun heq => hp heq.symm) ha hb
  · intro i a b hgrand hi hsame ha hb
    rw [List.getElem?_set_ne (by omega)] at hb
    have hup : Le cmp parent b :=
      h.off ((hole - 1) / 2) parent b hgrand (by omega) (by omega) hparent hb
    by_cases hih : hole = i
    · rw [List.getElem?_set, if_pos hih] at ha
      split_ifs at ha
      have heq : parent = a := Option.some.inj ha
      rw [← heq]
      exact hup
    · rw [List.getElem?_set_ne hih] at ha
      exact (hchild i a hi (fun heq => hih heq.symm) hsame ha).trans hup
  · intro i a hi hsame ha
    by_cases hih : hole = i
    · rw [List.getElem?_set, if_pos hih] at ha
      split_ifs at ha
      have heq : parent = a := Option.some.inj ha
      rw [← heq]
      exact hle
    · rw [List.getElem?_set_ne hih] at ha
      exact (hchild i a hi (fun heq => hih heq.symm) hsame ha).trans hle

theorem siftUp_heapOrder (hlt : hole < heap.length) (h : UpOrder cmp heap hole entry) :
    HeapOrder cmp (siftUp cmp entry heap hole) := by
  fun_induction siftUp cmp entry heap hole with
  | case1 heap hole hpos parent hstop =>
      have hparent := getD_of_lt (show parent < heap.length by omega) entry
      apply heapOrder_set h.off _ h.below
      intro b _ hb
      rw [hparent] at hb
      rw [← Option.some.inj hb]
      exact le_of_isGE hstop
  | case2 heap hole hpos parent hrise ih =>
      have hparent := getD_of_lt (show parent < heap.length by omega) entry
      apply ih
      · rw [List.length_set]
        omega
      · exact h.move hpos hparent (le_of_not_isGE hrise)
  | case3 heap hole hroot =>
      exact heapOrder_set h.off (fun b hpos => absurd hpos hroot) h.below

theorem greaterChild_greatest (hlt : hole * 2 + 1 < heap.length) :
    ∀ i a, 0 < i → (i - 1) / 2 = hole → heap[i]? = some a →
      Le cmp a (heap.getD (greaterChild cmp entry heap hole) entry) := by
  intro i a hi hsame ha
  have hside : i = hole * 2 + 1 ∨ i = hole * 2 + 1 + 1 := by omega
  have hbound := (List.getElem?_eq_some_iff.mp ha).1
  have hleft := getD_of_lt hlt entry
  rw [getD_of_lt hbound entry] at ha
  rw [← Option.some.inj ha]
  simp only [greaterChild]
  split_ifs with hright
  · rcases hside with rfl | rfl
    · exact le_of_isGT hright.2
    · exact Le.refl _
  · rcases hside with rfl | rfl
    · exact Le.refl _
    · exact le_of_not_isGT fun hgt => hright ⟨hbound, hgt⟩

theorem siftDown_heapOrder (hlt : hole < heap.length) (h : DownOrder cmp heap hole entry) :
    HeapOrder cmp (siftDown cmp entry heap hole) := by
  fun_induction siftDown cmp entry heap hole with
  | case1 heap hole hleft child hstop =>
      apply heapOrder_set h.off h.above
      intro i a hi hsame ha
      exact (greaterChild_greatest hleft i a hi hsame ha).trans (le_of_isGE hstop)
  | case2 heap hole hleft child hsink ih =>
      have hchild : child = hole * 2 + 1 ∨ child = hole * 2 + 2 ∧ hole * 2 + 2 < heap.length :=
        greaterChild_cases cmp entry heap hole
      have hbound : child < heap.length := by omega
      apply ih
      · rw [List.length_set]
        exact hbound
      · exact h.move (by omega) (getD_of_lt hbound entry) (greaterChild_greatest hleft)
          (le_of_not_isGE hsink)
  | case3 heap hole hleaf =>
      apply heapOrder_set h.off h.above
      intro i a hi hsame ha
      have hbound := (List.getElem?_eq_some_iff.mp ha).1
      omega

end Sift

/-! ## What a heap holds -/

section Kept

variable {cmp} {heap : List α} {entry : α}

/-- An entry taken from one place and another put there change places. -/
theorem set_set_perm_set {i j : ℕ} (hi : i < heap.length) (hj : j < heap.length) (hne : j ≠ i) :
    ((heap.set i (heap.getD j entry)).set j entry).Perm (heap.set i entry) := by
  have hi' : i < (heap.set i entry).length := by simpa using hi
  have hj' : j < (heap.set i entry).length := by simpa using hj
  have hswap := List.set_set_perm hi' hj'
  have hfrom : (heap.set i entry)[i] = entry := List.getElem_set_self hi'
  have hother : (heap.set i entry)[j] = heap.getD j entry := by
    apply Option.some.inj
    rw [← List.getElem?_eq_getElem hj', List.getElem?_set_ne (Ne.symm hne), getD_of_lt hj]
  rw [hfrom, hother, List.set_set] at hswap
  exact hswap

theorem siftUp_perm {hole : ℕ} (hlt : hole < heap.length) :
    (siftUp cmp entry heap hole).Perm (heap.set hole entry) := by
  fun_induction siftUp cmp entry heap hole with
  | case1 heap hole hpos parent hstop => exact List.Perm.refl _
  | case2 heap hole hpos parent hrise ih =>
      have hparent : parent < heap.length := by omega
      have hmoved := ih (by rwa [List.length_set])
      exact hmoved.trans (set_set_perm_set hlt hparent (by omega))
  | case3 heap hole hroot => exact List.Perm.refl _

theorem siftDown_perm {hole : ℕ} (hlt : hole < heap.length) :
    (siftDown cmp entry heap hole).Perm (heap.set hole entry) := by
  fun_induction siftDown cmp entry heap hole with
  | case1 heap hole hleft child hstop => exact List.Perm.refl _
  | case2 heap hole hleft child hsink ih =>
      have hcases : child = hole * 2 + 1 ∨ child = hole * 2 + 2 ∧ hole * 2 + 2 < heap.length :=
        greaterChild_cases cmp entry heap hole
      have hchild : child < heap.length := by omega
      have hmoved := ih (by rwa [List.length_set])
      exact hmoved.trans (set_set_perm_set hlt hchild (by omega))
  | case3 heap hole hleaf => exact List.Perm.refl _

/-- What a heap of bounded length holds of the entries offered: all of them, or
as many as it may, none above one it turned away. -/
structure Kept (cmp : α → α → Ordering) (limit : ℕ) (offered heap : List α) : Prop where
  ordered : HeapOrder cmp heap
  bounded : heap.length ≤ limit
  turned : ∃ away, offered.Perm (heap ++ away) ∧ (away ≠ [] → heap.length = limit) ∧
    ∀ a ∈ heap, ∀ b ∈ away, Le cmp a b

theorem Kept.nil (cmp : α → α → Ordering) (limit : ℕ) : Kept cmp limit [] [] where
  ordered := by simp [HeapOrder]
  bounded := Nat.zero_le limit
  turned := ⟨[], List.Perm.refl _, fun h => absurd rfl h, by simp⟩

theorem upOrder_append (h : HeapOrder cmp heap) (entry : α) :
    UpOrder cmp (heap ++ [entry]) heap.length entry := by
  have hinside : ∀ i a, 0 < i → (i - 1) / 2 = heap.length → (heap ++ [entry])[i]? = some a →
      False := by
    intro i a hi hsame ha
    have hbound := (List.getElem?_eq_some_iff.mp ha).1
    simp at hbound
    omega
  constructor
  · intro i a b hi hne hoff ha hb
    have hbound := (List.getElem?_eq_some_iff.mp ha).1
    simp at hbound
    rw [List.getElem?_append_left (by omega)] at ha hb
    exact h i a b hi ha hb
  · intro i a b _ hi hsame ha
    exact (hinside i a hi hsame ha).elim
  · intro i a hi hsame ha
    exact (hinside i a hi hsame ha).elim

theorem downOrder_root (h : HeapOrder cmp heap) (entry : α) : DownOrder cmp heap 0 entry where
  off i a b hi _ _ ha hb := h i a b hi ha hb
  across _ _ _ hpos := absurd hpos (lt_irrefl 0)
  above _ hpos := absurd hpos (lt_irrefl 0)

theorem sort_perm (entries : List α) : (sort cmp entries).Perm entries :=
  List.perm_insertionSort (Le cmp) entries

variable [Std.TransCmp cmp]

/-- No entry exceeds the root. -/
theorem HeapOrder.le_root (h : HeapOrder cmp heap) {root : α} (hroot : heap[0]? = some root) :
    ∀ a ∈ heap, Le cmp a root := by
  have hat : ∀ (i : ℕ) (a : α), heap[i]? = some a → Le cmp a root := by
    intro i
    induction i using Nat.strong_induction_on with
    | _ i ih =>
        intro a ha
        by_cases hi : i = 0
        · rw [hi, hroot] at ha
          rw [Option.some.inj ha]
          exact Le.refl a
        · have hbound := (List.getElem?_eq_some_iff.mp ha).1
          have hparent := getD_of_lt (show (i - 1) / 2 < heap.length by omega) a
          have hle := h i a _ (by omega) ha hparent
          exact hle.trans (ih _ (by omega) _ hparent)
  intro a ha
  obtain ⟨i, hi⟩ := List.mem_iff_getElem?.mp ha
  exact hat i a hi

theorem Kept.push {limit : ℕ} {offered : List α} (h : Kept cmp limit offered heap) (entry : α)
    (hroom : heap.length < limit) :
    Kept cmp limit (offered ++ [entry]) (siftUp cmp entry (heap ++ [entry]) heap.length) := by
  have hlt : heap.length < (heap ++ [entry]).length := by simp
  have hperm : (siftUp cmp entry (heap ++ [entry]) heap.length).Perm (heap ++ [entry]) := by
    have hset : (heap ++ [entry]).set heap.length entry = heap ++ [entry] := by simp
    have hsift : (siftUp cmp entry (heap ++ [entry]) heap.length).Perm
        ((heap ++ [entry]).set heap.length entry) := siftUp_perm hlt
    rw [hset] at hsift
    exact hsift
  obtain ⟨away, hoffered, hfull, -⟩ := h.turned
  have hnone : away = [] := by
    by_contra hsome
    have := hfull hsome
    omega
  rw [hnone, List.append_nil] at hoffered
  constructor
  · exact siftUp_heapOrder hlt (upOrder_append h.ordered entry)
  · rw [hperm.length_eq, List.length_append, List.length_singleton]
    omega
  · refine ⟨[], ?_, fun hne => absurd rfl hne, by simp⟩
    rw [List.append_nil]
    exact (hoffered.append_right [entry]).trans hperm.symm

theorem Kept.replace {limit : ℕ} {offered tail : List α} {root : α}
    (h : Kept cmp limit offered (root :: tail)) (entry : α) (hlimit : limit ≤ (root :: tail).length)
    (hless : Le cmp entry root) :
    Kept cmp limit (offered ++ [entry]) (siftDown cmp entry (root :: tail) 0) := by
  have hlt : 0 < (root :: tail).length := Nat.succ_pos _
  have hperm : (siftDown cmp entry (root :: tail) 0).Perm (entry :: tail) :=
    siftDown_perm hlt
  have hroot : ∀ a ∈ root :: tail, Le cmp a root := h.ordered.le_root rfl
  obtain ⟨away, hoffered, -, hle⟩ := h.turned
  constructor
  · exact siftDown_heapOrder hlt (downOrder_root h.ordered entry)
  · rw [hperm.length_eq]
    exact h.bounded
  · refine ⟨root :: away, ?_, ?_, ?_⟩
    · have hswap : (root :: tail ++ away ++ [entry]).Perm (entry :: tail ++ root :: away) := by
        have hend : (root :: tail ++ away ++ [entry]).Perm (entry :: root :: (tail ++ away)) :=
          List.perm_append_singleton entry _
        have hmid : (entry :: root :: (tail ++ away)).Perm (entry :: (tail ++ root :: away)) :=
          (List.perm_middle.symm).cons entry
        exact hend.trans hmid
      exact ((hoffered.append_right [entry]).trans hswap).trans (hperm.symm.append_right _)
    · intro _
      rw [hperm.length_eq]
      exact le_antisymm h.bounded hlimit
    · intro a ha b hb
      have hto : Le cmp a root := by
        rcases List.mem_cons.mp (hperm.mem_iff.mp ha) with rfl | hin
        · exact hless
        · exact hroot a (List.mem_cons_of_mem _ hin)
      rcases List.mem_cons.mp hb with rfl | hin
      · exact hto
      · exact hto.trans (hle root List.mem_cons_self b hin)

theorem Kept.refuse {limit : ℕ} {offered tail : List α} {root : α}
    (h : Kept cmp limit offered (root :: tail)) (entry : α) (hlimit : limit ≤ (root :: tail).length)
    (hmore : Le cmp root entry) : Kept cmp limit (offered ++ [entry]) (root :: tail) := by
  have hroot : ∀ a ∈ root :: tail, Le cmp a root := h.ordered.le_root rfl
  obtain ⟨away, hoffered, -, hle⟩ := h.turned
  refine ⟨h.ordered, h.bounded, away ++ [entry], ?_, fun _ => le_antisymm h.bounded hlimit, ?_⟩
  · rw [← List.append_assoc]
    exact hoffered.append_right [entry]
  · intro a ha b hb
    rcases List.mem_append.mp hb with hin | hin
    · exact hle a ha b hin
    · rw [List.mem_singleton.mp hin]
      exact (hroot a ha).trans hmore

theorem Kept.offer {limit : ℕ} (hpos : 0 < limit) {offered : List α}
    (h : Kept cmp limit offered heap) (entry : α) :
    Kept cmp limit (offered ++ [entry]) (offer cmp limit heap entry) := by
  unfold BoundedHeap.offer
  split_ifs with hroom hless
  · exact h.push entry hroom
  · cases heap with
    | nil => exact absurd hpos (by simpa using hroom)
    | cons root tail => exact h.replace entry (not_lt.mp hroom) (le_of_isLT hless)
  · cases heap with
    | nil => exact absurd hpos (by simpa using hroom)
    | cons root tail => exact h.refuse entry (not_lt.mp hroom) (le_of_not_isLT hless)

theorem Kept.offerAll {limit : ℕ} (hpos : 0 < limit) {offered : List α}
    (h : Kept cmp limit offered heap) (entries : List α) :
    Kept cmp limit (offered ++ entries) (entries.foldl (BoundedHeap.offer cmp limit) heap) := by
  induction entries generalizing offered heap with
  | nil => simpa using h
  | cons entry entries ih =>
      have hnext := ih (h.offer hpos entry)
      rw [List.append_assoc] at hnext
      exact hnext

/-- A list in order, with entries that tie as they stood. -/
structure StableSort (cmp : α → α → Ordering) (entries sorted : List α) : Prop where
  perm : sorted.Perm entries
  ordered : sorted.Pairwise (Le cmp)
  ties : ∀ tied : List α, tied.Sublist entries → tied.Pairwise (fun a b => cmp a b = .eq) →
    tied.Sublist sorted

theorem sort_pairwise (entries : List α) : (sort cmp entries).Pairwise (Le cmp) :=
  List.pairwise_insertionSort (Le cmp) entries

theorem sort_stable (entries : List α) : StableSort cmp entries (sort cmp entries) where
  perm := sort_perm entries
  ordered := sort_pairwise entries
  ties tied hsub htied := by
    apply List.sublist_insertionSort _ hsub
    apply htied.imp
    intro a b hab
    unfold Le
    rw [hab]
    rfl

/-- On entries the comparison tells apart, the heap selects the beginning of the
sorted list. -/
theorem select_eq_take {limit : ℕ} (hpos : 0 < limit) {entries : List α}
    (hapart : ∀ a ∈ entries, ∀ b ∈ entries, cmp a b = .eq → a = b) :
    select cmp limit entries = (sort cmp entries).take limit := by
  have hkept : Kept cmp limit entries (entries.foldl (offer cmp limit) []) :=
    (Kept.nil cmp limit).offerAll hpos entries
  unfold select
  generalize entries.foldl (offer cmp limit) [] = heap at hkept
  obtain ⟨away, hentries, hfull, hle⟩ := hkept.turned
  have hsorted : (sort cmp heap ++ sort cmp away).Pairwise (Le cmp) := by
    rw [List.pairwise_append]
    refine ⟨sort_pairwise heap, sort_pairwise away, fun a ha b hb => ?_⟩
    exact hle a ((sort_perm heap).mem_iff.mp ha) b ((sort_perm away).mem_iff.mp hb)
  have hperm : (sort cmp entries).Perm (sort cmp heap ++ sort cmp away) :=
    ((sort_perm entries).trans hentries).trans
      ((sort_perm heap).symm.append (sort_perm away).symm)
  have hwhole : sort cmp entries = sort cmp heap ++ sort cmp away := by
    apply List.Perm.eq_of_pairwise _ (sort_pairwise entries) hsorted hperm
    intro a b ha hb hab hba
    apply hapart a ((sort_perm entries).mem_iff.mp ha) b
    · exact (sort_perm entries).mem_iff.mp (hperm.mem_iff.mpr hb)
    · exact Std.OrientedCmp.isLE_antisymm hab hba
  have hlength : (sort cmp heap).length = heap.length := (sort_perm heap).length_eq
  by_cases hnone : away = []
  · have hempty : sort cmp away = [] := by
      rw [hnone]
      rfl
    rw [hwhole, hempty, List.append_nil, List.take_of_length_le]
    rw [hlength]
    exact hkept.bounded
  · rw [hwhole, List.take_left' (hlength.trans (hfull hnone))]

end Kept

/-! ## Ties by position -/

section Position

/-- Entries in the order of a comparison, and of their positions where it ties. -/
def byPosition (a b : α × ℕ) : Ordering := (cmp a.1 b.1).then (compare a.2 b.2)

variable {cmp}

theorem byPosition_apart {entries : List α} {a b : α × ℕ} (ha : a ∈ entries.zipIdx)
    (hb : b ∈ entries.zipIdx) (h : byPosition cmp a b = .eq) : a = b := by
  have hat : entries[a.2]? = some a.1 := List.mem_zipIdx_iff_getElem?.mp ha
  have hbt : entries[b.2]? = some b.1 := List.mem_zipIdx_iff_getElem?.mp hb
  have hsame : a.2 = b.2 := by
    have hboth := Ordering.then_eq_eq.mp h
    exact Nat.compare_eq_eq.mp hboth.2
  rw [hsame, hbt] at hat
  exact Prod.ext (Option.some.inj hat).symm hsame

/-- Before later positions a tie does not show. -/
theorem le_byPosition {a b : α × ℕ} (h : a.2 < b.2) :
    Le (byPosition cmp) a b ↔ Le cmp a.1 b.1 := by
  have hlt : compare a.2 b.2 = .lt := Nat.compare_eq_lt.mpr h
  unfold Le byPosition
  rw [hlt]
  cases cmp a.1 b.1 <;> simp

theorem map_orderedInsert_byPosition (a : α) (n : ℕ) (entries : List (α × ℕ))
    (hlater : ∀ entry ∈ entries, n < entry.2) :
    (entries.orderedInsert (Le (byPosition cmp)) (a, n)).map Prod.fst =
      (entries.map Prod.fst).orderedInsert (Le cmp) a := by
  induction entries with
  | nil => rfl
  | cons entry entries ih =>
      rw [List.forall_mem_cons] at hlater
      rw [List.map_cons, List.orderedInsert_cons, List.orderedInsert_cons]
      have hle : Le (byPosition cmp) (a, n) entry ↔ Le cmp a entry.1 := le_byPosition hlater.1
      by_cases h : Le cmp a entry.1
      · rw [if_pos h, if_pos (hle.mpr h)]
        rfl
      · rw [if_neg h, if_neg (fun hpos => h (hle.mp hpos)), List.map_cons, ih hlater.2]

/-- A stable sort orders entries as their positions break its ties. -/
theorem sort_byPosition (entries : List α) (n : ℕ) :
    (sort (byPosition cmp) (entries.zipIdx n)).map Prod.fst = sort cmp entries := by
  induction entries generalizing n with
  | nil => rfl
  | cons entry entries ih =>
      have hlater : ∀ other ∈ sort (byPosition cmp) (entries.zipIdx (n + 1)), n < other.2 := by
        intro other hother
        have hmem : other ∈ entries.zipIdx (n + 1) := (sort_perm _).mem_iff.mp hother
        have hrange := List.le_snd_of_mem_zipIdx hmem
        omega
      calc (sort (byPosition cmp) ((entry :: entries).zipIdx n)).map Prod.fst
          = ((sort (byPosition cmp) (entries.zipIdx (n + 1))).map Prod.fst).orderedInsert (Le cmp)
              entry := map_orderedInsert_byPosition entry n _ hlater
        _ = sort cmp (entry :: entries) := by
            rw [ih]
            rfl

variable [Std.TransCmp cmp]

instance : Std.TransCmp (byPosition cmp) := by
  have hfirst : Std.TransCmp fun a b : α × ℕ => cmp a.1 b.1 :=
    { eq_swap := Std.OrientedCmp.eq_swap
      isLE_trans := Std.TransCmp.isLE_trans }
  exact inferInstanceAs (Std.TransCmp (compareLex (fun a b : α × ℕ => cmp a.1 b.1)
    (compareOn (Prod.snd : α × ℕ → ℕ))))

/-- Ties by position, the heap selects the beginning of the stable sort. -/
theorem select_byPosition {limit : ℕ} (hpos : 0 < limit) (entries : List α) :
    (select (byPosition cmp) limit entries.zipIdx).map Prod.fst = (sort cmp entries).take limit := by
  have hapart : ∀ a ∈ entries.zipIdx, ∀ b ∈ entries.zipIdx, byPosition cmp a b = .eq → a = b :=
    fun a ha b hb => byPosition_apart ha hb
  rw [select_eq_take hpos hapart, List.map_take, sort_byPosition]

end Position

end Wardx.Lib.BoundedHeap
