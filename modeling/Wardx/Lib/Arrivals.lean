import Mathlib.Data.Set.Card
import Wardx.Lib.Table

/-!
# Keys by arrival

A bounded store that forgets the key that came first. The abstract store is a
function from live keys to values, each with the number of its arrival. It says
which key goes when there is no room: the one no live key arrived before.

A store that is written as code keeps the order in a list. `Lists` relates such
a list to the abstract store. The head of the list is then the key to forget,
its length is the number of live keys, and every operation has its counterpart
on the list.
-/
namespace Wardx.Lib

universe u v

/-- The live keys, each with the number of its arrival and its value. -/
structure Arrivals (κ : Type u) (α : Type v) where
  live : κ → Option (ℕ × α)
  next : ℕ

namespace Arrivals

variable {κ : Type u} {α : Type v}

def empty : Arrivals κ α := ⟨fun _ => none, 0⟩

/-- A live key that no live key arrived before. -/
def Earliest (a : Arrivals κ α) (k : κ) : Prop :=
  ∃ n v, a.live k = some (n, v) ∧ ∀ k' n' v', a.live k' = some (n', v') → n ≤ n'

/-- The number of live keys. -/
noncomputable def count (a : Arrivals κ α) : ℕ := {k | (a.live k).isSome}.ncard

open Classical in
/-- Forget the earliest key. -/
noncomputable def evict (a : Arrivals κ α) : Arrivals κ α where
  live k := if a.Earliest k then none else a.live k
  next := a.next

/-- A store at its bound forgets a key. -/
noncomputable def makeRoom (bound : ℕ) (a : Arrivals κ α) : Arrivals κ α :=
  if bound ≤ a.count then a.evict else a

/-- Rewrite every value, or drop it with its key. -/
def retain (f : α → Option α) (a : Arrivals κ α) : Arrivals κ α where
  live k := (a.live k).bind fun e => (f e.2).map fun v => (e.1, v)
  next := a.next

section
variable [DecidableEq κ]

/-- A key arrives. -/
def enter (k : κ) (v : α) (a : Arrivals κ α) : Arrivals κ α where
  live k' := if k' = k then some (a.next, v) else a.live k'
  next := a.next + 1

/-- Replace the value of a live key. -/
def write (k : κ) (v : α) (a : Arrivals κ α) : Arrivals κ α where
  live k' := if k' = k then (a.live k).map fun e => (e.1, v) else a.live k'
  next := a.next

end

section
variable [DecidableEq κ]

theorem write_of_live {a : Arrivals κ α} {k : κ} {n : ℕ} {v : α} (h : a.live k = some (n, v)) :
    a.write k v = a := by
  unfold write
  congr
  funext k'
  split_ifs with hk
  · rw [hk, h]
    rfl
  · rfl

theorem write_enter (a : Arrivals κ α) (k : κ) (v w : α) :
    (a.enter k v).write k w = a.enter k w := by
  unfold enter write
  congr
  funext k'
  split_ifs with hk
  · simp
  · exact if_neg hk

end

/-- The list holds the live keys with their numbers, in the order they arrived. -/
structure Lists (a : Arrivals κ α) (queue : List (κ × ℕ)) : Prop where
  increasing : queue.Pairwise fun e e' => e.2 < e'.2
  mem_iff : ∀ k n, (k, n) ∈ queue ↔ ∃ v, a.live k = some (n, v)
  fresh : ∀ e ∈ queue, e.2 < a.next

variable {a : Arrivals κ α} {queue : List (κ × ℕ)}

theorem live_evict_of_none {k : κ} (h : a.live k = none) : a.evict.live k = none := by
  unfold evict
  dsimp only
  split_ifs
  · rfl
  · exact h

theorem lists_empty : (empty : Arrivals κ α).Lists [] :=
  ⟨List.Pairwise.nil, fun _ _ => by simp [empty], fun _ he => by simp at he⟩

namespace Lists

theorem number_unique (h : a.Lists queue) {k : κ} {n m : ℕ} (hn : (k, n) ∈ queue)
    (hm : (k, m) ∈ queue) : n = m := by
  obtain ⟨v, hv⟩ := (h.mem_iff k n).mp hn
  obtain ⟨w, hw⟩ := (h.mem_iff k m).mp hm
  rw [hv] at hw
  simp only [Option.some.injEq, Prod.mk.injEq] at hw
  exact hw.1

/-- No two keys arrived at once. -/
theorem key_unique (h : a.Lists queue) {j k : κ} {n : ℕ} (hj : (j, n) ∈ queue)
    (hk : (k, n) ∈ queue) : j = k := by
  have hnodup : (queue.map Prod.snd).Nodup :=
    List.pairwise_map.mpr (h.increasing.imp fun hlt => Nat.ne_of_lt hlt)
  exact congrArg Prod.fst (List.inj_on_of_nodup_map hnodup hj hk rfl)

theorem nodup_keys (h : a.Lists queue) : (queue.map Prod.fst).Nodup := by
  apply List.pairwise_map.mpr
  apply h.increasing.imp_of_mem
  intro e e' he he' hlt heq
  have hsame : e.2 = e'.2 := h.number_unique (k := e'.1) (heq ▸ he) he'
  omega

theorem mem_keys_iff (h : a.Lists queue) (k : κ) :
    k ∈ queue.map Prod.fst ↔ (a.live k).isSome := by
  simp only [List.mem_map, Prod.exists, exists_and_right, exists_eq_right, h.mem_iff,
    Option.isSome_iff_exists]

theorem length_eq (h : a.Lists queue) : queue.length = a.count := by
  classical
  have hset : {k | (a.live k).isSome} = ((queue.map Prod.fst).toFinset : Set κ) := by
    ext k
    rw [Set.mem_ofPred_eq, ← h.mem_keys_iff, List.coe_toFinset, Set.mem_ofPred_eq]
  unfold count
  rw [hset, Set.ncard_coe_finset, List.toFinset_card_of_nodup h.nodup_keys, List.length_map]

theorem earliest_iff {e : κ × ℕ} (h : a.Lists (e :: queue)) (k : κ) :
    a.Earliest k ↔ k = e.1 := by
  obtain ⟨v, hv⟩ := (h.mem_iff e.1 e.2).mp List.mem_cons_self
  have hrest := (List.pairwise_cons.mp h.increasing).1
  constructor
  · rintro ⟨n, w, hw, hmin⟩
    have hle : n ≤ e.2 := hmin _ _ _ hv
    have hmem : (k, n) ∈ e :: queue := (h.mem_iff k n).mpr ⟨w, hw⟩
    rw [List.mem_cons] at hmem
    cases hmem with
    | inl heq => rw [← heq]
    | inr hlater =>
        have hlt := hrest _ hlater
        omega
  · intro hk
    refine ⟨e.2, v, hk ▸ hv, fun k' n' v' hv' => ?_⟩
    have hmem : (k', n') ∈ e :: queue := (h.mem_iff k' n').mpr ⟨v', hv'⟩
    rw [List.mem_cons] at hmem
    cases hmem with
    | inl heq => simp [← heq]
    | inr hlater =>
        have hlt := hrest _ hlater
        omega

/-- Forgetting the earliest key takes the head off the list. -/
theorem evict {e : κ × ℕ} (h : a.Lists (e :: queue)) : a.evict.Lists queue := by
  have hrest := List.pairwise_cons.mp h.increasing
  refine ⟨hrest.2, fun k n => ?_, fun e' he' => h.fresh e' (List.mem_cons_of_mem e he')⟩
  unfold Arrivals.evict
  dsimp only
  rw [h.earliest_iff]
  split_ifs with hk
  · constructor
    · intro hmem
      have hlt := hrest.1 _ hmem
      have hsame : n = e.2 := h.number_unique (k := e.1)
        (List.mem_cons_of_mem e (hk ▸ hmem)) List.mem_cons_self
      simp only at hlt
      omega
    · rintro ⟨v, hv⟩
      cases hv
  · rw [← h.mem_iff, List.mem_cons]
    constructor
    · exact Or.inr
    · intro hmem
      cases hmem with
      | inl heq => exact absurd (congrArg Prod.fst heq) hk
      | inr hlater => exact hlater

/-- A store below its bound has room. One at its bound has an earliest key. -/
theorem makeRoom_cases (h : a.Lists queue) {bound : ℕ} (hpos : 1 ≤ bound) :
    (queue.length < bound ∧ a.makeRoom bound = a) ∨
      ∃ e rest, queue = e :: rest ∧ bound ≤ queue.length ∧ a.makeRoom bound = a.evict := by
  unfold Arrivals.makeRoom
  rw [← h.length_eq]
  by_cases hfull : bound ≤ queue.length
  · right
    cases queue with
    | nil =>
        simp only [List.length_nil] at hfull
        omega
    | cons e rest => exact ⟨e, rest, rfl, hfull, if_pos hfull⟩
  · left
    exact ⟨by omega, if_neg hfull⟩

/-- A dropped key's queue entry goes with it. -/
theorem retain (h : a.Lists queue) {f : α → Option α} {p : κ × ℕ → Bool}
    (hp : ∀ k n v, a.live k = some (n, v) → p (k, n) = (f v).isSome) :
    (a.retain f).Lists (queue.filter p) := by
  refine ⟨h.increasing.filter _, fun k n => ?_, fun e he => h.fresh e (List.mem_of_mem_filter he)⟩
  unfold Arrivals.retain
  dsimp only
  rw [List.mem_filter, h.mem_iff]
  constructor
  · rintro ⟨⟨v, hv⟩, hkeep⟩
    rw [hp k n v hv] at hkeep
    obtain ⟨w, hw⟩ := Option.isSome_iff_exists.mp hkeep
    exact ⟨w, by simp [hv, hw]⟩
  · rintro ⟨w, hw⟩
    obtain ⟨⟨m, v⟩, hv, hmap⟩ := Option.bind_eq_some_iff.mp hw
    obtain ⟨w', hw', heq⟩ := Option.map_eq_some_iff.mp hmap
    simp only [Prod.mk.injEq] at heq
    obtain ⟨rfl, rfl⟩ := heq
    refine ⟨⟨v, hv⟩, ?_⟩
    rw [hp k m v hv, hw']
    rfl

variable [DecidableEq κ]

/-- A new key stands at the end of the list. -/
theorem enter (h : a.Lists queue) {k : κ} (hk : a.live k = none) (v : α) :
    (a.enter k v).Lists (queue ++ [(k, a.next)]) := by
  refine ⟨?_, fun k' n => ?_, fun e he => ?_⟩
  · apply List.pairwise_append.mpr
    refine ⟨h.increasing, List.pairwise_singleton _ _, fun e he e' he' => ?_⟩
    rw [List.mem_singleton] at he'
    rw [he']
    exact h.fresh e he
  · unfold Arrivals.enter
    dsimp only
    rw [List.mem_append, List.mem_singleton, h.mem_iff, Prod.mk.injEq]
    split_ifs with hkey
    · subst hkey
      simp [hk, eq_comm]
    · simp [hkey]
  · unfold Arrivals.enter
    dsimp only
    rw [List.mem_append, List.mem_singleton] at he
    cases he with
    | inl hold =>
        have hlt := h.fresh e hold
        omega
    | inr hnew => simp [hnew]

theorem write (h : a.Lists queue) (k : κ) (v : α) : (a.write k v).Lists queue := by
  refine ⟨h.increasing, fun k' n => ?_, h.fresh⟩
  rw [h.mem_iff]
  unfold Arrivals.write
  dsimp only
  split_ifs with hk
  · rw [hk]
    cases a.live k with
    | none => simp
    | some e => simp [Prod.ext_iff]
  · rfl

end Lists

/-! ## Tables of live keys -/

section
variable [DecidableEq κ] {β : Type*}

/-- A table with the live keys has as many entries as there are. -/
theorem Lists.size_eq (h : a.Lists queue) {t : Table κ β}
    (ht : ∀ k, (t.get k).isSome = (a.live k).isSome) : t.size = queue.length := by
  rw [Table.size_eq_length_keys, ← List.length_map (f := Prod.fst)]
  apply List.Perm.length_eq
  have hkeys : t.keys.Nodup := t.nodup
  rw [List.perm_ext_iff_of_nodup hkeys h.nodup_keys]
  intro k
  rw [← Table.get_isSome_iff, ht, h.mem_keys_iff]

/-- The table holds every live key with its number. -/
def Numbered (a : Arrivals κ α) (t : Table κ (ℕ × α)) : Prop :=
  ∀ k, t.get k = a.live k

variable {t : Table κ (ℕ × α)}

theorem Numbered.isSome (h : a.Numbered t) (k : κ) : (t.get k).isSome = (a.live k).isSome := by
  rw [h k]

/-- A list entry of a live key says when it came. -/
theorem Numbered.entry (h : a.Numbered t) {e : κ × ℕ} :
    (t.get e.1).map Prod.fst = some e.2 ↔ ∃ v, a.live e.1 = some (e.2, v) := by
  rw [h e.1, Option.map_eq_some_iff]
  constructor
  · rintro ⟨⟨n, v⟩, hv, rfl⟩
    exact ⟨v, hv⟩
  · rintro ⟨v, hv⟩
    exact ⟨_, hv, rfl⟩

theorem Numbered.evict (h : a.Numbered t) {e : κ × ℕ} (hq : a.Lists (e :: queue)) :
    a.evict.Numbered (t.erase e.1) := by
  intro k
  unfold Arrivals.evict
  dsimp only
  rw [Table.get_erase, hq.earliest_iff, h k]
  split_ifs
  · rfl
  · rfl

theorem Numbered.enter (h : a.Numbered t) (k : κ) (v : α) :
    (a.enter k v).Numbered (t.put k (a.next, v)) := by
  intro k'
  rw [Table.get_put, h k']
  rfl

theorem Numbered.retain (h : a.Numbered t) {f : α → Option α} {u : Table κ (ℕ × α)}
    (hu : ∀ k, u.get k = (t.get k).bind fun e => (f e.2).map fun v => (e.1, v)) :
    (a.retain f).Numbered u := by
  intro k
  rw [hu, h k]
  rfl

theorem Numbered.write (h : a.Numbered t) {k : κ} {n : ℕ} {v : α} (hk : a.live k = some (n, v))
    (w : α) : (a.write k w).Numbered (t.put k (n, w)) := by
  intro k'
  rw [Table.get_put, h k']
  unfold Arrivals.write
  dsimp only
  rw [hk]
  rfl

end

/-! ## Tables in the order of arrival -/

/-- The table lists the live keys with their values in the order they came. -/
structure Ordered (a : Arrivals κ α) (queue : List (κ × ℕ)) (t : Table κ α) [DecidableEq κ] :
    Prop where
  lists : a.Lists queue
  keys : t.keys = queue.map Prod.fst
  get : ∀ k, t.get k = (a.live k).map Prod.snd

namespace Ordered

variable [DecidableEq κ] {t : Table κ α}

theorem size_eq (h : a.Ordered queue t) : t.size = queue.length := by
  apply h.lists.size_eq
  intro k
  rw [h.get, Option.isSome_map]

/-- The first entry of the table is the earliest key's. -/
theorem evict {e : κ × ℕ} (h : a.Ordered (e :: queue) t) {u : Table κ α}
    (hu : u.entries = t.entries.drop 1) : a.evict.Ordered queue u := by
  refine ⟨h.lists.evict, ?_, fun k => ?_⟩
  · unfold Table.keys
    rw [hu, List.map_drop, ← Table.keys, h.keys]
    rfl
  · have hkeys := h.keys
    have hnodup := t.nodup
    cases hentries : t.entries with
    | nil => simp [Table.keys, hentries] at hkeys
    | cons first rest =>
        obtain ⟨j, v⟩ := first
        simp only [Table.keys, hentries, List.map_cons, List.cons.injEq] at hkeys
        rw [hentries, List.map_cons, List.nodup_cons] at hnodup
        have hget := h.get k
        unfold Table.get at hget ⊢
        rw [hentries, List.lookup_cons] at hget
        rw [hu, hentries, List.drop_one, List.tail_cons]
        unfold Arrivals.evict
        dsimp only
        rw [h.lists.earliest_iff, ← hkeys.1]
        by_cases hk : k = j
        · rw [if_pos hk, hk, Option.map_none, List.lookup_eq_none_iff]
          intro p hp
          have hne : j ≠ p.1 := fun heq => hnodup.1 (List.mem_map.mpr ⟨p, hp, heq.symm⟩)
          simpa using hne
        · rw [if_neg hk, ← hget]
          simp [beq_eq_false_iff_ne.mpr hk]

theorem enter (h : a.Ordered queue t) {k : κ} (hk : a.live k = none) (v : α) :
    (a.enter k v).Ordered (queue ++ [(k, a.next)]) (t.put k v) := by
  refine ⟨h.lists.enter hk v, ?_, fun k' => ?_⟩
  · have hnew : k ∉ t.keys := by
      rw [← Table.get_eq_none_iff, h.get, hk]
      rfl
    rw [Table.keys_put, if_neg hnew, h.keys, List.map_append]
    rfl
  · rw [Table.get_put, h.get]
    unfold Arrivals.enter
    dsimp only
    split_ifs
    · rfl
    · rfl

theorem write (h : a.Ordered queue t) {k : κ} {n : ℕ} {v : α} (hk : a.live k = some (n, v))
    (w : α) : (a.write k w).Ordered queue (t.put k w) := by
  refine ⟨h.lists.write k w, ?_, fun k' => ?_⟩
  · have hlive : k ∈ t.keys := by
      rw [← Table.get_isSome_iff, h.get, hk]
      rfl
    rw [Table.keys_put, if_pos hlive, h.keys]
  · rw [Table.get_put, h.get]
    unfold Arrivals.write
    dsimp only
    rw [hk]
    split_ifs
    · rfl
    · rfl

/-- Rewriting every value and dropping some, the entries stay in their order. -/
theorem retain (h : a.Ordered queue t) {f : α → Option α} {g : α → α} {p : α → Bool}
    (hf : ∀ v, f v = if p (g v) then some (g v) else none) :
    ∃ queue', (a.retain f).Ordered queue'
      ((t.mapValues fun _ v => g v).filter fun _ v => p v) ∧ queue'.length ≤ queue.length := by
  let keep : κ × ℕ → Bool := fun e => ((t.get e.1).bind f).isSome
  have hlists : (a.retain f).Lists (queue.filter keep) := by
    apply h.lists.retain
    intro k n v hv
    simp [keep, h.get, hv]
  refine ⟨queue.filter keep, ⟨hlists, ?_, fun k => ?_⟩, List.length_filter_le _ _⟩
  · have hentries : ((t.mapValues fun _ v => g v).filter fun _ v => p v).keys =
        t.keys.filter fun k => ((t.get k).bind f).isSome := by
      unfold Table.keys Table.filter Table.mapValues
      dsimp only
      rw [List.filter_map, List.filter_map, List.map_map]
      congr 1
      apply List.filter_congr
      intro e he
      have hget : t.get e.1 = some e.2 := (t.get_eq_some_iff e.1 e.2).mpr he
      simp only [Function.comp_apply, hget, Option.bind_some, hf]
      split_ifs with hp
      · simp [hp]
      · simp [hp]
    rw [hentries, h.keys, List.filter_map]
    rfl
  · rw [Table.get_filter, Table.get_mapValues, h.get]
    unfold Arrivals.retain
    dsimp only
    cases a.live k with
    | none => rfl
    | some e =>
        simp only [Option.map_some, Option.bind_some, hf, Option.filter_some]
        split_ifs
        · rfl
        · rfl

end Ordered

end Arrivals
end Wardx.Lib
