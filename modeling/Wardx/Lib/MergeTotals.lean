import Mathlib.Algebra.BigOperators.Group.List.Basic
import Mathlib.Order.BoundedOrder.Lattice
import Wardx.Lib.KeyedMerge

/-!
# What merged records amount to

A measure of records into a commutative monoid is additive when a merge has the
sum of the measures it merged. Under a key a table then holds the sum of the
records inserted there, so neither their order nor how they were grouped shows.
What a merge keeps of its left record is that of the first record of the key.

Extremes are sums too: `Joined` adds by the join of a semilattice.
-/
namespace Wardx.Lib

universe u v w

/-! ## Joins as sums -/

/-- Values of a join semilattice, added by their join. -/
@[ext] structure Joined (α : Type u) where
  value : α
deriving DecidableEq

namespace Joined

variable {α : Type u} [SemilatticeSup α]

instance : Add (Joined α) := ⟨fun a b => ⟨a.value ⊔ b.value⟩⟩

@[simp] theorem add_value (a b : Joined α) : (a + b).value = a.value ⊔ b.value := rfl

variable [OrderBot α]

instance : Zero (Joined α) := ⟨⟨⊥⟩⟩

@[simp] theorem zero_value : (0 : Joined α).value = ⊥ := rfl

instance : AddCommMonoid (Joined α) where
  add_assoc a b c := Joined.ext (sup_assoc a.value b.value c.value)
  zero_add a := Joined.ext (bot_sup_eq a.value)
  add_zero a := Joined.ext (sup_bot_eq a.value)
  add_comm a b := Joined.ext (sup_comm a.value b.value)
  nsmul := nsmulRec

end Joined

/-! ## Totals -/

/-- The table lists the value of a present key and others a write leaves alone. -/
theorem Table.values_of_some {κ : Type u} {α : Type v} [DecidableEq κ] {t : Table κ α} {k : κ}
    {e : α} (h : t.get k = some e) :
    ∃ rest, t.values.Perm (e :: rest) ∧ ∀ v, (t.put k v).values.Perm (v :: rest) := by
  have key : ∀ entries : List (κ × α), entries.lookup k = some e →
      ∃ rest, (entries.map Prod.snd).Perm (e :: rest) ∧
        ∀ v, ((Table.putEntry k v entries).map Prod.snd).Perm (v :: rest) := by
    intro entries hentries
    induction entries with
    | nil => cases hentries
    | cons entry entries ih =>
        obtain ⟨a, b⟩ := entry
        rw [List.lookup_cons] at hentries
        by_cases ha : k = a
        · subst ha
          simp only [beq_self_eq_true, Option.some.injEq] at hentries
          subst hentries
          exact ⟨entries.map Prod.snd, List.Perm.refl _, fun v => by simp [Table.putEntry]⟩
        · rw [beq_eq_false_iff_ne.mpr ha] at hentries
          obtain ⟨rest, hrest, hput⟩ := ih hentries
          refine ⟨b :: rest, ?_, fun v => ?_⟩
          · exact (List.Perm.cons b hrest).trans (List.Perm.swap e b rest)
          · have hne : ¬ a = k := fun heq => ha heq.symm
            simp only [Table.putEntry, hne, if_false, List.map_cons]
            exact (List.Perm.cons b (hput v)).trans (List.Perm.swap v b rest)
  exact key t.entries h

theorem Table.values_put_of_none {κ : Type u} {α : Type v} [DecidableEq κ] {t : Table κ α} {k : κ}
    (h : t.get k = none) (v : α) : (t.put k v).values = t.values ++ [v] := by
  have key : ∀ entries : List (κ × α), entries.lookup k = none →
      (Table.putEntry k v entries).map Prod.snd = entries.map Prod.snd ++ [v] := by
    intro entries hentries
    induction entries with
    | nil => rfl
    | cons entry entries ih =>
        obtain ⟨a, b⟩ := entry
        rw [List.lookup_cons] at hentries
        by_cases ha : k = a
        · subst ha
          simp at hentries
        · rw [beq_eq_false_iff_ne.mpr ha] at hentries
          have hne : ¬ a = k := fun heq => ha heq.symm
          simp only [Table.putEntry, hne, if_false, List.map_cons, List.cons_append, ih hentries]
  exact key t.entries h

namespace GuardedMerge

variable {ρ κ : Type u} {σ : Type v} {ε : Type w} [DecidableEq κ] (M : GuardedMerge ρ κ σ ε)
variable {μ : Type*} [AddCommMonoid μ] (measure : ρ → μ)

/-- A merge of records with a property keeps it and adds their measures. -/
def Additive (P : ρ → Prop) : Prop :=
  ∀ a b c, P a → P b → M.key a = M.key b → M.merge a b = .ok c →
    P c ∧ measure c = measure a + measure b

/-- The sum of the records of a key. -/
def total (rs : List ρ) (k : κ) : μ :=
  ((rs.filter fun r => decide (M.key r = k)).map measure).sum

/-- The measure of what a table holds under a key. -/
def held (t : Table κ ρ) (k : κ) : μ := ((t.get k).map measure).getD 0

theorem total_nil (k : κ) : M.total measure [] k = 0 := rfl

theorem total_cons (r : ρ) (rs : List ρ) (k : κ) :
    M.total measure (r :: rs) k =
      (if M.key r = k then measure r else 0) + M.total measure rs k := by
  unfold total
  by_cases h : M.key r = k
  · simp [h]
  · simp [h]

theorem total_append (rs rs' : List ρ) (k : κ) :
    M.total measure (rs ++ rs') k = M.total measure rs k + M.total measure rs' k := by
  simp [total]

theorem total_perm {rs rs' : List ρ} (h : rs.Perm rs') (k : κ) :
    M.total measure rs k = M.total measure rs' k :=
  ((h.filter _).map measure).sum_eq

variable {M measure}

theorem insert_held {P : ρ → Prop} (hadd : M.Additive measure P) {t t' : Table κ ρ} {r : ρ}
    (hk : M.Keyed t) (ht : ∀ k e, t.get k = some e → P e) (hr : P r) (h : M.insert t r = .ok t') :
    (∀ k e, t'.get k = some e → P e) ∧ (∀ k, held measure t' k =
      held measure t k + if M.key r = k then measure r else 0) ∧
      (t'.values.map measure).sum = (t.values.map measure).sum + measure r := by
  have hput : ∀ {v : ρ}, P v → ∀ k e, (t.put (M.key r) v).get k = some e → P e := by
    intro v hv k e hget
    rw [Table.get_put] at hget
    split_ifs at hget
    · exact Option.some.inj hget ▸ hv
    · exact ht k e hget
  unfold insert at h
  cases hg : t.get (M.key r) with
  | none =>
      rw [hg] at h
      cases h
      refine ⟨hput hr, fun k => ?_, ?_⟩
      · unfold held
        rw [Table.get_put]
        by_cases hkey : k = M.key r
        · subst hkey
          simp [hg]
        · simp [hkey, Ne.symm hkey]
      · rw [Table.values_put_of_none hg]
        simp
  | some e =>
      simp only [hg, bind_eq_ok_iff] at h
      obtain ⟨merged, hm, hnext⟩ := h
      cases hnext
      have hmerged := hadd e r merged (ht _ e hg) hr (hk _ _ hg) hm
      refine ⟨hput hmerged.1, fun k => ?_, ?_⟩
      · unfold held
        rw [Table.get_put]
        by_cases hkey : k = M.key r
        · subst hkey
          simp [hg, hmerged.2]
        · simp [hkey, Ne.symm hkey]
      · obtain ⟨rest, hrest, hwrite⟩ := Table.values_of_some hg
        rw [((hwrite merged).map measure).sum_eq, (hrest.map measure).sum_eq, List.map_cons,
          List.map_cons, List.sum_cons, List.sum_cons, hmerged.2]
        exact add_right_comm _ _ _

/-- Insertions add their records' measures, under each key and over the table. -/
theorem insertAll_held {P : ρ → Prop} (hadd : M.Additive measure P) {t t' : Table κ ρ}
    {rs : List ρ} (hk : M.Keyed t) (ht : ∀ k e, t.get k = some e → P e) (hrs : ∀ r ∈ rs, P r)
    (h : M.insertAll t rs = .ok t') :
    (∀ k, held measure t' k = held measure t k + M.total measure rs k) ∧
      (t'.values.map measure).sum = (t.values.map measure).sum + (rs.map measure).sum := by
  induction rs generalizing t with
  | nil =>
      cases h
      exact ⟨fun k => (add_zero _).symm, (add_zero _).symm⟩
  | cons r rs ih =>
      rw [insertAll_cons_ok_iff] at h
      obtain ⟨next, hnext, hrest⟩ := h
      have hr : P r := hrs r List.mem_cons_self
      obtain ⟨hP, hheld, hsum⟩ := insert_held hadd hk ht hr hnext
      obtain ⟨hall, hvalues⟩ := ih (insert_ok hk hnext).1 hP
        (fun r' hr' => hrs r' (List.mem_cons_of_mem r hr')) hrest
      refine ⟨fun k => ?_, ?_⟩
      · rw [hall, hheld, total_cons, add_assoc]
      · rw [hvalues, hsum, List.map_cons, List.sum_cons, add_assoc]

/-- The values of a keyed table amount to what it holds. -/
theorem total_values {t : Table κ ρ} (hk : M.Keyed t) (k : κ) :
    M.total measure t.values k = held measure t k := by
  have key : ∀ entries : List (κ × ρ), (entries.map Prod.fst).Nodup →
      (∀ entry ∈ entries, M.key entry.2 = entry.1) →
        M.total measure (entries.map Prod.snd) k = ((entries.lookup k).map measure).getD 0 := by
    intro entries hnodup hkeys
    induction entries with
    | nil => rfl
    | cons entry entries ih =>
        obtain ⟨a, r⟩ := entry
        rw [List.map_cons, List.nodup_cons] at hnodup
        have hrest := ih hnodup.2 fun entry hmem => hkeys entry (List.mem_cons_of_mem _ hmem)
        have hr : M.key r = a := hkeys (a, r) List.mem_cons_self
        rw [List.map_cons, total_cons, hrest, List.lookup_cons, hr]
        by_cases ha : a = k
        · subst ha
          have hnone : entries.lookup a = none := by
            rw [List.lookup_eq_none_iff]
            intro p hp
            have hne : a ≠ p.1 := fun heq => hnodup.1 (List.mem_map.mpr ⟨p, hp, heq.symm⟩)
            simpa using hne
          simp [hnone]
        · have hne : ¬ k = a := fun heq => ha heq.symm
          simp [ha, beq_eq_false_iff_ne.mpr hne]
  apply key t.entries t.nodup
  intro entry hmem
  exact hk entry.1 entry.2 ((Table.get_eq_some_iff ..).mpr hmem)

/-! ## Origins -/

variable {ι : Type*} {f : ρ → ι}

/-- What merges keep of the left record is that of the first record of the key. -/
theorem insertAll_origin (hf : ∀ a b c, M.merge a b = .ok c → f c = f a) {t t' : Table κ ρ}
    {rs : List ρ} (h : M.insertAll t rs = .ok t') (k : κ) :
    (t'.get k).map f = ((t.get k).or (rs.find? fun r => decide (M.key r = k))).map f := by
  induction rs generalizing t with
  | nil =>
      cases h
      simp
  | cons r rs ih =>
      rw [insertAll_cons_ok_iff] at h
      obtain ⟨next, hnext, hrest⟩ := h
      rw [ih hrest, List.find?_cons]
      unfold insert at hnext
      cases hg : t.get (M.key r) with
      | none =>
          rw [hg] at hnext
          cases hnext
          rw [Table.get_put]
          by_cases hkey : k = M.key r
          · subst hkey
            simp [hg]
          · simp [hkey, Ne.symm hkey]
      | some e =>
          simp only [hg, bind_eq_ok_iff] at hnext
          obtain ⟨merged, hm, hput⟩ := hnext
          cases hput
          rw [Table.get_put]
          by_cases hkey : k = M.key r
          · subst hkey
            simp [hg, hf e r merged hm]
          · simp [hkey, Ne.symm hkey]

end GuardedMerge
end Wardx.Lib
