import Wardx.Lib.Check
import Wardx.Lib.Table

/-!
# Merging keyed records under a guard

Records carry a key and a shape. Two records of one key merge exactly when
their shapes are equal, and the result keeps the key and the shape of the left
one. Inserting a list of records into a table then succeeds exactly when no key
is seen with two shapes, whatever the order, and the table ends up with the
pairs of key and shape it started with and those of the list: its signatures.
-/
namespace Wardx.Lib

universe u v w

/-- No key occurs with two shapes. -/
def Agree {κ : Type u} {σ : Type v} (P : κ × σ → Prop) : Prop :=
  ∀ k s s', P (k, s) → P (k, s') → s = s'

theorem agree_congr {κ : Type u} {σ : Type v} {P Q : κ × σ → Prop} (h : ∀ s, P s ↔ Q s) :
    Agree P ↔ Agree Q := by
  unfold Agree
  simp only [h]

/-- A partial merge guarded by equality of shapes. -/
structure GuardedMerge (ρ κ : Type u) (σ : Type v) (ε : Type w) where
  key : ρ → κ
  shape : ρ → σ
  merge : ρ → ρ → Except ε ρ
  merge_ok_iff : ∀ {a b}, key a = key b → ((∃ c, merge a b = .ok c) ↔ shape a = shape b)
  key_merge : ∀ {a b c}, key a = key b → merge a b = .ok c → key c = key a
  shape_merge : ∀ {a b c}, key a = key b → merge a b = .ok c → shape c = shape a

namespace GuardedMerge

variable {ρ κ : Type u} {σ : Type v} {ε : Type w} [DecidableEq κ]
variable (M : GuardedMerge ρ κ σ ε)

/-- Add one record to the table, merging it into the record of its key. -/
def insert (t : Table κ ρ) (r : ρ) : Except ε (Table κ ρ) :=
  match t.get (M.key r) with
  | none => .ok (t.put (M.key r) r)
  | some e => do
      let merged ← M.merge e r
      pure (t.put (M.key r) merged)

/-- Add records one by one; the first failed merge stops. -/
def insertAll (t : Table κ ρ) : List ρ → Except ε (Table κ ρ)
  | [] => .ok t
  | r :: rs => do
      let next ← M.insert t r
      insertAll next rs

/-- Every record stands under its own key. -/
def Keyed (t : Table κ ρ) : Prop := ∀ k r, t.get k = some r → M.key r = k

/-- What the guard sees of a record. -/
def signature (r : ρ) : κ × σ := (M.key r, M.shape r)

/-- The signatures in a table. -/
def Signed (t : Table κ ρ) (s : κ × σ) : Prop := ∃ r, t.get s.1 = some r ∧ M.shape r = s.2

theorem keyed_empty : M.Keyed Table.empty := by
  intro k r h
  simp at h

theorem agree_signed (t : Table κ ρ) : Agree (M.Signed t) := by
  rintro k s s' ⟨r, hr, rfl⟩ ⟨r', hr', rfl⟩
  have h : some r = some r' := hr.symm.trans hr'
  rw [Option.some.inj h]

variable {M}

theorem Keyed.put {t : Table κ ρ} (h : M.Keyed t) {k : κ} {r : ρ} (hr : M.key r = k) :
    M.Keyed (t.put k r) := by
  intro k' r' hget
  rw [Table.get_put] at hget
  split_ifs at hget with hk
  · rw [← Option.some.inj hget, hr, hk]
  · exact h k' r' hget

theorem signed_put {t : Table κ ρ} {k : κ} {r : ρ} (hr : ∀ e, t.get k = some e →
    M.shape e = M.shape r) (s : κ × σ) :
    M.Signed (t.put k r) s ↔ M.Signed t s ∨ s = (k, M.shape r) := by
  obtain ⟨k', s'⟩ := s
  unfold Signed
  simp only [Table.get_put, Prod.mk.injEq]
  by_cases hk : k' = k
  · subst hk
    simp only [if_true, Option.some.injEq, exists_eq_left', true_and]
    constructor
    · intro h
      exact Or.inr h.symm
    · rintro (⟨e, he, hs⟩ | h)
      · rw [← hr e he, hs]
      · exact h.symm
  · simp [hk]

/-- One insertion succeeds exactly when the key's shape agrees, and then adds
the record's signature. -/
theorem insert_ok {t t' : Table κ ρ} (hk : M.Keyed t) {r : ρ} (h : M.insert t r = .ok t') :
    M.Keyed t' ∧ ∀ s, M.Signed t' s ↔ M.Signed t s ∨ s = M.signature r := by
  unfold insert at h
  cases hg : t.get (M.key r) with
  | none =>
      rw [hg] at h
      cases h
      refine ⟨hk.put rfl, signed_put ?_⟩
      intro e he
      rw [hg] at he
      cases he
  | some e =>
      simp only [hg, bind_eq_ok_iff] at h
      obtain ⟨merged, hm, hput⟩ := h
      cases hput
      have hkey : M.key e = M.key r := hk _ _ hg
      have hshape : M.shape e = M.shape r := (M.merge_ok_iff hkey).mp ⟨merged, hm⟩
      have hmkey : M.key merged = M.key r := (M.key_merge hkey hm).trans hkey
      have hmshape : M.shape merged = M.shape r := (M.shape_merge hkey hm).trans hshape
      refine ⟨hk.put hmkey, ?_⟩
      intro s
      rw [signed_put, hmshape]
      · rfl
      · intro e' he'
        rw [hg] at he'
        rw [← Option.some.inj he', hmshape, hshape]

theorem insert_ok_iff {t : Table κ ρ} (hk : M.Keyed t) (r : ρ) :
    (∃ t', M.insert t r = .ok t') ↔ ∀ s, M.Signed t (M.key r, s) → s = M.shape r := by
  unfold insert
  cases hg : t.get (M.key r) with
  | none => simp [Signed, hg]
  | some e =>
      have hkey : M.key e = M.key r := hk _ _ hg
      simp only [bind_eq_ok_iff, Signed, hg, Option.some.injEq, exists_eq_left']
      rw [forall_eq', ← M.merge_ok_iff hkey]
      constructor
      · rintro ⟨t', c, hc, _⟩
        exact ⟨c, hc⟩
      · rintro ⟨c, hc⟩
        exact ⟨_, c, hc, rfl⟩

/-- The table's signatures after a successful list of insertions. -/
theorem insertAll_ok {t t' : Table κ ρ} (hk : M.Keyed t) {rs : List ρ}
    (h : M.insertAll t rs = .ok t') :
    M.Keyed t' ∧ ∀ s, M.Signed t' s ↔ M.Signed t s ∨ s ∈ rs.map M.signature := by
  induction rs generalizing t with
  | nil =>
      cases h
      exact ⟨hk, fun s => by simp⟩
  | cons r rs ih =>
      unfold insertAll at h
      rw [bind_eq_ok_iff] at h
      obtain ⟨next, hnext, hrest⟩ := h
      obtain ⟨hk', hs'⟩ := insert_ok hk hnext
      obtain ⟨hk'', hs''⟩ := ih hk' hrest
      refine ⟨hk'', fun s => ?_⟩
      rw [hs'', hs', List.map_cons, List.mem_cons, or_assoc]

theorem insertAll_cons_ok_iff {t t' : Table κ ρ} {r : ρ} {rs : List ρ} :
    M.insertAll t (r :: rs) = .ok t' ↔
      ∃ next, M.insert t r = .ok next ∧ M.insertAll next rs = .ok t' := by
  rw [insertAll, bind_eq_ok_iff]

theorem insertAll_append_ok_iff {t t' : Table κ ρ} {rs rs' : List ρ} :
    M.insertAll t (rs ++ rs') = .ok t' ↔
      ∃ next, M.insertAll t rs = .ok next ∧ M.insertAll next rs' = .ok t' := by
  induction rs generalizing t with
  | nil => simp [insertAll]
  | cons r rs ih =>
      simp only [List.cons_append, insertAll_cons_ok_iff, ih]
      constructor
      · rintro ⟨first, hfirst, next, hnext, ht'⟩
        exact ⟨next, ⟨first, hfirst, hnext⟩, ht'⟩
      · rintro ⟨next, ⟨first, hfirst, hnext⟩, ht'⟩
        exact ⟨first, hfirst, next, hnext, ht'⟩

/-- A list of insertions succeeds exactly when no key is seen with two shapes. -/
theorem insertAll_ok_iff {t : Table κ ρ} (hk : M.Keyed t) (rs : List ρ) :
    (∃ t', M.insertAll t rs = .ok t') ↔
      Agree fun s => M.Signed t s ∨ s ∈ rs.map M.signature := by
  induction rs generalizing t with
  | nil =>
      constructor
      · intro _ k s s' h h'
        simp only [List.map_nil, List.not_mem_nil, or_false] at h h'
        exact agree_signed M t k s s' h h'
      · intro _
        exact ⟨t, rfl⟩
  | cons r rs ih =>
      -- After inserting the head, the same signatures are in play.
      have hrest : ∀ next, M.insert t r = .ok next →
          ((∃ t', M.insertAll next rs = .ok t') ↔
            Agree fun s => M.Signed t s ∨ s ∈ (r :: rs).map M.signature) := by
        intro next hnext
        obtain ⟨hk', hs'⟩ := insert_ok hk hnext
        rw [ih hk']
        refine agree_congr fun s => ?_
        rw [hs', List.map_cons, List.mem_cons, or_assoc]
      simp only [insertAll_cons_ok_iff]
      constructor
      · rintro ⟨t', next, hnext, ht'⟩
        exact (hrest next hnext).mp ⟨t', ht'⟩
      · intro hagree
        have hins : ∃ next, M.insert t r = .ok next := by
          rw [insert_ok_iff hk]
          intro s hs
          refine hagree (M.key r) s (M.shape r) (Or.inl hs) (Or.inr ?_)
          rw [List.map_cons]
          exact List.mem_cons_self
        obtain ⟨next, hnext⟩ := hins
        obtain ⟨t', ht'⟩ := (hrest next hnext).mpr hagree
        exact ⟨t', next, hnext, ht'⟩

/-- A property that merging keeps holds of every record inserted. -/
theorem insertAll_forall {P : ρ → Prop}
    (hmerge : ∀ a b c, P a → P b → M.merge a b = .ok c → P c) {t t' : Table κ ρ} {rs : List ρ}
    (ht : ∀ k r, t.get k = some r → P r) (hrs : ∀ r ∈ rs, P r)
    (h : M.insertAll t rs = .ok t') : ∀ k r, t'.get k = some r → P r := by
  induction rs generalizing t with
  | nil =>
      cases h
      exact ht
  | cons r rs ih =>
      rw [insertAll_cons_ok_iff] at h
      obtain ⟨next, hnext, hrest⟩ := h
      have hr : P r := hrs r List.mem_cons_self
      refine ih ?_ (fun r' hr' => hrs r' (List.mem_cons_of_mem r hr')) hrest
      intro k r' hget
      unfold insert at hnext
      cases hg : t.get (M.key r) with
      | none =>
          rw [hg] at hnext
          cases hnext
          rw [Table.get_put] at hget
          split_ifs at hget
          · exact Option.some.inj hget ▸ hr
          · exact ht k r' hget
      | some e =>
          simp only [hg, bind_eq_ok_iff] at hnext
          obtain ⟨merged, hm, hput⟩ := hnext
          cases hput
          rw [Table.get_put] at hget
          split_ifs at hget
          · exact Option.some.inj hget ▸ hmerge e r merged (ht _ e hg) hr hm
          · exact ht k r' hget

/-- Listing the values of a keyed table lists its signatures. -/
theorem mem_values_signature {t : Table κ ρ} (hk : M.Keyed t) (s : κ × σ) :
    s ∈ t.values.map M.signature ↔ M.Signed t s := by
  obtain ⟨k, shape⟩ := s
  simp only [Table.values, List.map_map, List.mem_map, Prod.exists, Function.comp_apply,
    ← Table.get_eq_some_iff, signature, Signed, Prod.mk.injEq]
  constructor
  · rintro ⟨k', r, hget, rfl, hshape⟩
    rw [hk k' r hget]
    exact ⟨r, hget, hshape⟩
  · rintro ⟨r, hget, hshape⟩
    exact ⟨k, r, hget, hk k r hget, hshape⟩

/-- Fresh insertions: the list alone decides, and the table holds its signatures. -/
theorem insertAll_empty_ok_iff (rs : List ρ) :
    (∃ t', M.insertAll Table.empty rs = .ok t') ↔ Agree fun s => s ∈ rs.map M.signature := by
  rw [insertAll_ok_iff (keyed_empty M)]
  refine agree_congr fun s => ?_
  simp [Signed]

end GuardedMerge
end Wardx.Lib
