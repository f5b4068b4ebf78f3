import Mathlib.Data.Prod.Lex
import Mathlib.Algebra.Group.Prod
import Mathlib.Algebra.Group.Pi.Basic
import Wardx.Aggregation.HistoryBucket
import Wardx.Lib.MergeTotals

/-!
# What merged rows add up to

Each kind of row has an amount, and a merge of two rows has the sum of theirs:
counts and sums add, extremes, last samples and ranks join. A normal row is its
shape, its identity and its amount. So merging rows in any order, and merging
merged rows, gives the same row for each series whose rows share an identity.
-/
namespace Wardx.HistoryBucket

open Lib HyperLogLog

/-! ## Amounts -/

def least (value : ℚ) : Joined (WithBot ℚᵒᵈ) := ⟨(OrderDual.toDual value : ℚᵒᵈ)⟩

def greatest (value : ℚ) : Joined (WithBot ℚ) := ⟨value⟩

/-- Samples in the order of their times, then of their values. -/
def latest (timestamp value : ℚ) : Joined (WithBot (ℚ ×ₗ ℚ)) := ⟨(toLex (timestamp, value) : ℚ ×ₗ ℚ)⟩

def countsAt (buckets : List (ℚ × ℕ)) (i : ℕ) : ℕ := (buckets.map Prod.snd).getD i 0

def ranksAt (registers : Registers) (i : ℕ) : Joined ℕ := ⟨registers.ranks.getD i 0⟩

/-- The sum, the count, the extremes, the last sample, the counts of the buckets
and the ranks. -/
abbrev Amount := ℚ × ℕ × Joined (WithBot ℚᵒᵈ) × Joined (WithBot ℚ) ×
  Joined (WithBot (ℚ ×ₗ ℚ)) × (ℕ → ℕ) × (ℕ → Joined ℕ)

def RowBody.amount : RowBody → Amount
  | .counter value => (value, 0, 0, 0, 0, 0, 0)
  | .event count => (0, count, 0, 0, 0, 0, 0)
  | .log _ count => (0, count, 0, 0, 0, 0, 0)
  | .drop count => (0, count, 0, 0, 0, 0, 0)
  | .gauge g => (0, g.sampleCount, least g.min, greatest g.max,
      latest g.lastTimestamp g.lastValue, 0, 0)
  | .histogram h => (h.sum, h.count, least h.min, greatest h.max, 0, countsAt h.buckets, 0)
  | .distinct d => (0, 0, 0, 0, 0, 0, ranksAt d.registers)

def HistoricalRow.amount (row : HistoricalRow) : Amount := row.body.amount

theorem least_min (a b : ℚ) : least (min a b) = least a + least b := by
  ext
  show ((OrderDual.toDual (min a b) : ℚᵒᵈ) : WithBot ℚᵒᵈ) = _
  rw [toDual_min, WithBot.coe_sup]
  rfl

theorem greatest_max (a b : ℚ) : greatest (max a b) = greatest a + greatest b := by
  ext
  show ((max a b : ℚ) : WithBot ℚ) = _
  rw [WithBot.coe_sup]
  rfl

theorem latest_mergeGauge (a b : Gauge) :
    latest (mergeGauge a b).lastTimestamp (mergeGauge a b).lastValue =
      latest a.lastTimestamp a.lastValue + latest b.lastTimestamp b.lastValue := by
  have hlt : ∀ s t x y : ℚ, (toLex (s, x) : ℚ ×ₗ ℚ) < toLex (t, y) ↔ t > s ∨ (t = s ∧ y > x) := by
    intro s t x y
    rw [Prod.Lex.toLex_lt_toLex]
    exact or_congr Iff.rfl (and_congr_left' eq_comm)
  have hcoe : ∀ x y : ℚ ×ₗ ℚ, (x : WithBot (ℚ ×ₗ ℚ)) ⊔ y = ((x ⊔ y : ℚ ×ₗ ℚ) : WithBot (ℚ ×ₗ ℚ)) :=
    fun x y => (WithBot.coe_sup x y).symm
  have hjoin : latest a.lastTimestamp a.lastValue + latest b.lastTimestamp b.lastValue =
      ⟨((toLex (a.lastTimestamp, a.lastValue) ⊔ toLex (b.lastTimestamp, b.lastValue) : ℚ ×ₗ ℚ) :
        WithBot (ℚ ×ₗ ℚ))⟩ := Joined.ext (hcoe _ _)
  rw [hjoin]
  unfold mergeGauge
  dsimp only
  by_cases hlater : b.lastTimestamp > a.lastTimestamp ∨
      (b.lastTimestamp = a.lastTimestamp ∧ b.lastValue > a.lastValue)
  · rw [if_pos hlater, if_pos hlater, sup_eq_right.mpr (le_of_lt ((hlt ..).mpr hlater))]
    rfl
  · have hle := not_lt.mp fun h => hlater ((hlt ..).mp h)
    rw [if_neg hlater, if_neg hlater, sup_eq_left.mpr hle]
    rfl

theorem getD_zipWith_add (xs ys : List ℕ) (h : xs.length = ys.length) (i : ℕ) :
    (List.zipWith (· + ·) xs ys).getD i 0 = xs.getD i 0 + ys.getD i 0 := by
  induction xs generalizing ys i with
  | nil =>
      cases ys with
      | nil => simp
      | cons y ys => simp at h
  | cons x xs ih =>
      cases ys with
      | nil => simp at h
      | cons y ys =>
          cases i with
          | zero => simp
          | succ i => simpa using ih ys (by simpa using h) i

theorem countsAt_addCounts {a b : List (ℚ × ℕ)} (h : a.length = b.length) :
    countsAt (addCounts a b) = countsAt a + countsAt b := by
  funext i
  have hcounts : (addCounts a b).map Prod.snd =
      List.zipWith (· + ·) (a.map Prod.snd) (b.map Prod.snd) := by
    unfold addCounts
    rw [List.map_zipWith, List.zipWith_map]
  show ((addCounts a b).map Prod.snd).getD i 0 = _
  rw [hcounts, getD_zipWith_add _ _ (by simpa using h)]
  rfl

theorem getD_zipWith_max (xs ys : List ℕ) (h : xs.length = ys.length) (i : ℕ) :
    (List.zipWith max xs ys).getD i 0 = max (xs.getD i 0) (ys.getD i 0) := by
  induction xs generalizing ys i with
  | nil =>
      cases ys with
      | nil => simp
      | cons y ys => simp at h
  | cons x xs ih =>
      cases ys with
      | nil => simp at h
      | cons y ys =>
          cases i with
          | zero => simp
          | succ i => simpa using ih ys (by simpa using h) i

theorem ranksAt_merge (a b : Registers) :
    ranksAt (mergeHllBodies a b) = ranksAt a + ranksAt b := by
  funext i
  apply Joined.ext
  exact getD_zipWith_max a.ranks b.ranks (a.length_eq.trans b.length_eq.symm) i

theorem length_eq_of_compatible {a b : List (ℚ × ℕ)} (h : compatibleBounds a b = true) :
    a.length = b.length := by
  have hbounds : boundsOf a = boundsOf b := by simpa [compatibleBounds] using h
  simpa [boundsOf] using congrArg List.length hbounds

/-- A merge amounts to the sum. -/
theorem amount_mergeBody {js : Js} {name : String} {a b c : RowBody} (hkind : a.kind = b.kind)
    (h : mergeBody js name a b = .ok c) : c.amount = a.amount + b.amount := by
  cases a <;> cases b <;> try cases hkind
  case gauge.gauge.refl a b =>
    cases h
    have hlast := latest_mergeGauge a b
    have hmin := least_min a.min b.min
    have hmax := greatest_max a.max b.max
    simp only [RowBody.amount, Prod.mk_add_mk, add_zero, Prod.mk.injEq, true_and, and_true]
    exact ⟨rfl, hmin, hmax, hlast⟩
  case histogram.histogram.refl a b =>
    simp only [mergeBody] at h
    split_ifs at h with hbounds
    cases h
    have hcounts := countsAt_addCounts (length_eq_of_compatible hbounds)
    have hmin := least_min a.min b.min
    have hmax := greatest_max a.max b.max
    simp only [RowBody.amount, Prod.mk_add_mk, add_zero, Prod.mk.injEq, true_and, and_true]
    exact ⟨rfl, rfl, hmin, hmax, hcounts⟩
  case distinct.distinct.refl a b =>
    cases h
    have hranks := ranksAt_merge a.registers b.registers
    simp only [RowBody.amount, Prod.mk_add_mk, add_zero, Prod.mk.injEq, true_and]
    exact hranks
  all_goals
    cases h
    simp [RowBody.amount]

/-! ## A row by its amount -/

theorem least_injective {a b : ℚ} (h : least a = least b) : a = b := by
  have hvalue := congrArg Joined.value h
  exact OrderDual.toDual.injective (WithBot.coe_injective hvalue)

theorem greatest_injective {a b : ℚ} (h : greatest a = greatest b) : a = b :=
  WithBot.coe_injective (congrArg Joined.value h)

theorem latest_injective {s t x y : ℚ} (h : latest s x = latest t y) : s = t ∧ x = y := by
  have hvalue := toLex.injective (WithBot.coe_injective (congrArg Joined.value h))
  exact Prod.mk.inj hvalue

theorem ext_getD {xs ys : List ℕ} (hlength : xs.length = ys.length)
    (h : ∀ i, xs.getD i 0 = ys.getD i 0) : xs = ys := by
  apply List.ext_getElem hlength
  intro i hx hy
  have hi := h i
  simpa [List.getD_eq_getElem?_getD, hx, hy] using hi

theorem buckets_eq {a b : List (ℚ × ℕ)} (hbounds : boundsOf a = boundsOf b)
    (hcounts : countsAt a = countsAt b) : a = b := by
  have hlength : a.length = b.length := by simpa [boundsOf] using congrArg List.length hbounds
  have hsnd : a.map Prod.snd = b.map Prod.snd :=
    ext_getD (by simpa using hlength) fun i => congrFun hcounts i
  have ha := List.zip_unzip a
  have hb := List.zip_unzip b
  rw [List.unzip_eq_map] at ha hb
  have hfst : a.map Prod.fst = b.map Prod.fst := hbounds
  rw [← ha, ← hb]
  dsimp only
  rw [hfst, hsnd]

theorem ranksAt_injective {a b : Registers} (h : ranksAt a = ranksAt b) : a = b := by
  apply Registers.ext
  apply ext_getD (a.length_eq.trans b.length_eq.symm)
  intro i
  exact congrArg Joined.value (congrFun h i)

theorem kind_eq_of_shape_eq {a b : RowBody} (h : a.shape = b.shape) : a.kind = b.kind := by
  have hfst : ∀ body : RowBody, body.shape.1 = body.kind := fun body => by cases body <;> rfl
  rw [← hfst, ← hfst, h]

/-- A normal body is its shape, its level and its amount. -/
theorem body_eq_of_amount {js : Js} {a b : RowBody} (hshape : a.shape = b.shape)
    (hlevel : a.level = b.level) (ha : normalizedBody js a = a) (hb : normalizedBody js b = b)
    (hamount : a.amount = b.amount) : a = b := by
  have hkind := kind_eq_of_shape_eq hshape
  cases a <;> cases b <;> try cases hkind
  case counter.counter.refl a b =>
    simp only [RowBody.amount, Prod.mk.injEq, and_true] at hamount
    rw [hamount]
  case event.event.refl a b =>
    simp only [RowBody.amount, Prod.mk.injEq, true_and, and_true] at hamount
    rw [hamount]
  case log.log.refl k a l b =>
    simp only [RowBody.amount, Prod.mk.injEq, true_and, and_true] at hamount
    rw [hamount, Option.some.inj hlevel]
  case drop.drop.refl a b =>
    simp only [RowBody.amount, Prod.mk.injEq, true_and, and_true] at hamount
    rw [hamount]
  case gauge.gauge.refl a b =>
    simp only [RowBody.amount, Prod.mk.injEq, true_and, and_true] at hamount
    obtain ⟨hcount, hmin, hmax, hlast⟩ := hamount
    obtain ⟨htime, hvalue⟩ := latest_injective hlast
    have hmin := least_injective hmin
    have hmax := greatest_injective hmax
    cases a
    cases b
    simp_all
  case histogram.histogram.refl a b =>
    simp only [RowBody.amount, Prod.mk.injEq, true_and, and_true] at hamount
    obtain ⟨hsum, hcount, hmin, hmax, hcounts⟩ := hamount
    have hbuckets := buckets_eq (congrArg Prod.snd hshape) hcounts
    have hmin := least_injective hmin
    have hmax := greatest_injective hmax
    cases a
    cases b
    simp_all
  case distinct.distinct.refl a b =>
    simp only [RowBody.amount, Prod.mk.injEq, true_and] at hamount
    have hregisters := ranksAt_injective hamount
    rw [← ha, ← hb]
    show RowBody.distinct ⟨a.registers, _⟩ = RowBody.distinct ⟨b.registers, _⟩
    rw [hregisters]

/-! ## Identities -/

/-- The fields that say which series a row belongs to. -/
structure Identity where
  name : String
  role : String
  environment : String
  appVersion : String
  dimensions : Dimensions
  os : Option String
  level : Option LogLevel
deriving DecidableEq, Repr

def identity (row : HistoricalRow) : Identity :=
  ⟨row.name, row.role, row.environment, row.appVersion, row.dimensions, row.os, row.body.level⟩

theorem identity_mergeRow {js : Js} {a b c : HistoricalRow} (h : mergeRow js a b = .ok c) :
    identity c = identity a := by
  obtain ⟨body, hbody, rfl⟩ := mergeRow_ok_iff.mp h
  unfold identity
  rw [(mergeBody_ok hbody).2.1]

theorem amount_additive (js : Js) :
    (seriesMerge js).Additive HistoricalRow.amount fun row => normalizedBody js row.body = row.body := by
  intro a b c ha _ hkey h
  obtain ⟨body, hbody, rfl⟩ := mergeRow_ok_iff.mp h
  exact ⟨normalizedBody_mergeBody ha hbody, amount_mergeBody (kind_eq_of_key_eq hkey) hbody⟩

theorem row_eq {js : Js} {a b : HistoricalRow} (hshape : a.shape = b.shape)
    (hidentity : identity a = identity b) (ha : normalizedBody js a.body = a.body)
    (hb : normalizedBody js b.body = b.body) (hamount : a.amount = b.amount) : a = b := by
  have hlevel : a.body.level = b.body.level := congrArg Identity.level hidentity
  have hbody := body_eq_of_amount hshape hlevel ha hb hamount
  cases a
  cases b
  simp only [identity, Identity.mk.injEq] at hidentity
  simp_all

/-- Rows under one key are of one series. -/
def OneSeriesAKey (js : Js) (rows : List HistoricalRow) : Prop :=
  ∀ a ∈ rows, ∀ b ∈ rows, historicalSeriesKey js a = historicalSeriesKey js b →
    identity a = identity b

/-! ## Merged tables -/

/-- A table holds the merge of rows: under each key their shape, their amount
and the identity of one of them. -/
structure Merges (js : Js) (rows : List HistoricalRow) (t : Table String HistoricalRow) : Prop where
  keyed : (seriesMerge js).Keyed t
  signed : ∀ s, (seriesMerge js).Signed t s ↔ s ∈ rows.map (seriesMerge js).signature
  amount : ∀ k, GuardedMerge.held HistoricalRow.amount t k =
    (seriesMerge js).total HistoricalRow.amount rows k
  origin : ∀ k r, t.get k = some r →
    ∃ row ∈ rows, historicalSeriesKey js row = k ∧ identity row = identity r
  fixed : ∀ k r, t.get k = some r → normalizedBody js r.body = r.body

theorem merges_insertAll {js : Js} {rows : List HistoricalRow} {t : Table String HistoricalRow}
    (hrows : ∀ row ∈ rows, normalizedBody js row.body = row.body)
    (h : (seriesMerge js).insertAll Table.empty rows = .ok t) : Merges js rows t := by
  have hempty := GuardedMerge.keyed_empty (seriesMerge js)
  obtain ⟨hkeyed, hsigned⟩ := GuardedMerge.insertAll_ok hempty h
  have hadd := amount_additive js
  refine ⟨hkeyed, fun s => ?_, fun k => ?_, fun k r hget => ?_, ?_⟩
  · rw [hsigned]
    simp [GuardedMerge.Signed]
  · rw [(GuardedMerge.insertAll_held hadd hempty (by simp) hrows h).1 k]
    exact zero_add _
  · have horigin := GuardedMerge.insertAll_origin (f := identity) (M := seriesMerge js)
      (fun a b c hc => identity_mergeRow hc) h k
    rw [hget, Table.get_empty, Option.none_or] at horigin
    obtain ⟨row, hfind, hidentity⟩ := Option.map_eq_some_iff.mp horigin.symm
    have hkey := List.find?_some hfind
    exact ⟨row, List.mem_of_find?_eq_some hfind, of_decide_eq_true hkey, hidentity⟩
  · exact GuardedMerge.insertAll_forall
      (fun a b c ha _ hc => by
        obtain ⟨body, hbody, rfl⟩ := mergeRow_ok_iff.mp hc
        exact normalizedBody_mergeBody ha hbody) (by simp) hrows h

theorem Merges.perm {js : Js} {rows rows' : List HistoricalRow} {t : Table String HistoricalRow}
    (h : Merges js rows t) (hperm : rows.Perm rows') : Merges js rows' t where
  keyed := h.keyed
  signed s := by rw [h.signed, (hperm.map _).mem_iff]
  amount k := by rw [h.amount, GuardedMerge.total_perm _ _ hperm]
  origin k r hget := by
    obtain ⟨row, hrow, hfound⟩ := h.origin k r hget
    exact ⟨row, hperm.mem_iff.mp hrow, hfound⟩
  fixed := h.fixed

/-- The table under a key has a row exactly when some row has the key. -/
theorem Merges.get_eq_none_iff {js : Js} {rows : List HistoricalRow}
    {t : Table String HistoricalRow} (h : Merges js rows t) (k : String) :
    t.get k = none ↔ ∀ row ∈ rows, historicalSeriesKey js row ≠ k := by
  constructor
  · intro hnone row hrow hkey
    obtain ⟨r, hget, -⟩ := (h.signed (k, row.shape)).mpr (List.mem_map.mpr ⟨row, hrow, by
      rw [← hkey]; rfl⟩)
    rw [hnone] at hget
    cases hget
  · intro hrows
    cases hget : t.get k with
    | none => rfl
    | some r =>
        obtain ⟨row, hrow, hkey, -⟩ := h.origin k r hget
        exact absurd hkey (hrows row hrow)

/-- Two merges of the same rows hold the same under a key where their identities agree. -/
theorem Merges.get_eq_of_identity {js : Js} {rows : List HistoricalRow}
    {t u : Table String HistoricalRow} (ht : Merges js rows t) (hu : Merges js rows u) {k : String}
    (hidentity : ∀ r q, t.get k = some r → u.get k = some q → identity r = identity q) :
    t.get k = u.get k := by
  cases hr : t.get k with
  | none => exact ((hu.get_eq_none_iff k).mpr ((ht.get_eq_none_iff k).mp hr)).symm
  | some r =>
      cases hq : u.get k with
      | none =>
          have hnone := (ht.get_eq_none_iff k).mpr ((hu.get_eq_none_iff k).mp hq)
          rw [hr] at hnone
          cases hnone
      | some q =>
          have hshape : r.shape = q.shape := by
            obtain ⟨q', hq', hsame⟩ := (hu.signed (k, r.shape)).mpr
              ((ht.signed (k, r.shape)).mp ⟨r, hr, rfl⟩)
            have hqq : some q = some q' := hq.symm.trans hq'
            rw [Option.some.inj hqq]
            exact hsame.symm
          have hamount : r.amount = q.amount := by
            have hsum := (ht.amount k).trans (hu.amount k).symm
            unfold GuardedMerge.held at hsum
            rw [hr, hq] at hsum
            exact hsum
          rw [row_eq hshape (hidentity r q hr hq) (ht.fixed k r hr) (hu.fixed k q hq) hamount]

/-- Two merges of the same rows hold the same, when each key is of one series. -/
theorem Merges.get_eq {js : Js} {rows : List HistoricalRow} {t u : Table String HistoricalRow}
    (ht : Merges js rows t) (hu : Merges js rows u) (hone : OneSeriesAKey js rows) (k : String) :
    t.get k = u.get k := by
  apply ht.get_eq_of_identity hu
  intro r q hr hq
  obtain ⟨a, ha, hka, hia⟩ := ht.origin k r hr
  obtain ⟨b, hb, hkb, hib⟩ := hu.origin k q hq
  rw [← hia, ← hib]
  exact hone a ha b hb (hka.trans hkb.symm)

/-- A merge of merges is the merge of all their rows. -/
theorem Merges.flatMap {ι : Type} {js : Js} {parts : List ι} {rows : ι → List HistoricalRow}
    {t : ι → Table String HistoricalRow} {u : Table String HistoricalRow}
    (hparts : ∀ part ∈ parts, Merges js (rows part) (t part))
    (hu : Merges js (parts.flatMap fun part => (t part).values) u) :
    Merges js (parts.flatMap rows) u := by
  have htotal : ∀ k (parts : List ι), (∀ part ∈ parts, Merges js (rows part) (t part)) →
      (seriesMerge js).total HistoricalRow.amount (parts.flatMap fun part => (t part).values) k =
        (seriesMerge js).total HistoricalRow.amount (parts.flatMap rows) k := by
    intro k parts hparts
    induction parts with
    | nil => rfl
    | cons part rest ih =>
        have hpart := hparts part List.mem_cons_self
        rw [List.flatMap_cons, List.flatMap_cons, GuardedMerge.total_append,
          GuardedMerge.total_append, ih fun p hp => hparts p (List.mem_cons_of_mem _ hp),
          GuardedMerge.total_values hpart.keyed, hpart.amount]
  have hsigned : ∀ s, s ∈ (parts.flatMap fun part => (t part).values).map
        (seriesMerge js).signature ↔ s ∈ (parts.flatMap rows).map (seriesMerge js).signature := by
    intro s
    have hpart : ∀ part ∈ parts, (s ∈ (t part).values.map (seriesMerge js).signature ↔
        s ∈ (rows part).map (seriesMerge js).signature) := by
      intro part hmem
      rw [GuardedMerge.mem_values_signature (hparts part hmem).keyed, (hparts part hmem).signed]
    rw [List.map_flatMap, List.map_flatMap, List.mem_flatMap, List.mem_flatMap]
    exact exists_congr fun part => and_congr_right fun hmem => hpart part hmem
  refine ⟨hu.keyed, fun s => (hu.signed s).trans (hsigned s), fun k => ?_, fun k r hget => ?_,
    hu.fixed⟩
  · rw [hu.amount, htotal k parts hparts]
  · obtain ⟨value, hvalue, hkey, hidentity⟩ := hu.origin k r hget
    obtain ⟨part, hpart, hmem⟩ := List.mem_flatMap.mp hvalue
    obtain ⟨⟨key, held⟩, hentry, rfl⟩ := List.mem_map.mp hmem
    have hheld := (Table.get_eq_some_iff ..).mpr hentry
    obtain ⟨row, hrow, hrowKey, hrowIdentity⟩ := (hparts part hpart).origin key held hheld
    have hkeyed : historicalSeriesKey js held = key := (hparts part hpart).keyed key held hheld
    refine ⟨row, List.mem_flatMap.mpr ⟨part, hpart, hrow⟩, ?_, hrowIdentity.trans hidentity⟩
    exact hrowKey.trans (hkeyed.symm.trans hkey)

end Wardx.HistoryBucket
