import Mathlib.Algebra.BigOperators.Group.List.Basic
import Mathlib.Data.List.Perm.Basic
import Wardx.Aggregation.FrameOrder

/-!
# Compaction is exact

Merging a day's minutes into hours and the hours into the day gives the rows of
merging the minutes directly, in whatever order the buckets come, as long as the
rows under each key are of one series. Two rows of different series can share a
key: the key joins its fields with a zero byte, which a field may itself hold.
The merged row then has the fields of whichever bucket came first.
-/
namespace Wardx.HistoryCompaction

open Lib HistoryBucket HistoryAccumulator HistoryStore

/-! ## Minutes of a day -/

/-- A minute bucket of a project's day, as the accumulator lists it: its rows
are those of a table, one for each key. -/
structure MinuteOf (js : Js) (project : String) (day : ℤ) (bucket : Bucket) : Prop where
  source : SourceOf js project day (day + Tier.day.width) bucket
  tier : bucket.tier = .minute
  keys : (bucket.rows.map (historicalSeriesKey js)).Nodup

/-- The rows of a bucket by their keys. -/
def rowMap (js : Js) (bucket : Bucket) (key : String) : Option HistoricalRow :=
  bucket.rows.find? fun row => decide (historicalSeriesKey js row = key)

def holds (hour : ℤ) (minute : Bucket) : Bool :=
  decide (hour ≤ minute.bucketFrom) && decide (minute.bucketTo ≤ hour + Tier.hour.width)

section
variable (js : Js) (project : String) (finalized : Bool)

/-- An hour merged from its minutes. -/
def mergeHour (minutes : List Bucket) (hour : ℤ) : Except String Bucket :=
  mergeHistoryBuckets js project .hour hour (hour + Tier.hour.width) (minutes.filter (holds hour))
    finalized

/-- The day merged from its hours. -/
def mergeByHours (day : ℤ) (minutes : List Bucket) (hours : List ℤ) : Except String Bucket := do
  let merged ← mapAll (mergeHour js project finalized minutes) hours
  mergeHistoryBuckets js project .day day (day + Tier.day.width) merged finalized

/-- The day merged from its minutes. -/
def mergeDirectly (day : ℤ) (minutes : List Bucket) : Except String Bucket :=
  mergeHistoryBuckets js project .day day (day + Tier.day.width) minutes finalized

/-- Hours of the day, each once, with every minute in one of them. -/
structure HoursOf (day : ℤ) (minutes : List Bucket) (hours : List ℤ) : Prop where
  nodup : hours.Nodup
  inDay : ∀ hour ∈ hours, ∃ i : ℕ, i < 24 ∧ hour = day + i * 3600000
  cover : ∀ minute ∈ minutes, ∃ hour ∈ hours, holds hour minute = true

/-- Both ways, in every order of the minutes and the hours: the same rows, and
all the drops. -/
def CompactionExact (day : ℤ) (minutes : List Bucket) : Prop :=
  ∃ rows : String → Option HistoricalRow, ∀ minutes' hours, minutes'.Perm minutes →
    HoursOf day minutes hours → ∃ direct byHours,
      mergeDirectly js project finalized day minutes' = .ok direct ∧
      mergeByHours js project finalized day minutes' hours = .ok byHours ∧
      rowMap js direct = rows ∧ rowMap js byHours = rows ∧
      direct.dropCount = (minutes.map Bucket.dropCount).sum ∧
      byHours.dropCount = (minutes.map Bucket.dropCount).sum

end

/-! ## A merge of buckets -/

theorem find_sortRows {js : Js} {t : Table String HistoricalRow} (hkeyed : (seriesMerge js).Keyed t)
    (key : String) :
    (sortRows js t.values).find? (fun row => decide (historicalSeriesKey js row = key)) =
      t.get key := by
  have hmem : ∀ row, row ∈ sortRows js t.values →
      t.get (historicalSeriesKey js row) = some row := by
    intro row hrow
    obtain ⟨⟨k, r⟩, hentry, rfl⟩ := List.mem_map.mp ((sortRows_perm js _).mem_iff.mp hrow)
    have hget := (Table.get_eq_some_iff ..).mpr hentry
    have hkey : historicalSeriesKey js r = k := hkeyed k r hget
    rw [hkey]
    exact hget
  cases hget : t.get key with
  | none =>
      rw [List.find?_eq_none]
      intro row hrow hkey
      rw [← of_decide_eq_true hkey, hmem row hrow] at hget
      cases hget
  | some held =>
      have hheld : held ∈ sortRows js t.values :=
        (sortRows_perm js _).mem_iff.mpr (List.mem_map_of_mem ((Table.get_eq_some_iff ..).mp hget))
      have hkey : historicalSeriesKey js held = key := hkeyed key held hget
      cases hfind : (sortRows js t.values).find?
          (fun row => decide (historicalSeriesKey js row = key)) with
      | none =>
          rw [List.find?_eq_none] at hfind
          exact absurd (decide_eq_true hkey) (hfind held hheld)
      | some found =>
          have hfound := hmem found (List.mem_of_find?_eq_some hfind)
          have hfoundKey := List.find?_some hfind
          rw [of_decide_eq_true hfoundKey, hget] at hfound
          exact hfound.symm

theorem sourceRows_perm (js : Js) (buckets : List Bucket) :
    (sourceRows js buckets).Perm (buckets.flatMap Bucket.rows) :=
  List.Perm.flatMap_left _ fun bucket _ => sortRows_perm js bucket.rows

/-- What a merge of sources with shared bounds gives. -/
structure MergedFrom (js : Js) (project : String) (tier : Tier) (bucketFrom : ℤ)
    (sources : List Bucket) (result : Bucket) (t : Table String HistoricalRow) : Prop where
  source : SourceOf js project bucketFrom (bucketFrom + tier.width) result
  rows : result.rows = sortRows js t.values
  merges : Merges js (sources.flatMap Bucket.rows) t
  first : ∀ key, (t.get key).map identity = ((sourceRows js sources).find? fun row =>
    decide (historicalSeriesKey js row = key)).map identity
  dropCount : result.dropCount = (sources.map Bucket.dropCount).sum

theorem mergeHistoryBuckets_mergedFrom {js : Js} {project : String} {tier : Tier} {bucketFrom : ℤ}
    {sources : List Bucket} (finalized : Bool) (hproject : project ≠ "")
    (haligned : bucketFrom % tier.width = 0)
    (hsources : ∀ bucket ∈ sources, SourceOf js project bucketFrom (bucketFrom + tier.width) bucket)
    (hbounds : SameBounds js (sources.flatMap Bucket.rows)) :
    ∃ result t, mergeHistoryBuckets js project tier bucketFrom (bucketFrom + tier.width) sources
        finalized = .ok result ∧ MergedFrom js project tier bucketFrom sources result t := by
  have hperm := sourceRows_perm js sources
  have hagree : Agree fun s => s ∈ (sourceRows js sources).map (seriesMerge js).signature := by
    apply agree_mono ((agree_iff_sameBounds js _).mpr hbounds)
    intro s hs
    exact (hperm.map _).mem_iff.mp hs
  obtain ⟨t, ht⟩ := (GuardedMerge.insertAll_empty_ok_iff _).mpr hagree
  have hnormal : ∀ row ∈ sourceRows js sources, NormalRow js row := by
    intro row hrow
    obtain ⟨bucket, hbucket, hmem⟩ := mem_sourceRows.mp hrow
    exact (hsources bucket hbucket).wellFormed.rows row hmem
  have hmerges := merges_insertAll
    (fun row hrow => congrArg HistoricalRow.body (hnormal row hrow).fixed) ht
  have hok := (mergeHistoryBuckets_ok_iff finalized hproject haligned hsources _).mpr ⟨t, ht, rfl⟩
  refine ⟨_, t, hok, ⟨⟨hproject, haligned, rfl, ?_⟩, rfl, le_rfl, le_rfl⟩, rfl,
    hmerges.perm hperm, fun key => ?_, rfl⟩
  · intro row hrow
    exact insertAll_normal hnormal ht row ((sortRows_perm js _).mem_iff.mp hrow)
  · have horigin := GuardedMerge.insertAll_origin (f := identity) (M := seriesMerge js)
      (fun a b c hc => identity_mergeRow hc) ht key
    rw [horigin, Table.get_empty, Option.none_or]
    rfl

theorem MergedFrom.rowMap_eq {js : Js} {project : String} {tier : Tier} {bucketFrom : ℤ}
    {sources : List Bucket} {result : Bucket} {t : Table String HistoricalRow}
    (h : MergedFrom js project tier bucketFrom sources result t) (key : String) :
    rowMap js result key = t.get key := by
  unfold rowMap
  rw [h.rows]
  exact find_sortRows h.merges.keyed key

/-! ## The hours of a day -/

theorem sum_map_ite {α : Type} (p : α → Bool) (n : ℕ) (xs : List α) :
    (xs.map fun x => if p x then n else 0).sum = xs.countP p * n := by
  induction xs with
  | nil => simp
  | cons x xs ih =>
      rw [List.map_cons, List.sum_cons, ih, List.countP_cons]
      by_cases hx : p x
      · simp [hx]
        ring
      · simp [hx]

/-- Sorting a list into parts that each of its members has one of keeps it. -/
theorem flatMap_filter_perm {α β : Type} [DecidableEq β] (p : α → β → Bool) {parts : List α}
    {xs : List β} (h : ∀ x ∈ xs, (parts.countP fun part => p part x) = 1) :
    (parts.flatMap fun part => xs.filter (p part)).Perm xs := by
  rw [List.perm_iff_count]
  intro x
  rw [List.count_flatMap]
  have hcount : ∀ part, (xs.filter (p part)).count x = if p part x then xs.count x else 0 := by
    intro part
    by_cases hp : p part x
    · rw [if_pos hp, List.count_filter hp]
    · rw [if_neg hp, List.count_eq_zero]
      intro hmem
      exact hp (List.mem_filter.mp hmem).2
  have hfun : (List.count x ∘ fun part => xs.filter (p part)) =
      fun part => if p part x then xs.count x else 0 := funext hcount
  rw [hfun, sum_map_ite]
  by_cases hx : x ∈ xs
  · rw [h x hx, one_mul]
  · rw [List.count_eq_zero.mpr hx, mul_zero]

theorem HoursOf.countP {js : Js} {project : String} {day : ℤ} {minutes : List Bucket}
    {hours : List ℤ} (h : HoursOf day minutes hours)
    (hminutes : ∀ bucket ∈ minutes, MinuteOf js project day bucket) :
    ∀ minute ∈ minutes, (hours.countP fun hour => holds hour minute) = 1 := by
  intro minute hminute
  obtain ⟨hour, hhour, hholds⟩ := h.cover minute hminute
  have hwidth : minute.bucketTo = minute.bucketFrom + 60000 := by
    have hw := (hminutes minute hminute).source.wellFormed.width
    rw [(hminutes minute hminute).tier] at hw
    exact hw
  -- Two hours of the day that hold one minute are the same.
  have hone : ∀ other ∈ hours, (holds other minute = true ↔ (other == hour) = true) := by
    intro other hother
    rw [beq_iff_eq]
    constructor
    · intro hheld
      obtain ⟨i, -, hi⟩ := h.inDay other hother
      obtain ⟨j, -, hj⟩ := h.inDay hour hhour
      unfold holds at hheld hholds
      rw [Bool.and_eq_true, decide_eq_true_eq, decide_eq_true_eq] at hheld hholds
      simp only [Tier.width] at hheld hholds
      omega
    · intro heq
      rw [heq]
      exact hholds
  rw [List.countP_congr hone]
  exact List.count_eq_one_of_mem h.nodup hhour

/-- All the hours of a day, whatever its minutes. -/
theorem hoursOf_all {js : Js} {project : String} {day : ℤ} {minutes : List Bucket}
    (hday : day % Tier.day.width = 0)
    (hminutes : ∀ bucket ∈ minutes, MinuteOf js project day bucket) :
    HoursOf day minutes ((List.range 24).map fun i : ℕ => day + i * 3600000) where
  nodup := by
    apply List.Nodup.map _ List.nodup_range
    intro i j hij
    dsimp only at hij
    omega
  inDay hour hhour := by
    obtain ⟨i, hi, rfl⟩ := List.mem_map.mp hhour
    exact ⟨i, List.mem_range.mp hi, rfl⟩
  cover minute hminute := by
    have hm := hminutes minute hminute
    have hwidth := hm.source.wellFormed.width
    have haligned := hm.source.wellFormed.aligned
    have hlo := hm.source.fromLe
    have hhi := hm.source.toLe
    rw [hm.tier] at hwidth haligned
    simp only [Tier.width] at hwidth haligned hhi hday
    rw [hwidth] at hhi
    obtain ⟨i, hi, hfrom, hto⟩ := hour_of_minute hday haligned hlo hhi
    refine ⟨day + i * 3600000, List.mem_map.mpr ⟨i, List.mem_range.mpr hi, rfl⟩, ?_⟩
    unfold holds
    rw [Bool.and_eq_true, decide_eq_true_eq, decide_eq_true_eq, hwidth]
    exact ⟨hfrom, hto⟩

/-! ## Both ways -/

section
variable {js : Js} {project : String} {day : ℤ} {minutes : List Bucket}

theorem sameBounds_mono {rows rows' : List HistoricalRow} (h : SameBounds js rows)
    (hsub : ∀ row ∈ rows', row ∈ rows) : SameBounds js rows' :=
  fun a ha b hb => h a (hsub a ha) b (hsub b hb)

theorem mergeDirectly_mergedFrom (finalized : Bool) (hproject : project ≠ "")
    (hday : day % Tier.day.width = 0)
    (hminutes : ∀ bucket ∈ minutes, MinuteOf js project day bucket)
    (hbounds : SameBounds js (minutes.flatMap Bucket.rows)) :
    ∃ direct t, mergeDirectly js project finalized day minutes = .ok direct ∧
      MergedFrom js project .day day minutes direct t :=
  mergeHistoryBuckets_mergedFrom finalized hproject hday
    (fun bucket hbucket => (hminutes bucket hbucket).source) hbounds

theorem mergeHour_mergedFrom (finalized : Bool) (hproject : project ≠ "")
    (hday : day % Tier.day.width = 0)
    (hminutes : ∀ bucket ∈ minutes, MinuteOf js project day bucket)
    (hbounds : SameBounds js (minutes.flatMap Bucket.rows)) {hour : ℤ} {i : ℕ}
    (hhour : hour = day + i * 3600000) :
    ∃ result t, mergeHour js project finalized minutes hour = .ok result ∧
      MergedFrom js project .hour hour (minutes.filter (holds hour)) result t := by
  apply mergeHistoryBuckets_mergedFrom finalized hproject
  · simp only [Tier.width] at hday ⊢
    omega
  · intro bucket hbucket
    obtain ⟨hmem, hholds⟩ := List.mem_filter.mp hbucket
    have hsource := (hminutes bucket hmem).source
    unfold holds at hholds
    rw [Bool.and_eq_true, decide_eq_true_eq, decide_eq_true_eq] at hholds
    exact ⟨hsource.wellFormed, hsource.project, hholds.1, hholds.2⟩
  · apply sameBounds_mono hbounds
    intro row hrow
    obtain ⟨bucket, hbucket, hmem⟩ := List.mem_flatMap.mp hrow
    exact List.mem_flatMap.mpr ⟨bucket, List.mem_of_mem_filter hbucket, hmem⟩

/-- The day merged by hours holds the merge of all the minutes' rows. -/
theorem mergeByHours_merges (finalized : Bool) (hproject : project ≠ "")
    (hday : day % Tier.day.width = 0)
    (hminutes : ∀ bucket ∈ minutes, MinuteOf js project day bucket)
    (hbounds : SameBounds js (minutes.flatMap Bucket.rows)) {hours : List ℤ}
    (hhours : HoursOf day minutes hours) :
    ∃ byHours t, mergeByHours js project finalized day minutes hours = .ok byHours ∧
      (∀ key, rowMap js byHours key = t.get key) ∧ Merges js (minutes.flatMap Bucket.rows) t ∧
        byHours.dropCount = (minutes.map Bucket.dropCount).sum := by
  have hhour : ∀ hour ∈ hours, ∃ result t, mergeHour js project finalized minutes hour = .ok result ∧
      MergedFrom js project .hour hour (minutes.filter (holds hour)) result t := by
    intro hour hmem
    obtain ⟨i, -, hi⟩ := hhours.inDay hour hmem
    exact mergeHour_mergedFrom finalized hproject hday hminutes hbounds hi
  have hperm := flatMap_filter_perm holds (hhours.countP hminutes)
  have : Nonempty Bucket := ⟨⟨project, .hour, 0, 0, finalized, 0, []⟩⟩
  have : Nonempty (Table String HistoricalRow) := ⟨Table.empty⟩
  choose! result t hresult hmerged using hhour
  have hall : mapAll (mergeHour js project finalized minutes) hours = .ok (hours.map result) := by
    rw [mapAll_eq_ok_iff, List.forall₂_map_right_iff, List.forall₂_same]
    exact hresult
  -- The hours' rows are the values of their tables.
  have hvalues : ((hours.map result).flatMap Bucket.rows).Perm
      (hours.flatMap fun hour => (t hour).values) := by
    rw [List.flatMap_map]
    apply List.Perm.flatMap_left
    intro hour hmem
    rw [(hmerged hour hmem).rows]
    exact sortRows_perm js _
  have hrows : (hours.flatMap fun hour => (minutes.filter (holds hour)).flatMap Bucket.rows).Perm
      (minutes.flatMap Bucket.rows) := by
    rw [← List.flatMap_assoc]
    exact hperm.flatMap_right _
  have hsources : ∀ bucket ∈ hours.map result,
      SourceOf js project day (day + Tier.day.width) bucket := by
    intro bucket hbucket
    obtain ⟨hour, hmem, rfl⟩ := List.mem_map.mp hbucket
    obtain ⟨i, hi, hfrom⟩ := hhours.inDay hour hmem
    have hsource := (hmerged hour hmem).source
    have hlo := hsource.fromLe
    have hhi := hsource.toLe
    simp only [Tier.width] at hhi ⊢
    exact ⟨hsource.wellFormed, hsource.project, by omega, by omega⟩
  have hsame : SameBounds js ((hours.map result).flatMap Bucket.rows) := by
    rw [← agree_iff_sameBounds] at hbounds ⊢
    apply agree_mono hbounds
    intro s hs
    rw [(hvalues.map _).mem_iff, List.map_flatMap, List.mem_flatMap] at hs
    obtain ⟨hour, hmem, hs⟩ := hs
    have hm := (hmerged hour hmem).merges
    rw [GuardedMerge.mem_values_signature hm.keyed, hm.signed] at hs
    rw [← (hrows.map _).mem_iff, List.map_flatMap, List.mem_flatMap]
    exact ⟨hour, hmem, hs⟩
  obtain ⟨byHours, u, hok, hday'⟩ :=
    mergeHistoryBuckets_mergedFrom finalized hproject hday hsources hsame
  refine ⟨byHours, u, ?_, fun key => hday'.rowMap_eq key, ?_, ?_⟩
  · unfold mergeByHours
    rw [bind_eq_ok_iff]
    exact ⟨_, hall, hok⟩
  · have hparts := Merges.flatMap (fun hour hmem => (hmerged hour hmem).merges)
      (hday'.merges.perm hvalues)
    exact hparts.perm hrows
  · rw [hday'.dropCount, List.map_map]
    have hdrops : hours.map (Bucket.dropCount ∘ result) =
        hours.map fun hour => ((minutes.filter (holds hour)).map Bucket.dropCount).sum :=
      List.map_congr_left fun hour hmem => (hmerged hour hmem).dropCount
    rw [hdrops, ← (hperm.map Bucket.dropCount).sum_eq, List.map_flatMap, List.flatMap_def,
      List.sum_flatten, List.map_map]
    rfl

theorem compactionExact_of_oneSeries (finalized : Bool) (hproject : project ≠ "")
    (hday : day % Tier.day.width = 0)
    (hminutes : ∀ bucket ∈ minutes, MinuteOf js project day bucket)
    (hbounds : SameBounds js (minutes.flatMap Bucket.rows))
    (hone : OneSeriesAKey js (minutes.flatMap Bucket.rows)) :
    CompactionExact js project finalized day minutes := by
  obtain ⟨_, t, -, hreference⟩ := mergeDirectly_mergedFrom finalized hproject hday hminutes hbounds
  refine ⟨t.get, fun minutes' hours hperm hhours => ?_⟩
  have hminutes' : ∀ bucket ∈ minutes', MinuteOf js project day bucket := fun bucket hbucket =>
    hminutes bucket (hperm.mem_iff.mp hbucket)
  have hrows := hperm.flatMap_right Bucket.rows
  have hbounds' := sameBounds_mono hbounds fun row hrow => hrows.mem_iff.mp hrow
  have hhours' : HoursOf day minutes' hours :=
    ⟨hhours.nodup, hhours.inDay, fun minute hminute => hhours.cover minute (hperm.mem_iff.mp hminute)⟩
  have hdrops := (hperm.map Bucket.dropCount).sum_eq
  obtain ⟨direct, u, hdirect, hdirectFrom⟩ :=
    mergeDirectly_mergedFrom finalized hproject hday hminutes' hbounds'
  obtain ⟨byHours, v, hbyHours, hmap, hmerges, hdropped⟩ :=
    mergeByHours_merges finalized hproject hday hminutes' hbounds' hhours'
  refine ⟨direct, byHours, hdirect, hbyHours, ?_, ?_, ?_, ?_⟩
  · funext key
    rw [hdirectFrom.rowMap_eq]
    exact (hdirectFrom.merges.perm hrows).get_eq hreference.merges hone key
  · funext key
    rw [hmap]
    exact (hmerges.perm hrows).get_eq hreference.merges hone key
  · rw [hdirectFrom.dropCount, hdrops]
  · rw [hdropped, hdrops]

theorem find_of_nodup_keys {rows : List HistoricalRow}
    (hnodup : (rows.map (historicalSeriesKey js)).Nodup) {row : HistoricalRow} (hrow : row ∈ rows) :
    rows.find? (fun other => decide (historicalSeriesKey js other = historicalSeriesKey js row)) =
      some row := by
  cases hfind : rows.find?
      (fun other => decide (historicalSeriesKey js other = historicalSeriesKey js row)) with
  | none =>
      rw [List.find?_eq_none] at hfind
      exact absurd (decide_eq_true rfl) (hfind row hrow)
  | some found =>
      have hkey := List.find?_some hfind
      have hsame := List.inj_on_of_nodup_map hnodup (List.mem_of_find?_eq_some hfind) hrow
        (of_decide_eq_true hkey)
      rw [hsame]

/-- With its bucket in front, a row gives the day's row its identity. -/
theorem oneSeries_of_compactionExact (finalized : Bool) (hproject : project ≠ "")
    (hday : day % Tier.day.width = 0)
    (hminutes : ∀ bucket ∈ minutes, MinuteOf js project day bucket)
    (hbounds : SameBounds js (minutes.flatMap Bucket.rows))
    (hexact : CompactionExact js project finalized day minutes) :
    OneSeriesAKey js (minutes.flatMap Bucket.rows) := by
  obtain ⟨rows, hrows⟩ := hexact
  have key : ∀ row ∈ minutes.flatMap Bucket.rows,
      (rows (historicalSeriesKey js row)).map identity = some (identity row) := by
    intro row hrow
    obtain ⟨bucket, hbucket, hmem⟩ := List.mem_flatMap.mp hrow
    obtain ⟨rest, hperm⟩ := exists_perm_cons hbucket
    have hminutes' : ∀ bucket' ∈ bucket :: rest, MinuteOf js project day bucket' :=
      fun bucket' hbucket' => hminutes bucket' (hperm.mem_iff.mp hbucket')
    have hbounds' := sameBounds_mono hbounds
      fun row hrow => (hperm.flatMap_right Bucket.rows).mem_iff.mp hrow
    obtain ⟨direct, t, hdirect, hfrom⟩ :=
      mergeDirectly_mergedFrom finalized hproject hday hminutes' hbounds'
    obtain ⟨direct', _, hdirect', -, hmap, -⟩ := hrows _ _ hperm (hoursOf_all hday hminutes)
    have hsame : direct' = direct := Except.ok.inj (hdirect'.symm.trans hdirect)
    rw [← hmap, hsame, hfrom.rowMap_eq, hfrom.first]
    have hsorted : ((sortRows js bucket.rows).map (historicalSeriesKey js)).Nodup :=
      ((sortRows_perm js bucket.rows).map _).nodup_iff.mpr (hminutes bucket hbucket).keys
    have hfind := find_of_nodup_keys hsorted ((sortRows_perm js bucket.rows).mem_iff.mpr hmem)
    unfold sourceRows
    rw [List.flatMap_cons, List.find?_append, hfind]
    rfl
  intro a ha b hb hkey
  have hka := key a ha
  have hkb := key b hb
  rw [hkey, hkb] at hka
  exact (Option.some.inj hka).symm

end

/-- Compaction and acceptance are exact and order-free exactly when rows under
one key are of one series. -/
theorem compaction_exact_iff (js : Js) (project : String) (finalized : Bool) (day : ℤ)
    (minutes : List Bucket) (hproject : project ≠ "") (hday : day % Tier.day.width = 0)
    (hminutes : ∀ bucket ∈ minutes, MinuteOf js project day bucket)
    (hbounds : SameBounds js (minutes.flatMap Bucket.rows)) (settings : Settings)
    (maxWriteBatch : PositiveInteger) (steps : List Step) (p : Project)
    (hrun : run js settings maxWriteBatch ⟨Accumulator.init settings, Store.empty⟩ steps = .ok p) :
    (CompactionExact js project finalized day minutes ↔
        OneSeriesAKey js (minutes.flatMap Bucket.rows)) ∧
      (OrderFree js settings maxWriteBatch steps p ↔
        FirstsAgree js (readings (arrivals steps))) := by
  refine ⟨⟨?_, ?_⟩, ?_, ?_⟩
  · exact oneSeries_of_compactionExact finalized hproject hday hminutes hbounds
  · exact compactionExact_of_oneSeries finalized hproject hday hminutes hbounds
  · exact firstsAgree_of_orderFree hrun
  · exact orderFree_of_firstsAgree hrun

/-! ## A zero byte in a field -/

def ordersRow (environment appVersion : String) : HistoricalRow :=
  ⟨"orders", "web", environment, appVersion, none, none, .counter 1⟩

def ordersMinute (start : ℤ) (environment appVersion : String) : Bucket :=
  ⟨"shop", .minute, start, start + 60000, true, 0, [ordersRow environment appVersion]⟩

theorem minuteOf_ordersMinute {start : ℤ} {environment appVersion : String}
    (haligned : start % 60000 = 0) (hlo : 0 ≤ start) (hhi : start + 60000 ≤ 86400000)
    (henvironment : environment ≠ "") (hversion : appVersion ≠ "") :
    MinuteOf Js.plain "shop" 0 (ordersMinute start environment appVersion) where
  source :=
    { wellFormed :=
        { project := show "shop" ≠ "" by decide
          aligned := haligned
          width := rfl
          rows := by
            intro row hrow
            rw [List.mem_singleton.mp hrow]
            have hname : "orders" ≠ "" := by decide
            have hrole : "web" ≠ "" := by decide
            refine ⟨⟨hname, hrole, henvironment, hversion, ?_, nofun, trivial⟩, rfl⟩
            intro fields hfields
            cases hfields }
      project := rfl
      fromLe := hlo
      toLe := hhi }
  tier := rfl
  keys := List.nodup_singleton _

theorem sameBounds_ordersMinutes (minutes : List (ℤ × String × String)) :
    SameBounds Js.plain
      ((minutes.map fun m => ordersMinute m.1 m.2.1 m.2.2).flatMap Bucket.rows) := by
  intro a ha b _ _ h h' hbody
  obtain ⟨bucket, hbucket, hrow⟩ := List.mem_flatMap.mp ha
  obtain ⟨m, -, rfl⟩ := List.mem_map.mp hbucket
  rw [List.mem_singleton.mp hrow] at hbody
  cases hbody

theorem compaction_exact_iff_shop :
    ∃ p, run Js.plain shopSettings oneAtATime
        ⟨Accumulator.init shopSettings, Store.empty⟩ boundChange = .ok p ∧
      (CompactionExact Js.plain "shop" true 0
          [ordersMinute 0 "prod" "1.0.0", ordersMinute 60000 "prod" "1.0.0"] ↔
        OneSeriesAKey Js.plain ([ordersMinute 0 "prod" "1.0.0",
          ordersMinute 60000 "prod" "1.0.0"].flatMap Bucket.rows)) ∧
      (OrderFree Js.plain shopSettings oneAtATime boundChange p ↔
        FirstsAgree Js.plain (readings (arrivals boundChange))) := by
  have hminutes : ∀ bucket ∈ [ordersMinute 0 "prod" "1.0.0", ordersMinute 60000 "prod" "1.0.0"],
      MinuteOf Js.plain "shop" 0 bucket := by
    intro bucket hbucket
    simp only [List.mem_cons, List.not_mem_nil, or_false] at hbucket
    cases hbucket with
    | inl h => rw [h]; apply minuteOf_ordersMinute <;> decide
    | inr h => rw [h]; apply minuteOf_ordersMinute <;> decide
  have hok : (run Js.plain shopSettings oneAtATime
      ⟨Accumulator.init shopSettings, Store.empty⟩ boundChange).isOk = true := by
    decide +kernel
  cases hrun : run Js.plain shopSettings oneAtATime
      ⟨Accumulator.init shopSettings, Store.empty⟩ boundChange with
  | error message =>
      rw [hrun] at hok
      cases hok
  | ok p =>
      exact ⟨p, rfl, compaction_exact_iff Js.plain "shop" true 0 _ (by decide) (by decide) hminutes
        (sameBounds_ordersMinutes [(0, "prod", "1.0.0"), (60000, "prod", "1.0.0")]) shopSettings
        oneAtATime boundChange p hrun⟩

/-- Two clients whose environments and versions join to one text: the day's row
is that of the client whose minute is merged first. -/
theorem first_minute_names_the_row :
    let first := ordersMinute 0 "a\x00b" "c"
    let second := ordersMinute 60000 "a" "b\x00c"
    (∀ bucket ∈ [first, second], MinuteOf Js.plain "shop" 0 bucket) ∧
      SameBounds Js.plain ([first, second].flatMap Bucket.rows) ∧
      ¬ CompactionExact Js.plain "shop" true 0 [first, second] := by
  intro first second
  have hminutes : ∀ bucket ∈ [first, second], MinuteOf Js.plain "shop" 0 bucket := by
    intro bucket hbucket
    simp only [List.mem_cons, List.not_mem_nil, or_false] at hbucket
    cases hbucket with
    | inl h => rw [h]; apply minuteOf_ordersMinute <;> decide
    | inr h => rw [h]; apply minuteOf_ordersMinute <;> decide
  refine ⟨hminutes, sameBounds_ordersMinutes [(0, "a\x00b", "c"), (60000, "a", "b\x00c")], ?_⟩
  rintro ⟨rows, hrows⟩
  have hhours := hoursOf_all (by decide) hminutes
  obtain ⟨direct, _, hdirect, -, hmap, -⟩ := hrows _ _ (List.Perm.refl _) hhours
  obtain ⟨swapped, _, hswapped, -, hmapSwapped, -⟩ := hrows _ _ (List.Perm.swap first second []) hhours
  have hvalues : (mergeDirectly Js.plain "shop" true 0 [first, second]).map (fun bucket =>
        rowMap Js.plain bucket (historicalSeriesKey Js.plain (ordersRow "a" "b\x00c"))) ≠
      (mergeDirectly Js.plain "shop" true 0 [second, first]).map (fun bucket =>
        rowMap Js.plain bucket (historicalSeriesKey Js.plain (ordersRow "a" "b\x00c"))) := by
    decide +kernel
  rw [hdirect, hswapped] at hvalues
  apply hvalues
  simp only [Except.map, hmap, hmapSwapped]

end Wardx.HistoryCompaction
