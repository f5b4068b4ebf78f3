import Wardx.Aggregation.HistoryBucket

/-!
# The bucket tables

The history side of the SQLite store for one project: the minute, hour and day
tables and the compaction watermarks. Every statement names its project, so the
rows of one project are a store of their own.

A bucket stands under its tier and start, the primary key. `rows_json` is the
text of the rows and reads back as them. A transaction that throws changes
nothing: an operation returns the next store or the error.
-/
namespace Wardx.HistoryStore

open Lib HistoryBucket

/-- A setting that passed `requirePositiveInteger`. -/
abbrev PositiveInteger := { n : ℕ // 1 ≤ n }

/-- The primary key of a bucket. -/
def bucketId (bucket : Bucket) : Tier × ℤ := (bucket.tier, bucket.bucketFrom)

/-- A watermark stands under its source tier, which fixes the destination. -/
structure Store where
  buckets : Table (Tier × ℤ) Bucket
  watermarks : Table Tier ℤ
  keyed : ∀ key bucket, buckets.get key = some bucket → bucketId bucket = key
deriving DecidableEq, Repr

def Store.empty : Store where
  buckets := Table.empty
  watermarks := Table.empty
  keyed := by simp

/-- `readBucket`. -/
def readBucket (store : Store) (tier : Tier) (bucketFrom : ℤ) : Option Bucket :=
  store.buckets.get (tier, bucketFrom)

/-- The rows of one tier's table, ordered by `bucket_from`. -/
def tierBuckets (store : Store) (tier : Tier) : List Bucket :=
  (store.buckets.values.filter fun bucket => bucket.tier = tier).insertionSort
    fun a b => a.bucketFrom ≤ b.bucketFrom

def requireNonEmptyString (value label : String) : Except String Unit :=
  require (value ≠ "") (label ++ " must be a non-empty string")

/-- `validateBucket`. -/
def validateBucket (bucket : Bucket) (tier : Tier) : Except String Unit := do
  requireNonEmptyString bucket.project "bucket.project"
  require (bucket.tier = tier) ("bucket.tier must be " ++ tier.text)
  require (bucket.bucketFrom < bucket.bucketTo)
    "bucket.from and bucket.to must be integer timestamps with to > from"
  assertHistoryBoundary tier bucket.bucketFrom bucket.bucketTo "history bucket"

/-- `_assertHistoricalBucketMutable`. -/
def assertHistoricalBucketMutable (store : Store) (tier : Tier) (bucket : Bucket) :
    Except String Unit :=
  match tier, readBucket store tier bucket.bucketFrom with
  | .minute, _ => .ok ()
  | _, none => .ok ()
  | _, some existing =>
      require (!existing.finalized || existing = bucket)
        "finalized historical buckets are immutable"

def upsert (store : Store) (bucket : Bucket) : Store where
  buckets := store.buckets.put (bucketId bucket) bucket
  watermarks := store.watermarks
  keyed := by
    intro key other h
    rw [Table.get_put] at h
    split_ifs at h with hk
    · rw [← Option.some.inj h, hk]
    · exact store.keyed key other h

/-- One round of the loop of `saveBuckets`. -/
def saveBucket (tier : Tier) (store : Store) (bucket : Bucket) :
    Except String Store := do
  validateBucket bucket tier
  assertHistoricalBucketMutable store tier bucket
  pure (upsert store bucket)

def saveEach (tier : Tier) (store : Store) : List Bucket → Except String Store
  | [] => .ok store
  | bucket :: buckets => do
      let next ← saveBucket tier store bucket
      saveEach tier next buckets

/-- `saveBuckets`. -/
def saveBuckets (maxWriteBatch : PositiveInteger) (tier : Tier) (store : Store)
    (buckets : List Bucket) : Except String Store := do
  require (buckets.length ≤ maxWriteBatch.val) "bucket batch exceeds configured maximum"
  saveEach tier store buckets

/-- The slices of `size` a loop over a list takes; the count bounds the rounds. -/
def slicesFor {α : Type} (size : PositiveInteger) : ℕ → List α → List (List α)
  | 0, _ => []
  | _, [] => []
  | rounds + 1, xs => xs.take size.val :: slicesFor size rounds (xs.drop size.val)

def slices {α : Type} (size : PositiveInteger) (xs : List α) : List (List α) :=
  slicesFor size xs.length xs

def saveSlices (maxWriteBatch : PositiveInteger) (tier : Tier) (store : Store) :
    List (List Bucket) → Except String Store
  | [] => .ok store
  | slice :: rest => do
      let next ← saveBuckets maxWriteBatch tier store slice
      saveSlices maxWriteBatch tier next rest

def bucketsWithin (store : Store) (tier : Tier) (lo hi : ℤ) : List Bucket :=
  (tierBuckets store tier).filter fun bucket => lo ≤ bucket.bucketFrom ∧ bucket.bucketTo ≤ hi

/-- `readBuckets`: the buckets inside `[from, to]`. -/
def readBuckets (store : Store) (tier : Tier) (lo hi : ℤ) : Except String (List Bucket) := do
  require (lo < hi) "bucket from and to must be bounded integer timestamps with to > from"
  require (hi - lo ≤ 86400000) "internal bucket range cannot exceed one day"
  pure (bucketsWithin store tier lo hi)

/-- `listBucketStarts`. -/
def listBucketStarts (store : Store) (tier : Tier) (afterFrom : ℤ) (limit : PositiveInteger) : List ℤ :=
  (((tierBuckets store tier).map Bucket.bucketFrom).filter fun bucketFrom =>
    afterFrom < bucketFrom).take limit.val

/-- `CAST(bucket_from / width AS INTEGER) * width`: the cast truncates. -/
def destinationStart (destination : Tier) (bucketFrom : ℤ) : ℤ :=
  bucketFrom.tdiv destination.width * destination.width

def destinationFinalized (store : Store) (destination : Tier) (start : ℤ) : Bool :=
  ((readBucket store destination start).map Bucket.finalized).getD false

/-- `compactionStarts`. -/
def compactionStarts (store : Store) (source destination : Tier) : List ℤ :=
  (((tierBuckets store source).map fun bucket =>
    destinationStart destination bucket.bucketFrom).filter fun start =>
      !destinationFinalized store destination start).dedup.insertionSort (· ≤ ·)

/-- The bucket after `UPDATE … SET finalized = 1` through a boundary. -/
def finalizeThrough (tier : Tier) (through : ℤ) (bucket : Bucket) : Bucket :=
  { bucket with
    finalized := bucket.finalized || (decide (bucket.tier = tier) &&
      decide (bucket.bucketTo ≤ through)) }

/-- `finalizeBucketsThrough`. -/
def finalizeBucketsThrough (store : Store) (tier : Tier) (through : ℤ) :
    Store where
  buckets := store.buckets.mapValues fun _ => finalizeThrough tier through
  watermarks := store.watermarks
  keyed := by
    intro key bucket h
    rw [Table.get_mapValues] at h
    obtain ⟨stored, hget, rfl⟩ := Option.map_eq_some_iff.mp h
    exact store.keyed key stored hget

/-- `readWatermark`. -/
def readWatermark (store : Store) (source : Tier) : Option ℤ := store.watermarks.get source

/-- Some finalized destination covers the source. -/
def covered (store : Store) (destination : Tier) (source : Bucket) : Bool :=
  (tierBuckets store destination).any fun bucket =>
    bucket.finalized && decide (bucket.bucketFrom ≤ source.bucketFrom) &&
      decide (source.bucketTo ≤ bucket.bucketTo)

def deleteWhere (store : Store) (condition : Bucket → Bool) : Store where
  buckets := store.buckets.filter fun _ bucket => !condition bucket
  watermarks := store.watermarks
  keyed := by
    intro key bucket h
    rw [Table.get_filter] at h
    obtain ⟨hget, _⟩ := Option.filter_eq_some_iff.mp h
    exact store.keyed key bucket hget

/-- `pruneBuckets` of a compacted tier. -/
def pruneCompacted (store : Store) (source destination : Tier) (retentionCutoff : ℤ) :
    Store :=
  match readWatermark store source with
  | none => store
  | some watermark =>
      deleteWhere store fun bucket =>
        decide (bucket.tier = source) && bucket.finalized &&
          decide (bucket.bucketTo ≤ min retentionCutoff watermark) &&
          covered store destination bucket

/-- `pruneBuckets`. -/
def pruneBuckets (store : Store) (tier : Tier) (retentionCutoff : ℤ) : Store :=
  match tier with
  | .minute => pruneCompacted store .minute .hour retentionCutoff
  | .hour => pruneCompacted store .hour .day retentionCutoff
  | .day =>
      deleteWhere store fun bucket =>
        decide (bucket.tier = .day) && bucket.finalized &&
          decide (bucket.bucketTo ≤ retentionCutoff)

/-- `replaceCompactedBucket`. -/
def replaceCompactedBucket (store : Store) (source destination : Tier) (bucket : Bucket)
    (sourceThrough : ℤ) : Except String Store := do
  validateBucket bucket destination
  assertHistoricalBucketMutable store destination bucket
  let through := match readWatermark store source with
    | none => sourceThrough
    | some previous => max previous sourceThrough
  let saved := upsert store bucket
  pure { saved with watermarks := saved.watermarks.put source through }

/-! ## Reading back -/

theorem mem_tierBuckets (store : Store) (tier : Tier) (bucket : Bucket) :
    bucket ∈ tierBuckets store tier ↔
      bucket.tier = tier ∧ readBucket store tier bucket.bucketFrom = some bucket := by
  unfold tierBuckets readBucket
  rw [List.mem_insertionSort, List.mem_filter]
  simp only [Table.values, List.mem_map, decide_eq_true_eq]
  constructor
  · rintro ⟨⟨⟨key, value⟩, hget, rfl⟩, rfl⟩
    rw [← Table.get_eq_some_iff] at hget
    have hkey := store.keyed key value hget
    refine ⟨rfl, ?_⟩
    rw [← hkey] at hget
    exact hget
  · rintro ⟨rfl, hget⟩
    exact ⟨⟨_, (Table.get_eq_some_iff _ _ _).mp hget, rfl⟩, rfl⟩

/-- A bucket read under a tier and start has that tier and start. -/
theorem readBucket_id {store : Store} {tier : Tier} {bucketFrom : ℤ} {bucket : Bucket}
    (h : readBucket store tier bucketFrom = some bucket) :
    bucket.tier = tier ∧ bucket.bucketFrom = bucketFrom :=
  Prod.mk.inj (store.keyed _ _ h)

theorem mem_bucketsWithin (store : Store) (tier : Tier) (lo hi : ℤ) (bucket : Bucket) :
    bucket ∈ bucketsWithin store tier lo hi ↔
      readBucket store tier bucket.bucketFrom = some bucket ∧
        lo ≤ bucket.bucketFrom ∧ bucket.bucketTo ≤ hi := by
  unfold bucketsWithin
  rw [List.mem_filter, mem_tierBuckets, decide_eq_true_eq]
  constructor
  · rintro ⟨⟨_, hread⟩, hin⟩
    exact ⟨hread, hin⟩
  · rintro ⟨hread, hin⟩
    exact ⟨⟨(readBucket_id hread).1, hread⟩, hin⟩

theorem readBuckets_ok (store : Store) (tier : Tier) {lo hi : ℤ} (hlt : lo < hi)
    (hday : hi - lo ≤ 86400000) :
    readBuckets store tier lo hi = .ok (bucketsWithin store tier lo hi) := by
  simp [readBuckets, hlt, hday, pure, Except.pure]

theorem readBucket_upsert (store : Store) (bucket : Bucket) (tier : Tier) (start : ℤ) :
    readBucket (upsert store bucket) tier start =
      if (tier, start) = bucketId bucket then some bucket else readBucket store tier start :=
  Table.get_put _ _ _ _

/-! ## Saving minutes -/

/-- What `validateBucket` demands. -/
structure ValidBucket (tier : Tier) (bucket : Bucket) : Prop where
  project : bucket.project ≠ ""
  ofTier : bucket.tier = tier
  aligned : bucket.bucketFrom % tier.width = 0
  width : bucket.bucketTo = bucket.bucketFrom + tier.width

theorem validateBucket_eq_ok_iff (tier : Tier) (bucket : Bucket) (u : Unit) :
    validateBucket bucket tier = .ok u ↔ ValidBucket tier bucket := by
  unfold validateBucket requireNonEmptyString assertHistoryBoundary
  simp only [bind_eq_ok_iff, require_eq_ok_iff, exists_const, Bool.and_eq_true,
    decide_eq_true_eq]
  have hpos := tier.width_pos
  constructor
  · rintro ⟨hp, ht, _, ha, hw⟩
    exact ⟨hp, ht, ha, hw⟩
  · rintro ⟨hp, ht, ha, hw⟩
    exact ⟨hp, ht, by omega, ha, hw⟩

theorem flatten_slicesFor {α : Type} (size : PositiveInteger) {rounds : ℕ} {xs : List α}
    (h : xs.length ≤ rounds) : (slicesFor size rounds xs).flatten = xs := by
  induction rounds generalizing xs with
  | zero =>
      rw [Nat.le_zero, List.length_eq_zero_iff] at h
      rw [h]
      rfl
  | succ rounds ih =>
      cases xs with
      | nil => rfl
      | cons x xs =>
          have hsize := size.property
          have hdrop : ((x :: xs).drop size.val).length ≤ rounds := by
            rw [List.length_drop]
            simp only [List.length_cons] at h ⊢
            omega
          rw [slicesFor, List.flatten_cons, ih hdrop, List.take_append_drop]
          simp

theorem flatten_slices {α : Type} (size : PositiveInteger) (xs : List α) :
    (slices size xs).flatten = xs :=
  flatten_slicesFor size le_rfl

theorem length_le_of_mem_slicesFor {α : Type} {size : PositiveInteger} {rounds : ℕ}
    {xs slice : List α} (h : slice ∈ slicesFor size rounds xs) : slice.length ≤ size.val := by
  induction rounds generalizing xs with
  | zero => simp [slicesFor] at h
  | succ rounds ih =>
      cases xs with
      | nil => simp [slicesFor] at h
      | cons x xs =>
          rw [slicesFor, List.mem_cons] at h
          · obtain rfl | h := h
            · exact List.length_take_le _ _
            · exact ih h
          · simp

/-- Minutes are never refused: valid ones are all written. -/
theorem saveEach_minute (store : Store) {buckets : List Bucket}
    (h : ∀ bucket ∈ buckets, ValidBucket .minute bucket) :
    saveEach .minute store buckets = .ok (buckets.foldl upsert store) := by
  induction buckets generalizing store with
  | nil => rfl
  | cons bucket buckets ih =>
      have hbucket := (validateBucket_eq_ok_iff .minute bucket ()).mpr (h bucket List.mem_cons_self)
      have hrest := ih (upsert store bucket)
        fun b hb => h b (List.mem_cons_of_mem bucket hb)
      simp [saveEach, saveBucket, hbucket, assertHistoricalBucketMutable, hrest, pure, Except.pure]

theorem saveSlices_minute {maxWriteBatch : PositiveInteger} (store : Store)
    {xss : List (List Bucket)} (hlen : ∀ slice ∈ xss, slice.length ≤ maxWriteBatch.val)
    (h : ∀ slice ∈ xss, ∀ bucket ∈ slice, ValidBucket .minute bucket) :
    saveSlices maxWriteBatch .minute store xss = .ok (xss.flatten.foldl upsert store) := by
  induction xss generalizing store with
  | nil => rfl
  | cons slice rest ih =>
      have hslice := saveEach_minute store (h slice List.mem_cons_self)
      have hrest := ih (slice.foldl upsert store)
        (fun s hs => hlen s (List.mem_cons_of_mem slice hs))
        (fun s hs => h s (List.mem_cons_of_mem slice hs))
      simp [saveSlices, saveBuckets, hlen slice List.mem_cons_self, hslice, hrest]

/-- Minutes saved in slices are all written. -/
theorem saveSlices_slices {maxWriteBatch : PositiveInteger} (store : Store)
    {buckets : List Bucket} (h : ∀ bucket ∈ buckets, ValidBucket .minute bucket) :
    saveSlices maxWriteBatch .minute store (slices maxWriteBatch buckets) =
      .ok (buckets.foldl upsert store) := by
  rw [saveSlices_minute, flatten_slices]
  · intro slice hs
    exact length_le_of_mem_slicesFor hs
  · intro slice hs bucket hb
    refine h bucket ?_
    rw [← flatten_slices maxWriteBatch buckets]
    exact List.mem_flatten.mpr ⟨slice, hs, hb⟩

theorem readBucket_foldl_upsert (store : Store) {buckets : List Bucket}
    (hnodup : (buckets.map bucketId).Nodup) (tier : Tier) (start : ℤ) :
    readBucket (buckets.foldl upsert store) tier start =
      (buckets.find? fun bucket => bucketId bucket = (tier, start)).or
        (readBucket store tier start) := by
  induction buckets generalizing store with
  | nil => rfl
  | cons bucket buckets ih =>
      rw [List.map_cons, List.nodup_cons] at hnodup
      rw [List.foldl_cons, ih _ hnodup.2, readBucket_upsert, List.find?_cons]
      by_cases hid : bucketId bucket = (tier, start)
      · have hnone : buckets.find? (fun b => bucketId b = (tier, start)) = none := by
          rw [List.find?_eq_none]
          intro b hb heq
          refine hnodup.1 (List.mem_map.mpr ⟨b, hb, ?_⟩)
          rw [hid]
          simpa using heq
        simp [hid, hnone]
      · simp [hid, Ne.symm hid]

end Wardx.HistoryStore
