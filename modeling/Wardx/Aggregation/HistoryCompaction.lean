import Wardx.Aggregation.HistoryAccumulator
import Wardx.Storage.HistoryStore

/-!
# When accepted history compacts

`prepare` compares an incoming histogram with the row of its own minute only.
Compaction merges the minutes of an hour and the hours of a day, and a merge
fails on two lists of bounds for one series. So acceptance does not imply that
later merges succeed: they succeed for a period exactly when the accepted
histograms of each series in that period share one list of bounds.

The proof follows signatures. A minute holds the signatures of the rows
accepted for it, an hour bucket those of its minutes, and a merge succeeds
exactly when the signatures in play give each series one shape.
-/
namespace Wardx.HistoryCompaction

open Lib HistoryBucket HistoryAccumulator HistoryStore

/-- An envelope with the log names persisted when it arrived. -/
structure Arrival where
  envelope : Envelope
  persistLogs : List String

/-- What one project keeps: its accumulator and its tables. -/
structure Project where
  acc : Accumulator
  store : Store

inductive Step
  | arrive (arrival : Arrival)
  | flush (now : ℤ)

/-- `ingest`: prepare and commit. -/
def ingest (js : Js) (settings : Settings) (acc : Accumulator) (arrival : Arrival) :
    Except String Accumulator := do
  let prepared ← prepare js settings acc arrival.envelope arrival.persistLogs
  pure (commit js acc prepared)

/-- Save the dirty minutes in slices and acknowledge them. -/
def flush (js : Js) (settings : Settings) (maxWriteBatch : PositiveInteger) (p : Project)
    (now : ℤ) : Except String Project := do
  let buckets := pending js settings p.acc now
  let store ← saveSlices maxWriteBatch .minute p.store (slices maxWriteBatch buckets)
  pure ⟨acknowledge p.acc buckets, store⟩

def step (js : Js) (settings : Settings) (maxWriteBatch : PositiveInteger) (p : Project) :
    Step → Except String Project
  | .arrive arrival => do
      let acc ← ingest js settings p.acc arrival
      pure { p with acc := acc }
  | .flush now => flush js settings maxWriteBatch p now

/-- Steps in order, each arrival accepted. -/
def run (js : Js) (settings : Settings) (maxWriteBatch : PositiveInteger) (p : Project) :
    List Step → Except String Project
  | [] => .ok p
  | first :: rest => do
      let next ← step js settings maxWriteBatch p first
      run js settings maxWriteBatch next rest

def arrivals (steps : List Step) : List Arrival :=
  steps.filterMap fun
    | .arrive arrival => some arrival
    | .flush _ => none

/-- The hour bucket merged from the stored minutes. -/
def compactHour (js : Js) (project : String) (store : Store) (finalized : Bool) (hour : ℤ) :
    Except String Bucket := do
  let sourceBuckets ← readBuckets store .minute hour (hour + Tier.hour.width)
  mergeHistoryBuckets js project .hour hour (hour + Tier.hour.width) sourceBuckets finalized

/-- The hours of a day that have stored minutes. -/
def sourceHours (store : Store) (day : ℤ) : List ℤ :=
  ((List.range 24).map fun i : ℕ => day + i * Tier.hour.width).filter fun hour =>
    !(bucketsWithin store .minute hour (hour + Tier.hour.width)).isEmpty

/-- The day bucket merged from the day's hours, each merged from its minutes. -/
def compactDay (js : Js) (project : String) (store : Store) (finalized : Bool) (day : ℤ) :
    Except String Bucket := do
  let hours ← mapAll (compactHour js project store true) (sourceHours store day)
  mergeHistoryBuckets js project .day day (day + Tier.day.width) hours finalized

/-! ## What was accepted -/

/-- The rows accepted for a minute, in order of arrival. -/
def acceptedAt (js : Js) (arrived : List Arrival) (m : ℤ) : List HistoricalRow :=
  arrived.flatMap fun arrival =>
    minuteRows js arrival.envelope arrival.persistLogs m arrival.envelope.frames

/-- The frames accepted, each with its arrival. -/
def acceptedFrames (arrived : List Arrival) : List (Arrival × Frame) :=
  arrived.flatMap fun arrival => arrival.envelope.frames.map fun frame => (arrival, frame)

/-- A frame arrived for the minute. -/
def Touched (arrived : List Arrival) (m : ℤ) : Prop :=
  ∃ accepted ∈ acceptedFrames arrived, utcBucketStart accepted.2.frameFrom .minute = m

/-- The rows accepted for the minutes of a period. -/
def acceptedIn (js : Js) (arrived : List Arrival) (lo hi : ℤ) : List HistoricalRow :=
  ((acceptedFrames arrived).filter fun accepted =>
    decide (lo ≤ utcBucketStart accepted.2.frameFrom .minute) &&
      decide (utcBucketStart accepted.2.frameFrom .minute + Tier.minute.width ≤ hi)).flatMap
    fun accepted =>
      frameRows js accepted.1.envelope accepted.1.persistLogs accepted.2

/-- Histograms of one series share one list of bounds. -/
def SameBounds (js : Js) (rows : List HistoricalRow) : Prop :=
  ∀ a ∈ rows, ∀ b ∈ rows, historicalSeriesKey js a = historicalSeriesKey js b →
    ∀ h h', a.body = .histogram h → b.body = .histogram h' →
      boundsOf h.buckets = boundsOf h'.buckets

/-- Only histograms have a shape beyond their kind. -/
theorem shape_eq_iff {a b : HistoricalRow} (hk : a.kind = b.kind) :
    a.shape = b.shape ↔ ∀ h h', a.body = .histogram h → b.body = .histogram h' →
      boundsOf h.buckets = boundsOf h'.buckets := by
  obtain ⟨_, _, _, _, _, _, abody⟩ := a
  obtain ⟨_, _, _, _, _, _, bbody⟩ := b
  unfold HistoricalRow.kind at hk
  unfold HistoricalRow.shape
  cases abody <;> cases bbody <;> simp_all [RowBody.shape, RowBody.kind]

theorem agree_iff_sameBounds (js : Js) (rows : List HistoricalRow) :
    (Agree fun s => s ∈ rows.map (seriesMerge js).signature) ↔ SameBounds js rows := by
  constructor
  · intro h a ha b hb hkey
    rw [← shape_eq_iff (kind_eq_of_key_eq hkey)]
    refine h (historicalSeriesKey js a) a.shape b.shape (List.mem_map.mpr ⟨a, ha, rfl⟩) ?_
    exact List.mem_map.mpr ⟨b, hb, by rw [hkey]; rfl⟩
  · intro h k s s' hs hs'
    obtain ⟨a, ha, hka⟩ := List.mem_map.mp hs
    obtain ⟨b, hb, hkb⟩ := List.mem_map.mp hs'
    cases hka
    obtain ⟨hkey, rfl⟩ := Prod.mk.inj hkb
    exact (shape_eq_iff (kind_eq_of_key_eq hkey.symm)).mpr (h a ha b hb hkey.symm)

theorem mem_acceptedAt {js : Js} {arrived : List Arrival} {m : ℤ} {row : HistoricalRow} :
    row ∈ acceptedAt js arrived m ↔ ∃ accepted ∈ acceptedFrames arrived,
      utcBucketStart accepted.2.frameFrom .minute = m ∧
        row ∈ frameRows js accepted.1.envelope accepted.1.persistLogs accepted.2 := by
  unfold acceptedAt acceptedFrames minuteRows
  simp only [List.mem_flatMap, List.mem_map]
  constructor
  · rintro ⟨arrival, ha, frame, hf, hrow⟩
    split_ifs at hrow with hm
    · exact ⟨(arrival, frame), ⟨arrival, ha, frame, hf, rfl⟩, hm, hrow⟩
    · cases hrow
  · rintro ⟨_, ⟨arrival, ha, frame, hf, rfl⟩, hm, hrow⟩
    exact ⟨arrival, ha, frame, hf, by rwa [if_pos hm]⟩

/-- A period's rows are those of its minutes. -/
theorem mem_acceptedIn {js : Js} {arrived : List Arrival} {lo hi : ℤ} {row : HistoricalRow} :
    row ∈ acceptedIn js arrived lo hi ↔
      ∃ m, lo ≤ m ∧ m + Tier.minute.width ≤ hi ∧ row ∈ acceptedAt js arrived m := by
  unfold acceptedIn
  simp only [List.mem_flatMap, List.mem_filter, Bool.and_eq_true, decide_eq_true_eq,
    mem_acceptedAt]
  constructor
  · rintro ⟨accepted, ⟨ha, hlo, hhi⟩, hrow⟩
    exact ⟨_, hlo, hhi, accepted, ha, rfl, hrow⟩
  · rintro ⟨m, hlo, hhi, accepted, ha, rfl, hrow⟩
    exact ⟨accepted, ⟨ha, hlo, hhi⟩, hrow⟩

/-! ## The invariant of a run -/

/-- A project that accepted the arrivals: memory holds the merge of the rows
accepted for each minute, and a clean minute is stored as it is in memory. -/
structure Served (js : Js) (settings : Settings) (arrived : List Arrival) (p : Project) :
    Prop where
  project : p.acc.project = settings.project
  rows : ∀ m, (seriesMerge js).insertAll Table.empty (acceptedAt js arrived m) =
    .ok (rowsAt p.acc m)
  normal : ∀ m, ∀ row ∈ acceptedAt js arrived m, NormalRow js row
  touched : ∀ m ∈ p.acc.dirty, Touched arrived m
  nodup : p.acc.dirty.Nodup
  stored : ∀ m, Touched arrived m → m ∈ p.acc.dirty ∨ ∃ now,
    readBucket p.store .minute m =
      some (minuteBucket js settings p.acc.project now m (rowsAt p.acc m))
  untouched : ∀ m, ¬ Touched arrived m → readBucket p.store .minute m = none

theorem served_init (js : Js) (settings : Settings) :
    Served js settings [] ⟨Accumulator.init settings, Store.empty⟩ where
  project := rfl
  rows := fun _ => rfl
  normal := by simp [acceptedAt]
  touched := by simp [Accumulator.init]
  nodup := List.nodup_nil
  stored := by simp [Touched, acceptedFrames]
  untouched := fun _ _ => rfl

theorem touched_append {arrived : List Arrival} {arrival : Arrival} {m : ℤ} :
    Touched (arrived ++ [arrival]) m ↔ Touched arrived m ∨
      ∃ frame ∈ arrival.envelope.frames, utcBucketStart frame.frameFrom .minute = m := by
  unfold Touched acceptedFrames
  rw [List.flatMap_append]
  simp only [List.mem_append, or_and_right, exists_or, List.flatMap_cons, List.flatMap_nil,
    List.append_nil, List.mem_map]
  refine or_congr_right ?_
  constructor
  · rintro ⟨_, ⟨frame, hf, rfl⟩, hm⟩
    exact ⟨frame, hf, hm⟩
  · rintro ⟨frame, hf, hm⟩
    exact ⟨_, ⟨frame, hf, rfl⟩, hm⟩

/-- A minute no frame of the envelope falls in gets no rows. -/
theorem minuteRows_eq_nil {js : Js} {envelope : Envelope} {persistLogs : List String} {m : ℤ}
    {frames : List Frame} (h : ∀ frame ∈ frames, utcBucketStart frame.frameFrom .minute ≠ m) :
    minuteRows js envelope persistLogs m frames = [] := by
  unfold minuteRows
  rw [List.flatMap_eq_nil_iff]
  intro frame hf
  rw [if_neg (h frame hf)]

theorem served_arrive {js : Js} {settings : Settings} {arrived : List Arrival} {p : Project}
    {arrival : Arrival} {acc : Accumulator} (h : Served js settings arrived p)
    (hacc : ingest js settings p.acc arrival = .ok acc) :
    Served js settings (arrived ++ [arrival]) { p with acc := acc } := by
  unfold ingest at hacc
  rw [bind_eq_ok_iff] at hacc
  obtain ⟨prepared, hprepared, hcommit⟩ := hacc
  have hc := commit_prepare hprepared
  rw [Except.ok.inj hcommit] at hc
  have happend : ∀ m, acceptedAt js (arrived ++ [arrival]) m = acceptedAt js arrived m ++
      minuteRows js arrival.envelope arrival.persistLogs m arrival.envelope.frames := by
    intro m
    simp [acceptedAt]
  refine ⟨hc.project.trans h.project, fun m => ?_, fun m row hrow => ?_, fun m hm => ?_,
    hc.nodup h.nodup, fun m hm => ?_, fun m hm => ?_⟩
  · rw [happend, GuardedMerge.insertAll_append_ok_iff]
    exact ⟨_, h.rows m, hc.rows m⟩
  · rw [happend, List.mem_append] at hrow
    obtain hrow | hrow := hrow
    · exact h.normal m row hrow
    · simp only [minuteRows, List.mem_flatMap] at hrow
      obtain ⟨frame, hf, hrow⟩ := hrow
      split_ifs at hrow
      · simp only [frameRows, List.mem_map] at hrow
        obtain ⟨raw, hraw, rfl⟩ := hrow
        exact normalRow_normalized (hc.valid frame hf raw hraw)
      · cases hrow
  · rw [touched_append]
    rw [hc.dirty] at hm
    exact hm.imp_left (h.touched m)
  · by_cases hframe : ∃ frame ∈ arrival.envelope.frames,
      utcBucketStart frame.frameFrom .minute = m
    · exact Or.inl ((hc.dirty m).mpr (Or.inr hframe))
    · -- The envelope leaves the minute as it was.
      have hrows : rowsAt acc m = rowsAt p.acc m := by
        have hins := hc.rows m
        rw [minuteRows_eq_nil fun frame hf heq => hframe ⟨frame, hf, heq⟩] at hins
        exact (Except.ok.inj hins).symm
      obtain hdirty | ⟨now, hstored⟩ :=
        h.stored m ((touched_append.mp hm).resolve_right hframe)
      · exact Or.inl ((hc.dirty m).mpr (Or.inl hdirty))
      · refine Or.inr ⟨now, ?_⟩
        rw [hrows, hc.project]
        exact hstored
  · refine h.untouched m fun ht => hm (touched_append.mpr (Or.inl ht))

theorem utcBucketStart_emod (timestamp : ℚ) (tier : Tier) :
    utcBucketStart timestamp tier % tier.width = 0 :=
  Int.mul_emod_left _ _

theorem pending_eq_map (js : Js) (settings : Settings) (acc : Accumulator) (now : ℤ) :
    pending js settings acc now = (acc.dirty.insertionSort (· ≤ ·)).map fun m =>
      minuteBucket js settings acc.project now m (rowsAt acc m) := by
  unfold pending
  refine List.map_congr_left fun m _ => ?_
  rw [← baseAt_rows js]
  rfl

theorem mem_pending {js : Js} {settings : Settings} {acc : Accumulator} {now : ℤ}
    {bucket : Bucket} : bucket ∈ pending js settings acc now ↔
      ∃ m ∈ acc.dirty, minuteBucket js settings acc.project now m (rowsAt acc m) = bucket := by
  rw [pending_eq_map]
  simp [List.mem_insertionSort]

/-- A flush stores every dirty minute, and leaves none. -/
theorem served_flush {js : Js} {settings : Settings} {arrived : List Arrival} {p : Project}
    (maxWriteBatch : PositiveInteger) (h : Served js settings arrived p) (now : ℤ) :
    ∃ next, flush js settings maxWriteBatch p now = .ok next ∧
      Served js settings arrived next ∧ next.acc.dirty = [] := by
  have hvalid : ∀ bucket ∈ pending js settings p.acc now, ValidBucket .minute bucket := by
    intro bucket hb
    obtain ⟨m, hm, rfl⟩ := mem_pending.mp hb
    obtain ⟨accepted, _, rfl⟩ := h.touched m hm
    exact ⟨h.project ▸ settings.project_ne, rfl, utcBucketStart_emod _ .minute, rfl⟩
  have hids : ((pending js settings p.acc now).map bucketId).Nodup := by
    rw [pending_eq_map, List.map_map]
    refine List.Nodup.map ?_ ((List.perm_insertionSort (· ≤ ·) p.acc.dirty).nodup_iff.mpr h.nodup)
    intro m m' heq
    exact (Prod.mk.inj heq).2
  have hdirty : (acknowledge p.acc (pending js settings p.acc now)).dirty = [] := by
    unfold acknowledge
    rw [List.filter_eq_nil_iff]
    intro m hm
    rw [Bool.not_eq_true', Bool.not_eq_false, List.any_eq_true]
    exact ⟨_, mem_pending.mpr ⟨m, hm, rfl⟩, by simp [minuteBucket]⟩
  -- What the store holds for a minute after the save.
  have hread : ∀ m, readBucket ((pending js settings p.acc now).foldl upsert p.store) .minute m =
      if m ∈ p.acc.dirty then
        some (minuteBucket js settings p.acc.project now m (rowsAt p.acc m))
      else readBucket p.store .minute m := by
    intro m
    rw [readBucket_foldl_upsert _ hids]
    split_ifs with hm
    · have hfind : (pending js settings p.acc now).find?
          (fun bucket => bucketId bucket = (.minute, m)) =
            some (minuteBucket js settings p.acc.project now m (rowsAt p.acc m)) := by
        have hsome : ((pending js settings p.acc now).find?
            (fun bucket => bucketId bucket = (.minute, m))).isSome := by
          rw [List.find?_isSome]
          exact ⟨_, mem_pending.mpr ⟨m, hm, rfl⟩, by simp [bucketId, minuteBucket]⟩
        obtain ⟨bucket, hbucket⟩ := Option.isSome_iff_exists.mp hsome
        obtain ⟨m', _, rfl⟩ := mem_pending.mp (List.mem_of_find?_eq_some hbucket)
        have hid := List.find?_some hbucket
        simp only [bucketId, minuteBucket, decide_eq_true_eq, Prod.mk.injEq, true_and] at hid
        rw [hbucket, hid]
      rw [hfind]
      rfl
    · have hnone : (pending js settings p.acc now).find?
          (fun bucket => bucketId bucket = (.minute, m)) = none := by
        rw [List.find?_eq_none]
        intro bucket hb heq
        obtain ⟨m', hm', rfl⟩ := mem_pending.mp hb
        simp only [bucketId, minuteBucket, decide_eq_true_eq, Prod.mk.injEq, true_and] at heq
        exact hm (heq ▸ hm')
      rw [hnone]
      rfl
  refine ⟨⟨acknowledge p.acc (pending js settings p.acc now),
    (pending js settings p.acc now).foldl upsert p.store⟩, ?_, ?_, hdirty⟩
  · unfold flush
    simp only [saveSlices_slices p.store hvalid]
    rfl
  · refine ⟨h.project, h.rows, h.normal, ?_, ?_, fun m hm => Or.inr ?_, fun m hm => ?_⟩
    · rw [hdirty]
      simp
    · rw [hdirty]
      exact List.nodup_nil
    · rw [hread]
      split_ifs with hd
      · exact ⟨now, rfl⟩
      · exact (h.stored m hm).resolve_left hd
    · rw [hread, if_neg fun hd => hm (h.touched m hd)]
      exact h.untouched m hm

theorem served_run {js : Js} {settings : Settings} {maxWriteBatch : PositiveInteger}
    {arrived : List Arrival} {p next : Project} {steps : List Step}
    (h : Served js settings arrived p)
    (hrun : run js settings maxWriteBatch p steps = .ok next) :
    Served js settings (arrived ++ arrivals steps) next := by
  induction steps generalizing p arrived with
  | nil =>
      cases hrun
      simpa [arrivals] using h
  | cons first rest ih =>
      simp only [run, bind_eq_ok_iff] at hrun
      obtain ⟨middle, hstep, hrest⟩ := hrun
      cases first with
      | arrive arrival =>
          simp only [step, bind_eq_ok_iff] at hstep
          obtain ⟨acc, hacc, hmiddle⟩ := hstep
          cases hmiddle
          have hnext := ih (served_arrive h hacc) hrest
          rw [List.append_assoc] at hnext
          exact hnext
      | flush now =>
          obtain ⟨flushed, hflushed, hserved, _⟩ := served_flush maxWriteBatch h now
          simp only [step, hflushed, Except.ok.injEq] at hstep
          exact ih (hstep ▸ hserved) hrest

/-! ## The stored minutes -/

section Clean

variable {js : Js} {settings : Settings} {arrived : List Arrival} {p : Project}

theorem Served.signed (h : Served js settings arrived p) (m : ℤ) (s : String × Kind × List ℚ) :
    s ∈ (rowsAt p.acc m).values.map (seriesMerge js).signature ↔
      s ∈ (acceptedAt js arrived m).map (seriesMerge js).signature := by
  obtain ⟨hkeyed, hsigned⟩ :=
    GuardedMerge.insertAll_ok (GuardedMerge.keyed_empty (seriesMerge js)) (h.rows m)
  rw [GuardedMerge.mem_values_signature hkeyed, hsigned]
  simp [GuardedMerge.Signed]

theorem mem_minuteBucket_rows {project : String} {now m : ℤ} {rows : Table String HistoricalRow}
    {row : HistoricalRow} :
    row ∈ (minuteBucket js settings project now m rows).rows ↔ row ∈ rows.values := by
  unfold minuteBucket Table.values
  simp only [List.mem_map, List.mem_insertionSort]

/-- A stored minute, once nothing is dirty. -/
theorem Served.minute (h : Served js settings arrived p) (hclean : p.acc.dirty = []) {m : ℤ}
    {bucket : Bucket} (hb : readBucket p.store .minute m = some bucket) :
    Touched arrived m ∧ m % 60000 = 0 ∧ bucket.bucketTo = m + 60000 ∧
      bucket.project = settings.project ∧ WellFormed js bucket ∧
      ∀ s, s ∈ bucket.rows.map (seriesMerge js).signature ↔
        s ∈ (acceptedAt js arrived m).map (seriesMerge js).signature := by
  have ht : Touched arrived m := by
    by_contra hn
    rw [h.untouched m hn] at hb
    cases hb
  have hm : m % 60000 = 0 := by
    obtain ⟨accepted, _, rfl⟩ := ht
    exact utcBucketStart_emod _ .minute
  obtain hd | ⟨now, hstored⟩ := h.stored m ht
  · rw [hclean] at hd
    cases hd
  · rw [hstored] at hb
    obtain rfl := Option.some.inj hb
    refine ⟨ht, hm, rfl, h.project, ⟨h.project ▸ settings.project_ne, hm, rfl, ?_⟩, fun s => ?_⟩
    · intro row hrow
      exact insertAll_normal (h.normal m) (h.rows m) row (mem_minuteBucket_rows.mp hrow)
    · rw [← h.signed]
      simp only [List.mem_map, mem_minuteBucket_rows]

/-- The minutes an hour or a day reads. -/
theorem Served.source (h : Served js settings arrived p) (hclean : p.acc.dirty = [])
    {lo hi : ℤ} {bucket : Bucket}
    (hb : bucket ∈ bucketsWithin p.store .minute lo hi) :
    SourceOf js settings.project lo hi bucket ∧ Touched arrived bucket.bucketFrom ∧
      ∀ s, s ∈ bucket.rows.map (seriesMerge js).signature ↔
        s ∈ (acceptedAt js arrived bucket.bucketFrom).map (seriesMerge js).signature := by
  rw [mem_bucketsWithin] at hb
  obtain ⟨hread, hlo, hhi⟩ := hb
  obtain ⟨ht, _, _, hproject, hwf, hsigned⟩ := h.minute hclean hread
  exact ⟨⟨hwf, hproject, hlo, hhi⟩, ht, hsigned⟩

/-- A touched minute is stored. -/
theorem Served.stored_minute (h : Served js settings arrived p) (hclean : p.acc.dirty = [])
    {m : ℤ} (ht : Touched arrived m) :
    ∃ bucket, readBucket p.store .minute m = some bucket ∧ bucket.bucketFrom = m ∧
      bucket.bucketTo = m + 60000 := by
  obtain hd | ⟨now, hstored⟩ := h.stored m ht
  · rw [hclean] at hd
    cases hd
  · exact ⟨_, hstored, rfl, rfl⟩

theorem touched_of_mem {m : ℤ} {row : HistoricalRow} (hrow : row ∈ acceptedAt js arrived m) :
    Touched arrived m := by
  obtain ⟨accepted, ha, hm, _⟩ := mem_acceptedAt.mp hrow
  exact ⟨accepted, ha, hm⟩

/-- The signatures an hour's minutes carry are those accepted for the hour. -/
theorem Served.signatures (h : Served js settings arrived p) (hclean : p.acc.dirty = [])
    (lo hi : ℤ) (s : String × Kind × List ℚ) :
    (∃ bucket ∈ bucketsWithin p.store .minute lo hi,
      s ∈ bucket.rows.map (seriesMerge js).signature) ↔
      s ∈ (acceptedIn js arrived lo hi).map (seriesMerge js).signature := by
  constructor
  · rintro ⟨bucket, hb, hs⟩
    obtain ⟨hsource, _, hsigned⟩ := h.source hclean hb
    obtain ⟨row, hrow, rfl⟩ := List.mem_map.mp ((hsigned s).mp hs)
    rw [mem_bucketsWithin] at hb
    have hwidth : bucket.bucketTo = bucket.bucketFrom + Tier.minute.width := by
      rw [hsource.wellFormed.width, (readBucket_id hb.1).1]
    refine List.mem_map.mpr ⟨row, mem_acceptedIn.mpr ⟨bucket.bucketFrom, hsource.fromLe, ?_, hrow⟩,
      rfl⟩
    rw [← hwidth]
    exact hsource.toLe
  · intro hs
    obtain ⟨row, hrow, rfl⟩ := List.mem_map.mp hs
    obtain ⟨m, hlo, hhi, hat⟩ := mem_acceptedIn.mp hrow
    obtain ⟨bucket, hb, rfl, hto⟩ := h.stored_minute hclean (touched_of_mem hat)
    have hin : bucket ∈ bucketsWithin p.store .minute lo hi :=
      (mem_bucketsWithin _ _ _ _ _).mpr ⟨hb, hlo, hto ▸ hhi⟩
    exact ⟨bucket, hin, ((h.source hclean hin).2.2 _).mpr (List.mem_map.mpr ⟨row, hat, rfl⟩)⟩

/-! ## Hours -/

theorem compactHour_eq (js : Js) (project : String) (store : Store) (finalized : Bool)
    (hour : ℤ) :
    compactHour js project store finalized hour =
      mergeHistoryBuckets js project .hour hour (hour + Tier.hour.width)
        (bucketsWithin store .minute hour (hour + Tier.hour.width)) finalized := by
  have hlt : hour < hour + Tier.hour.width := Int.lt_add_of_pos_right hour (by decide)
  have hday : hour + Tier.hour.width - hour ≤ 86400000 := by
    rw [add_sub_cancel_left]
    decide
  unfold compactHour
  rw [readBuckets_ok store .minute hlt hday]
  rfl

theorem compactHour_isOk_iff (h : Served js settings arrived p) (hclean : p.acc.dirty = [])
    (finalized : Bool) {hour : ℤ} (ha : hour % Tier.hour.width = 0) :
    (∃ bucket, compactHour js settings.project p.store finalized hour = .ok bucket) ↔
      SameBounds js (acceptedIn js arrived hour (hour + Tier.hour.width)) := by
  rw [compactHour_eq, mergeHistoryBuckets_isOk_iff finalized settings.project_ne ha
    fun bucket hb => (h.source hclean hb).1, agree_congr (h.signatures hclean _ _),
    agree_iff_sameBounds]

/-- A merged hour carries the signatures accepted for it. -/
theorem compactHour_spec (h : Served js settings arrived p) (hclean : p.acc.dirty = [])
    {finalized : Bool} {hour : ℤ} (ha : hour % Tier.hour.width = 0) {bucket : Bucket}
    (hb : compactHour js settings.project p.store finalized hour = .ok bucket) :
    SourceOf js settings.project hour (hour + Tier.hour.width) bucket ∧
      ∀ s, s ∈ bucket.rows.map (seriesMerge js).signature ↔
        s ∈ (acceptedIn js arrived hour (hour + Tier.hour.width)).map
          (seriesMerge js).signature := by
  rw [compactHour_eq] at hb
  have hsources : ∀ source ∈ bucketsWithin p.store .minute hour (hour + Tier.hour.width),
      SourceOf js settings.project hour (hour + Tier.hour.width) source :=
    fun source hs => (h.source hclean hs).1
  obtain ⟨merged, hmerged, rfl⟩ :=
    (mergeHistoryBuckets_ok_iff finalized settings.project_ne ha hsources bucket).mp hb
  obtain ⟨hkeyed, hsigned⟩ :=
    GuardedMerge.insertAll_ok (GuardedMerge.keyed_empty (seriesMerge js)) hmerged
  have hnormal : ∀ row ∈ sourceRows js (bucketsWithin p.store .minute hour
      (hour + Tier.hour.width)), NormalRow js row := by
    intro row hrow
    obtain ⟨source, hs, hr⟩ := mem_sourceRows.mp hrow
    exact (hsources source hs).wellFormed.rows row hr
  refine ⟨⟨⟨settings.project_ne, ha, rfl, ?_⟩, rfl, le_rfl, le_rfl⟩, fun s => ?_⟩
  · intro row hrow
    exact insertAll_normal hnormal hmerged row ((sortRows_perm js _).mem_iff.mp hrow)
  · rw [← h.signatures hclean, ← mem_sourceRows_signature]
    simp only [((sortRows_perm js merged.values).map _).mem_iff,
      GuardedMerge.mem_values_signature hkeyed, hsigned]
    simp [GuardedMerge.Signed]

/-! ## Days -/

theorem mem_sourceHours (store : Store) (day hour : ℤ) :
    hour ∈ sourceHours store day ↔
      (∃ i : ℕ, i < 24 ∧ hour = day + i * 3600000) ∧
        ∃ bucket, bucket ∈ bucketsWithin store .minute hour (hour + Tier.hour.width) := by
  unfold sourceHours
  simp only [List.mem_filter, List.mem_map, List.mem_range, Bool.not_eq_true',
    List.isEmpty_eq_false_iff_exists_mem, Tier.width]
  constructor
  · rintro ⟨⟨i, hi, rfl⟩, hne⟩
    exact ⟨⟨i, hi, rfl⟩, hne⟩
  · rintro ⟨⟨i, hi, rfl⟩, hne⟩
    exact ⟨⟨i, hi, rfl⟩, hne⟩

/-- Every minute of a day lies in one of its hours. -/
theorem hour_of_minute {day m : ℤ} (hd : day % 86400000 = 0) (hm : m % 60000 = 0) (hlo : day ≤ m)
    (hhi : m + 60000 ≤ day + 86400000) :
    ∃ i : ℕ, i < 24 ∧ day + i * 3600000 ≤ m ∧ m + 60000 ≤ day + i * 3600000 + 3600000 := by
  refine ⟨((m - day) / 3600000).toNat, ?_, ?_, ?_⟩ <;> omega

/-- The rows accepted for a day are those accepted for its hours with minutes. -/
theorem Served.mem_acceptedIn_day (h : Served js settings arrived p) (hclean : p.acc.dirty = [])
    {day : ℤ} (hd : day % 86400000 = 0) (row : HistoricalRow) :
    row ∈ acceptedIn js arrived day (day + 86400000) ↔
      ∃ hour ∈ sourceHours p.store day, row ∈ acceptedIn js arrived hour (hour + 3600000) := by
  simp only [mem_acceptedIn, mem_sourceHours, Tier.width]
  constructor
  · rintro ⟨m, hlo, hhi, hat⟩
    obtain ⟨bucket, hb, rfl, hto⟩ := h.stored_minute hclean (touched_of_mem hat)
    obtain ⟨_, hm, _⟩ := h.minute hclean hb
    obtain ⟨i, hi, hfrom, hend⟩ := hour_of_minute hd hm hlo hhi
    refine ⟨_, ⟨⟨i, hi, rfl⟩, bucket, ?_⟩, _, hfrom, hend, hat⟩
    exact (mem_bucketsWithin _ _ _ _ _).mpr ⟨hb, hfrom, hto ▸ hend⟩
  · rintro ⟨_, ⟨⟨i, hi, rfl⟩, _⟩, m, hlo, hhi, hat⟩
    exact ⟨m, by omega, by omega, hat⟩

theorem compactDay_isOk_iff (h : Served js settings arrived p) (hclean : p.acc.dirty = [])
    (finalized : Bool) {day : ℤ} (hd : day % 86400000 = 0) :
    (∃ bucket, compactDay js settings.project p.store finalized day = .ok bucket) ↔
      SameBounds js (acceptedIn js arrived day (day + 86400000)) := by
  have haligned : ∀ hour ∈ sourceHours p.store day, hour % Tier.hour.width = 0 := by
    intro hour hh
    obtain ⟨⟨i, _, rfl⟩, _⟩ := (mem_sourceHours _ _ _).mp hh
    simp only [Tier.width]
    omega
  have hinside : ∀ hour ∈ sourceHours p.store day, day ≤ hour ∧ hour + 3600000 ≤ day + 86400000 := by
    intro hour hh
    obtain ⟨⟨i, _, rfl⟩, _⟩ := (mem_sourceHours _ _ _).mp hh
    omega
  have hhours := fun hour (hh : hour ∈ sourceHours p.store day) =>
    compactHour_isOk_iff h hclean true (haligned hour hh)
  -- Once the hours are merged, the day merge sees the signatures of the whole day.
  have hmerge : ∀ hours, mapAll (compactHour js settings.project p.store true)
      (sourceHours p.store day) = .ok hours →
      ((∃ bucket, mergeHistoryBuckets js settings.project .day day (day + Tier.day.width) hours
        finalized = .ok bucket) ↔ SameBounds js (acceptedIn js arrived day (day + 86400000))) := by
    intro hours hok
    rw [mapAll_eq_ok_iff] at hok
    have hpair : ∀ bucket ∈ hours, ∃ hour ∈ sourceHours p.store day,
        compactHour js settings.project p.store true hour = .ok bucket := by
      intro bucket hb
      obtain ⟨i, hi, rfl⟩ := List.mem_iff_getElem.mp hb
      have hlen := hok.length_eq
      exact ⟨_, List.getElem_mem (hlen ▸ hi), List.Forall₂.get hok (hlen ▸ hi) hi⟩
    have hpair' : ∀ hour ∈ sourceHours p.store day, ∃ bucket ∈ hours,
        compactHour js settings.project p.store true hour = .ok bucket := by
      intro hour hh
      obtain ⟨i, hi, rfl⟩ := List.mem_iff_getElem.mp hh
      have hlen := hok.length_eq
      exact ⟨_, List.getElem_mem (hlen ▸ hi), List.Forall₂.get hok hi (hlen ▸ hi)⟩
    have hsource : ∀ bucket ∈ hours,
        SourceOf js settings.project day (day + Tier.day.width) bucket := by
      intro bucket hb
      obtain ⟨hour, hh, hcompact⟩ := hpair bucket hb
      obtain ⟨hspec, _⟩ := compactHour_spec h hclean (haligned hour hh) hcompact
      obtain ⟨hlo, hhi⟩ := hinside hour hh
      exact ⟨hspec.wellFormed, hspec.project, hlo.trans hspec.fromLe, hspec.toLe.trans hhi⟩
    have hsigned : ∀ s, (∃ bucket ∈ hours, s ∈ bucket.rows.map (seriesMerge js).signature) ↔
        s ∈ (acceptedIn js arrived day (day + 86400000)).map (seriesMerge js).signature := by
      intro s
      constructor
      · rintro ⟨bucket, hb, hs⟩
        obtain ⟨hour, hh, hcompact⟩ := hpair bucket hb
        obtain ⟨_, hspec⟩ := compactHour_spec h hclean (haligned hour hh) hcompact
        obtain ⟨row, hrow, rfl⟩ := List.mem_map.mp ((hspec s).mp hs)
        exact List.mem_map.mpr ⟨row, (h.mem_acceptedIn_day hclean hd row).mpr ⟨hour, hh, hrow⟩, rfl⟩
      · intro hs
        obtain ⟨row, hrow, rfl⟩ := List.mem_map.mp hs
        obtain ⟨hour, hh, hin⟩ := (h.mem_acceptedIn_day hclean hd row).mp hrow
        obtain ⟨bucket, hb, hcompact⟩ := hpair' hour hh
        obtain ⟨_, hspec⟩ := compactHour_spec h hclean (haligned hour hh) hcompact
        exact ⟨bucket, hb, (hspec _).mpr (List.mem_map.mpr ⟨row, hin, rfl⟩)⟩
    rw [mergeHistoryBuckets_isOk_iff finalized settings.project_ne hd hsource,
      agree_congr hsigned, agree_iff_sameBounds]
  unfold compactDay
  simp only [bind_eq_ok_iff]
  constructor
  · rintro ⟨bucket, hours, hok, hb⟩
    exact (hmerge hours hok).mp ⟨bucket, hb⟩
  · intro hsame
    have hok : ∃ hours, mapAll (compactHour js settings.project p.store true)
        (sourceHours p.store day) = .ok hours := by
      rw [mapAll_isOk_iff]
      intro hour hh
      refine (hhours hour hh).mpr ?_
      intro a ha b hb
      exact hsame a ((h.mem_acceptedIn_day hclean hd a).mpr ⟨hour, hh, ha⟩) b
        ((h.mem_acceptedIn_day hclean hd b).mpr ⟨hour, hh, hb⟩)
    obtain ⟨hours, hhours⟩ := hok
    obtain ⟨bucket, hb⟩ := (hmerge hours hhours).mpr hsame
    exact ⟨bucket, hours, hhours, hb⟩

end Clean

/-- An hour's rows are among its day's. -/
theorem acceptedIn_hour_subset {js : Js} {arrived : List Arrival} {hour : ℤ}
    (hh : hour % 3600000 = 0) {row : HistoricalRow}
    (hrow : row ∈ acceptedIn js arrived hour (hour + 3600000)) :
    row ∈ acceptedIn js arrived (hour / 86400000 * 86400000)
      (hour / 86400000 * 86400000 + 86400000) := by
  obtain ⟨m, hlo, hhi, hat⟩ := mem_acceptedIn.mp hrow
  exact mem_acceptedIn.mpr ⟨m, by omega, by omega, hat⟩

/-- A client reporting one latency under one bound, in a frame from `start`. -/
def latencyAt (start bound : ℚ) : Arrival where
  persistLogs := []
  envelope :=
    { protocol := 1
      project := "shop"
      sdk := ⟨"wardx", "1.0.0"⟩
      client := ⟨"i-1", "s-1", "web", "1.0.0", "prod", "browser", none, none⟩
      configVersion := 1
      configContext := none
      frames := [⟨0, start, start + 1000,
        ⟨[], [], [⟨"latency", none, 1, 1, 1, 1, [(bound, 1)], none⟩], none⟩, [], []⟩] }

theorem shop_ne : "shop" ≠ "" := by decide

theorem one_ms_pos : (1 : ℤ) ≤ 1 := le_rfl

def shopSettings : Settings where
  project := "shop"
  clockSkewAllowanceMs := 1
  maxAppVersions := 1
  project_ne := shop_ne
  clockSkewAllowanceMs_pos := one_ms_pos
  maxAppVersions_pos := Nat.zero_lt_succ _

def oneAtATime : PositiveInteger := ⟨1, Nat.zero_lt_succ _⟩

/-- A release changes the bound of `latency` between two minutes of one hour. -/
def boundChange : List Step := [.arrive (latencyAt 0 1), .arrive (latencyAt 60000 2)]

/-- Run the steps, flush, and merge the first hour. -/
def firstHourAfter (steps : List Step) : Except String (Except String Bucket) := do
  let p ← run Js.plain shopSettings oneAtATime ⟨Accumulator.init shopSettings, Store.empty⟩ steps
  let flushed ← flush Js.plain shopSettings oneAtATime p 0
  pure (compactHour Js.plain shopSettings.project flushed.store true 0)

end Wardx.HistoryCompaction
