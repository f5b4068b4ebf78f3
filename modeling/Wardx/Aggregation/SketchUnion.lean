import Wardx.Aggregation.CompactionExact
import Wardx.Aggregation.Completeness
import Wardx.Core.Sketch

/-!
# A sketch from end to end

Wherever the server merges sketches it joins their registers: in a minute window
in memory, in the history of a minute, and when minutes are merged into an hour
and hours into a day. So each of these holds the join of the sketches that
arrived for it, and where these are all that some instances sent, the registers
of one sketch fed what all of them were fed.

A series that the cap of its name keeps out of a window has no registers there.
A window that is dropped as old starts anew when a frame comes for it.
-/
namespace Wardx.HyperLogLog

open Lib Json Control

/-! ## Bodies -/

/-- `normalizeHllBody`. -/
def normalizeHllBody (body : Json) : Except String Json := do
  let registers ← decodeHllBody body
  pure registers.body

/-- `mergeHllBodies`, from the bodies. -/
def mergeDecoded (left right : Json) : Except String Json := do
  let merged ← decodeHllBody left
  let incoming ← decodeHllBody right
  pure (mergeHllBodies merged incoming).body

/-- Two accepted bodies merge to one that is accepted as the join. -/
theorem mergeDecoded_ok {left right : Json} {a b : Registers} (ha : decodeHllBody left = .ok a)
    (hb : decodeHllBody right = .ok b) :
    mergeDecoded left right = .ok (a ⊔ b).body ∧ decodeHllBody (a ⊔ b).body = .ok (a ⊔ b) := by
  refine ⟨?_, decodeHllBody_body _⟩
  unfold mergeDecoded
  rw [ha, hb]
  rfl

theorem normalizeHllBody_ok {body : Json} {a : Registers} (ha : decodeHllBody body = .ok a) :
    normalizeHllBody body = .ok a.body := by
  unfold normalizeHllBody
  rw [ha]
  rfl

/-- An accepted body spells its registers as they are encoded. -/
theorem text_of_decodeHllBody {body : Json} {registers : Registers}
    (h : decodeHllBody body = .ok registers) :
    text? (body.get? "registers") = some registers.text := by
  unfold decodeHllBody at h
  rw [bind_eq_ok_iff] at h
  obtain ⟨_, -, h⟩ := h
  rw [bind_eq_ok_iff] at h
  obtain ⟨_, -, h⟩ := h
  rw [bind_eq_ok_iff] at h
  obtain ⟨_, -, h⟩ := h
  cases htext : text? (body.get? "registers") with
  | none =>
      rw [htext] at h
      cases h
  | some text =>
      rw [htext] at h
      simp only [bind_eq_ok_iff] at h
      obtain ⟨_, hcanonical, h⟩ := h
      rw [require_eq_ok_iff, decide_eq_true_eq] at hcanonical
      split_ifs at h
      cases h
      unfold Registers.text
      dsimp only
      rw [hcanonical, String.ofList_toList]

/-- What a series of sketches holds; nothing before the first. -/
def unionOf : List Registers → Option Registers
  | [] => none
  | sketch :: sketches => some (union (sketch :: sketches))

theorem unionOf_congr {sketches others : List Registers}
    (h : ∀ sketch, sketch ∈ sketches ↔ sketch ∈ others) : unionOf sketches = unionOf others := by
  cases sketches with
  | nil =>
      cases others with
      | nil => rfl
      | cons other others => exact absurd ((h other).mpr List.mem_cons_self) List.not_mem_nil
  | cons sketch sketches =>
      cases others with
      | nil => exact absurd ((h sketch).mp List.mem_cons_self) List.not_mem_nil
      | cons other others => exact congrArg some (union_congr h)

theorem unionOf_eq_some {sketches : List Registers} {registers : Registers}
    (h : unionOf sketches = some registers) : registers = union sketches := by
  cases sketches with
  | nil => cases h
  | cons sketch sketches => exact (Option.some.inj h).symm

theorem unionOf_of_ne_nil {sketches : List Registers} (h : sketches ≠ []) :
    unionOf sketches = some (union sketches) := by
  cases sketches with
  | nil => exact absurd rfl h
  | cons sketch sketches => rfl

end Wardx.HyperLogLog

namespace Wardx.HistoryBucket

open Lib HyperLogLog

/-! ## Rows of history -/

def sketchOf (row : HistoricalRow) : Option Registers :=
  match row.body with
  | .distinct distinct => some distinct.registers
  | _ => none

/-- The sketches among the rows under a key. -/
def sketchesAt (js : Js) (rows : List HistoricalRow) (key : String) : List Registers :=
  rows.filterMap fun row => if historicalSeriesKey js row = key then sketchOf row else none

theorem mem_sketchesAt {js : Js} {rows : List HistoricalRow} {key : String} {registers : Registers} :
    registers ∈ sketchesAt js rows key ↔
      ∃ row ∈ rows, historicalSeriesKey js row = key ∧ sketchOf row = some registers := by
  unfold sketchesAt
  rw [List.mem_filterMap]
  apply exists_congr
  intro row
  apply and_congr_right
  intro _
  split_ifs with hkey
  · simp [hkey]
  · simp [hkey]

theorem sketchesAt_flatMap {ι : Type} (js : Js) (parts : List ι) (rows : ι → List HistoricalRow)
    (key : String) :
    sketchesAt js (parts.flatMap rows) key = parts.flatMap fun part => sketchesAt js (rows part) key := by
  unfold sketchesAt
  rw [List.filterMap_flatMap]

theorem ranksAt_bot : ranksAt ⊥ = 0 := by
  funext i
  apply Joined.ext
  show (List.replicate registerCount 0).getD i 0 = 0
  rw [List.getD_eq_getElem?_getD, List.getElem?_replicate]
  split_ifs <;> rfl

/-- The ranks of an amount. -/
def ranks (amount : Amount) : ℕ → Joined ℕ := amount.2.2.2.2.2.2

theorem ranks_add (a b : Amount) : ranks (a + b) = ranks a + ranks b := rfl

theorem ranks_amount (row : HistoricalRow) :
    ranks row.amount = ranksAt ((sketchOf row).getD ⊥) := by
  unfold HistoricalRow.amount sketchOf
  cases row.body with
  | distinct distinct => rfl
  | _ => exact ranksAt_bot.symm

theorem ranks_total (js : Js) (rows : List HistoricalRow) (key : String) :
    ranks ((seriesMerge js).total HistoricalRow.amount rows key) =
      ranksAt (union (sketchesAt js rows key)) := by
  induction rows with
  | nil => exact ranksAt_bot.symm
  | cons row rows ih =>
      rw [GuardedMerge.total_cons, ranks_add, ih]
      unfold sketchesAt
      by_cases hkey : historicalSeriesKey js row = key
      · have hkey' : (seriesMerge js).key row = key := hkey
        rw [if_pos hkey', ranks_amount]
        cases hsketch : sketchOf row with
        | none =>
            rw [List.filterMap_cons_none (by rw [if_pos hkey, hsketch])]
            show ranksAt ⊥ + _ = _
            rw [ranksAt_bot, zero_add]
        | some registers =>
            rw [List.filterMap_cons_some (by rw [if_pos hkey, hsketch]), union_cons, sup_eq_merge,
              ranksAt_merge]
            rfl
      · have hkey' : (seriesMerge js).key row ≠ key := hkey
        rw [if_neg hkey', List.filterMap_cons_none (by rw [if_neg hkey])]
        exact zero_add _

theorem sketchOf_isSome_iff (row : HistoricalRow) :
    (sketchOf row).isSome ↔ row.kind = .distinct := by
  unfold sketchOf HistoricalRow.kind RowBody.kind
  cases row.body <;> simp

/-- A merge of rows holds the union of the sketches under each key. -/
theorem Merges.sketch {js : Js} {rows : List HistoricalRow} {t : Table String HistoricalRow}
    (h : Merges js rows t) (key : String) :
    (t.get key).bind sketchOf = unionOf (sketchesAt js rows key) := by
  have hnil : (∀ row ∈ rows, historicalSeriesKey js row = key → row.kind ≠ .distinct) →
      sketchesAt js rows key = [] := by
    intro hnone
    rw [List.eq_nil_iff_forall_not_mem]
    intro registers hmem
    obtain ⟨row, hrow, hkey, hsketch⟩ := mem_sketchesAt.mp hmem
    apply hnone row hrow hkey
    rw [← sketchOf_isSome_iff, hsketch]
    rfl
  cases hget : t.get key with
  | none =>
      have hnone := (h.get_eq_none_iff key).mp hget
      rw [hnil fun row hrow hkey => absurd hkey (hnone row hrow)]
      rfl
  | some held =>
      have hheldKey : historicalSeriesKey js held = key := h.keyed key held hget
      have hamount := h.amount key
      unfold GuardedMerge.held at hamount
      rw [hget] at hamount
      have hranks := ranks_total js rows key
      rw [← hamount] at hranks
      change ranks held.amount = _ at hranks
      rw [ranks_amount] at hranks
      have hunion := ranksAt_injective hranks
      cases hsketch : sketchOf held with
      | none =>
          rw [hnil, Option.bind_some, hsketch]
          · rfl
          · intro row hrow hkey hkind
            have hsame := kind_eq_of_key_eq (hheldKey.trans hkey.symm)
            have hsome := (sketchOf_isSome_iff held).mpr (hsame.trans hkind)
            rw [hsketch] at hsome
            cases hsome
      | some registers =>
          obtain ⟨row, hrow, hkey, -⟩ := h.origin key held hget
          have hsame := kind_eq_of_key_eq (hkey.trans hheldKey.symm)
          have hkind : held.kind = .distinct := by
            rw [← sketchOf_isSome_iff, hsketch]
            rfl
          have hrowSome := (sketchOf_isSome_iff row).mpr (hsame.trans hkind)
          obtain ⟨found, hfound⟩ := Option.isSome_iff_exists.mp hrowSome
          have hmem : found ∈ sketchesAt js rows key := mem_sketchesAt.mpr ⟨row, hrow, hkey, hfound⟩
          rw [Option.bind_some, hsketch, unionOf_of_ne_nil (List.ne_nil_of_mem hmem), ← hunion, hsketch]
          rfl

end Wardx.HistoryBucket

namespace Wardx.HistoryCompaction

open Lib HyperLogLog HistoryBucket HistoryAccumulator HistoryStore

/-! ## Minutes, hours and days -/

/-- The sketch that a bucket has under a key. -/
def bucketSketch (js : Js) (bucket : Bucket) (key : String) : Option Registers :=
  (rowMap js bucket key).bind sketchOf

/-- The union of a bucket's sketches under a key is the one it has. -/
theorem bucketSketch_eq {js : Js} {rows : List HistoricalRow} {t : Table String HistoricalRow}
    (h : Merges js rows t) {bucket : Bucket} (hrows : bucket.rows.Perm t.values) (key : String) :
    unionOf (sketchesAt js bucket.rows key) = unionOf (sketchesAt js rows key) := by
  rw [← h.sketch key]
  have hself : ∀ row ∈ t.values, t.get (historicalSeriesKey js row) = some row := by
    intro row hrow
    obtain ⟨⟨k, r⟩, hentry, rfl⟩ := List.mem_map.mp hrow
    have hget := (Table.get_eq_some_iff ..).mpr hentry
    have hkey : historicalSeriesKey js r = k := h.keyed k r hget
    rw [hkey]
    exact hget
  have hmem : ∀ registers, registers ∈ sketchesAt js bucket.rows key ↔
      (t.get key).bind sketchOf = some registers := by
    intro registers
    rw [mem_sketchesAt]
    constructor
    · intro hfound
      obtain ⟨row, hrow, rfl, hsketch⟩ := hfound
      rw [hself row (hrows.mem_iff.mp hrow), Option.bind_some, hsketch]
    · intro hsome
      obtain ⟨row, hget, hsketch⟩ := Option.bind_eq_some_iff.mp hsome
      refine ⟨row, hrows.mem_iff.mpr ?_, h.keyed key row hget, hsketch⟩
      exact List.mem_map_of_mem ((Table.get_eq_some_iff ..).mp hget)
  cases hheld : (t.get key).bind sketchOf with
  | none =>
      have hnil : sketchesAt js bucket.rows key = [] := by
        rw [List.eq_nil_iff_forall_not_mem]
        intro registers hfound
        have hsome := (hmem registers).mp hfound
        rw [hheld] at hsome
        cases hsome
      rw [hnil]
      rfl
  | some registers =>
      have hsingle : ∀ found, found ∈ sketchesAt js bucket.rows key ↔ found ∈ [registers] := by
        intro found
        rw [hmem, hheld, List.mem_singleton, Option.some.injEq, eq_comm]
      rw [unionOf_congr hsingle]
      show some (registers ⊔ ⊥) = some registers
      rw [sup_bot_eq]

/-- A period merged from buckets has the union of their sketches. -/
theorem bucketSketch_merged {js : Js} {project : String} {tier : Tier} {bucketFrom : ℤ}
    {sources : List Bucket} {finalized : Bool} {result : Bucket} (hproject : project ≠ "")
    (haligned : bucketFrom % tier.width = 0)
    (hsources : ∀ bucket ∈ sources, SourceOf js project bucketFrom (bucketFrom + tier.width) bucket)
    (h : mergeHistoryBuckets js project tier bucketFrom (bucketFrom + tier.width) sources finalized =
      .ok result) (key : String) :
    bucketSketch js result key = unionOf (sketchesAt js (sources.flatMap Bucket.rows) key) ∧
      unionOf (sketchesAt js result.rows key) =
        unionOf (sketchesAt js (sources.flatMap Bucket.rows) key) := by
  obtain ⟨t, ht, rfl⟩ := (mergeHistoryBuckets_ok_iff finalized hproject haligned hsources result).mp h
  have hnormal : ∀ row ∈ sourceRows js sources, NormalRow js row := by
    intro row hrow
    obtain ⟨bucket, hbucket, hmem⟩ := mem_sourceRows.mp hrow
    exact (hsources bucket hbucket).wellFormed.rows row hmem
  have hmerges := (merges_insertAll
    (fun row hrow => congrArg HistoricalRow.body (hnormal row hrow).fixed) ht).perm
      (sourceRows_perm js sources)
  refine ⟨?_, bucketSketch_eq hmerges (sortRows_perm js t.values) key⟩
  rw [← hmerges.sketch key]
  unfold bucketSketch rowMap
  rw [find_sortRows hmerges.keyed]

theorem unionOf_eq_iff {sketches others : List Registers} :
    unionOf sketches = unionOf others ↔
      (sketches = [] ↔ others = []) ∧ union sketches = union others := by
  cases sketches with
  | nil =>
      cases others with
      | nil => simp
      | cons other others => simp [unionOf]
  | cons sketch sketches =>
      cases others with
      | nil => simp [unionOf]
      | cons other others => simp [unionOf]

/-- Parts with the unions of other parts join to the same. -/
theorem unionOf_flatMap_congr {ι κ : Type} {f : ι → List Registers} {g : κ → List Registers}
    {parts : List ι} {others : List κ}
    (h : List.Forall₂ (fun part other => unionOf (f part) = unionOf (g other)) parts others) :
    unionOf (parts.flatMap f) = unionOf (others.flatMap g) := by
  induction h with
  | nil => rfl
  | cons hpart hrest ih =>
      rw [unionOf_eq_iff] at hpart ih ⊢
      rw [List.flatMap_cons, List.flatMap_cons, union_append, union_append, hpart.2, ih.2,
        List.append_eq_nil_iff, List.append_eq_nil_iff, hpart.1, ih.1]
      exact ⟨Iff.rfl, rfl⟩

section
variable {js : Js} {settings : Settings} {arrived : List Arrival} {p : Project}

/-- A minute in memory has the union of the sketches accepted for it. -/
theorem Served.sketch (h : Served js settings arrived p) (m : ℤ) (key : String) :
    ((rowsAt p.acc m).get key).bind sketchOf = unionOf (sketchesAt js (acceptedAt js arrived m) key) :=
  (h.merges m).sketch key

/-- And so has the minute that is stored. -/
theorem Served.stored_sketch (h : Served js settings arrived p) (hclean : p.acc.dirty = []) {m : ℤ}
    {bucket : Bucket} (hb : readBucket p.store .minute m = some bucket) (key : String) :
    unionOf (sketchesAt js bucket.rows key) = unionOf (sketchesAt js (acceptedAt js arrived m) key) := by
  have ht := (h.minute hclean hb).1
  cases h.stored m ht with
  | inl hd =>
      rw [hclean] at hd
      cases hd
  | inr hstored =>
      obtain ⟨now, hstored⟩ := hstored
      rw [hstored] at hb
      obtain rfl := Option.some.inj hb
      refine bucketSketch_eq (h.merges m) ?_ key
      show (((rowsAt p.acc m).entries.insertionSort _).map Prod.snd).Perm _
      exact (List.perm_insertionSort _ _).map _

/-- The sketches of the stored minutes of a period are those accepted for it. -/
theorem Served.period_sketch (h : Served js settings arrived p) (hclean : p.acc.dirty = [])
    (lo hi : ℤ) (key : String) :
    unionOf (sketchesAt js ((bucketsWithin p.store .minute lo hi).flatMap Bucket.rows) key) =
      unionOf (sketchesAt js (acceptedIn js arrived lo hi) key) := by
  rw [sketchesAt_flatMap]
  have hparts : unionOf ((bucketsWithin p.store .minute lo hi).flatMap fun bucket =>
        sketchesAt js bucket.rows key) =
      unionOf ((bucketsWithin p.store .minute lo hi).flatMap fun bucket =>
        sketchesAt js (acceptedAt js arrived bucket.bucketFrom) key) := by
    apply unionOf_flatMap_congr
    rw [List.forall₂_same]
    intro bucket hbucket
    exact h.stored_sketch hclean ((mem_bucketsWithin ..).mp hbucket).1 key
  rw [hparts, ← sketchesAt_flatMap]
  apply unionOf_congr
  intro registers
  rw [mem_sketchesAt, mem_sketchesAt]
  apply exists_congr
  intro row
  apply and_congr_left
  intro _
  rw [mem_acceptedIn, List.mem_flatMap]
  constructor
  · intro hrow
    obtain ⟨bucket, hbucket, hrow⟩ := hrow
    have hsource := (h.source hclean hbucket).1
    have hwidth : bucket.bucketTo = bucket.bucketFrom + Tier.minute.width := by
      rw [hsource.wellFormed.width, (readBucket_id ((mem_bucketsWithin ..).mp hbucket).1).1]
    refine ⟨bucket.bucketFrom, hsource.fromLe, ?_, hrow⟩
    rw [← hwidth]
    exact hsource.toLe
  · intro hrow
    obtain ⟨m, hlo, hhi, hat⟩ := hrow
    obtain ⟨bucket, hb, rfl, hto⟩ := h.stored_minute hclean (touched_of_mem hat)
    exact ⟨bucket, (mem_bucketsWithin ..).mpr ⟨hb, hlo, hto ▸ hhi⟩, hat⟩

/-- A merged hour has the union of the sketches accepted for it. -/
theorem Served.hour_sketch (h : Served js settings arrived p) (hclean : p.acc.dirty = [])
    {finalized : Bool} {hour : ℤ} (ha : hour % Tier.hour.width = 0) {bucket : Bucket}
    (hb : compactHour js settings.project p.store finalized hour = .ok bucket) (key : String) :
    bucketSketch js bucket key =
        unionOf (sketchesAt js (acceptedIn js arrived hour (hour + Tier.hour.width)) key) ∧
      unionOf (sketchesAt js bucket.rows key) =
        unionOf (sketchesAt js (acceptedIn js arrived hour (hour + Tier.hour.width)) key) := by
  rw [compactHour_eq] at hb
  have hmerged := bucketSketch_merged settings.project_ne ha
    (fun source hs => (h.source hclean hs).1) hb key
  rw [h.period_sketch hclean] at hmerged
  exact hmerged

/-- A merged day has the union of the sketches accepted for it. -/
theorem Served.day_sketch (h : Served js settings arrived p) (hclean : p.acc.dirty = [])
    {finalized : Bool} {day : ℤ} (hd : day % Tier.day.width = 0) {bucket : Bucket}
    (hb : compactDay js settings.project p.store finalized day = .ok bucket) (key : String) :
    bucketSketch js bucket key =
      unionOf (sketchesAt js (acceptedIn js arrived day (day + Tier.day.width)) key) := by
  unfold compactDay at hb
  rw [bind_eq_ok_iff] at hb
  obtain ⟨hours, hhours, hb⟩ := hb
  rw [mapAll_eq_ok_iff] at hhours
  have hhour : ∀ hour ∈ sourceHours p.store day,
      hour % Tier.hour.width = 0 ∧ day ≤ hour ∧ hour + Tier.hour.width ≤ day + Tier.day.width := by
    intro hour hmem
    obtain ⟨⟨i, hi, rfl⟩, -⟩ := (mem_sourceHours _ _ _).mp hmem
    simp only [Tier.width] at hd ⊢
    omega
  have hsources : ∀ source ∈ hours,
      SourceOf js settings.project day (day + Tier.day.width) source := by
    intro source hmem
    obtain ⟨i, hi, rfl⟩ := List.mem_iff_getElem.mp hmem
    have hi' : i < (sourceHours p.store day).length := hhours.length_eq ▸ hi
    obtain ⟨haligned, hlo, hhi⟩ := hhour _ (List.getElem_mem hi')
    obtain ⟨hspec, -⟩ := compactHour_spec h hclean haligned (List.Forall₂.get hhours hi' hi)
    exact ⟨hspec.wellFormed, hspec.project, hlo.trans hspec.fromLe, hspec.toLe.trans hhi⟩
  rw [(bucketSketch_merged settings.project_ne hd hsources hb key).1, sketchesAt_flatMap]
  have hparts : unionOf (hours.flatMap fun source => sketchesAt js source.rows key) =
      unionOf ((sourceHours p.store day).flatMap fun hour =>
        sketchesAt js (acceptedIn js arrived hour (hour + Tier.hour.width)) key) := by
    symm
    apply unionOf_flatMap_congr
    rw [List.forall₂_iff_get]
    refine ⟨hhours.length_eq, fun i hi hi' => ?_⟩
    have haligned := (hhour _ (List.getElem_mem hi)).1
    exact (h.hour_sketch hclean haligned (List.Forall₂.get hhours hi hi') key).2.symm
  rw [hparts, ← sketchesAt_flatMap]
  apply unionOf_congr
  intro registers
  rw [mem_sketchesAt, mem_sketchesAt]
  apply exists_congr
  intro row
  apply and_congr_left
  intro _
  rw [List.mem_flatMap]
  exact (h.mem_acceptedIn_day hclean hd row).symm

end

end Wardx.HistoryCompaction

namespace Wardx.FrameAggregator

open Lib Json HyperLogLog

/-! ## Windows in memory -/

/-- A sync request. -/
structure Request where
  envelope : Envelope
  persistLogs : List String
  now : ℚ

section
variable (js : Js) (limits : Limits) (minute : ℤ) (key : String)

def receive (request : Request) (aggregator : Aggregator) : Aggregator :=
  step js limits (.request request.envelope request.persistLogs request.now) aggregator

/-- The sketches a frame brings to the series of a key in a minute. -/
def frameSketches (role : String) (frame : Frame) : List Registers :=
  if minuteFloor frame.frameFrom = minute then
    (frame.metrics.distincts.getD []).filterMap fun row =>
      if seriesKey js role row.name row.dimensions = key then some row.registers else none
  else []

/-- The sketches that arrived for a series since its window was last dropped. -/
def gather (seen : List Registers) (request : Request) : List Registers :=
  let role := request.envelope.client.role
  if role ≠ "" ∧ role ≠ "*" then
    if request.now - limits.retentionMs ≤ minute then
      seen ++ request.envelope.frames.flatMap (frameSketches js minute key role)
    else []
  else seen

def gathered (requests : List Request) : List Registers :=
  requests.foldl (gather js limits minute key) []

/-- The rows under a key count to one name. -/
def OneName (capKey : String) (requests : List Request) : Prop :=
  ∀ request ∈ requests, ∀ frame ∈ request.envelope.frames,
    ∀ row ∈ frame.metrics.distincts.getD [],
      seriesKey js request.envelope.client.role row.name row.dimensions = key →
        eventKey request.envelope.client.role row.name = capKey

/-- The series of sketches of a window; a window that is not there is empty. -/
def distinctsAt (windows : Table ℤ Window) : SeriesMap DistinctSeries :=
  ((windows.get minute).getD (emptyWindow minute)).distincts

end

/-- A series holds the union of the sketches seen, or the cap keeps it out. -/
def Gathers (capKey key : String) (most : ℕ) (map : SeriesMap DistinctSeries)
    (seen : List Registers) : Prop :=
  (map.rows.get key).map DistinctSeries.body = unionOf seen ∨
    (map.rows.get key = none ∧ most ≤ (map.byName.get capKey).getD 0)

theorem unionOf_append_singleton (seen : List Registers) (sketch : Registers) :
    unionOf (seen ++ [sketch]) = some (union seen ⊔ sketch) := by
  have hne : seen ++ [sketch] ≠ [] := by simp
  rw [unionOf_of_ne_nil hne, union_append, union_cons, union_nil, sup_bot_eq]

section
variable {js : Js} {limits : Limits} {minute : ℤ} {capKey key : String}

theorem Gathers.row {most : ℕ} {map : SeriesMap DistinctSeries} {seen : List Registers}
    (h : Gathers capKey key most map seen) (role : String) (row : DistinctRow) {rowCap rowKey : String}
    (hname : rowKey = key → rowCap = capKey) :
    Gathers capKey key most (map.ingestRow rowCap rowKey most (ingestDistinct role row)).1
      (seen ++ if rowKey = key then [row.registers] else []) := by
  unfold SeriesMap.ingestRow SeriesMap.admitSeries
  by_cases hkey : rowKey = key
  · have hcap := hname hkey
    subst hkey hcap
    rw [if_pos rfl]
    cases hheld : map.rows.get rowKey with
    | some held =>
        simp only [Option.isSome_some, if_true]
        left
        cases h with
        | inl hunion =>
            rw [hheld] at hunion
            have hbody := unionOf_eq_some hunion.symm
            rw [Table.get_put_self, hheld, unionOf_append_singleton, ← hbody]
            rfl
        | inr hnone =>
            rw [hheld] at hnone
            cases hnone.1
    | none =>
        simp only [Option.isSome_none, Bool.false_eq_true, if_false]
        split_ifs with hfull
        · exact Or.inr ⟨hheld, hfull⟩
        · left
          cases h with
          | inl hunion =>
              rw [hheld] at hunion
              have hseen : seen = [] := by
                cases seen with
                | nil => rfl
                | cons sketch sketches => cases hunion
              rw [hseen, List.nil_append]
              show ((map.rows.put rowKey _).get rowKey).map DistinctSeries.body = some (row.registers ⊔ ⊥)
              rw [Table.get_put_self, hheld, sup_bot_eq]
              rfl
          | inr hnone => exact absurd hnone.2 hfull
  · rw [if_neg hkey, List.append_nil]
    have hother : ∀ series, (map.rows.put rowKey series).get key = map.rows.get key := fun series =>
      Table.get_put_of_ne _ _ (Ne.symm hkey)
    split
    · exact h
    · rename_i admitted hadmitted
      dsimp only at hadmitted
      split_ifs at hadmitted with hheld
      · obtain rfl := Option.some.inj hadmitted
        unfold Gathers
        dsimp only
        rw [hother]
        exact h
      · obtain rfl := Option.some.inj hadmitted
        unfold Gathers
        dsimp only
        rw [hother]
        cases h with
        | inl hunion => exact Or.inl hunion
        | inr hnone =>
            refine Or.inr ⟨hnone.1, ?_⟩
            rw [Table.get_put]
            split_ifs with hcap
            · rw [hcap] at hnone
              exact Nat.le_succ_of_le hnone.2
            · exact hnone.2

theorem Gathers.rows {most : ℕ} {map : SeriesMap DistinctSeries} {seen : List Registers}
    (role : String) {rows : List DistinctRow} (h : Gathers capKey key most map seen)
    (hname : ∀ row ∈ rows, seriesKey js role row.name row.dimensions = key →
      eventKey role row.name = capKey) :
    Gathers capKey key most (ingestRows (fun row : DistinctRow => eventKey role row.name)
        (fun row => seriesKey js role row.name row.dimensions) most (ingestDistinct role) map rows).1
      (seen ++ rows.filterMap fun row =>
        if seriesKey js role row.name row.dimensions = key then some row.registers else none) := by
  unfold ingestRows
  generalize 0 = drops
  induction rows generalizing map seen drops with
  | nil =>
      rw [List.filterMap_nil, List.append_nil]
      exact h
  | cons row rows ih =>
      have hrow := h.row role row (hname row List.mem_cons_self)
      have hrest := ih hrow (fun other hother => hname other (List.mem_cons_of_mem _ hother))
        (drops + (map.ingestRow (eventKey role row.name)
          (seriesKey js role row.name row.dimensions) most (ingestDistinct role row)).2)
      rw [List.foldl_cons]
      by_cases hkey : seriesKey js role row.name row.dimensions = key
      · rw [List.filterMap_cons_some (by rw [if_pos hkey])]
        rw [if_pos hkey, List.append_assoc] at hrest
        exact hrest
      · rw [List.filterMap_cons_none (by rw [if_neg hkey])]
        rw [if_neg hkey, List.append_nil] at hrest
        exact hrest

theorem Gathers.frame {role : String} (instanceId : String) (persistLogs : List String)
    {windows : Table ℤ Window} {seen : List Registers} {frame : Frame}
    (h : Gathers capKey key limits.maxSeriesPerMetric (distinctsAt minute windows) seen)
    (hname : ∀ row ∈ frame.metrics.distincts.getD [],
      seriesKey js role row.name row.dimensions = key → eventKey role row.name = capKey) :
    Gathers capKey key limits.maxSeriesPerMetric
      (distinctsAt minute (ingestInto js limits role instanceId persistLogs windows frame))
      (seen ++ frameSketches js minute key role frame) := by
  unfold ingestInto frameSketches distinctsAt
  dsimp only
  rw [Table.get_put]
  by_cases hminute : minuteFloor frame.frameFrom = minute
  · rw [if_pos hminute, if_pos hminute.symm, hminute]
    exact h.rows role hname
  · rw [if_neg hminute, if_neg fun heq => hminute heq.symm, List.append_nil]
    exact h

theorem Gathers.frames {role : String} (instanceId : String) (persistLogs : List String)
    {frames : List Frame} {windows : Table ℤ Window} {seen : List Registers}
    (h : Gathers capKey key limits.maxSeriesPerMetric (distinctsAt minute windows) seen)
    (hname : ∀ frame ∈ frames, ∀ row ∈ frame.metrics.distincts.getD [],
      seriesKey js role row.name row.dimensions = key → eventKey role row.name = capKey) :
    Gathers capKey key limits.maxSeriesPerMetric
      (distinctsAt minute (frames.foldl (ingestInto js limits role instanceId persistLogs) windows))
      (seen ++ frames.flatMap (frameSketches js minute key role)) := by
  induction frames generalizing windows seen with
  | nil =>
      rw [List.flatMap_nil, List.append_nil]
      exact h
  | cons frame frames ih =>
      have hframe := h.frame instanceId persistLogs (hname frame List.mem_cons_self)
      rw [List.flatMap_cons, ← List.append_assoc]
      exact ih hframe fun other hother => hname other (List.mem_cons_of_mem _ hother)

/-- A request keeps a series the union of what arrived. -/
theorem Gathers.receive {request : Request} {aggregator : Aggregator} {seen : List Registers}
    (h : Gathers capKey key limits.maxSeriesPerMetric (distinctsAt minute aggregator.windows) seen)
    (hname : OneName js key capKey [request]) :
    Gathers capKey key limits.maxSeriesPerMetric
      (distinctsAt minute (receive js limits request aggregator).windows)
      (gather js limits minute key seen request) := by
  unfold FrameAggregator.receive gather
  rw [step_request]
  dsimp only
  split_ifs with hrole hkept
  · have hframes := h.frames request.envelope.client.instanceId request.persistLogs
      (hname request List.mem_cons_self)
    have hsame : distinctsAt minute (prune limits request.now
        (addFrames js limits request.envelope request.persistLogs request.now aggregator)).windows =
        distinctsAt minute (addFrames js limits request.envelope request.persistLogs request.now
          aggregator).windows := by
      unfold distinctsAt prune
      dsimp only
      rw [Table.get_filter, decide_eq_true hkept]
      cases (addFrames js limits request.envelope request.persistLogs request.now
        aggregator).windows.get minute <;> rfl
    rw [hsame]
    exact hframes
  · have hdropped : distinctsAt minute (prune limits request.now
        (addFrames js limits request.envelope request.persistLogs request.now aggregator)).windows =
        SeriesMap.empty := by
      unfold distinctsAt prune
      dsimp only
      rw [Table.get_filter, decide_eq_false hkept]
      cases (addFrames js limits request.envelope request.persistLogs request.now
        aggregator).windows.get minute <;> rfl
    rw [hdropped]
    exact Or.inl rfl
  · exact h

/-- After every run of requests a series is the union of what arrived for it. -/
theorem gathers_run {requests : List Request} (hname : OneName js key capKey requests) :
    Gathers capKey key limits.maxSeriesPerMetric
      (distinctsAt minute (run (receive js limits) Aggregator.init requests).windows)
      (gathered js limits minute key requests) := by
  have hall : ∀ (requests : List Request) (aggregator : Aggregator) (seen : List Registers),
      OneName js key capKey requests →
      Gathers capKey key limits.maxSeriesPerMetric (distinctsAt minute aggregator.windows) seen →
      Gathers capKey key limits.maxSeriesPerMetric
        (distinctsAt minute (run (receive js limits) aggregator requests).windows)
        (requests.foldl (gather js limits minute key) seen) := by
    intro requests
    induction requests with
    | nil =>
        intro aggregator seen _ h
        exact h
    | cons request requests ih =>
        intro aggregator seen hname h
        apply ih
        · intro other hother
          exact hname other (List.mem_cons_of_mem _ hother)
        · apply h.receive
          intro other hother
          rw [List.mem_singleton.mp hother]
          exact hname request List.mem_cons_self
  exact hall requests Aggregator.init [] hname (Or.inl rfl)

end

end Wardx.FrameAggregator

namespace Wardx.HyperLogLog

open Lib Json MetricsRegistry HistoryBucket HistoryAccumulator HistoryStore HistoryCompaction
open FrameAggregator (Request receive gathered OneName distinctsAt DistinctSeries Aggregator)

/-! ## From end to end -/

/-- What arrived are the sketches that were sent, in any order and each at least
once. -/
def Delivered (bodies : List Json) (arrived : List Registers) : Prop :=
  ∀ registers, registers ∈ arrived ↔ ∃ body ∈ bodies, decodeHllBody body = .ok registers

/-- The registers of one sketch, once there is a body. -/
def expected (bodies : List Json) (one : MetricsRegistry.Distinct) : Option Registers :=
  if bodies.isEmpty then none else some one.registers

theorem unionOf_delivered {bodies : List Json} {arrived : List Registers}
    {one : MetricsRegistry.Distinct} (hdelivered : Delivered bodies arrived)
    (hsketches : ∀ body ∈ bodies, IsSketch body) (hone : union (sketches bodies) = one.registers) :
    unionOf arrived = expected bodies one := by
  have hsame : unionOf arrived = unionOf (sketches bodies) := by
    apply unionOf_congr
    intro registers
    rw [hdelivered registers, mem_sketches]
  rw [hsame]
  unfold expected
  cases bodies with
  | nil => rfl
  | cons body bodies =>
      obtain ⟨registers, hdecode, -⟩ := hsketches body List.mem_cons_self
      have hmem : registers ∈ sketches (body :: bodies) :=
        mem_sketches.mpr ⟨body, List.mem_cons_self, hdecode⟩
      rw [unionOf_of_ne_nil (List.ne_nil_of_mem hmem), hone]
      rfl

theorem digests_ne : NeZero (2 ^ 64) := ⟨by decide⟩

def visitSdk : MetricsRegistry.Sdk where
  js := Js.plain
  nearest := id
  h64 := fun text => @Fin.ofNat (2 ^ 64) digests_ne (text.length * 2 ^ 55 + text.length)
  limits := ⟨1000, 8, 64⟩
  defaultHistogramBuckets := .arr [.num (.finite 10)]
  privacySalt := "salt"

/-- Two clients that count visitors; the first is in its second window. -/
def visitInstances : List SdkInstance :=
  [⟨visitSdk, [.distinct "visitors" .null, .identify ("visitors", "") "ann", .snapshot,
      .identify ("visitors", "") "benjamin"]⟩,
    ⟨visitSdk, [.distinct "visitors" .null, .identify ("visitors", "") "benjamin",
      .identify ("visitors", "") "clara"]⟩]

def visitLimits : FrameAggregator.Limits := ⟨900000, 100, 120000⟩

def visitRequest (registers : Registers) : Request where
  envelope :=
    { protocol := 1
      project := "shop"
      sdk := ⟨"wardx", "1.0.0"⟩
      client := ⟨"i-1", "s-1", "web", "1.0.0", "prod", "browser", none, none⟩
      configVersion := 1
      configContext := none
      frames := [⟨0, 0, 1000, ⟨[], [], [], some [⟨"visitors", none, registers⟩]⟩, [], []⟩] }
  persistLogs := []
  now := 2000

theorem gathered_visits (arrived : List Registers) :
    gathered Js.plain visitLimits 0 "web\x00visitors\x00" (arrived.map visitRequest) = arrived := by
  have hgather : ∀ seen registers, FrameAggregator.gather Js.plain visitLimits 0
      "web\x00visitors\x00" seen (visitRequest registers) = seen ++ [registers] := by
    intro seen registers
    have hminute : FrameAggregator.minuteFloor 0 = 0 := by decide +kernel
    have hkept : (2000 : ℚ) ≤ 900000 := by norm_num
    simp [FrameAggregator.gather, FrameAggregator.frameSketches, visitRequest, visitLimits, hminute,
      hkept, FrameAggregator.seriesKey, FrameAggregator.dimKey]
  have hall : ∀ (arrived seen : List Registers), (arrived.map visitRequest).foldl
      (FrameAggregator.gather Js.plain visitLimits 0 "web\x00visitors\x00") seen = seen ++ arrived := by
    intro arrived
    induction arrived with
    | nil => exact fun seen => (List.append_nil seen).symm
    | cons registers arrived ih =>
        intro seen
        rw [List.map_cons, List.foldl_cons, hgather, ih, List.append_assoc]
        rfl
  exact hall arrived []

end Wardx.HyperLogLog
