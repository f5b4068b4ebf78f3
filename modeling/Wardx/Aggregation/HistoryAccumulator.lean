import Wardx.Ingest.Envelope

/-!
# The history accumulator

One project's minutes in memory. `prepare` computes what an envelope would
change and refuses it whole; `commit` applies a prepared envelope; `pending`
lists the dirty minutes as buckets for the store.

A minute's state is its table of rows by series key, with the byte counts that
bound pending writes. The sorted-key cache of the code is a memo of a sort of
the table's keys and is recomputed here.
-/
namespace Wardx.HistoryAccumulator

open Lib HistoryBucket

/-- `Math.floor(timestamp / width) * width`. -/
def utcBucketStart (timestamp : ℚ) (tier : Tier) : ℤ :=
  ⌊timestamp / tier.width⌋ * tier.width

/-! ## The rows of a frame -/

def commonRow (client : Client) (name : String) (dimensions : Dimensions) (body : RowBody) :
    HistoricalRow where
  name := name
  role := client.role
  environment := client.environment
  appVersion := client.appVersion
  dimensions := dimensions
  os := client.os
  body := body

/-- `historyRows`. -/
def historyRows (envelope : Envelope) (frame : Frame) (persistLogs : List String) :
    List HistoricalRow :=
  let row := commonRow envelope.client
  (frame.metrics.counters.map fun c => row c.name c.dimensions (.counter c.value)) ++
  (frame.metrics.gauges.map fun g =>
    row g.name g.dimensions (.gauge ⟨g.value, g.timestamp, g.value, g.value, 1⟩)) ++
  (frame.metrics.histograms.map fun h =>
    row h.name h.dimensions (.histogram ⟨h.count, h.sum, h.min, h.max, h.buckets⟩)) ++
  ((frame.metrics.distincts.getD []).map fun d =>
    row d.name d.dimensions (.distinct ⟨d.registers, 0⟩)) ++
  (frame.events.map fun e => row e.name none (.event 1)) ++
  ((frame.logs.filter fun l => l.message ∈ persistLogs).map fun l =>
    row l.message none (.log l.level 1))

/-! ## Byte counts -/

/-- A row as stored, fields in the order `normalizeHistoricalRow` writes them. -/
def rowJson (row : HistoricalRow) : Json :=
  let dims := match row.dimensions with
    | none => Json.null
    | some fields => fieldsJson fields
  let os := match row.os with
    | none => []
    | some os => [("os", Json.str os)]
  let body : List (String × Json) := match row.body with
    | .counter value => [("value", .num value)]
    | .event count => [("count", .num count)]
    | .drop count => [("count", .num count)]
    | .log level count => [("level", .str level.text), ("count", .num count)]
    | .gauge g =>
        [("lastValue", .num g.lastValue), ("lastTimestamp", .num g.lastTimestamp),
          ("min", .num g.min), ("max", .num g.max), ("sampleCount", .num g.sampleCount)]
    | .histogram h =>
        [("count", .num h.count), ("sum", .num h.sum), ("min", .num h.min), ("max", .num h.max),
          ("buckets", .arr (h.buckets.map fun pair => .arr [.num pair.1, .num pair.2]))]
    | .distinct d =>
        [("precision", .num HyperLogLog.precision), ("registers", .str d.registers.text),
          ("estimate", .num d.estimate)]
  .obj ([("kind", .str row.kind.text), ("name", .str row.name), ("role", .str row.role),
    ("environment", .str row.environment), ("appVersion", .str row.appVersion),
    ("dimensions", dims)] ++ os ++ body)

/-- `Buffer.byteLength(JSON.stringify(row))`. -/
def rowBytes (js : Js) (row : HistoricalRow) : ℤ := utf8Length ((rowJson row).stringify js)

def numberBytes (js : Js) (value : ℚ) : ℤ := utf16Length (js.numberText value)

/-- `mergeableBytes`: the fields `mergeRow` can change. -/
def mergeableBytes (js : Js) (row : HistoricalRow) : ℤ :=
  match row.body with
  | .counter value => numberBytes js value
  | .event count => numberBytes js count
  | .log _ count => numberBytes js count
  | .drop count => numberBytes js count
  | .gauge g =>
      numberBytes js g.lastValue + numberBytes js g.lastTimestamp + numberBytes js g.min +
        numberBytes js g.max + numberBytes js g.sampleCount
  | .histogram h =>
      numberBytes js h.count + numberBytes js h.sum + numberBytes js h.min +
        numberBytes js h.max + (h.buckets.map fun pair => numberBytes js pair.2).sum
  | .distinct d =>
      numberBytes js HyperLogLog.precision + utf16Length d.registers.text +
        numberBytes js d.estimate

def mergedRowBytes (js : Js) (existingBytes : ℤ) (existing merged : HistoricalRow) : ℤ :=
  existingBytes + mergeableBytes js merged - mergeableBytes js existing

/-- `bucketBytes` of a minute without rows. -/
def emptyBucketBytes (js : Js) (project : String) (bucketFrom : ℤ) : ℤ :=
  utf8Length ((Json.obj [("project", .str project), ("tier", .str Tier.minute.text),
    ("from", .num bucketFrom), ("to", .num (bucketFrom + Tier.minute.width : ℤ)),
    ("finalized", .bool false), ("dropCount", .num 0), ("rows", .arr [])]).stringify js)

/-! ## The state -/

structure MinuteState where
  rows : Table String HistoricalRow
  rowBytes : Table String ℤ
  bytes : ℤ
deriving DecidableEq, Repr

def emptyState (js : Js) (project : String) (bucketFrom : ℤ) : MinuteState where
  rows := Table.empty
  rowBytes := Table.empty
  bytes := emptyBucketBytes js project bucketFrom

/-- One step of the loop of `stateFromBucket`. -/
def addStoredRow (js : Js) (state : MinuteState) (row : HistoricalRow) : MinuteState :=
  let key := historicalSeriesKey js row
  let bytes := rowBytes js row
  { rows := state.rows.put key row
    rowBytes := state.rowBytes.put key bytes
    bytes := state.bytes + (if 0 < state.rows.size then 1 else 0) + bytes }

def stateFromBucket (js : Js) (bucket : Bucket) : MinuteState :=
  bucket.rows.foldl (addStoredRow js) (emptyState js bucket.project bucket.bucketFrom)

/-- The constructor's arguments and checks. -/
structure Settings where
  project : String
  clockSkewAllowanceMs : ℤ
  maxAppVersions : ℕ
  project_ne : project ≠ ""
  clockSkewAllowanceMs_pos : 1 ≤ clockSkewAllowanceMs
  maxAppVersions_pos : 1 ≤ maxAppVersions

/-- The versions seen by tier and role are sets; their order is immaterial and
they are kept in order of arrival. -/
structure Accumulator where
  project : String
  states : Table ℤ MinuteState
  dirty : List ℤ
  versionsByRole : Table (Tier × String) (List String)
deriving DecidableEq, Repr

def Accumulator.init (settings : Settings) : Accumulator :=
  ⟨settings.project, Table.empty, [], Table.empty⟩

/-- `Set.prototype.add`. -/
def addToSet {α : Type} [DecidableEq α] (x : α) (xs : List α) : List α :=
  if x ∈ xs then xs else xs ++ [x]

def rememberVersion (acc : Accumulator) (tier : Tier) (role appVersion : String) : Accumulator :=
  let versions := (acc.versionsByRole.get (tier, role)).getD []
  { acc with versionsByRole := acc.versionsByRole.put (tier, role) (addToSet appVersion versions) }

/-! ## Preparing an envelope -/

/-- What one envelope does to one minute. -/
structure Update where
  rows : Table String HistoricalRow
  rowBytes : Table String ℤ
  projectedBytes : ℤ
  added : ℕ
deriving DecidableEq, Repr

structure Prepared where
  role : String
  appVersion : String
  updates : Table ℤ Update
deriving DecidableEq, Repr

/-- `current ? mergeHistoricalRow(current, row) : row`. -/
def mergedWith (js : Js) (current : Option HistoricalRow) (row : HistoricalRow) :
    Except String HistoricalRow :=
  match current with
  | some existing => mergeRow js existing row
  | none => .ok row

/-- One row of a frame against the minute's base state and the update so far. -/
def prepareRow (js : Js) (base : MinuteState) (update : Update) (row : HistoricalRow)
    (label : String) : Except String Update := do
  let row ← normalizeHistoricalRow js row label
  let key := historicalSeriesKey js row
  let current := (update.rows.get key).or (base.rows.get key)
  let merged ← mergedWith js current row
  let previousBytes := (update.rowBytes.get key).or (base.rowBytes.get key)
  let nextBytes := match previousBytes, current with
    | some bytes, some existing => mergedRowBytes js bytes existing merged
    | _, _ => rowBytes js merged
  let projected := match previousBytes with
    | none =>
        update.projectedBytes + (if 0 < base.rows.size + update.added then 1 else 0) + nextBytes
    | some bytes => update.projectedBytes + (nextBytes - bytes)
  pure
    { rows := update.rows.put key merged
      rowBytes := update.rowBytes.put key nextBytes
      projectedBytes := projected
      added := update.added + (if previousBytes.isNone then 1 else 0) }

def prepareRows (js : Js) (base : MinuteState) :
    ℕ → Update → List HistoricalRow → Except String Update
  | _, update, [] => .ok update
  | index, update, row :: rows => do
      let next ← prepareRow js base update row ("history bucket.rows[" ++ toString index ++ "]")
      prepareRows js base (index + 1) next rows

def prepareFrames (js : Js) (acc : Accumulator) (envelope : Envelope)
    (persistLogs : List String) : Table ℤ Update → List Frame → Except String (Table ℤ Update)
  | updates, [] => .ok updates
  | updates, frame :: frames => do
      let bucketFrom := utcBucketStart frame.frameFrom .minute
      let base := (acc.states.get bucketFrom).getD (emptyState js acc.project bucketFrom)
      let update := (updates.get bucketFrom).getD ⟨Table.empty, Table.empty, base.bytes, 0⟩
      let next ← prepareRows js base 0 update (historyRows envelope frame persistLogs)
      prepareFrames js acc envelope persistLogs (updates.put bucketFrom next) frames

/-- `prepare`: nothing changes, whatever the outcome. -/
def prepare (js : Js) (settings : Settings) (acc : Accumulator) (envelope : Envelope)
    (persistLogs : List String) : Except String Prepared := do
  let role := envelope.client.role
  let appVersion := envelope.client.appVersion
  let versions := acc.versionsByRole.get (.minute, role)
  require (versions.all fun known => appVersion ∈ known || known.length < settings.maxAppVersions)
    ("historical app-version cap exceeded for role " ++ role)
  let updates ← prepareFrames js acc envelope persistLogs Table.empty envelope.frames
  pure ⟨role, appVersion, updates⟩

/-! ## Committing, flushing, dropping -/

def commitUpdate (js : Js) (acc : Accumulator) (bucketFrom : ℤ) (update : Update) : Accumulator :=
  let state := (acc.states.get bucketFrom).getD (emptyState js acc.project bucketFrom)
  { acc with
    states := acc.states.put bucketFrom
      ⟨state.rows.overlay update.rows, state.rowBytes.overlay update.rowBytes,
        update.projectedBytes⟩
    dirty := addToSet bucketFrom acc.dirty }

/-- `commit`. -/
def commit (js : Js) (acc : Accumulator) (prepared : Prepared) : Accumulator :=
  prepared.updates.entries.foldl (fun acc entry => commitUpdate js acc entry.1 entry.2)
    (rememberVersion acc .minute prepared.role prepared.appVersion)

/-- The minute's bucket as `pending` lists it; keys are sorted by collation. -/
def minuteBucket (js : Js) (settings : Settings) (project : String) (now bucketFrom : ℤ)
    (rows : Table String HistoricalRow) : Bucket where
  project := project
  tier := .minute
  bucketFrom := bucketFrom
  bucketTo := bucketFrom + 60000
  finalized := now ≥ bucketFrom + 60000 + settings.clockSkewAllowanceMs
  dropCount := 0
  rows := ((rows.entries.insertionSort fun a b => js.localeCompare a.1 b.1 ≠ .gt).map Prod.snd)

/-- `pending(now)`: the dirty minutes, ascending. -/
def pending (js : Js) (settings : Settings) (acc : Accumulator) (now : ℤ) : List Bucket :=
  (acc.dirty.insertionSort (· ≤ ·)).map fun bucketFrom =>
    let state := (acc.states.get bucketFrom).getD (emptyState js acc.project bucketFrom)
    minuteBucket js settings acc.project now bucketFrom state.rows

def acknowledge (acc : Accumulator) (buckets : List Bucket) : Accumulator :=
  { acc with dirty := acc.dirty.filter fun bucketFrom =>
      !(buckets.any fun bucket => bucket.bucketFrom = bucketFrom) }

/-- `prunePersisted(through)`: clean minutes that ended by `through` leave memory. -/
def prunePersisted (acc : Accumulator) (through : ℤ) : Accumulator :=
  { acc with states := acc.states.filter fun bucketFrom _ =>
      !(decide (bucketFrom + 60000 ≤ through) && decide (bucketFrom ∉ acc.dirty)) }

/-- `projectedPending`: pending batches and bytes if the envelope were committed. -/
def projectedPending (js : Js) (acc : Accumulator) (prepared : Prepared) : ℕ × ℤ :=
  let pendingBytes : Table ℤ ℤ := acc.dirty.foldl (fun table bucketFrom =>
    let state := (acc.states.get bucketFrom).getD (emptyState js acc.project bucketFrom)
    table.put bucketFrom state.bytes) Table.empty
  let projected := prepared.updates.entries.foldl
    (fun table entry => table.put entry.1 entry.2.projectedBytes) pendingBytes
  (projected.size, projected.values.sum)

/-- One bucket of `seed`. -/
def seedBucket (js : Js) (acc : Accumulator) (bucket : Bucket) : Except String Accumulator := do
  let normalized ← normalizeHistoryBucket js bucket "history bucket"
  require (normalized.project = acc.project) "history seed must contain buckets for this project"
  let seeded := if normalized.tier = .minute then
      { acc with states := acc.states.put normalized.bucketFrom (stateFromBucket js normalized) }
    else acc
  pure (normalized.rows.foldl
    (fun acc row => rememberVersion acc normalized.tier row.role row.appVersion) seeded)

/-- `seed`. -/
def seed (js : Js) (acc : Accumulator) : List Bucket → Except String Accumulator
  | [] => .ok acc
  | bucket :: buckets => do
      let next ← seedBucket js acc bucket
      seed js next buckets

/-! ## A committed envelope inserts its rows -/

/-- The rows held for a minute. -/
def rowsAt (acc : Accumulator) (bucketFrom : ℤ) : Table String HistoricalRow :=
  ((acc.states.get bucketFrom).map MinuteState.rows).getD Table.empty

/-- The normalized rows of a frame. -/
def frameRows (js : Js) (envelope : Envelope) (persistLogs : List String) (frame : Frame) :
    List HistoricalRow :=
  (historyRows envelope frame persistLogs).map (normalized js)

/-- The rows the frames contribute to one minute, in their order. -/
def minuteRows (js : Js) (envelope : Envelope) (persistLogs : List String) (bucketFrom : ℤ)
    (frames : List Frame) : List HistoricalRow :=
  frames.flatMap fun frame =>
    if utcBucketStart frame.frameFrom .minute = bucketFrom then
      frameRows js envelope persistLogs frame
    else []

/-- The rows of the base with the update written over them. -/
def Update.over (update : Update) (base : MinuteState) : Table String HistoricalRow :=
  base.rows.overlay update.rows

theorem prepareRow_spec {js : Js} {base : MinuteState} {update next : Update}
    {row : HistoricalRow} {label : String}
    (h : prepareRow js base update row label = .ok next) :
    ValidRow row ∧
      (seriesMerge js).insert (update.over base) (normalized js row) = .ok (next.over base) := by
  unfold prepareRow at h
  simp only [bind_eq_ok_iff, normalizeHistoricalRow_eq_ok_iff] at h
  obtain ⟨row', ⟨hvalid, rfl⟩, merged, hmerged, hnext⟩ := h
  refine ⟨hvalid, ?_⟩
  have hover : next.over base =
      (update.over base).put (historicalSeriesKey js (normalized js row)) merged := by
    rw [← Except.ok.inj hnext]
    exact Table.overlay_put _ _ _ _
  have hget : (update.over base).get (historicalSeriesKey js (normalized js row)) =
      (update.rows.get (historicalSeriesKey js (normalized js row))).or
        (base.rows.get (historicalSeriesKey js (normalized js row))) :=
    Table.get_overlay _ _ _
  rw [hover]
  unfold GuardedMerge.insert
  rw [show (seriesMerge js).key (normalized js row) =
    historicalSeriesKey js (normalized js row) from rfl, hget]
  unfold mergedWith at hmerged
  split at hmerged
  · rename_i existing hcurrent
    rw [hcurrent]
    simp only [bind_eq_ok_iff]
    exact ⟨merged, hmerged, rfl⟩
  · rename_i hcurrent
    rw [hcurrent]
    cases hmerged
    rfl

theorem prepareRows_spec {js : Js} {base : MinuteState} {index : ℕ} {update next : Update}
    {rows : List HistoricalRow} (h : prepareRows js base index update rows = .ok next) :
    (∀ row ∈ rows, ValidRow row) ∧
      (seriesMerge js).insertAll (update.over base) (rows.map (normalized js)) =
        .ok (next.over base) := by
  induction rows generalizing index update with
  | nil =>
      cases h
      exact ⟨by simp, rfl⟩
  | cons row rows ih =>
      simp only [prepareRows, bind_eq_ok_iff] at h
      obtain ⟨middle, hmiddle, hrest⟩ := h
      obtain ⟨hrow, hinsert⟩ := prepareRow_spec hmiddle
      obtain ⟨hrows, hall⟩ := ih hrest
      refine ⟨?_, ?_⟩
      · rw [List.forall_mem_cons]
        exact ⟨hrow, hrows⟩
      · rw [List.map_cons, GuardedMerge.insertAll_cons_ok_iff]
        exact ⟨_, hinsert, hall⟩

/-- The base an envelope's rows for a minute are prepared against. -/
def baseAt (js : Js) (acc : Accumulator) (bucketFrom : ℤ) : MinuteState :=
  (acc.states.get bucketFrom).getD (emptyState js acc.project bucketFrom)

theorem baseAt_rows (js : Js) (acc : Accumulator) (bucketFrom : ℤ) :
    (baseAt js acc bucketFrom).rows = rowsAt acc bucketFrom := by
  unfold baseAt rowsAt
  cases acc.states.get bucketFrom <;> rfl

/-- What a minute would hold if the updates so far were committed. -/
def staged (acc : Accumulator) (updates : Table ℤ Update) (bucketFrom : ℤ) :
    Table String HistoricalRow :=
  (rowsAt acc bucketFrom).overlay
    (((updates.get bucketFrom).map Update.rows).getD Table.empty)

theorem prepareFrames_spec {js : Js} {acc : Accumulator} {envelope : Envelope}
    {persistLogs : List String} {updates next : Table ℤ Update} {frames : List Frame}
    (h : prepareFrames js acc envelope persistLogs updates frames = .ok next) :
    (∀ frame ∈ frames, ∀ row ∈ historyRows envelope frame persistLogs, ValidRow row) ∧
      (∀ bucketFrom, (seriesMerge js).insertAll (staged acc updates bucketFrom)
        (minuteRows js envelope persistLogs bucketFrom frames) =
          .ok (staged acc next bucketFrom)) ∧
      ∀ bucketFrom, bucketFrom ∈ next.keys ↔ bucketFrom ∈ updates.keys ∨
        ∃ frame ∈ frames, utcBucketStart frame.frameFrom .minute = bucketFrom := by
  induction frames generalizing updates with
  | nil =>
      cases h
      exact ⟨by simp, fun bucketFrom => rfl, by simp⟩
  | cons frame frames ih =>
      simp only [prepareFrames, bind_eq_ok_iff] at h
      obtain ⟨update, hupdate, hrest⟩ := h
      obtain ⟨hrows, hinsert⟩ := prepareRows_spec hupdate
      obtain ⟨hvalid, hstaged, hkeys⟩ := ih hrest
      refine ⟨?_, ?_, ?_⟩
      · rw [List.forall_mem_cons]
        exact ⟨hrows, hvalid⟩
      · intro bucketFrom
        unfold minuteRows
        rw [List.flatMap_cons, GuardedMerge.insertAll_append_ok_iff]
        refine ⟨_, ?_, hstaged bucketFrom⟩
        by_cases hm : utcBucketStart frame.frameFrom .minute = bucketFrom
        · subst hm
          rw [if_pos rfl]
          unfold Update.over at hinsert
          rw [← baseAt, baseAt_rows] at hinsert
          have hbefore : staged acc updates (utcBucketStart frame.frameFrom .minute) =
              (rowsAt acc (utcBucketStart frame.frameFrom .minute)).overlay
                ((updates.get (utcBucketStart frame.frameFrom .minute)).getD
                  ⟨Table.empty, Table.empty,
                    (baseAt js acc (utcBucketStart frame.frameFrom .minute)).bytes, 0⟩).rows := by
            unfold staged
            cases updates.get (utcBucketStart frame.frameFrom .minute) <;> rfl
          rw [hbefore]
          unfold staged
          rw [Table.get_put_self]
          exact hinsert
        · rw [if_neg hm]
          unfold staged
          rw [Table.get_put_of_ne _ _ (Ne.symm hm)]
          rfl
      · intro bucketFrom
        rw [hkeys, Table.mem_keys_put]
        constructor
        · rintro ((rfl | hu) | ⟨f, hf, rfl⟩)
          · exact Or.inr ⟨frame, List.mem_cons_self, rfl⟩
          · exact Or.inl hu
          · exact Or.inr ⟨f, List.mem_cons_of_mem frame hf, rfl⟩
        · rintro (hu | ⟨f, hf, rfl⟩)
          · exact Or.inl (Or.inr hu)
          · rw [List.mem_cons] at hf
            obtain rfl | hf := hf
            · exact Or.inl (Or.inl rfl)
            · exact Or.inr ⟨f, hf, rfl⟩

@[simp] theorem mem_addToSet {α : Type} [DecidableEq α] (x y : α) (xs : List α) :
    y ∈ addToSet x xs ↔ y ∈ xs ∨ y = x := by
  unfold addToSet
  split_ifs with h
  · constructor
    · exact Or.inl
    · rintro (hy | rfl)
      · exact hy
      · exact h
  · simp

theorem nodup_addToSet {α : Type} [DecidableEq α] (x : α) {xs : List α} (h : xs.Nodup) :
    (addToSet x xs).Nodup := by
  unfold addToSet
  split_ifs with hx
  · exact h
  · rw [List.nodup_append]
    refine ⟨h, List.nodup_singleton x, ?_⟩
    intro a ha b hb hab
    rw [List.mem_singleton] at hb
    exact hx (hb ▸ hab ▸ ha)

theorem rowsAt_commitUpdate (js : Js) (acc : Accumulator) (m m' : ℤ) (update : Update) :
    rowsAt (commitUpdate js acc m update) m' =
      if m' = m then (rowsAt acc m).overlay update.rows else rowsAt acc m' := by
  unfold commitUpdate rowsAt
  rw [Table.get_put]
  by_cases h : m' = m
  · rw [if_pos h, if_pos h]
    cases acc.states.get m <;> rfl
  · rw [if_neg h, if_neg h]

/-- What committing a list of updates of distinct minutes does. -/
theorem foldl_commitUpdate (js : Js) (acc : Accumulator) {xs : List (ℤ × Update)}
    (hx : (xs.map Prod.fst).Nodup) :
    let after := xs.foldl (fun acc entry => commitUpdate js acc entry.1 entry.2) acc
    after.project = acc.project ∧
      (∀ m, rowsAt after m =
        (rowsAt acc m).overlay (((xs.lookup m).map Update.rows).getD Table.empty)) ∧
      (∀ m, m ∈ after.dirty ↔ m ∈ acc.dirty ∨ m ∈ xs.map Prod.fst) ∧
      (∀ m, m ∈ after.states.keys ↔ m ∈ acc.states.keys ∨ m ∈ xs.map Prod.fst) ∧
      (acc.dirty.Nodup → after.dirty.Nodup) := by
  induction xs generalizing acc with
  | nil => exact ⟨rfl, fun _ => rfl, by simp, by simp, fun h => h⟩
  | cons x xs ih =>
      obtain ⟨k, update⟩ := x
      rw [List.map_cons, List.nodup_cons] at hx
      obtain ⟨hproject, hrows, hdirty, hkeys, hnodup⟩ := ih (commitUpdate js acc k update) hx.2
      simp only [List.foldl_cons]
      refine ⟨hproject, fun m => ?_, fun m => ?_, fun m => ?_, fun h => ?_⟩
      · rw [hrows, rowsAt_commitUpdate, List.lookup_cons]
        by_cases hm : m = k
        · subst hm
          have hnone : xs.lookup m = none := by
            rw [List.lookup_eq_none_iff]
            intro p hp
            have hne : m ≠ p.1 := fun e => hx.1 (List.mem_map.mpr ⟨p, hp, e.symm⟩)
            simpa using hne
          simp [hnone]
        · simp [hm, beq_eq_false_iff_ne.mpr hm]
      · rw [hdirty, List.map_cons, List.mem_cons]
        simp only [commitUpdate, mem_addToSet, or_assoc]
      · rw [hkeys, List.map_cons, List.mem_cons]
        simp only [commitUpdate, Table.mem_keys_put]
        tauto
      · exact hnodup (nodup_addToSet k h)

/-- A committed envelope inserted its rows, minute by minute, and dirtied
exactly the minutes of its frames. -/
structure Committed (js : Js) (acc after : Accumulator) (envelope : Envelope)
    (persistLogs : List String) : Prop where
  project : after.project = acc.project
  valid : ∀ frame ∈ envelope.frames, ∀ row ∈ historyRows envelope frame persistLogs, ValidRow row
  rows : ∀ m, (seriesMerge js).insertAll (rowsAt acc m)
    (minuteRows js envelope persistLogs m envelope.frames) = .ok (rowsAt after m)
  dirty : ∀ m, m ∈ after.dirty ↔ m ∈ acc.dirty ∨
    ∃ frame ∈ envelope.frames, utcBucketStart frame.frameFrom .minute = m
  states : ∀ m, m ∈ after.states.keys ↔ m ∈ acc.states.keys ∨
    ∃ frame ∈ envelope.frames, utcBucketStart frame.frameFrom .minute = m
  nodup : acc.dirty.Nodup → after.dirty.Nodup

theorem commit_prepare {js : Js} {settings : Settings} {acc : Accumulator}
    {envelope : Envelope} {persistLogs : List String} {prepared : Prepared}
    (h : prepare js settings acc envelope persistLogs = .ok prepared) :
    Committed js acc (commit js acc prepared) envelope persistLogs := by
  unfold prepare at h
  simp only [bind_eq_ok_iff, require_eq_ok_iff, exists_const] at h
  obtain ⟨_, updates, hupdates, hprepared⟩ := h
  cases hprepared
  obtain ⟨hvalid, hstaged, hkeys⟩ := prepareFrames_spec hupdates
  obtain ⟨hproject, hrows, hdirty, hstates, hnodup⟩ :=
    foldl_commitUpdate js
      (rememberVersion acc .minute envelope.client.role envelope.client.appVersion) updates.nodup
  have hmem : ∀ m, m ∈ updates.entries.map Prod.fst ↔
      ∃ frame ∈ envelope.frames, utcBucketStart frame.frameFrom .minute = m := by
    intro m
    have hk := hkeys m
    simpa [Table.keys, Table.empty] using hk
  refine ⟨hproject, hvalid, fun m => ?_, fun m => ?_, fun m => ?_, hnodup⟩
  · rw [show rowsAt (commit js acc ⟨envelope.client.role, envelope.client.appVersion, updates⟩) m =
      staged acc updates m from hrows m]
    exact hstaged m
  · rw [← hmem]
    exact hdirty m
  · rw [← hmem]
    exact hstates m

/-- A minute's bucket lists each series once. -/
theorem nodup_keys_minuteBucket {js : Js} {settings : Settings} {project : String} {now m : ℤ}
    {rows : Table String HistoricalRow} (hkeyed : (seriesMerge js).Keyed rows) :
    ((minuteBucket js settings project now m rows).rows.map (historicalSeriesKey js)).Nodup := by
  have hentries : rows.entries.map (fun entry => historicalSeriesKey js entry.2) =
      rows.entries.map Prod.fst := by
    apply List.map_congr_left
    intro entry hentry
    exact hkeyed entry.1 entry.2 ((Table.get_eq_some_iff ..).mpr hentry)
  have hperm := (List.perm_insertionSort
    (fun a b : String × HistoricalRow => js.localeCompare a.1 b.1 ≠ .gt) rows.entries).map
      fun entry => historicalSeriesKey js entry.2
  unfold minuteBucket
  rw [List.map_map]
  apply (hperm.nodup_iff).mpr
  rw [hentries]
  exact rows.nodup

end Wardx.HistoryAccumulator
