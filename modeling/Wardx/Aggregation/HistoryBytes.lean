import Wardx.Aggregation.HistoryAccumulator
import Wardx.Aggregation.SketchText
import Wardx.JsonBytes
import Wardx.JsonText
import Wardx.Lib.TableTotal

/-!
# The bytes of pending history

The accumulator keeps the byte length of every minute's bucket without printing
it: a new row adds its own length and a comma, a merged row adds the difference
in the fields a merge can change. Here the length of a bucket is computed from
its rows, each of these steps is shown to keep it, and so is every sequence of
calls.
-/
namespace Wardx.HistoryAccumulator

open Lib HistoryBucket HyperLogLog Json

/-! ## Rows -/

/-- The fields a kind adds to a row's text. -/
def bodyFields : RowBody → Json.Fields
  | .counter value => [("value", .num value)]
  | .event count => [("count", .num count)]
  | .drop count => [("count", .num count)]
  | .log level count => [("level", .str level.text), ("count", .num count)]
  | .gauge g =>
      [("lastValue", .num g.lastValue), ("lastTimestamp", .num g.lastTimestamp),
        ("min", .num g.min), ("max", .num g.max), ("sampleCount", .num g.sampleCount)]
  | .histogram h =>
      [("count", .num h.count), ("sum", .num h.sum), ("min", .num h.min), ("max", .num h.max),
        ("buckets", .arr (h.buckets.map fun pair => .arr [.num pair.1, .num pair.2]))]
  | .distinct d =>
      [("precision", .num HyperLogLog.precision), ("registers", .str d.registers.text),
        ("estimate", .num d.estimate)]

/-- The fields every row has. -/
def headFields (row : HistoricalRow) : Json.Fields :=
  let dims := match row.dimensions with
    | none => Json.null
    | some fields => fieldsJson fields
  let os := match row.os with
    | none => []
    | some os => [("os", Json.str os)]
  [("kind", .str row.kind.text), ("name", .str row.name), ("role", .str row.role),
    ("environment", .str row.environment), ("appVersion", .str row.appVersion),
    ("dimensions", dims)] ++ os

theorem rowJson_eq (row : HistoricalRow) :
    rowJson row = .obj (headFields row ++ bodyFields row.body) := by
  cases row with
  | mk name role environment appVersion dimensions os body => cases body <;> rfl

variable {js : Js}

def fieldsBytes (js : Js) (fields : Json.Fields) : ℕ := (fields.map (fieldBytes js)).sum

theorem rowBytes_eq (row : HistoricalRow) :
    rowBytes js row = 2 + fieldsBytes js (headFields row) + fieldsBytes js (bodyFields row.body) +
      (headFields row).length + (bodyFields row.body).length - 1 := by
  have hhead : 1 ≤ (headFields row).length := by
    unfold headFields
    rw [List.length_append]
    exact Nat.le_add_right_of_le (Nat.le_add_left 1 5)
  have hbytes := bytes_obj js (headFields row ++ bodyFields row.body)
  rw [List.map_append, List.sum_append, List.length_append] at hbytes
  unfold rowBytes
  rw [rowJson_eq]
  change ((bytes js (.obj (headFields row ++ bodyFields row.body)) : ℕ) : ℤ) = _
  rw [hbytes]
  unfold fieldsBytes
  omega

theorem length_bodyFields {a b : RowBody} (h : a.kind = b.kind) :
    (bodyFields a).length = (bodyFields b).length := by
  cases a <;> cases b <;> first | rfl | cases h

/-- Rows that differ in their bodies differ in length by their bodies. -/
theorem rowBytes_withBody {row : HistoricalRow} {body : RowBody} (h : body.kind = row.body.kind) :
    rowBytes js { row with body := body } =
      rowBytes js row + fieldsBytes js (bodyFields body) - fieldsBytes js (bodyFields row.body) := by
  have hhead : headFields { row with body := body } = headFields row := by
    unfold headFields HistoricalRow.kind
    rw [h]
  have hbody : ({ row with body := body } : HistoricalRow).body = body := rfl
  rw [rowBytes_eq, rowBytes_eq, hhead, hbody, length_bodyFields h]
  omega

/-- The base64 of a sketch has no character to escape, and is ASCII. -/
theorem base64Digit_plain : ∀ n < 64, Plain (base64Digit n) ∧ (base64Digit n).toNat < 128 := by
  decide +kernel

theorem registers_text_plain (registers : Registers) :
    ∀ c ∈ registers.text.toList, Plain c ∧ c.toNat < 128 := by
  have hbytes : ∀ byte ∈ registers.ranks, byte < 256 := by
    intro byte hbyte
    have := registers.ranks_le byte hbyte
    unfold maxRank at this
    omega
  have hpadding : ∀ bytes : List ℕ, ∀ c ∈ padding bytes, Plain c ∧ c.toNat < 128 := by
    intro bytes c hc
    induction bytes using padding.induct with
    | case1 _ _ _ rest ih => exact ih hc
    | case2 | case3 =>
        simp only [padding, List.mem_cons, List.not_mem_nil, or_false, or_self] at hc
        rw [hc]
        exact ⟨⟨by decide, by decide, by decide⟩, by decide⟩
    | case4 => cases hc
  intro c hc
  unfold Registers.text at hc
  rw [String.toList_ofList, base64_eq, List.mem_append] at hc
  rcases hc with hdigit | hpad
  · obtain ⟨digit, hmem, rfl⟩ := List.mem_map.mp hdigit
    exact base64Digit_plain digit (digitsOf_lt registers.ranks hbytes digit hmem)
  · exact hpadding registers.ranks c hpad

/-- A sketch's text counts its characters and two quotes. -/
theorem bytes_registers (registers : Registers) :
    bytes js (.str registers.text) = utf16Length registers.text + 2 := by
  have hplain := registers_text_plain registers
  unfold bytes
  rw [stringify, utf8Length_quote_of_plain fun c hc => (hplain c hc).1,
    utf8Length_of_ascii fun c hc => (hplain c hc).2]

/-- Buckets under the same bounds differ in length by their counts. -/
theorem bytes_buckets (hjs : AsciiNumbers js) {a b : List (ℚ × ℕ)} (h : boundsOf a = boundsOf b) :
    ((bytes js (.arr (a.map fun pair => .arr [.num pair.1, .num pair.2])) : ℕ) : ℤ) -
        (a.map fun pair => numberBytes js pair.2).sum =
      bytes js (.arr (b.map fun pair => .arr [.num pair.1, .num pair.2])) -
        (b.map fun pair => numberBytes js pair.2).sum := by
  have hlength : a.length = b.length := by
    have := congrArg List.length h
    rw [boundsOf, boundsOf, List.length_map, List.length_map] at this
    exact this
  have hsum : ∀ pairs : List (ℚ × ℕ), (((pairs.map fun pair : ℚ × ℕ =>
      (.arr [.num pair.1, .num pair.2] : Json)).map (bytes js)).sum : ℤ) -
        (pairs.map fun pair => numberBytes js pair.2).sum =
      ((boundsOf pairs).map fun bound => (3 + numberBytes js bound)).sum := by
    intro pairs
    induction pairs with
    | nil => rfl
    | cons pair pairs ih =>
        have hpair : ((bytes js (.arr [.num pair.1, .num pair.2]) : ℕ) : ℤ) =
            3 + numberBytes js pair.1 + numberBytes js pair.2 := by
          rw [bytes_arr]
          simp only [List.map_cons, List.map_nil, List.sum_cons, List.sum_nil, List.length_cons,
            List.length_nil, bytes_num hjs, numberBytes]
          push_cast
          omega
        rw [boundsOf, List.map_cons, List.map_cons, List.map_cons, List.map_cons, List.map_cons,
          List.sum_cons, List.sum_cons, List.sum_cons]
        push_cast
        rw [hpair, ← boundsOf, ← ih]
        push_cast
        ring
  have ha := hsum a
  have hb := hsum b
  rw [bytes_arr, bytes_arr, List.length_map, List.length_map, hlength]
  rw [h, ← hb] at ha
  push_cast at ha ⊢
  omega

/-- What a merge can change is all a merged body's length differs by. -/
theorem fieldsBytes_sub_mergeable (hjs : AsciiNumbers js) {row : HistoricalRow} {body : RowBody}
    (hkind : body.kind = row.body.kind) (hlevel : body.level = row.body.level)
    (hshape : body.shape = row.body.shape) :
    (fieldsBytes js (bodyFields body) : ℤ) - fieldsBytes js (bodyFields row.body) =
      mergeableBytes js { row with body := body } - mergeableBytes js row := by
  obtain ⟨name, role, environment, appVersion, dimensions, os, own⟩ := row
  change body.kind = own.kind at hkind
  change body.level = own.level at hlevel
  change body.shape = own.shape at hshape
  cases body <;> cases own <;> first | (cases hkind; done) | skip
  case histogram.histogram a b =>
    have hbounds : boundsOf a.buckets = boundsOf b.buckets := (Prod.ext_iff.mp hshape).2
    have hbuckets := bytes_buckets hjs hbounds
    simp only [fieldsBytes, bodyFields, mergeableBytes, fieldBytes, bytes_num hjs, numberBytes,
      List.map_cons, List.map_nil, List.sum_cons, List.sum_nil] at hbuckets ⊢
    push_cast
    omega
  case log.log level a level' b =>
    cases hlevel
    simp only [fieldsBytes, bodyFields, mergeableBytes, fieldBytes, bytes_num hjs, numberBytes,
      List.map_cons, List.map_nil, List.sum_cons, List.sum_nil]
    push_cast
    omega
  all_goals
    simp only [fieldsBytes, bodyFields, mergeableBytes, fieldBytes, bytes_num hjs, bytes_registers,
      numberBytes, List.map_cons, List.map_nil, List.sum_cons, List.sum_nil]
    push_cast
    omega

/-- `mergedRowBytes` is the length of the merged row. -/
theorem rowBytes_mergeRow (hjs : AsciiNumbers js) {existing incoming merged : HistoricalRow}
    (h : mergeRow js existing incoming = .ok merged) :
    rowBytes js merged = mergedRowBytes js (rowBytes js existing) existing merged := by
  obtain ⟨body, hbody, rfl⟩ := mergeRow_ok_iff.mp h
  obtain ⟨hkind, hlevel, hshape⟩ := mergeBody_ok hbody
  have hdifference := fieldsBytes_sub_mergeable hjs hkind hlevel hshape
  rw [rowBytes_withBody hkind]
  unfold mergedRowBytes
  omega

/-! ## Buckets -/

/-- A bucket as `normalizeHistoryBucket` and `pending` build it. -/
def bucketJson (bucket : Bucket) : Json :=
  .obj [("project", .str bucket.project), ("tier", .str bucket.tier.text),
    ("from", .num bucket.bucketFrom), ("to", .num bucket.bucketTo),
    ("finalized", .bool bucket.finalized), ("dropCount", .num bucket.dropCount),
    ("rows", .arr (bucket.rows.map rowJson))]

/-- The bytes of a minute's bucket with the given rows. -/
def tableBytes (js : Js) (project : String) (bucketFrom : ℤ) (rows : Table String HistoricalRow) : ℤ :=
  emptyBucketBytes js project bucketFrom + rows.total (rowBytes js) + (rows.size - 1 : ℕ)

/-- The bucket a minute is pending as, not yet finalized. -/
def openBucket (js : Js) (settings : Settings) (project : String) (bucketFrom : ℤ)
    (rows : Table String HistoricalRow) : Bucket :=
  { minuteBucket js settings project bucketFrom bucketFrom rows with finalized := false }

theorem bytes_openBucket (settings : Settings) (project : String) (bucketFrom : ℤ)
    (rows : Table String HistoricalRow) :
    (bytes js (bucketJson (openBucket js settings project bucketFrom rows)) : ℤ) =
      tableBytes js project bucketFrom rows := by
  have hperm : (openBucket js settings project bucketFrom rows).rows.Perm rows.values :=
    (List.perm_insertionSort _ rows.entries).map Prod.snd
  have hlength : (openBucket js settings project bucketFrom rows).rows.length = rows.size := by
    rw [hperm.length_eq]
    exact List.length_map _
  have hsum : (((openBucket js settings project bucketFrom rows).rows.map rowJson).map
      (bytes js)).sum = rows.total (rowBytes js) := by
    have hrow : ∀ row, ((bytes js (rowJson row) : ℕ) : ℤ) = rowBytes js row := by
      intro row
      unfold rowBytes bytes
      rfl
    have hmap : ∀ rows : List HistoricalRow,
        ((rows.map rowJson).map (bytes js)).sum = (rows.map (rowBytes js)).sum := by
      intro rows
      induction rows with
      | nil => rfl
      | cons row rows ih =>
          rw [List.map_cons, List.map_cons, List.map_cons, List.sum_cons, List.sum_cons, ← ih,
            ← hrow, Nat.cast_add]
    rw [hmap]
    exact (hperm.map (rowBytes js)).sum_eq
  have hsplit : ∀ items : List Json, (bytes js (.obj [("project", .str project),
      ("tier", .str Tier.minute.text), ("from", .num bucketFrom),
      ("to", .num (bucketFrom + Tier.minute.width : ℤ)), ("finalized", .bool false),
      ("dropCount", .num 0), ("rows", .arr items)]) : ℤ) =
        emptyBucketBytes js project bucketFrom + (items.map (bytes js)).sum + (items.length - 1 : ℕ) := by
    intro items
    have hempty : emptyBucketBytes js project bucketFrom = bytes js (.obj [("project", .str project),
      ("tier", .str Tier.minute.text), ("from", .num bucketFrom),
      ("to", .num (bucketFrom + Tier.minute.width : ℤ)), ("finalized", .bool false),
      ("dropCount", .num 0), ("rows", .arr [])]) := rfl
    rw [hempty, bytes_obj, bytes_obj]
    simp only [List.map_cons, List.map_nil, List.sum_cons, List.sum_nil, List.length_cons,
      List.length_nil, fieldBytes, bytes_arr]
    push_cast
    omega
  have hjson : bucketJson (openBucket js settings project bucketFrom rows) =
      .obj [("project", .str project), ("tier", .str Tier.minute.text), ("from", .num bucketFrom),
        ("to", .num (bucketFrom + Tier.minute.width : ℤ)), ("finalized", .bool false),
        ("dropCount", .num 0),
        ("rows", .arr ((openBucket js settings project bucketFrom rows).rows.map rowJson))] := by
    simp only [bucketJson, openBucket, minuteBucket, Nat.cast_zero, Tier.width]
  rw [hjson, hsplit, hsum, List.length_map, hlength]
  rfl

/-- A new row adds its bytes, and a comma unless it is the first. -/
theorem tableBytes_put_of_none (project : String) (bucketFrom : ℤ) {rows : Table String HistoricalRow}
    {key : String} (row : HistoricalRow) (h : rows.get key = none) :
    tableBytes js project bucketFrom (rows.put key row) =
      tableBytes js project bucketFrom rows + (if 0 < rows.size then 1 else 0) + rowBytes js row := by
  unfold tableBytes
  rw [Table.total_put, Table.weightAt_of_none h, Table.size_put_of_none row h]
  split_ifs
  · omega
  · omega

/-- A row under a present key exchanges its bytes. -/
theorem tableBytes_put_of_some (project : String) (bucketFrom : ℤ) {rows : Table String HistoricalRow}
    {key : String} {old : HistoricalRow} (row : HistoricalRow) (h : rows.get key = some old) :
    tableBytes js project bucketFrom (rows.put key row) =
      tableBytes js project bucketFrom rows + (rowBytes js row - rowBytes js old) := by
  unfold tableBytes
  rw [Table.total_put, Table.weightAt_of_some h, Table.size_put_of_some row h]
  omega

/-! ## Minutes -/

/-- A minute's counts are the lengths of its rows and of its bucket. -/
structure Measured (js : Js) (project : String) (bucketFrom : ℤ) (state : MinuteState) : Prop where
  rowBytes : ∀ key, state.rowBytes.get key = (state.rows.get key).map (HistoryAccumulator.rowBytes js)
  bytes : state.bytes = tableBytes js project bucketFrom state.rows

theorem measured_emptyState (js : Js) (project : String) (bucketFrom : ℤ) :
    Measured js project bucketFrom (emptyState js project bucketFrom) := by
  refine ⟨fun key => rfl, ?_⟩
  change emptyBucketBytes js project bucketFrom = emptyBucketBytes js project bucketFrom + 0 + 0
  omega

theorem measured_addStoredRow {project : String} {bucketFrom : ℤ} {state : MinuteState}
    (h : Measured js project bucketFrom state) {row : HistoricalRow}
    (hnew : state.rows.get (historicalSeriesKey js row) = none) :
    Measured js project bucketFrom (addStoredRow js state row) := by
  refine ⟨fun key => ?_, ?_⟩
  · change (state.rowBytes.put _ _).get key = ((state.rows.put _ _).get key).map _
    rw [Table.get_put, Table.get_put, h.rowBytes]
    split_ifs
    · rfl
    · rfl
  · change state.bytes + _ + _ = _
    rw [h.bytes]
    exact (tableBytes_put_of_none project bucketFrom row hnew).symm

/-- Rows of a bucket with each series once. -/
def ListsOnce (js : Js) (bucket : Bucket) : Prop :=
  (bucket.rows.map (historicalSeriesKey js)).Nodup

theorem measured_stateFromBucket {bucket : Bucket} (h : ListsOnce js bucket) :
    Measured js bucket.project bucket.bucketFrom (stateFromBucket js bucket) := by
  have hfold : ∀ (rows : List HistoricalRow) (state : MinuteState),
      Measured js bucket.project bucket.bucketFrom state →
      (rows.map (historicalSeriesKey js)).Nodup →
      (∀ row ∈ rows, state.rows.get (historicalSeriesKey js row) = none) →
      Measured js bucket.project bucket.bucketFrom (rows.foldl (addStoredRow js) state) := by
    intro rows
    induction rows with
    | nil => exact fun state hstate _ _ => hstate
    | cons row rows ih =>
        intro state hstate hnodup hnew
        rw [List.map_cons, List.nodup_cons] at hnodup
        refine ih _ (measured_addStoredRow hstate (hnew row List.mem_cons_self)) hnodup.2 ?_
        intro other hother
        change (state.rows.put _ _).get _ = none
        have hne : historicalSeriesKey js other ≠ historicalSeriesKey js row := fun heq =>
          hnodup.1 (heq ▸ List.mem_map_of_mem hother)
        rw [Table.get_put_of_ne _ _ hne]
        exact hnew other (List.mem_cons_of_mem row hother)
  exact hfold bucket.rows _ (measured_emptyState js bucket.project bucket.bucketFrom) h
    fun _ _ => rfl

/-! ## Preparing -/

/-- What an update counts is what the minute would measure with it. -/
structure Projected (js : Js) (project : String) (bucketFrom : ℤ) (base : MinuteState)
    (update : Update) : Prop where
  rowBytes : ∀ key, update.rowBytes.get key = (update.rows.get key).map (HistoryAccumulator.rowBytes js)
  bytes : update.projectedBytes = tableBytes js project bucketFrom (update.over base)
  added : base.rows.size + update.added = (update.over base).size

theorem projected_start {project : String} {bucketFrom : ℤ} {base : MinuteState}
    (h : Measured js project bucketFrom base) :
    Projected js project bucketFrom base ⟨Table.empty, Table.empty, base.bytes, 0⟩ :=
  ⟨fun _ => rfl, h.bytes, rfl⟩

/-- A prepared row writes its key in both tables of the update. -/
theorem projected_written {project : String} {bucketFrom : ℤ} {base : MinuteState}
    {update next : Update} (h : Projected js project bucketFrom base update) {key : String}
    {merged : HistoricalRow} (hrows : next.rows = update.rows.put key merged)
    (hrowBytes : next.rowBytes = update.rowBytes.put key (HistoryAccumulator.rowBytes js merged))
    (hbytes : next.projectedBytes =
      tableBytes js project bucketFrom ((update.over base).put key merged))
    (hadded : base.rows.size + next.added = ((update.over base).put key merged).size) :
    Projected js project bucketFrom base next := by
  have hover : next.over base = (update.over base).put key merged := by
    unfold Update.over
    rw [hrows, Table.overlay_put]
  refine ⟨fun other => ?_, ?_, ?_⟩
  · rw [hrows, hrowBytes, Table.get_put, Table.get_put, h.rowBytes]
    split_ifs
    · rfl
    · rfl
  · rw [hbytes, hover]
  · rw [hadded, hover]

theorem projected_prepareRow (hjs : AsciiNumbers js) {project : String} {bucketFrom : ℤ}
    {base : MinuteState} (hbase : Measured js project bucketFrom base) {update next : Update}
    (h : Projected js project bucketFrom base update) {row : HistoricalRow} {label : String}
    (hrow : prepareRow js base update row label = .ok next) :
    Projected js project bucketFrom base next := by
  unfold prepareRow at hrow
  simp only [bind_eq_ok_iff, pure, Except.pure, Except.ok.injEq] at hrow
  obtain ⟨row, _, merged, hmerged, hnext⟩ := hrow
  have hget : (update.rows.get (historicalSeriesKey js row)).or
      (base.rows.get (historicalSeriesKey js row)) =
        (update.over base).get (historicalSeriesKey js row) := (Table.get_overlay _ _ _).symm
  have hprevious : (update.rowBytes.get (historicalSeriesKey js row)).or
      (base.rowBytes.get (historicalSeriesKey js row)) =
        ((update.over base).get (historicalSeriesKey js row)).map (HistoryAccumulator.rowBytes js) := by
    rw [h.rowBytes, hbase.rowBytes, ← hget]
    cases update.rows.get (historicalSeriesKey js row) <;> rfl
  rw [hget] at hmerged
  rw [hget, hprevious] at hnext
  cases hcurrent : (update.over base).get (historicalSeriesKey js row) with
  | none =>
      rw [hcurrent] at hmerged hnext
      simp only [Option.map_none, Option.isNone_none, if_true] at hnext
      have hsame : row = merged := Except.ok.inj hmerged
      subst hsame
      subst hnext
      apply projected_written h rfl rfl
      · rw [tableBytes_put_of_none project bucketFrom row hcurrent, ← h.bytes, ← h.added]
      · rw [Table.size_put_of_none row hcurrent, ← h.added, Nat.add_assoc]
  | some existing =>
      rw [hcurrent] at hmerged hnext
      simp only [Option.map_some, Option.isNone_some, Bool.false_eq_true, if_false] at hnext
      have hbytes := rowBytes_mergeRow hjs hmerged
      subst hnext
      apply projected_written h rfl
      · rw [hbytes]
      · rw [tableBytes_put_of_some project bucketFrom merged hcurrent, ← h.bytes, hbytes]
      · rw [Table.size_put_of_some merged hcurrent, ← h.added, Nat.add_zero]

theorem projected_prepareRows (hjs : AsciiNumbers js) {project : String} {bucketFrom : ℤ}
    {base : MinuteState} (hbase : Measured js project bucketFrom base) {index : ℕ}
    {update next : Update} {rows : List HistoricalRow}
    (h : Projected js project bucketFrom base update)
    (hrows : prepareRows js base index update rows = .ok next) :
    Projected js project bucketFrom base next := by
  induction rows generalizing index update with
  | nil =>
      cases hrows
      exact h
  | cons row rows ih =>
      obtain ⟨middle, hmiddle, hrest⟩ := bind_eq_ok_iff.mp hrows
      exact ih (projected_prepareRow hjs hbase h hmiddle) hrest

/-- Every minute of the table is measured. -/
def AllMeasured (js : Js) (acc : Accumulator) : Prop :=
  ∀ bucketFrom state, acc.states.get bucketFrom = some state →
    Measured js acc.project bucketFrom state

theorem AllMeasured.baseAt {acc : Accumulator} (h : AllMeasured js acc) (bucketFrom : ℤ) :
    Measured js acc.project bucketFrom (HistoryAccumulator.baseAt js acc bucketFrom) := by
  unfold HistoryAccumulator.baseAt
  cases hstate : acc.states.get bucketFrom with
  | none => exact measured_emptyState js acc.project bucketFrom
  | some state => exact h bucketFrom state hstate

/-- Every update counts what its minute would measure. -/
def AllProjected (js : Js) (acc : Accumulator) (updates : Table ℤ Update) : Prop :=
  ∀ bucketFrom update, updates.get bucketFrom = some update →
    Projected js acc.project bucketFrom (baseAt js acc bucketFrom) update

theorem allProjected_prepareFrames (hjs : AsciiNumbers js) {acc : Accumulator}
    (hacc : AllMeasured js acc) {envelope : Envelope} {persistLogs : List String}
    {updates next : Table ℤ Update} {frames : List Frame} (h : AllProjected js acc updates)
    (hframes : prepareFrames js acc envelope persistLogs updates frames = .ok next) :
    AllProjected js acc next := by
  induction frames generalizing updates with
  | nil =>
      cases hframes
      exact h
  | cons frame frames ih =>
      obtain ⟨update, hupdate, hrest⟩ := bind_eq_ok_iff.mp hframes
      refine ih ?_ hrest
      intro bucketFrom found hfound
      rw [Table.get_put] at hfound
      split_ifs at hfound with hminute
      · cases hfound
        rw [hminute]
        have hbase := hacc.baseAt (utcBucketStart frame.frameFrom .minute)
        refine projected_prepareRows hjs hbase ?_ hupdate
        cases hheld : updates.get (utcBucketStart frame.frameFrom .minute) with
        | none => exact projected_start hbase
        | some held => exact h _ held hheld
      · exact h bucketFrom found hfound

theorem allProjected_prepare (hjs : AsciiNumbers js) {settings : Settings} {acc : Accumulator}
    (hacc : AllMeasured js acc) {envelope : Envelope} {persistLogs : List String}
    {prepared : Prepared} (h : prepare js settings acc envelope persistLogs = .ok prepared) :
    AllProjected js acc prepared.updates := by
  unfold prepare at h
  simp only [bind_eq_ok_iff, pure, Except.pure, Except.ok.injEq] at h
  obtain ⟨_, _, updates, hupdates, rfl⟩ := h
  exact allProjected_prepareFrames hjs hacc (fun _ _ hnone => by simp at hnone) hupdates

/-! ## Committing -/

/-- A minute with an update written over it. -/
def writtenState (base : MinuteState) (update : Update) : MinuteState :=
  ⟨base.rows.overlay update.rows, base.rowBytes.overlay update.rowBytes, update.projectedBytes⟩

theorem states_foldl_commitUpdate (js : Js) (acc : Accumulator) {updates : List (ℤ × Update)}
    (hnodup : (updates.map Prod.fst).Nodup) (bucketFrom : ℤ) :
    (updates.foldl (fun acc entry => commitUpdate js acc entry.1 entry.2) acc).states.get bucketFrom =
      ((updates.lookup bucketFrom).map (writtenState (baseAt js acc bucketFrom))).or
        (acc.states.get bucketFrom) := by
  induction updates generalizing acc with
  | nil => rfl
  | cons entry updates ih =>
      obtain ⟨minute, update⟩ := entry
      rw [List.map_cons, List.nodup_cons] at hnodup
      have hget : ∀ m, (commitUpdate js acc minute update).states.get m =
          if m = minute then some (writtenState (baseAt js acc minute) update)
          else acc.states.get m := fun m => Table.get_put _ _ _ _
      rw [List.foldl_cons, ih _ hnodup.2, hget, List.lookup_cons]
      by_cases hm : bucketFrom = minute
      · subst hm
        have hnone : updates.lookup bucketFrom = none := by
          rw [List.lookup_eq_none_iff]
          intro entry hentry
          have hne : bucketFrom ≠ entry.1 := fun e =>
            hnodup.1 (List.mem_map.mpr ⟨entry, hentry, e.symm⟩)
          simpa using hne
        rw [hnone, if_pos rfl, beq_self_eq_true]
        rfl
      · have hbase : baseAt js (commitUpdate js acc minute update) bucketFrom =
            baseAt js acc bucketFrom := by
          unfold baseAt
          rw [hget, if_neg hm]
          rfl
        rw [hbase, if_neg hm, beq_eq_false_iff_ne.mpr hm]

theorem states_commit (js : Js) (acc : Accumulator) (prepared : Prepared) (bucketFrom : ℤ) :
    (commit js acc prepared).states.get bucketFrom =
      ((prepared.updates.get bucketFrom).map (writtenState (baseAt js acc bucketFrom))).or
        (acc.states.get bucketFrom) :=
  states_foldl_commitUpdate js (rememberVersion acc .minute prepared.role prepared.appVersion)
    prepared.updates.nodup bucketFrom

theorem mem_dirty_commit (js : Js) (acc : Accumulator) (prepared : Prepared) (bucketFrom : ℤ) :
    bucketFrom ∈ (commit js acc prepared).dirty ↔
      bucketFrom ∈ acc.dirty ∨ bucketFrom ∈ prepared.updates.keys :=
  (foldl_commitUpdate js (rememberVersion acc .minute prepared.role prepared.appVersion)
    prepared.updates.nodup).2.2.1 bucketFrom

/-- The accumulator's counts are right, and every pending minute is held once. -/
structure Accounted (js : Js) (acc : Accumulator) : Prop where
  measured : AllMeasured js acc
  held : ∀ bucketFrom ∈ acc.dirty, (acc.states.get bucketFrom).isSome = true
  nodup : acc.dirty.Nodup

theorem accounted_init (js : Js) (settings : Settings) : Accounted js (Accumulator.init settings) := by
  refine ⟨fun bucketFrom state hstate => ?_, fun _ hmem => ?_, List.nodup_nil⟩
  · change (Table.empty : Table ℤ MinuteState).get bucketFrom = some state at hstate
    rw [Table.get_empty] at hstate
    cases hstate
  · cases hmem

theorem accounted_commit {acc : Accumulator} (h : Accounted js acc) {prepared : Prepared}
    (hprojected : AllProjected js acc prepared.updates) :
    Accounted js (commit js acc prepared) := by
  have hfold := foldl_commitUpdate js
    (rememberVersion acc .minute prepared.role prepared.appVersion) prepared.updates.nodup
  have hproject : (commit js acc prepared).project = acc.project := hfold.1
  refine ⟨fun bucketFrom state hstate => ?_, fun bucketFrom hmem => ?_, hfold.2.2.2.2 h.nodup⟩
  · rw [states_commit] at hstate
    rw [hproject]
    cases hupdate : prepared.updates.get bucketFrom with
    | none =>
        rw [hupdate] at hstate
        exact h.measured bucketFrom state hstate
    | some update =>
        rw [hupdate] at hstate
        cases hstate
        have hbase := h.measured.baseAt bucketFrom
        have hwritten := hprojected bucketFrom update hupdate
        refine ⟨fun key => ?_, hwritten.bytes⟩
        change (Table.overlay _ _).get key = ((Table.overlay _ _).get key).map _
        rw [Table.get_overlay, Table.get_overlay, hwritten.rowBytes, hbase.rowBytes]
        cases update.rows.get key <;> rfl
  · rw [states_commit]
    rcases (mem_dirty_commit js acc prepared bucketFrom).mp hmem with hdirty | hkey
    · rw [Option.isSome_or, h.held bucketFrom hdirty, Bool.or_true]
    · rw [Option.isSome_or, Option.isSome_map, (Table.get_isSome_iff _ _).mpr hkey, Bool.true_or]

/-! ## Pending bytes -/

/-- The pending minutes, and the bytes they count. -/
def pendingTotals (js : Js) (acc : Accumulator) : ℕ × ℤ :=
  (acc.dirty.length, (acc.dirty.map fun bucketFrom => (baseAt js acc bucketFrom).bytes).sum)

theorem baseAt_of_some {acc : Accumulator} {bucketFrom : ℤ} {state : MinuteState}
    (h : acc.states.get bucketFrom = some state) : baseAt js acc bucketFrom = state := by
  unfold baseAt
  rw [h]
  rfl

/-- `projectedPending` sums a table of the pending minutes under the prepared ones. -/
theorem projectedPending_table (js : Js) (acc : Accumulator) (prepared : Prepared) :
    ∃ projected : Table ℤ ℤ,
      projectedPending js acc prepared = (projected.size, projected.values.sum) ∧
      ∀ bucketFrom, projected.get bucketFrom =
        ((prepared.updates.get bucketFrom).map Update.projectedBytes).or
          (if bucketFrom ∈ acc.dirty then some (baseAt js acc bucketFrom).bytes else none) := by
  have hpending : ∀ (minutes : List ℤ) (table : Table ℤ ℤ) (bucketFrom : ℤ),
      (minutes.foldl (fun table bucketFrom =>
        table.put bucketFrom (baseAt js acc bucketFrom).bytes) table).get bucketFrom =
        if bucketFrom ∈ minutes then some (baseAt js acc bucketFrom).bytes
        else table.get bucketFrom := by
    intro minutes
    induction minutes with
    | nil => exact fun table bucketFrom => rfl
    | cons minute minutes ih =>
        intro table bucketFrom
        rw [List.foldl_cons, ih, Table.get_put]
        by_cases hrest : bucketFrom ∈ minutes
        · rw [if_pos hrest, if_pos (List.mem_cons_of_mem minute hrest)]
        · by_cases hminute : bucketFrom = minute
          · rw [if_neg hrest, if_pos hminute, if_pos (hminute ▸ List.mem_cons_self), hminute]
          · rw [if_neg hrest, if_neg hminute,
              if_neg fun hmem => (List.mem_cons.mp hmem).elim hminute hrest]
  have hupdates : ∀ (table : Table ℤ ℤ) (bucketFrom : ℤ), (prepared.updates.entries.foldl
      (fun table entry => table.put entry.1 entry.2.projectedBytes) table).get bucketFrom =
        ((prepared.updates.get bucketFrom).map Update.projectedBytes).or (table.get bucketFrom) := by
    intro table bucketFrom
    have hpairs := Table.get_overlay table
      (prepared.updates.mapValues fun _ update => update.projectedBytes) bucketFrom
    rw [Table.get_mapValues] at hpairs
    rw [← hpairs]
    unfold Table.overlay Table.mapValues
    rw [List.foldl_map]
  refine ⟨_, rfl, fun bucketFrom => ?_⟩
  rw [hupdates]
  exact congrArg _ (hpending acc.dirty Table.empty bucketFrom)

/-- `projectedPending` is what is pending once the envelope is committed. -/
theorem projectedPending_eq {acc : Accumulator} (h : Accounted js acc) {prepared : Prepared}
    (hprojected : AllProjected js acc prepared.updates) :
    projectedPending js acc prepared = pendingTotals js (commit js acc prepared) := by
  obtain ⟨projected, heq, hget⟩ := projectedPending_table js acc prepared
  have hperm : (commit js acc prepared).dirty.Perm projected.keys := by
    refine (List.perm_ext_iff_of_nodup (accounted_commit h hprojected).nodup projected.nodup).mpr ?_
    intro bucketFrom
    change _ ↔ bucketFrom ∈ projected.keys
    rw [mem_dirty_commit, ← Table.get_isSome_iff, ← Table.get_isSome_iff, hget, Option.isSome_or,
      Option.isSome_map, Bool.or_eq_true, or_comm]
    split_ifs with hdirty
    · exact iff_of_true (Or.inr hdirty) (Or.inr rfl)
    · simp [hdirty]
  have hbytes : ∀ bucketFrom ∈ (commit js acc prepared).dirty,
      (baseAt js (commit js acc prepared) bucketFrom).bytes = projected.weightAt id bucketFrom := by
    intro bucketFrom hmem
    have hfound := hget bucketFrom
    have hstates := states_commit js acc prepared bucketFrom
    cases hupdate : prepared.updates.get bucketFrom with
    | some update =>
        rw [hupdate, Option.map_some, Option.some_or] at hfound hstates
        rw [Table.weightAt_of_some hfound, baseAt_of_some hstates]
        rfl
    | none =>
        have hdirty : bucketFrom ∈ acc.dirty := by
          rcases (mem_dirty_commit js acc prepared bucketFrom).mp hmem with hdirty | hkey
          · exact hdirty
          · exact absurd hkey ((Table.get_eq_none_iff _ _).mp hupdate)
        obtain ⟨state, hstate⟩ := Option.isSome_iff_exists.mp (h.held bucketFrom hdirty)
        rw [hupdate, Option.map_none, Option.none_or, if_pos hdirty] at hfound
        rw [hupdate, Option.map_none, Option.none_or, hstate] at hstates
        rw [Table.weightAt_of_some hfound, baseAt_of_some hstates, baseAt_of_some hstate]
        rfl
  have htotal := Table.total_of_perm hperm hbytes
  unfold Table.total at htotal
  rw [List.map_id] at htotal
  rw [heq, Table.size_eq_length_keys, ← hperm.length_eq, ← htotal]
  rfl

/-! ## Seeding -/

/-- A stored bucket with each series once, as its rows are read. -/
def SeedsOnce (js : Js) (bucket : Bucket) : Prop :=
  (bucket.rows.map fun row => historicalSeriesKey js (normalized js row)).Nodup

theorem normalizeRows_ok {label : String} {index : ℕ} {rows out : List HistoricalRow}
    (h : normalizeRows js label index rows = .ok out) :
    out = rows.map (normalized js) ∧ ∀ row ∈ rows, ValidRow row := by
  induction rows generalizing index out with
  | nil =>
      cases h
      exact ⟨rfl, by simp⟩
  | cons row rows ih =>
      simp only [normalizeRows, bind_eq_ok_iff, normalizeHistoricalRow_eq_ok_iff, pure, Except.pure,
        Except.ok.injEq] at h
      obtain ⟨_, ⟨hvalid, rfl⟩, rest, hrest, rfl⟩ := h
      obtain ⟨rfl, hrows⟩ := ih hrest
      exact ⟨rfl, List.forall_mem_cons.mpr ⟨hvalid, hrows⟩⟩

/-- What a seed reads is the bucket with its rows normalized and sorted. -/
theorem normalizeHistoryBucket_ok {bucket normal : Bucket} {label : String}
    (h : normalizeHistoryBucket js bucket label = .ok normal) :
    normal.bucketFrom = bucket.bucketFrom ∧ normal.tier = bucket.tier ∧
      normal.rows.Perm (bucket.rows.map (normalized js)) ∧ ∀ row ∈ normal.rows, NormalRow js row := by
  unfold normalizeHistoryBucket at h
  simp only [bind_eq_ok_iff, pure, Except.pure, Except.ok.injEq] at h
  obtain ⟨_, _, rows, hrows, _, _, rfl⟩ := h
  obtain ⟨rfl, hvalid⟩ := normalizeRows_ok hrows
  have hperm : (sortRows js (bucket.rows.map (normalized js))).Perm (bucket.rows.map (normalized js)) :=
    sortRows_perm js _
  refine ⟨rfl, rfl, hperm, fun row hrow => ?_⟩
  obtain ⟨source, hsource, rfl⟩ := List.mem_map.mp (hperm.mem_iff.mp hrow)
  exact normalRow_normalized (hvalid source hsource)

theorem foldl_rememberVersion (acc : Accumulator) (tier : Tier) (rows : List HistoricalRow) :
    let after := rows.foldl (fun acc row => rememberVersion acc tier row.role row.appVersion) acc
    after.project = acc.project ∧ after.states = acc.states ∧ after.dirty = acc.dirty := by
  induction rows generalizing acc with
  | nil => exact ⟨rfl, rfl, rfl⟩
  | cons row rows ih => exact ih (rememberVersion acc tier row.role row.appVersion)

/-- A seeded minute replaces the one held, and leaves what is pending. -/
theorem seedBucket_ok {acc after : Accumulator} {bucket : Bucket}
    (h : seedBucket js acc bucket = .ok after) :
    ∃ normal, normalizeHistoryBucket js bucket "history bucket" = .ok normal ∧
      normal.project = acc.project ∧ after.project = acc.project ∧ after.dirty = acc.dirty ∧
      ∀ bucketFrom, after.states.get bucketFrom =
        if bucket.tier = .minute ∧ bucketFrom = bucket.bucketFrom then
          some (stateFromBucket js normal)
        else acc.states.get bucketFrom := by
  unfold seedBucket at h
  simp only [bind_eq_ok_iff, require_eq_ok_iff, decide_eq_true_eq, exists_const, pure, Except.pure,
    Except.ok.injEq] at h
  obtain ⟨normal, hnormal, hproject, rfl⟩ := h
  obtain ⟨hstart, htier, _, _⟩ := normalizeHistoryBucket_ok hnormal
  refine ⟨normal, hnormal, hproject, ?_⟩
  rw [htier]
  by_cases hminute : bucket.tier = .minute
  · rw [if_pos hminute]
    obtain ⟨hp, hs, hd⟩ := foldl_rememberVersion
      { acc with states := acc.states.put normal.bucketFrom (stateFromBucket js normal) }
      bucket.tier normal.rows
    refine ⟨hp, hd, fun bucketFrom => ?_⟩
    rw [hs, Table.get_put, hstart]
    simp only [hminute, true_and]
  · rw [if_neg hminute]
    obtain ⟨hp, hs, hd⟩ := foldl_rememberVersion acc bucket.tier normal.rows
    refine ⟨hp, hd, fun bucketFrom => ?_⟩
    rw [hs, if_neg fun hboth => hminute hboth.1]

theorem accounted_seedBucket {acc after : Accumulator} (h : Accounted js acc) {bucket : Bucket}
    (honce : bucket.tier = .minute → SeedsOnce js bucket)
    (hseed : seedBucket js acc bucket = .ok after) : Accounted js after := by
  obtain ⟨normal, hnormal, hproject, hafter, hdirty, hstates⟩ := seedBucket_ok hseed
  obtain ⟨hstart, _, hperm, _⟩ := normalizeHistoryBucket_ok hnormal
  have hlists : bucket.tier = .minute → ListsOnce js normal := by
    intro hminute
    have hkeys := (hperm.map (historicalSeriesKey js)).nodup_iff
    rw [List.map_map] at hkeys
    exact hkeys.mpr (honce hminute)
  refine ⟨fun bucketFrom state hstate => ?_, fun bucketFrom hmem => ?_, hdirty ▸ h.nodup⟩
  · rw [hstates] at hstate
    rw [hafter]
    split_ifs at hstate with hseeded
    · cases hstate
      rw [hseeded.2, ← hproject, ← hstart]
      exact measured_stateFromBucket (hlists hseeded.1)
    · exact h.measured bucketFrom state hstate
  · rw [hdirty] at hmem
    rw [hstates]
    split_ifs
    · rfl
    · exact h.held bucketFrom hmem

/-! ## Sequences of calls -/

/-- The limits of `config.sqlite` on what may be pending. -/
structure PendingLimits where
  maxPendingBatches : ℕ
  maxPendingBytes : ℕ
deriving DecidableEq, Repr

/-- `canAcceptHistory`. -/
def canAcceptHistory (limits : PendingLimits) (js : Js) (acc : Accumulator) (prepared : Prepared) :
    Bool :=
  (projectedPending js acc prepared).1 ≤ limits.maxPendingBatches &&
    (projectedPending js acc prepared).2 ≤ limits.maxPendingBytes

/-- What sequences of calls reach. A prepared envelope is committed before any
other call; `admits` and `seeds` restrict what is committed and what is seeded. -/
inductive Reached (js : Js) (settings : Settings) (admits : Accumulator → Prepared → Prop)
    (seeds : Accumulator → Bucket → Prop) : Accumulator → Prop
  | init : Reached js settings admits seeds (Accumulator.init settings)
  | ingest {acc : Accumulator} (envelope : Envelope) (persistLogs : List String) {prepared : Prepared}
      (hreached : Reached js settings admits seeds acc)
      (hprepare : prepare js settings acc envelope persistLogs = .ok prepared)
      (hadmits : admits acc prepared) : Reached js settings admits seeds (commit js acc prepared)
  | acknowledge {acc : Accumulator} (buckets : List Bucket)
      (hreached : Reached js settings admits seeds acc) :
      Reached js settings admits seeds (acknowledge acc buckets)
  | prunePersisted {acc : Accumulator} (through : ℤ) (hreached : Reached js settings admits seeds acc) :
      Reached js settings admits seeds (prunePersisted acc through)
  | seed {acc after : Accumulator} (bucket : Bucket) (hreached : Reached js settings admits seeds acc)
      (hseeds : seeds acc bucket) (hseed : seedBucket js acc bucket = .ok after) :
      Reached js settings admits seeds after

/-- A committed envelope was accepted. -/
def Accepted (limits : PendingLimits) (js : Js) (acc : Accumulator) (prepared : Prepared) : Prop :=
  canAcceptHistory limits js acc prepared = true

/-- A seeded minute lists each series once. -/
def ListedSeed (js : Js) (_ : Accumulator) (bucket : Bucket) : Prop :=
  bucket.tier = .minute → SeedsOnce js bucket

/-- A seeded minute lists each series once and is not pending. -/
def FreshSeed (js : Js) (acc : Accumulator) (bucket : Bucket) : Prop :=
  bucket.tier = .minute → SeedsOnce js bucket ∧ bucket.bucketFrom ∉ acc.dirty

theorem accounted_acknowledge {acc : Accumulator} (h : Accounted js acc) (buckets : List Bucket) :
    Accounted js (acknowledge acc buckets) :=
  ⟨h.measured, fun bucketFrom hmem => h.held bucketFrom (List.mem_of_mem_filter hmem),
    h.nodup.filter _⟩

theorem states_prunePersisted_of_dirty (acc : Accumulator) (through : ℤ) {bucketFrom : ℤ}
    (h : bucketFrom ∈ acc.dirty) :
    (prunePersisted acc through).states.get bucketFrom = acc.states.get bucketFrom := by
  unfold prunePersisted
  rw [Table.get_filter]
  cases acc.states.get bucketFrom with
  | none => rfl
  | some state => simp [h]

theorem accounted_prunePersisted {acc : Accumulator} (h : Accounted js acc) (through : ℤ) :
    Accounted js (prunePersisted acc through) := by
  refine ⟨fun bucketFrom state hstate => ?_, fun bucketFrom hmem => ?_, h.nodup⟩
  · unfold prunePersisted at hstate
    rw [Table.get_filter] at hstate
    obtain ⟨hfound, _⟩ := Option.filter_eq_some_iff.mp hstate
    exact h.measured bucketFrom state hfound
  · rw [states_prunePersisted_of_dirty acc through hmem]
    exact h.held bucketFrom hmem

theorem accounted_reached (hjs : AsciiNumbers js) {settings : Settings}
    {admits : Accumulator → Prepared → Prop} {seeds : Accumulator → Bucket → Prop}
    (hseeds : ∀ acc bucket, seeds acc bucket → bucket.tier = .minute → SeedsOnce js bucket)
    {acc : Accumulator}
    (h : Reached js settings admits seeds acc) : Accounted js acc := by
  induction h with
  | init => exact accounted_init js settings
  | ingest _ _ _ hprepare _ ih =>
      exact accounted_commit ih (allProjected_prepare hjs ih.measured hprepare)
  | acknowledge buckets _ ih => exact accounted_acknowledge ih buckets
  | prunePersisted through _ ih => exact accounted_prunePersisted ih through
  | seed bucket _ hadmitted hseed ih => exact accounted_seedBucket ih (hseeds _ bucket hadmitted) hseed

/-! ## What is handed to the store -/

/-- Rows are kept normalized, under their own keys. -/
structure RowsKept (js : Js) (acc : Accumulator) : Prop where
  keyed : ∀ bucketFrom, (seriesMerge js).Keyed (rowsAt acc bucketFrom)
  normal : ∀ bucketFrom key row, (rowsAt acc bucketFrom).get key = some row → NormalRow js row

theorem rowsKept_of_empty {acc : Accumulator} (h : ∀ bucketFrom, rowsAt acc bucketFrom = Table.empty) :
    RowsKept js acc := by
  refine ⟨fun bucketFrom => ?_, fun bucketFrom key row hrow => ?_⟩
  · rw [h]
    exact GuardedMerge.keyed_empty _
  · rw [h, Table.get_empty] at hrow
    cases hrow

/-- A minute that was left alone, dropped, or given other kept rows. -/
theorem RowsKept.of_cases {acc after : Accumulator} (h : RowsKept js acc)
    (hcases : ∀ bucketFrom, rowsAt after bucketFrom = rowsAt acc bucketFrom ∨
      ((seriesMerge js).Keyed (rowsAt after bucketFrom) ∧
        ∀ key row, (rowsAt after bucketFrom).get key = some row → NormalRow js row)) :
    RowsKept js after := by
  refine ⟨fun bucketFrom => ?_, fun bucketFrom => ?_⟩
  · rcases hcases bucketFrom with hsame | hnew
    · rw [hsame]
      exact h.keyed bucketFrom
    · exact hnew.1
  · rcases hcases bucketFrom with hsame | hnew
    · rw [hsame]
      exact h.normal bucketFrom
    · exact hnew.2

/-- The rows read from a bucket are put under their keys. -/
theorem get_stateFromBucket {bucket : Bucket} {key : String} {row : HistoricalRow}
    (h : (stateFromBucket js bucket).rows.get key = some row) :
    historicalSeriesKey js row = key ∧ row ∈ bucket.rows := by
  have hfold : ∀ (rows : List HistoricalRow) (state : MinuteState),
      (rows.foldl (addStoredRow js) state).rows.get key = some row →
        (historicalSeriesKey js row = key ∧ row ∈ rows) ∨ state.rows.get key = some row := by
    intro rows
    induction rows with
    | nil => exact fun state hstate => Or.inr hstate
    | cons first rows ih =>
        intro state hstate
        rcases ih _ hstate with ⟨hkey, hmem⟩ | hput
        · exact Or.inl ⟨hkey, List.mem_cons_of_mem first hmem⟩
        · change (state.rows.put _ _).get key = some row at hput
          rw [Table.get_put] at hput
          split_ifs at hput with hkey
          · cases hput
            exact Or.inl ⟨hkey.symm, List.mem_cons_self⟩
          · exact Or.inr hput
  rcases hfold bucket.rows (emptyState js bucket.project bucket.bucketFrom) h with hread | hempty
  · exact hread
  · cases hempty

theorem rowsKept_reached {settings : Settings} {admits : Accumulator → Prepared → Prop}
    {seeds : Accumulator → Bucket → Prop} {acc : Accumulator}
    (h : Reached js settings admits seeds acc) : RowsKept js acc := by
  induction h with
  | init => exact rowsKept_of_empty fun _ => rfl
  | acknowledge _ _ ih => exact ih.of_cases fun _ => Or.inl rfl
  | ingest envelope persistLogs _ hprepare _ ih =>
      have hcommitted := commit_prepare hprepare
      refine ih.of_cases fun bucketFrom => Or.inr ⟨?_, ?_⟩
      · exact (GuardedMerge.insertAll_ok (ih.keyed bucketFrom) (hcommitted.rows bucketFrom)).1
      · have hmerge : ∀ a b c, NormalRow js a → NormalRow js b →
            (seriesMerge js).merge a b = .ok c → NormalRow js c :=
          fun a b c ha hb hc => mergeRow_normal ha hb hc
        refine GuardedMerge.insertAll_forall hmerge (ih.normal bucketFrom) ?_
          (hcommitted.rows bucketFrom)
        intro row hrow
        obtain ⟨frame, hframe, hrow⟩ := List.mem_flatMap.mp hrow
        split_ifs at hrow
        · obtain ⟨source, hsource, rfl⟩ := List.mem_map.mp hrow
          exact normalRow_normalized (hcommitted.valid frame hframe source hsource)
        · cases hrow
  | @prunePersisted acc through _ ih =>
      refine ih.of_cases fun bucketFrom => ?_
      unfold rowsAt prunePersisted
      rw [Table.get_filter]
      cases acc.states.get bucketFrom with
      | none => exact Or.inl rfl
      | some state =>
          rw [Option.filter_some]
          split_ifs
          · exact Or.inl rfl
          · refine Or.inr ⟨GuardedMerge.keyed_empty _, fun key row hrow => ?_⟩
            cases hrow
  | @seed acc after bucket _ _ hseed ih =>
      obtain ⟨normal, hnormal, _, _, _, hstates⟩ := seedBucket_ok hseed
      obtain ⟨_, _, _, hrows⟩ := normalizeHistoryBucket_ok hnormal
      refine ih.of_cases fun bucketFrom => ?_
      unfold rowsAt
      rw [hstates]
      split_ifs
      · refine Or.inr ⟨fun key row hrow => (get_stateFromBucket hrow).1, fun key row hrow => ?_⟩
        exact hrows row (get_stateFromBucket hrow).2
      · exact Or.inl rfl

/-- Every bucket that is listed for the store lists each series once. -/
theorem pending_seedsOnce {settings : Settings} {admits : Accumulator → Prepared → Prop}
    {seeds : Accumulator → Bucket → Prop} {acc : Accumulator}
    (h : Reached js settings admits seeds acc) (now : ℤ) :
    ∀ bucket ∈ pending js settings acc now, SeedsOnce js bucket := by
  have hkept := rowsKept_reached h
  intro bucket hbucket
  obtain ⟨bucketFrom, _, rfl⟩ := List.mem_map.mp hbucket
  change SeedsOnce js (minuteBucket js settings acc.project now bucketFrom
    (baseAt js acc bucketFrom).rows)
  rw [baseAt_rows]
  unfold SeedsOnce
  have hsame : ∀ row ∈ (minuteBucket js settings acc.project now bucketFrom
      (rowsAt acc bucketFrom)).rows, historicalSeriesKey js (normalized js row) =
        historicalSeriesKey js row := by
    intro row hrow
    obtain ⟨entry, hentry, rfl⟩ := List.mem_map.mp hrow
    have hmem : entry ∈ (rowsAt acc bucketFrom).entries :=
      (List.perm_insertionSort _ _).mem_iff.mp hentry
    have hget := (Table.get_eq_some_iff (rowsAt acc bucketFrom) entry.1 entry.2).mpr hmem
    rw [(hkept.normal bucketFrom entry.1 entry.2 hget).fixed]
  rw [List.map_congr_left hsame]
  exact nodup_keys_minuteBucket (hkept.keyed bucketFrom)

/-! ## The bound -/

/-- What is pending stays within the limits. -/
def Within (limits : PendingLimits) (totals : ℕ × ℤ) : Prop :=
  totals.1 ≤ limits.maxPendingBatches ∧ totals.2 ≤ limits.maxPendingBytes

theorem canAcceptHistory_iff {limits : PendingLimits} {acc : Accumulator} {prepared : Prepared} :
    canAcceptHistory limits js acc prepared = true ↔
      Within limits (projectedPending js acc prepared) := by
  unfold canAcceptHistory Within
  rw [Bool.and_eq_true, decide_eq_true_eq, decide_eq_true_eq]

/-- No minute counts a negative number of bytes. -/
theorem Measured.bytes_nonneg {project : String} {bucketFrom : ℤ} {state : MinuteState}
    (h : Measured js project bucketFrom state) : 0 ≤ state.bytes := by
  have hrows : 0 ≤ state.rows.total (HistoryAccumulator.rowBytes js) := by
    unfold Table.total
    refine List.sum_nonneg fun bytes hbytes => ?_
    obtain ⟨row, _, rfl⟩ := List.mem_map.mp hbytes
    exact Int.natCast_nonneg _
  have hempty : 0 ≤ emptyBucketBytes js project bucketFrom := Int.natCast_nonneg _
  rw [h.bytes]
  unfold tableBytes
  omega

/-- Fewer pending minutes are no more batches and no more bytes. -/
theorem within_of_sublist {limits : PendingLimits} {acc after : Accumulator} (h : Accounted js acc)
    (hdirty : after.dirty.Sublist acc.dirty)
    (hbytes : ∀ bucketFrom ∈ after.dirty,
      (baseAt js after bucketFrom).bytes = (baseAt js acc bucketFrom).bytes)
    (hwithin : Within limits (pendingTotals js acc)) : Within limits (pendingTotals js after) := by
  have hsum : (after.dirty.map fun bucketFrom => (baseAt js after bucketFrom).bytes).sum ≤
      (acc.dirty.map fun bucketFrom => (baseAt js acc bucketFrom).bytes).sum := by
    rw [List.map_congr_left hbytes]
    refine (hdirty.map fun bucketFrom => (baseAt js acc bucketFrom).bytes).sum_le_sum ?_
    intro bytes hmem
    obtain ⟨bucketFrom, _, rfl⟩ := List.mem_map.mp hmem
    exact (h.measured.baseAt bucketFrom).bytes_nonneg
  exact ⟨hdirty.length_le.trans hwithin.1, hsum.trans hwithin.2⟩

theorem within_reached (hjs : AsciiNumbers js) {settings : Settings} {limits : PendingLimits}
    {acc : Accumulator}
    (h : Reached js settings (Accepted limits js) (FreshSeed js) acc) :
    Within limits (pendingTotals js acc) := by
  have haccounted : ∀ {acc : Accumulator},
      Reached js settings (Accepted limits js) (FreshSeed js) acc → Accounted js acc :=
    fun hreached => accounted_reached hjs (fun _ _ hseeds hminute => (hseeds hminute).1) hreached
  induction h with
  | init => exact ⟨Nat.zero_le _, Int.natCast_nonneg _⟩
  | ingest _ _ hreached hprepare hadmits _ =>
      have hbefore := haccounted hreached
      rw [← projectedPending_eq hbefore (allProjected_prepare hjs hbefore.measured hprepare)]
      exact canAcceptHistory_iff.mp hadmits
  | acknowledge buckets hreached ih =>
      exact within_of_sublist (haccounted hreached) List.filter_sublist (fun _ _ => rfl) ih
  | @prunePersisted acc through hreached ih =>
      refine within_of_sublist (haccounted hreached) (List.Sublist.refl acc.dirty) ?_ ih
      intro bucketFrom hmem
      unfold baseAt
      rw [states_prunePersisted_of_dirty acc through hmem]
      rfl
  | @seed acc after bucket hreached hseeds hseed ih =>
      obtain ⟨normal, _, _, hproject, hdirty, hstates⟩ := seedBucket_ok hseed
      refine within_of_sublist (haccounted hreached) (hdirty ▸ List.Sublist.refl _) ?_ ih
      intro bucketFrom hmem
      rw [hdirty] at hmem
      have hother : ¬ (bucket.tier = .minute ∧ bucketFrom = bucket.bucketFrom) := fun hboth =>
        (hseeds hboth.1).2 (hboth.2 ▸ hmem)
      unfold baseAt
      rw [hstates, if_neg hother, hproject]

/-- After every sequence of calls in which a prepared envelope is committed
before the next call and a seeded bucket lists each series once: every minute
counts the bytes of its bucket, and `projectedPending` of a prepared envelope is
what is pending once it is committed. If only accepted envelopes were committed
and no pending minute was seeded over, what is pending is within the limits. -/
theorem pendingBytes_exact_and_bounded (js : Js) (hjs : AsciiNumbers js) (settings : Settings)
    (limits : PendingLimits) :
    (∀ acc, Reached js settings (fun _ _ => True) (ListedSeed js) acc →
      (∀ bucketFrom state, acc.states.get bucketFrom = some state →
        state.bytes =
          bytes js (bucketJson (openBucket js settings acc.project bucketFrom state.rows))) ∧
      (∀ bucketFrom ∈ acc.dirty, (acc.states.get bucketFrom).isSome = true) ∧
      ∀ envelope persistLogs prepared,
        prepare js settings acc envelope persistLogs = .ok prepared →
          projectedPending js acc prepared = pendingTotals js (commit js acc prepared)) ∧
    ∀ acc, Reached js settings (Accepted limits js) (FreshSeed js) acc →
        (pendingTotals js acc).1 ≤ limits.maxPendingBatches ∧
          (pendingTotals js acc).2 ≤ limits.maxPendingBytes := by
  constructor
  · intro acc hreached
    have haccounted := accounted_reached hjs (fun _ _ hseeds => hseeds) hreached
    refine ⟨fun bucketFrom state hstate => ?_, haccounted.held, fun envelope persistLogs prepared h => ?_⟩
    · rw [bytes_openBucket]
      exact (haccounted.measured bucketFrom state hstate).bytes
    · exact projectedPending_eq haccounted (allProjected_prepare hjs haccounted.measured h)
  · exact fun acc hreached => within_reached hjs hreached

theorem asciiNumbers_of_numberTexts (h : NumberTexts js) : AsciiNumbers js := by
  intro q c hc
  rcases h.chars q c hc with hdigit | hother
  · have hrange : 48 ≤ c.toNat ∧ c.toNat ≤ 57 := by
      simpa [Char.isDigit, UInt32.le_iff_toNat_le] using hdigit
    omega
  · simp only [List.mem_cons, List.not_mem_nil, or_false] at hother
    rcases hother with rfl | rfl | rfl | rfl | rfl <;> decide

/-- A client counting one visit under each name, in the first minute. -/
def visits (names : List String) : Envelope where
  protocol := 1
  project := "shop"
  sdk := ⟨"wardx", "1.0.0"⟩
  client := ⟨"i-1", "s-1", "web", "1.0.0", "prod", "browser", none, none⟩
  configVersion := 1
  configContext := none
  frames := [⟨0, 0, 1000, ⟨names.map fun name => ⟨name, none, 1⟩, [], [], none⟩, [], []⟩]

def visitRow (name : String) : HistoricalRow :=
  ⟨name, "web", "prod", "1.0.0", none, none, .counter 1⟩

/-- The first minute as it may be stored. -/
def storedMinute (names : List String) : Bucket :=
  ⟨"shop", .minute, 0, 60000, false, 0, names.map visitRow⟩

def minuteSettings : Settings where
  project := "shop"
  clockSkewAllowanceMs := 1
  maxAppVersions := 1
  project_ne := by decide
  clockSkewAllowanceMs_pos := le_rfl
  maxAppVersions_pos := le_rfl

def oneMinute : PendingLimits := ⟨1, 300⟩

/-- Whether the first minute counts the bytes of its bucket. -/
def countsBucket (acc : Accumulator) : Option Bool :=
  (acc.states.get 0).map fun state => decide (state.bytes =
    (bytes Js.plain (bucketJson
      (openBucket Js.plain minuteSettings acc.project 0 state.rows)) : ℤ))

theorem pendingBytes_exact_visits :
    ∃ prepared, prepare Js.plain minuteSettings (Accumulator.init minuteSettings) (visits ["a"]) [] =
        .ok prepared ∧
      projectedPending Js.plain (Accumulator.init minuteSettings) prepared =
        pendingTotals Js.plain (commit Js.plain (Accumulator.init minuteSettings) prepared) ∧
      (pendingTotals Js.plain (commit Js.plain (Accumulator.init minuteSettings) prepared)).1 ≤ 1 ∧
      (pendingTotals Js.plain (commit Js.plain (Accumulator.init minuteSettings) prepared)).2 ≤ 300 := by
  have hok : ((prepare Js.plain minuteSettings (Accumulator.init minuteSettings) (visits ["a"])
      []).toOption.map fun prepared => canAcceptHistory oneMinute Js.plain
        (Accumulator.init minuteSettings) prepared) = some true := by decide +kernel
  obtain ⟨prepared, hprepared, haccepted⟩ := Option.map_eq_some_iff.mp hok
  have hprepare : prepare Js.plain minuteSettings (Accumulator.init minuteSettings) (visits ["a"]) [] =
      .ok prepared := by
    cases hout : prepare Js.plain minuteSettings (Accumulator.init minuteSettings) (visits ["a"]) [] with
    | error e =>
        rw [hout] at hprepared
        cases hprepared
    | ok found =>
        rw [hout] at hprepared
        exact congrArg Except.ok (Option.some.inj hprepared)
  have hmain := pendingBytes_exact_and_bounded Js.plain
    (asciiNumbers_of_numberTexts numberTexts_plain) minuteSettings oneMinute
  have hprojected := (hmain.1 _ Reached.init).2.2 (visits ["a"]) [] prepared hprepare
  exact ⟨prepared, hprepare, hprojected,
    hmain.2 _ (Reached.ingest (visits ["a"]) [] Reached.init hprepare haccepted)⟩

/-- Without these conditions the counts go wrong: a seeded bucket that lists a
series twice; two envelopes prepared before either is committed; and a pending
minute seeded over, which passes the limit with only accepted envelopes. -/
theorem pendingBytes_miscounted :
    ((seedBucket Js.plain (Accumulator.init minuteSettings) (storedMinute ["a", "a"])).toOption.bind
        countsBucket = some false) ∧
      ((prepare Js.plain minuteSettings (Accumulator.init minuteSettings) (visits ["a"])
        []).toOption.bind fun first =>
          (prepare Js.plain minuteSettings (Accumulator.init minuteSettings) (visits ["b"])
            []).toOption.bind fun second =>
              countsBucket (commit Js.plain (commit Js.plain (Accumulator.init minuteSettings) first)
                second)) = some false ∧
      ((prepare Js.plain minuteSettings (Accumulator.init minuteSettings) (visits ["a"])
        []).toOption.bind fun prepared =>
          (seedBucket Js.plain (commit Js.plain (Accumulator.init minuteSettings) prepared)
            (storedMinute ["a", "b", "c"])).toOption.map fun after =>
              (canAcceptHistory oneMinute Js.plain (Accumulator.init minuteSettings) prepared,
                decide ((pendingTotals Js.plain after).2 ≤ oneMinute.maxPendingBytes))) =
        some (true, false) := by
  have hcounts : countsBucket = fun acc => (acc.states.get 0).map fun state =>
      decide (state.bytes = tableBytes Js.plain acc.project 0 state.rows) := by
    unfold countsBucket
    simp only [bytes_openBucket]
  rw [hcounts]
  refine ⟨by decide +kernel, by decide +kernel, by decide +kernel⟩

end Wardx.HistoryAccumulator
