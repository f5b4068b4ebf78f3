import Wardx.Aggregation.HistoryCompaction
import Wardx.Aggregation.SeriesAlgebra

/-!
# The order of frames

The frames accepted for a minute are prepared one by one against what the minute
holds. Each is accepted whatever came before it as long as the histograms of the
minute share their bounds, and the minute ends up with the merge of all their
rows. Which order they came in, and how they were grouped into envelopes, then
shows in one way only: a row keeps the identity of the first row of its key.
-/
namespace Wardx.HistoryCompaction

open Lib HistoryBucket HistoryAccumulator HistoryStore

/-! ## When an envelope is accepted -/

theorem prepareRow_isOk {js : Js} {base : MinuteState} {update : Update} {row : HistoricalRow}
    (label : String) {t : Table String HistoricalRow} (hvalid : ValidRow row)
    (h : (seriesMerge js).insert (update.over base) (normalized js row) = .ok t) :
    ∃ next, prepareRow js base update row label = .ok next ∧ next.over base = t := by
  have hget : (update.over base).get (historicalSeriesKey js (normalized js row)) =
      (update.rows.get (historicalSeriesKey js (normalized js row))).or
        (base.rows.get (historicalSeriesKey js (normalized js row))) :=
    Table.get_overlay _ _ _
  have hmerged : ∃ merged, mergedWith js
      ((update.rows.get (historicalSeriesKey js (normalized js row))).or
        (base.rows.get (historicalSeriesKey js (normalized js row)))) (normalized js row) =
          .ok merged := by
    unfold GuardedMerge.insert at h
    rw [show (seriesMerge js).key (normalized js row) =
      historicalSeriesKey js (normalized js row) from rfl, hget] at h
    cases hcurrent : (update.rows.get (historicalSeriesKey js (normalized js row))).or
        (base.rows.get (historicalSeriesKey js (normalized js row))) with
    | none => exact ⟨normalized js row, rfl⟩
    | some existing =>
        rw [hcurrent] at h
        simp only [bind_eq_ok_iff] at h
        obtain ⟨merged, hm, -⟩ := h
        exact ⟨merged, hm⟩
  obtain ⟨merged, hm⟩ := hmerged
  have hnormal := (normalizeHistoricalRow_eq_ok_iff js row _ label).mpr ⟨hvalid, rfl⟩
  have hok : ∃ next, prepareRow js base update row label = .ok next := by
    unfold prepareRow
    simp only [hnormal, bind_eq_ok_iff, Except.ok.injEq, exists_eq_left', hm]
    exact ⟨_, rfl⟩
  obtain ⟨next, hnext⟩ := hok
  have hover := (prepareRow_spec hnext).2
  exact ⟨next, hnext, Except.ok.inj (hover.symm.trans h)⟩

theorem prepareRows_isOk {js : Js} {base : MinuteState} (index : ℕ) {update : Update}
    {rows : List HistoricalRow} {t : Table String HistoricalRow} (hvalid : ∀ row ∈ rows, ValidRow row)
    (h : (seriesMerge js).insertAll (update.over base) (rows.map (normalized js)) = .ok t) :
    ∃ next, prepareRows js base index update rows = .ok next := by
  induction rows generalizing index update with
  | nil => exact ⟨update, rfl⟩
  | cons row rows ih =>
      rw [List.map_cons, GuardedMerge.insertAll_cons_ok_iff] at h
      obtain ⟨middle, hmiddle, hrest⟩ := h
      obtain ⟨next, hnext, hover⟩ := prepareRow_isOk
        ("history bucket.rows[" ++ toString index ++ "]") (hvalid row List.mem_cons_self) hmiddle
      rw [← hover] at hrest
      obtain ⟨last, hlast⟩ := ih (index + 1) (fun r hr => hvalid r (List.mem_cons_of_mem _ hr)) hrest
      refine ⟨last, ?_⟩
      simp only [prepareRows, bind_eq_ok_iff]
      exact ⟨next, hnext, hlast⟩

theorem prepareFrames_isOk {js : Js} {acc : Accumulator} {envelope : Envelope}
    {persistLogs : List String} {updates : Table ℤ Update} {frames : List Frame}
    (hvalid : ∀ frame ∈ frames, ∀ row ∈ historyRows envelope frame persistLogs, ValidRow row)
    (h : ∀ m, ∃ t, (seriesMerge js).insertAll (staged acc updates m)
      (minuteRows js envelope persistLogs m frames) = .ok t) :
    ∃ next, prepareFrames js acc envelope persistLogs updates frames = .ok next := by
  induction frames generalizing updates with
  | nil => exact ⟨updates, rfl⟩
  | cons frame frames ih =>
      let bucketFrom := utcBucketStart frame.frameFrom .minute
      let base := (acc.states.get bucketFrom).getD (emptyState js acc.project bucketFrom)
      let update := (updates.get bucketFrom).getD ⟨Table.empty, Table.empty, base.bytes, 0⟩
      have hsplit : ∀ m, minuteRows js envelope persistLogs m (frame :: frames) =
          minuteRows js envelope persistLogs m [frame] ++
            minuteRows js envelope persistLogs m frames := by
        intro m
        simp [minuteRows]
      have hfirst : ∃ next, prepareRows js base 0 update
          (historyRows envelope frame persistLogs) = .ok next := by
        obtain ⟨t, ht⟩ := h bucketFrom
        rw [hsplit, GuardedMerge.insertAll_append_ok_iff] at ht
        obtain ⟨middle, hmiddle, -⟩ := ht
        apply prepareRows_isOk 0 (hvalid frame List.mem_cons_self) (t := middle)
        have hover : update.over base = staged acc updates bucketFrom := by
          have hbase : base.rows = rowsAt acc bucketFrom := baseAt_rows js acc bucketFrom
          unfold Update.over staged
          rw [hbase]
          show (rowsAt acc bucketFrom).overlay ((updates.get bucketFrom).getD _).rows = _
          cases updates.get bucketFrom <;> rfl
        have hrows : minuteRows js envelope persistLogs bucketFrom [frame] =
            (historyRows envelope frame persistLogs).map (normalized js) := by
          simp [minuteRows, bucketFrom, frameRows]
        rw [hover, ← hrows]
        exact hmiddle
      obtain ⟨next, hnext⟩ := hfirst
      have hone : prepareFrames js acc envelope persistLogs updates [frame] =
          .ok (updates.put bucketFrom next) := by
        simp only [prepareFrames]
        rw [bind_eq_ok_iff]
        exact ⟨next, hnext, rfl⟩
      obtain ⟨-, hstaged, -⟩ := prepareFrames_spec hone
      have hrest : ∃ last, prepareFrames js acc envelope persistLogs (updates.put bucketFrom next)
          frames = .ok last := by
        apply ih fun f hf => hvalid f (List.mem_cons_of_mem _ hf)
        intro m
        obtain ⟨t, ht⟩ := h m
        rw [hsplit, GuardedMerge.insertAll_append_ok_iff] at ht
        obtain ⟨middle, hmiddle, hlast⟩ := ht
        have hsame : middle = staged acc (updates.put bucketFrom next) m :=
          Except.ok.inj (hmiddle.symm.trans (hstaged m))
        exact ⟨t, hsame ▸ hlast⟩
      obtain ⟨last, hlast⟩ := hrest
      refine ⟨last, ?_⟩
      simp only [prepareFrames, bind_eq_ok_iff]
      exact ⟨next, hnext, hlast⟩

/-! ## Versions -/

/-- The versions seen of a role. -/
def knownVersions (acc : Accumulator) (role : String) : List String :=
  (acc.versionsByRole.get (.minute, role)).getD []

/-- The versions the arrivals of a role carry, and no more than the cap of them. -/
structure VersionsKnown (settings : Settings) (arrived : List Arrival) (acc : Accumulator) :
    Prop where
  nodup : ∀ role, (knownVersions acc role).Nodup
  mem : ∀ role version, version ∈ knownVersions acc role ↔
    ∃ arrival ∈ arrived, arrival.envelope.client.role = role ∧
      arrival.envelope.client.appVersion = version
  length_le : ∀ role, (knownVersions acc role).length ≤ settings.maxAppVersions

theorem versionsKnown_init (settings : Settings) :
    VersionsKnown settings [] (Accumulator.init settings) where
  nodup := fun _ => List.nodup_nil
  mem := fun role version => by simp [knownVersions, Accumulator.init]
  length_le := fun _ => Nat.zero_le _

theorem versionsByRole_foldl_commitUpdate (js : Js) (entries : List (ℤ × Update))
    (acc : Accumulator) :
    (entries.foldl (fun acc entry => commitUpdate js acc entry.1 entry.2) acc).versionsByRole =
      acc.versionsByRole := by
  induction entries generalizing acc with
  | nil => rfl
  | cons entry rest ih => exact ih (commitUpdate js acc entry.1 entry.2)

theorem knownVersions_commit (js : Js) (acc : Accumulator) (prepared : Prepared) (role : String) :
    knownVersions (commit js acc prepared) role =
      if role = prepared.role then addToSet prepared.appVersion (knownVersions acc role)
      else knownVersions acc role := by
  unfold knownVersions commit
  rw [versionsByRole_foldl_commitUpdate]
  unfold rememberVersion
  dsimp only
  rw [Table.get_put]
  by_cases hrole : role = prepared.role
  · subst hrole
    simp
  · simp [hrole]

theorem length_addToSet_le {x : String} {xs : List String} {most : ℕ}
    (h : x ∈ xs ∨ xs.length < most) (hxs : xs.length ≤ most) : (addToSet x xs).length ≤ most := by
  unfold addToSet
  split_ifs with hx
  · exact hxs
  · have hlt := h.resolve_left hx
    rw [List.length_append, List.length_singleton]
    omega

/-- The cap on versions as `prepare` reads it. -/
theorem versions_check (settings : Settings) (acc : Accumulator) (role version : String) :
    (acc.versionsByRole.get (.minute, role)).all (fun known =>
        decide (version ∈ known) || decide (known.length < settings.maxAppVersions)) = true ↔
      version ∈ knownVersions acc role ∨
        (knownVersions acc role).length < settings.maxAppVersions := by
  unfold knownVersions
  cases acc.versionsByRole.get (.minute, role) with
  | none =>
      have hpos := settings.maxAppVersions_pos
      simp
      omega
  | some known => simp

theorem VersionsKnown.arrive {js : Js} {settings : Settings} {arrived : List Arrival}
    {acc after : Accumulator} {arrival : Arrival} (h : VersionsKnown settings arrived acc)
    (hingest : ingest js settings acc arrival = .ok after) :
    VersionsKnown settings (arrived ++ [arrival]) after := by
  unfold ingest prepare at hingest
  simp only [bind_eq_ok_iff, require_eq_ok_iff, exists_const] at hingest
  obtain ⟨prepared, ⟨hcheck, updates, -, hprepared⟩, hcommit⟩ := hingest
  rw [versions_check] at hcheck
  rw [← Except.ok.inj hcommit, ← Except.ok.inj hprepared]
  have hknown := knownVersions_commit js acc
    ⟨arrival.envelope.client.role, arrival.envelope.client.appVersion, updates⟩
  refine ⟨fun role => ?_, fun role version => ?_, fun role => ?_⟩
  · rw [hknown]
    split_ifs
    · exact nodup_addToSet _ (h.nodup role)
    · exact h.nodup role
  · rw [hknown]
    split_ifs with hrole
    · rw [mem_addToSet, h.mem]
      simp [hrole, eq_comm, or_and_right, exists_or]
    · have hne : ¬ arrival.envelope.client.role = role := fun heq => hrole heq.symm
      rw [h.mem]
      simp [hne, or_and_right, exists_or]
  · rw [hknown]
    split_ifs with hrole
    · dsimp only at hrole ⊢
      rw [hrole]
      exact length_addToSet_le hcheck (h.length_le _)
    · exact h.length_le role

theorem versionsKnown_run {js : Js} {settings : Settings} {maxWriteBatch : PositiveInteger}
    {arrived : List Arrival} {p next : Project} {steps : List Step}
    (h : VersionsKnown settings arrived p.acc)
    (hrun : run js settings maxWriteBatch p steps = .ok next) :
    VersionsKnown settings (arrived ++ arrivals steps) next.acc := by
  induction steps generalizing p arrived with
  | nil =>
      cases hrun
      simpa [arrivals] using h
  | cons first rest ih =>
      simp only [run, bind_eq_ok_iff] at hrun
      obtain ⟨middle, hstep, hrest⟩ := hrun
      cases first with
      | arrive arrival =>
          simp only [step, bind_eq_ok_iff] at hstep
          obtain ⟨acc, hacc, hmiddle⟩ := hstep
          cases hmiddle
          have hnext := ih (h.arrive hacc) hrest
          rw [List.append_assoc] at hnext
          exact hnext
      | flush now =>
          simp only [step, flush, bind_eq_ok_iff] at hstep
          obtain ⟨store, -, hmiddle⟩ := hstep
          cases hmiddle
          have hkept : VersionsKnown settings arrived
              (acknowledge p.acc (pending js settings p.acc now)) :=
            ⟨h.nodup, h.mem, h.length_le⟩
          exact ih hkept hrest

/-! ## Any arrivals within the limits are accepted -/

theorem acceptedAt_append (js : Js) (arrived rest : List Arrival) (m : ℤ) :
    acceptedAt js (arrived ++ rest) m = acceptedAt js arrived m ++ acceptedAt js rest m := by
  simp [acceptedAt]

theorem agree_mono {κ σ : Type} {P Q : κ × σ → Prop} (h : Agree Q) (hsub : ∀ s, P s → Q s) :
    Agree P :=
  fun k s s' hs hs' => h k s s' (hsub _ hs) (hsub _ hs')

theorem run_arrivals_isOk {js : Js} {settings : Settings} (maxWriteBatch : PositiveInteger)
    (versioned : Accumulator) (all : List Arrival) {arrived rest : List Arrival} {p : Project}
    (hserved : Served js settings arrived p) (hknown : VersionsKnown settings arrived p.acc)
    (hvalid : ∀ arrival ∈ rest, ∀ frame ∈ arrival.envelope.frames,
      ∀ row ∈ historyRows arrival.envelope frame arrival.persistLogs, ValidRow row)
    (hagree : ∀ m, Agree fun s =>
      s ∈ (acceptedAt js (arrived ++ rest) m).map (seriesMerge js).signature)
    (hall : VersionsKnown settings all versioned)
    (hversions : ∀ arrival ∈ arrived ++ rest, ∃ other ∈ all,
      other.envelope.client.role = arrival.envelope.client.role ∧
        other.envelope.client.appVersion = arrival.envelope.client.appVersion) :
    ∃ next, run js settings maxWriteBatch p (rest.map Step.arrive) = .ok next := by
  induction rest generalizing arrived p with
  | nil => exact ⟨p, rfl⟩
  | cons arrival rest ih =>
      have hrows : ∀ m, ∃ t, (seriesMerge js).insertAll (rowsAt p.acc m)
          (minuteRows js arrival.envelope arrival.persistLogs m arrival.envelope.frames) = .ok t := by
        intro m
        have hboth : ∃ t, (seriesMerge js).insertAll Table.empty (acceptedAt js arrived m ++
            minuteRows js arrival.envelope arrival.persistLogs m arrival.envelope.frames) =
              .ok t := by
          rw [GuardedMerge.insertAll_empty_ok_iff]
          apply agree_mono (hagree m)
          intro s hs
          rw [acceptedAt_append]
          simp only [List.map_append, List.mem_append] at hs ⊢
          exact hs.imp_right fun hs => by
            simpa [acceptedAt] using Or.inl (by simpa using hs)
        obtain ⟨t, ht⟩ := hboth
        rw [GuardedMerge.insertAll_append_ok_iff] at ht
        obtain ⟨middle, hmiddle, hlast⟩ := ht
        have hsame : middle = rowsAt p.acc m := Except.ok.inj (hmiddle.symm.trans (hserved.rows m))
        exact ⟨t, hsame ▸ hlast⟩
      have hcheck : arrival.envelope.client.appVersion ∈
            knownVersions p.acc arrival.envelope.client.role ∨
          (knownVersions p.acc arrival.envelope.client.role).length < settings.maxAppVersions := by
        by_cases hmem : arrival.envelope.client.appVersion ∈
            knownVersions p.acc arrival.envelope.client.role
        · exact Or.inl hmem
        · right
          -- With this version the role has no more than all the arrivals together.
          have hnodup : (arrival.envelope.client.appVersion ::
              knownVersions p.acc arrival.envelope.client.role).Nodup :=
            List.nodup_cons.mpr ⟨hmem, hknown.nodup _⟩
          have hsub : (arrival.envelope.client.appVersion ::
              knownVersions p.acc arrival.envelope.client.role) ⊆
                knownVersions versioned arrival.envelope.client.role := by
            intro version hversion
            rw [hall.mem]
            cases hversion with
            | head =>
                exact hversions arrival (List.mem_append_right _ List.mem_cons_self)
            | tail _ hversion =>
                obtain ⟨earlier, hearlier, hrole, happ⟩ := (hknown.mem _ _).mp hversion
                obtain ⟨other, hother, horole, hoapp⟩ :=
                  hversions earlier (List.mem_append_left _ hearlier)
                exact ⟨other, hother, horole.trans hrole, hoapp.trans happ⟩
          have hlength := (hnodup.subperm hsub).length_le
          rw [List.length_cons] at hlength
          have hmost := hall.length_le arrival.envelope.client.role
          omega
      have hingest : ∃ acc, ingest js settings p.acc arrival = .ok acc := by
        have hframes : ∃ updates, prepareFrames js p.acc arrival.envelope arrival.persistLogs
            Table.empty arrival.envelope.frames = .ok updates := by
          apply prepareFrames_isOk (hvalid arrival List.mem_cons_self)
          exact hrows
        obtain ⟨updates, hupdates⟩ := hframes
        unfold ingest prepare
        simp only [bind_eq_ok_iff, require_eq_ok_iff, exists_const, versions_check, hupdates,
          Except.ok.injEq, exists_eq_left']
        exact ⟨_, _, ⟨hcheck, rfl⟩, rfl⟩
      obtain ⟨acc, hacc⟩ := hingest
      have hsplit : arrived ++ arrival :: rest = (arrived ++ [arrival]) ++ rest := by simp
      rw [hsplit] at hagree hversions
      obtain ⟨next, hnext⟩ := ih (served_arrive hserved hacc) (hknown.arrive hacc)
        (fun a ha => hvalid a (List.mem_cons_of_mem _ ha)) hagree hversions
      refine ⟨next, ?_⟩
      simp only [List.map_cons, run, step, hacc, bind_eq_ok_iff]
      exact ⟨_, ⟨acc, rfl, rfl⟩, hnext⟩

/-! ## Orders and batches -/

/-- What the history reads of a frame and its envelope. -/
structure Reading where
  client : Client
  persistLogs : List String
  frame : Frame
deriving DecidableEq, Repr

def reading (accepted : Arrival × Frame) : Reading :=
  ⟨accepted.1.envelope.client, accepted.1.persistLogs, accepted.2⟩

def readings (arrived : List Arrival) : List Reading := (acceptedFrames arrived).map reading

/-- The frame in an envelope of its own. -/
def Reading.arrival (read : Reading) : Arrival :=
  ⟨⟨1, "", ⟨"", ""⟩, read.client, 0, none, [read.frame]⟩, read.persistLogs⟩

def Reading.minute (read : Reading) : ℤ := utcBucketStart read.frame.frameFrom .minute

def Reading.rows (js : Js) (read : Reading) : List HistoricalRow :=
  frameRows js read.arrival.envelope read.persistLogs read.frame

/-- The first row of a key in a frame. -/
def firstRow (js : Js) (read : Reading) (key : String) : Option HistoricalRow :=
  (read.rows js).find? fun row => decide (historicalSeriesKey js row = key)

/-- The same frames in another order or in other envelopes give the same rows. -/
def OrderFree (js : Js) (settings : Settings) (maxWriteBatch : PositiveInteger)
    (steps : List Step) (p : Project) : Prop :=
  ∀ steps' p', (readings (arrivals steps')).Perm (readings (arrivals steps)) →
    run js settings maxWriteBatch ⟨Accumulator.init settings, Store.empty⟩ steps' = .ok p' →
      ∀ m key, (rowsAt p'.acc m).get key = (rowsAt p.acc m).get key

/-- Frames of one minute that have rows of a key have first rows of one series. -/
def FirstsAgree (js : Js) (read : List Reading) : Prop :=
  ∀ x ∈ read, ∀ y ∈ read, x.minute = y.minute → ∀ key a b, firstRow js x key = some a →
    firstRow js y key = some b → identity a = identity b

theorem acceptedAt_eq (js : Js) (arrived : List Arrival) (m : ℤ) :
    acceptedAt js arrived m =
      (readings arrived).flatMap fun read => if read.minute = m then read.rows js else [] := by
  unfold acceptedAt readings acceptedFrames minuteRows
  rw [List.flatMap_map, List.flatMap_assoc]
  apply List.flatMap_congr
  intro arrival _
  rw [List.flatMap_map]
  rfl

theorem readings_arrivals (read : List Reading) :
    readings (arrivals ((read.map Reading.arrival).map Step.arrive)) = read := by
  induction read with
  | nil => rfl
  | cons first rest ih => exact congrArg (first :: ·) ih

theorem arrivals_map_arrive (arrived : List Arrival) :
    arrivals (arrived.map Step.arrive) = arrived := by
  unfold arrivals
  rw [List.filterMap_map]
  exact List.filterMap_some

theorem acceptedAt_perm (js : Js) {arrived arrived' : List Arrival}
    (h : (readings arrived).Perm (readings arrived')) (m : ℤ) :
    (acceptedAt js arrived m).Perm (acceptedAt js arrived' m) := by
  rw [acceptedAt_eq, acceptedAt_eq]
  exact h.flatMap_right _

/-- A row of a minute has the identity of the first row of its key. -/
theorem Served.identity_eq {js : Js} {settings : Settings} {arrived : List Arrival} {p : Project}
    (h : Served js settings arrived p) (m : ℤ) (key : String) :
    ((rowsAt p.acc m).get key).map identity =
      ((acceptedAt js arrived m).find? fun row =>
        decide (historicalSeriesKey js row = key)).map identity := by
  have horigin := GuardedMerge.insertAll_origin (f := identity) (M := seriesMerge js)
    (fun a b c hc => identity_mergeRow hc) (h.rows m) key
  rw [horigin, Table.get_empty, Option.none_or]
  rfl

theorem Served.merges {js : Js} {settings : Settings} {arrived : List Arrival} {p : Project}
    (h : Served js settings arrived p) (m : ℤ) :
    Merges js (acceptedAt js arrived m) (rowsAt p.acc m) :=
  merges_insertAll (fun row hrow => congrArg HistoricalRow.body (h.normal m row hrow).fixed)
    (h.rows m)

theorem find_acceptedAt {js : Js} {arrived : List Arrival} {m : ℤ} {key : String}
    {row : HistoricalRow}
    (h : ((acceptedAt js arrived m).find? fun row => decide (historicalSeriesKey js row = key)) =
      some row) :
    ∃ read ∈ readings arrived, read.minute = m ∧ firstRow js read key = some row := by
  rw [acceptedAt_eq, List.find?_flatMap] at h
  obtain ⟨read, hread, hfound⟩ := List.exists_of_findSome?_eq_some h
  split_ifs at hfound with hm
  · exact ⟨read, hread, hm, hfound⟩
  · cases hfound

theorem orderFree_of_firstsAgree {js : Js} {settings : Settings} {maxWriteBatch : PositiveInteger}
    {steps : List Step} {p : Project}
    (hrun : run js settings maxWriteBatch ⟨Accumulator.init settings, Store.empty⟩ steps = .ok p)
    (hagree : FirstsAgree js (readings (arrivals steps))) :
    OrderFree js settings maxWriteBatch steps p := by
  intro steps' p' hperm hrun' m key
  have hserved := served_run (served_init js settings) hrun
  have hserved' := served_run (served_init js settings) hrun'
  rw [List.nil_append] at hserved hserved'
  have hrows := acceptedAt_perm js hperm m
  apply ((hserved'.merges m).perm hrows).get_eq_of_identity (hserved.merges m)
  intro r q hr hq
  have hir := hserved'.identity_eq m key
  have hiq := hserved.identity_eq m key
  rw [hr] at hir
  rw [hq] at hiq
  obtain ⟨a, ha, hia⟩ := Option.map_eq_some_iff.mp hir.symm
  obtain ⟨b, hb, hib⟩ := Option.map_eq_some_iff.mp hiq.symm
  obtain ⟨x, hx, hxm, hxfirst⟩ := find_acceptedAt ha
  obtain ⟨y, hy, hym, hyfirst⟩ := find_acceptedAt hb
  rw [← hia, ← hib]
  exact hagree x (hperm.mem_iff.mp hx) y hy (hxm.trans hym.symm) key a b hxfirst hyfirst

theorem validRow_of_normalized {js : Js} {row : HistoricalRow} (h : ValidRow (normalized js row)) :
    ValidRow row where
  name := h.name
  role := h.role
  environment := h.environment
  appVersion := h.appVersion
  os := h.os
  dimensions fields hfields field hfield := by
    have hsorted : (normalized js row).dimensions = some (sortedFields fields) :=
      congrArg (Option.map sortedFields) hfields
    exact h.dimensions _ hsorted field (mem_sortedFields.mpr hfield)
  body := by
    have hbody := h.body
    unfold normalized normalizedBody at hbody
    cases hkind : row.body <;> simp_all [ValidBody]

/-- Some run takes the frames in the order of any list of them. -/
theorem run_readings_isOk {js : Js} {settings : Settings} {maxWriteBatch : PositiveInteger}
    {steps : List Step} {p : Project}
    (hrun : run js settings maxWriteBatch ⟨Accumulator.init settings, Store.empty⟩ steps = .ok p)
    {read : List Reading} (hperm : read.Perm (readings (arrivals steps))) :
    ∃ next, run js settings maxWriteBatch ⟨Accumulator.init settings, Store.empty⟩
      ((read.map Reading.arrival).map Step.arrive) = .ok next := by
  have hserved := served_run (served_init js settings) hrun
  have hknown := versionsKnown_run (versionsKnown_init settings) hrun
  rw [List.nil_append] at hserved hknown
  have hreadings := readings_arrivals read
  rw [arrivals_map_arrive] at hreadings
  have hsource : ∀ arrival ∈ read.map Reading.arrival, ∃ accepted ∈ acceptedFrames (arrivals steps),
      arrival = (reading accepted).arrival := by
    intro arrival harrival
    obtain ⟨first, hfirst, rfl⟩ := List.mem_map.mp harrival
    obtain ⟨accepted, haccepted, rfl⟩ := List.mem_map.mp (hperm.mem_iff.mp hfirst)
    exact ⟨accepted, haccepted, rfl⟩
  apply run_arrivals_isOk maxWriteBatch p.acc (arrivals steps) (served_init js settings)
    (versionsKnown_init settings)
  · intro arrival harrival frame hframe row hrow
    obtain ⟨accepted, haccepted, rfl⟩ := hsource arrival harrival
    have hframe' : frame = accepted.2 := List.mem_singleton.mp hframe
    subst hframe'
    have hnormal := hserved.normal (utcBucketStart accepted.2.frameFrom .minute)
      (normalized js row) (mem_acceptedAt.mpr ⟨accepted, haccepted, rfl, List.mem_map_of_mem hrow⟩)
    exact validRow_of_normalized hnormal.valid
  · intro m
    have hok := (GuardedMerge.insertAll_empty_ok_iff _).mp ⟨_, hserved.rows m⟩
    have hrows := acceptedAt_perm js (hreadings ▸ hperm) m
    apply agree_mono hok
    intro s hs
    exact (hrows.map _).mem_iff.mp hs
  · exact hknown
  · intro arrival harrival
    obtain ⟨accepted, haccepted, rfl⟩ := hsource arrival harrival
    obtain ⟨other, hother, hmem⟩ := List.mem_flatMap.mp haccepted
    obtain ⟨frame, -, rfl⟩ := List.mem_map.mp hmem
    exact ⟨other, hother, rfl, rfl⟩

/-- The frames with one of them brought to the front. -/
theorem exists_perm_cons {α : Type} {x : α} {xs : List α} (h : x ∈ xs) :
    ∃ rest, (x :: rest).Perm xs := by
  obtain ⟨before, after, rfl⟩ := List.append_of_mem h
  exact ⟨before ++ after, List.perm_middle.symm⟩

theorem firstsAgree_of_orderFree {js : Js} {settings : Settings} {maxWriteBatch : PositiveInteger}
    {steps : List Step} {p : Project}
    (hrun : run js settings maxWriteBatch ⟨Accumulator.init settings, Store.empty⟩ steps = .ok p)
    (hfree : OrderFree js settings maxWriteBatch steps p) :
    FirstsAgree js (readings (arrivals steps)) := by
  -- With a frame in front, its row gives the minute's row its identity.
  have key : ∀ x ∈ readings (arrivals steps), ∀ k a, firstRow js x k = some a →
      ((rowsAt p.acc x.minute).get k).map identity = some (identity a) := by
    intro x hx k a hfirst
    obtain ⟨rest, hperm⟩ := exists_perm_cons hx
    obtain ⟨next, hnext⟩ := run_readings_isOk hrun hperm
    have hsame := hfree _ next (by rw [readings_arrivals]; exact hperm) hnext x.minute k
    have hserved := served_run (served_init js settings) hnext
    rw [← hsame, hserved.identity_eq, List.nil_append, acceptedAt_eq, readings_arrivals,
      List.flatMap_cons, if_pos rfl, List.find?_append]
    have hfind : (x.rows js).find? (fun row => decide (historicalSeriesKey js row = k)) = some a :=
      hfirst
    rw [hfind]
    rfl
  intro x hx y hy hminute k a b ha hb
  have hxa := key x hx k a ha
  have hyb := key y hy k b hb
  rw [hminute, hyb] at hxa
  exact (Option.some.inj hxa).symm

end Wardx.HistoryCompaction
