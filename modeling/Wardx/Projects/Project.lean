import Wardx.Aggregation.FrameAggregator
import Wardx.Aggregation.HistoryAccumulator
import Wardx.Config.ConfigRepository
import Wardx.Events.RecentEvents
import Wardx.Lib.Recency

/-!
# Projects

One isolated project: the config it serves, and what it keeps in memory of the
envelopes it accepted. Config and catalog change through `publish` alone, and
accepted envelopes land through `commitIngest` alone.

The clients, the logs and the inspected events are bounded lists. The first two
are defined here beside the plain lists they stand for.
-/
namespace Wardx

open Lib

/-! ## Recent clients -/

structure RecentClient where
  instanceId : String
  role : String
  appVersion : String
  platform : String
  os : Option String
  environment : String
  lastSeen : ℚ
deriving DecidableEq, Repr

namespace RecentClients

def entryOf (client : Client) (now : ℚ) : RecentClient :=
  ⟨client.instanceId, client.role, client.appVersion, client.platform, client.os,
    client.environment, now⟩

/-- The loop that deletes the oldest entries beyond the bound. -/
def dropOldest (max : ℕ) (byId : Table String RecentClient) : Table String RecentClient where
  entries := latest max byId.entries
  nodup := byId.nodup.sublist ((List.drop_sublist _ _).map _)

/-- `touch`: the entry becomes the newest. -/
def touch (max : ℕ) (client : Client) (now : ℚ) (byId : Table String RecentClient) :
    Table String RecentClient :=
  dropOldest max ((byId.erase client.instanceId).put client.instanceId (entryOf client now))

/-- `list`. -/
def list (byId : Table String RecentClient) : List RecentClient := byId.values.reverse

/-- Entries stand under their own id. -/
def Keyed (byId : Table String RecentClient) : Prop :=
  ∀ entry ∈ byId.entries, entry.2.instanceId = entry.1

theorem keyed_empty : Keyed Table.empty := by
  intro entry hentry
  cases hentry

theorem entries_touched (byId : Table String RecentClient) (client : Client) (now : ℚ) :
    ((byId.erase client.instanceId).put client.instanceId (entryOf client now)).entries =
      byId.entries.filter (fun entry => entry.1 ≠ client.instanceId) ++
        [(client.instanceId, entryOf client now)] := by
  apply Table.putEntry_of_not_mem
  intro hmem
  obtain ⟨entry, hentry, hid⟩ := List.mem_map.mp hmem
  have hne := (List.mem_filter.mp hentry).2
  simp only [decide_eq_true_eq] at hne
  exact hne hid

theorem Keyed.touch {byId : Table String RecentClient} (h : Keyed byId) (max : ℕ) (client : Client)
    (now : ℚ) : Keyed (RecentClients.touch max client now byId) := by
  intro entry hentry
  have hmem : entry ∈ ((byId.erase client.instanceId).put client.instanceId
      (entryOf client now)).entries := List.mem_of_mem_drop hentry
  rw [entries_touched, List.mem_append, List.mem_singleton] at hmem
  cases hmem with
  | inl hold => exact h entry (List.mem_filter.mp hold).1
  | inr hnew =>
      rw [hnew]
      rfl

theorem reverse_latest {α : Type*} (max : ℕ) (xs : List α) :
    (latest max xs).reverse = xs.reverse.take max := by
  unfold latest
  rw [List.reverse_drop]
  by_cases h : xs.length ≤ max
  · rw [List.take_of_length_le (by rw [List.length_reverse]; omega),
      List.take_of_length_le (by rwa [List.length_reverse])]
  · congr 1
    omega

theorem list_touch {byId : Table String RecentClient} (h : Keyed byId) (max : ℕ) (client : Client)
    (now : ℚ) :
    list (touch max client now byId) =
      (refreshed RecentClient.instanceId (entryOf client now) (list byId)).take max := by
  have hvalues : (touch max client now byId).values = latest max
      ((byId.entries.filter (fun entry => entry.1 ≠ client.instanceId)).map Prod.snd ++
        [entryOf client now]) := by
    show (latest max _).map Prod.snd = _
    rw [entries_touched]
    unfold latest
    rw [List.map_drop, List.map_append]
    simp
  have hkept : (byId.entries.filter (fun entry => entry.1 ≠ client.instanceId)).map Prod.snd =
      byId.values.filter fun held => held.instanceId ≠ client.instanceId := by
    unfold Table.values
    rw [List.filter_map]
    refine congrArg _ (List.filter_congr fun entry hentry => ?_)
    simp [h entry hentry]
  unfold list refreshed
  rw [hvalues, hkept, reverse_latest, List.reverse_append, List.filter_reverse]
  rfl

end RecentClients

/-! ## Recent logs -/

/-- A buffered line; attributes are absent when null. -/
structure RecentLog where
  ts : ℚ
  level : HistoryBucket.LogLevel
  message : String
  attrs : Option Json.Fields
  instanceId : String
  role : String
deriving DecidableEq

namespace RecentLogs

def attrsFields : Json → Option Json.Fields
  | .obj fields => some fields
  | _ => none

/-- `_push`; a row of a log has its level and a finite time. -/
def push (max : ℕ) (row : LogRow) (instanceId role : String) (buf : List RecentLog) :
    List RecentLog :=
  if row.message = "" then buf
  else latest max (buf ++
    [⟨row.timestamp, row.level, row.message, attrsFields row.attrs, instanceId, role⟩])

/-- `ingest`. -/
def ingest (max : ℕ) (envelope : Envelope) (buf : List RecentLog) : List RecentLog :=
  envelope.frames.foldl (fun buf frame => frame.logs.foldl
    (fun buf row => push max row envelope.client.instanceId envelope.client.role buf) buf) buf

structure LogFilter where
  level : Option String
  message : Option String
  role : Option String
  attrs : Option Json.Fields
  limit : Option ℕ

def LogFilter.matches (filter : LogFilter) (row : RecentLog) : Bool :=
  RecentEvents.textMatch row.level.text filter.level &&
    RecentEvents.textMatch row.message filter.message &&
    RecentEvents.textMatch row.role filter.role && RecentEvents.attrsMatch row.attrs filter.attrs

/-- The loop of `query`; the limit is checked after a row is put out. -/
def collect (filter : LogFilter) : List RecentLog → List RecentLog → List RecentLog
  | [], out => out
  | row :: rows, out =>
      if filter.matches row then
        if filter.limit.any fun limit => decide (limit ≤ (out ++ [row]).length) then out ++ [row]
        else collect filter rows (out ++ [row])
      else collect filter rows out

/-- `query`, from the newest row back. -/
def query (filter : LogFilter) (buf : List RecentLog) : List RecentLog :=
  collect filter buf.reverse []

/-- The lines of an envelope that are buffered, in their order. -/
def arrivals (envelope : Envelope) : List RecentLog :=
  (envelope.frames.flatMap Frame.logs).filterMap fun row =>
    if row.message = "" then none
    else some ⟨row.timestamp, row.level, row.message, attrsFields row.attrs,
      envelope.client.instanceId, envelope.client.role⟩

/-- What a query answers: all that match, or as many as the limit, but at least one. -/
def cut : Option ℕ → List RecentLog → List RecentLog
  | none, rows => rows
  | some limit, rows => rows.take (max 1 limit)

theorem collect_eq (filter : LogFilter) (rows out : List RecentLog)
    (hout : ∀ limit, filter.limit = some limit → out.length < max 1 limit) :
    collect filter rows out = cut filter.limit (out ++ rows.filter filter.matches) := by
  induction rows generalizing out with
  | nil =>
      rw [collect, List.filter_nil, List.append_nil]
      cases hlimit : filter.limit with
      | none => rfl
      | some limit => exact (List.take_of_length_le (hout limit hlimit).le).symm
  | cons row rows ih =>
      rw [collect, List.filter_cons]
      by_cases hmatch : filter.matches row = true
      · rw [if_pos hmatch, if_pos hmatch]
        cases hlimit : filter.limit with
        | none =>
            rw [if_neg (by simp), ih _ (by simp [hlimit]), hlimit]
            simp [cut]
        | some limit =>
            have hlt := hout limit hlimit
            by_cases hfull : limit ≤ (out ++ [row]).length
            · rw [if_pos (by simpa using hfull)]
              rw [List.length_append, List.length_singleton] at hfull
              have hlast : max 1 limit = (out ++ [row]).length := by
                rw [List.length_append, List.length_singleton]
                omega
              have hsplit : out ++ row :: rows.filter filter.matches =
                  (out ++ [row]) ++ rows.filter filter.matches := by simp
              rw [cut, hlast, hsplit, List.take_left]
            · rw [if_neg (by simpa using hfull), ih, hlimit]
              · simp
              · intro other hother
                have hsame : limit = other := Option.some.inj (hlimit.symm.trans hother)
                omega
      · rw [if_neg hmatch, if_neg hmatch, ih out hout]

theorem query_eq (filter : LogFilter) (buf : List RecentLog) :
    query filter buf = cut filter.limit (buf.reverse.filter filter.matches) := by
  unfold query
  rw [collect_eq]
  · rfl
  · intro limit _
    rw [List.length_nil]
    omega

theorem foldl_push (max : ℕ) (instanceId role : String) (rows : List LogRow)
    (buf held : List RecentLog) (h : buf = latest max held) :
    rows.foldl (fun buf row => push max row instanceId role buf) buf =
      latest max (held ++ rows.filterMap fun row =>
        if row.message = "" then none
        else some ⟨row.timestamp, row.level, row.message, attrsFields row.attrs, instanceId,
          role⟩) := by
  induction rows generalizing buf held with
  | nil => simpa using h
  | cons row rows ih =>
      rw [List.foldl_cons, List.filterMap_cons]
      by_cases hmessage : row.message = ""
      · rw [if_pos hmessage]
        apply ih
        rw [push, if_pos hmessage, h]
      · rw [if_neg hmessage]
        rw [ih _ (held ++ [⟨row.timestamp, row.level, row.message, attrsFields row.attrs,
          instanceId, role⟩])]
        · rw [List.append_assoc]
          rfl
        · rw [push, if_neg hmessage, h, latest_append]

/-- The buffer is the latest lines. -/
theorem ingest_eq (max : ℕ) (envelope : Envelope) {buf held : List RecentLog}
    (h : buf = latest max held) :
    ingest max envelope buf = latest max (held ++ arrivals envelope) := by
  unfold ingest arrivals
  rw [← foldl_push max envelope.client.instanceId envelope.client.role _ buf held h,
    List.foldl_flatMap]

end RecentLogs

/-! ## Projects -/

/-- The parts of a catalog that ingest reads. -/
structure IngestCatalog where
  inspectEvents : List String
  persistLogs : List String
deriving DecidableEq, Repr

structure Project where
  name : String
  configRepo : Config.ConfigRepository
  aggregator : FrameAggregator.Aggregator
  clients : Table String RecentClient
  events : RingBuffer RecentEvents.RecentEvent
  logs : List RecentLog
  historySettings : HistoryAccumulator.Settings
  history : HistoryAccumulator.Accumulator
  catalog : IngestCatalog

/-- The settings the projects share, and the runtime. -/
structure ProjectConfig where
  wiring : Config.Wiring
  limits : FrameAggregator.Limits
  recentClientsMax : ℕ
  recentEventsMax : ℕ
  recentLogsMax : ℕ

/-- The readings of the clock while an envelope is committed and answered. -/
structure IngestClock where
  aggregated : ℚ
  touched : ℚ
  answered : ℕ

namespace Project

section
variable (config : ProjectConfig)

/-- The constructor, for a project with these history settings. -/
def create (historySettings : HistoryAccumulator.Settings) (snapshot : Config.ConfigSnapshot)
    (catalog : IngestCatalog) : Project where
  name := historySettings.project
  configRepo := Config.newRepository snapshot
  aggregator := FrameAggregator.Aggregator.init
  clients := Table.empty
  events := RingBuffer.new config.recentEventsMax
  logs := []
  historySettings := historySettings
  history := HistoryAccumulator.Accumulator.init historySettings
  catalog := catalog

/-- `publish`. -/
def publish (snapshot : Config.ConfigSnapshot) (catalog : IngestCatalog) (project : Project) :
    Project :=
  { project with
    configRepo := Config.newRepository snapshot
    events := project.catalog.inspectEvents.foldl (fun ring name =>
      if name ∈ catalog.inspectEvents then ring
      else RecentEvents.forget config.recentEventsMax name ring) project.events
    catalog := catalog }

/-- `prepareHistory`. -/
def prepareHistory (project : Project) (envelope : Envelope) :
    Except String HistoryAccumulator.Prepared :=
  HistoryAccumulator.prepare config.wiring.js project.historySettings project.history envelope
    project.catalog.persistLogs

/-- An event as the tuple of the wire. -/
def eventTuple (row : EventRow) : Json := .arr [.num row.timestamp, .str row.name, row.attrs]

def eventEnvelope (envelope : Envelope) : RecentEvents.EventEnvelope where
  instanceId := envelope.client.instanceId
  role := envelope.client.role
  frames := envelope.frames.map fun frame => frame.events.map eventTuple

/-- `commitIngest`. The aggregator throws on a role no validated envelope has, and
by then the history is committed. -/
def commitIngest (envelope : Envelope) (prepared : HistoryAccumulator.Prepared) (clock : IngestClock)
    (project : Project) : Except String Unit × Project :=
  let committed := { project with
    history := HistoryAccumulator.commit config.wiring.js project.history prepared }
  match FrameAggregator.ingest config.wiring.js config.limits envelope project.catalog.persistLogs
      clock.aggregated project.aggregator with
  | .error message => (.error message, committed)
  | .ok (_, aggregator) =>
      (.ok (), { committed with
        aggregator := aggregator
        clients := RecentClients.touch config.recentClientsMax envelope.client clock.touched
          project.clients
        events := RecentEvents.ingest config.recentEventsMax (eventEnvelope envelope)
          project.catalog.inspectEvents project.events
        logs := RecentLogs.ingest config.recentLogsMax envelope project.logs })

/-- `syncResponse`. -/
def syncResponse (envelope : Envelope) (clock : IngestClock) (project : Project) :
    Config.Response × Project :=
  let (response, configRepo) := Config.buildResponse config.wiring project.configRepo
    envelope.configVersion envelope.client envelope.configContext clock.answered
  (response, { project with configRepo := configRepo })

end

/-- A role the aggregator takes. -/
def HasRole (envelope : Envelope) : Prop := envelope.client.role ≠ "" ∧ envelope.client.role ≠ "*"

instance (envelope : Envelope) : Decidable (HasRole envelope) :=
  inferInstanceAs (Decidable (_ ∧ _))

/-- The project with an envelope in all its views. -/
def accepted (config : ProjectConfig) (envelope : Envelope) (prepared : HistoryAccumulator.Prepared)
    (clock : IngestClock) (project : Project) : Project :=
  { project with
    history := HistoryAccumulator.commit config.wiring.js project.history prepared
    aggregator := FrameAggregator.prune config.limits clock.aggregated
      (FrameAggregator.addFrames config.wiring.js config.limits envelope project.catalog.persistLogs
        clock.aggregated project.aggregator)
    clients := RecentClients.touch config.recentClientsMax envelope.client clock.touched
      project.clients
    events := RecentEvents.ingest config.recentEventsMax (eventEnvelope envelope)
      project.catalog.inspectEvents project.events
    logs := RecentLogs.ingest config.recentLogsMax envelope project.logs }

/-- With a role the aggregator counts the envelope. -/
theorem aggregator_ingest (js : Js) (limits : FrameAggregator.Limits) {envelope : Envelope}
    (hrole : HasRole envelope) (persistLogs : List String) (now : ℚ)
    (aggregator : FrameAggregator.Aggregator) :
    FrameAggregator.ingest js limits envelope persistLogs now aggregator =
      .ok (FrameAggregator.changed envelope persistLogs, FrameAggregator.prune limits now
        (FrameAggregator.addFrames js limits envelope persistLogs now aggregator)) := by
  have hcheck : require (envelope.client.role ≠ "" && envelope.client.role ≠ "*")
      "client.role must be a non-empty string" = .ok () := by
    rw [require_eq_ok_iff]
    simp [hrole.1, hrole.2]
  unfold FrameAggregator.ingest
  rw [hcheck]
  rfl

theorem commitIngest_eq (config : ProjectConfig) {envelope : Envelope} (hrole : HasRole envelope)
    (prepared : HistoryAccumulator.Prepared) (clock : IngestClock) (project : Project) :
    commitIngest config envelope prepared clock project =
      (.ok (), accepted config envelope prepared clock project) := by
  unfold commitIngest
  rw [aggregator_ingest _ _ hrole]
  rfl

end Project

end Wardx
