import Wardx.Aggregation.Completeness
import Wardx.Ingest.SyncHandler
import Wardx.Lib.SubjectLog

/-!
# The views of accepted envelopes

What a project keeps in memory is a function of the envelopes it accepted and
the catalogs published, in their order: the clients are the latest seen of
each instance, the logs the latest lines, the inspected events a run of the
ring, the windows a run of the aggregator. The sink holds the accepted envelopes
of all projects.

Each view is said by the part it belongs to. Here the parts are put together:
every step of the server is one step of every view, and nothing else changes
them.
-/
namespace Wardx

open Lib

/-! ## The sink -/

/-- The sinks as configured; the lines are those the file has. -/
inductive SinkKind
  | null
  | memory (max : ℕ)
  | ndjson (lines : List Envelope)

def frameCount (envelopes : List Envelope) : ℤ :=
  (envelopes.map fun envelope => (envelope.frames.length : ℤ)).sum

/-- A sink of the kind after the envelopes. -/
def SinkKind.holding (envelopes : List Envelope) : SinkKind → Sink
  | .null => .null
  | .memory max => .memory max (latest max envelopes) (frameCount (latest max envelopes))
  | .ndjson lines => .ndjson (lines ++ envelopes)

theorem frameCount_concat (envelopes : List Envelope) (envelope : Envelope) :
    frameCount (envelopes ++ [envelope]) = frameCount envelopes + envelope.frames.length := by
  simp [frameCount]

/-- Dropping the head of a list that is one too long leaves the latest. -/
theorem latest_concat_eq_drop {α : Type} {max : ℕ} {held : List α} {x : α} (hheld : held.length ≤ max)
    (hfull : max < (held ++ [x]).length) : latest max (held ++ [x]) = (held ++ [x]).drop 1 := by
  rw [List.length_append, List.length_singleton] at hfull
  unfold latest
  rw [List.length_append, List.length_singleton, show held.length + 1 - max = 1 by omega]

theorem SinkKind.ingest_holding (kind : SinkKind) (envelopes : List Envelope) (envelope : Envelope) :
    (kind.holding envelopes).ingest envelope = kind.holding (envelopes ++ [envelope]) := by
  cases kind with
  | null => rfl
  | ndjson lines => simp [holding, Sink.ingest]
  | memory max =>
      have hheld : (latest max envelopes).length ≤ max := by
        rw [length_latest]
        omega
      have hnext : latest max (envelopes ++ [envelope]) =
          latest max (latest max envelopes ++ [envelope]) := (latest_append max _ _).symm
      simp only [holding, Sink.ingest]
      rw [hnext]
      by_cases hfull : max < (latest max envelopes ++ [envelope]).length
      · rw [if_pos hfull, latest_concat_eq_drop hheld hfull, ← frameCount_concat]
        cases hpushed : latest max envelopes ++ [envelope] with
        | nil => simp at hpushed
        | cons first rest => simp [frameCount]
      · have hall : latest max (latest max envelopes ++ [envelope]) =
            latest max envelopes ++ [envelope] := latest_of_length_le (Nat.le_of_not_lt hfull)
        rw [if_neg hfull, hall, frameCount_concat]

/-! ## What happens to the views -/

/-- An envelope was accepted under the catalog of the moment, or a catalog was
published. -/
inductive ViewEvent
  | accepted (envelope : Envelope) (persistLogs : List String) (clock : IngestClock)
  | published (catalog : IngestCatalog)

namespace ViewEvent

def envelope? : ViewEvent → Option Envelope
  | .accepted envelope _ _ => some envelope
  | .published _ => none

def client? : ViewEvent → Option RecentClient
  | .accepted envelope _ clock => some (RecentClients.entryOf envelope.client clock.touched)
  | .published _ => none

def lines : ViewEvent → List RecentLog
  | .accepted envelope _ _ => RecentLogs.arrivals envelope
  | .published _ => []

def inspection : ViewEvent → RecentEvents.ProjectAction
  | .accepted envelope _ _ => .commitIngest (Project.eventEnvelope envelope)
  | .published catalog => .publish catalog.inspectEvents

def aggregation? : ViewEvent → Option FrameAggregator.Step
  | .accepted envelope persistLogs clock => some (.request envelope persistLogs clock.aggregated)
  | .published _ => none

/-- The catalog in force after the event. -/
def catalogAfter (catalog : IngestCatalog) : ViewEvent → IngestCatalog
  | .accepted _ _ _ => catalog
  | .published next => next

end ViewEvent

/-- The views of a project that started with a catalog, after its events. -/
structure Views (config : ProjectConfig) (initial : IngestCatalog) (events : List ViewEvent)
    (project : Project) : Prop where
  /-- The latest seen of each instance, the newest first. -/
  clients : RecentClients.list project.clients =
    (recency RecentClient.instanceId (events.filterMap ViewEvent.client?)).take config.recentClientsMax
  keyed : RecentClients.Keyed project.clients
  logs : project.logs = latest config.recentLogsMax (events.flatMap ViewEvent.lines)
  inspected : (⟨project.catalog.inspectEvents, project.events⟩ : RecentEvents.Inspected) =
    run (RecentEvents.projectStep config.recentEventsMax)
      ⟨initial.inspectEvents, RingBuffer.new config.recentEventsMax⟩
      (events.map ViewEvent.inspection)
  windows : project.aggregator =
    run (FrameAggregator.step config.wiring.js config.limits) FrameAggregator.Aggregator.init
      (events.filterMap ViewEvent.aggregation?)
  catalog : project.catalog = events.foldl ViewEvent.catalogAfter initial

namespace Views

variable {config : ProjectConfig} {initial : IngestCatalog} {events : List ViewEvent}
  {project : Project}

theorem create (config : ProjectConfig) (historySettings : HistoryAccumulator.Settings)
    (snapshot : Config.ConfigSnapshot) (catalog : IngestCatalog) :
    Views config catalog [] (Project.create config historySettings snapshot catalog) where
  clients := List.take_nil.symm
  keyed := RecentClients.keyed_empty
  logs := (latest_of_length_le (Nat.zero_le _)).symm
  inspected := rfl
  windows := rfl
  catalog := rfl

/-- What changes none of the views. -/
theorem congr (h : Views config initial events project) {other : Project}
    (hclients : other.clients = project.clients) (hlogs : other.logs = project.logs)
    (hevents : other.events = project.events) (haggregator : other.aggregator = project.aggregator)
    (hcatalog : other.catalog = project.catalog) : Views config initial events other where
  clients := by rw [hclients, h.clients]
  keyed := by rw [hclients]; exact h.keyed
  logs := by rw [hlogs, h.logs]
  inspected := by rw [hevents, hcatalog, h.inspected]
  windows := by rw [haggregator, h.windows]
  catalog := by rw [hcatalog, h.catalog]

theorem accepted (h : Views config initial events project) {envelope : Envelope}
    (hrole : Project.HasRole envelope) (prepared : HistoryAccumulator.Prepared)
    (clock : IngestClock) :
    Views config initial (events ++ [.accepted envelope project.catalog.persistLogs clock])
      (Project.accepted config envelope prepared clock project) where
  clients := by
    have hnodup := nodup_recency RecentClient.instanceId (events.filterMap ViewEvent.client?)
    rw [List.filterMap_append]
    show RecentClients.list (RecentClients.touch config.recentClientsMax envelope.client
      clock.touched project.clients) = _
    rw [RecentClients.list_touch h.keyed, h.clients, take_refreshed _ hnodup]
    exact congrArg _ (recency_concat _ _ _).symm
  keyed := h.keyed.touch _ _ _
  logs := by
    rw [List.flatMap_append]
    show RecentLogs.ingest config.recentLogsMax envelope project.logs = _
    rw [RecentLogs.ingest_eq config.recentLogsMax envelope h.logs]
    simp [ViewEvent.lines]
  inspected := by
    rw [List.map_append, run_append, ← h.inspected]
    rfl
  windows := by
    rw [List.filterMap_append, run_append, ← h.windows]
    show _ = FrameAggregator.step config.wiring.js config.limits
      (.request envelope project.catalog.persistLogs clock.aggregated) project.aggregator
    unfold FrameAggregator.step
    simp only [Project.aggregator_ingest _ _ hrole]
    rfl
  catalog := by
    rw [List.foldl_append, ← h.catalog]
    rfl

theorem publish (h : Views config initial events project) (snapshot : Config.ConfigSnapshot)
    (catalog : IngestCatalog) :
    Views config initial (events ++ [.published catalog])
      (Project.publish config snapshot catalog project) where
  clients := by
    rw [List.filterMap_append, show List.filterMap ViewEvent.client? [.published catalog] = [] from rfl,
      List.append_nil]
    exact h.clients
  keyed := h.keyed
  logs := by
    rw [List.flatMap_append, show List.flatMap ViewEvent.lines [.published catalog] = [] from rfl,
      List.append_nil]
    exact h.logs
  inspected := by
    rw [List.map_append, run_append, ← h.inspected]
    rfl
  windows := by
    rw [List.filterMap_append,
      show List.filterMap ViewEvent.aggregation? [.published catalog] = [] from rfl, List.append_nil]
    exact h.windows
  catalog := by
    rw [List.foldl_append]
    rfl

end Views

/-! ## The server -/

namespace SyncHandler

section
variable (settings : ServerSettings)

/-- What a command does to the views: an answered request is an accepted envelope. -/
def happened (server : IngestServer) : ServerCommand → List (String × ViewEvent)
  | .sync request =>
      match admission settings request server with
      | .error _ => []
      | .ok (store, envelope, _) =>
          if (handleSync settings request server).1.isAnswered then
            [(store.name, .accepted envelope store.catalog.persistLogs request.clock)]
          else []
  | .publish project _ catalog => [(project, .published catalog)]
  | _ => []

/-- A request leaves the projects and the sink alone, or is accepted. -/
inductive Lands (request : SyncRequest) (server : IngestServer) :
    List (String × ViewEvent) → IngestServer → Prop
  | unseen (after : IngestServer) (hprojects : after.projects = server.projects)
      (hsink : after.sink = server.sink) : Lands request server [] after
  | accepted (credential : CredentialRecord) (store : Project) (envelope : Envelope)
      (source : Source) (prepared : HistoryAccumulator.Prepared) (ledger : ExperimentLedger)
      (work : RetentionLedger.Work)
      (hadmitted : Admitted settings request server credential store envelope source) :
      Lands request server
        [(store.name, .accepted envelope store.catalog.persistLogs request.clock)]
        (SyncHandler.accepted settings.ingest store envelope prepared request.clock ledger work server)

theorem sync_lands (request : SyncRequest) (server : IngestServer) :
    Lands settings request server (happened settings server (.sync request))
      (step settings (.sync request) server) := by
  have hhandled := handleSync_handled settings request server
  have hhappened : happened settings server (.sync request) =
      match admission settings request server with
      | .error _ => []
      | .ok (store, envelope, _) =>
          if (handleSync settings request server).1.isAnswered then
            [(store.name, .accepted envelope store.catalog.persistLogs request.clock)]
          else [] := rfl
  rw [hhappened]
  show Lands settings request server _ (handleSync settings request server).2
  generalize (handleSync settings request server).1 = reply at hhandled ⊢
  generalize (handleSync settings request server).2 = after at hhandled ⊢
  cases hhandled with
  | turnedAway reply hadmission =>
      rw [hadmission]
      exact .unseen server rfl rfl
  | ingested credential store envelope source outcome after hadmission hadmitted heffect =>
      rw [hadmission]
      dsimp only
      rw [isAnswered_replyOf]
      cases heffect with
      | nothing outcome h =>
          rw [if_neg (by simp [h])]
          exact .unseen server rfl rfl
      | refused outcome h ledger results hbatch hsame =>
          rw [if_neg (by simp [h])]
          exact .unseen _ rfl rfl
      | accepted prepared ledger work =>
          exact .accepted credential store envelope source prepared ledger work hadmitted

end

/-- Every view of a server that started on the configuration is what the log says. -/
structure AllViews (settings : ServerSettings) (config : ServerConfig) (kind : SinkKind)
    (log : List (String × ViewEvent)) (server : IngestServer) : Prop where
  projects : ∀ name project, server.projects.get name = some project → project.name = name ∧
    ∃ entry, config.projects.get name = some entry ∧
      Views settings.ingest.project entry.catalog (history name log) project
  sink : server.sink = kind.holding (log.filterMap fun entry => entry.2.envelope?)

section
variable {settings : ServerSettings} {config : ServerConfig} {kind : SinkKind}
  {log : List (String × ViewEvent)} {server : IngestServer}

theorem allViews_boot (settings : ServerSettings) (config : ServerConfig) (kind : SinkKind) :
    AllViews settings config kind [] (boot settings config (kind.holding [])) where
  projects name project h := by
    unfold boot at h
    rw [Table.get_mapValues] at h
    obtain ⟨entry, hentry, rfl⟩ := Option.map_eq_some_iff.mp h
    exact ⟨config.named name entry hentry, entry, hentry, Views.create _ _ _ _⟩
  sink := rfl

/-- Nothing is seen of a command that leaves every view alone. -/
theorem AllViews.congr (h : AllViews settings config kind log server) {after : IngestServer}
    (hprojects : after.projects = server.projects) (hsink : after.sink = server.sink) :
    AllViews settings config kind log after where
  projects := by rw [hprojects]; exact h.projects
  sink := by rw [hsink, h.sink]

theorem AllViews.keepLedger (h : AllViews settings config kind log server)
    (result : Except String ExperimentLedger) :
    AllViews settings config kind log (keepLedger server result) := by
  cases result with
  | error message => exact h
  | ok ledger => exact h.congr rfl rfl

/-- One project changes, and the log tells how. -/
theorem AllViews.put (h : AllViews settings config kind log server) {name : String}
    {store next : Project} (hstore : server.projects.get name = some store)
    (hname : next.name = store.name) (events : List ViewEvent)
    (hviews : ∀ entry : ProjectEntry, Views settings.ingest.project entry.catalog (history name log) store →
      Views settings.ingest.project entry.catalog (history name log ++ events) next) :
    ∀ other project, (server.projects.put name next).get other = some project →
      project.name = other ∧ ∃ entry, config.projects.get other = some entry ∧
        Views settings.ingest.project entry.catalog
          (history other (log ++ events.map fun event => (name, event))) project := by
  intro other project hproject
  rw [Table.get_put] at hproject
  rw [history_append, history_tagged]
  by_cases hother : other = name
  · subst hother
    rw [if_pos rfl, Option.some.injEq] at hproject
    subst hproject
    obtain ⟨hstored, entry, hentry, hold⟩ := h.projects other store hstore
    rw [if_pos rfl]
    exact ⟨hname.trans hstored, entry, hentry, hviews entry hold⟩
  · rw [if_neg hother] at hproject
    rw [if_neg hother, List.append_nil]
    exact h.projects other project hproject

theorem AllViews.updateProject (h : AllViews settings config kind log server) (name : String)
    (f : Project → Project) (events : List ViewEvent)
    (hname : ∀ project, (f project).name = project.name)
    (hsilent : events.filterMap ViewEvent.envelope? = [])
    (hviews : ∀ project (entry : ProjectEntry), Views settings.ingest.project entry.catalog (history name log) project →
      Views settings.ingest.project entry.catalog (history name log ++ events) (f project)) :
    AllViews settings config kind (log ++ events.map fun event => (name, event))
      (updateProject name f server) := by
  have hsink : (log ++ events.map fun event => (name, event)).filterMap (fun entry =>
      entry.2.envelope?) = log.filterMap fun entry => entry.2.envelope? := by
    rw [List.filterMap_append, List.filterMap_map]
    show _ ++ events.filterMap ViewEvent.envelope? = _
    rw [hsilent, List.append_nil]
  unfold SyncHandler.updateProject
  cases hstore : server.projects.get name with
  | none =>
      refine ⟨fun other project hproject => ?_, by rw [hsink, h.sink]⟩
      obtain ⟨hstored, entry, hentry, hold⟩ := h.projects other project hproject
      have hother : other ≠ name := by
        intro hsame
        rw [hsame, hstore] at hproject
        cases hproject
      rw [history_append, history_tagged, if_neg hother, List.append_nil]
      exact ⟨hstored, entry, hentry, hold⟩
  | some store =>
      exact ⟨h.put hstore (hname store) events fun entry hold => hviews store entry hold,
        by rw [hsink, h.sink]⟩

theorem allViews_step (h : AllViews settings config kind log server) (command : ServerCommand) :
    AllViews settings config kind (log ++ happened settings server command)
      (step settings command server) := by
  cases command with
  | sync request =>
      have hlands := sync_lands settings request server
      generalize happened settings server (.sync request) = events at hlands ⊢
      generalize step settings (.sync request) server = after at hlands ⊢
      cases hlands with
      | unseen after hprojects hsink =>
          rw [List.append_nil]
          exact h.congr hprojects hsink
      | accepted credential store envelope source prepared ledger work hadmitted =>
          have hname := (h.projects _ store hadmitted.store).1
          refine ⟨?_, ?_⟩
          · show ∀ other project, (server.projects.put store.name _).get other = some project → _
            rw [hname]
            have hnext : ((Project.accepted settings.ingest.project envelope prepared request.clock
                store).syncResponse settings.ingest.project envelope request.clock).2.name =
                  store.name := rfl
            refine h.put hadmitted.store hnext [_] fun entry hold => ?_
            exact (hold.accepted hadmitted.role prepared request.clock).congr rfl rfl rfl rfl rfl
          · show server.sink.ingest envelope = _
            rw [h.sink, SinkKind.ingest_holding, List.filterMap_append]
            rfl
  | publish project snapshot catalog =>
      exact h.updateProject project _ [.published catalog] (fun _ => rfl) rfl
        fun _ entry hold => hold.publish snapshot catalog
  | acknowledge project buckets =>
      exact h.updateProject project _ [] (fun _ => rfl) rfl
        fun _ entry hold => (List.append_nil _).symm ▸ hold.congr rfl rfl rfl rfl rfl
  | prunePersisted project through =>
      exact h.updateProject project _ [] (fun _ => rfl) rfl
        fun _ entry hold => (List.append_nil _).symm ▸ hold.congr rfl rfl rfl rfl rfl
  | historyWritten =>
      exact (List.append_nil log).symm ▸ h.congr rfl rfl
  | decide project experiment decision expiresAt decidedAt =>
      exact (List.append_nil log).symm ▸ h.keepLedger _
  | scheduleExpiry project experiment expiresAt => exact (List.append_nil log).symm ▸ h.keepLedger _
  | clearExpiry project experiment => exact (List.append_nil log).symm ▸ h.congr rfl rfl
  | pruneExpired now => exact (List.append_nil log).symm ▸ h.congr rfl rfl

end

/-- After any run, a project's lists of clients and lines, its inspected events
and its windows are those of the envelopes it accepted and the catalogs published
to it, and the sink holds what all projects accepted. -/
theorem views_of_accepted (settings : ServerSettings) (config : ServerConfig) (kind : SinkKind)
    (commands : List ServerCommand) :
    AllViews settings config kind
      (outputs (happened settings) (step settings) (boot settings config (kind.holding [])) commands)
      (run (step settings) (boot settings config (kind.holding [])) commands) :=
  outputs_invariant (AllViews settings config kind) (happened settings)
    (fun _ _ command h => allViews_step h command) (allViews_boot settings config kind) commands

end SyncHandler

end Wardx
