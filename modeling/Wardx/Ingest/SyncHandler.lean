import Wardx.Auth.CredentialRegistry
import Wardx.Ingest.AcceptedEnvelopes
import Wardx.Ingest.IngestPipeline
import Wardx.Lib.Lockstep
import Wardx.Storage.SameEvidence

/-!
# Sync requests

A request is authenticated, its body read, decoded and validated, its role
authorized and its project compared, and only then given to the pipeline.
Nothing is shared between these steps but the registries, which never change,
so a request acts where its body has arrived.

`Effect` says once what a request can do to the server. What the views, the
ledgers and the sink hold after any run is read off its cases.
-/
namespace Wardx

open Lib

/-! ## Requests -/

/-- `gunzipSync` of the bytes, its output parsed. -/
inductive Inflated
  | tooLarge
  | invalid
  | json (parsed : Option Json)

/-- How reading the body ends; its bytes are parsed as they are or inflated. -/
inductive Payload
  | tooLarge
  | timedOut
  | failed (message : String)
  | bytes (parsed : Option Json) (inflated : Inflated)

structure SyncRequest where
  key : Option String
  /-- The header `content-encoding`. -/
  encoding : String
  payload : Payload
  /-- The readings of the clock by the validator. -/
  range : ValidateEnvelope.TimeRange
  clock : IngestClock
  fault : Option StoreFault

/-- The answer; none when the connection was destroyed. -/
inductive Reply
  | status (code : ℕ) (error : String)
  | answered (response : Config.Response)
  | destroyed

def Reply.isAnswered : Reply → Bool
  | .answered _ => true
  | _ => false

structure ServerSettings where
  ingest : IngestSettings
  limits : ValidateEnvelope.WireLimits
  credentials : CredentialRegistry

namespace SyncHandler

/-- What the pipeline returned, as the server sends it. -/
def replyOf : Outcome → Reply
  | .rejected code error => .status code error
  | .answered response => .answered response
  | .thrown _ => .status 500 "internal"

/-- The bytes read, inflated when they are compressed, and parsed. -/
def readPayload (encoding : String) : Payload → Except Reply (Option Json)
  | .tooLarge => .error (.status 413 "payload too large")
  | .timedOut => .error .destroyed
  | .failed _ => .error (.status 500 "internal")
  | .bytes parsed inflated =>
      if encoding = "gzip" then
        match inflated with
        | .tooLarge => .error (.status 413 "payload too large")
        | .invalid => .error (.status 400 "invalid gzip")
        | .json parsed => .ok parsed
      else .ok parsed

def jsonBody : Option Json → Except Reply Json
  | none => .error (.status 400 "invalid json")
  | some body => .ok body

/-- The body's JSON, or the answer that ends the request. -/
def decode (request : SyncRequest) : Except Reply Json := do
  let encoding := (trim request.encoding).toLower
  require (encoding = "" || encoding = "identity" || encoding = "gzip")
    (.status 415 "unsupported content encoding")
  let parsed ← readPayload encoding request.payload
  jsonBody parsed

section
variable (settings : ServerSettings)

/-- Everything before the pipeline: the project, the envelope and its source. -/
def admission (request : SyncRequest) (server : IngestServer) :
    Except Reply (Project × Envelope × Source) :=
  match settings.credentials.authenticate request.key with
  | .error _ => .error (.status 401 "unauthorized")
  | .ok credential =>
      match server.projects.get credential.project with
      | none => .error (.status 400 "unknown project")
      | some store => do
          let body ← decode request
          match ValidateEnvelope.validateEnvelope settings.ingest.project.wiring.js settings.limits
              request.range body with
          | .error invalid => .error (.status 400 invalid)
          | .ok _ =>
              match ValidateEnvelope.readEnvelope body with
              | none => .error .destroyed
              | some envelope =>
                  match CredentialRegistry.authorize credential envelope.client.role with
                  | .error _ => .error (.status 403 "role not allowed")
                  | .ok source => do
                      require (envelope.project = credential.project)
                        (.status 400 "project does not match key")
                      pure (store, envelope, source)

/-- `handleSync`. -/
def handleSync (request : SyncRequest) (server : IngestServer) : Reply × IngestServer :=
  match admission settings request server with
  | .error reply => (reply, server)
  | .ok (store, envelope, source) =>
      let (outcome, next) := IngestPipeline.ingest settings.ingest store envelope source request.clock
        request.fault server
      (replyOf outcome, next)

end

/-! ## Runs -/

/-- What happens to a server: requests, and what its other parts do to the
state that requests read. -/
inductive ServerCommand
  | sync (request : SyncRequest)
  | publish (project : String) (snapshot : Config.ConfigSnapshot) (catalog : IngestCatalog)
  | acknowledge (project : String) (buckets : List HistoryBucket.Bucket)
  | prunePersisted (project : String) (through : ℤ)
  | historyWritten
  | decide (project experiment : String) (decision : Control.Decision) (expiresAt : ℚ)
      (decidedAt : ℕ)
  | scheduleExpiry (project experiment : String) (expiresAt : ℚ)
  | clearExpiry (project experiment : String)
  | pruneExpired (now : ℕ)

/-- An update of a project, if there is one. -/
def updateProject (name : String) (f : Project → Project) (server : IngestServer) : IngestServer :=
  match server.projects.get name with
  | none => server
  | some project => { server with projects := server.projects.put name (f project) }

/-- What a ledger call left; one that threw left the ledger as it was. -/
def keepLedger (server : IngestServer) : Except String ExperimentLedger → IngestServer
  | .ok ledger => { server with ledger := ledger }
  | .error _ => server

def step (settings : ServerSettings) (command : ServerCommand) (server : IngestServer) :
    IngestServer :=
  match command with
  | .sync request => (handleSync settings request server).2
  | .publish project snapshot catalog =>
      updateProject project (Project.publish settings.ingest.project snapshot catalog) server
  | .acknowledge project buckets =>
      updateProject project (fun held =>
        { held with history := HistoryAccumulator.acknowledge held.history buckets }) server
  | .prunePersisted project through =>
      updateProject project (fun held =>
        { held with history := HistoryAccumulator.prunePersisted held.history through }) server
  | .historyWritten => { server with historyMarked := false }
  | .decide project experiment decision expiresAt decidedAt =>
      keepLedger server ((server.ledger.persistTerminalDecisionAndScheduleExpiry project experiment
        decision expiresAt decidedAt).map Prod.fst)
  | .scheduleExpiry project experiment expiresAt =>
      keepLedger server (server.ledger.scheduleExpiry project experiment expiresAt)
  | .clearExpiry project experiment =>
      { server with ledger := server.ledger.clearExpiry project experiment }
  | .pruneExpired now => { server with ledger := server.ledger.pruneExpired now }

/-- The answer of a request. -/
def replies (settings : ServerSettings) (server : IngestServer) : ServerCommand → List Reply
  | .sync request => [(handleSync settings request server).1]
  | _ => []

/-- A project of a checked configuration. -/
structure ProjectEntry where
  history : HistoryAccumulator.Settings
  snapshot : Config.ConfigSnapshot
  catalog : IngestCatalog

/-- The projects of a configuration, each under its name. -/
structure ServerConfig where
  projects : Table String ProjectEntry
  named : ∀ name entry, projects.get name = some entry → entry.history.project = name

/-- A server on a fresh database. -/
def boot (settings : ServerSettings) (config : ServerConfig) (sink : Sink) : IngestServer where
  projects := config.projects.mapValues fun _ entry =>
    Project.create settings.ingest.project entry.history entry.snapshot entry.catalog
  ledger := ExperimentLedger.empty
  retention := RetentionLedger.empty
  sink := sink
  historyMarked := false
  metrics := ⟨0, 0, 0⟩

/-! ## What a request can do -/

theorem require_ends {ε : Type} {fails : ε → Prop} (condition : Bool) {message : ε}
    (h : fails message) : Ends (fun _ => True) fails (require condition message) := by
  cases condition with
  | true => trivial
  | false => exact h

theorem readPayload_ends (encoding : String) (payload : Payload) :
    Ends (fun _ => True) (fun reply => reply.isAnswered = false) (readPayload encoding payload) := by
  cases payload with
  | tooLarge => exact rfl
  | timedOut => exact rfl
  | failed message => exact rfl
  | bytes parsed inflated =>
      unfold readPayload
      split_ifs
      · cases inflated with
        | tooLarge => exact rfl
        | invalid => exact rfl
        | json parsed => trivial
      · trivial

/-- A body that cannot be read is not answered with a config. -/
theorem decode_ends (request : SyncRequest) :
    Ends (fun _ => True) (fun reply => reply.isAnswered = false) (decode request) := by
  unfold decode
  refine Ends.bind (require_ends _ rfl) fun _ _ => Ends.bind (readPayload_ends _ _) fun parsed _ => ?_
  cases parsed with
  | none => exact rfl
  | some body => trivial

theorem admit_ends (settings : ServerSettings) (request : SyncRequest) (server : IngestServer) :
    Ends (fun _ => True) (fun reply => reply.isAnswered = false) (admission settings request server) := by
  unfold admission
  cases settings.credentials.authenticate request.key with
  | error code => exact rfl
  | ok credential =>
      dsimp only
      cases server.projects.get credential.project with
      | none => exact rfl
      | some store =>
          refine Ends.bind (decode_ends request) fun body _ => ?_
          cases ValidateEnvelope.validateEnvelope settings.ingest.project.wiring.js settings.limits
              request.range body with
          | error invalid => exact rfl
          | ok _ =>
              dsimp only
              cases ValidateEnvelope.readEnvelope body with
              | none => exact rfl
              | some envelope =>
                  dsimp only
                  cases CredentialRegistry.authorize credential envelope.client.role with
                  | error code => exact rfl
                  | ok source => exact Ends.bind (require_ends _ rfl) fun _ _ => trivial

/-- A validated envelope has a role the aggregator takes. -/
theorem hasRole_of_validated {settings : ServerSettings} {range : ValidateEnvelope.TimeRange}
    {body : Json} {envelope : Envelope}
    (h : ValidateEnvelope.validateEnvelope settings.ingest.project.wiring.js settings.limits range
      body = .ok ())
    (hread : ValidateEnvelope.readEnvelope body = some envelope) : Project.HasRole envelope := by
  obtain ⟨held, hheld, hok⟩ := (ValidateEnvelope.validateEnvelope_iff _ _ _ _).mp h
  rw [hread, Option.some.injEq] at hheld
  rw [hheld]
  exact ⟨hok.client.role.1, hok.client.role_ne⟩

/-- What an admitted request has passed. -/
structure Admitted (settings : ServerSettings) (request : SyncRequest) (server : IngestServer)
    (credential : CredentialRecord) (store : Project) (envelope : Envelope) (source : Source) :
    Prop where
  authenticated : settings.credentials.authenticate request.key = .ok credential
  authorized : CredentialRegistry.authorize credential envelope.client.role = .ok source
  store : server.projects.get credential.project = some store
  project : envelope.project = credential.project
  role : Project.HasRole envelope

theorem admit_eq_ok {settings : ServerSettings} {request : SyncRequest} {server : IngestServer}
    {store : Project} {envelope : Envelope} {source : Source}
    (h : admission settings request server = .ok (store, envelope, source)) :
    ∃ credential, Admitted settings request server credential store envelope source := by
  unfold admission at h
  cases hauth : settings.credentials.authenticate request.key with
  | error code => simp [hauth] at h
  | ok credential =>
      cases hstore : server.projects.get credential.project with
      | none => simp [hauth, hstore] at h
      | some held =>
          simp only [hauth, hstore, bind_eq_ok_iff] at h
          obtain ⟨body, _, h⟩ := h
          cases hvalid : ValidateEnvelope.validateEnvelope settings.ingest.project.wiring.js
              settings.limits request.range body with
          | error invalid => simp [hvalid] at h
          | ok _ =>
              cases hread : ValidateEnvelope.readEnvelope body with
              | none => simp [hvalid, hread] at h
              | some read =>
                  cases hsource : CredentialRegistry.authorize credential read.client.role with
                  | error code => simp [hvalid, hread, hsource] at h
                  | ok authorized =>
                      simp only [hvalid, hread, hsource, bind_eq_ok_iff, require_eq_ok_iff,
                        exists_const, decide_eq_true_eq, pure, Except.pure, Except.ok.injEq,
                        Prod.mk.injEq] at h
                      obtain ⟨hproject, rfl, rfl, rfl⟩ := h
                      exact ⟨credential, hauth, hsource, hstore, hproject,
                        hasRole_of_validated hvalid hread⟩

/-- The ledgers took an envelope's evidence. -/
structure Taken (settings : IngestSettings) (project : String) (envelope : Envelope)
    (source : Source) (server : IngestServer) (ledger : ExperimentLedger)
    (work : RetentionLedger.Work) : Prop where
  batch : ∃ results, server.ledger.ingestBatch settings.ledger project (experimentEvents envelope)
    source = .ok (ledger, results) ∧ ∀ result ∈ results, result.status.isRejection = false
  retention : server.retention.ingestBatch settings.retention project (retentionEvents envelope) =
    .ok work

/-- The server after an envelope in all its views. -/
def accepted (settings : IngestSettings) (store : Project) (envelope : Envelope)
    (prepared : HistoryAccumulator.Prepared) (clock : IngestClock) (ledger : ExperimentLedger)
    (work : RetentionLedger.Work) (server : IngestServer) : IngestServer where
  projects := server.projects.put store.name
    ((Project.accepted settings.project envelope prepared clock store).syncResponse settings.project
      envelope clock).2
  ledger := ledger
  retention := work.ledger
  sink := server.sink.ingest envelope
  historyMarked := server.historyMarked || decide (0 < prepared.updates.size)
  metrics := IngestPipeline.countDropped work.dropped server.metrics

/-- The outcomes of the pipeline on an envelope with a role. -/
inductive Effect (settings : IngestSettings) (store : Project) (envelope : Envelope)
    (source : Source) (clock : IngestClock) (server : IngestServer) :
    Outcome → IngestServer → Prop
  /-- Nothing changed. -/
  | nothing (outcome : Outcome) (h : outcome.isAnswered = false) :
      Effect settings store envelope source clock server outcome server
  /-- The experiment ledger counted refused evidence. -/
  | refused (outcome : Outcome) (h : outcome.isAnswered = false) (ledger : ExperimentLedger)
      (results : List IngestResult)
      (hbatch : server.ledger.ingestBatch settings.ledger store.name (experimentEvents envelope)
        source = .ok (ledger, results))
      (hsame : ExperimentLedger.SameEvidence server.ledger ledger) :
      Effect settings store envelope source clock server outcome { server with ledger := ledger }
  /-- Every part took the envelope. -/
  | accepted (prepared : HistoryAccumulator.Prepared) (ledger : ExperimentLedger)
      (work : RetentionLedger.Work)
      (hvalid : validateExperimentEvents envelope
        store.configRepo.current.snapshot.experiments = .ok ())
      (hprepared : store.prepareHistory settings.project envelope = .ok prepared)
      (hroom : IngestPipeline.canAcceptHistory settings store.history prepared = true)
      (htaken : Taken settings store.name envelope source server ledger work) :
      Effect settings store envelope source clock server
        (.answered ((Project.accepted settings.project envelope prepared clock store).syncResponse
          settings.project envelope clock).1)
        (SyncHandler.accepted settings store envelope prepared clock ledger work server)

theorem transaction_eq_ok {α : Type} {fault : Option StoreFault} {work : Except LedgerFailure α}
    {result : α} (h : IngestPipeline.transaction fault work = .ok result) : work = .ok result := by
  unfold IngestPipeline.transaction at h
  split at h
  · exact h
  · cases h
  · cases work with
    | error failure => cases h
    | ok a => cases h

theorem mapError_eq_ok {ε ε' α : Type} {x : Except ε α} {f : ε → ε'} {a : α}
    (h : x.mapError f = .ok a) : x = .ok a := by
  cases x with
  | error e => cases h
  | ok b =>
      cases h
      rfl

theorem map_eq_ok {ε α β : Type} {x : Except ε α} {f : α → β} {b : β} (h : x.map f = .ok b) :
    ∃ a, x = .ok a ∧ f a = b := by
  cases x with
  | error e => cases h
  | ok a => exact ⟨a, rfl, Except.ok.inj h⟩

theorem ingestExperiments_eq_ok {settings : IngestSettings} {project : String}
    {events : List ExperimentEvent} {source : Source} {fault : Option StoreFault}
    {ledger : ExperimentLedger} {result : ExperimentLedger × List IngestResult}
    (h : IngestPipeline.ingestExperiments settings project events source fault ledger = .ok result) :
    ledger.ingestBatch settings.ledger project events source = .ok result := by
  unfold IngestPipeline.ingestExperiments at h
  dsimp only at h
  split_ifs at h
  · exact mapError_eq_ok h
  · exact mapError_eq_ok (transaction_eq_ok h)

section
variable {settings : IngestSettings} {project : String} {envelope : Envelope} {source : Source}
  {fault : Option StoreFault} {ledger : ExperimentLedger} {retention : RetentionLedger}

theorem ingestEvidence_of_evidence {result : Evidence}
    (h : IngestPipeline.evidence settings project envelope source fault ledger retention =
      .ok result) :
    IngestPipeline.ingestEvidence settings project envelope source fault ledger retention =
      .ok result := by
  unfold IngestPipeline.evidence at h
  dsimp only at h
  split_ifs at h
  · exact h
  · exact transaction_eq_ok h

/-- Refused evidence is only counted. -/
theorem evidence_refused {after : ExperimentLedger} {result : IngestResult}
    (h : IngestPipeline.evidence settings project envelope source fault ledger retention =
      .ok (.refused after result)) :
    ∃ results, ledger.ingestBatch settings.ledger project (experimentEvents envelope) source =
        .ok (after, results) ∧ ExperimentLedger.SameEvidence ledger after := by
  have hwork := ingestEvidence_of_evidence h
  unfold IngestPipeline.ingestEvidence at hwork
  rw [bind_eq_ok_iff] at hwork
  obtain ⟨⟨batch, results⟩, hbatch, hwork⟩ := hwork
  have hingest := ingestExperiments_eq_ok hbatch
  dsimp only at hwork
  split at hwork
  · rename_i refused hfind
    cases hwork
    exact ⟨results, hingest, ExperimentLedger.sameEvidence_of_refused hingest hfind⟩
  · rw [bind_eq_ok_iff] at hwork
    obtain ⟨_, _, hwork⟩ := hwork
    cases hwork

theorem evidence_taken {server : IngestServer} {after : ExperimentLedger}
    {work : RetentionLedger.Work}
    (h : IngestPipeline.evidence settings project envelope source fault server.ledger
      server.retention = .ok (.taken after work)) :
    Taken settings project envelope source server after work := by
  have hwork := ingestEvidence_of_evidence h
  unfold IngestPipeline.ingestEvidence at hwork
  rw [bind_eq_ok_iff] at hwork
  obtain ⟨⟨batch, results⟩, hbatch, hwork⟩ := hwork
  have hingest := ingestExperiments_eq_ok hbatch
  dsimp only at hwork
  split at hwork
  · cases hwork
  · rename_i hfind
    rw [bind_eq_ok_iff] at hwork
    obtain ⟨taken, hretention, hwork⟩ := hwork
    cases hwork
    refine ⟨⟨results, hingest, ?_⟩, mapError_eq_ok hretention⟩
    intro result hresult
    simpa using List.find?_eq_none.mp hfind result hresult

end

theorem ingest_effect {settings : IngestSettings} {store : Project} {envelope : Envelope}
    {source : Source} (hrole : Project.HasRole envelope) (clock : IngestClock)
    (fault : Option StoreFault) (server : IngestServer) :
    Effect settings store envelope source clock server
      (IngestPipeline.ingest settings store envelope source clock fault server).1
      (IngestPipeline.ingest settings store envelope source clock fault server).2 := by
  unfold IngestPipeline.ingest
  cases hvalid : validateExperimentEvents envelope
      store.configRepo.current.snapshot.experiments with
  | error message => exact .nothing _ rfl
  | ok _ =>
      cases hprepared : store.prepareHistory settings.project envelope with
      | error message => exact .nothing _ rfl
      | ok prepared =>
          dsimp only
          by_cases hroom : IngestPipeline.canAcceptHistory settings store.history prepared = true
          · rw [if_pos hroom]
            cases hevidence : IngestPipeline.evidence settings store.name envelope source fault
                server.ledger server.retention with
            | error failure =>
                cases failure with
                | thrown message => exact .nothing _ rfl
                | retentionInput message => exact .nothing _ rfl
            | ok evidence =>
                cases evidence with
                | refused ledger result =>
                    obtain ⟨results, hbatch, hsame⟩ := evidence_refused hevidence
                    exact .refused _ rfl ledger results hbatch hsame
                | taken ledger work =>
                    have heffect := @Effect.accepted settings store envelope source clock server prepared
                      ledger work hvalid hprepared hroom (evidence_taken hevidence)
                    dsimp only
                    unfold IngestPipeline.accept
                    rw [Project.commitIngest_eq settings.project hrole]
                    exact heffect
          · rw [if_neg hroom]
            exact .nothing _ rfl

/-- The answer is a config exactly when the pipeline answered. -/
theorem isAnswered_replyOf (outcome : Outcome) :
    (replyOf outcome).isAnswered = outcome.isAnswered := by
  cases outcome <;> rfl

/-- What a request can do: it is turned away, or it goes into the project its
credential stands for. -/
inductive Handled (settings : ServerSettings) (request : SyncRequest) (server : IngestServer) :
    Reply → IngestServer → Prop
  | turnedAway (reply : Reply) (hadmission : admission settings request server = .error reply)
      (hreply : reply.isAnswered = false) : Handled settings request server reply server
  | ingested (credential : CredentialRecord) (store : Project) (envelope : Envelope)
      (source : Source) (outcome : Outcome) (after : IngestServer)
      (hadmission : admission settings request server = .ok (store, envelope, source))
      (hadmitted : Admitted settings request server credential store envelope source)
      (heffect : Effect settings.ingest store envelope source request.clock server outcome after) :
      Handled settings request server (replyOf outcome) after

theorem handleSync_handled (settings : ServerSettings) (request : SyncRequest)
    (server : IngestServer) :
    Handled settings request server (handleSync settings request server).1
      (handleSync settings request server).2 := by
  have hends := admit_ends settings request server
  unfold handleSync
  cases hadmission : admission settings request server with
  | error reply =>
      rw [hadmission] at hends
      exact .turnedAway reply hadmission hends
  | ok found =>
      obtain ⟨store, envelope, source⟩ := found
      obtain ⟨credential, hadmitted⟩ := admit_eq_ok hadmission
      exact .ingested credential store envelope source _ _ hadmission hadmitted
        (ingest_effect hadmitted.role request.clock request.fault server)

/-! ## One envelope on two servers -/

/-- The same verdict, with ledgers and retention rows that are related. -/
def SameVerdict (L : ExperimentLedger → ExperimentLedger → Prop)
    (W : RetentionLedger.Work → RetentionLedger.Work → Prop) : Evidence → Evidence → Prop
  | .refused a result, .refused b result' => L a b ∧ result' = result
  | .taken a work, .taken b work' => L a b ∧ W work work'
  | _, _ => False

theorem transaction_alike {α : Type} {R : α → α → Prop} {x y : Except LedgerFailure α}
    (h : EndsAlike R x y) (fault : Option StoreFault) :
    EndsAlike R (IngestPipeline.transaction fault x) (IngestPipeline.transaction fault y) := by
  cases fault with
  | none => exact h
  | some fault =>
      cases fault with
      | busy message => exact rfl
      | slow message => exact EndsAlike.bind h fun _ _ _ => rfl

section
variable {L : ExperimentLedger → ExperimentLedger → Prop}
  {W : RetentionLedger.Work → RetentionLedger.Work → Prop} {settings : IngestSettings}
  {project : String} {envelope : Envelope} {source : Source} {a b : IngestServer}

/-- Ledgers that end a batch alike give the same evidence. -/
theorem evidence_alike
    (hbatch : EndsAlike (fun x y => L x.1 y.1 ∧ y.2 = x.2)
      (a.ledger.ingestBatch settings.ledger project (experimentEvents envelope) source)
      (b.ledger.ingestBatch settings.ledger project (experimentEvents envelope) source))
    (hretention : EndsAlike W
      (a.retention.ingestBatch settings.retention project (retentionEvents envelope))
      (b.retention.ingestBatch settings.retention project (retentionEvents envelope)))
    (fault : Option StoreFault) :
    EndsAlike (SameVerdict L W)
      (IngestPipeline.evidence settings project envelope source fault a.ledger a.retention)
      (IngestPipeline.evidence settings project envelope source fault b.ledger b.retention) := by
  have hexperiments : EndsAlike (fun x y => L x.1 y.1 ∧ y.2 = x.2)
      (IngestPipeline.ingestExperiments settings project (experimentEvents envelope) source fault
        a.ledger)
      (IngestPipeline.ingestExperiments settings project (experimentEvents envelope) source fault
        b.ledger) := by
    unfold IngestPipeline.ingestExperiments
    dsimp only
    split_ifs
    · exact hbatch.mapError _
    · exact transaction_alike (hbatch.mapError _) fault
  have hwork : EndsAlike (SameVerdict L W)
      (IngestPipeline.ingestEvidence settings project envelope source fault a.ledger a.retention)
      (IngestPipeline.ingestEvidence settings project envelope source fault b.ledger
        b.retention) := by
    unfold IngestPipeline.ingestEvidence
    refine EndsAlike.bind hexperiments ?_
    rintro ⟨left, results⟩ ⟨right, results'⟩ ⟨hledger, hresults⟩
    dsimp only at hledger hresults ⊢
    rw [hresults]
    cases results.find? fun result => result.status.isRejection with
    | some refused => exact ⟨hledger, rfl⟩
    | none => exact EndsAlike.bind (hretention.mapError _) fun _ _ h => ⟨hledger, h⟩
  unfold IngestPipeline.evidence
  dsimp only
  split_ifs
  · exact hwork
  · exact transaction_alike hwork fault

/-- Servers on which the evidence is the same, and what follows keeps them related,
answer an envelope alike. -/
theorem ingest_alike {S : IngestServer → IngestServer → Prop} (h : S a b) (store : Project)
    (clock : IngestClock) (fault : Option StoreFault)
    (hevidence : EndsAlike (SameVerdict L W)
      (IngestPipeline.evidence settings store.name envelope source fault a.ledger a.retention)
      (IngestPipeline.evidence settings store.name envelope source fault b.ledger b.retention))
    (hrefused : ∀ x y, L x y → S { a with ledger := x } { b with ledger := y })
    (htaken : ∀ x y w v prepared, L x y → W w v →
      let left := IngestPipeline.accept settings store envelope prepared clock { a with
        ledger := x
        retention := w.ledger
        metrics := IngestPipeline.countDropped w.dropped a.metrics }
      let right := IngestPipeline.accept settings store envelope prepared clock { b with
        ledger := y
        retention := v.ledger
        metrics := IngestPipeline.countDropped v.dropped b.metrics }
      right.1 = left.1 ∧ S left.2 right.2) :
    (IngestPipeline.ingest settings store envelope source clock fault b).1 =
        (IngestPipeline.ingest settings store envelope source clock fault a).1 ∧
      S (IngestPipeline.ingest settings store envelope source clock fault a).2
        (IngestPipeline.ingest settings store envelope source clock fault b).2 := by
  unfold IngestPipeline.ingest
  cases validateExperimentEvents envelope store.configRepo.current.snapshot.experiments with
  | error message => exact ⟨rfl, h⟩
  | ok _ =>
      cases store.prepareHistory settings.project envelope with
      | error message => exact ⟨rfl, h⟩
      | ok prepared =>
          dsimp only
          by_cases hroom : IngestPipeline.canAcceptHistory settings store.history prepared = true
          · rw [if_pos hroom, if_pos hroom]
            generalize IngestPipeline.evidence settings store.name envelope source fault a.ledger
              a.retention = x at hevidence ⊢
            generalize IngestPipeline.evidence settings store.name envelope source fault b.ledger
              b.retention = y at hevidence ⊢
            cases x with
            | error failure =>
                cases y with
                | error failure' =>
                    have hfailure : failure = failure' := hevidence
                    subst hfailure
                    cases failure <;> exact ⟨rfl, h⟩
                | ok verdict => exact hevidence.elim
            | ok verdict =>
                cases y with
                | error failure => exact hevidence.elim
                | ok verdict' =>
                    cases verdict with
                    | refused left result =>
                        cases verdict' with
                        | refused right result' =>
                            obtain ⟨hledger, hresult⟩ := hevidence
                            subst hresult
                            exact ⟨rfl, hrefused left right hledger⟩
                        | taken right work => exact hevidence.elim
                    | taken left work =>
                        cases verdict' with
                        | refused right result' => exact hevidence.elim
                        | taken right work' =>
                            exact htaken left right work work' prepared hevidence.1 hevidence.2
          · rw [if_neg hroom, if_neg hroom]
            exact ⟨rfl, h⟩

/-- The answer of an accepted envelope is the project's. -/
theorem accept_answer (settings : IngestSettings) (store : Project) (envelope : Envelope)
    (prepared : HistoryAccumulator.Prepared) (clock : IngestClock) (a b : IngestServer) :
    (IngestPipeline.accept settings store envelope prepared clock b).1 =
      (IngestPipeline.accept settings store envelope prepared clock a).1 := by
  unfold IngestPipeline.accept
  cases store.commitIngest settings.project envelope prepared clock with
  | mk ended committed => cases ended <;> rfl

end

end SyncHandler

end Wardx
