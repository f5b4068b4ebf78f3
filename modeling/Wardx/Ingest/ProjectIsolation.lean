import Wardx.Core.GoalMetric
import Wardx.Ingest.SyncHandler
import Wardx.Storage.ProjectRows

/-!
# Projects do not interfere

The requests of a project, and what else is done to it, act on its state in
memory and on its rows alone. So a run of the server looks to a project as if
the other projects' commands had not been there, and its clients get the same
answers.

The projects share one bound, the ledger's cap on assignment rows: a project
whose evidence no longer fits is turned away because of the others. The theorem
is about runs in which the project's own evidence finds room.
-/
namespace Wardx.SyncHandler

open Lib

/-- The project's state in memory and its rows are the same. -/
structure SameOf (project : String) (a b : IngestServer) : Prop where
  stores : b.projects.get project = a.projects.get project
  ledger : ExperimentLedger.SameProject project a.ledger b.ledger
  retention : RetentionLedger.SameProject project a.retention b.retention

/-- Projects stand under their names. -/
def Named (server : IngestServer) : Prop :=
  ∀ name store, server.projects.get name = some store → store.name = name

section
variable (settings : ServerSettings) (project : String)

/-- The commands about a project: requests that come with one of its credentials,
calls that name it, and the prune of all rows. -/
def concerns : ServerCommand → Bool
  | .sync request =>
      match settings.credentials.authenticate request.key with
      | .error _ => false
      | .ok credential => credential.project = project
  | .publish name _ _ => name = project
  | .acknowledge name _ => name = project
  | .prunePersisted name _ => name = project
  | .historyWritten => false
  | .decide name _ _ _ _ => name = project
  | .scheduleExpiry name _ _ => name = project
  | .clearExpiry name _ => name = project
  | .pruneExpired _ => true

/-- A request's evidence fits under the cap. -/
def roomForRequest (server : IngestServer) (request : SyncRequest) : Bool :=
  match admission settings request server with
  | .error _ => true
  | .ok (store, envelope, source) =>
      ExperimentLedger.hasRoom settings.ingest.ledger server.ledger store.name
        (experimentEvents envelope) source

/-- The project's own requests find room. -/
def RoomFor (server : IngestServer) (command : ServerCommand) : Prop :=
  match command with
  | .sync request =>
      concerns settings project (.sync request) = true → roomForRequest settings server request = true
  | _ => True

instance (server : IngestServer) : ∀ command, Decidable (RoomFor settings project server command)
  | .sync request =>
      inferInstanceAs (Decidable (concerns settings project (.sync request) = true →
        roomForRequest settings server request = true))
  | .publish _ _ _ => isTrue trivial
  | .acknowledge _ _ => isTrue trivial
  | .prunePersisted _ _ => isTrue trivial
  | .historyWritten => isTrue trivial
  | .decide _ _ _ _ _ => isTrue trivial
  | .scheduleExpiry _ _ _ => isTrue trivial
  | .clearExpiry _ _ => isTrue trivial
  | .pruneExpired _ => isTrue trivial

end

/-! ## Commands of other projects -/

section
variable {settings : ServerSettings} {project : String}

theorem SameOf.refl (server : IngestServer) : SameOf project server server :=
  ⟨rfl, .refl _, .refl _⟩

theorem SameOf.trans {a b c : IngestServer} (h : SameOf project a b) (h' : SameOf project b c) :
    SameOf project a c :=
  ⟨h'.stores.trans h.stores, h.ledger.trans h'.ledger, h.retention.trans h'.retention⟩

theorem sameOf_updateProject {other : String} (hother : project ≠ other) (f : Project → Project)
    (server : IngestServer) : SameOf project server (updateProject other f server) := by
  unfold updateProject
  cases server.projects.get other with
  | none => exact .refl server
  | some store => exact ⟨Table.get_put_of_ne _ _ hother, .refl _, .refl _⟩

theorem sameOf_keepLedger {server : IngestServer} {result : Except String ExperimentLedger}
    (h : ∀ ledger, result = .ok ledger → ExperimentLedger.SameProject project server.ledger ledger) :
    SameOf project server (keepLedger server result) := by
  cases result with
  | error message => exact .refl server
  | ok ledger => exact ⟨rfl, h ledger rfl, .refl _⟩

/-- A request with another project's credential leaves the project alone. -/
theorem sameOf_sync {server : IngestServer} (hnamed : Named server) (request : SyncRequest)
    (hother : concerns settings project (.sync request) = false) :
    SameOf project server (step settings (.sync request) server) := by
  have hhandled := handleSync_handled settings request server
  show SameOf project server (handleSync settings request server).2
  generalize (handleSync settings request server).1 = reply at hhandled
  generalize (handleSync settings request server).2 = after at hhandled ⊢
  cases hhandled with
  | turnedAway => exact .refl server
  | ingested credential store envelope source outcome after hadmission hadmitted heffect =>
      have hname : store.name = credential.project := hnamed _ store hadmitted.store
      have hne : project ≠ credential.project := by
        unfold concerns at hother
        simp only [hadmitted.authenticated, decide_eq_false_iff_not] at hother
        exact fun hsame => hother hsame.symm
      cases heffect with
      | nothing => exact .refl server
      | refused _ _ ledger results hbatch =>
          rw [hname] at hbatch
          exact ⟨rfl, ExperimentLedger.sameProject_ingestBatch hne hbatch, .refl _⟩
      | accepted prepared ledger work hvalid hprepared hroom htaken =>
          obtain ⟨results, hbatch, _⟩ := htaken.batch
          rw [hname] at hbatch
          have hretention := htaken.retention
          rw [hname] at hretention
          refine ⟨?_, ExperimentLedger.sameProject_ingestBatch hne hbatch,
            RetentionLedger.sameProject_ingestBatch hne hretention⟩
          unfold SyncHandler.accepted
          dsimp only
          rw [hname]
          exact Table.get_put_of_ne _ _ hne

theorem sameOf_other {server : IngestServer} (hnamed : Named server) (command : ServerCommand)
    (hother : concerns settings project command = false) :
    SameOf project server (step settings command server) := by
  cases command with
  | sync request => exact sameOf_sync hnamed request hother
  | publish name snapshot catalog =>
      exact sameOf_updateProject (Ne.symm (of_decide_eq_false hother)) _ server
  | acknowledge name buckets =>
      exact sameOf_updateProject (Ne.symm (of_decide_eq_false hother)) _ server
  | prunePersisted name through =>
      exact sameOf_updateProject (Ne.symm (of_decide_eq_false hother)) _ server
  | historyWritten => exact ⟨rfl, .refl _, .refl _⟩
  | decide name experiment decision expiresAt decidedAt =>
      refine sameOf_keepLedger fun ledger hledger => ?_
      obtain ⟨⟨after, stored⟩, hdone, rfl⟩ := map_eq_ok hledger
      exact ExperimentLedger.sameProject_persistTerminalDecisionAndScheduleExpiry
        (Ne.symm (of_decide_eq_false hother)) hdone
  | scheduleExpiry name experiment expiresAt =>
      exact sameOf_keepLedger fun ledger hledger =>
        ExperimentLedger.sameProject_scheduleExpiry (Ne.symm (of_decide_eq_false hother)) hledger
  | clearExpiry name experiment =>
      exact ⟨rfl, ExperimentLedger.sameProject_clearExpiry (Ne.symm (of_decide_eq_false hother)) _,
        .refl _⟩
  | pruneExpired now => cases hother

theorem named_put {server : IngestServer} (hnamed : Named server) {name : String} {next : Project}
    (hnext : next.name = name) :
    ∀ other store, (server.projects.put name next).get other = some store → store.name = other := by
  intro other store hstore
  rw [Table.get_put] at hstore
  split_ifs at hstore with hother
  · cases hstore
    exact hnext.trans hother.symm
  · exact hnamed other store hstore

theorem named_step {server : IngestServer} (hnamed : Named server) (command : ServerCommand) :
    Named (step settings command server) := by
  have hupdate : ∀ name (f : Project → Project), (∀ store, (f store).name = store.name) →
      Named (updateProject name f server) := by
    intro name f hname
    unfold updateProject
    cases hstore : server.projects.get name with
    | none => exact hnamed
    | some store => exact named_put hnamed ((hname store).trans (hnamed name store hstore))
  have hkeep : ∀ result, Named (keepLedger server result) := by
    intro result
    cases result <;> exact hnamed
  cases command with
  | sync request =>
      have hhandled := handleSync_handled settings request server
      show Named (handleSync settings request server).2
      generalize (handleSync settings request server).1 = reply at hhandled
      generalize (handleSync settings request server).2 = after at hhandled ⊢
      cases hhandled with
      | turnedAway => exact hnamed
      | ingested credential store envelope source outcome after hadmission hadmitted heffect =>
          cases heffect with
          | nothing => exact hnamed
          | refused => exact hnamed
          | accepted => exact named_put hnamed rfl
  | publish name snapshot catalog => exact hupdate name _ fun _ => rfl
  | acknowledge name buckets => exact hupdate name _ fun _ => rfl
  | prunePersisted name through => exact hupdate name _ fun _ => rfl
  | historyWritten => exact hnamed
  | decide name experiment decision expiresAt decidedAt => exact hkeep _
  | scheduleExpiry name experiment expiresAt => exact hkeep _
  | clearExpiry name experiment => exact hnamed
  | pruneExpired now => exact hnamed

/-! ## Commands about the project -/

/-- What a project on its own and among others have in common. -/
structure Alike (project : String) (a b : IngestServer) : Prop where
  same : SameOf project a b
  only : ExperimentLedger.OnlyOf project a.ledger
  named : Named a
  namedAmong : Named b

theorem SameOf.updateProject {a b : IngestServer} (h : SameOf project a b) (f : Project → Project) :
    SameOf project (updateProject project f a) (updateProject project f b) := by
  unfold SyncHandler.updateProject
  rw [h.stores]
  cases hstore : a.projects.get project with
  | none => exact h
  | some store =>
      refine ⟨?_, h.ledger, h.retention⟩
      dsimp only
      rw [Table.get_put_self, Table.get_put_self]

theorem SameOf.putLedger {a b : IngestServer} (h : SameOf project a b) {left right : ExperimentLedger}
    (hledger : ExperimentLedger.SameProject project left right) :
    SameOf project { a with ledger := left } { b with ledger := right } :=
  ⟨h.stores, hledger, h.retention⟩

theorem SameOf.keepLedger {a b : IngestServer} (h : SameOf project a b)
    {left right : Except String ExperimentLedger}
    (halike : EndsAlike (ExperimentLedger.SameProject project) left right) :
    SameOf project (keepLedger a left) (keepLedger b right) := by
  cases left with
  | error message =>
      cases right with
      | error message' => exact h
      | ok ledger => exact halike.elim
  | ok ledger =>
      cases right with
      | error message => exact halike.elim
      | ok ledger' => exact h.putLedger halike

theorem SameOf.accept {a b : IngestServer} (h : SameOf project a b) (settings : IngestSettings)
    {store : Project} (hname : store.name = project) (envelope : Envelope)
    (prepared : HistoryAccumulator.Prepared) (clock : IngestClock) :
    SameOf project (IngestPipeline.accept settings store envelope prepared clock a).2
      (IngestPipeline.accept settings store envelope prepared clock b).2 := by
  unfold IngestPipeline.accept
  rw [hname]
  cases store.commitIngest settings.project envelope prepared clock with
  | mk ended committed =>
      cases ended with
      | error message =>
          refine ⟨?_, h.ledger, h.retention⟩
          dsimp only
          rw [Table.get_put_self, Table.get_put_self]
      | ok _ =>
          refine ⟨?_, h.ledger, h.retention⟩
          dsimp only
          rw [Table.get_put_self, Table.get_put_self]

/-- The project's state decides whether its requests are admitted. -/
theorem SameOf.admission {a b : IngestServer} (h : SameOf project a b) {request : SyncRequest}
    (hown : concerns settings project (.sync request) = true) :
    admission settings request b = admission settings request a := by
  unfold concerns at hown
  unfold SyncHandler.admission
  cases hauth : settings.credentials.authenticate request.key with
  | error code => rfl
  | ok credential =>
      simp only [hauth, decide_eq_true_eq] at hown
      dsimp only
      rw [hown, h.stores]

theorem Alike.ingest {a b : IngestServer} (h : Alike project a b) (settings : IngestSettings)
    {store : Project} (hname : store.name = project) {envelope : Envelope} {source : Source}
    (clock : IngestClock) (fault : Option StoreFault)
    (hroom : ExperimentLedger.hasRoom settings.ledger b.ledger store.name (experimentEvents envelope)
      source = true) :
    (IngestPipeline.ingest settings store envelope source clock fault b).1 =
        (IngestPipeline.ingest settings store envelope source clock fault a).1 ∧
      SameOf project (IngestPipeline.ingest settings store envelope source clock fault a).2
        (IngestPipeline.ingest settings store envelope source clock fault b).2 := by
  subst hname
  have hbatch := h.same.ledger.ingestBatch h.only hroom
  have hretention := @RetentionLedger.SameProject.ingestBatch settings.retention _ _ _
    h.same.retention (retentionEvents envelope)
  refine ingest_alike h.same store clock fault (evidence_alike hbatch hretention fault)
    (fun _ _ hledger => h.same.putLedger hledger) fun x y w v prepared hledger hwork => ?_
  refine ⟨accept_answer _ _ _ _ _ _ _, SameOf.accept ?_ settings rfl envelope prepared clock⟩
  exact ⟨h.same.stores, hledger, hwork.1⟩

theorem Alike.handleSync {a b : IngestServer} (h : Alike project a b) {request : SyncRequest}
    (hown : concerns settings project (.sync request) = true)
    (hroom : roomForRequest settings b request = true) :
    (handleSync settings request b).1 = (handleSync settings request a).1 ∧
      SameOf project (handleSync settings request a).2 (handleSync settings request b).2 := by
  have hadmission := h.same.admission hown
  unfold SyncHandler.handleSync
  unfold roomForRequest at hroom
  rw [hadmission] at hroom ⊢
  cases hfound : SyncHandler.admission settings request a with
  | error reply => exact ⟨rfl, h.same⟩
  | ok found =>
      obtain ⟨store, envelope, source⟩ := found
      obtain ⟨credential, hadmitted⟩ := admit_eq_ok hfound
      rw [hfound] at hroom
      have hname : store.name = project := by
        rw [h.named _ store hadmitted.store]
        unfold concerns at hown
        simpa [hadmitted.authenticated] using hown
      obtain ⟨houtcome, hsame⟩ := h.ingest settings.ingest hname request.clock request.fault hroom
      exact ⟨congrArg replyOf houtcome, hsame⟩

/-- The project's own commands bring no other rows. -/
theorem onlyOf_step {server : IngestServer} (hnamed : Named server)
    (honly : ExperimentLedger.OnlyOf project server.ledger) (command : ServerCommand)
    (hown : concerns settings project command = true) :
    ExperimentLedger.OnlyOf project (step settings command server).ledger := by
  have hupdate : ∀ name f, (updateProject name f server).ledger = server.ledger := by
    intro name f
    unfold updateProject
    cases server.projects.get name <;> rfl
  have hkeep : ∀ result : Except String ExperimentLedger,
      (∀ ledger, result = .ok ledger → ExperimentLedger.OnlyOf project ledger) →
        ExperimentLedger.OnlyOf project (keepLedger server result).ledger := by
    intro result hresult
    cases result with
    | error message => exact honly
    | ok ledger => exact hresult ledger rfl
  cases command with
  | sync request =>
      have hhandled := handleSync_handled settings request server
      show ExperimentLedger.OnlyOf project (handleSync settings request server).2.ledger
      generalize (SyncHandler.handleSync settings request server).1 = reply at hhandled
      generalize (SyncHandler.handleSync settings request server).2 = after at hhandled ⊢
      cases hhandled with
      | turnedAway => exact honly
      | ingested credential store envelope source outcome after hadmission hadmitted heffect =>
          have hname : store.name = project := by
            rw [hnamed _ store hadmitted.store]
            unfold concerns at hown
            simpa [hadmitted.authenticated] using hown
          subst hname
          cases heffect with
          | nothing => exact honly
          | refused _ _ ledger results hbatch => exact honly.ingestBatch hbatch
          | accepted prepared ledger work hvalid hprepared hroom htaken =>
              obtain ⟨results, hbatch, _⟩ := htaken.batch
              exact honly.ingestBatch hbatch
  | publish name snapshot catalog => exact (hupdate name _).symm ▸ honly
  | acknowledge name buckets => exact (hupdate name _).symm ▸ honly
  | prunePersisted name through => exact (hupdate name _).symm ▸ honly
  | historyWritten => exact honly
  | decide name experiment decision expiresAt decidedAt =>
      refine hkeep _ fun ledger hledger => ?_
      obtain ⟨⟨after, stored⟩, hdone, rfl⟩ := map_eq_ok hledger
      exact honly.persistTerminalDecisionAndScheduleExpiry hdone
  | scheduleExpiry name experiment expiresAt =>
      exact hkeep _ fun ledger hledger => honly.scheduleExpiry hledger
  | clearExpiry name experiment => exact honly.clearExpiry name experiment
  | pruneExpired now => exact honly.pruneExpired now

theorem Alike.own {a b : IngestServer} (h : Alike project a b) (command : ServerCommand)
    (hown : concerns settings project command = true) (hroom : RoomFor settings project b command) :
    Alike project (step settings command a) (step settings command b) := by
  refine ⟨?_, onlyOf_step h.named h.only command hown, named_step h.named command,
    named_step h.namedAmong command⟩
  cases command with
  | sync request => exact (h.handleSync hown (hroom hown)).2
  | publish name snapshot catalog =>
      rw [← of_decide_eq_true hown] at h ⊢
      exact h.same.updateProject _
  | acknowledge name buckets =>
      rw [← of_decide_eq_true hown] at h ⊢
      exact h.same.updateProject _
  | prunePersisted name through =>
      rw [← of_decide_eq_true hown] at h ⊢
      exact h.same.updateProject _
  | historyWritten => cases hown
  | decide name experiment decision expiresAt decidedAt =>
      rw [← of_decide_eq_true hown] at h ⊢
      refine h.same.keepLedger ?_
      exact (h.same.ledger.persistTerminalDecisionAndScheduleExpiry experiment decision expiresAt
        decidedAt).map Prod.fst fun _ _ hdone => hdone.1
  | scheduleExpiry name experiment expiresAt =>
      rw [← of_decide_eq_true hown] at h ⊢
      exact h.same.keepLedger (h.same.ledger.scheduleExpiry experiment expiresAt)
  | clearExpiry name experiment =>
      rw [← of_decide_eq_true hown] at h ⊢
      exact h.same.putLedger (h.same.ledger.clearExpiry experiment)
  | pruneExpired now => exact h.same.putLedger (h.same.ledger.pruneExpired now)

theorem Alike.other {a b : IngestServer} (h : Alike project a b) (command : ServerCommand)
    (hother : concerns settings project command = false) :
    Alike project a (step settings command b) :=
  ⟨h.same.trans (sameOf_other h.namedAmong command hother), h.only, h.named,
    named_step h.namedAmong command⟩

theorem named_boot (settings : ServerSettings) (config : ServerConfig) (sink : Sink) :
    Named (boot settings config sink) := by
  intro name store hstore
  unfold boot at hstore
  rw [Table.get_mapValues] at hstore
  obtain ⟨entry, hentry, rfl⟩ := Option.map_eq_some_iff.mp hstore
  exact config.named name entry hentry

theorem alike_boot (settings : ServerSettings) (config : ServerConfig) (sink : Sink)
    (project : String) :
    Alike project (boot settings config sink) (boot settings config sink) := by
  have hnamed := named_boot settings config sink
  refine ⟨.refl _, ?_, hnamed, hnamed⟩
  intro key hkey
  cases hkey

end

/-! ### Two shops under one cap -/

def exposureBody (project : String) : Json :=
  .obj [("protocol", .num 1), ("project", .str project),
    ("sdk", .obj [("name", .str "node"), ("version", .str "1")]),
    ("client", .obj [("instanceId", .str "i"), ("sessionId", .str "s"), ("role", .str "web"),
      ("appVersion", .str "1"), ("environment", .str "live"), ("platform", .str "node")]),
    ("configVersion", .num 0),
    ("frames", .arr [.obj [("seq", .num 1), ("from", .num 0), ("to", .num 1000),
      ("metrics", .obj [("counters", .arr []), ("gauges", .arr []), ("histograms", .arr [])]),
      ("events", .arr [.arr [.num 500, .str "experiment.exposure",
        .obj [("experiment", .str "checkout"), ("variant", .str "a"),
          ("subject", .str "00000000000000aa")]]]),
      ("logs", .arr [])]])]

def exposureRequest (key project : String) : SyncRequest where
  key := some key
  encoding := ""
  payload := .bytes (some (exposureBody project)) .invalid
  range := ⟨0, 100000⟩
  clock := ⟨1000, 1000, 1000⟩
  fault := none

theorem shop_ne : "shop" ≠ "" := by decide

theorem mall_ne : "mall" ≠ "" := by decide

theorem web_named : ∀ role ∈ ["web"], role ≠ "" ∧ role ≠ "*" := by decide

def webRoles : AllowedRoles := ⟨["web"], web_named, List.nodup_singleton _⟩

theorem webRoles_ne : webRoles.names ≠ [] := List.cons_ne_nil _ _

def credentialOf (project : String) (h : project ≠ "") : CredentialRecord :=
  ⟨project, project, webRoles, true, true, h, h, webRoles_ne⟩

theorem keys_nodup : ["k-shop", "k-mall"].Nodup := by decide

def twoCredentials : Table String CredentialRecord where
  entries := [("k-shop", credentialOf "shop" shop_ne), ("k-mall", credentialOf "mall" mall_ne)]
  nodup := keys_nodup

theorem twoCredentials_labels : ∀ a b left right, twoCredentials.get a = some left →
    twoCredentials.get b = some right → left.label = right.label → a = b := by
  intro a b left right ha hb hlabel
  rw [Table.get_eq_some_iff] at ha hb
  simp only [twoCredentials, List.mem_cons, List.not_mem_nil, or_false, Prod.mk.injEq] at ha hb
  rcases ha with ⟨rfl, rfl⟩ | ⟨rfl, rfl⟩ <;> rcases hb with ⟨rfl, rfl⟩ | ⟨rfl, rfl⟩
  · rfl
  · exact absurd hlabel (by decide)
  · exact absurd hlabel (by decide)
  · rfl

theorem one_le_one : 1 ≤ 1 := Nat.le_refl 1

theorem one_le_ten : 1 ≤ 10 := by decide

/-- One assignment row fits. -/
def twoShops : ServerSettings where
  ingest :=
    { project :=
        { wiring := ⟨Js.plain, id⟩
          limits := ⟨900000, 100, 120000⟩
          recentClientsMax := 10
          recentEventsMax := 10
          recentLogsMax := 10 }
      ledger := ⟨1, 10, one_le_one, one_le_ten⟩
      retention := ⟨10, 10, 10⟩
      maxPendingBatches := 100
      maxPendingBytes := 100000 }
  limits := ⟨⟨100, 10, 100, 10, 100⟩, 10, 100, 1000, 100000⟩
  credentials := ⟨twoCredentials, twoCredentials_labels⟩

theorem one_ms_pos : (1 : ℤ) ≤ 1 := le_rfl

def entryOf (project : String) (h : project ≠ "") : ProjectEntry where
  history := ⟨project, 1, 1, h, one_ms_pos, one_le_one⟩
  snapshot := Core.checkoutSnapshot 1 ["checkout"]
  catalog := ⟨[], []⟩

theorem shops_nodup : ["shop", "mall"].Nodup := by decide

def twoProjects : Table String ProjectEntry where
  entries := [("shop", entryOf "shop" shop_ne), ("mall", entryOf "mall" mall_ne)]
  nodup := shops_nodup

theorem twoProjects_named : ∀ name entry, twoProjects.get name = some entry →
    entry.history.project = name := by
  intro name entry h
  rw [Table.get_eq_some_iff] at h
  simp only [twoProjects, List.mem_cons, List.not_mem_nil, or_false, Prod.mk.injEq] at h
  rcases h with ⟨rfl, rfl⟩ | ⟨rfl, rfl⟩ <;> rfl

def twoConfig : ServerConfig := ⟨twoProjects, twoProjects_named⟩

/-- Both shops see an exposure. The second finds no room, the first does. -/
def exposuresOfTwo : List ServerCommand :=
  [.sync (exposureRequest "k-shop" "shop"), .sync (exposureRequest "k-mall" "mall"),
    .pruneExpired 5]

end Wardx.SyncHandler
