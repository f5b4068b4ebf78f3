import Wardx.Config.ConfigRepository
import Wardx.Lib.Run

/-!
# Syncing config

One client and its server. The client sends its config version and context, the
server answers with its own and adds the config unless both are the client's,
and the client applies the answer. Between a request, its answer and its
application the server may publish and serve others, and the client's
attributes may change; the client has at most one request in flight.

The server leaves the config out on the strength of the digest alone, so the
claim that both sides agree needs digests to tell the answered configs apart.
-/
namespace Wardx.Config

open Lib Json Control

/-- What the client's core keeps of its config. -/
structure CoreConfig where
  version : ℕ
  values : Fields
  experiments : List Json
  configContext : Option String
  reportedVersion : ℕ
deriving DecidableEq, Repr

/-- A core that never synced. -/
def CoreConfig.initial : CoreConfig := ⟨0, [], [], none, 0⟩

/-- `ConfigStore.applySnapshot` and what follows it in `applyConfig`. -/
def applyConfig (version : ℕ) (config : WireConfig) (core : CoreConfig) :
    Except String CoreConfig := do
  checkAll (fun experiment => require (nonEmptyText (experiment.get? "goalMetric"))
    ("experiment " ++ propertyKey (experiment.get? "id") ++ " requires a non-empty goalMetric"))
    config.experiments
  pure { core with
    version := version
    values := config.values
    experiments := config.experiments
    reportedVersion := version }

/-- `applySyncResponse` of an accepted sync. -/
def applySyncResponse (response : Response) (core : CoreConfig) : Except String CoreConfig :=
  let reported := { core with reportedVersion := response.configVersion }
  match response.config with
  | none => .ok reported
  | some config => do
      let applied ← applyConfig response.configVersion config reported
      pure { applied with configContext := some response.configContext }

/-- The config part of a sync envelope. -/
structure SyncRequest where
  client : Client
  configVersion : ℕ
  configContext : Option String
deriving DecidableEq, Repr

inductive Flight
  | idle
  | sent (request : SyncRequest)
  | answered (response : Response)
deriving DecidableEq, Repr

structure SyncState where
  server : ConfigRepository
  client : Client
  core : CoreConfig
  flight : Flight

inductive SyncStep
  /-- A publish, or a sync of another client. -/
  | server (call : Call)
  | setClient (client : Client)
  | send
  | answer (serverTime : ℕ)
  | apply
  | lose

section
variable (wiring : Wiring)

def syncStep (step : SyncStep) (s : SyncState) : SyncState :=
  match step, s.flight with
  | .server call, _ => { s with server := afterCall wiring s.server call }
  | .setClient client, _ => { s with client := client }
  | .send, .idle =>
      { s with flight := .sent ⟨s.client, s.core.version, s.core.configContext⟩ }
  | .answer serverTime, .sent request =>
      let (response, server) := buildResponse wiring s.server request.configVersion request.client
        request.configContext serverTime
      { s with server := server, flight := .answered response }
  | .apply, .answered response =>
      match applySyncResponse response s.core with
      | .ok core => { s with core := core, flight := .idle }
      -- The check fails before anything but the reported version is written.
      | .error _ =>
          { s with
            core := { s.core with reportedVersion := response.configVersion }
            flight := .idle }
  | .lose, _ => { s with flight := .idle }
  | _, _ => s

/-- The config a step answers a request with. -/
def answeredConfig (s : SyncState) (step : SyncStep) : List WireConfig :=
  match step, s.flight with
  | .answer _, .sent request =>
      [(resolvedWire wiring s.server.current.snapshot request.client).config]
  | _, _ => []

/-- The digest of a config's wire text. -/
def digest (config : WireConfig) : String :=
  (wireOf wiring config.values config.experiments
    ((Json.arr config.experiments).stringify wiring.js)).context

def startSync (initial : ConfigSnapshot) (client : Client) : SyncState :=
  ⟨newRepository initial, client, CoreConfig.initial, .idle⟩

/-- The core holds the values and experiments of a config. -/
def Holds (core : CoreConfig) (config : WireConfig) : Prop :=
  core.values = config.values ∧ core.experiments = config.experiments

/-- What connects the core, the request or answer in flight, and the configs
answered so far. -/
structure Synced (seen : List WireConfig) (s : SyncState) : Prop where
  views : ViewsCurrent wiring s.server
  core : ∀ context, s.core.configContext = some context →
    ∃ config ∈ seen, digest wiring config = context ∧ Holds s.core config
  sent : ∀ request, s.flight = .sent request →
    request.configVersion = s.core.version ∧ request.configContext = s.core.configContext
  answered : ∀ response, s.flight = .answered response →
    ∃ config ∈ seen, response.configContext = digest wiring config ∧
      (response.config = some config ∨
        response.config = none ∧ s.core.version = response.configVersion ∧
          s.core.configContext = some (digest wiring config))

variable {wiring} {seen : List WireConfig} {s : SyncState}

theorem synced_start (initial : ConfigSnapshot) (client : Client) :
    Synced wiring [] (startSync initial client) := by
  refine ⟨viewsCurrent_new wiring initial, ?_, ?_, ?_⟩
  · intro context h
    cases h
  · intro request h
    cases h
  · intro response h
    cases h

/-- More answered configs are no loss. -/
theorem Synced.append (h : Synced wiring seen s) (more : List WireConfig) :
    Synced wiring (seen ++ more) s := by
  refine ⟨h.views, ?_, h.sent, ?_⟩
  · intro context hcontext
    obtain ⟨config, hmem, hrest⟩ := h.core context hcontext
    exact ⟨config, List.mem_append_left _ hmem, hrest⟩
  · intro response hresponse
    obtain ⟨config, hmem, hrest⟩ := h.answered response hresponse
    exact ⟨config, List.mem_append_left _ hmem, hrest⟩

/-- What the server answers a request with. -/
theorem buildResponse_spec (hviews : ViewsCurrent wiring s.server) (request : SyncRequest)
    (serverTime : ℕ) :
    let resolved := (resolvedWire wiring s.server.current.snapshot request.client).config
    let response := (buildResponse wiring s.server request.configVersion request.client
      request.configContext serverTime).1
    response.configVersion = s.server.current.version ∧
      response.configContext = digest wiring resolved ∧
      (response.config = some resolved ∨
        response.config = none ∧ request.configVersion = s.server.current.version ∧
          request.configContext = some (digest wiring resolved)) := by
  intro resolved response
  have hwire := hviews.wireSnapshot_fst request.client
  have hcontext : (wireSnapshot wiring s.server request.client).1.context =
      digest wiring resolved := by
    rw [hwire]
    rfl
  refine ⟨rfl, hcontext, ?_⟩
  show (if _ then _ else _) = _ ∨ (if _ then _ else _) = _ ∧ _
  split_ifs with hsend
  · left
    exact congrArg (fun wire : Wire => some wire.config) hwire
  · right
    rw [not_or, not_not, not_not] at hsend
    exact ⟨rfl, hsend.1, hsend.2.trans (congrArg some hcontext)⟩

theorem applySyncResponse_ok {response : Response} {core next : CoreConfig}
    (h : applySyncResponse response core = .ok next) :
    (response.config = none ∧ next = { core with reportedVersion := response.configVersion }) ∨
      ∃ config, response.config = some config ∧
        next = ⟨response.configVersion, config.values, config.experiments,
          some response.configContext, response.configVersion⟩ := by
  unfold applySyncResponse at h
  cases hconfig : response.config with
  | none =>
      rw [hconfig] at h
      exact Or.inl ⟨rfl, (Except.ok.inj h).symm⟩
  | some config =>
      rw [hconfig] at h
      simp only [bind_eq_ok_iff, pure, Except.pure, Except.ok.injEq] at h
      obtain ⟨applied, happlied, rfl⟩ := h
      unfold applyConfig at happlied
      simp only [bind_eq_ok_iff, pure, Except.pure, Except.ok.injEq] at happlied
      obtain ⟨_, _, rfl⟩ := happlied
      exact Or.inr ⟨config, rfl, rfl⟩

theorem Synced.apply {response : Response} (h : Synced wiring seen s)
    (hflight : s.flight = .answered response) {core : CoreConfig}
    (happlied : applySyncResponse response s.core = .ok core) :
    ∀ context, core.configContext = some context →
      ∃ config ∈ seen, digest wiring config = context ∧ Holds core config := by
  intro context hcontext
  rcases applySyncResponse_ok happlied with ⟨_, rfl⟩ | ⟨config, hconfig, rfl⟩
  · exact h.core context hcontext
  · obtain ⟨answer, hmem, hdigest, hsame | ⟨hnone, _⟩⟩ := h.answered response hflight
    · rw [hconfig, Option.some.injEq] at hsame
      subst hsame
      exact ⟨config, hmem, hdigest.symm.trans (Option.some.inj hcontext), rfl, rfl⟩
    · rw [hconfig] at hnone
      cases hnone

theorem synced_step (h : Synced wiring seen s) (step : SyncStep) :
    Synced wiring (seen ++ answeredConfig wiring s step) (syncStep wiring step s) := by
  have hold := h.append (answeredConfig wiring s step)
  cases step with
  | server call => exact ⟨hold.views.afterCall call, hold.core, hold.sent, hold.answered⟩
  | setClient client => exact ⟨hold.views, hold.core, hold.sent, hold.answered⟩
  | lose =>
      refine ⟨hold.views, hold.core, ?_, ?_⟩
      · intro request hflight
        cases hflight
      · intro response hflight
        cases hflight
  | send =>
      unfold syncStep
      cases hflight : s.flight with
      | idle =>
          refine ⟨hold.views, hold.core, ?_, ?_⟩
          · intro request hrequest
            cases hrequest
            exact ⟨rfl, rfl⟩
          · intro response hresponse
            cases hresponse
      | sent request => exact hold
      | answered response => exact hold
  | answer serverTime =>
      unfold syncStep
      cases hflight : s.flight with
      | idle => exact hold
      | answered response => exact hold
      | sent request =>
          have hspec := buildResponse_spec h.views request serverTime
          refine ⟨h.views.memo_snd request.client.role, hold.core, ?_, ?_⟩
          · intro other hother
            cases hother
          · intro response hresponse
            cases hresponse
            obtain ⟨hversion, hcontext, hconfig⟩ := hspec
            obtain ⟨hrequestVersion, hrequestContext⟩ := h.sent request hflight
            refine ⟨_, List.mem_append_right _ ?_, hcontext, ?_⟩
            · unfold answeredConfig
              rw [hflight]
              exact List.mem_singleton_self _
            · refine hconfig.imp_right ?_
              intro ⟨hnone, hsame, hsameContext⟩
              refine ⟨hnone, ?_, ?_⟩
              · exact hrequestVersion.symm.trans (hsame.trans hversion.symm)
              · exact hrequestContext.symm.trans hsameContext
  | apply =>
      unfold syncStep
      cases hflight : s.flight with
      | idle => exact hold
      | sent request => exact hold
      | answered response =>
          dsimp only
          cases happlied : applySyncResponse response s.core with
          | ok core =>
              refine ⟨hold.views, hold.apply hflight happlied, ?_, ?_⟩
              · intro request hrequest
                cases hrequest
              · intro other hother
                cases hother
          | error message =>
              refine ⟨hold.views, hold.core, ?_, ?_⟩
              · intro request hrequest
                cases hrequest
              · intro other hother
                cases hother

theorem synced_run (wiring : Wiring) (initial : ConfigSnapshot) (client : Client)
    (steps : List SyncStep) :
    Synced wiring (outputs (answeredConfig wiring) (syncStep wiring) (startSync initial client) steps)
      (run (syncStep wiring) (startSync initial client) steps) :=
  outputs_invariant (Synced wiring) (answeredConfig wiring)
    (fun _ _ step h => synced_step h step) (synced_start initial client) steps

theorem syncStep_answer {request : SyncRequest} (h : s.flight = .sent request) (serverTime : ℕ) :
    (syncStep wiring (.answer serverTime) s).flight = .answered (buildResponse wiring s.server
        request.configVersion request.client request.configContext serverTime).1 ∧
      (syncStep wiring (.answer serverTime) s).core = s.core := by
  unfold syncStep
  rw [h]
  exact ⟨rfl, rfl⟩

theorem syncStep_apply {response : Response} {core : CoreConfig}
    (h : s.flight = .answered response) (happlied : applySyncResponse response s.core = .ok core) :
    (syncStep wiring .apply s).core = core := by
  unfold syncStep
  rw [h]
  dsimp only
  rw [happlied]

/-- A step that leaves the core and what is in flight alone. -/
def leavesFlight : SyncStep → Bool
  | .server _ | .setClient _ => true
  | _ => false

theorem run_leavesFlight (wiring : Wiring) (s : SyncState) {steps : List SyncStep} (h : ∀ step ∈ steps, leavesFlight step = true) :
    (run (syncStep wiring) s steps).core = s.core ∧
      (run (syncStep wiring) s steps).flight = s.flight := by
  induction steps generalizing s with
  | nil => exact ⟨rfl, rfl⟩
  | cons step steps ih =>
      rw [List.forall_mem_cons] at h
      obtain ⟨hcore, hflight⟩ := ih (syncStep wiring step s) h.2
      cases step with
      | server call => exact ⟨hcore, hflight⟩
      | setClient client => exact ⟨hcore, hflight⟩
      | send => cases h.1
      | answer serverTime => cases h.1
      | apply => cases h.1
      | lose => cases h.1

/-- The client applies the answer in flight without an error. -/
def applies (s : SyncState) : Prop :=
  ∃ response core, s.flight = .answered response ∧ applySyncResponse response s.core = .ok core

end

/-- In every run, once the answer to a request is applied, the client has the
version the server had when it answered and the config the server resolved for
that request, whether or not the answer carried one. Digests are only assumed
to tell apart the configs the server answered with in this run. -/
theorem sync_converges (wiring : Wiring) (initial : ConfigSnapshot) (client : Client)
    (earlier between : List SyncStep) (serverTime : ℕ) (request : SyncRequest)
    (hsent : (run (syncStep wiring) (startSync initial client) earlier).flight = .sent request)
    (hbetween : ∀ step ∈ between, leavesFlight step = true)
    (happlies : applies (run (syncStep wiring) (startSync initial client)
      (earlier ++ .answer serverTime :: between)))
    (hdigest : ∀ a ∈ outputs (answeredConfig wiring) (syncStep wiring) (startSync initial client)
        (earlier ++ [.answer serverTime]),
      ∀ b ∈ outputs (answeredConfig wiring) (syncStep wiring) (startSync initial client)
        (earlier ++ [.answer serverTime]),
      digest wiring a = digest wiring b → a = b) :
    let server := (run (syncStep wiring) (startSync initial client) earlier).server
    let core := (run (syncStep wiring) (startSync initial client)
      (earlier ++ .answer serverTime :: between ++ [.apply])).core
    let resolved := (resolvedWire wiring server.current.snapshot request.client).config
    core.version = server.current.version ∧ core.values = resolved.values ∧
      core.experiments = resolved.experiments := by
  intro server core resolved
  have hsynced := synced_run wiring initial client earlier
  let atSync := run (syncStep wiring) (startSync initial client) earlier
  have hrequest := hsynced.sent request hsent
  have hspec := buildResponse_spec hsynced.views request serverTime
  obtain ⟨hversion, hcontext, hconfig⟩ := hspec
  let response := (buildResponse wiring atSync.server request.configVersion request.client
    request.configContext serverTime).1
  -- The answer leaves the core; what follows keeps the core and the answer.
  obtain ⟨hanswered, hansweredCore⟩ := syncStep_answer hsent serverTime
  have hrest : run (syncStep wiring) (startSync initial client)
      (earlier ++ .answer serverTime :: between) =
        run (syncStep wiring) (syncStep wiring (.answer serverTime) atSync) between := by
    rw [run_append]
    rfl
  obtain ⟨hkeptCore, hkeptFlight⟩ := run_leavesFlight wiring
    (syncStep wiring (.answer serverTime) atSync) hbetween
  obtain ⟨answer, applied, hflight, happlied⟩ := happlies
  rw [hrest] at hflight happlied
  have hsame : answer = response := by
    rw [hkeptFlight, hanswered] at hflight
    exact (Flight.answered.inj hflight).symm
  have hcore : core = applied := by
    show (run (syncStep wiring) (startSync initial client)
      (earlier ++ .answer serverTime :: between ++ [.apply])).core = applied
    rw [run_append, hrest]
    exact syncStep_apply hflight happlied
  rw [hkeptCore, hansweredCore, hsame] at happlied
  rw [hcore]
  have hmem : resolved ∈ outputs (answeredConfig wiring) (syncStep wiring)
      (startSync initial client) (earlier ++ [.answer serverTime]) := by
    rw [outputs_append]
    apply List.mem_append_right
    show resolved ∈ answeredConfig wiring atSync (.answer serverTime) ++ []
    unfold answeredConfig
    rw [show atSync.flight = .sent request from hsent]
    exact List.mem_singleton_self _
  rcases applySyncResponse_ok happlied with ⟨hnone, rfl⟩ | ⟨config, hsome, rfl⟩
  · rcases hconfig with hsent | ⟨_, hsameVersion, hsameContext⟩
    · rw [show response.config = none from hnone] at hsent
      cases hsent
    · -- Nothing was sent, so the digests agree and with them the configs.
      obtain ⟨held, hheld, hdigestHeld, hholds⟩ := hsynced.core _
        (hrequest.2.symm.trans hsameContext)
      have heq : held = resolved := by
        refine hdigest held ?_ resolved hmem hdigestHeld
        rw [outputs_append]
        exact List.mem_append_left _ hheld
      rw [heq] at hholds
      exact ⟨hrequest.1.symm.trans hsameVersion, hholds.1, hholds.2⟩
  · rcases hconfig with hsent | ⟨hnone, _⟩
    · rw [show response.config = some config from hsome, Option.some.injEq] at hsent
      subst hsent
      exact ⟨hversion, rfl, rfl⟩
    · rw [show response.config = some config from hsome] at hnone
      cases hnone

/-- A runtime with the digest of the one config text below. -/
def sampleWiring : Wiring where
  js := Js.plain
  h64ToString := fun text =>
    if text = "\x7b\"values\":\x7b\"color\":\"a\"\x7d,\"experiments\":[]\x7d" then "4b167ea71f0bb335"
    else ""

def sampleSnapshot : ConfigSnapshot where
  version := 1
  snapshot := ⟨.obj [("color", .str "a")], .obj [("color", .arr [.str "*"])], .obj [], []⟩
  values_nodup := by decide
  rules_nodup := by decide

def sampleClient : Client := ⟨"i", "s", "web", "1.0.0", "production", "node", none, none⟩

/-- The second sync finds the client up to date and carries no config. -/
theorem sync_converges_upToDate :
    let core := (run (syncStep sampleWiring) (startSync sampleSnapshot sampleClient)
      ([.send, .answer 5, .apply, .send] ++ .answer 6 :: [.setClient sampleClient] ++ [.apply])).core
    core.version = 1 ∧ core.values = [("color", .str "a")] ∧ core.experiments = [] := by
  have hsent : (run (syncStep sampleWiring) (startSync sampleSnapshot sampleClient)
      [.send, .answer 5, .apply, .send]).flight =
        .sent ⟨sampleClient, 1, some "4b167ea71f0bb335"⟩ := by decide +kernel
  have happlies : applies (run (syncStep sampleWiring) (startSync sampleSnapshot sampleClient)
      ([.send, .answer 5, .apply, .send] ++ .answer 6 :: [.setClient sampleClient])) :=
    ⟨⟨6, 1, "4b167ea71f0bb335", none⟩,
      ⟨1, [("color", .str "a")], [], some "4b167ea71f0bb335", 1⟩, by decide +kernel, rfl⟩
  exact sync_converges sampleWiring sampleSnapshot sampleClient [.send, .answer 5, .apply, .send]
    [.setClient sampleClient] 6 _ hsent (by simp [leavesFlight]) happlies (by decide +kernel)

end Wardx.Config
