import Wardx.Ingest.ProjectIsolation

/-!
# Internal errors

The validator lets through what the ledger then throws at: a timestamp that is
no whole number, more evidence than one write takes, evidence beyond the shared
cap. Such a request ends in status 500, as one does whose body cannot be read.
No other request does while the store itself works.
-/
namespace Wardx

open Lib

namespace ExperimentLedger

/-- The ledger takes a batch exactly when its checks pass. -/
theorem ingestBatch_isOk_iff (settings : LedgerSettings) (ledger : ExperimentLedger)
    (project : String) (events : List ExperimentEvent) (source : Source) :
    (∃ done, ledger.ingestBatch settings project events source = .ok done) ↔
      project ≠ "" ∧ source.role ≠ "" ∧ events.length ≤ settings.maxWriteBatch ∧
        (∀ event ∈ events, assertEvent event = .ok ()) ∧
        (events = [] ∨ hasRoom settings ledger project events source = true) := by
  unfold ingestBatch hasRoom
  simp only [bind_eq_ok_iff, assertNonEmptyString, assertSource, require_eq_ok_iff,
    checkAll_eq_ok_iff, exists_const, decide_eq_true_eq]
  by_cases hnil : events = []
  · simp [hnil, pure, Except.pure]
  · simp only [hnil, false_or]
    cases (ledger.preflight project events source).rejected <;> simp [pure, Except.pure]

end ExperimentLedger

/-! ## Validated bodies -/

namespace ValidateEnvelope

open Json Control

/-- A key that is not allowed is not there. -/
theorem get?_eq_none_of_onlyKeys {allowed : List String} {value : Json} {key : String}
    (h : onlyKeys allowed value = true) (hkey : key ∉ allowed) : value.get? key = none := by
  cases value with
  | obj fields =>
      show fields.lookup key = none
      rw [List.lookup_eq_none_iff]
      intro field hfield
      have hallowed : field.1 ∈ allowed := by
        simpa using List.all_eq_true.mp h field.1 (List.mem_map_of_mem hfield)
      rw [bne_iff_ne]
      intro hsame
      exact hkey (hsame ▸ hallowed)
  | _ => rfl

theorem text_all_of_label {value : Option Json} {optional : Bool}
    (h : (value = none ∧ optional = true) ∨ (text? value).any RetentionLedger.isLabel = true) :
    (text? value).all RetentionLedger.isLabel = true := by
  cases h with
  | inl hnone => simp [hnone.1, text?]
  | inr hany =>
      cases htext : text? value with
      | none => rfl
      | some text => simpa [htext] using hany

theorem isHash_propertyKey {value : Option Json}
    (h : (text? value).any ExperimentLedger.isHash = true) :
    ExperimentLedger.isHash (propertyKey value) = true := by
  unfold propertyKey
  cases htext : text? value with
  | none => simp [htext] at h
  | some text => simpa [htext] using h

end ValidateEnvelope

namespace SyncHandler

def supported (encoding : String) : Bool :=
  (trim encoding).toLower = "" || (trim encoding).toLower = "identity" ||
    (trim encoding).toLower = "gzip"

/-- The body of a request to a project cannot be read. -/
def BodyFails (settings : ServerSettings) (request : SyncRequest) (server : IngestServer) : Prop :=
  ∃ credential store message, settings.credentials.authenticate request.key = .ok credential ∧
    server.projects.get credential.project = some store ∧ supported request.encoding = true ∧
    request.payload = .failed message

/-- The checks before the ledgers pass. -/
structure ReachesLedgers (settings : ServerSettings) (request : SyncRequest) (server : IngestServer)
    (store : Project) (envelope : Envelope) (source : Source) : Prop where
  admitted : admission settings request server = .ok (store, envelope, source)
  experiments : validateExperimentEvents envelope store.configRepo.current.snapshot.experiments =
    .ok ()
  history : ∃ prepared, store.prepareHistory settings.ingest.project envelope = .ok prepared ∧
    IngestPipeline.canAcceptHistory settings.ingest store.history prepared = true

/-- What the experiment ledger throws at. -/
def LedgerThrows (settings : ServerSettings) (server : IngestServer) (store : Project)
    (envelope : Envelope) (source : Source) : Prop :=
  settings.ingest.ledger.maxWriteBatch < (experimentEvents envelope).length ∨
    (∃ event ∈ experimentEvents envelope, ExperimentLedger.isNatural event.timestamp = false) ∨
    (experimentEvents envelope ≠ [] ∧
      ExperimentLedger.hasRoom settings.ingest.ledger server.ledger store.name
        (experimentEvents envelope) source = false)

/-! ## Before the pipeline -/

theorem readPayload_internal_iff (encoding : String) (payload : Payload) :
    readPayload encoding payload = .error (.status 500 "internal") ↔
      ∃ message, payload = .failed message := by
  cases payload with
  | tooLarge => simp [readPayload]
  | timedOut => simp [readPayload]
  | failed message => simp [readPayload]
  | bytes parsed inflated =>
      unfold readPayload
      split_ifs
      · cases inflated <;> simp
      · simp

theorem decode_internal_iff (request : SyncRequest) :
    decode request = .error (.status 500 "internal") ↔
      supported request.encoding = true ∧ ∃ message, request.payload = .failed message := by
  have hpayload := readPayload_internal_iff (trim request.encoding).toLower request.payload
  have hdecode : decode request = (require (supported request.encoding)
      (Reply.status 415 "unsupported content encoding") >>= fun _ =>
        readPayload (trim request.encoding).toLower request.payload >>= jsonBody) := rfl
  rw [hdecode, ← hpayload]
  cases supported request.encoding with
  | false => simp [require, bind, Except.bind]
  | true =>
      cases readPayload (trim request.encoding).toLower request.payload with
      | error reply => simp [require, bind, Except.bind]
      | ok parsed => cases parsed <;> simp [require, bind, Except.bind, jsonBody]

theorem admit_internal_iff (settings : ServerSettings) (request : SyncRequest)
    (server : IngestServer) :
    admission settings request server = .error (.status 500 "internal") ↔
      BodyFails settings request server := by
  unfold admission BodyFails
  cases settings.credentials.authenticate request.key with
  | error code => simp
  | ok credential =>
      cases hstore : server.projects.get credential.project with
      | none => simp [hstore]
      | some store =>
          have hdecode := decode_internal_iff request
          simp only [Except.ok.injEq, exists_and_left, exists_eq_left', hstore, Option.some.injEq]
          rw [← hdecode]
          cases hbody : decode request with
          | error reply => simp [bind, Except.bind]
          | ok body =>
              simp only [bind, Except.bind, reduceCtorEq, iff_false]
              cases ValidateEnvelope.validateEnvelope settings.ingest.project.wiring.js
                  settings.limits request.range body with
              | error invalid => simp
              | ok _ =>
                  cases ValidateEnvelope.readEnvelope body with
                  | none => simp
                  | some envelope =>
                      dsimp only
                      cases CredentialRegistry.authorize credential envelope.client.role with
                      | error code => simp
                      | ok source =>
                          dsimp only
                          unfold require
                          split_ifs <;> simp [pure, Except.pure]

/-! ## In the pipeline -/

theorem mapError_eq_error_iff {ε ε' α : Type} {x : Except ε α} {f : ε → ε'} {e : ε'} :
    x.mapError f = .error e ↔ ∃ inner, x = .error inner ∧ f inner = e := by
  cases x with
  | error inner => simp [Except.mapError]
  | ok a => simp [Except.mapError]

section
variable {settings : IngestSettings} {project : String} {envelope : Envelope} {source : Source}
  {ledger : ExperimentLedger} {retention : RetentionLedger}

/-- Without a fault of the store the evidence throws where the ledger does. -/
theorem evidence_thrown_iff :
    (∃ message, IngestPipeline.evidence settings project envelope source none ledger retention =
      .error (.thrown message)) ↔
      ∃ message, ledger.ingestBatch settings.ledger project (experimentEvents envelope) source =
        .error message := by
  have hevidence : IngestPipeline.evidence settings project envelope source none ledger retention =
      IngestPipeline.ingestEvidence settings project envelope source none ledger retention := by
    unfold IngestPipeline.evidence
    dsimp only
    split_ifs <;> rfl
  have hexperiments : IngestPipeline.ingestExperiments settings project (experimentEvents envelope)
      source none ledger =
        (ledger.ingestBatch settings.ledger project (experimentEvents envelope) source).mapError
          LedgerFailure.thrown := by
    unfold IngestPipeline.ingestExperiments
    dsimp only
    split_ifs <;> rfl
  rw [hevidence]
  unfold IngestPipeline.ingestEvidence
  rw [hexperiments]
  cases ledger.ingestBatch settings.ledger project (experimentEvents envelope) source with
  | error message => simp [Except.mapError, bind, Except.bind]
  | ok done =>
      obtain ⟨after, results⟩ := done
      simp only [Except.mapError, bind, Except.bind, reduceCtorEq, exists_false, iff_false]
      cases results.find? fun result => result.status.isRejection with
      | some refused => simp [pure, Except.pure]
      | none =>
          cases retention.ingestBatch settings.retention project (retentionEvents envelope) <;>
            simp [pure, Except.pure]

end

/-- Past the ledgers nothing throws at an envelope with a role. -/
theorem ingest_thrown_iff {settings : IngestSettings} {store : Project} {envelope : Envelope}
    {source : Source} (hrole : Project.HasRole envelope) (clock : IngestClock)
    (server : IngestServer) :
    replyOf (IngestPipeline.ingest settings store envelope source clock none server).1 =
        .status 500 "internal" ↔
      validateExperimentEvents envelope store.configRepo.current.snapshot.experiments = .ok () ∧
      (∃ prepared, store.prepareHistory settings.project envelope = .ok prepared ∧
        IngestPipeline.canAcceptHistory settings store.history prepared = true) ∧
      ∃ message, server.ledger.ingestBatch settings.ledger store.name (experimentEvents envelope)
        source = .error message := by
  rw [← @evidence_thrown_iff settings store.name envelope source server.ledger server.retention]
  unfold IngestPipeline.ingest
  cases validateExperimentEvents envelope store.configRepo.current.snapshot.experiments with
  | error message => simp [replyOf]
  | ok _ =>
      cases store.prepareHistory settings.project envelope with
      | error message => simp [replyOf]
      | ok prepared =>
          simp only [Except.ok.injEq, true_and, exists_eq_left']
          by_cases hroom : IngestPipeline.canAcceptHistory settings store.history prepared = true
          · rw [if_pos hroom]
            cases IngestPipeline.evidence settings store.name envelope source none server.ledger
                server.retention with
            | error failure =>
                cases failure with
                | thrown message => simp [replyOf, hroom]
                | retentionInput message => simp [replyOf]
            | ok verdict =>
                cases verdict with
                | refused ledger result => simp [replyOf]
                | taken ledger work =>
                    unfold IngestPipeline.accept
                    rw [Project.commitIngest_eq settings.project hrole]
                    simp [replyOf]
          · rw [if_neg hroom]
            simp [replyOf, hroom]

theorem error_iff_not_ok {ε α : Type} (x : Except ε α) :
    (∃ e, x = .error e) ↔ ¬ ∃ a, x = .ok a := by
  cases x <;> simp

/-- What the validator and the served definitions have checked, the ledger need not. -/
theorem ledgerThrows_iff {settings : ServerSettings} {request : SyncRequest} {server : IngestServer}
    {credential : CredentialRecord} {store : Project} {envelope : Envelope} {source : Source}
    (hnamed : Named server)
    (hadmitted : Admitted settings request server credential store envelope source)
    (hvalid : validateExperimentEvents envelope store.configRepo.current.snapshot.experiments =
      .ok ()) :
    (∃ message, server.ledger.ingestBatch settings.ingest.ledger store.name
        (experimentEvents envelope) source = .error message) ↔
      LedgerThrows settings server store envelope source := by
  have hproject : store.name ≠ "" := by
    rw [hnamed _ store hadmitted.store]
    exact credential.project_ne
  have hrole : source.role ≠ "" := by
    rw [(CredentialRegistry.authorize_eq_ok hadmitted.authorized).2]
    exact hadmitted.role.1
  have hevents : (∀ event ∈ experimentEvents envelope,
      ExperimentLedger.assertEvent event = .ok ()) ↔
        ∀ event ∈ experimentEvents envelope, ExperimentLedger.isNatural event.timestamp = true := by
    refine forall₂_congr fun event hevent => ?_
    have hadmits := admitted_of_mem_experimentEvents hvalid hevent
    rw [ExperimentLedger.assertEvent_eq_ok_iff]
    simp [hadmits.experiment_ne, hadmits.variant_ne, hadmits.hash]
  rw [error_iff_not_ok, ExperimentLedger.ingestBatch_isOk_iff, hevents]
  unfold LedgerThrows
  simp only [ne_eq, hproject, not_false_eq_true, hrole, true_and, not_and_or, not_le, not_forall,
    Bool.not_eq_true, not_or, exists_prop]

end SyncHandler

end Wardx
