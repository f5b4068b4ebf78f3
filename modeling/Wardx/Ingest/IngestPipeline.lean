import Wardx.Ingest.ExperimentEvents
import Wardx.Projects.Project
import Wardx.Storage.LedgerBatch
import Wardx.Storage.RetentionLedger

/-!
# The ingest pipeline

An authenticated, schema-valid envelope goes into a project. Experiment events,
history, persistence capacity and ledger evidence are checked before the sink or
any view in memory sees the envelope; the ledgers write in one transaction when
the envelope has retention events.

An envelope that is not answered changes nothing but the counters of rejected
evidence. The ledgers' other contents decide what is answered later, so such
envelopes leave no trace in what comes after them.
-/
namespace Wardx

open Lib Json Control

/-! ## State -/

/-- Where accepted envelopes are also put. A line of the file is an envelope's JSON. -/
inductive Sink
  | null
  | memory (max : ℕ) (envelopes : List Envelope) (frameCount : ℤ)
  | ndjson (lines : List Envelope)

/-- `ingest` of the three sinks. -/
def Sink.ingest (envelope : Envelope) : Sink → Sink
  | .null => .null
  | .memory max envelopes frameCount =>
      let pushed := envelopes ++ [envelope]
      let counted := frameCount + envelope.frames.length
      if max < pushed.length then
        .memory max (pushed.drop 1) (counted - (pushed.head?.elim 0 fun dropped => dropped.frames.length))
      else .memory max pushed counted
  | .ndjson lines => .ndjson (lines ++ [envelope])

/-- The counters of what the retention ledger left out. -/
structure IngestMetrics where
  retentionActivityDropped : ℕ
  retentionConversionsDropped : ℕ
  retentionChannelsDropped : ℕ
deriving DecidableEq, Repr

structure IngestServer where
  projects : Table String Project
  ledger : ExperimentLedger
  retention : RetentionLedger
  sink : Sink
  /-- `history` is among the kinds to be written. -/
  historyMarked : Bool
  metrics : IngestMetrics

structure IngestSettings where
  project : ProjectConfig
  ledger : LedgerSettings
  retention : RetentionSettings
  maxPendingBatches : ℕ
  maxPendingBytes : ℤ

/-- A transaction that cannot start, or is taken back at its end. -/
inductive StoreFault
  | busy (message : String)
  | slow (message : String)

/-- What the pipeline returns; a thrown error is answered by the server itself. -/
inductive Outcome
  | rejected (status : ℕ) (error : String)
  | answered (response : Config.Response)
  | thrown (message : String)

def Outcome.isAnswered : Outcome → Bool
  | .answered _ => true
  | _ => false

/-! ## Evidence -/

/-- The retention event of a row; a validated row has text labels. -/
def retentionEvent (row : EventRow) : Option RetentionEvent :=
  if row.name = "retention.activity" ∨ row.name = "retention.conversion" then
    some
      { timestamp := row.timestamp
        subject := propertyKey (row.attrs.get? "subject")
        salt := propertyKey (row.attrs.get? "salt")
        channel := text? (row.attrs.get? "channel")
        goal := text? (row.attrs.get? "goal") }
  else none

/-- `retentionEvents`. -/
def retentionEvents (envelope : Envelope) : List RetentionEvent :=
  envelope.frames.flatMap fun frame => frame.events.filterMap retentionEvent

/-- Why the ledgers took nothing. -/
inductive LedgerFailure
  | thrown (message : String)
  | retentionInput (message : String)

/-- What the ledgers made of an envelope. -/
inductive Evidence
  | refused (ledger : ExperimentLedger) (result : IngestResult)
  | taken (ledger : ExperimentLedger) (work : RetentionLedger.Work)

namespace IngestPipeline

/-- `stateStore.transaction`. A failure leaves the store as it was. -/
def transaction {α : Type} (fault : Option StoreFault) (work : Except LedgerFailure α) :
    Except LedgerFailure α :=
  match fault with
  | none => work
  | some (.busy message) => .error (.thrown message)
  | some (.slow message) => work.bind fun _ => .error (.thrown message)

section
variable (settings : IngestSettings)

/-- The experiment ledger's part, in its own transaction when there are events. -/
def ingestExperiments (project : String) (events : List ExperimentEvent) (source : Source)
    (fault : Option StoreFault) (ledger : ExperimentLedger) :
    Except LedgerFailure (ExperimentLedger × List IngestResult) :=
  let batch := (ledger.ingestBatch settings.ledger project events source).mapError LedgerFailure.thrown
  if events = [] then batch else transaction fault batch

/-- `ingestEvidence`. -/
def ingestEvidence (project : String) (envelope : Envelope) (source : Source)
    (fault : Option StoreFault) (ledger : ExperimentLedger) (retention : RetentionLedger) :
    Except LedgerFailure Evidence := do
  let (evidence, results) ←
    ingestExperiments settings project (experimentEvents envelope) source fault ledger
  match results.find? fun result => result.status.isRejection with
  | some refused => pure (.refused evidence refused)
  | none => do
      let work ← (retention.ingestBatch settings.retention project
        (retentionEvents envelope)).mapError LedgerFailure.retentionInput
      pure (.taken evidence work)

/-- The evidence in one transaction when there are retention events. -/
def evidence (project : String) (envelope : Envelope) (source : Source)
    (fault : Option StoreFault) (ledger : ExperimentLedger) (retention : RetentionLedger) :
    Except LedgerFailure Evidence :=
  let work := ingestEvidence settings project envelope source fault ledger retention
  if retentionEvents envelope = [] then work else transaction fault work

/-! ## The pipeline -/

/-- `canAcceptHistory`. -/
def canAcceptHistory (history : HistoryAccumulator.Accumulator)
    (prepared : HistoryAccumulator.Prepared) : Bool :=
  let pending := HistoryAccumulator.projectedPending settings.project.wiring.js history prepared
  decide (pending.1 ≤ settings.maxPendingBatches) && decide (pending.2 ≤ settings.maxPendingBytes)

/-- `rejectedEvidence.status.replaceAll('_', ' ')`. -/
def rejectionText (status : IngestStatus) : String :=
  if status = .variantConflict then "variant conflict" else "missing exposure"

/-- The drop counters with a batch's drops. -/
def countDropped (dropped : Dropped) (metrics : IngestMetrics) : IngestMetrics where
  retentionActivityDropped := metrics.retentionActivityDropped + dropped.activity
  retentionConversionsDropped := metrics.retentionConversionsDropped + dropped.conversions
  retentionChannelsDropped := metrics.retentionChannelsDropped + dropped.channels

/-- What follows the checks: the sink, the views, the mark and the answer. -/
def accept (project : Project) (envelope : Envelope) (prepared : HistoryAccumulator.Prepared)
    (clock : IngestClock) (server : IngestServer) : Outcome × IngestServer :=
  let sunk := { server with sink := server.sink.ingest envelope }
  match project.commitIngest settings.project envelope prepared clock with
  | (.error message, committed) =>
      (.thrown message, { sunk with projects := sunk.projects.put project.name committed })
  | (.ok _, committed) =>
      let (response, served) := committed.syncResponse settings.project envelope clock
      (.answered response, { sunk with
        projects := sunk.projects.put project.name served
        historyMarked := sunk.historyMarked || decide (0 < prepared.updates.size) })

/-- `ingest`. -/
def ingest (project : Project) (envelope : Envelope) (source : Source) (clock : IngestClock)
    (fault : Option StoreFault) (server : IngestServer) : Outcome × IngestServer :=
  match validateExperimentEvents envelope project.configRepo.current.snapshot.experiments with
  | .error message => (.rejected 400 message, server)
  | .ok _ =>
      match project.prepareHistory settings.project envelope with
      | .error message => (.rejected 400 message, server)
      | .ok prepared =>
          if canAcceptHistory settings project.history prepared then
            match evidence settings project.name envelope source fault server.ledger
                server.retention with
            | .error (.thrown message) => (.thrown message, server)
            | .error (.retentionInput message) => (.rejected 400 message, server)
            | .ok (.refused ledger result) =>
                (.rejected 400 (rejectionText result.status), { server with ledger := ledger })
            | .ok (.taken ledger work) =>
                accept settings project envelope prepared clock { server with
                  ledger := ledger
                  retention := work.ledger
                  metrics := countDropped work.dropped server.metrics }
          else (.rejected 503 "overloaded", server)

end

end IngestPipeline

end Wardx
