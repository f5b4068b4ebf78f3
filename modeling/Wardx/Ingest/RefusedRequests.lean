import Wardx.Ingest.SyncHandler

/-!
# Refused requests

A request that is not answered with a config leaves the server as it was, up to
the counters of rejected evidence, which no later answer reads. So the refused
requests of a run can be erased: the run without them ends with the same views
and the same evidence, and gives the other requests the same answers.
-/
namespace Wardx.SyncHandler

open Lib

/-- Servers that differ in the counters of rejected evidence alone. -/
structure SameViews (a b : IngestServer) : Prop where
  projects : b.projects = a.projects
  ledger : ExperimentLedger.SameEvidence a.ledger b.ledger
  retention : b.retention = a.retention
  sink : b.sink = a.sink
  historyMarked : b.historyMarked = a.historyMarked
  metrics : b.metrics = a.metrics

theorem SameViews.refl (server : IngestServer) : SameViews server server :=
  ⟨rfl, .refl _, rfl, rfl, rfl, rfl⟩

theorem SameViews.trans {a b c : IngestServer} (h : SameViews a b) (h' : SameViews b c) :
    SameViews a c where
  projects := h'.projects.trans h.projects
  ledger := h.ledger.trans h'.ledger
  retention := h'.retention.trans h.retention
  sink := h'.sink.trans h.sink
  historyMarked := h'.historyMarked.trans h.historyMarked
  metrics := h'.metrics.trans h.metrics

theorem SameViews.withLedger (server : IngestServer) {ledger : ExperimentLedger}
    (h : ExperimentLedger.SameEvidence server.ledger ledger) :
    SameViews server { server with ledger := ledger } :=
  ⟨rfl, h, rfl, rfl, rfl, rfl⟩

/-- Past its checks the pipeline reads no ledger. -/
theorem SameViews.accept {a b : IngestServer} (h : SameViews a b) (settings : IngestSettings)
    (project : Project) (envelope : Envelope) (prepared : HistoryAccumulator.Prepared)
    (clock : IngestClock) :
    SameViews (IngestPipeline.accept settings project envelope prepared clock a).2
      (IngestPipeline.accept settings project envelope prepared clock b).2 := by
  unfold IngestPipeline.accept
  cases project.commitIngest settings.project envelope prepared clock with
  | mk ended committed =>
      cases ended with
      | error message =>
          refine ⟨?_, h.ledger, h.retention, ?_, h.historyMarked, h.metrics⟩
          · simp only [h.projects]
          · simp only [h.sink]
      | ok _ =>
          refine ⟨?_, h.ledger, h.retention, ?_, ?_, h.metrics⟩
          · simp only [h.projects]
          · simp only [h.sink]
          · simp only [h.historyMarked]

theorem SameViews.putLedger {a b : IngestServer} (h : SameViews a b) {left right : ExperimentLedger}
    (hsame : ExperimentLedger.SameEvidence left right) :
    SameViews { a with ledger := left } { b with ledger := right } :=
  ⟨h.projects, hsame, h.retention, h.sink, h.historyMarked, h.metrics⟩

theorem SameViews.ingest {a b : IngestServer} (h : SameViews a b) (settings : IngestSettings)
    (project : Project) (envelope : Envelope) (source : Source) (clock : IngestClock)
    (fault : Option StoreFault) :
    (IngestPipeline.ingest settings project envelope source clock fault b).1 =
        (IngestPipeline.ingest settings project envelope source clock fault a).1 ∧
      SameViews (IngestPipeline.ingest settings project envelope source clock fault a).2
        (IngestPipeline.ingest settings project envelope source clock fault b).2 := by
  have hbatch := h.ledger.ingestBatch settings.ledger project.name (experimentEvents envelope) source
  have hretention : EndsAlike Eq
      (a.retention.ingestBatch settings.retention project.name (retentionEvents envelope))
      (b.retention.ingestBatch settings.retention project.name (retentionEvents envelope)) := by
    rw [h.retention]
    exact endsAlike_of_eq (fun _ => rfl) _
  refine ingest_alike h project clock fault (evidence_alike hbatch hretention fault)
    (fun _ _ hsame => h.putLedger hsame) fun x y w v prepared hsame hwork => ?_
  subst hwork
  refine ⟨accept_answer _ _ _ _ _ _ _, SameViews.accept ?_ settings project envelope prepared clock⟩
  refine ⟨h.projects, hsame, rfl, h.sink, h.historyMarked, ?_⟩
  simp only [h.metrics]

/-! ## The server on two such states -/

section
variable (settings : ServerSettings)

theorem admit_alike {a b : IngestServer} (h : SameViews a b) (request : SyncRequest) :
    admission settings request b = admission settings request a := by
  unfold admission
  rw [h.projects]

theorem handleSync_alike {a b : IngestServer} (h : SameViews a b) (request : SyncRequest) :
    (handleSync settings request b).1 = (handleSync settings request a).1 ∧
      SameViews (handleSync settings request a).2 (handleSync settings request b).2 := by
  unfold handleSync
  rw [admit_alike settings h]
  cases admission settings request a with
  | error reply => exact ⟨rfl, h⟩
  | ok found =>
      obtain ⟨store, envelope, source⟩ := found
      obtain ⟨houtcome, hviews⟩ := h.ingest settings.ingest store envelope source
        request.clock request.fault
      exact ⟨congrArg replyOf houtcome, hviews⟩

theorem SameViews.updateProject {a b : IngestServer} (h : SameViews a b) (name : String)
    (f : Project → Project) : SameViews (updateProject name f a) (updateProject name f b) := by
  unfold SyncHandler.updateProject
  rw [h.projects]
  cases a.projects.get name with
  | none => exact h
  | some project => exact ⟨rfl, h.ledger, h.retention, h.sink, h.historyMarked, h.metrics⟩

theorem SameViews.keepLedger {a b : IngestServer} (h : SameViews a b)
    {left right : Except String ExperimentLedger}
    (halike : EndsAlike ExperimentLedger.SameEvidence left right) :
    SameViews (keepLedger a left) (keepLedger b right) := by
  cases left with
  | error message =>
      cases right with
      | error message' => exact h
      | ok ledger => exact halike.elim
  | ok ledger =>
      cases right with
      | error message => exact halike.elim
      | ok ledger' => exact h.putLedger halike

theorem step_alike {a b : IngestServer} (command : ServerCommand) (h : SameViews a b) :
    SameViews (step settings command a) (step settings command b) := by
  cases command with
  | sync request => exact (handleSync_alike settings h request).2
  | publish project snapshot catalog => exact h.updateProject project _
  | acknowledge project buckets => exact h.updateProject project _
  | prunePersisted project through => exact h.updateProject project _
  | historyWritten => exact ⟨h.projects, h.ledger, h.retention, h.sink, rfl, h.metrics⟩
  | decide project experiment decision expiresAt decidedAt =>
      refine h.keepLedger ?_
      have halike := h.ledger.persistTerminalDecisionAndScheduleExpiry project experiment decision
        expiresAt decidedAt
      exact halike.map Prod.fst fun _ _ hsame => hsame.1
  | scheduleExpiry project experiment expiresAt =>
      exact h.keepLedger (h.ledger.scheduleExpiry project experiment expiresAt)
  | clearExpiry project experiment => exact h.putLedger (h.ledger.clearExpiry project experiment)
  | pruneExpired now => exact h.putLedger (h.ledger.pruneExpired now)

/-- A request that gets no config. -/
def refused (server : IngestServer) : ServerCommand → Bool
  | .sync request => !(handleSync settings request server).1.isAnswered
  | _ => false

theorem sameViews_of_refused (server : IngestServer) (command : ServerCommand)
    (h : refused settings server command = true) : SameViews server (step settings command server) := by
  cases command with
  | sync request =>
      have hreply : (handleSync settings request server).1.isAnswered = false := by
        simpa [refused] using h
      have hhandled := handleSync_handled settings request server
      show SameViews server (handleSync settings request server).2
      generalize (handleSync settings request server).1 = reply at hreply hhandled
      generalize (handleSync settings request server).2 = after at hhandled ⊢
      cases hhandled with
      | turnedAway => exact .refl server
      | ingested credential store envelope source outcome after _ _ heffect =>
          rw [isAnswered_replyOf] at hreply
          cases heffect with
          | nothing => exact .refl server
          | refused _ _ ledger results hbatch hsame => exact .withLedger server hsame
          | accepted => cases hreply
  | _ => cases h

end

end Wardx.SyncHandler
