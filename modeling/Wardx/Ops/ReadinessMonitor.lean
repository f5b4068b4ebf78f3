import Wardx.Json
import Wardx.Lib.Debounce
import Wardx.Lib.Run
import Mathlib.Data.List.Range

/-!
# The readiness monitor

A check probes the server, counts failures and successes in a row up to their
thresholds, and sends a webhook when the status is not the one delivered last.
One check is in flight at a time; a call that finds one joins it. The probe and
the webhook end as steps of their own, with what they answered, and a close may
come between.
-/
namespace Wardx.ReadinessMonitor

open Lib

structure MonitorConfig where
  failureThreshold : ℕ
  recoveryThreshold : ℕ
  failure_pos : 1 ≤ failureThreshold
  recovery_pos : 1 ≤ recoveryThreshold

inductive Status | healthy | degraded
deriving DecidableEq, Repr

/-- How a request ends: with the status and the body it read, or with an error. -/
inductive Answer
  | answered (status : ℕ) (body : Json)
  | failed

def isTrue : Json → Bool
  | .bool value => value
  | _ => false

def isBool : Json → Bool
  | .bool _ => true
  | _ => false

/-- `isReady`. -/
def isReady (status : ℕ) (body : Json) : Bool :=
  if status ≠ 200 ∧ status ≠ 503 then false
  else
    match body.get? "ok", body.get? "checks" with
    | some (.bool ok), some (.obj checks) =>
        if checks.isEmpty || checks.any (fun check => !isBool check.2) then false
        else status = 200 && ok && checks.all fun check => isTrue check.2
    | _, _ => false

def Answer.ready : Answer → Bool
  | .answered status body => isReady status body
  | .failed => false

/-- The webhook's body is not read. -/
def Answer.delivered : Answer → Bool
  | .answered status _ => 200 ≤ status && status < 300
  | .failed => false

/-- What the webhook is sent. -/
def notification (status : Status) : Json :=
  .obj [("type", .str "wardx.readiness"),
    ("status", .str (if status = .healthy then "recovered" else "degraded"))]

/-- What a check waits for. -/
inductive Phase | idle | probing | delivering
deriving DecidableEq, Repr

structure Monitor where
  status : Status
  deliveredStatus : Status
  failures : ℕ
  recoveries : ℕ
  inFlight : Phase
  closed : Bool
deriving DecidableEq, Repr

inductive Result | none | sent | failed
deriving DecidableEq, Repr

inductive Event
  | rejected (message : String)
  /-- The counters took the result of a probe. -/
  | probed (ready : Bool)
  | delivered (body : Json)
  /-- A check ended. -/
  | checked (status : Status) (notification : Result)

inductive Action
  | check
  /-- The probe in flight ends. -/
  | probe (answer : Answer)
  /-- The webhook in flight ends. -/
  | webhook (answer : Answer)
  | close

def Monitor.new : Monitor := ⟨.healthy, .healthy, 0, 0, .idle, false⟩

section
variable (config : MonitorConfig)

/-- The counters and the status after a probe. -/
def Monitor.count (ready : Bool) (monitor : Monitor) : Monitor :=
  let failures := if ready then 0 else min (monitor.failures + 1) config.failureThreshold
  let recoveries := if ready then min (monitor.recoveries + 1) config.recoveryThreshold else 0
  let status := if config.failureThreshold ≤ failures then .degraded else monitor.status
  let status := if config.recoveryThreshold ≤ recoveries then .healthy else status
  { monitor with failures := failures, recoveries := recoveries, status := status }

/-- The first half of `_check`. -/
def Monitor.probe (ready : Bool) (monitor : Monitor) : List Event × Monitor :=
  if monitor.closed then
    ([.checked monitor.status .none], { monitor with inFlight := .idle })
  else
    let counted := monitor.count config ready
    if counted.status = counted.deliveredStatus then
      ([.probed ready, .checked counted.status .none], { counted with inFlight := .idle })
    else ([.probed ready], { counted with inFlight := .delivering })

/-- The second half of `_check`. -/
def Monitor.webhook (delivered : Bool) (monitor : Monitor) : List Event × Monitor :=
  if delivered then
    ([.delivered (notification monitor.status), .checked monitor.status .sent],
      { monitor with deliveredStatus := monitor.status, inFlight := .idle })
  else ([.checked monitor.status .failed], { monitor with inFlight := .idle })

def act (action : Action) (monitor : Monitor) : List Event × Monitor :=
  match action, monitor.inFlight with
  | .check, inFlight =>
      if monitor.closed then ([.rejected "monitor is closed"], monitor)
      else if inFlight = .idle then ([], { monitor with inFlight := .probing })
      else ([], monitor)
  | .probe answer, .probing => monitor.probe config answer.ready
  | .webhook answer, .delivering => monitor.webhook answer.delivered
  | .close, _ => ([], { monitor with closed := true })
  | _, _ => ([], monitor)

def step (action : Action) (monitor : Monitor) : Monitor := (act config action monitor).2

def emitted (monitor : Monitor) (action : Action) : List Event := (act config action monitor).1

def monitorAfter (actions : List Action) : Monitor := run (step config) .new actions

def eventsOf (actions : List Action) : List Event :=
  outputs (emitted config) (step config) .new actions

end

/-! ## What the events say -/

def Event.reading : Event → Option Bool
  | .probed ready => some ready
  | _ => none

def Event.body : Event → Option Json
  | .delivered body => some body
  | _ => none

/-- The probes counted, the newest first. -/
def readings (events : List Event) : List Bool := (events.filterMap Event.reading).reverse

/-- The notifications delivered, in their order. -/
def notifications (events : List Event) : List Json := events.filterMap Event.body

/-- The status the probes settle on. -/
def debouncedStatus (config : MonitorConfig) (readings : List Bool) : Status :=
  debounced config.failureThreshold config.recoveryThreshold .degraded .healthy .healthy readings

/-- What the nth notification delivered says. -/
def turn (n : ℕ) : Status := if n % 2 = 0 then .degraded else .healthy

/-- The status after that many notifications. -/
def statusAfter (n : ℕ) : Status := if n % 2 = 0 then .healthy else .degraded

@[simp] theorem readings_append_probed (events : List Event) (ready : Bool) :
    readings (events ++ [.probed ready]) = ready :: readings events := by
  simp [readings, Event.reading]

@[simp] theorem readings_append_checked (events : List Event) (status : Status) (result : Result) :
    readings (events ++ [.checked status result]) = readings events := by
  simp [readings, Event.reading]

@[simp] theorem readings_append_delivered (events : List Event) (body : Json) :
    readings (events ++ [.delivered body]) = readings events := by
  simp [readings, Event.reading]

@[simp] theorem readings_append_rejected (events : List Event) (message : String) :
    readings (events ++ [.rejected message]) = readings events := by
  simp [readings, Event.reading, List.filterMap_cons]

@[simp] theorem notifications_append_rejected (events : List Event) (message : String) :
    notifications (events ++ [.rejected message]) = notifications events := by
  simp [notifications, Event.body, List.filterMap_cons]

@[simp] theorem notifications_append_probed (events : List Event) (ready : Bool) :
    notifications (events ++ [.probed ready]) = notifications events := by
  simp [notifications, Event.body]

@[simp] theorem notifications_append_checked (events : List Event) (status : Status)
    (result : Result) :
    notifications (events ++ [.checked status result]) = notifications events := by
  simp [notifications, Event.body]

@[simp] theorem notifications_append_delivered (events : List Event) (body : Json) :
    notifications (events ++ [.delivered body]) = notifications events ++ [body] := by
  simp [notifications, Event.body]

/-! ## The invariant -/

/-- The counters are the runs of the probes up to their thresholds, and the
notifications take turns up to the status delivered. -/
structure Follows (config : MonitorConfig) (seen : List Event) (monitor : Monitor) : Prop where
  failures : monitor.failures = min (streak false (readings seen)) config.failureThreshold
  recoveries : monitor.recoveries = min (streak true (readings seen)) config.recoveryThreshold
  status : monitor.status = debouncedStatus config (readings seen)
  turns : notifications seen =
    (List.range (notifications seen).length).map fun n => notification (turn n)
  deliveredStatus : monitor.deliveredStatus = statusAfter (notifications seen).length
  owes : monitor.inFlight = .delivering → monitor.status ≠ monitor.deliveredStatus

section
variable {config : MonitorConfig} {seen : List Event} {monitor : Monitor}

theorem follows_new (config : MonitorConfig) : Follows config [] .new where
  failures := (Nat.zero_min _).symm
  recoveries := (Nat.zero_min _).symm
  status := rfl
  turns := rfl
  deliveredStatus := rfl
  owes h := by cases h

theorem turn_eq_of_ne {n : ℕ} {status : Status} (h : status ≠ statusAfter n) : status = turn n := by
  unfold statusAfter at h
  unfold turn
  split_ifs at h ⊢ with heven
  · cases status with
    | healthy => exact absurd rfl h
    | degraded => rfl
  · cases status with
    | healthy => rfl
    | degraded => exact absurd rfl h

theorem statusAfter_succ (n : ℕ) : statusAfter (n + 1) = turn n := by
  unfold statusAfter turn
  by_cases heven : n % 2 = 0
  · rw [if_neg (by omega), if_pos heven]
  · rw [if_pos (by omega), if_neg heven]

/-- Capped counters and uncapped runs settle the status alike. -/
theorem Follows.count (h : Follows config seen monitor) (ready : Bool) :
    (monitor.count config ready).failures =
        min (streak false (ready :: readings seen)) config.failureThreshold ∧
      (monitor.count config ready).recoveries =
        min (streak true (ready :: readings seen)) config.recoveryThreshold ∧
      (monitor.count config ready).status = debouncedStatus config (ready :: readings seen) := by
  have hfailure := config.failure_pos
  have hrecovery := config.recovery_pos
  cases ready with
  | true =>
      have hcapped : min (monitor.recoveries + 1) config.recoveryThreshold =
          min (streak true (true :: readings seen)) config.recoveryThreshold := by
        rw [h.recoveries, capped_streak_succ]
      refine ⟨by simp [Monitor.count], hcapped, ?_⟩
      unfold debouncedStatus
      rw [debounced_cons_true hfailure]
      have hlow : ¬ config.failureThreshold ≤ 0 := by omega
      simp only [Monitor.count, if_true, if_neg hlow, hcapped, threshold_le_capped, h.status]
      rfl
  | false =>
      have hcapped : min (monitor.failures + 1) config.failureThreshold =
          min (streak false (false :: readings seen)) config.failureThreshold := by
        rw [h.failures, capped_streak_succ]
      refine ⟨hcapped, by simp [Monitor.count], ?_⟩
      unfold debouncedStatus
      rw [debounced_cons_false hrecovery]
      have hhigh : ¬ config.recoveryThreshold ≤ 0 := by omega
      simp only [Monitor.count, Bool.false_eq_true, if_false, if_neg hhigh, hcapped,
        threshold_le_capped, h.status]
      rfl

/-- The end of a check adds no reading and no notification. -/
theorem Follows.checked (h : Follows config seen monitor) (status : Status) (result : Result) :
    Follows config (seen ++ [.checked status result]) { monitor with inFlight := .idle } where
  failures := by simpa using h.failures
  recoveries := by simpa using h.recoveries
  status := by simpa using h.status
  turns := by simpa using h.turns
  deliveredStatus := by simpa using h.deliveredStatus
  owes howes := by cases howes

theorem Follows.counted (h : Follows config seen monitor) (ready : Bool) {phase : Phase}
    (howes : phase = .delivering →
      (monitor.count config ready).status ≠ (monitor.count config ready).deliveredStatus) :
    Follows config (seen ++ [.probed ready])
      { monitor.count config ready with inFlight := phase } where
  failures := by simpa using (h.count ready).1
  recoveries := by simpa using (h.count ready).2.1
  status := by simpa using (h.count ready).2.2
  turns := by simpa using h.turns
  deliveredStatus := by
    rw [notifications_append_probed]
    exact h.deliveredStatus
  owes := howes

theorem Follows.probe (h : Follows config seen monitor) (ready : Bool) :
    Follows config (seen ++ (monitor.probe config ready).1) (monitor.probe config ready).2 := by
  by_cases hclosed : monitor.closed = true
  · rw [Monitor.probe, if_pos hclosed]
    exact h.checked _ _
  · rw [Monitor.probe, if_neg hclosed]
    by_cases hsame : (monitor.count config ready).status = (monitor.count config ready).deliveredStatus
    · rw [if_pos hsame]
      have hcounted : Follows config (seen ++ [.probed ready])
          { monitor.count config ready with inFlight := .idle } :=
        h.counted ready fun hphase => by cases hphase
      have hchecked := hcounted.checked (monitor.count config ready).status .none
      rwa [List.append_assoc] at hchecked
    · rw [if_neg hsame]
      exact h.counted ready fun _ => hsame

theorem Follows.webhook (h : Follows config seen monitor) (hphase : monitor.inFlight = .delivering)
    (delivered : Bool) :
    Follows config (seen ++ (monitor.webhook delivered).1) (monitor.webhook delivered).2 := by
  cases delivered with
  | false => exact h.checked _ _
  | true =>
      -- the status was not the one delivered, so it is its turn
      have hturn : monitor.status = turn (notifications seen).length :=
        turn_eq_of_ne (h.deliveredStatus ▸ h.owes hphase)
      have hsent : Follows config (seen ++ [.delivered (notification monitor.status)])
          { monitor with deliveredStatus := monitor.status, inFlight := .idle } :=
        { failures := by simpa using h.failures
          recoveries := by simpa using h.recoveries
          status := by simpa using h.status
          turns := by
            rw [notifications_append_delivered, List.length_append, List.length_singleton,
              List.range_succ, List.map_append, ← h.turns, hturn]
            rfl
          deliveredStatus := by
            rw [notifications_append_delivered, List.length_append, List.length_singleton,
              statusAfter_succ]
            exact hturn
          owes := fun howes => by cases howes }
      have hchecked := hsent.checked monitor.status .sent
      rwa [List.append_assoc] at hchecked

theorem follows_step (h : Follows config seen monitor) (action : Action) :
    Follows config (seen ++ emitted config monitor action) (step config action monitor) := by
  have hsame : Follows config (seen ++ []) monitor := by
    rw [List.append_nil]
    exact h
  unfold emitted step
  cases action with
  | check =>
      simp only [act]
      split_ifs
      · exact
          { failures := by simpa using h.failures
            recoveries := by simpa using h.recoveries
            status := by simpa using h.status
            turns := by simpa using h.turns
            deliveredStatus := by simpa using h.deliveredStatus
            owes := h.owes }
      · exact { hsame with owes := fun howes => by cases howes }
      · exact hsame
  | probe answer =>
      cases hphase : monitor.inFlight with
      | probing => simpa only [act, hphase] using h.probe answer.ready
      | idle => simpa only [act, hphase] using hsame
      | delivering => simpa only [act, hphase] using hsame
  | webhook answer =>
      cases hphase : monitor.inFlight with
      | delivering => simpa only [act, hphase] using h.webhook hphase answer.delivered
      | idle => simpa only [act, hphase] using hsame
      | probing => simpa only [act, hphase] using hsame
  | close => exact { hsame with owes := h.owes }

theorem follows_run (config : MonitorConfig) (actions : List Action) :
    Follows config (eventsOf config actions) (monitorAfter config actions) :=
  outputs_invariant (Follows config) (emitted config) (fun _ _ action h => follows_step h action)
    (follows_new config) actions

/-- The last notification says the status delivered, healthy before the first. -/
theorem Follows.last (h : Follows config seen monitor) :
    (notifications seen).getLast?.getD (notification .healthy) =
      notification monitor.deliveredStatus := by
  rw [h.deliveredStatus, h.turns]
  cases hlength : (notifications seen).length with
  | zero => rfl
  | succ n =>
      rw [List.range_succ, List.map_append, List.map_singleton, List.getLast?_append]
      simp [statusAfter_succ]

/-- A check that ends with nothing to deliver, or with its notification
delivered, leaves the status delivered. -/
theorem settled_of_checked {action : Action} {status : Status} {result : Result}
    (hchecked : Event.checked status result ∈ emitted config monitor action)
    (hresult : result = .sent ∨ result = .none ∧ monitor.closed = false) :
    (step config action monitor).deliveredStatus = (step config action monitor).status := by
  unfold emitted at hchecked
  unfold step
  cases action with
  | check =>
      simp only [act] at hchecked
      split_ifs at hchecked <;> simp at hchecked
  | probe answer =>
      cases hphase : monitor.inFlight with
      | probing =>
          simp only [act, hphase] at hchecked ⊢
          by_cases hclosed : monitor.closed = true
          · rw [Monitor.probe, if_pos hclosed] at hchecked
            simp only [List.mem_singleton, Event.checked.injEq] at hchecked
            simp [hchecked.2, hclosed] at hresult
          · rw [Monitor.probe, if_neg hclosed] at hchecked ⊢
            by_cases hsame : (monitor.count config answer.ready).status =
                (monitor.count config answer.ready).deliveredStatus
            · rw [if_pos hsame]
              exact hsame.symm
            · rw [if_neg hsame] at hchecked
              simp at hchecked
      | idle => simp [act, hphase] at hchecked
      | delivering => simp [act, hphase] at hchecked
  | webhook answer =>
      cases hphase : monitor.inFlight with
      | delivering =>
          simp only [act, hphase] at hchecked ⊢
          cases hdelivered : answer.delivered with
          | true => rfl
          | false =>
              rw [hdelivered] at hchecked
              simp only [Monitor.webhook, Bool.false_eq_true, if_false, List.mem_singleton,
                Event.checked.injEq] at hchecked
              simp [hchecked.2] at hresult
      | idle => simp [act, hphase] at hchecked
      | probing => simp [act, hphase] at hchecked
  | close => simp [act] at hchecked

end

end Wardx.ReadinessMonitor
