import Wardx.Lib.Run
import Mathlib.Data.List.Count
import Mathlib.Data.List.Nodup
import Mathlib.Data.Int.Order.Basic
import Mathlib.Order.MinMax
import Mathlib.Order.Lattice
import Mathlib.Data.List.Range

/-!
# The queued concurrency gate

The gate bounds how many reads run at once and how many wait. A lease is a
closure with its own flag; releasing it hands the slot to the longest waiting
caller. Callers and leases are numbered in the order of their calls and of their
creation, and what a call settles is listed as events.
-/
namespace Wardx.ConcurrencyGate

open Lib

structure Limits where
  limit : ℕ
  maxPending : ℕ
  limit_pos : 1 ≤ limit
  maxPending_pos : 1 ≤ maxPending

structure QueuedConcurrencyGate where
  active : ℤ
  /-- The callers whose promises are not settled, the first to come first. -/
  pending : List ℕ
  peakActive : ℤ
  peakPending : ℕ
  rejected : ℕ
  /-- The flags `released` of the leases created. -/
  leases : List Bool
  /-- The calls of `acquire` so far. -/
  calls : ℕ
deriving DecidableEq, Repr

inductive Event where
  /-- The call returns a lease at once. -/
  | granted (caller lease : ℕ)
  | waits (caller : ℕ)
  | refused (caller : ℕ) (message : String)
  | released (lease : ℕ)
  /-- A release settles the promise of a caller that waited. -/
  | handed (caller lease : ℕ)
  | threw (lease : ℕ) (message : String)
deriving DecidableEq, Repr

inductive Action where
  | acquire
  | release (lease : ℕ)
deriving DecidableEq, Repr

def overloaded : String := "MCP read overloaded"
def alreadyReleased : String := "concurrency lease already released"

namespace QueuedConcurrencyGate

def new : QueuedConcurrencyGate := ⟨0, [], 0, 0, 0, [], 0⟩

/-- The number of the new lease is that of the leases before it. -/
def lease (gate : QueuedConcurrencyGate) : QueuedConcurrencyGate :=
  { gate with
    active := gate.active + 1
    peakActive := max gate.peakActive (gate.active + 1)
    leases := gate.leases ++ [false] }

def acquire (limits : Limits) (gate : QueuedConcurrencyGate) : List Event × QueuedConcurrencyGate :=
  if gate.active < limits.limit then
    ([.granted gate.calls gate.leases.length], { gate.lease with calls := gate.calls + 1 })
  else if limits.maxPending ≤ gate.pending.length then
    ([.refused gate.calls overloaded],
      { gate with rejected := gate.rejected + 1, calls := gate.calls + 1 })
  else
    ([.waits gate.calls],
      { gate with
        pending := gate.pending ++ [gate.calls]
        peakPending := max gate.peakPending (gate.pending.length + 1)
        calls := gate.calls + 1 })

/-- The slot of a lease that is given back. -/
def giveBack (number : ℕ) (gate : QueuedConcurrencyGate) : QueuedConcurrencyGate :=
  { gate with active := gate.active - 1, leases := gate.leases.set number true }

/-- `pending.shift()` and what follows it. -/
def handOver (gate : QueuedConcurrencyGate) : List Event × QueuedConcurrencyGate :=
  match gate.pending with
  | [] => ([], gate)
  | caller :: rest => ([.handed caller gate.leases.length], { gate.lease with pending := rest })

/-- A call of the closure of a lease. A lease that was never created has no
closure to call. -/
def release (number : ℕ) (gate : QueuedConcurrencyGate) : List Event × QueuedConcurrencyGate :=
  match gate.leases[number]? with
  | none => ([], gate)
  | some true => ([.threw number alreadyReleased], gate)
  | some false =>
      (.released number :: (gate.giveBack number).handOver.1, (gate.giveBack number).handOver.2)

end QueuedConcurrencyGate

def act (limits : Limits) : Action → QueuedConcurrencyGate → List Event × QueuedConcurrencyGate
  | .acquire, gate => gate.acquire limits
  | .release number, gate => gate.release number

def step (limits : Limits) (action : Action) (gate : QueuedConcurrencyGate) : QueuedConcurrencyGate :=
  (act limits action gate).2

def settled (limits : Limits) (gate : QueuedConcurrencyGate) (action : Action) : List Event :=
  (act limits action gate).1

def gateAfter (limits : Limits) (actions : List Action) : QueuedConcurrencyGate :=
  run (step limits) .new actions

def eventsOf (limits : Limits) (actions : List Action) : List Event :=
  outputs (settled limits) (step limits) .new actions

/-! ## What the events say -/

/-- The caller whose call of `acquire` the event ends. -/
def Event.called : Event → Option ℕ
  | .granted caller _ | .waits caller | .refused caller _ => some caller
  | _ => none

def Event.waiter : Event → Option ℕ
  | .waits caller => some caller
  | _ => none

def Event.handedTo : Event → Option ℕ
  | .handed caller _ => some caller
  | _ => none

/-- The lease the event gives out. -/
def Event.lease : Event → Option ℕ
  | .granted _ lease | .handed _ lease => some lease
  | _ => none

/-! ## The invariant -/

/-- What links the counters, the queue and the leases to the events so far. -/
structure Linked (limits : Limits) (seen : List Event) (gate : QueuedConcurrencyGate) : Prop where
  active : gate.active = gate.leases.count false
  active_le : gate.active ≤ limits.limit
  pending_le : gate.pending.length ≤ limits.maxPending
  full : gate.pending ≠ [] → gate.active = limits.limit
  peakActive : gate.active ≤ gate.peakActive ∧ gate.peakActive ≤ limits.limit
  peakPending : gate.pending.length ≤ gate.peakPending ∧ gate.peakPending ≤ limits.maxPending
  called : seen.filterMap Event.called = List.range gate.calls
  queue : seen.filterMap Event.waiter = seen.filterMap Event.handedTo ++ gate.pending
  lease : seen.filterMap Event.lease = List.range gate.leases.length
  released : ∀ number, Event.released number ∈ seen ↔ gate.leases[number]? = some true

section
variable {limits : Limits} {seen : List Event} {gate : QueuedConcurrencyGate}

theorem linked_new : Linked limits [] .new where
  active := rfl
  active_le := Int.natCast_nonneg _
  pending_le := Nat.zero_le _
  full h := absurd rfl h
  peakActive := ⟨le_rfl, Int.natCast_nonneg _⟩
  peakPending := ⟨le_rfl, Nat.zero_le _⟩
  called := rfl
  queue := rfl
  lease := rfl
  released number := by simp [QueuedConcurrencyGate.new]

theorem count_set_released {leases : List Bool} {number : ℕ} (h : leases[number]? = some false) :
    ((leases.set number true).count false : ℤ) = leases.count false - 1 := by
  obtain ⟨hlt, hflag⟩ := List.getElem?_eq_some_iff.mp h
  have hmem : false ∈ leases := hflag ▸ List.getElem_mem hlt
  have hpos := List.count_pos_iff.mpr hmem
  rw [List.count_set hlt, hflag]
  simp only [beq_self_eq_true, if_true, Bool.true_eq_false, beq_iff_eq, if_false]
  omega

theorem getElem?_append_false {leases : List Bool} (number : ℕ) :
    (leases ++ [false])[number]? = some true ↔ leases[number]? = some true := by
  by_cases hlt : number < leases.length
  · rw [List.getElem?_append_left hlt]
  · rw [List.getElem?_append_right (by omega), List.getElem?_eq_none (by omega : leases.length ≤ number)]
    cases hdiff : number - leases.length <;> simp

theorem getElem?_set_released {leases : List Bool} {number : ℕ} (h : leases[number]? = some false)
    (other : ℕ) :
    (leases.set number true)[other]? = some true ↔ other = number ∨ leases[other]? = some true := by
  obtain ⟨hlt, -⟩ := List.getElem?_eq_some_iff.mp h
  by_cases hother : number = other
  · subst hother
    simp [List.getElem?_set_self hlt]
  · rw [List.getElem?_set_ne hother]
    simp [Ne.symm hother]

/-- A caller who finds a slot free gets a lease at once; nobody is waiting. -/
theorem Linked.grant (h : Linked limits seen gate) (hfree : gate.active < limits.limit) :
    Linked limits (seen ++ [.granted gate.calls gate.leases.length])
      { gate.lease with calls := gate.calls + 1 } := by
  have hnone : gate.pending = [] := by
    by_contra hne
    have := h.full hne
    omega
  have hactive := h.active
  have hpeak := h.peakActive
  refine
    { active := ?_, active_le := ?_, pending_le := h.pending_le, full := fun hne => absurd hnone hne,
      peakActive := ?_, peakPending := h.peakPending, called := ?_, queue := ?_, lease := ?_,
      released := ?_ }
  · show gate.active + 1 = (gate.leases ++ [false]).count false
    simp [hactive]
  · show gate.active + 1 ≤ limits.limit
    omega
  · show gate.active + 1 ≤ max gate.peakActive (gate.active + 1) ∧ _
    exact ⟨le_max_right _ _, max_le hpeak.2 (by omega)⟩
  · simp [Event.called, h.called, List.range_succ]
  · simpa [Event.waiter, Event.handedTo, List.filterMap_cons, QueuedConcurrencyGate.lease] using h.queue
  · simp [Event.lease, h.lease, QueuedConcurrencyGate.lease, List.range_succ]
  · intro number
    show _ ↔ (gate.leases ++ [false])[number]? = some true
    rw [getElem?_append_false, ← h.released number]
    simp

theorem Linked.refuse (h : Linked limits seen gate) :
    Linked limits (seen ++ [.refused gate.calls overloaded])
      { gate with rejected := gate.rejected + 1, calls := gate.calls + 1 } where
  active := h.active
  active_le := h.active_le
  pending_le := h.pending_le
  full := h.full
  peakActive := h.peakActive
  peakPending := h.peakPending
  called := by simp [Event.called, h.called, List.range_succ]
  queue := by simpa [Event.waiter, Event.handedTo, List.filterMap_cons] using h.queue
  lease := by simpa [Event.lease, List.filterMap_cons] using h.lease
  released := by simpa using h.released

/-- A caller queues only when every slot is taken. -/
theorem Linked.wait (h : Linked limits seen gate) (hfree : ¬ gate.active < limits.limit)
    (hroom : ¬ limits.maxPending ≤ gate.pending.length) :
    Linked limits (seen ++ [.waits gate.calls])
      { gate with
        pending := gate.pending ++ [gate.calls]
        peakPending := max gate.peakPending (gate.pending.length + 1)
        calls := gate.calls + 1 } where
  active := h.active
  active_le := h.active_le
  pending_le := by
    show (gate.pending ++ [gate.calls]).length ≤ limits.maxPending
    rw [List.length_append, List.length_singleton]
    omega
  full _ := by
    have := h.active_le
    show gate.active = limits.limit
    omega
  peakActive := h.peakActive
  peakPending := by
    have := h.peakPending
    show (gate.pending ++ [gate.calls]).length ≤ _ ∧ max gate.peakPending _ ≤ limits.maxPending
    rw [List.length_append, List.length_singleton]
    exact ⟨le_max_right _ _, max_le this.2 (by omega)⟩
  called := by simp [Event.called, h.called, List.range_succ]
  queue := by simp [Event.waiter, Event.handedTo, List.filterMap_cons, h.queue]
  lease := by simpa [Event.lease, List.filterMap_cons] using h.lease
  released := by simpa using h.released

theorem Linked.acquire (h : Linked limits seen gate) :
    Linked limits (seen ++ (gate.acquire limits).1) (gate.acquire limits).2 := by
  unfold QueuedConcurrencyGate.acquire
  split_ifs with hfree hfull
  · exact h.grant hfree
  · exact h.refuse
  · exact h.wait hfree hfull

/-- The slot of a release goes to the longest waiting caller, or stays free when
nobody waits. -/
theorem Linked.handOver {number : ℕ} (h : Linked limits seen gate)
    (hflag : gate.leases[number]? = some false) :
    Linked limits (seen ++ .released number :: (gate.giveBack number).handOver.1)
      (gate.giveBack number).handOver.2 := by
  have hactive : gate.active = gate.leases.count false := h.active
  have hcount := count_set_released hflag
  have hset := getElem?_set_released hflag
  have hactiveLe := h.active_le
  have hpeak := h.peakActive
  have hqueue := h.queue
  cases hpending : gate.pending with
  | nil =>
      rw [hpending] at hqueue
      simp only [QueuedConcurrencyGate.handOver, QueuedConcurrencyGate.giveBack, hpending]
      exact
        { active := by
            show gate.active - 1 = (gate.leases.set number true).count false
            omega
          active_le := by show gate.active - 1 ≤ _; omega
          pending_le := Nat.zero_le _
          full := fun hne => absurd rfl hne
          peakActive := ⟨by show gate.active - 1 ≤ gate.peakActive; omega, hpeak.2⟩
          peakPending := ⟨Nat.zero_le _, h.peakPending.2⟩
          called := by simpa [Event.called, List.filterMap_cons] using h.called
          queue := by simpa [Event.waiter, Event.handedTo, List.filterMap_cons] using hqueue
          lease := by simpa [Event.lease, List.filterMap_cons] using h.lease
          released := fun other => by
            show _ ↔ (gate.leases.set number true)[other]? = some true
            rw [hset, ← h.released other]
            simp [or_comm] }
  | cons caller rest =>
      -- somebody waits, so every slot was taken, and it is taken again
      have hfull := h.full (by simp [hpending])
      have hpendingLe := h.pending_le
      have hpeakPending := h.peakPending
      rw [hpending] at hqueue hpendingLe hpeakPending
      simp only [List.length_cons] at hpendingLe hpeakPending
      simp only [QueuedConcurrencyGate.handOver, QueuedConcurrencyGate.giveBack, hpending,
        QueuedConcurrencyGate.lease, List.length_set]
      exact
        { active := by
            show gate.active - 1 + 1 = (gate.leases.set number true ++ [false]).count false
            rw [List.count_append]
            simp only [List.count_singleton_self]
            omega
          active_le := by show gate.active - 1 + 1 ≤ _; omega
          pending_le := by show rest.length ≤ _; omega
          full := fun _ => by show gate.active - 1 + 1 = _; omega
          peakActive := by
            show gate.active - 1 + 1 ≤ max gate.peakActive (gate.active - 1 + 1) ∧ _
            exact ⟨le_max_right _ _, max_le hpeak.2 (by omega)⟩
          peakPending := by
            show rest.length ≤ gate.peakPending ∧ gate.peakPending ≤ limits.maxPending
            omega
          called := by simpa [Event.called, List.filterMap_cons] using h.called
          queue := by simpa [Event.waiter, Event.handedTo, List.filterMap_cons] using hqueue
          lease := by simp [Event.lease, List.filterMap_cons, h.lease, List.range_succ]
          released := fun other => by
            show _ ↔ (gate.leases.set number true ++ [false])[other]? = some true
            rw [getElem?_append_false, hset, ← h.released other]
            simp [or_comm] }

theorem Linked.release (h : Linked limits seen gate) (number : ℕ) :
    Linked limits (seen ++ (gate.release number).1) (gate.release number).2 := by
  unfold QueuedConcurrencyGate.release
  cases hflag : gate.leases[number]? with
  | none =>
      rw [List.append_nil]
      exact h
  | some flag =>
      cases flag with
      | false => exact h.handOver hflag
      | true =>
          exact
            { h with
              called := by simpa [Event.called, List.filterMap_cons] using h.called
              queue := by simpa [Event.waiter, Event.handedTo, List.filterMap_cons] using h.queue
              lease := by simpa [Event.lease, List.filterMap_cons] using h.lease
              released := by simpa using h.released }

theorem Linked.act (h : Linked limits seen gate) (action : Action) :
    Linked limits (seen ++ settled limits gate action) (step limits action gate) := by
  cases action with
  | acquire => exact h.acquire
  | release number => exact h.release number

theorem linked_run (limits : Limits) (actions : List Action) :
    Linked limits (eventsOf limits actions) (gateAfter limits actions) :=
  outputs_invariant (Linked limits) (settled limits) (fun _ _ action h => h.act action) linked_new
    actions

/-- With every lease given out released, no slot is taken. -/
theorem Linked.drained (h : Linked limits seen gate)
    (hall : ∀ number ∈ seen.filterMap Event.lease, Event.released number ∈ seen) :
    gate.active = 0 ∧ gate.pending = [] := by
  have hcount : gate.leases.count false = 0 := by
    rw [List.count_eq_zero]
    intro hmem
    obtain ⟨number, hlt, hflag⟩ := List.mem_iff_getElem.mp hmem
    have hgiven : number ∈ seen.filterMap Event.lease := by
      rw [h.lease]
      exact List.mem_range.mpr hlt
    have hreleased := (h.released number).mp (hall number hgiven)
    rw [List.getElem?_eq_getElem hlt, hflag] at hreleased
    cases hreleased
  have hactive := h.active
  have hzero : gate.active = 0 := by omega
  refine ⟨hzero, ?_⟩
  by_contra hne
  have hfull := h.full hne
  have := limits.limit_pos
  omega

theorem Linked.twice (h : Linked limits seen gate) {number : ℕ}
    (hreleased : Event.released number ∈ seen) :
    ConcurrencyGate.act limits (.release number) gate = ([.threw number alreadyReleased], gate) := by
  have hflag := (h.released number).mp hreleased
  simp only [ConcurrencyGate.act, QueuedConcurrencyGate.release, hflag]

end

/-- Who waits has called. -/
theorem waiter_sublist_called (events : List Event) :
    (events.filterMap Event.waiter).Sublist (events.filterMap Event.called) := by
  induction events with
  | nil => exact List.Sublist.slnil
  | cons event events ih =>
      cases event with
      | waits caller => exact ih.cons_cons caller
      | granted caller lease => exact ih.cons caller
      | refused caller message => exact ih.cons caller
      | released lease => exact ih
      | handed caller lease => exact ih
      | threw lease message => exact ih

/-- After any calls: the bounds hold, callers wait only for a full gate, every
call of `acquire` is answered once, those that waited get their leases in the
order of their calls and each lease is given out once, a second release of a
lease throws and changes nothing, and with every lease released the gate is
empty. -/
theorem queued_gate_safe (limits : Limits) (actions : List Action) :
    let gate := gateAfter limits actions
    let events := eventsOf limits actions
    (0 ≤ gate.active ∧ gate.active ≤ limits.limit ∧ gate.pending.length ≤ limits.maxPending) ∧
      (gate.pending ≠ [] → gate.active = limits.limit) ∧
      (events.filterMap Event.called = List.range gate.calls ∧
        events.filterMap Event.waiter = events.filterMap Event.handedTo ++ gate.pending ∧
        (events.filterMap Event.waiter).Nodup ∧
        events.filterMap Event.lease = List.range gate.leases.length) ∧
      (∀ number, Event.released number ∈ events →
        act limits (.release number) gate = ([.threw number alreadyReleased], gate)) ∧
      ((∀ number ∈ events.filterMap Event.lease, Event.released number ∈ events) →
        gate.active = 0 ∧ gate.pending = []) := by
  intro gate events
  have h : Linked limits events gate := linked_run limits actions
  have hnonneg : 0 ≤ gate.active := by
    rw [h.active]
    exact Int.natCast_nonneg _
  have hwaited : (events.filterMap Event.waiter).Nodup := by
    have hsub : (events.filterMap Event.waiter).Sublist (events.filterMap Event.called) :=
      waiter_sublist_called events
    rw [h.called] at hsub
    exact hsub.nodup List.nodup_range
  exact ⟨⟨hnonneg, h.active_le, h.pending_le⟩, h.full, ⟨h.called, h.queue, hwaited, h.lease⟩,
    fun number hreleased => h.twice hreleased, h.drained⟩

end Wardx.ConcurrencyGate
