import Wardx.Control.PersistenceCoordinator
import Mathlib.Data.List.Perm.Basic

/-!
# What the coordinator owes

While the server runs, what is dirty has a timer or a flush that sees to it, so
the coordinator's own tasks bring every change to the disk. A measure bounds
them: each flush that waits goes at most three steps in each round of a drain.

A close marks the history and flushes. When it ends well nothing is dirty and no
write is under way, and the store behind it can be closed.
-/
namespace Wardx.PersistenceCoordinator

open Lib

variable {α : Type*}

section
variable {settings : PersistenceSettings} {c : Coordinator α}

/-! ## Every change reaches the disk -/

/-- The coordinator's own tasks that can run. A write that fails is not its own. -/
def Due (c : Coordinator α) : Task α → Prop
  | .timer => c.timer = true
  | .written => c.Busy
  | .settle => ∃ ok, c.inFlight = some (.settled ok)
  | .resume index => index < c.resumed.length
  | _ => False

namespace Coordinator

/-- The writes left to do. -/
def writes (c : Coordinator α) : ℕ :=
  c.dirtyKinds.length +
    match c.inFlight with
    | some (.writing _ _ _ rest) => rest.length + 1
    | _ => 0

/-- The drains left to settle: the one in flight, and one more for what it leaves. -/
def rounds (c : Coordinator α) : ℕ :=
  match c.inFlight with
  | some (.writing _ _ _ _) => 1
  | some (.settled _) => if c.dirtyKinds = [] then 1 else 2
  | none => if c.dirtyKinds = [] then 0 else 1

/-- The flushes that wait, resume or are to be called by the timer. -/
def flushes (c : Coordinator α) : ℕ := c.waiting.length + c.resumed.length + c.timer.toNat

/-- The steps left at most: every flush may go three steps in each round. -/
def work (c : Coordinator α) : ℕ :=
  c.writes + c.rounds + 3 * (c.rounds * c.flushes) + 2 * c.resumed.length + c.timer.toNat

end Coordinator

/-- Less to write or fewer calls, in no more rounds. -/
theorem work_lt_of_step {d : Coordinator α} (hrounds : d.rounds ≤ c.rounds)
    (hflushes : d.flushes ≤ c.flushes)
    (hsteps : d.writes + 2 * d.resumed.length + d.timer.toNat <
      c.writes + 2 * c.resumed.length + c.timer.toNat) : d.work < c.work := by
  have hproduct : d.rounds * d.flushes ≤ c.rounds * c.flushes := Nat.mul_le_mul hrounds hflushes
  unfold Coordinator.work
  omega

theorem writes_drain : c.drain.writes = c.dirtyKinds.length := by
  cases hdirty : c.dirtyKinds with
  | nil => simp [Coordinator.drain_of_nil hdirty, Coordinator.writes, hdirty]
  | cons kind rest => simp [Coordinator.drain_of_cons hdirty, Coordinator.writes]

theorem rounds_drain : c.drain.rounds = 1 := by
  cases hdirty : c.dirtyKinds with
  | nil => simp [Coordinator.drain_of_nil hdirty, Coordinator.rounds, hdirty]
  | cons kind rest => simp [Coordinator.drain_of_cons hdirty, Coordinator.rounds]

theorem calls_drain : c.drain.waiting = c.waiting ∧ c.drain.resumed = c.resumed ∧
    c.drain.timer = c.timer ∧ c.drain.closed = c.closed ∧ c.drain.live = c.live := by
  cases hdirty : c.dirtyKinds with
  | nil =>
      rw [Coordinator.drain_of_nil hdirty]
      exact ⟨rfl, rfl, rfl, rfl, rfl⟩
  | cons kind rest =>
      rw [Coordinator.drain_of_cons hdirty]
      exact ⟨rfl, rfl, rfl, rfl, rfl⟩

/-- A flush takes the timer's place, and no more is left to write. -/
theorem work_flush (caller : Caller) (hcaller : caller = .timer ∨ c.dirtyKinds ≠ []) :
    (c.flush caller).rounds ≤ c.rounds ∧ (c.flush caller).flushes + c.timer.toNat ≤ c.flushes + 1 ∧
      (c.flush caller).writes ≤ c.writes ∧ (c.flush caller).resumed = c.resumed ∧
      (c.flush caller).timer = false := by
  refine Coordinator.flush_rule
    (P := fun d => d.rounds ≤ c.rounds ∧ d.flushes + c.timer.toNat ≤ c.flushes + 1 ∧
      d.writes ≤ c.writes ∧ d.resumed = c.resumed ∧ d.timer = false) caller ?_ ?_ ?_
  · intro _
    refine ⟨Nat.le_refl _, ?_, Nat.le_refl _, rfl, rfl⟩
    simp [Coordinator.flushes]
    omega
  · intro _ hclean
    rw [hcaller.resolve_right (not_not.mpr hclean)]
    refine ⟨Nat.le_refl _, ?_, Nat.le_refl _, rfl, rfl⟩
    simp [Coordinator.answer, Coordinator.flushes]
  · intro hflight hdirty
    obtain ⟨hwaiting, hresumed, htimer, -, -⟩ :=
      calls_drain (c := { c with timer := false, waiting := c.waiting ++ [caller] })
    refine ⟨?_, ?_, ?_, hresumed, htimer⟩
    · rw [rounds_drain]
      simp [Coordinator.rounds, hflight, hdirty]
    · unfold Coordinator.flushes
      rw [hwaiting, hresumed, htimer]
      simp
      omega
    · rw [writes_drain]
      exact Nat.le_add_right _ _

theorem work_written (h : c.Busy) : c.written.work < c.work := by
  have hrounds : c.rounds = 1 := by
    obtain ⟨batch, kind, snapshot, rest, hflight⟩ := Coordinator.busy_iff.mp h
    simp [Coordinator.rounds, hflight]
  refine Coordinator.written_rule (P := fun d => d.work < c.work) (fun hidle => absurd h hidle) ?_ ?_
  · intro batch kind snapshot hflight
    obtain ⟨hwaiting, hresumed, htimer, -, -⟩ :=
      calls_drain (c := { c with disk := Function.update c.disk kind snapshot })
    apply work_lt_of_step
    · exact Nat.le_of_eq (rounds_drain.trans hrounds.symm)
    · simp only [Coordinator.flushes, hwaiting, hresumed, htimer, Nat.le_refl]
    · rw [writes_drain, hresumed, htimer]
      simp [Coordinator.writes, hflight]
  · intro batch kind snapshot next rest hflight
    apply work_lt_of_step
    · rw [hrounds]
      simp [Coordinator.rounds]
    · exact Nat.le_refl _
    · simp [Coordinator.writes, hflight]

theorem work_settle {ok : Bool} (h : c.inFlight = some (.settled ok)) : c.settle.work < c.work := by
  have hrounds : c.settle.rounds + 1 = c.rounds := by
    rw [Coordinator.settle_of_settled h]
    by_cases hdirty : c.dirtyKinds = [] <;> simp [Coordinator.rounds, h, hdirty]
  have hflushes : c.settle.flushes = c.flushes := by
    rw [Coordinator.settle_of_settled h]
    simp [Coordinator.flushes]
    omega
  have hwrites : c.settle.writes = c.writes := by
    rw [Coordinator.settle_of_settled h]
    simp [Coordinator.writes, h]
  have hresumed : c.settle.resumed.length = c.resumed.length + c.waiting.length := by
    rw [Coordinator.settle_of_settled h]
    simp
  have htimer : c.settle.timer = c.timer := by
    rw [Coordinator.settle_of_settled h]
  have hwaiting : c.waiting.length ≤ c.flushes := by
    unfold Coordinator.flushes
    omega
  have hproduct : c.rounds * c.flushes = c.settle.rounds * c.settle.flushes + c.flushes := by
    rw [← hrounds, hflushes, Nat.succ_mul]
  unfold Coordinator.work
  rw [hwrites, hresumed, htimer, hproduct]
  omega

/-- A flush that returns leaves the rest as it was, but for the timer. -/
theorem calls_answer (caller : Caller) (ok : Bool) :
    (c.answer caller ok).rounds = c.rounds ∧ (c.answer caller ok).writes = c.writes ∧
      (c.answer caller ok).waiting = c.waiting ∧ (c.answer caller ok).resumed = c.resumed := by
  cases caller <;> cases ok <;> exact ⟨rfl, rfl, rfl, rfl⟩

theorem work_resumeAt {index : ℕ} (h : index < c.resumed.length) :
    (c.resumeAt index).work < c.work := by
  have hlength : (c.resumed.eraseIdx index).length + 1 = c.resumed.length := by
    rw [List.length_eraseIdx_of_lt h]
    omega
  refine Coordinator.resumeAt_rule (P := fun d => d.work < c.work) index ?_ ?_ ?_
  · intro hnone
    exact absurd h (Nat.not_lt.mpr (List.getElem?_eq_none_iff.mp hnone))
  · intro caller _ hdirty
    obtain ⟨hrounds, hflushes, hwrites, hresumed, htimer⟩ :=
      work_flush (c := { c with resumed := c.resumed.eraseIdx index }) caller (Or.inr hdirty)
    apply work_lt_of_step
    · exact hrounds
    · simp only [Coordinator.flushes] at hflushes ⊢
      omega
    · rw [hresumed, htimer]
      have hsame : Coordinator.writes { c with resumed := c.resumed.eraseIdx index } = c.writes := rfl
      simp only [hsame] at hwrites
      simp
      omega
  · intro caller ok _ _
    obtain ⟨hrounds, hwrites, hwaiting, hresumed⟩ :=
      calls_answer (c := { c with resumed := c.resumed.eraseIdx index }) caller ok
    have htimer := Bool.toNat_le
      (Coordinator.answer caller ok { c with resumed := c.resumed.eraseIdx index }).timer
    apply work_lt_of_step
    · exact Nat.le_of_eq hrounds
    · simp only [Coordinator.flushes, hwaiting, hresumed]
      omega
    · rw [hwrites, hresumed]
      show c.writes + _ + _ < _
      simp only
      omega

theorem work_step {task : Task α} (h : Due c task) : (step settings task c).work < c.work := by
  cases task with
  | mark kind value now => cases h
  | close now => cases h
  | failed left => cases h
  | written => exact work_written h
  | settle =>
      obtain ⟨ok, hflight⟩ := h
      exact work_settle hflight
  | resume index => exact work_resumeAt h
  | timer =>
      have htimer : c.timer = true := h
      have hstep : step settings .timer c = c.flush .timer := if_pos htimer
      obtain ⟨hrounds, hflushes, hwrites, hresumed, hafter⟩ := work_flush (c := c) .timer (Or.inl rfl)
      rw [hstep]
      rw [htimer] at hflushes
      apply work_lt_of_step hrounds
      · exact Nat.le_of_succ_le_succ hflushes
      · rw [hresumed, hafter, htimer]
        simp
        omega

/-- Without a close, what is dirty has a timer or a flush that will see to it. -/
structure Watched (c : Coordinator α) : Prop where
  watched : c.dirtyKinds ≠ [] → c.timer = true ∨ c.inFlight ≠ none ∨ c.resumed ≠ []
  awaited : c.inFlight ≠ none → c.waiting ≠ []
  waiting : ∀ caller ∈ c.waiting, caller = .timer
  resumed : ∀ flush ∈ c.resumed, flush.1 = .timer
  closed : c.closed = []

theorem inFlight_drain : c.drain.inFlight ≠ none := by
  cases hdirty : c.dirtyKinds with
  | nil =>
      rw [Coordinator.drain_of_nil hdirty]
      exact Option.some_ne_none _
  | cons kind rest =>
      rw [Coordinator.drain_of_cons hdirty]
      exact Option.some_ne_none _

theorem watched_drain (hawaited : c.waiting ≠ []) (hwaiting : ∀ caller ∈ c.waiting, caller = .timer)
    (hresumed : ∀ flush ∈ c.resumed, flush.1 = .timer) (hclosed : c.closed = []) :
    Watched c.drain := by
  obtain ⟨hwaitingSame, hresumedSame, -, hclosedSame, -⟩ := calls_drain (c := c)
  constructor
  · exact fun _ => Or.inr (Or.inl inFlight_drain)
  · rw [hwaitingSame]
    exact fun _ => hawaited
  · rw [hwaitingSame]
    exact hwaiting
  · rw [hresumedSame]
    exact hresumed
  · rw [hclosedSame]
    exact hclosed

/-- A flush called by the timer sees to what is dirty. -/
theorem watched_flush (hawaited : c.inFlight ≠ none → c.waiting ≠ [])
    (hwaiting : ∀ caller ∈ c.waiting, caller = .timer)
    (hresumed : ∀ flush ∈ c.resumed, flush.1 = .timer) (hclosed : c.closed = []) :
    Watched (c.flush .timer) := by
  have hcallers : ∀ caller ∈ c.waiting ++ [.timer], caller = .timer := by
    intro caller hmem
    cases List.mem_append.mp hmem with
    | inl hold => exact hwaiting caller hold
    | inr hnew => exact List.mem_singleton.mp hnew
  refine Coordinator.flush_rule (P := Watched) .timer ?_ ?_ ?_
  · intro hflight
    exact ⟨fun _ => Or.inr (Or.inl hflight), fun _ => by simp, hcallers, hresumed, hclosed⟩
  · intro _ hclean
    exact ⟨fun hdirty => absurd hclean hdirty, hawaited, hwaiting, hresumed, hclosed⟩
  · intro _ _
    exact watched_drain (by simp) hcallers hresumed hclosed

theorem Watched.mark (h : Watched c) (kind : Kind) (value : α) (now : ℕ) :
    Watched (c.mark settings kind value now) := by
  unfold Coordinator.mark
  split_ifs
  · exact ⟨fun _ => Or.inl rfl, h.awaited, h.waiting, h.resumed, h.closed⟩
  · exact ⟨h.watched, h.awaited, h.waiting, h.resumed, h.closed⟩

/-- While a drain is in flight some flush awaits it. -/
theorem Watched.waiting_ne_nil (h : Watched c) {drain : Drain α} (hflight : c.inFlight = some drain) :
    c.waiting ≠ [] :=
  h.awaited (hflight ▸ Option.some_ne_none drain)

theorem Watched.written (h : Watched c) : Watched c.written := by
  refine Coordinator.written_rule (P := Watched) (fun _ => h) ?_ ?_
  · intro batch kind snapshot hflight
    exact watched_drain (h.waiting_ne_nil hflight) h.waiting h.resumed h.closed
  · intro batch kind snapshot next rest hflight
    exact ⟨fun _ => Or.inr (Or.inl (Option.some_ne_none _)), fun _ => h.waiting_ne_nil hflight,
      h.waiting, h.resumed, h.closed⟩

theorem Watched.failed (h : Watched c) (left : α) : Watched (c.failed left) := by
  refine Coordinator.failed_rule (P := Watched) left h ?_
  intro batch kind snapshot rest hflight
  exact ⟨fun _ => Or.inr (Or.inl (Option.some_ne_none _)), fun _ => h.waiting_ne_nil hflight,
    h.waiting, h.resumed, h.closed⟩

theorem Watched.settle (h : Watched c) : Watched c.settle := by
  refine Coordinator.settle_rule (P := Watched) h ?_
  intro ok hflight
  constructor
  · intro _
    refine Or.inr (Or.inr ?_)
    simp [h.waiting_ne_nil hflight]
  · exact fun hne => absurd rfl hne
  · intro caller hmem
    cases hmem
  · intro flush hmem
    cases List.mem_append.mp hmem with
    | inl hold => exact h.resumed flush hold
    | inr hnew =>
        obtain ⟨caller, hcaller, rfl⟩ := List.mem_map.mp hnew
        exact h.waiting caller hcaller
  · exact h.closed

theorem Watched.resumeAt (h : Watched c) (index : ℕ) : Watched (c.resumeAt index) := by
  have hcaller : ∀ caller ok, c.resumed[index]? = some (caller, ok) → caller = .timer :=
    fun caller ok hresumed => h.resumed (caller, ok) (List.mem_of_getElem? hresumed)
  have hrest : ∀ flush ∈ c.resumed.eraseIdx index, flush.1 = .timer :=
    fun flush hmem => h.resumed flush (List.mem_of_mem_eraseIdx hmem)
  refine Coordinator.resumeAt_rule (P := Watched) index (fun _ => h) ?_ ?_
  · intro caller hresumed _
    rw [hcaller caller true hresumed]
    exact watched_flush h.awaited h.waiting hrest h.closed
  · intro caller ok hresumed hclean
    rw [hcaller caller ok hresumed]
    cases ok with
    | false => exact ⟨fun _ => Or.inl rfl, h.awaited, h.waiting, hrest, h.closed⟩
    | true => exact ⟨fun hdirty => absurd (hclean rfl) hdirty, h.awaited, h.waiting, hrest, h.closed⟩

theorem watched_step (h : Watched c) {task : Task α} (hopen : ∀ now, task ≠ .close now) :
    Watched (step settings task c) := by
  cases task with
  | mark kind value now => exact h.mark kind value now
  | close now => exact absurd rfl (hopen now)
  | timer =>
      unfold step
      split_ifs
      · exact watched_flush h.awaited h.waiting h.resumed h.closed
      · exact h
  | written => exact h.written
  | failed left => exact h.failed left
  | settle => exact h.settle
  | resume index => exact h.resumeAt index

theorem watched_started (stored : Kind → α) : Watched (started stored) where
  watched h := absurd rfl h
  awaited h := absurd rfl h
  waiting _ h := by cases h
  resumed _ h := by cases h
  closed := rfl

/-- No close was called. -/
def Open (tasks : List (Task α)) : Prop := ∀ task ∈ tasks, ∀ now, task ≠ .close now

theorem watched_run (settings : PersistenceSettings) (stored : Kind → α) {tasks : List (Task α)}
    (hopen : Open tasks) : Watched (run (step settings) (started stored) tasks) :=
  run_invariant Watched (fun _ _ h hnot => watched_step h hnot) (watched_started stored)
    (along_of_forall (step settings) hopen (started stored))

theorem live_answer (caller : Caller) (ok : Bool) : (c.answer caller ok).live = c.live := by
  cases caller <;> cases ok <;> rfl

theorem live_flush (caller : Caller) : (c.flush caller).live = c.live := by
  refine Coordinator.flush_rule (P := fun d => d.live = c.live) caller ?_ ?_ ?_
  · exact fun _ => rfl
  · exact fun _ _ => live_answer caller true
  · exact fun _ _ => calls_drain.2.2.2.2

theorem live_written : c.written.live = c.live := by
  refine Coordinator.written_rule (P := fun d => d.live = c.live) (fun _ => rfl) ?_ ?_
  · exact fun _ _ _ _ => calls_drain.2.2.2.2
  · exact fun _ _ _ _ _ _ => rfl

theorem live_resumeAt (index : ℕ) : (c.resumeAt index).live = c.live := by
  refine Coordinator.resumeAt_rule (P := fun d => d.live = c.live) index (fun _ => rfl) ?_ ?_
  · exact fun caller _ _ => live_flush caller
  · exact fun caller ok _ _ => live_answer caller ok

/-- The live data changes by marks alone. -/
theorem live_step {task : Task α} (h : ∀ kind value now, task ≠ .mark kind value now) :
    (step settings task c).live = c.live := by
  cases task with
  | mark kind value now => exact absurd rfl (h kind value now)
  | close now =>
      refine (live_flush .close).trans ?_
      unfold Coordinator.mark
      split_ifs <;> exact Function.update_eq_self _ _
  | timer =>
      unfold step
      split_ifs
      · exact live_flush .timer
      · rfl
  | written => exact live_written
  | failed left =>
      exact Coordinator.failed_rule (P := fun d => d.live = c.live) left rfl fun _ _ _ _ _ => rfl
  | settle => exact Coordinator.settle_rule (P := fun d => d.live = c.live) rfl fun _ _ => rfl
  | resume index => exact live_resumeAt index

theorem Due.not_mark {task : Task α} (h : Due c task) : ∀ kind value now, task ≠ .mark kind value now := by
  rintro kind value now rfl
  cases h

theorem Due.not_close {task : Task α} (h : Due c task) : ∀ now, task ≠ .close now := by
  rintro now rfl
  cases h

/-- With no task of its own left, nothing is in flight and no flush goes on. -/
theorem quiet_idle (h : Quiet Due c) : c.timer = false ∧ c.inFlight = none ∧ c.resumed = [] := by
  refine ⟨?_, ?_, ?_⟩
  · have htimer : ¬ c.timer = true := h .timer
    exact Bool.eq_false_iff.mpr htimer
  · have hbusy : ¬ c.Busy := h .written
    have hsettled : ¬ ∃ ok, c.inFlight = some (.settled ok) := h .settle
    cases hflight : c.inFlight with
    | none => rfl
    | some drain =>
        cases drain with
        | writing batch kind snapshot rest =>
            exact absurd (Coordinator.busy_iff.mpr ⟨batch, kind, snapshot, rest, hflight⟩) hbusy
        | settled ok => exact absurd ⟨ok, hflight⟩ hsettled
  · have hresume : ¬ 0 < c.resumed.length := h (.resume 0)
    exact List.eq_nil_of_length_eq_zero (Nat.eq_zero_of_not_pos hresume)

/-- After the close no data changes, and it is not called again. -/
def Closing (tasks : List (Task α)) : Prop :=
  ∀ task ∈ tasks, (∀ kind value now, task ≠ .mark kind value now) ∧ ∀ now, task ≠ .close now

/-- A drain that succeeded left nothing dirty, and nothing became dirty since. The one
close is awaiting a drain, goes on after it, or ended. -/
structure Ending (c : Coordinator α) : Prop where
  clean : c.inFlight = some (.settled true) ∨ (∃ caller, (caller, true) ∈ c.resumed) ∨
    true ∈ c.closed → c.dirtyKinds = [] ∧ ¬ c.Busy
  flying : c.waiting ≠ [] → c.inFlight ≠ none
  closes : c.waiting.count .close + (c.resumed.map Prod.fst).count .close + c.closed.length = 1

/-- Once a drain takes a batch, no earlier one had left all clean. -/
theorem Ending.of_dirty (h : Ending c) (hdirty : ¬ (c.dirtyKinds = [] ∧ ¬ c.Busy)) :
    ¬ ((∃ caller, (caller, true) ∈ c.resumed) ∨ true ∈ c.closed) :=
  fun hended => hdirty (h.clean (Or.inr hended))

theorem ending_drain
    (hended : c.dirtyKinds ≠ [] → ¬ ((∃ caller, (caller, true) ∈ c.resumed) ∨ true ∈ c.closed))
    (hcloses : c.waiting.count .close + (c.resumed.map Prod.fst).count .close + c.closed.length = 1) :
    Ending c.drain := by
  obtain ⟨hwaiting, hresumed, -, hclosed, -⟩ := calls_drain (c := c)
  constructor
  · rw [hresumed, hclosed]
    intro hclean
    cases hdirty : c.dirtyKinds with
    | nil =>
        rw [Coordinator.drain_of_nil hdirty]
        exact ⟨hdirty, id⟩
    | cons kind rest =>
        rw [Coordinator.drain_of_cons hdirty] at hclean
        have hfalse := hended (by rw [hdirty]; exact List.cons_ne_nil kind rest)
        cases hclean with
        | inl hsettled => cases hsettled
        | inr hold => exact absurd hold hfalse
  · exact fun _ => inFlight_drain
  · rw [hwaiting, hresumed, hclosed]
    exact hcloses

theorem Ending.flush (h : Ending c) : Ending (c.flush .timer) := by
  have hcloses : (c.waiting ++ [Caller.timer]).count .close + (c.resumed.map Prod.fst).count .close +
      c.closed.length = 1 := by
    have hsame : (c.waiting ++ [Caller.timer]).count .close = c.waiting.count .close := by
      simp [List.count_append]
    rw [hsame]
    exact h.closes
  refine Coordinator.flush_rule (P := Ending) .timer ?_ ?_ ?_
  · intro hflight
    exact ⟨h.clean, fun _ => hflight, hcloses⟩
  · intro _ _
    exact ⟨h.clean, h.flying, h.closes⟩
  · intro _ hdirty
    exact ending_drain (fun _ => h.of_dirty fun hclean => hdirty hclean.1) hcloses

/-- While a batch is written, no earlier drain had left all clean. -/
theorem Ending.of_writing (h : Ending c) {batch rest : List Kind} {kind : Kind} {snapshot : α}
    (hflight : c.inFlight = some (.writing batch kind snapshot rest)) :
    ¬ ((∃ caller, (caller, true) ∈ c.resumed) ∨ true ∈ c.closed) :=
  h.of_dirty fun hclean =>
    hclean.2 (Coordinator.busy_iff.mpr ⟨batch, kind, snapshot, rest, hflight⟩)

theorem Ending.written (h : Ending c) : Ending c.written := by
  refine Coordinator.written_rule (P := Ending) (fun _ => h) ?_ ?_
  · intro batch kind snapshot hflight
    exact ending_drain (fun _ => h.of_writing hflight) h.closes
  · intro batch kind snapshot next rest hflight
    constructor
    · intro hclean
      cases hclean with
      | inl hsettled => cases hsettled
      | inr hold => exact absurd hold (h.of_writing hflight)
    · exact fun _ => Option.some_ne_none _
    · exact h.closes

theorem Ending.failed (h : Ending c) (left : α) : Ending (c.failed left) := by
  refine Coordinator.failed_rule (P := Ending) left h ?_
  intro batch kind snapshot rest hflight
  constructor
  · intro hclean
    cases hclean with
    | inl hsettled => cases hsettled
    | inr hold => exact absurd hold (h.of_writing hflight)
  · exact fun _ => Option.some_ne_none _
  · exact h.closes

theorem Ending.settle (h : Ending c) : Ending c.settle := by
  refine Coordinator.settle_rule (P := Ending) h ?_
  intro ok hflight
  constructor
  · intro hclean
    have hold : c.dirtyKinds = [] ∧ ¬ c.Busy := by
      apply h.clean
      cases hclean with
      | inl hnone => cases hnone
      | inr hended =>
          cases hended with
          | inr hclosed => exact Or.inr (Or.inr hclosed)
          | inl hresumed =>
              obtain ⟨caller, hmem⟩ := hresumed
              cases List.mem_append.mp hmem with
              | inl hmem => exact Or.inr (Or.inl ⟨caller, hmem⟩)
              | inr hmem =>
                  obtain ⟨other, -, hsame⟩ := List.mem_map.mp hmem
                  cases hsame
                  exact Or.inl hflight
    exact ⟨hold.1, id⟩
  · exact fun hne => absurd rfl hne
  · have hcount : ((c.resumed ++ c.waiting.map fun caller => (caller, ok)).map Prod.fst).count .close =
        (c.resumed.map Prod.fst).count .close + c.waiting.count .close := by
      rw [List.map_append, List.count_append, List.map_map]
      exact congrArg _ (congrArg _ (List.map_id c.waiting))
    have hcloses := h.closes
    show 0 + _ + c.closed.length = 1
    rw [hcount]
    omega

theorem count_eraseIdx {flushes : List (Caller × Bool)} {index : ℕ} {caller : Caller} {ok : Bool}
    (h : flushes[index]? = some (caller, ok)) :
    (flushes.map Prod.fst).count .close =
      ((flushes.eraseIdx index).map Prod.fst).count .close + [caller].count .close := by
  obtain ⟨hlt, hget⟩ := List.getElem?_eq_some_iff.mp h
  have hperm := (List.getElem_cons_eraseIdx_perm hlt).map Prod.fst
  rw [hget, List.map_cons] at hperm
  rw [← hperm.count_eq, List.count_cons, List.count_singleton]

theorem ending_answer {caller : Caller} {ok : Bool}
    (hclean : c.inFlight = some (.settled true) ∨ (∃ caller, (caller, true) ∈ c.resumed) ∨
      true ∈ c.closed ∨ ok = true → c.dirtyKinds = [] ∧ ¬ c.Busy)
    (hflying : c.waiting ≠ [] → c.inFlight ≠ none)
    (hcloses : c.waiting.count .close + ((c.resumed.map Prod.fst).count .close +
      [caller].count .close) + c.closed.length = 1) : Ending (c.answer caller ok) := by
  have hkept : c.inFlight = some (.settled true) ∨ (∃ caller, (caller, true) ∈ c.resumed) ∨
      true ∈ c.closed → c.dirtyKinds = [] ∧ ¬ c.Busy := by
    intro hended
    apply hclean
    tauto
  cases caller with
  | timer => cases ok <;> exact ⟨hkept, hflying, hcloses⟩
  | close =>
      constructor
      · intro hended
        apply hclean
        simp only [Coordinator.answer, List.mem_append, List.mem_singleton] at hended
        tauto
      · exact hflying
      · have hone : [Caller.close].count .close = 1 := rfl
        simp only [Coordinator.answer, List.length_append, List.length_singleton]
        omega

theorem Ending.resumeAt (h : Ending c) (index : ℕ) : Ending (c.resumeAt index) := by
  refine Coordinator.resumeAt_rule (P := Ending) index (fun _ => h) ?_ ?_
  · -- What goes on after a drain that succeeded finds nothing dirty.
    intro caller hresumed hdirty
    have hmem : (caller, true) ∈ c.resumed := List.mem_of_getElem? hresumed
    exact absurd (h.clean (Or.inr (Or.inl ⟨caller, hmem⟩))).1 hdirty
  · intro caller ok hresumed _
    have hmem : (caller, ok) ∈ c.resumed := List.mem_of_getElem? hresumed
    have hcloses := h.closes
    rw [count_eraseIdx hresumed] at hcloses
    refine ending_answer ?_ h.flying hcloses
    intro hended
    apply h.clean
    rcases hended with hsettled | ⟨other, hrest⟩ | hclosed | rfl
    · exact Or.inl hsettled
    · exact Or.inr (Or.inl ⟨other, List.mem_of_mem_eraseIdx hrest⟩)
    · exact Or.inr (Or.inr hclosed)
    · exact Or.inr (Or.inl ⟨caller, hmem⟩)

theorem ending_step (h : Ending c) {task : Task α}
    (hclosing : (∀ kind value now, task ≠ .mark kind value now) ∧ ∀ now, task ≠ .close now) :
    Ending (step settings task c) := by
  cases task with
  | mark kind value now => exact absurd rfl (hclosing.1 kind value now)
  | close now => exact absurd rfl (hclosing.2 now)
  | timer =>
      unfold step
      split_ifs
      · exact h.flush
      · exact h
  | written => exact h.written
  | failed left => exact h.failed left
  | settle => exact h.settle
  | resume index => exact h.resumeAt index

/-- No drain failed since the close. -/
structure Unfailed (c : Coordinator α) : Prop where
  inFlight : c.inFlight ≠ some (.settled false)
  resumed : ∀ flush ∈ c.resumed, flush.2 = true
  closed : ∀ ok ∈ c.closed, ok = true

theorem unfailed_drain (hresumed : ∀ flush ∈ c.resumed, flush.2 = true)
    (hclosed : ∀ ok ∈ c.closed, ok = true) : Unfailed c.drain := by
  obtain ⟨-, hresumedSame, -, hclosedSame, -⟩ := calls_drain (c := c)
  constructor
  · cases hdirty : c.dirtyKinds with
    | nil =>
        rw [Coordinator.drain_of_nil hdirty]
        simp
    | cons kind rest =>
        rw [Coordinator.drain_of_cons hdirty]
        simp
  · rw [hresumedSame]
    exact hresumed
  · rw [hclosedSame]
    exact hclosed

theorem Unfailed.answer (h : Unfailed c) (caller : Caller) : Unfailed (c.answer caller true) := by
  cases caller with
  | timer => exact h
  | close =>
      refine ⟨h.inFlight, h.resumed, ?_⟩
      intro ok hmem
      cases List.mem_append.mp hmem with
      | inl hold => exact h.closed ok hold
      | inr hnew => exact List.mem_singleton.mp hnew

theorem Unfailed.flush (h : Unfailed c) (caller : Caller) : Unfailed (c.flush caller) := by
  have hafter : Unfailed { c with timer := false } := ⟨h.inFlight, h.resumed, h.closed⟩
  refine Coordinator.flush_rule (P := Unfailed) caller ?_ ?_ ?_
  · exact fun _ => ⟨h.inFlight, h.resumed, h.closed⟩
  · exact fun _ _ => hafter.answer caller
  · exact fun _ _ => unfailed_drain h.resumed h.closed

theorem Unfailed.written (h : Unfailed c) : Unfailed c.written := by
  refine Coordinator.written_rule (P := Unfailed) (fun _ => h) ?_ ?_
  · exact fun _ _ _ _ => unfailed_drain h.resumed h.closed
  · exact fun _ _ _ _ _ _ => ⟨by simp, h.resumed, h.closed⟩

theorem Unfailed.settle (h : Unfailed c) : Unfailed c.settle := by
  refine Coordinator.settle_rule (P := Unfailed) h ?_
  intro ok hflight
  have hok : ok = true := by
    cases ok with
    | true => rfl
    | false => exact absurd hflight h.inFlight
  refine ⟨by simp, ?_, h.closed⟩
  intro flush hmem
  cases List.mem_append.mp hmem with
  | inl hold => exact h.resumed flush hold
  | inr hnew =>
      obtain ⟨caller, -, rfl⟩ := List.mem_map.mp hnew
      exact hok

theorem Unfailed.resumeAt (h : Unfailed c) (index : ℕ) : Unfailed (c.resumeAt index) := by
  have hrest : Unfailed { c with resumed := c.resumed.eraseIdx index } :=
    ⟨h.inFlight, fun other hmem => h.resumed other (List.mem_of_mem_eraseIdx hmem), h.closed⟩
  refine Coordinator.resumeAt_rule (P := Unfailed) index (fun _ => h) ?_ ?_
  · exact fun caller _ _ => hrest.flush caller
  · intro caller ok hresumed _
    have hok : ok = true := h.resumed (caller, ok) (List.mem_of_getElem? hresumed)
    rw [hok]
    exact hrest.answer caller

theorem unfailed_step (h : Unfailed c) {task : Task α}
    (hclosing : (∀ kind value now, task ≠ .mark kind value now) ∧ ∀ now, task ≠ .close now)
    (hwrites : ∀ left, task ≠ .failed left) : Unfailed (step settings task c) := by
  cases task with
  | mark kind value now => exact absurd rfl (hclosing.1 kind value now)
  | close now => exact absurd rfl (hclosing.2 now)
  | failed left => exact absurd rfl (hwrites left)
  | timer =>
      unfold step
      split_ifs
      · exact h.flush .timer
      · exact h
  | written => exact h.written
  | settle => exact h.settle
  | resume index => exact h.resumeAt index

/-- A close called as a task of its own, when no flush is about to go on. -/
def Resting (c : Coordinator α) : Prop :=
  c.resumed = [] ∧ ∀ ok, c.inFlight ≠ some (.settled ok)

theorem ending_flush (hdirty : c.dirtyKinds ≠ []) (hresting : Resting c) (hclosed : c.closed = [])
    (hwaiting : ∀ caller ∈ c.waiting, caller = .timer) :
    Ending (c.flush .close) ∧ Unfailed (c.flush .close) := by
  have hcloses : (c.waiting ++ [Caller.close]).count .close + (c.resumed.map Prod.fst).count .close +
      c.closed.length = 1 := by
    have hnone : c.waiting.count .close = 0 := by
      rw [List.count_eq_zero]
      intro hmem
      cases hwaiting _ hmem
    rw [List.count_append, hnone, hresting.1, hclosed]
    rfl
  have hresumedOk : ∀ flush ∈ c.resumed, flush.2 = true := by simp [hresting.1]
  have hclosedOk : ∀ ok ∈ c.closed, ok = true := by simp [hclosed]
  have hended : ¬ ((∃ caller, (caller, true) ∈ c.resumed) ∨ true ∈ c.closed) := by
    simp [hresting.1, hclosed]
  refine Coordinator.flush_rule (P := fun d => Ending d ∧ Unfailed d) .close ?_ ?_ ?_
  · intro hflight
    refine ⟨⟨?_, fun _ => hflight, hcloses⟩, hresting.2 false, hresumedOk, hclosedOk⟩
    intro hclean
    cases hclean with
    | inl hsettled => exact absurd hsettled (hresting.2 true)
    | inr hold => exact absurd hold hended
  · intro _ hclean
    exact absurd hclean hdirty
  · intro _ _
    exact ⟨ending_drain (fun _ => hended) hcloses, unfailed_drain hresumedOk hclosedOk⟩

theorem ending_close (h : Watched c) (hresting : Resting c) (now : ℕ) :
    Ending (c.close settings now) ∧ Unfailed (c.close settings now) :=
  ending_flush (add_ne_nil .history c.dirtyKinds) hresting h.closed h.waiting

end

end Wardx.PersistenceCoordinator
