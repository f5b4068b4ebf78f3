import Wardx.Lib.Progress
import Mathlib.Data.List.Induction
import Mathlib.Tactic.Tauto

/-!
# The persistence coordinator

Data that changed is marked dirty by its kind, and a timer flushes what is dirty.
One drain is in flight at a time: it takes the dirty kinds as a batch, writes
them one after another, and goes on while more became dirty. A flush that finds
a drain in flight waits for it and looks again.

The tasks of the event loop are steps of their own: a change and its mark, the
timer, the end of a write, the drain's promise, and each flush that waited for
it. A write takes its snapshot when it starts and is on disk when it ends; marks
may come between. One that fails may leave anything on disk.
-/
namespace Wardx.PersistenceCoordinator

open Lib

inductive Kind | aggregateWindows | experimentStats | logStats | history | sqliteMaintenance
deriving DecidableEq, Repr

/-- Who called a flush: the timer schedules another when it fails. -/
inductive Caller | timer | close
deriving DecidableEq, Repr

variable {α : Type*}

/-- `_drain`: the kind being written and the rest of its batch, or how it ended. -/
inductive Drain (α : Type*)
  | writing (batch : List Kind) (kind : Kind) (snapshot : α) (rest : List Kind)
  | settled (ok : Bool)

structure Coordinator (α : Type*) where
  dirtyKinds : List Kind
  dirtySince : Option ℕ
  writeHealthy : Bool
  timer : Bool
  inFlight : Option (Drain α)
  /-- The flushes that await the drain in flight. -/
  waiting : List Caller
  /-- The flushes whose drain ended, and whether it succeeded. -/
  resumed : List (Caller × Bool)
  /-- How the calls of `close` ended. -/
  closed : List Bool
  live : Kind → α
  disk : Kind → α

structure PersistenceSettings where
  /-- The file kinds live beside the configuration file. -/
  configPath : Bool
deriving DecidableEq, Repr

/-- The kinds that `mark` takes. -/
def PersistenceSettings.tracks (settings : PersistenceSettings) (kind : Kind) : Bool :=
  kind = .history || kind = .sqliteMaintenance || settings.configPath

/-- `Set.add`. -/
def add (kind : Kind) (kinds : List Kind) : List Kind :=
  if kind ∈ kinds then kinds else kinds ++ [kind]

namespace Coordinator

/-- `_schedule`. -/
def schedule (c : Coordinator α) : Coordinator α := { c with timer := true }

/-- `mark`, after the data took a new value. -/
def mark (settings : PersistenceSettings) (kind : Kind) (value : α) (now : ℕ)
    (c : Coordinator α) : Coordinator α :=
  let changed := { c with live := Function.update c.live kind value }
  if settings.tracks kind then
    schedule
      { changed with
        dirtySince := some (changed.dirtySince.getD now)
        dirtyKinds := add kind changed.dirtyKinds }
  else changed

/-- The loop of `_drain` where it looks for more: `_write` takes its snapshot at
once. -/
def drain (c : Coordinator α) : Coordinator α :=
  match c.dirtyKinds with
  | [] =>
      { c with
        dirtySince := none
        writeHealthy := true
        inFlight := some (.settled true) }
  | kind :: rest =>
      { c with
        dirtyKinds := []
        inFlight := some (.writing (kind :: rest) kind (c.live kind) rest) }

/-- A flush returns to its caller. -/
def answer (caller : Caller) (ok : Bool) (c : Coordinator α) : Coordinator α :=
  match caller, ok with
  | .timer, true => c
  | .timer, false => c.schedule
  | .close, ok => { c with closed := c.closed ++ [ok] }

/-- `flush`, to where it awaits the drain. -/
def flush (caller : Caller) (c : Coordinator α) : Coordinator α :=
  match c.inFlight with
  | some _ => { c with timer := false, waiting := c.waiting ++ [caller] }
  | none =>
      if c.dirtyKinds = [] then answer caller true { c with timer := false }
      else drain { c with timer := false, waiting := c.waiting ++ [caller] }

/-- The write in flight succeeds. -/
def written (c : Coordinator α) : Coordinator α :=
  match c.inFlight with
  | some (.writing batch kind snapshot rest) =>
      let stored := { c with disk := Function.update c.disk kind snapshot }
      match rest with
      | [] => drain stored
      | next :: rest =>
          { stored with inFlight := some (.writing batch next (stored.live next) rest) }
  | _ => c

/-- The write in flight throws: its whole batch is dirty again. -/
def failed (left : α) (c : Coordinator α) : Coordinator α :=
  match c.inFlight with
  | some (.writing batch kind _ _) =>
      { c with
        disk := Function.update c.disk kind left
        writeHealthy := false
        dirtyKinds := batch.foldl (fun kinds kind => add kind kinds) c.dirtyKinds
        inFlight := some (.settled false) }
  | _ => c

/-- The `finally` of the drain, which settles the promise the flushes await. -/
def settle (c : Coordinator α) : Coordinator α :=
  match c.inFlight with
  | some (.settled ok) =>
      { c with
        inFlight := none
        waiting := []
        resumed := c.resumed ++ c.waiting.map fun caller => (caller, ok) }
  | _ => c

/-- A flush goes on after its drain: it flushes again while kinds are dirty. -/
def resume (caller : Caller) (ok : Bool) (c : Coordinator α) : Coordinator α :=
  if ok = true ∧ c.dirtyKinds ≠ [] then c.flush caller else c.answer caller ok

/-- The flush at the index of those whose drain ended goes on. -/
def resumeAt (index : ℕ) (c : Coordinator α) : Coordinator α :=
  match c.resumed[index]? with
  | some (caller, ok) => resume caller ok { c with resumed := c.resumed.eraseIdx index }
  | none => c

/-- `close`, to where it awaits its flush. -/
def close (settings : PersistenceSettings) (now : ℕ) (c : Coordinator α) : Coordinator α :=
  (c.mark settings .history (c.live .history) now).flush .close

/-- `readiness`: its lag. -/
def lagMs (now : ℕ) (c : Coordinator α) : ℕ :=
  match c.dirtySince with
  | none => 0
  | some since => now - since

end Coordinator

/-- The coordinator before its constructor marks the history. -/
def started (stored : Kind → α) : Coordinator α where
  dirtyKinds := []
  dirtySince := none
  writeHealthy := true
  timer := false
  inFlight := none
  waiting := []
  resumed := []
  closed := []
  live := stored
  disk := stored

inductive Task (α : Type*)
  | mark (kind : Kind) (value : α) (now : ℕ)
  | close (now : ℕ)
  | timer
  | written
  | failed (left : α)
  | settle
  | resume (index : ℕ)

def step (settings : PersistenceSettings) (task : Task α) (c : Coordinator α) : Coordinator α :=
  match task with
  | .mark kind value now => c.mark settings kind value now
  | .close now => c.close settings now
  | .timer => if c.timer then c.flush .timer else c
  | .written => c.written
  | .failed left => c.failed left
  | .settle => c.settle
  | .resume index => c.resumeAt index

/-! ## What is not on disk is held -/

section
variable {settings : PersistenceSettings} {c : Coordinator α}

namespace Coordinator

/-- The drain in flight is writing the kind or comes to it in its batch. -/
def Writing (c : Coordinator α) (kind : Kind) : Prop :=
  match c.inFlight with
  | some (.writing _ current _ rest) => kind = current ∨ kind ∈ rest
  | _ => False

def Busy (c : Coordinator α) : Prop :=
  match c.inFlight with
  | some (.writing _ _ _ _) => True
  | _ => False

end Coordinator

namespace Coordinator

theorem drain_of_nil (h : c.dirtyKinds = []) :
    c.drain =
      { c with
        dirtySince := none
        writeHealthy := true
        inFlight := some (.settled true) } := by
  unfold drain
  rw [h]

theorem drain_of_cons {kind : Kind} {rest : List Kind} (h : c.dirtyKinds = kind :: rest) :
    c.drain =
      { c with
        dirtyKinds := []
        inFlight := some (.writing (kind :: rest) kind (c.live kind) rest) } := by
  unfold drain
  rw [h]

theorem flush_of_flight (h : c.inFlight ≠ none) (caller : Caller) :
    c.flush caller = { c with timer := false, waiting := c.waiting ++ [caller] } := by
  unfold flush
  cases hflight : c.inFlight with
  | none => exact absurd hflight h
  | some drain => rfl

theorem flush_of_clean (h : c.inFlight = none) (hclean : c.dirtyKinds = []) (caller : Caller) :
    c.flush caller = answer caller true { c with timer := false } := by
  unfold flush
  rw [h]
  exact if_pos hclean

theorem flush_of_dirty (h : c.inFlight = none) (hdirty : c.dirtyKinds ≠ []) (caller : Caller) :
    c.flush caller = drain { c with timer := false, waiting := c.waiting ++ [caller] } := by
  unfold flush
  rw [h]
  exact if_neg hdirty

theorem written_of_last {batch : List Kind} {kind : Kind} {snapshot : α}
    (h : c.inFlight = some (.writing batch kind snapshot [])) :
    c.written = drain { c with disk := Function.update c.disk kind snapshot } := by
  unfold written
  rw [h]

theorem written_of_cons {batch rest : List Kind} {kind next : Kind} {snapshot : α}
    (h : c.inFlight = some (.writing batch kind snapshot (next :: rest))) :
    c.written =
      { c with
        disk := Function.update c.disk kind snapshot
        inFlight := some (.writing batch next (c.live next) rest) } := by
  unfold written
  rw [h]

theorem failed_of_writing {batch rest : List Kind} {kind : Kind} {snapshot : α}
    (h : c.inFlight = some (.writing batch kind snapshot rest)) (left : α) :
    c.failed left =
      { c with
        disk := Function.update c.disk kind left
        writeHealthy := false
        dirtyKinds := batch.foldl (fun kinds kind => add kind kinds) c.dirtyKinds
        inFlight := some (.settled false) } := by
  unfold failed
  rw [h]

theorem busy_iff : c.Busy ↔ ∃ batch kind snapshot rest,
    c.inFlight = some (.writing batch kind snapshot rest) := by
  unfold Busy
  cases c.inFlight with
  | none => simp
  | some drain => cases drain <;> simp

theorem not_busy_of_settled {ok : Bool} (h : c.inFlight = some (.settled ok)) : ¬ c.Busy := by
  unfold Busy
  rw [h]
  exact id

theorem not_busy_of_none (h : c.inFlight = none) : ¬ c.Busy := by
  unfold Busy
  rw [h]
  exact id

theorem not_writing_of_idle (h : ¬ c.Busy) (kind : Kind) : ¬ c.Writing kind := by
  unfold Busy at h
  unfold Writing
  cases hflight : c.inFlight with
  | none => exact id
  | some drain =>
      cases drain with
      | settled => exact id
      | writing => simp [hflight] at h

theorem written_of_idle (h : ¬ c.Busy) : c.written = c := by
  unfold Busy at h
  unfold written
  cases hflight : c.inFlight with
  | none => rfl
  | some drain =>
      cases drain with
      | settled => rfl
      | writing => simp [hflight] at h

theorem failed_of_idle (h : ¬ c.Busy) (left : α) : c.failed left = c := by
  unfold Busy at h
  unfold failed
  cases hflight : c.inFlight with
  | none => rfl
  | some drain =>
      cases drain with
      | settled => rfl
      | writing => simp [hflight] at h

theorem settle_of_unsettled (h : ∀ ok, c.inFlight ≠ some (.settled ok)) : c.settle = c := by
  unfold settle
  cases hflight : c.inFlight with
  | none => rfl
  | some drain =>
      cases drain with
      | settled ok => exact absurd hflight (h ok)
      | writing => rfl

theorem settle_of_settled {ok : Bool} (h : c.inFlight = some (.settled ok)) :
    c.settle =
      { c with
        inFlight := none
        waiting := []
        resumed := c.resumed ++ c.waiting.map fun caller => (caller, ok) } := by
  unfold settle
  rw [h]

theorem resumeAt_of_some {index : ℕ} {caller : Caller} {ok : Bool}
    (h : c.resumed[index]? = some (caller, ok)) :
    c.resumeAt index = resume caller ok { c with resumed := c.resumed.eraseIdx index } := by
  unfold resumeAt
  rw [h]

theorem resumeAt_of_none {index : ℕ} (h : c.resumed[index]? = none) : c.resumeAt index = c := by
  unfold resumeAt
  rw [h]

/-- A flush joins the drain in flight, answers at once or starts a drain. -/
theorem flush_rule {P : Coordinator α → Prop} (caller : Caller)
    (hjoin : c.inFlight ≠ none → P { c with timer := false, waiting := c.waiting ++ [caller] })
    (hclean : c.inFlight = none → c.dirtyKinds = [] → P (answer caller true { c with timer := false }))
    (hdirty : c.inFlight = none → c.dirtyKinds ≠ [] →
      P (drain { c with timer := false, waiting := c.waiting ++ [caller] })) : P (c.flush caller) := by
  by_cases hflight : c.inFlight = none
  · by_cases hkinds : c.dirtyKinds = []
    · rw [flush_of_clean hflight hkinds]
      exact hclean hflight hkinds
    · rw [flush_of_dirty hflight hkinds]
      exact hdirty hflight hkinds
  · rw [flush_of_flight hflight]
    exact hjoin hflight

/-- After a write the drain looks for more, or goes on with its batch. -/
theorem written_rule {P : Coordinator α → Prop} (hidle : ¬ c.Busy → P c)
    (hlast : ∀ batch kind snapshot, c.inFlight = some (.writing batch kind snapshot []) →
      P (drain { c with disk := Function.update c.disk kind snapshot }))
    (hnext : ∀ batch kind snapshot next rest,
      c.inFlight = some (.writing batch kind snapshot (next :: rest)) →
        P { c with
          disk := Function.update c.disk kind snapshot
          inFlight := some (.writing batch next (c.live next) rest) }) : P c.written := by
  by_cases hbusy : c.Busy
  · obtain ⟨batch, kind, snapshot, rest, hflight⟩ := busy_iff.mp hbusy
    cases rest with
    | nil =>
        rw [written_of_last hflight]
        exact hlast batch kind snapshot hflight
    | cons next rest =>
        rw [written_of_cons hflight]
        exact hnext batch kind snapshot next rest hflight
  · rw [written_of_idle hbusy]
    exact hidle hbusy

theorem failed_rule {P : Coordinator α → Prop} (left : α) (hidle : P c)
    (hwriting : ∀ batch kind snapshot rest, c.inFlight = some (.writing batch kind snapshot rest) →
      P { c with
        disk := Function.update c.disk kind left
        writeHealthy := false
        dirtyKinds := batch.foldl (fun kinds kind => add kind kinds) c.dirtyKinds
        inFlight := some (.settled false) }) : P (c.failed left) := by
  by_cases hbusy : c.Busy
  · obtain ⟨batch, kind, snapshot, rest, hflight⟩ := busy_iff.mp hbusy
    rw [failed_of_writing hflight]
    exact hwriting batch kind snapshot rest hflight
  · rw [failed_of_idle hbusy]
    exact hidle

theorem settle_rule {P : Coordinator α → Prop} (hunsettled : P c)
    (hsettled : ∀ ok, c.inFlight = some (.settled ok) →
      P { c with
        inFlight := none
        waiting := []
        resumed := c.resumed ++ c.waiting.map fun caller => (caller, ok) }) : P c.settle := by
  by_cases h : ∃ ok, c.inFlight = some (.settled ok)
  · obtain ⟨ok, hflight⟩ := h
    rw [settle_of_settled hflight]
    exact hsettled ok hflight
  · rw [settle_of_unsettled fun ok hflight => h ⟨ok, hflight⟩]
    exact hunsettled

/-- A flush that goes on flushes again while kinds are dirty, and returns otherwise. -/
theorem resumeAt_rule {P : Coordinator α → Prop} (index : ℕ)
    (hnone : c.resumed[index]? = none → P c)
    (hagain : ∀ caller, c.resumed[index]? = some (caller, true) → c.dirtyKinds ≠ [] →
      P (flush caller { c with resumed := c.resumed.eraseIdx index }))
    (hreturns : ∀ caller ok, c.resumed[index]? = some (caller, ok) →
      (ok = true → c.dirtyKinds = []) →
        P (answer caller ok { c with resumed := c.resumed.eraseIdx index })) :
    P (c.resumeAt index) := by
  cases hresumed : c.resumed[index]? with
  | none =>
      rw [resumeAt_of_none hresumed]
      exact hnone hresumed
  | some flush =>
      obtain ⟨caller, ok⟩ := flush
      rw [resumeAt_of_some hresumed]
      unfold resume
      split_ifs with h
      · rw [h.1] at hresumed
        exact hagain caller hresumed h.2
      · exact hreturns caller ok hresumed fun hok => not_not.mp fun hdirty => h ⟨hok, hdirty⟩

end Coordinator

theorem mem_add {kind other : Kind} {kinds : List Kind} :
    other ∈ add kind kinds ↔ other ∈ kinds ∨ other = kind := by
  unfold add
  split_ifs with hmem
  · constructor
    · exact Or.inl
    · intro h
      cases h with
      | inl h => exact h
      | inr h => exact h ▸ hmem
  · simp

theorem add_ne_nil (kind : Kind) (kinds : List Kind) : add kind kinds ≠ [] :=
  List.ne_nil_of_mem (mem_add.mpr (Or.inr rfl))

theorem mem_addAll {other : Kind} (batch kinds : List Kind) :
    other ∈ batch.foldl (fun kinds kind => add kind kinds) kinds ↔ other ∈ kinds ∨ other ∈ batch := by
  induction batch generalizing kinds with
  | nil => simp
  | cons kind batch ih =>
      rw [List.foldl_cons, ih, mem_add, List.mem_cons, or_assoc]

/-- What differs from the disk is dirty or still to be written by the drain, and a
snapshot is the live data unless its kind is dirty again. The clock runs while
anything is held. -/
structure Accounted (settings : PersistenceSettings) (c : Coordinator α) : Prop where
  stored : ∀ kind, settings.tracks kind = true →
    c.disk kind = c.live kind ∨ kind ∈ c.dirtyKinds ∨ c.Writing kind
  batch : ∀ batch kind snapshot rest, c.inFlight = some (.writing batch kind snapshot rest) →
    kind ∈ batch ∧ ∀ other ∈ rest, other ∈ batch
  snapshot : ∀ batch kind snapshot rest, c.inFlight = some (.writing batch kind snapshot rest) →
    settings.tracks kind = true → snapshot = c.live kind ∨ kind ∈ c.dirtyKinds
  since : c.dirtySince = none ↔ c.dirtyKinds = [] ∧ ¬ c.Busy
  unhealthy : c.writeHealthy = false → c.dirtySince ≠ none

theorem accounted_started (stored : Kind → α) : Accounted settings (started stored) where
  stored _ _ := Or.inl rfl
  batch _ _ _ _ h := by cases h
  snapshot _ _ _ _ h := by cases h
  since := ⟨fun _ => ⟨rfl, id⟩, fun _ => rfl⟩
  unhealthy h := by cases h

/-- The fields the timer and the flushes live in say nothing of the data. -/
theorem Accounted.congr {d : Coordinator α} (h : Accounted settings c)
    (hdata : d.dirtyKinds = c.dirtyKinds ∧ d.dirtySince = c.dirtySince ∧
      d.writeHealthy = c.writeHealthy ∧ d.inFlight = c.inFlight ∧ d.live = c.live ∧
      d.disk = c.disk) : Accounted settings d := by
  obtain ⟨hdirty, hsince, hhealthy, hflight, hlive, hdisk⟩ := hdata
  have hwriting : ∀ kind, d.Writing kind ↔ c.Writing kind := by
    intro kind
    unfold Coordinator.Writing
    rw [hflight]
  have hbusy : d.Busy ↔ c.Busy := by
    unfold Coordinator.Busy
    rw [hflight]
  constructor
  · intro kind htracks
    rw [hdisk, hlive, hdirty, hwriting]
    exact h.stored kind htracks
  · rw [hflight]
    exact h.batch
  · rw [hflight, hlive, hdirty]
    exact h.snapshot
  · rw [hsince, hdirty, hbusy]
    exact h.since
  · rw [hhealthy, hsince]
    exact h.unhealthy

theorem Accounted.mark (h : Accounted settings c) (kind : Kind) (value : α) (now : ℕ) :
    Accounted settings (c.mark settings kind value now) := by
  unfold Coordinator.mark
  by_cases htracks : settings.tracks kind = true
  · rw [if_pos htracks]
    constructor
    · intro other hother
      by_cases hsame : other = kind
      · exact Or.inr (Or.inl (mem_add.mpr (Or.inr hsame)))
      · have hlive : Function.update c.live kind value other = c.live other :=
          Function.update_of_ne hsame ..
        show c.disk other = Function.update c.live kind value other ∨
          other ∈ add kind c.dirtyKinds ∨ c.Writing other
        rw [hlive, mem_add]
        have hstored := h.stored other hother
        tauto
    · exact h.batch
    · intro batch current snapshot rest hflight hcurrent
      show snapshot = Function.update c.live kind value current ∨ current ∈ add kind c.dirtyKinds
      by_cases hsame : current = kind
      · exact Or.inr (mem_add.mpr (Or.inr hsame))
      · rw [Function.update_of_ne hsame, mem_add]
        have hsnapshot := h.snapshot batch current snapshot rest hflight hcurrent
        tauto
    · constructor
      · intro hnone
        cases hnone
      · intro hnil
        exact absurd hnil.1 (add_ne_nil kind c.dirtyKinds)
    · intro _ hnone
      cases hnone
  · rw [if_neg htracks]
    have hlive : ∀ other, settings.tracks other = true →
        Function.update c.live kind value other = c.live other := by
      intro other hother
      refine Function.update_of_ne ?_ ..
      rintro rfl
      exact htracks hother
    constructor
    · intro other hother
      show c.disk other = Function.update c.live kind value other ∨ _
      rw [hlive other hother]
      exact h.stored other hother
    · exact h.batch
    · intro batch current snapshot rest hflight hcurrent
      show snapshot = Function.update c.live kind value current ∨ _
      rw [hlive current hcurrent]
      exact h.snapshot batch current snapshot rest hflight hcurrent
    · exact h.since
    · exact h.unhealthy

/-- A drain that looks for more takes on all that is dirty. -/
theorem accounted_drain
    (hstored : ∀ kind, settings.tracks kind = true → c.disk kind = c.live kind ∨ kind ∈ c.dirtyKinds)
    (hsince : c.dirtyKinds ≠ [] → c.dirtySince ≠ none)
    (hunhealthy : c.writeHealthy = false → c.dirtySince ≠ none) :
    Accounted settings c.drain := by
  cases hdirty : c.dirtyKinds with
  | nil =>
      rw [Coordinator.drain_of_nil hdirty]
      constructor
      · intro kind htracks
        have hkind := hstored kind htracks
        rw [hdirty] at hkind
        cases hkind with
        | inl hsame => exact Or.inl hsame
        | inr hmem => cases hmem
      · intro batch kind snapshot rest hflight
        cases hflight
      · intro batch kind snapshot rest hflight
        cases hflight
      · exact ⟨fun _ => ⟨hdirty, id⟩, fun _ => rfl⟩
      · intro hhealthy
        cases hhealthy
  | cons kind rest =>
      rw [Coordinator.drain_of_cons hdirty]
      rw [hdirty] at hstored hsince
      constructor
      · intro other hother
        have hkind := hstored other hother
        rw [List.mem_cons] at hkind
        exact hkind.imp_right Or.inr
      · intro batch current snapshot others hflight
        cases hflight
        exact ⟨List.mem_cons_self, fun other hother => List.mem_cons_of_mem _ hother⟩
      · intro batch current snapshot others hflight _
        cases hflight
        exact Or.inl rfl
      · constructor
        · intro hnone
          exact absurd hnone (hsince (List.cons_ne_nil kind rest))
        · intro hidle
          exact absurd trivial hidle.2
      · exact hunhealthy

theorem Accounted.answer (h : Accounted settings c) (caller : Caller) (ok : Bool) :
    Accounted settings (c.answer caller ok) := by
  cases caller with
  | timer =>
      cases ok with
      | true => exact h
      | false => exact h.congr ⟨rfl, rfl, rfl, rfl, rfl, rfl⟩
  | close => exact h.congr ⟨rfl, rfl, rfl, rfl, rfl, rfl⟩

theorem Accounted.flush (h : Accounted settings c) (caller : Caller) :
    Accounted settings (c.flush caller) := by
  refine Coordinator.flush_rule (P := Accounted settings) caller ?_ ?_ ?_
  · intro _
    exact h.congr ⟨rfl, rfl, rfl, rfl, rfl, rfl⟩
  · intro _ _
    have hafter : Accounted settings { c with timer := false } :=
      h.congr ⟨rfl, rfl, rfl, rfl, rfl, rfl⟩
    exact hafter.answer caller true
  · intro hflight hdirty
    have hunwritten : ∀ kind, ¬ c.Writing kind :=
      Coordinator.not_writing_of_idle (Coordinator.not_busy_of_none hflight)
    apply accounted_drain
    · intro kind htracks
      exact (h.stored kind htracks).imp_right fun hheld => hheld.resolve_right (hunwritten kind)
    · intro _ hnone
      exact hdirty (h.since.mp hnone).1
    · exact h.unhealthy

/-- A write under way keeps the clock running. -/
theorem Accounted.since_of_writing (h : Accounted settings c) {batch rest : List Kind} {kind : Kind}
    {snapshot : α} (hflight : c.inFlight = some (.writing batch kind snapshot rest)) :
    c.dirtySince ≠ none :=
  fun hnone => (h.since.mp hnone).2 (Coordinator.busy_iff.mpr ⟨batch, kind, snapshot, rest, hflight⟩)

/-- What was written is the live data, or its kind is dirty again. -/
theorem Accounted.stored_of_written (h : Accounted settings c) {batch rest : List Kind} {kind : Kind}
    {snapshot : α} (hflight : c.inFlight = some (.writing batch kind snapshot rest)) (other : Kind)
    (hother : settings.tracks other = true) :
    Function.update c.disk kind snapshot other = c.live other ∨
      other ∈ c.dirtyKinds ∨ other ∈ rest := by
  by_cases hsame : other = kind
  · rw [hsame] at hother ⊢
    rw [Function.update_self]
    exact (h.snapshot batch kind snapshot rest hflight hother).imp_right Or.inl
  · rw [Function.update_of_ne hsame]
    have hheld := h.stored other hother
    unfold Coordinator.Writing at hheld
    rw [hflight] at hheld
    tauto

theorem Accounted.written (h : Accounted settings c) : Accounted settings c.written := by
  refine Coordinator.written_rule (P := Accounted settings) (fun _ => h) ?_ ?_
  · intro batch kind snapshot hflight
    have hsince : c.dirtySince ≠ none := h.since_of_writing hflight
    apply accounted_drain
    · intro other hother
      simpa using h.stored_of_written hflight other hother
    · exact fun _ => hsince
    · exact fun _ => hsince
  · intro batch kind snapshot next rest hflight
    have hsince : c.dirtySince ≠ none := h.since_of_writing hflight
    have hbatch := h.batch batch kind snapshot (next :: rest) hflight
    constructor
    · intro other hother
      have hkind := h.stored_of_written hflight other hother
      rw [List.mem_cons] at hkind
      exact hkind
    · intro taken current taking others hnext
      cases hnext
      exact ⟨hbatch.2 _ List.mem_cons_self,
        fun other hother => hbatch.2 other (List.mem_cons_of_mem _ hother)⟩
    · intro taken current taking others hnext _
      cases hnext
      exact Or.inl rfl
    · exact ⟨fun hnone => absurd hnone hsince, fun hidle => absurd trivial hidle.2⟩
    · exact fun _ => hsince

theorem Accounted.failed (h : Accounted settings c) (left : α) : Accounted settings (c.failed left) := by
  refine Coordinator.failed_rule (P := Accounted settings) left h ?_
  intro batch kind snapshot rest hflight
  have hsince : c.dirtySince ≠ none := h.since_of_writing hflight
  obtain ⟨hkind, hrest⟩ := h.batch batch kind snapshot rest hflight
  constructor
  · intro other hother
    show Function.update c.disk kind left other = c.live other ∨
      other ∈ batch.foldl (fun kinds kind => add kind kinds) c.dirtyKinds ∨ False
    rw [mem_addAll, or_false]
    by_cases hsame : other = kind
    · exact Or.inr (Or.inr (hsame ▸ hkind))
    · rw [Function.update_of_ne hsame]
      have hheld := h.stored other hother
      unfold Coordinator.Writing at hheld
      rw [hflight] at hheld
      have hmem := hrest other
      tauto
  · intro taken current taking others hnext
    cases hnext
  · intro taken current taking others hnext
    cases hnext
  · constructor
    · intro hnone
      exact absurd hnone hsince
    · intro hidle
      have hmem : kind ∈ batch.foldl (fun kinds kind => add kind kinds) c.dirtyKinds :=
        (mem_addAll batch c.dirtyKinds).mpr (Or.inr hkind)
      exact absurd hidle.1 (List.ne_nil_of_mem hmem)
  · exact fun _ => hsince

theorem Accounted.settle (h : Accounted settings c) : Accounted settings c.settle := by
  refine Coordinator.settle_rule (P := Accounted settings) h ?_
  intro ok hflight
  have hidle : ¬ c.Busy := Coordinator.not_busy_of_settled hflight
  constructor
  · intro kind htracks
    exact (h.stored kind htracks).imp_right fun hheld =>
      Or.inl (hheld.resolve_right (Coordinator.not_writing_of_idle hidle kind))
  · intro batch kind snapshot rest hnext
    cases hnext
  · intro batch kind snapshot rest hnext
    cases hnext
  · exact ⟨fun hnone => ⟨(h.since.mp hnone).1, id⟩, fun hnil => h.since.mpr ⟨hnil.1, hidle⟩⟩
  · exact h.unhealthy

theorem Accounted.resumeAt (h : Accounted settings c) (index : ℕ) :
    Accounted settings (c.resumeAt index) := by
  have hrest : Accounted settings { c with resumed := c.resumed.eraseIdx index } :=
    h.congr ⟨rfl, rfl, rfl, rfl, rfl, rfl⟩
  refine Coordinator.resumeAt_rule (P := Accounted settings) index (fun _ => h) ?_ ?_
  · intro caller _ _
    exact hrest.flush caller
  · intro caller ok _ _
    exact hrest.answer caller ok

theorem accounted_step (h : Accounted settings c) (task : Task α) :
    Accounted settings (step settings task c) := by
  cases task with
  | mark kind value now => exact h.mark kind value now
  | close now => exact (h.mark .history (c.live .history) now).flush .close
  | timer =>
      unfold step
      split_ifs
      · exact h.flush .timer
      · exact h
  | written => exact h.written
  | failed left => exact h.failed left
  | settle => exact h.settle
  | resume index => exact h.resumeAt index

theorem accounted_run (settings : PersistenceSettings) (stored : Kind → α) (tasks : List (Task α)) :
    Accounted settings (run (step settings) (started stored) tasks) :=
  run_invariant_all (Accounted settings) (fun _ task h => accounted_step h task)
    (accounted_started stored) tasks

/-- With nothing dirty and no write under way, the disk holds the live data. -/
theorem Accounted.onDisk (h : Accounted settings c) (hdirty : c.dirtyKinds = [])
    (hidle : ¬ c.Busy) {kind : Kind} (htracks : settings.tracks kind = true) :
    c.disk kind = c.live kind := by
  cases h.stored kind htracks with
  | inl hsame => exact hsame
  | inr hheld =>
      rw [hdirty] at hheld
      cases hheld with
      | inl hmem => cases hmem
      | inr hwriting => exact absurd hwriting (Coordinator.not_writing_of_idle hidle kind)

/-! ## The lag -/

/-- When the task marked a kind. -/
def Task.time : Task α → Option ℕ
  | .mark _ _ now => some now
  | .close now => some now
  | _ => none

theorem since_drain : c.drain.dirtySince = none ∨ c.drain.dirtySince = c.dirtySince := by
  cases hdirty : c.dirtyKinds with
  | nil =>
      rw [Coordinator.drain_of_nil hdirty]
      exact Or.inl rfl
  | cons kind rest =>
      rw [Coordinator.drain_of_cons hdirty]
      exact Or.inr rfl

theorem since_answer (caller : Caller) (ok : Bool) :
    (c.answer caller ok).dirtySince = c.dirtySince := by
  cases caller <;> cases ok <;> rfl

theorem since_flush (caller : Caller) :
    (c.flush caller).dirtySince = none ∨ (c.flush caller).dirtySince = c.dirtySince := by
  refine Coordinator.flush_rule
    (P := fun d => d.dirtySince = none ∨ d.dirtySince = c.dirtySince) caller ?_ ?_ ?_
  · exact fun _ => Or.inr rfl
  · exact fun _ _ => Or.inr (since_answer caller true)
  · exact fun _ _ => since_drain

theorem since_resumeAt (index : ℕ) :
    (c.resumeAt index).dirtySince = none ∨ (c.resumeAt index).dirtySince = c.dirtySince := by
  refine Coordinator.resumeAt_rule
    (P := fun d => d.dirtySince = none ∨ d.dirtySince = c.dirtySince) index (fun _ => Or.inr rfl) ?_ ?_
  · exact fun caller _ _ => since_flush caller
  · exact fun caller ok _ _ => Or.inr (since_answer caller ok)

theorem since_written : c.written.dirtySince = none ∨ c.written.dirtySince = c.dirtySince := by
  refine Coordinator.written_rule
    (P := fun d => d.dirtySince = none ∨ d.dirtySince = c.dirtySince) (fun _ => Or.inr rfl) ?_ ?_
  · exact fun _ _ _ _ => since_drain
  · exact fun _ _ _ _ _ _ => Or.inr rfl

theorem since_failed (left : α) : (c.failed left).dirtySince = c.dirtySince :=
  Coordinator.failed_rule (P := fun d => d.dirtySince = c.dirtySince) left rfl fun _ _ _ _ _ => rfl

theorem since_settle : c.settle.dirtySince = c.dirtySince :=
  Coordinator.settle_rule (P := fun d => d.dirtySince = c.dirtySince) rfl fun _ _ => rfl

theorem since_mark {kind : Kind} {value : α} {now since : ℕ}
    (h : (c.mark settings kind value now).dirtySince = some since) :
    c.dirtySince = some since ∨ c.dirtySince = none ∧ now = since := by
  unfold Coordinator.mark at h
  split_ifs at h with htracks
  · cases hsince : c.dirtySince with
    | none =>
        have hnow : some (c.dirtySince.getD now) = some since := h
        rw [hsince] at hnow
        exact Or.inr ⟨rfl, Option.some_inj.mp hnow⟩
    | some first =>
        have hfirst : some (c.dirtySince.getD now) = some since := h
        rw [hsince] at hfirst
        exact Or.inl hfirst
  · exact Or.inl h

/-- The clock is started by a mark alone, and only when it stood. -/
theorem since_step {task : Task α} {since : ℕ}
    (h : (step settings task c).dirtySince = some since) :
    c.dirtySince = some since ∨ c.dirtySince = none ∧ task.time = some since := by
  have hkept : ∀ d : Coordinator α, (d.dirtySince = none ∨ d.dirtySince = c.dirtySince) →
      d.dirtySince = some since → c.dirtySince = some since := by
    intro d hd hsince
    cases hd with
    | inl hnone =>
        rw [hnone] at hsince
        cases hsince
    | inr hsame => exact hsame ▸ hsince
  cases task with
  | mark kind value now =>
      exact (since_mark h).imp_right fun hnow => ⟨hnow.1, congrArg some hnow.2⟩
  | close now =>
      have hmarked : (c.mark settings .history (c.live .history) now).dirtySince = some since := by
        cases since_flush (c := c.mark settings .history (c.live .history) now) .close with
        | inl hnone => exact absurd (hnone.symm.trans h) (by simp)
        | inr hsame => exact hsame.symm.trans h
      exact (since_mark hmarked).imp_right fun hnow => ⟨hnow.1, congrArg some hnow.2⟩
  | timer =>
      unfold step at h
      split_ifs at h
      · exact Or.inl (hkept _ (since_flush .timer) h)
      · exact Or.inl h
  | written => exact Or.inl (hkept _ since_written h)
  | failed left => exact Or.inl (hkept _ (Or.inr (since_failed left)) h)
  | settle => exact Or.inl (hkept _ (Or.inr since_settle) h)
  | resume index => exact Or.inl (hkept _ (since_resumeAt index) h)

theorem since_run (settings : PersistenceSettings) (stored : Kind → α) (tasks : List (Task α))
    {since : ℕ} (h : (run (step settings) (started stored) tasks).dirtySince = some since) :
    ∃ before task after, tasks = before ++ task :: after ∧ task.time = some since ∧
      (run (step settings) (started stored) before).dirtySince = none := by
  induction tasks using List.reverseRecOn with
  | nil => cases h
  | append_singleton tasks task ih =>
      rw [run_append] at h
      cases since_step h with
      | inl hkept =>
          obtain ⟨before, first, after, htasks, htime, hnone⟩ := ih hkept
          refine ⟨before, first, after ++ [task], ?_, htime, hnone⟩
          rw [htasks, List.append_assoc, List.cons_append]
      | inr hfirst => exact ⟨tasks, task, [], rfl, hfirst.2, hfirst.1⟩

end

end Wardx.PersistenceCoordinator
