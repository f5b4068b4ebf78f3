import Wardx.Json
import Wardx.Lib.Run
import Wardx.Lib.TopSelection
import Mathlib.Algebra.Order.Floor.Semiring
import Mathlib.Data.Rat.Floor

/-!
# The log buffer

A full buffer makes room for a log by overwriting, in place, the first entry of
the lowest level below its own. Both an entry that is overwritten and a log that
finds no such entry count as dropped. The JavaScript client takes a level by
name and a capacity that need not be an integer; the Swift client has a type of
levels.
-/
namespace Wardx.LogBuffer

open Lib

/-! ## Levels -/

inductive LogLevel | debug | info | warn | error
deriving DecidableEq, Repr

namespace LogLevel

/-- `LOG_RANK`, and the raw value of the Swift levels. -/
def rank : LogLevel → ℕ
  | .debug => 0
  | .info => 1
  | .warn => 2
  | .error => 3

def wire : LogLevel → String
  | .debug => "debug"
  | .info => "info"
  | .warn => "warn"
  | .error => "error"

/-- The level of an own property of `LOG_RANK`. -/
def named (level : String) : Option LogLevel :=
  [LogLevel.debug, .info, .warn, .error].find? fun known => known.wire = level

theorem rank_injective : Function.Injective rank := by
  intro a b h
  cases a <;> cases b <;> first | rfl | cases h

instance : LinearOrder LogLevel := LinearOrder.lift' rank rank_injective

theorem lt_iff (a b : LogLevel) : a < b ↔ a.rank < b.rank := Iff.rfl

theorem le_iff (a b : LogLevel) : a ≤ b ↔ a.rank ≤ b.rank := Iff.rfl

theorem named_wire (level : LogLevel) : named level.wire = some level := by
  cases level <;> decide

end LogLevel

/-! ## The buffer -/

structure LogEntry where
  time : ℤ
  level : LogLevel
  message : String
  /-- Null when the call gave none. -/
  attrs : Json
deriving DecidableEq

/-- A call of the log function; a message that is no text is `none`. -/
structure LogCall where
  time : ℤ
  level : String
  message : Option String
  attrs : Json

/-- The loop for the entry to overwrite, from position `i` on. -/
def victimFrom (i : ℕ) (victim : Option ℕ) (victimRank : ℕ) : List LogEntry → Option ℕ
  | [] => victim
  | entry :: rest =>
      if entry.level.rank < victimRank then victimFrom (i + 1) (some i) entry.level.rank rest
      else victimFrom (i + 1) victim victimRank rest

/-- What `push` does with a valid entry. -/
def place (max : ℚ) (entry : LogEntry) (buf : List LogEntry) : Bool × List LogEntry :=
  if (buf.length : ℚ) < max then (true, buf ++ [entry])
  else
    match victimFrom 0 none entry.level.rank buf with
    | none => (false, buf)
    | some victim => (false, buf.set victim entry)

/-- The checks of `push`. -/
def checkCall (call : LogCall) : Except String LogEntry :=
  match LogLevel.named call.level, call.message with
  | none, _ => .error ("invalid log level: " ++ call.level)
  | some _, none => .error "log message must be a non-empty string"
  | some level, some message =>
      if message = "" then .error "log message must be a non-empty string"
      else .ok ⟨call.time, level, message, call.attrs⟩

/-- The buffer and the drops the client counts. -/
structure Logs where
  buf : List LogEntry
  logsDropped : ℕ
deriving DecidableEq

def Logs.new : Logs := ⟨[], 0⟩

inductive LogEvent where
  | threw (message : String)
  | pushed (entry : LogEntry) (kept : Bool)
  | swapped (entries : List LogEntry) (logsDropped : ℕ)

inductive LogAction where
  | log (call : LogCall)
  /-- A snapshot swaps the buffer and takes the count. -/
  | snapshot

/-- `_log`. -/
def log (max : ℚ) (entry : LogEntry) (logs : Logs) : Bool × Logs :=
  ((place max entry logs.buf).1,
    ⟨(place max entry logs.buf).2,
      if (place max entry logs.buf).1 then logs.logsDropped else logs.logsDropped + 1⟩)

def act (max : ℚ) (action : LogAction) (logs : Logs) : List LogEvent × Logs :=
  match action with
  | .log call =>
      match checkCall call with
      | .error message => ([.threw message], logs)
      | .ok entry => ([.pushed entry (log max entry logs).1], (log max entry logs).2)
  | .snapshot => ([.swapped logs.buf logs.logsDropped], .new)

def step (max : ℚ) (action : LogAction) (logs : Logs) : Logs := (act max action logs).2

def happened (max : ℚ) (logs : Logs) (action : LogAction) : List LogEvent := (act max action logs).1

def logsAfter (max : ℚ) (actions : List LogAction) : Logs := run (step max) .new actions

def eventsOf (max : ℚ) (actions : List LogAction) : List LogEvent :=
  outputs (happened max) (step max) .new actions

/-- The entries pushed since the last swap, each with what its push returned. -/
def sinceSwap (events : List LogEvent) : List (LogEntry × Bool) :=
  events.foldl (fun pushes event =>
    match event with
    | .threw _ => pushes
    | .pushed entry kept => pushes ++ [(entry, kept)]
    | .swapped _ _ => []) []

@[simp] theorem sinceSwap_nil : sinceSwap [] = [] := rfl

@[simp] theorem sinceSwap_append_threw (events : List LogEvent) (message : String) :
    sinceSwap (events ++ [.threw message]) = sinceSwap events := by
  simp [sinceSwap]

@[simp] theorem sinceSwap_append_pushed (events : List LogEvent) (entry : LogEntry) (kept : Bool) :
    sinceSwap (events ++ [.pushed entry kept]) = sinceSwap events ++ [(entry, kept)] := by
  simp [sinceSwap]

@[simp] theorem sinceSwap_append_swapped (events : List LogEvent) (entries : List LogEntry)
    (logsDropped : ℕ) : sinceSwap (events ++ [.swapped entries logsDropped]) = [] := by
  simp [sinceSwap]

/-! ## The entry to overwrite -/

/-- No entry is below the rank, or the position holds an entry of the lowest
level, below the rank. -/
def IsVictim (buf : List LogEntry) (rank : ℕ) : Option ℕ → Prop
  | none => ∀ entry ∈ buf, rank ≤ entry.level.rank
  | some i => ∃ h : i < buf.length, buf[i].level.rank < rank ∧
      ∀ entry ∈ buf, buf[i].level.rank ≤ entry.level.rank

/-- What the loop knows of the entries before its position. -/
structure Searched (before : List LogEntry) (rank victimRank : ℕ) (victim : Option ℕ) : Prop where
  le : victimRank ≤ rank
  floor : ∀ entry ∈ before, victimRank ≤ entry.level.rank
  unfound : victim = none → victimRank = rank
  found : ∀ i ∈ victim, victimRank < rank ∧ ∃ h : i < before.length, before[i].level.rank = victimRank

section
variable {before rest : List LogEntry} {entry : LogEntry} {rank victimRank : ℕ} {victim : Option ℕ}

theorem Searched.isVictim (h : Searched before rank victimRank victim) :
    IsVictim before rank victim := by
  cases victim with
  | none =>
      have hrank := h.unfound rfl
      subst hrank
      exact h.floor
  | some i =>
      obtain ⟨hlt, hi, hvictim⟩ := h.found i rfl
      exact ⟨hi, hvictim ▸ hlt, fun entry hentry => hvictim ▸ h.floor entry hentry⟩

theorem Searched.lower (h : Searched before rank victimRank victim)
    (hlower : entry.level.rank < victimRank) :
    Searched (before ++ [entry]) rank entry.level.rank (some before.length) where
  le := hlower.le.trans h.le
  floor other hother := by
    cases List.mem_append.mp hother with
    | inl hbefore => exact hlower.le.trans (h.floor other hbefore)
    | inr hentry => rw [List.mem_singleton.mp hentry]
  unfound hnone := by cases hnone
  found i hi := by
    have hlast : before.length = i := Option.some.inj hi
    subst hlast
    exact ⟨hlower.trans_le h.le, by simp, by simp⟩

theorem Searched.skip (h : Searched before rank victimRank victim)
    (hlower : ¬ entry.level.rank < victimRank) :
    Searched (before ++ [entry]) rank victimRank victim where
  le := h.le
  floor other hother := by
    cases List.mem_append.mp hother with
    | inl hbefore => exact h.floor other hbefore
    | inr hentry =>
        rw [List.mem_singleton.mp hentry]
        omega
  unfound := h.unfound
  found i hi := by
    obtain ⟨hlt, hlength, hvictim⟩ := h.found i hi
    refine ⟨hlt, by rw [List.length_append]; omega, ?_⟩
    rw [List.getElem_append_left hlength]
    exact hvictim

theorem isVictim_victimFrom_append (h : Searched before rank victimRank victim) :
    IsVictim (before ++ rest) rank (victimFrom before.length victim victimRank rest) := by
  induction rest generalizing before victim victimRank with
  | nil =>
      rw [List.append_nil]
      exact h.isVictim
  | cons entry rest ih =>
      have hsplit : before ++ entry :: rest = (before ++ [entry]) ++ rest := by simp
      have hlength : before.length + 1 = (before ++ [entry]).length := by simp
      rw [victimFrom, hsplit, hlength]
      split_ifs with hlower
      · exact ih (h.lower hlower)
      · exact ih (h.skip hlower)

theorem isVictim_victimFrom (buf : List LogEntry) (rank : ℕ) :
    IsVictim buf rank (victimFrom 0 none rank buf) := by
  have h : Searched [] rank rank none := ⟨le_rfl, by simp, fun _ => rfl, by simp⟩
  exact isVictim_victimFrom_append h

end

/-! ## What a run keeps -/

/-- How many entries the buffer takes before it is full. -/
def capacity (max : ℚ) : ℕ := ⌈max⌉₊

/-- The buffer holds the most severe of the entries pushed since the last swap,
and the pushes that returned false are those left out. -/
structure Keeps (max : ℚ) (pushes : List (LogEntry × Bool)) (out : List LogEntry) (logs : Logs) :
    Prop where
  selected : Selected LogEntry.level (pushes.map Prod.fst) logs.buf out
  bounded : logs.buf.length ≤ capacity max
  full : out ≠ [] → logs.buf.length = capacity max
  refused : pushes.countP (fun push => !push.2) = out.length
  logsDropped : logs.logsDropped = out.length

section
variable {max : ℚ} {pushes : List (LogEntry × Bool)} {out : List LogEntry} {logs : Logs}

theorem keeps_new (max : ℚ) : Keeps max [] [] .new :=
  ⟨selected_nil _, Nat.zero_le _, fun h => absurd rfl h, rfl, rfl⟩

/-- An entry that finds room, or overwrites the first of the lowest, or is
left out. -/
theorem Keeps.log (h : Keeps max pushes out logs) (entry : LogEntry) :
    ∃ out', Keeps max (pushes ++ [(entry, (LogBuffer.log max entry logs).1)]) out'
      (LogBuffer.log max entry logs).2 := by
  by_cases hroom : (logs.buf.length : ℚ) < max
  · have hlt : logs.buf.length < capacity max := Nat.lt_ceil.mpr hroom
    have hnone : out = [] := by
      by_contra hne
      have := h.full hne
      omega
    subst hnone
    have hplace : place max entry logs.buf = (true, logs.buf ++ [entry]) := if_pos hroom
    refine ⟨[], ?_⟩
    simp only [LogBuffer.log, hplace]
    exact
      { selected := by simpa using h.selected.keep entry
        bounded := by
          simp only [List.length_append, List.length_singleton]
          omega
        full := fun hne => absurd rfl hne
        refused := by simpa [List.countP_append] using h.refused
        logsDropped := h.logsDropped }
  · have hfull : logs.buf.length = capacity max := by
      have hceil : capacity max ≤ logs.buf.length := Nat.ceil_le.mpr (not_lt.mp hroom)
      have := h.bounded
      omega
    have hvictim := isVictim_victimFrom logs.buf entry.level.rank
    cases hfound : victimFrom 0 none entry.level.rank logs.buf with
    | none =>
        rw [hfound] at hvictim
        have hplace : place max entry logs.buf = (false, logs.buf) := by
          simp [place, hroom, hfound]
        refine ⟨entry :: out, ?_⟩
        simp only [LogBuffer.log, hplace]
        exact
          { selected := by simpa using h.selected.leave hvictim
            bounded := h.bounded
            full := fun _ => hfull
            refused := by simp [List.countP_append, h.refused]
            logsDropped := by simp [h.logsDropped] }
    | some victim =>
        rw [hfound] at hvictim
        obtain ⟨hlt, hlower, hleast⟩ := hvictim
        have hplace : place max entry logs.buf = (false, logs.buf.set victim entry) := by
          simp [place, hroom, hfound]
        refine ⟨logs.buf[victim] :: out, ?_⟩
        simp only [LogBuffer.log, hplace]
        exact
          { selected := by simpa using h.selected.replace hlt hleast hlower.le
            bounded := by simpa using h.bounded
            full := fun _ => by simpa using hfull
            refused := by simp [List.countP_append, h.refused]
            logsDropped := by simp [h.logsDropped] }

theorem keeps_run (max : ℚ) (actions : List LogAction) :
    ∃ out, Keeps max (sinceSwap (eventsOf max actions)) out (logsAfter max actions) := by
  have hstep : ∀ (seen : List LogEvent) (logs : Logs) (action : LogAction),
      (∃ out, Keeps max (sinceSwap seen) out logs) →
      ∃ out, Keeps max (sinceSwap (seen ++ happened max logs action)) out (step max action logs) := by
    intro seen logs action ⟨out, h⟩
    cases action with
    | snapshot =>
        refine ⟨[], ?_⟩
        simp only [happened, step, act, sinceSwap_append_swapped]
        exact keeps_new max
    | log call =>
        cases hcheck : checkCall call with
        | error message =>
            refine ⟨out, ?_⟩
            simp only [happened, step, act, hcheck, sinceSwap_append_threw]
            exact h
        | ok entry =>
            simp only [happened, step, act, hcheck, sinceSwap_append_pushed]
            exact h.log entry
  exact outputs_invariant (fun seen logs => ∃ out, Keeps max (sinceSwap seen) out logs)
    (happened max) hstep ⟨[], keeps_new max⟩ actions

/-- The buffer holds as many entries as were pushed, up to its capacity. -/
theorem Keeps.length (h : Keeps max pushes out logs) :
    logs.buf.length = min pushes.length (capacity max) := by
  have htotal := h.selected.length
  have hbounded := h.bounded
  rw [List.length_map] at htotal
  cases hout : out with
  | nil =>
      rw [hout, List.length_nil] at htotal
      omega
  | cons entry rest =>
      have hfull := h.full (by simp [hout])
      omega

end

/-! ## The Swift buffer -/

/-- A call of the Swift client. -/
structure SwiftCall where
  time : ℤ
  level : LogLevel
  message : String
  attrs : Json

inductive SwiftAction where
  | log (call : SwiftCall)
  | snapshot

/-- The Swift loop: it compares levels. -/
def swiftVictimFrom (i : ℕ) (victim : Option ℕ) (victimLevel : LogLevel) :
    List LogEntry → Option ℕ
  | [] => victim
  | sample :: rest =>
      if sample.level < victimLevel then swiftVictimFrom (i + 1) (some i) sample.level rest
      else swiftVictimFrom (i + 1) victim victimLevel rest

/-- The Swift `push` of a valid entry. -/
def swiftPlace (max : ℤ) (entry : LogEntry) (buffer : List LogEntry) : Bool × List LogEntry :=
  if (buffer.length : ℤ) < max then (true, buffer ++ [entry])
  else
    match swiftVictimFrom 0 none entry.level buffer with
    | some victim => (false, buffer.set victim entry)
    | none => (false, buffer)

def swiftStep (max : ℤ) (action : SwiftAction) (buffer : List LogEntry) : List LogEntry :=
  match action with
  | .log call =>
      if call.message = "" then buffer
      else (swiftPlace max ⟨call.time, call.level, call.message, call.attrs⟩ buffer).2
  | .snapshot => []

/-- The same call in JavaScript. -/
def SwiftAction.toJs : SwiftAction → LogAction
  | .log call => .log ⟨call.time, call.level.wire, some call.message, call.attrs⟩
  | .snapshot => .snapshot

theorem swiftVictimFrom_eq (i : ℕ) (victim : Option ℕ) (level : LogLevel) (buffer : List LogEntry) :
    swiftVictimFrom i victim level buffer = victimFrom i victim level.rank buffer := by
  induction buffer generalizing i victim level with
  | nil => rfl
  | cons sample rest ih =>
      rw [swiftVictimFrom, victimFrom, ih, ih]
      rfl

theorem swiftPlace_eq (max : ℤ) (entry : LogEntry) (buffer : List LogEntry) :
    swiftPlace max entry buffer = place max entry buffer := by
  unfold swiftPlace place
  have hroom : (buffer.length : ℤ) < max ↔ (buffer.length : ℚ) < (max : ℚ) := by
    exact_mod_cast Iff.rfl
  by_cases hlt : (buffer.length : ℤ) < max
  · rw [if_pos hlt, if_pos (hroom.mp hlt)]
  · rw [if_neg hlt, if_neg (mt hroom.mpr hlt), swiftVictimFrom_eq]
    cases victimFrom 0 none entry.level.rank buffer <;> rfl

theorem swiftStep_eq (max : ℤ) (action : SwiftAction) (logs : Logs) :
    swiftStep max action logs.buf = (step max action.toJs logs).buf := by
  cases action with
  | snapshot => rfl
  | log call =>
      by_cases hempty : call.message = ""
      · simp [swiftStep, step, act, SwiftAction.toJs, checkCall, LogLevel.named_wire, hempty]
      · simp [swiftStep, step, act, SwiftAction.toJs, checkCall, LogLevel.named_wire, hempty,
          swiftPlace_eq, LogBuffer.log]

theorem swift_run (max : ℤ) (actions : List SwiftAction) (logs : Logs) :
    run (swiftStep max) logs.buf actions =
      (run (step max) logs (actions.map SwiftAction.toJs)).buf := by
  induction actions generalizing logs with
  | nil => rfl
  | cons action actions ih =>
      show run (swiftStep max) (swiftStep max action logs.buf) actions = _
      rw [swiftStep_eq]
      exact ih (step max action.toJs logs)

/-- After any calls and snapshots, and with n entries pushed since the last swap:
the buffer holds as many as its capacity allows, its levels are the most severe
of the n, no entry left out is more severe than one held, each entry left out is
one push that returned false and one drop counted, and the Swift buffer holds
the same entries in the same positions. -/
theorem log_buffer_keeps_severe (max : ℚ) (actions : List LogAction) :
    let logs := logsAfter max actions
    let pushes := sinceSwap (eventsOf max actions)
    logs.buf.length = min pushes.length (capacity max) ∧
      (logs.buf.map LogEntry.level).Perm
        (largest (capacity max) (pushes.map fun push => push.1.level)) ∧
      (∃ dropped, (dropped ++ logs.buf).Perm (pushes.map Prod.fst) ∧
        ∀ out ∈ dropped, ∀ kept ∈ logs.buf, out.level ≤ kept.level) ∧
      pushes.countP (fun push => !push.2) = pushes.length - logs.buf.length ∧
      logs.logsDropped = pushes.length - logs.buf.length ∧
      ∀ (count : ℤ) (calls : List SwiftAction),
        run (swiftStep count) [] calls = (logsAfter count (calls.map SwiftAction.toJs)).buf := by
  intro logs pushes
  obtain ⟨out, h⟩ := keeps_run max actions
  have hlength : logs.buf.length = min pushes.length (capacity max) := h.length
  have htotal : out.length + logs.buf.length = pushes.length := by
    rw [h.selected.length, List.length_map]
  have hlargest := h.selected.largest
  rw [List.map_map, hlength] at hlargest
  have hout : out.length = pushes.length - logs.buf.length := by omega
  refine ⟨hlength, ?_, ⟨out, h.selected.parts, h.selected.below⟩, h.refused.trans hout,
    h.logsDropped.trans hout, fun count calls => swift_run count calls .new⟩
  have hmin := largest_min (capacity max) (pushes.map fun push => push.1.level)
  rw [List.length_map] at hmin
  rw [← hmin]
  exact hlargest

end Wardx.LogBuffer
