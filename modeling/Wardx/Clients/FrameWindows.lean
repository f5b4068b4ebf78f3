import Wardx.Core.MetricsRegistry
import Wardx.Lib.Run

/-!
# Frame windows of the C# and Swift clients

A frame covers the time from the start of its window to the capture. A
suspension cuts the window where it begins, and a resume opens the next one.
While the cut window still has something to send, both marks stay pending until
a capture takes them.

A measurement that is refused with an error changes nothing and is not listed.
-/
namespace Wardx.FrameWindows

open Lib MetricsRegistry

/-! ## What was measured -/

structure Settings where
  /-- How the sum of two numbers is rounded. -/
  nearest : ℚ → ℚ
  maxBufferedEvents : ℕ
  maxBufferedLogs : ℕ
  events_pos : 1 ≤ maxBufferedEvents
  logs_pos : 1 ≤ maxBufferedLogs

/-- What the test for activity reads, the series of each kind in the order of
the registry. -/
structure Measured where
  counters : List JsNumber
  gaugesDirty : List Bool
  histogramCounts : List ℕ
  distinctsDirty : List Bool
  events : ℕ
  logs : ℕ
  /-- The counters the client keeps about itself. -/
  internal : List JsNumber
deriving DecidableEq

/-- The positions in `internal`. -/
def eventsDropped : ℕ := 0
def logsDropped : ℕ := 1
def framesFailed : ℕ := 4

def Measured.initial : Measured := ⟨[], [], [], [], 0, 0, List.replicate 7 (.finite 0)⟩

inductive Measurement where
  | newCounter | newGauge | newHistogram | newDistinct
  | add (series : ℕ) (n : JsNumber)
  | set (series : ℕ)
  | observe (series : ℕ)
  /-- An identifier that does or does not raise a register. -/
  | identify (series : ℕ) (raises : Bool)
  | event | log
  | internal (counter : ℕ) (n : JsNumber)
deriving DecidableEq

namespace Measured

def addInternal (settings : Settings) (counter : ℕ) (n : JsNumber) (m : Measured) : Measured :=
  { m with internal := m.internal.modify counter fun value => value.add settings.nearest n }

def record (settings : Settings) : Measurement → Measured → Measured
  | .newCounter, m => { m with counters := m.counters ++ [.finite 0] }
  | .newGauge, m => { m with gaugesDirty := m.gaugesDirty ++ [false] }
  | .newHistogram, m => { m with histogramCounts := m.histogramCounts ++ [0] }
  | .newDistinct, m => { m with distinctsDirty := m.distinctsDirty ++ [false] }
  | .add series n, m =>
      { m with counters := m.counters.modify series fun value => value.add settings.nearest n }
  | .set series, m => { m with gaugesDirty := m.gaugesDirty.modify series fun _ => true }
  | .observe series, m => { m with histogramCounts := m.histogramCounts.modify series (· + 1) }
  | .identify series raises, m =>
      { m with distinctsDirty := m.distinctsDirty.modify series (· || raises) }
  | .event, m =>
      if m.events < settings.maxBufferedEvents then { m with events := m.events + 1 }
      else m.addInternal settings eventsDropped (.finite 1)
  | .log, m =>
      if m.logs < settings.maxBufferedLogs then { m with logs := m.logs + 1 }
      else m.addInternal settings logsDropped (.finite 1)
  | .internal counter n, m => m.addInternal settings counter n

/-- `IsDirty` of the registry. -/
def isDirty (m : Measured) : Bool :=
  m.counters.any (· ≠ .finite 0) || m.gaugesDirty.any id || m.histogramCounts.any (0 < ·) ||
    m.distinctsDirty.any id

def hasCounterActivity (m : Measured) : Bool := m.internal.any (· ≠ .finite 0)

def hasActivity (m : Measured) : Bool :=
  m.isDirty || decide (0 < m.events) || decide (0 < m.logs) || m.hasCounterActivity

/-- What the swaps and resets of a capture leave. -/
def swap (m : Measured) : Measured where
  counters := m.counters.map fun _ => .finite 0
  gaugesDirty := m.gaugesDirty.map fun _ => false
  histogramCounts := m.histogramCounts.map fun _ => 0
  distinctsDirty := m.distinctsDirty.map fun _ => false
  events := 0
  logs := 0
  internal := m.internal.map fun _ => .finite 0

end Measured

/-! ## The window -/

structure WindowFrame where
  seq : ℕ
  fromTime : ℤ
  toTime : ℤ
  measured : Measured
deriving DecidableEq

structure Core where
  seq : ℕ
  windowStart : ℤ
  suspendedAt : Option ℤ
  resumedAt : Option ℤ
  suspended : Bool
  clockOffsetMs : Option ℤ
  measured : Measured
deriving DecidableEq

/-- `ShiftTime`. -/
def WindowFrame.shiftTime (offsetMs : ℤ) (frame : WindowFrame) : WindowFrame :=
  { frame with fromTime := frame.fromTime + offsetMs, toTime := frame.toTime + offsetMs }

namespace Core

def new (now : ℤ) : Core := ⟨0, now, none, none, false, none, .initial⟩

def clockAligned (core : Core) : Bool := core.clockOffsetMs.isSome

/-- The division of both languages rounds towards zero. -/
def offset (serverTime sentAt receivedAt : ℤ) : ℤ := serverTime - (sentAt + receivedAt).tdiv 2

def alignClock (serverTime sentAt receivedAt : ℤ) (core : Core) : Core :=
  { core with clockOffsetMs := some (offset serverTime sentAt receivedAt) }

def suspend (now : ℤ) (core : Core) : Core :=
  if core.suspended then core else { core with suspended := true, suspendedAt := some now }

def resume (now : ℤ) (core : Core) : Core :=
  if !core.suspended then core
  else if core.suspendedAt.isSome && core.measured.hasActivity then
    { core with suspended := false, resumedAt := some now }
  else { core with suspended := false, suspendedAt := none, windowStart := now }

/-- Where the frame of a capture ends. -/
def frameEnd (now : ℤ) (core : Core) : ℤ := core.suspendedAt.getD now

def captureFrame (now : ℤ) (core : Core) : WindowFrame × Core :=
  (WindowFrame.shiftTime (core.clockOffsetMs.getD 0)
      ⟨core.seq + 1, core.windowStart, core.frameEnd now, core.measured⟩,
    { core with
      windowStart := core.resumedAt.getD (core.frameEnd now)
      suspendedAt := none
      resumedAt := none
      measured := core.measured.swap })

/-- The test of `CaptureFrameIfDirty`. -/
def captures (core : Core) : Bool := core.clockAligned && core.measured.hasActivity

def captureFrameIfDirty (now : ℤ) (core : Core) : Option WindowFrame × Core :=
  if core.captures then (some (core.captureFrame now).1, (core.captureFrame now).2)
  else (none, core)

/-- A snapshot of that many frames is committed, of which some overflow the
frames kept for sending. -/
def commitSnapshot (settings : Settings) (frames overflow : ℕ) (core : Core) : Core :=
  { core with
    seq := core.seq + frames
    measured := if 0 < overflow then
        core.measured.addInternal settings framesFailed (.finite overflow) else core.measured }

end Core

/-! ## Runs -/

/-- The core and its clock. -/
structure State where
  now : ℤ
  core : Core
deriving DecidableEq

inductive Action where
  | elapse (ms : ℕ)
  | measure (measurement : Measurement)
  | alignClock (serverTime sentAt receivedAt : ℤ)
  | suspend | resume | captureFrameIfDirty
  | commitSnapshot (frames overflow : ℕ)
deriving DecidableEq

def State.start (now : ℤ) : State := ⟨now, .new now⟩

section
variable (settings : Settings)

def step : Action → State → State
  | .elapse ms, s => { s with now := s.now + ms }
  | .measure measurement, s =>
      { s with core := { s.core with measured := s.core.measured.record settings measurement } }
  | .alignClock serverTime sentAt receivedAt, s =>
      { s with core := s.core.alignClock serverTime sentAt receivedAt }
  | .suspend, s => { s with core := s.core.suspend s.now }
  | .resume, s => { s with core := s.core.resume s.now }
  | .captureFrameIfDirty, s => { s with core := (s.core.captureFrameIfDirty s.now).2 }
  | .commitSnapshot frames overflow, s =>
      { s with core := s.core.commitSnapshot settings frames overflow }

end

/-- The frame a step captures. -/
def captured (s : State) : Action → List WindowFrame
  | .captureFrameIfDirty => (s.core.captureFrameIfDirty s.now).1.toList
  | _ => []

def frames (settings : Settings) (now : ℤ) (actions : List Action) : List WindowFrame :=
  outputs captured (step settings) (.start now) actions

/-- Every alignment finds the same offset. -/
def ConstantOffset (offset : ℤ) : State → Action → Prop
  | _, .alignClock serverTime sentAt receivedAt =>
      Core.offset serverTime sentAt receivedAt = offset
  | _, _ => True

instance (offset : ℤ) (s : State) (action : Action) : Decidable (ConstantOffset offset s action) := by
  cases action <;> simp only [ConstantOffset] <;> infer_instance

/-- A pending resume is not before the end of the frame. -/
def Core.ResumeInTime (now : ℤ) (core : Core) : Prop :=
  ∀ resumed ∈ core.resumedAt, core.frameEnd now ≤ resumed

instance (now : ℤ) (core : Core) : Decidable (core.ResumeInTime now) := by
  unfold Core.ResumeInTime; infer_instance

/-- A frame is captured with no resume pending from before its end. -/
def CapturesInTime : State → Action → Prop
  | s, .captureFrameIfDirty => s.core.captures → s.core.ResumeInTime s.now
  | _, _ => True

instance (s : State) (action : Action) : Decidable (CapturesInTime s action) := by
  cases action <;> simp only [CapturesInTime] <;> infer_instance

/-- No frame starts before the one captured before it ends. -/
def NoOverlap (frames : List WindowFrame) : Prop :=
  frames.IsChain fun before after => before.toTime ≤ after.fromTime

/-! ## What a step does to the marks -/

section
variable {settings : Settings} {offset : ℤ}

theorem captures_iff (core : Core) :
    core.captures = true ↔ core.clockAligned = true ∧ core.measured.hasActivity = true :=
  Bool.and_eq_true_iff

/-- The marks lie between the start of the window and the present. -/
structure Core.Marked (core : Core) (now : ℤ) : Prop where
  start_le : core.windowStart ≤ now
  suspended : ∀ at_ ∈ core.suspendedAt, core.windowStart ≤ at_ ∧ at_ ≤ now
  resumed_le : ∀ at_ ∈ core.resumedAt, at_ ≤ now

theorem Core.Marked.start_le_end {core : Core} {now : ℤ} (h : core.Marked now) :
    core.windowStart ≤ core.frameEnd now := by
  cases hs : core.suspendedAt with
  | none => simpa [frameEnd, hs] using h.start_le
  | some at_ => simpa [frameEnd, hs] using (h.suspended at_ hs).1

theorem Core.Marked.end_le {core : Core} {now : ℤ} (h : core.Marked now) :
    core.frameEnd now ≤ now := by
  cases hs : core.suspendedAt with
  | none => simp [frameEnd, hs]
  | some at_ => simpa [frameEnd, hs] using (h.suspended at_ hs).2

theorem Core.Marked.suspend {core : Core} {now : ℤ} (h : core.Marked now) :
    (core.suspend now).Marked now := by
  unfold Core.suspend
  split_ifs
  · exact h
  · refine ⟨h.start_le, fun at_ hat => ?_, h.resumed_le⟩
    have hnow : now = at_ := Option.some.inj hat
    subst hnow
    exact ⟨h.start_le, le_rfl⟩

theorem Core.Marked.resume {core : Core} {now : ℤ} (h : core.Marked now) :
    (core.resume now).Marked now := by
  unfold Core.resume
  split_ifs
  · exact h
  · refine ⟨h.start_le, h.suspended, fun at_ hat => ?_⟩
    exact le_of_eq (Option.some.inj hat).symm
  · exact ⟨le_rfl, by simp, h.resumed_le⟩

theorem Core.Marked.captureFrame {core : Core} {now : ℤ} (h : core.Marked now) :
    (core.captureFrame now).2.Marked now := by
  have hstart : core.resumedAt.getD (core.frameEnd now) ≤ now := by
    cases hr : core.resumedAt with
    | none => exact h.end_le
    | some at_ => exact h.resumed_le at_ hr
  exact ⟨hstart, by simp [Core.captureFrame], by simp [Core.captureFrame]⟩

theorem Core.Marked.captureFrameIfDirty {core : Core} {now : ℤ} (h : core.Marked now) :
    (core.captureFrameIfDirty now).2.Marked now := by
  unfold Core.captureFrameIfDirty
  split_ifs
  · exact h.captureFrame
  · exact h

theorem Core.Marked.elapse {core : Core} {now : ℤ} (h : core.Marked now) (ms : ℕ) :
    core.Marked (now + ms) where
  start_le := by have := h.start_le; omega
  suspended at_ hat := by have := h.suspended at_ hat; omega
  resumed_le at_ hat := by have := h.resumed_le at_ hat; omega

theorem marked_step (action : Action) (s : State) (h : s.core.Marked s.now) :
    (step settings action s).core.Marked (step settings action s).now := by
  cases action with
  | elapse ms => exact h.elapse ms
  | measure measurement => exact ⟨h.start_le, h.suspended, h.resumed_le⟩
  | alignClock serverTime sentAt receivedAt => exact ⟨h.start_le, h.suspended, h.resumed_le⟩
  | suspend => exact h.suspend
  | resume => exact h.resume
  | captureFrameIfDirty => exact h.captureFrameIfDirty
  | commitSnapshot frames overflow => exact ⟨h.start_le, h.suspended, h.resumed_le⟩

theorem marked_start (now : ℤ) : (Core.new now).Marked now :=
  ⟨le_rfl, by simp [Core.new], by simp [Core.new]⟩

theorem mem_captured {s : State} {action : Action} {frame : WindowFrame}
    (h : frame ∈ captured s action) :
    action = .captureFrameIfDirty ∧ s.core.captures = true ∧
      frame = (s.core.captureFrame s.now).1 := by
  cases action with
  | captureFrameIfDirty =>
      by_cases hc : s.core.captures = true
      · simp only [captured, Core.captureFrameIfDirty, hc, if_true, Option.toList_some,
          List.mem_singleton] at h
        exact ⟨rfl, hc, h⟩
      · simp [captured, Core.captureFrameIfDirty, hc] at h
  | _ => cases h

theorem captureFrame_from_le_to {core : Core} {now : ℤ} (h : core.Marked now) :
    (core.captureFrame now).1.fromTime ≤ (core.captureFrame now).1.toTime := by
  have hstart := h.start_le_end
  simp only [Core.captureFrame, WindowFrame.shiftTime]
  omega

/-! ## Frames that do not overlap -/

/-- The frames so far do not overlap, and the window is open where the last of
them ends or later. -/
structure Apart (offset : ℤ) (seen : List WindowFrame) (s : State) : Prop where
  marked : s.core.Marked s.now
  noOverlap : NoOverlap seen
  clock : ∀ known ∈ s.core.clockOffsetMs, known = offset
  ended : ∀ last ∈ seen.getLast?, last.toTime ≤ s.core.windowStart + offset

theorem Apart.windowStart_le {seen : List WindowFrame} {s : State} (h : Apart offset seen s)
    (settings : Settings) (action : Action) (hframe : captured s action = []) :
    s.core.windowStart ≤ (step settings action s).core.windowStart := by
  have hstart := h.marked.start_le
  cases action with
  | resume =>
      simp only [step, Core.resume]
      split_ifs <;> first | exact le_rfl | exact hstart
  | suspend =>
      simp only [step, Core.suspend]
      split_ifs <;> exact le_rfl
  | captureFrameIfDirty =>
      by_cases hc : s.core.captures = true
      · simp [captured, Core.captureFrameIfDirty, hc] at hframe
      · simp [step, Core.captureFrameIfDirty, hc]
  | _ => exact le_rfl

theorem clock_step (settings : Settings) (action : Action) (s : State)
    (hclock : ∀ known ∈ s.core.clockOffsetMs, known = offset)
    (hconstant : ConstantOffset offset s action) :
    ∀ known ∈ (step settings action s).core.clockOffsetMs, known = offset := by
  cases action with
  | alignClock serverTime sentAt receivedAt =>
      intro known hknown
      rw [← Option.some.inj hknown]
      exact hconstant
  | suspend =>
      simp only [step, Core.suspend]
      split_ifs <;> exact hclock
  | resume =>
      simp only [step, Core.resume]
      split_ifs <;> exact hclock
  | captureFrameIfDirty =>
      simp only [step, Core.captureFrameIfDirty]
      split_ifs <;> exact hclock
  | _ => exact hclock

/-- A frame's bounds on the server's clock. -/
theorem bounds_captureFrame {core : Core} (now : ℤ)
    (hclock : ∀ known ∈ core.clockOffsetMs, known = offset) (hc : core.captures = true) :
    (core.captureFrame now).1.fromTime = core.windowStart + offset ∧
      (core.captureFrame now).1.toTime = core.frameEnd now + offset := by
  have haligned := ((captures_iff core).mp hc).1
  cases hknown : core.clockOffsetMs with
  | none => simp [Core.clockAligned, hknown] at haligned
  | some known =>
      have hoffset := hclock known hknown
      subst hoffset
      simp [Core.captureFrame, WindowFrame.shiftTime, hknown]

theorem apart_step {seen : List WindowFrame} (s : State) (action : Action) (h : Apart offset seen s)
    (hconstant : ConstantOffset offset s action) (htime : CapturesInTime s action) :
    Apart offset (seen ++ captured s action) (step settings action s) := by
  have hmarked : (step settings action s).core.Marked (step settings action s).now :=
    marked_step action s h.marked
  have hclock := clock_step settings action s h.clock hconstant
  by_cases hframe : captured s action = []
  · rw [hframe, List.append_nil]
    have hstart := h.windowStart_le settings action hframe
    refine ⟨hmarked, h.noOverlap, hclock, fun last hlast => ?_⟩
    have hended := h.ended last hlast
    omega
  · obtain ⟨frame, hmem⟩ := List.exists_mem_of_ne_nil _ hframe
    obtain ⟨rfl, hc, -⟩ := mem_captured hmem
    have hcaptured : captured s .captureFrameIfDirty = [(s.core.captureFrame s.now).1] := by
      simp [captured, Core.captureFrameIfDirty, hc]
    have hstep : (step settings .captureFrameIfDirty s).core = (s.core.captureFrame s.now).2 := by
      simp [step, Core.captureFrameIfDirty, hc]
    obtain ⟨hfrom, hto⟩ := bounds_captureFrame s.now h.clock hc
    rw [hcaptured]
    refine ⟨hmarked, ?_, hclock, ?_⟩
    · refine List.isChain_append.mpr ⟨h.noOverlap, List.isChain_singleton _, ?_⟩
      intro last hlast next hnext
      have hended := h.ended last hlast
      have hnext' : (s.core.captureFrame s.now).1 = next := by simpa using hnext
      rw [← hnext', hfrom]
      exact hended
    · intro last hlast
      have hlast' : (s.core.captureFrame s.now).1 = last := by simpa using hlast
      rw [← hlast', hto, hstep]
      show s.core.frameEnd s.now + offset
        ≤ s.core.resumedAt.getD (s.core.frameEnd s.now) + offset
      cases hr : s.core.resumedAt with
      | none => exact le_rfl
      | some resumed =>
          have := htime hc resumed hr
          simpa using this

theorem apart_start (offset now : ℤ) : Apart offset [] (.start now) where
  marked := marked_start now
  noOverlap := List.isChain_nil
  clock := by simp [State.start, Core.new]
  ended := by simp

theorem from_le_to (now : ℤ) (actions : List Action) :
    ∀ frame ∈ frames settings now actions, frame.fromTime ≤ frame.toTime := by
  have hstep : ∀ (seen : List WindowFrame) (s : State) (action : Action),
      (s.core.Marked s.now ∧ ∀ frame ∈ seen, frame.fromTime ≤ frame.toTime) →
      (step settings action s).core.Marked (step settings action s).now ∧
        ∀ frame ∈ seen ++ captured s action, frame.fromTime ≤ frame.toTime := by
    intro seen s action h
    refine ⟨marked_step action s h.1, fun frame hframe => ?_⟩
    cases List.mem_append.mp hframe with
    | inl hold => exact h.2 frame hold
    | inr hnew =>
        obtain ⟨-, -, rfl⟩ := mem_captured hnew
        exact captureFrame_from_le_to h.1
  exact (outputs_invariant
    (fun seen (s : State) => s.core.Marked s.now ∧ ∀ frame ∈ seen, frame.fromTime ≤ frame.toTime)
    captured hstep (s := .start now) ⟨marked_start now, by simp⟩ actions).2

theorem hasActivity_event (m : Measured) (hevents : m.events = 0) :
    (m.record settings .event).hasActivity = true := by
  have hroom : m.events < settings.maxBufferedEvents := by
    have := settings.events_pos
    omega
  simp [Measured.record, hroom, Measured.hasActivity]

/-- A capture with a resume pending from before the frame's end makes the next
frame overlap, when there is something to send before the next resume. -/
theorem overlap_after {s : State} (hclock : ∀ known ∈ s.core.clockOffsetMs, known = offset)
    (hc : s.core.captures = true) (hlate : ¬ s.core.ResumeInTime s.now) (seen : List WindowFrame) :
    ¬ NoOverlap (seen ++ outputs captured (step settings) s
      [.captureFrameIfDirty, .measure .event, .captureFrameIfDirty]) := by
  -- the state of the second capture: the window starts at the resume
  let after : Core := { (s.core.captureFrame s.now).2 with
    measured := s.core.measured.swap.record settings .event }
  have hafter : (step settings (.measure .event) (step settings .captureFrameIfDirty s)) =
      ⟨s.now, after⟩ := by
    simp [step, Core.captureFrameIfDirty, hc, after, Core.captureFrame]
  have hcafter : after.captures = true := by
    rw [captures_iff]
    exact ⟨((captures_iff s.core).mp hc).1, hasActivity_event _ rfl⟩
  have hclockAfter : ∀ known ∈ after.clockOffsetMs, known = offset := hclock
  have hframes : outputs captured (step settings) s
      [.captureFrameIfDirty, .measure .event, .captureFrameIfDirty] =
      [(s.core.captureFrame s.now).1, (after.captureFrame s.now).1] := by
    simp only [outputs, hafter]
    simp [captured, Core.captureFrameIfDirty, hc, hcafter]
  have hto := (bounds_captureFrame s.now hclock hc).2
  have hfrom := (bounds_captureFrame s.now hclockAfter hcafter).1
  intro hno
  rw [hframes] at hno
  have hpair := (List.isChain_append_cons_cons.mp hno).2.1
  simp only [hto, hfrom] at hpair
  apply hlate
  intro resumed hresumed
  have hstart : after.windowStart = resumed := by
    show s.core.resumedAt.getD _ = resumed
    rw [Option.mem_def.mp hresumed]
    rfl
  omega

/-- In every run in which no frame is captured with a resume pending from before
the frame's end, no frame starts before the one captured before it ends, and a
run that reaches such a capture goes on to frames that overlap. Every frame ends
where it starts or later. -/
theorem windows_apart (settings : Settings) (opened offset : ℤ) (actions : List Action)
    (hconstant : Along (ConstantOffset offset) (step settings) (.start opened) actions) :
    (∀ frame ∈ frames settings opened actions, frame.fromTime ≤ frame.toTime) ∧
      (Along CapturesInTime (step settings) (.start opened) actions →
        NoOverlap (frames settings opened actions)) ∧
      ((run (step settings) (.start opened) actions).core.captures = true →
        ¬ (run (step settings) (.start opened) actions).core.ResumeInTime
          (run (step settings) (.start opened) actions).now →
        ¬ NoOverlap (frames settings opened
          (actions ++ [.captureFrameIfDirty, .measure .event, .captureFrameIfDirty]))) := by
  have hclock : ∀ known ∈ (run (step settings) (.start opened) actions).core.clockOffsetMs,
      known = offset :=
    run_invariant (fun s : State => ∀ known ∈ s.core.clockOffsetMs, known = offset)
      (fun s action h hok => clock_step settings action s h hok)
      (by simp [State.start, Core.new]) hconstant
  refine ⟨from_le_to opened actions, fun htime => ?_, fun hc hlate => ?_⟩
  · have hok : Along (fun s action => ConstantOffset offset s action ∧ CapturesInTime s action)
        (step settings) (.start opened) actions := along_and.mpr ⟨hconstant, htime⟩
    have hstep : ∀ seen s action, Apart offset seen s →
        ConstantOffset offset s action ∧ CapturesInTime s action →
        Apart offset (seen ++ captured s action) (step settings action s) :=
      fun seen s action h hok => apart_step s action h hok.1 hok.2
    exact (outputs_invariant_along (Apart offset) captured hstep (apart_start offset opened) hok).noOverlap
  · unfold frames
    rw [outputs_append]
    exact overlap_after hclock hc hlate _

end

instance (frames : List WindowFrame) : Decidable (NoOverlap frames) := by
  unfold NoOverlap; infer_instance

def smallBuffers : Settings := ⟨id, 100, 100, by decide, by decide⟩

def oneSuspension : List Action :=
  [.alignClock 7 2 4, .measure .event, .elapse 10, .suspend, .elapse 10, .resume, .measure .log,
    .elapse 10, .captureFrameIfDirty, .measure .event, .elapse 5, .captureFrameIfDirty]

theorem windows_apart_oneSuspension :
    (frames smallBuffers 0 oneSuspension).map (fun frame => (frame.fromTime, frame.toTime)) =
        [(4, 14), (24, 39)] ∧ NoOverlap (frames smallBuffers 0 oneSuspension) :=
  ⟨by decide +kernel,
    (windows_apart smallBuffers 0 4 oneSuspension (by decide +kernel)).2.1 (by decide +kernel)⟩

/-- The second suspension moves the end of the first window past the resume. -/
def twoSuspensions : List Action :=
  [.alignClock 0 0 0, .measure .event, .elapse 10, .suspend, .elapse 10, .resume, .elapse 10,
    .suspend, .captureFrameIfDirty, .measure .event, .captureFrameIfDirty]

theorem windows_overlap_twoSuspensions :
    Along (ConstantOffset 0) (step smallBuffers) (.start 0) twoSuspensions ∧
      (frames smallBuffers 0 twoSuspensions).map (fun frame => (frame.fromTime, frame.toTime)) =
        [(0, 30), (20, 30)] ∧
      ¬ NoOverlap (frames smallBuffers 0 twoSuspensions) := by
  decide +kernel

end Wardx.FrameWindows
