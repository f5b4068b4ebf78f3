import Wardx.Frames.ClientSplitters
import Wardx.Lib.Run

/-!
# The numbers of frames

A snapshot job captures a frame under the lock, with the number after the last
one given. It splits the frame outside the lock and takes the numbers of the
parts when it commits. A retained flight captures, splits and takes its numbers
in one call, and only when no snapshot is open. One job runs at a time. It may
stop with an exception between any two of its calls, and other calls of the core
may come between any two of them.

What a frame holds is the caller's: a window is taken with whatever rows and
times it has, and a flight with whatever the retained metrics begin it with.
A number is unbounded here. It is an `int` in C#, which has 2 ^ 31 of them.
-/
namespace Wardx.SnapshotSequence

open Lib Json Frames

/-! ## The core -/

/-- A client's language with its limits. -/
structure Settings where
  client : Client
  limits : FrameLimits
  maxPendingFrames : ℕ

structure WardxCore where
  seq : ℕ
  snapshotOpen : Bool
  clockAligned : Bool
  pendingFrames : List ClientFrame
  framesFailed : ℕ

namespace WardxCore

def new : WardxCore := ⟨0, false, false, [], 0⟩

/-- `CaptureFrame`. -/
def captureFrame (window : ClientFrame) (core : WardxCore) : ClientFrame × WardxCore :=
  ({ window with seq := core.seq + 1 }, { core with snapshotOpen := true })

/-- `CaptureFrameIfDirty`, for a core that has activity or has none. -/
def captureFrameIfDirty (hasActivity : Bool) (window : ClientFrame) (core : WardxCore) :
    Option ClientFrame × WardxCore :=
  if core.clockAligned && hasActivity then
    let (frame, core) := core.captureFrame window
    (some frame, core)
  else (none, core)

/-- `AbandonSnapshot`. -/
def abandonSnapshot (core : WardxCore) : WardxCore := { core with snapshotOpen := false }

/-- `CommitSnapshot`. -/
def commitSnapshot (maxPendingFrames : ℕ) (batch : ClientBatch) (core : WardxCore) :
    Except String WardxCore :=
  match batch.frames with
  | [] => .error "Index was out of range"
  | first :: rest =>
      if first.seq ≠ core.seq + 1 then .error "snapshots must be completed in sequence"
      else
        let count := batch.frames.length
        let overflow := core.pendingFrames.length + count - maxPendingFrames
        .ok { core with
          snapshotOpen := false
          seq := (rest.getLast?.getD first).seq
          pendingFrames := core.pendingFrames.drop (min overflow core.pendingFrames.length) ++
            batch.frames.drop (count - maxPendingFrames)
          framesFailed := core.framesFailed + overflow }

/-- `CaptureRetainedFrames`; `metrics` is the frame of what `BeginFlight` returns.
A split that fails leaves the number as it was. -/
def captureRetainedFrames (settings : Settings) (metrics : Option ClientFrame) (core : WardxCore) :
    Except String (Option ClientBatch × WardxCore) :=
  if !core.clockAligned || core.snapshotOpen then .ok (none, core)
  else
    match metrics with
    | none => .ok (none, core)
    | some frame =>
        match clientSplit settings.client { frame with seq := core.seq + 1 } settings.limits with
        | .error e => .error e
        | .ok batch =>
            .ok (some batch, { core with
              seq := (batch.frames.getLast?.map ClientFrame.seq).getD core.seq })

/-- `TakePendingFrames`. -/
def takePendingFrames (core : WardxCore) : List ClientFrame × WardxCore :=
  (core.pendingFrames, { core with pendingFrames := [] })

end WardxCore

/-! ## The client -/

/-- Where the snapshot job stands. -/
inductive Job
  | idle
  | splitting (frame : ClientFrame)
  | committed

/-- `placed` are the physical frames that were put in the pending queue or in a
retained flight, in that order. `refused` are the errors of `CommitSnapshot`. -/
structure System where
  core : WardxCore
  job : Job
  placed : List ClientFrame
  refused : List String

def System.new : System := ⟨.new, .idle, [], []⟩

/-- One call of the core. `abandon` is a job that stops with an exception, which
it may do anywhere. -/
inductive Action
  | capture (hasActivity : Bool) (window : ClientFrame)
  | commit
  | finish
  | abandon
  | captureRetained (metrics : Option ClientFrame)
  | takePending
  | alignClock

variable (settings : Settings)

def step : Action → System → System
  | .capture hasActivity window, s =>
      match s.job with
      | .idle =>
          match s.core.captureFrameIfDirty hasActivity window with
          | (none, core) => { s with core := core }
          | (some frame, core) => { s with core := core, job := .splitting frame }
      | _ => s
  | .commit, s =>
      match s.job with
      | .splitting frame =>
          match clientSplit settings.client frame settings.limits with
          | .error _ => s
          | .ok batch =>
              match s.core.commitSnapshot settings.maxPendingFrames batch with
              | .error e => { s with refused := s.refused ++ [e] }
              | .ok core =>
                  { s with
                    core := core
                    job := .committed
                    placed := s.placed ++
                      batch.frames.drop (batch.frames.length - settings.maxPendingFrames) }
      | _ => s
  | .finish, s =>
      match s.job with
      | .committed => { s with job := .idle }
      | _ => s
  | .abandon, s => { s with core := s.core.abandonSnapshot, job := .idle }
  | .captureRetained metrics, s =>
      match s.core.captureRetainedFrames settings metrics with
      | .error _ => s
      | .ok (none, core) => { s with core := core }
      | .ok (some batch, core) => { s with core := core, placed := s.placed ++ batch.frames }
  | .takePending, s => { s with core := s.core.takePendingFrames.2 }
  | .alignClock, s => { s with core := { s.core with clockAligned := true } }

/-- The client after the calls, in the order the lock admits them. -/
def after (actions : List Action) : System := run (step settings) .new actions

/-! ## The numbers of a split -/

section
variable {client : Client} {source : ClientFrame} {limits : FrameLimits} {s s' : ClientSplitter}

/-- The finished frames and the current one are numbered on from the source. -/
structure Numbered (source : ClientFrame) (s : ClientSplitter) : Prop where
  frames : s.frames.map ClientFrame.seq = List.range' source.seq s.frames.length
  current : s.current.seq = source.seq + s.frames.length

theorem numbered_start : Numbered source (ClientSplitter.start client source) :=
  ⟨rfl, rfl⟩

theorem Numbered.finishCurrent (h : Numbered source s)
    (hfinish : s.finishCurrent client source limits = .ok s') :
    Numbered source s' ∧ s'.frames ≠ [] := by
  unfold ClientSplitter.finishCurrent at hfinish
  simp only [bind_eq_ok_iff, pure, Except.pure, Except.ok.injEq] at hfinish
  obtain ⟨_, _, rfl⟩ := hfinish
  refine ⟨⟨?_, ?_⟩, by simp⟩
  · rw [List.map_append, h.frames, List.length_append, List.length_singleton, List.range'_concat]
    simp [h.current]
  · simp [ClientSplitter.emptyPhysical, ClientFrame.empty]

theorem Numbered.tryAppend (h : Numbered source s) {kind : Kind} {row : Json} {rowBytes : ℕ}
    (happend : s.tryAppend limits kind row rowBytes = some s') : Numbered source s' := by
  unfold ClientSplitter.tryAppend at happend
  simp only [Option.ite_none_left_eq_some, Option.some.injEq] at happend
  obtain ⟨_, rfl⟩ := happend
  exact ⟨h.frames, h.current⟩

theorem Numbered.tryAdd (h : Numbered source s) {kind : Kind} {row : Json} {added : Bool}
    (hadd : s.tryAdd client source limits kind row = .ok (added, s')) : Numbered source s' := by
  unfold ClientSplitter.tryAdd at hadd
  dsimp only at hadd
  split at hadd
  · rename_i next happend
    cases hadd
    exact h.tryAppend happend
  · split_ifs at hadd
    · simp only [bind_eq_ok_iff] at hadd
      obtain ⟨finished, hfinish, hadd⟩ := hadd
      have hfinished := (h.finishCurrent hfinish).1
      split at hadd
      · rename_i next happend
        cases hadd
        exact hfinished.tryAppend happend
      · cases hadd
        exact hfinished
    · cases hadd
      exact h

theorem Numbered.addRows {rows : List (Kind × Json)} (h : Numbered source s)
    (hadd : s.addRows client source limits rows = .ok s') : Numbered source s' := by
  induction rows generalizing s with
  | nil =>
      cases hadd
      exact h
  | cons row rows ih =>
      unfold ClientSplitter.addRows at hadd ih
      simp only [List.foldlM_cons, bind_eq_ok_iff] at hadd
      obtain ⟨next, ⟨⟨added, tried⟩, htry, hnext⟩, hrest⟩ := hadd
      have htried := h.tryAdd htry
      refine ih ?_ hrest
      cases added with
      | true =>
          cases hnext
          exact htried
      | false =>
          cases hnext
          exact ⟨htried.frames, htried.current⟩

theorem Numbered.addDropMetric (h : Numbered source s) {droppedRows : ℕ}
    (hadd : s.addDropMetric client source limits droppedRows = .ok s') : Numbered source s' := by
  unfold ClientSplitter.addDropMetric at hadd
  split_ifs at hadd
  · simp only [bind_eq_ok_iff, pure, Except.pure, Except.ok.injEq] at hadd
    obtain ⟨⟨added, tried⟩, htry, _, _, rfl⟩ := hadd
    exact h.tryAdd htry
  · cases hadd
    exact h

theorem Numbered.finishLast (h : Numbered source s)
    (hfinish : s.finishLast client source limits = .ok s') :
    Numbered source s' ∧ s'.frames ≠ [] := by
  unfold ClientSplitter.finishLast at hfinish
  split_ifs at hfinish with hneeded
  · exact h.finishCurrent hfinish
  · cases hfinish
    exact ⟨h, fun hempty => hneeded (Or.inl hempty)⟩

/-- The parts of a frame are numbered on from it, and there is one at least. -/
theorem seq_clientSplit {batch : ClientBatch}
    (hsplit : clientSplit client source limits = .ok batch) :
    batch.frames ≠ [] ∧
      batch.frames.map ClientFrame.seq = List.range' source.seq batch.frames.length := by
  unfold clientSplit at hsplit
  simp only [bind_eq_ok_iff, pure, Except.pure, Except.ok.injEq] at hsplit
  obtain ⟨_, _, _, _, added, hadd, dropped, hdropped, last, hlast, _, _, rfl⟩ := hsplit
  obtain ⟨hnumbered, hne⟩ := ((numbered_start.addRows hadd).addDropMetric hdropped).finishLast hlast
  exact ⟨hne, hnumbered.frames⟩

end

/-! ## Runs -/

/-- A frame that is being split has the next number, which stays the next while
the snapshot is open. -/
structure Sequenced (s : System) : Prop where
  increasing : s.placed.Pairwise fun frame later => frame.seq < later.seq
  taken : ∀ frame ∈ s.placed, frame.seq ≤ s.core.seq
  next : ∀ frame, s.job = .splitting frame →
    s.core.snapshotOpen = true ∧ frame.seq = s.core.seq + 1
  pending : ∀ frame ∈ s.core.pendingFrames, frame ∈ s.placed
  refused : s.refused = []

theorem sequenced_new : Sequenced .new :=
  ⟨List.Pairwise.nil, fun _ h => (by cases h), fun _ h => (by cases h), fun _ h => (by cases h), rfl⟩

section
variable {first last : ℕ} {frames : List ClientFrame}

/-- Numbers that are counted up increase. -/
theorem increasing_of_range (h : frames.map ClientFrame.seq = List.range' first frames.length) :
    frames.Pairwise fun frame later => frame.seq < later.seq := by
  have hrange : (frames.map ClientFrame.seq).Pairwise (· < ·) := by
    rw [h]
    exact List.pairwise_lt_range'
  exact List.pairwise_map.mp hrange

theorem mem_range_of_range (h : frames.map ClientFrame.seq = List.range' first frames.length)
    {frame : ClientFrame} (hframe : frame ∈ frames) :
    first ≤ frame.seq ∧ frame.seq < first + frames.length := by
  have hmem : frame.seq ∈ List.range' first frames.length := by
    rw [← h]
    exact List.mem_map_of_mem hframe
  exact List.mem_range'_1.mp hmem

theorem last_of_range (h : frames.map ClientFrame.seq = List.range' first frames.length)
    (hne : frames ≠ []) :
    frames.getLast?.map ClientFrame.seq = some (first + frames.length - 1) := by
  have hlength : frames.length ≠ 0 := fun hzero => hne (List.length_eq_zero_iff.mp hzero)
  rw [← List.getLast?_map, h, List.getLast?_range', if_neg hlength]

end

/-- Frames numbered on from the core's number go behind those placed so far. -/
theorem increasing_append {placed frames more : List ClientFrame} {seq : ℕ}
    (hplaced : placed.Pairwise fun frame later => frame.seq < later.seq)
    (htaken : ∀ frame ∈ placed, frame.seq ≤ seq)
    (hframes : frames.map ClientFrame.seq = List.range' (seq + 1) frames.length)
    (hmore : more.Sublist frames) :
    (placed ++ more).Pairwise fun frame later => frame.seq < later.seq := by
  apply List.pairwise_append.mpr
  refine ⟨hplaced, (increasing_of_range hframes).sublist hmore, fun frame hframe later hlater => ?_⟩
  have hle := htaken frame hframe
  have hrange := mem_range_of_range hframes (hmore.subset hlater)
  omega

/-- A commit takes the numbers of its batch when they are the next. -/
theorem commitSnapshot_ok {batch : ClientBatch} {core : WardxCore} (maxPendingFrames : ℕ)
    (hne : batch.frames ≠ [])
    (hseq : batch.frames.map ClientFrame.seq = List.range' (core.seq + 1) batch.frames.length) :
    ∃ committed, core.commitSnapshot maxPendingFrames batch = .ok committed ∧
      committed.seq = core.seq + batch.frames.length ∧
      ∀ frame ∈ committed.pendingFrames, frame ∈ core.pendingFrames ∨
        frame ∈ batch.frames.drop (batch.frames.length - maxPendingFrames) := by
  unfold WardxCore.commitSnapshot
  have hlast := last_of_range hseq hne
  cases hframes : batch.frames with
  | nil => exact absurd hframes hne
  | cons first rest =>
      rw [hframes] at hseq hlast
      have hfirst : first.seq = core.seq + 1 := by
        simp only [List.map_cons, List.length_cons, List.range'_succ, List.cons.injEq] at hseq
        exact hseq.1
      dsimp only
      rw [if_neg (not_not.mpr hfirst)]
      refine ⟨_, rfl, ?_, fun frame hframe => ?_⟩
      · rw [List.getLast?_cons, Option.map_some, Option.some.injEq] at hlast
        rw [List.length_cons] at hlast ⊢
        dsimp only
        omega
      · dsimp only at hframe
        rw [List.mem_append] at hframe
        cases hframe with
        | inl hold => exact Or.inl (List.mem_of_mem_drop hold)
        | inr hnew => exact Or.inr hnew

/-- A flight takes the next numbers, and only when no snapshot is open. -/
theorem captureRetainedFrames_ok {core : WardxCore} {metrics : Option ClientFrame}
    {result : Option ClientBatch × WardxCore}
    (h : core.captureRetainedFrames settings metrics = .ok result) :
    result = (none, core) ∨ ∃ batch, core.snapshotOpen = false ∧
      batch.frames.map ClientFrame.seq = List.range' (core.seq + 1) batch.frames.length ∧
      result = (some batch, { core with seq := core.seq + batch.frames.length }) := by
  unfold WardxCore.captureRetainedFrames at h
  by_cases hclosed : (!core.clockAligned || core.snapshotOpen) = true
  · rw [if_pos hclosed] at h
    exact Or.inl (Except.ok.inj h).symm
  · rw [if_neg hclosed] at h
    have hopen : core.snapshotOpen = false := by
      cases hcase : core.snapshotOpen with
      | false => rfl
      | true => simp [hcase] at hclosed
    cases metrics with
    | none => exact Or.inl (Except.ok.inj h).symm
    | some flight =>
        dsimp only at h
        cases hsplit : clientSplit settings.client { flight with seq := core.seq + 1 }
            settings.limits with
        | error e =>
            rw [hsplit] at h
            cases h
        | ok batch =>
            rw [hsplit] at h
            obtain ⟨hne, hseq⟩ := seq_clientSplit hsplit
            have hlast := last_of_range hseq hne
            have hnext : core.seq + 1 + batch.frames.length - 1 = core.seq + batch.frames.length := by
              omega
            refine Or.inr ⟨batch, hopen, hseq, ?_⟩
            rw [← Except.ok.inj h, hlast, Option.getD_some]
            dsimp only
            rw [hnext]

theorem sequenced_step (action : Action) {s : System} (h : Sequenced s) :
    Sequenced (step settings action s) := by
  cases action with
  | capture hasActivity window =>
      cases hjob : s.job with
      | idle =>
          by_cases hcaptures : (s.core.clockAligned && hasActivity) = true
          · simp only [step, hjob, WardxCore.captureFrameIfDirty, if_pos hcaptures]
            refine { h with next := fun frame hsplitting => ?_ }
            cases hsplitting
            exact ⟨rfl, rfl⟩
          · simp only [step, hjob, WardxCore.captureFrameIfDirty, if_neg hcaptures]
            refine { h with next := fun frame hsplitting => ?_ }
            cases hsplitting
      | splitting frame => simpa only [step, hjob] using h
      | committed => simpa only [step, hjob] using h
  | commit =>
      cases hjob : s.job with
      | splitting frame =>
          obtain ⟨_, hnext⟩ := h.next frame hjob
          cases hsplit : clientSplit settings.client frame settings.limits with
          | error e => simpa only [step, hjob, hsplit] using h
          | ok batch =>
              obtain ⟨hne, hseq⟩ := seq_clientSplit hsplit
              rw [hnext] at hseq
              obtain ⟨core, hcommit, hcore, hpending⟩ :=
                commitSnapshot_ok settings.maxPendingFrames hne hseq
              simp only [step, hjob, hsplit, hcommit]
              refine ⟨increasing_append h.increasing h.taken hseq (List.drop_sublist _ _),
                fun other hother => ?_, fun _ hsplitting => (by cases hsplitting),
                fun other hother => ?_, h.refused⟩
              · rw [List.mem_append] at hother
                show other.seq ≤ core.seq
                cases hother with
                | inl hold =>
                    have hle := h.taken other hold
                    omega
                | inr hnew =>
                    have hrange := mem_range_of_range hseq (List.mem_of_mem_drop hnew)
                    omega
              · rw [List.mem_append]
                cases hpending other hother with
                | inl hold => exact Or.inl (h.pending other hold)
                | inr hnew => exact Or.inr hnew
      | idle => simpa only [step, hjob] using h
      | committed => simpa only [step, hjob] using h
  | finish =>
      cases hjob : s.job with
      | committed =>
          simp only [step, hjob]
          exact { h with next := fun _ hsplitting => by cases hsplitting }
      | idle => simpa only [step, hjob] using h
      | splitting frame => simpa only [step, hjob] using h
  | abandon => exact { h with next := fun _ hsplitting => by cases hsplitting }
  | captureRetained metrics =>
      cases hcapture : s.core.captureRetainedFrames settings metrics with
      | error e => simpa only [step, hcapture] using h
      | ok result =>
          obtain rfl | ⟨batch, hopen, hseq, rfl⟩ := captureRetainedFrames_ok settings hcapture
          · simpa only [step, hcapture] using h
          · simp only [step, hcapture]
            -- No snapshot is open, so no job holds a frame with the next number.
            refine ⟨increasing_append h.increasing h.taken hseq (List.Sublist.refl _),
              fun other hother => ?_, fun frame hsplitting => ?_,
              fun other hother => List.mem_append_left _ (h.pending other hother), h.refused⟩
            · rw [List.mem_append] at hother
              dsimp only
              cases hother with
              | inl hold =>
                  have hle := h.taken other hold
                  omega
              | inr hnew =>
                  have hrange := mem_range_of_range hseq hnew
                  omega
            · have hheld := (h.next frame hsplitting).1
              rw [hopen] at hheld
              cases hheld
  | takePending => exact { h with pending := fun _ hframe => by cases hframe }
  | alignClock => exact { h with }

end Wardx.SnapshotSequence
