import Wardx.Frames.FrameSplit

/-!
# The splitters of the other clients

The C# and the Swift client split by the same loop. Their frames always have a
list of distincts, which the wire form leaves out when it is empty; the Swift
wire form sorts its keys, and checks the lengths of the frames at the end. Each
prints numbers its own way.
-/
namespace Wardx.Frames

open Lib Json

/-! ## Frames -/

/-- A frame of the C# and Swift clients. -/
structure ClientFrame where
  seq : ℕ
  fromTime : ℤ
  toTime : ℤ
  rows : Kind → List Json
  wireBytes : ℕ

namespace ClientFrame

def empty (seq : ℕ) (fromTime toTime : ℤ) : ClientFrame := ⟨seq, fromTime, toTime, fun _ => [], 0⟩

def rowCount (frame : ClientFrame) : ℕ := (Kind.all.map fun kind => (frame.rows kind).length).sum

def push (kind : Kind) (row : Json) (frame : ClientFrame) : ClientFrame :=
  { frame with rows := Function.update frame.rows kind (frame.rows kind ++ [row]) }

/-- The frame with its distincts absent when there are none. -/
def toFrame (frame : ClientFrame) : Frame where
  seq := frame.seq
  fromTime := frame.fromTime
  toTime := frame.toTime
  counters := frame.rows .counters
  gauges := frame.rows .gauges
  histograms := frame.rows .histograms
  distincts := if (frame.rows .distincts).isEmpty then none else some (frame.rows .distincts)
  events := frame.rows .events
  logs := frame.rows .logs

/-- `ToWire` of the C# client. -/
def csharpWire (frame : ClientFrame) : Json :=
  .obj [("seq", .num frame.seq), ("from", .num frame.fromTime), ("to", .num frame.toTime),
    ("metrics", .obj ([("counters", .arr (frame.rows .counters)), ("gauges", .arr (frame.rows .gauges)),
      ("histograms", .arr (frame.rows .histograms))] ++
        if (frame.rows .distincts).isEmpty then []
        else [("distincts", .arr (frame.rows .distincts))])),
    ("events", .arr (frame.rows .events)), ("logs", .arr (frame.rows .logs))]

/-- `wire` of the Swift client, as it is written, with its keys sorted. -/
def swiftWire (frame : ClientFrame) : Json :=
  .obj [("events", .arr (frame.rows .events)), ("from", .num frame.fromTime),
    ("logs", .arr (frame.rows .logs)),
    ("metrics", .obj ([("counters", .arr (frame.rows .counters))] ++
      (if (frame.rows .distincts).isEmpty then []
        else [("distincts", .arr (frame.rows .distincts))]) ++
      [("gauges", .arr (frame.rows .gauges)), ("histograms", .arr (frame.rows .histograms))])),
    ("seq", .num frame.seq), ("to", .num frame.toTime)]

end ClientFrame

/-! ## The loop -/

/-- What the clients differ in. -/
structure Client where
  /-- How numbers print. -/
  text : Js
  wire : ClientFrame → Json
  /-- A frame's length is checked when it is finished, and not only at the end. -/
  checksEach : Bool

structure ClientSplitter where
  frames : List ClientFrame
  jsons : List String
  current : ClientFrame
  currentBytes : ℕ
  dropped : Kind → ℕ

structure ClientBatch where
  frames : List ClientFrame
  jsons : List String
  droppedRows : ℕ
  dropped : Kind → ℕ

section
variable (client : Client) (source : ClientFrame) (limits : FrameLimits)

namespace ClientSplitter

def measure (frame : ClientFrame) : Measured :=
  let json := (client.wire frame).stringify client.text
  ⟨json, byteLength json⟩

def emptyPhysical (n : ℕ) : ClientFrame :=
  ClientFrame.empty (source.seq + n) source.fromTime source.toTime

def start : ClientSplitter :=
  ⟨[], [], emptyPhysical source 0, (measure client (emptyPhysical source 0)).bytes, fun _ => 0⟩

/-- `FinishCurrent`. -/
def finishCurrent (s : ClientSplitter) : Except String ClientSplitter := do
  let measured := measure client s.current
  require (!client.checksEach || decide (measured.bytes ≤ limits.maxFrameBytes))
    "frame splitter produced an oversized frame"
  let next := emptyPhysical source (s.frames.length + 1)
  pure { s with
    frames := s.frames ++ [{ s.current with wireBytes := measured.bytes }]
    jsons := s.jsons ++ [measured.json]
    current := next
    currentBytes := (measure client next).bytes }

/-- `TryAppend`; none is the row that does not fit. -/
def tryAppend (kind : Kind) (row : Json) (rowBytes : ℕ) (s : ClientSplitter) :
    Option ClientSplitter :=
  let count := (s.current.rows kind).length
  let addedBytes := rowBytes + (if 0 < count then 1 else 0) +
    (if kind = .distincts ∧ count = 0 then byteLength ",\"distincts\":[]" else 0)
  if limits.maxFrameBytes < s.currentBytes + addedBytes ∨ limits.maxFrameRows ≤ s.current.rowCount
  then none
  else some { s with
    current := s.current.push kind row
    currentBytes := s.currentBytes + addedBytes }

/-- `TryAdd`. -/
def tryAdd (kind : Kind) (row : Json) (s : ClientSplitter) : Except String (Bool × ClientSplitter) :=
  let rowBytes := byteLength (row.stringify client.text)
  match tryAppend limits kind row rowBytes s with
  | some added => .ok (true, added)
  | none =>
      if 0 < s.current.rowCount then do
        let s ← finishCurrent client source limits s
        match tryAppend limits kind row rowBytes s with
        | some added => pure (true, added)
        | none => pure (false, s)
      else .ok (false, s)

/-- The loops over the collections. -/
def addRows (s : ClientSplitter) (rows : List (Kind × Json)) : Except String ClientSplitter :=
  rows.foldlM (fun s item => do
    let (added, s) ← tryAdd client source limits item.1 item.2 s
    pure (if added then s
      else { s with dropped := Function.update s.dropped item.1 (s.dropped item.1 + 1) })) s

def addDropMetric (droppedRows : ℕ) (s : ClientSplitter) : Except String ClientSplitter :=
  if 0 < droppedRows then do
    let (added, s) ← tryAdd client source limits .counters (dropMetric droppedRows) s
    require added "maxFrameBytes cannot contain the frame drop metric"
    pure s
  else .ok s

def finishLast (s : ClientSplitter) : Except String ClientSplitter :=
  if s.frames = [] ∨ 0 < s.current.rowCount then finishCurrent client source limits s else .ok s

end ClientSplitter

/-- The clients' `SplitToMaxBytes` and `split`. -/
def clientSplit : Except String ClientBatch := do
  require (1024 ≤ limits.maxFrameBytes) "maxFrameBytes must be an integer at least 1024"
  require (1 ≤ limits.maxFrameRows) "maxFrameRows must be an integer at least 1"
  let s ← ClientSplitter.addRows client source limits (ClientSplitter.start client source)
    (Kind.all.flatMap fun kind => (source.rows kind).map (kind, ·))
  let droppedRows := (Kind.all.map s.dropped).sum
  let s ← ClientSplitter.addDropMetric client source limits droppedRows s
  let s ← ClientSplitter.finishLast client source limits s
  require (s.frames.all fun frame => decide (frame.wireBytes ≤ limits.maxFrameBytes))
    "frame splitter produced an oversized frame"
  pure ⟨s.frames, s.jsons, droppedRows, s.dropped⟩

end

/-- The C# client. -/
def csharp (text : Js) : Client := ⟨text, ClientFrame.csharpWire, true⟩

/-- The Swift client; its batch has no texts. -/
def swift (text : Js) : Client := ⟨text, ClientFrame.swiftWire, false⟩

/-! ## Frames and their images -/

namespace ClientFrame

theorem rows_toFrame (frame : ClientFrame) (kind : Kind) :
    frame.toFrame.rows kind = frame.rows kind := by
  cases kind with
  | distincts =>
      show (if (frame.rows .distincts).isEmpty then none else some (frame.rows .distincts)).getD [] = _
      cases frame.rows .distincts with
      | nil => rfl
      | cons row rows => rfl
  | _ => rfl

theorem toFrame_push (frame : ClientFrame) (kind : Kind) (row : Json) :
    (frame.push kind row).toFrame = frame.toFrame.push kind row := by
  have hrows : frame.toFrame.distincts.getD [] = frame.rows .distincts := rows_toFrame frame .distincts
  cases kind with
  | distincts =>
      unfold Frame.push
      dsimp only
      rw [hrows]
      simp [toFrame, push]
  | _ => simp [toFrame, push, Frame.push]

theorem rowCount_toFrame (frame : ClientFrame) : frame.toFrame.rowCount = frame.rowCount := by
  have hrows : frame.toFrame.distincts.getD [] = frame.rows .distincts := rows_toFrame frame .distincts
  unfold Frame.rowCount rowCount
  rw [hrows]
  simp only [Kind.all, List.map_cons, List.map_nil, List.sum_cons, List.sum_nil]
  show (frame.rows .counters).length + (frame.rows .gauges).length +
    (frame.rows .histograms).length + _ + (frame.rows .events).length + (frame.rows .logs).length = _
  omega

theorem toJson_toFrame (frame : ClientFrame) : frame.csharpWire = frame.toFrame.toJson := by
  unfold csharpWire Frame.toJson toFrame
  dsimp only
  cases (frame.rows .distincts).isEmpty <;> rfl

end ClientFrame

/-- The client writes a frame in as many bytes as the reference form. -/
def SameLength (client : Client) : Prop :=
  ∀ frame, (ClientSplitter.measure client frame).bytes = (measure client.text frame.toFrame).bytes

theorem sameLength_csharp (text : Js) : SameLength (csharp text) := by
  intro frame
  unfold ClientSplitter.measure csharp
  dsimp only
  rw [ClientFrame.toJson_toFrame]
  rfl

theorem sameLength_swift (text : Js) : SameLength (swift text) := by
  intro frame
  have hseq : byteLength (quote "seq") = 5 := by decide +kernel
  have hfrom : byteLength (quote "from") = 6 := by decide +kernel
  have hto : byteLength (quote "to") = 4 := by decide +kernel
  have hmetrics : byteLength (quote "metrics") = 9 := by decide +kernel
  have hcounters : byteLength (quote "counters") = 10 := by decide +kernel
  have hgauges : byteLength (quote "gauges") = 8 := by decide +kernel
  have hhistograms : byteLength (quote "histograms") = 12 := by decide +kernel
  have hdistincts : byteLength (quote "distincts") = 11 := by decide +kernel
  have hevents : byteLength (quote "events") = 8 := by decide +kernel
  have hlogs : byteLength (quote "logs") = 6 := by decide +kernel
  have hopen : byteLength "\x7b" = 1 := rfl
  have hclose : byteLength "\x7d" = 1 := rfl
  have hleft : byteLength "[" = 1 := rfl
  have hright : byteLength "]" = 1 := rfl
  have hcolon : byteLength ":" = 1 := rfl
  have hcomma : byteLength "," = 1 := rfl
  rw [measure_bytes]
  unfold ClientSplitter.measure swift ClientFrame.swiftWire ClientFrame.toFrame itemsBytes
  dsimp only
  cases (frame.rows .distincts).isEmpty with
  | true =>
      simp only [if_true, List.append_nil, List.cons_append, List.nil_append, stringify,
        stringifyFields, byteLength_append, hseq, hfrom, hto, hmetrics, hcounters, hgauges,
        hhistograms, hevents, hlogs, hopen, hclose, hleft, hright, hcolon, hcomma]
      omega
  | false =>
      simp only [Bool.false_eq_true, if_false, List.cons_append, List.nil_append, stringify,
        stringifyFields, byteLength_append, hseq, hfrom, hto, hmetrics, hcounters, hgauges,
        hhistograms, hdistincts, hevents, hlogs, hopen, hclose, hleft, hright, hcolon, hcomma]
      omega

/-! ## The loop and its image -/

/-- The state of the reference splitter. -/
structure Images (limits : FrameLimits) (c : ClientSplitter) (s : Splitter) : Prop where
  frames : s.frames = c.frames.map ClientFrame.toFrame
  current : s.current = c.current.toFrame
  currentBytes : s.currentBytes = c.currentBytes
  dropped : s.dropped = c.dropped
  wireBytes : ∀ frame ∈ c.frames, frame.wireBytes ≤ limits.maxFrameBytes

section
variable {client : Client} {source : ClientFrame} {limits : FrameLimits} {c : ClientSplitter}
  {s : Splitter}

theorem toFrame_emptyPhysical (source : ClientFrame) (n : ℕ) :
    (ClientSplitter.emptyPhysical source n).toFrame = emptyPhysical source.toFrame n := rfl

theorem measure_emptyPhysical (hlength : SameLength client) (source : ClientFrame) (n : ℕ) :
    (measure client.text (emptyPhysical source.toFrame n)).bytes =
      (ClientSplitter.measure client (ClientSplitter.emptyPhysical source n)).bytes := by
  rw [hlength, toFrame_emptyPhysical]

theorem images_start (hlength : SameLength client) :
    Images limits (ClientSplitter.start client source)
      (Splitter.start client.text source.toFrame) := by
  refine ⟨rfl, rfl, measure_emptyPhysical hlength source 0, rfl, ?_⟩
  intro frame hframe
  cases hframe

theorem Images.finishCurrent (hlength : SameLength client) (h : Images limits c s) {after : Splitter}
    (hfinish : finishCurrent client.text source.toFrame limits s = .ok after) :
    ∃ last, ClientSplitter.finishCurrent client source limits c = .ok last ∧
      Images limits last after := by
  unfold Frames.finishCurrent at hfinish
  simp only [bind_eq_ok_iff, require_eq_ok_iff, decide_eq_true_eq, pure, Except.pure,
    Except.ok.injEq] at hfinish
  obtain ⟨_, hfits, rfl⟩ := hfinish
  have hmeasured : (ClientSplitter.measure client c.current).bytes ≤ limits.maxFrameBytes := by
    rw [hlength, ← h.current]
    exact hfits
  have hcount : s.frames.length = c.frames.length := by
    rw [h.frames, List.length_map]
  unfold ClientSplitter.finishCurrent
  dsimp only
  rw [decide_eq_true hmeasured, Bool.or_true]
  refine ⟨_, rfl, ?_, ?_, ?_, h.dropped, ?_⟩
  · show s.frames ++ [s.current] = (c.frames ++ [_]).map _
    rw [List.map_append, h.frames, h.current]
    rfl
  · show emptyPhysical source.toFrame (s.frames.length + 1) = _
    rw [hcount]
    rfl
  · show (measure client.text (emptyPhysical source.toFrame (s.frames.length + 1))).bytes = _
    rw [hcount]
    exact measure_emptyPhysical hlength source _
  · intro frame hframe
    rcases List.mem_append.mp hframe with hbefore | hlast
    · exact h.wireBytes frame hbefore
    · rw [List.mem_singleton.mp hlast]
      exact hmeasured

theorem Images.tryAppend (h : Images limits c s) (kind : Kind) (row : Json) (rowBytes : ℕ) :
    (tryAddRow limits kind row rowBytes s = none ∧
      ClientSplitter.tryAppend limits kind row rowBytes c = none) ∨
    ∃ after last, tryAddRow limits kind row rowBytes s = some after ∧
      ClientSplitter.tryAppend limits kind row rowBytes c = some last ∧ Images limits last after := by
  have hadded : addedBytes kind (s.current.rows? kind) rowBytes =
      rowBytes + (if 0 < (c.current.rows kind).length then 1 else 0) +
        (if kind = .distincts ∧ (c.current.rows kind).length = 0 then
          byteLength ",\"distincts\":[]" else 0) := by
    have hrows : (s.current.rows? kind).getD [] = c.current.rows kind := by
      rw [h.current]
      exact c.current.rows_toFrame kind
    have hcomma : comma (c.current.rows kind) =
        if 0 < (c.current.rows kind).length then 1 else 0 := by
      cases c.current.rows kind with
      | nil => rfl
      | cons row rows => rfl
    have habsent : (kind = .distincts ∧ s.current.rows? kind = none) ↔
        (kind = .distincts ∧ (c.current.rows kind).length = 0) := by
      refine and_congr_right fun hkind => ?_
      rw [hkind, h.current]
      show (if (c.current.rows .distincts).isEmpty then none else some (c.current.rows .distincts)) =
        none ↔ _
      cases c.current.rows .distincts with
      | nil => simp
      | cons row rows => simp
    unfold addedBytes
    rw [hrows, hcomma, if_congr habsent rfl rfl]
  have hcount : s.current.rowCount = c.current.rowCount := by
    rw [h.current, ClientFrame.rowCount_toFrame]
  unfold Frames.tryAddRow ClientSplitter.tryAppend
  dsimp only
  rw [← hadded, hcount, h.currentBytes]
  by_cases hover : limits.maxFrameBytes <
      c.currentBytes + addedBytes kind (s.current.rows? kind) rowBytes ∨
        limits.maxFrameRows ≤ c.current.rowCount
  · left
    rw [if_pos hover, if_pos hover]
    exact ⟨rfl, rfl⟩
  · right
    rw [if_neg hover, if_neg hover]
    refine ⟨_, _, rfl, rfl, h.frames, ?_, rfl, h.dropped, h.wireBytes⟩
    show s.current.push kind row = (c.current.push kind row).toFrame
    rw [ClientFrame.toFrame_push, h.current]

/-- A row that is not kept changes nothing but its count. -/
theorem Images.tryAdd (hlength : SameLength client) (h : Images limits c s) {kind : Kind} {row : Json}
    {countDrop kept : Bool} {after : Splitter}
    (hadd : addRow client.text source.toFrame limits kind row countDrop s = .ok (kept, after)) :
    ∃ last, ClientSplitter.tryAdd client source limits kind row c = .ok (kept, last) ∧
      Images limits (if kept = true ∨ countDrop = false then last
        else { last with
          dropped := Function.update last.dropped kind (last.dropped kind + 1) }) after := by
  have hcounted : ∀ {c : ClientSplitter} {s : Splitter}, Images limits c s →
      Images limits (if false = true ∨ countDrop = false then c
        else { c with dropped := Function.update c.dropped kind (c.dropped kind + 1) })
          (s.countDropped kind countDrop) := by
    intro c s h
    cases countDrop with
    | false => exact h
    | true =>
        refine ⟨h.frames, h.current, h.currentBytes, ?_, h.wireBytes⟩
        show Function.update s.dropped kind (s.dropped kind + 1) = _
        rw [h.dropped]
        rfl
  have hcount : s.current.rowCount = c.current.rowCount := by
    rw [h.current, ClientFrame.rowCount_toFrame]
  unfold Frames.addRow at hadd
  unfold ClientSplitter.tryAdd
  dsimp only at hadd ⊢
  rcases h.tryAppend kind row (byteLength (row.stringify client.text)) with
    ⟨hnone, hnone'⟩ | ⟨added, last, hsome, hsome', himages⟩
  · rw [hnone] at hadd
    rw [hnone']
    dsimp only at hadd ⊢
    rw [hcount] at hadd
    by_cases hpositive : 0 < c.current.rowCount
    · rw [if_pos hpositive] at hadd ⊢
      rw [bind_eq_ok_iff] at hadd
      obtain ⟨next, hnext, hadd⟩ := hadd
      obtain ⟨cnext, hcnext, himages⟩ := h.finishCurrent hlength hnext
      rw [hcnext]
      rcases himages.tryAppend kind row (byteLength (row.stringify client.text)) with
        ⟨hagain, hagain'⟩ | ⟨added, last, hagain, hagain', hlast⟩
      · rw [hagain] at hadd
        cases hadd
        refine ⟨cnext, ?_, hcounted himages⟩
        dsimp only [bind, Except.bind]
        rw [hagain']
        rfl
      · rw [hagain] at hadd
        cases hadd
        refine ⟨last, ?_, hlast⟩
        dsimp only [bind, Except.bind]
        rw [hagain']
        rfl
    · rw [if_neg hpositive] at hadd ⊢
      cases hadd
      exact ⟨c, rfl, hcounted h⟩
  · rw [hsome] at hadd
    rw [hsome']
    cases hadd
    exact ⟨last, rfl, himages⟩

theorem Images.addRows (hlength : SameLength client) (rows : List (Kind × Json))
    (h : Images limits c s) {after : Splitter}
    (hadd : addRows client.text source.toFrame limits s rows = .ok after) :
    ∃ last, ClientSplitter.addRows client source limits c rows = .ok last ∧
      Images limits last after := by
  induction rows generalizing c s with
  | nil =>
      cases hadd
      exact ⟨c, rfl, h⟩
  | cons item rows ih =>
      unfold Frames.addRows at hadd
      rw [List.foldlM_cons, bind_eq_ok_iff] at hadd
      obtain ⟨next, hnext, hadd⟩ := hadd
      rw [bind_eq_ok_iff] at hnext
      obtain ⟨⟨kept, next'⟩, hitem, hsame⟩ := hnext
      cases hsame
      obtain ⟨last, hlast, himages⟩ := h.tryAdd hlength hitem
      obtain ⟨final, hfinal, hend⟩ := ih himages hadd
      refine ⟨final, ?_, hend⟩
      unfold ClientSplitter.addRows
      rw [List.foldlM_cons, hlast]
      cases kept with
      | true => exact hfinal
      | false => exact hfinal

/-- Where the reference splitter succeeds the client's makes the same frames. -/
theorem clientSplit_of_split (hlength : SameLength client) {batch : FrameBatch}
    (hsplit : splitToMaxBytes client.text source.toFrame limits = .ok batch) :
    ∃ own, clientSplit client source limits = .ok own ∧
      own.frames.map ClientFrame.toFrame = batch.frames ∧ own.dropped = batch.dropped ∧
      own.droppedRows = batch.droppedRows := by
  have htagged : source.toFrame.tagged =
      Kind.all.flatMap fun kind => (source.rows kind).map (kind, ·) := by
    unfold Frame.tagged
    simp only [ClientFrame.rows_toFrame]
  unfold splitToMaxBytes at hsplit
  simp only [bind_eq_ok_iff, require_eq_ok_iff, decide_eq_true_eq, pure, Except.pure,
    Except.ok.injEq] at hsplit
  obtain ⟨_, hbytes, _, hrows, s, hadd, after, hmetric, last, hfinish, rfl⟩ := hsplit
  rw [htagged] at hadd
  obtain ⟨c, hcadd, himages⟩ := (images_start hlength).addRows hlength _ hadd
  have hcmetric : ∃ cafter, ClientSplitter.addDropMetric client source limits
      (Kind.all.map c.dropped).sum c = .ok cafter ∧ Images limits cafter after := by
    rw [himages.dropped] at hmetric
    unfold Frames.addDropMetric at hmetric
    unfold ClientSplitter.addDropMetric
    split_ifs at hmetric ⊢
    · rw [bind_eq_ok_iff] at hmetric
      obtain ⟨⟨kept, next⟩, hitem, hmetric⟩ := hmetric
      rw [bind_eq_ok_iff] at hmetric
      obtain ⟨_, hkept, hsame⟩ := hmetric
      cases hsame
      obtain ⟨clast, hclast, hlast⟩ := himages.tryAdd hlength hitem
      rw [if_pos (Or.inr rfl)] at hlast
      refine ⟨clast, ?_, hlast⟩
      rw [hclast]
      rw [require_eq_ok_iff] at hkept
      rw [hkept]
      rfl
    · cases hmetric
      exact ⟨c, rfl, himages⟩
  obtain ⟨cafter, hcafter, hafter⟩ := hcmetric
  have hcfinish : ∃ clast, ClientSplitter.finishLast client source limits cafter = .ok clast ∧
      Images limits clast last := by
    have hopen : (after.frames = [] ∨ 0 < after.current.rowCount) ↔
        (cafter.frames = [] ∨ 0 < cafter.current.rowCount) := by
      rw [hafter.frames, hafter.current, ClientFrame.rowCount_toFrame, List.map_eq_nil_iff]
    unfold Frames.finishLast at hfinish
    unfold ClientSplitter.finishLast
    rw [if_congr hopen rfl rfl] at hfinish
    split_ifs at hfinish ⊢
    · exact hafter.finishCurrent hlength hfinish
    · cases hfinish
      exact ⟨cafter, rfl, hafter⟩
  obtain ⟨clast, hclast, hlast⟩ := hcfinish
  refine ⟨⟨clast.frames, clast.jsons, (Kind.all.map c.dropped).sum, clast.dropped⟩, ?_,
    hlast.frames.symm, hlast.dropped.symm, by rw [himages.dropped]⟩
  have hwire : (clast.frames.all fun frame => decide (frame.wireBytes ≤ limits.maxFrameBytes)) = true :=
    List.all_eq_true.mpr fun frame hframe => decide_eq_true (hlast.wireBytes frame hframe)
  unfold clientSplit
  rw [decide_eq_true hbytes, decide_eq_true hrows, hcadd]
  show (do
    let s ← ClientSplitter.addDropMetric client source limits (Kind.all.map c.dropped).sum c
    let s ← ClientSplitter.finishLast client source limits s
    require (s.frames.all fun frame => decide (frame.wireBytes ≤ limits.maxFrameBytes)) _
    pure (ClientBatch.mk s.frames s.jsons _ s.dropped)) = _
  rw [hcafter]
  show (do
    let s ← ClientSplitter.finishLast client source limits cafter
    require (s.frames.all fun frame => decide (frame.wireBytes ≤ limits.maxFrameBytes)) _
    pure (ClientBatch.mk s.frames s.jsons _ s.dropped)) = _
  rw [hclast]
  show (do
    require (clast.frames.all fun frame => decide (frame.wireBytes ≤ limits.maxFrameBytes)) _
    pure (ClientBatch.mk clast.frames clast.jsons _ clast.dropped)) = _
  rw [hwire]
  rfl

end

/-! ## The same partition -/

/-- The rows of two clients have the same lengths, and so have the numbers that
a split prints. -/
structure SameSizes (js : Js) (source : Frame) (text : Js) (own : ClientFrame) : Prop where
  rows : ∀ kind, (source.rows kind).map (fun row => byteLength (row.stringify js)) =
    (own.rows kind).map fun row => byteLength (row.stringify text)
  seq : ∀ n ≤ source.tagged.length + 1, byteLength (js.numberText ((source.seq + n : ℕ) : ℚ)) =
    byteLength (text.numberText ((own.seq + n : ℕ) : ℚ))
  fromTime : byteLength (js.numberText source.fromTime) = byteLength (text.numberText own.fromTime)
  toTime : byteLength (js.numberText source.toTime) = byteLength (text.numberText own.toTime)
  dropped : ∀ n ≤ source.tagged.length,
    byteLength (js.numberText (n : ℕ)) = byteLength (text.numberText (n : ℕ))

section
variable {js text : Js} {source : Frame} {own : ClientFrame} {limits : FrameLimits}

theorem SameSizes.sizes_eq (h : SameSizes js source text own) :
    source.tagged.map (sized js) = own.toFrame.tagged.map (sized text) := by
  have hkind : ∀ kind, ((source.rows kind).map (kind, ·)).map (sized js) =
      ((own.toFrame.rows kind).map (kind, ·)).map (sized text) := by
    intro kind
    have hmap : ∀ (js : Js) (rows : List Json), (rows.map (kind, ·)).map (sized js) =
        (rows.map fun row => byteLength (row.stringify js)).map (kind, ·) := by
      intro js rows
      rw [List.map_map, List.map_map]
      rfl
    rw [hmap, hmap, h.rows, ClientFrame.rows_toFrame]
  unfold Frame.tagged
  rw [List.map_flatMap, List.map_flatMap]
  simp only [hkind]

theorem SameSizes.length (h : SameSizes js source text own) :
    own.toFrame.tagged.length = source.tagged.length := by
  have hlengths := congrArg List.length h.sizes_eq
  rw [List.length_map, List.length_map] at hlengths
  exact hlengths.symm

theorem SameSizes.boundedPrint (h : SameSizes js source text own) (hprint : BoundedPrint js source) :
    BoundedPrint text own.toFrame := by
  refine ⟨?_, ?_, ?_, ?_⟩
  · intro n hn
    rw [h.length] at hn
    have hsame := h.seq n hn
    have hbound := hprint.seq n hn
    show byteLength (text.numberText ((own.seq + n : ℕ) : ℚ)) ≤ 64
    omega
  · have hsame := h.fromTime
    have hbound := hprint.fromTime
    show byteLength (text.numberText own.fromTime) ≤ 64
    omega
  · have hsame := h.toTime
    have hbound := hprint.toTime
    show byteLength (text.numberText own.toTime) ≤ 64
    omega
  · intro n hn
    rw [h.length] at hn
    have hsame := h.dropped n hn
    have hbound := hprint.dropped n hn
    omega

theorem SameSizes.emptyBytes (h : SameSizes js source text own) {n : ℕ}
    (hn : n ≤ source.tagged.length + 1) :
    emptyBytes js source n = emptyBytes text own.toFrame n := by
  have hseq := h.seq n hn
  have hfrom := h.fromTime
  have hto := h.toTime
  unfold Frames.emptyBytes
  rw [measure_bytes, measure_bytes]
  simp only [emptyPhysical, emptyFrame, itemsBytes, stringifyItems, ClientFrame.toFrame]
  omega

theorem SameSizes.fits (h : SameSizes js source text own) (limits : FrameLimits) :
    ∀ k ≤ source.tagged.length + 1, ∀ content item,
      sizeFits (Frames.emptyBytes js source) limits k content item =
        sizeFits (Frames.emptyBytes text own.toFrame) limits k content item := by
  intro k hk content item
  unfold sizeFits
  rw [h.emptyBytes hk]

/-- How the rows are packed depends on their lengths only. -/
theorem SameSizes.pack (h : SameSizes js source text own) (limits : FrameLimits) :
    (Packing.pack (fitsIn js source limits) source.tagged).map (sized js) =
        (Packing.pack (fitsIn text own.toFrame limits) own.toFrame.tagged).map (sized text) ∧
      Packing.slots (fitsIn js source limits) source.tagged =
        Packing.slots (fitsIn text own.toFrame limits) own.toFrame.tagged := by
  have hcongr : Packing.pack (sizeFits (Frames.emptyBytes js source) limits)
        (source.tagged.map (sized js)) =
      Packing.pack (sizeFits (Frames.emptyBytes text own.toFrame) limits)
        (source.tagged.map (sized js)) ∧
      Packing.slots (sizeFits (Frames.emptyBytes js source) limits) (source.tagged.map (sized js)) =
        Packing.slots (sizeFits (Frames.emptyBytes text own.toFrame) limits)
          (source.tagged.map (sized js)) := by
    apply Packing.pack_congr
    intro k hk
    rw [List.length_map] at hk
    exact h.fits limits k (by omega)
  have hslots : ∀ (js : Js) (source : Frame), Packing.slots (fitsIn js source limits) source.tagged =
      Packing.slots (sizeFits (Frames.emptyBytes js source) limits)
        (source.tagged.map (sized js)) :=
    fun js source => Packing.slots_map (sized js) _ source.tagged
  have hpack : ∀ (js : Js) (source : Frame),
      (Packing.pack (fitsIn js source limits) source.tagged).map (sized js) =
        Packing.pack (sizeFits (Frames.emptyBytes js source) limits)
          (source.tagged.map (sized js)) :=
    fun js source => Packing.map_pack (sized js) _ source.tagged
  refine ⟨?_, ?_⟩
  · rw [hpack, hpack, ← h.sizes_eq, hcongr.1]
  · rw [hslots, hslots, ← h.sizes_eq, hcongr.2]

/-- The counter of the dropped rows goes to the same frame. -/
theorem SameSizes.splitPacking (h : SameSizes js source text own) (limits : FrameLimits) :
    (splitPacking js source limits).map (sized js) =
      (splitPacking text own.toFrame limits).map (sized text) := by
  have hpacked := (h.pack limits).1
  have hdropped := congrArg (fun p => p.dropped.length) hpacked
  change (List.map _ _).length = (List.map _ _).length at hdropped
  rw [List.length_map, List.length_map] at hdropped
  have hcount : (Packing.pack (fitsIn js source limits) source.tagged).dropped.length ≤
      source.tagged.length := length_dropped_le js source limits
  have hmetric : sized js (.counters, dropMetric
        (Packing.pack (fitsIn js source limits) source.tagged).dropped.length) =
      sized text (.counters, dropMetric
        (Packing.pack (fitsIn text own.toFrame limits) own.toFrame.tagged).dropped.length) := by
    unfold sized
    dsimp only
    rw [dropMetric_bytes, dropMetric_bytes, ← hdropped, h.dropped _ hcount]
  have hclosed : ((Packing.pack (fitsIn text own.toFrame limits) own.toFrame.tagged).map
      (sized text)).closed.length + 1 ≤ source.tagged.length + 1 := by
    rw [← hpacked]
    show (List.map _ _).length + 1 ≤ _
    rw [List.length_map]
    exact Nat.succ_le_succ (Packing.length_closed_pack_le _ _)
  have hput : ∀ (js : Js) (source : Frame) (p : Packing (Kind × Json)) (item : Kind × Json),
      (p.put (fitsIn js source limits) item).map (sized js) =
        (p.map (sized js)).put (sizeFits (Frames.emptyBytes js source) limits) (sized js item) :=
    fun js source p item => Packing.map_put (sized js) _ p item
  have hnone : (Packing.pack (fitsIn js source limits) source.tagged).dropped = [] ↔
      (Packing.pack (fitsIn text own.toFrame limits) own.toFrame.tagged).dropped = [] := by
    rw [← List.length_eq_zero_iff, hdropped, List.length_eq_zero_iff]
  unfold Frames.splitPacking
  dsimp only
  by_cases hempty : (Packing.pack (fitsIn js source limits) source.tagged).dropped = []
  · rw [if_pos hempty, if_pos (hnone.mp hempty)]
    exact hpacked
  · rw [if_neg hempty, if_neg (mt hnone.mpr hempty), hput, hput, hpacked, hmetric]
    exact Packing.put_congr (h.fits limits) hclosed _

end

/-- Every split of a captured frame succeeds and conserves the rows: consecutive
frames within the limits hold, collection by collection, the rows that fit an
empty frame, and a last counter the number of the others. The C# and the Swift
splitter put rows of the same lengths into the same frames. -/
theorem split_conserves_rows (js : Js) (source : Frame) (limits : FrameLimits)
    (hbytes : 1024 ≤ limits.maxFrameBytes) (hrows : 1 ≤ limits.maxFrameRows)
    (hprint : BoundedPrint js source) :
    ∃ (slots : List Slot) (batch : FrameBatch), splitToMaxBytes js source limits = .ok batch ∧
      slots.length = source.tagged.length ∧ Conserves js source limits slots batch ∧
      ∀ (text : Js) (own : ClientFrame), SameSizes js source text own →
        ∀ client, client = csharp text ∨ client = swift text →
          ∃ ownBatch, clientSplit client own limits = .ok ownBatch ∧
            ownBatch.frames.length = batch.frames.length ∧
            (∀ n kind, ((ownBatch.frames[n]?).map fun frame => frame.rows kind).getD [] =
              ofKind kind (Packing.content own.toFrame.tagged slots n) ++
                if n + 1 = batch.frames.length ∧ kind = .counters ∧ 0 < batch.droppedRows then
                  [dropMetric batch.droppedRows]
                else []) ∧
            ownBatch.droppedRows = batch.droppedRows ∧ ownBatch.dropped = batch.dropped := by
  obtain ⟨batch, hsplit, hconserves⟩ := splitToMaxBytes_conserves hbytes hrows hprint
  obtain ⟨batch', hsplit', hframes, -, -, hcount, hkinds⟩ := splitToMaxBytes_eq hbytes hrows hprint
  obtain rfl : batch = batch' := Except.ok.inj (hsplit.symm.trans hsplit')
  refine ⟨_, batch, hsplit, Packing.length_slots _ _, hconserves, ?_⟩
  intro text own hsizes client hclient
  have hclient' : client.text = text ∧ SameLength client := by
    rcases hclient with rfl | rfl
    · exact ⟨rfl, sameLength_csharp text⟩
    · exact ⟨rfl, sameLength_swift text⟩
  obtain ⟨rfl, hlength⟩ := hclient'
  have hown := hsizes.boundedPrint hprint
  obtain ⟨image, himage, himageConserves⟩ := splitToMaxBytes_conserves hbytes hrows hown
  obtain ⟨image', himage', himageFrames, -, -, himageCount, himageKinds⟩ :=
    splitToMaxBytes_eq hbytes hrows hown
  obtain rfl : image = image' := Except.ok.inj (himage.symm.trans himage')
  obtain ⟨ownBatch, hownSplit, hownFrames, hownDropped, hownRows⟩ :=
    clientSplit_of_split hlength himage
  have hpacked := (hsizes.pack limits).1
  have hframesLength : image.frames.length = batch.frames.length := by
    have hbins := congrArg (fun p => p.bins.length) (hsizes.splitPacking limits)
    rw [Packing.bins_map, Packing.bins_map, List.length_map, List.length_map] at hbins
    rw [himageFrames, hframes, List.length_mapIdx, List.length_mapIdx, hbins]
  have hrowsCount : image.droppedRows = batch.droppedRows := by
    have hdropped := congrArg (fun p => p.dropped.length) hpacked
    change (List.map _ _).length = (List.map _ _).length at hdropped
    rw [List.length_map, List.length_map] at hdropped
    rw [himageCount, hcount, hdropped]
  have hdroppedKinds : image.dropped = batch.dropped := by
    funext kind
    have hofKind : ∀ (js : Js) (content : List (Kind × Json)), (ofKind kind content).length =
        ((content.map (sized js)).filter fun item => decide (item.1 = kind)).length := by
      intro js content
      unfold ofKind
      rw [List.length_map, List.filter_map, List.length_map]
      rfl
    have hdropped := congrArg (fun p => p.dropped) hpacked
    change List.map _ _ = List.map _ _ at hdropped
    rw [himageKinds, hkinds, hofKind client.text, hofKind js, hdropped]
  refine ⟨ownBatch, hownSplit, ?_, ?_, hownRows.trans hrowsCount, hownDropped.trans hdroppedKinds⟩
  · rw [← hframesLength, ← hownFrames, List.length_map]
  · intro n kind
    have hplaced := himageConserves.placed n kind
    rw [← hownFrames, List.getElem?_map, Option.map_map] at hplaced
    have hrowsOf : (fun frame : Frame => frame.rows kind) ∘ ClientFrame.toFrame =
        fun frame : ClientFrame => frame.rows kind :=
      funext fun frame => frame.rows_toFrame kind
    rw [hrowsOf, hownFrames, hframesLength, hrowsCount, ← (hsizes.pack limits).2] at hplaced
    exact hplaced

/-! ### A frame of five rows -/

def counterRow (name : String) : Json := .arr [.str name, .null, .num 1]

def fiveRowFrame : Frame where
  seq := 9
  fromTime := 0
  toTime := 60000
  counters := [counterRow "a", counterRow "b", counterRow "c"]
  gauges := []
  histograms := []
  distincts := some [counterRow "users"]
  events := [counterRow "e"]
  logs := []

/-- The same rows in a client's frame. -/
def fiveRowClientFrame : ClientFrame := ⟨9, 0, 60000, fiveRowFrame.rows, 0⟩

theorem split_conserves_rows_fiveRows :
    ∃ batch ownBatch, splitToMaxBytes Js.plain fiveRowFrame ⟨1024, 2⟩ = .ok batch ∧
      clientSplit (swift Js.plain) fiveRowClientFrame ⟨1024, 2⟩ = .ok ownBatch ∧
      ownBatch.frames.length = batch.frames.length ∧
      (batch.frames.map fun frame => (frame.seq, frame.rowCount)) = [(9, 2), (10, 2), (11, 1)] := by
  have hprint : BoundedPrint Js.plain fiveRowFrame :=
    ⟨by decide +kernel, by decide +kernel, by decide +kernel, by decide +kernel⟩
  have hsame : SameSizes Js.plain fiveRowFrame Js.plain fiveRowClientFrame :=
    ⟨fun _ => rfl, fun _ _ => rfl, rfl, rfl, fun _ _ => rfl⟩
  have hframes : ((splitToMaxBytes Js.plain fiveRowFrame ⟨1024, 2⟩).toOption.map fun batch =>
      batch.frames.map fun frame => (frame.seq, frame.rowCount)) =
        some [(9, 2), (10, 2), (11, 1)] := by decide +kernel
  obtain ⟨slots, batch, hsplit, -, -, hclients⟩ :=
    split_conserves_rows Js.plain fiveRowFrame ⟨1024, 2⟩ (by decide) (by decide) hprint
  obtain ⟨ownBatch, hown, hlength, -⟩ := hclients Js.plain fiveRowClientFrame hsame
    (swift Js.plain) (Or.inr rfl)
  rw [hsplit] at hframes
  exact ⟨batch, ownBatch, hsplit, hown, hlength, Option.some.inj hframes⟩

end Wardx.Frames
