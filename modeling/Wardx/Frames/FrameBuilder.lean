import Wardx.Json
import Wardx.Lib.Check
import Wardx.Lib.NextFit

/-!
# Splitting a frame

A captured frame is split into physical frames, each within a number of bytes
and of rows. The splitter keeps the byte length of the current frame by adding
what each row adds to its text, and puts the rows one after another by next fit.

The generator's pauses are left out; they do not change what it returns.
-/
namespace Wardx.Frames

open Lib Json

/-! ## Frames -/

/-- The collections of a frame, in the order they are split. -/
inductive Kind
  | counters | gauges | histograms | distincts | events | logs
deriving DecidableEq, Repr

def Kind.all : List Kind := [.counters, .gauges, .histograms, .distincts, .events, .logs]

structure Frame where
  seq : ℕ
  fromTime : ℤ
  toTime : ℤ
  counters : List Json
  gauges : List Json
  histograms : List Json
  distincts : Option (List Json)
  events : List Json
  logs : List Json
deriving DecidableEq, Repr

def emptyFrame (seq : ℕ) (fromTime toTime : ℤ) : Frame :=
  ⟨seq, fromTime, toTime, [], [], [], none, [], []⟩

namespace Frame

/-- The rows of a collection; the distincts may be absent. -/
def rows? (frame : Frame) : Kind → Option (List Json)
  | .counters => some frame.counters
  | .gauges => some frame.gauges
  | .histograms => some frame.histograms
  | .distincts => frame.distincts
  | .events => some frame.events
  | .logs => some frame.logs

def rows (frame : Frame) (kind : Kind) : List Json := (frame.rows? kind).getD []

/-- `rowCount`. -/
def rowCount (frame : Frame) : ℕ :=
  frame.counters.length + frame.gauges.length + frame.histograms.length +
    (frame.distincts.getD []).length + frame.events.length + frame.logs.length

/-- The row at the end of its collection, which it introduces if it is absent. -/
def push (kind : Kind) (row : Json) (frame : Frame) : Frame :=
  match kind with
  | .counters => { frame with counters := frame.counters ++ [row] }
  | .gauges => { frame with gauges := frame.gauges ++ [row] }
  | .histograms => { frame with histograms := frame.histograms ++ [row] }
  | .distincts => { frame with distincts := some (frame.distincts.getD [] ++ [row]) }
  | .events => { frame with events := frame.events ++ [row] }
  | .logs => { frame with logs := frame.logs ++ [row] }

def toJson (frame : Frame) : Json :=
  .obj [("seq", .num frame.seq), ("from", .num frame.fromTime), ("to", .num frame.toTime),
    ("metrics", .obj ([("counters", .arr frame.counters), ("gauges", .arr frame.gauges),
      ("histograms", .arr frame.histograms)] ++
        match frame.distincts with
        | some distincts => [("distincts", .arr distincts)]
        | none => [])),
    ("events", .arr frame.events), ("logs", .arr frame.logs)]

/-- The rows with their collections, in the order they are split. -/
def tagged (frame : Frame) : List (Kind × Json) :=
  Kind.all.flatMap fun kind => (frame.rows kind).map (kind, ·)

end Frame

/-- `Buffer.byteLength` of a text. -/
def byteLength (text : String) : ℕ := text.utf8ByteSize

structure Measured where
  json : String
  bytes : ℕ

def measure (js : Js) (frame : Frame) : Measured :=
  let json := frame.toJson.stringify js
  ⟨json, byteLength json⟩

/-! ## The splitter -/

structure Splitter where
  frames : List Frame
  jsons : List String
  current : Frame
  currentBytes : ℕ
  dropped : Kind → ℕ

structure FrameLimits where
  maxFrameBytes : ℕ
  maxFrameRows : ℕ

/-- `INTERNAL.frameRowsDropped`. -/
def frameRowsDropped : String := "wardx.internal.frame_rows_dropped"

/-- The counter row of the dropped rows. -/
def dropMetric (droppedRows : ℕ) : Json := .arr [.str frameRowsDropped, .null, .num droppedRows]

section
variable (js : Js) (source : Frame) (limits : FrameLimits)

/-- The `n`-th physical frame without rows. -/
def emptyPhysical (n : ℕ) : Frame := emptyFrame (source.seq + n) source.fromTime source.toTime

def Splitter.start : Splitter :=
  ⟨[], [], emptyPhysical source 0, (measure js (emptyPhysical source 0)).bytes, fun _ => 0⟩

def finishCurrent (s : Splitter) : Except String Splitter := do
  let measured := measure js s.current
  require (measured.bytes ≤ limits.maxFrameBytes) "frame splitter produced an oversized frame"
  let next := emptyPhysical source (s.frames.length + 1)
  pure { s with
    frames := s.frames ++ [s.current]
    jsons := s.jsons ++ [measured.json]
    current := next
    currentBytes := (measure js next).bytes }

/-- The comma before a further row. -/
def comma (rows : List Json) : ℕ := if rows.isEmpty then 0 else 1

/-- What a row adds to the text; the first distinct row also introduces the
optional property. -/
def addedBytes (kind : Kind) (rows : Option (List Json)) (rowBytes : ℕ) : ℕ :=
  rowBytes + comma (rows.getD []) +
    if kind = .distincts ∧ rows = none then byteLength ",\"distincts\":[]" else 0

/-- `tryAddRow`; none is the row that does not fit. -/
def tryAddRow (kind : Kind) (row : Json) (rowBytes : ℕ) (s : Splitter) : Option Splitter :=
  let addedBytes := addedBytes kind (s.current.rows? kind) rowBytes
  if limits.maxFrameBytes < s.currentBytes + addedBytes ∨ limits.maxFrameRows ≤ s.current.rowCount
  then none
  else some { s with
    current := s.current.push kind row
    currentBytes := s.currentBytes + addedBytes }

def Splitter.countDropped (kind : Kind) (countDrop : Bool) (s : Splitter) : Splitter :=
  if countDrop then { s with dropped := Function.update s.dropped kind (s.dropped kind + 1) } else s

def addRow (kind : Kind) (row : Json) (countDrop : Bool) (s : Splitter) :
    Except String (Bool × Splitter) :=
  let rowBytes := byteLength (row.stringify js)
  match tryAddRow limits kind row rowBytes s with
  | some added => .ok (true, added)
  | none =>
      if 0 < s.current.rowCount then do
        let s ← finishCurrent js source limits s
        match tryAddRow limits kind row rowBytes s with
        | some added => pure (true, added)
        | none => pure (false, s.countDropped kind countDrop)
      else .ok (false, s.countDropped kind countDrop)

/-- The loop over the rows. -/
def addRows (s : Splitter) (rows : List (Kind × Json)) : Except String Splitter :=
  rows.foldlM (fun s item => do
    let (_, s) ← addRow js source limits item.1 item.2 true s
    pure s) s

/-- The counter of the dropped rows, when there are any. -/
def addDropMetric (droppedRows : ℕ) (s : Splitter) : Except String Splitter :=
  if 0 < droppedRows then do
    let (added, s) ← addRow js source limits .counters (dropMetric droppedRows) false s
    require added "maxFrameBytes cannot contain the frame drop metric"
    pure s
  else .ok s

/-- The last frame, unless it has no rows and is not the only one. -/
def finishLast (s : Splitter) : Except String Splitter :=
  if s.frames = [] ∨ 0 < s.current.rowCount then finishCurrent js source limits s else .ok s

structure FrameBatch where
  frames : List Frame
  jsons : List String
  droppedRows : ℕ
  dropped : Kind → ℕ

/-- `splitToMaxBytes`. -/
def splitToMaxBytes : Except String FrameBatch := do
  require (1024 ≤ limits.maxFrameBytes) "maxFrameBytes must be an integer at least 1024"
  require (1 ≤ limits.maxFrameRows) "maxFrameRows must be an integer at least 1"
  let s ← addRows js source limits (Splitter.start js source) source.tagged
  let droppedRows := (Kind.all.map s.dropped).sum
  let s ← addDropMetric js source limits droppedRows s
  let s ← finishLast js source limits s
  pure ⟨s.frames, s.jsons, droppedRows, s.dropped⟩

end

/-! ## Lengths -/

theorem byteLength_append (a b : String) : byteLength (a ++ b) = byteLength a + byteLength b :=
  String.utf8ByteSize_append

theorem stringifyItems_cons_cons (js : Js) (first second : Json) (rest : List Json) :
    stringifyItems js (first :: second :: rest) =
      first.stringify js ++ "," ++ stringifyItems js (second :: rest) := by
  rw [stringifyItems]
  exact List.cons_ne_nil second rest

theorem stringifyItems_concat (js : Js) (rows : List Json) (row : Json) :
    byteLength (stringifyItems js (rows ++ [row])) =
      byteLength (stringifyItems js rows) + byteLength (row.stringify js) + comma rows := by
  have hcomma : byteLength "," = 1 := rfl
  have hone : ∀ only : Json, stringifyItems js [only] = only.stringify js := fun only => by
    rw [stringifyItems]
  induction rows with
  | nil =>
      rw [List.nil_append, hone, stringifyItems]
      exact (Nat.zero_add _).symm
  | cons first rest ih =>
      have hfirst : ∀ rows : List Json, comma (first :: rows) = 1 := fun _ => rfl
      rw [hfirst]
      cases rest with
      | nil =>
          rw [List.singleton_append, stringifyItems_cons_cons, byteLength_append,
            byteLength_append, hcomma, hone, hone]
          omega
      | cons second rest =>
          have hsecond : comma (second :: rest) = 1 := rfl
          rw [hsecond] at ih
          rw [List.cons_append, List.cons_append, stringifyItems_cons_cons, byteLength_append,
            byteLength_append, ← List.cons_append, ih, stringifyItems_cons_cons, byteLength_append,
            byteLength_append]
          omega

/-- The bytes of an array's rows with their commas. -/
def itemsBytes (js : Js) (rows : List Json) : ℕ := byteLength (stringifyItems js rows)

theorem measure_bytes (js : Js) (frame : Frame) :
    (measure js frame).bytes =
      byteLength (js.numberText frame.seq) + byteLength (js.numberText frame.fromTime) +
        byteLength (js.numberText frame.toTime) + 98 + itemsBytes js frame.counters +
        itemsBytes js frame.gauges + itemsBytes js frame.histograms +
        (match frame.distincts with
          | some rows => 15 + itemsBytes js rows
          | none => 0) + itemsBytes js frame.events + itemsBytes js frame.logs := by
  have hseq : byteLength (quote "seq") = 5 := by decide +kernel
  have hfrom : byteLength (quote "from") = 6 := by decide +kernel
  have hto : byteLength (quote "to") = 4 := by decide +kernel
  have hmetrics : byteLength (quote "metrics") = 9 := by decide +kernel
  have hcounters : byteLength (quote "counters") = 10 := by decide +kernel
  have hgauges : byteLength (quote "gauges") = 8 := by decide +kernel
  have hhistograms : byteLength (quote "histograms") = 12 := by decide +kernel
  have hdistincts : byteLength (quote "distincts") = 11 := by decide +kernel
  have hevents : byteLength (quote "events") = 8 := by decide +kernel
  have hlogs : byteLength (quote "logs") = 6 := by decide +kernel
  have hopen : byteLength "\x7b" = 1 := rfl
  have hclose : byteLength "\x7d" = 1 := rfl
  have hleft : byteLength "[" = 1 := rfl
  have hright : byteLength "]" = 1 := rfl
  have hcolon : byteLength ":" = 1 := rfl
  have hcomma : byteLength "," = 1 := rfl
  unfold measure Frame.toJson itemsBytes
  cases frame.distincts with
  | none =>
      simp only [List.append_nil, stringify, stringifyFields, byteLength_append, hseq, hfrom, hto,
        hmetrics, hcounters, hgauges, hhistograms, hevents, hlogs, hopen, hclose, hleft, hright,
        hcolon, hcomma]
      omega
  | some rows =>
      simp only [List.cons_append, List.nil_append, stringify, stringifyFields, byteLength_append,
        hseq, hfrom, hto, hmetrics, hcounters, hgauges, hhistograms, hdistincts, hevents, hlogs,
        hopen, hclose, hleft, hright, hcolon, hcomma]
      omega

theorem distinctsProperty_bytes : byteLength ",\"distincts\":[]" = 15 := rfl

/-- What the splitter adds for a row is what the row adds to the text. -/
theorem measure_push (js : Js) (frame : Frame) (kind : Kind) (row : Json) :
    (measure js (frame.push kind row)).bytes =
      (measure js frame).bytes +
        addedBytes kind (frame.rows? kind) (byteLength (row.stringify js)) := by
  unfold addedBytes
  rw [measure_bytes, measure_bytes, distinctsProperty_bytes]
  cases kind with
  | distincts =>
      cases hdistincts : frame.distincts with
      | none =>
          simp only [Frame.push, Frame.rows?, hdistincts, itemsBytes, Option.getD_none,
            stringifyItems_concat]
          simp [stringifyItems, byteLength, comma]
          omega
      | some rows =>
          simp only [Frame.push, Frame.rows?, hdistincts, itemsBytes, Option.getD_some,
            stringifyItems_concat, reduceCtorEq, and_false, if_false]
          omega
  | _ =>
      simp only [Frame.push, Frame.rows?, itemsBytes, stringifyItems_concat, Option.getD_some,
        reduceCtorEq, false_and, if_false]
      omega

/-! ## Sizes -/

/-- A row's collection with the bytes of its text. -/
def sized (js : Js) (item : Kind × Json) : Kind × ℕ := (item.1, byteLength (item.2.stringify js))

def present (content : List (Kind × ℕ)) (kind : Kind) : Bool :=
  content.any fun item => decide (item.1 = kind)

/-- What a row adds to the text of a frame with the given rows. -/
def added (content : List (Kind × ℕ)) (item : Kind × ℕ) : ℕ :=
  item.2 + (if present content item.1 then 1 else 0) +
    if item.1 = .distincts ∧ present content item.1 = false then 15 else 0

/-- What rows add to the text of an empty frame. -/
def contentBytes : List (Kind × ℕ) → ℕ
  | [] => 0
  | item :: rest => added rest item + contentBytes rest

/-- Whether a row fits behind others into the frame of a number, given the bytes
of the empty ones. -/
def sizeFits (empty : ℕ → ℕ) (limits : FrameLimits) (n : ℕ) (content : List (Kind × ℕ))
    (item : Kind × ℕ) : Bool :=
  decide (empty n + contentBytes content + added content item ≤ limits.maxFrameBytes) &&
    decide (content.length < limits.maxFrameRows)

theorem present_append (a b : List (Kind × ℕ)) (kind : Kind) :
    present (a ++ b) kind = (present a kind || present b kind) :=
  List.any_append

theorem contentBytes_concat (content : List (Kind × ℕ)) (item : Kind × ℕ) :
    contentBytes (content ++ [item]) = contentBytes content + added content item := by
  induction content with
  | nil => exact Nat.add_comm _ _
  | cons first rest ih =>
      obtain ⟨k, m⟩ := first
      obtain ⟨j, n⟩ := item
      -- Two rows of one collection add one comma, whichever is first.
      have hswap : added (rest ++ [(j, n)]) (k, m) + added rest (j, n) =
          added rest (k, m) + added ((k, m) :: rest) (j, n) := by
        have hcons : present ((k, m) :: rest) j = (decide (k = j) || present rest j) := rfl
        have hconcat : present (rest ++ [(j, n)]) k = (present rest k || decide (j = k)) := by
          rw [present_append]
          simp [present]
        simp only [added, hcons, hconcat]
        by_cases hkind : k = j
        · subst hkind
          cases present rest k
          · simp
            omega
          · simp
        · have hkind' : ¬ j = k := fun h => hkind h.symm
          simp [hkind, hkind']
      show added (rest ++ [(j, n)]) (k, m) + contentBytes (rest ++ [(j, n)]) =
        added rest (k, m) + contentBytes rest + added ((k, m) :: rest) (j, n)
      rw [ih]
      omega

theorem distincts_le_contentBytes {content : List (Kind × ℕ)}
    (h : present content .distincts = true) : 15 ≤ contentBytes content := by
  induction content with
  | nil => cases h
  | cons item rest ih =>
      show 15 ≤ added rest item + contentBytes rest
      by_cases hrest : present rest .distincts = true
      · have := ih hrest
        omega
      · have hitem : item.1 = .distincts := by
          have hcons : (decide (item.1 = .distincts) || present rest .distincts) = true := h
          rw [Bool.eq_false_iff.mpr hrest, Bool.or_false] at hcons
          exact of_decide_eq_true hcons
        have hadded : 15 ≤ added rest item := by
          unfold added
          rw [hitem, if_neg hrest, if_pos ⟨rfl, Bool.eq_false_iff.mpr hrest⟩]
          omega
        omega

/-- A row that fits behind others fits alone. -/
theorem sizeFits_alone {empty : ℕ → ℕ} {limits : FrameLimits} {n : ℕ} {content : List (Kind × ℕ)}
    {item : Kind × ℕ} (h : sizeFits empty limits n content item = true) :
    sizeFits empty limits n [] item = true := by
  unfold sizeFits at h ⊢
  rw [Bool.and_eq_true, decide_eq_true_eq, decide_eq_true_eq] at h ⊢
  have halone : added [] item ≤ contentBytes content + added content item := by
    unfold added
    have hnil : present [] item.1 = false := rfl
    rw [hnil]
    by_cases hpresent : present content item.1 = true
    · by_cases hkind : item.1 = .distincts
      · rw [hkind] at hpresent ⊢
        have := distincts_le_contentBytes hpresent
        simp [hpresent]
        omega
      · simp [hpresent, hkind]
        omega
    · simp [hpresent]
  have hzero : contentBytes [] = 0 := rfl
  rw [hzero, List.length_nil]
  omega

end Wardx.Frames
