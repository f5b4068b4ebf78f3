import Mathlib.Algebra.Order.Ring.Rat
import Mathlib.Data.Nat.Cast.Order.Ring
import Wardx.Frames.FrameSplit

/-!
# Envelopes within their limits

A sync sends the pending frames in as many requests as it takes. The length of a
request is predicted from the metadata with an empty list of frames and the
lengths of the frames' texts; the body is put together from the same texts by
another function. The settings keep a frame below an envelope but leave no room
for the metadata, so the first frame of a request, which is always admitted, may
not fit.
-/
namespace Wardx.Frames

open Lib Json

/-! ## Settings -/

/-- The numbers of the settings that bound frames and envelopes. -/
structure EnvelopeSettings where
  maxFrameBytes : ℚ
  maxEnvelopeItems : ℚ
  maxEnvelopeBytes : ℚ
deriving DecidableEq, Repr

/-- `Number.isSafeInteger`. -/
def isSafeInteger (q : ℚ) : Bool :=
  decide (q.den = 1) && decide (-9007199254740991 ≤ q ∧ q ≤ 9007199254740991)

def assertPositiveNumber (value : ℚ) (key : String) : Except String Unit :=
  require (decide (0 < value)) (key ++ " must be a finite number > 0")

/-- The checks of `resolveSettings` on these numbers. -/
def resolveSettings (settings : EnvelopeSettings) : Except String EnvelopeSettings := do
  assertPositiveNumber settings.maxFrameBytes "maxFrameBytes"
  require (decide (1024 ≤ settings.maxFrameBytes)) "maxFrameBytes must be at least 1024"
  assertPositiveNumber settings.maxEnvelopeItems "maxEnvelopeItems"
  require (isSafeInteger settings.maxEnvelopeItems) "maxEnvelopeItems must be a safe integer"
  assertPositiveNumber settings.maxEnvelopeBytes "maxEnvelopeBytes"
  require (isSafeInteger settings.maxEnvelopeBytes) "maxEnvelopeBytes must be a safe integer"
  require (decide (settings.maxFrameBytes < settings.maxEnvelopeBytes))
    "maxFrameBytes must be less than maxEnvelopeBytes"
  pure settings

/-! ## Envelopes -/

/-- A pending frame with its text. -/
structure Pending where
  frame : Frame
  json : String
deriving DecidableEq, Repr

/-- What a client sends about itself. -/
structure Metadata where
  project : Json
  sdk : Json
  client : Json

/-- The config the core holds when a request is made; a core that never synced
has no context. -/
structure ConfigHeld where
  version : ℕ
  context : Option String

/-- `syncEnvelope` with no frames. -/
def syncEnvelope (metadata : Metadata) (held : ConfigHeld) : Json :=
  .obj (([("protocol", .num 1), ("project", metadata.project), ("sdk", metadata.sdk),
    ("client", metadata.client), ("configVersion", .num held.version)] ++
      held.context.toList.map fun context => ("configContext", .str context)) ++
      [("frames", .arr [])])

/-- The texts with commas between them. -/
def joined : List String → String
  | [] => ""
  | [text] => text
  | text :: rest => text ++ "," ++ joined rest

/-- `slice(0, -2)`. -/
def sliceTwo (text : String) : String := String.ofList text.toList.dropLast.dropLast

/-- The uncompressed body of `gzipEnvelope`. -/
def gzipBody (js : Js) (envelope : Json) (jsons : List String) : String :=
  sliceTwo (envelope.stringify js) ++ joined jsons ++ "]\x7d"

section
variable (js : Js) (settings : EnvelopeSettings)

/-- The loop of `_envelopeEnd`: how many frames an envelope takes, their rows, and
the bytes it will have. -/
def envelopeLoop : List Pending → ℕ → ℕ → ℕ → ℕ × ℕ × ℕ
  | [], count, items, bytes => (count, items, bytes)
  | next :: rest, count, items, bytes =>
      let nextItems := items + next.frame.rowCount
      let nextBytes := bytes + byteLength next.json + if 0 < count then 1 else 0
      if 0 < count ∧ (settings.maxEnvelopeItems < nextItems ∨ settings.maxEnvelopeBytes < nextBytes)
      then (count, items, bytes)
      else envelopeLoop rest (count + 1) nextItems nextBytes

structure Request where
  envelope : Json
  /-- The frames not sent before it. -/
  unsent : List Pending
  frames : List Pending
  /-- The bytes `_envelopeEnd` counts. -/
  accounted : ℕ

def Request.body (request : Request) : String :=
  gzipBody js request.envelope (request.frames.map Pending.json)

/-- The loop of `_sendPending` when every request succeeds; each answer may change
the config held. None is a loop that has not ended. -/
def sendLoop (metadata : Metadata) (held : ℕ → ConfigHeld) :
    ℕ → ℕ → List Pending → Option (List Request)
  | 0, _, _ => none
  | fuel + 1, n, pending =>
      let envelope := syncEnvelope metadata (held n)
      let (count, _, bytes) :=
        envelopeLoop settings pending 0 0 (byteLength (envelope.stringify js))
      let request := ⟨envelope, pending, pending.take count, bytes⟩
      match pending.drop count with
      | [] => some [request]
      | rest => (sendLoop metadata held fuel (n + 1) rest).map (request :: ·)

/-- `_sendPending`. -/
def sendPending (metadata : Metadata) (held : ℕ → ConfigHeld) (sendEmpty : Bool) (fuel : ℕ)
    (pending : List Pending) : Option (List Request) :=
  if !sendEmpty && pending.isEmpty then some []
  else sendLoop js settings metadata held fuel 0 pending

/-- The frame was made by a split under the settings. -/
def SplitOff (entry : Pending) : Prop :=
  ∃ (source : Frame) (limits : FrameLimits) (batch : FrameBatch) (n : ℕ),
    splitToMaxBytes js source limits = .ok batch ∧
    (limits.maxFrameBytes : ℚ) = settings.maxFrameBytes ∧
    (limits.maxFrameRows : ℚ) = settings.maxEnvelopeItems ∧
    batch.frames[n]? = some entry.frame ∧ batch.jsons[n]? = some entry.json

end

/-! ## Rows of split frames -/

/-- No frame of the splitter has too many rows. -/
structure RowsWithin (limits : FrameLimits) (s : Splitter) : Prop where
  frames : ∀ frame ∈ s.frames, frame.rowCount ≤ limits.maxFrameRows
  current : s.current.rowCount ≤ limits.maxFrameRows

section
variable {js : Js} {source : Frame} {limits : FrameLimits} {s after : Splitter}

theorem RowsWithin.finishCurrent (h : RowsWithin limits s)
    (hfinish : finishCurrent js source limits s = .ok after) : RowsWithin limits after := by
  unfold Frames.finishCurrent at hfinish
  simp only [bind_eq_ok_iff, pure, Except.pure, Except.ok.injEq] at hfinish
  obtain ⟨_, _, rfl⟩ := hfinish
  refine ⟨?_, Nat.zero_le _⟩
  intro frame hframe
  rcases List.mem_append.mp hframe with hbefore | hlast
  · exact h.frames frame hbefore
  · rw [List.mem_singleton.mp hlast]
    exact h.current

theorem RowsWithin.tryAddRow (h : RowsWithin limits s) {kind : Kind} {row : Json} {rowBytes : ℕ}
    (hadd : tryAddRow limits kind row rowBytes s = some after) : RowsWithin limits after := by
  unfold Frames.tryAddRow at hadd
  dsimp only at hadd
  split_ifs at hadd with hover
  cases hadd
  refine ⟨h.frames, ?_⟩
  show (s.current.push kind row).rowCount ≤ _
  rw [rowCount_push]
  omega

theorem RowsWithin.countDropped (h : RowsWithin limits s) (kind : Kind) (countDrop : Bool) :
    RowsWithin limits (s.countDropped kind countDrop) := by
  unfold Splitter.countDropped
  split_ifs
  · exact ⟨h.frames, h.current⟩
  · exact h

theorem RowsWithin.addRow (h : RowsWithin limits s) {kind : Kind} {row : Json} {countDrop kept : Bool}
    (hadd : addRow js source limits kind row countDrop s = .ok (kept, after)) :
    RowsWithin limits after := by
  unfold Frames.addRow at hadd
  dsimp only at hadd
  split at hadd
  · rename_i added htry
    cases hadd
    exact h.tryAddRow htry
  · split_ifs at hadd
    · rw [bind_eq_ok_iff] at hadd
      obtain ⟨next, hnext, hadd⟩ := hadd
      have hclosed := h.finishCurrent hnext
      split at hadd
      · rename_i added htry
        cases hadd
        exact hclosed.tryAddRow htry
      · cases hadd
        exact hclosed.countDropped kind countDrop
    · cases hadd
      exact h.countDropped kind countDrop

theorem RowsWithin.addRows (rows : List (Kind × Json)) (h : RowsWithin limits s)
    (hadd : addRows js source limits s rows = .ok after) : RowsWithin limits after := by
  induction rows generalizing s with
  | nil =>
      cases hadd
      exact h
  | cons item rows ih =>
      unfold Frames.addRows at hadd
      rw [List.foldlM_cons, bind_eq_ok_iff] at hadd
      obtain ⟨next, hnext, hadd⟩ := hadd
      rw [bind_eq_ok_iff] at hnext
      obtain ⟨⟨kept, next'⟩, hitem, hsame⟩ := hnext
      cases hsame
      exact ih (h.addRow hitem) hadd

/-- A split's frames have at most the rows it was given. -/
theorem rowCount_le_of_split {batch : FrameBatch}
    (hsplit : splitToMaxBytes js source limits = .ok batch) :
    ∀ frame ∈ batch.frames, frame.rowCount ≤ limits.maxFrameRows := by
  unfold splitToMaxBytes at hsplit
  simp only [bind_eq_ok_iff, pure, Except.pure, Except.ok.injEq] at hsplit
  obtain ⟨_, _, _, _, s, hadd, after, hmetric, last, hfinish, rfl⟩ := hsplit
  have hstart : RowsWithin limits (Splitter.start js source) := by
    refine ⟨?_, Nat.zero_le _⟩
    intro frame hframe
    cases hframe
  have hs := hstart.addRows _ hadd
  have hafter : RowsWithin limits after := by
    unfold addDropMetric at hmetric
    split_ifs at hmetric
    · rw [bind_eq_ok_iff] at hmetric
      obtain ⟨⟨kept, next⟩, hitem, hmetric⟩ := hmetric
      rw [bind_eq_ok_iff] at hmetric
      obtain ⟨_, _, hsame⟩ := hmetric
      cases hsame
      exact hs.addRow hitem
    · cases hmetric
      exact hs
  unfold Frames.finishLast at hfinish
  split_ifs at hfinish
  · exact (hafter.finishCurrent hfinish).frames
  · cases hfinish
    exact hafter.frames

end

/-! ## Lengths -/

/-- The bytes of the texts and the commas between them. -/
def joinedBytes (jsons : List String) : ℕ := (jsons.map byteLength).sum + (jsons.length - 1)

theorem byteLength_joined (jsons : List String) : byteLength (joined jsons) = joinedBytes jsons := by
  have hcomma : byteLength "," = 1 := rfl
  unfold joinedBytes
  induction jsons with
  | nil => rfl
  | cons text rest ih =>
      cases rest with
      | nil => simp [joined]
      | cons second rest =>
          rw [joined, byteLength_append, byteLength_append, hcomma, ih]
          · simp only [List.map_cons, List.sum_cons, List.length_cons]
            omega
          · exact List.cons_ne_nil second rest

theorem sliceTwo_append (text : String) : sliceTwo (text ++ "]\x7d") = text := by
  unfold sliceTwo
  rw [String.toList_append]
  have htwo : "]\x7d".toList = [']', '\x7d'] := rfl
  rw [htwo, ← List.singleton_append, ← List.append_assoc, List.dropLast_concat, List.dropLast_concat,
    String.ofList_toList]

theorem stringifyFields_cons_cons (js : Js) (first second : String × Json) (rest : Fields) :
    stringifyFields js (first :: second :: rest) =
      quote first.1 ++ ":" ++ first.2.stringify js ++ "," ++ stringifyFields js (second :: rest) := by
  rw [stringifyFields]
  exact List.cons_ne_nil second rest

theorem stringifyFields_concat (js : Js) (fields : Fields) (key : String) (value : Json) :
    stringifyFields js (fields ++ [(key, value)]) =
      (if fields.isEmpty then "" else stringifyFields js fields ++ ",") ++
        (quote key ++ ":" ++ value.stringify js) := by
  have hone : ∀ (k : String) (v : Json),
      stringifyFields js [(k, v)] = quote k ++ ":" ++ v.stringify js := fun k v => by
    rw [stringifyFields]
  induction fields with
  | nil =>
      rw [List.nil_append, hone]
      exact (String.empty_append).symm
  | cons field fields ih =>
      obtain ⟨k, v⟩ := field
      cases fields with
      | nil =>
          rw [List.singleton_append, stringifyFields_cons_cons, hone, hone]
          rfl
      | cons second fields =>
          rw [List.cons_append, List.cons_append, stringifyFields_cons_cons, ← List.cons_append, ih,
            stringifyFields_cons_cons]
          simp only [List.isEmpty_cons, Bool.false_eq_true, if_false, String.append_assoc]

theorem envelope_ends (js : Js) (metadata : Metadata) (held : ConfigHeld) :
    ∃ text, (syncEnvelope metadata held).stringify js = text ++ "]\x7d" := by
  have hlast : ∀ fields : Fields, ∃ before,
      stringifyFields js (fields ++ [("frames", Json.arr [])]) =
        before ++ (quote "frames" ++ ":" ++ "[]") := fun fields =>
    ⟨_, stringifyFields_concat js fields "frames" (.arr [])⟩
  unfold syncEnvelope
  obtain ⟨before, hbefore⟩ := hlast _
  rw [stringify, hbefore]
  refine ⟨"\x7b" ++ (before ++ (quote "frames" ++ (":" ++ "["))), ?_⟩
  simp only [String.append_assoc]
  rfl

/-- The body is as long as the metadata with no frames, the frames and the commas. -/
theorem byteLength_gzipBody (js : Js) (metadata : Metadata) (held : ConfigHeld)
    (jsons : List String) :
    byteLength (gzipBody js (syncEnvelope metadata held) jsons) =
      byteLength ((syncEnvelope metadata held).stringify js) + joinedBytes jsons := by
  obtain ⟨text, htext⟩ := envelope_ends js metadata held
  unfold gzipBody
  rw [htext, sliceTwo_append, byteLength_append, byteLength_append, byteLength_append,
    byteLength_joined]
  omega

/-! ## One envelope -/

def rowsOf (frames : List Pending) : ℕ := (frames.map fun entry => entry.frame.rowCount).sum

/-- The bytes of an envelope of the given frames. -/
def envelopeBytes (base : ℕ) (frames : List Pending) : ℕ :=
  base + joinedBytes (frames.map Pending.json)

theorem rowsOf_concat (frames : List Pending) (entry : Pending) :
    rowsOf (frames ++ [entry]) = rowsOf frames + entry.frame.rowCount := by
  unfold rowsOf
  simp

theorem envelopeBytes_concat (base : ℕ) (frames : List Pending) (entry : Pending) :
    envelopeBytes base (frames ++ [entry]) =
      envelopeBytes base frames + byteLength entry.json + if 0 < frames.length then 1 else 0 := by
  unfold envelopeBytes joinedBytes
  simp only [List.map_append, List.map_cons, List.map_nil, List.sum_append, List.sum_cons,
    List.sum_nil, List.length_append, List.length_map, List.length_cons, List.length_nil]
  cases frames with
  | nil => simp
  | cons first rest =>
      simp only [List.length_cons, Nat.zero_lt_succ, if_true]
      omega

theorem bytes_le_envelopeBytes (base : ℕ) (first : Pending) (rest : List Pending) :
    base + byteLength first.json ≤ envelopeBytes base (first :: rest) := by
  unfold envelopeBytes joinedBytes
  rw [List.map_cons, List.map_cons, List.sum_cons]
  omega

/-- The frames an envelope took keep its limits, except that a single frame may
have any number of bytes. -/
structure KeepsLimits (settings : EnvelopeSettings) (base : ℕ) (frames : List Pending) : Prop where
  rows : (rowsOf frames : ℚ) ≤ settings.maxEnvelopeItems
  bytes : 1 < frames.length → (envelopeBytes base frames : ℚ) ≤ settings.maxEnvelopeBytes

/-- The loop's counts are those of the frames taken. -/
theorem envelopeLoop_cons (settings : EnvelopeSettings) (base : ℕ) (taken : List Pending)
    (entry : Pending) (rest : List Pending) :
    envelopeLoop settings (entry :: rest) taken.length (rowsOf taken) (envelopeBytes base taken) =
      if 0 < taken.length ∧ (settings.maxEnvelopeItems < rowsOf (taken ++ [entry]) ∨
        settings.maxEnvelopeBytes < envelopeBytes base (taken ++ [entry]))
      then (taken.length, rowsOf taken, envelopeBytes base taken)
      else envelopeLoop settings rest (taken ++ [entry]).length (rowsOf (taken ++ [entry]))
        (envelopeBytes base (taken ++ [entry])) := by
  rw [rowsOf_concat, envelopeBytes_concat, List.length_append, List.length_singleton]
  rfl

/-- The loop takes a number of frames off the list, at least one when it has none
yet. -/
theorem envelopeLoop_spec (settings : EnvelopeSettings) (base : ℕ) (rest taken : List Pending)
    (hkeeps : KeepsLimits settings base taken)
    (hrows : ∀ entry ∈ rest, (entry.frame.rowCount : ℚ) ≤ settings.maxEnvelopeItems) :
    ∃ n, n ≤ rest.length ∧ (taken = [] → rest ≠ [] → 0 < n) ∧
      envelopeLoop settings rest taken.length (rowsOf taken) (envelopeBytes base taken) =
        (taken.length + n, rowsOf (taken ++ rest.take n), envelopeBytes base (taken ++ rest.take n)) ∧
      KeepsLimits settings base (taken ++ rest.take n) := by
  induction rest generalizing taken with
  | nil =>
      refine ⟨0, Nat.le_refl 0, fun _ hne => absurd rfl hne, ?_, ?_⟩
      · rw [List.take_zero, List.append_nil]
        rfl
      · rw [List.take_zero, List.append_nil]
        exact hkeeps
  | cons entry rest ih =>
      rw [envelopeLoop_cons]
      by_cases hover : 0 < taken.length ∧ (settings.maxEnvelopeItems < rowsOf (taken ++ [entry]) ∨
        settings.maxEnvelopeBytes < envelopeBytes base (taken ++ [entry]))
      · rw [if_pos hover]
        refine ⟨0, Nat.zero_le _, ?_, ?_, ?_⟩
        · intro hempty
          have hpos := hover.1
          rw [hempty] at hpos
          exact absurd hpos (Nat.lt_irrefl 0)
        · rw [List.take_zero, List.append_nil]
          rfl
        · rw [List.take_zero, List.append_nil]
          exact hkeeps
      · rw [if_neg hover]
        have hnext : KeepsLimits settings base (taken ++ [entry]) := by
          constructor
          · rcases Nat.eq_zero_or_pos taken.length with hzero | hpos
            · have hentry := hrows entry List.mem_cons_self
              rw [List.length_eq_zero_iff.mp hzero]
              simpa [rowsOf] using hentry
            · exact not_lt.mp fun h => hover ⟨hpos, Or.inl h⟩
          · intro hmany
            have hpos : 0 < taken.length := by
              rw [List.length_append, List.length_singleton] at hmany
              omega
            exact not_lt.mp fun h => hover ⟨hpos, Or.inr h⟩
        have htail : ∀ later ∈ rest, (later.frame.rowCount : ℚ) ≤ settings.maxEnvelopeItems :=
          fun later hlater => hrows later (List.mem_cons_of_mem entry hlater)
        obtain ⟨n, hn, -, heq, hlater⟩ := ih (taken ++ [entry]) hnext htail
        have htake : taken ++ [entry] ++ rest.take n = taken ++ (entry :: rest).take (n + 1) := by
          rw [List.take_succ_cons, List.append_assoc, List.singleton_append]
        refine ⟨n + 1, Nat.succ_le_succ hn, fun _ _ => Nat.succ_pos n, ?_, ?_⟩
        · rw [← htake, heq, List.length_append, List.length_singleton, Nat.add_assoc,
            Nat.add_comm 1 n]
        · rw [← htake]
          exact hlater

/-! ## All envelopes of a batch -/

/-- The metadata fits into an envelope together with the first of the frames. -/
def FirstFits (js : Js) (settings : EnvelopeSettings) (envelope : Json) (unsent : List Pending) :
    Prop :=
  ((byteLength (envelope.stringify js) + (unsent.head?.map fun entry => byteLength entry.json).getD 0
    : ℕ) : ℚ) ≤ settings.maxEnvelopeBytes

/-- A request is a front part of the frames unsent, within the limit of rows, as
long as counted. -/
structure WellCut (js : Js) (settings : EnvelopeSettings) (request : Request) : Prop where
  front : ∃ n, request.frames = request.unsent.take n
  counted : byteLength (request.body js) = request.accounted
  rows : (rowsOf request.frames : ℚ) ≤ settings.maxEnvelopeItems
  bytes : (byteLength (request.body js) : ℚ) ≤ settings.maxEnvelopeBytes ↔
    FirstFits js settings request.envelope request.unsent

section
variable {js : Js} {settings : EnvelopeSettings}

theorem wellCut_of_keepsLimits {metadata : Metadata} {held : ConfigHeld} {pending : List Pending}
    {n : ℕ} (hn : pending ≠ [] → 0 < n)
    (hkeeps : KeepsLimits settings (byteLength ((syncEnvelope metadata held).stringify js))
      (pending.take n)) :
    WellCut js settings ⟨syncEnvelope metadata held, pending, pending.take n,
      envelopeBytes (byteLength ((syncEnvelope metadata held).stringify js)) (pending.take n)⟩ := by
  have hlength : ∀ frames : List Pending,
      byteLength (gzipBody js (syncEnvelope metadata held) (frames.map Pending.json)) =
        envelopeBytes (byteLength ((syncEnvelope metadata held).stringify js)) frames := fun frames =>
    byteLength_gzipBody js metadata held (frames.map Pending.json)
  refine ⟨⟨n, rfl⟩, hlength _, hkeeps.rows, ?_⟩
  show (byteLength (gzipBody js (syncEnvelope metadata held) ((pending.take n).map Pending.json)) :
    ℚ) ≤ _ ↔ FirstFits js settings (syncEnvelope metadata held) pending
  have hbytes := hkeeps.bytes
  rw [hlength]
  unfold FirstFits
  cases pending with
  | nil =>
      rw [List.take_nil]
      rfl
  | cons first rest =>
      obtain ⟨m, rfl⟩ := Nat.exists_eq_succ_of_ne_zero (hn (List.cons_ne_nil first rest)).ne'
      rw [List.take_succ_cons] at hbytes ⊢
      cases htake : rest.take m with
      | nil => simp [envelopeBytes, joinedBytes]
      | cons second more =>
          rw [htake] at hbytes
          have hwithin := hbytes (by simp)
          have hle := bytes_le_envelopeBytes
            (byteLength ((syncEnvelope metadata held).stringify js)) first (second :: more)
          have hfirst := (Nat.cast_le (α := ℚ)).mpr hle
          exact ⟨fun _ => hfirst.trans hwithin, fun _ => hwithin⟩

theorem resolveSettings_positive {resolved : EnvelopeSettings}
    (hsettings : resolveSettings settings = .ok resolved) : 0 < settings.maxEnvelopeItems := by
  unfold resolveSettings assertPositiveNumber at hsettings
  simp only [bind_eq_ok_iff, require_eq_ok_iff, decide_eq_true_eq] at hsettings
  obtain ⟨_, _, _, _, _, hitems, _⟩ := hsettings
  exact hitems

/-- One turn of the loop sends some of the frames in a request that is well cut. -/
theorem sendLoop_succ (js : Js) (hitems : 0 < settings.maxEnvelopeItems) (metadata : Metadata)
    (held : ℕ → ConfigHeld) (n : ℕ) (pending : List Pending)
    (hrows : ∀ entry ∈ pending, (entry.frame.rowCount : ℚ) ≤ settings.maxEnvelopeItems) :
    ∃ (count : ℕ) (request : Request), (pending ≠ [] → 0 < count) ∧
      request.frames = pending.take count ∧ WellCut js settings request ∧
      ∀ fuel, sendLoop js settings metadata held (fuel + 1) n pending =
        match pending.drop count with
        | [] => some [request]
        | rest => (sendLoop js settings metadata held fuel (n + 1) rest).map (request :: ·) := by
  have hnone : KeepsLimits settings (byteLength ((syncEnvelope metadata (held n)).stringify js))
      [] := by
    refine ⟨?_, fun h => absurd h (Nat.not_lt_zero 1)⟩
    show ((0 : ℕ) : ℚ) ≤ _
    rw [Nat.cast_zero]
    exact hitems.le
  obtain ⟨count, hcount, hpos, hloop, hkeeps⟩ :=
    envelopeLoop_spec settings _ pending [] hnone hrows
  rw [List.length_nil, Nat.zero_add] at hloop
  have hloop' : envelopeLoop settings pending 0 0
      (byteLength ((syncEnvelope metadata (held n)).stringify js)) = _ := hloop
  refine ⟨count, _, hpos rfl, rfl, wellCut_of_keepsLimits (hpos rfl) hkeeps, ?_⟩
  intro fuel
  rw [sendLoop]
  dsimp only
  rw [hloop']
  rfl

/-- The frames are sent once and in order, in requests that are well cut. -/
theorem sendLoop_spec (hitems : 0 < settings.maxEnvelopeItems) (metadata : Metadata)
    (held : ℕ → ConfigHeld) (bound n : ℕ) (pending : List Pending) (hbound : pending.length < bound)
    (hrows : ∀ entry ∈ pending, (entry.frame.rowCount : ℚ) ≤ settings.maxEnvelopeItems) :
    ∃ requests, (∀ fuel, pending.length < fuel →
        sendLoop js settings metadata held fuel n pending = some requests) ∧
      requests.flatMap Request.frames = pending ∧
      ∀ request ∈ requests, WellCut js settings request := by
  induction bound generalizing n pending with
  | zero => exact absurd hbound (Nat.not_lt_zero _)
  | succ bound ih =>
      obtain ⟨count, request, hpos, hfront, hcut, hturn⟩ :=
        sendLoop_succ js hitems metadata held n pending hrows
      have hparts := List.take_append_drop count pending
      have hturn' : ∀ fuel, pending.length < fuel → ∃ less, fuel = less + 1 ∧
          pending.length ≤ less := fun fuel hfuel => by
        obtain ⟨less, rfl⟩ := Nat.exists_eq_succ_of_ne_zero (Nat.ne_zero_of_lt hfuel)
        exact ⟨less, rfl, Nat.lt_succ_iff.mp hfuel⟩
      cases hrest : pending.drop count with
      | nil =>
          rw [hrest] at hturn hparts
          refine ⟨[request], ?_, ?_, ?_⟩
          · intro fuel hfuel
            obtain ⟨less, rfl, -⟩ := hturn' fuel hfuel
            exact hturn less
          · rw [List.flatMap_singleton, hfront]
            rw [List.append_nil] at hparts
            exact hparts
          · intro sent hsent
            rw [List.mem_singleton.mp hsent]
            exact hcut
      | cons entry rest =>
          rw [hrest] at hturn
          have hne : pending ≠ [] := fun hnil => by
            rw [hnil, List.drop_nil] at hrest
            cases hrest
          have hlength : (entry :: rest).length = pending.length - count := by
            rw [← hrest, List.length_drop]
          have hp := hpos hne
          have hsome := List.length_pos_of_ne_nil hne
          have hlater : ∀ left ∈ entry :: rest,
              (left.frame.rowCount : ℚ) ≤ settings.maxEnvelopeItems := fun left hleft =>
            hrows left (List.mem_of_mem_drop (hrest ▸ hleft))
          obtain ⟨requests, hrequests, hframes, hcuts⟩ :=
            ih (n + 1) (entry :: rest) (by omega) hlater
          refine ⟨request :: requests, ?_, ?_, ?_⟩
          · intro fuel hfuel
            obtain ⟨less, rfl, hless⟩ := hturn' fuel hfuel
            have hagain := hrequests less (by omega)
            rw [hturn less]
            dsimp only
            rw [hagain]
            rfl
          · rw [List.flatMap_cons, hframes, hfront, ← hrest]
            exact hparts
          · intro sent hsent
            rcases List.mem_cons.mp hsent with hfirst | hmore
            · rw [hfirst]
              exact hcut
            · exact hcuts sent hmore

theorem splitOff_rowCount_le {entry : Pending} (hsplit : SplitOff js settings entry) :
    (entry.frame.rowCount : ℚ) ≤ settings.maxEnvelopeItems := by
  obtain ⟨source, limits, batch, n, hbatch, -, hlimit, hframe, -⟩ := hsplit
  have hmem := List.mem_of_getElem? hframe
  rw [← hlimit]
  exact Nat.cast_le.mpr (rowCount_le_of_split hbatch _ hmem)

end

/-- With accepted settings and frames made by the splitter, a sending ends, sends
every frame once and in order, counts the bytes of every body and keeps the limit
of rows; every body keeps the limit of bytes exactly when before each request the
metadata fits together with the first frame unsent. -/
theorem envelopes_within_limits (js : Js) (settings : EnvelopeSettings)
    (hsettings : resolveSettings settings = .ok settings) (metadata : Metadata)
    (held : ℕ → ConfigHeld) (sendEmpty : Bool) (pending : List Pending)
    (hpending : ∀ entry ∈ pending, SplitOff js settings entry) :
    ∃ requests, (∀ fuel, pending.length < fuel →
        sendPending js settings metadata held sendEmpty fuel pending = some requests) ∧
      requests.flatMap Request.frames = pending ∧
      (∀ request ∈ requests, byteLength (request.body js) = request.accounted ∧
        (rowsOf request.frames : ℚ) ≤ settings.maxEnvelopeItems) ∧
      ((∀ request ∈ requests, (byteLength (request.body js) : ℚ) ≤ settings.maxEnvelopeBytes) ↔
        ∀ request ∈ requests, FirstFits js settings request.envelope request.unsent) := by
  have hitems := resolveSettings_positive hsettings
  have hrows := fun entry hentry => splitOff_rowCount_le (hpending entry hentry)
  unfold sendPending
  by_cases hskip : (!sendEmpty && pending.isEmpty) = true
  · have hnil : pending = [] := by
      rw [Bool.and_eq_true] at hskip
      exact List.isEmpty_iff.mp hskip.2
    refine ⟨[], fun _ _ => if_pos hskip, hnil.symm, ?_, ?_⟩
    · intro request hrequest
      cases hrequest
    · constructor
      · intro _ request hrequest
        cases hrequest
      · intro _ request hrequest
        cases hrequest
  · obtain ⟨requests, hrequests, hframes, hcuts⟩ :=
      sendLoop_spec hitems metadata held _ 0 pending (Nat.lt_succ_self _) hrows
    refine ⟨requests, fun fuel hfuel => (if_neg hskip).trans (hrequests fuel hfuel), hframes, ?_, ?_⟩
    · intro request hrequest
      exact ⟨(hcuts request hrequest).counted, (hcuts request hrequest).rows⟩
    · constructor
      · intro h request hrequest
        exact (hcuts request hrequest).bytes.mp (h request hrequest)
      · intro h request hrequest
        exact (hcuts request hrequest).bytes.mpr (h request hrequest)

/-! ### The least envelope over the least frame -/

def tightSettings : EnvelopeSettings := ⟨1024, 10000, 1025⟩

def checkoutMetadata : Metadata where
  project := .str "shop"
  sdk := .obj [("name", .str "wardx-node"), ("version", .str "1.0.0")]
  client := .obj [("instanceId", .str "i-1"), ("sessionId", .str "s-1"), ("role", .str "web"),
    ("appVersion", .str "1.0.0"), ("environment", .str "production"), ("platform", .str "node")]

def neverSynced : ℕ → ConfigHeld := fun _ => ⟨0, none⟩

/-- Fifty counters. -/
def busyFrame : Frame where
  seq := 1
  fromTime := 0
  toTime := 60000
  counters := List.replicate 50 (.arr [.str "hits", .null, .num 1])
  gauges := []
  histograms := []
  distincts := none
  events := []
  logs := []

theorem busyFrame_split :
    ∃ entry, SplitOff Js.plain tightSettings entry ∧ byteLength entry.json = 904 := by
  have hlengths : (splitToMaxBytes Js.plain busyFrame ⟨1024, 10000⟩).toOption.map (fun batch =>
      (batch.frames.length, batch.jsons.map byteLength)) = some (1, [904]) := by
    decide +kernel
  cases hsplit : splitToMaxBytes Js.plain busyFrame ⟨1024, 10000⟩ with
  | error message =>
      rw [hsplit] at hlengths
      cases hlengths
  | ok batch =>
      rw [hsplit] at hlengths
      have hboth := Option.some.inj hlengths
      obtain ⟨frame, hframe⟩ := List.length_eq_one_iff.mp (Prod.mk.inj hboth).1
      obtain ⟨json, hjson⟩ := List.length_eq_one_iff.mp
        ((List.length_map byteLength).symm.trans (congrArg List.length (Prod.mk.inj hboth).2))
      have hbytes := (Prod.mk.inj hboth).2
      rw [hjson] at hbytes
      refine ⟨⟨frame, json⟩, ⟨busyFrame, ⟨1024, 10000⟩, batch, 0, hsplit, rfl, rfl, ?_, ?_⟩, ?_⟩
      · rw [hframe]
        rfl
      · rw [hjson]
        rfl
      · exact List.singleton_inj.mp hbytes

theorem envelopes_within_limits_busy :
    ∃ entry requests, SplitOff Js.plain tightSettings entry ∧
      sendPending Js.plain tightSettings checkoutMetadata neverSynced true 2 [entry] =
        some requests ∧
      requests.flatMap Request.frames = [entry] := by
  obtain ⟨entry, hsplit, -⟩ := busyFrame_split
  have hsettings : resolveSettings tightSettings = .ok tightSettings := by decide +kernel
  have hpending : ∀ pending ∈ [entry], SplitOff Js.plain tightSettings pending :=
    fun pending hmem => List.mem_singleton.mp hmem ▸ hsplit
  obtain ⟨requests, hrequests, hframes, -⟩ := envelopes_within_limits Js.plain tightSettings
    hsettings checkoutMetadata neverSynced true [entry] hpending
  exact ⟨entry, requests, hsplit, hrequests 2 (Nat.lt_succ_self 1), hframes⟩

/-- The envelope of one frame of the splitter has 1138 bytes, though 1025 are
accepted as the most. -/
theorem envelope_over_limit :
    ¬ ∀ (js : Js) (settings : EnvelopeSettings) (metadata : Metadata) (held : ℕ → ConfigHeld)
      (sendEmpty : Bool) (pending : List Pending) (fuel : ℕ) (requests : List Request),
      resolveSettings settings = .ok settings →
      (∀ entry ∈ pending, SplitOff js settings entry) →
      sendPending js settings metadata held sendEmpty fuel pending = some requests →
      ∀ request ∈ requests, (byteLength (request.body js) : ℚ) ≤ settings.maxEnvelopeBytes := by
  intro h
  obtain ⟨entry, hsplit, hbytes⟩ := busyFrame_split
  have hsettings : resolveSettings tightSettings = .ok tightSettings := by decide +kernel
  have hpending : ∀ pending ∈ [entry], SplitOff Js.plain tightSettings pending :=
    fun pending hmem => List.mem_singleton.mp hmem ▸ hsplit
  have hbase : byteLength
      ((syncEnvelope checkoutMetadata (neverSynced 0)).stringify Js.plain) = 234 := by
    decide +kernel
  have hsend : ∃ bytes, sendPending Js.plain tightSettings checkoutMetadata neverSynced true 2
      [entry] = some [⟨syncEnvelope checkoutMetadata (neverSynced 0), [entry], [entry], bytes⟩] :=
    ⟨_, rfl⟩
  obtain ⟨bytes, hsend⟩ := hsend
  have hover := h Js.plain tightSettings checkoutMetadata neverSynced true [entry] 2 _ hsettings
    hpending hsend _ List.mem_cons_self
  have hbody : byteLength (Request.body Js.plain
      ⟨syncEnvelope checkoutMetadata (neverSynced 0), [entry], [entry], bytes⟩) = 1138 := by
    have hlength := byteLength_gzipBody Js.plain checkoutMetadata (neverSynced 0) [entry.json]
    rw [hbase] at hlength
    unfold Request.body
    rw [List.map_singleton, hlength]
    simp [joinedBytes, hbytes]
  rw [hbody] at hover
  exact absurd hover (by decide +kernel)

end Wardx.Frames
