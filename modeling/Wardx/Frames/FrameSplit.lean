import Wardx.Frames.FrameBuilder

/-!
# A split conserves the rows

The splitter does what next fit does with the rows' collections and byte
lengths: its frames are the bins, its current frame the open one, and its byte
count the length of the current frame's text. So it never throws, every frame
is within the limits, and a row is left out exactly when it does not fit into
the empty frame it is tried in.
-/
namespace Wardx.Frames

open Lib Json

/-! ## Frames of rows -/

/-- The frame of a number with the given rows. -/
def frameOf (source : Frame) (n : ℕ) (content : List (Kind × Json)) : Frame :=
  content.foldl (fun frame item => frame.push item.1 item.2) (emptyPhysical source n)

/-- The rows of one collection. -/
def ofKind (kind : Kind) (content : List (Kind × Json)) : List Json :=
  (content.filter fun item => decide (item.1 = kind)).map Prod.snd

theorem frameOf_concat (source : Frame) (n : ℕ) (content : List (Kind × Json)) (item : Kind × Json) :
    frameOf source n (content ++ [item]) = (frameOf source n content).push item.1 item.2 := by
  unfold frameOf
  rw [List.foldl_append]
  rfl

theorem rows_push (frame : Frame) (kind own : Kind) (row : Json) :
    (frame.push own row).rows kind = frame.rows kind ++ if own = kind then [row] else [] := by
  cases own <;> cases kind <;> simp [Frame.push, Frame.rows, Frame.rows?]

theorem rows_frameOf (source : Frame) (n : ℕ) (content : List (Kind × Json)) (kind : Kind) :
    (frameOf source n content).rows kind = ofKind kind content := by
  induction content using List.reverseRecOn with
  | nil => cases kind <;> rfl
  | append_singleton content item ih =>
      rw [frameOf_concat, rows_push, ih]
      unfold ofKind
      rw [List.filter_append, List.map_append]
      by_cases hkind : item.1 = kind
      · simp [hkind]
      · simp [hkind]

theorem rowCount_push (frame : Frame) (kind : Kind) (row : Json) :
    (frame.push kind row).rowCount = frame.rowCount + 1 := by
  cases kind <;> simp [Frame.push, Frame.rowCount] <;> omega

theorem rowCount_frameOf (source : Frame) (n : ℕ) (content : List (Kind × Json)) :
    (frameOf source n content).rowCount = content.length := by
  induction content using List.reverseRecOn with
  | nil => rfl
  | append_singleton content item ih =>
      rw [frameOf_concat, rowCount_push, ih, List.length_append, List.length_singleton]

theorem times_frameOf (source : Frame) (n : ℕ) (content : List (Kind × Json)) :
    (frameOf source n content).seq = source.seq + n ∧
      (frameOf source n content).fromTime = source.fromTime ∧
      (frameOf source n content).toTime = source.toTime := by
  induction content using List.reverseRecOn with
  | nil => exact ⟨rfl, rfl, rfl⟩
  | append_singleton content item ih =>
      rw [frameOf_concat]
      obtain ⟨kind, row⟩ := item
      cases kind <;> exact ih

/-- A collection that is there has rows, or is always there. -/
theorem rows?_frameOf_eq_none_iff (source : Frame) (n : ℕ) (content : List (Kind × Json)) :
    (frameOf source n content).rows? .distincts = none ↔
      (frameOf source n content).rows .distincts = [] := by
  induction content using List.reverseRecOn with
  | nil => exact ⟨fun _ => rfl, fun _ => rfl⟩
  | append_singleton content item ih =>
      rw [frameOf_concat]
      obtain ⟨kind, row⟩ := item
      cases kind with
      | distincts => simp [Frame.push, Frame.rows, Frame.rows?]
      | _ => exact ih

theorem present_map_sized (js : Js) (content : List (Kind × Json)) (kind : Kind) :
    present (content.map (sized js)) kind = !(ofKind kind content).isEmpty := by
  unfold present ofKind
  rw [List.any_map]
  induction content with
  | nil => rfl
  | cons item content ih =>
      by_cases hkind : item.1 = kind
      · simp [sized, hkind]
      · simp [sized, hkind] at ih ⊢
        exact ih

/-- The bytes of the empty frames. -/
def emptyBytes (js : Js) (source : Frame) (n : ℕ) : ℕ := (measure js (emptyPhysical source n)).bytes

/-- What a row adds to a frame's text, from the sizes of the rows before it. -/
theorem measure_push_frameOf (js : Js) (source : Frame) (n : ℕ) (content : List (Kind × Json))
    (item : Kind × Json) :
    addedBytes item.1 ((frameOf source n content).rows? item.1) (byteLength (item.2.stringify js)) =
      added (content.map (sized js)) (sized js item) := by
  have hrows : ((frameOf source n content).rows? item.1).getD [] = ofKind item.1 content :=
    rows_frameOf source n content item.1
  have hpresent := present_map_sized js content item.1
  have habsent : (item.1 = .distincts ∧ (frameOf source n content).rows? item.1 = none) ↔
      (item.1 = .distincts ∧ present (content.map (sized js)) item.1 = false) := by
    refine and_congr_right fun hkind => ?_
    rw [hpresent, hkind, rows?_frameOf_eq_none_iff, rows_frameOf]
    simp
  unfold added addedBytes
  rw [hrows, if_congr habsent rfl rfl, distinctsProperty_bytes]
  show _ = byteLength (item.2.stringify js) + (if present (content.map (sized js)) item.1 then 1 else 0)
    + if item.1 = .distincts ∧ present (content.map (sized js)) item.1 = false then 15 else 0
  have hcomma : comma (ofKind item.1 content) =
      if present (content.map (sized js)) item.1 then 1 else 0 := by
    rw [hpresent]
    unfold comma
    cases (ofKind item.1 content).isEmpty <;> rfl
  rw [hcomma]

theorem measure_frameOf (js : Js) (source : Frame) (n : ℕ) (content : List (Kind × Json)) :
    (measure js (frameOf source n content)).bytes =
      emptyBytes js source n + contentBytes (content.map (sized js)) := by
  induction content using List.reverseRecOn with
  | nil => rfl
  | append_singleton content item ih =>
      rw [frameOf_concat, measure_push, measure_push_frameOf, ih, List.map_append, List.map_singleton,
        contentBytes_concat, Nat.add_assoc]

/-! ## The splitter packs -/

section
variable (js : Js) (source : Frame) (limits : FrameLimits)

/-- Whether a row fits behind others into the frame of a number. -/
def fitsIn (n : ℕ) (content : List (Kind × Json)) (item : Kind × Json) : Bool :=
  sizeFits (emptyBytes js source) limits n (content.map (sized js)) (sized js item)

/-- The splitter's state is the packing's. -/
structure Splits (s : Splitter) (p : Packing (Kind × Json)) : Prop where
  frames : s.frames = p.closed.mapIdx fun n content => frameOf source n content
  jsons : s.jsons = s.frames.map fun frame => (measure js frame).json
  current : s.current = frameOf source p.closed.length p.current
  currentBytes : s.currentBytes = (measure js s.current).bytes
  dropped : ∀ kind, s.dropped kind = (ofKind kind p.dropped).length

/-- The rows of a frame up to a number are within the limits. -/
def WithinLimits (most n : ℕ) (content : List (Kind × Json)) : Prop :=
  n ≤ most → emptyBytes js source n + contentBytes (content.map (sized js)) ≤ limits.maxFrameBytes ∧
    content.length ≤ limits.maxFrameRows

end

section
variable {js : Js} {source : Frame} {limits : FrameLimits} {s : Splitter}
  {p : Packing (Kind × Json)}

theorem splits_start (js : Js) (source : Frame) :
    Splits js source (Splitter.start js source) Packing.empty :=
  ⟨rfl, rfl, rfl, rfl, fun _ => rfl⟩

theorem Splits.tryAddRow (h : Splits js source s p) (limits : FrameLimits) (kind : Kind)
    (row : Json) :
    (fitsIn js source limits p.closed.length p.current (kind, row) = true ∧
      ∃ after, tryAddRow limits kind row (byteLength (row.stringify js)) s = some after ∧
        Splits js source after (p.add (kind, row))) ∨
    (fitsIn js source limits p.closed.length p.current (kind, row) = false ∧
      tryAddRow limits kind row (byteLength (row.stringify js)) s = none) := by
  have hbytes : addedBytes kind (s.current.rows? kind) (byteLength (row.stringify js)) =
      added (p.current.map (sized js)) (sized js (kind, row)) := by
    rw [h.current]
    exact measure_push_frameOf js source p.closed.length p.current (kind, row)
  have hcurrent : s.currentBytes =
      emptyBytes js source p.closed.length + contentBytes (p.current.map (sized js)) := by
    rw [h.currentBytes, h.current, measure_frameOf]
  have hcount : s.current.rowCount = p.current.length := by
    rw [h.current, rowCount_frameOf]
  have hfits : fitsIn js source limits p.closed.length p.current (kind, row) =
      !decide (limits.maxFrameBytes < s.currentBytes +
        addedBytes kind (s.current.rows? kind) (byteLength (row.stringify js)) ∨
          limits.maxFrameRows ≤ s.current.rowCount) := by
    unfold fitsIn sizeFits
    rw [hbytes, hcurrent, hcount, List.length_map, ← Bool.decide_and, ← decide_not]
    apply decide_eq_decide.mpr
    omega
  rw [hfits]
  unfold Frames.tryAddRow
  dsimp only
  split_ifs with hover
  · right
    exact ⟨by rw [decide_eq_true hover]; rfl, rfl⟩
  · left
    refine ⟨by rw [decide_eq_false hover]; rfl, _, rfl, h.frames, h.jsons, ?_, ?_, h.dropped⟩
    · show s.current.push kind row = frameOf source p.closed.length (p.current ++ [(kind, row)])
      rw [frameOf_concat, h.current]
    · show s.currentBytes + _ = (measure js (s.current.push kind row)).bytes
      rw [measure_push, h.currentBytes]

theorem Splits.finishCurrent (h : Splits js source s p)
    (hfits : (measure js s.current).bytes ≤ limits.maxFrameBytes) :
    ∃ after, finishCurrent js source limits s = .ok after ∧ Splits js source after p.close := by
  have hlength : s.frames.length = p.closed.length := by
    rw [h.frames, List.length_mapIdx]
  unfold Frames.finishCurrent
  dsimp only
  rw [decide_eq_true hfits]
  refine ⟨_, rfl, ?_, ?_, ?_, rfl, h.dropped⟩
  · show s.frames ++ [s.current] = (p.closed ++ [p.current]).mapIdx _
    rw [List.mapIdx_append, h.frames, h.current]
    simp
  · show s.jsons ++ [_] = (s.frames ++ [s.current]).map _
    rw [List.map_append, h.jsons]
    rfl
  · show emptyPhysical source (s.frames.length + 1) = frameOf source (p.closed ++ [p.current]).length []
    rw [hlength, List.length_append, List.length_singleton]
    rfl

theorem Splits.countDropped (h : Splits js source s p) (kind : Kind) (row : Json) :
    Splits js source (s.countDropped kind true) (p.drop (kind, row)) := by
  refine ⟨h.frames, h.jsons, h.current, h.currentBytes, ?_⟩
  intro own
  show Function.update s.dropped kind (s.dropped kind + 1) own = _
  unfold ofKind
  rw [Packing.dropped_drop, List.filter_append, List.map_append, List.length_append]
  by_cases hkind : own = kind
  · subst hkind
    rw [Function.update_self, h.dropped]
    simp [ofKind]
  · rw [Function.update_of_ne hkind, h.dropped]
    have hkind' : ¬ kind = own := fun hsame => hkind hsame.symm
    simp [ofKind, hkind']

theorem fitsIn_alone (js : Js) (source : Frame) (limits : FrameLimits) (n : ℕ)
    (content : List (Kind × Json)) (item : Kind × Json)
    (h : fitsIn js source limits n content item = true) : fitsIn js source limits n [] item = true :=
  sizeFits_alone h

/-- Adding a row does what next fit does with it; a row that is kept is not counted. -/
theorem Splits.addRow (h : Splits js source s p)
    (hfits : (measure js s.current).bytes ≤ limits.maxFrameBytes) (kind : Kind) (row : Json)
    (countDrop : Bool) :
    ∃ after, addRow js source limits kind row countDrop s =
        .ok ((Packing.slotOf (fitsIn js source limits) p (kind, row)).kept, after) ∧
      ((Packing.slotOf (fitsIn js source limits) p (kind, row)).kept = true ∨ countDrop = true →
        Splits js source after (p.put (fitsIn js source limits) (kind, row))) := by
  have hput := Packing.put_cases (fitsIn_alone js source limits) p (kind, row)
  have hcount : s.current.rowCount = p.current.length := by
    rw [h.current, rowCount_frameOf]
  generalize p.put (fitsIn js source limits) (kind, row) = packed,
    Packing.slotOf (fitsIn js source limits) p (kind, row) = slot at hput ⊢
  unfold Frames.addRow
  dsimp only
  cases hput with
  | added hadded =>
      rcases h.tryAddRow limits kind row with ⟨-, after, htry, hafter⟩ | ⟨hrefused, -⟩
      · rw [htry]
        exact ⟨after, rfl, fun _ => hafter⟩
      · rw [hrefused] at hadded
        cases hadded
  | dropped hcurrent halone =>
      rcases h.tryAddRow limits kind row with ⟨hadded, -⟩ | ⟨-, htry⟩
      · rw [hcurrent, halone] at hadded
        cases hadded
      · have hzero : ¬ 0 < s.current.rowCount := by
          rw [hcount, hcurrent, List.length_nil]
          exact Nat.lt_irrefl 0
        rw [htry]
        dsimp only
        rw [if_neg hzero]
        refine ⟨_, rfl, ?_⟩
        rintro (hkept | rfl)
        · cases hkept
        · exact h.countDropped kind row
  | moved hcurrent hrefused hadded =>
      rcases h.tryAddRow limits kind row with ⟨hfirst, -⟩ | ⟨-, htry⟩
      · rw [hrefused] at hfirst
        cases hfirst
      · have hpositive : 0 < s.current.rowCount := by
          rw [hcount]
          exact List.length_pos_of_ne_nil hcurrent
        obtain ⟨next, hnext, hclosed⟩ := h.finishCurrent hfits
        have hlength : p.close.closed.length = p.closed.length + 1 := by simp
        rcases hclosed.tryAddRow limits kind row with ⟨-, after, hagain, hafter⟩ | ⟨hsecond, -⟩
        · rw [htry]
          dsimp only
          rw [if_pos hpositive, hnext]
          refine ⟨after, ?_, fun _ => hafter⟩
          dsimp only [bind, Except.bind]
          rw [hagain]
          rfl
        · rw [hlength, Packing.current_close, hadded] at hsecond
          cases hsecond
  | lost hcurrent hrefused hlost =>
      rcases h.tryAddRow limits kind row with ⟨hfirst, -⟩ | ⟨-, htry⟩
      · rw [hrefused] at hfirst
        cases hfirst
      · have hpositive : 0 < s.current.rowCount := by
          rw [hcount]
          exact List.length_pos_of_ne_nil hcurrent
        obtain ⟨next, hnext, hclosed⟩ := h.finishCurrent hfits
        have hlength : p.close.closed.length = p.closed.length + 1 := by simp
        rcases hclosed.tryAddRow limits kind row with ⟨hsecond, -⟩ | ⟨-, hagain⟩
        · rw [hlength, Packing.current_close, hlost] at hsecond
          cases hsecond
        · rw [htry]
          dsimp only
          rw [if_pos hpositive, hnext]
          refine ⟨next.countDropped kind countDrop, ?_, ?_⟩
          · dsimp only [bind, Except.bind]
            rw [hagain]
            rfl
          · rintro (hkept | rfl)
            · cases hkept
            · exact hclosed.countDropped kind row

/-! ## Runs of rows -/

/-- Empty frames up to a number are within the limit. -/
def EmptyFits (js : Js) (source : Frame) (limits : FrameLimits) (most : ℕ) : Prop :=
  ∀ n ≤ most, emptyBytes js source n ≤ limits.maxFrameBytes

variable {most : ℕ}

theorem withinLimits_nil (hempty : EmptyFits js source limits most) (n : ℕ) :
    WithinLimits js source limits most n [] :=
  fun hn => ⟨hempty n hn, Nat.zero_le _⟩

theorem withinLimits_concat (n : ℕ) (content : List (Kind × Json)) (item : Kind × Json)
    (_h : WithinLimits js source limits most n content)
    (hfits : fitsIn js source limits n content item = true) :
    WithinLimits js source limits most n (content ++ [item]) := by
  intro _
  unfold fitsIn sizeFits at hfits
  rw [Bool.and_eq_true, decide_eq_true_eq, decide_eq_true_eq, List.length_map] at hfits
  rw [List.map_append, List.map_singleton, contentBytes_concat, List.length_append,
    List.length_singleton]
  omega

theorem Splits.current_fits (h : Splits js source s p)
    (hbins : Packing.Bins (WithinLimits js source limits most) p) (hmost : p.closed.length ≤ most) :
    (measure js s.current).bytes ≤ limits.maxFrameBytes := by
  rw [h.current, measure_frameOf]
  exact (hbins.current hmost).1

theorem Splits.addRows (hempty : EmptyFits js source limits most) (rows : List (Kind × Json))
    (h : Splits js source s p) (hbins : Packing.Bins (WithinLimits js source limits most) p)
    (hmost : p.closed.length + rows.length ≤ most) :
    ∃ after, addRows js source limits s rows = .ok after ∧
      Splits js source after (run (fun item p => p.put (fitsIn js source limits) item) p rows) ∧
      Packing.Bins (WithinLimits js source limits most)
        (run (fun item p => p.put (fitsIn js source limits) item) p rows) ∧
      (run (fun item p => p.put (fitsIn js source limits) item) p rows).closed.length ≤
        p.closed.length + rows.length := by
  induction rows generalizing s p with
  | nil =>
      exact ⟨s, rfl, h, hbins, Nat.le_add_right _ _⟩
  | cons item rows ih =>
      obtain ⟨kind, row⟩ := item
      rw [List.length_cons] at hmost
      have hput := Packing.length_closed_put_le (fitsIn js source limits) p (kind, row)
      have hfits := h.current_fits hbins (by omega)
      obtain ⟨after, hadd, hafter⟩ := h.addRow hfits kind row true
      have hbins' := hbins.put (withinLimits_nil hempty _) withinLimits_concat (kind, row)
      have hroom : (p.put (fitsIn js source limits) (kind, row)).closed.length + rows.length ≤ most := by
        omega
      obtain ⟨last, hrun, hlast, hbinsLast, hlength⟩ := ih (hafter (Or.inr rfl)) hbins' hroom
      refine ⟨last, ?_, hlast, hbinsLast, ?_⟩
      · unfold Frames.addRows
        rw [List.foldlM_cons, hadd]
        exact hrun
      · rw [List.length_cons]
        exact Nat.le_trans hlength (by omega)

/-- The frame that is still open is finished unless it has no rows. -/
theorem Splits.finishLast (h : Splits js source s p)
    (hbins : Packing.Bins (WithinLimits js source limits most) p) (hmost : p.closed.length ≤ most) :
    ∃ last, finishLast js source limits s = .ok last ∧
      last.frames = p.bins.mapIdx (fun n content => frameOf source n content) ∧
      last.jsons = last.frames.map (fun frame => (measure js frame).json) ∧
      last.dropped = s.dropped := by
  have hopen : (s.frames = [] ∨ 0 < s.current.rowCount) ↔ ¬ (p.closed ≠ [] ∧ p.current = []) := by
    rw [h.frames, h.current, rowCount_frameOf, List.mapIdx_eq_nil_iff, List.length_pos_iff]
    tauto
  unfold Frames.finishLast
  by_cases hfinish : s.frames = [] ∨ 0 < s.current.rowCount
  · obtain ⟨last, hlast, hclosed⟩ := h.finishCurrent (h.current_fits hbins hmost)
    rw [if_pos hfinish]
    refine ⟨last, hlast, ?_, hclosed.jsons, ?_⟩
    · have hbinsEq : p.bins = p.closed ++ [p.current] := if_neg (hopen.mp hfinish)
      rw [hbinsEq]
      exact hclosed.frames
    · unfold Frames.finishCurrent at hlast
      simp only [bind_eq_ok_iff, pure, Except.pure, Except.ok.injEq] at hlast
      obtain ⟨_, _, rfl⟩ := hlast
      rfl
  · rw [if_neg hfinish]
    refine ⟨s, rfl, ?_, h.jsons, rfl⟩
    have hbinsEq : p.bins = p.closed := if_pos (not_not.mp (mt hopen.mpr hfinish))
    rw [hbinsEq]
    exact h.frames

end

/-! ## Whole splits -/

/-- The numbers a split prints are short. -/
structure BoundedPrint (js : Js) (source : Frame) : Prop where
  seq : ∀ n ≤ source.tagged.length + 1,
    byteLength (js.numberText ((source.seq + n : ℕ) : ℚ)) ≤ 64
  fromTime : byteLength (js.numberText source.fromTime) ≤ 64
  toTime : byteLength (js.numberText source.toTime) ≤ 64
  dropped : ∀ n ≤ source.tagged.length, byteLength (js.numberText (n : ℕ)) ≤ 64

/-- What a split makes of a frame whose rows have the given slots. -/
structure Conserves (js : Js) (source : Frame) (limits : FrameLimits) (slots : List Slot)
    (batch : FrameBatch) : Prop where
  nonempty : batch.frames ≠ []
  length_jsons : batch.jsons.length = batch.frames.length
  frames : ∀ n frame, batch.frames[n]? = some frame →
    frame.seq = source.seq + n ∧ frame.fromTime = source.fromTime ∧ frame.toTime = source.toTime ∧
    batch.jsons[n]? = some (frame.toJson.stringify js) ∧
    byteLength (frame.toJson.stringify js) ≤ limits.maxFrameBytes ∧
    frame.rowCount ≤ limits.maxFrameRows
  kept_iff : ∀ item slot, (item, slot) ∈ source.tagged.zip slots → (slot.kept = true ↔
    emptyBytes js source slot.bin + added [] (sized js item) ≤ limits.maxFrameBytes)
  rows : ∀ kind, batch.frames.flatMap (fun frame => frame.rows kind) =
    ofKind kind (Packing.packed source.tagged slots) ++
      if kind = .counters ∧ 0 < batch.droppedRows then [dropMetric batch.droppedRows] else []
  placed : ∀ n kind, ((batch.frames[n]?).map fun frame => frame.rows kind).getD [] =
    ofKind kind (Packing.content source.tagged slots n) ++
      if n + 1 = batch.frames.length ∧ kind = .counters ∧ 0 < batch.droppedRows then
        [dropMetric batch.droppedRows]
      else []
  dropped : ∀ kind,
    batch.dropped kind = (ofKind kind (Packing.refused source.tagged slots)).length
  droppedRows : batch.droppedRows = (Packing.refused source.tagged slots).length

theorem ofKind_append (kind : Kind) (a b : List (Kind × Json)) :
    ofKind kind (a ++ b) = ofKind kind a ++ ofKind kind b := by
  unfold ofKind
  rw [List.filter_append, List.map_append]

theorem sum_ofKind (content : List (Kind × Json)) :
    (Kind.all.map fun kind => (ofKind kind content).length).sum = content.length := by
  induction content with
  | nil => rfl
  | cons item content ih =>
      have hcons : ∀ kind, (ofKind kind (item :: content)).length =
          (ofKind kind content).length + if item.1 = kind then 1 else 0 := by
        intro kind
        by_cases hkind : item.1 = kind
        · simp [ofKind, hkind]
        · simp [ofKind, hkind]
      simp only [hcons, Kind.all, List.map_cons, List.map_nil, List.sum_cons, List.sum_nil,
        List.length_cons] at ih ⊢
      cases item.1 <;> simp <;> omega

theorem emptyBytes_le {js : Js} {source : Frame} (hprint : BoundedPrint js source) {n : ℕ}
    (hn : n ≤ source.tagged.length + 1) : emptyBytes js source n ≤ 290 := by
  have hseq := hprint.seq n hn
  have hfrom := hprint.fromTime
  have hto := hprint.toTime
  unfold emptyBytes
  rw [measure_bytes]
  simp only [emptyPhysical, emptyFrame, itemsBytes, stringifyItems]
  have hnil : byteLength "" = 0 := rfl
  rw [hnil]
  omega

theorem dropMetric_bytes (js : Js) (n : ℕ) :
    byteLength ((dropMetric n).stringify js) = 43 + byteLength (js.numberText n) := by
  have hname : byteLength (quote frameRowsDropped) = 35 := by decide +kernel
  have hnull : byteLength "null" = 4 := rfl
  have hcomma : byteLength "," = 1 := rfl
  have hleft : byteLength "[" = 1 := rfl
  have hright : byteLength "]" = 1 := rfl
  simp only [dropMetric, stringify, stringifyItems, byteLength_append, hname, hnull, hcomma, hleft,
    hright]
  omega

section
variable {js : Js} {source : Frame} {limits : FrameLimits}

theorem dropMetric_fits (hbytes : 1024 ≤ limits.maxFrameBytes) (hrows : 1 ≤ limits.maxFrameRows)
    (hprint : BoundedPrint js source) {dropped : ℕ} (hdropped : dropped ≤ source.tagged.length)
    {n : ℕ} (hn : n ≤ source.tagged.length + 1) :
    fitsIn js source limits n [] (.counters, dropMetric dropped) = true := by
  have hempty := emptyBytes_le hprint hn
  have hmetric := dropMetric_bytes js dropped
  have hdigits := hprint.dropped dropped hdropped
  have hadded : added [] (sized js (.counters, dropMetric dropped)) =
      byteLength ((dropMetric dropped).stringify js) := rfl
  unfold fitsIn sizeFits
  rw [Bool.and_eq_true, decide_eq_true_eq, decide_eq_true_eq, List.map_nil, hadded]
  refine ⟨?_, hrows⟩
  show emptyBytes js source n + 0 + _ ≤ _
  omega

/-- The packing of the rows, with the counter of the dropped ones when there are any. -/
def splitPacking (js : Js) (source : Frame) (limits : FrameLimits) : Packing (Kind × Json) :=
  let packed := Packing.pack (fitsIn js source limits) source.tagged
  if packed.dropped = [] then packed
  else packed.put (fitsIn js source limits) (.counters, dropMetric packed.dropped.length)

theorem length_dropped_le (js : Js) (source : Frame) (limits : FrameLimits) :
    (Packing.pack (fitsIn js source limits) source.tagged).dropped.length ≤
      source.tagged.length := by
  rw [Packing.dropped_pack (fitsIn_alone js source limits)]
  unfold Packing.refused
  rw [List.length_map]
  refine Nat.le_trans (List.length_filter_le _ _) ?_
  rw [List.length_zip]
  exact Nat.min_le_left _ _

/-- The counter of the dropped rows is kept, in the last frame. -/
theorem metric_kept (hbytes : 1024 ≤ limits.maxFrameBytes) (hrows : 1 ≤ limits.maxFrameRows)
    (hprint : BoundedPrint js source)
    (hclosed : (Packing.pack (fitsIn js source limits) source.tagged).closed.length ≤
      source.tagged.length) :
    let packed := Packing.pack (fitsIn js source limits) source.tagged
    let item := (Kind.counters, dropMetric packed.dropped.length)
    (Packing.slotOf (fitsIn js source limits) packed item).kept = true ∧
      (packed.put (fitsIn js source limits) item).current ≠ [] ∧
      ∀ i, (packed.put (fitsIn js source limits) item).bin i = packed.bin i ++
        if i = (packed.put (fitsIn js source limits) item).closed.length then [item] else [] := by
  intro packed item
  apply Packing.bin_put_of_alone (fitsIn_alone js source limits)
  intro n hn
  exact dropMetric_fits hbytes hrows hprint (length_dropped_le js source limits)
    (Nat.le_trans hn (Nat.succ_le_succ hclosed))

theorem splitPacking_spec (hbytes : 1024 ≤ limits.maxFrameBytes) (hrows : 1 ≤ limits.maxFrameRows)
    (hprint : BoundedPrint js source)
    (hempty : EmptyFits js source limits (source.tagged.length + 1))
    (hbins : Packing.Bins (WithinLimits js source limits (source.tagged.length + 1))
      (Packing.pack (fitsIn js source limits) source.tagged))
    (hclosed : (Packing.pack (fitsIn js source limits) source.tagged).closed.length ≤
      source.tagged.length) :
    Packing.Bins (WithinLimits js source limits (source.tagged.length + 1))
        (splitPacking js source limits) ∧
      (splitPacking js source limits).closed.length ≤ source.tagged.length + 1 ∧
      (splitPacking js source limits).dropped =
        (Packing.pack (fitsIn js source limits) source.tagged).dropped := by
  unfold splitPacking
  dsimp only
  split_ifs with hnone
  · exact ⟨hbins, by omega, rfl⟩
  · refine ⟨hbins.put (withinLimits_nil hempty _) withinLimits_concat _, ?_, ?_⟩
    · have hput := Packing.length_closed_put_le (fitsIn js source limits)
        (Packing.pack (fitsIn js source limits) source.tagged) (Kind.counters,
          dropMetric (Packing.pack (fitsIn js source limits) source.tagged).dropped.length)
      omega
    · have hkept := (metric_kept hbytes hrows hprint hclosed).1
      rw [Packing.dropped_put (fitsIn_alone js source limits)]
      unfold Packing.refused
      simp only [List.zip_cons_cons, List.zip_nil_right]
      rw [List.filter_cons_of_neg (by rw [hkept]; decide)]
      exact List.append_nil _

/-- A split succeeds with the bins of the packing as its frames. -/
theorem splitToMaxBytes_eq (hbytes : 1024 ≤ limits.maxFrameBytes) (hrows : 1 ≤ limits.maxFrameRows)
    (hprint : BoundedPrint js source) :
    ∃ batch, splitToMaxBytes js source limits = .ok batch ∧
      batch.frames = (splitPacking js source limits).bins.mapIdx
        (fun n content => frameOf source n content) ∧
      batch.jsons = batch.frames.map (fun frame => (measure js frame).json) ∧
      (∀ n content, (splitPacking js source limits).bins[n]? = some content →
        emptyBytes js source n + contentBytes (content.map (sized js)) ≤ limits.maxFrameBytes ∧
        content.length ≤ limits.maxFrameRows) ∧
      batch.droppedRows = (Packing.pack (fitsIn js source limits) source.tagged).dropped.length ∧
      ∀ kind, batch.dropped kind =
        (ofKind kind (Packing.pack (fitsIn js source limits) source.tagged).dropped).length := by
  let packed := Packing.pack (fitsIn js source limits) source.tagged
  have hempty : EmptyFits js source limits (source.tagged.length + 1) :=
    fun n hn => Nat.le_trans (emptyBytes_le hprint hn) (by omega)
  obtain ⟨s, hrun, hsplits, hbins, hlength⟩ := (splits_start js source).addRows hempty source.tagged
    (Packing.Bins.empty (withinLimits_nil hempty 0)) (by simp [Packing.empty])
  change Splits js source s packed at hsplits
  change Packing.Bins _ packed at hbins
  have hclosed : packed.closed.length ≤ source.tagged.length := by
    change packed.closed.length ≤ 0 + source.tagged.length at hlength
    omega
  have hdropped : (Kind.all.map s.dropped).sum = packed.dropped.length := by
    have hkinds : s.dropped = fun kind => (ofKind kind packed.dropped).length :=
      funext hsplits.dropped
    rw [hkinds, sum_ofKind]
  obtain ⟨hbinsLast, hlengthLast, hdroppedLast⟩ := splitPacking_spec hbytes hrows hprint hempty hbins
    hclosed
  -- The counter of the dropped rows fits, so it is kept.
  have hmetric : ∃ after, addDropMetric js source limits packed.dropped.length s = .ok after ∧
      Splits js source after (splitPacking js source limits) := by
    unfold addDropMetric
    by_cases hnone : packed.dropped = []
    · have hpacking : splitPacking js source limits = packed := if_pos hnone
      rw [hnone, hpacking]
      exact ⟨s, rfl, hsplits⟩
    · have hpacking : splitPacking js source limits =
          packed.put (fitsIn js source limits) (.counters, dropMetric packed.dropped.length) :=
        if_neg hnone
      obtain ⟨after, hadd, hafter⟩ := hsplits.addRow (hsplits.current_fits hbins (by omega))
        .counters (dropMetric packed.dropped.length) false
      have hkept := (metric_kept hbytes hrows hprint hclosed).1
      rw [hkept] at hadd hafter
      rw [if_pos (List.length_pos_of_ne_nil hnone), hadd, hpacking]
      exact ⟨after, rfl, hafter (Or.inl rfl)⟩
  obtain ⟨after, hafter, hsplitsLast⟩ := hmetric
  obtain ⟨last, hfinish, hframes, hjsons, hsame⟩ := hsplitsLast.finishLast hbinsLast hlengthLast
  refine ⟨⟨last.frames, last.jsons, packed.dropped.length, last.dropped⟩, ?_, hframes, hjsons, ?_,
    rfl, ?_⟩
  · unfold splitToMaxBytes
    rw [decide_eq_true hbytes, decide_eq_true hrows, hrun]
    show (do
      let s ← addDropMetric js source limits (Kind.all.map s.dropped).sum s
      let s ← finishLast js source limits s
      pure (FrameBatch.mk s.frames s.jsons _ s.dropped)) = _
    rw [hdropped, hafter]
    show (do
      let s ← finishLast js source limits after
      pure (FrameBatch.mk s.frames s.jsons _ s.dropped)) = _
    rw [hfinish]
    rfl
  · intro n content hcontent
    have hn : n ≤ source.tagged.length + 1 := by
      have hlt := (List.getElem?_eq_some_iff.mp hcontent).1
      have hle := Packing.length_bins_le (splitPacking js source limits)
      omega
    exact hbinsLast.bins hcontent hn
  · intro kind
    show last.dropped kind = _
    rw [hsame, hsplitsLast.dropped, hdroppedLast]

theorem ofKind_flatten (kind : Kind) (contents : List (List (Kind × Json))) :
    contents.flatMap (ofKind kind) = ofKind kind contents.flatten := by
  induction contents with
  | nil => rfl
  | cons content contents ih =>
      rw [List.flatMap_cons, ih, List.flatten_cons, ofKind_append]

theorem map_rows_frames (bins : List (List (Kind × Json))) (kind : Kind) :
    (bins.mapIdx fun n content => frameOf source n content).map (fun frame => frame.rows kind) =
      bins.map (ofKind kind) := by
  apply List.ext_getElem?
  intro n
  rw [List.getElem?_map, List.getElem?_mapIdx, List.getElem?_map]
  cases bins[n]? with
  | none => rfl
  | some content => exact congrArg some (rows_frameOf source n content kind)

/-- A split never throws, and leaves out only rows that fit no empty frame. -/
theorem splitToMaxBytes_conserves (hbytes : 1024 ≤ limits.maxFrameBytes)
    (hrows : 1 ≤ limits.maxFrameRows) (hprint : BoundedPrint js source) :
    ∃ batch, splitToMaxBytes js source limits = .ok batch ∧
      Conserves js source limits (Packing.slots (fitsIn js source limits) source.tagged) batch := by
  have hmono := fitsIn_alone js source limits
  have hclosed : (Packing.pack (fitsIn js source limits) source.tagged).closed.length ≤
      source.tagged.length := Packing.length_closed_pack_le _ _
  obtain ⟨batch, hsplit, hframes, hjsons, hlimits, hcount, hkinds⟩ :=
    splitToMaxBytes_eq hbytes hrows hprint
  have hrefused := Packing.dropped_pack hmono source.tagged
  have hmetric := metric_kept hbytes hrows hprint hclosed
  refine ⟨batch, hsplit, ?_, ?_, ?_, ?_, ?_, ?_, ?_, ?_⟩
  · rw [hframes, ne_eq, List.mapIdx_eq_nil_iff]
    exact Packing.bins_ne_nil _
  · rw [hjsons, List.length_map]
  · intro n frame hframe
    have hjson : batch.jsons[n]? = some (frame.toJson.stringify js) := by
      rw [hjsons, List.getElem?_map, hframe]
      rfl
    rw [hframes, List.getElem?_mapIdx] at hframe
    obtain ⟨content, hcontent, rfl⟩ := Option.map_eq_some_iff.mp hframe
    obtain ⟨hseq, hfrom, hto⟩ := times_frameOf source n content
    obtain ⟨hsize, hlength⟩ := hlimits n content hcontent
    refine ⟨hseq, hfrom, hto, hjson, ?_, ?_⟩
    · have hmeasured := measure_frameOf js source n content
      change byteLength ((frameOf source n content).toJson.stringify js) = _ at hmeasured
      omega
    · rw [rowCount_frameOf]
      exact hlength
  · intro item slot hmem
    rw [Packing.kept_of_mem_slots hmem]
    unfold fitsIn sizeFits
    rw [Bool.and_eq_true, decide_eq_true_eq, decide_eq_true_eq, List.map_nil]
    show emptyBytes js source slot.bin + 0 + _ ≤ _ ∧ 0 < limits.maxFrameRows ↔ _
    constructor
    · intro h
      omega
    · intro h
      omega
  · intro kind
    rw [hframes, List.flatMap_def, map_rows_frames, ← List.flatMap_def, ofKind_flatten, hcount]
    have hflatten := Packing.flatten_bins_pack hmono source.tagged
    unfold splitPacking
    dsimp only
    split_ifs with hnone hcounter hcounter
    · rw [hnone] at hcounter
      exact absurd hcounter.2 (Nat.lt_irrefl 0)
    · rw [hflatten, List.append_nil]
    · rw [Packing.flatten_bins, Packing.flatten_put hmono, ← Packing.flatten_bins, hflatten,
        ofKind_append]
      congr 1
      rw [Packing.packed_singleton hmetric.1, hcounter.1]
      rfl
    · rw [Packing.flatten_bins, Packing.flatten_put hmono, ← Packing.flatten_bins, hflatten,
        ofKind_append]
      congr 1
      rw [Packing.packed_singleton hmetric.1]
      have hkind : kind ≠ .counters := by
        intro hkind
        exact hcounter ⟨hkind, List.length_pos_of_ne_nil hnone⟩
      cases kind with
      | counters => exact absurd rfl hkind
      | _ => rfl
  · intro n kind
    have hbin : ((batch.frames[n]?).map fun frame => frame.rows kind).getD [] =
        ofKind kind ((splitPacking js source limits).bin n) := by
      rw [hframes, List.getElem?_mapIdx, ← Packing.getD_bins]
      cases (splitPacking js source limits).bins[n]? with
      | none => rfl
      | some content => exact rows_frameOf source n content kind
    have hlength : batch.frames.length = (splitPacking js source limits).bins.length := by
      rw [hframes, List.length_mapIdx]
    rw [hbin, hlength, hcount]
    unfold splitPacking
    dsimp only
    by_cases hnone : (Packing.pack (fitsIn js source limits) source.tagged).dropped = []
    · rw [if_pos hnone, Packing.bin_pack hmono, hnone, List.length_nil,
        if_neg fun h => Nat.lt_irrefl 0 h.2.2, List.append_nil]
    · have hpositive := List.length_pos_of_ne_nil hnone
      rw [if_neg hnone, hmetric.2.2, Packing.bin_pack hmono, ofKind_append,
        Packing.length_bins_of_ne hmetric.2.1]
      congr 1
      by_cases hlast : n = (Packing.put (fitsIn js source limits) (Kind.counters, dropMetric
          (Packing.pack (fitsIn js source limits) source.tagged).dropped.length)
          (Packing.pack (fitsIn js source limits) source.tagged)).closed.length
      · rw [if_pos hlast]
        by_cases hkind : kind = .counters
        · rw [if_pos ⟨by rw [hlast], hkind, hpositive⟩, hkind]
          rfl
        · rw [if_neg fun h => hkind h.2.1]
          cases kind with
          | counters => exact absurd rfl hkind
          | _ => rfl
      · rw [if_neg hlast, if_neg fun h => hlast (Nat.succ.inj h.1)]
        rfl
  · intro kind
    rw [hkinds, hrefused]
  · rw [hcount, hrefused]

end

end Wardx.Frames
