import Wardx.Aggregation.FrameAggregator
import Wardx.Core.MetricsRegistry
import Wardx.JsonText
import Wardx.Lib.Pieces

/-!
# What tells series apart

History keys a row by its fields joined at `U+0000`, which a role, an
environment, a version, a system or a name may hold as well. The live view and
the SDK key a set of dimensions by lines `key=value`, which keys and values may
hold as well, and which do not tell a number from its text.

Each key gives the pieces between its separators. Two rows, or two sets, with the
same pieces are the same when their fields are also cut alike; when they are cut
apart, the key takes them for one series.
-/
namespace Wardx.SeriesIdentity

open Lib HistoryBucket

/-! ## Sorted properties -/

section Sorted

variable {κ : Type} {α : Type} [DecidableEq κ] (le : κ × α → κ × α → Prop) [DecidableRel le]
  [Std.Total le] [IsTrans (κ × α) le]

/-- Under an order that tells keys apart, sorted properties are those of the map. -/
theorem sort_eq_iff_lookup (hkeys : ∀ x y, le x y → le y x → x.1 = y.1) {xs ys : List (κ × α)}
    (hx : (xs.map Prod.fst).Nodup) (hy : (ys.map Prod.fst).Nodup) :
    xs.insertionSort le = ys.insertionSort le ↔ ∀ k, xs.lookup k = ys.lookup k := by
  constructor
  · intro hsort k
    have hperm : xs.Perm ys :=
      ((List.perm_insertionSort le xs).symm.trans (hsort ▸ List.Perm.refl _)).trans
        (List.perm_insertionSort le ys)
    apply Option.ext
    intro v
    rw [Table.lookup_eq_some_iff hx, Table.lookup_eq_some_iff hy, hperm.mem_iff]
  · intro hlookup
    have hmem : ∀ entry, entry ∈ xs ↔ entry ∈ ys := by
      intro entry
      rw [← Table.lookup_eq_some_iff hx, ← Table.lookup_eq_some_iff hy, hlookup]
    have hperm : xs.Perm ys :=
      (List.perm_ext_iff_of_nodup (List.Nodup.of_map _ hx) (List.Nodup.of_map _ hy)).mpr hmem
    apply List.Perm.eq_of_pairwise _ (List.pairwise_insertionSort le xs)
      (List.pairwise_insertionSort le ys)
    · exact ((List.perm_insertionSort le xs).trans hperm).trans
        (List.perm_insertionSort le ys).symm
    · intro a b ha hb hab hba
      have hax : (a.1, a.2) ∈ xs := (List.mem_insertionSort le).mp ha
      have hbx : (a.1, b.2) ∈ xs := by
        rw [hkeys a b hab hba]
        exact (hmem b).mpr ((List.mem_insertionSort le).mp hb)
      rw [← Table.lookup_eq_some_iff hx] at hax hbx
      rw [hax] at hbx
      exact Prod.ext (hkeys a b hab hba) (Option.some.inj hbx)

end Sorted

/-! ## Rows of history -/

theorem propertyRank_injective : Function.Injective propertyRank := by
  intro a b h
  unfold propertyRank at h
  cases ha : arrayIndex a with
  | none =>
      cases hb : arrayIndex b with
      | none =>
          rw [ha, hb] at h
          exact utf16_injective (List.cons.inj h).2
      | some n => simp [ha, hb] at h
  | some m =>
      cases hb : arrayIndex b with
      | none => simp [ha, hb] at h
      | some n =>
          simp only [ha, hb, List.cons.injEq, and_true, true_and] at h
          rw [h] at ha
          exact arrayIndex_injective ha hb

instance : Std.Total propertyLe := ⟨fun a b => le_total (propertyRank a.1) (propertyRank b.1)⟩

instance : IsTrans (String × Scalar) propertyLe :=
  ⟨fun _ _ _ hab hbc => le_trans (α := List ℕ) hab hbc⟩

theorem sortedFields_eq_iff {xs ys : List (String × Scalar)} (hx : (xs.map Prod.fst).Nodup)
    (hy : (ys.map Prod.fst).Nodup) :
    sortedFields xs = sortedFields ys ↔ ∀ key, xs.lookup key = ys.lookup key :=
  sort_eq_iff_lookup propertyLe
    (fun _ _ hab hba => propertyRank_injective (le_antisymm (α := List ℕ) hab hba)) hx hy

/-- The dimensions are those of an object: no key twice. -/
def ObjectKeys (dims : Dimensions) : Prop := ∀ fields, dims = some fields → (fields.map Prod.fst).Nodup

/-- A row that normalization returned. -/
def Normalized (js : Js) (row : HistoricalRow) : Prop :=
  ∃ source label, ObjectKeys source.dimensions ∧ normalizeHistoricalRow js source label = .ok row

/-- Both absent, or one map. -/
def SameDimensions : Dimensions → Dimensions → Prop
  | none, none => True
  | some xs, some ys => ∀ key, xs.lookup key = ys.lookup key
  | _, _ => False

structure SameSeries (a b : HistoricalRow) : Prop where
  kind : a.kind = b.kind
  role : a.role = b.role
  environment : a.environment = b.environment
  appVersion : a.appVersion = b.appVersion
  os : a.os = b.os
  name : a.name = b.name
  level : a.body.level = b.body.level
  dimensions : SameDimensions a.dimensions b.dimensions

/-- The fields the clients control. -/
def clientFields (row : HistoricalRow) : List (List Char) :=
  [row.role.toList, row.environment.toList, row.appVersion.toList, (row.os.getD "").toList,
    row.name.toList]

/-- Rows that differ only in where `U+0000` falls among the fields. -/
structure CutApart (a b : HistoricalRow) : Prop where
  kind : a.kind = b.kind
  level : a.body.level = b.body.level
  dimensions : SameDimensions a.dimensions b.dimensions
  pieces : pieces '\x00' (clientFields a) = pieces '\x00' (clientFields b)
  apart : (clientFields a).map (List.count '\x00') ≠ (clientFields b).map (List.count '\x00')

theorem lookup_sortedFields {fields : List (String × Scalar)} (h : (fields.map Prod.fst).Nodup)
    (key : String) : (sortedFields fields).lookup key = fields.lookup key := by
  have hperm : (sortedFields fields).Perm fields := List.perm_insertionSort _ _
  have hsorted : ((sortedFields fields).map Prod.fst).Nodup :=
    (hperm.map Prod.fst).nodup_iff.mpr h
  apply Option.ext
  intro v
  rw [Table.lookup_eq_some_iff hsorted, Table.lookup_eq_some_iff h, hperm.mem_iff]

/-- The dimensions of normalized rows are equal when they are the same map. -/
theorem Normalized.dimensions_eq_iff {js : Js} {a b : HistoricalRow} (ha : Normalized js a)
    (hb : Normalized js b) : a.dimensions = b.dimensions ↔ SameDimensions a.dimensions b.dimensions := by
  obtain ⟨x, label, hx, hnorm⟩ := ha
  obtain ⟨y, label', hy, hnorm'⟩ := hb
  have hxa : x.dimensions.map sortedFields = a.dimensions :=
    congrArg HistoricalRow.dimensions ((normalizeHistoricalRow_eq_ok_iff js x a label).mp hnorm).2
  have hyb : y.dimensions.map sortedFields = b.dimensions :=
    congrArg HistoricalRow.dimensions ((normalizeHistoricalRow_eq_ok_iff js y b label').mp hnorm').2
  rw [← hxa, ← hyb]
  cases hxd : x.dimensions with
  | none =>
      cases hyd : y.dimensions with
      | none => simp [SameDimensions]
      | some ys => simp [SameDimensions]
  | some xs =>
      cases hyd : y.dimensions with
      | none => simp [SameDimensions]
      | some ys =>
          simp only [Option.map_some, Option.some.injEq, SameDimensions,
            lookup_sortedFields (hx xs hxd), lookup_sortedFields (hy ys hyd)]
          exact sortedFields_eq_iff (hx xs hxd) (hy ys hyd)

theorem Normalized.os_ne {js : Js} {row : HistoricalRow} (h : Normalized js row) :
    row.os ≠ some "" := by
  obtain ⟨source, label, -, hnorm⟩ := h
  obtain ⟨hvalid, hrow⟩ := (normalizeHistoricalRow_eq_ok_iff js source row label).mp hnorm
  rw [← hrow]
  exact hvalid.os

theorem scalar_json_injective : Function.Injective Scalar.json := by
  intro a b h
  cases a <;> cases b <;> simp_all [Scalar.json]

theorem stableDimensions_injective {js : Js} (h : NumberTexts js) :
    Function.Injective (stableDimensions js) := by
  have hjson : ∀ dims, stableDimensions js dims =
      Json.stringify js ((dims.map fieldsJson).getD .null) := by
    intro dims
    cases dims with
    | none => simp [stableDimensions, Json.stringify]
    | some fields => rfl
  intro a b hab
  rw [hjson, hjson] at hab
  have hvalues := Json.stringify_injective h hab
  cases a with
  | none =>
      cases b with
      | none => rfl
      | some ys => simp [fieldsJson] at hvalues
  | some xs =>
      cases b with
      | none => simp [fieldsJson] at hvalues
      | some ys =>
          have hmap : xs.map (fun field => (field.1, field.2.json)) =
              ys.map (fun field => (field.1, field.2.json)) := Json.obj.inj hvalues
          have hinj : Function.Injective fun field : String × Scalar => (field.1, field.2.json) := by
            intro x y hxy
            obtain ⟨hkey, hvalue⟩ := Prod.mk.inj hxy
            exact Prod.ext hkey (scalar_json_injective hvalue)
          rw [List.map_injective_iff.mpr hinj hmap]

theorem nul_not_mem_of_noControl {text : String} (h : ∀ c ∈ text.toList, 32 ≤ c.toNat) :
    '\x00' ∉ text.toList := fun hmem => absurd (h _ hmem) (by decide)

theorem nul_not_mem_stableDimensions {js : Js} (h : NumberTexts js) (dims : Dimensions) :
    '\x00' ∉ (stableDimensions js dims).toList := by
  apply nul_not_mem_of_noControl
  cases dims with
  | none =>
      intro c hc
      exact @noControl_of_all "null" c hc (by decide)
  | some fields => exact Json.stringify_noControl h (fieldsJson fields)

theorem nul_not_mem_kind (kind : Kind) : '\x00' ∉ kind.text.toList := by
  cases kind <;> decide

def levelText (row : HistoricalRow) : String := (row.body.level.map LogLevel.text).getD ""

theorem nul_not_mem_level (row : HistoricalRow) : '\x00' ∉ (levelText row).toList := by
  unfold levelText
  cases row.body.level with
  | none => decide
  | some level => cases level <;> decide

theorem level_eq_of_text {a b : HistoricalRow} (h : levelText a = levelText b) :
    a.body.level = b.body.level := by
  unfold levelText at h
  cases ha : a.body.level with
  | none =>
      cases hb : b.body.level with
      | none => rfl
      | some level =>
          rw [ha, hb] at h
          cases level <;> exact absurd h (by decide)
  | some level =>
      cases hb : b.body.level with
      | none =>
          rw [ha, hb] at h
          cases level <;> exact absurd h (by decide)
      | some other =>
          rw [ha, hb] at h
          cases level <;> cases other <;> first | rfl | exact absurd h (by decide)

/-- The key is the fields joined at `U+0000`. -/
theorem toList_historicalSeriesKey (js : Js) (row : HistoricalRow) :
    (historicalSeriesKey js row).toList = ['\x00'].intercalate (row.kind.text.toList ::
      (clientFields row ++ [(levelText row).toList, (stableDimensions js row.dimensions).toList])) := by
  unfold historicalSeriesKey seriesTail clientFields levelText
  simp [String.toList_append, List.intercalate_cons_cons]

theorem key_pieces {js : Js} (h : NumberTexts js) (row : HistoricalRow) :
    pieces '\x00' (row.kind.text.toList :: (clientFields row ++
      [(levelText row).toList, (stableDimensions js row.dimensions).toList])) =
    row.kind.text.toList :: (pieces '\x00' (clientFields row) ++
      [(levelText row).toList, (stableDimensions js row.dimensions).toList]) := by
  have hlast : pieces '\x00' [(levelText row).toList, (stableDimensions js row.dimensions).toList] =
      [(levelText row).toList, (stableDimensions js row.dimensions).toList] := by
    apply pieces_of_free
    simp only [List.forall_mem_cons, List.not_mem_nil, IsEmpty.forall_iff, implies_true, and_true]
    exact ⟨nul_not_mem_level row, nul_not_mem_stableDimensions h row.dimensions⟩
  rw [pieces_cons, List.splitOn_eq_singleton (nul_not_mem_kind row.kind), pieces_append, hlast]
  rfl

/-- Rows share a key when their fields give the same pieces. -/
theorem historicalSeriesKey_eq_iff {js : Js} (h : NumberTexts js) (a b : HistoricalRow) :
    historicalSeriesKey js a = historicalSeriesKey js b ↔
      a.kind = b.kind ∧ a.body.level = b.body.level ∧ a.dimensions = b.dimensions ∧
        pieces '\x00' (clientFields a) = pieces '\x00' (clientFields b) := by
  rw [← String.toList_inj, toList_historicalSeriesKey, toList_historicalSeriesKey,
    intercalate_eq_iff_pieces _ (by simp) (by simp), key_pieces h, key_pieces h]
  constructor
  · intro hpieces
    obtain ⟨hkind, hrest⟩ := List.cons.inj hpieces
    obtain ⟨hfields, hlast⟩ := List.append_inj' hrest rfl
    obtain ⟨hlevel, hdims⟩ := List.cons.inj hlast
    exact ⟨Kind.text_injective (String.toList_inj.mp hkind),
      level_eq_of_text (String.toList_inj.mp hlevel),
      stableDimensions_injective h (String.toList_inj.mp (List.cons.inj hdims).1), hfields⟩
  · rintro ⟨hkind, hlevel, hdims, hfields⟩
    have htext : levelText a = levelText b := by
      unfold levelText
      rw [hlevel]
    rw [hkind, htext, hdims, hfields]

theorem os_eq_of_getD {a b : Option String} (ha : a ≠ some "") (hb : b ≠ some "")
    (h : a.getD "" = b.getD "") : a = b := by
  cases a with
  | none =>
      cases b with
      | none => rfl
      | some t => exact absurd (congrArg some h.symm) hb
  | some s =>
      cases b with
      | none => exact absurd (congrArg some h) ha
      | some t => exact congrArg some h

/-- The history key tells two rows apart by their series exactly when they are not
cut apart at `U+0000`. -/
theorem historicalSeriesKey_identifies_iff (js : Js) (hnumbers : NumberTexts js)
    {a b : HistoricalRow} (ha : Normalized js a) (hb : Normalized js b) :
    (historicalSeriesKey js a = historicalSeriesKey js b ↔ SameSeries a b) ↔ ¬ CutApart a b := by
  rw [historicalSeriesKey_eq_iff hnumbers, ha.dimensions_eq_iff hb]
  constructor
  · intro hidentifies hcut
    have hsame := hidentifies.mp ⟨hcut.kind, hcut.level, hcut.dimensions, hcut.pieces⟩
    apply hcut.apart
    unfold clientFields
    rw [hsame.role, hsame.environment, hsame.appVersion, hsame.os, hsame.name]
  · intro hcut
    constructor
    · rintro ⟨hkind, hlevel, hdims, hpieces⟩
      have hcounts : (clientFields a).map (List.count '\x00') =
          (clientFields b).map (List.count '\x00') := by
        by_contra hapart
        exact hcut ⟨hkind, hlevel, hdims, hpieces, hapart⟩
      have hfields := eq_of_pieces _ hpieces hcounts
      simp only [clientFields, List.cons.injEq, String.toList_inj, and_true] at hfields
      obtain ⟨hrole, henvironment, hversion, hos, hname⟩ := hfields
      exact ⟨hkind, hrole, henvironment, hversion, os_eq_of_getD ha.os_ne hb.os_ne hos, hname,
        hlevel, hdims⟩
    · intro hsame
      refine ⟨hsame.kind, hsame.level, hsame.dimensions, ?_⟩
      unfold clientFields
      rw [hsame.role, hsame.environment, hsame.appVersion, hsame.os, hsame.name]

/-- A row whose fields are free of `U+0000` is not cut apart from any other. -/
theorem not_cutApart_of_free {a b : HistoricalRow} (h : ∀ field ∈ clientFields a, '\x00' ∉ field) :
    ¬ CutApart a b := by
  intro hcut
  have hlength := congrArg List.length hcut.pieces
  rw [length_pieces, length_pieces] at hlength
  have hzero : (clientFields a).map (List.count '\x00') = [0, 0, 0, 0, 0] := by
    simp only [clientFields, List.forall_mem_cons, List.not_mem_nil, IsEmpty.forall_iff,
      implies_true, and_true] at h
    obtain ⟨hrole, henvironment, hversion, hos, hname⟩ := h
    simp [clientFields, List.count_eq_zero.mpr, *]
  apply hcut.apart
  rw [hzero] at hlength ⊢
  simp only [clientFields, List.map_cons, List.map_nil, List.sum_cons, List.sum_nil,
    List.length_cons, List.length_nil] at hlength ⊢
  have hall : ∀ m n p q r : ℕ, m + (n + (p + (q + (r + 0)))) = 0 → [0, 0, 0, 0, 0] = [m, n, p, q, r] := by
    intro m n p q r hsum
    simp only [List.cons.injEq, and_true]
    omega
  apply hall
  omega

/-- A page view counted once. -/
def viewed (environment appVersion : String) (os : Option String) : HistoricalRow :=
  ⟨"views", "web", environment, appVersion, some [("count", .num 1), ("page", .str "home")], os,
    .counter 1⟩

theorem normalized_viewed {environment appVersion : String} {os : Option String}
    (h : normalizeHistoricalRow Js.plain (viewed environment appVersion os) "row" =
      .ok (viewed environment appVersion os)) : Normalized Js.plain (viewed environment appVersion os) := by
  refine ⟨viewed environment appVersion os, "row", ?_, h⟩
  intro fields hfields
  rw [← Option.some.inj hfields]
  decide

theorem historicalSeriesKey_identifies_iff_viewed :
    historicalSeriesKey Js.plain (viewed "prod" "v1" none) =
        historicalSeriesKey Js.plain (viewed "prod" "v1" (some "ios")) ↔
      SameSeries (viewed "prod" "v1" none) (viewed "prod" "v1" (some "ios")) := by
  apply (historicalSeriesKey_identifies_iff Js.plain numberTexts_plain
    (normalized_viewed (by decide +kernel)) (normalized_viewed (by decide +kernel))).mpr
  apply not_cutApart_of_free
  decide

/-- One key for two environments. -/
theorem historicalSeriesKey_collides :
    Normalized Js.plain (viewed "prod" "v1\x00v2" none) ∧
      Normalized Js.plain (viewed "prod\x00v1" "v2" none) ∧
      historicalSeriesKey Js.plain (viewed "prod" "v1\x00v2" none) =
        historicalSeriesKey Js.plain (viewed "prod\x00v1" "v2" none) ∧
      ¬ SameSeries (viewed "prod" "v1\x00v2" none) (viewed "prod\x00v1" "v2" none) := by
  refine ⟨normalized_viewed (by decide +kernel), normalized_viewed (by decide +kernel), ?_, ?_⟩
  · decide +kernel
  · intro hsame
    exact absurd hsame.environment (by decide)

/-! ## Sets of dimensions -/

section Lines

variable {V : Type}

instance : Std.Total fun a b : String × V => utf16Le a.1 b.1 :=
  ⟨fun a b => total_of utf16Le a.1 b.1⟩

instance : IsTrans (String × V) fun a b => utf16Le a.1 b.1 :=
  ⟨fun _ _ _ hab hbc => trans_of utf16Le hab hbc⟩

def sortedByKey (fields : List (String × V)) : List (String × V) :=
  fields.insertionSort fun a b => utf16Le a.1 b.1

theorem sortedByKey_eq_iff {xs ys : List (String × V)} (hx : (xs.map Prod.fst).Nodup)
    (hy : (ys.map Prod.fst).Nodup) :
    sortedByKey xs = sortedByKey ys ↔ ∀ key, xs.lookup key = ys.lookup key :=
  sort_eq_iff_lookup _ (fun _ _ hab hba => antisymm_of utf16Le hab hba) hx hy

theorem map_sortedByKey {W : Type} (f : V → W) (fields : List (String × V)) :
    (sortedByKey fields).map (fun field => (field.1, f field.2)) =
      sortedByKey (fields.map fun field => (field.1, f field.2)) :=
  List.map_insertionSort _ _ _ _ (fun _ _ _ _ => Iff.rfl)

variable (text : V → String)

/-- `key + '=' + String(value)`. -/
def line (field : String × V) : List Char := field.1.toList ++ '=' :: (text field.2).toList

def lines (fields : List (String × V)) : List (List Char) := (sortedByKey fields).map (line text)

inductive ValueType where
  | string | number | boolean
deriving DecidableEq, Repr

variable (type : V → ValueType)

/-- How the lines of a set are cut: the newlines in each, the length of its key, its type. -/
def shape (fields : List (String × V)) : List (ℕ × ℕ × ValueType) :=
  (sortedByKey fields).map fun field =>
    ((line text field).count '\n', field.1.toList.length, type field.2)

/-- Sets that print the same lines from fields of different shapes. -/
structure LinesApart (a b : List (String × V)) : Prop where
  pieces : pieces '\n' (lines text a) = pieces '\n' (lines text b)
  apart : shape text type a ≠ shape text type b

theorem eq_of_lines_shape (hvalue : ∀ v w, text v = text w → type v = type w → v = w)
    {xs ys : List (String × V)} (hlines : xs.map (line text) = ys.map (line text))
    (hshape : xs.map (fun field => (field.1.toList.length, type field.2)) =
      ys.map fun field => (field.1.toList.length, type field.2)) : xs = ys := by
  induction xs generalizing ys with
  | nil =>
      cases ys with
      | nil => rfl
      | cons y ys => simp at hlines
  | cons x xs ih =>
      cases ys with
      | nil => simp at hlines
      | cons y ys =>
          simp only [List.map_cons, List.cons.injEq, Prod.mk.injEq] at hlines hshape
          obtain ⟨hline, hrest⟩ := hlines
          obtain ⟨⟨hlength, htype⟩, hshapes⟩ := hshape
          obtain ⟨hkey, hvalues⟩ := List.append_inj hline hlength
          have htext : text x.2 = text y.2 := String.toList_inj.mp (List.cons.inj hvalues).2
          have hsame : x = y := Prod.ext (String.toList_inj.mp hkey) (hvalue _ _ htext htype)
          rw [hsame, ih hrest hshapes]

theorem lines_identify_iff (hvalue : ∀ v w, text v = text w → type v = type w → v = w)
    {a b : List (String × V)} (ha : (a.map Prod.fst).Nodup) (hb : (b.map Prod.fst).Nodup) :
    (pieces '\n' (lines text a) = pieces '\n' (lines text b) ↔
      ∀ key, a.lookup key = b.lookup key) ↔ ¬ LinesApart text type a b := by
  rw [← sortedByKey_eq_iff ha hb]
  constructor
  · intro hidentifies hapart
    apply hapart.apart
    unfold shape
    rw [hidentifies.mp hapart.pieces]
  · intro hapart
    constructor
    · intro hpieces
      have hshape : shape text type a = shape text type b := by
        by_contra hne
        exact hapart ⟨hpieces, hne⟩
      have hcounts : (lines text a).map (List.count '\n') = (lines text b).map (List.count '\n') := by
        have hfirst := congrArg (List.map Prod.fst) hshape
        simpa [shape, lines, List.map_map, Function.comp_def] using hfirst
      have hlines := eq_of_pieces _ hpieces hcounts
      apply eq_of_lines_shape text type hvalue hlines
      have hrest := congrArg (List.map Prod.snd) hshape
      simpa [shape, List.map_map, Function.comp_def] using hrest
    · intro hsame
      unfold lines
      rw [hsame]

theorem takeWhile_line {field : String × V} (h : '=' ∉ field.1.toList) :
    (line text field).takeWhile (fun c => decide (c ≠ '=')) = field.1.toList := by
  unfold line
  rw [List.takeWhile_append_of_pos]
  · simp
  · intro c hc
    rw [decide_eq_true_iff]
    intro heq
    rw [heq] at hc
    exact h hc

/-- Equal lines of keys without an equals sign have equal shapes, type by type. -/
theorem map_shape_eq {xs ys : List (String × V)} (hx : ∀ x ∈ xs, '=' ∉ x.1.toList)
    (hy : ∀ y ∈ ys, '=' ∉ y.1.toList)
    (htypes : ∀ x ∈ xs, ∀ y ∈ ys, x.1 = y.1 → type x.2 = type y.2)
    (h : xs.map (line text) = ys.map (line text)) :
    xs.map (fun field => ((line text field).count '\n', field.1.toList.length, type field.2)) =
      ys.map fun field => ((line text field).count '\n', field.1.toList.length, type field.2) := by
  induction xs generalizing ys with
  | nil =>
      cases ys with
      | nil => rfl
      | cons y ys => simp at h
  | cons x xs ih =>
      cases ys with
      | nil => simp at h
      | cons y ys =>
          obtain ⟨hline, hrest⟩ := List.cons.inj h
          have hkeys := congrArg (List.takeWhile fun c => decide (c ≠ '=')) hline
          rw [takeWhile_line text (hx x List.mem_cons_self),
            takeWhile_line text (hy y List.mem_cons_self)] at hkeys
          have hkey : x.1 = y.1 := String.toList_inj.mp hkeys
          have htype := htypes x List.mem_cons_self y List.mem_cons_self hkey
          have htail := ih (fun z hz => hx z (List.mem_cons_of_mem x hz))
            (fun z hz => hy z (List.mem_cons_of_mem y hz))
            (fun z hz w hw => htypes z (List.mem_cons_of_mem x hz) w (List.mem_cons_of_mem y hw)) hrest
          rw [List.map_cons, List.map_cons, htail, hline, hkey, htype]

/-- Sets without a newline, without an equals sign in a key, and with one type for a
key that both have, are not apart. -/
theorem not_linesApart_of_plain {a b : List (String × V)}
    (hnewline : ∀ field ∈ a ++ b, '\n' ∉ line text field)
    (hequals : ∀ field ∈ a ++ b, '=' ∉ field.1.toList)
    (htypes : ∀ x ∈ a, ∀ y ∈ b, x.1 = y.1 → type x.2 = type y.2) : ¬ LinesApart text type a b := by
  have hmem : ∀ fields : List (String × V), ∀ field ∈ sortedByKey fields, field ∈ fields :=
    fun fields field => (List.mem_insertionSort _).mp
  have hfree : ∀ fields, (∀ field ∈ fields, field ∈ a ++ b) →
      pieces '\n' (lines text fields) = lines text fields := by
    intro fields hsub
    apply pieces_of_free
    intro printed hprinted
    obtain ⟨field, hfield, rfl⟩ := List.mem_map.mp hprinted
    exact hnewline field (hsub field (hmem fields field hfield))
  intro hapart
  have hlines := hapart.pieces
  rw [hfree a fun field => List.mem_append_left b, hfree b fun field => List.mem_append_right a]
    at hlines
  apply hapart.apart
  apply map_shape_eq text type _ _ _ hlines
  · exact fun x hx => hequals x (List.mem_append_left b (hmem a x hx))
  · exact fun y hy => hequals y (List.mem_append_right a (hmem b y hy))
  · exact fun x hx y hy => htypes x (hmem a x hx) y (hmem b y hy)

end Lines

/-! ## The live view -/

def scalarType : Scalar → ValueType
  | .str _ => .string
  | .num _ => .number
  | .bool _ => .boolean

theorem boolText_injective {a b : Bool}
    (h : (if a then "true" else "false") = if b then "true" else "false") : a = b := by
  revert a b
  decide

theorem scalar_eq_of_text {js : Js} (h : NumberTexts js) (v w : Scalar)
    (htext : FrameAggregator.scalarText js v = FrameAggregator.scalarText js w)
    (htype : scalarType v = scalarType w) : v = w := by
  cases v <;> cases w <;> simp only [scalarType, reduceCtorEq] at htype
  · exact congrArg Scalar.str htext
  · exact congrArg Scalar.num (h.injective htext)
  · exact congrArg Scalar.bool (boolText_injective htext)

/-- Every line ends with a newline: after the last there is an empty piece. -/
theorem toList_dimKey_live (js : Js) (dims : Dimensions) :
    (FrameAggregator.dimKey js dims).toList =
      ['\n'].intercalate (lines (FrameAggregator.scalarText js) (dims.getD []) ++ [[]]) := by
  have hjoined : ∀ texts : List (List Char),
      texts.flatMap (fun text => text ++ ['\n']) = ['\n'].intercalate (texts ++ [[]]) := by
    intro texts
    induction texts with
    | nil => rfl
    | cons text texts ih =>
        rw [List.flatMap_cons, ih, List.cons_append, List.intercalate_cons_of_ne_nil (by simp)]
  cases dims with
  | none => rfl
  | some fields =>
      rw [← hjoined]
      unfold FrameAggregator.dimKey lines
      rw [String.toList_join, List.flatMap_map, List.flatMap_map]
      congr 1
      funext field
      simp [line, String.toList_append]

theorem dimKey_live_eq_iff (js : Js) (a b : Dimensions) :
    FrameAggregator.dimKey js a = FrameAggregator.dimKey js b ↔
      pieces '\n' (lines (FrameAggregator.scalarText js) (a.getD [])) =
        pieces '\n' (lines (FrameAggregator.scalarText js) (b.getD [])) := by
  rw [← String.toList_inj, toList_dimKey_live, toList_dimKey_live,
    intercalate_eq_iff_pieces _ (by simp) (by simp), pieces_append, pieces_append,
    List.append_cancel_right_eq]

theorem seriesKey_eq_iff (js : Js) (role name : String) (a b : Dimensions) :
    FrameAggregator.seriesKey js role name a = FrameAggregator.seriesKey js role name b ↔
      FrameAggregator.dimKey js a = FrameAggregator.dimKey js b := by
  unfold FrameAggregator.seriesKey
  rw [String.append_right_inj]

/-! ## The SDK -/

section Sdk

open MetricsRegistry

def dimensionText (js : Js) : DimensionValue → String
  | .str s => s
  | .num n => n.text js
  | .bool b => if b then "true" else "false"

def dimensionType : DimensionValue → ValueType
  | .str _ => .string
  | .num _ => .number
  | .bool _ => .boolean

/-- What is printed for a number that is not finite has a capital. -/
theorem numberText_ne {js : Js} (h : NumberTexts js) (q : ℚ) {text : String}
    (hcapital : 'I' ∈ text.toList ∨ 'N' ∈ text.toList) : js.numberText q ≠ text := by
  intro heq
  rw [← heq] at hcapital
  rcases hcapital with hmem | hmem
  · rcases h.chars q _ hmem with hdigit | hother
    · exact absurd hdigit (by decide)
    · exact absurd hother (by decide)
  · rcases h.chars q _ hmem with hdigit | hother
    · exact absurd hdigit (by decide)
    · exact absurd hother (by decide)

theorem jsNumber_text_injective {js : Js} (h : NumberTexts js) :
    Function.Injective (JsNumber.text js) := by
  have hinfinite : ∀ q, js.numberText q ≠ "Infinity" := fun q => numberText_ne h q (by decide)
  have hnegative : ∀ q, js.numberText q ≠ "-Infinity" := fun q => numberText_ne h q (by decide)
  have hnan : ∀ q, js.numberText q ≠ "NaN" := fun q => numberText_ne h q (by decide)
  intro a b hab
  cases a with
  | finite p =>
      cases b with
      | finite q => exact congrArg JsNumber.finite (h.injective hab)
      | infinite negative => cases negative <;> simp_all [JsNumber.text]
      | nan => simp_all [JsNumber.text]
  | infinite m =>
      cases b with
      | finite q =>
          cases m
          · exact absurd hab.symm (hinfinite q)
          · exact absurd hab.symm (hnegative q)
      | infinite n => cases m <;> cases n <;> simp_all [JsNumber.text]
      | nan => cases m <;> simp_all [JsNumber.text]
  | nan =>
      cases b with
      | finite q => exact absurd hab.symm (hnan q)
      | infinite n => cases n <;> simp_all [JsNumber.text]
      | nan => rfl

theorem dimension_eq_of_text {js : Js} (h : NumberTexts js) (v w : DimensionValue)
    (htext : dimensionText js v = dimensionText js w) (htype : dimensionType v = dimensionType w) :
    v = w := by
  cases v <;> cases w <;> simp only [dimensionType, reduceCtorEq] at htype
  · exact congrArg DimensionValue.str htext
  · exact congrArg DimensionValue.num (jsNumber_text_injective h htext)
  · exact congrArg DimensionValue.bool (boolText_injective htext)

/-- What the loop over the keys accepted, with the texts it prints. -/
theorem checkValues_accepted {js : Js} {limits : RegistryLimits} {fields : List (String × JsValue)}
    {dims : Dims} (h : checkValues js limits fields = .ok (some dims)) :
    fields.map (fun field => (field.1, field.2.text js)) =
      dims.map fun dim => (dim.1, dimensionText js dim.2) := by
  induction fields generalizing dims with
  | nil =>
      rw [checkValues] at h
      rw [← Option.some.inj (Except.ok.inj h)]
      rfl
  | cons field fields ih =>
      obtain ⟨key, value⟩ := field
      rw [checkValues] at h
      cases hvalue : dimensionValue? value with
      | none => simp [hvalue] at h
      | some dim =>
          have htext : value.text js = dimensionText js dim := by
            cases value <;> simp [dimensionValue?] at hvalue <;> subst hvalue <;>
              simp [JsValue.text, dimensionText]
          simp only [hvalue] at h
          split_ifs at h with hlong
          · cases Except.ok.inj h
          · obtain ⟨rest, hrest, hdims⟩ := Lib.bind_eq_ok_iff.mp h
            have hsome : rest.map ((key, dim) :: ·) = some dims := Except.ok.inj hdims
            obtain ⟨accepted, haccepted, hcons⟩ := Option.map_eq_some_iff.mp hsome
            rw [haccepted] at hrest
            rw [← hcons, List.map_cons, List.map_cons, ih hrest, htext]

theorem toList_dimKey_obj (js : Js) (fields : List (String × JsValue)) :
    (MetricsRegistry.dimKey js (.obj fields)).toList =
      ['\n'].intercalate ((sortedByKey (fields.map fun field => (field.1, field.2.text js))).map
        (line id)) := by
  have hmap := map_sortedByKey (fun value : JsValue => value.text js) fields
  rw [← hmap]
  show ("\n".intercalate ((sortedByKey fields).map _)).toList = _
  rw [String.toList_intercalate, List.map_map, List.map_map]
  congr 1
  apply List.map_congr_left
  intro field _
  simp [line, String.toList_append]

theorem lines_eq_map_text {V : Type} (text : V → String) (fields : List (String × V)) :
    lines text fields = (sortedByKey (fields.map fun field => (field.1, text field.2))).map
      (line id) := by
  rw [← map_sortedByKey text fields, List.map_map]
  rfl

/-- Accepted dimensions are no object, or one whose properties print as those kept. -/
theorem validateDimensions_accepted {js : Js} {limits : RegistryLimits} {dims : JsValue}
    {checked : Option Dims} (h : validateDimensions js limits dims = .ok (.ok checked)) :
    ((dims = .undefined ∨ dims = .null) ∧ checked = none) ∨
      ∃ fields, dims = .obj fields ∧ fields.map (fun field => (field.1, field.2.text js)) =
        (checked.getD []).map fun dim => (dim.1, dimensionText js dim.2) := by
  unfold validateDimensions at h
  split at h
  · exact Or.inl ⟨Or.inl rfl, (Checked.ok.inj (Except.ok.inj h)).symm⟩
  · exact Or.inl ⟨Or.inr rfl, (Checked.ok.inj (Except.ok.inj h)).symm⟩
  · rw [← Checked.ok.inj (Except.ok.inj h)]
    exact Or.inr ⟨[], rfl, rfl⟩
  · rename_i fields _
    split_ifs at h with hmany
    · cases Except.ok.inj h
    · obtain ⟨values, hvalues, hchecked⟩ := Lib.bind_eq_ok_iff.mp h
      cases values with
      | none => cases Except.ok.inj hchecked
      | some kept =>
          rw [← Checked.ok.inj (Except.ok.inj hchecked)]
          exact Or.inr ⟨fields, rfl, checkValues_accepted hvalues⟩
  · cases h

/-- The key of accepted dimensions is the lines of those the series keeps. -/
theorem toList_dimKey_sdk {js : Js} {limits : RegistryLimits} {dims : JsValue}
    {checked : Option Dims} (h : validateDimensions js limits dims = .ok (.ok checked)) :
    (MetricsRegistry.dimKey js dims).toList =
      ['\n'].intercalate (lines (dimensionText js) (checked.getD [])) := by
  rcases validateDimensions_accepted h with ⟨hnone, rfl⟩ | ⟨fields, rfl, htexts⟩
  · rcases hnone with rfl | rfl <;> rfl
  · rw [toList_dimKey_obj, htexts, lines_eq_map_text]

theorem lines_ne_nil {V : Type} (text : V → String) {fields : List (String × V)} :
    ∀ printed ∈ lines text fields, printed ≠ [] := by
  intro printed hprinted
  obtain ⟨field, -, rfl⟩ := List.mem_map.mp hprinted
  simp [line]

theorem dimKey_sdk_eq_iff {js : Js} {limits : RegistryLimits} {a b : JsValue}
    {checkedA checkedB : Option Dims}
    (ha : validateDimensions js limits a = .ok (.ok checkedA))
    (hb : validateDimensions js limits b = .ok (.ok checkedB)) :
    MetricsRegistry.dimKey js a = MetricsRegistry.dimKey js b ↔
      pieces '\n' (lines (dimensionText js) (checkedA.getD [])) =
        pieces '\n' (lines (dimensionText js) (checkedB.getD [])) := by
  rw [← String.toList_inj, toList_dimKey_sdk ha, toList_dimKey_sdk hb]
  have hleft := @lines_ne_nil _ (dimensionText js) (checkedA.getD [])
  have hright := @lines_ne_nil _ (dimensionText js) (checkedB.getD [])
  cases hx : lines (dimensionText js) (checkedA.getD []) with
  | nil =>
      cases hy : lines (dimensionText js) (checkedB.getD []) with
      | nil => simp
      | cons y ys =>
          rw [hy, List.forall_mem_cons] at hright
          constructor
          · intro h
            exact absurd h.symm (intercalate_ne_nil '\n' hright.1 ys)
          · intro h
            simp at h
  | cons x xs =>
      cases hy : lines (dimensionText js) (checkedB.getD []) with
      | nil =>
          rw [hx, List.forall_mem_cons] at hleft
          constructor
          · intro h
            exact absurd h (intercalate_ne_nil '\n' hleft.1 xs)
          · intro h
            simp at h
      | cons y ys => exact intercalate_eq_iff_pieces '\n' (by simp) (by simp)

/-- An application's object has no key twice. -/
def ObjectProperties (dims : JsValue) : Prop :=
  ∀ fields, dims = .obj fields → (fields.map Prod.fst).Nodup

theorem checked_nodup {js : Js} {limits : RegistryLimits} {dims : JsValue} {checked : Option Dims}
    (hdims : ObjectProperties dims) (h : validateDimensions js limits dims = .ok (.ok checked)) :
    ((checked.getD []).map Prod.fst).Nodup := by
  rcases validateDimensions_accepted h with ⟨-, rfl⟩ | ⟨fields, rfl, htexts⟩
  · exact List.nodup_nil
  · have hkeys := congrArg (List.map Prod.fst) htexts
    simp only [List.map_map, Function.comp_def] at hkeys
    rw [← hkeys]
    exact hdims fields rfl

/-- The SDK's key and the server's tell two sets of dimensions apart exactly when
they are not the same lines of different shapes. -/
theorem dimKey_identifies_iff (js : Js) (hnumbers : NumberTexts js) :
    (∀ limits a b checkedA checkedB, ObjectProperties a → ObjectProperties b →
      validateDimensions js limits a = .ok (.ok checkedA) →
      validateDimensions js limits b = .ok (.ok checkedB) →
      ((MetricsRegistry.dimKey js a = MetricsRegistry.dimKey js b ↔
          ∀ key, (checkedA.getD []).lookup key = (checkedB.getD []).lookup key) ↔
        ¬ LinesApart (dimensionText js) dimensionType (checkedA.getD []) (checkedB.getD []))) ∧
    ∀ role name a b, ObjectKeys a → ObjectKeys b →
      ((FrameAggregator.seriesKey js role name a = FrameAggregator.seriesKey js role name b ↔
          ∀ key, (a.getD []).lookup key = (b.getD []).lookup key) ↔
        ¬ LinesApart (FrameAggregator.scalarText js) scalarType (a.getD []) (b.getD [])) := by
  constructor
  · intro limits a b checkedA checkedB hkeysA hkeysB ha hb
    rw [dimKey_sdk_eq_iff ha hb]
    exact lines_identify_iff _ _ (dimension_eq_of_text hnumbers) (checked_nodup hkeysA ha)
      (checked_nodup hkeysB hb)
  · intro role name a b ha hb
    have hnodup : ∀ dims, ObjectKeys dims → ((dims.getD []).map Prod.fst).Nodup := by
      intro dims hdims
      cases dims with
      | none => exact List.nodup_nil
      | some fields => exact hdims fields rfl
    rw [seriesKey_eq_iff, dimKey_live_eq_iff]
    exact lines_identify_iff _ _ (scalar_eq_of_text hnumbers) (hnodup a ha) (hnodup b hb)

def pageLimits : RegistryLimits := ⟨100, 8, 64⟩

theorem dimKey_identifies_iff_pages :
    (MetricsRegistry.dimKey Js.plain (.obj [("page", .str "home")]) =
        MetricsRegistry.dimKey Js.plain (.obj [("page", .str "cart")]) ↔
      ∀ key, [("page", DimensionValue.str "home")].lookup key =
        [("page", DimensionValue.str "cart")].lookup key) ∧
    (FrameAggregator.seriesKey Js.plain "web" "views" (some [("page", .str "home")]) =
        FrameAggregator.seriesKey Js.plain "web" "views" (some [("page", .str "cart")]) ↔
      ∀ key, [("page", Scalar.str "home")].lookup key = [("page", Scalar.str "cart")].lookup key) := by
  have hidentifies := dimKey_identifies_iff Js.plain numberTexts_plain
  have hsdk := hidentifies.1 pageLimits (.obj [("page", .str "home")]) (.obj [("page", .str "cart")])
    (some [("page", .str "home")]) (some [("page", .str "cart")])
    (by intro fields hfields; cases hfields; decide)
    (by intro fields hfields; cases hfields; decide) rfl rfl
  have hlive := hidentifies.2 "web" "views" (some [("page", .str "home")])
    (some [("page", .str "cart")]) (by intro fields hfields; cases hfields; decide)
    (by intro fields hfields; cases hfields; decide)
  constructor
  · apply hsdk.mpr
    exact not_linesApart_of_plain _ _ (by decide) (by decide) (by decide)
  · apply hlive.mpr
    exact not_linesApart_of_plain _ _ (by decide) (by decide) (by decide)

/-- A number and its text have one key, and so do two fields and one that holds a newline. -/
theorem dimKey_collides :
    (validateDimensions Js.plain pageLimits (.obj [("code", .num (.finite 1))]) =
        .ok (.ok (some [("code", .num (.finite 1))])) ∧
      validateDimensions Js.plain pageLimits (.obj [("code", .str "1")]) =
        .ok (.ok (some [("code", .str "1")])) ∧
      ¬ (MetricsRegistry.dimKey Js.plain (.obj [("code", .num (.finite 1))]) =
          MetricsRegistry.dimKey Js.plain (.obj [("code", .str "1")]) ↔
        ∀ key, [("code", DimensionValue.num (.finite 1))].lookup key =
          [("code", DimensionValue.str "1")].lookup key)) ∧
    ¬ (FrameAggregator.seriesKey Js.plain "web" "views" (some [("a", .str "x\nb=y")]) =
        FrameAggregator.seriesKey Js.plain "web" "views"
          (some [("a", .str "x"), ("b", .str "y")]) ↔
      ∀ key, [("a", Scalar.str "x\nb=y")].lookup key =
        [("a", Scalar.str "x"), ("b", Scalar.str "y")].lookup key) := by
  refine ⟨⟨rfl, rfl, ?_⟩, ?_⟩
  · intro hidentifies
    have hsame := hidentifies.mp (by decide +kernel) "code"
    exact absurd hsame (by decide)
  · intro hidentifies
    have hsame := hidentifies.mp (by decide +kernel) "a"
    exact absurd hsame (by decide)

end Sdk

end Wardx.SeriesIdentity
