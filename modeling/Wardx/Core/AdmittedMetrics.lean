import Wardx.Core.MetricsRegistry
import Wardx.Ingest.ValidateMetrics

/-!
# What the SDK admits and the server admits

Both sides check dimensions, each in its own words. The SDK takes empty keys and
numbers that are not finite, which the server refuses, and it checks the
attributes of an exemplar by the limits of dimensions, the server by those of
attributes. Where a run of calls keeps away from these and from sums that
overflow, the server admits every row of its snapshots.

`Rows` is the invariant of the run: what is said of each series makes its row
pass.
-/
namespace Wardx.MetricsRegistry

open Lib Json Control HyperLogLog ValidateMetrics

/-! ## Series of a map -/

section
variable {S : Type}

/-- Every series of the map. -/
def AllSeries (P : S → Prop) (map : SeriesMap S) : Prop := ∀ s ∈ seriesOf map, P s

/-- The series of a handle. -/
def find (map : SeriesMap S) (handle : Handle) : Option S :=
  (map.get handle.1).bind fun byKey => byKey.get handle.2

theorem allSeries_empty (P : S → Prop) : AllSeries P Table.empty := by
  intro s hs
  cases hs

theorem mem_seriesOf {map : SeriesMap S} {name key : String} {byKey : Table String S} {s : S}
    (hname : map.get name = some byKey) (hkey : byKey.get key = some s) : s ∈ seriesOf map := by
  have hbyKey := (map.get_eq_some_iff name byKey).mp hname
  have hs := (byKey.get_eq_some_iff key s).mp hkey
  exact List.mem_flatMap.mpr ⟨byKey, List.mem_map_of_mem hbyKey, List.mem_map_of_mem hs⟩

theorem AllSeries.put {P : S → Prop} {map : SeriesMap S} (h : AllSeries P map) (name : String)
    {byKey : Table String S} (hbyKey : ∀ s ∈ byKey.values, P s) : AllSeries P (map.put name byKey) := by
  intro s hs
  obtain ⟨held, hheld, hmem⟩ := List.mem_flatMap.mp hs
  rcases Table.mem_values_put hheld with hnew | hold
  · rw [hnew] at hmem
    exact hbyKey s hmem
  · exact h s (List.mem_flatMap.mpr ⟨held, hold, hmem⟩)

theorem AllSeries.byKey {P : S → Prop} {map : SeriesMap S} (h : AllSeries P map) (name : String) :
    ∀ s ∈ ((map.get name).getD Table.empty).values, P s := by
  intro s hs
  cases hname : map.get name with
  | none =>
      rw [hname] at hs
      cases hs
  | some byKey =>
      rw [hname] at hs
      have hmem := (map.get_eq_some_iff name byKey).mp hname
      exact h s (List.mem_flatMap.mpr ⟨byKey, List.mem_map_of_mem hmem, hs⟩)

theorem AllSeries.register {P : S → Prop} {map : SeriesMap S} (h : AllSeries P map)
    (limits : RegistryLimits) (kindPrefix name key : String) {make : Option Dims → S}
    {checked : Checked} (rejected : List String) (hmake : ∀ dims, checked = .ok dims → P (make dims)) :
    AllSeries P (register limits kindPrefix name key make checked map rejected).map := by
  have hbyKey := h.byKey name
  unfold MetricsRegistry.register
  dsimp only
  split
  · exact h
  · split
    · exact h
    · rename_i dims
      split
      · exact h
      · split
        · exact h.put name hbyKey
        · apply h.put name
          intro s hs
          rcases Table.mem_values_put hs with rfl | hold
          · exact hmake dims rfl
          · exact hbyKey s hold

theorem AllSeries.record {P : S → Prop} {map after : SeriesMap S} (h : AllSeries P map)
    {handle : Handle} {f : S → Except String S}
    (hf : ∀ s next, find map handle = some s → P s → f s = .ok next → P next)
    (hrecord : record handle f map = .ok after) : AllSeries P after := by
  unfold MetricsRegistry.record at hrecord
  split at hrecord
  · cases hrecord
    exact h
  · rename_i byKey hname
    split at hrecord
    · cases hrecord
      exact h
    · rename_i s hkey
      rw [bind_eq_ok_iff] at hrecord
      obtain ⟨next, hnext, hafter⟩ := hrecord
      cases hafter
      have hfind : find map handle = some s := by
        unfold find
        rw [hname, Option.bind_some, hkey]
      have hbyKey := h.byKey handle.1
      rw [hname] at hbyKey
      apply h.put handle.1
      intro t ht
      rcases Table.mem_values_put ht with rfl | hold
      · exact hf s _ hfind (h s (mem_seriesOf hname hkey)) hnext
      · exact hbyKey t hold

theorem AllSeries.resetLive {P : S → Prop} {map : SeriesMap S} (h : AllSeries P map)
    (live : S → Bool) (reset : S → S) (hreset : ∀ s, P s → P (reset s)) :
    AllSeries P (resetLive live reset map) := by
  intro s hs
  obtain ⟨held, hheld, hs⟩ := List.mem_flatMap.mp hs
  obtain ⟨entry, hentry, rfl⟩ := List.mem_map.mp hheld
  obtain ⟨named, hnamed, rfl⟩ := List.mem_map.mp hentry
  obtain ⟨keyed, hkeyed, rfl⟩ := List.mem_map.mp hs
  obtain ⟨old, hold, rfl⟩ := List.mem_map.mp hkeyed
  have hbefore : P old.2 :=
    h old.2 (List.mem_flatMap.mpr ⟨named.2, List.mem_map_of_mem hnamed, List.mem_map_of_mem hold⟩)
  show P (if live old.2 then reset old.2 else old.2)
  split_ifs
  · exact hreset old.2 hbefore
  · exact hbefore

theorem AllSeries.rows {P : S → Prop} {map : SeriesMap S} (h : AllSeries P map) {live : S → Bool}
    {row : S → Json} {Q : Json → Prop} (hrow : ∀ s, P s → live s = true → Q (row s)) :
    ∀ json ∈ rowsOf live row map, Q json := by
  intro json hjson
  obtain ⟨s, hs, rfl⟩ := List.mem_map.mp hjson
  obtain ⟨hmem, hlive⟩ := List.mem_filter.mp hs
  exact hrow s (h s hmem) hlive

end

/-! ## Dimensions that pass -/

/-- The own properties of an argument. -/
def JsValue.fields : JsValue → List (String × JsValue)
  | .obj fields => fields
  | _ => []

def JsValue.isFinite : JsValue → Bool
  | .num n => n.isFinite
  | _ => true

/-- The value's length when it is a text. -/
def JsValue.textLength : JsValue → ℕ
  | .str s => utf16Length s
  | _ => 0

section
variable {js : Js} {limits : RegistryLimits} {server : IngestLimits}

theorem checkValues_spec (fields : List (String × JsValue)) {dims : Dims}
    (h : checkValues js limits fields = .ok (some dims)) :
    dims.length = fields.length ∧ ∀ dim ∈ dims, ∃ value, (dim.1, value) ∈ fields ∧
      dimensionValue? value = some dim.2 ∧
      utf16Length (value.text js) ≤ limits.maxDimensionValueLength := by
  induction fields generalizing dims with
  | nil =>
      cases h
      exact ⟨rfl, fun dim hdim => nomatch hdim⟩
  | cons field fields ih =>
      obtain ⟨key, value⟩ := field
      unfold checkValues at h
      split at h
      · cases h
      · rename_i dim hdim
        split_ifs at h with hlong
        · cases h
        · rw [bind_eq_ok_iff] at h
          obtain ⟨rest, hrest, hdims⟩ := h
          cases rest with
          | none => cases hdims
          | some rest =>
              cases hdims
              obtain ⟨hlength, hall⟩ := ih hrest
              refine ⟨congrArg Nat.succ hlength, ?_⟩
              intro other hother
              rcases List.mem_cons.mp hother with rfl | hmore
              · exact ⟨value, List.mem_cons_self, hdim, not_lt.mp hlong⟩
              · obtain ⟨v, hv, hrest⟩ := hall other hmore
                exact ⟨v, List.mem_cons_of_mem _ hv, hrest⟩

/-- What the SDK checked: the dimensions are the argument's properties, few and
short enough. -/
theorem validateDimensions_spec {value : JsValue} {dims : Option Dims}
    (h : validateDimensions js limits value = .ok (.ok dims)) :
    ∀ d, dims = some d → d.length = value.fields.length ∧
      d.length ≤ limits.maxDimensionKeys ∧ ∀ dim ∈ d, ∃ v,
      (dim.1, v) ∈ value.fields ∧ dimensionValue? v = some dim.2 ∧
      utf16Length (v.text js) ≤ limits.maxDimensionValueLength := by
  intro d hd
  subst hd
  unfold validateDimensions at h
  split at h
  · cases h
  · cases h
  · cases h
  · rename_i fields _
    split_ifs at h with hmany
    · cases h
    · rw [bind_eq_ok_iff] at h
      obtain ⟨checked, hchecked, h⟩ := h
      cases checked with
      | none => cases h
      | some checked =>
          cases h
          obtain ⟨hlength, hall⟩ := checkValues_spec fields hchecked
          exact ⟨hlength, hlength ▸ not_lt.mp hmany, hall⟩
  · cases h

/-- The server admits a value of an allowed type that is finite. -/
theorem dimensionText_json {value : JsValue} {dim : DimensionValue}
    (h : dimensionValue? value = some dim) (hfinite : value.isFinite = true) :
    dimensionText js dim.json = some (value.text js) := by
  cases value with
  | str s =>
      cases h
      rw [JsValue.text]
      rfl
  | bool b =>
      cases h
      rw [JsValue.text]
      rfl
  | num n =>
      cases h
      cases n with
      | finite q =>
          rw [JsValue.text]
          rfl
      | infinite negative => cases hfinite
      | nan => cases hfinite
  | undefined => cases h
  | null => cases h
  | arr items => cases h
  | obj fields => cases h

/-- Every property has a name the server takes and a finite value. -/
def DimsSound (server : IngestLimits) (value : JsValue) : Prop :=
  ∀ field ∈ value.fields, field.1 ≠ "" ∧ utf8Length field.1 ≤ server.maxNameBytes ∧
    field.2.isFinite = true

theorem validateName_ok {name : String} (hne : name ≠ "")
    (hbytes : utf8Length name ≤ server.maxNameBytes) (label : String) :
    validateName server (some (.str name)) label = .ok () := by
  unfold validateName
  simp [text?, hne, hbytes, require, bind, Except.bind]

theorem validateDimensions_ok (hkeys : limits.maxDimensionKeys ≤ server.maxDimensionKeys)
    (hlength : limits.maxDimensionValueLength ≤ server.maxDimensionValueLength) {value : JsValue}
    {dims : Option Dims} (h : validateDimensions js limits value = .ok (.ok dims))
    (hsound : DimsSound server value) (label : String) :
    ValidateMetrics.validateDimensions js server (some (dimsJson dims)) label = .ok () := by
  have hspec := validateDimensions_spec h
  cases dims with
  | none => rfl
  | some dims =>
      obtain ⟨-, hcount, hall⟩ := hspec dims rfl
      unfold dimsJson ValidateMetrics.validateDimensions
      dsimp only
      rw [bind_eq_ok_iff]
      refine ⟨(), ?_, ?_⟩
      · rw [require_eq_ok_iff, List.length_map]
        exact decide_eq_true (hcount.trans hkeys)
      · rw [checkAll_eq_ok_iff]
        intro field hfield
        obtain ⟨dim, hdim, rfl⟩ := List.mem_map.mp hfield
        obtain ⟨v, hv, hvalue, hshort⟩ := hall dim hdim
        obtain ⟨hne, hbytes, hfinite⟩ := hsound (dim.1, v) hv
        unfold validateDimension
        rw [validateName_ok hne hbytes, dimensionText_json hvalue hfinite]
        show require _ _ = .ok ()
        rw [require_eq_ok_iff]
        exact decide_eq_true (hshort.trans hlength)

end

end Wardx.MetricsRegistry
