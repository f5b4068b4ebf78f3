import Wardx.Core.AdmittedMetrics

/-!
# The rows of a snapshot

What every series keeps over a run of calls, and that the server admits the row
of a series that keeps it. A histogram has its bounds in order, at most as many
values in its buckets as it counted, finite extremes once it counted any, and an
exemplar at its maximum.
-/
namespace Wardx.MetricsRegistry

open Lib Json Control HyperLogLog ValidateMetrics

/-! ## Rows that pass -/

section
variable {js : Js} {server : IngestLimits}

/-- The start of a row passes, whatever follows. -/
def NamedSound (js : Js) (server : IngestLimits) (name : String) (dims : Option Dims) : Prop :=
  ∀ (rest : List Json) (label : String),
    validateNamed js server (.str name :: dimsJson dims :: rest) label = .ok ()

theorem namedSound_of_checked {name : String} {dims : Option Dims} (hne : name ≠ "")
    (hbytes : utf8Length name ≤ server.maxNameBytes)
    (hdims : ∀ label, ValidateMetrics.validateDimensions js server (some (dimsJson dims)) label =
      .ok ()) : NamedSound js server name dims := by
  intro rest label
  unfold validateNamed
  rw [bind_eq_ok_iff]
  exact ⟨(), validateName_ok hne hbytes _, hdims _⟩

structure CounterSound (js : Js) (server : IngestLimits) (counter : Counter) : Prop where
  named : NamedSound js server counter.name counter.dims
  value : ∃ q, counter.value = .finite q

theorem CounterSound.row {counter : Counter} (h : CounterSound js server counter) (label : String) :
    validateCounter js server counter.row label = .ok () := by
  obtain ⟨q, hq⟩ := h.value
  unfold validateCounter Counter.row
  rw [hq]
  dsimp only [items]
  rw [bind_eq_ok_iff]
  refine ⟨(), rfl, ?_⟩
  rw [bind_eq_ok_iff]
  exact ⟨(), h.named _ label, rfl⟩

structure GaugeSound (js : Js) (server : IngestLimits) (earliest latest : ℚ) (gauge : Gauge) :
    Prop where
  named : NamedSound js server gauge.name gauge.dims
  timestamp : gauge.dirty = true → earliest ≤ gauge.timestamp ∧ gauge.timestamp ≤ latest

theorem GaugeSound.row {earliest latest : ℚ} {gauge : Gauge}
    (h : GaugeSound js server earliest latest gauge) (hdirty : gauge.dirty = true)
    (label : String) : validateGauge js server gauge.row label earliest latest = .ok () := by
  obtain ⟨hearliest, hlatest⟩ := h.timestamp hdirty
  unfold validateGauge Gauge.row
  dsimp only [items]
  rw [bind_eq_ok_iff]
  refine ⟨(), rfl, ?_⟩
  rw [bind_eq_ok_iff]
  refine ⟨(), h.named _ label, ?_⟩
  rw [bind_eq_ok_iff]
  refine ⟨(), rfl, ?_⟩
  show (do
    require (decide (earliest ≤ gauge.timestamp)) _
    require (decide (gauge.timestamp ≤ latest)) _) = Except.ok ()
  rw [bind_eq_ok_iff]
  refine ⟨(), ?_, ?_⟩
  · rw [require_eq_ok_iff]
    exact decide_eq_true hearliest
  · rw [require_eq_ok_iff]
    exact decide_eq_true hlatest

structure DistinctSound (js : Js) (server : IngestLimits) (distinct : Distinct) : Prop where
  named : NamedSound js server distinct.name distinct.dims

theorem DistinctSound.row {distinct : Distinct} (h : DistinctSound js server distinct)
    (label : String) : validateDistinct js server distinct.row label = .ok () := by
  unfold validateDistinct Distinct.row
  dsimp only [items]
  rw [bind_eq_ok_iff]
  refine ⟨(), rfl, ?_⟩
  rw [bind_eq_ok_iff]
  refine ⟨(), h.named _ label, ?_⟩
  simp only [List.getElem?_cons_succ, List.getElem?_cons_zero, Option.getD_some,
    decodeHllBody_body]

/-! ## Histograms -/

/-- The attributes of an exemplar pass. -/
def AttrsSound (server : IngestLimits) (attrs : Dims) : Prop :=
  ∀ label, validateAttrs server (some (dimsJson (some attrs))) label = .ok ()

/-- Before the first value a histogram is as new; then its extremes are finite. -/
structure HistogramSound (js : Js) (server : IngestLimits) (histogram : Histogram) : Prop where
  named : NamedSound js server histogram.name histogram.dims
  bounds : histogram.bounds.IsChain (· < ·)
  lengths : histogram.counts.length = histogram.bounds.length
  total : histogram.counts.sum ≤ histogram.count
  sum : ∃ q, histogram.sum = .finite q
  extremes : (histogram.count = 0 ∧ histogram.min = .infinite false ∧
      histogram.max = .infinite true) ∨
    ∃ low high, 0 < histogram.count ∧ histogram.min = .finite low ∧
      histogram.max = .finite high ∧ low ≤ high
  exemplar : ∀ exemplar, histogram.exemplar = some exemplar →
    exemplar.value = histogram.max ∧ AttrsSound server exemplar.attrs

/-- The loop over the buckets passes and adds the counts. -/
theorem validateBuckets_ok (label : String) (bounds : List ℚ) (counts : List ℕ)
    (hchain : bounds.IsChain (· < ·)) (hlength : counts.length = bounds.length) (i : ℕ)
    (previous : Option ℚ) (hprevious : ∀ before ∈ previous, ∀ bound ∈ bounds.head?, before < bound)
    (total : ℤ) :
    validateBuckets label (List.zipWith (fun bound (count : ℕ) => .arr [.num bound, .num count])
      bounds counts) i previous total = .ok (total + counts.sum) := by
  induction bounds generalizing counts i previous total with
  | nil =>
      have hnil := List.length_eq_zero_iff.mp hlength
      subst hnil
      simp [validateBuckets]
  | cons bound bounds ih =>
      cases counts with
      | nil => cases hlength
      | cons count counts =>
          have hrest := List.IsChain.tail hchain
          have hnext : ∀ before ∈ some bound, ∀ next ∈ bounds.head?, before < next := by
            intro before hbefore next hmem
            cases hbefore
            cases bounds with
            | nil => cases hmem
            | cons second bounds =>
                cases hmem
                exact (List.isChain_cons_cons.mp hchain).1
          have hall : (previous.all fun before => decide (before < bound)) = true := by
            cases previous with
            | none => rfl
            | some before => exact decide_eq_true (hprevious before rfl bound rfl)
          have hcount : wholeFrom 0 (some (.num (count : ℚ))) = some (count : ℤ) := by
            unfold wholeFrom number?
            simp
          rw [List.zipWith_cons_cons, validateBuckets]
          simp only [items, number?, List.length_cons, List.length_nil, List.getElem?_cons_zero,
            List.getElem?_cons_succ, hall, hcount, require, bind, Except.bind, if_true,
            decide_true]
          rw [ih counts hrest (Nat.succ.inj hlength) (i + 1) (some bound) hnext (total + count)]
          rw [List.sum_cons, Nat.cast_add, Int.add_assoc]

theorem wholeFrom_num {least n : ℕ} (h : least ≤ n) :
    wholeFrom least (some (.num (n : ℚ))) = some (n : ℤ) := by
  unfold wholeFrom number?
  simp [h]

theorem validateTotals_ok {histogram : Histogram} {sum low high : ℚ}
    (hsum : histogram.sum = .finite sum) (hcount : 0 < histogram.count)
    (hmin : histogram.min = .finite low) (hmax : histogram.max = .finite high) (hle : low ≤ high)
    (label : String) : validateTotals histogram.body label = .ok ((histogram.count : ℤ), high) := by
  have hgetCount : histogram.body.get? "count" = some (.num histogram.count) := rfl
  have hgetSum : histogram.body.get? "sum" = some histogram.sum.json := rfl
  have hgetMin : histogram.body.get? "min" = some histogram.min.json := rfl
  have hgetMax : histogram.body.get? "max" = some histogram.max.json := rfl
  have hwhole : wholeFrom 1 (some (.num (histogram.count : ℚ))) = some (histogram.count : ℤ) :=
    wholeFrom_num hcount
  unfold validateTotals
  rw [hgetCount, hgetSum, hgetMin, hgetMax, hwhole, hsum, hmin, hmax]
  simp [validateNumber, number?, JsNumber.json, require, bind, Except.bind, hle, pure, Except.pure]

theorem validateExemplar_ok {histogram : Histogram} {high : ℚ}
    (hmax : histogram.max = .finite high)
    (hexemplar : ∀ exemplar, histogram.exemplar = some exemplar →
      exemplar.value = histogram.max ∧ AttrsSound server exemplar.attrs) (label : String) :
    validateExemplar server (histogram.exemplar.map SdkExemplar.json) high label = .ok () := by
  cases hheld : histogram.exemplar with
  | none => rfl
  | some exemplar =>
      obtain ⟨hvalue, hattrs⟩ := hexemplar exemplar hheld
      have hgetValue : exemplar.json.get? "value" = some exemplar.value.json := rfl
      have hgetAttrs : exemplar.json.get? "attrs" = some (dimsJson (some exemplar.attrs)) := rfl
      rw [Option.map_some, validateExemplar, bind_eq_ok_iff]
      refine ⟨(), rfl, ?_⟩
      rw [bind_eq_ok_iff]
      refine ⟨(), rfl, ?_⟩
      rw [hgetValue, hgetAttrs, hvalue, hmax]
      have hequal : require (decide (high = high)) (label ++ ".value must equal max") = .ok () :=
        (require_eq_ok_iff _ _ _).mpr (decide_eq_true rfl)
      dsimp only [JsNumber.json, number?]
      rw [bind_eq_ok_iff]
      exact ⟨(), hequal, hattrs _⟩

theorem get?_body_exemplar (histogram : Histogram) :
    histogram.body.get? "exemplar" = histogram.exemplar.map SdkExemplar.json := by
  unfold Histogram.body
  cases histogram.exemplar <;> rfl

theorem checkKeys_body (histogram : Histogram) (label : String) :
    checkKeys ["count", "sum", "min", "max", "buckets", "exemplar"] label histogram.body = .ok () := by
  unfold Histogram.body
  cases histogram.exemplar <;> rfl

theorem HistogramSound.row {histogram : Histogram} (h : HistogramSound js server histogram)
    (hlive : histogram.live = true) (label : String) :
    validateHistogram js server histogram.row label = .ok () := by
  have hpositive : 0 < histogram.count := of_decide_eq_true hlive
  obtain ⟨sum, hsum⟩ := h.sum
  obtain ⟨hzero, -⟩ | ⟨low, high, -, hmin, hmax, hle⟩ := h.extremes
  · omega
  · have hbuckets : histogram.body.get? "buckets" = some (.arr (List.zipWith
        (fun bound (count : ℕ) => .arr [.num bound, .num count]) histogram.bounds
          histogram.counts)) := rfl
    have hobject : ∃ fields, histogram.body = .obj fields := ⟨_, rfl⟩
    have htotals := validateTotals_ok hsum hpositive hmin hmax hle (label ++ "[2]")
    have hloop := validateBuckets_ok (label ++ "[2]") histogram.bounds histogram.counts h.bounds
      h.lengths 0 none (fun before hbefore => nomatch hbefore) 0
    have hkeys := checkKeys_body histogram (label ++ "[2]")
    have hexemplar := validateExemplar_ok hmax h.exemplar (label ++ "[2]" ++ ".exemplar")
    rw [← get?_body_exemplar] at hexemplar
    unfold validateHistogram Histogram.row
    dsimp only [items]
    rw [bind_eq_ok_iff]
    refine ⟨(), rfl, ?_⟩
    rw [bind_eq_ok_iff]
    refine ⟨(), h.named _ label, ?_⟩
    show validateHistogramBody server (some histogram.body) (label ++ "[2]") = .ok ()
    generalize histogram.body = body at hbuckets hobject htotals hkeys hexemplar
    obtain ⟨fields, rfl⟩ := hobject
    unfold validateHistogramBody
    dsimp only
    rw [bind_eq_ok_iff]
    refine ⟨(), hkeys, ?_⟩
    rw [bind_eq_ok_iff]
    refine ⟨_, htotals, ?_⟩
    rw [hbuckets]
    dsimp only
    rw [bind_eq_ok_iff]
    refine ⟨_, hloop, ?_⟩
    rw [bind_eq_ok_iff]
    refine ⟨(), ?_, hexemplar⟩
    rw [require_eq_ok_iff]
    have htotal := h.total
    apply decide_eq_true
    omega

end

/-! ## Recording -/

/-- A sum of finite numbers that does not overflow. -/
def Fits : JsNumber → JsNumber → Prop
  | .finite a, .finite b => |a + b| < JsNumber.overflow
  | _, _ => True

instance : ∀ a b, Decidable (Fits a b)
  | .finite a, .finite b => inferInstanceAs (Decidable (|a + b| < JsNumber.overflow))
  | .finite _, .infinite _ => inferInstanceAs (Decidable True)
  | .finite _, .nan => inferInstanceAs (Decidable True)
  | .infinite _, _ => inferInstanceAs (Decidable True)
  | .nan, _ => inferInstanceAs (Decidable True)

/-- The server's limits of attributes let the attributes of an exemplar pass. -/
def AttrsFit (server : IngestLimits) (attrs : JsValue) : Prop :=
  attrs.fields.length ≤ server.maxAttributeKeys ∧ ∀ field ∈ attrs.fields, field.1 ≠ "" ∧
    utf8Length field.1 ≤ server.maxNameBytes ∧
    field.2.textLength ≤ server.maxAttributeValueLength

section
variable {js : Js} {server : IngestLimits} {nearest : ℚ → ℚ} {limits : RegistryLimits}

theorem finite_of_isFinite {n : JsNumber} (h : n.isFinite = true) : ∃ q, n = .finite q := by
  cases n with
  | finite q => exact ⟨q, rfl⟩
  | infinite negative => cases h
  | nan => cases h

theorem add_finite {a b : ℚ} (h : Fits (.finite a) (.finite b)) :
    ∃ q, JsNumber.add nearest (.finite a) (.finite b) = .finite q :=
  ⟨nearest (a + b), if_pos h⟩

theorem CounterSound.add {counter next : Counter} (h : CounterSound js server counter)
    {n : JsNumber} (hfits : Fits counter.value n) (hadd : counter.add nearest n = .ok next) :
    CounterSound js server next := by
  unfold Counter.add at hadd
  split_ifs at hadd with hfinite
  cases hadd
  obtain ⟨a, ha⟩ := h.value
  obtain ⟨b, rfl⟩ := finite_of_isFinite hfinite
  refine ⟨h.named, ?_⟩
  show ∃ q, JsNumber.add nearest counter.value (.finite b) = .finite q
  rw [ha] at hfits ⊢
  exact add_finite hfits

theorem GaugeSound.set {earliest latest now : ℚ} {gauge next : Gauge} {value : JsNumber}
    (h : GaugeSound js server earliest latest gauge) (hnow : earliest ≤ now ∧ now ≤ latest)
    (hset : gauge.set value now = .ok next) : GaugeSound js server earliest latest next := by
  unfold Gauge.set at hset
  split at hset
  · cases hset
    exact ⟨h.named, fun _ => hnow⟩
  · cases hset

theorem DistinctSound.add {distinct next : Distinct} {h64 : String → Fin (2 ^ 64)}
    {privacySalt identifier : String} (h : DistinctSound js server distinct)
    (hadd : distinct.add h64 privacySalt identifier = .ok next) : DistinctSound js server next := by
  unfold Distinct.add at hadd
  split_ifs at hadd
  cases hadd
  exact ⟨h.named⟩

theorem length_bump (value : JsNumber) (bounds : List ℚ) (counts : List ℕ) :
    (bump value bounds counts).length = counts.length := by
  induction bounds generalizing counts with
  | nil => rfl
  | cons bound bounds ih =>
      cases counts with
      | nil => rfl
      | cons count counts =>
          unfold bump
          split_ifs
          · rfl
          · exact congrArg Nat.succ (ih counts)

/-- A value falls into one bucket at most. -/
theorem sum_bump_le (value : JsNumber) (bounds : List ℚ) (counts : List ℕ) :
    (bump value bounds counts).sum ≤ counts.sum + 1 := by
  induction bounds generalizing counts with
  | nil => exact Nat.le_succ _
  | cons bound bounds ih =>
      cases counts with
      | nil => exact Nat.zero_le _
      | cons count counts =>
          unfold bump
          split_ifs
          · rw [List.sum_cons, List.sum_cons]
            omega
          · have hrest := ih counts
            rw [List.sum_cons, List.sum_cons]
            omega

theorem validateJsonFields_ok (fields : List (String × Json)) (label : String)
    (h : ∀ field ∈ fields, (∀ l, validateName server (some (.str field.1)) l = .ok ()) ∧
      ∀ l, validateJsonValue server field.2 l = .ok ()) :
    validateJsonFields server fields label = .ok () := by
  induction fields with
  | nil => rw [validateJsonFields]
  | cons field fields ih =>
      obtain ⟨key, value⟩ := field
      obtain ⟨hname, hvalue⟩ := h (key, value) List.mem_cons_self
      rw [validateJsonFields, bind_eq_ok_iff]
      refine ⟨(), hname _, ?_⟩
      rw [bind_eq_ok_iff]
      exact ⟨(), hvalue _, ih fun other hother => h other (List.mem_cons_of_mem _ hother)⟩

/-- A value of an allowed type that is short passes as an attribute; a number that
is not finite is sent as null. -/
theorem validateJsonValue_dimension {value : JsValue} {dim : DimensionValue}
    (h : dimensionValue? value = some dim)
    (hlength : value.textLength ≤ server.maxAttributeValueLength) (label : String) :
    validateJsonValue server dim.json label = .ok () := by
  cases value with
  | str s =>
      cases h
      show validateJsonValue server (.str s) label = .ok ()
      rw [validateJsonValue, require_eq_ok_iff]
      exact decide_eq_true hlength
  | bool b =>
      cases h
      show validateJsonValue server (.bool b) label = .ok ()
      rw [validateJsonValue]
  | num n =>
      cases h
      cases n with
      | finite q =>
          show validateJsonValue server (.num q) label = .ok ()
          rw [validateJsonValue]
      | infinite negative =>
          show validateJsonValue server .null label = .ok ()
          rw [validateJsonValue]
      | nan =>
          show validateJsonValue server .null label = .ok ()
          rw [validateJsonValue]
  | undefined => cases h
  | null => cases h
  | arr items => cases h
  | obj fields => cases h

theorem attrsSound_of_checked {attrs : JsValue} {dims : Dims}
    (h : validateDimensions js limits attrs = .ok (.ok (some dims)))
    (hattrs : AttrsFit server attrs) : AttrsSound server dims := by
  obtain ⟨hlength, -, hall⟩ := validateDimensions_spec h dims rfl
  intro label
  unfold dimsJson validateAttrs
  dsimp only
  rw [validateJsonValue, bind_eq_ok_iff]
  refine ⟨(), ?_, ?_⟩
  · rw [require_eq_ok_iff, List.length_map, hlength]
    exact decide_eq_true hattrs.1
  · apply validateJsonFields_ok
    intro field hfield
    obtain ⟨dim, hdim, rfl⟩ := List.mem_map.mp hfield
    obtain ⟨v, hv, hvalue, -⟩ := hall dim hdim
    obtain ⟨hne, hbytes, hshort⟩ := hattrs.2 (dim.1, v) hv
    exact ⟨validateName_ok hne hbytes, validateJsonValue_dimension hvalue hshort⟩

theorem exemplarFrom_sound {value : JsNumber} {attrs : JsValue} {exemplar : SdkExemplar}
    (hattrs : AttrsFit server attrs)
    (h : exemplarFrom js limits value attrs = .ok (some exemplar)) :
    exemplar.value = value ∧ AttrsSound server exemplar.attrs := by
  unfold exemplarFrom at h
  split_ifs at h
  · cases h
  · rw [bind_eq_ok_iff] at h
    obtain ⟨checked, hchecked, h⟩ := h
    split at h
    · cases h
      exact ⟨rfl, attrsSound_of_checked hchecked hattrs⟩
    · cases h

/-- With the first value both extremes are it; a later one moves at most one. -/
theorem extremes_after {histogram : Histogram} (h : HistogramSound js server histogram) (v : ℚ) :
    ∃ low high,
      (if (JsNumber.finite v).lt histogram.min then .finite v else histogram.min) =
        JsNumber.finite low ∧
      (if (JsNumber.finite v).ge histogram.max then .finite v else histogram.max) =
        JsNumber.finite high ∧ low ≤ high := by
  rcases h.extremes with ⟨-, hmin, hmax⟩ | ⟨low, high, -, hmin, hmax, hle⟩
  · rw [hmin, hmax]
    exact ⟨v, v, rfl, rfl, le_refl v⟩
  · rw [hmin, hmax]
    have hlt : (JsNumber.finite v).lt (.finite low) = decide (v < low) := rfl
    have hge : (JsNumber.finite v).ge (.finite high) = !decide (v < high) := rfl
    rw [hlt, hge]
    by_cases hlow : v < low
    · have hhigh : v < high := lt_of_lt_of_le hlow hle
      refine ⟨v, high, ?_, ?_, hhigh.le⟩
      · rw [if_pos (decide_eq_true hlow)]
      · simp [hhigh]
    · have hle' := not_lt.mp hlow
      by_cases hhigh : v < high
      · exact ⟨low, high, by simp [hlow], by simp [hhigh], hle⟩
      · exact ⟨low, v, by simp [hlow], by simp [hhigh], hle'⟩

theorem exemplarAfter_sound {histogram : Histogram} (h : HistogramSound js server histogram)
    {value : JsNumber} {attrs : JsValue} (hattrs : AttrsFit server attrs)
    {after : Option SdkExemplar} (hafter : histogram.exemplarAfter js limits value attrs = .ok after) :
    ∀ exemplar, after = some exemplar →
      exemplar.value = (if value.ge histogram.max then value else histogram.max) ∧
      AttrsSound server exemplar.attrs := by
  intro exemplar hexemplar
  unfold Histogram.exemplarAfter at hafter
  split_ifs at hafter ⊢ with hmax
  · rw [hexemplar] at hafter
    exact exemplarFrom_sound hattrs hafter
  · cases hafter
    exact h.exemplar exemplar hexemplar

theorem HistogramSound.observe {histogram next : Histogram} (h : HistogramSound js server histogram)
    {value : JsNumber} {attrs : JsValue} (hfits : Fits histogram.sum value)
    (hattrs : AttrsFit server attrs)
    (hobserve : histogram.observe js nearest limits value attrs = .ok next) :
    HistogramSound js server next := by
  unfold Histogram.observe at hobserve
  by_cases hfinite : value.isFinite = true
  · rw [if_pos hfinite, bind_eq_ok_iff] at hobserve
    obtain ⟨after, hafter, hnext⟩ := hobserve
    cases hnext
    have hexemplar := exemplarAfter_sound h hattrs hafter
    obtain ⟨v, rfl⟩ := finite_of_isFinite hfinite
    obtain ⟨sum, hsum⟩ := h.sum
    have hbump := sum_bump_le (.finite v) histogram.bounds histogram.counts
    have htotal := h.total
    obtain ⟨low, high, hlow, hhigh, hle⟩ := extremes_after h v
    refine ⟨h.named, h.bounds, ?_, ?_, ?_, Or.inr ⟨low, high, ?_, hlow, hhigh, hle⟩, hexemplar⟩
    · exact (length_bump _ _ _).trans h.lengths
    · show (bump (.finite v) histogram.bounds histogram.counts).sum ≤ histogram.count + 1
      omega
    · show ∃ q, JsNumber.add nearest histogram.sum (.finite v) = .finite q
      rw [hsum] at hfits ⊢
      exact add_finite hfits
    · exact Nat.succ_pos _
  · rw [if_neg hfinite] at hobserve
    cases hobserve

theorem sum_replicate_zero (n : ℕ) : (List.replicate n 0).sum = 0 := by
  rw [List.sum_replicate, smul_zero]

/-- A histogram without a value is as new. -/
theorem histogramSound_empty {name : String} {dims : Option Dims} {bounds : List ℚ} {counts : List ℕ}
    (hnamed : NamedSound js server name dims) (hbounds : bounds.IsChain (· < ·))
    (hlength : counts.length = bounds.length) (hzero : counts.sum = 0) :
    HistogramSound js server { Histogram.new bounds name dims with counts := counts } where
  named := hnamed
  bounds := hbounds
  lengths := hlength
  total := hzero.le
  sum := ⟨0, rfl⟩
  extremes := Or.inl ⟨rfl, rfl, rfl⟩
  exemplar := fun _ h => nomatch h

theorem HistogramSound.new {name : String} {dims : Option Dims} {bounds : List ℚ}
    (hnamed : NamedSound js server name dims) (hbounds : bounds.IsChain (· < ·)) :
    HistogramSound js server (Histogram.new bounds name dims) :=
  histogramSound_empty hnamed hbounds List.length_replicate (sum_replicate_zero _)

theorem HistogramSound.reset {histogram : Histogram} (h : HistogramSound js server histogram) :
    HistogramSound js server histogram.reset :=
  histogramSound_empty h.named h.bounds (List.length_replicate.trans h.lengths)
    (sum_replicate_zero _)

theorem increasingBounds_chain {previous : Option ℚ} {values : List JsValue} {bounds : List ℚ}
    (h : increasingBounds previous values = .ok bounds) :
    bounds.IsChain (· < ·) ∧ ∀ before ∈ previous, ∀ bound ∈ bounds.head?, before < bound := by
  induction values generalizing previous bounds with
  | nil =>
      cases h
      exact ⟨List.IsChain.nil, fun _ _ _ hbound => nomatch hbound⟩
  | cons value values ih =>
      unfold increasingBounds at h
      split at h
      · rename_i heq
        cases heq
      · rename_i heq
        cases heq
        split_ifs at h with hafter
        · rw [bind_eq_ok_iff] at h
          obtain ⟨rest, hrest, hbounds⟩ := h
          cases hbounds
          obtain ⟨hchain, hfirst⟩ := ih hrest
          refine ⟨List.isChain_cons.mpr ⟨fun next hnext => hfirst _ rfl next hnext, hchain⟩, ?_⟩
          intro before hbefore bound hbound
          cases hbound
          cases hbefore
          exact of_decide_eq_true hafter
      · cases h

theorem checkBuckets_chain {buckets : JsValue} {bounds : List ℚ}
    (h : checkBuckets buckets = .ok bounds) : bounds.IsChain (· < ·) := by
  unfold checkBuckets at h
  split at h
  · exact (increasingBounds_chain h).1
  · cases h

end

/-! ## Runs -/

/-- Every property of the dimensions has a name and no number that is not finite. -/
def DimsClean (dims : JsValue) : Prop :=
  ∀ field ∈ dims.fields, field.1 ≠ "" ∧ field.2.isFinite = true

def NamesFit (server : IngestLimits) (name : String) (dims : JsValue) : Prop :=
  utf8Length name ≤ server.maxNameBytes ∧
    ∀ field ∈ dims.fields, utf8Length field.1 ≤ server.maxNameBytes

section
variable (sdk : Sdk) (server : IngestLimits) (earliest latest : ℚ)

/-- The call returns, with names within the server's limit and the clock in range. -/
def Promised (registry : Registry) : Call → Prop
  | .counter name dims => (call sdk registry (.counter name dims)).toOption.isSome = true ∧
      NamesFit server name dims
  | .gauge name dims => (call sdk registry (.gauge name dims)).toOption.isSome = true ∧
      NamesFit server name dims
  | .histogram name a b => (call sdk registry (.histogram name a b)).toOption.isSome = true ∧
      NamesFit server name (histogramArgs a b sdk.defaultHistogramBuckets).2
  | .distinct name dims => (call sdk registry (.distinct name dims)).toOption.isSome = true ∧
      NamesFit server name dims
  | .set handle value now =>
      (call sdk registry (.set handle value now)).toOption.isSome = true ∧
        earliest ≤ now ∧ now ≤ latest
  | made => (call sdk registry made).toOption.isSome = true

/-- The call keeps away from what only the SDK admits. -/
def Admissible (registry : Registry) : Call → Prop
  | .counter _ dims => DimsClean dims
  | .gauge _ dims => DimsClean dims
  | .histogram _ a b => DimsClean (histogramArgs a b sdk.defaultHistogramBuckets).2
  | .distinct _ dims => DimsClean dims
  | .add handle n => ∀ counter ∈ find registry.counters handle, Fits counter.value n
  | .observe handle value attrs => AttrsFit server attrs ∧
      ∀ histogram ∈ find registry.histograms handle, Fits histogram.sum value
  | _ => True

/-- What the run keeps of every series. -/
structure Rows (registry : Registry) : Prop where
  counters : AllSeries (CounterSound sdk.js server) registry.counters
  gauges : AllSeries (GaugeSound sdk.js server earliest latest) registry.gauges
  histograms : AllSeries (HistogramSound sdk.js server) registry.histograms
  distincts : AllSeries (DistinctSound sdk.js server) registry.distincts

theorem rows_initial : Rows sdk server earliest latest Registry.initial :=
  ⟨allSeries_empty _, allSeries_empty _, allSeries_empty _, allSeries_empty _⟩

end

section
variable {sdk : Sdk} {server : IngestLimits} {earliest latest : ℚ}

/-- A new series has a name and dimensions that pass. -/
theorem AllSeries.series {S : Type} {P : S → Prop} {map : SeriesMap S} (h : AllSeries P map)
    (hkeys : server.maxDimensionKeys = sdk.limits.maxDimensionKeys)
    (hlength : server.maxDimensionValueLength = sdk.limits.maxDimensionValueLength)
    {kindPrefix name : String} {make : Option Dims → S} {dims : JsValue} {rejected : List String}
    (hnames : NamesFit server name dims) (hclean : DimsClean dims)
    (hmake : ∀ d, NamedSound sdk.js server name d → P (make d)) {found : Lookup S}
    (hseries : series sdk.js sdk.limits kindPrefix make name dims map rejected = .ok found) :
    AllSeries P found.map := by
  unfold MetricsRegistry.series at hseries
  rw [bind_eq_ok_iff] at hseries
  obtain ⟨_, hname, hseries⟩ := hseries
  rw [bind_eq_ok_iff] at hseries
  obtain ⟨checked, hchecked, hfound⟩ := hseries
  cases hfound
  rw [require_eq_ok_iff] at hname
  have hne := of_decide_eq_true hname
  have hsound : DimsSound server dims := fun field hfield =>
    ⟨(hclean field hfield).1, hnames.2 field hfield, (hclean field hfield).2⟩
  apply h.register
  intro d hd
  rw [hd] at hchecked
  apply hmake d
  apply namedSound_of_checked hne hnames.1
  exact validateDimensions_ok hkeys.ge hlength.ge hchecked hsound

theorem Promised.returns {registry : Registry} {made : Call}
    (h : Promised sdk server earliest latest registry made) :
    (call sdk registry made).toOption.isSome = true := by
  cases made with
  | add handle n => exact h
  | observe handle value attrs => exact h
  | identify handle identifier => exact h
  | snapshot => exact h
  | _ => exact h.1

theorem returned {registry next : Registry} {made : Call}
    (h : call sdk registry made = .ok next) : afterCall sdk made registry = next := by
  unfold afterCall
  rw [h]

/-- Every call keeps every series such that its row passes. -/
theorem Rows.afterCall (hkeys : server.maxDimensionKeys = sdk.limits.maxDimensionKeys)
    (hlength : server.maxDimensionValueLength = sdk.limits.maxDimensionValueLength)
    {registry : Registry} (h : Rows sdk server earliest latest registry) {made : Call}
    (hpromised : Promised sdk server earliest latest registry made)
    (hadmissible : Admissible sdk server registry made) :
    Rows sdk server earliest latest (afterCall sdk made registry) := by
  cases hcall : call sdk registry made with
  | error message =>
      -- the caller promises calls that return
      have hreturns := hpromised.returns
      rw [hcall] at hreturns
      cases hreturns
  | ok next =>
      rw [returned hcall]
      cases made with
      | counter name dims =>
          unfold call at hcall
          rw [bind_eq_ok_iff] at hcall
          obtain ⟨found, hfound, hnext⟩ := hcall
          cases hnext
          have hcounters := h.counters.series hkeys hlength hpromised.2 hadmissible
            (fun _ hnamed => ⟨hnamed, 0, rfl⟩) hfound
          exact ⟨hcounters, h.gauges, h.histograms, h.distincts⟩
      | gauge name dims =>
          unfold call at hcall
          rw [bind_eq_ok_iff] at hcall
          obtain ⟨found, hfound, hnext⟩ := hcall
          cases hnext
          have hgauges := h.gauges.series hkeys hlength hpromised.2 hadmissible
            (fun _ hnamed => ⟨hnamed, fun hdirty => absurd hdirty Bool.false_ne_true⟩) hfound
          exact ⟨h.counters, hgauges, h.histograms, h.distincts⟩
      | histogram name a b =>
          unfold call MetricsRegistry.histogram at hcall
          rw [bind_eq_ok_iff] at hcall
          obtain ⟨found, hfound, hnext⟩ := hcall
          cases hnext
          rw [bind_eq_ok_iff] at hfound
          obtain ⟨bounds, hbounds, hfound⟩ := hfound
          rw [bind_eq_ok_iff] at hfound
          obtain ⟨found', hseries, hfound⟩ := hfound
          rw [bind_eq_ok_iff] at hfound
          obtain ⟨_, _, hsame⟩ := hfound
          cases hsame
          have hchain := checkBuckets_chain hbounds
          have hhistograms := h.histograms.series hkeys hlength hpromised.2 hadmissible
            (fun _ hnamed => HistogramSound.new hnamed hchain) hseries
          exact ⟨h.counters, h.gauges, hhistograms, h.distincts⟩
      | distinct name dims =>
          unfold call at hcall
          rw [bind_eq_ok_iff] at hcall
          obtain ⟨found, hfound, hnext⟩ := hcall
          cases hnext
          have hdistincts := h.distincts.series hkeys hlength hpromised.2 hadmissible
            (fun _ hnamed => ⟨hnamed⟩) hfound
          exact ⟨h.counters, h.gauges, h.histograms, hdistincts⟩
      | add handle n =>
          unfold call at hcall
          rw [bind_eq_ok_iff] at hcall
          obtain ⟨counters, hcounters, hnext⟩ := hcall
          cases hnext
          have hkept := h.counters.record
            (fun counter next hfind hcounter hadd => hcounter.add (hadmissible counter hfind) hadd)
            hcounters
          exact ⟨hkept, h.gauges, h.histograms, h.distincts⟩
      | set handle value now =>
          unfold call at hcall
          rw [bind_eq_ok_iff] at hcall
          obtain ⟨gauges, hgauges, hnext⟩ := hcall
          cases hnext
          have hkept := h.gauges.record
            (fun gauge next _ hgauge hset => hgauge.set hpromised.2 hset) hgauges
          exact ⟨h.counters, hkept, h.histograms, h.distincts⟩
      | observe handle value attrs =>
          unfold call at hcall
          rw [bind_eq_ok_iff] at hcall
          obtain ⟨histograms, hhistograms, hnext⟩ := hcall
          cases hnext
          have hkept := h.histograms.record (fun held next hfind hheld hobserve =>
            hheld.observe (hadmissible.2 held hfind) hadmissible.1 hobserve) hhistograms
          exact ⟨h.counters, h.gauges, hkept, h.distincts⟩
      | identify handle identifier =>
          unfold call at hcall
          rw [bind_eq_ok_iff] at hcall
          obtain ⟨distincts, hdistincts, hnext⟩ := hcall
          cases hnext
          have hkept := h.distincts.record
            (fun distinct next _ hdistinct hadd => hdistinct.add hadd) hdistincts
          exact ⟨h.counters, h.gauges, h.histograms, hkept⟩
      | snapshot =>
          cases hcall
          have hcounters := h.counters.resetLive Counter.live
            (fun counter => { counter with value := .finite 0 })
            fun _ hcounter => ⟨hcounter.named, 0, rfl⟩
          have hgauges := h.gauges.resetLive Gauge.dirty
            (fun gauge => { gauge with dirty := false })
            fun _ hgauge => ⟨hgauge.named, fun hdirty => absurd hdirty Bool.false_ne_true⟩
          have hhistograms := h.histograms.resetLive Histogram.live Histogram.reset
            fun _ hheld => HistogramSound.reset hheld
          have hdistincts := h.distincts.resetLive Distinct.dirty Distinct.reset
            fun _ hdistinct => ⟨hdistinct.named⟩
          exact ⟨hcounters, hgauges, hhistograms, hdistincts⟩

end

/-- With the server's limits of dimensions those of the SDK, after every run of
calls that return the server admits every row of the snapshot, where each call
keeps away from what only the SDK admits. -/
theorem snapshot_rows_admitted (sdk : Sdk) (server : IngestLimits) (earliest latest : ℚ)
    (hkeys : server.maxDimensionKeys = sdk.limits.maxDimensionKeys)
    (hlength : server.maxDimensionValueLength = sdk.limits.maxDimensionValueLength)
    (calls : List Call)
    (hcalls : Along (fun registry made => Promised sdk server earliest latest registry made ∧
      Admissible sdk server registry made) (afterCall sdk) Registry.initial calls) :
    let snapshot := (run (afterCall sdk) Registry.initial calls).snapshot
    ∀ label, (∀ row ∈ snapshot.counters, validateCounter sdk.js server row label = .ok ()) ∧
      (∀ row ∈ snapshot.gauges, validateGauge sdk.js server row label earliest latest = .ok ()) ∧
      (∀ row ∈ snapshot.histograms, validateHistogram sdk.js server row label = .ok ()) ∧
      ∀ row ∈ snapshot.distincts, validateDistinct sdk.js server row label = .ok () := by
  have hrows := run_invariant (Rows sdk server earliest latest)
    (fun registry made h hmade => h.afterCall hkeys hlength hmade.1 hmade.2)
    (rows_initial sdk server earliest latest) hcalls
  intro snapshot label
  refine ⟨?_, ?_, ?_, ?_⟩
  · exact hrows.counters.rows fun _ h _ => h.row label
  · exact hrows.gauges.rows fun _ h hdirty => h.row hdirty label
  · exact hrows.histograms.rows fun _ h hlive => h.row hlive label
  · exact hrows.distincts.rows fun _ h _ => h.row label

/-! ### A shop's metrics -/

instance (dims : JsValue) : Decidable (DimsClean dims) :=
  inferInstanceAs (Decidable (∀ field ∈ dims.fields, field.1 ≠ "" ∧ field.2.isFinite = true))

instance (server : IngestLimits) (name : String) (dims : JsValue) :
    Decidable (NamesFit server name dims) :=
  inferInstanceAs (Decidable (_ ∧ ∀ field ∈ dims.fields, utf8Length field.1 ≤ server.maxNameBytes))

instance (server : IngestLimits) (attrs : JsValue) : Decidable (AttrsFit server attrs) :=
  inferInstanceAs (Decidable (_ ∧ ∀ field ∈ attrs.fields, field.1 ≠ "" ∧
    utf8Length field.1 ≤ server.maxNameBytes ∧
    field.2.textLength ≤ server.maxAttributeValueLength))

instance (sdk : Sdk) (server : IngestLimits) (earliest latest : ℚ) (registry : Registry) :
    ∀ made, Decidable (Promised sdk server earliest latest registry made)
  | .counter _ _ => inferInstanceAs (Decidable (_ ∧ NamesFit _ _ _))
  | .gauge _ _ => inferInstanceAs (Decidable (_ ∧ NamesFit _ _ _))
  | .histogram _ _ _ => inferInstanceAs (Decidable (_ ∧ NamesFit _ _ _))
  | .distinct _ _ => inferInstanceAs (Decidable (_ ∧ NamesFit _ _ _))
  | .add _ _ => inferInstanceAs (Decidable (_ = true))
  | .set _ _ now => inferInstanceAs (Decidable (_ ∧ earliest ≤ now ∧ now ≤ latest))
  | .observe _ _ _ => inferInstanceAs (Decidable (_ = true))
  | .identify _ _ => inferInstanceAs (Decidable (_ = true))
  | .snapshot => inferInstanceAs (Decidable (_ = true))

instance (sdk : Sdk) (server : IngestLimits) (registry : Registry) :
    ∀ made, Decidable (Admissible sdk server registry made)
  | .counter _ dims => inferInstanceAs (Decidable (DimsClean dims))
  | .gauge _ dims => inferInstanceAs (Decidable (DimsClean dims))
  | .histogram _ _ _ => inferInstanceAs (Decidable (DimsClean _))
  | .distinct _ dims => inferInstanceAs (Decidable (DimsClean dims))
  | .add handle n => inferInstanceAs
      (Decidable (∀ counter ∈ find registry.counters handle, Fits counter.value n))
  | .observe handle value attrs => inferInstanceAs (Decidable (AttrsFit server attrs ∧
      ∀ histogram ∈ find registry.histograms handle, Fits histogram.sum value))
  | .set _ _ _ => inferInstanceAs (Decidable True)
  | .identify _ _ => inferInstanceAs (Decidable True)
  | .snapshot => inferInstanceAs (Decidable True)

def shopSdk : Sdk where
  js := Js.plain
  nearest := id
  h64 := fun _ => 0
  limits := ⟨1000, 8, 64⟩
  defaultHistogramBuckets := .arr [.num (.finite 10), .num (.finite 100)]
  privacySalt := "salt"

def shopServer : IngestLimits := ⟨128, 8, 64, 32, 256⟩

def shopCalls : List Call :=
  [.counter "hits" (.obj [("route", .str "/")]),
    .add ("hits", "route=/") (.finite 2),
    .gauge "carts" .null,
    .set ("carts", "") (.finite 7) 1000,
    .histogram "checkout" (.obj [("paid", .bool true)]) .undefined,
    .observe ("checkout", "paid=true") (.finite 40) (.obj [("order", .str "o-1")]),
    .observe ("checkout", "paid=true") (.finite 3) .undefined]

theorem snapshot_rows_admitted_shop :
    let snapshot := (run (afterCall shopSdk) Registry.initial shopCalls).snapshot
    (snapshot.counters.length, snapshot.gauges.length, snapshot.histograms.length) = (1, 1, 1) ∧
      (∀ row ∈ snapshot.histograms,
        validateHistogram Js.plain shopServer row "histograms[0]" = .ok ()) := by
  have hadmitted := snapshot_rows_admitted shopSdk shopServer 0 2000 rfl rfl shopCalls
    (by decide +kernel) "histograms[0]"
  exact ⟨by decide +kernel, hadmitted.2.2.1⟩

/-- A dimension that is not a number is admitted by the SDK and refused by the
server. -/
theorem nan_dimension_refused :
    ¬ ∀ (sdk : Sdk) (server : IngestLimits) (earliest latest : ℚ) (calls : List Call),
      server.maxDimensionKeys = sdk.limits.maxDimensionKeys →
      server.maxDimensionValueLength = sdk.limits.maxDimensionValueLength →
      Along (Promised sdk server earliest latest) (afterCall sdk) Registry.initial calls →
      ∀ row ∈ (run (afterCall sdk) Registry.initial calls).snapshot.counters,
        validateCounter sdk.js server row "counters[0]" = .ok () := by
  intro h
  have hrow := h shopSdk shopServer 0 2000
    [.counter "hits" (.obj [("load", .num .nan)]), .add ("hits", "load=NaN") (.finite 1)] rfl rfl
    (by decide +kernel) (.arr [.str "hits", .obj [("load", .null)], .num 1])
    (by decide +kernel)
  revert hrow
  decide +kernel

end Wardx.MetricsRegistry
