import Mathlib.Data.List.Forall2
import Wardx.Aggregation.MergedHistogram
import Wardx.Core.SnapshotRows
import Wardx.Core.Sketch

/-!
# Measurement windows

The snapshots of a registry cut the values given to a series into windows, and a
window that is not empty is taken as one body. The bodies merge to what one
window of all the values would be. The handle outlives its windows: a snapshot
resets its series in place.

A value at the maximum of its window has its attributes read behind the first
writes of `observe`. Attributes that throw there leave a count without a bucket
and an exemplar below the maximum.
-/
namespace Wardx.MetricsRegistry

open Lib Json Control FrameAggregator

/-! ## What is given and taken -/

section
variable (handle : Handle) (registry : Registry)

/-- The finite amounts added through the handle of a counter. -/
def added : Call → List ℚ
  | .add target (.finite n) =>
      if target = handle ∧ (find registry.counters handle).isSome then [n] else []
  | _ => []

/-- The finite values observed through the handle of a histogram. -/
def observed : Call → List ℚ
  | .observe target (.finite value) _ =>
      if target = handle ∧ (find registry.histograms handle).isSome then [value] else []
  | _ => []

/-- The counter's value in a snapshot. -/
def takenCounts : Call → List Json
  | .snapshot =>
      ((find registry.counters handle).filter Counter.live).toList.map fun held => held.value.json
  | _ => []

/-- The histogram's body in a snapshot. -/
def takenBodies : Call → List Json
  | .snapshot => ((find registry.histograms handle).filter Histogram.live).toList.map Histogram.body
  | _ => []

end

/-! ## What the server reads -/

def natural? (value : Option Json) : Option ℕ :=
  (number? value).bind fun q => if q.den = 1 ∧ 0 ≤ q then some q.num.toNat else none

/-- `copyExemplar`. -/
def copyExemplar : Option Json → Option Exemplar
  | some (.obj fields) =>
      (number? ((Json.obj fields).get? "value")).map fun value =>
        ⟨value, ((Json.obj fields).get? "attrs").getD .null⟩
  | _ => none

def readBucket (pair : Json) : Option (ℚ × ℕ) :=
  match pair with
  | .arr [.num bound, count] => (natural? (some count)).map fun count => (bound, count)
  | _ => none

/-- The row of a body. -/
def readHistogram (name : String) (dimensions : HistoryBucket.Dimensions) (body : Json) :
    Option HistogramRow := do
  let count ← natural? (body.get? "count")
  let sum ← number? (body.get? "sum")
  let min ← number? (body.get? "min")
  let max ← number? (body.get? "max")
  let buckets ← (items (body.get? "buckets")).mapM readBucket
  pure ⟨name, dimensions, count, sum, min, max, buckets, copyExemplar (body.get? "exemplar")⟩

/-! ## Conditions on a step -/

/-- The addition is exact. -/
def addsExactly (nearest : ℚ → ℚ) (held n : JsNumber) : Bool :=
  match held, n with
  | .finite a, .finite b => held.add nearest n = .finite (a + b)
  | _, _ => true

/-- The additions to the series of the handle are exact. -/
def Exact (sdk : Sdk) (handle : Handle) (registry : Registry) : Call → Prop
  | .add target n => target = handle →
      ∀ held ∈ find registry.counters handle, addsExactly sdk.nearest held.value n = true
  | .observe target value _ => target = handle →
      ∀ held ∈ find registry.histograms handle, addsExactly sdk.nearest held.sum value = true
  | _ => True

/-- `validateDimensions` does not throw at the attributes. -/
def attrsReadable (sdk : Sdk) (attrs : JsValue) : Bool :=
  attrs.isNullish || (validateDimensions sdk.js sdk.limits attrs).toOption.isSome

/-- A value at the maximum of its window has attributes that can be read. -/
def ReadableAtMax (sdk : Sdk) (handle : Handle) (registry : Registry) : Call → Prop
  | .observe target value attrs => target = handle → value.isFinite = true →
      ∀ held ∈ find registry.histograms handle, value.ge held.max = true →
        attrsReadable sdk attrs = true
  | _ => True

/-! ## The histogram of the values since the last snapshot -/

/-- The histogram tells the values. -/
structure HistogramOf (values : List ℚ) (held : Histogram) : Prop where
  bounds : held.bounds.Pairwise (· < ·)
  counts : held.counts = bucketCounts held.bounds values
  count : held.count = values.length
  sum : held.sum = .finite values.sum
  extremes : (values = [] ∧ held.min = .infinite false ∧ held.max = .infinite true) ∨
    ∃ low high, IsLeast {value | value ∈ values} low ∧ IsGreatest {value | value ∈ values} high ∧
      held.min = .finite low ∧ held.max = .finite high
  exemplar : ∀ exemplar, held.exemplar = some exemplar → exemplar.value = held.max

theorem histogramOf_new {name : String} {dims : Option Dims} {bounds : List ℚ}
    (hbounds : bounds.Pairwise (· < ·)) : HistogramOf [] (Histogram.new bounds name dims) where
  bounds := hbounds
  counts := (bucketCounts_nil bounds).symm
  count := rfl
  sum := rfl
  extremes := Or.inl ⟨rfl, rfl, rfl⟩
  exemplar := fun _ h => nomatch h

theorem HistogramOf.reset {values : List ℚ} {held : Histogram} (h : HistogramOf values held) :
    HistogramOf [] held.reset where
  bounds := h.bounds
  counts := by
    show List.replicate held.counts.length 0 = bucketCounts held.bounds []
    rw [bucketCounts_nil, h.counts, length_bucketCounts]
  count := rfl
  sum := rfl
  extremes := Or.inl ⟨rfl, rfl, rfl⟩
  exemplar := fun _ h => nomatch h

/-- The loop over the bounds counts the value in its bucket. -/
theorem bump_finite (value : ℚ) {bounds : List ℚ} {counts : List ℕ}
    (hlength : counts.length = bounds.length) :
    bump (.finite value) bounds counts = counts.modify (bucketOf bounds value) (· + 1) := by
  induction bounds generalizing counts with
  | nil =>
      rw [List.length_eq_zero_iff.mp hlength]
      rfl
  | cons bound bounds ih =>
      cases counts with
      | nil => simp at hlength
      | cons count counts =>
          have hle : ((JsNumber.finite value).lt (.finite bound) ||
              decide (JsNumber.finite value = .finite bound)) = decide (value ≤ bound) := by
            rw [Bool.eq_iff_iff, Bool.or_eq_true, decide_eq_true_eq, decide_eq_true_eq,
              JsNumber.finite.injEq, le_iff_lt_or_eq]
            exact or_congr_left decide_eq_true_iff
          unfold bump
          rw [hle]
          by_cases hin : value ≤ bound
          · simp [hin, bucketOf, List.findIdx_cons]
          · have hrest := ih (by simpa using hlength)
            simp only [hin, decide_false, Bool.false_eq_true, if_false, hrest]
            simp [bucketOf, List.findIdx_cons, hin]

/-- The extremes once a value is added. -/
theorem HistogramOf.extremes_concat {values : List ℚ} {held : Histogram}
    (h : HistogramOf values held) (value : ℚ) :
    ∃ low high, IsLeast {v | v ∈ values ++ [value]} low ∧
      IsGreatest {v | v ∈ values ++ [value]} high ∧
      (if (JsNumber.finite value).lt held.min then .finite value else held.min) = .finite low ∧
      (if (JsNumber.finite value).ge held.max then .finite value else held.max) = .finite high := by
  have hleast : IsLeast {v | v ∈ [value]} value := by simp [IsLeast]
  have hgreatest : IsGreatest {v | v ∈ [value]} value := by simp [IsGreatest]
  rcases h.extremes with ⟨hnil, hmin, hmax⟩ | ⟨low, high, hlow, hhigh, hmin, hmax⟩
  · rw [hnil, hmin, hmax]
    exact ⟨value, value, hleast, hgreatest, rfl, rfl⟩
  · refine ⟨_, _, isLeast_append hlow hleast, isGreatest_append hhigh hgreatest, ?_, ?_⟩
    · rw [hmin]
      by_cases hlt : value < low <;> simp [JsNumber.lt, hlt]
    · rw [hmax]
      by_cases hlt : high < value
      · simp [JsNumber.ge, JsNumber.lt, hlt, hlt.le]
      · by_cases heq : value = high
        · simp [JsNumber.ge, JsNumber.lt, heq]
        · have hbelow : value < high := lt_of_le_of_ne (not_lt.mp hlt) heq
          simp [JsNumber.ge, JsNumber.lt, hlt, hbelow]

theorem exemplarAfter_value {js : Js} {limits : RegistryLimits} {held : Histogram} {value : JsNumber}
    {attrs : JsValue} {after : Option SdkExemplar}
    (hold : ∀ exemplar, held.exemplar = some exemplar → exemplar.value = held.max)
    (h : held.exemplarAfter js limits value attrs = .ok after) :
    ∀ exemplar, after = some exemplar →
      exemplar.value = if value.ge held.max then value else held.max := by
  intro exemplar hafter
  unfold Histogram.exemplarAfter at h
  split_ifs at h ⊢ with hmax
  · unfold exemplarFrom at h
    split_ifs at h
    · cases h
      cases hafter
    · rw [bind_eq_ok_iff] at h
      obtain ⟨checked, -, h⟩ := h
      split at h
      · cases h
        cases hafter
        rfl
      · cases h
        cases hafter
  · cases h
    exact hold exemplar hafter

/-- A value that is observed is one more of the window. -/
theorem HistogramOf.observe {values : List ℚ} {held next : Histogram} (h : HistogramOf values held)
    {js : Js} {nearest : ℚ → ℚ} {limits : RegistryLimits} {value : ℚ} {attrs : JsValue}
    (hexact : addsExactly nearest held.sum (.finite value) = true)
    (hobserve : held.observe js nearest limits (.finite value) attrs = .ok next) :
    next.bounds = held.bounds ∧ HistogramOf (values ++ [value]) next := by
  have hfinite : (JsNumber.finite value).isFinite = true := rfl
  unfold Histogram.observe at hobserve
  rw [if_pos hfinite, bind_eq_ok_iff] at hobserve
  obtain ⟨after, hafter, hnext⟩ := hobserve
  cases hnext
  refine ⟨rfl, h.bounds, ?_, ?_, ?_, Or.inr ?_, exemplarAfter_value h.exemplar hafter⟩
  · show bump (.finite value) held.bounds held.counts = bucketCounts held.bounds _
    rw [bucketCounts_concat, ← h.counts, bump_finite]
    rw [h.counts, length_bucketCounts]
  · show held.count + 1 = _
    rw [h.count, List.length_append, List.length_singleton]
  · show held.sum.add nearest (.finite value) = _
    rw [h.sum] at hexact ⊢
    rw [List.sum_append, List.sum_singleton]
    exact of_decide_eq_true hexact
  · exact h.extremes_concat value

/-! ## Bodies -/

theorem natural?_nat (n : ℕ) : natural? (some (.num n)) = some n := by
  simp [natural?, number?]

theorem mapM_readBucket (bounds : List ℚ) (counts : List ℕ) :
    (List.zipWith (fun bound (count : ℕ) => Json.arr [.num bound, .num count]) bounds counts).mapM
      readBucket = some (bounds.zip counts) := by
  induction bounds generalizing counts with
  | nil => rfl
  | cons bound bounds ih =>
      cases counts with
      | nil => rfl
      | cons count counts =>
          rw [List.zipWith_cons_cons, List.mapM_cons, ih]
          simp [readBucket, natural?_nat]

/-- The body tells a row, of the window that the histogram tells. -/
def Tells (bounds window : List ℚ) (name : String) (dimensions : HistoryBucket.Dimensions)
    (body : Json) : Prop :=
  ∃ row, readHistogram name dimensions body = some row ∧
    BodyOf bounds window (mergeHistogram none row)

theorem HistogramOf.tells {values : List ℚ} {held : Histogram} (h : HistogramOf values held)
    (hlive : values ≠ []) (name : String) (dimensions : HistoryBucket.Dimensions) :
    Tells held.bounds values name dimensions held.body := by
  rcases h.extremes with ⟨hnil, -, -⟩ | ⟨low, high, hlow, hhigh, hmin, hmax⟩
  · exact absurd hnil hlive
  · have hcount : held.body.get? "count" = some (.num held.count) := rfl
    have hsum : held.body.get? "sum" = some (.num values.sum) := by
      show some held.sum.json = _
      rw [h.sum]
      rfl
    have hlowest : held.body.get? "min" = some (.num low) := by
      show some held.min.json = _
      rw [hmin]
      rfl
    have hhighest : held.body.get? "max" = some (.num high) := by
      show some held.max.json = _
      rw [hmax]
      rfl
    have hbuckets : (items (held.body.get? "buckets")).mapM readBucket =
        some (held.bounds.zip held.counts) := mapM_readBucket held.bounds held.counts
    have hexemplar : held.body.get? "exemplar" = held.exemplar.map SdkExemplar.json := by
      unfold Histogram.body
      cases held.exemplar <;> rfl
    refine ⟨⟨name, dimensions, held.count, values.sum, low, high, held.bounds.zip held.counts,
      copyExemplar (held.body.get? "exemplar")⟩, ?_, h.count, rfl, hlow, hhigh, ?_, ?_⟩
    · unfold readHistogram
      rw [hcount, hsum, hlowest, hhighest, hbuckets, natural?_nat]
      rfl
    · show held.bounds.zip held.counts = _
      rw [h.counts]
    · intro exemplar hcopied
      have hcopy : copyExemplar (held.body.get? "exemplar") = some exemplar := hcopied
      rw [hexemplar] at hcopy
      cases hheld : held.exemplar with
      | none =>
          rw [hheld] at hcopy
          cases hcopy
      | some own =>
          rw [hheld] at hcopy
          have hvalue := h.exemplar own hheld
          rw [hmax] at hvalue
          have hread : copyExemplar (some own.json) =
              some ⟨high, dimsJson (some own.attrs)⟩ := by
            unfold SdkExemplar.json
            rw [hvalue]
            rfl
          rw [Option.map_some, hread] at hcopy
          cases hcopy
          rfl

/-! ## What a call does to the series of a handle -/

section
variable (sdk : Sdk)

inductive HistogramStep : Option Histogram → List ℚ → List Json → Option Histogram → Prop
  | kept (held : Option Histogram) : HistogramStep held [] [] held
  | opened (name : String) (dims : Option Dims) {bounds : List ℚ}
      (hbounds : bounds.Pairwise (· < ·)) :
      HistogramStep none [] [] (some (Histogram.new bounds name dims))
  | observed {held next : Histogram} {value : ℚ} {attrs : JsValue}
      (hexact : addsExactly sdk.nearest held.sum (.finite value) = true)
      (hobserve : held.observe sdk.js sdk.nearest sdk.limits (.finite value) attrs = .ok next) :
      HistogramStep (some held) [value] [] (some next)
  | taken {held : Histogram} (hlive : held.live = true) :
      HistogramStep (some held) [] [held.body] (some held.reset)

inductive CounterStep : Option Counter → List ℚ → List Json → Option Counter → Prop
  | kept (held : Option Counter) : CounterStep held [] [] held
  | opened (name : String) (dims : Option Dims) :
      CounterStep none [] [] (some (Counter.new name dims))
  | added {held next : Counter} {n : ℚ}
      (hexact : addsExactly sdk.nearest held.value (.finite n) = true)
      (hadd : held.add sdk.nearest (.finite n) = .ok next) :
      CounterStep (some held) [n] [] (some next)
  | taken {held : Counter} (hlive : held.live = true) :
      CounterStep (some held) [] [held.value.json] (some { held with value := .finite 0 })

end

section
variable {sdk : Sdk} {handle : Handle}

theorem observe_error {js : Js} {nearest : ℚ → ℚ} {limits : RegistryLimits} {held : Histogram}
    {value : ℚ} {attrs : JsValue} {message : String}
    (h : held.observe js nearest limits (.finite value) attrs = .error message) :
    (JsNumber.finite value).ge held.max = true ∧ attrs.isNullish = false ∧
      (validateDimensions js limits attrs).toOption.isSome = false := by
  have hfinite : (JsNumber.finite value).isFinite = true := rfl
  unfold Histogram.observe at h
  rw [if_pos hfinite] at h
  cases hafter : held.exemplarAfter js limits (.finite value) attrs with
  | ok after =>
      rw [hafter] at h
      cases h
  | error other =>
      unfold Histogram.exemplarAfter exemplarFrom at hafter
      split_ifs at hafter with hmax hnullish
      refine ⟨hmax, by simpa using hnullish, ?_⟩
      cases hchecked : validateDimensions js limits attrs with
      | error message => rfl
      | ok checked =>
          rw [hchecked] at hafter
          cases checked with
          | refused reason => cases hafter
          | ok dims => cases dims <;> cases hafter

/-- A value given through a handle. -/
theorem histogramStep_observe (registry : Registry) (target : Handle) (value : JsNumber)
    (attrs : JsValue) (hexact : Exact sdk handle registry (.observe target value attrs))
    (hread : ReadableAtMax sdk handle registry (.observe target value attrs)) :
    HistogramStep sdk (find registry.histograms handle)
      (observed handle registry (.observe target value attrs)) []
      (find (afterCall sdk (.observe target value attrs) registry).histograms handle) := by
  cases hrecord : record target (Histogram.observe sdk.js sdk.nearest sdk.limits value attrs)
      registry.histograms with
  | error message =>
      have hcall : call sdk registry (.observe target value attrs) = .error message := by
        simp only [call, hrecord]
        rfl
      obtain ⟨held, hheld, hobserve⟩ := find_record_error hrecord
      rw [afterCall_error hcall]
      cases value with
      | finite v =>
          obtain ⟨hmax, hnullish, hthrows⟩ := observe_error hobserve
          show HistogramStep sdk _ (if target = handle ∧
            (find registry.histograms handle).isSome then [v] else []) [] (find (alter target
              (Histogram.abandoned sdk.nearest (.finite v)) registry.histograms) handle)
          have hother : target ≠ handle := by
            intro htarget
            have hreadable := hread htarget rfl held (htarget ▸ hheld) hmax
            unfold attrsReadable at hreadable
            rw [hnullish, hthrows] at hreadable
            cases hreadable
          rw [if_neg fun h => hother h.1, find_alter, if_neg hother.symm]
          exact .kept _
      | infinite negative => exact .kept _
      | nan => exact .kept _
  | ok histograms =>
      have hcall : call sdk registry (.observe target value attrs) =
          .ok { registry with histograms := histograms } := by
        simp only [call, hrecord]
        rfl
      rw [afterCall_ok hcall]
      cases find_record hrecord handle with
      | inl hkept =>
          have hnothing : observed handle registry (.observe target value attrs) = [] := by
            unfold observed
            split
            · rename_i heq
              cases heq
              rw [if_neg]
              intro hobserved
              rw [hkept.2 hobserved.1.symm] at hobserved
              exact Bool.false_ne_true hobserved.2
            · rfl
          rw [hnothing, hkept.1]
          exact .kept _
      | inr hadded =>
          obtain ⟨rfl, held, next, hheld, hobserve, hafter⟩ := hadded
          cases value with
          | finite v =>
              show HistogramStep sdk _ (if handle = handle ∧
                (find registry.histograms handle).isSome then [v] else []) [] _
              rw [hafter, hheld, if_pos ⟨rfl, rfl⟩]
              exact .observed (hexact rfl held hheld) hobserve
          | infinite negative => cases hobserve
          | nan => cases hobserve

theorem histogramStep_histogram (registry : Registry) (name : String) (a b : JsValue) :
    HistogramStep sdk (find registry.histograms handle) [] []
      (find (afterCall sdk (.histogram name a b) registry).histograms handle) := by
  cases hcall : call sdk registry (.histogram name a b) with
  | error message =>
      rw [afterCall_error hcall]
      exact .kept _
  | ok next =>
      rw [afterCall_ok hcall]
      unfold call MetricsRegistry.histogram at hcall
      rw [bind_eq_ok_iff] at hcall
      obtain ⟨found, hfound, hnext⟩ := hcall
      cases hnext
      rw [bind_eq_ok_iff] at hfound
      obtain ⟨bounds, hbounds, hfound⟩ := hfound
      rw [bind_eq_ok_iff] at hfound
      obtain ⟨found', hseries, hfound⟩ := hfound
      rw [bind_eq_ok_iff] at hfound
      obtain ⟨_, _, hsame⟩ := hfound
      cases hsame
      have hchain := List.isChain_iff_pairwise.mp (checkBuckets_chain hbounds)
      cases find_series hseries handle with
      | inl hsame =>
          rw [hsame]
          exact .kept _
      | inr hnew =>
          obtain ⟨hnone, made, hmade⟩ := hnew
          rw [hnone, hmade]
          exact .opened name made hchain

theorem histogramStep_snapshot (registry : Registry) :
    HistogramStep sdk (find registry.histograms handle) [] (takenBodies handle registry .snapshot)
      (find (afterCall sdk .snapshot registry).histograms handle) := by
  have hreset := find_resetLive Histogram.live Histogram.reset registry.histograms handle
  show HistogramStep sdk _ [] (takenBodies handle registry .snapshot)
    (find (resetLive Histogram.live Histogram.reset registry.histograms) handle)
  rw [hreset]
  unfold takenBodies
  cases find registry.histograms handle with
  | none => exact .kept none
  | some held =>
      cases hlive : held.live with
      | false =>
          simp only [Option.filter, Option.map, hlive]
          exact .kept (some held)
      | true =>
          simp only [Option.filter, Option.map, hlive]
          exact .taken hlive

/-- Every call is a step of the histogram. -/
theorem histogramStep_afterCall (registry : Registry) (made : Call)
    (hexact : Exact sdk handle registry made) (hread : ReadableAtMax sdk handle registry made) :
    HistogramStep sdk (find registry.histograms handle) (observed handle registry made)
      (takenBodies handle registry made) (find (afterCall sdk made registry).histograms handle) := by
  have hkept : (afterCall sdk made registry).histograms = registry.histograms →
      observed handle registry made = [] → takenBodies handle registry made = [] →
      HistogramStep sdk (find registry.histograms handle) (observed handle registry made)
        (takenBodies handle registry made)
        (find (afterCall sdk made registry).histograms handle) := by
    intro hsame hobserved htaken
    rw [hsame, hobserved, htaken]
    exact .kept _
  have hother : ∀ {α : Type} {found : Except String α} {write : α → Registry},
      call sdk registry made = found >>= (fun a => pure (write a)) →
      (∀ a, (write a).histograms = registry.histograms) →
      (abandoned sdk registry made).histograms = registry.histograms →
      (afterCall sdk made registry).histograms = registry.histograms :=
    fun h hwrite habandoned => kept_afterCall Registry.histograms h hwrite habandoned
  cases made with
  | histogram name a b => exact histogramStep_histogram registry name a b
  | observe target value attrs => exact histogramStep_observe registry target value attrs hexact hread
  | snapshot => exact histogramStep_snapshot registry
  | counter name dims => exact hkept (hother rfl (fun _ => rfl) rfl) rfl rfl
  | gauge name dims => exact hkept (hother rfl (fun _ => rfl) rfl) rfl rfl
  | distinct name dims => exact hkept (hother rfl (fun _ => rfl) rfl) rfl rfl
  | add target n => exact hkept (hother rfl (fun _ => rfl) rfl) rfl rfl
  | set target value now => exact hkept (hother rfl (fun _ => rfl) rfl) rfl rfl
  | identify target identifier => exact hkept (hother rfl (fun _ => rfl) rfl) rfl rfl

end

/-! ## Windows -/

/-- The values are those of the bodies taken, window by window, and of the series now. -/
inductive Windowed (name : String) (dimensions : HistoryBucket.Dimensions) :
    List ℚ → List Json → Option Histogram → Prop
  | absent : Windowed name dimensions [] [] none
  | present {values : List ℚ} {bodies : List Json} {held : Histogram} (windows : List (List ℚ))
      (pending : List ℚ) (hvalues : values = windows.flatten ++ pending)
      (hheld : HistogramOf pending held)
      (hbodies : List.Forall₂ (fun body window => Tells held.bounds window name dimensions body)
        bodies windows) : Windowed name dimensions values bodies (some held)

section
variable {sdk : Sdk} {handle : Handle} {name : String} {dimensions : HistoryBucket.Dimensions}

theorem Windowed.step {values more : List ℚ} {bodies further : List Json}
    {before after : Option Histogram} (h : Windowed name dimensions values bodies before)
    (hstep : HistogramStep sdk before more further after) :
    Windowed name dimensions (values ++ more) (bodies ++ further) after := by
  cases hstep with
  | kept held =>
      rw [List.append_nil, List.append_nil]
      exact h
  | opened name dims hbounds =>
      cases h with
      | absent => exact .present [] [] rfl (histogramOf_new hbounds) List.Forall₂.nil
  | observed hexact hobserve =>
      rename_i held next value attrs
      cases h with
      | present windows pending hvalues hheld hbodies =>
          obtain ⟨hbounds, hnext⟩ := hheld.observe hexact hobserve
          rw [List.append_nil]
          refine .present windows (pending ++ [value]) ?_ hnext ?_
          · rw [hvalues, List.append_assoc]
          · rw [hbounds]
            exact hbodies
  | taken hlive =>
      rename_i held
      cases h with
      | present windows pending hvalues hheld hbodies =>
          have hpending : pending ≠ [] := by
            rintro rfl
            have hcount := hheld.count
            unfold Histogram.live at hlive
            rw [hcount] at hlive
            simp at hlive
          rw [List.append_nil]
          refine .present (windows ++ [pending]) [] ?_ hheld.reset ?_
          · rw [hvalues, List.flatten_append, List.flatten_singleton, List.append_nil]
          · exact List.rel_append hbodies
              (List.Forall₂.cons (hheld.tells hpending name dimensions) List.Forall₂.nil)

theorem run_windowed {calls : List Call} (hexact : Along (Exact sdk handle) (afterCall sdk)
      Registry.initial calls)
    (hread : Along (ReadableAtMax sdk handle) (afterCall sdk) Registry.initial calls) :
    Windowed name dimensions (outputs (observed handle) (afterCall sdk) Registry.initial calls)
      (outputs (takenBodies handle) (afterCall sdk) Registry.initial calls)
      (find (run (afterCall sdk) Registry.initial calls).histograms handle) := by
  induction calls using List.reverseRecOn with
  | nil => exact .absent
  | append_singleton calls made ih =>
      rw [along_append] at hexact hread
      rw [outputs_append, outputs_append, run_append]
      have hstep := histogramStep_afterCall _ made hexact.2.1 hread.2.1
      have hwindowed := (ih hexact.1 hread.1).step hstep
      simpa only [outputs, run, List.append_nil] using hwindowed

theorem exists_rows {bounds : List ℚ} {bodies : List Json} {windows : List (List ℚ)}
    (h : List.Forall₂ (fun body window => Tells bounds window name dimensions body)
      bodies windows) :
    ∃ rows, bodies.mapM (readHistogram name dimensions) = some rows ∧
      List.Forall₂ (fun row window => BodyOf bounds window (mergeHistogram none row))
        rows windows := by
  induction h with
  | nil => exact ⟨[], rfl, List.Forall₂.nil⟩
  | cons htells _ ih =>
      obtain ⟨row, hrow, hbody⟩ := htells
      obtain ⟨rows, hrows, hbodies⟩ := ih
      refine ⟨row :: rows, ?_, List.Forall₂.cons hbody hbodies⟩
      rw [List.mapM_cons, hrow, hrows]
      rfl

theorem Windowed.of_none {values : List ℚ} {bodies : List Json}
    (h : Windowed name dimensions values bodies none) : values = [] ∧ bodies = [] := by
  cases h with
  | absent => exact ⟨rfl, rfl⟩

/-- A last snapshot leaves no value behind. -/
theorem Windowed.last {values : List ℚ} {bodies : List Json} {held : Histogram}
    (h : Windowed name dimensions values bodies (some held)) (hdone : held.live = false) :
    ∃ windows, values = windows.flatten ∧ held.bounds.Pairwise (· < ·) ∧
      List.Forall₂ (fun body window => Tells held.bounds window name dimensions body)
        bodies windows := by
  cases h with
  | present windows pending hvalues hheld hbodies =>
      refine ⟨windows, ?_, hheld.bounds, hbodies⟩
      have hcount := hheld.count
      unfold Histogram.live at hdone
      rw [hcount] at hdone
      have hpending : pending = [] := by
        simpa using hdone
      rw [hvalues, hpending, List.append_nil]

theorem find_after_snapshot (registry : Registry) {held : Histogram}
    (h : find (afterCall sdk .snapshot registry).histograms handle = some held) :
    held.live = false := by
  have hreset := find_resetLive Histogram.live Histogram.reset registry.histograms handle
  have hfind : find (resetLive Histogram.live Histogram.reset registry.histograms) handle =
      some held := h
  rw [hreset] at hfind
  obtain ⟨own, -, rfl⟩ := Option.map_eq_some_iff.mp hfind
  cases hlive : own.live with
  | false =>
      rw [if_neg Bool.false_ne_true]
      exact hlive
  | true =>
      rw [if_pos rfl]
      rfl

end

/-! ## Counters -/

section
variable {sdk : Sdk} {handle : Handle}

/-- The amounts are those taken and the one held. -/
def Accounted (amounts : List ℚ) (bodies : List Json) (held : Option Counter) : Prop :=
  ∃ taken : List ℚ, bodies.mapM (fun body => number? (some body)) = some taken ∧
    ∃ q, (∀ counter ∈ held, counter.value = .finite q) ∧ (held = none → q = 0) ∧
      amounts.sum = taken.sum + q

theorem Accounted.step {amounts more : List ℚ} {bodies further : List Json}
    {before after : Option Counter} (h : Accounted amounts bodies before)
    (hstep : CounterStep sdk before more further after) :
    Accounted (amounts ++ more) (bodies ++ further) after := by
  obtain ⟨taken, htaken, q, hvalue, hnone, hsum⟩ := h
  cases hstep with
  | kept held =>
      rw [List.append_nil, List.append_nil]
      exact ⟨taken, htaken, q, hvalue, hnone, hsum⟩
  | opened name dims =>
      rw [List.append_nil, List.append_nil]
      refine ⟨taken, htaken, 0, ?_, fun h => (nomatch h), ?_⟩
      · intro counter hcounter
        cases hcounter
        rfl
      · rw [hsum, hnone rfl]
  | added hexact hadd =>
      rename_i held next n
      rw [List.append_nil]
      have hheld := hvalue held rfl
      refine ⟨taken, htaken, q + n, ?_, fun h => (nomatch h), ?_⟩
      · intro counter hcounter
        cases hcounter
        cases hadd
        rw [hheld] at hexact ⊢
        exact of_decide_eq_true hexact
      · rw [List.sum_append, List.sum_singleton, hsum, add_assoc]
  | taken hlive =>
      rename_i held
      have hheld := hvalue held rfl
      refine ⟨taken ++ [q], ?_, 0, ?_, fun h => (nomatch h), ?_⟩
      · rw [List.mapM_append, htaken, hheld]
        rfl
      · intro counter hcounter
        cases hcounter
        rfl
      · rw [List.append_nil, List.sum_append, List.sum_singleton, hsum, add_zero]

theorem counters_abandoned (registry : Registry) (made : Call) :
    (abandoned sdk registry made).counters = registry.counters := by
  unfold abandoned
  split
  · split_ifs <;> rfl
  · rfl

/-- An amount that is not finite is refused before any write. -/
theorem find_add_not_finite (registry : Registry) (target : Handle) {n : JsNumber}
    (hfinite : n.isFinite = false) :
    find (afterCall sdk (.add target n) registry).counters handle =
      find registry.counters handle := by
  cases hcall : call sdk registry (.add target n) with
  | error message =>
      rw [afterCall_error hcall, counters_abandoned]
  | ok next =>
      rw [afterCall_ok hcall]
      unfold call at hcall
      rw [bind_eq_ok_iff] at hcall
      obtain ⟨counters, hrecord, hnext⟩ := hcall
      cases hnext
      cases find_record hrecord handle with
      | inl hkept => exact hkept.1
      | inr hadded =>
          obtain ⟨-, held, next, -, hadd, -⟩ := hadded
          unfold Counter.add at hadd
          rw [hfinite] at hadd
          cases hadd

/-- An amount given through a handle. -/
theorem counterStep_add (registry : Registry) (target : Handle) (n : JsNumber)
    (hexact : Exact sdk handle registry (.add target n)) :
    CounterStep sdk (find registry.counters handle) (added handle registry (.add target n)) []
      (find (afterCall sdk (.add target n) registry).counters handle) := by
  cases n with
  | infinite negative =>
      rw [find_add_not_finite registry target rfl]
      exact .kept _
  | nan =>
      rw [find_add_not_finite registry target rfl]
      exact .kept _
  | finite amount =>
      show CounterStep sdk _ (if target = handle ∧ (find registry.counters handle).isSome
        then [amount] else []) [] _
      cases hrecord : record target (Counter.add sdk.nearest (.finite amount)) registry.counters with
      | error message =>
          obtain ⟨held, -, hadd⟩ := find_record_error hrecord
          cases hadd
      | ok counters =>
          have hcall : call sdk registry (.add target (.finite amount)) =
              .ok { registry with counters := counters } := by
            simp only [call, hrecord]
            rfl
          rw [afterCall_ok hcall]
          cases find_record hrecord handle with
          | inl hkept =>
              rw [if_neg]
              · rw [hkept.1]
                exact .kept _
              · intro hgiven
                rw [hkept.2 hgiven.1.symm] at hgiven
                exact Bool.false_ne_true hgiven.2
          | inr hadded =>
              obtain ⟨rfl, held, next, hheld, hadd, hafter⟩ := hadded
              rw [hafter, hheld, if_pos ⟨rfl, rfl⟩]
              exact .added (hexact rfl held hheld) hadd

theorem counterStep_counter (registry : Registry) (name : String) (dims : JsValue) :
    CounterStep sdk (find registry.counters handle) [] []
      (find (afterCall sdk (.counter name dims) registry).counters handle) := by
  cases hcall : call sdk registry (.counter name dims) with
  | error message =>
      rw [afterCall_error hcall]
      exact .kept _
  | ok next =>
      rw [afterCall_ok hcall]
      unfold call at hcall
      rw [bind_eq_ok_iff] at hcall
      obtain ⟨found, hfound, hnext⟩ := hcall
      cases hnext
      cases find_series hfound handle with
      | inl hsame =>
          rw [hsame]
          exact .kept _
      | inr hnew =>
          obtain ⟨hnone, made, hmade⟩ := hnew
          rw [hnone, hmade]
          exact .opened name made

theorem counterStep_snapshot (registry : Registry) :
    CounterStep sdk (find registry.counters handle) [] (takenCounts handle registry .snapshot)
      (find (afterCall sdk .snapshot registry).counters handle) := by
  have hreset := find_resetLive Counter.live
    (fun counter => { counter with value := .finite 0 }) registry.counters handle
  show CounterStep sdk _ [] (takenCounts handle registry .snapshot) (find (resetLive Counter.live
    (fun counter => { counter with value := .finite 0 }) registry.counters) handle)
  rw [hreset]
  unfold takenCounts
  cases find registry.counters handle with
  | none => exact .kept none
  | some held =>
      cases hlive : held.live with
      | false =>
          simp only [Option.filter, Option.map, hlive]
          exact .kept (some held)
      | true =>
          simp only [Option.filter, Option.map, hlive]
          exact .taken hlive

/-- Every call is a step of the counter. -/
theorem counterStep_afterCall (registry : Registry) (made : Call)
    (hexact : Exact sdk handle registry made) :
    CounterStep sdk (find registry.counters handle) (added handle registry made)
      (takenCounts handle registry made) (find (afterCall sdk made registry).counters handle) := by
  have hkept : (afterCall sdk made registry).counters = registry.counters →
      added handle registry made = [] → takenCounts handle registry made = [] →
      CounterStep sdk (find registry.counters handle) (added handle registry made)
        (takenCounts handle registry made)
        (find (afterCall sdk made registry).counters handle) := by
    intro hsame hadded htaken
    rw [hsame, hadded, htaken]
    exact .kept _
  have hother : ∀ {α : Type} {found : Except String α} {write : α → Registry},
      call sdk registry made = found >>= (fun a => pure (write a)) →
      (∀ a, (write a).counters = registry.counters) →
      (afterCall sdk made registry).counters = registry.counters :=
    fun h hwrite =>
      kept_afterCall Registry.counters h hwrite (counters_abandoned registry made)
  cases made with
  | counter name dims => exact counterStep_counter registry name dims
  | add target n => exact counterStep_add registry target n hexact
  | snapshot => exact counterStep_snapshot registry
  | gauge name dims => exact hkept (hother rfl fun _ => rfl) rfl rfl
  | histogram name a b => exact hkept (hother rfl fun _ => rfl) rfl rfl
  | distinct name dims => exact hkept (hother rfl fun _ => rfl) rfl rfl
  | set target value now => exact hkept (hother rfl fun _ => rfl) rfl rfl
  | observe target value attrs => exact hkept (hother rfl fun _ => rfl) rfl rfl
  | identify target identifier => exact hkept (hother rfl fun _ => rfl) rfl rfl

theorem run_accounted {calls : List Call}
    (hexact : Along (Exact sdk handle) (afterCall sdk) Registry.initial calls) :
    Accounted (outputs (added handle) (afterCall sdk) Registry.initial calls)
      (outputs (takenCounts handle) (afterCall sdk) Registry.initial calls)
      (find (run (afterCall sdk) Registry.initial calls).counters handle) := by
  induction calls using List.reverseRecOn with
  | nil => exact ⟨[], rfl, 0, fun _ h => (nomatch h), fun _ => rfl, (add_zero _).symm⟩
  | append_singleton calls made ih =>
      rw [along_append] at hexact
      rw [outputs_append, outputs_append, run_append]
      have haccounted := (ih hexact.1).step (counterStep_afterCall _ made hexact.2.1)
      simpa only [outputs, run, List.append_nil] using haccounted

end

/-! ## Every series once -/

section
variable {S : Type}

/-- The handles of the series of a map. -/
def handlesOf (map : SeriesMap S) : List Handle :=
  map.entries.flatMap fun entry => entry.2.keys.map fun key => (entry.1, key)

theorem nodup_handlesOf (map : SeriesMap S) : (handlesOf map).Nodup := by
  unfold handlesOf
  rw [List.nodup_flatMap]
  refine ⟨fun entry _ => ?_, ?_⟩
  · exact entry.2.nodup.map fun a b h => congrArg Prod.snd h
  · have hnodup := map.nodup
    rw [List.Nodup, List.pairwise_map] at hnodup
    apply hnodup.imp
    intro a b hne handle ha hb
    obtain ⟨_, _, rfl⟩ := List.mem_map.mp ha
    obtain ⟨_, _, hb⟩ := List.mem_map.mp hb
    exact hne (congrArg Prod.fst hb).symm

/-- The rows of a snapshot are those of the handles, each once. -/
theorem rowsOf_handles (live : S → Bool) (row : S → Json) (map : SeriesMap S) :
    rowsOf live row map = (handlesOf map).flatMap fun handle =>
      ((find map handle).filter live).toList.map row := by
  have hkeys : ∀ (name : String) (byKey : Table String S), map.get name = some byKey →
      ((byKey.values.filter live).map row) =
        (byKey.keys.map fun key => (name, key)).flatMap fun handle =>
          ((find map handle).filter live).toList.map row := by
    intro name byKey hname
    rw [List.flatMap_map]
    unfold Table.values Table.keys
    rw [List.flatMap_map]
    have hentries : ∀ entry ∈ byKey.entries, find map (name, entry.1) = some entry.2 := by
      intro entry hentry
      unfold find
      rw [hname]
      exact (byKey.get_eq_some_iff _ _).mpr hentry
    generalize byKey.entries = entries at hentries
    induction entries with
    | nil => rfl
    | cons entry entries ih =>
        rw [List.map_cons, List.filter_cons, List.flatMap_cons,
          hentries entry List.mem_cons_self,
          ← ih fun later hlater => hentries later (List.mem_cons_of_mem entry hlater)]
        cases hlive : live entry.2 <;> simp [Option.filter, hlive]
  unfold rowsOf seriesOf handlesOf Table.values
  rw [List.flatMap_map, List.flatMap_assoc]
  have hentries : ∀ entry ∈ map.entries, map.get entry.1 = some entry.2 :=
    fun entry hentry => (map.get_eq_some_iff _ _).mpr hentry
  generalize map.entries = entries at hentries
  induction entries with
  | nil => rfl
  | cons entry entries ih =>
      rw [List.flatMap_cons, List.flatMap_cons, List.filter_append, List.map_append,
        ih fun later hlater => hentries later (List.mem_cons_of_mem entry hlater)]
      congr 1
      exact hkeys entry.1 entry.2 (hentries entry List.mem_cons_self)

end

/-! ## Nothing twice and nothing lost -/

/-- The counter's amounts in the snapshots, with a last one, are what was added. -/
def ConservesCounter (sdk : Sdk) (calls : List Call) (handle : Handle) : Prop :=
  ∃ amounts, (outputs (takenCounts handle) (afterCall sdk) Registry.initial
      (calls ++ [.snapshot])).mapM (fun body => number? (some body)) = some amounts ∧
    amounts.sum = (outputs (added handle) (afterCall sdk) Registry.initial calls).sum

/-- The histogram's bodies in the snapshots, with a last one, merge to the body of
the values that were observed. -/
def ConservesHistogram (sdk : Sdk) (calls : List Call) (handle : Handle) (name : String)
    (dimensions : HistoryBucket.Dimensions) : Prop :=
  let values := outputs (observed handle) (afterCall sdk) Registry.initial calls
  ∃ rows, (outputs (takenBodies handle) (afterCall sdk) Registry.initial
      (calls ++ [.snapshot])).mapM (readHistogram name dimensions) = some rows ∧
    ((values = [] ∧ rows = []) ∨ ∃ held body,
      find (run (afterCall sdk) Registry.initial calls).histograms handle = some held ∧
      mergedBody rows = some body ∧ BodyOf held.bounds values body)

section
variable {sdk : Sdk} {handle : Handle}

theorem along_snapshot {ok : Registry → Call → Prop} (hok : ∀ registry, ok registry .snapshot)
    {calls : List Call} (h : Along ok (afterCall sdk) Registry.initial calls) :
    Along ok (afterCall sdk) Registry.initial (calls ++ [.snapshot]) :=
  along_append.mpr ⟨h, hok _, trivial⟩

theorem added_snapshot (calls : List Call) :
    outputs (added handle) (afterCall sdk) Registry.initial (calls ++ [.snapshot]) =
      outputs (added handle) (afterCall sdk) Registry.initial calls := by
  rw [outputs_append]
  exact List.append_nil _

theorem observed_snapshot (calls : List Call) :
    outputs (observed handle) (afterCall sdk) Registry.initial (calls ++ [.snapshot]) =
      outputs (observed handle) (afterCall sdk) Registry.initial calls := by
  rw [outputs_append]
  exact List.append_nil _

theorem conservesCounter {calls : List Call}
    (hexact : Along (Exact sdk handle) (afterCall sdk) Registry.initial calls) :
    ConservesCounter sdk calls handle := by
  obtain ⟨taken, htaken, q, hvalue, hnone, hsum⟩ :=
    run_accounted (along_snapshot (fun _ => trivial) hexact)
  refine ⟨taken, htaken, ?_⟩
  rw [added_snapshot] at hsum
  have hq : q = 0 := by
    rw [run_append] at hvalue hnone
    have hreset := find_resetLive Counter.live
      (fun counter => { counter with value := .finite 0 })
      (run (afterCall sdk) Registry.initial calls).counters handle
    cases hheld : find (run (afterCall sdk) Registry.initial calls).counters handle with
    | none =>
        rw [hheld] at hreset
        exact hnone hreset
    | some held =>
        rw [hheld, Option.map_some] at hreset
        have hzero := hvalue _ hreset
        cases hlive : held.live with
        | true =>
            rw [hlive, if_pos rfl] at hzero
            exact (JsNumber.finite.inj hzero).symm
        | false =>
            rw [hlive, if_neg Bool.false_ne_true] at hzero
            unfold Counter.live at hlive
            rw [hzero] at hlive
            simpa using hlive
  rw [hsum, hq, add_zero]

theorem conservesHistogram {calls : List Call} (name : String)
    (dimensions : HistoryBucket.Dimensions)
    (hexact : Along (Exact sdk handle) (afterCall sdk) Registry.initial calls)
    (hread : Along (ReadableAtMax sdk handle) (afterCall sdk) Registry.initial calls) :
    ConservesHistogram sdk calls handle name dimensions := by
  have hwindowed := @run_windowed sdk handle name dimensions _
    (along_snapshot (fun _ => trivial) hexact) (along_snapshot (fun _ => trivial) hread)
  rw [observed_snapshot, run_append] at hwindowed
  have hreset := find_resetLive Histogram.live Histogram.reset
    (run (afterCall sdk) Registry.initial calls).histograms handle
  have hsnapshot : find (run (afterCall sdk) (run (afterCall sdk) Registry.initial calls)
      [.snapshot]).histograms handle =
      (find (run (afterCall sdk) Registry.initial calls).histograms handle).map fun held =>
        if held.live then held.reset else held := hreset
  unfold ConservesHistogram
  cases hheld : find (run (afterCall sdk) Registry.initial calls).histograms handle with
  | none =>
      rw [hsnapshot, hheld] at hwindowed
      obtain ⟨hvalues, hbodies⟩ := hwindowed.of_none
      rw [hbodies]
      exact ⟨[], rfl, Or.inl ⟨hvalues, rfl⟩⟩
  | some held =>
      rw [hheld, Option.map_some] at hsnapshot
      have hdone := @find_after_snapshot sdk handle (run (afterCall sdk) Registry.initial calls) _
        hsnapshot
      rw [hsnapshot] at hwindowed
      have hbounds : (if held.live then held.reset else held).bounds = held.bounds := by
        split_ifs <;> rfl
      obtain ⟨windows, hvalues, hsorted, htells⟩ := hwindowed.last hdone
      rw [hbounds] at hsorted htells
      obtain ⟨rows, hrows, hbodies⟩ := exists_rows htells
      refine ⟨rows, hrows, ?_⟩
      rw [hvalues]
      cases mergedBody_of hsorted hbodies with
      | inl hnothing => exact Or.inl ⟨by rw [hnothing.2]; rfl, hnothing.1⟩
      | inr hmerged =>
          obtain ⟨body, hbody, htold⟩ := hmerged
          exact Or.inr ⟨held, body, rfl, hbody, htold⟩

end

/-- In a run whose additions are exact and where no value at the maximum of its
window has attributes that throw, the snapshots conserve what every counter and
every histogram was given. A snapshot has the row of each handle once. -/
theorem windows_conserve (sdk : Sdk) (calls : List Call) (handle : Handle) (name : String)
    (dimensions : HistoryBucket.Dimensions)
    (hexact : Along (Exact sdk handle) (afterCall sdk) Registry.initial calls)
    (hread : Along (ReadableAtMax sdk handle) (afterCall sdk) Registry.initial calls) :
    ConservesCounter sdk calls handle ∧ ConservesHistogram sdk calls handle name dimensions ∧
      ∀ registry : Registry,
        (handlesOf registry.counters).Nodup ∧ (handlesOf registry.histograms).Nodup ∧
        registry.snapshot.counters = (handlesOf registry.counters).flatMap (fun handle =>
          ((find registry.counters handle).filter Counter.live).toList.map Counter.row) ∧
        registry.snapshot.histograms = (handlesOf registry.histograms).flatMap (fun handle =>
          ((find registry.histograms handle).filter Histogram.live).toList.map Histogram.row) := by
  refine ⟨conservesCounter hexact, conservesHistogram name dimensions hexact hread, ?_⟩
  intro registry
  exact ⟨nodup_handlesOf _, nodup_handlesOf _, rowsOf_handles _ _ _, rowsOf_handles _ _ _⟩

instance (sdk : Sdk) (handle : Handle) (registry : Registry) :
    ∀ made, Decidable (Exact sdk handle registry made)
  | .add target n => inferInstanceAs (Decidable (target = handle →
      ∀ held ∈ find registry.counters handle, addsExactly sdk.nearest held.value n = true))
  | .observe target value _ => inferInstanceAs (Decidable (target = handle →
      ∀ held ∈ find registry.histograms handle, addsExactly sdk.nearest held.sum value = true))
  | .counter _ _ | .gauge _ _ | .histogram _ _ _ | .distinct _ _ | .set _ _ _ | .identify _ _
  | .snapshot => inferInstanceAs (Decidable True)

instance (sdk : Sdk) (handle : Handle) (registry : Registry) :
    ∀ made, Decidable (ReadableAtMax sdk handle registry made)
  | .observe target value attrs => inferInstanceAs (Decidable (target = handle →
      value.isFinite = true → ∀ held ∈ find registry.histograms handle,
        value.ge held.max = true → attrsReadable sdk attrs = true))
  | .counter _ _ | .gauge _ _ | .histogram _ _ _ | .distinct _ _ | .add _ _ | .set _ _ _
  | .identify _ _ | .snapshot => inferInstanceAs (Decidable True)

/-- Two windows of a histogram. -/
def latencyCalls : List Call :=
  [.histogram "latency" .null .undefined,
    .observe ("latency", "") (.finite 5) (.obj [("order", .str "a")]), .snapshot,
    .observe ("latency", "") (.finite 40) .undefined]

theorem windows_conserve_latency :
    ConservesHistogram shopSdk latencyCalls ("latency", "") "latency" none :=
  (windows_conserve shopSdk latencyCalls ("latency", "") "latency" none (by decide +kernel)
    (by decide +kernel)).2.1

/-- Attributes of an unset value. -/
def unreadableCalls : List Call :=
  [.histogram "latency" .null .undefined,
    .observe ("latency", "") (.finite 5) (.obj [("order", .str "a")]),
    .observe ("latency", "") (.finite 40) (.obj [("order", .undefined)])]

/-- The value is counted and is the maximum, with the exemplar of the smaller one. -/
theorem unreadable_exemplar :
    Along (Exact shopSdk ("latency", "")) (afterCall shopSdk) Registry.initial unreadableCalls ∧
      ¬ ConservesHistogram shopSdk unreadableCalls ("latency", "") "latency" none := by
  refine ⟨by decide +kernel, ?_⟩
  intro h
  obtain ⟨rows, hrows, hconserved⟩ := h
  have hread : (outputs (takenBodies ("latency", "")) (afterCall shopSdk) Registry.initial
      (unreadableCalls ++ [.snapshot])).mapM (readHistogram "latency" none) =
      some [⟨"latency", none, 2, 45, 5, 40, [(10, 1), (100, 0)],
        some ⟨5, .obj [("order", .str "a")]⟩⟩] := by decide +kernel
  rw [hread, Option.some.injEq] at hrows
  rw [← hrows] at hconserved
  rcases hconserved with hnothing | ⟨held, body, -, hbody, htold⟩
  · exact absurd hnothing.2 (List.cons_ne_nil _ _)
  · cases hbody
    have hvalue := htold.exemplar _ rfl
    have hne : (5 : ℚ) ≠ 40 := by norm_num
    exact hne hvalue

end Wardx.MetricsRegistry
