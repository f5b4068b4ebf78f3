import Wardx.Lib.Thresholds
import Wardx.Core.ExperimentResolver

/-!
# How an experiment splits the hashes among its variants

The bucket of a subject is its hash as a fraction of all the hashes. The loop
of `assignVariant` is then a search among cumulative thresholds, and each
variant has the hashes between its two bounds.
-/
namespace Wardx.Core

open Lib Json Control Config

/-- The hash of a subject for the experiment. -/
def hashFor (experiment : Json) (subjectId : String) : ℕ :=
  assignmentHash (propertyKey (experiment.get? "id")) subjectId
    (propertyKey (experiment.get? "salt"))

/-- `assignVariant` of a subject that has the hash. -/
def assignHash (experiment : Json) (hash : ℕ) : Except String (Option Json) :=
  let id := propertyKey (experiment.get? "id")
  let bucket := hashToUnitInterval hash
  if !truthy (experiment.get? "enabled") || decide (allocationOf experiment ≤ bucket) then .ok none
  else do
    let variants := variantsOf experiment
    require (variants ≠ []) ("experiment " ++ id ++ " has no variants")
    checkAll (fun variant => require (numberWith (fun q => 0 ≤ q) (variant.get? "weight"))
      ("experiment " ++ id ++ " has invalid variant weight")) variants
    let totalWeight := (variants.map weightOf).sum
    require (0 < totalWeight) ("experiment " ++ id ++ " variant weights must sum to > 0")
    pure ((variantBelow bucket (allocationOf experiment) totalWeight 0 variants).or
      variants.getLast?)

theorem assignVariant_eq (experiment : Json) (subjectId : String) :
    assignVariant experiment subjectId = assignHash experiment (hashFor experiment subjectId) :=
  rfl

theorem uint32_pos : 0 < uint32 := by decide

theorem fnv1a32_lt (input : String) : fnv1a32 input < uint32 := by
  unfold fnv1a32
  induction input.toUTF8.toList using List.reverseRecOn with
  | nil => decide
  | append_singleton bytes byte ih =>
      rw [List.foldl_append, List.foldl_cons, List.foldl_nil]
      exact Nat.mod_lt _ uint32_pos

theorem hashFor_lt (experiment : Json) (subjectId : String) :
    hashFor experiment subjectId < uint32 := fnv1a32_lt _

/-! ## The thresholds -/

def totalWeightOf (experiment : Json) : ℚ := ((variantsOf experiment).map weightOf).sum

/-- What a variant adds to the threshold. -/
def shareOf (experiment variant : Json) : ℚ :=
  weightOf variant / totalWeightOf experiment * allocationOf experiment

def sharesOf (experiment : Json) : List ℚ := (variantsOf experiment).map (shareOf experiment)

/-- The position at which the loop of `assignVariant` returns. -/
def positionFor (experiment : Json) (hash : ℕ) : Option ℕ :=
  firstAbove (hashToUnitInterval hash) 0 (sharesOf experiment)

theorem variantBelow_eq (bucket allocation totalWeight threshold : ℚ) (variants : List Json) :
    variantBelow bucket allocation totalWeight threshold variants =
      (firstAbove bucket threshold
        (variants.map fun variant => weightOf variant / totalWeight * allocation)).bind
        fun position => variants[position]? := by
  induction variants generalizing threshold with
  | nil => rfl
  | cons variant rest ih =>
      simp only [variantBelow, List.map_cons, firstAbove]
      split_ifs with hbelow
      · rfl
      · rw [ih]
        cases firstAbove bucket (threshold + weightOf variant / totalWeight * allocation)
          (rest.map fun variant => weightOf variant / totalWeight * allocation) <;> rfl

/-- An enabled experiment with an allocation and weights that can be shared out. -/
structure Splits (experiment : Json) : Prop where
  enabled : truthy (experiment.get? "enabled") = true
  allocation : ∃ a : ℚ, experiment.get? "allocation" = some (.num a) ∧ 0 ≤ a ∧ a ≤ 1
  weights : ∀ variant ∈ variantsOf experiment,
    ∃ w : ℚ, variant.get? "weight" = some (.num w) ∧ 0 ≤ w
  total : 0 < totalWeightOf experiment

variable {experiment : Json}

theorem Splits.allocation_nonneg (h : Splits experiment) : 0 ≤ allocationOf experiment := by
  obtain ⟨a, ha, hnonneg, -⟩ := h.allocation
  simpa [allocationOf, ha, number?] using hnonneg

theorem Splits.allocation_le_one (h : Splits experiment) : allocationOf experiment ≤ 1 := by
  obtain ⟨a, ha, -, hone⟩ := h.allocation
  simpa [allocationOf, ha, number?] using hone

theorem Splits.weight_nonneg (h : Splits experiment) {variant : Json}
    (hmem : variant ∈ variantsOf experiment) : 0 ≤ weightOf variant := by
  obtain ⟨w, hw, hnonneg⟩ := h.weights variant hmem
  simpa [weightOf, hw, number?] using hnonneg

theorem Splits.shares_nonneg (h : Splits experiment) : ∀ share ∈ sharesOf experiment, 0 ≤ share := by
  intro share hshare
  obtain ⟨variant, hmem, rfl⟩ := List.mem_map.mp hshare
  exact mul_nonneg (div_nonneg (h.weight_nonneg hmem) h.total.le) h.allocation_nonneg

/-- The shares add up to the allocation. -/
theorem Splits.shares_sum (h : Splits experiment) :
    (sharesOf experiment).sum = allocationOf experiment := by
  have hmap : sharesOf experiment = (variantsOf experiment).map fun variant =>
      weightOf variant * (allocationOf experiment / totalWeightOf experiment) := by
    unfold sharesOf
    apply List.map_congr_left
    intro variant _
    rw [shareOf, div_mul_eq_mul_div, mul_div_assoc]
  have htotal : totalWeightOf experiment ≠ 0 := h.total.ne'
  rw [hmap, List.sum_map_mul_right]
  exact mul_div_cancel₀ _ htotal

theorem Splits.checked (h : Splits experiment) (message : String) :
    checkAll (fun variant => require (numberWith (fun q => 0 ≤ q) (variant.get? "weight")) message)
      (variantsOf experiment) = .ok () := by
  rw [checkAll_eq_ok_iff]
  intro variant hmem
  obtain ⟨w, hw, hnonneg⟩ := h.weights variant hmem
  rw [require_eq_ok_iff]
  simp [numberWith, hw, number?, hnonneg]

theorem Splits.variants_ne_nil (h : Splits experiment) : variantsOf experiment ≠ [] := by
  intro hnil
  have htotal := h.total
  simp [totalWeightOf, hnil] at htotal

theorem Splits.positionFor_eq_none_iff (h : Splits experiment) (hash : ℕ) :
    positionFor experiment hash = none ↔
      allocationOf experiment ≤ hashToUnitInterval hash := by
  have hbucket : (0 : ℚ) ≤ hashToUnitInterval hash := by
    unfold hashToUnitInterval
    positivity
  rw [positionFor, firstAbove_eq_none_iff h.shares_nonneg hbucket, h.shares_sum, zero_add]

/-- Below the allocation the loop returns at a position. -/
theorem Splits.exists_position (h : Splits experiment) {hash : ℕ}
    (hin : hashToUnitInterval hash < allocationOf experiment) :
    ∃ position < (variantsOf experiment).length, positionFor experiment hash = some position := by
  have hsome : positionFor experiment hash ≠ none := by
    rw [ne_eq, h.positionFor_eq_none_iff, not_le]
    exact hin
  obtain ⟨position, hposition⟩ := Option.ne_none_iff_exists'.mp hsome
  refine ⟨position, ?_, hposition⟩
  simpa [sharesOf] using firstAbove_lt_length hposition

/-- The call returns the variant at the position, which the loop always finds. -/
theorem Splits.assignHash_eq (h : Splits experiment) (hash : ℕ) :
    assignHash experiment hash =
      .ok ((positionFor experiment hash).bind fun position =>
        (variantsOf experiment)[position]?) := by
  by_cases hout : allocationOf experiment ≤ hashToUnitInterval hash
  · rw [(h.positionFor_eq_none_iff hash).mpr hout]
    simp [assignHash, hout]
  · obtain ⟨position, hlt, hposition⟩ := h.exists_position (not_le.mp hout)
    have hbelow : variantBelow (hashToUnitInterval hash) (allocationOf experiment)
        (totalWeightOf experiment) 0 (variantsOf experiment) =
        (variantsOf experiment)[position]? := by
      rw [variantBelow_eq]
      change (positionFor experiment hash).bind _ = _
      rw [hposition]
      rfl
    have hskip : (!truthy (experiment.get? "enabled") ||
        decide (allocationOf experiment ≤ hashToUnitInterval hash)) = false := by
      simp [h.enabled, hout]
    have hvariants : require (decide (variantsOf experiment ≠ []))
        ("experiment " ++ propertyKey (experiment.get? "id") ++ " has no variants") = .ok () := by
      rw [require_eq_ok_iff]
      exact decide_eq_true h.variants_ne_nil
    have htotal : require (decide (0 < totalWeightOf experiment)) ("experiment " ++
        propertyKey (experiment.get? "id") ++ " variant weights must sum to > 0") = .ok () := by
      rw [require_eq_ok_iff]
      exact decide_eq_true h.total
    unfold totalWeightOf at htotal hbelow
    simp only [assignHash, hskip, Bool.false_eq_true, if_false, bind_eq_ok_iff]
    refine ⟨(), hvariants, (), h.checked _, (), htotal, ?_⟩
    rw [hbelow, hposition, Option.bind_some, List.getElem?_eq_getElem hlt, Option.some_or]
    rfl

/-! ## The hashes of a variant -/

/-- The least hash past the variants before the position. -/
def boundOf (experiment : Json) (position : ℕ) : ℕ :=
  wholeBound uint32 ((sharesOf experiment).take position).sum

theorem Splits.take_sum_nonneg (h : Splits experiment) (position : ℕ) :
    0 ≤ ((sharesOf experiment).take position).sum :=
  List.sum_nonneg fun share hshare => h.shares_nonneg share (List.mem_of_mem_take hshare)

theorem take_succ_sum {position : ℕ} {variant : Json}
    (hvariant : (variantsOf experiment)[position]? = some variant) :
    ((sharesOf experiment).take (position + 1)).sum =
      ((sharesOf experiment).take position).sum + shareOf experiment variant := by
  rw [List.take_add_one, List.sum_append, sharesOf, List.getElem?_map, hvariant]
  simp

theorem Splits.positionFor_eq_some_iff (h : Splits experiment) {position : ℕ}
    (hposition : position < (variantsOf experiment).length) (hash : ℕ) :
    positionFor experiment hash = some position ↔
      boundOf experiment position ≤ hash ∧ hash < boundOf experiment (position + 1) := by
  have hbucket : (0 : ℚ) ≤ hashToUnitInterval hash := by
    unfold hashToUnitInterval
    positivity
  have hlength : position < (sharesOf experiment).length := by simpa [sharesOf] using hposition
  rw [positionFor, firstAbove_eq_some_iff h.shares_nonneg hbucket hlength, zero_add, zero_add,
    boundOf, boundOf, wholeBound_le_iff uint32_pos, lt_wholeBound_iff uint32_pos, hashToUnitInterval]

theorem Splits.boundOf_mono (h : Splits experiment) : Monotone (boundOf experiment) := by
  apply monotone_nat_of_le_succ
  intro position
  apply wholeBound_mono
  rw [List.take_add_one, List.sum_append]
  apply le_add_of_nonneg_right
  apply List.sum_nonneg
  intro share hshare
  rw [Option.mem_toList] at hshare
  exact h.shares_nonneg share (List.mem_of_getElem? hshare)

theorem Splits.boundOf_le (h : Splits experiment) (position : ℕ) :
    boundOf experiment position ≤ uint32 := by
  have hsum : ((sharesOf experiment).take position).sum ≤ 1 := by
    have hall := h.shares_sum
    rw [← List.take_append_drop position (sharesOf experiment), List.sum_append] at hall
    have hrest : 0 ≤ ((sharesOf experiment).drop position).sum :=
      List.sum_nonneg fun share hshare => h.shares_nonneg share (List.mem_of_mem_drop hshare)
    have hone := h.allocation_le_one
    linarith
  calc
    boundOf experiment position ≤ wholeBound uint32 (1 : ℚ) := wholeBound_mono hsum
    _ = uint32 := wholeBound_one uint32

/-- The hashes for which the loop returns at the position. -/
def hashesOf (experiment : Json) (position : ℕ) : Set ℕ :=
  {hash | hash < uint32 ∧ positionFor experiment hash = some position}

theorem Splits.hashesOf_eq (h : Splits experiment) {position : ℕ}
    (hposition : position < (variantsOf experiment).length) :
    hashesOf experiment position =
      Set.Ico (boundOf experiment position) (boundOf experiment (position + 1)) := by
  ext hash
  have hbound := h.boundOf_le (position + 1)
  simp only [hashesOf, Set.mem_ofPred_eq, Set.mem_Ico, h.positionFor_eq_some_iff hposition]
  omega

/-- A variant's share of all the hashes is what it has, within one. -/
theorem Splits.size (h : Splits experiment) {position : ℕ} {variant : Json}
    (hvariant : (variantsOf experiment)[position]? = some variant) :
    |((hashesOf experiment position).ncard : ℚ) -
      uint32 * allocationOf experiment * weightOf variant / totalWeightOf experiment| < 1 := by
  have hlt := (List.getElem?_eq_some_iff.mp hvariant).1
  have hcard : ((hashesOf experiment position).ncard : ℚ) =
      (boundOf experiment (position + 1) : ℚ) - boundOf experiment position := by
    rw [h.hashesOf_eq hlt, ← Finset.coe_Ico, Set.ncard_coe_finset, Nat.card_Ico,
      Nat.cast_sub (h.boundOf_mono (Nat.le_succ position))]
  have hshare : (uint32 : ℚ) * (((sharesOf experiment).take (position + 1)).sum -
      ((sharesOf experiment).take position).sum) =
      uint32 * allocationOf experiment * weightOf variant / totalWeightOf experiment := by
    rw [take_succ_sum hvariant, add_sub_cancel_left, shareOf]
    ring
  rw [hcard, ← hshare]
  exact abs_wholeBound_sub_lt (h.take_sum_nonneg position) (h.take_sum_nonneg (position + 1))

/-- A variant of weight 0 has no hash. -/
theorem Splits.weight_ne_zero (h : Splits experiment) {position hash : ℕ} {variant : Json}
    (hvariant : (variantsOf experiment)[position]? = some variant)
    (hposition : positionFor experiment hash = some position) : weightOf variant ≠ 0 := by
  intro hzero
  have hlt := (List.getElem?_eq_some_iff.mp hvariant).1
  rw [h.positionFor_eq_some_iff hlt] at hposition
  have hsame : boundOf experiment (position + 1) = boundOf experiment position := by
    rw [boundOf, take_succ_sum hvariant, shareOf, hzero, zero_div, zero_mul, add_zero, boundOf]
  omega

theorem Splits.assignHash_none_iff (h : Splits experiment) (hash : ℕ) :
    assignHash experiment hash = .ok none ↔
      allocationOf experiment ≤ hashToUnitInterval hash := by
  rw [h.assignHash_eq, ← h.positionFor_eq_none_iff]
  cases hposition : positionFor experiment hash with
  | none => simp
  | some position =>
      have hlt : position < (variantsOf experiment).length := by
        simpa [sharesOf] using firstAbove_lt_length hposition
      simp [List.getElem?_eq_getElem hlt]

/-- Below the allocation some threshold is above the bucket. -/
theorem Splits.variantBelow_isSome (h : Splits experiment) {hash : ℕ}
    (hin : hashToUnitInterval hash < allocationOf experiment) :
    (variantBelow (hashToUnitInterval hash) (allocationOf experiment) (totalWeightOf experiment) 0
      (variantsOf experiment)).isSome = true := by
  obtain ⟨position, hlt, hposition⟩ := h.exists_position hin
  rw [variantBelow_eq]
  change ((positionFor experiment hash).bind _).isSome = true
  rw [hposition, Option.bind_some, List.getElem?_eq_getElem hlt]
  rfl

/-- Every subject has one of the hashes. Those at or past the allocation have no
variant, a variant of weight 0 has none of them, and the variant at a position
has the interval between its bounds, as long as its weight says within one. The
last variant is never the fallback. -/
theorem variants_split_hashes (experiment : Json) (h : Splits experiment) :
    (∀ subjectId, assignVariant experiment subjectId =
        assignHash experiment (hashFor experiment subjectId) ∧
      hashFor experiment subjectId < uint32) ∧
    (∀ hash < uint32,
      (assignHash experiment hash = .ok none ↔ allocationOf experiment ≤ (hash : ℚ) / uint32) ∧
      (∀ variant, assignHash experiment hash = .ok (some variant) → weightOf variant ≠ 0) ∧
      (∀ position variant, (variantsOf experiment)[position]? = some variant →
        hash ∈ hashesOf experiment position → assignHash experiment hash = .ok (some variant)) ∧
      ((hash : ℚ) / uint32 < allocationOf experiment →
        (∃ position < (variantsOf experiment).length, hash ∈ hashesOf experiment position) ∧
        (variantBelow (hashToUnitInterval hash) (allocationOf experiment)
          (totalWeightOf experiment) 0 (variantsOf experiment)).isSome = true)) ∧
    ∀ position variant, (variantsOf experiment)[position]? = some variant →
      (∃ first past : ℕ, hashesOf experiment position = Set.Ico first past) ∧
      |((hashesOf experiment position).ncard : ℚ) -
        uint32 * allocationOf experiment * weightOf variant / totalWeightOf experiment| < 1 := by
  refine ⟨fun subjectId => ⟨assignVariant_eq experiment subjectId, hashFor_lt _ _⟩,
    fun hash hhash => ⟨h.assignHash_none_iff hash, ?_, ?_, ?_⟩, ?_⟩
  · intro variant hassigned
    rw [h.assignHash_eq, Except.ok.injEq, Option.bind_eq_some_iff] at hassigned
    obtain ⟨position, hposition, hvariant⟩ := hassigned
    exact h.weight_ne_zero hvariant hposition
  · intro position variant hvariant hmem
    rw [h.assignHash_eq, hmem.2, Option.bind_some, hvariant]
  · intro hin
    refine ⟨?_, h.variantBelow_isSome hin⟩
    obtain ⟨position, hlt, hposition⟩ := h.exists_position hin
    exact ⟨position, hlt, hhash, hposition⟩
  · intro position variant hvariant
    have hlt := (List.getElem?_eq_some_iff.mp hvariant).1
    exact ⟨⟨_, _, h.hashesOf_eq hlt⟩, h.size hvariant⟩

/-- Half of the subjects, one in three of them with the first variant. -/
def halfExperiment : Json :=
  .obj [("id", .str "checkout"), ("salt", .str "s"), ("enabled", .bool true),
    ("allocation", .num (1 / 2)), ("variants", .arr
      [.obj [("key", .str "control"), ("weight", .num 1)],
        .obj [("key", .str "off"), ("weight", .num 0)],
        .obj [("key", .str "treatment"), ("weight", .num 2)]])]

theorem halfExperiment_splits : Splits halfExperiment where
  enabled := by decide
  allocation := ⟨1 / 2, by decide +kernel, by norm_num, by norm_num⟩
  weights := by
    intro variant hmem
    have hvariants : variantsOf halfExperiment = [.obj [("key", .str "control"), ("weight", .num 1)],
        .obj [("key", .str "off"), ("weight", .num 0)],
        .obj [("key", .str "treatment"), ("weight", .num 2)]] := rfl
    rw [hvariants] at hmem
    simp only [List.mem_cons, List.not_mem_nil, or_false] at hmem
    rcases hmem with rfl | rfl | rfl
    · exact ⟨1, rfl, by norm_num⟩
    · exact ⟨0, rfl, by norm_num⟩
    · exact ⟨2, rfl, by norm_num⟩
  total := by decide +kernel

theorem halfExperiment_split :
    assignHash halfExperiment 2147483648 = .ok none ∧
      ∃ first past : ℕ, hashesOf halfExperiment 0 = Set.Ico first past := by
  have hsplit := variants_split_hashes halfExperiment halfExperiment_splits
  have hall : allocationOf halfExperiment ≤ ((2147483648 : ℕ) : ℚ) / uint32 := by decide +kernel
  refine ⟨((hsplit.2.1 2147483648 (by decide)).1).mpr hall, ?_⟩
  exact (hsplit.2.2 0 (.obj [("key", .str "control"), ("weight", .num 1)]) rfl).1

end Wardx.Core
