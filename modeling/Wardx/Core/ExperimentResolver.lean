import Wardx.Config.ConfigRepository

/-!
# Resolving a config key on the client

A client that knows its subject looks for the first enabled experiment that
carries the key and assigns the subject a variant with it; without one the
key's own value is used. The variant is read off the experiment each time, so
what the resolver remembers of earlier assignments and exposures does not
decide the value and is not part of this module.
-/
namespace Wardx.Core

open Lib Json Control Config

/-! ## Hashes -/

/-- `FNV_OFFSET_32`. -/
def fnvOffset : ℕ := 0x811c9dc5

/-- `FNV_PRIME_32`. -/
def fnvPrime : ℕ := 0x01000193

def uint32 : ℕ := 4294967296

/-- `fnv1a32` of a text. -/
def fnv1a32 (input : String) : ℕ :=
  input.toUTF8.toList.foldl (fun hash byte => (hash ^^^ byte.toNat) * fnvPrime % uint32) fnvOffset

def hashToUnitInterval (hash : ℕ) : ℚ := hash / uint32

def assignmentHash (experimentId subjectId salt : String) : ℕ :=
  fnv1a32 (experimentId ++ ":" ++ subjectId ++ ":" ++ salt)

/-! ## Variants -/

def weightOf (variant : Json) : ℚ := (number? (variant.get? "weight")).getD 0

def allocationOf (experiment : Json) : ℚ := (number? (experiment.get? "allocation")).getD 0

def variantsOf (experiment : Json) : List Json := items (experiment.get? "variants")

/-- The loop over the thresholds: the first one above the bucket. -/
def variantBelow (bucket allocation totalWeight : ℚ) : ℚ → List Json → Option Json
  | _, [] => none
  | threshold, variant :: rest =>
      let threshold := threshold + weightOf variant / totalWeight * allocation
      if bucket < threshold then some variant
      else variantBelow bucket allocation totalWeight threshold rest

/-- `assignVariant`. -/
def assignVariant (experiment : Json) (subjectId : String) : Except String (Option Json) :=
  let id := propertyKey (experiment.get? "id")
  let bucket := hashToUnitInterval
    (assignmentHash id subjectId (propertyKey (experiment.get? "salt")))
  if !truthy (experiment.get? "enabled") || decide (allocationOf experiment ≤ bucket) then .ok none
  else do
    let variants := variantsOf experiment
    require (variants ≠ []) ("experiment " ++ id ++ " has no variants")
    checkAll (fun variant => require (numberWith (fun q => 0 ≤ q) (variant.get? "weight"))
      ("experiment " ++ id ++ " has invalid variant weight")) variants
    let totalWeight := (variants.map weightOf).sum
    require (0 < totalWeight) ("experiment " ++ id ++ " variant weights must sum to > 0")
    pure ((variantBelow bucket (allocationOf experiment) totalWeight 0 variants).or
      variants.getLast?)

/-- The value a variant has for a key. -/
def variantValue (variant : Json) (key : String) : Option Json :=
  (child variant "values").get? key

/-- The entry of `indexExperimentsByKey` under a key. -/
def experimentsByKey (experiments : List Json) (key : String) : List Json :=
  experiments.filter fun experiment => truthy (experiment.get? "enabled") &&
    (variantsOf experiment).any fun variant => (variantValue variant key).isSome

/-! ## Values -/

/-- The loop of `resolve`. -/
def resolveAmong (key : String) (remoteValue : Json) (subjectId : String) :
    List Json → Except String Json
  | [] => .ok remoteValue
  | experiment :: rest => do
      let variant ← assignVariant experiment subjectId
      match variant.bind fun variant => variantValue variant key with
      | some value => pure value
      | none => resolveAmong key remoteValue subjectId rest

/-- `resolve`. -/
def resolve (key : String) (remoteValue : Json) (subjectId : Option String)
    (experiments : List Json) : Except String Json :=
  match subjectId with
  | none => .ok remoteValue
  | some subjectId => resolveAmong key remoteValue subjectId (experimentsByKey experiments key)

/-- `configGet`; `none` is the caller's fallback. -/
def configGet (config : WireConfig) (key : String) (subjectId : Option String) :
    Except String (Option Json) :=
  match config.values.lookup key with
  | none => .ok none
  | some remote => do
      let value ← resolve key remote subjectId config.experiments
      pure (some value)

/-! ## Where a value comes from -/

theorem mem_of_variantBelow {bucket allocation totalWeight threshold : ℚ} {variants : List Json}
    {variant : Json}
    (h : variantBelow bucket allocation totalWeight threshold variants = some variant) :
    variant ∈ variants := by
  induction variants generalizing threshold with
  | nil => cases h
  | cons first rest ih =>
      unfold variantBelow at h
      dsimp only at h
      split_ifs at h
      · cases h
        exact List.mem_cons_self
      · exact List.mem_cons_of_mem first (ih h)

/-- Only an enabled experiment assigns, and only one of its variants. -/
theorem assignVariant_some {experiment variant : Json} {subjectId : String}
    (h : assignVariant experiment subjectId = .ok (some variant)) :
    truthy (experiment.get? "enabled") = true ∧ variant ∈ variantsOf experiment := by
  unfold assignVariant at h
  dsimp only at h
  split_ifs at h with hskip
  · cases h
  · have henabled : truthy (experiment.get? "enabled") = true := by
      rw [Bool.or_eq_true, not_or] at hskip
      simpa using hskip.1
    refine ⟨henabled, ?_⟩
    simp only [bind_eq_ok_iff, pure, Except.pure, Except.ok.injEq] at h
    obtain ⟨_, _, _, _, _, _, hvariant⟩ := h
    rw [Option.or_eq_some_iff] at hvariant
    rcases hvariant with hbelow | ⟨_, hlast⟩
    · exact mem_of_variantBelow hbelow
    · exact List.mem_of_getLast? hlast

/-- A value among experiments is the key's own or that of an enabled one's variant. -/
theorem resolveAmong_source {key subjectId : String} {remote value : Json}
    {experiments : List Json} (h : resolveAmong key remote subjectId experiments = .ok value) :
    value = remote ∨ ∃ experiment ∈ experiments, truthy (experiment.get? "enabled") = true ∧
      ∃ variant ∈ variantsOf experiment, variantValue variant key = some value := by
  induction experiments with
  | nil =>
      cases h
      exact Or.inl rfl
  | cons experiment rest ih =>
      unfold resolveAmong at h
      rw [bind_eq_ok_iff] at h
      obtain ⟨assigned, hassigned, hvalue⟩ := h
      split at hvalue
      · rename_i own hown
        cases hvalue
        obtain ⟨variant, rfl, hvariant⟩ := Option.bind_eq_some_iff.mp hown
        obtain ⟨henabled, hmem⟩ := assignVariant_some hassigned
        exact Or.inr ⟨experiment, List.mem_cons_self, henabled, variant, hmem, hvariant⟩
      · rcases ih hvalue with hremote | ⟨later, hlater, hsource⟩
        · exact Or.inl hremote
        · exact Or.inr ⟨later, List.mem_cons_of_mem experiment hlater, hsource⟩

/-- A key resolves to its own value or to that of an enabled experiment's variant. -/
theorem configGet_source {config : WireConfig} {key : String} {subjectId : Option String}
    {value : Json} (h : configGet config key subjectId = .ok (some value)) :
    config.values.lookup key = some value ∨
      ∃ experiment ∈ config.experiments, truthy (experiment.get? "enabled") = true ∧
        ∃ variant ∈ variantsOf experiment, variantValue variant key = some value := by
  unfold configGet at h
  split at h
  · cases h
  · rename_i remote hremote
    simp only [bind_eq_ok_iff, pure, Except.pure, Except.ok.injEq, Option.some.injEq] at h
    obtain ⟨resolved, hresolved, rfl⟩ := h
    unfold resolve at hresolved
    split at hresolved
    · cases hresolved
      exact Or.inl hremote
    · rcases resolveAmong_source hresolved with rfl | ⟨experiment, hmem, hsource⟩
      · exact Or.inl hremote
      · exact Or.inr ⟨experiment, (List.mem_filter.mp hmem).1, hsource⟩

end Wardx.Core
