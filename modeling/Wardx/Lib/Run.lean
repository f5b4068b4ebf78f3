import Mathlib.Tactic.TypeStar

/-!
# Runs

A run folds a step function over a list of inputs. `Along` states a condition
on every step of a run, each read in the state the step starts from.

`run_invariant` packages the induction: what every admitted step preserves, an
admitted run preserves. `Along` splits over an append, so a statement about any
two points of a run is one about a prefix and the rest.
-/
namespace Wardx.Lib

universe u v

variable {σ : Type u} {ι : Type v}

/-- The state after the inputs. -/
def run (step : ι → σ → σ) : σ → List ι → σ
  | s, [] => s
  | s, i :: rest => run step (step i s) rest

/-- Every step of the run meets the condition. -/
def Along (ok : σ → ι → Prop) (step : ι → σ → σ) : σ → List ι → Prop
  | _, [] => True
  | s, i :: rest => ok s i ∧ Along ok step (step i s) rest

theorem run_append (step : ι → σ → σ) (s : σ) (xs ys : List ι) :
    run step s (xs ++ ys) = run step (run step s xs) ys := by
  induction xs generalizing s with
  | nil => rfl
  | cons i xs ih => exact ih (step i s)

theorem along_append {ok : σ → ι → Prop} {step : ι → σ → σ} {s : σ} {xs ys : List ι} :
    Along ok step s (xs ++ ys) ↔ Along ok step s xs ∧ Along ok step (run step s xs) ys := by
  induction xs generalizing s with
  | nil => exact ⟨fun h => ⟨trivial, h⟩, And.right⟩
  | cons i xs ih =>
      show ok s i ∧ Along ok step (step i s) (xs ++ ys) ↔ _
      rw [ih, ← and_assoc]
      rfl

/-- What every admitted step preserves holds at the end of an admitted run. -/
theorem run_invariant (P : σ → Prop) {ok : σ → ι → Prop} {step : ι → σ → σ}
    (hstep : ∀ s i, P s → ok s i → P (step i s)) {s : σ} {xs : List ι} (hs : P s)
    (hok : Along ok step s xs) : P (run step s xs) := by
  induction xs generalizing s with
  | nil => exact hs
  | cons i xs ih => exact ih (hstep s i hs hok.1) hok.2

/-- What every step preserves holds at the end of every run. -/
theorem run_invariant_all (P : σ → Prop) {step : ι → σ → σ}
    (hstep : ∀ s i, P s → P (step i s)) {s : σ} (hs : P s) (xs : List ι) : P (run step s xs) := by
  induction xs generalizing s with
  | nil => exact hs
  | cons i xs ih => exact ih (hstep s i hs)

theorem Along.mono {ok ok' : σ → ι → Prop} {step : ι → σ → σ} (h : ∀ s i, ok s i → ok' s i)
    {s : σ} {xs : List ι} (hok : Along ok step s xs) : Along ok' step s xs := by
  induction xs generalizing s with
  | nil => trivial
  | cons i xs ih => exact ⟨h s i hok.1, ih hok.2⟩

theorem along_and {ok ok' : σ → ι → Prop} {step : ι → σ → σ} {s : σ} {xs : List ι} :
    Along (fun s i => ok s i ∧ ok' s i) step s xs ↔ Along ok step s xs ∧ Along ok' step s xs := by
  induction xs generalizing s with
  | nil => exact ⟨fun _ => ⟨trivial, trivial⟩, fun _ => trivial⟩
  | cons i xs ih =>
      show (ok s i ∧ ok' s i) ∧ Along _ step (step i s) xs ↔ _
      rw [ih]
      exact and_and_and_comm

instance Along.decidable {ok : σ → ι → Prop} [∀ s i, Decidable (ok s i)] {step : ι → σ → σ} :
    ∀ (s : σ) (xs : List ι), Decidable (Along ok step s xs)
  | _, [] => isTrue trivial
  | s, i :: rest =>
      match inferInstanceAs (Decidable (ok s i)), Along.decidable (step i s) rest with
      | isTrue h, isTrue h' => isTrue ⟨h, h'⟩
      | isFalse h, _ => isFalse fun hk => h hk.1
      | _, isFalse h' => isFalse fun hk => h' hk.2

/-! ## What a run puts out -/

variable {β : Type*}

/-- The outputs of the steps, each read in the state the step starts from. -/
def outputs (out : σ → ι → List β) (step : ι → σ → σ) : σ → List ι → List β
  | _, [] => []
  | s, i :: rest => out s i ++ outputs out step (step i s) rest

theorem outputs_append (out : σ → ι → List β) (step : ι → σ → σ) (s : σ) (xs ys : List ι) :
    outputs out step s (xs ++ ys) = outputs out step s xs ++ outputs out step (run step s xs) ys := by
  induction xs generalizing s with
  | nil => rfl
  | cons i xs ih =>
      show out s i ++ outputs out step (step i s) (xs ++ ys) = _
      rw [ih, ← List.append_assoc]
      rfl

/-- What holds of the state and the outputs so far, and every admitted step keeps. -/
theorem outputs_invariant_along (P : List β → σ → Prop) (out : σ → ι → List β)
    {ok : σ → ι → Prop} {step : ι → σ → σ}
    (hstep : ∀ seen s i, P seen s → ok s i → P (seen ++ out s i) (step i s)) {s : σ} (hs : P [] s)
    {xs : List ι} (hok : Along ok step s xs) : P (outputs out step s xs) (run step s xs) := by
  have key : ∀ seen s, P seen s → Along ok step s xs →
      P (seen ++ outputs out step s xs) (run step s xs) := by
    clear hs hok
    induction xs with
    | nil =>
        intro seen s h _
        show P (seen ++ []) s
        rw [List.append_nil]
        exact h
    | cons i xs ih =>
        intro seen s h hok
        have hrest := ih _ _ (hstep seen s i h hok.1) hok.2
        rw [List.append_assoc] at hrest
        exact hrest
  exact key [] s hs hok

theorem along_true (step : ι → σ → σ) (s : σ) (xs : List ι) :
    Along (fun _ _ => True) step s xs := by
  induction xs generalizing s with
  | nil => trivial
  | cons i xs ih => exact ⟨trivial, ih (step i s)⟩

/-- What holds of the state and the outputs so far, and every step keeps. -/
theorem outputs_invariant (P : List β → σ → Prop) (out : σ → ι → List β) {step : ι → σ → σ}
    (hstep : ∀ seen s i, P seen s → P (seen ++ out s i) (step i s)) {s : σ} (hs : P [] s)
    (xs : List ι) : P (outputs out step s xs) (run step s xs) :=
  outputs_invariant_along P out (fun seen s i h _ => hstep seen s i h) hs (along_true step s xs)

end Wardx.Lib
