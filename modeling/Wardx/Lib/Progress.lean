import Wardx.Lib.Run
import Mathlib.Data.Nat.Notation
import Mathlib.Logic.Basic

/-!
# Progress

Steps that each take from a measure come to an end, in whatever order they are
taken. What a system owes is then read off the states where no step is left.
-/
namespace Wardx.Lib

universe u v

variable {σ : Type u} {ι : Type v}

/-- A condition on the inputs alone holds along a run of them. -/
theorem along_of_forall {ok : ι → Prop} (step : ι → σ → σ) {xs : List ι} (h : ∀ i ∈ xs, ok i) (s : σ) :
    Along (fun _ i => ok i) step s xs := by
  induction xs generalizing s with
  | nil => trivial
  | cons i xs ih =>
      exact ⟨h i List.mem_cons_self, ih (fun j hj => h j (List.mem_cons_of_mem i hj)) (step i s)⟩

/-- No step that meets the condition is left. -/
def Quiet (ok : σ → ι → Prop) (s : σ) : Prop := ∀ i, ¬ ok s i

section
variable {ok : σ → ι → Prop} {step : ι → σ → σ} {work : σ → ℕ}

/-- Steps that each take from the work are at most as many as it. -/
theorem length_le_work (hwork : ∀ s i, ok s i → work (step i s) < work s) {s : σ} {xs : List ι}
    (hok : Along ok step s xs) : xs.length ≤ work s := by
  induction xs generalizing s with
  | nil => exact Nat.zero_le _
  | cons i xs ih =>
      have hrest : xs.length ≤ work (step i s) := ih hok.2
      have hlt : work (step i s) < work s := hwork s i hok.1
      show xs.length + 1 ≤ work s
      omega

/-- Such steps can be taken until none is left. -/
theorem exists_quiet (hwork : ∀ s i, ok s i → work (step i s) < work s) (s : σ) :
    ∃ xs, Along ok step s xs ∧ Quiet ok (run step s xs) := by
  induction hn : work s using Nat.strongRecOn generalizing s with
  | ind n ih =>
      by_cases hquiet : Quiet ok s
      · exact ⟨[], trivial, hquiet⟩
      · obtain ⟨i, hi⟩ := not_forall_not.mp hquiet
        obtain ⟨xs, hok, hend⟩ := ih _ (hn ▸ hwork s i hi) (step i s) rfl
        exact ⟨i :: xs, ⟨hi, hok⟩, hend⟩

end

end Wardx.Lib
