import Wardx.Lib.Check
import Wardx.Lib.Run

/-!
# Runs in lockstep

Two runs over the same inputs stay related when every step keeps the relation.
When the relation also relates a state to the one after a quiet step, the quiet
inputs can be erased: the run without them ends in a related state and puts out
the same.

The same holds of the inputs of others, when a relation says what one owner can
see: own inputs keep it, the inputs of others do not touch it.
-/
namespace Wardx.Lib

universe u v w

/-! ## Computations that end alike -/

section
variable {ε : Type u} {α β γ δ : Type v}

/-- Both stop with one error, or end in related values. -/
def EndsAlike (R : α → β → Prop) : Except ε α → Except ε β → Prop
  | .ok a, .ok b => R a b
  | .error e, .error f => e = f
  | _, _ => False

theorem endsAlike_of_eq {R : α → α → Prop} (hrefl : ∀ a, R a a) (x : Except ε α) :
    EndsAlike R x x := by
  cases x with
  | error e => exact rfl
  | ok a => exact hrefl a

theorem EndsAlike.bind {R : α → β → Prop} {S : γ → δ → Prop} {x : Except ε α} {y : Except ε β}
    (h : EndsAlike R x y) {f : α → Except ε γ} {g : β → Except ε δ}
    (hfg : ∀ a b, R a b → EndsAlike S (f a) (g b)) : EndsAlike S (x >>= f) (y >>= g) := by
  cases x with
  | error e =>
      cases y with
      | error f => exact h
      | ok b => exact h.elim
  | ok a =>
      cases y with
      | error f => exact h.elim
      | ok b => exact hfg a b h

/-- The same check before both. -/
theorem EndsAlike.after {S : γ → δ → Prop} (check : Except ε α) {f : α → Except ε γ}
    {g : α → Except ε δ} (h : ∀ a, EndsAlike S (f a) (g a)) :
    EndsAlike S (check >>= f) (check >>= g) :=
  EndsAlike.bind (endsAlike_of_eq (R := Eq) (fun _ => rfl) check) fun a _ hab => hab ▸ h a

theorem EndsAlike.mapError {ε' : Type u} {R : α → β → Prop} {x : Except ε α} {y : Except ε β}
    (h : EndsAlike R x y) (message : ε → ε') : EndsAlike R (x.mapError message) (y.mapError message) := by
  cases x with
  | error e =>
      cases y with
      | error f => exact congrArg message h
      | ok b => exact h.elim
  | ok a =>
      cases y with
      | error f => exact h.elim
      | ok b => exact h

theorem EndsAlike.map {R : α → β → Prop} {S : γ → δ → Prop} {x : Except ε α} {y : Except ε β}
    (h : EndsAlike R x y) (f : α → γ) {g : β → δ} (hfg : ∀ a b, R a b → S (f a) (g b)) :
    EndsAlike S (x.map f) (y.map g) := by
  cases x with
  | error e =>
      cases y with
      | error f => exact h
      | ok b => exact h.elim
  | ok a =>
      cases y with
      | error f => exact h.elim
      | ok b => exact hfg a b h

end

/-! ## Erasing quiet inputs -/

section
variable {σ : Type u} {ι : Type v} {β : Type w} (quiet : σ → ι → Bool) (step : ι → σ → σ)

/-- The inputs that are not quiet where the run reads them. -/
def loud : σ → List ι → List ι
  | _, [] => []
  | s, i :: rest => if quiet s i then loud (step i s) rest else i :: loud (step i s) rest

variable {quiet step} {R : σ → σ → Prop}

/-- The run of the loud inputs from a related state keeps up with the run. -/
theorem run_loud (htrans : ∀ {r s t}, R r s → R s t → R r t)
    (hstep : ∀ r s i, R r s → R (step i r) (step i s))
    (hquiet : ∀ s i, quiet s i = true → R s (step i s)) {r s : σ} (h : R r s) (xs : List ι) :
    R (run step r (loud quiet step s xs)) (run step s xs) := by
  induction xs generalizing r s with
  | nil => exact h
  | cons i xs ih =>
      rw [loud]
      by_cases hi : quiet s i = true
      · rw [if_pos hi]
        exact ih (htrans h (hquiet s i hi))
      · rw [if_neg hi]
        exact ih (hstep r s i h)

/-- The loud inputs put out what they put out before. -/
theorem outputs_loud (htrans : ∀ {r s t}, R r s → R s t → R r t)
    (hstep : ∀ r s i, R r s → R (step i r) (step i s))
    (hquiet : ∀ s i, quiet s i = true → R s (step i s)) {out : σ → ι → List β}
    (hout : ∀ r s i, R r s → out r i = out s i) {r s : σ} (h : R r s) (xs : List ι) :
    outputs out step r (loud quiet step s xs) =
      outputs (fun s i => if quiet s i then [] else out s i) step s xs := by
  induction xs generalizing r s with
  | nil => rfl
  | cons i xs ih =>
      rw [loud, outputs]
      by_cases hi : quiet s i = true
      · rw [if_pos hi, if_pos hi, List.nil_append]
        exact ih (htrans h (hquiet s i hi))
      · rw [if_neg hi, if_neg hi, outputs, hout r s i h]
        exact congrArg _ (ih (hstep r s i h))

/-! ## Erasing the inputs of others -/

section
variable {own : ι → Bool} {ok : σ → ι → Prop}

/-- An owner's own inputs lead to what all inputs lead to, as far as the relation
goes. -/
theorem run_own (hown : ∀ r s i, own i = true → ok s i → R r s → R (step i r) (step i s))
    (hother : ∀ r s i, own i = false → R r s → R r (step i s)) {r s : σ} (h : R r s) {xs : List ι}
    (hok : Along ok step s xs) : R (run step r (xs.filter own)) (run step s xs) := by
  induction xs generalizing r s with
  | nil => exact h
  | cons i xs ih =>
      rw [List.filter_cons]
      by_cases hi : own i = true
      · rw [if_pos hi]
        exact ih (hown r s i hi hok.1 h) hok.2
      · rw [if_neg hi]
        exact ih (hother r s i (eq_false_of_ne_true hi) h) hok.2

/-- Own inputs put out what they put out among the others. -/
theorem outputs_own (hown : ∀ r s i, own i = true → ok s i → R r s → R (step i r) (step i s))
    (hother : ∀ r s i, own i = false → R r s → R r (step i s)) {out : σ → ι → List β}
    (hout : ∀ r s i, own i = true → ok s i → R r s → out r i = out s i) {r s : σ} (h : R r s)
    {xs : List ι} (hok : Along ok step s xs) :
    outputs out step r (xs.filter own) =
      outputs (fun s i => if own i then out s i else []) step s xs := by
  induction xs generalizing r s with
  | nil => rfl
  | cons i xs ih =>
      rw [List.filter_cons, outputs]
      by_cases hi : own i = true
      · rw [if_pos hi, if_pos hi, outputs, hout r s i hi hok.1 h]
        exact congrArg _ (ih (hown r s i hi hok.1 h) hok.2)
      · rw [if_neg hi, if_neg hi, List.nil_append]
        exact ih (hother r s i (eq_false_of_ne_true hi) h) hok.2

end

/-- What each step puts out, filtered. -/
theorem outputs_filter {out kept : σ → ι → List β} (p : β → Bool)
    (h : ∀ s i, kept s i = (out s i).filter p) (s : σ) (xs : List ι) :
    outputs kept step s xs = (outputs out step s xs).filter p := by
  induction xs generalizing s with
  | nil => rfl
  | cons i xs ih => rw [outputs, outputs, List.filter_append, h, ih]

end

end Wardx.Lib
