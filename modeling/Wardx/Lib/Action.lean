import Mathlib.Tactic.TypeStar

/-!
# Actions that keep their state when they fail

An action reads and writes a state and may stop with an error. What it wrote
before the error stays written. A transaction is different: it either commits
its state or leaves the state as it was.

The rules below follow an action through its binds. `bind_last` splits on where
it stopped; `bind_eq_ok_iff` peels a run that succeeded.
-/
namespace Wardx.Lib

universe u

/-- From a state to an outcome and the last state. -/
def Action (σ ε α : Type u) := σ → Except ε α × σ

namespace Action

variable {σ ε α β : Type u}

def ret (a : α) : Action σ ε α := fun s => (.ok a, s)

def andThen (x : Action σ ε α) (f : α → Action σ ε β) : Action σ ε β := fun s =>
  match x s with
  | (.ok a, next) => f a next
  | (.error e, next) => (.error e, next)

instance : Monad (Action σ ε) where
  pure := ret
  bind := andThen

/-- The current state. -/
def read : Action σ ε σ := fun s => (.ok s, s)

def fail (e : ε) : Action σ ε α := fun s => (.error e, s)

/-- A computation that touches no state. -/
def check (x : Except ε α) : Action σ ε α := fun s => (x, s)

/-- All of the next state, or none of it. -/
def transaction (f : σ → Except ε (α × σ)) : Action σ ε α := fun s =>
  match f s with
  | .ok (a, next) => (.ok a, next)
  | .error e => (.error e, s)

def modify (f : σ → σ) : Action σ ε PUnit := fun s => (.ok ⟨⟩, f s)

@[simp] theorem pure_run (a : α) (s : σ) : (pure a : Action σ ε α) s = (.ok a, s) := rfl

@[simp] theorem read_run (s : σ) : (read : Action σ ε σ) s = (.ok s, s) := rfl

@[simp] theorem fail_run (e : ε) (s : σ) : (fail e : Action σ ε α) s = (.error e, s) := rfl

@[simp] theorem check_run (x : Except ε α) (s : σ) : (check x : Action σ ε α) s = (x, s) := rfl

@[simp] theorem modify_run (f : σ → σ) (s : σ) :
    (modify f : Action σ ε PUnit) s = (.ok ⟨⟩, f s) := rfl

/-- A successful run of a bind is a successful run of both parts. -/
theorem bind_eq_ok_iff {x : Action σ ε α} {f : α → Action σ ε β} {s s' : σ} {b : β} :
    (x >>= f) s = (.ok b, s') ↔ ∃ a m, x s = (.ok a, m) ∧ f a m = (.ok b, s') := by
  show andThen x f s = _ ↔ _
  unfold andThen
  rcases x s with ⟨e | a, m⟩
  · constructor
    · intro h
      cases h
    · rintro ⟨a, m', h, _⟩
      cases h
  · constructor
    · intro h
      exact ⟨a, m, rfl, h⟩
    · rintro ⟨a', m', h, hf⟩
      cases h
      exact hf

/-- The last state of a bind: the first part failed there, or the second ended there. -/
theorem bind_last {x : Action σ ε α} {f : α → Action σ ε β} {s : σ} {P : σ → Prop}
    (herror : ∀ e m, x s = (.error e, m) → P m) (hok : ∀ a m, x s = (.ok a, m) → P (f a m).2) :
    P ((x >>= f) s).2 := by
  show P (andThen x f s).2
  unfold andThen
  rcases hx : x s with ⟨e | a, m⟩
  · exact herror e m hx
  · exact hok a m hx

/-- A check decides only whether the rest runs. -/
theorem check_bind_last {x : Except ε α} {f : α → Action σ ε β} {s : σ} {P : σ → Prop}
    (hstop : P s) (hok : ∀ a, x = .ok a → P (f a s).2) : P ((check x >>= f) s).2 := by
  refine bind_last ?_ ?_
  · intro e m hx
    cases hx
    exact hstop
  · intro a m hx
    cases hx
    exact hok a rfl

theorem read_bind (f : σ → Action σ ε β) (s : σ) : ((read : Action σ ε σ) >>= f) s = f s s := rfl

theorem transaction_eq_ok_iff {f : σ → Except ε (α × σ)} {s s' : σ} {a : α} :
    transaction f s = (.ok a, s') ↔ f s = .ok (a, s') := by
  unfold transaction
  rcases f s with e | ⟨b, m⟩
  · simp
  · simp

theorem transaction_of_error {f : σ → Except ε (α × σ)} {s : σ} {e : ε} (h : f s = .error e) :
    transaction f s = (.error e, s) := by
  unfold transaction
  rw [h]

/-- A bind stops where its first part does. -/
theorem bind_of_error {x : Action σ ε α} (f : α → Action σ ε β) {s s' : σ} {e : ε}
    (h : x s = (.error e, s')) : (x >>= f) s = (.error e, s') := by
  show andThen x f s = _
  unfold andThen
  rw [h]

theorem bind_of_ok {x : Action σ ε α} (f : α → Action σ ε β) {s s' : σ} {a : α}
    (h : x s = (.ok a, s')) : (x >>= f) s = f a s' := by
  show andThen x f s = _
  unfold andThen
  rw [h]

/-- A bind ends as its first part failed, or as its second part ended. -/
theorem bind_run {x : Action σ ε α} {f : α → Action σ ε β} {s : σ} {P : Except ε β × σ → Prop}
    (herror : ∀ e m, x s = (.error e, m) → P (.error e, m))
    (hok : ∀ a m, x s = (.ok a, m) → P (f a m)) : P ((x >>= f) s) := by
  rcases hx : x s with ⟨e | a, m⟩
  · rw [bind_of_error f hx]
    exact herror e m hx
  · rw [bind_of_ok f hx]
    exact hok a m hx

theorem check_bind_run {x : Except ε α} {f : α → Action σ ε β} {s : σ}
    {P : Except ε β × σ → Prop} (herror : ∀ e, P (.error e, s))
    (hok : ∀ a, x = .ok a → P (f a s)) : P ((check x >>= f) s) := by
  refine bind_run ?_ ?_
  · intro e m hx
    cases hx
    exact herror e
  · intro a m hx
    cases hx
    exact hok a rfl

/-- A successful run behind a check is one where the check passed. -/
theorem check_bind_eq_ok_iff {x : Except ε α} {f : α → Action σ ε β} {s s' : σ} {b : β} :
    (check x >>= f) s = (.ok b, s') ↔ ∃ a, x = .ok a ∧ f a s = (.ok b, s') := by
  rw [bind_eq_ok_iff]
  constructor
  · rintro ⟨a, m, hx, hf⟩
    obtain ⟨hpassed, hsame⟩ := Prod.ext_iff.mp hx
    change s = m at hsame
    subst hsame
    exact ⟨a, hpassed, hf⟩
  · rintro ⟨a, hpassed, hf⟩
    exact ⟨a, s, Prod.ext hpassed rfl, hf⟩

/-- A transaction ends where it committed or where it began. -/
theorem transaction_bind_last {f : σ → Except ε (α × σ)} {g : α → Action σ ε β} {s : σ}
    {P : σ → Prop} (hstop : P s) (hok : ∀ a m, f s = .ok (a, m) → P (g a m).2) :
    P ((transaction f >>= g) s).2 := by
  refine bind_last ?_ ?_
  · intro e m hx
    unfold transaction at hx
    rcases hf : f s with e' | ⟨a, m'⟩
    · rw [hf] at hx
      cases hx
      exact hstop
    · rw [hf] at hx
      cases hx
  · intro a m hx
    exact hok a m (transaction_eq_ok_iff.mp hx)

end Action
end Wardx.Lib
