import Mathlib.Data.List.Forall2

/-!
# Fallible checks

A check either passes or stops with its message. Checks run in order and the
first failure is the one reported, so a sequence passes exactly when each of
its members does. The lemmas below peel a successful computation apart without
unfolding the monad.
-/
namespace Wardx.Lib

universe u v

variable {ε : Type u} {α β : Type v}

/-- Stop with `message` unless the condition holds. -/
def require (condition : Bool) (message : ε) : Except ε Unit :=
  if condition then .ok () else .error message

@[simp] theorem require_eq_ok_iff (condition : Bool) (message : ε) (u : Unit) :
    require condition message = .ok u ↔ condition = true := by
  unfold require
  split_ifs with h <;> simp [h]

@[simp] theorem bind_eq_ok_iff {x : Except ε α} {f : α → Except ε β} {b : β} :
    (x >>= f) = .ok b ↔ ∃ a, x = .ok a ∧ f a = .ok b := by
  cases x with
  | error e => simp [bind, Except.bind]
  | ok a => simp [bind, Except.bind]

/-- Run one check over a list, left to right. -/
def checkAll (check : α → Except ε Unit) : List α → Except ε Unit
  | [] => .ok ()
  | x :: xs => do
      check x
      checkAll check xs

@[simp] theorem checkAll_eq_ok_iff (check : α → Except ε Unit) (xs : List α) (u : Unit) :
    checkAll check xs = .ok u ↔ ∀ x ∈ xs, check x = .ok () := by
  induction xs with
  | nil => simp [checkAll]
  | cons x xs ih =>
      simp only [checkAll, bind_eq_ok_iff, List.mem_cons, forall_eq_or_imp, ih]
      constructor
      · rintro ⟨⟨⟩, hx, hxs⟩
        exact ⟨hx, hxs⟩
      · rintro ⟨hx, hxs⟩
        exact ⟨(), hx, hxs⟩

/-- Run one fallible function over a list, left to right. -/
def mapAll (f : α → Except ε β) : List α → Except ε (List β)
  | [] => .ok []
  | x :: xs => do
      let y ← f x
      let ys ← mapAll f xs
      pure (y :: ys)

theorem mapAll_eq_ok_iff (f : α → Except ε β) (xs : List α) (ys : List β) :
    mapAll f xs = .ok ys ↔ List.Forall₂ (fun x y => f x = .ok y) xs ys := by
  induction xs generalizing ys with
  | nil =>
      rw [List.forall₂_nil_left_iff, mapAll]
      constructor
      · intro h
        exact (Except.ok.inj h).symm
      · rintro rfl
        rfl
  | cons x xs ih =>
      simp only [mapAll, bind_eq_ok_iff, ih, pure, Except.pure, Except.ok.injEq]
      constructor
      · rintro ⟨y, hy, zs, hzs, rfl⟩
        exact List.Forall₂.cons hy hzs
      · intro h
        cases h with
        | cons hy hzs => exact ⟨_, hy, _, hzs, rfl⟩

/-- Every member succeeds exactly when the whole does. -/
theorem mapAll_isOk_iff (f : α → Except ε β) (xs : List α) :
    (∃ ys, mapAll f xs = .ok ys) ↔ ∀ x ∈ xs, ∃ y, f x = .ok y := by
  induction xs with
  | nil => simp [mapAll]
  | cons x xs ih =>
      simp only [mapAll, bind_eq_ok_iff, pure, Except.pure, Except.ok.injEq, List.mem_cons,
        forall_eq_or_imp, ← ih]
      constructor
      · rintro ⟨_, y, hy, ys, hys, _⟩
        exact ⟨⟨y, hy⟩, ys, hys⟩
      · rintro ⟨⟨y, hy⟩, ys, hys⟩
        exact ⟨_, y, hy, ys, hys, rfl⟩

/-! ## How a computation ends -/

/-- A value of the first kind, or an error of the second. -/
def Ends (ok : α → Prop) (fails : ε → Prop) : Except ε α → Prop
  | .ok a => ok a
  | .error e => fails e

section
variable {ok ok' : α → Prop} {next : β → Prop} {fails fails' : ε → Prop}

theorem Ends.mono {x : Except ε α} (h : Ends ok fails x) (hok : ∀ a, ok a → ok' a)
    (hfails : ∀ e, fails e → fails' e) : Ends ok' fails' x := by
  cases x with
  | error e => exact hfails e h
  | ok a => exact hok a h

/-- A computation that starts with another ends as the rest does from there. -/
theorem Ends.bind {x : Except ε α} {f : α → Except ε β} (h : Ends ok fails x)
    (hf : ∀ a, ok a → Ends next fails (f a)) : Ends next fails (x >>= f) := by
  cases x with
  | error e => exact h
  | ok a => exact hf a h

end

end Wardx.Lib
