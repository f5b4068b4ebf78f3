import Wardx.Lib.Table

/-!
# Memoized functions

A table keeps results of a function under their arguments. As long as every
entry is the function's value, looking an argument up and filling it in when it
is missing answers what the function answers.
-/
namespace Wardx.Lib

universe u v

variable {κ : Type u} {β : Type v} [DecidableEq κ]

/-- The kept result, or the function's, which is then kept. -/
def memo (f : κ → β) (table : Table κ β) (key : κ) : β × Table κ β :=
  match table.get key with
  | some value => (value, table)
  | none => (f key, table.put key (f key))

/-- Every entry is the function's value. -/
def Caches (f : κ → β) (table : Table κ β) : Prop :=
  ∀ key value, table.get key = some value → value = f key

theorem caches_empty (f : κ → β) : Caches f Table.empty := by
  intro key value h
  cases h

theorem Caches.memo_fst {f : κ → β} {table : Table κ β} (h : Caches f table) (key : κ) :
    (memo f table key).1 = f key := by
  unfold memo
  cases hget : table.get key with
  | none => rfl
  | some value => exact h key value hget

theorem Caches.memo_snd {f : κ → β} {table : Table κ β} (h : Caches f table) (key : κ) :
    Caches f (memo f table key).2 := by
  unfold memo
  cases hget : table.get key with
  | none =>
      intro other value hother
      rw [Table.get_put] at hother
      split_ifs at hother with heq
      · rw [heq]
        exact (Option.some.inj hother).symm
      · exact h other value hother
  | some value => exact h

end Wardx.Lib
