import Mathlib.Data.List.Basic
import Mathlib.Tactic.SplitIfs

/-!
# Writes at paths

A tree is looked at through a view: what each path leads to. A write fixes what
is seen at and below its path and leaves the rest of the view alone. Writes
apart from each other, none below another, all hold once all are made, in any
order. So writes at the same paths undo earlier ones exactly when they held in
the view that was there before.
-/
namespace Wardx.Lib

universe u v

variable {κ : Type u} {β : Type v}

abbrev View (κ : Type u) (β : Type v) := List κ → β

/-- A write at a path: what the rest of a longer path leads to afterwards. -/
structure PathWrite (κ : Type u) (β : Type v) where
  path : List κ
  seen : View κ β

section
variable [DecidableEq κ]

def PathWrite.apply (write : PathWrite κ β) (view : View κ β) : View κ β := fun path =>
  if write.path <+: path then write.seen (path.drop write.path.length) else view path

def writeAll (writes : List (PathWrite κ β)) (view : View κ β) : View κ β :=
  writes.foldl (fun view write => write.apply view) view

end

/-- The view shows what the write would leave. -/
def PathWrite.Holds (write : PathWrite κ β) (view : View κ β) : Prop :=
  ∀ rest, view (write.path ++ rest) = write.seen rest

/-- No path of the writes continues another. -/
def Apart (writes : List (PathWrite κ β)) : Prop :=
  writes.Pairwise fun a b => ¬ a.path <+: b.path ∧ ¬ b.path <+: a.path

variable [DecidableEq κ] {write : PathWrite κ β} {writes : List (PathWrite κ β)} {view : View κ β}

theorem PathWrite.apply_below (write : PathWrite κ β) (view : View κ β) (rest : List κ) :
    write.apply view (write.path ++ rest) = write.seen rest := by
  unfold PathWrite.apply
  rw [if_pos (List.prefix_append _ _), List.drop_left]

theorem PathWrite.apply_elsewhere {path : List κ} (h : ¬ write.path <+: path) :
    write.apply view path = view path :=
  if_neg h

theorem writeAll_cons (write : PathWrite κ β) (writes : List (PathWrite κ β)) (view : View κ β) :
    writeAll (write :: writes) view = writeAll writes (write.apply view) :=
  rfl

/-- Writes leave alone what none of them is above. -/
theorem writeAll_elsewhere {path : List κ} (h : ∀ write ∈ writes, ¬ write.path <+: path) :
    writeAll writes view path = view path := by
  induction writes generalizing view with
  | nil => rfl
  | cons write writes ih =>
      rw [List.forall_mem_cons] at h
      rw [writeAll_cons, ih h.2, PathWrite.apply_elsewhere h.1]

/-- Apart writes hold once all are made. -/
theorem writeAll_holds (hapart : Apart writes) (h : write ∈ writes) :
    write.Holds (writeAll writes view) := by
  induction writes generalizing view with
  | nil => cases h
  | cons first writes ih =>
      have hpairs := List.pairwise_cons.mp hapart
      rcases List.mem_cons.mp h with rfl | hmem
      · intro rest
        rw [writeAll_cons, writeAll_elsewhere, PathWrite.apply_below]
        intro other hother hprefix
        rcases List.prefix_or_prefix_of_prefix hprefix (List.prefix_append write.path rest) with
          hbelow | habove
        · exact (hpairs.1 other hother).2 hbelow
        · exact (hpairs.1 other hother).1 habove
      · exact ih hpairs.2 hmem

/-- Writes at the paths of earlier ones restore the view exactly when they held in it. -/
theorem writeAll_undo {undos : List (PathWrite κ β)} (hapart : Apart undos)
    (hpaths : ∀ write ∈ writes, ∃ undo ∈ undos, undo.path = write.path) :
    writeAll undos (writeAll writes view) = view ↔ ∀ undo ∈ undos, undo.Holds view := by
  constructor
  · intro h undo hundo
    rw [← h]
    exact writeAll_holds hapart hundo
  · intro h
    funext path
    by_cases hpath : ∃ undo ∈ undos, undo.path <+: path
    · obtain ⟨undo, hundo, rest, rfl⟩ := hpath
      rw [writeAll_holds hapart hundo rest, h undo hundo rest]
    · have huncovered : ∀ undo ∈ undos, ¬ undo.path <+: path :=
        fun undo hundo hprefix => hpath ⟨undo, hundo, hprefix⟩
      rw [writeAll_elsewhere huncovered, writeAll_elsewhere]
      intro write hwrite hprefix
      obtain ⟨undo, hundo, hsame⟩ := hpaths write hwrite
      exact huncovered undo hundo (hsame ▸ hprefix)

end Wardx.Lib
