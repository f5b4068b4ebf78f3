import Mathlib.Data.List.Perm.Basic
import Mathlib.Data.Prod.Lex
import Mathlib.Tactic

/-!
# First touch

A cell holds the earliest of the arrivals it has seen, and of several at one
time the one with the least label. An arrival is compared with what is held and
either dropped or written.

What is written may be an image of the label. With the label itself the cell
holds the lexicographic least of its arrivals, so the order of arrival does not
matter. With a stand-in below every label for the labels that are not
registered, ties may be resolved before the lowest label has arrived:
`perm_iff` says for which arrivals the order still does not matter.
-/
namespace Wardx.Lib.FirstTouch

universe u v

variable {τ : Type u} {α : Type v} [LinearOrder τ] [LinearOrder α]

/-- The arrival comes before what is held. -/
def Beats (held : Option (τ × α)) (arrival : τ × α) : Prop :=
  ∀ cell, held = some cell → ¬ (cell.1 < arrival.1 ∨ cell.1 = arrival.1 ∧ cell.2 ≤ arrival.2)

/-- One arrival. -/
def touch (write : α → α) (held : Option (τ × α)) (arrival : τ × α) : Option (τ × α) :=
  match held with
  | none => some (arrival.1, write arrival.2)
  | some cell =>
      if cell.1 < arrival.1 ∨ cell.1 = arrival.1 ∧ cell.2 ≤ arrival.2 then some cell
      else some (arrival.1, write arrival.2)

section
variable {write : α → α} {held : Option (τ × α)} {arrival cell : τ × α}

@[simp] theorem beats_none : Beats none arrival := fun _ h => by cases h

@[simp] theorem beats_some :
    Beats (some cell) arrival ↔
      arrival.1 < cell.1 ∨ arrival.1 = cell.1 ∧ arrival.2 < cell.2 := by
  unfold Beats
  constructor
  · intro h
    have hcell := h cell rfl
    rw [not_or, not_and, not_lt, not_le] at hcell
    rcases lt_or_eq_of_le hcell.1 with hlt | heq
    · exact Or.inl hlt
    · exact Or.inr ⟨heq, hcell.2 heq.symm⟩
  · intro h cell' hcell'
    cases hcell'
    rw [not_or, not_and, not_lt, not_le]
    rcases h with hlt | ⟨heq, hlt⟩
    · exact ⟨hlt.le, fun e => absurd e.symm hlt.ne⟩
    · exact ⟨heq.le, fun _ => hlt⟩

theorem touch_of_beats (h : Beats held arrival) :
    touch write held arrival = some (arrival.1, write arrival.2) := by
  cases held with
  | none => rfl
  | some cell => exact if_neg (h cell rfl)

/-- Only what is written of the arriving label matters. -/
theorem touch_congr {write' : α → α} (h : write arrival.2 = write' arrival.2) :
    touch write held arrival = touch write' held arrival := by
  unfold touch
  rw [h]

theorem touch_of_not_beats (h : ¬ Beats held arrival) : touch write held arrival = held := by
  cases held with
  | none => exact absurd beats_none h
  | some cell =>
      refine if_pos ?_
      by_contra hcell
      apply h
      intro cell' hcell'
      cases hcell'
      exact hcell

instance : Decidable (Beats held arrival) :=
  match held with
  | none => isTrue beats_none
  | some _ => decidable_of_iff _ beats_some.symm

end

/-! ## The least arrival -/

/-- No later than, in time and then label. -/
def Precedes (a b : τ × α) : Prop := a.1 < b.1 ∨ a.1 = b.1 ∧ a.2 ≤ b.2

/-- The least of the arrivals, if any. -/
def IsFirst (arrivals : List (τ × α)) (held : Option (τ × α)) : Prop :=
  match held with
  | none => arrivals = []
  | some cell => cell ∈ arrivals ∧ ∀ arrival ∈ arrivals, Precedes cell arrival

theorem Precedes.trans {a b c : τ × α} (hab : Precedes a b) (hbc : Precedes b c) :
    Precedes a c := by
  have h := Prod.Lex.toLex_le_toLex.mpr hab
  exact Prod.Lex.toLex_le_toLex.mp (h.trans (Prod.Lex.toLex_le_toLex.mpr hbc))

theorem Precedes.antisymm {a b : τ × α} (hab : Precedes a b) (hba : Precedes b a) : a = b :=
  toLex.injective
    (le_antisymm (Prod.Lex.toLex_le_toLex.mpr hab) (Prod.Lex.toLex_le_toLex.mpr hba))

theorem precedes_refl (a : τ × α) : Precedes a a := Or.inr ⟨rfl, le_rfl⟩

theorem precedes_of_beats {cell arrival : τ × α} (h : Beats (some cell) arrival) :
    Precedes arrival cell := by
  rcases beats_some.mp h with hlt | ⟨heq, hlt⟩
  · exact Or.inl hlt
  · exact Or.inr ⟨heq, hlt.le⟩

theorem precedes_of_not_beats {cell arrival : τ × α} (h : ¬ Beats (some cell) arrival) :
    Precedes cell arrival := by
  by_contra hcell
  apply h
  intro cell' hcell'
  cases hcell'
  exact hcell

theorem isFirst_append {arrivals : List (τ × α)} {held : Option (τ × α)}
    (h : IsFirst arrivals held) {write : α → α} {arrival : τ × α}
    (hwrite : write arrival.2 = arrival.2) :
    IsFirst (arrivals ++ [arrival]) (touch write held arrival) := by
  by_cases hbeats : Beats held arrival
  · rw [touch_of_beats hbeats, hwrite]
    refine ⟨by simp, fun other hother => ?_⟩
    rcases List.mem_append.mp hother with hother | hother
    · cases held with
      | none =>
          have hnil : arrivals = [] := h
          rw [hnil] at hother
          cases hother
      | some cell => exact (precedes_of_beats hbeats).trans (h.2 other hother)
    · rw [List.mem_singleton.mp hother]
      exact precedes_refl _
  · rw [touch_of_not_beats hbeats]
    cases held with
    | none => exact absurd beats_none hbeats
    | some cell =>
        refine ⟨List.mem_append_left _ h.1, fun other hother => ?_⟩
        rcases List.mem_append.mp hother with hother | hother
        · exact h.2 other hother
        · rw [List.mem_singleton.mp hother]
          exact precedes_of_not_beats hbeats

/-- The same arrivals have the same least one. -/
theorem IsFirst.unique {arrivals arrivals' : List (τ × α)}
    (hmem : ∀ arrival, arrival ∈ arrivals ↔ arrival ∈ arrivals') {held held' : Option (τ × α)}
    (h : IsFirst arrivals held) (h' : IsFirst arrivals' held') : held = held' := by
  cases held with
  | none =>
      have hnil : arrivals = [] := h
      cases held' with
      | none => rfl
      | some cell' =>
          have hcell := (hmem cell').mpr h'.1
          rw [hnil] at hcell
          cases hcell
  | some cell =>
      have hcell := (hmem cell).mp h.1
      cases held' with
      | none =>
          have hnil : arrivals' = [] := h'
          rw [hnil] at hcell
          cases hcell
      | some cell' =>
          have hcell' := (hmem cell').mpr h'.1
          exact congrArg some ((h.2 cell' hcell').antisymm (h'.2 cell hcell))

theorem isFirst_foldl {arrivals : List (τ × α)} {held : Option (τ × α)} (h : IsFirst arrivals held)
    (later : List (τ × α)) : IsFirst (arrivals ++ later) (later.foldl (touch id) held) := by
  induction later generalizing arrivals held with
  | nil =>
      rw [List.append_nil]
      exact h
  | cons arrival later ih =>
      have hone : IsFirst (arrivals ++ [arrival]) (touch id held arrival) := isFirst_append h rfl
      have hnext := ih hone
      rw [List.append_assoc] at hnext
      exact hnext

theorem exists_first {arrivals : List (τ × α)} (h : arrivals ≠ []) :
    ∃ first ∈ arrivals, ∀ arrival ∈ arrivals, Precedes first arrival := by
  have hnil : IsFirst ([] : List (τ × α)) none := rfl
  have hfirst := isFirst_foldl hnil arrivals
  rw [List.nil_append] at hfirst
  cases hheld : arrivals.foldl (touch id) none with
  | none =>
      rw [hheld] at hfirst
      exact absurd hfirst h
  | some cell =>
      rw [hheld] at hfirst
      exact ⟨cell, hfirst⟩

/-! ## Labels that are not registered -/

/-- What an earlier arrival beats, the later one would not keep. -/
theorem Beats.of_precedes {held : Option (τ × α)} {a b : τ × α} (hb : Beats held b)
    (hab : Precedes a b) : Beats held a := by
  cases held with
  | none => exact beats_none
  | some cell =>
      by_contra ha
      have hcell := (precedes_of_not_beats ha).trans hab
      exact hb cell rfl hcell

theorem not_beats_of_precedes {cell arrival : τ × α} (h : Precedes cell arrival) :
    ¬ Beats (some cell) arrival := fun hbeats => hbeats cell rfl h

theorem foldl_touch_of_not_beats {write : α → α} {held : Option (τ × α)} {arrivals : List (τ × α)}
    (h : ∀ arrival ∈ arrivals, ¬ Beats held arrival) : arrivals.foldl (touch write) held = held := by
  induction arrivals with
  | nil => rfl
  | cons arrival arrivals ih =>
      rw [List.foldl_cons, touch_of_not_beats (h arrival List.mem_cons_self)]
      exact ih fun other hother => h other (List.mem_cons_of_mem _ hother)

section
variable (registered : α → Prop) [DecidablePred registered] (standIn : α)

/-- What is written of a label. -/
def capped (label : α) : α := if registered label then label else standIn

/-- An arrival of the earliest time that comes before what is held. -/
def Contends (held : Option (τ × α)) (arrivals : List (τ × α)) (arrival : τ × α) : Prop :=
  arrival ∈ arrivals ∧ Beats held arrival ∧ ∀ other ∈ arrivals, arrival.1 ≤ other.1

/-- All contending labels are registered, or the least of them is not. -/
def Settled (held : Option (τ × α)) (arrivals : List (τ × α)) : Prop :=
  (∀ arrival, Contends held arrivals arrival → registered arrival.2) ∨
    ∃ least, Contends held arrivals least ∧ ¬ registered least.2 ∧
      ∀ arrival, Contends held arrivals arrival → least.2 ≤ arrival.2

variable {registered} {standIn}

omit [LinearOrder α] in
theorem capped_of_registered {label : α} (h : registered label) :
    capped registered standIn label = label := if_pos h

omit [LinearOrder α] in
theorem capped_of_not_registered {label : α} (h : ¬ registered label) :
    capped registered standIn label = standIn := if_neg h

/-- A cell with the stand-in at the first time is final. -/
theorem foldl_touch_standIn {first : τ × α} {arrivals : List (τ × α)}
    (hfirst : ∀ arrival ∈ arrivals, Precedes first arrival)
    (hlow : ∀ arrival ∈ arrivals, standIn < arrival.2) :
    arrivals.foldl (touch (capped registered standIn)) (some (first.1, standIn)) =
      some (first.1, standIn) := by
  apply foldl_touch_of_not_beats
  intro arrival harrival
  apply not_beats_of_precedes
  rcases hfirst arrival harrival with hlt | ⟨heq, _⟩
  · exact Or.inl hlt
  · exact Or.inr ⟨heq, (hlow arrival harrival).le⟩

/-- The first arrival has no registered label: every order ends with the stand-in. -/
theorem foldl_touch_of_first_not_registered {first : τ × α} {arrivals : List (τ × α)}
    {held : Option (τ × α)} (hfirst : ∀ arrival ∈ arrivals, Precedes first arrival)
    (hlow : ∀ arrival ∈ arrivals, standIn < arrival.2) (hnot : ¬ registered first.2)
    (hmem : first ∈ arrivals) (hbeats : Beats held first) :
    arrivals.foldl (touch (capped registered standIn)) held = some (first.1, standIn) := by
  induction arrivals generalizing held with
  | nil => cases hmem
  | cons arrival arrivals ih =>
      have hfirst' : ∀ other ∈ arrivals, Precedes first other :=
        fun other hother => hfirst other (List.mem_cons_of_mem _ hother)
      have hlow' : ∀ other ∈ arrivals, standIn < other.2 :=
        fun other hother => hlow other (List.mem_cons_of_mem _ hother)
      rw [List.foldl_cons]
      rcases eq_or_ne first arrival with rfl | hne
      · rw [touch_of_beats hbeats, capped_of_not_registered hnot]
        exact foldl_touch_standIn hfirst' hlow'
      · have hmem' : first ∈ arrivals := (List.mem_cons.mp hmem).resolve_left hne
        by_cases hwrites : Beats held arrival
        · rw [touch_of_beats hwrites]
          rcases hfirst arrival List.mem_cons_self with hlt | ⟨heq, hle⟩
          · exact ih hfirst' hlow' hmem' (beats_some.mpr (Or.inl hlt))
          · by_cases hregistered : registered arrival.2
            · -- The label written is a registered one, so it is not the first label.
              rw [capped_of_registered hregistered]
              have hlabel : first.2 ≠ arrival.2 := fun e => hne (Prod.ext heq e)
              exact ih hfirst' hlow' hmem'
                (beats_some.mpr (Or.inr ⟨heq, lt_of_le_of_ne hle hlabel⟩))
            · rw [capped_of_not_registered hregistered, ← heq]
              exact foldl_touch_standIn hfirst' hlow'
        · rw [touch_of_not_beats hwrites]
          exact ih hfirst' hlow' hmem' hbeats

/-- All contending labels are registered: every order ends with the first arrival. -/
theorem foldl_touch_of_contenders_registered {first : τ × α} {arrivals : List (τ × α)}
    {held : Option (τ × α)} (hfirst : ∀ arrival ∈ arrivals, Precedes first arrival)
    (hregistered : ∀ arrival ∈ arrivals, arrival.1 = first.1 → Beats held arrival →
      registered arrival.2)
    (hmem : first ∈ arrivals) (hbeats : Beats held first) :
    arrivals.foldl (touch (capped registered standIn)) held = some first := by
  induction arrivals generalizing held with
  | nil => cases hmem
  | cons arrival arrivals ih =>
      have hfirst' : ∀ other ∈ arrivals, Precedes first other :=
        fun other hother => hfirst other (List.mem_cons_of_mem _ hother)
      rw [List.foldl_cons]
      rcases eq_or_ne first arrival with rfl | hne
      · rw [touch_of_beats hbeats,
          capped_of_registered (hregistered first List.mem_cons_self rfl hbeats)]
        exact foldl_touch_of_not_beats fun other hother =>
          not_beats_of_precedes (hfirst' other hother)
      · have hmem' : first ∈ arrivals := (List.mem_cons.mp hmem).resolve_left hne
        by_cases hwrites : Beats held arrival
        · rw [touch_of_beats hwrites]
          have hprecedes := hfirst arrival List.mem_cons_self
          -- At the first time only a registered label is written, so it is the arrival's own.
          have hlabel : arrival.1 = first.1 →
              capped registered standIn arrival.2 = arrival.2 := fun heq =>
            capped_of_registered (hregistered arrival List.mem_cons_self heq hwrites)
          refine ih hfirst' (fun other hother htime hother' => ?_) hmem' ?_
          · apply hregistered other (List.mem_cons_of_mem _ hother) htime
            apply hwrites.of_precedes
            rcases beats_some.mp hother' with hlt | ⟨heq, hlt⟩
            · exact Or.inl hlt
            · have hsame : arrival.1 = first.1 := heq.symm.trans htime
              rw [hlabel hsame] at hlt
              exact Or.inr ⟨heq, hlt.le⟩
          · rcases hprecedes with hlt | ⟨heq, hle⟩
            · exact beats_some.mpr (Or.inl hlt)
            · rw [hlabel heq.symm]
              have hlabels : first.2 ≠ arrival.2 := fun e => hne (Prod.ext heq e)
              exact beats_some.mpr (Or.inr ⟨heq, lt_of_le_of_ne hle hlabels⟩)
        · rw [touch_of_not_beats hwrites]
          exact ih hfirst' (fun other hother => hregistered other (List.mem_cons_of_mem _ hother))
            hmem' hbeats

/-- The label held after every order of the arrivals is the same exactly when
the arrivals are settled. -/
theorem perm_iff {held : Option (τ × α)} {arrivals : List (τ × α)}
    (hlow : ∀ arrival ∈ arrivals, standIn < arrival.2) :
    (∀ order : List (τ × α), order.Perm arrivals →
        (order.foldl (touch (capped registered standIn)) held).map Prod.snd =
          (arrivals.foldl (touch (capped registered standIn)) held).map Prod.snd) ↔
      Settled registered held arrivals := by
  rcases eq_or_ne arrivals [] with rfl | hne
  · constructor
    · intro _
      exact Or.inl fun arrival h => by cases h.1
    · intro _ order horder
      rw [horder.eq_nil]
  obtain ⟨first, hmem, hfirst⟩ := exists_first hne
  have hearliest : ∀ other ∈ arrivals, first.1 ≤ other.1 := by
    intro other hother
    rcases hfirst other hother with hlt | ⟨heq, _⟩
    · exact hlt.le
    · exact heq.le
  have htime : ∀ arrival, Contends held arrivals arrival → arrival.1 = first.1 :=
    fun arrival h => le_antisymm (h.2.2 first hmem) (hearliest arrival h.1)
  have hprecedes : ∀ {order : List (τ × α)}, order.Perm arrivals →
      ∀ arrival ∈ order, Precedes first arrival :=
    fun horder arrival h => hfirst arrival (horder.mem_iff.mp h)
  by_cases hbeats : Beats held first
  · have hcontends : Contends held arrivals first := ⟨hmem, hbeats, hearliest⟩
    constructor
    · intro hsame
      by_cases hregistered : registered first.2
      · left
        intro arrival harrival
        by_contra hnot
        -- The registered first arrival, or the stand-in, ends up held.
        have hperm : ∀ {x : τ × α}, x ∈ arrivals → (x :: arrivals.erase x).Perm arrivals :=
          fun hx => (List.perm_cons_erase hx).symm
        have hone : (first :: arrivals.erase first).foldl
            (touch (capped registered standIn)) held = some first := by
          rw [List.foldl_cons, touch_of_beats hbeats, capped_of_registered hregistered]
          exact foldl_touch_of_not_beats fun other hother =>
            not_beats_of_precedes (hfirst other (List.mem_of_mem_erase hother))
        have htwo : (arrival :: arrivals.erase arrival).foldl
            (touch (capped registered standIn)) held = some (first.1, standIn) := by
          rw [List.foldl_cons, touch_of_beats harrival.2.1, capped_of_not_registered hnot,
            htime arrival harrival]
          exact foldl_touch_standIn
            (fun other hother => hfirst other (List.mem_of_mem_erase hother))
            (fun other hother => hlow other (List.mem_of_mem_erase hother))
        have hlabels := (hsame _ (hperm hmem)).trans (hsame _ (hperm harrival.1)).symm
        rw [hone, htwo] at hlabels
        exact (hlow first hmem).ne (Option.some.inj hlabels).symm
      · right
        refine ⟨first, hcontends, hregistered, fun arrival harrival => ?_⟩
        rcases hfirst arrival harrival.1 with hlt | ⟨_, hle⟩
        · exact absurd (htime arrival harrival).symm hlt.ne
        · exact hle
    · intro hsettled order horder
      by_cases hregistered : registered first.2
      · -- The least contender is the first arrival, so the first alternative holds.
        have hall : ∀ arrival, Contends held arrivals arrival → registered arrival.2 := by
          rcases hsettled with hall | ⟨least, hleast, hnot, hle⟩
          · exact hall
          · have heq : least.2 = first.2 := by
              apply le_antisymm (hle first hcontends)
              rcases hfirst least hleast.1 with hlt | ⟨_, hle'⟩
              · exact absurd (htime least hleast).symm hlt.ne
              · exact hle'
            rw [heq] at hnot
            exact absurd hregistered hnot
        have hfold : ∀ {order : List (τ × α)}, order.Perm arrivals →
            order.foldl (touch (capped registered standIn)) held = some first := by
          intro order horder
          apply foldl_touch_of_contenders_registered (hprecedes horder) _
            (horder.mem_iff.mpr hmem) hbeats
          intro arrival harrival heq hbeats'
          refine hall arrival ⟨horder.mem_iff.mp harrival, hbeats', fun other hother => ?_⟩
          rw [heq]
          exact hearliest other hother
        rw [hfold horder, hfold (List.Perm.refl arrivals)]
      · have hfold : ∀ {order : List (τ × α)}, order.Perm arrivals →
            order.foldl (touch (capped registered standIn)) held = some (first.1, standIn) :=
          fun horder => foldl_touch_of_first_not_registered (hprecedes horder)
            (fun arrival harrival => hlow arrival (horder.mem_iff.mp harrival)) hregistered
            (horder.mem_iff.mpr hmem) hbeats
        rw [hfold horder, hfold (List.Perm.refl arrivals)]
  · have hnone : ∀ arrival ∈ arrivals, ¬ Beats held arrival := fun arrival harrival hb =>
      hbeats (hb.of_precedes (hfirst arrival harrival))
    constructor
    · intro _
      exact Or.inl fun arrival h => absurd h.2.1 (hnone arrival h.1)
    · intro _ order horder
      rw [foldl_touch_of_not_beats hnone,
        foldl_touch_of_not_beats fun arrival harrival =>
          hnone arrival (horder.mem_iff.mp harrival)]

end

end Wardx.Lib.FirstTouch
