import Mathlib.Data.List.Nodup
import Mathlib.Data.List.Sort
import Mathlib.Order.Basic
import Mathlib.Tactic.SplitIfs

/-!
# Lists in order of rank and arrival

A new key goes behind the keys of its rank and of lower ones, so keys of one
rank stand in the order they arrived in. Such a list is determined by its keys
of each rank. Keys that leave and come back do so at the end of their rank:
the list is then what it was exactly when of the keys of each rank those that
left were the last ones, in the order they came back in. A stable sort by rank
leaves the keys of each rank as they were.
-/
namespace Wardx.Lib

universe u v

variable {κ : Type u} {ρ : Type v}

/-! ## Pairs in a list -/

theorem pair_sublist_of_mem {keys : List κ} {i j : κ} (hi : i ∈ keys) (hj : j ∈ keys) (hne : i ≠ j) :
    [i, j].Sublist keys ∨ [j, i].Sublist keys := by
  induction keys with
  | nil => cases hi
  | cons first keys ih =>
      rcases List.mem_cons.mp hi with hi' | hi'
      · rcases List.mem_cons.mp hj with hj' | hj'
        · exact absurd (hi'.trans hj'.symm) hne
        · rw [hi']
          exact Or.inl ((List.singleton_sublist.mpr hj').cons_cons _)
      · rcases List.mem_cons.mp hj with hj' | hj'
        · rw [hj']
          exact Or.inr ((List.singleton_sublist.mpr hi').cons_cons _)
        · exact (ih hi' hj').imp (fun h => h.cons first) fun h => h.cons first

theorem not_pair_sublist_swap {keys : List κ} (hnodup : keys.Nodup) {i j : κ}
    (h : [i, j].Sublist keys) : ¬ [j, i].Sublist keys := by
  induction keys with
  | nil => cases h
  | cons first keys ih =>
      obtain ⟨hfirst, hrest⟩ := List.nodup_cons.mp hnodup
      intro h'
      cases h with
      | cons _ h =>
          cases h' with
          | cons _ h' => exact ih hrest h h'
          | cons_cons _ _ => exact hfirst (h.subset (List.mem_cons_of_mem i List.mem_cons_self))
      | cons_cons _ h =>
          cases h' with
          | cons _ h' => exact hfirst (h'.subset (List.mem_cons_of_mem j List.mem_cons_self))
          | cons_cons _ h' => exact hfirst (h'.subset List.mem_cons_self)

section Ranks
variable [LinearOrder ρ] (rank : κ → ρ)

/-- A key goes before the first key of higher rank. -/
def arrive (key : κ) : List κ → List κ
  | [] => [key]
  | k :: keys => if rank key < rank k then key :: k :: keys else k :: arrive key keys

/-- The keys stand in order of rank. -/
def Ranked (keys : List κ) : Prop := keys.Pairwise fun a b => rank a ≤ rank b

/-- The keys of one rank, in their order. -/
def ofRank (r : ρ) (keys : List κ) : List κ := keys.filter fun key => rank key = r

variable {rank} {keys : List κ}

theorem mem_arrive {key k : κ} : k ∈ arrive rank key keys ↔ k = key ∨ k ∈ keys := by
  induction keys with
  | nil => exact List.mem_cons
  | cons first keys ih =>
      unfold arrive
      split_ifs
      · exact List.mem_cons
      · rw [List.mem_cons, ih, List.mem_cons]
        exact or_left_comm

theorem Ranked.arrive (h : Ranked rank keys) (key : κ) : Ranked rank (arrive rank key keys) := by
  induction keys with
  | nil => exact List.pairwise_singleton _ _
  | cons first keys ih =>
      have hfirst := List.pairwise_cons.mp h
      unfold Lib.arrive
      split_ifs with hlt
      · refine List.pairwise_cons.mpr ⟨fun other hother => ?_, h⟩
        rcases List.mem_cons.mp hother with rfl | hmem
        · exact hlt.le
        · exact hlt.le.trans (hfirst.1 other hmem)
      · refine List.pairwise_cons.mpr ⟨fun other hother => ?_, ih hfirst.2⟩
        rcases mem_arrive.mp hother with rfl | hmem
        · exact not_lt.mp hlt
        · exact hfirst.1 other hmem

theorem ofRank_cons (r : ρ) (key : κ) (keys : List κ) :
    ofRank rank r (key :: keys) =
      if rank key = r then key :: ofRank rank r keys else ofRank rank r keys := by
  unfold ofRank
  rw [List.filter_cons]
  simp only [decide_eq_true_eq]

/-- Of its rank the new key is the last, of the others none is touched. -/
theorem ofRank_arrive (h : Ranked rank keys) (key : κ) (r : ρ) :
    ofRank rank r (arrive rank key keys) =
      ofRank rank r keys ++ if rank key = r then [key] else [] := by
  induction keys with
  | nil => exact ofRank_cons r key []
  | cons first keys ih =>
      have hfirst := List.pairwise_cons.mp h
      unfold arrive
      split_ifs with hlt hr hr
      · -- A key that goes first has no key of its rank in the list.
        have hnone : ofRank rank r (first :: keys) = [] := by
          refine List.filter_eq_nil_iff.mpr fun other hother => ?_
          have hle : rank first ≤ rank other := by
            rcases List.mem_cons.mp hother with rfl | hmem
            · exact le_refl _
            · exact hfirst.1 other hmem
          rw [decide_eq_true_eq, ← hr]
          exact (hlt.trans_le hle).ne'
        rw [hnone, ofRank_cons, if_pos hr, hnone, List.nil_append]
      · rw [ofRank_cons, if_neg hr, List.append_nil]
      · have hrest := ih hfirst.2
        rw [if_pos hr] at hrest
        rw [ofRank_cons, ofRank_cons, hrest]
        split_ifs
        · rfl
        · rfl
      · have hrest := ih hfirst.2
        rw [if_neg hr, List.append_nil] at hrest
        rw [ofRank_cons, ofRank_cons, hrest, List.append_nil]

theorem mem_ofRank {r : ρ} {key : κ} : key ∈ ofRank rank r keys ↔ key ∈ keys ∧ rank key = r := by
  unfold ofRank
  rw [List.mem_filter, decide_eq_true_eq]

theorem Ranked.head_le {first : κ} (h : Ranked rank (first :: keys)) {key : κ}
    (hkey : key ∈ first :: keys) : rank first ≤ rank key := by
  rcases List.mem_cons.mp hkey with rfl | hmem
  · exact le_refl _
  · exact (List.pairwise_cons.mp h).1 key hmem

theorem mem_iff_of_ofRank {xs ys : List κ} (h : ∀ r, ofRank rank r xs = ofRank rank r ys)
    (key : κ) : key ∈ xs ↔ key ∈ ys := by
  have hkey : key ∈ ofRank rank (rank key) xs ↔ key ∈ ofRank rank (rank key) ys := by
    rw [h]
  rw [mem_ofRank, mem_ofRank] at hkey
  simpa using hkey

/-- A list in order of rank is determined by its keys of each rank. -/
theorem Ranked.ext {xs ys : List κ} (hxs : Ranked rank xs) (hys : Ranked rank ys)
    (h : ∀ r, ofRank rank r xs = ofRank rank r ys) : xs = ys := by
  have hmem := mem_iff_of_ofRank h
  induction xs generalizing ys with
  | nil =>
      cases ys with
      | nil => rfl
      | cons y ys => cases (hmem y).mpr List.mem_cons_self
  | cons x xs ih =>
      cases ys with
      | nil => cases (hmem x).mp List.mem_cons_self
      | cons y ys =>
          have hrank : rank x = rank y := le_antisymm
            (hxs.head_le ((hmem y).mpr List.mem_cons_self))
            (hys.head_le ((hmem x).mp List.mem_cons_self))
          have hhead := h (rank x)
          rw [ofRank_cons, ofRank_cons, if_pos rfl, if_pos hrank.symm] at hhead
          have hxy : x = y := (List.cons.inj hhead).1
          have htails : ∀ r, ofRank rank r xs = ofRank rank r ys := by
            intro r
            have hr := h r
            rw [ofRank_cons, ofRank_cons, ← hrank] at hr
            split_ifs at hr
            · exact (List.cons.inj hr).2
            · exact hr
          rw [hxy, ih (List.pairwise_cons.mp hxs).2 (List.pairwise_cons.mp hys).2 htails
            (mem_iff_of_ofRank htails)]

theorem ofRank_filter (p : κ → Bool) (r : ρ) (keys : List κ) :
    ofRank rank r (keys.filter p) = (ofRank rank r keys).filter p := by
  unfold ofRank
  rw [List.filter_filter, List.filter_filter]
  congr 1
  funext key
  exact Bool.and_comm _ _

theorem Ranked.filter (h : Ranked rank keys) (p : κ → Bool) : Ranked rank (keys.filter p) :=
  List.Pairwise.sublist List.filter_sublist h

theorem pair_sublist_ofRank {r : ρ} {i j : κ} :
    [i, j].Sublist (ofRank rank r keys) ↔ [i, j].Sublist keys ∧ rank i = r ∧ rank j = r := by
  constructor
  · intro h
    refine ⟨h.trans List.filter_sublist, ?_, ?_⟩
    · exact (mem_ofRank.mp (h.subset List.mem_cons_self)).2
    · exact (mem_ofRank.mp (h.subset (List.mem_cons_of_mem i List.mem_cons_self))).2
  · intro h
    have hfiltered : ofRank rank r [i, j] = [i, j] := by
      rw [ofRank_cons, if_pos h.2.1, ofRank_cons, if_pos h.2.2]
      rfl
    rw [← hfiltered]
    exact h.1.filter _

/-! ### Stable sorting -/

theorem ofRank_orderedInsert (r : ρ) (key : κ) (keys : List κ) :
    ofRank rank r (keys.orderedInsert (fun a b => rank a ≤ rank b) key) =
      ofRank rank r (key :: keys) := by
  induction keys with
  | nil => rfl
  | cons first keys ih =>
      rw [List.orderedInsert_cons]
      split_ifs with hle
      · rfl
      · -- The key goes behind one of lower rank, so not past any of its own.
        have hne : rank first ≠ rank key := (not_le.mp hle).ne
        rw [ofRank_cons, ih, ofRank_cons, ofRank_cons r key (first :: keys), ofRank_cons]
        split_ifs with hfirst hkey
        · exact absurd (hfirst.trans hkey.symm) hne
        · rfl
        · rfl
        · rfl

theorem ranked_insertionSort (rank : κ → ρ) (keys : List κ) :
    Ranked rank (keys.insertionSort fun a b => rank a ≤ rank b) := by
  have htotal : Std.Total fun a b : κ => rank a ≤ rank b := ⟨fun a b => le_total (rank a) (rank b)⟩
  have htrans : IsTrans κ fun a b => rank a ≤ rank b := ⟨fun _ _ _ => le_trans⟩
  exact List.pairwise_insertionSort _ keys

/-- Sorting by rank leaves the keys of each rank in their order. -/
theorem ofRank_insertionSort (r : ρ) (keys : List κ) :
    ofRank rank r (keys.insertionSort fun a b => rank a ≤ rank b) = ofRank rank r keys := by
  induction keys with
  | nil => rfl
  | cons key keys ih =>
      rw [List.insertionSort_cons, ofRank_orderedInsert, ofRank_cons, ofRank_cons, ih]

end Ranks

/-! ## Moves -/

/-- A key enters the list, unless it is in it, or leaves it. -/
inductive Move (κ : Type u)
  | enter (key : κ)
  | leave (key : κ)

def Move.key : Move κ → κ
  | .enter key => key
  | .leave key => key

def Move.entered? : Move κ → Option κ
  | .enter key => some key
  | .leave _ => none

def Move.left? : Move κ → Option κ
  | .enter _ => none
  | .leave key => some key

def entered (moves : List (Move κ)) : List κ := moves.filterMap Move.entered?

def left (moves : List (Move κ)) : List κ := moves.filterMap Move.left?

theorem mem_keys_of_entered {moves : List (Move κ)} {key : κ} (h : key ∈ entered moves) :
    key ∈ moves.map Move.key := by
  obtain ⟨move, hmove, hkey⟩ := List.mem_filterMap.mp h
  cases move with
  | enter k =>
      cases hkey
      exact List.mem_map_of_mem hmove
  | leave k => cases hkey

theorem mem_keys_of_left {moves : List (Move κ)} {key : κ} (h : key ∈ left moves) :
    key ∈ moves.map Move.key := by
  obtain ⟨move, hmove, hkey⟩ := List.mem_filterMap.mp h
  cases move with
  | enter k => cases hkey
  | leave k =>
      cases hkey
      exact List.mem_map_of_mem hmove

section
variable [LinearOrder ρ] (rank : κ → ρ) [DecidableEq κ]

def Move.run (move : Move κ) (keys : List κ) : List κ :=
  match move with
  | .enter key => if key ∈ keys then keys else arrive rank key keys
  | .leave key => keys.filter fun k => k ≠ key

def moveAll (moves : List (Move κ)) (keys : List κ) : List κ :=
  moves.foldl (fun keys move => move.run rank keys) keys

variable {rank} {keys : List κ} {moves : List (Move κ)}

theorem Ranked.moveAll (h : Ranked rank keys) (moves : List (Move κ)) :
    Ranked rank (moveAll rank moves keys) := by
  induction moves generalizing keys with
  | nil => exact h
  | cons move moves ih =>
      apply ih
      cases move with
      | enter key =>
          show Ranked rank (if key ∈ keys then keys else Lib.arrive rank key keys)
          split_ifs
          · exact h
          · exact h.arrive key
      | leave key => exact h.filter _

/-- Moves of distinct keys: of each rank those that left are gone, and those
that entered stand last, in their order. -/
theorem ofRank_moveAll (h : Ranked rank keys) (hnodup : (moves.map Move.key).Nodup)
    (hnew : ∀ key ∈ entered moves, key ∉ keys) (r : ρ) :
    ofRank rank r (moveAll rank moves keys) =
      (ofRank rank r keys).filter (fun key => key ∉ left moves) ++ ofRank rank r (entered moves) := by
  induction moves generalizing keys with
  | nil =>
      show ofRank rank r keys = _ ++ []
      rw [List.append_nil]
      exact (List.filter_eq_self.mpr fun key _ => decide_eq_true List.not_mem_nil).symm
  | cons move moves ih =>
      rw [List.map_cons, List.nodup_cons] at hnodup
      cases move with
      | enter key =>
          have hkey : key ∉ keys := hnew key List.mem_cons_self
          have hrest : ∀ k ∈ entered moves, k ∉ arrive rank key keys := by
            intro k hk hmem
            rcases mem_arrive.mp hmem with rfl | hmem
            · exact hnodup.1 (mem_keys_of_entered hk)
            · exact hnew k (List.mem_cons_of_mem key hk) hmem
          have hstays : key ∉ left moves := fun hleft => hnodup.1 (mem_keys_of_left hleft)
          have hrun : moveAll rank (.enter key :: moves) keys =
              moveAll rank moves (arrive rank key keys) := by
            show moveAll rank moves (if key ∈ keys then keys else arrive rank key keys) = _
            rw [if_neg hkey]
          have hentered : entered (.enter key :: moves) = key :: entered moves := rfl
          have hleft : left (.enter key :: moves) = left moves := rfl
          rw [hrun, ih (h.arrive key) hnodup.2 hrest, ofRank_arrive h, List.filter_append,
            List.append_assoc, hentered, hleft, ofRank_cons]
          congr 1
          split_ifs
          · have hkept : [key].filter (fun k => k ∉ left moves) = [key] :=
              List.filter_eq_self.mpr fun k hk =>
                decide_eq_true (List.mem_singleton.mp hk ▸ hstays)
            rw [hkept]
            rfl
          · rfl
      | leave key =>
          have hrest : ∀ k ∈ entered moves, k ∉ keys.filter fun k => k ≠ key :=
            fun k hk hmem => hnew k hk (List.mem_of_mem_filter hmem)
          have hrun : moveAll rank (.leave key :: moves) keys =
              moveAll rank moves (keys.filter fun k => k ≠ key) := rfl
          have hentered : entered (.leave key :: moves) = entered moves := rfl
          have hleft : left (.leave key :: moves) = key :: left moves := rfl
          rw [hrun, ih (h.filter _) hnodup.2 hrest, ofRank_filter, List.filter_filter, hentered,
            hleft]
          congr 2
          funext k
          rw [Bool.and_comm]
          simp

theorem mem_moveAll (h : Ranked rank keys) (hnodup : (moves.map Move.key).Nodup)
    (hnew : ∀ key ∈ entered moves, key ∉ keys) {key : κ} :
    key ∈ moveAll rank moves keys ↔ (key ∈ keys ∧ key ∉ left moves) ∨ key ∈ entered moves := by
  have hrank : key ∈ moveAll rank moves keys ↔
      key ∈ ofRank rank (rank key) (moveAll rank moves keys) := by
    rw [mem_ofRank]
    exact (and_iff_left rfl).symm
  rw [hrank, ofRank_moveAll h hnodup hnew, List.mem_append, List.mem_filter, mem_ofRank, mem_ofRank,
    decide_eq_true_eq, and_iff_left rfl, and_iff_left rfl]

/-- Moves back: of each rank the keys that left and came back stand last. -/
theorem ofRank_moveBack {back : List (Move κ)} (h : Ranked rank keys)
    (hmoves : (moves.map Move.key).Nodup) (hback : (back.map Move.key).Nodup)
    (hnew : ∀ key ∈ entered moves, key ∉ keys)
    (hreturn : ∀ key, key ∈ entered back ↔ key ∈ left moves)
    (hgone : ∀ key, key ∈ left back ↔ key ∈ entered moves) (r : ρ) :
    ofRank rank r (moveAll rank back (moveAll rank moves keys)) =
      (ofRank rank r keys).filter (fun key => key ∉ left moves) ++ ofRank rank r (entered back) := by
  have hranks := ofRank_moveAll h hmoves hnew
  have habsent : ∀ key ∈ entered back, key ∉ moveAll rank moves keys := by
    intro key hkey hmem
    have hleft := (hreturn key).mp hkey
    rcases (mem_moveAll h hmoves hnew).mp hmem with hkept | hentered
    · exact hkept.2 hleft
    · -- A key moves once, so it did not both leave and enter.
      have hboth : ∀ {list : List (Move κ)}, (list.map Move.key).Nodup → key ∈ left list →
          key ∉ entered list := by
        intro list
        induction list with
        | nil => exact fun _ hnone => absurd hnone List.not_mem_nil
        | cons move list ih =>
            intro hnodup hleft' hentered'
            rw [List.map_cons, List.nodup_cons] at hnodup
            cases move with
            | enter k =>
                rcases List.mem_cons.mp hentered' with rfl | hmem'
                · exact hnodup.1 (mem_keys_of_left hleft')
                · exact ih hnodup.2 hleft' hmem'
            | leave k =>
                rcases List.mem_cons.mp hleft' with rfl | hmem'
                · exact hnodup.1 (mem_keys_of_entered hentered')
                · exact ih hnodup.2 hmem' hentered'
      exact hboth hmoves hleft hentered
  rw [ofRank_moveAll (h.moveAll moves) hback habsent, hranks, List.filter_append]
  have hkept : ((ofRank rank r keys).filter fun key => key ∉ left moves).filter
      (fun key => key ∉ left back) = (ofRank rank r keys).filter fun key => key ∉ left moves := by
    refine List.filter_eq_self.mpr fun key hkey => decide_eq_true fun hgone' => ?_
    have hmem := (mem_ofRank.mp (List.mem_of_mem_filter hkey)).1
    exact hnew key ((hgone key).mp hgone') hmem
  have hremoved : (ofRank rank r (entered moves)).filter (fun key => key ∉ left back) = [] := by
    refine List.filter_eq_nil_iff.mpr fun key hkey => ?_
    rw [decide_eq_true_eq, not_not]
    exact (hgone key).mpr (mem_ofRank.mp hkey).1
  rw [hkept, hremoved, List.append_nil]

end

/-! ## The last keys of a list -/

section
variable [DecidableEq κ]

/-- Keys behind which stand only keys like them stand last. -/
theorem eq_filter_append_filter {keys last : List κ} (hkeys : keys.Nodup)
    (h : ∀ i j, [i, j].Sublist keys → i ∈ last → j ∈ last) :
    keys = keys.filter (fun key => key ∉ last) ++ keys.filter (fun key => key ∈ last) := by
  induction keys with
  | nil => rfl
  | cons key keys ih =>
      rw [List.nodup_cons] at hkeys
      by_cases hkey : key ∈ last
      · have hall : ∀ k ∈ key :: keys, k ∈ last := by
          intro k hk
          rcases List.mem_cons.mp hk with rfl | hmem
          · exact hkey
          · exact h key k ((List.singleton_sublist.mpr hmem).cons_cons key) hkey
        have hnone : (key :: keys).filter (fun k => k ∉ last) = [] :=
          List.filter_eq_nil_iff.mpr fun k hk => by simpa using hall k hk
        have hself : (key :: keys).filter (fun k => k ∈ last) = key :: keys :=
          List.filter_eq_self.mpr fun k hk => decide_eq_true (hall k hk)
        rw [hnone, hself, List.nil_append]
      · have hrest := ih hkeys.2 fun i j hij => h i j (hij.cons key)
        have hkept : (key :: keys).filter (fun k => k ∉ last) =
            key :: keys.filter fun k => k ∉ last := List.filter_cons_of_pos (decide_eq_true hkey)
        have hgone : (key :: keys).filter (fun k => k ∈ last) =
            keys.filter fun k => k ∈ last := List.filter_cons_of_neg (by simpa using hkey)
        rw [hkept, hgone, List.cons_append, ← hrest]

variable (le : κ → κ → Prop) [Std.Antisymm le]

/-- A list ends in the given keys, in their order, exactly when behind each of
them stand only larger ones of them. -/
theorem eq_filter_append_iff {keys last : List κ} (hkeys : keys.Nodup) (hnodup : last.Nodup)
    (hsorted : last.Pairwise le) (hlast : ∀ key ∈ last, key ∈ keys) :
    keys = keys.filter (fun key => key ∉ last) ++ last ↔
      ∀ i j, [i, j].Sublist keys → i ∈ last → j ∈ last ∧ le i j := by
  constructor
  · intro heq i j hbefore hi
    have hsplit := hbefore
    rw [heq] at hsplit
    -- Neither key is among those kept, as the first is not.
    obtain ⟨l₁, l₂, hij, hl₁, hl₂⟩ := List.sublist_append_iff.mp hsplit
    cases l₁ with
    | nil =>
        rw [List.nil_append] at hij
        rw [← hij] at hl₂
        have hj : j ∈ last := hl₂.subset (List.mem_cons_of_mem i List.mem_cons_self)
        have hpair := List.Pairwise.sublist hl₂ hsorted
        exact ⟨hj, (List.pairwise_cons.mp hpair).1 j List.mem_cons_self⟩
    | cons first rest =>
        have hfirst : i = first := (List.cons.inj hij).1
        have hmem := hl₁.subset List.mem_cons_self
        rw [← hfirst] at hmem
        exact absurd hi (of_decide_eq_true (List.mem_filter.mp hmem).2)
  · intro h
    have hperm : (keys.filter fun key => key ∈ last).Perm last := by
      refine (List.perm_ext_iff_of_nodup (hkeys.filter _) hnodup).mpr fun key => ?_
      rw [List.mem_filter, decide_eq_true_eq]
      exact ⟨And.right, fun hmem => ⟨hlast key hmem, hmem⟩⟩
    have hfiltered : (keys.filter fun key => key ∈ last).Pairwise le := by
      refine List.pairwise_iff_forall_sublist.mpr fun {i j} hij => ?_
      have hi := (List.mem_filter.mp (hij.subset List.mem_cons_self)).2
      exact (h i j (hij.trans List.filter_sublist) (of_decide_eq_true hi)).2
    have hsame : keys.filter (fun key => key ∈ last) = last :=
      hperm.eq_of_pairwise' hfiltered hsorted
    have hsplit := eq_filter_append_filter hkeys fun i j hij hi => (h i j hij hi).1
    rw [hsame] at hsplit
    exact hsplit

variable [LinearOrder ρ] {rank : κ → ρ}

/-- Keys that leave and come back in order stand where they were exactly when
of each rank they were the last, in that order. -/
theorem moveBack_eq_iff {keys : List κ} {moves back : List (Move κ)} (h : Ranked rank keys)
    (hkeys : keys.Nodup) (hmoves : (moves.map Move.key).Nodup) (hback : (back.map Move.key).Nodup)
    (hnew : ∀ key ∈ entered moves, key ∉ keys) (hold : ∀ key ∈ left moves, key ∈ keys)
    (hreturn : ∀ key, key ∈ entered back ↔ key ∈ left moves)
    (hgone : ∀ key, key ∈ left back ↔ key ∈ entered moves)
    (hnodup : (entered back).Nodup) (hsorted : (entered back).Pairwise le) :
    moveAll rank back (moveAll rank moves keys) = keys ↔
      ∀ i j, [i, j].Sublist keys → rank i = rank j → i ∈ left moves → j ∈ left moves ∧ le i j := by
  have hranks := ofRank_moveBack h hmoves hback hnew hreturn hgone
  have hlast : ∀ r, (ofRank rank r keys).filter (fun key => key ∉ left moves) =
      (ofRank rank r keys).filter fun key => key ∉ ofRank rank r (entered back) := by
    intro r
    refine List.filter_congr fun key hkey => ?_
    rw [decide_eq_decide, mem_ofRank, hreturn]
    simp only [(mem_ofRank.mp hkey).2, and_true]
  have hone : ∀ r, ofRank rank r keys = (ofRank rank r keys).filter
      (fun key => key ∉ ofRank rank r (entered back)) ++ ofRank rank r (entered back) ↔
        ∀ i j, [i, j].Sublist (ofRank rank r keys) → i ∈ ofRank rank r (entered back) →
          j ∈ ofRank rank r (entered back) ∧ le i j := by
    intro r
    refine eq_filter_append_iff le (hkeys.filter _) (hnodup.filter _)
      (List.Pairwise.sublist List.filter_sublist hsorted) fun key hkey => ?_
    obtain ⟨hmem, hr⟩ := mem_ofRank.mp hkey
    exact mem_ofRank.mpr ⟨hold key ((hreturn key).mp hmem), hr⟩
  constructor
  · intro heq i j hij hrank hleft
    have hr := hranks (rank i)
    rw [heq, hlast] at hr
    have hpair := (hone (rank i)).mp hr i j (pair_sublist_ofRank.mpr ⟨hij, rfl, hrank.symm⟩)
      (mem_ofRank.mpr ⟨(hreturn i).mpr hleft, rfl⟩)
    exact ⟨(hreturn j).mp (mem_ofRank.mp hpair.1).1, hpair.2⟩
  · intro hall
    refine Ranked.ext ((h.moveAll moves).moveAll back) h fun r => ?_
    rw [hranks, hlast]
    refine ((hone r).mpr fun i j hij hi => ?_).symm
    obtain ⟨hsub, hri, hrj⟩ := pair_sublist_ofRank.mp hij
    have hpair := hall i j hsub (hri.trans hrj.symm) ((hreturn i).mp (mem_ofRank.mp hi).1)
    exact ⟨mem_ofRank.mpr ⟨(hreturn j).mpr hpair.1, hrj⟩, hpair.2⟩

end

end Wardx.Lib
