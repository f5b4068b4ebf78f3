import Mathlib.Data.Multiset.Lattice
import Wardx.Aggregation.SketchText
import Wardx.Core.AdmittedMetrics
import Wardx.Lib.Run

/-!
# What a sketch has seen

Sketches are a join semilattice: a merge is the join and the new sketch is the
bottom. An identifier has a sketch of its own, and feeding it to a sketch joins
it. So the sketch of some identifiers is the join of theirs, and neither their
order nor how they are dealt to sketches shows.

`SketchStep` lists what a call can do to the series of a handle. From it a run
of an SDK loses nothing: what its snapshots sent and what it still holds join to
the sketch of what it was fed.
-/
namespace Wardx.HyperLogLog

theorem zipWith_max_self (a : List ℕ) : List.zipWith max a a = a := by
  induction a with
  | nil => rfl
  | cons x a ih => rw [List.zipWith_cons_cons, max_self, ih]

theorem zipWith_max_zeros (a : List ℕ) : List.zipWith max (List.replicate a.length 0) a = a := by
  induction a with
  | nil => rfl
  | cons x a ih =>
      rw [List.length_cons, List.replicate_succ, List.zipWith_cons_cons, Nat.zero_max, ih]

theorem mergeHllBodies_self (a : Registers) : mergeHllBodies a a = a :=
  Registers.ext (zipWith_max_self a.ranks)

instance : Max Registers := ⟨mergeHllBodies⟩

instance : SemilatticeSup Registers :=
  SemilatticeSup.mk' mergeHllBodies_comm mergeHllBodies_assoc mergeHllBodies_self

theorem sup_eq_merge (a b : Registers) : a ⊔ b = mergeHllBodies a b := rfl

instance : OrderBot Registers where
  bot := Registers.empty
  bot_le a := by
    apply Registers.ext
    have hzeros := zipWith_max_zeros a.ranks
    rw [a.length_eq] at hzeros
    exact hzeros

theorem bot_eq_empty : (⊥ : Registers) = Registers.empty := rfl

/-- The sketch that the sketches merge to. -/
def union (sketches : List Registers) : Registers := (sketches : Multiset Registers).sup

@[simp] theorem union_nil : union [] = ⊥ := rfl

@[simp] theorem union_cons (sketch : Registers) (sketches : List Registers) :
    union (sketch :: sketches) = sketch ⊔ union sketches := rfl

theorem union_append (sketches others : List Registers) :
    union (sketches ++ others) = union sketches ⊔ union others := by
  unfold union
  rw [← Multiset.coe_add, Multiset.sup_add]

theorem union_le {sketches : List Registers} {bound : Registers} :
    union sketches ≤ bound ↔ ∀ sketch ∈ sketches, sketch ≤ bound := by
  unfold union
  simp only [Multiset.sup_le, Multiset.mem_coe]

/-- A union has no regard for order and repetition. -/
theorem union_congr {sketches others : List Registers} (h : ∀ sketch, sketch ∈ sketches ↔ sketch ∈ others) :
    union sketches = union others := by
  apply eq_of_forall_ge_iff
  intro bound
  rw [union_le, union_le]
  exact forall_congr' fun sketch => imp_congr_left (h sketch)

end Wardx.HyperLogLog

namespace Wardx.MetricsRegistry

open Lib Json HyperLogLog

/-! ## The sketch of identifiers -/

section
variable (h64 : String → Fin (2 ^ 64)) (privacySalt : String)

/-- What one identifier leaves in the registers. -/
def mark (identifier : String) : Registers :=
  let digest := h64 (privacySalt ++ "\x00" ++ identifier)
  raise Registers.empty (digest.val / 2 ^ 55) (rankAfterIndex digest) (rankAfterIndex_le digest)

/-- The sketch of identifiers, in no order. -/
def sketch (identifiers : Multiset String) : Registers :=
  (identifiers.map (mark h64 privacySalt)).sup

/-- One sketch fed identifiers. -/
def feed (identifiers : List String) (distinct : Distinct) : Except String Distinct :=
  identifiers.foldlM (fun held identifier => held.add h64 privacySalt identifier) distinct

@[simp] theorem sketch_zero : sketch h64 privacySalt 0 = ⊥ := rfl

theorem sketch_cons (identifier : String) (identifiers : Multiset String) :
    sketch h64 privacySalt (identifier ::ₘ identifiers) =
      mark h64 privacySalt identifier ⊔ sketch h64 privacySalt identifiers := by
  unfold sketch
  rw [Multiset.map_cons, Multiset.sup_cons]

theorem sketch_add (some others : Multiset String) :
    sketch h64 privacySalt (some + others) =
      sketch h64 privacySalt some ⊔ sketch h64 privacySalt others := by
  unfold sketch
  rw [Multiset.map_add, Multiset.sup_add]

end

theorem raise_eq (registers : Registers) (index rank : ℕ) (hrank : rank ≤ maxRank) :
    raise registers index rank hrank = registers ⊔ raise Registers.empty index rank hrank := by
  apply Registers.ext
  show registers.ranks.modify index (max rank) =
    List.zipWith max registers.ranks ((List.replicate registerCount 0).modify index (max rank))
  apply List.ext_getElem
  · simp [registers.length_eq]
  · intro i hleft hright
    rw [List.getElem_zipWith, List.getElem_modify, List.getElem_modify, List.getElem_replicate]
    split_ifs
    · rw [Nat.max_zero, max_comm]
    · rw [Nat.max_zero]

section
variable {h64 : String → Fin (2 ^ 64)} {privacySalt : String}

theorem add_ok {identifier : String} {distinct next : Distinct}
    (h : distinct.add h64 privacySalt identifier = .ok next) :
    identifier ≠ "" ∧ next.registers = distinct.registers ⊔ mark h64 privacySalt identifier ∧
      next.dirty = true := by
  unfold Distinct.add at h
  split_ifs at h with hempty
  cases h
  exact ⟨hempty, raise_eq _ _ _ (rankAfterIndex_le _), rfl⟩

theorem feed_ok {identifiers : List String} (hnonempty : ∀ identifier ∈ identifiers, identifier ≠ "")
    (distinct : Distinct) : ∃ one, feed h64 privacySalt identifiers distinct = .ok one ∧
      one.registers = distinct.registers ⊔ sketch h64 privacySalt identifiers := by
  induction identifiers generalizing distinct with
  | nil => exact ⟨distinct, rfl, (sup_bot_eq _).symm⟩
  | cons identifier identifiers ih =>
      have hfirst := hnonempty identifier List.mem_cons_self
      cases hadd : distinct.add h64 privacySalt identifier with
      | error message =>
          unfold Distinct.add at hadd
          rw [if_neg hfirst] at hadd
          cases hadd
      | ok next =>
          obtain ⟨one, hone, hregisters⟩ :=
            ih (fun other hother => hnonempty other (List.mem_cons_of_mem _ hother)) next
          refine ⟨one, ?_, ?_⟩
          · unfold feed
            rw [List.foldlM_cons, hadd]
            exact hone
          · rw [hregisters, (add_ok hadd).2.1, ← Multiset.cons_coe, sketch_cons, sup_assoc]

end

/-! ## The series of a handle -/

section
variable {S : Type}

theorem find_put (map : SeriesMap S) (name : String) (byKey : Table String S) (handle : Handle) :
    find (map.put name byKey) handle =
      if handle.1 = name then byKey.get handle.2 else find map handle := by
  unfold find
  rw [Table.get_put]
  split_ifs
  · rfl
  · rfl

/-- A request leaves the series of a handle, or makes one where there is none. -/
theorem find_register (limits : RegistryLimits) (kindPrefix name key : String)
    (make : Option Dims → S) (checked : Checked) (map : SeriesMap S) (rejected : List String)
    (handle : Handle) :
    find (register limits kindPrefix name key make checked map rejected).map handle = find map handle ∨
      (find map handle = none ∧ ∃ dims,
        find (register limits kindPrefix name key make checked map rejected).map handle =
          some (make dims)) := by
  have hheld : handle.1 = name →
      ((map.get name).getD Table.empty).get handle.2 = find map handle := by
    intro hname
    unfold find
    rw [hname]
    cases map.get name with
    | none => rfl
    | some byKey => rfl
  have hsame : find (map.put name ((map.get name).getD Table.empty)) handle = find map handle := by
    rw [find_put]
    split_ifs with hname
    · exact hheld hname
    · rfl
  unfold register
  dsimp only
  split
  · exact Or.inl rfl
  · split
    · exact Or.inl rfl
    · rename_i dims
      split
      · exact Or.inl rfl
      · rename_i hnone
        split
        · exact Or.inl hsame
        · rw [find_put, Table.get_put]
          split_ifs with hname hkey
          · right
            refine ⟨?_, dims, rfl⟩
            rw [← hheld hname, hkey]
            exact hnone
          · exact Or.inl (hheld hname)
          · exact Or.inl rfl

/-- A recording changes the series of its handle, if there is one, and no other. -/
theorem find_record {map after : SeriesMap S} {target : Handle} {f : S → Except String S}
    (h : record target f map = .ok after) (handle : Handle) :
    (find after handle = find map handle ∧ (handle = target → find map handle = none)) ∨
      (handle = target ∧ ∃ s next, find map handle = some s ∧ f s = .ok next ∧
        find after handle = some next) := by
  unfold record at h
  split at h
  · rename_i hname
    cases h
    refine Or.inl ⟨rfl, fun heq => ?_⟩
    rw [heq]
    unfold find
    rw [hname]
    rfl
  · rename_i byKey hname
    have hfind : find map target = byKey.get target.2 := by
      unfold find
      rw [hname]
      rfl
    split at h
    · rename_i hkey
      cases h
      refine Or.inl ⟨rfl, fun heq => ?_⟩
      rw [heq, hfind, hkey]
    · rename_i s hkey
      rw [bind_eq_ok_iff] at h
      obtain ⟨next, hnext, hafter⟩ := h
      cases hafter
      by_cases hhandle : handle = target
      · subst hhandle
        refine Or.inr ⟨rfl, s, next, hfind.trans hkey, hnext, ?_⟩
        rw [find_put, if_pos rfl, Table.get_put_self]
      · refine Or.inl ⟨?_, fun heq => absurd heq hhandle⟩
        rw [find_put]
        split_ifs with hfirst
        · have hsecond : handle.2 ≠ target.2 := fun heq => hhandle (Prod.ext hfirst heq)
          rw [Table.get_put_of_ne _ _ hsecond]
          unfold find
          rw [hfirst, hname]
          rfl
        · rfl

theorem find_record_error {map : SeriesMap S} {target : Handle} {f : S → Except String S}
    {message : String} (h : record target f map = .error message) :
    ∃ s, find map target = some s ∧ f s = .error message := by
  unfold record at h
  unfold find
  cases hname : map.get target.1 with
  | none =>
      rw [hname] at h
      cases h
  | some byKey =>
      rw [hname] at h
      cases hkey : byKey.get target.2 with
      | none =>
          simp only [hkey] at h
          cases h
      | some s =>
          simp only [hkey] at h
          cases hf : f s with
          | error other =>
              rw [hf] at h
              cases h
              exact ⟨s, hkey, hf⟩
          | ok next =>
              rw [hf] at h
              cases h

/-- A request that returns leaves the series of a handle, or makes one. -/
theorem find_series {js : Js} {limits : RegistryLimits} {kindPrefix name : String}
    {make : Option Dims → S} {dims : JsValue} {map : SeriesMap S} {rejected : List String}
    {found : Lookup S} (h : series js limits kindPrefix make name dims map rejected = .ok found)
    (handle : Handle) :
    find found.map handle = find map handle ∨
      (find map handle = none ∧ ∃ made, find found.map handle = some (make made)) := by
  unfold series at h
  rw [bind_eq_ok_iff] at h
  obtain ⟨_, _, h⟩ := h
  rw [bind_eq_ok_iff] at h
  obtain ⟨checked, _, h⟩ := h
  cases h
  exact find_register limits kindPrefix name (dimKey js dims) make checked map rejected handle

theorem find_alter (target : Handle) (f : S → S) (map : SeriesMap S) (handle : Handle) :
    find (alter target f map) handle =
      if handle = target then (find map handle).map f else find map handle := by
  unfold alter
  by_cases hhandle : handle = target
  · subst hhandle
    rw [if_pos rfl]
    cases hname : map.get handle.1 with
    | none => simp [find, hname]
    | some byKey =>
        cases hkey : byKey.get handle.2 with
        | none => simp [find, hname, hkey]
        | some found => simp [find, hname, hkey]
  · rw [if_neg hhandle]
    cases hname : map.get target.1 with
    | none => rfl
    | some byKey =>
        cases hkey : byKey.get target.2 with
        | none => simp [hkey]
        | some found =>
            simp only [hkey]
            rw [find_put]
            split_ifs with hfirst
            · have hsecond : handle.2 ≠ target.2 := fun heq => hhandle (Prod.ext hfirst heq)
              rw [Table.get_put_of_ne _ _ hsecond]
              unfold find
              rw [hfirst, hname]
              rfl
            · rfl

theorem find_resetLive (live : S → Bool) (reset : S → S) (map : SeriesMap S) (handle : Handle) :
    find (resetLive live reset map) handle =
      (find map handle).map fun s => if live s then reset s else s := by
  unfold find resetLive
  rw [Table.get_mapValues]
  cases map.get handle.1 with
  | none => rfl
  | some byKey => exact Table.get_mapValues _ byKey handle.2

end

/-! ## A run of an SDK -/

section
variable (sdk : Sdk) (handle : Handle)

/-- What a call feeds the sketch of the handle. -/
def fed (registry : Registry) : Call → List String
  | .identify target identifier =>
      if target = handle ∧ identifier ≠ "" ∧ (find registry.distincts handle).isSome then [identifier]
      else []
  | _ => []

/-- The bodies of the handle's sketch that a call takes. -/
def sent (registry : Registry) : Call → List Json
  | .snapshot =>
      ((find registry.distincts handle).filter Distinct.dirty).toList.map fun d => d.registers.body
  | _ => []

/-- What the registry still holds for the handle. -/
def unsent (registry : Registry) : Registers :=
  ((find registry.distincts handle).map Distinct.registers).getD ⊥

/-- What a call does to the sketch of a handle, with what it feeds and takes. -/
inductive SketchStep : Option Distinct → List String → List Json → Option Distinct → Prop
  | kept (held : Option Distinct) : SketchStep held [] [] held
  | opened (name : String) (dims : Option Dims) :
      SketchStep none [] [] (some (Distinct.new name dims))
  | added {held next : Distinct} {identifier : String}
      (hadd : held.add sdk.h64 sdk.privacySalt identifier = .ok next) :
      SketchStep (some held) [identifier] [] (some next)
  | taken {held : Distinct} (hdirty : held.dirty = true) :
      SketchStep (some held) [] [held.registers.body] (some held.reset)

end

section
variable {sdk : Sdk} {handle : Handle}

theorem afterCall_error {registry : Registry} {made : Call} {message : String}
    (h : call sdk registry made = .error message) :
    afterCall sdk made registry = abandoned sdk registry made := by
  unfold afterCall
  rw [h]

theorem distincts_abandoned (registry : Registry) (made : Call) :
    (abandoned sdk registry made).distincts = registry.distincts := by
  unfold abandoned
  split
  · split_ifs <;> rfl
  · rfl

theorem afterCall_ok {registry next : Registry} {made : Call}
    (h : call sdk registry made = .ok next) : afterCall sdk made registry = next := by
  unfold afterCall
  rw [h]

/-- A body that a snapshot takes is in one of its rows. -/
theorem row_of_sent {registry : Registry} {body : Json} (h : body ∈ sent handle registry .snapshot) :
    ∃ held, find registry.distincts handle = some held ∧
      held.row ∈ registry.snapshot.distincts ∧ held.registers.body = body := by
  obtain ⟨held, hheld, hbody⟩ := List.mem_map.mp h
  rw [Option.mem_toList, Option.filter_eq_some_iff] at hheld
  obtain ⟨hfind, hdirty⟩ := hheld
  obtain ⟨byKey, hname, hkey⟩ := Option.bind_eq_some_iff.mp hfind
  refine ⟨held, hfind, ?_, hbody⟩
  exact List.mem_map_of_mem (List.mem_filter.mpr ⟨mem_seriesOf hname hkey, hdirty⟩)

/-- A call that writes its result into another field. -/
theorem kept_afterCall {α γ : Type} {found : Except String α} {write : α → Registry}
    {registry : Registry} {made : Call} (field : Registry → γ)
    (h : call sdk registry made = found >>= fun a => pure (write a))
    (hwrite : ∀ a, field (write a) = field registry)
    (habandoned : field (abandoned sdk registry made) = field registry) :
    field (afterCall sdk made registry) = field registry := by
  cases found with
  | error message =>
      rw [afterCall_error h]
      exact habandoned
  | ok a =>
      rw [afterCall_ok h]
      exact hwrite a

theorem distincts_afterCall {α : Type} {found : Except String α} {write : α → Registry}
    {registry : Registry} {made : Call} (h : call sdk registry made = found >>= fun a => pure (write a))
    (hwrite : ∀ a, (write a).distincts = registry.distincts) :
    (afterCall sdk made registry).distincts = registry.distincts :=
  kept_afterCall Registry.distincts h hwrite (distincts_abandoned registry made)

/-- A request for a sketch. -/
theorem sketchStep_distinct (registry : Registry) (name : String) (dims : JsValue) :
    SketchStep sdk (find registry.distincts handle) [] []
      (find (afterCall sdk (.distinct name dims) registry).distincts handle) := by
  cases hcall : call sdk registry (.distinct name dims) with
  | error message =>
      rw [afterCall_error hcall]
      exact .kept _
  | ok next =>
      rw [afterCall_ok hcall]
      unfold call at hcall
      rw [bind_eq_ok_iff] at hcall
      obtain ⟨found, hfound, hnext⟩ := hcall
      cases hnext
      have hfind := find_series hfound handle
      cases hfind with
      | inl hsame =>
          rw [hsame]
          exact .kept _
      | inr hnew =>
          obtain ⟨hnone, made, hmade⟩ := hnew
          rw [hnone, hmade]
          exact .opened name made

/-- An identifier given through a handle. -/
theorem sketchStep_identify (registry : Registry) (target : Handle) (identifier : String) :
    SketchStep sdk (find registry.distincts handle) (fed handle registry (.identify target identifier))
      [] (find (afterCall sdk (.identify target identifier) registry).distincts handle) := by
  show SketchStep sdk _ (if target = handle ∧ identifier ≠ "" ∧
    (find registry.distincts handle).isSome then [identifier] else []) [] _
  cases hrecord : record target (Distinct.add sdk.h64 sdk.privacySalt identifier)
      registry.distincts with
  | error message =>
      have hcall : call sdk registry (.identify target identifier) = .error message := by
        simp only [call, hrecord]
        rfl
      obtain ⟨held, hheld, hadd⟩ := find_record_error hrecord
      rw [afterCall_error hcall, if_neg]
      · exact .kept _
      · intro hfed
        unfold Distinct.add at hadd
        rw [if_neg hfed.2.1] at hadd
        cases hadd
  | ok distincts =>
      have hcall : call sdk registry (.identify target identifier) =
          .ok { registry with distincts := distincts } := by
        simp only [call, hrecord]
        rfl
      rw [afterCall_ok hcall]
      cases find_record hrecord handle with
      | inl hkept =>
          rw [if_neg]
          · rw [hkept.1]
            exact .kept _
          · intro hfed
            rw [hkept.2 hfed.1.symm] at hfed
            exact Bool.false_ne_true hfed.2.2
      | inr hadded =>
          obtain ⟨rfl, held, next, hheld, hadd, hafter⟩ := hadded
          have hnonempty := (add_ok hadd).1
          rw [hheld, if_pos ⟨rfl, hnonempty, rfl⟩, hafter]
          exact .added hadd

/-- Every call is a step of the sketch. -/
theorem sketchStep_afterCall (registry : Registry) (made : Call) :
    SketchStep sdk (find registry.distincts handle) (fed handle registry made)
      (sent handle registry made) (find (afterCall sdk made registry).distincts handle) := by
  have hkept : (afterCall sdk made registry).distincts = registry.distincts →
      fed handle registry made = [] → sent handle registry made = [] →
      SketchStep sdk (find registry.distincts handle) (fed handle registry made)
        (sent handle registry made) (find (afterCall sdk made registry).distincts handle) := by
    intro hsame hfed hsent
    rw [hsame, hfed, hsent]
    exact .kept _
  cases made with
  | distinct name dims => exact sketchStep_distinct registry name dims
  | identify target identifier => exact sketchStep_identify registry target identifier
  | snapshot =>
      have hreset := find_resetLive Distinct.dirty Distinct.reset registry.distincts handle
      show SketchStep sdk _ [] (sent handle registry .snapshot)
        (find (resetLive Distinct.dirty Distinct.reset registry.distincts) handle)
      rw [hreset]
      unfold sent
      cases find registry.distincts handle with
      | none => exact .kept none
      | some held =>
          cases hdirty : held.dirty with
          | false =>
              simp only [Option.filter, Option.map, hdirty]
              exact .kept (some held)
          | true =>
              simp only [Option.filter, Option.map, hdirty]
              exact .taken hdirty
  | counter name dims => exact hkept (distincts_afterCall rfl fun _ => rfl) rfl rfl
  | gauge name dims => exact hkept (distincts_afterCall rfl fun _ => rfl) rfl rfl
  | histogram name a b => exact hkept (distincts_afterCall rfl fun _ => rfl) rfl rfl
  | add target n => exact hkept (distincts_afterCall rfl fun _ => rfl) rfl rfl
  | set target value now => exact hkept (distincts_afterCall rfl fun _ => rfl) rfl rfl
  | observe target value attrs => exact hkept (distincts_afterCall rfl fun _ => rfl) rfl rfl

/-! ## Nothing is lost -/

/-- The sketches that bodies carry. -/
def sketches (bodies : List Json) : List Registers :=
  bodies.filterMap fun body => (decodeHllBody body).toOption

theorem mem_sketches {bodies : List Json} {registers : Registers} :
    registers ∈ sketches bodies ↔ ∃ body ∈ bodies, decodeHllBody body = .ok registers := by
  unfold sketches
  rw [List.mem_filterMap]
  constructor
  · intro h
    obtain ⟨body, hbody, hdecoded⟩ := h
    refine ⟨body, hbody, ?_⟩
    cases hdecode : decodeHllBody body with
    | error message =>
        rw [hdecode] at hdecoded
        cases hdecoded
    | ok found =>
        rw [hdecode] at hdecoded
        cases hdecoded
        rfl
  · intro h
    obtain ⟨body, hbody, hdecode⟩ := h
    refine ⟨body, hbody, ?_⟩
    rw [hdecode]
    rfl

theorem sketches_append (bodies others : List Json) :
    sketches (bodies ++ others) = sketches bodies ++ sketches others :=
  List.filterMap_append

theorem sketches_body (registers : Registers) : sketches [registers.body] = [registers] := by
  unfold sketches
  rw [List.filterMap_cons_some (by rw [decodeHllBody_body]; rfl), List.filterMap_nil]

/-- What a series holds; one that is not there holds nothing. -/
def heldRegisters (held : Option Distinct) : Registers := (held.map Distinct.registers).getD ⊥

/-- Every body taken is that of a sketch. -/
def IsSketch (body : Json) : Prop :=
  ∃ registers, decodeHllBody body = .ok registers ∧ registers.body = body

theorem SketchStep.isSketch {before after : Option Distinct} {identifiers : List String}
    {bodies : List Json} (h : SketchStep sdk before identifiers bodies after) :
    ∀ body ∈ bodies, IsSketch body := by
  intro body hbody
  cases h with
  | taken hdirty =>
      rw [List.mem_singleton.mp hbody]
      exact ⟨_, decodeHllBody_body _, rfl⟩
  | _ => cases hbody

/-- What a step fed is what it took and what is left, beyond what was there. -/
theorem SketchStep.union_eq {before after : Option Distinct} {identifiers : List String}
    {bodies : List Json} (h : SketchStep sdk before identifiers bodies after) :
    union (sketches bodies) ⊔ heldRegisters after =
      heldRegisters before ⊔ sketch sdk.h64 sdk.privacySalt identifiers := by
  cases h with
  | kept held =>
      show ⊥ ⊔ heldRegisters before = heldRegisters before ⊔ ⊥
      rw [bot_sup_eq, sup_bot_eq]
  | opened name dims =>
      show ⊥ ⊔ ⊥ = ⊥ ⊔ (⊥ : Registers)
      rfl
  | added hadd =>
      rename_i held next identifier
      show ⊥ ⊔ next.registers = held.registers ⊔ (mark sdk.h64 sdk.privacySalt identifier ⊔ ⊥)
      rw [bot_sup_eq, sup_bot_eq]
      exact (add_ok hadd).2.1
  | taken hdirty =>
      rename_i held
      rw [sketches_body]
      show (held.registers ⊔ ⊥) ⊔ ⊥ = held.registers ⊔ ⊥
      rw [sup_bot_eq]

theorem run_union (calls : List Call) (registry : Registry) :
    union (sketches (outputs (sent handle) (afterCall sdk) registry calls)) ⊔
        unsent handle (run (afterCall sdk) registry calls) =
      unsent handle registry ⊔
        sketch sdk.h64 sdk.privacySalt (outputs (fed handle) (afterCall sdk) registry calls) := by
  induction calls generalizing registry with
  | nil =>
      show ⊥ ⊔ unsent handle registry = unsent handle registry ⊔ ⊥
      rw [bot_sup_eq, sup_bot_eq]
  | cons made calls ih =>
      have hstep := (@sketchStep_afterCall sdk handle registry made).union_eq
      have hrest := ih (afterCall sdk made registry)
      show union (sketches (sent handle registry made ++ _)) ⊔ _ =
        _ ⊔ sketch sdk.h64 sdk.privacySalt ((fed handle registry made ++ _ : List String) : Multiset String)
      rw [sketches_append, union_append, sup_assoc]
      calc union (sketches (sent handle registry made)) ⊔
            (union (sketches (outputs (sent handle) (afterCall sdk) (afterCall sdk made registry) calls)) ⊔
              unsent handle (run (afterCall sdk) (afterCall sdk made registry) calls))
          = union (sketches (sent handle registry made)) ⊔
              (unsent handle (afterCall sdk made registry) ⊔ sketch sdk.h64 sdk.privacySalt
                (outputs (fed handle) (afterCall sdk) (afterCall sdk made registry) calls)) := by
            rw [hrest]
        _ = (unsent handle registry ⊔ sketch sdk.h64 sdk.privacySalt (fed handle registry made)) ⊔
              sketch sdk.h64 sdk.privacySalt
                (outputs (fed handle) (afterCall sdk) (afterCall sdk made registry) calls) := by
            rw [← sup_assoc]
            exact congrArg (· ⊔ _) hstep
        _ = _ := by
            rw [sup_assoc, ← Multiset.coe_add, sketch_add]

end

/-! ## Instances -/

/-- An instance that takes a snapshot at the end of its calls. -/
structure SdkInstance where
  sdk : Sdk
  calls : List Call

def SdkInstance.allCalls (inst : SdkInstance) : List Call := inst.calls ++ [.snapshot]

/-- The bodies of the handle's sketch that the instance sends, window by window. -/
def SdkInstance.sent (inst : SdkInstance) (handle : Handle) : List Json :=
  outputs (MetricsRegistry.sent handle) (afterCall inst.sdk) Registry.initial inst.allCalls

/-- The identifiers its sketch of the handle is fed. -/
def SdkInstance.fed (inst : SdkInstance) (handle : Handle) : List String :=
  outputs (MetricsRegistry.fed handle) (afterCall inst.sdk) Registry.initial inst.allCalls

section
variable {handle : Handle}

/-- A series that has seen nothing since it was taken is empty. -/
def CleanEmpty (held : Option Distinct) : Prop :=
  ∀ d, held = some d → d.dirty = false → d.registers = ⊥

theorem SketchStep.cleanEmpty {sdk : Sdk} {before after : Option Distinct} {identifiers : List String}
    {bodies : List Json} (h : SketchStep sdk before identifiers bodies after)
    (hclean : CleanEmpty before) : CleanEmpty after := by
  intro d hd hdirty
  cases h with
  | kept held => exact hclean d hd hdirty
  | opened name dims =>
      cases hd
      rfl
  | added hadd =>
      cases hd
      rw [(add_ok hadd).2.2] at hdirty
      cases hdirty
  | taken htaken =>
      cases hd
      rfl

theorem unsent_after_snapshot (sdk : Sdk) {registry : Registry}
    (hclean : CleanEmpty (find registry.distincts handle)) :
    unsent handle (afterCall sdk .snapshot registry) = ⊥ := by
  have hreset := find_resetLive Distinct.dirty Distinct.reset registry.distincts handle
  show ((find (resetLive Distinct.dirty Distinct.reset registry.distincts) handle).map
    Distinct.registers).getD ⊥ = ⊥
  rw [hreset]
  cases hheld : find registry.distincts handle with
  | none => rfl
  | some held =>
      cases hdirty : held.dirty with
      | false =>
          simp only [Option.map_some, hdirty]
          exact hclean held hheld hdirty
      | true =>
          simp only [Option.map_some, hdirty]
          rfl

/-- An instance sends exactly what it was fed. -/
theorem SdkInstance.union_sent (inst : SdkInstance) :
    union (sketches (inst.sent handle)) =
      sketch inst.sdk.h64 inst.sdk.privacySalt (inst.fed handle) := by
  have hunion := @run_union inst.sdk handle inst.allCalls Registry.initial
  have hclean : CleanEmpty (find (run (afterCall inst.sdk) Registry.initial inst.calls).distincts handle) := by
    apply run_invariant_all (fun registry : Registry => CleanEmpty (find registry.distincts handle))
    · intro registry made hheld
      exact (sketchStep_afterCall registry made).cleanEmpty hheld
    · intro d hd
      cases hd
  have hlast : unsent handle (run (afterCall inst.sdk) Registry.initial inst.allCalls) = ⊥ := by
    unfold SdkInstance.allCalls
    rw [run_append]
    exact unsent_after_snapshot inst.sdk hclean
  rw [hlast, sup_bot_eq] at hunion
  rw [SdkInstance.sent, hunion]
  exact bot_sup_eq _

theorem fed_nonempty (inst : SdkInstance) : ∀ identifier ∈ inst.fed handle, identifier ≠ "" := by
  have hstep : ∀ (registry : Registry) (made : Call),
      ∀ identifier ∈ MetricsRegistry.fed handle registry made, identifier ≠ "" := by
    intro registry made identifier hmem
    unfold MetricsRegistry.fed at hmem
    split at hmem
    · split_ifs at hmem with hfed
      · rw [List.mem_singleton.mp hmem]
        exact hfed.2.1
      · cases hmem
    · cases hmem
  exact outputs_invariant (fun (identifiers : List String) (_ : Registry) =>
      ∀ identifier ∈ identifiers, identifier ≠ "") _
    (fun seen registry made hseen identifier hmem => by
      cases List.mem_append.mp hmem with
      | inl hold => exact hseen identifier hold
      | inr hnew => exact hstep registry made identifier hnew)
    (fun identifier hmem => by cases hmem) inst.allCalls

theorem sent_isSketch (inst : SdkInstance) : ∀ body ∈ inst.sent handle, IsSketch body :=
  outputs_invariant (fun (bodies : List Json) (_ : Registry) => ∀ body ∈ bodies, IsSketch body) _
    (fun seen registry made hseen body hmem => by
      cases List.mem_append.mp hmem with
      | inl hold => exact hseen body hold
      | inr hnew =>
          exact (@sketchStep_afterCall inst.sdk handle registry made).isSketch body hnew)
    (fun body hmem => by cases hmem) inst.allCalls

/-- The sketches that instances of one salt send join to that of all they were fed. -/
theorem union_sent_all {h64 : String → Fin (2 ^ 64)} {privacySalt : String}
    {instances : List SdkInstance}
    (hsalted : ∀ inst ∈ instances, inst.sdk.h64 = h64 ∧ inst.sdk.privacySalt = privacySalt) :
    union (sketches (instances.flatMap fun inst => inst.sent handle)) =
      sketch h64 privacySalt (instances.flatMap fun inst => inst.fed handle : List String) := by
  induction instances with
  | nil => rfl
  | cons inst instances ih =>
      have hfirst := hsalted inst List.mem_cons_self
      have hrest := ih fun other hother => hsalted other (List.mem_cons_of_mem _ hother)
      rw [List.flatMap_cons, List.flatMap_cons, sketches_append, union_append, hrest,
        inst.union_sent, hfirst.1, hfirst.2, ← Multiset.coe_add, sketch_add]

end

end Wardx.MetricsRegistry
