import Wardx.Lib.Arrivals
import Wardx.Core.SubjectState

/-!
# One bounded subject state in three languages

The JavaScript client keeps its subjects in a map that remembers insertion, the
C# client in a dictionary beside a linked list and the Swift client in a
dictionary beside a queue it cleans lazily. Each forgets a subject when a new
one needs its place. All three refine one store of arrivals.

The ports take the definition as parsed, with the fingerprint the JavaScript
client would compute. A dictionary is a table that is read by key alone, so the
order in which the ports enumerate one is not modelled. The node of a linked
list is its value with a number of its own. Swift's counters are unbounded here.
-/
namespace Wardx.BoundedSubjects

open Lib Json Control Config Wardx.Core

/-! ## What the ports share -/

/-- `ExperimentDefinition`, as far as the resolvers read it. -/
structure ExperimentDefinition where
  id : String
  enabled : Bool
  goalMetric : Option Json
  fingerprint : String

def definitionOf (hashes : Hashes) (experiment : Json) : ExperimentDefinition where
  id := idOf experiment
  enabled := truthy (experiment.get? "enabled")
  goalMetric := experiment.get? "goalMetric"
  fingerprint := experimentFingerprint hashes experiment

/-- `new ExperimentAssignment`. -/
def ExperimentDefinition.assignment (experiment : ExperimentDefinition) (variant : String) :
    Assignment where
  experiment := experiment.id
  variant := variant
  goalMetric := experiment.goalMetric
  fingerprint := experiment.fingerprint
  exposed := false

/-- The `active` fingerprints of `ApplySnapshot`. -/
def activeFingerprints (experiments : List ExperimentDefinition) : Table String String :=
  experiments.foldl (fun active experiment =>
    if experiment.enabled then active.put experiment.id experiment.fingerprint else active)
    Table.empty

/-- The assignments a snapshot leaves. -/
def kept (active : Table String String) (assignments : SubjectState) : SubjectState :=
  assignments.filter fun id assignment => decide (active.get id = some assignment.fingerprint)

/-- A dictionary of subjects. The number of one is its `OrderNode` in C# and its
`order` in Swift. -/
abbrev StateBySubject := Table String (ℕ × SubjectState)

/-- The second half of `RecordAssignment`, where the subject has a state. -/
def assignIn (subject : String) (state : ℕ × SubjectState) (experiment : ExperimentDefinition)
    (variant : String) (stateBySubject : StateBySubject) : Assignment × StateBySubject :=
  match state.2.get experiment.id with
  | some known => (known, stateBySubject)
  | none =>
      let assignment := experiment.assignment variant
      (assignment, stateBySubject.put subject (state.1, state.2.put experiment.id assignment))

/-! ## C# -/

namespace CSharp

structure ExperimentResolver where
  stateBySubject : StateBySubject
  subjectOrder : List (String × ℕ)
  nextNode : ℕ

def ExperimentResolver.new : ExperimentResolver := ⟨Table.empty, [], 0⟩

/-- The `while` loop of `RecordAssignment`. An empty list has no first node to
remove. -/
def evictOldest (stateMaxSubjects : ℕ) :
    StateBySubject → List (String × ℕ) → Except String (StateBySubject × List (String × ℕ))
  | stateBySubject, [] =>
      if stateMaxSubjects ≤ stateBySubject.size then .error "The LinkedList is empty."
      else .ok (stateBySubject, [])
  | stateBySubject, oldest :: rest =>
      if stateMaxSubjects ≤ stateBySubject.size then
        evictOldest stateMaxSubjects (stateBySubject.erase oldest.1) rest
      else .ok (stateBySubject, oldest :: rest)

/-- `RecordAssignment`. -/
def recordAssignment (hashes : Hashes) (stateMaxSubjects : ℕ) (subjectId : String)
    (experiment : ExperimentDefinition) (variant : String) (resolver : ExperimentResolver) :
    Except String (Assignment × ExperimentResolver) :=
  let subject := hashes.subjectHash subjectId
  match resolver.stateBySubject.get subject with
  | some state =>
      let (assignment, states) := assignIn subject state experiment variant resolver.stateBySubject
      .ok (assignment, { resolver with stateBySubject := states })
  | none =>
      match evictOldest stateMaxSubjects resolver.stateBySubject resolver.subjectOrder with
      | .error e => .error e
      | .ok (room, order) =>
          let state := (resolver.nextNode, Table.empty)
          let (assignment, states) :=
            assignIn subject state experiment variant (room.put subject state)
          .ok (assignment, ⟨states, order ++ [(subject, resolver.nextNode)], resolver.nextNode + 1⟩)

/-- The end of `ApplySnapshot`, for one of the `emptySubjects`. -/
def removeSubject (resolver : ExperimentResolver) (subject : String × ℕ × SubjectState) :
    ExperimentResolver :=
  { resolver with
    subjectOrder := resolver.subjectOrder.filter fun node => node.2 ≠ subject.2.1
    stateBySubject := resolver.stateBySubject.erase subject.1 }

/-- `ApplySnapshot`. -/
def applySnapshot (experiments : List ExperimentDefinition) (resolver : ExperimentResolver) :
    ExperimentResolver :=
  let active := activeFingerprints experiments
  let states := resolver.stateBySubject.mapValues fun _ state => (state.1, kept active state.2)
  let emptySubjects := states.filter fun _ state => state.2.size = 0
  emptySubjects.entries.foldl removeSubject { resolver with stateBySubject := states }

end CSharp

/-! ## Swift -/

namespace Swift

structure ExperimentResolver where
  stateBySubject : StateBySubject
  order : List (String × ℕ)
  orderHead : ℕ
  nextOrder : ℕ

def ExperimentResolver.new : ExperimentResolver := ⟨Table.empty, [], 0, 0⟩

/-- The test of `evictOldest` and of `applySnapshot`: the entry is the one its
subject was queued with. -/
def isLive (stateBySubject : StateBySubject) (entry : String × ℕ) : Bool :=
  decide ((stateBySubject.get entry.1).map Prod.fst = some entry.2)

/-- The loop of `evictOldest`, over the entries from `orderHead` on. -/
def removeFirstLive :
    StateBySubject → ℕ → List (String × ℕ) → StateBySubject × ℕ
  | stateBySubject, orderHead, [] => (stateBySubject, orderHead)
  | stateBySubject, orderHead, entry :: rest =>
      if isLive stateBySubject entry then (stateBySubject.erase entry.1, orderHead + 1)
      else removeFirstLive stateBySubject (orderHead + 1) rest

/-- `order.removeFirst(orderHead)` where the queue is long and mostly read. -/
def compact (resolver : ExperimentResolver) : ExperimentResolver :=
  if 1024 < resolver.orderHead ∧ resolver.order.length < resolver.orderHead * 2 then
    { resolver with order := resolver.order.drop resolver.orderHead, orderHead := 0 }
  else resolver

/-- `evictOldest`. -/
def evictOldest (resolver : ExperimentResolver) : ExperimentResolver :=
  let (states, head) := removeFirstLive resolver.stateBySubject resolver.orderHead
    (resolver.order.drop resolver.orderHead)
  compact { resolver with stateBySubject := states, orderHead := head }

/-- The `while` loop of `recordAssignment`, run at most `fuel` times. -/
def makeRoom (stateMaxSubjects : ℕ) : ℕ → ExperimentResolver → Option ExperimentResolver
  | 0, resolver =>
      if stateMaxSubjects ≤ resolver.stateBySubject.size then none else some resolver
  | fuel + 1, resolver =>
      if stateMaxSubjects ≤ resolver.stateBySubject.size then
        makeRoom stateMaxSubjects fuel (evictOldest resolver)
      else some resolver

/-- `recordAssignment`. -/
def recordAssignment (hashes : Hashes) (stateMaxSubjects fuel : ℕ) (subjectId : String)
    (experiment : ExperimentDefinition) (variant : String) (resolver : ExperimentResolver) :
    Option (Assignment × ExperimentResolver) :=
  let subject := hashes.subjectHash subjectId
  match resolver.stateBySubject.get subject with
  | some state =>
      let (assignment, states) := assignIn subject state experiment variant resolver.stateBySubject
      some (assignment, { resolver with stateBySubject := states })
  | none =>
      match makeRoom stateMaxSubjects fuel resolver with
      | none => none
      | some room =>
          let state := (room.nextOrder, Table.empty)
          let (assignment, states) :=
            assignIn subject state experiment variant (room.stateBySubject.put subject state)
          some (assignment, { room with
            stateBySubject := states
            order := room.order ++ [(subject, room.nextOrder)]
            nextOrder := room.nextOrder + 1 })

/-- `applySnapshot`. -/
def applySnapshot (experiments : List ExperimentDefinition) (resolver : ExperimentResolver) :
    ExperimentResolver :=
  let active := activeFingerprints experiments
  let states := (resolver.stateBySubject.mapValues fun _ state =>
    (state.1, kept active state.2)).filter fun _ state => state.2.size ≠ 0
  { resolver with
    stateBySubject := states
    order := (resolver.order.drop resolver.orderHead).filter (isLive states)
    orderHead := 0 }

end Swift

/-! ## Runs -/

inductive ResolverCall
  | recordAssignment (subjectId : String) (experiment variant : Json)
  | applySnapshot (experiments : List Json)

variable (settings : ClientSettings)

/-- The JavaScript client's subjects after a call. -/
def jsStep : ResolverCall → SubjectStates → SubjectStates
  | .recordAssignment subjectId experiment variant, states =>
      (Core.recordAssignment settings.hashes settings.experimentStateMaxSubjects subjectId
        experiment variant states).2
  | .applySnapshot experiments, states => Core.applySnapshot settings.hashes experiments states

def jsAfter (calls : List ResolverCall) : SubjectStates :=
  run (jsStep settings) Table.empty calls

/-- The C# client's resolver after a call. -/
def csharpStep (resolver : CSharp.ExperimentResolver) :
    ResolverCall → Except String CSharp.ExperimentResolver
  | .recordAssignment subjectId experiment variant =>
      (CSharp.recordAssignment settings.hashes settings.experimentStateMaxSubjects subjectId
        (definitionOf settings.hashes experiment) (keyOf variant) resolver).map Prod.snd
  | .applySnapshot experiments =>
      .ok (CSharp.applySnapshot (experiments.map (definitionOf settings.hashes)) resolver)

def csharpAfter (calls : List ResolverCall) : Except String CSharp.ExperimentResolver :=
  calls.foldlM (csharpStep settings) .new

/-- The Swift client's resolver after a call, its loop run at most `fuel` times. -/
def swiftStep (fuel : ℕ) (resolver : Swift.ExperimentResolver) :
    ResolverCall → Option Swift.ExperimentResolver
  | .recordAssignment subjectId experiment variant =>
      (Swift.recordAssignment settings.hashes settings.experimentStateMaxSubjects fuel subjectId
        (definitionOf settings.hashes experiment) (keyOf variant) resolver).map Prod.snd
  | .applySnapshot experiments =>
      some (Swift.applySnapshot (experiments.map (definitionOf settings.hashes)) resolver)

def swiftAfter (fuel : ℕ) (calls : List ResolverCall) : Option Swift.ExperimentResolver :=
  calls.foldlM (swiftStep settings fuel) .new

/-! ## The store of arrivals -/

/-- A subject's assignments with one more, unless the experiment has one. -/
def assigned (experiment : ExperimentDefinition) (variant : String) (assignments : SubjectState) :
    SubjectState :=
  match assignments.get experiment.id with
  | some _ => assignments
  | none => assignments.put experiment.id (experiment.assignment variant)

/-- A subject's assignments after a snapshot, unless none is left. -/
def pruned (active : Table String String) (assignments : SubjectState) : Option SubjectState :=
  if (kept active assignments).size ≠ 0 then some (kept active assignments) else none

/-- What a bounded subject state is for: a new subject takes the place of the
one that entered earliest. -/
noncomputable def arrivalsStep :
    ResolverCall → Arrivals String SubjectState → Arrivals String SubjectState
  | .recordAssignment subjectId experiment variant, a =>
      let subject := settings.hashes.subjectHash subjectId
      let assign := assigned (definitionOf settings.hashes experiment) (keyOf variant)
      match a.live subject with
      | some state => a.write subject (assign state.2)
      | none => (a.makeRoom settings.experimentStateMaxSubjects).enter subject (assign Table.empty)
  | .applySnapshot experiments, a =>
      a.retain (pruned (activeFingerprints (experiments.map (definitionOf settings.hashes))))

noncomputable def arrivalsAfter (calls : List ResolverCall) : Arrivals String SubjectState :=
  run (arrivalsStep settings) .empty calls

/-! ## One definition in all three -/

theorem activeFingerprints_map (hashes : Hashes) (experiments : List Json) :
    activeFingerprints (experiments.map (definitionOf hashes)) =
      Core.activeFingerprints hashes experiments := by
  unfold activeFingerprints Core.activeFingerprints
  rw [List.foldl_map]
  rfl

section
variable {a : Arrivals String SubjectState} {states : StateBySubject} {subject : String}

/-- The second half of `RecordAssignment` writes the subject's assignments. -/
theorem numbered_assignIn (h : a.Numbered states) {state : ℕ × SubjectState}
    (hlive : a.live subject = some state) (experiment : ExperimentDefinition) (variant : String) :
    (a.write subject (assigned experiment variant state.2)).Numbered
      (assignIn subject state experiment variant states).2 := by
  unfold assigned assignIn
  cases hknown : state.2.get experiment.id with
  | some known =>
      rw [Arrivals.write_of_live hlive]
      exact h
  | none => exact h.write hlive _

/-- A new subject's number and assignments. -/
theorem numbered_new (h : a.Numbered states) (experiment : ExperimentDefinition)
    (variant : String) :
    (a.enter subject (assigned experiment variant Table.empty)).Numbered
      (assignIn subject (a.next, Table.empty) experiment variant
        (states.put subject (a.next, Table.empty))).2 := by
  rw [← Arrivals.write_enter a subject Table.empty]
  apply numbered_assignIn (h.enter subject Table.empty)
  unfold Arrivals.enter
  simp

end

section
variable {max : ℕ} {a : Arrivals String SubjectState}

theorem next_makeRoom (a : Arrivals String SubjectState) : (a.makeRoom max).next = a.next := by
  unfold Arrivals.makeRoom
  split_ifs
  · rfl
  · rfl

theorem live_makeRoom_of_none {subject : String} (h : a.live subject = none) :
    (a.makeRoom max).live subject = none := by
  unfold Arrivals.makeRoom
  split_ifs
  · exact Arrivals.live_evict_of_none h
  · exact h

/-! ## The JavaScript map -/

/-- The map lists at most `max` subjects in the order they entered. -/
def JsHolds (max : ℕ) (a : Arrivals String SubjectState) (states : SubjectStates) : Prop :=
  ∃ queue, a.Ordered queue states ∧ queue.length ≤ max

/-- Making room in the map drops its first entry, if it is full. -/
theorem ordered_evictOldest {queue : List (String × ℕ)} {states : SubjectStates}
    (h : a.Ordered queue states) (hpos : 1 ≤ max) (hbound : queue.length ≤ max) :
    ∃ rest, (a.makeRoom max).Ordered rest (Core.evictOldest max states) ∧ rest.length < max := by
  have hsize := h.size_eq
  obtain ⟨hroom, hsame⟩ | ⟨e, rest, rfl, hfull, hevict⟩ := h.lists.makeRoom_cases hpos
  · refine ⟨queue, ?_, hroom⟩
    have hdrop : states.size + 1 - max = 0 := by omega
    have hstates : Core.evictOldest max states = states := by
      apply Table.ext_entries
      simp only [Core.evictOldest, hdrop, List.drop_zero]
    rw [hsame, hstates]
    exact h
  · refine ⟨rest, ?_, by simp only [List.length_cons] at hbound; omega⟩
    have hdrop : states.size + 1 - max = 1 := by omega
    rw [hevict]
    apply h.evict
    simp only [Core.evictOldest, hdrop]

theorem jsStep_holds {states : SubjectStates} (call : ResolverCall)
    (h : JsHolds settings.experimentStateMaxSubjects a states) :
    JsHolds settings.experimentStateMaxSubjects (arrivalsStep settings call a)
      (jsStep settings call states) := by
  obtain ⟨queue, hordered, hbound⟩ := h
  cases call with
  | recordAssignment subjectId experiment variant =>
      have hget := hordered.get (settings.hashes.subjectHash subjectId)
      unfold jsStep arrivalsStep Core.recordAssignment assigned
      dsimp only
      cases hlive : a.live (settings.hashes.subjectHash subjectId) with
      | some state =>
          rw [hlive, Option.map_some] at hget
          simp only [hget]
          refine ⟨queue, ?_, hbound⟩
          cases hknown : state.2.get (idOf experiment) with
          | some known =>
              simp only [definitionOf, hknown]
              rw [Arrivals.write_of_live hlive]
              exact hordered
          | none =>
              simp only [definitionOf, hknown]
              exact hordered.write hlive _
      | none =>
          rw [hlive, Option.map_none] at hget
          simp only [hget, Table.get_empty]
          obtain ⟨rest, hroom, hlt⟩ := ordered_evictOldest hordered settings.max_pos hbound
          refine ⟨_, hroom.enter ?_ _, ?_⟩
          · exact live_makeRoom_of_none hlive
          · rw [List.length_append, List.length_singleton]
            omega
  | applySnapshot experiments =>
      unfold jsStep arrivalsStep Core.applySnapshot
      dsimp only
      rw [activeFingerprints_map]
      obtain ⟨queue', hretain, hle⟩ := hordered.retain (f := pruned (Core.activeFingerprints settings.hashes
        experiments)) (g := kept (Core.activeFingerprints settings.hashes experiments))
        (p := fun assignments => decide (assignments.size ≠ 0))
        (fun v => by unfold pruned; simp)
      exact ⟨queue', hretain, hle.trans hbound⟩

/-! ## The C# dictionary and list -/

structure CSharpHolds (max : ℕ) (a : Arrivals String SubjectState)
    (resolver : CSharp.ExperimentResolver) : Prop where
  numbered : a.Numbered resolver.stateBySubject
  lists : a.Lists resolver.subjectOrder
  next : resolver.nextNode = a.next
  bounded : resolver.subjectOrder.length ≤ max

theorem csharp_evictOldest_of_room {states : StateBySubject} (h : states.size < max)
    (order : List (String × ℕ)) : CSharp.evictOldest max states order = .ok (states, order) := by
  have hroom : ¬ max ≤ states.size := by omega
  cases order with
  | nil => rw [CSharp.evictOldest, if_neg hroom]
  | cons e rest => rw [CSharp.evictOldest, if_neg hroom]

/-- The loop ends with room, and finds a first node whenever it wants one. -/
theorem csharp_evictOldest {states : StateBySubject} {order : List (String × ℕ)}
    (hnum : a.Numbered states) (hlists : a.Lists order) (hpos : 1 ≤ max)
    (hbound : order.length ≤ max) :
    ∃ room rest, CSharp.evictOldest max states order = .ok (room, rest) ∧
      (a.makeRoom max).Numbered room ∧ (a.makeRoom max).Lists rest ∧ rest.length < max := by
  have hsize := hlists.size_eq hnum.isSome
  obtain ⟨hroom, hsame⟩ | ⟨e, rest, rfl, hfull, hevict⟩ := hlists.makeRoom_cases hpos
  · rw [hsame]
    exact ⟨states, order, csharp_evictOldest_of_room (by omega) order, hnum, hlists, hroom⟩
  · rw [hevict]
    have hnum' := hnum.evict hlists
    have hsize' := hlists.evict.size_eq hnum'.isSome
    rw [List.length_cons] at hbound
    refine ⟨states.erase e.1, rest, ?_, hnum', hlists.evict, by omega⟩
    rw [CSharp.evictOldest, if_pos (by omega)]
    exact csharp_evictOldest_of_room (by omega) rest

/-- What removing the empty subjects leaves. -/
theorem foldl_removeSubject (subjects : List (String × ℕ × SubjectState))
    (resolver : CSharp.ExperimentResolver) :
    (∀ subject, (subjects.foldl CSharp.removeSubject resolver).stateBySubject.get subject =
      if subject ∈ subjects.map Prod.fst then none else resolver.stateBySubject.get subject) ∧
    (subjects.foldl CSharp.removeSubject resolver).subjectOrder =
      resolver.subjectOrder.filter (fun node => node.2 ∉ subjects.map fun e => e.2.1) ∧
    (subjects.foldl CSharp.removeSubject resolver).nextNode = resolver.nextNode := by
  induction subjects generalizing resolver with
  | nil => simp
  | cons e subjects ih =>
      obtain ⟨hget, horder, hnext⟩ := ih (CSharp.removeSubject resolver e)
      rw [List.foldl_cons]
      refine ⟨fun subject => ?_, ?_, hnext⟩
      · rw [hget, CSharp.removeSubject, Table.get_erase]
        by_cases hfirst : subject = e.1
        · simp [hfirst]
        · simp only [List.map_cons, List.mem_cons, hfirst, false_or, if_false]
      · rw [horder, CSharp.removeSubject, List.filter_filter]
        apply List.filter_congr
        intro node _
        simp only [List.map_cons, List.mem_cons, not_or, Bool.decide_and]
        rw [Bool.and_comm]

theorem csharp_applySnapshot {resolver : CSharp.ExperimentResolver} (h : CSharpHolds max a resolver)
    (experiments : List ExperimentDefinition) :
    CSharpHolds max (a.retain (pruned (activeFingerprints experiments)))
      (CSharp.applySnapshot experiments resolver) := by
  let active := activeFingerprints experiments
  let states := resolver.stateBySubject.mapValues fun _ state => (state.1, kept active state.2)
  let emptySubjects := states.filter fun _ state => state.2.size = 0
  have hstates : ∀ subject, states.get subject =
      (a.live subject).map fun state => (state.1, kept active state.2) := by
    intro subject
    rw [Table.get_mapValues, h.numbered subject]
  have hempty : ∀ subject, emptySubjects.get subject =
      (states.get subject).filter fun state => state.2.size = 0 :=
    fun subject => Table.get_filter _ states subject
  obtain ⟨hget, horder, hnext⟩ := foldl_removeSubject emptySubjects.entries
    { resolver with stateBySubject := states }
  refine ⟨fun subject => ?_, ?_, hnext.trans h.next, ?_⟩
  · have hmem := (emptySubjects.get_isSome_iff subject).symm
    unfold Table.keys at hmem
    rw [hempty, hstates] at hmem
    unfold CSharp.applySnapshot
    rw [hget subject]
    dsimp only
    rw [hstates]
    unfold Arrivals.retain pruned
    dsimp only
    cases hlive : a.live subject with
    | none =>
        have hnot : subject ∉ emptySubjects.entries.map Prod.fst := by
          rw [hmem, hlive]
          simp
        rw [if_neg hnot]
        rfl
    | some state =>
        rw [hlive] at hmem
        by_cases hnone : (kept active state.2).size = 0
        · rw [if_pos (hmem.mpr (by simp [hnone]))]
          simp [active, hnone]
        · rw [if_neg (mt hmem.mp (by simp [hnone]))]
          simp [active, hnone]
  · unfold CSharp.applySnapshot
    rw [horder]
    apply h.lists.retain
    intro subject n assignments hlive
    have hiff : n ∈ emptySubjects.entries.map (fun e => e.2.1) ↔
        (kept active assignments).size = 0 := by
      constructor
      · intro hmem
        obtain ⟨⟨other, m, left⟩, hentry, rfl⟩ := List.mem_map.mp hmem
        have hother := (emptySubjects.get_eq_some_iff other (m, left)).mpr hentry
        rw [hempty, hstates, Option.filter_eq_some_iff, Option.map_eq_some_iff] at hother
        obtain ⟨⟨state, hstate, heq⟩, hzero⟩ := hother
        simp only [Prod.mk.injEq] at heq
        have hsame : other = subject := h.lists.key_unique
          ((h.lists.mem_iff other m).mpr ⟨state.2, by rw [hstate, ← heq.1]⟩)
          ((h.lists.mem_iff subject m).mpr ⟨assignments, hlive⟩)
        rw [hsame, hlive] at hstate
        have hkept : kept active assignments = left := by
          rw [← heq.2, ← Option.some.inj hstate]
        simpa [hkept] using hzero
      · intro hzero
        refine List.mem_map.mpr ⟨(subject, n, kept active assignments), ?_, rfl⟩
        rw [← Table.get_eq_some_iff, hempty, hstates, hlive]
        simp [hzero]
    simp only [hiff]
    unfold pruned
    by_cases hnone : (kept active assignments).size = 0
    · simp [active, hnone]
    · simp [active, hnone]
  · unfold CSharp.applySnapshot
    rw [horder]
    exact (List.length_filter_le _ _).trans h.bounded

theorem csharpStep_holds {resolver : CSharp.ExperimentResolver} (call : ResolverCall)
    (h : CSharpHolds settings.experimentStateMaxSubjects a resolver) :
    ∃ resolver', csharpStep settings resolver call = .ok resolver' ∧
      CSharpHolds settings.experimentStateMaxSubjects (arrivalsStep settings call a) resolver' := by
  cases call with
  | recordAssignment subjectId experiment variant =>
      have hget := h.numbered (settings.hashes.subjectHash subjectId)
      unfold csharpStep arrivalsStep CSharp.recordAssignment
      dsimp only
      rw [hget]
      cases hlive : a.live (settings.hashes.subjectHash subjectId) with
      | some state =>
          exact ⟨_, rfl, numbered_assignIn h.numbered hlive _ _, h.lists.write _ _, h.next, h.bounded⟩
      | none =>
          obtain ⟨room, rest, heq, hnum, hlists, hlt⟩ :=
            csharp_evictOldest h.numbered h.lists settings.max_pos h.bounded
          have hnext : resolver.nextNode =
              (a.makeRoom settings.experimentStateMaxSubjects).next := by
            rw [next_makeRoom, h.next]
          simp only [heq, hnext]
          refine ⟨_, rfl, numbered_new hnum _ _, hlists.enter (live_makeRoom_of_none hlive) _, rfl, ?_⟩
          rw [List.length_append, List.length_singleton]
          omega
  | applySnapshot experiments => exact ⟨_, rfl, csharp_applySnapshot h _⟩

/-! ## The Swift dictionary and queue -/

/-- The entries `evictOldest` has not passed. -/
def Swift.ExperimentResolver.ahead (resolver : Swift.ExperimentResolver) : List (String × ℕ) :=
  resolver.order.drop resolver.orderHead

/-- Every live subject has one live entry ahead, and an entry that is not live
stays so: its number is not given again. -/
structure SwiftHolds (max : ℕ) (a : Arrivals String SubjectState)
    (resolver : Swift.ExperimentResolver) : Prop where
  numbered : a.Numbered resolver.stateBySubject
  lists : a.Lists (resolver.ahead.filter (Swift.isLive resolver.stateBySubject))
  fresh : ∀ entry ∈ resolver.ahead, entry.2 < a.next
  next : resolver.nextOrder = a.next
  head_le : resolver.orderHead ≤ resolver.order.length
  bounded : (resolver.ahead.filter (Swift.isLive resolver.stateBySubject)).length ≤ max

theorem isLive_erase (states : StateBySubject) (subject : String) :
    Swift.isLive (states.erase subject) =
      fun entry => decide (entry.1 ≠ subject) && Swift.isLive states entry := by
  funext entry
  unfold Swift.isLive
  rw [Table.get_erase]
  by_cases h : entry.1 = subject
  · simp [h]
  · simp [h]

/-- The loop passes the entries that are not live and removes the subject of the
first that is. -/
theorem removeFirstLive_spec {states : StateBySubject} {first : String × ℕ}
    {rest entries : List (String × ℕ)} (head : ℕ)
    (h : entries.filter (Swift.isLive states) = first :: rest) :
    ∃ passed, Swift.removeFirstLive states head entries = (states.erase first.1, head + passed) ∧
      passed ≤ entries.length ∧ (entries.drop passed).filter (Swift.isLive states) = rest := by
  induction entries generalizing head with
  | nil => cases h
  | cons entry entries ih =>
      by_cases hlive : Swift.isLive states entry
      · rw [List.filter_cons_of_pos hlive, List.cons.injEq] at h
        refine ⟨1, ?_, by simp, ?_⟩
        · rw [Swift.removeFirstLive, if_pos hlive, h.1]
        · rw [List.drop_one, List.tail_cons, h.2]
      · rw [List.filter_cons_of_neg hlive] at h
        obtain ⟨passed, hremove, hle, hrest⟩ := ih (head + 1) h
        refine ⟨passed + 1, ?_, by simpa using hle, ?_⟩
        · rw [Swift.removeFirstLive, if_neg hlive, hremove]
          congr 1
          omega
        · rw [List.drop_succ_cons, hrest]

@[simp] theorem stateBySubject_compact (resolver : Swift.ExperimentResolver) :
    (Swift.compact resolver).stateBySubject = resolver.stateBySubject := by
  unfold Swift.compact
  split_ifs
  · rfl
  · rfl

@[simp] theorem nextOrder_compact (resolver : Swift.ExperimentResolver) :
    (Swift.compact resolver).nextOrder = resolver.nextOrder := by
  unfold Swift.compact
  split_ifs
  · rfl
  · rfl

theorem head_le_compact {resolver : Swift.ExperimentResolver}
    (h : resolver.orderHead ≤ resolver.order.length) :
    (Swift.compact resolver).orderHead ≤ (Swift.compact resolver).order.length := by
  unfold Swift.compact
  split_ifs
  · exact Nat.zero_le _
  · exact h

@[simp] theorem ahead_compact (resolver : Swift.ExperimentResolver) :
    (Swift.compact resolver).ahead = resolver.ahead := by
  unfold Swift.compact Swift.ExperimentResolver.ahead
  split_ifs
  · simp
  · rfl

/-- One call of `evictOldest` removes the earliest subject. -/
theorem swift_evictOldest {resolver : Swift.ExperimentResolver} (h : SwiftHolds max a resolver)
    {first : String × ℕ} {rest : List (String × ℕ)}
    (hfirst : resolver.ahead.filter (Swift.isLive resolver.stateBySubject) = first :: rest) :
    SwiftHolds (max - 1) a.evict (Swift.evictOldest resolver) := by
  obtain ⟨passed, hremove, hle, hrest⟩ := removeFirstLive_spec resolver.orderHead hfirst
  have hlists := h.lists
  rw [hfirst] at hlists
  have hstates : (Swift.evictOldest resolver).stateBySubject =
      resolver.stateBySubject.erase first.1 := by
    unfold Swift.evictOldest
    rw [← Swift.ExperimentResolver.ahead, hremove, stateBySubject_compact]
  have hahead : (Swift.evictOldest resolver).ahead = resolver.ahead.drop passed := by
    unfold Swift.evictOldest
    rw [← Swift.ExperimentResolver.ahead, hremove, ahead_compact]
    unfold Swift.ExperimentResolver.ahead
    rw [List.drop_drop]
  have hqueue : (Swift.evictOldest resolver).ahead.filter
      (Swift.isLive (Swift.evictOldest resolver).stateBySubject) = rest := by
    rw [hstates, hahead, isLive_erase, ← List.filter_filter, hrest]
    have hkeys := hlists.nodup_keys
    rw [List.map_cons, List.nodup_cons] at hkeys
    have hall : ∀ entry ∈ rest, decide (entry.1 ≠ first.1) = true := by
      intro entry hentry
      have hne : entry.1 ≠ first.1 := fun heq => hkeys.1 (List.mem_map.mpr ⟨entry, hentry, heq⟩)
      simpa using hne
    exact List.filter_eq_self.mpr hall
  refine ⟨?_, ?_, fun entry hentry => ?_, ?_, ?_, ?_⟩
  · rw [hstates]
    exact h.numbered.evict hlists
  · rw [hqueue]
    exact hlists.evict
  · rw [hahead] at hentry
    exact h.fresh entry (List.mem_of_mem_drop hentry)
  · unfold Swift.evictOldest
    rw [nextOrder_compact]
    exact h.next
  · have hhead := h.head_le
    unfold Swift.ExperimentResolver.ahead at hle
    rw [List.length_drop] at hle
    unfold Swift.evictOldest
    rw [← Swift.ExperimentResolver.ahead, hremove]
    apply head_le_compact
    dsimp only
    omega
  · have hbound := h.bounded
    rw [hfirst, List.length_cons] at hbound
    rw [hqueue]
    omega

theorem swift_makeRoom_of_room {resolver : Swift.ExperimentResolver}
    (h : resolver.stateBySubject.size < max) (fuel : ℕ) :
    Swift.makeRoom max fuel resolver = some resolver := by
  have hroom : ¬ max ≤ resolver.stateBySubject.size := by omega
  cases fuel with
  | zero => rw [Swift.makeRoom, if_neg hroom]
  | succ fuel => rw [Swift.makeRoom, if_neg hroom]

/-- The loop of `recordAssignment` ends after one round at the most. -/
theorem swift_makeRoom {resolver : Swift.ExperimentResolver} (h : SwiftHolds max a resolver)
    (hpos : 1 ≤ max) (fuel : ℕ) :
    ∃ room, Swift.makeRoom max (fuel + 1) resolver = some room ∧
      SwiftHolds (max - 1) (a.makeRoom max) room := by
  have hsize := h.lists.size_eq h.numbered.isSome
  obtain ⟨hroom, hsame⟩ | ⟨first, rest, hfirst, hfull, hevict⟩ := h.lists.makeRoom_cases hpos
  · rw [hsame]
    exact ⟨resolver, swift_makeRoom_of_room (by omega) _, { h with bounded := by omega }⟩
  · rw [hevict]
    have hkept := swift_evictOldest h hfirst
    have hsize' := hkept.lists.size_eq hkept.numbered.isSome
    have hbound := hkept.bounded
    refine ⟨Swift.evictOldest resolver, ?_, hkept⟩
    rw [Swift.makeRoom, if_pos (by omega)]
    exact swift_makeRoom_of_room (by omega) fuel

/-- Writing a subject under its number leaves the live entries alone. -/
theorem isLive_put {states : StateBySubject} {subject : String} {n : ℕ} {assignments : SubjectState}
    (h : states.get subject = some (n, assignments)) (written : SubjectState) :
    Swift.isLive (states.put subject (n, written)) = Swift.isLive states := by
  funext entry
  unfold Swift.isLive
  rw [Table.get_put]
  by_cases hsubject : entry.1 = subject
  · simp [hsubject, h]
  · simp [hsubject]

theorem isLive_assignIn {states : StateBySubject} {subject : String} {state : ℕ × SubjectState}
    (h : states.get subject = some state) (experiment : ExperimentDefinition) (variant : String) :
    Swift.isLive (assignIn subject state experiment variant states).2 = Swift.isLive states := by
  unfold assignIn
  cases state.2.get experiment.id with
  | some known => rfl
  | none => exact isLive_put h _

theorem swift_known {resolver : Swift.ExperimentResolver} (h : SwiftHolds max a resolver)
    {subject : String} {state : ℕ × SubjectState} (hlive : a.live subject = some state)
    (experiment : ExperimentDefinition) (variant : String) :
    SwiftHolds max (a.write subject (assigned experiment variant state.2))
      { resolver with
        stateBySubject := (assignIn subject state experiment variant resolver.stateBySubject).2 } := by
  have hsame := isLive_assignIn ((h.numbered subject).trans hlive) experiment variant
  refine ⟨numbered_assignIn h.numbered hlive _ _, ?_, h.fresh, h.next, h.head_le, ?_⟩
  · rw [hsame]
    exact h.lists.write _ _
  · rw [hsame]
    exact h.bounded

/-- A new subject has one live entry, the one it is queued with. -/
theorem swift_new {resolver : Swift.ExperimentResolver} (h : SwiftHolds (max - 1) a resolver)
    (hpos : 1 ≤ max) {subject : String} (hlive : a.live subject = none)
    (experiment : ExperimentDefinition) (variant : String) :
    SwiftHolds max (a.enter subject (assigned experiment variant Table.empty))
      { resolver with
        stateBySubject := (assignIn subject (a.next, Table.empty) experiment variant
          (resolver.stateBySubject.put subject (a.next, Table.empty))).2
        order := resolver.order ++ [(subject, a.next)]
        nextOrder := a.next + 1 } := by
  let states := resolver.stateBySubject.put subject (a.next, (Table.empty : SubjectState))
  have hnone : resolver.stateBySubject.get subject = none := (h.numbered subject).trans hlive
  have hsame : Swift.isLive (assignIn subject (a.next, Table.empty) experiment variant states).2 =
      Swift.isLive states := isLive_assignIn (Table.get_put_self _ _ _) experiment variant
  have hahead : (resolver.order ++ [(subject, a.next)]).drop resolver.orderHead =
      resolver.ahead ++ [(subject, a.next)] := List.drop_append_of_le_length h.head_le
  -- A stale entry of the subject has a smaller number than the one it gets now.
  have hold : resolver.ahead.filter (Swift.isLive states) =
      resolver.ahead.filter (Swift.isLive resolver.stateBySubject) := by
    apply List.filter_congr
    intro entry hentry
    have hlt := h.fresh entry hentry
    unfold Swift.isLive
    rw [Table.get_put]
    by_cases hsubject : entry.1 = subject
    · have hne : a.next ≠ entry.2 := by omega
      simp [hsubject, hnone, hne]
    · simp [hsubject]
  have hnew : Swift.isLive states (subject, a.next) = true := by
    simp [Swift.isLive, states]
  have hqueue : (resolver.ahead ++ [(subject, a.next)]).filter (Swift.isLive states) =
      resolver.ahead.filter (Swift.isLive resolver.stateBySubject) ++ [(subject, a.next)] := by
    rw [List.filter_append, hold, List.filter_singleton, hnew]
    rfl
  refine ⟨numbered_new h.numbered _ _, ?_, fun entry hentry => ?_, rfl, ?_, ?_⟩
  · unfold Swift.ExperimentResolver.ahead
    rw [hsame, hahead, hqueue]
    exact h.lists.enter hlive _
  · unfold Swift.ExperimentResolver.ahead at hentry
    rw [hahead, List.mem_append, List.mem_singleton] at hentry
    show entry.2 < a.next + 1
    cases hentry with
    | inl hbefore =>
        have hlt := h.fresh entry hbefore
        omega
    | inr hlast =>
        rw [hlast]
        exact Nat.lt_succ_self _
  · have hhead := h.head_le
    dsimp only
    rw [List.length_append]
    omega
  · have hbound := h.bounded
    unfold Swift.ExperimentResolver.ahead
    rw [hsame, hahead, hqueue, List.length_append, List.length_singleton]
    omega

theorem swift_applySnapshot {resolver : Swift.ExperimentResolver} (h : SwiftHolds max a resolver)
    (experiments : List ExperimentDefinition) :
    SwiftHolds max (a.retain (pruned (activeFingerprints experiments)))
      (Swift.applySnapshot experiments resolver) := by
  let active := activeFingerprints experiments
  let states := (resolver.stateBySubject.mapValues fun _ state =>
    (state.1, kept active state.2)).filter fun _ state => state.2.size ≠ 0
  have hstates : ∀ subject, states.get subject = (resolver.stateBySubject.get subject).bind
      fun state => (pruned active state.2).map fun assignments => (state.1, assignments) := by
    intro subject
    rw [Table.get_filter, Table.get_mapValues]
    unfold pruned
    cases resolver.stateBySubject.get subject with
    | none => rfl
    | some state =>
        by_cases hnone : (kept active state.2).size = 0
        · simp [hnone]
        · simp [hnone]
  have hnumbered : (a.retain (pruned active)).Numbered states := h.numbered.retain hstates
  have hahead : (Swift.applySnapshot experiments resolver).ahead =
      resolver.ahead.filter (Swift.isLive states) := List.drop_zero
  -- What is live after the snapshot was live before.
  have hqueue : resolver.ahead.filter (Swift.isLive states) =
      (resolver.ahead.filter (Swift.isLive resolver.stateBySubject)).filter
        (Swift.isLive states) := by
    rw [List.filter_filter]
    apply List.filter_congr
    intro entry _
    have himp : Swift.isLive states entry = true →
        Swift.isLive resolver.stateBySubject entry = true := by
      unfold Swift.isLive
      rw [hstates]
      cases resolver.stateBySubject.get entry.1 with
      | none => simp
      | some state => cases pruned active state.2 <;> simp
    cases hlive : Swift.isLive states entry with
    | true => simp [himp hlive]
    | false => simp
  have hagain : (Swift.applySnapshot experiments resolver).ahead.filter (Swift.isLive states) =
      (resolver.ahead.filter (Swift.isLive resolver.stateBySubject)).filter
        (Swift.isLive states) := by
    rw [hahead, hqueue, List.filter_filter]
    simp
  refine ⟨hnumbered, ?_, fun entry hentry => ?_, h.next, Nat.zero_le _, ?_⟩
  · show (a.retain (pruned active)).Lists
      ((Swift.applySnapshot experiments resolver).ahead.filter (Swift.isLive states))
    rw [hagain]
    apply h.lists.retain
    intro subject n assignments hlive
    have hget := hnumbered subject
    simp only [Arrivals.retain, hlive, Option.bind_some] at hget
    simp only [Swift.isLive, hget]
    cases pruned active assignments <;> simp
  · rw [hahead] at hentry
    exact h.fresh entry (List.mem_of_mem_filter hentry)
  · show ((Swift.applySnapshot experiments resolver).ahead.filter
      (Swift.isLive states)).length ≤ max
    rw [hagain]
    exact (List.length_filter_le _ _).trans h.bounded

theorem swiftStep_holds {resolver : Swift.ExperimentResolver} (fuel : ℕ) (call : ResolverCall)
    (h : SwiftHolds settings.experimentStateMaxSubjects a resolver) :
    ∃ resolver', swiftStep settings (fuel + 1) resolver call = some resolver' ∧
      SwiftHolds settings.experimentStateMaxSubjects (arrivalsStep settings call a) resolver' := by
  cases call with
  | recordAssignment subjectId experiment variant =>
      have hget := h.numbered (settings.hashes.subjectHash subjectId)
      unfold swiftStep arrivalsStep Swift.recordAssignment
      dsimp only
      rw [hget]
      cases hlive : a.live (settings.hashes.subjectHash subjectId) with
      | some state => exact ⟨_, rfl, swift_known h hlive _ _⟩
      | none =>
          obtain ⟨room, heq, hroom⟩ := swift_makeRoom h settings.max_pos fuel
          simp only [heq, hroom.next]
          exact ⟨_, rfl, swift_new hroom settings.max_pos (live_makeRoom_of_none hlive) _ _⟩
  | applySnapshot experiments => exact ⟨_, rfl, swift_applySnapshot h _⟩

end

/-! ## The numbers of the store -/

section
variable {a : Arrivals String SubjectState}

theorem next_le_arrivalsStep (call : ResolverCall) (a : Arrivals String SubjectState) :
    a.next ≤ (arrivalsStep settings call a).next := by
  cases call with
  | recordAssignment subjectId experiment variant =>
      unfold arrivalsStep
      dsimp only
      cases a.live (settings.hashes.subjectHash subjectId) with
      | some state => exact Nat.le_refl _
      | none =>
          have hnext : (a.makeRoom settings.experimentStateMaxSubjects).next = a.next :=
            next_makeRoom a
          unfold Arrivals.enter
          dsimp only
          omega
  | applySnapshot experiments => exact Nat.le_refl _

/-- A call leaves a live subject its number, and gives a new one the next. -/
theorem number_arrivalsStep {call : ResolverCall} {subject : String} {n : ℕ} {state : SubjectState}
    (h : (arrivalsStep settings call a).live subject = some (n, state)) :
    (∃ before, a.live subject = some (n, before)) ∨
      a.live subject = none ∧ n = a.next ∧ (arrivalsStep settings call a).next = a.next + 1 := by
  cases call with
  | recordAssignment subjectId experiment variant =>
      unfold arrivalsStep at h ⊢
      dsimp only at h ⊢
      cases hlive : a.live (settings.hashes.subjectHash subjectId) with
      | some known =>
          left
          rw [hlive] at h
          unfold Arrivals.write at h
          dsimp only at h
          split_ifs at h with hsubject
          · rw [hlive, Option.map_some, Option.some.injEq, Prod.mk.injEq] at h
            exact ⟨known.2, by rw [hsubject, hlive, ← h.1]⟩
          · exact ⟨state, h⟩
      | none =>
          have hnext : (a.makeRoom settings.experimentStateMaxSubjects).next = a.next :=
            next_makeRoom a
          rw [hlive] at h
          unfold Arrivals.enter at h ⊢
          dsimp only at h ⊢
          split_ifs at h with hsubject
          · right
            rw [Option.some.injEq, Prod.mk.injEq] at h
            exact ⟨hsubject ▸ hlive, by omega, by omega⟩
          · left
            refine ⟨state, ?_⟩
            unfold Arrivals.makeRoom Arrivals.evict at h
            split_ifs at h
            · dsimp only at h
              split_ifs at h
              exact h
            · exact h
  | applySnapshot experiments =>
      left
      obtain ⟨⟨m, before⟩, hbefore, hmap⟩ := Option.bind_eq_some_iff.mp h
      obtain ⟨left, _, heq⟩ := Option.map_eq_some_iff.mp hmap
      rw [Prod.mk.injEq] at heq
      exact ⟨before, heq.1 ▸ hbefore⟩

end

/-! ## Runs of the three -/

/-- The clients' subjects after a run are those of the store. -/
theorem runs_hold (calls : List ResolverCall) (fuel : ℕ) :
    JsHolds settings.experimentStateMaxSubjects (arrivalsAfter settings calls)
        (jsAfter settings calls) ∧
      (∃ resolver, csharpAfter settings calls = .ok resolver ∧
        CSharpHolds settings.experimentStateMaxSubjects (arrivalsAfter settings calls) resolver) ∧
      ∃ resolver, swiftAfter settings (fuel + 1) calls = some resolver ∧
        SwiftHolds settings.experimentStateMaxSubjects (arrivalsAfter settings calls) resolver := by
  induction calls using List.reverseRecOn with
  | nil =>
      have hempty := Arrivals.lists_empty (κ := String) (α := SubjectState)
      refine ⟨⟨[], ⟨hempty, rfl, fun _ => rfl⟩, Nat.zero_le _⟩, ⟨_, rfl, ?_⟩, ⟨_, rfl, ?_⟩⟩
      · exact ⟨fun _ => rfl, hempty, rfl, Nat.zero_le _⟩
      · exact ⟨fun _ => rfl, hempty, by simp [Swift.ExperimentResolver.ahead,
          Swift.ExperimentResolver.new], rfl, Nat.le_refl _, Nat.zero_le _⟩
  | append_singleton calls call ih =>
      obtain ⟨hjs, ⟨csharp, hcsharp, hcsharpHolds⟩, ⟨swift, hswift, hswiftHolds⟩⟩ := ih
      unfold arrivalsAfter jsAfter at *
      rw [run_append, run_append]
      refine ⟨jsStep_holds settings call hjs, ?_, ?_⟩
      · obtain ⟨next, hnext, hholds⟩ := csharpStep_holds settings call hcsharpHolds
        refine ⟨next, ?_, hholds⟩
        unfold csharpAfter at hcsharp ⊢
        rw [List.foldlM_append, hcsharp]
        show (csharpStep settings csharp call >>= pure) = _
        rw [hnext]
        rfl
      · obtain ⟨next, hnext, hholds⟩ := swiftStep_holds settings fuel call hswiftHolds
        refine ⟨next, ?_, hholds⟩
        unfold swiftAfter at hswift ⊢
        rw [List.foldlM_append, hswift]
        show (swiftStep settings (fuel + 1) swift call >>= pure) = _
        rw [hnext]
        rfl

/-- The subject last entered the JavaScript client's state with the call at `i`. -/
def EnteredAt (calls : List ResolverCall) (subject : String) (i : ℕ) : Prop :=
  i < calls.length ∧ (jsAfter settings (calls.take i)).get subject = none ∧
    ∀ j, i < j → ((jsAfter settings (calls.take j)).get subject).isSome

theorem js_get (calls : List ResolverCall) (subject : String) :
    (jsAfter settings calls).get subject =
      ((arrivalsAfter settings calls).live subject).map Prod.snd := by
  obtain ⟨⟨queue, hordered, _⟩, _⟩ := runs_hold settings calls 0
  exact hordered.get subject

theorem arrivalsAfter_concat (calls : List ResolverCall) (call : ResolverCall) :
    arrivalsAfter settings (calls ++ [call]) =
      arrivalsStep settings call (arrivalsAfter settings calls) := by
  unfold arrivalsAfter
  rw [run_append]
  rfl

theorem next_mono {calls : List ResolverCall} {i j : ℕ} (h : i ≤ j) :
    (arrivalsAfter settings (calls.take i)).next ≤ (arrivalsAfter settings (calls.take j)).next := by
  induction j, h using Nat.le_induction with
  | base => exact Nat.le_refl _
  | succ j _ ih =>
      by_cases hj : j < calls.length
      · rw [List.take_succ_eq_append_getElem hj, arrivalsAfter_concat]
        exact ih.trans (next_le_arrivalsStep settings _ _)
      · have hlength : calls.length ≤ j := by omega
        rw [List.take_of_length_le (Nat.le_succ_of_le hlength)]
        rwa [List.take_of_length_le hlength] at ih

/-- A subject keeps the number it got when it last entered. -/
theorem number_of_enteredAt {calls : List ResolverCall} {subject : String} {i : ℕ}
    (h : EnteredAt settings calls subject i) :
    (∃ state, (arrivalsAfter settings calls).live subject =
        some ((arrivalsAfter settings (calls.take i)).next, state)) ∧
      (arrivalsAfter settings (calls.take (i + 1))).next =
        (arrivalsAfter settings (calls.take i)).next + 1 := by
  induction calls using List.reverseRecOn with
  | nil =>
      have hlt := h.1
      simp at hlt
  | append_singleton calls call ih =>
      obtain ⟨hlt, habsent, hpresent⟩ := h
      rw [List.length_append, List.length_singleton] at hlt
      have hheld := hpresent (calls.length + 1) (by omega)
      rw [List.take_of_length_le (by simp), js_get, Option.isSome_map, arrivalsAfter_concat,
        Option.isSome_iff_exists] at hheld
      obtain ⟨⟨n, state⟩, hstate⟩ := hheld
      have hcases := number_arrivalsStep settings hstate
      by_cases hlast : i = calls.length
      · subst hlast
        rw [List.take_left] at habsent ⊢
        rw [List.take_of_length_le (by simp), arrivalsAfter_concat]
        rw [js_get, Option.map_eq_none_iff] at habsent
        obtain ⟨before, hbefore⟩ | ⟨_, rfl, hnext⟩ := hcases
        · rw [habsent] at hbefore
          cases hbefore
        · exact ⟨⟨state, hstate⟩, hnext⟩
      · have hlt' : i < calls.length := by omega
        have htake : ∀ j, j ≤ calls.length → (calls ++ [call]).take j = calls.take j :=
          fun j hj => List.take_append_of_le_length hj
        have hbefore : EnteredAt settings calls subject i := by
          refine ⟨hlt', ?_, fun j hj => ?_⟩
          · rw [htake i (by omega)] at habsent
            exact habsent
          · by_cases hle : j ≤ calls.length
            · rw [← htake j hle]
              exact hpresent j hj
            · rw [List.take_of_length_le (by omega)]
              have hall := hpresent calls.length hlt'
              rwa [List.take_left] at hall
        obtain ⟨⟨known, hknown⟩, hnext⟩ := ih hbefore
        rw [htake i (by omega), htake (i + 1) (by omega)]
        refine ⟨?_, hnext⟩
        rw [arrivalsAfter_concat]
        obtain ⟨before, hsame⟩ | ⟨hnone, _⟩ := hcases
        · rw [hknown] at hsame
          simp only [Option.some.injEq, Prod.mk.injEq] at hsame
          exact ⟨state, by rw [hstate, hsame.1]⟩
        · rw [hknown] at hnone
          cases hnone

/-- What a full store forgets is its earliest subject. -/
theorem earliest_of_evicted {a : Arrivals String SubjectState} {subjectId subject : String}
    {experiment variant : Json} (hheld : (a.live subject).isSome)
    (hgone : (arrivalsStep settings (.recordAssignment subjectId experiment variant) a).live
      subject = none) : a.Earliest subject := by
  unfold arrivalsStep at hgone
  dsimp only at hgone
  cases hlive : a.live (settings.hashes.subjectHash subjectId) with
  | some known =>
      rw [hlive] at hgone
      unfold Arrivals.write at hgone
      dsimp only at hgone
      split_ifs at hgone with hsubject
      · rw [hlive] at hgone
        cases hgone
      · rw [hgone] at hheld
        cases hheld
  | none =>
      rw [hlive] at hgone
      unfold Arrivals.enter Arrivals.makeRoom at hgone
      dsimp only at hgone
      split_ifs at hgone with hsubject hfull
      · unfold Arrivals.evict at hgone
        dsimp only at hgone
        split_ifs at hgone with hearliest
        · exact hearliest
        · rw [hgone] at hheld
          cases hheld
      · rw [hgone] at hheld
        cases hheld

end Wardx.BoundedSubjects
