import Wardx.Json
import Wardx.Lib.ArrivalOrder
import Wardx.Lib.RingBuffer
import Wardx.Lib.Run
import Mathlib.Algebra.Order.Ring.Rat

/-!
# The inspect ring

The server keeps the latest events of the names on a project's allowlist, with
their raw attributes. The rows stand in a ring, which is written anew when a
name is forgotten; a query reads it from the last row back, sorts by time and
cuts. A row in the ring has passed the checks of `_push`, which its type holds.
-/
namespace Wardx.RecentEvents

open Lib

structure RecentEvent where
  ts : ℚ
  name : String
  /-- Absent when null. -/
  attrs : Option Json.Fields
  instanceId : String
  role : String
  named : name ≠ ""
deriving DecidableEq

def attrsJson : Option Json.Fields → Json
  | none => .null
  | some fields => .obj fields

/-- The checks of `_push`; a number of a JSON text is finite. -/
def accept (row : Json) (instanceId role : String) : Option RecentEvent :=
  match row with
  | .arr [.num ts, .str name, attrs] =>
      if named : name ≠ "" then
        match attrs with
        | .null => some ⟨ts, name, none, instanceId, role, named⟩
        | .obj fields => some ⟨ts, name, some fields, instanceId, role, named⟩
        | _ => none
      else none
  | _ => none

/-- `row[1]`, when it is a text. -/
def eventName : Json → Option String
  | .arr (_ :: .str name :: _) => some name
  | _ => none

/-- What `ingest` reads of an envelope: who sent it, and the events of each
frame. -/
structure EventEnvelope where
  instanceId : String
  role : String
  frames : List (List Json)

section
variable (max : ℕ)

/-- `_push`. -/
def push (row : Json) (instanceId role : String) (ring : RingBuffer RecentEvent) : RingBuffer RecentEvent :=
  match accept row instanceId role with
  | none => ring
  | some event => ring.push max event

def ingestRow (envelope : EventEnvelope) (inspectEvents : List String) (row : Json)
    (ring : RingBuffer RecentEvent) : RingBuffer RecentEvent :=
  match eventName row with
  | none => ring
  | some name =>
      if name ∈ inspectEvents then push max row envelope.instanceId envelope.role ring else ring

def ingest (envelope : EventEnvelope) (inspectEvents : List String) (ring : RingBuffer RecentEvent) :
    RingBuffer RecentEvent :=
  envelope.frames.foldl (fun ring events =>
    events.foldl (fun ring row => ingestRow max envelope inspectEvents row ring) ring) ring

/-- The row as `forget` pushes it back. -/
def RecentEvent.row (event : RecentEvent) : Json :=
  .arr [.num event.ts, .str event.name, attrsJson event.attrs]

/-- An empty slot in use would end the call before it changes anything. -/
def forget (name : String) (ring : RingBuffer RecentEvent) : RingBuffer RecentEvent :=
  match ring.oldestFirst max with
  | none => ring
  | some rows =>
      (rows.filter fun event => event.name ≠ name).foldl
        (fun ring event => push max event.row event.instanceId event.role ring) (RingBuffer.new max)

/-! ## Queries -/

/-- `===` on JSON values; an object or array in a filter is not the one in a row. -/
def strictEq : Json → Json → Bool
  | .null, .null => true
  | .bool a, .bool b => a == b
  | .num a, .num b => a == b
  | .str a, .str b => a == b
  | _, _ => false

def attrsMatch (rowAttrs filterAttrs : Option Json.Fields) : Bool :=
  match filterAttrs with
  | none => true
  | some wanted =>
      match rowAttrs with
      | none => false
      | some attrs => wanted.all fun field =>
          match attrs.lookup field.1 with
          | some value => strictEq value field.2
          | none => false

structure Filter where
  name : Option String
  role : Option String
  attrs : Option Json.Fields
  limit : Option ℕ

/-- An absent or empty filter lets every text pass. -/
def textMatch (value : String) : Option String → Bool
  | none => true
  | some wanted => wanted = "" || value = wanted

def Filter.matches (filter : Filter) (event : RecentEvent) : Bool :=
  textMatch event.name filter.name && textMatch event.role filter.role &&
    attrsMatch event.attrs filter.attrs

def cut : Option ℕ → List RecentEvent → List RecentEvent
  | none, rows => rows
  | some limit, rows => rows.take limit

/-- The sort is stable; the comparison is `right.ts - left.ts`. -/
def query (filter : Filter) (ring : RingBuffer RecentEvent) : Option (List RecentEvent) := do
  let rows ← ring.newestFirst max
  pure (cut filter.limit
    ((rows.filter filter.matches).insertionSort fun left right => -left.ts ≤ -right.ts))

/-! ## Runs -/

inductive Action where
  | ingest (envelope : EventEnvelope) (inspectEvents : List String)
  | forget (name : String)
  | query (filter : Filter)

def step : Action → RingBuffer RecentEvent → RingBuffer RecentEvent
  | .ingest envelope inspectEvents, ring => ingest max envelope inspectEvents ring
  | .forget name, ring => forget max name ring
  | .query _, ring => ring

end

/-! ## The list the ring stands for -/

/-- The rows of an envelope that are allowed and accepted, in their order. -/
def arrivals (envelope : EventEnvelope) (inspectEvents : List String) : List RecentEvent :=
  envelope.frames.flatten.filterMap fun row =>
    match eventName row with
    | none => none
    | some name =>
        if name ∈ inspectEvents then accept row envelope.instanceId envelope.role else none

/-- A bounded list of rows, the oldest first: what the ring is for. -/
def listStep (max : ℕ) : Action → List RecentEvent → List RecentEvent
  | .ingest envelope inspectEvents, rows => latest max (rows ++ arrivals envelope inspectEvents)
  | .forget name, rows => rows.filter fun event => event.name ≠ name
  | .query _, rows => rows

/-- The rows that match, the latest first, of the highest time first. -/
def IsAnswer (filter : Filter) (rows answer : List RecentEvent) : Prop :=
  ∃ sorted : List RecentEvent,
    sorted.Pairwise (fun left right => right.ts ≤ left.ts) ∧
    (∀ ts, sorted.filter (fun event => event.ts = ts) =
      (rows.reverse.filter filter.matches).filter fun event => event.ts = ts) ∧
    answer = cut filter.limit sorted

/-! ## The ring refines the list -/

theorem accept_row (event : RecentEvent) :
    accept event.row event.instanceId event.role = some event := by
  obtain ⟨ts, name, attrs, instanceId, role, named⟩ := event
  cases attrs <;> simp [accept, RecentEvent.row, attrsJson, named]

section
variable {max : ℕ} {ring : RingBuffer RecentEvent} {rows : List RecentEvent}

theorem holds_push (h : ring.Holds max rows) (row : Json) (instanceId role : String) :
    (push max row instanceId role ring).Holds max
      (latest max (rows ++ (accept row instanceId role).toList)) := by
  unfold push
  cases accept row instanceId role with
  | none =>
      rw [Option.toList_none, List.append_nil, latest_of_length_le h.size_le]
      exact h
  | some event => exact h.push event

theorem holds_ingestRow (h : ring.Holds max rows) (envelope : EventEnvelope)
    (inspectEvents : List String) (row : Json) :
    (ingestRow max envelope inspectEvents row ring).Holds max (latest max (rows ++
      (match eventName row with
        | none => none
        | some name =>
            if name ∈ inspectEvents then accept row envelope.instanceId envelope.role
            else none).toList)) := by
  have hsame : ring.Holds max (latest max (rows ++ (none : Option RecentEvent).toList)) := by
    rw [Option.toList_none, List.append_nil, latest_of_length_le h.size_le]
    exact h
  unfold ingestRow
  cases eventName row with
  | none => exact hsame
  | some name =>
      by_cases hallowed : name ∈ inspectEvents
      · simp only [if_pos hallowed]
        exact holds_push h row envelope.instanceId envelope.role
      · simp only [if_neg hallowed]
        exact hsame

/-- Rows one after the other, each of which may be left out. -/
theorem holds_foldl {ι : Type} (f : RingBuffer RecentEvent → ι → RingBuffer RecentEvent)
    (kept : ι → Option RecentEvent)
    (hf : ∀ ring rows i, RingBuffer.Holds max ring rows →
      (f ring i).Holds max (latest max (rows ++ (kept i).toList)))
    (items : List ι) (h : ring.Holds max rows) :
    (items.foldl f ring).Holds max (latest max (rows ++ items.filterMap kept)) := by
  induction items generalizing ring rows with
  | nil =>
      rw [List.filterMap_nil, List.append_nil, latest_of_length_le h.size_le]
      exact h
  | cons i items ih =>
      have hrest := ih (hf ring rows i h)
      rw [latest_append, List.append_assoc] at hrest
      have hcons : (kept i).toList ++ items.filterMap kept = (i :: items).filterMap kept := by
        cases hkept : kept i <;> simp [hkept]
      rw [hcons] at hrest
      exact hrest

theorem ingest_eq (envelope : EventEnvelope) (inspectEvents : List String) :
    ingest max envelope inspectEvents ring = envelope.frames.flatten.foldl
      (fun ring row => ingestRow max envelope inspectEvents row ring) ring := by
  unfold ingest
  rw [List.foldl_flatten]

theorem holds_ingest (h : ring.Holds max rows) (envelope : EventEnvelope)
    (inspectEvents : List String) :
    (ingest max envelope inspectEvents ring).Holds max
      (latest max (rows ++ arrivals envelope inspectEvents)) := by
  rw [ingest_eq]
  exact holds_foldl _ _
    (fun _ _ row hrows => holds_ingestRow hrows envelope inspectEvents row) _ h

theorem holds_forget (h : ring.Holds max rows) (hmax : 1 ≤ max) (name : String) :
    (forget max name ring).Holds max (rows.filter fun event => event.name ≠ name) := by
  have hpush : ∀ (ring : RingBuffer RecentEvent) (rows : List RecentEvent) (event : RecentEvent),
      ring.Holds max rows →
      (push max event.row event.instanceId event.role ring).Holds max
        (latest max (rows ++ (some event).toList)) := by
    intro ring rows event hrows
    have hpushed := holds_push hrows event.row event.instanceId event.role
    rwa [accept_row] at hpushed
  have hrebuilt := holds_foldl _ (fun event => some event) hpush
    (rows.filter fun event => event.name ≠ name) (RingBuffer.holds_new hmax)
  have hlength : (rows.filter fun event => event.name ≠ name).length ≤ max :=
    (List.length_filter_le _ _).trans h.size_le
  rw [List.filterMap_some, List.nil_append, latest_of_length_le hlength] at hrebuilt
  unfold forget
  rw [h.oldestFirst]
  exact hrebuilt

theorem holds_step (h : ring.Holds max rows) (hmax : 1 ≤ max) (action : Action) :
    (step max action ring).Holds max (listStep max action rows) := by
  cases action with
  | ingest envelope inspectEvents => exact holds_ingest h envelope inspectEvents
  | forget name => exact holds_forget h hmax name
  | query filter => exact h

theorem holds_run (h : ring.Holds max rows) (hmax : 1 ≤ max) (actions : List Action) :
    (run (step max) ring actions).Holds max (run (listStep max) rows actions) := by
  induction actions generalizing ring rows with
  | nil => exact h
  | cons action actions ih => exact ih (holds_step h hmax action)

theorem query_isAnswer (h : ring.Holds max rows) (filter : Filter) :
    ∃ answer, query max filter ring = some answer ∧ IsAnswer filter rows answer := by
  let key : RecentEvent → ℚ := fun event => -event.ts
  let sorted := (rows.reverse.filter filter.matches).insertionSort fun a b => key a ≤ key b
  have hanswer : query max filter ring = some (cut filter.limit sorted) := by
    unfold query
    rw [h.newestFirst]
    rfl
  refine ⟨_, hanswer, sorted, ?_, fun ts => ?_, rfl⟩
  · have hranked : Ranked key sorted := ranked_insertionSort key _
    exact hranked.imp fun hle => neg_le_neg_iff.mp hle
  · have hrank : ofRank key (-ts) sorted = ofRank key (-ts) (rows.reverse.filter filter.matches) :=
      ofRank_insertionSort (-ts) _
    have hsame : ∀ rows : List RecentEvent,
        ofRank key (-ts) rows = rows.filter fun event => event.ts = ts := by
      intro rows
      unfold ofRank
      simp [key]
    rw [hsame, hsame] at hrank
    exact hrank

/-- Over any calls the ring stands for a list of at most `max` rows: an ingest
appends what is allowed and accepted and evicts the oldest, a forget removes the
rows of the name and keeps the order of the others, and a query returns the rows
that match, of the highest time first and of one time the latest first, cut to
its limit. -/
theorem recent_events_refine (max : ℕ) (hmax : 1 ≤ max) (actions : List Action) :
    let ring := run (step max) (RingBuffer.new max) actions
    let rows := run (listStep max) [] actions
    rows.length ≤ max ∧ ring.oldestFirst max = some rows ∧
      ∀ filter, ∃ answer, query max filter ring = some answer ∧ IsAnswer filter rows answer := by
  intro ring rows
  have h : ring.Holds max rows := holds_run (RingBuffer.holds_new hmax) hmax actions
  exact ⟨h.size_le, h.oldestFirst, fun filter => query_isAnswer h filter⟩

end

def saleEnvelope (ts : ℚ) (name : String) : EventEnvelope :=
  ⟨"i-1", "web", [[.arr [.num ts, .str name, .null]]]⟩

/-- Four rows through a ring of two: one is evicted, one forgotten. -/
def saleActions : List Action :=
  [.ingest (saleEnvelope 10 "sale") ["sale", "view"], .ingest (saleEnvelope 11 "view") ["sale", "view"],
    .ingest (saleEnvelope 9 "sale") ["sale", "view"], .forget "view",
    .ingest (saleEnvelope 9 "sale") ["sale"]]

theorem recent_events_refine_sales :
    let ring := run (step 2) (RingBuffer.new 2) saleActions
    let rows := run (listStep 2) [] saleActions
    rows.map RecentEvent.ts = [9, 9] ∧
      rows.length ≤ 2 ∧ ring.oldestFirst 2 = some rows ∧
        ∀ filter, ∃ answer, query 2 filter ring = some answer ∧ IsAnswer filter rows answer :=
  ⟨by decide +kernel, recent_events_refine 2 (by decide) saleActions⟩

/-! ## The allowlist of a project -/

/-- A project's allowlist and its ring. -/
structure Inspected where
  inspectEvents : List String
  ring : RingBuffer RecentEvent

inductive ProjectAction where
  | publish (inspectEvents : List String)
  | commitIngest (envelope : EventEnvelope)

/-- What `publish` does to the ring. -/
def publish (max : ℕ) (inspectEvents : List String) (project : Inspected) : Inspected where
  inspectEvents := inspectEvents
  ring := project.inspectEvents.foldl
    (fun ring name => if name ∈ inspectEvents then ring else forget max name ring) project.ring

def projectStep (max : ℕ) : ProjectAction → Inspected → Inspected
  | .publish inspectEvents, project => publish max inspectEvents project
  | .commitIngest envelope, project =>
      { project with ring := ingest max envelope project.inspectEvents project.ring }

/-- Every row in the ring has a name on the allowlist. -/
def Allowed (max : ℕ) (project : Inspected) : Prop :=
  ∃ rows, project.ring.Holds max rows ∧ ∀ event ∈ rows, event.name ∈ project.inspectEvents

section
variable {max : ℕ} {ring : RingBuffer RecentEvent} {rows : List RecentEvent}

theorem name_of_accept {row : Json} {instanceId role name : String} {event : RecentEvent}
    (hname : eventName row = some name) (haccept : accept row instanceId role = some event) :
    event.name = name := by
  unfold accept at haccept
  split at haccept
  · split_ifs at haccept
    have hsame := Option.some.inj hname
    split at haccept
    · rw [← Option.some.inj haccept]
      exact hsame
    · rw [← Option.some.inj haccept]
      exact hsame
    · cases haccept
  · cases haccept

theorem name_of_mem_arrivals {envelope : EventEnvelope} {inspectEvents : List String}
    {event : RecentEvent} (h : event ∈ arrivals envelope inspectEvents) :
    event.name ∈ inspectEvents := by
  obtain ⟨row, -, hrow⟩ := List.mem_filterMap.mp h
  cases hname : eventName row with
  | none => simp [hname] at hrow
  | some name =>
      simp only [hname] at hrow
      split_ifs at hrow with hallowed
      rw [name_of_accept hname hrow]
      exact hallowed

/-- Forgetting every name that is gone leaves only rows of the others. -/
theorem holds_publish (hmax : 1 ≤ max) (allowlist : List String) (names : List String)
    (h : ring.Holds max rows) :
    (names.foldl (fun ring name => if name ∈ allowlist then ring else forget max name ring) ring).Holds
      max (rows.filter fun event => event.name ∉ names ∨ event.name ∈ allowlist) := by
  induction names generalizing ring rows with
  | nil => simpa using h
  | cons name names ih =>
      rw [List.foldl_cons]
      by_cases hallowed : name ∈ allowlist
      · rw [if_pos hallowed]
        have hrest := ih h
        have hsame : (rows.filter fun event => event.name ∉ names ∨ event.name ∈ allowlist) =
            rows.filter fun event => event.name ∉ name :: names ∨ event.name ∈ allowlist := by
          apply List.filter_congr
          intro event _
          rw [decide_eq_decide, List.mem_cons]
          grind
        rwa [hsame] at hrest
      · rw [if_neg hallowed]
        have hrest := ih (holds_forget h hmax name)
        have hsame : ((rows.filter fun event => event.name ≠ name).filter fun event =>
            event.name ∉ names ∨ event.name ∈ allowlist) =
            rows.filter fun event => event.name ∉ name :: names ∨ event.name ∈ allowlist := by
          rw [List.filter_filter]
          apply List.filter_congr
          intro event _
          rw [← Bool.decide_and, decide_eq_decide, List.mem_cons]
          grind
        rwa [hsame] at hrest

theorem allowed_step (hmax : 1 ≤ max) (project : Inspected) (action : ProjectAction)
    (h : Allowed max project) : Allowed max (projectStep max action project) := by
  obtain ⟨rows, hring, hnames⟩ := h
  cases action with
  | publish inspectEvents =>
      refine ⟨_, holds_publish hmax inspectEvents project.inspectEvents hring, fun event hevent => ?_⟩
      obtain ⟨hmem, hkept⟩ := List.mem_filter.mp hevent
      simp only [decide_eq_true_eq] at hkept
      cases hkept with
      | inl hgone => exact absurd (hnames event hmem) hgone
      | inr hallowed => exact hallowed
  | commitIngest envelope =>
      refine ⟨_, holds_ingest hring envelope project.inspectEvents, fun event hevent => ?_⟩
      have hmem : event ∈ rows ++ arrivals envelope project.inspectEvents := List.mem_of_mem_drop hevent
      cases List.mem_append.mp hmem with
      | inl hold => exact hnames event hold
      | inr hnew => exact name_of_mem_arrivals hnew

theorem IsAnswer.mem {filter : Filter} {answer : List RecentEvent} (h : IsAnswer filter rows answer)
    {event : RecentEvent} (hevent : event ∈ answer) : event ∈ rows := by
  obtain ⟨sorted, -, hsorted, rfl⟩ := h
  have hmem : event ∈ sorted := by
    unfold cut at hevent
    cases hlimit : filter.limit with
    | none => simpa [hlimit] using hevent
    | some limit =>
        rw [hlimit] at hevent
        exact List.mem_of_mem_take hevent
  have hts : event ∈ sorted.filter fun other => other.ts = event.ts :=
    List.mem_filter.mpr ⟨hmem, decide_eq_true rfl⟩
  rw [hsorted] at hts
  have hmatching := (List.mem_filter.mp (List.mem_filter.mp hts).1).1
  exact List.mem_reverse.mp hmatching

/-- Whatever was published and ingested, a query shows only rows whose names are
on the allowlist now. -/
theorem answers_allowed (hmax : 1 ≤ max) (inspectEvents : List String) (actions : List ProjectAction)
    (filter : Filter) {answer : List RecentEvent}
    (hanswer : query max filter (run (projectStep max) ⟨inspectEvents, RingBuffer.new max⟩ actions).ring =
      some answer) :
    ∀ event ∈ answer, event.name ∈
      (run (projectStep max) ⟨inspectEvents, RingBuffer.new max⟩ actions).inspectEvents := by
  have hallowed : Allowed max (run (projectStep max) ⟨inspectEvents, RingBuffer.new max⟩ actions) :=
    run_invariant_all (Allowed max) (fun project action h => allowed_step hmax project action h)
      ⟨[], RingBuffer.holds_new hmax, by simp⟩ actions
  obtain ⟨rows, hring, hnames⟩ := hallowed
  intro event hevent
  obtain ⟨found, hfound, hsorted⟩ := query_isAnswer hring filter
  have hsame : answer = found := Option.some.inj (hanswer.symm.trans hfound)
  exact hnames event (hsorted.mem (hsame ▸ hevent))

end

end Wardx.RecentEvents
