import Wardx.Aggregation.FrameAggregator
import Wardx.Frames.FrameSplit
import Wardx.Lib.Run

/-!
# Completeness of a window

A window reads complete for a role once the newest frame end of each of its live
instances has reached the window's end. A later frame of the instance starts no
earlier than that end, if it is of a later snapshot; if it is a further piece of
the same snapshot, it starts where the frame before it did, and may still fall
in the window. So a complete window stays complete as long as no report is made
between two pieces of a snapshot that runs to the end of the minute it starts in.
-/
namespace Wardx.FrameAggregator

open Lib Json

/-! ## What an SDK produces -/

/-- The number and the ends of a physical frame. -/
structure Stamp where
  seq : ℕ
  fromTime : ℚ
  toTime : ℚ
deriving DecidableEq, Repr

/-- A snapshot, with the number of frames it is split into. -/
structure Capture where
  fromTime : ℚ
  toTime : ℚ
  pieces : ℕ

/-- The pieces share the ends of the snapshot, on the server's clock. -/
def Capture.stamps (offset : ℚ) (seq : ℕ) (capture : Capture) : List Stamp :=
  (List.range capture.pieces).map fun n =>
    ⟨seq + n, capture.fromTime + offset, capture.toTime + offset⟩

/-- The snapshots of an SDK: each starts where the one before it ended. -/
structure SdkRun where
  role : String
  offset : ℚ
  captures : List Capture
  forward : ∀ capture ∈ captures, capture.fromTime ≤ capture.toTime
  contiguous : captures.IsChain fun capture next => capture.toTime = next.fromTime

def stampsFrom (offset : ℚ) : ℕ → List Capture → List Stamp
  | _, [] => []
  | seq, capture :: rest =>
      capture.stamps offset seq ++ stampsFrom offset (seq + capture.pieces) rest

/-- The physical frames, in the order of their numbers. -/
def SdkRun.stamps (sdk : SdkRun) : List Stamp := stampsFrom sdk.offset 0 sdk.captures

/-- The frames the splitter makes of a snapshot are its pieces. -/
theorem stamps_of_split {js : Js} {source : Frames.Frame} {limits : Frames.FrameLimits}
    {batch : Frames.FrameBatch} (hbytes : 1024 ≤ limits.maxFrameBytes)
    (hrows : 1 ≤ limits.maxFrameRows) (hprint : Frames.BoundedPrint js source)
    (hsplit : Frames.splitToMaxBytes js source limits = .ok batch) :
    batch.frames.map (fun frame => Stamp.mk frame.seq frame.fromTime frame.toTime) =
      Capture.stamps 0 source.seq ⟨source.fromTime, source.toTime, batch.frames.length⟩ := by
  obtain ⟨made, hmade, hframes, -⟩ := Frames.splitToMaxBytes_eq hbytes hrows hprint
  have hbatch : batch = made := Except.ok.inj (hsplit.symm.trans hmade)
  rw [hbatch, hframes]
  unfold Capture.stamps
  apply List.ext_getElem
  · simp
  · intro n hleft hright
    have hbin : n < (Frames.splitPacking js source limits).bins.length := by simpa using hleft
    have htimes := Frames.times_frameOf source n (Frames.splitPacking js source limits).bins[n]
    simp [htimes]

/-- What follows a frame: a further piece of its snapshot, or a later one. -/
def Follows (first second : Stamp) : Prop :=
  (second.fromTime = first.fromTime ∧ second.toTime = first.toTime) ∨
    first.toTime ≤ second.fromTime

theorem end_le_of_chain {rest : List Capture} {capture : Capture}
    (hforward : ∀ next ∈ rest, next.fromTime ≤ next.toTime)
    (hchain : (capture :: rest).IsChain fun capture next => capture.toTime = next.fromTime) :
    ∀ next ∈ rest, capture.toTime ≤ next.fromTime := by
  induction rest generalizing capture with
  | nil =>
      intro next hnext
      cases hnext
  | cons second rest ih =>
      rw [List.isChain_cons_cons] at hchain
      have hsecond := hforward second (List.mem_cons_self ..)
      have hrest := ih (fun next hnext => hforward next (List.mem_cons_of_mem _ hnext)) hchain.2
      intro next hnext
      cases hnext with
      | head => exact le_of_eq hchain.1
      | tail _ hnext => exact le_trans (le_of_eq hchain.1) (le_trans hsecond (hrest next hnext))

theorem mem_stampsFrom {offset : ℚ} {seq : ℕ} {captures : List Capture} {stamp : Stamp}
    (h : stamp ∈ stampsFrom offset seq captures) :
    ∃ capture ∈ captures, stamp.fromTime = capture.fromTime + offset ∧
      stamp.toTime = capture.toTime + offset := by
  induction captures generalizing seq with
  | nil => cases h
  | cons capture rest ih =>
      unfold stampsFrom at h
      rw [List.mem_append] at h
      cases h with
      | inl h =>
          obtain ⟨n, -, rfl⟩ := List.mem_map.mp h
          exact ⟨capture, List.mem_cons_self .., rfl, rfl⟩
      | inr h =>
          obtain ⟨found, hfound, hends⟩ := ih h
          exact ⟨found, List.mem_cons_of_mem _ hfound, hends⟩

theorem stampsFrom_follow {offset : ℚ} {seq : ℕ} {captures : List Capture}
    (hforward : ∀ capture ∈ captures, capture.fromTime ≤ capture.toTime)
    (hchain : captures.IsChain fun capture next => capture.toTime = next.fromTime) :
    (stampsFrom offset seq captures).Pairwise Follows := by
  induction captures generalizing seq with
  | nil => exact List.Pairwise.nil
  | cons capture rest ih =>
      have hrest : ∀ next ∈ rest, next.fromTime ≤ next.toTime := fun next hnext =>
        hforward next (List.mem_cons_of_mem _ hnext)
      unfold stampsFrom
      rw [List.pairwise_append]
      refine ⟨?_, ih hrest hchain.tail, ?_⟩
      · unfold Capture.stamps
        rw [List.pairwise_map]
        exact List.pairwise_of_forall fun _ _ => Or.inl ⟨rfl, rfl⟩
      · intro first hfirst second hsecond
        obtain ⟨n, -, rfl⟩ := List.mem_map.mp hfirst
        obtain ⟨next, hnext, hfrom, -⟩ := mem_stampsFrom hsecond
        have hend := end_le_of_chain hrest hchain next hnext
        right
        show capture.toTime + offset ≤ second.fromTime
        rw [hfrom]
        linarith

theorem SdkRun.stamps_follow (sdk : SdkRun) : sdk.stamps.Pairwise Follows :=
  stampsFrom_follow sdk.forward sdk.contiguous

/-! ## Runs -/

/-- Every window stands under its minute and lasts one. -/
def Minutes (windows : Table ℤ Window) : Prop :=
  ∀ minute window, windows.get minute = some window →
    window.windowFrom = minute ∧ window.windowTo = minute + 60000

/-- What a start reads back from disk. -/
structure Saved where
  windows : Table ℤ Window
  lifetime : Slots
  persistLogLifetime : Table String LogName
  minutes : Minutes windows

/-- A sync request, a report to a reader, or a restart of the server. -/
inductive Step
  | request (envelope : Envelope) (persistLogs : List String) (now : ℚ)
  | report (now : ℚ)
  | restart (saved : Saved) (now : ℚ)

/-- A start: the instances are not saved. -/
def restarted (limits : Limits) (saved : Saved) (now : ℚ) : Aggregator :=
  prune limits now ⟨Table.empty, saved.windows, saved.lifetime, saved.persistLogLifetime⟩

def step (js : Js) (limits : Limits) (next : Step) (aggregator : Aggregator) : Aggregator :=
  match next with
  | .request envelope persistLogs now =>
      match ingest js limits envelope persistLogs now aggregator with
      | .ok (_, after) => after
      | .error _ => aggregator
  | .report _ => aggregator
  | .restart saved now => restarted limits saved now

/-- The frames of an instance a step accepts. -/
def acceptedIn (instanceId : String) : Step → List Frame
  | .request envelope _ _ =>
      if envelope.client.instanceId = instanceId ∧ envelope.client.role ≠ "" ∧
          envelope.client.role ≠ "*" then envelope.frames else []
  | _ => []

def accepted (instanceId : String) (steps : List Step) : List Frame :=
  steps.flatMap (acceptedIn instanceId)

def stamp (frame : Frame) : Stamp := ⟨frame.seq, frame.frameFrom, frame.frameTo⟩

/-- Every instance delivers frames of its SDK, in their order. -/
structure Delivers (sdk : String → SdkRun) (steps : List Step) : Prop where
  frames : ∀ instanceId,
    ((accepted instanceId steps).map stamp).Sublist (sdk instanceId).stamps
  role : ∀ envelope persistLogs now, Step.request envelope persistLogs now ∈ steps →
    envelope.client.role = (sdk envelope.client.instanceId).role

/-- A report between two pieces of a snapshot: the snapshot ends before the
minute it starts in does. -/
def CutsWithinMinutes (steps : List Step) : Prop :=
  ∀ before now after, steps = before ++ .report now :: after →
    ∀ instanceId, ∀ first ∈ accepted instanceId before, ∀ second ∈ accepted instanceId after,
      second.frameFrom = first.frameFrom → second.frameTo = first.frameTo →
        first.frameTo < minuteFloor first.frameFrom + 60000

/-! ## The settled time of a role -/

theorem settleInstance_le {settled : Table String (WithBot ℚ)} (synced : Instance) {role : String}
    {through : WithBot ℚ} (h : settled.get role = some through) :
    ∃ after, (settleInstance settled synced).get role = some after ∧ after ≤ through := by
  unfold settleInstance
  by_cases hrole : role = synced.role
  · subst hrole
    rw [h]
    dsimp only
    split_ifs with hlt
    · exact ⟨_, Table.get_put_self .., le_of_lt hlt⟩
    · exact ⟨_, h, le_rfl⟩
  · have hput := Table.get_put_of_ne settled synced.dataThrough hrole
    cases settled.get synced.role with
    | none => exact ⟨through, hput.trans h, le_rfl⟩
    | some previous =>
        dsimp only
        split_ifs
        · exact ⟨through, hput.trans h, le_rfl⟩
        · exact ⟨through, h, le_rfl⟩

theorem settleInstance_self (settled : Table String (WithBot ℚ)) (synced : Instance) :
    ∃ through, (settleInstance settled synced).get synced.role = some through ∧
      through ≤ synced.dataThrough := by
  unfold settleInstance
  cases hheld : settled.get synced.role with
  | none => exact ⟨_, Table.get_put_self .., le_rfl⟩
  | some previous =>
      dsimp only
      split_ifs with hlt
      · exact ⟨_, Table.get_put_self .., le_rfl⟩
      · exact ⟨previous, hheld, not_lt.mp hlt⟩

theorem foldl_settleInstance_le (instances : List Instance) {settled : Table String (WithBot ℚ)}
    {role : String} {through : WithBot ℚ} (h : settled.get role = some through) :
    ∃ after, (instances.foldl settleInstance settled).get role = some after ∧ after ≤ through := by
  induction instances generalizing settled through with
  | nil => exact ⟨through, h, le_rfl⟩
  | cons synced rest ih =>
      obtain ⟨next, hnext, hle⟩ := settleInstance_le synced h
      obtain ⟨after, hafter, hrest⟩ := ih hnext
      exact ⟨after, hafter, le_trans hrest hle⟩

theorem foldl_settleInstance {instances : List Instance} {synced : Instance}
    (h : synced ∈ instances) (settled : Table String (WithBot ℚ)) :
    ∃ through, (instances.foldl settleInstance settled).get synced.role = some through ∧
      through ≤ synced.dataThrough := by
  induction instances generalizing settled with
  | nil => cases h
  | cons first rest ih =>
      cases h with
      | head =>
          obtain ⟨through, hthrough, hle⟩ := settleInstance_self settled synced
          obtain ⟨after, hafter, hrest⟩ := foldl_settleInstance_le rest hthrough
          exact ⟨after, hafter, le_trans hrest hle⟩
      | tail _ h => exact ih h _

/-- A role is settled no further than any of its live instances has delivered. -/
theorem settledThrough_le {limits : Limits} {now : ℚ} {aggregator : Aggregator}
    {instanceId : String} {synced : Instance}
    (hknown : aggregator.instances.get instanceId = some synced)
    (hlive : live limits now synced = true) :
    ∃ through, (settledThrough limits now aggregator).get synced.role = some through ∧
      through ≤ synced.dataThrough := by
  unfold settledThrough
  apply foldl_settleInstance
  rw [List.mem_filter]
  have hentry := (Table.get_eq_some_iff ..).mp hknown
  exact ⟨List.mem_map_of_mem hentry, hlive⟩

/-! ## Reports -/

theorem foldl_incomplete {window : Window} (entries : List (String × WithBot ℚ))
    {reports : Table String RoleReport} {role : String} {report : RoleReport}
    (hcomplete : report.complete = true)
    (h : (entries.foldl (fun reports entry =>
        if (reports.get entry.1).isNone ∧ entry.2 < window.endsAt then
          reports.put entry.1 ⟨⟨0, 0, 0⟩, false⟩
        else reports) reports).get role = some report) :
    reports.get role = some report := by
  induction entries generalizing reports with
  | nil => exact h
  | cons entry rest ih =>
      have hnext := ih h
      dsimp only at hnext
      split_ifs at hnext with hnew
      · rw [Table.get_put] at hnext
        split_ifs at hnext with hrole
        · have hreport := Option.some.inj hnext
          rw [← hreport] at hcomplete
          exact absurd hcomplete Bool.false_ne_true
        · exact hnext
      · exact hnext

/-- A role that reads complete is settled through the window's end. -/
theorem endsAt_le_of_complete {settled : Table String (WithBot ℚ)} {window : Window} {role : String}
    {report : RoleReport} {through : WithBot ℚ}
    (hreport : (roleReports settled window).get role = some report)
    (hcomplete : report.complete = true) (hthrough : settled.get role = some through) :
    window.endsAt ≤ through := by
  have hown := foldl_incomplete settled.entries hcomplete hreport
  rw [Table.get_mapValues] at hown
  obtain ⟨stats, -, hstats⟩ := Option.map_eq_some_iff.mp hown
  rw [← hstats, hthrough] at hcomplete
  exact of_decide_eq_true hcomplete

theorem mem_snapshot {limits : Limits} {role : Option String} {fromTime toTime : Option ℚ} {now : ℚ}
    {aggregator : Aggregator} {report : WindowReport}
    (h : report ∈ snapshot limits role fromTime toTime now aggregator) :
    ∃ minute window, aggregator.windows.get minute = some window ∧
      report.reportFrom = window.windowFrom ∧ report.reportTo = window.windowTo ∧
      report.roles = roleReports (settledThrough limits now aggregator) window := by
  unfold snapshot at h
  rw [(List.perm_insertionSort _ _).mem_iff, List.mem_map] at h
  obtain ⟨window, hwindow, rfl⟩ := h
  obtain ⟨entry, hentry, rfl⟩ := List.mem_map.mp (List.mem_of_mem_filter hwindow)
  exact ⟨entry.1, entry.2, (Table.get_eq_some_iff ..).mpr hentry, rfl, rfl, rfl⟩

/-! ## What a run keeps -/

/-- Each known instance has the role of its SDK, and its newest frame end is of
a frame accepted from it. -/
def EndsDelivered (sdk : String → SdkRun) (past : List Step) (aggregator : Aggregator) : Prop :=
  ∀ instanceId synced, aggregator.instances.get instanceId = some synced →
    synced.role = (sdk instanceId).role ∧
      ∃ frame ∈ accepted instanceId past, synced.dataThrough ≤ frame.frameTo

theorem newestEnd_le {held : WithBot ℚ} {frames : List Frame} (hne : frames ≠ []) :
    newestEnd held frames ≤ held ∨ ∃ frame ∈ frames, newestEnd held frames ≤ frame.frameTo := by
  induction frames generalizing held with
  | nil => exact absurd rfl hne
  | cons frame rest ih =>
      have hunfold : newestEnd held (frame :: rest) =
          newestEnd (max held (frame.frameTo : WithBot ℚ)) rest := rfl
      have hmax : newestEnd (max held (frame.frameTo : WithBot ℚ)) rest ≤
            max held (frame.frameTo : WithBot ℚ) ∨
          ∃ found ∈ rest, newestEnd (max held (frame.frameTo : WithBot ℚ)) rest ≤ found.frameTo := by
        by_cases hrest : rest = []
        · subst hrest
          exact Or.inl le_rfl
        · exact ih hrest
      rw [hunfold]
      cases hmax with
      | inl hmax =>
          by_cases hle : held ≤ (frame.frameTo : WithBot ℚ)
          · rw [max_eq_right hle] at hmax ⊢
            exact Or.inr ⟨frame, List.mem_cons_self .., hmax⟩
          · rw [max_eq_left (le_of_not_ge hle)] at hmax ⊢
            exact Or.inl hmax
      | inr hfound =>
          obtain ⟨found, hmem, hle⟩ := hfound
          exact Or.inr ⟨found, List.mem_cons_of_mem _ hmem, hle⟩

theorem get_dropStale {staleBefore : ℚ} {instances : Table String Instance} {instanceId : String}
    {synced : Instance} (h : (dropStale staleBefore instances).get instanceId = some synced) :
    instances.get instanceId = some synced := by
  rw [Table.get_eq_some_iff] at h ⊢
  exact (List.dropWhile_sublist _).mem h

theorem get_refresh {instances : Table String Instance} {key instanceId : String}
    {latest synced : Instance} (h : (refresh instances key latest).get instanceId = some synced) :
    (instanceId = key ∧ synced = latest) ∨ instances.get instanceId = some synced := by
  unfold refresh at h
  rw [Table.get_put] at h
  split_ifs at h with hkey
  · exact Or.inl ⟨hkey, (Option.some.inj h).symm⟩
  · rw [Table.get_erase, if_neg hkey] at h
    exact Or.inr h

theorem minutes_ingestInto {js : Js} {limits : Limits} {role instanceId : String}
    {persistLogs : List String} {windows : Table ℤ Window} (h : Minutes windows) (frame : Frame) :
    Minutes (ingestInto js limits role instanceId persistLogs windows frame) := by
  intro minute window hwindow
  unfold ingestInto at hwindow
  rw [Table.get_put] at hwindow
  split_ifs at hwindow with hminute
  · have hframe := Option.some.inj hwindow
    rw [hminute, ← hframe]
    cases hheld : windows.get (minuteFloor frame.frameFrom) with
    | none => exact ⟨rfl, rfl⟩
    | some held => exact h _ held hheld
  · exact h minute window hwindow

theorem minutes_foldl_ingestInto {js : Js} {limits : Limits} {role instanceId : String}
    {persistLogs : List String} (frames : List Frame) {windows : Table ℤ Window}
    (h : Minutes windows) :
    Minutes (frames.foldl (ingestInto js limits role instanceId persistLogs) windows) := by
  induction frames generalizing windows with
  | nil => exact h
  | cons frame rest ih => exact ih (minutes_ingestInto h frame)

theorem minutes_prune {limits : Limits} {now : ℚ} {aggregator : Aggregator}
    (h : Minutes aggregator.windows) : Minutes (prune limits now aggregator).windows := by
  intro minute window hwindow
  unfold prune at hwindow
  rw [Table.get_filter, Option.filter_eq_some_iff] at hwindow
  exact h minute window hwindow.1

theorem accepted_append (instanceId : String) (past : List Step) (next : Step) :
    accepted instanceId (past ++ [next]) = accepted instanceId past ++ acceptedIn instanceId next := by
  unfold accepted
  rw [List.flatMap_append, List.flatMap_singleton]

/-- A request is refused, or its frames are accepted and pruned after. -/
theorem step_request (js : Js) (limits : Limits) (envelope : Envelope) (persistLogs : List String)
    (now : ℚ) (aggregator : Aggregator) :
    step js limits (.request envelope persistLogs now) aggregator =
      if envelope.client.role ≠ "" ∧ envelope.client.role ≠ "*" then
        prune limits now (addFrames js limits envelope persistLogs now aggregator)
      else aggregator := by
  unfold step ingest
  by_cases hempty : envelope.client.role = ""
  · simp [hempty, require]
  · by_cases hstar : envelope.client.role = "*"
    · simp [hstar, require]
    · simp [hempty, hstar, require]

theorem step_minutes (js : Js) (limits : Limits) (next : Step) {aggregator : Aggregator}
    (h : Minutes aggregator.windows) : Minutes (step js limits next aggregator).windows := by
  cases next with
  | request envelope persistLogs now =>
      rw [step_request]
      split_ifs
      · exact minutes_prune (minutes_foldl_ingestInto envelope.frames h)
      · exact h
  | report now => exact h
  | restart saved now => exact minutes_prune saved.minutes

theorem step_endsDelivered (js : Js) (limits : Limits) {sdk : String → SdkRun} {past : List Step}
    {next : Step} {aggregator : Aggregator} (h : EndsDelivered sdk past aggregator)
    (hrole : ∀ envelope persistLogs now, next = .request envelope persistLogs now →
      envelope.client.role = (sdk envelope.client.instanceId).role) :
    EndsDelivered sdk (past ++ [next]) (step js limits next aggregator) := by
  have hkept : EndsDelivered sdk (past ++ [next]) aggregator := by
    intro instanceId synced hsynced
    obtain ⟨hsdk, frame, hframe, hle⟩ := h instanceId synced hsynced
    rw [accepted_append]
    exact ⟨hsdk, frame, List.mem_append_left _ hframe, hle⟩
  cases next with
  | report now => exact hkept
  | restart saved now =>
      intro instanceId synced hsynced
      have hempty := get_dropStale hsynced
      cases hempty
  | request envelope persistLogs now =>
      rw [step_request]
      split_ifs with hvalid
      · intro instanceId synced hsynced
        have hadded := get_dropStale hsynced
        change (if envelope.frames.isEmpty then aggregator.instances
          else refresh aggregator.instances envelope.client.instanceId _).get instanceId = _ at hadded
        split_ifs at hadded with hframes
        · exact hkept instanceId synced hadded
        · cases get_refresh hadded with
          | inr hheld => exact hkept instanceId synced hheld
          | inl hnew =>
              obtain ⟨rfl, rfl⟩ := hnew
              refine ⟨hrole _ _ _ rfl, ?_⟩
              have haccepted : acceptedIn envelope.client.instanceId
                  (.request envelope persistLogs now) = envelope.frames := if_pos ⟨rfl, hvalid⟩
              have hnonempty : envelope.frames ≠ [] := fun hnil => hframes (by rw [hnil]; rfl)
              rw [accepted_append, haccepted]
              -- The newest end is the one held, of an earlier frame, or of a new one.
              cases newestEnd_le hnonempty with
              | inr hfound =>
                  obtain ⟨frame, hframe, hle⟩ := hfound
                  exact ⟨frame, List.mem_append_right _ hframe, hle⟩
              | inl hheld =>
                  dsimp only
                  cases hknown : aggregator.instances.get envelope.client.instanceId with
                  | some earlier =>
                      obtain ⟨-, frame, hframe, hle⟩ := h _ earlier hknown
                      rw [hknown] at hheld
                      exact ⟨frame, List.mem_append_left _ hframe, le_trans hheld hle⟩
                  | none =>
                      obtain ⟨frame, hframe⟩ := List.exists_mem_of_ne_nil _ hnonempty
                      rw [hknown] at hheld
                      exact ⟨frame, List.mem_append_right _ hframe, le_trans hheld bot_le⟩
      · exact hkept

theorem run_keeps (js : Js) (limits : Limits) {sdk : String → SdkRun} (steps : List Step)
    (hrole : ∀ envelope persistLogs now, Step.request envelope persistLogs now ∈ steps →
      envelope.client.role = (sdk envelope.client.instanceId).role) :
    Minutes (run (step js limits) Aggregator.init steps).windows ∧
      EndsDelivered sdk steps (run (step js limits) Aggregator.init steps) := by
  induction steps using List.reverseRecOn with
  | nil => exact ⟨fun _ _ hget => (nomatch hget), fun _ _ hget => (nomatch hget)⟩
  | append_singleton past next ih =>
      obtain ⟨hminutes, hends⟩ := ih fun envelope persistLogs now hmem =>
        hrole envelope persistLogs now (List.mem_append_left _ hmem)
      have hnext : ∀ envelope persistLogs now, next = .request envelope persistLogs now →
          envelope.client.role = (sdk envelope.client.instanceId).role := by
        intro envelope persistLogs now heq
        apply hrole envelope persistLogs now
        rw [← heq]
        exact List.mem_append_right _ (List.mem_singleton_self _)
      rw [run_append]
      exact ⟨step_minutes js limits next hminutes, step_endsDelivered js limits hends hnext⟩

/-! ## A complete window stays complete -/

/-- Of two frames accepted from an instance, the second follows the first. -/
theorem Delivers.follows {sdk : String → SdkRun} {before after : List Step}
    (h : Delivers sdk (before ++ after)) {instanceId : String} {first second : Frame}
    (hfirst : first ∈ accepted instanceId before) (hsecond : second ∈ accepted instanceId after) :
    Follows (stamp first) (stamp second) := by
  have hpairs := (sdk instanceId).stamps_follow.sublist (h.frames instanceId)
  unfold accepted at hpairs hfirst hsecond
  rw [List.flatMap_append, List.map_append, List.pairwise_append] at hpairs
  exact hpairs.2.2 _ (List.mem_map_of_mem hfirst) _ (List.mem_map_of_mem hsecond)

theorem lt_minuteFloor_add (ts : ℚ) : ts < minuteFloor ts + 60000 := by
  unfold minuteFloor
  have hfloor := Int.lt_floor_add_one (ts / 60000)
  push_cast
  rw [div_lt_iff₀ (by norm_num)] at hfloor
  linarith

theorem complete_window_stays_complete (js : Js) (limits : Limits) (sdk : String → SdkRun)
    (before after : List Step) (now : ℚ)
    (hdelivers : Delivers sdk (before ++ .report now :: after))
    (hcuts : CutsWithinMinutes (before ++ .report now :: after))
    (role : Option String) (fromTime toTime : Option ℚ) (window : WindowReport)
    (hwindow : window ∈ snapshot limits role fromTime toTime now
      (run (step js limits) Aggregator.init before))
    (instanceId : String) (synced : Instance)
    (hknown : (run (step js limits) Aggregator.init before).instances.get instanceId = some synced)
    (hlive : live limits now synced = true) (report : RoleReport)
    (hreport : window.roles.get synced.role = some report) (hcomplete : report.complete = true) :
    ∀ frame ∈ accepted instanceId after, minuteFloor frame.frameFrom ≠ window.reportFrom := by
  intro frame hframe hminute
  obtain ⟨hminutes, hends⟩ := run_keeps js limits before fun envelope persistLogs at_ hmem =>
    hdelivers.role envelope persistLogs at_ (List.mem_append_left _ hmem)
  obtain ⟨minute, held, hheld, hfrom, -, hroles⟩ := mem_snapshot hwindow
  obtain ⟨hheldFrom, hheldTo⟩ := hminutes minute held hheld
  obtain ⟨-, newest, hnewest, hthrough⟩ := hends instanceId synced hknown
  -- The newest frame of the instance reaches the end of the window.
  have hend : (window.reportFrom : ℚ) + 60000 ≤ newest.frameTo := by
    obtain ⟨through, hsettled, hle⟩ := settledThrough_le hknown hlive
    rw [hroles] at hreport
    have hwindowEnd := endsAt_le_of_complete hreport hcomplete hsettled
    have hall := le_trans hwindowEnd (le_trans hle hthrough)
    unfold Window.endsAt at hall
    rw [WithBot.coe_le_coe, hheldTo, ← hheldFrom, ← hfrom] at hall
    push_cast at hall
    exact hall
  have hstart := lt_minuteFloor_add frame.frameFrom
  rw [hminute] at hstart
  have hafter : frame ∈ accepted instanceId (.report now :: after) := hframe
  cases hdelivers.follows hnewest hafter with
  | inl hsame =>
      have hfirst : frame.frameFrom = newest.frameFrom := hsame.1
      have hcut := hcuts before now after rfl instanceId newest hnewest frame hframe hfirst hsame.2
      rw [← hfirst, hminute] at hcut
      linarith
  | inr hlater =>
      have hle : newest.frameTo ≤ frame.frameFrom := hlater
      linarith

def shopLimits : Limits := ⟨900000, 100, 120000⟩

def shopSync (frame : Frame) (now : ℚ) : Step :=
  .request ⟨1, "shop", ⟨"wardx-node", "1.0.0"⟩,
    ⟨"web-1", "s", "web", "1.0.0", "production", "node", none, none⟩, 0, none, [frame]⟩ [] now

def bareFrame (seq : ℕ) (fromTime toTime : ℚ) : Frame :=
  ⟨seq, fromTime, toTime, ⟨[], [], [], none⟩, [], []⟩

theorem accepted_shopSync (instanceId : String) (frame : Frame) (now : ℚ) :
    accepted instanceId [shopSync frame now] = if "web-1" = instanceId then [frame] else [] := by
  simp [accepted, acceptedIn, shopSync]

theorem delivers_shop {sdk : SdkRun} {first second : Frame} (t₁ t₂ t₃ : ℚ) (hrole : sdk.role = "web")
    (hframes : [stamp first, stamp second].Sublist sdk.stamps) :
    Delivers (fun _ => sdk) ([shopSync first t₁] ++ .report t₂ :: [shopSync second t₃]) := by
  constructor
  · intro instanceId
    by_cases hid : "web-1" = instanceId
    · simpa [accepted, acceptedIn, shopSync, hid] using hframes
    · simp [accepted, acceptedIn, shopSync, hid]
  · intro envelope persistLogs now hmem
    rw [hrole]
    simp only [shopSync, List.cons_append, List.nil_append, List.mem_cons, List.not_mem_nil,
      Step.request.injEq, reduceCtorEq, or_false, false_or] at hmem
    cases hmem with
    | inl hfirst => rw [hfirst.1]
    | inr hsecond => rw [hsecond.1]

/-- Two snapshots of a minute each. -/
def minuteRun : SdkRun where
  role := "web"
  offset := 0
  captures := [⟨0, 60000, 1⟩, ⟨60000, 120000, 1⟩]
  forward := by decide +kernel
  contiguous := by decide +kernel

theorem complete_window_stays_complete_shop :
    minuteFloor (bareFrame 1 60000 120000).frameFrom ≠ 0 := by
  refine complete_window_stays_complete Js.plain shopLimits (fun _ => minuteRun)
    [shopSync (bareFrame 0 0 60000) 61000] [shopSync (bareFrame 1 60000 120000) 121000] 62000
    (delivers_shop _ _ _ rfl (by decide +kernel)) ?_ none none none
    ⟨0, 60000, true, ⟨[("web", ⟨⟨1, 0, 0⟩, true⟩)], by decide⟩⟩ (by decide +kernel) "web-1"
    ⟨"web", (60000 : ℚ), 61000⟩ (by decide +kernel) (by decide +kernel) ⟨⟨1, 0, 0⟩, true⟩
    (by decide +kernel) rfl (bareFrame 1 60000 120000) (by decide +kernel)
  intro before now after hsteps instanceId first hfirst second hsecond hfrom
  match before, hsteps with
  | [], hsteps => cases hsteps
  | [_], hsteps =>
      injection hsteps with hhead htail
      injection htail with hreport hafter
      rw [← hhead, accepted_shopSync] at hfirst
      change [shopSync (bareFrame 1 60000 120000) 121000] = after at hafter
      rw [← hafter, accepted_shopSync] at hsecond
      by_cases hid : "web-1" = instanceId
      · rw [if_pos hid, List.mem_singleton] at hfirst hsecond
        rw [hfirst, hsecond] at hfrom
        exact absurd hfrom (by decide +kernel)
      · rw [if_neg hid] at hfirst
        cases hfirst
  | [_, _], hsteps => simp [shopSync] at hsteps
  | _ :: _ :: _ :: _, hsteps => simp at hsteps

/-- A snapshot over the turn of a minute, in two pieces. -/
def turnRun : SdkRun where
  role := "web"
  offset := 0
  captures := [⟨59000, 61000, 2⟩]
  forward := by decide +kernel
  contiguous := by decide +kernel

/-- A reader is told that the first minute is complete between the two pieces. -/
theorem piece_after_complete :
    let before := [shopSync (bareFrame 0 59000 61000) 61000]
    let after := [shopSync (bareFrame 1 59000 61000) 63000]
    let aggregator := run (step Js.plain shopLimits) Aggregator.init before
    Delivers (fun _ => turnRun) (before ++ .report 62000 :: after) ∧
      ∃ window ∈ snapshot shopLimits none none none 62000 aggregator,
        ∃ synced report, aggregator.instances.get "web-1" = some synced ∧
          live shopLimits 62000 synced = true ∧
          window.roles.get synced.role = some report ∧ report.complete = true ∧
          ∃ frame ∈ accepted "web-1" after, minuteFloor frame.frameFrom = window.reportFrom := by
  refine ⟨delivers_shop _ _ _ rfl (by decide +kernel),
    ⟨0, 60000, true, ⟨[("web", ⟨⟨1, 0, 0⟩, true⟩)], by decide⟩⟩, ?_,
    ⟨"web", (61000 : ℚ), 61000⟩, ⟨⟨1, 0, 0⟩, true⟩, ?_, ?_, ?_, rfl,
    bareFrame 1 59000 61000, ?_, ?_⟩
  all_goals decide +kernel

end Wardx.FrameAggregator
