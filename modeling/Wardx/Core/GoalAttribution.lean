import Wardx.Core.Exposure

/-!
# Goals are attributed to what was served

For an experiment and a subject, the exposures since its assignment entered the
state are none while it is not there and one while it is. The read that makes
it enter emits that one, so every value of a variant and every goal belongs to
an exposure of the same variant.
-/
namespace Wardx.Core

open Lib Json Control Config

/-! ## Exposures since an assignment entered -/

/-- The exposures of an experiment to a subject. -/
def exposuresOf (subject experiment : String) (events : List ClientEvent) : List Exposure :=
  events.filterMap fun event =>
    match event with
    | .exposure payload =>
        if payload.subject = subject ∧ payload.experiment = experiment then some payload else none
    | .goal _ => none

/-- The exposures of an experiment to a subject since its assignment entered the
state, after a run that started with some. -/
def exposuresSinceFrom (settings : ClientSettings) (subject experiment : String) :
    ClientCore → List Exposure → List CoreCall → List Exposure
  | _, since, [] => since
  | core, since, call :: rest =>
      let after := afterCall settings call core
      exposuresSinceFrom settings subject experiment after
        (if (assigned after.stateBySubject subject experiment).isSome then
          since ++ exposuresOf subject experiment (emitted settings core call)
        else []) rest

def exposuresSince (settings : ClientSettings) (subject experiment : String)
    (calls : List CoreCall) : List Exposure :=
  exposuresSinceFrom settings subject experiment ClientCore.initial [] calls

/-- The exposure that a present assignment had. -/
def exposureOf (subject experiment : String) (core : ClientCore) : List Exposure :=
  (assigned core.stateBySubject subject experiment).toList.map fun assignment =>
    ⟨experiment, assignment.variant, subject⟩

theorem exposuresOf_exposure (subject experiment : String) (payload : Exposure) :
    exposuresOf subject experiment [.exposure payload] =
      if payload.subject = subject ∧ payload.experiment = experiment then [payload] else [] := by
  unfold exposuresOf
  by_cases h : payload.subject = subject ∧ payload.experiment = experiment
  · simp [h]
  · simp [h]

theorem mem_of_mem_exposuresOf {subject experiment : String} {events : List ClientEvent}
    {payload : Exposure} (h : payload ∈ exposuresOf subject experiment events) :
    ClientEvent.exposure payload ∈ events := by
  obtain ⟨event, hevent, hpayload⟩ := List.mem_filterMap.mp h
  cases event with
  | exposure own =>
      dsimp only at hpayload
      split_ifs at hpayload
      cases hpayload
      exact hevent
  | goal own => cases hpayload

theorem mem_outputs_of_exposuresSinceFrom {settings : ClientSettings} {subject experiment : String}
    {calls : List CoreCall} {core : ClientCore} {since : List Exposure} {payload : Exposure}
    (h : payload ∈ exposuresSinceFrom settings subject experiment core since calls) :
    payload ∈ since ∨
      ClientEvent.exposure payload ∈ outputs (emitted settings) (afterCall settings) core calls := by
  induction calls generalizing core since with
  | nil => exact Or.inl h
  | cons call calls ih =>
      rcases ih h with hsince | hlater
      · split_ifs at hsince
        · rcases List.mem_append.mp hsince with hbefore | hhere
          · exact Or.inl hbefore
          · exact Or.inr (List.mem_append_left _ (mem_of_mem_exposuresOf hhere))
        · cases hsince
      · exact Or.inr (List.mem_append_right _ hlater)

section
variable {settings : ClientSettings} {subjects : List String} {definitions : List Json}
  {core : ClientCore}

theorem assigned_applyConfig (settings : ClientSettings) (core : ClientCore) (version : ℕ)
    (config : WireConfig) (subject experiment : String) :
    assigned (core.applyConfig settings version config).2.stateBySubject subject experiment = none ∨
      assigned (core.applyConfig settings version config).2.stateBySubject subject experiment =
        assigned core.stateBySubject subject experiment := by
  unfold ClientCore.applyConfig
  cases Config.applyConfig version config core.config with
  | error e => exact Or.inr rfl
  | ok applied =>
      dsimp only
      rw [assigned_applySnapshot]
      cases assigned core.stateBySubject subject experiment with
      | none => exact Or.inl rfl
      | some assignment =>
          rw [Option.filter_some]
          split_ifs
          · exact Or.inr rfl
          · exact Or.inl rfl

theorem exposuresOf_goal {name : String} {context : Option String} {value : Option Json}
    (subject experiment : String) :
    exposuresOf subject experiment (core.experimentGoal settings name context value).2 = [] := by
  unfold ClientCore.experimentGoal
  split
  · rfl
  · split_ifs
    · rfl
    · split
      · rfl
      · rfl
      · rfl

/-- A call drops an assignment, leaves it with no further exposure, or enters it
with one. -/
theorem exposed_afterCall (h : Remembers settings.hashes subjects definitions core)
    (call : CoreCall) (subject experiment : String) :
    assigned (afterCall settings call core).stateBySubject subject experiment = none ∨
      (assigned (afterCall settings call core).stateBySubject subject experiment =
          assigned core.stateBySubject subject experiment ∧
        exposuresOf subject experiment (emitted settings core call) = []) ∨
      (assigned core.stateBySubject subject experiment = none ∧
        exposuresOf subject experiment (emitted settings core call) =
          exposureOf subject experiment (afterCall settings call core)) := by
  cases call with
  | applyConfig version config =>
      rcases assigned_applyConfig settings core version config subject experiment with hnone | hsame
      · exact Or.inl hnone
      · exact Or.inr (Or.inl ⟨hsame, rfl⟩)
  | identify subjectId =>
      right; left
      refine ⟨?_, rfl⟩
      show assigned (core.identify subjectId).2.stateBySubject subject experiment = _
      unfold ClientCore.identify
      split_ifs
      · rfl
      · rfl
  | experimentGoal name context value =>
      exact Or.inr (Or.inl ⟨rfl, exposuresOf_goal subject experiment⟩)
  | configGet key context =>
      have hexposed : ∀ subject id assignment,
          assigned core.stateBySubject subject id = some assignment → assignment.exposed = true :=
        fun subject id assignment hassigned => (h.backed subject id assignment hassigned).exposed
      rcases configGet_cases settings key context hexposed with hsame |
        ⟨subjectId, definition, variant, value, exposures, states, -, -, hget, hrecorded⟩
      · have hemitted : emitted settings core (.configGet key context) = [] := congrArg Prod.fst hsame
        have hafter : afterCall settings (.configGet key context) core = core :=
          congrArg Prod.snd hsame
        rw [hemitted, hafter]
        exact Or.inr (Or.inl ⟨rfl, rfl⟩)
      · have hemitted : emitted settings core (.configGet key context) =
            exposures.map ClientEvent.exposure := congrArg (fun result => result.2.1) hget
        have hafter : afterCall settings (.configGet key context) core =
            { core with stateBySubject := states } := congrArg (fun result => result.2.2) hget
        rw [hemitted, hafter]
        unfold exposureOf
        dsimp only
        cases hrecorded with
        | kept assignment hassigned => exact Or.inr (Or.inl ⟨rfl, rfl⟩)
        | entered _ hnew hentered hothers =>
            by_cases hhere : subject = settings.hashes.subjectHash subjectId ∧
                experiment = idOf definition
            · obtain ⟨rfl, rfl⟩ := hhere
              right; right
              refine ⟨hnew, ?_⟩
              rw [hentered, List.map_singleton, exposuresOf_exposure, if_pos ⟨rfl, rfl⟩]
              rfl
            · rcases hothers subject experiment hhere with hnone | hsame
              · exact Or.inl hnone
              · right; left
                refine ⟨hsame, ?_⟩
                rw [List.map_singleton, exposuresOf_exposure, if_neg]
                rintro ⟨hsubject, hexperiment⟩
                exact hhere ⟨hsubject.symm, hexperiment.symm⟩

theorem exposuresSinceFrom_eq (hinjective : FingerprintsInjective settings.hashes definitions)
    {calls : List CoreCall} (hwithin : ∀ call ∈ calls, call.Within subjects definitions)
    (h : Remembers settings.hashes subjects definitions core) (subject experiment : String) :
    exposuresSinceFrom settings subject experiment core (exposureOf subject experiment core) calls =
      exposureOf subject experiment (run (afterCall settings) core calls) := by
  induction calls generalizing core with
  | nil => rfl
  | cons call calls ih =>
      rw [List.forall_mem_cons] at hwithin
      have hstep : (if (assigned (afterCall settings call core).stateBySubject subject
          experiment).isSome then exposureOf subject experiment core ++
            exposuresOf subject experiment (emitted settings core call) else []) =
          exposureOf subject experiment (afterCall settings call core) := by
        rcases exposed_afterCall h call subject experiment with hnone | ⟨hsame, hnil⟩ | ⟨hnew, hhere⟩
        · unfold exposureOf
          rw [hnone]
          rfl
        · unfold exposureOf
          rw [hsame, hnil, List.append_nil]
          cases assigned core.stateBySubject subject experiment with
          | none => rfl
          | some assignment => rfl
        · rw [hhere]
          unfold exposureOf
          rw [hnew]
          cases assigned (afterCall settings call core).stateBySubject subject experiment with
          | none => rfl
          | some assignment => rfl
      unfold exposuresSinceFrom
      dsimp only
      rw [hstep]
      exact ih hwithin.2 (h.afterCall hinjective hwithin.1)

/-- While an assignment is there it has been exposed once, and with its variant. -/
theorem exposuresSince_eq (hinjective : FingerprintsInjective settings.hashes definitions)
    {calls : List CoreCall} (hwithin : ∀ call ∈ calls, call.Within subjects definitions)
    (subject experiment : String) :
    exposuresSince settings subject experiment calls =
      exposureOf subject experiment (coreAfter settings calls) :=
  exposuresSinceFrom_eq hinjective hwithin (Remembers.initial _ _ _) subject experiment

/-! ## Goals -/

theorem exists_assigned_of_exposedAssignment {hashes : Hashes} {subjectId goalMetric : String}
    {states : SubjectStates} {assignment : Assignment}
    (h : exposedAssignmentForGoal hashes subjectId goalMetric states = .ok (some assignment)) :
    (∃ id, assigned states (hashes.subjectHash subjectId) id = some assignment) ∧
      assignment.goalMetric = some (.str goalMetric) := by
  unfold exposedAssignmentForGoal at h
  dsimp only at h
  split_ifs at h
  have hmem := List.mem_of_head? (Except.ok.inj h)
  obtain ⟨hmem, hmatches⟩ := List.mem_filter.mp hmem
  rw [Bool.and_eq_true] at hmatches
  refine ⟨?_, of_decide_eq_true hmatches.2⟩
  unfold assignmentsFor at hmem
  cases hget : states.get (hashes.subjectHash subjectId) with
  | none =>
      rw [hget] at hmem
      cases hmem
  | some state =>
      rw [hget] at hmem
      obtain ⟨entry, hentry, rfl⟩ := List.mem_map.mp hmem
      refine ⟨entry.1, ?_⟩
      unfold assigned
      rw [hget]
      exact (Table.get_eq_some_iff state entry.1 entry.2).mpr hentry

/-- A goal names the assignment of its subject that the state has. -/
theorem goal_of_emitted {call : CoreCall} {goal : Goal}
    (h : ClientEvent.goal goal ∈ emitted settings core call) :
    ∃ assignment, (∃ id, assigned core.stateBySubject goal.subject id = some assignment) ∧
      assignment.experiment = goal.experiment ∧ assignment.variant = goal.variant ∧
      assignment.goalMetric = some (.str goal.metric) := by
  cases call with
  | applyConfig version config => cases h
  | identify subjectId => cases h
  | configGet key context =>
      change ClientEvent.goal goal ∈ (core.configGet settings key context).2.1 at h
      unfold ClientCore.configGet at h
      split at h
      · cases h
      · split at h
        · cases h
        · split at h
          · cases h
          · cases h
          · obtain ⟨payload, -, hpayload⟩ := List.mem_map.mp h
            cases hpayload
  | experimentGoal name context value =>
      change ClientEvent.goal goal ∈ (core.experimentGoal settings name context value).2 at h
      unfold ClientCore.experimentGoal at h
      split at h
      · cases h
      · rename_i subjectId hsubject
        split_ifs at h
        · cases h
        · split at h
          · cases h
          · cases h
          · rename_i assignment hfound
            obtain ⟨hassigned, hmetric⟩ := exists_assigned_of_exposedAssignment hfound
            cases List.mem_singleton.mp h
            exact ⟨assignment, hassigned, rfl, rfl, hmetric⟩

end

/-! ## Agreement -/

theorem eq_of_idOf_eq {experiments : List Json} (hdistinct : (experiments.map idOf).Nodup)
    {a b : Json} (ha : a ∈ experiments) (hb : b ∈ experiments) (hid : idOf a = idOf b) : a = b :=
  List.inj_on_of_nodup_map hdistinct ha hb hid

/-- The digests tell apart the subjects, and the values of the definitions. -/
structure HashesInjective (hashes : Hashes) (subjects : List String) (definitions : List Json) :
    Prop where
  subject : Set.InjOn hashes.subjectHash { subjectId | subjectId ∈ subjects }
  snapshot : FingerprintsInjective hashes definitions

/-- After any calls: a read that serves a variant leaves its assignment exposed
once, as that variant; no assignment is exposed twice while it stays; and a goal
names what was exposed, of an experiment whose definition has the metric. -/
theorem exposures_and_goals_agree (settings : ClientSettings) (calls : List CoreCall)
    (call : CoreCall)
    (hinjective : HashesInjective settings.hashes ((calls ++ [call]).flatMap CoreCall.subjects)
      ((calls ++ [call]).flatMap CoreCall.definitions))
    (hdistinct : ∀ own ∈ calls ++ [call], (own.definitions.map idOf).Nodup) :
    let core := coreAfter settings calls
    (∀ key context subjectId experiment variant value, call = .configGet key context →
      (core.config.values.lookup key).isSome → core.subjectFrom context = some subjectId →
      served key subjectId (experimentsByKey core.config.experiments key) =
        .ok (some (experiment, variant, value)) →
      (core.configGet settings key context).1 = .ok (some value) ∧
        exposuresSince settings (settings.hashes.subjectHash subjectId) (idOf experiment)
          (calls ++ [call]) =
            [⟨idOf experiment, keyOf variant, settings.hashes.subjectHash subjectId⟩]) ∧
    (∀ subject id, (exposuresSince settings subject id (calls ++ [call])).length ≤ 1) ∧
    ∀ goal, ClientEvent.goal goal ∈ emitted settings core call →
      exposuresSince settings goal.subject goal.experiment calls =
        [⟨goal.experiment, goal.variant, goal.subject⟩] ∧
      ClientEvent.exposure ⟨goal.experiment, goal.variant, goal.subject⟩ ∈
        outputs (emitted settings) (afterCall settings) ClientCore.initial calls ∧
      ∃ experiment ∈ core.config.experiments, truthy (experiment.get? "enabled") = true ∧
        idOf experiment = goal.experiment ∧
        experiment.get? "goalMetric" = some (.str goal.metric) := by
  have hall : ∀ own ∈ calls ++ [call], own.Within ((calls ++ [call]).flatMap CoreCall.subjects)
      ((calls ++ [call]).flatMap CoreCall.definitions) :=
    fun own hown => within_of_mem hown
  have hcalls : ∀ own ∈ calls, own.Within ((calls ++ [call]).flatMap CoreCall.subjects)
      ((calls ++ [call]).flatMap CoreCall.definitions) :=
    fun own hown => hall own (List.mem_append_left _ hown)
  have hcall := hall call (List.mem_append_right _ List.mem_cons_self)
  have hids : ((coreAfter settings calls).config.experiments.map idOf).Nodup := by
    rcases experiments_coreAfter settings calls with hnil | ⟨own, hown, hsame⟩
    · rw [hnil]
      exact List.nodup_nil
    · rw [hsame]
      exact hdistinct own (List.mem_append_left _ hown)
  have hremembers := remembers_coreAfter hinjective.snapshot hcalls
  have hafter : coreAfter settings (calls ++ [call]) =
      afterCall settings call (coreAfter settings calls) := run_append _ _ _ _
  have hsince : ∀ subject id, exposuresSince settings subject id (calls ++ [call]) =
      exposureOf subject id (afterCall settings call (coreAfter settings calls)) := by
    intro subject id
    rw [exposuresSince_eq hinjective.snapshot hall, hafter]
  refine ⟨?_, ?_, ?_⟩
  · intro key context subjectId experiment variant value hget hkey hsubject hserved
    subst hget
    have hexposed : ∀ subject id assignment,
        assigned (coreAfter settings calls).stateBySubject subject id = some assignment →
          assignment.exposed = true :=
      fun subject id assignment hassigned => (hremembers.backed subject id assignment hassigned).exposed
    obtain ⟨exposures, states, hread, hrecorded⟩ :=
      configGet_served settings hexposed hkey hsubject hserved
    refine ⟨congrArg Prod.fst hread, ?_⟩
    have hstates : (afterCall settings (.configGet key context)
        (coreAfter settings calls)).stateBySubject = states :=
      congrArg (fun result => result.2.2.stateBySubject) hread
    have hassigned : ∃ assignment, assigned states (settings.hashes.subjectHash subjectId)
        (idOf experiment) = some assignment ∧ assignment.variant = keyOf variant := by
      cases hrecorded with
      | entered _ hnew hentered hothers => exact ⟨_, hentered, rfl⟩
      | kept assignment hassigned =>
          -- It was made for this subject, from this definition, so it is this variant.
          obtain ⟨-, -, own, hown, hhash, definition, hdefinition, hid, hmade⟩ :=
            hremembers.backed _ _ assignment hassigned
          obtain ⟨hmem, hvariant, -⟩ := served_some hserved
          have hsubjectId := hremembers.subjectFrom hcall.subjects hsubject
          obtain rfl : own = subjectId := hinjective.subject hown hsubjectId hhash
          obtain rfl : definition = experiment :=
            eq_of_idOf_eq hids hdefinition (List.mem_filter.mp hmem).1 hid
          obtain ⟨assignedVariant, hassign, hkeyOf⟩ := hmade.variant
          rw [hvariant] at hassign
          cases hassign
          exact ⟨assignment, hassigned, hkeyOf.symm⟩
    obtain ⟨assignment, hassignment, hvariant⟩ := hassigned
    rw [hsince]
    unfold exposureOf
    rw [hstates, hassignment, ← hvariant]
    rfl
  · intro subject id
    rw [hsince]
    unfold exposureOf
    cases assigned (afterCall settings call (coreAfter settings calls)).stateBySubject subject id with
    | none => exact Nat.zero_le 1
    | some assignment => exact Nat.le_refl 1
  · intro goal hgoal
    obtain ⟨assignment, ⟨id, hassigned⟩, hexperiment, hvariant, hmetric⟩ := goal_of_emitted hgoal
    obtain ⟨hid, -, subjectId, -, -, experiment, hmem, hidOf, hmade⟩ :=
      hremembers.backed goal.subject id assignment hassigned
    have hgoalId : id = goal.experiment := hid.symm.trans hexperiment
    have hexposure : exposuresSince settings goal.subject goal.experiment calls =
        [⟨goal.experiment, goal.variant, goal.subject⟩] := by
      rw [exposuresSince_eq hinjective.snapshot hcalls]
      unfold exposureOf
      rw [← hgoalId, hassigned, ← hvariant]
      rfl
    obtain ⟨variant, hassign, -⟩ := hmade.variant
    refine ⟨hexposure, ?_, experiment, hmem, (assignVariant_some hassign).1, hidOf.trans hgoalId,
      hmade.goalMetric goal.metric hmetric⟩
    have hemitted : (⟨goal.experiment, goal.variant, goal.subject⟩ : Exposure) ∈
        exposuresSince settings goal.subject goal.experiment calls := by
      rw [hexposure]
      exact List.mem_cons_self
    rcases mem_outputs_of_exposuresSinceFrom hemitted with hnil | houtput
    · cases hnil
    · exact houtput

/-! ### A reweighted experiment -/

/-- Two variants of one color key; the weight of the second one varies. -/
def bannerExperiment (weight : ℚ) : Json :=
  .obj [("id", .str "banner"), ("enabled", .bool true), ("allocation", .num 1), ("salt", .str "s"),
    ("goalMetric", .str "purchase"), ("variants", .arr
      [.obj [("key", .str "a"), ("weight", .num 1), ("values", .obj [("color", .str "red")])],
        .obj [("key", .str "b"), ("weight", .num weight), ("values", .obj [("color", .str "blue")])]])]

/-- The digests under the salt `salt` of the one subject and the two definitions. -/
def bannerSettings : ClientSettings where
  hashes :=
    { subjectHash := fun _ => "36236c197b012745"
      snapshotHash := fun definition =>
        if definition = canonicalize (bannerExperiment 1) then "12c82f4d6366c18c"
        else "92bf4f0e7baac81a" }
  experimentStateMaxSubjects := 1000
  max_pos := by decide

def bannerConfig (weight : ℚ) : WireConfig := ⟨[("color", .str "grey")], [bannerExperiment weight]⟩

def bannerCalls : List CoreCall :=
  [.applyConfig 1 (bannerConfig 1), .configGet "color" (some "u1"), .applyConfig 2 (bannerConfig 3),
    .configGet "color" (some "u1")]

def bannerGoal : CoreCall := .experimentGoal "purchase" (some "u1") (some (.num 5))

theorem exposures_and_goals_agree_banner :
    ClientEvent.goal ⟨"purchase", "36236c197b012745", "banner", "b", some (.num 5)⟩ ∈
        emitted bannerSettings (coreAfter bannerSettings bannerCalls) bannerGoal ∧
      exposuresSince bannerSettings "36236c197b012745" "banner" bannerCalls =
        [⟨"banner", "b", "36236c197b012745"⟩] := by
  have hemitted : ClientEvent.goal ⟨"purchase", "36236c197b012745", "banner", "b", some (.num 5)⟩ ∈
      emitted bannerSettings (coreAfter bannerSettings bannerCalls) bannerGoal := by decide +kernel
  have hinjective : HashesInjective bannerSettings.hashes
      ((bannerCalls ++ [bannerGoal]).flatMap CoreCall.subjects)
      ((bannerCalls ++ [bannerGoal]).flatMap CoreCall.definitions) := by
    refine ⟨?_, ?_⟩
    · intro a ha b hb _
      have hone : ∀ s ∈ (bannerCalls ++ [bannerGoal]).flatMap CoreCall.subjects, s = "u1" := by
        decide +kernel
      exact (hone a ha).trans (hone b hb).symm
    · rintro _ ⟨a, ha, rfl⟩ _ ⟨b, hb, rfl⟩ hhash
      have htwo : ∀ a ∈ (bannerCalls ++ [bannerGoal]).flatMap CoreCall.definitions,
          ∀ b ∈ (bannerCalls ++ [bannerGoal]).flatMap CoreCall.definitions,
            bannerSettings.hashes.snapshotHash (canonicalize a) =
              bannerSettings.hashes.snapshotHash (canonicalize b) →
            canonicalize a = canonicalize b := by decide +kernel
      exact htwo a ha b hb hhash
  have hdistinct : ∀ own ∈ bannerCalls ++ [bannerGoal], (own.definitions.map idOf).Nodup := by
    intro own hown
    have hall : (bannerCalls ++ [bannerGoal]).all fun own => (own.definitions.map idOf).Nodup := by
      decide +kernel
    exact of_decide_eq_true (List.all_eq_true.mp hall own hown)
  obtain ⟨-, -, hgoal⟩ :=
    exposures_and_goals_agree bannerSettings bannerCalls bannerGoal hinjective hdistinct
  exact ⟨hemitted, (hgoal _ hemitted).1⟩

end Wardx.Core
