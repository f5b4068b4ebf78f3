import Mathlib.Data.Set.Function
import Wardx.Core.SubjectState

/-!
# Exposures and goals

Every assignment in the state was made for a subject with its hash, from an
enabled experiment of the applied config, and has been exposed once since it
entered. So the variant a value comes from is the one that was exposed, and a
goal names an exposed variant of an experiment that has that goal metric now.
-/
namespace Wardx.Core

open Lib Json Control Config

/-! ## The state of one experiment and subject -/

/-- The assignment of an experiment to a subject, by hash. -/
def assigned (states : SubjectStates) (subject experiment : String) : Option Assignment :=
  (states.get subject).bind fun state => state.get experiment

theorem get_evictOldest {stateMaxSubjects : ℕ} {states : SubjectStates} {subject : String}
    {state : SubjectState} (h : (evictOldest stateMaxSubjects states).get subject = some state) :
    states.get subject = some state := by
  rw [Table.get_eq_some_iff] at h ⊢
  exact List.mem_of_mem_drop h

theorem assigned_evictOldest (stateMaxSubjects : ℕ) (states : SubjectStates)
    (subject experiment : String) :
    assigned (evictOldest stateMaxSubjects states) subject experiment = none ∨
      assigned (evictOldest stateMaxSubjects states) subject experiment =
        assigned states subject experiment := by
  cases hget : (evictOldest stateMaxSubjects states).get subject with
  | none =>
      left
      unfold assigned
      rw [hget]
      rfl
  | some state =>
      right
      unfold assigned
      rw [hget, get_evictOldest hget]

theorem assigned_put (states : SubjectStates) (subject : String) (state : SubjectState)
    (s i : String) :
    assigned (states.put subject state) s i =
      if s = subject then state.get i else assigned states s i := by
  unfold assigned
  rw [Table.get_put]
  split_ifs
  · rfl
  · rfl

/-- What a snapshot keeps was there and is of an active definition. -/
theorem assigned_applySnapshot (hashes : Hashes) (experiments : List Json) (states : SubjectStates)
    (subject experiment : String) :
    assigned (applySnapshot hashes experiments states) subject experiment =
      (assigned states subject experiment).filter fun assignment =>
        decide ((activeFingerprints hashes experiments).get experiment =
          some assignment.fingerprint) := by
  unfold assigned applySnapshot
  dsimp only
  rw [Table.get_filter, Table.get_mapValues]
  cases states.get subject with
  | none => rfl
  | some state =>
      simp only [Option.map_some, Option.bind_some]
      by_cases hsize : (state.filter fun id assignment => decide
          ((activeFingerprints hashes experiments).get id = some assignment.fingerprint)).size ≠ 0
      · rw [Option.filter_some_pos (by simpa using hsize), Option.bind_some, Table.get_filter]
      · have hnil : (state.filter fun id assignment => decide
            ((activeFingerprints hashes experiments).get id = some assignment.fingerprint)).get
              experiment = none := by
          have hentries := List.eq_nil_of_length_eq_zero (not_not.mp hsize)
          exact congrArg (List.lookup experiment) hentries
        rw [Option.filter_some_neg (by simpa using hsize), Option.bind_none, ← hnil,
          Table.get_filter]

theorem mem_of_activeFingerprints {hashes : Hashes} {experiments : List Json} {id fingerprint : String}
    (h : (activeFingerprints hashes experiments).get id = some fingerprint) :
    ∃ experiment ∈ experiments, truthy (experiment.get? "enabled") = true ∧
      idOf experiment = id ∧ experimentFingerprint hashes experiment = fingerprint := by
  have hfold : ∀ (list : List Json) (active : Table String String),
      (list.foldl (fun active experiment =>
        if truthy (experiment.get? "enabled") then
          active.put (idOf experiment) (experimentFingerprint hashes experiment)
        else active) active).get id = some fingerprint →
      active.get id = some fingerprint ∨ ∃ experiment ∈ list,
        truthy (experiment.get? "enabled") = true ∧ idOf experiment = id ∧
          experimentFingerprint hashes experiment = fingerprint := by
    intro list
    induction list with
    | nil => exact fun active hactive => Or.inl hactive
    | cons experiment rest ih =>
        intro active hactive
        rw [List.foldl_cons] at hactive
        rcases ih _ hactive with hhere | ⟨later, hlater, hfound⟩
        · split_ifs at hhere with henabled
          · rw [Table.get_put] at hhere
            split_ifs at hhere with hid
            · exact Or.inr ⟨experiment, List.mem_cons_self, henabled, hid.symm,
                Option.some.inj hhere⟩
            · exact Or.inl hhere
          · exact Or.inl hhere
        · exact Or.inr ⟨later, List.mem_cons_of_mem experiment hlater, hfound⟩
  rcases hfold experiments Table.empty h with hnone | hfound
  · cases hnone
  · exact hfound

/-! ## Serving -/

theorem served_some {key subjectId : String} {experiments : List Json} {experiment variant value : Json}
    (h : served key subjectId experiments = .ok (some (experiment, variant, value))) :
    experiment ∈ experiments ∧ assignVariant experiment subjectId = .ok (some variant) ∧
      variantValue variant key = some value := by
  induction experiments with
  | nil => cases h
  | cons first rest ih =>
      unfold served at h
      rw [bind_eq_ok_iff] at h
      obtain ⟨own, hown, h⟩ := h
      split at h
      · rename_i v w hcarried
        obtain ⟨rfl, rfl, rfl⟩ : first = experiment ∧ v = variant ∧ w = value := by
          cases h
          exact ⟨rfl, rfl, rfl⟩
        obtain ⟨assignedVariant, rfl, hvalue⟩ := Option.bind_eq_some_iff.mp hcarried
        obtain ⟨found, hfound, hpair⟩ := Option.map_eq_some_iff.mp hvalue
        cases hpair
        exact ⟨List.mem_cons_self, hown, hfound⟩
      · obtain ⟨hmem, hrest⟩ := ih h
        exact ⟨List.mem_cons_of_mem first hmem, hrest⟩

/-- The value of a config read is the plain resolution of the key. -/
theorem resolveAmong_eq_served (key subjectId : String) (remote : Json) (experiments : List Json) :
    resolveAmong key remote subjectId experiments =
      (served key subjectId experiments).map fun found =>
        (found.map fun triple => triple.2.2).getD remote := by
  induction experiments with
  | nil => rfl
  | cons experiment rest ih =>
      unfold resolveAmong served
      cases assignVariant experiment subjectId with
      | error e => rfl
      | ok variant =>
          cases variant with
          | none => exact ih
          | some variant =>
              dsimp only [bind, Except.bind, Option.bind]
              cases variantValue variant key with
              | none => exact ih
              | some value => rfl

/-- What a served variant does to the state: the assignment that is there stays
and emits nothing, a new one is exposed at once and may evict other subjects. -/
inductive Recorded (hashes : Hashes) (subjectId : String) (experiment variant : Json)
    (states : SubjectStates) : List Exposure → SubjectStates → Prop
  | kept (assignment : Assignment)
      (hassigned : assigned states (hashes.subjectHash subjectId) (idOf experiment) =
        some assignment) :
      Recorded hashes subjectId experiment variant states [] states
  | entered (after : SubjectStates)
      (hnew : assigned states (hashes.subjectHash subjectId) (idOf experiment) = none)
      (hentered : assigned after (hashes.subjectHash subjectId) (idOf experiment) =
        some { newAssignment hashes experiment variant with exposed := true })
      (hothers : ∀ subject id,
        ¬ (subject = hashes.subjectHash subjectId ∧ id = idOf experiment) →
        assigned after subject id = none ∨ assigned after subject id = assigned states subject id) :
      Recorded hashes subjectId experiment variant states
        [⟨idOf experiment, keyOf variant, hashes.subjectHash subjectId⟩] after

theorem recorded_of_record {hashes : Hashes} {stateMaxSubjects : ℕ} {subjectId : String}
    {experiment variant : Json} {states : SubjectStates}
    (hexposed : ∀ subject id assignment, assigned states subject id = some assignment →
      assignment.exposed = true) :
    let (assignment, recorded) :=
      recordAssignment hashes stateMaxSubjects subjectId experiment variant states
    let (exposures, after) := expose hashes assignment subjectId recorded
    Recorded hashes subjectId experiment variant states exposures after := by
  have hnewTable : ∀ (kept : SubjectStates) (state : SubjectState),
      state.get (idOf experiment) = none →
      (∀ i, state.get i = assigned states (hashes.subjectHash subjectId) i) →
      (∀ subject id, subject ≠ hashes.subjectHash subjectId → assigned kept subject id = none ∨
        assigned kept subject id = assigned states subject id) →
      Recorded hashes subjectId experiment variant states
        (expose hashes (newAssignment hashes experiment variant) subjectId
          (kept.put (hashes.subjectHash subjectId)
            (state.put (idOf experiment) (newAssignment hashes experiment variant)))).1
        (expose hashes (newAssignment hashes experiment variant) subjectId
          (kept.put (hashes.subjectHash subjectId)
            (state.put (idOf experiment) (newAssignment hashes experiment variant)))).2 := by
    intro kept state hnone hstate hkept
    unfold expose
    rw [if_neg (by simp [newAssignment])]
    refine Recorded.entered _ ?_ ?_ ?_
    · rw [← hstate]
      exact hnone
    · rw [assigned_put, if_pos rfl]
      exact Table.get_put_self _ _ _
    · intro subject id hother
      rw [assigned_put]
      by_cases hsubject : subject = hashes.subjectHash subjectId
      · right
        have hid : id ≠ idOf experiment := fun hid => hother ⟨hsubject, hid⟩
        have hid' : id ≠ (newAssignment hashes experiment variant).experiment := hid
        rw [if_pos hsubject, Table.get_put_self, Option.getD_some, Table.get_put_of_ne _ _ hid',
          Table.get_put_of_ne _ _ hid, hstate, hsubject]
      · rw [if_neg hsubject, assigned_put, if_neg hsubject]
        exact hkept subject id hsubject
  unfold recordAssignment
  dsimp only
  cases hget : states.get (hashes.subjectHash subjectId) with
  | none =>
      have hassigned : ∀ i, assigned states (hashes.subjectHash subjectId) i = none := by
        intro i
        unfold assigned
        rw [hget]
        rfl
      exact hnewTable (evictOldest stateMaxSubjects states) Table.empty rfl
        (fun i => (hassigned i).symm)
        fun subject id _ => assigned_evictOldest stateMaxSubjects states subject id
  | some state =>
      have hassigned : ∀ i, state.get i = assigned states (hashes.subjectHash subjectId) i := by
        intro i
        unfold assigned
        rw [hget]
        rfl
      cases hid : state.get (idOf experiment) with
      | none =>
          dsimp only
          exact hnewTable states state hid hassigned fun _ _ _ => Or.inr rfl
      | some assignment =>
          dsimp only
          have hkept := (hassigned (idOf experiment)).symm.trans hid
          unfold expose
          rw [if_pos (hexposed _ _ _ hkept)]
          exact Recorded.kept assignment hkept

/-- A read that serves a variant records it. -/
theorem configGet_served (settings : ClientSettings) {core : ClientCore} {key : String}
    {context : Option String}
    (hexposed : ∀ subject id assignment,
      assigned core.stateBySubject subject id = some assignment → assignment.exposed = true)
    (hkey : (core.config.values.lookup key).isSome) {subjectId : String}
    (hsubject : core.subjectFrom context = some subjectId) {experiment variant value : Json}
    (hserved : served key subjectId (experimentsByKey core.config.experiments key) =
      .ok (some (experiment, variant, value))) :
    ∃ exposures states,
      core.configGet settings key context = (.ok (some value),
        exposures.map ClientEvent.exposure, { core with stateBySubject := states }) ∧
      Recorded settings.hashes subjectId experiment variant core.stateBySubject exposures states := by
  obtain ⟨remote, hremote⟩ := Option.isSome_iff_exists.mp hkey
  unfold ClientCore.configGet
  simp only [hremote, hsubject, hserved]
  exact ⟨_, _, rfl, recorded_of_record hexposed⟩

/-- A config read serves no variant and changes nothing, or it serves one and
records it. -/
theorem configGet_cases (settings : ClientSettings) {core : ClientCore} (key : String)
    (context : Option String)
    (hexposed : ∀ subject id assignment,
      assigned core.stateBySubject subject id = some assignment → assignment.exposed = true) :
    (core.configGet settings key context).2 = ([], core) ∨
      ∃ subjectId experiment variant value exposures states,
        core.subjectFrom context = some subjectId ∧
        served key subjectId (experimentsByKey core.config.experiments key) =
          .ok (some (experiment, variant, value)) ∧
        core.configGet settings key context = (.ok (some value),
          exposures.map ClientEvent.exposure, { core with stateBySubject := states }) ∧
        Recorded settings.hashes subjectId experiment variant core.stateBySubject exposures
          states := by
  cases hremote : core.config.values.lookup key with
  | none =>
      left
      unfold ClientCore.configGet
      rw [hremote]
  | some remote =>
      cases hsubject : core.subjectFrom context with
      | none =>
          left
          unfold ClientCore.configGet
          rw [hremote]
          dsimp only
          rw [hsubject]
      | some subjectId =>
          rcases hserved : served key subjectId (experimentsByKey core.config.experiments key) with
            e | _ | ⟨experiment, variant, value⟩
          · left
            unfold ClientCore.configGet
            simp only [hremote, hsubject, hserved]
          · left
            unfold ClientCore.configGet
            simp only [hremote, hsubject, hserved]
          · obtain ⟨exposures, states, hget, hrecorded⟩ := configGet_served settings hexposed
              (Option.isSome_iff_exists.mpr ⟨remote, hremote⟩) hsubject hserved
            exact Or.inr ⟨subjectId, experiment, variant, value, exposures, states, rfl, hserved,
              hget, hrecorded⟩

/-- The value of a read is that of the resolver without its memory. -/
theorem configGet_value (settings : ClientSettings) (core : ClientCore) (key : String)
    (context : Option String) :
    (core.configGet settings key context).1 =
      configGet ⟨core.config.values, core.config.experiments⟩ key (core.subjectFrom context) := by
  unfold ClientCore.configGet configGet resolve
  dsimp only
  cases core.config.values.lookup key with
  | none => rfl
  | some remote =>
      cases core.subjectFrom context with
      | none => rfl
      | some subjectId =>
          dsimp only
          rw [resolveAmong_eq_served]
          cases served key subjectId (experimentsByKey core.config.experiments key) with
          | error e => rfl
          | ok found =>
              cases found with
              | none => rfl
              | some triple => rfl

/-! ## What backs an assignment -/

/-- The assignment is what the definition gives the subject. -/
structure MadeFrom (hashes : Hashes) (subjectId : String) (experiment : Json)
    (assignment : Assignment) : Prop where
  fingerprint_eq : experimentFingerprint hashes experiment = assignment.fingerprint
  goalMetric : ∀ metric, assignment.goalMetric = some (.str metric) →
    experiment.get? "goalMetric" = some (.str metric)
  variant : ∃ variant, assignVariant experiment subjectId = .ok (some variant) ∧
    keyOf variant = assignment.variant

/-- An assignment in the state under a subject's hash and an experiment's id. -/
structure Backed (hashes : Hashes) (subjects : List String) (experiments : List Json)
    (subject id : String) (assignment : Assignment) : Prop where
  experiment_eq : assignment.experiment = id
  exposed : assignment.exposed = true
  made : ∃ subjectId ∈ subjects, hashes.subjectHash subjectId = subject ∧
    ∃ experiment ∈ experiments, idOf experiment = id ∧
      MadeFrom hashes subjectId experiment assignment

/-- What the core keeps comes from the subjects and definitions in use. -/
structure Remembers (hashes : Hashes) (subjects : List String) (definitions : List Json)
    (core : ClientCore) : Prop where
  known : ∀ experiment ∈ core.config.experiments, experiment ∈ definitions
  identified : ∀ subjectId, core.subjectId = some subjectId → subjectId ∈ subjects
  backed : ∀ subject id assignment, assigned core.stateBySubject subject id = some assignment →
    Backed hashes subjects core.config.experiments subject id assignment

/-- The subjects a call names. -/
def CoreCall.subjects : CoreCall → List String
  | .applyConfig _ _ => []
  | .configGet _ context => context.toList
  | .identify subjectId => subjectId.toList
  | .experimentGoal _ context _ => context.toList

/-- The definitions a call brings. -/
def CoreCall.definitions : CoreCall → List Json
  | .applyConfig _ config => config.experiments
  | _ => []

/-- The digest tells apart the values of the definitions. -/
def FingerprintsInjective (hashes : Hashes) (definitions : List Json) : Prop :=
  Set.InjOn hashes.snapshotHash (Set.image canonicalize { e | e ∈ definitions })

/-- The call brings no subject or definition beyond the given ones. -/
structure CoreCall.Within (subjects : List String) (definitions : List Json) (call : CoreCall) :
    Prop where
  subjects : ∀ subjectId ∈ call.subjects, subjectId ∈ subjects
  definitions : ∀ experiment ∈ call.definitions, experiment ∈ definitions

section
variable {settings : ClientSettings} {subjects : List String} {definitions : List Json}
  {core : ClientCore}

theorem Remembers.initial (hashes : Hashes) (subjects : List String) (definitions : List Json) :
    Remembers hashes subjects definitions ClientCore.initial := by
  refine ⟨?_, ?_, ?_⟩
  · intro experiment hexperiment
    cases hexperiment
  · intro subjectId hsubject
    cases hsubject
  · intro subject id assignment hassigned
    cases hassigned

/-- A definition with the same fingerprint backs the assignment as well. -/
theorem MadeFrom.of_fingerprint {hashes : Hashes}
    (hinjective : FingerprintsInjective hashes definitions) {old new : Json} {subjectId : String} {assignment : Assignment}
    (hold : old ∈ definitions) (hnew : new ∈ definitions)
    (hmade : MadeFrom hashes subjectId old assignment)
    (hfingerprint : experimentFingerprint hashes new = assignment.fingerprint) :
    MadeFrom hashes subjectId new assignment := by
  have hcanonical : canonicalize old = canonicalize new :=
    hinjective ⟨old, hold, rfl⟩ ⟨new, hnew, rfl⟩
      (hmade.fingerprint_eq.trans hfingerprint.symm)
  refine ⟨hfingerprint, ?_, ?_⟩
  · intro metric hmetric
    exact goalMetric_of_canonical hcanonical (hmade.goalMetric metric hmetric)
  · obtain ⟨variant, hvariant, hkey⟩ := hmade.variant
    obtain ⟨own, hown, hsame⟩ := exists_assignVariant_of_canonical hcanonical hvariant
    exact ⟨own, hown, hsame.trans hkey⟩

theorem experiments_of_applied {version : ℕ} {config : WireConfig} {before applied : CoreConfig}
    (h : Config.applyConfig version config before = .ok applied) :
    applied.experiments = config.experiments := by
  unfold Config.applyConfig at h
  simp only [bind_eq_ok_iff, pure, Except.pure, Except.ok.injEq] at h
  obtain ⟨_, _, rfl⟩ := h
  rfl

/-- A call leaves the applied experiments, or applies its own. -/
theorem experiments_afterCall (settings : ClientSettings) (call : CoreCall) (core : ClientCore) :
    (afterCall settings call core).config.experiments = core.config.experiments ∨
      (afterCall settings call core).config.experiments = call.definitions := by
  cases call with
  | experimentGoal name context value => exact Or.inl rfl
  | identify subjectId =>
      left
      show (core.identify subjectId).2.config.experiments = _
      unfold ClientCore.identify
      split_ifs
      · rfl
      · rfl
  | configGet key context =>
      left
      show (core.configGet settings key context).2.2.config.experiments = _
      unfold ClientCore.configGet
      split
      · rfl
      · split
        · rfl
        · split
          · rfl
          · rfl
          · rfl
  | applyConfig version config =>
      change (core.applyConfig settings version config).2.config.experiments = _ ∨
        (core.applyConfig settings version config).2.config.experiments = config.experiments
      unfold ClientCore.applyConfig
      cases happlied : Config.applyConfig version config core.config with
      | error e => exact Or.inl rfl
      | ok applied => exact Or.inr (experiments_of_applied happlied)

theorem Remembers.applyConfig (hinjective : FingerprintsInjective settings.hashes definitions)
    (h : Remembers settings.hashes subjects definitions core) {version : ℕ} {config : WireConfig}
    (hwithin : (CoreCall.applyConfig version config).Within subjects definitions) :
    Remembers settings.hashes subjects definitions (core.applyConfig settings version config).2 := by
  unfold ClientCore.applyConfig
  cases happlied : Config.applyConfig version config core.config with
  | error e => exact h
  | ok applied =>
      have hexperiments := experiments_of_applied happlied
      refine ⟨?_, h.identified, ?_⟩
      · show ∀ experiment ∈ applied.experiments, _
        rw [hexperiments]
        exact hwithin.definitions
      · intro subject id assignment hassigned
        change assigned (applySnapshot settings.hashes applied.experiments core.stateBySubject)
          subject id = some assignment at hassigned
        rw [assigned_applySnapshot, Option.filter_eq_some_iff] at hassigned
        obtain ⟨hbefore, hactive⟩ := hassigned
        obtain ⟨new, hnew, -, hid, hfingerprint⟩ :=
          mem_of_activeFingerprints (of_decide_eq_true hactive)
        obtain ⟨hexperiment, hexposed, subjectId, hsubject, hhash, old, hold, -, hmade⟩ :=
          h.backed subject id assignment hbefore
        have hused : new ∈ definitions := by
          rw [hexperiments] at hnew
          exact hwithin.definitions new hnew
        exact ⟨hexperiment, hexposed, subjectId, hsubject, hhash, new, hnew, hid,
          hmade.of_fingerprint hinjective (h.known old hold) hused hfingerprint⟩

theorem Remembers.subjectFrom (h : Remembers settings.hashes subjects definitions core)
    {context : Option String} (hcontext : ∀ subjectId ∈ context.toList, subjectId ∈ subjects)
    {subjectId : String} (hsubject : core.subjectFrom context = some subjectId) :
    subjectId ∈ subjects := by
  cases context with
  | none => exact h.identified subjectId hsubject
  | some own =>
      cases hsubject
      exact hcontext subjectId List.mem_cons_self

theorem Remembers.configGet (h : Remembers settings.hashes subjects definitions core) {key : String}
    {context : Option String}
    (hwithin : (CoreCall.configGet key context).Within subjects definitions) :
    Remembers settings.hashes subjects definitions (core.configGet settings key context).2.2 := by
  have hexposed : ∀ subject id assignment,
      assigned core.stateBySubject subject id = some assignment → assignment.exposed = true :=
    fun subject id assignment hassigned => (h.backed subject id assignment hassigned).exposed
  rcases configGet_cases settings key context hexposed with hsame |
    ⟨subjectId, experiment, variant, value, exposures, states, hsubject, hserved, hget, hrecorded⟩
  · rw [hsame]
    exact h
  · rw [hget]
    refine ⟨h.known, h.identified, ?_⟩
    show ∀ subject id assignment, assigned states subject id = some assignment → _
    cases hrecorded with
    | kept assignment hassigned => exact h.backed
    | entered _ hnew hentered hothers =>
        intro subject id assignment hassigned
        by_cases hhere : subject = settings.hashes.subjectHash subjectId ∧ id = idOf experiment
        · obtain ⟨rfl, rfl⟩ := hhere
          rw [hentered] at hassigned
          obtain ⟨hmem, hvariant, -⟩ := served_some hserved
          cases hassigned
          exact ⟨rfl, rfl, subjectId, h.subjectFrom hwithin.subjects hsubject, rfl, experiment,
            (List.mem_filter.mp hmem).1, rfl, rfl, fun _ hmetric => hmetric, variant, hvariant, rfl⟩
        · rcases hothers subject id hhere with hnone | hbefore
          · rw [hnone] at hassigned
            cases hassigned
          · rw [hbefore] at hassigned
            exact h.backed subject id assignment hassigned

theorem Remembers.afterCall (hinjective : FingerprintsInjective settings.hashes definitions)
    (h : Remembers settings.hashes subjects definitions core) {call : CoreCall}
    (hwithin : call.Within subjects definitions) :
    Remembers settings.hashes subjects definitions (afterCall settings call core) := by
  cases call with
  | applyConfig version config => exact h.applyConfig hinjective hwithin
  | configGet key context => exact h.configGet hwithin
  | experimentGoal name context value => exact h
  | identify subjectId =>
      show Remembers settings.hashes subjects definitions (core.identify subjectId).2
      unfold ClientCore.identify
      split_ifs
      · exact h
      · refine ⟨h.known, ?_, h.backed⟩
        intro own hown
        exact hwithin.subjects own (Option.mem_toList.mpr hown)

theorem remembers_coreAfter (hinjective : FingerprintsInjective settings.hashes definitions)
    {calls : List CoreCall} (hwithin : ∀ call ∈ calls, call.Within subjects definitions) :
    Remembers settings.hashes subjects definitions (coreAfter settings calls) := by
  have hrun : ∀ core, Remembers settings.hashes subjects definitions core →
      Remembers settings.hashes subjects definitions (run (afterCall settings) core calls) := by
    induction calls with
    | nil => exact fun core h => h
    | cons call calls ih =>
        rw [List.forall_mem_cons] at hwithin
        exact fun core h => ih hwithin.2 _ (h.afterCall hinjective hwithin.1)
  exact hrun _ (Remembers.initial _ _ _)

end

theorem within_of_mem {calls : List CoreCall} {call : CoreCall} (hmem : call ∈ calls) :
    call.Within (calls.flatMap CoreCall.subjects) (calls.flatMap CoreCall.definitions) :=
  ⟨fun _ h => List.mem_flatMap.mpr ⟨call, hmem, h⟩, fun _ h => List.mem_flatMap.mpr ⟨call, hmem, h⟩⟩

/-- The applied experiments are none or those of a call. -/
theorem experiments_coreAfter (settings : ClientSettings) (calls : List CoreCall) :
    (coreAfter settings calls).config.experiments = [] ∨
      ∃ call ∈ calls, (coreAfter settings calls).config.experiments = call.definitions := by
  have hrun : ∀ core, (run (afterCall settings) core calls).config.experiments =
      core.config.experiments ∨
        ∃ call ∈ calls, (run (afterCall settings) core calls).config.experiments =
          call.definitions := by
    induction calls with
    | nil => exact fun core => Or.inl rfl
    | cons call calls ih =>
        intro core
        rcases ih (afterCall settings call core) with hsame | ⟨own, hown, hlater⟩
        · rcases experiments_afterCall settings call core with hbefore | hhere
          · exact Or.inl (hsame.trans hbefore)
          · exact Or.inr ⟨call, List.mem_cons_self, hsame.trans hhere⟩
        · exact Or.inr ⟨own, List.mem_cons_of_mem call hown, hlater⟩
  exact hrun ClientCore.initial

end Wardx.Core
