import Wardx.Lib.DayMask
import Wardx.Storage.RetentionSpec

/-!
# The retention ledger is what it received

What a project's rows should say of the events it was sent: a subject's cohort
is its first active day, the mask shows the active days of the window from
there, the channel is that of the first channel-bearing activity, and a
conversion has its first day and the number of repeats.

`Reflects` says it for a list of events. While no cap refuses anything, one
event keeps it for the list grown by that event, so every run of batches does,
whatever other projects send in between. The list enters through its members
and counts alone, which gives invariance under permutation.
-/
namespace Wardx.RetentionLedger

open Lib ExperimentLedger

/-! ## What the events say -/

def isActivityOf (subject : String) (event : RetentionEvent) : Bool :=
  event.subject = subject && event.goal.isNone

/-- The days of a subject's activities. -/
def activityDaysOf (events : List RetentionEvent) (subject : String) : List ℕ :=
  (events.filter (isActivityOf subject)).map RetentionEvent.day

/-- The moments and channels of a subject's channel-bearing activities. -/
def touchesOf (events : List RetentionEvent) (subject : String) : List (ℕ × String) :=
  (events.filter (isActivityOf subject)).filterMap fun event =>
    event.channel.map fun channel => (event.moment, channel)

/-- The days of a subject's conversions to a goal. -/
def conversionDaysOf (events : List RetentionEvent) (subject goal : String) : List ℕ :=
  (events.filter fun event => event.subject = subject && event.goal = some goal).map
    RetentionEvent.day

def subjectsOf (events : List RetentionEvent) : Finset String :=
  (events.map RetentionEvent.subject).toFinset

/-- The label of a kind that an event carries; a conversion has no channel. -/
def labelOf (kind : LabelKind) (event : RetentionEvent) : Option String :=
  match kind with
  | .channel => if event.goal.isNone then event.channel else none
  | .goal => event.goal

def labelsOf (kind : LabelKind) (events : List RetentionEvent) : Finset String :=
  (events.filterMap (labelOf kind)).toFinset

/-- No cap refuses any of the events. -/
structure WithinCaps (settings : RetentionSettings) (events : List RetentionEvent) : Prop where
  users : (subjectsOf events).card ≤ settings.maxUsersPerProject
  channels : (labelsOf .channel events).card ≤ settings.maxChannelsPerProject
  goals : (labelsOf .goal events).card ≤ settings.maxGoalsPerProject

/-- A subject's row: the first of its active days, and those of the 31 days from there. -/
def UserFits (days : List ℕ) : Option RetentionUser → Prop
  | none => days = []
  | some user =>
      IsLeast {day | day ∈ days} user.cohortDay ∧
        DayMask.Marks 31 user.cohortDay user.activityDays {day | day ∈ days}

/-- A conversion's row: the first of its days, and how many came after it. -/
def ConversionFits (days : List ℕ) : Option RetentionConversion → Prop
  | none => days = []
  | some row => IsLeast {day | day ∈ days} row.conversionDay ∧ row.duplicates + 1 = days.length

/-- The project's rows say what the events say. -/
structure Reflects (project salt : String) (events : List RetentionEvent)
    (ledger : RetentionLedger) : Prop where
  users : ∀ subject,
    UserFits (activityDaysOf events subject) (ledger.users.get (project, subject))
  channels : ∀ subject,
    FirstTouch.IsFirst (touchesOf events subject) (heldTouch ledger project subject)
  conversions : ∀ subject goal,
    ConversionFits (conversionDaysOf events subject goal)
      (ledger.conversions.get (project, subject, goal))
  row : ledger.projects.get project =
    if events = [] then none else some ⟨salt, (subjectsOf events).card, 0, 0⟩
  channelLabels : ∀ label, isRegistered ledger project .channel label →
    label ∈ labelsOf .channel events
  goalLabels : ∀ label, isRegistered ledger project .goal label ↔ label ∈ labelsOf .goal events

theorem reflects_empty (project salt : String) : Reflects project salt [] empty := by
  refine ⟨fun _ => rfl, fun _ => rfl, fun _ _ => rfl, rfl, fun label h => ?_, fun label => ?_⟩
  · cases h
  · constructor
    · intro h
      cases h
    · intro h
      simp [labelsOf] at h

/-! ## One more event -/

section
variable (events : List RetentionEvent) (event : RetentionEvent)

theorem activityDaysOf_append (subject : String) :
    activityDaysOf (events ++ [event]) subject =
      activityDaysOf events subject ++
        if isActivityOf subject event then [event.day] else [] := by
  unfold activityDaysOf
  rw [List.filter_append, List.map_append]
  split_ifs with h <;> simp [h]

theorem touchesOf_append (subject : String) :
    touchesOf (events ++ [event]) subject =
      touchesOf events subject ++
        if isActivityOf subject event then
          (event.channel.map fun channel => (event.moment, channel)).toList else [] := by
  unfold touchesOf
  rw [List.filter_append, List.filterMap_append]
  split_ifs with h
  · cases hchannel : event.channel <;> simp [h, hchannel]
  · simp [h]

theorem conversionDaysOf_append (subject goal : String) :
    conversionDaysOf (events ++ [event]) subject goal =
      conversionDaysOf events subject goal ++
        if event.subject = subject ∧ event.goal = some goal then [event.day] else [] := by
  unfold conversionDaysOf
  rw [List.filter_append, List.map_append]
  split_ifs with h <;> simp [h]

theorem subjectsOf_append :
    subjectsOf (events ++ [event]) = insert event.subject (subjectsOf events) := by
  ext subject
  simp [subjectsOf]

theorem mem_labelsOf_append (kind : LabelKind) (label : String) :
    label ∈ labelsOf kind (events ++ [event]) ↔
      label ∈ labelsOf kind events ∨ labelOf kind event = some label := by
  unfold labelsOf
  rw [List.filterMap_append, List.mem_toFinset, List.mem_append, List.mem_toFinset]
  apply or_congr_right
  cases hlabel : labelOf kind event with
  | none => simp [hlabel]
  | some other => simp [hlabel, eq_comm]

end

theorem subjectsOf_subset {events events' : List RetentionEvent} (h : events ⊆ events') :
    subjectsOf events ⊆ subjectsOf events' := by
  intro subject hsubject
  unfold subjectsOf at hsubject ⊢
  rw [List.mem_toFinset] at hsubject ⊢
  exact List.map_subset _ h hsubject

theorem labelsOf_subset {events events' : List RetentionEvent} (kind : LabelKind)
    (h : events ⊆ events') : labelsOf kind events ⊆ labelsOf kind events' := by
  intro label hlabel
  unfold labelsOf at hlabel ⊢
  rw [List.mem_toFinset] at hlabel ⊢
  exact List.filterMap_subset _ h hlabel

theorem WithinCaps.of_subset {settings : RetentionSettings} {events events' : List RetentionEvent}
    (hcaps : WithinCaps settings events') (h : events ⊆ events') : WithinCaps settings events where
  users := (Finset.card_le_card (subjectsOf_subset h)).trans hcaps.users
  channels := (Finset.card_le_card (labelsOf_subset .channel h)).trans hcaps.channels
  goals := (Finset.card_le_card (labelsOf_subset .goal h)).trans hcaps.goals

/-! ## Rows after one more event -/

theorem activeUser_fits {days : List ℕ} {current : Option RetentionUser}
    (h : UserFits days current) (day : ℕ) :
    UserFits (days ++ [day]) (some (activeUser current day)) := by
  have hset : {other | other ∈ days ++ [day]} = insert day {other | other ∈ days} := by
    ext other
    simp [or_comm]
  unfold UserFits
  rw [hset]
  cases current with
  | none =>
      have hnil : days = [] := h
      subst hnil
      have hsingle : insert day {other : ℕ | other ∈ ([] : List ℕ)} = {day} := by
        ext other
        simp
      rw [hsingle]
      exact ⟨isLeast_singleton, DayMask.marks_first (by decide)⟩
  | some user =>
      obtain ⟨hleast, hmarks⟩ := h
      refine ⟨hleast.insert day, ?_⟩
      have hfirst : ∀ other ∈ {other | other ∈ days}, user.cohortDay ≤ other :=
        fun other hother => hleast.2 hother
      unfold activeUser
      -- The mask, shifted to the window that starts at the earlier cohort.
      have hshifted : DayMask.Marks 31 (min day user.cohortDay)
          (if 30 < user.cohortDay - min day user.cohortDay then 0
            else (user.activityDays <<< (user.cohortDay - min day user.cohortDay)) &&& 0x7fffffff)
          {other | other ∈ days} := by
        have hshift : min day user.cohortDay + (user.cohortDay - min day user.cohortDay) =
            user.cohortDay := by omega
        split_ifs with hfar
        · exact DayMask.Marks.rebase_far hfirst hshift hfar
        · exact hmarks.rebase hfirst hshift
      have hoffset : min day user.cohortDay + (day - min day user.cohortDay) = day := by omega
      dsimp only
      rcases le_or_gt (day - min day user.cohortDay) 30 with hinside | houtside
      · have hinsert := hshifted.insert_of_lt (Nat.lt_succ_of_le hinside)
        rw [hoffset] at hinsert
        rw [if_pos hinside]
        exact hinsert
      · have hinsert := hshifted.insert_of_ge houtside
        rw [hoffset] at hinsert
        rw [if_neg (not_le.mpr houtside)]
        exact hinsert

theorem repeatedConversion_fits {days : List ℕ} {current : Option RetentionConversion}
    (h : ConversionFits days current) (day : ℕ) :
    ConversionFits (days ++ [day]) (some (repeatedConversion current day)) := by
  have hset : {other | other ∈ days ++ [day]} = insert day {other | other ∈ days} := by
    ext other
    simp [or_comm]
  unfold ConversionFits
  rw [hset, List.length_append, List.length_singleton]
  cases current with
  | none =>
      have hnil : days = [] := h
      subst hnil
      have hsingle : insert day {other : ℕ | other ∈ ([] : List ℕ)} = {day} := by
        ext other
        simp
      rw [hsingle]
      exact ⟨isLeast_singleton, rfl⟩
  | some row =>
      obtain ⟨hleast, hcount⟩ := h
      refine ⟨?_, by show row.duplicates + 1 + 1 = days.length + 1; omega⟩
      show IsLeast _ (min row.conversionDay day)
      rw [min_comm]
      exact hleast.insert day

/-! ## One event -/

section
variable {settings : RetentionSettings} {project salt : String} {events : List RetentionEvent}
  {ledger : RetentionLedger}

theorem Reflects.known (h : Reflects project salt events ledger) (subject : String) :
    ledger.knownSubject project subject = true ↔ subject ∈ subjectsOf events := by
  have husers := h.users subject
  rw [knownSubject_iff]
  unfold subjectsOf
  rw [List.mem_toFinset, List.mem_map]
  constructor
  · rintro (hactive | ⟨goal, hconverted⟩)
    · obtain ⟨user, huser⟩ := Option.isSome_iff_exists.mp hactive
      rw [huser] at husers
      obtain ⟨event, hevent, _⟩ := List.mem_map.mp husers.1.1
      rw [List.mem_filter] at hevent
      have hof := hevent.2
      unfold isActivityOf at hof
      rw [Bool.and_eq_true, decide_eq_true_eq] at hof
      exact ⟨event, hevent.1, hof.1⟩
    · obtain ⟨row, hrow⟩ := Option.isSome_iff_exists.mp hconverted
      have hfits := h.conversions subject goal
      rw [hrow] at hfits
      obtain ⟨event, hevent, _⟩ := List.mem_map.mp hfits.1.1
      rw [List.mem_filter, Bool.and_eq_true, decide_eq_true_eq] at hevent
      exact ⟨event, hevent.1, hevent.2.1⟩
  · rintro ⟨event, hevent, rfl⟩
    cases hgoal : event.goal with
    | none =>
        left
        have hday : event.day ∈ activityDaysOf events event.subject :=
          List.mem_map.mpr ⟨event, List.mem_filter.mpr ⟨hevent, by simp [isActivityOf, hgoal]⟩, rfl⟩
        cases huser : ledger.users.get (project, event.subject) with
        | none =>
            rw [huser] at husers
            have hnil : activityDaysOf events event.subject = [] := husers
            rw [hnil] at hday
            cases hday
        | some user => rfl
    | some goal =>
        right
        refine ⟨goal, ?_⟩
        have hday : event.day ∈ conversionDaysOf events event.subject goal :=
          List.mem_map.mpr ⟨event, List.mem_filter.mpr ⟨hevent, by simp [hgoal]⟩, rfl⟩
        have hfits := h.conversions event.subject goal
        cases hrow : ledger.conversions.get (project, event.subject, goal) with
        | none =>
            rw [hrow] at hfits
            have hnil : conversionDaysOf events event.subject goal = [] := hfits
            rw [hnil] at hday
            cases hday
        | some row => rfl

/-- Within the caps a subject is admitted, and counted if it is new. -/
theorem Reflects.admitted (h : Reflects project salt events ledger) {pinned : RetentionLedger}
    {subject : String}
    (hsame : pinned.knownSubject project subject = ledger.knownSubject project subject)
    (hrow : pinned.projects.get project = some ⟨salt, (subjectsOf events).card, 0, 0⟩)
    (hcap : (insert subject (subjectsOf events)).card ≤ settings.maxUsersPerProject) :
    ∃ after, RetentionLedger.admitted settings project subject pinned = some after ∧
      SameTables pinned after ∧
      after.projects.get project =
        some ⟨salt, (insert subject (subjectsOf events)).card, 0, 0⟩ := by
  unfold RetentionLedger.admitted
  rw [hsame]
  by_cases hknown : ledger.knownSubject project subject = true
  · have hmem := (h.known subject).mp hknown
    rw [if_pos hknown, Finset.insert_eq_of_mem hmem]
    exact ⟨pinned, rfl, SameTables.refl pinned, hrow⟩
  · have hmem : subject ∉ subjectsOf events := mt (h.known subject).mpr hknown
    rw [Finset.card_insert_of_notMem hmem] at hcap ⊢
    have hcount : pinned.userCount project = (subjectsOf events).card := by
      unfold userCount
      rw [hrow]
      rfl
    rw [if_neg hknown]
    unfold admitSubject
    rw [if_neg (by omega)]
    refine ⟨_, rfl, sameTables_updateProject _ _ _, ?_⟩
    rw [updateProject_get, if_pos rfl, hrow]
    rfl

/-- The rows of the active subject, once its touch is settled. -/
theorem Reflects.activity (h : Reflects project salt events ledger) {event : RetentionEvent}
    (hgoal : event.goal = none) {after : RetentionLedger}
    (husers : ∀ s, after.users.get (project, s) =
      if s = event.subject then some (activeUser (ledger.users.get (project, s)) event.day)
      else ledger.users.get (project, s))
    (hchannels : ∀ s, FirstTouch.IsFirst (touchesOf (events ++ [event]) s)
      (heldTouch after project s))
    (hconversions : after.conversions = ledger.conversions)
    (hrow : after.projects.get project =
      some ⟨salt, (insert event.subject (subjectsOf events)).card, 0, 0⟩)
    (hlabels : ∀ kind label, labelOf kind event ≠ some label →
      after.labels.get (project, kind, label) = ledger.labels.get (project, kind, label)) :
    Reflects project salt (events ++ [event]) after := by
  refine ⟨fun s => ?_, hchannels, fun s goal => ?_, ?_, fun label hlabel => ?_, fun label => ?_⟩
  · rw [husers, activityDaysOf_append]
    by_cases hs : s = event.subject
    · have hof : isActivityOf s event = true := by simp [isActivityOf, hgoal, hs]
      rw [if_pos hs, if_pos hof]
      exact activeUser_fits (h.users s) event.day
    · have hof : ¬ isActivityOf s event = true := by simp [isActivityOf, Ne.symm hs]
      rw [if_neg hs, if_neg hof, List.append_nil]
      exact h.users s
  · have hnot : ¬ (event.subject = s ∧ event.goal = some goal) := by simp [hgoal]
    rw [hconversions, conversionDaysOf_append, if_neg hnot, List.append_nil]
    exact h.conversions s goal
  · rw [hrow, if_neg (by simp), subjectsOf_append]
  · rw [mem_labelsOf_append]
    by_cases hof : labelOf .channel event = some label
    · exact Or.inr hof
    · left
      apply h.channelLabels
      unfold isRegistered at hlabel ⊢
      rw [hlabels .channel label hof] at hlabel
      exact hlabel
  · have hof : labelOf .goal event ≠ some label := by simp [labelOf, hgoal]
    rw [mem_labelsOf_append, or_iff_left hof, ← h.goalLabels]
    unfold isRegistered
    rw [hlabels .goal label hof]

theorem Reflects.recordActivity (h : Reflects project salt events ledger)
    {event : RetentionEvent} (hgoal : event.goal = none)
    (hcaps : WithinCaps settings (events ++ [event])) {pinned : RetentionLedger}
    (hsame : SameTables ledger pinned)
    (hrow : pinned.projects.get project = some ⟨salt, (subjectsOf events).card, 0, 0⟩)
    (dropped : Dropped) :
    Reflects project salt (events ++ [event])
        (RetentionLedger.recordActivity settings project event ⟨pinned, dropped⟩).ledger ∧
      (RetentionLedger.recordActivity settings project event ⟨pinned, dropped⟩).dropped =
        dropped := by
  have hcap := hcaps.users
  rw [subjectsOf_append] at hcap
  obtain ⟨counted, hadmitted, hcountedTables, hcounted⟩ :=
    h.admitted hsame.knownSubject hrow hcap
  have htables := hsame.trans hcountedTables
  unfold RetentionLedger.recordActivity
  rw [hadmitted]
  dsimp only
  obtain ⟨hprojects, hlabels, hchannels, hconversions⟩ :=
    recordUser_others project event.subject counted event.day
  have husers : ∀ s, (recordUser project event.subject event.day counted).users.get (project, s) =
      if s = event.subject then some (activeUser (ledger.users.get (project, s)) event.day)
      else ledger.users.get (project, s) := by
    intro s
    rw [recordUser_users, htables.users]
    by_cases hs : s = event.subject
    · rw [hs, if_pos rfl, if_pos rfl]
    · rw [if_neg hs, if_neg fun e => hs (congrArg Prod.snd e)]
  have hheld : ∀ s, heldTouch (recordUser project event.subject event.day counted) project s =
      heldTouch ledger project s := by
    intro s
    unfold heldTouch
    rw [hchannels, htables.userChannels]
  cases hchannel : event.channel with
  | none =>
      refine ⟨h.activity hgoal husers (fun s => ?_) (hconversions.trans htables.conversions)
        ?_ (fun kind label _ => ?_), rfl⟩
      · rw [touchesOf_append, hchannel, hheld]
        simpa using h.channels s
      · rw [hprojects]
        exact hcounted
      · rw [hlabels, htables.labels]
  | some channel =>
      dsimp only
      obtain ⟨hprojects', husers', hconversions', hdropped, hlabels'⟩ :=
        recordTouch_others settings project event.subject event.moment channel
          ⟨recordUser project event.subject event.day counted, dropped⟩
      have hof : labelOf .channel event = some channel := by simp [labelOf, hgoal, hchannel]
      -- Below the cap the channel can be registered, so it is stored under its own label.
      have hcan : canRegister settings project
          (recordUser project event.subject event.day counted) channel := by
        unfold canRegister
        rw [registerLabel_isSome_iff]
        by_cases hregistered : isRegistered
            (recordUser project event.subject event.day counted) project .channel channel
        · exact Or.inl hregistered
        · right
          have hle := labelCount_lt (labelsOf .channel (events ++ [event])) (fun label hlabel => ?_)
            ((mem_labelsOf_append events event .channel channel).mpr (Or.inr hof)) hregistered
          · exact lt_of_lt_of_le hle hcaps.channels
          · apply labelsOf_subset .channel (List.subset_append_left _ _)
            apply h.channelLabels
            unfold isRegistered at hlabel ⊢
            rw [hlabels, htables.labels] at hlabel
            exact hlabel
      refine ⟨h.activity hgoal (fun s => ?_) (fun s => ?_) ?_ ?_ (fun kind label hne => ?_),
        hdropped hcan⟩
      · rw [husers', husers]
      · rw [touchesOf_append, recordTouch_heldTouch, hchannel]
        by_cases hs : s = event.subject
        · have hisOf : isActivityOf s event = true := by simp [isActivityOf, hgoal, hs]
          rw [if_pos hisOf, if_pos (And.intro rfl hs), hs, hheld]
          exact FirstTouch.isFirst_append (h.channels _) (FirstTouch.capped_of_registered hcan)
        · have hisOf : ¬ isActivityOf s event = true := by simp [isActivityOf, Ne.symm hs]
          rw [if_neg hisOf, if_neg fun e => hs e.2, List.append_nil, hheld]
          exact h.channels s
      · rw [hconversions', hconversions, htables.conversions]
      · rw [hprojects', hprojects]
        exact hcounted
      · rw [hlabels' _ fun e => ?_, hlabels, htables.labels]
        rw [Prod.mk.injEq, Prod.mk.injEq] at e
        apply hne
        rw [e.2.1, e.2.2]
        exact hof

theorem Reflects.recordConversion (h : Reflects project salt events ledger)
    {event : RetentionEvent} {goal : String} (hgoal : event.goal = some goal)
    (hcaps : WithinCaps settings (events ++ [event])) {pinned : RetentionLedger}
    (hsame : SameTables ledger pinned)
    (hrow : pinned.projects.get project = some ⟨salt, (subjectsOf events).card, 0, 0⟩)
    (dropped : Dropped) :
    Reflects project salt (events ++ [event])
        (RetentionLedger.recordConversion settings project goal event ⟨pinned, dropped⟩).ledger ∧
      (RetentionLedger.recordConversion settings project goal event ⟨pinned, dropped⟩).dropped =
        dropped := by
  have hcap := hcaps.users
  rw [subjectsOf_append] at hcap
  have hof : labelOf .goal event = some goal := hgoal
  unfold RetentionLedger.recordConversion
  dsimp only
  have hroom : ¬ ((!pinned.knownSubject project event.subject &&
      decide (settings.maxUsersPerProject ≤ pinned.userCount project)) = true) := by
    rw [Bool.and_eq_true, Bool.not_eq_true', decide_eq_true_eq, hsame.knownSubject]
    intro ⟨hnew, hfull⟩
    have hmem : event.subject ∉ subjectsOf events := by
      rw [← h.known, hnew]
      decide
    rw [Finset.card_insert_of_notMem hmem] at hcap
    unfold userCount at hfull
    rw [hrow] at hfull
    change settings.maxUsersPerProject ≤ (subjectsOf events).card at hfull
    omega
  rw [if_neg hroom]
  have hcan : (registerLabel project .goal goal settings.maxGoalsPerProject pinned).isSome =
      true := by
    rw [registerLabel_isSome_iff]
    by_cases hregistered : isRegistered pinned project .goal goal
    · exact Or.inl hregistered
    · right
      have hlt := labelCount_lt (labelsOf .goal (events ++ [event])) (fun label hlabel => ?_)
        ((mem_labelsOf_append events event .goal goal).mpr (Or.inr hof)) hregistered
      · exact lt_of_lt_of_le hlt hcaps.goals
      · apply labelsOf_subset .goal (List.subset_append_left _ _)
        rw [← h.goalLabels]
        unfold isRegistered at hlabel ⊢
        rw [hsame.labels] at hlabel
        exact hlabel
  obtain ⟨registered, hregister⟩ := Option.isSome_iff_exists.mp hcan
  obtain ⟨hprojects, husers, hchannels, hconversions, hlabels⟩ := registerLabel_eq_some hregister
  rw [hregister]
  dsimp only
  have hknown : registered.knownSubject project event.subject =
      ledger.knownSubject project event.subject := by
    rw [← hsame.knownSubject]
    unfold knownSubject anyConversion
    rw [husers, hconversions]
  obtain ⟨counted, hadmitted, htables, hcounted⟩ :=
    h.admitted hknown ((congrArg (Table.get · project) hprojects).trans hrow) hcap
  have hcountedEq : (if pinned.knownSubject project event.subject = true then registered
      else (admitSubject settings project registered).getD registered) = counted := by
    unfold RetentionLedger.admitted at hadmitted
    rw [hsame.knownSubject]
    rw [hknown] at hadmitted
    split_ifs at hadmitted ⊢ with hold
    · exact Option.some.inj hadmitted
    · rw [hadmitted]
      rfl
  rw [hcountedEq]
  refine ⟨⟨fun s => ?_, fun s => ?_, fun s g => ?_, ?_, fun label hlabel => ?_,
    fun label => ?_⟩, rfl⟩
  · have hnot : ¬ isActivityOf s event = true := by simp [isActivityOf, hgoal]
    rw [activityDaysOf_append, if_neg hnot, List.append_nil]
    show UserFits _ (counted.users.get (project, s))
    rw [htables.users, husers, hsame.users]
    exact h.users s
  · have hnot : ¬ isActivityOf s event = true := by simp [isActivityOf, hgoal]
    rw [touchesOf_append, if_neg hnot, List.append_nil]
    have hheld : heldTouch (recordConversionDay project event.subject goal event.day counted)
        project s = heldTouch ledger project s := by
      unfold heldTouch
      show (counted.userChannels.get (project, s)).map _ = _
      rw [htables.userChannels, hchannels, hsame.userChannels]
    rw [hheld]
    exact h.channels s
  · have hstored : counted.conversions = ledger.conversions := by
      rw [htables.conversions, hconversions, hsame.conversions]
    unfold recordConversionDay
    dsimp only
    rw [Table.get_put, conversionDaysOf_append, hstored]
    by_cases hkey : event.subject = s ∧ event.goal = some g
    · have hg : goal = g := Option.some.inj (hgoal.symm.trans hkey.2)
      rw [if_pos hkey, ← hkey.1, ← hg, if_pos rfl]
      exact repeatedConversion_fits (h.conversions _ _) event.day
    · have hne : (project, s, g) ≠ (project, event.subject, goal) := by
        intro e
        rw [Prod.mk.injEq, Prod.mk.injEq] at e
        apply hkey
        rw [e.2.1, e.2.2]
        exact ⟨rfl, hgoal⟩
      rw [if_neg hkey, if_neg hne, List.append_nil]
      exact h.conversions s g
  · rw [if_neg (by simp), subjectsOf_append]
    exact hcounted
  · rw [mem_labelsOf_append]
    left
    apply h.channelLabels
    unfold isRegistered at hlabel ⊢
    change (counted.labels.get _).isSome = true at hlabel
    rw [htables.labels, hlabels, if_neg (by simp), hsame.labels] at hlabel
    exact hlabel
  · rw [mem_labelsOf_append, ← h.goalLabels, hof]
    unfold isRegistered
    show (counted.labels.get _).isSome = true ↔ _
    rw [htables.labels, hlabels, hsame.labels]
    by_cases hlabel : label = goal
    · simp [hlabel]
    · simp [hlabel, Ne.symm hlabel]

theorem Reflects.ingestEvent (h : Reflects project salt events ledger) {event : RetentionEvent}
    (hcheck : checkEvent event = .ok ()) (hsalt : event.salt = salt)
    (hcaps : WithinCaps settings (events ++ [event])) (dropped : Dropped) :
    ∃ after, RetentionLedger.ingestEvent settings project ⟨ledger, dropped⟩ event =
        .ok ⟨after, dropped⟩ ∧ Reflects project salt (events ++ [event]) after := by
  have hrow : (pinSalt project salt ledger).projects.get project =
      some ⟨salt, (subjectsOf events).card, 0, 0⟩ := by
    rw [pinSalt_get, if_pos rfl, h.row]
    split_ifs with hnil
    · rw [hnil]
      rfl
    · rfl
  have hsame := sameTables_pinSalt project salt ledger
  have hrecord : Reflects project salt (events ++ [event])
        (record settings project event ⟨pinSalt project salt ledger, dropped⟩).ledger ∧
      (record settings project event ⟨pinSalt project salt ledger, dropped⟩).dropped = dropped := by
    unfold record
    cases hgoal : event.goal with
    | none => exact h.recordActivity hgoal hcaps hsame hrow dropped
    | some goal => exact h.recordConversion hgoal hcaps hsame hrow dropped
  refine ⟨(record settings project event ⟨pinSalt project salt ledger, dropped⟩).ledger, ?_,
    hrecord.1⟩
  unfold RetentionLedger.ingestEvent
  rw [hsalt]
  simp only [bind_eq_ok_iff, require_eq_ok_iff, pure, Except.pure, Except.ok.injEq]
  refine ⟨(), hcheck, (), ?_, ?_⟩
  · rw [hrow]
    simp
  · exact congrArg (Work.mk (record settings project event
      ⟨pinSalt project salt ledger, dropped⟩).ledger) hrecord.2

theorem Reflects.ingestEvents (h : Reflects project salt events ledger)
    {later : List RetentionEvent} (hvalid : ∀ event ∈ later, checkEvent event = .ok ())
    (hsalt : ∀ event ∈ later, event.salt = salt)
    (hcaps : WithinCaps settings (events ++ later)) (dropped : Dropped) :
    ∃ after, RetentionLedger.ingestEvents settings project ⟨ledger, dropped⟩ later =
        .ok ⟨after, dropped⟩ ∧ Reflects project salt (events ++ later) after := by
  induction later generalizing events ledger with
  | nil =>
      refine ⟨ledger, rfl, ?_⟩
      rw [List.append_nil]
      exact h
  | cons event later ih =>
      have hsplit : events ++ event :: later = (events ++ [event]) ++ later := by simp
      rw [hsplit] at hcaps ⊢
      obtain ⟨next, hnext, hreflects⟩ := h.ingestEvent (hvalid event List.mem_cons_self)
        (hsalt event List.mem_cons_self) (hcaps.of_subset (List.subset_append_left _ _)) dropped
      obtain ⟨after, hafter, hlast⟩ := ih hreflects
        (fun other hother => hvalid other (List.mem_cons_of_mem _ hother))
        (fun other hother => hsalt other (List.mem_cons_of_mem _ hother)) hcaps
      refine ⟨after, ?_, hlast⟩
      unfold RetentionLedger.ingestEvents
      rw [hnext]
      exact hafter

theorem Reflects.batch (h : Reflects project salt events ledger) {batch : Batch}
    (hproject : batch.project = project)
    (hvalid : ∀ event ∈ batch.events, checkEvent event = .ok ())
    (hsalt : ∀ event ∈ batch.events, event.salt = salt)
    (hcaps : WithinCaps settings (events ++ batch.events)) :
    Reflects project salt (events ++ batch.events) (afterBatch settings ledger batch) := by
  obtain ⟨after, hafter, hreflects⟩ := h.ingestEvents hvalid hsalt hcaps {}
  unfold afterBatch ingestBatch
  rw [hproject, hafter]
  exact hreflects

/-- The rows of a project decide whether it reflects the events. -/
theorem Reflects.sameProject (h : Reflects project salt events ledger) {after : RetentionLedger}
    (hsame : SameProject project ledger after) : Reflects project salt events after := by
  refine ⟨fun s => ?_, fun s => ?_, fun s goal => ?_, ?_, fun label hlabel => ?_, fun label => ?_⟩
  · rw [hsame.users]
    exact h.users s
  · rw [hsame.channels]
    exact h.channels s
  · rw [hsame.conversions]
    exact h.conversions s goal
  · rw [hsame.row]
    exact h.row
  · apply h.channelLabels
    unfold isRegistered at hlabel ⊢
    rw [hsame.labels] at hlabel
    exact hlabel
  · rw [← h.goalLabels]
    unfold isRegistered
    rw [hsame.labels]

end

/-! ## Runs of batches -/

theorem eventsOf_append_singleton (project : String) (batches : List Batch) (batch : Batch) :
    eventsOf project (batches ++ [batch]) =
      eventsOf project batches ++ if batch.project = project then batch.events else [] := by
  unfold eventsOf
  rw [List.filter_append, List.flatMap_append]
  split_ifs with h <;> simp [h]

/-- The events a project may be sent under one salt. -/
structure Accepted (settings : RetentionSettings) (salt : String)
    (events : List RetentionEvent) : Prop where
  valid : ∀ event ∈ events, checkEvent event = .ok ()
  salt : ∀ event ∈ events, event.salt = salt
  caps : WithinCaps settings events

theorem Accepted.of_subset {settings : RetentionSettings} {salt : String}
    {events events' : List RetentionEvent} (h : Accepted settings salt events')
    (hsub : events ⊆ events') : Accepted settings salt events where
  valid event hevent := h.valid event (hsub hevent)
  salt event hevent := h.salt event (hsub hevent)
  caps := h.caps.of_subset hsub

theorem reflects_receive {settings : RetentionSettings} {project salt : String}
    {batches : List Batch} (h : Accepted settings salt (eventsOf project batches)) :
    Reflects project salt (eventsOf project batches) (receive settings empty batches) := by
  induction batches using List.reverseRecOn with
  | nil => exact reflects_empty project salt
  | append_singleton batches batch ih =>
      rw [eventsOf_append_singleton] at h ⊢
      have hearlier := ih (h.of_subset (List.subset_append_left _ _))
      unfold receive at hearlier ⊢
      rw [List.foldl_append, List.foldl_cons, List.foldl_nil]
      by_cases hproject : batch.project = project
      · rw [if_pos hproject] at h ⊢
        exact hearlier.batch hproject
          (fun event hevent => h.valid event (List.mem_append_right _ hevent))
          (fun event hevent => h.salt event (List.mem_append_right _ hevent)) h.caps
      · rw [if_neg hproject, List.append_nil]
        exact hearlier.sameProject (sameProject_afterBatch _ batch (Ne.symm hproject))

/-! ## The order of the events -/

theorem UserFits.unique {days days' : List ℕ} (hdays : ∀ day, day ∈ days ↔ day ∈ days')
    {user user' : Option RetentionUser} (h : UserFits days user) (h' : UserFits days' user') :
    user = user' := by
  have hset : {day | day ∈ days} = {day | day ∈ days'} := Set.ext hdays
  have hnil : days = [] ↔ days' = [] := by
    rw [List.eq_nil_iff_forall_not_mem, List.eq_nil_iff_forall_not_mem]
    exact forall_congr' fun day => not_congr (hdays day)
  cases user with
  | none =>
      cases user' with
      | none => rfl
      | some user' =>
          have hempty : days' = [] := hnil.mp h
          have hmem : user'.cohortDay ∈ days' := h'.1.1
          rw [hempty] at hmem
          cases hmem
  | some user =>
      cases user' with
      | none =>
          have hempty : days = [] := hnil.mpr h'
          have hmem : user.cohortDay ∈ days := h.1.1
          rw [hempty] at hmem
          cases hmem
      | some user' =>
          obtain ⟨hleast, hmarks⟩ := h
          obtain ⟨hleast', hmarks'⟩ := h'
          rw [hset] at hleast hmarks
          have hcohort := hleast.unique hleast'
          rw [hcohort] at hmarks
          have hmask := hmarks.unique hmarks'
          cases user
          cases user'
          exact congrArg some (congr (congrArg RetentionUser.mk hcohort) hmask)

theorem ConversionFits.conversionDay_unique {days days' : List ℕ}
    (hdays : ∀ day, day ∈ days ↔ day ∈ days') {row row' : Option RetentionConversion}
    (h : ConversionFits days row) (h' : ConversionFits days' row') :
    row.map RetentionConversion.conversionDay = row'.map RetentionConversion.conversionDay := by
  have hset : {day | day ∈ days} = {day | day ∈ days'} := Set.ext hdays
  cases row with
  | none =>
      have hempty : days = [] := h
      cases row' with
      | none => rfl
      | some row' =>
          have hmem := (hdays row'.conversionDay).mpr h'.1.1
          rw [hempty] at hmem
          cases hmem
  | some row =>
      cases row' with
      | none =>
          have hempty : days' = [] := h'
          have hmem := (hdays row.conversionDay).mp h.1.1
          rw [hempty] at hmem
          cases hmem
      | some row' =>
          have hleast := h.1
          rw [hset] at hleast
          exact congrArg some (hleast.unique h'.1)

theorem ConversionFits.unique {days days' : List ℕ} (hdays : days.Perm days')
    {row row' : Option RetentionConversion} (h : ConversionFits days row)
    (h' : ConversionFits days' row') : row = row' := by
  have hday := h.conversionDay_unique (fun day => hdays.mem_iff) h'
  cases row with
  | none =>
      cases row' with
      | none => rfl
      | some row' => cases hday
  | some row =>
      cases row' with
      | none => cases hday
      | some row' =>
          have hcount : row.duplicates = row'.duplicates := by
            have hlength := hdays.length_eq
            have hone := h.2
            have htwo := h'.2
            omega
          cases row
          cases row'
          exact congrArg some (congr (congrArg RetentionConversion.mk (Option.some.inj hday)) hcount)

/-- Two ledgers say the same of a project, the repeats of conversions and the
registered channels aside. -/
structure SameFacts (project : String) (a b : RetentionLedger) : Prop where
  row : a.projects.get project = b.projects.get project
  users : ∀ subject, a.users.get (project, subject) = b.users.get (project, subject)
  channels : ∀ subject, heldTouch a project subject = heldTouch b project subject
  conversionDays : ∀ subject goal,
    (a.conversions.get (project, subject, goal)).map RetentionConversion.conversionDay =
      (b.conversions.get (project, subject, goal)).map RetentionConversion.conversionDay
  goals : ∀ goal, isRegistered a project .goal goal ↔ isRegistered b project .goal goal

theorem Reflects.sameFacts {project salt : String} {events events' : List RetentionEvent}
    {ledger ledger' : RetentionLedger} (h : Reflects project salt events ledger)
    (h' : Reflects project salt events' ledger') (hmem : ∀ event, event ∈ events ↔ event ∈ events') :
    SameFacts project ledger ledger' := by
  have hsub : events ⊆ events' := fun event => (hmem event).mp
  have hsub' : events' ⊆ events := fun event => (hmem event).mpr
  have hfilter : ∀ (p : RetentionEvent → Bool) day,
      day ∈ (events.filter p).map RetentionEvent.day ↔
        day ∈ (events'.filter p).map RetentionEvent.day := by
    intro p day
    simp only [List.mem_map, List.mem_filter, hmem]
  refine ⟨?_, fun s => ?_, fun s => ?_, fun s goal => ?_, fun goal => ?_⟩
  · have hnil : events = [] ↔ events' = [] := by
      rw [List.eq_nil_iff_forall_not_mem, List.eq_nil_iff_forall_not_mem]
      exact forall_congr' fun event => not_congr (hmem event)
    have hsubjects : subjectsOf events = subjectsOf events' :=
      (subjectsOf_subset hsub).antisymm (subjectsOf_subset hsub')
    rw [h.row, h'.row, hsubjects]
    simp only [hnil]
  · exact (h.users s).unique (hfilter (isActivityOf s)) (h'.users s)
  · refine (h.channels s).unique (fun touch => ?_) (h'.channels s)
    unfold touchesOf
    simp only [List.mem_filterMap, List.mem_filter, hmem]
  · exact (h.conversions s goal).conversionDay_unique (hfilter _) (h'.conversions s goal)
  · rw [h.goalLabels, h'.goalLabels]
    exact ⟨fun hg => labelsOf_subset .goal hsub hg, fun hg => labelsOf_subset .goal hsub' hg⟩

/-- The rows of a project say what it was sent, in any order and any split into
batches, and resending changes nothing but the count of repeated conversions. -/
theorem receive_reflects_events (settings : RetentionSettings) (project salt : String)
    (batches : List Batch) (h : Accepted settings salt (eventsOf project batches)) :
    let last := receive settings empty batches
    Reflects project salt (eventsOf project batches) last ∧
      (∀ reordered, (eventsOf project reordered).Perm (eventsOf project batches) →
        SameFacts project (receive settings empty reordered) last ∧
          ∀ subject goal, (receive settings empty reordered).conversions.get
            (project, subject, goal) = last.conversions.get (project, subject, goal)) ∧
      ∀ resent, eventsOf project batches ⊆ eventsOf project resent →
        eventsOf project resent ⊆ eventsOf project batches →
        SameFacts project (receive settings empty resent) last := by
  intro last
  have hlast : Reflects project salt (eventsOf project batches) last := reflects_receive h
  refine ⟨hlast, fun reordered hperm => ?_, fun resent hsub hsub' => ?_⟩
  · have hreordered := reflects_receive (h.of_subset hperm.subset)
    refine ⟨hreordered.sameFacts hlast fun event => hperm.mem_iff, fun s goal => ?_⟩
    exact (hreordered.conversions s goal).unique ((hperm.filter _).map _) (hlast.conversions s goal)
  · have hresent := reflects_receive (h.of_subset hsub')
    exact hresent.sameFacts hlast fun event =>
      ⟨fun hevent => hsub' hevent, fun hevent => hsub hevent⟩

/-! ## The registered channels -/

/-- An activity of one subject. -/
def sampleActivity (timestamp : ℚ) (channel : Option String) : RetentionEvent :=
  ⟨timestamp, "00000000000000aa", "00000000000000ff", channel, none⟩

def sampleConversion (timestamp : ℚ) (goal : String) : RetentionEvent :=
  ⟨timestamp, "00000000000000aa", "00000000000000ff", none, some goal⟩

def sampleRetention : RetentionSettings := ⟨10, 10, 10⟩

theorem receive_reflects_events_sample :
    SameFacts "shop"
      (receive sampleRetention empty [⟨"shop", [sampleActivity 90000000 none]⟩,
        ⟨"shop", [sampleConversion 3 "buy", sampleActivity 5 (some "ads")]⟩])
      (receive sampleRetention empty [⟨"shop", [sampleActivity 5 (some "ads"),
        sampleActivity 90000000 none, sampleConversion 3 "buy"]⟩]) := by
  have haccepted : Accepted sampleRetention "00000000000000ff" (eventsOf "shop"
      [⟨"shop", [sampleActivity 5 (some "ads"), sampleActivity 90000000 none,
        sampleConversion 3 "buy"]⟩]) :=
    ⟨by decide +kernel, by decide +kernel,
      ⟨by decide +kernel, by decide +kernel, by decide +kernel⟩⟩
  exact ((receive_reflects_events sampleRetention "shop" "00000000000000ff" _ haccepted).2.1
    [⟨"shop", [sampleActivity 90000000 none]⟩,
      ⟨"shop", [sampleConversion 3 "buy", sampleActivity 5 (some "ads")]⟩]
    (by decide +kernel)).1

/-- A channel is registered when it is stored, so a later touch that arrives
first registers its channel and one that arrives last does not. -/
theorem registered_channels_depend_on_order :
    let inOrder := [⟨"shop", [sampleActivity 1 (some "ads"), sampleActivity 2 (some "blog")]⟩]
    let reversed := [⟨"shop", [sampleActivity 2 (some "blog"), sampleActivity 1 (some "ads")]⟩]
    Accepted sampleRetention "00000000000000ff" (eventsOf "shop" inOrder) ∧
      (eventsOf "shop" reversed).Perm (eventsOf "shop" inOrder) ∧
      (receive sampleRetention empty inOrder).labelCount "shop" .channel = 1 ∧
      (receive sampleRetention empty reversed).labelCount "shop" .channel = 2 ∧
      ¬ SameProject "shop" (receive sampleRetention empty inOrder)
        (receive sampleRetention empty reversed) := by
  refine ⟨⟨by decide +kernel, by decide +kernel,
    ⟨by decide +kernel, by decide +kernel, by decide +kernel⟩⟩, by decide +kernel,
    by decide +kernel, by decide +kernel, fun h => ?_⟩
  have hlabel := h.labels .channel "blog"
  revert hlabel
  decide +kernel

end Wardx.RetentionLedger
