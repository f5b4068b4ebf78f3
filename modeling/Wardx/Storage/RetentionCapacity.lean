import Mathlib.Algebra.BigOperators.Group.List.Basic
import Wardx.Storage.RetentionSpec

/-!
# What a retention ledger counts toward its caps

A batch reads its project's row once and counts in memory beside the stored
count; the two stay equal, so a batch is the same as one that reads the row each
time. The stored count is then the number of subjects with a row among the users
or the conversions, in whichever order a subject came to them.
-/
namespace Wardx.RetentionLedger

open Lib ExperimentLedger

/-! ## The row a batch holds -/

/-- What a batch keeps in memory of its project's row. -/
structure HeldProject where
  saltHash : String
  userCount : ℕ
deriving DecidableEq, Repr

def heldProject (ledger : RetentionLedger) (project : String) : Option HeldProject :=
  (ledger.projects.get project).map fun row => ⟨row.saltHash, row.userCount⟩

/-- `_admit`: the stored count and the held one. -/
def admitHeld (settings : RetentionSettings) (project : String) (state : HeldProject)
    (ledger : RetentionLedger) : Option (HeldProject × RetentionLedger) :=
  if settings.maxUsersPerProject ≤ state.userCount then none
  else some ({ state with userCount := state.userCount + 1 },
    ledger.updateProject project fun row => { row with userCount := row.userCount + 1 })

/-- `_activity` with the held row. -/
def activityHeld (settings : RetentionSettings) (project : String) (event : RetentionEvent)
    (state : HeldProject) (work : Work) : HeldProject × Work :=
  let counted := if work.ledger.knownSubject project event.subject then some (state, work.ledger)
    else admitHeld settings project state work.ledger
  match counted with
  | none =>
      (state, { work with dropped := { work.dropped with activity := work.dropped.activity + 1 } })
  | some (state, ledger) =>
      let next := { work with ledger := recordUser project event.subject event.day ledger }
      match event.channel with
      | none => (state, next)
      | some channel =>
          (state, recordTouch settings project event.subject event.moment channel next)

/-- `_conversion` with the held row. -/
def conversionHeld (settings : RetentionSettings) (project goal : String) (event : RetentionEvent)
    (state : HeldProject) (work : Work) : HeldProject × Work :=
  let known := work.ledger.knownSubject project event.subject
  let refused := (state,
    { work with dropped := { work.dropped with conversions := work.dropped.conversions + 1 } })
  if !known && settings.maxUsersPerProject ≤ state.userCount then refused
  else match registerLabel project .goal goal settings.maxGoalsPerProject work.ledger with
    | none => refused
    | some ledger =>
        let counted := if known then (state, ledger)
          else (admitHeld settings project state ledger).getD (state, ledger)
        (counted.1, { work with
          ledger := recordConversionDay project event.subject goal event.day counted.2 })

/-- The row is inserted by the first event of a project. -/
def pinHeld (project salt : String) (state : Option HeldProject) (ledger : RetentionLedger) :
    HeldProject × RetentionLedger :=
  match state with
  | some state => (state, ledger)
  | none => (⟨salt, 0⟩, { ledger with projects := ledger.projects.put project ⟨salt, 0, 0, 0⟩ })

/-- One turn of the loop of `ingestBatch` with the held row. -/
def ingestEventHeld (settings : RetentionSettings) (project : String)
    (current : Option HeldProject × Work) (event : RetentionEvent) :
    Except String (Option HeldProject × Work) := do
  checkEvent event
  let pinned := pinHeld project event.salt current.1 current.2.ledger
  require (pinned.1.saltHash = event.salt)
    "retention PrivacySalt must remain stable across project clients"
  let work := { current.2 with ledger := pinned.2 }
  let next := match event.goal with
    | some goal => conversionHeld settings project goal event pinned.1 work
    | none => activityHeld settings project event pinned.1 work
  pure (some next.1, next.2)

/-- `ingestBatch` with the project's row read once. -/
def ingestBatchHeld (settings : RetentionSettings) (project : String)
    (events : List RetentionEvent) (ledger : RetentionLedger) : Except String Work := do
  let last ← events.foldlM (ingestEventHeld settings project)
    (ledger.heldProject project, (⟨ledger, {}⟩ : Work))
  pure { last.2 with ledger := addDropped project last.2.dropped last.2.ledger }

variable {settings : RetentionSettings} {project : String} {ledger : RetentionLedger}

theorem userCount_of_held {state : HeldProject} (h : ledger.heldProject project = some state) :
    ledger.userCount project = state.userCount := by
  unfold heldProject at h
  obtain ⟨row, hrow, rfl⟩ := Option.map_eq_some_iff.mp h
  simp [userCount, hrow]

theorem heldProject_of_projects {after : RetentionLedger} (h : after.projects = ledger.projects) :
    after.heldProject project = ledger.heldProject project := by
  unfold heldProject
  rw [h]

theorem heldProject_admit {state : HeldProject} (h : ledger.heldProject project = some state) :
    (ledger.updateProject project fun row =>
      { row with userCount := row.userCount + 1 }).heldProject project =
      some { state with userCount := state.userCount + 1 } := by
  unfold heldProject at h ⊢
  obtain ⟨row, hrow, rfl⟩ := Option.map_eq_some_iff.mp h
  rw [updateProject_get, if_pos rfl, hrow]
  rfl

/-- The held count decides as the stored one does, and is stepped with it. -/
theorem admitHeld_eq {state : HeldProject} (h : ledger.heldProject project = some state) :
    admitHeld settings project state ledger =
      (admitSubject settings project ledger).map fun after =>
        ({ state with userCount := state.userCount + 1 }, after) := by
  unfold admitHeld admitSubject
  rw [userCount_of_held h]
  split_ifs <;> rfl

theorem activityHeld_eq {state : HeldProject} {work : Work} (event : RetentionEvent)
    (h : work.ledger.heldProject project = some state) :
    ∃ next, activityHeld settings project event state work =
        (next, recordActivity settings project event work) ∧
      (recordActivity settings project event work).ledger.heldProject project = some next := by
  have hcounted : ∃ counted : Option (HeldProject × RetentionLedger),
      (if work.ledger.knownSubject project event.subject then some (state, work.ledger)
        else admitHeld settings project state work.ledger) = counted ∧
      admitted settings project event.subject work.ledger = counted.map Prod.snd ∧
      ∀ pair ∈ counted, pair.2.heldProject project = some pair.1 := by
    unfold admitted
    split_ifs
    · exact ⟨_, rfl, rfl, fun pair hpair => by cases hpair; exact h⟩
    · refine ⟨_, rfl, ?_, ?_⟩
      · rw [admitHeld_eq h, Option.map_map]
        exact Option.map_id'.symm
      · intro pair hpair
        rw [admitHeld, Option.mem_def] at hpair
        split_ifs at hpair
        cases hpair
        exact heldProject_admit h
  obtain ⟨counted, hheld, hadmitted, hstate⟩ := hcounted
  unfold activityHeld recordActivity
  rw [hheld, hadmitted]
  cases counted with
  | none => exact ⟨state, rfl, h⟩
  | some pair =>
      have hpair := hstate pair rfl
      have huser : (recordUser project event.subject event.day pair.2).heldProject project =
          some pair.1 := by
        rw [heldProject_of_projects (recordUser_others project event.subject pair.2 event.day).1]
        exact hpair
      dsimp only [Option.map_some]
      cases event.channel with
      | none => exact ⟨pair.1, rfl, huser⟩
      | some channel =>
          refine ⟨pair.1, rfl, ?_⟩
          dsimp only
          rw [heldProject_of_projects (recordTouch_others settings project event.subject
            event.moment channel _).1]
          exact huser

theorem admitHeld_getD {state : HeldProject} (h : ledger.heldProject project = some state) :
    ∃ next, (admitHeld settings project state ledger).getD (state, ledger) =
        (next, (admitSubject settings project ledger).getD ledger) ∧
      ((admitSubject settings project ledger).getD ledger).heldProject project = some next := by
  rw [admitHeld_eq h]
  unfold admitSubject
  split_ifs
  · exact ⟨state, rfl, h⟩
  · exact ⟨_, rfl, heldProject_admit h⟩

theorem conversionHeld_eq {state : HeldProject} {work : Work} (goal : String)
    (event : RetentionEvent) (h : work.ledger.heldProject project = some state) :
    ∃ next, conversionHeld settings project goal event state work =
        (next, recordConversion settings project goal event work) ∧
      (recordConversion settings project goal event work).ledger.heldProject project =
        some next := by
  unfold conversionHeld recordConversion
  rw [userCount_of_held h]
  dsimp only
  by_cases hfull : (!work.ledger.knownSubject project event.subject &&
      decide (settings.maxUsersPerProject ≤ state.userCount)) = true
  · simp only [hfull, if_true]
    exact ⟨state, rfl, h⟩
  · simp only [hfull, Bool.false_eq_true, if_false]
    cases hregister : registerLabel project .goal goal settings.maxGoalsPerProject work.ledger with
    | none => exact ⟨state, rfl, h⟩
    | some labelled =>
        have hlabelled : labelled.heldProject project = some state := by
          rw [heldProject_of_projects (registerLabel_eq_some hregister).1]
          exact h
        dsimp only
        split_ifs
        · exact ⟨state, rfl, hlabelled⟩
        · obtain ⟨next, hheld, hnext⟩ := @admitHeld_getD settings project labelled state hlabelled
          rw [hheld]
          exact ⟨next, rfl, hnext⟩

/-- The row is held from the first event on. -/
theorem pinHeld_eq (salt : String) :
    ∃ state, pinHeld project salt (ledger.heldProject project) ledger =
        (state, pinSalt project salt ledger) ∧
      (pinSalt project salt ledger).heldProject project = some state := by
  unfold heldProject pinHeld pinSalt
  cases hrow : ledger.projects.get project with
  | none =>
      refine ⟨⟨salt, 0⟩, rfl, ?_⟩
      simp [Table.get_put_self]
  | some row => exact ⟨⟨row.saltHash, row.userCount⟩, rfl, by simp [hrow]⟩

theorem saltHash_of_held {state : HeldProject} (h : ledger.heldProject project = some state)
    (salt : String) :
    ((ledger.projects.get project).any fun row => row.saltHash = salt) =
      decide (state.saltHash = salt) := by
  unfold heldProject at h
  obtain ⟨row, hrow, rfl⟩ := Option.map_eq_some_iff.mp h
  rw [hrow]
  rfl

theorem ingestEventHeld_eq (work : Work) (event : RetentionEvent) :
    ingestEventHeld settings project (work.ledger.heldProject project, work) event =
      (ingestEvent settings project work event).map fun next =>
        (next.ledger.heldProject project, next) := by
  obtain ⟨state, hpinned, hstate⟩ := @pinHeld_eq project work.ledger event.salt
  unfold ingestEventHeld ingestEvent
  rw [hpinned]
  dsimp only
  rw [saltHash_of_held hstate]
  cases checkEvent event with
  | error message => rfl
  | ok _ =>
      by_cases hsalt : state.saltHash = event.salt
      · have hdone : ∃ next,
            (match event.goal with
              | some goal => conversionHeld settings project goal event state
                  { work with ledger := pinSalt project event.salt work.ledger }
              | none => activityHeld settings project event state
                  { work with ledger := pinSalt project event.salt work.ledger }) =
              (next, record settings project event
                { work with ledger := pinSalt project event.salt work.ledger }) ∧
            (record settings project event
              { work with ledger := pinSalt project event.salt work.ledger }).ledger.heldProject
              project = some next := by
          unfold record
          cases event.goal with
          | none => exact activityHeld_eq event hstate
          | some goal => exact conversionHeld_eq goal event hstate
        obtain ⟨next, hheld, hnext⟩ := hdone
        simp only [hsalt, decide_true, require, if_true, bind, Except.bind, pure, Except.pure,
          Except.map]
        rw [hheld, hnext]
      · simp [hsalt, require, bind, Except.bind, Except.map]

/-- A batch with the row held in memory is the batch that reads it each time. -/
theorem ingestBatchHeld_eq (settings : RetentionSettings) (project : String)
    (events : List RetentionEvent) (ledger : RetentionLedger) :
    ingestBatchHeld settings project events ledger =
      ingestBatch settings project events ledger := by
  have hloop : ∀ work : Work, events.foldlM (ingestEventHeld settings project)
      (work.ledger.heldProject project, work) =
      (ingestEvents settings project work events).map fun next =>
        (next.ledger.heldProject project, next) := by
    induction events with
    | nil => exact fun work => rfl
    | cons event events ih =>
        intro work
        rw [List.foldlM_cons, ingestEventHeld_eq, ingestEvents]
        cases ingestEvent settings project work event with
        | error message => rfl
        | ok next => exact ih next
  unfold ingestBatchHeld ingestBatch
  have hrun := hloop ⟨ledger, {}⟩
  dsimp only at hrun
  rw [hrun]
  cases ingestEvents settings project ⟨ledger, {}⟩ events <;> rfl

/-! ## Subjects and labels of a project -/

/-- The subjects with a row among the users or the conversions. -/
def knownSubjects (ledger : RetentionLedger) (project : String) : Finset String :=
  ((ledger.users.keys.filter fun key => key.1 = project).map Prod.snd ++
    (ledger.conversions.keys.filter fun key => key.1 = project).map fun key => key.2.1).toFinset

theorem mem_knownSubjects {subject : String} :
    subject ∈ ledger.knownSubjects project ↔ ledger.knownSubject project subject = true := by
  rw [knownSubject_iff, knownSubjects, List.mem_toFinset, List.mem_append]
  simp only [List.mem_map, List.mem_filter, decide_eq_true_eq, Table.get_isSome_iff]
  constructor
  · rintro (⟨⟨p, s⟩, ⟨hmem, rfl⟩, rfl⟩ | ⟨⟨p, s, goal⟩, ⟨hmem, rfl⟩, rfl⟩)
    · exact Or.inl hmem
    · exact Or.inr ⟨goal, hmem⟩
  · rintro (hmem | ⟨goal, hmem⟩)
    · exact Or.inl ⟨_, ⟨hmem, rfl⟩, rfl⟩
    · exact Or.inr ⟨_, ⟨hmem, rfl⟩, rfl⟩

theorem knownSubjects_congr {after : RetentionLedger}
    (h : ∀ subject, after.knownSubject project subject = ledger.knownSubject project subject) :
    after.knownSubjects project = ledger.knownSubjects project := by
  ext subject
  rw [mem_knownSubjects, mem_knownSubjects, h]

/-- The labels of a kind that a project has registered. -/
def registeredLabels (ledger : RetentionLedger) (project : String) (kind : LabelKind) :
    Finset String :=
  ((ledger.labels.keys.filter fun key => key.1 = project && key.2.1 = kind).map
    fun key => key.2.2).toFinset

theorem mem_registeredLabels {kind : LabelKind} {label : String} :
    label ∈ ledger.registeredLabels project kind ↔ isRegistered ledger project kind label := by
  rw [registeredLabels, List.mem_toFinset, isRegistered, Table.get_isSome_iff]
  simp only [List.mem_map, List.mem_filter, Bool.and_eq_true, decide_eq_true_eq]
  constructor
  · rintro ⟨⟨p, k, l⟩, ⟨hmem, rfl, rfl⟩, rfl⟩
    exact hmem
  · intro hmem
    exact ⟨_, ⟨hmem, rfl, rfl⟩, rfl⟩

theorem card_registeredLabels (ledger : RetentionLedger) (project : String) (kind : LabelKind) :
    (ledger.registeredLabels project kind).card = ledger.labelCount project kind := by
  apply le_antisymm
  · exact (List.toFinset_card_le _).trans (by simp [labelCount])
  · exact labelCount_le _ fun label hlabel => mem_registeredLabels.mpr hlabel

theorem labelCount_congr {after : RetentionLedger} {kind : LabelKind}
    (h : ∀ label, after.labels.get (project, kind, label) =
      ledger.labels.get (project, kind, label)) :
    after.labelCount project kind = ledger.labelCount project kind := by
  rw [← card_registeredLabels, ← card_registeredLabels]
  congr 1
  ext label
  rw [mem_registeredLabels, mem_registeredLabels, isRegistered, isRegistered, h]

/-- The cap on the labels of a kind. -/
def capOf (settings : RetentionSettings) : LabelKind → ℕ
  | .channel => settings.maxChannelsPerProject
  | .goal => settings.maxGoalsPerProject

theorem registerLabel_within {kind : LabelKind} {label : String} {after : RetentionLedger}
    (h : registerLabel project kind label (capOf settings kind) ledger = some after)
    (hwithin : ∀ k, ledger.labelCount project k ≤ capOf settings k) (k : LabelKind) :
    after.labelCount project k ≤ capOf settings k := by
  have hlabels := (registerLabel_eq_some h).2.2.2.2
  by_cases hk : k = kind
  · subst hk
    by_cases hregistered : isRegistered ledger project k label
    · unfold isRegistered at hregistered
      rw [registerLabel, if_pos hregistered] at h
      cases h
      exact hwithin k
    · -- a new label is registered below the cap only
      have hroom : ledger.labelCount project k < capOf settings k := by
        have hsome := registerLabel_isSome_iff.mp (Option.isSome_of_eq_some h)
        exact hsome.resolve_left hregistered
      have hle : after.labelCount project k ≤
          (insert label (ledger.registeredLabels project k)).card := by
        apply labelCount_le
        intro other hother
        rw [Finset.mem_insert, mem_registeredLabels]
        unfold isRegistered at hother ⊢
        rw [hlabels] at hother
        split_ifs at hother with hkey
        · left
          simpa using hkey
        · exact Or.inr hother
      have hcard := Finset.card_insert_le label (ledger.registeredLabels project k)
      rw [card_registeredLabels] at hcard
      omega
  · rw [@labelCount_congr project ledger]
    · exact hwithin k
    · intro other
      rw [hlabels, if_neg]
      intro hkey
      exact hk (congrArg (fun key => key.2.1) hkey)

/-! ## The invariant -/

/-- The count is that of the known subjects, the caps hold, and a subject with a
channel has a user's row. -/
structure Capacity (settings : RetentionSettings) (project : String) (ledger : RetentionLedger) :
    Prop where
  count : ledger.userCount project = (ledger.knownSubjects project).card
  users : ledger.userCount project ≤ settings.maxUsersPerProject
  labels : ∀ kind, ledger.labelCount project kind ≤ capOf settings kind
  touched : ∀ subject, (ledger.userChannels.get (project, subject)).isSome = true →
    (ledger.users.get (project, subject)).isSome = true

theorem capacity_empty (settings : RetentionSettings) (project : String) :
    Capacity settings project empty where
  count := rfl
  users := Nat.zero_le _
  labels _ := Nat.zero_le _
  touched _ h := by cases h

/-- The rows of a project decide whether it keeps its capacity. -/
theorem Capacity.of_sameProject (h : Capacity settings project ledger) {after : RetentionLedger}
    (hsame : SameProject project ledger after) : Capacity settings project after := by
  have hcount : after.userCount project = ledger.userCount project := by
    unfold userCount
    rw [hsame.row]
  have hknown : after.knownSubjects project = ledger.knownSubjects project := by
    apply knownSubjects_congr
    intro subject
    rw [Bool.eq_iff_iff, knownSubject_iff, knownSubject_iff, hsame.users]
    simp only [hsame.conversions]
  refine ⟨?_, ?_, ?_, ?_⟩
  · rw [hcount, hknown]
    exact h.count
  · rw [hcount]
    exact h.users
  · intro kind
    rw [labelCount_congr (hsame.labels kind)]
    exact h.labels kind
  · intro subject hchannel
    rw [hsame.users]
    apply h.touched
    have hheld := congrArg Option.isSome (hsame.channels subject)
    unfold heldTouch at hheld
    rw [Option.isSome_map, Option.isSome_map] at hheld
    rw [← hheld]
    exact hchannel

/-! ## One event -/

/-- A touch of a subject with a user's row. -/
theorem Capacity.recordTouch (h : Capacity settings project ledger) {subject : String}
    (timestamp : ℕ) (channel : String) (dropped : Dropped)
    (huser : (ledger.users.get (project, subject)).isSome = true) :
    Capacity settings project
      (recordTouch settings project subject timestamp channel ⟨ledger, dropped⟩).ledger := by
  have hput : ∀ (after : RetentionLedger) (label : String), after.projects = ledger.projects →
      after.users = ledger.users → after.conversions = ledger.conversions →
      after.userChannels = ledger.userChannels →
      (∀ kind, after.labelCount project kind ≤ capOf settings kind) →
      Capacity settings project { after with
        userChannels := after.userChannels.put (project, subject) ⟨label, timestamp⟩ } := by
    intro after label hprojects husers hconversions hchannels hlabels
    refine ⟨?_, ?_, hlabels, ?_⟩
    · have hcount := h.count
      unfold userCount knownSubjects at hcount ⊢
      rw [hprojects, husers, hconversions]
      exact hcount
    · have hmax := h.users
      unfold userCount at hmax ⊢
      rw [hprojects]
      exact hmax
    · intro other hother
      dsimp only at hother ⊢
      rw [husers]
      rw [Table.get_put, hchannels] at hother
      split_ifs at hother with hkey
      · rw [(Prod.mk.inj hkey).2]
        exact huser
      · exact h.touched other hother
  unfold RetentionLedger.recordTouch
  split_ifs
  · exact h
  · dsimp only
    cases hregister :
        registerLabel project .channel channel settings.maxChannelsPerProject ledger with
    | none => exact hput ledger overCap rfl rfl rfl rfl h.labels
    | some after =>
        obtain ⟨hprojects, husers, hchannels, hconversions, -⟩ := registerLabel_eq_some hregister
        exact hput after channel hprojects husers hconversions hchannels
          (@registerLabel_within settings project ledger .channel channel after hregister h.labels)

theorem updateProject_userCount (hrow : (ledger.projects.get project).isSome) :
    (ledger.updateProject project fun row =>
      { row with userCount := row.userCount + 1 }).userCount project =
      ledger.userCount project + 1 := by
  obtain ⟨row, hrow⟩ := Option.isSome_iff_exists.mp hrow
  simp [userCount, updateProject_get, hrow]

/-- A subject that is let in is counted once. -/
theorem Capacity.admitted (h : Capacity settings project ledger) {subject : String}
    {after : RetentionLedger} (hrow : (ledger.projects.get project).isSome)
    (hadmitted : admitted settings project subject ledger = some after) :
    SameTables ledger after ∧
      after.userCount project = (insert subject (ledger.knownSubjects project)).card ∧
      after.userCount project ≤ settings.maxUsersPerProject := by
  unfold RetentionLedger.admitted at hadmitted
  split_ifs at hadmitted with hknown
  · cases hadmitted
    rw [Finset.insert_eq_of_mem (mem_knownSubjects.mpr hknown)]
    exact ⟨SameTables.refl _, h.count, h.users⟩
  · unfold admitSubject at hadmitted
    split_ifs at hadmitted with hfull
    cases hadmitted
    have hnew : subject ∉ ledger.knownSubjects project := fun hmem =>
      hknown (mem_knownSubjects.mp hmem)
    have hcount := h.count
    rw [updateProject_userCount hrow, Finset.card_insert_of_notMem hnew]
    exact ⟨sameTables_updateProject _ _ _, by omega, by omega⟩

theorem Capacity.recordActivity (h : Capacity settings project ledger)
    (hrow : (ledger.projects.get project).isSome) (event : RetentionEvent) (dropped : Dropped) :
    Capacity settings project (recordActivity settings project event ⟨ledger, dropped⟩).ledger := by
  unfold RetentionLedger.recordActivity
  cases hadmitted : RetentionLedger.admitted settings project event.subject ledger with
  | none => exact h
  | some counted =>
      obtain ⟨hsame, hcount, hmax⟩ := h.admitted hrow hadmitted
      obtain ⟨hprojects, hlabels, hchannels, hconversions⟩ :=
        recordUser_others project event.subject counted event.day
      have husers := @recordUser_users project event.subject counted event.day
      have hactive : Capacity settings project
          (recordUser project event.subject event.day counted) := by
        have hcounted : (recordUser project event.subject event.day counted).userCount project =
            counted.userCount project := by
          unfold userCount
          rw [hprojects]
        have hknown : (recordUser project event.subject event.day counted).knownSubjects project =
            insert event.subject (ledger.knownSubjects project) := by
          ext subject
          rw [Finset.mem_insert, mem_knownSubjects, mem_knownSubjects, knownSubject_iff,
            knownSubject_iff, husers, hconversions, hsame.users, hsame.conversions]
          by_cases hsubject : subject = event.subject
          · simp [hsubject]
          · simp [hsubject]
        refine ⟨?_, ?_, ?_, ?_⟩
        · rw [hcounted, hknown, hcount]
        · rw [hcounted]
          exact hmax
        · intro kind
          rw [@labelCount_congr project ledger]
          · exact h.labels kind
          · intro label
            rw [hlabels, hsame.labels]
        · intro subject hchannel
          rw [hchannels, hsame.userChannels] at hchannel
          rw [husers]
          split_ifs
          · rfl
          · rw [hsame.users]
            exact h.touched subject hchannel
      dsimp only
      cases event.channel with
      | none => exact hactive
      | some channel =>
          apply hactive.recordTouch
          rw [husers, if_pos rfl]
          rfl

theorem Capacity.registerLabel (h : Capacity settings project ledger) {kind : LabelKind}
    {label : String} {after : RetentionLedger}
    (hregister : registerLabel project kind label (capOf settings kind) ledger = some after) :
    Capacity settings project after := by
  obtain ⟨hprojects, husers, hchannels, hconversions, -⟩ := registerLabel_eq_some hregister
  refine ⟨?_, ?_, registerLabel_within hregister h.labels, ?_⟩
  · have hcount := h.count
    unfold userCount knownSubjects at hcount ⊢
    rw [hprojects, husers, hconversions]
    exact hcount
  · have hmax := h.users
    unfold userCount at hmax ⊢
    rw [hprojects]
    exact hmax
  · intro subject hchannel
    rw [hchannels] at hchannel
    rw [husers]
    exact h.touched subject hchannel

/-- What a conversion that is not refused stores: its goal is registered and its
subject let in. -/
theorem recordConversion_eq (settings : RetentionSettings) (project goal : String)
    (event : RetentionEvent) (work : Work) :
    (recordConversion settings project goal event work).ledger = work.ledger ∨
    ∃ labelled counted : RetentionLedger,
      registerLabel project .goal goal (capOf settings .goal) work.ledger = some labelled ∧
      admitted settings project event.subject labelled = some counted ∧
      (recordConversion settings project goal event work).ledger =
        recordConversionDay project event.subject goal event.day counted := by
  unfold recordConversion
  dsimp only
  by_cases hfull : (!work.ledger.knownSubject project event.subject &&
      decide (settings.maxUsersPerProject ≤ work.ledger.userCount project)) = true
  · rw [if_pos hfull]
    exact Or.inl rfl
  · rw [if_neg hfull]
    cases hregister : registerLabel project .goal goal settings.maxGoalsPerProject work.ledger with
    | none => exact Or.inl rfl
    | some labelled =>
        obtain ⟨hprojects, husers, -, hconversions, -⟩ := registerLabel_eq_some hregister
        have hknown : labelled.knownSubject project event.subject =
            work.ledger.knownSubject project event.subject := by
          unfold knownSubject anyConversion
          rw [husers, hconversions]
        have hcount : labelled.userCount project = work.ledger.userCount project := by
          unfold userCount
          rw [hprojects]
        right
        refine ⟨labelled, _, hregister, ?_, rfl⟩
        unfold admitted
        rw [hknown]
        split_ifs with hsubject
        · rfl
        · rw [Bool.not_eq_true] at hsubject
          have hroom : ¬ settings.maxUsersPerProject ≤ labelled.userCount project := by
            rw [hcount]
            simpa [hsubject] using hfull
          simp [admitSubject, hroom]

theorem Capacity.recordConversion (h : Capacity settings project ledger)
    (hrow : (ledger.projects.get project).isSome) (goal : String) (event : RetentionEvent)
    (dropped : Dropped) : Capacity settings project
      (recordConversion settings project goal event ⟨ledger, dropped⟩).ledger := by
  rcases recordConversion_eq settings project goal event ⟨ledger, dropped⟩ with hrefused | hstored
  · rw [hrefused]
    exact h
  · obtain ⟨labelled, counted, hregister, hadmitted, hstored⟩ := hstored
    have hlabelled := h.registerLabel hregister
    rw [← (registerLabel_eq_some hregister).1] at hrow
    obtain ⟨hsame, hcount, hmax⟩ := hlabelled.admitted hrow hadmitted
    rw [hstored]
    have hknown : (recordConversionDay project event.subject goal event.day counted).knownSubjects
        project = insert event.subject (labelled.knownSubjects project) := by
      ext subject
      rw [Finset.mem_insert, mem_knownSubjects, mem_knownSubjects, knownSubject_iff,
        knownSubject_iff]
      simp only [recordConversionDay, hsame.users, hsame.conversions, Table.get_put,
        Prod.mk.injEq, true_and]
      by_cases hsubject : subject = event.subject
      · simp only [hsubject, true_and, true_or, iff_true]
        exact Or.inr ⟨goal, by simp⟩
      · simp [hsubject]
    refine ⟨?_, hmax, ?_, ?_⟩
    · rw [hknown]
      exact hcount
    · intro kind
      rw [@labelCount_congr project labelled]
      · exact hlabelled.labels kind
      · intro label
        exact congrArg (fun labels => labels.get (project, kind, label)) hsame.labels
    · intro subject hchannel
      have hheld : (counted.userChannels.get (project, subject)).isSome = true := hchannel
      show (counted.users.get (project, subject)).isSome = true
      rw [hsame.userChannels] at hheld
      rw [hsame.users]
      exact hlabelled.touched subject hheld

/-- The tables decide, with the count of the project. -/
theorem Capacity.of_tables (h : Capacity settings project ledger) {after : RetentionLedger}
    (hsame : SameTables ledger after)
    (hcount : after.userCount project = ledger.userCount project) :
    Capacity settings project after := by
  refine ⟨?_, ?_, ?_, ?_⟩
  · rw [hcount, h.count]
    exact congrArg Finset.card (knownSubjects_congr fun subject => hsame.knownSubject).symm
  · rw [hcount]
    exact h.users
  · intro kind
    rw [@labelCount_congr project ledger]
    · exact h.labels kind
    · intro label
      rw [hsame.labels]
  · intro subject hchannel
    rw [hsame.userChannels] at hchannel
    rw [hsame.users]
    exact h.touched subject hchannel

theorem Capacity.pinSalt (h : Capacity settings project ledger) (salt : String) :
    Capacity settings project (pinSalt project salt ledger) := by
  apply h.of_tables (sameTables_pinSalt project salt ledger)
  unfold userCount
  rw [pinSalt_get, if_pos rfl]
  cases ledger.projects.get project <;> rfl

theorem pinSalt_isSome (salt : String) :
    ((pinSalt project salt ledger).projects.get project).isSome = true := by
  rw [pinSalt_get, if_pos rfl]
  rfl

theorem ingestEvent_eq_ok {work next : Work} {event : RetentionEvent}
    (h : ingestEvent settings project work event = .ok next) :
    next = record settings project event
      { work with ledger := pinSalt project event.salt work.ledger } := by
  simp only [ingestEvent, bind_eq_ok_iff, pure, Except.pure, Except.ok.injEq] at h
  obtain ⟨_, _, _, _, rfl⟩ := h
  rfl

theorem Capacity.ingestEvent {work next : Work} (h : Capacity settings project work.ledger)
    {event : RetentionEvent} (hnext : ingestEvent settings project work event = .ok next) :
    Capacity settings project next.ledger := by
  rw [ingestEvent_eq_ok hnext]
  unfold record
  cases event.goal with
  | none => exact (h.pinSalt event.salt).recordActivity (pinSalt_isSome _) event _
  | some goal => exact (h.pinSalt event.salt).recordConversion (pinSalt_isSome _) goal event _

/-! ## Drops -/

/-- The drops of activities and of conversions in a project's row, if it has one. -/
def rowDrops (ledger : RetentionLedger) (project : String) : Option (ℕ × ℕ) :=
  (ledger.projects.get project).map fun row => (row.droppedActivity, row.droppedConversions)

def storedDrops (ledger : RetentionLedger) (project : String) : ℕ × ℕ :=
  (ledger.rowDrops project).getD (0, 0)

theorem rowDrops_of_projects {after : RetentionLedger} (h : after.projects = ledger.projects) :
    after.rowDrops project = ledger.rowDrops project := by
  unfold rowDrops
  rw [h]

theorem rowDrops_pinSalt (salt : String) :
    (pinSalt project salt ledger).rowDrops project = some (ledger.storedDrops project) := by
  unfold storedDrops rowDrops
  rw [pinSalt_get, if_pos rfl]
  cases ledger.projects.get project <;> rfl

theorem rowDrops_admitted {subject : String} {after : RetentionLedger}
    (h : admitted settings project subject ledger = some after) :
    after.rowDrops project = ledger.rowDrops project := by
  unfold admitted admitSubject at h
  split_ifs at h
  · cases h
    rfl
  · cases h
    unfold rowDrops
    rw [updateProject_get, if_pos rfl]
    cases ledger.projects.get project <;> rfl

theorem rowDrops_recordActivity (event : RetentionEvent) (work : Work) :
    (recordActivity settings project event work).ledger.rowDrops project =
      work.ledger.rowDrops project := by
  unfold recordActivity
  cases hadmitted : admitted settings project event.subject work.ledger with
  | none => rfl
  | some counted =>
      have huser : (recordUser project event.subject event.day counted).rowDrops project =
          work.ledger.rowDrops project := by
        rw [rowDrops_of_projects (recordUser_others project event.subject counted event.day).1]
        exact rowDrops_admitted hadmitted
      dsimp only
      cases event.channel with
      | none => exact huser
      | some channel =>
          dsimp only
          rw [rowDrops_of_projects (recordTouch_others settings project event.subject
            event.moment channel _).1]
          exact huser

theorem rowDrops_recordConversion (goal : String) (event : RetentionEvent) (work : Work) :
    (recordConversion settings project goal event work).ledger.rowDrops project =
      work.ledger.rowDrops project := by
  rcases recordConversion_eq settings project goal event work with hrefused | hstored
  · rw [hrefused]
  · obtain ⟨labelled, counted, hregister, hadmitted, hstored⟩ := hstored
    rw [hstored]
    calc
      counted.rowDrops project = labelled.rowDrops project := rowDrops_admitted hadmitted
      _ = work.ledger.rowDrops project := rowDrops_of_projects (registerLabel_eq_some hregister).1

/-- An event adds to no stored drop, and leaves its project with a row. -/
theorem rowDrops_ingestEvent {work next : Work} {event : RetentionEvent}
    (h : ingestEvent settings project work event = .ok next) :
    next.ledger.rowDrops project = some (work.ledger.storedDrops project) := by
  rw [ingestEvent_eq_ok h]
  unfold record
  cases event.goal with
  | none =>
      dsimp only
      rw [rowDrops_recordActivity]
      exact rowDrops_pinSalt event.salt
  | some goal =>
      dsimp only
      rw [rowDrops_recordConversion]
      exact rowDrops_pinSalt event.salt

/-- The events of a batch, up to the drops that are added at its end. -/
theorem ingestEvents_kept {work last : Work} {events : List RetentionEvent}
    (h : ingestEvents settings project work events = .ok last)
    (hcapacity : Capacity settings project work.ledger) :
    Capacity settings project last.ledger ∧
      last.ledger.storedDrops project = work.ledger.storedDrops project ∧
      (events ≠ [] → (last.ledger.rowDrops project).isSome = true) := by
  induction events generalizing work with
  | nil =>
      cases h
      exact ⟨hcapacity, rfl, fun hne => absurd rfl hne⟩
  | cons event events ih =>
      rw [ingestEvents, bind_eq_ok_iff] at h
      obtain ⟨next, hnext, hrest⟩ := h
      have hdrops := rowDrops_ingestEvent hnext
      obtain ⟨hlast, hstored, hrow⟩ := ih hrest (hcapacity.ingestEvent hnext)
      refine ⟨hlast, ?_, fun _ => ?_⟩
      · rw [hstored, storedDrops, hdrops]
        rfl
      · cases events with
        | nil =>
            cases hrest
            rw [hdrops]
            rfl
        | cons other events => exact hrow (List.cons_ne_nil other events)

/-- A committed batch adds what it returns as dropped. -/
theorem ingestBatch_kept {events : List RetentionEvent} {last : Work}
    (h : ingestBatch settings project events ledger = .ok last)
    (hcapacity : Capacity settings project ledger) :
    Capacity settings project last.ledger ∧
      last.ledger.storedDrops project = ledger.storedDrops project +
        (last.dropped.activity, last.dropped.conversions) := by
  simp only [ingestBatch, bind_eq_ok_iff, pure, Except.pure, Except.ok.injEq] at h
  obtain ⟨work, hwork, rfl⟩ := h
  obtain ⟨hkept, hstored, hrow⟩ := ingestEvents_kept hwork hcapacity
  dsimp only at hstored ⊢
  unfold addDropped
  split_ifs with hdropped
  · have hne : events ≠ [] := by
      intro hnil
      rw [hnil] at hwork
      cases hwork
      simp at hdropped
    obtain ⟨stored, hsome⟩ := Option.isSome_iff_exists.mp (hrow hne)
    obtain ⟨row, hget, hpair⟩ := Option.map_eq_some_iff.mp hsome
    refine ⟨?_, ?_⟩
    · apply hkept.of_tables (sameTables_updateProject _ _ _)
      unfold userCount
      rw [updateProject_get, if_pos rfl, hget]
      rfl
    · rw [← hstored]
      unfold storedDrops rowDrops
      rw [updateProject_get, if_pos rfl, hget]
      rfl
  · have hactivity : work.dropped.activity = 0 := by omega
    have hconversions : work.dropped.conversions = 0 := by omega
    refine ⟨hkept, ?_⟩
    rw [hstored, hactivity, hconversions]
    rfl

/-! ## Batches in order of arrival -/

/-- What the project's committed batches returned as dropped. -/
def returnedDrops (settings : RetentionSettings) (project : String) :
    RetentionLedger → List Batch → List Dropped
  | _, [] => []
  | ledger, batch :: batches =>
      match ingestBatch settings batch.project batch.events ledger with
      | .error _ => returnedDrops settings project ledger batches
      | .ok work =>
          let later := returnedDrops settings project work.ledger batches
          if batch.project = project then work.dropped :: later else later

theorem receive_kept (batches : List Batch) (hcapacity : Capacity settings project ledger) :
    Capacity settings project (receive settings ledger batches) ∧
      (receive settings ledger batches).storedDrops project = ledger.storedDrops project +
        (((returnedDrops settings project ledger batches).map Dropped.activity).sum,
          ((returnedDrops settings project ledger batches).map Dropped.conversions).sum) := by
  induction batches generalizing ledger with
  | nil => exact ⟨hcapacity, rfl⟩
  | cons batch batches ih =>
      have hbatch : receive settings ledger (batch :: batches) =
          receive settings (afterBatch settings ledger batch) batches := rfl
      rw [hbatch]
      cases hingest : ingestBatch settings batch.project batch.events ledger with
      | error message =>
          have hafter : afterBatch settings ledger batch = ledger := by
            unfold afterBatch
            rw [hingest]
          rw [hafter, returnedDrops, hingest]
          exact ih hcapacity
      | ok work =>
          have hafter : afterBatch settings ledger batch = work.ledger := by
            unfold afterBatch
            rw [hingest]
          rw [hafter, returnedDrops, hingest]
          dsimp only
          split_ifs with hproject
          · rw [hproject] at hingest
            obtain ⟨hkept, hstored⟩ := ingestBatch_kept hingest hcapacity
            obtain ⟨hlast, hdrops⟩ := ih hkept
            refine ⟨hlast, ?_⟩
            rw [hdrops, hstored, List.map_cons, List.map_cons, List.sum_cons, List.sum_cons,
              add_assoc]
            rfl
          · have hsame := @sameProject_afterBatch settings project ledger batch
              (Ne.symm hproject)
            rw [hafter] at hsame
            obtain ⟨hlast, hdrops⟩ := ih (hcapacity.of_sameProject hsame)
            refine ⟨hlast, ?_⟩
            rw [hdrops]
            unfold storedDrops rowDrops
            rw [hsame.row]

/-- After any batches the count of a project is that of its distinct subjects and
within its cap, the registered labels are within theirs, a subject with a
channel has a user's row, and the stored drops are what the committed batches
returned. A batch counts the same with the count it holds in memory. -/
theorem capacity_counts_subjects (settings : RetentionSettings) (project : String)
    (batches : List Batch) :
    let ledger := receive settings empty batches
    (∀ batch : Batch, ingestBatchHeld settings batch.project batch.events ledger =
      ingestBatch settings batch.project batch.events ledger) ∧
    ledger.userCount project = (ledger.knownSubjects project).card ∧
    ledger.userCount project ≤ settings.maxUsersPerProject ∧
    ledger.labelCount project .channel ≤ settings.maxChannelsPerProject ∧
    ledger.labelCount project .goal ≤ settings.maxGoalsPerProject ∧
    (∀ subject, (ledger.userChannels.get (project, subject)).isSome = true →
      (ledger.users.get (project, subject)).isSome = true) ∧
    ledger.storedDrops project =
      (((returnedDrops settings project empty batches).map Dropped.activity).sum,
        ((returnedDrops settings project empty batches).map Dropped.conversions).sum) := by
  obtain ⟨hkept, hdrops⟩ := receive_kept batches (capacity_empty settings project)
  refine ⟨fun batch => ingestBatchHeld_eq settings batch.project batch.events _, hkept.count,
    hkept.users, hkept.labels .channel, hkept.labels .goal, hkept.touched, ?_⟩
  rw [hdrops]
  exact zero_add _

end Wardx.RetentionLedger
