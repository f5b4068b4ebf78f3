import Mathlib.Data.String.Basic
import Wardx.Lib.FirstTouch
import Wardx.Storage.RetentionLedger

/-!
# What the retention operations write

One lemma for each operation of the retention ledger: the rows it writes, and
that it leaves the other tables, or the other projects' rows, alone. Counting
labels and admitting subjects are the only operations that may refuse, and each
has the condition under which it does not.
-/
namespace Wardx.RetentionLedger

open Lib ExperimentLedger

variable {settings : RetentionSettings} {project subject : String} {ledger : RetentionLedger}

/-- The touch a subject holds. -/
def heldTouch (ledger : RetentionLedger) (project subject : String) : Option (ℕ × String) :=
  (ledger.userChannels.get (project, subject)).map fun touch => (touch.touchedAt, touch.channel)

def isRegistered (ledger : RetentionLedger) (project : String) (kind : LabelKind)
    (label : String) : Prop :=
  (ledger.labels.get (project, kind, label)).isSome = true

instance (ledger : RetentionLedger) (project : String) (kind : LabelKind) :
    DecidablePred (isRegistered ledger project kind) :=
  fun label => inferInstanceAs (Decidable ((ledger.labels.get (project, kind, label)).isSome = true))

/-- The tables beside the projects' are the same. -/
structure SameTables (before after : RetentionLedger) : Prop where
  users : after.users = before.users
  labels : after.labels = before.labels
  userChannels : after.userChannels = before.userChannels
  conversions : after.conversions = before.conversions

theorem SameTables.refl (ledger : RetentionLedger) : SameTables ledger ledger := ⟨rfl, rfl, rfl, rfl⟩

theorem SameTables.trans {a b c : RetentionLedger} (hab : SameTables a b) (hbc : SameTables b c) :
    SameTables a c :=
  ⟨hbc.users.trans hab.users, hbc.labels.trans hab.labels,
    hbc.userChannels.trans hab.userChannels, hbc.conversions.trans hab.conversions⟩

theorem sameTables_updateProject (project : String) (ledger : RetentionLedger)
    (f : RetentionProject → RetentionProject) :
    SameTables ledger (ledger.updateProject project f) := by
  unfold updateProject
  split
  · exact SameTables.refl ledger
  · exact ⟨rfl, rfl, rfl, rfl⟩

theorem updateProject_get (f : RetentionProject → RetentionProject) (other : String) :
    (ledger.updateProject project f).projects.get other =
      if other = project then (ledger.projects.get project).map f else ledger.projects.get other := by
  unfold updateProject
  split
  next hnone =>
      split_ifs with h
      · rw [h, hnone]
        rfl
      · rfl
  next row hsome =>
      rw [Table.get_put, hsome]
      rfl

theorem sameTables_pinSalt (project salt : String) (ledger : RetentionLedger) : SameTables ledger (pinSalt project salt ledger) := by
  unfold pinSalt
  split_ifs
  · exact SameTables.refl ledger
  · exact ⟨rfl, rfl, rfl, rfl⟩

theorem pinSalt_get (salt other : String) :
    (pinSalt project salt ledger).projects.get other =
      if other = project then some ((ledger.projects.get project).getD ⟨salt, 0, 0, 0⟩)
      else ledger.projects.get other := by
  unfold pinSalt
  cases hrow : ledger.projects.get project with
  | none =>
      rw [Option.isSome_none, if_neg (by decide), Table.get_put]
      rfl
  | some row =>
      rw [Option.isSome_some, if_pos rfl]
      split_ifs with h
      · rw [h, hrow]
        rfl
      · rfl

theorem anyConversion_iff :
    ledger.anyConversion project subject = true ↔
      ∃ goal, (ledger.conversions.get (project, subject, goal)).isSome = true := by
  unfold anyConversion
  rw [List.any_eq_true]
  simp only [Table.get_isSome_iff, Bool.and_eq_true, decide_eq_true_eq]
  constructor
  · rintro ⟨⟨p, s, goal⟩, hmem, rfl, rfl⟩
    exact ⟨goal, hmem⟩
  · rintro ⟨goal, hmem⟩
    exact ⟨_, hmem, rfl, rfl⟩

theorem knownSubject_iff :
    ledger.knownSubject project subject = true ↔
      (ledger.users.get (project, subject)).isSome = true ∨
        ∃ goal, (ledger.conversions.get (project, subject, goal)).isSome = true := by
  unfold knownSubject
  rw [Bool.or_eq_true, anyConversion_iff]

theorem SameTables.knownSubject {before after : RetentionLedger} (h : SameTables before after) :
    after.knownSubject project subject = before.knownSubject project subject := by
  unfold RetentionLedger.knownSubject RetentionLedger.anyConversion
  rw [h.users, h.conversions]

/-! ## Labels -/

/-- The labels of a kind are counted without repetition. -/
theorem labelCount_le {kind : LabelKind} (labels : Finset String)
    (h : ∀ label, isRegistered ledger project kind label → label ∈ labels) :
    ledger.labelCount project kind ≤ labels.card := by
  unfold labelCount
  have hnodup : (ledger.labels.keys.filter fun key => key.1 = project && key.2.1 = kind).Nodup :=
    ledger.labels.nodup.filter _
  rw [← List.toFinset_card_of_nodup hnodup]
  apply Finset.card_le_card_of_injOn fun key => key.2.2
  · intro key hkey
    rw [Finset.mem_coe, List.mem_toFinset, List.mem_filter] at hkey
    obtain ⟨hmem, hkind⟩ := hkey
    rw [Bool.and_eq_true, decide_eq_true_eq, decide_eq_true_eq] at hkind
    apply h
    unfold isRegistered
    rw [Table.get_isSome_iff, ← hkind.1, ← hkind.2]
    exact hmem
  · intro key hkey other hother heq
    rw [Finset.mem_coe, List.mem_toFinset, List.mem_filter, Bool.and_eq_true, decide_eq_true_eq,
      decide_eq_true_eq] at hkey hother
    exact Prod.ext (hkey.2.1.trans hother.2.1.symm)
      (Prod.ext (hkey.2.2.trans hother.2.2.symm) heq)

theorem labelCount_lt {kind : LabelKind} {label : String} (labels : Finset String)
    (h : ∀ label, isRegistered ledger project kind label → label ∈ labels)
    (hlabel : label ∈ labels) (hnew : ¬ isRegistered ledger project kind label) :
    ledger.labelCount project kind < labels.card := by
  have hle : ledger.labelCount project kind ≤ (labels.erase label).card := by
    apply labelCount_le (labels.erase label)
    intro other hother
    refine Finset.mem_erase.mpr ⟨?_, h other hother⟩
    rintro rfl
    exact hnew hother
  have hcard := Finset.card_erase_lt_of_mem hlabel
  omega

theorem registerLabel_eq_some {kind : LabelKind} {label : String} {limit : ℕ}
    {after : RetentionLedger} (h : registerLabel project kind label limit ledger = some after) :
    after.projects = ledger.projects ∧ after.users = ledger.users ∧
      after.userChannels = ledger.userChannels ∧ after.conversions = ledger.conversions ∧
      ∀ key, after.labels.get key =
        if key = (project, kind, label) then some () else ledger.labels.get key := by
  unfold registerLabel at h
  split_ifs at h with hregistered hfull
  · cases h
    refine ⟨rfl, rfl, rfl, rfl, fun key => ?_⟩
    split_ifs with hkey
    · rw [hkey]
      exact Option.eq_some_of_isSome hregistered
    · rfl
  · cases h
    exact ⟨rfl, rfl, rfl, rfl, fun key => Table.get_put _ _ _ _⟩

theorem registerLabel_isSome_iff {kind : LabelKind} {label : String} {limit : ℕ} :
    (registerLabel project kind label limit ledger).isSome = true ↔
      isRegistered ledger project kind label ∨ ledger.labelCount project kind < limit := by
  unfold registerLabel isRegistered
  split_ifs with hregistered hfull
  · simp [hregistered]
  · simp [hregistered, hfull]
  · simp [not_le.mp hfull]

/-! ## Activities -/

theorem recordUser_users (day : ℕ) (key : String × String) :
    (recordUser project subject day ledger).users.get key =
      if key = (project, subject) then
        some (activeUser (ledger.users.get (project, subject)) day)
      else ledger.users.get key := by
  unfold recordUser
  dsimp only
  split_ifs with hsame hkey hkey
  · rw [hkey]
    exact hsame
  · rfl
  · rw [hkey, Table.get_put_self]
  · rw [Table.get_put_of_ne _ _ hkey]

theorem recordUser_others (project subject : String) (ledger : RetentionLedger) (day : ℕ) :
    (recordUser project subject day ledger).projects = ledger.projects ∧
      (recordUser project subject day ledger).labels = ledger.labels ∧
      (recordUser project subject day ledger).userChannels = ledger.userChannels ∧
      (recordUser project subject day ledger).conversions = ledger.conversions := by
  unfold recordUser
  dsimp only
  split_ifs <;> exact ⟨rfl, rfl, rfl, rfl⟩

theorem keepsTouch_iff (timestamp : ℕ) (channel : String) :
    keepsTouch (ledger.userChannels.get (project, subject)) timestamp channel = true ↔
      ¬ FirstTouch.Beats (heldTouch ledger project subject) (timestamp, channel) := by
  unfold keepsTouch heldTouch
  cases ledger.userChannels.get (project, subject) with
  | none => simp
  | some touch =>
      rw [Option.any_some, Option.map_some, Bool.or_eq_true, Bool.and_eq_true, decide_eq_true_eq,
        decide_eq_true_eq, decide_eq_true_eq]
      constructor
      · intro h
        exact FirstTouch.not_beats_of_precedes h
      · exact FirstTouch.precedes_of_not_beats

/-- The labels a touch can be stored under. -/
def canRegister (settings : RetentionSettings) (project : String) (ledger : RetentionLedger)
    (label : String) : Prop :=
  (registerLabel project .channel label settings.maxChannelsPerProject ledger).isSome = true

instance : DecidablePred (canRegister settings project ledger) :=
  fun label => inferInstanceAs (Decidable ((registerLabel project .channel label
    settings.maxChannelsPerProject ledger).isSome = true))

/-- A touch writes the first-touch cell of its subject. -/
theorem recordTouch_heldTouch (timestamp : ℕ) (channel : String) (work : Work) (p s : String) :
    heldTouch (recordTouch settings project subject timestamp channel work).ledger p s =
      if p = project ∧ s = subject then
        FirstTouch.touch (FirstTouch.capped (canRegister settings project work.ledger) overCap)
          (heldTouch work.ledger project subject) (timestamp, channel)
      else heldTouch work.ledger p s := by
  have hput : ∀ (l : RetentionLedger) (label : String), l.userChannels = work.ledger.userChannels →
      heldTouch { l with userChannels := l.userChannels.put (project, subject) ⟨label, timestamp⟩ }
        p s = if p = project ∧ s = subject then some (timestamp, label)
          else heldTouch work.ledger p s := by
    intro l label hsame
    unfold heldTouch
    rw [Table.get_put, hsame]
    simp only [Prod.mk.injEq]
    split_ifs <;> rfl
  unfold recordTouch
  by_cases hkeeps :
      keepsTouch (work.ledger.userChannels.get (project, subject)) timestamp channel = true
  · rw [if_pos hkeeps, FirstTouch.touch_of_not_beats ((keepsTouch_iff _ _).mp hkeeps)]
    split_ifs with h
    · rw [h.1, h.2]
    · rfl
  · have hbeats := not_not.mp (mt (keepsTouch_iff timestamp channel).mpr hkeeps)
    rw [if_neg hkeeps, FirstTouch.touch_of_beats hbeats]
    dsimp only
    cases hregister :
        registerLabel project .channel channel settings.maxChannelsPerProject work.ledger with
    | none =>
        have hnot : ¬ canRegister settings project work.ledger channel := by
          unfold canRegister
          rw [hregister]
          decide
        rw [FirstTouch.capped_of_not_registered hnot]
        exact hput work.ledger overCap rfl
    | some after =>
        have hcan : canRegister settings project work.ledger channel := by
          unfold canRegister
          rw [hregister]
          rfl
        rw [FirstTouch.capped_of_registered hcan]
        exact hput after channel (registerLabel_eq_some hregister).2.2.1

theorem recordTouch_others (settings : RetentionSettings) (project subject : String) (timestamp : ℕ) (channel : String) (work : Work) :
    let after := recordTouch settings project subject timestamp channel work
    after.ledger.projects = work.ledger.projects ∧ after.ledger.users = work.ledger.users ∧
      after.ledger.conversions = work.ledger.conversions ∧
      (canRegister settings project work.ledger channel → after.dropped = work.dropped) ∧
      ∀ key, key ≠ (project, .channel, channel) →
        after.ledger.labels.get key = work.ledger.labels.get key := by
  unfold recordTouch
  split_ifs
  · exact ⟨rfl, rfl, rfl, fun _ => rfl, fun _ _ => rfl⟩
  · cases hregister :
        registerLabel project .channel channel settings.maxChannelsPerProject work.ledger with
    | none =>
        refine ⟨rfl, rfl, rfl, fun hcan => ?_, fun _ _ => rfl⟩
        unfold canRegister at hcan
        rw [hregister] at hcan
        cases hcan
    | some after =>
        obtain ⟨hprojects, husers, _, hconversions, hlabels⟩ := registerLabel_eq_some hregister
        refine ⟨hprojects, husers, hconversions, fun _ => rfl, fun key hkey => ?_⟩
        show after.labels.get key = _
        rw [hlabels key, if_neg hkey]

/-! ## Other projects -/

/-- The rows of a project are the same. -/
structure SameProject (other : String) (before after : RetentionLedger) : Prop where
  row : after.projects.get other = before.projects.get other
  users : ∀ s, after.users.get (other, s) = before.users.get (other, s)
  labels : ∀ kind label,
    after.labels.get (other, kind, label) = before.labels.get (other, kind, label)
  channels : ∀ s, heldTouch after other s = heldTouch before other s
  conversions : ∀ s goal,
    after.conversions.get (other, s, goal) = before.conversions.get (other, s, goal)

section
variable {other : String}

theorem SameProject.refl (ledger : RetentionLedger) : SameProject other ledger ledger :=
  ⟨rfl, fun _ => rfl, fun _ _ => rfl, fun _ => rfl, fun _ _ => rfl⟩

theorem SameProject.trans {a b c : RetentionLedger} (hab : SameProject other a b)
    (hbc : SameProject other b c) : SameProject other a c where
  row := hbc.row.trans hab.row
  users s := (hbc.users s).trans (hab.users s)
  labels kind label := (hbc.labels kind label).trans (hab.labels kind label)
  channels s := (hbc.channels s).trans (hab.channels s)
  conversions s goal := (hbc.conversions s goal).trans (hab.conversions s goal)

theorem SameTables.sameProject {before after : RetentionLedger} (h : SameTables before after)
    (hrow : after.projects.get other = before.projects.get other) :
    SameProject other before after where
  row := hrow
  users s := by rw [h.users]
  labels kind label := by rw [h.labels]
  channels s := by
    unfold heldTouch
    rw [h.userChannels]
  conversions s goal := by rw [h.conversions]

variable (hother : other ≠ project)
include hother

theorem sameProject_updateProject (f : RetentionProject → RetentionProject) :
    SameProject other ledger (ledger.updateProject project f) :=
  (sameTables_updateProject project ledger f).sameProject (by rw [updateProject_get, if_neg hother])

theorem sameProject_pinSalt (salt : String) :
    SameProject other ledger (pinSalt project salt ledger) :=
  (sameTables_pinSalt project salt ledger).sameProject (by rw [pinSalt_get, if_neg hother])

theorem sameProject_admitSubject {after : RetentionLedger}
    (h : admitSubject settings project ledger = some after) : SameProject other ledger after := by
  unfold admitSubject at h
  split_ifs at h
  cases h
  exact sameProject_updateProject hother _

theorem sameProject_registerLabel {kind : LabelKind} {label : String} {limit : ℕ}
    {after : RetentionLedger} (h : registerLabel project kind label limit ledger = some after) :
    SameProject other ledger after := by
  obtain ⟨hprojects, husers, hchannels, hconversions, hlabels⟩ := registerLabel_eq_some h
  refine ⟨by rw [hprojects], fun s => by rw [husers], fun k l => ?_, fun s => ?_,
    fun s goal => by rw [hconversions]⟩
  · rw [hlabels, if_neg fun e => hother (congrArg Prod.fst e)]
  · unfold heldTouch
    rw [hchannels]

theorem sameProject_recordUser (subject : String) (day : ℕ) :
    SameProject other ledger (recordUser project subject day ledger) := by
  obtain ⟨hprojects, hlabels, hchannels, hconversions⟩ :=
    recordUser_others project subject ledger day
  refine ⟨by rw [hprojects], fun s => ?_, fun k l => by rw [hlabels], fun s => ?_,
    fun s goal => by rw [hconversions]⟩
  · rw [recordUser_users, if_neg fun e => hother (congrArg Prod.fst e)]
  · unfold heldTouch
    rw [hchannels]

theorem sameProject_recordTouch (timestamp : ℕ) (channel : String) (work : Work) :
    SameProject other work.ledger
      (recordTouch settings project subject timestamp channel work).ledger := by
  obtain ⟨hprojects, husers, hconversions, _, hlabels⟩ :=
    recordTouch_others settings project subject timestamp channel work
  refine ⟨by rw [hprojects], fun s => by rw [husers], fun k l => ?_, fun s => ?_,
    fun s goal => by rw [hconversions]⟩
  · exact hlabels _ fun e => hother (congrArg Prod.fst e)
  · rw [recordTouch_heldTouch, if_neg fun e => hother e.1]

theorem sameProject_recordActivity (event : RetentionEvent) (work : Work) :
    SameProject other work.ledger (recordActivity settings project event work).ledger := by
  unfold recordActivity
  split
  · exact SameProject.refl work.ledger
  next after hadmitted =>
      have hcounted : SameProject other work.ledger after := by
        unfold admitted at hadmitted
        split_ifs at hadmitted
        · cases hadmitted
          exact SameProject.refl work.ledger
        · exact sameProject_admitSubject hother hadmitted
      have hactive := hcounted.trans
        (sameProject_recordUser hother event.subject event.day)
      dsimp only
      split
      · exact hactive
      · exact hactive.trans (sameProject_recordTouch hother _ _
          ⟨recordUser project event.subject event.day after, work.dropped⟩)

theorem sameProject_recordConversionDay (goal : String) (day : ℕ) :
    SameProject other ledger (recordConversionDay project subject goal day ledger) := by
  refine ⟨rfl, fun _ => rfl, fun _ _ => rfl, fun _ => rfl, fun s g => ?_⟩
  apply Table.get_put_of_ne
  intro e
  exact hother (congrArg Prod.fst e)

theorem sameProject_recordConversion (goal : String) (event : RetentionEvent) (work : Work) :
    SameProject other work.ledger (recordConversion settings project goal event work).ledger := by
  unfold recordConversion
  dsimp only
  by_cases hroom : (!work.ledger.knownSubject project event.subject &&
      decide (settings.maxUsersPerProject ≤ work.ledger.userCount project)) = true
  · rw [if_pos hroom]
    exact SameProject.refl work.ledger
  rw [if_neg hroom]
  cases hregister : registerLabel project .goal goal settings.maxGoalsPerProject work.ledger with
  | none => exact SameProject.refl work.ledger
  | some registered =>
      have hregistered := sameProject_registerLabel hother hregister
      refine SameProject.trans ?_ (sameProject_recordConversionDay hother goal event.day)
      split_ifs
      · exact hregistered
      · cases hadmit : admitSubject settings project registered with
        | none => exact hregistered
        | some counted => exact hregistered.trans (sameProject_admitSubject hother hadmit)

theorem sameProject_ingestEvent {work next : Work} {event : RetentionEvent}
    (h : ingestEvent settings project work event = .ok next) :
    SameProject other work.ledger next.ledger := by
  unfold ingestEvent at h
  simp only [bind_eq_ok_iff, pure, Except.pure, Except.ok.injEq] at h
  obtain ⟨_, _, _, _, rfl⟩ := h
  apply (sameProject_pinSalt hother event.salt).trans
  unfold record
  split
  · exact sameProject_recordConversion hother _ event
      ⟨pinSalt project event.salt work.ledger, work.dropped⟩
  · exact sameProject_recordActivity hother event
      ⟨pinSalt project event.salt work.ledger, work.dropped⟩

theorem sameProject_ingestEvents {work next : Work} {events : List RetentionEvent}
    (h : ingestEvents settings project work events = .ok next) :
    SameProject other work.ledger next.ledger := by
  induction events generalizing work with
  | nil =>
      cases h
      exact SameProject.refl _
  | cons event events ih =>
      unfold ingestEvents at h
      obtain ⟨middle, hmiddle, hrest⟩ := bind_eq_ok_iff.mp h
      exact (sameProject_ingestEvent hother hmiddle).trans (ih hrest)

end

/-- A batch leaves the other projects' rows alone. -/
theorem sameProject_afterBatch {other : String} (ledger : RetentionLedger) (batch : Batch)
    (hother : other ≠ batch.project) :
    SameProject other ledger (afterBatch settings ledger batch) := by
  unfold afterBatch
  split
  next work hwork =>
      unfold ingestBatch at hwork
      simp only [bind_eq_ok_iff, pure, Except.pure, Except.ok.injEq] at hwork
      obtain ⟨middle, hmiddle, rfl⟩ := hwork
      apply (sameProject_ingestEvents hother hmiddle).trans
      unfold addDropped
      split_ifs
      · exact sameProject_updateProject hother _
      · exact SameProject.refl _
  next => exact SameProject.refl ledger

end Wardx.RetentionLedger
