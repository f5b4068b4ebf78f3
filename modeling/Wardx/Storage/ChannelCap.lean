import Wardx.Storage.RetentionSpec

/-!
# First touch at the channel cap

A project with as many channels as it may have registers no other. A touch of
an unregistered channel is then stored under the reserved label, which is below
every client label, while it is compared under its own. Each arrival is one
step of the capped first-touch cell, so whether the order of a subject's
activities matters is the question the cell answers.
-/
namespace Wardx.RetentionLedger

open Lib ExperimentLedger

/-- The channel stored for a subject. -/
def storedChannel (ledger : RetentionLedger) (project subject : String) : Option String :=
  (ledger.userChannels.get (project, subject)).map UserChannel.channel

/-- The moment and channel of a channel-bearing activity. -/
def touchOf (event : RetentionEvent) : ℕ × String := (event.moment, event.channel.getD "")

/-- A channel-bearing activity of the subject that passes the checks of one event. -/
structure TouchEvent (salt subject : String) (event : RetentionEvent) : Prop where
  valid : checkEvent event = .ok ()
  salt : event.salt = salt
  subject : event.subject = subject
  activity : event.goal = none
  channel : event.channel.isSome = true

/-- The subject has been counted, or there is room to count it. -/
def hasRoom (settings : RetentionSettings) (project subject : String)
    (ledger : RetentionLedger) : Bool :=
  ledger.knownSubject project subject || decide (ledger.userCount project < settings.maxUsersPerProject)

theorem storedChannel_eq (ledger : RetentionLedger) (project subject : String) :
    storedChannel ledger project subject = (heldTouch ledger project subject).map Prod.snd := by
  unfold storedChannel heldTouch
  rw [Option.map_map]
  rfl

theorem overCap_lt {label : String} (h : isLabel label = true) : overCap < label := by
  unfold isLabel at h
  rw [String.lt_iff_toList_lt]
  cases hlabel : label.toList with
  | nil =>
      rw [hlabel] at h
      cases h
  | cons c rest =>
      rw [hlabel] at h
      simp only [Bool.and_eq_true] at h
      apply List.Lex.rel
      have hc := h.1.1
      unfold isLabelStart at hc
      rw [Bool.or_eq_true, Bool.and_eq_true, Bool.and_eq_true, decide_eq_true_eq,
        decide_eq_true_eq, decide_eq_true_eq, decide_eq_true_eq] at hc
      rcases hc with hc | hc
      · exact lt_of_lt_of_le (by decide) hc.1
      · exact lt_of_lt_of_le (by decide) hc.1

theorem TouchEvent.overCap_lt {salt subject : String} {event : RetentionEvent}
    (h : TouchEvent salt subject event) : overCap < (touchOf event).2 := by
  obtain ⟨channel, hchannel⟩ := Option.isSome_iff_exists.mp h.channel
  have hvalid := h.valid
  unfold checkEvent at hvalid
  simp only [bind_eq_ok_iff, require_eq_ok_iff, Bool.and_eq_true, hchannel, Option.all_some] at hvalid
  obtain ⟨_, _, hlabel, _⟩ := hvalid
  unfold touchOf
  rw [hchannel]
  exact RetentionLedger.overCap_lt hlabel

section
variable {settings : RetentionSettings} {project subject salt : String} {ledger : RetentionLedger}

/-- What a project at its cap keeps of a ledger, with the touch its subject holds now. -/
structure AtCap (settings : RetentionSettings) (project subject salt : String)
    (ledger : RetentionLedger) (room : Bool) (held : Option (ℕ × String))
    (now : RetentionLedger) : Prop where
  labels : now.labels = ledger.labels
  held : heldTouch now project subject = held
  room : hasRoom settings project subject now = room
  salt : ∀ row, now.projects.get project = some row → row.saltHash = salt

theorem canRegister_atCap {now : RetentionLedger} (hlabels : now.labels = ledger.labels)
    (hcap : settings.maxChannelsPerProject ≤ ledger.labelCount project .channel) (label : String) :
    canRegister settings project now label ↔ isRegistered ledger project .channel label := by
  unfold canRegister
  rw [registerLabel_isSome_iff]
  unfold isRegistered labelCount
  rw [hlabels]
  apply or_iff_left
  exact not_lt.mpr hcap

theorem recordTouch_labels_atCap {work : Work} (hlabels : work.ledger.labels = ledger.labels)
    (hcap : settings.maxChannelsPerProject ≤ ledger.labelCount project .channel)
    (timestamp : ℕ) (channel : String) :
    (recordTouch settings project subject timestamp channel work).ledger.labels = ledger.labels := by
  have hfull : settings.maxChannelsPerProject ≤ work.ledger.labelCount project .channel := by
    unfold labelCount at hcap ⊢
    rw [hlabels]
    exact hcap
  unfold recordTouch
  split_ifs
  · exact hlabels
  · unfold registerLabel
    split_ifs <;> exact hlabels

theorem hasRoom_pinSalt (now : RetentionLedger) :
    hasRoom settings project subject (pinSalt project salt now) =
      hasRoom settings project subject now := by
  have hcount : (pinSalt project salt now).userCount project = now.userCount project := by
    unfold userCount
    rw [pinSalt_get, if_pos rfl]
    cases now.projects.get project with
    | none => rfl
    | some row => rfl
  unfold hasRoom
  rw [(sameTables_pinSalt project salt now).knownSubject, hcount]

theorem hasRoom_of_active {now : RetentionLedger}
    (h : (now.users.get (project, subject)).isSome = true) :
    hasRoom settings project subject now = true := by
  unfold hasRoom
  rw [knownSubject_iff.mpr (Or.inl h), Bool.true_or]

/-- A subject is refused exactly when there is no room. -/
theorem admitted_eq_none_iff (now : RetentionLedger) :
    admitted settings project subject now = none ↔
      hasRoom settings project subject now = false := by
  unfold admitted admitSubject hasRoom
  split_ifs with hknown hfull
  · simp [hknown]
  · simp [hknown, hfull]
  · simp [not_le.mp hfull]

theorem admitted_eq_some {now after : RetentionLedger}
    (h : admitted settings project subject now = some after) :
    SameTables now after ∧ ∀ row, after.projects.get project = some row →
      ∃ old, now.projects.get project = some old ∧ row.saltHash = old.saltHash := by
  unfold admitted admitSubject at h
  split_ifs at h
  · cases h
    exact ⟨SameTables.refl now, fun row hrow => ⟨row, hrow, rfl⟩⟩
  · cases h
    refine ⟨sameTables_updateProject _ _ _, fun row hrow => ?_⟩
    rw [updateProject_get, if_pos rfl] at hrow
    obtain ⟨old, hold, rfl⟩ := Option.map_eq_some_iff.mp hrow
    exact ⟨old, hold, rfl⟩

/-- One arrival on the capped cell, when there is room for the subject. -/
def arrive (registered : String → Prop) [DecidablePred registered] (room : Bool)
    (held : Option (ℕ × String)) (touch : ℕ × String) : Option (ℕ × String) :=
  if room then FirstTouch.touch (FirstTouch.capped registered overCap) held touch else held

theorem AtCap.recordActivity {room : Bool} {held : Option (ℕ × String)} {now : RetentionLedger}
    (h : AtCap settings project subject salt ledger room held now)
    (hcap : settings.maxChannelsPerProject ≤ ledger.labelCount project .channel)
    {event : RetentionEvent} (hevent : TouchEvent salt subject event) (dropped : Dropped) :
    AtCap settings project subject salt ledger room
      (arrive (isRegistered ledger project .channel) room held (touchOf event))
      (RetentionLedger.recordActivity settings project event ⟨now, dropped⟩).ledger := by
  obtain ⟨channel, hchannel⟩ := Option.isSome_iff_exists.mp hevent.channel
  have htouch : touchOf event = (event.moment, channel) := by
    unfold touchOf
    rw [hchannel]
    rfl
  unfold RetentionLedger.recordActivity arrive
  rw [hevent.subject, hchannel, htouch]
  cases hadmitted : admitted settings project subject now with
  | none =>
      have hroom : room = false := h.room.symm.trans ((admitted_eq_none_iff now).mp hadmitted)
      rw [hroom] at h ⊢
      exact h
  | some after =>
      have hroom : room = true := by
        rw [← h.room]
        by_contra hfull
        rw [Bool.not_eq_true, ← admitted_eq_none_iff, hadmitted] at hfull
        cases hfull
      obtain ⟨htables, hsalts⟩ := admitted_eq_some hadmitted
      obtain ⟨hprojects, hlabels, hchannels, _⟩ :=
        recordUser_others project subject after event.day
      let active := recordUser project subject event.day after
      have hactiveLabels : active.labels = ledger.labels := by
        rw [hlabels, htables.labels, h.labels]
      have hactiveHeld : heldTouch active project subject = held := by
        rw [← h.held]
        unfold heldTouch
        rw [hchannels, htables.userChannels]
      obtain ⟨hprojects', husers', _⟩ := recordTouch_others settings project subject
        event.moment channel ⟨active, dropped⟩
      rw [hroom, if_pos rfl]
      refine ⟨recordTouch_labels_atCap hactiveLabels hcap _ _, ?_, ?_, fun row hrow => ?_⟩
      · rw [recordTouch_heldTouch, if_pos ⟨rfl, rfl⟩, hactiveHeld]
        apply FirstTouch.touch_congr
        unfold FirstTouch.capped
        exact if_congr (canRegister_atCap hactiveLabels hcap channel) rfl rfl
      · apply hasRoom_of_active
        rw [husers', recordUser_users, if_pos rfl]
        rfl
      · change (recordTouch settings project subject event.moment channel
          ⟨active, dropped⟩).ledger.projects.get project = some row at hrow
        rw [hprojects', hprojects] at hrow
        obtain ⟨old, hold, heq⟩ := hsalts row hrow
        rw [heq]
        exact h.salt old hold

theorem AtCap.ingestEvent {room : Bool} {held : Option (ℕ × String)} {now : RetentionLedger}
    (h : AtCap settings project subject salt ledger room held now)
    (hcap : settings.maxChannelsPerProject ≤ ledger.labelCount project .channel)
    {event : RetentionEvent} (hevent : TouchEvent salt subject event) (dropped : Dropped) :
    ∃ next, RetentionLedger.ingestEvent settings project ⟨now, dropped⟩ event = .ok next ∧
      AtCap settings project subject salt ledger room
        (arrive (isRegistered ledger project .channel) room held (touchOf event)) next.ledger := by
  have htables := sameTables_pinSalt project salt now
  have hrow : ∀ row, (pinSalt project salt now).projects.get project = some row →
      row.saltHash = salt := by
    intro row hrow
    rw [pinSalt_get, if_pos rfl] at hrow
    cases hold : now.projects.get project with
    | none =>
        rw [hold] at hrow
        cases hrow
        rfl
    | some old =>
        rw [hold] at hrow
        cases hrow
        exact h.salt _ hold
  have hpinned : AtCap settings project subject salt ledger room held (pinSalt project salt now) := by
    refine ⟨htables.labels.trans h.labels, ?_, ?_, hrow⟩
    · rw [← h.held]
      unfold heldTouch
      rw [htables.userChannels]
    · rw [hasRoom_pinSalt, h.room]
  refine ⟨record settings project event ⟨pinSalt project salt now, dropped⟩, ?_, ?_⟩
  · unfold RetentionLedger.ingestEvent
    rw [hevent.salt]
    simp only [bind_eq_ok_iff, require_eq_ok_iff, pure, Except.pure]
    refine ⟨(), hevent.valid, (), ?_, trivial⟩
    obtain ⟨row, hsome⟩ : ∃ row, (pinSalt project salt now).projects.get project = some row :=
      ⟨_, by rw [pinSalt_get, if_pos rfl]⟩
    rw [hsome, Option.any_some, hrow row hsome]
    simp
  · unfold record
    rw [hevent.activity]
    exact hpinned.recordActivity hcap hevent dropped

theorem AtCap.ingestEvents {room : Bool} {held : Option (ℕ × String)} {now : RetentionLedger}
    (h : AtCap settings project subject salt ledger room held now)
    (hcap : settings.maxChannelsPerProject ≤ ledger.labelCount project .channel)
    {events : List RetentionEvent} (hevents : ∀ event ∈ events, TouchEvent salt subject event)
    (dropped : Dropped) :
    ∃ next, RetentionLedger.ingestEvents settings project ⟨now, dropped⟩ events = .ok next ∧
      AtCap settings project subject salt ledger room
        ((events.map touchOf).foldl (arrive (isRegistered ledger project .channel) room) held)
        next.ledger := by
  induction events generalizing held now dropped with
  | nil => exact ⟨_, rfl, h⟩
  | cons event events ih =>
      obtain ⟨middle, hmiddle, hnext⟩ := h.ingestEvent hcap (hevents event List.mem_cons_self) dropped
      obtain ⟨next, hrest, hlast⟩ := ih hnext
        (fun other hother => hevents other (List.mem_cons_of_mem _ hother)) middle.dropped
      refine ⟨next, ?_, hlast⟩
      unfold RetentionLedger.ingestEvents
      rw [hmiddle]
      exact hrest

theorem AtCap.updateProject {room : Bool} {held : Option (ℕ × String)} {now : RetentionLedger}
    (h : AtCap settings project subject salt ledger room held now)
    {f : RetentionProject → RetentionProject}
    (hf : ∀ row, (f row).userCount = row.userCount ∧ (f row).saltHash = row.saltHash) :
    AtCap settings project subject salt ledger room held (now.updateProject project f) := by
  have htables := sameTables_updateProject project now f
  have hcount : (now.updateProject project f).userCount project = now.userCount project := by
    unfold userCount
    rw [updateProject_get, if_pos rfl]
    cases now.projects.get project with
    | none => rfl
    | some row => exact (hf row).1
  refine ⟨htables.labels.trans h.labels, ?_, ?_, fun row hrow => ?_⟩
  · rw [← h.held]
    unfold heldTouch
    rw [htables.userChannels]
  · rw [← h.room]
    unfold hasRoom
    rw [htables.knownSubject, hcount]
  · rw [updateProject_get, if_pos rfl] at hrow
    obtain ⟨old, hold, rfl⟩ := Option.map_eq_some_iff.mp hrow
    rw [(hf old).2]
    exact h.salt old hold

theorem AtCap.batch {room : Bool} {held : Option (ℕ × String)} {now : RetentionLedger}
    (h : AtCap settings project subject salt ledger room held now)
    (hcap : settings.maxChannelsPerProject ≤ ledger.labelCount project .channel)
    {events : List RetentionEvent} (hevents : ∀ event ∈ events, TouchEvent salt subject event) :
    AtCap settings project subject salt ledger room
      ((events.map touchOf).foldl (arrive (isRegistered ledger project .channel) room) held)
      (afterBatch settings now ⟨project, events⟩) := by
  obtain ⟨next, hnext, hlast⟩ := h.ingestEvents hcap hevents {}
  unfold afterBatch ingestBatch
  rw [hnext]
  show AtCap _ _ _ _ _ _ _ (addDropped project next.dropped next.ledger)
  unfold addDropped
  split_ifs
  · exact hlast.updateProject fun row => ⟨rfl, rfl⟩
  · exact hlast

theorem AtCap.receive {room : Bool} {held : Option (ℕ × String)} {now : RetentionLedger}
    (h : AtCap settings project subject salt ledger room held now)
    (hcap : settings.maxChannelsPerProject ≤ ledger.labelCount project .channel)
    {batches : List (List RetentionEvent)}
    (hevents : ∀ event ∈ batches.flatten, TouchEvent salt subject event) :
    AtCap settings project subject salt ledger room
      ((batches.flatten.map touchOf).foldl
        (arrive (isRegistered ledger project .channel) room) held)
      (RetentionLedger.receive settings now (batches.map (Batch.mk project))) := by
  induction batches generalizing held now with
  | nil => exact h
  | cons events batches ih =>
      rw [List.flatten_cons] at hevents
      have hnext := h.batch hcap fun event hevent => hevents event (List.mem_append_left _ hevent)
      have hlast := ih hnext fun event hevent => hevents event (List.mem_append_right _ hevent)
      rw [List.flatten_cons, List.map_append, List.foldl_append]
      exact hlast

theorem foldl_arrive_of_no_room {registered : String → Prop} [DecidablePred registered]
    (held : Option (ℕ × String)) (touches : List (ℕ × String)) :
    touches.foldl (arrive registered false) held = held := by
  induction touches with
  | nil => rfl
  | cons touch touches ih => exact ih

/-- Every order of the touches is that of some order of the activities. -/
theorem exists_perm_of_map {events : List RetentionEvent} {touches : List (ℕ × String)}
    (h : touches.Perm (events.map touchOf)) :
    ∃ order : List RetentionEvent, order.Perm events ∧ order.map touchOf = touches := by
  have hmap : List.Forall₂ (fun touch event => touch = touchOf event) (events.map touchOf) events := by
    rw [List.forall₂_map_left_iff, List.forall₂_same]
    exact fun _ _ => rfl
  obtain ⟨order, hforall, hperm⟩ := List.perm_comp_forall₂ h hmap
  refine ⟨order, hperm, ?_⟩
  clear h hmap hperm
  induction hforall with
  | nil => rfl
  | cons heq _ ih => rw [List.map_cons, heq, ih]

end

/-- At the channel cap, the order in which a subject's channel-bearing
activities arrive does not matter exactly when the subject is refused, or the
touches are settled: of the earliest ones that come before the stored touch,
all channels are registered or the lowest is not. -/
theorem first_touch_order_iff (settings : RetentionSettings) (project subject salt : String)
    (ledger : RetentionLedger) (events : List RetentionEvent)
    (hcap : settings.maxChannelsPerProject ≤ ledger.labelCount project .channel)
    (hsalt : ∀ row, ledger.projects.get project = some row → row.saltHash = salt)
    (hevents : ∀ event ∈ events, TouchEvent salt subject event) :
    (∀ batches : List (List RetentionEvent), batches.flatten.Perm events →
        storedChannel (receive settings ledger (batches.map (Batch.mk project))) project subject =
          storedChannel (receive settings ledger [⟨project, events⟩]) project subject) ↔
      hasRoom settings project subject ledger = false ∨
        FirstTouch.Settled (isRegistered ledger project .channel)
          (heldTouch ledger project subject) (events.map touchOf) := by
  have hstart : AtCap settings project subject salt ledger
      (hasRoom settings project subject ledger) (heldTouch ledger project subject) ledger :=
    ⟨rfl, rfl, rfl, hsalt⟩
  have hchannel : ∀ {batches : List (List RetentionEvent)}, batches.flatten.Perm events →
      storedChannel (receive settings ledger (batches.map (Batch.mk project))) project subject =
        ((batches.flatten.map touchOf).foldl (arrive (isRegistered ledger project .channel)
          (hasRoom settings project subject ledger)) (heldTouch ledger project subject)).map
            Prod.snd := by
    intro batches hperm
    rw [storedChannel_eq, (hstart.receive hcap fun event hevent =>
      hevents event (hperm.mem_iff.mp hevent)).held]
  have hall : storedChannel (receive settings ledger [⟨project, events⟩]) project subject =
      ((events.map touchOf).foldl (arrive (isRegistered ledger project .channel)
        (hasRoom settings project subject ledger)) (heldTouch ledger project subject)).map
          Prod.snd := by
    have hone := @hchannel [events] (by simp)
    rw [List.flatten_singleton] at hone
    exact hone
  cases hroom : hasRoom settings project subject ledger with
  | false =>
      rw [hroom] at hchannel hall
      constructor
      · intro _
        exact Or.inl rfl
      · intro _ batches hperm
        rw [hchannel hperm, hall, foldl_arrive_of_no_room, foldl_arrive_of_no_room]
  | true =>
      rw [hroom] at hchannel hall
      have hlow : ∀ touch ∈ events.map touchOf, overCap < touch.2 := by
        intro touch htouch
        obtain ⟨event, hevent, rfl⟩ := List.mem_map.mp htouch
        exact (hevents event hevent).overCap_lt
      rw [or_iff_right (by decide), ← FirstTouch.perm_iff hlow]
      constructor
      · intro hsame touches hperm
        obtain ⟨order, horder, rfl⟩ := exists_perm_of_map hperm
        have hone := hsame [order] (by simpa using horder)
        rw [hchannel (by simpa using horder), hall, List.flatten_singleton] at hone
        exact hone
      · intro hsame batches hperm
        rw [hchannel hperm, hall]
        exact hsame _ (hperm.map _)

/-! ## A tie at the cap -/

/-- One channel is registered, and that is the cap. -/
def cappedSettings : RetentionSettings := ⟨10, 1, 10⟩

def cappedActivity (subject channel : String) : RetentionEvent :=
  ⟨5, subject, "00000000000000ff", some channel, none⟩

def cappedLedger : RetentionLedger :=
  receive cappedSettings empty [⟨"shop", [cappedActivity "00000000000000aa" "mail"]⟩]

theorem cappedActivity_touch (channel : String) (h : isLabel channel = true) :
    TouchEvent "00000000000000ff" "00000000000000bb" (cappedActivity "00000000000000bb" channel) := by
  have hfixed : (isHash "00000000000000bb" && isHash "00000000000000ff" && isSafeInteger 5 &&
      decide ((0 : ℚ) ≤ 5)) = true := by decide +kernel
  refine ⟨?_, rfl, rfl, rfl, rfl⟩
  unfold checkEvent cappedActivity
  simp only [bind_eq_ok_iff, require_eq_ok_iff, Option.all_some, h]
  exact ⟨(), hfixed, rfl⟩

theorem first_touch_order_iff_ads :
    storedChannel (receive cappedSettings cappedLedger
        [⟨"shop", [cappedActivity "00000000000000bb" "mail"]⟩,
          ⟨"shop", [cappedActivity "00000000000000bb" "ads"]⟩]) "shop" "00000000000000bb" =
      storedChannel (receive cappedSettings cappedLedger
        [⟨"shop", [cappedActivity "00000000000000bb" "ads",
          cappedActivity "00000000000000bb" "mail"]⟩]) "shop" "00000000000000bb" := by
  have hiff := first_touch_order_iff cappedSettings "shop" "00000000000000bb" "00000000000000ff"
    cappedLedger [cappedActivity "00000000000000bb" "ads", cappedActivity "00000000000000bb" "mail"]
    (by decide +kernel)
    (by
      have hrow : cappedLedger.projects.get "shop" = some ⟨"00000000000000ff", 1, 0, 0⟩ := by
        decide +kernel
      rw [hrow]
      intro row h
      cases h
      rfl)
    (by
      intro event hevent
      simp only [List.mem_cons, List.not_mem_nil, or_false] at hevent
      rcases hevent with rfl | rfl
      · exact cappedActivity_touch "ads" (by decide)
      · exact cappedActivity_touch "mail" (by decide))
  refine hiff.mpr (Or.inr (Or.inr ⟨(5, "ads"), ?_, by decide +kernel, ?_⟩))
    [[cappedActivity "00000000000000bb" "mail"], [cappedActivity "00000000000000bb" "ads"]]
    (by decide +kernel)
  · have hheld : heldTouch cappedLedger "shop" "00000000000000bb" = none := by decide +kernel
    rw [hheld]
    refine ⟨by decide +kernel, FirstTouch.beats_none, by decide +kernel⟩
  · intro touch htouch
    have hmem := htouch.1
    revert hmem
    simp only [List.map_cons, List.map_nil, List.mem_cons, List.not_mem_nil, or_false]
    rintro (rfl | rfl)
    · decide +kernel
    · decide +kernel

/-- Two touches of one moment: the registered channel is stored when it arrives
first, the reserved one when the unregistered channel does. -/
theorem first_touch_depends_on_order :
    cappedSettings.maxChannelsPerProject ≤ cappedLedger.labelCount "shop" .channel ∧
      storedChannel (receive cappedSettings cappedLedger
        [⟨"shop", [cappedActivity "00000000000000bb" "mail",
          cappedActivity "00000000000000bb" "tiktok"]⟩]) "shop" "00000000000000bb" = some "mail" ∧
      storedChannel (receive cappedSettings cappedLedger
        [⟨"shop", [cappedActivity "00000000000000bb" "tiktok",
          cappedActivity "00000000000000bb" "mail"]⟩]) "shop" "00000000000000bb" =
            some "(over_cap)" := by
  decide +kernel

end Wardx.RetentionLedger
