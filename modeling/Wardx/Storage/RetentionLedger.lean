import Wardx.Storage.ExperimentLedger

/-!
# The retention ledger

Per project: the pinned salt with the number of admitted subjects, one row per
active subject with its cohort day and the mask of its active days, the labels
registered under the channel and the goal caps, the first touch of a subject,
and one conversion per subject and goal.

A batch is one transaction. Each event is checked, then recorded, and the first
event that fails takes the batch back. The project's row is read once by the
code and its count kept in step with the stored one, so the model reads it from
the store each time. Subjects are decoded from sixteen checked hexadecimal
digits, an injective map, so rows are keyed by the digits.
-/
namespace Wardx

open Lib ExperimentLedger

/-- An activity, or a conversion when it names a goal. -/
structure RetentionEvent where
  timestamp : ℚ
  subject : String
  salt : String
  channel : Option String
  goal : Option String
deriving DecidableEq, Repr

inductive LabelKind
  | channel
  | goal
deriving DecidableEq, Repr

structure RetentionProject where
  saltHash : String
  userCount : ℕ
  droppedActivity : ℕ
  droppedConversions : ℕ
deriving DecidableEq, Repr

structure RetentionUser where
  cohortDay : ℕ
  activityDays : ℕ
deriving DecidableEq, Repr

structure UserChannel where
  channel : String
  touchedAt : ℕ
deriving DecidableEq, Repr

structure RetentionConversion where
  conversionDay : ℕ
  duplicates : ℕ
deriving DecidableEq, Repr

structure RetentionLedger where
  projects : Table String RetentionProject
  users : Table (String × String) RetentionUser
  labels : Table (String × LabelKind × String) Unit
  userChannels : Table (String × String) UserChannel
  conversions : Table (String × String × String) RetentionConversion
deriving DecidableEq, Repr

structure RetentionSettings where
  maxUsersPerProject : ℕ
  maxChannelsPerProject : ℕ
  maxGoalsPerProject : ℕ
deriving DecidableEq, Repr

/-- What a batch left out at the caps. -/
structure Dropped where
  activity : ℕ := 0
  conversions : ℕ := 0
  channels : ℕ := 0
deriving DecidableEq, Repr

namespace RetentionLedger

def empty : RetentionLedger :=
  ⟨Table.empty, Table.empty, Table.empty, Table.empty, Table.empty⟩

/-! ## Checks -/

def dayMs : ℕ := 86400000

def overCap : String := "(over_cap)"

def isLabelStart (c : Char) : Bool := ('a' ≤ c && c ≤ 'z') || ('0' ≤ c && c ≤ '9')

/-- The pattern of one to 64 characters of a label. -/
def isLabel (value : String) : Bool :=
  match value.toList with
  | [] => false
  | c :: rest =>
      isLabelStart c && rest.length ≤ 63 &&
        rest.all fun d => isLabelStart d || d = '.' || d = '_' || d = '-'

def isSafeInteger (value : ℚ) : Bool :=
  value.den = 1 && -9007199254740991 ≤ value && value ≤ 9007199254740991

/-- The checks of one event. -/
def checkEvent (event : RetentionEvent) : Except String Unit := do
  require (isHash event.subject && isHash event.salt && isSafeInteger event.timestamp &&
    0 ≤ event.timestamp) "invalid retention activity"
  require (event.channel.all isLabel && event.goal.all isLabel) "invalid retention label"

end RetentionLedger

namespace RetentionEvent

/-- The checked timestamp. -/
def moment (event : RetentionEvent) : ℕ := event.timestamp.num.toNat

def day (event : RetentionEvent) : ℕ := event.moment / RetentionLedger.dayMs

end RetentionEvent

namespace RetentionLedger

/-! ## Rows -/

def userCount (ledger : RetentionLedger) (project : String) : ℕ :=
  ((ledger.projects.get project).map RetentionProject.userCount).getD 0

/-- An update of a project's row, if there is one. -/
def updateProject (project : String) (f : RetentionProject → RetentionProject)
    (ledger : RetentionLedger) : RetentionLedger :=
  match ledger.projects.get project with
  | none => ledger
  | some row => { ledger with projects := ledger.projects.put project (f row) }

/-- Some conversion of the subject is stored. -/
def anyConversion (ledger : RetentionLedger) (project subject : String) : Bool :=
  ledger.conversions.keys.any fun key => key.1 = project && key.2.1 = subject

def knownSubject (ledger : RetentionLedger) (project subject : String) : Bool :=
  (ledger.users.get (project, subject)).isSome || ledger.anyConversion project subject

def labelCount (ledger : RetentionLedger) (project : String) (kind : LabelKind) : ℕ :=
  (ledger.labels.keys.filter fun key => key.1 = project && key.2.1 = kind).length

/-- `_admit`. -/
def admitSubject (settings : RetentionSettings) (project : String) (ledger : RetentionLedger) :
    Option RetentionLedger :=
  if settings.maxUsersPerProject ≤ ledger.userCount project then none
  else some (ledger.updateProject project fun row => { row with userCount := row.userCount + 1 })

/-- `_registerLabel`. -/
def registerLabel (project : String) (kind : LabelKind) (label : String) (limit : ℕ)
    (ledger : RetentionLedger) : Option RetentionLedger :=
  if (ledger.labels.get (project, kind, label)).isSome then some ledger
  else if limit ≤ ledger.labelCount project kind then none
  else some { ledger with labels := ledger.labels.put (project, kind, label) () }

/-- The stored ledger and the batch's drop counts. -/
structure Work where
  ledger : RetentionLedger
  dropped : Dropped
deriving DecidableEq, Repr

/-! ## Activities -/

/-- The row of a subject after activity on a day. Every day through D30 is kept
so that earlier, delayed activity can correct the cohort. -/
def activeUser (current : Option RetentionUser) (day : ℕ) : RetentionUser :=
  match current with
  | none => ⟨day, 1⟩
  | some user =>
      let cohort := min day user.cohortDay
      let shift := user.cohortDay - cohort
      let activity := if 30 < shift then 0 else (user.activityDays <<< shift) &&& 0x7fffffff
      let offset := day - cohort
      ⟨cohort, if offset ≤ 30 then activity ||| 2 ^ offset else activity⟩

def recordUser (project subject : String) (day : ℕ) (ledger : RetentionLedger) : RetentionLedger :=
  let current := ledger.users.get (project, subject)
  let next := activeUser current day
  if current = some next then ledger
  else { ledger with users := ledger.users.put (project, subject) next }

/-- The stored touch stays: it is earlier, or of the same time and no higher label. -/
def keepsTouch (touch : Option UserChannel) (timestamp : ℕ) (channel : String) : Bool :=
  touch.any fun touch =>
    touch.touchedAt < timestamp || (touch.touchedAt = timestamp && touch.channel ≤ channel)

/-- First touch: the earliest channel-bearing activity wins, ties by label. -/
def recordTouch (settings : RetentionSettings) (project subject : String) (timestamp : ℕ)
    (channel : String) (work : Work) : Work :=
  if keepsTouch (work.ledger.userChannels.get (project, subject)) timestamp channel then work
  else
    let put (label : String) (ledger : RetentionLedger) : RetentionLedger :=
      { ledger with
        userChannels := ledger.userChannels.put (project, subject) ⟨label, timestamp⟩ }
    match registerLabel project .channel channel settings.maxChannelsPerProject work.ledger with
    | some ledger => { work with ledger := put channel ledger }
    | none =>
        ⟨put overCap work.ledger, { work.dropped with channels := work.dropped.channels + 1 }⟩

/-- The subject is counted, or known already; `none` when it is refused at the cap. -/
def admitted (settings : RetentionSettings) (project subject : String) (ledger : RetentionLedger) :
    Option RetentionLedger :=
  if ledger.knownSubject project subject then some ledger else admitSubject settings project ledger

/-- `_activity`. -/
def recordActivity (settings : RetentionSettings) (project : String) (event : RetentionEvent)
    (work : Work) : Work :=
  match admitted settings project event.subject work.ledger with
  | none => { work with dropped := { work.dropped with activity := work.dropped.activity + 1 } }
  | some ledger =>
      let next := { work with ledger := recordUser project event.subject event.day ledger }
      match event.channel with
      | none => next
      | some channel => recordTouch settings project event.subject event.moment channel next

/-! ## Conversions -/

/-- One conversion per subject and goal: repeats keep the earliest day and are counted. -/
def repeatedConversion (current : Option RetentionConversion) (day : ℕ) : RetentionConversion :=
  match current with
  | some row => ⟨min row.conversionDay day, row.duplicates + 1⟩
  | none => ⟨day, 0⟩

def recordConversionDay (project subject goal : String) (day : ℕ) (ledger : RetentionLedger) :
    RetentionLedger :=
  let row := repeatedConversion (ledger.conversions.get (project, subject, goal)) day
  { ledger with conversions := ledger.conversions.put (project, subject, goal) row }

/-- `_conversion`. The goal is registered before the subject is admitted. -/
def recordConversion (settings : RetentionSettings) (project goal : String)
    (event : RetentionEvent) (work : Work) : Work :=
  let known := work.ledger.knownSubject project event.subject
  let refused :=
    { work with dropped := { work.dropped with conversions := work.dropped.conversions + 1 } }
  if !known && settings.maxUsersPerProject ≤ work.ledger.userCount project then refused
  else match registerLabel project .goal goal settings.maxGoalsPerProject work.ledger with
    | none => refused
    | some ledger =>
        let counted := if known then ledger else (admitSubject settings project ledger).getD ledger
        { work with ledger := recordConversionDay project event.subject goal event.day counted }

/-! ## Batches -/

/-- The first event of a project pins its salt. -/
def pinSalt (project salt : String) (ledger : RetentionLedger) : RetentionLedger :=
  if (ledger.projects.get project).isSome then ledger
  else { ledger with projects := ledger.projects.put project ⟨salt, 0, 0, 0⟩ }

/-- A checked event of the pinned salt. -/
def record (settings : RetentionSettings) (project : String) (event : RetentionEvent)
    (work : Work) : Work :=
  match event.goal with
  | some goal => recordConversion settings project goal event work
  | none => recordActivity settings project event work

/-- One turn of the loop. -/
def ingestEvent (settings : RetentionSettings) (project : String) (work : Work)
    (event : RetentionEvent) : Except String Work := do
  checkEvent event
  let ledger := pinSalt project event.salt work.ledger
  require ((ledger.projects.get project).any fun row => row.saltHash = event.salt)
    "retention PrivacySalt must remain stable across project clients"
  pure (record settings project event { work with ledger := ledger })

/-- The drops of a batch are added to the project's row. -/
def addDropped (project : String) (dropped : Dropped) (ledger : RetentionLedger) :
    RetentionLedger :=
  if 0 < dropped.activity ∨ 0 < dropped.conversions then
    ledger.updateProject project fun row =>
      { row with
        droppedActivity := row.droppedActivity + dropped.activity
        droppedConversions := row.droppedConversions + dropped.conversions }
  else ledger

def ingestEvents (settings : RetentionSettings) (project : String) :
    Work → List RetentionEvent → Except String Work
  | work, [] => .ok work
  | work, event :: events => do
      let next ← ingestEvent settings project work event
      ingestEvents settings project next events

/-- `ingestBatch`. -/
def ingestBatch (settings : RetentionSettings) (project : String) (events : List RetentionEvent)
    (ledger : RetentionLedger) : Except String Work := do
  let work ← ingestEvents settings project ⟨ledger, {}⟩ events
  pure { work with ledger := addDropped project work.dropped work.ledger }

structure Batch where
  project : String
  events : List RetentionEvent
deriving DecidableEq, Repr

/-- The ledger after a batch; one that throws leaves it as it was. -/
def afterBatch (settings : RetentionSettings) (ledger : RetentionLedger) (batch : Batch) :
    RetentionLedger :=
  match ingestBatch settings batch.project batch.events ledger with
  | .ok work => work.ledger
  | .error _ => ledger

/-- Batches in order of arrival. -/
def receive (settings : RetentionSettings) (ledger : RetentionLedger) (batches : List Batch) :
    RetentionLedger :=
  batches.foldl (afterBatch settings) ledger

/-- What a project was sent. -/
def eventsOf (project : String) (batches : List Batch) : List RetentionEvent :=
  (batches.filter fun batch => batch.project = project).flatMap Batch.events

end RetentionLedger
end Wardx
