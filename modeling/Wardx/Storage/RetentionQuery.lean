import Mathlib.Data.Rat.Floor
import Wardx.Lib.Relation
import Wardx.Storage.RetentionCapacity

/-!
# Cohorts of a retention ledger

The cohort query joins the users of a project with their first-touch channel and
with their conversion to one goal, keeps the cohorts of the dates, and counts
each cohort, or each channel of each cohort. A cohort keeps its day number here;
its date text is rendered from it.
-/
namespace Wardx.RetentionLedger

open Lib

/-! ## Dates -/

def isLeapYear (year : ℕ) : Bool := year % 4 = 0 && (year % 100 ≠ 0 || year % 400 = 0)

def daysInMonth (year month : ℕ) : ℕ :=
  if month = 2 then (if isLeapYear year then 29 else 28)
  else if month = 4 || month = 6 || month = 9 || month = 11 then 30
  else 31

/-- The days from the first of January of the year 0 to that of the year. -/
def daysBeforeYear (year : ℕ) : ℕ :=
  365 * year + (year + 3) / 4 - (year + 99) / 100 + (year + 399) / 400

def daysBeforeMonth (year : ℕ) : ℕ → ℕ
  | 0 => 0
  | month + 1 => daysBeforeMonth year month + if month = 0 then 0 else daysInMonth year month

def digitsValue (digits : List Char) : ℕ :=
  digits.foldl (fun value digit => 10 * value + (digit.toNat - '0'.toNat)) 0

/-- `dateDay`: the day number of a `YYYY-MM-DD` date, counted from 1970. -/
def dateDay (value : String) : Except String ℤ :=
  let chars := value.toList
  let digits := [0, 1, 2, 3, 5, 6, 8, 9].filterMap fun i => chars[i]?
  if chars.length ≠ 10 || !digits.all Char.isDigit || chars[4]? ≠ some '-' || chars[7]? ≠ some '-' then
    .error "cohort dates must be YYYY-MM-DD"
  else
    let year := digitsValue (digits.take 4)
    let month := digitsValue ((digits.drop 4).take 2)
    let day := digitsValue (digits.drop 6)
    if 1 ≤ month ∧ month ≤ 12 ∧ 1 ≤ day ∧ day ≤ daysInMonth year month then
      .ok ((daysBeforeYear year + daysBeforeMonth year month + day - 1 : ℕ) - 719528)
    else .error "invalid cohort date"

example : dateDay "1970-01-01" = .ok 0 ∧ dateDay "2024-03-01" = .ok 19783 ∧
    dateDay "2023-02-29" = .error "invalid cohort date" := by decide +kernel

/-! ## The cohort query -/

/-- A user's row with what the two joins found. -/
structure JoinedUser where
  user : (String × String) × RetentionUser
  channel : Option ((String × String) × UserChannel)
  conversion : Option ((String × String × String) × RetentionConversion)

namespace JoinedUser

def cohortDay (row : JoinedUser) : ℕ := row.user.2.cohortDay

/-- `uc.channel`. -/
def channelLabel (row : JoinedUser) : Option String := row.channel.map fun entry => entry.2.channel

/-- `(u.activity_days & 2^day) != 0`. -/
def returned (row : JoinedUser) (day : ℕ) : Bool := row.user.2.activityDays &&& 2 ^ day ≠ 0

/-- `ifnull(c.conversion_day <= u.cohort_day + day, 0)`. -/
def converted (row : JoinedUser) (day : ℕ) : Bool :=
  row.conversion.any fun entry => entry.2.conversionDay ≤ row.cohortDay + day

/-- `ifnull(c.duplicates, 0)`. -/
def duplicates (row : JoinedUser) : ℕ := (row.conversion.map fun entry => entry.2.duplicates).getD 0

end JoinedUser

/-- The parameters of the query. -/
structure CohortParams where
  project : String
  first : ℤ
  last : ℤ
  goal : Option String
  channel : Option String

/-- `FROM` and `LEFT JOIN`. -/
def joinedUsers (ledger : RetentionLedger) (goal : Option String) : List JoinedUser :=
  let channels := leftJoin (fun (user : (String × String) × RetentionUser)
    (entry : (String × String) × UserChannel) => entry.1 = user.1) ledger.users.entries
    ledger.userChannels.entries
  let conversions := leftJoin (fun (row : ((String × String) × RetentionUser) ×
      Option ((String × String) × UserChannel))
    (entry : (String × String × String) × RetentionConversion) =>
      entry.1.1 = row.1.1.1 && entry.1.2.1 = row.1.1.2 && some entry.1.2.2 = goal) channels
    ledger.conversions.entries
  conversions.map fun row => ⟨row.1.1, row.1.2, row.2⟩

/-- `WHERE`. -/
def inCohorts (params : CohortParams) (row : JoinedUser) : Bool :=
  row.user.1.1 = params.project && params.first ≤ row.cohortDay && row.cohortDay < params.last &&
    (params.channel = none || row.channelLabel = params.channel)

structure CohortRow where
  cohortDay : ℕ
  channel : Option String
  users : ℕ
  /-- `d1`, `d7` and `d30`, by day. -/
  returned : ℕ → ℕ
  /-- `c1`, `c7` and `c30`, by day. -/
  converted : ℕ → ℕ
  duplicates : ℕ

/-- A null channel comes first. -/
def channelLe : Option String → Option String → Bool
  | none, _ => true
  | some _, none => false
  | some a, some b => a ≤ b

/-- The order of the rows. -/
def cohortLe (a b : ℕ × Option String) : Prop :=
  a.1 < b.1 ∨ a.1 = b.1 ∧ channelLe a.2 b.2 = true

instance : DecidableRel cohortLe := fun a b =>
  inferInstanceAs (Decidable (a.1 < b.1 ∨ a.1 = b.1 ∧ channelLe a.2 b.2 = true))

def groupOf (byChannel : Bool) (row : JoinedUser) : ℕ × Option String :=
  (row.cohortDay, if byChannel then row.channelLabel else none)

/-- The columns of a group. -/
def cohortRow (group : (ℕ × Option String) × List JoinedUser) : CohortRow where
  cohortDay := group.1.1
  channel := group.1.2
  users := group.2.length
  returned day := (group.2.map fun row => (row.returned day).toNat).sum
  converted day := (group.2.map fun row => (row.converted day).toNat).sum
  duplicates := (group.2.map JoinedUser.duplicates).sum

/-- `cohortQuery`. -/
def cohortQuery (byChannel : Bool) (ledger : RetentionLedger) (params : CohortParams) :
    List CohortRow :=
  (groups cohortLe (groupOf byChannel)
    ((ledger.joinedUsers params.goal).filter (inCohorts params))).map cohortRow

/-! ## The answer -/

structure RetentionQuerySettings extends RetentionSettings where
  maxQueryDays : ℕ

structure CohortFilter where
  fromDate : String
  toDate : String
  goal : Option String
  byChannel : Option Bool
  channel : Option String

structure Horizon where
  day : ℕ
  mature : Bool
  users : Option ℕ
  rate : Option ℚ
deriving DecidableEq

structure Cohort where
  cohortDay : ℕ
  channel : Option (Option String)
  users : ℕ
  returns : List Horizon
  conversions : Option (List Horizon)
  duplicateConversions : Option ℕ
deriving DecidableEq

structure RetentionCapacity where
  users : ℕ
  maxUsers : ℕ
  channels : ℕ
  maxChannels : ℕ
  goals : ℕ
  maxGoals : ℕ
  droppedActivity : ℕ
  droppedConversions : ℕ
deriving DecidableEq

structure RetentionAnswer where
  project : String
  fromDate : String
  toDate : String
  timezone : String := "UTC"
  mode : String := "on_day"
  exact : Bool := true
  basis : String := "received_activity"
  attribution : Option String
  goal : Option String
  conversionMode : Option String
  orphanConversions : Option ℕ
  capacity : RetentionCapacity
  cohorts : List Cohort
deriving DecidableEq

def returnDays : List ℕ := [1, 7, 30]

/-- `horizon`. -/
def horizon (today : ℤ) (cohortDay users : ℕ) (counted : ℕ → ℕ) : List Horizon :=
  returnDays.map fun (day : ℕ) =>
    let mature := decide ((cohortDay : ℤ) + day < today)
    ⟨day, mature, if mature then some (counted day) else none,
      if mature then some ((counted day : ℚ) / users) else none⟩

/-- Conversions of the dates whose subject has no user's row. -/
def orphanConversions (ledger : RetentionLedger) (project goal : String) (first last : ℤ) : ℕ :=
  (ledger.conversions.entries.filter fun entry =>
    entry.1.1 = project && entry.1.2.2 = goal && first ≤ entry.2.conversionDay &&
      entry.2.conversionDay < last && (ledger.users.get (entry.1.1, entry.1.2.1)).isNone).length

/-- `_capacity`. -/
def capacityOf (settings : RetentionSettings) (ledger : RetentionLedger) (project : String) :
    RetentionCapacity where
  users := ledger.userCount project
  maxUsers := settings.maxUsersPerProject
  channels := ledger.labelCount project .channel
  maxChannels := settings.maxChannelsPerProject
  goals := ledger.labelCount project .goal
  maxGoals := settings.maxGoalsPerProject
  droppedActivity := (ledger.storedDrops project).1
  droppedConversions := (ledger.storedDrops project).2

def labelPattern : String := "/^[a-z0-9][a-z0-9._-]\x7b0,63\x7d$/"

/-- `optionalLabel`. -/
def optionalLabel (value : Option String) (name : String) (reserved : Option String) :
    Except String Unit :=
  require (value.all fun label => some label = reserved || isLabel label)
    (name ++ " must match " ++ labelPattern)

/-- A row of the answer. -/
def cohortOf (grouped : Bool) (goal : Option String) (today : ℤ) (row : CohortRow) : Cohort where
  cohortDay := row.cohortDay
  channel := if grouped then some row.channel else none
  users := row.users
  returns := horizon today row.cohortDay row.users row.returned
  conversions := goal.map fun _ => horizon today row.cohortDay row.users row.converted
  duplicateConversions := goal.map fun _ => row.duplicates

/-- `query`. -/
def query (settings : RetentionQuerySettings) (project : String) (filter : CohortFilter)
    (now : ℚ) (ledger : RetentionLedger) : Except String RetentionAnswer := do
  let first ← dateDay filter.fromDate
  let last ← dateDay filter.toDate
  require (first < last && last - first ≤ settings.maxQueryDays)
    ("cohort range must span 1 to " ++ toString settings.maxQueryDays ++ " days; to is exclusive")
  optionalLabel filter.goal "goal" none
  optionalLabel filter.channel "channel" (some overCap)
  let grouped := filter.byChannel = some true || filter.channel.isSome
  let today := ⌊now / dayMs⌋
  let rows := cohortQuery grouped ledger ⟨project, first, last, filter.goal, filter.channel⟩
  pure {
    project := project
    fromDate := filter.fromDate
    toDate := filter.toDate
    attribution := if grouped then some "first_touch" else none
    goal := filter.goal
    conversionMode := filter.goal.map fun _ => "by_day"
    orphanConversions := filter.goal.map fun goal =>
      ledger.orphanConversions project goal first last
    capacity := capacityOf settings.toRetentionSettings ledger project
    cohorts := rows.map (cohortOf grouped filter.goal today) }

end Wardx.RetentionLedger
