import Wardx.Storage.RetentionQuery

/-!
# Cohorts split by channel

Each user is joined once, so a cohort counts its users, and the channels of a
cohort are the groups that the cohort puts together. Every column of the
unsplit row is then the sum of the channels' column.
-/
namespace Wardx.RetentionLedger

open Lib

/-! ## Joined users -/

/-- The primary keys let every user be joined once. -/
theorem joinedUsers_eq (ledger : RetentionLedger) (goal : Option String) :
    ledger.joinedUsers goal = ledger.users.entries.map fun user =>
      ⟨user, ledger.userChannels.entries.find? fun entry => entry.1 = user.1,
        ledger.conversions.entries.find? fun entry =>
          entry.1.1 = user.1.1 && entry.1.2.1 = user.1.2 && some entry.1.2.2 = goal⟩ := by
  unfold joinedUsers
  dsimp only
  rw [leftJoin_eq_map, leftJoin_eq_map, List.map_map, List.map_map]
  · rfl
  · intro user _
    apply length_filter_le_one ledger.userChannels.nodup user.1
    intro entry _ hentry
    exact of_decide_eq_true hentry
  · intro row _
    cases goal with
    | none =>
        rw [List.filter_eq_nil_iff.mpr]
        · exact Nat.zero_le 1
        · simp
    | some goal =>
        apply length_filter_le_one ledger.conversions.nodup (row.1.1.1, row.1.1.2, goal)
        intro entry _ hentry
        simp only [Bool.and_eq_true, decide_eq_true_eq, Option.some.injEq] at hentry
        exact Prod.ext hentry.1.1 (Prod.ext hentry.1.2 hentry.2)

/-! ## Rows of the query -/

section

variable {ledger : RetentionLedger} {params : CohortParams} {byChannel : Bool}

/-- The users of the query. -/
def cohortUsers (ledger : RetentionLedger) (params : CohortParams) : List JoinedUser :=
  (ledger.joinedUsers params.goal).filter (inCohorts params)

def onDay (ledger : RetentionLedger) (params : CohortParams) (day : ℕ) : List JoinedUser :=
  (ledger.cohortUsers params).filter fun row => row.cohortDay = day

theorem group_unsplit {group : (ℕ × Option String) × List JoinedUser}
    (h : group ∈ groups cohortLe (groupOf false) (ledger.cohortUsers params)) :
    group.1.2 = none ∧ group.2 = ledger.onDay params group.1.1 := by
  obtain ⟨⟨row, -, hkey⟩, hrows⟩ := mem_groups.mp h
  have hnone : group.1.2 = none := by
    rw [← hkey]
    rfl
  refine ⟨hnone, ?_⟩
  rw [hrows, onDay]
  apply List.filter_congr
  intro other _
  rw [decide_eq_decide, Prod.ext_iff, hnone]
  simp [groupOf]

/-- The channels of a cohort add up to its users' total. -/
theorem sum_channels (measure : JoinedUser → ℕ) (day : ℕ) :
    (((groups cohortLe (groupOf true) (ledger.cohortUsers params)).filter
      fun group => group.1.1 = day).map fun group => (group.2.map measure).sum).sum =
      ((ledger.onDay params day).map measure).sum :=
  sum_groups (ledger.cohortUsers params) measure fun (key : ℕ × Option String) =>
    decide (key.1 = day)

/-- A column of the unsplit rows is the sum of that of the channels. -/
theorem column_split {column : CohortRow → ℕ} {measure : JoinedUser → ℕ}
    (hcolumn : ∀ group, column (cohortRow group) = (group.2.map measure).sum) {row : CohortRow}
    (h : row ∈ cohortQuery false ledger params) :
    column row = (((cohortQuery true ledger params).filter
      fun part => part.cohortDay = row.cohortDay).map column).sum := by
  obtain ⟨group, hgroup, rfl⟩ := List.mem_map.mp h
  have hday := (group_unsplit hgroup).2
  rw [hcolumn, hday, ← sum_channels, cohortQuery, List.filter_map, List.map_map]
  congr 1
  apply List.map_congr_left
  intro part _
  exact (hcolumn part).symm

theorem days_unsplit : ((cohortQuery false ledger params).map CohortRow.cohortDay).Nodup := by
  have hkeys : ((cohortQuery false ledger params).map fun row => (row.cohortDay, row.channel)) =
      (groups cohortLe (groupOf false) (ledger.cohortUsers params)).map Prod.fst := by
    rw [cohortQuery, List.map_map]
    rfl
  have hnodup : ((cohortQuery false ledger params).map fun row =>
      (row.cohortDay, row.channel)).Nodup := by
    rw [hkeys]
    exact nodup_keys_groups
  rw [List.Nodup, List.pairwise_map] at hnodup ⊢
  apply hnodup.imp_of_mem
  intro a b ha hb hne hday
  apply hne
  obtain ⟨ga, hga, rfl⟩ := List.mem_map.mp ha
  obtain ⟨gb, hgb, rfl⟩ := List.mem_map.mp hb
  exact Prod.ext hday ((group_unsplit hga).1.trans (group_unsplit hgb).1.symm)

theorem keys_split :
    ((cohortQuery byChannel ledger params).map fun row => (row.cohortDay, row.channel)).Nodup := by
  have hkeys : ((cohortQuery byChannel ledger params).map fun row => (row.cohortDay, row.channel)) =
      (groups cohortLe (groupOf byChannel) (ledger.cohortUsers params)).map Prod.fst := by
    rw [cohortQuery, List.map_map]
    rfl
  rw [hkeys]
  exact nodup_keys_groups

/-- A cohort has rows exactly when it has users. -/
theorem mem_days {day : ℕ} :
    day ∈ (cohortQuery byChannel ledger params).map CohortRow.cohortDay ↔
      ∃ row ∈ ledger.cohortUsers params, row.cohortDay = day := by
  rw [cohortQuery, List.map_map, List.mem_map]
  constructor
  · rintro ⟨group, hgroup, rfl⟩
    obtain ⟨⟨row, hrow, hkey⟩, -⟩ := mem_groups.mp hgroup
    exact ⟨row, hrow, congrArg Prod.fst hkey⟩
  · rintro ⟨row, hrow, rfl⟩
    have hkey : groupOf byChannel row ∈
        (groups cohortLe (groupOf byChannel) (ledger.cohortUsers params)).map Prod.fst :=
      mem_keys_groups.mpr ⟨row, hrow, rfl⟩
    obtain ⟨group, hgroup, hfirst⟩ := List.mem_map.mp hkey
    exact ⟨group, hgroup, congrArg Prod.fst hfirst⟩

/-- An unsplit row counts the project's users of the cohort. -/
theorem users_unsplit {row : CohortRow} (hchannel : params.channel = none)
    (h : row ∈ cohortQuery false ledger params) :
    row.users = (ledger.users.entries.filter fun user =>
      user.1.1 = params.project && user.2.cohortDay = row.cohortDay).length := by
  obtain ⟨group, hgroup, rfl⟩ := List.mem_map.mp h
  have hmem : ∃ user ∈ ledger.cohortUsers params, user.cohortDay = group.1.1 := by
    obtain ⟨⟨user, huser, hkey⟩, -⟩ := mem_groups.mp hgroup
    exact ⟨user, huser, congrArg Prod.fst hkey⟩
  obtain ⟨user, huser, hday⟩ := hmem
  have hin : params.first ≤ (group.1.1 : ℤ) ∧ (group.1.1 : ℤ) < params.last := by
    have hcohort := (List.mem_filter.mp huser).2
    simp only [inCohorts, Bool.and_eq_true, decide_eq_true_eq, hday] at hcohort
    exact ⟨hcohort.1.1.2, hcohort.1.2⟩
  show group.2.length = _
  rw [(group_unsplit hgroup).2, onDay, cohortUsers, joinedUsers_eq, List.filter_filter,
    List.filter_map, List.length_map]
  congr 1
  apply List.filter_congr
  intro entry _
  rw [Bool.eq_iff_iff]
  simp only [Function.comp_apply, inCohorts, Bool.and_eq_true, Bool.or_eq_true, decide_eq_true_eq]
  simp only [JoinedUser.cohortDay, hchannel, cohortRow]
  constructor
  · rintro ⟨hentry, ⟨⟨hproject, -⟩, -⟩, -⟩
    exact ⟨hproject, hentry⟩
  · rintro ⟨hproject, hentry⟩
    rw [hentry]
    exact ⟨rfl, ⟨⟨hproject, hin.1⟩, hin.2⟩, Or.inl trivial⟩

/-! ## Bounds within a row -/

theorem sum_toNat_le {p : JoinedUser → Bool} (rows : List JoinedUser) :
    (rows.map fun row => (p row).toNat).sum ≤ rows.length := by
  induction rows with
  | nil => exact le_refl 0
  | cons row rows ih =>
      have hone := Bool.toNat_le (p row)
      rw [List.map_cons, List.sum_cons, List.length_cons]
      omega

theorem sum_toNat_mono {p q : JoinedUser → Bool} (h : ∀ row, p row = true → q row = true)
    (rows : List JoinedUser) :
    (rows.map fun row => (p row).toNat).sum ≤ (rows.map fun row => (q row).toNat).sum := by
  apply List.sum_le_sum
  intro row _
  cases hp : p row with
  | false => exact Nat.zero_le _
  | true => rw [h row hp]

theorem converted_mono {row : JoinedUser} {day later : ℕ} (hday : day ≤ later)
    (h : row.converted day = true) : row.converted later = true := by
  unfold JoinedUser.converted at h ⊢
  cases hconversion : row.conversion with
  | none => rw [hconversion] at h; cases h
  | some entry =>
      rw [hconversion, Option.any_some, decide_eq_true_eq] at h
      rw [Option.any_some, decide_eq_true_eq]
      omega

theorem row_bounds {row : CohortRow} (h : row ∈ cohortQuery byChannel ledger params) :
    (∀ day, row.returned day ≤ row.users) ∧ (∀ day, row.converted day ≤ row.users) ∧
      ∀ day later, day ≤ later → row.converted day ≤ row.converted later := by
  obtain ⟨group, -, rfl⟩ := List.mem_map.mp h
  refine ⟨fun day => sum_toNat_le group.2, fun day => sum_toNat_le group.2, ?_⟩
  intro day later hday
  exact sum_toNat_mono (fun row => converted_mono hday) group.2

end

/-! ## Cohorts of the answer -/

/-- What a horizon list reports for a day, nothing while it is pending. -/
def usersOn (horizons : List Horizon) (day : ℕ) : ℕ :=
  ((horizons.find? fun horizon => horizon.day = day).bind Horizon.users).getD 0

/-- Horizons of the same days and maturity, whose users are the parts' together. -/
structure SumOf (whole : List Horizon) (parts : List (List Horizon)) : Prop where
  mature : ∀ part ∈ parts, part.map (fun horizon => (horizon.day, horizon.mature)) =
    whole.map fun horizon => (horizon.day, horizon.mature)
  users : ∀ horizon ∈ whole, horizon.users =
    if horizon.mature then some (parts.map fun part => usersOn part horizon.day).sum else none

/-- The columns of a cohort are the sums of its parts' columns. -/
structure PartitionedBy (whole : Cohort) (parts : List Cohort) : Prop where
  users : whole.users = (parts.map Cohort.users).sum
  returns : SumOf whole.returns (parts.map Cohort.returns)
  conversions : SumOf (whole.conversions.getD []) (parts.map fun part => part.conversions.getD [])
  duplicates : whole.duplicateConversions.getD 0 =
    (parts.map fun part => part.duplicateConversions.getD 0).sum
  goal : ∀ part ∈ parts, part.conversions.isSome = whole.conversions.isSome ∧
    part.duplicateConversions.isSome = whole.duplicateConversions.isSome

/-- The reported columns of a cohort are within its users, and conversions only grow. -/
structure WithinUsers (cohort : Cohort) : Prop where
  returns : ∀ horizon ∈ cohort.returns, ∀ users ∈ horizon.users, users ≤ cohort.users
  conversions : ∀ horizon ∈ cohort.conversions.getD [], ∀ users ∈ horizon.users,
    users ≤ cohort.users
  cumulative : ∀ horizon ∈ cohort.conversions.getD [], ∀ later ∈ cohort.conversions.getD [],
    horizon.day ≤ later.day → ∀ users ∈ horizon.users, ∀ usersLater ∈ later.users,
      users ≤ usersLater

theorem usersOn_horizon {today : ℤ} {cohortDay users day : ℕ} {counted : ℕ → ℕ}
    (hday : day ∈ returnDays) (hmature : (cohortDay : ℤ) + day < today) :
    usersOn (horizon today cohortDay users counted) day = counted day := by
  simp only [returnDays, List.mem_cons, List.not_mem_nil, or_false] at hday
  rcases hday with rfl | rfl | rfl
  all_goals
    push_cast at hmature
    simp [usersOn, horizon, returnDays, hmature]

/-- Horizons add up with what they count. -/
theorem sumOf_horizon {today : ℤ} {row : CohortRow} {parts : List CohortRow}
    (column : CohortRow → ℕ → ℕ) (hdays : ∀ part ∈ parts, part.cohortDay = row.cohortDay)
    (hsum : ∀ day, column row day = (parts.map fun part => column part day).sum) :
    SumOf (horizon today row.cohortDay row.users (column row))
      (parts.map fun part => horizon today part.cohortDay part.users (column part)) := by
  constructor
  · intro part hpart
    obtain ⟨own, hown, rfl⟩ := List.mem_map.mp hpart
    unfold horizon
    rw [List.map_map, List.map_map, hdays own hown]
    rfl
  · intro entry hentry
    obtain ⟨day, hday, rfl⟩ := List.mem_map.mp hentry
    by_cases hmature : (row.cohortDay : ℤ) + day < today
    · simp only [hmature, decide_true, if_true, Option.some.injEq]
      rw [hsum, List.map_map]
      congr 1
      apply List.map_congr_left
      intro part hpart
      rw [← hdays part hpart] at hmature
      exact (usersOn_horizon hday hmature).symm
    · simp [hmature]

section

variable {ledger : RetentionLedger} {params : CohortParams} {byChannel : Bool}

/-- A cohort of the answer is partitioned by its channels. -/
theorem partitionedBy_channels (grouped split : Bool) (goal : Option String) (today : ℤ)
    {row : CohortRow} (h : row ∈ cohortQuery false ledger params) :
    PartitionedBy (cohortOf grouped goal today row)
      (((cohortQuery true ledger params).filter fun part => part.cohortDay = row.cohortDay).map
        (cohortOf split goal today)) := by
  have hdays : ∀ part ∈ (cohortQuery true ledger params).filter
      (fun part => part.cohortDay = row.cohortDay), part.cohortDay = row.cohortDay :=
    fun part hpart => of_decide_eq_true (List.mem_filter.mp hpart).2
  have hlength : ∀ group, (cohortRow group).users = (group.2.map fun _ => 1).sum :=
    fun group => by simp [cohortRow]
  have husers := column_split hlength h
  have hreturned : ∀ day, row.returned day = (((cohortQuery true ledger params).filter
      fun part => part.cohortDay = row.cohortDay).map fun part => part.returned day).sum :=
    fun day => @column_split ledger params (fun row => row.returned day) _ (fun _ => rfl) row h
  have hconverted : ∀ day, row.converted day = (((cohortQuery true ledger params).filter
      fun part => part.cohortDay = row.cohortDay).map fun part => part.converted day).sum :=
    fun day => @column_split ledger params (fun row => row.converted day) _ (fun _ => rfl) row h
  have hduplicates := @column_split ledger params CohortRow.duplicates _ (fun _ => rfl) row h
  refine ⟨?_, ?_, ?_, ?_, ?_⟩
  · rw [List.map_map]
    exact husers
  · rw [List.map_map]
    exact sumOf_horizon CohortRow.returned hdays hreturned
  · rw [List.map_map]
    cases goal with
    | none => exact ⟨fun part hpart => by
        obtain ⟨own, -, rfl⟩ := List.mem_map.mp hpart; rfl, fun entry hentry => by cases hentry⟩
    | some goal => exact sumOf_horizon CohortRow.converted hdays hconverted
  · rw [List.map_map]
    cases goal with
    | none => simp [Function.comp_def, cohortOf]
    | some goal => exact hduplicates
  · intro part hpart
    obtain ⟨own, -, rfl⟩ := List.mem_map.mp hpart
    cases goal <;> exact ⟨rfl, rfl⟩

theorem users_horizon {today : ℤ} {cohortDay users : ℕ} {counted : ℕ → ℕ} {entry : Horizon}
    (h : entry ∈ horizon today cohortDay users counted) {n : ℕ} (hn : n ∈ entry.users) :
    n = counted entry.day := by
  obtain ⟨day, -, rfl⟩ := List.mem_map.mp h
  dsimp only at hn ⊢
  rw [Option.mem_def] at hn
  split_ifs at hn
  cases hn
  rfl

theorem withinUsers_cohort (grouped : Bool) (goal : Option String) (today : ℤ) {row : CohortRow}
    (h : row ∈ cohortQuery byChannel ledger params) :
    WithinUsers (cohortOf grouped goal today row) := by
  obtain ⟨hreturned, hconverted, hmono⟩ := row_bounds h
  refine ⟨?_, ?_, ?_⟩
  · intro entry hentry n hn
    rw [users_horizon hentry hn]
    exact hreturned entry.day
  · intro entry hentry n hn
    cases goal with
    | none => cases hentry
    | some goal =>
        rw [users_horizon hentry hn]
        exact hconverted entry.day
  · intro entry hentry later hlater hday n hn m hm
    cases goal with
    | none => cases hentry
    | some goal =>
        rw [users_horizon hentry hn, users_horizon hlater hm]
        exact hmono entry.day later.day hday

end

/-! ## The query -/

/-- The checks of `query`, which do not read how the answer is split. -/
def cohortRange (settings : RetentionQuerySettings) (filter : CohortFilter) :
    Except String (ℤ × ℤ) := do
  let first ← dateDay filter.fromDate
  let last ← dateDay filter.toDate
  require (first < last && last - first ≤ settings.maxQueryDays)
    ("cohort range must span 1 to " ++ toString settings.maxQueryDays ++ " days; to is exclusive")
  optionalLabel filter.goal "goal" none
  optionalLabel filter.channel "channel" (some overCap)
  pure (first, last)

def isGrouped (filter : CohortFilter) : Bool :=
  filter.byChannel = some true || filter.channel.isSome

theorem query_cohorts (settings : RetentionQuerySettings) (project : String)
    (filter : CohortFilter) (now : ℚ) (ledger : RetentionLedger) :
    (query settings project filter now ledger).map RetentionAnswer.cohorts =
      (cohortRange settings filter).map fun range =>
        (cohortQuery (isGrouped filter) ledger
          ⟨project, range.1, range.2, filter.goal, filter.channel⟩).map
          (cohortOf (isGrouped filter) filter.goal ⌊now / dayMs⌋) := by
  unfold query cohortRange
  cases dateDay filter.fromDate with
  | error message => rfl
  | ok first =>
      cases dateDay filter.toDate with
      | error message => rfl
      | ok last =>
          simp only [bind, Except.bind]
          cases require (first < last && last - first ≤ settings.maxQueryDays)
            ("cohort range must span 1 to " ++ toString settings.maxQueryDays ++
              " days; to is exclusive") with
          | error message => rfl
          | ok _ =>
              cases optionalLabel filter.goal "goal" none with
              | error message => rfl
              | ok _ => cases optionalLabel filter.channel "channel" (some overCap) <;> rfl

theorem query_of_range {settings : RetentionQuerySettings} (project : String)
    {filter : CohortFilter} (now : ℚ) (ledger : RetentionLedger) {range : ℤ × ℤ}
    (h : cohortRange settings filter = .ok range) :
    ∃ answer, query settings project filter now ledger = .ok answer ∧
      answer.cohorts = (cohortQuery (isGrouped filter) ledger
        ⟨project, range.1, range.2, filter.goal, filter.channel⟩).map
        (cohortOf (isGrouped filter) filter.goal ⌊now / dayMs⌋) := by
  have hcohorts := query_cohorts settings project filter now ledger
  rw [h] at hcohorts
  cases hquery : query settings project filter now ledger with
  | error message => rw [hquery] at hcohorts; cases hcohorts
  | ok answer =>
      rw [hquery] at hcohorts
      exact ⟨answer, rfl, Except.ok.inj hcohorts⟩

theorem query_of_error {settings : RetentionQuerySettings} (project : String)
    {filter : CohortFilter} (now : ℚ) (ledger : RetentionLedger) {message : String}
    (h : cohortRange settings filter = .error message) :
    query settings project filter now ledger = .error message := by
  have hcohorts := query_cohorts settings project filter now ledger
  rw [h] at hcohorts
  cases hquery : query settings project filter now ledger with
  | error other =>
      rw [hquery] at hcohorts
      cases hcohorts
      rfl
  | ok answer => rw [hquery] at hcohorts; cases hcohorts

/-- With and without the split a query fails alike, or its unsplit rows, one a
cohort, count the cohort's users and are partitioned by the rows of the
channels. The columns of every row are within its users. -/
theorem channels_partition_cohorts (settings : RetentionQuerySettings) (project : String)
    (filter : CohortFilter) (now : ℚ) (ledger : RetentionLedger) (omitted : Bool) :
    let unsplit : CohortFilter :=
      { filter with byChannel := if omitted then none else some false, channel := none }
    let split : CohortFilter := { filter with byChannel := some true, channel := none }
    (∀ answer ∈ (query settings project filter now ledger).toOption,
      ∀ cohort ∈ answer.cohorts, WithinUsers cohort) ∧
    ((∃ message, query settings project unsplit now ledger = .error message ∧
        query settings project split now ledger = .error message) ∨
      ∃ whole parts, query settings project unsplit now ledger = .ok whole ∧
        query settings project split now ledger = .ok parts ∧
        (whole.cohorts.map Cohort.cohortDay).Nodup ∧
        (parts.cohorts.map fun part => (part.cohortDay, part.channel)).Nodup ∧
        (∀ day, day ∈ whole.cohorts.map Cohort.cohortDay ↔
          day ∈ parts.cohorts.map Cohort.cohortDay) ∧
        ∀ cohort ∈ whole.cohorts,
          cohort.users = (ledger.users.entries.filter fun user =>
            user.1.1 = project && user.2.cohortDay = cohort.cohortDay).length ∧
          PartitionedBy cohort
            (parts.cohorts.filter fun part => part.cohortDay = cohort.cohortDay)) := by
  intro unsplit split
  constructor
  · intro answer hanswer cohort hcohort
    cases hrange : cohortRange settings filter with
    | error message =>
        rw [query_of_error project now ledger hrange] at hanswer
        cases hanswer
    | ok range =>
        obtain ⟨own, hown, hcohorts⟩ := query_of_range project now ledger hrange
        rw [hown] at hanswer
        cases hanswer
        rw [hcohorts] at hcohort
        obtain ⟨row, hrow, rfl⟩ := List.mem_map.mp hcohort
        exact withinUsers_cohort _ _ _ hrow
  · have hplain : isGrouped unsplit = false := by
      cases omitted <;> rfl
    have hgrouped : isGrouped split = true := rfl
    have hsame : cohortRange settings split = cohortRange settings unsplit := rfl
    cases hrange : cohortRange settings unsplit with
    | error message =>
        exact Or.inl ⟨message, query_of_error project now ledger hrange,
          query_of_error project now ledger (hsame.trans hrange)⟩
    | ok range =>
        right
        obtain ⟨whole, hwhole, hrows⟩ := query_of_range project now ledger hrange
        obtain ⟨parts, hparts, hsplit⟩ := query_of_range project now ledger (hsame.trans hrange)
        rw [hplain] at hrows
        rw [hgrouped] at hsplit
        refine ⟨whole, parts, hwhole, hparts, ?_, ?_, ?_, ?_⟩
        · rw [hrows, List.map_map]
          exact days_unsplit
        · rw [hsplit, List.map_map]
          have hkeys := @keys_split ledger ⟨project, range.1, range.2, filter.goal, none⟩ true
          rw [List.Nodup, List.pairwise_map] at hkeys ⊢
          apply hkeys.imp
          intro a b hne heq
          obtain ⟨hday, hchannel⟩ := Prod.mk.inj heq
          exact hne (Prod.ext hday (Option.some.inj hchannel))
        · intro day
          rw [hrows, hsplit, List.map_map, List.map_map]
          exact mem_days.trans mem_days.symm
        · intro cohort hcohort
          rw [hrows] at hcohort
          obtain ⟨row, hrow, rfl⟩ := List.mem_map.mp hcohort
          refine ⟨users_unsplit rfl hrow, ?_⟩
          rw [hsplit, List.filter_map]
          exact partitionedBy_channels false true filter.goal _ hrow

end Wardx.RetentionLedger
