import Wardx.Config.ConfigRules
import Wardx.Lib.Memo

/-!
# The config repository

A project's published config. For each role it builds once what every client of
that role shares: the visible values, the rules on them, the experiments as
text, and the wire text of the base values. A client's config is that base text
unless a rule gives one of its keys another value.

The plain reading filters, resolves every visible key and serializes once.
`wireSnapshot_eq` says that the shared view, whatever earlier calls left in it,
answers the same text and digest.
-/
namespace Wardx.Config

open Lib Json Control

/-! ## Views -/

/-- `toWireExperiment`. -/
def toWireExperiment (experiment : Json) : Json :=
  .obj ((["roles", "assignmentUnitKind", "terminalRetentionMs"] ++ fixedHorizonFields ++
    ["shippedVariant"]).foldl (fun fields name => deleteField name fields)
      (fieldsOf (toClientExperiment experiment)))

/-- `valuesForRole`. -/
def valuesForRole (values keyRoles : Json) (role : String) : Fields :=
  (fieldsOf values).filter fun entry => roleSees (keyRoles.get? entry.1) role

/-- `experimentsForRole`. -/
def experimentsForRole (experiments : List Json) (role : String) : List Json :=
  experiments.filter fun experiment => roleSees (experiment.get? "roles") role

/-- The tree a wire text prints, which its reader gets back. -/
structure WireConfig where
  values : Fields
  experiments : List Json
deriving DecidableEq, Repr

structure Wire where
  config : WireConfig
  wire : String
  context : String
deriving DecidableEq, Repr

structure RoleView where
  values : Fields
  keyRules : Fields
  conditionalValues : Fields
  experiments : List Json
  experimentsJson : String
  base : Wire
deriving DecidableEq, Repr

/-- The runtime with the text digest of the wire format. -/
structure Wiring where
  js : Js
  h64ToString : String → String

/-- A published snapshot; an object of the runtime holds a key once. -/
structure ConfigSnapshot where
  version : ℕ
  snapshot : Snapshot
  values_nodup : ((fieldsOf snapshot.values).map Prod.fst).Nodup
  rules_nodup : ((fieldsOf snapshot.keyRules).map Prod.fst).Nodup

structure ConfigRepository where
  current : ConfigSnapshot
  roleViews : Table String RoleView

section
variable (wiring : Wiring)

/-- The free function `wireSnapshot`. -/
def wireOf (values : Fields) (experiments : List Json) (experimentsJson : String) : Wire :=
  let wire := "\x7b\"values\":" ++ (Json.obj values).stringify wiring.js ++ ",\"experiments\":" ++
    experimentsJson ++ "\x7d"
  ⟨⟨values, experiments⟩, wire, wiring.h64ToString wire⟩

/-- What `_roleView` computes for a role. -/
def roleViewOf (snapshot : Snapshot) (role : String) : RoleView :=
  let values := valuesForRole snapshot.values snapshot.keyRoles role
  let keyRules := (fieldsOf snapshot.keyRules).filter fun entry =>
    (values.lookup entry.1).isSome && decide (items (some entry.2) ≠ [])
  let experiments := (experimentsForRole snapshot.experiments role).map toWireExperiment
  let experimentsJson := (Json.arr experiments).stringify wiring.js
  { values := values
    keyRules := keyRules
    conditionalValues := keyRules.map fun entry => (entry.1, (values.lookup entry.1).getD .null)
    experiments := experiments
    experimentsJson := experimentsJson
    base := wireOf wiring values experiments experimentsJson }

/-- The resolved values that are not identical to their base. -/
def overrides (view : RoleView) (client : Client) : Fields :=
  view.conditionalValues.filterMap fun entry =>
    (override view.keyRules client entry.1 entry.2).map fun value => (entry.1, value)

/-- A client's config from its role's view. -/
def wireOfView (view : RoleView) (client : Client) : Wire :=
  match overrides view client with
  | [] => view.base
  | changed =>
      wireOf wiring (changed.foldl (fun values entry => setField entry.1 entry.2 values) view.values)
        view.experiments view.experimentsJson

/-! ## Calls -/

/-- `new ConfigRepository(snapshot)`. -/
def newRepository (snapshot : ConfigSnapshot) : ConfigRepository := ⟨snapshot, Table.empty⟩

/-- `_roleView`. -/
def roleView (repository : ConfigRepository) (role : String) : RoleView × ConfigRepository :=
  let (view, views) := memo (roleViewOf wiring repository.current.snapshot) repository.roleViews role
  (view, { repository with roleViews := views })

/-- `_wireSnapshot`. -/
def wireSnapshot (repository : ConfigRepository) (client : Client) : Wire × ConfigRepository :=
  let (view, next) := roleView wiring repository client.role
  (wireOfView wiring view client, next)

/-- The answer of a sync; `config` is absent when the client has it. -/
structure Response where
  serverTime : ℕ
  configVersion : ℕ
  configContext : String
  config : Option WireConfig
deriving DecidableEq, Repr

/-- `buildResponse`. -/
def buildResponse (repository : ConfigRepository) (configVersion : ℕ) (client : Client)
    (configContext : Option String) (serverTime : ℕ) : Response × ConfigRepository :=
  let (wire, next) := wireSnapshot wiring repository client
  let config :=
    if configVersion ≠ repository.current.version ∨ configContext ≠ some wire.context then
      some wire.config
    else none
  (⟨serverTime, repository.current.version, wire.context, config⟩, next)

end

/-! ## Plain resolution -/

/-- Filter by role, resolve every visible key, serialize once. -/
def resolvedWire (wiring : Wiring) (snapshot : Snapshot) (client : Client) : Wire :=
  let values := resolveConfigRules (valuesForRole snapshot.values snapshot.keyRoles client.role)
    (fieldsOf snapshot.keyRules) client
  let experiments := (experimentsForRole snapshot.experiments client.role).map toWireExperiment
  wireOf wiring values experiments ((Json.arr experiments).stringify wiring.js)

/-- Fields with one list of distinct keys are equal when their values are. -/
theorem fields_ext {xs ys : Fields} (hkeys : xs.map Prod.fst = ys.map Prod.fst)
    (hnodup : (xs.map Prod.fst).Nodup) (h : ∀ key, xs.lookup key = ys.lookup key) : xs = ys := by
  induction xs generalizing ys with
  | nil =>
      cases ys with
      | nil => rfl
      | cons y ys => cases hkeys
  | cons x xs ih =>
      cases ys with
      | nil => cases hkeys
      | cons y ys =>
          obtain ⟨j, v⟩ := x
          obtain ⟨k, w⟩ := y
          rw [List.map_cons, List.map_cons, List.cons.injEq] at hkeys
          obtain ⟨hkey, hrest⟩ := hkeys
          change j = k at hkey
          subst hkey
          rw [List.map_cons, List.nodup_cons] at hnodup
          have hvalue := h j
          rw [lookup_field, lookup_field, if_pos rfl, if_pos rfl] at hvalue
          rw [Option.some.inj hvalue]
          refine congrArg _ (ih hrest hnodup.2 fun key => ?_)
          by_cases hkey : key = j
          · rw [hkey]
            have hx : xs.lookup j = none := by
              rw [← Option.not_isSome_iff_eq_none, isSome_lookup]
              exact hnodup.1
            have hy : ys.lookup j = none := by
              rw [← Option.not_isSome_iff_eq_none, isSome_lookup, ← hrest]
              exact hnodup.1
            rw [hx, hy]
          · have hother := h key
            rw [lookup_field, lookup_field, if_neg hkey, if_neg hkey] at hother
            exact hother

/-- Writing over present keys leaves the list of keys. -/
theorem keys_foldl_setField {values changed : Fields}
    (h : ∀ entry ∈ changed, entry.1 ∈ values.map Prod.fst) :
    (changed.foldl (fun values entry => setField entry.1 entry.2 values) values).map Prod.fst =
      values.map Prod.fst := by
  induction changed generalizing values with
  | nil => rfl
  | cons entry changed ih =>
      rw [List.forall_mem_cons] at h
      have hkeys : (setField entry.1 entry.2 values).map Prod.fst = values.map Prod.fst := by
        unfold setField
        rw [if_pos ((isSome_lookup entry.1 values).mpr h.1), keys_replaceField]
      rw [List.foldl_cons, ih, hkeys]
      rw [hkeys]
      exact h.2

theorem lookup_foldl_setField {changed : Fields} (hnodup : (changed.map Prod.fst).Nodup)
    (values : Fields) (key : String) :
    (changed.foldl (fun values entry => setField entry.1 entry.2 values) values).lookup key =
      (changed.lookup key).or (values.lookup key) := by
  induction changed generalizing values with
  | nil => rfl
  | cons entry changed ih =>
      obtain ⟨j, v⟩ := entry
      rw [List.map_cons, List.nodup_cons] at hnodup
      rw [List.foldl_cons, ih hnodup.2, lookup_setField, lookup_field]
      by_cases hkey : key = j
      · have hnone : changed.lookup j = none := by
          rw [← Option.not_isSome_iff_eq_none, isSome_lookup]
          exact hnodup.1
        rw [hkey, if_pos rfl, if_pos rfl, hnone]
        rfl
      · rw [if_neg hkey, if_neg hkey]

theorem lookup_mapFields (g : String → Json → Json) (fields : Fields) (key : String) :
    (fields.map fun entry => (entry.1, g entry.1 entry.2)).lookup key =
      (fields.lookup key).map (g key) := by
  induction fields with
  | nil => rfl
  | cons entry fields ih =>
      obtain ⟨j, v⟩ := entry
      rw [List.map_cons, lookup_field, lookup_field, ih]
      split_ifs with hkey
      · rw [hkey]
        rfl
      · rfl

theorem lookup_filterMapFields (g : String → Json → Option Json) {fields : Fields}
    (hnodup : (fields.map Prod.fst).Nodup) (key : String) :
    (fields.filterMap fun entry => (g entry.1 entry.2).map fun value => (entry.1, value)).lookup key =
      (fields.lookup key).bind (g key) := by
  induction fields with
  | nil => rfl
  | cons entry fields ih =>
      obtain ⟨j, v⟩ := entry
      rw [List.map_cons, List.nodup_cons] at hnodup
      have hrest := ih hnodup.2
      have hnone : fields.lookup j = none := by
        rw [← Option.not_isSome_iff_eq_none, isSome_lookup]
        exact hnodup.1
      rw [List.filterMap_cons, lookup_field]
      by_cases hkey : key = j
      · subst hkey
        rw [hnone] at hrest
        rw [if_pos rfl]
        cases hvalue : g key v with
        | none => simpa [hvalue] using hrest
        | some value => simp [hvalue]
      · rw [if_neg hkey, ← hrest]
        cases hvalue : g j v with
        | none => rfl
        | some value =>
            show List.lookup key ((j, value) :: _) = _
            rw [lookup_field, if_neg hkey]

theorem keys_filterMapFields_sublist (g : String → Json → Option Json) (fields : Fields) :
    ((fields.filterMap fun entry => (g entry.1 entry.2).map fun value => (entry.1, value)).map
      Prod.fst).Sublist (fields.map Prod.fst) := by
  induction fields with
  | nil => exact List.Sublist.refl _
  | cons entry fields ih =>
      rw [List.filterMap_cons, List.map_cons]
      cases hvalue : g entry.1 entry.2 with
      | none => exact ih.cons _
      | some value => exact ih.cons_cons _

theorem lookup_resolveConfigRules (values keyRules : Fields) (client : Client) (key : String) :
    (resolveConfigRules values keyRules client).lookup key =
      (values.lookup key).map (resolveValue keyRules client key) :=
  lookup_mapFields (resolveValue keyRules client) values key

theorem keys_resolveConfigRules (values keyRules : Fields) (client : Client) :
    (resolveConfigRules values keyRules client).map Prod.fst = values.map Prod.fst := by
  unfold resolveConfigRules
  rw [List.map_map]
  rfl

section
variable (wiring : Wiring) {snapshot : Snapshot}

theorem nodup_valuesForRole (hvalues : ((fieldsOf snapshot.values).map Prod.fst).Nodup)
    (role : String) :
    ((valuesForRole snapshot.values snapshot.keyRoles role).map Prod.fst).Nodup :=
  hvalues.sublist (List.filter_sublist.map _)

/-- The rules a view keeps are those of its visible keys, without the empty lists. -/
theorem lookup_view_keyRules (hrules : ((fieldsOf snapshot.keyRules).map Prod.fst).Nodup)
    (role key : String) :
    (roleViewOf wiring snapshot role).keyRules.lookup key =
      ((fieldsOf snapshot.keyRules).lookup key).filter fun rules =>
        ((valuesForRole snapshot.values snapshot.keyRoles role).lookup key).isSome &&
          decide (items (some rules) ≠ []) := by
  have hnodup : ((roleViewOf wiring snapshot role).keyRules.map Prod.fst).Nodup :=
    hrules.sublist (List.filter_sublist.map _)
  apply Option.ext
  intro rules
  have hview := Table.lookup_eq_some_iff hnodup key rules
  have hall := Table.lookup_eq_some_iff hrules key rules
  rw [hview, Option.filter_eq_some_iff, hall]
  exact List.mem_filter

theorem nodup_conditionalValues (hrules : ((fieldsOf snapshot.keyRules).map Prod.fst).Nodup)
    (role : String) :
    ((roleViewOf wiring snapshot role).conditionalValues.map Prod.fst).Nodup := by
  have hkeys : (roleViewOf wiring snapshot role).conditionalValues.map Prod.fst =
      (roleViewOf wiring snapshot role).keyRules.map Prod.fst := by
    unfold roleViewOf
    rw [List.map_map]
    rfl
  rw [hkeys]
  exact hrules.sublist (List.filter_sublist.map _)

/-- What a view changes of a visible key. -/
theorem lookup_overrides (hrules : ((fieldsOf snapshot.keyRules).map Prod.fst).Nodup)
    (client : Client) {key : String} {base : Json}
    (hbase : (valuesForRole snapshot.values snapshot.keyRoles client.role).lookup key = some base) :
    (overrides (roleViewOf wiring snapshot client.role) client).lookup key =
      override (fieldsOf snapshot.keyRules) client key base := by
  have hview := lookup_view_keyRules wiring hrules client.role key
  unfold overrides
  rw [lookup_filterMapFields _ (nodup_conditionalValues wiring hrules client.role)]
  have hconditional : (roleViewOf wiring snapshot client.role).conditionalValues.lookup key =
      ((roleViewOf wiring snapshot client.role).keyRules.lookup key).map fun _ => base := by
    have hlookup := lookup_mapFields (fun key _ => ((valuesForRole snapshot.values
      snapshot.keyRoles client.role).lookup key).getD .null)
      (roleViewOf wiring snapshot client.role).keyRules key
    rw [hbase] at hlookup
    exact hlookup
  rw [hconditional]
  unfold override rulesOf
  cases hrulesOf : (fieldsOf snapshot.keyRules).lookup key with
  | none =>
      rw [hrulesOf] at hview
      rw [hview]
      rfl
  | some rules =>
      rw [hrulesOf, hbase] at hview
      by_cases hempty : items (some rules) = []
      · have hkept : (roleViewOf wiring snapshot client.role).keyRules.lookup key = none := by
          rw [hview]
          simp [hempty]
        rw [hkept, hempty]
        rfl
      · have hkept : (roleViewOf wiring snapshot client.role).keyRules.lookup key = some rules := by
          rw [hview]
          exact Option.filter_eq_some_iff.mpr ⟨rfl, by simp [hempty]⟩
        rw [hkept]
        rfl

theorem overrides_keys (hrules : ((fieldsOf snapshot.keyRules).map Prod.fst).Nodup)
    (client : Client) {entry : String × Json}
    (h : entry ∈ overrides (roleViewOf wiring snapshot client.role) client) :
    entry.1 ∈ (valuesForRole snapshot.values snapshot.keyRoles client.role).map Prod.fst := by
  unfold overrides at h
  have hkey : entry.1 ∈ (roleViewOf wiring snapshot client.role).keyRules.map Prod.fst := by
    obtain ⟨conditional, hmem, hsome⟩ := List.mem_filterMap.mp h
    obtain ⟨value, _, rfl⟩ := Option.map_eq_some_iff.mp hsome
    obtain ⟨rule, hrule, rfl⟩ := List.mem_map.mp hmem
    exact List.mem_map.mpr ⟨rule, hrule, rfl⟩
  rw [← isSome_lookup, lookup_view_keyRules wiring hrules] at hkey
  rw [← isSome_lookup]
  cases hvalue : (valuesForRole snapshot.values snapshot.keyRoles client.role).lookup entry.1 with
  | none => simp [hvalue] at hkey
  | some value => rfl

/-- The values a view serves are the resolved ones. -/
theorem foldl_overrides (hvalues : ((fieldsOf snapshot.values).map Prod.fst).Nodup)
    (hrules : ((fieldsOf snapshot.keyRules).map Prod.fst).Nodup) (client : Client) :
    (overrides (roleViewOf wiring snapshot client.role) client).foldl
        (fun values entry => setField entry.1 entry.2 values)
        (valuesForRole snapshot.values snapshot.keyRoles client.role) =
      resolveConfigRules (valuesForRole snapshot.values snapshot.keyRoles client.role)
        (fieldsOf snapshot.keyRules) client := by
  have hkeys := keys_foldl_setField fun entry hentry =>
    overrides_keys wiring hrules client hentry
  have hnodup := nodup_valuesForRole hvalues client.role
  have hchanged : ((overrides (roleViewOf wiring snapshot client.role) client).map
      Prod.fst).Nodup :=
    (nodup_conditionalValues wiring hrules client.role).sublist (keys_filterMapFields_sublist _ _)
  apply fields_ext
  · rw [hkeys, keys_resolveConfigRules]
  · rw [hkeys]
    exact hnodup
  · intro key
    rw [lookup_foldl_setField hchanged, lookup_resolveConfigRules]
    cases hbase : (valuesForRole snapshot.values snapshot.keyRoles client.role).lookup key with
    | none =>
        rw [Option.or_none, Option.map_none, ← Option.not_isSome_iff_eq_none, isSome_lookup]
        intro hmem
        obtain ⟨entry, hentry, rfl⟩ := List.mem_map.mp hmem
        have hvisible := overrides_keys wiring hrules client hentry
        rw [← isSome_lookup, hbase] at hvisible
        cases hvisible
    | some base =>
        rw [lookup_overrides wiring hrules client hbase, Option.map_some, resolveValue_eq]
        cases override (fieldsOf snapshot.keyRules) client key base with
        | none => rfl
        | some value => rfl

theorem wireOfView_eq (hvalues : ((fieldsOf snapshot.values).map Prod.fst).Nodup)
    (hrules : ((fieldsOf snapshot.keyRules).map Prod.fst).Nodup) (client : Client) :
    wireOfView wiring (roleViewOf wiring snapshot client.role) client =
      resolvedWire wiring snapshot client := by
  have hfold := foldl_overrides wiring hvalues hrules client
  unfold wireOfView resolvedWire
  cases hchanged : overrides (roleViewOf wiring snapshot client.role) client with
  | nil =>
      rw [hchanged, List.foldl_nil] at hfold
      rw [← hfold]
      rfl
  | cons entry changed =>
      rw [hchanged] at hfold
      rw [← hfold]
      rfl

end

/-! ## What a config holds -/

theorem lookup_filterKey (p : String → Bool) (fields : Fields) (key : String) :
    (fields.filter fun entry => p entry.1).lookup key =
      if p key = true then fields.lookup key else none := by
  induction fields with
  | nil => exact (ite_self _).symm
  | cons entry fields ih =>
      obtain ⟨j, v⟩ := entry
      by_cases hj : p j = true
      · rw [List.filter_cons, if_pos hj, lookup_field, lookup_field, ih]
        by_cases hkey : key = j
        · rw [hkey, if_pos rfl, if_pos hj, if_pos rfl]
        · rw [if_neg hkey, if_neg hkey]
      · rw [List.filter_cons, if_neg hj, ih, lookup_field]
        by_cases hkey : key = j
        · rw [hkey, if_neg hj, if_neg hj]
        · rw [if_neg hkey]

/-- A value of a config is the resolved value of a key its role sees. -/
theorem lookup_resolvedWire_values (wiring : Wiring) (snapshot : Snapshot) (client : Client)
    (key : String) :
    (resolvedWire wiring snapshot client).config.values.lookup key =
      if roleSees (snapshot.keyRoles.get? key) client.role = true then
        ((fieldsOf snapshot.values).lookup key).map
          (resolveValue (fieldsOf snapshot.keyRules) client key)
      else none := by
  show (resolveConfigRules (valuesForRole snapshot.values snapshot.keyRoles client.role)
    (fieldsOf snapshot.keyRules) client).lookup key = _
  rw [lookup_resolveConfigRules, valuesForRole,
    lookup_filterKey fun key => roleSees (snapshot.keyRoles.get? key) client.role]
  split_ifs
  · rfl
  · rfl

/-- An experiment of a config is one of the snapshot's that the role sees. -/
theorem mem_resolvedWire_experiments {wiring : Wiring} {snapshot : Snapshot} {client : Client}
    {experiment : Json}
    (h : experiment ∈ (resolvedWire wiring snapshot client).config.experiments) :
    ∃ own ∈ snapshot.experiments, roleSees (own.get? "roles") client.role = true ∧
      experiment = toWireExperiment own := by
  obtain ⟨own, hown, rfl⟩ := List.mem_map.mp h
  obtain ⟨hmem, hsees⟩ := List.mem_filter.mp hown
  exact ⟨own, hmem, hsees, rfl⟩

theorem lookup_foldl_deleteField (names : List String) (fields : Fields) (key : String) :
    (names.foldl (fun fields name => deleteField name fields) fields).lookup key =
      if key ∈ names then none else fields.lookup key := by
  induction names generalizing fields with
  | nil => rfl
  | cons name names ih =>
      rw [List.foldl_cons, ih, lookup_deleteField]
      by_cases hkey : key = name
      · rw [hkey, if_pos rfl, if_pos List.mem_cons_self, ite_self]
      · rw [if_neg hkey]
        simp only [List.mem_cons, hkey, false_or]

theorem items_clientVariants (experiment : Json) :
    items ((toClientExperiment experiment).get? "variants") =
      (items (experiment.get? "variants")).map clientVariant := by
  rw [get?_toClientExperiment, if_pos (by decide), Control.clientField, if_pos rfl]
  cases experiment.get? "variants" with
  | none => rfl
  | some variants => rfl

/-- The wire copy keeps the variants. -/
theorem items_wireVariants (experiment : Json) :
    items ((toWireExperiment experiment).get? "variants") =
      (items (experiment.get? "variants")).map clientVariant := by
  have hvariants : (toWireExperiment experiment).get? "variants" =
      (toClientExperiment experiment).get? "variants" := by
    show (List.foldl _ (fieldsOf (toClientExperiment experiment)) _).lookup "variants" = _
    rw [lookup_foldl_deleteField, if_neg (by decide)]
    rfl
  rw [hvariants, items_clientVariants]

theorem values_clientVariant (variant : Json) :
    (clientVariant variant).get? "values" = variant.get? "values" :=
  (lookup_pick variant.get? "values").trans (if_pos (by decide))

/-! ## Histories of calls -/

/-- A call on one repository. -/
inductive Call
  | replace (next : ConfigSnapshot) (catalog : Json)
  | roleView (role : String)
  | wireSnapshot (client : Client)
  | buildResponse (configVersion : ℕ) (client : Client) (configContext : Option String)
      (serverTime : ℕ)

/-- The snapshot with the client copies of its experiments. -/
def ConfigSnapshot.forClients (next : ConfigSnapshot) : ConfigSnapshot :=
  { next with
    snapshot := { next.snapshot with
      experiments := next.snapshot.experiments.map toClientExperiment } }

/-- `replace`: a snapshot that fails its checks leaves the repository as it was. -/
def replace (wiring : Wiring) (repository : ConfigRepository) (next : ConfigSnapshot)
    (catalog : Json) : ConfigRepository :=
  match (do
      validateConfigSnapshot next.snapshot
      validateConfigConstraints wiring.js next.snapshot catalog "config snapshot" :
      Except String Unit) with
  | .ok _ => newRepository next.forClients
  | .error _ => repository

/-- The repository after a call. -/
def afterCall (wiring : Wiring) (repository : ConfigRepository) : Call → ConfigRepository
  | .replace next catalog => replace wiring repository next catalog
  | .roleView role => (roleView wiring repository role).2
  | .wireSnapshot client => (wireSnapshot wiring repository client).2
  | .buildResponse configVersion client configContext serverTime =>
      (buildResponse wiring repository configVersion client configContext serverTime).2

/-- Every kept view is the one its role would get now. -/
def ViewsCurrent (wiring : Wiring) (repository : ConfigRepository) : Prop :=
  Caches (roleViewOf wiring repository.current.snapshot) repository.roleViews

section
variable {wiring : Wiring} {repository : ConfigRepository}

theorem viewsCurrent_new (wiring : Wiring) (snapshot : ConfigSnapshot) :
    ViewsCurrent wiring (newRepository snapshot) :=
  caches_empty _

theorem ViewsCurrent.afterCall (h : ViewsCurrent wiring repository) (call : Call) :
    ViewsCurrent wiring (afterCall wiring repository call) := by
  cases call with
  | replace next catalog =>
      show ViewsCurrent wiring (Config.replace wiring repository next catalog)
      unfold Config.replace
      split
      · exact viewsCurrent_new wiring _
      · exact h
  | roleView role => exact h.memo_snd role
  | wireSnapshot client => exact h.memo_snd client.role
  | buildResponse configVersion client configContext serverTime => exact h.memo_snd client.role

theorem ViewsCurrent.wireSnapshot_fst (h : ViewsCurrent wiring repository) (client : Client) :
    (wireSnapshot wiring repository client).1 =
      resolvedWire wiring repository.current.snapshot client := by
  rw [← wireOfView_eq wiring repository.current.values_nodup repository.current.rules_nodup]
  exact congrArg (fun view => wireOfView wiring view client) (h.memo_fst client.role)

theorem ViewsCurrent.history (h : ViewsCurrent wiring repository) (history : List Call) :
    ViewsCurrent wiring (history.foldl (Config.afterCall wiring) repository) := by
  induction history generalizing repository with
  | nil => exact h
  | cons call history ih => exact ih (h.afterCall call)

end

/-- Whatever was called before, a client's wire text and digest are those of
the plain resolution of the current snapshot for that client; so two histories
that end with one snapshot answer the same. -/
theorem wireSnapshot_eq (wiring : Wiring) (initial : ConfigSnapshot) (history : List Call)
    (client : Client) :
    let repository := history.foldl (afterCall wiring) (newRepository initial)
    (wireSnapshot wiring repository client).1 =
        resolvedWire wiring repository.current.snapshot client ∧
      ∀ other : List Call,
        (other.foldl (afterCall wiring) (newRepository initial)).current.snapshot =
          repository.current.snapshot →
        (wireSnapshot wiring (other.foldl (afterCall wiring) (newRepository initial)) client).1 =
          (wireSnapshot wiring repository client).1 := by
  have hviews : ∀ calls : List Call,
      ViewsCurrent wiring (calls.foldl (afterCall wiring) (newRepository initial)) :=
    fun calls => (viewsCurrent_new wiring initial).history calls
  refine ⟨(hviews history).wireSnapshot_fst client, fun other hsame => ?_⟩
  rw [(hviews history).wireSnapshot_fst, (hviews other).wireSnapshot_fst, hsame]

end Wardx.Config
