import Wardx.Config.ConfigContract
import Wardx.Control.ControlShape
import Wardx.Control.JournalIntegrity

/-!
# Role isolation

Values are filtered by the roles of their keys, experiments by their own roles.
A client of a role must see no key, as a value or inside a variant, that the
key's roles keep from it. The link between the two is checked when experiments
are written, not when a key is narrowed or deleted nor at a rollback.
-/
namespace Wardx.Config

open Lib Json Control ControlStateChange ControlService

/-! ## Keys an experiment carries -/

/-- A variant of the experiment has a value for the key. -/
def Carries (experiment : Json) (key : String) : Prop :=
  ∃ variant ∈ items (experiment.get? "variants"), ((child variant "values").get? key).isSome = true

/-- The key is stored and its roles admit the role. -/
def Admits (values keyRoles : Json) (key role : String) : Prop :=
  (values.get? key).isSome = true ∧ roleSees (keyRoles.get? key) role = true

/-- Every role that is served the experiment is admitted to the keys it carries. -/
def Isolated (values keyRoles experiment : Json) : Prop :=
  ∀ role key, roleSees (experiment.get? "roles") role = true → Carries experiment key →
    Admits values keyRoles key role

theorem roleSees_of_agree {a b : Option Json} (h : Option.Rel Agree a b) (role : String) :
    roleSees a role = roleSees b role := by
  unfold roleSees includesText
  rw [items_of_agree h]

/-- Only the items of the roles and variants and the fields of the key count. -/
theorem Isolated.of_agree {values values' keyRoles keyRoles' experiment experiment' : Json}
    (h : Isolated values keyRoles experiment) (hvalues : Agree values values')
    (hroles : Agree keyRoles keyRoles') (hexperiment : Agree experiment experiment') :
    Isolated values' keyRoles' experiment' := by
  intro role key hsees hcarries
  unfold Carries at hcarries
  rw [← items_of_agree (hexperiment.get? "variants")] at hcarries
  rw [← roleSees_of_agree (hexperiment.get? "roles")] at hsees
  obtain ⟨hstored, hadmitted⟩ := h role key hsees hcarries
  refine ⟨?_, ?_⟩
  · rw [← agreeField_isSome (hvalues.get? key)]
    exact hstored
  · rw [← roleSees_of_agree (hroles.get? key)]
    exact hadmitted

/-- The check the service makes of one role of an experiment. -/
theorem roleSees_of_visible {key : String} {targets : Option Json} {role : String}
    (h : assertKeyVisible key targets (.str role) = .ok ()) : roleSees targets role = true := by
  unfold assertKeyVisible at h
  unfold roleSees
  split_ifs at h with hall
  · rw [require_eq_ok_iff] at h
    rw [h, Bool.true_or]
  · rw [require_eq_ok_iff] at h
    exact h

theorem mem_items_of_includesText {text : String} {value : Option Json}
    (h : includesText text value = true) : .str text ∈ items value := by
  unfold includesText at h
  exact of_decide_eq_true h

/-- What `assertExperimentKeysExist` accepts is isolated. -/
theorem isolated_of_keysExist {experiment values keyRoles : Json}
    (h : assertExperimentKeysExist experiment values keyRoles = .ok ()) :
    Isolated values keyRoles experiment := by
  intro role key hsees ⟨variant, hvariant, hkey⟩
  unfold assertExperimentKeysExist at h
  simp only [checkAll_eq_ok_iff, bind_eq_ok_iff, require_eq_ok_iff, exists_const] at h
  have hmem : key ∈ ((variant.get? "values").getD .null).keys := by
    unfold child at hkey
    cases hvalues : variant.get? "values" with
    | none =>
        rw [hvalues] at hkey
        cases hkey
    | some held =>
        rw [hvalues] at hkey
        cases held with
        | obj fields => exact (isSome_lookup key fields).mp hkey
        | _ => cases hkey
  obtain ⟨hstored, hvisible⟩ := h variant hvariant key hmem
  refine ⟨hstored, ?_⟩
  unfold roleSees at hsees
  rw [Bool.or_eq_true] at hsees
  rcases hsees with hall | hown
  · have htargets := roleSees_of_visible (hvisible _ (mem_items_of_includesText hall))
    unfold roleSees at htargets ⊢
    rw [Bool.or_self] at htargets
    rw [htargets, Bool.true_or]
  · exact roleSees_of_visible (hvisible _ (mem_items_of_includesText hown))

theorem carries_of_variants {a b : Json} (h : items (b.get? "variants") =
    (items (a.get? "variants")).map clientVariant) (key : String) : Carries b key ↔ Carries a key := by
  unfold Carries child
  rw [h]
  constructor
  · rintro ⟨variant, hvariant, hkey⟩
    obtain ⟨own, hown, rfl⟩ := List.mem_map.mp hvariant
    rw [values_clientVariant] at hkey
    exact ⟨own, hown, hkey⟩
  · rintro ⟨variant, hvariant, hkey⟩
    refine ⟨clientVariant variant, List.mem_map_of_mem hvariant, ?_⟩
    rw [values_clientVariant]
    exact hkey

theorem roles_toClientExperiment (experiment : Json) :
    (toClientExperiment experiment).get? "roles" = experiment.get? "roles" :=
  get?_toClientExperiment_of_mem (by decide) (by decide)

/-- A client copy carries the keys of its experiment for the same roles. -/
theorem isolated_toClientExperiment {values keyRoles experiment : Json} :
    Isolated values keyRoles (toClientExperiment experiment) ↔
      Isolated values keyRoles experiment := by
  unfold Isolated
  simp only [carries_of_variants (items_clientVariants experiment), roles_toClientExperiment]

/-! ## Rows and control states -/

def RowIsolated (stored : StoredProject) : Prop :=
  ∀ experiment ∈ stored.experiments, Isolated stored.values stored.keyRoles experiment

def StateIsolated (state : Json) : Prop :=
  ∀ id experiment, (experimentsById state).lookup id = some experiment →
    Isolated (child state "values") (child state "keyRoles") experiment

theorem stateIsolated_normalize {stored : StoredProject} (h : RowIsolated stored) :
    StateIsolated (normalize stored) := by
  intro id experiment hlookup
  exact h experiment (mem_byId (mem_of_lookup hlookup))

/-- The row of a state that agrees with an isolated one is isolated. -/
theorem rowIsolated_of_agree {state edited : Json} (h : StateIsolated edited)
    (hagree : Agree state edited) (hkeyed : KeyedState state) (version : ℕ) :
    RowIsolated (denormalize version state) := by
  intro experiment hmem
  obtain ⟨⟨id, _⟩, hfield, rfl⟩ := List.mem_map.mp hmem
  have hlookup := (Table.lookup_eq_some_iff hkeyed.experiments.nodup id _).mpr hfield
  have hagreed := agree_experimentsById hagree id
  rw [hlookup] at hagreed
  cases hedited : (experimentsById edited).lookup id with
  | none =>
      rw [hedited] at hagreed
      cases hagreed
  | some origin =>
      rw [hedited] at hagreed
      cases hagreed with
      | some hsame =>
          exact (h id origin hedited).of_agree (agree_child hagree.symm "values")
            (agree_child hagree.symm "keyRoles") hsame.symm

/-! ## Edits -/

theorem child_editChild (key k : String) (edit : Fields → Fields) (state : Json) :
    child (editChild key edit state) k =
      if k = key then .obj (edit (fieldsOf (child state key))) else child state k := by
  unfold child editChild
  rw [Json.get?, lookup_setField]
  split_ifs
  · rfl
  · rw [get?_fieldsOf]

/-- An edit of catalog or rules leaves the rest. -/
theorem StateIsolated.of_same {a b : Json} (h : StateIsolated a)
    (hsame : ∀ key, key ≠ "catalog" → key ≠ "keyRules" → child b key = child a key) :
    StateIsolated b := by
  intro id experiment hlookup
  unfold experimentsById at hlookup
  rw [hsame _ (by decide) (by decide)] at hlookup
  rw [hsame _ (by decide) (by decide), hsame _ (by decide) (by decide)]
  exact h id experiment hlookup

theorem child_writeHypothesis (id : String) (hypothesis : Option Json) (state : Json)
    {key : String} (hkey : key ≠ "catalog") :
    child (writeHypothesis id hypothesis state) key = child state key := by
  unfold writeHypothesis
  split
  · rfl
  · rw [child_editChild, if_neg hkey]

theorem child_editRules (name : String) (rules : Option Json) (state : Json) {key : String}
    (hkey : key ≠ "keyRules") : child (editRules name rules state) key = child state key := by
  unfold editRules
  split
  · rfl
  · rw [child_editChild, if_neg hkey]
  · rw [child_editChild, if_neg hkey]

/-- Writing one experiment keeps the state isolated when that one is. -/
theorem stateIsolated_setExperiment {state experiment : Json} {id : String}
    (h : StateIsolated state)
    (hnew : Isolated (child state "values") (child state "keyRoles") experiment) :
    StateIsolated (editChild "experimentsById" (setField id experiment) state) := by
  intro key other hlookup
  rw [child_editChild, if_neg (by decide), child_editChild, if_neg (by decide)]
  unfold experimentsById at hlookup
  rw [child_editChild, if_pos rfl] at hlookup
  change (setField id experiment (experimentsById state)).lookup key = some other at hlookup
  rw [lookup_setField] at hlookup
  split_ifs at hlookup
  · cases hlookup
    exact hnew
  · exact h key other hlookup

/-- A definition with the same roles and variants is as isolated. -/
theorem Isolated.of_fields {values keyRoles a b : Json} (h : Isolated values keyRoles a)
    (hroles : b.get? "roles" = a.get? "roles")
    (hvariants : b.get? "variants" = a.get? "variants") : Isolated values keyRoles b := by
  unfold Isolated Carries at h ⊢
  rw [hroles, hvariants]
  exact h

/-- More values keep an experiment isolated. -/
theorem Isolated.of_more {values more keyRoles experiment : Json}
    (h : Isolated values keyRoles experiment)
    (hmore : ∀ key, (values.get? key).isSome = true → (more.get? key).isSome = true) :
    Isolated more keyRoles experiment := by
  intro role key hsees hcarries
  have hadmits := h role key hsees hcarries
  exact ⟨hmore key hadmits.1, hadmits.2⟩

theorem isSome_foldl_setField (changed : Fields) {fields : Fields} {key : String}
    (h : (fields.lookup key).isSome = true) :
    ((changed.foldl (fun fields field => setField field.1 field.2 fields) fields).lookup
      key).isSome = true := by
  induction changed generalizing fields with
  | nil => exact h
  | cons field changed ih =>
      apply ih
      rw [lookup_setField]
      split_ifs
      · rfl
      · exact h

/-- A key that the experiment does not carry, or whose new roles admit every
role of the experiment, may be written. -/
theorem Isolated.setKey {values keyRoles experiment : Json} (h : Isolated values keyRoles experiment)
    {key : String} {value roles : Json}
    (hroles : Carries experiment key → ∀ role ∈ items (experiment.get? "roles"),
      roleSees (some roles) (propertyKey (some role)) = true) :
    Isolated (.obj (setField key value (fieldsOf values)))
      (.obj (setField key roles (fieldsOf keyRoles))) experiment := by
  intro role k hsees hcarries
  unfold Admits
  rw [Json.get?, Json.get?, lookup_setField, lookup_setField]
  by_cases hk : k = key
  · subst hk
    rw [if_pos rfl, if_pos rfl]
    refine ⟨rfl, ?_⟩
    unfold roleSees at hsees
    rw [Bool.or_eq_true] at hsees
    rcases hsees with hall | hown
    · have hsees := hroles hcarries _ (mem_items_of_includesText hall)
      unfold roleSees at hsees ⊢
      change (includesText "*" _ || includesText "*" _) = true at hsees
      rw [Bool.or_self] at hsees
      rw [hsees, Bool.true_or]
    · exact hroles hcarries _ (mem_items_of_includesText hown)
  · rw [if_neg hk, if_neg hk, get?_fieldsOf, get?_fieldsOf]
    exact h role k hsees hcarries

/-- A key that the experiment does not carry may be deleted. -/
theorem Isolated.deleteKey {values keyRoles experiment : Json}
    (h : Isolated values keyRoles experiment) {key : String} (hkey : ¬ Carries experiment key) :
    Isolated (.obj (deleteField key (fieldsOf values)))
      (.obj (deleteField key (fieldsOf keyRoles))) experiment := by
  intro role k hsees hcarries
  have hk : k ≠ key := fun heq => hkey (heq ▸ hcarries)
  unfold Admits
  rw [Json.get?, Json.get?, lookup_deleteField, lookup_deleteField, if_neg hk, if_neg hk,
    get?_fieldsOf, get?_fieldsOf]
  exact h role k hsees hcarries

/-! ## Steps -/

/-- A key is narrowed to no less than the roles of the experiments that carry
it, and deleted only when none does; after a rollback the experiments pass the
check that writing them makes. -/
def KeepsRoles (settings : ControlSettings) (server : Server) (command : Command) : Prop :=
  match command with
  | .setValue project key _ roles _ _ =>
      ∀ record ∈ server.records.get project, ∀ experiment ∈ record.stored.experiments,
        Carries experiment key → ∀ role ∈ items (experiment.get? "roles"),
          roleSees (some roles) (propertyKey (some role)) = true
  | .deleteValue project key _ =>
      ∀ record ∈ server.records.get project, ∀ experiment ∈ record.stored.experiments,
        ¬ Carries experiment key
  | .rollbackConfigChange project changeId _ =>
      ∀ record ∈ server.records.get project,
        ∀ target ∈ findChange settings.journalCapacity record changeId,
          ∀ next ∈ editAll target.reversible.inverse.operations (normalize record.stored),
            ∀ experiment ∈ (materialize next).1.experiments,
              assertExperimentKeysExist experiment (materialize next).1.values
                (materialize next).1.keyRoles = .ok ()
  | _ => True

theorem checkSnapshot_isolated {snapshot : Json} {experiments : List Json}
    (h : checkSnapshot snapshot = .ok experiments) :
    ∀ experiment ∈ experiments,
      Isolated (child snapshot "values") ((snapshot.get? "keyRoles").getD .null) experiment := by
  unfold checkSnapshot at h
  simp only [bind_eq_ok_iff] at h
  obtain ⟨_, _, _, _, h⟩ := h
  split at h
  · simp only [bind_eq_ok_iff, checkAll_eq_ok_iff, pure, Except.pure, Except.ok.injEq] at h
    obtain ⟨_, hall, rfl⟩ := h
    intro experiment hmem
    obtain ⟨_, _, hkeys⟩ := hall experiment hmem
    exact isolated_of_keysExist hkeys
  · cases h

theorem stateIsolated_writeSnapshot {snapshot : Json} {experiments : List Json} (state : Json)
    (h : checkSnapshot snapshot = .ok experiments) :
    StateIsolated (writeSnapshot snapshot experiments state) := by
  intro id experiment hlookup
  have hvalues : child (writeSnapshot snapshot experiments state) "values" =
      child snapshot "values" := by
    simp [writeSnapshot, child, Json.get?, lookup_setField]
  have hroles : child (writeSnapshot snapshot experiments state) "keyRoles" =
      (snapshot.get? "keyRoles").getD .null := by
    simp [writeSnapshot, child, Json.get?, lookup_setField]
  have hexperiments : experimentsById (writeSnapshot snapshot experiments state) =
      byId (experiments.map toClientExperiment) := by
    simp [writeSnapshot, experimentsById, child, Json.get?, lookup_setField, fieldsOf]
  rw [hexperiments] at hlookup
  obtain ⟨own, hown, heq⟩ := List.mem_map.mp (mem_byId (mem_of_lookup hlookup))
  change toClientExperiment own = experiment at heq
  rw [hvalues, hroles, ← heq, isolated_toClientExperiment]
  exact checkSnapshot_isolated h own hown

/-- Each command's edit keeps an isolated row isolated, under its condition. -/
theorem stateIsolated_edited {settings : ControlSettings} {server : Server} {command : Command}
    {project : String} {request : Request} {record : ProjectRecord} {edited : Json}
    (h : RowIsolated record.stored) (hrecord : server.records.get project = some record)
    (hkeeps : KeepsRoles settings server command)
    (hedited : Edited command project request record edited) : StateIsolated edited := by
  have hbefore := stateIsolated_normalize h
  cases hedited with
  | upserted _ experiment _ _ hvalid hkeys =>
      refine StateIsolated.of_same (stateIsolated_setExperiment hbefore ?_)
        fun key hcatalog _ => child_writeHypothesis _ _ _ hcatalog
      exact isolated_of_keysExist hkeys
  | toggled _ id enabled _ _ _ fields hdefinition =>
      have hown : Isolated record.stored.values record.stored.keyRoles (.obj fields) :=
        hbefore id _ hdefinition
      refine stateIsolated_setExperiment hbefore (hown.of_fields ?_ ?_)
      · exact lookup_setField_of_ne (by decide) _ fields
      · exact lookup_setField_of_ne (by decide) _ fields
  | replaced _ _ _ _ _ hsnapshot => exact stateIsolated_writeSnapshot _ hsnapshot
  | shipped _ id _ _ _ _ _ fields shipment hdefinition =>
      have hmore : ∀ key, (record.stored.values.get? key).isSome = true →
          ((child (editChild "values" (fun values => shipment.values.foldl
            (fun values field => setField field.1 field.2 values) values)
              (normalize record.stored)) "values").get? key).isSome = true := by
        intro key hkey
        rw [child_editChild, if_pos rfl]
        apply isSome_foldl_setField
        rw [get?_fieldsOf]
        exact hkey
      have hvalues : StateIsolated (editChild "values" (fun values => shipment.values.foldl
          (fun values field => setField field.1 field.2 values) values)
            (normalize record.stored)) := by
        intro key experiment hlookup
        unfold experimentsById at hlookup
        rw [child_editChild, if_neg (by decide)] at hlookup
        rw [child_editChild _ "keyRoles", if_neg (by decide)]
        exact (hbefore key experiment hlookup).of_more hmore
      have hown := (hbefore id _ hdefinition).of_more hmore
      refine stateIsolated_setExperiment hvalues (Isolated.of_fields (a := .obj fields) ?_ ?_ ?_)
      · rw [child_editChild _ "keyRoles", if_neg (by decide)]
        exact hown
      · show (setField _ _ (setField _ _ fields)).lookup _ = fields.lookup _
        rw [lookup_setField_of_ne (by decide), lookup_setField_of_ne (by decide)]
      · show (setField _ _ (setField _ _ fields)).lookup _ = fields.lookup _
        rw [lookup_setField_of_ne (by decide), lookup_setField_of_ne (by decide)]
  | valueSet _ key value roles rules =>
      refine StateIsolated.of_same (a := editChild "keyRoles" (setField key roles)
        (editChild "values" (setField key value) (normalize record.stored))) ?_
        fun name _ hrules => child_editRules _ _ _ hrules
      intro id experiment hlookup
      unfold experimentsById at hlookup
      rw [child_editChild, if_neg (by decide), child_editChild, if_neg (by decide)] at hlookup
      simp only [child_editChild, if_neg (show "values" ≠ "keyRoles" by decide),
        if_neg (show "keyRoles" ≠ "values" by decide), if_true]
      exact (hbefore id experiment hlookup).setKey
        (hkeeps record hrecord experiment (mem_byId (mem_of_lookup hlookup)))
  | valueDeleted _ key =>
      refine StateIsolated.of_same (a := editChild "keyRoles" (deleteField key)
        (editChild "values" (deleteField key) (normalize record.stored))) ?_
        fun name _ hrules => (child_editChild _ _ _ _).trans (if_neg hrules)
      intro id experiment hlookup
      unfold experimentsById at hlookup
      rw [child_editChild, if_neg (by decide), child_editChild, if_neg (by decide)] at hlookup
      simp only [child_editChild, if_neg (show "values" ≠ "keyRoles" by decide),
        if_neg (show "keyRoles" ≠ "values" by decide), if_true]
      exact (hbefore id experiment hlookup).deleteKey
        (hkeeps record hrecord experiment (mem_byId (mem_of_lookup hlookup)))
  | catalogEdited _ _ _ _ edit _ =>
      exact hbefore.of_same fun key hcatalog _ => child_editCatalog edit _ hcatalog

/-- Every stored experiment is isolated, and what is served mirrors the rows. -/
structure RolesIsolated (server : Server) : Prop where
  ok : ServerOk server
  mirrored : Mirrored server
  rows : EveryRow RowIsolated server

theorem rolesIsolated_step (settings : ControlSettings) {server : Server} (command : Command)
    (h : RolesIsolated server) (hkeeps : KeepsRoles settings server command) :
    RolesIsolated (step settings command server) := by
  refine ⟨step_serverOk settings h.ok command, mirrored_step h.ok h.mirrored command, ?_⟩
  have hperformed := perform_performed settings h.ok h.mirrored command
  rw [step_eq_perform]
  generalize perform settings command server = outcome at hperformed ⊢
  cases hperformed with
  | stopped e last hsame => exact everyRow_of_same h.rows hsame
  | kept last hsame => exact everyRow_of_same h.rows hsame
  | mutated project request record after edited next entry result last hedited hcommitted hpublishes =>
      apply everyRow_of_publishes h.rows hpublishes
      have hrow := h.rows project record hpublishes.found
      rw [hpublishes.appended.stored]
      exact rowIsolated_of_agree (stateIsolated_edited hrow hpublishes.found hkeeps hedited)
        hcommitted.patched.agree hpublishes.appended.keyed _
  | rolledBack project changeId request record after target next entry result last hcommand htarget
      hedits _ _ hpublishes =>
      subst hcommand
      apply everyRow_of_publishes h.rows hpublishes
      have hchecked := hkeeps record hpublishes.found target htarget next hedits
      rw [hpublishes.appended.stored]
      exact fun experiment hmem => isolated_of_keysExist (hchecked experiment hmem)

/-! ## What clients are served -/

/-- Every key of a config, as a value or in a variant, admits the role. -/
structure WireIsolated (stored : StoredProject) (config : WireConfig) (role : String) : Prop where
  values : ∀ key, (config.values.lookup key).isSome = true →
    Admits stored.values stored.keyRoles key role
  variants : ∀ experiment ∈ config.experiments, ∀ key, Carries experiment key →
    Admits stored.values stored.keyRoles key role

/-- Of every project, every client's config admits the client's role. -/
def ServesIsolated (server : Server) : Prop :=
  ∀ project store record, server.served.get project = some store →
    server.records.get project = some record → ∀ (wiring : Wiring) (client : Client),
      WireIsolated record.stored (resolvedWire wiring store.snapshot client).config client.role

theorem carries_toWireExperiment {experiment : Json} {key : String}
    (h : Carries (toWireExperiment (toClientExperiment experiment)) key) : Carries experiment key :=
  (carries_of_variants (items_clientVariants experiment) key).mp
    ((carries_of_variants (items_wireVariants _) key).mp h)

theorem servesIsolated_of_rows {server : Server} (hmirrored : Mirrored server)
    (hrows : EveryRow RowIsolated server) : ServesIsolated server := by
  intro project store record hstore hrecord wiring client
  obtain ⟨_, hfound, hmirrors⟩ := hmirrored project store hstore
  cases hrecord.symm.trans hfound
  refine ⟨fun key hkey => ?_, fun experiment hmem key hcarries => ?_⟩
  · rw [lookup_resolvedWire_values, hmirrors.values, hmirrors.keyRoles] at hkey
    split_ifs at hkey with hsees
    · rw [Option.isSome_map, get?_fieldsOf] at hkey
      exact ⟨hkey, hsees⟩
    · cases hkey
  · obtain ⟨own, hown, hsees, rfl⟩ := mem_resolvedWire_experiments hmem
    obtain ⟨origin, horigin, rfl⟩ := hmirrors.experiment hown
    rw [roles_toClientExperiment] at hsees
    exact hrows project record hrecord origin horigin client.role key hsees
      (carries_toWireExperiment hcarries)

/-- A client of a role. -/
def clientOf (role : String) : Client := { webClient with role := role }

/-- A configuration that serves no key to a wrong role stores no experiment that would. -/
theorem rowIsolated_of_boot {config : Config} (h : ServesIsolated (boot config)) :
    EveryRow RowIsolated (boot config) := by
  intro project record hrecord experiment hmem role key hsees hcarries
  have hstored : ∃ stored, config.projects.get project = some stored ∧ record = ⟨stored, []⟩ := by
    rw [boot, Table.get_mapValues] at hrecord
    obtain ⟨stored, hget, heq⟩ := Option.map_eq_some_iff.mp hrecord
    exact ⟨stored, hget, heq.symm⟩
  obtain ⟨stored, hget, rfl⟩ := hstored
  have hstore : (boot config).served.get project = some (bootstrapServed stored) := by
    rw [boot, Table.get_mapValues, hget]
    rfl
  have hserved := h project (bootstrapServed stored) ⟨stored, []⟩ hstore hrecord ⟨Js.plain, id⟩
    (clientOf role)
  refine hserved.variants (toWireExperiment (toClientExperiment experiment)) ?_ key ?_
  · refine List.mem_map_of_mem (List.mem_filter.mpr ⟨List.mem_map_of_mem hmem, ?_⟩)
    rw [roles_toClientExperiment]
    exact hsees
  · rw [carries_of_variants (items_wireVariants _), carries_of_variants (items_clientVariants _)]
    exact hcarries

/-- From a bootstrap that serves no key to a role the key's roles do not admit,
every run whose calls keep the roles of carried keys reaches only such states. -/
theorem roles_isolated (settings : ControlSettings) (config : Config) (commands : List Command)
    (hboot : ServesIsolated (boot config))
    (h : Along (KeepsRoles settings) (step settings) (boot config) commands) :
    ServesIsolated (run (step settings) (boot config) commands) := by
  have hfirst : RolesIsolated (boot config) :=
    ⟨serverOk_boot config, mirrored_boot config, rowIsolated_of_boot hboot⟩
  have hlast := run_invariant RolesIsolated
    (fun _ command hisolated hkeeps => rolesIsolated_step settings command hisolated hkeeps)
    hfirst h
  exact servesIsolated_of_rows hlast.mirrored hlast.rows

/-! ## A carried key -/

instance (experiment : Json) (key : String) : Decidable (Carries experiment key) :=
  inferInstanceAs (Decidable (∃ variant ∈ _, _ = true))

instance (settings : ControlSettings) : ∀ (server : Server) (command : Command),
    Decidable (KeepsRoles settings server command) := by
  intro server command
  cases command <;> (unfold KeepsRoles; infer_instance)

/-- The experiment of the sample serves `color` to the role `web`. -/
theorem servesIsolated_sample : ServesIsolated (boot sampleConfig) := by
  refine servesIsolated_of_rows (mirrored_boot _) fun project record hrecord => ?_
  have hstored : record.stored = sampleProject [sampleExperiment "exp" true 1 ["a", "b"]] := by
    rw [boot, Table.get_mapValues] at hrecord
    obtain ⟨stored, hget, rfl⟩ := Option.map_eq_some_iff.mp hrecord
    change (Table.empty.put "shop" _).get project = some stored at hget
    rw [Table.get_put] at hget
    split_ifs at hget
    · exact (Option.some.inj hget).symm
    · cases hget
  rw [hstored]
  intro experiment hmem
  rw [List.mem_singleton.mp hmem]
  exact isolated_of_keysExist (by decide +kernel)

/-- The key narrowed to the one role that is served the experiment. -/
theorem roles_isolated_narrowed : ServesIsolated (run (step sampleSettings) (boot sampleConfig)
    [.setValue "shop" "color" (.str "b") (.arr [.str "web"]) none (requestAt 1 "c1"),
      .rollbackConfigChange "shop" "c1" (requestAt 2 "c2")]) :=
  roles_isolated sampleSettings sampleConfig _ servesIsolated_sample (by decide +kernel)

/-- The key narrowed to another role: `web` is still served it in a variant. -/
theorem narrowed_key_is_served :
    ServesIsolated (boot sampleConfig) ∧
      let commands : List Command :=
        [.setValue "shop" "color" (.str "b") (.arr [.str "admin"]) none (requestAt 1 "c1")];
      outputs (answered sampleSettings "shop") (step sampleSettings) (boot sampleConfig) commands =
          [⟨2, "c1", none⟩] ∧
        ¬ ServesIsolated (run (step sampleSettings) (boot sampleConfig) commands) := by
  refine ⟨servesIsolated_sample, by decide +kernel, fun h => ?_⟩
  let server := run (step sampleSettings) (boot sampleConfig)
    [.setValue "shop" "color" (.str "b") (.arr [.str "admin"]) none (requestAt 1 "c1")]
  have hsome : (server.served.get "shop").isSome = true ∧ (server.records.get "shop").isSome = true := by
    decide +kernel
  obtain ⟨store, hstore⟩ := Option.isSome_iff_exists.mp hsome.1
  obtain ⟨record, hrecord⟩ := Option.isSome_iff_exists.mp hsome.2
  have hserved : (server.served.get "shop").map (fun store =>
      ((resolvedWire ⟨Js.plain, id⟩ store.snapshot (clientOf "web")).config.experiments.any fun
        experiment => decide (Carries experiment "color"))) = some true := by decide +kernel
  have hkept : (server.records.get "shop").map (fun record =>
      roleSees (record.stored.keyRoles.get? "color") "web") = some false := by decide +kernel
  rw [hstore, Option.map_some, Option.some.injEq, List.any_eq_true] at hserved
  rw [hrecord, Option.map_some, Option.some.injEq] at hkept
  obtain ⟨experiment, hmem, hcarries⟩ := hserved
  have hadmits := (h "shop" store record hstore hrecord ⟨Js.plain, id⟩ (clientOf "web")).variants
    experiment hmem "color" (of_decide_eq_true hcarries)
  have hsees : roleSees (record.stored.keyRoles.get? "color") "web" = true := hadmits.2
  rw [hkept] at hsees
  cases hsees

end Wardx.Config
