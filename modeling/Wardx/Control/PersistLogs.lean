import Wardx.Control.RetainedChanges

/-!
# Removing a persist log

The position of a name is read from the catalog a project serves, and the name
is cut out of the list the control state materializes to. The second list is
sorted. The first is in the order the project was hydrated with until the first
publish after a start, and sorted after it. So the call takes away the name it
was given when the name has its sorted position in the served list, and another
one otherwise.
-/
namespace Wardx.Control

open Lib Json ControlStateChange

/-! ## Hydrated catalogs -/

def emptyCatalog : Json :=
  .obj [("description", .str ""), ("roles", .obj []), ("signals", .obj []),
    ("experiments", .obj []), ("inspectEvents", .arr []), ("persistLogs", .arr [])]

/-- A text field that is copied unless it is absent or empty. -/
def keptText (row : Json) (field : String) : Fields :=
  match text? (row.get? field) with
  | some text => if text = "" then [] else [(field, .str text)]
  | none => []

def descriptionOf (row : Json) : String × Json :=
  ("description", .str ((text? (row.get? "description")).getD ""))

def normalizeRoleEntry (row : Json) : Json :=
  .obj (descriptionOf row :: (keptText row "path" ++ keptText row "git"))

def normalizeSignalEntry (row : Json) : Json :=
  .obj (descriptionOf row :: (keptText row "category" ++
    (row.get? "constraint").toList.map fun constraint => ("constraint", constraint)))

def hypothesisOnly (row : Json) : Json :=
  .obj [("hypothesis", (row.get? "hypothesis").getD .null)]

/-- The entries under a key of the catalog, each copied. -/
def copyEntries (copy : Json → Json) (catalog : Json) (key : String) : String × Json :=
  (key, .obj ((fieldsOf (child catalog key)).map fun entry => (entry.1, copy entry.2)))

/-- `normalizeCatalog`. -/
def normalizeCatalog (js : Js) (catalog : Option Json) : Except String Json :=
  match catalog with
  | none | some .null => .ok emptyCatalog
  | some catalog => do
      validateCatalog js catalog "catalog"
      pure (.obj [descriptionOf catalog, copyEntries normalizeRoleEntry catalog "roles",
        copyEntries normalizeSignalEntry catalog "signals",
        copyEntries hypothesisOnly catalog "experiments",
        ("inspectEvents", .arr (items (catalog.get? "inspectEvents"))),
        ("persistLogs", .arr (items (catalog.get? "persistLogs")))])

/-! ## Lists of names in catalogs -/

/-- `catalog.persistLogs`. -/
def persistLogs (catalog : Json) : List String :=
  (items (catalog.get? "persistLogs")).map fun name => propertyKey (some name)

theorem map_propertyKey_str (names : List String) :
    (names.map Json.str).map (fun name => propertyKey (some name)) = names := by
  rw [List.map_map]
  exact List.map_id names

/-- A catalog with its names in a list, each once. -/
structure ListsNames (catalog : Json) (names : List String) : Prop where
  inspectEvents : ∃ events, catalog.get? "inspectEvents" = some (.arr events)
  persistLogs : catalog.get? "persistLogs" = some (.arr (names.map .str))
  persistLogsByName : catalog.get? "persistLogsByName" = none
  nodup : names.Nodup

theorem ListsNames.persistLogs_eq {catalog : Json} {names : List String}
    (h : ListsNames catalog names) : Control.persistLogs catalog = names := by
  unfold Control.persistLogs
  rw [h.persistLogs]
  exact map_propertyKey_str names

theorem text_of_nonEmptyText {value : Json} (h : nonEmptyText (some value) = true) :
    ∃ text, value = .str text := by
  cases value with
  | str text => exact ⟨text, rfl⟩
  | null | bool _ | num _ | arr _ | obj _ => cases h

/-- Names that pass the check are texts, each once and none seen before. -/
theorem names_of_validateNames {label : String} {values : List Json} {index : ℕ}
    {seen : List String} (h : validateNames label index seen values = .ok ()) :
    ∃ names : List String, values = names.map .str ∧ names.Nodup ∧ ∀ name ∈ names, name ∉ seen := by
  induction values generalizing index seen with
  | nil => exact ⟨[], rfl, List.nodup_nil, by simp⟩
  | cons value values ih =>
      simp only [validateNames, bind_eq_ok_iff, require_eq_ok_iff, exists_const,
        decide_eq_true_eq] at h
      obtain ⟨htext, hnew, hrest⟩ := h
      obtain ⟨text, rfl⟩ := text_of_nonEmptyText htext
      obtain ⟨names, rfl, hnodup, hseen⟩ := ih hrest
      have hkey : propertyKey (some (.str text)) = text := rfl
      rw [hkey] at hnew hseen
      refine ⟨text :: names, rfl, List.nodup_cons.mpr ⟨?_, hnodup⟩, ?_⟩
      · intro hmem
        exact hseen text hmem List.mem_cons_self
      · intro name hname
        rcases List.mem_cons.mp hname with rfl | hname
        · exact hnew
        · exact fun hmem => hseen name hname (List.mem_cons_of_mem _ hmem)

theorem names_of_validateNameList {value : Json} {label : String}
    (h : validateNameList value label = .ok ()) :
    ∃ names : List String, value = .arr (names.map .str) ∧ names.Nodup := by
  unfold validateNameList at h
  split at h
  · obtain ⟨names, rfl, hnodup, _⟩ := names_of_validateNames h
    exact ⟨names, rfl, hnodup⟩
  · cases h

/-- A valid catalog has no list of names, or a list with each name once. -/
theorem names_of_validateCatalog {js : Js} {catalog : Json} {label : String}
    (h : validateCatalog js catalog label = .ok ()) :
    ∃ names : List String, items (catalog.get? "persistLogs") = names.map .str ∧ names.Nodup := by
  cases hlogs : catalog.get? "persistLogs" with
  | none => exact ⟨[], rfl, List.nodup_nil⟩
  | some value =>
      have hvalue : validateNameList value (label ++ ".persistLogs") = .ok () := by
        unfold validateCatalog at h
        simp only [bind_eq_ok_iff, hlogs] at h
        obtain ⟨_, _, _, _, _, _, _, _, _, _, hevents⟩ := h
        split at hevents
        · obtain ⟨_, hnames, _⟩ := bind_eq_ok_iff.mp hevents
          exact hnames
        · obtain ⟨_, _, hrest⟩ := bind_eq_ok_iff.mp hevents
          obtain ⟨_, hnames, _⟩ := bind_eq_ok_iff.mp hrest
          exact hnames
      obtain ⟨names, rfl, hnodup⟩ := names_of_validateNameList hvalue
      exact ⟨names, rfl, hnodup⟩

theorem listsNames_of_normalizeCatalog {js : Js} {catalog : Option Json} {hydrated : Json}
    (h : normalizeCatalog js catalog = .ok hydrated) : ∃ names, ListsNames hydrated names := by
  unfold normalizeCatalog at h
  split at h
  · cases h
    exact ⟨[], ⟨[], rfl⟩, rfl, rfl, List.nodup_nil⟩
  · cases h
    exact ⟨[], ⟨[], rfl⟩, rfl, rfl, List.nodup_nil⟩
  · simp only [bind_eq_ok_iff, pure, Except.pure, Except.ok.injEq] at h
    obtain ⟨_, hvalid, rfl⟩ := h
    obtain ⟨names, hnames, hnodup⟩ := names_of_validateCatalog hvalid
    rw [hnames]
    exact ⟨names, ⟨_, rfl⟩, rfl, rfl, hnodup⟩

/-- Names set in any order are listed in one. -/
theorem sortedNames_nameFields {names : List String} (h : names.Nodup) :
    sortedNames (nameFields (names.map .str)) = names.insertionSort utf16Le := by
  have hperm : ((nameFields (names.map .str)).map Prod.fst).Perm names := by
    refine (List.perm_ext_iff_of_nodup (nodup_nameFields _) h).mpr fun name => ?_
    rw [← isSome_lookup, lookup_nameFields, map_propertyKey_str]
    split_ifs with hname
    · exact iff_of_true rfl hname
    · exact iff_of_false Bool.false_ne_true hname
  unfold sortedNames
  refine List.Perm.eq_of_pairwise' (List.pairwise_insertionSort utf16Le _)
    (List.pairwise_insertionSort utf16Le _) ?_
  exact ((List.perm_insertionSort _ _).trans hperm).trans (List.perm_insertionSort _ _).symm

/-- A list of names keyed and listed again is sorted; the rest stays. -/
theorem get?_relisted {fields : Fields} {events : List Json} {names : List String}
    (hevents : fields.lookup "inspectEvents" = some (.arr events))
    (hnames : fields.lookup "persistLogs" = some (.arr (names.map .str))) (hnodup : names.Nodup)
    (key : String) :
    (catalogWithList (catalogByName (.obj fields))).get? key =
      if key = "persistLogsByName" then none
      else if key = "persistLogs" then some (.arr ((names.insertionSort utf16Le).map .str))
      else fields.lookup key := by
  have hfields := catalogFields_byName hevents
  rw [hnames] at hfields
  have hget := get?_catalogWithList hfields key
  rw [show items (some (.arr (names.map Json.str))) = names.map .str from rfl,
    sortedNames_nameFields hnodup] at hget
  refine hget.trans ?_
  split_ifs with hkeyed hlist
  · rfl
  · rfl
  · have hother := lookup_catalogByName fields key
    rw [if_neg hlist, if_neg hkeyed] at hother
    exact hother

end Wardx.Control

namespace Wardx.ControlService

open Lib Json Control ControlStateChange

/-! ## Rows that list their names -/

def ListedRow (stored : StoredProject) : Prop := ∃ names, ListsNames stored.catalog names

/-- A written row lists its names in sorted order. -/
theorem listedRow_appended {js : Js} {capacity : ℕ} {record after : ProjectRecord} {next : Json}
    {entry : Entry} (hnext : Shaped next) (h : Appended js capacity record after next entry) :
    ListedRow after.stored := by
  obtain ⟨fields, events, names, hchild, hfields⟩ := shaped_child_catalog hnext
  have hget := get?_catalogWithList hfields
  have hcatalog : after.stored.catalog = catalogWithList (.obj fields) := by
    rw [h.stored, ← hchild]
    rfl
  have hlogs := hget "persistLogs"
  rw [if_neg (by decide), if_pos rfl] at hlogs
  have hvalid : validateCatalog js (catalogWithList (.obj fields)) "catalog" = .ok () := by
    have hstate := h.valid
    unfold validateProjectState at hstate
    simp only [bind_eq_ok_iff] at hstate
    obtain ⟨_, _, _, hvalid, _⟩ := hstate
    rw [← hchild]
    exact hvalid
  obtain ⟨texts, htexts, hnodup⟩ := names_of_validateCatalog hvalid
  rw [hlogs] at htexts
  have hsame : sortedNames names = texts :=
    List.map_injective_iff.mpr (fun _ _ => Json.str.inj) htexts
  refine ⟨sortedNames names, ⟨events, ?_⟩, ?_, ?_, ?_⟩
  · rw [hcatalog, hget, if_neg (by decide), if_neg (by decide)]
    exact hfields.inspectEvents
  · rw [hcatalog, hlogs]
  · rw [hcatalog, hget, if_pos rfl]
  · rw [hsame]
    exact hnodup

/-- Every row retains its changes and lists its names. -/
structure AllListed (server : Server) : Prop where
  retain : AllRetain server
  rows : EveryRow ListedRow server

theorem allListed_serve (settings : ControlSettings) {server : Server} (h : AllListed server)
    (event : ServiceEvent) : AllListed (serve settings event server) := by
  cases event with
  | restart => exact ⟨allRetain_restart h.retain, h.rows⟩
  | call command =>
      refine ⟨allRetain_step settings h.retain command, ?_⟩
      rcases step_publishes settings h.retain command with
        hsame | ⟨project, record, after, next, entry, hpublishes, hnext, _⟩
      · exact everyRow_of_same h.rows hsame
      · exact everyRow_of_publishes h.rows hpublishes
          (listedRow_appended hnext hpublishes.appended)

/-- Projects whose catalogs were read from the bootstrap config or a database. -/
structure HydratedConfig (settings : ControlSettings) extends Config where
  hydrated : ∀ project stored, projects.get project = some stored →
    ∃ catalog, normalizeCatalog settings.js catalog = .ok stored.catalog

theorem allListed_run {settings : ControlSettings} (config : HydratedConfig settings)
    (events : List ServiceEvent) :
    AllListed (run (serve settings) (boot config.toConfig) events) := by
  refine run_invariant_all AllListed (fun _ event h => allListed_serve settings h event)
    ⟨allRetain_boot config.toConfig, fun project record hrecord => ?_⟩ events
  rw [boot, Table.get_mapValues] at hrecord
  obtain ⟨stored, hstored, rfl⟩ := Option.map_eq_some_iff.mp hrecord
  obtain ⟨catalog, hcatalog⟩ := config.hydrated project stored hstored
  exact listsNames_of_normalizeCatalog hcatalog

/-! ## Lists that are served and edited -/

/-- The list an edit of the catalog starts from is the row's, sorted. -/
theorem get?_edited_catalog {stored : StoredProject} {names : List String}
    (h : ListsNames stored.catalog names) (key : String) :
    (catalogWithList (child (normalize stored) "catalog")).get? key =
      if key = "persistLogs" then some (.arr ((names.insertionSort utf16Le).map .str))
      else stored.catalog.get? key := by
  obtain ⟨events, hevents⟩ := h.inspectEvents
  have hchild : child (normalize stored) "catalog" =
      catalogByName (.obj (setField "inspectEvents" (.arr events) (fieldsOf stored.catalog))) := by
    have hitems : items (stored.catalog.get? "inspectEvents") = events := by
      rw [hevents]
      rfl
    rw [← hitems]
    rfl
  have hkept : (setField "inspectEvents" (.arr events) (fieldsOf stored.catalog)).lookup
      "inspectEvents" = some (.arr events) := by
    rw [lookup_setField, if_pos rfl]
  have hlogs : (setField "inspectEvents" (.arr events) (fieldsOf stored.catalog)).lookup
      "persistLogs" = some (.arr (names.map .str)) := by
    rw [lookup_setField_of_ne (by decide), get?_fieldsOf]
    exact h.persistLogs
  rw [hchild, get?_relisted hkept hlogs h.nodup]
  split_ifs with hkeyed hlist hlist
  · rw [hkeyed] at hlist
    exact absurd hlist (by decide)
  · rw [hkeyed, h.persistLogsByName]
  · rfl
  · rw [lookup_setField, get?_fieldsOf]
    split_ifs with hkey
    · rw [hkey, hevents]
    · rfl

/-- What is served lists the names of the row, and has the rest of its catalog. -/
theorem Mirrors.lists {stored : StoredProject} {store : Served} (h : Mirrors stored store)
    {names : List String} (hnames : ListsNames stored.catalog names) :
    ∃ listed, ListsNames store.catalog listed ∧ listed.Perm names ∧
      ∀ key, key ≠ "persistLogs" → store.catalog.get? key = stored.catalog.get? key := by
  rcases h with rfl | rfl
  · exact ⟨names, hnames, List.Perm.refl _, fun _ _ => rfl⟩
  · have hget : ∀ key, (servedOf stored).catalog.get? key = if key = "persistLogs" then
        some (.arr ((names.insertionSort utf16Le).map .str)) else stored.catalog.get? key :=
      get?_edited_catalog hnames
    have hother : ∀ key, key ≠ "persistLogs" →
        (servedOf stored).catalog.get? key = stored.catalog.get? key := by
      intro key hkey
      rw [hget, if_neg hkey]
    obtain ⟨events, hevents⟩ := hnames.inspectEvents
    refine ⟨names.insertionSort utf16Le, ⟨⟨events, ?_⟩, ?_, ?_, ?_⟩,
      List.perm_insertionSort _ _, hother⟩
    · rw [hother _ (by decide), hevents]
    · rw [hget, if_pos rfl]
    · rw [hother _ (by decide), hnames.persistLogsByName]
    · exact (List.perm_insertionSort _ _).nodup_iff.mpr hnames.nodup

/-! ## The call -/

section
variable {settings : ControlSettings} {server last : Server} {project name : String}
  {request : Request} {result : MutationResult}

/-- A call that succeeded cut the position the name has in the served list. -/
theorem deletePersistLog_run (h : ServerOk server)
    (hcall : deletePersistLog settings project name request server = (.ok result, last)) :
    ∃ store record after index next entry, server.served.get project = some store ∧
      (items (store.catalog.get? "persistLogs")).idxOf? (.str name) = some index ∧
      Committed settings server project request record
        (editCatalog (spliceName "persistLogs" index) (normalize record.stored)) next entry result ∧
      Publishes settings server project record after next entry last := by
  unfold deletePersistLog at hcall
  obtain ⟨_, _, hcall⟩ := Action.check_bind_eq_ok_iff.mp hcall
  unfold commitCatalog at hcall
  rw [Action.read_bind] at hcall
  obtain ⟨store, hserved, hcall⟩ := Action.check_bind_eq_ok_iff.mp hcall
  obtain ⟨edit, hremoves, hcall⟩ := Action.check_bind_eq_ok_iff.mp hcall
  unfold removeName at hremoves
  split at hremoves
  · cases hremoves
  · rename_i index hindex
    cases hremoves
    have hkeyed : ∀ record edited, server.records.get project = some record →
        (.ok (editCatalog (spliceName "persistLogs" index) (normalize record.stored)) :
          Except String Json) = .ok edited → KeyedState edited := by
      intro record edited hrecord hedited
      cases hedited
      exact (stateWith_editCatalog (stateWith_normalize (h.record project record hrecord))
        _).keyedState
    rcases @mutate_run settings server h project "delete_persist_log" [name]
        (fun state => .ok (editCatalog (spliceName "persistLogs" index) state)) request hkeyed with
      ⟨e, hout⟩ | ⟨record, after, edited, next, entry, result', hout, hrecord, hedited, hcommitted,
        hafter⟩
    · rw [hcall] at hout
      cases hout
    · rw [hcall] at hout
      cases hout
      cases hedited
      exact ⟨store, record, after, index, next, entry, (requireStore_eq_ok_iff.mp hserved).2, hindex,
        hcommitted, hrecord, hafter, rfl, rfl⟩

end

/-- Of the served names exactly the given one is gone, and everything else of the
catalog and the config is as it was. -/
structure RemovesOnly (name : String) (store : Served) (before after : StoredProject) : Prop where
  persistLogs : ∀ other, other ∈ persistLogs after.catalog ↔
    other ∈ persistLogs store.catalog ∧ other ≠ name
  catalog : ∀ key, key ≠ "persistLogs" →
    Option.Rel Agree (after.catalog.get? key) (store.catalog.get? key)
  values : Agree after.values before.values
  keyRoles : Agree after.keyRoles before.keyRoles
  keyRules : Agree after.keyRules before.keyRules
  experiments : ∀ id, Option.Rel Agree (after.definition id) (before.definition id)

/-- The name stands in the list where sorting puts it. -/
def InPlace (name : String) (names : List String) : Prop :=
  names.idxOf name = (names.insertionSort utf16Le).idxOf name

/-- Cutting a position out of a list removes a member exactly when it is there. -/
theorem mem_eraseIdx_iff_idxOf {names : List String} (h : names.Nodup) {name : String}
    {index : ℕ} (hindex : index < names.length) :
    (∀ other, other ∈ names.eraseIdx index ↔ other ∈ names ∧ other ≠ name) ↔
      index = names.idxOf name := by
  rw [← h.erase_getElem index hindex]
  constructor
  · intro hmem
    have hcut : names[index] ∉ names.erase names[index] := fun hin => (h.mem_erase_iff.mp hin).1 rfl
    have hsame : names[index] = name := by
      by_contra hne
      exact hcut ((hmem names[index]).mpr ⟨List.getElem_mem hindex, hne⟩)
    rw [← hsame]
    exact (h.idxOf_getElem index hindex).symm
  · intro hplace other
    have hsame : names[index] = name := by
      subst hplace
      exact List.getElem_idxOf hindex
    rw [hsame, h.mem_erase_iff, and_comm]

/-- The position found among the texts of names is the position of the name. -/
theorem idxOf_of_idxOf? {names : List String} (h : names.Nodup) {name : String} {index : ℕ}
    (hindex : (names.map Json.str).idxOf? (.str name) = some index) :
    index < names.length ∧ index = names.idxOf name := by
  obtain ⟨hlt, hget, _⟩ := List.idxOf?_eq_some_iff.mp hindex
  rw [List.length_map] at hlt
  rw [List.getElem_map] at hget
  refine ⟨hlt, ?_⟩
  rw [← Json.str.inj hget]
  exact (h.idxOf_getElem index hlt).symm

/-- What a state with an edited catalog is stored as. -/
theorem agree_edited_catalog {settings : ControlSettings} {record after : ProjectRecord}
    {next edited : Json} {entry : Entry} {fields : Fields} {events : List Json}
    (hafter : Appended settings.js settings.journalCapacity record after next entry)
    (hagree : Agree next edited) (hnext : Shaped next)
    (hchild : child edited "catalog" = catalogByName (.obj fields))
    (hevents : fields.lookup "inspectEvents" = some (.arr events)) :
    Agree after.stored.catalog (catalogWithList (catalogByName (.obj fields))) := by
  obtain ⟨nextFields, nextEvents, names, hnextChild, hnextFields⟩ := shaped_child_catalog hnext
  have hstored : after.stored.catalog = catalogWithList (.obj nextFields) := by
    rw [hafter.stored, ← hnextChild]
    rfl
  obtain ⟨listed, hlisted⟩ := listedRow_appended hnext hafter
  have hlogs := hlisted.persistLogs
  rw [hstored, get?_catalogWithList hnextFields, if_neg (by decide), if_pos rfl] at hlogs
  have hnames : sortedNames names = listed :=
    List.map_injective_iff.mpr (fun _ _ => Json.str.inj) (Json.arr.inj (Option.some.inj hlogs))
  have hnodup : (names.map Prod.fst).Nodup := by
    have hsorted := hlisted.nodup
    rw [← hnames] at hsorted
    exact (List.perm_insertionSort _ _).nodup_iff.mp hsorted
  rw [hstored]
  have hkept := agree_child hagree "catalog"
  rw [hnextChild, hchild] at hkept
  exact (agree_catalogWithList_iff hnextFields (catalogFields_byName hevents) hnodup
    (nodup_nameFields _)).mpr hkept

/-- The row after a position was cut out of its sorted list of names. -/
theorem get?_cut_catalog {settings : ControlSettings} {record after : ProjectRecord}
    {next : Json} {entry : Entry} {names : List String} {index : ℕ}
    (hafter : Appended settings.js settings.journalCapacity record after next entry)
    (hnext : Shaped next) (hnames : ListsNames record.stored.catalog names)
    (hagree : Agree next (editCatalog (spliceName "persistLogs" index) (normalize record.stored)))
    (key : String) :
    Option.Rel Agree (after.stored.catalog.get? key)
      (if key = "persistLogs" then
        some (.arr (((names.insertionSort utf16Le).eraseIdx index).map .str))
      else record.stored.catalog.get? key) := by
  have hlist := get?_edited_catalog hnames
  let listed := fieldsOf (catalogWithList (child (normalize record.stored) "catalog"))
  have hget : ∀ k, (spliceName "persistLogs" index listed).lookup k = if k = "persistLogs" then
      some (.arr (((names.insertionSort utf16Le).eraseIdx index).map .str))
      else record.stored.catalog.get? k := by
    intro k
    have hunder : namesUnder "persistLogs" listed = (names.insertionSort utf16Le).map .str := by
      unfold namesUnder
      rw [get?_fieldsOf, hlist, if_pos rfl]
      rfl
    unfold spliceName
    rw [lookup_setField, hunder, List.eraseIdx_map]
    split_ifs with hkey
    · rfl
    · rw [get?_fieldsOf, hlist, if_neg hkey]
  obtain ⟨events, hevents⟩ := hnames.inspectEvents
  have hkept : (spliceName "persistLogs" index listed).lookup "inspectEvents" = some (.arr events) := by
    rw [hget, if_neg (by decide)]
    exact hevents
  have hcut : (spliceName "persistLogs" index listed).lookup "persistLogs" =
      some (.arr (((names.insertionSort utf16Le).eraseIdx index).map .str)) := by
    rw [hget, if_pos rfl]
  have hsorted : (names.insertionSort utf16Le).Pairwise utf16Le := List.pairwise_insertionSort _ _
  have hnodup : (names.insertionSort utf16Le).Nodup :=
    (List.perm_insertionSort _ _).nodup_iff.mpr hnames.nodup
  have hsame := (agree_edited_catalog hafter hagree hnext rfl hkept).get? key
  rw [get?_relisted hkept hcut (hnodup.eraseIdx index),
    List.Pairwise.insertionSort_eq (hsorted.eraseIdx index), hget] at hsame
  by_cases hkeyed : key = "persistLogsByName"
  · rw [if_pos hkeyed] at hsame
    rw [hkeyed, if_neg (by decide), hnames.persistLogsByName, ← hkeyed]
    exact hsame
  · rw [if_neg hkeyed] at hsame
    by_cases hlogs : key = "persistLogs"
    · rw [if_pos hlogs] at hsame ⊢
      exact hsame
    · rw [if_neg hlogs, if_neg hlogs] at hsame
      rw [if_neg hlogs]
      exact hsame

/-- A call that succeeds commits a row that lost the position the name has in
the served list, out of the sorted one. -/
theorem removesOnly_iff_inPlace {settings : ControlSettings} {server last : Server}
    (h : AllListed server) {project name : String} {request : Request} {result : MutationResult}
    (hcall : deletePersistLog settings project name request server = (.ok result, last)) :
    ∃ record store after, server.records.get project = some record ∧
      server.served.get project = some store ∧ last.records.get project = some after ∧
      last.served.get project = some (servedOf after.stored) ∧
      (RemovesOnly name store record.stored after.stored ↔
        InPlace name (persistLogs store.catalog)) := by
  obtain ⟨store, record, after, index, next, entry, hstore, hindex, hcommitted, hpublishes⟩ :=
    deletePersistLog_run h.retain.ok hcall
  have hrecord := hpublishes.found
  have hafter := hpublishes.appended
  have hagree := hcommitted.patched.agree
  have hshaped : Shaped next :=
    (shaped_editCatalog (h.retain.records project record hrecord).shaped
      (keepsEvents_setList "persistLogs" _)).of_agree hagree.symm
  obtain ⟨names, hnames⟩ := h.rows project record hrecord
  obtain ⟨owner, howner, hmirrors⟩ := h.retain.mirrored project store hstore
  cases howner.symm.trans hrecord
  obtain ⟨listed, hlisted, hperm, hothers⟩ := hmirrors.lists hnames
  have hcut := get?_cut_catalog hafter hshaped hnames hagree
  have hnodup : (names.insertionSort utf16Le).Nodup :=
    (List.perm_insertionSort _ _).nodup_iff.mpr hnames.nodup
  have hsorted : listed.insertionSort utf16Le = names.insertionSort utf16Le :=
    List.Perm.eq_of_pairwise' (List.pairwise_insertionSort _ _) (List.pairwise_insertionSort _ _)
      (((List.perm_insertionSort _ _).trans hperm).trans (List.perm_insertionSort _ _).symm)
  rw [hlisted.persistLogs] at hindex
  obtain ⟨hlt, hplace⟩ := idxOf_of_idxOf? hlisted.nodup hindex
  have hlength : index < (names.insertionSort utf16Le).length := by
    rw [List.length_insertionSort, ← hperm.length_eq]
    exact hlt
  have hleft : persistLogs after.stored.catalog = (names.insertionSort utf16Le).eraseIdx index := by
    have hlogs := items_of_agree (hcut "persistLogs")
    rw [if_pos rfl] at hlogs
    unfold persistLogs
    rw [hlogs]
    exact map_propertyKey_str _
  have hmem : ∀ other, other ∈ names.insertionSort utf16Le ↔ other ∈ persistLogs store.catalog := by
    intro other
    rw [hlisted.persistLogs_eq, hperm.mem_iff, List.mem_insertionSort]
  have hset : (∀ other, other ∈ persistLogs after.stored.catalog ↔
      other ∈ persistLogs store.catalog ∧ other ≠ name) ↔ InPlace name (persistLogs store.catalog) := by
    simp only [hleft, ← hmem]
    rw [mem_eraseIdx_iff_idxOf hnodup hlength]
    unfold InPlace
    rw [hlisted.persistLogs_eq, hsorted, hplace]
  refine ⟨record, store, after, hrecord, hstore, ?_, ?_, ?_⟩
  · rw [hpublishes.records]
    exact Table.get_put_self _ _ _
  · rw [hpublishes.served]
    exact Table.get_put_self _ _ _
  · constructor
    · intro hremoves
      exact hset.mp hremoves.persistLogs
    · intro hinPlace
      have hpart : ∀ key, key ≠ "catalog" → Agree (child next key) (child (normalize record.stored) key) := by
        intro key hkey
        have hchild := agree_child hagree key
        rw [child_editCatalog _ _ hkey] at hchild
        exact hchild
      have hstored := hafter.stored
      refine ⟨hset.mpr hinPlace, ?_, ?_, ?_, ?_, ?_⟩
      · intro key hkey
        have hfield := hcut key
        rw [if_neg hkey, ← hothers key hkey] at hfield
        exact hfield
      · rw [hstored]
        exact hpart "values" (by decide)
      · rw [hstored]
        exact hpart "keyRoles" (by decide)
      · rw [hstored]
        exact hpart "keyRules" (by decide)
      · intro id
        rw [hafter.definition, experimentsById, get?_fieldsOf]
        have hexperiments := (hpart "experimentsById" (by decide)).get? id
        rw [← get?_fieldsOf (child (normalize record.stored) "experimentsById")] at hexperiments
        exact hexperiments

/-- After a publish every name of the served list is in place. -/
theorem inPlace_servedOf {stored : StoredProject} (h : ListedRow stored) (name : String) :
    InPlace name (persistLogs (servedOf stored).catalog) := by
  obtain ⟨names, hnames⟩ := h
  have hlogs : (servedOf stored).catalog.get? "persistLogs" =
      some (.arr ((names.insertionSort utf16Le).map .str)) := by
    have hget := get?_edited_catalog hnames "persistLogs"
    rw [if_pos rfl] at hget
    exact hget
  have hlisted : persistLogs (servedOf stored).catalog = names.insertionSort utf16Le := by
    unfold persistLogs
    rw [hlogs]
    exact map_propertyKey_str _
  unfold InPlace
  rw [hlisted, (List.pairwise_insertionSort utf16Le names).insertionSort_eq]

/-- In every state that calls and restarts reach from hydrated projects, of every
successful removal of a persist log: the committed row lost exactly that name
and nothing else exactly when the name stood in the served list where sorting
puts it. -/
theorem deletePersistLog_removesOnly_iff (settings : ControlSettings)
    (config : HydratedConfig settings) (events : List ServiceEvent) (project name : String)
    (request : Request) (result : MutationResult) (last : Server)
    (hcall : perform settings (.catalog project (.deletePersistLog name) request)
      (run (serve settings) (boot config.toConfig) events) = (.ok (some result), last)) :
    ∃ record store after,
      (run (serve settings) (boot config.toConfig) events).records.get project = some record ∧
      (run (serve settings) (boot config.toConfig) events).served.get project = some store ∧
      last.records.get project = some after ∧
      last.served.get project = some (servedOf after.stored) ∧
      (RemovesOnly name store record.stored after.stored ↔
        InPlace name (persistLogs store.catalog)) := by
  have hlisted := allListed_run config events
  generalize run (serve settings) (boot config.toConfig) events = server at hcall hlisted ⊢
  have hrun : deletePersistLog settings project name request server = (.ok result, last) := by
    change answer some (deletePersistLog settings project name request server) = _ at hcall
    rcases hout : deletePersistLog settings project name request server with ⟨e | answered, reached⟩
    · rw [hout] at hcall
      cases hcall
    · rw [hout] at hcall
      cases hcall
      rfl
  exact removesOnly_iff_inPlace hlisted hrun

/-- A project hydrated with the names in the given order. -/
def loggedProject (names : List String) : StoredProject :=
  { sampleProject [] with
    catalog := .obj [("description", .str ""), ("roles", .obj []), ("signals", .obj []),
      ("experiments", .obj []), ("inspectEvents", .arr []),
      ("persistLogs", .arr (names.map .str))] }

def loggedConfig (names : List String)
    (h : normalizeCatalog sampleSettings.js (some (loggedProject names).catalog) =
      .ok (loggedProject names).catalog) : HydratedConfig sampleSettings where
  toConfig := configOf (loggedProject names) (by
    show validateConfigSnapshot (loggedProject []).snapshot = .ok ()
    decide +kernel)
  hydrated := by
    intro project stored hstored
    change (Table.empty.put "shop" (loggedProject names)).get project = some stored at hstored
    rw [Table.get_put] at hstored
    split_ifs at hstored
    · cases hstored
      exact ⟨_, h⟩
    · cases hstored

def sortedLogs : HydratedConfig sampleSettings := loggedConfig ["a", "b"] (by decide +kernel)

def unsortedLogs : HydratedConfig sampleSettings := loggedConfig ["b", "a"] (by decide +kernel)

theorem deletePersistLog_removesOnly_sorted :
    ∃ record store after last,
      perform sampleSettings (.catalog "shop" (.deletePersistLog "b") (requestAt 1 "c1"))
        (boot sortedLogs.toConfig) = (.ok (some ⟨2, "c1", none⟩), last) ∧
      (boot sortedLogs.toConfig).records.get "shop" = some record ∧
      (boot sortedLogs.toConfig).served.get "shop" = some store ∧
      last.records.get "shop" = some after ∧
      RemovesOnly "b" store record.stored after.stored := by
  have hanswer : (perform sampleSettings (.catalog "shop" (.deletePersistLog "b") (requestAt 1 "c1"))
      (boot sortedLogs.toConfig)).1 = .ok (some ⟨2, "c1", none⟩) := by decide +kernel
  have hlogs : ((boot sortedLogs.toConfig).served.get "shop").map
      (fun store => persistLogs store.catalog) = some ["a", "b"] := by decide +kernel
  obtain ⟨record, store, after, hrecord, hstore, hafter, _, hiff⟩ :=
    deletePersistLog_removesOnly_iff sampleSettings sortedLogs [] "shop" "b" (requestAt 1 "c1")
      ⟨2, "c1", none⟩ _ (Prod.ext hanswer rfl)
  change (boot sortedLogs.toConfig).served.get "shop" = some store at hstore
  refine ⟨record, store, after, _, Prod.ext hanswer rfl, hrecord, hstore, hafter, hiff.mpr ?_⟩
  rw [hstore, Option.map_some] at hlogs
  rw [Option.some.inj hlogs]
  unfold InPlace
  decide +kernel

/-- Of a project hydrated with `b` before `a`, the call for `b` takes `a` away. -/
theorem deletePersistLog_removes_another :
    ∃ store after last,
      perform sampleSettings (.catalog "shop" (.deletePersistLog "b") (requestAt 1 "c1"))
        (boot unsortedLogs.toConfig) = (.ok (some ⟨2, "c1", none⟩), last) ∧
      (boot unsortedLogs.toConfig).served.get "shop" = some store ∧
      persistLogs store.catalog = ["b", "a"] ∧
      last.records.get "shop" = some after ∧
      persistLogs after.stored.catalog = ["b"] ∧
      ∀ before, ¬ RemovesOnly "b" store before after.stored := by
  have hanswer : (perform sampleSettings (.catalog "shop" (.deletePersistLog "b") (requestAt 1 "c1"))
      (boot unsortedLogs.toConfig)).1 = .ok (some ⟨2, "c1", none⟩) := by decide +kernel
  have hlogs : ((boot unsortedLogs.toConfig).served.get "shop").map
      (fun store => persistLogs store.catalog) = some ["b", "a"] := by decide +kernel
  have hleft : ((perform sampleSettings (.catalog "shop" (.deletePersistLog "b") (requestAt 1 "c1"))
      (boot unsortedLogs.toConfig)).2.records.get "shop").map
        (fun record => persistLogs record.stored.catalog) = some ["b"] := by decide +kernel
  obtain ⟨store, hstore, hlogs⟩ := Option.map_eq_some_iff.mp hlogs
  obtain ⟨after, hafter, hleft⟩ := Option.map_eq_some_iff.mp hleft
  refine ⟨store, after, _, Prod.ext hanswer rfl, hstore, hlogs, hafter, hleft, ?_⟩
  intro before hremoves
  have hgone := hremoves.persistLogs "b"
  rw [hleft] at hgone
  exact (hgone.mp List.mem_cons_self).2 rfl

end Wardx.ControlService
