import Wardx.Control.ChangeView
import Wardx.Control.StoredExperiments
import Wardx.PropertyOrder

/-!
# The shape of control states

A control state has five parts and nothing else. Its catalog lists inspect
events as an array and has persist logs as an object of names, each set to
true. A row turned into a control state has this shape, and a control state of
this shape survives being stored as a row and read back.
-/
namespace Wardx.Control

open Lib Json ControlStateChange

/-! ## Parts of values that agree -/

theorem items_of_agree {a b : Option Json} (h : Option.Rel Agree a b) : items a = items b := by
  cases h with
  | none => rfl
  | @some x y hxy =>
      cases hx : x.isObject with
      | false => rw [hxy.eq_of_plain hx]
      | true =>
          have hy : y.isObject = true := hxy.isObject ▸ hx
          cases x with
          | obj => cases y with
            | obj => rfl
            | _ => cases hy
          | _ => cases hx

theorem agree_child {a b : Json} (h : Agree a b) (key : String) :
    Agree (child a key) (child b key) := by
  have hkey := h.get? key
  unfold child
  cases ha : a.get? key with
  | none =>
      rw [ha] at hkey
      cases hb : b.get? key with
      | none => exact Agree.refl _
      | some y =>
          rw [hb] at hkey
          cases hkey
  | some x =>
      rw [ha] at hkey
      cases hb : b.get? key with
      | none =>
          rw [hb] at hkey
          cases hkey
      | some y =>
          rw [hb] at hkey
          cases hkey with
          | some hxy => exact hxy

theorem agree_experimentsById {a b : Json} (h : Agree a b) (id : String) :
    Option.Rel Agree ((experimentsById a).lookup id) ((experimentsById b).lookup id) := by
  unfold experimentsById
  rw [get?_fieldsOf, get?_fieldsOf]
  exact (agree_child h "experimentsById").get? id

/-! ## Shapes -/

/-- What a path may lead to in an object of names. -/
def namesSpot : List String → Spot → Prop
  | [], found => found = .object
  | [_], found => found = .missing ∨ found = .plain (.bool true)
  | _, _ => True

/-- What a path may lead to in the catalog of a control state. -/
def catalogSpot : List String → Spot → Prop
  | [], found => found = .object
  | key :: rest, found =>
      if key = "inspectEvents" then rest = [] → ∃ names, found = .plain (.arr names)
      else if key = "persistLogs" then rest = [] → found = .missing
      else if key = "persistLogsByName" then namesSpot rest found
      else True

def partNames : List String := ["values", "keyRoles", "keyRules", "experimentsById"]

/-- What a path may lead to in a control state. -/
def controlSpot : List String → Spot → Prop
  | [], found => found = .object
  | key :: rest, found =>
      if key = "catalog" then catalogSpot rest found
      else if key ∈ partNames then rest = [] → found = .object
      else rest = [] → found = .missing

theorem catalogSpot_cons (key : String) (rest : List String) (found : Spot) :
    catalogSpot (key :: rest) found =
      if key = "inspectEvents" then rest = [] → ∃ names, found = .plain (.arr names)
      else if key = "persistLogs" then rest = [] → found = .missing
      else if key = "persistLogsByName" then namesSpot rest found
      else True :=
  rfl

theorem controlSpot_cons (key : String) (rest : List String) (found : Spot) :
    controlSpot (key :: rest) found =
      if key = "catalog" then catalogSpot rest found
      else if key ∈ partNames then rest = [] → found = .object
      else rest = [] → found = .missing :=
  rfl

theorem controlSpot_catalog (rest : List String) (found : Spot) :
    controlSpot ("catalog" :: rest) found = catalogSpot rest found := by
  rw [controlSpot_cons, if_pos rfl]

theorem ne_catalog_of_part {key : String} (hkey : key ∈ partNames) : key ≠ "catalog" := by
  rintro rfl
  revert hkey
  decide

theorem controlSpot_part {key : String} (hkey : key ∈ partNames) (rest : List String)
    (found : Spot) : controlSpot (key :: rest) found = (rest = [] → found = .object) := by
  rw [controlSpot_cons, if_neg (ne_catalog_of_part hkey), if_pos hkey]

theorem controlSpot_other {key : String} (hcatalog : key ≠ "catalog") (hkey : key ∉ partNames)
    (rest : List String) (found : Spot) :
    controlSpot (key :: rest) found = (rest = [] → found = .missing) := by
  rw [controlSpot_cons, if_neg hcatalog, if_neg hkey]

def CatalogShaped (catalog : Json) : Prop := ∀ path, catalogSpot path (spot path catalog)

def Shaped (state : Json) : Prop := ∀ path, controlSpot path (spot path state)

/-- What each path leads to in one of two shaped states is shaped. -/
theorem Shaped.mixed {a b c : Json} (ha : Shaped a) (hb : Shaped b)
    (h : ∀ path, spot path c = spot path a ∨ spot path c = spot path b) : Shaped c := by
  intro path
  rcases h path with hpath | hpath
  · rw [hpath]
    exact ha path
  · rw [hpath]
    exact hb path

theorem Shaped.of_agree {a b : Json} (ha : Shaped a) (h : Agree a b) : Shaped b :=
  ha.mixed ha fun path => Or.inl (h path).symm

theorem Shaped.fields {state : Json} (h : Shaped state) : ∃ top, state = .obj top := by
  have hroot : spot [] state = .object := h []
  cases state with
  | obj top => exact ⟨top, rfl⟩
  | _ => cases hroot

/-- A value that a path leads to as an object is one. -/
theorem obj_of_spot {value : Json} (h : spot [] value = .object) : ∃ fields, value = .obj fields := by
  cases value with
  | obj fields => exact ⟨fields, rfl⟩
  | _ => cases h

theorem get?_of_spot_ne_missing {value : Json} {key : String} {rest : List String}
    (h : spot (key :: rest) value ≠ .missing) :
    ∃ child, value.get? key = some child ∧ spot (key :: rest) value = spot rest child := by
  cases hget : value.get? key with
  | none => exact absurd (spot_cons_of_none hget rest) h
  | some child => exact ⟨child, rfl, spot_cons_of_some hget rest⟩

/-- A part holds an object. -/
theorem Shaped.part {state : Json} (h : Shaped state) {key : String} (hkey : key ∈ partNames) :
    ∃ fields, state.get? key = some (.obj fields) := by
  have hspot : spot [key] state = .object := by
    have hpart := h [key]
    rw [controlSpot_part hkey] at hpart
    exact hpart rfl
  have hfound : spot [key] state ≠ .missing := by
    rw [hspot]
    exact Spot.noConfusion
  obtain ⟨child, hget, hchild⟩ := get?_of_spot_ne_missing hfound
  rw [hspot] at hchild
  obtain ⟨fields, rfl⟩ := obj_of_spot hchild.symm
  exact ⟨fields, hget⟩

/-- There are no other parts. -/
theorem Shaped.no_other {state : Json} (h : Shaped state) {key : String} (hcatalog : key ≠ "catalog")
    (hkey : key ∉ partNames) : state.get? key = none := by
  have hother := h [key]
  rw [controlSpot_other hcatalog hkey] at hother
  cases hget : state.get? key with
  | none => rfl
  | some child =>
      have hspot := hother rfl
      rw [spot_cons_of_some hget] at hspot
      exact absurd hspot (spot_nil_ne_missing child)

/-- The catalog of a shaped state is shaped. -/
theorem Shaped.catalog {state : Json} (h : Shaped state) :
    ∃ catalog, state.get? "catalog" = some catalog ∧ CatalogShaped catalog := by
  have hbelow : ∀ rest, catalogSpot rest (spot ("catalog" :: rest) state) := by
    intro rest
    have hpath := h ("catalog" :: rest)
    rw [controlSpot_catalog] at hpath
    exact hpath
  have hfound : spot ["catalog"] state ≠ .missing := by
    rw [show spot ["catalog"] state = .object from hbelow []]
    exact Spot.noConfusion
  obtain ⟨catalog, hget, _⟩ := get?_of_spot_ne_missing hfound
  refine ⟨catalog, hget, fun rest => ?_⟩
  have hrest := hbelow rest
  rw [spot_cons_of_some hget] at hrest
  exact hrest

/-- A part may be written with an object. -/
theorem Shaped.setPart {top : Fields} (h : Shaped (.obj top)) {key : String}
    (hkey : key ∈ partNames) {value : Json} (hvalue : value.isObject = true) :
    Shaped (.obj (setField key value top)) := by
  intro path
  cases path with
  | nil => rfl
  | cons k rest =>
      by_cases hk : k = key
      · rw [controlSpot_part (hk ▸ hkey)]
        rintro rfl
        have hget : (Json.obj (setField key value top)).get? k = some value := by
          rw [Json.get?, lookup_setField, if_pos hk]
        rw [spot_cons_of_some hget, spot_nil, if_pos hvalue]
      · have hlookup : (setField key value top).lookup k = top.lookup k := by
          rw [lookup_setField, if_neg hk]
        rw [spot_obj_congr hlookup]
        exact h (k :: rest)

/-- The catalog may be written with a shaped one. -/
theorem Shaped.setCatalog {top : Fields} (h : Shaped (.obj top)) {catalog : Json}
    (hcatalog : CatalogShaped catalog) : Shaped (.obj (setField "catalog" catalog top)) := by
  intro path
  cases path with
  | nil => rfl
  | cons k rest =>
      by_cases hk : k = "catalog"
      · rw [hk, controlSpot_catalog]
        have hget : (Json.obj (setField "catalog" catalog top)).get? "catalog" = some catalog := by
          rw [Json.get?, lookup_setField, if_pos rfl]
        rw [spot_cons_of_some hget]
        exact hcatalog rest
      · have hlookup : (setField "catalog" catalog top).lookup k = top.lookup k := by
          rw [lookup_setField, if_neg hk]
        rw [spot_obj_congr hlookup]
        exact h (k :: rest)

/-! ## Catalogs -/

/-- What a shaped catalog holds. -/
structure CatalogFields (fields : Fields) (events : List Json) (names : Fields) : Prop where
  inspectEvents : fields.lookup "inspectEvents" = some (.arr events)
  persistLogs : fields.lookup "persistLogs" = none
  persistLogsByName : fields.lookup "persistLogsByName" = some (.obj names)
  named : ∀ name value, names.lookup name = some value → value = .bool true

theorem catalogShaped_of_fields {fields : Fields} {events : List Json} {names : Fields}
    (h : CatalogFields fields events names) : CatalogShaped (.obj fields) := by
  intro path
  cases path with
  | nil => rfl
  | cons key rest =>
      rw [catalogSpot_cons]
      split_ifs with hevents hlogs hnames
      · rintro rfl
        have hget : (Json.obj fields).get? key = some (.arr events) := hevents ▸ h.inspectEvents
        rw [spot_cons_of_some hget]
        exact ⟨events, rfl⟩
      · rintro rfl
        have hget : (Json.obj fields).get? key = none := hlogs ▸ h.persistLogs
        rw [spot_cons_of_none hget]
      · have hget : (Json.obj fields).get? key = some (.obj names) := hnames ▸ h.persistLogsByName
        rw [spot_cons_of_some hget]
        cases rest with
        | nil => rfl
        | cons name more =>
            cases more with
            | nil =>
                cases hname : (Json.obj names).get? name with
                | none => exact Or.inl (spot_cons_of_none hname [])
                | some value =>
                    right
                    rw [spot_cons_of_some hname, h.named name value hname]
                    rfl
            | cons => trivial

theorem CatalogShaped.fields {catalog : Json} (h : CatalogShaped catalog) :
    ∃ fields events names, catalog = .obj fields ∧ CatalogFields fields events names := by
  obtain ⟨fields, rfl⟩ := obj_of_spot (h [])
  have hevents : ∃ events, spot ["inspectEvents"] (.obj fields) = .plain (.arr events) := by
    have hpath := h ["inspectEvents"]
    rw [catalogSpot_cons] at hpath
    rw [if_pos rfl] at hpath
    exact hpath rfl
  have hlogs : spot ["persistLogs"] (.obj fields) = .missing := by
    have hpath := h ["persistLogs"]
    rw [catalogSpot_cons] at hpath
    rw [if_neg (by decide), if_pos rfl] at hpath
    exact hpath rfl
  have hnames : ∀ rest, namesSpot rest (spot ("persistLogsByName" :: rest) (.obj fields)) := by
    intro rest
    have hpath := h ("persistLogsByName" :: rest)
    rw [catalogSpot_cons] at hpath
    rw [if_neg (by decide), if_neg (by decide), if_pos rfl] at hpath
    exact hpath
  obtain ⟨events, hevents⟩ := hevents
  obtain ⟨list, hlist, hspot⟩ := get?_of_spot_ne_missing
    (by rw [hevents]; exact Spot.noConfusion : spot ["inspectEvents"] (.obj fields) ≠ .missing)
  have hbyName : spot ["persistLogsByName"] (.obj fields) = .object := hnames []
  obtain ⟨byName, hget, hobject⟩ := get?_of_spot_ne_missing
    (by rw [hbyName]; exact Spot.noConfusion :
      spot ["persistLogsByName"] (.obj fields) ≠ .missing)
  rw [hbyName] at hobject
  obtain ⟨names, rfl⟩ := obj_of_spot hobject.symm
  refine ⟨fields, events, names, rfl, ?_, ?_, hget, ?_⟩
  · rw [hevents] at hspot
    have hlist' : list = .arr events := by
      rw [spot_nil] at hspot
      split_ifs at hspot
      exact (Spot.plain.inj hspot).symm
    rw [← hlist']
    exact hlist
  · cases hnone : (Json.obj fields).get? "persistLogs" with
    | none => exact hnone
    | some value =>
        rw [spot_cons_of_some hnone] at hlogs
        exact absurd hlogs (spot_nil_ne_missing value)
  · intro name value hvalue
    have hname := hnames [name]
    have hinner : (Json.obj names).get? name = some value := hvalue
    rw [spot_cons_of_some hget, spot_cons_of_some hinner] at hname
    rcases hname with hmissing | htrue
    · exact absurd hmissing (spot_nil_ne_missing value)
    · rw [spot_nil] at htrue
      split_ifs at htrue
      exact Spot.plain.inj htrue

/-! ## Lists of names -/

def nameFields (names : List Json) : Fields :=
  names.foldl (fun fields name => setField (propertyKey (some name)) (.bool true) fields) []

theorem lookup_nameFields (names : List Json) (key : String) :
    (nameFields names).lookup key =
      if key ∈ names.map (fun name => propertyKey (some name)) then some (.bool true) else none := by
  have hfold : ∀ fields : Fields, (names.foldl (fun fields name =>
      setField (propertyKey (some name)) (.bool true) fields) fields).lookup key =
        if key ∈ names.map (fun name => propertyKey (some name)) then some (.bool true)
        else fields.lookup key := by
    induction names with
    | nil => exact fun fields => rfl
    | cons name names ih =>
        intro fields
        rw [List.foldl_cons, ih, lookup_setField, List.map_cons]
        by_cases hrest : key ∈ names.map fun name => propertyKey (some name)
        · rw [if_pos hrest, if_pos (List.mem_cons_of_mem _ hrest)]
        · by_cases hkey : key = propertyKey (some name)
          · rw [if_neg hrest, if_pos hkey, if_pos (hkey ▸ List.mem_cons_self)]
          · rw [if_neg hrest, if_neg hkey, if_neg fun hmem => (List.mem_cons.mp hmem).elim hkey hrest]
  exact hfold []

theorem nodup_nameFields (names : List Json) : ((nameFields names).map Prod.fst).Nodup := by
  have hfold : ∀ fields : Fields, (fields.map Prod.fst).Nodup →
      ((names.foldl (fun fields name =>
        setField (propertyKey (some name)) (.bool true) fields) fields).map Prod.fst).Nodup := by
    induction names with
    | nil => exact fun fields hfields => hfields
    | cons name names ih => exact fun fields hfields => ih _ (nodup_setField _ _ hfields)
  exact hfold [] List.nodup_nil

/-- Names listed as texts and set again are the same names. -/
theorem agree_nameFields_texts {names : Fields}
    (h : ∀ name value, names.lookup name = some value → value = .bool true) {texts : List String}
    (htexts : ∀ name, name ∈ texts ↔ name ∈ names.map Prod.fst) :
    Agree (.obj (nameFields (texts.map .str))) (.obj names) := by
  refine agree_obj fun name => ?_
  have hmap : (texts.map Json.str).map (fun name => propertyKey (some name)) = texts := by
    rw [List.map_map]
    exact List.map_id texts
  rw [lookup_nameFields, hmap]
  by_cases hname : name ∈ texts
  · rw [if_pos hname]
    obtain ⟨value, hvalue⟩ := Option.isSome_iff_exists.mp
      ((isSome_lookup name names).mpr ((htexts name).mp hname))
    rw [hvalue, h name value hvalue]
    exact agreeField_refl _
  · rw [if_neg hname]
    have hnone : names.lookup name = none := by
      rw [← Option.not_isSome_iff_eq_none, isSome_lookup, ← htexts]
      exact hname
    rw [hnone]
    exact agreeField_refl _

/-! ## Rows -/

/-- The catalog with its names as an object, field by field. -/
theorem lookup_catalogByName (fields : Fields) (key : String) :
    (catalogByName (.obj fields)).get? key =
      if key = "persistLogs" then none
      else if key = "persistLogsByName" then
        some (.obj (nameFields (items (fields.lookup "persistLogs"))))
      else fields.lookup key := by
  show (deleteField "persistLogs" (setField "persistLogsByName"
    (.obj (nameFields (items (fields.lookup "persistLogs")))) fields)).lookup key = _
  rw [lookup_deleteField, lookup_setField]

/-- The catalog with its names keyed, field by field. -/
theorem catalogFields_byName {fields : Fields} {events : List Json}
    (hevents : fields.lookup "inspectEvents" = some (.arr events)) :
    CatalogFields (fieldsOf (catalogByName (.obj fields))) events
      (nameFields (items (fields.lookup "persistLogs"))) := by
  have hget : ∀ key, (fieldsOf (catalogByName (.obj fields))).lookup key =
      (catalogByName (.obj fields)).get? key := fun _ => rfl
  refine ⟨?_, ?_, ?_, ?_⟩
  · rw [hget, lookup_catalogByName, if_neg (by decide), if_neg (by decide)]
    exact hevents
  · rw [hget, lookup_catalogByName, if_pos rfl]
  · rw [hget, lookup_catalogByName, if_neg (by decide), if_pos rfl]
  · intro name value hvalue
    rw [lookup_nameFields] at hvalue
    split_ifs at hvalue
    exact (Option.some.inj hvalue).symm

theorem catalogShaped_byName {fields : Fields} {events : List Json}
    (h : fields.lookup "inspectEvents" = some (.arr events)) :
    CatalogShaped (catalogByName (.obj fields)) := by
  have hfields := catalogFields_byName h
  exact catalogShaped_of_fields hfields

/-- A row whose values, roles and rules are objects has a shaped control state. -/
theorem shaped_normalize {stored : StoredProject} (hvalues : stored.values.isObject = true)
    (hroles : stored.keyRoles.isObject = true) (hrules : stored.keyRules.isObject = true) :
    Shaped (normalize stored) := by
  have hevents : (setField "inspectEvents" (.arr (items (stored.catalog.get? "inspectEvents")))
      (fieldsOf stored.catalog)).lookup "inspectEvents" =
        some (.arr (items (stored.catalog.get? "inspectEvents"))) := by
    rw [lookup_setField, if_pos rfl]
  have hcatalog : CatalogShaped (child (normalize stored) "catalog") := catalogShaped_byName hevents
  intro path
  cases path with
  | nil => rfl
  | cons key rest =>
      rw [controlSpot_cons]
      split_ifs with hkey hpart
      · subst hkey
        exact hcatalog rest
      · rintro rfl
        have hobject : ∀ value, value ∈ [stored.values, stored.keyRoles, stored.keyRules,
            .obj (byId stored.experiments)] → spot [] value = .object := by
          intro value hvalue
          have htrue : value.isObject = true := by
            simp only [List.mem_cons, List.not_mem_nil, or_false] at hvalue
            rcases hvalue with rfl | rfl | rfl | rfl
            · exact hvalues
            · exact hroles
            · exact hrules
            · rfl
          rw [spot_nil, if_pos htrue]
        simp only [partNames, List.mem_cons, List.not_mem_nil, or_false] at hpart
        rcases hpart with rfl | rfl | rfl | rfl
        · exact hobject stored.values (by simp)
        · exact hobject stored.keyRoles (by simp)
        · exact hobject stored.keyRules (by simp)
        · exact hobject (.obj (byId stored.experiments)) (by simp)
      · rintro rfl
        have hnone : (normalize stored).get? key = none := by
          simp only [partNames, List.mem_cons, List.not_mem_nil, or_false, not_or] at hpart
          obtain ⟨h₁, h₂, h₃, h₄⟩ := hpart
          unfold normalize
          rw [Json.get?, lookup_field, if_neg h₁, lookup_field, if_neg h₂, lookup_field, if_neg h₃,
            lookup_field, if_neg h₄, lookup_field, if_neg hkey]
          rfl
        exact spot_cons_of_none hnone []

/-- The names of a shaped catalog, sorted. -/
def sortedNames (names : Fields) : List String := (names.map Prod.fst).insertionSort utf16Le

theorem mem_sortedNames {names : Fields} {name : String} :
    name ∈ sortedNames names ↔ name ∈ names.map Prod.fst := by
  unfold sortedNames
  exact List.mem_insertionSort utf16Le

/-- The catalog with its names as a list, field by field. -/
theorem get?_catalogWithList {fields : Fields} {events : List Json} {names : Fields}
    (h : CatalogFields fields events names) (key : String) :
    (catalogWithList (.obj fields)).get? key =
      if key = "persistLogsByName" then none
      else if key = "persistLogs" then some (.arr ((sortedNames names).map .str))
      else fields.lookup key := by
  have hnames : child (.obj fields) "persistLogsByName" = .obj names := by
    unfold child
    rw [Json.get?, h.persistLogsByName]
    rfl
  have hlist : persistLogNames (.obj fields) = .arr ((sortedNames names).map .str) := by
    unfold persistLogNames
    rw [hnames]
    rfl
  show (deleteField "persistLogsByName"
    (setField "persistLogs" (persistLogNames (.obj fields)) fields)).lookup key = _
  rw [lookup_deleteField, lookup_setField, hlist]

/-- A catalog stored with a list and read back agrees with what was stored. -/
theorem agree_catalog_roundTrip {catalog : Json} (h : CatalogShaped catalog) :
    Agree (catalogByName (.obj (setField "inspectEvents"
      (.arr (items ((catalogWithList catalog).get? "inspectEvents")))
      (fieldsOf (catalogWithList catalog))))) catalog := by
  obtain ⟨fields, events, names, rfl, hfields⟩ := h.fields
  have hget := get?_catalogWithList hfields
  have hevents : (catalogWithList (.obj fields)).get? "inspectEvents" = some (.arr events) := by
    rw [hget, if_neg (by decide), if_neg (by decide), hfields.inspectEvents]
  rw [hevents]
  have hlogs : (setField "inspectEvents" (.arr (items (some (.arr events))))
      (fieldsOf (catalogWithList (.obj fields)))).lookup "persistLogs" =
        some (.arr ((sortedNames names).map .str)) := by
    rw [lookup_setField, if_neg (by decide), get?_fieldsOf, hget, if_neg (by decide), if_pos rfl]
  refine agree_obj fun key => ?_
  change Option.Rel Agree ((catalogByName _).get? key) _
  rw [lookup_catalogByName, hlogs]
  by_cases hlist : key = "persistLogs"
  · rw [if_pos hlist, hlist, hfields.persistLogs]
    exact agreeField_refl _
  · rw [if_neg hlist]
    by_cases hnames : key = "persistLogsByName"
    · rw [if_pos hnames, hnames, hfields.persistLogsByName]
      exact Option.Rel.some (agree_nameFields_texts hfields.named fun name => mem_sortedNames)
    · rw [if_neg hnames, lookup_setField]
      by_cases hevent : key = "inspectEvents"
      · rw [if_pos hevent, hevent, hfields.inspectEvents]
        exact agreeField_refl _
      · rw [if_neg hevent, get?_fieldsOf, hget, if_neg hnames, if_neg hlist]
        exact agreeField_refl _

/-- A keyed, shaped state stored as a row and read back agrees with itself. -/
theorem agree_normalize_denormalize {state : Json} (h : Shaped state) (hkeyed : KeyedState state)
    (version : ℕ) : Agree (normalize (denormalize version state)) state := by
  obtain ⟨top, rfl⟩ := h.fields
  have hpart : ∀ key ∈ partNames, child (.obj top) key ∈ top.lookup key := by
    intro key hkey
    obtain ⟨fields, hget⟩ := h.part hkey
    unfold child
    rw [hget]
    exact hget
  have hexperiments : Agree (.obj (byId ((experimentsById (.obj top)).map Prod.snd)))
      (child (.obj top) "experimentsById") := by
    obtain ⟨fields, hget⟩ := h.part (by decide : "experimentsById" ∈ partNames)
    have hby : experimentsById (.obj top) = fields := by
      unfold experimentsById child
      rw [hget]
      rfl
    unfold child
    rw [hget, hby]
    refine agree_obj fun id => ?_
    rw [lookup_byId (hby ▸ hkeyed.experiments)]
    exact agreeField_refl _
  obtain ⟨catalog, hget, hcatalog⟩ := h.catalog
  have hchild : child (.obj top) "catalog" = catalog := by
    unfold child
    rw [hget]
    rfl
  unfold normalize denormalize
  refine agree_obj fun key => ?_
  rw [lookup_field]
  split_ifs with hkey
  · rw [hkey, Option.mem_def.mp (hpart "values" (by decide))]
    exact agreeField_refl _
  rw [lookup_field]
  split_ifs with hkey
  · rw [hkey, Option.mem_def.mp (hpart "keyRoles" (by decide))]
    exact agreeField_refl _
  rw [lookup_field]
  split_ifs with hkey
  · rw [hkey, Option.mem_def.mp (hpart "keyRules" (by decide))]
    exact agreeField_refl _
  rw [lookup_field]
  split_ifs with hkey
  · rw [hkey, Option.mem_def.mp (hpart "experimentsById" (by decide))]
    exact Option.Rel.some hexperiments
  rw [lookup_field]
  split_ifs with hkey
  · have hlookup : top.lookup "catalog" = some catalog := hget
    rw [hkey, hlookup, hchild]
    exact Option.Rel.some (agree_catalog_roundTrip hcatalog)
  have hnone : top.lookup key = none := h.no_other hkey (by
    simp only [partNames, List.mem_cons, List.not_mem_nil, or_false, not_or]
    exact ⟨‹_›, ‹_›, ‹_›, ‹_›⟩)
  rw [hnone]
  exact Option.Rel.none

/-! ## Catalogs as they are served -/

/-- A served catalog, with its names as an object again. -/
def readCatalog (catalog : Json) : Json :=
  catalogByName (.obj (setField "inspectEvents" (.arr (items (catalog.get? "inspectEvents")))
    (fieldsOf catalog)))

theorem agree_readCatalog {a b : Json} (h : Agree a b) : Agree (readCatalog a) (readCatalog b) := by
  have hfield : ∀ key, Option.Rel Agree
      ((setField "inspectEvents" (.arr (items (a.get? "inspectEvents"))) (fieldsOf a)).lookup key)
      ((setField "inspectEvents" (.arr (items (b.get? "inspectEvents"))) (fieldsOf b)).lookup key) := by
    intro key
    rw [lookup_setField, lookup_setField, items_of_agree (h.get? "inspectEvents"), get?_fieldsOf,
      get?_fieldsOf]
    split_ifs
    · exact agreeField_refl _
    · exact h.get? key
  refine agree_obj fun key => ?_
  change Option.Rel Agree ((catalogByName _).get? key) ((catalogByName _).get? key)
  rw [lookup_catalogByName, lookup_catalogByName, items_of_agree (hfield "persistLogs")]
  split_ifs
  · exact agreeField_refl _
  · exact agreeField_refl _
  · exact hfield key

theorem sortedNames_congr {names names' : Fields} (h : Agree (.obj names) (.obj names'))
    (hnodup : (names.map Prod.fst).Nodup) (hnodup' : (names'.map Prod.fst).Nodup) :
    sortedNames names = sortedNames names' := by
  have hperm : (names.map Prod.fst).Perm (names'.map Prod.fst) := by
    refine (List.perm_ext_iff_of_nodup hnodup hnodup').mpr fun name => ?_
    rw [← isSome_lookup, ← isSome_lookup]
    exact iff_of_eq (congrArg (· = true) (agreeField_isSome (h.get? name)))
  unfold sortedNames
  refine List.Perm.eq_of_pairwise' (List.pairwise_insertionSort utf16Le _)
    (List.pairwise_insertionSort utf16Le _) ?_
  exact ((List.perm_insertionSort _ _).trans hperm).trans (List.perm_insertionSort _ _).symm

/-- Catalogs agree as they are kept exactly when they agree as they are served. -/
theorem agree_catalogWithList_iff {fields fields' : Fields} {events events' : List Json}
    {names names' : Fields} (h : CatalogFields fields events names)
    (h' : CatalogFields fields' events' names') (hnodup : (names.map Prod.fst).Nodup)
    (hnodup' : (names'.map Prod.fst).Nodup) :
    Agree (catalogWithList (.obj fields)) (catalogWithList (.obj fields')) ↔
      Agree (.obj fields) (.obj fields') := by
  constructor
  · intro hserved
    have hread := agree_catalog_roundTrip (catalogShaped_of_fields h)
    have hread' := agree_catalog_roundTrip (catalogShaped_of_fields h')
    exact (hread.symm.trans (agree_readCatalog hserved)).trans hread'
  · intro hkept
    have hnames := hkept.get? "persistLogsByName"
    rw [Json.get?, Json.get?, h.persistLogsByName, h'.persistLogsByName] at hnames
    cases hnames with
    | some hnames =>
        refine agree_obj fun key => ?_
        change Option.Rel Agree ((catalogWithList _).get? key) ((catalogWithList _).get? key)
        rw [get?_catalogWithList h, get?_catalogWithList h',
          sortedNames_congr hnames hnodup hnodup']
        split_ifs
        · exact agreeField_refl _
        · exact agreeField_refl _
        · exact hkept.get? key

/-! ## Experiments as they are listed -/

/-- Keyed experiments agree one by one exactly when they have the same ids in
the same order and agree under each. -/
theorem forall₂_agree_iff {xs ys : Fields} (hxs : Keyed xs) (hys : Keyed ys) :
    List.Forall₂ Agree (xs.map Prod.snd) (ys.map Prod.snd) ↔
      xs.map Prod.fst = ys.map Prod.fst ∧
        ∀ id, Option.Rel Agree (xs.lookup id) (ys.lookup id) := by
  have hx := hxs.own
  have hy := hys.own
  have hnodup := hys.nodup
  clear hxs hys
  induction xs generalizing ys with
  | nil =>
      cases ys with
      | nil => exact ⟨fun _ => ⟨rfl, fun _ => Option.Rel.none⟩, fun _ => List.Forall₂.nil⟩
      | cons field ys => exact ⟨fun h => (by cases h), fun h => (by cases h.1)⟩
  | cons field xs ih =>
      obtain ⟨i, x⟩ := field
      cases ys with
      | nil => exact ⟨fun h => (by cases h), fun h => (by cases h.1)⟩
      | cons field ys =>
          obtain ⟨j, y⟩ := field
          rw [List.map_cons, List.nodup_cons] at hnodup
          have hrest := ih (fun id v hmem => hx id v (List.mem_cons_of_mem _ hmem))
            (fun id v hmem => hy id v (List.mem_cons_of_mem _ hmem)) hnodup.2
          rw [List.map_cons, List.map_cons, List.forall₂_cons, List.map_cons, List.map_cons]
          constructor
          · rintro ⟨hxy, htail⟩
            obtain ⟨hkeys, hlookup⟩ := hrest.mp htail
            have hid := hxy.get? "id"
            rw [hx i x List.mem_cons_self, hy j y List.mem_cons_self] at hid
            cases hid with
            | some htext =>
                have hij : i = j := Json.str.inj (htext.eq_of_plain rfl)
                refine ⟨by rw [hij, hkeys], fun id => ?_⟩
                rw [lookup_field, lookup_field, hij]
                split_ifs
                · exact Option.Rel.some hxy
                · exact hlookup id
          · rintro ⟨hkeys, hlookup⟩
            obtain ⟨hij, hkeys⟩ := List.cons.inj hkeys
            change i = j at hij
            have hhead := hlookup i
            rw [lookup_field, lookup_field, if_pos rfl, if_pos hij] at hhead
            cases hhead with
            | some hxy =>
                refine ⟨hxy, hrest.mpr ⟨hkeys, fun id => ?_⟩⟩
                by_cases hid : id = j
                · have hnone : ys.lookup id = none := by
                    rw [← Option.not_isSome_iff_eq_none, isSome_lookup, hid]
                    exact hnodup.1
                  have hnone' : xs.lookup id = none := by
                    rw [← Option.not_isSome_iff_eq_none, isSome_lookup, hkeys, hid]
                    exact hnodup.1
                  rw [hnone, hnone']
                  exact Option.Rel.none
                · have hother := hlookup id
                  rw [lookup_field, lookup_field, if_neg hid, if_neg (hij ▸ hid)] at hother
                  exact hother

end Wardx.Control
