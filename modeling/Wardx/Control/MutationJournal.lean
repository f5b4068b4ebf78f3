import Wardx.Control.ProjectState

/-!
# The mutation journal

Every change of a project's control state is a journal entry with the change
and its inverse. `commit` applies a change that was computed from the current
version; `rollback` applies a retained inverse to whatever the state is now.

A project record is the stored row with its retained entries. The repository
keeps the last `capacity` entries and so does a read. A transaction that throws
leaves the record as it was. The clock and the id factory are arguments.
-/
namespace Wardx.Control

open Lib Json ControlStateChange

/-- What the caller says about itself. -/
structure ClientIdentity where
  name : String
  version : Option String
  verified : Option Bool
deriving DecidableEq, Repr

/-- The identity an entry records; `available` is whether there is one. -/
structure RecordedIdentity where
  available : Bool
  verified : Bool
  name : Option String := none
  version : Option String := none
deriving DecidableEq, Repr

structure MutationOptions where
  expectedVersion : ℚ
  reason : String
  clientIdentity : Option ClientIdentity
deriving DecidableEq, Repr

/-- The clock and the id factory at the time of a mutation. -/
structure Moment where
  now : ℕ
  changeId : String
deriving DecidableEq, Repr

structure Reversible where
  forward : Change
  inverse : Change
deriving DecidableEq, Repr

structure Entry where
  id : String
  timestamp : ℕ
  project : String
  previousVersion : ℕ
  newVersion : ℕ
  operation : String
  affectedNames : List String
  reason : String
  clientIdentity : RecordedIdentity
  rolledBackChangeId : Option String
  reversible : Reversible
deriving DecidableEq, Repr

/-- A project's row with its journal, oldest entry first. -/
structure ProjectRecord where
  stored : StoredProject
  journal : List Entry
deriving DecidableEq, Repr

structure MutationResult where
  version : ℕ
  changeId : String
  rolledBackChangeId : Option String := none
deriving DecidableEq, Repr

/-! ## Checks -/

def assertFilled (value label : String) : Except String Unit :=
  require (trim value ≠ "") (label ++ " must be a non-empty string")

def unsafeAuditFields : List String :=
  ["credential", "password", "projectkey", "rawkey", "secret", "subject", "subjectid", "token"]

/-- `key.toLowerCase()` as far as comparing with ASCII names goes: one other
character, the Kelvin sign, has an ASCII lower case. -/
def lowerCase (key : String) : String :=
  String.ofList (key.toList.map fun c => if c = '\u212a' then 'k' else c.toLower)

mutual
/-- `assertAuditSafe`; JSON values have no cycles. -/
def assertAuditSafe (label : String) : Json → Except String Unit
  | .arr values => assertItemsAuditSafe label 0 values
  | .obj fields => assertFieldsAuditSafe label fields
  | _ => .ok ()

def assertItemsAuditSafe (label : String) : ℕ → List Json → Except String Unit
  | _, [] => .ok ()
  | index, value :: rest => do
      assertAuditSafe (label ++ "[" ++ toString index ++ "]") value
      assertItemsAuditSafe label (index + 1) rest

def assertFieldsAuditSafe (label : String) : List (String × Json) → Except String Unit
  | [] => .ok ()
  | (key, value) :: rest => do
      require (lowerCase key ∉ unsafeAuditFields)
        (label ++ " contains prohibited audit field: " ++ key)
      assertAuditSafe (label ++ "." ++ key) value
      assertFieldsAuditSafe label rest
end

/-- An operation as the journal stores it. -/
def operationJson (item : Operation) : Json :=
  let path := Json.arr (item.path.map .str)
  match item.edit with
  | .set value => .obj [("operation", .str "set"), ("path", path), ("value", value)]
  | .delete => .obj [("operation", .str "delete"), ("path", path)]

def changeJson (change : Change) : Json :=
  .obj [("operations", .arr (change.operations.map operationJson))]

def checkAffectedNames : List String → List String → Except String Unit
  | _, [] => .ok ()
  | seen, name :: rest => do
      assertFilled name "affectedNames item"
      require (name ∉ seen) ("affectedNames duplicate: " ++ name)
      checkAffectedNames (name :: seen) rest

/-- `normalizeAffectedNames`; the names come back as they were. -/
def normalizeAffectedNames (names : List String) : Except String Unit := do
  require (names ≠ []) "affectedNames must be a non-empty array"
  checkAffectedNames [] names

/-- `normalizeClientIdentity`. -/
def normalizeClientIdentity (identity : Option ClientIdentity) : Except String RecordedIdentity :=
  match identity with
  | none => .ok { available := false, verified := false }
  | some client => do
      assertFilled client.name "clientIdentity.name"
      match client.version with
      | none => pure ()
      | some version => assertFilled version "clientIdentity.version"
      pure { available := true, verified := client.verified.getD false, name := some client.name,
             version := client.version }

def validateVersion (value : ℚ) (label : String) : Except String Unit :=
  require (value.den = 1 && 0 ≤ value.num) (label ++ " must be an integer >= 0")

/-- `entryIdentity`. -/
def entryIdentity (id : String) (changes : List Entry) : Except String Unit := do
  assertFilled id "change id"
  require (changes.all fun entry => entry.id ≠ id) ("duplicate change id: " ++ id)

def validateRetainedChange (entry : Entry) (project : String) : Except String Unit := do
  assertFilled entry.id "retained config change id"
  require (entry.project = project) "retained config change project mismatch"
  require (entry.newVersion = entry.previousVersion + 1)
    "retained config change versions must be consecutive"
  normalizeAffectedNames entry.affectedNames
  assertAuditSafe "retained forward" (changeJson entry.reversible.forward)
  assertAuditSafe "retained inverse" (changeJson entry.reversible.inverse)

/-! ## Transactions -/

/-- `retainedChanges`, and the rows a read returns. -/
def retained (capacity : ℕ) (entries : List Entry) : List Entry :=
  entries.drop (entries.length - capacity)

def versionConflict (current : ℕ) : String :=
  "version conflict: current version is " ++ toString current

/-- The record after a transaction appended an entry. -/
def appended (capacity : ℕ) (record : ProjectRecord) (next : Json) (entry : Entry) :
    ProjectRecord where
  stored := denormalize entry.newVersion next
  journal := retained capacity (record.journal ++ [entry])

/-- What a mutation asks the journal to commit. -/
structure Mutation where
  project : String
  operation : String
  affectedNames : List String
  forward : Change
  inverse : Change
deriving DecidableEq, Repr

/-- `prepareMutation`. -/
def prepareMutation (mutation : Mutation) (options : MutationOptions) :
    Except String RecordedIdentity := do
  assertFilled mutation.project "project"
  validateVersion options.expectedVersion "expectedVersion"
  assertFilled options.reason "reason"
  assertFilled mutation.operation "operation"
  normalizeAffectedNames mutation.affectedNames
  assertAuditSafe "forward" (changeJson mutation.forward)
  assertAuditSafe "inverse" (changeJson mutation.inverse)
  normalizeClientIdentity options.clientIdentity

/-- `commit`. -/
def commit (js : Js) (capacity : ℕ) (record : ProjectRecord) (mutation : Mutation)
    (options : MutationOptions) (moment : Moment) :
    Except String (ProjectRecord × MutationResult) := do
  let identity ← prepareMutation mutation options
  let version := record.stored.version
  require ((version : ℚ) = options.expectedVersion) (versionConflict version)
  let next ← applyChange js (normalize record.stored) mutation.forward
  entryIdentity moment.changeId (retained capacity record.journal)
  let entry : Entry :=
    { id := moment.changeId
      timestamp := moment.now
      project := mutation.project
      previousVersion := version
      newVersion := version + 1
      operation := mutation.operation
      affectedNames := mutation.affectedNames
      reason := trim options.reason
      clientIdentity := identity
      rolledBackChangeId := none
      reversible := ⟨mutation.forward, mutation.inverse⟩ }
  pure (appended capacity record next entry, { version := version + 1, changeId := moment.changeId })

/-- The retained entry with an id. -/
def findChange (capacity : ℕ) (record : ProjectRecord) (changeId : String) : Option Entry :=
  (retained capacity record.journal).find? fun entry => entry.id = changeId

/-- `rollback`. -/
def rollback (js : Js) (capacity : ℕ) (record : ProjectRecord) (project changeId : String)
    (options : MutationOptions) (moment : Moment) :
    Except String (ProjectRecord × MutationResult) := do
  assertFilled project "project"
  assertFilled changeId "changeId"
  validateVersion options.expectedVersion "expectedVersion"
  assertFilled options.reason "reason"
  let identity ← normalizeClientIdentity options.clientIdentity
  let version := record.stored.version
  require ((version : ℚ) = options.expectedVersion) (versionConflict version)
  match findChange capacity record changeId with
  | none => .error ("retained config change not found: " ++ changeId)
  | some target => do
      validateRetainedChange target project
      let next ← applyChange js (normalize record.stored) target.reversible.inverse
      entryIdentity moment.changeId (retained capacity record.journal)
      let entry : Entry :=
        { id := moment.changeId
          timestamp := moment.now
          project := project
          previousVersion := version
          newVersion := version + 1
          operation := "rollback_config_change"
          affectedNames := target.affectedNames
          reason := trim options.reason
          clientIdentity := identity
          rolledBackChangeId := some target.id
          reversible := ⟨target.reversible.inverse, target.reversible.forward⟩ }
      pure (appended capacity record next entry,
        { version := version + 1, changeId := moment.changeId, rolledBackChangeId := some target.id })

/-! ## What a transaction does -/

/-- The entry and the answer of a transaction: it ran at the version the caller
expected, under a fresh id, and made the next version. -/
structure Transacted (capacity : ℕ) (record : ProjectRecord) (options : MutationOptions)
    (entry : Entry) (result : MutationResult) : Prop where
  expected : (record.stored.version : ℚ) = options.expectedVersion
  fresh : ∀ e ∈ retained capacity record.journal, e.id ≠ entry.id
  previousVersion : entry.previousVersion = record.stored.version
  newVersion : entry.newVersion = record.stored.version + 1
  version : result.version = record.stored.version + 1
  changeId : result.changeId = entry.id

theorem fresh_of_entryIdentity {id : String} {changes : List Entry}
    (h : entryIdentity id changes = .ok ()) : ∀ e ∈ changes, e.id ≠ id := by
  unfold entryIdentity at h
  simp only [bind_eq_ok_iff, require_eq_ok_iff, List.all_eq_true, decide_eq_true_eq] at h
  obtain ⟨_, _, hfresh⟩ := h
  exact hfresh

/-- A successful commit applied its change to the current state. -/
theorem commit_ok {js : Js} {capacity : ℕ} {record after : ProjectRecord} {mutation : Mutation}
    {options : MutationOptions} {moment : Moment} {result : MutationResult}
    (h : commit js capacity record mutation options moment = .ok (after, result)) :
    ∃ next entry, applyChange js (normalize record.stored) mutation.forward = .ok next ∧
      after = appended capacity record next entry ∧
      entry.reversible = ⟨mutation.forward, mutation.inverse⟩ ∧
      Transacted capacity record options entry result ∧ result.rolledBackChangeId = none := by
  unfold commit at h
  simp only [bind_eq_ok_iff, require_eq_ok_iff, exists_const, decide_eq_true_eq] at h
  obtain ⟨identity, _, hexpected, next, hnext, ⟨⟩, hfresh, hresult⟩ := h
  obtain ⟨rfl, rfl⟩ := Prod.mk.inj (Except.ok.inj hresult)
  exact ⟨next, _, hnext, rfl, rfl,
    ⟨hexpected, fresh_of_entryIdentity hfresh, rfl, rfl, rfl, rfl⟩, rfl⟩

/-- A successful rollback applied the inverse of a retained entry, and recorded
that entry's two changes the other way round. -/
theorem rollback_ok {js : Js} {capacity : ℕ} {record after : ProjectRecord}
    {project changeId : String} {options : MutationOptions} {moment : Moment}
    {result : MutationResult}
    (h : rollback js capacity record project changeId options moment = .ok (after, result)) :
    ∃ target next entry, findChange capacity record changeId = some target ∧
      applyChange js (normalize record.stored) target.reversible.inverse = .ok next ∧
      after = appended capacity record next entry ∧
      entry.reversible = ⟨target.reversible.inverse, target.reversible.forward⟩ ∧
      Transacted capacity record options entry result := by
  unfold rollback at h
  simp only [bind_eq_ok_iff, require_eq_ok_iff, exists_const, decide_eq_true_eq] at h
  obtain ⟨_, _, _, _, _, _, _, _, _, _, hexpected, h⟩ := h
  split at h
  · cases h
  · rename_i target htarget
    simp only [bind_eq_ok_iff] at h
    obtain ⟨_, _, next, hnext, ⟨⟩, hfresh, hresult⟩ := h
    obtain ⟨rfl, rfl⟩ := Prod.mk.inj (Except.ok.inj hresult)
    exact ⟨target, next, _, htarget, hnext, rfl, rfl, hexpected, fresh_of_entryIdentity hfresh,
      rfl, rfl, rfl, rfl⟩

theorem mem_retained {capacity : ℕ} {entries : List Entry} {entry : Entry}
    (h : entry ∈ retained capacity entries) : entry ∈ entries :=
  List.mem_of_mem_drop h

theorem mem_of_findChange {capacity : ℕ} {record : ProjectRecord} {changeId : String}
    {target : Entry} (h : findChange capacity record changeId = some target) :
    target ∈ record.journal :=
  mem_retained (List.mem_of_find?_eq_some h)

end Wardx.Control
