import Wardx.Control.ValidateExperiment
import Wardx.Lib.Table
import Wardx.Storage.ExperimentLedger

/-!
# Credentials

A credential value stands for one project, the roles it may claim and whether
its evidence counts for decisions. The registry is read once from the
configuration; a record that fails a check never enters it, which the types of
records and of the registry state.
-/
namespace Wardx

open Lib Json Control

/-- Named roles, each once. -/
structure AllowedRoles where
  names : List String
  named : ∀ role ∈ names, role ≠ "" ∧ role ≠ "*"
  nodup : names.Nodup

structure CredentialRecord where
  project : String
  label : String
  allowedRoles : AllowedRoles
  trustedForDecisions : Bool
  enabled : Bool
  project_ne : project ≠ ""
  label_ne : label ≠ ""
  allowedRoles_ne : allowedRoles.names ≠ []

/-- Records under their credential values; labels tell them apart. -/
structure CredentialRegistry where
  records : Table String CredentialRecord
  labels : ∀ a b left right, records.get a = some left → records.get b = some right →
    left.label = right.label → a = b

/-- `CredentialAuthorizationError.code`. -/
inductive AuthorizationCode
  | unknownCredential
  | disabledCredential
  | invalidRole
  | roleNotAllowed
deriving DecidableEq, Repr

namespace CredentialRegistry

/-! ## Reading the configuration -/

/-- A non-empty text, or the message of `assertNonEmptyString`. -/
def nonEmptyString (value : Option Json) (label : String) :
    Except String { text : String // text ≠ "" } :=
  match text? value with
  | none => .error (label ++ " must be a non-empty string")
  | some text =>
      if h : text ≠ "" then .ok ⟨text, h⟩ else .error (label ++ " must be a non-empty string")

def noRoles : AllowedRoles where
  names := []
  named := by simp
  nodup := List.nodup_nil

theorem named_append {roles : AllowedRoles} {role : String} (hne : role ≠ "") (hstar : role ≠ "*") :
    ∀ name ∈ roles.names ++ [role], name ≠ "" ∧ name ≠ "*" := by
  intro name hname
  rw [List.mem_append, List.mem_singleton] at hname
  cases hname with
  | inl hold => exact roles.named name hold
  | inr hnew =>
      rw [hnew]
      exact ⟨hne, hstar⟩

theorem nodup_concat {roles : List String} {role : String} (h : roles.Nodup) (hnew : role ∉ roles) :
    (roles ++ [role]).Nodup :=
  List.nodup_append.mpr ⟨h, List.nodup_singleton role, by
    intro a ha b hb hab
    rw [List.mem_singleton] at hb
    exact hnew (hb ▸ hab ▸ ha)⟩

/-- One round of the loop of `validateAllowedRoles`. -/
def addRole (label : String) (seen : AllowedRoles) (role : Json) : Except String AllowedRoles := do
  let ⟨name, hne⟩ ← nonEmptyString (some role) (label ++ " role")
  if hstar : name ≠ "*" then
    if hnew : name ∉ seen.names then
      .ok ⟨seen.names ++ [name], named_append hne hstar, nodup_concat seen.nodup hnew⟩
    else .error (label ++ " duplicate role: " ++ name)
  else .error (label ++ " cannot contain *")

def addRoles (label : String) : AllowedRoles → List Json → Except String AllowedRoles
  | seen, [] => .ok seen
  | seen, role :: roles => do
      let next ← addRole label seen role
      addRoles label next roles

/-- `validateAllowedRoles`. -/
def validateAllowedRoles (value : Option Json) (label : String) :
    Except String { roles : AllowedRoles // roles.names ≠ [] } := do
  require (items value ≠ []) (label ++ " must be a non-empty array of role names")
  let roles ← addRoles label noRoles (items value)
  if h : roles.names ≠ [] then .ok ⟨roles, h⟩
  else .error (label ++ " must be a non-empty array of role names")

def boolean (value : Option Json) (message : String) : Except String Bool :=
  match value with
  | some (.bool b) => .ok b
  | _ => .error message

/-- `CREDENTIAL_FIELDS`. -/
def credentialFields : List String :=
  ["project", "label", "allowedRoles", "trustedForDecisions", "enabled"]

/-- `validateRecord`. -/
def validateRecord (record : Json) (label : String) : Except String CredentialRecord := do
  require record.isObject (label ++ " must be an object")
  checkAll (fun field => require (record.get? field).isSome (label ++ "." ++ field ++ " is required"))
    credentialFields
  checkKeys credentialFields label record
  let ⟨project, hproject⟩ ← nonEmptyString (record.get? "project") (label ++ ".project")
  let ⟨name, hname⟩ ← nonEmptyString (record.get? "label") (label ++ ".label")
  let ⟨roles, hroles⟩ ← validateAllowedRoles (record.get? "allowedRoles") (label ++ ".allowedRoles")
  let trusted ← boolean (record.get? "trustedForDecisions")
    (label ++ ".trustedForDecisions must be a boolean")
  let enabled ← boolean (record.get? "enabled") (label ++ ".enabled must be a boolean")
  pure ⟨project, name, roles, trusted, enabled, hproject, hname, hroles⟩

/-- The label in a record's messages. -/
def messageLabel (record : Json) : String :=
  match text? (record.get? "label") with
  | some "" => "credentials.<unlabeled>"
  | some label => "credentials." ++ label
  | none => "credentials.<unlabeled>"

def empty : CredentialRegistry where
  records := Table.empty
  labels := by
    intro a b left right h
    cases h

def Fresh (registry : CredentialRegistry) (label : String) : Prop :=
  ∀ record ∈ registry.records.values, record.label ≠ label

instance (registry : CredentialRegistry) (label : String) : Decidable (registry.Fresh label) :=
  inferInstanceAs (Decidable (∀ record ∈ registry.records.values, record.label ≠ label))

theorem labels_put {registry : CredentialRegistry} {record : CredentialRecord}
    (hfresh : registry.Fresh record.label) (credential : String) :
    ∀ a b left right, (registry.records.put credential record).get a = some left →
      (registry.records.put credential record).get b = some right →
      left.label = right.label → a = b := by
  have hold : ∀ a held, registry.records.get a = some held → held.label ≠ record.label := by
    intro a held h
    exact hfresh held (List.mem_map_of_mem ((registry.records.get_eq_some_iff a held).mp h))
  intro a b left right ha hb hlabel
  rw [Table.get_put] at ha hb
  split_ifs at ha hb with hak hbk hbk
  · exact hak.trans hbk.symm
  · cases ha
    exact absurd hlabel.symm (hold b right hb)
  · cases hb
    exact absurd hlabel (hold a left ha)
  · exact registry.labels a b left right ha hb hlabel

/-- One round of the constructor's loop. -/
def addCredential (registry : CredentialRegistry) (entry : String × Json) :
    Except String CredentialRegistry := do
  require (entry.1 ≠ "") "credential must be a non-empty string"
  let record ← validateRecord entry.2 (messageLabel entry.2)
  if h : registry.Fresh record.label then
    .ok ⟨registry.records.put entry.1 record, labels_put h entry.1⟩
  else .error ("credential label must be unique: " ++ record.label)

def addCredentials : CredentialRegistry → List (String × Json) → Except String CredentialRegistry
  | registry, [] => .ok registry
  | registry, entry :: entries => do
      let next ← addCredential registry entry
      addCredentials next entries

/-- The constructor. -/
def create (records : Json) : Except String CredentialRegistry :=
  match records with
  | .obj entries => addCredentials empty entries
  | _ => .error "credentials must be an object keyed by credential value"

/-! ## Requests -/

/-- `authenticate`; a request may come without a key. -/
def authenticate (registry : CredentialRegistry) (credential : Option String) :
    Except AuthorizationCode CredentialRecord :=
  match credential.bind registry.records.get with
  | none => .error .unknownCredential
  | some record => if record.enabled then .ok record else .error .disabledCredential

/-- `authorize`: the source of an envelope that claims the role. -/
def authorize (record : CredentialRecord) (claimedRole : String) : Except AuthorizationCode Source :=
  if claimedRole = "" ∨ claimedRole = "*" then .error .invalidRole
  else if claimedRole ∈ record.allowedRoles.names then
    .ok ⟨record.label, claimedRole, record.trustedForDecisions⟩
  else .error .roleNotAllowed

/-- `resolve`. -/
def resolve (registry : CredentialRegistry) (credential : Option String) (claimedRole : String) :
    Except AuthorizationCode Source := do
  let record ← registry.authenticate credential
  authorize record claimedRole

/-- What an authenticated request knows of its credential. -/
theorem authenticate_eq_ok {registry : CredentialRegistry} {credential : Option String}
    {record : CredentialRecord} (h : registry.authenticate credential = .ok record) :
    ∃ value, registry.records.get value = some record ∧ record.enabled = true := by
  unfold authenticate at h
  split at h
  · cases h
  · rename_i held hget
    split_ifs at h with henabled
    cases h
    obtain ⟨value, _, hrecord⟩ := Option.bind_eq_some_iff.mp hget
    exact ⟨value, hrecord, henabled⟩

theorem authorize_eq_ok {record : CredentialRecord} {role : String} {source : Source}
    (h : authorize record role = .ok source) :
    role ∈ record.allowedRoles.names ∧
      source = ⟨record.label, role, record.trustedForDecisions⟩ := by
  unfold authorize at h
  split_ifs at h with hinvalid hallowed
  cases h
  exact ⟨hallowed, rfl⟩

end CredentialRegistry

end Wardx
