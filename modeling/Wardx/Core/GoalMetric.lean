import Wardx.Core.Exposure
import Wardx.Control.ControlRun
import Wardx.Control.ServiceSpec
import Wardx.Config.ConfigContract

/-!
# One experiment for a goal

A published snapshot has no two enabled experiments of one goal metric that a
role sees both of. Every exposed assignment is of an enabled experiment of the
config applied last, so at most one of a subject's has the metric.
-/
namespace Wardx.Core

open Lib Json Control Config ControlService

/-! ## Served configs -/

/-- The repository's snapshot passed its checks when it was published. -/
def PublishedIn (repository : ConfigRepository) : Prop :=
  ∃ next : ConfigSnapshot, validateConfigSnapshot next.snapshot = .ok () ∧
    repository.current = next.forClients

/-- A config that a client of the role is served, after any calls on a
repository that began with an accepted snapshot. -/
def ServedTo (wiring : Wiring) (role : String) (config : WireConfig) : Prop :=
  ∃ (initial : ConfigSnapshot) (history : List Call) (client : Client),
    validateConfigSnapshot initial.snapshot = .ok () ∧ client.role = role ∧
    config = (wireSnapshot wiring
      (history.foldl (Config.afterCall wiring) (newRepository initial.forClients)) client).1.config

/-- Two experiments of one config are not both enabled with the same metric. -/
def Apart (a b : Json) : Prop :=
  ¬ (truthy (a.get? "enabled") = true ∧ truthy (b.get? "enabled") = true ∧
    a.get? "goalMetric" = b.get? "goalMetric")

instance : Std.Symm Apart where
  symm _ _ h hboth := h ⟨hboth.2.1, hboth.1, hboth.2.2.symm⟩

theorem exists_keys_ne {κ α : Type*} {entries : List (κ × α)} (hkeys : (entries.map Prod.fst).Nodup)
    (hmany : 1 < entries.length) : ∃ a ∈ entries, ∃ b ∈ entries, a.1 ≠ b.1 := by
  match entries, hkeys, hmany with
  | a :: b :: rest, hkeys, _ =>
      refine ⟨a, List.mem_cons_self, b, List.mem_cons_of_mem a List.mem_cons_self, ?_⟩
      exact (List.pairwise_cons.mp hkeys).1 b.1 List.mem_cons_self

section
variable {wiring : Wiring} {repository : ConfigRepository}

theorem PublishedIn.afterCall (h : PublishedIn repository) (call : Call) :
    PublishedIn (Config.afterCall wiring repository call) := by
  cases call with
  | roleView role => exact h
  | wireSnapshot client => exact h
  | buildResponse configVersion client configContext serverTime => exact h
  | replace next catalog =>
      show PublishedIn (Config.replace wiring repository next catalog)
      unfold Config.replace
      split
      · rename_i hchecks
        rw [bind_eq_ok_iff] at hchecks
        obtain ⟨_, hvalid, _⟩ := hchecks
        exact ⟨next, hvalid, rfl⟩
      · exact h

theorem PublishedIn.history (h : PublishedIn repository) (history : List Call) :
    PublishedIn (history.foldl (Config.afterCall wiring) repository) := by
  induction history generalizing repository with
  | nil => exact h
  | cons call history ih => exact ih (h.afterCall call)

theorem rolesOverlap_of_sees {a b : Option Json} {role : String} (ha : roleSees a role = true)
    (hb : roleSees b role = true) : rolesOverlap a b = true := by
  unfold roleSees at ha hb
  unfold rolesOverlap
  rw [Bool.or_eq_true] at ha hb
  rcases ha with hall | hown
  · rw [hall]
    rfl
  · rcases hb with hall' | hown'
    · rw [hall', Bool.or_true]
      rfl
    · have hcommon : (items a).any (fun role => decide (role ∈ items b)) = true := by
        apply List.any_eq_true.mpr
        exact ⟨.str role, of_decide_eq_true hown, hown'⟩
      rw [hcommon, Bool.or_true]

/-- A field of the wire copy that the projections keep. -/
theorem get?_wireCopy {experiment : Json} {key : String} (hclient : key ∈ clientKeys)
    (hvariants : key ≠ "variants")
    (hkept : key ∉ ["roles", "assignmentUnitKind", "terminalRetentionMs"] ++ fixedHorizonFields ++
      ["shippedVariant"]) :
    (toWireExperiment (toClientExperiment experiment)).get? key = experiment.get? key := by
  show (List.foldl _ (fieldsOf (toClientExperiment (toClientExperiment experiment))) _).lookup key = _
  rw [lookup_foldl_deleteField, if_neg hkept]
  exact (get?_toClientExperiment_of_mem hclient hvariants).trans
    (get?_toClientExperiment_of_mem hclient hvariants)

/-- What a role is served of an accepted snapshot is unambiguous. -/
theorem pairwise_apart_of_valid {next : ConfigSnapshot}
    (hvalid : validateConfigSnapshot next.snapshot = .ok ()) (client : Client) :
    (resolvedWire wiring next.forClients.snapshot client).config.experiments.Pairwise Apart := by
  have hpair : next.snapshot.experiments.Pairwise fun left right => ambiguous left right = false := by
    unfold validateConfigSnapshot at hvalid
    simp only [bind_eq_ok_iff] at hvalid
    obtain ⟨_, _, _, _, _, _, _, _, hunambiguous⟩ := hvalid
    exact (assertUnambiguousGoalMetrics_eq_ok_iff _).mp hunambiguous
  show (((next.snapshot.experiments.map toClientExperiment).filter fun experiment =>
    roleSees (experiment.get? "roles") client.role).map toWireExperiment).Pairwise Apart
  rw [List.pairwise_map, List.pairwise_filter, List.pairwise_map]
  refine hpair.imp ?_
  intro left right hapart hleft hright
  rw [get?_toClientExperiment_of_mem (by decide) (by decide)] at hleft hright
  rintro ⟨henabledLeft, henabledRight, hmetric⟩
  rw [get?_wireCopy (by decide) (by decide) (by decide)] at henabledLeft henabledRight
  rw [get?_wireCopy (by decide) (by decide) (by decide),
    get?_wireCopy (by decide) (by decide) (by decide)] at hmetric
  have hambiguous : ambiguous left right = true := by
    unfold ambiguous
    rw [henabledLeft, henabledRight, decide_eq_true hmetric, rolesOverlap_of_sees hleft hright]
    rfl
  rw [hapart] at hambiguous
  cases hambiguous

theorem ServedTo.pairwise_apart {role : String} {config : WireConfig}
    (h : ServedTo wiring role config) : config.experiments.Pairwise Apart := by
  obtain ⟨initial, history, client, hvalid, -, rfl⟩ := h
  have hpublished : PublishedIn (newRepository initial.forClients) := ⟨initial, hvalid, rfl⟩
  have hlater : PublishedIn (history.foldl (Config.afterCall wiring)
      (newRepository initial.forClients)) := hpublished.history history
  obtain ⟨next, hnext, hcurrent⟩ := hlater
  rw [(wireSnapshot_eq wiring initial.forClients history client).1]
  rw [hcurrent]
  exact pairwise_apart_of_valid hnext client

end

/-! ## Goals -/

section
variable {settings : ClientSettings} {subjects : List String} {definitions : List Json}
  {core : ClientCore}

/-- Under unambiguous experiments no two exposed assignments share the metric. -/
theorem exposedAssignmentForGoal_ok (h : Remembers settings.hashes subjects definitions core)
    (hapart : core.config.experiments.Pairwise Apart) (subjectId metric : String) :
    ∃ found, exposedAssignmentForGoal settings.hashes subjectId metric core.stateBySubject =
      .ok found := by
  unfold exposedAssignmentForGoal
  dsimp only
  rw [if_neg]
  · exact ⟨_, rfl⟩
  · intro hmany
    unfold assignmentsFor at hmany
    cases hget : core.stateBySubject.get (settings.hashes.subjectHash subjectId) with
    | none =>
        rw [hget] at hmany
        simp at hmany
    | some state =>
        rw [hget] at hmany
        change 1 < ((state.entries.map Prod.snd).filter _).length at hmany
        rw [List.filter_map, List.length_map] at hmany
        obtain ⟨first, hfirst, second, hsecond, hids⟩ :=
          exists_keys_ne (state.nodup.sublist (List.filter_sublist.map Prod.fst)) hmany
        have hbacked : ∀ entry ∈ state.entries.filter ((fun assignment : Assignment =>
            assignment.exposed && decide (assignment.goalMetric = some (.str metric))) ∘ Prod.snd),
            ∃ experiment ∈ core.config.experiments, idOf experiment = entry.1 ∧
              truthy (experiment.get? "enabled") = true ∧
              experiment.get? "goalMetric" = some (.str metric) := by
          intro entry hentry
          obtain ⟨hmem, hmatches⟩ := List.mem_filter.mp hentry
          have hmetric : entry.2.goalMetric = some (.str metric) :=
            of_decide_eq_true ((Bool.and_eq_true _ _).mp hmatches).2
          have hassigned : assigned core.stateBySubject (settings.hashes.subjectHash subjectId)
              entry.1 = some entry.2 := by
            unfold assigned
            rw [hget]
            exact (Table.get_eq_some_iff state entry.1 entry.2).mpr hmem
          obtain ⟨-, -, _, -, -, experiment, hexperiment, hid, hmade⟩ := h.backed _ _ _ hassigned
          obtain ⟨variant, hvariant, -⟩ := hmade.variant
          exact ⟨experiment, hexperiment, hid, (assignVariant_some hvariant).1,
            hmade.goalMetric metric hmetric⟩
        obtain ⟨a, ha, haId, haEnabled, haMetric⟩ := hbacked first hfirst
        obtain ⟨b, hb, hbId, hbEnabled, hbMetric⟩ := hbacked second hsecond
        have hne : a ≠ b := by
          intro hab
          rw [hab, hbId] at haId
          exact hids haId.symm
        exact hapart.forall ha hb hne
          ⟨haEnabled, hbEnabled, haMetric.trans hbMetric.symm⟩

end

/-- Whatever a client of a role is served, and whatever it reads in between, no
goal matches two exposed experiments: a goal of a known subject succeeds. -/
theorem goal_unambiguous (wiring : Wiring) (role : String) (settings : ClientSettings)
    (calls : List CoreCall)
    (hserved : ∀ version config, .applyConfig version config ∈ calls → ServedTo wiring role config)
    (hinjective : FingerprintsInjective settings.hashes (calls.flatMap CoreCall.definitions)) :
    let core := coreAfter settings calls
    (∀ subjectId metric, ∃ found, exposedAssignmentForGoal settings.hashes subjectId metric
      core.stateBySubject = .ok found) ∧
    ∀ name context value subjectId, core.subjectFrom context = some subjectId → name ≠ "" →
      (core.experimentGoal settings name context value).1 = .ok () := by
  have hapart : (coreAfter settings calls).config.experiments.Pairwise Apart := by
    rcases experiments_coreAfter settings calls with hnil | ⟨call, hcall, hsame⟩
    · rw [hnil]
      exact List.Pairwise.nil
    · rw [hsame]
      cases call with
      | applyConfig version config => exact (hserved version config hcall).pairwise_apart
      | configGet key context => exact List.Pairwise.nil
      | identify subjectId => exact List.Pairwise.nil
      | experimentGoal name context value => exact List.Pairwise.nil
  have hremembers : Remembers settings.hashes (calls.flatMap CoreCall.subjects)
      (calls.flatMap CoreCall.definitions) (coreAfter settings calls) :=
    remembers_coreAfter hinjective fun call hcall => within_of_mem hcall
  have hgoal := exposedAssignmentForGoal_ok hremembers hapart
  refine ⟨hgoal, ?_⟩
  intro name context value subjectId hsubject hname
  obtain ⟨found, hfound⟩ := hgoal subjectId name
  unfold ClientCore.experimentGoal
  rw [hsubject]
  dsimp only
  rw [if_neg hname, hfound]
  cases found with
  | none => rfl
  | some assignment => rfl

/-! ### Two snapshots -/

def checkoutSnapshot (version : ℕ) (ids : List String) : ConfigSnapshot where
  version := version
  snapshot := (sampleProject (ids.map fun id => sampleExperiment id true 1 ["a", "b"])).snapshot
  values_nodup := List.nodup_singleton "color"
  rules_nodup := List.nodup_nil

def servedCheckout (version : ℕ) (ids : List String) : WireConfig :=
  (wireSnapshot ⟨Js.plain, id⟩ (newRepository (checkoutSnapshot version ids).forClients)
    webClient).1.config

/-- The digests under the salt `salt` of the one subject and the two definitions. -/
def checkoutSettings : ClientSettings where
  hashes :=
    { subjectHash := fun _ => "36236c197b012745"
      snapshotHash := fun definition =>
        if definition.get? "id" = some (.str "checkout") then "07ce635b955dd6a5"
        else "4e6e3ca2092e80cf" }
  experimentStateMaxSubjects := 1000
  max_pos := Nat.zero_lt_succ _

def checkoutCalls : List CoreCall :=
  [.applyConfig 1 (servedCheckout 1 ["checkout"]), .configGet "color" (some "u1"),
    .applyConfig 2 (servedCheckout 2 ["banner", "checkout"]), .configGet "color" (some "u1")]

/-- Subject `u1` has been exposed to both experiments. -/
theorem goal_unambiguous_checkout :
    (assignmentsFor checkoutSettings.hashes "u1"
        (coreAfter checkoutSettings checkoutCalls).stateBySubject).map
          (fun assignment => (assignment.experiment, assignment.exposed)) =
        [("checkout", true), ("banner", true)] ∧
      ((coreAfter checkoutSettings checkoutCalls).experimentGoal checkoutSettings "checkout"
        (some "u1") none).1 = .ok () := by
  have hserved : ∀ version config, .applyConfig version config ∈ checkoutCalls →
      ServedTo ⟨Js.plain, id⟩ "web" config := by
    intro version config hcall
    have hconfig : config = servedCheckout 1 ["checkout"] ∨
        config = servedCheckout 2 ["banner", "checkout"] := by
      simp only [checkoutCalls, List.mem_cons, List.not_mem_nil, CoreCall.applyConfig.injEq,
        reduceCtorEq, false_or, or_false] at hcall
      exact hcall.imp And.right And.right
    rcases hconfig with rfl | rfl
    · exact ⟨checkoutSnapshot 1 ["checkout"], [], webClient, by decide +kernel, rfl, rfl⟩
    · exact ⟨checkoutSnapshot 2 ["banner", "checkout"], [], webClient, by decide +kernel, rfl, rfl⟩
  have hinjective : FingerprintsInjective checkoutSettings.hashes
      (checkoutCalls.flatMap CoreCall.definitions) := by
    rintro _ ⟨a, ha, rfl⟩ _ ⟨b, hb, rfl⟩ hhash
    have htwo : ∀ a ∈ checkoutCalls.flatMap CoreCall.definitions,
        ∀ b ∈ checkoutCalls.flatMap CoreCall.definitions,
          checkoutSettings.hashes.snapshotHash (canonicalize a) =
            checkoutSettings.hashes.snapshotHash (canonicalize b) →
          canonicalize a = canonicalize b := by decide +kernel
    exact htwo a ha b hb hhash
  refine ⟨by decide +kernel, ?_⟩
  exact (goal_unambiguous ⟨Js.plain, id⟩ "web" checkoutSettings checkoutCalls hserved hinjective).2
    "checkout" (some "u1") none "u1" rfl (by decide)

end Wardx.Core
