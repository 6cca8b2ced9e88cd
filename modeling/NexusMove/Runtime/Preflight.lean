import NexusMove.Runtime.Executor
import NexusMove.Runtime.Lookup

/-!
# The preflight of the executor

The executor holds a bytecode policy and a configuration. Whatever it publishes
should pass the structural check of the one and the size limit of the other. The
planning backend makes the check, under a policy of its own; the real backend makes
none; and neither looks at the size limit.

* `preflight_iff` — where the two hold for what is published.
* `preflight_is_skipped` — the real backend publishes a bundle without modules.
-/

namespace NexusMove

/-- How an executor is built: with the planning backend, or over a backend that is given. -/
inductive ExecutorBuild where
  | new
  | withVm (b : Backend)

namespace ExecutorBuild

def backend : ExecutorBuild → Backend
  | new => .planning
  | withVm b => b

def executor (v : Vendor) (config : VmConfig) : ExecutorBuild → MoveExecutor
  | new => .new v.blake3 config
  | withVm b => .withVm (b.vm v) config

variable {v : Vendor} {config : VmConfig} (build : ExecutorBuild)

@[simp] theorem executor_vm : (build.executor v config).vm = build.backend.vm v := by
  cases build <;> rfl

@[simp] theorem executor_config : (build.executor v config).config = config := by
  cases build <;> rfl

@[simp] theorem executor_bytecodePolicy :
    (build.executor v config).bytecodePolicy = .bootstrap := by
  cases build <;> rfl

end ExecutorBuild

/-- What is published passes the executor's structural check and its size limit. -/
def PreflightHolds (executor : MoveExecutor) (σ : Store) (request : ModulePublish) : Prop :=
  ∀ out, executor.publishModules σ.view request = .ok out → out.status = .success →
    verifyPublishBundle request.modules executor.bytecodePolicy = .ok ()
    ∧ ∀ m ∈ request.modules, m.length ≤ executor.config.maxBinarySize

/-- The backend has no reason of its own to refuse: on the real one, every module is accepted; on
the planning one, the bundle passes the structural check, its address is free, and its price is
covered. -/
def Admits (v : Vendor) (σ : Store) (request : ModulePublish) : Backend → Prop
  | .real _ _ => ∀ bytes ∈ request.modules, ∃ p, p.bytes = bytes ∧ Accepted v σ request p
  | .planning =>
    BundleFits .default request.modules
    ∧ σ (contractAddress v.blake3 request.sender request.modules, moduleCodeLegacyKey) = none
    ∧ PlanCovered .default request.modules request.gasLimit

/-- What the checks would have found: a bundle within the limits, and every module within the size
limit. The planning backend makes the first of the two checks. -/
def WithinChecks (config : VmConfig) (modules : List Bytes) : Backend → Prop
  | .real _ _ =>
    BundleFits .default modules ∧ ∀ m ∈ modules, m.length ≤ config.maxBinarySize
  | .planning => ∀ m ∈ modules, m.length ≤ config.maxBinarySize

section Spec

variable {v : Vendor} {σ : Store} {request : ModulePublish}

/-- The planning backend publishes exactly the bundles it has no reason to refuse. -/
theorem planning_succeeds_iff :
    (∃ out, (planningMoveVm v.blake3).publishModules σ.view request = .ok out
      ∧ out.status = .success) ↔ Admits v σ request .planning := by
  constructor
  · rintro ⟨out, hout, hsuccess⟩
    obtain ⟨outcome, hrun, rfl⟩ := planning_publishModules_eq_ok.mp hout
    obtain ⟨hverify, ⟨-, heq⟩ | ⟨-, -, heq⟩ | ⟨hfree, hcovered, -⟩⟩ :=
      publishVerifiedModules_cases hrun
    · simp [heq, VmOutput.withoutEffects] at hsuccess
    · simp [heq, VmOutput.withoutEffects] at hsuccess
    · exact ⟨bootstrap_eq_ok.mp hverify, by simpa using hfree, hcovered⟩
  · rintro ⟨hfits, hfree, hcovered⟩
    have hnone : σ.view.hasModule (contractAddress v.blake3 request.sender request.modules)
        = .ok false := by
      rw [Store.view_hasModule, hfree]
      rfl
    have hrun := publishVerifiedModules_of_admitted (bootstrap_eq_ok.mpr hfits) hnone hcovered
    exact ⟨_, planning_publishModules_eq_ok.mpr ⟨_, hrun, rfl⟩, rfl⟩

end Spec

/-- **The preflight.** Where the backend admits a bundle, the preflight holds of it exactly if the
bundle is within what nobody checked. -/
theorem preflight_iff (v : Vendor) (build : ExecutorBuild) (config : VmConfig) (σ : Store)
    (request : ModulePublish) :
    PreflightHolds (build.executor v config) σ request ↔
      (Admits v σ request build.backend → WithinChecks config request.modules build.backend) := by
  simp only [PreflightHolds, MoveExecutor.publishModules, ExecutorBuild.executor_vm,
    ExecutorBuild.executor_config, ExecutorBuild.executor_bytecodePolicy, bootstrap_eq_ok]
  cases build.backend with
  | real backendConfig interpreter =>
    constructor
    · intro h hadmits
      obtain ⟨out, hout, hsuccess⟩ := (succeeds_iff v _).mpr hadmits
      exact h out hout hsuccess
    · intro h out hout hsuccess
      exact h ((succeeds_iff v _).mp ⟨out, hout, hsuccess⟩)
  | planning =>
    constructor
    · intro h hadmits
      obtain ⟨out, hout, hsuccess⟩ := planning_succeeds_iff.mpr hadmits
      exact (h out hout hsuccess).2
    · intro h out hout hsuccess
      have hadmits := planning_succeeds_iff.mp ⟨out, hout, hsuccess⟩
      exact ⟨hadmits.1, h hadmits⟩

def publishNothing : ModulePublish where
  sender := sampleAddress
  modules := []
  gasLimit := 1000000
  upgradePolicy := none

def publishTwoBytes : ModulePublish where
  sender := sampleAddress
  modules := [[1, 2]]
  gasLimit := 0
  upgradePolicy := none

/-- Over the real backend, the executor publishes a bundle without modules. Over the planning
backend, it publishes a module of two bytes under a size limit of one. -/
theorem preflight_is_skipped :
    ¬ PreflightHolds ((ExecutorBuild.withVm (.real .forTesting .idle)).executor sampleVendor
        .forTesting) KeyedStore.empty publishNothing
    ∧ ¬ PreflightHolds (ExecutorBuild.new.executor sampleVendor
        { VmConfig.forTesting with maxBinarySize := 1 }) KeyedStore.empty publishTwoBytes := by
  constructor
  · intro h
    obtain ⟨out, hout, hsuccess⟩ := (succeeds_iff sampleVendor _).mpr
      (show ∀ bytes ∈ publishNothing.modules, ∃ p, p.bytes = bytes
        ∧ Accepted sampleVendor KeyedStore.empty publishNothing p from by simp [publishNothing])
    exact absurd (h out hout hsuccess).1 (by decide)
  · intro h
    have hadmits : Admits sampleVendor KeyedStore.empty publishTwoBytes .planning :=
      ⟨bootstrap_eq_ok.mp (by decide), rfl, .inl rfl⟩
    obtain ⟨out, hout, hsuccess⟩ := planning_succeeds_iff.mpr hadmits
    exact absurd ((h out hout hsuccess).2 [1, 2] (by decide)) (by decide)

end NexusMove
