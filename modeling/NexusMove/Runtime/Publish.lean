import NexusMove.Lib.Except
import NexusMove.Runtime.Abi
import NexusMove.Runtime.Gas
import NexusMove.Vm.Vendor

/-!
# Publishing modules

`RealMoveVm::publish_modules`. The loop takes the modules of a bundle in order:
each is deserialized, checked against the sender, against the upgrade policy
stored at its address, by the bytecode verifier and for missing dependencies,
and then contributes four writes. All checks read the state before the publish.
Any check may end the whole publish, with an error or with an abort output.

* `publishModule_eq_ok` — what it takes for one module to be accepted.
* `publishModules_cases` — a publish is refused without effects, or accepts
  every module of the bundle.
-/

namespace NexusMove

/-- How a request ends before its last step: by `Err`, or by returning an output. -/
inductive EarlyReturn where
  | err (e : VmError)
  | output (out : VmOutput)

/-- The `?` operator on a runtime result. -/
def liftVm {α : Type} (r : VmResult α) : Except EarlyReturn α := r.mapError .err

/-- Both kinds of early return end the function, one with an output. -/
def finish : Except EarlyReturn VmOutput → VmResult VmOutput
  | .ok out => .ok out
  | .error (.output out) => .ok out
  | .error (.err e) => .error e

/-- `dependency_must_exist`: not at the sender's own address and not at the framework's. -/
def dependencyMustExist (depAddress sender : AccountAddress) : Bool :=
  depAddress ≠ sender && depAddress ≠ frameworkAddress

section Code

variable (v : Vendor) (schedule : GasSchedule) (state : NexusStateView)

/-- An abort of the policy check. The gas is not clamped to the limit. -/
def publishAbort (code : UInt64) : EarlyReturn :=
  .output (.withoutEffects (.moveAbort "nexus::publish" code) schedule.publishBase)

/-- The upgrade policy in the stored metadata; without readable metadata, `Immutable`. -/
def storedPolicy (addr : AccountAddress) : VmResult UpgradePolicy := do
  let raw ← state.getRaw addr moduleMetadataKey
  return ((raw.bind decodeMetadata).map PackageMetadata.upgradePolicy).getD .immutable

/-- The ABI hash in the stored metadata; without readable metadata, zero. -/
def storedAbiHash (addr : AccountAddress) : VmResult HashValue := do
  let raw ← state.getRaw addr moduleMetadataKey
  return ((raw.bind decodeMetadata).map PackageMetadata.abiHash).getD (.zero 32)

/-- The policy check of one module against what is stored at its address. -/
def checkUpgradePolicy (compiled : CompiledModule) (addr : AccountAddress) :
    Except EarlyReturn Unit := do
  if ← liftVm (state.hasModule addr) then
    match ← liftVm (storedPolicy state addr) with
    -- the abort codes the source documents: 20, 21 and 22
    | .immutable => throw (publishAbort schedule 20)
    | .governanceOnly => throw (publishAbort schedule 21)
    | .compatible =>
      let oldAbiHash ← liftVm (storedAbiHash state addr)
      -- a zero hash marks a module stored without ABI tracking
      if oldAbiHash ≠ .zero 32 then
        if !abiIsCompatible oldAbiHash (computeModuleAbiHash v.blake3 compiled) then
          throw (publishAbort schedule 22)

/-- Every immediate dependency must exist, or be waived by its address. -/
def checkDependencies (sender : AccountAddress) : List ModuleId → VmResult Unit
  | [] => return ()
  | dep :: deps => do
    let exists' ← (checkModuleExists v state dep).mapError fun e =>
      VmError.internalError ("dependency check failed: " ++ e.display v.statusName)
    -- asked only of a dependency that was not found
    if !exists' && dependencyMustExist dep.address sender then
      throw (.internalError ("missing dependency: " ++ dep.display))
    checkDependencies sender deps

/-- The metadata of one module, as if it were a package. -/
def packageMetadata (request : ModulePublish) (moduleBytes : Bytes) (compiled : CompiledModule) :
    PackageMetadata :=
  let codeHash := v.blake3 moduleBytes
  let moduleName := compiled.selfId.name.name
  { name := moduleName
    packageHash := codeHash
    namedAddresses := [(moduleName, compiled.selfId.address)]
    moduleHashes := [(moduleName, codeHash)]
    abiHash := computeModuleAbiHash v.blake3 compiled
    upgradePolicy :=
      -- a request without a policy is stored as `Immutable`
      match request.upgradePolicy with
      | some .compatible => .compatible
      | some .governanceOnly => .governanceOnly
      | _ => .immutable
    deployer := request.sender
    version := 1 }

/-- The changes pushed for one module: its own key, and the three keys the modules of an
account share. -/
def moduleChanges (moduleBytes : Bytes) (compiled : CompiledModule) (metadataBytes : Bytes) :
    List StateChange :=
  let addr := compiled.selfId.address
  [ { account := addr, key := moduleCodeKey compiled.selfId.name.name, value := some moduleBytes },
    { account := addr, key := moduleCodeLegacyKey, value := some moduleBytes },
    { account := addr, key := moduleCodeHashKey, value := some (v.blake3 moduleBytes).toBytes },
    { account := addr, key := moduleMetadataKey, value := some metadataBytes } ]

/-- The writes of a module, later keys over earlier ones. -/
def moduleWriteSet (moduleBytes : Bytes) (compiled : CompiledModule) (metadataBytes : Bytes)
    (writeSet : WriteSet) : WriteSet :=
  let addr := compiled.selfId.address
  (((writeSet.insert (addr, moduleCodeKey compiled.selfId.name.name) (some moduleBytes)).insert
    (addr, moduleCodeLegacyKey) (some moduleBytes)).insert
    (addr, moduleCodeHashKey) (some (v.blake3 moduleBytes).toBytes)).insert
    (addr, moduleMetadataKey) (some metadataBytes)

/-- A module that passed all checks, with its encoded metadata. -/
structure PublishedModule where
  bytes : Bytes
  compiled : CompiledModule
  metadataBytes : Bytes

/-- One round of the publish loop. -/
def publishModule (request : ModulePublish) (moduleBytes : Bytes) :
    Except EarlyReturn PublishedModule := do
  let compiled ← liftVm ((v.deserialize moduleBytes).mapError fun e =>
    VmError.internalError ("module deserialization failed: " ++ e.display))
  -- a module is published at its own address only, by the owner of that address
  if compiled.selfId.address ≠ request.sender then
    throw (.err (.internalError "module address does not match sender"))
  checkUpgradePolicy v schedule state compiled compiled.selfId.address
  liftVm ((v.verifyModule compiled moduleBytes.length).mapError fun e =>
    VmError.internalError ("bytecode verification failed: " ++ e.display v.statusName))
  liftVm (checkDependencies v state request.sender compiled.immediateDependencies)
  let metadata := packageMetadata v request moduleBytes compiled
  match encodeMetadata metadata with
  | none => throw (.err (.internalError ("metadata encoding failed: " ++ v.metadataEncodeError metadata)))
  | some metadataBytes => return { bytes := moduleBytes, compiled, metadataBytes }

/-- The first module that fails ends the loop, and nothing is kept of the others. -/
def publishLoop (request : ModulePublish) : List Bytes → Except EarlyReturn (List PublishedModule)
  | [] => return []
  | moduleBytes :: rest => do
    let p ← publishModule v schedule state request moduleBytes
    let ps ← publishLoop request rest
    return p :: ps

def bundleChanges (ps : List PublishedModule) : List StateChange :=
  ps.flatMap fun p => moduleChanges v p.bytes p.compiled p.metadataBytes

/-- The map: a key that two modules write has the value of the later one. -/
def bundleWriteSet (ps : List PublishedModule) : WriteSet :=
  ps.foldl (fun ws p => moduleWriteSet v p.bytes p.compiled p.metadataBytes ws) ∅

/-- The output once every module has passed. -/
def publishSuccess (request : ModulePublish) (ps : List PublishedModule) : VmOutput where
  status := .success
  gasUsed := clampGasToLimit
    (estimatePublishGas schedule request.modules (bundleChanges v ps)) request.gasLimit
  stateChanges := bundleChanges v ps
  writeSet := bundleWriteSet v ps
  events := []
  returnValues := []

def publishModules (request : ModulePublish) : VmResult VmOutput :=
  finish do
    let ps ← publishLoop v schedule state request request.modules
    return publishSuccess v schedule request ps

end Code

/-! ## What acceptance means -/

/-- The metadata stored at an address, if it is there and decodes. -/
def storedMetadata (σ : Store) (addr : AccountAddress) : Option PackageMetadata :=
  (σ (addr, moduleMetadataKey)).bind decodeMetadata

/-- The policy check passes: nothing is stored at the address yet, or the stored policy is
`Compatible` and the recorded ABI hash is zero or the new module's. -/
def PolicyAllows (v : Vendor) (σ : Store) (compiled : CompiledModule) (addr : AccountAddress) :
    Prop :=
  (σ (addr, moduleCodeLegacyKey)).isSome = true →
    ∃ m, storedMetadata σ addr = some m ∧ m.upgradePolicy = .compatible
      ∧ (m.abiHash = .zero 32 ∨ m.abiHash = computeModuleAbiHash v.blake3 compiled)

/-- Every dependency that has to exist is found. -/
def DependenciesMet (v : Vendor) (σ : Store) (sender : AccountAddress) (deps : List ModuleId) :
    Prop :=
  ∀ dep ∈ deps, ∃ b, checkModuleExists v σ.view dep = .ok b
    ∧ (b = false → dependencyMustExist dep.address sender = false)

/-- All checks of the publish loop pass for a module. -/
structure Accepted (v : Vendor) (σ : Store) (request : ModulePublish) (p : PublishedModule) :
    Prop where
  deserialize : v.deserialize p.bytes = .ok p.compiled
  sender : p.compiled.selfId.address = request.sender
  policy : PolicyAllows v σ p.compiled request.sender
  verified : v.verifyModule p.compiled p.bytes.length = .ok ()
  dependencies : DependenciesMet v σ request.sender p.compiled.immediateDependencies
  metadata : encodeMetadata (packageMetadata v request p.bytes p.compiled) = some p.metadataBytes

/-- The policy check passes, on a state whose reads may fail. -/
def PolicyPasses (v : Vendor) (state : NexusStateView) (compiled : CompiledModule)
    (addr : AccountAddress) : Prop :=
  state.hasModule addr = .ok false
  ∨ (state.hasModule addr = .ok true ∧ storedPolicy state addr = .ok .compatible
      ∧ ∃ hash, storedAbiHash state addr = .ok hash
          ∧ (hash = .zero 32 ∨ hash = computeModuleAbiHash v.blake3 compiled))

/-- All checks of the publish loop pass, on a state whose reads may fail. -/
structure Passes (v : Vendor) (state : NexusStateView) (request : ModulePublish)
    (p : PublishedModule) : Prop where
  deserialize : v.deserialize p.bytes = .ok p.compiled
  sender : p.compiled.selfId.address = request.sender
  policy : PolicyPasses v state p.compiled request.sender
  verified : v.verifyModule p.compiled p.bytes.length = .ok ()
  dependencies : checkDependencies v state request.sender p.compiled.immediateDependencies = .ok ()
  metadata : encodeMetadata (packageMetadata v request p.bytes p.compiled) = some p.metadataBytes

section Spec

variable {v : Vendor} {schedule : GasSchedule} {σ : Store} {request : ModulePublish}

/-- The bytes of an accepted module deserialize to that module and to no other. -/
theorem Accepted.compiled_eq {p : PublishedModule} (h : Accepted v σ request p) {m : CompiledModule}
    (hm : v.deserialize p.bytes = .ok m) : p.compiled = m :=
  Except.ok.inj (h.deserialize.symm.trans hm)

@[simp] theorem liftVm_eq_ok {α : Type} {r : VmResult α} {a : α} :
    liftVm r = .ok a ↔ r = .ok a :=
  Except.mapError_eq_ok

/-- An address without readable metadata counts as immutable. -/
@[simp] theorem storedPolicy_view (addr : AccountAddress) :
    storedPolicy σ.view addr =
      .ok (((storedMetadata σ addr).map PackageMetadata.upgradePolicy).getD .immutable) := rfl

/-- Without readable metadata the hash is zero, and nothing is compared with it. -/
@[simp] theorem storedAbiHash_view (addr : AccountAddress) :
    storedAbiHash σ.view addr =
      .ok (((storedMetadata σ addr).map PackageMetadata.abiHash).getD (.zero 32)) := rfl

/-- The check as a condition on what is stored. -/
theorem checkUpgradePolicy_eq_ok {state : NexusStateView} {compiled : CompiledModule}
    {addr : AccountAddress} :
    checkUpgradePolicy v schedule state compiled addr = .ok () ↔
      PolicyPasses v state compiled addr := by
  unfold checkUpgradePolicy PolicyPasses
  -- one case for each way the check can end
  cases hcode : state.hasModule addr with
  | error e => simp [liftVm, Except.error_bind]
  | ok stored =>
    cases stored with
    | false => simp [liftVm, Except.ok_bind]
    | true =>
      cases hpolicy : storedPolicy state addr with
      | error e => simp [liftVm, Except.ok_bind, Except.error_bind]
      | ok policy =>
        cases policy with
        | immutable => simp [liftVm, Except.ok_bind, Except.throw_eq]
        | governanceOnly => simp [liftVm, Except.ok_bind, Except.throw_eq]
        | compatible =>
          cases hhash : storedAbiHash state addr with
          | error e => simp [liftVm, Except.ok_bind, Except.error_bind]
          | ok hash =>
            by_cases hzero : hash = .zero 32
            · -- no ABI tracking: anything may follow
              simp [liftVm, Except.ok_bind, hzero]
            · by_cases hsame : hash = computeModuleAbiHash v.blake3 compiled
              · simp [liftVm, Except.ok_bind, hsame, abiIsCompatible]
              · simp [liftVm, Except.ok_bind, hzero, hsame, abiIsCompatible, Except.throw_eq]

theorem policyPasses_view {compiled : CompiledModule} {addr : AccountAddress} :
    PolicyPasses v σ.view compiled addr ↔ PolicyAllows v σ compiled addr := by
  unfold PolicyPasses PolicyAllows
  simp only [Store.view_hasModule, storedPolicy_view, storedAbiHash_view, Except.ok.injEq]
  cases hcode : (σ (addr, moduleCodeLegacyKey)).isSome with
  | false => simp
  | true =>
    cases hmeta : storedMetadata σ addr with
    | none => simp
    | some m => simp

/-- The loop over the dependencies as a condition on all of them. -/
theorem checkDependencies_eq_ok {sender : AccountAddress} {deps : List ModuleId} :
    checkDependencies v σ.view sender deps = .ok () ↔ DependenciesMet v σ sender deps := by
  induction deps with
  | nil => simp [checkDependencies, DependenciesMet]
  | cons dep deps ih =>
    have hcons : DependenciesMet v σ sender (dep :: deps) ↔
        (∃ b, checkModuleExists v σ.view dep = .ok b
          ∧ (b = false → dependencyMustExist dep.address sender = false))
        ∧ DependenciesMet v σ sender deps :=
      List.forall_mem_cons
    rw [hcons, ← ih]
    simp only [checkDependencies, Except.bind_eq_ok, Except.mapError_eq_ok]
    constructor
    · rintro ⟨b, hb, hrest⟩
      cases b with
      | true => exact ⟨⟨true, hb, by simp⟩, by simpa using hrest⟩
      | false =>
        -- missing, so the round went on because the dependency was waived
        cases hmust : dependencyMustExist dep.address sender with
        | true => simp [hmust] at hrest
        | false => exact ⟨⟨false, hb, fun _ => rfl⟩, by simpa [hmust] using hrest⟩
    · rintro ⟨⟨b, hb, hmust⟩, hrest⟩
      refine ⟨b, hb, ?_⟩
      cases b with
      | true => simpa using hrest
      | false => simpa [hmust rfl] using hrest

/-- **One module.** A round of the loop succeeds exactly on modules that pass its checks. -/
theorem publishModule_eq_ok_iff_passes {state : NexusStateView} {bytes : Bytes}
    {p : PublishedModule} :
    publishModule v schedule state request bytes = .ok p ↔
      p.bytes = bytes ∧ Passes v state request p := by
  unfold publishModule
  simp only [Except.bind_eq_ok, liftVm_eq_ok, Except.mapError_eq_ok]
  constructor
  · rintro ⟨compiled, hd, h⟩
    -- the other address: refused before the policy is looked at
    split_ifs at h with hsender
    · simp at h
    · have hsender : compiled.selfId.address = request.sender := by simpa using hsender
      simp only [Except.bind_unit_eq_ok, checkUpgradePolicy_eq_ok, liftVm_eq_ok,
        Except.mapError_eq_ok] at h
      obtain ⟨hpolicy, hverify, hdeps, h⟩ := h
      cases hencode : encodeMetadata (packageMetadata v request bytes compiled) with
      | none => simp [hencode] at h
      | some metadataBytes =>
        obtain rfl : { bytes, compiled, metadataBytes } = p := by simpa [hencode] using h
        -- the checks in the order of the source
        exact ⟨rfl, hd, hsender, hsender ▸ hpolicy, hverify, hdeps, hencode⟩
  · rintro ⟨rfl, h⟩
    refine ⟨p.compiled, h.deserialize, ?_⟩
    simp only [h.sender, ne_eq, not_true_eq_false, if_false, Except.bind_unit_eq_ok,
      checkUpgradePolicy_eq_ok, liftVm_eq_ok, Except.mapError_eq_ok]
    exact ⟨h.policy, h.verified, h.dependencies, by simp [h.metadata]⟩

theorem passes_view {p : PublishedModule} :
    Passes v σ.view request p ↔ Accepted v σ request p := by
  constructor
  · intro h
    exact ⟨h.deserialize, h.sender, policyPasses_view.mp h.policy, h.verified,
      checkDependencies_eq_ok.mp h.dependencies, h.metadata⟩
  · intro h
    exact ⟨h.deserialize, h.sender, policyPasses_view.mpr h.policy, h.verified,
      checkDependencies_eq_ok.mpr h.dependencies, h.metadata⟩

theorem publishModule_eq_ok {bytes : Bytes} {p : PublishedModule} :
    publishModule v schedule σ.view request bytes = .ok p ↔
      p.bytes = bytes ∧ Accepted v σ request p := by
  rw [publishModule_eq_ok_iff_passes, passes_view]

/-- **The loop.** Every module is accepted in the state before the publish. -/
theorem publishLoop_eq_ok {modules : List Bytes} {ps : List PublishedModule} :
    publishLoop v schedule σ.view request modules = .ok ps ↔
      ps.map PublishedModule.bytes = modules ∧ ∀ p ∈ ps, Accepted v σ request p := by
  induction modules generalizing ps with
  | nil =>
    simp only [publishLoop, Except.pure_eq_ok]
    constructor
    · rintro rfl
      simp
    · rintro ⟨h, -⟩
      exact (List.map_eq_nil_iff.mp h).symm
  | cons bytes modules ih =>
    simp only [publishLoop, Except.bind_eq_ok, Except.pure_eq_ok, publishModule_eq_ok, ih]
    constructor
    · rintro ⟨p, ⟨hp, hacc⟩, ps', ⟨hps', hall⟩, rfl⟩
      exact ⟨by rw [List.map_cons, hp, hps'], List.forall_mem_cons.mpr ⟨hacc, hall⟩⟩
    · -- the rounds do not see each other: every one asks the state before the publish
      rintro ⟨hmap, hall⟩
      cases ps with
      | nil => simp at hmap
      | cons p ps =>
        obtain ⟨hp, hps⟩ : p.bytes = bytes ∧ ps.map PublishedModule.bytes = modules := by
          simpa using hmap
        exact ⟨p, ⟨hp, hall p (by simp)⟩, ps, ⟨hps, fun q hq => hall q (by simp [hq])⟩, rfl⟩

/-! ## What a publish does -/

/-- An early return leaves nothing behind: it is an error, or an output without effects whose
status is not `Success`. -/
def EarlyReturn.Quiet : EarlyReturn → Prop
  | .err _ => True
  | .output out => out.status ≠ .success ∧ out = .withoutEffects out.status out.gasUsed

theorem quiet_publishAbort (schedule : GasSchedule) (code : UInt64) :
    (publishAbort schedule code).Quiet :=
  ⟨by simp [VmOutput.withoutEffects], rfl⟩

/-- An early return has no effects. -/
def QuietErrors {α : Type} (x : Except EarlyReturn α) : Prop := ∀ e, x = .error e → e.Quiet

variable (v schedule) (state : NexusStateView)

section EarlyReturns

open Except

variable {P : EarlyReturn → Prop} (herr : ∀ e, P (.err e))
include herr

theorem onError_liftVm {α : Type} (r : VmResult α) : (liftVm r).OnError P :=
  onError_mapError herr r

variable (habort : ∀ code ∈ [20, 21, 22], P (publishAbort schedule code))
include habort

/-- The three aborts are the only outputs of the policy check. -/
theorem onError_checkUpgradePolicy (compiled : CompiledModule) (addr : AccountAddress) :
    (checkUpgradePolicy v schedule state compiled addr).OnError P := by
  unfold checkUpgradePolicy
  refine (onError_liftVm herr _).bind fun stored => ?_
  split_ifs with hstored
  · -- something is stored: by its policy
    refine (onError_liftVm herr _).bind fun policy => ?_
    cases policy with
    | immutable => exact onError_error (habort 20 (by decide))
    | governanceOnly => exact onError_error (habort 21 (by decide))
    | compatible =>
      refine (onError_liftVm herr _).bind fun oldAbiHash => ?_
      split_ifs with hold hsame
      · exact onError_error (habort 22 (by decide))
      · exact onError_ok _
      · exact onError_ok _
  · exact onError_ok _

/-- One round ends early with an error or with one of these aborts. -/
theorem onError_publishModule (request : ModulePublish) (bytes : Bytes) :
    (publishModule v schedule state request bytes).OnError P := by
  unfold publishModule
  refine (onError_liftVm herr _).bind fun compiled => ?_
  split_ifs with hsender
  · exact onError_error (herr _)
  · refine (onError_checkUpgradePolicy v schedule state herr habort _ _).bind fun _ => ?_
    refine (onError_liftVm herr _).bind fun _ => ?_
    refine (onError_liftVm herr _).bind fun _ => ?_
    dsimp only
    cases encodeMetadata (packageMetadata v request bytes compiled) with
    | none => exact onError_error (herr _)
    | some metadataBytes => exact onError_ok _

/-- **Early returns of a publish** are errors, or aborts with one of three codes. -/
theorem onError_publishLoop (request : ModulePublish) (modules : List Bytes) :
    (publishLoop v schedule state request modules).OnError P := by
  induction modules with
  | nil => exact onError_ok _
  | cons bytes modules ih =>
    refine (onError_publishModule v schedule state herr habort request bytes).bind fun p => ?_
    exact ih.bind fun ps => onError_ok _

end EarlyReturns

/-- The loop ends early without effects. -/
theorem quietErrors_publishLoop (request : ModulePublish) (modules : List Bytes) :
    QuietErrors (publishLoop v schedule state request modules) :=
  onError_publishLoop v schedule state (fun _ => trivial) (fun code _ => quiet_publishAbort _ code)
    request modules

theorem liftVm_ne_output {α : Type} {r : VmResult α} :
    liftVm r ≠ .error (.output out) := by
  cases r <;> simp [liftVm]

/-- An output is one of the end or one of an early return. -/
theorem finish_eq_ok {x : Except EarlyReturn VmOutput} {out : VmOutput} :
    finish x = .ok out ↔ x = .ok out ∨ x = .error (.output out) := by
  cases x with
  | ok out' => simp [finish]
  | error e => cases e <;> simp [finish]

/-- Every output of a publish is an early return of the loop, or the success of all of it. -/
theorem publishModules_eq_ok {request : ModulePublish} {out : VmOutput} :
    publishModules v schedule state request = .ok out ↔
      publishLoop v schedule state request request.modules = .error (.output out)
      ∨ ∃ ps, publishLoop v schedule state request request.modules = .ok ps
          ∧ publishSuccess v schedule request ps = out := by
  rw [publishModules, finish_eq_ok, Except.bind_eq_ok, Except.bind_eq_error, or_comm]
  simp only [pure, Except.pure, Except.ok.injEq, reduceCtorEq, and_false, exists_false, or_false]

/-- **Outputs of a publish.** One carries nothing but a status other than `Success`, or it is the
success of the whole bundle. -/
theorem publishModules_ok {request : ModulePublish} {out : VmOutput}
    (h : publishModules v schedule state request = .ok out) :
    (EarlyReturn.output out).Quiet
    ∨ ∃ ps, publishLoop v schedule state request request.modules = .ok ps
        ∧ out = publishSuccess v schedule request ps := by
  rcases (publishModules_eq_ok v schedule state).mp h with hloop | ⟨ps, hloop, rfl⟩
  · exact .inl (quietErrors_publishLoop v schedule state request request.modules _ hloop)
  · exact .inr ⟨ps, hloop, rfl⟩

/-- **What a publish does.** It fails, or it returns an output that carries nothing but a status
other than `Success`, or it succeeds: then every module of the bundle was accepted against the
state before the publish, and the changes are those of the modules in order. -/
theorem publishModules_cases (σ : Store) (request : ModulePublish) :
    (∃ e, publishModules v schedule σ.view request = .error e)
    ∨ (∃ out, publishModules v schedule σ.view request = .ok out ∧ out.status ≠ .success
        ∧ out = .withoutEffects out.status out.gasUsed)
    ∨ ∃ ps, ps.map PublishedModule.bytes = request.modules
        ∧ (∀ p ∈ ps, Accepted v σ request p)
        ∧ publishModules v schedule σ.view request = .ok (publishSuccess v schedule request ps) := by
  cases hrun : publishModules v schedule σ.view request with
  | error e => exact .inl ⟨e, rfl⟩
  | ok out =>
    right
    rcases publishModules_ok v schedule σ.view hrun with hquiet | ⟨ps, hloop, rfl⟩
    · exact .inl ⟨out, rfl, hquiet⟩
    · obtain ⟨hmap, hacc⟩ := publishLoop_eq_ok.mp hloop
      exact .inr ⟨ps, hmap, hacc, rfl⟩

/-- **A successful publish.** -/
theorem publishModules_success {σ : Store} {request : ModulePublish} {out : VmOutput}
    (h : publishModules v schedule σ.view request = .ok out) (hsuccess : out.status = .success) :
    ∃ ps, ps.map PublishedModule.bytes = request.modules
      ∧ (∀ p ∈ ps, Accepted v σ request p) ∧ out = publishSuccess v schedule request ps := by
  -- an error is no success, and neither is an abort
  rcases publishModules_cases v schedule σ request with ⟨e, he⟩ | ⟨out', hout', hne, -⟩ | hsucc
  · rw [he] at h
    cases h
  · rw [hout'] at h
    cases h
    exact absurd hsuccess hne
  · obtain ⟨ps, hmap, hacc, heq⟩ := hsucc
    rw [heq] at h
    cases h
    exact ⟨ps, hmap, hacc, rfl⟩

end Spec

end NexusMove
