import NexusMove.Runtime.Dependencies
import NexusMove.Runtime.GasBound
import NexusMove.Runtime.Upgrade

/-!
# Refused upgrades

Under `Compatible`, a publish that breaks no stored interface should go through, and so
should a bundle that was published before. The check compares every module with one
record for the whole address, written by the module published last there. It refuses
what differs from that module.

* `refused_incompatible_iff` — what is refused under `Compatible`, in a published store.
* `republished_iff` — when a bundle is accepted again.
* `upgrades_allowed_iff` — runs in which nothing is refused without cause.
-/

namespace NexusMove

section Statement

variable (v : Vendor) (schedule : GasSchedule)

def CompatibleAt (σ : Store) (a : AccountAddress) : Prop :=
  ∃ metadata, storedMetadata σ a = some metadata ∧ metadata.upgradePolicy = .compatible

/-- No interface is broken: what is stored under the name of a module of the request, if anything
is, has the ABI hash of that module. -/
def BreaksNothing (σ : Store) (request : ModulePublish) : Prop :=
  ∀ bytes ∈ request.modules, ∀ m, v.deserialize bytes = .ok m →
    ∀ b, σ (request.sender, moduleCodeKey m.selfId.name.name) = some b → SameAbi v b bytes

/-- A request that breaks nothing is not refused as incompatible, and a bundle that was accepted
under `Compatible` is accepted again. -/
structure UpgradesAllowed (σ : Store) (request : ModulePublish) : Prop where
  notRefused : CompatibleAt σ request.sender → BreaksNothing v σ request →
    ∀ out, publishModules v schedule σ.view request = .ok out →
      out.status ≠ .moveAbort "nexus::publish" 22
  republished : request.upgradePolicy = some .compatible → Succeeds v schedule σ request →
    Succeeds v schedule (publishStep v schedule σ request) request

/-- The record of a module does not stand against another one: its ABI hash is zero or the hash of
the other module. -/
def RecordFits (recorded compiled : CompiledModule) : Prop :=
  computeModuleAbiHash v.blake3 recorded = .zero 32
  ∨ computeModuleAbiHash v.blake3 recorded = computeModuleAbiHash v.blake3 compiled

/-- The module stored last at the sender's address fits every module that the policy check gets to. -/
def LastStoredFits (σ : Store) (request : ModulePublish) : Prop :=
  ∀ pre bytes post compiled, request.modules = pre ++ bytes :: post →
    (∀ b ∈ pre, ∃ p, p.bytes = b ∧ Accepted v σ request p) →
    v.deserialize bytes = .ok compiled → compiled.selfId.address = request.sender →
    ∀ b old, σ (request.sender, moduleCodeLegacyKey) = some b → v.deserialize b = .ok old →
      RecordFits v old compiled

/-- The last module of the bundle fits every module of it. -/
def LastOfBundleFits (request : ModulePublish) : Prop :=
  ∀ bytes ∈ request.modules, ∀ m, v.deserialize bytes = .ok m →
    ∀ b last, request.modules.getLast? = some b → v.deserialize b = .ok last → RecordFits v last m

/-- One record is enough for the request: for what it is checked against, where it breaks nothing,
and for itself, where it is accepted. -/
structure OneRecordFits (σ : Store) (request : ModulePublish) : Prop where
  stored : CompatibleAt σ request.sender → BreaksNothing v σ request → LastStoredFits v σ request
  bundle : request.upgradePolicy = some .compatible →
    (∀ bytes ∈ request.modules, ∃ p, p.bytes = bytes ∧ Accepted v σ request p) →
    LastOfBundleFits v request

end Statement

section Refusal

variable {v : Vendor} {schedule : GasSchedule} {σ : Store} {request : ModulePublish}

/-- Under `Compatible`, the policy check returns early with code 22 or not at all. -/
theorem status_of_checkUpgradePolicy (hpolicy : CompatibleAt σ request.sender)
    {compiled : CompiledModule} {out : VmOutput}
    (h : checkUpgradePolicy v schedule σ.view compiled request.sender = .error (.output out)) :
    out.status = .moveAbort "nexus::publish" 22 := by
  obtain ⟨metadata, hmeta, hcompatible⟩ := hpolicy
  have hstored : storedPolicy σ.view request.sender = .ok .compatible := by
    rw [storedPolicy_view, hmeta, Option.map_some, hcompatible, Option.getD_some]
  obtain ⟨-, -, hstatus⟩ := aborts_of_checkUpgradePolicy h
  exact hstatus hstored

/-- **What is refused.** Under `Compatible`, a publish is refused as incompatible exactly if the
policy refuses it. -/
theorem refused_incompatible_iff (hpolicy : CompatibleAt σ request.sender) :
    (∃ out, publishModules v schedule σ.view request = .ok out
        ∧ out.status = .moveAbort "nexus::publish" 22) ↔ RefusedByPolicy v σ.view request := by
  constructor
  · rintro ⟨out, hout, hstatus⟩
    rcases (publishModules_eq_ok v schedule σ.view).mp hout with hloop | ⟨ps, -, rfl⟩
    · exact (refused_of_publishLoop hloop).1
    · exact absurd hstatus (by simp [publishSuccess])
  · intro hrefused
    obtain ⟨out, hloop⟩ : ∃ out, publishLoop v schedule σ.view request request.modules
        = .error (.output out) := publishLoop_of_refused hrefused
    obtain ⟨_, bytes, _, -, -, hbytes⟩ := publishLoop_eq_output.mp hloop
    obtain ⟨compiled, -, hsender, hcheck⟩ := publishModule_eq_output.mp hbytes
    rw [hsender] at hcheck
    exact ⟨out, (publishModules_eq_ok v schedule σ.view).mpr (.inl hloop),
      status_of_checkUpgradePolicy hpolicy hcheck⟩

/-- In a published store the record is that of the module stored last, so the policy aborts on the
modules that this one does not fit. -/
theorem policyAborts_iff (hkept : WellKept v σ) {a : AccountAddress} (hpolicy : CompatibleAt σ a)
    {compiled : CompiledModule} :
    PolicyAborts v σ.view compiled a ↔
      ∃ b old, σ (a, moduleCodeLegacyKey) = some b ∧ v.deserialize b = .ok old
        ∧ ¬ RecordFits v old compiled := by
  obtain ⟨metadata, hmeta, hcompatible⟩ := hpolicy
  unfold PolicyAborts RecordFits
  rw [Store.view_hasModule, storedPolicy_view, storedAbiHash_view, hmeta]
  simp only [Option.map_some, Option.getD_some, hcompatible, Except.ok.injEq, reduceCtorEq,
    false_or, true_and, exists_eq_left', not_or]
  constructor
  · rintro ⟨hsome, hzero, hother⟩
    obtain ⟨b, hb⟩ := Option.isSome_iff_exists.mp hsome
    obtain ⟨old, hold, habi⟩ := hkept.recorded hb hmeta
    rw [habi] at hzero hother
    exact ⟨b, old, hb, hold, hzero, hother⟩
  · rintro ⟨b, old, hb, hold, hzero, hother⟩
    obtain ⟨old', hold', habi⟩ := hkept.recorded hb hmeta
    have hsame : old' = old := Except.ok.inj (hold'.symm.trans hold)
    rw [hsame] at habi
    rw [habi, hb]
    exact ⟨rfl, hzero, hother⟩

theorem refusedByPolicy_iff (hkept : WellKept v σ) (hpolicy : CompatibleAt σ request.sender) :
    RefusedByPolicy v σ.view request ↔ ¬ LastStoredFits v σ request := by
  unfold RefusedByPolicy LastStoredFits
  simp only [passes_view, policyAborts_iff hkept hpolicy]
  constructor
  · rintro ⟨pre, bytes, post, compiled, hsplit, hpre, hd, hsender, b, old, hb, hold, hunfit⟩ h
    exact hunfit (h pre bytes post compiled hsplit hpre hd hsender b old hb hold)
  · intro h
    push Not at h
    exact h

end Refusal

section Republish

variable {v : Vendor} {schedule : GasSchedule} {σ : Store} {request : ModulePublish}

/-- The metadata of a module of the request carries the requested policy, if that is `Compatible`. -/
theorem packageMetadata_upgradePolicy (hrequest : request.upgradePolicy = some .compatible)
    (bytes : Bytes) (compiled : CompiledModule) :
    (packageMetadata v request bytes compiled).upgradePolicy = .compatible := by
  simp [packageMetadata, hrequest]

/-- After a bundle under `Compatible`, the policy check passes the modules that its last one fits. -/
theorem policyAllows_bundle_iff (hrequest : request.upgradePolicy = some .compatible)
    {qs : List PublishedModule} {p : PublishedModule} (hp : Accepted v σ request p)
    (compiled : CompiledModule) :
    PolicyAllows v ((qs ++ [p]).foldl (publishOne v) σ) compiled request.sender ↔
      RecordFits v p.compiled compiled := by
  have hmeta := storedMetadata_bundle σ qs hp
  have hcode : ((qs ++ [p]).foldl (publishOne v) σ (request.sender, moduleCodeLegacyKey)).isSome
      = true := by
    rw [List.foldl_append, List.foldl_cons, List.foldl_nil, ← hp.sender, publishOne_legacyKey]
    rfl
  unfold PolicyAllows
  rw [hcode, hmeta]
  simp only [forall_const, Option.some.injEq, exists_eq_left', true_and,
    packageMetadata_upgradePolicy hrequest]
  rfl

/-- **Accepted again.** A module is accepted after its bundle if the last module of the bundle fits
it: nothing else that is checked has changed. -/
theorem accepted_again (hkept : WellKept v σ) (hrequest : request.upgradePolicy = some .compatible)
    {qs : List PublishedModule} {p : PublishedModule}
    (hacc : ∀ q ∈ qs ++ [p], Accepted v σ request q) {q : PublishedModule} (hq : q ∈ qs ++ [p])
    (hfits : RecordFits v p.compiled q.compiled) :
    Accepted v ((qs ++ [p]).foldl (publishOne v) σ) request q where
  deserialize := (hacc q hq).deserialize
  sender := (hacc q hq).sender
  policy := (policyAllows_bundle_iff hrequest (hacc p (by simp)) q.compiled).mpr hfits
  verified := (hacc q hq).verified
  dependencies :=
    (hacc q hq).dependencies.mono hkept (hkept.bundle hacc) fun _ => isSome_legacyKey_bundle _
  metadata := (hacc q hq).metadata

/-- **Republishing.** In a published store, a bundle that is accepted under `Compatible` is accepted
again exactly if its last module fits all of it. -/
theorem republished_iff (hkept : WellKept v σ) (hrequest : request.upgradePolicy = some .compatible)
    (hsucc : Succeeds v schedule σ request) :
    Succeeds v schedule (publishStep v schedule σ request) request ↔ LastOfBundleFits v request := by
  rcases publishStep_cases v schedule σ request with ⟨hfail, -⟩ | ⟨-, ps, hmap, hacc, heq⟩
  · exact absurd hsucc hfail
  · rw [heq]
    refine (succeeds_iff v schedule).trans ?_
    unfold LastOfBundleFits
    rw [← hmap]
    rcases List.eq_nil_or_concat' ps with rfl | ⟨qs, p, rfl⟩
    · simp
    · have hlast : ((qs ++ [p]).map PublishedModule.bytes).getLast? = some p.bytes := by simp
      constructor
      · intro h bytes hbytes m hm b last hb hlastm
        obtain ⟨q, hq, rfl⟩ := List.mem_map.mp hbytes
        obtain rfl := (hacc q hq).compiled_eq hm
        obtain rfl : p.bytes = b := Option.some.inj (hlast.symm.trans hb)
        obtain rfl := (hacc p (by simp)).compiled_eq hlastm
        obtain ⟨q', hbytes', hq'⟩ := h q.bytes (List.mem_map_of_mem hq)
        have hsame : q'.compiled = q.compiled :=
          hq'.compiled_eq (by rw [hbytes', (hacc q hq).deserialize])
        rw [← hsame]
        exact (policyAllows_bundle_iff hrequest (hacc p (by simp)) _).mp hq'.policy
      · intro h bytes hbytes
        obtain ⟨q, hq, rfl⟩ := List.mem_map.mp hbytes
        refine ⟨q, rfl, accepted_again hkept hrequest hacc hq ?_⟩
        exact h q.bytes hbytes q.compiled (hacc q hq).deserialize p.bytes p.compiled hlast
          (hacc p (by simp)).deserialize

/-- **One step.** In a published store. -/
theorem upgradesAllowed_iff (hkept : WellKept v σ) :
    UpgradesAllowed v schedule σ request ↔ OneRecordFits v σ request := by
  constructor
  · intro h
    constructor
    · intro hpolicy hbreaks
      by_contra hunfit
      have hrefused := (refusedByPolicy_iff hkept hpolicy).mpr hunfit
      have hout : ∃ out, publishModules v schedule σ.view request = .ok out
          ∧ out.status = .moveAbort "nexus::publish" 22 :=
        (refused_incompatible_iff hpolicy).mpr hrefused
      obtain ⟨out, hout, hstatus⟩ := hout
      exact h.notRefused hpolicy hbreaks out hout hstatus
    · intro hrequest hacc
      have hsucc : Succeeds v schedule σ request := (succeeds_iff v schedule).mpr hacc
      exact (republished_iff hkept hrequest hsucc).mp (h.republished hrequest hsucc)
  · intro h
    constructor
    · intro hpolicy hbreaks out hout hstatus
      have hrefused := (refused_incompatible_iff hpolicy).mp ⟨out, hout, hstatus⟩
      exact (refusedByPolicy_iff hkept hpolicy).mp hrefused (h.stored hpolicy hbreaks)
    · intro hrequest hsucc
      have hacc := (succeeds_iff v schedule).mp hsucc
      exact (republished_iff hkept hrequest hsucc).mpr (h.bundle hrequest hacc)

end Republish

/-- **Upgrades are allowed.** In a run of publishes, no request that breaks nothing is refused as
incompatible, and every bundle accepted under `Compatible` could be published again right away, if
and only if at every request of the run one record is enough for it. -/
theorem upgrades_allowed_iff (v : Vendor) (schedule : GasSchedule) (requests : List ModulePublish) :
    Run.EveryStep (publishStep v schedule) (UpgradesAllowed v schedule) KeyedStore.empty requests ↔
      Run.EveryStep (publishStep v schedule) (OneRecordFits v) KeyedStore.empty requests := by
  rw [Run.everyStep_iff, Run.everyStep_iff]
  refine forall_congr' fun before => forall_congr' fun request => forall_congr' fun after =>
    forall_congr' fun _ => ?_
  exact upgradesAllowed_iff (wellKept_afterPublishes v schedule before)

/-- The package `[a, b]` is published twice. The second time `a` is compared with the record of `b`. -/
theorem republished_package_is_refused :
    ¬ Run.EveryStep (publishStep upgradeVendor sampleSchedule)
        (UpgradesAllowed upgradeVendor sampleSchedule)
        KeyedStore.empty [publishAB, publishAB] := by
  rintro ⟨-, hsecond, -⟩
  have hpolicy : CompatibleAt (publishStep upgradeVendor sampleSchedule KeyedStore.empty publishAB)
      publishAB.sender := by
    have hread : (storedMetadata (publishStep upgradeVendor sampleSchedule KeyedStore.empty publishAB)
        publishAB.sender).map PackageMetadata.upgradePolicy = some .compatible := by
      decide +kernel
    exact Option.map_eq_some_iff.mp hread
  have hbreaks : BreaksNothing upgradeVendor
      (publishStep upgradeVendor sampleSchedule KeyedStore.empty publishAB) publishAB := by
    -- each of the two modules is stored under its own name
    have hstored : publishStep upgradeVendor sampleSchedule KeyedStore.empty publishAB
        (publishAB.sender, moduleCodeKey sampleA.selfId.name.name) = some sampleABytes
        ∧ publishStep upgradeVendor sampleSchedule KeyedStore.empty publishAB
        (publishAB.sender, moduleCodeKey sampleB.selfId.name.name) = some sampleBBytes := by
      decide +kernel
    intro bytes hbytes m hm b hb
    rcases List.mem_pair.mp hbytes with rfl | rfl
    · obtain rfl := Except.ok.inj (deserialize_upgradeVendor_sampleA.symm.trans hm)
      obtain rfl := Option.some.inj (hstored.1.symm.trans hb)
      exact ⟨sampleA, sampleA, hm, hm, rfl⟩
    · obtain rfl := Except.ok.inj (deserialize_upgradeVendor_sampleB.symm.trans hm)
      obtain rfl := Option.some.inj (hstored.2.symm.trans hb)
      exact ⟨sampleB, sampleB, hm, hm, rfl⟩
  have hstatus : (publishModules upgradeVendor sampleSchedule
      (publishStep upgradeVendor sampleSchedule KeyedStore.empty publishAB).view
      publishAB).toOption.map VmOutput.status = some (.moveAbort "nexus::publish" 22) := by
    decide +kernel
  obtain ⟨out, hout, hrefused⟩ := Option.map_eq_some_iff.mp hstatus
  exact hsecond.notRefused hpolicy hbreaks out (Except.toOption_eq_some.mp hout) hrefused

end NexusMove
