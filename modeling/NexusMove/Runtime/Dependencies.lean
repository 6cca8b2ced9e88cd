import NexusMove.Runtime.Lookup

/-!
# Dependency closure

The dependency check of a publish asks whether each immediate dependency exists,
in the state before the publish, and waives the question at the sender's own
address and at the framework address. Nothing is ever unpublished, so what the
check found stays found: in every store that publishes build, a dependency that
was published resolves, and one that is not waived is at an address with code.

* `DependencyClosed` — the invariant; `dependencyClosed_of_reachable`.
* `dependencies_resolve` — what a dependency of a stored module resolves to.
-/

namespace NexusMove

section Monotone

variable {v : Vendor} {schedule : GasSchedule}

/-- Nothing is unpublished: an address that holds code keeps holding code. -/
theorem isSome_legacyKey_publishOne {σ : Store} {a : AccountAddress} (p : PublishedModule)
    (h : (σ (a, moduleCodeLegacyKey)).isSome) :
    (publishOne v σ p (a, moduleCodeLegacyKey)).isSome := by
  by_cases haddr : a = p.compiled.selfId.address
  · rw [haddr, publishOne_legacyKey]
    rfl
  · rw [publishOne_frame v σ p fun h => absurd h haddr]
    exact h

/-- No publish empties a legacy key. -/
theorem isSome_legacyKey_bundle {σ : Store} {a : AccountAddress} (ps : List PublishedModule)
    (h : (σ (a, moduleCodeLegacyKey)).isSome) :
    (ps.foldl (publishOne v) σ (a, moduleCodeLegacyKey)).isSome := by
  refine bundle_keeps v σ (P := fun σ' => (σ' (a, moduleCodeLegacyKey)).isSome) ?_ h
  intro σ' hσ' p _
  exact isSome_legacyKey_publishOne p hσ'

end Monotone

/-- A dependency that the check does not waive for modules of the address `a`. -/
def Foreign (a : AccountAddress) (dep : ModuleId) : Prop :=
  dep.address ≠ a ∧ dep.address ≠ frameworkAddress

theorem dependencyMustExist_iff {dep : ModuleId} {sender : AccountAddress} :
    dependencyMustExist dep.address sender = true ↔ Foreign sender dep := by
  simp [dependencyMustExist, Foreign]

/-- In a well-kept store, a module outside the embedded framework exists where its address holds
code. -/
theorem WellKept.checkModuleExists_eq {v : Vendor} {σ : Store} (h : WellKept v σ) {dep : ModuleId}
    (hdep : ¬ v.Embedded dep) :
    checkModuleExists v σ.view dep = .ok (σ (dep.address, moduleCodeLegacyKey)).isSome := by
  unfold checkModuleExists
  rw [fetchModuleBytes_of_not_embedded hdep]
  cases hown : σ (dep.address, moduleCodeKey dep.name.name) with
  | some b =>
    obtain ⟨⟨m, hm, -⟩, hsome⟩ := h.ownKey dep b hown
    simp [Except.ok_bind, Vendor.deserializeIntoCompiledModule, hm, hsome, pure, Except.pure]
  | none =>
    cases hlegacy : σ (dep.address, moduleCodeLegacyKey) with
    | none => simp [Except.ok_bind, pure, Except.pure]
    | some b =>
      obtain ⟨m, -, hm, -⟩ := h.legacy dep.address b hlegacy
      simp [Except.ok_bind, Vendor.deserializeIntoCompiledModule, hm, pure, Except.pure]

/-- Dependencies that were met stay met in a store with more code. -/
theorem DependenciesMet.mono {v : Vendor} {σ τ : Store} {sender : AccountAddress}
    {deps : List ModuleId} (h : DependenciesMet v σ sender deps) (hσ : WellKept v σ)
    (hτ : WellKept v τ)
    (hmono : ∀ a, (σ (a, moduleCodeLegacyKey)).isSome → (τ (a, moduleCodeLegacyKey)).isSome) :
    DependenciesMet v τ sender deps := by
  intro dep hdep
  obtain ⟨found, hfound, hwaived⟩ := h dep hdep
  by_cases hembedded : v.Embedded dep
  · -- the embedded framework is the same for every store
    refine ⟨found, ?_, hwaived⟩
    rw [← hfound, checkModuleExists, checkModuleExists, fetchModuleBytes_of_embedded _ hembedded,
      fetchModuleBytes_of_embedded _ hembedded]
  · rw [hσ.checkModuleExists_eq hembedded] at hfound
    refine ⟨_, hτ.checkModuleExists_eq hembedded, fun hnone => hwaived ?_⟩
    by_contra hsome
    have hcode : (σ (dep.address, moduleCodeLegacyKey)).isSome := by
      rw [Except.ok.inj hfound]
      simpa using hsome
    rw [hmono _ hcode] at hnone
    cases hnone

/-- Every stored module's foreign dependencies are at addresses that hold code. -/
def DependencyClosed (v : Vendor) (σ : Store) : Prop :=
  ∀ (id : ModuleId) b m, σ (id.address, moduleCodeKey id.name.name) = some b →
    v.deserialize b = .ok m → ∀ dep ∈ m.immediateDependencies, Foreign id.address dep →
      (σ (dep.address, moduleCodeLegacyKey)).isSome

section Closure

variable {v : Vendor} {schedule : GasSchedule} {σ : Store} {request : ModulePublish}

/-- In a well-kept store, a module that exists outside the framework is at an address that
holds code. -/
theorem WellKept.isSome_of_exists (h : WellKept v σ) {dep : ModuleId}
    (hdep : dep.address ≠ frameworkAddress) (hexists : checkModuleExists v σ.view dep = .ok true) :
    (σ (dep.address, moduleCodeLegacyKey)).isSome := by
  rw [h.checkModuleExists_eq fun h => hdep h.1] at hexists
  exact Except.ok.inj hexists

/-- An accepted module found code at the address of each foreign dependency. -/
theorem Accepted.isSome_of_foreign {p : PublishedModule} (hp : Accepted v σ request p)
    (h : WellKept v σ) {dep : ModuleId} (hdep : dep ∈ p.compiled.immediateDependencies)
    (hforeign : Foreign request.sender dep) : (σ (dep.address, moduleCodeLegacyKey)).isSome := by
  obtain ⟨found, hfound, hwaived⟩ := hp.dependencies dep hdep
  cases found with
  | true => exact h.isSome_of_exists hforeign.2 hfound
  | false =>
    have hnot := hwaived rfl
    rw [dependencyMustExist_iff.mpr hforeign] at hnot
    cases hnot

/-- One module keeps the store closed: its dependencies were met before it was written. -/
theorem DependencyClosed.publishOne {σ₁ : Store} {p : PublishedModule}
    (h : DependencyClosed v σ₁) (hp : Accepted v σ request p) (hkept : WellKept v σ)
    (hmono : ∀ a, (σ (a, moduleCodeLegacyKey)).isSome → (σ₁ (a, moduleCodeLegacyKey)).isSome) :
    DependencyClosed v (publishOne v σ₁ p) := by
  intro id b m hb hm dep hdep hforeign
  refine isSome_legacyKey_publishOne p ?_
  rw [publishOne_moduleCodeKey] at hb
  split_ifs at hb with hid
  · -- the module just published: the check found its foreign dependencies in the old store
    obtain rfl : p.bytes = b := by simpa using hb
    obtain rfl := hp.compiled_eq hm
    rw [hid, hp.sender] at hforeign
    exact hmono _ (hp.isSome_of_foreign hkept hdep hforeign)
  · exact h id b m hb hm dep hdep hforeign

/-- So does a bundle, one module after another. -/
theorem DependencyClosed.bundle {σ₁ : Store} {ps : List PublishedModule}
    (h : DependencyClosed v σ₁) (hps : ∀ p ∈ ps, Accepted v σ request p) (hkept : WellKept v σ)
    (hmono : ∀ a, (σ (a, moduleCodeLegacyKey)).isSome → (σ₁ (a, moduleCodeLegacyKey)).isSome) :
    DependencyClosed v (ps.foldl (NexusMove.publishOne v) σ₁) := by
  -- on the way, what held code before the bundle keeps holding it
  have hboth : DependencyClosed v (ps.foldl (NexusMove.publishOne v) σ₁)
      ∧ ∀ a, (σ (a, moduleCodeLegacyKey)).isSome →
        (ps.foldl (NexusMove.publishOne v) σ₁ (a, moduleCodeLegacyKey)).isSome := by
    refine bundle_keeps v σ₁ (P := fun σ' => DependencyClosed v σ'
      ∧ ∀ a, (σ (a, moduleCodeLegacyKey)).isSome → (σ' (a, moduleCodeLegacyKey)).isSome) ?_
      ⟨h, hmono⟩
    rintro σ' ⟨hclosed, hmono'⟩ p hp
    refine ⟨hclosed.publishOne (hps p hp) hkept hmono', fun a ha => ?_⟩
    exact isSome_legacyKey_publishOne p (hmono' a ha)
  exact hboth.1

/-- **Published stores are closed under foreign dependencies.** -/
theorem dependencyClosed_of_reachable (h : PublishReachable v schedule σ) :
    DependencyClosed v σ := by
  have hempty : DependencyClosed v KeyedStore.empty := by simp [DependencyClosed, KeyedStore.empty]
  have hboth : WellKept v σ ∧ DependencyClosed v σ := by
    refine Run.Reachable.invariant (P := fun σ => WellKept v σ ∧ DependencyClosed v σ) h
      ⟨wellKept_empty v, hempty⟩ ?_
    rintro τ request ⟨hkept, hclosed⟩
    refine ⟨hkept.publishStep request, ?_⟩
    rcases publishStep_cases v schedule τ request with ⟨-, heq⟩ | ⟨-, ps, -, hacc, heq⟩
    · rw [heq]
      exact hclosed
    · rw [heq]
      exact hclosed.bundle hacc hkept fun _ ha => ha
  exact hboth.2

/-- **Dependencies resolve.** In a store that publishes have built, an immediate dependency of a
stored module resolves to the embedded module if there is one of its id, and to a module of exactly
its id if it was ever published; one at a foreign address is at an address where something was
published. A publish never succeeds when one of its modules depends on a module at a foreign address
where nothing was published. -/
theorem dependencies_resolve (v : Vendor) (schedule : GasSchedule) (requests : List ModulePublish) :
    (∀ (id : ModuleId) b m,
      afterPublishes v schedule requests (id.address, moduleCodeKey id.name.name) = some b →
      v.deserialize b = .ok m → ∀ dep ∈ m.immediateDependencies,
        (v.Embedded dep → fetchModuleBytes v (afterPublishes v schedule requests).view dep
          = .ok (v.getFrameworkModule dep.name.name))
        ∧ (¬ v.Embedded dep → PublishedIn v schedule requests dep →
          ∃ b' m', fetchModuleBytes v (afterPublishes v schedule requests).view dep = .ok (some b')
            ∧ v.deserialize b' = .ok m' ∧ m'.selfId = dep)
        ∧ (Foreign id.address dep → ∃ n, PublishedIn v schedule requests ⟨dep.address, n⟩))
    ∧ ∀ (request : ModulePublish), ∀ bytes ∈ request.modules, ∀ m, v.deserialize bytes = .ok m →
        ∀ dep ∈ m.immediateDependencies, Foreign request.sender dep →
          (∀ n, ¬ PublishedIn v schedule requests ⟨dep.address, n⟩) →
          ¬ Succeeds v schedule (afterPublishes v schedule requests) request := by
  have hreach : PublishReachable v schedule (afterPublishes v schedule requests) := ⟨requests, rfl⟩
  have hkept := wellKept_of_reachable hreach
  have hclosed := dependencyClosed_of_reachable hreach
  constructor
  · intro id b m hb hm dep hdep
    refine ⟨fun h => fetchModuleBytes_of_embedded _ h, fun hnot hpub => ?_, fun hforeign => ?_⟩
    · -- nothing is unpublished, so the name still has a key, with a module of that name
      obtain ⟨b', hb'⟩ :=
        Option.isSome_iff_exists.mp ((isSome_moduleCodeKey_iff requests dep).mpr hpub)
      obtain ⟨⟨m', hm', hself⟩, -⟩ := hkept.ownKey dep b' hb'
      exact ⟨b', m', fetch_of_ownKey hnot hb', hm', hself⟩
    · -- the check found code at the address when the module was published
      exact (isSome_legacyKey_iff requests dep.address).mp (hclosed id b m hb hm dep hdep hforeign)
  · intro request bytes hbytes m hm dep hdep hforeign hnothing hsucc
    rcases publishStep_cases v schedule (afterPublishes v schedule requests) request with
      ⟨hfail, -⟩ | ⟨-, ps, hmap, hacc, -⟩
    · exact hfail hsucc
    · -- the check of a foreign dependency can only have found code at its address
      rw [← hmap] at hbytes
      obtain ⟨p, hp, rfl⟩ := List.mem_map.mp hbytes
      obtain rfl := (hacc p hp).compiled_eq hm
      have hsome := (hacc p hp).isSome_of_foreign hkept hdep hforeign
      obtain ⟨n, hn⟩ := (isSome_legacyKey_iff requests dep.address).mp hsome
      exact hnothing n hn

end Closure

/-! ## Two modules with a dependency

`sampleC` is an empty module `0xCAFE::c` whose handle table names `0xCAFE::d`, a module that does
not exist; `sampleE` is an empty module `0xBEEF::e` that names `0xCAFE::a`. -/

def sampleC : CompiledModule where
  selfModuleHandleIdx := 0
  moduleHandles := [{ address := 0, name := 0 }, { address := 0, name := 1 }]
  structHandles := []
  functionHandles := []
  signatures := []
  identifiers := [⟨"c"⟩, ⟨"d"⟩]
  addressIdentifiers := [sampleAddress]
  structDefs := []
  functionDefs := []
  otherTables := []

def sampleCBytes : Bytes :=
  [161, 28, 235, 11, 6, 0, 0, 0, 3, 1, 0, 4, 7, 4, 4, 8, 8, 32, 0, 0, 0, 1, 1, 99, 1, 100, 0, 0,
   0, 0, 0, 0, 0, 0, 0, 0, 0, 0, 0, 0, 0, 0, 0, 0, 0, 0, 0, 0, 0, 0, 0, 0, 0, 0, 0, 0, 202, 254,
   0]

def sampleE : CompiledModule where
  selfModuleHandleIdx := 0
  moduleHandles := [{ address := 0, name := 0 }, { address := 1, name := 1 }]
  structHandles := []
  functionHandles := []
  signatures := []
  identifiers := [⟨"e"⟩, ⟨"a"⟩]
  addressIdentifiers := [otherAddress, sampleAddress]
  structDefs := []
  functionDefs := []
  otherTables := []

def sampleEBytes : Bytes :=
  [161, 28, 235, 11, 6, 0, 0, 0, 3, 1, 0, 4, 7, 4, 4, 8, 8, 64, 0, 0, 1, 1, 1, 101, 1, 97, 0, 0,
   0, 0, 0, 0, 0, 0, 0, 0, 0, 0, 0, 0, 0, 0, 0, 0, 0, 0, 0, 0, 0, 0, 0, 0, 0, 0, 0, 0, 190, 239,
   0, 0, 0, 0, 0, 0, 0, 0, 0, 0, 0, 0, 0, 0, 0, 0, 0, 0, 0, 0, 0, 0, 0, 0, 0, 0, 0, 0, 0, 0,
   202, 254, 0]

def dependencyVendor : Vendor :=
  .ofTables [(sampleABytes, sampleA), (sampleCBytes, sampleC), (sampleEBytes, sampleE)]
    ([ (sampleCBytes,
        ⟨[94, 86, 239, 89, 115, 68, 179, 198, 108, 119, 68, 164, 94, 127, 219, 203, 93, 58, 92, 112,
          49, 218, 146, 66, 133, 139, 83, 103, 6, 164, 231, 144], rfl⟩),
      (sampleEBytes,
        ⟨[110, 95, 76, 236, 100, 64, 15, 224, 92, 183, 174, 74, 7, 189, 249, 40, 25, 24, 179, 219,
          216, 185, 174, 77, 248, 176, 141, 31, 161, 14, 103, 54], rfl⟩) ] ++ sampleDigests)
    []

def publishC : ModulePublish where
  sender := sampleAddress
  modules := [sampleCBytes]
  gasLimit := 1000000
  upgradePolicy := none

def publishE : ModulePublish where
  sender := otherAddress
  modules := [sampleEBytes]
  gasLimit := 1000000
  upgradePolicy := none

theorem deserialize_sampleC : dependencyVendor.deserialize sampleCBytes = .ok sampleC := by
  simp [dependencyVendor, Vendor.ofTables, sampleABytes, sampleCBytes]

theorem deserialize_sampleE : dependencyVendor.deserialize sampleEBytes = .ok sampleE := by
  simp [dependencyVendor, Vendor.ofTables, sampleABytes, sampleCBytes, sampleEBytes]

theorem dependencies_resolve_sampleE :
    ∃ b m, fetchModuleBytes dependencyVendor
        (afterPublishes dependencyVendor sampleSchedule [publishA, publishE]).view
          ⟨sampleAddress, ⟨"a"⟩⟩ = .ok (some b)
      ∧ dependencyVendor.deserialize b = .ok m ∧ m.selfId = ⟨sampleAddress, ⟨"a"⟩⟩ := by
  have h := (dependencies_resolve dependencyVendor sampleSchedule [publishA, publishE]).1
    ⟨otherAddress, ⟨"e"⟩⟩ sampleEBytes sampleE (by decide +kernel) deserialize_sampleE
    ⟨sampleAddress, ⟨"a"⟩⟩ (by decide)
  refine h.2.1 (by decide) (Or.inl ⟨by decide +kernel, sampleABytes, by simp [publishA], ?_⟩)
  exact ⟨sampleA, by simp [dependencyVendor, Vendor.ofTables], by decide⟩

/-- The module `c` is stored although its dependency `d` is in no store, no framework and no
bundle: the check waives the sender's own address, and no lookup finds a module of that id. -/
theorem missing_sibling_is_waived :
    ¬ ∀ (id : ModuleId) b m,
        afterPublishes dependencyVendor sampleSchedule [publishC]
          (id.address, moduleCodeKey id.name.name) = some b →
        dependencyVendor.deserialize b = .ok m → ∀ dep ∈ m.immediateDependencies,
        ∃ b' m', fetchModuleBytes dependencyVendor
            (afterPublishes dependencyVendor sampleSchedule [publishC]).view dep = .ok (some b')
          ∧ dependencyVendor.deserialize b' = .ok m' ∧ m'.selfId = dep := by
  intro h
  obtain ⟨b', m', hfetch, hm', hself⟩ := h ⟨sampleAddress, ⟨"c"⟩⟩ sampleCBytes sampleC
    (by decide +kernel) deserialize_sampleC ⟨sampleAddress, ⟨"d"⟩⟩ (by decide)
  have hbytes : fetchModuleBytes dependencyVendor
      (afterPublishes dependencyVendor sampleSchedule [publishC]).view ⟨sampleAddress, ⟨"d"⟩⟩
        = .ok (some sampleCBytes) := by
    decide +kernel
  obtain rfl : sampleCBytes = b' := by simpa [hbytes] using hfetch
  obtain rfl : sampleC = m' := Except.ok.inj (deserialize_sampleC.symm.trans hm')
  exact absurd hself (by decide)

end NexusMove
