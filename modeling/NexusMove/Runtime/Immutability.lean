import NexusMove.Runtime.Admission

/-!
# Immutable code

Runs that mix publishing with execution. A publish is refused at an address
whose code is there under a policy other than `Compatible`, and leaves every
other address alone; an execution writes resources, whose keys are apart from
all keys of code. So the code of such an address never changes.

* `chainStep` — one request of any kind, applied to the store.
* `Sealed` — code is there, and no readable policy says `Compatible`.
* `sealed_code_is_immutable` — nothing about sealed code changes in any run.
-/

namespace NexusMove

/-- A request to the runtime. A request to run code comes with the interpreter that runs it, so
that a run may see any behaviour of the interpreter at every step. -/
inductive ChainRequest where
  | publish (request : ModulePublish)
  | invoke (inv : Invocation) (interpreter : Interpreter)

/-- The changes of an output, applied; an error has none. -/
def Store.applyOutput (σ : Store) : VmResult VmOutput → Store
  | .ok out => σ.applyChanges out.stateChanges
  | .error _ => σ

def chainStep (v : Vendor) (schedule : GasSchedule) (σ : Store) : ChainRequest → Store
  | .publish request => σ.applyOutput (publishModules v schedule σ.view request)
  | .invoke inv interpreter => σ.applyOutput (executeInvocation v schedule σ.view interpreter inv)

/-- The keys of an account that hold code or say what is allowed to happen to it. -/
def CodeKey (k : Bytes) : Prop :=
  k ∈ sharedKeys ∨ ∃ n : Identifier, n.IsValid ∧ k = moduleCodeKey n.name

/-- Code is stored at the address, and its metadata is absent, unreadable, or has a policy other
than `Compatible`. -/
structure Sealed (σ : Store) (a : AccountAddress) : Prop where
  code : (σ (a, moduleCodeLegacyKey)).isSome
  policy : ∀ metadata, storedMetadata σ a = some metadata → metadata.upgradePolicy ≠ .compatible

section Steps

variable {v : Vendor} {schedule : GasSchedule} {σ : Store} {a : AccountAddress} {k : Bytes}

theorem Sealed.not_accepted (h : Sealed σ a) {request : ModulePublish}
    (hsender : request.sender = a)
    {p : PublishedModule} : ¬ Accepted v σ request p := by
  intro hp
  obtain ⟨metadata, hmeta, hcompatible, -⟩ := hp.policy (hsender ▸ h.code)
  exact h.policy metadata (hsender ▸ hmeta) hcompatible

/-- **A publish on the chain.** The store stays as it is, or the modules of the bundle, all of them
accepted, are written one after another. -/
theorem chainStep_publish_cases (v : Vendor) (schedule : GasSchedule) (σ : Store)
    (request : ModulePublish) :
    chainStep v schedule σ (.publish request) = σ
    ∨ ∃ ps : List PublishedModule, (∀ p ∈ ps, Accepted v σ request p)
        ∧ chainStep v schedule σ (.publish request) = ps.foldl (publishOne v) σ := by
  rw [chainStep]
  rcases publishModules_cases v schedule σ request with
    ⟨e, he⟩ | ⟨out, hout, -, hquiet⟩ | ⟨ps, -, hacc, hout⟩
  · left
    rw [he, Store.applyOutput]
  · left
    rw [hout, Store.applyOutput, hquiet]
    rfl
  · right
    refine ⟨ps, hacc, ?_⟩
    rw [hout, Store.applyOutput, publishSuccess, applyChanges_bundleChanges]

theorem Sealed.publish (h : Sealed σ a) (request : ModulePublish) :
    chainStep v schedule σ (.publish request) (a, k) = σ (a, k) := by
  rcases chainStep_publish_cases v schedule σ request with heq | ⟨ps, hacc, heq⟩
  · rw [heq]
  · rw [heq]
    by_cases hsender : request.sender = a
    · cases ps with
      | nil => rfl
      | cons p ps => exact absurd (hacc p List.mem_cons_self) (h.not_accepted hsender)
    · exact bundle_other hacc hsender

theorem resourceKey_ne_of_codeKey (hk : CodeKey k) (t : StructTag) : resourceKey t ≠ k := by
  rcases hk with hk | ⟨n, hn, rfl⟩
  · have hsub : ∀ k ∈ sharedKeys, k ∈ fixedKeys := by decide
    intro h
    exact resourceKey_not_mem_fixedKeys t (h ▸ hsub k hk)
  · exact resourceKey_ne_moduleCodeKey t hn

theorem invoke_codeKey (hk : CodeKey k) (inv : Invocation) (interpreter : Interpreter) :
    chainStep v schedule σ (.invoke inv interpreter) (a, k) = σ (a, k) := by
  rw [chainStep]
  rcases executeInvocation_cases v schedule σ.view interpreter inv with
    ⟨e, he⟩ | ⟨out, hout, -, hquiet⟩ | ⟨start, effects, out, -, -, hout, hchanges⟩
  · rw [he, Store.applyOutput]
  · rw [hout, Store.applyOutput, hquiet]
    rfl
  · rw [hout, Store.applyOutput, hchanges, Store.applyChanges]
    refine KeyedStore.applyAll_frame fun w hw => ?_
    obtain ⟨c, hc, rfl⟩ := List.mem_map.mp hw
    obtain ⟨t, ht⟩ := exists_of_mem_changesetToNexus hc
    intro heq
    refine resourceKey_ne_of_codeKey hk t ?_
    rw [← ht]
    exact congrArg Prod.snd heq

/-- **One step.** No request changes a code key of a sealed address. -/
theorem Sealed.step (h : Sealed σ a) (hk : CodeKey k) (request : ChainRequest) :
    chainStep v schedule σ request (a, k) = σ (a, k) := by
  cases request with
  | publish request => exact h.publish request
  | invoke inv interpreter => exact invoke_codeKey hk inv interpreter

theorem codeKey_legacy : CodeKey moduleCodeLegacyKey := .inl (by decide)

theorem codeKey_metadata : CodeKey moduleMetadataKey := .inl (by decide)

/-- An address whose code keys are those of a sealed one is sealed. -/
theorem Sealed.of_codeKeys (h : Sealed σ a) {τ : Store}
    (heq : ∀ k, CodeKey k → τ (a, k) = σ (a, k)) : Sealed τ a where
  code := by
    rw [heq _ codeKey_legacy]
    exact h.code
  policy := by
    rw [storedMetadata, heq _ codeKey_metadata]
    exact h.policy

/-- **A run.** No sequence of requests changes a code key of a sealed address. -/
theorem Sealed.run (h : Sealed σ a) (requests : List ChainRequest) (hk : CodeKey k) :
    Run.exec (chainStep v schedule) σ requests (a, k) = σ (a, k) := by
  -- the step lemma needs a sealed store, which equal code keys make of the store on the way
  refine Run.invariant (P := fun τ : Store => ∀ k, CodeKey k → τ (a, k) = σ (a, k)) ?_
    (fun _ _ => rfl)
    requests k hk
  intro τ request hτ k hk
  rw [(h.of_codeKeys hτ).step hk request]
  exact hτ k hk

end Steps

/-- **Immutable code.** Let code be stored at `a`, with metadata that is absent, unreadable, or
of policy `Immutable` or `GovernanceOnly`. Whatever is published, called and run afterwards, by
anybody and with any effects, the code, its hash, its metadata and the module keys of `a` stay
what they are; so no module appears at `a` and its policy stays. -/
theorem sealed_code_is_immutable (v : Vendor) (schedule : GasSchedule) (σ : Store)
    (a : AccountAddress) (hcode : (σ (a, moduleCodeLegacyKey)).isSome)
    (hpolicy : ∀ metadata, storedMetadata σ a = some metadata →
      metadata.upgradePolicy = .immutable ∨ metadata.upgradePolicy = .governanceOnly)
    (requests : List ChainRequest) :
    let σ' := Run.exec (chainStep v schedule) σ requests
    σ' (a, moduleCodeLegacyKey) = σ (a, moduleCodeLegacyKey)
    ∧ σ' (a, moduleCodeHashKey) = σ (a, moduleCodeHashKey)
    ∧ σ' (a, moduleMetadataKey) = σ (a, moduleMetadataKey)
    ∧ (∀ n : Identifier, n.IsValid → σ' (a, moduleCodeKey n.name) = σ (a, moduleCodeKey n.name))
    ∧ storedMetadata σ' a = storedMetadata σ a := by
  have hsealed : Sealed σ a := by
    -- readable metadata of another policy than `Compatible`; no metadata counts as `Immutable`
    refine ⟨hcode, fun metadata hmeta hcompatible => ?_⟩
    rcases hpolicy metadata hmeta with h | h
    · rw [h] at hcompatible
      cases hcompatible
    · rw [h] at hcompatible
      cases hcompatible
  have hmeta : Run.exec (chainStep v schedule) σ requests (a, moduleMetadataKey)
      = σ (a, moduleMetadataKey) := hsealed.run requests codeKey_metadata
  refine ⟨hsealed.run requests codeKey_legacy, hsealed.run requests (.inl (by decide)), hmeta,
    fun n hn => hsealed.run requests (.inr ⟨n, hn, rfl⟩), ?_⟩
  rw [storedMetadata, hmeta, storedMetadata]

/-- A store with the code of `p` and no metadata: a package without a readable policy. -/
def sampleSealedStore : Store :=
  (sampleStore "p" samplePBytes).write ((sampleAddress, moduleCodeLegacyKey), some samplePBytes)

def sealedVendor : Vendor :=
  .ofTables
    [ (samplePBytes, sampleP), (sampleABytes, sampleA), (sampleBBytes, sampleB),
      (sampleBcsBytes, sampleBcs) ]
    sampleDigests []

def mintedTag : StructTag where
  address := sampleAddress
  module := ⟨"p"⟩
  name := ⟨"Minted"⟩
  typeArgs := []

/-- An interpreter whose every run writes a resource at the address of `p`. -/
def sampleWriter : Interpreter where
  run _ _ _ :=
    { gasConsumed := 0
      result := .ok (.ok
        { changeSet := [(sampleAddress, [(mintedTag, .new [7])])], events := [], returnValues := [] }) }

/-- A publish at the sealed address, a publish at another one, and a call of `p::mint`. -/
def sampleChain : List ChainRequest :=
  [.publish publishAB, .publish publishBcs, .invoke (.call callMint) sampleWriter]

/-- The second request publishes and the third one writes a resource; the code of `p` stays, and
the first request has not added `b`. -/
theorem sealed_code_is_immutable_sampleChain :
    let σ' := Run.exec (chainStep sealedVendor sampleSchedule) sampleSealedStore sampleChain
    σ' (frameworkAddress, moduleCodeKey "bcs") = some sampleBcsBytes
    ∧ σ' (sampleAddress, resourceKey mintedTag) = some [7]
    ∧ σ' (sampleAddress, moduleCodeLegacyKey) = some samplePBytes
    ∧ σ' (sampleAddress, moduleCodeKey "b") = none
    ∧ storedMetadata σ' sampleAddress = none := by
  have hnone : storedMetadata sampleSealedStore sampleAddress = none := by
    decide +kernel
  obtain ⟨hlegacy, -, -, hnames, hmeta⟩ := sealed_code_is_immutable sealedVendor sampleSchedule
    sampleSealedStore sampleAddress (by decide +kernel) (by simp [hnone]) sampleChain
  refine ⟨by decide +kernel, by decide +kernel, ?_, ?_, hmeta.trans hnone⟩
  · exact hlegacy.trans (by decide +kernel)
  · exact (hnames ⟨"b"⟩ (by decide)).trans (by decide +kernel)

end NexusMove
