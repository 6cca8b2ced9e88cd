import NexusMove.Runtime.Atomicity

/-!
# Package records

What a publish leaves at an address besides the modules: the code of the module
published last, its hash, and the metadata that later upgrade checks read. All are
written again for every module of a bundle, and executions write to the same
accounts.

* `RecordAt` — a complete record, its parts in agreement.
* `RecordsConsistent.step` — no request breaks the agreement.
* `package_records_consistent` — every store a run reaches has complete records only.
-/

namespace NexusMove

/-- The record at an address: the code stored last, the module it holds, and its metadata. -/
structure RecordAt (v : Vendor) (σ : Store) (a : AccountAddress) (code : Bytes)
    (compiled : CompiledModule) (metadata : PackageMetadata) : Prop where
  codeStored : σ (a, moduleCodeLegacyKey) = some code
  hashStored : σ (a, moduleCodeHashKey) = some (v.blake3 code).toBytes
  metadataStored : ∃ bytes, σ (a, moduleMetadataKey) = some bytes ∧ decodeMetadata bytes = some metadata
  deserialize : v.deserialize code = .ok compiled
  selfId : compiled.selfId = { address := a, name := ⟨metadata.name⟩ }
  packageHash : metadata.packageHash = v.blake3 code
  abiHash : metadata.abiHash = computeModuleAbiHash v.blake3 compiled
  deployer : metadata.deployer = a
  moduleHashes : metadata.moduleHashes = [(metadata.name, v.blake3 code)]
  ownKeyStored : σ (a, moduleCodeKey metadata.name) = some code

/-- Nothing is recorded at the address. -/
structure NoRecordAt (σ : Store) (a : AccountAddress) : Prop where
  codeStored : σ (a, moduleCodeLegacyKey) = none
  hashStored : σ (a, moduleCodeHashKey) = none
  metadataStored : σ (a, moduleMetadataKey) = none

def RecordsConsistent (v : Vendor) (σ : Store) : Prop :=
  ∀ a, NoRecordAt σ a ∨ ∃ code compiled metadata, RecordAt v σ a code compiled metadata

section Steps

variable {v : Vendor} {schedule : GasSchedule} {σ τ : Store} {a : AccountAddress}

theorem recordsConsistent_empty : RecordsConsistent v KeyedStore.empty :=
  fun _ => .inl ⟨rfl, rfl, rfl⟩

theorem NoRecordAt.congr (h : NoRecordAt σ a) (heq : ∀ k ∈ sharedKeys, τ (a, k) = σ (a, k)) :
    NoRecordAt τ a where
  codeStored := (heq _ (by decide)).trans h.codeStored
  hashStored := (heq _ (by decide)).trans h.hashStored
  metadataStored := (heq _ (by decide)).trans h.metadataStored

theorem RecordAt.congr {code : Bytes} {compiled : CompiledModule} {metadata : PackageMetadata}
    (h : RecordAt v σ a code compiled metadata) (heq : ∀ k ∈ sharedKeys, τ (a, k) = σ (a, k))
    (hown : τ (a, moduleCodeKey metadata.name) = σ (a, moduleCodeKey metadata.name)) :
    RecordAt v τ a code compiled metadata where
  codeStored := (heq _ (by decide)).trans h.codeStored
  hashStored := (heq _ (by decide)).trans h.hashStored
  metadataStored := by
    rw [heq moduleMetadataKey (by decide)]
    exact h.metadataStored
  deserialize := h.deserialize
  selfId := h.selfId
  packageHash := h.packageHash
  abiHash := h.abiHash
  deployer := h.deployer
  moduleHashes := h.moduleHashes
  ownKeyStored := hown.trans h.ownKeyStored

/-! ## Publishing -/

/-- **The record of a module.** An accepted module that is written leaves a complete record,
whatever was there before. -/
theorem recordAt_publishOne {σ₀ : Store} {request : ModulePublish} {p : PublishedModule}
    (hp : Accepted v σ₀ request p) :
    RecordAt v (publishOne v σ p) p.compiled.selfId.address p.bytes p.compiled
      (packageMetadata v request p.bytes p.compiled) where
  codeStored := publishOne_legacyKey v σ p
  hashStored := publishOne_hashKey v σ p
  metadataStored := ⟨p.metadataBytes, publishOne_metadataKey v σ p,
    decodeMetadata_encodeMetadata hp.metadata⟩
  deserialize := hp.deserialize
  selfId := rfl
  packageHash := rfl
  abiHash := rfl
  deployer := hp.sender.symm
  moduleHashes := rfl
  ownKeyStored := by
    have h := publishOne_moduleCodeKey v σ p p.compiled.selfId
    rw [if_pos rfl] at h
    exact h

theorem RecordsConsistent.publishOne (h : RecordsConsistent v σ) {σ₀ : Store}
    {request : ModulePublish} {p : PublishedModule} (hp : Accepted v σ₀ request p) :
    RecordsConsistent v (publishOne v σ p) := by
  intro a
  by_cases ha : a = p.compiled.selfId.address
  · subst ha
    exact .inr ⟨_, _, _, recordAt_publishOne hp⟩
  · -- every other address is left alone
    have hframe : ∀ k, NexusMove.publishOne v σ p (a, k) = σ (a, k) := fun k =>
      publishOne_frame v σ p fun h => absurd h ha
    rcases h a with hnone | ⟨code, compiled, metadata, hrecord⟩
    · exact .inl (hnone.congr fun k _ => hframe k)
    · exact .inr ⟨code, compiled, metadata, hrecord.congr (fun k _ => hframe k) (hframe _)⟩

theorem RecordsConsistent.bundle (h : RecordsConsistent v σ) {σ₀ : Store} {request : ModulePublish}
    {ps : List PublishedModule} (hps : ∀ p ∈ ps, Accepted v σ₀ request p) :
    RecordsConsistent v (ps.foldl (NexusMove.publishOne v) σ) := by
  refine bundle_keeps v σ ?_ h
  intro σ' hσ' p hp
  exact hσ'.publishOne (hps p hp)

/-! ## Executing -/

/-- **Executions leave records alone**: their keys are no keys of resources. -/
theorem RecordsConsistent.invoke (hv : v.ChecksIdentifiers) (h : RecordsConsistent v σ)
    (inv : Invocation) (interpreter : Interpreter) :
    RecordsConsistent v (chainStep v schedule σ (.invoke inv interpreter)) := by
  intro a
  have hshared : ∀ k ∈ sharedKeys, chainStep v schedule σ (.invoke inv interpreter) (a, k)
      = σ (a, k) := fun k hk => invoke_codeKey (.inl hk) inv interpreter
  rcases h a with hnone | ⟨code, compiled, metadata, hrecord⟩
  · exact .inl (hnone.congr hshared)
  · -- the module's own key is apart from resources because its name is a valid identifier
    have hvalid : (⟨metadata.name⟩ : Identifier).IsValid := by
      have hname := hv code compiled hrecord.deserialize
      rw [hrecord.selfId] at hname
      exact hname
    have hown : chainStep v schedule σ (.invoke inv interpreter) (a, moduleCodeKey metadata.name)
        = σ (a, moduleCodeKey metadata.name) :=
      invoke_codeKey (.inr ⟨⟨metadata.name⟩, hvalid, rfl⟩) inv interpreter
    exact .inr ⟨code, compiled, metadata, hrecord.congr hshared hown⟩

/-- **One request.** -/
theorem RecordsConsistent.step (hv : v.ChecksIdentifiers) (h : RecordsConsistent v σ)
    (request : ChainRequest) : RecordsConsistent v (chainStep v schedule σ request) := by
  cases request with
  | publish request =>
    rcases chainStep_publish_cases v schedule σ request with heq | ⟨ps, hacc, heq⟩
    · rw [heq]
      exact h
    · rw [heq]
      exact h.bundle hacc
  | invoke inv interpreter => exact h.invoke hv inv interpreter

end Steps

/-- **Package records are consistent.** In every store that publishes, calls and scripts make of
the empty one, in any order and with any effects of what is run: at every address, code, hash and
metadata are all absent, or all there and in agreement with one another and with the module stored
under its own name. The one thing taken from the deserializer is that it checks identifiers. -/
theorem package_records_consistent (v : Vendor) (hv : v.ChecksIdentifiers) (schedule : GasSchedule)
    (requests : List ChainRequest) (a : AccountAddress) :
    let σ := Run.exec (transact v schedule) KeyedStore.empty requests
    NoRecordAt σ a ∨ ∃ code compiled metadata, RecordAt v σ a code compiled metadata := by
  have hrun : RecordsConsistent v (Run.exec (chainStep v schedule) KeyedStore.empty requests) :=
    Run.invariant (fun _ request h => h.step hv request) recordsConsistent_empty requests
  rw [transact_eq_chainStep]
  exact hrun a

theorem sampleVendor_checksIdentifiers : sampleVendor.ChecksIdentifiers :=
  Vendor.ofTables_checksIdentifiers (by decide)

theorem package_records_consistent_publishA :
    ∃ code compiled metadata, RecordAt sampleVendor
      (Run.exec (transact sampleVendor sampleSchedule) KeyedStore.empty [.publish publishA])
      sampleAddress code compiled metadata := by
  have hsome : (Run.exec (transact sampleVendor sampleSchedule) KeyedStore.empty
      [.publish publishA] (sampleAddress, moduleCodeLegacyKey)).isSome = true := by
    decide +kernel
  rcases package_records_consistent sampleVendor sampleVendor_checksIdentifiers sampleSchedule
    [.publish publishA] sampleAddress with hnone | hrecord
  · rw [hnone.codeStored] at hsome
    cases hsome
  · exact hrecord

end NexusMove
