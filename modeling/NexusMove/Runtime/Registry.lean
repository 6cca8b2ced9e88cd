import NexusMove.Lib.Run
import NexusMove.Runtime.Publish

/-!
# The module registry in the store

What the changes of a publish do to the store, key by key, and what holds of
every store that publishes alone have built. A bundle is applied one module at a
time; each module writes its own key and the three keys it shares with the other
modules of its address, so the last module of a bundle decides the shared ones.

* `applyChanges_bundleChanges` — a bundle is its modules, applied in order.
* `bundle_moduleCodeKey` — the last module of a name decides the key of that name.
* `succeeds_iff` — which bundles are published.
* `WellKept` — the invariant of published stores; `wellKept_of_reachable`.
-/

namespace NexusMove

section Writes

variable (v : Vendor) (σ : Store)

/-- The store after the four writes of one module. -/
def publishOne (σ : Store) (p : PublishedModule) : Store :=
  σ.applyChanges (moduleChanges v p.bytes p.compiled p.metadataBytes)

theorem applyChanges_append (xs ys : List StateChange) :
    σ.applyChanges (xs ++ ys) = (σ.applyChanges xs).applyChanges ys := by
  simp [Store.applyChanges, KeyedStore.applyAll_append]

theorem applyChanges_bundleChanges (ps : List PublishedModule) :
    σ.applyChanges (bundleChanges v ps) = ps.foldl (publishOne v) σ := by
  induction ps generalizing σ with
  | nil => rfl
  | cons p ps ih =>
    rw [bundleChanges, List.flatMap_cons, applyChanges_append, List.foldl_cons]
    exact ih _

variable (p : PublishedModule)

/-- The keys one module writes, besides its own. -/
def sharedKeys : List Bytes := [moduleCodeLegacyKey, moduleCodeHashKey, moduleMetadataKey]

/-- No name of a module makes one of the keys that the modules of an account share. -/
theorem moduleCodeKey_not_mem_sharedKeys (n : String) : moduleCodeKey n ∉ sharedKeys := by
  intro h
  have hsub : ∀ k ∈ sharedKeys, k ∈ fixedKeys := by decide
  exact moduleCodeKey_not_mem_fixedKeys n (hsub _ h)

/-- A published module writes nothing but its own key and the shared keys of its address. -/
theorem publishOne_frame {a : AccountAddress} {k : Bytes}
    (h : a = p.compiled.selfId.address →
      k ≠ moduleCodeKey p.compiled.selfId.name.name ∧ k ∉ sharedKeys) :
    publishOne v σ p (a, k) = σ (a, k) := by
  refine KeyedStore.applyAll_frame ?_
  simp only [moduleChanges, StateChange.toWrite, List.map_cons, List.map_nil, List.forall_mem_cons,
    List.not_mem_nil, false_imp_iff, implies_true, and_true]
  simp only [sharedKeys, List.mem_cons, List.not_mem_nil, or_false, not_or] at h
  grind

theorem publishOne_moduleCodeKey (id : ModuleId) :
    publishOne v σ p (id.address, moduleCodeKey id.name.name) =
      if id = p.compiled.selfId then some p.bytes
      else σ (id.address, moduleCodeKey id.name.name) := by
  by_cases hid : id = p.compiled.selfId
  · -- the three shared keys are written after it, and none of them is the own key
    have hne : ∀ k ∈ sharedKeys, moduleCodeKey p.compiled.selfId.name.name ≠ k := by
      intro k hk h
      exact moduleCodeKey_not_mem_sharedKeys _ (h ▸ hk)
    simp only [sharedKeys, List.forall_mem_cons] at hne
    rw [if_pos hid, hid]
    simp [publishOne, Store.applyChanges, moduleChanges, StateChange.toWrite,
      KeyedStore.write, hne]
  · rw [if_neg hid]
    refine publishOne_frame v σ p fun haddr => ⟨?_, moduleCodeKey_not_mem_sharedKeys _⟩
    intro hk
    refine hid ?_
    obtain ⟨a, ⟨n⟩⟩ := id
    have hn : n = p.compiled.selfId.name.name := moduleCodeKey_injective hk
    have haddr : a = p.compiled.selfId.address := haddr
    rw [hn, haddr]

/-- The legacy key has the module that was written last. -/
theorem publishOne_legacyKey :
    publishOne v σ p (p.compiled.selfId.address, moduleCodeLegacyKey) = some p.bytes := by
  have h1 : moduleCodeLegacyKey ≠ moduleCodeHashKey := by decide
  have h2 : moduleCodeLegacyKey ≠ moduleMetadataKey := by decide
  simp [publishOne, Store.applyChanges, moduleChanges, StateChange.toWrite, KeyedStore.write, h1,
    h2]

theorem publishOne_hashKey :
    publishOne v σ p (p.compiled.selfId.address, moduleCodeHashKey)
      = some (v.blake3 p.bytes).toBytes := by
  have h : moduleCodeHashKey ≠ moduleMetadataKey := by decide
  simp [publishOne, Store.applyChanges, moduleChanges, StateChange.toWrite, KeyedStore.write, h]

theorem publishOne_metadataKey :
    publishOne v σ p (p.compiled.selfId.address, moduleMetadataKey) = some p.metadataBytes := by
  simp [publishOne, Store.applyChanges, moduleChanges, StateChange.toWrite, KeyedStore.write]

/-- The bytes the last module of a bundle called `id` has, if one is. -/
def lastNamed : List PublishedModule → ModuleId → Option Bytes
  | [], _ => none
  | p :: ps, id => (lastNamed ps id).or (if id = p.compiled.selfId then some p.bytes else none)

/-- **Bundles.** What every module of a bundle keeps, the bundle keeps. -/
theorem bundle_keeps {P : Store → Prop} {ps : List PublishedModule}
    (hstep : ∀ σ, P σ → ∀ p ∈ ps, P (publishOne v σ p)) (h : P σ) :
    P (ps.foldl (publishOne v) σ) :=
  List.foldlRecOn ps (publishOne v) h hstep

/-- A key that no module of the bundle writes keeps its bytes. -/
theorem bundle_frame {ps : List PublishedModule} {a : AccountAddress} {k : Bytes}
    (h : ∀ p ∈ ps, a = p.compiled.selfId.address →
      k ≠ moduleCodeKey p.compiled.selfId.name.name ∧ k ∉ sharedKeys) :
    ps.foldl (publishOne v) σ (a, k) = σ (a, k) := by
  refine bundle_keeps v σ (P := fun σ' => σ' (a, k) = σ (a, k)) ?_ rfl
  intro σ' heq p hp
  rw [publishOne_frame v σ' p (h p hp), heq]

/-- **Module keys after a bundle.** The last module of a name decides its key. -/
theorem bundle_moduleCodeKey (ps : List PublishedModule) (id : ModuleId) :
    ps.foldl (publishOne v) σ (id.address, moduleCodeKey id.name.name) =
      (lastNamed ps id).or (σ (id.address, moduleCodeKey id.name.name)) := by
  induction ps generalizing σ with
  | nil => rfl
  | cons p ps ih =>
    rw [List.foldl_cons, ih, publishOne_moduleCodeKey, lastNamed]
    cases lastNamed ps id with
    | some b => rfl
    | none =>
      by_cases hid : id = p.compiled.selfId
      · simp [hid]
      · simp [hid]

theorem lastNamed_eq_none_iff {ps : List PublishedModule} {id : ModuleId} :
    lastNamed ps id = none ↔ ∀ p ∈ ps, p.compiled.selfId ≠ id := by
  induction ps with
  | nil => simp [lastNamed]
  | cons p ps ih =>
    simp only [lastNamed, Option.or_eq_none_iff, ih, List.forall_mem_cons]
    constructor
    · rintro ⟨hps, hp⟩
      exact ⟨fun h => by simp [h] at hp, hps⟩
    · rintro ⟨hp, hps⟩
      exact ⟨hps, if_neg (Ne.symm hp)⟩

/-- The last module of a name is a module of the bundle. -/
theorem exists_of_lastNamed {ps : List PublishedModule} {id : ModuleId} {b : Bytes}
    (h : lastNamed ps id = some b) : ∃ p ∈ ps, p.compiled.selfId = id ∧ p.bytes = b := by
  induction ps with
  | nil => simp [lastNamed] at h
  | cons p ps ih =>
    cases hps : lastNamed ps id with
    | some b' =>
      obtain ⟨q, hq, hid, hb⟩ := ih (by simpa [lastNamed, hps] using h)
      exact ⟨q, List.mem_cons_of_mem _ hq, hid, hb⟩
    | none =>
      obtain ⟨hid, hb⟩ : id = p.compiled.selfId ∧ p.bytes = b := by simpa [lastNamed, hps] using h
      exact ⟨p, List.mem_cons_self, hid.symm, hb⟩

end Writes

/-! ## Publishing as a step of the chain -/

section Steps

variable (v : Vendor) (schedule : GasSchedule)

/-- The state after a publish request: a success is applied, anything else is dropped. -/
def publishStep (σ : Store) (request : ModulePublish) : Store :=
  σ.applyResult (publishModules v schedule σ.view request)

/-- The publish ends with the status `success`. -/
def Succeeds (σ : Store) (request : ModulePublish) : Prop :=
  ∃ out, publishModules v schedule σ.view request = .ok out ∧ out.status = .success

instance (σ : Store) (request : ModulePublish) : Decidable (Succeeds v schedule σ request) :=
  match h : publishModules v schedule σ.view request with
  | .ok out => decidable_of_iff (out.status = .success) (by simp [Succeeds, h])
  | .error _ => isFalse (by simp [Succeeds, h])

/-- **Publish steps.** A publish leaves the store alone, or it succeeds and applies the modules
of the bundle, all of them accepted, one after another. -/
theorem publishStep_cases (σ : Store) (request : ModulePublish) :
    (¬ Succeeds v schedule σ request ∧ publishStep v schedule σ request = σ)
    ∨ (Succeeds v schedule σ request
      ∧ ∃ ps : List PublishedModule, ps.map PublishedModule.bytes = request.modules
        ∧ (∀ p ∈ ps, Accepted v σ request p)
        ∧ publishStep v schedule σ request = ps.foldl (publishOne v) σ) := by
  rcases publishModules_cases v schedule σ request with
    ⟨e, he⟩ | ⟨out, hout, hne, -⟩ | ⟨ps, hmap, hacc, hout⟩
  · -- an error, or a status other than success: nothing is applied
    left
    exact ⟨by simp [Succeeds, he], by simp [publishStep, he, Store.applyResult]⟩
  · left
    exact ⟨by simp [Succeeds, hout, hne], by simp [publishStep, hout, Store.applyResult, hne]⟩
  · right
    refine ⟨⟨_, hout, rfl⟩, ps, hmap, hacc, ?_⟩
    rw [publishStep, hout, ← applyChanges_bundleChanges]
    rfl

/-- Modules that are accepted one by one are the modules of a list that is. -/
theorem exists_accepted {σ : Store} {request : ModulePublish} {modules : List Bytes}
    (h : ∀ bytes ∈ modules, ∃ p, p.bytes = bytes ∧ Accepted v σ request p) :
    ∃ ps : List PublishedModule, ps.map PublishedModule.bytes = modules
      ∧ ∀ p ∈ ps, Accepted v σ request p := by
  induction modules with
  | nil => exact ⟨[], rfl, by simp⟩
  | cons bytes modules ih =>
    obtain ⟨⟨p, hp, hacc⟩, hrest⟩ := List.forall_mem_cons.mp h
    obtain ⟨ps, hps, hall⟩ := ih hrest
    exact ⟨p :: ps, by rw [List.map_cons, hp, hps], List.forall_mem_cons.mpr ⟨hacc, hall⟩⟩

/-- **Success.** The bundles that are published are those whose modules are all accepted. -/
theorem succeeds_iff {σ : Store} {request : ModulePublish} :
    Succeeds v schedule σ request ↔
      ∀ bytes ∈ request.modules, ∃ p, p.bytes = bytes ∧ Accepted v σ request p := by
  constructor
  · rintro ⟨out, hout, hsuccess⟩ bytes hbytes
    obtain ⟨ps, hmap, hacc, -⟩ := publishModules_success v schedule hout hsuccess
    rw [← hmap] at hbytes
    obtain ⟨p, hp, rfl⟩ := List.mem_map.mp hbytes
    exact ⟨p, rfl, hacc p hp⟩
  · intro h
    obtain ⟨ps, hmap, hacc⟩ := exists_accepted v h
    have hloop : publishLoop v schedule σ.view request request.modules = .ok ps :=
      publishLoop_eq_ok.mpr ⟨hmap, hacc⟩
    exact ⟨_, (publishModules_eq_ok v schedule σ.view).mpr (.inr ⟨ps, hloop, rfl⟩), rfl⟩

/-! ## The invariant of published stores -/

/-- What holds of a store that publishes have built: a module key holds a module of that very
name, and the legacy key holds one of the modules of the address, the one the stored metadata
describes. -/
structure WellKept (σ : Store) : Prop where
  ownKey : ∀ (id : ModuleId) b, σ (id.address, moduleCodeKey id.name.name) = some b →
    (∃ m, v.deserialize b = .ok m ∧ m.selfId = id) ∧ (σ (id.address, moduleCodeLegacyKey)).isSome
  legacy : ∀ a b, σ (a, moduleCodeLegacyKey) = some b →
    ∃ m metadata, v.deserialize b = .ok m ∧ m.selfId.address = a
      ∧ σ (a, moduleCodeKey m.selfId.name.name) = some b
      ∧ storedMetadata σ a = some metadata
      ∧ metadata.abiHash = computeModuleAbiHash v.blake3 m

/-- The store that a chain starts from. -/
theorem wellKept_empty : WellKept v KeyedStore.empty where
  ownKey := by simp [KeyedStore.empty]
  legacy := by simp [KeyedStore.empty]

variable {v schedule}

/-- The record of an address is that of the module that was stored last there. -/
theorem WellKept.recorded {σ : Store} (h : WellKept v σ) {a : AccountAddress} {b : Bytes}
    {metadata : PackageMetadata} (hb : σ (a, moduleCodeLegacyKey) = some b)
    (hmeta : storedMetadata σ a = some metadata) :
    ∃ old, v.deserialize b = .ok old
      ∧ metadata.abiHash = computeModuleAbiHash v.blake3 old := by
  obtain ⟨old, stored, hold, -, -, hstored, habi⟩ := h.legacy a b hb
  have hsame : stored = metadata := Option.some.inj (hstored.symm.trans hmeta)
  rw [hsame] at habi
  exact ⟨old, hold, habi⟩

theorem WellKept.publishOne {σ σ₀ : Store} {request : ModulePublish} {p : PublishedModule}
    (h : WellKept v σ) (hp : Accepted v σ₀ request p) : WellKept v (publishOne v σ p) where
  ownKey := by
    intro id b hb
    rw [publishOne_moduleCodeKey] at hb
    split_ifs at hb with hid
    · -- the key just written
      obtain rfl : p.bytes = b := by simpa using hb
      subst hid
      exact ⟨⟨p.compiled, hp.deserialize, rfl⟩, by rw [publishOne_legacyKey]; rfl⟩
    · -- any other key is as before, and its legacy key is there before and after
      obtain ⟨hm, hsome⟩ := h.ownKey id b hb
      refine ⟨hm, ?_⟩
      by_cases haddr : id.address = p.compiled.selfId.address
      · rw [haddr, publishOne_legacyKey]
        rfl
      · rw [publishOne_frame v σ p fun h => absurd h haddr]
        exact hsome
  legacy := by
    intro a b hb
    by_cases haddr : a = p.compiled.selfId.address
    · -- the published module is now what the legacy key holds and the metadata describes
      subst haddr
      rw [publishOne_legacyKey] at hb
      obtain rfl : p.bytes = b := by simpa using hb
      refine ⟨p.compiled, packageMetadata v request p.bytes p.compiled, hp.deserialize, rfl, ?_, ?_,
        rfl⟩
      · rw [publishOne_moduleCodeKey, if_pos rfl]
      · rw [storedMetadata, publishOne_metadataKey]
        exact decodeMetadata_encodeMetadata hp.metadata
    · have hframe : ∀ k, NexusMove.publishOne v σ p (a, k) = σ (a, k) := fun k =>
        publishOne_frame v σ p fun h => absurd h haddr
      rw [hframe] at hb
      obtain ⟨m, metadata, hd, ha, hown, hmeta, habi⟩ := h.legacy a b hb
      refine ⟨m, metadata, hd, ha, by rw [hframe, hown], ?_, habi⟩
      rw [storedMetadata, hframe]
      exact hmeta

/-- The last module of a bundle decides the metadata. -/
theorem storedMetadata_bundle (σ : Store) (ps : List PublishedModule) {σ₀ : Store}
    {request : ModulePublish} {p : PublishedModule} (hp : Accepted v σ₀ request p) :
    storedMetadata ((ps ++ [p]).foldl (NexusMove.publishOne v) σ) request.sender
      = some (packageMetadata v request p.bytes p.compiled) := by
  rw [List.foldl_append, List.foldl_cons, List.foldl_nil, ← hp.sender, storedMetadata,
    publishOne_metadataKey]
  exact decodeMetadata_encodeMetadata hp.metadata

/-- So it decides the legacy key, which holds its bytes. -/
theorem legacyKey_bundle (σ : Store) {σ₀ : Store} {request : ModulePublish}
    {ps : List PublishedModule} (hps : ∀ p ∈ ps, Accepted v σ₀ request p) (hne : ps ≠ []) :
    ps.foldl (NexusMove.publishOne v) σ (request.sender, moduleCodeLegacyKey)
      = (ps.map PublishedModule.bytes).getLast? := by
  obtain ⟨qs, p, rfl⟩ := (List.eq_nil_or_concat' ps).resolve_left hne
  have hsender := (hps p (by simp)).sender
  rw [List.foldl_append, List.foldl_cons, List.foldl_nil, ← hsender, publishOne_legacyKey]
  simp

/-- A bundle leaves the keys of every address but its sender's alone. -/
theorem bundle_other {σ σ₀ : Store} {request : ModulePublish} {ps : List PublishedModule}
    {a : AccountAddress} {k : Bytes} (hps : ∀ p ∈ ps, Accepted v σ₀ request p)
    (hsender : request.sender ≠ a) : ps.foldl (NexusMove.publishOne v) σ (a, k) = σ (a, k) := by
  apply bundle_frame
  intro p hp ha
  have hsame : request.sender = a := by rw [ha, (hps p hp).sender]
  exact absurd hsame hsender

/-- The writes of a whole bundle keep it, by one module after another. -/
theorem WellKept.bundle {σ σ₀ : Store} {request : ModulePublish} {ps : List PublishedModule}
    (h : WellKept v σ) (hps : ∀ p ∈ ps, Accepted v σ₀ request p) :
    WellKept v (ps.foldl (NexusMove.publishOne v) σ) := by
  refine bundle_keeps v σ ?_ h
  intro σ' hσ' p hp
  exact hσ'.publishOne (hps p hp)

theorem WellKept.publishStep {σ : Store} (h : WellKept v σ) (request : ModulePublish) :
    WellKept v (publishStep v schedule σ request) := by
  rcases publishStep_cases v schedule σ request with ⟨-, heq⟩ | ⟨-, ps, -, hacc, heq⟩
  · rw [heq]
    exact h
  · rw [heq]
    exact h.bundle hacc

abbrev PublishReachable (v : Vendor) (schedule : GasSchedule) (σ : Store) : Prop :=
  Run.Reachable (NexusMove.publishStep v schedule) KeyedStore.empty σ

/-- **Published stores are well kept.** -/
theorem wellKept_of_reachable {σ : Store} (h : PublishReachable v schedule σ) : WellKept v σ :=
  h.invariant (wellKept_empty v) fun _ request hσ => hσ.publishStep request

end Steps

end NexusMove
