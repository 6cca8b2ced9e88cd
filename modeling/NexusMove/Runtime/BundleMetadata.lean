import NexusMove.Package.Build
import NexusMove.Runtime.Upgrade

/-!
# The metadata of a bundle

The build tool records a package as a whole: an entry for each module, and the hash of all
of them. The chain makes a record for each module of a bundle and writes them all to one
key, so what is left describes the last module.

* `describesBundle_iff` — the stored record is the one of the build tool exactly for
  bundles of one module.
* `metadata_forgets_module` — a bundle of two modules whose record has one.
-/

namespace NexusMove

open Package (CompiledPackage buildPackageMetadata)

section Record

variable (v : Vendor) (schedule : GasSchedule)

/-- The package has the modules of the bundle, under the names these have themselves. -/
def PackageOf (modules : List Bytes) (package : CompiledPackage) : Prop :=
  List.Forall₂ (fun bytes (c : Package.CompiledModule) => c.bytes = bytes
    ∧ ∃ m, v.deserialize bytes = .ok m ∧ m.selfId.name.name = c.name) modules package.modules

/-- After a successful publish of some modules, the stored metadata has the name and the hash of
each of them, in order, and the hash of all of them together; in both it agrees with what the build
tool says of the package. -/
def DescribesBundle (σ : Store) (request : ModulePublish) : Prop :=
  Succeeds v schedule σ request → request.modules ≠ [] → ∀ package, PackageOf v request.modules package →
    ∃ metadata, storedMetadata (publishStep v schedule σ request) request.sender = some metadata
      ∧ metadata.moduleHashes = package.modules.map (fun c => (c.name, v.blake3 c.bytes))
      ∧ metadata.packageHash = v.blake3 request.modules.flatten
      ∧ ∀ deployer, metadata.moduleHashes = (buildPackageMetadata v.blake3 package deployer).moduleHashes
          ∧ metadata.packageHash = (buildPackageMetadata v.blake3 package deployer).packageHash

variable {v schedule} {σ : Store} {request : ModulePublish} {modules : List Bytes}
  {package : CompiledPackage}

theorem PackageOf.flatMap_bytes (h : PackageOf v modules package) :
    package.modules.flatMap Package.CompiledModule.bytes = modules.flatten := by
  unfold PackageOf at h
  generalize package.modules = compiled at h
  induction h with
  | nil => rfl
  | cons hc _ ih => rw [List.flatMap_cons, List.flatten_cons, ih, hc.1]

/-- The modules that are accepted make up such a package. -/
theorem packageOf_accepted {ps : List PublishedModule} (hacc : ∀ p ∈ ps, Accepted v σ request p) :
    PackageOf v (ps.map PublishedModule.bytes)
      { packageName := "", upgradePolicy := .immutable, namedAddresses := []
        modules := ps.map fun p => { name := p.compiled.selfId.name.name, bytes := p.bytes } } := by
  unfold PackageOf
  rw [List.forall₂_map_left_iff, List.forall₂_map_right_iff, List.forall₂_same]
  exact fun p hp => ⟨rfl, p.compiled, (hacc p hp).deserialize, rfl⟩

/-- A package of one accepted module has that module. -/
theorem PackageOf.modules_eq {p : PublishedModule} (h : PackageOf v [p.bytes] package)
    (hp : Accepted v σ request p) :
    package.modules = [{ name := p.compiled.selfId.name.name, bytes := p.bytes }] := by
  obtain ⟨⟨name, bytes⟩, rest, ⟨hbytes, m, hm, hname⟩, hrest, hmodules⟩ :=
    List.forall₂_cons_left_iff.mp h
  obtain rfl := hp.compiled_eq hm
  obtain rfl : rest = [] := List.forall₂_nil_left_iff.mp hrest
  obtain rfl : bytes = p.bytes := hbytes
  rw [hmodules, hname]

end Record

/-- **The metadata of a bundle.** The stored record describes the bundle if and only if the bundle
has no more than one module, or is refused. -/
theorem describesBundle_iff (v : Vendor) (schedule : GasSchedule) (σ : Store)
    (request : ModulePublish) :
    DescribesBundle v schedule σ request ↔
      ((∀ bytes ∈ request.modules, ∃ p, p.bytes = bytes ∧ Accepted v σ request p) →
        request.modules.length ≤ 1) := by
  rw [← succeeds_iff v schedule]
  rcases publishStep_cases v schedule σ request with ⟨hfail, -⟩ | ⟨hsucc, ps, hmap, hacc, heq⟩
  · exact ⟨fun _ h => absurd h hfail, fun _ h => absurd h hfail⟩
  · rcases List.eq_nil_or_concat' ps with rfl | ⟨qs, p, rfl⟩
    · -- a bundle without modules has no record to describe it
      have hnil : request.modules = [] := by rw [← hmap, List.map_nil]
      exact ⟨fun _ _ => by simp [hnil], fun _ _ hne => absurd hnil hne⟩
    · have hmeta := storedMetadata_bundle σ qs (hacc p (by simp))
      rw [← heq] at hmeta
      constructor
      · intro h _
        have hne : request.modules ≠ [] := by
          rw [← hmap]
          simp
        obtain ⟨metadata, hmeta', hhashes, -⟩ := h hsucc hne _ (hmap ▸ packageOf_accepted hacc)
        obtain rfl := Option.some.inj (hmeta'.symm.trans hmeta)
        -- the record has one entry, and the package has one for each module
        have hcount := congrArg List.length hhashes
        have hlength : request.modules.length = (qs ++ [p]).length := by
          rw [← hmap, List.length_map]
        simp only [packageMetadata, List.length_map, List.length_singleton] at hcount
        omega
      · intro hone _ _ package hpackage
        have hlength : request.modules.length = qs.length + 1 := by simp [← hmap]
        have hle := hone hsucc
        obtain rfl : qs = [] := List.length_eq_zero_iff.mp (by omega)
        have hsingle : request.modules = [p.bytes] := hmap.symm
        rw [hsingle] at hpackage
        have hmodules := hpackage.modules_eq (hacc p (by simp))
        have hflat : request.modules.flatten = p.bytes := by simp [hsingle]
        refine ⟨_, hmeta, ?_, by rw [hflat]; rfl, fun deployer => ⟨?_, ?_⟩⟩
        · rw [hmodules]
          rfl
        · rw [buildPackageMetadata, hmodules]
          rfl
        · rw [buildPackageMetadata, hpackage.flatMap_bytes, ← hsingle, hflat]
          rfl

/-- The record of the bundle `[a, b]` has an entry for `b` and none for `a`. -/
theorem metadata_forgets_module :
    ¬ DescribesBundle upgradeVendor sampleSchedule KeyedStore.empty publishAB := by
  intro h
  have hsucc : Succeeds upgradeVendor sampleSchedule KeyedStore.empty publishAB := by decide +kernel
  have hpackage : PackageOf upgradeVendor publishAB.modules
      { packageName := "ab", upgradePolicy := .compatible, namedAddresses := []
        modules := [⟨"a", sampleABytes⟩, ⟨"b", sampleBBytes⟩] } :=
    .cons ⟨rfl, sampleA, deserialize_upgradeVendor_sampleA, rfl⟩
      (.cons ⟨rfl, sampleB, deserialize_upgradeVendor_sampleB, rfl⟩ .nil)
  obtain ⟨metadata, hmeta, hhashes, -⟩ := h hsucc (by simp [publishAB]) _ hpackage
  have hcount : (storedMetadata (publishStep upgradeVendor sampleSchedule KeyedStore.empty publishAB)
      publishAB.sender).map (fun metadata => metadata.moduleHashes.length) = some 1 := by
    decide +kernel
  rw [hmeta, Option.map_some, hhashes] at hcount
  exact absurd hcount (by decide)

end NexusMove
