import NexusMove.Runtime.Lookup

/-!
# Upgrades and the recorded ABI hash

An upgrade is checked against the ABI hash in the address's metadata. There is
one such record for the whole address, written by the module published last,
while every module has a key of its own. The check keeps the interface of a
stored module exactly when the record happens to be the hash of that module.

* `RecordCovers` — the record is the hash of each module a request replaces.
* `upgrades_keep_abi_iff` — replaced modules keep their ABI hash in a run if
  and only if the record covers every request of the run that is accepted.
-/

namespace NexusMove

section Upgrade

variable (v : Vendor) (schedule : GasSchedule)

/-- The ABI hash recorded for the sender is that of every stored module which a module of the
request would replace. -/
def RecordCovers (σ : Store) (request : ModulePublish) : Prop :=
  ∀ bytes ∈ request.modules, ∀ m, v.deserialize bytes = .ok m →
    ∀ b old, σ (request.sender, moduleCodeKey m.selfId.name.name) = some b →
      v.deserialize b = .ok old →
      ∀ metadata, storedMetadata σ request.sender = some metadata →
        metadata.abiHash = computeModuleAbiHash v.blake3 old

/-- The record covers a request whose modules are all accepted. -/
def CoversAccepted (σ : Store) (request : ModulePublish) : Prop :=
  (∀ bytes ∈ request.modules, ∃ p, p.bytes = bytes ∧ Accepted v σ request p) →
    RecordCovers v σ request

def SameAbi (b b' : Bytes) : Prop :=
  ∃ m m', v.deserialize b = .ok m ∧ v.deserialize b' = .ok m'
    ∧ computeModuleAbiHash v.blake3 m' = computeModuleAbiHash v.blake3 m

/-- Through every part of the run, each module key keeps the ABI hash of its module: whatever is
stored under a name before the part has the ABI hash of what is stored there after it. -/
def UpgradesKeepAbi (requests : List ModulePublish) : Prop :=
  ∀ before part after, requests = before ++ part ++ after → ∀ (id : ModuleId) b b',
    afterPublishes v schedule before (id.address, moduleCodeKey id.name.name) = some b →
    afterPublishes v schedule (before ++ part) (id.address, moduleCodeKey id.name.name) = some b' →
    SameAbi v b b'

variable {v schedule} {σ : Store} {request : ModulePublish}

theorem Accepted.abiHash_eq {p : PublishedModule} (hp : Accepted v σ request p)
    (hkept : WellKept v σ) (hblake3 : ∀ bs, v.blake3 bs ≠ .zero 32)
    (hsome : (σ (request.sender, moduleCodeLegacyKey)).isSome) :
    ∃ metadata, storedMetadata σ request.sender = some metadata
      ∧ metadata.abiHash = computeModuleAbiHash v.blake3 p.compiled := by
  obtain ⟨metadata, hmeta, -, habi⟩ := hp.policy hsome
  refine ⟨metadata, hmeta, habi.resolve_left ?_⟩
  -- the recorded hash is a hash, so it is not the zero of a record without one
  obtain ⟨b, hb⟩ := Option.isSome_iff_exists.mp hsome
  obtain ⟨old, -, hold⟩ := hkept.recorded hb hmeta
  rw [hold]
  exact hblake3 _

/-- **One step.** A covered request leaves every module key with its ABI hash. -/
theorem sameAbi_publishStep (hkept : WellKept v σ) (hblake3 : ∀ bs, v.blake3 bs ≠ .zero 32)
    (hcovers : CoversAccepted v σ request) {id : ModuleId} {b : Bytes}
    (hb : σ (id.address, moduleCodeKey id.name.name) = some b) :
    ∃ b', publishStep v schedule σ request (id.address, moduleCodeKey id.name.name) = some b'
      ∧ SameAbi v b b' := by
  obtain ⟨⟨old, hold, hself⟩, hsome⟩ := hkept.ownKey id b hb
  have hrefl : SameAbi v b b := ⟨old, old, hold, hold, rfl⟩
  rcases publishStep_cases v schedule σ request with ⟨-, heq⟩ | ⟨hsucc, ps, hmap, hacc, heq⟩
  · exact ⟨b, by rw [heq, hb], hrefl⟩
  · rw [heq, bundle_moduleCodeKey]
    cases hlast : lastNamed ps id with
    | none => exact ⟨b, by rw [Option.none_or, hb], hrefl⟩
    | some b' =>
      -- replaced: the record is the hash of the old module by cover, of the new one by the check
      obtain ⟨p, hp, rfl, rfl⟩ := exists_of_lastNamed hlast
      refine ⟨p.bytes, Option.some_or, old, p.compiled, hold, (hacc p hp).deserialize, ?_⟩
      have hsender := (hacc p hp).sender
      rw [hsender] at hb hsome
      obtain ⟨metadata, hmeta, habi⟩ := (hacc p hp).abiHash_eq hkept hblake3 hsome
      have hmem : p.bytes ∈ request.modules := hmap ▸ List.mem_map_of_mem hp
      rw [← habi]
      have hall := (succeeds_iff v schedule).mp hsucc
      exact hcovers hall p.bytes hmem p.compiled (hacc p hp).deserialize b old hb hold metadata
        hmeta

theorem SameAbi.trans {a b c : Bytes} (h : SameAbi v a b) (h' : SameAbi v b c) :
    SameAbi v a c := by
  obtain ⟨m, m', hm, hm', heq⟩ := h
  obtain ⟨n, n', hn, hn', heq'⟩ := h'
  obtain rfl : m' = n := Except.ok.inj (hm'.symm.trans hn)
  exact ⟨m, n', hm, hn', heq'.trans heq⟩

/-- **A run.** Covered requests leave every module key with its ABI hash. -/
theorem sameAbi_run (hkept : WellKept v σ) (hblake3 : ∀ bs, v.blake3 bs ≠ .zero 32)
    {requests : List ModulePublish}
    (hcovers : Run.EveryStep (publishStep v schedule) (CoversAccepted v) σ requests)
    {id : ModuleId} {b : Bytes} (hb : σ (id.address, moduleCodeKey id.name.name) = some b) :
    ∃ b', Run.exec (publishStep v schedule) σ requests (id.address, moduleCodeKey id.name.name)
        = some b' ∧ SameAbi v b b' := by
  induction requests generalizing σ b with
  | nil =>
    obtain ⟨⟨m, hm, -⟩, -⟩ := hkept.ownKey id b hb
    exact ⟨b, hb, m, m, hm, hm, rfl⟩
  | cons request requests ih =>
    obtain ⟨b₁, hb₁, hsame⟩ := sameAbi_publishStep hkept hblake3 hcovers.1 hb
    obtain ⟨b₂, hb₂, hsame'⟩ := ih (hkept.publishStep request) hcovers.2 hb₁
    exact ⟨b₂, hb₂, hsame.trans hsame'⟩

theorem recordCovers_of_sameAbi (hkept : WellKept v σ) (hblake3 : ∀ bs, v.blake3 bs ≠ .zero 32)
    (hsucc : Succeeds v schedule σ request)
    (hsame : ∀ (id : ModuleId) b b', σ (id.address, moduleCodeKey id.name.name) = some b →
      publishStep v schedule σ request (id.address, moduleCodeKey id.name.name) = some b' →
      SameAbi v b b') : RecordCovers v σ request := by
  rcases publishStep_cases v schedule σ request with ⟨hfail, -⟩ | ⟨-, ps, hmap, hacc, heq⟩
  · exact absurd hsucc hfail
  · intro bytes hbytes m hm b old hb hold metadata hmeta
    rw [← hmap] at hbytes
    obtain ⟨p, hp, rfl⟩ := List.mem_map.mp hbytes
    obtain rfl := (hacc p hp).compiled_eq hm
    have hsender := (hacc p hp).sender
    rw [← hsender] at hb hmeta
    -- the key ends up with the last module of the name, which has the recorded hash too
    cases hlast : lastNamed ps p.compiled.selfId with
    | none => exact absurd rfl (lastNamed_eq_none_iff.mp hlast p hp)
    | some b' =>
      obtain ⟨q, hq, hid, rfl⟩ := exists_of_lastNamed hlast
      obtain ⟨old', new, hold', hnew, habi⟩ := hsame p.compiled.selfId b q.bytes hb (by
        rw [heq, bundle_moduleCodeKey, hlast, Option.some_or])
      obtain rfl : old' = old := Except.ok.inj (hold'.symm.trans hold)
      obtain rfl := (hacc q hq).compiled_eq hnew
      have hsome := (hkept.ownKey p.compiled.selfId b hb).2
      rw [hsender] at hsome hmeta
      obtain ⟨metadata', hmeta', habi'⟩ := (hacc q hq).abiHash_eq hkept hblake3 hsome
      obtain rfl : metadata' = metadata := Option.some.inj (hmeta'.symm.trans hmeta)
      rw [habi', habi]

/-- **When upgrades keep the interface.** For a hash function that never returns zero: the
replaced modules of a run keep their ABI hash if and only if, at every request whose modules are
all accepted, the record of the sender is the ABI hash of each module the request replaces. -/
theorem upgrades_keep_abi_iff (v : Vendor) (schedule : GasSchedule)
    (hblake3 : ∀ bs, v.blake3 bs ≠ .zero 32) (requests : List ModulePublish) :
    UpgradesKeepAbi v schedule requests ↔
      Run.EveryStep (publishStep v schedule) (CoversAccepted v) KeyedStore.empty requests := by
  rw [Run.everyStep_iff]
  constructor
  · -- a part of one request shows that its record covers it
    intro h before request after hsplit hall
    have hsucc : Succeeds v schedule (afterPublishes v schedule before) request :=
      (succeeds_iff v schedule).mpr hall
    have hkept := wellKept_afterPublishes v schedule before
    refine recordCovers_of_sameAbi hkept hblake3 hsucc fun id b b' hb hb' => ?_
    refine h before [request] after (by simpa using hsplit) id b b' hb ?_
    rw [afterPublishes, Run.exec_append]
    exact hb'
  · -- the covered steps of the part keep the hash, from the store the run has reached before it
    intro h before part after hsplit id b b' hb hb'
    have hkept := wellKept_afterPublishes v schedule before
    have hpart : Run.EveryStep (publishStep v schedule) (CoversAccepted v)
        (afterPublishes v schedule before) part := by
      rw [Run.everyStep_iff]
      intro pre request post hpre
      rw [afterPublishes, ← Run.exec_append]
      exact h (before ++ pre) request (post ++ after) (by simp [hsplit, hpre])
    obtain ⟨b₁, hb₁, hsame⟩ := sameAbi_run hkept hblake3 hpart hb
    rw [afterPublishes, ← Run.exec_append] at hb₁
    rw [afterPublishes] at hb'
    rw [hb₁] at hb'
    obtain rfl : b₁ = b' := Option.some.inj hb'
    exact hsame

end Upgrade

/-! ## An upgrade that drops a function

`sampleA2` is `0xCAFE::a` without its function, and `sampleA3` is `0xCAFE::a` with a private
function `g` besides. The bundle `[a, b]` leaves the record of `b` at the address, so the upgrade of `a` is checked against
the interface of `b`. -/

def sampleA2 : CompiledModule := { sampleB with identifiers := [⟨"a"⟩] }

def sampleA2Bytes : Bytes :=
  [161, 28, 235, 11, 6, 0, 0, 0, 3, 1, 0, 2, 7, 2, 2, 8, 4, 32, 0, 0, 1, 97, 0, 0, 0, 0, 0, 0,
   0, 0, 0, 0, 0, 0, 0, 0, 0, 0, 0, 0, 0, 0, 0, 0, 0, 0, 0, 0, 0, 0, 0, 0, 202, 254, 0]

def sampleA3 : CompiledModule := { sampleA with
  functionHandles :=
    [ { module := 0, name := 1, parameters := 0, returns := 0, typeParameters := [] },
      { module := 0, name := 2, parameters := 0, returns := 0, typeParameters := [] } ]
  identifiers := [⟨"a"⟩, ⟨"f"⟩, ⟨"g"⟩]
  functionDefs :=
    [ { function := 0, visibility := .pub, isEntry := false },
      { function := 1, visibility := .priv, isEntry := false } ]
  otherTables := [0, 1, 2, 0, 1, 2] }

def sampleA3Bytes : Bytes :=
  [161, 28, 235, 11, 6, 0, 0, 0, 6, 1, 0, 2, 3, 2, 10, 5, 12, 1, 7, 13, 6, 8, 19, 32, 12, 51,
   14, 0, 0, 0, 1, 0, 0, 0, 0, 2, 0, 0, 0, 0, 1, 97, 1, 102, 1, 103, 0, 0, 0, 0, 0, 0, 0, 0, 0,
   0, 0, 0, 0, 0, 0, 0, 0, 0, 0, 0, 0, 0, 0, 0, 0, 0, 0, 0, 0, 0, 202, 254, 0, 1, 0, 0, 0, 1, 2,
   1, 0, 0, 0, 0, 1, 2, 0]

def upgradeVendor : Vendor :=
  .ofTables
    [ (sampleABytes, sampleA), (sampleBBytes, sampleB), (sampleA2Bytes, sampleA2),
      (sampleA3Bytes, sampleA3) ]
    ([ (sampleA3Bytes,
        ⟨[244, 156, 53, 151, 104, 141, 3, 212, 215, 235, 60, 158, 222, 169, 129, 141, 212, 7, 103, 5,
          183, 203, 15, 248, 113, 119, 130, 41, 102, 74, 150, 253], rfl⟩),
      (sampleA2Bytes,
        ⟨[12, 37, 78, 158, 133, 188, 116, 161, 105, 109, 154, 88, 49, 130, 167, 234, 65, 90, 102,
     146, 163, 156, 103, 165, 217, 207, 189, 40, 85, 200, 235, 65], rfl⟩) ] ++ sampleDigests)
    []

def upgradeA : ModulePublish where
  sender := sampleAddress
  modules := [sampleA2Bytes]
  gasLimit := 1000000
  upgradePolicy := some .compatible

def publishOnlyA : ModulePublish := { publishA with upgradePolicy := some .compatible }

def addG : ModulePublish := { upgradeA with modules := [sampleA3Bytes] }

theorem deserialize_upgradeVendor_sampleA :
    upgradeVendor.deserialize sampleABytes = .ok sampleA := by
  simp [upgradeVendor, Vendor.ofTables]

theorem deserialize_upgradeVendor_sampleB :
    upgradeVendor.deserialize sampleBBytes = .ok sampleB := by
  simp [upgradeVendor, Vendor.ofTables, sampleABytes, sampleBBytes]

theorem deserialize_sampleA2 : upgradeVendor.deserialize sampleA2Bytes = .ok sampleA2 := by
  simp [upgradeVendor, Vendor.ofTables, sampleABytes, sampleBBytes, sampleA2Bytes]

/-- None of the listed digests is zero, and neither is the one every other input gets. -/
theorem upgradeVendor_blake3_ne_zero (bs : Bytes) : upgradeVendor.blake3 bs ≠ .zero 32 := by
  refine Vendor.ofTables_blake3_ne_zero (fun d hd => ?_) bs
  revert d
  decide +kernel

theorem deserialize_sampleA3 : upgradeVendor.deserialize sampleA3Bytes = .ok sampleA3 := by
  simp [upgradeVendor, Vendor.ofTables, sampleABytes, sampleBBytes, sampleA2Bytes, sampleA3Bytes]

/-- The upgrade that adds a private function is accepted and replaces `a`, whose interface stays:
the record of `a`, the only module at the address, covers it. -/
theorem upgrades_keep_abi_iff_addG :
    Succeeds upgradeVendor sampleSchedule
      (afterPublishes upgradeVendor sampleSchedule [publishOnlyA]) addG
    ∧ UpgradesKeepAbi upgradeVendor sampleSchedule [publishOnlyA, addG] := by
  refine ⟨by decide +kernel, (upgrades_keep_abi_iff upgradeVendor sampleSchedule
    upgradeVendor_blake3_ne_zero [publishOnlyA, addG]).mpr ⟨fun _ => ?_, fun _ => ?_, trivial⟩⟩
  · -- the first publish replaces nothing
    intro bytes _ m _ b old hb
    simp [KeyedStore.empty] at hb
  · intro bytes hbytes m hm b old hb hold metadata hmeta
    obtain rfl : bytes = sampleA3Bytes := List.mem_singleton.mp hbytes
    obtain rfl := Except.ok.inj (deserialize_sampleA3.symm.trans hm)
    have hstored : publishStep upgradeVendor sampleSchedule KeyedStore.empty publishOnlyA
        (addG.sender, moduleCodeKey sampleA3.selfId.name.name) = some sampleABytes := by
      decide +kernel
    obtain rfl := Option.some.inj (hstored.symm.trans hb)
    obtain rfl := Except.ok.inj (deserialize_upgradeVendor_sampleA.symm.trans hold)
    have hrecord : (storedMetadata (publishStep upgradeVendor sampleSchedule KeyedStore.empty
        publishOnlyA) addG.sender).map PackageMetadata.abiHash
          = some (computeModuleAbiHash upgradeVendor.blake3 sampleA) := by
      decide +kernel
    rw [hmeta, Option.map_some] at hrecord
    exact Option.some.inj hrecord

/-- The upgrade of `a` is accepted, and the module stored under `code::a` loses its function. -/
theorem upgrade_drops_function :
    ¬ UpgradesKeepAbi upgradeVendor sampleSchedule [publishAB, upgradeA] := by
  intro h
  obtain ⟨m, m', hm, hm', habi⟩ := h [publishAB] [upgradeA] [] rfl ⟨sampleAddress, ⟨"a"⟩⟩
    sampleABytes sampleA2Bytes (by decide +kernel) (by decide +kernel)
  obtain rfl : sampleA = m := Except.ok.inj (deserialize_upgradeVendor_sampleA.symm.trans hm)
  obtain rfl : sampleA2 = m' := Except.ok.inj (deserialize_sampleA2.symm.trans hm')
  exact absurd habi (by decide +kernel)

end NexusMove
