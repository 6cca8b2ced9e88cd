import NexusMove.Runtime.Registry

/-!
# Looking modules up by name

`fetch_module_bytes` against the registry that publishes build. The lookup serves
the embedded framework first, then the key of the name, then the legacy key,
which holds the module published last at the address. So what is found under a
name of its own is that module, and what is found by the fallback is not.

* `fetch_after_publish` — what a successful publish makes of every lookup.
* `fetch_reachable` — the three answers a lookup gives in a published store.
-/

namespace NexusMove

/-! ## Which names have been published -/

section History

variable (v : Vendor) (schedule : GasSchedule)

/-- The request succeeds on the store and has a module with the id. -/
def Publishes (id : ModuleId) (σ : Store) (request : ModulePublish) : Prop :=
  Succeeds v schedule σ request ∧
    ∃ bytes ∈ request.modules, ∃ m, v.deserialize bytes = .ok m ∧ m.selfId = id

/-- A module called `id` was published by some request of the run. -/
def PublishedIn (requests : List ModulePublish) (id : ModuleId) : Prop :=
  Run.SomeStep (publishStep v schedule) (Publishes v schedule id) KeyedStore.empty requests

def afterPublishes (requests : List ModulePublish) : Store :=
  Run.exec (publishStep v schedule) KeyedStore.empty requests

/-- The request publishes something at the address. -/
def PublishesAt (a : AccountAddress) (σ : Store) (request : ModulePublish) : Prop :=
  Succeeds v schedule σ request ∧ request.sender = a ∧ request.modules ≠ []

/-- The bytes of the last module of the last request of the run that published something at the
address. -/
def PublishedLast (requests : List ModulePublish) (a : AccountAddress) (b : Bytes) : Prop :=
  ∃ σ request, Run.LastStep (publishStep v schedule) (PublishesAt v schedule a) KeyedStore.empty
      requests σ request ∧ request.modules.getLast? = some b

variable {v schedule}

/-- Some accepted module has the id, exactly if some binary of the bundle reads as one with it. -/
theorem lastNamed_isSome_iff {σ : Store} {request : ModulePublish} {ps : List PublishedModule}
    (hacc : ∀ p ∈ ps, Accepted v σ request p) (id : ModuleId) :
    (lastNamed ps id).isSome = true ↔
      ∃ bytes ∈ ps.map PublishedModule.bytes, ∃ m, v.deserialize bytes = .ok m ∧ m.selfId = id := by
  constructor
  · intro h
    obtain ⟨b, hb⟩ := Option.isSome_iff_exists.mp h
    obtain ⟨p, hp, hid, rfl⟩ := exists_of_lastNamed hb
    exact ⟨p.bytes, List.mem_map_of_mem hp, p.compiled, (hacc p hp).deserialize, hid⟩
  · rintro ⟨bytes, hbytes, m, hm, hid⟩
    obtain ⟨p, hp, rfl⟩ := List.mem_map.mp hbytes
    -- reading the bytes again gives the module the loop had
    have hcompiled : p.compiled = m := (hacc p hp).compiled_eq hm
    by_contra hnone
    have hnone : lastNamed ps id = none := by simpa using hnone
    exact lastNamed_eq_none_iff.mp hnone p hp (by rw [hcompiled, hid])

/-- A key is there after a request if it was there, or if the request publishes the module. -/
theorem isSome_publishStep_iff (σ : Store) (request : ModulePublish) (id : ModuleId) :
    (publishStep v schedule σ request (id.address, moduleCodeKey id.name.name)).isSome = true ↔
      (σ (id.address, moduleCodeKey id.name.name)).isSome = true
        ∨ Publishes v schedule id σ request := by
  rcases publishStep_cases v schedule σ request with ⟨hfail, heq⟩ | ⟨hsucc, ps, hmap, hacc, heq⟩
  · simp [heq, Publishes, hfail]
  · rw [heq, bundle_moduleCodeKey, Publishes, ← hmap, ← lastNamed_isSome_iff hacc id]
    cases lastNamed ps id with
    | some b => simp [hsucc]
    | none => simp

/-- **A name has a key exactly if it was published.** -/
theorem isSome_moduleCodeKey_iff (requests : List ModulePublish) (id : ModuleId) :
    (afterPublishes v schedule requests (id.address, moduleCodeKey id.name.name)).isSome = true ↔
      PublishedIn v schedule requests id := by
  unfold afterPublishes PublishedIn
  rw [Run.history (fun σ : Store => (σ (id.address, moduleCodeKey id.name.name)).isSome = true)
    (fun σ request => isSome_publishStep_iff σ request id)]
  simp [KeyedStore.empty]

variable (v schedule) in
theorem wellKept_afterPublishes (requests : List ModulePublish) :
    WellKept v (afterPublishes v schedule requests) :=
  wellKept_of_reachable ⟨requests, rfl⟩

/-- **An address has a legacy key exactly if something was published there.** -/
theorem isSome_legacyKey_iff (requests : List ModulePublish) (a : AccountAddress) :
    (afterPublishes v schedule requests (a, moduleCodeLegacyKey)).isSome = true ↔
      ∃ n, PublishedIn v schedule requests ⟨a, n⟩ := by
  have hkept := wellKept_afterPublishes v schedule requests
  constructor
  · intro h
    -- the legacy key holds a module that has its own key as well
    obtain ⟨b, hb⟩ := Option.isSome_iff_exists.mp h
    obtain ⟨m, -, -, -, hown, -, -⟩ := hkept.legacy a b hb
    exact ⟨m.selfId.name,
      (isSome_moduleCodeKey_iff requests ⟨a, m.selfId.name⟩).mp (by rw [hown]; rfl)⟩
  · rintro ⟨n, hn⟩
    -- the invariant gives every module with its own key the legacy key of its address
    obtain ⟨b, hb⟩ :=
      Option.isSome_iff_exists.mp ((isSome_moduleCodeKey_iff requests ⟨a, n⟩).mpr hn)
    exact (hkept.ownKey ⟨a, n⟩ b hb).2

/-- A request that publishes something at an address leaves its last module under the legacy key. -/
theorem publishStep_legacyKey {a : AccountAddress} {σ : Store} {request : ModulePublish}
    (h : PublishesAt v schedule a σ request) :
    publishStep v schedule σ request (a, moduleCodeLegacyKey) = request.modules.getLast? := by
  obtain ⟨hsucc, rfl, hne⟩ := h
  rcases publishStep_cases v schedule σ request with ⟨hfail, -⟩ | ⟨-, ps, hmap, hacc, heq⟩
  · exact absurd hsucc hfail
  · rw [heq, ← hmap]
    refine legacyKey_bundle σ hacc ?_
    rintro rfl
    exact hne hmap.symm

/-- Every other request leaves the legacy key of the address alone. -/
theorem publishStep_legacyKey_of_not {a : AccountAddress} {σ : Store} {request : ModulePublish}
    (h : ¬ PublishesAt v schedule a σ request) :
    publishStep v schedule σ request (a, moduleCodeLegacyKey) = σ (a, moduleCodeLegacyKey) := by
  rcases publishStep_cases v schedule σ request with ⟨-, heq⟩ | ⟨hsucc, ps, hmap, hacc, heq⟩
  · rw [heq]
  · rw [heq]
    by_cases hsender : request.sender = a
    · -- a success of the sender that does not publish has no module
      have hnil : request.modules = [] := by
        by_contra hne
        exact h ⟨hsucc, hsender, hne⟩
      obtain rfl : ps = [] := List.map_eq_nil_iff.mp (hmap.trans hnil)
      rfl
    · -- the modules of a bundle are all at the address of its sender
      exact bundle_other hacc hsender

/-- **What the legacy key holds.** The last module of the last request that published something at
the address. -/
theorem publishedLast_of_legacyKey {requests : List ModulePublish} {a : AccountAddress} {b : Bytes}
    (h : afterPublishes v schedule requests (a, moduleCodeLegacyKey) = some b) :
    PublishedLast v schedule requests a b := by
  rcases Run.lastStep_or_none (fun σ : Store => σ (a, moduleCodeLegacyKey))
      (fun request : ModulePublish => request.modules.getLast?)
      (fun _ _ => publishStep_legacyKey (v := v))
      (fun _ _ => publishStep_legacyKey_of_not) KeyedStore.empty requests with
    ⟨σ, request, hlast, heq⟩ | ⟨-, heq⟩
  · exact ⟨σ, request, hlast, heq.symm.trans h⟩
  · -- nothing was ever published there, and the empty store has no keys
    cases heq.symm.trans h

end History

/-! ## Three small modules

`sampleA` is `module 0xCAFE::a` with one public function `f`; `sampleBcs` is an empty module
called `0x1::bcs`, as a framework module is, and `sampleB` is one called `0xCAFE::b`. Their
binaries are in format version 6. -/

def sampleAddress : AccountAddress := .ofTail [0xCA, 0xFE] (by decide)

def otherAddress : AccountAddress := .ofTail [0xBE, 0xEF] (by decide)

def sampleSchedule : GasSchedule := .fromConfig .forTesting

def sampleA : CompiledModule where
  selfModuleHandleIdx := 0
  moduleHandles := [{ address := 0, name := 0 }]
  structHandles := []
  functionHandles := [{ module := 0, name := 1, parameters := 0, returns := 0, typeParameters := [] }]
  signatures := [[]]
  identifiers := [⟨"a"⟩, ⟨"f"⟩]
  addressIdentifiers := [sampleAddress]
  structDefs := []
  functionDefs := [{ function := 0, visibility := .pub, isEntry := false }]
  otherTables := [0, 1, 2]

def sampleABytes : Bytes :=
  [161, 28, 235, 11, 6, 0, 0, 0, 6, 1, 0, 2, 3, 2, 5, 5, 7, 1, 7, 8, 4, 8, 12, 32, 12, 44, 7, 0,
   0, 0, 1, 0, 0, 0, 0, 1, 97, 1, 102, 0, 0, 0, 0, 0, 0, 0, 0, 0, 0, 0, 0, 0, 0, 0, 0, 0, 0, 0,
   0, 0, 0, 0, 0, 0, 0, 0, 0, 0, 0, 202, 254, 0, 1, 0, 0, 0, 1, 2, 0]

def sampleBcs : CompiledModule where
  selfModuleHandleIdx := 0
  moduleHandles := [{ address := 0, name := 0 }]
  structHandles := []
  functionHandles := []
  signatures := []
  identifiers := [⟨"bcs"⟩]
  addressIdentifiers := [frameworkAddress]
  structDefs := []
  functionDefs := []
  otherTables := []

def sampleBcsBytes : Bytes :=
  [161, 28, 235, 11, 6, 0, 0, 0, 3, 1, 0, 2, 7, 2, 4, 8, 6, 32, 0, 0, 3, 98, 99, 115, 0, 0, 0,
   0, 0, 0, 0, 0, 0, 0, 0, 0, 0, 0, 0, 0, 0, 0, 0, 0, 0, 0, 0, 0, 0, 0, 0, 0, 0, 0, 0, 1, 0]

/-- The embedded `bcs`, with its native function. -/
def frameworkBcsBytes : Bytes :=
  [161, 28, 235, 11, 7, 0, 0, 10, 7, 1, 0, 2, 3, 2, 7, 5, 9, 7, 7, 16, 13, 8, 29, 32, 16, 61,
   31, 12, 92, 4, 0, 0, 0, 1, 0, 1, 1, 0, 1, 1, 6, 9, 0, 1, 10, 2, 3, 98, 99, 115, 8, 116, 111,
   95, 98, 121, 116, 101, 115, 0, 0, 0, 0, 0, 0, 0, 0, 0, 0, 0, 0, 0, 0, 0, 0, 0, 0, 0, 0, 0, 0,
   0, 0, 0, 0, 0, 0, 0, 0, 0, 1, 20, 99, 111, 109, 112, 105, 108, 97, 116, 105, 111, 110, 95,
   109, 101, 116, 97, 100, 97, 116, 97, 9, 0, 3, 50, 46, 48, 3, 50, 46, 49, 0, 1, 2, 0, 0]

/-- `b`, beside `a` at one address. -/
def sampleB : CompiledModule := { sampleBcs with
  identifiers := [⟨"b"⟩]
  addressIdentifiers := [sampleAddress] }

def sampleBBytes : Bytes :=
  [161, 28, 235, 11, 6, 0, 0, 0, 3, 1, 0, 2, 7, 2, 2, 8, 4, 32, 0, 0, 1, 98, 0, 0, 0, 0, 0, 0,
   0, 0, 0, 0, 0, 0, 0, 0, 0, 0, 0, 0, 0, 0, 0, 0, 0, 0, 0, 0, 0, 0, 0, 0, 202, 254, 0]

/-- The digests of the three binaries and of their two ABI preimages. -/
def sampleDigests : List (Bytes × HashValue) :=
  [ (sampleABytes,
      ⟨[133, 98, 74, 119, 48, 88, 157, 48, 78, 108, 9, 83, 9, 221, 234, 245, 173, 134, 212, 254,
        53, 104, 150, 199, 41, 166, 204, 164, 250, 160, 152, 235], rfl⟩),
    (sampleBcsBytes,
      ⟨[42, 48, 62, 182, 247, 11, 8, 226, 9, 204, 132, 199, 93, 189, 34, 221, 66, 12, 122, 104, 78,
        48, 98, 196, 253, 186, 221, 148, 128, 196, 107, 124], rfl⟩),
    (sampleA.abiPreimage,
      ⟨[22, 148, 98, 178, 135, 142, 106, 18, 231, 137, 226, 132, 109, 217, 102, 119, 25, 42, 32,
        219, 146, 251, 251, 83, 147, 0, 215, 50, 163, 250, 43, 144], rfl⟩),
    (sampleBcs.abiPreimage,
      ⟨[61, 221, 45, 243, 78, 47, 112, 142, 250, 108, 149, 76, 188, 233, 15, 210, 224, 99, 79, 224,
        224, 2, 7, 243, 212, 242, 27, 5, 90, 199, 13, 168], rfl⟩),
    (sampleBBytes,
      ⟨[67, 200, 8, 239, 114, 156, 181, 121, 121, 130, 5, 101, 81, 168, 250, 181, 113, 202, 132,
        210, 7, 134, 204, 95, 183, 54, 247, 94, 137, 204, 253, 24], rfl⟩) ]

def sampleVendor : Vendor :=
  .ofTables [(sampleABytes, sampleA), (sampleBcsBytes, sampleBcs), (sampleBBytes, sampleB)]
    sampleDigests [("bcs", frameworkBcsBytes)]

def publishA : ModulePublish where
  sender := sampleAddress
  modules := [sampleABytes]
  gasLimit := 1000000
  upgradePolicy := none

def publishAB : ModulePublish where
  sender := sampleAddress
  modules := [sampleABytes, sampleBBytes]
  gasLimit := 1000000
  upgradePolicy := some .compatible

def publishBcs : ModulePublish where
  sender := frameworkAddress
  modules := [sampleBcsBytes]
  gasLimit := 1000000
  upgradePolicy := none

/-! ## What a lookup finds -/

section Lookup

variable {v : Vendor} {schedule : GasSchedule}

/-- The key of the module comes first. -/
theorem fetch_of_ownKey {σ : Store} {id : ModuleId} {b : Bytes} (hid : ¬ v.Embedded id)
    (h : σ (id.address, moduleCodeKey id.name.name) = some b) :
    fetchModuleBytes v σ.view id = .ok (some b) := by
  rw [fetchModuleBytes_of_not_embedded hid, h, Option.some_or]

/-- Without it, what the address has under the legacy key. -/
theorem fetch_of_no_ownKey {σ : Store} {id : ModuleId} (hid : ¬ v.Embedded id)
    (h : σ (id.address, moduleCodeKey id.name.name) = none) :
    fetchModuleBytes v σ.view id = .ok (σ (id.address, moduleCodeLegacyKey)) := by
  rw [fetchModuleBytes_of_not_embedded hid, h, Option.none_or]

/-- The module at a position, if none with its name comes after it. -/
theorem lastNamed_of_getElem {ps : List PublishedModule} {id : ModuleId} {i : Nat}
    {p : PublishedModule} (hp : ps[i]? = some p) (hid : p.compiled.selfId = id)
    (hlast : ∀ (j : Nat) q, i < j → ps[j]? = some q → q.compiled.selfId ≠ id) :
    lastNamed ps id = some p.bytes := by
  induction ps generalizing i with
  | nil => simp at hp
  | cons q ps ih =>
    cases i with
    -- the module in question: nothing after it has the name
    | zero =>
      obtain rfl : q = p := by simpa using hp
      have hnone : lastNamed ps id = none := by
        refine lastNamed_eq_none_iff.mpr fun r hr => ?_
        obtain ⟨j, hj⟩ := List.getElem?_of_mem hr
        exact hlast (j + 1) r (by omega) (by simpa using hj)
      simp [lastNamed, hnone, hid]
    -- it comes later, and what is found in the tail is found before the head
    | succ i =>
      have htail : lastNamed ps id = some p.bytes := by
        refine ih (by simpa using hp) fun j r hij hr => ?_
        exact hlast (j + 1) r (by omega) (by simpa using hr)
      simp [lastNamed, htail]

/-- **Publish, then look up.** After a successful publish every bundle module deserializes to a
module of the sender. The lookup of the one at position `i` finds its bytes, if no later module
of the bundle has its name and it is not the id of an embedded framework module. Embedded
modules are served as before, and so is every module outside the bundle that was found under its
own key. -/
theorem fetch_after_publish (v : Vendor) (schedule : GasSchedule) (σ : Store)
    (request : ModulePublish) (out : VmOutput)
    (hout : publishModules v schedule σ.view request = .ok out)
    (hsuccess : out.status = .success) :
    (∀ bytes ∈ request.modules, ∃ m, v.deserialize bytes = .ok m
        ∧ m.selfId.address = request.sender)
    ∧ (∀ (i : Nat) bytes m, request.modules[i]? = some bytes → v.deserialize bytes = .ok m →
        (∀ (j : Nat) bytes' m', i < j → request.modules[j]? = some bytes' →
          v.deserialize bytes' = .ok m' → m'.selfId.name ≠ m.selfId.name) →
        ¬ v.Embedded ⟨request.sender, m.selfId.name⟩ →
        fetchModuleBytes v (σ.applyChanges out.stateChanges).view ⟨request.sender, m.selfId.name⟩
          = .ok (some bytes))
    ∧ (∀ id, v.Embedded id →
        fetchModuleBytes v (σ.applyChanges out.stateChanges).view id
          = .ok (v.getFrameworkModule id.name.name))
    ∧ ∀ id b, (∀ bytes ∈ request.modules, ∀ m, v.deserialize bytes = .ok m → m.selfId ≠ id) →
        (v.Embedded id ∨ (σ (id.address, moduleCodeKey id.name.name)).isSome) →
        fetchModuleBytes v σ.view id = .ok (some b) →
        fetchModuleBytes v (σ.applyChanges out.stateChanges).view id = .ok (some b) := by
  obtain ⟨ps, hmap, hacc, rfl⟩ := publishModules_success v schedule hout hsuccess
  have hstore : σ.applyChanges (publishSuccess v schedule request ps).stateChanges
      = ps.foldl (publishOne v) σ := applyChanges_bundleChanges v σ ps
  rw [hstore, ← hmap]
  -- the module read at a position of the bundle is the one the loop accepted there
  have hget : ∀ (i : Nat) bytes m, (ps.map PublishedModule.bytes)[i]? = some bytes →
      v.deserialize bytes = .ok m → ∃ p, ps[i]? = some p ∧ p.bytes = bytes ∧ p.compiled = m := by
    intro i bytes m hi hm
    rw [List.getElem?_map] at hi
    obtain ⟨p, hp, rfl⟩ := Option.map_eq_some_iff.mp hi
    exact ⟨p, hp, rfl, (hacc p (List.mem_of_getElem? hp)).compiled_eq hm⟩
  refine ⟨?_, ?_, fun id hid => fetchModuleBytes_of_embedded _ hid, ?_⟩
  · -- every module of the bundle passed the check against the sender
    intro bytes hbytes
    obtain ⟨p, hp, rfl⟩ := List.mem_map.mp hbytes
    exact ⟨p.compiled, (hacc p hp).deserialize, (hacc p hp).sender⟩
  · -- no later module has the name, so the one at `i` is the last of it
    intro i bytes m hi hm hlater hid
    obtain ⟨p, hp, rfl, rfl⟩ := hget i bytes m hi hm
    have hsender := (hacc p (List.mem_of_getElem? hp)).sender
    refine fetch_of_ownKey hid ?_
    rw [bundle_moduleCodeKey, lastNamed_of_getElem hp (by rw [← hsender]), Option.some_or]
    intro j q hij hq heq
    refine hlater j q.bytes q.compiled hij ?_ (hacc q (List.mem_of_getElem? hq)).deserialize ?_
    · rw [List.getElem?_map, hq, Option.map_some]
    · rw [heq]
  · -- a name outside the bundle: its own key is not written, and it does not need the legacy key
    intro id b hother hfound hb
    by_cases hid : v.Embedded id
    · rw [fetchModuleBytes_of_embedded _ hid] at hb ⊢
      exact hb
    · have hsome := hfound.resolve_left hid
      obtain ⟨b', hb'⟩ := Option.isSome_iff_exists.mp hsome
      -- the module found before is the one under its own key
      rw [fetch_of_ownKey hid hb'] at hb
      have hnone : lastNamed ps id = none := by
        refine lastNamed_eq_none_iff.mpr fun p hp => ?_
        exact hother p.bytes (List.mem_map_of_mem hp) p.compiled (hacc p hp).deserialize
      rw [fetch_of_ownKey hid (b := b') (by rw [bundle_moduleCodeKey, hnone, Option.none_or, hb']),
        hb]

theorem deserialize_sampleA : sampleVendor.deserialize sampleABytes = .ok sampleA := by
  simp [sampleVendor, Vendor.ofTables]

theorem deserialize_sampleBcs : sampleVendor.deserialize sampleBcsBytes = .ok sampleBcs := by
  simp [sampleVendor, Vendor.ofTables, sampleABytes, sampleBcsBytes]

theorem deserialize_sampleB : sampleVendor.deserialize sampleBBytes = .ok sampleB := by
  simp [sampleVendor, Vendor.ofTables, sampleABytes, sampleBcsBytes, sampleBBytes]

/-- A store with something under `0xBEEF::q`. -/
def storeQ : Store := KeyedStore.empty.write ((otherAddress, moduleCodeKey "q"), some [7])

/-- The bundle `[a, b]`: both modules are found, `q` still is, and so is the embedded `bcs`. -/
theorem fetch_after_publish_publishAB :
    ∃ out, publishModules sampleVendor sampleSchedule storeQ.view publishAB = .ok out
      ∧ fetchModuleBytes sampleVendor (storeQ.applyChanges out.stateChanges).view
          ⟨sampleAddress, ⟨"a"⟩⟩ = .ok (some sampleABytes)
      ∧ fetchModuleBytes sampleVendor (storeQ.applyChanges out.stateChanges).view
          ⟨sampleAddress, ⟨"b"⟩⟩ = .ok (some sampleBBytes)
      ∧ fetchModuleBytes sampleVendor (storeQ.applyChanges out.stateChanges).view
          ⟨frameworkAddress, ⟨"bcs"⟩⟩ = .ok (some frameworkBcsBytes)
      ∧ fetchModuleBytes sampleVendor (storeQ.applyChanges out.stateChanges).view
          ⟨otherAddress, ⟨"q"⟩⟩ = .ok (some [7]) := by
  have hsucc : Succeeds sampleVendor sampleSchedule storeQ publishAB := by decide +kernel
  obtain ⟨out, hout, hstatus⟩ := hsucc
  obtain ⟨-, hfound, hembedded, hother⟩ :=
    fetch_after_publish sampleVendor sampleSchedule storeQ publishAB out hout hstatus
  refine ⟨out, hout, ?_, ?_, hembedded ⟨frameworkAddress, ⟨"bcs"⟩⟩ (by decide), ?_⟩
  · -- `b` is the only module after `a`, and has another name
    refine hfound 0 sampleABytes sampleA rfl deserialize_sampleA ?_ (by decide)
    intro j bytes' m' hj hget hm'
    obtain rfl : j = 1 := by
      have hlt := (List.getElem?_eq_some_iff.mp hget).1
      simp only [publishAB, List.length_cons, List.length_nil] at hlt
      omega
    obtain rfl : sampleBBytes = bytes' := Option.some.inj hget
    obtain rfl : sampleB = m' := Except.ok.inj (deserialize_sampleB.symm.trans hm')
    decide
  · -- nothing comes after `b`
    refine hfound 1 sampleBBytes sampleB rfl deserialize_sampleB ?_ (by decide)
    intro j bytes' m' hj hget
    rw [List.getElem?_eq_none (by simp [publishAB]; omega)] at hget
    cases hget
  · -- `q` is at another address, so the bundle does not speak of it
    refine hother ⟨otherAddress, ⟨"q"⟩⟩ [7] ?_ (.inr (by decide +kernel)) (by decide +kernel)
    intro bytes hbytes m hm
    rcases List.mem_pair.mp hbytes with rfl | rfl
    · obtain rfl := Except.ok.inj (deserialize_sampleA.symm.trans hm)
      decide
    · obtain rfl := Except.ok.inj (deserialize_sampleB.symm.trans hm)
      decide

/-- The framework address may publish a module called like an embedded one, and the lookup keeps
finding the embedded one: a published module is not always what its id looks up. -/
theorem framework_shadows_published :
    Succeeds sampleVendor sampleSchedule KeyedStore.empty publishBcs
    ∧ ¬ ∀ (i : Nat) bytes m, publishBcs.modules[i]? = some bytes →
        sampleVendor.deserialize bytes = .ok m →
        fetchModuleBytes sampleVendor
            (publishStep sampleVendor sampleSchedule KeyedStore.empty publishBcs).view
            ⟨publishBcs.sender, m.selfId.name⟩ = .ok (some bytes) := by
  refine ⟨by decide +kernel, fun h => ?_⟩
  have hfetch := h 0 sampleBcsBytes sampleBcs rfl deserialize_sampleBcs
  revert hfetch
  decide +kernel

/-- A module never published has no key. -/
theorem moduleCodeKey_eq_none {schedule : GasSchedule} {requests : List ModulePublish}
    {id : ModuleId}
    (h : ¬ PublishedIn v schedule requests id) :
    afterPublishes v schedule requests (id.address, moduleCodeKey id.name.name) = none := by
  simpa using mt (isSome_moduleCodeKey_iff requests id).mp h

/-- **Three answers.** In a store that publishes have built, the lookup of a name outside the
embedded framework finds a module of exactly that id if the name was published; if it was not,
but something else was published at the address, it finds the module published last there, the
last one of the last bundle that was accepted from the address, under another name than its own;
and it finds nothing if nothing was published at the address. -/
theorem fetch_reachable (v : Vendor) (schedule : GasSchedule) (requests : List ModulePublish)
    (id : ModuleId) (hid : ¬ v.Embedded id) :
    (PublishedIn v schedule requests id →
      ∃ b m, fetchModuleBytes v (afterPublishes v schedule requests).view id = .ok (some b)
        ∧ v.deserialize b = .ok m ∧ m.selfId = id)
    ∧ (¬ PublishedIn v schedule requests id →
        (∃ n, PublishedIn v schedule requests ⟨id.address, n⟩) →
      ∃ b m, fetchModuleBytes v (afterPublishes v schedule requests).view id = .ok (some b)
        ∧ PublishedLast v schedule requests id.address b
        ∧ afterPublishes v schedule requests (id.address, moduleCodeLegacyKey) = some b
        ∧ afterPublishes v schedule requests (id.address, moduleCodeKey m.selfId.name.name) = some b
        ∧ v.deserialize b = .ok m ∧ m.selfId.address = id.address ∧ m.selfId.name ≠ id.name
        ∧ PublishedIn v schedule requests m.selfId)
    ∧ ((∀ n, ¬ PublishedIn v schedule requests ⟨id.address, n⟩) →
      fetchModuleBytes v (afterPublishes v schedule requests).view id = .ok none) := by
  have hkept := wellKept_afterPublishes v schedule requests
  refine ⟨?_, ?_, ?_⟩
  · -- published: the name has a key, and the invariant says what is under it
    intro hpub
    obtain ⟨b, hb⟩ := Option.isSome_iff_exists.mp ((isSome_moduleCodeKey_iff requests id).mpr hpub)
    obtain ⟨⟨m, hm, hself⟩, -⟩ := hkept.ownKey id b hb
    exact ⟨b, m, fetch_of_ownKey hid hb, hm, hself⟩
  · -- only other names published: the fallback, which the invariant ties to a key of its own
    intro hnot hsome
    have hnone := moduleCodeKey_eq_none hnot
    obtain ⟨b, hb⟩ := Option.isSome_iff_exists.mp
      ((isSome_legacyKey_iff requests id.address).mpr hsome)
    obtain ⟨m, -, hm, haddr, hown, -, -⟩ := hkept.legacy id.address b hb
    have hpub : PublishedIn v schedule requests m.selfId := by
      refine (isSome_moduleCodeKey_iff requests m.selfId).mp ?_
      rw [haddr, hown]
      rfl
    refine ⟨b, m, by rw [fetch_of_no_ownKey hid hnone, hb], publishedLast_of_legacyKey hb, hb, hown,
      hm, haddr, ?_, hpub⟩
    -- the module under the legacy key has its own key, so its name is another one
    intro hname
    rw [hname, hnone] at hown
    cases hown
  · -- nothing published: neither key is there
    intro hnothing
    have hnone := moduleCodeKey_eq_none (hnothing id.name)
    have hlegacy : afterPublishes v schedule requests (id.address, moduleCodeLegacyKey) = none := by
      have h := mt (isSome_legacyKey_iff requests id.address).mp (by simpa using hnothing)
      simpa using h
    rw [fetch_of_no_ownKey hid hnone, hlegacy]

/-- The bundle publishes both modules. -/
theorem publishedIn_publishAB {id : ModuleId} (h : id = sampleA.selfId ∨ id = sampleB.selfId) :
    PublishedIn sampleVendor sampleSchedule [publishAB] id := by
  refine Or.inl ⟨by decide +kernel, ?_⟩
  rcases h with rfl | rfl
  · exact ⟨sampleABytes, by simp [publishAB], sampleA, deserialize_sampleA, rfl⟩
  · exact ⟨sampleBBytes, by simp [publishAB], sampleB, deserialize_sampleB, rfl⟩

theorem not_publishedIn_publishAB {id : ModuleId} (ha : sampleA.selfId ≠ id)
    (hb : sampleB.selfId ≠ id) : ¬ PublishedIn sampleVendor sampleSchedule [publishAB] id := by
  rintro (⟨-, bytes, hbytes, m, hm, hid⟩ | hnone)
  · rcases List.mem_pair.mp hbytes with rfl | rfl
    · obtain rfl := Except.ok.inj (deserialize_sampleA.symm.trans hm)
      exact ha hid
    · obtain rfl := Except.ok.inj (deserialize_sampleB.symm.trans hm)
      exact hb hid
  · exact hnone

/-- The three answers after the bundle `[a, b]`: `a` itself, the last module `b` for `z`, and
nothing at another address. -/
theorem fetch_reachable_publishAB :
    (∃ b m, fetchModuleBytes sampleVendor
        (afterPublishes sampleVendor sampleSchedule [publishAB]).view ⟨sampleAddress, ⟨"a"⟩⟩
          = .ok (some b)
      ∧ sampleVendor.deserialize b = .ok m ∧ m.selfId = ⟨sampleAddress, ⟨"a"⟩⟩)
    ∧ (∃ b, fetchModuleBytes sampleVendor
        (afterPublishes sampleVendor sampleSchedule [publishAB]).view ⟨sampleAddress, ⟨"z"⟩⟩
          = .ok (some b)
      ∧ PublishedLast sampleVendor sampleSchedule [publishAB] sampleAddress b)
    ∧ fetchModuleBytes sampleVendor
        (afterPublishes sampleVendor sampleSchedule [publishAB]).view ⟨otherAddress, ⟨"a"⟩⟩
          = .ok none := by
  refine ⟨?_, ?_, ?_⟩
  · exact (fetch_reachable sampleVendor sampleSchedule [publishAB] ⟨sampleAddress, ⟨"a"⟩⟩
      (by decide)).1 (publishedIn_publishAB (.inl (by decide)))
  · obtain ⟨b, -, hfetch, hlast, -⟩ := (fetch_reachable sampleVendor sampleSchedule [publishAB]
      ⟨sampleAddress, ⟨"z"⟩⟩ (by decide)).2.1
      (not_publishedIn_publishAB (by decide) (by decide))
      ⟨⟨"b"⟩, publishedIn_publishAB (.inr (by decide))⟩
    exact ⟨b, hfetch, hlast⟩
  · -- both modules are at the address of the sender
    have ha : sampleA.selfId.address ≠ otherAddress := by decide
    have hb : sampleB.selfId.address ≠ otherAddress := by decide
    exact (fetch_reachable sampleVendor sampleSchedule [publishAB] ⟨otherAddress, ⟨"a"⟩⟩
      (by decide)).2.2 fun n => not_publishedIn_publishAB
        (fun h => ha (congrArg ModuleId.address h)) (fun h => hb (congrArg ModuleId.address h))

/-- After `a` is published, every other name at the address looks up `a` as well: the bytes a
lookup finds need not be a module of the name that was asked for. -/
theorem lookup_falls_back_to_other_module :
    ¬ ∀ (id : ModuleId) b, ¬ sampleVendor.Embedded id →
        fetchModuleBytes sampleVendor
          (afterPublishes sampleVendor sampleSchedule [publishA]).view id = .ok (some b) →
        ∃ m, sampleVendor.deserialize b = .ok m ∧ m.selfId = id := by
  intro h
  obtain ⟨m, hm, hid⟩ := h ⟨sampleAddress, ⟨"z"⟩⟩ sampleABytes (by decide) (by decide +kernel)
  obtain rfl : sampleA = m := Except.ok.inj (deserialize_sampleA.symm.trans hm)
  exact absurd hid (by decide)

end Lookup

end NexusMove
