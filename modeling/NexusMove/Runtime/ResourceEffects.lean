import NexusMove.Runtime.Execute
import NexusMove.Runtime.Lookup

/-!
# Resources through the store

The two sides of a resource: `changeset_to_nexus` writes it under its serialized
struct tag, and the resolver (`get_resource_bytes_with_metadata_and_layout`) reads
it under the same key, which it computes anew. Both share the keys of an account
with modules and fixed records.

* `getResourceBytes` — the resolver.
* `lastWrite_changesetToNexus` — what a change set writes under the key of a tag.
* `resource_effects_round_trip` — what is read after a change set was applied.
* `resource_shadows_module_key` — a key that is both a tag and a module's, of a
  module whose name no identifier check has seen.
-/

namespace NexusMove

section Code

variable (v : Vendor) (state : NexusStateView)

/-- `get_resource_bytes_with_metadata_and_layout`: the bytes of a resource and their number. The
metadata and the layout are not looked at. -/
def getResourceBytes (address : AccountAddress) (structTag : StructTag) :
    VMResult (Option Bytes × Nat) := do
  match structTag.toBcs with
  | none => throw (partialError StatusCode.internalTypeError (some "failed to serialize struct tag"))
  | some key =>
    match ← (state.getResource address key).mapError fun e =>
        partialError StatusCode.storageError
          (some ("resource read failed: " ++ v.debugVmError e)) with
    | some bytes => return (some bytes, bytes.length)
    | none => return (none, 0)

end Code

/-! ## Change sets -/

namespace ChangeSet

/-- The change set says `op` of the resource at the address. -/
def Says (cs : ChangeSet) (a : AccountAddress) (t : StructTag) (op : ResourceOp) : Prop :=
  ∃ resources, (a, resources) ∈ cs ∧ (t, op) ∈ resources

/-- A change set is a map from addresses to maps from tags: no address and no tag comes twice. -/
structure IsMap (cs : ChangeSet) : Prop where
  addresses : (cs.map Prod.fst).Nodup
  tags : ∀ account ∈ cs, (account.2.map Prod.fst).Nodup

def Serializable (cs : ChangeSet) : Prop := ∀ a t op, cs.Says a t op → t.toBcs.isSome = true

variable {cs : ChangeSet} {a : AccountAddress} {t : StructTag}

theorem IsMap.says_unique (h : cs.IsMap) {op op' : ResourceOp} (hop : cs.Says a t op)
    (hop' : cs.Says a t op') : op = op' := by
  obtain ⟨resources, hmem, hin⟩ := hop
  obtain ⟨resources', hmem', hin'⟩ := hop'
  have hsame : (a, resources) = (a, resources') :=
    List.inj_on_of_nodup_map h.addresses hmem hmem' rfl
  obtain rfl : resources = resources' := (Prod.mk.inj hsame).2
  have hsame : (t, op) = (t, op') :=
    List.inj_on_of_nodup_map (h.tags (a, resources) hmem) hin hin' rfl
  exact (Prod.mk.inj hsame).2

/-- The writes of a change set, one for each thing it says. -/
theorem mem_writes_iff {l : AccountAddress × Bytes} {value : Option Bytes} :
    (l, value) ∈ (changesetToNexus cs).1.map StateChange.toWrite ↔
      ∃ t op, cs.Says l.1 t op ∧ l.2 = resourceKey t ∧ value = op.value := by
  simp only [changesetToNexus_changes, List.mem_map, List.mem_flatMap]
  constructor
  · rintro ⟨c, ⟨⟨b, resources⟩, hmem, ⟨t, op⟩, hin, rfl⟩, hc⟩
    obtain ⟨rfl, rfl⟩ := Prod.mk.inj hc
    exact ⟨t, op, ⟨resources, hmem, hin⟩, rfl, rfl⟩
  · rintro ⟨t, op, ⟨resources, hmem, hin⟩, hkey, rfl⟩
    refine ⟨_, ⟨(l.1, resources), hmem, (t, op), hin, rfl⟩, ?_⟩
    rw [StateChange.toWrite, ← hkey]

theorem resourceKey_of_toBcs {k : Bytes} (h : t.toBcs = some k) : resourceKey t = k := by
  rw [resourceKey, h, Option.getD_some]

theorem Serializable.key_eq (h : cs.Serializable) {k : Bytes} {s : StructTag} {op : ResourceOp}
    (hs : cs.Says a s op) (ht : t.toBcs = some k) (hkey : k = resourceKey s) : s = t := by
  obtain ⟨k', hk'⟩ := Option.isSome_iff_exists.mp (h a s op hs)
  rw [resourceKey_of_toBcs hk'] at hkey
  subst hkey
  exact StructTag.toBcs_injective hk' ht

/-- **Writing.** Under the key of a tag, a change set writes what it says of the tag. -/
theorem lastWrite_of_says (hmap : cs.IsMap) (hser : cs.Serializable) {k : Bytes}
    (ht : t.toBcs = some k) {op : ResourceOp} (hop : cs.Says a t op) :
    KeyedStore.lastWrite ((changesetToNexus cs).1.map StateChange.toWrite) (a, k) = some op.value := by
  apply KeyedStore.lastWrite_of_mem
  · exact mem_writes_iff.mpr ⟨t, op, hop, (resourceKey_of_toBcs ht).symm, rfl⟩
  · intro value hvalue
    obtain ⟨s, op', hs, hkey, rfl⟩ := mem_writes_iff.mp hvalue
    obtain rfl := hser.key_eq hs ht hkey
    rw [hmap.says_unique hs hop]

/-- Where it says nothing of a tag, it writes nothing under the key. -/
theorem lastWrite_of_silent (hser : cs.Serializable) {k : Bytes} (ht : t.toBcs = some k)
    (hop : ∀ op, ¬ cs.Says a t op) :
    KeyedStore.lastWrite ((changesetToNexus cs).1.map StateChange.toWrite) (a, k) = none := by
  rw [KeyedStore.lastWrite_eq_none_iff]
  rintro ⟨l, value⟩ hw rfl
  obtain ⟨s, op, hs, hkey, -⟩ := mem_writes_iff.mp hw
  obtain rfl := hser.key_eq hs ht hkey
  exact hop op hs

/-- **Frame.** A key that no tag of the change set serializes to keeps its value. -/
theorem applyChanges_frame (σ : Store) (hser : cs.Serializable) {k : Bytes}
    (hk : ∀ t op, cs.Says a t op → t.toBcs ≠ some k) :
    σ.applyChanges (changesetToNexus cs).1 (a, k) = σ (a, k) := by
  refine KeyedStore.applyAll_frame ?_
  rintro ⟨l, value⟩ hw rfl
  obtain ⟨t, op, ht, hkey, -⟩ := mem_writes_iff.mp hw
  obtain ⟨k', hk'⟩ := Option.isSome_iff_exists.mp (hser a t op ht)
  rw [resourceKey_of_toBcs hk'] at hkey
  exact hk t op ht (by rw [hk', ← hkey])

end ChangeSet

/-! ## Reading back -/

section Spec

variable {v : Vendor} {σ : Store} {a : AccountAddress} {t : StructTag}

theorem getResourceBytes_view {k : Bytes} (h : t.toBcs = some k) :
    getResourceBytes v σ.view a t = .ok (σ (a, k), ((σ (a, k)).map List.length).getD 0) := by
  rw [getResourceBytes, h]
  simp only [Store.view_getResource, Except.mapError_ok, Except.ok_bind]
  cases σ (a, k) with
  | none => rfl
  | some bytes => rfl

/-- A lookup sees the key of the name and the legacy key, and nothing else of the store. -/
theorem fetchModuleBytes_congr {τ : Store} {id : ModuleId}
    (hown : τ (id.address, moduleCodeKey id.name.name) = σ (id.address, moduleCodeKey id.name.name))
    (hlegacy : τ (id.address, moduleCodeLegacyKey) = σ (id.address, moduleCodeLegacyKey)) :
    fetchModuleBytes v τ.view id = fetchModuleBytes v σ.view id := by
  simp only [fetchModuleBytes, Store.view_getModuleByName, hown, hlegacy]

theorem toBcs_ne_legacyKey (t : StructTag) : t.toBcs ≠ some moduleCodeLegacyKey := by
  apply toBcs_ne_fixedKey
  simp [fixedKeys]

end Spec

/-- **Round trip.** After a change set is applied, a resource it gives a value is read back with its
length, one it deletes is absent, and one it does not mention is read as before. Every lookup of a
module gives what it gave before, unless the key of the module's name is that of a tag that the
change set mentions at the address, which no valid name allows. -/
theorem resource_effects_round_trip (v : Vendor) (σ : Store) (cs : ChangeSet) (hmap : cs.IsMap)
    (hser : cs.Serializable) :
    (∀ a t, t.toBcs.isSome = true →
      (∀ bytes, cs.Says a t (.new bytes) ∨ cs.Says a t (.modify bytes) →
        getResourceBytes v (σ.applyChanges (changesetToNexus cs).1).view a t
          = .ok (some bytes, bytes.length))
      ∧ (cs.Says a t .delete →
        getResourceBytes v (σ.applyChanges (changesetToNexus cs).1).view a t = .ok (none, 0))
      ∧ ((∀ op, ¬ cs.Says a t op) →
        getResourceBytes v (σ.applyChanges (changesetToNexus cs).1).view a t
          = getResourceBytes v σ.view a t))
    ∧ ∀ id : ModuleId,
      (id.name.IsValid
        ∨ ∀ t op, cs.Says id.address t op → t.toBcs ≠ some (moduleCodeKey id.name.name)) →
      fetchModuleBytes v (σ.applyChanges (changesetToNexus cs).1).view id
        = fetchModuleBytes v σ.view id := by
  constructor
  · intro a t ht
    obtain ⟨k, hk⟩ := Option.isSome_iff_exists.mp ht
    have hsays : ∀ op, cs.Says a t op →
        σ.applyChanges (changesetToNexus cs).1 (a, k) = op.value := by
      intro op hop
      rw [Store.applyChanges, KeyedStore.applyAll_apply,
        ChangeSet.lastWrite_of_says hmap hser hk hop, Option.getD_some]
    refine ⟨?_, ?_, ?_⟩
    · intro bytes hbytes
      have hvalue : σ.applyChanges (changesetToNexus cs).1 (a, k) = some bytes := by
        rcases hbytes with hnew | hmodify
        · exact hsays _ hnew
        · exact hsays _ hmodify
      rw [getResourceBytes_view hk, hvalue]
      rfl
    · intro hdelete
      rw [getResourceBytes_view hk, hsays _ hdelete]
      rfl
    · intro hsilent
      have hframe : σ.applyChanges (changesetToNexus cs).1 (a, k) = σ (a, k) := by
        rw [Store.applyChanges, KeyedStore.applyAll_apply,
          ChangeSet.lastWrite_of_silent hser hk hsilent, Option.getD_none]
      rw [getResourceBytes_view hk, getResourceBytes_view hk, hframe]
  · intro id hid
    have hkey : ∀ t op, cs.Says id.address t op → t.toBcs ≠ some (moduleCodeKey id.name.name) := by
      intro t op hop
      rcases hid with hvalid | hapart
      · exact toBcs_ne_moduleCodeKey t hvalid
      · exact hapart t op hop
    apply fetchModuleBytes_congr
    · exact ChangeSet.applyChanges_frame σ hser hkey
    · exact ChangeSet.applyChanges_frame σ hser fun t _ _ => toBcs_ne_legacyKey t

/-! ## A tag that reads as a module key

The address of `clashTag` begins with the bytes of `code::`, and all of its serialization is text. -/

def clashTag : StructTag where
  address := ⟨⟨moduleCodePrefix ++ List.replicate 26 97, by decide⟩⟩
  module := ⟨"m"⟩
  name := ⟨"S"⟩
  typeArgs := []

/-- The rest of the serialization: 26 letters, then each name behind its length, then a zero. -/
def clashName : Identifier where
  name := .ofList (List.replicate 26 'a' ++ [.ofNat 1, 'm', .ofNat 1, 'S', .ofNat 0])

def clashChanges : ChangeSet := [(sampleAddress, [(clashTag, .new [7])])]

theorem clashChanges_isMap : clashChanges.IsMap where
  addresses := by simp [clashChanges]
  tags := by simp [clashChanges]

theorem clashChanges_serializable : clashChanges.Serializable := by
  intro a t op ht
  obtain ⟨resources, hmem, hin⟩ := ht
  obtain ⟨rfl, rfl⟩ := Prod.mk.inj (List.mem_singleton.mp hmem)
  obtain ⟨rfl, rfl⟩ := Prod.mk.inj (List.mem_singleton.mp hin)
  decide

theorem resource_effects_round_trip_clashChanges :
    getResourceBytes sampleVendor
      (Store.applyChanges KeyedStore.empty (changesetToNexus clashChanges).1).view
      sampleAddress clashTag = .ok (some [7], 1) :=
  ((resource_effects_round_trip sampleVendor KeyedStore.empty clashChanges clashChanges_isMap
    clashChanges_serializable).1 sampleAddress clashTag (by decide)).1 [7]
    (.inl ⟨_, List.mem_singleton_self _, List.mem_singleton_self _⟩)

/-- A lookup of the clashing name finds nothing before, and the resource afterwards. -/
theorem resource_shadows_module_key :
    clashChanges.IsMap ∧ clashChanges.Serializable
    ∧ ¬ ∀ id, fetchModuleBytes sampleVendor
          (Store.applyChanges KeyedStore.empty (changesetToNexus clashChanges).1).view id
        = fetchModuleBytes sampleVendor (Store.view KeyedStore.empty) id := by
  refine ⟨clashChanges_isMap, clashChanges_serializable, fun h => ?_⟩
  have hbefore : (fetchModuleBytes sampleVendor (Store.view KeyedStore.empty)
      ⟨sampleAddress, clashName⟩).toOption = some none := by
    decide +kernel
  have hafter : (fetchModuleBytes sampleVendor
      (Store.applyChanges KeyedStore.empty (changesetToNexus clashChanges).1).view
      ⟨sampleAddress, clashName⟩).toOption = some (some [7]) := by
    decide +kernel
  rw [h ⟨sampleAddress, clashName⟩, hbefore] at hafter
  cases hafter

end NexusMove
