import NexusMove.Runtime.ScriptPrice
import NexusMove.Vm.Canonical
import NexusMove.Vm.StorageRuns

/-!
# What a run leaves in storage

At the end of a run the slots that were altered become the change set. Which slots
were altered is read off their flags, so it matters that no write is missed: a slot
whose flag is clean still holds what was read.

* `clean_slot_untouched` — a slot that makes no effect.
* `intoEffects_spec` — what the change set says, slot by slot.
* `run_effects` — storage after the change set is what the run left in its slots.
-/

namespace NexusMove

section

variable {v : Vendor} {k : TypeCosts} {σ : Store} {m : VmMemory} {cache : TransactionDataCache}
  {r r' : Slot} {tag : StructTag} {op : ResourceOp} {cs : ChangeSet}

/-! ## What a slot contributes -/

/-- The value in the slot. -/
def Slot.currentValue (H : Heap ValueImpl) (r : Slot) : Option Value :=
  r.value.value?.bind (valueAs H r.layout)

/-- The key of a slot is its tag, serialized. -/
theorem Slot.storageKey_of_tag (h : structTagOf k r.ty.ty = .ok tag) :
    r.storageKey k = tag.toBcs := by
  rw [Slot.storageKey, h]

/-- The tag of a struct is its tag as a type. -/
theorem tagOfTy_of_structTagOf {ty : Ty} (h : structTagOf k ty = .ok tag) :
    tagOfTy k ty = .ok (.struct tag) := by
  obtain ⟨t, ht, h⟩ := Except.bind_eq_ok.mp h
  split at h
  · obtain rfl := Except.ok.inj h
    exact ht
  · cases h

/-- Two slots of an account whose types have one tag are one slot. -/
theorem Slot.key_eq_of_tag (haddr : r.address = r'.address)
    (hr : structTagOf k r.ty.ty = .ok tag) (hr' : structTagOf k r'.ty.ty = .ok tag) :
    r.key = r'.key := by
  have hty : r.ty.ty.key = r'.ty.ty.key :=
    key_eq_of_tagOfTy r.ty.proper r'.ty.proper (tagOfTy_of_structTagOf hr)
      (tagOfTy_of_structTagOf hr')
  rw [Slot.key, Slot.key, haddr, hty]

/-- A slot with a key has a tag. -/
theorem Slot.exists_tag {key : Bytes} (h : r.storageKey k = some key) :
    ∃ tag, structTagOf k r.ty.ty = .ok tag ∧ tag.toBcs = some key := by
  unfold Slot.storageKey at h
  split at h
  · rename_i tag htag
    exact ⟨tag, htag, h⟩
  · cases h

/-- What is serialized is read back as the value. -/
theorem serializeResource_eq_ok {layout : Layout} {x : ValueImpl} {bytes : Bytes}
    (h : serializeResource v layout m x = .ok bytes) :
    ∃ val, valueAs m.heap layout x = some val
      ∧ Value.deserialize v.closureCodec layout bytes = some val := by
  unfold serializeResource at h
  split at h
  · rename_i bytes' hbytes
    obtain rfl := Except.ok.inj h
    obtain ⟨val, hval, hencode⟩ := Option.bind_eq_some_iff.mp hbytes
    exact ⟨val, hval, Codec.fromBytes_of_encode _ hencode⟩
  · cases h

/-- The slot says `op` of its tag. -/
structure SlotSays (v : Vendor) (k : TypeCosts) (m : VmMemory) (r : Slot) (tag : StructTag)
    (op : ResourceOp) : Prop where
  tag : structTagOf k r.ty.ty = .ok tag
  absent : op.value = none ↔ r.value.value? = none
  value : ∀ bytes, op.value = some bytes → ∃ val, r.currentValue m.heap = some val
    ∧ Value.deserialize v.closureCodec r.layout bytes = some val
  isNew : (∃ bytes, op = .new bytes) ↔ r.value = .none ∨ ∃ c, r.value = .fresh c

/-- What a slot says, by what has become of its value. -/
theorem slotEffect_eq_some (h : slotEffect v k m r = .ok (some (tag, op))) :
    SlotSays v k m r tag op := by
  unfold slotEffect at h
  split at h
  · cases h
  rename_i op' hop'
  obtain ⟨tag', htag, h⟩ := Except.bind_eq_ok.mp h
  obtain ⟨op'', hthen, h⟩ := Except.bind_eq_ok.mp h
  obtain ⟨rfl, rfl⟩ := Prod.mk.inj (Option.some.inj (Except.pure_eq_ok.mp h))
  -- a value that was written as bytes is read back from them
  have hcurrent : ∀ {c bytes}, r.value.value? = some (.container ⟨.struct, c⟩) →
      serializeResource v r.layout m (.container ⟨.struct, c⟩) = .ok bytes →
      ∃ val, r.currentValue m.heap = some val
        ∧ Value.deserialize v.closureCodec r.layout bytes = some val := by
    intro c bytes hvalue hbytes
    obtain ⟨val, hval, hread⟩ := serializeResource_eq_ok hbytes
    exact ⟨val, by rw [Slot.currentValue, hvalue]; exact hval, hread⟩
  cases hgv : r.value with
  | none =>
    rw [hgv] at hop'
    cases hop'
  -- a resource was there and was moved out: the operation deletes it
  | deleted =>
    rw [hgv] at hop'
    obtain rfl := Option.some.inj hop'
    obtain rfl := Except.ok.inj hthen
    refine ⟨htag, by simp [hgv, GlobalValue.value?, Op.toResourceOp, ResourceOp.value], ?_, ?_⟩
    · intro bytes hbytes
      cases hbytes
    · simp [hgv, Op.toResourceOp]
  -- there was no resource, so the operation is `New`
  | fresh c =>
    rw [hgv] at hop'
    obtain rfl := Option.some.inj hop'
    obtain ⟨bytes, hbytes, hthen⟩ := Except.bind_eq_ok.mp hthen
    obtain rfl := Except.pure_eq_ok.mp hthen
    refine ⟨htag, by simp [hgv, GlobalValue.value?, Op.toResourceOp, ResourceOp.value], ?_, ?_⟩
    · intro bytes' heq
      obtain rfl := Option.some.inj heq
      exact hcurrent (by rw [hgv]; rfl) hbytes
    · simp [hgv, Op.toResourceOp]
  -- a resource from storage has an effect only if its flag is dirty, and then it is `Modify`
  | cached c s =>
    rw [hgv] at hop'
    simp only [GlobalValue.intoEffect] at hop'
    split at hop'
    · obtain rfl := Option.some.inj hop'
      obtain ⟨bytes, hbytes, hthen⟩ := Except.bind_eq_ok.mp hthen
      obtain rfl := Except.pure_eq_ok.mp hthen
      refine ⟨htag, by simp [hgv, GlobalValue.value?, Op.toResourceOp, ResourceOp.value], ?_, ?_⟩
      · intro bytes' heq
        obtain rfl := Option.some.inj heq
        exact hcurrent (by rw [hgv]; rfl) hbytes
      · simp [hgv, Op.toResourceOp]
    · cases hop'

/-- Only an empty slot and a clean one have no effect. -/
theorem GlobalValue.intoEffect_eq_none {gv : GlobalValue} (h : gv.intoEffect m = Option.none) :
    gv = .none ∨ ∃ c s, gv = .cached c s ∧ m.status s = .clean := by
  cases gv with
  | none => exact .inl rfl
  | deleted => cases h
  | fresh c => cases h
  | cached c s =>
    simp only [GlobalValue.intoEffect] at h
    split at h
    · cases h
    · rename_i hclean
      exact .inr ⟨c, s, rfl, hclean⟩

/-- A slot that says nothing is empty and was, or is clean. -/
theorem slotEffect_eq_none (h : slotEffect v k m r = .ok none) :
    r.value = .none ∨ ∃ c s, r.value = .cached c s ∧ m.status s = .clean := by
  unfold slotEffect at h
  split at h
  · rename_i hop
    exact GlobalValue.intoEffect_eq_none hop
  · obtain ⟨tag', -, h⟩ := Except.bind_eq_ok.mp h
    obtain ⟨op'', -, h⟩ := Except.bind_eq_ok.mp h
    cases Except.pure_eq_ok.mp h

/-! ## The change set -/

/-- Every slot of an account has its say, in the order of the slots. -/
theorem accountEffects_eq_ok {rs : List Slot} {effects : List (StructTag × ResourceOp)}
    (h : accountEffects v k m rs = .ok effects) :
    (∀ r ∈ rs, ∃ e, slotEffect v k m r = .ok e)
      ∧ effects = rs.filterMap fun r => (slotEffect v k m r).toOption.join := by
  induction rs generalizing effects with
  | nil =>
    obtain rfl := Except.ok.inj h
    exact ⟨by simp, rfl⟩
  | cons r rs ih =>
    obtain ⟨e, he, h⟩ := Except.bind_eq_ok.mp h
    obtain ⟨rest, hrest, h⟩ := Except.bind_eq_ok.mp h
    obtain rfl := Except.pure_eq_ok.mp h
    obtain ⟨hall, rfl⟩ := ih hrest
    refine ⟨?_, ?_⟩
    · -- the effect of each slot exists, or the fold would have failed
      intro r' hr'
      rcases List.mem_cons.mp hr' with rfl | hr'
      · exact ⟨e, he⟩
      · exact hall r' hr'
    · rw [List.filterMap_cons, he]
      cases e with
      | none => rfl
      | some effect => rfl

/-- What is said for an account, one of its slots says. -/
theorem mem_accountEffects {rs : List Slot} {effects : List (StructTag × ResourceOp)}
    (h : accountEffects v k m rs = .ok effects) :
    (tag, op) ∈ effects ↔ ∃ r ∈ rs, slotEffect v k m r = .ok (some (tag, op)) := by
  rw [(accountEffects_eq_ok h).2, List.mem_filterMap]
  refine exists_congr fun r => and_congr_right fun hr => ?_
  obtain ⟨e, he⟩ := (accountEffects_eq_ok h).1 r hr
  rw [he]
  constructor
  · -- a slot whose effect failed has none, but none failed here
    intro hjoin
    obtain rfl : e = some (tag, op) := hjoin
    rfl
  · intro heq
    obtain rfl := Except.ok.inj heq
    rfl

/-- No tag comes twice: slots with one tag are one slot. -/
theorem nodup_accountEffects {rs : List Slot} {effects : List (StructTag × ResourceOp)}
    {a : AccountAddress} (h : accountEffects v k m rs = .ok effects)
    (haddr : ∀ r ∈ rs, r.address = a) (hkeys : (rs.map Slot.key).Nodup) :
    (effects.map Prod.fst).Nodup := by
  obtain ⟨hall, rfl⟩ := accountEffects_eq_ok h
  have hpairs : rs.Pairwise fun r r' => r.key ≠ r'.key := List.pairwise_map.mp hkeys
  refine List.pairwise_map.mpr (List.pairwise_filterMap.mpr ?_)
  refine hpairs.imp_of_mem ?_
  rintro r r' hr hr' hne ⟨tag, op⟩ heffect ⟨tag', op'⟩ heffect' rfl
  -- both slots have a tag, since both say something
  have hsaid : ∀ {r op}, r ∈ rs → (slotEffect v k m r).toOption.join = some (tag, op) →
      structTagOf k r.ty.ty = .ok tag := by
    intro r op hr heffect
    obtain ⟨e, he⟩ := hall r hr
    rw [he] at heffect
    obtain rfl : e = some (tag, op) := heffect
    exact (slotEffect_eq_some he).tag
  exact hne (Slot.key_eq_of_tag ((haddr r hr).trans (haddr r' hr').symm) (hsaid hr heffect)
    (hsaid hr' heffect'))

/-- The effects of the accounts that have some, in the order of the accounts. -/
theorem effectsAt_eq_ok {as : List AccountAddress} (h : effectsAt v k m cache as = .ok cs) :
    (cs.map Prod.fst).Sublist as
      ∧ (∀ a ∈ as, ∃ resources,
          accountEffects v k m (cache.filter fun r => r.address = a) = .ok resources
            ∧ (resources ≠ [] → (a, resources) ∈ cs))
      ∧ ∀ account ∈ cs,
          accountEffects v k m (cache.filter fun r => r.address = account.1) = .ok account.2 := by
  induction as generalizing cs with
  | nil =>
    obtain rfl := Except.ok.inj h
    exact ⟨List.Sublist.refl _, by simp, by simp⟩
  | cons a as ih =>
    obtain ⟨resources, hresources, h⟩ := Except.bind_eq_ok.mp h
    obtain ⟨accounts, haccounts, h⟩ := Except.bind_eq_ok.mp h
    obtain rfl := Except.pure_eq_ok.mp h
    obtain ⟨hsub, hall, hmem⟩ := ih haccounts
    -- an account without effects is left out of the change set
    cases hempty : resources.isEmpty with
    | true =>
      obtain rfl := List.isEmpty_iff.mp hempty
      refine ⟨hsub.cons a, ?_, hmem⟩
      intro b hb
      rcases List.mem_cons.mp hb with rfl | hb
      · exact ⟨[], hresources, fun hne => absurd rfl hne⟩
      · exact hall b hb
    | false =>
      refine ⟨hsub.cons_cons a, ?_, ?_⟩
      · intro b hb
        rcases List.mem_cons.mp hb with rfl | hb
        · exact ⟨resources, hresources, fun _ => List.mem_cons_self⟩
        · obtain ⟨resources', hok, hin⟩ := hall b hb
          exact ⟨resources', hok, fun hne => List.mem_cons_of_mem _ (hin hne)⟩
      · intro account haccount
        rcases List.mem_cons.mp haccount with rfl | haccount
        · exact hresources
        · exact hmem account haccount

/-- **The change set.** It is a map, every slot has a say, and it says what the slots say. -/
theorem intoEffects_spec (hkeys : (cache.map Slot.key).Nodup)
    (h : intoEffects v k m cache = .ok cs) :
    cs.IsMap ∧ (∀ r ∈ cache, ∃ e, slotEffect v k m r = .ok e)
      ∧ ∀ a t op, cs.Says a t op ↔
          ∃ r ∈ cache, r.address = a ∧ slotEffect v k m r = .ok (some (t, op)) := by
  obtain ⟨hsub, hall, hmem⟩ := effectsAt_eq_ok h
  have hadresses : ∀ {r}, r ∈ cache → r.address ∈ (cache.map Slot.address).dedup :=
    fun hr => List.mem_dedup.mpr (List.mem_map_of_mem hr)
  -- a slot is among the slots of its own address
  have hown : ∀ {r}, r ∈ cache → r ∈ cache.filter fun r' => r'.address = r.address :=
    fun hr => List.mem_filter.mpr ⟨hr, by simp⟩
  refine ⟨⟨hsub.nodup (List.nodup_dedup _), ?_⟩, ?_, ?_⟩
  · intro account haccount
    apply nodup_accountEffects (hmem account haccount) (a := account.1)
    · intro r hr
      exact of_decide_eq_true (List.mem_filter.mp hr).2
    · exact (List.filter_sublist.map Slot.key).nodup hkeys
  · intro r hr
    obtain ⟨resources, hresources, -⟩ := hall r.address (hadresses hr)
    exact (accountEffects_eq_ok hresources).1 r (hown hr)
  · intro a t op
    constructor
    · rintro ⟨resources, hin, hsaid⟩
      obtain ⟨r, hr, heffect⟩ := (mem_accountEffects (hmem _ hin)).mp hsaid
      obtain ⟨hr, haddr⟩ := List.mem_filter.mp hr
      exact ⟨r, hr, of_decide_eq_true haddr, heffect⟩
    · rintro ⟨r, hr, rfl, heffect⟩
      obtain ⟨resources, hresources, hin⟩ := hall r.address (hadresses hr)
      have hsaid : (t, op) ∈ resources := (mem_accountEffects hresources).mpr ⟨r, hown hr, heffect⟩
      exact ⟨resources, hin (List.ne_nil_of_mem hsaid), hsaid⟩

/-! ## Storage after the change set -/

/-- What is in storage for the slot is what is in the slot. -/
def Slot.Committed (v : Vendor) (k : TypeCosts) (σ : Store) (H : Heap ValueImpl) (r : Slot) :
    Prop :=
  match r.value.value? with
  | none => r.storedBytes k σ = none
  | some x => ∃ val, valueAs H r.layout x = some val ∧ r.storedValue v k σ = some val

/-- Whether there was a resource, by what has become of the slot. -/
theorem Slot.Origin.absent_iff (h : r.Origin v k σ) :
    r.storedBytes k σ = none ↔ r.value = .none ∨ ∃ c, r.value = .fresh c := by
  -- what can be read as a value is there
  have hpresent : (r.storedValue v k σ).isSome = true → r.storedBytes k σ ≠ none := by
    intro hsome hnone
    rw [Slot.storedValue, hnone] at hsome
    cases hsome
  unfold Slot.Origin at h
  cases hgv : r.value with
  | none =>
    rw [hgv] at h
    exact ⟨fun _ => .inl rfl, fun _ => h⟩
  | fresh c =>
    rw [hgv] at h
    exact ⟨fun _ => .inr ⟨c, rfl⟩, fun _ => h⟩
  -- deleted or cached: the slot was loaded from bytes that were there
  | deleted =>
    rw [hgv] at h
    exact ⟨fun hnone => absurd hnone (hpresent h), by simp⟩
  | cached c s =>
    rw [hgv] at h
    exact ⟨fun hnone => absurd hnone (hpresent h), by simp⟩

end

namespace Machine

variable {v : Vendor} {k : TypeCosts} {σ : Store} {xs : List ValueImpl} {M : Machine}
  {cs : ChangeSet}

/-- Every tag in the change set has bytes. -/
theorem Sound.serializable_changes (h : Sound v k σ xs M)
    (hcs : intoEffects v k M.memory M.dataStore = .ok cs) : cs.Serializable := by
  intro a t op hsaid
  obtain ⟨r, hr, -, heffect⟩ := ((intoEffects_spec h.keys hcs).2.2 a t op).mp hsaid
  rw [← Slot.storageKey_of_tag (slotEffect_eq_some heffect).tag]
  exact h.serializable r hr

/-- **Kinds of operations.** What is new was not in storage, and all else was. -/
theorem Sound.new_iff_absent (h : Sound v k σ xs M)
    (hcs : intoEffects v k M.memory M.dataStore = .ok cs) {a : AccountAddress} {t : StructTag}
    {op : ResourceOp} {key : Bytes} (hsaid : cs.Says a t op) (hkey : t.toBcs = some key) :
    (∃ bytes, op = .new bytes) ↔ σ (a, key) = none := by
  obtain ⟨r, hr, rfl, heffect⟩ := ((intoEffects_spec h.keys hcs).2.2 a t op).mp hsaid
  have hslot := slotEffect_eq_some heffect
  have hbytes : r.storedBytes k σ = σ (r.address, key) := by
    rw [Slot.storedBytes, Slot.storageKey_of_tag hslot.tag, hkey]
    rfl
  rw [hslot.isNew, ← hbytes]
  exact (Slot.Origin.absent_iff (h.origin r hr)).symm

/-- What the store has afterwards under the key of a slot that says something. -/
theorem Sound.stored_of_said (h : Sound v k σ xs M)
    (hcs : intoEffects v k M.memory M.dataStore = .ok cs) {r : Slot} (hr : r ∈ M.dataStore)
    {t : StructTag} {op : ResourceOp} (heffect : slotEffect v k M.memory r = .ok (some (t, op))) :
    r.storedBytes k (σ.applyChanges (changesetToNexus cs).1) = op.value := by
  obtain ⟨hmap, -, hsaid⟩ := intoEffects_spec h.keys hcs
  have hstorage := Slot.storageKey_of_tag (slotEffect_eq_some heffect).tag
  obtain ⟨key, hkey⟩ := Option.isSome_iff_exists.mp (h.serializable r hr)
  have htag : t.toBcs = some key := hstorage.symm.trans hkey
  have hop : cs.Says r.address t op := (hsaid r.address t op).mpr ⟨r, hr, rfl, heffect⟩
  -- the last write under the key is the one of this slot, since the change set is a map
  have hwrite := ChangeSet.lastWrite_of_says hmap (h.serializable_changes hcs) htag hop
  rw [Slot.storedBytes, hkey, Option.bind_some, Store.applyChanges, KeyedStore.applyAll_apply,
    hwrite, Option.getD_some]

/-- The store has what it had under the key of a slot that says nothing. -/
theorem Sound.stored_of_silent (h : Sound v k σ xs M)
    (hcs : intoEffects v k M.memory M.dataStore = .ok cs) {r : Slot} (hr : r ∈ M.dataStore)
    (heffect : slotEffect v k M.memory r = .ok none) :
    r.storedBytes k (σ.applyChanges (changesetToNexus cs).1) = r.storedBytes k σ := by
  obtain ⟨-, -, hsaid⟩ := intoEffects_spec h.keys hcs
  obtain ⟨key, hkey⟩ := Option.isSome_iff_exists.mp (h.serializable r hr)
  rw [Slot.storedBytes, Slot.storedBytes, hkey, Option.bind_some, Option.bind_some]
  apply ChangeSet.applyChanges_frame σ (h.serializable_changes hcs)
  intro t op hop htag
  -- whoever says something of this key is this slot
  obtain ⟨r', hr', haddr, heffect'⟩ := (hsaid r.address t op).mp hop
  obtain ⟨tag, hrtag, hrkey⟩ := Slot.exists_tag hkey
  obtain rfl : tag = t := StructTag.toBcs_injective hrkey htag
  obtain rfl := h.slot_unique hr hr'
    (Slot.key_eq_of_tag haddr (slotEffect_eq_some heffect').tag hrtag)
  rw [heffect] at heffect'
  cases heffect'

/-- **Slots.** After the change set is applied, storage has for each slot what is in it. -/
theorem Sound.committed (h : Sound v k σ xs M)
    (hcs : intoEffects v k M.memory M.dataStore = .ok cs) {r : Slot} (hr : r ∈ M.dataStore) :
    r.Committed v k (σ.applyChanges (changesetToNexus cs).1) M.memory.heap := by
  obtain ⟨-, hall, -⟩ := intoEffects_spec h.keys hcs
  obtain ⟨e, heffect⟩ := hall r hr
  unfold Slot.Committed
  cases e with
  | none =>
    -- the slot was not altered
    have hstored := h.stored_of_silent hcs hr heffect
    rcases slotEffect_eq_none heffect with hgv | ⟨c, s, hgv, hclean⟩
    · have horigin := h.origin r hr
      rw [Slot.Origin, hgv] at horigin
      rw [hgv]
      exact hstored.trans horigin
    · obtain ⟨val, R, hval, hguards⟩ := h.clean r hr c s hgv hclean
      rw [hgv]
      refine ⟨val, hguards.value, ?_⟩
      rw [Slot.storedValue, hstored]
      exact hval
  -- the slot was altered: storage has what the operation wrote
  | some effect =>
    obtain ⟨t, op⟩ := effect
    have hslot := slotEffect_eq_some heffect
    have hstored := h.stored_of_said hcs hr heffect
    split
    · rename_i hnone
      exact hstored.trans (hslot.absent.mpr hnone)
    · rename_i x hx
      cases hop : op.value with
      | none =>
        rw [hslot.absent.mp hop] at hx
        cases hx
      -- the bytes that were written are read as the value in memory
      | some bytes =>
        obtain ⟨val, hval, hread⟩ := hslot.value bytes hop
        rw [Slot.currentValue, hx] at hval
        refine ⟨val, hval, ?_⟩
        rw [Slot.storedValue, hstored, hop]
        exact hread

/-- **Frame.** What no slot is of stays as it was. -/
theorem Sound.frame (h : Sound v k σ xs M)
    (hcs : intoEffects v k M.memory M.dataStore = .ok cs) {a : AccountAddress} {key : Bytes}
    (hnone : ∀ r ∈ M.dataStore, r.address = a → r.storageKey k ≠ some key) :
    σ.applyChanges (changesetToNexus cs).1 (a, key) = σ (a, key) := by
  obtain ⟨-, -, hsaid⟩ := intoEffects_spec h.keys hcs
  apply ChangeSet.applyChanges_frame σ (h.serializable_changes hcs)
  intro t op hop htag
  obtain ⟨r, hr, haddr, heffect⟩ := (hsaid a t op).mp hop
  apply hnone r hr haddr
  rw [Slot.storageKey_of_tag (slotEffect_eq_some heffect).tag, htag]

end Machine

/-! ## Runs -/

section Runs

variable {v : Vendor} {k : TypeCosts} {σ : Store} {numLocals : Nat}
  {args : List (Layout × Argument)} {es : List Event} {M₀ M : Machine}

/-- A slot with a value and no effect has the value that is read from storage. -/
theorem storedValue_of_no_effect (henter : Machine.enter numLocals args = .ok M₀)
    (hrun : M₀.run v k σ.view es = .ok M) {r : Slot} (hr : r ∈ M.dataStore) {x : ValueImpl}
    (hvalue : r.value.value? = some x) (hclean : r.value.intoEffect M.memory = none) :
    ∃ val, r.storedValue v k σ = some val ∧ valueAs M.memory.heap r.layout x = some val := by
  have hsound := Machine.run_sound (Machine.enter_sound (v := v) henter) hrun
  rcases GlobalValue.intoEffect_eq_none hclean with hgv | ⟨c, s, hgv, hst⟩
  · rw [hgv] at hvalue
    cases hvalue
  · -- an empty slot has no value
    obtain ⟨val, R, hval, hguards⟩ := hsound.clean r hr c s hgv hst
    rw [hgv] at hvalue
    obtain rfl := Option.some.inj hvalue
    exact ⟨val, hval, hguards.value⟩

/-- **No write is missed.** In every state of every run, a resource that makes no effect is the one
in storage: what would be serialized for it is the value that is read there, and if closures are
serialized canonically, it is the bytes that are there. -/
theorem clean_slot_untouched (henter : Machine.enter numLocals args = .ok M₀)
    (hrun : M₀.run v k σ.view es = .ok M) {r : Slot} (hr : r ∈ M.dataStore) {x : ValueImpl}
    (hvalue : r.value.value? = some x) (hclean : r.value.intoEffect M.memory = none) :
    (∃ val, r.storedValue v k σ = some val ∧ valueAs M.memory.heap r.layout x = some val)
    ∧ ((∀ layout, (v.closureCodec layout).Canonical) →
        ∃ bytes, r.storedBytes k σ = some bytes
          ∧ serializeResource v r.layout M.memory x = .ok bytes) := by
  obtain ⟨val, hval, hx⟩ := storedValue_of_no_effect henter hrun hr hvalue hclean
  refine ⟨⟨val, hval, hx⟩, fun hclosures => ?_⟩
  obtain ⟨bytes, hbytes, hread⟩ := Option.bind_eq_some_iff.mp hval
  refine ⟨bytes, hbytes, ?_⟩
  -- a canonical codec writes what it has read
  have hencode := (valueCodec_canonical hclosures r.layout).encode_of_fromBytes hread
  rw [serializeResource, hx, Option.bind_some, hencode]

/-- **Commit.** The change set of a run is a map of serializable tags. It makes new what storage
does not have, and alters or deletes what it has. After it is applied, storage has for every slot
of the run what is in the slot, and everything else is as it was. -/
theorem run_effects (henter : Machine.enter numLocals args = .ok M₀)
    (hrun : M₀.run v k σ.view es = .ok M) {cs : ChangeSet}
    (hcs : intoEffects v k M.memory M.dataStore = .ok cs) :
    cs.IsMap ∧ cs.Serializable
    ∧ (∀ a t op key, cs.Says a t op → t.toBcs = some key →
        ((∃ bytes, op = .new bytes) ↔ σ (a, key) = none))
    ∧ (∀ r ∈ M.dataStore, r.Committed v k (σ.applyChanges (changesetToNexus cs).1) M.memory.heap)
    ∧ ∀ a key, (∀ r ∈ M.dataStore, r.address = a → r.storageKey k ≠ some key) →
        σ.applyChanges (changesetToNexus cs).1 (a, key) = σ (a, key) := by
  have hsound := Machine.run_sound (Machine.enter_sound (v := v) henter) hrun
  refine ⟨(intoEffects_spec hsound.keys hcs).1, hsound.serializable_changes hcs, ?_, ?_, ?_⟩
  · intro a t op key hsaid hkey
    exact hsound.new_iff_absent hcs hsaid hkey
  · intro r hr
    exact hsound.committed hcs hr
  · intro a key hnone
    exact hsound.frame hcs hnone

end Runs

/-! ## A cell

Two runs over the resource `Cell { value: 7 }` of `0xCAFE`, which is also the argument: one reads
the value, and one writes 9 through a reference to the field. -/

/-- `0xCAFE::cell::Cell`. -/
def cellTy : ResourceTy where
  ty := .struct ⟨⟨sampleAddress, ⟨"cell"⟩⟩, ⟨"Cell"⟩⟩ (.struct ⟨8⟩)
  proper := rfl

/-- The module, and the resource. -/
def cellStore : Store :=
  (sampleStore "cell" sampleCellBytes).write ((sampleAddress, resourceKey cellTag), some [7])

def cellArgs : List (Layout × Argument) := [(.address, .owned (.address sampleAddress))]

def event (instr : Instr) : Event where
  instr := instr
  rc _ := 1
  depth := 8

/-- Reads the value of the cell. -/
def peek : List Event :=
  [.moveLoc 0, .borrowGlobal cellTy, .borrowField 0, .readRef].map event

/-- Writes 9 to the cell. -/
def poke : List Event :=
  [.compute 0 fun _ _ => .ok [(.u8, .u8 9)], .moveLoc 0, .borrowGlobal cellTy, .borrowField 0,
    .writeRef].map event

def runCell (es : List Event) : VMResult Machine := do
  let M ← Machine.enter 1 cellArgs
  M.run cellVendor .default cellStore.view es

/-- The run that reads leaves the slot with a value and no effect, and 7 would be written again. -/
theorem clean_slot_untouched_peek :
    ∃ M r x, runCell peek = .ok M ∧ r ∈ M.dataStore ∧ r.value.value? = some x
      ∧ ∃ bytes, r.storedBytes .default cellStore = some bytes
        ∧ serializeResource cellVendor r.layout M.memory x = .ok bytes := by
  have hslot : ((runCell peek).toOption.bind fun M => M.dataStore.head?.bind fun r =>
      r.value.value?.map fun x => (x, (r.value.intoEffect M.memory).isNone))
      = some (.container ⟨.struct, 2⟩, true) := by
    decide +kernel
  obtain ⟨M, hM, hslot⟩ := Option.bind_eq_some_iff.mp hslot
  obtain ⟨r, hr, hslot⟩ := Option.bind_eq_some_iff.mp hslot
  obtain ⟨x, hx, hslot⟩ := Option.map_eq_some_iff.mp hslot
  have hM := Except.toOption_eq_some.mp hM
  obtain ⟨M₀, henter, hrun⟩ := Except.bind_eq_ok.mp hM
  have hmem : r ∈ M.dataStore := List.mem_of_head? hr
  have hnone : r.value.intoEffect M.memory = none :=
    Option.isNone_iff_eq_none.mp (Prod.mk.inj hslot).2
  exact ⟨M, r, x, hM, hmem, hx,
    (clean_slot_untouched henter hrun hmem hx hnone).2 fun _ => Codec.canonical_fail⟩

/-- The run that writes leaves 9 in storage. -/
theorem run_effects_poke :
    ∃ M cs, runCell poke = .ok M ∧ intoEffects cellVendor .default M.memory M.dataStore = .ok cs
      ∧ cellStore.applyChanges (changesetToNexus cs).1 (sampleAddress, resourceKey cellTag) = some [9]
      ∧ cs.IsMap ∧ ∀ r ∈ M.dataStore, r.Committed cellVendor .default
          (cellStore.applyChanges (changesetToNexus cs).1) M.memory.heap := by
  have hchanges : ((runCell poke).toOption.bind fun M =>
      (intoEffects cellVendor .default M.memory M.dataStore).toOption.map fun cs =>
        cellStore.applyChanges (changesetToNexus cs).1 (sampleAddress, resourceKey cellTag))
      = some (some [9]) := by
    decide +kernel
  obtain ⟨M, hM, hcs⟩ := Option.bind_eq_some_iff.mp hchanges
  obtain ⟨cs, hcs, hstored⟩ := Option.map_eq_some_iff.mp hcs
  have hM := Except.toOption_eq_some.mp hM
  have hcs := Except.toOption_eq_some.mp hcs
  obtain ⟨M₀, henter, hrun⟩ := Except.bind_eq_ok.mp hM
  obtain ⟨hmap, -, -, hcommitted, -⟩ := run_effects henter hrun hcs
  exact ⟨M, cs, hM, hcs, hstored, hmap, hcommitted⟩

end NexusMove
