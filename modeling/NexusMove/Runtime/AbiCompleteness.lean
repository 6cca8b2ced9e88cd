import NexusMove.Lib.Resolution
import NexusMove.Runtime.AbiUnambiguous

/-!
# Whether one surface has one ABI hash

The other direction: modules that are the same for their callers should have one hash,
however they were compiled. Neither private code nor the order of definitions is in the
hash. Struct references are, as indices into a table that a compiler may number anew.

* `SameIndices` — equal surfaces are written with equal indices.
* `abiHash_complete_iff` — when one surface means one hash.
* `renumbering_changes_hash` — a module whose struct handles are swapped.
-/

namespace NexusMove

open Resolution (Formal)

/-! ## Types and their references -/

namespace SignatureTokenOf

variable {ι κ : Type}

mutual

/-- Renaming the references of a type renames its list of them. -/
theorem refs_map (f : ι → κ) : ∀ t : SignatureTokenOf ι, refs (map f t) = (refs t).map f
  | bool | u8 | u16 | u32 | u64 | u128 | u256 | address | signer | typeParameter _ => rfl
  | vector t => refs_map f t
  | reference t => refs_map f t
  | mutableReference t => refs_map f t
  | struct i => rfl
  | structInstantiation i ts => congrArg (f i :: ·) (refsList_mapList f ts)
  | function ps rs a => by
    rw [map, refs, refs, refsList_mapList f ps, refsList_mapList f rs, List.map_append]

theorem refsList_mapList (f : ι → κ) :
    ∀ ts : List (SignatureTokenOf ι), refsList (mapList f ts) = (refsList ts).map f
  | [] => rfl
  | t :: ts => by
    rw [mapList, refsList, refsList, refs_map f t, refsList_mapList f ts, List.map_append]

end

/-- Types that resolve to one type refer equally often. -/
theorem length_refs_eq {f g : ι → κ} {t t' : SignatureTokenOf ι} (h : map f t = map g t') :
    (refs t).length = (refs t').length := by
  have hrefs := congrArg (fun t => (refs t).length) h
  simpa only [refs_map, List.length_map] using hrefs

theorem length_refsList_eq {f g : ι → κ} {ts ts' : List (SignatureTokenOf ι)}
    (h : mapList f ts = mapList g ts') : (refsList ts).length = (refsList ts').length := by
  have hrefs := congrArg (fun ts => (refsList ts).length) h
  simpa only [refsList_mapList, List.length_map] using hrefs

mutual

/-- **Types.** A type is what it resolves to, with its references. -/
theorem eq_of_refs (f g : ι → κ) : ∀ t t' : SignatureTokenOf ι, map f t = map g t' →
    refs t = refs t' → t = t'
  -- a type without parts is the one it resolves to
  | bool, t', h, _ | u8, t', h, _ | u16, t', h, _ | u32, t', h, _ | u64, t', h, _ | u128, t', h, _
  | u256, t', h, _ | address, t', h, _ | signer, t', h, _ | typeParameter _, t', h, _ => by
    cases t' <;> cases h
    rfl
  | vector t, t', h, hr => by
    cases t' with
    | vector t' => exact congrArg _ (eq_of_refs f g t t' (by simpa [map] using h) hr)
    | _ => simp [map] at h
  | reference t, t', h, hr => by
    cases t' with
    | reference t' => exact congrArg _ (eq_of_refs f g t t' (by simpa [map] using h) hr)
    | _ => simp [map] at h
  | mutableReference t, t', h, hr => by
    cases t' with
    | mutableReference t' => exact congrArg _ (eq_of_refs f g t t' (by simpa [map] using h) hr)
    | _ => simp [map] at h
  | struct i, t', h, hr => by
    cases t' with
    | struct j => exact congrArg _ (List.cons.inj hr).1
    | _ => simp [map] at h
  | structInstantiation i ts, t', h, hr => by
    cases t' with
    | structInstantiation j ts' =>
      simp only [map, structInstantiation.injEq] at h
      obtain ⟨rfl, hargs⟩ := List.cons.inj hr
      rw [list_eq_of_refs f g ts ts' h.2 hargs]
    | _ => simp [map] at h
  | function ps rs a, t', h, hr => by
    cases t' with
    | function ps' rs' a' =>
      simp only [map, function.injEq] at h
      obtain ⟨hps, hrs, rfl⟩ := h
      -- the references of the parameters end where those of the results begin
      obtain ⟨hp, hres⟩ := List.append_inj hr (length_refsList_eq hps)
      rw [list_eq_of_refs f g ps ps' hps hp, list_eq_of_refs f g rs rs' hrs hres]
    | _ => simp [map] at h

theorem list_eq_of_refs (f g : ι → κ) : ∀ ts ts' : List (SignatureTokenOf ι),
    mapList f ts = mapList g ts' → refsList ts = refsList ts' → ts = ts'
  | [], ts', h, _ => by
    cases ts' with
    | nil => rfl
    | cons t' ts' => cases h
  | t :: ts, ts', h, hr => by
    cases ts' with
    | nil => cases h
    | cons t' ts' =>
      simp only [mapList, List.cons.injEq] at h
      obtain ⟨hhead, htail⟩ := List.append_inj hr (length_refs_eq h.1)
      rw [eq_of_refs f g t t' h.1 hhead, list_eq_of_refs f g ts ts' h.2 htail]

end

theorem formal_map (f g : ι → κ) : Formal (map f) (map g) refs :=
  ⟨fun _ _ h => length_refs_eq h, eq_of_refs f g⟩

end SignatureTokenOf

/-! ## Layouts and their references -/

namespace FieldsEntryOf

variable {ι κ : Type}

theorem formal_mapField (f g : ι → κ) :
    Formal (mapField f) (mapField g) fun e => e.signature.refs where
  length_eq a b h := SignatureTokenOf.length_refs_eq (congrArg FieldEntryOf.signature h)
  eq_of_refs := by
    intro a b h hrefs
    have hname := congrArg FieldEntryOf.name h
    have hsignature : a.signature = b.signature :=
      SignatureTokenOf.eq_of_refs f g _ _ (congrArg FieldEntryOf.signature h) hrefs
    exact FieldEntryOf.ext hname hsignature

theorem formal_mapVariant (f g : ι → κ) :
    Formal (mapVariant f) (mapVariant g) fun v => v.fields.flatMap fun e => e.signature.refs where
  length_eq a b h := (formal_mapField f g).list.length_eq _ _ (congrArg VariantEntryOf.fields h)
  eq_of_refs := by
    intro a b h hrefs
    have hname := congrArg VariantEntryOf.name h
    have hfields : a.fields = b.fields :=
      (formal_mapField f g).list.eq_of_refs _ _ (congrArg VariantEntryOf.fields h) hrefs
    exact VariantEntryOf.ext hname hfields

/-- The references of an enumeration are those of its variants, in order. -/
theorem refs_declaredVariants (variants : List (VariantEntryOf ι)) :
    refs (declaredVariants variants)
      = variants.flatMap fun v => v.fields.flatMap fun e => e.signature.refs :=
  List.flatMap_assoc

/-- **Layouts.** A layout is what it resolves to, with its references. -/
theorem eq_of_refs (f g : ι → κ) {e e' : FieldsEntryOf ι} (h : map f e = map g e')
    (hrefs : e.refs = e'.refs) : e = e' := by
  cases e with
  | native =>
    cases e' with
    | native => rfl
    | _ => cases h
  | declared fields =>
    cases e' with
    | declared fields' =>
      have hfields : fields.map (mapField f) = fields'.map (mapField g) := by simpa [map] using h
      exact congrArg _ ((formal_mapField f g).list.eq_of_refs _ _ hfields hrefs)
    | _ => cases h
  | declaredVariants variants =>
    cases e' with
    | declaredVariants variants' =>
      have hvariants : variants.map (mapVariant f) = variants'.map (mapVariant g) := by
        simpa [map] using h
      rw [refs_declaredVariants, refs_declaredVariants] at hrefs
      exact congrArg _ ((formal_mapVariant f g).list.eq_of_refs _ _ hvariants hrefs)
    | _ => cases h

end FieldsEntryOf

/-! ## Entries -/

namespace CompiledModule

variable {m₁ m₂ : CompiledModule}

/-- **One function.** What an entry has on top of a surface. -/
theorem functionEntry_eq_iff {f g : FunctionDefinition}
    (h : m₁.functionSurface f = m₂.functionSurface g) :
    m₁.functionEntry f = m₂.functionEntry g ↔
      (m₁.functionEntry f).refs = (m₂.functionEntry g).refs := by
  refine ⟨congrArg FunctionEntry.refs, fun hrefs => ?_⟩
  -- parameters and results are compared as one list, and then cut at the length of the parameters
  have hparams := congrArg FunctionSurface.params h
  have hret := congrArg FunctionSurface.ret h
  have hlists := (SignatureTokenOf.formal_map m₁.resolveStruct m₂.resolveStruct).list.eq_of_refs
    ((m₁.functionEntry f).params ++ (m₁.functionEntry f).ret)
    ((m₂.functionEntry g).params ++ (m₂.functionEntry g).ret)
    (by rw [List.map_append, List.map_append]; exact congrArg₂ _ hparams hret) hrefs
  have hlength := congrArg List.length hparams
  simp only [functionSurface, List.length_map] at hlength
  obtain ⟨hp, hr⟩ := List.append_inj hlists hlength
  have hname := congrArg FunctionSurface.name h
  have hvisibility := congrArg FunctionSurface.visibility h
  have hentry := congrArg FunctionSurface.isEntry h
  exact FunctionEntry.ext hname hvisibility hentry hp hr

/-- **One struct.** What an entry has on top of a surface. -/
theorem structEntry_eq_iff {s t : StructDefinition} (h : m₁.structSurface s = m₂.structSurface t) :
    m₁.structEntry s = m₂.structEntry t ↔
      (m₁.structEntry s).fields.refs = (m₂.structEntry t).fields.refs := by
  refine ⟨congrArg fun e : StructEntry => e.fields.refs, fun hrefs => ?_⟩
  have hfields := FieldsEntryOf.eq_of_refs _ _ (congrArg StructSurface.fields h) hrefs
  have hname := congrArg StructSurface.name h
  have habilities := congrArg StructSurface.abilities h
  exact StructEntry.ext hname habilities hfields

/-- Functions and structs with one surface refer to the structs in it by the same indices. -/
structure SameIndices (m₁ m₂ : CompiledModule) : Prop where
  functions : ∀ f ∈ m₁.visibleFunctions, ∀ g ∈ m₂.visibleFunctions,
    m₁.functionSurface f = m₂.functionSurface g →
      (m₁.functionEntry f).refs = (m₂.functionEntry g).refs
  structs : ∀ s ∈ m₁.structDefs, ∀ t ∈ m₂.structDefs, m₁.structSurface s = m₂.structSurface t →
    (m₁.structEntry s).fields.refs = (m₂.structEntry t).fields.refs

theorem SameIndices.sameEntries (h : SameIndices m₁ m₂) (hs : SameSurface m₁ m₂) :
    SameEntries m₁ m₂ where
  functions := mem_surfaces_iff hs.functions fun f hf g hg heq =>
    (functionEntry_eq_iff heq).mpr (h.functions f hf g hg heq)
  structs := mem_surfaces_iff hs.structs fun s hs t ht heq =>
    (structEntry_eq_iff heq).mpr (h.structs s hs t ht heq)

/-- Equal entries refer by equal indices, where names are not used twice. -/
theorem SameEntries.sameIndices (h : SameEntries m₁ m₂) (hd : m₂.DistinctNames) :
    SameIndices m₁ m₂ where
  -- one surface has one name, and distinct names pick out one entry
  functions _ hf _ hg heq := (functionEntry_eq_iff heq).mp <|
    surface_eq_of_name FunctionEntry.name h.functions hd.visible hf hg
      (congrArg FunctionSurface.name heq)
  structs _ hs _ ht heq := (structEntry_eq_iff heq).mp <|
    surface_eq_of_name StructEntry.name h.structs hd.structs hs ht
      (congrArg StructSurface.name heq)

end CompiledModule

/-! ## Completeness of the hash -/

section Completeness

open CompiledModule

/-- Modules with one self id and one surface have one hash. -/
def AbiHashComplete (blake3 : Bytes → HashValue) (m₁ m₂ : CompiledModule) : Prop :=
  m₁.selfId = m₂.selfId → SameSurface m₁ m₂ →
    computeModuleAbiHash blake3 m₁ = computeModuleAbiHash blake3 m₂

/-- Where self id and surface are the same, the surface is written with the same indices. -/
def IndicesKept (m₁ m₂ : CompiledModule) : Prop :=
  m₁.selfId = m₂.selfId → SameSurface m₁ m₂ → SameIndices m₁ m₂

/-- **Completeness.** For distinctly named modules, one surface means one hash where the surface is
written with the same struct indices, whatever else differs between the modules. For modules within
the limits whose preimages do not collide, it does so only there. -/
theorem abiHash_complete_iff {blake3 : Bytes → HashValue} {m₁ m₂ : CompiledModule}
    (hd₁ : m₁.DistinctNames) (hd₂ : m₂.DistinctNames) :
    (IndicesKept m₁ m₂ → AbiHashComplete blake3 m₁ m₂) ∧
      (m₁.WithinLimits → m₂.WithinLimits →
        (blake3 m₁.abiPreimage = blake3 m₂.abiPreimage → m₁.abiPreimage = m₂.abiPreimage) →
        AbiHashComplete blake3 m₁ m₂ → IndicesKept m₁ m₂) := by
  constructor
  · -- the same surface with the same indices is the same entries, written in one order
    intro hkept hself hsurface
    have hentries := (hkept hself hsurface).sameEntries hsurface
    exact congrArg blake3 (hentries.abiPreimage_eq hd₁ hd₂)
  · intro h₁ h₂ hinj hcomplete hself hsurface
    have hpreimage := hinj (hcomplete hself hsurface)
    exact (sameEntries_of_abiPreimage_eq h₁.legible h₂.legible hpreimage).sameIndices hd₂

end Completeness

theorem sampleRich_distinctNames {functionDefs : List FunctionDefinition}
    (h : (functionDefs.map (sampleRich []).functionName).Nodup) :
    (sampleRich functionDefs).DistinctNames :=
  ⟨h, List.nodup_singleton _⟩

theorem abiHash_complete_iff_sampleRich :
    AbiHashComplete sampleVendor.blake3 (sampleRich [definitionF, definitionG])
        (sampleRich [definitionG, definitionF]) ↔
      IndicesKept (sampleRich [definitionF, definitionG]) (sampleRich [definitionG, definitionF]) := by
  have hd₁ : (sampleRich [definitionF, definitionG]).DistinctNames :=
    sampleRich_distinctNames (by decide)
  have hd₂ : (sampleRich [definitionG, definitionF]).DistinctNames :=
    sampleRich_distinctNames (by decide)
  constructor
  · refine (abiHash_complete_iff hd₁ hd₂).2 (sampleRich_withinLimits rfl)
      (sampleRich_withinLimits rfl) fun _ => rfl
  · exact (abiHash_complete_iff hd₁ hd₂).1

/-! ### Two numberings of one module

`module 0xCAFE::a { struct S has drop { x: u64 } struct T has drop { x: u64 } public fun f(s: S) {} }`,
with the handles of `S` and `T` in either order. -/

def sampleHandles (first second : Nat) (indexS indexT : UInt16) : CompiledModule := { sampleA with
  identifiers := [⟨"a"⟩, ⟨"f"⟩, ⟨"S"⟩, ⟨"T"⟩, ⟨"x"⟩]
  structHandles :=
    [ { module := 0, name := first, abilities := ⟨2⟩, typeParameters := [] },
      { module := 0, name := second, abilities := ⟨2⟩, typeParameters := [] } ]
  functionHandles := [{ module := 0, name := 1, parameters := 1, returns := 0, typeParameters := [] }]
  signatures := [[], [.struct indexS]]
  structDefs :=
    [ { structHandle := indexS.toNat, fieldInformation := .declared [{ name := 4, signature := .u64 }] },
      { structHandle := indexT.toNat, fieldInformation := .declared [{ name := 4, signature := .u64 }] } ] }

def renumberedDigests : List (Bytes × HashValue) :=
  [ ((sampleHandles 2 3 0 1).abiPreimage,
      ⟨[16, 141, 243, 90, 66, 52, 181, 184, 225, 173, 99, 168, 182, 253, 163, 209, 107, 116, 177, 1,
        10, 246, 16, 134, 207, 84, 77, 38, 98, 83, 26, 191], rfl⟩),
    ((sampleHandles 3 2 1 0).abiPreimage,
      ⟨[36, 24, 73, 104, 168, 32, 108, 6, 147, 105, 220, 97, 17, 166, 129, 154, 212, 86, 247, 76, 104,
        129, 11, 251, 60, 222, 224, 175, 156, 228, 29, 173], rfl⟩) ]

/-- Swapping the two handles changes nothing but an index, and the hash. -/
theorem renumbering_changes_hash :
    ¬ AbiHashComplete (Vendor.ofTables [] renumberedDigests []).blake3 (sampleHandles 2 3 0 1)
      (sampleHandles 3 2 1 0) := by
  intro hcomplete
  have hsurface : CompiledModule.SameSurface (sampleHandles 2 3 0 1) (sampleHandles 3 2 1 0) :=
    ⟨fun _ => Iff.rfl, fun _ => Iff.rfl⟩
  have hhash := hcomplete rfl hsurface
  exact absurd hhash (by decide +kernel)

end NexusMove
