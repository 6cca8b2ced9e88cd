import Mathlib.Data.List.GetD
import NexusMove.Runtime.AbiEncoding
import NexusMove.Runtime.Lookup

/-!
# What one ABI hash says of two modules

What a caller sees of a module is more than the entries the hash is written from. The type
parameters of functions and structs are not in them, and struct references are in them as
indices, which each of the two modules resolves by its own table.

* `SameSurface` — what two modules have in common for their callers.
* `SurfaceDetermined` — equal entries also agree on what is not written in them.
* `abiHash_sound_iff` — when one hash means one surface.
-/

namespace NexusMove

/-! ## Resolved types -/

namespace SignatureTokenOf

variable {ι κ : Type}

mutual

def refs : SignatureTokenOf ι → List ι
  | vector t => refs t
  | function ps rs _ => refsList ps ++ refsList rs
  | struct i => [i]
  | structInstantiation i ts => i :: refsList ts
  | reference t => refs t
  | mutableReference t => refs t
  | _ => []

def refsList : List (SignatureTokenOf ι) → List ι
  | [] => []
  | t :: ts => refs t ++ refsList ts

end

mutual

/-- **Resolving.** Two ways to resolve references agree on a type when they agree on its
references. -/
theorem map_eq_map_iff (f g : ι → κ) :
    ∀ t : SignatureTokenOf ι, map f t = map g t ↔ ∀ i ∈ refs t, f i = g i
  | bool | u8 | u16 | u32 | u64 | u128 | u256 | address | signer | typeParameter _ => by
    simp [map, refs]
  | vector t => by simp [map, refs, map_eq_map_iff f g t]
  | reference t => by simp [map, refs, map_eq_map_iff f g t]
  | mutableReference t => by simp [map, refs, map_eq_map_iff f g t]
  | struct i => by simp [map, refs]
  | structInstantiation i ts => by simp [map, refs, mapList_eq_mapList_iff f g ts]
  | function ps rs a => by
    simp only [map, refs, function.injEq, and_true, mapList_eq_mapList_iff f g ps,
      mapList_eq_mapList_iff f g rs, List.mem_append, or_imp, forall_and]

theorem mapList_eq_mapList_iff (f g : ι → κ) :
    ∀ ts : List (SignatureTokenOf ι), mapList f ts = mapList g ts ↔ ∀ i ∈ refsList ts, f i = g i
  | [] => by simp [mapList, refsList]
  | t :: ts => by
    simp only [mapList, refsList, List.cons.injEq, map_eq_map_iff f g t,
      mapList_eq_mapList_iff f g ts, List.mem_append, or_imp, forall_and]

end

end SignatureTokenOf

namespace FieldsEntryOf

variable {ι κ : Type}

def mapField (f : ι → κ) (e : FieldEntryOf ι) : FieldEntryOf κ where
  name := e.name
  signature := e.signature.map f

def mapVariant (f : ι → κ) (v : VariantEntryOf ι) : VariantEntryOf κ where
  name := v.name
  fields := v.fields.map (mapField f)

def map (f : ι → κ) : FieldsEntryOf ι → FieldsEntryOf κ
  | native => native
  | declared fields => declared (fields.map (mapField f))
  | declaredVariants variants => declaredVariants (variants.map (mapVariant f))

def allFields : FieldsEntryOf ι → List (FieldEntryOf ι)
  | native => []
  | declared fields => fields
  | declaredVariants variants => variants.flatMap VariantEntryOf.fields

def refs (e : FieldsEntryOf ι) : List ι := e.allFields.flatMap fun f => f.signature.refs

/-- Two namings agree on a field if they agree on what it refers to. -/
theorem mapField_eq_iff (f g : ι → κ) (e : FieldEntryOf ι) :
    mapField f e = mapField g e ↔ ∀ i ∈ e.signature.refs, f i = g i := by
  simp [mapField, SignatureTokenOf.map_eq_map_iff]

/-- And on a variant if they agree on its fields. -/
theorem mapVariant_eq_iff (f g : ι → κ) (v : VariantEntryOf ι) :
    mapVariant f v = mapVariant g v ↔ ∀ e ∈ v.fields, mapField f e = mapField g e := by
  simp [mapVariant]

theorem map_eq_map_iff (f g : ι → κ) (e : FieldsEntryOf ι) :
    map f e = map g e ↔ ∀ i ∈ e.refs, f i = g i := by
  have hfields : map f e = map g e ↔ ∀ x ∈ e.allFields, mapField f x = mapField g x := by
    cases e with
    | native => simp [map, allFields]
    | declared fields => simp [map, allFields]
    | declaredVariants variants =>
      simp only [map, allFields, declaredVariants.injEq, List.map_inj_left, mapVariant_eq_iff,
        List.mem_flatMap, forall_exists_index, and_imp]
      exact ⟨fun h x v hv hx => h v hv x hx, fun h v hv x hx => h x v hv hx⟩
  rw [hfields]
  simp only [mapField_eq_iff, refs, List.mem_flatMap, forall_exists_index, and_imp]
  exact ⟨fun h i x hx hi => h x hx i hi, fun h x hx i hi => h i x hx hi⟩

end FieldsEntryOf

/-! ## Surfaces -/

/-- What a caller sees of a function. -/
structure FunctionSurface where
  name : Identifier
  visibility : Visibility
  isEntry : Bool
  typeParameters : List AbilitySet
  params : List (SignatureTokenOf StructIdentifier)
  ret : List (SignatureTokenOf StructIdentifier)

/-- What a caller sees of a struct. -/
structure StructSurface where
  name : Identifier
  abilities : AbilitySet
  typeParameters : List StructTypeParameter
  fields : FieldsEntryOf StructIdentifier

/-- What the signature of a function refers to. -/
def FunctionEntry.refs (e : FunctionEntry) : List UInt16 :=
  (e.params ++ e.ret).flatMap SignatureTokenOf.refs

namespace CompiledModule

section Surface

variable (m : CompiledModule)

/-- What the hash leaves out of a function. -/
def functionTypeParameters (f : FunctionDefinition) : List AbilitySet :=
  (m.functionHandleAt f.function).typeParameters

/-- What the hash leaves out of a struct. -/
def structTypeParameters (s : StructDefinition) : List StructTypeParameter :=
  (m.structHandleAt s.structHandle).typeParameters

def functionSurface (f : FunctionDefinition) : FunctionSurface :=
  let e := m.functionEntry f
  { name := e.name
    visibility := e.visibility
    isEntry := e.isEntry
    typeParameters := m.functionTypeParameters f
    params := e.params.map (SignatureTokenOf.map m.resolveStruct)
    ret := e.ret.map (SignatureTokenOf.map m.resolveStruct) }

def structSurface (s : StructDefinition) : StructSurface :=
  let e := m.structEntry s
  { name := e.name
    abilities := e.abilities
    typeParameters := m.structTypeParameters s
    fields := e.fields.map m.resolveStruct }

/-- No two functions and no two structs of a module have one name. -/
structure DistinctNames : Prop where
  functions : (m.functionDefs.map m.functionName).Nodup
  structs : (m.structDefs.map m.structName).Nodup

end Surface

/-- The two modules have the same functions and structs for their callers. -/
structure SameSurface (m₁ m₂ : CompiledModule) : Prop where
  functions : ∀ x, x ∈ m₁.visibleFunctions.map m₁.functionSurface ↔
    x ∈ m₂.visibleFunctions.map m₂.functionSurface
  structs : ∀ x, x ∈ m₁.structDefs.map m₁.structSurface ↔ x ∈ m₂.structDefs.map m₂.structSurface

/-- The two modules agree on what the hash is written from: names, visibilities, entry flags and
abilities, and types with their references left as indices. -/
structure SameEntries (m₁ m₂ : CompiledModule) : Prop where
  functions : ∀ e, e ∈ m₁.visibleFunctions.map m₁.functionEntry ↔
    e ∈ m₂.visibleFunctions.map m₂.functionEntry
  structs : ∀ e, e ∈ m₁.structDefs.map m₁.structEntry ↔ e ∈ m₂.structDefs.map m₂.structEntry

/-- Functions and structs with one entry also have the same type parameters, and the indices in
the entry refer to the same structs. -/
structure SurfaceDetermined (m₁ m₂ : CompiledModule) : Prop where
  functions : ∀ f ∈ m₁.visibleFunctions, ∀ g ∈ m₂.visibleFunctions,
    m₁.functionEntry f = m₂.functionEntry g →
      m₁.functionTypeParameters f = m₂.functionTypeParameters g ∧
        ∀ i ∈ (m₁.functionEntry f).refs, m₁.resolveStruct i = m₂.resolveStruct i
  structs : ∀ s ∈ m₁.structDefs, ∀ t ∈ m₂.structDefs, m₁.structEntry s = m₂.structEntry t →
    m₁.structTypeParameters s = m₂.structTypeParameters t ∧
      ∀ i ∈ (m₁.structEntry s).fields.refs, m₁.resolveStruct i = m₂.resolveStruct i

variable {m₁ m₂ : CompiledModule}

/-- **One function.** What a surface has on top of an entry. -/
theorem functionSurface_eq_iff {f g : FunctionDefinition}
    (h : m₁.functionEntry f = m₂.functionEntry g) :
    m₁.functionSurface f = m₂.functionSurface g ↔
      m₁.functionTypeParameters f = m₂.functionTypeParameters g ∧
        ∀ i ∈ (m₁.functionEntry f).refs, m₁.resolveStruct i = m₂.resolveStruct i := by
  simp only [functionSurface, ← h, FunctionSurface.mk.injEq, true_and, List.map_inj_left,
    SignatureTokenOf.map_eq_map_iff, FunctionEntry.refs, List.mem_flatMap, List.mem_append,
    forall_exists_index, and_imp]
  refine and_congr_right fun _ => ⟨?_, fun hrefs => ⟨?_, ?_⟩⟩
  · rintro ⟨hparams, hret⟩ i t ht hi
    exact ht.elim (fun ht => hparams t ht i hi) fun ht => hret t ht i hi
  · exact fun t ht i hi => hrefs i t (.inl ht) hi
  · exact fun t ht i hi => hrefs i t (.inr ht) hi

/-- **One struct.** What a surface has on top of an entry. -/
theorem structSurface_eq_iff {s t : StructDefinition} (h : m₁.structEntry s = m₂.structEntry t) :
    m₁.structSurface s = m₂.structSurface t ↔
      m₁.structTypeParameters s = m₂.structTypeParameters t ∧
        ∀ i ∈ (m₁.structEntry s).fields.refs, m₁.resolveStruct i = m₂.resolveStruct i := by
  simp only [structSurface, ← h, StructSurface.mk.injEq, true_and, FieldsEntryOf.map_eq_map_iff]

/-! ## From entries to surfaces and back -/

section Agree

variable {α β γ ν : Type} {xs ys : List α} {entry₁ entry₂ : α → β} {surface₁ surface₂ : α → γ}

/-- Where equal entries have equal surfaces, the same entries are the same surfaces. -/
theorem mem_surfaces_iff (hentries : ∀ e, e ∈ xs.map entry₁ ↔ e ∈ ys.map entry₂)
    (hagree : ∀ f ∈ xs, ∀ g ∈ ys, entry₁ f = entry₂ g → surface₁ f = surface₂ g) (x : γ) :
    x ∈ xs.map surface₁ ↔ x ∈ ys.map surface₂ := by
  simp only [List.mem_map] at hentries ⊢
  constructor
  · rintro ⟨f, hf, rfl⟩
    obtain ⟨g, hg, heq⟩ := (hentries (entry₁ f)).mp ⟨f, hf, rfl⟩
    exact ⟨g, hg, (hagree f hf g hg heq.symm).symm⟩
  · rintro ⟨g, hg, rfl⟩
    obtain ⟨f, hf, heq⟩ := (hentries (entry₂ g)).mpr ⟨g, hg, rfl⟩
    exact ⟨f, hf, hagree f hf g hg heq⟩

/-- Among the same surfaces, a name that only one of them has belongs to one surface. -/
theorem surface_eq_of_name (n : γ → ν)
    (hsurfaces : ∀ x, x ∈ xs.map surface₁ ↔ x ∈ ys.map surface₂)
    (hdistinct : (ys.map fun g => n (surface₂ g)).Nodup) {f g : α} (hf : f ∈ xs) (hg : g ∈ ys)
    (hname : n (surface₁ f) = n (surface₂ g)) : surface₁ f = surface₂ g := by
  obtain ⟨g', hg', heq⟩ := List.mem_map.mp ((hsurfaces _).mp (List.mem_map_of_mem hf))
  have hgg : g' = g := List.inj_on_of_nodup_map hdistinct hg' hg (by rw [heq, hname])
  rw [← heq, hgg]

end Agree

/-- Where the entries are the same, only what they leave open can differ. -/
theorem SurfaceDetermined.sameSurface (h : SurfaceDetermined m₁ m₂) (he : SameEntries m₁ m₂) :
    SameSurface m₁ m₂ where
  functions := mem_surfaces_iff he.functions fun f hf g hg heq =>
    (functionSurface_eq_iff heq).mpr (h.functions f hf g hg heq)
  structs := mem_surfaces_iff he.structs fun s hs t ht heq =>
    (structSurface_eq_iff heq).mpr (h.structs s hs t ht heq)

/-- The visible functions are some of the functions. -/
theorem DistinctNames.visible {m : CompiledModule} (h : m.DistinctNames) :
    (m.visibleFunctions.map m.functionName).Nodup :=
  h.functions.sublist (List.filter_sublist.map _)

/-- With distinct names, one entry is one function. -/
theorem SameSurface.determined (h : SameSurface m₁ m₂) (hd : m₂.DistinctNames) :
    SurfaceDetermined m₁ m₂ where
  -- functions with one entry have one name, and distinct names pick out one surface
  functions _ hf _ hg heq := (functionSurface_eq_iff heq).mp <|
    surface_eq_of_name FunctionSurface.name h.functions hd.visible hf hg
      (congrArg FunctionEntry.name heq)
  structs _ hs _ ht heq := (structSurface_eq_iff heq).mp <|
    surface_eq_of_name StructSurface.name h.structs hd.structs hs ht
      (congrArg StructEntry.name heq)

/-! ## From hashes to entries and back -/

/-- What the deserializer and the bounds checker make sure of, as far as the hash looks: names,
types and abilities are well formed, indices are in their tables, and counts fit a `u32`. -/
structure WellFormed (m : CompiledModule) : Prop where
  identifiers : ∀ n ∈ m.identifiers, n.Fits
  signatures : ∀ ts ∈ m.signatures, tokensFit ts = true
  functionHandles : ∀ h ∈ m.functionHandles, h.name < m.identifiers.length
  structHandles : ∀ h ∈ m.structHandles, h.name < m.identifiers.length ∧ h.abilities.bits ≤ 15
  functionDefs : ∀ f ∈ m.functionDefs, f.function < m.functionHandles.length
  structDefs : ∀ s ∈ m.structDefs, s.structHandle < m.structHandles.length
  layouts : ∀ s ∈ m.structDefs, (m.fieldsEntry s.fieldInformation).Fits
  functionCount : m.functionDefs.length < 2 ^ 32
  structCount : m.structDefs.length < 2 ^ 32

/-- No length that the preimage writes in front of a token list or a layout overflows. -/
structure LengthsFit (m : CompiledModule) : Prop where
  functions : ∀ f ∈ m.visibleFunctions, (m.functionEntry f).LengthsFit
  structs : ∀ s ∈ m.structDefs, (m.structEntry s).LengthsFit

section WellFormed

variable {m : CompiledModule}

/-- An index within the table gives a name within the limits. -/
theorem WellFormed.identifierAt (h : m.WellFormed) {i : Nat} (hi : i < m.identifiers.length) :
    (m.identifierAt i).Fits := by
  rw [CompiledModule.identifierAt, List.getD_eq_getElem _ _ hi]
  exact h.identifiers _ (List.getElem_mem hi)

/-- An index outside of the table gives the empty signature, which fits. -/
theorem WellFormed.signatureAt (h : m.WellFormed) (i : Nat) :
    tokensFit (m.signatureAt i) = true := by
  rw [CompiledModule.signatureAt, List.getD_eq_getElem?_getD]
  cases hsig : m.signatures[i]? with
  | none => rfl
  | some ts => exact h.signatures ts (List.mem_of_getElem? hsig)

/-- The entry of a function of the module fits. -/
theorem WellFormed.functionEntry (h : m.WellFormed) {f : FunctionDefinition}
    (hf : f ∈ m.functionDefs) : (m.functionEntry f).Fits where
  name := h.identifierAt <| by
    rw [functionHandleAt, List.getD_eq_getElem _ _ (h.functionDefs f hf)]
    exact h.functionHandles _ (List.getElem_mem _)
  params := h.signatureAt _
  ret := h.signatureAt _

/-- The handle of a struct of the module is in the table. -/
theorem WellFormed.structHandleAt (h : m.WellFormed) {s : StructDefinition}
    (hs : s ∈ m.structDefs) : m.structHandleAt s.structHandle ∈ m.structHandles := by
  rw [CompiledModule.structHandleAt, List.getD_eq_getElem _ _ (h.structDefs s hs)]
  exact List.getElem_mem _

/-- The entry of a struct of the module fits. -/
theorem WellFormed.structEntry (h : m.WellFormed) {s : StructDefinition}
    (hs : s ∈ m.structDefs) : (m.structEntry s).Fits where
  name := h.identifierAt (h.structHandles _ (h.structHandleAt hs)).1
  abilities := (h.structHandles _ (h.structHandleAt hs)).2
  fields := h.layouts s hs

theorem mem_functionEntries {e : FunctionEntry} :
    e ∈ m.functionEntries ↔ e ∈ m.visibleFunctions.map m.functionEntry :=
  mem_sortByName

theorem mem_structEntries {e : StructEntry} :
    e ∈ m.structEntries ↔ e ∈ m.structDefs.map m.structEntry :=
  mem_sortByName

/-- A module within the limits has entries within the limits. -/
theorem WellFormed.entriesFit (h : m.WellFormed) (hl : m.LengthsFit) : m.EntriesFit where
  functionCount := by
    -- only some of the functions are visible
    have hle : m.visibleFunctions.length ≤ m.functionDefs.length := List.length_filter_le ..
    rw [functionEntries, length_sortByName, List.length_map]
    exact Nat.lt_of_le_of_lt hle h.functionCount
  functions e he := by
    obtain ⟨f, hf, rfl⟩ := List.mem_map.mp (mem_functionEntries.mp he)
    exact ⟨h.functionEntry (List.mem_of_mem_filter hf), hl.functions f hf⟩
  structCount := by
    rw [structEntries, length_sortByName, List.length_map]
    exact h.structCount
  structs e he := by
    obtain ⟨s, hs, rfl⟩ := List.mem_map.mp (mem_structEntries.mp he)
    exact ⟨h.structEntry hs, hl.structs s hs⟩

end WellFormed

/-- **Entries.** Modules with one preimage have the same entries. -/
theorem sameEntries_of_abiPreimage_eq (h₁ : m₁.EntriesNamedBy Identifier.Legible)
    (h₂ : m₂.EntriesNamedBy Identifier.Legible) (h : m₁.abiPreimage = m₂.abiPreimage) :
    SameEntries m₁ m₂ := by
  obtain ⟨hfunctions, hstructs⟩ := entries_of_abiPreimage_eq h₁ h₂ h
  exact ⟨fun e => by rw [← mem_functionEntries, ← mem_functionEntries, hfunctions],
    fun e => by rw [← mem_structEntries, ← mem_structEntries, hstructs]⟩

/-- **Preimages.** Modules with the same distinctly named entries have one preimage. -/
theorem SameEntries.abiPreimage_eq (h : SameEntries m₁ m₂) (h₁ : m₁.DistinctNames)
    (h₂ : m₂.DistinctNames) : m₁.abiPreimage = m₂.abiPreimage := by
  have hfunctions : m₁.functionEntries = m₂.functionEntries := by
    -- two sorted lists with the same members and distinct names
    refine sortByName_eq_of_mem_iff ?_ ?_ h.functions
    · rw [List.map_map]
      exact h₁.visible
    · rw [List.map_map]
      exact h₂.visible
  have hstructs : m₁.structEntries = m₂.structEntries := by
    refine sortByName_eq_of_mem_iff ?_ ?_ h.structs
    · rw [List.map_map]
      exact h₁.structs
    · rw [List.map_map]
      exact h₂.structs
  rw [abiPreimage, abiPreimage, hfunctions, hstructs]

end CompiledModule

/-! ## Soundness of the hash -/

section Soundness

open CompiledModule

/-- Modules with one hash have one surface. -/
def AbiHashSound (blake3 : Bytes → HashValue) (m₁ m₂ : CompiledModule) : Prop :=
  computeModuleAbiHash blake3 m₁ = computeModuleAbiHash blake3 m₂ → SameSurface m₁ m₂

/-- Modules that agree on what the hash is written from also agree on the rest of the surface. -/
def AbiHashCovers (m₁ m₂ : CompiledModule) : Prop :=
  SameEntries m₁ m₂ → SurfaceDetermined m₁ m₂

/-- **The ABI hash.** For well-formed modules whose preimages do not collide, one hash means one
surface where equal entries agree on type parameters and on what their indices refer to. For
distinctly named modules it does so only there. -/
theorem abiHash_sound_iff {blake3 : Bytes → HashValue} {m₁ m₂ : CompiledModule}
    (h₁ : m₁.WellFormed) (h₂ : m₂.WellFormed)
    (hinj : blake3 m₁.abiPreimage = blake3 m₂.abiPreimage → m₁.abiPreimage = m₂.abiPreimage) :
    (m₁.LengthsFit → m₂.LengthsFit → AbiHashCovers m₁ m₂ → AbiHashSound blake3 m₁ m₂) ∧
      (m₁.DistinctNames → m₂.DistinctNames → AbiHashSound blake3 m₁ m₂ → AbiHashCovers m₁ m₂) := by
  constructor
  · -- one hash, one preimage, the same entries; what these leave open is determined
    intro hl₁ hl₂ hcovers hhash
    have hentries : SameEntries m₁ m₂ :=
      sameEntries_of_abiPreimage_eq (h₁.entriesFit hl₁).legible (h₂.entriesFit hl₂).legible (hinj hhash)
    exact (hcovers hentries).sameSurface hentries
  · -- the same entries are written in one order, so the hashes agree
    intro hd₁ hd₂ hsound hentries
    have hhash : computeModuleAbiHash blake3 m₁ = computeModuleAbiHash blake3 m₂ :=
      congrArg blake3 (hentries.abiPreimage_eq hd₁ hd₂)
    exact (hsound hhash).determined hd₂

end Soundness

/-! ### A constraint that is not hashed

`module 0xCAFE::a { public fun f<T>() {} }` and the same module with a constraint on `T`. -/

/-- `f` with one type parameter, constrained or not. -/
def sampleGeneric (constraints : AbilitySet) : CompiledModule := { sampleA with
  functionHandles :=
    [{ module := 0, name := 1, parameters := 0, returns := 0, typeParameters := [constraints] }] }

theorem sampleGeneric_wellFormed (constraints : AbilitySet) :
    (sampleGeneric constraints).WellFormed where
  identifiers := show ∀ n ∈ sampleA.identifiers, n.Fits by decide
  signatures := show ∀ ts ∈ sampleA.signatures, tokensFit ts = true by decide
  functionHandles h hh := by
    obtain rfl := List.mem_singleton.mp hh
    exact Nat.lt_succ_self 1
  structHandles h hh := by cases hh
  functionDefs f hf := by
    obtain rfl := List.mem_singleton.mp hf
    exact Nat.zero_lt_one
  structDefs s hs := by cases hs
  layouts s hs := by cases hs
  functionCount := show sampleA.functionDefs.length < 2 ^ 32 by decide
  structCount := show sampleA.structDefs.length < 2 ^ 32 by decide

theorem sampleGeneric_lengthsFit (constraints : AbilitySet) :
    (sampleGeneric constraints).LengthsFit where
  functions f hf := by
    obtain rfl := List.mem_singleton.mp hf
    exact ⟨show LengthFits [] by decide, show LengthFits [] by decide⟩
  structs s hs := by cases hs

theorem sampleGeneric_distinctNames (constraints : AbilitySet) :
    (sampleGeneric constraints).DistinctNames :=
  ⟨List.nodup_singleton _, List.nodup_nil⟩

/-- The two modules have one hash and different surfaces. -/
theorem abiHash_sound_iff_sampleGeneric :
    AbiHashSound sampleVendor.blake3 (sampleGeneric .empty) (sampleGeneric Ability.copy.toSet) ↔
      AbiHashCovers (sampleGeneric .empty) (sampleGeneric Ability.copy.toSet) := by
  have h := abiHash_sound_iff (sampleGeneric_wellFormed .empty)
    (sampleGeneric_wellFormed Ability.copy.toSet)
    (fun _ : sampleVendor.blake3 _ = sampleVendor.blake3 _ => rfl)
  exact ⟨h.2 (sampleGeneric_distinctNames _) (sampleGeneric_distinctNames _),
    h.1 (sampleGeneric_lengthsFit _) (sampleGeneric_lengthsFit _)⟩

/-- `f<T>` and `f<T: copy>` have one hash. -/
theorem abiHash_drops_constraints :
    (sampleGeneric .empty).WellFormed ∧ (sampleGeneric Ability.copy.toSet).WellFormed ∧
      (sampleGeneric .empty).selfId = (sampleGeneric Ability.copy.toSet).selfId ∧
      (sampleGeneric .empty).abiPreimage = (sampleGeneric Ability.copy.toSet).abiPreimage ∧
      ¬ AbiHashSound sampleVendor.blake3 (sampleGeneric .empty)
        (sampleGeneric Ability.copy.toSet) := by
  refine ⟨sampleGeneric_wellFormed _, sampleGeneric_wellFormed _, rfl, rfl, fun hsound => ?_⟩
  have hsurface := hsound rfl
  have hmem := (hsurface.functions _).mp List.mem_cons_self
  obtain heq := List.mem_singleton.mp hmem
  have hconstraints := congrArg FunctionSurface.typeParameters heq
  exact absurd hconstraints (by decide)

end NexusMove
