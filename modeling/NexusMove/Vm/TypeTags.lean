import NexusMove.Lib.Memo
import NexusMove.Vm.RuntimeTypes

/-!
# From runtime types to type tags

`ty_tag_converter.rs`: a runtime type is converted to a type tag under a limit on
its cost, and the tags of structs are cached for all conversions to come, with
what they cost. Types are compared without what they know of abilities. Costs are
`u64`s, added and multiplied without a check for overflow, so what a hit in the cache
comes to is what the conversion comes to only while the costs fit.

* `tyToTyTagImpl` — the conversion, with its cost and its cache.
* `tyToTyTagPlain` — the same conversion without a cache.
* `TypeCosts.Fits` — no sum of costs up to the limit overflows.
* `tysToTyTags_alike` — one conversion after another, with the cache and without.
* `key_eq_of_tagOfTy` — the tag determines the type.
-/

namespace NexusMove

/-! ## Equality of types -/

deriving instance DecidableEq for AbilityInfo

namespace Ty

mutual

def beq : Ty → Ty → Bool
  | bool, bool | u8, u8 | u16, u16 | u32, u32 | u64, u64 | u128, u128 | u256, u256
  | address, address | signer, signer => true
  | vector a, vector b => beq a b
  | struct i a, struct j b => decide (i = j ∧ a = b)
  | structInstantiation i as a, structInstantiation j bs b =>
    decide (i = j ∧ a = b) && beqList as bs
  | function as rs a, function bs ss b => decide (a = b) && beqList as bs && beqList rs ss
  | reference a, reference b => beq a b
  | mutableReference a, mutableReference b => beq a b
  | tyParam i, tyParam j => decide (i = j)
  | _, _ => false

def beqList : List Ty → List Ty → Bool
  | [], [] => true
  | a :: as, b :: bs => beq a b && beqList as bs
  | _, _ => false

end

mutual

/-- The comparison tells equal types from others. -/
theorem beq_iff : ∀ (a b : Ty), beq a b = true ↔ a = b
  | vector a, b => by cases b <;> simp [beq, beq_iff a]
  | structInstantiation i as a, b => by cases b <;> simp [beq, beqList_iff as]; grind
  | function as rs a, b => by cases b <;> simp [beq, beqList_iff as, beqList_iff rs]; grind
  | reference a, b => by cases b <;> simp [beq, beq_iff a]
  | mutableReference a, b => by cases b <;> simp [beq, beq_iff a]
  | struct i a, b => by cases b <;> simp [beq]
  | tyParam i, b => by cases b <;> simp [beq]
  | bool, b | u8, b | u16, b | u32, b | u64, b | u128, b | u256, b | address, b | signer, b => by
    cases b <;> simp [beq]

theorem beqList_iff : ∀ (as bs : List Ty), beqList as bs = true ↔ as = bs
  | [], [] => by simp [beqList]
  | [], _ :: _ => by simp [beqList]
  | _ :: _, [] => by simp [beqList]
  | a :: as, b :: bs => by simp [beqList, beq_iff a b, beqList_iff as bs]

end

instance : DecidableEq Ty := fun a b => decidable_of_iff _ (beq_iff a b)

mutual

/-- A type without what it knows of abilities, which its comparison ignores. -/
def key : Ty → Ty
  | vector ty => vector ty.key
  | struct idx _ => struct idx (.struct ⟨0⟩)
  | structInstantiation idx tyArgs _ => structInstantiation idx (keys tyArgs) (.struct ⟨0⟩)
  | function args results a => function (keys args) (keys results) a
  | reference ty => reference ty.key
  | mutableReference ty => mutableReference ty.key
  | ty => ty

def keys : List Ty → List Ty
  | [] => []
  | ty :: tys => ty.key :: keys tys

end

mutual

/-- Instances of generic structs have type arguments; the deserializer refuses one without. -/
def isProper : Ty → Bool
  | vector ty => ty.isProper
  | structInstantiation _ tyArgs _ => !tyArgs.isEmpty && areProper tyArgs
  | function args results _ => areProper args && areProper results
  | reference ty => ty.isProper
  | mutableReference ty => ty.isProper
  | _ => true

def areProper : List Ty → Bool
  | [] => true
  | ty :: tys => ty.isProper && areProper tys

end

end Ty

mutual

/-- The structs a type names, those its type arguments name included. -/
def Ty.structs : Ty → List StructIdentifier
  | .vector ty => ty.structs
  | .struct idx _ => [idx]
  | .structInstantiation idx tyArgs _ => idx :: Ty.structsList tyArgs
  | .function args results _ => Ty.structsList args ++ Ty.structsList results
  | .reference ty => ty.structs
  | .mutableReference ty => ty.structs
  | _ => []

/-- The structs in types, in the order in which they are converted. -/
def Ty.structsList : List Ty → List StructIdentifier
  | [] => []
  | ty :: tys => ty.structs ++ Ty.structsList tys

end

/-! ## Conversion -/

/-- The limits of a conversion in the configuration of the VM. -/
structure TypeCosts where
  typeMaxCost : UInt64
  typeBaseCost : UInt64
  typeByteCost : UInt64

/-- `VMConfig::default`: conversions are for free. -/
def TypeCosts.default : TypeCosts where
  typeMaxCost := 0
  typeBaseCost := 0
  typeByteCost := 0

def StatusCode.typeTagLimitExceeded : UInt64 := 4033

/-- The cached tags: by struct and type arguments, the tag and its price. -/
abbrev TypeTagCache := List ((StructIdentifier × List Ty) × (StructTag × UInt64))

namespace TypeTagCache

/-- `get_struct_tag`, by the types as they are compared. -/
def getStructTag (cache : TypeTagCache) (idx : StructIdentifier) (tyArgs : List Ty) :
    Option (StructTag × UInt64) :=
  (cache.find? fun e => e.1 = (idx, Ty.keys tyArgs)).map Prod.snd

/-- `insert_struct_tag`: an entry that is there stays. -/
def insertStructTag (cache : TypeTagCache) (idx : StructIdentifier) (tyArgs : List Ty)
    (priced : StructTag × UInt64) : TypeTagCache :=
  if (cache.getStructTag idx tyArgs).isSome then cache
  else ((idx, Ty.keys tyArgs), priced) :: cache

end TypeTagCache

/-- Conversions that use a cache and a meter of their own. -/
abbrev TagM := Memo VMError TypeTagCache

section Conversion

variable (k : TypeCosts)

/-- The text names what was to be charged and not what had been. -/
def limitExceeded (amount : UInt64) : VMError :=
  partialError StatusCode.typeTagLimitExceeded
    (some ("Exceeded maximum type tag limit of " ++ toString k.typeMaxCost ++ " when charging "
      ++ toString amount))

/-- The error for references and open types. -/
def noTypeTag : VMError := partialError StatusCode.unknownInvariantViolationError none

/-- The size of a struct tag: its address and its names. -/
def structTagSize (idx : StructIdentifier) : Nat :=
  32 + idx.module.name.asBytes.length + idx.name.asBytes.length

/-- What `charge_struct_tag` charges: its size, byte by byte. -/
def structTagCost (idx : StructIdentifier) : UInt64 :=
  UInt64.ofNat (structTagSize idx) * k.typeByteCost

/-- The tag of a struct at the tags of its type arguments. -/
def StructIdentifier.tag (idx : StructIdentifier) (typeArgs : List TypeTag) : StructTag where
  address := idx.module.address
  module := idx.module.name
  name := idx.name
  typeArgs := typeArgs

/-- `struct_name_idx_to_struct_tag_impl`, given the conversion of the type arguments. -/
def structNameIdxToStructTag (idx : StructIdentifier) (tyArgs : List Ty)
    (typeArgs : TagM (List TypeTag)) : TagM StructTag :=
  Memo.memo (limitExceeded k) k.typeMaxCost (fun cache => cache.getStructTag idx tyArgs)
    (fun priced cache => cache.insertStructTag idx tyArgs priced) (do
      let tags ← typeArgs
      Memo.charge (limitExceeded k) k.typeMaxCost (structTagCost k idx)
      return idx.tag tags)

mutual

def tyToTyTagImpl (ty : Ty) : TagM TypeTag := do
  -- every type pays the base cost before anything of it is looked at
  Memo.charge (limitExceeded k) k.typeMaxCost k.typeBaseCost
  match ty with
  | .bool => return .bool
  | .u8 => return .u8
  | .u16 => return .u16
  | .u32 => return .u32
  | .u64 => return .u64
  | .u128 => return .u128
  | .u256 => return .u256
  | .address => return .address
  | .signer => return .signer
  | .vector elem => return .vector (← tyToTyTagImpl elem)
  | .struct idx _ => return .struct (← structNameIdxToStructTag k idx [] (pure []))
  | .structInstantiation idx tyArgs _ =>
    return .struct (← structNameIdxToStructTag k idx tyArgs (tysToTyTagsImpl tyArgs))
  | .function args results abilities =>
    return .function
      { args := ← tysToTyTagsImpl args, results := ← tysToTyTagsImpl results, abilities }
  | .reference _ | .mutableReference _ | .tyParam _ => throw noTypeTag

/-- The types from the left, on one meter. -/
def tysToTyTagsImpl : List Ty → TagM (List TypeTag)
  | [] => return []
  | ty :: tys => return (← tyToTyTagImpl ty) :: (← tysToTyTagsImpl tys)

end

/-- `ty_to_ty_tag`, with the cache before and after it. -/
def tyToTyTag (ty : Ty) (cache : TypeTagCache) : VMResult TypeTag × TypeTagCache :=
  let (outcome, cache) := (tyToTyTagImpl k ty).run 0 cache
  (outcome.map Prod.fst, cache)

/-! ## Without a cache -/

/-- The conversion of a struct that asks no cache. -/
def structTagPlain (idx : StructIdentifier) (typeArgs : Metered VMError (List TypeTag)) :
    Metered VMError StructTag := do
  let tags ← typeArgs
  Metered.charge (limitExceeded k) k.typeMaxCost (structTagCost k idx)
  return idx.tag tags

mutual

def tyToTyTagPlain (ty : Ty) : Metered VMError TypeTag := do
  Metered.charge (limitExceeded k) k.typeMaxCost k.typeBaseCost
  match ty with
  | .bool => return .bool
  | .u8 => return .u8
  | .u16 => return .u16
  | .u32 => return .u32
  | .u64 => return .u64
  | .u128 => return .u128
  | .u256 => return .u256
  | .address => return .address
  | .signer => return .signer
  | .vector elem => return .vector (← tyToTyTagPlain elem)
  | .struct idx _ => return .struct (← structTagPlain k idx (pure []))
  | .structInstantiation idx tyArgs _ =>
    return .struct (← structTagPlain k idx (tysToTyTagsPlain tyArgs))
  | .function args results abilities =>
    return .function
      { args := ← tysToTyTagsPlain args, results := ← tysToTyTagsPlain results, abilities }
  | .reference _ | .mutableReference _ | .tyParam _ => throw noTypeTag

def tysToTyTagsPlain : List Ty → Metered VMError (List TypeTag)
  | [] => return []
  | ty :: tys => return (← tyToTyTagPlain ty) :: (← tysToTyTagsPlain tys)

end

end Conversion

/-! ## What the comparison of types ignores -/

section Plain

variable (k : TypeCosts)

mutual

/-- Types that are compared as equal have the same tag at the same cost. -/
theorem tyToTyTagPlain_key : ∀ ty : Ty, tyToTyTagPlain k ty.key = tyToTyTagPlain k ty
  | .vector ty => by simp only [Ty.key, tyToTyTagPlain, tyToTyTagPlain_key ty]
  | .struct _ _ => by simp only [Ty.key, tyToTyTagPlain]
  | .structInstantiation _ tyArgs _ => by
    simp only [Ty.key, tyToTyTagPlain, tysToTyTagsPlain_keys tyArgs]
  | .function args results _ => by
    simp only [Ty.key, tyToTyTagPlain, tysToTyTagsPlain_keys args, tysToTyTagsPlain_keys results]
  | .reference _ => by simp only [Ty.key, tyToTyTagPlain]
  | .mutableReference _ => by simp only [Ty.key, tyToTyTagPlain]
  | .tyParam _ | .bool | .u8 | .u16 | .u32 | .u64 | .u128 | .u256 | .address | .signer => rfl

/-- The tags of keys are the tags of the types. -/
theorem tysToTyTagsPlain_keys : ∀ tys : List Ty,
    tysToTyTagsPlain k (Ty.keys tys) = tysToTyTagsPlain k tys
  | [] => rfl
  | ty :: tys => by
    simp only [Ty.keys, tysToTyTagsPlain, tyToTyTagPlain_key ty, tysToTyTagsPlain_keys tys]

end

/-- Conversions fail alike if they fail with the same status. -/
abbrev tagStatus : VMError → UInt64 := VMError.majorStatus

/-- Failures at the limit differ in their text only. -/
theorem tagStatus_limitExceeded (p q : UInt64) :
    tagStatus (limitExceeded k p) = tagStatus (limitExceeded k q) := rfl

/-- Costs that fit: twice the limit is a `u64`, and so is the limit with the base cost on top, or
with what the tag of one of these structs costs. -/
structure TypeCosts.Fits (idxs : List StructIdentifier) : Prop where
  limit : 2 * k.typeMaxCost.toNat < UInt64.size
  base : k.typeMaxCost.toNat + k.typeBaseCost.toNat < UInt64.size
  struct : ∀ idx ∈ idxs,
    k.typeMaxCost.toNat + structTagSize idx * k.typeByteCost.toNat < UInt64.size

/-- The default costs fit, whatever the types. -/
theorem TypeCosts.fits_default (idxs : List StructIdentifier) : TypeCosts.default.Fits idxs where
  limit := by decide
  base := by decide
  struct idx _ := by
    have hlimit : TypeCosts.default.typeMaxCost.toNat = 0 := rfl
    have hbyte : TypeCosts.default.typeByteCost.toNat = 0 := rfl
    rw [hlimit, hbyte, Nat.mul_zero]
    decide

section Fits

variable {k} {idxs : List StructIdentifier}

/-- Fewer structs fit as well. -/
theorem TypeCosts.Fits.mono {idxs' : List StructIdentifier} (h : k.Fits idxs) (hsub : idxs' ⊆ idxs) :
    k.Fits idxs' where
  limit := h.limit
  base := h.base
  struct idx hidx := h.struct idx (hsub hidx)

theorem TypeCosts.Fits.left {idxs' : List StructIdentifier} (h : k.Fits (idxs ++ idxs')) :
    k.Fits idxs :=
  h.mono (List.subset_append_left ..)

theorem TypeCosts.Fits.right {idxs' : List StructIdentifier} (h : k.Fits (idxs ++ idxs')) :
    k.Fits idxs' :=
  h.mono (List.subset_append_right ..)

theorem TypeCosts.Fits.tail {idx : StructIdentifier} (h : k.Fits (idx :: idxs)) : k.Fits idxs :=
  h.mono (List.subset_cons_self ..)

/-- Two amounts within the limit do not wrap around when they are added. -/
theorem TypeCosts.Fits.twice (h : k.Fits idxs) : Metered.Fits k.typeMaxCost k.typeMaxCost := by
  have hlimit := h.limit
  unfold Metered.Fits
  omega

/-- The price of a struct of the type fits. -/
theorem TypeCosts.Fits.structTagCost {idx : StructIdentifier} (h : k.Fits (idx :: idxs)) :
    Metered.Fits k.typeMaxCost (structTagCost k idx) := by
  have hidx := h.struct idx (List.mem_cons_self ..)
  have hcost : (NexusMove.structTagCost k idx).toNat
      = structTagSize idx * k.typeByteCost.toNat := by
    unfold NexusMove.structTagCost
    have hroom : structTagSize idx * k.typeByteCost.toNat < UInt64.size := by omega
    rw [UInt64.toNat_mul, UInt64.toNat_ofNat', Nat.mod_mul_mod, Nat.mod_eq_of_lt hroom]
  rw [Metered.Fits, hcost]
  exact hidx

end Fits

/-- Either it ends at the limit or it costs the same from every state of the meter. -/
abbrev UniformTag {α : Type} (x : Metered VMError α) : Prop :=
  Metered.Uniform tagStatus (limitExceeded k) k.typeMaxCost x

variable {k} in
theorem UniformTag.bind {idxs : List StructIdentifier} {α β : Type} {x : Metered VMError α}
    {f : α → Metered VMError β} (hk : k.Fits idxs) (hx : UniformTag k x)
    (hf : ∀ a, UniformTag k (f a)) : UniformTag k (x >>= f) :=
  Metered.Uniform.bind (tagStatus_limitExceeded k) hk.twice hx hf

variable {k} in
open Metered in
theorem structTagPlain_uniform {idx : StructIdentifier} {idxs : List StructIdentifier}
    (hk : k.Fits (idx :: idxs)) {x : Metered VMError (List TypeTag)} (hx : UniformTag k x) :
    UniformTag k (structTagPlain k idx x) :=
  UniformTag.bind hk hx fun _ =>
    UniformTag.bind hk (uniform_charge hk.structTagCost) fun _ => uniform_pure _

mutual

/-- The price of a type does not depend on what was converted before. -/
theorem tyToTyTagPlain_uniform :
    ∀ ty : Ty, k.Fits ty.structs → UniformTag k (tyToTyTagPlain k ty) := by
  open Metered in
  intro ty hk
  unfold tyToTyTagPlain
  -- the base cost is within the limit by itself
  refine UniformTag.bind hk (uniform_charge hk.base) fun _ => ?_
  match ty, hk with
  | .bool, _ | .u8, _ | .u16, _ | .u32, _ | .u64, _ | .u128, _ | .u256, _ | .address, _
  | .signer, _ => exact uniform_pure _
  | .vector elem, hk =>
    exact UniformTag.bind hk (tyToTyTagPlain_uniform elem hk) fun _ => uniform_pure _
  | .struct idx _, hk =>
    exact UniformTag.bind hk (structTagPlain_uniform hk (uniform_pure _)) fun _ => uniform_pure _
  | .structInstantiation idx tyArgs _, hk =>
    exact UniformTag.bind hk
      -- the arguments leave out the struct of the instance itself
      (structTagPlain_uniform hk (tysToTyTagsPlain_uniform tyArgs hk.tail)) fun _ => uniform_pure _
  | .function args results abilities, hk =>
    exact UniformTag.bind hk (tysToTyTagsPlain_uniform args hk.left) fun _ =>
      UniformTag.bind hk (tysToTyTagsPlain_uniform results hk.right) fun _ => uniform_pure _
  | .reference _, _ | .mutableReference _, _ | .tyParam _, _ => exact uniform_throw _

theorem tysToTyTagsPlain_uniform :
    ∀ tys : List Ty, k.Fits (Ty.structsList tys) → UniformTag k (tysToTyTagsPlain k tys)
  | [], _ => Metered.uniform_pure _
  | ty :: tys, hk => by
    rw [tysToTyTagsPlain]
    exact UniformTag.bind hk (tyToTyTagPlain_uniform ty hk.left) fun _ =>
      UniformTag.bind hk (tysToTyTagsPlain_uniform tys hk.right) fun _ => Metered.uniform_pure _

end

/-! ## The cache makes no difference -/

/-- Every entry of the cache is what the conversion without it gives, at its price. -/
def TypeTagCache.Right (cache : TypeTagCache) : Prop :=
  ∀ e ∈ cache, Metered.Costs tagStatus (limitExceeded k) k.typeMaxCost
    (structTagPlain k e.1.1 (tysToTyTagsPlain k e.1.2)) e.2.1 e.2.2

/-- With a cache that is right, the same tag at the same price, and a cache that is right. -/
abbrev AgreesTag {α : Type} (x : TagM α) (y : Metered VMError α) : Prop :=
  Memo.Agrees tagStatus k.typeMaxCost (TypeTagCache.Right k) x y

/-- What a cache that is right holds is what the conversion would have given. -/
theorem TypeTagCache.costs_of_getStructTag {cache : TypeTagCache} (h : cache.Right k)
    {idx : StructIdentifier} {tyArgs : List Ty} {tag : StructTag} {p : UInt64}
    (hget : cache.getStructTag idx tyArgs = some (tag, p)) :
    Metered.Costs tagStatus (limitExceeded k) k.typeMaxCost
      (structTagPlain k idx (tysToTyTagsPlain k tyArgs)) tag p := by
  obtain ⟨e, he, heq⟩ := Option.map_eq_some_iff.mp hget
  have hright := h e (List.mem_of_find?_eq_some he)
  have hkey : e.1 = (idx, Ty.keys tyArgs) := by simpa using List.find?_some he
  rw [hkey, heq, tysToTyTagsPlain_keys] at hright
  exact hright

/-- A tag that was computed just now may be entered. -/
theorem TypeTagCache.right_insertStructTag {cache : TypeTagCache} (h : cache.Right k)
    {idx : StructIdentifier} {tyArgs : List Ty} {tag : StructTag} {p : UInt64}
    (hcosts : Metered.Costs tagStatus (limitExceeded k) k.typeMaxCost
      (structTagPlain k idx (tysToTyTagsPlain k tyArgs)) tag p) :
    (cache.insertStructTag idx tyArgs (tag, p)).Right k := by
  unfold insertStructTag
  -- an entry for the key is there already, and it is right
  split
  · exact h
  · intro e he
    rcases List.mem_cons.mp he with rfl | he
    · -- the entry is kept under the keys of the arguments, whose tags are the same
      rw [tysToTyTagsPlain_keys]
      exact hcosts
    · exact h e he

/-- **One struct.** A hit charges the price of the whole tag at once, a miss part by part. -/
theorem structNameIdxToStructTag_agrees {idx : StructIdentifier} {tyArgs : List Ty}
    (hk : k.Fits (idx :: Ty.structsList tyArgs)) {typeArgs : TagM (List TypeTag)}
    (h : AgreesTag k typeArgs (tysToTyTagsPlain k tyArgs)) :
    AgreesTag k (structNameIdxToStructTag k idx tyArgs typeArgs)
      (structTagPlain k idx (tysToTyTagsPlain k tyArgs)) := by
  have hargs := tysToTyTagsPlain_uniform k tyArgs hk.tail
  apply Memo.agrees_memo (structTagPlain_uniform hk hargs)
  · -- a miss: the arguments, then the struct tag
    apply Memo.Agrees.bind hargs h
    intro tags
    exact Memo.Agrees.bind (Metered.uniform_charge hk.structTagCost) (Memo.agrees_charge _) fun _ =>
      Memo.agrees_pure _
  · -- a hit
    intro cache hcache tag p hget
    exact TypeTagCache.costs_of_getStructTag k hcache hget
  · -- what a miss enters
    intro cache hcache tag p hcosts
    exact TypeTagCache.right_insertStructTag k hcache hcosts

mutual

/-- **One conversion.** By induction on the type: the cache is asked at every struct. -/
theorem tyToTyTagImpl_agrees :
    ∀ ty : Ty, k.Fits ty.structs → AgreesTag k (tyToTyTagImpl k ty) (tyToTyTagPlain k ty) := by
  open Memo in
  intro ty hk
  unfold tyToTyTagImpl tyToTyTagPlain
  refine Agrees.bind (Metered.uniform_charge hk.base) (agrees_charge _) fun _ => ?_
  match ty, hk with
  | .bool, _ | .u8, _ | .u16, _ | .u32, _ | .u64, _ | .u128, _ | .u256, _ | .address, _
  | .signer, _ => exact agrees_pure _
  | .vector elem, hk =>
    exact Agrees.bind (tyToTyTagPlain_uniform k elem hk) (tyToTyTagImpl_agrees elem hk) fun _ =>
      agrees_pure _
  | .struct idx _, hk =>
    -- a struct that is not generic goes the same way, with no arguments to convert
    have hself : k.Fits (idx :: Ty.structsList []) := hk
    have hnil : AgreesTag k (pure []) (tysToTyTagsPlain k []) := agrees_pure _
    exact Agrees.bind (structTagPlain_uniform hk (tysToTyTagsPlain_uniform k [] hself.tail))
      (structNameIdxToStructTag_agrees k hself hnil) fun _ => agrees_pure _
  | .structInstantiation idx tyArgs _, hk =>
    exact Agrees.bind (structTagPlain_uniform hk (tysToTyTagsPlain_uniform k tyArgs hk.tail))
      (structNameIdxToStructTag_agrees k hk (tysToTyTagsImpl_agrees tyArgs hk.tail)) fun _ =>
        agrees_pure _
  | .function args results abilities, hk =>
    exact Agrees.bind (tysToTyTagsPlain_uniform k args hk.left)
      (tysToTyTagsImpl_agrees args hk.left) fun _ =>
        Agrees.bind (tysToTyTagsPlain_uniform k results hk.right)
          (tysToTyTagsImpl_agrees results hk.right) fun _ => agrees_pure _
  | .reference _, _ | .mutableReference _, _ | .tyParam _, _ => exact agrees_throw _

/-- The types of a list, from the left. -/
theorem tysToTyTagsImpl_agrees : ∀ tys : List Ty, k.Fits (Ty.structsList tys) →
    AgreesTag k (tysToTyTagsImpl k tys) (tysToTyTagsPlain k tys)
  | [], _ => Memo.agrees_pure _
  | ty :: tys, hk =>
    Memo.Agrees.bind (tyToTyTagPlain_uniform k ty hk.left) (tyToTyTagImpl_agrees ty hk.left)
      fun _ =>
        Memo.Agrees.bind (tysToTyTagsPlain_uniform k tys hk.right)
          (tysToTyTagsImpl_agrees tys hk.right) fun _ => Memo.agrees_pure _

end

/-- One conversion after another on one cache, each from cost zero, whether they succeed or not. -/
def tysToTyTags : List Ty → TypeTagCache → List (VMResult TypeTag) × TypeTagCache
  | [], cache => ([], cache)
  | ty :: tys, cache =>
    let (outcome, cache) := tyToTyTag k ty cache
    let (outcomes, cache) := tysToTyTags tys cache
    (outcome :: outcomes, cache)

/-- `ty_to_ty_tag` as it would be without a cache. -/
def tagOfTy (ty : Ty) : VMResult TypeTag := (tyToTyTagPlain k ty 0).map Prod.fst

/-- Results that are alike, and failures with one status. -/
theorem Except.Alike.map {ε σ α β : Type} {status : ε → σ} {x y : Except ε α}
    (h : x.Alike status y) (f : α → β) : (x.map f).Alike status (y.map f) := by
  cases x <;> cases y <;> first | exact congrArg f h | exact h

/-- One call with a cache that others have left behind. -/
theorem tyToTyTag_alike {ty : Ty} (hk : k.Fits ty.structs) {cache : TypeTagCache}
    (h : cache.Right k) :
    (tyToTyTag k ty cache).2.Right k
      ∧ Except.Alike tagStatus (tyToTyTag k ty cache).1 (tagOfTy k ty) := by
  obtain ⟨hright, halike⟩ := tyToTyTagImpl_agrees k ty hk 0 UInt64.zero_le cache h
  exact ⟨hright, Except.Alike.map halike Prod.fst⟩

/-- **The cache.** Whatever was converted before on the same cache, and whether that succeeded: a
type is converted to the tag it has without a cache, or both ways fail with the same status, as
long as the costs fit. -/
theorem tysToTyTags_alike (tys : List Ty) (hk : k.Fits (Ty.structsList tys)) :
    List.Forall₂ (Except.Alike tagStatus) (tysToTyTags k tys []).1 (tys.map (tagOfTy k)) := by
  -- the cache that is handed on is right, whether the conversion before it failed or not
  have hrun : ∀ cache : TypeTagCache, cache.Right k →
      List.Forall₂ (Except.Alike tagStatus) (tysToTyTags k tys cache).1 (tys.map (tagOfTy k)) := by
    induction tys with
    | nil => exact fun _ _ => .nil
    | cons ty tys ih =>
      intro cache hcache
      obtain ⟨hright, halike⟩ := tyToTyTag_alike k hk.left hcache
      exact .cons halike (ih hk.right _ hright)
  exact hrun [] fun e he => by cases he

/-- A limit that the second type comes close to and the third one exceeds. -/
def sampleTagCosts : TypeCosts where
  typeMaxCost := 75
  typeBaseCost := 1
  typeByteCost := 1

def samplePair : StructIdentifier := ⟨⟨frameworkAddress, ⟨"pair"⟩⟩, ⟨"Pair"⟩⟩

/-- `0x1::pair::Pair<a, b>`. -/
def samplePairTy (a b : Ty) : Ty := .structInstantiation samplePair [a, b] (.struct ⟨0⟩)

/-- The first is cached, the second finds it, the third finds it too and is past the limit. -/
def sampleTagTys : List Ty :=
  [samplePairTy .u8 .u8, .vector (.vector (samplePairTy .u8 .u8)),
    samplePairTy (samplePairTy .u8 .u8) .u64]

theorem tysToTyTags_alike_sample :
    List.Forall₂ (Except.Alike tagStatus) (tysToTyTags sampleTagCosts sampleTagTys []).1
        (sampleTagTys.map (tagOfTy sampleTagCosts))
      ∧ (tysToTyTags sampleTagCosts sampleTagTys []).2
          = [((samplePair, [.u8, .u8]), (samplePair.tag [.u8, .u8], 42))]
      ∧ (tysToTyTags sampleTagCosts sampleTagTys []).1
          = [.ok (.struct (samplePair.tag [.u8, .u8])),
            .ok (.vector (.vector (.struct (samplePair.tag [.u8, .u8])))),
            .error (limitExceeded sampleTagCosts 40)] :=
  ⟨tysToTyTags_alike sampleTagCosts sampleTagTys
    { limit := by decide, base := by decide, struct := by decide +kernel },
    by rfl, by rfl⟩

end Plain

/-! ## Tags determine types -/

mutual

/-- The type a tag is the tag of, as far as types are compared. -/
def TypeTag.keyTy : TypeTag → Ty
  | .bool => .bool
  | .u8 => .u8
  | .u16 => .u16
  | .u32 => .u32
  | .u64 => .u64
  | .u128 => .u128
  | .u256 => .u256
  | .address => .address
  | .signer => .signer
  | .vector elem => .vector elem.keyTy
  | .struct ⟨a, m, n, typeArgs⟩ =>
    if typeArgs.isEmpty then .struct ⟨⟨a, m⟩, n⟩ (.struct ⟨0⟩)
    else .structInstantiation ⟨⟨a, m⟩, n⟩ (TypeTag.keyTys typeArgs) (.struct ⟨0⟩)
  | .function ⟨args, results, abilities⟩ =>
    .function (TypeTag.keyTys args) (TypeTag.keyTys results) abilities

def TypeTag.keyTys : List TypeTag → List Ty
  | [] => []
  | tag :: tags => tag.keyTy :: TypeTag.keyTys tags

end

section Inverse

variable {k : TypeCosts}

/-- A step of a conversion, taken apart. -/
theorem Metered.bind_eq_ok {α β : Type} {x : Metered VMError α} {f : α → Metered VMError β}
    {c : UInt64} {r : β × UInt64} : (x >>= f) c = .ok r ↔ ∃ a c', x c = .ok (a, c') ∧ f a c' = .ok r := by
  rw [Metered.bind_apply, Except.bind_eq_ok]
  exact Prod.exists

/-- Nothing is charged. -/
theorem Metered.pure_eq_ok {α : Type} {a b : α} {c c' : UInt64} :
    (pure a : Metered VMError α) c = .ok (b, c') ↔ a = b ∧ c = c' := by
  show (Except.ok (a, c) : Except VMError _) = .ok (b, c') ↔ _
  simp

/-- The tag of a struct that was converted. -/
theorem structTagPlain_eq_ok {idx : StructIdentifier} {x : Metered VMError (List TypeTag)}
    {c c' : UInt64} {tag : StructTag} (h : structTagPlain k idx x c = .ok (tag, c')) :
    ∃ tags d, x c = .ok (tags, d) ∧ tag = idx.tag tags := by
  obtain ⟨tags, d, hx, h⟩ := Metered.bind_eq_ok.mp h
  obtain ⟨_, _, -, htag⟩ := Metered.bind_eq_ok.mp h
  obtain ⟨rfl, -⟩ := Metered.pure_eq_ok.mp htag
  exact ⟨tags, d, hx, rfl⟩

mutual

/-- **Tags determine types.** By induction on the type. -/
theorem keyTy_of_tyToTyTagPlain : ∀ {ty : Ty} {c c' : UInt64} {tag : TypeTag}, ty.isProper = true →
    tyToTyTagPlain k ty c = .ok (tag, c') → tag.keyTy = ty.key := by
  intro ty c c' tag hty hrun
  unfold tyToTyTagPlain at hrun
  obtain ⟨_, c₁, -, h⟩ := Metered.bind_eq_ok.mp hrun
  clear hrun
  match ty, hty, h with
  | .bool, _, h | .u8, _, h | .u16, _, h | .u32, _, h | .u64, _, h | .u128, _, h | .u256, _, h
  | .address, _, h | .signer, _, h =>
    obtain ⟨rfl, -⟩ := Metered.pure_eq_ok.mp h
    rfl
  | .vector elem, hty, h =>
    obtain ⟨t, c₂, ht, h⟩ := Metered.bind_eq_ok.mp h
    obtain ⟨rfl, -⟩ := Metered.pure_eq_ok.mp h
    exact congrArg Ty.vector (keyTy_of_tyToTyTagPlain hty ht)
  | .struct idx _, _, h =>
    obtain ⟨t, c₂, ht, h⟩ := Metered.bind_eq_ok.mp h
    obtain ⟨rfl, -⟩ := Metered.pure_eq_ok.mp h
    obtain ⟨tags, _, htags, rfl⟩ := structTagPlain_eq_ok ht
    obtain ⟨rfl, -⟩ := Metered.pure_eq_ok.mp htags
    rfl
  | .structInstantiation idx tyArgs _, hty, h =>
    obtain ⟨t, c₂, ht, h⟩ := Metered.bind_eq_ok.mp h
    obtain ⟨rfl, -⟩ := Metered.pure_eq_ok.mp h
    obtain ⟨tags, _, htags, rfl⟩ := structTagPlain_eq_ok ht
    obtain ⟨hne, hproper⟩ : tyArgs ≠ [] ∧ Ty.areProper tyArgs = true := by
      simpa [Ty.isProper] using hty
    have hargs := keyTys_of_tysToTyTagsPlain hproper htags
    -- the list of tags is empty only for the empty list of types
    have htagsne : tags ≠ [] := by
      rintro rfl
      cases tyArgs with
      | nil => exact hne rfl
      | cons => simp [TypeTag.keyTys, Ty.keys] at hargs
    simp [StructIdentifier.tag, TypeTag.keyTy, Ty.key, htagsne, hargs]
  | .function args results abilities, hty, h =>
    obtain ⟨as, c₂, has, h⟩ := Metered.bind_eq_ok.mp h
    obtain ⟨rs, c₃, hrs, h⟩ := Metered.bind_eq_ok.mp h
    obtain ⟨rfl, -⟩ := Metered.pure_eq_ok.mp h
    obtain ⟨hpargs, hpresults⟩ : Ty.areProper args = true ∧ Ty.areProper results = true := by
      simpa [Ty.isProper] using hty
    simp only [TypeTag.keyTy, Ty.key, keyTys_of_tysToTyTagsPlain hpargs has,
      keyTys_of_tysToTyTagsPlain hpresults hrs]
  | .reference _, _, h | .mutableReference _, _, h | .tyParam _, _, h => cases h

theorem keyTys_of_tysToTyTagsPlain : ∀ {tys : List Ty} {c c' : UInt64} {tags : List TypeTag},
    Ty.areProper tys = true → tysToTyTagsPlain k tys c = .ok (tags, c') →
    TypeTag.keyTys tags = Ty.keys tys
  | [], _, _, _, _, h => by
    obtain ⟨rfl, -⟩ := Metered.pure_eq_ok.mp h
    rfl
  | ty :: tys, c, c', tags, hproper, h => by
    obtain ⟨hty, htys⟩ : ty.isProper = true ∧ Ty.areProper tys = true := by
      simpa [Ty.areProper] using hproper
    rw [tysToTyTagsPlain] at h
    obtain ⟨t, c₁, ht, h⟩ := Metered.bind_eq_ok.mp h
    obtain ⟨ts, c₂, hts, h⟩ := Metered.bind_eq_ok.mp h
    obtain ⟨rfl, -⟩ := Metered.pure_eq_ok.mp h
    simp only [TypeTag.keyTys, Ty.keys, keyTy_of_tyToTyTagPlain hty ht,
      keyTys_of_tysToTyTagsPlain htys hts]

end

/-- The tag of a type determines the type, as far as types are compared. -/
theorem key_eq_of_tagOfTy {a b : Ty} {tag : TypeTag} (ha : a.isProper = true)
    (hb : b.isProper = true) (hat : tagOfTy k a = .ok tag) (hbt : tagOfTy k b = .ok tag) :
    a.key = b.key := by
  -- both tags were computed from an empty meter
  have hkey : ∀ {ty : Ty}, ty.isProper = true → tagOfTy k ty = .ok tag → tag.keyTy = ty.key := by
    intro ty hty h
    cases hrun : tyToTyTagPlain k ty 0 with
    | error e =>
      rw [tagOfTy, hrun] at h
      cases h
    | ok r =>
      rw [tagOfTy, hrun] at h
      obtain rfl := Except.ok.inj h
      exact keyTy_of_tyToTyTagPlain hty hrun
  exact (hkey ha hat).symm.trans (hkey hb hbt)

/-- Types that are compared equal have one tag. -/
theorem tagOfTy_key (ty : Ty) : tagOfTy k ty.key = tagOfTy k ty := by
  rw [tagOfTy, tyToTyTagPlain_key, ← tagOfTy]

end Inverse

end NexusMove
