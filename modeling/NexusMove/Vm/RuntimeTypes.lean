import NexusMove.Vm.Vendor

/-!
# Runtime types

`runtime_types.rs`: the types the VM works with at run time, their abilities,
and the type builder, which makes a type from a tag or by substituting type
arguments and keeps every type it makes below a size and a depth. The source
numbers structs by an interning table; here a struct is its full name.

Every function counts the nodes built so far, so a type argument that is used
many times counts as often as it is used.
-/

namespace NexusMove

/-- What a struct type knows of its abilities without being looked up. -/
structure AbilityInfo where
  baseAbilitySet : AbilitySet
  phantomTyArgsMask : List Bool

def AbilityInfo.struct (abilities : AbilitySet) : AbilityInfo where
  baseAbilitySet := abilities
  phantomTyArgsMask := []

/-- A type at run time: structs are resolved to their identifiers. -/
inductive Ty where
  | bool | u8 | u16 | u32 | u64 | u128 | u256 | address | signer
  | vector (elem : Ty)
  | struct (idx : StructIdentifier) (ability : AbilityInfo)
  | structInstantiation (idx : StructIdentifier) (tyArgs : List Ty) (ability : AbilityInfo)
  | function (args results : List Ty) (abilities : AbilitySet)
  | reference (inner : Ty)
  | mutableReference (inner : Ty)
  | tyParam (idx : UInt16)

/-- The fields of a struct, or those of each of its variants. -/
inductive StructLayout where
  | single (fields : List (Identifier × Ty))
  | variants (variants : List (Identifier × List (Identifier × Ty)))

/-- A struct definition as the VM sees it, over its own type parameters. -/
structure StructType where
  idx : StructIdentifier
  layout : StructLayout
  phantomTyParamsMask : List Bool
  abilities : AbilitySet
  tyParams : List StructTypeParameter

namespace Ty

def getRefInnerTy : Ty → Option Ty
  | reference ty => some ty
  | mutableReference ty => some ty
  | _ => none

/-! ## Abilities -/

/-- The abilities of a generic type, an invariant violation if the lengths do not match. -/
def polymorphic (declared : AbilitySet) (phantoms : List Bool) (args : List AbilitySet) :
    VMResult AbilitySet :=
  match AbilitySet.polymorphicAbilities declared phantoms args with
  | some a => .ok a
  | none => .error (partialError StatusCode.verifierInvariantViolation
      (some "the length of `declared_phantom_parameters` doesn't match the length of `type_arguments`"))

mutual

def abilities : Ty → VMResult AbilitySet
  | bool | u8 | u16 | u32 | u64 | u128 | u256 | address => .ok .primitives
  | reference _ | mutableReference _ => .ok .references
  | signer => .ok .signer
  | tyParam _ => .error (partialError StatusCode.unreachable
      (some "Unexpected TyParam type after translating from TypeTag to Type"))
  | vector ty => do polymorphic .vector [false] [← abilities ty]
  | struct _ ability => .ok ability.baseAbilitySet
  | structInstantiation _ tyArgs ability => do
    polymorphic ability.baseAbilitySet ability.phantomTyArgsMask (← abilitiesList tyArgs)
  | function _ _ a => .ok a

/-- The abilities of the type arguments, with the first error. -/
def abilitiesList : List Ty → VMResult (List AbilitySet)
  | [] => .ok []
  | ty :: tys => do return (← abilities ty) :: (← abilitiesList tys)

end

/-- Each type argument has the abilities its parameter asks for. -/
def checkConstraints : List (Ty × AbilitySet) → VMResult Unit
  | [] => .ok ()
  | (ty, expected) :: rest => do
    if !expected.isSubset (← ty.abilities) then
      throw (partialError StatusCode.constraintNotSatisfied none)
    checkConstraints rest

def verifyTyArgAbilities (tyParamAbilities : List AbilitySet) (tyArgs : List Ty) : VMResult Unit :=
  if tyParamAbilities.length ≠ tyArgs.length then
    .error (partialError StatusCode.numberOfTypeArgumentsMismatch none)
  else checkConstraints (tyArgs.zip tyParamAbilities)

end Ty

/-! ## The type builder -/

structure TypeBuilder where
  maxTySize : Nat
  maxTyDepth : Nat

def TypeBuilder.default : TypeBuilder where
  maxTySize := 128
  maxTyDepth := 20

namespace TypeBuilder

variable (b : TypeBuilder)

/-- The two limits on a type while it is built. -/
def check (count depth : Nat) : VMResult Unit :=
  if count ≥ b.maxTySize then
    .error (partialError StatusCode.tooManyTypeNodes
      (some ("Type size is larger than maximum " ++ toString b.maxTySize)))
  else if depth > b.maxTyDepth then
    .error (partialError StatusCode.vmMaxTypeDepthReached
      (some ("Type depth is larger than maximum " ++ toString b.maxTyDepth)))
  else .ok ()

mutual

/-- `apply_subst`: copy a type, each type parameter replaced by `subst`. The number of nodes built
so far goes in and comes out; a type parameter is not counted itself. -/
def applySubst (subst : UInt16 → Nat → Nat → VMResult (Ty × Nat)) (depth : Nat) (ty : Ty)
    (count : Nat) : VMResult (Ty × Nat) := do
  b.check count depth
  match ty with
  | .tyParam idx => subst idx count depth
  | .bool => return (.bool, count + 1)
  | .u8 => return (.u8, count + 1)
  | .u16 => return (.u16, count + 1)
  | .u32 => return (.u32, count + 1)
  | .u64 => return (.u64, count + 1)
  | .u128 => return (.u128, count + 1)
  | .u256 => return (.u256, count + 1)
  | .address => return (.address, count + 1)
  | .signer => return (.signer, count + 1)
  | .vector elem =>
    let (elem, count) ← applySubst subst (depth + 1) elem (count + 1)
    return (.vector elem, count)
  | .reference inner =>
    let (inner, count) ← applySubst subst (depth + 1) inner (count + 1)
    return (.reference inner, count)
  | .mutableReference inner =>
    let (inner, count) ← applySubst subst (depth + 1) inner (count + 1)
    return (.mutableReference inner, count)
  | .struct idx ability => return (.struct idx ability, count + 1)
  | .structInstantiation idx tyArgs ability =>
    let (tyArgs, count) ← applySubstList subst (depth + 1) tyArgs (count + 1)
    return (.structInstantiation idx tyArgs ability, count)
  | .function args results abilities =>
    let (args, count) ← applySubstList subst (depth + 1) args (count + 1)
    let (results, count) ← applySubstList subst (depth + 1) results count
    return (.function args results abilities, count)

/-- The nodes are counted across the whole list. -/
def applySubstList (subst : UInt16 → Nat → Nat → VMResult (Ty × Nat)) (depth : Nat)
    (tys : List Ty) (count : Nat) : VMResult (List Ty × Nat) :=
  match tys with
  | [] => return ([], count)
  | ty :: tys => do
    let (ty, count) ← applySubst subst depth ty count
    let (tys, count) ← applySubstList subst depth tys count
    return (ty :: tys, count)

end

/-- `clone_impl`: copy a type that has no type parameters left. -/
def cloneImpl (ty : Ty) (count depth : Nat) : VMResult (Ty × Nat) :=
  b.applySubst (fun _ _ _ => .error (partialError StatusCode.unknownInvariantViolationError none))
    depth ty count

/-- `create_ty_with_subst`: a type at the given type arguments. -/
def createTyWithSubst (tyArgs : List Ty) (ty : Ty) : VMResult Ty := do
  let subst (idx : UInt16) (count depth : Nat) : VMResult (Ty × Nat) :=
    match tyArgs[idx.toNat]? with
    | some ty => b.cloneImpl ty count depth
    | none => .error (partialError StatusCode.unknownInvariantViolationError
        (some ("Type substitution failed: index " ++ toString idx.toNat ++ " is out of bounds for "
          ++ toString tyArgs.length ++ " type arguments")))
  let (ty, _) ← b.applySubst subst 1 ty 0
  return ty

def createTysWithSubst (tyArgs : List Ty) : List Ty → VMResult (List Ty)
  | [] => .ok []
  | ty :: tys => do
    return (← b.createTyWithSubst tyArgs ty) :: (← createTysWithSubst tyArgs tys)

mutual

/-- `create_ty_impl`: the type a tag names. Structs are looked up, and their type arguments are
checked against the constraints of the definition. -/
def createTyImpl (resolver : StructTag → VMResult StructType) (depth : Nat) (tyTag : TypeTag)
    (count : Nat) : VMResult (Ty × Nat) := do
  b.check count depth
  match tyTag with
  | .bool => return (.bool, count + 1)
  | .u8 => return (.u8, count + 1)
  | .u16 => return (.u16, count + 1)
  | .u32 => return (.u32, count + 1)
  | .u64 => return (.u64, count + 1)
  | .u128 => return (.u128, count + 1)
  | .u256 => return (.u256, count + 1)
  | .address => return (.address, count + 1)
  | .signer => return (.signer, count + 1)
  | .vector elem =>
    let (elem, count) ← createTyImpl resolver (depth + 1) elem (count + 1)
    return (.vector elem, count)
  | .struct ⟨address, module, name, typeArgs⟩ =>
    let structTy ← resolver ⟨address, module, name, typeArgs⟩
    if structTy.tyParams.isEmpty && typeArgs.isEmpty then
      return (.struct structTy.idx (.struct structTy.abilities), count + 1)
    let (tyArgs, count) ← createTyImplList resolver (depth + 1) typeArgs (count + 1)
    Ty.verifyTyArgAbilities (structTy.tyParams.map StructTypeParameter.constraints) tyArgs
    return (.structInstantiation structTy.idx tyArgs ⟨structTy.abilities, structTy.phantomTyParamsMask⟩,
      count)
  | .function ⟨args, results, abilities⟩ =>
    let (args, count) ← createTyImplList resolver (depth + 1) args (count + 1)
    let (results, count) ← createTyImplList resolver (depth + 1) results count
    return (.function args results abilities, count)

def createTyImplList (resolver : StructTag → VMResult StructType) (depth : Nat)
    (tyTags : List TypeTag) (count : Nat) : VMResult (List Ty × Nat) :=
  match tyTags with
  | [] => return ([], count)
  | tyTag :: tyTags => do
    let (ty, count) ← createTyImpl resolver depth tyTag count
    let (tys, count) ← createTyImplList resolver depth tyTags count
    return (ty :: tys, count)

end

def createTy (resolver : StructTag → VMResult StructType) (tyTag : TypeTag) : VMResult Ty := do
  let (ty, _) ← b.createTyImpl resolver 1 tyTag 0
  return ty

end TypeBuilder

end NexusMove
