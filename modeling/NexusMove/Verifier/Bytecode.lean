import NexusMove.Core.FileFormat
import NexusMove.Vm.Vendor

/-!
# Bytecode

The instructions of a function body and the tables they refer to (`file_format.rs`,
`binary_views.rs`), as the verifier and the interpreter look at them: where an instruction may
go on, how many operands there are, and how many fields a struct has.

Offsets and indices are natural numbers. The deserializer takes at most `u16::MAX` instructions,
so the offset after one of them is still an offset.
-/

namespace NexusMove

/-- Which arguments of a function are captured, by the bits of the mask. -/
structure ClosureMask where
  bits : UInt64
deriving DecidableEq

inductive Bytecode where
  | pop | ret
  | brTrue (offset : Nat) | brFalse (offset : Nat) | branch (offset : Nat)
  | ldU8 (n : UInt8) | ldU16 (n : UInt16) | ldU32 (n : UInt32) | ldU64 (n : UInt64)
  | ldU128 (n : BitVec 128) | ldU256 (n : BitVec 256) | ldConst (idx : Nat) | ldTrue | ldFalse
  | castU8 | castU16 | castU32 | castU64 | castU128 | castU256
  | copyLoc (idx : Nat) | moveLoc (idx : Nat) | stLoc (idx : Nat)
  | mutBorrowLoc (idx : Nat) | immBorrowLoc (idx : Nat)
  | call (idx : Nat) | callGeneric (idx : Nat) | callClosure (sig : Nat)
  | packClosure (idx : Nat) (mask : ClosureMask)
  | packClosureGeneric (idx : Nat) (mask : ClosureMask)
  | pack (idx : Nat) | packGeneric (idx : Nat)
  | packVariant (idx : Nat) | packVariantGeneric (idx : Nat)
  | unpack (idx : Nat) | unpackGeneric (idx : Nat)
  | unpackVariant (idx : Nat) | unpackVariantGeneric (idx : Nat)
  | testVariant (idx : Nat) | testVariantGeneric (idx : Nat)
  | readRef | writeRef | freezeRef
  | mutBorrowField (idx : Nat) | mutBorrowFieldGeneric (idx : Nat)
  | immBorrowField (idx : Nat) | immBorrowFieldGeneric (idx : Nat)
  | mutBorrowVariantField (idx : Nat) | mutBorrowVariantFieldGeneric (idx : Nat)
  | immBorrowVariantField (idx : Nat) | immBorrowVariantFieldGeneric (idx : Nat)
  | mutBorrowGlobal (idx : Nat) | mutBorrowGlobalGeneric (idx : Nat)
  | immBorrowGlobal (idx : Nat) | immBorrowGlobalGeneric (idx : Nat)
  | exists (idx : Nat) | existsGeneric (idx : Nat)
  | moveFrom (idx : Nat) | moveFromGeneric (idx : Nat)
  | moveTo (idx : Nat) | moveToGeneric (idx : Nat)
  | add | sub | mul | mod | div | bitOr | bitAnd | xor | shl | shr | or | and | not
  | eq | neq | lt | gt | le | ge
  | abort | nop
  | vecPack (sig : Nat) (num : Nat) | vecUnpack (sig : Nat) (num : Nat)
  | vecLen (sig : Nat) | vecImmBorrow (sig : Nat) | vecMutBorrow (sig : Nat)
  | vecPushBack (sig : Nat) | vecPopBack (sig : Nat) | vecSwap (sig : Nat)
deriving DecidableEq

namespace Bytecode

/-- `Ret`, `Abort` and `Branch` never go on to the next instruction. -/
def isUnconditionalBranch : Bytecode → Bool
  | ret | abort | branch _ => true
  | _ => false

def isConditionalBranch : Bytecode → Bool
  | brFalse _ | brTrue _ => true
  | _ => false

def isBranch (instr : Bytecode) : Bool := instr.isConditionalBranch || instr.isUnconditionalBranch

/-- The offset an instruction branches to. -/
def offset : Bytecode → Option Nat
  | brFalse offset | brTrue offset | branch offset => some offset
  | _ => none

/-- The last step of `get_successors`. -/
def ascending : List Nat → List Nat
  | [a, b] => if b < a then [b, a] else [a, b]
  | v => v

/-- Where the instruction at `pc` may go on, in ascending order and without duplicates. -/
def getSuccessors (pc : Nat) (code : List Bytecode) : List Nat :=
  match code[pc]? with
  -- the assertion of the source
  | none => []
  | some instr =>
    let v := instr.offset.toList
    if code.length ≤ pc + 1 then v
    else if !instr.isUnconditionalBranch && !v.contains (pc + 1) then ascending (v ++ [pc + 1])
    else ascending v

theorem mem_ascending {v : List Nat} {n : Nat} : n ∈ ascending v ↔ n ∈ v := by
  unfold ascending
  split
  · split
    · exact List.Perm.mem_iff (List.Perm.swap _ _ _)
    · exact Iff.rfl
  · exact Iff.rfl

/-- An instruction goes on to the offset it names, and to the next instruction unless it never
does. -/
theorem mem_getSuccessors {code : List Bytecode} {pc : Nat} {instr : Bytecode}
    (h : code[pc]? = some instr) {next : Nat} :
    next ∈ getSuccessors pc code ↔ instr.offset = some next
      ∨ next = pc + 1 ∧ pc + 1 < code.length ∧ instr.isUnconditionalBranch = false := by
  unfold getSuccessors
  rw [h]
  simp only
  split
  · rename_i hlast
    rw [Option.mem_toList]
    refine ⟨.inl, fun hnext => hnext.resolve_right fun hfall => ?_⟩
    omega
  · rename_i hlast
    rw [Nat.not_le] at hlast
    split
    · rename_i hpush
      obtain ⟨hbranch, -⟩ := Bool.and_eq_true_iff.mp hpush
      rw [mem_ascending, List.mem_append, Option.mem_toList, List.mem_singleton]
      exact or_congr_right ⟨fun hnext => ⟨hnext, hlast, by simpa using hbranch⟩, And.left⟩
    · rename_i hnot
      rw [mem_ascending, Option.mem_toList]
      refine ⟨.inl, fun hnext => hnext.elim id fun hfall => ?_⟩
      -- the next instruction is not pushed because it is already there
      simpa [hfall.1, hfall.2.2] using hnot

end Bytecode

/-! ## Errors -/

/-- An error of the verifier, with the code offset that it is reported at. -/
structure VerifierError where
  majorStatus : UInt64
  offset : Option Nat
  message : Option String
deriving DecidableEq

namespace StatusCode

def indexOutOfBounds : UInt64 := 1001
def invalidFallThrough : UInt64 := 1007
def negativeStackSizeWithinBlock : UInt64 := 1009
def stlocUnsafeToDestroyError : UInt64 := 1028
def copylocUnavailableError : UInt64 := 1037
def movelocUnavailableError : UInt64 := 1040
def borrowlocUnavailableError : UInt64 := 1043
def positiveStackSizeAtBlockEnd : UInt64 := 1069
def emptyCodeUnit : UInt64 := 1084
def unsafeRetUnusedValuesWithoutDrop : UInt64 := 1088
def tooManyLocals : UInt64 := 1089
def genericMemberOpcodeMismatch : UInt64 := 1090
def valueStackOverflow : UInt64 := 1115
def valueStackPushOverflow : UInt64 := 1117
def invalidClosureMask : UInt64 := 1132
def closureCallRequiresFunction : UInt64 := 1133

end StatusCode

def VerifierError.at (majorStatus : UInt64) (offset : Nat) : VerifierError :=
  ⟨majorStatus, some offset, none⟩

/-- A panic of the verifier is caught, and the module is refused. -/
def verifierPanicked : VerifierError := ⟨StatusCode.verifierInvariantViolation, none, none⟩

/-! ## Tables -/

structure FunctionInstantiation where
  handle : Nat
  typeParameters : Nat
deriving Inhabited

structure StructDefInstantiation where
  definition : Nat
  typeParameters : Nat
deriving Inhabited

structure StructVariantHandle where
  structIndex : Nat
  variant : Nat
deriving Inhabited

structure StructVariantInstantiation where
  handle : Nat
  typeParameters : Nat
deriving Inhabited

structure FieldHandle where
  owner : Nat
  field : Nat
deriving Inhabited

structure FieldInstantiation where
  handle : Nat
  typeParameters : Nat
deriving Inhabited

structure VariantFieldHandle where
  structIndex : Nat
  variants : List Nat
  field : Nat
deriving Inhabited

structure VariantFieldInstantiation where
  handle : Nat
  typeParameters : Nat
deriving Inhabited

structure Constant where
  type : SignatureToken
  data : Bytes

/-- A module with the tables that only code refers to. -/
structure BinaryIndexedView extends CompiledModule where
  constantPool : List Constant
  fieldHandles : List FieldHandle
  fieldInstantiations : List FieldInstantiation
  variantFieldHandles : List VariantFieldHandle
  variantFieldInstantiations : List VariantFieldInstantiation
  functionInstantiations : List FunctionInstantiation
  structInstantiations : List StructDefInstantiation
  structVariantHandles : List StructVariantHandle
  structVariantInstantiations : List StructVariantInstantiation

/-- The number of fields of a struct, or of one of its variants. -/
def StructFieldInformation.fieldCount : StructFieldInformation → Option Nat → Nat
  | .native, _ => 0
  | .declared fields, _ => fields.length
  | .declaredVariants variants, some variant =>
    if variant < variants.length then (variants.getD variant ⟨0, []⟩).fields.length else 0
  | .declaredVariants _, none => 0

/-- An index that is out of range panics; a script has none of the tables of structs. -/
def tableAt {α : Type} (table : List α) (idx : Nat) : Except VerifierError α :=
  match table[idx]? with
  | some entry => .ok entry
  | none => .error verifierPanicked

namespace BinaryIndexedView

variable (view : BinaryIndexedView)

/-- The numbers of arguments and results of a function handle. -/
def arity (idx : Nat) : Except VerifierError (List SignatureToken × List SignatureToken) := do
  let handle ← tableAt view.functionHandles idx
  return (← tableAt view.signatures handle.parameters, ← tableAt view.signatures handle.returns)

def structFieldCount (idx : Nat) : Except VerifierError Nat := do
  return (← tableAt view.structDefs idx).fieldInformation.fieldCount none

def structInstantiationFieldCount (idx : Nat) : Except VerifierError Nat := do
  view.structFieldCount (← tableAt view.structInstantiations idx).definition

def variantFieldCount (idx : Nat) : Except VerifierError Nat := do
  let handle ← tableAt view.structVariantHandles idx
  return (← tableAt view.structDefs handle.structIndex).fieldInformation.fieldCount
    (some handle.variant)

def variantInstantiationFieldCount (idx : Nat) : Except VerifierError Nat := do
  view.variantFieldCount (← tableAt view.structVariantInstantiations idx).handle

end BinaryIndexedView

namespace ClosureMask

def isCaptured (mask : ClosureMask) (i : Nat) : Bool :=
  i < 64 && mask.bits.toNat.testBit i

/-- The elements at captured positions, or at the others. -/
def extract {α : Type} (mask : ClosureMask) (values : List α) (collectCaptured : Bool) : List α :=
  (values.zipIdx.filter fun v => mask.isCaptured v.2 == collectCaptured).map Prod.fst

/-- The greatest captured index. -/
def maxCaptured (mask : ClosureMask) : Option Nat :=
  if mask.bits = 0 then none else some mask.bits.toNat.log2

/-- The number of captured arguments. -/
def capturedCount (mask : ClosureMask) : Nat :=
  ((List.range 64).filter mask.isCaptured).length

end ClosureMask

/-! ## Code -/

/-- The body of a function. -/
structure CodeUnit where
  locals : Nat
  code : List Bytecode

/-- A function body with the signature it belongs to. -/
structure FunctionView where
  index : Nat
  code : CodeUnit
  parameters : List SignatureToken
  returns : List SignatureToken
  locals : List SignatureToken
  typeParameters : List AbilitySet

end NexusMove
