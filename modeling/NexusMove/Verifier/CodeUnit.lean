import NexusMove.Verifier.LocalsSafety
import NexusMove.Verifier.StackUsage

/-!
# Verification of a function body

What the passes of `verify_module_with_config` ask of the body of a function:
indices in bounds (`check_bounds.rs`), closure calls of function types (`signature_v2.rs`),
generic instructions for generic members (`instruction_consistency.rs`), an end that is not fallen
through (`control_flow.rs`), and the two analyses of the stack and of the locals.

Left out: loops that have more than one entry, types, references and acquired resources, and the
limits that the default configuration does not set.

* `CodeUnitVerifier.verifyFunction` — the code.
* `VerifiedCode` — what it leaves behind.
* `ClosureMask.extract_length` — a mask that is checked captures what it says.
-/

namespace NexusMove

section Code

variable (config : VerifierConfig) (view : BinaryIndexedView) (fn : FunctionView)

/-- One check of every instruction, with its offset. -/
def checkEach (check : Nat → Bytecode → Except VerifierError Unit) :
    Nat → List Bytecode → Except VerifierError Unit
  | _, [] => .ok ()
  | offset, instr :: code => do
    check offset instr
    checkEach check (offset + 1) code

/-! ## Bounds -/

/-- Parameters are locals, too. -/
def localsCount : Nat := fn.locals.length + fn.parameters.length

/-- The index that an instruction has, with what it is an index into. -/
def Bytecode.index : Bytecode → Option (String × Nat × Nat)
  | .ldConst idx => some ("constant pool", view.constantPool.length, idx)
  | .mutBorrowField idx | .immBorrowField idx =>
    some ("field handle", view.fieldHandles.length, idx)
  | .mutBorrowVariantField idx | .immBorrowVariantField idx =>
    some ("variant field handle", view.variantFieldHandles.length, idx)
  | .mutBorrowFieldGeneric idx | .immBorrowFieldGeneric idx =>
    some ("field instantiation", view.fieldInstantiations.length, idx)
  | .mutBorrowVariantFieldGeneric idx | .immBorrowVariantFieldGeneric idx =>
    some ("variant field instantiation", view.variantFieldInstantiations.length, idx)
  | .call idx | .packClosure idx _ => some ("function handle", view.functionHandles.length, idx)
  | .callGeneric idx | .packClosureGeneric idx _ =>
    some ("function instantiation", view.functionInstantiations.length, idx)
  | .pack idx | .unpack idx | .exists idx | .immBorrowGlobal idx | .mutBorrowGlobal idx
  | .moveFrom idx | .moveTo idx => some ("struct definition", view.structDefs.length, idx)
  | .packVariant idx | .unpackVariant idx | .testVariant idx =>
    some ("struct variant handle", view.structVariantHandles.length, idx)
  | .packGeneric idx | .unpackGeneric idx | .existsGeneric idx | .immBorrowGlobalGeneric idx
  | .mutBorrowGlobalGeneric idx | .moveFromGeneric idx | .moveToGeneric idx =>
    some ("struct instantiation", view.structInstantiations.length, idx)
  | .packVariantGeneric idx | .unpackVariantGeneric idx | .testVariantGeneric idx =>
    some ("struct variant instantiation", view.structVariantInstantiations.length, idx)
  -- instructions that refer to this code block
  | .brTrue offset | .brFalse offset | .branch offset =>
    some ("code definition pool", fn.code.code.length, offset)
  -- instructions that refer to the locals
  | .copyLoc idx | .moveLoc idx | .stLoc idx | .mutBorrowLoc idx | .immBorrowLoc idx =>
    some ("local pool", localsCount fn, idx)
  -- instructions that refer to a signature
  | .callClosure idx | .vecPack idx _ | .vecLen idx | .vecImmBorrow idx | .vecMutBorrow idx
  | .vecPushBack idx | .vecPopBack idx | .vecUnpack idx _ | .vecSwap idx =>
    some ("signature", view.signatures.length, idx)
  | _ => none

/-- The message names the pool and what is in it. -/
def offsetOutOfBounds (kind : String) (target pool offset : Nat) : VerifierError where
  majorStatus := StatusCode.indexOutOfBounds
  offset := some offset
  message := some ("Index " ++ toString target ++ " out of bounds for " ++ toString pool
    ++ " at bytecode offset " ++ toString offset ++ " in function " ++ toString fn.index
    ++ " while indexing " ++ kind)

/-- One instruction against the tables of the module. -/
def checkIndex (offset : Nat) (instr : Bytecode) : Except VerifierError Unit :=
  match instr.index view fn with
  | none => .ok ()
  | some (kind, pool, target) =>
    if pool ≤ target then .error (offsetOutOfBounds fn kind target pool offset) else .ok ()

/-- `check_code`: at most 255 locals, and every index within its table. -/
def checkCode : Except VerifierError Unit :=
  if 255 < localsCount fn then .error ⟨StatusCode.tooManyLocals, none, none⟩
  else checkEach (checkIndex view fn) 0 fn.code.code

/-! ## Signatures -/

/-- The signature of a closure call is that of one function type. -/
def checkClosureCall (_offset : Nat) : Bytecode → Except VerifierError Unit
  | .callClosure idx => do
    match ← tableAt view.signatures idx with
    | [.function _ _ _] => return ()
    | _ => throw ⟨StatusCode.closureCallRequiresFunction, none,
        some "expected a function type for closure call"⟩
  | _ => .ok ()

/-! ## Instructions -/

/-- A generic instruction is for a generic member, and no other is. -/
def checkGeneric (offset : Nat) (notGeneric generic : Bool) : Except VerifierError Unit :=
  if notGeneric == generic then .error (.at StatusCode.genericMemberOpcodeMismatch offset)
  else .ok ()

/-- `check_struct_op`: the generic instruction for generic structs, and no other. -/
def checkStructOp (offset structDefIndex : Nat) (generic : Bool) : Except VerifierError Unit := do
  let structDef ← tableAt view.structDefs structDefIndex
  let structHandle ← tableAt view.structHandles structDef.structHandle
  checkGeneric offset structHandle.typeParameters.isEmpty generic

def checkFieldOp (offset idx : Nat) (generic : Bool) : Except VerifierError Unit := do
  checkStructOp view offset (← tableAt view.fieldHandles idx).owner generic

def checkVariantFieldOp (offset idx : Nat) (generic : Bool) : Except VerifierError Unit := do
  checkStructOp view offset (← tableAt view.variantFieldHandles idx).structIndex generic

def checkVariantOp (offset idx : Nat) (generic : Bool) : Except VerifierError Unit := do
  checkStructOp view offset (← tableAt view.structVariantHandles idx).structIndex generic

def checkFunctionOp (offset idx : Nat) (generic : Bool) : Except VerifierError Unit := do
  let functionHandle ← tableAt view.functionHandles idx
  checkGeneric offset functionHandle.typeParameters.isEmpty generic

/-- A mask has no bit past the parameters. -/
def checkClosureMask (offset idx : Nat) (mask : ClosureMask) : Except VerifierError Unit := do
  let (parameters, _) ← view.arity idx
  if mask.maxCaptured.any (parameters.length ≤ ·) then
    throw (.at StatusCode.invalidClosureMask offset)

/-- What is pushed or popped at once is at most 65535. -/
def checkVecNum (offset num : Nat) : Except VerifierError Unit :=
  if 65535 < num then
    .error ⟨StatusCode.constraintNotSatisfied, some offset,
      some "VecPack/VecUnpack argument out of range"⟩
  else .ok ()

/-- `InstructionConsistency`, instruction by instruction. -/
def checkInstruction (offset : Nat) : Bytecode → Except VerifierError Unit
  | .mutBorrowField idx | .immBorrowField idx => checkFieldOp view offset idx false
  | .mutBorrowFieldGeneric idx | .immBorrowFieldGeneric idx => do
    checkFieldOp view offset (← tableAt view.fieldInstantiations idx).handle true
  | .mutBorrowVariantField idx | .immBorrowVariantField idx =>
    checkVariantFieldOp view offset idx false
  | .mutBorrowVariantFieldGeneric idx | .immBorrowVariantFieldGeneric idx => do
    checkVariantFieldOp view offset (← tableAt view.variantFieldInstantiations idx).handle true
  | .call idx => checkFunctionOp view offset idx false
  | .callGeneric idx => do
    checkFunctionOp view offset (← tableAt view.functionInstantiations idx).handle true
  | .packClosure idx mask => do
    checkFunctionOp view offset idx false
    checkClosureMask view offset idx mask
  | .packClosureGeneric idx mask => do
    let inst ← tableAt view.functionInstantiations idx
    checkFunctionOp view offset inst.handle true
    checkClosureMask view offset inst.handle mask
  | .pack idx | .unpack idx | .mutBorrowGlobal idx | .immBorrowGlobal idx | .exists idx
  | .moveFrom idx | .moveTo idx => checkStructOp view offset idx false
  | .packGeneric idx | .unpackGeneric idx | .mutBorrowGlobalGeneric idx
  | .immBorrowGlobalGeneric idx | .existsGeneric idx | .moveFromGeneric idx | .moveToGeneric idx =>
    do checkStructOp view offset (← tableAt view.structInstantiations idx).definition true
  | .packVariant idx | .unpackVariant idx | .testVariant idx =>
    checkVariantOp view offset idx false
  | .packVariantGeneric idx | .unpackVariantGeneric idx | .testVariantGeneric idx => do
    checkVariantOp view offset (← tableAt view.structVariantInstantiations idx).handle true
  | .vecPack _ num | .vecUnpack _ num => checkVecNum offset num
  | _ => .ok ()

/-! ## Control flow -/

/-- The code is not empty and ends with a branching instruction. -/
def verifyFallthrough : Except VerifierError Unit :=
  match fn.code.code.getLast? with
  | none => .error ⟨StatusCode.emptyCodeUnit, none, none⟩
  | some last =>
    if last.isUnconditionalBranch then .ok ()
    else .error (.at StatusCode.invalidFallThrough (fn.code.code.length - 1))

/-- The passes, in their order. -/
def CodeUnitVerifier.verifyFunction : Except VerifierError Unit := do
  checkCode view fn
  checkEach (checkClosureCall view) 0 fn.code.code
  checkEach (checkInstruction view) 0 fn.code.code
  verifyFallthrough fn
  StackUsageVerifier.verify config view fn
  LocalsSafety.verify view fn

end Code

/-! ## Masks -/

namespace ClosureMask

variable {mask : ClosureMask}

theorem isCaptured_le {i captured : Nat} (h : mask.isCaptured i = true)
    (hmax : mask.maxCaptured = some captured) : i ≤ captured := by
  obtain ⟨-, hbit⟩ := Bool.and_eq_true_iff.mp h
  unfold maxCaptured at hmax
  split at hmax
  · cases hmax
  · obtain rfl := Option.some.inj hmax
    by_contra hlt
    have hpow : mask.bits.toNat < 2 ^ i :=
      Nat.lt_log2_self.trans_le (Nat.pow_le_pow_right (by omega) (by omega))
    rw [Nat.testBit_lt_two_pow hpow] at hbit
    cases hbit

/-- Only so many positions are looked at. -/
theorem filter_range_eq {a b : Nat} (hab : a ≤ b)
    (hnone : ∀ i, a ≤ i → i < b → mask.isCaptured i = false) :
    (List.range b).filter mask.isCaptured = (List.range a).filter mask.isCaptured := by
  induction b, hab using Nat.le_induction with
  | base => rfl
  | succ b hab ih =>
    rw [List.range_succ, List.filter_append, ih fun i hi hlt => hnone i hi (by omega)]
    simp [hnone b hab (by omega)]

/-- How many of the first positions are captured, or are not. -/
def below (mask : ClosureMask) (n : Nat) (captured : Bool) : Nat :=
  ((List.range n).filter fun i => mask.isCaptured i == captured).length

/-- Extracting gives as many values as positions are counted. -/
theorem extract_length_eq {α : Type} (values : List α) (collectCaptured : Bool) :
    (mask.extract values collectCaptured).length = mask.below values.length collectCaptured := by
  have hzip : values.zipIdx.map Prod.snd = List.range values.length := by
    rw [List.zipIdx_map_snd, List.range_eq_range']
  rw [extract, List.length_map, below, ← hzip, List.filter_map, List.length_map]
  rfl

theorem below_succ (n : Nat) (captured : Bool) :
    mask.below (n + 1) captured
      = mask.below n captured + if mask.isCaptured n == captured then 1 else 0 := by
  unfold below
  rw [List.range_succ, List.filter_append, List.length_append]
  congr 1
  by_cases h : (mask.isCaptured n == captured) = true
  · simp [h]
  · simp [h]

/-- Nothing is captured by the empty mask. -/
theorem below_empty (n : Nat) : (ClosureMask.mk 0).below n false = n := by
  induction n with
  | zero => rfl
  | succ n ih => rw [below_succ, ih, if_pos (by simp [isCaptured])]

/-- **A mask that is checked** captures as many arguments as it has bits. -/
theorem extract_length {α : Type} {values : List α}
    (h : mask.maxCaptured.any (values.length ≤ ·) = false) :
    (mask.extract values true).length = mask.capturedCount := by
  -- past the values no bit is set, or the check would have failed
  have hout : ∀ i, values.length ≤ i → mask.isCaptured i = false := by
    intro i hi
    by_contra hcaptured
    have hcaptured : mask.isCaptured i = true := Bool.not_eq_false _ ▸ hcaptured
    cases hmax : mask.maxCaptured with
    | none =>
      have hzero : mask.bits = 0 := by
        by_contra hne
        rw [maxCaptured, if_neg hne] at hmax
        cases hmax
      rw [isCaptured, hzero] at hcaptured
      simp at hcaptured
    | some captured =>
      have hle := isCaptured_le hcaptured hmax
      rw [hmax, Option.any_some, decide_eq_false_iff_not] at h
      omega
  -- nor past the 64 bits of the mask
  have h64 : ∀ i, 64 ≤ i → mask.isCaptured i = false := fun i hi => by
    rw [isCaptured, decide_eq_false (by omega), Bool.false_and]
  simp only [extract_length_eq, below, beq_true, capturedCount]
  rcases Nat.le_total values.length 64 with hle | hle
  · rw [filter_range_eq hle fun i hi _ => hout i hi]
  · rw [filter_range_eq hle fun i hi _ => h64 i hi]

/-- However many bits there are, no more arguments are captured. -/
theorem below_le_capturedCount (n : Nat) : mask.below n true ≤ mask.capturedCount := by
  unfold below capturedCount
  simp only [beq_true]
  rcases Nat.le_total n 64 with hle | hle
  · exact ((List.range_sublist.mpr hle).filter _).length_le
  · have h64 : ∀ i, 64 ≤ i → i < n → mask.isCaptured i = false := fun i hi _ => by
      rw [isCaptured, decide_eq_false (by omega), Bool.false_and]
    rw [filter_range_eq hle h64]

theorem below_add (n : Nat) : mask.below n true + mask.below n false = n := by
  induction n with
  | zero => rfl
  | succ n ih =>
    rw [below_succ, below_succ]
    cases mask.isCaptured n <;> simp <;> omega

end ClosureMask

/-! ## What is verified -/

section Verified

variable {config : VerifierConfig} {view : BinaryIndexedView} {fn : FunctionView}

/-- A loop that succeeds has passed every instruction. -/
theorem checkEach_eq_ok {check : Nat → Bytecode → Except VerifierError Unit} {offset : Nat}
    {code : List Bytecode} (h : checkEach check offset code = .ok ()) {i : Nat} {instr : Bytecode}
    (hinstr : code[i]? = some instr) : check (offset + i) instr = .ok () := by
  induction code generalizing offset i with
  | nil => cases hinstr
  | cons first code ih =>
    obtain ⟨hfirst, hrest⟩ := Except.bind_unit_eq_ok.mp h
    cases i with
    | zero => exact Option.some.inj hinstr ▸ hfirst
    | succ i =>
      rw [Nat.add_left_comm offset i 1, ← Nat.add_assoc] at *
      have hnext := ih hrest hinstr
      rwa [show offset + 1 + i = i + offset + 1 by omega] at hnext

/-- What a verified body satisfies, besides the two analyses. -/
structure VerifiedCode (config : VerifierConfig) (view : BinaryIndexedView) (fn : FunctionView) :
    Prop where
  branches : BranchesInside fn.code.code
  last : ∃ last, fn.code.code.getLast? = some last ∧ last.isUnconditionalBranch = true
  closureCall : ∀ pc idx : Nat, fn.code.code[pc]? = some (Bytecode.callClosure idx) →
    ∃ args results abilities,
      view.signatures[idx]? = some [SignatureTokenOf.function args results abilities]
  instruction : ∀ (pc : Nat) (instr : Bytecode), fn.code.code[pc]? = some instr →
    checkInstruction view pc instr = .ok ()
  stack : StackUsageVerifier.verify config view fn = .ok ()
  locals : LocalsSafety.verify view fn = .ok ()

theorem tableAt_eq_ok {α : Type} {table : List α} {idx : Nat} {entry : α} :
    tableAt table idx = .ok entry ↔ table[idx]? = some entry := by
  unfold tableAt
  split
  · rename_i found h
    rw [h]
    exact ⟨fun hok => congrArg some (Except.ok.inj hok), fun hsome => by rw [Option.some.inj hsome]⟩
  · rename_i h
    rw [h]
    constructor
    · intro hok
      cases hok
    · intro hsome
      cases hsome

/-- A closure captures as many arguments as its mask has bits. -/
theorem extract_length_of_check {offset idx : Nat} {mask : ClosureMask}
    (h : checkClosureMask view offset idx mask = .ok ())
    {parameters returns : List SignatureToken}
    (harity : view.arity idx = .ok (parameters, returns)) :
    (mask.extract parameters true).length = mask.capturedCount := by
  unfold checkClosureMask at h
  rw [harity, Except.ok_bind] at h
  apply ClosureMask.extract_length
  by_contra hnot
  rw [Bool.not_eq_false] at hnot
  simp only [hnot, if_true] at h
  cases h

/-- The branches of code whose indices are checked stay inside it. -/
theorem branchesInside_of_checkCode (h : checkCode view fn = .ok ()) :
    BranchesInside fn.code.code := by
  unfold checkCode at h
  split at h
  · cases h
  · intro instr hinstr offset hoffset
    obtain ⟨i, hi⟩ := List.mem_iff_getElem?.mp hinstr
    have hcheck := checkEach_eq_ok h hi
    -- the offset of a branch is its index into the code
    have hindex : instr.index view fn
        = some ("code definition pool", fn.code.code.length, offset) := by
      cases instr <;> cases hoffset <;> rfl
    rw [checkIndex, hindex] at hcheck
    simp only at hcheck
    split at hcheck
    · cases hcheck
    · omega

/-- **What the passes leave.** One fact for each pass that the function went through. -/
theorem verifiedCode_of_verifyFunction
    (h : CodeUnitVerifier.verifyFunction config view fn = .ok ()) :
    VerifiedCode config view fn := by
  obtain ⟨hbounds, h⟩ := Except.bind_unit_eq_ok.mp h
  obtain ⟨hclosures, h⟩ := Except.bind_unit_eq_ok.mp h
  obtain ⟨hinstructions, h⟩ := Except.bind_unit_eq_ok.mp h
  obtain ⟨hfall, h⟩ := Except.bind_unit_eq_ok.mp h
  obtain ⟨hstack, hlocals⟩ := Except.bind_unit_eq_ok.mp h
  refine ⟨branchesInside_of_checkCode hbounds, ?_, ?_, ?_, hstack, hlocals⟩
  · -- the last instruction is an unconditional branch
    unfold verifyFallthrough at hfall
    split at hfall
    · cases hfall
    · rename_i last hlast
      split at hfall
      · rename_i hbranch
        exact ⟨last, hlast, hbranch⟩
      · cases hfall
  · -- the signature of every closure call was looked at
    intro pc idx hinstr
    have hcheck := checkEach_eq_ok hclosures hinstr
    obtain ⟨signature, hsignature, hcheck⟩ := Except.bind_eq_ok.mp hcheck
    rw [tableAt_eq_ok] at hsignature
    split at hcheck
    · exact ⟨_, _, _, hsignature⟩
    · cases hcheck
  · -- so was every instruction, counting from zero
    intro pc instr hinstr
    have hcheck := checkEach_eq_ok hinstructions hinstr
    rwa [Nat.zero_add] at hcheck

/-- Verified code has a last instruction. -/
theorem VerifiedCode.nonempty (h : VerifiedCode config view fn) : fn.code.code ≠ [] := by
  obtain ⟨last, hlast, -⟩ := h.last
  intro hnil
  rw [hnil] at hlast
  cases hlast

/-- What is not an unconditional branch is followed by another instruction, where it goes on. -/
theorem VerifiedCode.next_mem (h : VerifiedCode config view fn) {pc : Nat} {instr : Bytecode}
    (hinstr : fn.code.code[pc]? = some instr) (hbranch : instr.isUnconditionalBranch = false) :
    pc + 1 ∈ Bytecode.getSuccessors pc fn.code.code := by
  obtain ⟨last, hlast, hlastBranch⟩ := h.last
  obtain ⟨hpc, hget⟩ := List.getElem?_eq_some_iff.mp hinstr
  refine (Bytecode.mem_getSuccessors hinstr).mpr (.inr ⟨rfl, ?_, hbranch⟩)
  by_contra hend
  rw [List.getLast?_eq_getElem?, show fn.code.code.length - 1 = pc by omega, hinstr] at hlast
  rw [Option.some.inj hlast, hlastBranch] at hbranch
  cases hbranch

end Verified

end NexusMove
