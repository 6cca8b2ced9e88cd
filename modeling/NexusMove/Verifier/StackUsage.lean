import NexusMove.Verifier.ControlFlowGraph

/-!
# Stack usage

`stack_usage_verifier.rs`: no basic block takes more from the operand stack than it has put there,
and none leaves anything behind; a `Ret` takes what the function returns.

* `instructionEffect`, `verifyBlock`, `StackUsageVerifier.verify` — the code.
* `HeightAt` — how much of the stack belongs to the function before an instruction.
* `stackUsage_step` — an instruction finds what it takes, and leaves the height of the next.
-/

namespace NexusMove

/-- The limits that the stack verifier looks at. -/
structure VerifierConfig where
  maxValueStackSize : Nat
  maxPushSize : Option Nat

/-- The limits on the stack in the default configuration. -/
def VerifierConfig.default : VerifierConfig where
  maxValueStackSize := 1024
  maxPushSize := none

section Code

variable (config : VerifierConfig) (view : BinaryIndexedView) (fn : FunctionView)

/-- The numbers of pops and pushes of an instruction. -/
def instructionEffect : Bytecode → Except VerifierError (Nat × Nat)
  -- pop, but do not push
  | .pop | .brTrue _ | .brFalse _ | .stLoc _ | .abort => .ok (1, 0)
  -- push, but do not pop
  | .ldU8 _ | .ldU16 _ | .ldU32 _ | .ldU64 _ | .ldU128 _ | .ldU256 _ | .ldTrue | .ldFalse
  | .ldConst _ | .copyLoc _ | .moveLoc _ | .mutBorrowLoc _ | .immBorrowLoc _ => .ok (0, 1)
  -- pop and push once
  | .not | .freezeRef | .readRef | .exists _ | .existsGeneric _ | .mutBorrowGlobal _
  | .mutBorrowGlobalGeneric _ | .immBorrowGlobal _ | .immBorrowGlobalGeneric _
  | .mutBorrowField _ | .mutBorrowFieldGeneric _ | .immBorrowField _ | .immBorrowFieldGeneric _
  | .mutBorrowVariantField _ | .mutBorrowVariantFieldGeneric _ | .immBorrowVariantField _
  | .immBorrowVariantFieldGeneric _ | .testVariant _ | .testVariantGeneric _ | .moveFrom _
  | .moveFromGeneric _ | .castU8 | .castU16 | .castU32 | .castU64 | .castU128 | .castU256
  | .vecLen _ | .vecPopBack _ => .ok (1, 1)
  -- binary operations
  | .add | .sub | .mul | .mod | .div | .bitOr | .bitAnd | .xor | .shl | .shr | .or | .and | .eq
  | .neq | .lt | .gt | .le | .ge => .ok (2, 1)
  | .vecPack _ num => .ok (num, 1)
  | .vecUnpack _ num => .ok (1, num)
  | .vecImmBorrow _ | .vecMutBorrow _ => .ok (2, 1)
  | .moveTo _ | .moveToGeneric _ | .writeRef | .vecPushBack _ => .ok (2, 0)
  | .vecSwap _ => .ok (3, 0)
  | .branch _ | .nop => .ok (0, 0)
  | .ret => .ok (fn.returns.length, 0)
  | .call idx => do
    let (parameters, returns) ← view.arity idx
    return (parameters.length, returns.length)
  | .callGeneric idx => do
    let (parameters, returns) ← view.arity (← tableAt view.functionInstantiations idx).handle
    return (parameters.length, returns.length)
  | .callClosure sig => do
    match (← tableAt view.signatures sig).head? with
    | some (.function args results _) => return (1 + args.length, results.length)
    -- the signature checker has seen to this
    | _ => return (0, 0)
  | .packClosure idx mask => do
    let (parameters, _) ← view.arity idx
    return ((mask.extract parameters true).length, 1)
  | .packClosureGeneric idx mask => do
    let (parameters, _) ← view.arity (← tableAt view.functionInstantiations idx).handle
    return ((mask.extract parameters true).length, 1)
  | .pack idx => do return (← view.structFieldCount idx, 1)
  | .packGeneric idx => do return (← view.structInstantiationFieldCount idx, 1)
  | .packVariant idx => do return (← view.variantFieldCount idx, 1)
  | .packVariantGeneric idx => do return (← view.variantInstantiationFieldCount idx, 1)
  | .unpack idx => do return (1, ← view.structFieldCount idx)
  | .unpackGeneric idx => do return (1, ← view.structInstantiationFieldCount idx)
  | .unpackVariant idx => do return (1, ← view.variantFieldCount idx)
  | .unpackVariantGeneric idx => do return (1, ← view.variantInstantiationFieldCount idx)

/-- `u64::checked_add` of the pushes of a block; an overflow leaves them as they are. -/
def addPushes (overallPush numPushes : Nat) : Nat :=
  if overallPush + numPushes < 2 ^ 64 then overallPush + numPushes else overallPush

/-- One turn of the loop over a block: the height of the stack above its beginning, and all pushes
so far. -/
def verifyInstruction (blockStart : Nat) (acc : Nat × Nat) (i : Nat) :
    Except VerifierError (Nat × Nat) := do
  let (numPops, numPushes) ← instructionEffect view fn (fn.code.code.getD i .nop)
  let overallPush := addPushes acc.2 numPushes
  if config.maxPushSize.any (· < overallPush) then
    throw (.at StatusCode.valueStackPushOverflow blockStart)
  else if acc.1 < numPops then throw (.at StatusCode.negativeStackSizeWithinBlock blockStart)
  else if 2 ^ 64 ≤ acc.1 - numPops + numPushes then
    throw (.at StatusCode.positiveStackSizeAtBlockEnd blockStart)
  else if config.maxValueStackSize < acc.1 - numPops + numPushes then
    throw (.at StatusCode.valueStackOverflow blockStart)
  else return (acc.1 - numPops + numPushes, overallPush)

/-- `verify_block`: the stack is empty before a block and after it. -/
def verifyBlock (cfg : VMControlFlowGraph) (id : BlockId) : Except VerifierError Unit := do
  let blockStart := VMControlFlowGraph.blockStart id
  let (stackSizeIncrement, _) ←
    (cfg.instrIndexes id).foldlM (verifyInstruction config view fn blockStart) (0, 0)
  if stackSizeIncrement = 0 then return ()
  else throw (.at StatusCode.positiveStackSizeAtBlockEnd blockStart)

def verifyBlocks (cfg : VMControlFlowGraph) : List BlockId → Except VerifierError Unit
  | [] => .ok ()
  | id :: ids => do
    verifyBlock config view fn cfg id
    verifyBlocks cfg ids

def StackUsageVerifier.verify : Except VerifierError Unit :=
  let cfg := VMControlFlowGraph.new fn.code.code
  verifyBlocks config view fn cfg (cfg.blocks.map Prod.fst)

end Code

/-! ## Heights -/

section Heights

variable {config : VerifierConfig} {view : BinaryIndexedView} {fn : FunctionView}

/-- The height of the stack before an instruction, counted from the beginning of its block, where
it is that of the beginning of the function. -/
def HeightAt (config : VerifierConfig) (view : BinaryIndexedView) (fn : FunctionView) (pc : Nat)
    (height : Nat) : Prop :=
  ∃ id b pushes, InBlock fn.code.code pc id b
    ∧ (List.range' id (pc - id)).foldlM (verifyInstruction config view fn id) (0, 0)
      = .ok (height, pushes)

/-- One instruction that passes: it pops what is there, and stays within the limit. -/
theorem verifyInstruction_eq_ok {blockStart i : Nat} {acc acc' : Nat × Nat}
    (h : verifyInstruction config view fn blockStart acc i = .ok acc') :
    ∃ pops pushes, instructionEffect view fn (fn.code.code.getD i .nop) = .ok (pops, pushes)
      ∧ pops ≤ acc.1 ∧ acc'.1 = acc.1 - pops + pushes ∧ acc'.1 ≤ config.maxValueStackSize := by
  obtain ⟨⟨pops, pushes⟩, heffect, h⟩ := Except.bind_eq_ok.mp h
  simp only at h
  split at h
  · cases h
  · split at h
    · cases h
    · rename_i hpops
      split at h
      · cases h
      · split at h
        · cases h
        · rename_i hsize
          cases h
          exact ⟨pops, pushes, heffect, Nat.not_lt.mp hpops, rfl, Nat.not_lt.mp hsize⟩

theorem verifyBlock_of_mem {cfg : VMControlFlowGraph} {ids : List BlockId} {id : BlockId}
    (h : verifyBlocks config view fn cfg ids = .ok ()) (hid : id ∈ ids) :
    verifyBlock config view fn cfg id = .ok () := by
  induction ids with
  | nil => cases hid
  | cons id' ids ih =>
    obtain ⟨hfirst, hrest⟩ := Except.bind_unit_eq_ok.mp h
    rcases List.mem_cons.mp hid with rfl | hid
    · exact hfirst
    · exact ih hrest hid

/-- A function begins without anything on the stack. -/
theorem heightAt_entry (hcode : fn.code.code ≠ []) :
    HeightAt config view fn entryBlockId 0 := by
  obtain ⟨b, hb⟩ := entry_inBlock hcode
  exact ⟨entryBlockId, b, 0, hb, rfl⟩

/-- **One instruction.** It finds on the stack what it takes, and leaves the height at which each
instruction that may follow begins; at the end of a block nothing is left. -/
theorem stackUsage_step (hbranches : BranchesInside fn.code.code)
    (hverify : StackUsageVerifier.verify config view fn = .ok ()) {pc height : Nat}
    (h : HeightAt config view fn pc height) {instr : Bytecode}
    (hinstr : fn.code.code[pc]? = some instr) :
    ∃ pops pushes, instructionEffect view fn instr = .ok (pops, pushes) ∧ pops ≤ height
      ∧ height - pops + pushes ≤ config.maxValueStackSize
      ∧ (instr.isBranch = true → height - pops + pushes = 0)
      ∧ ∀ next ∈ Bytecode.getSuccessors pc fn.code.code,
        HeightAt config view fn next (height - pops + pushes) := by
  obtain ⟨id, b, overall, hb, hsofar⟩ := h
  have hblock := verifyBlock_of_mem hverify hb.mem_ids
  obtain ⟨⟨final, overall'⟩, hfold, hfinal⟩ := Except.bind_eq_ok.mp hblock
  -- the block has passed, so its fold ends at zero
  have hzero : final = 0 := by
    simp only at hfinal
    split at hfinal
    · assumption
    · cases hfinal
  -- the fold along the block, cut at this instruction
  obtain ⟨⟨height', overall''⟩, hstep, hinner, hexit⟩ := hb.foldlM_step hfold hsofar
  obtain ⟨pops, pushes, heffect, hpops, hheight, hsize⟩ := verifyInstruction_eq_ok hstep
  have hget : fn.code.code.getD pc .nop = instr := by
    rw [List.getD, hinstr]
    rfl
  rw [hget] at heffect
  simp only at hpops hheight hsize
  -- after the last instruction of a block nothing is left
  have hend : pc = b.exit → height - pops + pushes = 0 := by
    intro hpc
    have hlast := congrArg Prod.fst (hexit hpc)
    rw [← hheight, ← hzero]
    exact hlast
  refine ⟨pops, pushes, heffect, hpops, hheight ▸ hsize,
    fun hbranch => hend (hb.eq_exit hinstr hbranch), fun next hnext => ?_⟩
  -- to another block, where the height begins at zero, or on within the block
  by_cases hpc : pc = b.exit
  · have hsucc : next ∈ b.successors := by rwa [hb.successors, ← hpc]
    obtain ⟨b', hb'⟩ := successor_inBlock hbranches hb hsucc
    refine ⟨next, b', 0, hb', ?_⟩
    rw [hend hpc, Nat.sub_self]
    rfl
  · rw [hb.getSuccessors_inner hpc] at hnext
    obtain rfl := List.mem_singleton.mp hnext
    have hle := hb.le
    have hge := hb.ge
    refine ⟨id, b, overall'', ⟨hb.lookup, hb.isBlock, hb.successors, by omega, by omega⟩, ?_⟩
    rw [← hheight]
    exact hinner hpc

end Heights

end NexusMove
