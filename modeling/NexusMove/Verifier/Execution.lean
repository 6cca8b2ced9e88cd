import NexusMove.Verifier.CodeUnit
import NexusMove.Vm.CallGuards

/-!
# Execution of function bodies

`execute_main` and `execute_code_impl` of `interpreter.rs`, as to control, the operand stack and
the call stack: which instruction is next, how many values it takes and puts back, and which
locals have one. What the values are is left open: whatever depends on them comes with a step, as
its outcome.

Left out: gas, and the checks that only refuse (access control, reentrancy, depth, types in
paranoid mode); a step may fail with any status of theirs.

* `LoadedFunction`, `Program` — functions of verified modules, and how they are linked.
* `Frame`, `State`, `Outcome` — what is executed, and what is left open.
* `step` — the code.
* `Outcome.Typed` — what the types of values promise of an outcome.
-/

namespace NexusMove

namespace StatusCode

def pcOverflow : UInt64 := 2005

end StatusCode

namespace Execution

/-- A function, whose module was verified when it was loaded. -/
structure LoadedFunction where
  module : BinaryIndexedView
  view : FunctionView
  isNative : Bool
  verified : isNative = false →
    CodeUnitVerifier.verifyFunction .default module view = .ok ()

namespace LoadedFunction

variable (f : LoadedFunction)

def code : List Bytecode := f.view.code.code

def localTys : List SignatureToken := f.view.parameters ++ f.view.locals

end LoadedFunction

/-- How the handles of functions are resolved: to functions with as many parameters and results, as
the check of imported functions sees to. -/
structure Program where
  resolve : LoadedFunction → Nat → Except UInt64 LoadedFunction
  linked : ∀ f idx callee parameters returns, resolve f idx = .ok callee →
    f.module.arity idx = .ok (parameters, returns) →
    callee.view.parameters.length = parameters.length
      ∧ callee.view.returns.length = returns.length

/-- Why a step fails. `status` stands for what depends on values. -/
inductive Fault where
  | emptyValueStack
  | pcOverflow
  | invalidLocal (idx : Nat)
  | localOutOfBounds (idx : Nat)
  | borrowOutOfBounds (idx : Nat)
  | inconsistentClosureMask
  | executionStackOverflow
  | callStackOverflow
  | arityMismatch
  | status (majorStatus : UInt64)

namespace Fault

/-- The status that a fault is reported with. -/
def majorStatus : Fault → UInt64
  | emptyValueStack => StatusCode.emptyValueStack
  | pcOverflow => StatusCode.pcOverflow
  | invalidLocal _ => StatusCode.unknownInvariantViolationError
  | localOutOfBounds _ => StatusCode.verifierInvariantViolation
  -- `borrow_loc` has a status of its own for the same mistake
  | borrowOutOfBounds _ => StatusCode.unknownInvariantViolationError
  | inconsistentClosureMask => StatusCode.unknownInvariantViolationError
  | executionStackOverflow => StatusCode.executionStackOverflow
  | callStackOverflow => StatusCode.callStackOverflow
  | arityMismatch => StatusCode.unknownInvariantViolationError
  | status majorStatus => majorStatus

/-- What the verifier is there to exclude. -/
def isExcluded : Fault → Bool
  | emptyValueStack | pcOverflow | invalidLocal _ | localOutOfBounds _ | borrowOutOfBounds _
  | inconsistentClosureMask => true
  | executionStackOverflow | callStackOverflow | arityMismatch | status _ => false

end Fault

/-- A function with the arguments that are captured, in the order of the parameters: one for each
position of the mask, as at the instruction that builds it (`At.packed`). -/
structure Closure (Val : Type) where
  function : LoadedFunction
  mask : ClosureMask
  captured : List Val
  captured_length :
    captured.length = (mask.extract function.view.parameters true).length

/-- What a native function comes back with. -/
inductive NativeResult (Val : Type) where
  | success (values : List Val)
  | abort
  | callFunction (target : LoadedFunction) (args : List Val)
  | loadModule

/-- What depends on values: whether a step fails, the condition of a branch, the value that an
instruction computes, the fields or elements that it unpacks, the closure that it calls, what
natives do, and what becomes of the value of a local when references are written through: by the
depth of its frame and its index. -/
structure Outcome (Val : Type) where
  failure : Option UInt64
  condition : Bool
  value : Val
  values : List Val
  closure : Option (Closure Val)
  native : LoadedFunction → NativeResult Val
  write : Nat → Nat → Val → Val

/-- `Frame`, with the locals as values or nothing. -/
structure Frame (Val : Type) where
  function : LoadedFunction
  pc : Nat
  locals : List (Option Val)

/-- The operand stack is listed from its top, and the call stack from the last caller. -/
structure State (Val : Type) where
  operandStack : List Val
  frame : Frame Val
  callStack : List (Frame Val)

/-- The interpreter runs, or it has returned its values. -/
inductive Config (Val : Type) where
  | running (s : State Val)
  | returned (values : List Val)

variable {Val : Type}

/-! ## The operand stack -/

/-- `Stack::push`, up to the limit. -/
def push (v : Val) (stack : List Val) : Except Fault (List Val) :=
  if stack.length < operandStackSizeLimit then .ok (v :: stack) else .error .executionStackOverflow

/-- The values in order, so the last one is on top. -/
def pushAll : List Val → List Val → Except Fault (List Val)
  | [], stack => .ok stack
  | v :: vs, stack => do pushAll vs (← push v stack)

def pop : List Val → Except Fault (Val × List Val)
  | [] => .error .emptyValueStack
  | v :: stack => .ok (v, stack)

/-- The values below the last `n`. -/
def popn (n : Nat) (stack : List Val) : Except Fault (List Val) :=
  if stack.length < n then .error .emptyValueStack else .ok (stack.drop n)

/-- Whether there are `n` values. -/
def lastN (n : Nat) (stack : List Val) : Except Fault Unit :=
  if stack.length < n then .error .emptyValueStack else .ok ()

/-! ## Locals -/

def copyLoc (locals : List (Option Val)) (idx : Nat) : Except Fault Val :=
  match locals[idx]? with
  | none => .error (.localOutOfBounds idx)
  | some none => .error (.invalidLocal idx)
  | some (some v) => .ok v

def swapLoc (locals : List (Option Val)) (idx : Nat) (x : Option Val) :
    Except Fault (Option Val × List (Option Val)) :=
  match locals[idx]? with
  | none => .error (.localOutOfBounds idx)
  | some old => .ok (old, locals.set idx x)

def moveLoc (locals : List (Option Val)) (idx : Nat) :
    Except Fault (Val × List (Option Val)) := do
  match ← swapLoc locals idx none with
  | (none, _) => throw (.invalidLocal idx)
  | (some v, locals) => return (v, locals)

def storeLoc (locals : List (Option Val)) (idx : Nat) (v : Val) :
    Except Fault (List (Option Val)) := do
  return (← swapLoc locals idx (some v)).2

/-- Whether a local can be borrowed. -/
def borrowLoc (locals : List (Option Val)) (idx : Nat) : Except Fault Unit :=
  match locals[idx]? with
  | none => .error (.borrowOutOfBounds idx)
  | some none => .error (.invalidLocal idx)
  | some (some _) => .ok ()

/-! ## References

A reference may point to a local of any frame. It points to one that has a value, as the
reference-safety checker sees to, so a write through it leaves a value there. -/

def Frame.written (w : Nat → Val → Val) (fr : Frame Val) : Frame Val :=
  { fr with locals := fr.locals.mapIdx fun idx v => v.map (w idx) }

/-- The locals of all frames, after writes through references. -/
def State.written (w : Nat → Nat → Val → Val) (s : State Val) : State Val :=
  { s with
    frame := s.frame.written (w 0)
    callStack := s.callStack.mapIdx fun depth fr => fr.written (w (depth + 1)) }

/-! ## Calls -/

/-- The loop of `make_call_frame`, from the last parameter to the first; captured arguments are
listed from the last. -/
def storeArgs (mask : ClosureMask) :
    Nat → List Val → List Val → List (Option Val) → Except Fault (List Val × List (Option Val))
  | 0, _, stack, locals => .ok (stack, locals)
  | i + 1, captured, stack, locals =>
    if mask.isCaptured i then
      match captured with
      | [] => .error .inconsistentClosureMask
      | v :: captured => do storeArgs mask i captured stack (← storeLoc locals i v)
    else do
      let (v, stack) ← pop stack
      storeArgs mask i captured stack (← storeLoc locals i v)

/-- The loop of `call_native_impl`, which leaves the arguments to the native. -/
def takeArgs (mask : ClosureMask) : Nat → List Val → List Val → Except Fault (List Val)
  | 0, _, stack => .ok stack
  | i + 1, captured, stack =>
    if mask.isCaptured i then
      match captured with
      | [] => .error .inconsistentClosureMask
      | _ :: captured => takeArgs mask i captured stack
    else do
      let (_, stack) ← pop stack
      takeArgs mask i captured stack

namespace State

variable (s : State Val)

/-- On to the next instruction. -/
def next (stack : List Val) : Config Val :=
  .running { s with operandStack := stack, frame := { s.frame with pc := s.frame.pc + 1 } }

def jump (offset : Nat) (stack : List Val) : Config Val :=
  .running { s with operandStack := stack, frame := { s.frame with pc := offset } }

/-- `set_new_call_frame`: the captured arguments and those on the stack, each in its place. -/
def setNewCallFrame (f : LoadedFunction) (mask : ClosureMask) (captured stack : List Val) :
    Except Fault (Config Val) := do
  let (stack, locals) ← storeArgs mask f.view.parameters.length captured.reverse stack
    (List.replicate f.localTys.length none)
  if s.callStack.length < callStackSizeLimit then
    return .running ⟨stack, ⟨f, 0, locals⟩, s.frame :: s.callStack⟩
  else throw .callStackOverflow

/-- `call_native_impl`. Of the comparison of types in a dispatch, the numbers are left. -/
def callNative (o : Outcome Val) (f : LoadedFunction) (mask : ClosureMask)
    (captured stack : List Val) : Except Fault (Config Val) := do
  let stack ← takeArgs mask f.view.parameters.length captured.reverse stack
  -- a native may have written through the references it was given
  let s := s.written o.write
  match o.native f with
  | .success values =>
    -- a native must give back as many values as its signature says
    if values.length ≠ f.view.returns.length then throw .arityMismatch
    else return s.next (← pushAll values stack)
  | .abort => throw (.status StatusCode.aborted)
  | .callFunction target args =>
    -- a dispatch takes the same arguments but for the function, and gives the same results
    if target.isNative = true
        ∨ f.view.returns.length ≠ target.view.returns.length
        ∨ f.view.parameters.length ≠ target.view.parameters.length + 1 then
      throw (.status StatusCode.runtimeDispatchError)
    else s.setNewCallFrame target ⟨0⟩ [] (← pushAll args stack)
  | .loadModule => return s.next stack

/-- A native function has no frame. -/
def call (o : Outcome Val) (f : LoadedFunction) (mask : ClosureMask) (captured stack : List Val) :
    Except Fault (Config Val) :=
  if f.isNative then s.callNative o f mask captured stack
  else s.setNewCallFrame f mask captured stack

/-- A call of a function handle. -/
def callHandle (program : Program) (o : Outcome Val) (idx : Nat) : Except Fault (Config Val) := do
  let f ← (program.resolve s.frame.function idx).mapError Fault.status
  lastN f.view.parameters.length s.operandStack
  s.call o f ⟨0⟩ [] s.operandStack

/-- The caller finds the results on top of the stack. -/
def ret : Config Val :=
  match s.callStack with
  | [] => .returned s.operandStack
  | frame :: callStack =>
    .running { s with frame := { frame with pc := frame.pc + 1 }, callStack }

end State

/-! ## Instructions -/

/-- How many values an instruction takes that only computes, and what it puts back. -/
def operands (o : Outcome Val) (module : BinaryIndexedView) :
    Bytecode → Option (Except Fault (Nat × List Val))
  | .pop => some (.ok (1, []))
  | .ldU8 _ | .ldU16 _ | .ldU32 _ | .ldU64 _ | .ldU128 _ | .ldU256 _ | .ldTrue | .ldFalse
  | .ldConst _ => some (.ok (0, [o.value]))
  -- references know nothing of being mutable
  | .freezeRef | .nop => some (.ok (0, []))
  | .not | .readRef | .exists _ | .existsGeneric _ | .mutBorrowGlobal _
  | .mutBorrowGlobalGeneric _ | .immBorrowGlobal _ | .immBorrowGlobalGeneric _
  | .mutBorrowField _ | .mutBorrowFieldGeneric _ | .immBorrowField _ | .immBorrowFieldGeneric _
  | .mutBorrowVariantField _ | .mutBorrowVariantFieldGeneric _ | .immBorrowVariantField _
  | .immBorrowVariantFieldGeneric _ | .testVariant _ | .testVariantGeneric _ | .moveFrom _
  | .moveFromGeneric _ | .castU8 | .castU16 | .castU32 | .castU64 | .castU128 | .castU256
  | .vecLen _ | .vecPopBack _ => some (.ok (1, [o.value]))
  | .add | .sub | .mul | .mod | .div | .bitOr | .bitAnd | .xor | .shl | .shr | .or | .and | .eq
  | .neq | .lt | .gt | .le | .ge | .vecImmBorrow _ | .vecMutBorrow _ => some (.ok (2, [o.value]))
  | .moveTo _ | .moveToGeneric _ | .writeRef | .vecPushBack _ => some (.ok (2, []))
  | .vecSwap _ => some (.ok (3, []))
  | .vecUnpack _ num =>
    some (if o.values.length = num then .ok (1, o.values)
      else .error (.status StatusCode.vectorOperationError))
  | .packClosure _ mask | .packClosureGeneric _ mask =>
    some (.ok (mask.capturedCount, [o.value]))
  | .pack idx => some (fields (module.structFieldCount idx))
  | .packGeneric idx => some (fields (module.structInstantiationFieldCount idx))
  | .packVariant idx => some (fields (module.variantFieldCount idx))
  | .packVariantGeneric idx => some (fields (module.variantInstantiationFieldCount idx))
  | .unpack _ | .unpackGeneric _ | .unpackVariant _ | .unpackVariantGeneric _ =>
    some (.ok (1, o.values))
  | _ => none
where
  fields (count : Except VerifierError Nat) : Except Fault (Nat × List Val) :=
    (count.mapError fun e => .status e.majorStatus).map fun n => (n, [o.value])

/-- The instructions that write through a reference. -/
def writesRef : Bytecode → Bool
  | .writeRef | .vecPushBack _ | .vecPopBack _ | .vecSwap _ => true
  | _ => false

def State.wroteBy (o : Outcome Val) (s : State Val) (instr : Bytecode) : State Val :=
  if writesRef instr then s.written o.write else s

/-- One instruction that does more than to compute. -/
def transfer (program : Program) (o : Outcome Val) (s : State Val) :
    Bytecode → Except Fault (Config Val)
  | .ret => .ok s.ret
  | .brTrue offset => do
    let (_, stack) ← pop s.operandStack
    return if o.condition then s.jump offset stack else s.next stack
  | .brFalse offset => do
    let (_, stack) ← pop s.operandStack
    return if o.condition then s.next stack else s.jump offset stack
  | .branch offset => .ok (s.jump offset s.operandStack)
  | .abort => do
    let _ ← pop s.operandStack
    throw (.status StatusCode.aborted)
  | .copyLoc idx => do
    let v ← copyLoc s.frame.locals idx
    return s.next (← push v s.operandStack)
  | .moveLoc idx => do
    let (v, locals) ← moveLoc s.frame.locals idx
    return { s with frame := { s.frame with locals } : State Val }.next (← push v s.operandStack)
  | .stLoc idx => do
    let (v, stack) ← pop s.operandStack
    let locals ← storeLoc s.frame.locals idx v
    return { s with frame := { s.frame with locals } : State Val }.next stack
  | .mutBorrowLoc idx | .immBorrowLoc idx => do
    borrowLoc s.frame.locals idx
    return s.next (← push o.value s.operandStack)
  | .call idx => s.callHandle program o idx
  | .callGeneric idx => do
    let inst ← (tableAt s.frame.function.module.functionInstantiations idx).mapError
      fun e => .status e.majorStatus
    s.callHandle program o inst.handle
  | .callClosure _ => do
    let (_, stack) ← pop s.operandStack
    -- what is popped must be a closure
    match o.closure with
    | none => throw (.status StatusCode.internalTypeError)
    | some c => do
      lastN (c.function.view.parameters.length - c.mask.capturedCount) stack
      s.call o c.function c.mask c.captured stack
  | .vecPack _ num => do
    lastN num s.operandStack
    -- the number is cut to 16 bits
    let stack ← popn (num % 2 ^ 16) s.operandStack
    return s.next (← push o.value stack)
  -- every other instruction computes
  | _ => .error (.status StatusCode.unreachable)

/-- One step. -/
def step (program : Program) (o : Outcome Val) (s : State Val) : Except Fault (Config Val) :=
  match s.frame.function.code[s.frame.pc]? with
  | none => .error .pcOverflow
  | some instr =>
    match o.failure with
    | some majorStatus => .error (.status majorStatus)
    | none =>
      match operands o s.frame.function.module instr with
      | some result => do
        let (pops, values) ← result
        let stack ← popn pops s.operandStack
        return (s.wroteBy o instr).next (← pushAll values stack)
      | none => transfer program o s instr

/-! ## What types promise -/

/-- The instructions that take a struct apart. -/
def unpacks : Bytecode → Bool
  | .unpack _ | .unpackGeneric _ | .unpackVariant _ | .unpackVariantGeneric _ => true
  | _ => false

/-- The function handle and the mask of the instructions that build a closure. -/
def packsClosure (module : BinaryIndexedView) : Bytecode → Option (Nat × ClosureMask)
  | .packClosure idx mask => some (idx, mask)
  | .packClosureGeneric idx mask =>
    module.functionInstantiations[idx]?.map fun inst => (inst.handle, mask)
  | _ => none

/-- What the type checker sees to at an instruction, and natives see to anyway: a struct has the
fields that are declared, a closure has the type that is called, and a native that goes on with
another function, or loads a module, hands over as many arguments and results as it has to. -/
structure Outcome.Typed (o : Outcome Val) (f : LoadedFunction) (instr : Bytecode) : Prop where
  fields : ∀ pops pushes, unpacks instr = true →
    instructionEffect f.module f.view instr = .ok (pops, pushes) → o.values.length = pushes
  closure : ∀ sig args results abilities c, instr = Bytecode.callClosure sig →
    f.module.signatures[sig]? = some [SignatureTokenOf.function args results abilities] →
    o.closure = some c →
    (c.mask.extract c.function.view.parameters false).length = args.length
      ∧ c.function.view.returns.length = results.length
  dispatch : ∀ callee target args, o.native callee = .callFunction target args →
    args.length = target.view.parameters.length
  loadModule : ∀ callee, o.native callee = .loadModule → callee.view.returns = []

/-- A step whose outcome is of the types that it should be. -/
def Steps (program : Program) (s s' : State Val) : Prop :=
  ∃ o : Outcome Val,
    (∀ instr, s.frame.function.code[s.frame.pc]? = some instr → o.Typed s.frame.function instr)
      ∧ step program o s = .ok (.running s')

/-- The first lines of `execute_main`. -/
def enter (f : LoadedFunction) (args : List Val) : State Val where
  operandStack := []
  frame := ⟨f, 0, args.map some ++ List.replicate (f.localTys.length - args.length) none⟩
  callStack := []

end Execution

end NexusMove
