import NexusMove.Vm.DataCache

/-!
# The interpreter as a machine

`interpreter.rs`: an operand stack, the locals of the frames, and the data cache. A
step takes one instruction; what the compiled function says about it (field offsets,
types, numbers of locals) comes with the instruction. Instructions that look at no
cell of memory other than what they are given, and natives that return new values,
are one instruction, `compute`. Runs are not assumed to come from verified code.

Left out: gas, the checks that only refuse (types in paranoid mode, depth, access
control, reentrancy), and closures that capture values.

* `Instr`, `Event` — what a step is told.
* `Machine.step`, `Machine.run` — one step, and a run of them.
* `Machine.enter` — where a run starts.
-/

namespace NexusMove

def operandStackSizeLimit : Nat := 1024
def callStackSizeLimit : Nat := 1024

/-- A function of the arguments and of what they refer to, whose results are new values. -/
abbrev Native := Heap ValueImpl → List ValueImpl → VMResult (List (Layout × Value))

inductive Instr where
  | pop
  | copyLoc (idx : Nat) | moveLoc (idx : Nat) | stLoc (idx : Nat) | borrowLoc (idx : Nat)
  | borrowField (offset : Nat)
  | borrowVariantField (variants : List UInt16) (offset : Nat)
  | pack (fieldCount : Nat)
  | packVariant (variant : UInt16) (fieldCount : Nat)
  | unpack
  | unpackVariant (variant : UInt16)
  | testVariant (variant : UInt16)
  | readRef | writeRef | freezeRef
  | borrowGlobal (ty : ResourceTy) | exists (ty : ResourceTy)
  | moveFrom (ty : ResourceTy) | moveTo (ty : ResourceTy)
  | vecPack (ty : Ty) (num : Nat)
  | vecLen (ty : Ty) | vecBorrow (ty : Ty) | vecPushBack (ty : Ty) | vecPopBack (ty : Ty)
  | vecUnpack (ty : Ty) (num : Nat)
  | vecSwap (ty : Ty)
  | call (numParams numLocals : Nat)
  | ret
  | borrowSigner
  | compute (numArgs : Nat) (native : Native)

/-- An instruction, with the number of pointers to each cell at the time, and how deep the values
are that it copies. -/
structure Event where
  instr : Instr
  rc : Nat → Nat
  depth : Nat

/-- The state of a run. The operand stack is listed from its top, the frames from the current one.
What the references among the arguments refer to is in locals of its own. -/
structure Machine where
  memory : VmMemory
  operands : List ValueImpl
  frames : List Locals
  dummyLocals : Locals
  dataStore : TransactionDataCache

namespace Machine

/-! ## The operand stack -/

/-- `Stack::push`: a full stack refuses the value. -/
def push (x : ValueImpl) (M : Machine) : VMResult Machine :=
  if M.operands.length < operandStackSizeLimit then .ok { M with operands := x :: M.operands }
  else .error (partialError StatusCode.executionStackOverflow none)

def pushAll : List ValueImpl → Machine → VMResult Machine
  | [], M => .ok M
  | x :: xs, M => do pushAll xs (← M.push x)

/-- `Stack::pop`. -/
def pop (M : Machine) : VMResult (ValueImpl × Machine) :=
  match M.operands with
  | [] => .error (partialError StatusCode.emptyValueStack none)
  | x :: xs => .ok (x, { M with operands := xs })

/-- The last `n` values that were pushed, in the order in which they were pushed. -/
def popn (n : Nat) (M : Machine) : VMResult (List ValueImpl × Machine) :=
  if M.operands.length < n then .error (partialError StatusCode.emptyValueStack none)
  else .ok ((M.operands.take n).reverse, { M with operands := M.operands.drop n })

/-- `pop_as` for struct, vector and signer references. -/
def popContainerRef (M : Machine) : VMResult (ContainerRef × Machine) := do
  match ← M.pop with
  | (.containerRef r, M) => .ok (r, M)
  | _ => .error internalTypeError

def popContainer (M : Machine) : VMResult (Container × Machine) := do
  match ← M.pop with
  | (.container c, M) => .ok (c, M)
  | _ => .error internalTypeError

def popAddress (M : Machine) : VMResult (AccountAddress × Machine) := do
  match ← M.pop with
  | (.prim (.address a), M) => .ok (a, M)
  | _ => .error internalTypeError

def popU64 (M : Machine) : VMResult (Nat × Machine) := do
  match ← M.pop with
  | (.prim (.u64 n), M) => .ok (n.toNat, M)
  | _ => .error internalTypeError

/-- `pop_as::<Struct>`: the cells of the struct are taken out of memory. -/
def popStruct (rc : Nat → Nat) (M : Machine) : VMResult (List ValueImpl × Machine) := do
  let (x, M) ← M.pop
  let (fields, m) ← castStruct rc x M.memory
  return (fields, { M with memory := m })

/-- The locals of the current frame. -/
def locals (M : Machine) : VMResult Locals :=
  match M.frames with
  | [] => .error (invariantViolation none)
  | l :: _ => .ok l

/-! ## Calls -/

/-- `make_call_frame`: the arguments are popped from the last to the first. -/
def storeArgs (l : Locals) (rc : Nat → Nat) : Nat → Machine → VMResult Machine
  | 0, M => .ok M
  | n + 1, M => do
    let (x, M) ← M.pop
    let m ← l.storeLoc rc n x M.memory
    storeArgs l rc n { M with memory := m }

/-- `Locals::new`. -/
def newLocals (n : Nat) (m : VmMemory) : Locals × VmMemory :=
  (m.heap.next, (m.alloc .locals (List.replicate n .invalid)).2)

def call (numParams numLocals : Nat) (rc : Nat → Nat) (M : Machine) : VMResult Machine := do
  let (l, m) := newLocals numLocals M.memory
  let M ← storeArgs l rc numParams { M with memory := m }
  if M.frames.length ≤ callStackSizeLimit then .ok { M with frames := l :: M.frames }
  else .error (partialError StatusCode.callStackOverflow none)

/-- `Ret`: the values of the frame are dropped with it. -/
def ret (M : Machine) : VMResult Machine := do
  let l ← M.locals
  return { M with memory := l.dropAllValues M.memory, frames := M.frames.tail }

/-- The results of a native are new values. -/
def representAll : List (Layout × Value) → VmMemory → VMResult (List ValueImpl × VmMemory)
  | [], m => .ok ([], m)
  | (layout, value) :: rest, m =>
    match represent layout value m with
    | none => .error panicked
    | some (x, m) => do
      let (xs, m) ← representAll rest m
      return (x :: xs, m)

def compute (numArgs : Nat) (native : Native) (M : Machine) : VMResult Machine := do
  let (args, M) ← M.popn numArgs
  let results ← native M.memory.heap args
  let (xs, m) ← representAll results M.memory
  pushAll xs { M with memory := m }

/-! ## Global storage -/

section Storage

variable (v : Vendor) (k : TypeCosts) (state : NexusStateView)

/-- The message that the interpreter puts on an error of global storage. -/
def storageMessage (verb : String) (a : AccountAddress) (e : VMError) : VMError :=
  { e with message := some ("Failed to " ++ verb ++ " " ++ a.toHex) }

/-- `load_resource`, in the machine. -/
def load (a : AccountAddress) (ty : ResourceTy) (M : Machine) : VMResult (Slot × Machine) := do
  let (r, _, cache, m) ← loadResource v k state a ty M.dataStore M.memory
  return (r, { M with memory := m, dataStore := cache })

/-- The slot with its new value, in the place of the old one. -/
def putSlot (r : Slot) (value : GlobalValue) (M : Machine) : Machine :=
  { M with dataStore := M.dataStore.put { r with value } }

def borrowGlobal (ty : ResourceTy) (M : Machine) : VMResult Machine := do
  let (a, M) ← M.popAddress
  let (r, M) ← load v k state a ty M
  let x ← r.value.borrowGlobal.mapError (storageMessage "borrow global resource from" a)
  M.push x

def existsGlobal (ty : ResourceTy) (M : Machine) : VMResult Machine := do
  let (a, M) ← M.popAddress
  let (r, M) ← load v k state a ty M
  M.push (.prim (.bool r.value.isPresent))

def moveFrom (ty : ResourceTy) (rc : Nat → Nat) (M : Machine) : VMResult Machine := do
  let (a, M) ← M.popAddress
  let (r, M) ← load v k state a ty M
  let (x, value) ← (r.value.moveFrom rc).mapError (storageMessage "move resource from" a)
  (M.putSlot r value).push x

/-- The address of the signer that a reference on the stack refers to. -/
def popSignerAddress (depth : Nat) (M : Machine) : VMResult (AccountAddress × Machine) := do
  let (signer, M) ← M.popContainerRef
  let addressRef ← signer.borrowSigner M.memory
  match ← Reference.readRef depth addressRef M.memory with
  | (.prim (.address a), m) => .ok (a, { M with memory := m })
  | _ => .error internalTypeError

def moveTo (ty : ResourceTy) (depth : Nat) (M : Machine) : VMResult Machine := do
  let (resource, M) ← M.pop
  let (a, M) ← M.popSignerAddress depth
  let (r, M) ← load v k state a ty M
  let (value, m) ← (r.value.moveTo resource M.memory).mapError
    (storageMessage "move resource into" a)
  return { M with memory := m }.putSlot r value

end Storage

/-! ## Steps -/

section Steps

variable (v : Vendor) (k : TypeCosts) (state : NexusStateView)

/-- An instruction that does not look at global storage. -/
def stepLocal (e : Event) (M : Machine) : VMResult Machine :=
  match e.instr with
  | .pop => do return (← M.pop).2
  | .copyLoc idx => do
    let (x, m) ← (← M.locals).copyLoc e.depth idx M.memory
    push x { M with memory := m }
  | .moveLoc idx => do
    let (x, m) ← (← M.locals).moveLoc e.rc idx M.memory
    push x { M with memory := m }
  | .stLoc idx => do
    let (x, M) ← M.pop
    let m ← (← M.locals).storeLoc e.rc idx x M.memory
    return { M with memory := m }
  | .borrowLoc idx => do
    let x ← (← M.locals).borrowLoc idx M.memory
    M.push x
  | .borrowField offset => do
    let (r, M) ← M.popContainerRef
    let x ← r.borrowElem offset M.memory
    M.push x
  | .borrowVariantField variants offset => do
    let (r, M) ← M.popContainerRef
    let x ← r.borrowVariantField e.depth variants offset M.memory
    M.push x
  | .pack fieldCount => do
    let (args, M) ← M.popn fieldCount
    let (x, m) := M.memory.alloc .struct args
    push x { M with memory := m }
  | .packVariant variant fieldCount => do
    let (args, M) ← M.popn fieldCount
    let (x, m) := M.memory.alloc .struct (.prim (.u16 variant) :: args)
    push x { M with memory := m }
  | .unpack => do
    let (fields, M) ← M.popStruct e.rc
    pushAll fields M
  | .unpackVariant variant => do
    let (fields, M) ← M.popStruct e.rc
    pushAll (← NexusMove.unpackVariant variant fields) M
  | .testVariant variant => do
    let (r, M) ← M.popContainerRef
    let tag ← r.getVariantTag e.depth M.memory
    M.push (.prim (.bool (tag = variant)))
  | .readRef => do
    let (ref, M) ← M.pop
    let (x, m) ← Reference.readRef e.depth ref M.memory
    push x { M with memory := m }
  | .writeRef => do
    let (ref, M) ← M.pop
    let (x, M) ← M.pop
    let m ← Reference.writeRef e.rc ref x M.memory
    return { M with memory := m }
  | .freezeRef => .ok M
  | .vecPack ty num => do
    let (elems, M) ← M.popn num
    let (x, m) ← NexusMove.vecPack ty elems M.memory
    push x { M with memory := m }
  | .vecLen ty => do
    let (r, M) ← M.popContainerRef
    let len ← r.vecLen ty M.memory
    M.push (.prim (.u64 (.ofNat len)))
  | .vecBorrow ty => do
    let (idx, M) ← M.popU64
    let (r, M) ← M.popContainerRef
    let x ← r.vecBorrowElem ty idx M.memory
    M.push x
  | .vecPushBack ty => do
    let (x, M) ← M.pop
    let (r, M) ← M.popContainerRef
    let m ← r.vecPushBack ty x M.memory
    return { M with memory := m }
  | .vecPopBack ty => do
    let (r, M) ← M.popContainerRef
    let (x, m) ← r.vecPop ty M.memory
    push x { M with memory := m }
  | .vecUnpack ty num => do
    let (c, M) ← M.popContainer
    let (elems, m) ← NexusMove.vecUnpack e.rc ty num c M.memory
    pushAll elems { M with memory := m }
  | .vecSwap ty => do
    let (idx2, M) ← M.popU64
    let (idx1, M) ← M.popU64
    let (r, M) ← M.popContainerRef
    let m ← r.vecSwap ty idx1 idx2 M.memory
    return { M with memory := m }
  | .call numParams numLocals => M.call numParams numLocals e.rc
  | .ret => M.ret
  | .borrowSigner => do
    let (r, M) ← M.popContainerRef
    let x ← r.borrowSigner M.memory
    M.push x
  | .compute numArgs native => M.compute numArgs native
  | .borrowGlobal _ | .exists _ | .moveFrom _ | .moveTo _ => .error (invariantViolation none)

/-- One instruction. -/
def step (e : Event) (M : Machine) : VMResult Machine :=
  match e.instr with
  | .borrowGlobal ty => M.borrowGlobal v k state ty
  | .exists ty => M.existsGlobal v k state ty
  | .moveFrom ty => M.moveFrom v k state ty e.rc
  | .moveTo ty => M.moveTo v k state ty e.depth
  | _ => M.stepLocal e

/-- One instruction after the other, as long as none fails. -/
def run : List Event → Machine → VMResult Machine
  | [], M => .ok M
  | e :: es, M => do run es (← M.step v k state e)

/-! ## Where a run starts -/

/-- A parameter that is a reference gets one to a dummy local. -/
def passArg (dummy : Locals) (idx : Nat) (arg : Argument) (x : ValueImpl) (m : VmMemory) :
    VMResult (ValueImpl × VmMemory) :=
  match arg with
  | .owned _ => .ok (x, m)
  | .borrowed _ => do
    let m ← dummy.storeLoc (fun _ => 1) idx x m
    let ref ← dummy.borrowLoc idx m
    return (ref, m)

/-- `deserialize_args`, from where the arguments are read. -/
def enterArgs (dummy : Locals) : Nat → List (Layout × Argument) → VmMemory →
    VMResult (List ValueImpl × VmMemory)
  | _, [], m => .ok ([], m)
  | idx, (layout, arg) :: args, m =>
    match represent layout arg.value m with
    | none => .error panicked
    | some (x, m) => do
      let (x, m) ← passArg dummy idx arg x m
      let (xs, m) ← enterArgs dummy (idx + 1) args m
      return (x :: xs, m)

/-- The first lines of `execute_main`. -/
def storeEach (l : Locals) : Nat → List ValueImpl → VmMemory → VMResult VmMemory
  | _, [], m => .ok m
  | idx, x :: xs, m => do storeEach l (idx + 1) xs (← l.storeLoc (fun _ => 1) idx x m)

/-- A function with the given number of locals is entered with the arguments. -/
def enter (numLocals : Nat) (args : List (Layout × Argument)) : VMResult Machine := do
  let (dummy, m) := newLocals args.length .empty
  let (xs, m) ← enterArgs dummy 0 args m
  let (l, m) := newLocals numLocals m
  let m ← storeEach l 0 xs m
  return { memory := m, operands := [], frames := [l], dummyLocals := dummy, dataStore := [] }

end Steps

end Machine

end NexusMove
