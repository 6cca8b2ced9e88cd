import NexusMove.Vm.Loader

/-!
# Entering a function

`move_vm.rs` and `ty_layout_converter.rs`: a loaded function is entered with
serialized arguments. The argument count must match; argument `i` is read at the
layout of parameter `i`, through a reference if the parameter is one; nothing
else is looked at. What the interpreter does from there on is a parameter.

* `typeToTypeLayout` — the layout of a type.
* `deserializeArgs`, `prepareEntry` — from bytes to the arguments of a function.
* `prepareEntry_eq_ok` — what each argument is read from.
-/

namespace NexusMove

/-! ## Layouts of types -/

def layoutMaxSize : Nat := 256
def layoutMaxDepth : Nat := 128

/-- The size part of `check_type_layout_bounds`. -/
def checkLayoutSize (count : Nat) : VMResult Unit :=
  if count > layoutMaxSize then
    .error (partialError StatusCode.tooManyTypeNodes
      (some ("Number of type nodes when constructing type layout exceeded the maximum of "
        ++ toString layoutMaxSize)))
  else .ok ()

def layoutList (impl : Ty → Nat → VMResult (Layout × Nat)) :
    List Ty → Nat → VMResult (List Layout × Nat)
  | [], count => .ok ([], count)
  | ty :: tys, count => do
    let (layout, count) ← impl ty count
    let (layouts, count) ← layoutList impl tys count
    return (layout :: layouts, count)

/-- The layouts of the fields of one variant, each field instantiated just before. -/
def fieldLayouts (impl : Ty → Nat → VMResult (Layout × Nat)) (tyArgs : List Ty) :
    List (Identifier × Ty) → Nat → VMResult (List Layout × Nat)
  | [], count => .ok ([], count)
  | (_, ty) :: fields, count => do
    let ty ← TypeBuilder.default.createTyWithSubst tyArgs ty
    let (layout, count) ← impl ty count
    let (layouts, count) ← fieldLayouts impl tyArgs fields count
    return (layout :: layouts, count)

def variantLayouts (impl : Ty → Nat → VMResult (Layout × Nat)) (tyArgs : List Ty) :
    List (Identifier × List (Identifier × Ty)) → Nat → VMResult (List (List Layout) × Nat)
  | [], count => .ok ([], count)
  | (_, fields) :: variants, count => do
    let (layouts, count) ← fieldLayouts impl tyArgs fields count
    let (rest, count) ← variantLayouts impl tyArgs variants count
    return (layouts :: rest, count)

section Code

variable (v : Vendor) (state : NexusStateView)

/-- `struct_name_to_type_layout`, given the layout function for the fields. Fields are never
delayed, so none is marked. -/
def structNameToTypeLayout (impl : Ty → Nat → VMResult (Layout × Nat)) (idx : StructIdentifier)
    (tyArgs : List Ty) (count : Nat) : VMResult (Layout × Nat) := do
  let structType ← fetchStructTy v state idx
  match structType.layout with
  | .single fields =>
    let fieldTys ← TypeBuilder.default.createTysWithSubst tyArgs (fields.map Prod.snd)
    let (layouts, count) ← layoutList impl fieldTys count
    return (.struct layouts, count)
  | .variants variants =>
    let (layouts, count) ← variantLayouts impl tyArgs variants count
    return (.variants layouts, count)

/-- `type_to_type_layout_impl`, by recursion on the levels of depth that are left. -/
def typeToTypeLayoutImpl : Nat → Ty → Nat → VMResult (Layout × Nat)
  | 0, _, count => do
    checkLayoutSize count
    throw (partialError StatusCode.vmMaxValueDepthReached
      (some ("Depth of a layout exceeded the maximum of " ++ toString layoutMaxDepth
        ++ " during construction")))
  | levels + 1, ty, count => do
    checkLayoutSize count
    match ty with
    | .bool => return (.bool, count + 1)
    | .u8 => return (.u8, count + 1)
    | .u16 => return (.u16, count + 1)
    | .u32 => return (.u32, count + 1)
    | .u64 => return (.u64, count + 1)
    | .u128 => return (.u128, count + 1)
    | .u256 => return (.u256, count + 1)
    | .address => return (.address, count + 1)
    | .signer => return (.signer, count + 1)
    | .vector elem =>
      let (layout, count) ← typeToTypeLayoutImpl levels elem (count + 1)
      return (.vector layout, count)
    | .struct idx _ =>
      structNameToTypeLayout v state (typeToTypeLayoutImpl levels) idx [] (count + 1)
    | .structInstantiation idx tyArgs _ =>
      structNameToTypeLayout v state (typeToTypeLayoutImpl levels) idx tyArgs (count + 1)
    | .function args results abilities =>
      let (args, count) ← layoutList (typeToTypeLayoutImpl levels) args (count + 1)
      let (results, count) ← layoutList (typeToTypeLayoutImpl levels) results count
      return (.function args results abilities, count)
    | .reference _ | .mutableReference _ | .tyParam _ =>
      throw (partialError StatusCode.unknownInvariantViolationError none)

/-- `type_to_type_layout_with_identifier_mappings`. -/
def typeToTypeLayout (ty : Ty) : VMResult Layout := do
  let (layout, _) ← typeToTypeLayoutImpl v state layoutMaxDepth ty 0
  return layout

/-! ## Arguments -/

/-- An argument: a value, or a reference to a local that holds it. -/
inductive Argument where
  | owned (v : Value)
  | borrowed (v : Value)

def Argument.value : Argument → Value
  | owned v => v
  | borrowed v => v

def deserializeArg (ty : Ty) (arg : Bytes) : VMResult Value := do
  let layout ← (typeToTypeLayout v state ty).mapError fun _ =>
    partialError StatusCode.invalidParamTypeForDeserialization
      (some "[VM] failed to get layout from type")
  match Value.deserialize v.closureCodec layout arg with
  | some value => return value
  | none => throw (partialError StatusCode.failedToDeserializeArgument
      (some "[VM] failed to deserialize argument"))

/-- One argument: a parameter of reference type gets a reference to what its bytes hold. -/
def deserializeParam (ty : Ty) (arg : Bytes) : VMResult Argument :=
  match ty.getRefInnerTy with
  | some inner => do return .borrowed (← deserializeArg v state inner arg)
  | none => do return .owned (← deserializeArg v state ty arg)

def deserializeEach : List (Ty × Bytes) → VMResult (List Argument)
  | [] => .ok []
  | (ty, arg) :: rest => do return (← deserializeParam v state ty arg) :: (← deserializeEach rest)

def deserializeArgs (paramTys : List Ty) (serializedArgs : List Bytes) : VMResult (List Argument) :=
  if paramTys.length ≠ serializedArgs.length then
    .error (partialError StatusCode.numberOfArgumentsMismatch
      (some ("argument length mismatch: expected " ++ toString paramTys.length ++ " got "
        ++ toString serializedArgs.length)))
  else deserializeEach v state (paramTys.zip serializedArgs)

/-! ## Running -/

structure Start where
  function : LoadedFunction
  paramTys : List Ty
  returnTys : List Ty
  args : List Argument

inductive ResourceOp where
  | new (bytes : Bytes)
  | modify (bytes : Bytes)
  | delete

abbrev ChangeSet := List (AccountAddress × List (StructTag × ResourceOp))

structure Effects where
  changeSet : ChangeSet
  events : List ContractEvent
  returnValues : List Bytes

/-- How a run ended: with an error of the VM, or with effects, which may fail to be extracted. -/
structure Execution where
  gasConsumed : UInt64
  result : VMResult (Except String Effects)

/-- The interpreter: from the state, what it is entered with and the gas limit to the end of the
run, return values serialized and effects extracted. -/
structure Interpreter where
  run : NexusStateView → Start → UInt64 → Execution

/-- The part of `execute_loaded_function` before the interpreter is entered. -/
def prepareEntry (f : LoadedFunction) (serializedArgs : List Bytes) : VMResult Start := do
  let paramTys ← TypeBuilder.default.createTysWithSubst f.tyArgs f.function.paramTys
  let args ← deserializeArgs v state paramTys serializedArgs
  let returnTys ← TypeBuilder.default.createTysWithSubst f.tyArgs f.function.returnTys
  return { function := f, paramTys, returnTys, args }

def executeLoadedFunction (interpreter : Interpreter) (f : LoadedFunction)
    (serializedArgs : List Bytes) (gasLimit : UInt64) : Execution :=
  match prepareEntry v state f serializedArgs with
  | .error e => { gasConsumed := 0, result := .error e }
  | .ok start => interpreter.run state start gasLimit

end Code

/-! ## What arguments are -/

section Spec

variable {v : Vendor} {state : NexusStateView}

theorem deserializeArg_eq_ok {ty : Ty} {arg : Bytes} {value : Value} :
    deserializeArg v state ty arg = .ok value ↔
      ∃ layout, typeToTypeLayout v state ty = .ok layout
        ∧ Value.deserialize v.closureCodec layout arg = some value := by
  unfold deserializeArg
  rw [Except.bind_eq_ok]
  refine exists_congr fun layout => and_congr Except.mapError_eq_ok ?_
  cases Value.deserialize v.closureCodec layout arg <;> simp

/-- The type whose values a parameter's bytes are read as. -/
def Ty.argTy (ty : Ty) : Ty := ty.getRefInnerTy.getD ty

theorem deserializeParam_value {ty : Ty} {arg : Bytes} {a : Argument}
    (h : deserializeParam v state ty arg = .ok a) :
    deserializeArg v state ty.argTy arg = .ok a.value := by
  unfold deserializeParam at h
  cases hty : ty.getRefInnerTy with
  | some inner =>
    simp only [hty, Except.bind_eq_ok, Except.pure_eq_ok] at h
    obtain ⟨value, hvalue, rfl⟩ := h
    rw [Ty.argTy, hty]
    exact hvalue
  | none =>
    simp only [hty, Except.bind_eq_ok, Except.pure_eq_ok] at h
    obtain ⟨value, hvalue, rfl⟩ := h
    rw [Ty.argTy, hty]
    exact hvalue

theorem deserializeEach_eq_ok {params : List (Ty × Bytes)} {args : List Argument}
    (h : deserializeEach v state params = .ok args) :
    List.Forall₂ (fun p a => deserializeArg v state p.1.argTy p.2 = .ok a.value) params args := by
  induction params generalizing args with
  | nil =>
    obtain rfl : [] = args := by simpa [deserializeEach] using h
    exact .nil
  | cons p params ih =>
    obtain ⟨a, ha, h⟩ := Except.bind_eq_ok.mp h
    obtain ⟨rest, hrest, h⟩ := Except.bind_eq_ok.mp h
    obtain rfl : a :: rest = args := by simpa using h
    exact .cons (deserializeParam_value ha) (ih hrest)

/-- **Arguments.** Each argument is read from the bytes at its position, at the type of the
parameter at that position. -/
theorem prepareEntry_eq_ok {f : LoadedFunction} {serializedArgs : List Bytes} {start : Start}
    (h : prepareEntry v state f serializedArgs = .ok start) :
    start.function = f ∧ start.paramTys.length = serializedArgs.length
      ∧ start.args.length = serializedArgs.length
      ∧ ∀ (i : Nat) ty bytes a, start.paramTys[i]? = some ty → serializedArgs[i]? = some bytes →
          start.args[i]? = some a → deserializeArg v state ty.argTy bytes = .ok a.value := by
  obtain ⟨paramTys, -, h⟩ := Except.bind_eq_ok.mp h
  obtain ⟨args, hargs, h⟩ := Except.bind_eq_ok.mp h
  obtain ⟨returnTys, -, h⟩ := Except.bind_eq_ok.mp h
  obtain rfl : _ = start := by simpa using h
  -- the counts agree, and the arguments are read one by one against the zipped parameters
  unfold deserializeArgs at hargs
  split_ifs at hargs with hlen
  have hall := deserializeEach_eq_ok hargs
  have hlength := hall.length_eq
  simp only [List.length_zip, not_not] at hlength hlen
  refine ⟨rfl, hlen, by dsimp only; omega, ?_⟩
  intro i ty bytes a hty hbytes ha
  have hzip : (paramTys.zip serializedArgs)[i]? = some (ty, bytes) := by
    rw [List.getElem?_zip_eq_some]
    exact ⟨hty, hbytes⟩
  obtain ⟨hi, hget⟩ := List.getElem?_eq_some_iff.mp hzip
  obtain ⟨hj, hget'⟩ := List.getElem?_eq_some_iff.mp ha
  have := List.Forall₂.get hall hi hj
  simpa [hget, hget'] using this

theorem executeLoadedFunction_of_error {interpreter : Interpreter} {f : LoadedFunction}
    {serializedArgs : List Bytes} {gasLimit : UInt64} {e : VMError}
    (h : prepareEntry v state f serializedArgs = .error e) :
    executeLoadedFunction v state interpreter f serializedArgs gasLimit
      = { gasConsumed := 0, result := .error e } := by
  rw [executeLoadedFunction, h]

theorem executeLoadedFunction_of_ok {interpreter : Interpreter} {f : LoadedFunction}
    {serializedArgs : List Bytes} {gasLimit : UInt64} {start : Start}
    (h : prepareEntry v state f serializedArgs = .ok start) :
    executeLoadedFunction v state interpreter f serializedArgs gasLimit
      = interpreter.run state start gasLimit := by
  rw [executeLoadedFunction, h]

end Spec

end NexusMove
