import NexusMove.Runtime.Publish
import NexusMove.Vm.MoveVm

/-!
# Executing functions and scripts

`RealMoveVm::execute_function` and `execute_script`. Both put the sender's signer
in front of the caller's arguments and hand the list to the VM; they differ in
how the function is found and in how a failure to find it is answered. What
comes back is turned into an output: resource changes become state changes under
the serialized tags, a VM error becomes an abort without effects.

* `startInvocation` — what the interpreter is entered with, for either request.
* `executeInvocation_ok` — what an output says about the run behind it.
* `executeInvocation_cases` — an execution is refused or aborts without effects, or it
  succeeds and writes resources only.
-/

namespace NexusMove

/-! ## Requests to run code -/

/-- A request to run code: a call of a stored function, or a script that comes along. -/
inductive Invocation where
  | call (request : FunctionCall)
  | script (request : ScriptExecution)

namespace Invocation

def sender : Invocation → AccountAddress
  | call r => r.sender
  | script r => r.sender

def args : Invocation → List Bytes
  | call r => r.args
  | script r => r.args

def gasLimit : Invocation → UInt64
  | call r => r.gasLimit
  | script r => r.gasLimit

/-- The arguments as they go to the VM: the sender as a signer, then the caller's. -/
def fullArgs (inv : Invocation) : List Bytes := signerBytes inv.sender :: inv.args

end Invocation

/-! ## Names -/

/-- `splitn(2, "::")`, with both parts there: the first separator decides. -/
def splitAtSeparator : List Char → Option (List Char × List Char)
  | [] => none
  | [_] => none
  | c :: d :: rest =>
    if c = ':' ∧ d = ':' then some ([], rest)
    else (splitAtSeparator (d :: rest)).map fun (pre, post) => (c :: pre, post)

def parseFunctionName (function : String) : Except String (String × String) :=
  match splitAtSeparator function.toList with
  | some (module, name) => .ok (.ofList module, .ofList name)
  | none => .error ("invalid function format '" ++ function ++ "', expected 'module::function'")

section Code

variable (v : Vendor) (schedule : GasSchedule) (state : NexusStateView)

def deserializeTypeArgs : List Bytes → VmResult (List TypeTag)
  | [] => .ok []
  | bytes :: rest => do
    match TypeTag.bcs.fromBytes bytes with
    | some tag => return tag :: (← deserializeTypeArgs rest)
    | none => throw (.internalError
        ("type arg deserialization failed: " ++ v.typeTagDecodeError bytes))

/-! ## Finding the function -/

/-- The module and the function a call names, both checked identifiers. -/
def parseCall (request : FunctionCall) : Except EarlyReturn (ModuleId × Identifier) := do
  let abort (location : String) : EarlyReturn :=
    .output (.abort location schedule.callBase request.gasLimit)
  let (moduleName, fnName) ← (parseFunctionName request.function).mapError abort
  match Identifier.new moduleName with
  | none => throw (abort (moduleName ++ "::" ++ fnName))
  | some moduleIdent =>
    match Identifier.new fnName with
    | none => throw (abort (moduleName ++ "::" ++ fnName))
    | some fnIdent => return (⟨request.contract, moduleIdent⟩, fnIdent)

/-- The part of `execute_function` up to the loaded function. -/
def loadCall (request : FunctionCall) : Except EarlyReturn LoadedFunction := do
  let (moduleId, fnIdent) ← parseCall schedule request
  let tyArgs ← liftVm (deserializeTypeArgs v request.typeArgs)
  (loadFunction v state moduleId fnIdent tyArgs).mapError fun _ =>
    .output (.abort moduleId.display schedule.callBase request.gasLimit)

/-- The output for an error of the VM: its location, its status, and no effects. -/
def vmAbort (e : VMError) (gasUsed : UInt64) : VmOutput :=
  .withoutEffects (.moveAbort e.location.display e.majorStatus) gasUsed

/-- The part of `execute_script` up to the loaded function. -/
def loadScriptRequest (request : ScriptExecution) : Except EarlyReturn LoadedFunction := do
  let tyArgs ← liftVm (deserializeTypeArgs v request.typeArgs)
  (loadScript v state request.bytecode tyArgs).mapError fun e =>
    .output (vmAbort e (clampGasToLimit schedule.callBase request.gasLimit))

def loadInvocation : Invocation → Except EarlyReturn LoadedFunction
  | .call request => loadCall v schedule state request
  | .script request => loadScriptRequest v schedule state request

/-- The estimate the gas charge is at least, given the state changes. -/
def estimateGas (inv : Invocation) (stateChanges : List StateChange) : UInt64 :=
  match inv with
  | .call r => estimateCallGas schedule r.typeArgs r.args stateChanges
  | .script r => estimateScriptGas schedule r.bytecode r.typeArgs r.args

/-! ## From effects to an output -/

def ResourceOp.value : ResourceOp → Option Bytes
  | new bytes => some bytes
  | modify bytes => some bytes
  | delete => none

/-- One resource of a change set: the arm of its operation pushes a change and inserts it into the
write set as well. -/
def pushOp (addr : AccountAddress) (effects : List StateChange × WriteSet) :
    StructTag × ResourceOp → List StateChange × WriteSet
  | (structTag, .new bytes) | (structTag, .modify bytes) =>
    let key := resourceKey structTag
    (effects.1 ++ [{ account := addr, key, value := some bytes }],
      effects.2.insert (addr, key) (some bytes))
  | (structTag, .delete) =>
    let key := resourceKey structTag
    (effects.1 ++ [{ account := addr, key, value := none }], effects.2.insert (addr, key) none)

/-- The resources of one account. -/
def pushAccount (effects : List StateChange × WriteSet)
    (account : AccountAddress × List (StructTag × ResourceOp)) : List StateChange × WriteSet :=
  account.2.foldl (pushOp account.1) effects

/-- `changeset_to_nexus`: the state changes and the write set, filled side by side. -/
def changesetToNexus (changeSet : ChangeSet) : List StateChange × WriteSet :=
  changeSet.foldl pushAccount ([], ∅)

/-- What the output says of a run: effects are handed over, an error of the VM is an abort. -/
def finishExecution (inv : Invocation) (execution : Execution) : VmResult VmOutput :=
  match execution.result with
  | .ok (.ok effects) =>
    let (stateChanges, writeSet) := changesetToNexus effects.changeSet
    .ok {
      status := .success
      -- the larger of what was metered and what is estimated, clamped to the limit
      gasUsed := clampGasToLimit
        (max execution.gasConsumed (estimateGas schedule inv stateChanges)) inv.gasLimit
      stateChanges
      writeSet
      events := effects.events
      returnValues := effects.returnValues }
  | .ok (.error e) => .error (.internalError ("effects extraction failed: " ++ e))
  | .error e =>
    .ok (vmAbort e (clampGasToLimit
      (max execution.gasConsumed (estimateGas schedule inv [])) inv.gasLimit))

/-- Both requests, over how the function is loaded. -/
def executeInvocation (interpreter : Interpreter) (inv : Invocation) : VmResult VmOutput :=
  finish do
    let f ← loadInvocation v schedule state inv
    liftVm (finishExecution schedule inv
      (executeLoadedFunction v state interpreter f inv.fullArgs inv.gasLimit))

def executeFunction (interpreter : Interpreter) (request : FunctionCall) : VmResult VmOutput :=
  executeInvocation v schedule state interpreter (.call request)

def executeScript (interpreter : Interpreter) (request : ScriptExecution) : VmResult VmOutput :=
  executeInvocation v schedule state interpreter (.script request)

/-! ## Starting -/

/-- What the interpreter is entered with, if the invocation gets that far. -/
def startInvocation (inv : Invocation) : Option Start :=
  match loadInvocation v schedule state inv with
  | .error _ => none
  | .ok f =>
    match prepareEntry v state f inv.fullArgs with
    | .error _ => none
    | .ok start => some start

end Code

/-! ## What an execution does -/

section Spec

variable {v : Vendor} {schedule : GasSchedule} {state : NexusStateView} {inv : Invocation}

/-- A run starts where the function was found and its arguments were accepted. -/
theorem startInvocation_eq_some {start : Start} :
    startInvocation v schedule state inv = some start ↔
      ∃ f, loadInvocation v schedule state inv = .ok f
        ∧ prepareEntry v state f inv.fullArgs = .ok start := by
  unfold startInvocation
  cases loadInvocation v schedule state inv with
  | error e => simp
  | ok f => cases hstart : prepareEntry v state f inv.fullArgs <;> simp [hstart]

section Started

variable {start : Start} (h : startInvocation v schedule state inv = some start)
include h

theorem deserializeArg_of_start {i : Nat} {ty : Ty} {bytes : Bytes} {a : Argument}
    (hty : start.paramTys[i]? = some ty) (hbytes : inv.fullArgs[i]? = some bytes)
    (ha : start.args[i]? = some a) : deserializeArg v state ty.argTy bytes = .ok a.value := by
  obtain ⟨f, -, hentry⟩ := startInvocation_eq_some.mp h
  obtain ⟨-, -, -, hargs⟩ := prepareEntry_eq_ok hentry
  exact hargs i ty bytes a hty hbytes ha

theorem length_args_of_start : start.args.length = inv.fullArgs.length := by
  obtain ⟨f, -, hentry⟩ := startInvocation_eq_some.mp h
  exact (prepareEntry_eq_ok hentry).2.2.1

/-- Every argument of a run that starts was given bytes, and every one that was given is there. -/
theorem exists_arg_of_start {i : Nat} {bytes : Bytes} (hbytes : inv.fullArgs[i]? = some bytes) :
    ∃ a, start.args[i]? = some a := by
  have hlen := length_args_of_start h
  have hi := (List.getElem?_eq_some_iff.mp hbytes).1
  exact ⟨start.args[i], List.getElem?_eq_getElem (by omega)⟩

theorem exists_bytes_of_start {i : Nat} {a : Argument} (ha : start.args[i]? = some a) :
    ∃ bytes, inv.fullArgs[i]? = some bytes := by
  have hlen := length_args_of_start h
  have hi := (List.getElem?_eq_some_iff.mp ha).1
  exact ⟨inv.fullArgs[i], List.getElem?_eq_getElem (by omega)⟩

end Started

/-! ## Change sets -/

theorem pushOp_changes (addr : AccountAddress) (effects : List StateChange × WriteSet)
    (structTag : StructTag) (op : ResourceOp) :
    (pushOp addr effects (structTag, op)).1
      = effects.1 ++ [{ account := addr, key := resourceKey structTag, value := op.value }] := by
  cases op <;> rfl

/-- The loop over the resources of an account appends one change for each. -/
theorem foldl_pushOp_changes (addr : AccountAddress) (resources : List (StructTag × ResourceOp))
    (effects : List StateChange × WriteSet) :
    (resources.foldl (pushOp addr) effects).1 = effects.1 ++ resources.map fun (structTag, op) =>
      { account := addr, key := resourceKey structTag, value := op.value } := by
  induction resources generalizing effects with
  | nil => simp
  | cons resource resources ih =>
    obtain ⟨structTag, op⟩ := resource
    rw [List.foldl_cons, ih, pushOp_changes, List.map_cons, List.append_assoc, List.singleton_append]

/-- The list of changes: one change a resource, in the order of the change set. -/
theorem changesetToNexus_changes (changeSet : ChangeSet) :
    (changesetToNexus changeSet).1 = changeSet.flatMap fun (addr, resources) =>
      resources.map fun (structTag, op) =>
        { account := addr, key := resourceKey structTag, value := op.value } := by
  -- the loop appends to what it is given, so the induction is over every start
  have hloop : ∀ effects : List StateChange × WriteSet,
      (changeSet.foldl pushAccount effects).1 = effects.1 ++ changeSet.flatMap
        fun (addr, resources) => resources.map fun (structTag, op) =>
          { account := addr, key := resourceKey structTag, value := op.value } := by
    induction changeSet with
    | nil => simp
    | cons account changeSet ih =>
      intro effects
      rw [List.foldl_cons, ih, pushAccount, foldl_pushOp_changes, List.flatMap_cons,
        List.append_assoc]
  rw [changesetToNexus, hloop, List.nil_append]

/-- Every change of a run is a change of a resource. -/
theorem exists_of_mem_changesetToNexus {changeSet : ChangeSet} {c : StateChange}
    (h : c ∈ (changesetToNexus changeSet).1) : ∃ t, c.key = resourceKey t := by
  rw [changesetToNexus_changes] at h
  obtain ⟨⟨addr, resources⟩, -, h⟩ := List.mem_flatMap.mp h
  obtain ⟨⟨t, op⟩, -, rfl⟩ := List.mem_map.mp h
  exact ⟨t, rfl⟩

theorem quiet_abort (location : String) (baseGas gasLimit : UInt64) :
    (EarlyReturn.output (.abort location baseGas gasLimit)).Quiet :=
  ⟨by simp [VmOutput.abort, VmOutput.withoutEffects], rfl⟩

theorem quiet_vmAbort (e : VMError) (gasUsed : UInt64) :
    (EarlyReturn.output (vmAbort e gasUsed)).Quiet :=
  ⟨by simp [vmAbort, VmOutput.withoutEffects], rfl⟩

section EarlyReturns

open Except

variable {P : EarlyReturn → Prop}
  (habort : ∀ location, P (.output (.abort location schedule.callBase inv.gasLimit)))
include habort

/-- A name that does not parse is an abort, whatever part of it is at fault. -/
theorem onError_parseCall (request : FunctionCall) (hinv : inv = .call request) :
    (parseCall schedule request).OnError P := by
  subst hinv
  unfold parseCall
  refine (onError_mapError (fun _ => habort _) _).bind fun names => ?_
  dsimp only
  cases Identifier.new names.1 with
  | none => exact onError_error (habort _)
  | some m =>
    cases Identifier.new names.2 with
    | none => exact onError_error (habort _)
    | some f => exact onError_ok _

variable (herr : ∀ e, P (.err e))
include herr

/-- **Early returns of an execution** are errors, aborts of the backend, or the error of the VM that
a script was refused with. -/
theorem onError_loadInvocation
    (hscript : ∀ request tyArgs e, inv = .script request →
      deserializeTypeArgs v request.typeArgs = .ok tyArgs →
      loadScript v state request.bytecode tyArgs = .error e →
      P (.output (vmAbort e (clampGasToLimit schedule.callBase inv.gasLimit)))) :
    (loadInvocation v schedule state inv).OnError P := by
  cases hinv : inv with
  | call request =>
    refine (onError_parseCall habort request hinv).bind fun p => ?_
    refine (onError_liftVm herr _).bind fun tyArgs => ?_
    subst hinv
    exact onError_mapError (fun _ => habort _) _
  | script request =>
    refine (onError_liftVm herr _).bind_of_ok fun tyArgs htyArgs => ?_
    -- only a script carries bytecode that can be refused here
    refine onError_mapError_of fun e he => ?_
    have hrefused := hscript request tyArgs e hinv (mapError_eq_ok.mp htyArgs) he
    rwa [hinv] at hrefused

end EarlyReturns

/-- A function that is not found leaves no effects. -/
theorem quietErrors_loadInvocation : QuietErrors (loadInvocation v schedule state inv) :=
  onError_loadInvocation (fun _ => quiet_abort _ _ _) (fun _ => trivial)
    (fun _ _ e _ _ _ => quiet_vmAbort e _)

theorem executeInvocation_of_load {f : LoadedFunction} (interpreter : Interpreter)
    (hload : loadInvocation v schedule state inv = .ok f) :
    executeInvocation v schedule state interpreter inv =
      finish (liftVm (finishExecution schedule inv
        (executeLoadedFunction v state interpreter f inv.fullArgs inv.gasLimit))) := by
  rw [executeInvocation, hload]
  rfl

/-- Every output is that of what was loaded, or of an early return while loading. -/
theorem executeInvocation_eq_ok {interpreter : Interpreter} {out : VmOutput} :
    executeInvocation v schedule state interpreter inv = .ok out ↔
      (∃ f, loadInvocation v schedule state inv = .ok f
        ∧ finishExecution schedule inv
          (executeLoadedFunction v state interpreter f inv.fullArgs inv.gasLimit) = .ok out)
      ∨ loadInvocation v schedule state inv = .error (.output out) := by
  rw [executeInvocation, finish_eq_ok, Except.bind_eq_ok, Except.bind_eq_error]
  simp [liftVm_eq_ok, liftVm_ne_output]

/-- **Outputs of an execution.** One carries nothing but a status other than `Success`, or it is a
success: then the interpreter was entered and returned effects, and the output hands them over. -/
theorem executeInvocation_ok {interpreter : Interpreter} {out : VmOutput}
    (h : executeInvocation v schedule state interpreter inv = .ok out) :
    (EarlyReturn.output out).Quiet
    ∨ ∃ start effects, startInvocation v schedule state inv = some start
        ∧ (interpreter.run state start inv.gasLimit).result = .ok (.ok effects)
        ∧ out.status = .success ∧ out.stateChanges = (changesetToNexus effects.changeSet).1
        ∧ out.writeSet = (changesetToNexus effects.changeSet).2 ∧ out.events = effects.events := by
  rcases executeInvocation_eq_ok.mp h with ⟨f, hload, h⟩ | h
  · cases hentry : prepareEntry v state f inv.fullArgs with
    | error e =>
      rw [executeLoadedFunction_of_error hentry] at h
      obtain rfl := Except.ok.inj h
      exact .inl (quiet_vmAbort _ _)
    | ok start =>
      -- the interpreter ran, to effects or to an error
      rw [executeLoadedFunction_of_ok hentry, finishExecution] at h
      split at h
      · next effects hresult =>
        obtain rfl := Except.ok.inj h
        exact .inr ⟨start, effects, startInvocation_eq_some.mpr ⟨f, hload, hentry⟩, hresult, rfl,
          rfl, rfl, rfl⟩
      · cases h
      · obtain rfl := Except.ok.inj h
        exact .inl (quiet_vmAbort _ _)
  · -- the function was not found
    exact .inl (quietErrors_loadInvocation _ h)

/-- **What an execution does.** It fails; or its output carries nothing but a status other than
`Success`; or the interpreter was entered and returned effects, and the changes of the output are
changes of resources. -/
theorem executeInvocation_cases (v : Vendor) (schedule : GasSchedule) (state : NexusStateView)
    (interpreter : Interpreter) (inv : Invocation) :
    (∃ e, executeInvocation v schedule state interpreter inv = .error e)
    ∨ (∃ out, executeInvocation v schedule state interpreter inv = .ok out ∧ out.status ≠ .success
        ∧ out = .withoutEffects out.status out.gasUsed)
    ∨ ∃ start effects out, startInvocation v schedule state inv = some start
        ∧ (interpreter.run state start inv.gasLimit).result = .ok (.ok effects)
        ∧ executeInvocation v schedule state interpreter inv = .ok out
        ∧ out.stateChanges = (changesetToNexus effects.changeSet).1 := by
  cases hrun : executeInvocation v schedule state interpreter inv with
  | error e => exact .inl ⟨e, rfl⟩
  | ok out =>
    right
    rcases executeInvocation_ok hrun with hquiet | ⟨start, effects, hstart, hresult, -, hchanges, -⟩
    · exact .inl ⟨out, rfl, hquiet⟩
    · exact .inr ⟨start, effects, out, hstart, hresult, rfl, hchanges⟩

end Spec

end NexusMove
