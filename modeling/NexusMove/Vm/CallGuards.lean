import NexusMove.Lib.Bag
import NexusMove.Core.TypeTagText
import NexusMove.Vm.Machine

/-!
# What guards the call stack

`reentrancy_checker.rs` and `access_control.rs`: two state machines next to the call
stack. One counts how often each module was entered and whether modules are locked,
the other keeps the access specifiers of the functions on the stack. Both are
told of every call and return, and both are asked at every access to a resource.

Left out: the text of a refused access, which prints numbers of the interning table,
and the costs of calls.

* `ReentrancyChecker`, `AccessControlState` — the two state machines.
* `CallGuards.step`, `CallGuards.run` — calls, returns and accesses.
* `CallGuards.Follows` — what the state machines know of the stack, in every state of every run.
* `resource_access_iff`, `lock_excludes_reentry` — when an access is allowed, and what a lock does.
-/

namespace NexusMove

namespace StatusCode

def accessControlInvariantViolation : UInt64 := 2025
def accessDenied : UInt64 := 4034
def accessStackLimitExceeded : UInt64 := 4035
def runtimeDispatchError : UInt64 := 4037

end StatusCode

/-! ## Access specifiers -/

inductive AccessKind where
  | reads | writes
deriving DecidableEq

/-- Which resource types a clause speaks of. -/
inductive ResourceSpecifier where
  | any
  | declaredAtAddress (address : AccountAddress)
  | declaredInModule (module : ModuleId)
  | resource (structId : StructIdentifier)
  | resourceInstantiation (structId : StructIdentifier) (typeInst : List Ty)

inductive AddressSpecifierFunction where
  | identity | signerAddress | objectAddress
deriving DecidableEq

/-- Where the resources are that a clause speaks of. -/
inductive AddressSpecifier where
  | any
  | literal (address : AccountAddress)
  | eval (function : AddressSpecifierFunction) (arg : UInt8)

structure AccessSpecifierClause where
  kind : AccessKind
  resource : ResourceSpecifier
  address : AddressSpecifier

/-- In a constraint the inclusions are a disjunction and the exclusions a conjunction. -/
inductive AccessSpecifier where
  | any
  | constraint (incls excls : List AccessSpecifierClause)

/-- One access to global storage. -/
structure AccessInstance where
  kind : AccessKind
  resource : StructIdentifier
  typeInst : List Ty
  address : AccountAddress

/-- `AccessSpecifierEnv`: the addresses that the parameters of a function stand for. -/
abbrev AccessSpecifierEnv := AddressSpecifierFunction → UInt8 → VMResult AccountAddress

/-- `AddressSpecifierFunction::eval`. -/
def AddressSpecifierFunction.evalOn (f : AddressSpecifierFunction) (depth : Nat) (arg : ValueImpl)
    (m : VmMemory) : VMResult AccountAddress :=
  match f, arg with
  | .identity, .prim (.address a) => .ok a
  | .signerAddress, .containerRef r => do
    let addressRef ← r.borrowSigner m
    match ← Reference.readRef depth addressRef m with
    | (.prim (.address a), _) => .ok a
    | _ => .error internalTypeError
  | .objectAddress, _ => .error (partialError StatusCode.accessControlInvariantViolation
      (some "unimplemented address specifier function `ObjectAddress`"))
  | _, _ => .error internalTypeError

/-- The locals of a frame as such an environment. -/
def Locals.accessSpecifierEnv (l : Locals) (depth : Nat) (m : VmMemory) : AccessSpecifierEnv :=
  fun f idx => do
    let (arg, m) ← l.copyLoc depth idx.toNat m
    f.evalOn depth arg m

namespace ResourceSpecifier

/-- `ResourceSpecifier::matches`. -/
def covers : ResourceSpecifier → StructIdentifier → List Ty → Bool
  | any, _, _ => true
  | declaredAtAddress a, structId, _ => structId.module.address = a
  | declaredInModule id, structId, _ => structId.module = id
  | resource enabled, structId, _ => enabled = structId
  | resourceInstantiation enabled inst, structId, typeInst =>
    enabled = structId ∧ Ty.keys inst = Ty.keys typeInst

end ResourceSpecifier

namespace AddressSpecifier

/-- `AddressSpecifier::matches`. -/
def covers : AddressSpecifier → AccountAddress → Bool
  | any, _ => true
  | literal a, addr => a = addr
  | eval _ _, _ => false

def specialize (env : AccessSpecifierEnv) : AddressSpecifier → VMResult AddressSpecifier
  | eval f arg => do return literal (← env f arg)
  | s => .ok s

end AddressSpecifier

namespace AccessSpecifierClause

variable (c : AccessSpecifierClause) (access : AccessInstance)

/-- A clause of writes allows reads, too. -/
def includes : Bool :=
  let kindAllows := match c.kind, access.kind with
    | .reads, .reads => true
    | .reads, .writes => false
    | .writes, .reads => true
    | .writes, .writes => true
  kindAllows && c.resource.covers access.resource access.typeInst && c.address.covers access.address

/-- A negated clause of reads forbids writes, too. -/
def excludes : Bool :=
  let kindExcludes := match c.kind, access.kind with
    | .reads, .reads => true
    | .reads, .writes => true
    | .writes, .reads => false
    | .writes, .writes => true
  kindExcludes && c.resource.covers access.resource access.typeInst
    && c.address.covers access.address

def specialize (env : AccessSpecifierEnv) : VMResult AccessSpecifierClause := do
  return { c with address := ← c.address.specialize env }

def specializeEach (env : AccessSpecifierEnv) :
    List AccessSpecifierClause → VMResult (List AccessSpecifierClause)
  | [] => .ok []
  | c :: cs => do return (← c.specialize env) :: (← specializeEach env cs)

end AccessSpecifierClause

namespace AccessSpecifier

def isAny : AccessSpecifier → Bool
  | any => true
  | constraint _ _ => false

/-- Exclusions win, and exclusions alone include everything else. -/
def enables (s : AccessSpecifier) (access : AccessInstance) : Bool :=
  match s with
  | any => true
  | constraint incls excls =>
    (incls.isEmpty && !excls.isEmpty || incls.any fun c => c.includes access)
      && excls.all fun c => !c.excludes access

open AccessSpecifierClause in
def specialize (env : AccessSpecifierEnv) : AccessSpecifier → VMResult AccessSpecifier
  | any => .ok any
  | constraint incls excls => do
    return constraint (← specializeEach env incls) (← specializeEach env excls)

end AccessSpecifier

/-! ## Functions -/

/-- What the guards look at of a `LoadedFunction`. A script has a module id of its own kind. -/
structure Callee where
  moduleOrScriptId : ModuleId
  name : Identifier
  hasModuleReentrancyLock : Bool
  accessSpecifier : AccessSpecifier

inductive CallType where
  | regular | nativeDynamicDispatch | closureDynamicDispatch
deriving DecidableEq

/-! ## Reentrancy -/

structure ReentrancyChecker where
  activeModules : Bag ModuleId
  moduleLockCount : Nat

namespace ReentrancyChecker

variable (c : ReentrancyChecker)

def enterModuleLock : ReentrancyChecker := { c with moduleLockCount := c.moduleLockCount + 1 }

def exitModuleLock : VMResult ReentrancyChecker :=
  if 0 < c.moduleLockCount then .ok { c with moduleLockCount := c.moduleLockCount - 1 }
  else .error (invariantViolation (some "Unbalanced module lock counter"))

/-- The refusal of a call back into an active module. -/
def reentrancyDisallowed (callee : Callee) : VMError :=
  partialError StatusCode.runtimeDispatchError
    (some ("Reentrancy disallowed: reentering \x60" ++ callee.moduleOrScriptId.display
      ++ "\x60 via function \x60" ++ callee.name.name ++ "\x60 (module lock is active)"))

def enterFunction (callerModule : Option ModuleId) (callee : Callee) (callType : CallType) :
    VMResult ReentrancyChecker :=
  let c := if callType = .nativeDynamicDispatch ∨ callee.hasModuleReentrancyLock then
    c.enterModuleLock else c
  let calleeModule := callee.moduleOrScriptId
  if some calleeModule ≠ callerModule then
    if c.activeModules.count calleeModule ≠ 0 ∧ 0 < c.moduleLockCount then
      .error (reentrancyDisallowed callee)
    else .ok { c with activeModules := c.activeModules.add calleeModule }
  else if callType = .closureDynamicDispatch ∨ callerModule = none then
    .ok { c with activeModules := c.activeModules.add calleeModule }
  else .ok c

/-- The first half of `exit_function`. -/
def exitModule (callerModule : ModuleId) (callee : Callee) (callType : CallType) :
    VMResult ReentrancyChecker :=
  let calleeModule := callee.moduleOrScriptId
  if callerModule ≠ calleeModule ∨ callType = .closureDynamicDispatch then
    match c.activeModules.remove calleeModule with
    | some active => .ok { c with activeModules := active }
    | none => .error (invariantViolation (some "Unbalanced reentrancy stack operation"))
  else .ok c

def exitFunction (callerModule : ModuleId) (callee : Callee) (callType : CallType) :
    VMResult ReentrancyChecker := do
  let c ← c.exitModule callerModule callee callType
  if callType = .nativeDynamicDispatch ∨ callee.hasModuleReentrancyLock then c.exitModuleLock
  else .ok c

/-- A module that was entered more than once has lost its resources until it is left. -/
def checkResourceAccess (structId : StructIdentifier) : VMResult Unit :=
  if 1 < c.activeModules.count structId.module then
    .error (partialError StatusCode.runtimeDispatchError
      (some ("Resource \x60" ++ structId.display
        ++ "\x60 cannot be accessed because of active reentrancy of defining module.")))
  else .ok ()

end ReentrancyChecker

/-! ## Access control -/

def accessStackSizeLimit : Nat := 256

/-- The specifiers of the functions that were entered, from the last one. -/
structure AccessControlState where
  specifierStack : List AccessSpecifier

namespace AccessControlState

variable (s : AccessControlState)

def enterFunction (env : AccessSpecifierEnv) (fn : Callee) : VMResult AccessControlState :=
  if fn.accessSpecifier.isAny then .ok s
  else if accessStackSizeLimit ≤ s.specifierStack.length then
    .error (partialError StatusCode.accessStackLimitExceeded
      (some ("access specifier stack overflow (limit = " ++ toString accessStackSizeLimit ++ ")")))
  else do
    let specifier ← fn.accessSpecifier.specialize env
    return { specifierStack := specifier :: s.specifierStack }

def exitFunction (fn : Callee) : VMResult AccessControlState :=
  if fn.accessSpecifier.isAny then .ok s
  else match s.specifierStack with
    | [] => .error (partialError StatusCode.accessControlInvariantViolation
        (some "unbalanced access specifier stack"))
    | _ :: rest => .ok { specifierStack := rest }

def checkAccess (access : AccessInstance) : VMResult Unit :=
  if s.specifierStack.all fun specifier => specifier.enables access then .ok ()
  else .error (partialError StatusCode.accessDenied none)

end AccessControlState

/-! ## Calls, returns and accesses -/

/-- What the guards look at of a `Frame`. -/
structure CallFrame where
  function : Callee
  callType : CallType

/-- The frames from the current one, none once the run is over. -/
structure CallGuards where
  frames : List CallFrame
  reentrancyChecker : ReentrancyChecker
  accessControl : AccessControlState

/-- What the interpreter tells and asks the guards. -/
inductive CallEvent where
  | call (callee : Callee) (callType : CallType) (env : AccessSpecifierEnv)
  | ret
  | access (kind : AccessKind) (ty : Ty) (addr : AccountAddress)

namespace CallGuards

/-- The first lines of `execute_main`. -/
def executeMain (function : Callee) (env : AccessSpecifierEnv) : VMResult CallGuards := do
  let checker ← ReentrancyChecker.enterFunction ⟨.empty, 0⟩ none function .regular
  let control ← AccessControlState.enterFunction ⟨[]⟩ env function
  return { frames := [⟨function, .regular⟩], reentrancyChecker := checker, accessControl := control }

variable (g : CallGuards)

/-- `set_new_call_frame`. -/
def setNewCallFrame (callee : Callee) (callType : CallType) (env : AccessSpecifierEnv) :
    VMResult CallGuards :=
  match g.frames with
  | [] => .error (invariantViolation none)
  | current :: callers => do
    let checker ← g.reentrancyChecker.enterFunction (some current.function.moduleOrScriptId) callee
      callType
    let control ← g.accessControl.enterFunction env callee
    -- the limit is looked at last, after both guards were told of the call
    if callers.length < callStackSizeLimit then
      return {
        frames := ⟨callee, callType⟩ :: current :: callers
        reentrancyChecker := checker
        accessControl := control }
    else throw (partialError StatusCode.callStackOverflow none)

/-- The case `ExitCode::Return` of `execute_main`. -/
def returnFromFunction : VMResult CallGuards :=
  match g.frames with
  | [] => .error (invariantViolation none)
  | current :: callers => do
    let control ← g.accessControl.exitFunction current.function
    -- the last frame is left without the reentrancy checker, which is dropped with the run
    match callers with
    | [] => return { g with frames := [], accessControl := control }
    | caller :: _ => do
      let checker ← g.reentrancyChecker.exitFunction caller.function.moduleOrScriptId
        current.function current.callType
      return { frames := callers, reentrancyChecker := checker, accessControl := control }

/-- The struct of a resource and its type arguments. -/
def resourceOf : Ty → VMResult (StructIdentifier × List Ty)
  | .struct idx _ => .ok (idx, [])
  | .structInstantiation idx tyArgs _ => .ok (idx, tyArgs)
  | _ => .error (invariantViolation (some "inconsistent type"))

def checkAccess (kind : AccessKind) (ty : Ty) (addr : AccountAddress) : VMResult Unit := do
  let (structName, typeInst) ← resourceOf ty
  g.reentrancyChecker.checkResourceAccess structName
  g.accessControl.checkAccess ⟨kind, structName, typeInst, addr⟩

def step : CallEvent → CallGuards → VMResult CallGuards
  | .call callee callType env, g => g.setNewCallFrame callee callType env
  | .ret, g => g.returnFromFunction
  | .access kind ty addr, g => do
    g.checkAccess kind ty addr
    return g

def run : List CallEvent → CallGuards → VMResult CallGuards
  | [], g => .ok g
  | e :: es, g => do run es (← step e g)

end CallGuards

/-! ## What the guards know of the stack -/

namespace CallFrame

def moduleId (f : CallFrame) : ModuleId := f.function.moduleOrScriptId

def Locks (f : CallFrame) : Prop :=
  f.callType = .nativeDynamicDispatch ∨ f.function.hasModuleReentrancyLock = true

instance : DecidablePred Locks := fun _ => inferInstanceAs (Decidable (_ ∨ _))

/-- The frame was called from another module, or is the first one. -/
def Crosses (f : CallFrame) (callers : List CallFrame) : Prop :=
  callers.head?.map moduleId ≠ some f.moduleId

instance (f : CallFrame) (callers : List CallFrame) : Decidable (f.Crosses callers) :=
  inferInstanceAs (Decidable (_ ≠ _))

/-- The call counts as an entry of the module. -/
def Enters (f : CallFrame) (callers : List CallFrame) : Prop :=
  f.Crosses callers ∨ f.callType = .closureDynamicDispatch

instance (f : CallFrame) (callers : List CallFrame) : Decidable (f.Enters callers) :=
  inferInstanceAs (Decidable (_ ∨ _))

end CallFrame

open CallFrame

/-- A call that has not returned yet, with what the parameters of its function stood for when it
was called. -/
structure OpenCall extends CallFrame where
  env : AccessSpecifierEnv

/-- The specifier of the function, at the environment of the call, enables the access. -/
def OpenCall.Allows (c : OpenCall) (access : AccessInstance) : Prop :=
  ∃ spec, c.function.accessSpecifier.specialize c.env = .ok spec ∧ spec.enables access = true

/-- The calls that are open after an event, from the last one, by what the event says alone. -/
def CallEvent.openCalls : CallEvent → List OpenCall → List OpenCall
  | .call callee callType env, calls => ⟨⟨callee, callType⟩, env⟩ :: calls
  | .ret, calls => calls.tail
  | .access _ _ _, calls => calls

/-- The calls that are open after a run that began with the call of `callee`. -/
def openCalls (callee : Callee) (env : AccessSpecifierEnv) (es : List CallEvent) : List OpenCall :=
  es.foldl (fun calls e => e.openCalls calls) [⟨⟨callee, .regular⟩, env⟩]

/-- How often a module was entered by the calls on the stack. -/
def entriesOf (m : ModuleId) : List CallFrame → Nat
  | [] => 0
  | f :: callers => (if f.moduleId = m ∧ f.Enters callers then 1 else 0) + entriesOf m callers

section Entries

variable {m : ModuleId} {f : CallFrame} {fs : List CallFrame}

theorem entriesOf_cons_of_ne (h : f.moduleId ≠ m) : entriesOf m (f :: fs) = entriesOf m fs := by
  rw [entriesOf, if_neg fun hf => h hf.1, Nat.zero_add]

/-- A module that is on the stack was entered. -/
theorem entriesOf_eq_zero : entriesOf m fs = 0 ↔ ∀ f ∈ fs, f.moduleId ≠ m := by
  induction fs with
  | nil => simp [entriesOf]
  | cons f fs ih =>
    by_cases hm : f.moduleId = m
    · -- either this call is an entry, or its caller is of the same module
      have hpos : entriesOf m (f :: fs) ≠ 0 := by
        rw [entriesOf]
        by_cases henters : f.Enters fs
        · rw [if_pos ⟨hm, henters⟩]
          omega
        · have hcaller : fs.head?.map moduleId = some m := by
            by_contra hne
            exact henters (.inl fun heq => hne (heq.trans (congrArg some hm)))
          obtain ⟨g, hg, hgm⟩ := Option.map_eq_some_iff.mp hcaller
          have hne : entriesOf m fs ≠ 0 := fun hzero =>
            ih.mp hzero g (List.mem_of_head? hg) hgm
          omega
      constructor
      · exact fun h => absurd h hpos
      · exact fun h => absurd hm (h f List.mem_cons_self)
    · rw [entriesOf_cons_of_ne hm, ih]
      simp [hm]

/-- **One visit.** A module whose frame is on top was entered once if its frames lie together, none
but the first of them called through a closure. -/
theorem entriesOf_le_one (hm : f.moduleId = m) :
    entriesOf m (f :: fs) ≤ 1 ↔ ∃ visit first below, f :: fs = visit ++ first :: below
      ∧ (∀ g ∈ visit, g.moduleId = m ∧ g.callType ≠ .closureDynamicDispatch)
      ∧ first.moduleId = m ∧ ∀ g ∈ below, g.moduleId ≠ m := by
  induction fs generalizing f with
  | nil =>
    refine iff_of_true ?_ ⟨[], f, [], rfl, by simp, hm, by simp⟩
    rw [entriesOf, entriesOf]
    split <;> omega
  | cons g fs ih =>
    by_cases henters : f.Enters (g :: fs)
    · -- nothing of the module is below
      rw [entriesOf, if_pos ⟨hm, henters⟩]
      have hzero : 1 + entriesOf m (g :: fs) ≤ 1 ↔ entriesOf m (g :: fs) = 0 := by omega
      rw [hzero, entriesOf_eq_zero]
      constructor
      · exact fun h => ⟨[], f, g :: fs, rfl, by simp, hm, h⟩
      · rintro ⟨visit, first, below, heq, hvisit, hfirst, hbelow⟩
        cases visit with
        | nil =>
          obtain ⟨-, rfl⟩ := List.cons.inj heq
          exact hbelow
        | cons f' visit =>
          obtain ⟨rfl, hrest⟩ := List.cons.inj heq
          -- the frame is not the first of the visit, so it is no entry
          have hgm : g.moduleId = m := by
            cases visit with
            | nil =>
              obtain ⟨rfl, -⟩ := List.cons.inj hrest
              exact hfirst
            | cons g' visit =>
              obtain ⟨rfl, -⟩ := List.cons.inj hrest
              exact (hvisit g (by simp)).1
          rcases henters with hcross | hclosure
          · exact absurd (congrArg some (hgm.trans hm.symm)) hcross
          · exact absurd hclosure (hvisit f List.mem_cons_self).2
    · -- a static call within the module
      have hgm : g.moduleId = m := by
        by_contra hne
        exact henters (.inl fun heq => hne ((Option.some.inj heq).trans hm))
      have hstatic : f.callType ≠ .closureDynamicDispatch := fun h => henters (.inr h)
      rw [entriesOf, if_neg fun h => henters h.2, Nat.zero_add, ih hgm]
      constructor
      · rintro ⟨visit, first, below, heq, hvisit, hfirst, hbelow⟩
        refine ⟨f :: visit, first, below, congrArg (f :: ·) heq, ?_, hfirst, hbelow⟩
        intro g' hg'
        rcases List.mem_cons.mp hg' with rfl | hg'
        · exact ⟨hm, hstatic⟩
        · exact hvisit g' hg'
      · rintro ⟨visit, first, below, heq, hvisit, hfirst, hbelow⟩
        cases visit with
        | nil =>
          obtain ⟨-, rfl⟩ := List.cons.inj heq
          exact absurd hgm (hbelow g List.mem_cons_self)
        | cons f' visit =>
          obtain ⟨-, hrest⟩ := List.cons.inj heq
          exact ⟨visit, first, below, hrest, fun g' hg' => hvisit g' (List.mem_cons_of_mem _ hg'),
            hfirst, hbelow⟩

end Entries

/-! ## One call and one return -/

namespace ReentrancyChecker

variable {c c' : ReentrancyChecker} {f : CallFrame} {callers : List CallFrame}

/-- What a call counts. A call from another module under a lock is into a module not active. -/
structure Entered (c c' : ReentrancyChecker) (f : CallFrame) (callers : List CallFrame) : Prop where
  locks : c'.moduleLockCount = c.moduleLockCount + if f.Locks then 1 else 0
  active : ∀ m, c'.activeModules.count m
    = (if f.moduleId = m ∧ f.Enters callers then 1 else 0) + c.activeModules.count m
  fresh : f.Crosses callers → 0 < c'.moduleLockCount → c.activeModules.count f.moduleId = 0

/-- **Entering.** The three ways a call is let through, in the order of the source. -/
theorem enterFunction_eq_ok
    (h : c.enterFunction (callers.head?.map moduleId) f.function f.callType = .ok c') :
    Entered c c' f callers := by
  -- the checker once the lock of the callee, if it takes one, is counted
  obtain ⟨d, hd, hactive, hlocks⟩ : ∃ d : ReentrancyChecker,
      (if f.Locks then c.enterModuleLock else c) = d ∧ d.activeModules = c.activeModules
        ∧ d.moduleLockCount = c.moduleLockCount + if f.Locks then 1 else 0 := by
    refine ⟨_, rfl, ?_, ?_⟩
    · split <;> rfl
    · split <;> rfl
  have hcount : ∀ m, (d.activeModules.add f.moduleId).count m
      = (if f.moduleId = m then 1 else 0) + c.activeModules.count m := by
    intro m
    rw [Bag.count_add, hactive]
    by_cases hm : m = f.moduleId
    · rw [if_pos hm, if_pos hm.symm]
      omega
    · rw [if_neg hm, if_neg (Ne.symm hm), Nat.zero_add]
  have hlock : (if f.callType = .nativeDynamicDispatch ∨ f.function.hasModuleReentrancyLock = true
      then c.enterModuleLock else c) = d := hd
  simp only [enterFunction, hlock] at h
  split at h
  · -- from another module, or the first call
    rename_i hne
    have hcross : f.Crosses callers := Ne.symm hne
    split at h
    · -- the module is active and a lock is held: refused
      cases h
    · rename_i hfree
      obtain rfl := Except.ok.inj h
      refine ⟨hlocks, ?_, ?_⟩
      · intro m
        simp only [hcross, CallFrame.Enters, true_or, and_true]
        exact hcount m
      · intro _ hpos
        by_contra hne
        exact hfree ⟨hactive ▸ hne, hpos⟩
  · -- from the module itself: only a closure counts as an entry
    rename_i heq
    have hsame : some f.moduleId = callers.head?.map moduleId := not_not.mp heq
    have hstatic : ¬ f.Crosses callers := fun hcross => hcross hsame.symm
    split at h
    · rename_i hdispatch
      obtain rfl := Except.ok.inj h
      have hclosure : f.callType = .closureDynamicDispatch := by
        rcases hdispatch with hclosure | hnone
        · exact hclosure
        · rw [← hsame] at hnone
          cases hnone
      refine ⟨hlocks, ?_, fun hcross => absurd hcross hstatic⟩
      intro m
      simp only [CallFrame.Enters, hclosure, or_true, and_true]
      exact hcount m
    · -- a static call within the module, which counts nothing
      rename_i hdispatch
      obtain rfl := Except.ok.inj h
      have hnone : ¬ f.Enters callers := by
        rintro (hcross | hclosure)
        · exact hstatic hcross
        · exact hdispatch (.inl hclosure)
      refine ⟨hlocks, ?_, fun hcross => absurd hcross hstatic⟩
      intro m
      rw [if_neg fun h => hnone h.2, Nat.zero_add, hactive]

/-- **Leaving the module.** A counted entry is taken back, and another return changes nothing. -/
theorem exitModule_eq_ok {caller : CallFrame}
    (hactive : f.Enters (caller :: callers) → c.activeModules.count f.moduleId ≠ 0) :
    ∃ c', c.exitModule caller.moduleId f.function f.callType = .ok c'
      ∧ c'.moduleLockCount = c.moduleLockCount
      ∧ ∀ m, c'.activeModules.count m = c.activeModules.count m
          - if f.moduleId = m ∧ f.Enters (caller :: callers) then 1 else 0 := by
  have hcond : (caller.moduleId ≠ f.function.moduleOrScriptId
      ∨ f.callType = .closureDynamicDispatch) ↔ f.Enters (caller :: callers) := by
    simp [CallFrame.Enters, CallFrame.Crosses, CallFrame.moduleId]
  by_cases henters : f.Enters (caller :: callers)
  · cases hremove : c.activeModules.remove f.function.moduleOrScriptId with
    -- nothing to take back is what the hypothesis excludes
    | none => exact absurd (Bag.remove_eq_none.mp hremove) (hactive henters)
    | some active =>
      refine ⟨{ c with activeModules := active }, ?_, rfl, fun m => ?_⟩
      · simp only [exitModule]
        rw [if_pos (hcond.mpr henters), hremove]
      · show active.count m = _
        rw [Bag.count_of_remove hremove]
        by_cases hm : m = f.function.moduleOrScriptId
        · rw [if_pos hm, if_pos ⟨hm.symm, henters⟩]
        · rw [if_neg hm, if_neg fun h => hm h.1.symm, Nat.sub_zero]
  · -- no entry was counted, and the bag is not touched
    refine ⟨c, ?_, rfl, fun m => ?_⟩
    · simp only [exitModule]
      rw [if_neg fun h => henters (hcond.mp h)]
    · rw [if_neg fun h => henters h.2, Nat.sub_zero]

/-- **Returning.** It cannot fail for a call that was counted, and takes back what was counted. -/
theorem exitFunction_eq_ok {caller : CallFrame}
    (hlocks : f.Locks → 0 < c.moduleLockCount)
    (hactive : f.Enters (caller :: callers) → c.activeModules.count f.moduleId ≠ 0) :
    ∃ c', c.exitFunction caller.moduleId f.function f.callType = .ok c'
      ∧ c'.moduleLockCount = c.moduleLockCount - (if f.Locks then 1 else 0)
      ∧ ∀ m, c'.activeModules.count m = c.activeModules.count m
          - if f.moduleId = m ∧ f.Enters (caller :: callers) then 1 else 0 := by
  obtain ⟨d, hd, hdlocks, hdcount⟩ := exitModule_eq_ok hactive
  -- the lock is given back under the same test that took it
  by_cases hl : f.Locks
  · have hpos : 0 < d.moduleLockCount := hdlocks ▸ hlocks hl
    refine ⟨{ d with moduleLockCount := d.moduleLockCount - 1 }, ?_, ?_, hdcount⟩
    · refine Except.bind_eq_ok.mpr ⟨d, hd, ?_⟩
      exact (if_pos hl).trans (if_pos hpos)
    · show d.moduleLockCount - 1 = _
      rw [if_pos hl, hdlocks]
  · refine ⟨d, ?_, ?_, hdcount⟩
    · exact Except.bind_eq_ok.mpr ⟨d, hd, if_neg hl⟩
    · rw [if_neg hl, hdlocks, Nat.sub_zero]

end ReentrancyChecker

namespace AccessControlState

variable {s s' : AccessControlState} {c : OpenCall} {calls : List OpenCall}

/-- The specifiers on the stack are those of the open calls that have one, each at what the
parameters of its function stood for in that very call. -/
def Tracks (s : AccessControlState) (calls : List OpenCall) : Prop :=
  List.Forall₂ (fun spec (c : OpenCall) => c.function.accessSpecifier.specialize c.env = .ok spec)
    s.specifierStack (calls.filter fun c => !c.function.accessSpecifier.isAny)

/-- A call puts the specifier of its function on the stack, or none if it has none. -/
theorem Tracks.enterFunction (h : s.Tracks calls)
    (henter : s.enterFunction c.env c.function = .ok s') : s'.Tracks (c :: calls) := by
  unfold AccessControlState.enterFunction at henter
  unfold Tracks
  split at henter
  · rename_i hany
    obtain rfl := Except.ok.inj henter
    rw [List.filter_cons_of_neg (by simp [hany])]
    exact h
  · rename_i hany
    split at henter
    · cases henter
    · obtain ⟨spec, hspec, henter⟩ := Except.bind_eq_ok.mp henter
      obtain rfl := Except.pure_eq_ok.mp henter
      rw [List.filter_cons_of_pos (by simp [hany])]
      exact .cons hspec h

/-- A return finds the specifier of its own call on top. -/
theorem Tracks.exitFunction (h : s.Tracks (c :: calls)) :
    ∃ s', s.exitFunction c.function = .ok s' ∧ s'.Tracks calls := by
  unfold AccessControlState.exitFunction
  unfold Tracks at h
  split
  · -- a function without restrictions left nothing on the stack
    rename_i hany
    rw [List.filter_cons_of_neg (by simp [hany])] at h
    exact ⟨s, rfl, h⟩
  · rename_i hany
    rw [List.filter_cons_of_pos (by simp [hany])] at h
    cases hstack : s.specifierStack with
    | nil =>
      rw [hstack] at h
      cases h
    | cons spec rest =>
      rw [hstack] at h
      exact ⟨⟨rest⟩, rfl, (List.forall₂_cons.mp h).2⟩

/-- A function without restrictions allows every access, in any environment. -/
theorem allows_of_isAny (hany : c.function.accessSpecifier.isAny = true) (access : AccessInstance) :
    c.Allows access := by
  cases hspec : c.function.accessSpecifier with
  | any => exact ⟨.any, by rw [hspec]; rfl, rfl⟩
  | constraint incls excls => simp [hspec, AccessSpecifier.isAny] at hany

/-- **What the stack enables.** Every specifier on it enables an access exactly if every open call
allows it. -/
theorem Tracks.enables_iff (h : s.Tracks calls) (access : AccessInstance) :
    (∀ spec ∈ s.specifierStack, spec.enables access = true) ↔ ∀ c ∈ calls, c.Allows access := by
  obtain ⟨stack⟩ := s
  induction calls generalizing stack with
  | nil =>
    obtain rfl : stack = [] := List.forall₂_nil_right_iff.mp h
    simp
  | cons c calls ih =>
    unfold Tracks at h
    by_cases hany : c.function.accessSpecifier.isAny = true
    · -- the call has no specifier on the stack
      rw [List.filter_cons_of_neg (by simp [hany])] at h
      rw [ih stack h, List.forall_mem_cons]
      exact (and_iff_right (allows_of_isAny hany access)).symm
    · rw [List.filter_cons_of_pos (by simp [hany])] at h
      cases h with
      | cons hspec hrest =>
        rw [List.forall_mem_cons, List.forall_mem_cons, ih _ hrest]
        refine and_congr_left fun _ => ⟨fun henables => ⟨_, hspec, henables⟩, ?_⟩
        rintro ⟨spec, hspec', henables⟩
        obtain rfl := Except.ok.inj (hspec.symm.trans hspec')
        exact henables

end AccessControlState

/-! ## Runs -/

/-- No module that was on the stack was entered from another one while a lock was held. -/
def LockSafe : List CallFrame → Prop
  | [] => True
  | f :: callers =>
    (f.Crosses callers → (∃ g ∈ f :: callers, g.Locks) → ∀ g ∈ callers, g.moduleId ≠ f.moduleId)
      ∧ LockSafe callers

namespace CallGuards

/-- What the two state machines know is what is on the stack, and on the stack are the open calls. -/
structure Follows (g : CallGuards) (calls : List OpenCall) : Prop where
  frames : g.frames = calls.map OpenCall.toCallFrame
  active : ∀ m, g.reentrancyChecker.activeModules.count m = entriesOf m g.frames
  locks : g.reentrancyChecker.moduleLockCount = g.frames.countP fun f => f.Locks
  specifiers : g.accessControl.Tracks calls
  lockSafe : LockSafe g.frames

variable {g g' : CallGuards} {callee : Callee} {callType : CallType} {env : AccessSpecifierEnv}
  {calls : List OpenCall}

/-- A call, of a frame and of the first one alike. -/
theorem follows_of_entered {c : ReentrancyChecker} {s : AccessControlState} {o : OpenCall}
    (h : g.Follows calls) (hchecker : g.reentrancyChecker.Entered c o.toCallFrame g.frames)
    (hcontrol : s.Tracks (o :: calls)) :
    Follows { frames := o.toCallFrame :: g.frames, reentrancyChecker := c, accessControl := s }
      (o :: calls) where
  frames := by rw [List.map_cons, h.frames]
  active m := by
    show c.activeModules.count m = _
    rw [hchecker.active, h.active, entriesOf]
  locks := by
    show c.moduleLockCount = _
    rw [hchecker.locks, h.locks, List.countP_cons]
    -- one lock more or not, as the frame on top locks or not
    by_cases hl : o.Locks <;> simp [hl]
  specifiers := hcontrol
  lockSafe := by
    refine ⟨fun hcross hlock => ?_, h.lockSafe⟩
    -- some lock is held, so the module was not active
    have hpos : 0 < c.moduleLockCount := by
      rw [hchecker.locks, h.locks]
      obtain ⟨g', hg', hl⟩ := hlock
      rcases List.mem_cons.mp hg' with rfl | hg'
      · rw [if_pos hl]
        omega
      · have hcount := List.countP_pos_iff (p := fun f => f.Locks).mpr
          ⟨g', hg', decide_eq_true hl⟩
        omega
    have hzero := hchecker.fresh hcross hpos
    rw [h.active] at hzero
    exact entriesOf_eq_zero.mp hzero

/-- **The first call.** It is entered from no module, with nothing locked. -/
theorem executeMain_follows (h : executeMain callee env = .ok g) :
    g.Follows [⟨⟨callee, .regular⟩, env⟩] := by
  obtain ⟨c, hc, h⟩ := Except.bind_eq_ok.mp h
  obtain ⟨s, hs, h⟩ := Except.bind_eq_ok.mp h
  obtain rfl := Except.pure_eq_ok.mp h
  have hempty : Follows { frames := [], reentrancyChecker := ⟨.empty, 0⟩, accessControl := ⟨[]⟩ }
      [] := ⟨rfl, fun m => rfl, rfl, .nil, trivial⟩
  have hchecker : ReentrancyChecker.Entered ⟨.empty, 0⟩ c ⟨callee, .regular⟩ [] :=
    ReentrancyChecker.enterFunction_eq_ok hc
  exact follows_of_entered (o := ⟨⟨callee, .regular⟩, env⟩) hempty hchecker
    (AccessControlState.Tracks.enterFunction hempty.specifiers hs)

/-- **Calls.** A call that goes through leaves the guards knowing the new stack. -/
theorem setNewCallFrame_follows (hfollows : g.Follows calls)
    (h : g.setNewCallFrame callee callType env = .ok g') :
    g'.Follows (⟨⟨callee, callType⟩, env⟩ :: calls) := by
  unfold setNewCallFrame at h
  split at h
  · cases h
  · rename_i current callers hframes
    obtain ⟨c, hc, h⟩ := Except.bind_eq_ok.mp h
    obtain ⟨s, hs, h⟩ := Except.bind_eq_ok.mp h
    -- what is entered is known whether or not the stack still has room
    split at h
    · obtain rfl := Except.pure_eq_ok.mp h
      rw [← hframes]
      refine follows_of_entered (o := ⟨⟨callee, callType⟩, env⟩) hfollows ?_
        (AccessControlState.Tracks.enterFunction hfollows.specifiers hs)
      exact ReentrancyChecker.enterFunction_eq_ok (by rw [hframes]; exact hc)
    · cases h

/-- **Returns.** A function on the stack can return, and the guards know of it. -/
theorem returnFromFunction_eq_ok (h : g.Follows calls) {current : CallFrame}
    {callers : List CallFrame} (hframes : g.frames = current :: callers) :
    ∃ g', g.returnFromFunction = .ok g' ∧ g'.frames = callers
      ∧ (callers ≠ [] → g'.Follows calls.tail) := by
  -- the frame that returns is that of the last open call
  obtain ⟨o, rest, rfl, rfl, hrest⟩ : ∃ (o : OpenCall) (rest : List OpenCall), calls = o :: rest
      ∧ o.toCallFrame = current ∧ rest.map OpenCall.toCallFrame = callers := by
    have hsame := h.frames.symm.trans hframes
    cases calls with
    | nil => cases hsame
    | cons o rest => exact ⟨o, rest, rfl, (List.cons.inj hsame).1, (List.cons.inj hsame).2⟩
  obtain ⟨s, hs, htracks⟩ := h.specifiers.exitFunction
  have hactive := h.active
  have hlocks := h.locks
  have hsafe := h.lockSafe
  rw [hframes] at hlocks hsafe
  simp only [hframes] at hactive
  -- the last frame: only the access control is told, and no frame is left to know of
  cases callers with
  | nil =>
    refine ⟨{ g with frames := [], accessControl := s }, ?_, rfl, fun hne => absurd rfl hne⟩
    simp only [returnFromFunction, hframes]
    rw [hs]
    rfl
  | cons caller callers =>
    -- what `exit_function` takes back was counted, by the invariant
    have hheld : o.Locks → 0 < g.reentrancyChecker.moduleLockCount := by
      intro hl
      rw [hlocks, List.countP_cons_of_pos (by simpa using hl)]
      omega
    have hentered : o.Enters (caller :: callers) →
        g.reentrancyChecker.activeModules.count o.moduleId ≠ 0 := by
      intro henters
      rw [hactive, entriesOf, if_pos ⟨rfl, henters⟩]
      omega
    obtain ⟨c, hc, hclocks, hcactive⟩ :=
      ReentrancyChecker.exitFunction_eq_ok hheld hentered
    refine ⟨{ frames := caller :: callers, reentrancyChecker := c, accessControl := s }, ?_, rfl,
      fun _ => ⟨hrest.symm, ?_, ?_, htracks, hsafe.2⟩⟩
    · simp only [returnFromFunction, hframes]
      rw [hs, Except.ok_bind]
      exact Except.bind_eq_ok.mpr ⟨c, hc, rfl⟩
    · intro m
      show c.activeModules.count m = entriesOf m (caller :: callers)
      rw [hcactive, hactive m, entriesOf]
      omega
    · show c.moduleLockCount = _
      rw [hclocks, hlocks, List.countP_cons]
      by_cases hl : o.Locks <;> simp [hl]

/-- **Steps.** The run is over, or the guards know what is on the stack. -/
theorem step_follows {e : CallEvent} (h : g.frames = [] ∨ g.Follows calls)
    (hstep : step e g = .ok g') : g'.frames = [] ∨ g'.Follows (e.openCalls calls) := by
  cases e with
  | call callee callType env =>
    -- a run that is over takes no calls
    rcases h with hover | hfollows
    · simp only [step, setNewCallFrame, hover] at hstep
      cases hstep
    · exact .inr (setNewCallFrame_follows hfollows hstep)
  | access kind ty addr =>
    obtain ⟨-, hstep⟩ := Except.bind_unit_eq_ok.mp hstep
    obtain rfl := Except.pure_eq_ok.mp hstep
    exact h
  | ret =>
    cases hframes : g.frames with
    | nil =>
      simp only [step, returnFromFunction, hframes] at hstep
      cases hstep
    | cons current callers =>
      have hfollows : g.Follows calls := by
        rcases h with hover | hfollows
        · rw [hframes] at hover
          cases hover
        · exact hfollows
      obtain ⟨g'', hret, hcallers, hleft⟩ := returnFromFunction_eq_ok hfollows hframes
      obtain rfl : g'' = g' := Except.ok.inj (hret.symm.trans hstep)
      -- the guards know of the rest of the stack, if there is any
      by_cases hempty : callers = []
      · exact .inl (hcallers.trans hempty)
      · exact .inr (hleft hempty)

/-- **Runs.** By induction over the events, with the open calls as the accumulator. -/
theorem run_follows {es : List CallEvent} (h : g.frames = [] ∨ g.Follows calls)
    (hrun : run es g = .ok g') :
    g'.frames = [] ∨ g'.Follows (es.foldl (fun calls e => e.openCalls calls) calls) := by
  induction es generalizing g calls with
  | nil =>
    obtain rfl := Except.ok.inj hrun
    exact h
  | cons e es ih =>
    obtain ⟨g₁, hstep, hrest⟩ := Except.bind_eq_ok.mp hrun
    exact ih (step_follows h hstep) hrest

/-- In a run that is not over, the guards know what is on the stack. -/
theorem follows_of_run {g₀ : CallGuards} {es : List CallEvent}
    (hmain : executeMain callee env = .ok g₀) (hrun : run es g₀ = .ok g) (hne : g.frames ≠ []) :
    g.Follows (openCalls callee env es) :=
  (run_follows (.inr (executeMain_follows hmain)) hrun).resolve_left hne

/-- What an access asks of the stack: one entry of the defining module, and every open call. -/
theorem checkAccess_eq_ok (h : g.Follows calls) {kind : AccessKind} {ty : Ty} {addr : AccountAddress}
    {structName : StructIdentifier} {typeInst : List Ty}
    (hty : resourceOf ty = .ok (structName, typeInst)) :
    g.checkAccess kind ty addr = .ok () ↔ entriesOf structName.module g.frames ≤ 1
      ∧ ∀ c ∈ calls, c.Allows ⟨kind, structName, typeInst, addr⟩ := by
  unfold checkAccess
  rw [hty, Except.ok_bind]
  dsimp only
  rw [Except.bind_unit_eq_ok]
  apply and_congr
  · -- the reentrancy checker: the count is `entriesOf` by the invariant
    unfold ReentrancyChecker.checkResourceAccess
    rw [h.active]
    split
    · simp
      omega
    · simp
      omega
  · -- access control: the stack stands for the open calls
    rw [← h.specifiers.enables_iff]
    unfold AccessControlState.checkAccess
    rw [← List.all_eq_true]
    split <;> simp_all

/-- `LockSafe` at a frame further down. -/
theorem lockSafe_split {above below : List CallFrame} {f : CallFrame}
    (h : LockSafe (above ++ f :: below)) (hcross : f.Crosses below)
    (hlock : ∃ g ∈ f :: below, g.Locks) : ∀ g ∈ below, g.moduleId ≠ f.moduleId := by
  induction above with
  | nil => exact h.1 hcross hlock
  | cons _ above ih => exact ih h.2

end CallGuards

section Runs

open CallGuards

variable {callee : Callee} {env : AccessSpecifierEnv} {g₀ g : CallGuards} {es : List CallEvent}
  {current : CallFrame} {callers : List CallFrame}

/-- **Access.** Whatever was called and returned from before: on the stack are the open calls of the
run, with the specifiers of their functions at what the parameters stood for in each of these calls;
and a function may access a resource of its module exactly if the frames of the module lie together
on top of the stack, none but the first of them called through a closure, and every open call
allows the access. -/
theorem resource_access_iff (hmain : executeMain callee env = .ok g₀) (hrun : run es g₀ = .ok g)
    (hframes : g.frames = current :: callers) {kind : AccessKind} {ty : Ty} {addr : AccountAddress}
    {structName : StructIdentifier} {typeInst : List Ty}
    (hty : resourceOf ty = .ok (structName, typeInst))
    (hown : structName.module = current.moduleId) :
    g.frames = (openCalls callee env es).map OpenCall.toCallFrame
    ∧ g.accessControl.Tracks (openCalls callee env es)
    ∧ (g.checkAccess kind ty addr = .ok () ↔
      (∃ visit first below, g.frames = visit ++ first :: below
        ∧ (∀ f ∈ visit, f.moduleId = current.moduleId ∧ f.callType ≠ .closureDynamicDispatch)
        ∧ first.moduleId = current.moduleId ∧ ∀ f ∈ below, f.moduleId ≠ current.moduleId)
      ∧ ∀ c ∈ openCalls callee env es, c.Allows ⟨kind, structName, typeInst, addr⟩) := by
  have hfollows := follows_of_run hmain hrun (by simp [hframes])
  refine ⟨hfollows.frames, hfollows.specifiers, ?_⟩
  rw [checkAccess_eq_ok hfollows hty, hown, hframes, entriesOf_le_one rfl]

/-- **Locks.** In every state of every run, no function on the stack was called from another module,
while it or a function below held a lock, if its module was on the stack already; and the function
on top can return. -/
theorem lock_excludes_reentry (hmain : executeMain callee env = .ok g₀) (hrun : run es g₀ = .ok g)
    (hframes : g.frames = current :: callers) :
    (∀ above f below, g.frames = above ++ f :: below → f.Crosses below →
      (∃ h ∈ f :: below, h.Locks) → ∀ h ∈ below, h.moduleId ≠ f.moduleId)
    ∧ ∃ g', g.returnFromFunction = .ok g' ∧ g'.frames = callers := by
  have hfollows := follows_of_run hmain hrun (by simp [hframes])
  constructor
  · intro above f below hsplit hcross hlock
    have hsafe := hfollows.lockSafe
    rw [hsplit] at hsafe
    exact lockSafe_split hsafe hcross hlock
  · obtain ⟨g', hret, hcallers, -⟩ := returnFromFunction_eq_ok hfollows hframes
    exact ⟨g', hret, hcallers⟩

end Runs

/-! ## A bank and its customer

A customer's function calls the bank, which may write what is at the address it was given. -/

def bankId : ModuleId := ⟨sampleAddress, ⟨"bank"⟩⟩
def customerId : ModuleId := ⟨sampleAddress, ⟨"customer"⟩⟩

def customerMain : Callee where
  moduleOrScriptId := customerId
  name := ⟨"main"⟩
  hasModuleReentrancyLock := false
  accessSpecifier := .any

/-- Locked, and restricted to what is at its first argument. -/
def bankDeposit : Callee where
  moduleOrScriptId := bankId
  name := ⟨"deposit"⟩
  hasModuleReentrancyLock := true
  accessSpecifier := .constraint [⟨.writes, .declaredInModule bankId, .eval .identity 0⟩] []

def balanceTy : Ty := .struct ⟨bankId, ⟨"Balance"⟩⟩ (.struct ⟨8⟩)

def deposit : VMResult CallGuards := do
  let g ← CallGuards.executeMain customerMain fun _ _ => .error internalTypeError
  CallGuards.run [.call bankDeposit .regular fun _ _ => .ok sampleAddress] g

/-- What the run of the deposit is. -/
theorem exists_deposit : ∃ g₀ g callers,
    CallGuards.executeMain customerMain (fun _ _ => .error internalTypeError) = .ok g₀
    ∧ CallGuards.run [.call bankDeposit .regular fun _ _ => .ok sampleAddress] g₀ = .ok g
    ∧ g.frames = ⟨bankDeposit, .regular⟩ :: callers ∧ callers = [⟨customerMain, .regular⟩] :=
  ⟨_, _, _, rfl, rfl, rfl, rfl⟩

/-- The bank may write what is at the address it was called with, and not at another one. -/
theorem resource_access_iff_deposit :
    ∃ g, deposit = .ok g ∧ g.checkAccess .writes balanceTy sampleAddress = .ok ()
      ∧ g.checkAccess .writes balanceTy otherAddress ≠ .ok () := by
  obtain ⟨g₀, g, callers, hmain, hrun, hframes, rfl⟩ := exists_deposit
  refine ⟨g, Except.bind_eq_ok.mpr ⟨g₀, hmain, hrun⟩, ?_, fun hother => ?_⟩
  · refine (resource_access_iff hmain hrun hframes rfl rfl).2.2.mpr ⟨?_, ?_⟩
    · refine ⟨[], ⟨bankDeposit, .regular⟩, [⟨customerMain, .regular⟩], hframes, by simp, rfl, ?_⟩
      intro f hf
      obtain rfl := List.mem_singleton.mp hf
      decide
    · intro c hc
      rcases List.mem_pair.mp hc with rfl | rfl
      · exact ⟨_, rfl, by decide⟩
      · exact ⟨_, rfl, rfl⟩
  · obtain ⟨spec, hspec, henables⟩ := ((resource_access_iff hmain hrun hframes rfl rfl).2.2.mp
      hother).2 _ List.mem_cons_self
    obtain rfl := Except.ok.inj hspec
    exact absurd henables (by decide)

theorem lock_excludes_reentry_deposit :
    ∃ g g', deposit = .ok g ∧ g.returnFromFunction = .ok g'
      ∧ g'.frames = [⟨customerMain, .regular⟩] := by
  obtain ⟨g₀, g, callers, hmain, hrun, hframes, rfl⟩ := exists_deposit
  obtain ⟨-, g', hret, hcallers⟩ := lock_excludes_reentry hmain hrun hframes
  exact ⟨g, g', Except.bind_eq_ok.mpr ⟨g₀, hmain, hrun⟩, hret, hcallers⟩

end NexusMove
