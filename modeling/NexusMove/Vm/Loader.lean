import NexusMove.Lib.Except
import NexusMove.Vm.RuntimeTypes

/-!
# Loading functions

How the VM gets from a name to something it can run: a module is fetched,
deserialized and verified, its tables become runtime types, and a function is
looked up by its name and instantiated at type arguments. Neither visibility nor
the entry flag is asked about on the way; they are carried along.

* `loadFunction`, `loadScript` — the two ways a function is loaded.
* `loadFunction_eq_ok` — what a loaded function is.
-/

namespace NexusMove

/-! ## From tables to runtime types -/

mutual

/-- `intern_type`: a signature token over the tables of its module. -/
def internType (m : CompiledModule) : SignatureToken → Ty
  | .bool => .bool
  | .u8 => .u8
  | .u16 => .u16
  | .u32 => .u32
  | .u64 => .u64
  | .u128 => .u128
  | .u256 => .u256
  | .address => .address
  | .signer => .signer
  | .typeParameter idx => .tyParam idx
  | .vector inner => .vector (internType m inner)
  | .function args results abilities =>
    .function (internTypes m args) (internTypes m results) abilities
  | .reference inner => .reference (internType m inner)
  | .mutableReference inner => .mutableReference (internType m inner)
  | .struct idx => .struct (m.resolveStruct idx) (.struct (m.structHandleAt idx.toNat).abilities)
  | .structInstantiation idx tys =>
    let h := m.structHandleAt idx.toNat
    .structInstantiation (m.resolveStruct idx) (internTypes m tys)
      ⟨h.abilities, h.typeParameters.map StructTypeParameter.isPhantom⟩

def internTypes (m : CompiledModule) : List SignatureToken → List Ty
  | [] => []
  | tok :: toks => internType m tok :: internTypes m toks

end

def makeField (m : CompiledModule) (f : FieldDefinition) : Identifier × Ty :=
  (m.identifierAt f.name, internType m f.signature)

/-- `make_struct_type`. There are no native structs any more; the source panics on one. -/
def makeStructType (m : CompiledModule) (s : StructDefinition) : Option StructType := do
  let h := m.structHandleAt s.structHandle
  let layout ← match s.fieldInformation with
    | .native => none
    | .declared fields => some (.single (fields.map (makeField m)))
    | .declaredVariants variants =>
      some (.variants (variants.map fun v => (m.identifierAt v.name, v.fields.map (makeField m))))
  return {
    idx := m.resolveStruct (.ofNat s.structHandle)
    layout
    phantomTyParamsMask := h.typeParameters.map StructTypeParameter.isPhantom
    abilities := h.abilities
    tyParams := h.typeParameters }

/-- A runtime function. `index` is its position among the definitions of its module. -/
structure Function where
  index : Nat
  name : Identifier
  isFriendOrPrivate : Bool
  isEntry : Bool
  tyParamAbilities : List AbilitySet
  paramTys : List Ty
  returnTys : List Ty

/-- `Function::new`: a function definition with the handle it points to. -/
def Function.new (m : CompiledModule) (index : Nat) (d : FunctionDefinition) : Function :=
  let h := m.functionHandleAt d.function
  { index
    name := m.identifierAt h.name
    isFriendOrPrivate :=
      match d.visibility with
      | .friend | .priv => true
      | .pub => false
    isEntry := d.isEntry
    tyParamAbilities := h.typeParameters
    paramTys := internTypes m (m.signatureAt h.parameters)
    returnTys := internTypes m (m.signatureAt h.returns) }

/-- The last definition of a name, which is the one a map from names to definitions keeps. -/
def CompiledModule.functionNamed (m : CompiledModule) (name : Identifier) :
    Option (Nat × FunctionDefinition) :=
  m.functionDefs.zipIdx.reverse.findSome? fun (d, i) =>
    if m.functionName d = name then some (i, d) else none

/-- The last definition of a name, as a map that was filled in order has it. -/
def CompiledModule.structNamed (m : CompiledModule) (name : Identifier) : Option StructDefinition :=
  m.structDefs.reverse.find? fun d => m.structName d = name

/-! ## Modules -/

/-- The id as errors print it, with a short address where it is special. -/
def ModuleId.displayStandard (id : ModuleId) : String :=
  id.address.toStandardString ++ "::" ++ id.name.name

def moduleLinkerError (id : ModuleId) : VMError :=
  partialError StatusCode.linkerError (some ("Linker Error: Module " ++ id.display ++ " doesn't exist"))

/-- `paranoid_check_module_address_and_name`. The runtime runs with paranoid checks. -/
def paranoidCheckModuleAddressAndName (m : CompiledModule) (expected : ModuleId) : VMResult Unit :=
  if m.selfId ≠ expected then
    .error { partialError StatusCode.unknownInvariantViolationError
      (some ("Expected module " ++ expected.displayStandard ++ ", but got "
        ++ m.selfId.displayStandard)) with subStatus := some 1 }
  else .ok ()

/-- `expect_no_verification_errors`: code that is stored should not fail to deserialize or verify. -/
def expectNoVerificationErrors (v : Vendor) (err : VMError) : VMError :=
  let message := some ("Unexpected verifier/deserialization error! This likely means there is code "
    ++ "stored on chain that is unverifiable!\nError: " ++ v.debugMoveError err)
  if 1000 ≤ err.majorStatus ∧ err.majorStatus ≤ 1999 then
    { err with majorStatus := StatusCode.unexpectedVerifierError, subStatus := none, message }
  else if 3000 ≤ err.majorStatus ∧ err.majorStatus ≤ 3999 then
    { err with majorStatus := StatusCode.unexpectedDeserializationError, subStatus := none, message }
  else err

section Code

variable (v : Vendor) (state : NexusStateView)

/-- `fetch_verified_module`. Fetching is not remembered between requests. -/
def fetchVerifiedModule (id : ModuleId) : VMResult (Option CompiledModule) := do
  match ← fetchModuleBytes v state id with
  | none => return none
  | some bytes =>
    let compiled ← v.deserializeIntoCompiledModule bytes
    paranoidCheckModuleAddressAndName compiled id
    v.verifyModule compiled bytes.length
    v.verifyDependencies (fetchModuleBytes v state) compiled
    return some compiled

def fetchExistingVerifiedModule (id : ModuleId) : VMResult CompiledModule := do
  match ← (fetchVerifiedModule v state id).mapError (expectNoVerificationErrors v) with
  | none => throw (moduleLinkerError id)
  | some compiled => return compiled

def fetchStructTy (idx : StructIdentifier) : VMResult StructType := do
  let compiled ← (fetchExistingVerifiedModule v state idx.module).mapError (·.finish .undefined)
  match (compiled.structNamed idx.name).bind (makeStructType compiled) with
  | some structTy => return structTy
  | none => throw (partialError StatusCode.typeResolutionFailure
      (some ("Struct " ++ compiled.selfId.displayStandard ++ "::" ++ idx.name.name
        ++ " does not exist")))

def fetchTy (tyTag : TypeTag) : VMResult Ty :=
  (TypeBuilder.default.createTy
    (fun st => fetchStructTy v state ⟨⟨st.address, st.module⟩, st.name⟩) tyTag).mapError
    (·.finish .undefined)

/-- The type arguments are created one after another, and the first error is returned. -/
def fetchTys : List TypeTag → VMResult (List Ty)
  | [] => .ok []
  | tyTag :: tyTags => do return (← fetchTy v state tyTag) :: (← fetchTys tyTags)

/-! ## Functions -/

/-- What a function was loaded from. -/
inductive LoadedFunctionOwner where
  | script (script : CompiledScript)
  | module (compiled : CompiledModule)

structure LoadedFunction where
  owner : LoadedFunctionOwner
  tyArgs : List Ty
  function : Function

def fetchFunctionDefinition (id : ModuleId) (functionName : Identifier) :
    VMResult (CompiledModule × Function) := do
  let compiled ← fetchExistingVerifiedModule v state id
  match compiled.functionNamed functionName with
  | some (index, d) => return (compiled, Function.new compiled index d)
  | none => throw (partialError StatusCode.functionResolutionFailure
      (some ("Function " ++ compiled.selfId.displayStandard ++ "::" ++ functionName.name
        ++ " does not exist")))

/-- A type argument of the user's that fails to resolve is marked by a sub status. -/
def markUserTypeError (err : VMError) : VMError :=
  if err.majorStatus = StatusCode.typeResolutionFailure then { err with subStatus := some 1 } else err

def loadFunction (id : ModuleId) (functionName : Identifier) (tyArgs : List TypeTag) :
    VMResult LoadedFunction := do
  let (compiled, function) ← fetchFunctionDefinition v state id functionName
  let tyArgs ← (fetchTys v state tyArgs).mapError markUserTypeError
  (Ty.verifyTyArgAbilities function.tyParamAbilities tyArgs).mapError (·.finish (.module id))
  return { owner := .module compiled, tyArgs, function }

/-! ## Scripts -/

def deserializeIntoScript (bytes : Bytes) : VMResult CompiledScript :=
  (v.deserializeScript bytes).mapError fun err =>
    VMError.of StatusCode.codeDeserializationError .script
      (some ("[VM] deserializer for script returned error: " ++ err.debug))

/-- The dependencies of a script, none of which may be missing. -/
def fetchExistingVerifiedModules : List ModuleId → VMResult Unit
  | [] => .ok ()
  | id :: ids => do
    let _ ← fetchExistingVerifiedModule v state id
    fetchExistingVerifiedModules ids

/-- `verify_and_cache_script`. -/
def verifyScript (bytes : Bytes) : VMResult CompiledScript := do
  let script ← deserializeIntoScript v bytes
  v.verifyScript script
  fetchExistingVerifiedModules v state script.immediateDependencies
  v.linkScript (fetchModuleBytes v state) script
  return script

/-- The entry point of a script, a function `main` that returns nothing. -/
def CompiledScript.entryPoint (s : CompiledScript) : Function where
  index := 0
  name := ⟨"main"⟩
  isFriendOrPrivate := false
  isEntry := false
  tyParamAbilities := s.typeParameters
  paramTys := internTypes s.handleTables (s.handleTables.signatureAt s.parameters)
  returnTys := []

def loadScript (bytes : Bytes) (tyArgs : List TypeTag) : VMResult LoadedFunction := do
  let script ← verifyScript v state bytes
  let tyArgs ← (fetchTys v state tyArgs).mapError (·.finish .script)
  (Ty.verifyTyArgAbilities script.entryPoint.tyParamAbilities tyArgs).mapError (·.finish .script)
  return { owner := .script script, tyArgs, function := script.entryPoint }

end Code

/-! ## What loading does -/

section Spec

variable {v : Vendor} {state : NexusStateView} {id : ModuleId}

theorem fetchExistingVerifiedModule_eq_ok {m : CompiledModule}
    (h : fetchExistingVerifiedModule v state id = .ok m) :
    m.selfId = id ∧ ∃ bytes, fetchModuleBytes v state id = .ok (some bytes)
      ∧ v.deserialize bytes = .ok m := by
  obtain ⟨found, hfound, h⟩ := Except.bind_eq_ok.mp h
  cases found with
  | none => cases h
  | some m' =>
    obtain rfl : m' = m := by simpa using h
    rw [Except.mapError_eq_ok] at hfound
    obtain ⟨found, hbytes, hfound⟩ := Except.bind_eq_ok.mp hfound
    cases found with
    | none => simp at hfound
    | some bytes =>
      -- deserialized, compared with the id, verified; the last two say nothing about the result
      obtain ⟨m'', hm, hfound⟩ := Except.bind_eq_ok.mp hfound
      obtain ⟨hself, hfound⟩ := Except.bind_unit_eq_ok.mp hfound
      obtain ⟨-, hfound⟩ := Except.bind_unit_eq_ok.mp hfound
      obtain ⟨-, hfound⟩ := Except.bind_unit_eq_ok.mp hfound
      obtain rfl : m'' = m' := by simpa using hfound
      refine ⟨?_, bytes, hbytes, Except.mapError_eq_ok.mp hm⟩
      unfold paranoidCheckModuleAddressAndName at hself
      by_contra hne
      simp [hne] at hself

theorem functionName_of_functionNamed {m : CompiledModule} {name : Identifier} {i : Nat}
    {d : FunctionDefinition} (h : m.functionNamed name = some (i, d)) :
    m.functionName d = name := by
  obtain ⟨⟨d', i'⟩, -, hd⟩ := List.exists_of_findSome?_eq_some h
  dsimp only at hd
  split_ifs at hd with heq
  obtain ⟨-, rfl⟩ : i' = i ∧ d' = d := by simpa using hd
  exact heq

/-- **Loading by name.** A loaded function is the definition of its name in the module that is
found under the module's id. -/
theorem loadFunction_eq_ok {functionName : Identifier} {tyArgs : List TypeTag} {f : LoadedFunction}
    (h : loadFunction v state id functionName tyArgs = .ok f) :
    ∃ m bytes i d, fetchModuleBytes v state id = .ok (some bytes) ∧ v.deserialize bytes = .ok m
      ∧ m.selfId = id ∧ m.functionNamed functionName = some (i, d) ∧ m.functionName d = functionName
      ∧ f.owner = .module m ∧ f.function = Function.new m i d := by
  obtain ⟨⟨m, function⟩, hfetch, h⟩ := Except.bind_eq_ok.mp h
  obtain ⟨tys, -, h⟩ := Except.bind_eq_ok.mp h
  obtain ⟨-, h⟩ := Except.bind_unit_eq_ok.mp h
  obtain rfl : _ = f := by simpa using h
  obtain ⟨m', hm, hfetch⟩ := Except.bind_eq_ok.mp hfetch
  obtain ⟨hself, bytes, hbytes, hd⟩ := fetchExistingVerifiedModule_eq_ok hm
  cases hnamed : m'.functionNamed functionName with
  | none => simp [hnamed] at hfetch
  | some p =>
    obtain ⟨i, d⟩ := p
    obtain ⟨rfl, rfl⟩ : m' = m ∧ Function.new m' i d = function := by simpa [hnamed] using hfetch
    exact ⟨m', bytes, i, d, hbytes, hd, hself, hnamed, functionName_of_functionNamed hnamed, rfl,
      rfl⟩

end Spec

end NexusMove
