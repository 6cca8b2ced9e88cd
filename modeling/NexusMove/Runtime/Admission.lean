import NexusMove.Runtime.Signers

/-!
# Call admission

Which stored functions a call can run. The call names its function by a string,
the loader finds the definition of that name, and the VM runs it. Neither the
backend nor the VM asks whether the function is public or an entry function, so a
call of a private function that loads and whose arguments fit runs it.

* `CallAdmission` — only public and entry functions are run.
* `callFits_iff` — which calls start.
* `callAdmission_iff` — when only public and entry functions do.
* `named_of_start` — what runs is the function that was named.
-/

namespace NexusMove

section Admission

variable (v : Vendor) (schedule : GasSchedule) (σ : Store) (request : FunctionCall)

/-- The definition a call names: that of its function's name in the module that is stored under
its module's name. -/
def namedFunction : Option FunctionDefinition :=
  match parseCall schedule request with
  | .error _ => none
  | .ok (id, fnIdent) =>
    match fetchModuleBytes v σ.view id with
    | .ok (some bytes) =>
      match v.deserialize bytes with
      | .ok m => (m.functionNamed fnIdent).map Prod.snd
      | .error _ => none
    | _ => none

def NamesCallable : Prop :=
  ∃ d, namedFunction v schedule σ request = some d ∧ (d.visibility = .pub ∨ d.isEntry = true)

/-- A call that names no public and no entry function runs no bytecode: its result is the same
whatever the interpreter does, and it is no success and changes nothing. -/
def CallAdmission : Prop :=
  ¬ NamesCallable v schedule σ request →
    (∀ interpreter interpreter', executeFunction v schedule σ.view interpreter request
      = executeFunction v schedule σ.view interpreter' request)
    ∧ ∀ interpreter out, executeFunction v schedule σ.view interpreter request = .ok out →
        out.status ≠ .success ∧ out.stateChanges = []

/-- The request is well formed for what it names: its names parse, its type arguments are type
tags, the function loads at them, and its instantiated signature fits the arguments. -/
def CallFits : Prop :=
  ∃ id fnIdent tyArgs f paramTys args returnTys,
    parseCall schedule request = .ok (id, fnIdent)
    ∧ deserializeTypeArgs v request.typeArgs = .ok tyArgs
    ∧ loadFunction v σ.view id fnIdent tyArgs = .ok f
    ∧ TypeBuilder.default.createTysWithSubst f.tyArgs f.function.paramTys = .ok paramTys
    ∧ deserializeArgs v σ.view paramTys (signerBytes request.sender :: request.args) = .ok args
    ∧ TypeBuilder.default.createTysWithSubst f.tyArgs f.function.returnTys = .ok returnTys

variable {v schedule σ request}

/-- **Names are resolved once.** The function that runs is the one the call names. -/
theorem named_of_start {start : Start}
    (h : startInvocation v schedule σ.view (.call request) = some start) :
    ∃ m i d, namedFunction v schedule σ request = some d
      ∧ start.function.owner = .module m ∧ start.function.function = Function.new m i d := by
  obtain ⟨f, hload, hentry⟩ := startInvocation_eq_some.mp h
  obtain ⟨rfl, -⟩ := prepareEntry_eq_ok hentry
  obtain ⟨⟨id, fnIdent⟩, hparse, hload⟩ := Except.bind_eq_ok.mp hload
  obtain ⟨tyArgs, -, hload⟩ := Except.bind_eq_ok.mp hload
  obtain ⟨m, bytes, i, d, hfetch, hd, -, hnamed, -, howner, hfunction⟩ :=
    loadFunction_eq_ok (Except.mapError_eq_ok.mp hload)
  exact ⟨m, i, d, by simp [namedFunction, hparse, hfetch, hd, hnamed], howner, hfunction⟩

/-- **Starting.** A call starts exactly if its request is well formed for what it names. -/
theorem callFits_iff :
    CallFits v schedule σ request ↔
      ∃ start, startInvocation v schedule σ.view (.call request) = some start := by
  constructor
  · rintro ⟨id, fnIdent, tyArgs, f, paramTys, args, returnTys, hparse, htys, hload, hparams, hargs,
      hreturns⟩
    refine ⟨⟨f, paramTys, returnTys, args⟩, startInvocation_eq_some.mpr ⟨f, ?_, ?_⟩⟩
    · exact Except.bind_eq_ok.mpr ⟨(id, fnIdent), hparse, Except.bind_eq_ok.mpr
        ⟨tyArgs, Except.mapError_eq_ok.mpr htys, Except.mapError_eq_ok.mpr hload⟩⟩
    · exact Except.bind_eq_ok.mpr ⟨paramTys, hparams, Except.bind_eq_ok.mpr
        ⟨args, hargs, Except.bind_eq_ok.mpr ⟨returnTys, hreturns, rfl⟩⟩⟩
  · rintro ⟨start, hstart⟩
    obtain ⟨f, hload, hentry⟩ := startInvocation_eq_some.mp hstart
    obtain ⟨⟨id, fnIdent⟩, hparse, hload⟩ := Except.bind_eq_ok.mp hload
    obtain ⟨tyArgs, htys, hload⟩ := Except.bind_eq_ok.mp hload
    obtain ⟨paramTys, hparams, hentry⟩ := Except.bind_eq_ok.mp hentry
    obtain ⟨args, hargs, hentry⟩ := Except.bind_eq_ok.mp hentry
    obtain ⟨returnTys, hreturns, -⟩ := Except.bind_eq_ok.mp hentry
    exact ⟨id, fnIdent, tyArgs, f, paramTys, args, returnTys, hparse, Except.mapError_eq_ok.mp htys,
      Except.mapError_eq_ok.mp hload, hparams, hargs, hreturns⟩

theorem executeInvocation_of_not_start {state : NexusStateView} {inv : Invocation}
    (h : startInvocation v schedule state inv = none) (interpreter interpreter' : Interpreter) :
    executeInvocation v schedule state interpreter inv
      = executeInvocation v schedule state interpreter' inv := by
  cases hload : loadInvocation v schedule state inv with
  | error e => simp only [executeInvocation, hload, bind, Except.bind]
  | ok f =>
    rw [executeInvocation_of_load interpreter hload, executeInvocation_of_load interpreter' hload]
    cases hentry : prepareEntry v state f inv.fullArgs with
    | error e => rw [executeLoadedFunction_of_error hentry, executeLoadedFunction_of_error hentry]
    | ok start => simp [startInvocation, hload, hentry] at h

/-- The interpreter that does nothing and returns. -/
def Interpreter.idle : Interpreter where
  run _ _ _ :=
    { gasConsumed := 0, result := .ok (.ok { changeSet := [], events := [], returnValues := [] }) }

theorem executeInvocation_idle {state : NexusStateView} {inv : Invocation} {start : Start}
    (h : startInvocation v schedule state inv = some start) :
    ∃ out, executeInvocation v schedule state .idle inv = .ok out ∧ out.status = .success := by
  obtain ⟨f, hload, hentry⟩ := startInvocation_eq_some.mp h
  rw [executeInvocation_of_load .idle hload, executeLoadedFunction_of_ok hentry]
  exact ⟨_, rfl, rfl⟩

/-- **When calls are admitted rightly.** A call runs bytecode only of a public or an entry
function if and only if it names such a function or its request does not fit what it names:
nothing about the visibility of the function stops it. -/
theorem callAdmission_iff (v : Vendor) (schedule : GasSchedule) (σ : Store)
    (request : FunctionCall) :
    CallAdmission v schedule σ request ↔
      NamesCallable v schedule σ request ∨ ¬ CallFits v schedule σ request := by
  constructor
  · -- a call that starts runs to a success under the interpreter that does nothing
    intro h
    by_contra hnot
    obtain ⟨hnames, hfits⟩ := not_or.mp hnot
    obtain ⟨start, hstart⟩ := callFits_iff.mp (not_not.mp hfits)
    obtain ⟨out, hout, hsuccess⟩ := executeInvocation_idle hstart
    exact ((h hnames).2 .idle out hout).1 hsuccess
  · rintro (hnames | hfits) hnot
    · exact absurd hnames hnot
    · -- nothing starts, so what is returned comes from before the interpreter
      have hnone : startInvocation v schedule σ.view (.call request) = none :=
        Option.eq_none_iff_forall_ne_some.mpr fun start hstart =>
          hfits (callFits_iff.mpr ⟨start, hstart⟩)
      refine ⟨executeInvocation_of_not_start hnone, fun interpreter out hout => ?_⟩
      rcases executeInvocation_cases v schedule σ.view interpreter (.call request) with
        ⟨e, he⟩ | ⟨out', hout', hne, hquiet⟩ | ⟨start, -, -, hstart, -⟩
      · rw [executeFunction, he] at hout
        cases hout
      · rw [executeFunction, hout'] at hout
        obtain rfl : out' = out := Except.ok.inj hout
        exact ⟨hne, by rw [hquiet]; rfl⟩
      · rw [hnone] at hstart
        cases hstart

end Admission

/-! ## A private function

`sampleP` is a module `0xCAFE::p` with a private function `mint(account: &signer)`. -/

def sampleP : CompiledModule where
  selfModuleHandleIdx := 0
  moduleHandles := [{ address := 0, name := 0 }]
  structHandles := []
  functionHandles := [{ module := 0, name := 1, parameters := 0, returns := 1, typeParameters := [] }]
  signatures := [[.reference .signer], []]
  identifiers := [⟨"p"⟩, ⟨"mint"⟩]
  addressIdentifiers := [sampleAddress]
  structDefs := []
  functionDefs := [{ function := 0, visibility := .priv, isEntry := false }]
  otherTables := [0, 0, 0, 0, 1, 1, 2]

def samplePBytes : Bytes :=
  [161, 28, 235, 11, 6, 0, 0, 0, 6, 1, 0, 2, 3, 2, 5, 5, 7, 4, 7, 11, 7, 8, 18, 32, 12, 50, 7,
   0, 0, 0, 1, 0, 1, 0, 1, 6, 12, 0, 1, 112, 4, 109, 105, 110, 116, 0, 0, 0, 0, 0, 0, 0, 0, 0,
   0, 0, 0, 0, 0, 0, 0, 0, 0, 0, 0, 0, 0, 0, 0, 0, 0, 0, 0, 0, 0, 202, 254, 0, 0, 0, 0, 1, 1, 2,
   0]

def callMint : FunctionCall where
  sender := otherAddress
  contract := sampleAddress
  function := "p::mint"
  typeArgs := []
  args := []
  gasLimit := 1000000

theorem private_function_is_run :
    ¬ CallAdmission (.ofTables [(samplePBytes, sampleP)] [] []) sampleSchedule
      (sampleStore "p" samplePBytes) callMint := by
  intro h
  have hnamed : (namedFunction (.ofTables [(samplePBytes, sampleP)] [] []) sampleSchedule
      (sampleStore "p" samplePBytes) callMint).map (fun d => (d.visibility, d.isEntry))
      = some (.priv, false) := by
    decide +kernel
  have hprivate : ¬ NamesCallable (.ofTables [(samplePBytes, sampleP)] [] []) sampleSchedule
      (sampleStore "p" samplePBytes) callMint := by
    rintro ⟨d, hd, hcallable⟩
    simp only [hd, Option.map_some, Option.some.injEq, Prod.mk.injEq] at hnamed
    simp [hnamed] at hcallable
  have hstarts : (startInvocation (.ofTables [(samplePBytes, sampleP)] [] []) sampleSchedule
      (sampleStore "p" samplePBytes).view (.call callMint)).isSome = true := by
    decide +kernel
  obtain ⟨start, hstart⟩ := Option.isSome_iff_exists.mp hstarts
  obtain ⟨out, hout, hsuccess⟩ := executeInvocation_idle hstart
  exact ((h hprivate).2 .idle out hout).1 hsuccess

end NexusMove
