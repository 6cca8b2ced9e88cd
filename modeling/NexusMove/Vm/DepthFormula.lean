import Mathlib.Order.Filter.AtTopBot.Basic
import NexusMove.Core.TypeTagText
import NexusMove.Lib.Capped
import NexusMove.Runtime.Signers
import NexusMove.Vm.Loader

/-!
# How deep values nest

`depth_formula_calculator.rs` and `check_depth_of_type` of the interpreter: the depth
to which the values of a generic struct nest is kept as a formula over the depths of the
type arguments, a maximum of sums, and a type is refused whose values may nest too
deep. The plain way is to look into every field, with the type arguments put in.

A struct without a field in any variant has a formula without a term, which stands for no
depth at all; the plain way does the same and calls it `⊥`.

* `DepthFormula`, `calculateDepthOfStruct`, `checkDepthOfType` — the code.
* `structDepth`, `typeDepth` — the plain way.
* `depth_formula_exact` — the formula of a struct gives its depth, for all arguments.
* `check_depth_sound` — a type that passes has values no deeper than the limit.
-/

namespace NexusMove

/-- `u64`, with `saturating_add`. -/
abbrev Depth := Capped (2 ^ 64 - 1)

def Depth.one : Depth := Capped.of _ 1

theorem Depth.le_add (d more : Depth) : d ≤ d + more :=
  le_add_of_nonneg_right (Nat.zero_le more.val)

/-- The maximum of the terms, each a type parameter and what is added to its depth, and of the
constant. -/
structure DepthFormula where
  terms : List (UInt16 × Depth)
  constant : Option Depth
deriving DecidableEq

namespace DepthFormula

/-- `DepthFormula::constant`. -/
def ofConstant (c : Depth) : DepthFormula where
  terms := []
  constant := some c

def typeParameter (t : UInt16) : DepthFormula where
  terms := [(t, 0)]
  constant := none

/-- One entry of `var_map`, which is sorted by the parameters. -/
def mergeTerm (t : UInt16) (c : Depth) : List (UInt16 × Depth) → List (UInt16 × Depth)
  | [] => [(t, c)]
  | (u, d) :: terms =>
    if t = u then (u, max c d) :: terms
    else if t < u then (t, c) :: (u, d) :: terms
    else (u, d) :: mergeTerm t c terms

def mergeTerms (acc terms : List (UInt16 × Depth)) : List (UInt16 × Depth) :=
  terms.foldl (fun acc term => mergeTerm term.1 term.2 acc) acc

def mergeConstant : Option Depth → Option Depth → Option Depth
  | acc, none => acc
  | none, constant => constant
  | some c₁, some c₂ => some (max c₁ c₂)

/-- `DepthFormula::normalize`: the greatest constant, and for every parameter the greatest summand.
-/
def normalize (formulas : List DepthFormula) : DepthFormula :=
  formulas.foldl
    (fun acc f => ⟨mergeTerms acc.terms f.terms, mergeConstant acc.constant f.constant⟩) ⟨[], none⟩

/-- `DepthFormula::scale`: everything `c` levels further down. -/
def scale (f : DepthFormula) (c : Depth) : DepthFormula where
  terms := f.terms.map fun term => (term.1, term.2 + c)
  constant := f.constant.map (· + c)

/-- The formulas of the terms; each parameter is taken out of the map. -/
def substTerms : List (UInt16 × Depth) → (UInt16 → Option DepthFormula) →
    VMResult (List DepthFormula)
  | [], _ => .ok []
  | (t, c) :: terms, map =>
    match map t with
    | none => .error (partialError StatusCode.unknownInvariantViolationError
        (some (toString t.toNat ++ " missing mapping")))
    | some u => do return u.scale c :: (← substTerms terms (Function.update map t none))

/-- `DepthFormula::subst`. The terms of what is put in are scaled by those of the formula. -/
def subst (f : DepthFormula) (map : UInt16 → Option DepthFormula) : VMResult DepthFormula := do
  let formulas ← substTerms f.terms map
  return normalize (f.constant.toList.map ofConstant ++ formulas)

def solveTerms (tparamDepths : List Depth) : List (UInt16 × Depth) → Depth → VMResult Depth
  | [], depth => .ok depth
  | (t, c) :: terms, depth =>
    match tparamDepths[t.toNat]? with
    -- the index of the source panics
    | none => .error (partialError StatusCode.unknownInvariantViolationError (some "panic"))
    | some d => solveTerms tparamDepths terms (max depth (d + c))

/-- `DepthFormula::solve`, with the constant as zero where there is none. -/
def solve (f : DepthFormula) (tparamDepths : List Depth) : VMResult Depth :=
  solveTerms tparamDepths f.terms (f.constant.getD 0)

end DepthFormula

/-! ## The calculator -/

/-- `visited_formulas`. -/
abbrev VisitedFormulas := List (StructIdentifier × DepthFormula)

def VisitedFormulas.get (visited : VisitedFormulas) (idx : StructIdentifier) :
    Option DepthFormula :=
  (visited.find? fun e => e.1 = idx).map Prod.snd

/-- The types of all fields, variant after variant. -/
def StructType.fieldTys (s : StructType) : List Ty :=
  match s.layout with
  | .single fields => fields.map Prod.snd
  | .variants variants => variants.flatMap fun variant => variant.2.map Prod.snd

section Code

mutual

/-- `calculate_depth_of_type`, given the calculation for structs. -/
def calculateDepthOfType
    (ofStruct : StructIdentifier → VisitedFormulas → VMResult (DepthFormula × VisitedFormulas)) :
    Ty → VisitedFormulas → VMResult (DepthFormula × VisitedFormulas)
  | .bool, visited | .u8, visited | .u16, visited | .u32, visited | .u64, visited
  | .u128, visited | .u256, visited | .address, visited | .signer, visited =>
    .ok (.ofConstant .one, visited)
  | .vector ty, visited | .reference ty, visited | .mutableReference ty, visited => do
    let (inner, visited) ← calculateDepthOfType ofStruct ty visited
    return (inner.scale .one, visited)
  | .tyParam idx, visited => .ok (.typeParameter idx, visited)
  -- no type arguments, so nothing is put into the formula of the struct
  | .struct idx _, visited => do
    let (formula, visited) ← ofStruct idx visited
    return (formula.scale .one, visited)
  | .structInstantiation idx tyArgs _, visited => do
    let (args, visited) ← calculateDepthOfTypes ofStruct tyArgs visited
    let (formula, visited) ← ofStruct idx visited
    let formula ← formula.subst fun t => args[t.toNat]?
    return (formula.scale .one, visited)
  | .function args results _, visited => do
    let (args, visited) ← calculateDepthOfTypes ofStruct args visited
    let (results, visited) ← calculateDepthOfTypes ofStruct results visited
    return ((DepthFormula.normalize (args ++ results)).scale .one, visited)

/-- The types from the left, each with the formulas that those before it left. -/
def calculateDepthOfTypes
    (ofStruct : StructIdentifier → VisitedFormulas → VMResult (DepthFormula × VisitedFormulas)) :
    List Ty → VisitedFormulas → VMResult (List DepthFormula × VisitedFormulas)
  | [], visited => .ok ([], visited)
  | ty :: tys, visited => do
    let (formula, visited) ← calculateDepthOfType ofStruct ty visited
    let (formulas, visited) ← calculateDepthOfTypes ofStruct tys visited
    return (formula :: formulas, visited)

end

variable (v : Vendor) (state : NexusStateView)

/-- `calculate_depth_of_struct`. The source recurses from struct to struct and fails with its own
stack if they contain each other; `levels` is how far the stack goes. -/
def calculateDepthOfStruct : Nat → StructIdentifier → VisitedFormulas →
    VMResult (DepthFormula × VisitedFormulas)
  -- the stack that a struct inside itself would need
  | 0, _, _ => .error (partialError StatusCode.unknownInvariantViolationError (some "panic"))
  | levels + 1, idx, visited =>
    match visited.get idx with
    | some formula => .ok (formula, visited)
    | none => do
      let structType ← fetchStructTy v state idx
      let (formulas, visited) ← calculateDepthOfTypes (calculateDepthOfStruct levels)
        structType.fieldTys visited
      let formula := DepthFormula.normalize formulas
      -- a fetch that came back to this struct would have entered it by now
      if (visited.get idx).isSome then
        .error (partialError StatusCode.unknownInvariantViolationError
          (some ("Depth formula for struct '" ++ idx.display
            ++ "' is already cached by the same thread")))
      else return (formula, (idx, formula) :: visited)

/-! ## The check -/

/-- `max_value_nest_depth`. -/
def maxValueNestDepth : Depth := Capped.of _ 128

/-- The macro `check_depth`. -/
def checkDepth (depth additionalDepth : Depth) : VMResult Depth :=
  if maxValueNestDepth < depth + additionalDepth then
    .error (partialError StatusCode.vmMaxValueDepthReached none)
  else .ok (depth + additionalDepth)

mutual

def checkDepthOfTypeImpl (levels : Nat) : Ty → Depth → VMResult Depth
  | .bool, depth | .u8, depth | .u16, depth | .u32, depth | .u64, depth | .u128, depth
  | .u256, depth | .address, depth | .signer, depth => checkDepth depth 0
  | .vector ty, depth | .reference ty, depth | .mutableReference ty, depth => do
    checkDepthOfTypeImpl levels ty (← checkDepth depth .one)
  | .struct idx _, depth => do
    -- the fields are not walked again: the formula is solved at no parameters
    let (formula, _) ← calculateDepthOfStruct v state levels idx []
    checkDepth depth (← formula.solve [])
  | .structInstantiation idx tyArgs _, depth => do
    -- the arguments count from the depth of the struct and not from one below it
    let tyArgDepths ← checkDepthOfTyArgs levels tyArgs depth
    let (formula, _) ← calculateDepthOfStruct v state levels idx []
    checkDepth depth (← formula.solve tyArgDepths)
  | .function args results _, depth => do
    let argsDepth ← checkDepthOfSignature levels args depth depth
    checkDepthOfSignature levels results depth argsDepth
  | .tyParam _, _ => .error (partialError StatusCode.unknownInvariantViolationError
      (some "Type parameter should be fully resolved"))

def checkDepthOfTyArgs (levels : Nat) : List Ty → Depth → VMResult (List Depth)
  | [], _ => .ok []
  | ty :: tys, depth => do
    let tyDepth ← checkDepthOfTypeImpl levels ty (← checkDepth depth 0)
    return tyDepth :: (← checkDepthOfTyArgs levels tys depth)

/-- The loop over the arguments and results of a function type. -/
def checkDepthOfSignature (levels : Nat) : List Ty → Depth → Depth → VMResult Depth
  | [], _, tyMaxDepth => .ok tyMaxDepth
  | ty :: tys, depth, tyMaxDepth => do
    let tyDepth ← checkDepthOfTypeImpl levels ty (← checkDepth depth .one)
    checkDepthOfSignature levels tys depth (max tyMaxDepth tyDepth)

end

/-- `check_depth_of_type`. -/
def checkDepthOfType (levels : Nat) (ty : Ty) : VMResult Unit := do
  let _ ← checkDepthOfTypeImpl v state levels ty .one
  return ()

end Code

/-! ## The plain way -/

/-- What the type arguments are deep; no depth at all is `⊥`. -/
abbrev DepthEnv := UInt16 → WithBot Depth

/-- The depth of what holds several things, and `⊥` for nothing at all. -/
def deepest (ds : List (WithBot Depth)) : WithBot Depth := ds.foldr max ⊥

section Plain

mutual

def typeDepth (ofStruct : StructIdentifier → DepthEnv → VMResult (WithBot Depth)) (ρ : DepthEnv) :
    Ty → VMResult (WithBot Depth)
  | .bool | .u8 | .u16 | .u32 | .u64 | .u128 | .u256 | .address | .signer => .ok Depth.one
  | .vector ty | .reference ty | .mutableReference ty => do
    return (← typeDepth ofStruct ρ ty) + Depth.one
  | .tyParam idx => .ok (ρ idx)
  -- a struct that is not generic has no parameter to put anything in for
  | .struct idx _ => do return (← ofStruct idx ρ) + Depth.one
  | .structInstantiation idx tyArgs _ => do
    let args ← typeDepths ofStruct ρ tyArgs
    return (← ofStruct idx fun t => args.getD t.toNat ⊥) + Depth.one
  | .function args results _ => do
    let args ← typeDepths ofStruct ρ args
    let results ← typeDepths ofStruct ρ results
    return deepest (args ++ results) + Depth.one

def typeDepths (ofStruct : StructIdentifier → DepthEnv → VMResult (WithBot Depth)) (ρ : DepthEnv) :
    List Ty → VMResult (List (WithBot Depth))
  | [] => .ok []
  | ty :: tys => do return (← typeDepth ofStruct ρ ty) :: (← typeDepths ofStruct ρ tys)

end

variable (v : Vendor) (state : NexusStateView)

/-- The deepest field, where structs may contain each other `levels` times. -/
def structDepth : Nat → StructIdentifier → DepthEnv → VMResult (WithBot Depth)
  | 0, _, _ => .error (partialError StatusCode.unknownInvariantViolationError (some "panic"))
  | levels + 1, idx, ρ => do
    let structType ← fetchStructTy v state idx
    return deepest (← typeDepths (structDepth levels) ρ structType.fieldTys)

end Plain

/-! ## What formulas say -/

theorem deepest_append (ds es : List (WithBot Depth)) :
    deepest (ds ++ es) = max (deepest ds) (deepest es) := by
  induction ds with
  | nil => exact (bot_sup_eq _).symm
  | cons d ds ih =>
    show max d (deepest (ds ++ es)) = max (max d (deepest ds)) (deepest es)
    rw [ih, max_assoc]

theorem deepest_map_add {α : Type} (f : α → WithBot Depth) (c : WithBot Depth) (l : List α) :
    deepest (l.map fun a => f a + c) = deepest (l.map f) + c := by
  induction l with
  | nil => exact (WithBot.bot_add c).symm
  | cons a l ih =>
    show max (f a + c) (deepest (l.map fun a => f a + c)) = max (f a) (deepest (l.map f)) + c
    rw [ih, max_add_add_right]

namespace DepthFormula

variable (ρ : DepthEnv)

/-- The depth that a formula stands for. -/
def eval (f : DepthFormula) : WithBot Depth :=
  max (f.constant.elim ⊥ fun c => c) (deepest (f.terms.map fun term => ρ term.1 + term.2))

variable {ρ}

theorem eval_ofConstant (c : Depth) : (ofConstant c).eval ρ = c := sup_bot_eq _

theorem eval_typeParameter (t : UInt16) : (typeParameter t).eval ρ = ρ t := by
  show max ⊥ (max (ρ t + ((0 : Depth) : WithBot Depth)) ⊥) = ρ t
  rw [WithBot.coe_zero, add_zero, sup_bot_eq, bot_sup_eq]

/-- Scaling is adding, also to `⊥`. -/
theorem eval_scale (f : DepthFormula) (c : Depth) : (f.scale c).eval ρ = f.eval ρ + c := by
  have hterms : (f.scale c).terms.map (fun term => ρ term.1 + (term.2 : WithBot Depth))
      = f.terms.map fun term => ρ term.1 + (term.2 : WithBot Depth) + (c : WithBot Depth) := by
    simp only [scale, List.map_map, Function.comp_def, WithBot.coe_add, add_assoc]
  rw [eval, eval, hterms, deepest_map_add, ← max_add_add_right]
  cases hconstant : f.constant with
  | none => simp [scale, hconstant]
  | some d => simp [scale, hconstant]

/-! ### Normal forms -/

/-- The terms of a formula without its constant. -/
abbrev evalTerms (ρ : DepthEnv) (terms : List (UInt16 × Depth)) : WithBot Depth :=
  deepest (terms.map fun term => ρ term.1 + term.2)

theorem evalTerms_cons (t : UInt16) (c : Depth) (terms : List (UInt16 × Depth)) :
    evalTerms ρ ((t, c) :: terms) = max (ρ t + c) (evalTerms ρ terms) := rfl

/-- **Merging a term.** The sorted insertion keeps the greatest, wherever the term ends up. -/
theorem evalTerms_mergeTerm (t : UInt16) (c : Depth) (terms : List (UInt16 × Depth)) :
    evalTerms ρ (mergeTerm t c terms) = max (ρ t + c) (evalTerms ρ terms) := by
  induction terms with
  | nil => rfl
  | cons term terms ih =>
    obtain ⟨u, d⟩ := term
    unfold mergeTerm
    split
    · -- the same parameter: the greater of the two summands stays
      rename_i heq
      rw [evalTerms_cons, evalTerms_cons, heq, ← max_assoc, WithBot.coe_max, max_add_add_left]
    · -- `rfl` where the term goes in front of a greater parameter
      split
      · rfl
      · rw [evalTerms_cons, evalTerms_cons, ih, max_left_comm]

theorem evalTerms_mergeTerms (acc terms : List (UInt16 × Depth)) :
    evalTerms ρ (mergeTerms acc terms) = max (evalTerms ρ acc) (evalTerms ρ terms) := by
  induction terms generalizing acc with
  | nil => exact (sup_bot_eq _).symm
  | cons term terms ih =>
    show evalTerms ρ (mergeTerms (mergeTerm term.1 term.2 acc) terms) = _
    rw [ih, evalTerms_mergeTerm, evalTerms_cons, max_left_comm, max_assoc]

theorem mergeConstant_elim (acc c : Option Depth) :
    (mergeConstant acc c).elim ⊥ (fun d => (d : WithBot Depth))
      = max (acc.elim ⊥ fun d => (d : WithBot Depth)) (c.elim ⊥ fun d => (d : WithBot Depth)) := by
  cases acc <;> cases c <;> simp [mergeConstant]

/-- **Normalizing.** The normal form is the deepest of the formulas. -/
theorem eval_normalize (fs : List DepthFormula) :
    (normalize fs).eval ρ = deepest (fs.map fun f => f.eval ρ) := by
  -- the fold, from any formula it begins with
  have hfold : ∀ acc : DepthFormula, (fs.foldl (fun acc f =>
      ⟨mergeTerms acc.terms f.terms, mergeConstant acc.constant f.constant⟩) acc).eval ρ
      = max (acc.eval ρ) (deepest (fs.map fun f => f.eval ρ)) := by
    induction fs with
    | nil => exact fun acc => (sup_bot_eq _).symm
    | cons f fs ih =>
      intro acc
      rw [List.foldl_cons, ih]
      have hstep : eval ρ ⟨mergeTerms acc.terms f.terms, mergeConstant acc.constant f.constant⟩
          = max (acc.eval ρ) (f.eval ρ) := by
        show max _ (evalTerms ρ (mergeTerms acc.terms f.terms)) = _
        rw [mergeConstant_elim, evalTerms_mergeTerms, max_max_max_comm]
        rfl
      rw [hstep, max_assoc]
      rfl
  exact (hfold ⟨[], none⟩).trans (bot_sup_eq _)

/-! ### Substitution -/

/-- What the formulas of a map stand for. -/
def mapEnv (ρ : DepthEnv) (map : UInt16 → Option DepthFormula) : DepthEnv :=
  fun t => (map t).elim ⊥ fun f => f.eval ρ

/-- **Putting in.** The terms of a formula, each at the depth of what was put in for its parameter.
-/
theorem evalTerms_of_substTerms {terms : List (UInt16 × Depth)}
    {map full : UInt16 → Option DepthFormula} {fs : List DepthFormula}
    (hmap : ∀ t f, map t = some f → full t = some f) (h : substTerms terms map = .ok fs) :
    deepest (fs.map fun f => f.eval ρ) = evalTerms (mapEnv ρ full) terms := by
  -- a parameter that was taken out of the map does not come again
  induction terms generalizing map fs with
  | nil =>
    obtain rfl := Except.ok.inj h
    rfl
  | cons term terms ih =>
    obtain ⟨t, c⟩ := term
    simp only [substTerms] at h
    split at h
    · cases h
    · rename_i u hu
      obtain ⟨us, hus, h⟩ := Except.bind_eq_ok.mp h
      obtain rfl := Except.pure_eq_ok.mp h
      have hleft : ∀ t' f, Function.update map t none t' = some f → full t' = some f := by
        -- the map without `t` still agrees with the full one wherever it has something
        intro t' f hf
        by_cases heq : t' = t
        · rw [heq, Function.update_self] at hf
          cases hf
        · rw [Function.update_of_ne heq] at hf
          exact hmap t' f hf
      -- what `t` stands for in the full map is the formula found now
      have henv : mapEnv ρ full t = u.eval ρ := by
        rw [mapEnv, hmap t u hu]
        rfl
      rw [evalTerms_cons, henv, ← ih hleft hus, ← eval_scale]
      rfl

/-- **Substituting.** The formula at the depths that the formulas of the map stand for. -/
theorem eval_subst {f g : DepthFormula} {map : UInt16 → Option DepthFormula}
    (h : f.subst map = .ok g) : g.eval ρ = f.eval (mapEnv ρ map) := by
  obtain ⟨fs, hfs, h⟩ := Except.bind_eq_ok.mp h
  obtain rfl := Except.pure_eq_ok.mp h
  rw [eval_normalize, List.map_append, deepest_append,
    evalTerms_of_substTerms (fun _ _ hf => hf) hfs, eval]
  congr 1
  cases f.constant with
  | none => rfl
  | some c => exact (sup_bot_eq _).trans (eval_ofConstant c)

/-! ### Solving -/

/-- Depths of type arguments, as far as there are some. -/
def listEnv (ds : List (WithBot Depth)) : DepthEnv := fun t => ds.getD t.toNat ⊥

/-- The depths that the code counts in. -/
def someDepths (ds : List Depth) : List (WithBot Depth) := ds.map WithBot.some

/-- The fold over the terms, from any depth it begins with. -/
theorem solveTerms_eq_ok {ds : List Depth} {terms : List (UInt16 × Depth)} {d d' : Depth}
    (h : solveTerms ds terms d = .ok d') :
    (d' : WithBot Depth) = max (d : WithBot Depth) (evalTerms (listEnv (someDepths ds)) terms) := by
  induction terms generalizing d with
  | nil =>
    obtain rfl := Except.ok.inj h
    exact (sup_bot_eq _).symm
  | cons term terms ih =>
    obtain ⟨t, c⟩ := term
    simp only [solveTerms] at h
    split at h
    · cases h
    · rename_i e he
      -- the depth at the index is that of the environment
      have henv : listEnv (someDepths ds) t = e := by
        simp [listEnv, someDepths, he]
      rw [ih h, evalTerms_cons, henv, ← WithBot.coe_add, WithBot.coe_max, max_assoc]

/-- **Solving.** The depth that the formula stands for, and zero where it stands for none. -/
theorem solve_eq_ok {f : DepthFormula} {ds : List Depth} {d : Depth} (h : f.solve ds = .ok d) :
    (d : WithBot Depth)
      = max ((0 : Depth) : WithBot Depth) (f.eval (listEnv (someDepths ds))) := by
  rw [solveTerms_eq_ok h, eval, ← max_assoc]
  congr 1
  cases f.constant with
  | none => exact (sup_bot_eq _).symm
  | some c =>
    have hzero : (0 : Depth) ≤ c := by
      rw [Capped.le_iff, Capped.val_zero]
      omega
    exact (max_eq_right (WithBot.coe_le_coe.mpr hzero)).symm

/-- A formula that is solved without arguments is a constant. -/
theorem eval_of_solve_nil {ρ : DepthEnv} {f : DepthFormula} {d : Depth} (h : f.solve [] = .ok d)
    (ρ' : DepthEnv) : f.eval ρ = f.eval ρ' := by
  unfold eval
  unfold solve at h
  cases hterms : f.terms with
  | nil => rfl
  | cons term terms =>
    rw [hterms] at h
    cases h

/-- Deeper arguments make a formula deeper. -/
theorem eval_mono {ρ ρ' : DepthEnv} (h : ∀ t, ρ t ≤ ρ' t) (f : DepthFormula) :
    f.eval ρ ≤ f.eval ρ' := by
  have hterms : ∀ terms, evalTerms ρ terms ≤ evalTerms ρ' terms := by
    intro terms
    induction terms with
    | nil => exact le_rfl
    | cons term terms ih => exact max_le_max (add_le_add_left (h term.1) _) ih
  exact max_le_max le_rfl (hterms f.terms)

end DepthFormula

/-! ## The calculation is exact -/

section Exact

open Filter DepthFormula

variable (v : Vendor) (state : NexusStateView)

/-- The formula gives the depth of the struct, whatever its type arguments are deep. -/
def FormulaOfStruct (idx : StructIdentifier) (f : DepthFormula) : Prop :=
  ∀ᶠ levels in atTop, ∀ ρ, structDepth v state levels idx ρ = .ok (f.eval ρ)

def FormulaOfType (ty : Ty) (f : DepthFormula) : Prop :=
  ∀ᶠ levels in atTop, ∀ ρ, typeDepth (structDepth v state levels) ρ ty = .ok (f.eval ρ)

def FormulasOfTypes (tys : List Ty) (fs : List DepthFormula) : Prop :=
  ∀ᶠ levels in atTop, ∀ ρ,
    typeDepths (structDepth v state levels) ρ tys = .ok (fs.map fun f => f.eval ρ)

/-- Every formula that was calculated is that of its struct. -/
def VisitedFormulas.Exact (visited : VisitedFormulas) : Prop :=
  ∀ idx f, visited.get idx = some f → FormulaOfStruct v state idx f

/-- A calculation for structs that keeps to the formulas of structs. -/
def CalculatesExactly
    (ofStruct : StructIdentifier → VisitedFormulas → VMResult (DepthFormula × VisitedFormulas)) :
    Prop :=
  ∀ idx visited f visited', ofStruct idx visited = .ok (f, visited') → visited.Exact v state →
    FormulaOfStruct v state idx f ∧ visited'.Exact v state

variable {v state}

/-- A type with nothing inside. -/
theorem formulaOfType_of_primitive {ty : Ty}
    (h : ∀ levels ρ, typeDepth (structDepth v state levels) ρ ty = .ok Depth.one) :
    FormulaOfType v state ty (.ofConstant .one) :=
  Eventually.of_forall fun levels ρ => by rw [h, eval_ofConstant]

/-- One level around a type. -/
theorem FormulaOfType.wrap {ty outer : Ty} {f : DepthFormula} (h : FormulaOfType v state ty f)
    (hwrap : ∀ levels ρ, typeDepth (structDepth v state levels) ρ outer
      = typeDepth (structDepth v state levels) ρ ty >>= fun d => .ok (d + Depth.one)) :
    FormulaOfType v state outer (f.scale .one) := by
  filter_upwards [h] with levels h ρ
  rw [hwrap, h, Except.ok_bind, eval_scale]

/-- The depths of type arguments are what their formulas stand for. -/
theorem listEnv_eval (ρ : DepthEnv) (fs : List DepthFormula) :
    listEnv (fs.map fun f => f.eval ρ) = mapEnv ρ fun t => fs[t.toNat]? := by
  funext t
  unfold listEnv mapEnv
  cases ht : fs[t.toNat]? with
  | none => simp [ht]
  | some f => simp [ht]

section Step

variable
  {ofStruct : StructIdentifier → VisitedFormulas → VMResult (DepthFormula × VisitedFormulas)}

mutual

/-- One case for each kind of type. -/
theorem formulaOfType_of_calculate (hstruct : CalculatesExactly v state ofStruct) :
    ∀ (ty : Ty) (visited : VisitedFormulas) (f : DepthFormula) (visited' : VisitedFormulas),
      calculateDepthOfType ofStruct ty visited = .ok (f, visited') → visited.Exact v state →
      FormulaOfType v state ty f ∧ visited'.Exact v state
  | .bool, _, _, _, h, hvisited | .u8, _, _, _, h, hvisited | .u16, _, _, _, h, hvisited
  | .u32, _, _, _, h, hvisited | .u64, _, _, _, h, hvisited | .u128, _, _, _, h, hvisited
  | .u256, _, _, _, h, hvisited | .address, _, _, _, h, hvisited
  | .signer, _, _, _, h, hvisited => by
    -- the primitive types, all alike
    cases h
    exact ⟨formulaOfType_of_primitive fun _ _ => rfl, hvisited⟩
  | .tyParam idx, _, _, _, h, hvisited => by
    cases h
    refine ⟨Eventually.of_forall fun levels ρ => ?_, hvisited⟩
    rw [eval_typeParameter]
    rfl
  | .vector ty, visited, _, _, h, hvisited
  | .reference ty, visited, _, _, h, hvisited
  | .mutableReference ty, visited, _, _, h, hvisited => by
    obtain ⟨⟨inner, visited₁⟩, hinner, h⟩ := Except.bind_eq_ok.mp h
    cases h
    have hty := formulaOfType_of_calculate hstruct ty visited inner _ hinner hvisited
    exact ⟨hty.1.wrap fun _ _ => rfl, hty.2⟩
  | .struct idx _, visited, _, _, h, hvisited => by
    obtain ⟨⟨formula, visited₁⟩, hformula, h⟩ := Except.bind_eq_ok.mp h
    cases h
    have hidx := hstruct idx visited formula _ hformula hvisited
    refine ⟨?_, hidx.2⟩
    -- the formula of the struct holds at every environment, here at the one of the caller
    filter_upwards [hidx.1] with levels hlevels ρ
    show structDepth v state levels idx ρ >>= _ = _
    rw [hlevels, Except.ok_bind, eval_scale]
    rfl
  | .structInstantiation idx tyArgs _, visited, _, _, h, hvisited => by
    obtain ⟨⟨args, visited₁⟩, hargs, h⟩ := Except.bind_eq_ok.mp h
    obtain ⟨⟨formula, visited₂⟩, hformula, h⟩ := Except.bind_eq_ok.mp h
    obtain ⟨formula', hsubst, h⟩ := Except.bind_eq_ok.mp h
    cases h
    -- the arguments first, since the calculator visits them before the struct
    have htys := formulasOfTypes_of_calculate hstruct tyArgs visited args visited₁ hargs hvisited
    have hidx := hstruct idx visited₁ formula _ hformula htys.2
    refine ⟨?_, hidx.2⟩
    filter_upwards [htys.1, hidx.1] with levels hdepths hlevels ρ
    show typeDepths (structDepth v state levels) ρ tyArgs >>= _ = _
    rw [hdepths, Except.ok_bind]
    -- the struct at the environment that its arguments make
    show structDepth v state levels idx (listEnv (args.map fun f => f.eval ρ)) >>= _ = _
    rw [hlevels, Except.ok_bind, eval_scale, eval_subst hsubst,
      listEnv_eval]
    rfl
  | .function params results _, visited, _, _, h, hvisited => by
    obtain ⟨⟨args, visited₁⟩, hargs, h⟩ := Except.bind_eq_ok.mp h
    obtain ⟨⟨rets, visited₂⟩, hrets, h⟩ := Except.bind_eq_ok.mp h
    cases h
    have hparams := formulasOfTypes_of_calculate hstruct params visited args visited₁ hargs hvisited
    have hresults :=
      formulasOfTypes_of_calculate hstruct results visited₁ rets _ hrets hparams.2
    refine ⟨?_, hresults.2⟩
    -- parameters and results are one list for the normal form
    filter_upwards [hparams.1, hresults.1] with levels hdepths hdepths' ρ
    show typeDepths (structDepth v state levels) ρ params >>= _ = _
    rw [hdepths, Except.ok_bind]
    show typeDepths (structDepth v state levels) ρ results >>= _ = _
    rw [hdepths', Except.ok_bind, eval_scale, eval_normalize,
      List.map_append]
    rfl

/-- The types of a list, from the left, with the formulas handed on. -/
theorem formulasOfTypes_of_calculate (hstruct : CalculatesExactly v state ofStruct) :
    ∀ (tys : List Ty) (visited : VisitedFormulas) (fs : List DepthFormula)
      (visited' : VisitedFormulas),
      calculateDepthOfTypes ofStruct tys visited = .ok (fs, visited') → visited.Exact v state →
      FormulasOfTypes v state tys fs ∧ visited'.Exact v state
  | [], _, _, _, h, hvisited => by
    cases h
    exact ⟨Eventually.of_forall fun _ _ => rfl, hvisited⟩
  | ty :: tys, visited, _, _, h, hvisited => by
    obtain ⟨⟨f, visited₁⟩, hf, h⟩ := Except.bind_eq_ok.mp h
    obtain ⟨⟨fs, visited₂⟩, hfs, h⟩ := Except.bind_eq_ok.mp h
    cases h
    have hty := formulaOfType_of_calculate hstruct ty visited f visited₁ hf hvisited
    have htys := formulasOfTypes_of_calculate hstruct tys visited₁ fs _ hfs hty.2
    refine ⟨?_, htys.2⟩
    filter_upwards [hty.1, htys.1] with levels hdepth hdepths ρ
    show typeDepth (structDepth v state levels) ρ ty >>= _ = _
    rw [hdepth, Except.ok_bind, hdepths]
    rfl

end

end Step

/-- A formula is added for a struct that may be there already; the first one found counts. -/
theorem VisitedFormulas.Exact.cons {visited : VisitedFormulas} {idx : StructIdentifier}
    {f : DepthFormula} (hvisited : visited.Exact v state) (hidx : FormulaOfStruct v state idx f) :
    VisitedFormulas.Exact v state ((idx, f) :: visited) := by
  intro idx' f' hget
  unfold VisitedFormulas.get at hget
  -- the struct of the new formula, or another one
  by_cases heq : idx = idx'
  · rw [List.find?_cons_of_pos (by simpa using heq)] at hget
    cases hget
    exact heq ▸ hidx
  · rw [List.find?_cons_of_neg (by simpa using heq)] at hget
    exact hvisited idx' f' hget

/-- The formula of a struct is that of its fields. -/
theorem FormulasOfTypes.toStruct {idx : StructIdentifier} {structType : StructType}
    {fs : List DepthFormula} (hfetch : fetchStructTy v state idx = .ok structType)
    (hfields : FormulasOfTypes v state structType.fieldTys fs) :
    FormulaOfStruct v state idx (normalize fs) := by
  obtain ⟨N, hfields⟩ := eventually_atTop.mp hfields
  refine eventually_atTop.mpr ⟨N + 1, fun levels hlevels ρ => ?_⟩
  obtain ⟨n, rfl⟩ : ∃ n, levels = n + 1 := ⟨levels - 1, by omega⟩
  unfold structDepth
  rw [hfetch, Except.ok_bind, hfields n (by omega), Except.ok_bind, eval_normalize]
  rfl

/-- **The step of the calculator**, by induction on how far its stack goes. -/
theorem calculatesExactly (levels : Nat) :
    CalculatesExactly v state (calculateDepthOfStruct v state levels) := by
  induction levels with
  | zero => exact fun _ _ _ _ h _ => by cases h
  | succ levels ih =>
    intro idx visited f visited' h hvisited
    unfold calculateDepthOfStruct at h
    -- the struct was calculated before: its formula is exact by the invariant
    split at h
    · rename_i hget
      cases h
      exact ⟨hvisited idx f hget, hvisited⟩
    · -- its fields, with a stack one level shorter
      obtain ⟨structType, hfetch, h⟩ := Except.bind_eq_ok.mp h
      obtain ⟨⟨fs, visited₁⟩, hfs, h⟩ := Except.bind_eq_ok.mp h
      have hfields := formulasOfTypes_of_calculate ih _ _ _ _ hfs hvisited
      have hidx := hfields.1.toStruct hfetch
      simp only [] at h
      -- the error of a struct that is there after all, which ends the calculation
      split at h
      · cases h
      · cases h
        exact ⟨hidx, hfields.2.cons hidx⟩

/-- **Depth formulas.** The formula that is calculated for a struct gives, for all depths of the
type arguments, the depth that is found by looking into every field with the type arguments put
in: neither the formulas kept on the way nor the substitution of formulas for type parameters
can be seen in it. -/
theorem depth_formula_exact {levels : Nat} {idx : StructIdentifier} {f : DepthFormula}
    {visited : VisitedFormulas}
    (h : calculateDepthOfStruct v state levels idx [] = .ok (f, visited)) :
    ∃ enough, ∀ levels ≥ enough, ∀ ρ, structDepth v state levels idx ρ = .ok (f.eval ρ) :=
  eventually_atTop.mp
    (calculatesExactly levels idx [] f visited h fun _ _ hget => by cases hget).1

end Exact

/-! ## A type that passes -/

section Check

open Filter DepthFormula

variable (v : Vendor) (state : NexusStateView)

/-- The type has values of this depth. -/
def DepthOfType (ty : Ty) (d : WithBot Depth) : Prop :=
  ∀ᶠ levels in atTop, ∀ ρ, typeDepth (structDepth v state levels) ρ ty = .ok d

/-- How deep the types of a list are, for every deep enough expansion. -/
def DepthsOfTypes (tys : List Ty) (ds : List (WithBot Depth)) : Prop :=
  ∀ᶠ levels in atTop, ∀ ρ, typeDepths (structDepth v state levels) ρ tys = .ok ds

/-- A node at `depth` with this depth below it, itself included, ends at `deepestNode`. -/
def EndsAt (d : WithBot Depth) (depth deepestNode : Depth) : Prop :=
  d + depth ≤ deepestNode + Depth.one

/-- Depths as the code counts them are at least the real ones. -/
abbrev NotAbove (ds : List (WithBot Depth)) (rs : List Depth) : Prop :=
  List.Forall₂ (fun (d : WithBot Depth) (r : Depth) => d ≤ r) ds rs

variable {v state}

/-- What a check that passes leaves: the sum, which is within the limit. -/
theorem checkDepth_eq_ok {depth more r : Depth} (h : checkDepth depth more = .ok r) :
    r = depth + more ∧ r ≤ maxValueNestDepth := by
  unfold checkDepth at h
  split at h
  · cases h
  · rename_i hle
    cases h
    exact ⟨rfl, not_lt.mp hle⟩

namespace EndsAt

theorem mono {d : WithBot Depth} {depth r r' : Depth} (h : EndsAt d depth r) (hr : r ≤ r') :
    EndsAt d depth r' :=
  le_trans h (add_le_add_left (WithBot.coe_le_coe.mpr hr) _)

theorem both {d e : WithBot Depth} {depth r : Depth} (hd : EndsAt d depth r)
    (he : EndsAt e depth r) : EndsAt (max d e) depth r := by
  unfold EndsAt
  rw [← max_add_add_right]
  exact max_le hd he

/-- What lies one level further down. -/
theorem wrap {d : WithBot Depth} {depth r : Depth} (h : EndsAt d (depth + .one) r) :
    EndsAt (d + Depth.one) depth r := by
  unfold EndsAt at h ⊢
  rw [add_assoc, add_comm (Depth.one : WithBot Depth), ← WithBot.coe_add]
  exact h

/-- Every node counts, so no value ends before its own depth. -/
theorem depth_le {d : WithBot Depth} {depth r : Depth} (h : EndsAt d depth r)
    (hdepth : Depth.one ≤ depth) (hr : r ≤ maxValueNestDepth) : d ≤ r := by
  cases d with
  | bot => exact bot_le
  | coe d =>
    have hsum : d + Depth.one ≤ r + Depth.one :=
      le_trans (add_le_add_right hdepth d) (WithBot.coe_le_coe.mp h)
    have hroom : r.val + Depth.one.val < 2 ^ 64 - 1 :=
      lt_of_le_of_lt (Nat.add_le_add_right (Capped.le_iff.mp hr) _) (by decide)
    exact WithBot.coe_le_coe.mpr (Capped.le_of_add_le_add hroom hsum)

end EndsAt

/-- Deeper arguments, deeper parameters. -/
theorem listEnv_mono {ds : List (WithBot Depth)} {rs : List Depth}
    (h : NotAbove ds rs) (t : UInt16) :
    listEnv ds t ≤ listEnv (someDepths rs) t := by
  unfold listEnv someDepths
  generalize t.toNat = i
  induction h generalizing i with
  | nil => exact le_rfl
  | cons hd _ ih =>
    cases i with
    | zero => exact hd
    | succ i => exact ih i

/-- A struct with type arguments that are not as deep as counted. -/
theorem endsAt_struct {f : DepthFormula} {ds : List (WithBot Depth)}
    {rs : List Depth} {solved depth r : Depth}
    (hds : NotAbove ds rs)
    (hsolve : f.solve rs = .ok solved) (hcheck : checkDepth depth solved = .ok r) :
    EndsAt (f.eval (listEnv ds) + Depth.one) depth r := by
  -- the formula at the counted depths is at most what was solved
  have hsolved : f.eval (listEnv ds) ≤ solved := by
    rw [solve_eq_ok hsolve]
    exact le_trans (eval_mono (listEnv_mono hds) f) (le_max_right _ _)
  obtain ⟨rfl, _⟩ := checkDepth_eq_ok hcheck
  unfold EndsAt
  rw [add_right_comm, WithBot.coe_add, add_comm (depth : WithBot Depth)]
  exact add_le_add_left (add_le_add_left hsolved _) _

section Step

variable {levels : Nat}

theorem formulaOfStruct_of_calculate {idx : StructIdentifier} {f : DepthFormula}
    {visited : VisitedFormulas}
    (h : calculateDepthOfStruct v state levels idx [] = .ok (f, visited)) :
    FormulaOfStruct v state idx f :=
  (calculatesExactly levels idx [] f visited h fun _ _ hget => by cases hget).1

mutual

/-- One case for each kind of type. -/
theorem checkDepthOfTypeImpl_eq_ok : ∀ (ty : Ty) (depth r : Depth),
    checkDepthOfTypeImpl v state levels ty depth = .ok r →
    Depth.one ≤ depth → depth ≤ maxValueNestDepth →
    ∃ d, DepthOfType v state ty d ∧ EndsAt d depth r ∧ r ≤ maxValueNestDepth
  | .bool, depth, r, h, _, _ | .u8, depth, r, h, _, _ | .u16, depth, r, h, _, _
  | .u32, depth, r, h, _, _ | .u64, depth, r, h, _, _ | .u128, depth, r, h, _, _
  | .u256, depth, r, h, _, _ | .address, depth, r, h, _, _ | .signer, depth, r, h, _, _ => by
    obtain ⟨rfl, hmax⟩ := checkDepth_eq_ok h
    refine ⟨Depth.one, Eventually.of_forall fun _ _ => rfl, ?_, hmax⟩
    unfold EndsAt
    -- a primitive adds nothing to the depth it is at
    rw [add_zero, add_comm]
  -- an open type never passes
  | .tyParam _, _, _, h, _, _ => by cases h
  | .vector ty, depth, r, h, hdepth, _ | .reference ty, depth, r, h, hdepth, _
  | .mutableReference ty, depth, r, h, hdepth, _ => by
    obtain ⟨below, hbelow, h⟩ := Except.bind_eq_ok.mp h
    obtain ⟨rfl, hmax⟩ := checkDepth_eq_ok hbelow
    -- what is inside begins one level further down
    obtain ⟨d, hd, hends, hr⟩ := checkDepthOfTypeImpl_eq_ok ty _ r h
      (le_trans hdepth (Depth.le_add depth .one)) hmax
    refine ⟨d + Depth.one, ?_, hends.wrap, hr⟩
    filter_upwards [hd] with n hd ρ
    show typeDepth (structDepth v state n) ρ ty >>= _ = _
    rw [hd]
    rfl
  | .struct idx _, depth, r, h, _, _ => by
    obtain ⟨⟨f, visited⟩, hf, h⟩ := Except.bind_eq_ok.mp h
    obtain ⟨solved, hsolve, h⟩ := Except.bind_eq_ok.mp h
    -- no arguments: the formula has no terms, or the solving would have failed
    refine ⟨f.eval (listEnv []) + Depth.one, ?_, endsAt_struct .nil hsolve h,
      (checkDepth_eq_ok h).2⟩
    filter_upwards [formulaOfStruct_of_calculate hf] with n hf ρ
    show structDepth v state n idx ρ >>= _ = _
    rw [hf, eval_of_solve_nil hsolve (listEnv [])]
    rfl
  | .structInstantiation idx tyArgs _, depth, r, h, hdepth, hmax => by
    obtain ⟨rs, hrs, h⟩ := Except.bind_eq_ok.mp h
    obtain ⟨⟨f, visited⟩, hf, h⟩ := Except.bind_eq_ok.mp h
    obtain ⟨solved, hsolve, h⟩ := Except.bind_eq_ok.mp h
    obtain ⟨ds, hds, hle⟩ := checkDepthOfTyArgs_eq_ok tyArgs depth rs hrs hdepth hmax
    refine ⟨f.eval (listEnv ds) + Depth.one, ?_, endsAt_struct hle hsolve h,
      (checkDepth_eq_ok h).2⟩
    filter_upwards [hds, formulaOfStruct_of_calculate hf] with n hds hf ρ
    show typeDepths (structDepth v state n) ρ tyArgs >>= _ = _
    rw [hds, Except.ok_bind]
    show structDepth v state n idx (listEnv ds) >>= _ = _
    rw [hf]
    rfl
  | .function args results _, depth, r, h, hdepth, hmax => by
    obtain ⟨argsDepth, hargs, h⟩ := Except.bind_eq_ok.mp h
    -- the results begin with what the parameters reached as the greatest so far
    obtain ⟨ds, hds, hends, _, hargsMax⟩ :=
      checkDepthOfSignature_eq_ok args depth depth argsDepth hargs hdepth hmax
    obtain ⟨es, hes, hends', hle, hr⟩ :=
      checkDepthOfSignature_eq_ok results depth argsDepth r h hdepth hargsMax
    refine ⟨deepest (ds ++ es) + Depth.one, ?_, ?_, hr⟩
    · filter_upwards [hds, hes] with n hds hes ρ
      show typeDepths (structDepth v state n) ρ args >>= _ = _
      rw [hds, Except.ok_bind]
      show typeDepths (structDepth v state n) ρ results >>= _ = _
      rw [hes]
      rfl
    · -- the deeper of the two lists ends at the greater of their depths
      rw [deepest_append, ← max_add_add_right]
      exact (hends.mono hle).both hends'

/-- The type arguments of a struct, each measured from the depth of the struct. -/
theorem checkDepthOfTyArgs_eq_ok : ∀ (tys : List Ty) (depth : Depth) (rs : List Depth),
    checkDepthOfTyArgs v state levels tys depth = .ok rs →
    Depth.one ≤ depth → depth ≤ maxValueNestDepth →
    ∃ ds, DepthsOfTypes v state tys ds ∧ NotAbove ds rs
  | [], _, _, h, _, _ => by
    cases h
    exact ⟨[], Eventually.of_forall fun _ _ => rfl, .nil⟩
  | ty :: tys, depth, rs, h, hdepth, hmax => by
    obtain ⟨same, hsame, h⟩ := Except.bind_eq_ok.mp h
    -- `checkDepth` with zero only asks whether the depth so far is within the limit
    obtain ⟨rfl, _⟩ := checkDepth_eq_ok hsame
    obtain ⟨r, hr, h⟩ := Except.bind_eq_ok.mp h
    obtain ⟨rs', hrs, h⟩ := Except.bind_eq_ok.mp h
    cases h
    rw [add_zero] at hr
    obtain ⟨d, hd, hends, hrmax⟩ := checkDepthOfTypeImpl_eq_ok ty depth r hr hdepth hmax
    obtain ⟨ds, hds, hle⟩ := checkDepthOfTyArgs_eq_ok tys depth rs' hrs hdepth hmax
    refine ⟨d :: ds, ?_, .cons (hends.depth_le hdepth hrmax) hle⟩
    filter_upwards [hd, hds] with n hd hds ρ
    show typeDepth (structDepth v state n) ρ ty >>= _ = _
    rw [hd, Except.ok_bind, hds]
    rfl

/-- The parameters or results of a function type, with the greatest depth so far as accumulator. -/
theorem checkDepthOfSignature_eq_ok : ∀ (tys : List Ty) (depth m r : Depth),
    checkDepthOfSignature v state levels tys depth m = .ok r →
    Depth.one ≤ depth → m ≤ maxValueNestDepth →
    ∃ ds, DepthsOfTypes v state tys ds ∧ EndsAt (deepest ds + Depth.one) depth r ∧ m ≤ r
      ∧ r ≤ maxValueNestDepth
  | [], _, _, _, h, _, hm => by
    cases h
    exact ⟨[], Eventually.of_forall fun _ _ => rfl, bot_le, le_rfl, hm⟩
  | ty :: tys, depth, m, r, h, hdepth, hm => by
    obtain ⟨below, hbelow, h⟩ := Except.bind_eq_ok.mp h
    obtain ⟨rfl, hmax⟩ := checkDepth_eq_ok hbelow
    obtain ⟨q, hq, h⟩ := Except.bind_eq_ok.mp h
    obtain ⟨d, hd, hends, hqmax⟩ := checkDepthOfTypeImpl_eq_ok ty _ q hq
      (le_trans hdepth (Depth.le_add depth .one)) hmax
    obtain ⟨ds, hds, hends', hle, hr⟩ :=
      -- the induction runs from the greatest depth that this parameter leaves
      checkDepthOfSignature_eq_ok tys depth (max m q) r h hdepth (max_le hm hqmax)
    refine ⟨d :: ds, ?_, ?_, le_trans (le_max_left m q) hle, hr⟩
    · filter_upwards [hd, hds] with n hd hds ρ
      show typeDepth (structDepth v state n) ρ ty >>= _ = _
      rw [hd, Except.ok_bind, hds]
      rfl
    · show EndsAt (max d (deepest ds) + Depth.one) depth r
      rw [← max_add_add_right]
      exact (hends.wrap.mono (le_trans (le_max_right m q) hle)).both hends'

end

end Step

/-- **The check.** The values of a type that passes nest, by the plain way of finding it, no
deeper than the limit. -/
theorem check_depth_sound {levels : Nat} {ty : Ty}
    (h : checkDepthOfType v state levels ty = .ok ()) :
    ∃ d, (∃ enough, ∀ levels ≥ enough, ∀ ρ,
        typeDepth (structDepth v state levels) ρ ty = .ok d)
      ∧ d ≤ maxValueNestDepth := by
  obtain ⟨r, hr, _⟩ := Except.bind_eq_ok.mp h
  obtain ⟨d, hd, hends, hmax⟩ := checkDepthOfTypeImpl_eq_ok ty .one r hr le_rfl (by decide)
  exact ⟨d, eventually_atTop.mp hd,
    le_trans (hends.depth_le le_rfl hmax) (WithBot.coe_le_coe.mpr hmax)⟩

end Check

/-! ## A generic struct in a generic struct

`0xCAFE::nest` has the structs `Nest<T> { items: vector<T> }` and
`Twice<T> { inner: Nest<Nest<T>> }`. -/

def sampleNest : CompiledModule where
  selfModuleHandleIdx := 0
  moduleHandles := [{ address := 0, name := 0 }]
  structHandles := [
    { module := 0, name := 1, abilities := ⟨4⟩, typeParameters := [⟨⟨0⟩, false⟩] },
    { module := 0, name := 2, abilities := ⟨4⟩, typeParameters := [⟨⟨0⟩, false⟩] }]
  functionHandles := []
  signatures := []
  identifiers := [⟨"nest"⟩, ⟨"Nest"⟩, ⟨"Twice"⟩, ⟨"items"⟩, ⟨"inner"⟩]
  addressIdentifiers := [sampleAddress]
  structDefs := [
    { structHandle := 0, fieldInformation := .declared
        [{ name := 3, signature := .vector (.typeParameter 0) }] },
    { structHandle := 1, fieldInformation := .declared
        [{ name := 4, signature := .structInstantiation 0
            [.structInstantiation 0 [.typeParameter 0]] }] }]
  functionDefs := []
  otherTables := []

def sampleNestBytes : Bytes :=
  [161, 28, 235, 11, 6, 0, 0, 0, 5, 1, 0, 2, 2, 2, 12, 7, 14, 28, 8, 42, 32, 10, 74, 19, 0, 0, 0,
   1, 4, 1, 0, 0, 0, 2, 4, 1, 0, 0, 4, 110, 101, 115, 116, 4, 78, 101, 115, 116, 5, 84, 119, 105,
   99, 101, 5, 105, 116, 101, 109, 115, 5, 105, 110, 110, 101, 114, 0, 0, 0, 0, 0, 0, 0, 0, 0, 0,
   0, 0, 0, 0, 0, 0, 0, 0, 0, 0, 0, 0, 0, 0, 0, 0, 0, 0, 0, 0, 202, 254, 0, 2, 1, 3, 10, 9, 0, 1,
   2, 1, 4, 11, 0, 1, 11, 0, 1, 9, 0, 0]

def nestVendor : Vendor := .ofTables [(sampleNestBytes, sampleNest)] [] []

def nestState : NexusStateView := (sampleStore "nest" sampleNestBytes).view

/-- `Twice<T> { inner: Nest<Nest<T>> }`. -/
def twice : StructIdentifier := ⟨⟨sampleAddress, ⟨"nest"⟩⟩, ⟨"Twice"⟩⟩

/-- `Twice<T>` is deeper than `T` by two vectors and two structs. -/
theorem depth_formula_exact_twice :
    ∃ enough, ∀ levels ≥ enough, ∀ ρ, structDepth nestVendor nestState levels twice ρ
      = .ok (DepthFormula.eval ρ ⟨[(0, Capped.of _ 4)], none⟩) := by
  have hrun : ((calculateDepthOfStruct nestVendor nestState 2 twice []).toOption.map Prod.fst)
      = some ⟨[(0, Capped.of _ 4)], none⟩ := by
    decide +kernel
  obtain ⟨⟨f, visited⟩, hf, hformula⟩ := Option.map_eq_some_iff.mp hrun
  obtain rfl : f = _ := hformula
  exact depth_formula_exact (Except.toOption_eq_some.mp hf)

theorem check_depth_sound_twice :
    ∃ d, (∃ enough, ∀ levels ≥ enough, ∀ ρ,
        typeDepth (structDepth nestVendor nestState levels) ρ
          (.structInstantiation twice [.vector .u64] ⟨⟨4⟩, [false]⟩) = .ok d)
      ∧ d ≤ maxValueNestDepth := by
  have hrun : (checkDepthOfType nestVendor nestState 2
      (.structInstantiation twice [.vector .u64] ⟨⟨4⟩, [false]⟩)).toOption = some () := by
    decide +kernel
  exact check_depth_sound (Except.toOption_eq_some.mp hrun)

end NexusMove
