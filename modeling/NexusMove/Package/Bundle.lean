import Mathlib.Data.List.Nodup
import NexusMove.Lib.Bytes

/-!
# The publish preflight

`verify_publish_bundle` of `nexus-move-bytecode`: the structural check of a
bundle of modules before anything looks into them. It reports every violation
it finds, not only the first.

* `BundleFits` — the bundles within the limits.
* `verifyPublishBundle_eq_ok` — an enabled policy passes exactly these.
-/

namespace NexusMove

/-- The limits of the structural verifier. -/
structure StructuralLimits where
  maxModuleCount : Nat
  maxModuleSize : Nat
  maxTotalSize : Nat
deriving DecidableEq

def StructuralLimits.default : StructuralLimits where
  maxModuleCount := 64
  maxModuleSize := 512 * 1024
  maxTotalSize := 2 * 1024 * 1024

/-- Which verifiers run, and with which limits. -/
structure BytecodePolicy where
  structuralVerifierEnabled : Bool
  semanticVerifierEnabled : Bool
  limits : StructuralLimits
deriving DecidableEq

def BytecodePolicy.bootstrap : BytecodePolicy where
  structuralVerifierEnabled := true
  semanticVerifierEnabled := false
  limits := .default

inductive VerificationError where
  | emptyModuleSet
  | emptyModule (index : Nat)
  | tooManyModules (limit got : Nat)
  | moduleTooLarge (index limit got : Nat)
  | totalSizeTooLarge (limit got : Nat)
  | duplicateModuleBytes (first second : Nat)
deriving DecidableEq

def totalSize (modules : List Bytes) : Nat :=
  modules.foldl (fun total module => total + module.length) 0

theorem totalSize_eq (modules : List Bytes) : totalSize modules = modules.flatten.length := by
  have hfold : ∀ n, modules.foldl (fun total module => total + module.length) n
      = n + modules.flatten.length := by
    induction modules with
    | nil => exact fun n => rfl
    | cons module modules ih =>
      intro n
      rw [List.foldl_cons, ih, List.flatten_cons, List.length_append, Nat.add_assoc]
  rw [totalSize, hfold, Nat.zero_add]

section Code

variable (limits : StructuralLimits)

/-- The violations of the bundle as a whole. -/
def bundleErrors (modules : List Bytes) : List VerificationError :=
  (if modules.isEmpty then [.emptyModuleSet] else [])
  ++ (if modules.length > limits.maxModuleCount then
        [.tooManyModules limits.maxModuleCount modules.length] else [])
  ++ (if totalSize modules > limits.maxTotalSize then
        [.totalSizeTooLarge limits.maxTotalSize (totalSize modules)] else [])

/-- What is wrong with one module, apart from the others. -/
def moduleErrors (index : Nat) (module : Bytes) : List VerificationError :=
  (if module.isEmpty then [.emptyModule index] else [])
  ++ (if module.length > limits.maxModuleSize then
        [.moduleTooLarge index limits.maxModuleSize module.length] else [])

/-- One error for each pair of equal modules, by the second of the two, then by the first. -/
def duplicateErrors (modules : List Bytes) : List VerificationError :=
  (List.range modules.length).flatMap fun second =>
    (List.range second).flatMap fun first =>
      if modules[first]? = modules[second]? then [.duplicateModuleBytes first second] else []

/-- All errors, in the order in which the verifier collects them. -/
def verificationErrors (modules : List Bytes) : List VerificationError :=
  bundleErrors limits modules
  ++ modules.zipIdx.flatMap (fun (module, index) => moduleErrors limits index module)
  ++ duplicateErrors modules

end Code

def verifyPublishBundle (modules : List Bytes) (policy : BytecodePolicy) :
    Except (List VerificationError) Unit :=
  if !policy.structuralVerifierEnabled then .ok ()
  else
    let errors := verificationErrors policy.limits modules
    if errors.isEmpty then .ok () else .error errors

/-! ## What the check accepts -/

/-- A bundle within the limits: some modules, not too many, none empty, none too large, not too
large together, and no two the same. -/
structure BundleFits (limits : StructuralLimits) (modules : List Bytes) : Prop where
  nonempty : modules ≠ []
  count : modules.length ≤ limits.maxModuleCount
  total : totalSize modules ≤ limits.maxTotalSize
  each : ∀ m ∈ modules, m ≠ [] ∧ m.length ≤ limits.maxModuleSize
  distinct : modules.Nodup

section Spec

variable {limits : StructuralLimits} {modules : List Bytes}

theorem bundleErrors_eq_nil :
    bundleErrors limits modules = [] ↔
      modules ≠ [] ∧ modules.length ≤ limits.maxModuleCount
        ∧ totalSize modules ≤ limits.maxTotalSize := by
  simp only [bundleErrors, List.append_eq_nil_iff, and_assoc]
  refine and_congr ?_ (and_congr ?_ ?_)
  · cases modules <;> simp
  · by_cases h : modules.length > limits.maxModuleCount
    · simp [h]
    · simp [h, Nat.not_lt.mp h]
  · by_cases h : totalSize modules > limits.maxTotalSize
    · simp [h]
    · simp [h, Nat.not_lt.mp h]

theorem moduleErrors_eq_nil {index : Nat} {module : Bytes} :
    moduleErrors limits index module = [] ↔
      module ≠ [] ∧ module.length ≤ limits.maxModuleSize := by
  simp only [moduleErrors, List.append_eq_nil_iff]
  refine and_congr ?_ ?_
  · cases module <;> simp
  · by_cases h : module.length > limits.maxModuleSize
    · simp [h]
    · simp [h, Nat.not_lt.mp h]

theorem duplicateErrors_eq_nil : duplicateErrors modules = [] ↔ modules.Nodup := by
  rw [List.nodup_iff_getElem?_ne_getElem?]
  simp only [duplicateErrors, List.flatMap_eq_nil_iff, List.mem_range]
  constructor
  · intro h first second hlt hlen heq
    have := h second hlen first hlt
    simp [heq] at this
  · intro h second hlen first hlt
    exact if_neg (h first second hlt hlen)

/-- **No error is reported exactly for the bundles within the limits.** -/
theorem verificationErrors_eq_nil :
    verificationErrors limits modules = [] ↔ BundleFits limits modules := by
  have heach : modules.zipIdx.flatMap (fun p => moduleErrors limits p.2 p.1) = [] ↔
      ∀ m ∈ modules, m ≠ [] ∧ m.length ≤ limits.maxModuleSize := by
    simp only [List.flatMap_eq_nil_iff, moduleErrors_eq_nil]
    constructor
    · intro h m hm
      obtain ⟨i, hi⟩ := List.getElem?_of_mem hm
      exact h (m, i) (List.mk_mem_zipIdx_iff_getElem?.mpr hi)
    · rintro h ⟨m, i⟩ hmem
      exact h m (List.mem_of_getElem? (List.mk_mem_zipIdx_iff_getElem?.mp hmem))
  simp only [verificationErrors, List.append_eq_nil_iff, bundleErrors_eq_nil,
    duplicateErrors_eq_nil]
  constructor
  · rintro ⟨⟨⟨hne, hcount, htotal⟩, hmods⟩, hdup⟩
    exact ⟨hne, hcount, htotal, heach.mp hmods, hdup⟩
  · intro h
    exact ⟨⟨⟨h.nonempty, h.count, h.total⟩, heach.mpr h.each⟩, h.distinct⟩

/-- **The preflight.** An enabled policy passes exactly the bundles within its limits. -/
theorem verifyPublishBundle_eq_ok {policy : BytecodePolicy}
    (henabled : policy.structuralVerifierEnabled = true) :
    verifyPublishBundle modules policy = .ok () ↔ BundleFits policy.limits modules := by
  rw [← verificationErrors_eq_nil]
  simp only [verifyPublishBundle, henabled, Bool.not_true, Bool.false_eq_true, if_false]
  cases verificationErrors policy.limits modules <;> simp

theorem bootstrap_eq_ok :
    verifyPublishBundle modules .bootstrap = .ok () ↔ BundleFits .default modules :=
  verifyPublishBundle_eq_ok rfl

end Spec

end NexusMove
