import NexusMove.Package.Bundle

/-!
# What the publish preflight reports

`verify_publish_bundle` collects its errors in three places: checks of the bundle as
a whole, one loop over the modules, and a nested loop over the pairs of modules. The
list it returns has an error for every violation, no other, and none twice.

* `VerificationError.Violated` — what an error says of a bundle.
* `bundle_errors_exact` — the errors of a refused bundle are its violations.
-/

namespace NexusMove

/-! ## Lists without repetition -/

/-- Where every element of a part carries the key of the part, distinct keys keep parts apart. -/
theorem nodup_flatMap_of_key {α β κ : Type} {l : List α} {f : α → List β} (key : β → κ)
    (keyOf : α → κ) (hl : (l.map keyOf).Nodup) (hf : ∀ a ∈ l, (f a).Nodup)
    (hkey : ∀ a ∈ l, ∀ b ∈ f a, key b = keyOf a) : (l.flatMap f).Nodup := by
  rw [List.nodup_flatMap]
  refine ⟨hf, ?_⟩
  have hparts : l.Pairwise fun a a' => keyOf a ≠ keyOf a' := List.pairwise_map.mp hl
  refine hparts.imp_of_mem ?_
  intro a a' ha ha' hne b hb hb'
  have hsame : keyOf a = keyOf a' := (hkey a ha b hb).symm.trans (hkey a' ha' b hb')
  exact hne hsame

/-! ## What an error says -/

/-- The violation an error stands for, with the index, limit and size that it states. -/
def VerificationError.Violated (limits : StructuralLimits) (modules : List Bytes) :
    VerificationError → Prop
  | emptyModuleSet => modules = []
  | emptyModule index => modules[index]? = some []
  | tooManyModules limit got =>
    limit = limits.maxModuleCount ∧ got = modules.length ∧ limit < got
  | moduleTooLarge index limit got =>
    limit = limits.maxModuleSize ∧ ∃ m, modules[index]? = some m ∧ got = m.length ∧ limit < got
  | totalSizeTooLarge limit got =>
    limit = limits.maxTotalSize ∧ got = modules.flatten.length ∧ limit < got
  | duplicateModuleBytes first second =>
    first < second ∧ ∃ m, modules[first]? = some m ∧ modules[second]? = some m

namespace VerificationError

/-- The part of the check that an error comes from. -/
def part : VerificationError → Nat
  | emptyModuleSet | tooManyModules .. | totalSizeTooLarge .. => 0
  | emptyModule _ | moduleTooLarge .. => 1
  | duplicateModuleBytes .. => 2

/-- The round of the loop over the modules that an error comes from; the outer round for a pair. -/
def round : VerificationError → Nat
  | emptyModule index => index
  | moduleTooLarge index .. => index
  | duplicateModuleBytes _ second => second
  | _ => 0

/-- The inner round that an error comes from. -/
def innerRound : VerificationError → Nat
  | duplicateModuleBytes first _ => first
  | _ => 0

end VerificationError

section Spec

open VerificationError

variable {limits : StructuralLimits} {modules : List Bytes} {e : VerificationError}

/-! ## The bundle as a whole -/

theorem mem_bundleErrors :
    e ∈ bundleErrors limits modules ↔ e.part = 0 ∧ e.Violated limits modules := by
  have htotal := totalSize_eq modules
  simp only [bundleErrors, List.mem_append, List.mem_ite_nil_right, List.mem_singleton, htotal]
  -- three kinds of errors come from this part, each with the numbers of its own test
  cases e with
  | emptyModuleSet => simp [part, Violated]
  | emptyModule index => simp [part]
  | tooManyModules limit got =>
    simp only [part, Violated, reduceCtorEq, and_false, or_false, false_or, true_and,
      tooManyModules.injEq]
    grind
  | moduleTooLarge index limit got => simp [part]
  | totalSizeTooLarge limit got =>
    simp only [part, Violated, reduceCtorEq, and_false, false_or, true_and,
      totalSizeTooLarge.injEq]
    grind
  | duplicateModuleBytes first second => simp [part]

theorem nodup_bundleErrors : (bundleErrors limits modules).Nodup := by
  unfold bundleErrors
  split_ifs <;> simp

/-! ## The loop over the modules -/

theorem mem_moduleErrors {index : Nat} {module : Bytes} (h : modules[index]? = some module) :
    e ∈ moduleErrors limits index module ↔
      e.part = 1 ∧ e.round = index ∧ e.Violated limits modules := by
  simp only [moduleErrors, List.mem_append, List.mem_ite_nil_right, List.mem_singleton]
  -- the two kinds that a round reports name the round
  cases e with
  | emptyModule i =>
    simp only [VerificationError.part, VerificationError.round, Violated, emptyModule.injEq,
      reduceCtorEq, and_false, or_false, true_and, List.isEmpty_iff]
    grind
  | moduleTooLarge i limit got =>
    simp only [VerificationError.part, VerificationError.round, Violated, moduleTooLarge.injEq,
      reduceCtorEq, and_false, false_or, true_and]
    grind
  | _ => simp [part]

theorem nodup_moduleErrors (index : Nat) (module : Bytes) :
    (moduleErrors limits index module).Nodup := by
  unfold moduleErrors
  split_ifs <;> simp

theorem mem_loopErrors :
    e ∈ modules.zipIdx.flatMap (fun p => moduleErrors limits p.2 p.1) ↔
      e.part = 1 ∧ e.Violated limits modules := by
  rw [List.mem_flatMap]
  constructor
  · rintro ⟨⟨module, index⟩, hp, he⟩
    have hget := List.mk_mem_zipIdx_iff_getElem?.mp hp
    obtain ⟨hpart, -, hviolated⟩ := (mem_moduleErrors hget).mp he
    exact ⟨hpart, hviolated⟩
  · rintro ⟨hpart, hviolated⟩
    -- a violation of a module says which module it is
    have hround : ∃ module, modules[e.round]? = some module := by
      cases e with
      | emptyModule index => exact ⟨[], hviolated⟩
      | moduleTooLarge index limit got => exact ⟨_, hviolated.2.choose_spec.1⟩
      | _ => cases hpart
    obtain ⟨module, hget⟩ := hround
    refine ⟨(module, e.round), List.mk_mem_zipIdx_iff_getElem?.mpr hget, ?_⟩
    exact (mem_moduleErrors hget).mpr ⟨hpart, rfl, hviolated⟩

theorem nodup_loopErrors :
    (modules.zipIdx.flatMap fun p => moduleErrors limits p.2 p.1).Nodup := by
  refine nodup_flatMap_of_key round Prod.snd ?_ (fun p _ => nodup_moduleErrors p.2 p.1) ?_
  · rw [List.zipIdx_map_snd]
    exact List.nodup_range'
  · rintro ⟨module, index⟩ hp e he
    have hget := List.mk_mem_zipIdx_iff_getElem?.mp hp
    exact ((mem_moduleErrors hget).mp he).2.1

/-! ## The loop over the pairs -/

theorem mem_duplicateErrors :
    e ∈ duplicateErrors modules ↔ e.part = 2 ∧ e.Violated limits modules := by
  simp only [duplicateErrors, List.mem_flatMap, List.mem_range, List.mem_ite_nil_right,
    List.mem_singleton]
  constructor
  · rintro ⟨second, hlen, first, hlt, heq, rfl⟩
    have hget : modules[second]? = some modules[second] := List.getElem?_eq_getElem hlen
    exact ⟨rfl, hlt, _, heq.trans hget, hget⟩
  · rintro ⟨hpart, hviolated⟩
    cases e with
    | duplicateModuleBytes first second =>
      obtain ⟨hlt, m, hfirst, hsecond⟩ := hviolated
      have hlen : second < modules.length := (List.getElem?_eq_some_iff.mp hsecond).1
      exact ⟨second, hlen, first, hlt, hfirst.trans hsecond.symm, rfl⟩
    | _ => cases hpart

theorem nodup_duplicateErrors : (duplicateErrors modules).Nodup := by
  unfold duplicateErrors
  -- the second index keeps the outer rounds apart, and the first index the inner ones
  refine nodup_flatMap_of_key round id (by rw [List.map_id]; exact List.nodup_range) ?_ ?_
  · intro second _
    refine nodup_flatMap_of_key innerRound id (by rw [List.map_id]; exact List.nodup_range) ?_ ?_
    · intro first _
      split_ifs <;> simp
    · intro first _ e he
      rw [List.mem_ite_nil_right, List.mem_singleton] at he
      rw [he.2]
      rfl
  · intro second _ e he
    obtain ⟨first, -, he⟩ := List.mem_flatMap.mp he
    rw [List.mem_ite_nil_right, List.mem_singleton] at he
    rw [he.2]
    rfl

/-! ## All errors -/

/-- **The errors are the violations.** -/
theorem mem_verificationErrors :
    e ∈ verificationErrors limits modules ↔ e.Violated limits modules := by
  have hpart : e.part = 0 ∨ e.part = 1 ∨ e.part = 2 := by cases e <;> simp [part]
  rw [verificationErrors, List.mem_append, List.mem_append, mem_bundleErrors, mem_loopErrors,
    mem_duplicateErrors, ← or_and_right, ← or_and_right, or_assoc]
  exact and_iff_right hpart

/-- **No error is reported twice.** -/
theorem nodup_verificationErrors : (verificationErrors limits modules).Nodup := by
  unfold verificationErrors
  rw [List.nodup_append', List.nodup_append']
  -- errors of different parts are of different kinds
  refine ⟨⟨nodup_bundleErrors, nodup_loopErrors, ?_⟩, nodup_duplicateErrors, ?_⟩
  · intro e he he'
    have hbundle := (mem_bundleErrors.mp he).1
    have hloop := (mem_loopErrors.mp he').1
    omega
  · intro e he he'
    have hpair : e.part = 2 ∧ e.Violated limits modules := mem_duplicateErrors.mp he'
    rcases List.mem_append.mp he with he | he
    · have hbundle := (mem_bundleErrors.mp he).1
      omega
    · have hloop := (mem_loopErrors.mp he).1
      omega

end Spec

/-- **Exactly the violations.** An enabled policy passes the bundles within its limits, and what it
returns for any other bundle has one error for each violation and no other. -/
theorem bundle_errors_exact (policy : BytecodePolicy)
    (henabled : policy.structuralVerifierEnabled = true) (modules : List Bytes) :
    (verifyPublishBundle modules policy = .ok () ↔ BundleFits policy.limits modules)
    ∧ ∀ errors, verifyPublishBundle modules policy = .error errors →
        errors.Nodup ∧ ∀ e, e ∈ errors ↔ e.Violated policy.limits modules := by
  refine ⟨verifyPublishBundle_eq_ok henabled, ?_⟩
  intro errors herrors
  have hcollected : errors = verificationErrors policy.limits modules := by
    simp only [verifyPublishBundle, henabled, Bool.not_true, Bool.false_eq_true, if_false]
      at herrors
    split_ifs at herrors
    exact (Except.error.inj herrors).symm
  rw [hcollected]
  exact ⟨nodup_verificationErrors, fun e => mem_verificationErrors⟩

/-- A bundle that breaks two of the conditions: it has an empty module, twice. -/
theorem bundle_errors_exact_empty_twice :
    verifyPublishBundle [[], [1], []] .bootstrap
        = .error [.emptyModule 0, .emptyModule 2, .duplicateModuleBytes 0 2]
    ∧ ∀ e, e ∈ [VerificationError.emptyModule 0, .emptyModule 2, .duplicateModuleBytes 0 2] ↔
        e.Violated .default [[], [1], []] := by
  have hrun : verifyPublishBundle [[], [1], []] .bootstrap
      = .error [.emptyModule 0, .emptyModule 2, .duplicateModuleBytes 0 2] := by decide
  exact ⟨hrun, ((bundle_errors_exact .bootstrap rfl [[], [1], []]).2 _ hrun).2⟩

end NexusMove
