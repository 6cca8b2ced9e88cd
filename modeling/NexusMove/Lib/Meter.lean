import NexusMove.Lib.Saturating

/-!
# Meters

A meter counts what is consumed and refuses a charge that would take the count past its
limit. A meter that adds with saturation looks exact until a sum reaches the bound of its
numbers; a limit at the bound then no longer refuses anything.

* `Metering` — a meter as its callers see it, with runs of calls.
* `Metering.Saturates` — the meter adds with saturation at `bound`.
* `Metering.Exact` — the meter does what one with unbounded numbers would do.
* `Metering.Saturates.exact_iff` — when a run on a saturating meter is exact.
* `Metering.succeeded`, `Metering.refused` — the calls of a run, by how they ended.
-/

open Saturating (cap total)

/-- A meter with states `M` on which calls `C` are charged. A failed call is `none`. -/
structure Metering (M C : Type) where
  limit : M → Nat
  consumed : M → Nat
  amount : M → C → Nat
  charge : M → C → Option M

namespace Metering

variable {M C : Type} (μ : Metering M C)

/-- The meter after a call: as it was, if the call failed. -/
def step (m : M) (c : C) : M := (μ.charge m c).getD m

def after (m : M) (calls : List C) : M := calls.foldl μ.step m

/-- What the calls that succeeded amount to. -/
def charged (m : M) : List C → Nat
  | [] => 0
  | c :: calls =>
    match μ.charge m c with
    | some m' => μ.amount m c + charged m' calls
    | none => charged m calls

/-- At every point of the run, the meter has counted exactly what succeeded, and the next call
succeeds exactly if the limit has room for it. -/
def Exact (m : M) (calls : List C) : Prop :=
  ∀ done rest, calls = done ++ rest →
    μ.consumed (μ.after m done) = μ.consumed m + μ.charged m done
    ∧ ∀ c rest', rest = c :: rest' →
      ((μ.charge (μ.after m done) c).isSome = true ↔
        μ.consumed (μ.after m done) + μ.amount (μ.after m done) c ≤ μ.limit (μ.after m done))

/-- The meter adds with saturation at `bound`. A call changes nothing but the count. -/
structure Saturates (bound : Nat) (μ : Metering M C) : Prop where
  consumed_le : ∀ m, μ.consumed m ≤ μ.limit m
  limit_le : ∀ m, μ.limit m ≤ bound
  isSome : ∀ m c, (μ.charge m c).isSome = true ↔
    cap bound (μ.consumed m + μ.amount m c) ≤ μ.limit m
  consumed : ∀ m c m', μ.charge m c = some m' →
    μ.consumed m' = cap bound (μ.consumed m + μ.amount m c)
  limit : ∀ m c m', μ.charge m c = some m' → μ.limit m' = μ.limit m
  amount : ∀ m c m', μ.charge m c = some m' → μ.amount m' = μ.amount m

section Runs

variable {μ} {bound : Nat} (h : μ.Saturates bound)
include h

/-- No call moves the limit. -/
theorem Saturates.limit_step (m : M) (c : C) : μ.limit (μ.step m c) = μ.limit m := by
  unfold step
  cases hc : μ.charge m c with
  | none => rfl
  | some m' => exact h.limit m c m' hc

theorem Saturates.amount_step (m : M) (c : C) : μ.amount (μ.step m c) = μ.amount m := by
  unfold step
  cases hc : μ.charge m c with
  | none => rfl
  | some m' => exact h.amount m c m' hc

theorem Saturates.limit_after (m : M) (calls : List C) : μ.limit (μ.after m calls) = μ.limit m := by
  induction calls generalizing m with
  | nil => rfl
  | cons c calls ih =>
    show μ.limit (μ.after (μ.step m c) calls) = μ.limit m
    rw [ih, h.limit_step]

/-- Nothing of a run reaches the bound: the limit is below it, or all that the run asks for is. -/
def Unsaturated (μ : Metering M C) (bound : Nat) (m : M) (calls : List C) : Prop :=
  μ.limit m < bound ∨ μ.consumed m + total (μ.amount m) calls ≤ bound

omit h in
/-- The first call of an unsaturated run does not saturate. -/
theorem Unsaturated.head {m : M} {c : C} {calls : List C}
    (hu : Unsaturated μ bound m (c :: calls)) :
    μ.limit m < bound ∨ μ.consumed m + μ.amount m c ≤ bound := by
  rcases hu with hlimit | htotal
  · exact .inl hlimit
  · rw [Saturating.total_cons] at htotal
    exact .inr (by omega)

/-- **One call.** Where no sum reaches the bound, the call is charged exactly. -/
theorem Saturates.charge_exact {m : M} {c : C}
    (hu : μ.limit m < bound ∨ μ.consumed m + μ.amount m c ≤ bound) :
    ((μ.charge m c).isSome = true ↔ μ.consumed m + μ.amount m c ≤ μ.limit m)
    ∧ ∀ m', μ.charge m c = some m' → μ.consumed m' = μ.consumed m + μ.amount m c := by
  have hcap : cap bound (μ.consumed m + μ.amount m c) ≤ μ.limit m ↔
      μ.consumed m + μ.amount m c ≤ μ.limit m := by
    rcases hu with hlimit | hsum
    · exact Saturating.cap_le_iff hlimit
    · rw [Saturating.cap_of_le hsum]
  refine ⟨by rw [h.isSome, hcap], fun m' hm' => ?_⟩
  have hfits : μ.consumed m + μ.amount m c ≤ μ.limit m := by
    rw [← hcap, ← h.isSome, hm']
    rfl
  rw [h.consumed m c m' hm', Saturating.cap_of_le (Nat.le_trans hfits (h.limit_le m))]

/-- A call that the limit has room for is counted. -/
theorem Saturates.consumed_step {m : M} {c : C} (hfits : μ.consumed m + μ.amount m c ≤ μ.limit m) :
    μ.consumed (μ.step m c) = μ.consumed m + μ.amount m c := by
  have hexact := h.charge_exact (.inr (Nat.le_trans hfits (h.limit_le m)))
  obtain ⟨m', hm'⟩ := Option.isSome_iff_exists.mp (hexact.1.mpr hfits)
  rw [step, hm']
  exact hexact.2 m' hm'

/-- What is left of an unsaturated run after its first call is unsaturated. -/
theorem Saturates.unsaturated_step {m : M} {c : C} {calls : List C}
    (hu : Unsaturated μ bound m (c :: calls)) : Unsaturated μ bound (μ.step m c) calls := by
  rcases hu with hlimit | htotal
  · exact .inl (by rwa [h.limit_step])
  · -- the run asks for no more than the bound, and the first call for its part of that
    right
    rw [Saturating.total_cons] at htotal
    rw [h.amount_step]
    unfold step
    cases hc : μ.charge m c with
    | none =>
      rw [Option.getD_none]
      omega
    | some m' =>
      have hm' := (h.charge_exact (.inr (by omega))).2 m' hc
      rw [Option.getD_some, hm']
      omega

/-- **A run.** Where no sum reaches the bound, the count is what the succeeded calls amount to. -/
theorem Saturates.consumed_after {m : M} {calls : List C} (hu : Unsaturated μ bound m calls) :
    μ.consumed (μ.after m calls) = μ.consumed m + μ.charged m calls := by
  induction calls generalizing m with
  | nil => rfl
  | cons c calls ih =>
    have hrest := ih (h.unsaturated_step hu)
    show μ.consumed (μ.after (μ.step m c) calls) = μ.consumed m + μ.charged m (c :: calls)
    rw [hrest, charged, step]
    cases hc : μ.charge m c with
    | none => rw [Option.getD_none]
    | some m' =>
      rw [Option.getD_some, (h.charge_exact hu.head).2 m' hc, Nat.add_assoc]

/-- So is what is left after any number of calls. -/
theorem Saturates.unsaturated_after {m : M} {done rest : List C}
    (hu : Unsaturated μ bound m (done ++ rest)) : Unsaturated μ bound (μ.after m done) rest := by
  induction done generalizing m with
  | nil => exact hu
  | cons c done ih => exact ih (h.unsaturated_step hu)

/-- At a limit equal to the bound every call succeeds. -/
theorem Saturates.charged_of_limit_eq {m : M} (hlimit : μ.limit m = bound) (calls : List C) :
    μ.charged m calls = total (μ.amount m) calls := by
  induction calls generalizing m with
  | nil => rfl
  | cons c calls ih =>
    have hsome : (μ.charge m c).isSome = true := by
      rw [h.isSome, hlimit]
      exact Saturating.cap_le _
    obtain ⟨m', hm'⟩ := Option.isSome_iff_exists.mp hsome
    have hrest := ih ((h.limit m c m' hm').trans hlimit)
    rw [h.amount m c m' hm'] at hrest
    rw [charged, hm', Saturating.total_cons]
    exact congrArg _ hrest

/-- **When a saturating meter is exact.** Where the limit is below the bound, always. At the bound
nothing is refused, so what a run asks for has to stay within it. -/
theorem Saturates.exact_iff (m : M) (calls : List C) :
    μ.Exact m calls ↔ Unsaturated μ bound m calls := by
  constructor
  · intro hexact
    by_cases hlimit : μ.limit m < bound
    · exact .inl hlimit
    · -- everything succeeds, so the count at the end is all that was asked for
      have heq : μ.limit m = bound := Nat.le_antisymm (h.limit_le m) (Nat.not_lt.mp hlimit)
      have hend := (hexact calls [] (List.append_nil calls).symm).1
      have hcount : μ.consumed (μ.after m calls) ≤ bound :=
        Nat.le_trans (h.consumed_le _) (h.limit_le _)
      rw [hend, h.charged_of_limit_eq heq] at hcount
      exact .inr hcount
  · intro hu done rest hsplit
    rw [hsplit] at hu
    have hdone : Unsaturated μ bound m done := by
      rcases hu with hlimit | htotal
      · exact .inl hlimit
      · rw [Saturating.total_append] at htotal
        exact .inr (by omega)
    refine ⟨h.consumed_after hdone, fun c rest' hrest => ?_⟩
    have hnext := h.unsaturated_after hu
    rw [hrest] at hnext
    exact (h.charge_exact hnext.head).1

end Runs

/-! ## Calls by how they ended -/

/-- The calls of a run that succeeded. -/
def succeeded (m : M) : List C → List C
  | [] => []
  | c :: calls => (if (μ.charge m c).isSome then [c] else []) ++ succeeded (μ.step m c) calls

/-- The calls of a run that were refused. -/
def refused (m : M) : List C → List C
  | [] => []
  | c :: calls => (if (μ.charge m c).isSome then [] else [c]) ++ refused (μ.step m c) calls

/-- The same meter for other calls, each charged as one of these. -/
def comap {D : Type} (f : D → C) : Metering M D where
  limit := μ.limit
  consumed := μ.consumed
  amount m d := μ.amount m (f d)
  charge m d := μ.charge m (f d)

section Ended

variable {μ}

theorem after_append (m : M) (done rest : List C) :
    μ.after m (done ++ rest) = μ.after (μ.after m done) rest :=
  List.foldl_append

theorem succeeded_append (m : M) (done rest : List C) :
    μ.succeeded m (done ++ rest) = μ.succeeded m done ++ μ.succeeded (μ.after m done) rest := by
  induction done generalizing m with
  | nil => rfl
  | cons c done ih =>
    rw [List.cons_append, succeeded, succeeded, ih, List.append_assoc]
    rfl

theorem refused_append (m : M) (done rest : List C) :
    μ.refused m (done ++ rest) = μ.refused m done ++ μ.refused (μ.after m done) rest := by
  induction done generalizing m with
  | nil => rfl
  | cons c done ih =>
    rw [List.cons_append, refused, refused, ih, List.append_assoc]
    rfl

/-- One call is refused or charged. -/
theorem refused_singleton {m : M} {c : C} :
    μ.refused m [c] = [] ↔ (μ.charge m c).isSome = true := by
  rw [refused, refused, List.append_nil]
  cases (μ.charge m c).isSome <;> simp

/-- Every call either succeeded or was refused. -/
theorem total_succeeded_add_refused (size : C → Nat) (m : M) (calls : List C) :
    total size (μ.succeeded m calls) + total size (μ.refused m calls) = total size calls := by
  induction calls generalizing m with
  | nil => rfl
  | cons c calls ih =>
    have htail := ih (μ.step m c)
    rw [succeeded, refused, Saturating.total_append, Saturating.total_append, Saturating.total_cons]
    cases (μ.charge m c).isSome with
    | false =>
      show 0 + _ + (size c + 0 + _) = _
      omega
    | true =>
      show size c + 0 + _ + (0 + _) = _
      omega

variable {bound : Nat} (h : μ.Saturates bound)
include h

/-- A meter that is driven through another type of calls still saturates. -/
theorem Saturates.comap {D : Type} (f : D → C) : (μ.comap f).Saturates bound where
  consumed_le := h.consumed_le
  limit_le := h.limit_le
  isSome m d := h.isSome m (f d)
  consumed m d := h.consumed m (f d)
  limit m d := h.limit m (f d)
  amount m d m' hm' := by
    show (fun d => μ.amount m' (f d)) = _
    rw [h.amount m (f d) m' hm']
    rfl

theorem Saturates.charged_eq_total (m : M) (calls : List C) :
    μ.charged m calls = total (μ.amount m) (μ.succeeded m calls) := by
  induction calls generalizing m with
  | nil => rfl
  | cons c calls ih =>
    have htail := ih (μ.step m c)
    rw [h.amount_step] at htail
    rw [charged, succeeded, Saturating.total_append, ← htail, step]
    cases hc : μ.charge m c with
    | none => simp
    | some m' => simp

theorem Saturates.consumed_le_after (m : M) (calls : List C) :
    μ.consumed m ≤ μ.consumed (μ.after m calls) := by
  induction calls generalizing m with
  | nil => exact Nat.le_refl _
  | cons c calls ih =>
    have hstep : μ.consumed m ≤ μ.consumed (μ.step m c) := by
      unfold step
      -- a sum that is capped at the bound is still at least what it was
      cases hc : μ.charge m c with
      | none => exact Nat.le_refl _
      | some m' =>
        have hbound := Nat.le_trans (h.consumed_le m) (h.limit_le m)
        rw [Option.getD_some, h.consumed m c m' hc, cap]
        omega
    exact Nat.le_trans hstep (ih (μ.step m c))

/-- Nothing of a run reaches the bound exactly if what is counted does not. -/
theorem Saturates.unsaturated_iff (m : M) (calls : List C) :
    Unsaturated μ bound m calls ↔ μ.consumed m + μ.charged m calls ≤ bound := by
  have hbound := h.limit_le m
  constructor
  · intro hu
    have hcount := h.consumed_after hu
    have hle := Nat.le_trans (h.consumed_le (μ.after m calls)) (h.limit_le _)
    omega
  · intro hle
    by_cases hlimit : μ.limit m = bound
    · rw [h.charged_of_limit_eq hlimit] at hle
      exact .inr hle
    · exact .inl (by omega)

/-- A call is refused only below the bound, and only if it asks for something. -/
theorem Saturates.of_charge_eq_none {m : M} {c : C} (hc : μ.charge m c = none) :
    μ.limit m < bound ∧ 0 < μ.amount m c := by
  have hover : ¬ cap bound (μ.consumed m + μ.amount m c) ≤ μ.limit m := by
    rw [← h.isSome, hc]
    exact Bool.false_ne_true
  have hcap : cap bound (μ.consumed m + μ.amount m c) ≤ bound := Saturating.cap_le _
  have hconsumed := h.consumed_le m
  refine ⟨by omega, Nat.pos_of_ne_zero fun hzero => hover ?_⟩
  have hbound := h.limit_le m
  rw [hzero, Nat.add_zero, Saturating.cap_of_le (by omega)]
  exact hconsumed

/-- Only a call that asks for something is refused, and only by a limit below the bound. -/
theorem Saturates.of_mem_refused {m : M} {c : C} {calls : List C} (hmem : c ∈ μ.refused m calls) :
    μ.limit m < bound ∧ 0 < μ.amount m c := by
  induction calls generalizing m with
  | nil => cases hmem
  | cons d calls ih =>
    rcases List.mem_append.mp hmem with hhead | htail
    · cases hd : μ.charge m d with
      | some m' => simp [hd] at hhead
      | none =>
        obtain rfl : c = d := by simpa [hd] using hhead
        exact h.of_charge_eq_none hd
    · have hstep := ih htail
      rwa [h.limit_step, h.amount_step] at hstep

end Ended

end Metering
