import NexusMove.Lib.Except
import NexusMove.Lib.Meter
import NexusMove.Runtime.GasMeter

/-!
# Runs of charges

Both gas meters promise to count what is charged and to refuse what goes past the limit.
They add with saturation, so a sum that would not fit a `u64` is counted as the largest
`u64`. Below that limit the difference does not show, since such a sum is refused in
either case. At that limit it is not: every charge succeeds, however many there were.

* `simpleMetering`, `nexusMetering` — the two meters as meters that saturate.
* `meters_exact_iff` — the runs of charges that are metered exactly.
* `full_limit_refuses_nothing` — a charge that both meters should refuse.
-/

namespace NexusMove

open Saturating (total)

/-! ## The two meters -/

def simpleMetering : Metering SimpleGasMeter UInt64 where
  limit m := m.limit.toNat
  consumed m := m.consumed.toNat
  amount _ amount := amount.toNat
  charge m amount := (m.charge amount).toOption

/-- The amount of a call is what its method charges, zero for the two that charge nothing. -/
def nexusMetering : Metering NexusGasMeter GasCall where
  limit m := m.limit.toNat
  consumed m := m.consumed.toNat
  amount m c := ((c.charge m.params).getD 0).toNat
  charge m c := (m.perform c).toOption

section Saturating

/-- The charge behind either meter, over numbers. -/
theorem isSome_chargeTo (limit consumed amount : UInt64) :
    (∃ next, chargeTo limit consumed amount = some next) ↔
      Saturating.cap (2 ^ 64 - 1) (consumed.toNat + amount.toNat) ≤ limit.toNat := by
  rw [← toNat_saturatingAdd, ← UInt64.le_iff_toNat_le]
  simp only [chargeTo_eq_some, exists_and_left, exists_eq, and_true]

theorem toNat_of_chargeTo {limit consumed amount next : UInt64}
    (h : chargeTo limit consumed amount = some next) :
    next.toNat = Saturating.cap (2 ^ 64 - 1) (consumed.toNat + amount.toNat) := by
  rw [(chargeTo_eq_some.mp h).2, toNat_saturatingAdd]

theorem simpleMetering_charge {m m' : SimpleGasMeter} {amount : UInt64} :
    simpleMetering.charge m amount = some m' ↔
      m'.limit = m.limit ∧ chargeTo m.limit m.consumed amount = some m'.consumed :=
  Except.toOption_eq_some.trans SimpleGasMeter.charge_eq_ok

theorem simple_saturates : simpleMetering.Saturates (2 ^ 64 - 1) where
  consumed_le m := UInt64.le_iff_toNat_le.mp m.consumed_le
  limit_le m := toNat_le_u64Max m.limit
  isSome m amount := by
    rw [Option.isSome_iff_exists]
    refine Iff.trans ?_ (isSome_chargeTo m.limit m.consumed amount)
    constructor
    · rintro ⟨m', hm'⟩
      exact ⟨m'.consumed, (simpleMetering_charge.mp hm').2⟩
    · rintro ⟨next, hnext⟩
      exact ⟨⟨m.limit, next, le_of_chargeTo hnext⟩, simpleMetering_charge.mpr ⟨rfl, hnext⟩⟩
  consumed m amount m' h := toNat_of_chargeTo (simpleMetering_charge.mp h).2
  limit m amount m' h := congrArg UInt64.toNat (simpleMetering_charge.mp h).1
  amount _ _ _ _ := rfl

/-- A method that charges nothing leaves the meter as a charge of zero does. -/
theorem nexusMetering_charge {m m' : NexusGasMeter} {c : GasCall} :
    nexusMetering.charge m c = some m' ↔ m'.limit = m.limit ∧ m'.params = m.params
      ∧ chargeTo m.limit m.consumed ((c.charge m.params).getD 0) = some m'.consumed := by
  refine Except.toOption_eq_some.trans ?_
  unfold NexusGasMeter.perform
  cases c.charge m.params with
  | some amount => exact NexusGasMeter.charge_eq_ok
  | none =>
    have hzero : saturatingAdd m.consumed 0 = m.consumed := by
      rw [← UInt64.toNat_inj, toNat_saturatingAdd]
      exact Saturating.cap_of_le (toNat_le_u64Max m.consumed)
    rw [Option.getD_none, chargeTo_eq_some, hzero, and_iff_right m.consumed_le]
    show Except.ok m = .ok m' ↔ _
    rw [Except.ok.injEq, NexusGasMeter.eq_iff]

theorem nexus_saturates : nexusMetering.Saturates (2 ^ 64 - 1) where
  consumed_le m := UInt64.le_iff_toNat_le.mp m.consumed_le
  limit_le m := toNat_le_u64Max m.limit
  isSome m c := by
    rw [Option.isSome_iff_exists]
    refine Iff.trans ?_ (isSome_chargeTo m.limit m.consumed ((c.charge m.params).getD 0))
    constructor
    · rintro ⟨m', hm'⟩
      exact ⟨m'.consumed, (nexusMetering_charge.mp hm').2.2⟩
    · rintro ⟨next, hnext⟩
      exact ⟨⟨m.params, m.limit, next, le_of_chargeTo hnext⟩,
        nexusMetering_charge.mpr ⟨rfl, rfl, hnext⟩⟩
  consumed m c m' h := toNat_of_chargeTo (nexusMetering_charge.mp h).2.2
  limit m c m' h := congrArg UInt64.toNat (nexusMetering_charge.mp h).1
  amount m c m' h := by
    show (fun c => ((GasCall.charge m'.params c).getD 0).toNat) = _
    rw [(nexusMetering_charge.mp h).2.1]
    rfl

end Saturating

/-! ## Exact runs -/

/-- At every point of a run on a fresh meter: the count is the exact sum of the charges that
returned `Ok`, it is within the limit, and what remains is what is left of the limit; the next
charge returns `Ok` exactly if the limit has room for it, and leaves the meter alone if not. -/
def ExactlyMetered {M C : Type} (μ : Metering M C) (remaining : M → UInt64) (fresh : M)
    (calls : List C) : Prop :=
  ∀ done rest, calls = done ++ rest →
    let m := μ.after fresh done
    μ.consumed m = μ.charged fresh done
    ∧ μ.consumed m ≤ μ.limit fresh
    ∧ (remaining m).toNat = μ.limit fresh - μ.consumed m
    ∧ ∀ c rest', rest = c :: rest' →
      ((μ.charge m c).isSome = true ↔ μ.consumed m + μ.amount m c ≤ μ.limit fresh)
      ∧ (μ.charge m c = none → μ.step m c = m)

theorem exactlyMetered_iff {M C : Type} {μ : Metering M C} {remaining : M → UInt64} {fresh : M}
    (h : μ.Saturates (2 ^ 64 - 1)) (hfresh : μ.consumed fresh = 0)
    (hremaining : ∀ m, (remaining m).toNat = μ.limit m - μ.consumed m) (calls : List C) :
    ExactlyMetered μ remaining fresh calls ↔
      (μ.limit fresh = 2 ^ 64 - 1 → total (μ.amount fresh) calls ≤ 2 ^ 64 - 1) := by
  have hlimit : ∀ done, μ.limit (μ.after fresh done) = μ.limit fresh := h.limit_after fresh
  have hexact : ExactlyMetered μ remaining fresh calls ↔ μ.Exact fresh calls := by
    unfold ExactlyMetered Metering.Exact
    refine forall_congr' fun done => forall_congr' fun rest => forall_congr' fun hsplit => ?_
    dsimp only
    rw [hfresh, Nat.zero_add, hlimit done]
    constructor
    · rintro ⟨hcount, -, -, hnext⟩
      exact ⟨hcount, fun c rest' hrest => (hnext c rest' hrest).1⟩
    · rintro ⟨hcount, hnext⟩
      refine ⟨hcount, ?_, ?_, fun c rest' hrest => ⟨hnext c rest' hrest, fun hfail => ?_⟩⟩
      · rw [← hlimit done]
        exact h.consumed_le _
      · rw [hremaining, hlimit done]
      · rw [Metering.step, hfail, Option.getD_none]
  have hmax := h.limit_le fresh
  rw [hexact, h.exact_iff, Metering.Unsaturated, hfresh, Nat.zero_add]
  constructor
  · rintro (hlt | htotal) heq
    · omega
    · exact htotal
  · intro himp
    by_cases heq : μ.limit fresh = 2 ^ 64 - 1
    · exact .inr (himp heq)
    · exact .inl (by omega)

theorem toNat_remaining {limit consumed : UInt64} (h : consumed ≤ limit) :
    (limit - consumed).toNat = limit.toNat - consumed.toNat :=
  UInt64.toNat_sub_of_le _ _ h

/-- **Runs of charges.** On either meter, a run of charges is metered exactly if and only if the
limit is below the largest `u64` or all that the run asks for sums to at most that. -/
theorem meters_exact_iff (limit : UInt64) (params : NexusGasParameters) (charges : List UInt64)
    (calls : List GasCall) :
    (ExactlyMetered simpleMetering SimpleGasMeter.remaining (.new limit) charges ↔
      (limit = u64Max → total UInt64.toNat charges ≤ 2 ^ 64 - 1))
    ∧ (ExactlyMetered nexusMetering NexusGasMeter.remaining (.new limit params) calls ↔
      (limit = u64Max → total (fun c => ((c.charge params).getD 0).toNat) calls ≤ 2 ^ 64 - 1)) := by
  have hmax : limit = u64Max ↔ limit.toNat = 2 ^ 64 - 1 := by
    rw [← toNat_u64Max, UInt64.toNat_inj]
  rw [hmax]
  constructor
  · exact exactlyMetered_iff simple_saturates rfl (fun m => toNat_remaining m.consumed_le) charges
  · exact exactlyMetered_iff nexus_saturates rfl (fun m => toNat_remaining m.consumed_le) calls

/-- Under the highest limit, both meters let a unit be charged when all of the limit is used up. -/
theorem full_limit_refuses_nothing :
    ¬ ExactlyMetered simpleMetering SimpleGasMeter.remaining (.new u64Max) [u64Max, 1]
    ∧ ¬ ExactlyMetered nexusMetering NexusGasMeter.remaining (.new u64Max .default)
        [.heapMemory u64Max, .heapMemory 1] := by
  constructor
  · intro h
    have hnext := (h [u64Max] [1] rfl).2.2.2 1 [] rfl
    exact absurd (hnext.1.mp (by decide)) (by decide)
  · intro h
    have hnext := (h [.heapMemory u64Max] [.heapMemory 1] rfl).2.2.2 (.heapMemory 1) [] rfl
    exact absurd (hnext.1.mp (by decide)) (by decide)

end NexusMove
