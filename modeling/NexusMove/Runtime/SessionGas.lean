import NexusMove.Runtime.GasEstimates
import NexusMove.Runtime.MeterRuns
import NexusMove.Runtime.Session

/-!
# The gas of a session

A session counts its gas twice: on its meter, which refuses what the limit does not
cover, and in a summary by kind. A charge goes into the summary before the meter is
asked, so a refused charge is in one of the two counts only. A read asks the meter as
well and then returns its value, whatever the answer was.

* `ExecuteSession.attempts` — a run of a session as the charges that it tries to make.
* `summaryBalances_iff` — the two counts agree exactly where no charge is refused.
* `readsPaidFor_iff` — reads are paid for exactly where the limit covers each of them.
-/

namespace NexusMove

open Saturating (cap total)

/-! ## Charges -/

/-- The field of the summary that a charge is counted in. -/
inductive ChargeKind where
  | execution | io | storage
deriving DecidableEq

/-- An attempt to charge, which the meter may refuse. -/
structure Charge where
  kind : ChargeKind
  amount : UInt64
deriving DecidableEq

namespace Charge

def size (c : Charge) : Nat := c.amount.toNat

/-- What a charge adds to the charges of one kind. -/
def sizeOf (kind : ChargeKind) (c : Charge) : Nat := if c.kind = kind then c.size else 0

theorem total_size_eq (charges : List Charge) :
    total size charges = total (sizeOf .execution) charges + total (sizeOf .io) charges
      + total (sizeOf .storage) charges := by
  induction charges with
  | nil => rfl
  | cons c charges ih =>
    rw [Saturating.total_cons, Saturating.total_cons, Saturating.total_cons, Saturating.total_cons,
      ih]
    cases hkind : c.kind <;> simp [sizeOf, hkind] <;> omega

end Charge

namespace MoveGasSummary

variable (summary : MoveGasSummary)

def ofKind : ChargeKind → UInt64
  | .execution => summary.executionGas
  | .io => summary.ioGas
  | .storage => summary.storageFee

/-- The summary counts a charge in the field of its kind. -/
def add (c : Charge) : MoveGasSummary :=
  match c.kind with
  | .execution => summary.addExecution c.amount
  | .io => summary.addIo c.amount
  | .storage => summary.addStorage c.amount

/-- Only the field of the kind grows, up to the bound. -/
theorem toNat_ofKind_add (c : Charge) (kind : ChargeKind) :
    ((summary.add c).ofKind kind).toNat
      = cap (2 ^ 64 - 1) ((summary.ofKind kind).toNat + c.sizeOf kind) := by
  have hsame : ∀ n : UInt64, n.toNat = cap (2 ^ 64 - 1) (n.toNat + 0) :=
    fun n => (Saturating.cap_of_le (toNat_le_u64Max n)).symm
  cases hkind : c.kind <;> cases kind <;>
    simp only [add, hkind, ofKind, addExecution, addIo, addStorage, Charge.sizeOf, if_true,
      reduceCtorEq, if_false, toNat_saturatingAdd, Charge.size] <;>
    exact hsame _

/-- A field of the summary after some charges. -/
theorem toNat_ofKind_foldl (charges : List Charge) (kind : ChargeKind) :
    ((charges.foldl add zero).ofKind kind).toNat
      = cap (2 ^ 64 - 1) (Saturating.total (Charge.sizeOf kind) charges) := by
  have hzero : (zero.ofKind kind).toNat = 0 := by cases kind <;> rfl
  have hfold := Saturating.foldl_cap (fun summary : MoveGasSummary => (summary.ofKind kind).toNat)
    (fun summary c => toNat_ofKind_add summary c kind) (toNat_le_u64Max (zero.ofKind kind)) charges
  rw [hfold, hzero, Nat.zero_add]

/-- Two additions that saturate are one sum that is capped. -/
theorem toNat_total :
    summary.total.toNat = cap (2 ^ 64 - 1) ((summary.ofKind .execution).toNat
      + (summary.ofKind .io).toNat + (summary.ofKind .storage).toNat) := by
  rw [total, toNat_saturatingAdd, toNat_saturatingAdd, Saturating.cap_cap_add]
  rfl

end MoveGasSummary

/-- The meter of a session, for charges of all kinds. -/
def chargeMetering : Metering SimpleGasMeter Charge := simpleMetering.comap Charge.amount

theorem charge_saturates : chargeMetering.Saturates (2 ^ 64 - 1) :=
  simple_saturates.comap Charge.amount

namespace ExecuteSession

/-! ## A run as its charges -/

/-- The charge an operation tries to make, if it gets as far as a charge. -/
def attempt? (s : ExecuteSession) : SessionOp → Option Charge
  | .readResource account typeTag =>
    match s.resources.get account typeTag with
    | .error _ => none
    | .ok value => some ⟨.io, (value.map fun bytes =>
        saturatingMul (lenU64 bytes) s.schedule.readPerByte).getD 0⟩
  | .writeResource _ _ value =>
    if s.kind = .readOnly then none
    else some ⟨.storage, saturatingMul (lenU64 value) s.schedule.writePerByte⟩
  | .remove .. => none
  | .chargeExecution amount => some ⟨.execution, amount⟩
  | .chargeIo amount => some ⟨.io, amount⟩
  | .chargeStorage amount => some ⟨.storage, amount⟩

def attempts : ExecuteSession → List SessionOp → List Charge
  | _, [] => []
  | s, op :: ops => (s.attempt? op).toList ++ (s.step op).2.attempts ops

/-- The charges of a run that the meter allowed. -/
def charges : ExecuteSession → List SessionOp → List Charge
  | _, [] => []
  | s, op :: ops =>
    ((s.attempt? op).filter fun c => (s.meter.charge c.amount).toOption.isSome).toList
      ++ (s.step op).2.charges ops

section Runs

variable {s : ExecuteSession}

/-- The summary counts every attempt, the meter those that it takes. -/
theorem charge_counts (count : MoveGasSummary → UInt64 → MoveGasSummary) (n : UInt64) :
    (s.charge count n).2.meter = simpleMetering.step s.meter n
    ∧ (s.charge count n).2.gasSummary = count s.gasSummary n
    ∧ (s.charge count n).2.schedule = s.schedule := by
  cases hmeter : s.meter.charge n <;>
    simp [charge, Metering.step, simpleMetering, hmeter, Except.toOption]

/-- An operation is its charge, as far as the two counts go, and leaves the prices. -/
theorem step_eq_attempt (op : SessionOp) :
    (s.step op).2.meter = chargeMetering.after s.meter (s.attempt? op).toList
    ∧ (s.step op).2.gasSummary = (s.attempt? op).toList.foldl MoveGasSummary.add s.gasSummary
    ∧ (s.step op).2.schedule = s.schedule := by
  cases op with
  | readResource a t =>
    simp only [step, readResource, attempt?]
    cases s.resources.get a t with
    -- an error of the view is charged nothing
    | error e => exact ⟨rfl, rfl, rfl⟩
    | ok value => exact charge_counts .addIo _
  | writeResource a t value =>
    simp only [step, writeResource, attempt?]
    split_ifs with hkind
    · -- a write that is not allowed is charged nothing
      exact ⟨rfl, rfl, rfl⟩
    · have hstorage := charge_counts (s := s) .addStorage
        (saturatingMul (lenU64 value) s.schedule.writePerByte)
      unfold chargeStorage
      -- a write that goes through changes the overlay and neither of the counts
      cases hrun : s.charge .addStorage (saturatingMul (lenU64 value) s.schedule.writePerByte) with
      | mk result s' =>
        rw [hrun] at hstorage
        cases result <;> exact hstorage
  | remove a t => exact ⟨rfl, rfl, rfl⟩
  | chargeExecution n => exact charge_counts .addExecution n
  | chargeIo n => exact charge_counts .addIo n
  | chargeStorage n => exact charge_counts .addStorage n

/-- The meter after a run is the meter after its attempts. -/
theorem meter_after (ops : List SessionOp) :
    (s.after ops).meter = chargeMetering.after s.meter (s.attempts ops) := by
  induction ops generalizing s with
  | nil => rfl
  | cons op ops ih =>
    rw [attempts, Metering.after_append, ← (step_eq_attempt op).1]
    exact ih

/-- The summary after a run is the sum of its attempts. -/
theorem gasSummary_after (ops : List SessionOp) :
    (s.after ops).gasSummary = (s.attempts ops).foldl MoveGasSummary.add s.gasSummary := by
  induction ops generalizing s with
  | nil => rfl
  | cons op ops ih =>
    rw [attempts, List.foldl_append, ← (step_eq_attempt op).2.1]
    exact ih

/-- The charges that succeed are those that the meter takes. -/
theorem charges_eq (ops : List SessionOp) :
    s.charges ops = chargeMetering.succeeded s.meter (s.attempts ops) := by
  induction ops generalizing s with
  | nil => rfl
  | cons op ops ih =>
    rw [attempts, charges, Metering.succeeded_append, ← (step_eq_attempt op).1, ih]
    refine congrArg (· ++ _) ?_
    -- an operation without a charge
    cases s.attempt? op with
    | none => rfl
    | some c =>
      rw [Option.toList_some, Metering.succeeded, Metering.succeeded, List.append_nil,
        Option.filter_some]
      show (if (chargeMetering.charge s.meter c).isSome then some c else none).toList = _
      split_ifs <;> rfl

end Runs

end ExecuteSession

/-! ## The summary -/

/-- Unless the charges that succeeded come to more than a `u64` holds, the total of the summary is
what the meter has consumed, and each of its fields is what the charges of its kind come to. -/
def SummaryBalances (s₀ : ExecuteSession) (ops : List SessionOp) : Prop :=
  let charges := s₀.charges ops
  let s := s₀.after ops
  total Charge.size charges < 2 ^ 64 →
    s.gasSummary.total = s.meter.consumed
    ∧ ∀ kind, (s.gasSummary.ofKind kind).toNat = total (Charge.sizeOf kind) charges

/-- A charge that the operation tries to make is within what is left of the limit. -/
def ChargeFits (s : ExecuteSession) (op : SessionOp) : Prop :=
  ∀ c, s.attempt? op = some c → s.meter.consumed.toNat + c.size ≤ s.meter.limit.toNat

namespace ExecuteSession

section Summary

variable {s : ExecuteSession} {ops : List SessionOp}

/-- Where no sum reaches the bound, the charges that fit are those that are not refused. -/
theorem everyStep_chargeFits_iff
    (hu : Metering.Unsaturated chargeMetering (2 ^ 64 - 1) s.meter (s.attempts ops)) :
    Run.EveryStep (fun s op => (s.step op).2) ChargeFits s ops ↔
      chargeMetering.refused s.meter (s.attempts ops) = [] := by
  induction ops generalizing s with
  | nil => simp [Run.EveryStep, attempts, Metering.refused]
  | cons op ops ih =>
    -- a run that does not saturate does not saturate from its second step on
    have htail := charge_saturates.unsaturated_after hu
    rw [← (step_eq_attempt op).1] at htail
    rw [Run.EveryStep, ih htail, attempts, Metering.refused_append, List.append_eq_nil_iff,
      ← (step_eq_attempt op).1]
    refine and_congr_left' ?_
    unfold ChargeFits
    rw [attempts] at hu
    cases hattempt : s.attempt? op with
    | none => simp [Metering.refused]
    | some c =>
      rw [hattempt] at hu
      rw [Option.toList_some, Metering.refused_singleton,
        -- below the bound, a charge succeeds exactly if it fits
        (charge_saturates.charge_exact hu.head).1]
      exact ⟨fun h => h c rfl, fun h c' hc' => by rwa [← Option.some.inj hc']⟩

/-- What the summary says after a run from empty counts: all that was tried, allowed or not. -/
theorem toNat_ofKind_after (hsummary : s.gasSummary = .zero) (kind : ChargeKind) :
    ((s.after ops).gasSummary.ofKind kind).toNat = cap (2 ^ 64 - 1)
      (total (Charge.sizeOf kind) (chargeMetering.succeeded s.meter (s.attempts ops))
        + total (Charge.sizeOf kind) (chargeMetering.refused s.meter (s.attempts ops))) := by
  rw [gasSummary_after, Metering.total_succeeded_add_refused, hsummary]
  exact MoveGasSummary.toNat_ofKind_foldl _ kind

variable (hempty : s.meter.consumed.toNat = 0)
  (hbelow : total Charge.size (chargeMetering.succeeded s.meter (s.attempts ops)) < 2 ^ 64)
include hempty hbelow

/-- What succeeds below the bound never saturates the meter. -/
theorem unsaturated_attempts :
    Metering.Unsaturated chargeMetering (2 ^ 64 - 1) s.meter (s.attempts ops) := by
  rw [charge_saturates.unsaturated_iff, charge_saturates.charged_eq_total]
  show s.meter.consumed.toNat + total Charge.size _ ≤ _
  omega

/-- What the meter says after a run from empty counts: all that was allowed. -/
theorem toNat_consumed_after :
    (s.after ops).meter.consumed.toNat
      = total Charge.size (chargeMetering.succeeded s.meter (s.attempts ops)) := by
  have hcount := charge_saturates.consumed_after (unsaturated_attempts hempty hbelow)
  rw [← meter_after, charge_saturates.charged_eq_total] at hcount
  have hsum : (s.after ops).meter.consumed.toNat = s.meter.consumed.toNat + _ := hcount
  rw [hsum, hempty]
  exact Nat.zero_add _

/-- A refused charge is in the summary, in the field of its kind, which is far from the bound. -/
theorem refused_eq_nil_of_fields (hsummary : s.gasSummary = .zero)
    (hfields : ∀ kind, ((s.after ops).gasSummary.ofKind kind).toNat
      = total (Charge.sizeOf kind) (chargeMetering.succeeded s.meter (s.attempts ops))) :
    chargeMetering.refused s.meter (s.attempts ops) = [] := by
  by_contra hrefused
  -- the field of the kind of a refused charge is larger than what succeeded of that kind
  obtain ⟨c, hc⟩ := List.exists_mem_of_ne_nil _ hrefused
  obtain ⟨hlimit, hpos⟩ := charge_saturates.of_mem_refused hc
  -- the field of that kind has the refused charge in it, or is at the bound
  have hkind := hfields c.kind
  rw [toNat_ofKind_after hsummary] at hkind
  have hsize : 0 < Charge.sizeOf c.kind c := by
    rw [Charge.sizeOf, if_pos rfl]
    exact hpos
  have hle := Nat.lt_of_lt_of_le hsize (Saturating.le_total_of_mem hc)
  have hcount := charge_saturates.consumed_le (s.after ops).meter
  have hsame : chargeMetering.limit (s.after ops).meter = chargeMetering.limit s.meter := by
    rw [meter_after]
    exact charge_saturates.limit_after _ _
  have hconsumed := toNat_consumed_after hempty hbelow
  have hsplit := Charge.total_size_eq (chargeMetering.succeeded s.meter (s.attempts ops))
  -- what succeeded of one kind is part of what was consumed
  have hpart : total (Charge.sizeOf c.kind) (chargeMetering.succeeded s.meter (s.attempts ops))
      ≤ chargeMetering.consumed (s.after ops).meter := by
    show _ ≤ (s.after ops).meter.consumed.toNat
    cases c.kind <;> omega
  unfold cap at hkind
  omega

/-- If nothing is refused, both counts are the sum of what was charged. -/
theorem counts_of_refused_eq_nil (hsummary : s.gasSummary = .zero)
    (hrefused : chargeMetering.refused s.meter (s.attempts ops) = []) :
    (s.after ops).gasSummary.total = (s.after ops).meter.consumed
    ∧ ∀ kind, ((s.after ops).gasSummary.ofKind kind).toNat
      = total (Charge.sizeOf kind) (chargeMetering.succeeded s.meter (s.attempts ops)) := by
  have hsplit := Charge.total_size_eq (chargeMetering.succeeded s.meter (s.attempts ops))
  have hexact : ∀ kind, ((s.after ops).gasSummary.ofKind kind).toNat
      = total (Charge.sizeOf kind) (chargeMetering.succeeded s.meter (s.attempts ops)) := by
    intro kind
    rw [toNat_ofKind_after hsummary, hrefused, Saturating.total_nil, Nat.add_zero]
    refine Saturating.cap_of_le ?_
    cases kind <;> omega
  refine ⟨?_, hexact⟩
  rw [← UInt64.toNat_inj, MoveGasSummary.toNat_total, hexact, hexact, hexact, ← hsplit,
    ← toNat_consumed_after hempty hbelow]
  exact Saturating.cap_of_le (toNat_le_u64Max _)

end Summary

end ExecuteSession

/-- **The summary.** The two counts of a session agree if and only if the charges that succeeded
come to more than a `u64` holds, or every charge that was tried was within what was left of the
limit. -/
theorem summaryBalances_iff (kind : SessionKind) (sender : AccountAddress) (gasLimit : UInt64)
    (schedule : GasSchedule) (view : NexusStateView) (ops : List SessionOp) :
    let s₀ := ExecuteSession.new kind sender gasLimit schedule view
    SummaryBalances s₀ ops ↔
      (total Charge.size (s₀.charges ops) < 2 ^ 64 →
        Run.EveryStep (fun s op => (s.step op).2) ChargeFits s₀ ops) := by
  intro s₀
  refine forall_congr' fun hbelow => ?_
  rw [ExecuteSession.charges_eq] at hbelow
  have hempty : s₀.meter.consumed.toNat = 0 := rfl
  have hsummary : s₀.gasSummary = .zero := rfl
  rw [ExecuteSession.everyStep_chargeFits_iff (ExecuteSession.unsaturated_attempts hempty hbelow),
    ExecuteSession.charges_eq]
  constructor
  · intro hbalances
    exact ExecuteSession.refused_eq_nil_of_fields hempty hbelow hsummary hbalances.2
  · exact ExecuteSession.counts_of_refused_eq_nil hempty hbelow hsummary

/-- Of two charges under a limit of 10 the first is refused and the second is not; the summary has
both. -/
theorem refused_charge_is_counted :
    ¬ SummaryBalances (.new .execute frameworkAddress 10 (.fromConfig .default)
        (Store.view KeyedStore.empty)) [.chargeExecution 20, .chargeExecution 5] := by
  intro h
  have htotal := (h (by decide)).1
  revert htotal
  decide

/-! ## Reads -/

/-- A read that returns a value has been paid for: its price, which is within what was left, has
been consumed. -/
def ReadPaidFor (s : ExecuteSession) (account : AccountAddress) (typeTag : String) : Prop :=
  ∀ bytes, (s.readResource account typeTag).1 = .ok (some bytes) →
    let price := byteSize bytes * s.schedule.readPerByte.toNat
    (s.readResource account typeTag).2.meter.consumed.toNat = s.meter.consumed.toNat + price
    ∧ price ≤ s.meter.remaining.toNat

/-- What is left of the limit covers the value that is to be read. -/
def ReadFits (s : ExecuteSession) (account : AccountAddress) (typeTag : String) : Prop :=
  ∀ bytes, s.resources.get account typeTag = .ok (some bytes) →
    byteSize bytes * s.schedule.readPerByte.toNat ≤ s.meter.remaining.toNat

namespace ExecuteSession

/-- The values that the reads of a run return. -/
def delivered : ExecuteSession → List SessionOp → List Bytes
  | _, [] => []
  | s, op :: ops =>
    (match (s.step op).1 with
      | .value (.ok (some bytes)) => [bytes]
      | _ => [])
    ++ (s.step op).2.delivered ops

end ExecuteSession

def SessionOp.PaidFor (s : ExecuteSession) : SessionOp → Prop
  | readResource account typeTag => ReadPaidFor s account typeTag
  | _ => True

/-- The condition under which an operation is paid for. -/
def SessionOp.Fits (s : ExecuteSession) : SessionOp → Prop
  | readResource account typeTag => ReadFits s account typeTag
  | _ => True

/-- Every read of a run has been paid for, and all that was read is within the limit. -/
def ReadsPaidFor (s₀ : ExecuteSession) (ops : List SessionOp) : Prop :=
  Run.EveryStep (fun s op => (s.step op).2) SessionOp.PaidFor s₀ ops
  ∧ total byteSize (s₀.delivered ops) * s₀.schedule.readPerByte.toNat ≤ s₀.meter.limit.toNat

section Reads

variable {s : ExecuteSession}

/-- A read is paid for exactly if its price fits into what remains. -/
theorem readPaidFor_iff_fits (s : ExecuteSession) (account : AccountAddress) (typeTag : String) :
    ReadPaidFor s account typeTag ↔ ReadFits s account typeTag := by
  unfold ReadPaidFor ReadFits
  rw [ExecuteSession.readResource_fst]
  refine forall_congr' fun bytes => forall_congr' fun hget => ?_
  refine ⟨And.right, fun hfits => ⟨?_, hfits⟩⟩
  -- the price is below the bound, so neither it nor the count saturates
  -- what remains, as a difference that does not wrap
  have hremaining : s.meter.remaining.toNat = s.meter.limit.toNat - s.meter.consumed.toNat :=
    toNat_remaining s.meter.consumed_le
  have hle : s.meter.consumed.toNat ≤ s.meter.limit.toNat :=
    UInt64.le_iff_toNat_le.mp s.meter.consumed_le
  have hbound := toNat_le_u64Max s.meter.remaining
  have hcost : (saturatingMul (lenU64 bytes) s.schedule.readPerByte).toNat
      = byteSize bytes * s.schedule.readPerByte.toNat := by
    rw [toNat_saturatingMul]
    exact Saturating.cap_of_le (Nat.le_trans hfits hbound)
  have hmeter := (ExecuteSession.step_eq_attempt (s := s) (.readResource account typeTag)).1
  simp only [ExecuteSession.attempt?, hget, Option.map_some, Option.getD_some, Option.toList_some]
    at hmeter
  -- the charge of the read fits, so the meter takes it
  have hstep := charge_saturates.consumed_step (m := s.meter)
    (c := ⟨.io, saturatingMul (lenU64 bytes) s.schedule.readPerByte⟩) (by
      show s.meter.consumed.toNat + (saturatingMul _ _).toNat ≤ s.meter.limit.toNat
      omega)
  rw [← hcost]
  exact (congrArg (fun m => m.consumed.toNat) hmeter).trans hstep

theorem paidFor_iff_fits (s : ExecuteSession) (op : SessionOp) : op.PaidFor s ↔ op.Fits s := by
  cases op with
  | readResource account typeTag => exact readPaidFor_iff_fits s account typeTag
  | _ => exact Iff.rfl

namespace ExecuteSession

/-- No operation gives gas back. -/
theorem consumed_le_step (op : SessionOp) :
    s.meter.consumed.toNat ≤ (s.step op).2.meter.consumed.toNat := by
  rw [(step_eq_attempt op).1]
  exact charge_saturates.consumed_le_after s.meter _

/-- What a run of reads that are paid for has consumed covers what they returned. -/
theorem delivered_le {ops : List SessionOp}
    (h : Run.EveryStep (fun s op => (s.step op).2) SessionOp.PaidFor s ops) :
    s.meter.consumed.toNat + total byteSize (s.delivered ops) * s.schedule.readPerByte.toNat
      ≤ (s.after ops).meter.consumed.toNat := by
  -- by induction on the run: each read consumes its price, and nothing lowers the count
  induction ops generalizing s with
  | nil =>
    show _ + 0 * _ ≤ s.meter.consumed.toNat
    omega
  | cons op ops ih =>
    obtain ⟨hpaid, hrest⟩ := h
    have htail := ih (s := (s.step op).2) hrest
    rw [(step_eq_attempt op).2.2] at htail
    -- what the step returned is what it consumed
    have hhead : ∀ bytes, (s.step op).1 = .value (.ok (some bytes)) →
        (s.step op).2.meter.consumed.toNat
          = s.meter.consumed.toNat + byteSize bytes * s.schedule.readPerByte.toNat := by
      intro bytes hresult
      cases op with
      | readResource a t =>
        exact (hpaid bytes (SessionResult.value.inj hresult)).1
      | _ => cases hresult
    have hmono := consumed_le_step (s := s) op
    show _ + total byteSize (_ ++ (s.step op).2.delivered ops) * _
      ≤ ((s.step op).2.after ops).meter.consumed.toNat
    rw [Saturating.total_append, Nat.add_mul]
    split
    · next bytes hresult =>
      have hread := hhead bytes hresult
      rw [Saturating.total_cons, Saturating.total_nil, Nat.add_zero]
      omega
    · rw [Saturating.total_nil]
      omega

end ExecuteSession

end Reads

/-- **Reads.** A read is paid for if and only if what is left of the limit covers its value. A run
of a session reads no more than its limit pays for, each read at its price, if and only if every one
of its reads is covered. -/
theorem readsPaidFor_iff (kind : SessionKind) (sender : AccountAddress) (gasLimit : UInt64)
    (schedule : GasSchedule) (view : NexusStateView) (ops : List SessionOp) :
    let s₀ := ExecuteSession.new kind sender gasLimit schedule view
    (∀ s account typeTag, ReadPaidFor s account typeTag ↔ ReadFits s account typeTag)
    ∧ (ReadsPaidFor s₀ ops ↔ Run.EveryStep (fun s op => (s.step op).2) SessionOp.Fits s₀ ops) := by
  intro s₀
  refine ⟨readPaidFor_iff_fits, ?_⟩
  have hsteps : SessionOp.PaidFor = SessionOp.Fits :=
    funext fun s => funext fun op => propext (paidFor_iff_fits s op)
  rw [ReadsPaidFor, ← hsteps, and_iff_left_iff_imp]
  intro hpaid
  have hdelivered := ExecuteSession.delivered_le hpaid
  have hmeter := ExecuteSession.meter_after (s := s₀) ops
  have hconsumed := charge_saturates.consumed_le (s₀.after ops).meter
  have hlimit := charge_saturates.limit_after s₀.meter (s₀.attempts ops)
  rw [← hmeter] at hlimit
  rw [hlimit] at hconsumed
  have hcount : (s₀.after ops).meter.consumed.toNat ≤ s₀.meter.limit.toNat := hconsumed
  omega

/-- A session without gas reads a resource of one byte. -/
theorem read_without_gas :
    ¬ ReadsPaidFor (.new .execute frameworkAddress 0 (.fromConfig .default)
        (Store.view (KeyedStore.empty.write
          ((frameworkAddress, ResourceStore.resourceKey "0x1::a::B"), some [7]))))
      [.readResource frameworkAddress "0x1::a::B"] := by
  intro h
  have hdelivered := h.2
  revert hdelivered
  decide

end NexusMove
