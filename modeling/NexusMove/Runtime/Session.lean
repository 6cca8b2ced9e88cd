import Mathlib.Data.Finset.Sort
import Mathlib.Data.List.Lex
import Mathlib.Data.Prod.Lex
import NexusMove.Lib.Run
import NexusMove.Runtime.GasMeter

/-!
# Execute sessions

`session.rs` and `resources.rs`. A session reads and writes resources under their
type tags. What it writes goes into an overlay over the state it was opened on; a
commit turns the overlay into the two forms of an output, an abort drops it. Every
access is charged on the session's meter.

* `ResourceStore` — the overlay, and the changes it turns into.
* `ExecuteSession.step` — one operation of a session, with what it returns.
* `session_refines_store` — what a session reads, and what a commit leaves.
-/

namespace NexusMove

/-! ## The overlay -/

/-- The order of a `BTreeMap` over storage locations: by address, then by key, both read byte by
byte. -/
def locationRank (location : AccountAddress × Bytes) : Lex (List Nat × List Nat) :=
  toLex (location.1.intoBytes.map UInt8.toNat, location.2.map UInt8.toNat)

/-- No two locations have one rank. -/
theorem locationRank_injective : Function.Injective locationRank := by
  rintro ⟨a, k⟩ ⟨b, l⟩ h
  have hbytes : Function.Injective (List.map UInt8.toNat) :=
    List.map_injective_iff.mpr fun _ _ => UInt8.toNat_inj.mp
  obtain ⟨ha, hk⟩ := Prod.mk.inj (toLex.injective h)
  exact Prod.ext (AccountAddress.intoBytes_injective (hbytes ha)) (hbytes hk)

/-- The order of `BTreeMap`: by address, then by key. -/
def LocationLE (x y : AccountAddress × Bytes) : Prop := locationRank x ≤ locationRank y

instance : DecidableRel LocationLE :=
  fun x y => inferInstanceAs (Decidable (locationRank x ≤ locationRank y))

instance : IsTrans (AccountAddress × Bytes) LocationLE := ⟨fun _ _ _ => le_trans⟩

instance : Std.Antisymm LocationLE := ⟨fun _ _ h h' => locationRank_injective (le_antisymm h h')⟩

instance : Std.Total LocationLE := ⟨fun _ _ => le_total _ _⟩

/-- What was written lies over the view, and the view is never written. -/
structure ResourceStore where
  view : NexusStateView
  overlay : WriteSet

namespace ResourceStore

/-- In front of every type tag, so that resources and modules never share a key. -/
def resourceKeyPrefix : Bytes := "resource::".utf8

/-- `resource_key`: the key of a session's resource, its type tag as text behind a prefix. -/
def resourceKey (typeTag : String) : Bytes := resourceKeyPrefix ++ typeTag.utf8

theorem resourceKey_injective : Function.Injective resourceKey := by
  intro s t h
  exact utf8_injective (List.append_cancel_left h)

def new (view : NexusStateView) : ResourceStore where
  view := view
  overlay := ∅

variable (s : ResourceStore)

/-- The overlay first: what it says to be deleted is not looked up in the view. -/
def get (account : AccountAddress) (typeTag : String) : VmResult (Option Bytes) :=
  match s.overlay.lookup (account, resourceKey typeTag) with
  | some entry => .ok entry
  | none => s.view.getResource account (resourceKey typeTag)

def set (account : AccountAddress) (typeTag : String) (value : Bytes) : ResourceStore :=
  { s with overlay := s.overlay.insert (account, resourceKey typeTag) (some value) }

/-- A removal is an entry of the overlay without a value. -/
def remove (account : AccountAddress) (typeTag : String) : ResourceStore :=
  { s with overlay := s.overlay.insert (account, resourceKey typeTag) none }

/-- The overlay, and its entries in the order of the map. -/
def intoChanges : WriteSet × List StateChange :=
  (s.overlay,
    (WriteMap.entriesAt s.overlay (s.overlay.keys.sort LocationLE)).map fun entry =>
      { account := entry.1.1, key := entry.1.2, value := entry.2 })

end ResourceStore

/-! ## Sessions -/

/-- What was charged, by what it was charged for. -/
structure MoveGasSummary where
  executionGas : UInt64
  ioGas : UInt64
  storageFee : UInt64
deriving DecidableEq

namespace MoveGasSummary

def zero : MoveGasSummary where
  executionGas := 0
  ioGas := 0
  storageFee := 0

variable (summary : MoveGasSummary) (amount : UInt64)

def addExecution : MoveGasSummary :=
  { summary with executionGas := saturatingAdd summary.executionGas amount }

def addIo : MoveGasSummary := { summary with ioGas := saturatingAdd summary.ioGas amount }

def addStorage : MoveGasSummary :=
  { summary with storageFee := saturatingAdd summary.storageFee amount }

/-- `total`, with each of the two additions saturating. -/
def total : UInt64 :=
  saturatingAdd (saturatingAdd summary.executionGas summary.ioGas) summary.storageFee

end MoveGasSummary

inductive SessionKind where
  | publish | execute | readOnly
deriving DecidableEq

/-- Why a write fails: the session only reads, or the meter refuses. -/
inductive WriteError where
  | readOnly | outOfGas
deriving DecidableEq

structure ExecuteSession where
  kind : SessionKind
  sender : AccountAddress
  meter : SimpleGasMeter
  schedule : GasSchedule
  resources : ResourceStore
  gasSummary : MoveGasSummary

namespace ExecuteSession

def new (kind : SessionKind) (sender : AccountAddress) (gasLimit : UInt64) (schedule : GasSchedule)
    (view : NexusStateView) : ExecuteSession where
  kind := kind
  sender := sender
  meter := .new gasLimit
  schedule := schedule
  resources := .new view
  gasSummary := .zero

section Operations

variable (s : ExecuteSession)

/-- What the three charges share: the summary counts the amount whether or not the meter allows it,
and a failure of the meter becomes an error of its own. -/
def charge (count : MoveGasSummary → UInt64 → MoveGasSummary) (amount : UInt64) :
    Except WriteError Unit × ExecuteSession :=
  let gasSummary := count s.gasSummary amount
  match s.meter.charge amount with
  | .ok meter => (.ok (), { s with meter, gasSummary })
  | .error _ => (.error .outOfGas, { s with gasSummary })

def chargeExecution (amount : UInt64) : Except WriteError Unit × ExecuteSession :=
  s.charge .addExecution amount

def chargeIo (amount : UInt64) : Except WriteError Unit × ExecuteSession :=
  s.charge .addIo amount

def chargeStorage (amount : UInt64) : Except WriteError Unit × ExecuteSession :=
  s.charge .addStorage amount

/-- A read is charged for after the fact, and returns its value also where the charge fails. -/
def readResource (account : AccountAddress) (typeTag : String) :
    VmResult (Option Bytes) × ExecuteSession :=
  match s.resources.get account typeTag with
  | .error e => (.error e, s)
  | .ok value =>
    let readCost := (value.map fun bytes =>
      saturatingMul (lenU64 bytes) s.schedule.readPerByte).getD 0
    (.ok value, (s.chargeIo readCost).2)

/-- `write_resource`: refused, or charged by the byte and then written. -/
def writeResource (account : AccountAddress) (typeTag : String) (value : Bytes) :
    Except WriteError Unit × ExecuteSession :=
  if s.kind = .readOnly then (.error .readOnly, s)
  else
    match s.chargeStorage (saturatingMul (lenU64 value) s.schedule.writePerByte) with
    | (.error e, s) => (.error e, s)
    | (.ok (), s) => (.ok (), { s with resources := s.resources.set account typeTag value })

/-- `resources.remove`, which is neither charged nor asked for the kind of the session. -/
def removeResource (account : AccountAddress) (typeTag : String) : ExecuteSession :=
  { s with resources := s.resources.remove account typeTag }

def commit (status : VmStatus) : VmOutput where
  status := status
  gasUsed := s.meter.consumed
  stateChanges := s.resources.intoChanges.2
  writeSet := s.resources.intoChanges.1
  events := []
  returnValues := []

def abort (status : VmStatus) : VmOutput := .withoutEffects status s.meter.consumed

end Operations

end ExecuteSession

/-! ## Runs of a session -/

/-- An operation of a session, with its arguments. -/
inductive SessionOp where
  | readResource (account : AccountAddress) (typeTag : String)
  | writeResource (account : AccountAddress) (typeTag : String) (value : Bytes)
  | remove (account : AccountAddress) (typeTag : String)
  | chargeExecution (amount : UInt64)
  | chargeIo (amount : UInt64)
  | chargeStorage (amount : UInt64)

/-- What an operation gives back. -/
inductive SessionResult where
  | value (result : VmResult (Option Bytes))
  | done (result : Except WriteError Unit)

/-- A resource, as the operations of a session name it. -/
abbrev ResourceName := AccountAddress × String

/-- Where a resource is stored. -/
def ResourceName.location (r : ResourceName) : AccountAddress × Bytes :=
  (r.1, ResourceStore.resourceKey r.2)

theorem ResourceName.location_injective : Function.Injective ResourceName.location := by
  rintro ⟨a, s⟩ ⟨b, t⟩ h
  obtain ⟨ha, hkey⟩ := Prod.mk.inj h
  exact Prod.ext ha (ResourceStore.resourceKey_injective hkey)

/-- The write an operation made: none if it did not write, or was not allowed to. -/
def SessionOp.write? : SessionOp → SessionResult → Option (ResourceName × Option Bytes)
  | writeResource account typeTag value, .done (.ok ()) => some ((account, typeTag), some value)
  | remove account typeTag, _ => some ((account, typeTag), none)
  | _, _ => none

namespace ExecuteSession

def step (s : ExecuteSession) : SessionOp → SessionResult × ExecuteSession
  | .readResource account typeTag => (s.readResource account typeTag).map .value id
  | .writeResource account typeTag value => (s.writeResource account typeTag value).map .done id
  | .remove account typeTag => (.done (.ok ()), s.removeResource account typeTag)
  | .chargeExecution amount => (s.chargeExecution amount).map .done id
  | .chargeIo amount => (s.chargeIo amount).map .done id
  | .chargeStorage amount => (s.chargeStorage amount).map .done id

/-- The session after some operations. -/
def after (s : ExecuteSession) (ops : List SessionOp) : ExecuteSession :=
  Run.exec (fun s op => (s.step op).2) s ops

/-- What the operations return. -/
def results : ExecuteSession → List SessionOp → List SessionResult
  | _, [] => []
  | s, op :: ops => (s.step op).1 :: (s.step op).2.results ops

/-- The writes and removals that took place, in order. -/
def writes : ExecuteSession → List SessionOp → List (ResourceName × Option Bytes)
  | _, [] => []
  | s, op :: ops => (op.write? (s.step op).1).toList ++ (s.step op).2.writes ops

/-! ## What one operation changes -/

section Steps

variable {s : ExecuteSession}

/-- Nothing but the meter and the summary differs, and the limit of the meter does not. -/
structure Charged (s s' : ExecuteSession) : Prop where
  kind : s'.kind = s.kind
  limit : s'.meter.limit = s.meter.limit
  resources : s'.resources = s.resources

/-- A charge that fails leaves the resources alone like one that goes through. -/
theorem charged_charge (count : MoveGasSummary → UInt64 → MoveGasSummary) (amount : UInt64) :
    Charged s (s.charge count amount).2 := by
  unfold charge
  dsimp only
  split
  · next meter hmeter => exact ⟨rfl, (SimpleGasMeter.charge_eq_ok.mp hmeter).1, rfl⟩
  · exact ⟨rfl, rfl, rfl⟩

/-- Reading gives what the store has, whatever the charge answers. -/
theorem readResource_fst (account : AccountAddress) (typeTag : String) :
    (s.readResource account typeTag).1 = s.resources.get account typeTag := by
  unfold readResource
  cases s.resources.get account typeTag <;> rfl

/-- Reading charges, and that is all. -/
theorem charged_readResource (account : AccountAddress) (typeTag : String) :
    Charged s (s.readResource account typeTag).2 := by
  unfold readResource
  cases s.resources.get account typeTag with
  | error e => exact ⟨rfl, rfl, rfl⟩
  | ok value => exact charged_charge _ _

/-- What a write does: it fails and changes no resource, or it goes into the overlay. -/
theorem writeResource_cases (account : AccountAddress) (typeTag : String) (value : Bytes) :
    (∃ e, (s.writeResource account typeTag value).1 = .error e
      ∧ Charged s (s.writeResource account typeTag value).2)
    ∨ (s.kind ≠ .readOnly ∧ (s.writeResource account typeTag value).1 = .ok ()
      ∧ ∃ s', Charged s s' ∧ (s.writeResource account typeTag value).2 =
        { s' with resources := s'.resources.set account typeTag value }) := by
  unfold writeResource
  split_ifs with hkind
  · -- refused before anything is charged
    exact .inl ⟨.readOnly, rfl, rfl, rfl, rfl⟩
  · have hcharged : Charged s
        (s.chargeStorage (saturatingMul (lenU64 value) s.schedule.writePerByte)).2 :=
      charged_charge _ _
    -- by what the charge answers
    cases hcharge : s.chargeStorage (saturatingMul (lenU64 value) s.schedule.writePerByte) with
    | mk result s' =>
      rw [hcharge] at hcharged
      cases result with
      | error e => exact .inl ⟨e, rfl, hcharged⟩
      | ok u => exact .inr ⟨hkind, rfl, s', hcharged, rfl⟩

end Steps

/-! ## The overlay as a write list -/

/-- The invariant of a run: a session opened on `σ` as `s₀`, in which the writes `ws` took place. -/
structure Overlays (σ : Store) (s₀ s : ExecuteSession) (ws : List (ResourceName × Option Bytes)) :
    Prop where
  kind : s.kind = s₀.kind
  limit : s.meter.limit = s₀.meter.limit
  view : s.resources.view = σ.view
  overlay : WriteMap.Represents s.resources.overlay (ws.map fun w => (w.1.location, w.2))

section Runs

variable {σ : Store} {s₀ s : ExecuteSession} {ws : List (ResourceName × Option Bytes)}

/-- Gas is no part of the simulation. -/
theorem Overlays.charged (h : Overlays σ s₀ s ws) {s' : ExecuteSession} (hs : Charged s s') :
    Overlays σ s₀ s' ws where
  kind := hs.kind.trans h.kind
  limit := hs.limit.trans h.limit
  view := by rw [hs.resources]; exact h.view
  overlay := by rw [hs.resources]; exact h.overlay

/-- An entry of the overlay is one more write. -/
theorem Overlays.insert (h : Overlays σ s₀ s ws) (r : ResourceName) (value : Option Bytes) :
    Overlays σ s₀ { s with resources := { s.resources with
      overlay := s.resources.overlay.insert r.location value } } (ws ++ [(r, value)]) where
  kind := h.kind
  limit := h.limit
  view := h.view
  overlay := by
    rw [List.map_append]
    exact h.overlay.insert r.location value

/-- **Steps.** An operation adds what it has written to the list, or nothing. -/
theorem Overlays.step (h : Overlays σ s₀ s ws) (op : SessionOp) :
    Overlays σ s₀ (s.step op).2 (ws ++ (op.write? (s.step op).1).toList) := by
  -- an operation that writes nothing leaves the list as it is
  have hquiet : ∀ {s' : ExecuteSession}, Charged s s' → Overlays σ s₀ s' (ws ++ []) := by
    intro s' hs
    rw [List.append_nil]
    exact h.charged hs
  cases op with
  -- reads and charges write nothing
  | readResource a t => exact hquiet (charged_readResource a t)
  | writeResource a t value =>
    rcases writeResource_cases (s := s) a t value with ⟨e, he, hs⟩ | ⟨-, hok, s', hs, heq⟩
    · simp only [ExecuteSession.step, Prod.map_fst, Prod.map_snd, id_eq, he]
      exact hquiet hs
    · simp only [ExecuteSession.step, Prod.map_fst, Prod.map_snd, id_eq, hok, heq]
      exact (h.charged hs).insert (a, t) (some value)
  -- a removal is not charged and always succeeds
  | remove a t => exact h.insert (a, t) none
  | chargeExecution n => exact hquiet (charged_charge _ n)
  | chargeIo n => exact hquiet (charged_charge _ n)
  | chargeStorage n => exact hquiet (charged_charge _ n)

/-- **Runs.** The writes of a run are those of its operations in a row. -/
theorem Overlays.run (h : Overlays σ s₀ s ws) (ops : List SessionOp) :
    Overlays σ s₀ (s.after ops) (ws ++ s.writes ops) := by
  induction ops generalizing s ws with
  | nil =>
    rw [writes, List.append_nil]
    exact h
  | cons op ops ih =>
    have htail := ih (h.step op)
    rw [List.append_assoc] at htail
    exact htail

/-- A new session overlays the store with nothing. -/
theorem overlays_after (σ : Store) (kind : SessionKind) (sender : AccountAddress)
    (gasLimit : UInt64) (schedule : GasSchedule) (ops : List SessionOp) :
    Overlays σ (new kind sender gasLimit schedule σ.view)
      ((new kind sender gasLimit schedule σ.view).after ops)
      ((new kind sender gasLimit schedule σ.view).writes ops) := by
  have hnew : Overlays σ (new kind sender gasLimit schedule σ.view)
      (new kind sender gasLimit schedule σ.view) [] :=
    ⟨rfl, rfl, rfl, WriteMap.represents_empty⟩
  exact hnew.run ops

variable (h : Overlays σ s₀ s ws)
include h

/-- What the overlay holds for a resource is what was written to it last. -/
theorem Overlays.lookup (r : ResourceName) :
    s.resources.overlay.lookup r.location = KeyedStore.lastWrite ws r := by
  rw [h.overlay]
  exact KeyedStore.lastWrite_map ResourceName.location_injective ws r

/-- The overlay has no keys but those of resources. -/
theorem Overlays.lookup_of_ne {l : AccountAddress × Bytes}
    (hl : ∀ r : ResourceName, l ≠ r.location) :
    s.resources.overlay.lookup l = none := by
  rw [h.overlay l, KeyedStore.lastWrite_eq_none_iff]
  intro w hw
  obtain ⟨w, -, rfl⟩ := List.mem_map.mp hw
  exact (hl w.1).symm

/-- **Reading.** The last write of the resource, or what the state below holds. -/
theorem Overlays.get (a : AccountAddress) (t : String) :
    s.resources.get a t =
      .ok ((KeyedStore.lastWrite ws (a, t)).getD (σ (a, ResourceStore.resourceKey t))) := by
  have hlookup := h.lookup (a, t)
  unfold ResourceStore.get
  rw [ResourceName.location] at hlookup
  rw [hlookup, h.view, Store.view_getResource]
  cases KeyedStore.lastWrite ws (a, t) <;> rfl

/-- **Committing.** The overlay applied to the state below gives what the session read. -/
theorem Overlays.get_eq_applyWriteSet (a : AccountAddress) (t : String) :
    s.resources.get a t =
      .ok (σ.applyWriteSet s.resources.overlay (a, ResourceStore.resourceKey t)) := by
  have hlookup := h.lookup (a, t)
  rw [ResourceName.location] at hlookup
  rw [h.get a t, Store.applyWriteSet, KeyedStore.applyMap, hlookup]

end Runs

/-! ## Read-only sessions -/

/-- A session that may not write writes nothing, unless a resource is removed past its checks. -/
theorem writes_of_readOnly {s : ExecuteSession} (hkind : s.kind = .readOnly) {ops : List SessionOp}
    (hops : ∀ a t, SessionOp.remove a t ∉ ops) : s.writes ops = [] := by
  induction ops generalizing s with
  | nil => rfl
  | cons op ops ih =>
    have hrest : ∀ a t, SessionOp.remove a t ∉ ops := fun a t hmem =>
      hops a t (List.mem_cons_of_mem _ hmem)
    have hnext : (s.step op).2.kind = .readOnly ∧ op.write? (s.step op).1 = none := by
      cases op with
      | readResource a t => exact ⟨(charged_readResource a t).kind.trans hkind, rfl⟩
      | writeResource a t value =>
        rcases writeResource_cases (s := s) a t value with ⟨e, he, hs⟩ | ⟨hne, -⟩
        · -- a refused write writes nothing, and the session stays read-only
          exact ⟨hs.kind.trans hkind, by simp [step, SessionOp.write?, he]⟩
        · exact absurd hkind hne
      -- the operation that the hypothesis excludes
      | remove a t => exact absurd List.mem_cons_self (hops a t)
      | chargeExecution n => exact ⟨(charged_charge _ n).kind.trans hkind, rfl⟩
      | chargeIo n => exact ⟨(charged_charge _ n).kind.trans hkind, rfl⟩
      | chargeStorage n => exact ⟨(charged_charge _ n).kind.trans hkind, rfl⟩
    rw [writes, hnext.2, ih hnext.1 hrest]
    rfl

/-! ## Failing writes -/

/-- Two sessions that differ in their summaries, if at all. -/
def Alike (s s' : ExecuteSession) : Prop := ∃ summary, s' = { s with gasSummary := summary }

/-- Equal results, and sessions that are alike. -/
def SameOutcome {α : Type} (x y : α × ExecuteSession) : Prop := x.1 = y.1 ∧ Alike x.2 y.2

section Alike

variable {s s' : ExecuteSession} (h : Alike s s')
include h

/-- A charge looks at the meter and not at the summary. -/
theorem Alike.charge (count : MoveGasSummary → UInt64 → MoveGasSummary) (amount : UInt64) :
    SameOutcome (s.charge count amount) (s'.charge count amount) := by
  obtain ⟨summary, rfl⟩ := h
  unfold ExecuteSession.charge
  dsimp only
  cases s.meter.charge amount with
  | error e => exact ⟨rfl, count summary amount, rfl⟩
  | ok meter => exact ⟨rfl, count summary amount, rfl⟩

/-- Reading gives the same result and charges the same. -/
theorem Alike.readResource (a : AccountAddress) (t : String) :
    SameOutcome (s.readResource a t) (s'.readResource a t) := by
  have hio := h.charge .addIo
  obtain ⟨summary, rfl⟩ := h
  unfold ExecuteSession.readResource
  cases s.resources.get a t with
  | error e => exact ⟨rfl, summary, rfl⟩
  | ok value => exact ⟨rfl, (hio _).2⟩

/-- Writing fails for both or for neither. -/
theorem Alike.writeResource (a : AccountAddress) (t : String) (value : Bytes) :
    SameOutcome (s.writeResource a t value) (s'.writeResource a t value) := by
  have hstorage : SameOutcome
      (s.chargeStorage (saturatingMul (lenU64 value) s.schedule.writePerByte))
      (s'.chargeStorage (saturatingMul (lenU64 value) s.schedule.writePerByte)) := h.charge _ _
  obtain ⟨summary, rfl⟩ := h
  unfold ExecuteSession.writeResource
  dsimp only
  split_ifs with hkind
  · exact ⟨rfl, summary, rfl⟩
  · -- both charges end in the same way
    obtain ⟨hresult, hnext⟩ := hstorage
    revert hresult hnext
    cases s.chargeStorage (saturatingMul (lenU64 value) s.schedule.writePerByte) with
    | mk result t =>
      cases ExecuteSession.chargeStorage { s with gasSummary := summary }
          (saturatingMul (lenU64 value) s.schedule.writePerByte) with
      | mk result' t' =>
        intro hresult hnext
        obtain rfl : result = result' := hresult
        obtain ⟨summary', rfl⟩ : Alike t t' := hnext
        cases result with
        | error e => exact ⟨rfl, summary', rfl⟩
        | ok u => exact ⟨rfl, summary', rfl⟩

/-- Every operation has the same outcome in sessions that differ in their summaries. -/
theorem Alike.step (op : SessionOp) : SameOutcome (s.step op) (s'.step op) := by
  -- wrapping a result keeps the outcomes the same
  have hmap : ∀ {α : Type} {x y : α × ExecuteSession} (f : α → SessionResult), SameOutcome x y →
      SameOutcome (x.map f id) (y.map f id) := fun f hxy => ⟨congrArg f hxy.1, hxy.2⟩
  cases op with
  | readResource a t => exact hmap _ (h.readResource a t)
  | writeResource a t value => exact hmap _ (h.writeResource a t value)
  | remove a t =>
    obtain ⟨summary, rfl⟩ := h
    exact ⟨rfl, summary, rfl⟩
  | chargeExecution n => exact hmap _ (h.charge _ n)
  | chargeIo n => exact hmap _ (h.charge _ n)
  | chargeStorage n => exact hmap _ (h.charge _ n)

/-- Summaries have no influence on what a session returns. -/
theorem Alike.results (ops : List SessionOp) : s.results ops = s'.results ops := by
  induction ops generalizing s s' with
  | nil => rfl
  | cons op ops ih =>
    have hstep := h.step op
    rw [ExecuteSession.results, ExecuteSession.results, hstep.1, ih hstep.2]

end Alike

/-- A charge that fails counts in the summary and nowhere else. -/
theorem alike_of_charge {s : ExecuteSession} {count : MoveGasSummary → UInt64 → MoveGasSummary}
    {e : WriteError} (amount : UInt64) (h : (s.charge count amount).1 = .error e) :
    Alike s (s.charge count amount).2 := by
  unfold ExecuteSession.charge at h ⊢
  dsimp only at h ⊢
  cases hmeter : s.meter.charge amount with
  | ok meter =>
    rw [hmeter] at h
    cases h
  | error g => exact ⟨_, rfl⟩

/-- A write that fails has changed the summary at most. -/
theorem alike_of_writeResource {s : ExecuteSession} {a : AccountAddress} {t : String}
    {value : Bytes}
    {e : WriteError} (h : (s.writeResource a t value).1 = .error e) :
    Alike s (s.writeResource a t value).2 := by
  unfold ExecuteSession.writeResource at h ⊢
  split_ifs at h ⊢ with hkind
  · exact ⟨s.gasSummary, rfl⟩
  · have halike : ∀ e,
        -- a refused charge is counted in the summary, and only there
        (s.chargeStorage (saturatingMul (lenU64 value) s.schedule.writePerByte)).1 = .error e →
        Alike s (s.chargeStorage (saturatingMul (lenU64 value) s.schedule.writePerByte)).2 :=
      fun e => alike_of_charge _
    revert h halike
    cases s.chargeStorage (saturatingMul (lenU64 value) s.schedule.writePerByte) with
    | mk result s' =>
      intro h halike
      cases result with
      | error e' => exact halike e' rfl
      | ok u => cases h

end ExecuteSession

/-! ## Sessions and plain stores -/

open ExecuteSession in
/-- **A session is a plain store.** For every store below and every run of operations: a read
returns the last write or removal of the resource that took place, or what the store below holds;
a write that returns an error changes nothing that is returned later; a commit holds the last write
of each written resource and nothing else, so that applied to the store below it gives what the
session reads, and leaves every key alone under which no resource was written; a read-only session
commits nothing; and neither ending uses more gas than the limit. -/
theorem session_refines_store (σ : Store) (kind : SessionKind) (sender : AccountAddress)
    (gasLimit : UInt64) (schedule : GasSchedule) (ops : List SessionOp) (status : VmStatus) :
    let s₀ := ExecuteSession.new kind sender gasLimit schedule σ.view
    let s := s₀.after ops
    let out := s.commit status
    (∀ a t, (s.readResource a t).1 = .ok
      ((KeyedStore.lastWrite (s₀.writes ops) (a, t)).getD (σ (a, ResourceStore.resourceKey t))))
    ∧ (∀ a t value e, (s.writeResource a t value).1 = .error e →
        ∀ later, (s.writeResource a t value).2.results later = s.results later)
    ∧ (∀ a t, out.writeSet.lookup (a, ResourceStore.resourceKey t)
        = KeyedStore.lastWrite (s₀.writes ops) (a, t))
    ∧ (∀ a k, (∀ t, k ≠ ResourceStore.resourceKey t) → out.writeSet.lookup (a, k) = none)
    ∧ (∀ a t, (s.readResource a t).1
        = .ok (σ.applyWriteSet out.writeSet (a, ResourceStore.resourceKey t)))
    ∧ (∀ a k, (∀ t, k = ResourceStore.resourceKey t →
          KeyedStore.lastWrite (s₀.writes ops) (a, t) = none) →
        σ.applyWriteSet out.writeSet (a, k) = σ (a, k))
    ∧ (kind = .readOnly → (∀ a t, SessionOp.remove a t ∉ ops) →
        out.writeSet = ∅ ∧ out.stateChanges = [])
    ∧ out.gasUsed ≤ gasLimit ∧ (s.abort status).gasUsed ≤ gasLimit := by
  intro s₀ s out
  have hrun : Overlays σ s₀ s (s₀.writes ops) := overlays_after σ kind sender gasLimit schedule ops
  have hnone : ∀ a k, (∀ t, k = ResourceStore.resourceKey t →
      KeyedStore.lastWrite (s₀.writes ops) (a, t) = none) → out.writeSet.lookup (a, k) = none := by
    -- a key of a resource that was not written, or no key of a resource
    intro a k hk
    by_cases hkey : ∃ t, k = ResourceStore.resourceKey t
    · obtain ⟨t, rfl⟩ := hkey
      rw [← hk t rfl]
      exact hrun.lookup (a, t)
    · refine hrun.lookup_of_ne fun r heq => hkey ⟨r.2, ?_⟩
      exact congrArg Prod.snd heq
  -- the meter never goes past its limit
  have hgas : s.meter.consumed ≤ gasLimit := by
    have hle := s.meter.consumed_le
    rw [hrun.limit] at hle
    exact hle
  refine ⟨?_, ?_, fun a t => hrun.lookup (a, t), ?_, ?_, ?_, ?_, hgas, hgas⟩
  · intro a t
    rw [readResource_fst]
    exact hrun.get a t
  · intro a t value e herror later
    exact ((alike_of_writeResource herror).results later).symm
  · intro a k hk
    exact hnone a k fun t ht => absurd ht (hk t)
  · intro a t
    rw [readResource_fst]
    exact hrun.get_eq_applyWriteSet a t
  · intro a k hk
    exact KeyedStore.applyMap_of_lookup_none (hnone a k hk)
  · intro hkind hops
    -- nothing was written, so the overlay has no key
    have hempty : s.resources.overlay = ∅ := by
      have hrep := hrun.overlay
      rw [writes_of_readOnly hkind hops] at hrep
      exact Finmap.ext_lookup hrep
    refine ⟨hempty, ?_⟩
    show s.resources.intoChanges.2 = []
    simp [ResourceStore.intoChanges, hempty, WriteMap.entriesAt]

end NexusMove
