import NexusMove.Runtime.PackageRecord
import NexusMove.Runtime.ResourceEffects
import NexusMove.Runtime.Admission
import NexusMove.Stdlib.Event

/-!
# Event streams

Handles and generators live in resources, so they are read through the resolver and
written back through the change set of a run; the events of a run are in its event
store, and leave it with a successful output only. Each transaction is explained by
what it did with handles, starting from those that were stored; the joint invariant
of handles, generators and events is carried from one transaction to the next.

* `Explains` — the effects of a run are those of a program over handles.
* `readMemory_applyChanges` — what the next transaction reads.
* `EventTrace.Kept.invoke`, `EventTrace.Kept.publish` — one request.
* `events_form_gap_free_streams` — every run of the chain.
-/

namespace NexusMove

open Guid Event

/-! ## Resources as a memory -/

/-- The resources of all accounts, as bytes. -/
abbrev Memory := AccountAddress → StructTag → Option Bytes

/-- What the resolver finds. -/
def readMemory (v : Vendor) (state : NexusStateView) : Memory := fun a t =>
  match getResourceBytes v state a t with
  | .ok (bytes, _) => bytes
  | .error _ => none

/-- What a change set makes of a memory. -/
def ChangeSet.Updates (cs : ChangeSet) (m m' : Memory) : Prop :=
  ∀ a t, (∀ op, cs.Says a t op → m' a t = op.value)
    ∧ ((∀ op, ¬ cs.Says a t op) → m' a t = m a t)

/-- A change set leaves no choice for the memory after it. -/
theorem ChangeSet.Updates.unique {cs : ChangeSet} {m m₁ m₂ : Memory} (h₁ : cs.Updates m m₁)
    (h₂ : cs.Updates m m₂) : m₁ = m₂ := by
  funext a t
  by_cases hsays : ∃ op, cs.Says a t op
  · obtain ⟨op, hop⟩ := hsays
    rw [(h₁ a t).1 op hop, (h₂ a t).1 op hop]
  · have hsilent : ∀ op, ¬ cs.Says a t op := fun op hop => hsays ⟨op, hop⟩
    rw [(h₁ a t).2 hsilent, (h₂ a t).2 hsilent]

section Memories

variable {v : Vendor} {σ : Store}

theorem readMemory_view {t : StructTag} {k : Bytes} (h : t.toBcs = some k) (a : AccountAddress) :
    readMemory v σ.view a t = σ (a, k) := by
  rw [readMemory, getResourceBytes_view h]

/-- Without a key there is nothing to read. -/
theorem readMemory_of_not_serializable {t : StructTag} (h : t.toBcs = none) (a : AccountAddress) :
    readMemory v σ.view a t = none := by
  rw [readMemory, getResourceBytes, h]
  rfl

theorem readMemory_empty (v : Vendor) :
    readMemory v (Store.view KeyedStore.empty) = fun _ _ => none := by
  funext a t
  cases ht : t.toBcs with
  | none => exact readMemory_of_not_serializable ht a
  | some k => exact readMemory_view ht a

/-- **Across a transaction.** After the changes of a run are applied, the resolver finds the memory
its change set made. -/
theorem readMemory_applyChanges {cs : ChangeSet} (hmap : cs.IsMap) (hser : cs.Serializable) :
    cs.Updates (readMemory v σ.view) (readMemory v (σ.applyChanges (changesetToNexus cs).1).view) := by
  intro a t
  cases hkey : t.toBcs with
  | none =>
    -- no change set speaks of such a tag
    constructor
    · intro op hop
      have hsome := hser a t op hop
      rw [hkey] at hsome
      cases hsome
    · intro _
      rw [readMemory_of_not_serializable hkey, readMemory_of_not_serializable hkey]
  | some k =>
    rw [readMemory_view hkey, readMemory_view hkey, Store.applyChanges, KeyedStore.applyAll_apply]
    -- under the key of the tag, the last write counts
    constructor
    · intro op hop
      rw [ChangeSet.lastWrite_of_says hmap hser hkey hop, Option.getD_some]
    · intro hsilent
      rw [ChangeSet.lastWrite_of_silent hser hkey hsilent, Option.getD_none]

end Memories

/-! ## Handles and generators in memory -/

/-- Where the handles of a resource begin in its bytes, which its type decides. Types keep their
layouts: a stored value that a changed layout reads as a handle would be one from elsewhere. -/
abbrev HandleLayout := StructTag → Bytes → List Nat

/-- Where a handle can be: in a resource, as the `index`-th handle of it, or in the frames and on
the stack of a running program. -/
inductive Place where
  | stored (account : AccountAddress) (tag : StructTag) (index : Nat)
  | inFrames (n : Nat)

noncomputable instance : DecidableEq Place := Classical.decEq Place

def generatorTag : StructTag where
  address := frameworkAddress
  module := ⟨"guid"⟩
  name := ⟨"Generator"⟩
  typeArgs := []

/-- The generators in a memory, as their bytes are read. -/
def Memory.generators (m : Memory) : Generators := fun a =>
  (m a generatorTag).bind generatorCodec.fromBytes

/-- The handle at a place, where the layout says that there is one. -/
def Memory.handles (layout : HandleLayout) (m : Memory) : Place → Option EventHandle
  | .stored account tag index => do
    let bytes ← m account tag
    let offset ← (layout tag bytes)[index]?
    let (handle, _) ← handleCodec.decode (bytes.drop offset)
    return handle
  | .inFrames _ => none

theorem handles_none (layout : HandleLayout) :
    Memory.handles layout (fun _ _ => none) = fun _ => none := by
  funext p
  cases p <;> rfl

/-- The beginning of a transaction: handles are where they are stored. -/
def openWorld (layout : HandleLayout) (m : Memory) : HandleWorld Place where
  generators := m.generators
  handles := m.handles layout
  events := []
  created := []

/-- The effects of a run, explained: from the handles and generators in memory, actions of a program
lead to those in the memory that the change set makes, with the events that the run emitted. Handles
and generators come from nowhere else, and at the end all handles are stored. -/
structure Explains (layout : HandleLayout) (m : Memory) (ops : List (HandleOp Place))
    (effects : Effects) : Prop where
  isMap : effects.changeSet.IsMap
  serializable : effects.changeSet.Serializable
  run : ∃ m' w, effects.changeSet.Updates m m' ∧ (openWorld layout m).run ops = .ok w
    ∧ w.generators = m'.generators ∧ w.handles = m'.handles layout ∧ w.events = effects.events

/-! ## A chain with its events -/

/-- Whether a transaction took effect. -/
def succeeded : VmResult VmOutput → Bool
  | .ok out => out.status = .success
  | .error _ => false

/-- The events of a successful output. -/
def emitted : VmResult VmOutput → List ContractEvent
  | .ok out => if out.status = .success then out.events else []
  | .error _ => []

/-- A request, with what it is said to do with handles. -/
structure ExplainedRequest where
  request : ChainRequest
  ops : List (HandleOp Place)

/-- The state of the chain, the guids of all handles that were created, and all events. -/
structure EventTrace where
  store : Store
  created : List GUID
  log : List ContractEvent

namespace EventTrace

/-- Nothing stored, nothing created, nothing emitted. -/
def start : EventTrace where
  store := KeyedStore.empty
  created := []
  log := []

variable (v : Vendor) (schedule : GasSchedule) (layout : HandleLayout)

/-- The guids of the handles a request created, if it succeeded. -/
noncomputable def createdBy (σ : Store) (r : ExplainedRequest) : List GUID :=
  match r.request with
  | .publish _ => []
  | .invoke _ _ =>
    if succeeded (r.request.result v schedule σ.view) then
      match (openWorld layout (readMemory v σ.view)).run r.ops with
      | .ok w => w.created
      | .error _ => []
    else []

/-- The trace after one request. -/
noncomputable def next (tr : EventTrace) (r : ExplainedRequest) : EventTrace where
  store := transact v schedule tr.store r.request
  created := tr.created ++ createdBy v schedule layout tr.store r
  log := tr.log ++ emitted (r.request.result v schedule tr.store.view)

/-- If the run of a request returns effects, the request's actions explain them. -/
def Explained (tr : EventTrace) (r : ExplainedRequest) : Prop :=
  match r.request with
  | .publish _ => True
  | .invoke inv interpreter =>
    ∀ start effects, startInvocation v schedule tr.store.view inv = some start →
      (interpreter.run tr.store.view start inv.gasLimit).result = .ok (.ok effects) →
        Explains layout (readMemory v tr.store.view) r.ops effects

/-- The joint invariant, between transactions. -/
def Kept (tr : EventTrace) : Prop :=
  HandlesKept (readMemory v tr.store.view).generators ((readMemory v tr.store.view).handles layout)
    tr.created tr.log

end EventTrace

section Steps

variable {v : Vendor} {schedule : GasSchedule} {layout : HandleLayout}

/-! ## Publishes -/

/-- A publish writes no key of a resource. -/
theorem bundle_resourceKey (hv : v.ChecksIdentifiers) {σ σ₀ : Store} {request : ModulePublish}
    {ps : List PublishedModule} (hps : ∀ p ∈ ps, Accepted v σ₀ request p) {t : StructTag}
    {k : Bytes}
    (ht : t.toBcs = some k) (a : AccountAddress) :
    ps.foldl (publishOne v) σ (a, k) = σ (a, k) := by
  apply bundle_frame
  intro p hp _
  have hvalid := hv p.bytes p.compiled (hps p hp).deserialize
  refine ⟨?_, ?_⟩
  · -- the key of a module holds a name, and the bytes of a tag are no such text
    rintro rfl
    exact toBcs_ne_moduleCodeKey t hvalid ht
  · -- the keys that every publish writes are fixed texts
    intro hshared
    have hsub : ∀ k ∈ sharedKeys, k ∈ fixedKeys := by decide
    exact toBcs_ne_fixedKey t (hsub k hshared) ht

/-- **A publish leaves the memory as it is.** -/
theorem readMemory_publish (hv : v.ChecksIdentifiers) (σ : Store) (request : ModulePublish) :
    readMemory v (transact v schedule σ (.publish request)).view = readMemory v σ.view := by
  -- no key of a resource is written, whether the publish succeeds or not
  have hkeys : ∀ {t : StructTag} {k : Bytes}, t.toBcs = some k → ∀ a,
      transact v schedule σ (.publish request) (a, k) = σ (a, k) := by
    intro t k ht a
    rw [transact_eq_chainStep]
    rcases chainStep_publish_cases v schedule σ request with heq | ⟨ps, hacc, heq⟩
    · rw [heq]
    · rw [heq]
      exact bundle_resourceKey hv hacc ht a
  funext a t
  cases ht : t.toBcs with
  | none => rw [readMemory_of_not_serializable ht, readMemory_of_not_serializable ht]
  | some k => rw [readMemory_view ht, readMemory_view ht, hkeys ht]

/-- A publish emits nothing. -/
theorem publishModules_events {state : NexusStateView} {request : ModulePublish} {out : VmOutput}
    (h : publishModules v schedule state request = .ok out) : out.events = [] := by
  rcases publishModules_ok v schedule state h with ⟨-, hquiet⟩ | ⟨ps, -, rfl⟩
  · rw [hquiet]
    rfl
  · rfl

/-- **Publishes.** Memory, handles and log stay. -/
theorem EventTrace.Kept.publish (hv : v.ChecksIdentifiers) {tr : EventTrace} (h : tr.Kept v layout)
    (request : ModulePublish) (ops : List (HandleOp Place)) :
    (tr.next v schedule layout ⟨.publish request, ops⟩).Kept v layout := by
  have hemitted : emitted (publishModules v schedule tr.store.view request) = [] := by
    cases hrun : publishModules v schedule tr.store.view request with
    | error e => rfl
    | ok out => rw [emitted, publishModules_events hrun, ite_self]
  unfold EventTrace.Kept EventTrace.next
  simp only [createdBy, ChainRequest.result, hemitted, readMemory_publish hv, List.append_nil]
  exact h

/-! ## Calls and scripts -/

theorem succeeded_eq_true {r : VmResult VmOutput} :
    succeeded r = true ↔ ∃ out, r = .ok out ∧ out.status = .success := by
  cases r with
  | error e => simp [succeeded]
  | ok out => simp [succeeded]

/-- A result without success changes nothing and emits nothing. -/
theorem applyResult_of_failed {r : VmResult VmOutput} (h : succeeded r = false) (σ : Store) :
    σ.applyResult r = σ ∧ emitted r = [] := by
  cases r with
  | error e => exact ⟨rfl, rfl⟩
  | ok out =>
    have hne : out.status ≠ .success := of_decide_eq_false h
    exact ⟨if_neg hne, if_neg hne⟩

/-- A request that fails leaves no trace. -/
theorem EventTrace.next_of_failed {tr : EventTrace} {r : ExplainedRequest}
    (h : succeeded (r.request.result v schedule tr.store.view) = false) :
    tr.next v schedule layout r = tr := by
  obtain ⟨hstore, hemitted⟩ := applyResult_of_failed h tr.store
  have hcreated : createdBy v schedule layout tr.store r = [] := by
    unfold createdBy
    split
    · rfl
    · rw [if_neg (by simp [h])]
  unfold next transact
  rw [hstore, hemitted, hcreated, List.append_nil, List.append_nil]

/-- **A call or a script.** One that succeeds carries the invariant through the actions that explain
it, from the memory it read to the memory the next request reads. -/
theorem EventTrace.Kept.invoke {tr : EventTrace} (h : tr.Kept v layout) (inv : Invocation)
    (interpreter : Interpreter) (ops : List (HandleOp Place))
    (hexplained : tr.Explained v schedule layout ⟨.invoke inv interpreter, ops⟩) :
    (tr.next v schedule layout ⟨.invoke inv interpreter, ops⟩).Kept v layout := by
  -- a call that fails is the identity on the trace
  cases hsucc : succeeded (executeInvocation v schedule tr.store.view interpreter inv) with
  | false =>
    have hsame : tr.next v schedule layout ⟨.invoke inv interpreter, ops⟩ = tr :=
      next_of_failed hsucc
    rw [hsame]
    exact h
  | true =>
    -- the interpreter has run, and what it did is explained by actions on handles
    obtain ⟨out, hout, hstatus⟩ := succeeded_eq_true.mp hsucc
    obtain ⟨start, effects, hstart, hresult, -, hchanges, -, hevents⟩ :=
      (executeInvocation_ok hout).resolve_left fun hquiet => hquiet.1 hstatus
    obtain ⟨hmap, hser, m', w, hupdates, hrun, hgenerators, hhandles, hemitted⟩ :=
      hexplained start effects hstart hresult
    -- what the next request reads is the memory the actions lead to
    have hstore : transact v schedule tr.store (.invoke inv interpreter)
        = tr.store.applyChanges (changesetToNexus effects.changeSet).1 := by
      rw [transact, ChainRequest.result, hout, Store.applyResult, if_pos hstatus, hchanges]
    have hmemory : readMemory v (tr.store.applyChanges (changesetToNexus effects.changeSet).1).view
        = m' := (readMemory_applyChanges hmap hser).unique hupdates
    -- the world that the call opens: the handles of the memory, with the trace so far
    have hopen : (openWorld layout (readMemory v tr.store.view)).Kept tr.created tr.log := by
      unfold HandleWorld.Kept openWorld
      rw [List.append_nil, List.append_nil]
      exact h
    -- the invariant of a run of actions, from the library of handles
    have hkept := hopen.run hrun
    unfold HandleWorld.Kept at hkept
    rw [hgenerators, hhandles, hemitted] at hkept
    unfold EventTrace.Kept EventTrace.next createdBy
    simp only [ChainRequest.result, hrun, hstore, hmemory, hout, succeeded, emitted, hstatus,
      decide_true, if_true, hevents]
    exact hkept

/-- **One request.** -/
theorem EventTrace.Kept.next (hv : v.ChecksIdentifiers) {tr : EventTrace} (h : tr.Kept v layout)
    {r : ExplainedRequest} (hexplained : tr.Explained v schedule layout r) :
    (tr.next v schedule layout r).Kept v layout := by
  obtain ⟨request, ops⟩ := r
  cases request with
  | publish request => exact h.publish hv request ops
  | invoke inv interpreter => exact h.invoke inv interpreter ops hexplained

/-- At the start there are no handles. -/
theorem EventTrace.kept_start : EventTrace.start.Kept v layout := by
  unfold EventTrace.Kept EventTrace.start
  rw [readMemory_empty, handles_none]
  exact handlesKept_empty

end Steps

/-! ## Every run of the chain -/

/-- The numbers of the events that carry a guid, in the order of the log. -/
def stream (log : List ContractEvent) (g : GUID) : List Nat :=
  (log.filter fun e => e.guid = g.toBcs).map fun e => e.sequenceNumber.toNat

theorem stream_eq_numbers (log : List ContractEvent) (g : GUID) :
    stream log g = NumberedLog.numbers (eventEntries log) g.toBcs := by
  simp [stream, NumberedLog.numbers, eventEntries, List.filter_map, Function.comp_def]

/-- **Events form gap-free streams.** Consider any run of publishes, calls and scripts from the
empty store, with successes applied and everything else dropped, in which handles and generators
come from the standard library only. Then no two handles that were created have one guid, no two
that are stored have one, and the guid of every stored handle is one of those; the events of every
guid are numbered from zero without gap, repetition or reordering; a stored handle has counted
exactly the events of its guid; and every event has the guid of some handle. Outputs without success
have no events. -/
theorem events_form_gap_free_streams (v : Vendor) (hv : v.ChecksIdentifiers)
    (schedule : GasSchedule)
    (layout : HandleLayout) (requests : List ExplainedRequest)
    (hexplained : Run.EveryStep (EventTrace.next v schedule layout)
      (EventTrace.Explained v schedule layout) .start requests) :
    let tr := Run.exec (EventTrace.next v schedule layout) .start requests
    let handles := (readMemory v tr.store.view).handles layout
    tr.created.Nodup
    ∧ (∀ p q h h', handles p = some h → handles q = some h' → h.guid.guid = h'.guid.guid → p = q)
    ∧ (∀ p h, handles p = some h → h.guid.guid ∈ tr.created)
    ∧ (∀ g, stream tr.log g = List.range (stream tr.log g).length)
    ∧ (∀ p h, handles p = some h → h.counter.toNat = (stream tr.log h.guid.guid).length)
    ∧ (∀ e ∈ tr.log, ∃ g ∈ tr.created, e.guid = g.toBcs)
    ∧ ∀ (σ : Store) (request : ChainRequest) out, request.result v schedule σ.view = .ok out →
        out.status ≠ .success → out.events = [] := by
  intro tr handles
  have hkept : tr.Kept v layout :=
    Run.invariant_of_everyStep (fun _ _ h hr => h.next hv hr) EventTrace.kept_start hexplained
  refine ⟨hkept.nodup, hkept.unique, hkept.mem_born, ?_, ?_, hkept.known, ?_⟩
  · intro g
    rw [stream_eq_numbers]
    exact hkept.gapFree g.toBcs
  · intro p h hp
    rw [stream_eq_numbers]
    exact hkept.counter p h hp
  · intro σ request out hout hfail
    -- whatever fails, a publish or a call, has no events
    cases request with
    | publish request => exact publishModules_events hout
    | invoke inv interpreter => exact (executeInvocation_noEffects inv hout hfail).events

/-! ## A handle and two events -/

/-- `0xCAFE::p::Holder`, a resource that is one handle. -/
def holderTag : StructTag where
  address := sampleAddress
  module := ⟨"p"⟩
  name := ⟨"Holder"⟩
  typeArgs := []

/-- One handle at the start of the holder, and none elsewhere. -/
def sampleLayout : HandleLayout := fun t _ => if t.toBcs = holderTag.toBcs then [0] else []

def sampleGuid : GUID where
  id := { creationNum := 0, addr := otherAddress }

def samplePlace : Place := .stored otherAddress holderTag 0

/-- The handle after two events. -/
def sampleHandle : EventHandle where
  counter := 2
  guid := { lenBytes := 24, guid := sampleGuid }

/-- The counter, the length of a GUID, and the GUID. -/
def sampleHandleBytes : Bytes := leBytes 8 2 ++ [24] ++ sampleGuid.toBcs

def sampleGeneratorBytes : Bytes := leBytes 8 1

/-- The effects of a run that stores a new handle and emits two events through it. -/
def sampleEffects : Effects where
  changeSet := [(otherAddress,
    [(generatorTag, .new sampleGeneratorBytes), (holderTag, .new sampleHandleBytes)])]
  events :=
    [ { typeTag := "bool", guid := sampleGuid.toBcs, sequenceNumber := 0, data := [1] },
      { typeTag := "bool", guid := sampleGuid.toBcs, sequenceNumber := 1, data := [0] } ]
  returnValues := []

def sampleOps : List (HandleOp Place) :=
  [ .newEventHandle otherAddress samplePlace,
    .emitEvent samplePlace "bool" [1],
    .emitEvent samplePlace "bool" [0] ]

def sampleMemory : Memory := fun a t =>
  if a = otherAddress then
    if t.toBcs = generatorTag.toBcs then some sampleGeneratorBytes
    else if t.toBcs = holderTag.toBcs then some sampleHandleBytes
    else none
  else none

theorem generatorTag_toBcs_ne : generatorTag.toBcs ≠ holderTag.toBcs := by decide

/-- What the sample run changes: a generator and a holder, both new. -/
theorem says_sampleEffects {a : AccountAddress} {t : StructTag} {op : ResourceOp} :
    sampleEffects.changeSet.Says a t op ↔ a = otherAddress
      ∧ ((t = generatorTag ∧ op = .new sampleGeneratorBytes)
        ∨ (t = holderTag ∧ op = .new sampleHandleBytes)) := by
  simp only [ChangeSet.Says, sampleEffects, List.mem_singleton, Prod.mk.injEq]
  constructor
  · rintro ⟨resources, ⟨rfl, rfl⟩, hmem⟩
    simpa using hmem
  · rintro ⟨rfl, h⟩
    exact ⟨_, ⟨rfl, rfl⟩, by simpa using h⟩

theorem toBcs_holderTag_isSome : holderTag.toBcs.isSome = true := by decide

theorem toBcs_generatorTag_isSome : generatorTag.toBcs.isSome = true := by decide

theorem eq_of_toBcs_eq {s t : StructTag} (hs : s.toBcs.isSome = true) (h : t.toBcs = s.toBcs) :
    t = s := by
  obtain ⟨k, hk⟩ := Option.isSome_iff_exists.mp hs
  exact StructTag.toBcs_injective (h.trans hk) hk

/-- The memory of the sample is what its change set makes of nothing. -/
theorem updates_sampleMemory : sampleEffects.changeSet.Updates (fun _ _ => none) sampleMemory := by
  intro a t
  constructor
  · intro op hop
    rcases says_sampleEffects.mp hop with ⟨rfl, ⟨rfl, rfl⟩ | ⟨rfl, rfl⟩⟩
    · simp [sampleMemory, ResourceOp.value]
    · simp [sampleMemory, ResourceOp.value, generatorTag_toBcs_ne.symm]
  · intro hsilent
    unfold sampleMemory
    split_ifs with ha hg hh
    · -- the generator and the holder are both spoken of
      subst ha
      obtain rfl := eq_of_toBcs_eq toBcs_generatorTag_isSome hg
      exact absurd (says_sampleEffects.mpr ⟨rfl, .inl ⟨rfl, rfl⟩⟩) (hsilent _)
    · subst ha
      obtain rfl := eq_of_toBcs_eq toBcs_holderTag_isSome hh
      exact absurd (says_sampleEffects.mpr ⟨rfl, .inr ⟨rfl, rfl⟩⟩) (hsilent _)
    · rfl
    · rfl

theorem generators_sampleMemory : sampleMemory.generators =
    Function.update (fun _ => none) otherAddress (some { counter := 1 }) := by
  funext a
  by_cases ha : a = otherAddress
  · subst ha
    rw [Function.update_self, Memory.generators, sampleMemory, if_pos rfl, if_pos rfl]
    decide
  · rw [Function.update_of_ne ha, Memory.generators, sampleMemory, if_neg ha]
    rfl

/-- There is one handle, with two events counted. -/
theorem handles_sampleMemory :
    sampleMemory.handles sampleLayout
      = Function.update (fun _ => none) samplePlace (some sampleHandle) := by
  funext p
  have hdecode : handleCodec.decode sampleHandleBytes = some (sampleHandle, []) := by decide
  cases p with
  | inFrames n =>
    rw [Function.update_of_ne (by simp [samplePlace])]
    rfl
  | stored a t i =>
    by_cases hplace : Place.stored a t i = samplePlace
    · rw [hplace, Function.update_self]
      simp [samplePlace, Memory.handles, sampleMemory, sampleLayout, generatorTag_toBcs_ne.symm,
        hdecode]
    · rw [Function.update_of_ne hplace, Memory.handles]
      unfold sampleMemory sampleLayout
      split_ifs with ha hg hh hh
      · exact absurd (hg.symm.trans hh) generatorTag_toBcs_ne
      · rfl
      · obtain rfl := eq_of_toBcs_eq toBcs_holderTag_isSome hh
        -- the only handle of the holder is its first one
        cases i with
        | zero => exact absurd (by rw [ha]; rfl) hplace
        | succ i => rfl
      all_goals rfl


/-- The actions explain the effects: create a handle and emit twice. -/
theorem explains_sampleEffects :
    Explains sampleLayout (fun _ _ => none) sampleOps sampleEffects := by
  constructor
  · constructor
    · simp [sampleEffects]
    · have hne : generatorTag ≠ holderTag := fun h => generatorTag_toBcs_ne (congrArg _ h)
      simp [sampleEffects, hne]
  · intro a t op hop
    rcases says_sampleEffects.mp hop with ⟨-, ⟨rfl, -⟩ | ⟨rfl, -⟩⟩
    · exact toBcs_generatorTag_isSome
    · exact toBcs_holderTag_isSome
  · have hgenerators : Memory.generators (fun _ _ => none) = fun _ => none := rfl
    refine ⟨sampleMemory, ⟨sampleMemory.generators, sampleMemory.handles sampleLayout,
      sampleEffects.events, [sampleGuid]⟩, updates_sampleMemory, ?_, rfl, rfl, rfl⟩
    rw [generators_sampleMemory, handles_sampleMemory, openWorld, hgenerators, handles_none]
    have hzero : (0 : UInt64) ≠ u64Max := by decide
    have hone : (1 : UInt64) ≠ u64Max := by decide
    simp [sampleOps, HandleWorld.run, HandleWorld.step, newEventHandle, Guid.create,
      ensureGenerator, moveTo, createImpl, emitEvent, writeToEventStore, Except.ok_bind, pure,
      Except.pure, sampleEffects, sampleHandle, sampleGuid, hzero, hone]


/-- An interpreter whose every run has these effects. -/
def sampleEmitter : Interpreter where
  run _ _ _ := { gasConsumed := 0, result := .ok (.ok sampleEffects) }

def publishP : ModulePublish where
  sender := sampleAddress
  modules := [samplePBytes]
  gasLimit := 1000000
  upgradePolicy := none

def emitterVendor : Vendor := .ofTables [(samplePBytes, sampleP)] [] []

/-- The module is published and its function called. -/
def emitterRun : List ExplainedRequest :=
  [ ⟨.publish publishP, []⟩, ⟨.invoke (.call callMint) sampleEmitter, sampleOps⟩ ]

theorem emitterVendor_checksIdentifiers : emitterVendor.ChecksIdentifiers :=
  Vendor.ofTables_checksIdentifiers (by decide)

theorem explained_emitterRun :
    Run.EveryStep (EventTrace.next emitterVendor sampleSchedule sampleLayout)
      (EventTrace.Explained emitterVendor sampleSchedule sampleLayout) .start emitterRun := by
  refine ⟨trivial, ?_, trivial⟩
  intro start effects _ hresult
  obtain rfl : sampleEffects = effects := Except.ok.inj (Except.ok.inj hresult)
  show Explains sampleLayout (readMemory emitterVendor
    (transact emitterVendor sampleSchedule KeyedStore.empty (.publish publishP)).view) _ _
  rw [readMemory_publish emitterVendor_checksIdentifiers, readMemory_empty]
  exact explains_sampleEffects

/-- A module is published and called; the call stores a handle and emits two events. -/
theorem events_form_gap_free_streams_emitterRun :
    let tr := Run.exec (EventTrace.next emitterVendor sampleSchedule sampleLayout) .start emitterRun
    tr.log.length = 2 ∧ stream tr.log sampleGuid = List.range (stream tr.log sampleGuid).length := by
  refine ⟨by decide +kernel, ?_⟩
  exact (events_form_gap_free_streams emitterVendor emitterVendor_checksIdentifiers sampleSchedule
    sampleLayout emitterRun explained_emitterRun).2.2.2.1 sampleGuid

end NexusMove
