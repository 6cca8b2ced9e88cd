import NexusMove.Lib.NumberedLog
import NexusMove.Stdlib.Guid

/-!
# Event handles

The module `std::event` and the native function behind it, which appends to the
event store of the transaction. A handle has a guid and counts its events; no code
outside the module makes, copies or drops one, so a program can create handles,
emit through them, destroy them, and move them from place to place.

* `HandleWorld` — handles at places, generators, and what a transaction has emitted.
* `HandleWorld.step` — one such action.
* `HandleWorld.Kept` — the joint invariant of handles, generators and the log.
* `HandleWorld.Kept.run` — every transaction keeps it.
-/

namespace NexusMove

namespace Event

open Guid

/-- A GUID with its length in front, as events carry it. -/
structure GUIDWrapper where
  lenBytes : UInt8
  guid : GUID
deriving DecidableEq

/-- A handle. The type of its events is a phantom. -/
structure EventHandle where
  counter : UInt64
  guid : GUIDWrapper
deriving DecidableEq

/-- The events of one transaction, in the order of emission. -/
abbrev NexusEventStore := List ContractEvent

/-! ## Functions -/

/-- `new_event_handle`: a fresh GUID, and no event yet. -/
def newEventHandle (gs : Generators) (account : AccountAddress) :
    Except StdAbort (EventHandle × Generators) := do
  let (guid, gs) ← create gs account
  return ({ counter := 0, guid := { lenBytes := 24, guid } }, gs)

/-- The native `write_to_event_store`, given the printed type and the serialized message. -/
def writeToEventStore (store : NexusEventStore) (typeTag : String) (guid : Bytes) (count : UInt64)
    (data : Bytes) : NexusEventStore :=
  store ++ [{ typeTag, guid, sequenceNumber := count, data }]

/-- The event is stored first; the counter may still overflow, and the transaction abort. -/
def emitEvent (store : NexusEventStore) (handle : EventHandle) (typeTag : String) (msg : Bytes) :
    Except StdAbort (EventHandle × NexusEventStore) :=
  let store := writeToEventStore store typeTag handle.guid.guid.toBcs handle.counter msg
  if handle.counter = u64Max then .error .arithmeticError
  else .ok ({ handle with counter := handle.counter + 1 }, store)

/-- The serialization of a handle: the counter, and a guid that reads as 24 bytes of text. -/
def handleCodec : Codec EventHandle :=
  (u64Codec.pair (Codec.byte.pair guidCodec)).iso
    (fun h => (h.counter, h.guid.lenBytes, h.guid.guid))
    (fun p => some { counter := p.1, guid := { lenBytes := p.2.1, guid := p.2.2 } }) fun _ => rfl

/-! ## What the functions do -/

/-- What a handle is born with. -/
theorem newEventHandle_eq_ok {gs gs' : Generators} {a : AccountAddress} {handle : EventHandle}
    (h : newEventHandle gs a = .ok (handle, gs')) :
    handle.counter = 0 ∧ Created gs gs' handle.guid.guid := by
  obtain ⟨⟨guid, gs₁⟩, hcreate, hret⟩ := Except.bind_eq_ok.mp h
  obtain ⟨rfl, rfl⟩ := Prod.mk.inj (Except.pure_eq_ok.mp hret)
  exact ⟨rfl, created_of_create hcreate⟩

/-- An event takes the count as its number, and the count goes up by one. -/
theorem emitEvent_eq_ok {store store' : NexusEventStore} {handle handle' : EventHandle}
    {typeTag : String} {msg : Bytes}
    (h : emitEvent store handle typeTag msg = .ok (handle', store')) :
    handle'.guid = handle.guid ∧ handle'.counter.toNat = handle.counter.toNat + 1
      ∧ store' = writeToEventStore store typeTag handle.guid.guid.toBcs handle.counter msg := by
  unfold emitEvent at h
  dsimp only at h
  split_ifs at h with hmax
  obtain ⟨rfl, rfl⟩ := Prod.mk.inj (Except.ok.inj h)
  exact ⟨rfl, toNat_add_one_of_ne_max hmax, rfl⟩

end Event

open Guid Event

/-! ## Programs over handles -/

/-- Handles and generators during a transaction. A place is anywhere a value can be: in a resource,
in a local variable. `created` lists the guids of the handles the transaction created. -/
structure HandleWorld (P : Type) where
  generators : Generators
  handles : P → Option EventHandle
  events : NexusEventStore
  created : List GUID

/-- What a program can do with handles, generators and identifiers. Identifiers of its own it may
keep or drop; none ever becomes part of a handle. -/
inductive HandleOp (P : Type) where
  | newEventHandle (account : AccountAddress) (place : P)
  | emitEvent (place : P) (typeTag : String) (msg : Bytes)
  | destroyHandle (place : P)
  | move (src dst : P)
  | create (account : AccountAddress)
  | createWithCapability (addr : AccountAddress) (cap : CreateCapability)
  | genCreateCapability (account : AccountAddress)
  | publishGenerator (account : AccountAddress)

namespace HandleWorld

variable {P : Type} [DecidableEq P]

/-- One action. Actions on an empty place, and actions that put a handle where another one is, do
not occur in programs that type-check; they count as failures here. -/
def step (w : HandleWorld P) : HandleOp P → Except StdAbort (HandleWorld P)
  | .newEventHandle account place => do
    let (handle, generators) ← Event.newEventHandle w.generators account
    match w.handles place with
    | some _ => throw .resourceAlreadyExists
    | none =>
      return { w with generators, handles := Function.update w.handles place (some handle),
                      created := w.created ++ [handle.guid.guid] }
  | .emitEvent place typeTag msg =>
    match w.handles place with
    | none => .error .missingData
    | some handle => do
      let (handle, events) ← Event.emitEvent w.events handle typeTag msg
      -- the handle is written back with the next number
      return { w with handles := Function.update w.handles place (some handle), events }
  | .destroyHandle place =>
    match w.handles place with
    | none => .error .missingData
    | some _ => .ok { w with handles := Function.update w.handles place none }
  | .move src dst =>
    -- a place that is taken, or a source without a handle
    match w.handles src, w.handles dst with
    | some handle, none =>
      .ok { w with handles := Function.update (Function.update w.handles src none) dst (some handle) }
    | _, _ => .error .missingData
  | .create account => do
    let (_, generators) ← Guid.create w.generators account
    return { w with generators }
  | .createWithCapability addr cap => do
    let (_, generators) ← Guid.createWithCapability w.generators addr cap
    return { w with generators }
  | .genCreateCapability account => do
    let (_, generators) ← Guid.genCreateCapability w.generators account
    return { w with generators }
  | .publishGenerator account => do
    let generators ← Guid.publishGenerator w.generators account
    return { w with generators }

def run (w : HandleWorld P) : List (HandleOp P) → Except StdAbort (HandleWorld P)
  | [] => .ok w
  | op :: ops => do (← w.step op).run ops

end HandleWorld

/-! ## The joint invariant -/

/-- A log of events as a numbered log: its streams are the guids. -/
def eventEntries (log : List ContractEvent) : List (Bytes × Nat) :=
  log.map fun e => (e.guid, e.sequenceNumber.toNat)

/-- How many events a guid has in a log. -/
def eventCount (log : List ContractEvent) (g : GUID) : Nat :=
  NumberedLog.count (eventEntries log) g.toBcs

/-- What holds of generators and handles together with all guids of handles and all events so far.

The generators are past every guid a handle was created with, no two handles were created with one
guid or have one, the log has no gaps, a handle has counted the events of its guid, and no event
has a guid no handle was created with. -/
structure HandlesKept {P : Type} (generators : Generators) (handles : P → Option EventHandle)
    (born : List GUID) (log : List ContractEvent) : Prop where
  past : ∀ g ∈ born, (generators g.id.addr).isSome = true
    ∧ g.id.creationNum < getNextCreationNum generators g.id.addr
  nodup : born.Nodup
  mem_born : ∀ p h, handles p = some h → h.guid.guid ∈ born
  unique : ∀ p q h h', handles p = some h → handles q = some h' →
    h.guid.guid = h'.guid.guid → p = q
  gapFree : NumberedLog.GapFree (eventEntries log)
  counter : ∀ p h, handles p = some h → h.counter.toNat = eventCount log h.guid.guid
  known : ∀ e ∈ log, ∃ g ∈ born, e.guid = g.toBcs

section Log

variable {log : List ContractEvent} {e : ContractEvent}

theorem eventEntries_append : eventEntries (log ++ [e])
    = eventEntries log ++ [(e.guid, e.sequenceNumber.toNat)] := by
  simp [eventEntries]

theorem eventCount_append_self {g : GUID} (he : e.guid = g.toBcs) :
    eventCount (log ++ [e]) g = eventCount log g + 1 := by
  rw [eventCount, eventEntries_append, he, NumberedLog.count_append_self, eventCount]

theorem eventCount_append_of_ne {g g' : GUID} (he : e.guid = g.toBcs) (hne : g ≠ g') :
    eventCount (log ++ [e]) g' = eventCount log g' := by
  rw [eventCount, eventEntries_append, he,
    NumberedLog.count_append_of_ne (fun h => hne (GUID.toBcs_injective h)), eventCount]

end Log

section Steps

variable {P : Type} {generators generators' : Generators} {handles : P → Option EventHandle}
  {born : List GUID} {log : List ContractEvent}

theorem handlesKept_empty : HandlesKept (P := P) (fun _ => none) (fun _ => none) [] [] where
  past := by simp
  nodup := List.nodup_nil
  mem_born := by simp
  unique := by simp
  gapFree := NumberedLog.gapFree_nil
  counter := by simp
  known := by simp

/-- A guid no handle was created with has no events. -/
theorem HandlesKept.count_of_not_mem (h : HandlesKept generators handles born log) {g : GUID}
    (hg : g ∉ born) : eventCount log g = 0 := by
  unfold eventCount NumberedLog.count NumberedLog.numbers
  rw [List.length_map, List.length_eq_zero_iff, List.filter_eq_nil_iff]
  intro entry hentry
  obtain ⟨e, he, rfl⟩ := List.mem_map.mp hentry
  obtain ⟨g', hg', heq⟩ := h.known e he
  simp only [decide_eq_true_eq, heq]
  intro hsame
  obtain rfl := GUID.toBcs_injective hsame
  exact hg hg'

/-- Generators may move on. -/
theorem HandlesKept.grow (h : HandlesKept generators handles born log)
    (hgrows : generators.Grows generators') : HandlesKept generators' handles born log where
  past := by
    intro g hg
    obtain ⟨hsome, hlt⟩ := h.past g hg
    obtain ⟨hsome', hle⟩ := hgrows g.id.addr hsome
    exact ⟨hsome', UInt64.lt_of_lt_of_le hlt hle⟩
  nodup := h.nodup
  mem_born := h.mem_born
  unique := h.unique
  gapFree := h.gapFree
  counter := h.counter
  known := h.known

/-- Handles may be somewhere else, or gone, as long as none is in two places. -/
theorem HandlesKept.rearrange {Q : Type} (h : HandlesKept generators handles born log)
    {handles' : Q → Option EventHandle} (place : Q → P)
    (hplace : ∀ q handle, handles' q = some handle → handles (place q) = some handle)
    (hinj : ∀ q q' handle handle', handles' q = some handle → handles' q' = some handle' →
      place q = place q' → q = q') :
    HandlesKept generators handles' born log where
  past := h.past
  nodup := h.nodup
  mem_born q handle hq := h.mem_born (place q) handle (hplace q handle hq)
  unique := by
    intro q q' handle handle' hq hq' hguid
    exact hinj q q' handle handle' hq hq'
      (h.unique _ _ handle handle' (hplace q handle hq) (hplace q' handle' hq') hguid)
  gapFree := h.gapFree
  counter q handle hq := h.counter (place q) handle (hplace q handle hq)
  known := h.known

variable [DecidableEq P]

/-- What is at a place after one place has changed: what was put there, or what was there before. -/
theorem update_eq_some {p q : P} {put : Option EventHandle} {handle : EventHandle} :
    Function.update handles p put q = some handle ↔
      (q = p ∧ put = some handle) ∨ (q ≠ p ∧ handles q = some handle) := by
  rw [Function.update_apply]
  by_cases hqp : q = p
  · simp [hqp]
  · simp [hqp]

/-- **A new handle.** Its guid is past every guid before, so it is new, and has no events. -/
theorem HandlesKept.create (h : HandlesKept generators handles born log) {handle : EventHandle}
    (hcounter : handle.counter = 0) (hcreated : Created generators generators' handle.guid.guid)
    (p : P) :
    HandlesKept generators' (Function.update handles p (some handle)) (born ++ [handle.guid.guid])
      log := by
  -- the generator was past every guid before, and the new one is its number
  have hnew : handle.guid.guid ∉ born := by
    intro hmem
    have hlt := (h.past _ hmem).2
    rw [← hcreated.number] at hlt
    exact absurd hlt (UInt64.lt_irrefl _)
  have hgrown := h.grow hcreated.grows
  constructor
  · intro g hg
    rcases List.mem_append.mp hg with hg | hg
    · exact hgrown.past g hg
    · obtain rfl := List.mem_singleton.mp hg
      exact ⟨hcreated.present, UInt64.lt_iff_toNat_lt.mpr hcreated.next⟩
  · rw [List.nodup_append]
    refine ⟨h.nodup, List.nodup_singleton _, ?_⟩
    intro g hg g' hg' heq
    rw [List.mem_singleton.mp hg'] at heq
    exact hnew (heq ▸ hg)
  · intro q handle' hq
    rcases update_eq_some.mp hq with ⟨-, hput⟩ | ⟨-, hq⟩
    · obtain rfl := Option.some.inj hput
      exact List.mem_append_right _ (List.mem_singleton_self _)
    · exact List.mem_append_left _ (h.mem_born q handle' hq)
  · -- an older handle has an older guid
    intro q q' handle₁ handle₂ hq hq' hguid
    -- the new handle and an older one cannot share a guid
    rcases update_eq_some.mp hq with ⟨hqp, hput⟩ | ⟨-, hq⟩
    · rcases update_eq_some.mp hq' with ⟨hqp', -⟩ | ⟨-, hq'⟩
      · rw [hqp, hqp']
      · obtain rfl := Option.some.inj hput
        exact absurd (hguid ▸ h.mem_born q' handle₂ hq') hnew
    · rcases update_eq_some.mp hq' with ⟨-, hput'⟩ | ⟨-, hq'⟩
      · obtain rfl := Option.some.inj hput'
        exact absurd (hguid ▸ h.mem_born q handle₁ hq) hnew
      · exact h.unique q q' handle₁ handle₂ hq hq' hguid
  · exact h.gapFree
  · -- the new guid has no events, and the counter starts at zero
    intro q handle' hq
    rcases update_eq_some.mp hq with ⟨-, hput⟩ | ⟨-, hq⟩
    · obtain rfl := Option.some.inj hput
      rw [h.count_of_not_mem hnew, hcounter]
      rfl
    · exact h.counter q handle' hq
  · intro e he
    obtain ⟨g, hg, heq⟩ := h.known e he
    exact ⟨g, List.mem_append_left _ hg, heq⟩

/-- **An emission.** The event has the number of the events its guid had, and the handle counts it;
the streams and counters of all other guids stay as they are. -/
theorem HandlesKept.emit (h : HandlesKept generators handles born log) {p : P}
    {handle handle' : EventHandle} (hp : handles p = some handle)
    (hguid : handle'.guid = handle.guid)
    (hcounter : handle'.counter.toNat = handle.counter.toNat + 1) {e : ContractEvent}
    (he : e.guid = handle.guid.guid.toBcs) (hnum : e.sequenceNumber = handle.counter) :
    HandlesKept generators (Function.update handles p (some handle')) born (log ++ [e]) := by
  -- at every place is a handle with the guid that was there before
  have hsame : ∀ q handle₁, Function.update handles p (some handle') q = some handle₁ →
      ∃ handle₀, handles q = some handle₀ ∧ handle₁.guid = handle₀.guid := by
    intro q handle₁ hq
    rcases update_eq_some.mp hq with ⟨hqp, hput⟩ | ⟨-, hq⟩
    · obtain rfl := Option.some.inj hput
      rw [← hqp] at hp
      exact ⟨handle, hp, hguid⟩
    · exact ⟨handle₁, hq, rfl⟩
  constructor
  · exact h.past
  · exact h.nodup
  · intro q handle₁ hq
    obtain ⟨handle₀, hq₀, hg⟩ := hsame q handle₁ hq
    rw [hg]
    exact h.mem_born q handle₀ hq₀
  · intro q q' handle₁ handle₂ hq hq' heq
    obtain ⟨handle₀, hq₀, hg⟩ := hsame q handle₁ hq
    obtain ⟨handle₀', hq₀', hg'⟩ := hsame q' handle₂ hq'
    rw [hg, hg'] at heq
    exact h.unique q q' handle₀ handle₀' hq₀ hq₀' heq
  · -- the event carries the number of its stream
    rw [eventEntries_append]
    refine h.gapFree.append ?_
    rw [hnum, he]
    exact h.counter p handle hp
  · intro q handle₁ hq
    rcases update_eq_some.mp hq with ⟨-, hput⟩ | ⟨hqp, hq⟩
    · obtain rfl := Option.some.inj hput
      rw [hguid, eventCount_append_self he, hcounter, h.counter p handle hp]
    · -- a handle at another place has another guid
      have hne : handle.guid.guid ≠ handle₁.guid.guid := fun heq =>
        hqp (h.unique q p handle₁ handle hq hp heq.symm)
      rw [eventCount_append_of_ne he hne]
      exact h.counter q handle₁ hq
  · intro e' he'
    rcases List.mem_append.mp he' with he' | he'
    · exact h.known e' he'
    · obtain rfl := List.mem_singleton.mp he'
      exact ⟨handle.guid.guid, h.mem_born p handle hp, he⟩

/-- A handle that is destroyed leaves its stream as it is. -/
theorem HandlesKept.destroy (h : HandlesKept generators handles born log) (p : P) :
    HandlesKept generators (Function.update handles p none) born log := by
  refine h.rearrange id ?_ fun q q' _ _ _ _ heq => heq
  intro q handle hq
  rcases update_eq_some.mp hq with ⟨-, hput⟩ | ⟨-, hq⟩
  · cases hput
  · exact hq

/-- **A move.** What is at the destination was at the source, and nothing else has moved. -/
theorem HandlesKept.move (h : HandlesKept generators handles born log) {src dst : P}
    {handle : EventHandle} (hsrc : handles src = some handle) :
    HandlesKept generators (Function.update (Function.update handles src none) dst (some handle))
      born log := by
  -- after the move a handle is the one at the destination, or one that stayed
  have hmoved : ∀ q handle₁, Function.update (Function.update handles src none) dst
      (some handle) q = some handle₁ →
      (q = dst ∧ handle = handle₁) ∨ (q ≠ dst ∧ q ≠ src ∧ handles q = some handle₁) := by
    intro q handle₁ hq
    rcases update_eq_some.mp hq with ⟨hqd, hput⟩ | ⟨hqd, hq⟩
    · exact .inl ⟨hqd, Option.some.inj hput⟩
    · rcases update_eq_some.mp hq with ⟨-, hput⟩ | ⟨hqs, hq⟩
      · cases hput
      · exact .inr ⟨hqd, hqs, hq⟩
  refine h.rearrange (fun q => if q = dst then src else q) ?_ ?_
  · intro q handle₁ hq
    rcases hmoved q handle₁ hq with ⟨hqd, rfl⟩ | ⟨hqd, -, hq⟩
    · rw [if_pos hqd]
      exact hsrc
    · rw [if_neg hqd]
      exact hq
  · -- two places of one old place are both the destination, or neither is
    intro q q' handle₁ handle₂ hq hq' heq
    rcases hmoved q handle₁ hq with ⟨hqd, -⟩ | ⟨hqd, hqs, -⟩
    · rcases hmoved q' handle₂ hq' with ⟨hqd', -⟩ | ⟨hqd', hqs', -⟩
      · rw [hqd, hqd']
      · rw [if_pos hqd, if_neg hqd'] at heq
        exact absurd heq.symm hqs'
    · rcases hmoved q' handle₂ hq' with ⟨hqd', -⟩ | ⟨hqd', -, -⟩
      · rw [if_neg hqd, if_pos hqd'] at heq
        exact absurd heq hqs
      · rw [if_neg hqd, if_neg hqd'] at heq
        exact heq

/-- The invariant during a transaction, after guids and events of earlier ones. -/
def HandleWorld.Kept (w : HandleWorld P) (born : List GUID) (log : List ContractEvent) : Prop :=
  HandlesKept w.generators w.handles (born ++ w.created) (log ++ w.events)

/-- **One action.** -/
theorem HandleWorld.Kept.step {w w' : HandleWorld P} (h : w.Kept born log) {op : HandleOp P}
    (hstep : w.step op = .ok w') : w'.Kept born log := by
  unfold HandleWorld.Kept at h ⊢
  cases op with
  | newEventHandle account place =>
    obtain ⟨⟨handle, gs⟩, hnew, hrest⟩ := Except.bind_eq_ok.mp hstep
    obtain ⟨hcounter, hcreated⟩ := newEventHandle_eq_ok hnew
    -- the place must be free
    cases hplace : w.handles place with
    | some other => simp [hplace] at hrest
    | none =>
      simp only [hplace] at hrest
      obtain rfl := Except.pure_eq_ok.mp hrest
      have hkept := h.create hcounter hcreated place
      rw [List.append_assoc] at hkept
      exact hkept
  | emitEvent place typeTag msg =>
    cases hplace : w.handles place with
    | none => simp [HandleWorld.step, hplace] at hstep
    | some handle =>
      simp only [HandleWorld.step, hplace] at hstep
      obtain ⟨⟨handle', events⟩, hemit, hrest⟩ := Except.bind_eq_ok.mp hstep
      obtain ⟨hguid, hcounter, rfl⟩ := emitEvent_eq_ok hemit
      obtain rfl := Except.pure_eq_ok.mp hrest
      have hkept := h.emit (e := ⟨typeTag, handle.guid.guid.toBcs, handle.counter, msg⟩) hplace hguid
        hcounter rfl rfl
      rw [List.append_assoc] at hkept
      exact hkept
  -- the log keeps the stream of the handle that is gone
  | destroyHandle place =>
    cases hplace : w.handles place with
    | none => simp [HandleWorld.step, hplace] at hstep
    | some handle =>
      simp only [HandleWorld.step, hplace] at hstep
      obtain rfl := Except.ok.inj hstep
      exact h.destroy place
  | move src dst =>
    cases hsrc : w.handles src with
    | none => simp [HandleWorld.step, hsrc] at hstep
    | some handle =>
      cases hdst : w.handles dst with
      | some other => simp [HandleWorld.step, hsrc, hdst] at hstep
      | none =>
        simp only [HandleWorld.step, hsrc, hdst] at hstep
        obtain rfl := Except.ok.inj hstep
        exact h.move hsrc
  | create account =>
    obtain ⟨⟨guid, gs⟩, hcreate, hrest⟩ := Except.bind_eq_ok.mp hstep
    obtain rfl := Except.pure_eq_ok.mp hrest
    exact h.grow (created_of_create hcreate).grows
  | createWithCapability addr cap =>
    obtain ⟨⟨guid, gs⟩, hcreate, hrest⟩ := Except.bind_eq_ok.mp hstep
    obtain rfl := Except.pure_eq_ok.mp hrest
    exact h.grow (created_of_createWithCapability hcreate).grows
  | genCreateCapability account =>
    obtain ⟨⟨cap, gs⟩, hgen, hrest⟩ := Except.bind_eq_ok.mp hstep
    obtain rfl := Except.pure_eq_ok.mp hrest
    exact h.grow (grows_of_genCreateCapability hgen)
  | publishGenerator account =>
    obtain ⟨gs, hgen, hrest⟩ := Except.bind_eq_ok.mp hstep
    obtain rfl := Except.pure_eq_ok.mp hrest
    exact h.grow (grows_of_moveTo hgen)

/-- **A transaction.** -/
theorem HandleWorld.Kept.run {w w' : HandleWorld P} (h : w.Kept born log) {ops : List (HandleOp P)}
    (hrun : w.run ops = .ok w') : w'.Kept born log := by
  induction ops generalizing w with
  | nil =>
    obtain rfl := Except.ok.inj hrun
    exact h
  | cons op ops ih =>
    obtain ⟨w₁, hstep, hrest⟩ := Except.bind_eq_ok.mp hrun
    exact ih (h.step hstep) hrest

end Steps

end NexusMove
