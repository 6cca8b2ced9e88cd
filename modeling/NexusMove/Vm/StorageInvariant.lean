import NexusMove.Vm.MachineMoves

/-!
# Global storage during a run

What holds of the data cache in every state of every run, from any sequence of
instructions. A slot knows whether there is a resource in storage. A slot whose flag
is clean guards its cells: they are a sealed region under the flag, nothing that the
machine holds and no other slot gets at them otherwise, and they hold the value that
was read from storage.

* `Slot.storedValue` — what storage has for a slot.
* `Machine.Guards`, `Machine.Sound` — the invariant.
* `Sound.moves`, `Sound.puts` — what keeps it: steps elsewhere, and a new value in a slot.
-/

namespace NexusMove

open Region VmMemory

/-! ## What storage has for a slot -/

section Stored

variable (v : Vendor) (k : TypeCosts) (σ : Store) (r : Slot)

/-- The key of the slot's resource. -/
def Slot.storageKey : Option Bytes :=
  match structTagOf k r.ty.ty with
  | .ok tag => tag.toBcs
  | .error _ => none

/-- What storage has under the key of the slot. -/
def Slot.storedBytes : Option Bytes := (r.storageKey k).bind fun key => σ (r.address, key)

/-- The value that these bytes are read as. -/
def Slot.storedValue : Option Value :=
  (r.storedBytes k σ).bind (Value.deserialize v.closureCodec r.layout)

/-- A slot without a resource of storage's, and one with. -/
def Slot.Origin : Prop :=
  match r.value with
  | .none | .fresh _ => r.storedBytes k σ = none
  | .deleted | .cached _ _ => (r.storedValue v k σ).isSome = true

end Stored

/-! ## What is done to a slot -/

namespace GlobalValue

/-- Moving out: what was in the slot, and what is said of it afterwards. -/
theorem value?_of_moveFrom {gv value : GlobalValue} {rc : Nat → Nat} {x : ValueImpl}
    (h : gv.moveFrom rc = .ok (x, value)) :
    gv.value? = some x ∧ value.value? = Option.none
      ∧ ((∃ c, gv = .fresh c) ∧ value = .none ∨ (∃ c s, gv = .cached c s) ∧ value = .deleted) := by
  cases gv with
  | none => cases h
  | deleted => cases h
  | fresh c =>
    obtain ⟨y, htake, h⟩ := Except.bind_eq_ok.mp h
    obtain ⟨rfl, rfl⟩ := Prod.mk.inj (Except.pure_eq_ok.mp h)
    -- the value is taken only if nothing else refers to it
    unfold takeFields at htake
    split at htake
    · obtain rfl := Except.ok.inj htake
      exact ⟨rfl, rfl, .inl ⟨⟨c, rfl⟩, rfl⟩⟩
    · cases htake
  | cached c s =>
    obtain ⟨y, htake, h⟩ := Except.bind_eq_ok.mp h
    obtain ⟨rfl, rfl⟩ := Prod.mk.inj (Except.pure_eq_ok.mp h)
    unfold takeFields at htake
    split at htake
    · obtain rfl := Except.ok.inj htake
      exact ⟨rfl, rfl, .inr ⟨⟨c, s, rfl⟩, rfl⟩⟩
    · cases htake

/-- A cached value comes with a flag of its own. -/
theorem ofCached_eq_ok {x : ValueImpl} {st : GlobalDataStatus} {m m' : VmMemory}
    {value : GlobalValue} (h : ofCached x st m = .ok (value, m')) :
    ∃ c, x = .container ⟨.struct, c⟩ ∧ value = .cached c m.nextStatus ∧ m' = m.newStatus st := by
  unfold ofCached at h
  split at h
  · rename_i c
    obtain ⟨rfl, rfl⟩ := Prod.mk.inj (Except.ok.inj h)
    exact ⟨c, rfl, rfl, rfl⟩
  · cases h

end GlobalValue

namespace Machine

/-! ## The invariant -/

/-- A region that no value gets at from outside: neither those in hand, nor those of the machine,
nor those in the slots that `other` says. -/
structure Apart (xs : List ValueImpl) (M : Machine) (other : Slot → Prop) (R : FlagRegion) :
    Prop where
  isSealed : M.memory.Sealed R
  own : ∀ x ∈ xs ++ M.own, R.Outside M.memory x
  slots : ∀ r ∈ M.dataStore, other r → ∀ x, r.value.value? = some x → R.Outside M.memory x

/-- The slot's cells are a region of their own under the slot's flag, and hold the value. -/
structure Guards (xs : List ValueImpl) (M : Machine) (r : Slot) (c s : Nat) (val : Value)
    (R : FlagRegion) : Prop where
  cell : R.cells c
  tag : R.tag = some s
  apart : Apart xs M (fun r' => r'.key ≠ r.key) R
  value : valueAs M.memory.heap r.layout (.container ⟨.struct, c⟩) = some val

variable (v : Vendor) (k : TypeCosts) (σ : Store)

/-- **The invariant** of a run, with the values that are in hand between two steps. -/
structure Sound (xs : List ValueImpl) (M : Machine) : Prop where
  keys : (M.dataStore.map Slot.key).Nodup
  bounded : Apart xs M (fun _ => True) noCells
  serializable : ∀ r ∈ M.dataStore, (r.storageKey k).isSome = true
  origin : ∀ r ∈ M.dataStore, r.Origin v k σ
  flags : ∀ r ∈ M.dataStore, ∀ c s, r.value = .cached c s → s < M.memory.nextStatus
  clean : ∀ r ∈ M.dataStore, ∀ c s, r.value = .cached c s → M.memory.status s = .clean →
    ∃ val R, r.storedValue v k σ = some val ∧ Guards xs M r c s val R

variable {v k σ}
variable {xs ys : List ValueImpl} {M M' : Machine} {R : FlagRegion}

theorem not_altered_noCells {m : VmMemory} : ¬ m.Altered noCells := by
  rintro ⟨⟨c, hc⟩, -⟩
  exact hc

/-- A flag that is clean in the end was clean before. -/
theorem clean_of_grows {m m' : VmMemory} (h : m.Grows m') {s : Nat} (hs : s < m.nextStatus)
    (hclean : m'.status s = .clean) : m.status s = .clean := by
  cases hst : m.status s with
  | clean => rfl
  | dirty =>
    rw [h.dirty s hs hst] at hclean
    cases hclean

/-! ## Steps outside of global storage -/

/-- A region stays apart, or its flag is set. -/
theorem Apart.moves {other : Slot → Prop} (h : Apart xs M other R) (hmoves : Moves xs M ys M') :
    M'.memory.Altered R ∨ Apart ys M' other R ∧ R.SameInside M.memory.heap M'.memory.heap := by
  rcases hmoves.respects.region R h.isSealed h.own with haltered | hkept
  · exact .inl haltered
  · refine .inr ⟨⟨hkept.isSealed, hkept.outside, ?_⟩, hkept.same⟩
    intro r hr ho x hx
    rw [hmoves.dataStore] at hr
    exact (h.slots r hr ho x hx).grows hmoves.respects.grows

theorem inside_of_cell {c : Nat} (hc : R.cells c) :
    R.Inside ValueImpl.holds (.container ⟨.struct, c⟩) := by
  intro hold hmem
  obtain rfl := List.mem_singleton.mp hmem
  exact ⟨c, hc, rfl⟩

/-- A step outside of the region leaves its guard, as long as the flag is not set. -/
theorem Guards.moves {r : Slot} {c s : Nat} {val : Value} (h : Guards xs M r c s val R)
    (hmoves : Moves xs M ys M') (hclean : M'.memory.status s = .clean) :
    Guards ys M' r c s val R := by
  rcases h.apart.moves hmoves with haltered | ⟨hapart, hsame⟩
  · obtain ⟨-, s', -, htag, hdirty⟩ := haltered
    obtain rfl : s' = s := Option.some.inj (htag.symm.trans h.tag)
    rw [hclean] at hdirty
    cases hdirty
  · refine ⟨h.cell, h.tag, hapart, ?_⟩
    rw [← h.value]
    exact valueAs_congr h.apart.isSealed.heap.inside hsame r.layout (inside_of_cell h.cell)

/-- **Steps outside.** What respects regions keeps the invariant. -/
theorem Sound.moves (h : Sound v k σ xs M) (hmoves : Moves xs M ys M') : Sound v k σ ys M' := by
  have hgrows := hmoves.respects.grows
  refine ⟨?_, ?_, ?_, ?_, ?_, ?_⟩
  · rw [hmoves.dataStore]
    exact h.keys
  · rcases h.bounded.moves hmoves with haltered | ⟨hapart, -⟩
    · -- the region without cells: nothing can have been altered
      exact absurd haltered not_altered_noCells
    · exact hapart
  · rw [hmoves.dataStore]
    exact h.serializable
  · rw [hmoves.dataStore]
    exact h.origin
  · intro r hr c s hvalue
    rw [hmoves.dataStore] at hr
    exact lt_of_lt_of_le (h.flags r hr c s hvalue) hgrows.nextStatus
  · intro r hr c s hvalue hclean
    rw [hmoves.dataStore] at hr
    -- a flag that is clean now was clean before
    have hbefore := clean_of_grows hgrows (h.flags r hr c s hvalue) hclean
    obtain ⟨val, R, hval, hguards⟩ := h.clean r hr c s hvalue hbefore
    exact ⟨val, R, hval, hguards.moves hmoves hclean⟩

/-! ## Changing the data cache -/

/-- One slot is new or has a new value; everything else of the machine is as it was. -/
structure Puts (M : Machine) (r : Slot) (M' : Machine) : Prop where
  memory : M'.memory = M.memory
  own : M'.own = M.own
  slots : ∀ r', r' ∈ M'.dataStore ↔ r' = r ∨ r' ∈ M.dataStore ∧ r'.key ≠ r.key
  keys : (M'.dataStore.map Slot.key).Nodup

theorem puts_put (hkeys : (M.dataStore.map Slot.key).Nodup) (r : Slot) :
    Puts M r { M with dataStore := M.dataStore.put r } where
  memory := rfl
  own := rfl
  slots _ := KeyedList.mem_upsert hkeys
  keys := KeyedList.nodup_upsert hkeys

/-- A region stays apart from the values in hand, if what is in the new slot may stand outside. -/
theorem Apart.puts {other : Slot → Prop} {r : Slot} (h : Apart xs M other R)
    (hputs : Puts M r M') (hys : ∀ y ∈ ys, R.Outside M.memory y)
    (hr : other r → ∀ x, r.value.value? = some x → R.Outside M.memory x) :
    Apart ys M' other R where
  isSealed := by
    rw [hputs.memory]
    exact h.isSealed
  own := by
    intro x hx
    rw [hputs.memory]
    rw [hputs.own] at hx
    rcases List.mem_append.mp hx with hx | hx
    · exact hys x hx
    · exact h.own x (List.mem_append_right xs hx)
  slots := by
    intro r' hr' ho x hx
    rw [hputs.memory]
    -- the slot just put, or another one that was there
    rcases (hputs.slots r').mp hr' with rfl | ⟨hr', -⟩
    · exact hr ho x hx
    · exact h.slots r' hr' ho x hx

/-- Another slot with another value leaves the guard. -/
theorem Guards.puts {r r' : Slot} {c s : Nat} {val : Value} (h : Guards xs M r' c s val R)
    (hputs : Puts M r M') (hys : ∀ y ∈ ys, R.Outside M.memory y)
    (hr : r.key ≠ r'.key → ∀ x, r.value.value? = some x → R.Outside M.memory x) :
    Guards ys M' r' c s val R where
  cell := h.cell
  tag := h.tag
  apart := h.apart.puts hputs hys hr
  value := by
    rw [hputs.memory]
    exact h.value

/-- **A new slot, or a new value in it.** The slots with other keys guard what they did, if the
values in hand now and the one in the slot are values that were in hand or in the slot before. -/
theorem Sound.puts {r : Slot} (h : Sound v k σ xs M) (hputs : Puts M r M')
    (hvalues : ∀ y, y ∈ ys ∨ r.value.value? = some y →
      y ∈ xs ∨ ∃ r' ∈ M.dataStore, r'.key = r.key ∧ r'.value.value? = some y)
    (hserializable : (r.storageKey k).isSome = true) (horigin : r.Origin v k σ)
    (hflag : ∀ c s, r.value = .cached c s → s < M.memory.nextStatus)
    (hclean : ∀ c s, r.value = .cached c s → M.memory.status s = .clean →
      ∃ val R, r.storedValue v k σ = some val ∧ Guards ys M' r c s val R) :
    Sound v k σ ys M' := by
  have hmem : ∀ {r'}, r' ∈ M'.dataStore → r' = r ∨ r' ∈ M.dataStore ∧ r'.key ≠ r.key :=
    fun hr' => (hputs.slots _).mp hr'
  -- what may stand outside of a region that another slot or no slot guards
  have houtside : ∀ {other : Slot → Prop} {R}, Apart xs M other R →
      (∀ r' ∈ M.dataStore, r'.key = r.key → other r') →
      ∀ y, y ∈ ys ∨ r.value.value? = some y → R.Outside M.memory y := by
    intro other R hapart hother y hy
    rcases hvalues y hy with hxs | ⟨r', hr', hkey, hvalue⟩
    · exact hapart.own y (List.mem_append_left _ hxs)
    · exact hapart.slots r' hr' (hother r' hr' hkey) y hvalue
  refine ⟨hputs.keys, ?_, ?_, ?_, ?_, ?_⟩
  · have hout := houtside h.bounded fun _ _ _ => trivial
    exact h.bounded.puts hputs (fun y hy => hout y (.inl hy)) fun _ x hx => hout x (.inr hx)
  · intro r' hr'
    -- the new slot, by what is asked of it
    rcases hmem hr' with rfl | ⟨hr', -⟩
    · exact hserializable
    · exact h.serializable r' hr'
  · intro r' hr'
    rcases hmem hr' with rfl | ⟨hr', -⟩
    · exact horigin
    · exact h.origin r' hr'
  · intro r' hr' c s hvalue
    rw [hputs.memory]
    rcases hmem hr' with rfl | ⟨hr', -⟩
    · exact hflag c s hvalue
    · exact h.flags r' hr' c s hvalue
  · intro r' hr' c s hvalue hst
    rw [hputs.memory] at hst
    rcases hmem hr' with rfl | ⟨hr', hne⟩
    · exact hclean c s hvalue hst
    · obtain ⟨val, R, hval, hguards⟩ := h.clean r' hr' c s hvalue hst
      -- no other slot has the key, so the region of this one is apart from the new value
      have hout := houtside hguards.apart fun r'' _ hkey heq => hne (heq.symm.trans hkey)
      exact ⟨val, R, hval, hguards.puts hputs (fun y hy => hout y (.inl hy))
        fun _ x hx => hout x (.inr hx)⟩

/-! ## Slots -/

/-- Another value in hand, that may stand outside of every region that a slot guards. -/
theorem Sound.hand (h : Sound v k σ xs M) {x : ValueImpl} (hnone : noCells.Outside M.memory x)
    (hguard : ∀ r ∈ M.dataStore, ∀ c s val R, r.value = .cached c s →
      Guards xs M r c s val R → R.Outside M.memory x) : Sound v k σ (x :: xs) M := by
  refine ⟨h.keys, ⟨h.bounded.isSealed, ?_, h.bounded.slots⟩, h.serializable, h.origin, h.flags, ?_⟩
  · intro y hy
    rcases List.mem_cons.mp hy with rfl | hy
    · exact hnone
    · exact h.bounded.own y hy
  · intro r hr c s hvalue hst
    obtain ⟨val, R, hval, hg⟩ := h.clean r hr c s hvalue hst
    refine ⟨val, R, hval, hg.cell, hg.tag, ⟨hg.apart.isSealed, ?_, hg.apart.slots⟩, hg.value⟩
    intro y hy
    rcases List.mem_cons.mp hy with rfl | hy
    · exact hguard r hr c s val R hvalue hg
    · exact hg.apart.own y hy

theorem Sound.slot_unique (h : Sound v k σ xs M) {r r' : Slot} (hr : r ∈ M.dataStore)
    (hr' : r' ∈ M.dataStore) (hkey : r'.key = r.key) : r' = r :=
  List.inj_on_of_nodup_map h.keys hr' hr hkey

/-- **Taking a resource out of its slot.** -/
theorem Sound.moveFrom (h : Sound v k σ xs M) {r : Slot} (hr : r ∈ M.dataStore)
    {rc : Nat → Nat} {x : ValueImpl} {value : GlobalValue}
    (hmove : r.value.moveFrom rc = .ok (x, value)) :
    Sound v k σ (x :: xs) (M.putSlot r value) := by
  obtain ⟨hx, hnone, hkind⟩ := GlobalValue.value?_of_moveFrom hmove
  have horigin := h.origin r hr
  refine h.puts (puts_put h.keys { r with value }) ?_ (h.serializable r hr) ?_ ?_ ?_
  · intro y hy
    rcases hy with hy | hy
    · rcases List.mem_cons.mp hy with rfl | hy
      · -- the value in hand was in the slot
        exact .inr ⟨r, hr, rfl, hx⟩
      · exact .inl hy
    · rw [hnone] at hy
      cases hy
  · -- what the slot came from is as before: nothing stored, or something stored
    rcases hkind with ⟨⟨c, hgv⟩, rfl⟩ | ⟨⟨c, s, hgv⟩, rfl⟩
    · rw [Slot.Origin, hgv] at horigin
      exact horigin
    · rw [Slot.Origin, hgv] at horigin
      exact horigin
  · intro c s hvalue
    dsimp only at hvalue
    rw [hvalue] at hnone
    cases hnone
  · intro c s hvalue
    dsimp only at hvalue
    rw [hvalue] at hnone
    cases hnone

/-- **Putting a resource into an empty slot.** What was in storage before stays known: a slot that
was emptied gets a flag that is set. -/
theorem Sound.moveTo {x : ValueImpl} (h : Sound v k σ (x :: xs) M) {r : Slot}
    (hr : r ∈ M.dataStore) {value : GlobalValue} {m : VmMemory}
    (hmove : r.value.moveTo x M.memory = .ok (value, m)) :
    Sound v k σ xs (Machine.putSlot r value { M with memory := m }) := by
  have horigin := h.origin r hr
  -- a slot with a value takes no other
  cases hgv : r.value with
  | fresh c =>
    rw [hgv] at hmove
    cases hmove
  | cached c s =>
    rw [hgv] at hmove
    cases hmove
  | none =>
    rw [hgv] at hmove
    obtain ⟨value', hfresh, heq⟩ := Except.bind_eq_ok.mp hmove
    obtain ⟨rfl, rfl⟩ := Prod.mk.inj (Except.pure_eq_ok.mp heq)
    unfold GlobalValue.ofFresh at hfresh
    -- only a struct can be a resource
    split at hfresh
    · rename_i c
      obtain rfl := Except.ok.inj hfresh
      refine h.puts (puts_put h.keys { r with value := .fresh c }) ?_ (h.serializable r hr) ?_ ?_ ?_
      · rintro y (hy | hy)
        · exact .inl (List.mem_cons_of_mem _ hy)
        · obtain rfl := Option.some.inj hy
          exact .inl List.mem_cons_self
      · rw [Slot.Origin, hgv] at horigin
        exact horigin
      · intro c s hvalue
        cases hvalue
      · intro c s hvalue
        cases hvalue
    · cases hfresh
  | deleted =>
    -- the slot was emptied in this run: its new value is cached under a new flag
    rw [hgv] at hmove
    obtain ⟨c, rfl, rfl, rfl⟩ := GlobalValue.ofCached_eq_ok hmove
    have hflag := newStatus_respects M.memory .dirty ((.container ⟨.struct, c⟩ :: xs) ++ M.own)
    have hnew : Sound v k σ (.container ⟨.struct, c⟩ :: xs)
        { M with memory := M.memory.newStatus .dirty } :=
      h.moves ⟨rfl, hflag.weaken (fun _ h => h) fun _ h => .inr h⟩
    refine hnew.puts (puts_put hnew.keys { r with value := .cached c M.memory.nextStatus }) ?_
      (h.serializable r hr) ?_ ?_ ?_
    · rintro y (hy | hy)
      · exact .inl (List.mem_cons_of_mem _ hy)
      · obtain rfl := Option.some.inj hy
        exact .inl List.mem_cons_self
    · rw [Slot.Origin, hgv] at horigin
      exact horigin
    · intro c' s hvalue
      obtain ⟨rfl, rfl⟩ := GlobalValue.cached.inj hvalue
      exact Nat.lt_succ_self _
    · intro c' s hvalue hst
      obtain ⟨rfl, rfl⟩ := GlobalValue.cached.inj hvalue
      -- the new flag is set from the start, so nothing is asked of it
      have hdirty : (M.memory.newStatus .dirty).status M.memory.nextStatus = .dirty :=
        Function.update_self ..
      rw [hdirty] at hst
      cases hst

/-- **Borrowing a resource.** The reference is under the flag of the slot. -/
theorem Sound.borrowGlobal (h : Sound v k σ xs M) {r : Slot} (hr : r ∈ M.dataStore)
    {x : ValueImpl} (hborrow : r.value.borrowGlobal = .ok x) : Sound v k σ (x :: xs) M := by
  have hcontainer : ∀ c, r.value.value? = some (.container ⟨.struct, c⟩) →
      ∀ {other : Slot → Prop} {R}, Apart xs M other R → other r →
      R.Admits M.memory.heap.next (.owns c) := by
    intro c hvalue other R hapart ho
    exact hapart.slots r hr ho _ hvalue _ (List.mem_singleton_self (Hold.owns c))
  have hlent : ∀ c t, x.holds = [.borrows c t] → r.value.value? = some (.container ⟨.struct, c⟩) →
      (∀ c' s, r.value = .cached c' s → t = some s) → Sound v k σ (x :: xs) M := by
    intro c t hholds hvalue htag
    have hbound := (hcontainer c hvalue h.bounded trivial).1
    refine h.hand (outside_of_holds_singleton hholds (admits_borrows hbound fun hc => hc.elim)) ?_
    intro r' hr' c' s val R hvalue' hg
    apply outside_of_holds_singleton hholds
    by_cases hkey : r.key = r'.key
    · -- the slot's own region: the flag is its own
      obtain rfl := h.slot_unique hr' hr hkey
      exact admits_borrows hbound fun _ => (htag c' s hvalue').trans hg.tag.symm
    · have hadm := hcontainer c hvalue hg.apart hkey
      exact admits_borrows hbound fun hc => absurd hc hadm.not_mem
  cases hgv : r.value with
  | none =>
    rw [hgv] at hborrow
    cases hborrow
  | deleted =>
    rw [hgv] at hborrow
    cases hborrow
  -- a resource that is new has no flag
  | fresh c =>
    rw [hgv] at hborrow
    obtain rfl := Except.ok.inj hborrow
    refine hlent c none rfl (by rw [hgv]; rfl) fun c' s hvalue => ?_
    rw [hgv] at hvalue
    cases hvalue
  -- the reference carries the flag of the slot
  | cached c s =>
    rw [hgv] at hborrow
    obtain rfl := Except.ok.inj hborrow
    refine hlent c (some s) rfl (by rw [hgv]; rfl) fun c' s' hvalue => ?_
    rw [hgv] at hvalue
    rw [(GlobalValue.cached.inj hvalue).2]

end Machine

end NexusMove
