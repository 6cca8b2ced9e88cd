import NexusMove.Vm.StorageInvariant

/-!
# Runs over global storage

Every run, from whatever it was entered with and whatever its instructions are, keeps
the invariant of the data cache.

* `loadSlot_eq_ok` — what a slot is when it is loaded.
* `Machine.step_sound`, `Machine.run_sound`, `Machine.enter_sound` — runs.
-/

namespace NexusMove

open Region VmMemory

variable {v : Vendor} {k : TypeCosts} {σ : Store}

/-! ## Loading -/

/-- What the resolver reads is what the store holds under the key of the tag. -/
theorem getResourceBytes_eq_ok {a : AccountAddress} {t : StructTag} {data : Option Bytes} {n : Nat}
    (h : getResourceBytes v σ.view a t = .ok (data, n)) :
    ∃ key, t.toBcs = some key ∧ data = σ (a, key) := by
  cases hkey : t.toBcs with
  | none =>
    rw [getResourceBytes, hkey] at h
    cases h
  | some key =>
    rw [getResourceBytes_view hkey] at h
    exact ⟨key, rfl, (Prod.mk.inj (Except.ok.inj h)).1.symm⟩

/-- A slot that was just made for what is in storage. -/
structure FreshSlot (v : Vendor) (k : TypeCosts) (σ : Store) (m : VmMemory) (r : Slot)
    (m' : VmMemory) : Prop where
  serializable : (r.storageKey k).isSome = true
  value : r.value = .none ∧ m' = m ∧ r.storedBytes k σ = none
    ∨ ∃ val x c m₁, r.storedValue v k σ = some val ∧ represent r.layout val m = some (x, m₁)
      ∧ x = .container ⟨.struct, c⟩ ∧ r.value = .cached c m₁.nextStatus ∧ m' = m₁.newStatus .clean

/-- **Loading.** The slot is empty where storage has nothing, and else holds the value that is read
there, put into new cells and lent under a new flag. -/
theorem loadSlot_eq_ok {a : AccountAddress} {ty : ResourceTy} {m m' : VmMemory} {r : Slot} {n : Nat}
    (h : loadSlot v k σ.view a ty m = .ok (r, n, m')) :
    r.key = (a, ty.ty.key) ∧ FreshSlot v k σ m r m' := by
  obtain ⟨tag, htag, h⟩ := Except.bind_eq_ok.mp h
  obtain ⟨layout, -, h⟩ := Except.bind_eq_ok.mp h
  obtain ⟨-, h⟩ := Except.bind_unit_eq_ok.mp h
  obtain ⟨⟨data, n'⟩, hdata, h⟩ := Except.bind_eq_ok.mp h
  obtain ⟨⟨value, m₁⟩, hvalue, h⟩ := Except.bind_eq_ok.mp h
  obtain ⟨rfl, heq⟩ := Prod.mk.inj (Except.pure_eq_ok.mp h)
  obtain ⟨rfl, rfl⟩ := Prod.mk.inj heq
  obtain ⟨key, hkey, rfl⟩ := getResourceBytes_eq_ok hdata
  have hstorage : ∀ value, Slot.storageKey k { address := a, ty, layout, value } = some key := by
    intro value
    simp only [Slot.storageKey, htag, hkey]
  have hbytes : ∀ value, Slot.storedBytes k σ { address := a, ty, layout, value } = σ (a, key) := by
    intro value
    rw [Slot.storedBytes, hstorage]
    rfl
  refine ⟨rfl, by rw [hstorage]; rfl, ?_⟩
  unfold slotValue at hvalue
  split at hvalue
  · rename_i hnone
    -- no bytes: the slot is empty, and the machine is untouched
    obtain ⟨rfl, rfl⟩ := Prod.mk.inj (Except.ok.inj hvalue)
    exact .inl ⟨rfl, rfl, by rw [hbytes, hnone]⟩
  · rename_i blob hblob
    split at hvalue
    · cases hvalue
    · rename_i val hval
      split at hvalue
      · cases hvalue
      · -- the bytes were read as a value of the layout, which is built and then lent
        rename_i x m₂ hx
        obtain ⟨c, rfl, rfl, rfl⟩ := GlobalValue.ofCached_eq_ok hvalue
        refine .inr ⟨val, _, c, m₂, ?_, hx, rfl, rfl, rfl⟩
        rw [Slot.storedValue, hbytes, hblob]
        exact hval

namespace Machine

variable {xs : List ValueImpl} {M M' : Machine}

/-- What referred to cells there were is outside of the cells that are new. -/
theorem outside_newCells {m m₁ : VmMemory} {x : ValueImpl} (hx : noCells.Outside m x)
    {tag : Option Nat} (hnext : m.heap.next ≤ m₁.heap.next) : (newCells m m₁ tag).Outside m₁ x :=
  outside_of_bounded (fun h hh => (hx h hh).1) (fun _ hc => hc.1) hnext

/-- The new slot guards its cells: whatever the machine held is older. -/
theorem guards_of_built {r : Slot} {val : Value} {c : Nat} {m₁ : VmMemory} {cache : List Slot}
    (h : Sound v k σ xs M)
    (hbuilt : represent r.layout val M.memory = some (.container ⟨.struct, c⟩, m₁))
    (hcache : ∀ r' ∈ cache, r'.key ≠ r.key → r' ∈ M.dataStore) :
    Guards xs { M with memory := m₁.newStatus .clean, dataStore := cache } r c m₁.nextStatus val
      (newCells M.memory m₁ (some m₁.nextStatus)) := by
  obtain ⟨hnew, hvalue⟩ := represent_spec r.layout hbuilt
  refine ⟨?_, rfl, ⟨hnew.isSealed h.bounded.isSealed .clean, ?_, ?_⟩, hvalue⟩
  · -- the owner of the root cell is the new flag
    obtain ⟨d, hd, heq⟩ := hnew.values _ List.mem_cons_self _ List.mem_cons_self
    obtain rfl := Hold.owns.inj heq
    exact hd
  · -- what the machine holds lies below the cells that were built
    intro x hx
    exact outside_newCells (h.bounded.own x hx) hnew.next
  · intro r' hr' hne x hx
    exact outside_newCells (h.bounded.slots r' (hcache r' hr' hne) trivial x hx) hnew.next

/-- **Loading.** The slot is in the cache afterwards. -/
theorem Sound.load (h : Sound v k σ xs M) {a : AccountAddress} {ty : ResourceTy} {r : Slot}
    (hload : load v k σ.view a ty M = .ok (r, M')) :
    Sound v k σ xs M' ∧ r ∈ M'.dataStore ∧ r.key = (a, ty.ty.key) := by
  obtain ⟨⟨r', n, cache, m⟩, hres, hret⟩ := Except.bind_eq_ok.mp hload
  obtain ⟨rfl, rfl⟩ := Prod.mk.inj (Except.pure_eq_ok.mp hret)
  unfold loadResource at hres
  split at hres
  · -- the slot was in the cache
    rename_i found hfind
    obtain ⟨rfl, hrest⟩ := Prod.mk.inj (Except.ok.inj hres)
    obtain ⟨rfl, rfl⟩ := Prod.mk.inj (Prod.mk.inj hrest).2
    exact ⟨h, List.mem_of_find?_eq_some hfind, by simpa using List.find?_some hfind⟩
  · obtain ⟨⟨r'', n', m'⟩, hslot, hres⟩ := Except.bind_eq_ok.mp hres
    obtain ⟨rfl, hrest⟩ := Prod.mk.inj (Except.pure_eq_ok.mp hres)
    obtain ⟨rfl, rfl⟩ := Prod.mk.inj (Prod.mk.inj hrest).2
    obtain ⟨hkey, hserializable, hcases⟩ := loadSlot_eq_ok hslot
    have hput : r'' ∈ M.dataStore.put r'' := (KeyedList.mem_upsert h.keys).mpr (.inl rfl)
    refine ⟨?_, hput, hkey⟩
    rcases hcases with ⟨hnone, rfl, hstored⟩ | ⟨val, x, c, m₁, hval, hbuilt, rfl, hcached, rfl⟩
    · -- nothing in storage
      refine h.puts (puts_put h.keys r'') ?_ hserializable ?_ ?_ ?_
      · rintro y (hy | hy)
        · exact .inl hy
        · rw [hnone] at hy
          cases hy
      · rw [Slot.Origin, hnone]
        exact hstored
      · intro c s hvalue
        rw [hnone] at hvalue
        cases hvalue
      · intro c s hvalue
        rw [hnone] at hvalue
        cases hvalue
    · -- the value is built, then lent under a new flag, then put into its slot
      have hspec := (represent_spec r''.layout hbuilt).1
      have hbuild : Moves xs M (.container ⟨.struct, c⟩ :: xs) { M with memory := m₁ } := by
        refine Moves.keep (.ofMemory (hspec.respects []) (by simp)) ?_
        simp
      have hflag : Moves (.container ⟨.struct, c⟩ :: xs) { M with memory := m₁ }
          (.container ⟨.struct, c⟩ :: xs) { M with memory := m₁.newStatus .clean } :=
        Moves.keep (.ofMemory (newStatus_respects m₁ .clean []) (by simp)) (by simp)
      have hnew := h.moves (hbuild.trans hflag)
      refine hnew.puts (puts_put hnew.keys r'') ?_ hserializable ?_ ?_ ?_
      · rintro y (hy | hy)
        · exact .inl (List.mem_cons_of_mem _ hy)
        · rw [hcached] at hy
          obtain rfl := Option.some.inj hy
          exact .inl List.mem_cons_self
      · rw [Slot.Origin, hcached, hval]
        rfl
      · intro c' s hvalue
        rw [hcached] at hvalue
        obtain ⟨rfl, rfl⟩ := GlobalValue.cached.inj hvalue
        exact Nat.lt_succ_self _
      · intro c' s hvalue _
        rw [hcached] at hvalue
        obtain ⟨rfl, rfl⟩ := GlobalValue.cached.inj hvalue
        refine ⟨val, _, hval, guards_of_built h hbuilt ?_⟩
        intro r' hr' hne
        have hold := ((KeyedList.mem_upsert h.keys).mp hr').resolve_left fun heq => hne (by rw [heq])
        exact hold.1

/-! ## Steps -/

theorem popSignerAddress_moves {depth : Nat} {a : AccountAddress}
    (h : M.popSignerAddress depth = .ok (a, M')) : Moves xs M xs M' := by
  obtain ⟨⟨r, M₁⟩, hpop, h⟩ := Except.bind_eq_ok.mp h
  obtain ⟨ref, hborrow, h⟩ := Except.bind_eq_ok.mp h
  obtain ⟨⟨x, m⟩, hread, h⟩ := Except.bind_eq_ok.mp h
  split at h
  · -- the reference to the signer is borrowed, read, and dropped
    rename_i heq
    obtain ⟨rfl, rfl⟩ := Prod.mk.inj heq
    obtain ⟨rfl, rfl⟩ := Prod.mk.inj (Except.ok.inj h)
    have hborrowed : Moves [.containerRef r] M₁ [ref] M₁ :=
      .ofMemory (ContainerRef.borrowElem_respects (refers_containerRef r) hborrow) (by simp)
    have hcopied : Moves [ref] M₁ [] { M₁ with memory := m } :=
      (Moves.ofMemory (Reference.readRef_respects hread) (by simp)).drop (by simp)
    have hall := (((popContainerRef_moves hpop).trans hborrowed).trans hcopied).frame xs
    simpa using hall
  · cases h

/-- **Steps.** Every instruction keeps the invariant. -/
theorem step_sound {e : Event} (h : Sound v k σ [] M) (hstep : M.step v k σ.view e = .ok M') :
    Sound v k σ [] M' := by
  unfold step at hstep
  split at hstep
  · -- borrow_global
    obtain ⟨⟨a, M₁⟩, hpop, hstep⟩ := Except.bind_eq_ok.mp hstep
    obtain ⟨⟨r, M₂⟩, hload, hstep⟩ := Except.bind_eq_ok.mp hstep
    obtain ⟨x, hborrow, hpush⟩ := Except.bind_eq_ok.mp hstep
    obtain ⟨hsound, hr, -⟩ := (h.moves (popAddress_moves hpop)).load hload
    exact (hsound.borrowGlobal hr (Except.mapError_eq_ok.mp hborrow)).moves (push_moves hpush)
  · -- exists
    obtain ⟨⟨a, M₁⟩, hpop, hstep⟩ := Except.bind_eq_ok.mp hstep
    obtain ⟨⟨r, M₂⟩, hload, hpush⟩ := Except.bind_eq_ok.mp hstep
    obtain ⟨hsound, -, -⟩ := (h.moves (popAddress_moves hpop)).load hload
    have hbool : Respects [] M₂.memory M₂.memory [.prim (.bool r.value.isPresent)] :=
      (Built.place M₂.memory rfl).respects []
    exact hsound.moves (push_of_respects hbool (by simp) hpush)
  · -- move_from
    obtain ⟨⟨a, M₁⟩, hpop, hstep⟩ := Except.bind_eq_ok.mp hstep
    obtain ⟨⟨r, M₂⟩, hload, hstep⟩ := Except.bind_eq_ok.mp hstep
    obtain ⟨⟨x, value⟩, hmove, hpush⟩ := Except.bind_eq_ok.mp hstep
    obtain ⟨hsound, hr, -⟩ := (h.moves (popAddress_moves hpop)).load hload
    exact (hsound.moveFrom hr (Except.mapError_eq_ok.mp hmove)).moves (push_moves hpush)
  · -- move_to
    obtain ⟨⟨x, M₁⟩, hpop, hstep⟩ := Except.bind_eq_ok.mp hstep
    obtain ⟨⟨a, M₂⟩, hsigner, hstep⟩ := Except.bind_eq_ok.mp hstep
    obtain ⟨⟨r, M₃⟩, hload, hstep⟩ := Except.bind_eq_ok.mp hstep
    obtain ⟨⟨value, m⟩, hmove, hput⟩ := Except.bind_eq_ok.mp hstep
    obtain rfl := Except.pure_eq_ok.mp hput
    have hpopped := (pop_moves hpop).trans (popSignerAddress_moves hsigner)
    obtain ⟨hsound, hr, -⟩ := (h.moves hpopped).load hload
    exact hsound.moveTo hr (Except.mapError_eq_ok.mp hmove)
  · exact h.moves (stepLocal_moves hstep)

/-- **Runs.** Whatever the instructions are. -/
theorem run_sound {es : List Event} (h : Sound v k σ [] M) (hrun : M.run v k σ.view es = .ok M') :
    Sound v k σ [] M' := by
  induction es generalizing M with
  | nil =>
    obtain rfl := Except.ok.inj hrun
    exact h
  | cons e es ih =>
    obtain ⟨M₁, hstep, hrest⟩ := Except.bind_eq_ok.mp hrun
    exact ih (step_sound h hstep) hrest

/-! ## Where a run starts -/

theorem passArg_respects {dummy : Locals} {idx : Nat} {arg : Argument} {x y : ValueImpl}
    {m m' : VmMemory} (h : passArg dummy idx arg x m = .ok (y, m')) :
    Respects [dummy.owner, x] m m' [y] := by
  cases arg with
  | owned _ =>
    obtain ⟨rfl, rfl⟩ := Prod.mk.inj (Except.ok.inj h)
    exact .refl (by simp)
  | borrowed _ =>
    obtain ⟨m₁, hstore, h⟩ := Except.bind_eq_ok.mp h
    obtain ⟨ref, hborrow, h⟩ := Except.bind_eq_ok.mp h
    obtain ⟨rfl, rfl⟩ := Prod.mk.inj (Except.pure_eq_ok.mp h)
    exact (Locals.storeLoc_respects hstore).trans (Locals.borrowLoc_respects hborrow) (by simp)

theorem enterArgs_respects {dummy : Locals} {idx : Nat} {args : List (Layout × Argument)}
    {m m' : VmMemory} (h : enterArgs dummy idx args m = .ok (xs, m')) :
    Respects [dummy.owner] m m' xs := by
  induction args generalizing idx m xs with
  | nil =>
    obtain ⟨rfl, rfl⟩ := Prod.mk.inj (Except.ok.inj h)
    exact .refl (by simp)
  | cons p args ih =>
    obtain ⟨layout, arg⟩ := p
    simp only [enterArgs] at h
    split at h
    · cases h
    · rename_i x m₁ hx
      obtain ⟨⟨y, m₂⟩, hpass, h⟩ := Except.bind_eq_ok.mp h
      obtain ⟨⟨ys, m₃⟩, hrest, h⟩ := Except.bind_eq_ok.mp h
      obtain ⟨rfl, rfl⟩ := Prod.mk.inj (Except.pure_eq_ok.mp h)
      have hbuilt : Respects [dummy.owner] m m₁ [x] := (represent_spec layout hx).1.respects _
      have hpassed : Respects [dummy.owner] m m₂ [y] :=
        hbuilt.trans (passArg_respects hpass) (by simp)
      have hlater : Respects [dummy.owner, y] m₂ m₃ (y :: ys) :=
        (ih hrest).weaken (by simp) (by grind)
      exact hpassed.trans hlater (by simp)

theorem storeEach_respects {l : Locals} {idx : Nat} {m m' : VmMemory}
    (h : storeEach l idx xs m = .ok m') : Respects (l.owner :: xs) m m' [] := by
  induction xs generalizing idx m with
  | nil =>
    obtain rfl := Except.ok.inj h
    exact .refl (by simp)
  | cons x xs ih =>
    obtain ⟨m₁, hstore, hrest⟩ := Except.bind_eq_ok.mp h
    have hfirst : Respects (l.owner :: x :: xs) m m₁ [] :=
      (Locals.storeLoc_respects hstore).weaken (by simp) (by simp)
    exact hfirst.trans (ih hrest) (by grind)

theorem isSealed_empty : VmMemory.empty.Sealed noCells where
  heap := ⟨fun _ hc => hc.elim, fun _ hc => hc.elim, fun _ _ v hv => by cases hv⟩
  flag _ hc := hc.elim

/-- **Entering.** The memory holds what was read of the arguments, and nothing of storage. -/
theorem enter_sound {numLocals : Nat} {args : List (Layout × Argument)}
    (h : enter numLocals args = .ok M) : Sound v k σ [] M := by
  obtain ⟨⟨xs, m₁⟩, hargs, h⟩ := Except.bind_eq_ok.mp h
  obtain ⟨m₃, hstore, h⟩ := Except.bind_eq_ok.mp h
  obtain rfl := Except.pure_eq_ok.mp h
  let d : Locals := (newLocals args.length .empty).1
  let l : Locals := (newLocals numLocals m₁).1
  have hdummy : Respects [] .empty (newLocals args.length .empty).2 [d.owner] :=
    newLocals_respects args.length .empty
  have hread : Respects [d.owner] (newLocals args.length .empty).2 m₁ (d.owner :: xs) :=
    (enterArgs_respects hargs).weaken (fun _ hx => hx) (by grind)
  have hlocals : Respects (d.owner :: xs) m₁ (newLocals numLocals m₁).2
      (l.owner :: d.owner :: xs) :=
    (newLocals_respects numLocals m₁).weaken (by simp) (by grind)
  have hstored : Respects (l.owner :: d.owner :: xs) (newLocals numLocals m₁).2 m₃
      [d.owner, l.owner] :=
    (storeEach_respects (l := l) hstore).weaken (by grind) (by simp)
  have hall : Respects [] .empty m₃ [d.owner, l.owner] :=
    ((hdummy.trans hread (by simp)).trans hlocals (by simp)).trans hstored (by simp)
  refine ⟨List.nodup_nil, ?_, ?_, ?_, ?_, ?_⟩
  · rcases hall.region noCells isSealed_empty (by simp) with haltered | hkept
    · exact absurd haltered not_altered_noCells
    · refine ⟨hkept.isSealed, hkept.outside, ?_⟩
      intro r hr
      cases hr
  all_goals
    intro r hr
    cases hr

end Machine

end NexusMove
