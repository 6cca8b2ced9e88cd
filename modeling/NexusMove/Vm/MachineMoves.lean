import NexusMove.Vm.Machine

/-!
# What an instruction respects

The values of a machine are those on its stack and the owners of its locals, and for
the length of an instruction those it has taken off the stack. Every instruction that
does not look at global storage comes from such values to such values by steps that
respect sealed regions, and leaves the data cache alone.

* `Machine.Moves` — the specification of a part of an instruction.
* `Machine.stepLocal_moves` — every such instruction meets it.
-/

namespace NexusMove

open Region VmMemory

namespace Machine

/-- The values a machine holds. -/
def own (M : Machine) : List ValueImpl :=
  M.operands ++ (M.dummyLocals.owner :: M.frames.map Locals.owner)

/-- From `M` with the values `xs` in hand to `M'` with `ys` in hand, the data cache left alone. -/
structure Moves (xs : List ValueImpl) (M : Machine) (ys : List ValueImpl) (M' : Machine) :
    Prop where
  dataStore : M'.dataStore = M.dataStore
  respects : Respects (xs ++ M.own) M.memory M'.memory (ys ++ M'.own)

namespace Moves

variable {xs ys zs bs : List ValueImpl} {M M₁ M' : Machine}

/-- What is in hand is laid down or passed on, or was held anyway. -/
theorem of_own (hstore : M'.dataStore = M.dataStore) (hmem : M'.memory = M.memory)
    (hown : ∀ y ∈ ys ++ M'.own, y ∈ xs ++ M.own) : Moves xs M ys M' where
  dataStore := hstore
  respects := by
    rw [hmem]
    exact .refl hown

theorem refl (xs : List ValueImpl) (M : Machine) : Moves xs M xs M :=
  of_own rfl rfl fun _ h => h

/-- **Steps in a row.** The values in hand after the first are those before the second. -/
theorem trans (h₁ : Moves xs M ys M₁) (h₂ : Moves ys M₁ zs M') : Moves xs M zs M' where
  dataStore := h₂.dataStore.trans h₁.dataStore
  respects := h₁.respects.trans h₂.respects fun _ hb => .inr hb

/-- What else is in hand stays in hand. -/
theorem frame (h : Moves xs M ys M') (zs : List ValueImpl) : Moves (zs ++ xs) M (zs ++ ys) M' where
  dataStore := h.dataStore
  respects := by
    apply h.respects.weaken
    · grind
    · grind

/-- What was in hand may stay there, and what is not needed any more is dropped. -/
theorem keep (h : Moves xs M ys M') (hzs : ∀ z ∈ zs, z ∈ ys ∨ z ∈ xs) : Moves xs M zs M' where
  dataStore := h.dataStore
  respects := by
    apply h.respects.weaken (fun _ h => h)
    grind

theorem drop (h : Moves xs M ys M') (hzs : ∀ z ∈ zs, z ∈ ys) : Moves xs M zs M' :=
  h.keep fun z hz => .inl (hzs z hz)

/-- An operation on memory, on values in hand. -/
theorem ofMemory {args vs : List ValueImpl} {m : VmMemory} (h : Respects args M.memory m vs)
    (hargs : ∀ a ∈ args, a ∈ xs ++ M.own) : Moves xs M vs { M with memory := m } where
  dataStore := rfl
  respects := by
    apply h.weaken hargs
    intro w hw
    rcases List.mem_append.mp hw with hw | hw
    · exact .inl hw
    · exact .inr (List.mem_append_right xs hw)

end Moves

variable {M M' : Machine} {x : ValueImpl} {xs : List ValueImpl}

/-! ## The operand stack -/

/-- A value goes from hand to the operand stack. -/
theorem push_moves (h : M.push x = .ok M') : Moves [x] M [] M' := by
  unfold push at h
  split at h
  · obtain rfl := Except.ok.inj h
    exact .of_own rfl rfl fun y hy => hy
  · cases h

theorem pushAll_moves (h : pushAll xs M = .ok M') : Moves xs M [] M' := by
  induction xs generalizing M with
  | nil =>
    obtain rfl := Except.ok.inj h
    exact .refl [] M
  | cons x xs ih =>
    obtain ⟨M₁, hpush, hrest⟩ := Except.bind_eq_ok.mp h
    have hx : Moves (xs ++ [x]) M (xs ++ []) M₁ := (push_moves hpush).frame xs
    rw [List.append_nil] at hx
    have hall := hx.trans (ih hrest)
    refine ⟨hall.dataStore, hall.respects.weaken ?_ fun _ hv => .inl hv⟩
    grind

/-- A value goes from the operand stack to hand. -/
theorem pop_moves (h : M.pop = .ok (x, M')) : Moves [] M [x] M' := by
  unfold pop at h
  split at h
  · cases h
  · rename_i y ys hops
    obtain ⟨rfl, rfl⟩ := Prod.mk.inj (Except.ok.inj h)
    refine Moves.of_own rfl rfl ?_
    simp [own, hops]

theorem popn_moves {n : Nat} (h : M.popn n = .ok (xs, M')) : Moves [] M xs M' := by
  unfold popn at h
  split at h
  · cases h
  · obtain ⟨rfl, rfl⟩ := Prod.mk.inj (Except.ok.inj h)
    refine Moves.of_own rfl rfl ?_
    intro y hy
    have htake : ∀ z ∈ M.operands.take n, z ∈ M.operands := fun _ hz => List.mem_of_mem_take hz
    have hdrop : ∀ z ∈ M.operands.drop n, z ∈ M.operands := fun _ hz => List.mem_of_mem_drop hz
    simp only [own, List.nil_append, List.mem_append, List.mem_reverse] at hy ⊢
    grind

theorem popContainerRef_moves {r : ContainerRef} (h : M.popContainerRef = .ok (r, M')) :
    Moves [] M [.containerRef r] M' := by
  obtain ⟨⟨y, M₁⟩, hpop, h⟩ := Except.bind_eq_ok.mp h
  split at h
  · rename_i heq
    obtain ⟨rfl, rfl⟩ := Prod.mk.inj heq
    obtain ⟨rfl, rfl⟩ := Prod.mk.inj (Except.ok.inj h)
    exact pop_moves hpop
  · cases h

theorem popContainer_moves {c : Container} (h : M.popContainer = .ok (c, M')) :
    Moves [] M [.container c] M' := by
  obtain ⟨⟨y, M₁⟩, hpop, h⟩ := Except.bind_eq_ok.mp h
  split at h
  · rename_i heq
    obtain ⟨rfl, rfl⟩ := Prod.mk.inj heq
    obtain ⟨rfl, rfl⟩ := Prod.mk.inj (Except.ok.inj h)
    exact pop_moves hpop
  · cases h

/-- An address holds nothing, so it need not be kept in hand. -/
theorem popAddress_moves {a : AccountAddress} (h : M.popAddress = .ok (a, M')) :
    Moves [] M [] M' := by
  obtain ⟨⟨y, M₁⟩, hpop, h⟩ := Except.bind_eq_ok.mp h
  split at h
  · rename_i heq
    obtain ⟨rfl, rfl⟩ := Prod.mk.inj heq
    obtain ⟨rfl, rfl⟩ := Prod.mk.inj (Except.ok.inj h)
    exact (pop_moves hpop).drop (by simp)
  · cases h

theorem popU64_moves {n : Nat} (h : M.popU64 = .ok (n, M')) : Moves [] M [] M' := by
  obtain ⟨⟨y, M₁⟩, hpop, h⟩ := Except.bind_eq_ok.mp h
  split at h
  · rename_i heq
    obtain ⟨rfl, rfl⟩ := Prod.mk.inj heq
    obtain ⟨rfl, rfl⟩ := Prod.mk.inj (Except.ok.inj h)
    exact (pop_moves hpop).drop (by simp)
  · cases h

/-- The fields of a struct, which is used up. -/
theorem popStruct_moves {rc : Nat → Nat} (h : M.popStruct rc = .ok (xs, M')) :
    Moves [] M xs M' := by
  obtain ⟨⟨y, M₁⟩, hpop, h⟩ := Except.bind_eq_ok.mp h
  obtain ⟨⟨fields, m⟩, hcast, h⟩ := Except.bind_eq_ok.mp h
  obtain ⟨rfl, rfl⟩ := Prod.mk.inj (Except.pure_eq_ok.mp h)
  exact (pop_moves hpop).trans (.ofMemory (castStruct_respects hcast) (by simp))

theorem locals_mem {l : Locals} (h : M.locals = .ok l) : l.owner ∈ M.own := by
  unfold locals at h
  split at h
  · cases h
  · rename_i l' ls hframes
    obtain rfl := Except.ok.inj h
    simp [own, hframes]

/-! ## Calls -/

/-- The cell of a new frame is outside of every region. -/
theorem newLocals_respects (n : Nat) (m : VmMemory) :
    Respects [] m (newLocals n m).2 [(newLocals n m).1.owner] where
  grows := alloc_grows .locals _
  region R hR _ := by
    refine .inr (kept_alloc hR .locals fun v hv => ?_)
    obtain rfl := List.eq_of_mem_replicate hv
    exact outside_of_holds_nil rfl

/-- The arguments go from the operand stack to the new locals. -/
theorem storeArgs_moves {l : Locals} {rc : Nat → Nat} {n : Nat}
    (h : storeArgs l rc n M = .ok M') : Moves [l.owner] M [l.owner] M' := by
  induction n generalizing M with
  | zero =>
    obtain rfl := Except.ok.inj h
    exact .refl _ M
  | succ n ih =>
    obtain ⟨⟨x, M₁⟩, hpop, h⟩ := Except.bind_eq_ok.mp h
    obtain ⟨m, hstore, hrest⟩ := Except.bind_eq_ok.mp h
    have hpopped : Moves [l.owner] M [l.owner, x] M₁ := (pop_moves hpop).frame [l.owner]
    have hstored : Moves [l.owner, x] M₁ [] { M₁ with memory := m } :=
      -- the argument leaves the hand when it is stored
      .ofMemory (Locals.storeLoc_respects hstore) (by simp)
    have hkept : Moves [l.owner, x] M₁ [l.owner] { M₁ with memory := m } :=
      hstored.keep (by simp)
    exact (hpopped.trans hkept).trans (ih hrest)

/-- A call: new locals, the arguments, a new frame. -/
theorem call_moves {numParams numLocals : Nat} {rc : Nat → Nat}
    (h : M.call numParams numLocals rc = .ok M') : Moves [] M [] M' := by
  obtain ⟨M₁, hargs, h⟩ := Except.bind_eq_ok.mp h
  have hnew : Moves [] M [(newLocals numLocals M.memory).1.owner]
      { M with memory := (newLocals numLocals M.memory).2 } :=
    .ofMemory (newLocals_respects numLocals M.memory) (by simp)
  have hstored := hnew.trans (storeArgs_moves hargs)
  split at h
  · -- the owner of the new locals goes from hand to the frames
    obtain rfl := Except.ok.inj h
    refine hstored.trans (.of_own rfl rfl ?_)
    intro y hy
    change y ∈ M₁.operands ++ (M₁.dummyLocals.owner
      :: (newLocals numLocals M.memory).1.owner :: M₁.frames.map Locals.owner) at hy
    simp only [own, List.mem_append, List.mem_cons] at hy ⊢
    tauto
  · cases h

/-- A return drops the locals of the frame. -/
theorem ret_moves (h : M.ret = .ok M') : Moves [] M [] M' := by
  obtain ⟨l, hl, h⟩ := Except.bind_eq_ok.mp h
  obtain rfl := Except.pure_eq_ok.mp h
  have hdrop : Moves [] M [] { M with memory := l.dropAllValues M.memory } :=
    .ofMemory (Locals.dropAllValues_respects l M.memory) (by simpa using locals_mem hl)
  refine hdrop.trans (.of_own rfl rfl ?_)
  intro y hy
  -- the frames that are left were there before
  have htail : ∀ z ∈ M.frames.tail.map Locals.owner, z ∈ M.frames.map Locals.owner := by
    intro z hz
    obtain ⟨l', hl', rfl⟩ := List.mem_map.mp hz
    exact List.mem_map_of_mem (List.mem_of_mem_tail hl')
  simp only [own, List.nil_append, List.mem_append, List.mem_cons] at hy ⊢
  grind

/-- Values that come from outside are built from new cells. -/
theorem representAll_built {vs : List (Layout × Value)} {m m' : VmMemory}
    (h : representAll vs m = .ok (xs, m')) : Built m m' xs := by
  induction vs generalizing m xs with
  | nil =>
    obtain ⟨rfl, rfl⟩ := Prod.mk.inj (Except.ok.inj h)
    exact .refl m
  | cons p vs ih =>
    obtain ⟨layout, value⟩ := p
    simp only [representAll] at h
    split at h
    · cases h
    · -- a value that the layout does not take is an error
      rename_i x m₁ hx
      obtain ⟨⟨xs', m₂⟩, hxs, h⟩ := Except.bind_eq_ok.mp h
      obtain ⟨rfl, rfl⟩ := Prod.mk.inj (Except.pure_eq_ok.mp h)
      have hbuilt := (represent_spec layout hx).1.trans (ih hxs)
      exact hbuilt

/-- An operation on values that looks at nothing else. -/
theorem compute_moves {numArgs : Nat} {native : Native} (h : M.compute numArgs native = .ok M') :
    Moves [] M [] M' := by
  obtain ⟨⟨args, M₁⟩, hpop, h⟩ := Except.bind_eq_ok.mp h
  obtain ⟨results, -, h⟩ := Except.bind_eq_ok.mp h
  obtain ⟨⟨xs, m⟩, hnew, hpush⟩ := Except.bind_eq_ok.mp h
  have hpopped : Moves [] M [] M₁ := (popn_moves hpop).drop (by simp)
  have hbuilt : Moves [] M₁ xs { M₁ with memory := m } :=
    .ofMemory ((representAll_built hnew).respects []) (by simp)
  exact (hpopped.trans hbuilt).trans (pushAll_moves hpush)

/-! ## Every instruction -/

/-- A value that an operation on memory gives is pushed. -/
theorem push_of_respects {args : List ValueImpl} {m : VmMemory}
    (h : Respects args M.memory m [x]) (hargs : ∀ a ∈ args, a ∈ xs ++ M.own)
    (hpush : push x { M with memory := m } = .ok M') : Moves xs M [] M' :=
  (Moves.ofMemory h hargs).trans (push_moves hpush)

/-- **Instructions.** One case for each instruction that does not look at global storage. -/
theorem stepLocal_moves {e : Event} (h : M.stepLocal e = .ok M') : Moves [] M [] M' := by
  obtain ⟨instr, rc, depth⟩ := e
  cases instr with
  | pop =>
    obtain ⟨⟨x, M₁⟩, hpop, h⟩ := Except.bind_eq_ok.mp h
    obtain rfl := Except.pure_eq_ok.mp h
    exact (pop_moves hpop).drop (by simp)
  | copyLoc idx =>
    obtain ⟨l, -, h⟩ := Except.bind_eq_ok.mp h
    obtain ⟨⟨x, m⟩, hcopy, hpush⟩ := Except.bind_eq_ok.mp h
    exact push_of_respects (Locals.copyLoc_respects hcopy []) (by simp) hpush
  | moveLoc idx =>
    obtain ⟨l, hl, h⟩ := Except.bind_eq_ok.mp h
    obtain ⟨⟨x, m⟩, hmove, hpush⟩ := Except.bind_eq_ok.mp h
    exact push_of_respects (Locals.moveLoc_respects hmove) (by simpa using locals_mem hl) hpush
  | stLoc idx =>
    obtain ⟨⟨x, M₁⟩, hpop, h⟩ := Except.bind_eq_ok.mp h
    obtain ⟨l, hl, h⟩ := Except.bind_eq_ok.mp h
    obtain ⟨m, hstore, h⟩ := Except.bind_eq_ok.mp h
    obtain rfl := Except.pure_eq_ok.mp h
    have hmem := locals_mem hl
    exact (pop_moves hpop).trans (.ofMemory (Locals.storeLoc_respects hstore) (by simp [hmem]))
  | borrowLoc idx =>
    obtain ⟨l, hl, h⟩ := Except.bind_eq_ok.mp h
    obtain ⟨x, hborrow, hpush⟩ := Except.bind_eq_ok.mp h
    exact push_of_respects (Locals.borrowLoc_respects hborrow) (by simpa using locals_mem hl) hpush
  | borrowField offset =>
    obtain ⟨⟨r, M₁⟩, hpop, h⟩ := Except.bind_eq_ok.mp h
    obtain ⟨x, hborrow, hpush⟩ := Except.bind_eq_ok.mp h
    exact (popContainerRef_moves hpop).trans (push_of_respects
      (ContainerRef.borrowElem_respects (refers_containerRef r) hborrow) (by simp) hpush)
  | borrowVariantField variants offset =>
    obtain ⟨⟨r, M₁⟩, hpop, h⟩ := Except.bind_eq_ok.mp h
    obtain ⟨x, hborrow, hpush⟩ := Except.bind_eq_ok.mp h
    exact (popContainerRef_moves hpop).trans (push_of_respects
      (ContainerRef.borrowVariantField_respects (refers_containerRef r) hborrow) (by simp) hpush)
  | pack fieldCount =>
    obtain ⟨⟨args, M₁⟩, hpop, hpush⟩ := Except.bind_eq_ok.mp h
    exact (popn_moves hpop).trans
      (push_of_respects (alloc_respects .struct args) (by simp +contextual) hpush)
  | packVariant variant fieldCount =>
    obtain ⟨⟨args, M₁⟩, hpop, hpush⟩ := Except.bind_eq_ok.mp h
    -- the tag goes in front of the fields and holds nothing
    have halloc : Respects args M₁.memory
        (M₁.memory.alloc .struct (.prim (.u16 variant) :: args)).2
        [(M₁.memory.alloc .struct (.prim (.u16 variant) :: args)).1] := by
      refine ⟨alloc_grows .., fun R hR hargs => .inr (kept_alloc hR .struct fun w hw => ?_)⟩
      rcases List.mem_cons.mp hw with rfl | hw
      · exact outside_of_holds_nil rfl
      · exact hargs w hw
    exact (popn_moves hpop).trans (push_of_respects halloc (by simp +contextual) hpush)
  | unpack =>
    obtain ⟨⟨fields, M₁⟩, hpop, hpush⟩ := Except.bind_eq_ok.mp h
    exact (popStruct_moves hpop).trans (pushAll_moves hpush)
  | unpackVariant variant =>
    obtain ⟨⟨fields, M₁⟩, hpop, h⟩ := Except.bind_eq_ok.mp h
    obtain ⟨fields', hunpack, hpush⟩ := Except.bind_eq_ok.mp h
    exact ((popStruct_moves hpop).drop (unpackVariant_subset hunpack)).trans (pushAll_moves hpush)
  | testVariant variant =>
    obtain ⟨⟨r, M₁⟩, hpop, h⟩ := Except.bind_eq_ok.mp h
    obtain ⟨tag, -, hpush⟩ := Except.bind_eq_ok.mp h
    have hbool : Respects [] M₁.memory M₁.memory [.prim (.bool (tag = variant))] :=
      (Built.place M₁.memory rfl).respects []
    exact (popContainerRef_moves hpop).trans (push_of_respects hbool (by simp) hpush)
  | readRef =>
    obtain ⟨⟨ref, M₁⟩, hpop, h⟩ := Except.bind_eq_ok.mp h
    obtain ⟨⟨x, m⟩, hread, hpush⟩ := Except.bind_eq_ok.mp h
    exact (pop_moves hpop).trans
      (push_of_respects (Reference.readRef_respects hread) (by simp) hpush)
  | writeRef =>
    obtain ⟨⟨ref, M₁⟩, hpop, h⟩ := Except.bind_eq_ok.mp h
    obtain ⟨⟨x, M₂⟩, hpop₂, h⟩ := Except.bind_eq_ok.mp h
    obtain ⟨m, hwrite, h⟩ := Except.bind_eq_ok.mp h
    obtain rfl := Except.pure_eq_ok.mp h
    have hboth : Moves [] M [ref, x] M₂ := (pop_moves hpop).trans ((pop_moves hpop₂).frame [ref])
    exact hboth.trans (.ofMemory (Reference.writeRef_respects hwrite) (by simp))
  -- references know nothing of being mutable
  | freezeRef =>
    obtain rfl := Except.ok.inj h
    exact .refl [] M
  | vecPack ty num =>
    obtain ⟨⟨elems, M₁⟩, hpop, h⟩ := Except.bind_eq_ok.mp h
    obtain ⟨⟨x, m⟩, hpack, hpush⟩ := Except.bind_eq_ok.mp h
    exact (popn_moves hpop).trans
      (push_of_respects (vecPack_respects hpack) (by simp +contextual) hpush)
  | vecLen ty =>
    obtain ⟨⟨r, M₁⟩, hpop, h⟩ := Except.bind_eq_ok.mp h
    obtain ⟨len, -, hpush⟩ := Except.bind_eq_ok.mp h
    have hlen : Respects [] M₁.memory M₁.memory [.prim (.u64 (.ofNat len))] :=
      (Built.place M₁.memory rfl).respects []
    exact (popContainerRef_moves hpop).trans (push_of_respects hlen (by simp) hpush)
  | vecBorrow ty =>
    obtain ⟨⟨idx, M₁⟩, hpop, h⟩ := Except.bind_eq_ok.mp h
    obtain ⟨⟨r, M₂⟩, hpop₂, h⟩ := Except.bind_eq_ok.mp h
    obtain ⟨x, hborrow, hpush⟩ := Except.bind_eq_ok.mp h
    have hr := (popU64_moves hpop).trans (popContainerRef_moves hpop₂)
    exact hr.trans (push_of_respects
      (ContainerRef.vecBorrowElem_respects (refers_containerRef r) hborrow) (by simp) hpush)
  | vecPushBack ty =>
    obtain ⟨⟨x, M₁⟩, hpop, h⟩ := Except.bind_eq_ok.mp h
    obtain ⟨⟨r, M₂⟩, hpop₂, h⟩ := Except.bind_eq_ok.mp h
    obtain ⟨m, hpushBack, h⟩ := Except.bind_eq_ok.mp h
    obtain rfl := Except.pure_eq_ok.mp h
    have hboth : Moves [] M [x, .containerRef r] M₂ :=
      (pop_moves hpop).trans ((popContainerRef_moves hpop₂).frame [x])
    exact hboth.trans (.ofMemory
      (ContainerRef.vecPushBack_respects (refers_containerRef r) hpushBack) (by simp))
  | vecPopBack ty =>
    obtain ⟨⟨r, M₁⟩, hpop, h⟩ := Except.bind_eq_ok.mp h
    obtain ⟨⟨x, m⟩, hpopBack, hpush⟩ := Except.bind_eq_ok.mp h
    exact (popContainerRef_moves hpop).trans (push_of_respects
      (ContainerRef.vecPop_respects (refers_containerRef r) hpopBack) (by simp) hpush)
  -- the vector is used up and its elements are pushed
  | vecUnpack ty num =>
    obtain ⟨⟨c, M₁⟩, hpop, h⟩ := Except.bind_eq_ok.mp h
    obtain ⟨⟨elems, m⟩, hunpack, hpush⟩ := Except.bind_eq_ok.mp h
    have helems : Moves [.container c] M₁ elems { M₁ with memory := m } :=
      .ofMemory (vecUnpack_respects hunpack) (by simp)
    exact ((popContainer_moves hpop).trans helems).trans (pushAll_moves hpush)
  -- both indices, then the reference
  | vecSwap ty =>
    obtain ⟨⟨idx2, M₁⟩, hpop, h⟩ := Except.bind_eq_ok.mp h
    obtain ⟨⟨idx1, M₂⟩, hpop₂, h⟩ := Except.bind_eq_ok.mp h
    obtain ⟨⟨r, M₃⟩, hpop₃, h⟩ := Except.bind_eq_ok.mp h
    obtain ⟨m, hswap, h⟩ := Except.bind_eq_ok.mp h
    obtain rfl := Except.pure_eq_ok.mp h
    have hr := ((popU64_moves hpop).trans (popU64_moves hpop₂)).trans (popContainerRef_moves hpop₃)
    exact hr.trans (.ofMemory
      (ContainerRef.vecSwap_respects (refers_containerRef r) hswap) (by simp))
  | call numParams numLocals => exact call_moves h
  | ret => exact ret_moves h
  | borrowSigner =>
    obtain ⟨⟨r, M₁⟩, hpop, h⟩ := Except.bind_eq_ok.mp h
    obtain ⟨x, hborrow, hpush⟩ := Except.bind_eq_ok.mp h
    exact (popContainerRef_moves hpop).trans (push_of_respects
      (ContainerRef.borrowElem_respects (refers_containerRef r) hborrow) (by simp) hpush)
  | compute numArgs native => exact compute_moves h
  -- global storage is not looked at here
  | borrowGlobal _ => cases h
  | «exists» _ => cases h
  | moveFrom _ => cases h
  | moveTo _ => cases h

end Machine

end NexusMove
