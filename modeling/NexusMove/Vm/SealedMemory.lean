import NexusMove.Vm.Memory

/-!
# What the operations on memory respect

Whoever does not hold a reference under a flag cannot change the cells that are
lent under the flag alone; and whoever changes one through such a reference sets
the flag. This is said once of each operation: from values it is given, it passes
to a memory and to values in which every sealed region is kept, or its flag is set.

* `VmMemory.Respects` — the specification, with `refl` and `trans` to put steps together.
* `copyValue_respects`, `ContainerRef.writeRef_respects`, … — one for each operation.
-/

namespace NexusMove

open Region

/-- What a value holds of memory. -/
def ValueImpl.holds : ValueImpl → List (Hold (Option Nat))
  | container c => [.owns c.cell]
  | containerRef r => [.borrows r.container.cell r.status?]
  | indexedRef _ r => [.borrows r.container.cell r.status?]
  | _ => []

/-- Cells lent under a flag. -/
abbrev FlagRegion := Region (Option Nat)

/-- A value that holds nothing inside the region, in the heap of the memory. -/
abbrev FlagRegion.Outside (R : FlagRegion) (m : VmMemory) (v : ValueImpl) : Prop :=
  Region.Outside ValueImpl.holds R m.heap.next v

namespace VmMemory

/-- The region is sealed, and its flag is one of the memory's. -/
structure Sealed (R : FlagRegion) (m : VmMemory) : Prop where
  heap : R.Sealed ValueImpl.holds m.heap
  flag : ∀ c, R.cells c → ∃ s < m.nextStatus, R.tag = some s

/-- Flags that are set stay set, and no cell or flag goes away. -/
structure Grows (m m' : VmMemory) : Prop where
  next : m.heap.next ≤ m'.heap.next
  nextStatus : m.nextStatus ≤ m'.nextStatus
  dirty : ∀ s < m.nextStatus, m.status s = .dirty → m'.status s = .dirty

variable {m m' m₁ m₂ : VmMemory}

theorem Grows.refl (m : VmMemory) : m.Grows m := ⟨le_rfl, le_rfl, fun _ _ h => h⟩

theorem Grows.trans (h₁ : m.Grows m₁) (h₂ : m₁.Grows m₂) : m.Grows m₂ where
  next := h₁.next.trans h₂.next
  nextStatus := h₁.nextStatus.trans h₂.nextStatus
  dirty s hs h := h₂.dirty s (lt_of_lt_of_le hs h₁.nextStatus) (h₁.dirty s hs h)

end VmMemory

/-- New cells are no cells of the region. -/
theorem FlagRegion.Outside.grows {R : FlagRegion} {m m' : VmMemory} {v : ValueImpl}
    (h : R.Outside m v) (hm : m.Grows m') : R.Outside m' v :=
  Region.Outside.mono hm.next h

namespace VmMemory

/-- The region is not empty and its flag is set: someone wrote through a reference into it. -/
def Altered (R : FlagRegion) (m : VmMemory) : Prop :=
  (∃ c, R.cells c) ∧ ∃ s < m.nextStatus, R.tag = some s ∧ m.status s = .dirty

/-- The region is as it was, and the values are outside of it. -/
structure Kept (R : FlagRegion) (m m' : VmMemory) (vs : List ValueImpl) : Prop where
  isSealed : m'.Sealed R
  same : R.SameInside m.heap m'.heap
  outside : ∀ v ∈ vs, R.Outside m' v

/-- From the values `args`, a step of the program comes to the memory `m'` and the values `vs`. -/
structure Respects (args : List ValueImpl) (m m' : VmMemory) (vs : List ValueImpl) : Prop where
  grows : m.Grows m'
  region : ∀ R, m.Sealed R → (∀ v ∈ args, R.Outside m v) → m'.Altered R ∨ Kept R m m' vs

variable {m m' m₁ m₂ : VmMemory} {args vs ws bs : List ValueImpl} {R : FlagRegion}

/-- What was altered stays so, since flags are never unset. -/
theorem Altered.grows (h : m.Altered R) (hm : m.Grows m') : m'.Altered R := by
  obtain ⟨hne, s, hs, htag, hdirty⟩ := h
  exact ⟨hne, s, lt_of_lt_of_le hs hm.nextStatus, htag, hm.dirty s hs hdirty⟩

/-- Values that are passed on, in the memory as it is. -/
theorem Respects.refl (h : ∀ v ∈ vs, v ∈ args) : Respects args m m vs where
  grows := .refl m
  region _ hR hargs := .inr ⟨hR, .refl _, fun v hv => hargs v (h v hv)⟩

/-- **Steps in a row.** The second step starts from values that were there before the first, or
that the first step gave. -/
theorem Respects.trans (h₁ : Respects args m m₁ vs) (h₂ : Respects bs m₁ m₂ ws)
    (hbs : ∀ b ∈ bs, b ∈ args ∨ b ∈ vs) : Respects args m m₂ ws where
  grows := h₁.grows.trans h₂.grows
  region R hR hargs := by
    -- once altered, altered for good
    rcases h₁.region R hR hargs with hdirty | hkept
    · exact .inl (hdirty.grows h₂.grows)
    · have hout : ∀ b ∈ bs, R.Outside m₁ b := by
        intro b hb
        rcases hbs b hb with hb | hb
        · -- a value the second step starts from is old, or came from the first step
          exact (hargs b hb).grows h₁.grows
        · exact hkept.outside b hb
      rcases h₂.region R hkept.isSealed hout with hdirty | hkept₂
      · exact .inl hdirty
      · exact .inr ⟨hkept₂.isSealed, hkept.same.trans hkept₂.same, hkept₂.outside⟩

/-- More values in, and other values out that were there all along. -/
theorem Respects.weaken (h : Respects args m m' vs) (hargs : ∀ a ∈ args, a ∈ bs)
    (hvs : ∀ v ∈ ws, v ∈ vs ∨ v ∈ bs) : Respects bs m m' ws where
  grows := h.grows
  region R hR hbs := by
    rcases h.region R hR (fun a ha => hbs a (hargs a ha)) with hdirty | hkept
    · exact .inl hdirty
    · refine .inr ⟨hkept.isSealed, hkept.same, fun v hv => ?_⟩
      rcases hvs v hv with hv | hv
      · exact hkept.outside v hv
      · exact (hbs v hv).grows h.grows

/-! ## Allocating and writing -/

theorem alloc_grows (kind : ContainerKind) (vs : List ValueImpl) : m.Grows (m.alloc kind vs).2 :=
  ⟨Nat.le_succ _, le_rfl, fun _ _ h => h⟩

/-- A new container is outside of every region there was. -/
theorem outside_alloc (hR : m.Sealed R) (kind : ContainerKind) (vs : List ValueImpl) :
    R.Outside (m.alloc kind vs).2 (m.alloc kind vs).1 :=
  outside_of_holds_singleton rfl (admits_owns (Nat.lt_succ_self _) hR.heap.not_mem_next)

/-- A new cell is outside of every region, with what it was filled with. -/
theorem kept_alloc (hR : m.Sealed R) (kind : ContainerKind) (hvs : ∀ v ∈ vs, R.Outside m v) :
    Kept R m (m.alloc kind vs).2 [(m.alloc kind vs).1] where
  isSealed := ⟨hR.heap.alloc hvs, hR.flag⟩
  same := hR.heap.sameInside_alloc vs
  outside v hv := by
    obtain rfl := List.mem_singleton.mp hv
    exact outside_alloc hR kind vs

theorem alloc_respects (kind : ContainerKind) (vs : List ValueImpl) :
    Respects vs m (m.alloc kind vs).2 [(m.alloc kind vs).1] where
  grows := alloc_grows kind vs
  region _ hR hvs := .inr (kept_alloc hR kind hvs)

theorem kept_write {c : Nat} (hR : m.Sealed R) (hc : ¬ R.cells c)
    (hvs : ∀ v ∈ vs, R.Outside m v) (hws : ∀ w ∈ ws, R.Outside m w) :
    Kept R m (m.write c vs) ws where
  isSealed := ⟨hR.heap.write hc hvs, hR.flag⟩
  same := sameInside_write hc vs
  outside := hws

/-- The owner of a cell may take from it and put into it. -/
theorem writeOwned_respects {k : ContainerKind} {c : Nat} (hc : .container ⟨k, c⟩ ∈ args)
    (hvs : ∀ v ∈ vs, v ∈ args ∨ v ∈ m.heap.cell c ∨ v.holds = [])
    (hws : ∀ w ∈ ws, w ∈ m.heap.cell c) : Respects args m (m.write c vs) ws where
  grows := ⟨le_rfl, le_rfl, fun _ _ h => h⟩
  region R hR hargs := by
    -- who owns the cell is outside of the region, so the cell is no cell of it
    have hown : R.Admits m.heap.next (.owns c) := hargs _ hc _ List.mem_cons_self
    have hcell : ∀ v ∈ m.heap.cell c, R.Outside m v := hR.heap.outside c hown.not_mem
    refine .inr (kept_write hR hown.not_mem ?_ (fun w hw => hcell w (hws w hw)))
    intro v hv
    rcases hvs v hv with hv | hv | hv
    · exact hargs v hv
    · exact hcell v hv
    · exact outside_of_holds_nil hv

/-- A write through a reference sets one flag at most. -/
theorem grows_markDirty_write (r : ContainerRef) (c : Nat) (vs : List ValueImpl) :
    m.Grows (r.markDirty (m.write c vs)) := by
  cases r with
  | localRef _ => exact ⟨le_rfl, le_rfl, fun _ _ h => h⟩
  | globalRef s _ =>
    refine ⟨le_rfl, le_rfl, fun t _ ht => ?_⟩
    by_cases hts : t = s
    · rw [hts]
      exact Function.update_self ..
    · exact (Function.update_of_ne hts ..).trans ht

/-- **Writing through a reference.** A reference into the region carries its flag, and the write
sets it; any other reference leads to a cell outside. -/
theorem writeBorrowed_respects {a : ValueImpl} {r : ContainerRef} (ha : a ∈ args)
    (hr : .borrows r.container.cell r.status? ∈ a.holds)
    (hvs : ∀ v ∈ vs, v ∈ args ∨ v ∈ m.heap.cell r.container.cell ∨ v.holds = [])
    (hws : ∀ w ∈ ws, w ∈ m.heap.cell r.container.cell) :
    Respects args m (r.markDirty (m.write r.container.cell vs)) ws where
  grows := grows_markDirty_write r _ vs
  region R hR hargs := by
    have hadm := hargs a ha _ hr
    -- through a reference into the region, its flag is set; through another one nothing of it moves
    by_cases hin : R.cells r.container.cell
    · -- the flag of the region is that of the reference
      obtain ⟨s, hs, htag⟩ := hR.flag _ hin
      have hstatus : r.status? = some s := (hadm.tag_eq hin).trans htag
      cases r with
      | localRef _ => cases hstatus
      | globalRef s' _ =>
        obtain rfl := Option.some.inj hstatus
        exact .inl ⟨⟨_, hin⟩, s', hs, htag, Function.update_self ..⟩
    · have hcell : ∀ v ∈ m.heap.cell r.container.cell, R.Outside m v := hR.heap.outside _ hin
      have hkept : Kept R m (m.write r.container.cell vs) ws := by
        apply kept_write hR hin _ (fun w hw => hcell w (hws w hw))
        intro v hv
        rcases hvs v hv with hv | hv | hv
        · exact hargs v hv
        · exact hcell v hv
        · exact outside_of_holds_nil hv
      -- the flag that is set is not looked at by the sealing
      refine .inr ?_
      cases r with
      | localRef _ => exact hkept
      | globalRef _ _ =>
        exact ⟨⟨hkept.isSealed.heap, hkept.isSealed.flag⟩, hkept.same, hkept.outside⟩

/-- A step that gives no flag and leaves every region, in a form that serves both sides of it. -/
structure Copies (m m' : VmMemory) (v w : ValueImpl) : Prop where
  grows : m.Grows m'
  kept : ∀ R, m.Sealed R → (R.Outside m v ∨ R.Inside ValueImpl.holds v) → Kept R m m' [w]

end VmMemory

open VmMemory

variable {m m' : VmMemory}

/-! ## Copying -/

/-- The values of a container, copied from the left. -/
theorem copyValues_kept {copy : ValueImpl → VmMemory → VMResult (ValueImpl × VmMemory)}
    (hcopy : ∀ {v w m m'}, copy v m = .ok (w, m') → Copies m m' v w) {vs ws : List ValueImpl}
    (h : copyValues copy vs m = .ok (ws, m')) :
    m.Grows m' ∧ ∀ R, m.Sealed R → (∀ v ∈ vs, R.Outside m v ∨ R.Inside ValueImpl.holds v) →
      Kept R m m' ws := by
  induction vs generalizing m m' ws with
  | nil =>
    obtain ⟨rfl, rfl⟩ : [] = ws ∧ m = m' := by simpa [copyValues] using h
    exact ⟨.refl m, fun R hR _ => ⟨hR, .refl _, by simp⟩⟩
  | cons v vs ih =>
    obtain ⟨⟨w, m₁⟩, hv, h⟩ := Except.bind_eq_ok.mp h
    obtain ⟨⟨ws', m₂⟩, hvs, h⟩ := Except.bind_eq_ok.mp h
    obtain ⟨rfl, rfl⟩ : w :: ws' = ws ∧ m₂ = m' := by simpa using h
    -- the head is copied in the memory that is there, the rest in what that copy left
    have hfirst := hcopy hv
    obtain ⟨hgrows, hrest⟩ := ih hvs
    refine ⟨hfirst.grows.trans hgrows, fun R hR hall => ?_⟩
    have hkept := hfirst.kept R hR (hall v List.mem_cons_self)
    -- what was outside before the first copy is outside after it
    have hkept' := hrest R hkept.isSealed fun u hu =>
      (hall u (List.mem_cons_of_mem _ hu)).imp_left fun ho => ho.grows hfirst.grows
    refine ⟨hkept'.isSealed, hkept.same.trans hkept'.same, fun u hu => ?_⟩
    rcases List.mem_cons.mp hu with rfl | hu
    · exact (hkept.outside u List.mem_cons_self).grows hgrows
    · exact hkept'.outside u hu

/-- **Copying.** A copy owns cells of its own, and borrows what the value borrowed. It may be taken
of what is inside of a region, and is outside. -/
theorem copyValue_copies {depth : Nat} {v w : ValueImpl} (h : copyValue depth v m = .ok (w, m')) :
    Copies m m' v w := by
  induction depth generalizing v w m m' with
  | zero => cases h
  | succ depth ih =>
    -- what lives in place is passed on
    have hplace : ∀ {u}, (∀ R, m.Sealed R → (R.Outside m u ∨ R.Inside ValueImpl.holds u) →
        R.Outside m u) → Copies m m u u := fun {u} hu =>
      ⟨.refl m, fun R hR hor => ⟨hR, .refl _, by simpa using hu R hR hor⟩⟩
    cases v with
    | container c =>
      simp only [copyValue] at h
      split at h
      · cases h
      obtain ⟨⟨vs, m₁⟩, hvs, h⟩ := Except.bind_eq_ok.mp h
      obtain ⟨rfl, rfl⟩ : _ = w ∧ _ = m' := Prod.mk.inj (Except.pure_eq_ok.mp h)
      obtain ⟨hgrows, hkept⟩ := copyValues_kept ih hvs
      refine ⟨hgrows.trans (alloc_grows c.kind vs), fun R hR hor => ?_⟩
      -- the cell copied lies inside of the region or not, and with it all that it holds
      have hcell : ∀ u ∈ m.heap.cell c.cell, R.Outside m u ∨ R.Inside ValueImpl.holds u := by
        intro u hu
        by_cases hin : R.cells c.cell
        · exact .inr (hR.heap.inside _ hin u hu)
        · exact .inl (hR.heap.outside _ hin u hu)
      have hk := hkept R hR hcell
      have hk' := kept_alloc hk.isSealed c.kind hk.outside
      exact ⟨hk'.isSealed, hk.same.trans hk'.same, hk'.outside⟩
    | containerRef r =>
      obtain ⟨rfl, rfl⟩ := Prod.mk.inj (Except.ok.inj h)
      -- a reference is nothing that a region holds inside
      apply hplace
      intro R _ hor
      refine hor.resolve_right fun hin => ?_
      obtain ⟨d, -, heq⟩ := hin _ List.mem_cons_self
      cases heq
    | indexedRef idx r =>
      obtain ⟨rfl, rfl⟩ := Prod.mk.inj (Except.ok.inj h)
      apply hplace
      intro R _ hor
      refine hor.resolve_right fun hin => ?_
      obtain ⟨d, -, heq⟩ := hin _ List.mem_cons_self
      cases heq
    | invalid =>
      obtain ⟨rfl, rfl⟩ := Prod.mk.inj (Except.ok.inj h)
      exact hplace fun R _ _ => outside_of_holds_nil rfl
    | prim p =>
      obtain ⟨rfl, rfl⟩ := Prod.mk.inj (Except.ok.inj h)
      exact hplace fun R _ _ => outside_of_holds_nil rfl
    | closureValue data =>
      obtain ⟨rfl, rfl⟩ := Prod.mk.inj (Except.ok.inj h)
      exact hplace fun R _ _ => outside_of_holds_nil rfl

/-- What is in a cell may be copied, whoever holds the cell. -/
theorem copyValue_of_mem_cell {depth c : Nat} {v w : ValueImpl} (hv : v ∈ m.heap.cell c)
    (h : copyValue depth v m = .ok (w, m')) (args : List ValueImpl) : Respects args m m' [w] := by
  have hcopies := copyValue_copies h
  refine ⟨hcopies.grows, fun R hR _ => .inr (hcopies.kept R hR ?_)⟩
  by_cases hin : R.cells c
  · exact .inr (hR.heap.inside c hin v hv)
  · exact .inl (hR.heap.outside c hin v hv)

/-! ## References -/

/-- A reference, as the borrow it holds. -/
def ValueImpl.Refers (a : ValueImpl) (r : ContainerRef) : Prop :=
  .borrows r.container.cell r.status? ∈ a.holds

theorem refers_containerRef (r : ContainerRef) : (ValueImpl.containerRef r).Refers r :=
  List.mem_cons_self

theorem refers_indexedRef (idx : Nat) (r : ContainerRef) : (ValueImpl.indexedRef idx r).Refers r :=
  List.mem_cons_self

namespace ContainerRef

variable {r : ContainerRef} {a v w : ValueImpl} {idx depth : Nat} {rc : Nat → Nat}

@[simp] theorem container_withContainer (r : ContainerRef) (c : Container) :
    (r.withContainer c).container = c := by
  cases r <;> rfl

/-- The flag is handed down to the parts of a resource. -/
@[simp] theorem status?_withContainer (r : ContainerRef) (c : Container) :
    (r.withContainer c).status? = r.status? := by
  cases r <;> rfl

/-- **Borrowing a part.** The new reference is into the same cell, or into one that a value of the
cell owns, and carries the flag of the old one. -/
theorem borrowElem_respects (ha : a.Refers r) (h : r.borrowElem idx m = .ok v) :
    Respects [a] m m [v] := by
  refine ⟨.refl m, fun R hR hargs => .inr ⟨hR, .refl _, ?_⟩⟩
  -- the reference comes from outside, with whatever it borrows
  have hadm := hargs a List.mem_cons_self _ ha
  have hself : ∀ i, R.Outside m (.indexedRef i r) := fun i => outside_of_holds_singleton rfl hadm
  intro v' hv'
  obtain rfl := List.mem_singleton.mp hv'
  simp only [borrowElem] at h
  split at h
  · cases h
  rename_i u hu
  have hmem : u ∈ m.heap.cell r.container.cell := List.mem_of_getElem? hu
  split at h
  · -- a container in the place is borrowed as such, under the same flag
    cases u with
    | container c =>
      obtain rfl := Except.ok.inj h
      have hsub := Admits.reborrow hR.heap hadm hmem
        (List.mem_singleton_self (Hold.owns c.cell))
      apply outside_of_holds_singleton (h := .borrows c.cell r.status?) _ hsub
      simp [ValueImpl.holds]
    | prim _ =>
      obtain rfl := Except.ok.inj h
      exact hself idx
    | closureValue _ =>
      obtain rfl := Except.ok.inj h
      exact hself idx
    | containerRef _ => cases h
    | indexedRef _ _ => cases h
    | invalid => cases h
  · -- a container of primitives: the reference is to the place
    obtain rfl := Except.ok.inj h
    exact hself idx

/-- A container that is lent may be copied as if it were one's own. -/
theorem readRef_respects (ha : a.Refers r) (h : r.readRef depth m = .ok (w, m')) :
    Respects [a] m m' [w] := by
  have hcopies := copyValue_copies h
  refine ⟨hcopies.grows, fun R hR hargs => .inr (hcopies.kept R hR ?_)⟩
  have hadm := hargs a List.mem_cons_self _ ha
  by_cases hin : R.cells r.container.cell
  · refine .inr fun hold hmem => ?_
    obtain rfl := List.mem_singleton.mp hmem
    exact ⟨_, hin, rfl⟩
  · exact .inl (outside_of_holds_singleton rfl (admits_owns hadm.1 hin))

/-- The cell is emptied, and what was in it is handed over. -/
theorem takeUniqueOwnership_respects {k : ContainerKind} {c : Nat} {vs : List ValueImpl}
    (h : takeUniqueOwnership rc c m = .ok (vs, m')) : Respects [.container ⟨k, c⟩] m m' vs := by
  unfold takeUniqueOwnership at h
  split at h
  · obtain ⟨rfl, rfl⟩ := Prod.mk.inj (Except.ok.inj h)
    exact writeOwned_respects List.mem_cons_self (by simp) (by simp)
  · cases h

/-- The contents of one container become those of another. -/
theorem writeRef_respects (ha : a.Refers r) (h : r.writeRef rc v m = .ok m') :
    Respects [a, v] m m' [] := by
  cases v with
  | container c =>
    simp only [writeRef] at h
    split at h
    · cases h
    split at h
    · cases h
    -- the source is taken apart first, and its values are written where the reference leads
    obtain ⟨⟨vs, m₁⟩, htake, h⟩ := Except.bind_eq_ok.mp h
    obtain rfl := Except.pure_eq_ok.mp h
    have htaken : Respects [.container c] m m₁ vs := takeUniqueOwnership_respects htake
    have hwrite : Respects (a :: vs) m₁ (r.markDirty (m₁.write r.container.cell vs)) [] :=
      writeBorrowed_respects List.mem_cons_self ha (by grind) (by simp)
    have htaken' : Respects [a, .container c] m m₁ vs := htaken.weaken (by grind) (by grind)
    exact htaken'.trans hwrite (by grind)
  | _ => cases h

/-- A cast checks the type of an element and leaves it as it is. -/
theorem castElem_eq_ok {kind : ContainerKind} (h : castElem kind v = .ok w) : w = v := by
  unfold castElem at h
  split at h
  · split at h
    · exact (Except.ok.inj h).symm
    · cases h
  · cases h
  · exact (Except.ok.inj h).symm

/-- An element is a primitive value or a closure, so the copy holds nothing. -/
theorem readIndexed_respects (h : r.readIndexed depth idx m = .ok (w, m'))
    (args : List ValueImpl) : Respects args m m' [w] := by
  unfold readIndexed at h
  split at h
  · rename_i v hv
    exact copyValue_of_mem_cell (List.mem_of_getElem? hv) h args
  · cases h

/-- What is in a list with one place overwritten. -/
theorem mem_set_of {xs : List ValueImpl} {u : ValueImpl} (h : u ∈ xs.set idx v) :
    u ∈ xs ∨ u = v :=
  List.mem_or_eq_of_mem_set h

/-- A value that is no container goes into its place. -/
theorem writeIndexed_respects (ha : a.Refers r) (h : r.writeIndexed idx v m = .ok m') :
    Respects [a, v] m m' [] := by
  have hplace : ∀ {u}, castElem r.container.kind v = .ok u →
      Respects [a, v] m (r.markDirty (m.write r.container.cell
        ((m.heap.cell r.container.cell).set idx u))) [] := by
    intro u hu
    -- the cast leaves the value, so either it or what was there is in the place
    obtain rfl := castElem_eq_ok hu
    apply writeBorrowed_respects List.mem_cons_self ha _ (by simp)
    intro x hx
    rcases mem_set_of hx with hx | rfl
    · exact .inr (.inl hx)
    · exact .inl (by simp)
  cases v with
  | prim _ =>
    obtain ⟨u, hu, h⟩ := Except.bind_eq_ok.mp h
    dsimp only at h
    split at h
    · cases h
    obtain rfl := Except.ok.inj h
    exact hplace hu
  | closureValue _ =>
    obtain ⟨u, hu, h⟩ := Except.bind_eq_ok.mp h
    dsimp only at h
    split at h
    · cases h
    obtain rfl := Except.ok.inj h
    exact hplace hu
  | _ => cases h

/-! ## Vectors -/

variable {ty : Ty}

/-- `borrowElem` after the checks of the type and the bounds. -/
theorem vecBorrowElem_respects (ha : a.Refers r) (h : r.vecBorrowElem ty idx m = .ok v) :
    Respects [a] m m [v] := by
  obtain ⟨-, -, h⟩ := Except.bind_eq_ok.mp h
  split at h
  · cases h
  · exact borrowElem_respects ha h

/-- The new element comes from outside. -/
theorem vecPushBack_respects (ha : a.Refers r) (h : r.vecPushBack ty v m = .ok m') :
    Respects [a, v] m m' [] := by
  obtain ⟨-, -, h⟩ := Except.bind_eq_ok.mp h
  obtain ⟨u, hu, h⟩ := Except.bind_eq_ok.mp h
  obtain rfl := Except.pure_eq_ok.mp h
  obtain rfl := castElem_eq_ok hu
  apply writeBorrowed_respects List.mem_cons_self ha _ (by simp)
  intro x hx
  rcases List.mem_append.mp hx with hx | hx
  · exact .inr (.inl hx)
  · obtain rfl := List.mem_singleton.mp hx
    exact .inl (by simp)

/-- What is taken out was in the vector. -/
theorem vecPop_respects (ha : a.Refers r) (h : r.vecPop ty m = .ok (v, m')) :
    Respects [a] m m' [v] := by
  obtain ⟨-, -, h⟩ := Except.bind_eq_ok.mp h
  split at h
  · cases h
  · rename_i u hu
    obtain ⟨rfl, rfl⟩ := Prod.mk.inj (Except.ok.inj h)
    apply writeBorrowed_respects List.mem_cons_self ha
    · intro x hx
      exact .inr (.inl (List.mem_of_mem_dropLast hx))
    · intro w hw
      obtain rfl := List.mem_singleton.mp hw
      exact List.mem_of_getLast? hu

/-- Only elements of the vector are written back to it. -/
theorem vecSwap_respects {i j : Nat} (ha : a.Refers r) (h : r.vecSwap ty i j m = .ok m') :
    Respects [a] m m' [] := by
  obtain ⟨-, -, h⟩ := Except.bind_eq_ok.mp h
  dsimp only at h
  split at h
  · rename_i v w hv hw
    obtain rfl := Except.ok.inj h
    apply writeBorrowed_respects List.mem_cons_self ha _ (by simp)
    intro x hx
    refine .inr (.inl ?_)
    rcases mem_set_of hx with hx | rfl
    · -- after two replacements: an old element, or one of the two
      rcases mem_set_of hx with hx | rfl
      · exact hx
      · exact List.mem_of_getElem? hw
    · exact List.mem_of_getElem? hv
  · cases h

end ContainerRef

/-- Both kinds of references. -/
theorem Reference.readRef_respects {depth : Nat} {a w : ValueImpl}
    (h : Reference.readRef depth a m = .ok (w, m')) : Respects [a] m m' [w] := by
  cases a with
  | containerRef r => exact ContainerRef.readRef_respects (refers_containerRef r) h
  | indexedRef idx r => exact ContainerRef.readIndexed_respects h _
  | _ => cases h

/-- Both kinds of references, with the flag set. -/
theorem Reference.writeRef_respects {rc : Nat → Nat} {a v : ValueImpl}
    (h : Reference.writeRef rc a v m = .ok m') : Respects [a, v] m m' [] := by
  cases a with
  | containerRef r => exact ContainerRef.writeRef_respects (refers_containerRef r) h
  | indexedRef idx r => exact ContainerRef.writeIndexed_respects (refers_indexedRef idx r) h
  | _ => cases h

/-- A field of a variant, after the tag was looked at. -/
theorem ContainerRef.borrowVariantField_respects {r : ContainerRef} {a v : ValueImpl}
    {depth idx : Nat} {allowed : List UInt16} (ha : a.Refers r)
    (h : r.borrowVariantField depth allowed idx m = .ok v) : Respects [a] m m [v] := by
  obtain ⟨tag, -, h⟩ := Except.bind_eq_ok.mp h
  split at h
  · exact borrowElem_respects ha h
  · cases h

/-! ## Locals -/

namespace Locals

variable {l : Locals} {idx depth : Nat} {rc : Nat → Nat} {x v : ValueImpl}

/-- The locals, as the value that would own their cell. -/
def owner (l : Locals) : ValueImpl := .container ⟨.locals, l⟩

/-- A reference to a local borrows the locals, or the container in it. -/
theorem borrowLoc_respects (h : l.borrowLoc idx m = .ok v) : Respects [l.owner] m m [v] := by
  refine ⟨.refl m, fun R hR hargs => .inr ⟨hR, .refl _, ?_⟩⟩
  -- the frame owns its locals, so they are not inside of any region it is outside of
  have hown : R.Admits m.heap.next (.owns l) :=
    hargs _ List.mem_cons_self _ (List.mem_singleton_self (Hold.owns l))
  have hself : ∀ i, R.Outside m (.indexedRef i (.localRef ⟨.locals, l⟩)) := fun i =>
    outside_of_holds_singleton rfl (admits_borrows hown.1 fun hin => absurd hin hown.not_mem)
  intro v' hv'
  obtain rfl := List.mem_singleton.mp hv'
  unfold borrowLoc at h
  dsimp only at h
  split at h
  · cases h
  · rename_i c hc
    obtain rfl := Except.ok.inj h
    -- the container in the local is held by a cell outside
    have hadm : R.Admits m.heap.next (.owns c.cell) :=
      hR.heap.outside l hown.not_mem _ (List.mem_of_getElem? hc) _
        (List.mem_singleton_self (Hold.owns c.cell))
    exact outside_of_holds_singleton rfl
      (admits_borrows hadm.1 fun hin => absurd hin hadm.not_mem)
  · obtain rfl := Except.ok.inj h
    exact hself idx
  · obtain rfl := Except.ok.inj h
    exact hself idx
  · cases h
  · cases h
  · cases h

/-- A copy needs nothing of its frame. -/
theorem copyLoc_respects (h : l.copyLoc depth idx m = .ok (v, m')) (args : List ValueImpl) :
    Respects args m m' [v] := by
  unfold copyLoc at h
  dsimp only at h
  split at h
  · cases h
  · cases h
  · rename_i u _ hu
    exact copyValue_of_mem_cell (List.mem_of_getElem? hu) h args

/-- The old value comes out, and the frame still owns the cell. -/
theorem swapLoc_respects (h : l.swapLoc rc idx x m = .ok (v, m')) :
    Respects [l.owner, x] m m' [v] := by
  -- whichever value is taken out, it was in the cell, and the new one takes its place
  have hswap : ∀ {u}, (m.heap.cell l)[idx]? = some u →
      Respects [l.owner, x] m (m.write l ((m.heap.cell l).set idx x)) [u] := by
    intro u hu
    apply writeOwned_respects (k := .locals) List.mem_cons_self
    · intro y hy
      rcases ContainerRef.mem_set_of hy with hy | rfl
      · exact .inr (.inl hy)
      · exact .inl (by simp)
    · intro w hw
      obtain rfl := List.mem_singleton.mp hw
      exact List.mem_of_getElem? hu
  unfold swapLoc at h
  dsimp only at h
  split at h
  · cases h
  · rename_i c hc
    split at h
    · cases h
    · obtain ⟨rfl, rfl⟩ := Prod.mk.inj (Except.ok.inj h)
      exact hswap hc
  · rename_i u _ hu
    obtain ⟨rfl, rfl⟩ := Prod.mk.inj (Except.ok.inj h)
    exact hswap hu

/-- Moving out leaves `Invalid`, which holds nothing. -/
theorem moveLoc_respects (h : l.moveLoc rc idx m = .ok (v, m')) :
    Respects [l.owner] m m' [v] := by
  obtain ⟨⟨u, m₁⟩, hswap, h⟩ := Except.bind_eq_ok.mp h
  -- an empty local cannot be moved out
  split at h
  · cases h
  · rename_i hne heq
    obtain ⟨rfl, rfl⟩ := Prod.mk.inj heq
    obtain ⟨rfl, rfl⟩ := Prod.mk.inj (Except.ok.inj h)
    have hs := swapLoc_respects hswap
    refine ⟨hs.grows, fun R hR hargs => hs.region R hR fun w hw => ?_⟩
    -- what is put in is `Invalid`
    rcases List.mem_cons.mp hw with rfl | hw
    · exact hargs _ List.mem_cons_self
    · obtain rfl := List.mem_singleton.mp hw
      exact outside_of_holds_nil rfl

theorem storeLoc_respects (h : l.storeLoc rc idx x m = .ok m') :
    Respects [l.owner, x] m m' [] := by
  obtain ⟨⟨u, m₁⟩, hswap, h⟩ := Except.bind_eq_ok.mp h
  obtain rfl := Except.pure_eq_ok.mp h
  exact (swapLoc_respects hswap).weaken (fun _ h => h) (by simp)

/-- The locals of a frame that returns. -/
theorem dropAllValues_respects (l : Locals) (m : VmMemory) :
    Respects [l.owner] m (l.dropAllValues m) [] := by
  apply writeOwned_respects (k := .locals) List.mem_cons_self _ (by simp)
  intro v hv
  obtain ⟨_, -, rfl⟩ := List.mem_map.mp hv
  exact .inr (.inr rfl)

end Locals

/-! ## Whole containers -/

theorem castElems_eq_ok {kind : ContainerKind} {vs ws : List ValueImpl}
    (h : castElems kind vs = .ok ws) : ws = vs := by
  induction vs generalizing ws with
  | nil => exact (Except.ok.inj h).symm
  | cons v vs ih =>
    obtain ⟨w, hw, h⟩ := Except.bind_eq_ok.mp h
    obtain ⟨ws', hws, h⟩ := Except.bind_eq_ok.mp h
    obtain rfl := Except.pure_eq_ok.mp h
    rw [ContainerRef.castElem_eq_ok hw, ih hws]

/-- A vector of values from the operand stack. -/
theorem vecPack_respects {ty : Ty} {vs : List ValueImpl} {v : ValueImpl}
    (h : vecPack ty vs m = .ok (v, m')) : Respects vs m m' [v] := by
  obtain ⟨kind, -, h⟩ := Except.bind_eq_ok.mp h
  obtain ⟨ws, hws, halloc⟩ := Except.bind_eq_ok.mp h
  obtain ⟨rfl, rfl⟩ := Prod.mk.inj (Except.pure_eq_ok.mp halloc)
  rw [castElems_eq_ok hws]
  exact alloc_respects kind vs

/-- The elements of a vector that is used up. -/
theorem vecUnpack_respects {rc : Nat → Nat} {ty : Ty} {num : Nat} {c : Container}
    {vs : List ValueImpl} (h : vecUnpack rc ty num c m = .ok (vs, m')) :
    Respects [.container c] m m' vs := by
  obtain ⟨-, -, h⟩ := Except.bind_eq_ok.mp h
  obtain ⟨⟨ws, m₁⟩, htake, h⟩ := Except.bind_eq_ok.mp h
  dsimp only at h
  split at h
  · obtain ⟨rfl, rfl⟩ := Prod.mk.inj (Except.ok.inj h)
    exact ContainerRef.takeUniqueOwnership_respects htake
  · cases h

/-- The fields of a struct that is used up. -/
theorem castStruct_respects {rc : Nat → Nat} {v : ValueImpl} {vs : List ValueImpl}
    (h : castStruct rc v m = .ok (vs, m')) : Respects [v] m m' vs := by
  unfold castStruct at h
  split at h
  · exact ContainerRef.takeUniqueOwnership_respects h
  · cases h

/-- The fields of a variant are what is left without its tag. -/
theorem unpackVariant_subset {variant : UInt16} {fields vs : List ValueImpl}
    (h : unpackVariant variant fields = .ok vs) : ∀ v ∈ vs, v ∈ fields := by
  unfold unpackVariant at h
  split at h
  · cases h
  · split at h
    · obtain rfl := Except.ok.inj h
      exact fun v hv => List.mem_cons_of_mem _ hv
    · cases h
  · cases h

end NexusMove
