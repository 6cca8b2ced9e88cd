import NexusMove.Lib.CanonicalCodec
import NexusMove.Vm.SealedMemory

/-!
# Stored values in memory

A value that is read from storage is put into cells of its own. They own each
other and hold nothing else, so they are a sealed region under whatever flag they
are lent; and as long as they stay as they are, what would be serialized is the
value that was read.

* `represent_spec` — where the value is put, and reading it back.
* `takes_of_decode` — whatever is read from bytes can be put into memory.
* `valueAs_congr` — the value depends on its own cells only.
* `Built.isSealed` — the new cells are a sealed region.
-/

namespace NexusMove

open Region VmMemory

/-- The cells that the second memory has and the first has not, lent under a flag. -/
def newCells (m m' : VmMemory) (tag : Option Nat) : FlagRegion where
  cells c := m.heap.next ≤ c ∧ c < m'.heap.next
  tag := tag

/-- The step from `m` to `m'` put the values `xs` into new cells and did nothing else. -/
structure Built (m m' : VmMemory) (xs : List ValueImpl) : Prop where
  next : m.heap.next ≤ m'.heap.next
  same : ∀ c, ¬ (m.heap.next ≤ c ∧ c < m'.heap.next) → m'.heap.cell c = m.heap.cell c
  nextStatus : m'.nextStatus = m.nextStatus
  status : m'.status = m.status
  inside : ∀ c, m.heap.next ≤ c ∧ c < m'.heap.next → ∀ v ∈ m'.heap.cell c,
    (newCells m m' none).Inside ValueImpl.holds v
  values : ∀ x ∈ xs, (newCells m m' none).Inside ValueImpl.holds x

namespace Built

variable {m m₁ m' : VmMemory} {xs ys : List ValueImpl}

/-- Values of fewer new cells are values of more new cells. -/
theorem inside_mono {a b : VmMemory} (hab : m.heap.next ≤ a.heap.next ∧ b.heap.next ≤ m'.heap.next)
    {v : ValueImpl} (hv : (newCells a b none).Inside ValueImpl.holds v) :
    (newCells m m' none).Inside ValueImpl.holds v := by
  intro h hh
  obtain ⟨d, ⟨hlo, hhi⟩, rfl⟩ := hv h hh
  exact ⟨d, ⟨by omega, by omega⟩, rfl⟩

theorem refl (m : VmMemory) : Built m m [] where
  next := le_rfl
  same _ _ := rfl
  nextStatus := rfl
  status := rfl
  inside c hc := by omega
  values := by simp

/-- What was built first is not touched by what is built after it. -/
theorem trans (h₁ : Built m m₁ xs) (h₂ : Built m₁ m' ys) : Built m m' (xs ++ ys) where
  next := h₁.next.trans h₂.next
  same c hc := by
    have hn₁ := h₁.next
    have hn₂ := h₂.next
    rw [h₂.same c (by omega), h₁.same c (by omega)]
  nextStatus := h₂.nextStatus.trans h₁.nextStatus
  status := h₂.status.trans h₁.status
  inside c hc v hv := by
    -- a cell of the first part, which the second one did not touch, or a cell of the second part
    by_cases hold : c < m₁.heap.next
    · rw [h₂.same c (by omega)] at hv
      exact inside_mono ⟨le_rfl, h₂.next⟩ (h₁.inside c ⟨hc.1, hold⟩ v hv)
    · exact inside_mono ⟨h₁.next, le_rfl⟩ (h₂.inside c ⟨by omega, hc.2⟩ v hv)
  values x hx := by
    rcases List.mem_append.mp hx with hx | hx
    · exact inside_mono ⟨le_rfl, h₂.next⟩ (h₁.values x hx)
    · exact inside_mono ⟨h₁.next, le_rfl⟩ (h₂.values x hx)

/-- A container around values that were just built, and around values that hold nothing. -/
theorem alloc (h : Built m m₁ xs) (kind : ContainerKind)
    (hys : ∀ y ∈ ys, y ∈ xs ∨ y.holds = []) :
    Built m (m₁.alloc kind ys).2 [(m₁.alloc kind ys).1] where
  next := Nat.le_succ_of_le h.next
  same c hc := by
    have hn := h.next
    change ¬ (m.heap.next ≤ c ∧ c < m₁.heap.next + 1) at hc
    -- the new cell is above everything that was built before it
    have hne : c ≠ m₁.heap.next := by omega
    exact (m₁.heap.cell_alloc_of_ne hne ys).trans (h.same c (by omega))
  nextStatus := h.nextStatus
  status := h.status
  inside c hc v hv := by
    have hmono := Nat.le_succ m₁.heap.next
    change m.heap.next ≤ c ∧ c < m₁.heap.next + 1 at hc
    change v ∈ (m₁.heap.alloc ys).cell c at hv
    -- the new cell holds the values put into it; the other cells are as they were
    by_cases hcn : c = m₁.heap.next
    · rw [hcn, m₁.heap.cell_alloc_self] at hv
      rcases hys v hv with hin | hnil
      · exact inside_mono ⟨le_rfl, hmono⟩ (h.values v hin)
      · exact inside_of_holds_nil hnil
    · rw [m₁.heap.cell_alloc_of_ne hcn] at hv
      exact inside_mono ⟨le_rfl, hmono⟩ (h.inside c ⟨hc.1, by omega⟩ v hv)
  values x hx := by
    obtain rfl := List.mem_singleton.mp hx
    intro hold hmem
    obtain rfl := List.mem_singleton.mp hmem
    exact ⟨m₁.heap.next, ⟨h.next, Nat.lt_succ_self _⟩, rfl⟩

/-- A value in place. -/
theorem place (m : VmMemory) {x : ValueImpl} (hx : x.holds = []) : Built m m [x] where
  next := le_rfl
  same _ _ := rfl
  nextStatus := rfl
  status := rfl
  inside c hc := by omega
  values y hy := by
    obtain rfl := List.mem_singleton.mp hy
    exact inside_of_holds_nil hx

end Built

/-! ## Reading depends on the cells of the value -/

section Congr

variable {R : FlagRegion} {H H' : Heap ValueImpl}
  (hclosed : ∀ c, R.cells c → ∀ v ∈ H.cell c, R.Inside ValueImpl.holds v)
  (hsame : R.SameInside H H')
include hclosed hsame

/-- The cell of a container that stands inside is the same in both heaps. -/
theorem cell_of_inside {c : Container} (hv : R.Inside ValueImpl.holds (.container c)) :
    H'.cell c.cell = H.cell c.cell ∧ ∀ v ∈ H.cell c.cell, R.Inside ValueImpl.holds v := by
  obtain ⟨d, hd, heq⟩ := hv _ (List.mem_singleton_self (Hold.owns c.cell))
  obtain rfl := Hold.owns.inj heq
  exact ⟨hsame _ hd, hclosed _ hd⟩

omit hclosed hsame in
theorem eachAs_congr {f g : ValueImpl → Option Value} {vs : List ValueImpl}
    (h : ∀ v ∈ vs, f v = g v) : eachAs f vs = eachAs g vs := by
  induction vs with
  | nil => rfl
  | cons v vs ih =>
    rw [eachAs, eachAs, h v List.mem_cons_self, ih fun u hu => h u (List.mem_cons_of_mem _ hu)]

set_option linter.unusedSectionVars false in
mutual

/-- **Congruence.** The value of a layout is read from cells of the region only. -/
theorem valueAs_congr : ∀ (layout : Layout) {v : ValueImpl}, R.Inside ValueImpl.holds v →
    valueAs H' layout v = valueAs H layout v
  | .vector elem, .container c, hv => by
    obtain ⟨hcell, hin⟩ := cell_of_inside hclosed hsame hv
    have hcells : eachAs (valueAs H' elem) (H.cell c.cell)
        = eachAs (valueAs H elem) (H.cell c.cell) :=
      eachAs_congr fun v hmem => valueAs_congr elem (hin v hmem)
    simp only [valueAs, hcell, hcells]
  | .struct fields, .container c, hv => by
    obtain ⟨hcell, hin⟩ := cell_of_inside hclosed hsame hv
    simp only [valueAs, hcell, fieldsAs_congr fields hin]
  | .variants variants, .container c, hv => by
    obtain ⟨hcell, hin⟩ := cell_of_inside hclosed hsame hv
    simp only [valueAs, hcell]
    congr 1
    split
    · rename_i tag xs heq
      -- the fields without the tag are inside as well
      have hxs : ∀ x ∈ xs, R.Inside ValueImpl.holds x := fun x hx =>
        hin x (heq ▸ List.mem_cons_of_mem _ hx)
      rw [variantAs_congr variants tag.toNat hxs]
    · rfl
  | .signer, .container c, hv => by
    obtain ⟨hcell, -⟩ := cell_of_inside hclosed hsame hv
    simp only [valueAs, hcell]
  | .function _ _ _, v, _ => by cases v <;> rfl
  | .bool, v, _ => by cases v <;> rfl
  | .u8, v, _ => by cases v <;> rfl
  | .u16, v, _ => by cases v <;> rfl
  | .u32, v, _ => by cases v <;> rfl
  | .u64, v, _ => by cases v <;> rfl
  | .u128, v, _ => by cases v <;> rfl
  | .u256, v, _ => by cases v <;> rfl
  | .address, v, _ => by cases v <;> rfl
  -- no other kind of value has a value at these layouts
  | .vector _, .prim _, _ | .vector _, .invalid, _ | .vector _, .containerRef _, _
  | .vector _, .indexedRef _ _, _ | .vector _, .closureValue _, _ => rfl
  | .struct _, .prim _, _ | .struct _, .invalid, _ | .struct _, .containerRef _, _
  | .struct _, .indexedRef _ _, _ | .struct _, .closureValue _, _ => rfl
  | .variants _, .prim _, _ | .variants _, .invalid, _ | .variants _, .containerRef _, _
  | .variants _, .indexedRef _ _, _ | .variants _, .closureValue _, _ => rfl
  | .signer, .prim _, _ | .signer, .invalid, _ | .signer, .containerRef _, _
  | .signer, .indexedRef _ _, _ | .signer, .closureValue _, _ => rfl

theorem fieldsAs_congr : ∀ (layouts : List Layout) {vs : List ValueImpl},
    (∀ v ∈ vs, R.Inside ValueImpl.holds v) → fieldsAs H' layouts vs = fieldsAs H layouts vs
  | [], [], _ => rfl
  | [], _ :: _, _ => rfl
  | _ :: _, [], _ => rfl
  | layout :: layouts, v :: vs, h => by
    rw [fieldsAs, fieldsAs, valueAs_congr layout (h v List.mem_cons_self),
      fieldsAs_congr layouts fun u hu => h u (List.mem_cons_of_mem _ hu)]

theorem variantAs_congr : ∀ (variants : List (List Layout)) (i : Nat) {vs : List ValueImpl},
    (∀ v ∈ vs, R.Inside ValueImpl.holds v) → variantAs H' variants i vs = variantAs H variants i vs
  | [], _, _, _ => rfl
  | fields :: _, 0, _, h => fieldsAs_congr fields h
  | _ :: variants, i + 1, _, h => variantAs_congr variants i h

end

end Congr

/-! ## Reading back -/

namespace Built

variable {m m₁ m' : VmMemory} {xs : List ValueImpl}

/-- What is built holds cells that were built with it. -/
theorem closed (h : Built m m₁ xs) : ∀ c, (newCells m m₁ none).cells c →
    ∀ v ∈ m₁.heap.cell c, (newCells m m₁ none).Inside ValueImpl.holds v :=
  h.inside

/-- Cells that were there are left alone by what is built later. -/
theorem sameInside (h : Built m₁ m' xs) :
    (newCells m m₁ none).SameInside m₁.heap m'.heap := by
  intro c hc
  have hlt : c < m₁.heap.next := hc.2
  exact h.same c (by omega)

/-- The container around values leaves them as they are. -/
theorem sameInside_alloc (kind : ContainerKind) (ys : List ValueImpl) :
    (newCells m m₁ none).SameInside m₁.heap (m₁.alloc kind ys).2.heap := by
  intro c hc
  have hlt : c < m₁.heap.next := hc.2
  exact m₁.heap.cell_alloc_of_ne (by omega) ys

end Built

/-- **Elements.** Each is built above the ones before it, whose values stay. -/
theorem representEach_spec {build : Value → VmMemory → Option (ValueImpl × VmMemory)}
    {layout : Layout}
    (hbuild : ∀ {v m x m'}, build v m = some (x, m') →
      Built m m' [x] ∧ valueAs m'.heap layout x = some v)
    {vs : List Value} {m m' : VmMemory} {xs : List ValueImpl}
    (h : representEach build vs m = some (xs, m')) :
    Built m m' xs ∧ eachAs (valueAs m'.heap layout) xs = some vs := by
  induction vs generalizing m xs with
  | nil =>
    obtain ⟨rfl, rfl⟩ : [] = xs ∧ m = m' := by simpa [representEach] using h
    exact ⟨.refl m, rfl⟩
  | cons v vs ih =>
    obtain ⟨⟨x, m₁⟩, hv, h⟩ := Option.bind_eq_some_iff.mp h
    obtain ⟨⟨xs', m₂⟩, hvs, h⟩ := Option.bind_eq_some_iff.mp h
    obtain ⟨rfl, rfl⟩ : x :: xs' = xs ∧ m₂ = m' := by simpa using h
    obtain ⟨hx, hxv⟩ := hbuild hv
    obtain ⟨hxs, hxsv⟩ := ih hvs
    refine ⟨hx.trans hxs, ?_⟩
    -- the head was read in the memory without the rest, and is read alike in the one with it
    have hkeep : valueAs m₂.heap layout x = valueAs m₁.heap layout x :=
      valueAs_congr hx.closed hxs.sameInside layout (hx.values x List.mem_cons_self)
    rw [eachAs, hkeep, hxv, hxsv]
    rfl

/-- The primitive of a value is that value. -/
theorem Value.toValue_of_prim? {v : Value} {p : Prim} (h : v.prim? = some p) : p.toValue = v := by
  cases v <;> cases h <;> rfl

/-- A primitive, at the layout of its type. -/
theorem represent_prim {layout : Layout} {v : Value} {m m' : VmMemory} {x : ValueImpl}
    (h : (do
      let p ← v.prim?
      if layout.primType? = some p.type then some (ValueImpl.prim p, m) else none)
        = some (x, m')) :
    m' = m ∧ ∃ p, x = .prim p ∧ layout.primType? = some p.type ∧ p.toValue = v := by
  obtain ⟨p, hp, h⟩ := Option.bind_eq_some_iff.mp h
  split at h
  · rename_i htype
    obtain ⟨rfl, rfl⟩ := Prod.mk.inj (Option.some.inj h)
    exact ⟨rfl, p, rfl, htype, Value.toValue_of_prim? hp⟩
  · cases h

/-- A primitive is read at the layouts of its type only. -/
theorem valueAs_prim {H : Heap ValueImpl} {layout : Layout} {p : Prim}
    (h : layout.primType? = some p.type) : valueAs H layout (.prim p) = some p.toValue := by
  cases layout <;> simp only [valueAs] <;> rw [if_pos h]

/-- What lives in place takes no cell. -/
theorem represent_place {layout : Layout} {v : Value} {m m' : VmMemory} {x : ValueImpl}
    (h : (do
      let p ← v.prim?
      if layout.primType? = some p.type then some (ValueImpl.prim p, m) else none)
        = some (x, m')) :
    Built m m' [x] ∧ valueAs m'.heap layout x = some v := by
  obtain ⟨rfl, p, rfl, htype, hvalue⟩ := represent_prim h
  exact ⟨.place m' rfl, by rw [valueAs_prim htype, hvalue]⟩

/-- A signer is one address, or two for a permissioned one. -/
theorem signerFields_spec {vs : List Value} {xs : List ValueImpl} (h : signerFields vs = some xs) :
    (∃ a, vs = [.address a] ∧ xs = [.prim (.address a)])
      ∨ ∃ a b, vs = [.address a, .address b] ∧ xs = [.prim (.address a), .prim (.address b)] := by
  unfold signerFields at h
  split at h
  · exact .inl ⟨_, rfl, (Option.some.inj h).symm⟩
  · exact .inr ⟨_, _, rfl, (Option.some.inj h).symm⟩
  · cases h

mutual

/-- **Into memory and back.** A value is put into new cells, and what is serialized for it is the
value. -/
theorem represent_spec : ∀ (layout : Layout) {v : Value} {m m' : VmMemory} {x : ValueImpl},
    represent layout v m = some (x, m') →
      Built m m' [x] ∧ valueAs m'.heap layout x = some v
  | .vector elem, v, m, m', x, h => by
    cases v
    case vector vs =>
      obtain ⟨⟨xs, m₁⟩, hvs, h⟩ := Option.bind_eq_some_iff.mp h
      obtain ⟨rfl, rfl⟩ := Prod.mk.inj (Option.some.inj h)
      obtain ⟨hxs, hvals⟩ := representEach_spec (represent_spec elem) hvs
      refine ⟨hxs.alloc elem.vectorKind fun y hy => .inl hy, ?_⟩
      -- the elements are read in the memory that has the container around them
      have hkeep : eachAs (valueAs (m₁.alloc elem.vectorKind xs).2.heap elem) xs = some vs := by
        rw [← hvals]
        exact eachAs_congr fun y hy => valueAs_congr hxs.closed
          (Built.sameInside_alloc elem.vectorKind xs) elem (hxs.values y hy)
      simp only [valueAs, Heap.cell_alloc_self, or_true, if_true]
      exact congrArg (Option.map Value.vector) hkeep
    -- a value of another kind is no vector
    all_goals exact represent_place h
  | .struct fields, v, m, m', x, h => by
    cases v
    case struct vs =>
      obtain ⟨⟨xs, m₁⟩, hvs, h⟩ := Option.bind_eq_some_iff.mp h
      obtain ⟨rfl, rfl⟩ := Prod.mk.inj (Option.some.inj h)
      obtain ⟨hxs, hvals⟩ := representFields_spec fields hvs
      refine ⟨hxs.alloc .struct fun y hy => .inl hy, ?_⟩
      have hkeep := fieldsAs_congr hxs.closed (Built.sameInside_alloc .struct xs) fields hxs.values
      simp only [valueAs, Heap.cell_alloc_self, if_true]
      exact congrArg (Option.map Value.struct) (hkeep.trans hvals)
    all_goals exact represent_place h
  | .variants variants, v, m, m', x, h => by
    cases v
    case struct vs =>
      match vs, h with
      | .u16 tag :: vs, h =>
        obtain ⟨⟨xs, m₁⟩, hvs, h⟩ := Option.bind_eq_some_iff.mp h
        obtain ⟨rfl, rfl⟩ := Prod.mk.inj (Option.some.inj h)
        obtain ⟨hxs, hvals⟩ := representVariant_spec variants tag.toNat hvs
        -- the tag is a primitive, which holds nothing
        have hin : ∀ y ∈ ValueImpl.prim (.u16 tag) :: xs, y ∈ xs ∨ y.holds = [] := by
          intro y hy
          rcases List.mem_cons.mp hy with rfl | hy
          · exact .inr rfl
          · exact .inl hy
        refine ⟨hxs.alloc .struct hin, ?_⟩
        have hkeep := variantAs_congr hxs.closed
          (Built.sameInside_alloc .struct (ValueImpl.prim (.u16 tag) :: xs)) variants tag.toNat
          hxs.values
        simp only [valueAs, Heap.cell_alloc_self, if_true]
        exact congrArg (Option.map fun ws => Value.struct (.u16 tag :: ws)) (hkeep.trans hvals)
    all_goals exact represent_place h
  | .signer, v, m, m', x, h => by
    cases v
    case struct vs =>
      match vs, h with
      | .u16 tag :: vs, h =>
        obtain ⟨xs, hxs, h⟩ := Option.bind_eq_some_iff.mp h
        obtain ⟨rfl, rfl⟩ := Prod.mk.inj (Option.some.inj h)
        -- a master signer or a permissioned one
        rcases signerFields_spec hxs with ⟨a, rfl, rfl⟩ | ⟨a, b, rfl, rfl⟩
        · refine ⟨(Built.refl m).alloc .struct (by simp [ValueImpl.holds]), ?_⟩
          simp only [valueAs, Heap.cell_alloc_self, if_true]
        · refine ⟨(Built.refl m).alloc .struct (by simp [ValueImpl.holds]), ?_⟩
          simp only [valueAs, Heap.cell_alloc_self, if_true]
    all_goals exact represent_place h
  | .function _ _ _, v, m, m', x, h => by
    cases v
    case closure data =>
      obtain ⟨rfl, rfl⟩ := Prod.mk.inj (Option.some.inj h)
      exact ⟨.place m rfl, rfl⟩
    all_goals exact represent_place h
  | .bool, v, m, m', x, h => by cases v <;> exact represent_place h
  | .u8, v, m, m', x, h => by cases v <;> exact represent_place h
  | .u16, v, m, m', x, h => by cases v <;> exact represent_place h
  | .u32, v, m, m', x, h => by cases v <;> exact represent_place h
  | .u64, v, m, m', x, h => by cases v <;> exact represent_place h
  | .u128, v, m, m', x, h => by cases v <;> exact represent_place h
  | .u256, v, m, m', x, h => by cases v <;> exact represent_place h
  | .address, v, m, m', x, h => by cases v <;> exact represent_place h

theorem representFields_spec : ∀ (layouts : List Layout) {vs : List Value} {m m' : VmMemory}
    {xs : List ValueImpl}, representFields layouts vs m = some (xs, m') →
      Built m m' xs ∧ fieldsAs m'.heap layouts xs = some vs
  | [], vs, m, m', xs, h => by
    cases vs with
    | nil =>
      obtain ⟨rfl, rfl⟩ := Prod.mk.inj (Option.some.inj h)
      exact ⟨.refl m, rfl⟩
    | cons _ _ => cases h
  | layout :: layouts, vs, m, m', xs, h => by
    cases vs with
    | nil => cases h
    | cons v vs =>
      obtain ⟨⟨x, m₁⟩, hv, h⟩ := Option.bind_eq_some_iff.mp h
      obtain ⟨⟨xs', m₂⟩, hvs, h⟩ := Option.bind_eq_some_iff.mp h
      obtain ⟨rfl, rfl⟩ := Prod.mk.inj (Option.some.inj h)
      obtain ⟨hx, hxv⟩ := represent_spec layout hv
      obtain ⟨hxs, hxsv⟩ := representFields_spec layouts hvs
      refine ⟨hx.trans hxs, ?_⟩
      have hkeep : valueAs m₂.heap layout x = valueAs m₁.heap layout x :=
        valueAs_congr hx.closed hxs.sameInside layout (hx.values x List.mem_cons_self)
      simp only [fieldsAs, hkeep, hxv, hxsv]
      rfl

theorem representVariant_spec : ∀ (variants : List (List Layout)) (i : Nat) {vs : List Value}
    {m m' : VmMemory} {xs : List ValueImpl}, representVariant variants i vs m = some (xs, m') →
      Built m m' xs ∧ variantAs m'.heap variants i xs = some vs
  | [], _, _, _, _, _, h => by cases h
  | fields :: _, 0, _, _, _, _, h => representFields_spec fields h
  | _ :: variants, i + 1, _, _, _, _, h => representVariant_spec variants i h

end

/-! ## What is read can be put into memory -/

/-- The value can be put into every memory at the layout. -/
def Layout.Takes (layout : Layout) (v : Value) : Prop := ∀ m, (represent layout v m).isSome = true

/-- Elements that can be put into any memory, one after the other. -/
theorem representEach_isSome {build : Value → VmMemory → Option (ValueImpl × VmMemory)}
    {vs : List Value} (h : ∀ v ∈ vs, ∀ m, (build v m).isSome = true) (m : VmMemory) :
    (representEach build vs m).isSome = true := by
  induction vs generalizing m with
  | nil => rfl
  | cons v vs ih =>
    obtain ⟨⟨x, m₁⟩, hx⟩ := Option.isSome_iff_exists.mp (h v List.mem_cons_self m)
    obtain ⟨⟨xs, m₂⟩, hxs⟩ := Option.isSome_iff_exists.mp
      (ih (fun u hu => h u (List.mem_cons_of_mem _ hu)) m₁)
    simp [representEach, hx, hxs]

variable {closures : Layout → Codec Bytes}

mutual

/-- **Totality.** Whatever bytes are read as at a layout can be put into memory. -/
theorem takes_of_decode : ∀ (layout : Layout) {bs : Bytes} {v : Value} {rest : Bytes},
    (valueCodec closures layout).decode bs = some (v, rest) → layout.Takes v
  | .bool, _, _, _, h | .u8, _, _, _, h | .u16, _, _, _, h | .u32, _, _, _, h
  | .u64, _, _, _, h | .u128, _, _, _, h | .u256, _, _, _, h | .address, _, _, _, h => by
    simp only [valueCodec, Value.boolCodec, Value.u8Codec, Value.u16Codec, Value.u32Codec,
      Value.u64Codec, Value.u128Codec, Value.u256Codec, Value.addressCodec] at h
    obtain ⟨a, -, rfl⟩ := Codec.decode_prism.mp h
    exact fun m => rfl
  | .vector elem, bs, v, rest, h => by
    rw [valueCodec, Value.vectorCodec] at h
    obtain ⟨vs, hvs, rfl⟩ := Codec.decode_prism.mp h
    obtain ⟨⟨n, r⟩, -, hvs⟩ := Option.bind_eq_some_iff.mp hvs
    intro m
    -- every element was decoded with the codec of the elements
    have hall : ∀ v ∈ vs, elem.Takes v := by
      intro v hv
      obtain ⟨bs', r', hv'⟩ := Codec.decodeN_of_mem hvs hv
      exact takes_of_decode elem hv'
    obtain ⟨⟨xs, m'⟩, hxs⟩ := Option.isSome_iff_exists.mp (representEach_isSome hall m)
    simp [represent, hxs]
  | .struct fields, bs, v, rest, h => by
    rw [valueCodec, Value.structCodec] at h
    obtain ⟨vs, hvs, rfl⟩ := Codec.decode_prism.mp h
    intro m
    obtain ⟨⟨xs, m'⟩, hxs⟩ := Option.isSome_iff_exists.mp (fields_take_of_decode fields hvs m)
    simp [represent, hxs]
  | .variants variants, bs, v, rest, h => by
    rw [valueCodec, Value.variantsCodec] at h
    split at h
    · cases h
    rename_i hlen
    obtain ⟨⟨i, vs⟩, htag, rfl⟩ := Codec.decode_prism.mp h
    obtain ⟨r, -, c, hc, hvs⟩ := Codec.decode_tagged.mp htag
    intro m
    have hi : i < (variantCodecs closures variants).length := (List.getElem?_eq_some_iff.mp hc).1
    -- there are at most 127 variants, so the tag is not cut to two bytes
    have hroom : (UInt16.ofNat i).toNat = i := by
      rw [UInt16.toNat_ofNat']
      unfold variantCountMax at hlen
      -- the deserializer refuses layouts with more variants
      omega
    obtain ⟨⟨xs, m'⟩, hxs⟩ := Option.isSome_iff_exists.mp
      (variant_takes_of_decode variants hc hvs m)
    simp [represent, hroom, hxs]
  | .signer, bs, v, rest, h => by
    have hcodec : valueCodec closures .signer = Value.signerCodec := rfl
    rw [hcodec, Value.signerCodec, Value.variantsCodec, if_neg (by decide)] at h
    obtain ⟨⟨i, vs⟩, htag, rfl⟩ := Codec.decode_prism.mp h
    obtain ⟨r, -, c, hc, hvs⟩ := Codec.decode_tagged.mp htag
    have hi : i < 2 := by simpa using (List.getElem?_eq_some_iff.mp hc).1
    intro m
    -- both variants are rows of addresses
    match i, hi with
    | 0, _ =>
      obtain rfl := Option.some.inj hc
      obtain ⟨v, vs, r', rfl, hv, hvs⟩ := Codec.decode_tuple_cons.mp hvs
      obtain ⟨rfl, -⟩ := Codec.decode_tuple_nil.mp hvs
      obtain ⟨a, rfl, -⟩ := addressCodec_decode hv
      rfl
    | 1, _ =>
      obtain rfl := Option.some.inj hc
      obtain ⟨v, vs, r', rfl, hv, hvs⟩ := Codec.decode_tuple_cons.mp hvs
      obtain ⟨w, ws, r', rfl, hw, hvs⟩ := Codec.decode_tuple_cons.mp hvs
      obtain ⟨rfl, -⟩ := Codec.decode_tuple_nil.mp hvs
      obtain ⟨a, rfl, -⟩ := addressCodec_decode hv
      obtain ⟨b, rfl, -⟩ := addressCodec_decode hw
      rfl
  | .function _ _ _, bs, v, rest, h => by
    simp only [valueCodec, Value.closureCodec] at h
    obtain ⟨a, -, rfl⟩ := Codec.decode_prism.mp h
    exact fun m => rfl

theorem fields_take_of_decode : ∀ (layouts : List Layout) {bs : Bytes} {vs : List Value}
    {rest : Bytes}, (Codec.tuple (valueCodecs closures layouts)).decode bs = some (vs, rest) →
      ∀ m, (representFields layouts vs m).isSome = true
  | [], _, _, _, h => by
    obtain ⟨rfl, -⟩ := Codec.decode_tuple_nil.mp h
    exact fun m => rfl
  | layout :: layouts, _, _, _, h => by
    obtain ⟨v, vs, r, rfl, hv, hvs⟩ := Codec.decode_tuple_cons.mp h
    intro m
    obtain ⟨⟨x, m₁⟩, hx⟩ := Option.isSome_iff_exists.mp (takes_of_decode layout hv m)
    obtain ⟨⟨xs, m₂⟩, hxs⟩ := Option.isSome_iff_exists.mp (fields_take_of_decode layouts hvs m₁)
    simp [representFields, hx, hxs]

theorem variant_takes_of_decode : ∀ (variants : List (List Layout)) {i : Nat}
    {c : Codec (List Value)} {bs : Bytes} {vs : List Value} {rest : Bytes},
    (variantCodecs closures variants)[i]? = some c → c.decode bs = some (vs, rest) →
      ∀ m, (representVariant variants i vs m).isSome = true
  | [], _, _, _, _, _, hc, _ => by cases hc
  | fields :: _, 0, _, _, _, _, hc, h => by
    obtain rfl := Option.some.inj hc
    exact fields_take_of_decode fields h
  | _ :: variants, _ + 1, _, _, _, _, hc, h => variant_takes_of_decode variants hc h

end

/-! ## New cells as a region -/

/-- No cells at all. What is outside of it refers to cells of the memory. -/
def noCells : FlagRegion where
  cells _ := False
  tag := none

namespace Built

variable {m m' : VmMemory} {xs : List ValueImpl}

theorem grows (h : Built m m' xs) : m.Grows m' where
  next := h.next
  nextStatus := h.nextStatus.ge
  dirty s _ hs := by rw [h.status]; exact hs

/-- What is new owns what is new, and a region there was has none of it. -/
theorem outside_of_new {R : FlagRegion} (hR : m.Sealed R) {v : ValueImpl}
    (hv : (newCells m m' none).Inside ValueImpl.holds v) : R.Outside m' v := by
  intro hold hmem
  obtain ⟨d, ⟨hlo, hhi⟩, rfl⟩ := hv hold hmem
  refine admits_owns hhi fun hd => ?_
  have hlt := hR.heap.allocated d hd
  omega

/-- **Frame.** Building a value keeps every region there was. -/
theorem kept {R : FlagRegion} (h : Built m m' xs) (hR : m.Sealed R) : Kept R m m' xs where
  isSealed := by
    refine ⟨⟨fun c hc => Nat.lt_of_lt_of_le (hR.heap.allocated c hc) h.next, ?_, ?_⟩, ?_⟩
    · -- cells of the region are older than what was built, and hold what they held
      intro c hc v hv
      have hlt := hR.heap.allocated c hc
      rw [h.same c (by omega)] at hv
      exact hR.heap.inside c hc v hv
    · intro c hc v hv
      -- a cell outside is a new one, or one that was there
      by_cases hnew : m.heap.next ≤ c ∧ c < m'.heap.next
      · exact outside_of_new hR (h.inside c hnew v hv)
      · rw [h.same c hnew] at hv
        exact (hR.heap.outside c hc v hv).mono h.next
    · intro c hc
      rw [h.nextStatus]
      exact hR.flag c hc
  same c hc := by
    have hlt := hR.heap.allocated c hc
    exact h.same c (by omega)
  outside x hx := outside_of_new hR (h.values x hx)

/-- A value from storage is outside of every region there was. -/
theorem respects (h : Built m m' xs) (args : List ValueImpl) : Respects args m m' xs where
  grows := h.grows
  region _ hR _ := .inr (h.kept hR)

/-- **A new region.** Lent under a new flag, the new cells are sealed. -/
theorem isSealed (h : Built m m' xs) (hm : m.Sealed noCells) (st : GlobalDataStatus) :
    (m'.newStatus st).Sealed (newCells m m' (some m'.nextStatus)) where
  heap := by
    refine sealed_fresh (H := m.heap) h.next (fun _ => Iff.rfl) ?_ h.same h.inside
    intro c v hv hold hmem
    exact (hm.heap.outside c id v hv hold hmem).1
  flag _ _ := ⟨m'.nextStatus, Nat.lt_succ_self _, rfl⟩

end Built

/-- A new flag leaves the old ones. -/
theorem VmMemory.newStatus_grows (m : VmMemory) (st : GlobalDataStatus) :
    m.Grows (m.newStatus st) where
  next := le_rfl
  nextStatus := Nat.le_succ _
  dirty s hs h := by
    show Function.update m.status m.nextStatus st s = .dirty
    rw [Function.update_of_ne (by omega), h]

/-- A new flag is the flag of no region yet. -/
theorem VmMemory.newStatus_respects (m : VmMemory) (st : GlobalDataStatus) (args : List ValueImpl) :
    Respects args m (m.newStatus st) [] where
  grows := m.newStatus_grows st
  region R hR _ := by
    refine .inr ⟨⟨hR.heap, fun c hc => ?_⟩, .refl _, by simp⟩
    obtain ⟨s, hs, htag⟩ := hR.flag c hc
    exact ⟨s, Nat.lt_succ_of_lt hs, htag⟩

end NexusMove
