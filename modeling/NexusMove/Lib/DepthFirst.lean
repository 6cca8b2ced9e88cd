import Mathlib

/-!
# Depth-first search with an explicit stack

The search keeps a stack of vertices and a mark for every vertex that it has met. A vertex is
pushed again when it is explored, below its successors, and comes to the top for the second
time when all of these are done: then it is finished. Vertices that are pushed more than
once are skipped once they are done.

`order` lists the finished vertices, the last one first, which is the reverse post-order.

* `Search.step`, `Search.run`, `search` — the search.
* `stack_search` — it ends.
* `Invariant` — what holds at every step: where the vertices lie on the stack.
* `Traversal`, `traversal_search` — every edge goes forward in the order, or it is recorded
  as a back edge, and every vertex but the first is reached by an edge that goes forward.
-/

namespace DepthFirst

variable {V : Type}

/-- The marks of a vertex that was met. -/
inductive Exploration where
  | inProgress
  | done
deriving DecidableEq

/-- The state of the search. A back edge goes from its first vertex to its second. -/
structure Search (V : Type) where
  stack : List V
  exploration : V → Option Exploration
  backEdges : List (V × V)
  order : List V

/-- `u` stands before `w`. -/
def Before (order : List V) (u w : V) : Prop := [u, w].Sublist order

namespace Before

variable {order : List V} {u w x : V}

theorem cons (h : Before order u w) : Before (x :: order) u w := List.Sublist.cons x h

theorem head (h : w ∈ order) : Before (u :: order) u w :=
  List.Sublist.cons_cons u (List.singleton_sublist.mpr h)

theorem right_mem (h : Before order u w) : w ∈ order :=
  List.singleton_sublist.mp ((List.sublist_cons_self u [w]).trans h)

theorem left_mem (h : Before order u w) : u ∈ order :=
  h.subset List.mem_cons_self

/-- The order cut at the earlier vertex. -/
theorem exists_split (h : Before order u w) : ∃ a b, order = a ++ u :: b ∧ w ∈ b := by
  induction order with
  | nil => exact absurd h.right_mem List.not_mem_nil
  | cons x order ih =>
    rcases List.sublist_cons_iff.mp h with h | ⟨r, hr, h⟩
    · obtain ⟨a, b, rfl, hw⟩ := ih h
      exact ⟨x :: a, b, rfl, hw⟩
    · obtain ⟨rfl, rfl⟩ := List.cons.inj hr
      exact ⟨[], order, rfl, List.singleton_sublist.mp h⟩

/-- In an order without repetitions the earlier vertex has the smaller position. -/
theorem idxOf_lt [DecidableEq V] (hnodup : order.Nodup) (h : Before order u w) :
    order.idxOf u < order.idxOf w := by
  obtain ⟨a, b, rfl, hw⟩ := h.exists_split
  obtain ⟨-, hub, hdisjoint⟩ := List.nodup_append.mp hnodup
  have hua : u ∉ a := fun hu => hdisjoint u hu u List.mem_cons_self rfl
  have hwa : w ∉ a := fun hwa => hdisjoint w hwa w (List.mem_cons_of_mem u hw) rfl
  have hne : u ≠ w := by
    rintro rfl
    exact (List.nodup_cons.mp hub).1 hw
  rw [List.idxOf_append_of_notMem hua, List.idxOf_append_of_notMem hwa, List.idxOf_cons_self,
    List.idxOf_cons_ne b hne]
  omega

end Before

/-- `w` lies above the uppermost `u`. -/
def Above (stack : List V) (w u : V) : Prop := ∃ a b, stack = a ++ u :: b ∧ u ∉ a ∧ w ∈ a

namespace Above

variable {stack new : List V} {u w x : V}

/-- Pushing vertices that are not `u` keeps what lies above it. -/
theorem pushed (h : Above stack w u) (hnew : u ∉ new) : Above (new ++ stack) w u := by
  obtain ⟨a, b, rfl, hu, hw⟩ := h
  refine ⟨new ++ a, b, (List.append_assoc new a (u :: b)).symm, ?_, List.mem_append_right new hw⟩
  intro hua
  exact (List.mem_append.mp hua).elim hnew hu

/-- What lies above `u` stays there when something else is taken, unless it was taken. -/
theorem popped (h : Above (x :: stack) w u) (hux : u ≠ x) : w = x ∨ Above stack w u := by
  obtain ⟨a, b, heq, hu, hw⟩ := h
  cases a with
  | nil => exact absurd (List.cons.inj heq).1.symm hux
  | cons y a =>
    obtain ⟨rfl, rfl⟩ := List.cons.inj heq
    rcases List.mem_cons.mp hw with rfl | hw
    · exact .inl rfl
    · exact .inr ⟨a, b, rfl, fun hua => hu (List.mem_cons_of_mem _ hua), hw⟩

/-- Nothing lies above the top. -/
theorem not_top : ¬ Above (u :: stack) w u := by
  rintro ⟨a, b, heq, hu, hw⟩
  cases a with
  | nil => cases hw
  | cons y a =>
    obtain ⟨rfl, -⟩ := List.cons.inj heq
    exact hu List.mem_cons_self

end Above

/-! ## The search -/

namespace Search

/-- One successor of the vertex `v` that is being explored. -/
def visit (v : V) (s : Search V) (w : V) : Search V :=
  match s.exploration w with
  | none => { s with stack := w :: s.stack }
  | some .inProgress => { s with backEdges := (v, w) :: s.backEdges }
  | some .done => s

/-- The loop over the successors: those never met are pushed, and those in progress are heads. -/
theorem foldl_visit (v : V) (ws : List V) (s : Search V) :
    ws.foldl (visit v) s =
      { s with
        stack := (ws.filter fun w => s.exploration w = none).reverse ++ s.stack
        backEdges := ((ws.filter fun w => s.exploration w = some .inProgress).map
          fun w => (v, w)).reverse ++ s.backEdges } := by
  induction ws generalizing s with
  | nil => rfl
  -- the rest of the loop does not touch the marks, so both filters are over those at its start
  | cons w ws ih =>
    rw [List.foldl_cons, ih]
    unfold visit
    cases hw : s.exploration w with
    | none => simp [hw]
    | some e => cases e <;> simp [hw]

end Search

variable (succs : V → List V)

section Code

variable [DecidableEq V]

namespace Search

/-- One turn of the loop. A vertex is popped and marked, or popped and finished, or only popped. -/
def step (s : Search V) : Search V :=
  match s.stack with
  | [] => s
  | v :: rest =>
    match s.exploration v with
    | none => (succs v).foldl (visit v)
        { s with exploration := Function.update s.exploration v (some .inProgress) }
    | some .done => { s with stack := rest }
    | some .inProgress =>
      { s with
        stack := rest
        exploration := Function.update s.exploration v (some .done)
        order := v :: s.order }

/-- The loop, at most `fuel` turns. -/
def run : Nat → Search V → Search V
  | 0, s => s
  | fuel + 1, s => run fuel (s.step succs)

def start (v : V) : Search V where
  stack := [v]
  exploration := fun _ => none
  backEdges := []
  order := []

end Search

end Code

/-- As many steps as there may be pushes, over the vertices of the graph. -/
def cost (vertices : List V) : Nat := (vertices.map fun v => (succs v).length + 1).sum + 1

/-- The search from `v`, with fuel for every edge and vertex. -/
def search [DecidableEq V] (vertices : List V) (v : V) : Search V :=
  (Search.start v).run succs (cost succs vertices)

/-! ## What a step does -/

namespace Search

def marked [DecidableEq V] (s : Search V) (v : V) : V → Option Exploration :=
  Function.update s.exploration v (some .inProgress)

/-- The state after `v` was met for the first time. -/
def explored [DecidableEq V] (s : Search V) (v : V) (rest : List V) : Search V where
  stack := ((succs v).filter fun w => s.marked v w = none).reverse ++ v :: rest
  exploration := s.marked v
  backEdges := (((succs v).filter fun w => s.marked v w = some .inProgress).map
    fun w => (v, w)).reverse ++ s.backEdges
  order := s.order

/-- What one turn can do, by the mark of the vertex on top. -/
inductive Stepped [DecidableEq V] (s s' : Search V) : Prop where
  | explored (v : V) (rest : List V) (hstack : s.stack = v :: rest)
      (hnew : s.exploration v = none) (hs : s' = s.explored succs v rest)
  | skipped (v : V) (rest : List V) (hstack : s.stack = v :: rest)
      (hdone : s.exploration v = some .done) (hs : s' = { s with stack := rest })
  | finished (v : V) (rest : List V) (hstack : s.stack = v :: rest)
      (hprogress : s.exploration v = some .inProgress)
      (hs : s' =
        { stack := rest
          exploration := Function.update s.exploration v (some .done)
          backEdges := s.backEdges
          order := v :: s.order })

/-- Every turn with something on the stack is one of the three. -/
theorem step_stepped [DecidableEq V] {s : Search V} (h : s.stack ≠ []) :
    Stepped succs s (s.step succs) := by
  unfold step
  split
  · contradiction
  · rename_i v rest hstack
    split
    · -- not met yet: the loop over the successors is the lemma on the fold
      rename_i hnew
      refine .explored v rest hstack hnew ?_
      rw [foldl_visit, hstack]
      rfl
    · rename_i hdone
      exact .skipped v rest hstack hdone rfl
    · rename_i hprogress
      exact .finished v rest hstack hprogress rfl

end Search

/-! ## The search ends -/

section Ends

variable [DecidableEq V] (vertices : List V)

/-- What is left to do: the stack, and a vertex never met with all its successors. -/
def Search.potential (s : Search V) : Nat :=
  s.stack.length
    + (vertices.map fun v => if s.exploration v = none then (succs v).length + 1 else 0).sum

/-- Everything on the stack is a vertex. -/
def Search.Within (s : Search V) : Prop := ∀ v ∈ s.stack, v ∈ vertices

variable {vertices} {succs}

variable (succs) in
/-- Marking a vertex takes its part out of the sum. -/
theorem sum_update_le {exploration : V → Option Exploration} {v : V} (hnew : exploration v = none)
    (hv : v ∈ vertices) (e : Exploration) :
    (vertices.map fun w =>
        if Function.update exploration v (some e) w = none then (succs w).length + 1 else 0).sum
      + ((succs v).length + 1)
      ≤ (vertices.map fun w => if exploration w = none then (succs w).length + 1 else 0).sum := by
  -- no part grows, whichever vertex is marked
  have hle : ∀ ws : List V,
      (ws.map fun w =>
        if Function.update exploration v (some e) w = none then (succs w).length + 1 else 0).sum
      ≤ (ws.map fun w => if exploration w = none then (succs w).length + 1 else 0).sum := by
    intro ws
    refine List.sum_le_sum fun w _ => ?_
    by_cases hw : w = v
    · subst hw
      simp
    · rw [Function.update_of_ne hw]
  -- the part of `v` itself is lost, wherever it stands among the vertices
  obtain ⟨as, bs, rfl⟩ := List.append_of_mem hv
  have has := hle as
  have hbs := hle bs
  simp only [List.map_append, List.map_cons, List.sum_append, List.sum_cons, Function.update_self,
    hnew, if_pos, reduceCtorEq, if_false] at *
  omega

/-- The stack never leaves a set of vertices that is closed under successors. -/
theorem Search.Within.step {s : Search V} (hclosed : ∀ v ∈ vertices, ∀ w ∈ succs v, w ∈ vertices)
    (h : s.Within vertices) : (s.step succs).Within vertices := by
  by_cases hempty : s.stack = []
  · unfold Search.step
    rwa [hempty]
  · intro w hw
    cases Search.step_stepped succs hempty with
    | explored v rest hstack hnew hs =>
      -- what is pushed are successors of a vertex that is within
      rw [hs] at hw
      have hv : v ∈ vertices := h v (by rw [hstack]; exact List.mem_cons_self)
      rcases List.mem_append.mp hw with hw | hw
      · exact hclosed v hv w (List.mem_filter.mp (List.mem_reverse.mp hw)).1
      · exact h w (by rwa [hstack])
    | skipped v rest hstack hdone hs =>
      rw [hs] at hw
      exact h w (by rw [hstack]; exact List.mem_cons_of_mem v hw)
    | finished v rest hstack hprogress hs =>
      rw [hs] at hw
      exact h w (by rw [hstack]; exact List.mem_cons_of_mem v hw)

variable (succs) in
/-- **Termination.** Every turn uses up potential: an exploration its part of the sum, the others a
place of the stack. -/
theorem Search.potential_step {s : Search V} (h : s.Within vertices) (hempty : s.stack ≠ []) :
    (s.step succs).potential succs vertices < s.potential succs vertices := by
  unfold Search.potential
  cases Search.step_stepped succs hempty with
  | explored v rest hstack hnew hs =>
    have hsum := sum_update_le succs hnew
      (h v (by rw [hstack]; exact List.mem_cons_self)) .inProgress
    -- at most all successors are pushed, one less than what marking the vertex takes away
    have hfilter := List.length_filter_le
      (fun w => decide (Function.update s.exploration v (some .inProgress) w = none)) (succs v)
    rw [hs, hstack]
    unfold Search.explored Search.marked
    simp only [List.length_append, List.length_reverse, List.length_cons]
    omega
  | skipped v rest hstack hdone hs =>
    -- the marks stay, and the stack is shorter by one
    rw [hs, hstack]
    simp only [List.length_cons]
    omega
  | finished v rest hstack hprogress hs =>
    -- a vertex that is met counts nothing, whatever its mark
    have hsum : ∀ w, (Function.update s.exploration v (some .done) w = none)
        ↔ s.exploration w = none := by
      intro w
      by_cases hw : w = v
      · subst hw
        simp [hprogress]
      · rw [Function.update_of_ne hw]
    rw [hs, hstack]
    simp only [hsum, List.length_cons]
    omega

/-- A search that is over stays as it is. -/
theorem Search.run_of_stack_nil {s : Search V} (h : s.stack = []) (fuel : Nat) :
    s.run succs fuel = s := by
  induction fuel with
  | zero => rfl
  | succ fuel ih =>
    have hstep : s.step succs = s := by
      unfold Search.step
      rw [h]
    unfold Search.run
    rw [hstep, ih]

/-- With fuel for its potential, the search comes to an empty stack. -/
theorem Search.stack_run {s : Search V} (hclosed : ∀ v ∈ vertices, ∀ w ∈ succs v, w ∈ vertices)
    (h : s.Within vertices) (fuel : Nat) (hfuel : s.potential succs vertices ≤ fuel) :
    (s.run succs fuel).stack = [] := by
  induction fuel generalizing s with
  | zero =>
    -- the stack is part of the potential, so no fuel means no stack
    have hlength : s.stack.length ≤ s.potential succs vertices := Nat.le_add_right _ _
    show s.stack = []
    exact List.length_eq_zero_iff.mp (by omega)
  | succ fuel ih =>
    by_cases hempty : s.stack = []
    · rw [Search.run_of_stack_nil hempty, hempty]
    · have hless := Search.potential_step succs h hempty
      show ((s.step succs).run succs fuel).stack = []
      -- one turn, then the fuel that is left is enough for the potential that is left
      apply ih (h.step hclosed)
      omega

/-- **The search ends.** -/
theorem stack_search (hclosed : ∀ v ∈ vertices, ∀ w ∈ succs v, w ∈ vertices) {v : V}
    (hv : v ∈ vertices) : (search succs vertices v).stack = [] := by
  apply Search.stack_run hclosed
  · intro w hw
    rwa [List.mem_singleton.mp hw]
  · unfold Search.potential cost Search.start
    simp only [if_pos, List.length_singleton]
    omega

end Ends

/-! ## Where the vertices lie -/

/-- Below every vertex of the stack but the last lies one in progress that it was pushed for, and
that one is not above. -/
def Parented (succs : V → List V) (progress : V → Prop) (stack : List V) : Prop :=
  ∀ a w b, stack = a ++ w :: b → b ≠ [] →
    ∃ u, progress u ∧ w ∈ succs u ∧ u ∈ b ∧ u ∉ a ∧ u ≠ w

/-- What holds at every step of a search from `v`. -/
structure Invariant (v : V) (s : Search V) : Prop where
  /-- The marker of a vertex in progress, at which it will be finished. -/
  marker : ∀ u, s.exploration u = some .inProgress → u ∈ s.stack
  /-- The order holds exactly the finished vertices. -/
  finished : ∀ u, u ∈ s.order ↔ s.exploration u = some .done
  nodup : s.order.Nodup
  entered : v ∈ s.stack ∨ v ∈ s.order
  /-- At the bottom of the stack lies the vertex that the search began with. -/
  bottom : ∀ a w, s.stack = a ++ [w] → w = v
  /-- Every other entry was pushed for a vertex in progress further down. -/
  parented : Parented succs (fun u => s.exploration u = some .inProgress) s.stack
  reached : ∀ w ∈ s.order, w ≠ v →
    ∃ u, w ∈ succs u ∧ (s.exploration u = some .inProgress ∨ Before s.order u w)
  /-- The edges of a vertex in progress. -/
  inner : ∀ u, s.exploration u = some .inProgress → ∀ w ∈ succs u,
    (u, w) ∈ s.backEdges ∨ w ∈ s.order ∨ Above s.stack w u
  /-- The edges of a finished vertex. -/
  outer : ∀ u ∈ s.order, ∀ w ∈ succs u, (u, w) ∈ s.backEdges ∨ Before s.order u w
  /-- The head of a back edge does not come after its tail, or has not finished yet. -/
  backward : ∀ u w, (u, w) ∈ s.backEdges → u = w ∨ Before s.order w u
    ∨ s.exploration w = some .inProgress ∧ (u ∈ s.order ∨ Above s.stack u w)
  /-- The heads of back edges were met. -/
  closed : ∀ u w, (u, w) ∈ s.backEdges → s.exploration w ≠ none

section Step

variable {succs} {v : V} {s : Search V}

/-- Only `v` is on the stack, and nothing is marked. -/
theorem invariant_start : Invariant succs v (Search.start v) where
  marker _ h := by cases h
  finished _ := by simp [Search.start]
  nodup := List.nodup_nil
  entered := .inl List.mem_cons_self
  bottom a w h := by
    cases a with
    | nil => exact (List.cons.inj h).1.symm
    | cons x a => simp [Search.start] at h
  parented a w b h hb := by
    cases a with
    | nil => exact absurd (List.cons.inj h).2.symm hb
    | cons x a => simp [Search.start] at h
  reached _ h := by cases h
  inner _ h := by cases h
  outer _ h := by cases h
  backward _ _ h := by cases h
  closed _ _ h := by cases h

/-- A vertex that is done. -/
theorem Invariant.skipped (h : Invariant succs v s) {x : V} {rest : List V}
    (hstack : s.stack = x :: rest) (hdone : s.exploration x = some .done) :
    Invariant succs v { s with stack := rest } := by
  have hne : ∀ {u}, s.exploration u = some .inProgress → u ≠ x := by
    rintro u hu rfl
    rw [hdone] at hu
    cases hu
  constructor
  case marker =>
    intro u hu
    have hmem := h.marker u hu
    rw [hstack] at hmem
    exact (List.mem_cons.mp hmem).resolve_left (hne hu)
  case finished => exact h.finished
  case nodup => exact h.nodup
  case entered =>
    have hentered := h.entered
    rw [hstack] at hentered
    rcases hentered with hmem | hmem
    · -- the vertex that is popped may be the first one, which is finished then
      rcases List.mem_cons.mp hmem with rfl | hmem
      · exact .inr ((h.finished v).mpr hdone)
      · exact .inl hmem
    · exact .inr hmem
  case bottom =>
    intro a w heq
    exact h.bottom (x :: a) w (by rw [hstack]; exact congrArg (x :: ·) heq)
  case parented =>
    intro a w b heq hb
    obtain ⟨u, hu, hw, hub, hua, huw⟩ := h.parented (x :: a) w b
      (by rw [hstack]; exact congrArg (x :: ·) heq) hb
    exact ⟨u, hu, hw, hub, fun hmem => hua (List.mem_cons_of_mem x hmem), huw⟩
  case reached => exact h.reached
  case inner =>
    intro u hu w hw
    rcases h.inner u hu w hw with hb | hd | ha
    · exact .inl hb
    · exact .inr (.inl hd)
    · rw [hstack] at ha
      -- the successor that was popped is done, or it lies above still
      rcases ha.popped (hne hu) with rfl | ha
      · exact .inr (.inl ((h.finished w).mpr hdone))
      · exact .inr (.inr ha)
  case outer => exact h.outer
  case backward =>
    intro u w huw
    rcases h.backward u w huw with heq | hbefore | ⟨hw, hpos⟩
    · exact .inl heq
    · exact .inr (.inl hbefore)
    · refine .inr (.inr ⟨hw, ?_⟩)
      rcases hpos with hu | ha
      · exact .inl hu
      · rw [hstack] at ha
        -- the same for the tail of a back edge
        rcases ha.popped (hne hw) with rfl | ha
        · exact .inl ((h.finished u).mpr hdone)
        · exact .inr ha
  case closed => exact h.closed

section

variable [DecidableEq V]

/-- A vertex that is met for the first time. -/
theorem Invariant.explored (h : Invariant succs v s) {x : V} {rest : List V}
    (hstack : s.stack = x :: rest) (hnew : s.exploration x = none) :
    Invariant succs v (s.explored succs x rest) := by
  unfold Search.explored
  -- how the marks change: at `x` only, and nothing that was marked loses its mark
  have hself : s.marked x x = some .inProgress := Function.update_self _ _ _
  have hother : ∀ {u}, u ≠ x → s.marked x u = s.exploration u :=
    fun hu => Function.update_of_ne hu _ _
  have hkept : ∀ {u e}, s.exploration u = some e → s.marked x u = some e := by
    intro u e hu
    rw [hother (by rintro rfl; rw [hnew] at hu; cases hu), hu]
  generalize hpushed : ((succs x).filter fun w => s.marked x w = none).reverse = pushed
  -- the vertices that are pushed have no mark
  have hfresh : ∀ {w}, w ∈ pushed ↔ w ∈ succs x ∧ s.marked x w = none := by
    intro w
    rw [← hpushed, List.mem_reverse, List.mem_filter, decide_eq_true_iff]
  have hmet : ∀ {u e}, s.marked x u = some e → u ∉ pushed := by
    intro u e hu hmem
    rw [(hfresh.mp hmem).2] at hu
    cases hu
  have hprogress : ∀ {u}, s.marked x u = some .inProgress →
      u = x ∨ s.exploration u = some .inProgress := by
    intro u hu
    by_cases hux : u = x
    · exact .inl hux
    · rw [hother hux] at hu
      exact .inr hu
  have hdone : ∀ {u}, u ∈ s.order ↔ s.marked x u = some .done := by
    intro u
    rw [h.finished]
    refine ⟨hkept, fun hu => ?_⟩
    by_cases hux : u = x
    · rw [hux, hself] at hu
      cases hu
    · rwa [hother hux] at hu
  have habove : ∀ {u w}, s.exploration u = some .inProgress → Above s.stack w u →
      Above (pushed ++ x :: rest) w u := by
    intro u w hu hw
    rw [hstack] at hw
    exact hw.pushed (hmet (hkept hu))
  -- the new back edges are those of `x` to vertices in progress
  have hback : ∀ {u w}, (u, w) ∈ (((succs x).filter fun w => s.marked x w = some .inProgress).map
      fun w => (x, w)).reverse ++ s.backEdges ↔
      (u = x ∧ w ∈ succs x ∧ s.marked x w = some .inProgress) ∨ (u, w) ∈ s.backEdges := by
    intro u w
    simp only [List.mem_append, List.mem_reverse, List.mem_map, List.mem_filter,
      decide_eq_true_eq, Prod.mk.injEq]
    constructor
    · rintro (⟨w', hw', rfl, rfl⟩ | hold)
      · exact .inl ⟨rfl, hw'⟩
      · exact .inr hold
    · rintro (⟨rfl, hw⟩ | hold)
      · exact .inl ⟨w, hw, rfl, rfl⟩
      · exact .inr hold
  constructor
  case marker =>
    intro u hu
    rcases hprogress hu with rfl | hu
    · exact List.mem_append_right pushed List.mem_cons_self
    · have hmem := h.marker u hu
      rw [hstack] at hmem
      exact List.mem_append_right pushed hmem
  case finished => exact fun u => hdone
  case nodup => exact h.nodup
  case entered =>
    have hentered := h.entered
    rw [hstack] at hentered
    exact hentered.imp_left (List.mem_append_right pushed)
  case bottom =>
    intro a w heq
    -- the last vertex of the stack is that of the old one
    obtain ⟨b, y, hrest⟩ : ∃ b y, x :: rest = b ++ [y] :=
      ⟨_, _, (List.dropLast_append_getLast (List.cons_ne_nil x rest)).symm⟩
    have heq' : (pushed ++ b) ++ [y] = a ++ [w] := by
      rw [List.append_assoc, ← hrest]
      exact heq
    have hlast : y = w := by
      simpa using (List.append_inj' heq' rfl).2
    rw [← hlast]
    exact h.bottom b y (hstack.trans hrest)
  case parented =>
    intro a w b heq hb
    rcases List.append_eq_append_iff.mp heq with ⟨c, rfl, hc⟩ | ⟨c, rfl, hc⟩
    · -- a split of the old stack
      obtain ⟨u, hu, hw, hub, huc, hne⟩ := h.parented c w b (hstack.trans hc) hb
      refine ⟨u, hkept hu, hw, hub, fun hmem => ?_, hne⟩
      exact (List.mem_append.mp hmem).elim (hmet (hkept hu)) huc
    · -- the split lies in what was pushed, or between it and the old stack
      cases c with
      | nil =>
        rw [List.nil_append] at hc
        obtain ⟨u, hu, hw, hub, -, hne⟩ := h.parented [] w b (hstack.trans hc.symm) hb
        refine ⟨u, hkept hu, hw, hub, fun hmem => ?_, hne⟩
        exact hmet (hkept hu) (List.mem_append_left [] hmem)
      | cons y c =>
        obtain ⟨rfl, rfl⟩ := List.cons.inj hc
        -- a vertex just pushed: it was pushed for `x`, which is in progress below
        have hw := hfresh.mp (List.mem_append_right a List.mem_cons_self)
        refine ⟨x, hself, hw.1, List.mem_append_right c List.mem_cons_self, fun hmem => ?_, ?_⟩
        · exact hmet hself (List.mem_append_left _ hmem)
        · rintro rfl
          rw [hself] at hw
          cases hw.2
  case reached =>
    intro w hw hne
    obtain ⟨u, hu, hpos⟩ := h.reached w hw hne
    exact ⟨u, hu, hpos.imp_left hkept⟩
  case inner =>
    intro u hu w hw
    rcases hprogress hu with rfl | hu
    · -- the vertex itself: by the mark of its successor
      cases hm : s.marked u w with
      | none =>
        exact .inr (.inr ⟨pushed, rest, rfl, hmet hself, hfresh.mpr ⟨hw, hm⟩⟩)
      | some e =>
        cases e with
        | inProgress => exact .inl (hback.mpr (.inl ⟨rfl, hw, hm⟩))
        | done => exact .inr (.inl (hdone.mpr hm))
    · rcases h.inner u hu w hw with hb | hd | ha
      · exact .inl (hback.mpr (.inr hb))
      · exact .inr (.inl hd)
      · exact .inr (.inr (habove hu ha))
  case outer =>
    intro u hu w hw
    exact (h.outer u hu w hw).imp_left fun hb => hback.mpr (.inr hb)
  case backward =>
    intro u w huw
    rcases hback.mp huw with ⟨rfl, hw, hm⟩ | huw
    · rcases hprogress hm with rfl | hm'
      · exact .inl rfl
      · -- the head lies further down
        refine .inr (.inr ⟨hm, .inr ?_⟩)
        have hwx : w ≠ u := by
          rintro rfl
          rw [hnew] at hm'
          cases hm'
        have hmem := h.marker w hm'
        rw [hstack] at hmem
        rcases List.mem_cons.mp hmem with rfl | hmem
        · exact absurd rfl hwx
        · -- the first place of the head below `x`, since nothing pushed is the head
          obtain ⟨c, d, hcd, hc⟩ := List.eq_append_cons_of_mem hmem
          refine ⟨pushed ++ u :: c, d, by rw [hcd]; simp, fun hin => ?_,
            List.mem_append_right _ List.mem_cons_self⟩
          rcases List.mem_append.mp hin with hin | hin
          · exact hmet hm hin
          · rcases List.mem_cons.mp hin with hin | hin
            · exact hwx hin
            · exact hc hin
    · rcases h.backward u w huw with heq | hbefore | ⟨hw, hpos⟩
      · exact .inl heq
      · exact .inr (.inl hbefore)
      · exact .inr (.inr ⟨hkept hw, hpos.imp_right (habove hw)⟩)
  case closed =>
    intro u w huw
    show s.marked x w ≠ none
    rcases hback.mp huw with ⟨-, -, hm⟩ | huw
    · rw [hm]
      exact Option.some_ne_none _
    · obtain ⟨e, he⟩ := Option.ne_none_iff_exists'.mp (h.closed u w huw)
      rw [hkept he]
      exact Option.some_ne_none _

/-- A vertex that comes to the top for the second time. -/
theorem Invariant.finish (h : Invariant succs v s) {x : V} {rest : List V}
    (hstack : s.stack = x :: rest) (hprogress : s.exploration x = some .inProgress) :
    Invariant succs v
      { stack := rest
        exploration := Function.update s.exploration x (some .done)
        backEdges := s.backEdges
        order := x :: s.order } := by
  -- how the marks change: at `x` only, from in progress to done
  have hself : Function.update s.exploration x (some .done) x = some .done :=
    Function.update_self _ _ _
  have hother : ∀ {u}, u ≠ x → Function.update s.exploration x (some .done) u = s.exploration u :=
    fun hu => Function.update_of_ne hu _ _
  have hinner : ∀ {u}, Function.update s.exploration x (some .done) u = some .inProgress →
      u ≠ x ∧ s.exploration u = some .inProgress := by
    intro u hu
    by_cases hux : u = x
    · rw [hux, hself] at hu
      cases hu
    · exact ⟨hux, (hother hux) ▸ hu⟩
  -- `x` was not finished before
  have hfresh : x ∉ s.order := by
    intro hx
    rw [(h.finished x).mp hx] at hprogress
    cases hprogress
  constructor
  case marker =>
    intro u hu
    obtain ⟨hux, hu⟩ := hinner hu
    have hmem := h.marker u hu
    rw [hstack] at hmem
    exact (List.mem_cons.mp hmem).resolve_left hux
  case finished =>
    intro u
    by_cases hux : u = x
    · rw [hux]
      exact ⟨fun _ => hself, fun _ => List.mem_cons_self⟩
    · show u ∈ x :: s.order ↔ Function.update s.exploration x (some .done) u = some .done
      rw [hother hux, ← h.finished u, List.mem_cons]
      exact or_iff_right hux
  case nodup => exact List.nodup_cons.mpr ⟨hfresh, h.nodup⟩
  case entered =>
    have hentered := h.entered
    rw [hstack] at hentered
    rcases hentered with hmem | hmem
    · -- the first vertex finishes, or it lies further down
      rcases List.mem_cons.mp hmem with rfl | hmem
      · exact .inr List.mem_cons_self
      · exact .inl hmem
    · exact .inr (List.mem_cons_of_mem x hmem)
  case bottom =>
    intro a w heq
    exact h.bottom (x :: a) w (by rw [hstack]; exact congrArg (x :: ·) heq)
  case parented =>
    intro a w b heq hb
    obtain ⟨u, hu, hw, hub, hua, huw⟩ := h.parented (x :: a) w b
      (by rw [hstack]; exact congrArg (x :: ·) heq) hb
    -- the parent is not `x`, which is above it
    have hux : u ≠ x := by
      rintro rfl
      exact hua List.mem_cons_self
    exact ⟨u, (hother hux).trans hu, hw, hub, fun hmem => hua (List.mem_cons_of_mem x hmem), huw⟩
  case reached =>
    intro w hw hne
    rcases List.mem_cons.mp hw with rfl | hw
    · -- the vertex that finishes was pushed for one in progress further down
      have hrest : rest ≠ [] := by
        rintro rfl
        exact hne (h.bottom [] w hstack)
      obtain ⟨u, hu, hsucc, -, -, huw⟩ := h.parented [] w rest hstack hrest
      exact ⟨u, hsucc, .inl ((hother huw).trans hu)⟩
    · obtain ⟨u, hsucc, hpos⟩ := h.reached w hw hne
      refine ⟨u, hsucc, ?_⟩
      rcases hpos with hu | hbefore
      · by_cases hux : u = x
        · exact .inr (hux ▸ Before.head hw)
        · exact .inl ((hother hux).trans hu)
      · exact .inr hbefore.cons
  case inner =>
    intro u hu w hw
    obtain ⟨hux, hu⟩ := hinner hu
    rcases h.inner u hu w hw with hb | hd | ha
    · exact .inl hb
    · exact .inr (.inl (List.mem_cons_of_mem x hd))
    · rw [hstack] at ha
      rcases ha.popped hux with rfl | ha
      · exact .inr (.inl List.mem_cons_self)
      · exact .inr (.inr ha)
  case outer =>
    intro u hu w hw
    rcases List.mem_cons.mp hu with rfl | hu
    · -- the vertex that finishes: its edges were inner ones, and nothing is above the top
      rcases h.inner u hprogress w hw with hb | hd | ha
      · exact .inl hb
      · exact .inr (Before.head hd)
      · rw [hstack] at ha
        exact absurd ha Above.not_top
    · exact (h.outer u hu w hw).imp_right Before.cons
  case backward =>
    intro u w huw
    rcases h.backward u w huw with heq | hbefore | ⟨hw, hpos⟩
    · exact .inl heq
    · exact .inr (.inl hbefore.cons)
    · by_cases hwx : w = x
      · -- the head finishes, after everything that was above it
        rw [hwx] at hpos ⊢
        rcases hpos with hu | ha
        · exact .inr (.inl (Before.head hu))
        · rw [hstack] at ha
          exact absurd ha Above.not_top
      · refine .inr (.inr ⟨(hother hwx).trans hw, ?_⟩)
        rcases hpos with hu | ha
        · exact .inl (List.mem_cons_of_mem x hu)
        · rw [hstack] at ha
          -- the tail that was popped is `x`, which is finished now
          rcases ha.popped hwx with rfl | ha
          · exact .inl List.mem_cons_self
          · exact .inr ha
  case closed =>
    intro u w huw
    by_cases hwx : w = x
    · rw [hwx]
      show Function.update s.exploration x (some .done) x ≠ none
      rw [hself]
      exact Option.some_ne_none _
    · show Function.update s.exploration x (some .done) w ≠ none
      rw [hother hwx]
      exact h.closed u w huw

/-- One case for each kind of step. -/
theorem Invariant.step (h : Invariant succs v s) : Invariant succs v (s.step succs) := by
  by_cases hempty : s.stack = []
  · have hs : s.step succs = s := by
      unfold Search.step
      rw [hempty]
    rwa [hs]
  · cases Search.step_stepped succs hempty with
    | explored x rest hstack hnew hs => exact hs ▸ h.explored hstack hnew
    | skipped x rest hstack hdone hs => exact hs ▸ h.skipped hstack hdone
    | finished x rest hstack hprogress hs => exact hs ▸ h.finish hstack hprogress

/-- **Runs.** By induction on the fuel, with one of the three cases at each turn. -/
theorem Invariant.run (h : Invariant succs v s) (fuel : Nat) :
    Invariant succs v (s.run succs fuel) := by
  induction fuel generalizing s with
  | zero => exact h
  | succ fuel ih => exact ih h.step

end

end Step

/-! ## The order -/

/-- What is known of the order and of the back edges when the search has ended. -/
structure Traversal (v : V) (order : List V) (backEdges : List (V × V)) : Prop where
  nodup : order.Nodup
  start_mem : v ∈ order
  closed : ∀ u ∈ order, ∀ w ∈ succs u, w ∈ order
  /-- The head of a back edge stands not after its tail. -/
  forward_iff : ∀ u ∈ order, ∀ w ∈ succs u, (u, w) ∈ backEdges ↔ ¬ Before order u w
  reached : ∀ w ∈ order, w ≠ v → ∃ u, w ∈ succs u ∧ Before order u w

namespace Before

variable {order : List V} {u w : V}

/-- No two vertices stand before each other. -/
theorem asymm [DecidableEq V] (hnodup : order.Nodup) (h : Before order u w) :
    ¬ Before order w u := by
  intro h'
  have hlt := h.idxOf_lt hnodup
  have hlt' := h'.idxOf_lt hnodup
  omega

theorem irrefl [DecidableEq V] (hnodup : order.Nodup) : ¬ Before order u u := fun h =>
  h.asymm hnodup h

end Before

/-- **The traversal.** -/
theorem traversal_search [DecidableEq V] {vertices : List V}
    (hclosed : ∀ v ∈ vertices, ∀ w ∈ succs v, w ∈ vertices) {v : V} (hv : v ∈ vertices) :
    Traversal succs v (search succs vertices v).order (search succs vertices v).backEdges := by
  have h : Invariant succs v (search succs vertices v) := invariant_start.run _
  have hstack := stack_search hclosed hv
  generalize search succs vertices v = s at h hstack
  -- nothing is in progress, so all edges of all vertices that were met are those of finished ones
  have hidle : ∀ {u}, s.exploration u ≠ some .inProgress := by
    intro u hu
    have hmem := h.marker u hu
    rw [hstack] at hmem
    cases hmem
  constructor
  case nodup => exact h.nodup
  case start_mem =>
    have hentered := h.entered
    rw [hstack] at hentered
    exact hentered.resolve_left List.not_mem_nil
  case closed =>
    intro u hu w hw
    rcases h.outer u hu w hw with hb | hbefore
    · -- the head of a back edge was met, and what was met is done
      obtain ⟨e, he⟩ := Option.ne_none_iff_exists'.mp (h.closed u w hb)
      cases e with
      | inProgress => exact absurd he hidle
      | done => exact (h.finished w).mpr he
    · exact hbefore.right_mem
  case forward_iff =>
    intro u hu w hw
    constructor
    · intro hb
      -- a back edge goes to a vertex that does not come later
      rcases h.backward u w hb with rfl | hbefore | ⟨hw', -⟩
      · exact Before.irrefl h.nodup
      · exact hbefore.asymm h.nodup
      · exact absurd hw' hidle
    · exact fun hnot => (h.outer u hu w hw).resolve_right hnot
  case reached =>
    intro w hw hne
    obtain ⟨u, hsucc, hpos⟩ := h.reached w hw hne
    exact ⟨u, hsucc, hpos.resolve_left hidle⟩

end DepthFirst
