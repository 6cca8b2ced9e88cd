import NexusMove.Lib.Dataflow
import NexusMove.Verifier.ControlFlowGraph

/-!
# Abstract interpretation

`absint.rs`: an analysis of a function body goes through its blocks in the order of traversal,
executes each from the state before it, and joins what comes out into the states before its
successors. What it accepts it has checked everywhere: there is a state before every
instruction that control may come to, the instruction executes from it, and what comes out
is below the states before all instructions that may follow.

* `TransferFunctions`, `executeBlock`, `analyzeFunction` — the code.
* `StateBefore` — a state before an instruction.
* `stateBefore_step` — an instruction leads from one to the next.
* `annotated_of_analyze` — an accepted function has one before every instruction.
-/

namespace NexusMove

open DepthFirst (Before)

/-- An analysis of instructions. A join tells whether it has changed its left side. -/
structure TransferFunctions (State Error : Type) where
  execute : State → Bytecode → Nat → Except Error State
  join : State → State → Except Error (State × Bool)

namespace TransferFunctions

variable {State Error : Type} (T : TransferFunctions State Error) (code : List Bytecode)

/-- The instruction at an offset of a block; there is one. -/
def executeAt (state : State) (offset : Nat) : Except Error State :=
  T.execute state (code.getD offset .nop) offset

def executeBlock (cfg : VMControlFlowGraph) (id : BlockId) (pre : State) : Except Error State :=
  (cfg.instrIndexes id).foldlM (T.executeAt code) pre

/-- The blocks are vertices in the order of traversal. -/
def analysis : Dataflow.Analysis BlockId State Error :=
  let cfg := VMControlFlowGraph.new code
  { succs := cfg.successors
    order := cfg.traversalOrder
    isBackEdge := cfg.isBackEdge
    execute := T.executeBlock code cfg
    join := T.join }

/-- `analyze_function`. A state changes at most `height` times, which bounds the loop. -/
def analyzeFunction (height : Nat) (initial : State) : Except Error Unit := do
  let _ ← (T.analysis code).run (Dataflow.steps (T.analysis code) height)
    (Dataflow.Analysis.start entryBlockId initial)
  return ()

end TransferFunctions

/-! ## The blocks as vertices -/

section Sound

variable {State Error : Type} {T : TransferFunctions State Error} {code : List Bytecode}

theorem analysis_traversed (hbranches : BranchesInside code) (hcode : code ≠ []) :
    Dataflow.Traversed (T.analysis code) entryBlockId :=
  let h := traversal_new hbranches hcode
  { nodup := h.nodup
    start_mem := h.start_mem
    closed := h.closed
    back_iff := fun u hu w hw => List.contains_iff_mem.trans (h.forward_iff u hu w hw)
    reached := h.reached }

/-- What the states of an analysis have to satisfy: the join is above both of its sides, and
tells truly whether it has changed anything. -/
structure AbstractDomain (T : TransferFunctions State Error) (Valid : State → Prop)
    (le : State → State → Prop) : Prop where
  refl : ∀ s, le s s
  trans : ∀ s t u, le s t → le t u → le s u
  execute : ∀ s instr offset t, Valid s → T.execute s instr offset = .ok t → Valid t
  join : ∀ s t u changed, Valid s → Valid t → T.join s t = .ok (u, changed) →
    Valid u ∧ le s u ∧ le t u ∧ (changed = false → u = s)

variable {Valid : State → Prop} {le : State → State → Prop}

theorem foldlM_valid (hdomain : AbstractDomain T Valid le) {offsets : List Nat} {s t : State}
    (hs : Valid s) (h : offsets.foldlM (T.executeAt code) s = .ok t) : Valid t := by
  induction offsets generalizing s with
  | nil => exact Except.ok.inj h ▸ hs
  | cons offset offsets ih =>
    rw [List.foldlM_cons] at h
    obtain ⟨u, hu, h⟩ := Except.bind_eq_ok.mp h
    exact ih (hdomain.execute s _ offset u hs hu) h

theorem AbstractDomain.toDomain (hdomain : AbstractDomain T Valid le) :
    Dataflow.Domain (T.analysis code) Valid le where
  refl := hdomain.refl
  trans := hdomain.trans
  execute _ _ _ hs h := foldlM_valid hdomain hs h
  join := hdomain.join

/-! ## States before instructions -/

/-- States before the blocks give states before the instructions. -/
def StateBefore (T : TransferFunctions State Error) (code : List Bytecode)
    (pre : BlockId → Option State) (pc : Nat) (s : State) : Prop :=
  ∃ id b p, InBlock code pc id b ∧ id ∈ (VMControlFlowGraph.new code).traversalOrder
    ∧ pre id = some p ∧ (List.range' id (pc - id)).foldlM (T.executeAt code) p = .ok s

/-- **One instruction.** It executes from the state before it, and what comes out is below the
states before the instructions that may follow. -/
theorem stateBefore_step (hbranches : BranchesInside code) {initial : State}
    {pre : BlockId → Option State}
    (hrefl : ∀ s, le s s)
    (hsolution : Dataflow.Solution (T.analysis code) Valid le entryBlockId initial pre) {pc : Nat}
    {s : State} (h : StateBefore T code pre pc s) :
    ∃ t, T.executeAt code s pc = .ok t
      ∧ ∀ next ∈ Bytecode.getSuccessors pc code, ∃ u, StateBefore T code pre next u ∧ le t u := by
  obtain ⟨id, b, p, hb, hid, hp, hsofar⟩ := h
  obtain ⟨p', post, hp', hexecute, hsuccs⟩ := hsolution.settled id hid
  obtain rfl : p = p' := Option.some.inj (hp.symm.trans hp')
  obtain ⟨t, ht, hinner, hexit⟩ := hb.foldlM_step hexecute hsofar
  refine ⟨t, ht, fun next hnext => ?_⟩
  by_cases hpc : pc = b.exit
  · obtain rfl := hexit hpc
    have hsucc : next ∈ b.successors := by rwa [hb.successors, ← hpc]
    obtain ⟨b', hb'⟩ := successor_inBlock hbranches hb hsucc
    have hsucc' : next ∈ (VMControlFlowGraph.new code).successors id := by
      show next ∈ VMControlFlowGraph.successorsIn (VMControlFlowGraph.blocksOf code) id
      rwa [hb.successorsIn]
    obtain ⟨q, hq, htq⟩ := hsuccs next hsucc'
    have hcode : code ≠ [] := List.length_pos_iff.mp (by have hlt := hb.isBlock.lt; omega)
    have htraversed := (traversal_new hbranches hcode).closed id hid next hsucc'
    refine ⟨q, ⟨next, b', q, hb', htraversed, hq, ?_⟩, htq⟩
    rw [Nat.sub_self]
    rfl
  · rw [hb.getSuccessors_inner hpc] at hnext
    obtain rfl := List.mem_singleton.mp hnext
    have hle := hb.le
    have hge := hb.ge
    exact ⟨t, ⟨id, b, p, ⟨hb.lookup, hb.isBlock, hb.successors, by omega, by omega⟩, hid, hp,
      hinner hpc⟩, hrefl t⟩

theorem StateBefore.valid (hdomain : AbstractDomain T Valid le) {initial : State}
    {pre : BlockId → Option State}
    (hsolution : Dataflow.Solution (T.analysis code) Valid le entryBlockId initial pre) {pc : Nat}
    {s : State} (h : StateBefore T code pre pc s) : Valid s := by
  obtain ⟨id, b, p, -, -, hp, hsofar⟩ := h
  exact foldlM_valid hdomain (hsolution.valid id p hp) hsofar

/-- What an accepted function is annotated with. -/
structure Annotated (T : TransferFunctions State Error) (code : List Bytecode)
    (Valid : State → Prop) (le : State → State → Prop) (initial : State)
    (before : Nat → State → Prop) : Prop where
  start : ∃ s, before entryBlockId s ∧ le initial s
  valid : ∀ pc s, before pc s → Valid s
  step : ∀ pc s, before pc s → ∃ t, T.executeAt code s pc = .ok t
    ∧ ∀ next ∈ Bytecode.getSuccessors pc code, ∃ u, before next u ∧ le t u

/-- **An accepted function is annotated.** The analysis comes to an end, for its states change only
so often, and leaves states that hold together. -/
theorem annotated_of_analyze (hdomain : AbstractDomain T Valid le) {rank : State → Nat}
    {height : Nat} (hheight : Dataflow.Height (T.analysis code) Valid rank height)
    (hbranches : BranchesInside code) (hcode : code ≠ []) {initial : State}
    (hinitial : Valid initial) (h : T.analyzeFunction code height initial = .ok ()) :
    ∃ before, Annotated T code Valid le initial before := by
  obtain ⟨s, hrun, -⟩ := Except.bind_eq_ok.mp h
  have htraversed : Dataflow.Traversed (T.analysis code) entryBlockId :=
    analysis_traversed hbranches hcode
  have hend := Dataflow.run_ends htraversed hdomain.toDomain hheight hinitial hrun
  have hsolution :=
    Dataflow.solution_of_run htraversed hdomain.toDomain hinitial hrun hend
  refine ⟨StateBefore T code s.pre, ?_, fun pc t ht => ht.valid hdomain hsolution,
    fun pc t ht => stateBefore_step hbranches hdomain.refl hsolution ht⟩
  obtain ⟨p, hp, hle⟩ := hsolution.start
  obtain ⟨b, hb⟩ := entry_inBlock hcode
  exact ⟨p, ⟨entryBlockId, b, p, hb, (traversal_new hbranches hcode).start_mem, hp, rfl⟩, hle⟩

end Sound

end NexusMove
