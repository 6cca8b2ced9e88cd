import Mathlib.Logic.Relation
import NexusMove.Lib.DepthFirst
import NexusMove.Lib.Except
import NexusMove.Verifier.Bytecode

/-!
# The control-flow graph

`control_flow_graph.rs`: the basic blocks of a function body, and the order in which an analysis
goes through them. A block begins at offset 0, at the target of a branch, or after a
branch; the order is the reverse post-order of a depth-first search from the first block,
which also finds the back edges of loops.

* `VMControlFlowGraph.new` — the code.
* `Blocks` — the blocks cut the code into pieces that are left at their ends only.
* `traversal_new` — every edge goes forward in the order or is a back edge.
-/

namespace NexusMove

/-- A block starts at its id. -/
abbrev BlockId := Nat

/-- Where a block ends and where control goes from there. -/
structure BasicBlock where
  exit : Nat
  successors : List BlockId
deriving DecidableEq

/-- The blocks by their ids, the order of traversal, and the back edges to each loop head. -/
structure VMControlFlowGraph where
  blocks : List (BlockId × BasicBlock)
  traversalOrder : List BlockId
  loopHeads : List (BlockId × BlockId)

/-- Execution begins at the first instruction. -/
def entryBlockId : BlockId := 0

namespace VMControlFlowGraph

/-! ## Blocks -/

/-- The ids that the instruction at `pc` gives rise to. -/
def recordBlockIds (code : List Bytecode) (pc : Nat) : List BlockId :=
  match code[pc]? with
  | none => []
  | some instr =>
    instr.offset.toList ++ if instr.isBranch && pc + 1 < code.length then [pc + 1] else []

/-- Where blocks begin: the entry, the targets of branches, and what comes after a branch. -/
def blockIds (code : List Bytecode) : List BlockId :=
  entryBlockId :: (List.range code.length).flatMap (recordBlockIds code)

/-- The code ends or another block begins. -/
def isEndOfBlock (pc : Nat) (code : List Bytecode) (ids : List BlockId) : Bool :=
  pc + 1 == code.length || ids.contains (pc + 1)

/-- The loop that creates the blocks, at the offset `pc` of a block that begins at `entry`. -/
def createBlocks (code : List Bytecode) (ids : List BlockId) :
    Nat → Nat → Nat → List (BlockId × BasicBlock)
  | 0, _, _ => []
  | left + 1, pc, entry =>
    if isEndOfBlock pc code ids then
      (entry, ⟨pc, Bytecode.getSuccessors pc code⟩) :: createBlocks code ids left (pc + 1) (pc + 1)
    else createBlocks code ids left (pc + 1) entry

def blocksOf (code : List Bytecode) : List (BlockId × BasicBlock) :=
  createBlocks code (blockIds code) code.length 0 0

def lookup (blocks : List (BlockId × BasicBlock)) (id : BlockId) : Option BasicBlock :=
  (blocks.find? fun b => b.1 = id).map Prod.snd

/-- The successors of a block; the index of the source panics where there is no block. -/
def successorsIn (blocks : List (BlockId × BasicBlock)) (id : BlockId) : List BlockId :=
  ((lookup blocks id).map BasicBlock.successors).getD []

/-! ## The graph -/

/-- `VMControlFlowGraph::new`: the blocks, and one traversal that finds order and back edges. -/
def new (code : List Bytecode) : VMControlFlowGraph :=
  let blocks := blocksOf code
  let search := DepthFirst.search (successorsIn blocks) (blocks.map Prod.fst) entryBlockId
  { blocks
    traversalOrder := search.order
    loopHeads := search.backEdges }

variable (cfg : VMControlFlowGraph)

/-- A block is named by where it begins. -/
def blockStart (id : BlockId) : Nat := id

def blockEnd (id : BlockId) : Nat := ((lookup cfg.blocks id).map BasicBlock.exit).getD id

def successors (id : BlockId) : List BlockId := successorsIn cfg.blocks id

/-- `instr_indexes`: the offsets of a block. -/
def instrIndexes (id : BlockId) : List Nat :=
  List.range' (blockStart id) (cfg.blockEnd id + 1 - blockStart id)

def isBackEdge (cur next : BlockId) : Bool := cfg.loopHeads.contains (cur, next)

def isLoopHead (id : BlockId) : Bool := cfg.loopHeads.any fun e => e.2 = id

end VMControlFlowGraph

/-! ## What the blocks are -/

open VMControlFlowGraph

/-- The branches of the code stay inside it, as the bounds checker sees to. -/
def BranchesInside (code : List Bytecode) : Prop :=
  ∀ instr ∈ code, ∀ offset ∈ instr.offset, offset < code.length

instance (code : List Bytecode) : Decidable (BranchesInside code) :=
  inferInstanceAs (Decidable (∀ instr ∈ code, ∀ offset ∈ instr.offset, offset < code.length))

/-- A block from `entry` to `exit`. -/
structure IsBlock (code : List Bytecode) (ids : List BlockId) (entry exit : Nat) : Prop where
  le : entry ≤ exit
  lt : exit < code.length
  last : isEndOfBlock exit code ids = true
  inner : ∀ pc, entry ≤ pc → pc < exit → isEndOfBlock pc code ids = false

section Blocks

variable {code : List Bytecode} {ids : List BlockId}

/-- Every block that is created is one, and is created once. -/
theorem createBlocks_isBlock {left pc entry : Nat} (hlength : pc + left = code.length)
    (hentry : entry ≤ pc) (hinner : ∀ i, entry ≤ i → i < pc → isEndOfBlock i code ids = false)
    {id : Nat} {b : BasicBlock} (h : (id, b) ∈ createBlocks code ids left pc entry) :
    IsBlock code ids id b.exit ∧ b.successors = Bytecode.getSuccessors b.exit code
      ∧ (id = entry ∨ pc < id) := by
  induction left generalizing pc entry with
  | zero => cases h
  | succ left ih =>
    unfold createBlocks at h
    split at h
    · -- the block ends here, and the next one begins behind it
      rename_i hend
      rcases List.mem_cons.mp h with heq | h
      · obtain ⟨rfl, rfl⟩ := Prod.mk.inj heq
        refine ⟨⟨hentry, ?_, hend, hinner⟩, rfl, .inl rfl⟩
        show pc < code.length
        omega
      · obtain ⟨hblock, hsucc, hid⟩ := ih (by omega) (Nat.le_refl _) (by omega) h
        exact ⟨hblock, hsucc, by omega⟩
    · -- the block goes on, and the offset is one of its inner ones
      rename_i hend
      have hnot : isEndOfBlock pc code ids = false := Bool.eq_false_iff.mpr hend
      have hinner' : ∀ i, entry ≤ i → i < pc + 1 → isEndOfBlock i code ids = false := by
        intro i hi hlt
        by_cases heq : i = pc
        · exact heq ▸ hnot
        · exact hinner i hi (by omega)
      obtain ⟨hblock, hsucc, hid⟩ := ih (by omega) (by omega) hinner' h
      exact ⟨hblock, hsucc, by omega⟩

/-- Every offset lies in a block that is created. -/
theorem exists_block_of_lt (left pc entry : Nat) (hlength : pc + left = code.length)
    (hentry : entry ≤ pc) {i : Nat} (hi : entry ≤ i) (hlt : i < code.length) (hleft : 0 < left) :
    ∃ id b, (id, b) ∈ createBlocks code ids left pc entry ∧ id ≤ i ∧ i ≤ b.exit := by
  induction left generalizing pc entry with
  | zero => omega
  | succ left ih =>
    unfold createBlocks
    split
    · -- the block that ends here, or the rest
      by_cases hpc : i ≤ pc
      · exact ⟨entry, _, List.mem_cons_self, hi, hpc⟩
      · obtain ⟨id, b, hmem, hle, hge⟩ := ih (pc + 1) (pc + 1) (by omega)
          (Nat.le_refl _) (by omega) (by omega)
        exact ⟨id, b, List.mem_cons_of_mem _ hmem, hle, hge⟩
    · rename_i hend
      -- the last instruction ends a block
      have hmore : 0 < left := by
        rcases Nat.eq_zero_or_pos left with rfl | hpos
        · exact absurd (by simp [isEndOfBlock]; omega) hend
        · exact hpos
      exact ih (pc + 1) entry (by omega) (by omega) hi hmore

/-- A block is known by where it begins. -/
theorem IsBlock.exit_eq {entry e e' : Nat} (h : IsBlock code ids entry e)
    (h' : IsBlock code ids entry e') : e = e' := by
  rcases Nat.lt_trichotomy e e' with hlt | heq | hgt
  · have hinner := h'.inner e h.le hlt
    rw [h.last] at hinner
    cases hinner
  · exact heq
  · have hinner := h.inner e' h'.le hgt
    rw [h'.last] at hinner
    cases hinner

/-- No id lies inside a block but at its beginning. -/
theorem IsBlock.eq_of_mem_ids {entry exit i : Nat} (h : IsBlock code ids entry exit) (hi : i ∈ ids)
    (hle : entry ≤ i) (hge : i ≤ exit) : i = entry := by
  by_contra hne
  have hinner := h.inner (i - 1) (by omega) (by omega)
  have hlast : isEndOfBlock (i - 1) code ids = true := by
    rw [isEndOfBlock, Nat.sub_add_cancel (by omega), List.contains_iff_mem.mpr hi, Bool.or_true]
  rw [hlast] at hinner
  cases hinner

/-- What is listed is a block. -/
theorem mem_blocksOf {id : Nat} {b : BasicBlock} (h : (id, b) ∈ blocksOf code) :
    IsBlock code (blockIds code) id b.exit ∧ b.successors = Bytecode.getSuccessors b.exit code := by
  obtain ⟨hblock, hsucc, -⟩ := createBlocks_isBlock (by omega) (Nat.le_refl _) (by omega) h
  exact ⟨hblock, hsucc⟩

theorem mem_of_lookup {blocks : List (BlockId × BasicBlock)} {id : Nat} {b : BasicBlock}
    (h : lookup blocks id = some b) : (id, b) ∈ blocks := by
  obtain ⟨⟨id', b'⟩, hfind, rfl⟩ := Option.map_eq_some_iff.mp h
  have hid : id' = id := by simpa using List.find?_some hfind
  exact hid ▸ List.mem_of_find?_eq_some hfind

/-- What is listed is found, since no id comes twice with another block. -/
theorem lookup_blocksOf {id : Nat} {b : BasicBlock} (h : (id, b) ∈ blocksOf code) :
    lookup (blocksOf code) id = some b := by
  have hsome : ((blocksOf code).find? fun b => b.1 = id).isSome :=
    List.find?_isSome.mpr ⟨(id, b), h, decide_eq_true rfl⟩
  obtain ⟨b', hb'⟩ := Option.isSome_iff_exists.mp
    (show (lookup (blocksOf code) id).isSome by rw [lookup, Option.isSome_map]; exact hsome)
  obtain ⟨hblock, hsucc⟩ := mem_blocksOf h
  obtain ⟨hblock', hsucc'⟩ := mem_blocksOf (mem_of_lookup hb')
  -- both blocks begin at the id and end where the next one begins
  have hexit := hblock.exit_eq hblock'
  have hb : b = b' := by
    cases b
    cases b'
    simp only at hexit hsucc hsucc'
    rw [hexit, hsucc, hsucc', hexit]
  rw [hb', hb]

/-- The block that the offset `i` lies in. -/
structure InBlock (code : List Bytecode) (i : Nat) (id : Nat) (b : BasicBlock) : Prop where
  lookup : lookup (blocksOf code) id = some b
  isBlock : IsBlock code (blockIds code) id b.exit
  successors : b.successors = Bytecode.getSuccessors b.exit code
  le : id ≤ i
  ge : i ≤ b.exit

/-- Every offset is in some block. -/
theorem exists_inBlock {i : Nat} (h : i < code.length) : ∃ id b, InBlock code i id b := by
  have hblocks : ∃ id b, (id, b) ∈ blocksOf code ∧ id ≤ i ∧ i ≤ b.exit :=
    exists_block_of_lt code.length 0 0 (by omega) (Nat.le_refl _) (Nat.zero_le i) h (by omega)
  obtain ⟨id, b, hmem, hle, hge⟩ := hblocks
  obtain ⟨hblock, hsucc⟩ := mem_blocksOf hmem
  exact ⟨id, b, lookup_blocksOf hmem, hblock, hsucc, hle, hge⟩

/-- What an instruction records is the start of a block. -/
theorem mem_blockIds_of_record {pc i : Nat} (hpc : pc < code.length)
    (h : i ∈ recordBlockIds code pc) : i ∈ blockIds code :=
  List.mem_cons_of_mem _ (List.mem_flatMap.mpr ⟨pc, List.mem_range.mpr hpc, h⟩)

/-- A branch ends its block. -/
theorem InBlock.eq_exit {pc id : Nat} {b : BasicBlock} (h : InBlock code pc id b)
    {instr : Bytecode} (hinstr : code[pc]? = some instr) (hbranch : instr.isBranch = true) :
    pc = b.exit := by
  by_contra hne
  have hge := h.ge
  have hlength := h.isBlock.lt
  have hend := h.isBlock.inner pc h.le (by omega)
  -- the source records the offset behind a branch
  have hrecord : pc + 1 ∈ recordBlockIds code pc := by
    rw [recordBlockIds, hinstr]
    refine List.mem_append_right _ ?_
    rw [if_pos (by rw [hbranch, Bool.true_and]; exact decide_eq_true (by omega))]
    exact List.mem_singleton_self _
  have hids := mem_blockIds_of_record (by omega) hrecord
  rw [isEndOfBlock, List.contains_iff_mem.mpr hids, Bool.or_true] at hend
  cases hend

/-- **Inside a block** there is no way but to the next instruction. -/
theorem InBlock.getSuccessors_inner {i id : Nat} {b : BasicBlock} (h : InBlock code i id b)
    (hne : i ≠ b.exit) : Bytecode.getSuccessors i code = [i + 1] := by
  have hlt : i < b.exit := Nat.lt_of_le_of_ne h.ge hne
  have hlength := h.isBlock.lt
  obtain ⟨instr, hinstr⟩ : ∃ instr, code[i]? = some instr :=
    ⟨_, List.getElem?_eq_getElem (by omega)⟩
  -- an instruction that is no branch has no offset and does not stop
  have hbranch : instr.isBranch = false := by
    by_contra htrue
    exact hne (h.eq_exit hinstr (Bool.not_eq_false _ ▸ htrue))
  have hoffset : instr.offset = none := by
    cases instr <;> first | rfl | cases hbranch
  have huncond : instr.isUnconditionalBranch = false :=
    (Bool.or_eq_false_iff.mp hbranch).2
  unfold Bytecode.getSuccessors
  rw [hinstr]
  simp only [hoffset, huncond, Option.toList_none]
  rw [if_neg (by omega)]
  rfl

/-- Where a block goes on another begins. -/
theorem successor_inBlock (hbranches : BranchesInside code) {i id : Nat} {b : BasicBlock}
    (h : InBlock code i id b) {next : Nat} (hnext : next ∈ b.successors) :
    ∃ b', InBlock code next next b' := by
  rw [h.successors] at hnext
  obtain ⟨instr, hinstr⟩ : ∃ instr, code[b.exit]? = some instr :=
    ⟨_, List.getElem?_eq_getElem h.isBlock.lt⟩
  have hmem : next ∈ blockIds code ∧ next < code.length := by
    -- a target of a branch, or the instruction behind
    rcases (Bytecode.mem_getSuccessors hinstr).mp hnext with hoffset | ⟨rfl, hlt, -⟩
    · refine ⟨mem_blockIds_of_record h.isBlock.lt ?_,
        hbranches instr (List.mem_of_getElem? hinstr) next hoffset⟩
      rw [recordBlockIds, hinstr]
      exact List.mem_append_left _ (Option.mem_toList.mpr hoffset)
    · refine ⟨?_, hlt⟩
      -- the block ended there because another one begins
      have hlast := h.isBlock.last
      have hne : (b.exit + 1 == code.length) = false := beq_false_of_ne (by omega)
      rw [isEndOfBlock, hne, Bool.false_or] at hlast
      exact List.contains_iff_mem.mp hlast
  obtain ⟨id', b', h'⟩ := exists_inBlock hmem.2
  have hid := h'.isBlock.eq_of_mem_ids hmem.1 h'.le h'.ge
  exact ⟨b', by rw [← hid] at h'; exact h'⟩

end Blocks

/-! ## The traversal -/

section Traversal

variable {code : List Bytecode}

/-- The graph has the successors of the block. -/
theorem InBlock.successorsIn {i id : Nat} {b : BasicBlock} (h : InBlock code i id b) :
    successorsIn (blocksOf code) id = b.successors := by
  rw [VMControlFlowGraph.successorsIn, h.lookup]
  rfl

/-- The entry is in a block that begins there. -/
theorem entry_inBlock (hcode : code ≠ []) : ∃ b, InBlock code entryBlockId entryBlockId b := by
  obtain ⟨id, b, h⟩ := exists_inBlock (List.length_pos_iff.mpr hcode)
  obtain rfl : id = 0 := Nat.le_zero.mp h.le
  exact ⟨b, h⟩

theorem InBlock.mem_ids {i id : Nat} {b : BasicBlock} (h : InBlock code i id b) :
    id ∈ (blocksOf code).map Prod.fst :=
  List.mem_map.mpr ⟨(id, b), mem_of_lookup h.lookup, rfl⟩

/-- A block is the one of its first offset. -/
theorem inBlock_of_mem_ids {id : Nat} (h : id ∈ (blocksOf code).map Prod.fst) :
    ∃ b, InBlock code id id b := by
  obtain ⟨⟨id', b⟩, hmem, rfl⟩ := List.mem_map.mp h
  obtain ⟨hblock, hsucc⟩ := mem_blocksOf hmem
  exact ⟨b, lookup_blocksOf hmem, hblock, hsucc, Nat.le_refl _, hblock.le⟩

/-- **The traversal.** -/
theorem traversal_new (hbranches : BranchesInside code) (hcode : code ≠ []) :
    DepthFirst.Traversal (VMControlFlowGraph.new code).successors entryBlockId
      (VMControlFlowGraph.new code).traversalOrder (VMControlFlowGraph.new code).loopHeads := by
  apply DepthFirst.traversal_search
  · intro id hid next hnext
    obtain ⟨b, hb⟩ := inBlock_of_mem_ids hid
    have hnext : next ∈ successorsIn (blocksOf code) id := hnext
    rw [hb.successorsIn] at hnext
    obtain ⟨b', hb'⟩ := successor_inBlock hbranches hb hnext
    exact hb'.mem_ids
  · obtain ⟨b, hb⟩ := entry_inBlock hcode
    exact hb.mem_ids

/-- The graph has the end of the block. -/
theorem InBlock.blockEnd {i id : Nat} {b : BasicBlock} (h : InBlock code i id b) :
    (VMControlFlowGraph.new code).blockEnd id = b.exit := by
  show ((VMControlFlowGraph.lookup (blocksOf code) id).map BasicBlock.exit).getD id = b.exit
  rw [h.lookup]
  rfl

/-- What is done along a block: so far, at an offset, and to its end. -/
theorem InBlock.foldlM_step {State Error : Type} {f : State → Nat → Except Error State}
    {pc id : Nat} {b : BasicBlock} (h : InBlock code pc id b) {p s post : State}
    (hblock : ((VMControlFlowGraph.new code).instrIndexes id).foldlM f p = .ok post)
    (hsofar : (List.range' id (pc - id)).foldlM f p = .ok s) :
    ∃ t, f s pc = .ok t
      ∧ (pc ≠ b.exit → (List.range' id (pc + 1 - id)).foldlM f p = .ok t)
      ∧ (pc = b.exit → t = post) := by
  have hle := h.le
  have hge := h.ge
  have hindexes : (VMControlFlowGraph.new code).instrIndexes id
      = List.range' id (pc - id) ++ pc :: List.range' (pc + 1) (b.exit - pc) := by
    have hsplit : List.range' id (pc - id) ++ List.range' (id + 1 * (pc - id)) (b.exit + 1 - pc)
        = List.range' id ((b.exit + 1 - pc) + (pc - id)) := by
      rw [List.range'_append, Nat.add_comm]
    -- the offsets of the block, split at the one in question
    have hend : b.exit + 1 - pc = (b.exit - pc) + 1 := by omega
    have hpc : id + 1 * (pc - id) = pc := by omega
    have hall : (b.exit + 1 - pc) + (pc - id) = b.exit + 1 - id := by omega
    rw [hall, hpc, hend, List.range'_succ] at hsplit
    show List.range' id ((VMControlFlowGraph.new code).blockEnd id + 1 - id) = _
    rw [h.blockEnd, ← hsplit]
  rw [hindexes, List.foldlM_append, hsofar, Except.ok_bind, List.foldlM_cons] at hblock
  obtain ⟨t, ht, hrest⟩ := Except.bind_eq_ok.mp hblock
  refine ⟨t, ht, fun _ => ?_, fun hexit => ?_⟩
  · have hone : pc + 1 - id = (pc - id) + 1 := by omega
    rw [hone, List.range'_concat, List.foldlM_append, hsofar, Except.ok_bind,
      show id + 1 * (pc - id) = pc by omega]
    simp [ht]
  · rw [show b.exit - pc = 0 by omega] at hrest
    exact Except.ok.inj hrest

/-- The offsets that control may come to. -/
inductive Reachable (code : List Bytecode) : Nat → Prop where
  | entry : Reachable code entryBlockId
  | step {pc next : Nat} (hpc : Reachable code pc) (hnext : next ∈ Bytecode.getSuccessors pc code) :
    Reachable code next

/-- Control stays in the blocks of the traversal. -/
theorem Reachable.exists_inBlock (hbranches : BranchesInside code) (hcode : code ≠ []) {pc : Nat}
    (h : Reachable code pc) :
    ∃ id b, InBlock code pc id b ∧ id ∈ (VMControlFlowGraph.new code).traversalOrder := by
  have htraversal := traversal_new hbranches hcode
  induction h with
  | entry =>
    obtain ⟨b, hb⟩ := entry_inBlock hcode
    exact ⟨entryBlockId, b, hb, htraversal.start_mem⟩
  | step hpc hnext ih =>
    rename_i pc next
    obtain ⟨id, b, hb, hid⟩ := ih
    -- at the end of a block to another one, or within the block to the next instruction
    by_cases hexit : pc = b.exit
    · have hsucc : next ∈ b.successors := by rwa [hb.successors, ← hexit]
      obtain ⟨b', hb'⟩ := successor_inBlock hbranches hb hsucc
      refine ⟨next, b', hb', htraversal.closed id hid next ?_⟩
      show next ∈ successorsIn (blocksOf code) id
      rwa [hb.successorsIn]
    · rw [hb.getSuccessors_inner hexit] at hnext
      obtain rfl := List.mem_singleton.mp hnext
      have hle := hb.le
      have hge := hb.ge
      exact ⟨id, b, ⟨hb.lookup, hb.isBlock, hb.successors, by omega, by omega⟩, hid⟩

/-- An edge between blocks that control may come to, other than a back edge. -/
def ForwardEdge (code : List Bytecode) (id next : Nat) : Prop :=
  let cfg := VMControlFlowGraph.new code
  id ∈ cfg.traversalOrder ∧ next ∈ cfg.successors id ∧ cfg.isBackEdge id next = false

/-- A forward edge leads further down in the traversal. -/
theorem ForwardEdge.before (hbranches : BranchesInside code) (hcode : code ≠ []) {id next : Nat}
    (h : ForwardEdge code id next) :
    DepthFirst.Before (VMControlFlowGraph.new code).traversalOrder id next := by
  obtain ⟨hid, hnext, hforward⟩ := h
  by_contra hnot
  have hback := ((traversal_new hbranches hcode).forward_iff id hid next hnext).mpr hnot
  rw [VMControlFlowGraph.isBackEdge, List.contains_iff_mem.mpr hback] at hforward
  cases hforward

/-- **The graph.** Control leaves a block at its end only and enters another at its beginning, and
never leaves the blocks that are traversed. An edge between these is a back edge exactly if it does
not go forward in the order; all but the first block are entered by an edge that goes forward; and
there is no loop without a back edge. -/
theorem control_flow_graph_sound (hbranches : BranchesInside code) (hcode : code ≠ []) :
    let cfg := VMControlFlowGraph.new code
    (∀ pc, Reachable code pc → ∃ id ∈ cfg.traversalOrder, ∃ b, InBlock code pc id b
        ∧ (pc ≠ b.exit → Bytecode.getSuccessors pc code = [pc + 1])
        ∧ (pc = b.exit → Bytecode.getSuccessors pc code = cfg.successors id))
      ∧ (∀ id ∈ cfg.traversalOrder, ∀ next ∈ cfg.successors id, next ∈ cfg.traversalOrder
        ∧ (cfg.isBackEdge id next = true ↔ ¬ DepthFirst.Before cfg.traversalOrder id next))
      ∧ (∀ next ∈ cfg.traversalOrder, next ≠ entryBlockId →
        ∃ id, next ∈ cfg.successors id ∧ DepthFirst.Before cfg.traversalOrder id next)
      ∧ ∀ id, ¬ Relation.TransGen (ForwardEdge code) id id := by
  intro cfg
  have htraversal := traversal_new hbranches hcode
  refine ⟨?_, ?_, htraversal.reached, ?_⟩
  · intro pc hpc
    obtain ⟨id, b, hb, hid⟩ := hpc.exists_inBlock hbranches hcode
    refine ⟨id, hid, b, hb, hb.getSuccessors_inner, ?_⟩
    rintro rfl
    show _ = successorsIn (blocksOf code) id
    rw [hb.successorsIn, hb.successors]
  · intro id hid next hnext
    refine ⟨htraversal.closed id hid next hnext, ?_⟩
    rw [← htraversal.forward_iff id hid next hnext]
    exact List.contains_iff_mem
  · intro id hloop
    have hlt : ∀ next, Relation.TransGen (ForwardEdge code) id next →
        cfg.traversalOrder.idxOf id < cfg.traversalOrder.idxOf next := by
      intro next h
      induction h with
      | single hedge => exact (hedge.before hbranches hcode).idxOf_lt htraversal.nodup
      | tail _ hedge ih =>
        have hmore := (hedge.before hbranches hcode).idxOf_lt htraversal.nodup
        exact lt_trans ih hmore
    exact absurd (hlt id hloop) (lt_irrefl _)

/-- A loop: its head is tested at 0 and left for 4, its body jumps back from 3. -/
def sampleLoop : List Bytecode := [.copyLoc 0, .brFalse 4, .nop, .branch 0, .ret]

theorem control_flow_graph_sound_loop :
    (VMControlFlowGraph.new sampleLoop).traversalOrder = [0, 2, 4]
      ∧ (VMControlFlowGraph.new sampleLoop).isBackEdge 2 0 = true
      ∧ ¬ DepthFirst.Before (VMControlFlowGraph.new sampleLoop).traversalOrder 2 0
      ∧ ∀ id, ¬ Relation.TransGen (ForwardEdge sampleLoop) id id := by
  obtain ⟨-, hback, -, hloops⟩ :=
    control_flow_graph_sound (show BranchesInside sampleLoop by decide) (List.cons_ne_nil _ _)
  have hyes : (VMControlFlowGraph.new sampleLoop).isBackEdge 2 0 = true := by decide
  exact ⟨by decide, hyes, (hback 2 (by decide) 0 (by decide)).2.mp hyes, hloops⟩

end Traversal

end NexusMove
