import NexusMove.Verifier.Execution

/-!
# Verified code runs

The stack and the locals of code that is verified, in every state of every run: the stack is cut
into the parts of the frames, each as high as the verifier has found at the instruction where its
frame is or waits, and each local that the verifier takes to have a value has one.

* `Ready`, `Stacked`, `Inv` — what holds in every state.
* `step_safe` — what a step keeps, and which faults it never has.
* `verified_run_safe` — so it is in every run.
-/

namespace NexusMove

namespace Execution

variable {Val : Type}

/-! ## Arguments -/

/-- A local that has a value can be copied. -/
theorem copyLoc_eq {locals : List (Option Val)} {idx : Nat} {v : Val}
    (h : locals[idx]? = some (some v)) : copyLoc locals idx = .ok v := by
  rw [copyLoc, h]

/-- A local that has a value can be moved out, which leaves none. -/
theorem moveLoc_eq {locals : List (Option Val)} {idx : Nat} {v : Val}
    (h : locals[idx]? = some (some v)) : moveLoc locals idx = .ok (v, locals.set idx none) := by
  rw [moveLoc, swapLoc, h]
  rfl

/-- A local that has a value can be borrowed. -/
theorem borrowLoc_eq {locals : List (Option Val)} {idx : Nat} {v : Val}
    (h : locals[idx]? = some (some v)) : borrowLoc locals idx = .ok () := by
  rw [borrowLoc, h]

/-- Any local of the frame can be stored to. -/
theorem storeLoc_eq {locals : List (Option Val)} {idx : Nat} (h : idx < locals.length) (v : Val) :
    storeLoc locals idx v = .ok (locals.set idx (some v)) := by
  rw [storeLoc, swapLoc, List.getElem?_eq_getElem h]
  rfl

/-- What `storeArgs` takes, and where it puts it. -/
theorem storeArgs_eq (mask : ClosureMask) {n : Nat} {captured stack : List Val}
    {locals : List (Option Val)} (hcaptured : captured.length = mask.below n true)
    (hstack : mask.below n false ≤ stack.length) (hn : n ≤ locals.length) :
    ∃ locals', storeArgs mask n captured stack locals
        = .ok (stack.drop (mask.below n false), locals')
      ∧ locals'.length = locals.length
      ∧ (∀ i, i < n → ∃ v, locals'[i]? = some (some v))
      ∧ ∀ i, n ≤ i → locals'[i]? = locals[i]? := by
  -- from the last parameter to the first, as the loop goes
  induction n generalizing captured stack locals with
  | zero => exact ⟨locals, rfl, rfl, fun i hi => absurd hi (Nat.not_lt_zero i), fun i _ => rfl⟩
  | succ n ih =>
    rw [ClosureMask.below_succ] at hcaptured hstack
    -- the last argument is stored first, and stays
    have hlast : ∀ (v : Val) (locals' : List (Option Val)),
        (∀ i, i < n → ∃ v, locals'[i]? = some (some v)) →
        (∀ i, n ≤ i → locals'[i]? = (locals.set n (some v))[i]?) →
        (∀ i, i < n + 1 → ∃ v, locals'[i]? = some (some v))
          ∧ ∀ i, n + 1 ≤ i → locals'[i]? = locals[i]? := by
      intro v locals' hstored hrest
      refine ⟨fun i hi => ?_, fun i hi => ?_⟩
      · by_cases heq : i = n
        · refine ⟨v, ?_⟩
          rw [heq, hrest n (Nat.le_refl n), List.getElem?_set_self (by omega)]
        · exact hstored i (by omega)
      · rw [hrest i (by omega), List.getElem?_set_ne (by omega)]
    unfold storeArgs
    -- a captured argument comes from the closure, any other from the stack
    cases hmask : mask.isCaptured n with
    | true =>
      simp only [hmask, beq_self_eq_true, if_true] at hcaptured
      cases captured with
      | nil =>
        rw [List.length_nil] at hcaptured
        omega
      | cons v captured =>
        have hbelow : mask.below (n + 1) false = mask.below n false := by
          rw [ClosureMask.below_succ, hmask]
          rfl
        rw [List.length_cons] at hcaptured
        have hroom : n ≤ (locals.set n (some v)).length := by
          rw [List.length_set]
          omega
        have hargs : captured.length = mask.below n true := by omega
        have hmore : mask.below n false ≤ stack.length := by omega
        obtain ⟨locals', heq, hlength, hstored, hrest⟩ := ih hargs hmore hroom
        rw [List.length_set] at hlength
        refine ⟨locals', ?_, hlength, hlast v locals' hstored hrest⟩
        simp only [if_true]
        rw [storeLoc_eq (by omega), Except.ok_bind, heq, hbelow]
    | false =>
      have hfalse : (mask.isCaptured n == true) = false := by rw [hmask]; rfl
      have htrue : (mask.isCaptured n == false) = true := by rw [hmask]; rfl
      rw [hfalse] at hcaptured
      rw [htrue] at hstack
      simp only [if_true] at hstack
      cases stack with
      | nil =>
        rw [List.length_nil] at hstack
        omega
      | cons v stack =>
        have hbelow : mask.below (n + 1) false = mask.below n false + 1 := by
          rw [ClosureMask.below_succ, hmask]
          rfl
        rw [List.length_cons] at hstack
        have hroom : n ≤ (locals.set n (some v)).length := by
          rw [List.length_set]
          omega
        have hargs : captured.length = mask.below n true := by simpa using hcaptured
        have hmore : mask.below n false ≤ stack.length := by omega
        obtain ⟨locals', heq, hlength, hstored, hrest⟩ := ih hargs hmore hroom
        rw [List.length_set] at hlength
        refine ⟨locals', ?_, hlength, hlast v locals' hstored hrest⟩
        simp only [Bool.false_eq_true, if_false, pop, Except.ok_bind]
        rw [storeLoc_eq (by omega), Except.ok_bind, heq, hbelow, List.drop_succ_cons]

/-- A native takes the arguments that are not captured off the stack, and nothing else. -/
theorem takeArgs_eq (mask : ClosureMask) {n : Nat} {captured stack : List Val}
    (hcaptured : captured.length = mask.below n true)
    (hstack : mask.below n false ≤ stack.length) :
    takeArgs mask n captured stack = .ok (stack.drop (mask.below n false)) := by
  induction n generalizing captured stack with
  | zero => rfl
  | succ n ih =>
    rw [ClosureMask.below_succ] at hcaptured hstack ⊢
    unfold takeArgs
    cases hmask : mask.isCaptured n with
    | true =>
      rw [hmask] at hcaptured hstack
      cases captured with
      | nil =>
        simp at hcaptured
      | cons v captured =>
        simp only [if_true]
        exact ih (by simpa using hcaptured) (by simpa using hstack)
    | false =>
      rw [hmask] at hcaptured hstack
      cases stack with
      | nil =>
        simp at hstack
      | cons v stack =>
        simp only [Bool.false_eq_true, if_false, pop, Except.ok_bind]
        exact ih (by simpa using hcaptured) (by simpa using hstack)

/-! ## Pushing -/

/-- A value is on top, or there was no room for it. -/
theorem push_cases (v : Val) (stack : List Val) :
    push v stack = .ok (v :: stack) ∨ push v stack = .error .executionStackOverflow := by
  unfold push
  split
  · exact .inl rfl
  · exact .inr rfl

/-- The last value is on top, or there was no room. -/
theorem pushAll_cases (vs stack : List Val) :
    pushAll vs stack = .ok (vs.reverse ++ stack)
      ∨ pushAll vs stack = .error .executionStackOverflow := by
  induction vs generalizing stack with
  | nil => exact .inl rfl
  | cons v vs ih =>
    unfold pushAll
    rcases push_cases v stack with h | h
    · rw [h, Except.ok_bind, List.reverse_cons, List.append_assoc]
      exact ih (v :: stack)
    · rw [h]
      exact .inr rfl

/-! ## Frames -/

/-- The same function at the same instruction, with values in the same locals. What the values are
may be another matter, for references can be written through. -/
structure Frame.Alike (fr fr' : Frame Val) : Prop where
  function : fr'.function = fr.function
  pc : fr'.pc = fr.pc
  locals : fr.locals.map Option.isSome = fr'.locals.map Option.isSome

namespace Frame.Alike

variable {fr fr' fr'' : Frame Val} {frs frs' frs'' : List (Frame Val)}

theorem refl (fr : Frame Val) : fr.Alike fr := ⟨rfl, rfl, rfl⟩

theorem trans (h : fr.Alike fr') (h' : fr'.Alike fr'') : fr.Alike fr'' :=
  ⟨h'.function.trans h.function, h'.pc.trans h.pc, h.locals.trans h'.locals⟩

theorem withPc (h : fr.Alike fr') (pc : Nat) :
    Frame.Alike { fr with pc } { fr' with pc } := ⟨h.function, rfl, h.locals⟩

theorem all_refl (frs : List (Frame Val)) : List.Forall₂ Frame.Alike frs frs :=
  List.forall₂_same.mpr fun fr _ => refl fr

theorem all_trans (h : List.Forall₂ Frame.Alike frs frs')
    (h' : List.Forall₂ Frame.Alike frs' frs'') : List.Forall₂ Frame.Alike frs frs'' := by
  induction h generalizing frs'' with
  | nil => exact h'
  | cons hfr _ ih =>
    cases h' with
    | cons hfr' hrest' => exact .cons (hfr.trans hfr') (ih hrest')

end Frame.Alike

/-- A write through a reference leaves a value where one was. -/
theorem Frame.alike_written (w : Nat → Val → Val) (fr : Frame Val) : fr.Alike (fr.written w) where
  function := rfl
  pc := rfl
  locals := by
    refine List.ext_getElem (by simp [Frame.written]) fun i hi hi' => ?_
    simp [Frame.written]

/-- The same of all callers at once. -/
theorem State.alike_written (w : Nat → Nat → Val → Val) (s : State Val) :
    List.Forall₂ Frame.Alike s.callStack (s.written w).callStack := by
  refine List.forall₂_iff_get.mpr ⟨by simp [State.written], fun i hi hi' => ?_⟩
  simp only [State.written, List.get_eq_getElem, List.getElem_mapIdx]
  exact Frame.alike_written _ _

/-- The abilities of the locals of a function. -/
def LocalAbilities (f : LoadedFunction) (abilities : List AbilitySet) : Prop :=
  f.module.abilitiesList f.view.typeParameters f.localTys = .ok abilities

/-- A frame at an instruction where the verifier has found `height` values on its part of the
stack, and a state of the locals that is true of its own. -/
structure Ready (fr : Frame Val) (height : Nat) : Prop where
  code : fr.function.isNative = false
  heightAt : HeightAt .default fr.function.module fr.function.view fr.pc height
  localsAt : ∃ abilities initial before s, LocalAbilities fr.function abilities
    ∧ Annotated localsSafetyAnalysis fr.function.code (AbstractState.Valid abilities)
      AbstractState.le initial before
    ∧ before fr.pc s ∧ s.Describes fr.locals

/-- What the verifier says of the instruction of a frame. -/
structure Ready.Step (fr : Frame Val) (height : Nat) (instr : Bytecode) (pops pushes : Nat)
    (s t : AbstractState) : Prop where
  effect : instructionEffect fr.function.module fr.function.view instr = .ok (pops, pushes)
  le : pops ≤ height
  branch : instr.isBranch = true → height - pops + pushes = 0
  abilities : LocalAbilities fr.function s.allLocalAbilities
  describes : s.Describes fr.locals
  executed : Executed s instr t
  next : ∀ next ∈ Bytecode.getSuccessors fr.pc fr.function.code, ∀ locals : List (Option Val),
    t.Describes locals → Ready ⟨fr.function, next, locals⟩ (height - pops + pushes)

/-- The verifier speaks of no values, so a frame is as ready as one that is alike. -/
theorem Ready.alike {fr fr' : Frame Val} {height : Nat} (h : Ready fr height)
    (hsame : fr.Alike fr') : Ready fr' height := by
  -- the annotations are of the code, and of the locals only which have a value is described
  obtain ⟨hcode, hheight, abilities, initial, before, s, habilities, hannotated, hs, hdescribes⟩ := h
  rw [← hsame.function] at hcode hheight habilities hannotated
  rw [← hsame.pc] at hheight hs
  exact ⟨hcode, hheight, abilities, initial, before, s, habilities, hannotated, hs,
    hdescribes.congr hsame.locals⟩

theorem Ready.verifiedCode {fr : Frame Val} {height : Nat} (h : Ready fr height) :
    VerifiedCode .default fr.function.module fr.function.view :=
  verifiedCode_of_verifyFunction (fr.function.verified h.code)

/-- A frame is at an instruction. -/
theorem Ready.exists_instr {fr : Frame Val} {height : Nat} (h : Ready fr height) :
    ∃ instr, fr.function.code[fr.pc]? = some instr := by
  -- the offset is inside a block, and blocks are inside the code
  obtain ⟨id, b, pushes, hb, -⟩ := h.heightAt
  have hlt : fr.pc < fr.function.code.length := Nat.lt_of_le_of_lt hb.ge hb.isBlock.lt
  exact ⟨_, List.getElem?_eq_getElem hlt⟩

/-- **One instruction**, by both analyses. -/
theorem Ready.exists_step {fr : Frame Val} {height : Nat} (h : Ready fr height)
    {instr : Bytecode} (hinstr : fr.function.code[fr.pc]? = some instr) :
    ∃ pops pushes s t, Ready.Step fr height instr pops pushes s t := by
  have hverified := h.verifiedCode
  -- the stack checker: the heights at the successors
  obtain ⟨pops, pushes, heffect, hle, -, hbranch, hheights⟩ :=
    stackUsage_step hverified.branches hverified.stack h.heightAt hinstr
  obtain ⟨abilities, initial, before, s, habilities, hannotated, hs, hdescribes⟩ := h.localsAt
  -- the locals checker: the state after, below the annotation of each successor
  obtain ⟨t, hexecute, hsuccs⟩ := hannotated.step fr.pc s hs
  have hget : fr.function.code.getD fr.pc .nop = instr := by
    rw [List.getD, hinstr]
    rfl
  rw [TransferFunctions.executeAt, hget] at hexecute
  have hvalid := hannotated.valid fr.pc s hs
  refine ⟨pops, pushes, s, t, heffect, hle, hbranch, ?_, hdescribes,
    executed_of_executeInner hexecute, fun next hnext locals hlocals => ?_⟩
  · rw [hvalid.1]
    exact habilities
  · obtain ⟨u, hu, hle'⟩ := hsuccs next hnext
    exact ⟨h.code, hheights next hnext,
      abilities, initial, before, u, habilities, hannotated, hu, hlocals.mono hle'⟩

/-! ### Where a function begins -/

theorem abilitiesList_length {view : BinaryIndexedView} {constraints : List AbilitySet}
    {tys : List SignatureToken} {abilities : List AbilitySet}
    (h : view.abilitiesList constraints tys = .ok abilities) : abilities.length = tys.length := by
  induction tys generalizing abilities with
  | nil =>
    rw [BinaryIndexedView.abilitiesList] at h
    obtain rfl := Except.ok.inj h
    rfl
  | cons ty tys ih =>
    rw [BinaryIndexedView.abilitiesList] at h
    obtain ⟨first, -, h⟩ := Except.bind_eq_ok.mp h
    obtain ⟨rest, hrest, h⟩ := Except.bind_eq_ok.mp h
    obtain rfl := Except.ok.inj h
    rw [List.length_cons, List.length_cons, ih hrest]

/-- Locals of which the parameters have values, and the others have none. -/
structure Entered (f : LoadedFunction) (locals : List (Option Val)) : Prop where
  length : locals.length = f.localTys.length
  stored : ∀ i, i < f.view.parameters.length → ∃ v, locals[i]? = some (some v)
  rest : ∀ i, f.view.parameters.length ≤ i → i < f.localTys.length → locals[i]? = some none

/-- A function is entered at its first instruction, without anything on its part of the stack. -/
theorem ready_of_entered {f : LoadedFunction} (hcode : f.isNative = false)
    {locals : List (Option Val)} (h : Entered f locals) : Ready ⟨f, 0, locals⟩ 0 := by
  have hverified := verifiedCode_of_verifyFunction (f.verified hcode)
  obtain ⟨initial, hinitial, hanalyze⟩ := Except.bind_eq_ok.mp hverified.locals
  obtain ⟨abilities, habilities, hnew⟩ := Except.bind_eq_ok.mp hinitial
  have hstates := Except.ok.inj hnew
  have hlocalTys : f.localTys.length = f.view.parameters.length + f.view.locals.length :=
    List.length_append
  have hlength : abilities.length = f.localTys.length := abilitiesList_length habilities
  -- parameters are available at the start and other locals are not, as the frame has them
  have hvalid : AbstractState.Valid abilities initial := by
    rw [← hstates]
    refine ⟨rfl, ?_⟩
    simp only [List.length_map, List.length_range]
    omega
  rw [hvalid.2] at hanalyze
  obtain ⟨before, hannotated⟩ := annotated_of_analyze (localsSafety_domain abilities)
    (localsSafety_height abilities f.code) hverified.branches hverified.nonempty hvalid hanalyze
  obtain ⟨s, hs, hle⟩ := hannotated.start
  have hdescribes : initial.Describes locals := by
    rw [← hstates]
    show List.Forall₂ LocalState.Describes _ locals
    refine List.forall₂_iff_get.mpr ⟨?_, fun i hi hi' => ?_⟩
    · rw [List.length_map, List.length_range, h.length, hlocalTys]
    · simp only [List.get_eq_getElem, List.getElem_map, List.getElem_range]
      have hget : locals[i]? = some locals[i] := List.getElem?_eq_getElem hi'
      split
      · rename_i hparam
        obtain ⟨v, hv⟩ := h.stored i hparam
        rw [hget] at hv
        rw [Option.some.inj hv]
        rfl
      · rename_i hparam
        have hnone := h.rest i (by omega) (by rw [← h.length]; exact hi')
        rw [hget] at hnone
        exact Option.some.inj hnone
  exact ⟨hcode, heightAt_entry hverified.nonempty,
    abilities, initial, before, s, habilities, hannotated, hs, hdescribes.mono hle⟩

/-! ## The stack -/

/-- Callers that wait for `results`, above frames like those of `base`: each has its own part of the
stack, and goes on from the height that the results make of it. -/
inductive Stacked (base : List (Frame Val)) (bottom : List Val) (baseResults : Nat) :
    List (Frame Val) → List Val → Nat → Prop where
  | base (callers : List (Frame Val)) (hbase : List.Forall₂ Frame.Alike base callers) :
    Stacked base bottom baseResults callers bottom baseResults
  | caller (fr : Frame Val) (own : List Val) (callers : List (Frame Val)) (stack : List Val)
      (results : Nat) (hready : Ready { fr with pc := fr.pc + 1 } (own.length + results))
      (hstacked : Stacked base bottom baseResults callers stack
        fr.function.view.returns.length) :
      Stacked base bottom baseResults (fr :: callers) (own ++ stack) results

/-- **The invariant**: the current frame is ready, and the callers above `base` wait. -/
def Inv (base : List (Frame Val)) (bottom : List Val) (baseResults : Nat) (s : State Val) : Prop :=
  ∃ own rest, s.operandStack = own ++ rest ∧ Ready s.frame own.length
    ∧ Stacked base bottom baseResults s.callStack rest s.frame.function.view.returns.length

/-- What may come of a step: a fault that is not excluded, another state above `base`, or the
return of the frame right above it, with its results on the bottom of the stack. -/
inductive Safe (base : List (Frame Val)) (bottom : List Val) (baseResults : Nat) :
    Except Fault (Config Val) → Prop where
  | fault (f : Fault) (hfault : f.isExcluded = false) : Safe base bottom baseResults (.error f)
  | inside (s' : State Val) (hinv : Inv base bottom baseResults s') :
    Safe base bottom baseResults (.ok (.running s'))
  | back (results : List Val) (frame : Frame Val) (callers : List (Frame Val))
      (hbase : List.Forall₂ Frame.Alike base (frame :: callers))
      (hresults : results.length = baseResults) :
    Safe base bottom baseResults
      (.ok (.running ⟨results ++ bottom, { frame with pc := frame.pc + 1 }, callers⟩))
  | returned (results : List Val) (hbase : base = []) (hresults : results.length = baseResults) :
    Safe base bottom baseResults (.ok (.returned (results ++ bottom)))

/-- Callers go on waiting when their frames become alike ones. -/
theorem Stacked.alike {base callers callers' : List (Frame Val)} {bottom stack : List Val}
    {baseResults results : Nat} (h : Stacked base bottom baseResults callers stack results)
    (hsame : List.Forall₂ Frame.Alike callers callers') :
    Stacked base bottom baseResults callers' stack results := by
  -- frame by frame, from the last caller; the base is compared up to values anyway
  induction h generalizing callers' with
  | base callers hbase => exact .base callers' (Frame.Alike.all_trans hbase hsame)
  | caller fr own callers stack results hready _ ih =>
    cases hsame with
    | cons hfr hrest =>
      refine .caller _ own _ stack results ?_ ?_
      -- it goes on behind its call, where it is as ready as it was
      · rw [hfr.pc]
        exact hready.alike (hfr.withPc _)
      · rw [hfr.function]
        exact ih hrest

/-- Frames like those of `base` are at the end of the call stack, and `bottom` at that of the
operand stack. -/
theorem Stacked.suffix {base callers : List (Frame Val)} {bottom stack : List Val}
    {baseResults results : Nat} (h : Stacked base bottom baseResults callers stack results) :
    (∃ above below, callers = above ++ below ∧ List.Forall₂ Frame.Alike base below)
      ∧ bottom <:+ stack := by
  induction h with
  | base callers hbase => exact ⟨⟨[], callers, rfl, hbase⟩, List.suffix_rfl⟩
  | caller fr own callers stack results _ _ ih =>
    obtain ⟨⟨above, below, rfl, hbase⟩, hsuffix⟩ := ih
    exact ⟨⟨fr :: above, below, rfl, hbase⟩, hsuffix.trans (List.suffix_append own stack)⟩

section Steps

variable {base : List (Frame Val)} {bottom : List Val} {baseResults : Nat} {s : State Val}
  {own rest : List Val} {instr : Bytecode} {pops pushes : Nat} {a t : AbstractState}

/-- The state before a step, with all that is known of it. -/
structure At (base : List (Frame Val)) (bottom : List Val) (baseResults : Nat) (s : State Val)
    (own rest : List Val) (instr : Bytecode) (pops pushes : Nat) (a t : AbstractState) : Prop where
  stack : s.operandStack = own ++ rest
  ready : Ready s.frame own.length
  fetched : s.frame.function.code[s.frame.pc]? = some instr
  step : Ready.Step s.frame own.length instr pops pushes a t
  stacked : Stacked base bottom baseResults s.callStack rest s.frame.function.view.returns.length

/-- Writes through references change nothing of what is known. -/
theorem At.written (h : At base bottom baseResults s own rest instr pops pushes a t)
    (w : Nat → Nat → Val → Val) :
    At base bottom baseResults (s.written w) own rest instr pops pushes a t where
  stack := h.stack
  ready := h.ready.alike (Frame.alike_written _ _)
  fetched := h.fetched
  step :=
    { effect := h.step.effect
      le := h.step.le
      branch := h.step.branch
      abilities := h.step.abilities
      describes := h.step.describes.congr (Frame.alike_written _ _).locals
      executed := h.step.executed
      next := h.step.next }
  stacked := h.stacked.alike (s.alike_written w)

/-- The same of the instructions that write through a reference. -/
theorem At.wroteBy (h : At base bottom baseResults s own rest instr pops pushes a t)
    (o : Outcome Val) : At base bottom baseResults (s.wroteBy o instr) own rest instr pops pushes a t := by
  unfold State.wroteBy
  split
  · exact h.written o.write
  · exact h

/-- On to any instruction that may follow. -/
theorem At.goto (h : At base bottom baseResults s own rest instr pops pushes a t) {next : Nat}
    (hnext : next ∈ Bytecode.getSuccessors s.frame.pc s.frame.function.code) {own' : List Val}
    (hheight : own'.length = own.length - pops + pushes) {locals : List (Option Val)}
    (hlocals : t.Describes locals) :
    Inv base bottom baseResults ⟨own' ++ rest, ⟨s.frame.function, next, locals⟩, s.callStack⟩ := by
  refine ⟨own', rest, rfl, ?_, h.stacked⟩
  rw [hheight]
  exact h.step.next next hnext locals hlocals

/-- On to the next instruction. -/
theorem At.next (h : At base bottom baseResults s own rest instr pops pushes a t)
    (hbranch : instr.isUnconditionalBranch = false) {own' : List Val}
    (hheight : own'.length = own.length - pops + pushes) {locals : List (Option Val)}
    (hlocals : t.Describes locals) :
    Inv base bottom baseResults
      ⟨own' ++ rest, ⟨s.frame.function, s.frame.pc + 1, locals⟩, s.callStack⟩ :=
  h.goto (h.ready.verifiedCode.next_mem h.fetched hbranch) hheight hlocals

/-- There is something to pop. -/
theorem At.pop_eq (h : At base bottom baseResults s own rest instr pops pushes a t)
    (hpops : 0 < pops) :
    ∃ v own', own = v :: own' ∧ pop s.operandStack = .ok (v, own' ++ rest) := by
  have hle := h.step.le
  rw [h.stack]
  cases own with
  | nil =>
    rw [List.length_nil] at hle
    omega
  | cons v own' => exact ⟨v, own', rfl, rfl⟩

/-- A value is pushed, or there is no room. -/
theorem push_safe {v : Val} {stack : List Val} {f : List Val → Config Val}
    (h : Safe base bottom baseResults (.ok (f (v :: stack)))) :
    Safe base bottom baseResults (do return f (← push v stack)) := by
  rcases push_cases v stack with hpush | hpush
  · rw [hpush]
    exact h
  · rw [hpush]
    exact .fault _ rfl

/-- Values are pushed, or there is no room. -/
theorem pushAll_safe {vs stack : List Val} {f : List Val → Except Fault (Config Val)}
    (h : Safe base bottom baseResults (f (vs.reverse ++ stack))) :
    Safe base bottom baseResults (do f (← pushAll vs stack)) := by
  rcases pushAll_cases vs stack with hpush | hpush
  · rw [hpush]
    exact h
  · rw [hpush]
    exact .fault _ rfl

/-! ### Calls -/

/-- A frame is pushed: the callee has nothing on the stack, and the caller waits. -/
theorem At.setNewCallFrame (h : At base bottom baseResults s own rest instr pops pushes a t)
    (hbranch : instr.isUnconditionalBranch = false) (hlocals : t.Describes s.frame.locals)
    {f : LoadedFunction} (hcode : f.isNative = false) {mask : ClosureMask}
    {captured own' : List Val}
    (hcaptured : captured.length = mask.below f.view.parameters.length true)
    (hargs : mask.below f.view.parameters.length false ≤ own'.length)
    (hheight : own'.length - mask.below f.view.parameters.length false
      + f.view.returns.length = own.length - pops + pushes) :
    Safe base bottom baseResults (s.setNewCallFrame f mask captured (own' ++ rest)) := by
  have hlocalTys : f.localTys.length = f.view.parameters.length + f.view.locals.length :=
    List.length_append
  have hreverse : captured.reverse.length = mask.below f.view.parameters.length true := by
    rw [List.length_reverse]
    exact hcaptured
  have hstack : mask.below f.view.parameters.length false ≤ (own' ++ rest).length := by
    rw [List.length_append]
    omega
  have hroom : f.view.parameters.length
      ≤ (List.replicate f.localTys.length (none : Option Val)).length := by
    rw [List.length_replicate]
    omega
  -- the arguments are all there: those of the mask in the closure, the others on the stack
  obtain ⟨locals, hstore, hlength, hstored, hrest⟩ := storeArgs_eq mask hreverse hstack hroom
  unfold State.setNewCallFrame
  rw [hstore, Except.ok_bind]
  simp only
  split
  -- the callee begins with an empty part of the stack, and what is left is the caller's
  · rw [List.drop_append_of_le_length hargs]
    refine .inside _ ⟨[], _, rfl, ready_of_entered hcode ⟨?_, hstored, fun i hi hlt => ?_⟩, ?_⟩
    · rw [hlength, List.length_replicate]
    · rw [hrest i hi, List.getElem?_replicate, if_pos hlt]
    -- the caller waits at the next instruction, at the height the verifier has found there
    · refine .caller _ _ _ _ _ ?_ h.stacked
      rw [List.length_drop, hheight]
      exact h.step.next _ (h.ready.verifiedCode.next_mem h.fetched hbranch) _ hlocals
  · exact .fault _ rfl

/-- A native takes its arguments and puts its results, or goes on with another function. -/
theorem At.callNative (h : At base bottom baseResults s own rest instr pops pushes a t)
    (hbranch : instr.isUnconditionalBranch = false) (hlocals : t.Describes s.frame.locals)
    {o : Outcome Val} (htyped : o.Typed s.frame.function instr) {f : LoadedFunction}
    {mask : ClosureMask} {captured own' : List Val}
    (hcaptured : captured.length = mask.below f.view.parameters.length true)
    (hargs : mask.below f.view.parameters.length false ≤ own'.length)
    (hheight : own'.length - mask.below f.view.parameters.length false
      + f.view.returns.length = own.length - pops + pushes) :
    Safe base bottom baseResults (s.callNative o f mask captured (own' ++ rest)) := by
  have htake : takeArgs mask f.view.parameters.length captured.reverse (own' ++ rest)
      = .ok (own'.drop (mask.below f.view.parameters.length false) ++ rest) := by
    rw [takeArgs_eq mask (by rw [List.length_reverse]; exact hcaptured)
      (by rw [List.length_append]; omega), List.drop_append_of_le_length hargs]
  -- whatever the native writes through references, the frames are as ready as before
  have hat := h.written o.write
  have hafter : t.Describes (s.written o.write).frame.locals :=
    hlocals.congr (Frame.alike_written _ _).locals
  unfold State.callNative
  rw [htake, Except.ok_bind]
  simp only
  split
  · rename_i values _
    split
    · exact .fault _ rfl
    -- a success: the numbers of results were compared
    · rename_i hvalues
      rw [ne_eq, not_not] at hvalues
      refine pushAll_safe (.inside _ ?_)
      show Inv base bottom baseResults ⟨values.reverse ++ (_ ++ rest), _, (s.written o.write).callStack⟩
      rw [← List.append_assoc]
      refine hat.next hbranch ?_ hafter
      rw [List.length_append, List.length_reverse, List.length_drop]
      omega
  · exact .fault _ rfl
  · rename_i target args hnative
    split
    · exact .fault _ rfl
    -- a dispatch: the target takes the place of the native, so it returns as much
    · rename_i hsame
      rw [not_or, not_or, Bool.not_eq_true, not_not, not_not] at hsame
      obtain ⟨hcode, hreturns, -⟩ := hsame
      refine pushAll_safe ?_
      rw [← List.append_assoc]
      have hlength := htyped.dispatch f target args hnative
      refine hat.setNewCallFrame hbranch hafter hcode ?_ ?_ ?_
      · have hadd : (ClosureMask.mk 0).below target.view.parameters.length true
            + (ClosureMask.mk 0).below target.view.parameters.length false
            = target.view.parameters.length := ClosureMask.below_add _
        rw [ClosureMask.below_empty] at hadd
        rw [List.length_nil]
        omega
      · rw [ClosureMask.below_empty, List.length_append, List.length_reverse]
        omega
      · rw [ClosureMask.below_empty, List.length_append, List.length_reverse, List.length_drop]
        omega
  · rename_i hnative
    -- a module is loaded: such natives return nothing
    have hreturns := htyped.loadModule f hnative
    refine .inside _ (hat.next hbranch ?_ hafter)
    rw [hreturns, List.length_nil] at hheight
    rw [List.length_drop]
    exact hheight

/-- A call of a native or of a function with code. -/
theorem At.call (h : At base bottom baseResults s own rest instr pops pushes a t)
    (hbranch : instr.isUnconditionalBranch = false) (hlocals : t.Describes s.frame.locals)
    {o : Outcome Val} (htyped : o.Typed s.frame.function instr) {f : LoadedFunction}
    {mask : ClosureMask} {captured own' : List Val}
    (hcaptured : captured.length = mask.below f.view.parameters.length true)
    (hargs : mask.below f.view.parameters.length false ≤ own'.length)
    (hheight : own'.length - mask.below f.view.parameters.length false
      + f.view.returns.length = own.length - pops + pushes) :
    Safe base bottom baseResults (s.call o f mask captured (own' ++ rest)) := by
  unfold State.call
  split
  · exact h.callNative hbranch hlocals htyped hcaptured hargs hheight
  · rename_i hcode
    exact h.setNewCallFrame hbranch hlocals (Bool.eq_false_iff.mpr hcode) hcaptured hargs hheight

end Steps

/-! ## Instructions -/

/-- Packing a struct takes as many values as the struct has fields. -/
theorem fields_effect {o : Outcome Val} {count : Except VerifierError Nat} {pops pushes : Nat}
    (heffect : (do return (← count, 1)) = (.ok (pops, pushes) : Except VerifierError (Nat × Nat))) :
    ∃ n values, operands.fields o count = .ok (n, values) ∧ n ≤ pops
      ∧ values.length + pops = pushes + n := by
  obtain ⟨n, rfl, heffect⟩ := Except.bind_eq_ok.mp heffect
  obtain ⟨rfl, rfl⟩ := Prod.mk.inj (Except.ok.inj heffect)
  exact ⟨n, [o.value], rfl, Nat.le_refl n, rfl⟩

/-- An instruction that computes takes and puts back what the verifier says, but that a reference
which is frozen may stay where it is. -/
theorem operands_effect {o : Outcome Val} {f : LoadedFunction} {instr : Bytecode}
    {result : Except Fault (Nat × List Val)} {pc pops pushes : Nat}
    (hresult : operands o f.module instr = some result)
    (heffect : instructionEffect f.module f.view instr = .ok (pops, pushes))
    (hcheck : checkInstruction f.module pc instr = .ok ())
    (hfields : unpacks instr = true → o.values.length = pushes) :
    (∃ n values, result = .ok (n, values) ∧ n ≤ pops ∧ values.length + pops = pushes + n)
      ∨ ∃ fault, result = .error fault ∧ fault.isExcluded = false := by
  cases instr
  -- the number of elements is checked when the vector is taken apart
  case vecUnpack sig num =>
    obtain rfl := Option.some.inj hresult
    obtain ⟨rfl, rfl⟩ := Prod.mk.inj (Except.ok.inj heffect)
    by_cases hlength : o.values.length = num
    · exact .inl ⟨1, o.values, if_pos hlength, Nat.le_refl 1, congrArg (· + 1) hlength⟩
    · exact .inr ⟨_, if_neg hlength, rfl⟩
  case packClosure idx mask =>
    obtain rfl := Option.some.inj hresult
    obtain ⟨⟨parameters, returns⟩, harity, heffect⟩ := Except.bind_eq_ok.mp heffect
    obtain ⟨rfl, rfl⟩ := Prod.mk.inj (Except.ok.inj heffect)
    -- the instruction checker has compared the mask with the parameters
    have hmask := (Except.bind_unit_eq_ok.mp hcheck).2
    rw [extract_length_of_check hmask harity]
    exact .inl ⟨_, [o.value], rfl, Nat.le_refl _, rfl⟩
  case packClosureGeneric idx mask =>
    obtain rfl := Option.some.inj hresult
    obtain ⟨inst, hinst, heffect⟩ := Except.bind_eq_ok.mp heffect
    obtain ⟨⟨parameters, returns⟩, harity, heffect⟩ := Except.bind_eq_ok.mp heffect
    obtain ⟨rfl, rfl⟩ := Prod.mk.inj (Except.ok.inj heffect)
    -- both checks look the same instantiation up
    obtain ⟨inst', hinst', hcheck⟩ := Except.bind_eq_ok.mp hcheck
    obtain rfl := Except.ok.inj (hinst.symm.trans hinst')
    have hmask := (Except.bind_unit_eq_ok.mp hcheck).2
    rw [extract_length_of_check hmask harity]
    exact .inl ⟨_, [o.value], rfl, Nat.le_refl _, rfl⟩
  case pack idx =>
    obtain rfl := Option.some.inj hresult
    exact .inl (fields_effect heffect)
  case packGeneric idx =>
    obtain rfl := Option.some.inj hresult
    exact .inl (fields_effect heffect)
  case packVariant idx =>
    obtain rfl := Option.some.inj hresult
    exact .inl (fields_effect heffect)
  case packVariantGeneric idx =>
    obtain rfl := Option.some.inj hresult
    exact .inl (fields_effect heffect)
  -- what is taken apart has the declared fields, by its type
  case unpack idx =>
    obtain rfl := Option.some.inj hresult
    obtain ⟨count, -, heffect⟩ := Except.bind_eq_ok.mp heffect
    obtain ⟨rfl, rfl⟩ := Prod.mk.inj (Except.ok.inj heffect)
    exact .inl ⟨1, o.values, rfl, Nat.le_refl 1, congrArg (· + 1) (hfields rfl)⟩
  case unpackGeneric idx =>
    obtain rfl := Option.some.inj hresult
    obtain ⟨count, -, heffect⟩ := Except.bind_eq_ok.mp heffect
    obtain ⟨rfl, rfl⟩ := Prod.mk.inj (Except.ok.inj heffect)
    exact .inl ⟨1, o.values, rfl, Nat.le_refl 1, congrArg (· + 1) (hfields rfl)⟩
  case unpackVariant idx =>
    obtain rfl := Option.some.inj hresult
    obtain ⟨count, -, heffect⟩ := Except.bind_eq_ok.mp heffect
    obtain ⟨rfl, rfl⟩ := Prod.mk.inj (Except.ok.inj heffect)
    exact .inl ⟨1, o.values, rfl, Nat.le_refl 1, congrArg (· + 1) (hfields rfl)⟩
  case unpackVariantGeneric idx =>
    obtain rfl := Option.some.inj hresult
    obtain ⟨count, -, heffect⟩ := Except.bind_eq_ok.mp heffect
    obtain ⟨rfl, rfl⟩ := Prod.mk.inj (Except.ok.inj heffect)
    exact .inl ⟨1, o.values, rfl, Nat.le_refl 1, congrArg (· + 1) (hfields rfl)⟩
  -- the others have numbers of their own
  all_goals cases hresult
  all_goals
    obtain ⟨rfl, rfl⟩ := Prod.mk.inj (Except.ok.inj heffect)
    exact .inl ⟨_, _, rfl, by omega, rfl⟩

/-- An instruction that computes goes on to the next one. -/
theorem branch_of_operands {o : Outcome Val} {module : BinaryIndexedView} {instr : Bytecode}
    {result : Except Fault (Nat × List Val)} (h : operands o module instr = some result) :
    instr.isUnconditionalBranch = false := by
  cases instr <;> first | rfl | cases h

/-- It does nothing to locals. -/
theorem executed_of_operands {o : Outcome Val} {module : BinaryIndexedView} {instr : Bytecode}
    {result : Except Fault (Nat × List Val)} (h : operands o module instr = some result)
    {a t : AbstractState} (hexecuted : Executed a instr t) : t = a := by
  cases hexecuted <;> first | rfl | cases h

section Transfer

variable {base : List (Frame Val)} {bottom : List Val} {baseResults : Nat} {s : State Val}
  {own rest : List Val} {instr : Bytecode} {pops pushes : Nat} {a t : AbstractState}
  {program : Program} {o : Outcome Val}

/-- The verifier's instruction of a frame that computes. -/
theorem At.compute_safe (h : At base bottom baseResults s own rest instr pops pushes a t)
    (htyped : o.Typed s.frame.function instr) {result : Except Fault (Nat × List Val)}
    (hresult : operands o s.frame.function.module instr = some result) :
    Safe base bottom baseResults (do
      let (pops, values) ← result
      let stack ← popn pops s.operandStack
      return (s.wroteBy o instr).next (← pushAll values stack)) := by
  have hcheck := h.ready.verifiedCode.instruction s.frame.pc instr h.fetched
  have hfields := fun hunpacks => htyped.fields pops pushes hunpacks h.step.effect
  rcases operands_effect hresult h.step.effect hcheck hfields with
    ⟨n, values, rfl, hn, hvalues⟩ | ⟨fault, rfl, hfault⟩
  · have hle := h.step.le
    have hpopn : popn n s.operandStack = .ok (own.drop n ++ rest) := by
      rw [popn, h.stack, if_neg (by rw [List.length_append]; omega),
        List.drop_append_of_le_length (by omega)]
    show Safe base bottom baseResults
      (popn n s.operandStack >>= fun stack => do
        return (s.wroteBy o instr).next (← pushAll values stack))
    rw [hpopn, Except.ok_bind]
    refine pushAll_safe (.inside _ ?_)
    have hat := h.wroteBy o
    have hlocals : t.Describes (s.wroteBy o instr).frame.locals := by
      rw [executed_of_operands hresult hat.step.executed]
      exact hat.step.describes
    show Inv base bottom baseResults
      ⟨values.reverse ++ (own.drop n ++ rest), _, (s.wroteBy o instr).callStack⟩
    rw [← List.append_assoc]
    refine hat.next (branch_of_operands hresult) ?_ hlocals
    rw [List.length_append, List.length_reverse, List.length_drop]
    omega
  · exact .fault fault hfault

/-- The frame returns what the verifier has found on its part of the stack, and no more. -/
theorem At.ret_safe (h : At base bottom baseResults s own rest .ret pops pushes a t) :
    Safe base bottom baseResults (.ok s.ret) := by
  obtain ⟨rfl, rfl⟩ := Prod.mk.inj (Except.ok.inj h.step.effect)
  have hle := h.step.le
  -- a block that returns leaves nothing but the results behind
  have hzero := h.step.branch rfl
  have hresults : own.length = s.frame.function.view.returns.length := by omega
  have hstacked := h.stacked
  have hstack := h.stack
  obtain ⟨operandStack, frame, callStack⟩ := s
  simp only at hstacked hstack hresults
  rw [hstack]
  -- the frame is the one above the base, or a caller waits for it
  cases hstacked with
  | base callers hbase =>
    cases hbase with
    | nil => exact .returned own rfl hresults
    | cons hfr hrest => exact .back own _ _ (.cons hfr hrest) hresults
  | caller fr mine callers stack results hready hstacked =>
    refine .inside _ ⟨own ++ mine, stack, (List.append_assoc own mine stack).symm, ?_, hstacked⟩
    have hheight : (own ++ mine).length
        = mine.length + frame.function.view.returns.length := by
      rw [List.length_append, hresults, Nat.add_comm]
    rw [hheight]
    exact hready

/-- A call through a handle finds its arguments. -/
theorem At.callHandle_safe (h : At base bottom baseResults s own rest instr pops pushes a t)
    (hbranch : instr.isUnconditionalBranch = false) (hlocals : t.Describes s.frame.locals)
    (htyped : o.Typed s.frame.function instr) {idx : Nat}
    {parameters returns : List SignatureToken}
    (harity : s.frame.function.module.arity idx = .ok (parameters, returns))
    (hpops : pops = parameters.length) (hpushes : pushes = returns.length) :
    Safe base bottom baseResults (s.callHandle program o idx) := by
  unfold State.callHandle
  cases hresolve : program.resolve s.frame.function idx with
  | error e => exact .fault _ rfl
  | ok f =>
    obtain ⟨hparameters, hreturns⟩ :=
      program.linked s.frame.function idx f parameters returns hresolve harity
    have hle := h.step.le
    -- the function has as many parameters as its handle, and the verifier has seen these
    have hlast : lastN f.view.parameters.length s.operandStack = .ok () := by
      rw [lastN, h.stack, if_neg (by rw [List.length_append]; omega)]
    rw [Except.mapError_ok, Except.ok_bind, hlast, Except.ok_bind, h.stack]
    have hadd : (ClosureMask.mk 0).below f.view.parameters.length true
        + (ClosureMask.mk 0).below f.view.parameters.length false
        = f.view.parameters.length := ClosureMask.below_add _
    have hempty := ClosureMask.below_empty f.view.parameters.length
    refine h.call hbranch hlocals htyped ?_ ?_ ?_
    · rw [List.length_nil]
      omega
    · omega
    · omega

/-- A closure brings the arguments its mask says, and the others are on the stack. -/
theorem At.callClosure_safe {sig : Nat}
    (h : At base bottom baseResults s own rest (.callClosure sig) pops pushes a t)
    (htyped : o.Typed s.frame.function (.callClosure sig)) :
    Safe base bottom baseResults (transfer program o s (.callClosure sig)) := by
  obtain ⟨args, results, abilities, hsig⟩ :=
    h.ready.verifiedCode.closureCall s.frame.pc sig h.fetched
  have heffect : instructionEffect s.frame.function.module s.frame.function.view
      (.callClosure sig) = .ok (1 + args.length, results.length) := by
    simp only [instructionEffect]
    rw [tableAt_eq_ok.mpr hsig]
    rfl
  obtain ⟨hpops, hpushes⟩ := Prod.mk.inj (Except.ok.inj (h.step.effect.symm.trans heffect))
  obtain ⟨v, own', hown, hpop⟩ := h.pop_eq (by omega)
  have hlocals : t.Describes s.frame.locals := by
    cases h.step.executed
    exact h.step.describes
  simp only [transfer]
  rw [hpop, Except.ok_bind]
  simp only
  cases hclosure : o.closure with
  | none => exact .fault _ rfl
  | some c =>
    obtain ⟨hprovided, hreturns⟩ :=
      htyped.closure sig args results abilities c rfl hsig hclosure
    rw [ClosureMask.extract_length_eq] at hprovided
    have hcaptured := c.captured_length
    rw [ClosureMask.extract_length_eq] at hcaptured
    have hle := h.step.le
    rw [hown, List.length_cons] at hle
    have hadd : c.mask.below c.function.view.parameters.length true
        + c.mask.below c.function.view.parameters.length false
        = c.function.view.parameters.length := ClosureMask.below_add _
    -- bits of the mask beyond the parameters ask for fewer arguments than there are
    have hbits : c.mask.below c.function.view.parameters.length true ≤ c.mask.capturedCount :=
      ClosureMask.below_le_capturedCount _
    have hlast : lastN (c.function.view.parameters.length - c.mask.capturedCount)
        (own' ++ rest) = .ok () := by
      rw [lastN, if_neg (by rw [List.length_append]; omega)]
    show Safe base bottom baseResults
      (lastN (c.function.view.parameters.length - c.mask.capturedCount) (own' ++ rest)
        >>= fun _ => s.call o c.function c.mask c.captured (own' ++ rest))
    rw [hlast, Except.ok_bind]
    refine h.call rfl hlocals htyped hcaptured (by omega) ?_
    rw [hown, List.length_cons]
    omega

/-- What a local that is available has, in the frame. -/
theorem At.local_eq (h : At base bottom baseResults s own rest instr pops pushes a t) {idx : Nat}
    {abilities : AbilitySet} (hlocal : a.localAt idx = .ok (.available, abilities)) :
    ∃ v, s.frame.locals[idx]? = some (some v) := by
  obtain ⟨-, -, v, hget, hdescribes⟩ := h.step.describes.at_local hlocal
  obtain ⟨v', rfl⟩ := Option.isSome_iff_exists.mp hdescribes
  exact ⟨v', hget⟩

/-- An instruction that pushes one value is followed by the next one. -/
theorem At.push_next (h : At base bottom baseResults s own rest instr pops pushes a t)
    (hbranch : instr.isUnconditionalBranch = false) (hpops : pops = 0) (hpushes : pushes = 1)
    {locals : List (Option Val)} (hlocals : t.Describes locals) (v : Val) :
    Safe base bottom baseResults (do
      return { s with frame := { s.frame with locals } : State Val }.next
        (← push v s.operandStack)) := by
  refine push_safe (.inside _ ?_)
  rw [h.stack]
  have hheight : (v :: own).length = own.length - pops + pushes := by
    rw [List.length_cons]
    omega
  exact h.next hbranch hheight hlocals

/-- A branch that looks at a condition goes to its offset or to the next instruction. -/
theorem At.branch_safe (h : At base bottom baseResults s own rest instr pops pushes a t)
    (hbranch : instr.isUnconditionalBranch = false) {offset : Nat}
    (hoffset : instr.offset = some offset) (hpops : pops = 1) (hpushes : pushes = 0)
    (hlocals : t.Describes s.frame.locals) {own' : List Val} (hown : own.length = own'.length + 1)
    (jumps : Bool) :
    Safe base bottom baseResults
      (.ok (if jumps then s.jump offset (own' ++ rest) else s.next (own' ++ rest))) := by
  have hheight : own'.length = own.length - pops + pushes := by omega
  cases jumps with
  | true =>
    exact .inside _ (h.goto ((Bytecode.mem_getSuccessors h.fetched).mpr (.inl hoffset)) hheight
      hlocals)
  | false => exact .inside _ (h.next hbranch hheight hlocals)

/-- An instruction that does more than to compute, whatever it is. -/
theorem At.transfer_safe (h : At base bottom baseResults s own rest instr pops pushes a t)
    (htyped : o.Typed s.frame.function instr)
    (hnone : operands o s.frame.function.module instr = none) :
    Safe base bottom baseResults (transfer program o s instr) := by
  have hexecuted := h.step.executed
  have heffect := h.step.effect
  have hdescribes := h.step.describes
  cases instr
  case ret => exact h.ret_safe
  -- a condition is popped, whatever it is
  case brTrue offset =>
    obtain ⟨rfl, rfl⟩ := Prod.mk.inj (Except.ok.inj heffect)
    obtain ⟨v, own', rfl, hpop⟩ := h.pop_eq Nat.one_pos
    cases hexecuted
    simp only [transfer]
    rw [hpop]
    exact h.branch_safe rfl rfl rfl rfl hdescribes List.length_cons o.condition
  -- the same with the condition the other way
  case brFalse offset =>
    obtain ⟨rfl, rfl⟩ := Prod.mk.inj (Except.ok.inj heffect)
    obtain ⟨v, own', rfl, hpop⟩ := h.pop_eq Nat.one_pos
    cases hexecuted
    simp only [transfer]
    rw [hpop]
    have hsafe := h.branch_safe rfl rfl rfl rfl hdescribes List.length_cons (!o.condition)
    cases hcondition : o.condition with
    | true => rwa [hcondition] at hsafe
    | false => rwa [hcondition] at hsafe
  case branch offset =>
    obtain ⟨rfl, rfl⟩ := Prod.mk.inj (Except.ok.inj heffect)
    cases hexecuted
    simp only [transfer]
    rw [h.stack]
    exact .inside _ (h.goto ((Bytecode.mem_getSuccessors h.fetched).mpr (.inl rfl)) rfl hdescribes)
  case abort =>
    obtain ⟨rfl, rfl⟩ := Prod.mk.inj (Except.ok.inj heffect)
    obtain ⟨v, own', rfl, hpop⟩ := h.pop_eq Nat.one_pos
    simp only [transfer]
    rw [hpop]
    exact .fault _ rfl
  case copyLoc idx =>
    obtain ⟨rfl, rfl⟩ := Prod.mk.inj (Except.ok.inj heffect)
    cases hexecuted with
    | copyLoc idx abilities hlocal =>
      obtain ⟨v, hv⟩ := h.local_eq hlocal
      simp only [transfer]
      rw [copyLoc_eq hv]
      exact h.push_next rfl rfl rfl hdescribes v
    | other _ hret hlocals => exact absurd rfl (hlocals idx).2.2.1
  case mutBorrowLoc idx =>
    obtain ⟨rfl, rfl⟩ := Prod.mk.inj (Except.ok.inj heffect)
    cases hexecuted with
    | mutBorrowLoc idx abilities hlocal =>
      obtain ⟨v, hv⟩ := h.local_eq hlocal
      simp only [transfer]
      rw [borrowLoc_eq hv]
      exact h.push_next rfl rfl rfl hdescribes o.value
    | other _ hret hlocals => exact absurd rfl (hlocals idx).2.2.2.1
  case immBorrowLoc idx =>
    obtain ⟨rfl, rfl⟩ := Prod.mk.inj (Except.ok.inj heffect)
    cases hexecuted with
    | immBorrowLoc idx abilities hlocal =>
      obtain ⟨v, hv⟩ := h.local_eq hlocal
      simp only [transfer]
      rw [borrowLoc_eq hv]
      exact h.push_next rfl rfl rfl hdescribes o.value
    | other _ hret hlocals => exact absurd rfl (hlocals idx).2.2.2.2
  case moveLoc idx =>
    obtain ⟨rfl, rfl⟩ := Prod.mk.inj (Except.ok.inj heffect)
    cases hexecuted with
    | moveLoc idx abilities hlocal =>
      obtain ⟨v, hv⟩ := h.local_eq hlocal
      simp only [transfer]
      rw [moveLoc_eq hv]
      exact h.push_next rfl rfl rfl (hdescribes.setLocal idx rfl) v
    | other _ hret hlocals => exact absurd rfl (hlocals idx).2.1
  case stLoc idx =>
    obtain ⟨rfl, rfl⟩ := Prod.mk.inj (Except.ok.inj heffect)
    obtain ⟨v, own', rfl, hpop⟩ := h.pop_eq Nat.one_pos
    cases hexecuted with
    | stLoc idx l abilities hlocal hdrop =>
      obtain ⟨-, -, old, hold, -⟩ := hdescribes.at_local hlocal
      obtain ⟨hidx, -⟩ := List.getElem?_eq_some_iff.mp hold
      simp only [transfer]
      rw [hpop, Except.ok_bind, storeLoc_eq hidx]
      exact .inside _ (h.next rfl rfl (hdescribes.setLocal idx rfl))
    | other _ hret hlocals => exact absurd rfl (hlocals idx).1
  case call idx =>
    obtain ⟨⟨parameters, returns⟩, harity, heffect⟩ := Except.bind_eq_ok.mp heffect
    obtain ⟨hpops, hpushes⟩ := Prod.mk.inj (Except.ok.inj heffect)
    cases hexecuted
    exact h.callHandle_safe rfl hdescribes htyped harity hpops.symm hpushes.symm
  case callGeneric idx =>
    obtain ⟨inst, hinst, heffect⟩ := Except.bind_eq_ok.mp heffect
    obtain ⟨⟨parameters, returns⟩, harity, heffect⟩ := Except.bind_eq_ok.mp heffect
    obtain ⟨hpops, hpushes⟩ := Prod.mk.inj (Except.ok.inj heffect)
    cases hexecuted
    simp only [transfer]
    rw [hinst]
    exact h.callHandle_safe rfl hdescribes htyped harity hpops.symm hpushes.symm
  case callClosure sig => exact h.callClosure_safe htyped
  case vecPack sig num =>
    obtain ⟨rfl, rfl⟩ := Prod.mk.inj (Except.ok.inj heffect)
    cases hexecuted
    have hnum := h.ready.verifiedCode.instruction s.frame.pc _ h.fetched
    have hle := h.step.le
    -- the instruction checker bounds the number, so the cut to 16 bits keeps it
    have hsmall : num < 2 ^ 16 := by
      by_contra hlarge
      rw [checkInstruction, checkVecNum, if_pos (by omega)] at hnum
      cases hnum
    have hlast : lastN num s.operandStack = .ok () := by
      rw [lastN, h.stack, if_neg (by rw [List.length_append]; omega)]
    have hpopn : popn (num % 2 ^ 16) s.operandStack = .ok (own.drop num ++ rest) := by
      rw [Nat.mod_eq_of_lt hsmall, popn, h.stack,
        if_neg (by rw [List.length_append]; omega), List.drop_append_of_le_length hle]
    simp only [transfer]
    rw [hlast, Except.ok_bind, hpopn, Except.ok_bind]
    have hheight : (o.value :: own.drop num).length = own.length - num + 1 := by
      rw [List.length_cons, List.length_drop]
    exact push_safe (.inside _ (h.next rfl hheight hdescribes))
  -- all others compute
  all_goals cases hnone

end Transfer

/-! ## Steps and runs -/

section Runs

variable {base : List (Frame Val)} {bottom : List Val} {baseResults : Nat} {s s' : State Val}
  {program : Program}

/-- The instruction of a state in the invariant, with what both analyses say of it. -/
theorem Inv.exists_at (h : Inv base bottom baseResults s) :
    ∃ own rest instr pops pushes a t,
      At base bottom baseResults s own rest instr pops pushes a t := by
  obtain ⟨own, rest, hstack, hready, hstacked⟩ := h
  obtain ⟨instr, hinstr⟩ := hready.exists_instr
  obtain ⟨pops, pushes, a, t, hstep⟩ := hready.exists_step hinstr
  exact ⟨own, rest, instr, pops, pushes, a, t, hstack, hready, hinstr, hstep, hstacked⟩

/-- **One step.** -/
theorem step_safe (h : Inv base bottom baseResults s) {o : Outcome Val}
    (htyped : ∀ instr, s.frame.function.code[s.frame.pc]? = some instr →
      o.Typed s.frame.function instr) :
    Safe base bottom baseResults (step program o s) := by
  obtain ⟨own, rest, instr, pops, pushes, a, t, hat⟩ := h.exists_at
  have htypes := htyped instr hat.fetched
  unfold step
  rw [hat.fetched]
  simp only
  split
  · exact .fault _ rfl
  · split
    · rename_i result hresult
      exact hat.compute_safe htypes hresult
    · rename_i hnone
      exact hat.transfer_safe htypes hnone

/-- A step stays above `base` as long as there are more frames on the call stack. -/
theorem inv_of_steps (h : Inv base bottom baseResults s) (hstep : Steps program s s')
    (hlength : base.length ≤ s'.callStack.length) : Inv base bottom baseResults s' := by
  obtain ⟨o, htyped, hstep⟩ := hstep
  have hsafe : Safe base bottom baseResults (step program o s) := step_safe h htyped
  rw [hstep] at hsafe
  cases hsafe with
  | inside _ hinv => exact hinv
  | back results frame callers hbase hresults =>
    -- a return to the base would leave fewer frames than there are
    rw [hbase.length_eq, List.length_cons] at hlength
    exact absurd hlength (Nat.not_succ_le_self _)

/-- The invariant holds where a function is entered from outside, above no frames. -/
theorem inv_enter {f : LoadedFunction} (hcode : f.isNative = false) {args : List Val}
    (hargs : args.length = f.view.parameters.length) :
    Inv [] [] f.view.returns.length (enter f args) := by
  have hlocalTys : f.localTys.length = f.view.parameters.length + f.view.locals.length :=
    List.length_append
  refine ⟨[], [], rfl, ready_of_entered hcode ⟨?_, fun i hi => ?_, fun i hi hlt => ?_⟩,
    .base [] .nil⟩
  · rw [List.length_append, List.length_map, List.length_replicate]
    omega
  · refine ⟨args.get ⟨i, by omega⟩, ?_⟩
    rw [List.getElem?_append_left (by rw [List.length_map]; omega), List.getElem?_map,
      List.getElem?_eq_getElem (by omega)]
    rfl
  · rw [List.getElem?_append_right (by rw [List.length_map]; omega), List.getElem?_replicate,
      if_pos (by rw [List.length_map]; omega)]

/-- **A run** keeps the invariant. -/
theorem inv_of_run {f : LoadedFunction} (hcode : f.isNative = false) {args : List Val}
    (hargs : args.length = f.view.parameters.length)
    (hrun : Relation.ReflTransGen (Steps program) (enter f args) s) :
    Inv [] [] f.view.returns.length s := by
  induction hrun with
  | refl => exact inv_enter hcode hargs
  | tail _ hstep ih => exact inv_of_steps ih hstep (Nat.zero_le _)

/-- A value that is lost is of a type that has `drop`. -/
theorem At.drop {own rest : List Val} {instr : Bytecode} {pops pushes : Nat} {a t : AbstractState}
    (h : At base bottom baseResults s own rest instr pops pushes a t) {idx : Nat} {v : Val}
    (hlost : instr = .stLoc idx ∨ instr = .ret) (hv : s.frame.locals[idx]? = some (some v)) :
    ∃ abilities ability, LocalAbilities s.frame.function abilities
      ∧ abilities[idx]? = some ability ∧ ability.hasDrop = true := by
  obtain ⟨hlength, hget⟩ := List.forall₂_iff_get.mp h.step.describes
  obtain ⟨hidx, hvalue⟩ := List.getElem?_eq_some_iff.mp hv
  have hidx' : idx < a.localStates.length := by omega
  -- the local is not unavailable, for it has a value
  have havailable : a.localStates[idx] ≠ .unavailable := by
    intro hunavailable
    have hdescribes : (a.localStates[idx]).Describes (s.frame.locals[idx]) := hget idx hidx' hidx
    rw [hunavailable, hvalue] at hdescribes
    cases hdescribes
  have hexecuted := h.step.executed
  rcases hlost with rfl | rfl
  · cases hexecuted with
    | stLoc _ l ability hlocal hdrop =>
      obtain ⟨hl, hability, -⟩ := h.step.describes.at_local hlocal
      rw [List.getElem?_eq_getElem hidx'] at hl
      rw [Option.some.inj hl] at havailable
      exact ⟨_, ability, h.step.abilities, hability, hdrop havailable⟩
    | other _ hret hlocals => exact absurd rfl (hlocals idx).1
  · cases hexecuted with
    | ret hdrop =>
      obtain ⟨abilities, initial, before, u, habilities, hannotated, hu, hdescribes⟩ :=
        h.ready.localsAt
      -- the state knows the abilities of all locals of the function
      have hsame : abilities = a.allLocalAbilities :=
        Except.ok.inj (habilities.symm.trans h.step.abilities)
      have hlengths : a.allLocalAbilities.length = s.frame.locals.length := by
        have hvalid := (hannotated.valid _ u hu).2
        have hrelated := hdescribes.length_eq
        rw [← hsame, ← hvalid]
        exact hrelated
      have hidx'' : idx < a.allLocalAbilities.length := by omega
      refine ⟨_, a.allLocalAbilities[idx], h.step.abilities, List.getElem?_eq_getElem hidx'', ?_⟩
      refine hdrop (a.localStates[idx], a.allLocalAbilities[idx]) ?_ havailable
      rw [List.mem_iff_getElem]
      exact ⟨idx, by rw [List.length_zip]; omega, List.getElem_zip⟩
    | other _ hret hlocals => exact absurd rfl hret

/-- **Closures.** The arguments that a closure is built of are on the stack, one for each position of
its mask. -/
theorem At.packed {own rest : List Val} {instr : Bytecode} {pops pushes : Nat}
    {a t : AbstractState} (h : At base bottom baseResults s own rest instr pops pushes a t)
    {idx : Nat} {mask : ClosureMask} {callee : LoadedFunction}
    (hpacks : packsClosure s.frame.function.module instr = some (idx, mask))
    (hresolve : program.resolve s.frame.function idx = .ok callee) :
    ∃ (c : Closure Val) (stack : List Val), c.function = callee ∧ c.mask = mask
      ∧ s.operandStack = c.captured.reverse ++ stack
      ∧ popn mask.capturedCount s.operandStack = .ok stack := by
  have hcheck := h.ready.verifiedCode.instruction s.frame.pc instr h.fetched
  have heffect := h.step.effect
  obtain ⟨parameters, returns, harity, hextract, hpops⟩ : ∃ parameters returns,
      s.frame.function.module.arity idx = .ok (parameters, returns)
        ∧ (mask.extract parameters true).length = mask.capturedCount
        ∧ pops = mask.capturedCount := by
    cases instr
    case packClosure idx' mask' =>
      obtain ⟨rfl, rfl⟩ := Prod.mk.inj (Option.some.inj hpacks)
      obtain ⟨⟨parameters, returns⟩, harity, heffect⟩ := Except.bind_eq_ok.mp heffect
      obtain ⟨hpops, -⟩ := Prod.mk.inj (Except.ok.inj heffect)
      -- the mask asks for no argument that the function does not have
      have hmask := extract_length_of_check (Except.bind_unit_eq_ok.mp hcheck).2 harity
      exact ⟨parameters, returns, harity, hmask, hpops.symm.trans hmask⟩
    case packClosureGeneric idx' mask' =>
      obtain ⟨inst, hinst, heffect⟩ := Except.bind_eq_ok.mp heffect
      obtain ⟨⟨parameters, returns⟩, harity, heffect⟩ := Except.bind_eq_ok.mp heffect
      obtain ⟨hpops, -⟩ := Prod.mk.inj (Except.ok.inj heffect)
      obtain ⟨inst', hinst', hcheck⟩ := Except.bind_eq_ok.mp hcheck
      obtain rfl := Except.ok.inj (hinst.symm.trans hinst')
      have hmask := extract_length_of_check (Except.bind_unit_eq_ok.mp hcheck).2 harity
      rw [packsClosure, tableAt_eq_ok.mp hinst] at hpacks
      obtain ⟨rfl, rfl⟩ := Prod.mk.inj (Option.some.inj hpacks)
      exact ⟨parameters, returns, harity, hmask, hpops.symm.trans hmask⟩
    all_goals cases hpacks
  have hle := h.step.le
  have hlength : (own.take mask.capturedCount).reverse.length
      = (mask.extract callee.view.parameters true).length := by
    -- the function has as many parameters as its handle
    have hlinked := (program.linked _ idx callee parameters returns hresolve harity).1
    rw [ClosureMask.extract_length_eq, hlinked, ← ClosureMask.extract_length_eq, hextract,
      List.length_reverse, List.length_take]
    omega
  -- the values on top, the last one first
  refine ⟨⟨callee, mask, (own.take mask.capturedCount).reverse, hlength⟩,
    own.drop mask.capturedCount ++ rest, rfl, rfl, ?_, ?_⟩
  · rw [List.reverse_reverse, ← List.append_assoc, List.take_append_drop]
    exact h.stack
  · rw [popn, h.stack, if_neg (by rw [List.length_append]; omega),
      List.drop_append_of_le_length (by omega)]

/-- **Verified code runs.** In every state of every run of a verified function, through whatever
calls of other verified functions, closures and natives: no step finds the stack empty, runs out of
the code, or looks for a local that has no value; a value that is overwritten, or left behind in
its frame, is of a type that has `drop`; a closure is built of as many arguments as its mask says;
and the run ends with as many values as the function returns. -/
theorem verified_run_safe {f : LoadedFunction} (hcode : f.isNative = false) {args : List Val}
    (hargs : args.length = f.view.parameters.length)
    (hrun : Relation.ReflTransGen (Steps program) (enter f args) s) {o : Outcome Val}
    (htyped : ∀ instr, s.frame.function.code[s.frame.pc]? = some instr →
      o.Typed s.frame.function instr) :
    (∀ fault, step program o s = .error fault → fault.isExcluded = false)
      ∧ (∀ values, step program o s = .ok (.returned values) →
        values.length = f.view.returns.length)
      ∧ (∀ idx v, (s.frame.function.code[s.frame.pc]? = some (.stLoc idx)
          ∨ s.frame.function.code[s.frame.pc]? = some .ret) →
        s.frame.locals[idx]? = some (some v) →
        ∃ abilities ability, LocalAbilities s.frame.function abilities
          ∧ abilities[idx]? = some ability ∧ ability.hasDrop = true)
      ∧ ∀ instr idx mask callee, s.frame.function.code[s.frame.pc]? = some instr →
        packsClosure s.frame.function.module instr = some (idx, mask) →
        program.resolve s.frame.function idx = .ok callee →
        ∃ (c : Closure Val) (stack : List Val), c.function = callee ∧ c.mask = mask
          ∧ s.operandStack = c.captured.reverse ++ stack
          ∧ popn mask.capturedCount s.operandStack = .ok stack := by
  have hinv := inv_of_run hcode hargs hrun
  have hsafe : Safe [] [] f.view.returns.length (step program o s) := step_safe hinv htyped
  refine ⟨fun fault hfault => ?_, fun values hvalues => ?_, fun idx v hlost hv => ?_,
    fun instr idx mask callee hinstr hpacks hresolve => ?_⟩
  -- each part is one case of what may come of a step
  · rw [hfault] at hsafe
    cases hsafe
    assumption
  · rw [hvalues] at hsafe
    cases hsafe with
    | returned results hbase hresults =>
      rw [List.append_nil]
      exact hresults
  · obtain ⟨own, rest, instr, pops, pushes, a, t, hat⟩ := hinv.exists_at
    refine hat.drop ?_ hv
    rw [hat.fetched] at hlost
    exact hlost.imp Option.some.inj Option.some.inj
  · obtain ⟨own, rest, instr', pops, pushes, a, t, hat⟩ := hinv.exists_at
    obtain rfl := Option.some.inj (hat.fetched.symm.trans hinstr)
    exact hat.packed hpacks hresolve

end Runs

/-! ### A program -/

/-- A module with two function handles: of two numbers and a result, and of a reference. -/
def sampleModule : BinaryIndexedView where
  selfModuleHandleIdx := 0
  moduleHandles := []
  structHandles := []
  functionHandles := [⟨0, 0, 1, 2, []⟩, ⟨0, 1, 4, 0, []⟩]
  signatures :=
    [[], [.u64, .u64], [.u64], [.function [.u64] [.u64] ⟨0⟩], [.mutableReference .u64]]
  identifiers := []
  addressIdentifiers := []
  structDefs := []
  functionDefs := []
  otherTables := []
  constantPool := []
  fieldHandles := []
  fieldInstantiations := []
  variantFieldHandles := []
  variantFieldInstantiations := []
  functionInstantiations := []
  structInstantiations := []
  structVariantHandles := []
  structVariantInstantiations := []

/-- Adds its arguments. -/
def sampleAdd : LoadedFunction where
  module := sampleModule
  view :=
    { index := 1
      code := ⟨0, [.copyLoc 0, .moveLoc 1, .add, .ret]⟩
      parameters := [.u64, .u64]
      returns := [.u64]
      locals := []
      typeParameters := [] }
  isNative := false
  verified := fun _ => rfl

/-- Writes 5 through its argument. -/
def sampleBump : LoadedFunction where
  module := sampleModule
  view :=
    { index := 2
      code := ⟨0, [.ldU64 5, .moveLoc 0, .writeRef, .ret]⟩
      parameters := [.mutableReference .u64]
      returns := []
      locals := []
      typeParameters := [] }
  isNative := false
  verified := fun _ => rfl

/-- Adds two numbers by a closure that has captured the first one. -/
def sampleMain : LoadedFunction where
  module := sampleModule
  view :=
    { index := 0
      code := ⟨0, [.ldU64 2, .ldU64 1, .packClosure 0 ⟨1⟩, .callClosure 3, .pop, .ret]⟩
      parameters := []
      returns := []
      locals := []
      typeParameters := [] }
  isNative := false
  verified := fun _ => rfl

/-- A handle is resolved by its arity. -/
def sampleProgram : Program where
  resolve f idx :=
    match f.module.arity idx with
    | .ok ([_, _], [_]) => .ok sampleAdd
    | .ok ([_], []) => .ok sampleBump
    | _ => .error StatusCode.linkerError
  linked f idx callee parameters returns hresolve harity := by
    rw [harity] at hresolve
    split at hresolve
    · rename_i heq
      obtain ⟨rfl, rfl⟩ := Prod.mk.inj (Except.ok.inj heq)
      obtain rfl := Except.ok.inj hresolve
      exact ⟨rfl, rfl⟩
    · rename_i heq
      obtain ⟨rfl, rfl⟩ := Prod.mk.inj (Except.ok.inj heq)
      obtain rfl := Except.ok.inj hresolve
      exact ⟨rfl, rfl⟩
    · cases hresolve

/-- An instruction that computes `v`. -/
def sampleOutcome (v : Nat) : Outcome Nat where
  failure := none
  condition := true
  value := v
  values := []
  closure := none
  native _ := .success []
  write _ _ old := old

theorem sampleOutcome_typed (v : Nat) (f : LoadedFunction) {instr : Bytecode}
    (h : unpacks instr = false) : (sampleOutcome v).Typed f instr where
  fields _ _ hunpacks _ := by
    rw [h] at hunpacks
    cases hunpacks
  closure _ _ _ _ _ _ _ hclosure := by cases hclosure
  dispatch _ _ _ hnative := by cases hnative
  loadModule _ hnative := by cases hnative

/-- A step of code that takes no struct apart. -/
theorem sample_steps {v : Nat} {s s' : State Nat}
    (hplain : (s.frame.function.code.all fun instr => !unpacks instr) = true)
    (h : step sampleProgram (sampleOutcome v) s = .ok (.running s')) :
    Steps sampleProgram s s' := by
  refine ⟨sampleOutcome v, fun instr hinstr => sampleOutcome_typed v _ ?_, h⟩
  simpa using List.all_eq_true.mp hplain instr (List.mem_of_getElem? hinstr)

/-- Two numbers are on the stack, and the closure is built of the first. -/
def samplePacking : State Nat := ⟨[1, 2], ⟨sampleMain, 2, []⟩, []⟩

/-- The closure, whatever number stands for it, is on top of the second one. -/
def sampleCalling : State Nat := ⟨[77, 2], ⟨sampleMain, 3, []⟩, []⟩

theorem sample_packing :
    Relation.ReflTransGen (Steps sampleProgram) (enter sampleMain []) samplePacking := by
  have hfirst : Steps sampleProgram (enter sampleMain []) ⟨[2], ⟨sampleMain, 1, []⟩, []⟩ :=
    sample_steps (v := 2) rfl rfl
  have hsecond : Steps sampleProgram ⟨[2], ⟨sampleMain, 1, []⟩, []⟩ samplePacking :=
    sample_steps (v := 1) rfl rfl
  exact (Relation.ReflTransGen.single hfirst).tail hsecond

theorem sample_calling : Steps sampleProgram samplePacking sampleCalling :=
  sample_steps (v := 77) rfl rfl

/-- What is called is the sum, with its first argument. -/
def sampleClosureOutcome : Outcome Nat := { sampleOutcome 0 with
  closure := some ⟨sampleAdd, ⟨1⟩, [1], rfl⟩ }

theorem sampleClosureOutcome_typed {instr : Bytecode}
    (hinstr : sampleCalling.frame.function.code[sampleCalling.frame.pc]? = some instr) :
    sampleClosureOutcome.Typed sampleCalling.frame.function instr where
  fields _ _ hunpacks _ := by
    cases hinstr
    cases hunpacks
  closure sig args results abilities c hcall hsig hclosure := by
    cases hinstr
    cases hcall
    cases hsig
    cases hclosure
    exact ⟨rfl, rfl⟩
  dispatch _ _ _ hnative := by cases hnative
  loadModule _ hnative := by cases hnative

/-- In the sample, the closure is built of one argument, and its call enters the sum with two. -/
theorem verified_run_safe_sample :
    (∃ (c : Closure Nat) (stack : List Nat), c.function = sampleAdd ∧ c.mask = ⟨1⟩
      ∧ samplePacking.operandStack = c.captured.reverse ++ stack ∧ stack = [2])
    ∧ (∀ fault, step sampleProgram sampleClosureOutcome sampleCalling = .error fault →
        fault.isExcluded = false)
    ∧ step sampleProgram sampleClosureOutcome sampleCalling
        = .ok (.running ⟨[], ⟨sampleAdd, 0, [some 1, some 2]⟩, [⟨sampleMain, 3, []⟩]⟩) := by
  have hcode : sampleMain.isNative = false := rfl
  have hargs : ([] : List Nat).length = sampleMain.view.parameters.length := rfl
  have htyped : ∀ instr,
      samplePacking.frame.function.code[samplePacking.frame.pc]? = some instr →
      (sampleOutcome 0).Typed samplePacking.frame.function instr := by
    intro instr hinstr
    cases hinstr
    exact sampleOutcome_typed 0 _ rfl
  obtain ⟨c, stack, hfunction, hmask, hcaptured, hpopn⟩ :=
    (verified_run_safe hcode hargs sample_packing htyped).2.2.2 _ 0 ⟨1⟩ sampleAdd rfl rfl rfl
  refine ⟨⟨c, stack, hfunction, hmask, hcaptured, (Except.ok.inj hpopn).symm⟩, ?_, rfl⟩
  exact (verified_run_safe hcode hargs (sample_packing.tail sample_calling)
    fun instr => sampleClosureOutcome_typed).1

end Execution

end NexusMove
