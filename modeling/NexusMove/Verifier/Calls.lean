import NexusMove.Verifier.Soundness

/-!
# What a call does to its caller

The operand stack is shared by all frames. A verified callee works on its own part of it: what lies
below when it is entered is there in every state until it returns, and then lies below its results.

* `step_entered` — only a call adds a frame, and that begins at the first instruction.
* `call_returns` — from a call to its return.
-/

namespace NexusMove

namespace Execution

variable {Val : Type}

/-! ## New frames -/

/-- A frame that a step adds is at its first instruction, and the frame of the step is below it. -/
def NewFrame (s : State Val) (result : Except Fault (Config Val)) : Prop :=
  ∀ s', result = .ok (.running s') →
    s'.callStack.length ≤ s.callStack.length
      ∨ (s'.frame.pc = 0 ∧ List.Forall₂ Frame.Alike (s.frame :: s.callStack) s'.callStack)

section NewFrame

variable {s : State Val}

theorem newFrame_error (fault : Fault) : NewFrame s (.error fault) := by
  intro s' h
  cases h

theorem newFrame_bind {α : Type} {x : Except Fault α} {f : α → Except Fault (Config Val)}
    (h : ∀ v, NewFrame s (f v)) : NewFrame s (x >>= f) := by
  intro s' hs'
  obtain ⟨v, -, hv⟩ := Except.bind_eq_ok.mp hs'
  exact h v s' hv

/-- The call stack stays as high as it is. -/
theorem newFrame_same {s' : State Val} (h : s'.callStack.length = s.callStack.length) :
    NewFrame s (.ok (.running s')) := by
  intro s'' hs''
  cases hs''
  exact .inl (Nat.le_of_eq h)

/-- A call pushes the frame of the caller, which a native may have written to before. -/
theorem newFrame_setNewCallFrame {t : State Val} (hframe : s.frame.Alike t.frame)
    (hcalls : List.Forall₂ Frame.Alike s.callStack t.callStack) (f : LoadedFunction)
    (mask : ClosureMask) (captured stack : List Val) :
    NewFrame s (t.setNewCallFrame f mask captured stack) := by
  apply newFrame_bind
  rintro ⟨stack', locals⟩
  show NewFrame s (if t.callStack.length < callStackSizeLimit then
    .ok (.running ⟨stack', ⟨f, 0, locals⟩, t.frame :: t.callStack⟩) else .error .callStackOverflow)
  split
  · intro s' hs'
    cases hs'
    exact .inr ⟨rfl, .cons hframe hcalls⟩
  · exact newFrame_error _

theorem newFrame_call (o : Outcome Val) (f : LoadedFunction) (mask : ClosureMask)
    (captured stack : List Val) : NewFrame s (s.call o f mask captured stack) := by
  have hcalls := s.alike_written o.write
  unfold State.call State.callNative
  split
  · apply newFrame_bind
    intro stack'
    simp only
    split
    · split
      · exact newFrame_error _
      · exact newFrame_bind fun stack => newFrame_same hcalls.length_eq.symm
    · exact newFrame_error _
    · split
      · exact newFrame_error _
      · exact newFrame_bind fun stack =>
          newFrame_setNewCallFrame (Frame.alike_written _ _) hcalls _ _ _ _
    · exact newFrame_same hcalls.length_eq.symm
  · exact newFrame_setNewCallFrame (.refl _) (Frame.Alike.all_refl _) f mask captured stack

theorem newFrame_callHandle (program : Program) (o : Outcome Val) (idx : Nat) :
    NewFrame s (s.callHandle program o idx) :=
  newFrame_bind fun f => newFrame_bind fun _ => newFrame_call o f _ _ _

theorem newFrame_transfer (program : Program) (o : Outcome Val) (instr : Bytecode) :
    NewFrame s (transfer program o s instr) := by
  unfold transfer
  split
  · -- a return takes a frame away
    intro s' hs'
    unfold State.ret at hs'
    split at hs'
    · cases hs'
    · rename_i frame callStack hcallStack
      cases hs'
      refine .inl ?_
      rw [hcallStack, List.length_cons]
      exact Nat.le_succ _
  · refine newFrame_bind fun v => ?_
    generalize o.condition = jumps
    cases jumps <;> exact newFrame_same rfl
  · refine newFrame_bind fun v => ?_
    generalize o.condition = jumps
    cases jumps <;> exact newFrame_same rfl
  · exact newFrame_same rfl
  · exact newFrame_bind fun _ => newFrame_error _
  · exact newFrame_bind fun v => newFrame_bind fun stack => newFrame_same rfl
  · exact newFrame_bind fun v => newFrame_bind fun stack => newFrame_same rfl
  · exact newFrame_bind fun v => newFrame_bind fun locals => newFrame_same rfl
  · exact newFrame_bind fun v => newFrame_bind fun stack => newFrame_same rfl
  · exact newFrame_bind fun v => newFrame_bind fun stack => newFrame_same rfl
  · exact newFrame_callHandle program o _
  · exact newFrame_bind fun inst => newFrame_callHandle program o _
  · refine newFrame_bind fun v => ?_
    obtain ⟨v, stack⟩ := v
    simp only
    split
    · exact newFrame_error _
    · exact newFrame_bind fun _ => newFrame_call o _ _ _ _
  · exact newFrame_bind fun _ => newFrame_bind fun stack =>
      newFrame_bind fun stack' => newFrame_same rfl
  · exact newFrame_error _

/-- **Only a call adds a frame.** It begins at its first instruction, and its caller is below it. -/
theorem step_entered {program : Program} {s' : State Val} (h : Steps program s s')
    (hcalls : s.callStack.length < s'.callStack.length) :
    s'.frame.pc = 0 ∧ List.Forall₂ Frame.Alike (s.frame :: s.callStack) s'.callStack := by
  obtain ⟨o, -, hstep⟩ := h
  have hnew : NewFrame s (step program o s) := by
    unfold step
    split
    · exact newFrame_error _
    · split
      · exact newFrame_error _
      · split
        · refine newFrame_bind fun result => newFrame_bind fun stack =>
            newFrame_bind fun stack' => newFrame_same ?_
          show (s.wroteBy o _).callStack.length = s.callStack.length
          unfold State.wroteBy
          split
          · exact (s.alike_written o.write).length_eq.symm
          · rfl
        · exact newFrame_transfer program o _
  exact (hnew s' hstep).resolve_left (Nat.not_le.mpr hcalls)

end NewFrame

/-! ## From call to return -/

theorem heightAt_zero {config : VerifierConfig} {view : BinaryIndexedView} {fn : FunctionView}
    {height : Nat} (h : HeightAt config view fn 0 height) : height = 0 := by
  obtain ⟨id, b, pushes, hb, hfold⟩ := h
  rw [Nat.zero_sub] at hfold
  exact (Prod.mk.inj (Except.ok.inj hfold)).1.symm

section Calls

variable {program : Program} {s s₁ s₂ : State Val}

/-- The invariant from where the callee is entered: its callers and the stack below are the base. -/
theorem inv_of_call {f : LoadedFunction} (hcode : f.isNative = false) {args : List Val}
    (hargs : args.length = f.view.parameters.length)
    (hrun : Relation.ReflTransGen (Steps program) (enter f args) s) (hcall : Steps program s s₁)
    (hcalls : s.callStack.length < s₁.callStack.length) :
    Inv (s.frame :: s.callStack) s₁.operandStack s₁.frame.function.view.returns.length s₁ := by
  obtain ⟨own, rest, hstack, hready, -⟩ := inv_of_run hcode hargs (hrun.tail hcall)
  obtain ⟨hpc, hcallers⟩ := step_entered hcall hcalls
  have hzero : own.length = 0 := by
    have hheight := hready.heightAt
    rw [hpc] at hheight
    exact heightAt_zero hheight
  obtain rfl := List.length_eq_zero_iff.mp hzero
  exact ⟨[], s₁.operandStack, rfl, hready, .base s₁.callStack hcallers⟩

/-- **A call**, in any run of a verified function, from the step that adds a frame until the callee
returns. What is on the operand stack at its entry lies there, below whatever the callee does, and
its callers wait below it where they were, with values in the same locals (references may have been
written through). When it returns, its caller goes on after the call, with the results of the
callee on top of that stack. -/
theorem call_returns {f : LoadedFunction} (hcode : f.isNative = false) {args : List Val}
    (hargs : args.length = f.view.parameters.length)
    (hrun : Relation.ReflTransGen (Steps program) (enter f args) s) (hcall : Steps program s s₁)
    (hcalls : s.callStack.length < s₁.callStack.length)
    (hinside : Relation.ReflTransGen
      (fun x y => Steps program x y ∧ s.callStack.length < y.callStack.length) s₁ s₂) :
    s₁.operandStack <:+ s₂.operandStack
      ∧ (∃ above below, s₂.callStack = above ++ below
        ∧ List.Forall₂ Frame.Alike (s.frame :: s.callStack) below)
      ∧ ∀ s₃, Steps program s₂ s₃ → s₃.callStack.length ≤ s.callStack.length →
        List.Forall₂ Frame.Alike s.callStack s₃.callStack
          ∧ Frame.Alike { s.frame with pc := s.frame.pc + 1 } s₃.frame
          ∧ ∃ results, results.length = s₁.frame.function.view.returns.length
            ∧ s₃.operandStack = results ++ s₁.operandStack := by
  have hinv : Inv (s.frame :: s.callStack) s₁.operandStack
      s₁.frame.function.view.returns.length s₂ := by
    induction hinside with
    | refl => exact inv_of_call hcode hargs hrun hcall hcalls
    | tail _ hstep ih => exact inv_of_steps ih hstep.1 hstep.2
  refine ⟨?_, ?_, fun s₃ hstep hlength => ?_⟩
  · obtain ⟨own, rest, hstack, -, hstacked⟩ := hinv
    rw [hstack]
    exact hstacked.suffix.2.trans (List.suffix_append own rest)
  · obtain ⟨own, rest, -, -, hstacked⟩ := hinv
    exact hstacked.suffix.1
  · obtain ⟨o, htyped, hstep⟩ := hstep
    have hsafe : Safe _ _ _ (step program o s₂) := step_safe hinv htyped
    rw [hstep] at hsafe
    cases hsafe with
    | inside _ hinv' =>
      -- the callee would still be there
      obtain ⟨own, rest, -, -, hstacked⟩ := hinv'
      obtain ⟨⟨above, below, hcalls', hbase⟩, -⟩ := hstacked.suffix
      have hsame := hbase.length_eq
      rw [hcalls', List.length_append] at hlength
      rw [List.length_cons] at hsame
      omega
    | back results frame callers hbase hresults =>
      cases hbase with
      | cons hframe hcallers =>
        refine ⟨hcallers, ?_, results, hresults, rfl⟩
        show Frame.Alike { s.frame with pc := s.frame.pc + 1 } { frame with pc := frame.pc + 1 }
        rw [hframe.pc]
        exact hframe.withPc _

end Calls

/-! ### A call that writes -/

/-- Has its local written by a call. -/
def sampleLender : LoadedFunction where
  module := sampleModule
  view :=
    { index := 0
      code := ⟨0, [.ldU64 3, .stLoc 0, .mutBorrowLoc 0, .call 1, .ret]⟩
      parameters := []
      returns := []
      locals := [.u64]
      typeParameters := [] }
  isNative := false
  verified := fun _ => rfl

/-- The reference is on the stack. -/
def sampleLending : State Nat := ⟨[99], ⟨sampleLender, 3, [some 3]⟩, []⟩

/-- The callee has the reference and a number to write. -/
def sampleWriting : State Nat := ⟨[99, 5], ⟨sampleBump, 2, [none]⟩, [⟨sampleLender, 3, [some 3]⟩]⟩

/-- The number was written to the local of the caller. -/
def sampleWritten : State Nat := ⟨[], ⟨sampleBump, 3, [none]⟩, [⟨sampleLender, 3, [some 5]⟩]⟩

theorem sample_lending :
    Relation.ReflTransGen (Steps sampleProgram) (enter sampleLender []) sampleLending := by
  have hld : Steps sampleProgram (enter sampleLender []) ⟨[3], ⟨sampleLender, 1, [none]⟩, []⟩ :=
    sample_steps (v := 3) rfl rfl
  have hst : Steps sampleProgram ⟨[3], ⟨sampleLender, 1, [none]⟩, []⟩
      ⟨[], ⟨sampleLender, 2, [some 3]⟩, []⟩ := sample_steps (v := 0) rfl rfl
  have hborrow : Steps sampleProgram ⟨[], ⟨sampleLender, 2, [some 3]⟩, []⟩ sampleLending :=
    sample_steps (v := 99) rfl rfl
  exact ((Relation.ReflTransGen.single hld).tail hst).tail hborrow

theorem sample_writing : Steps sampleProgram sampleWriting sampleWritten := by
  refine ⟨{ sampleOutcome 0 with write := fun depth _ old => if depth = 1 then 5 else old },
    fun instr hinstr => ?_, rfl⟩
  cases hinstr
  exact
    { fields := fun _ _ hunpacks _ => by cases hunpacks
      closure := fun _ _ _ _ _ _ _ hclosure => by cases hclosure
      dispatch := fun _ _ _ hnative => by cases hnative
      loadModule := fun _ hnative => by cases hnative }

/-- The callee writes through the reference: when it returns, the local of its caller has another
value, and the caller goes on where it should. -/
theorem call_returns_sample :
    ∃ s₃ : State Nat, Steps sampleProgram sampleWritten s₃ ∧ s₃.frame.locals = [some 5]
      ∧ sampleLending.frame.locals = [some 3] ∧ s₃.frame.pc = 4
      ∧ ∃ results, results.length = 0 ∧ s₃.operandStack = results ++ [] := by
  have hcall : Steps sampleProgram sampleLending
      ⟨[], ⟨sampleBump, 0, [some 99]⟩, [⟨sampleLender, 3, [some 3]⟩]⟩ :=
    sample_steps (v := 0) rfl rfl
  have hld : Steps sampleProgram
      ⟨[], ⟨sampleBump, 0, [some 99]⟩, [⟨sampleLender, 3, [some 3]⟩]⟩
      ⟨[5], ⟨sampleBump, 1, [some 99]⟩, [⟨sampleLender, 3, [some 3]⟩]⟩ :=
    sample_steps (v := 5) rfl rfl
  have hmove : Steps sampleProgram
      ⟨[5], ⟨sampleBump, 1, [some 99]⟩, [⟨sampleLender, 3, [some 3]⟩]⟩ sampleWriting :=
    sample_steps (v := 0) rfl rfl
  have hret : Steps sampleProgram sampleWritten ⟨[], ⟨sampleLender, 4, [some 5]⟩, []⟩ :=
    sample_steps (v := 0) rfl rfl
  have hinside : Relation.ReflTransGen
      (fun x y => Steps sampleProgram x y ∧ 0 < y.callStack.length)
      ⟨[], ⟨sampleBump, 0, [some 99]⟩, [⟨sampleLender, 3, [some 3]⟩]⟩ sampleWritten :=
    ((Relation.ReflTransGen.single ⟨hld, Nat.one_pos⟩).tail ⟨hmove, Nat.one_pos⟩).tail
      ⟨sample_writing, Nat.one_pos⟩
  have hcode : sampleLender.isNative = false := rfl
  have hargs : ([] : List Nat).length = sampleLender.view.parameters.length := rfl
  obtain ⟨-, -, hreturn⟩ := call_returns hcode hargs sample_lending hcall Nat.one_pos hinside
  obtain ⟨-, hframe, hresults⟩ := hreturn _ hret (Nat.le_refl 0)
  exact ⟨_, hret, rfl, rfl, hframe.pc, hresults⟩

end Execution

end NexusMove
