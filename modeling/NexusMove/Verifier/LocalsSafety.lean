import NexusMove.Verifier.AbsInt

/-!
# Safety of locals

`locals_safety`: which locals have a value, at every instruction. A local that is moved, copied or
borrowed has to have one, and a local that is overwritten, or left behind by a return, may have one
only if its type has `drop`.

* `AbstractState`, `executeInner`, `LocalsSafety.verify` — the code.
* `localsSafety_domain`, `localsSafety_height` — the states are a domain of finite height.
* `Describes` — what a state says of locals.
-/

namespace NexusMove

/-! ## Abilities of signature tokens -/

namespace BinaryIndexedView

variable (view : BinaryIndexedView) (constraints : List AbilitySet)

/-- The abilities of a generic type; the lengths were checked before. -/
def polymorphicAbilities (declared : AbilitySet) (phantoms : List Bool) (args : List AbilitySet) :
    Except VerifierError AbilitySet :=
  match AbilitySet.polymorphicAbilities declared phantoms args with
  | some abilities => .ok abilities
  | none => .error ⟨StatusCode.verifierInvariantViolation, none,
      some ("the length of `declared_phantom_parameters` doesn't match "
        ++ "the length of `type_arguments`")⟩

mutual

/-- `abilities`, where type parameters have the abilities they are constrained to. -/
def abilities : SignatureToken → Except VerifierError AbilitySet
  | .bool | .u8 | .u16 | .u32 | .u64 | .u128 | .u256 | .address => .ok .primitives
  | .reference _ | .mutableReference _ => .ok .references
  | .signer => .ok .signer
  | .typeParameter idx =>
    match constraints[idx.toNat]? with
    | some abilities => .ok abilities
    | none => .error verifierPanicked
  | .vector ty => do polymorphicAbilities .vector [false] [← abilities ty]
  | .function _ _ abilities => .ok abilities
  | .struct idx => .ok (view.structHandleAt idx.toNat).abilities
  | .structInstantiation idx typeArgs => do
    let sh := view.structHandleAt idx.toNat
    polymorphicAbilities sh.abilities (sh.typeParameters.map StructTypeParameter.isPhantom)
      (← abilitiesList typeArgs)

def abilitiesList : List SignatureToken → Except VerifierError (List AbilitySet)
  | [] => .ok []
  | ty :: tys => do return (← abilities ty) :: (← abilitiesList tys)

end

end BinaryIndexedView

/-- What may be overwritten or left behind. -/
def AbilitySet.hasDrop (abilities : AbilitySet) : Bool := abilities.hasAbility .drop

/-! ## The abstract state -/

/-- Whether a local has a value. `maybeAvailable` is one that has a value on some paths only. -/
inductive LocalState where
  | unavailable
  | maybeAvailable
  | available
deriving DecidableEq

/-- What is known of each local, with the abilities of its type. -/
structure AbstractState where
  allLocalAbilities : List AbilitySet
  localStates : List LocalState

namespace AbstractState

/-- The parameters are there, the other locals are not. -/
def new (view : BinaryIndexedView) (fn : FunctionView) :
    Except VerifierError AbstractState := do
  let numArgs := fn.parameters.length
  let numLocals := numArgs + fn.locals.length
  let localStates := (List.range numLocals).map fun i =>
    if i < numArgs then LocalState.available else .unavailable
  let allLocalAbilities ← view.abilitiesList fn.typeParameters (fn.parameters ++ fn.locals)
  return { allLocalAbilities, localStates }

/-- A local of which something else is known now. -/
def setLocal (state : AbstractState) (idx : Nat) (l : LocalState) : AbstractState :=
  { state with localStates := state.localStates.set idx l }

/-- The state and the abilities of a local; the index of the source panics. -/
def localAt (state : AbstractState) (idx : Nat) :
    Except VerifierError (LocalState × AbilitySet) :=
  match state.localStates[idx]?, state.allLocalAbilities[idx]? with
  | some l, some abilities => .ok (l, abilities)
  | _, _ => .error verifierPanicked

end AbstractState

/-- Two paths that differ on a local leave it open. -/
def LocalState.join : LocalState → LocalState → LocalState
  | unavailable, unavailable => unavailable
  | available, available => available
  | _, _ => maybeAvailable

/-- `join`; states of different lengths fail an assertion. -/
def AbstractState.join (self state : AbstractState) :
    Except VerifierError (AbstractState × Bool) :=
  if self.localStates.length ≠ state.localStates.length
      ∨ self.allLocalAbilities.length ≠ state.allLocalAbilities.length then .error verifierPanicked
  else
    let joined := List.zipWith LocalState.join self.localStates state.localStates
    if joined = self.localStates then .ok (self, false)
    else .ok ({ self with localStates := joined }, true)

/-! ## The transfer functions -/

/-- Every local that may have a value has a type with `drop`. -/
def retCheck (offset : Nat) : List (LocalState × AbilitySet) → Except VerifierError Unit
  | [] => .ok ()
  | (l, abilities) :: locals =>
    if l ≠ .unavailable ∧ ¬ abilities.hasDrop then
      .error (.at StatusCode.unsafeRetUnusedValuesWithoutDrop offset)
    else retCheck offset locals

/-- The transfer function. Whatever is left in a local must be droppable. -/
def executeInner (state : AbstractState) (bytecode : Bytecode) (offset : Nat) :
    Except VerifierError AbstractState :=
  match bytecode with
  | .stLoc idx => do
    let (l, abilities) ← state.localAt idx
    -- what is overwritten has to be droppable
    if l ≠ .unavailable ∧ ¬ abilities.hasDrop then
      throw (.at StatusCode.stlocUnsafeToDestroyError offset)
    else return state.setLocal idx .available
  | .moveLoc idx => do
    let (l, _) ← state.localAt idx
    -- a local can be moved out only if every path has put something into it
    if l = .available then return state.setLocal idx .unavailable
    else throw (.at StatusCode.movelocUnavailableError offset)
  | .copyLoc idx => do
    let (l, _) ← state.localAt idx
    if l = .available then return state
    else throw (.at StatusCode.copylocUnavailableError offset)
  | .mutBorrowLoc idx | .immBorrowLoc idx => do
    let (l, _) ← state.localAt idx
    if l = .available then return state
    else throw (.at StatusCode.borrowlocUnavailableError offset)
  -- the frame drops its locals when it returns
  | .ret =>
    if state.localStates.length ≠ state.allLocalAbilities.length then .error verifierPanicked
    else do
      retCheck offset (state.localStates.zip state.allLocalAbilities)
      return state
  | _ => .ok state

def localsSafetyAnalysis : TransferFunctions AbstractState VerifierError where
  execute := executeInner
  join := AbstractState.join

/-- `locals_safety::verify`. -/
def LocalsSafety.verify (view : BinaryIndexedView) (fn : FunctionView) :
    Except VerifierError Unit := do
  let initialState ← AbstractState.new view fn
  localsSafetyAnalysis.analyzeFunction fn.code.code initialState.localStates.length initialState

/-! ## The domain -/

namespace LocalState

/-- What holds on more paths is less: `maybeAvailable` says nothing. -/
def le (a b : LocalState) : Prop := a = b ∨ b = maybeAvailable

theorem le_refl (a : LocalState) : a.le a := .inl rfl

theorem le_trans {a b c : LocalState} (h : a.le b) (h' : b.le c) : a.le c := by
  rcases h' with rfl | rfl
  · exact h
  · exact .inr rfl

theorem le_join_left (a b : LocalState) : a.le (a.join b) := by
  cases a <;> cases b <;> first | exact .inl rfl | exact .inr rfl

theorem le_join_right (a b : LocalState) : b.le (a.join b) := by
  cases a <;> cases b <;> first | exact .inl rfl | exact .inr rfl

/-- A local that changes at a join is open from then on. -/
theorem join_eq_maybeAvailable {a b : LocalState} (h : a.join b ≠ a) :
    a ≠ maybeAvailable ∧ a.join b = maybeAvailable := by
  cases a <;> cases b <;> first | exact absurd rfl h | exact ⟨by decide, rfl⟩

end LocalState

/-- The states of one function. -/
def AbstractState.Valid (abilities : List AbilitySet) (s : AbstractState) : Prop :=
  s.allLocalAbilities = abilities ∧ s.localStates.length = abilities.length

/-- The states of the same locals, one by one. -/
def AbstractState.le (s t : AbstractState) : Prop :=
  s.allLocalAbilities = t.allLocalAbilities
    ∧ List.Forall₂ LocalState.le s.localStates t.localStates

section Domain

/-- The join of two states is above both, local by local. -/
theorem forall₂_le_join : ∀ {a b : List LocalState}, a.length = b.length →
    List.Forall₂ LocalState.le a (List.zipWith LocalState.join a b)
      ∧ List.Forall₂ LocalState.le b (List.zipWith LocalState.join a b)
  | [], [], _ => ⟨.nil, .nil⟩
  | x :: _, y :: _, h =>
    let rest := forall₂_le_join (Nat.succ.inj h)
    ⟨.cons (LocalState.le_join_left x y) rest.1, .cons (LocalState.le_join_right x y) rest.2⟩

/-- A join that succeeds, and what the flag it gives says. -/
theorem AbstractState.join_eq_ok {s t u : AbstractState} {changed : Bool}
    (h : s.join t = .ok (u, changed)) :
    s.localStates.length = t.localStates.length
      ∧ u.allLocalAbilities = s.allLocalAbilities
      ∧ u.localStates = List.zipWith LocalState.join s.localStates t.localStates
      ∧ (changed = false → u = s)
      ∧ (changed = true → u.localStates ≠ s.localStates) := by
  unfold AbstractState.join at h
  split at h
  · cases h
  · rename_i hlengths
    rw [not_or, not_not, not_not] at hlengths
    simp only at h
    split at h
    · rename_i hsame
      cases h
      exact ⟨hlengths.1, rfl, hsame.symm, fun _ => rfl, fun hc => absurd hc Bool.false_ne_true⟩
    · rename_i hdiffer
      cases h
      exact ⟨hlengths.1, rfl, rfl, fun hc => absurd hc.symm Bool.false_ne_true, fun _ => hdiffer⟩

theorem AbstractState.setLocal_valid {abilities : List AbilitySet} {s : AbstractState}
    (h : s.Valid abilities) (idx : Nat) (l : LocalState) : (s.setLocal idx l).Valid abilities :=
  ⟨h.1, (List.length_set ..).trans h.2⟩

/-- What an accepted instruction does to the state, and what it has checked. -/
inductive Executed (s : AbstractState) : Bytecode → AbstractState → Prop where
  | stLoc (idx : Nat) (l : LocalState) (abilities : AbilitySet)
      (hlocal : s.localAt idx = .ok (l, abilities))
      (hdrop : l ≠ .unavailable → abilities.hasDrop = true) :
      Executed s (.stLoc idx) (s.setLocal idx .available)
  | moveLoc (idx : Nat) (abilities : AbilitySet)
      (hlocal : s.localAt idx = .ok (.available, abilities)) :
      Executed s (.moveLoc idx) (s.setLocal idx .unavailable)
  | copyLoc (idx : Nat) (abilities : AbilitySet)
      (hlocal : s.localAt idx = .ok (.available, abilities)) :
      Executed s (.copyLoc idx) s
  | mutBorrowLoc (idx : Nat) (abilities : AbilitySet)
      (hlocal : s.localAt idx = .ok (.available, abilities)) : Executed s (.mutBorrowLoc idx) s
  | immBorrowLoc (idx : Nat) (abilities : AbilitySet)
      (hlocal : s.localAt idx = .ok (.available, abilities)) : Executed s (.immBorrowLoc idx) s
  | ret (hdrop : ∀ e ∈ s.localStates.zip s.allLocalAbilities, e.1 ≠ .unavailable →
      e.2.hasDrop = true) : Executed s .ret s
  | other (bytecode : Bytecode) (hret : bytecode ≠ .ret)
      (hlocal : ∀ idx, bytecode ≠ .stLoc idx ∧ bytecode ≠ .moveLoc idx ∧ bytecode ≠ .copyLoc idx
        ∧ bytecode ≠ .mutBorrowLoc idx ∧ bytecode ≠ .immBorrowLoc idx) : Executed s bytecode s

/-- At a return, whatever may be left in a local can be dropped. -/
theorem retCheck_eq_ok {offset : Nat} {locals : List (LocalState × AbilitySet)}
    (h : retCheck offset locals = .ok ()) :
    ∀ e ∈ locals, e.1 ≠ .unavailable → e.2.hasDrop = true := by
  induction locals with
  | nil => exact fun e he => absurd he List.not_mem_nil
  | cons e locals ih =>
    unfold retCheck at h
    split at h
    · cases h
    · rename_i hok
      intro e' he' havailable
      rcases List.mem_cons.mp he' with rfl | he'
      · by_contra hnot
        exact hok ⟨havailable, hnot⟩
      · exact ih h e' he' havailable

/-- Inversion of the transfer function. -/
theorem executed_of_executeInner {s t : AbstractState} {bytecode : Bytecode} {offset : Nat}
    (h : executeInner s bytecode offset = .ok t) : Executed s bytecode t := by
  unfold executeInner at h
  split at h
  case h_1 idx =>
    obtain ⟨⟨l, abilities⟩, hlocal, h⟩ := Except.bind_eq_ok.mp h
    simp only at h
    split at h
    · cases h
    · rename_i hok
      cases h
      -- the two tests of the source, as one implication
      refine .stLoc idx l abilities hlocal fun hl => ?_
      by_contra hnot
      exact hok ⟨hl, hnot⟩
  case h_2 idx =>
    obtain ⟨⟨l, abilities⟩, hlocal, h⟩ := Except.bind_eq_ok.mp h
    simp only at h
    split at h
    · rename_i hl
      cases h
      exact .moveLoc idx abilities (hl ▸ hlocal)
    · cases h
  case h_3 idx =>
    obtain ⟨⟨l, abilities⟩, hlocal, h⟩ := Except.bind_eq_ok.mp h
    simp only at h
    split at h
    · rename_i hl
      cases h
      exact .copyLoc idx abilities (hl ▸ hlocal)
    · cases h
  case h_4 idx =>
    obtain ⟨⟨l, abilities⟩, hlocal, h⟩ := Except.bind_eq_ok.mp h
    simp only at h
    split at h
    · rename_i hl
      cases h
      exact .mutBorrowLoc idx abilities (hl ▸ hlocal)
    · cases h
  case h_5 idx =>
    obtain ⟨⟨l, abilities⟩, hlocal, h⟩ := Except.bind_eq_ok.mp h
    simp only at h
    split at h
    · rename_i hl
      cases h
      exact .immBorrowLoc idx abilities (hl ▸ hlocal)
    · cases h
  case h_6 =>
    split at h
    · cases h
    · obtain ⟨hret, h⟩ := Except.bind_unit_eq_ok.mp h
      cases h
      exact .ret (retCheck_eq_ok hret)
  -- no other instruction looks at the locals
  case h_7 hst hmove hcopy hmut himm hret =>
    cases h
    exact .other bytecode hret fun idx => ⟨hst idx, hmove idx, hcopy idx, hmut idx, himm idx⟩

variable (abilities : List AbilitySet)

/-- **The domain.** Its conditions hold for the states of one function. -/
theorem localsSafety_domain :
    AbstractDomain localsSafetyAnalysis (AbstractState.Valid abilities) AbstractState.le where
  refl s := ⟨rfl, List.forall₂_same.mpr fun l _ => l.le_refl⟩
  trans s t u hst htu := by
    refine ⟨hst.1.trans htu.1, ?_⟩
    have hrel := hst.2
    have hrel' := htu.2
    generalize s.localStates = a at hrel
    generalize t.localStates = b at hrel hrel'
    generalize u.localStates = c at hrel'
    induction hrel generalizing c with
    | nil =>
      cases hrel'
      exact .nil
    -- local by local, since the lists have one length
    | cons h _ ih =>
      cases hrel' with
      | cons h' hrest => exact .cons (LocalState.le_trans h h') (ih _ hrest)
  execute s instr offset t hs h := by
    cases executed_of_executeInner h with
    | stLoc => exact AbstractState.setLocal_valid hs _ _
    | moveLoc => exact AbstractState.setLocal_valid hs _ _
    | copyLoc => exact hs
    | mutBorrowLoc => exact hs
    | immBorrowLoc => exact hs
    | ret => exact hs
    | other => exact hs
  join s t u changed hs ht h := by
    obtain ⟨hlength, habilities, hstates, hsame, -⟩ := AbstractState.join_eq_ok h
    have hle := forall₂_le_join hlength
    refine ⟨⟨habilities.trans hs.1, ?_⟩, ⟨habilities.symm, ?_⟩, ⟨?_, ?_⟩, hsame⟩
    · -- the joined list is as long as both
      rw [hstates, List.length_zipWith, hlength, Nat.min_self, ← hlength]
      exact hs.2
    · rw [hstates]
      exact hle.1
    · rw [ht.1, habilities, hs.1]
    · rw [hstates]
      exact hle.2

/-- How many locals may be available only. -/
def AbstractState.rank (s : AbstractState) : Nat := s.localStates.count .maybeAvailable

/-- A join that changes something opens one more local. -/
theorem count_join : ∀ {a b : List LocalState}, a.length = b.length →
    a.count .maybeAvailable ≤ (List.zipWith LocalState.join a b).count .maybeAvailable
      ∧ (List.zipWith LocalState.join a b ≠ a →
        a.count .maybeAvailable < (List.zipWith LocalState.join a b).count .maybeAvailable)
  | [], [], _ => ⟨Nat.le_refl _, fun h => absurd rfl h⟩
  | x :: a, y :: b, h => by
    obtain ⟨hle, hlt⟩ := count_join (Nat.succ.inj h)
    rw [List.zipWith_cons_cons, List.count_cons, List.count_cons]
    -- a local that stays counts as it did
    by_cases hsame : x.join y = x
    · rw [hsame]
      refine ⟨by omega, fun hne => ?_⟩
      have hrest := hlt fun heq => hne (by rw [heq])
      omega
    · -- a local that changes was something else before
      obtain ⟨hx, hjoin⟩ := LocalState.join_eq_maybeAvailable hsame
      have hx' : (x == LocalState.maybeAvailable) = false := beq_false_of_ne hx
      rw [hjoin, hx']
      simp only [BEq.rfl, if_true, Bool.false_eq_true, if_false]
      refine ⟨by omega, fun _ => by omega⟩

/-- Each local can be opened once, so the chains are as long as the locals. -/
theorem localsSafety_height (code : List Bytecode) :
    Dataflow.Height (localsSafetyAnalysis.analysis code) (AbstractState.Valid abilities)
      AbstractState.rank abilities.length where
  le_height s hs := hs.2 ▸ List.count_le_length
  lt_join s t u hs ht h := by
    obtain ⟨hlength, -, hstates, -, hchanged⟩ := AbstractState.join_eq_ok h
    unfold AbstractState.rank
    rw [hstates]
    exact (count_join hlength).2 (hstates ▸ hchanged rfl)

end Domain

/-! ## Concrete locals -/

section Locals

variable {Val : Type}

/-- What an abstract local says of a concrete one. -/
def LocalState.Describes : LocalState → Option Val → Prop
  | unavailable, v => v = none
  | available, v => v.isSome = true
  | maybeAvailable, _ => True

/-- What a state says of locals, each of which has a value or has none. -/
def AbstractState.Describes (s : AbstractState) (locals : List (Option Val)) : Prop :=
  List.Forall₂ LocalState.Describes s.localStates locals

/-- Saying less is right as well. -/
theorem LocalState.Describes.mono {a b : LocalState} {v : Option Val} (h : a.Describes v)
    (hle : a.le b) : b.Describes v := by
  rcases hle with rfl | rfl
  · exact h
  · trivial

theorem forall₂_describes_mono {a b : List LocalState} {locals : List (Option Val)}
    (hle : List.Forall₂ LocalState.le a b) (h : List.Forall₂ LocalState.Describes a locals) :
    List.Forall₂ LocalState.Describes b locals := by
  induction hle generalizing locals with
  | nil => exact h
  | cons hab _ ih =>
    cases h with
    | cons hv hrest => exact .cons (hv.mono hab) (ih hrest)

/-- A state speaks of locals only as to which of them have a value. -/
theorem forall₂_describes_congr {a : List LocalState} {locals locals' : List (Option Val)}
    (h : List.Forall₂ LocalState.Describes a locals)
    (hsame : locals.map Option.isSome = locals'.map Option.isSome) :
    List.Forall₂ LocalState.Describes a locals' := by
  induction h generalizing locals' with
  | nil =>
    obtain rfl := List.map_eq_nil_iff.mp hsame.symm
    exact .nil
  | @cons l v _ _ hv _ ih =>
    obtain ⟨v', rest', rfl, hv', hrest'⟩ := List.map_eq_cons_iff.mp hsame.symm
    -- whether there is a value is all that is said of it
    refine .cons ?_ (ih hrest'.symm)
    cases l with
    | unavailable =>
      obtain rfl : v = none := hv
      exact Option.isNone_iff_eq_none.mp (by rw [← Option.not_isSome, hv']; rfl)
    | available =>
      show v'.isSome = true
      rw [hv']
      exact hv
    | maybeAvailable => trivial

namespace AbstractState.Describes

variable {s t : AbstractState} {locals : List (Option Val)}

theorem congr (h : s.Describes locals) {locals' : List (Option Val)}
    (hsame : locals.map Option.isSome = locals'.map Option.isSome) : s.Describes locals' :=
  forall₂_describes_congr h hsame

theorem mono (h : s.Describes locals) (hle : s.le t) : t.Describes locals :=
  forall₂_describes_mono hle.2 h

/-- What is said of one local. -/
theorem at_local (h : s.Describes locals) {idx : Nat} {l : LocalState} {abilities : AbilitySet}
    (hlocal : s.localAt idx = .ok (l, abilities)) :
    s.localStates[idx]? = some l ∧ s.allLocalAbilities[idx]? = some abilities
      ∧ ∃ v, locals[idx]? = some v ∧ l.Describes v := by
  unfold AbstractState.localAt at hlocal
  split at hlocal
  · rename_i l' abilities' hl habilities
    cases hlocal
    obtain ⟨hlength, hget⟩ := List.forall₂_iff_get.mp h
    obtain ⟨hidx, hl'⟩ := List.getElem?_eq_some_iff.mp hl
    have hv := hget idx hidx (hlength ▸ hidx)
    refine ⟨hl, habilities, _, List.getElem?_eq_getElem (hlength ▸ hidx), ?_⟩
    rw [← hl']
    exact hv
  · cases hlocal

/-- What is put into a local, and what is said of it. -/
theorem setLocal (h : s.Describes locals) (idx : Nat) {l : LocalState} {v : Option Val}
    (hv : l.Describes v) : (s.setLocal idx l).Describes (locals.set idx v) := by
  show List.Forall₂ LocalState.Describes (s.localStates.set idx l) (locals.set idx v)
  obtain ⟨hlength, hget⟩ := List.forall₂_iff_get.mp h
  refine List.forall₂_iff_get.mpr ⟨by simp [hlength], fun i hi hi' => ?_⟩
  simp only [List.get_eq_getElem, List.getElem_set]
  split
  · exact hv
  · exact hget i (by simpa using hi) (by simpa using hi')

end AbstractState.Describes

end Locals

end NexusMove
