import NexusMove.Lib.Except
import NexusMove.Package.Metadata
import NexusMove.Runtime.Gas

/-!
# Globally unique identifiers

The module `std::guid`. An account that creates identifiers has a generator, a
counter that goes up with every identifier created for the account; an identifier
is the count it was created at and the account. Only this module touches a
generator, and there is no function that removes one.

* `create_eq_ok`, `createWithCapability_eq_ok` — what is created, and the counter after it.
* `Generators.Grows` — no function lowers a counter.
-/

namespace NexusMove

/-- How a function of the standard library aborts: with a code of its own, or for a reason of the
VM. -/
inductive StdAbort where
  | code (code : UInt64)
  | arithmeticError
  | missingData
  | resourceAlreadyExists
deriving DecidableEq

namespace Guid

/-- The resource that counts what an account created. -/
structure Generator where
  counter : UInt64
deriving DecidableEq

/-- A non-privileged identifier. -/
structure ID where
  creationNum : UInt64
  addr : AccountAddress
deriving DecidableEq

structure GUID where
  id : ID
deriving DecidableEq

structure CreateCapability where
  addr : AccountAddress

/-- The generators in global storage. -/
abbrev Generators := AccountAddress → Option Generator

def eguidGeneratorNotPublished : UInt64 := 0

/-! ## Functions -/

/-- `move_to` of a new generator. -/
def moveTo (gs : Generators) (account : AccountAddress) : Except StdAbort Generators :=
  match gs account with
  | some _ => .error .resourceAlreadyExists
  | none => .ok (Function.update gs account (some { counter := 0 }))

def publishGenerator (gs : Generators) (account : AccountAddress) : Except StdAbort Generators :=
  moveTo gs account

/-- The generator of an account, published if it is not there yet. -/
def ensureGenerator (gs : Generators) (account : AccountAddress) : Except StdAbort Generators :=
  if (gs account).isSome then .ok gs else moveTo gs account

/-- `create_impl`: the number is used and counted up. -/
def createImpl (gs : Generators) (addr : AccountAddress) : Except StdAbort (GUID × Generators) :=
  match gs addr with
  | none => .error .missingData
  | some generator =>
    let creationNum := generator.counter
    -- the checked addition of the VM
    if creationNum = u64Max then .error .arithmeticError
    else .ok ({ id := { creationNum, addr } },
      Function.update gs addr (some { counter := creationNum + 1 }))

def create (gs : Generators) (account : AccountAddress) : Except StdAbort (GUID × Generators) := do
  createImpl (← ensureGenerator gs account) account

/-- The capability is asked for and not looked at: its address need not be the one given. -/
def createWithCapability (gs : Generators) (addr : AccountAddress) (_cap : CreateCapability) :
    Except StdAbort (GUID × Generators) :=
  if (gs addr).isSome then createImpl gs addr else .error (.code eguidGeneratorNotPublished)

def genCreateCapability (gs : Generators) (account : AccountAddress) :
    Except StdAbort (CreateCapability × Generators) := do
  return ({ addr := account }, ← ensureGenerator gs account)

/-! ## Serialization -/

def idCodec : Codec ID :=
  (u64Codec.pair addressCodec).iso (fun i => (i.creationNum, i.addr))
    (fun (creationNum, addr) => some { creationNum, addr }) fun _ => rfl

def guidCodec : Codec GUID := idCodec.iso GUID.id (fun id => some { id }) fun _ => rfl

def generatorCodec : Codec Generator :=
  u64Codec.iso Generator.counter (fun counter => some { counter }) fun _ => rfl

/-- `bcs::to_bytes` of an identifier, which always succeeds. -/
def GUID.toBcs (g : GUID) : Bytes := leBytes 8 g.id.creationNum.toNat ++ g.id.addr.intoBytes

theorem encode_guidCodec (g : GUID) : guidCodec.encode g = some g.toBcs := by
  have hu64 : u64Codec.encode g.id.creationNum = some (leBytes 8 g.id.creationNum.toNat) := by
    have hnum := g.id.creationNum.toNat_lt
    simpa [u64Codec, Codec.le] using hnum
  simp only [guidCodec, idCodec, Codec.encode_iso, Codec.encode_pair]
  exact ⟨_, hu64, _, rfl, rfl⟩

/-- The bytes of a GUID tell its account and its number. -/
theorem GUID.toBcs_injective : Function.Injective GUID.toBcs := by
  intro g g' h
  exact guidCodec.encode_injective (encode_guidCodec g) (h ▸ encode_guidCodec g')

/-! ## What the functions do -/

/-- The number the next identifier of an account gets, as `get_next_creation_num`. -/
def getNextCreationNum (gs : Generators) (addr : AccountAddress) : UInt64 :=
  match gs addr with
  | none => 0
  | some generator => generator.counter

/-- No generator disappears, and no counter goes down. -/
def Generators.Grows (gs gs' : Generators) : Prop :=
  ∀ a, (gs a).isSome = true →
    (gs' a).isSome = true ∧ getNextCreationNum gs a ≤ getNextCreationNum gs' a

section Spec

variable {gs gs' : Generators} {a : AccountAddress} {g : GUID}

theorem Generators.Grows.refl (gs : Generators) : gs.Grows gs :=
  fun _ h => ⟨h, UInt64.le_refl _⟩

theorem moveTo_eq_ok :
    moveTo gs a = .ok gs' ↔ gs a = none ∧ gs' = Function.update gs a (some { counter := 0 }) := by
  unfold moveTo
  cases gs a with
  | none => simp [eq_comm]
  | some generator => simp

/-- A new generator starts from zero, which is what counted before. -/
theorem next_of_moveTo (h : moveTo gs a = .ok gs') (b : AccountAddress) :
    getNextCreationNum gs' b = getNextCreationNum gs b := by
  obtain ⟨hnone, rfl⟩ := moveTo_eq_ok.mp h
  by_cases hb : b = a
  · subst hb
    simp [getNextCreationNum, hnone]
  · simp [getNextCreationNum, hb]

theorem grows_of_moveTo (h : moveTo gs a = .ok gs') : gs.Grows gs' := by
  intro b hb
  rw [next_of_moveTo h b]
  obtain ⟨hnone, rfl⟩ := moveTo_eq_ok.mp h
  refine ⟨?_, UInt64.le_refl _⟩
  have hne : b ≠ a := by
    rintro rfl
    simp [hnone] at hb
  rw [Function.update_of_ne hne]
  exact hb

/-- A generator that is published on the way changes no next number. -/
theorem ensureGenerator_spec (h : ensureGenerator gs a = .ok gs') :
    gs.Grows gs' ∧ ∀ b, getNextCreationNum gs' b = getNextCreationNum gs b := by
  unfold ensureGenerator at h
  split_ifs at h with hsome
  · obtain rfl := Except.ok.inj h
    exact ⟨.refl gs, fun _ => rfl⟩
  · exact ⟨grows_of_moveTo h, next_of_moveTo h⟩

/-- **Creation.** An identifier has the number its account was at, and moves the account on by one;
the counters of other accounts stay where they are. -/
theorem createImpl_eq_ok (h : createImpl gs a = .ok (g, gs')) :
    g.id = { creationNum := getNextCreationNum gs a, addr := a } ∧ gs.Grows gs'
      ∧ (gs' a).isSome = true
      ∧ (getNextCreationNum gs a).toNat + 1 = (getNextCreationNum gs' a).toNat := by
  unfold createImpl at h
  cases hgen : gs a with
  | none => simp [hgen] at h
  | some generator =>
    rw [hgen] at h
    dsimp only at h
    split_ifs at h with hmax
    obtain ⟨rfl, rfl⟩ := Prod.mk.inj (Except.ok.inj h)
    have hnext : getNextCreationNum gs a = generator.counter := by rw [getNextCreationNum, hgen]
    have hsucc := toNat_add_one_of_ne_max hmax
    refine ⟨by rw [hnext], ?_, by simp, ?_⟩
    · intro b hb
      by_cases hba : b = a
      · subst hba
        refine ⟨by simp, ?_⟩
        rw [hnext, UInt64.le_iff_toNat_le]
        simp only [getNextCreationNum, Function.update_self]
        omega
      · simp only [getNextCreationNum, Function.update_of_ne hba]
        exact ⟨hb, UInt64.le_refl _⟩
    · simp only [getNextCreationNum, hgen, Function.update_self]
      omega

/-- What a creation says of the generators, in terms of the identifier alone. -/
structure Created (gs gs' : Generators) (g : GUID) : Prop where
  number : g.id.creationNum = getNextCreationNum gs g.id.addr
  grows : gs.Grows gs'
  present : (gs' g.id.addr).isSome = true
  next : g.id.creationNum.toNat < (getNextCreationNum gs' g.id.addr).toNat

/-- The identifier has the next number of its account, and the counter goes past it. -/
theorem created_of_createImpl (h : createImpl gs a = .ok (g, gs')) : Created gs gs' g := by
  obtain ⟨hid, hgrows, hsome, hnext⟩ := createImpl_eq_ok h
  constructor
  · rw [hid]
  · exact hgrows
  · rw [hid]
    exact hsome
  · rw [hid]
    dsimp only
    omega

theorem created_of_create (h : create gs a = .ok (g, gs')) : Created gs gs' g := by
  obtain ⟨gs₁, hensure, hcreate⟩ := Except.bind_eq_ok.mp h
  obtain ⟨hgrows, hnext⟩ := ensureGenerator_spec hensure
  have hcreated := created_of_createImpl hcreate
  constructor
  · rw [hcreated.number, hnext]
  · intro b hb
    obtain ⟨hsome, hle⟩ := hgrows b hb
    obtain ⟨hsome', hle'⟩ := hcreated.grows b hsome
    exact ⟨hsome', UInt64.le_trans hle hle'⟩
  · exact hcreated.present
  · exact hcreated.next

theorem created_of_createWithCapability {cap : CreateCapability}
    (h : createWithCapability gs a cap = .ok (g, gs')) : Created gs gs' g := by
  unfold createWithCapability at h
  split_ifs at h with hsome
  exact created_of_createImpl h

theorem grows_of_genCreateCapability {cap : CreateCapability}
    (h : genCreateCapability gs a = .ok (cap, gs')) : gs.Grows gs' := by
  obtain ⟨gs₁, hensure, hret⟩ := Except.bind_eq_ok.mp h
  obtain ⟨-, rfl⟩ := Prod.mk.inj (Except.pure_eq_ok.mp hret)
  exact (ensureGenerator_spec hensure).1

end Spec

end Guid

end NexusMove
