import NexusMove.Runtime.Signers

/-!
# Values from the outside

The caller's arguments are read at the layouts of the parameters, and a layout
does not say which struct it belongs to. So for a parameter whose type is a
struct without the `copy` ability, or vectors of one, the caller's bytes become
values that no code of the struct's module has made. Only a nest of vectors
without any innermost element carries none.

* `NoFabrication` — no argument of the caller's holds a value of such a struct.
* `skipEmptyNest_eq` — reading an empty nest, against reading a value.
* `noFabrication_iff` — when nothing is fabricated.
-/

namespace NexusMove

/-! ## Types whose values only their module can make -/

/-- A struct type without the `copy` ability. -/
def Ty.isResource (ty : Ty) : Bool :=
  match ty with
  | .struct _ _ | .structInstantiation _ _ _ =>
    match ty.abilities with
    | .ok a => !a.hasAbility .copy
    | .error _ => true
  | _ => false

/-- The value, read at the type, is of a struct without `copy`, or is a vector that contains one,
at any depth. -/
def holdsResource : Ty → Value → Bool
  | .vector elem, .vector vs => vs.any (holdsResource elem)
  | ty, _ => ty.isResource

def Ty.vectorCore : Ty → Ty
  | .vector elem => elem.vectorCore
  | ty => ty

def Ty.vectorDepth : Ty → Nat
  | .vector elem => elem.vectorDepth + 1
  | _ => 0

/-! ## Empty nests -/

def skipTimes (skip : Bytes → Option Bytes) : Nat → Bytes → Option Bytes
  | 0, bs => some bs
  | n + 1, bs => (skip bs).bind (skipTimes skip n)

/-- Skip vectors nested `depth` deep that have no element at the bottom. -/
def skipEmptyNest : Nat → Bytes → Option Bytes
  | 0, _ => none
  | depth + 1, bs => do
    let (n, rest) ← (Codec.uleb32 maxSequenceLength).decode bs
    skipTimes (skipEmptyNest depth) n rest

section Nests

variable {v : Vendor} {state : NexusStateView}

theorem layout_vector {levels count count' : Nat} {elem : Ty} {layout : Layout}
    (h : typeToTypeLayoutImpl v state levels (.vector elem) count = .ok (layout, count')) :
    ∃ l levels', layout = .vector l
      ∧ typeToTypeLayoutImpl v state levels' elem (count + 1) = .ok (l, count') := by
  cases levels with
  | zero =>
    obtain ⟨-, h⟩ := Except.bind_unit_eq_ok.mp h
    simp at h
  | succ levels =>
    obtain ⟨-, h⟩ := Except.bind_unit_eq_ok.mp h
    obtain ⟨⟨l, c⟩, hl, h⟩ := Except.bind_eq_ok.mp h
    obtain ⟨rfl, rfl⟩ : Layout.vector l = layout ∧ c = count' := by simpa using h
    exact ⟨l, levels, rfl, hl⟩

theorem decode_vectorCodec {c : Codec Value} {bs : Bytes} {x : Value} {rest : Bytes}
    (h : (Value.vectorCodec c).decode bs = some (x, rest)) :
    ∃ n r vs, (Codec.uleb32 maxSequenceLength).decode bs = some (n, r)
      ∧ c.decodeN n r = some (vs, rest) ∧ x = .vector vs := by
  obtain ⟨vs, hvs, rfl⟩ := Codec.decode_prism.mp h
  obtain ⟨⟨n, r⟩, hn, hvs⟩ := Option.bind_eq_some_iff.mp hvs
  exact ⟨n, r, vs, hn, hvs, rfl⟩

/-- Skipping the elements of a vector one by one, if each is skipped as `skip` says. -/
theorem skipTimes_eq {c : Codec Value} {skip : Bytes → Option Bytes} {p : Value → Bool}
    (hskip : ∀ bs x rest, c.decode bs = some (x, rest) →
      skip bs = if p x then none else some rest)
    {n : Nat} {bs : Bytes} {vs : List Value} {rest : Bytes}
    (h : c.decodeN n bs = some (vs, rest)) :
    skipTimes skip n bs = if vs.any p then none else some rest := by
  -- element by element: the first that carries something stops the skipping
  induction n generalizing bs vs with
  | zero =>
    obtain ⟨rfl, rfl⟩ : [] = vs ∧ bs = rest := by simpa [Codec.decodeN] using h
    rfl
  | succ n ih =>
    obtain ⟨⟨x, r⟩, hx, h⟩ := Option.bind_eq_some_iff.mp h
    obtain ⟨⟨xs, r'⟩, hxs, h⟩ := Option.bind_eq_some_iff.mp h
    obtain ⟨rfl, rfl⟩ : x :: xs = vs ∧ r' = rest := by simpa using h
    rw [skipTimes, hskip bs x r hx, List.any_cons]
    cases hp : p x with
    | true => rfl
    | false => simpa using ih hxs

/-- **Empty nests.** Bytes that are read as a value of a type over a resource are skipped as an
empty nest exactly if the value holds no resource. -/
theorem skipEmptyNest_eq {ty : Ty} (hcore : ty.vectorCore.isResource = true)
    {levels count count' : Nat}
    {layout : Layout} (hlayout : typeToTypeLayoutImpl v state levels ty count = .ok (layout, count'))
    {closures : Layout → Codec Bytes} {bs : Bytes} {x : Value} {rest : Bytes}
    (h : (valueCodec closures layout).decode bs = some (x, rest)) :
    skipEmptyNest ty.vectorDepth bs = if holdsResource ty x then none else some rest := by
  induction ty using Ty.vectorCore.induct generalizing levels count count' layout bs x rest with
  | case1 elem ih =>
    obtain ⟨l, levels', rfl, hl⟩ := layout_vector hlayout
    obtain ⟨n, r, vs, hn, hvs, rfl⟩ := decode_vectorCodec h
    rw [Ty.vectorDepth, skipEmptyNest, hn, holdsResource]
    exact skipTimes_eq (fun bs x rest hx => ih hcore hl hx) hvs
  | case2 ty hnot =>
    -- no vector is left, and a resource is there instead of its absence
    have hholds : holdsResource ty x = true ∧ ty.vectorDepth = 0 := by
      cases ty with
      | vector elem => exact absurd rfl (hnot elem)
      | _ => exact ⟨hcore, rfl⟩
    rw [hholds.1, hholds.2]
    rfl

theorem holdsResource_of_core {ty : Ty} (hcore : ty.vectorCore.isResource = false) (x : Value) :
    holdsResource ty x = false := by
  induction ty using Ty.vectorCore.induct generalizing x with
  | case1 elem ih =>
    cases x with
    | vector vs =>
      rw [holdsResource, List.any_eq_false]
      intro y _
      rw [ih hcore y]
      decide
    | _ => rfl
  | case2 ty hnot =>
    cases ty with
    | vector elem => exact absurd rfl (hnot elem)
    | _ => exact hcore

end Nests

/-! ## Fabrication -/

section Fabrication

variable (v : Vendor) (schedule : GasSchedule) (σ : Store) (inv : Invocation)

/-- If the invocation starts, none of the caller's arguments is turned into a value of a struct
without `copy`, a reference to one, or vectors that contain one. -/
def NoFabrication : Prop :=
  ∀ start, startInvocation v schedule σ.view inv = some start →
    ∀ (i : Nat) ty a, start.paramTys[i + 1]? = some ty → start.args[i + 1]? = some a →
      holdsResource ty.argTy a.value = false

/-- If the invocation starts, each of the caller's arguments for a parameter over a struct without
`copy` is an empty nest of vectors; so none is for the bare struct or a reference to it. -/
def ResourceArgsEmpty : Prop :=
  ∀ start, startInvocation v schedule σ.view inv = some start →
    ∀ (i : Nat) ty bytes, start.paramTys[i + 1]? = some ty → inv.args[i]? = some bytes →
      ty.argTy.vectorCore.isResource = true → skipEmptyNest ty.argTy.vectorDepth bytes = some []

variable {v schedule σ inv}

/-- What an argument over a resource holds is told by its bytes. -/
theorem skipEmptyNest_of_deserializeArg {state : NexusStateView} {ty : Ty} {bytes : Bytes}
    {value : Value} (hcore : ty.vectorCore.isResource = true)
    (h : deserializeArg v state ty bytes = .ok value) :
    skipEmptyNest ty.vectorDepth bytes = if holdsResource ty value then none else some [] := by
  obtain ⟨layout, hlayout, hvalue⟩ := deserializeArg_eq_ok.mp h
  obtain ⟨⟨l, count'⟩, himpl, hl⟩ := Except.bind_eq_ok.mp hlayout
  obtain rfl : l = layout := by simpa using hl
  exact skipEmptyNest_eq hcore himpl (Codec.fromBytes_eq_some.mp hvalue)

/-- **When nothing is fabricated.** In a call or a script, no argument of the caller's becomes a
value of a struct without `copy` if and only if the invocation does not start, or the caller's
argument for every parameter over such a struct is an empty nest of vectors. -/
theorem noFabrication_iff (v : Vendor) (schedule : GasSchedule) (σ : Store) (inv : Invocation) :
    NoFabrication v schedule σ inv ↔ ResourceArgsEmpty v schedule σ inv := by
  constructor
  · intro h start hstart i ty bytes hty hbytes hcore
    have hfull : inv.fullArgs[i + 1]? = some bytes := hbytes
    obtain ⟨a, ha⟩ := exists_arg_of_start hstart hfull
    rw [skipEmptyNest_of_deserializeArg hcore (deserializeArg_of_start hstart hty hfull ha),
      h start hstart i ty a hty ha]
    rfl
  · intro h start hstart i ty a hty ha
    cases hcore : ty.argTy.vectorCore.isResource with
    | false => exact holdsResource_of_core hcore _
    | true =>
      -- bytes that are skipped as an empty nest are not read as a value that holds a resource
      obtain ⟨bytes, hbytes⟩ := exists_bytes_of_start hstart ha
      have hempty := h start hstart i ty bytes hty hbytes hcore
      rw [skipEmptyNest_of_deserializeArg hcore (deserializeArg_of_start hstart hty hbytes ha)]
        at hempty
      by_contra hholds
      rw [if_pos (by simpa using hholds)] at hempty
      cases hempty

end Fabrication

/-! ## A coin

`sampleK` is a module `0xCAFE::k` with `struct Coin has store { value: u64 }` and a function
`public entry fun burn(account: &signer, coin: Coin)`. -/

def sampleK : CompiledModule where
  selfModuleHandleIdx := 0
  moduleHandles := [{ address := 0, name := 0 }]
  structHandles := [{ module := 0, name := 1, abilities := Ability.store.toSet, typeParameters := [] }]
  functionHandles := [{ module := 0, name := 2, parameters := 0, returns := 1, typeParameters := [] }]
  signatures := [[.reference .signer, .struct 0], []]
  identifiers := [⟨"k"⟩, ⟨"Coin"⟩, ⟨"burn"⟩, ⟨"value"⟩]
  addressIdentifiers := [sampleAddress]
  structDefs := [{ structHandle := 0, fieldInformation := .declared [{ name := 3, signature := .u64 }] }]
  functionDefs := [{ function := 0, visibility := .pub, isEntry := true }]
  otherTables := [4, 0, 1, 4, 11, 1, 19, 0, 1, 2]

def sampleKBytes : Bytes :=
  [161, 28, 235, 11, 6, 0, 0, 0, 8, 1, 0, 2, 2, 2, 4, 3, 6, 5, 5, 11, 6, 7, 17, 18, 8, 35, 32,
   10, 67, 5, 12, 72, 12, 0, 0, 0, 1, 4, 0, 0, 2, 0, 1, 0, 2, 6, 12, 8, 0, 0, 1, 107, 4, 67,
   111, 105, 110, 4, 98, 117, 114, 110, 5, 118, 97, 108, 117, 101, 0, 0, 0, 0, 0, 0, 0, 0, 0, 0,
   0, 0, 0, 0, 0, 0, 0, 0, 0, 0, 0, 0, 0, 0, 0, 0, 0, 0, 0, 0, 202, 254, 0, 2, 1, 3, 3, 0, 1, 4,
   0, 1, 4, 11, 1, 19, 0, 1, 2, 0]

def callBurn : FunctionCall where
  sender := otherAddress
  contract := sampleAddress
  function := "k::burn"
  typeArgs := []
  args := [[100, 0, 0, 0, 0, 0, 0, 0]]
  gasLimit := 1000000

/-- The call starts `burn` with a coin that no code of `0xCAFE::k` has made. -/
theorem coin_is_fabricated :
    ¬ NoFabrication (.ofTables [(sampleKBytes, sampleK)] [] []) sampleSchedule
      (sampleStore "k" sampleKBytes) (.call callBurn) := by
  intro h
  have hrun : (startInvocation (.ofTables [(sampleKBytes, sampleK)] [] []) sampleSchedule
      (sampleStore "k" sampleKBytes).view (.call callBurn)).map (fun start =>
        (start.paramTys[1]?.map fun ty => ty.argTy.vectorCore.isResource,
          start.paramTys[1]?.map fun ty => ty.argTy.vectorDepth))
      = some (some true, some 0) := by
    decide +kernel
  obtain ⟨start, hstart, hvalues⟩ := Option.map_eq_some_iff.mp hrun
  obtain ⟨hcore, hdepth⟩ := Prod.mk.inj hvalues
  obtain ⟨ty, hty, hcore⟩ := Option.map_eq_some_iff.mp hcore
  have hdepth : ty.argTy.vectorDepth = 0 := by simpa [hty] using hdepth
  have hbytes : (Invocation.call callBurn).fullArgs[1]? = some [100, 0, 0, 0, 0, 0, 0, 0] := rfl
  obtain ⟨a, ha⟩ := exists_arg_of_start hstart hbytes
  have hskip := skipEmptyNest_of_deserializeArg hcore (deserializeArg_of_start hstart hty rfl ha)
  rw [hdepth, h start hstart 0 ty a hty ha] at hskip
  cases hskip

end NexusMove
