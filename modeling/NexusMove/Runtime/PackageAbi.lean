import NexusMove.Runtime.Upgrade

/-!
# The ABI hash of a package

`compute_package_abi_hash` sorts the modules of a package by name before it hashes their
ABI hashes. Modules at different addresses may have one name. The sort is stable: it
leaves these in the order in which they came.

* `swap_orderedInsert` — what a stable sort makes of two values with one key.
* `package_orderFree_iff` — when the order of the modules does not matter.
* `tied_modules_are_ordered` — two modules called `a`, in either order.
-/

namespace NexusMove

section Ties

variable {α : Type} {r : α → α → Prop} [DecidableRel r]

/-- **Ties.** Two values that no comparison tells apart are inserted next to each other, at one
place, the later one in front. -/
theorem swap_orderedInsert {a b : α} (hab : r a b) (hba : r b a) (htie : ∀ x, r a x ↔ r b x)
    (xs : List α) : ∃ pre post,
      (xs.orderedInsert r b).orderedInsert r a = pre ++ a :: b :: post
      ∧ (xs.orderedInsert r a).orderedInsert r b = pre ++ b :: a :: post := by
  induction xs with
  | nil => exact ⟨[], [], by simp [hab], by simp [hba]⟩
  | cons x xs ih =>
    by_cases hx : r a x
    · exact ⟨[], x :: xs, by simp [(htie x).mp hx, hab], by simp [hx, hba]⟩
    · have hx' : ¬ r b x := fun h => hx ((htie x).mpr h)
      obtain ⟨pre, post, hfirst, hsecond⟩ := ih
      exact ⟨x :: pre, post, by simp [hx, hx', hfirst], by simp [hx, hx', hsecond]⟩

end Ties

section Order

variable (blake3 : Bytes → HashValue)

/-- The package hash is the same for every order of the modules. -/
def OrderFree (modules : List CompiledModule) : Prop :=
  ∀ permuted : List CompiledModule, permuted.Perm modules →
    computePackageAbiHash blake3 permuted = computePackageAbiHash blake3 modules

/-- Modules of one name, at whatever addresses, have one ABI hash. -/
def TiesAgree (modules : List CompiledModule) : Prop :=
  ∀ m ∈ modules, ∀ m' ∈ modules, m.selfId.name = m'.selfId.name →
    computeModuleAbiHash blake3 m = computeModuleAbiHash blake3 m'

/-- No two orders of the modules have preimages that collide. -/
def OrdersApart (modules : List CompiledModule) : Prop :=
  ∀ ms ms' : List CompiledModule, ms.Perm modules → ms'.Perm modules →
    blake3 (packageAbiPreimage blake3 ms) = blake3 (packageAbiPreimage blake3 ms') →
    packageAbiPreimage blake3 ms = packageAbiPreimage blake3 ms'

variable {blake3} {modules : List CompiledModule}

theorem TiesAgree.packageEntries_eq (h : TiesAgree blake3 modules) {permuted : List CompiledModule}
    (hperm : permuted.Perm modules) :
    packageEntries blake3 permuted = packageEntries blake3 modules := by
  refine sortByName_eq_of_perm (hperm.map _) ?_
  intro e he e' he' hname
  obtain ⟨m, hm, rfl⟩ := List.mem_map.mp he
  obtain ⟨m', hm', rfl⟩ := List.mem_map.mp he'
  have hhash := h m (hperm.mem_iff.mp hm) m' (hperm.mem_iff.mp hm') hname
  exact PackageEntry.ext hname hhash

/-- Where ties agree, the order does not matter, whatever the hash function. -/
theorem TiesAgree.orderFree (h : TiesAgree blake3 modules) : OrderFree blake3 modules := by
  intro permuted hperm
  rw [computePackageAbiHash, computePackageAbiHash, packageAbiPreimage, packageAbiPreimage,
    h.packageEntries_eq hperm, hperm.isEmpty_eq]

/-- Two entries of one name that may change places have one hash. -/
theorem hash_eq_of_swapped {e e' : PackageEntry} (hname : e.name = e'.name) {pre post : Bytes}
    (h : pre ++ (e.toBytes ++ (e'.toBytes ++ post)) = pre ++ (e'.toBytes ++ (e.toBytes ++ post))) :
    e.hash = e'.hash := by
  simp only [PackageEntry.toBytes, hname, List.append_assoc] at h
  have hrest := List.append_cancel_left (List.append_cancel_left h)
  obtain ⟨hhash, -⟩ := List.append_inj hrest (by simp)
  exact FixedBytes.ext hhash

/-- Swapping two modules of one name in front of a package swaps two neighbours in what is hashed. -/
theorem packageEntries_swap (blake3 : Bytes → HashValue) {m m' : CompiledModule}
    (hname : m.selfId.name = m'.selfId.name)
    (rest : List CompiledModule) : ∃ pre post,
      packageEntries blake3 (m :: m' :: rest)
        = pre ++ packageEntry blake3 m :: packageEntry blake3 m' :: post
      ∧ packageEntries blake3 (m' :: m :: rest)
        = pre ++ packageEntry blake3 m' :: packageEntry blake3 m :: post := by
  have hle : ∀ n n' : Identifier, n = n' → nameLe n n' := fun n _ h => h ▸ List.le_refl n.asBytes
  refine swap_orderedInsert (r := fun a b => nameLe (PackageEntry.name a) (PackageEntry.name b))
    ?_ ?_
    ?_ (packageEntries blake3 rest)
  · exact hle _ _ hname
  · exact hle _ _ hname.symm
  · intro e
    show nameLe m.selfId.name e.name ↔ nameLe m'.selfId.name e.name
    rw [hname]

theorem exists_perm_cons {a : CompiledModule} {as : List CompiledModule} (h : a ∈ as) :
    ∃ rest, (a :: rest).Perm as := by
  obtain ⟨pre, post, rfl⟩ := List.append_of_mem h
  exact ⟨pre ++ post, List.perm_middle.symm⟩

theorem OrderFree.tiesAgree (h : OrderFree blake3 modules) (hapart : OrdersApart blake3 modules) :
    TiesAgree blake3 modules := by
  intro m hm m' hm' hname
  by_cases heq : m = m'
  · rw [heq]
  · -- the two modules in front, in either order
    obtain ⟨others, hperm⟩ := exists_perm_cons hm
    have hm' : m' ∈ others := by
      have hmem := List.mem_cons.mp (hperm.mem_iff.mpr hm')
      exact hmem.resolve_left (Ne.symm heq)
    obtain ⟨rest, hrest⟩ := exists_perm_cons hm'
    have hfront : (m :: m' :: rest).Perm modules := (hrest.cons m).trans hperm
    have hswapped : (m' :: m :: rest).Perm modules := (List.Perm.swap m m' rest).trans hfront
    have hhash : computePackageAbiHash blake3 (m :: m' :: rest)
        = computePackageAbiHash blake3 (m' :: m :: rest) := (h _ hfront).trans (h _ hswapped).symm
    have hpreimage := hapart _ _ hfront hswapped hhash
    -- what is hashed differs in the two neighbours only
    obtain ⟨pre, post, hentries, hentries'⟩ := packageEntries_swap blake3 hname rest
    simp only [packageAbiPreimage, hentries, hentries', List.flatMap_append, List.flatMap_cons,
      List.length_append, List.length_cons, List.append_assoc] at hpreimage
    have hentries := List.append_cancel_left (List.append_cancel_left hpreimage)
    have hnames : (packageEntry blake3 m).name = (packageEntry blake3 m').name := hname
    exact hash_eq_of_swapped hnames hentries

end Order

/-- **Module order.** For a package whose orders do not collide, the hash does not depend on the order
of the modules if and only if modules of one name have one ABI hash. -/
theorem package_orderFree_iff {blake3 : Bytes → HashValue} {modules : List CompiledModule}
    (hapart : OrdersApart blake3 modules) :
    OrderFree blake3 modules ↔ TiesAgree blake3 modules :=
  ⟨fun h => h.tiesAgree hapart, fun h => h.orderFree⟩

theorem tiesAgree_ab : TiesAgree upgradeVendor.blake3 [sampleA, sampleB] := by
  intro m hm m' hm' hname
  rcases List.mem_pair.mp hm with rfl | rfl
  · rcases List.mem_pair.mp hm' with rfl | rfl
    · rfl
    · exact absurd hname (by decide)
  · rcases List.mem_pair.mp hm' with rfl | rfl
    · exact absurd hname (by decide)
    · rfl

theorem package_orderFree_iff_ab : OrderFree upgradeVendor.blake3 [sampleA, sampleB] := by
  refine (package_orderFree_iff fun ms ms' h h' _ => ?_).mpr tiesAgree_ab
  rw [packageAbiPreimage, packageAbiPreimage, tiesAgree_ab.packageEntries_eq h,
    tiesAgree_ab.packageEntries_eq h']

/-! ### Two modules of one name

`sampleA` is `0xCAFE::a`, with a public function; `otherA` is `0xBEEF::a`, with none. -/

def otherA : CompiledModule := { sampleA2 with addressIdentifiers := [otherAddress] }

/-- The digests of the package in the two orders, and of the ABI preimages of the two modules. -/
def packageDigests : List (Bytes × HashValue) :=
  [ (packageAbiPreimage sampleVendor.blake3 [sampleA, otherA],
      ⟨[56, 135, 48, 148, 180, 173, 117, 33, 244, 21, 218, 134, 82, 17, 11, 55, 128, 46, 154, 73, 22,
        36, 122, 106, 82, 184, 153, 174, 216, 107, 212, 158], rfl⟩),
    (packageAbiPreimage sampleVendor.blake3 [otherA, sampleA],
      ⟨[97, 129, 78, 157, 160, 223, 28, 171, 180, 169, 86, 177, 41, 41, 253, 179, 4, 123, 130, 150, 40,
        220, 222, 19, 154, 198, 97, 144, 20, 52, 168, 12], rfl⟩) ] ++ sampleDigests

/-- Swapping the two modules changes the hash of the package. -/
theorem tied_modules_are_ordered :
    ¬ OrderFree (Vendor.ofTables [] packageDigests []).blake3 [sampleA, otherA] := by
  intro h
  have hhash := h [otherA, sampleA] (List.Perm.swap sampleA otherA [])
  exact absurd hhash (by decide +kernel)

end NexusMove
