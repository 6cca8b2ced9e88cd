import NexusMove.Lib.Codec
import NexusMove.Lib.Utf8

/-!
# Canonical codecs

A codec is canonical if its reader accepts nothing but what its writer writes. No
value then has two representations, and what is read and written again are the
same bytes.

* `Codec.Canonical` — the property, and that each combinator keeps it.
* `Codec.Canonical.encode_of_fromBytes` — reading a whole input and writing it again.
* `Codec.decodeN_of_mem` — each element of a sequence was read somewhere.
-/

namespace Codec

variable {α β : Type} {c : Codec α} {d : Codec β}

/-- What is read is what would be written. -/
structure Canonical (c : Codec α) : Prop where
  written : ∀ {bs a rest}, c.decode bs = some (a, rest) → ∃ x, c.encode a = some x ∧ x ++ rest = bs

/-- **Reading back what was written by whoever.** -/
theorem Canonical.encode_of_fromBytes (hc : c.Canonical) {bs : Bytes} {a : α}
    (h : c.fromBytes bs = some a) : c.encode a = some bs := by
  obtain ⟨x, hx, hrest⟩ := hc.written (fromBytes_eq_some.mp h)
  rw [List.append_nil] at hrest
  rw [hx, hrest]

/-! ## Atoms -/

theorem canonical_byte : byte.Canonical := by
  refine ⟨fun {bs b rest} h => ?_⟩
  cases bs with
  | nil => cases h
  | cons b' bs =>
    obtain ⟨rfl, rfl⟩ := Prod.mk.inj (Option.some.inj h)
    exact ⟨[b'], rfl, rfl⟩

theorem canonical_fixed (n : Nat) : (fixed n).Canonical := by
  refine ⟨fun {bs x rest} h => ?_⟩
  obtain ⟨hx, rfl⟩ := decode_fixed h
  exact ⟨x.toBytes, rfl, by rw [hx, List.take_append_drop]⟩

theorem canonical_bool : bool.Canonical := by
  refine ⟨fun {bs b rest} h => ?_⟩
  cases bs with
  | nil => cases h
  | cons b' bs =>
    simp only [bool] at h
    split at h
    · obtain ⟨rfl, rfl⟩ := Prod.mk.inj (Option.some.inj h)
      rename_i hb
      exact ⟨[0], rfl, by rw [hb]; rfl⟩
    · split at h
      · obtain ⟨rfl, rfl⟩ := Prod.mk.inj (Option.some.inj h)
        rename_i hb
        exact ⟨[1], rfl, by rw [hb]; rfl⟩
      · cases h

/-- The digits of the value of a list of digits are that list. -/
theorem leBytes_leValue (bs : Bytes) : leBytes bs.length (leValue bs) = bs := by
  induction bs with
  | nil => rfl
  | cons b bs ih =>
    have hlow : UInt8.ofNat (b.toNat + 256 * leValue bs) = b := by
      apply UInt8.toNat_inj.mp
      rw [UInt8.toNat_ofNat']
      have := b.toNat_lt
      omega
    have hhigh : (b.toNat + 256 * leValue bs) / 256 = leValue bs := by
      have := b.toNat_lt
      omega
    rw [List.length_cons, leBytes, leValue, hlow, hhigh, ih]

theorem leValue_lt (bs : Bytes) : leValue bs < 256 ^ bs.length := by
  induction bs with
  | nil => exact Nat.one_pos
  | cons b bs ih =>
    have := b.toNat_lt
    rw [List.length_cons, Nat.pow_succ, leValue]
    omega

theorem canonical_le (k : Nat) : (le k).Canonical := by
  refine ⟨fun {bs n rest} h => ?_⟩
  simp only [le] at h
  split at h
  · cases h
  · rename_i hlen
    obtain ⟨rfl, rfl⟩ := Prod.mk.inj (Option.some.inj h)
    have htake : (bs.take k).length = k := List.length_take_of_le (by omega)
    have hlt := leValue_lt (bs.take k)
    have hbytes := leBytes_leValue (bs.take k)
    rw [htake] at hlt hbytes
    exact ⟨bs.take k, by simp only [le]; rw [if_pos hlt, hbytes], List.take_append_drop ..⟩

/-- A format that reads nothing is canonical. -/
theorem canonical_fail : (fail : Codec α).Canonical := by
  refine ⟨fun h => ?_⟩
  cases h

/-- The digits of a number that was read are those that would be written. -/
theorem ulebBytes_of_ulebValue {k n : Nat} {first : Bool} {bs rest : Bytes}
    (h : ulebValue k first bs = some (n, rest)) : ulebBytes k n ++ rest = bs ∧ n < 128 ^ k := by
  -- on the number of digits left
  induction k generalizing first bs n with
  | zero => simp [ulebValue] at h
  | succ k ih =>
    cases bs with
    | nil => simp [ulebValue] at h
    | cons b bs =>
      have hb := b.toNat_lt
      rw [ulebValue] at h
      split at h
      · -- the last digit
        rename_i hlast
        split at h
        · cases h
        · obtain ⟨rfl, rfl⟩ := Prod.mk.inj (Option.some.inj h)
          refine ⟨by simp [ulebBytes, hlast], ?_⟩
          have := Nat.one_le_pow k 128 (by omega)
          rw [Nat.pow_succ]
          omega
      · -- a continued digit: the digits behind it are not zero, so there is one to write
        rename_i hcont
        obtain ⟨⟨v, r⟩, hv, hn⟩ := Option.map_eq_some_iff.mp h
        obtain ⟨rfl, rfl⟩ : b.toNat - 128 + 128 * v = n ∧ r = rest := by simpa using hn
        obtain ⟨hbytes, hlt⟩ := ih hv
        have hpos := pos_of_ulebValue hv
        have hlow : (b.toNat - 128 + 128 * v) % 128 + 128 = b.toNat := by omega
        have hhigh : (b.toNat - 128 + 128 * v) / 128 = v := by omega
        refine ⟨?_, by rw [Nat.pow_succ]; omega⟩
        rw [ulebBytes, if_neg (by omega), hlow, hhigh, UInt8.ofNat_toNat, List.cons_append, hbytes]

theorem canonical_uleb32 (max : Nat) : (uleb32 max).Canonical := by
  refine ⟨fun {bs n rest} h => ?_⟩
  simp only [uleb32] at h
  split at h
  · rename_i m r hm
    split at h
    · rename_i hmax
      obtain ⟨rfl, rfl⟩ := Prod.mk.inj (Option.some.inj h)
      obtain ⟨hbytes, hlt⟩ := ulebBytes_of_ulebValue hm
      exact ⟨ulebBytes 5 m, if_pos ⟨hmax, hlt⟩, hbytes⟩
    · cases h
  · cases h

/-! ## Combinators -/

/-- What was read of a pair is written again part by part. -/
theorem Canonical.pair (hc : c.Canonical) (hd : d.Canonical) : (c.pair d).Canonical := by
  refine ⟨fun {bs p rest} h => ?_⟩
  obtain ⟨r, ha, hb⟩ := decode_pair.mp h
  obtain ⟨x, hx, rfl⟩ := hc.written ha
  obtain ⟨y, hy, rfl⟩ := hd.written hb
  exact ⟨x ++ y, encode_pair.mpr ⟨x, hx, y, hy, rfl⟩, List.append_assoc ..⟩

/-- A canonical format of another type, where the two maps are inverse on what was read. -/
theorem Canonical.iso (hc : c.Canonical) {into : β → α} {from? : α → Option β}
    {h : ∀ b, from? (into b) = some b} (hinto : ∀ a b, from? a = some b → into b = a) :
    (c.iso into from? h).Canonical := by
  refine ⟨fun {bs b rest} hb => ?_⟩
  obtain ⟨⟨a, r⟩, ha, hb⟩ := Option.bind_eq_some_iff.mp hb
  obtain ⟨b', hb', hb⟩ := Option.bind_eq_some_iff.mp hb
  obtain ⟨rfl, rfl⟩ : b' = b ∧ r = rest := by simpa using hb
  obtain ⟨x, hx, hrest⟩ := hc.written ha
  exact ⟨x, by rw [encode_iso, hinto a b' hb', hx], hrest⟩

theorem Canonical.prism (hc : c.Canonical) {into? : β → Option α} {of : α → β}
    {h : ∀ b a, into? b = some a → of a = b}
    (hof : ∀ {bs a rest}, c.decode bs = some (a, rest) → into? (of a) = some a) :
    (c.prism into? of h).Canonical := by
  refine ⟨fun {bs b rest} hb => ?_⟩
  obtain ⟨a, ha, rfl⟩ := decode_prism.mp hb
  obtain ⟨x, hx, hrest⟩ := hc.written ha
  refine ⟨x, ?_, hrest⟩
  show (into? (of a)).bind c.encode = some x
  rw [hof ha]
  exact hx

theorem canonical_nil : (nil : Codec (List α)).Canonical := by
  refine ⟨fun {bs as rest} h => ?_⟩
  obtain ⟨rfl, rfl⟩ := Prod.mk.inj (Option.some.inj h)
  exact ⟨[], rfl, rfl⟩

theorem Canonical.cons (hc : c.Canonical) {cs : Codec (List α)} (hcs : cs.Canonical) :
    (Codec.cons c cs).Canonical :=
  (hc.pair hcs).prism fun _ => rfl

theorem canonical_tuple {cs : List (Codec α)} (h : ∀ c ∈ cs, c.Canonical) :
    (tuple cs).Canonical := by
  induction cs with
  | nil => exact canonical_nil
  | cons c cs ih =>
    have hc : c.Canonical := h c List.mem_cons_self
    exact hc.cons (ih fun d hd => h d (List.mem_cons_of_mem _ hd))

/-- The tag picks the same format for writing as for reading. -/
theorem canonical_tagged {max : Nat} {cs : List (Codec α)} (h : ∀ c ∈ cs, c.Canonical) :
    (tagged max cs).Canonical := by
  refine ⟨fun {bs p rest} hdec => ?_⟩
  obtain ⟨i, a⟩ := p
  obtain ⟨r, hi, c, hc, ha⟩ := decode_tagged.mp hdec
  obtain ⟨n, hn, rfl⟩ := (canonical_uleb32 max).written hi
  obtain ⟨x, hx, rfl⟩ := (h c (List.mem_of_getElem? hc)).written ha
  refine ⟨n ++ x, ?_, List.append_assoc ..⟩
  simp [tagged, hc, hn, hx]

/-- A list that was read item by item is written item by item. -/
theorem encodeAll_of_decodeN (hc : c.Canonical) {n : Nat} {bs : Bytes} {as : List α}
    {rest : Bytes} (h : c.decodeN n bs = some (as, rest)) :
    as.length = n ∧ ∃ x, c.encodeAll as = some x ∧ x ++ rest = bs := by
  induction n generalizing bs as with
  | zero =>
    obtain ⟨rfl, rfl⟩ : [] = as ∧ bs = rest := by simpa [decodeN] using h
    exact ⟨rfl, [], rfl, rfl⟩
  | succ n ih =>
    obtain ⟨⟨a, r⟩, ha, h⟩ := Option.bind_eq_some_iff.mp h
    obtain ⟨⟨as', r'⟩, has, h⟩ := Option.bind_eq_some_iff.mp h
    obtain ⟨rfl, rfl⟩ : a :: as' = as ∧ r' = rest := by simpa using h
    obtain ⟨x, hx, rfl⟩ := hc.written ha
    obtain ⟨hlen, xs, hxs, rfl⟩ := ih has
    refine ⟨by rw [List.length_cons, hlen], x ++ xs, ?_, List.append_assoc ..⟩
    exact encodeAll_cons.mpr ⟨x, xs, hx, hxs, rfl⟩

/-- The length that was read is the length of the list. -/
theorem Canonical.seq (hc : c.Canonical) (max : Nat) : (c.seq max).Canonical := by
  refine ⟨fun {bs as rest} h => ?_⟩
  obtain ⟨⟨n, r⟩, hn, has⟩ := Option.bind_eq_some_iff.mp h
  obtain ⟨x, hx, rfl⟩ := (canonical_uleb32 max).written hn
  obtain ⟨rfl, y, hy, rfl⟩ := encodeAll_of_decodeN hc has
  exact ⟨x ++ y, encode_seq.mpr ⟨x, hx, y, hy, rfl⟩, List.append_assoc ..⟩

theorem canonical_bytes (max : Nat) : (bytes max).Canonical := by
  refine ⟨fun {bs out rest} h => ?_⟩
  obtain ⟨⟨n, r⟩, hn, hout⟩ := Option.bind_eq_some_iff.mp h
  obtain ⟨x, hx, rfl⟩ := (canonical_uleb32 max).written hn
  dsimp only at hout
  split at hout
  · cases hout
  · rename_i hlen
    obtain ⟨rfl, rfl⟩ := Prod.mk.inj (Option.some.inj hout)
    have htake : (r.take n).length = n := List.length_take_of_le (by omega)
    refine ⟨x ++ r.take n, ?_, by rw [List.append_assoc, List.take_append_drop]⟩
    simp [bytes, htake, hx]

theorem canonical_string (max : Nat) : (string max).Canonical := by
  refine (canonical_bytes max).iso ?_
  intro bs s hs
  have hvalid : Utf8.Valid bs := Utf8.isSome_fromUtf8?.mp (by rw [hs]; rfl)
  obtain ⟨t, ht, hbytes⟩ := Utf8.exists_fromUtf8? hvalid
  obtain rfl := Option.some.inj (hs.symm.trans ht)
  exact hbytes

/-- Each element of a sequence was read somewhere. -/
theorem decodeN_of_mem {n : Nat} {bs : Bytes} {as : List α} {rest : Bytes}
    (h : c.decodeN n bs = some (as, rest)) {a : α} (ha : a ∈ as) :
    ∃ bs r, c.decode bs = some (a, r) := by
  induction n generalizing bs as with
  | zero =>
    obtain ⟨rfl, -⟩ : [] = as ∧ bs = rest := by simpa [decodeN] using h
    cases ha
  | succ n ih =>
    obtain ⟨⟨a', r⟩, ha', h⟩ := Option.bind_eq_some_iff.mp h
    obtain ⟨⟨as', r'⟩, has', h⟩ := Option.bind_eq_some_iff.mp h
    obtain ⟨rfl, rfl⟩ : a' :: as' = as ∧ r' = rest := by simpa using h
    rcases List.mem_cons.mp ha with rfl | hmem
    · exact ⟨bs, r, ha'⟩
    · exact ih has' hmem

end Codec
