import NexusMove.Lib.Bytes

/-!
# Self-delimiting codecs

A `Codec α` writes values as byte strings, possibly refusing some, and reads
one value off the front of a byte string. The one law says that a written value
is read back and that exactly its own bytes are consumed. Everything else is
derived from it: two encodings are never one a proper prefix of the other, so a
concatenation of encodings determines its parts.

* `Codec.encode_append_inj` — the prefix-code property.
* `Codec.encode_injective` — one encoding, one value.
* `Codec.fromBytes_of_encode` — the whole-input reader inverts the writer.
* `Codec.pair`, `Codec.iso`, `Codec.prism`, `Codec.tuple`, `Codec.tagged`, `Codec.seq`,
  `Codec.bytes`, `Codec.string` — the combinators of a binary canonical serialization.
-/

/-- A writer and a reader of values of type `α`. The reader returns the rest of its input. -/
structure Codec (α : Type) where
  encode : α → Option Bytes
  decode : Bytes → Option (α × Bytes)
  decode_encode : ∀ {a bs} (rest : Bytes), encode a = some bs → decode (bs ++ rest) = some (a, rest)

namespace Codec

variable {α β : Type}

/-- Read a value that takes up the whole input. -/
def fromBytes (c : Codec α) (bs : Bytes) : Option α :=
  match c.decode bs with
  | some (a, []) => some a
  | _ => none

/-- **Prefix code.** Encodings followed by anything determine the value and the remainder. -/
theorem encode_append_inj (c : Codec α) {a b : α} {x y r s : Bytes}
    (ha : c.encode a = some x) (hb : c.encode b = some y) (h : x ++ r = y ++ s) :
    a = b ∧ x = y ∧ r = s := by
  have h1 := c.decode_encode r ha
  have h2 := c.decode_encode s hb
  rw [h, h2] at h1
  obtain ⟨rfl, rfl⟩ : b = a ∧ s = r := by simpa using h1
  rw [ha] at hb
  exact ⟨rfl, by simpa using hb, rfl⟩

/-- **Injectivity.** Two values with the same encoding are equal. -/
theorem encode_injective (c : Codec α) {a b : α} {x : Bytes}
    (ha : c.encode a = some x) (hb : c.encode b = some x) : a = b :=
  (c.encode_append_inj (r := []) (s := []) ha hb rfl).1

/-- Reading bytes to their end. -/
theorem fromBytes_eq_some {c : Codec α} {bs : Bytes} {a : α} :
    c.fromBytes bs = some a ↔ c.decode bs = some (a, []) := by
  unfold fromBytes
  split
  · next b hb => simp [hb]
  · next hb =>
    refine ⟨by simp, fun h => absurd h (hb a)⟩

theorem fromBytes_of_encode (c : Codec α) {a : α} {x : Bytes} (h : c.encode a = some x) :
    c.fromBytes x = some a := by
  have := c.decode_encode [] h
  rw [List.append_nil] at this
  simp [fromBytes, this]

/-! ## Atoms -/

def byte : Codec UInt8 where
  encode b := some [b]
  decode
    | [] => none
    | b :: bs => some (b, bs)
  decode_encode := by
    rintro a bs rest h
    obtain rfl : [a] = bs := by simpa using h
    rfl

def fixed (n : Nat) : Codec (FixedBytes n) where
  encode x := some x.toBytes
  decode bs := (FixedBytes.ofBytes? n (bs.take n)).map fun x => (x, bs.drop n)
  decode_encode := by
    rintro a bs rest h
    obtain rfl : a.toBytes = bs := by simpa using h
    have hlen := a.length_toBytes
    simp [hlen]

def bool : Codec Bool where
  encode b := some [if b then 1 else 0]
  decode
    | [] => none
    | b :: bs => if b = 0 then some (false, bs) else if b = 1 then some (true, bs) else none
  decode_encode := by
    rintro a bs rest h
    obtain rfl : [if a then 1 else 0] = bs := by simpa using h
    cases a <;> simp

/-- A number of `k` bytes, the lowest first. -/
def le (k : Nat) : Codec Nat where
  encode n := if n < 256 ^ k then some (leBytes k n) else none
  decode bs := if bs.length < k then none else some (leValue (bs.take k), bs.drop k)
  decode_encode := by
    intro n bs rest h
    obtain ⟨hn, rfl⟩ : n < 256 ^ k ∧ leBytes k n = bs := by simpa using h
    have hlen := length_leBytes k n
    simp [hlen, leValue_leBytes hn]

/-- No value can be written and none is read. -/
def fail : Codec α where
  encode _ := none
  decode _ := none
  decode_encode := by simp

/-! ## Variable-length numbers -/

/-- Base-128 digits of `n`, least significant first, a high bit marking every digit but the
last. At most `k` digits are written. -/
def ulebBytes : Nat → Nat → Bytes
  | 0, _ => []
  | k + 1, n =>
    if n < 128 then [UInt8.ofNat n] else UInt8.ofNat (n % 128 + 128) :: ulebBytes k (n / 128)

/-- Read at most `k` base-128 digits. A zero digit is refused at the end of a number of several
digits (`first` says that none has been read yet), so every number has one representation. -/
def ulebValue : Nat → Bool → Bytes → Option (Nat × Bytes)
  | 0, _, _ => none
  | _ + 1, _, [] => none
  | k + 1, first, b :: bs =>
    if b.toNat < 128 then
      if !first && b.toNat == 0 then none else some (b.toNat, bs)
    else
      (ulebValue k false bs).map fun (v, rest) => (b.toNat - 128 + 128 * v, rest)

/-- A number of one digit. Only the first digit of all may be zero. -/
theorem ulebValue_digit (k : Nat) {n : Nat} {first : Bool} (rest : Bytes) (hn : n < 128)
    (hpos : first = true ∨ 0 < n) :
    ulebValue (k + 1) first (ulebBytes (k + 1) n ++ rest) = some (n, rest) := by
  have hb : (UInt8.ofNat n).toNat = n := by
    rw [UInt8.toNat_ofNat']
    omega
  have hcanon : (!first && n == 0) = false := by
    rcases hpos with rfl | h <;> simp; omega
  simp [ulebBytes, ulebValue, hn, hb, hcanon]

/-- **Digits.** What `ulebBytes` writes is read back, whatever follows. -/
theorem ulebValue_ulebBytes {k n : Nat} (first : Bool) (rest : Bytes)
    (hlt : n < 128 ^ (k + 1)) (hpos : first = true ∨ 0 < n) :
    ulebValue (k + 1) first (ulebBytes (k + 1) n ++ rest) = some (n, rest) := by
  -- on the number of digits left
  induction k generalizing n first with
  | zero =>
    have hn : n < 128 := by simpa using hlt
    exact ulebValue_digit 0 rest hn hpos
  | succ k ih =>
    by_cases hn : n < 128
    · exact ulebValue_digit (k + 1) rest hn hpos
    · -- a continued digit: the remaining number is positive, so its last digit is not zero
      have hb : (UInt8.ofNat (n % 128 + 128)).toNat = n % 128 + 128 := by
        rw [UInt8.toNat_ofNat']
        omega
      -- one digit less to write
      have hdiv : n / 128 < 128 ^ (k + 1) := by
        rw [Nat.pow_succ] at hlt
        omega
      have hrec := ih false hdiv (Or.inr (by omega))
      rw [ulebBytes, if_neg hn, List.cons_append, ulebValue, if_neg (by omega), hrec, hb]
      simp only [Option.map_some, Option.some.injEq, Prod.mk.injEq, and_true]
      omega

/-- A number of at most 32 bits in the shortest form, up to `max`. -/
def uleb32 (max : Nat) : Codec Nat where
  encode n := if n ≤ max ∧ n < 128 ^ 5 then some (ulebBytes 5 n) else none
  decode bs :=
    match ulebValue 5 true bs with
    | some (n, rest) => if n ≤ max then some (n, rest) else none
    | none => none
  decode_encode := by
    intro n bs rest h
    obtain ⟨⟨hmax, hn⟩, rfl⟩ : (n ≤ max ∧ n < 128 ^ 5) ∧ ulebBytes 5 n = bs := by simpa using h
    rw [ulebValue_ulebBytes true rest hn (Or.inl rfl)]
    simp [hmax]

/-- A number has at least one byte. -/
theorem length_pos_of_encode_uleb32 {max n : Nat} {bs : Bytes}
    (h : (uleb32 max).encode n = some bs) : 0 < bs.length := by
  obtain ⟨-, rfl⟩ : (n ≤ max ∧ n < 128 ^ 5) ∧ ulebBytes 5 n = bs := by simpa [uleb32] using h
  -- one digit or more, by the size of the number
  by_cases hn : n < 128 <;> simp [ulebBytes, hn]

/-- A digit string that is not the first digit's alone stands for a positive number. -/
theorem pos_of_ulebValue {k n : Nat} {bs rest : Bytes}
    (h : ulebValue k false bs = some (n, rest)) : 0 < n := by
  induction k generalizing n bs rest with
  | zero => simp [ulebValue] at h
  | succ k ih =>
    cases bs with
    | nil => simp [ulebValue] at h
    | cons b bs =>
      rw [ulebValue] at h
      split at h
      · -- the last digit, refused when it is zero
        split at h
        · cases h
        · next hb =>
          obtain ⟨rfl, -⟩ : b.toNat = n ∧ bs = rest := by simpa using h
          simp at hb
          omega
      · -- a continued digit: the digits behind it are positive already
        obtain ⟨⟨m, r⟩, hm, hn⟩ := Option.map_eq_some_iff.mp h
        have := ih hm
        simp only [Prod.mk.injEq] at hn
        omega

/-- A number below 128 was one byte. -/
theorem of_decode_uleb32_lt {max n : Nat} {bs rest : Bytes}
    (h : (uleb32 max).decode bs = some (n, rest)) (hn : n < 128) : bs = UInt8.ofNat n :: rest := by
  simp only [uleb32] at h
  split at h
  · next m r hm =>
    obtain ⟨-, rfl, rfl⟩ : m ≤ max ∧ m = n ∧ r = rest := by simpa using h
    cases bs with
    | nil => simp [ulebValue] at hm
    | cons b bs =>
      rw [ulebValue] at hm
      split at hm
      · obtain ⟨rfl, rfl⟩ : b.toNat = m ∧ bs = r := by simpa using hm
        simp
      · -- a continued number is at least 128, whatever its low digit is
        obtain ⟨⟨q, r'⟩, hq, hm⟩ := Option.map_eq_some_iff.mp hm
        have := pos_of_ulebValue hq
        simp only [Prod.mk.injEq] at hm
        omega
  · cases h

/-! ## Combinators -/

/-- One value behind the other. -/
def pair (c : Codec α) (d : Codec β) : Codec (α × β) where
  encode p := do
    let x ← c.encode p.1
    let y ← d.encode p.2
    return x ++ y
  decode bs := do
    let (a, rest) ← c.decode bs
    let (b, rest) ← d.decode rest
    return ((a, b), rest)
  decode_encode := by
    rintro ⟨a, b⟩ bs rest h
    obtain ⟨x, hx, y, hy, rfl⟩ : ∃ x, c.encode a = some x ∧ ∃ y, d.encode b = some y ∧
        x ++ y = bs := by
      simpa [Option.bind_eq_some_iff] using h
    simp [List.append_assoc, c.decode_encode (y ++ rest) hx, d.decode_encode rest hy]

/-- A value seen through a partial bijection: `into` and `from?` are the two directions. -/
def iso (c : Codec α) (into : β → α) (from? : α → Option β)
    (h : ∀ b, from? (into b) = some b) : Codec β where
  encode b := c.encode (into b)
  decode bs := do
    let (a, rest) ← c.decode bs
    let b ← from? a
    return (b, rest)
  decode_encode := by
    intro b bs rest hb
    simp [c.decode_encode rest hb, h]

/-- A value seen through a partial projection: values it does not apply to are refused. -/
def prism (c : Codec α) (into? : β → Option α) (of : α → β)
    (h : ∀ b a, into? b = some a → of a = b) : Codec β where
  encode b := (into? b).bind c.encode
  decode bs := (c.decode bs).map fun (a, rest) => (of a, rest)
  decode_encode := by
    intro b bs rest hb
    obtain ⟨a, ha, henc⟩ := Option.bind_eq_some_iff.mp hb
    simp [c.decode_encode rest henc, h b a ha]

def nil : Codec (List α) where
  encode as := if as.isEmpty then some [] else none
  decode bs := some ([], bs)
  decode_encode := by
    intro as bs rest h
    cases as with
    | nil =>
      obtain rfl : [] = bs := by simpa using h
      rfl
    | cons a as => simp at h

def cons (c : Codec α) (cs : Codec (List α)) : Codec (List α) :=
  (c.pair cs).prism (fun | [] => none | a :: as => some (a, as)) (fun p => p.1 :: p.2) (by
    intro as p h
    cases as with
    | nil => simp at h
    | cons a as => simp [← Option.some.inj h])

/-- Values of different codecs in a row. -/
def tuple : List (Codec α) → Codec (List α)
  | [] => nil
  | c :: cs => cons c (tuple cs)

/-- One of several kinds of value, the index of its kind first. -/
def tagged (max : Nat) (cs : List (Codec α)) : Codec (Nat × α) where
  encode p := do
    let c ← cs[p.1]?
    let i ← (uleb32 max).encode p.1
    let x ← c.encode p.2
    return i ++ x
  decode bs := do
    let (i, rest) ← (uleb32 max).decode bs
    let c ← cs[i]?
    let (a, rest) ← c.decode rest
    return ((i, a), rest)
  decode_encode := by
    rintro ⟨i, a⟩ bs rest h
    obtain ⟨c, hc, n, hn, x, hx, rfl⟩ : ∃ c, cs[i]? = some c ∧
        ∃ n, (uleb32 max).encode i = some n ∧ ∃ x, c.encode a = some x ∧ n ++ x = bs := by
      simpa [Option.bind_eq_some_iff] using h
    simp [List.append_assoc, (uleb32 max).decode_encode (x ++ rest) hn, hc, c.decode_encode rest hx]

/-- The values one behind the other, without their number. -/
def encodeAll (c : Codec α) : List α → Option Bytes
  | [] => some []
  | a :: as => do
    let x ← c.encode a
    let xs ← encodeAll c as
    return x ++ xs

def decodeN (c : Codec α) : Nat → Bytes → Option (List α × Bytes)
  | 0, bs => some ([], bs)
  | n + 1, bs => do
    let (a, rest) ← c.decode bs
    let (as, rest) ← decodeN c n rest
    return (a :: as, rest)

theorem encode_pair {c : Codec α} {d : Codec β} {p : α × β} {bs : Bytes} :
    (c.pair d).encode p = some bs ↔
      ∃ x, c.encode p.1 = some x ∧ ∃ y, d.encode p.2 = some y ∧ x ++ y = bs := by
  simp [pair, Option.bind_eq_some_iff]

/-- The second is read from what the first has left. -/
theorem decode_pair {c : Codec α} {d : Codec β} {bs : Bytes} {p : α × β} {rest : Bytes} :
    (c.pair d).decode bs = some (p, rest) ↔
      ∃ r, c.decode bs = some (p.1, r) ∧ d.decode r = some (p.2, rest) := by
  obtain ⟨a, b⟩ := p
  constructor
  · intro h
    obtain ⟨⟨a', r⟩, ha, h⟩ := Option.bind_eq_some_iff.mp h
    obtain ⟨⟨b', rest'⟩, hb, h⟩ := Option.bind_eq_some_iff.mp h
    obtain ⟨⟨rfl, rfl⟩, rfl⟩ : (a' = a ∧ b' = b) ∧ rest' = rest := by simpa using h
    exact ⟨r, ha, hb⟩
  · rintro ⟨r, ha, hb⟩
    simp [pair, ha, hb]

/-- The part is read, and put into the whole. -/
theorem decode_prism {c : Codec α} {into? : β → Option α} {of : α → β}
    {h : ∀ b a, into? b = some a → of a = b} {bs : Bytes} {b : β} {rest : Bytes} :
    (c.prism into? of h).decode bs = some (b, rest) ↔
      ∃ a, c.decode bs = some (a, rest) ∧ of a = b := by
  simp only [prism, Option.map_eq_some_iff, Prod.exists, Prod.mk.injEq]
  constructor
  · rintro ⟨a, r, ha, rfl, rfl⟩
    exact ⟨a, ha, rfl⟩
  · rintro ⟨a, ha, rfl⟩
    exact ⟨a, rest, ha, rfl, rfl⟩

@[simp] theorem decode_tuple_nil {bs : Bytes} {as : List α} {rest : Bytes} :
    (tuple []).decode bs = some (as, rest) ↔ as = [] ∧ bs = rest := by
  simp only [tuple, nil, Option.some.injEq, Prod.mk.injEq]
  exact and_congr_left fun _ => eq_comm

theorem decode_cons {c : Codec α} {cs : Codec (List α)} {bs : Bytes} {as : List α}
    {rest : Bytes} :
    (cons c cs).decode bs = some (as, rest) ↔
      ∃ a as' r, as = a :: as' ∧ c.decode bs = some (a, r) ∧ cs.decode r = some (as', rest) := by
  simp only [cons, prism, Option.map_eq_some_iff, Prod.exists, Prod.mk.injEq, decode_pair]
  constructor
  · rintro ⟨a, as', rest', ⟨r, ha, has⟩, rfl, rfl⟩
    exact ⟨a, as', r, rfl, ha, has⟩
  · rintro ⟨a, as', r, rfl, ha, has⟩
    exact ⟨a, as', rest, ⟨r, ha, has⟩, rfl, rfl⟩

/-- The head, then the others in a row. -/
theorem decode_tuple_cons {c : Codec α} {cs : List (Codec α)} {bs : Bytes} {as : List α}
    {rest : Bytes} :
    (tuple (c :: cs)).decode bs = some (as, rest) ↔
      ∃ a as' r, as = a :: as' ∧ c.decode bs = some (a, r)
        ∧ (tuple cs).decode r = some (as', rest) :=
  decode_cons

/-- The index is read first, and says with which codec to go on. -/
theorem decode_tagged {max : Nat} {cs : List (Codec α)} {bs : Bytes} {i : Nat} {a : α}
    {rest : Bytes} :
    (tagged max cs).decode bs = some ((i, a), rest) ↔
      ∃ r, (uleb32 max).decode bs = some (i, r) ∧ ∃ c, cs[i]? = some c
        ∧ c.decode r = some (a, rest) := by
  constructor
  · intro h
    obtain ⟨⟨i', r⟩, hi, h⟩ := Option.bind_eq_some_iff.mp h
    obtain ⟨c, hc, h⟩ := Option.bind_eq_some_iff.mp h
    obtain ⟨⟨a', rest'⟩, ha, h⟩ := Option.bind_eq_some_iff.mp h
    obtain ⟨⟨rfl, rfl⟩, rfl⟩ : (i' = i ∧ a' = a) ∧ rest' = rest := by simpa using h
    exact ⟨r, hi, c, hc, ha⟩
  · rintro ⟨r, hi, c, hc, ha⟩
    simp [tagged, hi, hc, ha]

/-- The part is written, if there is one. -/
theorem encode_prism {c : Codec α} {into? : β → Option α} {of : α → β}
    {h : ∀ b a, into? b = some a → of a = b} {b : β} {bs : Bytes} :
    (c.prism into? of h).encode b = some bs ↔ ∃ a, into? b = some a ∧ c.encode a = some bs :=
  Option.bind_eq_some_iff

theorem encode_tuple_cons {c : Codec α} {cs : List (Codec α)} {a : α} {as : List α} {bs : Bytes} :
    (tuple (c :: cs)).encode (a :: as) = some bs ↔
      ∃ x, c.encode a = some x ∧ ∃ xs, (tuple cs).encode as = some xs ∧ x ++ xs = bs :=
  encode_pair

theorem encode_tagged {max : Nat} {cs : List (Codec α)} {i : Nat} {a : α} {bs : Bytes} :
    (tagged max cs).encode (i, a) = some bs ↔
      ∃ n, (uleb32 max).encode i = some n
        ∧ ∃ x, (∃ c, cs[i]? = some c ∧ c.encode a = some x) ∧ n ++ x = bs := by
  simp only [tagged, Option.bind_eq_bind, Option.bind_eq_some_iff, Option.pure_def,
    Option.some.injEq]
  constructor
  · rintro ⟨c, hc, n, hn, x, hx, h⟩
    exact ⟨n, hn, x, ⟨c, hc, hx⟩, h⟩
  · rintro ⟨n, hn, x, ⟨c, hc, hx⟩, h⟩
    exact ⟨c, hc, n, hn, x, hx, h⟩

theorem decode_fixed {n : Nat} {bs : Bytes} {x : FixedBytes n} {rest : Bytes}
    (h : (fixed n).decode bs = some (x, rest)) : x.toBytes = bs.take n ∧ rest = bs.drop n := by
  obtain ⟨y, hy, h⟩ := Option.map_eq_some_iff.mp h
  obtain ⟨rfl, rfl⟩ : y = x ∧ bs.drop n = rest := by simpa using h
  unfold FixedBytes.ofBytes? at hy
  split at hy
  · exact ⟨by rw [← Option.some.inj hy]; rfl, rfl⟩
  · cases hy

/-- A value is written as what it is the same as. -/
@[simp] theorem encode_iso {c : Codec α} {into : β → α} {from? : α → Option β}
    {h : ∀ b, from? (into b) = some b} {b : β} :
    (c.iso into from? h).encode b = c.encode (into b) := rfl

theorem encodeAll_cons {c : Codec α} {a : α} {as : List α} {bs : Bytes} :
    c.encodeAll (a :: as) = some bs ↔
      ∃ x xs, c.encode a = some x ∧ c.encodeAll as = some xs ∧ bs = x ++ xs := by
  simp only [encodeAll, Option.bind_eq_bind, Option.bind_eq_some_iff, Option.pure_def,
    Option.some.injEq]
  constructor
  · rintro ⟨x, hx, xs, hxs, rfl⟩
    exact ⟨x, xs, hx, hxs, rfl⟩
  · rintro ⟨x, xs, hx, hxs, rfl⟩
    exact ⟨x, hx, xs, hxs, rfl⟩

/-- Values that were written are read back, if their number is known. -/
theorem decodeN_encodeAll (c : Codec α) {as : List α} {bs : Bytes} (rest : Bytes)
    (h : c.encodeAll as = some bs) : c.decodeN as.length (bs ++ rest) = some (as, rest) := by
  induction as generalizing bs with
  | nil =>
    obtain rfl : [] = bs := by simpa [encodeAll] using h
    rfl
  | cons a as ih =>
    obtain ⟨x, xs, hx, hxs, rfl⟩ := encodeAll_cons.mp h
    simp [decodeN, List.append_assoc, c.decode_encode (xs ++ rest) hx, ih hxs]

/-- The number of values, then the values. -/
def seq (max : Nat) (c : Codec α) : Codec (List α) where
  encode as := do
    let n ← (uleb32 max).encode as.length
    let xs ← c.encodeAll as
    return n ++ xs
  decode bs := do
    let (n, rest) ← (uleb32 max).decode bs
    c.decodeN n rest
  decode_encode := by
    intro as bs rest h
    obtain ⟨n, hn, xs, hxs, rfl⟩ : ∃ n, (uleb32 max).encode as.length = some n ∧
        ∃ xs, c.encodeAll as = some xs ∧ n ++ xs = bs := by
      simpa [Option.bind_eq_some_iff] using h
    simp [List.append_assoc, (uleb32 max).decode_encode (xs ++ rest) hn,
      c.decodeN_encodeAll rest hxs]

theorem encode_seq {max : Nat} {c : Codec α} {as : List α} {bs : Bytes} :
    (seq max c).encode as = some bs ↔
      ∃ n, (uleb32 max).encode as.length = some n ∧
        ∃ xs, c.encodeAll as = some xs ∧ n ++ xs = bs := by
  simp [seq, Option.bind_eq_some_iff]

theorem length_pos_of_encode_seq {max : Nat} {c : Codec α} {as : List α} {bs : Bytes}
    (h : (seq max c).encode as = some bs) : 0 < bs.length := by
  obtain ⟨n, hn, xs, -, rfl⟩ := encode_seq.mp h
  have := length_pos_of_encode_uleb32 hn
  simp only [List.length_append]
  omega

/-- The number of bytes, then the bytes. -/
def bytes (max : Nat) : Codec Bytes where
  encode bs := do
    let n ← (uleb32 max).encode bs.length
    return n ++ bs
  decode bs := do
    let (n, rest) ← (uleb32 max).decode bs
    if rest.length < n then none else some (rest.take n, rest.drop n)
  decode_encode := by
    intro bs out rest h
    obtain ⟨n, hn, rfl⟩ : ∃ n, (uleb32 max).encode bs.length = some n ∧ n ++ bs = out := by
      simpa [Option.bind_eq_some_iff] using h
    simp [List.append_assoc, (uleb32 max).decode_encode (bs ++ rest) hn]

theorem length_pos_of_encode_bytes (max : Nat) {bs out : Bytes}
    (h : (bytes max).encode bs = some out) : 0 < out.length := by
  obtain ⟨n, hn, rfl⟩ : ∃ n, (uleb32 max).encode bs.length = some n ∧ n ++ bs = out := by
    simpa [bytes, Option.bind_eq_some_iff] using h
  have := length_pos_of_encode_uleb32 hn
  simp only [List.length_append]
  omega

/-- A text as its bytes, which have to be UTF-8. -/
def string (max : Nat) : Codec String :=
  (bytes max).iso String.utf8 String.fromUtf8? fromUtf8?_utf8

end Codec
