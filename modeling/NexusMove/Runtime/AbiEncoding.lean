import NexusMove.Lib.PrefixCode
import NexusMove.Runtime.Abi

/-!
# Reading the ABI preimage back

The preimage of the ABI hash determines the entries it was written from. Tokens are
self-delimiting. Names are not, but what follows one is never an identifier character.
Fields and variants are told apart by what cannot be the bytes of a name.

* `encodeToken_append_inj` — tokens.
* `FieldsEntryOf.toBytes_injective` — the layouts of structs.
* `entries_of_abiPreimage_eq` — one preimage, one list of entries.
-/

namespace NexusMove

/-! ## Tokens -/

mutual

/-- The lists in a token have at most 255 elements, as the binary format has it. -/
def tokenFits : SignatureToken → Bool
  | .vector inner => tokenFits inner
  | .structInstantiation _ typeArgs => typeArgs.length ≤ 255 && tokensFit typeArgs
  | .reference inner => tokenFits inner
  | .mutableReference inner => tokenFits inner
  | .function params ret _ =>
    params.length ≤ 255 && ret.length ≤ 255 && tokensFit params && tokensFit ret
  | _ => true

def tokensFit : List SignatureToken → Bool
  | [] => true
  | t :: ts => tokenFits t && tokensFit ts

end

theorem tokensFit_iff {ts : List SignatureToken} :
    tokensFit ts = true ↔ ∀ t ∈ ts, tokenFits t = true := by
  induction ts with
  | nil => simp [tokensFit]
  | cons t ts ih => simp [tokensFit, ih]

/-- An index has two bytes, so it ends where they do. -/
theorem index_append_inj {i j : UInt16} {x y : Bytes}
    (h : leBytes 2 i.toNat ++ x = leBytes 2 j.toNat ++ y) : i = j ∧ x = y := by
  obtain ⟨hij, hxy⟩ := leBytes_append_inj i.toNat_lt j.toNat_lt h
  exact ⟨UInt16.toNat_inj.mp hij, hxy⟩

/-- A tag and a table index. -/
theorem indexed_append_inj (token : UInt16 → SignatureToken) {tag : UInt8} {i j : UInt16}
    {x y : Bytes} (h : tag :: leBytes 2 i.toNat ++ x = tag :: leBytes 2 j.toNat ++ y) :
    token i = token j ∧ x = y := by
  obtain ⟨hij, hxy⟩ := index_append_inj (List.cons.inj h).2
  rw [hij]
  exact ⟨rfl, hxy⟩

/-- A tag and a token. -/
theorem wrapped_append_inj (token : SignatureToken → SignatureToken) {tag : UInt8}
    {t t' : SignatureToken} {x y : Bytes}
    (ht : encodeToken t ++ x = encodeToken t' ++ y → t = t' ∧ x = y)
    (h : tag :: encodeToken t ++ x = tag :: encodeToken t' ++ y) :
    token t = token t' ∧ x = y := by
  obtain ⟨heq, hxy⟩ := ht (List.cons.inj h).2
  rw [heq]
  exact ⟨rfl, hxy⟩

/-- Counts up to 255 are not cut by the cast to a byte. -/
theorem count_inj {m n : Nat} (hm : m ≤ 255) (hn : n ≤ 255) (h : UInt8.ofNat m = UInt8.ofNat n) :
    m = n := by
  have := congrArg UInt8.toNat h
  simp only [UInt8.toNat_ofNat'] at this
  omega

/-- The count byte says how many tokens follow, since neither list is longer than 255. -/
theorem counted_append_inj {ts ts' : List SignatureToken} {x y : Bytes} (hlen : ts.length ≤ 255)
    (hlen' : ts'.length ≤ 255)
    (hts : ts.length = ts'.length →
      signatureTokensToBytes ts ++ x = signatureTokensToBytes ts' ++ y → ts = ts' ∧ x = y)
    (h : UInt8.ofNat ts.length :: (signatureTokensToBytes ts ++ x)
      = UInt8.ofNat ts'.length :: (signatureTokensToBytes ts' ++ y)) : ts = ts' ∧ x = y := by
  obtain ⟨hcount, htokens⟩ := List.cons.inj h
  apply hts
  · exact count_inj hlen hlen' hcount
  · exact htokens

mutual

/-- **Tokens.** An encoded token, followed by anything, determines the token. -/
theorem encodeToken_append_inj : ∀ (t t' : SignatureToken) {x y : Bytes},
    tokenFits t = true → tokenFits t' = true → encodeToken t ++ x = encodeToken t' ++ y →
      t = t' ∧ x = y
  -- a token without parts is its tag
  | .bool, t', x, y, _, _, h | .u8, t', x, y, _, _, h | .u16, t', x, y, _, _, h
  | .u32, t', x, y, _, _, h | .u64, t', x, y, _, _, h | .u128, t', x, y, _, _, h
  | .u256, t', x, y, _, _, h | .address, t', x, y, _, _, h | .signer, t', x, y, _, _, h => by
    cases t' <;> simp_all [encodeToken]
  | .vector inner, t', x, y, ht, ht', h => by
    -- a wrapper differs from every other token in its tag
    cases t' with
    | vector inner' =>
      exact wrapped_append_inj .vector (encodeToken_append_inj inner inner' ht ht') h
    | _ => simp [encodeToken] at h
  | .reference inner, t', x, y, ht, ht', h => by
    cases t' with
    | reference inner' =>
      exact wrapped_append_inj .reference (encodeToken_append_inj inner inner' ht ht') h
    | _ => simp [encodeToken] at h
  | .mutableReference inner, t', x, y, ht, ht', h => by
    cases t' with
    | mutableReference inner' =>
      exact wrapped_append_inj .mutableReference (encodeToken_append_inj inner inner' ht ht') h
    | _ => simp [encodeToken] at h
  | .struct idx, t', x, y, _, _, h => by
    cases t' with
    | struct idx' => exact indexed_append_inj .struct h
    | _ => simp [encodeToken] at h
  | .typeParameter idx, t', x, y, _, _, h => by
    cases t' with
    | typeParameter idx' => exact indexed_append_inj .typeParameter h
    | _ => simp [encodeToken] at h
  | .structInstantiation idx typeArgs, t', x, y, ht, ht', h => by
    cases t' with
    | structInstantiation idx' typeArgs' =>
      -- index, count and arguments, in this order
      simp only [encodeToken, List.cons_append, List.append_assoc, List.cons.injEq, true_and] at h
      simp only [tokenFits, Bool.and_eq_true, decide_eq_true_eq] at ht ht'
      obtain ⟨rfl, hargs⟩ := index_append_inj h
      obtain ⟨rfl, hxy⟩ := counted_append_inj ht.1 ht'.1
        (tokens_append_inj typeArgs typeArgs' ht.2 ht'.2) hargs
      exact ⟨rfl, hxy⟩
    | _ => simp [encodeToken] at h
  | .function params ret abilities, t', x, y, ht, ht', h => by
    cases t' with
    | function params' ret' abilities' =>
      simp only [encodeToken, List.cons_append, List.append_assoc, List.nil_append] at h
      simp only [tokenFits, Bool.and_eq_true, decide_eq_true_eq] at ht ht'
      obtain ⟨⟨⟨hp, hr⟩, hps⟩, hrs⟩ := ht
      obtain ⟨⟨⟨hp', hr'⟩, hps'⟩, hrs'⟩ := ht'
      -- the parameters, the results, and the ability byte that closes the type
      obtain ⟨rfl, hrest⟩ := counted_append_inj hp hp'
        (tokens_append_inj params params' hps hps') (List.cons.inj h).2
      obtain ⟨rfl, hlast⟩ := counted_append_inj hr hr' (tokens_append_inj ret ret' hrs hrs') hrest
      -- the last byte is the ability set, and what follows the type is left
      obtain ⟨habilities, hxy⟩ := List.cons.inj hlast
      obtain rfl : abilities = abilities' := congrArg AbilitySet.mk habilities
      exact ⟨rfl, hxy⟩
    | _ => simp [encodeToken] at h

/-- Tokens in a row, when it is known how many there are. -/
theorem tokens_append_inj : ∀ (ts ts' : List SignatureToken) {x y : Bytes},
    tokensFit ts = true → tokensFit ts' = true → ts.length = ts'.length →
      signatureTokensToBytes ts ++ x = signatureTokensToBytes ts' ++ y → ts = ts' ∧ x = y
  | [], ts', x, y, _, _, hlen, h => by
    obtain rfl : ts' = [] := List.eq_nil_of_length_eq_zero hlen.symm
    exact ⟨rfl, h⟩
  | t :: ts, ts', x, y, ht, ht', hlen, h => by
    cases ts' with
    | nil => cases hlen
    | cons t' ts' =>
      simp only [signatureTokensToBytes, List.append_assoc] at h
      simp only [tokensFit, Bool.and_eq_true] at ht ht'
      -- the first token ends where it has to, and the others begin there
      obtain ⟨rfl, hrest⟩ := encodeToken_append_inj t t' ht.1 ht'.1 h
      obtain ⟨rfl, hxy⟩ := tokens_append_inj ts ts' ht.2 ht'.2 (by simpa using hlen) hrest
      exact ⟨rfl, hxy⟩

end

theorem prefixCode_encodeToken : PrefixCode (fun t => tokenFits t = true) encodeToken :=
  fun t t' _ _ ht ht' h => encodeToken_append_inj t t' ht ht' h

/-- Every token starts with its tag, and no tag is the byte of a name. -/
theorem encodeToken_eq_cons (t : SignatureToken) :
    ∃ b bs, encodeToken t = b :: bs ∧ ¬ (48 : UInt8) ≤ b := by
  cases t <;> exact ⟨_, _, rfl, by decide⟩

theorem encodeToken_ne_nil (t : SignatureToken) : encodeToken t ≠ [] := by
  obtain ⟨b, bs, h, -⟩ := encodeToken_eq_cons t
  simp [h]

/-- The tag of a token is below every character of a name. -/
theorem encodeToken_ne_asBytes (t : SignatureToken) {n : Identifier}
    (hn : ∀ b ∈ n.asBytes, (48 : UInt8) ≤ b) : encodeToken t ≠ n.asBytes := by
  intro h
  obtain ⟨b, bs, hb, hlow⟩ := encodeToken_eq_cons t
  exact hlow (hn b (by rw [← h, hb]; exact List.mem_cons_self))

/-- The loop as a concatenation. -/
theorem signatureTokensToBytes_eq (ts : List SignatureToken) :
    signatureTokensToBytes ts = ts.flatMap encodeToken := by
  induction ts with
  | nil => rfl
  | cons t ts ih => rw [signatureTokensToBytes, ih, List.flatMap_cons]

/-- **Token lists.** The bytes of a list of tokens determine the list. -/
theorem signatureTokensToBytes_inj {ts ts' : List SignatureToken} (ht : tokensFit ts = true)
    (ht' : tokensFit ts' = true) (h : signatureTokensToBytes ts = signatureTokensToBytes ts') :
    ts = ts' := by
  rw [signatureTokensToBytes_eq, signatureTokensToBytes_eq] at h
  exact prefixCode_encodeToken.flatMap_injective (fun t _ => encodeToken_ne_nil t)
    (tokensFit_iff.mp ht) (tokensFit_iff.mp ht') h

/-- **A prefix code.** Of tokens whose lists have at most 255 elements, what an encoding followed
by anything says is which token it is and what follows; so the bytes of a list determine it. -/
theorem encodeToken_prefix_code :
    (∀ (t u : SignatureToken) (x y : Bytes), tokenFits t = true → tokenFits u = true →
      encodeToken t ++ x = encodeToken u ++ y → t = u ∧ x = y)
    ∧ ∀ ts us : List SignatureToken, tokensFit ts = true → tokensFit us = true →
      signatureTokensToBytes ts = signatureTokensToBytes us → ts = us := by
  constructor
  · intro t u x y ht hu h
    exact encodeToken_append_inj t u ht hu h
  · intro ts us hts hus h
    exact signatureTokensToBytes_inj hts hus h

/-- A function from references to structs with arguments, to vectors and other functions. -/
def sampleToken : SignatureToken :=
  .function [.reference (.structInstantiation 3 [.u8, .typeParameter 0]), .mutableReference .signer]
    [.vector (.struct 4), .function [] [.bool] ⟨1⟩] ⟨7⟩

theorem encodeToken_prefix_code_sample :
    (tokenFits sampleToken = true ∧ leBytes 2 0x0A0D = [0x0D, 0x0A]
        ∧ encodeToken sampleToken ++ leBytes 2 0x0A0D = encodeToken sampleToken ++ [0x0D, 0x0A])
      ∧ (sampleToken = sampleToken ∧ leBytes 2 0x0A0D = [0x0D, 0x0A])
      ∧ [sampleToken, .bool] = [sampleToken, .bool] := by
  have hfits : tokenFits sampleToken = true := by decide
  have hlist : tokensFit [sampleToken, .bool] = true := by decide
  refine ⟨⟨hfits, rfl, rfl⟩, ?_, ?_⟩
  · exact encodeToken_prefix_code.1 sampleToken sampleToken _ _ hfits hfits rfl
  · exact encodeToken_prefix_code.2 _ _ hlist hlist rfl

/-- The bound is sharp: the count of 256 arguments is written as that of none. -/
theorem encodeToken_structInstantiation_of_wraps {idx : UInt16} {typeArgs : List SignatureToken}
    (h : typeArgs.length % 256 = 0) :
    encodeToken (.structInstantiation idx typeArgs)
      = encodeToken (.structInstantiation idx []) ++ signatureTokensToBytes typeArgs := by
  have hcount : UInt8.ofNat typeArgs.length = UInt8.ofNat 0 := by
    apply UInt8.toNat_inj.mp
    rw [UInt8.toNat_ofNat', UInt8.toNat_ofNat']
    exact h
  simp only [encodeToken, hcount, signatureTokensToBytes, List.length_nil, List.append_assoc,
    List.cons_append, List.nil_append]

/-! ## Lengths -/

/-- What a `u32` length in front of a byte string can count. -/
def LengthFits (bs : Bytes) : Prop := bs.length < 2 ^ 32

instance (bs : Bytes) : Decidable (LengthFits bs) := inferInstanceAs (Decidable (_ < _))

/-- Bytes with their length in front end where the length says. -/
theorem withLength_append_inj {a b x y : Bytes} (ha : LengthFits a) (hb : LengthFits b)
    (h : withLength a ++ x = withLength b ++ y) : a = b ∧ x = y :=
  prefixCode_withLength 4 ha hb h

theorem LengthFits.of_length_le {a b : Bytes} (hb : LengthFits b) (h : a.length ≤ b.length) :
    LengthFits a :=
  Nat.lt_of_le_of_lt h hb

/-- A name that the deserializer lets through: valid, and of a length within its largest limit. -/
def Identifier.Fits (n : Identifier) : Prop := n.IsValid ∧ n.asBytes.length ≤ 65535

instance (n : Identifier) : Decidable n.Fits := inferInstanceAs (Decidable (_ ∧ _))

/-- A name that is told from what follows it: its bytes are `'0'` or above, and its length, as a
`u32`, has a highest byte of zero. -/
structure Identifier.Legible (n : Identifier) : Prop where
  chars : ∀ b ∈ n.asBytes, (48 : UInt8) ≤ b
  length : n.asBytes.length ≤ 65535

/-- What the deserializer lets through can be told from a length or a tag. -/
theorem Identifier.Fits.legible {n : Identifier} (h : n.Fits) : n.Legible :=
  ⟨fun _ hb => h.1.le_of_mem hb, h.2⟩

/-- A legible name is short enough for its length. -/
theorem Identifier.Legible.lengthFits {n : Identifier} (h : n.Legible) : LengthFits n.asBytes :=
  Nat.lt_of_le_of_lt h.length (by decide)

/-! ## Fields -/

/-- A field whose name has `P` and whose type fits. -/
def FieldEntryOf.NamedBy (P : Identifier → Prop) (f : FieldEntry) : Prop :=
  P f.name ∧ tokenFits f.signature = true

def FieldEntryOf.Fits (f : FieldEntry) : Prop := f.name.Fits ∧ tokenFits f.signature = true

abbrev FieldEntryOf.Legible (f : FieldEntry) : Prop := f.NamedBy Identifier.Legible

theorem FieldEntryOf.length_toBytes (f : FieldEntry) :
    f.toBytes.length = 4 + f.name.asBytes.length + (4 + (encodeToken f.signature).length) := by
  simp [FieldEntryOf.toBytes, withLength, u32Le, Nat.add_assoc]

/-- **Fields.** An encoded field, followed by anything, determines the field. -/
theorem prefixCode_field : PrefixCode
    (fun f : FieldEntry => f.Legible ∧ LengthFits (encodeToken f.signature)) FieldEntryOf.toBytes := by
  rintro ⟨name, signature⟩ ⟨name', signature'⟩ x y ⟨⟨hn, ht⟩, hl⟩ ⟨⟨hn', ht'⟩, hl'⟩ h
  simp only [FieldEntryOf.toBytes, List.append_assoc] at h
  obtain ⟨hname, hrest⟩ := withLength_append_inj hn.lengthFits hn'.lengthFits h
  obtain ⟨htoken, hxy⟩ := withLength_append_inj hl hl' hrest
  obtain rfl : name = name' := Identifier.asBytes_inj.mp hname
  obtain rfl : signature = signature' := prefixCode_encodeToken.injective ht ht' htoken
  exact ⟨rfl, hxy⟩

/-- A field has bytes, so a list of fields ends where the bytes do. -/
theorem FieldEntryOf.toBytes_ne_nil (f : FieldEntry) : f.toBytes ≠ [] := by
  intro h
  have := f.length_toBytes
  simp only [h, List.length_nil] at this
  omega

/-! ## Variants -/

/-- The names of the variant and of its fields. -/
def VariantEntryOf.NamedBy (P : Identifier → Prop) (v : VariantEntry) : Prop :=
  P v.name ∧ ∀ f ∈ v.fields, f.NamedBy P

def VariantEntryOf.Fits (v : VariantEntry) : Prop := v.name.Fits ∧ ∀ f ∈ v.fields, f.Fits

abbrev VariantEntryOf.Legible (v : VariantEntry) : Prop := v.NamedBy Identifier.Legible

/-- The bytes end here or go on with a name. -/
def StartsWithName (bs : Bytes) : Prop :=
  bs = [] ∨ ∃ n : Identifier, n.Legible ∧ ∃ rest, bs = withLength n.asBytes ++ rest

/-- What follows a variant is the next one with its name, or the end. -/
theorem startsWithName_variants {vs : List VariantEntry} (h : ∀ v ∈ vs, v.Legible) :
    StartsWithName (vs.flatMap VariantEntryOf.toBytes) := by
  cases vs with
  | nil => exact .inl rfl
  | cons v vs =>
    refine .inr ⟨v.name, (h v List.mem_cons_self).1,
      v.fields.flatMap FieldEntryOf.toBytes ++ vs.flatMap VariantEntryOf.toBytes, ?_⟩
    simp only [List.flatMap_cons, VariantEntryOf.toBytes, List.append_assoc]

/-- Fields in front of that begin with a name as well. -/
theorem startsWithName_fields {fs : List FieldEntry} {rest : Bytes} (h : ∀ f ∈ fs, f.Legible)
    (hrest : StartsWithName rest) :
    StartsWithName (fs.flatMap FieldEntryOf.toBytes ++ rest) := by
  cases fs with
  | nil => exact hrest
  | cons f fs =>
    refine .inr ⟨f.name, (h f List.mem_cons_self).1,
      withLength (encodeToken f.signature) ++ (fs.flatMap FieldEntryOf.toBytes ++ rest), ?_⟩
    simp only [List.flatMap_cons, FieldEntryOf.toBytes, List.append_assoc]

/-- Where a name has to stand, no token with its length can. -/
theorem StartsWithName.ne_token {bs : Bytes} (h : StartsWithName bs) {t : SignatureToken}
    (ht : LengthFits (encodeToken t)) (z : Bytes) : withLength (encodeToken t) ++ z ≠ bs := by
  rintro rfl
  rcases h with hnil | ⟨n, hn, rest, hname⟩
  · simp [withLength, encodeToken_ne_nil] at hnil
  · obtain ⟨hbytes, -⟩ := withLength_append_inj ht hn.lengthFits hname
    exact encodeToken_ne_asBytes t hn.chars hbytes

/-- **Where fields end.** A field is a name and a token. After the fields of a variant comes the
name of the next one, and what follows that is never a token. -/
theorem field_not_prefix_variants {f : FieldEntry} {vs : List VariantEntry} (hf : f.Legible)
    (hl : LengthFits (encodeToken f.signature)) (hvs : ∀ v ∈ vs, v.Legible) :
    ¬ f.toBytes <+: vs.flatMap VariantEntryOf.toBytes := by
  rintro ⟨z, h⟩
  cases vs with
  | nil => simp [f.toBytes_ne_nil] at h
  | cons v vs =>
    have hv := hvs v List.mem_cons_self
    -- the field's name would be the variant's; its token then stands where a name has to
    simp only [List.flatMap_cons, VariantEntryOf.toBytes, FieldEntryOf.toBytes,
      List.append_assoc] at h
    -- the names agree, and behind them stands a token on one side and a name on the other
    obtain ⟨-, hrest⟩ := withLength_append_inj hf.1.lengthFits hv.1.lengthFits h
    have hvariants := startsWithName_variants fun w hw => hvs w (List.mem_cons_of_mem _ hw)
    exact (startsWithName_fields hv.2 hvariants).ne_token hl z hrest

/-- **Variants.** The bytes of a list of variants determine the list. -/
theorem variants_injective {vs ws : List VariantEntry} (hvs : ∀ v ∈ vs, v.Legible)
    (hws : ∀ w ∈ ws, w.Legible)
    (hvl : ∀ v ∈ vs, ∀ f ∈ v.fields, LengthFits (encodeToken f.signature))
    (hwl : ∀ w ∈ ws, ∀ f ∈ w.fields, LengthFits (encodeToken f.signature))
    (h : vs.flatMap VariantEntryOf.toBytes = ws.flatMap VariantEntryOf.toBytes) : vs = ws := by
  induction vs generalizing ws with
  | nil =>
    -- a variant has at least the four bytes of a length
    cases ws with
    | nil => rfl
    | cons w ws => simp [VariantEntryOf.toBytes, withLength, u32Le, leBytes] at h
  | cons v vs ih =>
    cases ws with
    | nil => simp [VariantEntryOf.toBytes, withLength, u32Le, leBytes] at h
    | cons w ws =>
      have hv := hvs v List.mem_cons_self
      have hw := hws w List.mem_cons_self
      have hvs' : ∀ v ∈ vs, v.Legible := fun u hu => hvs u (List.mem_cons_of_mem _ hu)
      have hws' : ∀ w ∈ ws, w.Legible := fun u hu => hws u (List.mem_cons_of_mem _ hu)
      simp only [List.flatMap_cons, VariantEntryOf.toBytes, List.append_assoc] at h
      obtain ⟨hname, hrest⟩ := withLength_append_inj hv.1.lengthFits hw.1.lengthFits h
      -- the number of fields is not written: they end where the next variant's name begins
      obtain ⟨hfields, htail⟩ := prefixCode_field.flatMap_of_delimited
        (fun f hf => ⟨hv.2 f hf, hvl v List.mem_cons_self f hf⟩)
        (fun f hf => ⟨hw.2 f hf, hwl w List.mem_cons_self f hf⟩)
        (fun f hf => field_not_prefix_variants hf.1 hf.2 hvs')
        (fun f hf => field_not_prefix_variants hf.1 hf.2 hws') hrest
      have hrest := ih hvs' hws' (fun u hu => hvl u (List.mem_cons_of_mem _ hu))
        (fun u hu => hwl u (List.mem_cons_of_mem _ hu)) htail
      have hfirst : v = w := VariantEntryOf.ext (Identifier.asBytes_inj.mp hname) hfields
      rw [hfirst, hrest]

/-! ## Layouts -/

/-- All names of a layout. -/
def FieldsEntryOf.NamedBy (P : Identifier → Prop) : FieldsEntry → Prop
  | .native => True
  | .declared fields => ∀ f ∈ fields, f.NamedBy P
  | .declaredVariants variants => ∀ v ∈ variants, v.NamedBy P

def FieldsEntryOf.Fits : FieldsEntry → Prop
  | .native => True
  | .declared fields => ∀ f ∈ fields, f.Fits
  | .declaredVariants variants => ∀ v ∈ variants, v.Fits

/-- Of what fits, only the names matter for telling layouts apart. -/
theorem FieldsEntryOf.Fits.namedBy {e : FieldsEntry} (h : e.Fits) : e.NamedBy Identifier.Fits := by
  cases e with
  | native => trivial
  | declared fields => exact h
  | declaredVariants variants => exact h

/-- A weaker condition on the names. -/
theorem FieldsEntryOf.NamedBy.mono {P Q : Identifier → Prop} (hPQ : ∀ n, P n → Q n)
    {e : FieldsEntry} (h : e.NamedBy P) : e.NamedBy Q := by
  cases e with
  | native => trivial
  | declared fields => exact fun f hf => ⟨hPQ _ (h f hf).1, (h f hf).2⟩
  | declaredVariants variants =>
    intro v hv
    refine ⟨hPQ _ (h v hv).1, fun f hf => ?_⟩
    exact ⟨hPQ _ ((h v hv).2 f hf).1, ((h v hv).2 f hf).2⟩

abbrev FieldsEntryOf.Legible (e : FieldsEntry) : Prop := e.NamedBy Identifier.Legible

/-- A part is not longer than the whole. -/
theorem length_le_length_flatMap {α β : Type} {l : List α} {f : α → List β} {a : α} (h : a ∈ l) :
    (f a).length ≤ (l.flatMap f).length :=
  (List.sublist_flatten_of_mem (List.mem_map_of_mem h)).length_le

/-- The token of a field is shorter than the layout, whose length fits. -/
theorem lengthFits_field {fields : List FieldEntry} {f : FieldEntry} (hf : f ∈ fields)
    (h : LengthFits (fields.flatMap FieldEntryOf.toBytes)) :
    LengthFits (encodeToken f.signature) := by
  have hle := length_le_length_flatMap (f := FieldEntryOf.toBytes) hf
  rw [f.length_toBytes] at hle
  exact h.of_length_le (by omega)

theorem lengthFits_variant {variants : List VariantEntry} {v : VariantEntry} (hv : v ∈ variants)
    {f : FieldEntry} (hf : f ∈ v.fields)
    (h : LengthFits (variants.flatMap VariantEntryOf.toBytes)) :
    LengthFits (encodeToken f.signature) := by
  have hle := length_le_length_flatMap (f := VariantEntryOf.toBytes) hv
  refine lengthFits_field hf (h.of_length_le (Nat.le_trans ?_ hle))
  simp [VariantEntryOf.toBytes]

/-- **The variant marker.** Declared fields start with the length of a name. When that is
`0xFE` modulo 256, what follows the length is a character, and what follows the marker is the
length of a name again, whose highest byte is zero. -/
theorem declared_ne_variants {fields : List FieldEntry} {variants : List VariantEntry}
    (hf : ∀ f ∈ fields, f.Legible) (hv : ∀ v ∈ variants, v.Legible) :
    fields.flatMap FieldEntryOf.toBytes ≠ 0xFE :: variants.flatMap VariantEntryOf.toBytes := by
  intro h
  cases fields with
  | nil => simp at h
  | cons f fields =>
    have hname := (hf f List.mem_cons_self).1
    simp only [List.flatMap_cons, FieldEntryOf.toBytes, withLength, u32Le, leBytes,
      List.append_assoc, List.cons_append, List.nil_append, List.cons.injEq] at h
    obtain ⟨hlow, h⟩ := h
    -- the low byte of the length is 0xFE, so the name is not empty
    cases hbytes : f.name.asBytes with
    | nil => simp [hbytes] at hlow
    | cons c cs =>
      -- the fifth byte: a character on one side, the top byte of a length on the other
      have hc : 48 ≤ c := hname.chars c (by rw [hbytes]; exact List.mem_cons_self)
      cases variants with
      | nil => cases h
      | cons v variants =>
        have hlen := (hv v List.mem_cons_self).1.length
        simp only [hbytes, List.flatMap_cons, VariantEntryOf.toBytes, withLength, u32Le, leBytes,
          List.append_assoc, List.cons_append, List.nil_append, List.cons.injEq] at h
        obtain ⟨-, -, -, hzero, -⟩ := h
        -- a name has at most 65535 bytes, so its length has no fourth byte
        have hhigh : v.name.asBytes.length / 256 / 256 / 256 = 0 := by omega
        rw [hhigh] at hzero
        exact absurd (hzero ▸ hc) (by decide)

/-- The single byte of a native struct is shorter than any field. -/
theorem flatMap_field_ne_native (fields : List FieldEntry) :
    fields.flatMap FieldEntryOf.toBytes ≠ [0xFF] := by
  intro h
  cases fields with
  | nil => cases h
  | cons f fields =>
    have hlen := congrArg List.length h
    simp only [List.flatMap_cons, List.length_append, f.length_toBytes, List.length_singleton]
      at hlen
    omega

/-- **Layouts.** The bytes of a layout determine it. -/
theorem FieldsEntryOf.toBytes_injective {e e' : FieldsEntry} (he : e.Legible) (he' : e'.Legible)
    (hl : LengthFits e.toBytes) (hl' : LengthFits e'.toBytes) (h : e.toBytes = e'.toBytes) :
    e = e' := by
  cases e with
  | native =>
    cases e' with
    | native => rfl
    -- one byte against at least eight
    | declared fields' => exact absurd h.symm (flatMap_field_ne_native fields')
    | declaredVariants variants' => cases h
  | declared fields =>
    cases e' with
    | native => exact absurd h (flatMap_field_ne_native fields)
    | declared fields' =>
      have hfields := prefixCode_field.flatMap_injective (fun f _ => f.toBytes_ne_nil)
        (fun f hf => ⟨he f hf, lengthFits_field hf hl⟩)
        (fun f hf => ⟨he' f hf, lengthFits_field hf hl'⟩) h
      exact congrArg _ hfields
    -- the tag 0xFE would be the length of a name
    | declaredVariants variants' => exact absurd h (declared_ne_variants he he')
  | declaredVariants variants =>
    cases e' with
    | native => cases h
    | declared fields' => exact absurd h.symm (declared_ne_variants he' he)
    | declaredVariants variants' =>
      -- the tag in front takes one byte of the length
      have hvl := hl.of_length_le (Nat.le_succ (variants.flatMap VariantEntryOf.toBytes).length)
      have hvl' := hl'.of_length_le (Nat.le_succ (variants'.flatMap VariantEntryOf.toBytes).length)
      have hvariants := variants_injective he he' (fun v hv f hf => lengthFits_variant hv hf hvl)
        (fun v hv f hf => lengthFits_variant hv hf hvl') (List.cons.inj h).2
      exact congrArg _ hvariants

/-! ## Functions and structs -/

theorem Visibility.toU8_inj {v w : Visibility} (h : v.toU8 = w.toU8) : v = w := by
  cases v <;> cases w <;> first | rfl | cases h

/-- No visibility is a character of a name. -/
theorem Visibility.toU8_low (v : Visibility) : ¬ (48 : UInt8) ≤ v.toU8 := by
  cases v <;> decide

theorem toUInt8_inj {a b : Bool} (h : a.toUInt8 = b.toUInt8) : a = b := by
  revert a b
  decide

/-- A function whose name has `P` and whose types fit. -/
structure FunctionEntry.NamedBy (P : Identifier → Prop) (e : FunctionEntry) : Prop where
  name : P e.name
  params : tokensFit e.params = true
  ret : tokensFit e.ret = true

/-- Within the limits of the deserializer. -/
structure FunctionEntry.Fits (e : FunctionEntry) : Prop where
  name : e.name.Fits
  params : tokensFit e.params = true
  ret : tokensFit e.ret = true

/-- The two lengths that are written are the lengths. -/
def FunctionEntry.LengthsFit (e : FunctionEntry) : Prop :=
  LengthFits (signatureTokensToBytes e.params) ∧ LengthFits (signatureTokensToBytes e.ret)

/-- **Functions.** The name ends where the visibility stands; all else has a known length. -/
theorem prefixCode_function :
    PrefixCode (fun e : FunctionEntry => e.NamedBy Identifier.Legible ∧ e.LengthsFit)
      FunctionEntry.toBytes := by
  rintro ⟨name, visibility, isEntry, params, ret⟩ ⟨name', visibility', isEntry', params', ret'⟩ x y
    ⟨hfit, hp, hr⟩ ⟨hfit', hp', hr'⟩ h
  simp only [FunctionEntry.toBytes, List.append_assoc, List.cons_append] at h
  obtain ⟨hname, hvisibility, hrest⟩ := append_cons_inj_of_delimited
    (p := fun b : UInt8 => 48 ≤ b) hfit.name.chars hfit'.name.chars visibility.toU8_low
    visibility'.toU8_low h
  -- the flag is one byte, so the two lists stand at one place
  obtain ⟨hentry, hlists⟩ := List.cons.inj hrest
  obtain ⟨hparams, hret⟩ := withLength_append_inj hp hp' hlists
  obtain ⟨hret, hxy⟩ := withLength_append_inj hr hr' hret
  obtain rfl : name = name' := Identifier.asBytes_inj.mp hname
  obtain rfl := Visibility.toU8_inj hvisibility
  obtain rfl := toUInt8_inj hentry
  obtain rfl : params = params' := signatureTokensToBytes_inj hfit.params hfit'.params hparams
  obtain rfl : ret = ret' := signatureTokensToBytes_inj hfit.ret hfit'.ret hret
  exact ⟨rfl, hxy⟩

/-- The names of the struct, with abilities that are flags. -/
structure StructEntry.NamedBy (P : Identifier → Prop) (e : StructEntry) : Prop where
  name : P e.name
  abilities : e.abilities.bits ≤ 15
  fields : e.fields.NamedBy P

structure StructEntry.Fits (e : StructEntry) : Prop where
  name : e.name.Fits
  abilities : e.abilities.bits ≤ 15
  fields : e.fields.Fits

def StructEntry.LengthsFit (e : StructEntry) : Prop := LengthFits e.fields.toBytes

/-- No set of abilities is a character of a name. -/
theorem StructEntry.NamedBy.abilities_low {P : Identifier → Prop} {e : StructEntry}
    (h : e.NamedBy P) : ¬ (48 : UInt8) ≤ e.abilities.bits := by
  have := h.abilities
  simp only [UInt8.le_iff_toNat_le] at this ⊢
  simp only [UInt8.toNat_ofNat] at this ⊢
  omega

/-- **Structs.** The name ends where the abilities stand; the layout has its length in front. -/
theorem prefixCode_struct :
    PrefixCode (fun e : StructEntry => e.NamedBy Identifier.Legible ∧ e.LengthsFit)
      StructEntry.toBytes := by
  rintro ⟨name, abilities, fields⟩ ⟨name', abilities', fields'⟩ x y ⟨hfit, hl⟩ ⟨hfit', hl'⟩ h
  simp only [StructEntry.toBytes, List.append_assoc, List.cons_append] at h
  obtain ⟨hname, habilities, hrest⟩ := append_cons_inj_of_delimited
    (p := fun b : UInt8 => 48 ≤ b) hfit.name.chars hfit'.name.chars hfit.abilities_low
    hfit'.abilities_low h
  obtain ⟨hfields, hxy⟩ := withLength_append_inj hl hl' hrest
  obtain rfl : name = name' := Identifier.asBytes_inj.mp hname
  obtain rfl : abilities = abilities' := congrArg AbilitySet.mk habilities
  -- the layout, read with the length that was in front of it
  obtain rfl : fields = fields' :=
    FieldsEntryOf.toBytes_injective hfit.fields hfit'.fields hl hl' hfields
  exact ⟨rfl, hxy⟩

/-! ## The preimage -/

namespace CompiledModule

/-- Entries whose names have `P`, whose types and lengths fit, and as many as a `u32` counts. -/
structure EntriesNamedBy (P : Identifier → Prop) (m : CompiledModule) : Prop where
  functionCount : m.functionEntries.length < 2 ^ 32
  functions : ∀ e ∈ m.functionEntries, e.NamedBy P ∧ e.LengthsFit
  structCount : m.structEntries.length < 2 ^ 32
  structs : ∀ e ∈ m.structEntries, e.NamedBy P ∧ e.LengthsFit

/-- A weaker condition on all names of the module. -/
theorem EntriesNamedBy.mono {P Q : Identifier → Prop} (hPQ : ∀ n, P n → Q n) {m : CompiledModule}
    (h : m.EntriesNamedBy P) : m.EntriesNamedBy Q where
  functionCount := h.functionCount
  functions e he := by
    obtain ⟨hnamed, hl⟩ := h.functions e he
    exact ⟨⟨hPQ _ hnamed.name, hnamed.params, hnamed.ret⟩, hl⟩
  structCount := h.structCount
  structs e he := by
    obtain ⟨hnamed, hl⟩ := h.structs e he
    exact ⟨⟨hPQ _ hnamed.name, hnamed.abilities, hnamed.fields.mono hPQ⟩, hl⟩

/-- All entries within the limits, and as many as four bytes can count. -/
structure EntriesFit (m : CompiledModule) : Prop where
  functionCount : m.functionEntries.length < 2 ^ 32
  functions : ∀ e ∈ m.functionEntries, e.Fits ∧ e.LengthsFit
  structCount : m.structEntries.length < 2 ^ 32
  structs : ∀ e ∈ m.structEntries, e.Fits ∧ e.LengthsFit

theorem EntriesFit.namedBy {m : CompiledModule} (h : m.EntriesFit) :
    m.EntriesNamedBy Identifier.Fits where
  functionCount := h.functionCount
  functions e he := by
    obtain ⟨hfit, hl⟩ := h.functions e he
    exact ⟨⟨hfit.name, hfit.params, hfit.ret⟩, hl⟩
  structCount := h.structCount
  structs e he := by
    obtain ⟨hfit, hl⟩ := h.structs e he
    exact ⟨⟨hfit.name, hfit.abilities, hfit.fields.namedBy⟩, hl⟩

/-- Within the limits, every name is legible. -/
theorem EntriesFit.legible {m : CompiledModule} (h : m.EntriesFit) :
    m.EntriesNamedBy Identifier.Legible :=
  h.namedBy.mono fun _ hn => hn.legible

/-- **Reading back.** One preimage, one list of entries, if every name is legible. -/
theorem entries_of_abiPreimage_eq {m₁ m₂ : CompiledModule}
    (h₁ : m₁.EntriesNamedBy Identifier.Legible)
    (h₂ : m₂.EntriesNamedBy Identifier.Legible) (h : m₁.abiPreimage = m₂.abiPreimage) :
    m₁.functionEntries = m₂.functionEntries ∧ m₁.structEntries = m₂.structEntries := by
  simp only [abiPreimage, u32Le, List.append_assoc] at h
  -- first the functions: as many as the count says, then the second literal
  obtain ⟨hcount, hrest⟩ :=
    leBytes_append_inj h₁.functionCount h₂.functionCount (List.append_cancel_left h)
  obtain ⟨hfunctions, hrest⟩ :=
    prefixCode_function.flatMap h₁.functions h₂.functions hcount hrest
  obtain ⟨hcount, hrest⟩ :=
    leBytes_append_inj h₁.structCount h₂.structCount (List.append_cancel_left hrest)
  obtain ⟨hstructs, -⟩ := prefixCode_struct.flatMap (x := []) (y := []) h₁.structs h₂.structs
    hcount (by simpa using hrest)
  exact ⟨hfunctions, hstructs⟩

end CompiledModule

end NexusMove
