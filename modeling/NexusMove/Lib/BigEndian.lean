import Mathlib.Data.Nat.Digits.Defs

/-!
# Numbers with the most significant digit first

Mathlib reads lists of digits with the least significant digit first. Written numbers
and byte strings in network order have it the other way round.

* `BigEndian.value` — the number that digits in a base denote.
* `BigEndian.value_inj` — numbers of one width determine their digits.
* `BigEndian.value_pairs` — every digit split in two, in the base of which the first
  base is the square.
-/

namespace BigEndian

variable {b : Nat}

def value (b : Nat) (ds : List Nat) : Nat := Nat.ofDigits b ds.reverse

theorem value_cons (d : Nat) (ds : List Nat) :
    value b (d :: ds) = d * b ^ ds.length + value b ds := by
  rw [value, List.reverse_cons, Nat.ofDigits_append, Nat.ofDigits_singleton, List.length_reverse,
    Nat.add_comm, Nat.mul_comm]
  rfl

/-- Leading zeros count for nothing. -/
theorem value_replicate_append (k : Nat) (ds : List Nat) :
    value b (List.replicate k 0 ++ ds) = value b ds := by
  rw [value, List.reverse_append, List.reverse_replicate, Nat.ofDigits_append_replicate_zero]
  rfl

theorem value_inj (hb : 1 < b) {ds es : List Nat} (hlen : ds.length = es.length)
    (hds : ∀ d ∈ ds, d < b) (hes : ∀ e ∈ es, e < b) : value b ds = value b es ↔ ds = es := by
  constructor
  · intro h
    have hlen' : ds.reverse.length = es.reverse.length := by simpa using hlen
    have hreverse := Nat.ofDigits_inj_of_len_eq hb hlen'
      (fun d hd => hds d (List.mem_reverse.mp hd))
      (fun e he => hes e (List.mem_reverse.mp he)) h
    exact List.reverse_inj.mp hreverse
  · exact congrArg _

/-- A number in the base `b * b`, every digit of it written as two in the base `b`. -/
def pairs (b : Nat) (ds : List Nat) : List Nat := ds.flatMap fun d => [d / b, d % b]

@[simp] theorem pairs_cons (d : Nat) (ds : List Nat) :
    pairs b (d :: ds) = d / b :: d % b :: pairs b ds := rfl

@[simp] theorem length_pairs (ds : List Nat) : (pairs b ds).length = 2 * ds.length := by
  induction ds with
  | nil => rfl
  | cons d ds ih =>
    rw [pairs_cons, List.length_cons, List.length_cons, List.length_cons, ih]
    omega

theorem value_pairs (ds : List Nat) : value b (pairs b ds) = value (b * b) ds := by
  induction ds with
  | nil => rfl
  | cons d ds ih =>
    have hpow : b ^ (2 * ds.length) = (b * b) ^ ds.length := by rw [Nat.pow_mul, Nat.pow_two]
    have hdigit : d / b * b + d % b = d := Nat.div_add_mod' d b
    rw [pairs_cons, value_cons, value_cons, value_cons, ih, List.length_cons, length_pairs,
      Nat.pow_succ, hpow]
    calc d / b * ((b * b) ^ ds.length * b) + (d % b * (b * b) ^ ds.length + value (b * b) ds)
        = (d / b * b + d % b) * (b * b) ^ ds.length + value (b * b) ds := by
          rw [Nat.add_mul, Nat.mul_comm ((b * b) ^ ds.length) b, ← Nat.mul_assoc, Nat.add_assoc]
      _ = d * (b * b) ^ ds.length + value (b * b) ds := by rw [hdigit]

/-- Digits in the base `b` that come in pairs, as a number in the base `b * b`. -/
theorem exists_pairs (hb : 0 < b) : ∀ {ds : List Nat}, ds.length % 2 = 0 → (∀ d ∈ ds, d < b) →
    ∃ es, pairs b es = ds ∧ ∀ e ∈ es, e < b * b
  | [], _, _ => ⟨[], rfl, by simp⟩
  | d :: e :: ds, heven, hds => by
    have heven' : ds.length % 2 = 0 := by
      rw [List.length_cons, List.length_cons] at heven
      omega
    obtain ⟨es, hes, hlt⟩ := exists_pairs hb heven' fun x hx => hds x (by simp [hx])
    have hd : d < b := hds d (by simp)
    have he : e < b := hds e (by simp)
    refine ⟨(d * b + e) :: es, ?_, ?_⟩
    · have hdiv : (d * b + e) / b = d := by
        rw [Nat.mul_comm, Nat.mul_add_div hb, Nat.div_eq_of_lt he, Nat.add_zero]
      have hmod : (d * b + e) % b = e := by
        rw [Nat.mul_comm, Nat.mul_add_mod, Nat.mod_eq_of_lt he]
      rw [pairs_cons, hdiv, hmod, hes]
    · intro x hx
      rcases List.mem_cons.mp hx with rfl | hx
      · calc d * b + e < d * b + b := by omega
          _ = (d + 1) * b := by rw [Nat.add_mul, Nat.one_mul]
          _ ≤ b * b := Nat.mul_le_mul_right b hd
      · exact hlt x hx

end BigEndian
