import Mathlib.Logic.Basic

/-!
# Metered computations with a memo table

A computation that hands a cost through and fails once the cost is past a limit. A
memo table keeps results together with what they cost; finding one charges the
whole cost at once. That is as good as computing it anew: the same result at the
same cost, or a failure on both sides, which may be worded differently.

Costs are machine words and are added as such. Twice the limit has to be a word, and
the limit with each single amount on top: then no sum wraps around before it is
compared with the limit. Without that a price charged at once may wrap around where
its parts, charged one by one, do not.

* `Metered.Uniform` — what a computation costs does not depend on where it starts.
* `Memo.Agrees` — a computation with a table does what one without does.
* `Memo.agrees_memo` — looking a result up and keeping it, in a table of right results.
-/

/-- A computation that hands a cost through. -/
abbrev Metered (ε α : Type) := StateT UInt64 (Except ε) α

/-- Two outcomes that are the same result, or failures with the same status. -/
def Except.Alike {ε σ α : Type} (status : ε → σ) : Except ε α → Except ε α → Prop
  | .ok a, .ok b => a = b
  | .error e, .error f => status e = status f
  | _, _ => False

namespace Except.Alike

variable {ε σ α β : Type} {status : ε → σ}

theorem refl (x : Except ε α) : Alike status x x := by
  cases x with
  | error _ => exact rfl
  | ok _ => exact rfl

theorem symm {x y : Except ε α} (h : Alike status x y) : Alike status y x := by
  cases x <;> cases y <;> first | exact Eq.symm h | exact h

/-- What is like a success is that success. -/
theorem eq_ok {x : Except ε α} {a : α} (h : Alike status x (.ok a)) : x = .ok a := by
  cases x with
  | error _ => exact False.elim h
  | ok b => exact congrArg _ h

/-- What fails like an error is an error of its status. -/
theorem exists_error {x : Except ε α} {e : ε} (h : Alike status x (.error e)) :
    ∃ f, x = .error f ∧ status f = status e := by
  cases x with
  | error f => exact ⟨f, rfl, h⟩
  | ok _ => exact False.elim h

end Except.Alike

namespace Metered

open Except (Alike)

variable {ε σ α β : Type} (status : ε → σ) (tooMuch : UInt64 → ε) (limit : UInt64)

def charge (amount : UInt64) : Metered ε Unit := fun cost =>
  if limit < cost + amount then .error (tooMuch amount) else .ok ((), cost + amount)

/-- The outcome of a computation that gives `a` for the price `p`, from where the cost is `c`. -/
def priced (a : α) (p c : UInt64) : Except ε (α × UInt64) :=
  if limit < c + p then .error (tooMuch p) else .ok (a, c + p)

/-- From every cost below the limit, the computation gives `a` for the price `p`. -/
def Costs (x : Metered ε α) (a : α) (p : UInt64) : Prop :=
  ∀ c ≤ limit, Alike status (x c) (priced tooMuch limit a p c)

/-- An amount that can be charged anywhere below the limit without the sum wrapping around. -/
def Fits (amount : UInt64) : Prop := limit.toNat + amount.toNat < UInt64.size

/-- A computation whose result and price, once it succeeds somewhere, are the same everywhere. -/
def Uniform (x : Metered ε α) : Prop :=
  ∀ c a c', c ≤ limit → x c = .ok (a, c') →
    c ≤ c' ∧ c' ≤ limit ∧ Costs status tooMuch limit x a (c' - c)

variable {status tooMuch limit}

/-! ## Sums of costs -/

/-- A charge that fits twice into the counter does not wrap around. -/
theorem toNat_add_of_fits {amount c : UInt64} (h : Fits limit amount) (hc : c ≤ limit) :
    (c + amount).toNat = c.toNat + amount.toNat := by
  have hle : c.toNat ≤ limit.toNat := hc
  have hroom : c.toNat + amount.toNat < UInt64.size :=
    Nat.lt_of_le_of_lt (Nat.add_le_add_right hle _) h
  rw [UInt64.toNat_add, Nat.mod_eq_of_lt hroom]

/-- What one computation spent below the limit fits in another one's account. -/
theorem fits_sub {c c' : UInt64} (htwice : Fits limit limit) (hle : c ≤ c') (hlim : c' ≤ limit) :
    Fits limit (c' - c) := by
  have hle' : c'.toNat ≤ limit.toNat := hlim
  unfold Fits at htwice ⊢
  rw [UInt64.toNat_sub_of_le _ _ hle]
  omega

/-- The second part starts from the count that the first one leaves. -/
theorem bind_apply (x : Metered ε α) (f : α → Metered ε β) (c : UInt64) :
    (x >>= f) c = x c >>= fun r => f r.1 r.2 := rfl

/-! ## Prices -/

theorem uniform_pure (a : α) : Uniform status tooMuch limit (pure a : Metered ε α) := by
  intro c b c' hc h
  obtain ⟨rfl, rfl⟩ := Prod.mk.inj (Except.ok.inj h)
  refine ⟨UInt64.le_refl c, hc, fun d hd => ?_⟩
  rw [UInt64.sub_self, priced, UInt64.add_zero, if_neg (UInt64.not_lt.mpr hd)]
  exact .refl _

theorem uniform_throw (e : ε) : Uniform status tooMuch limit (throw e : Metered ε α) := by
  intro c a c' _ h
  cases h

/-- A charge costs its amount. -/
theorem uniform_charge {p : UInt64} (hp : Fits limit p) :
    Uniform status tooMuch limit (charge tooMuch limit p : Metered ε Unit) := by
  intro c a c' hc h
  unfold charge at h
  split at h
  · cases h
  · rename_i hle
    obtain ⟨rfl, rfl⟩ := Prod.mk.inj (Except.ok.inj h)
    have hsum := toNat_add_of_fits hp hc
    refine ⟨?_, UInt64.not_lt.mp hle, fun d hd => ?_⟩
    · rw [UInt64.le_iff_toNat_le, hsum]
      exact Nat.le_add_right ..
    · have hback : c + p - c = p := by grind
      rw [hback]
      exact .refl _

variable (hstatus : ∀ p q, status (tooMuch p) = status (tooMuch q)) (htwice : Fits limit limit)

include hstatus htwice in
/-- **Composition.** Prices add up. Where the sum is past the limit, one of the two parts fails. -/
theorem Uniform.bind {x : Metered ε α} {f : α → Metered ε β}
    (hx : Uniform status tooMuch limit x) (hf : ∀ a, Uniform status tooMuch limit (f a)) :
    Uniform status tooMuch limit (x >>= f) := by
  intro c b c'' hc h
  rw [bind_apply] at h
  cases hxc : x c with
  | error e => rw [hxc] at h; cases h
  | ok r =>
    obtain ⟨a, c'⟩ := r
    rw [hxc] at h
    obtain ⟨hle, hlim, hcosts⟩ := hx c a c' hc hxc
    obtain ⟨hle', hlim', hcosts'⟩ := hf a c' b c'' hlim h
    refine ⟨UInt64.le_trans hle hle', hlim', fun d hd => ?_⟩
    rw [bind_apply]
    have hsum : d + (c' - c) + (c'' - c') = d + (c'' - c) := by grind
    have hfirst := hcosts d hd
    unfold priced at hfirst
    split at hfirst
    · -- the first part is too much already, and the whole is no less: neither sum wraps around
      rename_i hover
      have hpart := toNat_add_of_fits (fits_sub htwice hle hlim) hd
      have hwhole := toNat_add_of_fits
        (fits_sub htwice (UInt64.le_trans hle hle') hlim') hd
      rw [UInt64.toNat_sub_of_le _ _ hle] at hpart
      rw [UInt64.toNat_sub_of_le _ _ (UInt64.le_trans hle hle')] at hwhole
      rw [UInt64.lt_iff_toNat_lt, hpart] at hover
      have hover' : limit < d + (c'' - c) := by
        rw [UInt64.lt_iff_toNat_lt, hwhole]
        rw [UInt64.le_iff_toNat_le] at hle'
        omega
      obtain ⟨e, he, hes⟩ := hfirst.exists_error
      rw [he, priced, if_pos hover']
      show status e = status (tooMuch _)
      rw [hes, hstatus]
    · rename_i hwithin
      rw [hfirst.eq_ok]
      have hsecond := hcosts' (d + (c' - c)) (UInt64.not_lt.mp hwithin)
      unfold priced at hsecond ⊢
      rw [hsum] at hsecond
      split at hsecond
      · rename_i hover
        rw [if_pos hover]
        obtain ⟨e, he, hes⟩ := hsecond.exists_error
        show Alike status (f a (d + (c' - c))) _
        rw [he]
        show status e = status (tooMuch _)
        rw [hes, hstatus]
      · rename_i hok
        rw [if_neg hok]
        show Alike status (f a (d + (c' - c))) _
        rw [hsecond.eq_ok]
        exact rfl

end Metered

/-- A computation that hands a cost and a table through. The table stays when it fails. -/
abbrev Memo (ε C α : Type) := StateT UInt64 (ExceptT ε (StateM C)) α

namespace Memo

open Except (Alike)
open Metered (Uniform Costs priced)

variable {ε σ C α β : Type}

def run (x : Memo ε C α) (cost : UInt64) (table : C) : Except ε (α × UInt64) × C := x cost table

def charge (tooMuch : UInt64 → ε) (limit amount : UInt64) : Memo ε C Unit := fun cost =>
  if limit < cost + amount then throw (tooMuch amount) else pure ((), cost + amount)

/-- Look a result up and charge its price, or compute it and keep it with what it cost. -/
def memo (tooMuch : UInt64 → ε) (limit : UInt64) (look : C → Option (α × UInt64))
    (store : α × UInt64 → C → C) (x : Memo ε C α) : Memo ε C α := fun cost table =>
  match look table with
  | some (a, p) => (priced tooMuch limit a p cost, table)
  | none =>
    match run x cost table with
    | (.ok (a, cost'), table) => (.ok (a, cost'), store (a, cost' - cost) table)
    | (.error e, table) => (.error e, table)

variable (status : ε → σ) (tooMuch : UInt64 → ε) (limit : UInt64) (Right : C → Prop)

/-- From a right table, the first computation does what the second does, and leaves a right table. -/
def Agrees (x : Memo ε C α) (y : Metered ε α) : Prop :=
  ∀ cost ≤ limit, ∀ table, Right table →
    Right (run x cost table).2 ∧ Alike status (run x cost table).1 (y cost)

variable {status tooMuch limit Right}

theorem agrees_pure (a : α) : Agrees status limit Right (pure a : Memo ε C α) (pure a) :=
  fun _ _ _ htable => ⟨htable, .refl _⟩

theorem agrees_throw (e : ε) : Agrees status limit Right (throw e : Memo ε C α) (throw e) :=
  fun _ _ _ htable => ⟨htable, .refl _⟩

/-- A charge leaves the table alone. -/
theorem agrees_charge (p : UInt64) : Agrees status limit Right
    (charge tooMuch limit p : Memo ε C Unit) (Metered.charge tooMuch limit p) := by
  intro cost _ table htable
  unfold run charge Metered.charge
  split
  · exact ⟨htable, .refl _⟩
  · exact ⟨htable, .refl _⟩

theorem run_bind (x : Memo ε C α) (f : α → Memo ε C β) (cost : UInt64) (table : C) :
    run (x >>= f) cost table =
      match run x cost table with
      | (.ok (a, cost'), table') => run (f a) cost' table'
      | (.error e, table') => (.error e, table') := by
  unfold run
  simp only [bind, StateT.bind, ExceptT.bind, ExceptT.mk, ExceptT.bindCont]
  cases x cost table with
  | mk r table' => cases r <;> rfl

/-- **Composition.** -/
theorem Agrees.bind {x : Memo ε C α} {y : Metered ε α} {f : α → Memo ε C β} {g : α → Metered ε β}
    (hy : Uniform status tooMuch limit y) (hx : Agrees status limit Right x y)
    (hf : ∀ a, Agrees status limit Right (f a) (g a)) :
    Agrees status limit Right (x >>= f) (y >>= g) := by
  intro cost hcost table htable
  obtain ⟨hright, halike⟩ := hx cost hcost table htable
  rw [run_bind, Metered.bind_apply]
  cases hyc : y cost with
  | error e =>
    rw [hyc] at halike
    obtain ⟨e', he', hes⟩ := halike.exists_error
    cases hrun : run x cost table with
    | mk r table' =>
      rw [hrun] at he' hright
      subst he'
      exact ⟨hright, hes⟩
  | ok r =>
    obtain ⟨a, cost'⟩ := r
    rw [hyc] at halike
    have heq := halike.eq_ok
    cases hrun : run x cost table with
    | mk r table' =>
      rw [hrun] at heq hright
      subst heq
      exact hf a cost' (hy cost a cost' hcost hyc).2.1 table' hright

/-- **The memo table.** If what is found in right tables has its price, and right results at their
price may be kept, then looking up first changes nothing. -/
theorem agrees_memo {look : C → Option (α × UInt64)} {store : α × UInt64 → C → C}
    {x : Memo ε C α} {y : Metered ε α} (hy : Uniform status tooMuch limit y) (hx : Agrees status limit Right x y)
    (hlook : ∀ table, Right table → ∀ a p, look table = some (a, p) →
      Costs status tooMuch limit y a p)
    (hstore : ∀ table, Right table → ∀ a p, Costs status tooMuch limit y a p →
      Right (store (a, p) table)) :
    Agrees status limit Right (memo tooMuch limit look store x) y := by
  intro cost hcost table htable
  unfold run memo
  cases hfound : look table with
  | some r =>
    obtain ⟨a, p⟩ := r
    exact ⟨htable, (hlook table htable a p hfound cost hcost).symm⟩
  | none =>
    obtain ⟨hright, halike⟩ := hx cost hcost table htable
    dsimp only
    cases hrun : run x cost table with
    | mk r table' =>
      rw [hrun] at hright halike
      cases r with
      | error e => exact ⟨hright, halike⟩
      | ok r =>
        obtain ⟨a, cost'⟩ := r
        have hok : y cost = .ok (a, cost') := halike.symm.eq_ok
        refine ⟨hstore table' hright a _ (hy cost a cost' hcost hok).2.2, ?_⟩
        rw [hok]
        exact .refl _

end Memo
