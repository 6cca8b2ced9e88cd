/-!
# Results

Inversion of the `Except` operations: what a successful or a failed composite says
about its parts. Composite functions are taken apart with these and never unfolded.

* `bind_eq_ok`, `bind_eq_error` — inversion of a sequence.
* `OnError` — a property of every error a computation may end with.
-/

namespace Except

variable {ε δ α β : Type}

theorem ok_bind (a : α) (f : α → Except ε β) : (.ok a >>= f) = f a := rfl

theorem error_bind (e : ε) (f : α → Except ε β) : (.error e >>= f) = .error e := rfl

theorem throw_eq (e : ε) : (throw e : Except ε α) = .error e := rfl

@[simp] theorem bind_eq_ok {x : Except ε α} {f : α → Except ε β} {b : β} :
    (x >>= f) = .ok b ↔ ∃ a, x = .ok a ∧ f a = .ok b := by
  cases x with
  | error e => simp [bind, Except.bind]
  | ok a => simp [bind, Except.bind]

/-- Inversion of a sequence whose first step returns nothing. -/
theorem bind_unit_eq_ok {x : Except ε Unit} {f : Unit → Except ε β} {b : β} :
    (x >>= f) = .ok b ↔ x = .ok () ∧ f () = .ok b := by
  rw [bind_eq_ok]
  exact ⟨fun ⟨(), hx, hf⟩ => ⟨hx, hf⟩, fun ⟨hx, hf⟩ => ⟨(), hx, hf⟩⟩

/-- A sequence fails where its first step does, or where the second does after it. -/
theorem bind_eq_error {x : Except ε α} {f : α → Except ε β} {e : ε} :
    (x >>= f) = .error e ↔ x = .error e ∨ ∃ a, x = .ok a ∧ f a = .error e := by
  cases x with
  | error e' => simp [bind, Except.bind]
  | ok a => simp [bind, Except.bind]

@[simp] theorem mapError_ok (f : ε → δ) (a : α) : (Except.ok a : Except ε α).mapError f = .ok a :=
  rfl

@[simp] theorem mapError_error (f : ε → δ) (e : ε) :
    (Except.error e : Except ε α).mapError f = .error (f e) :=
  rfl

@[simp] theorem mapError_eq_ok {x : Except ε α} {f : ε → δ} {a : α} :
    x.mapError f = .ok a ↔ x = .ok a := by
  cases x <;> simp

@[simp] theorem pure_eq_ok {a b : α} : (pure a : Except ε α) = .ok b ↔ a = b := by
  simp [pure, Except.pure]

@[simp] theorem throw_ne_ok {e : ε} {a : α} : (throw e : Except ε α) ≠ .ok a := by
  simp [throw, throwThe, MonadExceptOf.throw]

theorem toOption_eq_some {x : Except ε α} {a : α} : x.toOption = some a ↔ x = .ok a := by
  cases x with
  | error e => simp [Except.toOption]
  | ok b => simp [Except.toOption]

/-! ## Properties of errors -/

/-- Every error the computation may end with has the property. -/
def OnError (P : ε → Prop) (x : Except ε α) : Prop := ∀ e, x = .error e → P e

variable {P : ε → Prop}

theorem onError_ok (a : α) : OnError P (.ok a : Except ε α) := by
  intro e h
  cases h

theorem onError_error {e : ε} (he : P e) : OnError P (.error e : Except ε α) := by
  intro e' h
  cases h
  exact he

theorem onError_mapError_of {f : δ → ε} {x : Except δ α} (hf : ∀ e, x = .error e → P (f e)) :
    OnError P (x.mapError f) := by
  cases x with
  | ok a => exact onError_ok a
  | error e => exact onError_error (hf e rfl)

theorem onError_mapError {f : δ → ε} (hf : ∀ e, P (f e)) (x : Except δ α) :
    OnError P (x.mapError f) :=
  onError_mapError_of fun e _ => hf e

/-- An error of a sequence is one of its first part, or of its second after a first that succeeded. -/
theorem OnError.bind_of_ok {x : Except ε α} {f : α → Except ε β} (hx : OnError P x)
    (hf : ∀ a, x = .ok a → OnError P (f a)) : OnError P (x >>= f) := by
  intro e h
  rcases bind_eq_error.mp h with hxe | ⟨a, hxa, hfe⟩
  · exact hx e hxe
  · exact hf a hxa e hfe

theorem OnError.bind {x : Except ε α} {f : α → Except ε β} (hx : OnError P x)
    (hf : ∀ a, OnError P (f a)) : OnError P (x >>= f) :=
  hx.bind_of_ok fun a _ => hf a

end Except
