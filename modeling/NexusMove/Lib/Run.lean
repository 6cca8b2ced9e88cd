import Mathlib.Logic.Basic

/-!
# Runs of a deterministic system

A system takes one event after another from a state; a run is a list of events.
The invariant rule below packages the induction over a run once: a property
kept by every step is kept by every run.

* `Run.invariant` — a preserved property holds after every run.
* `Run.everyStep_iff` — a condition on all steps, position by position.
* `Run.invariant_of_everyStep` — what such steps preserve.
* `Run.history` — what holds after a run, read off the steps it took.
* `Run.lastStep_or_none` — what a run leaves in a place is what its last writer put there.
-/

namespace Run

variable {σ ε : Type} (step : σ → ε → σ)

def exec (s : σ) (es : List ε) : σ := es.foldl step s

@[simp] theorem exec_nil (s : σ) : exec step s [] = s := rfl

@[simp] theorem exec_cons (s : σ) (e : ε) (es : List ε) :
    exec step s (e :: es) = exec step (step s e) es := rfl

theorem exec_append (s : σ) (es fs : List ε) :
    exec step s (es ++ fs) = exec step (exec step s es) fs :=
  List.foldl_append

def Reachable (s₀ s : σ) : Prop := ∃ es, exec step s₀ es = s

variable {step}

/-- **Invariant rule.** A property that every step keeps holds after every run. -/
theorem invariant {P : σ → Prop} (hstep : ∀ s e, P s → P (step s e)) {s : σ} (hs : P s)
    (es : List ε) : P (exec step s es) := by
  induction es generalizing s with
  | nil => exact hs
  | cons e es ih => exact ih (hstep s e hs)

theorem Reachable.invariant {P : σ → Prop} {s₀ s : σ} (h : Reachable step s₀ s) (h₀ : P s₀)
    (hstep : ∀ s e, P s → P (step s e)) : P s := by
  obtain ⟨es, rfl⟩ := h
  exact Run.invariant hstep h₀ es

/-! ## Conditions on the steps of a run -/

variable (step) in
/-- Every step of the run from `s` meets `C`, a condition on the state before it and its event. -/
def EveryStep (C : σ → ε → Prop) : σ → List ε → Prop
  | _, [] => True
  | s, e :: es => C s e ∧ EveryStep C (step s e) es

/-- The steps of a run are its events, each taken from the state the events before it lead to. -/
theorem everyStep_iff {C : σ → ε → Prop} {s : σ} {es : List ε} :
    EveryStep step C s es ↔ ∀ pre e post, es = pre ++ e :: post → C (exec step s pre) e := by
  induction es generalizing s with
  | nil => simp [EveryStep]
  | cons e es ih =>
    simp only [EveryStep, ih]
    constructor
    · rintro ⟨he, hes⟩ pre e' post hsplit
      cases pre with
      | nil =>
        -- the step in question is the first one
        obtain ⟨rfl, rfl⟩ : e = e' ∧ es = post := by simpa using hsplit
        exact he
      | cons p pre =>
        obtain ⟨rfl, htail⟩ : e = p ∧ es = pre ++ e' :: post := by simpa using hsplit
        exact hes pre e' post htail
    · intro h
      refine ⟨h [] e es rfl, ?_⟩
      intro pre e' post hsplit
      exact h (e :: pre) e' post (by rw [hsplit]; rfl)

/-- **Invariant rule, under a condition.** What every step that meets the condition keeps holds
after every run whose steps meet it. -/
theorem invariant_of_everyStep {P : σ → Prop} {C : σ → ε → Prop}
    (hstep : ∀ s e, P s → C s e → P (step s e)) {s : σ} (hs : P s) {es : List ε}
    (hes : EveryStep step C s es) : P (exec step s es) := by
  induction es generalizing s with
  | nil => exact hs
  | cons e es ih => exact ih (hstep s e hs hes.1) hes.2

variable (step) in
def SomeStep (C : σ → ε → Prop) : σ → List ε → Prop
  | _, [] => False
  | s, e :: es => C s e ∨ SomeStep C (step s e) es

/-- **History rule.** If a step makes `P` true exactly when it meets `C` or `P` held already, then
`P` holds after a run exactly when it held before or some step met `C`. -/
theorem history (P : σ → Prop) {C : σ → ε → Prop}
    (hstep : ∀ s e, P (step s e) ↔ P s ∨ C s e) (s : σ) (es : List ε) :
    P (exec step s es) ↔ P s ∨ SomeStep step C s es := by
  induction es generalizing s with
  | nil => simp [SomeStep]
  | cons e es ih => rw [exec_cons, ih, hstep, SomeStep, or_assoc]

/-! ## The last step of a kind -/

variable (step) in
/-- The last step of the run from `s` that meets `C` takes the event `e` in the state `t`. -/
def LastStep (C : σ → ε → Prop) (s : σ) (es : List ε) (t : σ) (e : ε) : Prop :=
  ∃ pre post, es = pre ++ e :: post ∧ exec step s pre = t ∧ C t e
    ∧ EveryStep step (fun s e => ¬ C s e) (step t e) post

theorem LastStep.cons {C : σ → ε → Prop} {s t : σ} {e d : ε} {es : List ε}
    (h : LastStep step C (step s d) es t e) : LastStep step C s (d :: es) t e := by
  obtain ⟨pre, post, rfl, ht, hC, hpost⟩ := h
  exact ⟨d :: pre, post, rfl, ht, hC, hpost⟩

/-- **Last-writer rule.** Let every step that meets `C` put `w e` where `f` looks, and every other
step leave that place alone. After a run, `f` finds what the last step that met `C` put there, or
what was there before if there was none. -/
theorem lastStep_or_none {β : Type} (f : σ → β) (w : ε → β) {C : σ → ε → Prop}
    (hwrite : ∀ s e, C s e → f (step s e) = w e)
    (hkeep : ∀ s e, ¬ C s e → f (step s e) = f s) (s : σ) (es : List ε) :
    (∃ t e, LastStep step C s es t e ∧ f (exec step s es) = w e)
    ∨ (EveryStep step (fun s e => ¬ C s e) s es ∧ f (exec step s es) = f s) := by
  induction es generalizing s with
  | nil => exact .inr ⟨trivial, rfl⟩
  | cons e es ih =>
    rcases ih (step s e) with ⟨t, d, hlast, heq⟩ | ⟨hnone, heq⟩
    · exact .inl ⟨t, d, hlast.cons, heq⟩
    · -- no later step meets `C`, so it is the first step or none
      by_cases he : C s e
      · exact .inl ⟨s, e, ⟨[], es, rfl, rfl, he, hnone⟩, heq.trans (hwrite s e he)⟩
      · exact .inr ⟨⟨he, hnone⟩, heq.trans (hkeep s e he)⟩

end Run
