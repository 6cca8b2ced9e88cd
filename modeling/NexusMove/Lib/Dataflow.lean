import NexusMove.Lib.DepthFirst
import NexusMove.Lib.Except

/-!
# Dataflow analysis in traversal order

A forward analysis of a graph that goes through the vertices in the order of a depth-first
traversal. It keeps a state for every vertex met so far, executes the vertex it is at, joins the
result into the states of the successors, and goes on to the next vertex; where the state of
the head of a back edge has changed it goes back to that head instead.

Nothing else is remembered of what has to be done again. That this is enough rests on the
traversal: what changes without being the head of a back edge lies further on.

* `Analysis`, `step`, `run` — the analysis.
* `Domain` — what its states have to satisfy: the join is above both, and unchanged means equal.
* `Invariant`, `step_invariant` — everything behind the current vertex is settled.
* `Solution`, `solution_of_run` — an analysis that ends without an error leaves a solution.
* `run_ends` — it ends, when a state can change only so often.
-/

namespace Dataflow

open DepthFirst (Before Traversal)

variable {V S E : Type} [DecidableEq V]

/-- What is analysed. A join tells whether it has changed its left side. -/
structure Analysis (V S E : Type) where
  succs : V → List V
  order : List V
  isBackEdge : V → V → Bool
  execute : V → S → Except E S
  join : S → S → Except E (S × Bool)

/-- The states before the vertices reached so far, and the vertex to execute. -/
structure Progress (V S : Type) where
  pre : V → Option S
  next : Option V

namespace Analysis

variable (A : Analysis V S E)

/-- The vertex after `v`. -/
def nextVertex (v : V) : Option V := A.order[A.order.idxOf v + 1]?

/-- The result of `v` joined into the states of its successors, with the vertices that may be
next. -/
def propagate (v : V) (post : S) :
    List V → (V → Option S) → List V → Except E ((V → Option S) × List V)
  | [], pre, candidates => .ok (pre, candidates)
  | w :: ws, pre, candidates =>
    match pre w with
    | some old => do
      let (joined, changed) ← A.join old post
      propagate v post ws (Function.update pre w (some joined))
        (if changed && A.isBackEdge v w then candidates ++ [w] else candidates)
    | none => propagate v post ws (Function.update pre w (some post)) candidates

/-- One vertex: execute it, hand the result on, and go to the first of what may be next. -/
def step (s : Progress V S) : Except E (Progress V S) :=
  match s.next with
  | none => .ok s
  | some v =>
    match s.pre v with
    | none => .ok { s with next := A.nextVertex v }
    | some pre => do
      let post ← A.execute v pre
      let (pre, candidates) ← A.propagate v post (A.succs v) s.pre (A.nextVertex v).toList
      return ⟨pre, candidates.argmin A.order.idxOf⟩

/-- At most `fuel` vertices. -/
def run : Nat → Progress V S → Except E (Progress V S)
  | 0, s => .ok s
  | fuel + 1, s => do run fuel (← A.step s)

def start (v : V) (initial : S) : Progress V S where
  pre := Function.update (fun _ => none) v (some initial)
  next := some v

end Analysis

/-- What a domain has to satisfy, for the states that occur. -/
structure Domain (A : Analysis V S E) (Valid : S → Prop) (le : S → S → Prop) : Prop where
  refl : ∀ s, le s s
  trans : ∀ s t u, le s t → le t u → le s u
  execute : ∀ v s t, Valid s → A.execute v s = .ok t → Valid t
  join : ∀ s t u changed, Valid s → Valid t → A.join s t = .ok (u, changed) →
    Valid u ∧ le s u ∧ le t u ∧ (changed = false → u = s)

/-- The graph of the analysis has been traversed from `v`. -/
structure Traversed (A : Analysis V S E) (v : V) : Prop where
  nodup : A.order.Nodup
  start_mem : v ∈ A.order
  closed : ∀ u ∈ A.order, ∀ w ∈ A.succs u, w ∈ A.order
  back_iff : ∀ u ∈ A.order, ∀ w ∈ A.succs u, A.isBackEdge u w = true ↔ ¬ Before A.order u w
  reached : ∀ w ∈ A.order, w ≠ v → ∃ u, w ∈ A.succs u ∧ Before A.order u w

section Soundness

variable {A : Analysis V S E} {Valid : S → Prop} {le : S → S → Prop} {v₀ : V} {initial : S}

/-- The state before `v` has been executed, and what comes out is below the states of the
successors. -/
def Settled (A : Analysis V S E) (le : S → S → Prop) (pre : V → Option S) (v : V) : Prop :=
  ∃ p post, pre v = some p ∧ A.execute v p = .ok post
    ∧ ∀ w ∈ A.succs v, ∃ q, pre w = some q ∧ le post q

/-- States for all vertices that hold together. -/
structure Solution (A : Analysis V S E) (Valid : S → Prop) (le : S → S → Prop) (v₀ : V)
    (initial : S) (pre : V → Option S) : Prop where
  start : ∃ p, pre v₀ = some p ∧ le initial p
  valid : ∀ v p, pre v = some p → Valid p
  settled : ∀ v ∈ A.order, Settled A le pre v

/-! ### Propagation -/

/-- What the states after the propagation have to do with those before. -/
structure Propagated (A : Analysis V S E) (Valid : S → Prop) (le : S → S → Prop) (v : V) (post : S)
    (ws : List V) (pre pre' : V → Option S) (candidates candidates' : List V) : Prop where
  valid : ∀ u p, pre' u = some p → Valid p
  grows : ∀ u p, pre u = some p → ∃ p', pre' u = some p' ∧ le p p'
  joined : ∀ w ∈ ws, ∃ q, pre' w = some q ∧ le post q
  /-- What has changed at the head of a back edge is a candidate. -/
  changed : ∀ u, pre u ≠ none → pre' u ≠ pre u →
    u ∈ ws ∧ (A.isBackEdge v u = true → u ∈ candidates')
  other : ∀ u ∉ ws, pre' u = pre u
  kept : ∀ u ∈ candidates, u ∈ candidates'
  chosen : ∀ u ∈ candidates', u ∈ candidates ∨ u ∈ ws

/-- **One propagation.** By induction over the successors, the state of one of them at a time. -/
theorem propagated_of_propagate (hdomain : Domain A Valid le) {v : V} {post : S}
    (hpost : Valid post) {ws : List V} {pre pre' : V → Option S} {candidates candidates' : List V}
    (hvalid : ∀ u p, pre u = some p → Valid p)
    (h : A.propagate v post ws pre candidates = .ok (pre', candidates')) :
    Propagated A Valid le v post ws pre pre' candidates candidates' := by
  induction ws generalizing pre candidates with
  | nil =>
    obtain ⟨rfl, rfl⟩ := Prod.mk.inj (Except.ok.inj h)
    exact
      { valid := hvalid
        grows := fun u p hp => ⟨p, hp, hdomain.refl p⟩
        joined := fun w hw => absurd hw List.not_mem_nil
        changed := fun u _ hne => absurd rfl hne
        other := fun u _ => rfl
        kept := fun u hu => hu
        chosen := fun u hu => .inl hu }
  | cons w ws ih =>
    -- the state of `w` is `q` after its own turn, above the old one and above the result
    obtain ⟨q, more, hq, hpostq, hold, hchanged, hrest⟩ : ∃ q more, Valid q ∧ le post q
        ∧ (∀ p, pre w = some p → le p q)
        ∧ (∀ p, pre w = some p → q ≠ p → A.isBackEdge v w = true → more = [w])
        ∧ (more = [] ∨ more = [w])
        ∧ A.propagate v post ws (Function.update pre w (some q)) (candidates ++ more)
          = .ok (pre', candidates') := by
      unfold Analysis.propagate at h
      -- joined with the state that was there, or the first state of the vertex
      split at h
      · rename_i old hw
        obtain ⟨⟨q, changed⟩, hjoin, h⟩ := Except.bind_eq_ok.mp h
        obtain ⟨hq, hleft, hright, hsame⟩ :=
          hdomain.join old post q changed (hvalid w old hw) hpost hjoin
        refine ⟨q, if (changed && A.isBackEdge v w) = true then [w] else [], hq, hright, ?_, ?_, ?_,
          ?_⟩
        · intro p hp
          obtain rfl : old = p := Option.some.inj (hw.symm.trans hp)
          exact hleft
        · intro p hp hne hback
          obtain rfl : old = p := Option.some.inj (hw.symm.trans hp)
          -- a join that tells of no change has changed nothing
          have hchanged : changed = true := by
            by_contra hnot
            exact hne (hsame (Bool.eq_false_iff.mpr hnot))
          rw [hchanged, hback]
          rfl
        · split
          · exact .inr rfl
          · exact .inl rfl
        · simp only at h
          split
          · rename_i hyes
            rwa [if_pos hyes] at h
          · rename_i hno
            rw [if_neg hno] at h
            rwa [List.append_nil]
      · rename_i hw
        refine ⟨post, [], hpost, hdomain.refl post, ?_, ?_, .inl rfl, ?_⟩
        · intro p hp
          rw [hw] at hp
          cases hp
        · intro p hp
          rw [hw] at hp
          cases hp
        · rwa [List.append_nil]
    obtain ⟨hmore, h⟩ := hrest
    -- the states stay valid with that of `w` replaced
    have hstep : ∀ u p, Function.update pre w (some q) u = some p → Valid p := by
      intro u p hp
      by_cases hu : u = w
      · rw [hu, Function.update_self] at hp
        exact Option.some.inj hp ▸ hq
      · rw [Function.update_of_ne hu] at hp
        exact hvalid u p hp
    have hrec := ih hstep h
    -- the other successors only let it grow further
    have hw : ∃ q', pre' w = some q' ∧ le q q' :=
      hrec.grows w q (Function.update_self _ _ _)
    exact
      { valid := hrec.valid
        grows := by
          intro u p hp
          by_cases hu : u = w
          · subst hu
            obtain ⟨q', hq', hle⟩ := hw
            exact ⟨q', hq', hdomain.trans p q q' (hold p hp) hle⟩
          · exact hrec.grows u p ((Function.update_of_ne hu _ _).trans hp)
        joined := by
          intro u hu
          rcases List.mem_cons.mp hu with rfl | hu
          · obtain ⟨q', hq', hle⟩ := hw
            exact ⟨q', hq', hdomain.trans post q q' hpostq hle⟩
          · exact hrec.joined u hu
        changed := by
          intro u hsome hne
          by_cases hu : u = w
          · subst hu
            obtain ⟨p, hp⟩ := Option.ne_none_iff_exists'.mp hsome
            refine ⟨List.mem_cons_self, fun hback => ?_⟩
            -- a state that is the old one after its own turn was changed by a later one
            by_cases hqp : q = p
            · have hne' : pre' u ≠ Function.update pre u (some q) u := by
                rw [Function.update_self, hqp, ← hp]
                exact hne
              exact (hrec.changed u (by rw [Function.update_self]; exact Option.some_ne_none _)
                hne').2 hback
            · apply hrec.kept
              rw [hchanged p hp hqp hback]
              exact List.mem_append_right candidates List.mem_cons_self
          · -- another vertex: the turn of `w` did not touch it
            have hsame : Function.update pre w (some q) u = pre u := Function.update_of_ne hu _ _
            have hstep := hrec.changed u (by rwa [hsame]) (by rwa [hsame])
            exact ⟨List.mem_cons_of_mem w hstep.1, hstep.2⟩
        other := by
          intro u hu
          have hne : u ≠ w := fun heq => hu (heq ▸ List.mem_cons_self)
          rw [hrec.other u fun hmem => hu (List.mem_cons_of_mem w hmem),
            Function.update_of_ne hne]
        kept := fun u hu => hrec.kept u (List.mem_append_left more hu)
        chosen := by
          intro u hu
          rcases hrec.chosen u hu with hmem | hmem
          · rcases List.mem_append.mp hmem with hmem | hmem
            · exact .inl hmem
            · -- the turn of `w` adds `w` or nothing
              rcases hmore with rfl | rfl
              · cases hmem
              · exact .inr (List.mem_singleton.mp hmem ▸ List.mem_cons_self)
          · exact .inr (List.mem_cons_of_mem w hmem) }

/-! ### The step -/

/-- A vertex that the analysis has gone past. -/
def Behind (A : Analysis V S E) (s : Progress V S) (v : V) : Prop :=
  v ∈ A.order ∧ ∀ n, s.next = some n → A.order.idxOf v < A.order.idxOf n

/-- Everything behind the next vertex is settled. -/
structure Invariant (A : Analysis V S E) (Valid : S → Prop) (le : S → S → Prop) (v₀ : V)
    (initial : S) (s : Progress V S) : Prop where
  start : ∃ p, s.pre v₀ = some p ∧ le initial p
  valid : ∀ v p, s.pre v = some p → Valid p
  next : ∀ v, s.next = some v → v ∈ A.order
  settled : ∀ v, Behind A s v → Settled A le s.pre v

theorem start_pre (v w : V) :
    (Analysis.start v initial).pre w = if w = v then some initial else none := by
  show Function.update (fun _ => none) v (some initial) w = _
  rw [Function.update_apply]

/-- At the start nothing is behind the next vertex, for it is the first one. -/
theorem invariant_start (htraversed : Traversed A v₀) (hdomain : Domain A Valid le)
    (hinitial : Valid initial) : Invariant A Valid le v₀ initial (Analysis.start v₀ initial) where
  start := ⟨initial, by rw [start_pre, if_pos rfl], hdomain.refl initial⟩
  valid v p hp := by
    rw [start_pre] at hp
    split at hp
    · exact Option.some.inj hp ▸ hinitial
    · cases hp
  next v hv := by
    obtain rfl : v₀ = v := Option.some.inj hv
    exact htraversed.start_mem
  settled v hv := by
    -- nothing stands before the first vertex
    obtain ⟨hmem, hless⟩ := hv
    by_cases hne : v = v₀
    · subst hne
      exact absurd (hless v rfl) (Nat.lt_irrefl _)
    · -- from any vertex the edges of the traversal lead back to the first one
      have hchain : ∀ n, ∀ w ∈ A.order, A.order.idxOf w = n → A.order.idxOf v₀ ≤ n := by
        intro n
        induction n using Nat.strongRecOn with
        | ind n ih =>
          intro w hw hn
          by_cases hwv : w = v₀
          · rw [← hwv]
            omega
          · obtain ⟨u, -, hbefore⟩ := htraversed.reached w hw hwv
            have hlt := hbefore.idxOf_lt htraversed.nodup
            have hle := ih _ (by omega) u hbefore.left_mem rfl
            omega
      have hle := hchain _ v hmem rfl
      have hlt := hless v₀ rfl
      omega

/-- The vertex after `v` stands one place further. -/
theorem nextVertex_eq_some {v w : V} (hnodup : A.order.Nodup) (h : A.nextVertex v = some w) :
    w ∈ A.order ∧ A.order.idxOf w = A.order.idxOf v + 1 := by
  obtain ⟨hlt, rfl⟩ := List.getElem?_eq_some_iff.mp h
  exact ⟨List.getElem_mem hlt, hnodup.idxOf_getElem _ hlt⟩

/-- What stands after `v` stands not before the vertex after it. -/
theorem nextVertex_of_lt {v w : V} (hw : w ∈ A.order) (h : A.order.idxOf v < A.order.idxOf w) :
    ∃ n, A.nextVertex v = some n := by
  have hlt := List.idxOf_lt_length_of_mem hw
  exact ⟨_, List.getElem?_eq_getElem (by omega)⟩

/-- The analysis never comes to a vertex without a state: an edge leads there from further up. -/
theorem Invariant.pre_next (htraversed : Traversed A v₀) {s : Progress V S}
    (h : Invariant A Valid le v₀ initial s) {v : V} (hnext : s.next = some v) :
    ∃ p, s.pre v = some p := by
  -- the first vertex has its state from the start
  by_cases hv : v = v₀
  · obtain ⟨p, hp, -⟩ := h.start
    exact ⟨p, hv ▸ hp⟩
  · obtain ⟨u, hsucc, hbefore⟩ := htraversed.reached v (h.next v hnext) hv
    have hbehind : Behind A s u := by
      refine ⟨hbefore.left_mem, fun n hn => ?_⟩
      obtain rfl : v = n := Option.some.inj (hnext.symm.trans hn)
      exact hbefore.idxOf_lt htraversed.nodup
    obtain ⟨_, _, _, _, hsuccs⟩ := h.settled u hbehind
    obtain ⟨q, hq, -⟩ := hsuccs v hsucc
    exact ⟨q, hq⟩

/-- What a step does at a vertex with a state. -/
structure Stepped (A : Analysis V S E) (s s' : Progress V S) (v : V) (p post : S)
    (candidates : List V) : Prop where
  execute : A.execute v p = .ok post
  propagate :
    A.propagate v post (A.succs v) s.pre (A.nextVertex v).toList = .ok (s'.pre, candidates)
  next : s'.next = candidates.argmin A.order.idxOf

/-- What a step that goes through has done. -/
theorem step_eq_ok {s s' : Progress V S} {v : V} {p : S} (hnext : s.next = some v)
    (hp : s.pre v = some p) (h : A.step s = .ok s') :
    ∃ post candidates, Stepped A s s' v p post candidates := by
  unfold Analysis.step at h
  rw [hnext] at h
  simp only [hp] at h
  obtain ⟨post, hpost, h⟩ := Except.bind_eq_ok.mp h
  obtain ⟨⟨pre, candidates⟩, hpropagate, h⟩ := Except.bind_eq_ok.mp h
  obtain rfl := Except.pure_eq_ok.mp h
  exact ⟨post, candidates, hpost, hpropagate, rfl⟩

/-- **Steps.** A step back unsettles nothing in front of where it goes back to. -/
theorem step_invariant (htraversed : Traversed A v₀) (hdomain : Domain A Valid le)
    {s s' : Progress V S} (h : Invariant A Valid le v₀ initial s) (hstep : A.step s = .ok s') :
    Invariant A Valid le v₀ initial s' := by
  cases hnext : s.next with
  | none =>
    unfold Analysis.step at hstep
    rw [hnext] at hstep
    exact Except.ok.inj hstep ▸ h
  | some v =>
    have hv := h.next v hnext
    obtain ⟨p, hp⟩ := h.pre_next htraversed hnext
    obtain ⟨post, candidates, hexecute, hpropagate, hchosen⟩ := step_eq_ok hnext hp hstep
    have hpost := hdomain.execute v p post (h.valid v p hp) hexecute
    have hprop := propagated_of_propagate hdomain hpost h.valid hpropagate
    -- the next vertex stands not after any candidate
    have hfirst : ∀ c ∈ candidates, ∃ n, s'.next = some n ∧ A.order.idxOf n ≤ A.order.idxOf c := by
      intro c hc
      have hne : candidates ≠ [] := List.ne_nil_of_mem hc
      cases hn : candidates.argmin A.order.idxOf with
      | none => exact absurd (List.argmin_eq_none.mp hn) hne
      | some n => exact ⟨n, hchosen.trans hn, List.le_of_mem_argmin hc hn⟩
    -- what is behind the next vertex has kept its state
    have hsame : ∀ u, Behind A s' u → u = v ∨ A.order.idxOf u < A.order.idxOf v →
        s'.pre u = s.pre u := by
      intro u hu hpos
      -- a change behind would have made the vertex a candidate, and the next one not after it
      by_contra hne
      have hsome : s.pre u ≠ none := by
        rcases hpos with rfl | hlt
        · rw [hp]
          exact Option.some_ne_none p
        · have hbehind : Behind A s u := by
            refine ⟨hu.1, fun n hn => ?_⟩
            obtain rfl : v = n := Option.some.inj (hnext.symm.trans hn)
            exact hlt
          obtain ⟨p', _, hp', _⟩ := h.settled u hbehind
          rw [hp']
          exact Option.some_ne_none p'
      obtain ⟨hsucc, hback⟩ := hprop.changed u hsome hne
      -- an edge to a vertex that does not come later is a back edge
      have hnot : ¬ Before A.order v u := by
        intro hbefore
        have hlt := hbefore.idxOf_lt htraversed.nodup
        rcases hpos with rfl | hlt' <;> omega
      obtain ⟨n, hn, hle⟩ := hfirst u (hback ((htraversed.back_iff v hv u hsucc).mpr hnot))
      have hlt := hu.2 n hn
      omega
    constructor
    case start =>
      -- the state of the first vertex only grows
      obtain ⟨q, hq, hle⟩ := h.start
      obtain ⟨q', hq', hle'⟩ := hprop.grows v₀ q hq
      exact ⟨q', hq', hdomain.trans initial q q' hle hle'⟩
    case valid => exact hprop.valid
    case next =>
      intro n hn
      have hmem : n ∈ candidates := List.argmin_mem (hchosen.symm.trans hn)
      -- a candidate is the vertex after `v` or one of its successors
      rcases hprop.chosen n hmem with hmem | hmem
      · exact (nextVertex_eq_some htraversed.nodup (Option.mem_toList.mp hmem)).1
      · exact htraversed.closed v hv n hmem
    case settled =>
      intro u hu
      have hpos : u = v ∨ A.order.idxOf u < A.order.idxOf v := by
        rcases Nat.lt_trichotomy (A.order.idxOf u) (A.order.idxOf v) with hlt | heq | hgt
        · exact .inr hlt
        · exact .inl ((List.idxOf_inj hu.1).mp heq)
        · -- the vertex after `v` is a candidate, so `u` is not behind
          obtain ⟨w, hw⟩ := nextVertex_of_lt hu.1 hgt
          have hidx := (nextVertex_eq_some htraversed.nodup hw).2
          obtain ⟨n, hn, hle⟩ :=
            hfirst w (hprop.kept w (by rw [hw]; exact List.mem_singleton_self w))
          have hlt := hu.2 n hn
          omega
      have hkept := hsame u hu hpos
      rcases hpos with rfl | hlt
      · -- `v` itself has just been executed
        exact ⟨p, post, hkept.trans hp, hexecute, hprop.joined⟩
      · have hbehind : Behind A s u := by
          refine ⟨hu.1, fun n hn => ?_⟩
          obtain rfl : v = n := Option.some.inj (hnext.symm.trans hn)
          exact hlt
        -- a vertex that was settled before: its own state is the same, those of its successors grew
        obtain ⟨p', post', hp', hexecute', hsuccs⟩ := h.settled u hbehind
        refine ⟨p', post', hkept.trans hp', hexecute', fun w hw => ?_⟩
        obtain ⟨q, hq, hle⟩ := hsuccs w hw
        obtain ⟨q', hq', hle'⟩ := hprop.grows w q hq
        exact ⟨q', hq', hdomain.trans post' q q' hle hle'⟩

/-- **Runs.** -/
theorem run_invariant (htraversed : Traversed A v₀) (hdomain : Domain A Valid le) {fuel : Nat}
    {s s' : Progress V S} (h : Invariant A Valid le v₀ initial s) (hrun : A.run fuel s = .ok s') :
    Invariant A Valid le v₀ initial s' := by
  induction fuel generalizing s with
  | zero => exact Except.ok.inj hrun ▸ h
  | succ fuel ih =>
    obtain ⟨t, ht, hrun⟩ := Except.bind_eq_ok.mp hrun
    exact ih (step_invariant htraversed hdomain h ht) hrun

/-- **The solution.** When the analysis has gone past everything, all states hold together. -/
theorem solution_of_run (htraversed : Traversed A v₀) (hdomain : Domain A Valid le)
    (hinitial : Valid initial) {fuel : Nat} {s : Progress V S}
    (hrun : A.run fuel (Analysis.start v₀ initial) = .ok s) (hend : s.next = none) :
    Solution A Valid le v₀ initial s.pre := by
  have h := run_invariant htraversed hdomain (invariant_start htraversed hdomain hinitial) hrun
  refine ⟨h.start, h.valid, fun v hv => h.settled v ⟨hv, fun n hn => ?_⟩⟩
  rw [hend] at hn
  cases hn

end Soundness

/-! ## The end -/

section Ends

variable {A : Analysis V S E} {Valid : S → Prop} {le : S → S → Prop} {v₀ : V} {initial : S}

/-- A state can change at most `height` times. -/
structure Height (A : Analysis V S E) (Valid : S → Prop) (rank : S → Nat) (height : Nat) :
    Prop where
  le_height : ∀ s, Valid s → rank s ≤ height
  lt_join : ∀ s t u, Valid s → Valid t → A.join s t = .ok (u, true) → rank s < rank u

variable (A) in
/-- How often the state of a vertex can change still. -/
def changesLeft (rank : S → Nat) (height : Nat) (pre : V → Option S) (v : V) : Nat :=
  match pre v with
  | none => height + 1
  | some p => height - rank p

variable (A) in
/-- Changes left at all vertices, and vertices left until the next change. -/
def measure (rank : S → Nat) (height : Nat) (s : Progress V S) : Nat :=
  (A.order.map (changesLeft rank height s.pre)).sum * (A.order.length + 1)
    + s.next.elim 0 fun v => A.order.length - A.order.idxOf v

/-- As many steps as there may be changes at vertices, each followed by a pass. -/
def steps (A : Analysis V S E) (height : Nat) : Nat :=
  (A.order.length * (height + 1) + 1) * (A.order.length + 1)

variable {rank : S → Nat} {height : Nat}

/-- A new state changes the count of its own vertex only. -/
theorem changesLeft_update (pre : V → Option S) (w : V) (q : S) (v : V) :
    changesLeft rank height (Function.update pre w (some q)) v
      = if v = w then height - rank q else changesLeft rank height pre v := by
  unfold changesLeft
  by_cases hv : v = w
  · rw [if_pos hv, hv, Function.update_self]
  · rw [if_neg hv, Function.update_of_ne hv]

variable (rank height) in
/-- A vertex whose changes go down takes the sum down. -/
theorem sum_changesLeft_lt (pre : V → Option S) {w : V} (q : S) (hw : w ∈ A.order)
    (hlt : height - rank q < changesLeft rank height pre w) :
    (A.order.map (changesLeft rank height (Function.update pre w (some q)))).sum
      < (A.order.map (changesLeft rank height pre)).sum := by
  refine List.sum_lt_sum _ _ (fun v _ => ?_) ⟨w, hw, ?_⟩
  · rw [changesLeft_update]
    split
    · rename_i hv
      rw [hv]
      exact hlt.le
    · exact le_rfl
  · rw [changesLeft_update, if_pos rfl]
    exact hlt

/-- Either some state has changed, or no head of a back edge was added to the candidates. -/
theorem propagate_changesLeft (hdomain : Domain A Valid le) (hheight : Height A Valid rank height)
    {v : V} {post : S} (hpost : Valid post) {ws : List V} (hws : ∀ w ∈ ws, w ∈ A.order)
    {pre pre' : V → Option S} {candidates candidates' : List V}
    (hvalid : ∀ u p, pre u = some p → Valid p)
    (h : A.propagate v post ws pre candidates = .ok (pre', candidates')) :
    (A.order.map (changesLeft rank height pre')).sum
        < (A.order.map (changesLeft rank height pre)).sum
      ∨ (A.order.map (changesLeft rank height pre')).sum
          = (A.order.map (changesLeft rank height pre)).sum ∧ candidates' = candidates := by
  induction ws generalizing pre candidates with
  | nil =>
    obtain ⟨rfl, rfl⟩ := Prod.mk.inj (Except.ok.inj h)
    exact .inr ⟨rfl, rfl⟩
  | cons w ws ih =>
    have hw := hws w List.mem_cons_self
    -- what is put in is valid wherever it is put
    have hstep : ∀ q, Valid q → ∀ u p, Function.update pre w (some q) u = some p → Valid p := by
      intro q hq u p hp
      rw [Function.update_apply] at hp
      split at hp
      · exact Option.some.inj hp ▸ hq
      · exact hvalid u p hp
    unfold Analysis.propagate at h
    split at h
    · rename_i old hold
      obtain ⟨⟨q, changed⟩, hjoin, h⟩ := Except.bind_eq_ok.mp h
      have hold' := hvalid w old hold
      obtain ⟨hq, -, -, hsame⟩ := hdomain.join old post q changed hold' hpost hjoin
      have hrec := ih (fun u hu => hws u (List.mem_cons_of_mem w hu)) (hstep q hq) h
      cases changed with
      | true =>
        -- a change at `w` brings its rank up, so its part of the sum goes down
        have hlt := hheight.lt_join old post q hold' hpost hjoin
        have hle := hheight.le_height q hq
        have hleft : changesLeft rank height pre w = height - rank old := by
          unfold changesLeft
          rw [hold]
        have hsum := sum_changesLeft_lt rank height pre q hw (by omega)
        rcases hrec with hless | ⟨heq, -⟩
        · exact .inl (by omega)
        · exact .inl (by omega)
      | false =>
        -- no change: the states are those from before this turn
        obtain rfl := hsame rfl
        have hupdate : Function.update pre w (some q) = pre := by
          rw [← hold]
          exact Function.update_eq_self w pre
        simp only [Bool.false_and, Bool.false_eq_true, if_false] at hrec
        rwa [hupdate] at hrec
    · rename_i hnone
      have hrec := ih (fun u hu => hws u (List.mem_cons_of_mem w hu)) (hstep post hpost) h
      -- the first state of `w`, which had one change more than any state
      have hleft : changesLeft rank height pre w = height + 1 := by
        unfold changesLeft
        rw [hnone]
      have hsum := sum_changesLeft_lt rank height pre post hw (by omega)
      rcases hrec with hless | ⟨heq, -⟩
      · exact .inl (by omega)
      · exact .inl (by omega)

/-- **The measure goes down**: the number of changes first, then the place in the order. -/
theorem measure_step (htraversed : Traversed A v₀) (hdomain : Domain A Valid le)
    (hheight : Height A Valid rank height) {s s' : Progress V S}
    (h : Invariant A Valid le v₀ initial s) {v : V} (hnext : s.next = some v)
    (hstep : A.step s = .ok s') : measure A rank height s' < measure A rank height s := by
  have hv := h.next v hnext
  obtain ⟨p, hp⟩ := h.pre_next htraversed hnext
  obtain ⟨post, candidates, hexecute, hpropagate, hchosen⟩ := step_eq_ok hnext hp hstep
  have hpost := hdomain.execute v p post (h.valid v p hp) hexecute
  have hsum := propagate_changesLeft hdomain hheight hpost
    (htraversed.closed v hv) h.valid hpropagate
  -- the rest of a pass is never longer than the order
  have hpass : ∀ n : Option V,
      n.elim 0 (fun v => A.order.length - A.order.idxOf v) ≤ A.order.length := by
    intro n
    cases n with
    | none => exact Nat.zero_le _
    | some w => exact Nat.sub_le _ _
  unfold measure
  rcases hsum with hlt | ⟨heq, hsame⟩
  · -- a change makes room for a whole pass
    have hmul := Nat.mul_le_mul_right (A.order.length + 1) (Nat.succ_le_of_lt hlt)
    have hpass' := hpass s'.next
    rw [Nat.succ_mul] at hmul
    omega
  · -- nothing has changed, so the next vertex is the one after `v`
    have hidx := List.idxOf_lt_length_of_mem hv
    rw [heq, hnext, hchosen, hsame]
    cases hn : A.nextVertex v with
    | none =>
      simp only [Option.toList_none, List.argmin_nil, Option.elim_none, Option.elim_some]
      omega
    | some w =>
      have hw := (nextVertex_eq_some htraversed.nodup hn).2
      simp only [Option.toList_some, List.argmin_singleton, Option.elim_some]
      omega

theorem run_of_next {s : Progress V S} (h : s.next = none) (fuel : Nat) : A.run fuel s = .ok s := by
  induction fuel with
  | zero => rfl
  | succ fuel ih =>
    have hstep : A.step s = .ok s := by
      unfold Analysis.step
      rw [h]
    show A.step s >>= A.run fuel = .ok s
    rw [hstep, Except.ok_bind, ih]

/-- With fuel for its measure, a run comes past everything. -/
theorem run_measure (htraversed : Traversed A v₀) (hdomain : Domain A Valid le)
    (hheight : Height A Valid rank height) {fuel : Nat} {s s' : Progress V S}
    (h : Invariant A Valid le v₀ initial s) (hfuel : measure A rank height s ≤ fuel)
    (hrun : A.run fuel s = .ok s') : s'.next = none := by
  induction fuel generalizing s with
  | zero =>
    -- without fuel the measure is zero, but a next vertex would count
    obtain rfl := Except.ok.inj hrun
    cases hnext : s.next with
    | none => rfl
    | some v =>
      have hidx := List.idxOf_lt_length_of_mem (h.next v hnext)
      unfold measure at hfuel
      rw [hnext] at hfuel
      simp only [Option.elim_some] at hfuel
      omega
  | succ fuel ih =>
    cases hnext : s.next with
    | none =>
      rw [run_of_next hnext] at hrun
      exact Except.ok.inj hrun ▸ hnext
    | some v =>
      obtain ⟨t, ht, hrun⟩ := Except.bind_eq_ok.mp hrun
      have hless := measure_step htraversed hdomain hheight h hnext ht
      exact ih (step_invariant htraversed hdomain h ht) (by omega) hrun

/-- **The analysis ends**, with an error or past everything. -/
theorem run_ends (htraversed : Traversed A v₀) (hdomain : Domain A Valid le)
    (hheight : Height A Valid rank height) (hinitial : Valid initial) {s : Progress V S}
    (hrun : A.run (steps A height) (Analysis.start v₀ initial) = .ok s) : s.next = none := by
  refine run_measure htraversed hdomain hheight
    (invariant_start htraversed hdomain hinitial) ?_ hrun
  have hsum : (A.order.map (changesLeft rank height (Analysis.start v₀ initial).pre)).sum
      ≤ A.order.length * (height + 1) := by
    -- each vertex has at most `height + 1` changes at the start
    have hcard := List.sum_le_card_nsmul
      (A.order.map (changesLeft rank height (Analysis.start v₀ initial).pre)) (height + 1) (by
        intro x hx
        obtain ⟨v, -, rfl⟩ := List.mem_map.mp hx
        unfold changesLeft
        split
        · exact le_rfl
        · omega)
    rwa [List.length_map] at hcard
  have hmul := Nat.mul_le_mul_right (A.order.length + 1) hsum
  show _ + (A.order.length - A.order.idxOf v₀) ≤ steps A height
  unfold steps
  rw [Nat.succ_mul]
  omega

end Ends

end Dataflow
