import Mathlib

/-!
# Runs of partial, labelled transition systems

A system is a partial step function `step : σ → ε → Option (σ × ω)`: on an
event it either answers with an output and its next state, or is stuck
(`none`: the program it models has no defined behaviour there). A `Run` is
a finite sequence of steps together with its trace, the events paired with
the outputs they produced.

* `Run.append` / `Run.split`  — runs compose, and decompose at any point of
  the trace.
* `Run.invariant`             — what every step preserves, every run preserves.
* `Run.history`               — the same for predicates that also look at the
  trace so far (ghost state).
* `exec` / `run_of_exec`      — the executable interpreter, for concrete runs.
-/

namespace Runs

variable {σ ε ω : Type*}

/-- `Run step s tr s'`: the events of `tr`, taken in order from `s`, answer
with the outputs of `tr` and end in `s'`. -/
inductive Run (step : σ → ε → Option (σ × ω)) : σ → List (ε × ω) → σ → Prop
  | nil (s : σ) : Run step s [] s
  | cons {s s' s'' : σ} {e : ε} {o : ω} {tr : List (ε × ω)} :
      step s e = some (s', o) → Run step s' tr s'' → Run step s ((e, o) :: tr) s''

variable {step : σ → ε → Option (σ × ω)} {s s' s'' : σ} {tr tr' : List (ε × ω)}

theorem run_cons_iff {e : ε} {o : ω} :
    Run step s ((e, o) :: tr) s'' ↔ ∃ s', step s e = some (s', o) ∧ Run step s' tr s'' := by
  constructor
  · intro h
    cases h with
    | cons hStep hRest => exact ⟨_, hStep, hRest⟩
  · intro hRun
    obtain ⟨s', hStep, hRest⟩ := hRun
    exact Run.cons hStep hRest

/-- Runs that meet compose. -/
theorem Run.append (h : Run step s tr s') (h' : Run step s' tr' s'') :
    Run step s (tr ++ tr') s'' := by
  induction h with
  | nil => exact h'
  | cons hStep _ ih => exact Run.cons hStep (ih h')

/-- A run passes through a state at every cut of its trace. -/
theorem Run.split (h : Run step s (tr ++ tr') s'') :
    ∃ s', Run step s tr s' ∧ Run step s' tr' s'' := by
  induction tr generalizing s with
  | nil => exact ⟨s, Run.nil s, h⟩
  | cons x tr ih =>
    obtain ⟨s₁, hStep, hRest⟩ := run_cons_iff.mp h
    obtain ⟨s', hTr, hTr'⟩ := ih hRest
    exact ⟨s', Run.cons hStep hTr, hTr'⟩

/-- The trace decides where a run ends. -/
theorem Run.unique (h : Run step s tr s') (h' : Run step s tr s'') : s' = s'' := by
  induction h with
  | nil =>
    cases h'
    rfl
  | cons hStep _ ih =>
    obtain ⟨s₁, hStep', hRest⟩ := run_cons_iff.mp h'
    rw [hStep, Option.some.injEq, Prod.mk.injEq] at hStep'
    exact ih (hStep'.1 ▸ hRest)

theorem Run.single {e : ε} {o : ω} (h : step s e = some (s', o)) : Run step s [(e, o)] s' :=
  Run.cons h (Run.nil s')

/-- **Invariant rule.** What every step preserves, every run preserves. -/
theorem Run.invariant {I : σ → Prop}
    (hStep : ∀ s e s' o, I s → step s e = some (s', o) → I s')
    (h : Run step s tr s') (h0 : I s) : I s' := by
  induction h with
  | nil => exact h0
  | cons hs _ ih => exact ih (hStep _ _ _ _ h0 hs)

/-- The invariant rule for a run of which the events are known. -/
theorem Run.invariant_of_mem {I : σ → Prop}
    (hStep : ∀ s e s' o, (e, o) ∈ tr → I s → step s e = some (s', o) → I s')
    (h : Run step s tr s') (h0 : I s) : I s' := by
  induction h with
  | nil => exact h0
  | cons hs _ ih =>
    exact ih (fun s e s' o hMem => hStep s e s' o (List.mem_cons_of_mem _ hMem))
      (hStep _ _ _ _ (List.mem_cons_self ..) h0 hs)

/-- **History rule.** A predicate of the trace so far and the current state
that every step extends holds at the end of every run. -/
theorem Run.history {I : List (ε × ω) → σ → Prop}
    (hStep : ∀ pre s e s' o, I pre s → step s e = some (s', o) → I (pre ++ [(e, o)]) s')
    (h : Run step s tr s') (h0 : I [] s) : I tr s' := by
  -- the induction takes the trace before the run along
  have hFrom : ∀ pre, I pre s → I (pre ++ tr) s' := by
    clear h0
    induction h with
    | nil => simp
    | @cons s s₁ s₂ e o tr hs _ ih =>
      intro pre hPre
      have hNext := ih (pre ++ [(e, o)]) (hStep pre s e s₁ o hPre hs)
      rwa [List.append_assoc] at hNext
  exact hFrom [] h0

/-- What every step preserves and says of its event and output, along a run. -/
theorem Run.outputs {I : σ → Prop} {P : ε × ω → Prop}
    (hStep : ∀ s e s' o, I s → step s e = some (s', o) → I s' ∧ P (e, o))
    (h : Run step s tr s') (h0 : I s) : I s' ∧ ∀ x ∈ tr, P x := by
  refine h.history (I := fun tr s => I s ∧ ∀ x ∈ tr, P x) ?_ ⟨h0, by simp⟩
  rintro pre s e s' o ⟨hI, hAll⟩ hNext
  obtain ⟨hI', hP⟩ := hStep s e s' o hI hNext
  refine ⟨hI', fun x hx => ?_⟩
  rcases List.mem_append.mp hx with hx | hx
  · exact hAll x hx
  · exact List.mem_singleton.mp hx ▸ hP

/-- States some run from an initial state ends in. -/
def Reachable (init : σ → Prop) (step : σ → ε → Option (σ × ω)) (s : σ) : Prop :=
  ∃ s₀ tr, init s₀ ∧ Run step s₀ tr s

theorem Reachable.of_init {init : σ → Prop} (h : init s) : Reachable init step s :=
  ⟨s, [], h, Run.nil s⟩

theorem Reachable.run {init : σ → Prop} (h : Reachable init step s) (hRun : Run step s tr s') :
    Reachable init step s' := by
  obtain ⟨s₀, tr₀, hInit, hRun₀⟩ := h
  exact ⟨s₀, tr₀ ++ tr, hInit, hRun₀.append hRun⟩

theorem Reachable.next {init : σ → Prop} {e : ε} {o : ω} (h : Reachable init step s)
    (hStep : step s e = some (s', o)) : Reachable init step s' :=
  h.run (Run.single hStep)

/-- The invariant rule, from the initial states on. -/
theorem Reachable.invariant {init I : σ → Prop} (hInit : ∀ s, init s → I s)
    (hStep : ∀ s e s' o, I s → step s e = some (s', o) → I s')
    (h : Reachable init step s) : I s := by
  obtain ⟨s₀, tr, h0, hRun⟩ := h
  exact hRun.invariant hStep (hInit s₀ h0)

/-! ## Execution -/

/-- Takes the events in order and collects the trace; `none` if one is stuck. -/
def exec (step : σ → ε → Option (σ × ω)) : σ → List ε → Option (List (ε × ω) × σ)
  | s, [] => some ([], s)
  | s, e :: es =>
    match step s e with
    | none => none
    | some (s', o) =>
      match exec step s' es with
      | none => none
      | some (tr, s'') => some ((e, o) :: tr, s'')

theorem run_of_exec (es : List ε) (h : exec step s es = some (tr, s')) : Run step s tr s' := by
  induction es generalizing s tr with
  | nil =>
    simp only [exec, Option.some.injEq, Prod.mk.injEq] at h
    obtain ⟨rfl, rfl⟩ := h
    exact Run.nil s
  | cons e es ih =>
    rw [exec] at h
    split at h
    · exact absurd h (by simp)
    · next s₁ o hStep =>
      split at h
      · exact absurd h (by simp)
      · next tr₁ s₂ hRest =>
        simp only [Option.some.injEq, Prod.mk.injEq] at h
        obtain ⟨rfl, rfl⟩ := h
        exact Run.cons hStep (ih hRest)

theorem events_of_exec {es : List ε} (h : exec step s es = some (tr, s')) :
    tr.map Prod.fst = es := by
  induction es generalizing s tr with
  | nil =>
    simp only [exec, Option.some.injEq, Prod.mk.injEq] at h
    rw [← h.1]
    rfl
  | cons e es ih =>
    rw [exec] at h
    split at h
    · exact absurd h (by simp)
    · split at h
      · exact absurd h (by simp)
      · next hRest =>
        simp only [Option.some.injEq, Prod.mk.injEq] at h
        obtain ⟨rfl, rfl⟩ := h
        rw [List.map_cons, ih hRest]

/-- A concrete run from its outputs and from what is looked at in its end,
where states cannot be compared. -/
theorem exists_run_of_view {α : Type*} (view : σ → α) (es : List ε) {os : List ω} {a : α}
    (h : (exec step s es).map (fun r => (r.1.map Prod.snd, view r.2)) = some (os, a)) :
    ∃ s', Run step s (es.zip os) s' ∧ view s' = a := by
  obtain ⟨⟨tr, s'⟩, hEq, hView⟩ := Option.map_eq_some_iff.mp h
  obtain ⟨hOs, hEnd⟩ := Prod.mk.inj hView
  rw [← List.zip_of_prod (events_of_exec hEq) hOs]
  exact ⟨s', run_of_exec es hEq, hEnd⟩

/-- A concrete run from its outputs alone. -/
theorem exists_run_of_outputs (es : List ε) {os : List ω}
    (h : (exec step s es).map (fun r => r.1.map Prod.snd) = some os) :
    ∃ s', Run step s (es.zip os) s' := by
  obtain ⟨r, hEq, hOs⟩ := Option.map_eq_some_iff.mp h
  obtain ⟨s', hRun, -⟩ := exists_run_of_view (fun _ => ()) es
    (by rw [hEq, Option.map_some, hOs] : (exec step s es).map _ = some (os, ()))
  exact ⟨s', hRun⟩

/-- What the interpreter ends in, some run ends in. -/
theorem exists_run_of_exec (es : List ε) (h : (exec step s es).map Prod.snd = some s') :
    ∃ tr, Run step s tr s' ∧ tr.map Prod.fst = es := by
  obtain ⟨⟨tr, s₁⟩, hEq, rfl⟩ := Option.map_eq_some_iff.mp h
  exact ⟨tr, run_of_exec es hEq, events_of_exec hEq⟩

theorem Reachable.exec {init : σ → Prop} (h : Reachable init step s) (es : List ε)
    (hExec : (Runs.exec step s es).map Prod.snd = some s') : Reachable init step s' := by
  obtain ⟨tr, hRun, -⟩ := exists_run_of_exec es hExec
  exact h.run hRun

end Runs
