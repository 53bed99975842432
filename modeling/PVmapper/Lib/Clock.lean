import PVmapper.Lib.Runs

/-!
# Runs under a clock

Programs read a clock that never goes back, but only now and then. A trace is
clocked from `t` to `t'` if its steps can be given times in order, such that
each takes its readings between its own time and the next one's. Which
readings an event takes is a parameter, `reads e t t'`: all of them lie
between `t` and `t'`.

* `Clocked.append`, `Clocked.split` — a clocked trace in parts.
* `Run.clocked`                     — the invariant rule for predicates that
  look at the clock.
-/

namespace Runs

variable {σ ε ω τ : Type*} [Preorder τ]

/-- During the trace the clock goes from `t` to `t'`. -/
inductive Clocked (reads : ε → τ → τ → Prop) : τ → List (ε × ω) → τ → Prop
  | nil (t : τ) : Clocked reads t [] t
  | cons {t t₁ t' : τ} {e : ε} {o : ω} {tr : List (ε × ω)} :
      t ≤ t₁ → reads e t t₁ → Clocked reads t₁ tr t' → Clocked reads t ((e, o) :: tr) t'

variable {reads : ε → τ → τ → Prop} {t t' t'' : τ} {tr tr' : List (ε × ω)}
  {step : σ → ε → Option (σ × ω)} {s s' : σ}

/-- The first event reads the clock, then the others do. -/
theorem clocked_cons_iff {e : ε} {o : ω} :
    Clocked reads t ((e, o) :: tr) t' ↔ ∃ t₁, t ≤ t₁ ∧ reads e t t₁ ∧ Clocked reads t₁ tr t' := by
  constructor
  · intro h
    cases h with
    | cons hLe hReads hRest => exact ⟨_, hLe, hReads, hRest⟩
  · intro h
    obtain ⟨t₁, hLe, hReads, hRest⟩ := h
    exact Clocked.cons hLe hReads hRest

/-- The clock does not go back. -/
theorem Clocked.le (h : Clocked reads t tr t') : t ≤ t' := by
  induction h with
  | nil t => exact le_rfl
  | cons hLe _ _ ih => exact hLe.trans ih

/-- Traces in the order of the clock, one after the other. -/
theorem Clocked.append (h : Clocked reads t tr t') (h' : Clocked reads t' tr' t'') :
    Clocked reads t (tr ++ tr') t'' := by
  induction h with
  | nil => exact h'
  | cons hLe hReads _ ih => exact Clocked.cons hLe hReads (ih h')

/-- The clock at a point between two events. -/
theorem Clocked.split (h : Clocked reads t (tr ++ tr') t'') :
    ∃ t', Clocked reads t tr t' ∧ Clocked reads t' tr' t'' := by
  induction tr generalizing t with
  | nil => exact ⟨t, Clocked.nil t, h⟩
  | cons x tr ih =>
    obtain ⟨t₁, hLe, hReads, hRest⟩ := clocked_cons_iff.mp h
    obtain ⟨t', hTr, hTr'⟩ := ih hRest
    exact ⟨t', Clocked.cons hLe hReads hTr, hTr'⟩

/-- **Invariant rule, with the clock.** What every step keeps while the clock
goes on, every clocked run keeps. -/
theorem Run.clocked {I : τ → σ → Prop}
    (hStep : ∀ t t' s e s' o, (e, o) ∈ tr → t ≤ t' → reads e t t' → I t s →
      step s e = some (s', o) → I t' s')
    (h : Run step s tr s') (hClock : Clocked reads t tr t') (h0 : I t s) : I t' s' := by
  induction h generalizing t with
  | nil =>
    cases hClock
    exact h0
  | cons hs _ ih =>
    obtain ⟨t₁, hLe, hReads, hRest⟩ := clocked_cons_iff.mp hClock
    exact ih (fun t t' s e s' o hMem => hStep t t' s e s' o (List.mem_cons_of_mem _ hMem)) hRest
      (hStep _ _ _ _ _ _ (List.mem_cons_self ..) hLe hReads h0 hs)

end Runs
