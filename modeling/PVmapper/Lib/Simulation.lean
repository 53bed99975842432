import PVmapper.Lib.Runs

/-!
# Forward simulation of transition systems

A concrete system is simulated by an abstract one if, between related states,
each of its steps can be replaced by a run of the abstract system of which the
same is observed: any number of abstract steps, none included, but the same
observations in the same order. Then every run can be replaced so, and what
every abstract run shows, every concrete run shows.

* `Simulates.run`  — the simulation over whole runs.
* `Simulates.shown` — properties of what is observed carry over.
* `Run.rename` — the same system under other names.
* `Run.project` — a part of a system that is a system of its own.
* `Run.expand`, `exists_of_flatten` — a system of which every step is a run of
  a finer one, and where a step of that one lies.
-/

namespace Runs

variable {σ ε ω τ α β ν : Type*}

/-- What is observed of a trace, if `seen` is what is observed of a step. -/
def observed (seen : ε × ω → List ν) (tr : List (ε × ω)) : List ν := tr.flatMap seen

@[simp] theorem observed_nil (seen : ε × ω → List ν) : observed seen [] = [] := rfl

theorem observed_cons (seen : ε × ω → List ν) (x : ε × ω) (tr : List (ε × ω)) :
    observed seen (x :: tr) = seen x ++ observed seen tr := List.flatMap_cons

theorem observed_append (seen : ε × ω → List ν) (tr tr' : List (ε × ω)) :
    observed seen (tr ++ tr') = observed seen tr ++ observed seen tr' := List.flatMap_append

@[simp] theorem observed_singleton (seen : ε × ω → List ν) (x : ε × ω) :
    observed seen [x] = seen x := by simp [observed]

/-- Related states stay related, whatever the concrete system does, by a run
of the abstract system that shows the same. -/
def Simulates (step : σ → ε → Option (σ × ω)) (seen : ε × ω → List ν)
    (astep : τ → α → Option (τ × β)) (aseen : α × β → List ν) (R : σ → τ → Prop) : Prop :=
  ∀ s t e s' o, R s t → step s e = some (s', o) →
    ∃ tr t', Run astep t tr t' ∧ R s' t' ∧ observed aseen tr = seen (e, o)

variable {step : σ → ε → Option (σ × ω)} {seen : ε × ω → List ν}
  {astep : τ → α → Option (τ × β)} {aseen : α × β → List ν} {R : σ → τ → Prop}
  {s s' : σ} {t : τ} {tr : List (ε × ω)}

/-- **Simulation rule.** A concrete run has an abstract run that shows the
same. -/
theorem Simulates.run (h : Simulates step seen astep aseen R) (hRun : Run step s tr s')
    (hR : R s t) :
    ∃ atr t', Run astep t atr t' ∧ R s' t' ∧ observed aseen atr = observed seen tr := by
  induction hRun generalizing t with
  | nil => exact ⟨[], t, Run.nil t, hR, rfl⟩
  | cons hStep _ ih =>
    obtain ⟨atr, t₁, hARun, hR₁, hSeen⟩ := h _ _ _ _ _ hR hStep
    obtain ⟨atr', t', hARun', hR', hSeen'⟩ := ih hR₁
    refine ⟨atr ++ atr', t', hARun.append hARun', hR', ?_⟩
    rw [observed_append, observed_cons, hSeen, hSeen']

/-- What every abstract run from `t` shows, every concrete run from a related
state shows. -/
theorem Simulates.shown (h : Simulates step seen astep aseen R) {P : List ν → Prop} (hR : R s t)
    (hP : ∀ atr t', Run astep t atr t' → P (observed aseen atr)) (hRun : Run step s tr s') :
    P (observed seen tr) := by
  obtain ⟨atr, t', hARun, -, hSeen⟩ := h.run hRun hR
  exact hSeen ▸ hP atr t' hARun

/-- **Projection rule.** If every step of a system is, for a part of it that is
a system of its own, a run of that part, then so is the whole run. `R` says
what the part is, and may say more of the states on the way. -/
theorem Run.project {fine : τ → α → Option (τ × β)} {P : ε × ω → List (α × β) → Prop}
    (hStep : ∀ s e s' o t, (e, o) ∈ tr → step s e = some (s', o) → R s t →
      ∃ block t', R s' t' ∧ Run fine t block t' ∧ P (e, o) block)
    (h : Run step s tr s') (hR : R s t) :
    ∃ blocks t', R s' t' ∧ List.Forall₂ P tr blocks ∧ Run fine t blocks.flatten t' := by
  induction h generalizing t with
  | nil s => exact ⟨[], t, hR, List.Forall₂.nil, Run.nil t⟩
  | cons hs _ ih =>
    obtain ⟨block, t₁, hR₁, hBlock, hP⟩ := hStep _ _ _ _ _ (List.mem_cons_self ..) hs hR
    obtain ⟨blocks, t', hR', hAll, hRun⟩ :=
      ih (fun s e s' o t hMem => hStep s e s' o t (List.mem_cons_of_mem _ hMem)) hR₁
    refine ⟨block :: blocks, t', hR', List.Forall₂.cons hP hAll, ?_⟩
    rw [List.flatten_cons]
    exact hBlock.append hRun

/-- A run of which every step is a run of a finer system, on the same states,
is the run of all their steps. -/
theorem Run.expand {fine : σ → α → Option (σ × β)} {P : ε × ω → List (α × β) → Prop}
    (hStep : ∀ s e s' o, step s e = some (s', o) → ∃ block, Run fine s block s' ∧ P (e, o) block)
    (h : Run step s tr s') :
    ∃ blocks, List.Forall₂ P tr blocks ∧ Run fine s blocks.flatten s' := by
  have hSame : ∀ s e s' o t, (e, o) ∈ tr → step s e = some (s', o) → s = t →
      ∃ block t', s' = t' ∧ Run fine t block t' ∧ P (e, o) block := by
    rintro s e s' o t - hs rfl
    obtain ⟨block, hBlock, hP⟩ := hStep s e s' o hs
    exact ⟨block, s', rfl, hBlock, hP⟩
  obtain ⟨blocks, t', rfl, hAll, hRun⟩ := h.project hSame rfl
  exact ⟨blocks, hAll, hRun⟩

/-- A system that differs in how it names its events and outputs has the same
runs. -/
theorem Run.rename {fine : σ → α → Option (σ × β)} {f : ε → α} {g : β → ω}
    (hStep : ∀ s e, step s e = (fine s (f e)).map fun r => (r.1, g r.2)) (h : Run step s tr s') :
    ∃ ftr, Run fine s ftr s' ∧ List.Forall₂ (fun x y => y.1 = f x.1 ∧ x.2 = g y.2) tr ftr := by
  induction h with
  | nil s => exact ⟨[], Run.nil s, List.Forall₂.nil⟩
  | cons hs _ ih =>
    obtain ⟨ftr, hRun, hAll⟩ := ih
    rw [hStep] at hs
    obtain ⟨⟨s₁, o⟩, hFine, hEq⟩ := Option.map_eq_some_iff.mp hs
    obtain ⟨rfl, rfl⟩ := Prod.mk.inj hEq
    exact ⟨_, Run.cons hFine hRun, List.Forall₂.cons ⟨rfl, rfl⟩ hAll⟩

/-- The block a step of the finer run lies in. -/
theorem exists_of_flatten {P : α → List β → Prop} {xs : List α} {blocks : List (List β)}
    (h : List.Forall₂ P xs blocks) {pre post : List β} {y : β}
    (hEq : blocks.flatten = pre ++ y :: post) :
    ∃ xs₁ x xs₂ blocks₁ u v, xs = xs₁ ++ x :: xs₂ ∧ List.Forall₂ P xs₁ blocks₁ ∧
      P x (u ++ y :: v) ∧ pre = blocks₁.flatten ++ u := by
  induction h generalizing pre with
  | nil => simp at hEq
  | @cons x block xs blocks hP _ ih =>
    rw [List.flatten_cons, List.append_eq_append_iff] at hEq
    rcases hEq with ⟨c, rfl, hRest⟩ | ⟨c, rfl, hRest⟩
    · -- in a later block
      obtain ⟨xs₁, x', xs₂, blocks₁, u, v, rfl, hAll, hHere, rfl⟩ := ih hRest
      refine ⟨x :: xs₁, x', xs₂, block :: blocks₁, u, v, rfl, List.Forall₂.cons hP hAll, hHere, ?_⟩
      rw [List.flatten_cons, List.append_assoc]
    · cases c with
      | nil =>
        -- at the start of a later one
        rw [List.append_nil] at hP
        obtain ⟨xs₁, x', xs₂, blocks₁, u, v, rfl, hAll, hHere, hNil⟩ :=
          ih (show blocks.flatten = [] ++ y :: post from hRest.symm)
        refine ⟨x :: xs₁, x', xs₂, pre :: blocks₁, u, v, rfl, List.Forall₂.cons hP hAll, hHere, ?_⟩
        rw [List.flatten_cons, List.append_assoc, ← hNil, List.append_nil]
      | cons y' c =>
        obtain ⟨rfl, -⟩ := List.cons.inj hRest
        exact ⟨[], x, xs, [], pre, c, rfl, List.Forall₂.nil, hP, rfl⟩

end Runs
