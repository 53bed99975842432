import PVmapper.Lib.Runs

/-!
# Loops over a vector that their own bodies change

A state has a vector `v`, and a loop over `v` calls a body for its elements.
The body may change the state, and `v` with it:

    for (i = 0; i < n; i++) { if (ready(i)) body(v[i]); }                        -- visit
    for (it = v.begin(); it != v.end();) {                                       -- sweep
      body(*it); if (!keep(*it)) { it = v.erase(it); } else { it++; } }

`n` is the size of `v` before the first loop, so a body must not remove
elements there; in the second one it must not change `v` at all, because that
would invalidate the iterator.

* `visit_spec` — with bodies that only append, the elements that were there are
  visited, in order, and no others.
* `sweep_spec` — with bodies that leave `v` alone, every element is visited
  once, and those that are to be kept are kept.
* `visit_calls`, `sweep_calls` — what each body was called for, in which state,
  and what it left to the next one.
* `visit_run`, `sweep_run` — loops of which every body is a run of a system.
-/

namespace Loops

variable {σ α β γ : Type*}

/-- How a loop can fail: a body has no answer, there is no element at an
index, or the vector changed under the iterator. -/
inductive Fault
  | body
  | range
  | iterator
deriving DecidableEq, Repr

/-- A vector in a state. -/
structure Vec (σ α : Type*) where
  get : σ → List α
  put : List α → σ → σ
  get_put : ∀ l s, get (put l s) = l

variable (v : Vec σ α) (ready : ℕ → Bool) (body : ℕ → α → σ → Option (σ × β)) (keep : σ → α → Bool)

/-- The loop over the indices from `i` on, `n` of them, with what the bodies
returned. -/
def visit : ℕ → ℕ → σ → Except Fault (σ × List β)
  | _, 0, s => .ok (s, [])
  | i, n + 1, s =>
    if ready i then
      match (v.get s)[i]? with
      | none => .error .range
      | some a =>
        match body i a s with
        | none => .error .body
        | some (s', b) => (visit (i + 1) n s').map fun r => (r.1, b :: r.2)
    else visit (i + 1) n s

/-- The loop from the iterator `it` on; `t` counts the iterations. -/
def sweep [DecidableEq α] (t it : ℕ) (s : σ) : Except Fault (σ × List β) :=
  if h : it < (v.get s).length then
    match body t (v.get s)[it] s with
    | none => .error .body
    | some (s', b) =>
      if hSame : v.get s' = v.get s then
        (if keep s' (v.get s)[it] then sweep (t + 1) (it + 1) s'
        else sweep (t + 1) it (v.put ((v.get s).eraseIdx it) s')).map fun r => (r.1, b :: r.2)
      else .error .iterator
  else .ok (s, [])
termination_by (v.get s).length - it
decreasing_by
  · rw [hSame]
    omega
  · rw [v.get_put, List.length_eraseIdx_of_lt h]
    omega

-- ---------------------------------------------------------------------------
-- Visiting
-- ---------------------------------------------------------------------------

/-- Bodies that only append to the vector. `I` is an invariant, and `note s a`
what can be `seen` in what the body for `a` returns: no other body changes it. -/
structure Appends (I : σ → Prop) (note : σ → α → γ) (seen : β → γ) : Prop where
  nodup : ∀ s, I s → (v.get s).Nodup
  invariant : ∀ i a s s' b, I s → a ∈ v.get s → body i a s = some (s', b) → I s'
  append : ∀ i a s s' b, I s → a ∈ v.get s → body i a s = some (s', b) → v.get s <+: v.get s'
  returned : ∀ i a s s' b, I s → a ∈ v.get s → body i a s = some (s', b) → seen b = note s a
  frame : ∀ i a s s' b, I s → a ∈ v.get s → body i a s = some (s', b) →
    ∀ a' ∈ v.get s, a' ≠ a → note s' a' = note s a'

variable {v body} {I : σ → Prop} {note : σ → α → γ} {seen : β → γ}

/-- Some body has no answer. -/
def Stuck (v : Vec σ α) (body : ℕ → α → σ → Option (σ × β)) (I : σ → Prop) : Prop :=
  ∃ t a s, I s ∧ a ∈ v.get s ∧ body t a s = none

/-- What is visited from index `i` on. -/
def visited (ready : ℕ → Bool) (i n : ℕ) (l : List γ) : List γ :=
  ((List.range' i n).filter ready).filterMap (l[·]?)

theorem visited_succ (i n : ℕ) (l : List γ) :
    visited ready i (n + 1) l =
      (if ready i then l[i]?.toList else []) ++ visited ready (i + 1) n l := by
  unfold visited
  rw [List.range'_succ, List.filter_cons]
  split
  · cases hGet : l[i]? with
    | none => rw [List.filterMap_cons_none hGet, Option.toList_none, List.nil_append]
    | some b =>
      rw [List.filterMap_cons_some hGet, Option.toList_some, List.singleton_append]
  · rfl

/-- Only the elements from index `i` on matter. -/
theorem visited_congr {i n : ℕ} {l l' : List γ} (h : ∀ j, i ≤ j → j < i + n → l[j]? = l'[j]?) :
    visited ready i n l = visited ready i n l' := by
  refine List.filterMap_congr fun j hj => ?_
  have hRange := List.mem_range'_1.mp (List.mem_of_mem_filter hj)
  exact h j hRange.1 hRange.2

/-- **Visiting.** The elements at the ready indices are visited, each with what
was noted of it before the loop, unless a body has no answer. -/
theorem visit_spec (h : Appends v body I note seen) {i n : ℕ} {s : σ} (hI : I s)
    (hn : i + n ≤ (v.get s).length) :
    (∃ s' log, visit v ready body i n s = .ok (s', log) ∧ I s' ∧ v.get s <+: v.get s' ∧
        log.map seen = visited ready i n ((v.get s).map (note s))) ∨
      visit v ready body i n s = .error .body ∧ Stuck v body I := by
  induction n generalizing i s with
  | zero => exact Or.inl ⟨s, [], rfl, hI, List.prefix_refl _, rfl⟩
  | succ n ih =>
    rw [visited_succ]
    unfold visit
    by_cases hReady : ready i = true
    · have hi : i < (v.get s).length := by omega
      rw [if_pos hReady, if_pos hReady, List.getElem?_map, List.getElem?_eq_getElem hi]
      have hMem : (v.get s)[i] ∈ v.get s := List.getElem_mem hi
      cases hBody : body i (v.get s)[i] s with
      | none => exact Or.inr ⟨by simp only [hBody], i, _, s, hI, hMem, hBody⟩
      | some r =>
        obtain ⟨s₁, b⟩ := r
        have hI₁ := h.invariant _ _ _ _ _ hI hMem hBody
        have hAppend := h.append _ _ _ _ _ hI hMem hBody
        have hSeen := h.returned _ _ _ _ _ hI hMem hBody
        -- the elements ahead are other ones, and still where they were
        have hAhead : visited ready (i + 1) n ((v.get s₁).map (note s₁)) =
            visited ready (i + 1) n ((v.get s).map (note s)) := by
          refine visited_congr ready fun j hj hj' => ?_
          have hjLen : j < (v.get s).length := by omega
          have hOther : (v.get s)[j] ≠ (v.get s)[i] := fun hEq => by
            have := (h.nodup s hI).getElem_inj_iff.mp hEq
            omega
          have hGet : (v.get s₁)[j]? = some (v.get s)[j] :=
            List.prefix_iff_getElem?.mp hAppend j hjLen
          rw [List.getElem?_map, List.getElem?_map, hGet, List.getElem?_eq_getElem hjLen,
            Option.map_some, Option.map_some,
            h.frame _ _ _ _ _ hI hMem hBody _ (List.getElem_mem hjLen) hOther]
        have hFits : i + 1 + n ≤ (v.get s₁).length := by
          have := hAppend.length_le
          omega
        simp only [hBody]
        rcases ih hI₁ hFits with ⟨s', log, hVisit, hI', hAppend', hLog⟩ | ⟨hVisit, hStuck⟩
        · rw [hVisit]
          refine Or.inl ⟨s', b :: log, rfl, hI', hAppend.trans hAppend', ?_⟩
          rw [List.map_cons, hSeen, hLog, hAhead]
          rfl
        · rw [hVisit]
          exact Or.inr ⟨rfl, hStuck⟩
    · rw [if_neg hReady, if_neg hReady, List.nil_append]
      exact ih hI (by omega)

-- ---------------------------------------------------------------------------
-- Calls
-- ---------------------------------------------------------------------------

/-- Calls for a list of elements, each with its index, one after the other.
`call i a s b s'` says that the call for `a` in the state `s` returned `b`,
and that the next one is made in `s'`. -/
inductive Calls (call : ℕ → α → σ → β → σ → Prop) : List (α × ℕ) → σ → List β → σ → Prop
  | nil (s : σ) : Calls call [] s [] s
  | cons {i : ℕ} {a : α} {rest : List (α × ℕ)} {s s₁ s' : σ} {b : β} {log : List β}
      (hCall : call i a s b s₁) (hRest : Calls call rest s₁ log s') :
      Calls call ((a, i) :: rest) s (b :: log) s'

theorem Calls.mono {call call' : ℕ → α → σ → β → σ → Prop}
    (h : ∀ i a s b s', call i a s b s' → call' i a s b s') {calls : List (α × ℕ)} {s s' : σ}
    {log : List β} (hCalls : Calls call calls s log s') : Calls call' calls s log s' := by
  induction hCalls with
  | nil s => exact .nil s
  | cons hCall _ ih => exact .cons (h _ _ _ _ _ hCall) ih

theorem exists_of_map_eq_ok {f : γ → β} {x : Except Fault γ} {b : β} (h : x.map f = .ok b) :
    ∃ c, x = .ok c ∧ f c = b := by
  cases x with
  | error fault => exact absurd h (by simp [Except.map])
  | ok c => exact ⟨c, rfl, Except.ok.inj h⟩

/-- A call of a body in a visit. -/
def Visits (body : ℕ → α → σ → Option (σ × β)) (i : ℕ) (a : α) (s : σ) (b : β) (s' : σ) : Prop :=
  body i a s = some (s', b)

/-- A call of a body in a sweep, and what becomes of the element. -/
def Sweeps [DecidableEq α] (v : Vec σ α) (body : ℕ → α → σ → Option (σ × β)) (keep : σ → α → Bool)
    (t : ℕ) (a : α) (s : σ) (b : β) (s' : σ) : Prop :=
  ∃ s₁, body t a s = some (s₁, b) ∧ s' = if keep s₁ a then s₁ else v.put ((v.get s₁).erase a) s₁

/-- The calls of a visit are for the elements that were at the ready indices
before it, each in the state the call before it left. -/
theorem visit_calls (h : Appends v body I note seen) {i n : ℕ} {s s' : σ} {log : List β} (hI : I s)
    (hn : i + n ≤ (v.get s).length) (hVisit : visit v ready body i n s = .ok (s', log)) :
    Calls (Visits body) (visited ready i n (v.get s).zipIdx) s log s' := by
  induction n generalizing i s log with
  | zero =>
    obtain ⟨rfl, rfl⟩ := Prod.mk.inj (Except.ok.inj hVisit)
    exact .nil s
  | succ n ih =>
    rw [visited_succ]
    unfold visit at hVisit
    split at hVisit
    · next hReady =>
      have hi : i < (v.get s).length := by omega
      rw [List.getElem?_eq_getElem hi] at hVisit
      dsimp only at hVisit
      split at hVisit
      · exact absurd hVisit (by simp)
      · next s₁ b hBody =>
        obtain ⟨⟨s₂, rest⟩, hRest, hEq⟩ := exists_of_map_eq_ok hVisit
        obtain ⟨rfl, rfl⟩ := Prod.mk.inj hEq
        have hMem : (v.get s)[i] ∈ v.get s := List.getElem_mem hi
        have hAppend := h.append _ _ _ _ _ hI hMem hBody
        have hFits : i + 1 + n ≤ (v.get s₁).length := by
          have := hAppend.length_le
          omega
        -- the elements ahead are still where they were
        have hAhead : visited ready (i + 1) n (v.get s₁).zipIdx =
            visited ready (i + 1) n (v.get s).zipIdx := by
          refine visited_congr ready fun j _ hj => ?_
          have hjLen : j < (v.get s).length := by omega
          rw [List.getElem?_zipIdx, List.getElem?_zipIdx,
            List.prefix_iff_getElem?.mp hAppend j hjLen, List.getElem?_eq_getElem hjLen]
        have hHere : (v.get s).zipIdx[i]? = some ((v.get s)[i], i) := by
          rw [List.getElem?_zipIdx, List.getElem?_eq_getElem hi, Option.map_some, Nat.zero_add]
        rw [if_pos hReady, hHere, ← hAhead]
        exact .cons hBody (ih (h.invariant _ _ _ _ _ hI hMem hBody) hFits hRest)
    · next hReady =>
      rw [if_neg hReady, List.nil_append]
      exact ih hI (by omega) hVisit

-- ---------------------------------------------------------------------------
-- Sweeping
-- ---------------------------------------------------------------------------

/-- Bodies that leave the vector alone, return which element they were called
for, and decide on no other element whether it is to be kept. -/
structure Leaves (v : Vec σ α) (body : ℕ → α → σ → Option (σ × β)) (keep : σ → α → Bool)
    (I : σ → Prop) (element : β → α) : Prop where
  nodup : ∀ s, I s → (v.get s).Nodup
  invariant : ∀ t a s s' b, I s → a ∈ v.get s → body t a s = some (s', b) → I s'
  same : ∀ t a s s' b, I s → a ∈ v.get s → body t a s = some (s', b) → v.get s' = v.get s
  returned : ∀ t a s s' b, I s → a ∈ v.get s → body t a s = some (s', b) → element b = a
  frame : ∀ t a s s' b, I s → a ∈ v.get s → body t a s = some (s', b) →
    ∀ a', a' ≠ a → keep s' a' = keep s a'
  erase : ∀ s i, I s → (∃ a, (v.get s)[i]? = some a ∧ keep s a = false) →
    I (v.put ((v.get s).eraseIdx i) s)
  keep_put : ∀ l s a, keep (v.put l s) a = keep s a

variable [DecidableEq α] {keep}

omit [DecidableEq α] in
theorem eraseIdx_here {front rest : List α} {a : α} {l : List α} (h : l = front ++ a :: rest) :
    l.eraseIdx front.length = front ++ rest := by
  rw [h, List.eraseIdx_append_of_length_le le_rfl, Nat.sub_self, List.eraseIdx_cons_zero]

/-- Sweeping `rest`, behind what was kept already. -/
theorem sweep_append {element : β → α} (h : Leaves v body keep I element) {front rest : List α}
    {s : σ} (hI : I s) (hGet : v.get s = front ++ rest) (t : ℕ) :
    (∃ s' log, sweep v body keep t front.length s = .ok (s', log) ∧ I s' ∧
        log.map element = rest ∧ (∀ a, a ∉ rest → keep s' a = keep s a) ∧
        v.get s' = front ++ rest.filter (keep s')) ∨
      sweep v body keep t front.length s = .error .body ∧ Stuck v body I := by
  induction rest generalizing front s t with
  | nil =>
    unfold sweep
    rw [dif_neg (by simp [hGet])]
    exact Or.inl ⟨s, [], rfl, hI, rfl, fun _ _ => rfl, hGet⟩
  | cons a rest ih =>
    have hHere : (v.get s)[front.length]? = some a := by simp [hGet]
    obtain ⟨hLen, hAt⟩ := List.getElem?_eq_some_iff.mp hHere
    have hMem : a ∈ v.get s := by simp [hGet]
    have hNodup := h.nodup s hI
    rw [hGet, List.nodup_append, List.nodup_cons] at hNodup
    unfold sweep
    rw [dif_pos hLen]
    simp only [hAt]
    cases hBody : body t a s with
    | none => exact Or.inr ⟨rfl, t, a, s, hI, hMem, hBody⟩
    | some r =>
      obtain ⟨s₁, b⟩ := r
      have hI₁ := h.invariant _ _ _ _ _ hI hMem hBody
      have hSame := h.same _ _ _ _ _ hI hMem hBody
      have hFrame := h.frame _ _ _ _ _ hI hMem hBody
      have hElement := h.returned _ _ _ _ _ hI hMem hBody
      simp only [hSame, dite_true]
      by_cases hKeep : keep s₁ a = true
      · rw [if_pos hKeep]
        have hFront : front.length + 1 = (front ++ [a]).length := by simp
        rw [hFront]
        have hGet₁ : v.get s₁ = (front ++ [a]) ++ rest := by rw [hSame, hGet]; simp
        rcases ih hI₁ hGet₁ (t + 1) with
          ⟨s', log, hSweep, hI', hLog, hStays, hEnd⟩ | ⟨hSweep, hStuck⟩
        · rw [hSweep]
          -- its own body was the last to decide on `a`
          have hKeep' : keep s' a = true := (hStays a hNodup.2.1.1).trans hKeep
          refine Or.inl ⟨s', b :: log, rfl, hI', ?_, fun a' ha' => ?_, ?_⟩
          · rw [List.map_cons, hElement, hLog]
          · rw [List.mem_cons, not_or] at ha'
            rw [hStays a' ha'.2, hFrame a' ha'.1]
          · rw [hEnd, List.filter_cons_of_pos hKeep', List.append_assoc]
            rfl
        · rw [hSweep]
          exact Or.inr ⟨rfl, hStuck⟩
      · rw [if_neg hKeep]
        have hErase := eraseIdx_here hGet
        have hI₂ := h.erase s₁ front.length hI₁
          ⟨a, by rw [hSame]; exact hHere, by simpa using hKeep⟩
        rw [hSame] at hI₂
        rcases ih hI₂ (by rw [v.get_put, hErase]) (t + 1) with
          ⟨s', log, hSweep, hI', hLog, hStays, hEnd⟩ | ⟨hSweep, hStuck⟩
        · rw [hSweep]
          have hKeep' : ¬ keep s' a = true := by
            rw [hStays a hNodup.2.1.1, h.keep_put]
            exact hKeep
          refine Or.inl ⟨s', b :: log, rfl, hI', ?_, fun a' ha' => ?_, ?_⟩
          · rw [List.map_cons, hElement, hLog]
          · rw [List.mem_cons, not_or] at ha'
            rw [hStays a' ha'.2, h.keep_put, hFrame a' ha'.1]
          · rw [hEnd, List.filter_cons_of_neg hKeep']
        · rw [hSweep]
          exact Or.inr ⟨rfl, hStuck⟩

/-- **Sweeping.** Every element is visited once, in order, and the vector
becomes what is to be kept of it at the end, unless a body has no answer. -/
theorem sweep_spec {element : β → α} (h : Leaves v body keep I element) {s : σ} (hI : I s) :
    (∃ s' log, sweep v body keep 0 0 s = .ok (s', log) ∧ I s' ∧ log.map element = v.get s ∧
        v.get s' = (v.get s).filter (keep s')) ∨
      sweep v body keep 0 0 s = .error .body ∧ Stuck v body I := by
  have hGet : v.get s = [] ++ v.get s := rfl
  rcases sweep_append h hI hGet 0 with ⟨s', log, hSweep, hI', hLog, -, hEnd⟩ | hStuck
  · exact Or.inl ⟨s', log, hSweep, hI', hLog, hEnd⟩
  · exact Or.inr hStuck

/-- The calls of a sweep are for all elements, each in the state that is left
when the element before it has been looked at. -/
theorem sweep_calls {element : β → α} (h : Leaves v body keep I element) {front rest : List α}
    {s s' : σ} {log : List β} (hI : I s) (hGet : v.get s = front ++ rest) {t : ℕ}
    (hSweep : sweep v body keep t front.length s = .ok (s', log)) :
    Calls (Sweeps v body keep) (rest.zipIdx t) s log s' := by
  induction rest generalizing front s t log with
  | nil =>
    unfold sweep at hSweep
    rw [dif_neg (by simp [hGet])] at hSweep
    obtain ⟨rfl, rfl⟩ := Prod.mk.inj (Except.ok.inj hSweep)
    exact .nil s
  | cons a rest ih =>
    have hHere : (v.get s)[front.length]? = some a := by simp [hGet]
    obtain ⟨hLen, hAt⟩ := List.getElem?_eq_some_iff.mp hHere
    have hMem : a ∈ v.get s := by simp [hGet]
    have hNodup := h.nodup s hI
    rw [hGet, List.nodup_append, List.nodup_cons] at hNodup
    unfold sweep at hSweep
    rw [dif_pos hLen] at hSweep
    simp only [hAt] at hSweep
    split at hSweep
    · exact absurd hSweep (by simp)
    · next s₁ b hBody =>
      have hI₁ := h.invariant _ _ _ _ _ hI hMem hBody
      have hSame := h.same _ _ _ _ _ hI hMem hBody
      rw [dif_pos hSame] at hSweep
      obtain ⟨⟨s₂, log'⟩, hRest, hEq⟩ := exists_of_map_eq_ok hSweep
      obtain ⟨rfl, rfl⟩ := Prod.mk.inj hEq
      rw [List.zipIdx_cons]
      refine .cons ⟨s₁, hBody, rfl⟩ ?_
      split at hRest
      · next hKeep =>
        rw [if_pos hKeep]
        have hFront : front.length + 1 = (front ++ [a]).length := by simp
        rw [hFront] at hRest
        exact ih hI₁ (by rw [hSame, hGet]; simp) hRest
      · next hKeep =>
        rw [if_neg hKeep]
        -- the element is met only here, so erasing it erases this position
        have hFirst : a ∉ front := fun ha => hNodup.2.2 a ha a (List.mem_cons_self) rfl
        have hErase := eraseIdx_here hGet
        have hErase' : (v.get s).erase a = front ++ rest := by
          rw [hGet, List.erase_append_right _ hFirst, List.erase_cons_head]
        rw [hErase, ← hErase'] at hRest
        have hI₂ := h.erase s₁ front.length hI₁
          ⟨a, by rw [hSame]; exact hHere, by simpa using hKeep⟩
        rw [hSame, hErase, ← hErase'] at hI₂
        rw [hSame]
        exact ih hI₂ (by rw [v.get_put, hErase']) hRest

/-- A sweep ends at the first body without an answer, if those before it have
nothing to do. -/
theorem sweep_stuck {front rest : List α} {a : α} {s : σ} (hGet : v.get s = front ++ a :: rest)
    (hIdle : ∀ a' ∈ front, ∀ t, ∃ b, body t a' s = some (s, b))
    (hKeep : ∀ a' ∈ front, keep s a' = true) (hStuck : ∀ t, body t a s = none) (t : ℕ) :
    sweep v body keep t 0 s = .error .body := by
  -- by induction on the elements before it, behind those that are passed
  suffices h : ∀ later earlier t, front = earlier ++ later →
      sweep v body keep t earlier.length s = .error .body from h front [] t rfl
  intro later
  induction later with
  | nil =>
    intro earlier t hFront
    rw [List.append_nil] at hFront
    subst hFront
    have hHere : (v.get s)[front.length]? = some a := by simp [hGet]
    obtain ⟨hLen, hAt⟩ := List.getElem?_eq_some_iff.mp hHere
    unfold sweep
    rw [dif_pos hLen]
    simp only [hAt, hStuck]
  | cons a' later ih =>
    intro earlier t hFront
    have hMem : a' ∈ front := by simp [hFront]
    have hHere : (v.get s)[earlier.length]? = some a' := by simp [hGet, hFront]
    obtain ⟨hLen, hAt⟩ := List.getElem?_eq_some_iff.mp hHere
    obtain ⟨b, hBody⟩ := hIdle a' hMem t
    have hNext := ih (earlier ++ [a']) (t + 1) (by simp [hFront])
    rw [List.length_append, List.length_singleton] at hNext
    unfold sweep
    rw [dif_pos hLen]
    simp only [hAt, hBody, dite_true, hKeep a' hMem, if_true, hNext]
    rfl

-- ---------------------------------------------------------------------------
-- Loops as runs
-- ---------------------------------------------------------------------------

section AsRuns

open Runs (Run)

variable {ε ω : Type*} {step : σ → ε → Option (σ × ω)} {P : β → List (ε × ω) → Prop}

/-- A body of a loop is a run. -/
def BodyRuns (v : Vec σ α) (body : ℕ → α → σ → Option (σ × β)) (step : σ → ε → Option (σ × ω))
    (P : β → List (ε × ω) → Prop) : Prop :=
  ∀ i a s s' b, a ∈ v.get s → body i a s = some (s', b) → ∃ tr, Run step s tr s' ∧ P b tr

omit [DecidableEq α] in
/-- A loop of which the bodies are runs is the run of what they are. -/
theorem visit_run (hBody : BodyRuns v body step P) {i n : ℕ} {s s' : σ} {log : List β}
    (h : visit v ready body i n s = .ok (s', log)) :
    ∃ blocks, List.Forall₂ P log blocks ∧ Run step s blocks.flatten s' := by
  induction n generalizing i s log with
  | zero =>
    obtain ⟨rfl, rfl⟩ := Prod.mk.inj (Except.ok.inj h)
    exact ⟨[], List.Forall₂.nil, Run.nil s⟩
  | succ n ih =>
    unfold visit at h
    split at h
    · split at h
      · exact absurd h (by simp)
      · next a hGet =>
        split at h
        · exact absurd h (by simp)
        · next s₁ b hCall =>
          obtain ⟨⟨s₂, rest⟩, hRest, hEq⟩ := exists_of_map_eq_ok h
          obtain ⟨rfl, rfl⟩ := Prod.mk.inj hEq
          obtain ⟨tr, hRun, hP⟩ := hBody _ _ _ _ _ (List.mem_of_getElem? hGet) hCall
          obtain ⟨blocks, hAll, hRuns⟩ := ih hRest
          exact ⟨tr :: blocks, List.Forall₂.cons hP hAll, hRun.append hRuns⟩
    · exact ih h

/-- What an iteration of a sweep is: its body, and then what becomes of the
element. -/
def Followed (P : β → List (ε × ω) → Prop) (Q : List (ε × ω) → Prop) (b : β)
    (block : List (ε × ω)) : Prop :=
  ∃ tr tr', P b tr ∧ Q tr' ∧ block = tr ++ tr'

theorem sweep_run {Q : List (ε × ω) → Prop} (hBody : BodyRuns v body step P)
    (hLook : ∀ s i a, (v.get s)[i]? = some a → ∃ tr, Q tr ∧
      Run step s tr (if keep s a then s else v.put ((v.get s).eraseIdx i) s))
    {t it : ℕ} {s s' : σ} {log : List β} (h : sweep v body keep t it s = .ok (s', log)) :
    ∃ blocks, List.Forall₂ (Followed P Q) log blocks ∧ Run step s blocks.flatten s' := by
  -- by induction on the number of elements left
  obtain ⟨n, hn⟩ : ∃ n, (v.get s).length - it = n := ⟨_, rfl⟩
  induction n generalizing t it s log with
  | zero =>
    unfold sweep at h
    rw [dif_neg (by omega)] at h
    obtain ⟨rfl, rfl⟩ := Prod.mk.inj (Except.ok.inj h)
    exact ⟨[], List.Forall₂.nil, Run.nil s⟩
  | succ n ih =>
    have hIt : it < (v.get s).length := by omega
    have hMem : (v.get s)[it] ∈ v.get s := List.getElem_mem hIt
    have hGet : (v.get s)[it]? = some (v.get s)[it] := List.getElem?_eq_getElem hIt
    unfold sweep at h
    rw [dif_pos hIt] at h
    generalize (v.get s)[it] = a at h hMem hGet
    split at h
    · exact absurd h (by simp)
    · next s₁ b hCall =>
      split at h
      · next hSame =>
        -- the rest of the loop, from the state the look at the element leaves
        obtain ⟨⟨s₂, rest⟩, hRest, hEq⟩ := exists_of_map_eq_ok h
        obtain ⟨rfl, rfl⟩ := Prod.mk.inj hEq
        obtain ⟨tr, hRun, hP⟩ := hBody _ _ _ _ _ hMem hCall
        rw [← hSame] at hGet hRest
        obtain ⟨tr', hQ, hRun'⟩ := hLook s₁ it a hGet
        split at hRest
        · next hKeep =>
          rw [if_pos hKeep] at hRun'
          obtain ⟨blocks, hAll, hRuns⟩ := ih hRest (by rw [hSame]; omega)
          exact ⟨(tr ++ tr') :: blocks, List.Forall₂.cons ⟨tr, tr', hP, hQ, rfl⟩ hAll,
            (hRun.append hRun').append hRuns⟩
        · next hKeep =>
          rw [if_neg hKeep] at hRun'
          obtain ⟨blocks, hAll, hRuns⟩ := ih hRest (by
            rw [v.get_put, List.length_eraseIdx_of_lt (by rw [hSame]; exact hIt), hSame]
            omega)
          exact ⟨(tr ++ tr') :: blocks, List.Forall₂.cons ⟨tr, tr', hP, hQ, rfl⟩ hAll,
            (hRun.append hRun').append hRuns⟩
      · exact absurd h (by simp)

end AsRuns

end Loops
