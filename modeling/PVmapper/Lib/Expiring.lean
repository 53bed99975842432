import Mathlib.Data.List.AList
import PVmapper.Lib.Runs

/-!
# A cache whose entries expire

A cache answers a request with its entry for the key while that has not
expired. Otherwise a fresh entry is asked for, and kept. What asking would give
comes with every request.

* `answered_from` — every answer was asked for, and is in time.
* `asked_apart`   — a key is asked for again when what it gave has expired.
-/

namespace Expiring

open Runs (Run)

variable {κ η τ : Type*} [DecidableEq κ]

abbrev Cache (κ η : Type*) := AList fun _ : κ => η

/-- A request, and the entry that asking for its key gives at that time. -/
structure Request (κ η τ : Type*) where
  key : κ
  now : τ
  fresh : η

/-- An answer, and whether it had to be asked for. -/
structure Answer (η : Type*) where
  entry : η
  asked : Bool
deriving DecidableEq, Repr

section Step

variable [LinearOrder τ] (expires : η → τ)

/-- The entry that answers the request, if there is one. -/
def valid (cache : Cache κ η) (r : Request κ η τ) : Option η :=
  (cache.lookup r.key).filter fun entry => r.now ≤ expires entry

def step (cache : Cache κ η) (r : Request κ η τ) : Option (Cache κ η × Answer η) :=
  match valid expires cache r with
  | some entry => some (cache, ⟨entry, false⟩)
  | none => some (cache.insert r.key r.fresh, ⟨r.fresh, true⟩)

variable {expires} {cache cache' : Cache κ η} {r : Request κ η τ} {a : Answer η}
  {tr : List (Request κ η τ × Answer η)}

/-- What a request does. -/
theorem step_cases (h : step expires cache r = some (cache', a)) :
    (∃ entry, cache.lookup r.key = some entry ∧ r.now ≤ expires entry ∧ cache' = cache ∧
        a = ⟨entry, false⟩) ∨
      (∀ entry, cache.lookup r.key = some entry → expires entry < r.now) ∧
        cache' = cache.insert r.key r.fresh ∧ a = ⟨r.fresh, true⟩ := by
  unfold step at h
  split at h
  · next entry hValid =>
    obtain ⟨rfl, rfl⟩ := Prod.mk.inj (Option.some.inj h)
    obtain ⟨hLookup, hTime⟩ := Option.filter_eq_some_iff.mp hValid
    exact Or.inl ⟨entry, hLookup, by simpa using hTime, rfl, rfl⟩
  · next hValid =>
    obtain ⟨rfl, rfl⟩ := Prod.mk.inj (Option.some.inj h)
    refine Or.inr ⟨fun entry hLookup => ?_, rfl, rfl⟩
    have hNot := Option.filter_eq_none_iff.mp hValid entry hLookup
    simpa using hNot

/-- The entry is what asking for the key gave once. -/
def Asked (tr : List (Request κ η τ × Answer η)) (key : κ) (entry : η) : Prop :=
  ∃ r, (r, ⟨entry, true⟩) ∈ tr ∧ r.key = key ∧ r.fresh = entry

theorem asked_run (hRun : Run (step expires) (∅ : Cache κ η) tr cache) {key : κ} {entry : η}
    (hLookup : cache.lookup key = some entry) : Asked tr key entry := by
  have hAll := hRun.history
    (I := fun tr cache => ∀ key entry, cache.lookup key = some entry → Asked tr key entry) ?_ ?_
  · exact hAll key entry hLookup
  · rintro pre cache r cache' a hBefore hStep key entry hLookup
    have hOld : ∀ {entry}, cache.lookup key = some entry → Asked (pre ++ [(r, a)]) key entry := by
      intro entry hLookup
      obtain ⟨r', hMem, hKey, hFresh⟩ := hBefore key entry hLookup
      exact ⟨r', List.mem_append_left _ hMem, hKey, hFresh⟩
    rcases step_cases hStep with ⟨-, -, -, rfl, -⟩ | ⟨-, rfl, rfl⟩
    · exact hOld hLookup
    · by_cases hKey : key = r.key
      · subst hKey
        rw [AList.lookup_insert, Option.some.injEq] at hLookup
        subst hLookup
        exact ⟨r, List.mem_append_right _ (List.mem_singleton.mpr rfl), rfl, rfl⟩
      · rw [AList.lookup_insert_ne hKey] at hLookup
        exact hOld hLookup
  · intro key entry hLookup
    rw [AList.lookup_empty] at hLookup
    exact absurd hLookup (by simp)

/-- **Every answer is in time.** It was asked for, for the same key, in this
request or in an earlier one, and then it has not expired. -/
theorem answered_from (hRun : Run (step expires) (∅ : Cache κ η) tr cache)
    (hStep : step expires cache r = some (cache', a)) :
    a = ⟨r.fresh, true⟩ ∨
      a.asked = false ∧ Asked tr r.key a.entry ∧ r.now ≤ expires a.entry := by
  rcases step_cases hStep with ⟨entry, hLookup, hTime, -, rfl⟩ | ⟨-, -, rfl⟩
  · exact Or.inr ⟨rfl, asked_run hRun hLookup, hTime⟩
  · exact Or.inl rfl

end Step

-- ---------------------------------------------------------------------------
-- How often it is asked
-- ---------------------------------------------------------------------------

section Apart

variable [LinearOrder τ] {expires : η → τ} {cache cache' : Cache κ η}
  {tr : List (Request κ η τ × Answer η)} {bound : τ} {key : κ}

/-- There is an entry for the key that is valid until `bound` at least. -/
def Held (expires : η → τ) (cache : Cache κ η) (key : κ) (bound : τ) : Prop :=
  ∃ entry, cache.lookup key = some entry ∧ bound ≤ expires entry

/-- A step keeps such an entry, and asks for the key only after `bound`. -/
theorem held_step {r : Request κ η τ} {a : Answer η} (h : Held expires cache key bound)
    (hFresh : r.now ≤ expires r.fresh) (hStep : step expires cache r = some (cache', a)) :
    Held expires cache' key bound ∧ (r.key = key → a.asked = true → bound < r.now) := by
  obtain ⟨entry, hLookup, hBound⟩ := h
  rcases step_cases hStep with ⟨-, -, -, rfl, rfl⟩ | ⟨hDue, rfl, rfl⟩
  · refine ⟨⟨entry, hLookup, hBound⟩, ?_⟩
    intro _ hAsked
    exact absurd hAsked (by simp)
  · by_cases hKey : r.key = key
    · subst hKey
      have hLate : bound < r.now := hBound.trans_lt (hDue entry hLookup)
      exact ⟨⟨r.fresh, AList.lookup_insert _, hLate.le.trans hFresh⟩, fun _ _ => hLate⟩
    · refine ⟨⟨entry, ?_, hBound⟩, fun hKey' => absurd hKey' hKey⟩
      rw [AList.lookup_insert_ne (Ne.symm hKey)]
      exact hLookup

theorem held_run (hRun : Run (step expires) cache tr cache') (h : Held expires cache key bound)
    (hFresh : ∀ x ∈ tr, x.1.now ≤ expires x.1.fresh) :
    ∀ y ∈ tr, y.1.key = key → y.2.asked = true → bound < y.1.now := by
  induction hRun with
  | nil => exact fun y hy => absurd hy List.not_mem_nil
  | cons hStep _ ih =>
    obtain ⟨h₁, hHere⟩ := held_step h (hFresh _ List.mem_cons_self) hStep
    intro y hy
    rcases List.mem_cons.mp hy with rfl | hy
    · exact hHere
    · exact ih h₁ (fun x hx => hFresh x (List.mem_cons_of_mem _ hx)) y hy

/-- **The times a key is asked for are apart.** It is asked for again only when
what it gave before has expired. -/
theorem asked_apart (hRun : Run (step expires) cache tr cache')
    (hFresh : ∀ x ∈ tr, x.1.now ≤ expires x.1.fresh) :
    tr.Pairwise fun x y => x.1.key = y.1.key → x.2.asked = true → y.2.asked = true →
      expires x.1.fresh < y.1.now := by
  induction hRun with
  | nil => exact List.Pairwise.nil
  | cons hStep hRun ih =>
    have hFresh' := fun x hx => hFresh x (List.mem_cons_of_mem _ hx)
    refine List.Pairwise.cons ?_ (ih hFresh')
    intro y hy hKey hAsked hAsked'
    rcases step_cases hStep with ⟨entry, -, -, -, rfl⟩ | ⟨-, rfl, rfl⟩
    · exact absurd hAsked (by simp)
    · exact held_run hRun ⟨_, AList.lookup_insert _, le_rfl⟩ hFresh' y hy hKey.symm hAsked'

end Apart

end Expiring
