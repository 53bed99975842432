import Mathlib.Algebra.BigOperators.Group.List.Basic
import Mathlib.Data.List.Perm.Basic

/-!
# Records that are changed one field at a time

A record has fields; an action changes one of them, from the value it has, and
may fail. Actions on different fields commute. So what a sequence of actions
makes of a record depends on nothing but the sequence for each field: where the
actions on the other fields stand in between is of no effect.

* `Changes.comm`      — actions on different fields commute.
* `perm_of_fieldwise` — sequences that agree field by field are permutations.
* `foldlM_fieldwise`  — sequences that agree field by field do the same.
-/

/-- The fields of a record. -/
structure Fields (σ κ : Type*) where
  Value : κ → Type*
  get : (k : κ) → σ → Value k
  set : (k : κ) → Value k → σ → σ
  get_set_ne : ∀ {k k' : κ} (v : Value k') (s : σ), k ≠ k' → get k (set k' v s) = get k s
  set_comm : ∀ {k k' : κ} (v : Value k) (v' : Value k') (s : σ), k ≠ k' →
    set k v (set k' v' s) = set k' v' (set k v s)

namespace Fields

variable {σ κ α : Type*} {fields : Fields σ κ}

/-- The action changes the field `k` alone, and looks at it alone. -/
def Changes (fields : Fields σ κ) (k : κ) (f : σ → Option σ) : Prop :=
  ∃ u : fields.Value k → Option (fields.Value k),
    ∀ s, f s = (u (fields.get k s)).map fun v => fields.set k v s

/-- **Actions on different fields commute.** -/
theorem Changes.comm {k k' : κ} {f g : σ → Option σ} (hf : fields.Changes k f)
    (hg : fields.Changes k' g) (hNe : k ≠ k') (s : σ) : (f s).bind g = (g s).bind f := by
  obtain ⟨u, hf⟩ := hf
  obtain ⟨u', hg⟩ := hg
  rw [hf s, hg s]
  cases hu : u (fields.get k s) with
  | none =>
    cases hu' : u' (fields.get k' s) with
    | none => rfl
    | some v' => simp [hf, fields.get_set_ne v' s hNe, hu]
  | some v =>
    cases hu' : u' (fields.get k' s) with
    | none => simp [hg, fields.get_set_ne v s hNe.symm, hu']
    | some v' =>
      simp [hf, hg, fields.get_set_ne v' s hNe, fields.get_set_ne v s hNe.symm, hu, hu',
        fields.set_comm v v' s hNe]

-- ---------------------------------------------------------------------------
-- Sequences
-- ---------------------------------------------------------------------------

variable {field : α → Option κ} {act : σ → α → Option σ} {as as' : List α}

/-- Every action changes its field, or nothing. -/
structure Acts (fields : Fields σ κ) (field : α → Option κ) (act : σ → α → Option σ) : Prop where
  changes : ∀ a k, field a = some k → fields.Changes k fun s => act s a
  idle : ∀ a s, field a = none → act s a = some s

/-- An action passes those on other fields. -/
theorem Acts.foldlM_front (h : fields.Acts field act) {a : α} {k : κ} (hField : field a = some k)
    (pre : List α) (hPre : ∀ b ∈ pre, field b ≠ some k) (post : List α) (s : σ) :
    (pre ++ a :: post).foldlM act s = (a :: (pre ++ post)).foldlM act s := by
  induction pre generalizing s with
  | nil => rfl
  | cons b pre ih =>
    have ih' := ih fun b' hb' => hPre b' (List.mem_cons_of_mem b hb')
    have hSwap : (act s b).bind (act · a) = (act s a).bind (act · b) := by
      cases hb : field b with
      | none => simp [h.idle b _ hb]
      | some k' =>
        have hNe : k' ≠ k := fun hEq => hPre b (List.mem_cons_self ..) (hEq ▸ hb)
        exact (h.changes b k' hb).comm (h.changes a k hField) hNe s
    calc (b :: pre ++ a :: post).foldlM act s
        = (act s b).bind fun s' => (a :: (pre ++ post)).foldlM act s' := by
          rw [List.cons_append, List.foldlM_cons]
          exact congrArg _ (funext ih')
      _ = ((act s b).bind (act · a)).bind fun s' => (pre ++ post).foldlM act s' := by
          simp only [List.foldlM_cons, Option.bind_eq_bind, Option.bind_assoc]
      _ = ((act s a).bind (act · b)).bind fun s' => (pre ++ post).foldlM act s' := by rw [hSwap]
      _ = (a :: (b :: pre ++ post)).foldlM act s := by
          simp only [List.cons_append, List.foldlM_cons, Option.bind_eq_bind, Option.bind_assoc]

theorem Acts.foldlM_idle (h : fields.Acts field act) (hNone : ∀ a ∈ as, field a = none) (s : σ) :
    as.foldlM act s = some s := by
  induction as with
  | nil => rfl
  | cons a as ih =>
    rw [List.foldlM_cons, h.idle a s (hNone a (List.mem_cons_self ..))]
    exact ih fun b hb => hNone b (List.mem_cons_of_mem a hb)

variable [DecidableEq κ]

/-- The actions for a field, in order. -/
def only (field : α → Option κ) (k : κ) (as : List α) : List α := as.filter (field · = some k)

/-- Both sequences hold the same actions for each field, in the same order. -/
def Fieldwise (field : α → Option κ) (as as' : List α) : Prop :=
  ∀ k, only field k as = only field k as'

theorem only_cons_self {a : α} {k : κ} (h : field a = some k) :
    only field k (a :: as) = a :: only field k as :=
  List.filter_cons_of_pos (by simp [h])

theorem only_cons_of_ne {a : α} {k : κ} (h : field a ≠ some k) :
    only field k (a :: as) = only field k as :=
  List.filter_cons_of_neg (by simp [h])

theorem only_append (k : κ) : only field k (as ++ as') = only field k as ++ only field k as' :=
  List.filter_append ..

/-- The first action stands in the other sequence too, behind actions on other
fields. -/
theorem Fieldwise.exists_split {a : α} {k : κ} (h : Fieldwise field (a :: as) as')
    (hField : field a = some k) :
    ∃ pre post, as' = pre ++ a :: post ∧ (∀ b ∈ pre, field b ≠ some k) ∧
      Fieldwise field as (pre ++ post) := by
  have hHead := h k
  rw [only_cons_self hField] at hHead
  obtain ⟨pre, post, rfl, hPre, -, hPost⟩ := List.filter_eq_cons_iff.mp hHead.symm
  have hPre' : ∀ b ∈ pre, field b ≠ some k := by simpa using hPre
  refine ⟨pre, post, rfl, hPre', fun k' => ?_⟩
  have hHere := h k'
  rw [only_append] at hHere ⊢
  by_cases hk : field a = some k'
  · rw [only_cons_self hk, only_cons_self hk] at hHere
    obtain rfl : k = k' := Option.some.inj (hField.symm.trans hk)
    have hNone : only field k pre = [] := List.filter_eq_nil_iff.mpr (by simpa using hPre)
    rw [hNone, List.nil_append] at hHere ⊢
    exact List.tail_eq_of_cons_eq hHere
  · rwa [only_cons_of_ne hk, only_cons_of_ne hk] at hHere

/-- A sequence that agrees with the empty one changes nothing. -/
theorem Fieldwise.idle (h : Fieldwise field [] as) : ∀ a ∈ as, field a = none := by
  intro a ha
  by_contra hSome
  obtain ⟨k, hk⟩ := Option.ne_none_iff_exists'.mp hSome
  have hIn : a ∈ only field k as := List.mem_filter.mpr ⟨ha, by simp [hk]⟩
  rw [← h k] at hIn
  exact absurd hIn (by simp [only])

/-- Without the actions that change no field. -/
theorem Fieldwise.of_none {a : α} (h : Fieldwise field (a :: as) as') (hField : field a = none) :
    Fieldwise field as as' := fun k => by
  rw [← h k, only_cons_of_ne (by simp [hField])]

/-- Sequences that agree field by field are permutations of each other, but for
the actions that change no field. -/
theorem perm_of_fieldwise (h : Fieldwise field as as') :
    (as.filter fun a => (field a).isSome).Perm (as'.filter fun a => (field a).isSome) := by
  induction as generalizing as' with
  | nil =>
    have hNone : as'.filter (fun a => (field a).isSome) = [] :=
      List.filter_eq_nil_iff.mpr fun a ha => by simp [h.idle a ha]
    rw [hNone, List.filter_nil]
  | cons a as ih =>
    cases hField : field a with
    | none =>
      rw [List.filter_cons_of_neg (by simp [hField])]
      exact ih (h.of_none hField)
    | some k =>
      obtain ⟨pre, post, rfl, -, hRest⟩ := h.exists_split hField
      have hHere := (ih hRest).cons a
      rw [List.filter_append] at hHere
      rw [List.filter_cons_of_pos (by simp [hField]), List.filter_append,
        List.filter_cons_of_pos (by simp [hField])]
      exact hHere.trans List.perm_middle.symm

/-- **Sequences that agree field by field do the same.** -/
theorem Acts.foldlM_fieldwise (h : fields.Acts field act) (hSame : Fieldwise field as as') (s : σ) :
    as.foldlM act s = as'.foldlM act s := by
  induction as generalizing as' s with
  | nil => exact (h.foldlM_idle hSame.idle s).symm
  | cons a as ih =>
    cases hField : field a with
    | none =>
      rw [List.foldlM_cons, h.idle a s hField]
      exact ih (hSame.of_none hField) s
    | some k =>
      obtain ⟨pre, post, rfl, hPre, hRest⟩ := hSame.exists_split hField
      rw [h.foldlM_front hField pre hPre post, List.foldlM_cons, List.foldlM_cons]
      exact congrArg _ (funext (ih hRest))

end Fields
