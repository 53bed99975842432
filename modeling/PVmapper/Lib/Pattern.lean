import Mathlib

/-!
# Backtracking patterns

A pattern is tried at the front of a string, and answers with all the ways it
matches there, in the order a backtracking matcher tries them: what the groups
captured, and what is left of the string. Quantifiers are greedy, and beyond
the iterations they ask for take only those that consume something
(ECMA-262, RepeatMatcher). The whole string is matched by the first way that
leaves nothing.

* `fullMatch`      — the match of a whole string.
* `run_denotes`    — what a way consumes is in the language of the pattern
  (`Denotes`), so that a string that is not in it has no match.
* `Leads`          — the first way, with a rule for each kind of pattern: a
  string is matched without backtracking if the first ways leave nothing.
-/

/-- Patterns over an alphabet; `one p` is a character of the class `p`. -/
inductive Pattern (α : Type*)
  | empty
  | one (p : α → Bool)
  | seq (a b : Pattern α)
  | rep (a : Pattern α) (lo : ℕ) (hi : Option ℕ)
  | group (n : ℕ) (a : Pattern α)

namespace Pattern

variable {α : Type*}

/-- What the groups captured, the last capture last. -/
abbrev Captures (α : Type*) := List (ℕ × List α)

/-- A way to match, and what it leaves. -/
abbrev Way (α : Type*) := Captures α × List α

/-- Every way of the one, continued in every way of the other. -/
def andThen (m k : List α → List (Way α)) (s : List α) : List (Way α) :=
  (m s).flatMap fun w => (k w.2).map fun w' => (w.1 ++ w'.1, w'.2)

/-- Exactly so many times. -/
def times (m : List α → List (Way α)) : ℕ → List α → List (Way α)
  | 0, s => [([], s)]
  | n + 1, s => andThen m (times m n) s

/-- As often as it consumes something, at most so many times; more is tried
first. -/
def upTo (m : List α → List (Way α)) : ℕ → List α → List (Way α)
  | 0, s => [([], s)]
  | n + 1, s =>
    andThen (fun s => (m s).filter fun w => w.2.length < s.length) (upTo m n) s ++ [([], s)]

/-- All ways to match at the front of a string. -/
def run : Pattern α → List α → List (Way α)
  | .empty, s => [([], s)]
  | .one _, [] => []
  | .one p, c :: s => if p c then [([], s)] else []
  | .seq a b, s => andThen (run a) (run b) s
  | .rep a lo hi, s =>
    andThen (times (run a) lo) (fun s => upTo (run a) (hi.elim s.length (· - lo)) s) s
  | .group n a, s =>
    (run a s).map fun w => (w.1 ++ [(n, s.take (s.length - w.2.length))], w.2)

/-- The captures of a match of the whole string. -/
def fullMatch (a : Pattern α) (s : List α) : Option (Captures α) :=
  ((run a s).find? fun w => w.2.isEmpty).map Prod.fst

/-- What a group captured last, nothing if it took no part in the match. -/
def captured (n : ℕ) (tokens : Captures α) : List α := (tokens.reverse.lookup n).getD []

/-- A string, literally. -/
def lit [BEq α] (l : List α) : Pattern α := l.foldr (fun c a => .seq (.one (· == c)) a) .empty

-- ---------------------------------------------------------------------------
-- Languages
-- ---------------------------------------------------------------------------

/-- The language of a pattern. -/
def Denotes : Pattern α → List α → Prop
  | .empty, s => s = []
  | .one p, s => ∃ c, p c = true ∧ s = [c]
  | .seq a b, s => ∃ u v, s = u ++ v ∧ Denotes a u ∧ Denotes b v
  | .rep a lo _, s => ∃ us : List (List α), s = us.flatten ∧ lo ≤ us.length ∧ ∀ u ∈ us, Denotes a u
  | .group _ a, s => Denotes a s

/-- The ways of `m` consume strings with a property. -/
def Consumes (m : List α → List (Way α)) (P : List α → Prop) : Prop :=
  ∀ s, ∀ w ∈ m s, ∃ u, s = u ++ w.2 ∧ P u

theorem Consumes.andThen {m k : List α → List (Way α)} {P Q : List α → Prop} (hm : Consumes m P)
    (hk : Consumes k Q) :
    Consumes (andThen m k) fun s => ∃ u v, s = u ++ v ∧ P u ∧ Q v := by
  intro s w hw
  obtain ⟨w₁, hw₁, hw⟩ := List.mem_flatMap.mp hw
  obtain ⟨w₂, hw₂, rfl⟩ := List.mem_map.mp hw
  obtain ⟨u, hu, hP⟩ := hm s w₁ hw₁
  obtain ⟨v, hv, hQ⟩ := hk w₁.2 w₂ hw₂
  exact ⟨u ++ v, by rw [hu, hv, List.append_assoc], u, v, rfl, hP, hQ⟩

theorem Consumes.times {m : List α → List (Way α)} {P : List α → Prop} (hm : Consumes m P) (n : ℕ) :
    Consumes (times m n) fun s =>
      ∃ us : List (List α), s = us.flatten ∧ us.length = n ∧ ∀ u ∈ us, P u := by
  induction n with
  | zero =>
    intro s w hw
    rw [Pattern.times, List.mem_singleton] at hw
    exact ⟨[], by rw [hw]; rfl, [], rfl, rfl, by simp⟩
  | succ n ih =>
    intro s w hw
    obtain ⟨u, hu, u₁, u₂, rfl, hP, us, rfl, rfl, hUs⟩ := hm.andThen ih s w hw
    refine ⟨_, hu, u₁ :: us, rfl, rfl, fun u hMem => ?_⟩
    rcases List.mem_cons.mp hMem with rfl | hMem
    · exact hP
    · exact hUs u hMem

theorem Consumes.upTo {m : List α → List (Way α)} {P : List α → Prop} (hm : Consumes m P) (n : ℕ) :
    Consumes (upTo m n) fun s => ∃ us : List (List α), s = us.flatten ∧ ∀ u ∈ us, P u := by
  have hNothing : ∀ s : List α, ∃ u, s = u ++ s ∧
      ∃ us : List (List α), u = us.flatten ∧ ∀ u ∈ us, P u :=
    fun s => ⟨[], rfl, [], rfl, by simp⟩
  induction n with
  | zero =>
    intro s w hw
    rw [Pattern.upTo, List.mem_singleton] at hw
    subst hw
    exact hNothing s
  | succ n ih =>
    intro s w hw
    rcases List.mem_append.mp hw with hw | hw
    · have hFilter : Consumes (fun s => (m s).filter fun w => w.2.length < s.length) P :=
        fun s w hw => hm s w (List.mem_of_mem_filter hw)
      obtain ⟨u, hu, u₁, u₂, rfl, hP, us, rfl, hUs⟩ := hFilter.andThen ih s w hw
      refine ⟨_, hu, u₁ :: us, rfl, fun u hMem => ?_⟩
      rcases List.mem_cons.mp hMem with rfl | hMem
      · exact hP
      · exact hUs u hMem
    · rw [List.mem_singleton] at hw
      subst hw
      exact hNothing s

/-- **Soundness.** What a way consumes is in the language. -/
theorem run_denotes (a : Pattern α) : Consumes (run a) (Denotes a) := by
  induction a with
  | empty =>
    intro s w hw
    rw [run, List.mem_singleton] at hw
    exact ⟨[], by rw [hw]; rfl, rfl⟩
  | one p =>
    intro s w hw
    cases s with
    | nil => exact absurd hw List.not_mem_nil
    | cons c s =>
      rw [run] at hw
      split at hw
      · next hp =>
        rw [List.mem_singleton] at hw
        exact ⟨[c], by rw [hw]; rfl, c, hp, rfl⟩
      · exact absurd hw List.not_mem_nil
  | seq a b iha ihb => exact iha.andThen ihb
  | rep a lo hi ih =>
    have hMore : Consumes (fun s => upTo (run a) (hi.elim s.length (· - lo)) s)
        fun s => ∃ us : List (List α), s = us.flatten ∧ ∀ u ∈ us, Denotes a u :=
      fun s => Consumes.upTo ih _ s
    intro s w hw
    obtain ⟨u, hu, u₁, u₂, rfl, ⟨us, rfl, hLen, hUs⟩, us', rfl, hUs'⟩ :=
      (Consumes.times ih lo).andThen hMore s w hw
    refine ⟨_, hu, us ++ us', by simp, by simp [hLen], fun u hMem => ?_⟩
    rcases List.mem_append.mp hMem with hMem | hMem
    · exact hUs u hMem
    · exact hUs' u hMem
  | group n a ih =>
    intro s w hw
    obtain ⟨w', hw', rfl⟩ := List.mem_map.mp hw
    exact ih s w' hw'

/-- What is not in the language is not matched. -/
theorem fullMatch_eq_none {a : Pattern α} {s : List α} (h : ¬ Denotes a s) :
    fullMatch a s = none := by
  rw [fullMatch, Option.map_eq_none_iff, List.find?_eq_none]
  intro w hw hEmpty
  obtain ⟨u, hu, hDenotes⟩ := run_denotes a s w hw
  rw [List.isEmpty_iff] at hEmpty
  rw [hEmpty, List.append_nil] at hu
  exact h (hu ▸ hDenotes)

theorem denotes_lit [BEq α] [LawfulBEq α] {l s : List α} (h : Denotes (lit l) s) : s = l := by
  induction l generalizing s with
  | nil => exact h
  | cons c l ih =>
    obtain ⟨u, v, rfl, ⟨c', hc', rfl⟩, hv⟩ := h
    rw [ih hv, eq_of_beq hc']
    rfl

/-- All characters a pattern can match have a property. -/
def Over (P : α → Prop) : Pattern α → Prop
  | .empty => True
  | .one p => ∀ c, p c = true → P c
  | .seq a b => Over P a ∧ Over P b
  | .rep a _ _ => Over P a
  | .group _ a => Over P a

theorem Over.of_denotes {P : α → Prop} {a : Pattern α} (hOver : Over P a) {s : List α}
    (h : Denotes a s) : ∀ c ∈ s, P c := by
  induction a generalizing s with
  | empty =>
    obtain rfl : s = [] := h
    simp
  | one p =>
    obtain ⟨c, hp, rfl⟩ := h
    simpa using hOver c hp
  | seq a b iha ihb =>
    obtain ⟨u, v, rfl, hu, hv⟩ := h
    intro c hc
    rcases List.mem_append.mp hc with hc | hc
    · exact iha hOver.1 hu c hc
    · exact ihb hOver.2 hv c hc
  | rep a lo hi ih =>
    obtain ⟨us, rfl, -, hUs⟩ := h
    intro c hc
    obtain ⟨u, hu, hc⟩ := List.mem_flatten.mp hc
    exact ih hOver (hUs u hu) c hc
  | group n a ih => exact ih hOver h

/-- The length of the shortest strings a pattern may match. -/
def minLength : Pattern α → ℕ
  | .empty => 0
  | .one _ => 1
  | .seq a b => minLength a + minLength b
  | .rep a lo _ => lo * minLength a
  | .group _ a => minLength a

theorem minLength_le {a : Pattern α} {s : List α} (h : Denotes a s) : minLength a ≤ s.length := by
  induction a generalizing s with
  | empty => exact Nat.zero_le _
  | one p =>
    obtain ⟨c, -, rfl⟩ := h
    exact le_rfl
  | seq a b iha ihb =>
    obtain ⟨u, v, rfl, hu, hv⟩ := h
    rw [List.length_append]
    exact Nat.add_le_add (iha hu) (ihb hv)
  | rep a lo hi ih =>
    obtain ⟨us, rfl, hLen, hUs⟩ := h
    have hSum : us.length * minLength a ≤ us.flatten.length := by
      clear hLen
      induction us with
      | nil => simp
      | cons u us ihUs =>
        have hHead := ih (hUs u (List.mem_cons_self ..))
        have hTail := ihUs fun u hu => hUs u (List.mem_cons_of_mem _ hu)
        rw [List.length_cons, List.flatten_cons, List.length_append, Nat.succ_mul]
        omega
    exact (Nat.mul_le_mul_right _ hLen).trans hSum
  | group n a ih => exact ih h

-- ---------------------------------------------------------------------------
-- First ways
-- ---------------------------------------------------------------------------

/-- The first way. -/
def Leads (m : List α → List (Way α)) (s : List α) (captures : Captures α) (rest : List α) : Prop :=
  (m s).head? = some (captures, rest)

variable {m k : List α → List (Way α)} {s rest rest' : List α} {captures captures' : Captures α}

theorem Leads.exists_cons (h : Leads m s captures rest) :
    ∃ tail, m s = (captures, rest) :: tail := by
  unfold Leads at h
  cases hm : m s with
  | nil => simp [hm] at h
  | cons w tail =>
    rw [hm, List.head?_cons, Option.some.injEq] at h
    exact ⟨tail, by rw [h]⟩

/-- Without backtracking, the first way that leaves nothing is the match. -/
theorem fullMatch_of_leads {a : Pattern α} (h : Leads (run a) s captures []) :
    fullMatch a s = some captures := by
  obtain ⟨tail, hRun⟩ := h.exists_cons
  rw [fullMatch, hRun]
  rfl

theorem Leads.andThen (hm : Leads m s captures rest) (hk : Leads k rest captures' rest') :
    Leads (andThen m k) s (captures ++ captures') rest' := by
  obtain ⟨tail, hm⟩ := hm.exists_cons
  obtain ⟨tail', hk⟩ := hk.exists_cons
  unfold Leads Pattern.andThen
  rw [hm, List.flatMap_cons, hk]
  rfl

theorem leads_empty (s : List α) : Leads (run .empty) s [] s := rfl

theorem leads_one {p : α → Bool} {c : α} (hp : p c = true) (s : List α) :
    Leads (run (.one p)) (c :: s) [] s := by
  unfold Leads
  rw [run, if_pos hp]
  rfl

theorem leads_seq {a b : Pattern α} (ha : Leads (run a) s captures rest)
    (hb : Leads (run b) rest captures' rest') :
    Leads (run (.seq a b)) s (captures ++ captures') rest' := ha.andThen hb

theorem leads_group {a : Pattern α} {u : List α} (n : ℕ)
    (h : Leads (run a) (u ++ rest) captures rest) :
    Leads (run (.group n a)) (u ++ rest) (captures ++ [(n, u)]) rest := by
  obtain ⟨tail, hRun⟩ := h.exists_cons
  unfold Leads
  rw [run, hRun, List.map_cons, List.head?_cons, List.length_append, Nat.add_sub_cancel,
    List.take_left' rfl]

theorem leads_lit [BEq α] [LawfulBEq α] (l rest : List α) :
    Leads (run (lit l)) (l ++ rest) [] rest := by
  induction l with
  | nil => exact leads_empty rest
  | cons c l ih => exact leads_seq (leads_one (by simp) (l ++ rest)) ih

/-- The iterations of a class that are required. -/
theorem leads_times_one {p : α → Bool} {u : List α} (hAll : ∀ c ∈ u, p c = true) (rest : List α) :
    Leads (times (run (.one p)) u.length) (u ++ rest) [] rest := by
  induction u with
  | nil => rfl
  | cons c u ih =>
    have hTail := ih fun c hc => hAll c (List.mem_cons_of_mem _ hc)
    exact (leads_one (hAll c (List.mem_cons_self ..)) (u ++ rest)).andThen hTail

/-- The iterations of a class beyond the required ones: it goes on as long as it
matches, or as often as allowed. -/
theorem leads_upTo_one {p : α → Bool} {n : ℕ} {u : List α} (hAll : ∀ c ∈ u, p c = true)
    (hLen : u.length ≤ n) (hEnd : n = u.length ∨ ∀ c cs, rest = c :: cs → p c = false) :
    Leads (upTo (run (.one p)) n) (u ++ rest) [] rest := by
  induction n generalizing u with
  | zero =>
    rw [List.length_eq_zero_iff.mp (Nat.le_zero.mp hLen)]
    rfl
  | succ n ih =>
    unfold Leads upTo Pattern.andThen
    cases u with
    | nil =>
      have hNone : run (.one p) rest = [] := by
        rcases hEnd with hEnd | hEnd
        · simp at hEnd
        · cases rest with
          | nil => rfl
          | cons c cs =>
            rw [run, if_neg]
            rw [hEnd c cs rfl]
            decide
      dsimp only
      rw [List.nil_append, hNone]
      rfl
    | cons c u =>
      have hHere : run (.one p) (c :: u ++ rest) = [([], u ++ rest)] := by
        rw [List.cons_append, run, if_pos (hAll c (List.mem_cons_self ..))]
      obtain ⟨tail, hRest⟩ := (ih (fun c hc => hAll c (List.mem_cons_of_mem _ hc))
        (by simpa using hLen) (hEnd.imp_left fun hEq => by simpa using hEq)).exists_cons
      dsimp only
      rw [hHere, List.filter_cons_of_pos (by simp), List.filter_nil, List.flatMap_cons, hRest]
      rfl

/-- A class is repeated as long as it matches, or as often as allowed. -/
theorem leads_many {p : α → Bool} {lo : ℕ} {hi : Option ℕ} {u : List α} (hAll : ∀ c ∈ u, p c = true)
    (hLo : lo ≤ u.length) (hHi : ∀ n, hi = some n → u.length ≤ n)
    (hEnd : hi = some u.length ∨ ∀ c cs, rest = c :: cs → p c = false) :
    Leads (run (.rep (.one p) lo hi)) (u ++ rest) [] rest := by
  have hSplit : u ++ rest = u.take lo ++ (u.drop lo ++ rest) := by
    rw [← List.append_assoc, List.take_append_drop]
  have hTake : ∀ c ∈ u.take lo, p c = true := fun c hc => hAll c (List.mem_of_mem_take hc)
  have hRequired := leads_times_one hTake (u.drop lo ++ rest)
  rw [List.length_take_of_le hLo] at hRequired
  rw [hSplit]
  refine hRequired.andThen (leads_upTo_one (fun c hc => hAll c (List.mem_of_mem_drop hc)) ?_ ?_)
  · cases hi with
    | none => simp
    | some n =>
      have := hHi n rfl
      simp only [List.length_drop, Option.elim_some]
      omega
  · refine hEnd.imp_left fun hEq => ?_
    rw [hEq, List.length_drop]
    rfl

/-- Exactly one more. -/
theorem leads_times_succ {n : ℕ} (hm : Leads m s captures rest)
    (hTimes : Leads (times m n) rest captures' rest') :
    Leads (times m (n + 1)) s (captures ++ captures') rest' := hm.andThen hTimes

theorem leads_times_zero (m : List α → List (Way α)) (s : List α) : Leads (times m 0) s [] s := rfl

/-- A fixed number of times. -/
theorem leads_exactly {a : Pattern α} {n : ℕ} (h : Leads (times (run a) n) s captures rest) :
    Leads (run (.rep a n (some n))) s captures rest := by
  have hNone : Leads (fun s => upTo (run a) ((some n).elim s.length (· - n)) s) rest [] rest := by
    unfold Leads
    simp [upTo]
  have hAll := h.andThen hNone
  rw [List.append_nil] at hAll
  exact hAll

/-- An optional part that is there. -/
theorem leads_optional {a : Pattern α} (h : Leads (run a) s captures rest)
    (hConsumes : rest.length < s.length) : Leads (run (.rep a 0 (some 1))) s captures rest := by
  obtain ⟨tail, hRun⟩ := h.exists_cons
  unfold Leads
  simp [run, times, upTo, Pattern.andThen, hRun, hConsumes]

/-- An optional part that is not there. -/
theorem leads_absent {a : Pattern α} (h : run a s = []) :
    Leads (run (.rep a 0 (some 1))) s [] s := by
  unfold Leads
  simp [run, times, upTo, Pattern.andThen, h]

end Pattern
