import Mathlib

/-!
# Slots: a list of lists as a multiset of placed elements

A structure that keeps its elements in numbered slots (hash buckets, the bins
of a calendar queue, per-priority run queues) is a `List (List α)`. What most
invariants look at is only *which element is in which slot*: the `content`,
a multiset of pairs `(slot index, element)`.

* `content_push` / `content_pushBack` — adding an element to a slot.
* `content_clear`                     — emptying a slot.
* `content_erase`                     — erasing the first match within a slot.
* `eraseFirst`, `updateFirst`         — scans over all slots that stop at the
  first match, and what they do when the match is unique
  (`content_eraseFirst_of_unique`, `content_updateFirst_of_unique`,
  `updateFirst_eq_map`).
-/

namespace Slots

variable {α : Type*}

/-- The elements of `slots` with their slot index, counted from `k`. -/
def contentFrom : ℕ → List (List α) → Multiset (ℕ × α)
  | _, [] => 0
  | k, slot :: slots => (slot.map (Prod.mk k) : Multiset (ℕ × α)) + contentFrom (k + 1) slots

/-- The elements of `slots`, each with the index of the slot it is in. -/
def content (slots : List (List α)) : Multiset (ℕ × α) :=
  contentFrom 0 slots

/-! ## Membership -/

theorem mem_contentFrom {slots : List (List α)} {k i : ℕ} {x : α} :
    (i, x) ∈ contentFrom k slots ↔
      ∃ j slot, slots[j]? = some slot ∧ i = k + j ∧ x ∈ slot := by
  induction slots generalizing k with
  | nil => simp [contentFrom]
  | cons head slots ih =>
    simp only [contentFrom, Multiset.mem_add, Multiset.mem_coe, List.mem_map, Prod.mk.injEq, ih]
    constructor
    -- in the first slot, or in a later one, whose index is one less in the tail
    · rintro (⟨y, hy, rfl, rfl⟩ | ⟨j, slot, hj, rfl, hx⟩)
      · exact ⟨0, head, by simp, by simp, hy⟩
      · exact ⟨j + 1, slot, by simpa using hj, by omega, hx⟩
    · rintro ⟨j, slot, hj, rfl, hx⟩
      cases j with
      | zero =>
        simp only [List.getElem?_cons_zero, Option.some.injEq] at hj
        exact Or.inl ⟨x, hj ▸ hx, by simp, rfl⟩
      | succ j => exact Or.inr ⟨j, slot, by simpa using hj, by omega, hx⟩

/-- What is in the slots, slot by slot. -/
theorem mem_content {slots : List (List α)} {i : ℕ} {x : α} :
    (i, x) ∈ content slots ↔ ∃ slot, slots[i]? = some slot ∧ x ∈ slot := by
  rw [content, mem_contentFrom]
  constructor
  · intro hMem
    obtain ⟨j, slot, hj, hi, hx⟩ := hMem
    rw [Nat.zero_add] at hi
    exact ⟨slot, hi ▸ hj, hx⟩
  · intro hMem
    obtain ⟨slot, hi, hx⟩ := hMem
    exact ⟨i, slot, hi, by simp, hx⟩

theorem lt_length_of_mem_content {slots : List (List α)} {p : ℕ × α} (h : p ∈ content slots) :
    p.1 < slots.length := by
  obtain ⟨slot, hSlot, -⟩ := mem_content.mp h
  exact (List.getElem?_eq_some_iff.mp hSlot).1

/-- Without the positions, the content is what the slots hold. -/
theorem contentFrom_map_snd (slots : List (List α)) (k : ℕ) :
    (contentFrom k slots).map Prod.snd = (slots.flatten : Multiset α) := by
  induction slots generalizing k with
  | nil => simp [contentFrom]
  | cons slot slots ih =>
    rw [contentFrom, Multiset.map_add, ih, Multiset.map_coe, List.map_map, List.flatten_cons,
      ← Multiset.coe_add]
    congr 2
    simp

/-- Forgetting the slots leaves the concatenation of the slots. -/
theorem content_map_snd (slots : List (List α)) :
    (content slots).map Prod.snd = (slots.flatten : Multiset α) :=
  contentFrom_map_snd slots 0

@[simp] theorem contentFrom_replicate_nil (n k : ℕ) :
    contentFrom k (List.replicate n ([] : List α)) = 0 := by
  induction n generalizing k with
  | zero => rfl
  | succ n ih => simp [List.replicate_succ, contentFrom, ih]

@[simp] theorem content_replicate_nil (n : ℕ) :
    content (List.replicate n ([] : List α)) = 0 :=
  contentFrom_replicate_nil n 0

/-! ## Changing one slot -/

/-- Changing slot `i` exchanges its old elements for its new ones. -/
theorem contentFrom_modify {slots : List (List α)} {i k : ℕ} {slot : List α} (f : List α → List α)
    (h : slots[i]? = some slot) :
    contentFrom k (slots.modify i f) + (slot.map (Prod.mk (k + i)) : Multiset (ℕ × α)) =
      contentFrom k slots + ((f slot).map (Prod.mk (k + i)) : Multiset (ℕ × α)) := by
  induction slots generalizing i k with
  | nil => simp at h
  | cons head slots ih =>
    cases i with
    | zero =>
      simp only [List.getElem?_cons_zero, Option.some.injEq] at h
      subst h
      rw [List.modify_zero_cons, contentFrom, contentFrom, Nat.add_zero]
      ac_rfl
    | succ i =>
      have hRest := ih (k := k + 1) (i := i) (by simpa using h)
      -- the first slot is on both sides; the induction is on the slots behind it
      rw [List.modify_succ_cons, contentFrom, contentFrom,
        show k + (i + 1) = k + 1 + i by omega, add_assoc, hRest, ← add_assoc]

/-- Modifying a slot exchanges its part of the content. -/
theorem content_modify {slots : List (List α)} {i : ℕ} {slot : List α} (f : List α → List α)
    (h : slots[i]? = some slot) :
    content (slots.modify i f) + (slot.map (Prod.mk i) : Multiset (ℕ × α)) =
      content slots + ((f slot).map (Prod.mk i) : Multiset (ℕ × α)) := by
  have := contentFrom_modify (k := 0) f h
  rwa [Nat.zero_add] at this

/-- Changing slot `i` so that it gains `x` adds `x` to the content. -/
theorem content_modify_gain {slots : List (List α)} {i : ℕ} {x : α} (f : List α → List α)
    (hf : ∀ slot, (f slot).Perm (x :: slot)) (hi : i < slots.length) :
    content (slots.modify i f) = (i, x) ::ₘ content slots := by
  have h := content_modify f (List.getElem?_eq_getElem hi)
  have hPerm : ((f slots[i]).map (Prod.mk i) : Multiset (ℕ × α)) =
      (i, x) ::ₘ ((slots[i]).map (Prod.mk i) : Multiset (ℕ × α)) := by
    rw [Multiset.cons_coe, Multiset.coe_eq_coe]
    exact (hf slots[i]).map _
  -- cancel what slot `i` held before
  rw [hPerm, Multiset.add_cons] at h
  rw [← Multiset.cons_add] at h
  exact add_right_cancel h

/-- A push adds one element to the content, at its slot. -/
theorem content_push {slots : List (List α)} {i : ℕ} (x : α) (hi : i < slots.length) :
    content (slots.modify i (x :: ·)) = (i, x) ::ₘ content slots :=
  content_modify_gain _ (fun _ => List.Perm.refl _) hi

theorem content_pushBack {slots : List (List α)} {i : ℕ} (x : α) (hi : i < slots.length) :
    content (slots.modify i (· ++ [x])) = (i, x) ::ₘ content slots :=
  content_modify_gain _ (fun slot => List.perm_append_singleton x slot) hi

/-- Emptying slot `i` removes exactly its elements. -/
theorem content_clear {slots : List (List α)} {i : ℕ} {slot : List α} (h : slots[i]? = some slot) :
    content slots = content (slots.set i []) + (slot.map (Prod.mk i) : Multiset (ℕ × α)) := by
  have hMod := content_modify (fun _ => []) h
  rw [← List.set_eq_modify] at hMod
  simpa using hMod.symm

/-- The elements of one slot are part of the content. -/
theorem map_le_content {slots : List (List α)} {i : ℕ} {slot : List α} (h : slots[i]? = some slot) :
    (slot.map (Prod.mk i) : Multiset (ℕ × α)) ≤ content slots := by
  rw [content_clear h]
  exact Multiset.le_add_left _ _

/-- Erasing the first match, when it is unique, filters it out. -/
theorem eraseP_eq_filter {p : α → Bool} {l : List α} (h : l.countP p ≤ 1) :
    l.eraseP p = l.filter (fun x => !p x) := by
  induction l with
  | nil => rfl
  | cons x xs ih =>
    rw [List.countP_cons] at h
    by_cases hx : p x = true
    · rw [if_pos hx] at h
      -- the first match is the only one, so the tail is kept as it is
      have hNone : xs.countP p = 0 := by omega
      rw [List.eraseP_cons_of_pos hx, List.filter_cons_of_neg (by simp [hx])]
      symm
      rw [List.filter_eq_self]
      intro y hy
      simpa using List.countP_eq_zero.mp hNone y hy
    · rw [if_neg hx] at h
      rw [List.eraseP_cons_of_neg hx, List.filter_cons_of_pos (by simpa using hx), ih h]

/-- Erasing the first match of slot `i` removes one matching element. -/
theorem content_erase {slots : List (List α)} {i : ℕ} {slot : List α} {p : α → Bool} {x : α}
    (h : slots[i]? = some slot) (hFind : slot.find? p = some x) :
    content slots = (i, x) ::ₘ content (slots.modify i (List.eraseP p)) := by
  have hMod := content_modify (List.eraseP p) h
  obtain ⟨hpx, l₁, l₂, rfl, hBefore⟩ := List.find?_eq_some_iff_append.mp hFind
  -- `find?` and `eraseP` stop at the same element
  have hErase : (l₁ ++ x :: l₂).eraseP p = l₁ ++ l₂ := by
    rw [List.eraseP_append_right _ (fun b hb => by simpa using hBefore b hb),
      List.eraseP_cons_of_pos hpx]
  have hPerm : ((l₁ ++ x :: l₂).map (Prod.mk i) : Multiset (ℕ × α)) =
      (i, x) ::ₘ ((l₁ ++ l₂).map (Prod.mk i) : Multiset (ℕ × α)) := by
    rw [Multiset.cons_coe, Multiset.coe_eq_coe]
    exact (List.perm_middle).map (Prod.mk i)
  rw [hErase, hPerm, Multiset.add_cons, ← Multiset.cons_add] at hMod
  exact (add_right_cancel hMod).symm

/-! ## Scans that stop at the first match -/

/-- Erases the first element, in slot order, that satisfies `p`. -/
def eraseFirst (p : α → Bool) : List (List α) → List (List α)
  | [] => []
  | slot :: slots => if slot.any p then slot.eraseP p :: slots else slot :: eraseFirst p slots

/-- Applies `f` to the first element of a list that satisfies `p`; `none` if
no element does. -/
def updateIn (p : α → Bool) (f : α → α) : List α → Option (List α)
  | [] => none
  | x :: xs => if p x then some (f x :: xs) else (updateIn p f xs).map (x :: ·)

/-- Applies `f` to the first element, in slot order, that satisfies `p`;
`none` if no element does. -/
def updateFirst (p : α → Bool) (f : α → α) : List (List α) → Option (List (List α))
  | [] => none
  | slot :: slots =>
    match updateIn p f slot with
    | some slot' => some (slot' :: slots)
    | none => (updateFirst p f slots).map (slot :: ·)

@[simp] theorem length_eraseFirst (p : α → Bool) (slots : List (List α)) :
    (eraseFirst p slots).length = slots.length := by
  induction slots with
  | nil => rfl
  | cons slot slots ih =>
    rw [eraseFirst]
    split <;> simp [ih]

theorem length_updateFirst {p : α → Bool} {f : α → α} {slots slots' : List (List α)}
    (h : updateFirst p f slots = some slots') : slots'.length = slots.length := by
  induction slots generalizing slots' with
  | nil => simp [updateFirst] at h
  | cons slot slots ih =>
    rw [updateFirst] at h
    split at h
    · simp only [Option.some.injEq] at h
      simp [← h]
    · obtain ⟨rest, hRest, rfl⟩ := Option.map_eq_some_iff.mp h
      simp [ih hRest]

theorem updateIn_eq_none {p : α → Bool} {f : α → α} {l : List α} :
    updateIn p f l = none ↔ ∀ x ∈ l, p x = false := by
  induction l with
  | nil => simp [updateIn]
  | cons x xs ih =>
    rw [updateIn]
    split
    · next hp => simp [hp]
    · next hp => simpa [hp] using ih

/-- What an update within a list exchanges. -/
theorem updateIn_eq_some {p : α → Bool} {f : α → α} {l l' : List α}
    (h : updateIn p f l = some l') :
    ∃ l₁ x l₂, l = l₁ ++ x :: l₂ ∧ l' = l₁ ++ f x :: l₂ ∧ p x = true := by
  induction l generalizing l' with
  | nil => simp [updateIn] at h
  | cons y ys ih =>
    rw [updateIn] at h
    split at h
    · next hp =>
      rw [Option.some.injEq] at h
      exact ⟨[], y, ys, rfl, h.symm, hp⟩
    · obtain ⟨ys', hYs, rfl⟩ := Option.map_eq_some_iff.mp h
      obtain ⟨l₁, x, l₂, rfl, rfl, hx⟩ := ih hYs
      exact ⟨y :: l₁, x, l₂, rfl, rfl, hx⟩

/-- Nothing is updated if nothing satisfies the test. -/
theorem updateFirst_eq_none {p : α → Bool} {f : α → α} {slots : List (List α)} :
    updateFirst p f slots = none ↔ ∀ slot ∈ slots, ∀ x ∈ slot, p x = false := by
  induction slots with
  | nil => simp [updateFirst]
  | cons slot slots ih =>
    rw [updateFirst]
    cases hIn : updateIn p f slot with
    | none =>
      have hSlot := updateIn_eq_none.mp hIn
      simpa [ih] using fun _ => hSlot
    | some slot' =>
      obtain ⟨l₁, x, l₂, rfl, -, hx⟩ := updateIn_eq_some hIn
      simp only [reduceCtorEq, List.mem_cons, forall_eq_or_imp, false_iff, not_and]
      intro hNone
      exact absurd (hNone x (by simp)) (by simp [hx])

/-- What an update at the first match exchanges. -/
theorem contentFrom_updateFirst {p : α → Bool} {f : α → α} {slots slots' : List (List α)} {k : ℕ}
    (h : updateFirst p f slots = some slots') :
    ∃ i x m, p x = true ∧ contentFrom k slots = (i, x) ::ₘ m ∧
      contentFrom k slots' = (i, f x) ::ₘ m := by
  induction slots generalizing slots' k with
  | nil => simp [updateFirst] at h
  | cons slot slots ih =>
    rw [updateFirst] at h
    split at h
    · next slot' hIn =>
      obtain ⟨l₁, x, l₂, rfl, rfl, hx⟩ := updateIn_eq_some hIn
      rw [Option.some.injEq] at h
      subst h
      refine ⟨k, x, ((l₁ ++ l₂).map (Prod.mk k) : Multiset (ℕ × α)) + contentFrom (k + 1) slots,
        hx, ?_, ?_⟩
      · rw [contentFrom, ← Multiset.cons_add, Multiset.cons_coe]
        congr 1
        exact Multiset.coe_eq_coe.mpr (List.perm_middle.map (Prod.mk k))
      · rw [contentFrom, ← Multiset.cons_add, Multiset.cons_coe]
        congr 1
        exact Multiset.coe_eq_coe.mpr (List.perm_middle.map (Prod.mk k))
    · obtain ⟨rest, hRest, rfl⟩ := Option.map_eq_some_iff.mp h
      obtain ⟨i, x, m, hx, hOld, hNew⟩ := ih (k := k + 1) hRest
      refine ⟨i, x, (slot.map (Prod.mk k) : Multiset (ℕ × α)) + m, hx, ?_, ?_⟩
      · rw [contentFrom, hOld, Multiset.add_cons]
      · rw [contentFrom, hNew, Multiset.add_cons]

/-- Erasing drops one element that satisfies the test, unless there is none. -/
theorem contentFrom_eraseFirst {p : α → Bool} {slots : List (List α)} {k : ℕ} :
    (eraseFirst p slots = slots ∧ ∀ slot ∈ slots, ∀ x ∈ slot, p x = false) ∨
      ∃ i x, p x = true ∧ contentFrom k slots = (i, x) ::ₘ contentFrom k (eraseFirst p slots) := by
  induction slots generalizing k with
  | nil => exact Or.inl ⟨rfl, by simp⟩
  | cons slot slots ih =>
    rw [eraseFirst]
    split
    · next hAny =>
      obtain ⟨y, hy, hpy⟩ := List.any_eq_true.mp hAny
      obtain ⟨x, l₁, l₂, -, hx, rfl, hErase⟩ := List.exists_of_eraseP hy hpy
      refine Or.inr ⟨k, x, hx, ?_⟩
      rw [contentFrom, contentFrom, hErase, ← Multiset.cons_add, Multiset.cons_coe]
      congr 1
      exact Multiset.coe_eq_coe.mpr (List.perm_middle.map (Prod.mk k))
    · next hAny =>
      rcases ih (k := k + 1) with ⟨hEq, hNone⟩ | ⟨i, x, hx, hOld⟩
      · refine Or.inl ⟨by rw [hEq], ?_⟩
        intro s hs x hx
        rcases List.mem_cons.mp hs with rfl | hs
        · simpa using fun hp => hAny (List.any_eq_true.mpr ⟨x, hx, hp⟩)
        · exact hNone s hs x hx
      · refine Or.inr ⟨i, x, hx, ?_⟩
        rw [contentFrom, contentFrom, hOld, Multiset.add_cons]

/-! ## Unique matches -/

/-- Removing the only match leaves the elements that do not match. -/
theorem eq_filter_not_of_cons {β : Type*} {m m' : Multiset β} {a : β} {p : β → Prop}
    [DecidablePred p] (h : m = a ::ₘ m') (ha : p a) (hUnique : (m.filter p).card ≤ 1) :
    m' = m.filter (fun b => ¬ p b) := by
  subst h
  rw [Multiset.filter_cons_of_pos _ ha, Multiset.card_cons] at hUnique
  have hNone : m'.filter p = 0 := Multiset.card_eq_zero.mp (by omega)
  rw [Multiset.filter_cons_of_neg _ (by simpa using ha)]
  symm
  rw [Multiset.filter_eq_self]
  intro b hb hpb
  have : b ∈ m'.filter p := Multiset.mem_filter.mpr ⟨hb, hpb⟩
  rw [hNone] at this
  exact absurd this (Multiset.notMem_zero b)

/-- Elements with distinct keys match a given key at most once. -/
theorem card_filter_key_le_one {β κ : Type*} [DecidableEq κ] {m : Multiset β} {key : β → κ}
    (hNodup : (m.map key).Nodup) (k : κ) : (m.filter (fun b => key b = k)).card ≤ 1 := by
  have h := Multiset.nodup_iff_count_le_one.mp hNodup k
  rw [Multiset.count_map] at h
  simpa only [eq_comm] using h

/-- Erasing the first match, when it is unique, keeps the elements that do
not match. -/
theorem content_eraseFirst_of_unique {p : α → Bool} {slots : List (List α)}
    (hUnique : ((content slots).filter (fun q => p q.2 = true)).card ≤ 1) :
    content (eraseFirst p slots) = (content slots).filter (fun q => ¬ p q.2 = true) := by
  -- without a match the scan changes nothing, and neither does the filter
  rcases @contentFrom_eraseFirst α p slots 0 with ⟨hEq, hNone⟩ | ⟨i, x, hx, h⟩
  · rw [hEq]
    symm
    rw [Multiset.filter_eq_self]
    rintro ⟨i, x⟩ hMem hp
    obtain ⟨slot, hSlot, hxs⟩ := mem_content.mp hMem
    exact absurd (hNone slot (List.mem_of_getElem? hSlot) x hxs) (by simpa using hp)
  · exact eq_filter_not_of_cons h hx hUnique

/-- Updating the first match, when it is unique, updates every match. -/
theorem content_updateFirst_of_unique {p : α → Bool} {f : α → α} {slots slots' : List (List α)}
    (h : updateFirst p f slots = some slots')
    (hUnique : ((content slots).filter (fun q => p q.2 = true)).card ≤ 1) :
    content slots' = (content slots).map (fun q => if p q.2 then (q.1, f q.2) else q) := by
  obtain ⟨i, x, m, hx, hOld, hNew⟩ := contentFrom_updateFirst (k := 0) h
  have hRest : m = (content slots).filter (fun q => ¬ p q.2 = true) :=
    eq_filter_not_of_cons hOld hx hUnique
  -- nothing else matches, so the map changes nothing else
  have hKeep : m.map (fun q => if p q.2 then (q.1, f q.2) else q) = m := by
    conv_rhs => rw [← Multiset.map_id m]
    refine Multiset.map_congr rfl fun q hq => ?_
    rw [hRest] at hq
    simp [(Multiset.mem_filter.mp hq).2]
  rw [content, hNew, content, hOld, Multiset.map_cons, hKeep]
  simp [hx]

/-- Without a match, mapping the matches changes nothing. -/
theorem map_if_of_none {p : α → Bool} (f : α → α) {l : List α} (h : ∀ x ∈ l, p x = false) :
    l.map (fun x => if p x then f x else x) = l := by
  conv_rhs => rw [← List.map_id l]
  refine List.map_congr_left fun x hx => ?_
  rw [h x hx]
  rfl

/-- Where at most one element satisfies the test, the first is all of them. -/
theorem updateIn_eq_map {p : α → Bool} {f : α → α} {l l' : List α} (h : updateIn p f l = some l')
    (hUnique : l.countP p ≤ 1) : l' = l.map (fun x => if p x then f x else x) := by
  obtain ⟨l₁, x, l₂, rfl, rfl, hx⟩ := updateIn_eq_some h
  rw [List.countP_append, List.countP_cons_of_pos hx] at hUnique
  -- the match is the only one, before it and behind it
  have hBefore : ∀ y ∈ l₁, p y = false := by
    simpa using List.countP_eq_zero.mp (show l₁.countP p = 0 by omega)
  have hBehind : ∀ y ∈ l₂, p y = false := by
    simpa using List.countP_eq_zero.mp (show l₂.countP p = 0 by omega)
  rw [List.map_append, List.map_cons, map_if_of_none f hBefore, map_if_of_none f hBehind, if_pos hx]

/-- Updating the first match, when it is unique, is mapping the matches. -/
theorem updateFirst_eq_map {p : α → Bool} {f : α → α} {slots slots' : List (List α)}
    (h : updateFirst p f slots = some slots') (hUnique : slots.flatten.countP p ≤ 1) :
    slots' = slots.map (List.map fun x => if p x then f x else x) := by
  induction slots generalizing slots' with
  | nil => simp [updateFirst] at h
  | cons slot slots ih =>
    rw [List.flatten_cons, List.countP_append] at hUnique
    rw [updateFirst] at h
    split at h
    · next slot' hIn =>
      obtain ⟨l₁, x, l₂, rfl, -, hx⟩ := updateIn_eq_some hIn
      rw [Option.some.injEq] at h
      -- the match is in this slot, so the others have none
      have hHere : 0 < (l₁ ++ x :: l₂).countP p := List.countP_pos_iff.mpr ⟨x, by simp, hx⟩
      have hNone : ∀ y ∈ slots.flatten, p y = false := by
        simpa using List.countP_eq_zero.mp (show slots.flatten.countP p = 0 by omega)
      rw [← h, updateIn_eq_map hIn (by omega), List.map_cons]
      congr 1
      conv_lhs => rw [← List.map_id slots]
      refine List.map_congr_left fun other hOther => (map_if_of_none f fun y hy => ?_).symm
      exact hNone y (List.mem_flatten.mpr ⟨other, hOther, hy⟩)
    · next hIn =>
      obtain ⟨rest, hRest, rfl⟩ := Option.map_eq_some_iff.mp h
      rw [List.map_cons, map_if_of_none f (updateIn_eq_none.mp hIn), ← ih hRest (by omega)]

end Slots
