import Mathlib

/-!
# Dealing a pile to slots

A pile is dealt to the slots of a table from slot `i` on: `c` elements to a
slot, then on to the slot `k` further. `dealt` and `left` say in closed form
what the slots hold afterwards and what stays of the pile.

* `dealt_step` / `left_step` — dealing to slot `i` and going on from there is
  the same.
* `lastLoad_le_iff`          — when what is left over still fits into the last
  slot.
-/

namespace Deal

variable {α : Type*}

/-- The slots after the deal: every `k`-th from `i` on has gained a chunk. -/
def dealt (c k i : ℕ) (pile : List α) (slots : List (List α)) : List (List α) :=
  slots.mapIdx fun j slot =>
    if i ≤ j ∧ k ∣ j - i then (pile.drop (c * ((j - i) / k))).take c ++ slot else slot

/-- What a deal to every `k`-th of `n` slots leaves of the pile. -/
def left (c k n : ℕ) (pile : List α) : List α := pile.drop (c * ((n + k - 1) / k))

@[simp] theorem length_dealt (c k i : ℕ) (pile : List α) (slots : List (List α)) :
    (dealt c k i pile slots).length = slots.length := by
  simp [dealt]

theorem dealt_nil (c k i : ℕ) (slots : List (List α)) : dealt c k i [] slots = slots := by
  refine List.ext_getElem? fun j => ?_
  simp [dealt]

/-- There is no slot to deal to. -/
theorem dealt_of_length_le (c k : ℕ) {i : ℕ} (pile : List α) {slots : List (List α)}
    (h : slots.length ≤ i) : dealt c k i pile slots = slots := by
  refine List.ext_getElem (length_dealt ..) fun j hj hj' => ?_
  have hBefore : ¬ (i ≤ j ∧ k ∣ j - i) := by omega
  simp [dealt, hBefore]

/-- One chunk to slot `i`, the rest of the deal from slot `i + k` on. -/
theorem dealt_step (c : ℕ) {k : ℕ} (hk : 0 < k) (i : ℕ) (pile : List α) (slots : List (List α)) :
    dealt c k (i + k) (pile.drop c) (slots.modify i (pile.take c ++ ·)) =
      dealt c k i pile slots := by
  refine List.ext_getElem? fun j => ?_
  unfold dealt
  rw [List.getElem?_mapIdx, List.getElem?_mapIdx, List.getElem?_modify, Option.map_eq_map,
    Option.map_map]
  congr 1
  funext slot
  simp only [Function.comp_apply]
  by_cases hHere : i = j
  · subst hHere
    rw [if_neg (by omega), if_pos rfl, if_pos ⟨le_rfl, by simp⟩]
    simp
  · rw [if_neg hHere]
    by_cases hLater : i + k ≤ j ∧ k ∣ j - (i + k)
    · obtain ⟨hle, m, hm⟩ := hLater
      -- slot `i + (m + 1) * k` gets its chunk after `m` more
      have hj : j - i = k * (m + 1) := by
        rw [Nat.mul_succ]
        omega
      rw [if_pos ⟨hle, m, hm⟩, if_pos ⟨by omega, m + 1, hj⟩, hm, hj, Nat.mul_div_cancel_left _ hk,
        Nat.mul_div_cancel_left _ hk, List.drop_drop, Nat.mul_succ, Nat.add_comm c]
    · rw [if_neg hLater, if_neg]
      rintro ⟨hle, m, hm⟩
      apply hLater
      cases m with
      | zero => omega
      | succ m =>
        rw [Nat.mul_succ] at hm
        exact ⟨by omega, m, by omega⟩

theorem left_step (c : ℕ) {k n : ℕ} (hk : 0 < k) (hn : 0 < n) (pile : List α) :
    left c k (n - k) (pile.drop c) = left c k n pile := by
  unfold left
  have hRounds : (n + k - 1) / k = (n - k + k - 1) / k + 1 := by
    rcases Nat.lt_or_ge n k with hLess | hMore
    · have hNone : (n - k + k - 1) / k = 0 := Nat.div_eq_of_lt (by omega)
      rw [hNone, show n + k - 1 = n - 1 + k by omega, Nat.add_div_right _ hk,
        Nat.div_eq_of_lt (by omega)]
    · rw [show n + k - 1 = n - k + k - 1 + k by omega, Nat.add_div_right _ hk]
  rw [List.drop_drop, hRounds, Nat.mul_succ, Nat.add_comm c]

theorem left_nil (c k n : ℕ) : left c k n ([] : List α) = [] := by
  simp [left]

/-- No slots, nothing dealt. -/
theorem left_zero (c k : ℕ) (pile : List α) (hk : 0 < k) : left c k 0 pile = pile := by
  unfold left
  rw [Nat.div_eq_of_lt (by omega), Nat.mul_zero, List.drop_zero]

-- ---------------------------------------------------------------------------
-- Empty slots
-- ---------------------------------------------------------------------------

/-- What slot `j` holds after a deal to `n` empty slots. -/
theorem dealt_replicate (c k : ℕ) (pile : List α) {n j : ℕ} (hj : j < n) :
    (dealt c k 0 pile (List.replicate n []))[j]? =
      some (if k ∣ j then (pile.drop (c * (j / k))).take c else []) := by
  simp [dealt, hj]

/-- No slot gets more than one chunk. -/
theorem length_le_of_mem_dealt {c k n : ℕ} {pile : List α} {slot : List α}
    (h : slot ∈ dealt c k 0 pile (List.replicate n [])) : slot.length ≤ c := by
  obtain ⟨j, hSlot⟩ := List.mem_iff_getElem?.mp h
  have hj : j < n := by simpa using (List.getElem?_eq_some_iff.mp hSlot).1
  rw [dealt_replicate c k pile hj, Option.some.injEq] at hSlot
  rw [← hSlot]
  split
  · exact List.length_take_le ..
  · exact Nat.zero_le _

/-- How much the last slot holds when the leftovers are put on top of it. -/
def lastLoad (c k n m : ℕ) : ℕ :=
  (if k ∣ n - 1 then min c (m - c * ((n - 1) / k)) else 0) + (m - c * ((n + k - 1) / k))

/-- **The leftovers fit** into the last slot, up to one chunk there, exactly
when there are none, or the deal left the slot out and they are one chunk. -/
theorem lastLoad_le_iff {c k n : ℕ} (hc : 0 < c) (hk : 0 < k) (hn : 0 < n) (m : ℕ) :
    lastLoad c k n m ≤ c ↔
      m ≤ c * ((n + k - 1) / k) ∨ ¬ k ∣ n - 1 ∧ m ≤ c * ((n + k - 1) / k + 1) := by
  unfold lastLoad
  rw [Nat.mul_succ]
  by_cases hDvd : k ∣ n - 1
  · -- the last slot is the last one dealt to
    obtain ⟨r, hr⟩ := hDvd
    have hRounds : (n + k - 1) / k = r + 1 := by
      rw [show n + k - 1 = k * r + k by omega, Nat.add_div_right _ hk, Nat.mul_div_cancel_left _ hk]
    rw [if_pos ⟨r, hr⟩, hRounds, hr, Nat.mul_div_cancel_left _ hk, Nat.mul_succ]
    have : k ∣ k * r := Nat.dvd_mul_right k r
    generalize c * r = x
    simp only [this, not_true_eq_false, false_and, or_false]
    omega
  · rw [if_neg hDvd]
    generalize c * ((n + k - 1) / k) = x
    simp only [hDvd, not_false_eq_true, true_and]
    omega

end Deal
