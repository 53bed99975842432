import Mathlib

/-!
# Dials: how many steps until the hand points at a position

A calendar queue, a timing wheel or a round-robin scheduler has `n`
positions on a dial and a hand that advances one position per tick. `dist n
cur b` is the number of ticks that pass before the tick that finds the hand,
now at `cur`, at position `b`.

* `dist_advance`       — a tick elsewhere brings position `b` one tick closer.
* `dist_ahead`         — after a tick, the position `d` ahead of where the hand
  was is `d - 1` ticks away, for every `1 ≤ d ≤ n`.
* `dist_eq_zero_iff`   — the hand is at `b` exactly when `b` is due now.
-/

namespace Dial

/-- Ticks that pass before the hand, now at `cur`, is found at `b`. -/
def dist (n cur b : ℕ) : ℕ := (b + n - cur) % n

variable {n cur b d : ℕ}

/-- Reduction of a number that passes the dial at most once. -/
theorem mod_of_lt_two_mul {x : ℕ} (h : x < 2 * n) : x % n = if x < n then x else x - n := by
  split
  · next hx => exact Nat.mod_eq_of_lt hx
  · next hx => rw [Nat.mod_eq_sub_mod (by omega), Nat.mod_eq_of_lt (by omega)]

/-- The hand comes by within one round. -/
theorem dist_lt (hn : 0 < n) : dist n cur b < n :=
  Nat.mod_lt _ hn

/-- The way to a position, with or without passing the end of the dial. -/
theorem dist_of_lt (hc : cur < n) (hb : b < n) :
    dist n cur b = if cur ≤ b then b - cur else b + n - cur := by
  rw [dist, mod_of_lt_two_mul (by omega)]
  split <;> split <;> omega

/-- The hand after a tick. -/
theorem advance_of_lt (hc : cur < n) : (cur + 1) % n = if cur + 1 < n then cur + 1 else 0 := by
  rw [mod_of_lt_two_mul (by omega)]
  split <;> omega

/-- Only the position at the hand is due now. -/
theorem dist_eq_zero_iff (hc : cur < n) (hb : b < n) : dist n cur b = 0 ↔ b = cur := by
  rw [dist_of_lt hc hb]
  split <;> omega

/-- A tick brings every other position one tick closer. -/
theorem dist_advance (hc : cur < n) (hb : b < n) (hne : b ≠ cur) :
    dist n ((cur + 1) % n) b + 1 = dist n cur b := by
  -- whether or not the hand passes the end of the dial
  rw [advance_of_lt hc, dist_of_lt hc hb]
  split
  · rw [dist_of_lt (by omega) hb]
    split <;> split <;> omega
  · rw [dist_of_lt (by omega) hb]
    split <;> split <;> omega

/-- What lies `d` ahead of the hand is due in `d` ticks, up to a full round. -/
theorem dist_ahead (hc : cur < n) (h1 : 1 ≤ d) (hd : d ≤ n) :
    dist n ((cur + 1) % n) ((cur + d) % n) + 1 = d := by
  have hb : (cur + d) % n < n := Nat.mod_lt _ (by omega)
  -- the position itself may lie past the end of the dial
  have hAhead : (cur + d) % n = if cur + d < n then cur + d else cur + d - n :=
    mod_of_lt_two_mul (by omega)
  rw [advance_of_lt hc]
  split
  · rw [dist_of_lt (by omega) hb, hAhead]
    split <;> split <;> omega
  · rw [dist_of_lt (by omega) hb, hAhead]
    split <;> split <;> omega

/-- A position left where the hand was is a full round away. -/
theorem dist_stay (hc : cur < n) : dist n ((cur + 1) % n) cur + 1 = n := by
  have h := dist_ahead (d := n) hc (by omega) le_rfl
  rwa [Nat.add_mod_right, Nat.mod_eq_of_lt hc] at h

end Dial
