import PVmapper.Searcher.Invariant

/-!
# PVmapper — how often a searcher acts

`processOutgoing` compares the clock with `m_lastSearch` ("Timestamp of the
last outgoing broadcast"), which only the constructor writes
(`SameFrame.lastSearch`). From 99 ms after construction on, every call acts,
however soon after the one before it (`actingTimes_eq`). The rate is limited
as far as the caller limits it: `rateLimited_iff`.
-/

namespace PVmapper

namespace Searcher

variable {s s' : Searcher} {searchIntervals : List UInt32}

/-- 99 ms, the 10 Hz period with its tolerance. -/
def period : Int := 99000000

/-- The clock readings of the calls to `processOutgoing`. -/
def callTimes (es : List Event) : List Int :=
  es.filterMap fun e =>
    match e with
    | .outgoing now => some now
    | _ => none

/-- What one event contributes to `actingTimes`. -/
def actingTime (s s' : Searcher) : Event → Output → List Int
  | .outgoing now, .sent _ packets =>
    if s'.currentBin ≠ s.currentBin ∨ packets ≠ [] then [now] else []
  | _, _ => []

/-- The clock readings of the calls that advance `m_currentBin` or send
packets, when the events are taken from `s` on. -/
def actingTimes (s : Searcher) : List Event → List Int
  | [] => []
  | e :: es =>
    match s.step e with
    | none => []
    | some (s', o) => actingTime s s' e o ++ actingTimes s' es

/-- Any two of these times are 99 ms apart, and `d` of them never take less
than `d` times 99 ms. -/
def RateLimited (times : List Int) : Prop :=
  times.Pairwise (fun t t' => period ≤ t' - t) ∧
    ∀ (i d : ℕ) (t t' : Int), times[i]? = some t → times[i + d]? = some t' → d * period ≤ t' - t

-- ---------------------------------------------------------------------------
-- Who acts
-- ---------------------------------------------------------------------------

theorem tooEarly_iff {now : Int} : s.tooEarly now ↔ now < s.lastSearch + period := by
  have h : milliseconds (now - s.lastSearch) < 99 ↔ now - s.lastSearch < 99 * 1000000 :=
    milliseconds_lt_iff _ (n := 99) (by omega)
  unfold tooEarly period
  rw [h]
  omega

/-- The number of bins is even or zero: an interval in ticks is ten times
something, or one of the quick retries. -/
theorem maxInterval_ne_one (searchIntervals : List UInt32) :
    (maxInterval searchIntervals).toNat ≠ 1 := by
  have hMem : ∀ d ∈ scheduleIntervals searchIntervals, d = 1 ∨ d.toNat % 2 = 0 := by
    intro d hd
    simp only [scheduleIntervals, List.mem_cons, List.mem_map] at hd
    rcases hd with rfl | rfl | ⟨d, -, rfl⟩
    · exact Or.inl rfl
    · exact Or.inr rfl
    · rw [UInt32.toNat_mul]
      right
      rw [show UInt32.toNat 10 = 10 from rfl]
      omega
  -- the list does not end with the 1 it begins with
  have hTail : maxInterval searchIntervals ∈ 2 :: searchIntervals.map (· * 10) := by
    unfold maxInterval scheduleIntervals
    rw [List.getLast_cons (by simp)]
    exact List.getLast_mem _
  -- it is the 2, or ten times something
  simp only [List.mem_cons, List.mem_map] at hTail
  rcases hTail with h | ⟨d, -, h⟩
  · rw [h]
    decide
  · rw [← h, UInt32.toNat_mul, show UInt32.toNat 10 = 10 from rfl]
    omega

/-- A call acts exactly when it is not too early. -/
theorem actingTime_outgoing (hBins : s.searchedPvs.length ≠ 1) {now : Int} {o : Output}
    (hStep : s.step (.outgoing now) = some (s', o)) :
    actingTime s s' (.outgoing now) o = if s.lastSearch + period ≤ now then [now] else [] := by
  rcases step_outgoing hStep with ⟨hEarly, rfl, rfl⟩ | ⟨hEarly, packets, hTick, rfl⟩
  · rw [tooEarly_iff] at hEarly
    simp only [actingTime, ne_eq, not_true_eq_false, or_self, if_false]
    rw [if_neg (by omega)]
  · rw [tooEarly_iff] at hEarly
    obtain ⟨hCur, hs', -, -, -⟩ := tick_eq_some hTick
    -- with more than one bin, a tick moves the hand
    have hMoves : s'.currentBin ≠ s.currentBin := by
      rw [hs']
      show (s.currentBin + 1) % _ ≠ _
      rcases Nat.lt_or_ge (s.currentBin + 1) s.searchedPvs.length with hlt | hge
      · rw [Nat.mod_eq_of_lt hlt]
        omega
      · rw [show s.currentBin + 1 = s.searchedPvs.length by omega, Nat.mod_self]
        omega
    simp only [actingTime]
    rw [if_pos (Or.inl hMoves), if_pos (by omega)]

/-- From the construction on, the acting calls are all calls but those in the
first 99 ms. -/
theorem actingTimes_eq (hInv : Inv s) (hBins : s.searchedPvs.length ≠ 1)
    {tr : List (Event × Output)} (hRun : Runs.Run step s tr s') :
    actingTimes s (tr.map Prod.fst) =
      (callTimes (tr.map Prod.fst)).filter fun now => s.lastSearch + period ≤ now := by
  induction hRun with
  | nil => rfl
  | @cons s s₁ s₂ e o tr hStep _ ih =>
    have hFrame := sameFrame_step hInv hStep
    -- no step writes `m_lastSearch`, so the rest is compared with the same reading
    have hRest := ih (inv_step hInv hStep) (hFrame.length ▸ hBins)
    rw [hFrame.lastSearch] at hRest
    rw [List.map_cons, actingTimes]
    simp only [hStep]
    rw [hRest]
    cases e with
    | outgoing now =>
      rw [actingTime_outgoing hBins hStep]
      show _ = (now :: callTimes (tr.map Prod.fst)).filter _
      rw [List.filter_cons]
      simp only [decide_eq_true_eq]
      split <;> rfl
    | addPV now pvname => rfl
    | removePV pvname => rfl
    | response chanId accepted => rfl
    | purge clock maxtime => rfl

-- ---------------------------------------------------------------------------
-- The rate
-- ---------------------------------------------------------------------------

/-- Neighbours 99 ms apart make a sequence that is rate limited. -/
theorem rateLimited_of_pairwise {times : List Int}
    (h : times.Pairwise fun t t' => period ≤ t' - t) : RateLimited times := by
  refine ⟨h, ?_⟩
  intro i d
  induction d with
  | zero =>
    intro t t' hi hj
    rw [Nat.add_zero, hi, Option.some.injEq] at hj
    subst hj
    simp
  | succ d ih =>
    intro t t' hi hj
    have hLt : i + (d + 1) < times.length := (List.getElem?_eq_some_iff.mp hj).1
    -- one more step adds one more period
    have hMid : times[i + d]? = some times[i + d] := List.getElem?_eq_getElem (by omega)
    have hSteps := ih t times[i + d] hi hMid
    have hStep := List.pairwise_iff_getElem.mp h (i + d) (i + (d + 1)) (by omega) hLt (by omega)
    rw [(List.getElem?_eq_some_iff.mp hj).2] at hStep
    unfold period at *
    push_cast
    omega

/-- **The rate is limited, exactly when the caller limits it:** no two calls
made 99 ms or more after construction are less than 99 ms apart. -/
theorem rateLimited_iff {sock : Int} {addr : Address} {t₀ : Int} {s₀ : Searcher}
    (hCreate : create sock addr searchIntervals t₀ = some s₀) {tr : List (Event × Output)}
    (hRun : Runs.Run step s₀ tr s') :
    RateLimited (actingTimes s₀ (tr.map Prod.fst)) ↔
      ((callTimes (tr.map Prod.fst)).filter fun now => t₀ + period ≤ now).Pairwise
        fun t t' => period ≤ t' - t := by
  have hs₀ := (create_eq_some hCreate).2
  have hBins : s₀.searchedPvs.length ≠ 1 := by
    rw [hs₀, fresh, List.length_replicate]
    exact maxInterval_ne_one searchIntervals
  have hTimes := actingTimes_eq (inv_of_init ⟨sock, addr, t₀, hCreate⟩) hBins hRun
  have hStart : s₀.lastSearch = t₀ := by rw [hs₀, fresh]
  rw [hTimes, hStart]
  exact ⟨fun h => h.1, rateLimited_of_pairwise⟩

/-- Called every 100 ms, a searcher keeps its rate. -/
theorem rateLimited_every_100ms :
    RateLimited (actingTimes tenBins [.outgoing 100000000, .outgoing 200000000]) := by
  have hCreate : create 3 (inetNtop ⟨10, 0, 0, 255⟩, 5064) [1] 0 = some tenBins := by
    decide +kernel
  have hRun : Runs.Run step tenBins [(.outgoing 100000000, .sent true []),
      (.outgoing 200000000, .sent true [])] { tenBins with currentBin := 2 } :=
    Runs.run_of_exec [.outgoing 100000000, .outgoing 200000000] rfl
  exact (rateLimited_iff hCreate hRun).mpr (by decide +kernel)

/-- Called again after 1 ms, a searcher acts again. -/
theorem not_rateLimited_after_1ms :
    ¬ RateLimited (actingTimes tenBins [.outgoing 100000000, .outgoing 101000000]) := by
  have hTimes : actingTimes tenBins [.outgoing 100000000, .outgoing 101000000] =
      [100000000, 101000000] := by
    decide +kernel
  rw [hTimes]
  intro hLimited
  obtain ⟨hPairs, -⟩ := hLimited
  simp [period] at hPairs

end Searcher

end PVmapper
