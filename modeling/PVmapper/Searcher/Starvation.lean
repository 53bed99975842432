import PVmapper.Searcher.Entries
import PVmapper.Searcher.Schedule

/-!
# PVmapper — how long a searched PV can go unsent

Between two purges a PV is sent at least once in every round of the dial: the
distance to its bin shrinks with every tick that does not send it. A purge
deals every PV to a new bin and puts the hand back to 0, so it starts a new
round. A PV whose bin the hand has not reached by the next purge loses its
turn.

* `unsent_since_purge` — after a purge, no more than a round.
* `unsent_ticks_le`    — with purges at least a round apart, no more than two.
* `starved_by_purges`  — with purges closer together, a PV dealt to a late bin
  each time is never sent.
-/

namespace PVmapper

namespace Searcher

variable {s s' : Searcher} {pvname : Bytes}

-- ---------------------------------------------------------------------------
-- Purges, and a PV that stays
-- ---------------------------------------------------------------------------

/-- The numbers of ticks between each purge of a trace and the next, with
`since` ticks counted since the last one before the trace. -/
def purgeGaps : Option ℕ → List (Event × Output) → List ℕ
  | _, [] => []
  | since, (e, o) :: tr =>
    if e.isPurge then since.toList ++ purgeGaps (some 0) tr
    else
      match o with
      | .sent true _ => purgeGaps (since.map (· + 1)) tr
      | _ => purgeGaps since tr

theorem purgeGaps_cons_quiet {since : Option ℕ} {e : Event} {o : Output}
    {tr : List (Event × Output)} (hPurge : e.isPurge = false)
    (hNoTick : ∀ packets, o ≠ .sent true packets) :
    purgeGaps since ((e, o) :: tr) = purgeGaps since tr := by
  rw [purgeGaps, if_neg (by simp [hPurge])]
  exact hNoTick

/-- Any two purges of the trace are at least `k` ticks apart. -/
def PurgesApart (k : ℕ) (tr : List (Event × Output)) : Prop := ∀ g ∈ purgeGaps none tr, k ≤ g

instance (k : ℕ) (tr : List (Event × Output)) : Decidable (PurgesApart k tr) := by
  unfold PurgesApart
  infer_instance

instance (s : Searcher) (pvname : Bytes) : Decidable (Searched s pvname) :=
  Multiset.decidableExistsMultiset (p := fun q : ℕ × SearchedPV => q.2.pvname = pvname)

/-- The PV is in the bins before, between and after the events. -/
def Stays (pvname : Bytes) : Searcher → List Event → Prop
  | s, [] => Searched s pvname
  | s, e :: es =>
    Searched s pvname ∧
      match s.step e with
      | some (s', _) => Stays pvname s' es
      | none => False

theorem stays_cons {e : Event} {es : List Event} {o : Output} (hStep : s.step e = some (s', o)) :
    Stays pvname s (e :: es) ↔ Searched s pvname ∧ Stays pvname s' es := by
  rw [Stays, hStep]

theorem Stays.searched {es : List Event} (h : Stays pvname s es) : Searched s pvname := by
  cases es with
  | nil => exact h
  | cons e es => exact h.1

/-- A step with the PV in the bins before and after it did not end the search
for it. -/
theorem keeps_of_searched (hInv : Inv s) {e : Event} {o : Output}
    (hStep : s.step e = some (s', o)) (hAfter : Searched s' pvname) : Keeps pvname (e, o) := by
  refine ⟨?_, ?_⟩
  · rintro rfl
    obtain ⟨rfl, -⟩ := step_removePV hStep
    exact not_searched_removePV hInv pvname hAfter
  · rintro rfl
    cases e with
    | response chanId accepted =>
      rcases step_response hStep with ⟨-, -, ho⟩ | ⟨pv, s₁, hTake, rfl, ho⟩
      · simp at ho
      · simp only [Output.found.injEq, Option.some.injEq] at ho
        subst ho
        split at hAfter
        · exact not_searched_removePV (inv_takeFound hInv hTake) pv.pvname hAfter
        · exact not_searched_takeFound hInv hTake hAfter
    | addPV now other =>
      obtain ⟨_, _, ho⟩ := step_addPV hStep
      simp at ho
    | removePV other =>
      have ho := (step_removePV hStep).2
      simp at ho
    | outgoing now =>
      rcases step_outgoing hStep with ⟨-, -, ho⟩ | ⟨-, _, _, ho⟩ <;> simp at ho
    | purge clock maxtime =>
      obtain ⟨_, _, _, ho⟩ := step_purge hStep
      simp at ho

/-- A PV in the bins is at some bin, with an interval left. -/
theorem Searched.exists_at (hInv : Inv s) (h : Searched s pvname) :
    ∃ b d ds, At s pvname b (d :: ds) := by
  obtain ⟨⟨b, pv⟩, hMem, hName⟩ := h
  obtain ⟨d, ds, hIntervals⟩ := List.exists_cons_of_ne_nil (hInv.intervals _ hMem).1
  exact ⟨b, d, ds, pv, hMem, hName, hIntervals⟩

-- ---------------------------------------------------------------------------
-- Unsent ticks
-- ---------------------------------------------------------------------------

/-- A tick that does not send the PV brings its bin one tick closer. -/
theorem at_unsent_tick (hInv : Inv s) {packets : List Packet}
    (hTick : s.tick = some (s', packets))
    (hUnsent : pvname ∉ (packets.flatMap Packet.pvs).map Prod.snd) {b : ℕ} {d : UInt32}
    {ds : List UInt32} (h : At s pvname b (d :: ds)) :
    At s' pvname b (d :: ds) ∧
      Dial.dist s'.searchedPvs.length s'.currentBin b + 1 =
        Dial.dist s.searchedPvs.length s.currentBin b := by
  -- due, it would have been sent
  have hb : b ≠ s.currentBin := by
    intro hb
    have hCount := count_sent hInv hTick h
    rw [if_pos hb, List.count_eq_zero_of_not_mem hUnsent] at hCount
    omega
  obtain ⟨hCur, hs', hLen, -, -⟩ := tick_eq_some hTick
  refine ⟨(at_tick hTick h).1 hb, ?_⟩
  rw [hLen, hs']
  exact Dial.dist_advance hCur h.lt hb

/-- In a run that starts `c` ticks after a purge, with the next purge at least
a round after it, a PV still in the bin it was dealt to goes unsent for no
more than the ticks until the hand gets there. -/
theorem unsent_since_purge {tr : List (Event × Output)} (hRun : Runs.Run step s tr s')
    (hInv : Inv s) {c : ℕ} (hApart : ∀ g ∈ purgeGaps (some c) tr, s.searchedPvs.length ≤ g)
    (hStays : Stays pvname s (tr.map Prod.fst)) (hUnsent : ∀ names ∈ ticks tr, pvname ∉ names)
    {b : ℕ} {d : UInt32} {ds : List UInt32} (hAt : At s pvname b (d :: ds))
    (hDist : c + Dial.dist s.searchedPvs.length s.currentBin b < s.searchedPvs.length) :
    (ticks tr).length ≤ Dial.dist s.searchedPvs.length s.currentBin b := by
  -- `c` grows and the distance shrinks with every tick: their sum stays below a
  -- round, so a purge at least a round after the last one never comes in between
  induction hRun generalizing c with
  | nil => simp [ticks]
  | @cons s s₁ s₂ e o tr hStep _ ih =>
    rw [List.map_cons, stays_cons hStep] at hStays
    have hInv₁ := inv_step hInv hStep
    have hLen := (sameFrame_step hInv hStep).length
    by_cases hPurge : e.isPurge = true
    · -- the next purge would come too early
      have := hApart c (by simp [purgeGaps, hPurge])
      omega
    · rw [Bool.not_eq_true] at hPurge
      by_cases hIsTick : ∃ packets, o = .sent true packets
      · obtain ⟨packets, rfl⟩ := hIsTick
        rw [ticks_cons_tick] at hUnsent ⊢
        obtain ⟨hAt₁, hCloser⟩ := at_unsent_tick hInv (tick_of_step hStep)
          (hUnsent _ (List.mem_cons_self ..)) hAt
        rw [hLen] at hCloser
        have hRest := ih (c := c + 1) hInv₁ (by
            rw [hLen]
            simpa [purgeGaps, hPurge] using hApart)
          hStays.2 (fun names hn => hUnsent names (List.mem_cons_of_mem _ hn)) hAt₁
          (by rw [hLen]; omega)
        rw [hLen] at hRest
        rw [List.length_cons]
        omega
      · have hNoTick : ∀ packets, o ≠ .sent true packets := fun packets ho => hIsTick ⟨packets, ho⟩
        obtain ⟨hCur, hAt₁⟩ := at_step_of_quiet hInv hStep hPurge
          (keeps_of_searched hInv hStep hStays.2.searched) hNoTick hAt
        rw [ticks_cons_quiet hNoTick] at hUnsent ⊢
        rw [purgeGaps_cons_quiet hPurge hNoTick] at hApart
        have hRest := ih hInv₁ (by rw [hLen]; exact hApart) hStays.2 hUnsent hAt₁
          (by rw [hLen, hCur]; exact hDist)
        rwa [hLen, hCur] at hRest

/-- The same from any state, up to the first purge and then after it. -/
theorem unsent_ticks_lt {tr : List (Event × Output)} (hRun : Runs.Run step s tr s')
    (hInv : Inv s) (hApart : PurgesApart s.searchedPvs.length tr)
    (hStays : Stays pvname s (tr.map Prod.fst)) (hUnsent : ∀ names ∈ ticks tr, pvname ∉ names)
    {b : ℕ} {d : UInt32} {ds : List UInt32} (hAt : At s pvname b (d :: ds)) :
    (ticks tr).length <
      Dial.dist s.searchedPvs.length s.currentBin b + s.searchedPvs.length := by
  induction hRun generalizing b d ds with
  | nil =>
    have := hAt.lt
    simp only [ticks, List.filterMap_nil, List.length_nil]
    omega
  | @cons s s₁ s₂ e o tr hStep hRest ih =>
    rw [List.map_cons, stays_cons hStep] at hStays
    have hInv₁ := inv_step hInv hStep
    have hLen := (sameFrame_step hInv hStep).length
    by_cases hPurge : e.isPurge = true
    · -- after the purge the PV is somewhere, at most a round away
      have hNoTick : ∀ packets, o ≠ .sent true packets := by
        cases e with
        | purge clock maxtime =>
          obtain ⟨_, _, _, rfl⟩ := step_purge hStep
          simp
        | _ => simp [Event.isPurge] at hPurge
      obtain ⟨b₁, d₁, ds₁, hAt₁⟩ := hStays.2.searched.exists_at hInv₁
      have hRound : Dial.dist s₁.searchedPvs.length s₁.currentBin b₁ < s₁.searchedPvs.length :=
        Dial.dist_lt (by have := hAt₁.lt; omega)
      rw [ticks_cons_quiet hNoTick] at hUnsent ⊢
      have hGaps : ∀ g ∈ purgeGaps (some 0) tr, s₁.searchedPvs.length ≤ g := by
        rw [hLen]
        simpa [PurgesApart, purgeGaps, hPurge] using hApart
      have := unsent_since_purge hRest hInv₁ hGaps hStays.2 hUnsent hAt₁ (by omega)
      omega
    · rw [Bool.not_eq_true] at hPurge
      by_cases hIsTick : ∃ packets, o = .sent true packets
      · obtain ⟨packets, rfl⟩ := hIsTick
        rw [ticks_cons_tick] at hUnsent ⊢
        obtain ⟨hAt₁, hCloser⟩ := at_unsent_tick hInv (tick_of_step hStep)
          (hUnsent _ (List.mem_cons_self ..)) hAt
        have hAfter := ih hInv₁ (by
            rw [hLen]
            simpa [PurgesApart, purgeGaps, hPurge] using hApart)
          hStays.2 (fun names hn => hUnsent names (List.mem_cons_of_mem _ hn)) hAt₁
        rw [hLen] at hCloser hAfter
        rw [List.length_cons]
        omega
      · have hNoTick : ∀ packets, o ≠ .sent true packets := fun packets ho => hIsTick ⟨packets, ho⟩
        obtain ⟨hCur, hAt₁⟩ := at_step_of_quiet hInv hStep hPurge
          (keeps_of_searched hInv hStep hStays.2.searched) hNoTick hAt
        rw [ticks_cons_quiet hNoTick] at hUnsent ⊢
        rw [PurgesApart, purgeGaps_cons_quiet hPurge hNoTick] at hApart
        have hAfter := ih hInv₁ (by rw [hLen]; exact hApart) hStays.2 hUnsent hAt₁
        rwa [hLen, hCur] at hAfter

/-- **Two rounds.** In a stretch of a run in which purges are at least `nBins`
ticks apart, a PV that stays in the bins goes unsent for no more than
`2 * nBins` ticks. -/
theorem unsent_ticks_le {searchIntervals : List UInt32} (hReach : Reachable searchIntervals s)
    {tr : List (Event × Output)} (hRun : Runs.Run step s tr s')
    (hApart : PurgesApart s.searchedPvs.length tr) (hStays : Stays pvname s (tr.map Prod.fst))
    (hUnsent : ∀ names ∈ ticks tr, pvname ∉ names) :
    (ticks tr).length ≤ 2 * s.searchedPvs.length := by
  have hInv := hReach.inv
  obtain ⟨b, d, ds, hAt⟩ := hStays.searched.exists_at hInv
  have hRound : Dial.dist s.searchedPvs.length s.currentBin b < s.searchedPvs.length :=
    Dial.dist_lt (by have := hAt.lt; omega)
  have := unsent_ticks_lt hRun hInv hApart hStays hUnsent hAt
  omega

instance decidableStays (pvname : Bytes) (s : Searcher) (es : List Event) :
    Decidable (Stays pvname s es) :=
  match es with
  | [] => inferInstanceAs (Decidable (Searched s pvname))
  | e :: es =>
    match hStep : s.step e with
    | some (s', _) =>
      have := decidableStays pvname s' es
      decidable_of_iff _ (stays_cons hStep).symm
    | none => isFalse (by simp [Stays, hStep])

/-- Between its second and its third search a PV of `tenBins` goes unsent for
one tick. -/
theorem unsent_one_tick : (ticks [(.outgoing 300000000, .sent true [])]).length ≤
    2 * tenBins.searchedPvs.length := by
  have hReach : Reachable [1] { tenBins with
      chanId := 1
      searchedPvs := tenBins.searchedPvs.set 3 [⟨0, [chr 'A'], 0, [10]⟩]
      currentBin := 2 } :=
    tenBins_reachable.exec [.addPV 0 [chr 'A'], .outgoing 100000000, .outgoing 200000000]
      (by decide +kernel)
  exact unsent_ticks_le hReach (Runs.run_of_exec [.outgoing 300000000] rfl) (by decide)
    (show Stays [chr 'A'] _ _ by decide +kernel) (by decide)

-- ---------------------------------------------------------------------------
-- A PV that is never sent
-- ---------------------------------------------------------------------------

/-- The `i`-th of 31 names. -/
def nameOf (i : ℕ) : Bytes := [UInt8.ofNat (65 + i)]

/-- 31 PVs in their last interval, in one of 30 bins. -/
def crowded : Searcher :=
  { fresh 3 (inetNtop ⟨10, 0, 0, 255⟩, 5064) [3] 0 with
    chanId := 31
    searchedPvs := (List.replicate 30 []).set 3
      ((List.range 31).reverse.map fun i => ⟨UInt32.ofNat i, nameOf i, 0, [30]⟩)
    currentBin := 4 }

/-- Ticks every 0.1 s, `n` of them from time `t` on. -/
def tickEvents (t : Int) (n : ℕ) : List Event :=
  (List.range n).map fun i => .outgoing (t + 100000000 * (i + 1))

/-- Two seconds around time `t`: all clients ask again, then a purge with a
delay of one second, then 20 ticks. -/
def purgeCycle (t : Int) : List Event :=
  (List.range 31).map (fun i => .addPV t (nameOf i)) ++ .purge (fun _ => t) 1 :: tickEvents t 20

/-- Four such cycles. -/
def fourCycles : List Event :=
  (List.range 4).flatMap fun i => purgeCycle ((i + 1) * 2000000000)

theorem crowded_reachable : Reachable [3] crowded := by
  have hInit : Init [3] (fresh 3 (inetNtop ⟨10, 0, 0, 255⟩, 5064) [3] 0) :=
    ⟨3, (inetNtop ⟨10, 0, 0, 255⟩, 5064), 0, by decide +kernel⟩
  exact (Runs.Reachable.of_init hInit).exec
    ((List.range 31).map (fun i => .addPV 0 (nameOf i)) ++ tickEvents 0 4) (by decide +kernel)

/-- Thirty bins, a purge delay of one second and a purge every 20 ticks: the
name that ends up in bin 24 after every purge is not sent in 80 ticks. -/
theorem starved_by_purges :
    Reachable [3] crowded ∧
      ∃ tr s', Runs.Run step crowded tr s' ∧ tr.map Prod.fst = fourCycles ∧
        PurgesApart (10 * 1) tr ∧ Stays (nameOf 0) crowded (tr.map Prod.fst) ∧
        (∀ names ∈ ticks tr, nameOf 0 ∉ names) ∧
        ¬ (ticks tr).length ≤ 2 * crowded.searchedPvs.length := by
  -- one evaluation decides all that is claimed of the 80 ticks
  have hCheck : (Runs.exec step crowded fourCycles).map
      (fun r : List (Event × Output) × Searcher => decide (PurgesApart (10 * 1) r.1 ∧
        (∀ names ∈ ticks r.1, nameOf 0 ∉ names) ∧
        ¬ (ticks r.1).length ≤ 2 * crowded.searchedPvs.length)) = some true := by
    decide +kernel
  obtain ⟨⟨tr, s'⟩, hExec, hDecide⟩ := Option.map_eq_some_iff.mp hCheck
  obtain ⟨hApart, hUnsent, hLong⟩ := of_decide_eq_true hDecide
  have hEvents := Runs.events_of_exec hExec
  refine ⟨crowded_reachable, tr, s', Runs.run_of_exec _ hExec, hEvents, hApart, ?_, hUnsent, hLong⟩
  rw [hEvents]
  decide +kernel

end Searcher

end PVmapper
