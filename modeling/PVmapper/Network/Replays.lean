import PVmapper.Network.Provenance
import PVmapper.Searcher.Lookup

/-!
# PVmapper — answers that come twice

A datagram may be delivered twice, and several servers may answer one request.
An id that a searcher has sent out finds a PV once: from then on no PV has it,
and none gets it before the counter has gone through all ids. So a second
datagram with the same ids is of no effect, however late it comes and whoever
sends it.

* `ids_distinct`   — the ids of one searcher, along a run of the dispatcher.
* `spent_run`      — an id that was handled stays without a PV.
* `replay_ignored` — a datagram that comes again.
-/

namespace PVmapper

namespace Dispatcher

open Runs (Run)

variable {d d' d₀ : Dispatcher} {searchIntervals : List UInt32} {tr : List (Event × Output)}
  {e : Event} {o : Output} {k n : ℕ} {chanId : UInt32}

-- ---------------------------------------------------------------------------
-- Ids
-- ---------------------------------------------------------------------------

theorem searchCount_append (tr tr' : List (Event × Output)) :
    searchCount (tr ++ tr') = searchCount tr + searchCount tr' := List.countP_append

/-- As long as there are ids left, no two PVs of a searcher share one. -/
theorem ids_distinct (hInit : Init searchIntervals d₀) (hRun : Run step d₀ tr d)
    (hFew : searchCount tr ≤ 2 ^ 32) {s : Searcher} (hGet : d.caSearchers[k]? = some s)
    {q q' : ℕ × SearchedPV} (hq : q ∈ s.content) (hq' : q' ∈ s.content)
    (hId : q.2.chanId = q'.2.chanId) : q = q' := by
  obtain ⟨names, hLen, hNumbers⟩ := numbers_run hInit hRun k
  have hStatus := status_run hRun (status_of_init hInit)
  have hInv := hStatus.invs s (List.mem_of_getElem? hGet)
  have hHere := hNumbers.bins s hGet _ (mem_searches_of_content hq)
  have hThere := hNumbers.bins s hGet _ (mem_searches_of_content hq')
  rw [← hId] at hThere
  exact Searcher.eq_of_pvname_eq hInv.names hq hq' (hHere.unique (hLen.trans hFew) hThere)

/-- The `k`-th searcher has given out `n` ids. -/
def Counted (k n : ℕ) (d : Dispatcher) : Prop :=
  ∀ s, d.caSearchers[k]? = some s → s.chanId = UInt32.ofNat n

/-- The id is one of the first `n`. -/
def Given (n : ℕ) (chanId : UInt32) : Prop := ∃ i < n, chanId = UInt32.ofNat i

/-- No PV of the `k`-th searcher has the id. -/
def Without (k : ℕ) (chanId : UInt32) (d : Dispatcher) : Prop :=
  ∀ s, d.caSearchers[k]? = some s → ∀ r ∈ s.searches, r.1 ≠ chanId

/-- A client's search may give out one more id; no other step does. -/
theorem counted_step (hInv : ∀ s ∈ d.caSearchers, s.Inv) (h : Counted k n d)
    (hStep : d.step e = some (d', o)) :
    ∃ n', n ≤ n' ∧ n' ≤ n + searchCount [(e, o)] ∧ Counted k n' d' ∧
      ∀ s', d'.caSearchers[k]? = some s' → ∃ s, d.caSearchers[k]? = some s ∧
        ∀ r' ∈ s'.searches, (∃ r ∈ s.searches, r.1 = r'.1) ∨ n < n' ∧ r'.1 = UInt32.ofNat n := by
  have hEach := step_changes hInv hStep
  cases hGet' : d'.caSearchers[k]? with
  | none =>
    refine ⟨n, le_rfl, Nat.le_add_right _ _, fun s hGet => ?_, fun s' hGet => ?_⟩
    · rw [hGet'] at hGet
      exact absurd hGet (by simp)
    · exact absurd hGet (by simp)
  | some s' =>
    obtain ⟨s, hGet, hChanges⟩ := getElem?_of_forall₂ hEach hGet'
    have hOnly : ∀ {n' : ℕ}, s'.chanId = UInt32.ofNat n' → Counted k n' d' := by
      intro n' hCounter s₁ hGet₁
      rw [hGet', Option.some.injEq] at hGet₁
      exact hGet₁ ▸ hCounter
    rcases hChanges with ⟨clock, pvname, now, isNew, rfl, hAdd⟩ | ⟨hCounter, hSearches⟩
    · have hOne : searchCount [(.clientSearched clock pvname, o)] = 1 := rfl
      rcases Searcher.step_searches (hInv s (List.mem_of_getElem? hGet))
        (Searcher.step_of_addPV hAdd) with ⟨now', p, -, -, hCounter, -, hNext⟩ |
        ⟨now', p, -, -, hCounter, hNext⟩ | ⟨hOther, -⟩
      · -- a new name
        refine ⟨n + 1, Nat.le_succ n, hOne.symm ▸ le_rfl, hOnly ?_, ?_⟩
        · rw [hCounter, h s hGet, UInt32.ofNat_add]
          rfl
        · intro s₁ hGet₁
          obtain rfl := Option.some.inj hGet₁
          refine ⟨s, hGet, fun r' hr' => ?_⟩
          rw [hNext] at hr'
          rcases Multiset.mem_cons.mp hr' with rfl | hr'
          · exact Or.inr ⟨Nat.lt_succ_self n, h s hGet⟩
          · exact Or.inl ⟨r', hr', rfl⟩
      · -- a name that was there
        refine ⟨n, le_rfl, Nat.le_add_right _ _, hOnly (hCounter.trans (h s hGet)), ?_⟩
        intro s₁ hGet₁
        obtain rfl := Option.some.inj hGet₁
        refine ⟨s, hGet, fun r' hr' => ?_⟩
        rw [hNext] at hr'
        obtain ⟨r, hr, rfl⟩ := Multiset.mem_map.mp hr'
        refine Or.inl ⟨r, hr, ?_⟩
        unfold Searcher.retouch
        split <;> rfl
      · exact absurd rfl (hOther now pvname)
    · refine ⟨n, le_rfl, Nat.le_add_right _ _, hOnly (hCounter.trans (h s hGet)), ?_⟩
      intro s₁ hGet₁
      obtain rfl := Option.some.inj hGet₁
      exact ⟨s, hGet, fun r' hr' => Or.inl ⟨r', Multiset.mem_of_le hSearches hr', rfl⟩⟩

/-- An id of the first `n` is not the next one. -/
theorem Given.ne (h : Given n chanId) (hFew : n < 2 ^ 32) : UInt32.ofNat n ≠ chanId := by
  rintro rfl
  obtain ⟨i, hi, hEq⟩ := h
  have hNat := congrArg UInt32.toNat hEq
  rw [UInt32.toNat_ofNat', UInt32.toNat_ofNat', Nat.mod_eq_of_lt hFew,
    Nat.mod_eq_of_lt (hi.trans hFew)] at hNat
  omega

/-- The id was given out, and no PV has it any more. -/
structure Spent (k n : ℕ) (chanId : UInt32) (d : Dispatcher) : Prop where
  counted : Counted k n d
  given : Given n chanId
  without : Without k chanId d

theorem spent_step (hInv : ∀ s ∈ d.caSearchers, s.Inv) (h : Spent k n chanId d)
    (hStep : d.step e = some (d', o)) (hFew : n + searchCount [(e, o)] ≤ 2 ^ 32) :
    ∃ n', n' ≤ n + searchCount [(e, o)] ∧ Spent k n' chanId d' := by
  obtain ⟨n', hLe, hLe', hCounted, hBefore⟩ := counted_step hInv h.counted hStep
  obtain ⟨i, hi, hId⟩ := h.given
  refine ⟨n', hLe', hCounted, ⟨i, hi.trans_le hLe, hId⟩, fun s' hGet' r' hr' => ?_⟩
  obtain ⟨s, hGet, hEach⟩ := hBefore s' hGet'
  rcases hEach r' hr' with ⟨r, hr, hEq⟩ | ⟨hNew, hEq⟩
  · rw [← hEq]
    exact h.without s hGet r hr
  · rw [hEq]
    exact h.given.ne (by omega)

/-- **An id that was handled stays without a PV**, as long as there are ids left. -/
theorem spent_run (hStatus : Status searchIntervals d) (hRun : Run step d tr d')
    (h : Spent k n chanId d) (hFew : n + searchCount tr ≤ 2 ^ 32) :
    ∃ n', n' ≤ n + searchCount tr ∧ Spent k n' chanId d' := by
  have hEnd := hRun.history (I := fun tr d => n + searchCount tr ≤ 2 ^ 32 →
    Status searchIntervals d ∧ ∃ n', n' ≤ n + searchCount tr ∧ Spent k n' chanId d) ?_
    fun _ => ⟨hStatus, n, le_rfl, h⟩
  · exact (hEnd hFew).2
  · intro pre d e d' o hBefore hStep hFew
    rw [searchCount_append] at hFew ⊢
    obtain ⟨hStatus, n₁, hLe, hSpent⟩ := hBefore (by omega)
    obtain ⟨n', hLe', hSpent'⟩ :=
      spent_step hStatus.invs hSpent hStep (by omega)
    exact ⟨status_step hStatus hStep, n', by omega, hSpent'⟩

-- ---------------------------------------------------------------------------
-- Responses
-- ---------------------------------------------------------------------------

/-- The lookup comes to the bin of the PV with the id, if there is one. -/
def Looks (s : Searcher) (chanId : UInt32) : Prop :=
  ∀ q ∈ s.content, q.2.chanId = chanId → q.1 ∈ s.scanOrder

/-- It comes to every bin, but where it begins one too early. -/
theorem looks_of_hand {s : Searcher} (hInv : s.Inv)
    (hHand : s.currentBin = 0 → s.searchedPvs.length ∣ 2 ^ 64) (chanId : UInt32) :
    Looks s chanId := by
  intro q hq _
  have hLt := Searcher.lt_of_mem_content hq
  have hCur := hInv.bin_lt (by omega)
  exact (Searcher.mem_scanOrder hInv.bins_lt hCur).mpr ⟨hLt, fun h0 hDvd => absurd (hHand h0) hDvd⟩

theorem looks_of_le {s s' : Searcher} (h : Looks s chanId) (hCur : s'.currentBin = s.currentBin)
    (hLen : s'.searchedPvs.length = s.searchedPvs.length) (hLe : s'.content ≤ s.content) :
    Looks s' chanId := by
  intro q hq hId
  have hOrder : s'.scanOrder = s.scanOrder := by
    unfold Searcher.scanOrder Searcher.scanIndex
    rw [hCur, hLen]
  rw [hOrder]
  exact h q (Multiset.mem_of_le hLe hq) hId

/-- What a response takes from its searcher. -/
theorem response_searcher {iocIp : Bytes} {iocPort : UInt16} {response : UInt32 × Bytes}
    {opening : Opening} {now : Int}
    (hStep : d.step (.response k iocIp iocPort response opening now) = some (d', o)) :
    ∃ s, d.caSearchers[k]? = some s ∧ ((s.takeFound response.1 = none ∧ d' = d) ∨
      ∃ pv s₁ s', s.takeFound response.1 = some (pv, s₁) ∧ d'.caSearchers[k]? = some s' ∧
        (s' = s₁ ∨ ∃ name, s' = s₁.removePV name)) := by
  cases hGet : d.caSearchers[k]? with
  | none => simp [step, hGet] at hStep
  | some s =>
    refine ⟨s, rfl, ?_⟩
    have hk := (List.getElem?_eq_some_iff.mp hGet).1
    cases hTake : s.takeFound response.1 with
    | none =>
      simp only [step, hGet, hTake, Option.some.injEq, Prod.mk.injEq] at hStep
      exact Or.inl ⟨rfl, hStep.1.symm⟩
    | some r =>
      obtain ⟨pv, s₁⟩ := r
      simp only [step, hGet, hTake, Option.some.injEq, Prod.mk.injEq] at hStep
      obtain ⟨hD, -⟩ := hStep
      rcases caPvFound_cases { d with caSearchers := d.caSearchers.set k s₁ } opening now
          ⟨pv.pvname, iocIp, iocPort,
            (ChannelAccess.updateSearchReplyAddr response.2 iocIp iocPort).1⟩ with
        hNone | ⟨d₁, g, -, hSome⟩
      · rw [hNone] at hD
        exact Or.inr ⟨pv, s₁, s₁, rfl, by rw [← hD]; exact List.getElem?_set_self hk, Or.inl rfl⟩
      · rw [hSome] at hD
        refine Or.inr ⟨pv, s₁, s₁.removePV pv.pvname, rfl, ?_, Or.inr ⟨_, rfl⟩⟩
        rw [← hD]
        simp only [List.getElem?_map, List.getElem?_set_self hk, Option.map_some]

/-- The searcher of a response looks on as before, at fewer PVs; and if it
looked for the id, no PV has it any more. -/
theorem without_of_response (hInit : Init searchIntervals d₀) (hRun : Run step d₀ tr d)
    (hFew : searchCount tr ≤ 2 ^ 32) {iocIp : Bytes} {iocPort : UInt16}
    {response : UInt32 × Bytes} {opening : Opening} {now : Int}
    (hStep : d.step (.response k iocIp iocPort response opening now) = some (d', o)) :
    ∃ s s', d.caSearchers[k]? = some s ∧ d'.caSearchers[k]? = some s' ∧
      (∀ chanId, Looks s chanId → Looks s' chanId) ∧
      (Looks s response.1 → Without k response.1 d') := by
  obtain ⟨s, hGet, ⟨hTake, rfl⟩ | ⟨pv, s₁, s', hTake, hGet', hEnd⟩⟩ := response_searcher hStep
  · refine ⟨s, s, hGet, hGet, fun _ h => h, fun hLooks s₁ hGet₁ r hr hId => ?_⟩
    obtain rfl := Option.some.inj (hGet.symm.trans hGet₁)
    obtain ⟨q, hq, rfl⟩ := Multiset.mem_map.mp hr
    refine Searcher.findPv_ne_none (hLooks q hq hId) hq hId ?_
    unfold Searcher.takeFound at hTake
    split at hTake
    · assumption
    · exact absurd hTake (by simp)
  · have hInv := ((status_run hRun (status_of_init hInit)).searchers s
      (List.mem_of_getElem? hGet)).inv
    obtain ⟨hId, hRest, hLen, b, hContent⟩ := Searcher.takeFound_eq_some hTake
    -- the other PVs have other ids
    have hOthers : ∀ q ∈ s₁.content, q.2.chanId ≠ response.1 := by
      intro q hq hEq
      have hMem : q ∈ s.content := by
        rw [hContent]
        exact Multiset.mem_cons_of_mem hq
      have hTaken : (b, pv) ∈ s.content := by
        rw [hContent]
        exact Multiset.mem_cons_self _ _
      have hNames := hInv.names
      rw [hContent, Multiset.map_cons, Multiset.nodup_cons] at hNames
      obtain rfl := ids_distinct hInit hRun hFew hGet hMem hTaken (hEq.trans hId.symm)
      exact hNames.1 (Multiset.mem_map_of_mem (fun q : ℕ × SearchedPV => q.2.pvname) hq)
    have hInv₁ := Searcher.inv_takeFound hInv hTake
    have hLess : s'.content ≤ s₁.content ∧ s'.currentBin = s₁.currentBin ∧
        s'.searchedPvs.length = s₁.searchedPvs.length := by
      rcases hEnd with rfl | ⟨name, rfl⟩
      · exact ⟨le_rfl, rfl, rfl⟩
      · exact ⟨Searcher.removePV_le hInv₁ name, rfl, Searcher.length_removePV s₁ name⟩
    refine ⟨s, s', hGet, hGet', fun chanId hLooks => ?_, fun _ s₂ hGet₂ r hr hEq => ?_⟩
    · refine looks_of_le hLooks (hLess.2.1.trans ?_) (hLess.2.2.trans hLen)
        (hLess.1.trans (Searcher.takeFound_le hTake))
      rw [hRest]
    · obtain rfl := Option.some.inj (hGet'.symm.trans hGet₂)
      obtain ⟨q, hq, rfl⟩ := Multiset.mem_map.mp hr
      exact hOthers q (Multiset.mem_of_le hLess.1 hq) hEq

/-- No response for an id without a PV is of any effect. -/
theorem response_of_without (hWithout : Without k chanId d) {iocIp : Bytes} {iocPort : UInt16}
    {payload : Bytes} {opening : Opening} {now : Int}
    (hStep : d.step (.response k iocIp iocPort (chanId, payload) opening now) = some (d', o)) :
    d' = d := by
  obtain ⟨s, hGet, ⟨-, rfl⟩ | ⟨pv, s₁, -, hTake, -⟩⟩ := response_searcher hStep
  · rfl
  · obtain ⟨hId, -, -, b, hContent⟩ := Searcher.takeFound_eq_some hTake
    have hMem : (b, pv) ∈ s.content := by
      rw [hContent]
      exact Multiset.mem_cons_self _ _
    exact absurd hId (hWithout s hGet _ (mem_searches_of_content hMem))

/-- Only a client's search gives an id to a PV. -/
theorem without_step (hInv : ∀ s ∈ d.caSearchers, s.Inv) (hStep : d.step e = some (d', o))
    (hOther : ∀ clock pvname, e ≠ .clientSearched clock pvname) (h : Without k chanId d) :
    Without k chanId d' := by
  intro s' hGet' r hr
  obtain ⟨s, hGet, hChanges⟩ := getElem?_of_forall₂ (step_changes hInv hStep) hGet'
  rcases hChanges with ⟨clock, pvname, now, isNew, hEq, -⟩ | ⟨-, hSearches⟩
  · exact absurd hEq (hOther clock pvname)
  · exact h s hGet r (Multiset.mem_of_le hSearches hr)

end Dispatcher

namespace Network

open Runs (Run)
open Dispatcher (Looks Without)

variable {ρ : Type*} {regexMatch : ρ → Bytes → Bool} {listeners : List (Listener ρ)}
  {d d' d₀ d₁ d₂ : Dispatcher} {searchIntervals : List UInt32} {k : ℕ} {p p' : Datagram}
  {responses : List (UInt32 × Bytes)} {block : List (Dispatcher.Event × Dispatcher.Output)}

-- ---------------------------------------------------------------------------
-- Datagrams
-- ---------------------------------------------------------------------------

/-- No response searches for a client. -/
theorem searchCount_responses (hEvents : List.Forall₂ (IsResponse k p) block responses) :
    Dispatcher.searchCount block = 0 := by
  refine List.countP_eq_zero.mpr fun y hy => ?_
  obtain ⟨response, -, opening, now, f, rfl⟩ := Dispatcher.exists_of_mem_forall₂ hEvents.flip hy
  exact Bool.false_ne_true

theorem without_of_responses {c : UInt32} (hStatus : Dispatcher.Status searchIntervals d)
    (hEvents : List.Forall₂ (IsResponse k p) block responses)
    (hBlock : Run Dispatcher.step d block d')
    (h : Without k c d) : Without k c d' := by
  refine (hBlock.invariant_of_mem
    (I := fun d => Dispatcher.Status searchIntervals d ∧ Without k c d) ?_ ⟨hStatus, h⟩).2
  rintro d e d' o hMem ⟨hStatus, h⟩ hStep
  refine ⟨Dispatcher.status_step hStatus hStep, Dispatcher.without_step
    hStatus.invs hStep (fun clock pvname hEq => ?_) h⟩
  obtain ⟨response, -, opening, now, f, hEvent⟩ :=
    Dispatcher.exists_of_mem_forall₂ hEvents.flip hMem
  rw [hEq] at hEvent
  exact absurd hEvent (by simp)

/-- Once a datagram is handled, no PV of its searcher has one of its ids. -/
theorem without_of_datagram (hInit : Dispatcher.Init searchIntervals d₀)
    {tr : List (Dispatcher.Event × Dispatcher.Output)} (hRun : Run Dispatcher.step d₀ tr d)
    (hFew : Dispatcher.searchCount tr ≤ 2 ^ 32)
    (hEvents : List.Forall₂ (IsResponse k p) block responses)
    (hBlock : Run Dispatcher.step d block d')
    (hLooks : ∀ s, d.caSearchers[k]? = some s → ∀ r ∈ responses, Looks s r.1) :
    ∀ r ∈ responses, Without k r.1 d' := by
  -- by induction on the responses, from any state of a run
  induction hEvents generalizing tr d with
  | nil => exact fun r hr => absurd hr List.not_mem_nil
  | @cons x response block responses hx hRest ih =>
    obtain ⟨opening, now, f, rfl⟩ := hx
    obtain ⟨d₁, hStep, hBlock'⟩ := Runs.run_cons_iff.mp hBlock
    obtain ⟨s, s', hGet, hGet', hStill, hGone⟩ :=
      Dispatcher.without_of_response hInit hRun hFew hStep
    have hRun₁ := hRun.append (Run.single hStep)
    have hStatus := Dispatcher.status_run hRun₁ (Dispatcher.status_of_init hInit)
    have hNext := ih hRun₁ (by rwa [Dispatcher.searchCount_append]) hBlock' fun s₁ hGet₁ r hr => by
      obtain rfl := Option.some.inj (hGet'.symm.trans hGet₁)
      exact hStill r.1 (hLooks s hGet r (List.mem_cons_of_mem _ hr))
    intro r hr
    rcases List.mem_cons.mp hr with rfl | hr
    · exact without_of_responses hStatus hRest hBlock' (hGone (hLooks s hGet r List.mem_cons_self))
    · exact hNext r hr

/-- A datagram with ids no PV has is of no effect. -/
theorem datagram_of_without (hEvents : List.Forall₂ (IsResponse k p) block responses)
    (hBlock : Run Dispatcher.step d block d') (h : ∀ r ∈ responses, Without k r.1 d) : d' = d := by
  induction hEvents generalizing d with
  | nil =>
    cases hBlock
    rfl
  | @cons x response block responses hx _ ih =>
    obtain ⟨opening, now, f, rfl⟩ := hx
    obtain ⟨d₁, hStep, hBlock'⟩ := Runs.run_cons_iff.mp hBlock
    obtain rfl := Dispatcher.response_of_without (h response List.mem_cons_self) hStep
    exact ih hBlock' fun r hr => h r (List.mem_cons_of_mem _ hr)

/-- **A datagram that comes again is of no effect.** A searcher gets a datagram
with ids it has sent out, and looks for their PVs where they are. Whatever
happens then, in any order: a datagram that has no other ids changes nothing,
whoever sends it and whatever else it says, as long as there are ids left. -/
theorem replay_ignored (hInit : Dispatcher.Init searchIntervals d₀)
    {pre mid : List (Event × Output)} {o : Output}
    (hBefore : Run (step regexMatch listeners) d₀ pre d)
    (hSent : ∀ r ∈ ChannelAccess.parseSearchResponse p.buffer, ∃ pvname,
      (r.1, pvname) ∈ (packetsSent k pre).flatMap Packet.pvs)
    (hFirst : step regexMatch listeners d (.iocDatagram k p) = some (d₁, o))
    (hLooks : ∀ s, d.caSearchers[k]? = some s →
      ∀ r ∈ ChannelAccess.parseSearchResponse p.buffer, Looks s r.1)
    (hMid : Run (step regexMatch listeners) d₁ mid d₂)
    (hFew : requestCount regexMatch listeners (pre ++ mid) ≤ 2 ^ 32)
    (hAgain : ∀ r' ∈ ChannelAccess.parseSearchResponse p'.buffer,
      ∃ r ∈ ChannelAccess.parseSearchResponse p.buffer, r'.1 = r.1) :
    step regexMatch listeners d₂ (.iocDatagram k p') = some (d₂, .received) := by
  obtain ⟨preBlocks, hPre, hRun⟩ := exists_blocks hBefore
  obtain ⟨midBlocks, hMidAll, hRunMid⟩ := exists_blocks hMid
  obtain ⟨block, hBlock, hExplains⟩ := run_of_step hFirst
  have hEvents : List.Forall₂ (IsResponse k p) block
      (ChannelAccess.parseSearchResponse p.buffer) := by
    cases hExplains with
    | ioc hEvents => exact hEvents
  have hCount : requestCount regexMatch listeners (pre ++ mid) =
      Dispatcher.searchCount preBlocks.flatten + Dispatcher.searchCount midBlocks.flatten := by
    rw [searchCount_flatten hPre, searchCount_flatten hMidAll, requestCount, requestCount,
      requestCount, List.flatMap_append, List.length_append]
  have hCountBlock : Dispatcher.searchCount (preBlocks.flatten ++ block) =
      Dispatcher.searchCount preBlocks.flatten := by
    rw [Dispatcher.searchCount_append, searchCount_responses hEvents, Nat.add_zero]
  have hGone := without_of_datagram hInit hRun (by omega) hEvents hBlock hLooks
  -- the ids were given out, so none is given out again
  obtain ⟨names, hLen, hNumbers⟩ := Dispatcher.numbers_run hInit (hRun.append hBlock) k
  have hStatus := Dispatcher.status_run (hRun.append hBlock) (Dispatcher.status_of_init hInit)
  have hStill : ∀ r ∈ ChannelAccess.parseSearchResponse p.buffer, Without k r.1 d₂ := by
    intro r hr
    obtain ⟨pvname, hIn⟩ := hSent r hr
    rw [← sentBy_flatten hPre] at hIn
    have hIn' : (r.1, pvname) ∈ Dispatcher.sentBy k (preBlocks.flatten ++ block) := by
      rw [Dispatcher.sentBy, List.flatMap_append]
      exact List.mem_append_left _ hIn
    obtain ⟨i, hGet, hId⟩ := hNumbers.sent _ hIn'
    have hSpent : Dispatcher.Spent k names.length r.1 d₁ :=
      ⟨hNumbers.counter, ⟨i, (List.getElem?_eq_some_iff.mp hGet).1, hId⟩, hGone r hr⟩
    obtain ⟨_, _, hEnd⟩ := Dispatcher.spent_run hStatus hRunMid hSpent (by omega)
    exact hEnd.without
  -- the second datagram
  have hLast : k < d₂.caSearchers.length := by
    obtain ⟨s, hGet⟩ : ∃ s, d.caSearchers[k]? = some s := by
      rcases step_cases hFirst with ⟨_, _, _, _, hEq, -⟩ | ⟨_, _, s, hEq, -, hGet, -⟩ |
        ⟨_, _, hEq, -⟩
      · exact absurd hEq (by simp)
      · obtain ⟨rfl, -⟩ := Event.iocDatagram.inj hEq
        exact ⟨s, hGet⟩
      · exact absurd hEq (by simp)
    have hLen := (hBlock.append hRunMid).invariant
      (I := fun d₁ => d₁.caSearchers.length = d.caSearchers.length)
      (fun _ _ _ _ h hStep => (Dispatcher.length_caSearchers_step hStep).trans h) rfl
    rw [hLen]
    exact (List.getElem?_eq_some_iff.mp hGet).1
  obtain ⟨block', hBlock', hEvents'⟩ := run_of_ioc hLast (d₂.caSearchers[k]) p'
  have hSame := datagram_of_without hEvents' hBlock' fun r' hr' => by
    obtain ⟨r, hr, hEq⟩ := hAgain r' hr'
    exact hEq ▸ hStill r hr
  simp only [step, List.getElem?_eq_getElem hLast, hSame]

/-- An answer that comes twice, with another client's request in between. -/
theorem replay_ignored_discovery :
    ∃ d₀ d₁ d₂,
      Run (step noMatch [openListener]) Dispatcher.oneSearcher (discoveryTrace.take 2) d₀ ∧
      step noMatch [openListener] d₀ (.iocDatagram 0 (answer 1200000000)) = some (d₁, .received) ∧
      Run (step noMatch [openListener]) d₁ (discoveryTrace.drop 3) d₂ ∧
      step noMatch [openListener] d₂ (.iocDatagram 0 (answer 1400000000)) =
        some (d₂, .received) := by
  -- after the tick the hand is at bin 1
  have hTick : (Runs.exec (step noMatch [openListener]) Dispatcher.oneSearcher
      (discovery.take 2)).map
        (fun r => (r.1.map Prod.snd, r.2.caSearchers.map Searcher.currentBin)) =
      some ([.replies [], .called (.sent 0 [requestPacket])], [1]) := by
    decide +kernel
  obtain ⟨d, hBefore, hHand⟩ := Runs.exists_run_of_view
    (fun d : Dispatcher => d.caSearchers.map Searcher.currentBin) _ hTick
  obtain ⟨d', d₃, hBefore', hRest⟩ := run_discovery 2
  obtain rfl := hBefore.unique hBefore'
  obtain ⟨d₁, hFirst, hMid⟩ := Runs.run_cons_iff.mp hRest
  refine ⟨d, d₁, d₃, hBefore, hFirst, hMid, replay_ignored Dispatcher.init_oneSearcher hBefore ?_
    hFirst ?_ hMid (by decide +kernel) fun r hr => ⟨r, hr, rfl⟩⟩
  · have hParse : ChannelAccess.parseSearchResponse (answer 1200000000).buffer =
        [(0, (answer 1200000000).buffer)] := by decide +kernel
    intro r hr
    rw [hParse, List.mem_singleton] at hr
    subst hr
    exact ⟨[chr 'A'], by simp [packetsSent, packetsOf, requestPacket, discovery]⟩
  · intro s hGet r _
    obtain ⟨blocks, -, hRun⟩ := exists_blocks hBefore
    have hStatus := Dispatcher.status_run hRun
      (Dispatcher.status_of_init Dispatcher.init_oneSearcher)
    have hBin : s.currentBin = 1 := by
      have hMem := List.mem_map_of_mem (f := Searcher.currentBin) (List.mem_of_getElem? hGet)
      rw [hHand] at hMem
      exact List.mem_singleton.mp hMem
    exact Dispatcher.looks_of_hand (hStatus.invs s (List.mem_of_getElem? hGet))
      (by simp [hBin]) r.1

end Network

end PVmapper
