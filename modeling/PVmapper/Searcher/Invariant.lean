import PVmapper.Searcher.Content

/-!
# PVmapper — the searcher invariant over whole runs

`Inv` holds of a freshly constructed searcher and every operation keeps it,
so it holds of every reachable state (`Reachable.inv`): names are unique,
`m_currentBin` is in range when there are bins at all, and what is left of a
PV's intervals is a non-empty end of the searcher's list.

`Searched s pvname` says that a name is in the bins.
-/

namespace PVmapper

namespace Searcher

variable {s s' : Searcher}

/-- A name is in one of the bins. -/
def Searched (s : Searcher) (pvname : Bytes) : Prop := ∃ q ∈ s.content, q.2.pvname = pvname

/-- How an operation that drops or changes PVs keeps the invariant: no new
names, and intervals only shrink. -/
theorem Inv.mono (h : Inv s) (hLen : s'.searchedPvs.length = s.searchedPvs.length)
    (hCur : s'.searchedPvs.length ≠ 0 → s'.currentBin < s'.searchedPvs.length)
    (hList : s'.searchIntervals = s.searchIntervals)
    (hNames : s'.content.map (·.2.pvname) ≤ s.content.map (·.2.pvname))
    (hIntervals : ∀ q' ∈ s'.content, ∃ q ∈ s.content,
      q'.2.intervals ≠ [] ∧ q'.2.intervals <:+ q.2.intervals) : Inv s' where
  bins_lt := hLen ▸ h.bins_lt
  bin_lt := hCur
  names := Multiset.nodup_of_le hNames h.names
  intervals := by
    intro q' hq'
    obtain ⟨q, hq, hne, hSuffix⟩ := hIntervals q' hq'
    rw [hList]
    exact ⟨hne, hSuffix.trans (h.intervals q hq).2⟩
  intervals_ne := hList ▸ h.intervals_ne

-- ---------------------------------------------------------------------------
-- One operation
-- ---------------------------------------------------------------------------

@[simp] theorem content_fresh (sock : Int) (addr : Address) (searchIntervals : List UInt32)
    (now : Int) : (fresh sock addr searchIntervals now).content = 0 :=
  Slots.content_replicate_nil _

/-- A constructor that does not throw got a socket and leaves `fresh`. -/
theorem create_eq_some {sock : Int} {addr : Address} {searchIntervals : List UInt32} {now : Int}
    (h : create sock addr searchIntervals now = some s) :
    0 ≤ sock ∧ s = fresh sock addr searchIntervals now := by
  unfold create at h
  split at h
  · exact absurd h (by simp)
  · next hBad =>
    rw [Option.some.injEq] at h
    exact ⟨by omega, h.symm⟩

/-- A fresh searcher searches for nothing. -/
theorem content_of_init {searchIntervals : List UInt32} (h : Init searchIntervals s) :
    s.content = 0 := by
  obtain ⟨sock, addr, now, hCreate⟩ := h
  rw [(create_eq_some hCreate).2, content_fresh]

/-- A fresh searcher has nothing in its bins. -/
theorem inv_fresh (sock : Int) (addr : Address) (searchIntervals : List UInt32) (now : Int) :
    Inv (fresh sock addr searchIntervals now) := by
  refine ⟨?_, ?_, by simp, by simp, by simp [fresh, scheduleIntervals]⟩
  · simpa [fresh] using (maxInterval searchIntervals).toNat_lt
  · intro hne
    exact Nat.pos_of_ne_zero hne

/-- What a constructor leaves satisfies the invariant. -/
theorem inv_of_init {searchIntervals : List UInt32} (h : Init searchIntervals s) : Inv s := by
  obtain ⟨sock, addr, now, hCreate⟩ := h
  rw [(create_eq_some hCreate).2]
  exact inv_fresh sock addr searchIntervals now

/-- Another request changes no name. -/
@[simp] theorem touch_pvname (now : Int) (pvname : Bytes) (q : ℕ × SearchedPV) :
    (touch now pvname q).2.pvname = q.2.pvname := by
  unfold touch
  split <;> rfl

/-- Another request changes no intervals. -/
@[simp] theorem touch_intervals (now : Int) (pvname : Bytes) (q : ℕ × SearchedPV) :
    (touch now pvname q).2.intervals = q.2.intervals := by
  unfold touch
  split <;> rfl

/-- A new PV goes into the current bin with the full list of intervals; an old
one is only touched. -/
theorem inv_addPV (h : Inv s) {now : Int} {pvname : Bytes} {isNew : Bool}
    (hAdd : s.addPV now pvname = some (s', isNew)) : Inv s' := by
  rcases addPV_eq_some h.names hAdd with ⟨-, hFresh, hBin, hs', hContent⟩ | ⟨-, -, hs', hLen, hContent⟩
  · have hLen : s'.searchedPvs.length = s.searchedPvs.length := by
      rw [hs']
      exact List.length_modify ..
    -- a new PV: its name was not in the bins, its intervals are all of them
    refine ⟨hLen ▸ h.bins_lt, fun _ => ?_, ?_, ?_, ?_⟩
    · rw [hLen, hs']
      exact hBin
    · rw [hContent, Multiset.map_cons, Multiset.nodup_cons]
      refine ⟨fun hMem => ?_, h.names⟩
      obtain ⟨q, hq, hName⟩ := Multiset.mem_map.mp hMem
      exact hFresh q hq hName
    · intro q hq
      rw [hContent] at hq
      have hList : s'.searchIntervals = s.searchIntervals := by rw [hs']
      rw [hList]
      rcases Multiset.mem_cons.mp hq with rfl | hq
      · exact ⟨h.intervals_ne, List.suffix_rfl⟩
      · exact h.intervals q hq
    · rw [hs']
      exact h.intervals_ne
  -- asked for again: names and intervals stay
  · refine h.mono hLen (fun hne => ?_) (by rw [hs']) ?_ ?_
    · rw [hLen] at hne ⊢
      rw [hs']
      exact h.bin_lt hne
    · rw [hContent, Multiset.map_map]
      simp
    · intro q' hq'
      rw [hContent] at hq'
      obtain ⟨q, hq, rfl⟩ := Multiset.mem_map.mp hq'
      exact ⟨q, hq, by simpa using (h.intervals q hq).1, by simp⟩

/-- Dropping PVs from the bins keeps the invariant. -/
theorem inv_of_content_le (h : Inv s) (hs' : s' = { s with searchedPvs := s'.searchedPvs })
    (hLen : s'.searchedPvs.length = s.searchedPvs.length) (hContent : s'.content ≤ s.content) :
    Inv s' := by
  refine h.mono hLen (fun hne => ?_) (by rw [hs']) (Multiset.map_le_map hContent) ?_
  · rw [hLen] at hne ⊢
    rw [hs']
    exact h.bin_lt hne
  · intro q hq
    have hq' := Multiset.mem_of_le hContent hq
    exact ⟨q, hq', (h.intervals q hq').1, List.suffix_rfl⟩

/-- Removing a PV only drops entries. -/
theorem inv_removePV (h : Inv s) (pvname : Bytes) : Inv (s.removePV pvname) := by
  refine inv_of_content_le h rfl (length_removePV s pvname) ?_
  rw [content_removePV h.names]
  exact Multiset.filter_le _ _

/-- A response only drops an entry. -/
theorem inv_takeFound (h : Inv s) {chanId : UInt32} {pv : SearchedPV}
    (hTake : s.takeFound chanId = some (pv, s')) : Inv s' := by
  obtain ⟨-, hs', hLen, b, hContent⟩ := takeFound_eq_some hTake
  refine inv_of_content_le h hs' hLen ?_
  rw [hContent]
  exact Multiset.le_cons_self _ _

/-- A tick moves PVs to bins that exist and leaves them a suffix of the intervals. -/
theorem inv_tick (h : Inv s) {packets : List Packet} (hTick : s.tick = some (s', packets)) :
    Inv s' := by
  obtain ⟨hCur, hs', hLen, hContent, -⟩ := tick_eq_some hTick
  refine h.mono hLen (fun _ => ?_) (by rw [hs']) ?_ ?_
  · rw [hLen, hs']
    exact Nat.mod_lt _ (by omega)
  · rw [hContent, Multiset.map_map]
    simp
  · intro q' hq'
    rw [hContent] at hq'
    obtain ⟨q, hq, rfl⟩ := Multiset.mem_map.mp hq'
    have hne := (h.intervals q hq).1
    refine ⟨q, hq, ?_⟩
    unfold advance
    split
    · -- a due PV loses its first interval, unless it is the last one
      unfold reschedule
      split
      · next d d' ds hEq =>
        rw [hEq]
        exact ⟨by simp, List.suffix_cons d (d' :: ds)⟩
      · exact ⟨hne, List.suffix_rfl⟩
    · exact ⟨hne, List.suffix_rfl⟩

/-- A purge deals what it keeps to bins that exist. -/
theorem inv_purgePVs (h : Inv s) {clock : SearchedPV → Int} {maxtime : ℕ}
    {nPurged nSearching : UInt32}
    (hPurge : s.purgePVs clock maxtime = some (s', nPurged, nSearching)) : Inv s' := by
  obtain ⟨hBins, hs', hLen, hContent⟩ := purgePVs_eq_some hPurge
  -- forgetting the bins, a purge only drops PVs
  have hLe : s'.content.map Prod.snd ≤ s.content.map Prod.snd := by
    rw [hContent]
    exact Multiset.filter_le _ _
  refine h.mono hLen (fun hne => ?_) (by rw [hs']) ?_ ?_
  · rw [hs']
    exact Nat.pos_of_ne_zero hne
  · have := Multiset.map_le_map (f := SearchedPV.pvname) hLe
    simpa only [Multiset.map_map, Function.comp_def] using this
  · intro q' hq'
    have hMem := Multiset.mem_of_le hLe (Multiset.mem_map_of_mem Prod.snd hq')
    obtain ⟨q, hq, hEq⟩ := Multiset.mem_map.mp hMem
    rw [← hEq]
    exact ⟨q, hq, (h.intervals q hq).1, List.suffix_rfl⟩

-- ---------------------------------------------------------------------------
-- Whole runs
-- ---------------------------------------------------------------------------

/-- Every step keeps the invariant. -/
theorem inv_step (h : Inv s) {e : Event} {o : Output} (hStep : s.step e = some (s', o)) : Inv s' := by
  cases e with
  | addPV now pvname =>
    obtain ⟨isNew, hAdd, -⟩ := step_addPV hStep
    exact inv_addPV h hAdd
  | removePV pvname =>
    obtain ⟨rfl, -⟩ := step_removePV hStep
    exact inv_removePV h pvname
  | response chanId accepted =>
    rcases step_response hStep with ⟨-, rfl, -⟩ | ⟨pv, s₁, hTake, rfl, -⟩
    · exact h
    · have h₁ := inv_takeFound h hTake
      split
      · exact inv_removePV h₁ pv.pvname
      · exact h₁
  | outgoing now =>
    rcases step_outgoing hStep with ⟨-, rfl, -⟩ | ⟨-, packets, hTick, -⟩
    · exact h
    · exact inv_tick h hTick
  | purge clock maxtime =>
    obtain ⟨nPurged, nSearching, hPurge, -⟩ := step_purge hStep
    exact inv_purgePVs h hPurge

/-- What no step changes: the socket, the intervals, the number of bins, and
`m_lastSearch`. -/
structure SameFrame (s s' : Searcher) : Prop where
  sock : s'.sock = s.sock
  addr : s'.addr = s.addr
  searchIntervals : s'.searchIntervals = s.searchIntervals
  length : s'.searchedPvs.length = s.searchedPvs.length
  lastSearch : s'.lastSearch = s.lastSearch

theorem SameFrame.refl (s : Searcher) : SameFrame s s := ⟨rfl, rfl, rfl, rfl, rfl⟩

theorem SameFrame.trans {s'' : Searcher} (h : SameFrame s s') (h' : SameFrame s' s'') :
    SameFrame s s'' :=
  ⟨h'.sock.trans h.sock, h'.addr.trans h.addr, h'.searchIntervals.trans h.searchIntervals,
    h'.length.trans h.length, h'.lastSearch.trans h.lastSearch⟩

/-- No operation replaces the socket, the address, the intervals or the number
of bins. -/
theorem sameFrame_step (h : Inv s) {e : Event} {o : Output} (hStep : s.step e = some (s', o)) :
    SameFrame s s' := by
  cases e with
  | addPV now pvname =>
    obtain ⟨isNew, hAdd, -⟩ := step_addPV hStep
    rcases addPV_eq_some h.names hAdd with ⟨-, -, -, hs', -⟩ | ⟨-, -, hs', hLen, -⟩
    · rw [hs']
      exact ⟨rfl, rfl, rfl, List.length_modify .., rfl⟩
    · rw [hs']
      exact ⟨rfl, rfl, rfl, hLen, rfl⟩
  | removePV pvname =>
    obtain ⟨rfl, -⟩ := step_removePV hStep
    exact ⟨rfl, rfl, rfl, length_removePV s pvname, rfl⟩
  | response chanId accepted =>
    rcases step_response hStep with ⟨-, rfl, -⟩ | ⟨pv, s₁, hTake, rfl, -⟩
    · exact SameFrame.refl s'
    · obtain ⟨-, hs₁, hLen, -⟩ := takeFound_eq_some hTake
      have h₁ : SameFrame s s₁ := by
        rw [hs₁]
        exact ⟨rfl, rfl, rfl, hLen, rfl⟩
      split
      · exact h₁.trans ⟨rfl, rfl, rfl, length_removePV s₁ pv.pvname, rfl⟩
      · exact h₁
  | outgoing now =>
    rcases step_outgoing hStep with ⟨-, rfl, -⟩ | ⟨-, packets, hTick, -⟩
    · exact SameFrame.refl s'
    · obtain ⟨-, hs', hLen, -⟩ := tick_eq_some hTick
      rw [hs']
      exact ⟨rfl, rfl, rfl, hLen, rfl⟩
  | purge clock maxtime =>
    obtain ⟨nPurged, nSearching, hPurge, -⟩ := step_purge hStep
    obtain ⟨-, hs', hLen, -⟩ := purgePVs_eq_some hPurge
    rw [hs']
    exact ⟨rfl, rfl, rfl, hLen, rfl⟩

/-- **Representation invariant.** It holds of every reachable searcher. -/
theorem Reachable.inv {searchIntervals : List UInt32} (h : Reachable searchIntervals s) : Inv s :=
  Runs.Reachable.invariant (fun _ => inv_of_init) (fun _ _ _ _ hInv => inv_step hInv) h

/-- Nor does a run. -/
theorem sameFrame_run {tr : List (Event × Output)} (hRun : Runs.Run step s tr s') (h : Inv s) :
    SameFrame s s' := by
  -- the frame of a step needs the invariant, so the two go together
  have hBoth : Inv s' ∧ SameFrame s s' :=
    hRun.invariant (I := fun s' => Inv s' ∧ SameFrame s s')
      (fun _ _ _ _ hI hStep => ⟨inv_step hI.1 hStep, hI.2.trans (sameFrame_step hI.1 hStep)⟩)
      ⟨h, SameFrame.refl s⟩
  exact hBoth.2

/-- A reachable searcher has the intervals and the bins it was built with. -/
theorem Reachable.frame {searchIntervals : List UInt32} (h : Reachable searchIntervals s) :
    s.searchIntervals = scheduleIntervals searchIntervals ∧
      s.searchedPvs.length = (maxInterval searchIntervals).toNat := by
  obtain ⟨s₀, tr, hInit, hRun⟩ := h
  have hFrame := sameFrame_run hRun (inv_of_init hInit)
  obtain ⟨sock, addr, now, hCreate⟩ := hInit
  have hs₀ := (create_eq_some hCreate).2
  rw [hFrame.searchIntervals, hFrame.length, hs₀]
  exact ⟨rfl, List.length_replicate⟩

/-- A searcher with ten bins, for concrete runs. -/
def tenBins : Searcher := fresh 3 (inetNtop ⟨10, 0, 0, 255⟩, 5064) [1] 0

theorem init_tenBins : Init [1] tenBins :=
  ⟨3, (inetNtop ⟨10, 0, 0, 255⟩, 5064), 0, by decide +kernel⟩

theorem tenBins_reachable : Reachable [1] tenBins := Runs.Reachable.of_init init_tenBins

end Searcher

end PVmapper
