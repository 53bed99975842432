import PVmapper.Searcher.Entries
import PVmapper.Searcher.Lookup
import PVmapper.Searcher.Schedule

/-!
# PVmapper — a PV between two ticks

Between two ticks neither the hand nor a PV's bin moves, and a PV keeps its
id as long as it is searched for. A new PV sits at the hand; its first tick
sends it and moves it by one bin, as far as the hand itself moves. So it is at
the hand again when an answer to its first request comes, and the lookup always
looks there.

* `hasId_step`, `waits_run` — what does not move between two ticks.
* `first_tick`             — the tick that sends a new PV.
* `takeFound_at_hand`      — an answer for a PV at the hand finds it.
-/

namespace PVmapper

namespace Searcher

open Runs (Run)

variable {s s' : Searcher} {pvname : Bytes} {chanId : UInt32} {e : Event} {o : Output}
  {tr : List (Event × Output)}

/-- The PV of this name has this id. -/
def HasId (s : Searcher) (pvname : Bytes) (chanId : UInt32) : Prop :=
  ∃ q ∈ s.content, q.2.pvname = pvname ∧ q.2.chanId = chanId

theorem hasId_iff : HasId s pvname chanId ↔ ∃ r ∈ s.searches, r.2.1 = pvname ∧ r.1 = chanId := by
  unfold HasId searches
  simp only [Multiset.mem_map]
  constructor
  · rintro ⟨q, hq, hName, hId⟩
    exact ⟨_, ⟨q, hq, rfl⟩, hName, hId⟩
  · rintro ⟨_, ⟨q, hq, rfl⟩, hName, hId⟩
    exact ⟨q, hq, hName, hId⟩

theorem HasId.unique (hInv : Inv s) {chanId' : UInt32} (h : HasId s pvname chanId)
    (h' : HasId s pvname chanId') : chanId = chanId' := by
  obtain ⟨q, hq, hName, rfl⟩ := h
  obtain ⟨q', hq', hName', rfl⟩ := h'
  rw [eq_of_pvname_eq hInv.names hq hq' (hName.trans hName'.symm)]

/-- A PV that is in the bins before and after a step keeps its id. -/
theorem hasId_step (hInv : Inv s) (hStep : s.step e = some (s', o)) (h : HasId s pvname chanId)
    (hStill : s'.Searched pvname) : HasId s' pvname chanId := by
  obtain ⟨r', hr', hName'⟩ := searched_iff.mp hStill
  -- the search it is now was a search for the name before, with the same id
  have hBefore : ∃ r ∈ s.searches, r.2.1 = pvname ∧ r.1 = r'.1 := by
    rcases step_searches hInv hStep with ⟨now, name, -, -, -, hFresh, hNext⟩ |
      ⟨now, name, -, -, -, hNext⟩ | ⟨-, -, -, hNext⟩
    · rw [hNext] at hr'
      rcases Multiset.mem_cons.mp hr' with rfl | hr'
      · obtain ⟨q, hq, hName, -⟩ := h
        exact absurd ⟨q, hq, hName.trans hName'.symm⟩ hFresh
      · exact ⟨r', hr', hName', rfl⟩
    · rw [hNext] at hr'
      obtain ⟨r, hr, rfl⟩ := Multiset.mem_map.mp hr'
      refine ⟨r, hr, ?_, ?_⟩
      · rw [← hName']
        unfold retouch
        split <;> rfl
      · unfold retouch
        split <;> rfl
    · exact ⟨r', Multiset.mem_of_le hNext hr', hName', rfl⟩
  obtain ⟨r, hr, hName, hId⟩ := hBefore
  have hSame := h.unique hInv (hasId_iff.mpr ⟨r, hr, hName, hId⟩)
  exact hasId_iff.mpr ⟨r', hr', hName', hSame.symm⟩

/-- The PV waits in bin `b`, with its id and its intervals. -/
structure Waits (s : Searcher) (pvname : Bytes) (chanId : UInt32) (b : ℕ)
    (intervals : List UInt32) : Prop where
  inv : Inv s
  here : At s pvname b intervals
  id : HasId s pvname chanId

theorem At.searched {b : ℕ} {intervals : List UInt32} (h : At s pvname b intervals) :
    s.Searched pvname := by
  obtain ⟨pv, hMem, hName, -⟩ := h
  exact ⟨(b, pv), hMem, hName⟩

theorem Waits.entry {b : ℕ} {intervals : List UInt32} (h : Waits s pvname chanId b intervals) :
    ∃ pv, (b, pv) ∈ s.content ∧ pv.pvname = pvname ∧ pv.chanId = chanId := by
  obtain ⟨pv, hMem, hName, -⟩ := h.here
  have hHere : HasId s pvname pv.chanId := ⟨(b, pv), hMem, hName, rfl⟩
  exact ⟨pv, hMem, hName, hHere.unique h.inv h.id⟩

/-- Between two ticks a PV waits where it is, and the hand stays. -/
theorem waits_run {b : ℕ} {intervals : List UInt32} (hRun : Run step s tr s')
    (hQuiet : ∀ x ∈ tr, x.1.isPurge = false ∧ Keeps pvname x) (hNone : ticks tr = [])
    (h : Waits s pvname chanId b intervals) :
    Waits s' pvname chanId b intervals ∧ s'.currentBin = s.currentBin ∧
      s'.searchedPvs.length = s.searchedPvs.length := by
  have hNoTick : ∀ x ∈ tr, ∀ packets, x.2 ≠ .sent true packets := by
    intro x hx packets ho
    have hAll := List.filterMap_eq_nil_iff.mp hNone x hx
    rw [ho] at hAll
    simp at hAll
  refine hRun.invariant_of_mem (I := fun s' => Waits s' pvname chanId b intervals ∧
    s'.currentBin = s.currentBin ∧ s'.searchedPvs.length = s.searchedPvs.length) ?_ ⟨h, rfl, rfl⟩
  rintro s₁ e s₂ o hMem ⟨hWaits, hCur, hLen⟩ hStep
  obtain ⟨hPurge, hKeeps⟩ := hQuiet (e, o) hMem
  obtain ⟨hCur', hAt'⟩ :=
    at_step_of_quiet hWaits.inv hStep hPurge hKeeps (hNoTick (e, o) hMem) hWaits.here
  refine ⟨⟨inv_step hWaits.inv hStep, hAt', hasId_step hWaits.inv hStep hWaits.id hAt'.searched⟩,
    hCur'.trans hCur, (sameFrame_step hWaits.inv hStep).length.trans hLen⟩

section Backoff

variable {searchIntervals : List UInt32}

/-- A name that was not searched for is put into the bin at the hand, with the
next id and all its intervals. -/
theorem waits_of_addPV (hInv : Inv s)
    (hList : s.searchIntervals = scheduleIntervals searchIntervals)
    {now : Int} {isNew : Bool} (hAdd : s.addPV now pvname = some (s', isNew))
    (hNew : ¬ s.Searched pvname) :
    Waits s' pvname s.chanId s'.currentBin (intervalsLeft searchIntervals 0) := by
  have hInv' := inv_step hInv (step_of_addPV hAdd)
  rcases addPV_eq_some hInv.names hAdd with ⟨-, -, -, hs', hContent⟩ | ⟨-, hOld, -⟩
  · have hMem : (s.currentBin, s.newPv now pvname) ∈ s'.content := by
      rw [hContent]
      exact Multiset.mem_cons_self _ _
    have hCur : s'.currentBin = s.currentBin := by rw [hs']
    rw [hCur]
    exact ⟨hInv', ⟨_, hMem, rfl, hList⟩, ⟨_, hMem, rfl, rfl⟩⟩
  · exact absurd hOld hNew

/-- The search for a new PV begins with the tick at hand. -/
theorem Waits.onSchedule
    (h : Waits s pvname chanId s.currentBin (intervalsLeft searchIntervals 0)) :
    OnSchedule searchIntervals pvname 0 s := by
  refine ⟨0, s.currentBin, h.here, ?_, by simp⟩
  rw [(Dial.dist_eq_zero_iff h.here.lt h.here.lt).mpr rfl]
  rfl

/-- **The first tick** sends a new PV, with its id, and moves it as far as the
hand. -/
theorem first_tick {now : Int} {packets : List Packet}
    (hStep : s.step (.outgoing now) = some (s', .sent true packets))
    (h : Waits s pvname chanId s.currentBin (intervalsLeft searchIntervals 0)) :
    (chanId, pvname) ∈ packets.flatMap Packet.pvs ∧
      Waits s' pvname chanId s'.currentBin (intervalsLeft searchIntervals 1) := by
  have hTick := tick_of_step hStep
  obtain ⟨hCur, hs', -, -, hSent⟩ := tick_eq_some hTick
  -- the first interval is one tick, and more are left
  have hIntervals : intervalsLeft searchIntervals 0 = 1 :: intervalsLeft searchIntervals 1 := by
    simp [intervalsLeft, scheduleIntervals]
  have hMore : intervalsLeft searchIntervals 1 ≠ [] := by
    simp [intervalsLeft, scheduleIntervals]
  have hAt' := (at_tick hTick (hIntervals ▸ h.here)).2.1 rfl hMore
  have hBin : (s.currentBin + (1 : UInt32).toNat) % 2 ^ 64 % s.searchedPvs.length =
      s'.currentBin := by
    have hFew := h.inv.bins_lt
    have hSmall : (s.currentBin + (1 : UInt32).toNat) % 2 ^ 64 = s.currentBin + 1 :=
      Nat.mod_eq_of_lt (by rw [show (1 : UInt32).toNat = 1 from rfl]; omega)
    rw [hSmall, hs']
  rw [hBin] at hAt'
  refine ⟨?_, inv_step h.inv hStep, hAt', hasId_step h.inv hStep h.id hAt'.searched⟩
  -- it is due
  obtain ⟨pv, hMem, hName, hId⟩ := h.entry
  obtain ⟨bin', hGet, hPv⟩ := mem_content.mp hMem
  have hHere : s.bin s.currentBin = bin' := by
    rw [bin, List.getD_eq_getElem?_getD, hGet]
    rfl
  rw [hSent, due, hHere]
  exact List.mem_map.mpr ⟨pv, hPv, by rw [hId, hName]⟩

/-- **The lookup looks at the hand**, wherever that is: what waits there is
found, or another PV with its id is. -/
theorem takeFound_at_hand {intervals : List UInt32} (hBins : 1 < s.searchedPvs.length)
    (h : Waits s pvname chanId s.currentBin intervals) : s.takeFound chanId ≠ none := by
  obtain ⟨pv, hMem, -, hId⟩ := h.entry
  have hVisit : s.currentBin ∈ s.scanOrder :=
    (mem_scanOrder h.inv.bins_lt h.here.lt).mpr ⟨h.here.lt, fun _ _ => by omega⟩
  obtain ⟨⟨b, pv'⟩, hFind⟩ := Option.ne_none_iff_exists'.mp (findPv_ne_none hVisit hMem hId)
  unfold takeFound
  rw [hFind]
  exact Option.some_ne_none _

end Backoff

end Searcher

end PVmapper
