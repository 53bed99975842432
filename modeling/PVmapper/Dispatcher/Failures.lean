import PVmapper.Dispatcher.Status
import PVmapper.Searcher.Lookup

/-!
# PVmapper — a PV found on an IOC that cannot be guarded

`processIncoming` takes the PV out of its bin and then makes the callback.
When the IOC's guard cannot be created, `caPvFound` returns at once: it has
changed nothing, but the searcher that got the response searches for the PV no
more, and nothing puts the PV back until a client asks again.

* `response_of_failed`    — what such a response does.
* `failed_discovery_iff`  — the searches are intact only if the searcher
  overlooked the PV, so that no guard was tried.
* `lost_search`           — a reachable dispatcher that loses its only search.
-/

namespace PVmapper

namespace Dispatcher

variable {d d' : Dispatcher} {searchIntervals : List UInt32}

/-- Every searcher searches for the names it searched for before. -/
def SameSearches (d d' : Dispatcher) : Prop :=
  List.Forall₂ (fun s s' => ∀ pvname, Searcher.Searched s' pvname ↔ Searcher.Searched s pvname)
    d.caSearchers d'.caSearchers

theorem SameSearches.refl (d : Dispatcher) : SameSearches d d := by
  unfold SameSearches
  rw [List.forall₂_same]
  exact fun s _ pvname => Iff.rfl

variable {k : ℕ} {s s' : Searcher} {iocIp : Bytes} {iocPort : UInt16} {response : UInt32 × Bytes}
  {opening : Opening} {now : Int}

theorem response_of_overlooked (hGet : d.caSearchers[k]? = some s)
    (hTake : s.takeFound response.1 = none) :
    d.step (.response k iocIp iocPort response opening now) = some (d, .found none) := by
  unfold step
  dsimp only
  rw [hGet]
  dsimp only
  rw [hTake]

/-- A response for a PV on an IOC that has no guard and gets none: the searcher
loses the PV, and nothing else happens. -/
theorem response_of_failed (hGet : d.caSearchers[k]? = some s) {pv : SearchedPV}
    (hTake : s.takeFound response.1 = some (pv, s'))
    (hNone : d.iocs.lookup (iocIp, iocPort) = none)
    (hFails : IocGuard.create opening (iocIp, iocPort) now = none) :
    ∃ f, d.step (.response k iocIp iocPort response opening now) =
      some ({ d with caSearchers := d.caSearchers.set k s' }, .found (some (f, none))) := by
  -- the callback finds no guard and cannot make one
  have hFound : ∀ f : FoundPv, f.iocIp = iocIp → f.iocPort = iocPort →
      { d with caSearchers := d.caSearchers.set k s' }.caPvFound opening now f =
        ({ d with caSearchers := d.caSearchers.set k s' }, none) := by
    rintro f rfl rfl
    unfold caPvFound iocGuard
    dsimp only
    rw [hNone]
    dsimp only
    rw [hFails]
    rfl
  unfold step
  dsimp only
  rw [hGet]
  dsimp only
  rw [hTake]
  dsimp only
  rw [hFound _ rfl rfl]
  exact ⟨_, rfl⟩

/-- The searcher that loses the PV does not search for it any more. -/
theorem not_sameSearches_of_taken (hInv : s.Inv) (hGet : d.caSearchers[k]? = some s)
    {pv : SearchedPV} (hTake : s.takeFound response.1 = some (pv, s')) :
    ¬ SameSearches d { d with caSearchers := d.caSearchers.set k s' } := by
  intro hSame
  obtain ⟨hk, hs⟩ := List.getElem?_eq_some_iff.mp hGet
  obtain ⟨hLen, hEach⟩ := List.forall₂_iff_get.mp hSame
  have hHere := hEach k hk (by rw [← hLen]; exact hk) pv.pvname
  simp only [List.get_eq_getElem, List.getElem_set_self, hs] at hHere
  exact Searcher.not_searched_takeFound hInv hTake (hHere.mpr (Searcher.searched_of_takeFound hTake))

/-- **A failed discovery** changes neither `m_iocs` nor `m_connectedPVs`. It
leaves the searches intact exactly when the PV was overlooked, in which case
no guard was tried. -/
theorem failed_discovery_iff (h : Runs.Reachable (Init searchIntervals) step d)
    (hGet : d.caSearchers[k]? = some s) (hPv : ∃ q ∈ s.content, q.2.chanId = response.1)
    (hNone : d.iocs.lookup (iocIp, iocPort) = none)
    (hFails : IocGuard.create opening (iocIp, iocPort) now = none) :
    ∃ d' o, d.step (.response k iocIp iocPort response opening now) = some (d', o) ∧
      d'.iocs = d.iocs ∧ d'.connectedPVs = d.connectedPVs ∧
      (SameSearches d d' ↔ s.Overlooked response.1) := by
  obtain ⟨d₀, tr, hInit, hRun⟩ := h
  have hStatus := status_run hRun (status_of_init hInit)
  have hInv := (hStatus.searchers s (List.mem_of_getElem? hGet)).inv
  rw [← Searcher.takeFound_eq_none_iff hInv hPv]
  cases hTake : s.takeFound response.1 with
  | none =>
    refine ⟨d, _, response_of_overlooked hGet hTake, rfl, rfl, ?_⟩
    simpa using SameSearches.refl d
  | some found =>
    obtain ⟨pv, s'⟩ := found
    obtain ⟨f, hStep⟩ := response_of_failed hGet hTake hNone hFails
    refine ⟨_, _, hStep, rfl, rfl, ?_⟩
    simpa using not_sameSearches_of_taken hInv hGet hTake

/-- A client asks for a PV, and it is searched for. -/
def searching : Dispatcher :=
  { oneSearcher with
    caSearchers := [{ Searcher.tenBins with
      chanId := 1
      searchedPvs := Searcher.tenBins.searchedPvs.set 1 [⟨0, [chr 'A'], 0, [2, 10]⟩]
      currentBin := 1 }] }

theorem reachable_searching : Runs.Reachable (Init [1]) step searching := by
  have hExec : (Runs.exec step oneSearcher
      [.clientSearched (fun _ => 0) [chr 'A'], .searcherOutgoing 0 1000000000]).map Prod.snd =
        some searching := rfl
  exact (Runs.Reachable.of_init init_oneSearcher).exec _ hExec

/-- The system refuses a socket for the IOC that answers: the cache and the
guards are as before, the searches are not. -/
theorem failed_discovery_noSocket :
    ∃ d' o, searching.step (.response 0 (inetNtop ⟨10, 0, 0, 7⟩) 5064 (0, ChannelAccess.ordinaryResponse 0) ⟨-1, true, true⟩
        2000000000) = some (d', o) ∧
      d'.iocs = searching.iocs ∧ d'.connectedPVs = searching.connectedPVs ∧
      ¬ SameSearches searching d' := by
  obtain ⟨d', o, hStep, hIocs, hCache, hIff⟩ :=
    @failed_discovery_iff searching [1] 0 _ (inetNtop ⟨10, 0, 0, 7⟩) 5064 (0, ChannelAccess.ordinaryResponse 0)
      ⟨-1, true, true⟩ 2000000000 reachable_searching rfl ⟨(1, ⟨0, [chr 'A'], 0, [2, 10]⟩), by decide, rfl⟩ rfl rfl
  refine ⟨d', o, hStep, hIocs, hCache, fun hSame => ?_⟩
  exact absurd (hIff.mp hSame).atStart (by decide)

/-- Then no searcher searches for the PV any more. -/
theorem lost_search :
    Runs.Reachable (Init [1]) step searching ∧
      IocGuard.create ⟨-1, true, true⟩ (inetNtop ⟨10, 0, 0, 7⟩, 5064) 2000000000 = none ∧
      (∃ s ∈ searching.caSearchers, s.Searched [chr 'A']) ∧
      ∃ d' o, searching.step (.response 0 (inetNtop ⟨10, 0, 0, 7⟩) 5064 (0, ChannelAccess.ordinaryResponse 0) ⟨-1, true, true⟩
          2000000000) = some (d', o) ∧
        ∀ s ∈ d'.caSearchers, ¬ s.Searched [chr 'A'] := by
  refine ⟨reachable_searching, rfl, ⟨_, List.mem_singleton_self _, ?_⟩, _, _, rfl, ?_⟩
  · exact ⟨(1, ⟨0, [chr 'A'], 0, [2, 10]⟩), by decide, rfl⟩
  · intro s hs hSearched
    rw [List.mem_singleton.mp hs] at hSearched
    obtain ⟨q, hq, -⟩ := hSearched
    exact absurd hq (Multiset.notMem_zero q)

end Dispatcher

end PVmapper
