import PVmapper.Dispatcher.Guards
import PVmapper.Dispatcher.Searches

/-!
# PVmapper — the status of a PV

A PV is unknown, searched for, or cached with the guard of its IOC. `Status`
is the invariant that keeps these apart: what the cache has, no searcher
searches for. A cached answer then stays as it is while its guard is
connected: the searchers cannot find the PV again, and a client's search for
it only reads the cache.

* `status_step`, `status_run` — the invariant over whole runs.
* `lastStored_run`            — an entry is what the last `caPvFound` for its
  name stored.
* `lookup_of_connected`       — entries of connected guards do not change.
* `status_exclusive_stable`   — all together, with what one callback does to
  other names.
-/

namespace PVmapper

namespace Dispatcher

variable {d d' d₀ : Dispatcher} {searchIntervals : List UInt32} {tr : List (Event × Output)}

-- ---------------------------------------------------------------------------
-- The invariant
-- ---------------------------------------------------------------------------

/-- Every searcher is in a state of its own runs, and searches for no cached
PV. With a cached PV at all there are bins. -/
structure Status (searchIntervals : List UInt32) (d : Dispatcher) : Prop where
  searchers : ∀ s ∈ d.caSearchers, Searcher.Reachable searchIntervals s
  exclusive : ∀ pvname, d.connectedPVs.lookup pvname ≠ none → ∀ s ∈ d.caSearchers,
    ¬ s.Searched pvname
  bins : ∀ pvname, d.connectedPVs.lookup pvname ≠ none →
    0 < (Searcher.maxInterval searchIntervals).toNat

/-- At the start nothing is cached. -/
theorem status_of_init (h : Init searchIntervals d) : Status searchIntervals d := by
  obtain ⟨hSearchers, -, -, -, hCache⟩ := h
  refine ⟨fun s hs => Runs.Reachable.of_init (hSearchers s hs), fun pvname hCached => ?_,
    fun pvname hCached => ?_⟩
  all_goals
    rw [hCache, AList.lookup_empty] at hCached
    exact absurd rfl hCached

/-- Every step keeps the invariant: what is cached is taken out of all bins, and
is not put in again. -/
theorem status_step (h : Status searchIntervals d) {e : Event} {o : Output}
    (hStep : d.step e = some (d', o)) : Status searchIntervals d' := by
  have hEach := step_searchers hStep
  refine ⟨fun s' hs' => ?_, fun p hCached s' hs' hSearched => ?_, fun p hCached => ?_⟩
  · obtain ⟨s, hs, hMoves⟩ := exists_of_mem_forall₂ hEach hs'
    exact (hMoves.reachable (h.searchers s hs)).1
  · obtain ⟨s, hs, hMoves⟩ := exists_of_mem_forall₂ hEach hs'
    -- a cached name that is in the bins now was in them before
    have hBefore := (hMoves.reachable (h.searchers s hs)).2 p hCached hSearched
    -- and it was not cached, unless it has just been found
    rcases step_connectedPVs hStep with ⟨hCache, -⟩ | ⟨pvname, -, hGone, hOther, -⟩ |
      ⟨k, s₀, chanId, pv, s₁, f, g, hGet, hTake, -, -, hCache, hRemoved⟩
    · rw [hCache] at hCached
      exact h.exclusive p hCached s hs hBefore
    · by_cases hName : p = pvname
      · subst hName
        exact hCached hGone
      · rw [hOther p hName] at hCached
        exact h.exclusive p hCached s hs hBefore
    · by_cases hName : p = f.pvname
      · -- the PV just found was removed everywhere
        subst hName
        rw [hRemoved] at hs'
        obtain ⟨s₂, hs₂, rfl⟩ := List.mem_map.mp hs'
        have hInv : s₂.Inv := by
          rcases List.mem_or_eq_of_mem_set hs₂ with hs₂ | rfl
          · exact (h.searchers s₂ hs₂).inv
          · exact Searcher.inv_takeFound (h.searchers s₀ (List.mem_of_getElem? hGet)).inv hTake
        exact Searcher.not_searched_removePV hInv f.pvname hSearched
      · rw [hCache, AList.lookup_insert_ne hName] at hCached
        exact h.exclusive p hCached s hs hBefore
  · rcases step_connectedPVs hStep with ⟨hCache, -⟩ | ⟨pvname, -, hGone, hOther, -⟩ |
      ⟨k, s₀, chanId, pv, s₁, f, g, hGet, hTake, -, -, hCache, -⟩
    · rw [hCache] at hCached
      exact h.bins p hCached
    · by_cases hName : p = pvname
      · subst hName
        exact absurd hGone hCached
      · rw [hOther p hName] at hCached
        exact h.bins p hCached
    · -- the PV found was in a bin
      obtain ⟨q, hq, -⟩ := Searcher.searched_of_takeFound hTake
      have hLt := Searcher.lt_of_mem_content hq
      rw [(h.searchers s₀ (List.mem_of_getElem? hGet)).frame.2] at hLt
      omega

/-- Every run keeps it. -/
theorem status_run (hRun : Runs.Run step d tr d') (h : Status searchIntervals d) :
    Status searchIntervals d' :=
  hRun.invariant (fun _ _ _ _ hStatus => status_step hStatus) h

-- ---------------------------------------------------------------------------
-- Where an entry comes from
-- ---------------------------------------------------------------------------

/-- The entry is what the last `caPvFound` that recorded this name stored. -/
def LastStored (pvname : Bytes) (pv : PvInfo) (tr : List (Event × Output)) : Prop :=
  ∃ pre e f g post, tr = pre ++ (e, .found (some (f, some g))) :: post ∧ f.pvname = pvname ∧
    pv = ⟨some g, f.response⟩ ∧
    ∀ x ∈ post, ∀ f' g', x.2 = .found (some (f', some g')) → f'.pvname ≠ pvname

/-- An entry stays the last one until its name is found again. -/
theorem LastStored.concat {pvname : Bytes} {pv : PvInfo} (h : LastStored pvname pv tr) {e : Event}
    {o : Output} (hOther : ∀ f g, o = .found (some (f, some g)) → f.pvname ≠ pvname) :
    LastStored pvname pv (tr ++ [(e, o)]) := by
  obtain ⟨pre, e₀, f, g, post, rfl, hName, hPv, hPost⟩ := h
  refine ⟨pre, e₀, f, g, post ++ [(e, o)], by simp, hName, hPv, fun x hx => ?_⟩
  rcases List.mem_append.mp hx with hx | hx
  · exact hPost x hx
  · rw [List.mem_singleton.mp hx]
    exact hOther

/-- What is cached at the end of a run is what was stored last. -/
theorem lastStored_run (hInit : Init searchIntervals d₀) (hRun : Runs.Run step d₀ tr d) :
    ∀ pvname pv, d.connectedPVs.lookup pvname = some pv → LastStored pvname pv tr := by
  refine hRun.history (I := fun tr d =>
    ∀ pvname pv, d.connectedPVs.lookup pvname = some pv → LastStored pvname pv tr) ?_ ?_
  · intro pre d₁ e d₂ o hStored hStep pvname pv hLookup
    rcases step_connectedPVs hStep with ⟨hCache, hNone⟩ | ⟨name, -, hGone, hOther, hNone⟩ |
      ⟨k, s₀, chanId, pv₀, s₁, f, g, -, -, -, rfl, hCache, -⟩
    · rw [hCache] at hLookup
      exact (hStored pvname pv hLookup).concat fun f g ho => absurd ho (hNone f g)
    -- an entry was dropped, but not this one, which is still there
    · have hName : pvname ≠ name := by
        rintro rfl
        rw [hGone] at hLookup
        exact absurd hLookup (by simp)
      rw [hOther pvname hName] at hLookup
      exact (hStored pvname pv hLookup).concat fun f g ho => absurd ho (hNone f g)
    · rw [hCache] at hLookup
      by_cases hName : pvname = f.pvname
      · subst hName
        rw [AList.lookup_insert, Option.some.injEq] at hLookup
        exact ⟨pre, e, f, g, [], rfl, rfl, hLookup.symm, by simp⟩
      · rw [AList.lookup_insert_ne hName] at hLookup
        refine (hStored pvname pv hLookup).concat ?_
        rintro f' g' ⟨⟩
        exact Ne.symm hName
  · intro pvname pv hLookup
    obtain ⟨-, -, -, -, hCache⟩ := hInit
    rw [hCache, AList.lookup_empty] at hLookup
    exact absurd hLookup (by simp)

-- ---------------------------------------------------------------------------
-- While the guard is connected
-- ---------------------------------------------------------------------------

/-- A closed guard stays closed. -/
theorem isConnected_of_step {e : Event} {o : Output} (hStep : d.step e = some (d', o)) {g : GuardId}
    (hg : g < d.guards.length) :
    g < d'.guards.length ∧ (d'.isConnected g = true → d.isConnected g = true) := by
  rw [isConnected_iff, isConnected_iff]
  rcases step_guards hStep with ⟨hGuards, -⟩ | ⟨guard, -, -, hGuards, -⟩ |
    ⟨g', guard, guard', acts, -, hGet, hCall, rfl⟩ | ⟨-, -, -, -, hGuards, -⟩
  · rw [hGuards]
    exact ⟨hg, id⟩
  · rw [hGuards, List.getElem?_append_left hg, List.length_append]
    exact ⟨Nat.lt_add_right _ hg, id⟩
  · refine ⟨by simpa using hg, ?_⟩
    intro hOpen
    obtain ⟨guard'', hGet'', hConnected⟩ := hOpen
    -- a call never opens a guard
    by_cases hEq : g' = g
    · subst hEq
      rw [List.getElem?_set_self hg, Option.some.injEq] at hGet''
      subst hGet''
      refine ⟨guard, hGet, ?_⟩
      by_contra hClosed
      rw [(hCall.idle (by simpa using hClosed)).1] at hConnected
      exact hClosed hConnected
    · rw [List.getElem?_set_ne hEq] at hGet''
      exact ⟨guard'', hGet'', hConnected⟩
  · rw [hGuards]
    exact ⟨hg, id⟩

/-- A guard that is connected has been all along. -/
theorem isConnected_of_run (hRun : Runs.Run step d tr d') {g : GuardId} (hg : g < d.guards.length)
    (hConnected : d'.isConnected g = true) : d.isConnected g = true := by
  induction hRun with
  | nil => exact hConnected
  | cons hStep _ ih =>
    obtain ⟨hg', hBack⟩ := isConnected_of_step hStep hg
    exact hBack (ih hg' hConnected)

/-- No step changes the entry of a connected guard. -/
theorem lookup_step (h : Status searchIntervals d) {e : Event} {o : Output}
    (hStep : d.step e = some (d', o)) {pvname : Bytes} {pv : PvInfo} {g : GuardId}
    (hLookup : d.connectedPVs.lookup pvname = some pv) (hIoc : pv.ioc = some g)
    (hConnected : d.isConnected g = true) : d'.connectedPVs.lookup pvname = some pv := by
  rcases step_connectedPVs hStep with ⟨hCache, -⟩ | ⟨name, hDead, -, hOther, -⟩ |
    ⟨k, s, chanId, pv₀, s', f, g', hGet, hTake, hName, -, hCache, -⟩
  · rw [hCache]
    exact hLookup
  · have hName : pvname ≠ name := by
      rintro rfl
      rw [hDead pv g hLookup hIoc] at hConnected
      exact absurd hConnected (by simp)
    rw [hOther pvname hName]
    exact hLookup
  · -- what is found now was searched for, so it was not cached
    have hOther : pvname ≠ f.pvname := by
      rintro rfl
      refine h.exclusive f.pvname (by simp [hLookup]) s (List.mem_of_getElem? hGet) ?_
      rw [hName]
      exact Searcher.searched_of_takeFound hTake
    rw [hCache, AList.lookup_insert_ne hOther]
    exact hLookup

/-- As long as its guard is connected, an entry does not change. -/
theorem lookup_of_connected (hRun : Runs.Run step d tr d') (h : Status searchIntervals d)
    {pvname : Bytes} {pv : PvInfo} {g : GuardId}
    (hLookup : d.connectedPVs.lookup pvname = some pv) (hIoc : pv.ioc = some g)
    (hg : g < d.guards.length) (hConnected : d'.isConnected g = true) :
    d'.connectedPVs.lookup pvname = some pv := by
  induction hRun with
  | nil => exact hLookup
  | cons hStep hRest ih =>
    obtain ⟨hg', hBack⟩ := isConnected_of_step hStep hg
    -- connected in the end, the guard was connected all along
    have hBefore := hBack (isConnected_of_run hRest hg' hConnected)
    exact ih (status_step h hStep) (lookup_step h hStep hLookup hIoc hBefore) hg' hConnected

/-- A name with a connected guard is answered from the cache. -/
theorem caPvSearched_of_connected {pvname : Bytes} {pv : PvInfo} {g : GuardId}
    (hLookup : d.connectedPVs.lookup pvname = some pv) (hIoc : pv.ioc = some g)
    (hConnected : d.isConnected g = true) (clock : ℕ → Int) :
    d.caPvSearched clock pvname = some (d, pv.response) := by
  unfold caPvSearched
  rw [hLookup]
  simp [hIoc, hConnected]

-- ---------------------------------------------------------------------------
-- Once the guard is closed
-- ---------------------------------------------------------------------------

/-- The first client search after that starts the search again, everywhere
and from the first interval on. -/
theorem caPvSearched_of_closed (h : Status searchIntervals d) {pvname : Bytes} {pv : PvInfo}
    (hLookup : d.connectedPVs.lookup pvname = some pv)
    (hClosed : ∀ g, pv.ioc = some g → d.isConnected g = false) (clock : ℕ → Int) :
    ∃ d', d.caPvSearched clock pvname = some (d', []) ∧ d'.connectedPVs.lookup pvname = none ∧
      List.Forall₂ (fun s s' => s'.currentBin = s.currentBin ∧
        Searcher.At s' pvname s.currentBin (Searcher.scheduleIntervals searchIntervals))
        d.caSearchers d'.caSearchers := by
  have hCached : d.connectedPVs.lookup pvname ≠ none := by simp [hLookup]
  have hMiss : pv.ioc.any d.isConnected = false := by
    cases hIoc : pv.ioc with
    | none => rfl
    | some g => exact hClosed g hIoc
  obtain ⟨d', hAdd⟩ : ∃ d', ({ d with
      connectedPVs := d.connectedPVs.erase pvname } : Dispatcher).addToSearchers clock pvname =
      some d' := by
    refine exists_forSearchers fun s hs k => ?_
    -- there are bins, since the PV was once found in one
    have hReach := h.searchers s hs
    have hBins : s.searchedPvs.length ≠ 0 := by
      rw [hReach.frame.2]
      exact (h.bins pvname hCached).ne'
    obtain ⟨r, hr⟩ := Searcher.exists_addPV (hReach.inv.bin_lt hBins) (clock k) pvname
    exact ⟨r.1, by rw [hr]; rfl⟩
  have hAnswer : d.caPvSearched clock pvname = some (d', []) := by
    unfold caPvSearched
    rw [hLookup]
    simp [hMiss, hAdd]
  refine ⟨d', hAnswer, ?_⟩
  rcases caPvSearched_cases hAnswer with ⟨pv', g, hLookup', hIoc, hConnected, -⟩ |
    ⟨-, -, hGone, -, -, hEach⟩
  · rw [hLookup, Option.some.injEq] at hLookup'
    rw [hClosed g (hLookup' ▸ hIoc)] at hConnected
    exact absurd hConnected (by simp)
  · have hFresh : ∀ s ∈ d.caSearchers, Searcher.Reachable searchIntervals s ∧ ¬ s.Searched pvname :=
      fun s hs => ⟨h.searchers s hs, h.exclusive pvname hCached s hs⟩
    refine ⟨hGone, ((List.forall₂_and_left _ _).mpr ⟨hFresh, hEach⟩).imp ?_⟩
    rintro s s' ⟨⟨hReach, hNot⟩, now, isNew, hAddPV⟩
    -- the name is in no bin, so `addPV` puts it into the current one
    rcases Searcher.addPV_eq_some hReach.inv.names hAddPV with ⟨-, -, -, hs', hContent⟩ |
      ⟨-, hSearched, -⟩
    · refine ⟨by rw [hs'], s.newPv now pvname, ?_, rfl, hReach.frame.1⟩
      rw [hContent]
      exact Multiset.mem_cons_self _ _
    · exact absurd hSearched hNot

-- ---------------------------------------------------------------------------
-- Other names
-- ---------------------------------------------------------------------------

/-- The cache entry of a name and its entries in all searchers are the same. -/
def SameFor (pvname : Bytes) (d d' : Dispatcher) : Prop :=
  d'.connectedPVs.lookup pvname = d.connectedPVs.lookup pvname ∧
    d'.caSearchers.map (·.entries pvname) = d.caSearchers.map (·.entries pvname)

variable {other : Bytes}

/-- A search for one name is none for another. -/
theorem sameFor_caPvSearched (hInv : ∀ s ∈ d.caSearchers, s.Inv) {clock : ℕ → Int}
    {pvname response : Bytes} (h : d.caPvSearched clock pvname = some (d', response))
    (hOther : other ≠ pvname) : SameFor other d d' := by
  rcases caPvSearched_cases h with ⟨-, -, -, -, -, rfl, -⟩ | ⟨-, -, -, hCache, -, hEach⟩
  · exact ⟨rfl, rfl⟩
  · refine ⟨hCache other hOther, ?_⟩
    have hBoth := (List.forall₂_and_left _ _).mpr ⟨hInv, hEach⟩
    generalize d.caSearchers = searchers, d'.caSearchers = searchers' at hBoth
    induction hBoth with
    | nil => rfl
    | cons hAdd _ ih =>
      obtain ⟨hInv, now, isNew, hAddPV⟩ := hAdd
      rw [List.map_cons, List.map_cons, ih, Searcher.entries_addPV hInv hAddPV hOther]

/-- A name that is found leaves the others as they are. -/
theorem sameFor_caPvFound (hInv : ∀ s ∈ d.caSearchers, s.Inv) (opening : Opening) (now : Int)
    (f : FoundPv) (hOther : other ≠ f.pvname) : SameFor other d (d.caPvFound opening now f).1 := by
  rcases caPvFound_cases d opening now f with hNone | ⟨d₁, g, -, hSome⟩
  · rw [hNone]
    exact ⟨rfl, rfl⟩
  · rw [hSome]
    refine ⟨AList.lookup_insert_ne hOther, ?_⟩
    rw [List.map_map]
    exact List.map_congr_left fun s hs => Searcher.entries_removePV (hInv s hs) hOther

theorem map_set_of_eq {α β : Type*} {f : α → β} {l : List α} {k : ℕ} {x y : α}
    (hGet : l[k]? = some x) (hEq : f y = f x) : (l.set k y).map f = l.map f := by
  obtain ⟨hk, rfl⟩ := List.getElem?_eq_some_iff.mp hGet
  have hk' : k < (l.map f).length := by simpa using hk
  have hMap : f l[k] = (l.map f)[k] := by rw [List.getElem_map]
  rw [List.map_set, hEq, hMap, List.set_getElem_self]

/-- The whole step of a response that finds a PV, with the PV taken out of the
searcher that found it. -/
theorem sameFor_response (hInv : ∀ s ∈ d.caSearchers, s.Inv) {k : ℕ} {iocIp : Bytes}
    {iocPort : UInt16} {response : UInt32 × Bytes} {opening : Opening} {now : Int} {f : FoundPv}
    {g : Option GuardId}
    (h : d.step (.response k iocIp iocPort response opening now) = some (d', .found (some (f, g))))
    (hOther : other ≠ f.pvname) : SameFor other d d' := by
  rcases step_response h with ⟨-, ho⟩ | ⟨s, pv, s', hGet, hTake, f', g', hName, ho, hFound⟩
  · exact absurd ho (by simp)
  · obtain ⟨rfl, rfl⟩ : f = f' ∧ g = g' := by simpa using ho
    have hMem := List.mem_of_getElem? hGet
    have hTaken : SameFor other d { d with caSearchers := d.caSearchers.set k s' } := by
      exact ⟨rfl, map_set_of_eq hGet (Searcher.entries_takeFound hTake (hName ▸ hOther))⟩
    -- `caPvFound` runs with the PV already out of the searcher's bins
    have hAll : ∀ s₁ ∈ d.caSearchers.set k s', s₁.Inv := by
      intro s₁ hs₁
      rcases List.mem_or_eq_of_mem_set hs₁ with hs₁ | rfl
      · exact hInv s₁ hs₁
      · exact Searcher.inv_takeFound (hInv s hMem) hTake
    obtain ⟨hCache, hEntries⟩ := sameFor_caPvFound (d := { d with
      caSearchers := d.caSearchers.set k s' }) hAll opening now f hOther
    rw [hFound] at hCache hEntries
    exact ⟨hCache.trans hTaken.1, hEntries.trans hTaken.2⟩

/-- **The status of a PV is exclusive and stable.** In every reachable state:
no cached PV is in a bin of a searcher; a client gets an answer only while the
recorded guard is connected, and then what the last `caPvFound` for the name
stored, which stays so until that guard closes; the first client search after
that drops the entry and puts the PV into the current bin of every searcher,
with all its intervals; and neither callback changes anything about another
name. -/
theorem status_exclusive_stable (hInit : Init searchIntervals d₀)
    (hRun : Runs.Run step d₀ tr d) :
    (∀ pvname, d.connectedPVs.lookup pvname ≠ none →
        ∀ s ∈ d.caSearchers, ¬ s.Searched pvname) ∧
      (∀ clock pvname d' response, d.caPvSearched clock pvname = some (d', response) →
        response ≠ [] → ∃ pv g, d.connectedPVs.lookup pvname = some pv ∧ pv.ioc = some g ∧
          d.isConnected g = true ∧ response = pv.response ∧ LastStored pvname pv tr) ∧
      (∀ pvname pv g, d.connectedPVs.lookup pvname = some pv → pv.ioc = some g →
        d.isConnected g = true → ∀ tr' d', Runs.Run step d tr' d' → d'.isConnected g = true →
          d'.connectedPVs.lookup pvname = some pv ∧
          ∀ clock, d'.caPvSearched clock pvname = some (d', pv.response)) ∧
      (∀ pvname pv, d.connectedPVs.lookup pvname = some pv →
        (∀ g, pv.ioc = some g → d.isConnected g = false) → ∀ clock, ∃ d',
          d.caPvSearched clock pvname = some (d', []) ∧ d'.connectedPVs.lookup pvname = none ∧
          List.Forall₂ (fun s s' => s'.currentBin = s.currentBin ∧
            Searcher.At s' pvname s.currentBin (Searcher.scheduleIntervals searchIntervals))
            d.caSearchers d'.caSearchers) ∧
      (∀ clock pvname d' response, d.caPvSearched clock pvname = some (d', response) →
        ∀ other, other ≠ pvname → SameFor other d d') ∧
      (∀ opening now f other, other ≠ f.pvname →
        SameFor other d (d.caPvFound opening now f).1) ∧
      (∀ k iocIp iocPort response opening now d' f g,
        d.step (.response k iocIp iocPort response opening now) =
          some (d', .found (some (f, g))) →
        ∀ other, other ≠ f.pvname → SameFor other d d') := by
  have hStatus := status_run hRun (status_of_init hInit)
  have hInv : ∀ s ∈ d.caSearchers, s.Inv := fun s hs => (hStatus.searchers s hs).inv
  refine ⟨hStatus.exclusive, ?_, ?_, ?_, ?_, ?_, ?_⟩
  · intro clock pvname d' response hSearched hAnswer
    rcases caPvSearched_cases hSearched with ⟨pv, g, hLookup, hIoc, hConnected, -, rfl⟩ |
      ⟨-, hEmpty, -⟩
    · exact ⟨pv, g, hLookup, hIoc, hConnected, rfl, lastStored_run hInit hRun pvname pv hLookup⟩
    · exact absurd hEmpty hAnswer
  · intro pvname pv g hLookup hIoc hConnected tr' d' hRun' hConnected'
    obtain ⟨guard, hGet, -⟩ := isConnected_iff.mp hConnected
    have hg := (List.getElem?_eq_some_iff.mp hGet).1
    have hKept := lookup_of_connected hRun' hStatus hLookup hIoc hg hConnected'
    exact ⟨hKept, caPvSearched_of_connected hKept hIoc hConnected'⟩
  · exact fun pvname pv hLookup hClosed => caPvSearched_of_closed hStatus hLookup hClosed
  · exact fun clock pvname d' response hSearched other => sameFor_caPvSearched hInv hSearched
  · exact fun opening now f other => sameFor_caPvFound hInv opening now f
  · exact fun k iocIp iocPort response opening now d' f g hStep other =>
      sameFor_response hInv hStep

/-- What clients get for the PV in `foundAndClosed`: the IOC's response, with
its address put in. -/
def foundReply : Bytes :=
  Header.version.encode ++ Header.encode ⟨cmdSearch, 8, 5064, 0, 0x0A000007, 0⟩ ++
    [0, 13, 0, 0, 0, 0, 0, 0]

/-- While its IOC is connected, clients that ask for the PV get the response.
After the IOC is gone, a PV asked for again is searched for from the first
interval on. -/
theorem status_foundAndClosed :
    ∃ tr tr' d' d'', Runs.Run step oneSearcher tr oneFound ∧
      tr.map Prod.fst = foundAndClosed.take 3 ∧
      (∀ clock, oneFound.caPvSearched clock [chr 'A'] = some (oneFound, foundReply)) ∧
      Runs.Run step oneFound tr' d' ∧ tr'.map Prod.fst = foundAndClosed.drop 3 ∧
      d'.caPvSearched (fun _ => 3000000000) [chr 'A'] = some (d'', []) ∧
      d''.connectedPVs.lookup [chr 'A'] = none ∧
      List.Forall₂ (fun s s' => s'.currentBin = s.currentBin ∧
        Searcher.At s' [chr 'A'] s.currentBin [1, 2, 10]) d'.caSearchers d''.caSearchers := by
  have hFound : Runs.Run step oneSearcher _ oneFound :=
    Runs.run_of_exec (foundAndClosed.take 3) rfl
  have hLost : Runs.Run step oneFound _ _ := Runs.run_of_exec (foundAndClosed.drop 3) rfl
  obtain ⟨-, -, hStable, -⟩ := status_exclusive_stable init_oneSearcher hFound
  obtain ⟨-, -, -, hClosed, -⟩ := status_exclusive_stable init_oneSearcher (hFound.append hLost)
  have hReply : (ChannelAccess.updateSearchReplyAddr (ChannelAccess.ordinaryResponse 0)
      (inetNtop ⟨10, 0, 0, 7⟩) 5064).1 = foundReply := by decide +kernel
  obtain ⟨-, hAnswered⟩ := hStable [chr 'A'] _ 0 rfl rfl rfl [] _ (Runs.Run.nil _) rfl
  obtain ⟨d'', hAnswer, hGone, hEach⟩ := hClosed [chr 'A'] _ rfl (by rintro g ⟨⟩; rfl)
    (fun _ => 3000000000)
  exact ⟨_, _, _, d'', hFound, rfl, fun clock => hReply ▸ hAnswered clock, hLost, rfl, hAnswer,
    hGone, hEach⟩

end Dispatcher

end PVmapper
