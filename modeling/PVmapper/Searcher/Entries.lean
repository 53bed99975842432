import PVmapper.Searcher.Invariant

/-!
# PVmapper — the entries of one name

Which names an operation of a searcher can bring in, and which entries it
leaves alone.

* `step_searches`                   — what a step can do to what is searched
  for.
* `searched_run`                    — a name gets into the bins through `addPV`
  only.
* `entries_addPV`, `entries_removePV`, `entries_takeFound` — operations on one
  name leave the entry of any other as it is.
* `searcher_invariant`              — what adding and removing mean in every
  reachable state.
-/

namespace PVmapper

namespace Searcher

variable {s s' : Searcher} {pvname : Bytes}

-- ---------------------------------------------------------------------------
-- Where names come from
-- ---------------------------------------------------------------------------

theorem not_searched_removePV (h : Inv s) (pvname : Bytes) :
    ¬ (s.removePV pvname).Searched pvname := by
  intro hSearched
  obtain ⟨q, hq, hName⟩ := hSearched
  rw [content_removePV h.names] at hq
  exact (Multiset.mem_filter.mp hq).2 hName

/-- Removing a name that is not in the bins changes nothing. -/
theorem removePV_of_not_searched (h : ¬ s.Searched pvname) : s.removePV pvname = s := by
  unfold removePV
  rcases @Slots.contentFrom_eraseFirst _ (·.pvname == pvname) s.searchedPvs 0 with
    ⟨hEq, -⟩ | ⟨b, pv, hName, hContent⟩
  · rw [hEq]
  · refine absurd ⟨(b, pv), ?_, by simpa using hName⟩ h
    show (b, pv) ∈ Slots.contentFrom 0 s.searchedPvs
    rw [hContent]
    exact Multiset.mem_cons_self _ _

/-- The PV a response takes was the only one of its name. -/
theorem not_searched_takeFound (h : Inv s) {chanId : UInt32} {pv : SearchedPV}
    (hTake : s.takeFound chanId = some (pv, s')) : ¬ s'.Searched pv.pvname := by
  intro hSearched
  obtain ⟨q, hq, hName⟩ := hSearched
  obtain ⟨-, -, -, b, hContent⟩ := takeFound_eq_some hTake
  have hNames := h.names
  rw [hContent, Multiset.map_cons, Multiset.nodup_cons] at hNames
  exact hNames.1 (Multiset.mem_map.mpr ⟨q, hq, hName⟩)

/-- What a response takes was searched for. -/
theorem searched_of_takeFound {chanId : UInt32} {pv : SearchedPV}
    (hTake : s.takeFound chanId = some (pv, s')) : s.Searched pv.pvname := by
  obtain ⟨-, -, -, b, hContent⟩ := takeFound_eq_some hTake
  refine ⟨(b, pv), ?_, rfl⟩
  rw [hContent]
  exact Multiset.mem_cons_self _ _

theorem removePV_le (h : Inv s) (pvname : Bytes) : (s.removePV pvname).content ≤ s.content := by
  rw [content_removePV h.names]
  exact Multiset.filter_le _ _

theorem takeFound_le {chanId : UInt32} {pv : SearchedPV}
    (hTake : s.takeFound chanId = some (pv, s')) : s'.content ≤ s.content := by
  obtain ⟨-, -, -, b, hContent⟩ := takeFound_eq_some hTake
  rw [hContent]
  exact Multiset.le_cons_self _ _

-- ---------------------------------------------------------------------------
-- What is searched for
-- ---------------------------------------------------------------------------

/-- The id, the name and the last request of a PV. -/
def search (pv : SearchedPV) : UInt32 × Bytes × Int := (pv.chanId, pv.pvname, pv.lastSearched)

/-- What is searched for, in whatever bin and at whatever interval. -/
def searches (s : Searcher) : Multiset (UInt32 × Bytes × Int) := s.content.map fun q => search q.2

/-- Another request for a name. -/
def retouch (now : Int) (pvname : Bytes) (r : UInt32 × Bytes × Int) : UInt32 × Bytes × Int :=
  if r.2.1 = pvname then (r.1, r.2.1, now) else r

theorem searched_iff : s.Searched pvname ↔ ∃ r ∈ s.searches, r.2.1 = pvname := by
  unfold Searched searches
  constructor
  · rintro ⟨q, hq, rfl⟩
    exact ⟨_, Multiset.mem_map_of_mem _ hq, rfl⟩
  · rintro ⟨r, hr, rfl⟩
    obtain ⟨q, hq, rfl⟩ := Multiset.mem_map.mp hr
    exact ⟨q, hq, rfl⟩

theorem searches_touch {now : Int} (hContent : s'.content = s.content.map (touch now pvname)) :
    s'.searches = s.searches.map (retouch now pvname) := by
  unfold searches
  rw [hContent, Multiset.map_map, Multiset.map_map]
  refine Multiset.map_congr rfl fun q _ => ?_
  simp only [Function.comp_apply, touch, retouch, search]
  split <;> rfl

/-- Another request changes neither ids nor names. -/
theorem map_retouch (now : Int) (pvname : Bytes) (m : Multiset (UInt32 × Bytes × Int)) :
    (m.map (retouch now pvname)).map (fun r => (r.1, r.2.1)) = m.map fun r => (r.1, r.2.1) := by
  rw [Multiset.map_map]
  refine Multiset.map_congr rfl fun r _ => ?_
  simp only [Function.comp_apply, retouch]
  split <;> rfl

theorem searches_tick {packets : List Packet} (hTick : s.tick = some (s', packets)) :
    s'.searches = s.searches := by
  obtain ⟨-, -, -, hContent, -⟩ := tick_eq_some hTick
  unfold searches
  rw [hContent, Multiset.map_map]
  exact Multiset.map_congr rfl fun q _ => by simp [search]

/-- Forgetting the bins, a purge only drops PVs. -/
theorem searches_purge_le {clock : SearchedPV → Int} {maxtime : ℕ} {nPurged nSearching : UInt32}
    (hPurge : s.purgePVs clock maxtime = some (s', nPurged, nSearching)) :
    s'.searches ≤ s.searches := by
  obtain ⟨-, -, -, hContent⟩ := purgePVs_eq_some hPurge
  have hLe := Multiset.map_le_map (f := search) (le_of_eq_of_le hContent (Multiset.filter_le _ _))
  simpa only [searches, Multiset.map_map, Function.comp_def] using hLe

/-- What a step can do to the searches: start one, with the counter's value as
its id; renew the request of one; or drop some. -/
theorem step_searches (h : Inv s) {e : Event} {o : Output} (hStep : s.step e = some (s', o)) :
    (∃ now pvname, e = .addPV now pvname ∧ o = .added true ∧ s'.chanId = s.chanId + 1 ∧
        ¬ s.Searched pvname ∧ s'.searches = (s.chanId, pvname, now) ::ₘ s.searches) ∨
      (∃ now pvname, e = .addPV now pvname ∧ o = .added false ∧ s'.chanId = s.chanId ∧
        s'.searches = s.searches.map (retouch now pvname)) ∨
      ((∀ now pvname, e ≠ .addPV now pvname) ∧ o ≠ .added true ∧ s'.chanId = s.chanId ∧
        s'.searches ≤ s.searches) := by
  cases e with
  | addPV now pvname =>
    obtain ⟨isNew, hAdd, rfl⟩ := step_addPV hStep
    rcases addPV_eq_some h.names hAdd with ⟨rfl, hFresh, -, hs', hContent⟩ | ⟨rfl, -, hs', -, hContent⟩
    · refine Or.inl ⟨now, pvname, rfl, rfl, by rw [hs'], ?_, ?_⟩
      · rintro ⟨q, hq, hName⟩
        exact hFresh q hq hName
      · unfold searches
        rw [hContent, Multiset.map_cons]
        rfl
    · exact Or.inr (Or.inl ⟨now, pvname, rfl, rfl, by rw [hs'], searches_touch hContent⟩)
  | removePV pvname =>
    obtain ⟨rfl, rfl⟩ := step_removePV hStep
    exact Or.inr (Or.inr ⟨by simp, by simp, rfl, Multiset.map_le_map (removePV_le h pvname)⟩)
  | response chanId accepted =>
    refine Or.inr (Or.inr ⟨by simp, ?_⟩)
    rcases step_response hStep with ⟨-, rfl, rfl⟩ | ⟨pv, s₁, hTake, rfl, rfl⟩
    · exact ⟨by simp, rfl, le_rfl⟩
    · obtain ⟨-, hs₁, -, -⟩ := takeFound_eq_some hTake
      have hLe := takeFound_le hTake
      have hCounter : s₁.chanId = s.chanId := by rw [hs₁]
      refine ⟨by simp, ?_, Multiset.map_le_map ?_⟩
      · split
        · exact hCounter
        · exact hCounter
      · split
        · exact le_trans (removePV_le (inv_takeFound h hTake) pv.pvname) hLe
        · exact hLe
  | outgoing now =>
    refine Or.inr (Or.inr ⟨by simp, ?_⟩)
    rcases step_outgoing hStep with ⟨-, rfl, rfl⟩ | ⟨-, packets, hTick, rfl⟩
    · exact ⟨by simp, rfl, le_rfl⟩
    · obtain ⟨-, hs', -⟩ := tick_eq_some hTick
      exact ⟨by simp, by rw [hs'], le_of_eq (searches_tick hTick)⟩
  | purge clock maxtime =>
    obtain ⟨nPurged, nSearching, hPurge, rfl⟩ := step_purge hStep
    obtain ⟨-, hs', -⟩ := purgePVs_eq_some hPurge
    exact Or.inr (Or.inr ⟨by simp, by simp, by rw [hs'], searches_purge_le hPurge⟩)

theorem searched_step (h : Inv s) {e : Event} {o : Output} (hStep : s.step e = some (s', o))
    (hSearched : s'.Searched pvname) : s.Searched pvname ∨ ∃ now, e = .addPV now pvname := by
  obtain ⟨r, hr, rfl⟩ := searched_iff.mp hSearched
  rcases step_searches h hStep with ⟨now, name, rfl, -, -, -, hNext⟩ | ⟨now, name, -, -, -, hNext⟩ |
    ⟨-, -, -, hNext⟩
  · rw [hNext] at hr
    rcases Multiset.mem_cons.mp hr with rfl | hr
    · exact Or.inr ⟨now, rfl⟩
    · exact Or.inl (searched_iff.mpr ⟨r, hr, rfl⟩)
  · rw [hNext] at hr
    obtain ⟨r', hr', rfl⟩ := Multiset.mem_map.mp hr
    refine Or.inl (searched_iff.mpr ⟨r', hr', ?_⟩)
    unfold retouch
    split <;> rfl
  · exact Or.inl (searched_iff.mpr ⟨r, Multiset.mem_of_le hNext hr, rfl⟩)

/-- A name in the bins was there before, or `addPV` was called with it. -/
theorem searched_run {tr : List (Event × Output)} (hRun : Runs.Run step s tr s') (h : Inv s)
    (hSearched : s'.Searched pvname) :
    s.Searched pvname ∨ ∃ x ∈ tr, ∃ now, x.1 = .addPV now pvname := by
  induction hRun with
  | nil => exact Or.inl hSearched
  | cons hStep _ ih =>
    -- in the bins after the first step, or added in the rest of the run
    rcases ih (inv_step h hStep) hSearched with hBefore | ⟨x, hx, now, hAdd⟩
    · rcases searched_step h hStep hBefore with hBefore | ⟨now, rfl⟩
      · exact Or.inl hBefore
      · exact Or.inr ⟨_, List.mem_cons_self .., now, rfl⟩
    · exact Or.inr ⟨x, List.mem_cons_of_mem _ hx, now, hAdd⟩

-- ---------------------------------------------------------------------------
-- What stays as it is
-- ---------------------------------------------------------------------------

/-- The entries of one name, each with the index of its bin. -/
def entries (s : Searcher) (pvname : Bytes) : Multiset (ℕ × SearchedPV) :=
  s.content.filter (·.2.pvname = pvname)

variable {other : Bytes}

theorem entries_addPV (h : Inv s) {now : Int} {isNew : Bool}
    (hAdd : s.addPV now pvname = some (s', isNew)) (hOther : other ≠ pvname) :
    s'.entries other = s.entries other := by
  unfold entries
  rcases addPV_eq_some h.names hAdd with ⟨-, -, -, -, hContent⟩ | ⟨-, -, -, -, hContent⟩
  · rw [hContent, Multiset.filter_cons_of_neg]
    exact Ne.symm hOther
  · -- asking again changes the entry asked for only
    have hSame : ∀ q ∈ s.content.filter (·.2.pvname = other), touch now pvname q = q := by
      intro q hq
      have hName := (Multiset.mem_filter.mp hq).2
      exact if_neg fun hEq => hOther (hName.symm.trans hEq)
    rw [hContent, Multiset.filter_map]
    simp only [Function.comp_def, touch_pvname]
    rw [Multiset.map_congr rfl hSame, Multiset.map_id']

theorem entries_removePV (h : Inv s) (hOther : other ≠ pvname) :
    (s.removePV pvname).entries other = s.entries other := by
  unfold entries
  rw [content_removePV h.names, Multiset.filter_filter]
  refine Multiset.filter_congr fun q _ => ?_
  constructor
  · exact fun hName => hName.1
  · rintro rfl
    exact ⟨rfl, hOther⟩

theorem entries_takeFound {chanId : UInt32} {pv : SearchedPV}
    (hTake : s.takeFound chanId = some (pv, s')) (hOther : other ≠ pv.pvname) :
    s'.entries other = s.entries other := by
  obtain ⟨-, -, -, b, hContent⟩ := takeFound_eq_some hTake
  unfold entries
  rw [hContent, Multiset.filter_cons_of_neg]
  exact Ne.symm hOther

-- ---------------------------------------------------------------------------
-- What the invariant makes of adding and removing
-- ---------------------------------------------------------------------------

/-- The names in the bins, bin by bin, are distinct. -/
theorem Inv.nodup_flatten (h : Inv s) : (s.searchedPvs.flatten.map (·.pvname)).Nodup := by
  have hNames := h.names
  rw [← Function.comp_def SearchedPV.pvname Prod.snd, ← Multiset.map_map, content,
    Slots.content_map_snd] at hNames
  exact hNames

theorem searched_iff_mem_bin :
    s.Searched pvname ↔ ∃ bin ∈ s.searchedPvs, ∃ pv ∈ bin, pv.pvname = pvname := by
  constructor
  · rintro ⟨⟨b, pv⟩, hq, hName⟩
    obtain ⟨bin, hGet, hPv⟩ := mem_content.mp hq
    exact ⟨bin, List.mem_of_getElem? hGet, pv, hPv, hName⟩
  · rintro ⟨bin, hBin, pv, hPv, hName⟩
    obtain ⟨b, hGet⟩ := List.mem_iff_getElem?.mp hBin
    exact ⟨(b, pv), mem_content.mpr ⟨bin, hGet, hPv⟩, hName⟩

/-- What is asked for is searched for. -/
theorem searched_addPV (h : Inv s) {now : Int} {isNew : Bool}
    (hAdd : s.addPV now pvname = some (s', isNew)) : s'.Searched pvname := by
  rcases addPV_eq_some h.names hAdd with ⟨-, -, -, -, hContent⟩ | ⟨-, hOld, -, -, hContent⟩
  · refine ⟨(s.currentBin, s.newPv now pvname), ?_, rfl⟩
    rw [hContent]
    exact Multiset.mem_cons_self _ _
  · obtain ⟨q, hq, hName⟩ := hOld
    refine ⟨touch now pvname q, ?_, by rw [touch_pvname, hName]⟩
    rw [hContent]
    exact Multiset.mem_map_of_mem _ hq

/-- What a request for a name in the bins does to a PV. -/
def refresh (now : Int) (pvname : Bytes) (pv : SearchedPV) : SearchedPV :=
  if pv.pvname = pvname then { pv with lastSearched := now } else pv

/-- Adding a name that is in the bins sets its `lastSearched`, in place. -/
theorem addPV_of_searched (h : Inv s) (now : Int) (hSearched : s.Searched pvname) :
    s.addPV now pvname =
      some ({ s with searchedPvs := s.searchedPvs.map (List.map (refresh now pvname)) }, false) := by
  obtain ⟨bin, hBin, pv, hPv, hName⟩ := searched_iff_mem_bin.mp hSearched
  have hUnique : s.searchedPvs.flatten.countP (·.pvname == pvname) ≤ 1 := by
    have hCount := List.nodup_iff_count_le_one.mp h.nodup_flatten pvname
    rwa [List.count, List.countP_map] at hCount
  unfold addPV
  split
  · next bins hUpdate =>
    rw [Slots.updateFirst_eq_map hUpdate hUnique]
    simp [refresh]
  · next hNone =>
    have hMiss := Slots.updateFirst_eq_none.mp hNone bin hBin pv hPv
    simp [hName] at hMiss

/-- Adding a name tells whether it is new. -/
theorem exists_addPV_iff (h : Inv s) (hBins : s.searchedPvs ≠ []) (now : Int) (pvname : Bytes) :
    ∃ s' isNew, s.addPV now pvname = some (s', isNew) ∧
      (isNew = true ↔ ¬ s.Searched pvname) := by
  obtain ⟨⟨s', isNew⟩, hAdd⟩ := exists_addPV (h.bin_lt (by simpa using hBins)) now pvname
  refine ⟨s', isNew, hAdd, ?_⟩
  rcases addPV_eq_some h.names hAdd with ⟨rfl, hFresh, -⟩ | ⟨rfl, hOld, -⟩
  · simpa [Searched] using hFresh
  · simpa [Searched] using hOld

/-- **Representation invariant**, and what it makes of adding and removing. In
every reachable state of a searcher with bins `m_currentBin` is one of them,
no name occurs twice, and a PV's intervals are a non-empty end of the
searcher's. So `addPV` answers whether the name is new, asking again changes
`lastSearched` only, and a removed name is gone. -/
theorem searcher_invariant {searchIntervals : List UInt32} (h : Reachable searchIntervals s)
    (hBins : s.searchedPvs ≠ []) :
    (s.currentBin < s.searchedPvs.length ∧
        (s.searchedPvs.flatten.map (·.pvname)).Nodup ∧
        ∀ bin ∈ s.searchedPvs, ∀ pv ∈ bin,
          pv.intervals ≠ [] ∧ pv.intervals <:+ s.searchIntervals) ∧
      (∀ now pvname, ∃ s' isNew, s.addPV now pvname = some (s', isNew) ∧
        (isNew = true ↔ ∀ bin ∈ s.searchedPvs, ∀ pv ∈ bin, pv.pvname ≠ pvname)) ∧
      (∀ now pvname, (∃ bin ∈ s.searchedPvs, ∃ pv ∈ bin, pv.pvname = pvname) →
        s.addPV now pvname =
          some ({ s with searchedPvs := s.searchedPvs.map (List.map (refresh now pvname)) }, false)) ∧
      ∀ pvname, ∀ bin ∈ (s.removePV pvname).searchedPvs, ∀ pv ∈ bin, pv.pvname ≠ pvname := by
  have hInv := h.inv
  refine ⟨⟨hInv.bin_lt (by simpa using hBins), hInv.nodup_flatten, ?_⟩, ?_, ?_, ?_⟩
  · intro bin hBin pv hPv
    obtain ⟨b, hGet⟩ := List.mem_iff_getElem?.mp hBin
    exact hInv.intervals (b, pv) (mem_content.mpr ⟨bin, hGet, hPv⟩)
  · intro now pvname
    obtain ⟨s', isNew, hAdd, hIff⟩ := exists_addPV_iff hInv hBins now pvname
    refine ⟨s', isNew, hAdd, hIff.trans ?_⟩
    rw [searched_iff_mem_bin]
    simp
  · intro now pvname hSearched
    exact addPV_of_searched hInv now (searched_iff_mem_bin.mpr hSearched)
  · intro pvname bin hBin pv hPv hName
    exact not_searched_removePV hInv pvname (searched_iff_mem_bin.mpr ⟨bin, hBin, pv, hPv, hName⟩)

/-- A searcher that searches for one name: asking for it again is no news. -/
theorem searcher_invariant_oneName :
    ∃ s, Reachable [1] s ∧ s.content.card = 1 ∧
      s.addPV 5 [chr 'A'] =
        some ({ s with searchedPvs := s.searchedPvs.map (List.map (refresh 5 [chr 'A'])) }, false) := by
  have hExec : (Runs.exec step tenBins [.addPV 0 [chr 'A']]).map Prod.snd =
      some { tenBins with
        chanId := 1
        searchedPvs := tenBins.searchedPvs.set 0 [⟨0, [chr 'A'], 0, [1, 2, 10]⟩] } := rfl
  have hReach := tenBins_reachable.exec _ hExec
  refine ⟨_, hReach, by decide, ?_⟩
  exact (searcher_invariant hReach (by decide)).2.2.1 5 [chr 'A']
    ⟨_, List.mem_cons_self .., _, List.mem_cons_self .., rfl⟩

end Searcher

end PVmapper
