import PVmapper.Dispatcher.Steps
import PVmapper.Searcher.Entries

/-!
# PVmapper — what the dispatcher does to its searchers and to its cache

Seen from one searcher, a step of the dispatcher is a run of that searcher,
so what holds of a searcher in every reachable state holds of each searcher
of a dispatcher.

* `step_searchers`    — every step moves every searcher along a run of its own
  that adds no name the cache has afterwards.
* `step_connectedPVs` — what one step does to `m_connectedPVs`.
-/

namespace PVmapper

namespace Dispatcher

variable {d d' : Dispatcher}

-- ---------------------------------------------------------------------------
-- Searchers
-- ---------------------------------------------------------------------------

/-- A run of a searcher that adds no cached name. -/
def Moves (cached : Map Bytes PvInfo) (s s' : Searcher) : Prop :=
  ∃ tr, Runs.Run Searcher.step s tr s' ∧
    ∀ x ∈ tr, ∀ now pvname, x.1 = .addPV now pvname → cached.lookup pvname = none

variable {cached : Map Bytes PvInfo}

theorem Moves.refl (cached : Map Bytes PvInfo) (s : Searcher) : Moves cached s s :=
  ⟨[], Runs.Run.nil s, by simp⟩

/-- Two sequences of moves make one. -/
theorem Moves.trans {s s' s'' : Searcher} (h : Moves cached s s') (h' : Moves cached s' s'') :
    Moves cached s s'' := by
  obtain ⟨tr, hRun, hAdds⟩ := h
  obtain ⟨tr', hRun', hAdds'⟩ := h'
  refine ⟨tr ++ tr', hRun.append hRun', fun x hx => ?_⟩
  rcases List.mem_append.mp hx with hx | hx
  · exact hAdds x hx
  · exact hAdds' x hx

/-- A step of a searcher is a move unless it adds a name that is cached. -/
theorem Moves.single {s s' : Searcher} {e : Searcher.Event} {o : Searcher.Output}
    (hStep : s.step e = some (s', o))
    (hAdd : ∀ now pvname, e = .addPV now pvname → cached.lookup pvname = none) :
    Moves cached s s' := by
  refine ⟨[(e, o)], Runs.Run.single hStep, fun x hx => ?_⟩
  rw [List.mem_singleton.mp hx]
  exact hAdd

/-- Removing a PV is a move. -/
theorem Moves.removePV (cached : Map Bytes PvInfo) (s : Searcher) (pvname : Bytes) :
    Moves cached s (s.removePV pvname) :=
  Moves.single (e := .removePV pvname) rfl (by simp)

/-- Taking a PV that is found is a move. -/
theorem Moves.takeFound {s s' : Searcher} {chanId : UInt32} {pv : SearchedPV}
    (hTake : s.takeFound chanId = some (pv, s')) : Moves cached s s' :=
  Moves.single (Searcher.step_of_takeFound hTake) (by simp)

/-- The searcher stays reachable, and the names in it that the cache has were
in it before. -/
theorem Moves.reachable {searchIntervals : List UInt32} {s s' : Searcher} (h : Moves cached s s')
    (hReach : Searcher.Reachable searchIntervals s) :
    Searcher.Reachable searchIntervals s' ∧
      ∀ pvname, cached.lookup pvname ≠ none → s'.Searched pvname → s.Searched pvname := by
  obtain ⟨tr, hRun, hAdds⟩ := h
  refine ⟨Runs.Reachable.run hReach hRun, fun pvname hCached hSearched => ?_⟩
  -- a name that was not there before was added, and so is not cached
  rcases Searcher.searched_run hRun hReach.inv hSearched with hBefore | ⟨x, hx, now, hAdd⟩
  · exact hBefore
  · exact absurd (hAdds x hx now pvname hAdd) hCached

/-- Changing one element relates the lists if it relates the element. -/
theorem forall₂_set {α β : Type*} {R : α → β → Prop} {f : α → β} (hRefl : ∀ x, R x (f x))
    {l : List α} {k : ℕ} {x : α} {y : β} (hGet : l[k]? = some x) (hR : R x y) :
    List.Forall₂ R l ((l.map f).set k y) := by
  rw [List.forall₂_iff_get]
  refine ⟨by simp, fun i hi hi' => ?_⟩
  simp only [List.get_eq_getElem, List.getElem_set, List.getElem_map]
  split
  · next hEq =>
    subst hEq
    obtain ⟨_, hx⟩ := List.getElem?_eq_some_iff.mp hGet
    rw [hx]
    exact hR
  · exact hRefl _

/-- A step of the dispatcher moves its searchers, with what is cached afterwards. -/
theorem step_searchers {e : Event} {o : Output} (h : d.step e = some (d', o)) :
    List.Forall₂ (Moves d'.connectedPVs) d.caSearchers d'.caSearchers := by
  have hSame : ∀ {d₁ : Dispatcher}, d₁.caSearchers = d.caSearchers →
      List.Forall₂ (Moves d₁.connectedPVs) d.caSearchers d₁.caSearchers := by
    intro d₁ hEq
    rw [hEq, List.forall₂_same]
    exact fun s _ => Moves.refl _ s
  have hSet : ∀ {cached : Map Bytes PvInfo} {k : ℕ} {s s' : Searcher},
      d.caSearchers[k]? = some s → Moves cached s s' →
      List.Forall₂ (Moves cached) d.caSearchers (d.caSearchers.set k s') := by
    intro cached k s s' hGet hMoves
    have := forall₂_set (f := id) (Moves.refl cached) hGet hMoves
    rwa [List.map_id] at this
  cases e with
  | clientSearched clock pvname =>
    obtain ⟨response, hSearched, -⟩ := step_clientSearched h
    rcases caPvSearched_cases hSearched with ⟨-, -, -, -, -, rfl, -⟩ |
      ⟨-, -, hGone, -, -, hEach⟩
    · exact hSame rfl
    · refine hEach.imp ?_
      rintro s s' ⟨now, isNew, hAdd⟩
      refine Moves.single (Searcher.step_of_addPV hAdd) ?_
      rintro _ _ ⟨⟩
      exact hGone
  | response k iocIp iocPort response opening now =>
    rcases step_response h with ⟨rfl, -⟩ | ⟨s, pv, s', hGet, hTake, f, g, hName, -, hFound⟩
    · exact hSame rfl
    · rcases caPvFound_cases { d with caSearchers := d.caSearchers.set k s' } opening now f with
        hNone | ⟨d₁, g', -, hSome⟩
      · rw [hNone, Prod.mk.injEq] at hFound
        rw [← hFound.1]
        exact hSet hGet (Moves.takeFound hTake)
      · rw [hSome, Prod.mk.injEq] at hFound
        rw [← hFound.1]
        dsimp only
        rw [List.map_set]
        -- every searcher stops searching; the one that found the PV took it out first
        refine forall₂_set (fun s => Moves.removePV _ s f.pvname) hGet ?_
        exact (Moves.takeFound hTake).trans (Moves.removePV _ s' f.pvname)
  | searcherOutgoing k now =>
    obtain ⟨s, s', packets, hGet, hOut, rfl, -⟩ := step_searcherOutgoing h
    exact hSet hGet (Moves.single (Searcher.step_of_processOutgoing hOut) (by simp))
  | guardIncoming g recvd now =>
    obtain ⟨_, _, _, _, _, _, _, hD⟩ := step_guardIncoming h
    exact hSame (by rw [hD])
  | guardOutgoing g answers =>
    obtain ⟨_, _, _, _, _, _, _, hD⟩ := step_guardOutgoing h
    exact hSame (by rw [hD])
  | drop i =>
    obtain ⟨-, -, -, ⟨-, rfl⟩ | ⟨-, rfl⟩⟩ := step_drop h
    · exact hSame rfl
    · exact hSame rfl
  | maintain checkedAt clock now =>
    obtain ⟨-, rfl | ⟨-, hEach⟩⟩ := step_maintain h
    · exact hSame rfl
    · refine hEach.imp ?_
      rintro s s' ⟨clock, nPurged, nSearching, hPurge⟩
      exact Moves.single (Searcher.step_of_purgePVs hPurge) (by simp)

-- ---------------------------------------------------------------------------
-- The cache
-- ---------------------------------------------------------------------------

/-- A step leaves `m_connectedPVs` alone, drops an entry that a client asked
for and whose guard is not connected, or stores one that no searcher searches
for any more. -/
theorem step_connectedPVs {e : Event} {o : Output} (h : d.step e = some (d', o)) :
    (d'.connectedPVs = d.connectedPVs ∧ ∀ f g, o ≠ .found (some (f, some g))) ∨
      (∃ pvname, (∀ pv g, d.connectedPVs.lookup pvname = some pv → pv.ioc = some g →
          d.isConnected g = false) ∧
        d'.connectedPVs.lookup pvname = none ∧
        (∀ other, other ≠ pvname → d'.connectedPVs.lookup other = d.connectedPVs.lookup other) ∧
        ∀ f g, o ≠ .found (some (f, some g))) ∨
      ∃ k s chanId pv s' f g, d.caSearchers[k]? = some s ∧ s.takeFound chanId = some (pv, s') ∧
        f.pvname = pv.pvname ∧ o = .found (some (f, some g)) ∧
        d'.connectedPVs = d.connectedPVs.insert f.pvname ⟨some g, f.response⟩ ∧
        d'.caSearchers = (d.caSearchers.set k s').map (·.removePV f.pvname) := by
  cases e with
  | clientSearched clock pvname =>
    obtain ⟨response, hSearched, rfl⟩ := step_clientSearched h
    rcases caPvSearched_cases hSearched with ⟨-, -, -, -, -, rfl, -⟩ |
      ⟨hDead, -, hGone, hOther, -, -⟩
    · exact Or.inl ⟨rfl, by simp⟩
    · exact Or.inr (Or.inl ⟨pvname, hDead, hGone, hOther, by simp⟩)
  | response k iocIp iocPort response opening now =>
    rcases step_response h with ⟨rfl, rfl⟩ | ⟨s, pv, s', hGet, hTake, f, g, hName, rfl, hFound⟩
    · exact Or.inl ⟨rfl, by simp⟩
    · rcases caPvFound_cases { d with caSearchers := d.caSearchers.set k s' } opening now f with
        hNone | ⟨d₁, g', -, hSome⟩
      · rw [hNone, Prod.mk.injEq] at hFound
        obtain ⟨rfl, rfl⟩ := hFound
        exact Or.inl ⟨rfl, by simp⟩
      · rw [hSome, Prod.mk.injEq] at hFound
        obtain ⟨rfl, rfl⟩ := hFound
        exact Or.inr (Or.inr ⟨k, s, response.1, pv, s', f, g', hGet, hTake, hName, rfl, rfl, rfl⟩)
  | searcherOutgoing k now =>
    obtain ⟨_, _, _, _, _, rfl, rfl⟩ := step_searcherOutgoing h
    exact Or.inl ⟨rfl, by simp⟩
  | guardIncoming g recvd now =>
    obtain ⟨_, _, _, _, rfl, _, _, rfl⟩ := step_guardIncoming h
    exact Or.inl ⟨rfl, by simp⟩
  | guardOutgoing g answers =>
    obtain ⟨_, _, _, _, rfl, _, _, rfl⟩ := step_guardOutgoing h
    exact Or.inl ⟨rfl, by simp⟩
  | drop i =>
    obtain ⟨-, -, rfl, ⟨-, rfl⟩ | ⟨-, rfl⟩⟩ := step_drop h
    · exact Or.inl ⟨rfl, by simp⟩
    · exact Or.inl ⟨rfl, by simp⟩
  | maintain checkedAt clock now =>
    obtain ⟨rfl, rfl | ⟨hD, -⟩⟩ := step_maintain h
    · exact Or.inl ⟨rfl, by simp⟩
    · exact Or.inl ⟨by rw [hD], by simp⟩

end Dispatcher

end PVmapper
