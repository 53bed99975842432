import PVmapper.Dispatcher.Searches
import PVmapper.Model.ConnectionsManager

/-!
# PVmapper — whole datagrams as runs of the dispatcher

`processIncoming` of a searcher and of a listener call back into the
dispatcher for every response or request of a datagram. This module plugs the
dispatcher's own callbacks into both and shows that handling a datagram is a
run of the transition system, one step for each message: what holds of every
run holds between any two callbacks of a datagram.

* `run_of_searcherIncoming` — one `response` step for each search response.
* `run_of_listenerIncoming` — one `clientSearched` step for each name that
  passes the rules.
-/

namespace PVmapper

namespace Dispatcher

variable {d d' : Dispatcher}

-- ---------------------------------------------------------------------------
-- A searcher's datagram
-- ---------------------------------------------------------------------------

variable (opening : FoundPv → Opening) (now : FoundPv → Int)

theorem length_caSearchers_step {e : Event} {o : Output} (h : d.step e = some (d', o)) :
    d'.caSearchers.length = d.caSearchers.length :=
  (step_searchers h).length_eq.symm

/-- An iteration of the loop over the responses is a `response` step. -/
theorem step_of_handleResponse {k : ℕ} (hk : k < d.caSearchers.length) (missing : Searcher)
    (iocIp : Bytes) (iocPort : UInt16) (response : UInt32 × Bytes) :
    ∃ answer time o, d.step (.response k iocIp iocPort response answer time) =
      some (Searcher.handleResponse (searcherAt missing k) (putSearcher k)
        (caPvFoundCb opening now) iocIp iocPort d response, o) := by
  have hGet : d.caSearchers[k]? = some d.caSearchers[k] := List.getElem?_eq_getElem hk
  have hAt : searcherAt missing k d = d.caSearchers[k] := by
    unfold searcherAt
    rw [List.getD_eq_getElem?_getD, hGet]
    rfl
  unfold Searcher.handleResponse step
  rw [hAt]
  simp only [hGet]
  cases hTake : d.caSearchers[k].takeFound response.1 with
  | none =>
    -- nothing is looked at, so any answers do
    exact ⟨⟨0, true, true⟩, 0, _, rfl⟩
  | some found =>
    obtain ⟨pv, s'⟩ := found
    let f : FoundPv := ⟨pv.pvname, iocIp, iocPort,
      (ChannelAccess.updateSearchReplyAddr response.2 iocIp iocPort).1⟩
    exact ⟨opening f, now f, _, rfl⟩

/-- **A searcher's datagram is a run**, with one step for each response. -/
theorem run_of_searcherIncoming {k : ℕ} (hk : k < d.caSearchers.length) (missing : Searcher)
    (remote : InAddr) (buffer : Bytes) :
    ∃ tr, Runs.Run step d tr (Searcher.processIncoming (searcherAt missing k) (putSearcher k)
        (caPvFoundCb opening now) remote buffer d) ∧
      List.Forall₂ (fun x response => ∃ iocPort answer time,
          x.1 = Event.response k (inetNtop remote) iocPort response answer time)
        tr (ChannelAccess.parseSearchResponse buffer) := by
  unfold Searcher.processIncoming
  dsimp only
  generalize ChannelAccess.parseSearchResponse buffer = responses
  generalize (ChannelAccess.parseIocAddr (inetNtop remote) buffer).2 = iocPort
  -- by induction on the responses, from any state that still has the searcher
  induction responses generalizing d with
  | nil => exact ⟨[], Runs.Run.nil d, List.Forall₂.nil⟩
  | cons response responses ih =>
    obtain ⟨answer, time, o, hStep⟩ :=
      step_of_handleResponse opening now hk missing (inetNtop remote) iocPort response
    have hk' := hk
    rw [← length_caSearchers_step hStep] at hk'
    obtain ⟨tr, hRun, hEvents⟩ := ih hk'
    exact ⟨_, Runs.Run.cons hStep hRun, List.Forall₂.cons ⟨iocPort, answer, time, rfl⟩ hEvents⟩

-- ---------------------------------------------------------------------------
-- A listener's datagram
-- ---------------------------------------------------------------------------

section Listener

variable {ρ : Type*} (regexMatch : ρ → Bytes → Bool) (clock : Bytes → ℕ → Int)

/-- **A listener's datagram is a run** of searches for names that pass the
rules. -/
theorem run_of_listenerIncoming (l : Listener ρ) (remote : InAddr) (clientPort : UInt16)
    (buffer : Bytes) {sent : List Bytes}
    (h : l.processIncoming regexMatch (caPvSearchedCb clock) remote clientPort buffer d =
      some (d', sent)) :
    ∃ tr, Runs.Run step d tr d' ∧
      ∀ x ∈ tr, ∃ pvname, x.1 = Event.clientSearched (clock pvname) pvname ∧ pvname ≠ [] ∧
        l.accessControl.checkAccessControl regexMatch pvname (inetNtop remote) = true ∧
        ∃ pv ∈ ChannelAccess.parseSearchRequest buffer, pvname = dropField pv.2 := by
  unfold Listener.processIncoming at h
  generalize ChannelAccess.parseSearchRequest buffer = pvs at h
  -- the replies sent so far are a parameter of the induction over the requests
  generalize ([] : List Bytes) = before at h
  induction pvs generalizing d before with
  | nil =>
    rw [List.foldlM_nil, Option.pure_def, Option.some.injEq, Prod.mk.injEq] at h
    rw [h.1]
    exact ⟨[], Runs.Run.nil d', by simp⟩
  | cons pv pvs ih =>
    rw [List.foldlM_cons, Option.bind_eq_bind, Option.bind_eq_some_iff] at h
    obtain ⟨⟨d₁, sent₁⟩, hOffer, hRest⟩ := h
    obtain ⟨tr, hRun, hPass⟩ := ih sent₁ hRest
    unfold Listener.offer at hOffer
    split at hOffer
    · -- the callback is called
      next hAllowed =>
      obtain ⟨⟨d₂, response⟩, hSearched, hEq⟩ := Option.map_eq_some_iff.mp hOffer
      have hState : d₂ = d₁ := by
        split at hEq
        · exact congrArg Prod.fst hEq
        · exact congrArg Prod.fst hEq
      have hStep : d.step (.clientSearched (clock (dropField pv.2)) (dropField pv.2)) =
          some (d₁, .reply response) := by
        rw [← hState]
        exact Option.map_eq_some_iff.mpr ⟨(d₂, response), hSearched, rfl⟩
      refine ⟨_, Runs.Run.cons hStep hRun, fun x hx => ?_⟩
      rcases List.mem_cons.mp hx with rfl | hx
      · exact ⟨dropField pv.2, rfl, hAllowed.1, hAllowed.2, pv, List.mem_cons_self .., rfl⟩
      · obtain ⟨pvname, hEvent, hne, hAllowed', pv', hMem, hName⟩ := hPass x hx
        exact ⟨pvname, hEvent, hne, hAllowed', pv', List.mem_cons_of_mem _ hMem, hName⟩
    · -- the name is empty or denied: nothing happens
      rw [Option.some.injEq, Prod.mk.injEq] at hOffer
      rw [hOffer.1]
      refine ⟨tr, hRun, fun x hx => ?_⟩
      obtain ⟨pvname, hEvent, hne, hAllowed', pv', hMem, hName⟩ := hPass x hx
      exact ⟨pvname, hEvent, hne, hAllowed', pv', List.mem_cons_of_mem _ hMem, hName⟩

end Listener

end Dispatcher

end PVmapper
