import PVmapper.Dispatcher.Datagrams
import PVmapper.Searcher.Purge
import PVmapper.Searcher.Tick

/-!
# PVmapper — when the connections answer

A searcher without bins has no bin to put a PV in, and one that searches for a
name without a SEARCH message cannot send it. With bins, and names no longer
than a datagram, neither happens: every call of a connection answers, and the
searchers stay like this.

* `Searcher.Ready`, `Searcher.ready_step` — one searcher.
* `ready_step`                            — every step of the dispatcher.
* `exists_processIncoming`, `exists_processOutgoing` — the calls answer.
-/

namespace PVmapper

namespace Searcher

variable {s s' : Searcher}

/-- A searcher with bins, and names short enough to be sent. -/
structure Ready (s : Searcher) : Prop where
  inv : Inv s
  bins : s.searchedPvs ≠ []
  names : ∀ pvname, s.Searched pvname → pvname.length < 65528

/-- The hand is at one of the bins. -/
theorem Ready.bin_lt (h : Ready s) : s.currentBin < s.searchedPvs.length :=
  h.inv.bin_lt fun hLen => h.bins (List.length_eq_zero_iff.mp hLen)

/-- A step keeps a searcher ready if it adds no long name. -/
theorem ready_step (h : Ready s) {e : Event} {o : Output} (hStep : s.step e = some (s', o))
    (hName : ∀ now pvname, e = .addPV now pvname → pvname.length < 65528) : Ready s' := by
  refine ⟨inv_step h.inv hStep, fun hBins => h.bins ?_, fun pvname hSearched => ?_⟩
  · have hLen := (sameFrame_step h.inv hStep).length
    rw [hBins] at hLen
    exact List.length_eq_zero_iff.mp hLen.symm
  · rcases searched_step h.inv hStep hSearched with hBefore | ⟨now, hAdd⟩
    · exact h.names pvname hBefore
    · exact hName now pvname hAdd

theorem ready_addPV (h : Ready s) {now : Int} {pvname : Bytes} {isNew : Bool}
    (hAdd : s.addPV now pvname = some (s', isNew)) (hName : pvname.length < 65528) : Ready s' := by
  refine ready_step h (step_of_addPV hAdd) fun now' pvname' hEq => ?_
  rw [Event.addPV.injEq] at hEq
  exact hEq.2 ▸ hName

theorem ready_removePV (h : Ready s) (pvname : Bytes) : Ready (s.removePV pvname) :=
  ready_step h (e := .removePV pvname) rfl (by simp)

theorem ready_takeFound (h : Ready s) {chanId : UInt32} {pv : SearchedPV}
    (hTake : s.takeFound chanId = some (pv, s')) : Ready s' :=
  ready_step h (step_of_takeFound hTake) (by simp)

theorem ready_processOutgoing (h : Ready s) {now : Int} {packets : List Packet}
    (hOut : s.processOutgoing now = some (s', packets)) : Ready s' :=
  ready_step h (step_of_processOutgoing hOut) (by simp)

theorem ready_purgePVs (h : Ready s) {clock : SearchedPV → Int} {maxtime : ℕ}
    {counts : UInt32 × UInt32} (hPurge : s.purgePVs clock maxtime = some (s', counts)) :
    Ready s' :=
  ready_step h (step_of_purgePVs hPurge) (by simp)

/-- Every due name has its message. -/
theorem Ready.exists_processOutgoing (h : Ready s) (now : Int) :
    ∃ r, s.processOutgoing now = some r := by
  unfold processOutgoing
  split
  · exact ⟨_, rfl⟩
  · refine (exists_tick_iff h.bin_lt).mpr ?_
    unfold Sendable due
    rw [List.forall_mem_map]
    intro pv hPv
    rw [ChannelAccess.exists_searchMessage_iff]
    have hSearched : s.Searched pv.pvname :=
      ⟨(s.currentBin, pv), mem_content.mpr ⟨_, bin_eq_getElem? h.bin_lt, hPv⟩, rfl⟩
    exact (Nat.mod_le _ _).trans_lt (h.names pv.pvname hSearched)

end Searcher

namespace Dispatcher

variable {d d' : Dispatcher}

/-- All searchers are ready. -/
def Ready (d : Dispatcher) : Prop := ∀ s ∈ d.caSearchers, s.Ready

/-- With a last interval of at least one tick, searchers are made ready. -/
theorem ready_of_init {searchIntervals : List UInt32} (h : Init searchIntervals d)
    (hBins : 0 < (Searcher.maxInterval searchIntervals).toNat) : Ready d := by
  intro s hs
  have hInit := h.1 s hs
  have hInv := Searcher.inv_of_init hInit
  have hReach : Searcher.Reachable searchIntervals s := Runs.Reachable.of_init hInit
  have hFrame := hReach.frame
  refine ⟨hInv, fun hNil => ?_, fun pvname hSearched => ?_⟩
  · rw [hNil, List.length_nil] at hFrame
    omega
  · obtain ⟨q, hq, -⟩ := hSearched
    rw [Searcher.content_of_init hInit] at hq
    exact absurd hq (Multiset.notMem_zero q)

-- ---------------------------------------------------------------------------
-- Steps
-- ---------------------------------------------------------------------------

/-- A search for a short name keeps the searchers ready. -/
theorem ready_clientSearched (h : Ready d) {clock : ℕ → Int} {pvname response : Bytes}
    (hSearched : d.caPvSearched clock pvname = some (d', response))
    (hName : pvname.length < 65528) : Ready d' := by
  rcases caPvSearched_cases hSearched with ⟨-, -, -, -, -, rfl, -⟩ | ⟨-, -, -, -, -, hEach⟩
  · exact h
  · intro s' hs'
    obtain ⟨s, hs, now, isNew, hAdd⟩ := exists_of_mem_forall₂ hEach hs'
    exact Searcher.ready_addPV (h s hs) hAdd hName

/-- One searcher may be replaced by a ready one. -/
theorem ready_set (h : Ready d) {k : ℕ} {s : Searcher} (hs : s.Ready) :
    Ready { d with caSearchers := d.caSearchers.set k s } := by
  intro s' hs'
  rcases List.mem_or_eq_of_mem_set hs' with hs' | rfl
  · exact h s' hs'
  · exact hs

/-- A step keeps the searchers ready if no client asks for a long name. -/
theorem ready_step (h : Ready d) {e : Event} {o : Output} (hStep : d.step e = some (d', o))
    (hName : ∀ clock pvname, e = .clientSearched clock pvname → pvname.length < 65528) :
    Ready d' := by
  cases e with
  | clientSearched clock pvname =>
    obtain ⟨response, hSearched, -⟩ := step_clientSearched hStep
    exact ready_clientSearched h hSearched (hName clock pvname rfl)
  | response k iocIp iocPort response opening now =>
    rcases step_response hStep with ⟨rfl, -⟩ | ⟨s, pv, s', hGet, hTake, f, g, -, -, hFound⟩
    · exact h
    · have hSet := ready_set h (k := k)
        (Searcher.ready_takeFound (h s (List.mem_of_getElem? hGet)) hTake)
      rcases caPvFound_cases { d with caSearchers := d.caSearchers.set k s' } opening now f with
        hNone | ⟨d₁, g', -, hSome⟩
      · rw [hNone, Prod.mk.injEq] at hFound
        rw [← hFound.1]
        exact hSet
      · rw [hSome, Prod.mk.injEq] at hFound
        rw [← hFound.1]
        intro s₂ hs₂
        obtain ⟨s₃, hs₃, rfl⟩ := List.mem_map.mp hs₂
        exact Searcher.ready_removePV (hSet s₃ hs₃) f.pvname
  | searcherOutgoing k now =>
    obtain ⟨s, s', packets, hGet, hOut, rfl, -⟩ := step_searcherOutgoing hStep
    exact ready_set h (Searcher.ready_processOutgoing (h s (List.mem_of_getElem? hGet)) hOut)
  | guardIncoming g recvd now =>
    obtain ⟨_, _, _, _, _, _, _, rfl⟩ := step_guardIncoming hStep
    exact h
  | guardOutgoing g answers =>
    obtain ⟨_, _, _, _, _, _, _, rfl⟩ := step_guardOutgoing hStep
    exact h
  | drop i =>
    obtain ⟨-, -, -, ⟨-, rfl⟩ | ⟨-, rfl⟩⟩ := step_drop hStep
    · exact h
    · exact h
  | maintain checkedAt clock now =>
    obtain ⟨-, rfl | ⟨-, hEach⟩⟩ := step_maintain hStep
    · exact h
    · intro s' hs'
      obtain ⟨s, hs, clock, nPurged, nSearching, hPurge⟩ := exists_of_mem_forall₂ hEach hs'
      exact Searcher.ready_purgePVs (h s hs) hPurge

/-- Maintenance is never stuck: every searcher has bins to deal to. -/
theorem exists_maintain (h : Ready d) (checkedAt : Int) (clock : ℕ → SearchedPV → Int) (now : Int) :
    ∃ r, d.step (.maintain checkedAt clock now) = some r := by
  unfold step
  dsimp only
  split
  · have hPurge : ∃ d₁, d.purge clock now = some d₁ := by
      obtain ⟨d₁, hLoop⟩ := exists_forSearchers (d := d)
        (f := fun k s => (s.purgePVs (clock k) d.purgeDelay).map Prod.fst) fun s hs k =>
          ⟨_, by rw [Searcher.purgePVs_of_bins (h s hs).bins]; rfl⟩
      exact ⟨_, by rw [purge, hLoop]; rfl⟩
    obtain ⟨d₁, hd₁⟩ := hPurge
    exact ⟨_, by rw [hd₁]; rfl⟩
  · exact ⟨_, rfl⟩

/-- A run whose searches are for short names. -/
theorem ready_run {tr : List (Event × Output)} (hRun : Runs.Run step d tr d') (h : Ready d)
    (hNames : ∀ x ∈ tr, ∀ clock pvname, x.1 = .clientSearched clock pvname → pvname.length < 65528) :
    Ready d' := by
  refine hRun.invariant_of_mem (I := Ready) (fun s e s' o hMem hReady hStep => ?_) h
  exact ready_step hReady hStep (hNames (e, o) hMem)

-- ---------------------------------------------------------------------------
-- Calls of the connections
-- ---------------------------------------------------------------------------

/-- A search is answered: every searcher has a bin to put a PV in. -/
theorem exists_caPvSearched (h : Ready d) (clock : ℕ → Int) (pvname : Bytes) :
    ∃ r, d.caPvSearched clock pvname = some r := by
  have hAdd : ∀ d₁ : Dispatcher, d₁.caSearchers = d.caSearchers →
      ∃ d₂, d₁.addToSearchers clock pvname = some d₂ := by
    intro d₁ hEq
    refine exists_forSearchers fun s hs k => ?_
    obtain ⟨r, hr⟩ := Searcher.exists_addPV (h s (hEq ▸ hs)).bin_lt (clock k) pvname
    exact ⟨r.1, by rw [hr]; rfl⟩
  unfold caPvSearched
  split
  · split
    · exact ⟨_, rfl⟩
    · obtain ⟨d₂, hd₂⟩ := hAdd { d with connectedPVs := d.connectedPVs.erase pvname } rfl
      exact ⟨_, by rw [hd₂]; rfl⟩
  · obtain ⟨d₂, hd₂⟩ := hAdd d rfl
    exact ⟨_, by rw [hd₂]; rfl⟩

/-- A name in a datagram is no longer than the datagram. -/
theorem length_searched_le {buffer : Bytes} {pv : UInt32 × Bytes}
    (h : pv ∈ ChannelAccess.parseSearchRequest buffer) :
    (dropField pv.2).length ≤ buffer.length := by
  rw [ChannelAccess.parseSearchRequest_eq] at h
  obtain ⟨o, -, rfl⟩ := List.mem_map.mp h
  have hField := (List.takeWhile_prefix (l := ChannelAccess.copyStr (ChannelAccess.payload buffer o))
    (· != chr '.')).length_le
  have hNuls := (List.rdropWhile_prefix (fun x : UInt8 => x == 0)
    (l := ChannelAccess.payload buffer o)).length_le
  have hPayload : (ChannelAccess.payload buffer o).length ≤ buffer.length := by
    unfold ChannelAccess.payload ChannelAccess.slice
    rw [List.length_take, List.length_drop]
    omega
  exact hField.trans (hNuls.trans hPayload)

section Listener

variable {ρ : Type*} (regexMatch : ρ → Bytes → Bool)

/-- A datagram is handled to its end: the names in it are short. -/
theorem exists_listenerDatagram (h : Ready d) (l : Listener ρ) (clock : Bytes → ℕ → Int)
    (remote : InAddr) (port : UInt16) {buffer : Bytes} (hSize : buffer.length ≤ 4096) :
    ∃ r, l.processIncoming regexMatch (caPvSearchedCb clock) remote port buffer d = some r := by
  unfold Listener.processIncoming
  have hNames : ∀ pv ∈ ChannelAccess.parseSearchRequest buffer, (dropField pv.2).length < 65528 :=
    fun pv hpv => by
      have := length_searched_le hpv
      omega
  generalize ChannelAccess.parseSearchRequest buffer = pvs at hNames
  generalize ([] : List Bytes) = sent
  induction pvs generalizing d sent with
  | nil => exact ⟨_, rfl⟩
  | cons pv pvs ih =>
    have hRest := fun pv' hpv' => hNames pv' (List.mem_cons_of_mem _ hpv')
    rw [List.foldlM_cons]
    unfold Listener.offer
    split
    · obtain ⟨⟨d₁, response⟩, hSearched⟩ := exists_caPvSearched h (clock (dropField pv.2)) (dropField pv.2)
      have hReady := ready_clientSearched h hSearched (hNames pv (List.mem_cons_self ..))
      unfold caPvSearchedCb
      rw [hSearched]
      dsimp only [Option.map_some, Option.bind_eq_bind, Option.bind_some]
      split
      · exact ih hReady hRest _
      · exact ih hReady hRest _
    · exact ih h hRest sent

/-- A step for a request in a datagram: a search for a short name. -/
def IsSearch (e : Event) : Prop :=
  ∃ clock pvname, e = .clientSearched clock pvname ∧ pvname.length < 65528

theorem IsSearch.short {e : Event} (h : IsSearch e) {clock : ℕ → Int} {pvname : Bytes}
    (hEq : e = .clientSearched clock pvname) : pvname.length < 65528 := by
  obtain ⟨clock', pvname', rfl, hShort⟩ := h
  rw [Event.clientSearched.injEq] at hEq
  exact hEq.2 ▸ hShort

/-- One datagram of a listener is a run of searches. -/
theorem run_of_listenerDatagram (l : Listener ρ) (p : Datagram) {sent : List Bytes}
    (h : l.processIncoming regexMatch (caPvSearchedCb p.clock) p.remote p.port p.buffer d =
      some (d', sent)) :
    ∃ tr, Runs.Run step d tr d' ∧ ∀ x ∈ tr, IsSearch x.1 := by
  obtain ⟨tr, hRun, hPass⟩ :=
    run_of_listenerIncoming regexMatch p.clock l p.remote p.port p.buffer h
  refine ⟨tr, hRun, fun x hx => ?_⟩
  obtain ⟨pvname, hEvent, -, -, pv, hpv, rfl⟩ := hPass x hx
  have := length_searched_le hpv
  have := p.size.2
  exact ⟨_, _, hEvent, by omega⟩

/-- The datagrams of a listener are a run of searches. -/
theorem run_of_listenerDatagrams (l : Listener ρ) {datagrams : List Datagram} {sent : List Bytes}
    (h : listenerIncoming regexMatch l datagrams d = some (d', sent)) :
    ∃ tr, Runs.Run step d tr d' ∧ ∀ x ∈ tr, IsSearch x.1 := by
  unfold listenerIncoming at h
  generalize ([] : List Bytes) = before at h
  induction datagrams generalizing d before with
  | nil =>
    rw [List.foldlM_nil, Option.pure_def, Option.some.injEq, Prod.mk.injEq] at h
    rw [h.1]
    exact ⟨[], Runs.Run.nil d', by simp⟩
  | cons p datagrams ih =>
    rw [List.foldlM_cons, Option.bind_eq_bind, Option.bind_eq_some_iff] at h
    obtain ⟨w, hHere, hRest⟩ := h
    obtain ⟨⟨d₁, sent₁⟩, hIncoming, rfl⟩ := Option.map_eq_some_iff.mp hHere
    obtain ⟨tr, hRun, hSearches⟩ := run_of_listenerDatagram regexMatch l p hIncoming
    obtain ⟨tr', hRun', hSearches'⟩ := ih _ hRest
    refine ⟨tr ++ tr', hRun.append hRun', fun x hx => ?_⟩
    rcases List.mem_append.mp hx with hx | hx
    · exact hSearches x hx
    · exact hSearches' x hx

/-- All that waits at a listener is handled to its end. -/
theorem exists_listenerIncoming (h : Ready d) (l : Listener ρ) (datagrams : List Datagram) :
    ∃ r, listenerIncoming regexMatch l datagrams d = some r := by
  unfold listenerIncoming
  generalize ([] : List Bytes) = before
  induction datagrams generalizing d before with
  | nil => exact ⟨_, rfl⟩
  | cons p datagrams ih =>
    obtain ⟨⟨d₁, sent⟩, hIncoming⟩ :=
      exists_listenerDatagram regexMatch h l p.clock p.remote p.port p.size.2
    obtain ⟨tr, hRun, hSearches⟩ := run_of_listenerDatagram regexMatch l p hIncoming
    rw [List.foldlM_cons, hIncoming]
    exact ih (ready_run hRun h fun x hx clock pvname hEq => (hSearches x hx).short hEq) _

end Listener

end Dispatcher

end PVmapper
