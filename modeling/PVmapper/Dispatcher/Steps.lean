import PVmapper.IocGuard.Calls
import PVmapper.Model.Dispatcher
import PVmapper.Searcher.Schedule

/-!
# PVmapper — what each dispatcher operation does

The facts about the callbacks and the steps of the main loop that the
invariants of the dispatcher are derived from.

* `caPvFound_cases`, `caPvSearched_cases` — what the two callbacks can do.
* `step_guards`          — what one step does to the guards, to `m_iocs` and to
  the connections.
-/

namespace PVmapper

namespace Dispatcher

variable {d d' : Dispatcher}

-- ---------------------------------------------------------------------------
-- Loops over the searchers
-- ---------------------------------------------------------------------------

/-- All calls of a loop answer, or none of them counts. -/
theorem mapM_id_eq_some {α : Type*} {l : List (Option α)} {l' : List α} :
    l.mapM id = some l' ↔ l = l'.map some := by
  induction l generalizing l' with
  | nil => cases l' <;> simp
  | cons x l ih =>
    rw [List.mapM_cons]
    cases x with
    | none => cases l' <;> simp
    | some x =>
      cases hRest : l.mapM id with
      | none =>
        cases l' with
        | nil => simp
        | cons y l' =>
          have hNot : l ≠ l'.map some := fun h => by
            rw [ih.mpr h] at hRest
            exact absurd hRest (by simp)
          simp [hNot]
      | some l₁ =>
        have hl : l = l₁.map some := ih.mp hRest
        cases l' with
        | nil => simp
        | cons y l' =>
          rw [hl]
          simp only [id_eq, Option.pure_def, Option.bind_eq_bind, Option.bind_some,
            Option.some.injEq, List.cons.injEq, List.map_cons]
          rw [List.map_inj_right fun _ _ => Option.some.inj]

/-- A loop over the searchers changes each of them. -/
theorem forSearchers_eq_some {f : ℕ → Searcher → Option Searcher}
    (h : d.forSearchers f = some d') :
    d' = { d with caSearchers := d'.caSearchers } ∧
      List.Forall₂ (fun s s' => ∃ k, f k s = some s') d.caSearchers d'.caSearchers := by
  obtain ⟨searchers, hMap, rfl⟩ := Option.map_eq_some_iff.mp h
  refine ⟨rfl, ?_⟩
  rw [mapM_id_eq_some] at hMap
  rw [List.forall₂_iff_get]
  -- the `k`-th results are equal, so the `k`-th searcher became the `k`-th new one
  have hLen := congrArg List.length hMap
  rw [List.length_mapIdx, List.length_map] at hLen
  refine ⟨hLen, fun k hk hk' => ⟨k, ?_⟩⟩
  have hGet := congrArg (·[k]?) hMap
  simpa [List.getElem?_mapIdx, List.getElem?_eq_getElem hk, List.getElem?_eq_getElem hk'] using hGet

/-- A loop over the searchers answers if each call in it does. -/
theorem exists_forSearchers {f : ℕ → Searcher → Option Searcher}
    (h : ∀ s ∈ d.caSearchers, ∀ k, ∃ s', f k s = some s') : ∃ d', d.forSearchers f = some d' := by
  -- the index of a searcher shifts in the tail, so `f` does too
  have hAll : ∃ searchers : List Searcher, d.caSearchers.mapIdx f = searchers.map some := by
    generalize d.caSearchers = searchers at h
    induction searchers generalizing f with
    | nil => exact ⟨[], rfl⟩
    | cons s searchers ih =>
      obtain ⟨s', hs'⟩ := h s (List.mem_cons_self ..) 0
      obtain ⟨rest, hRest⟩ := ih (f := fun k => f (k + 1))
        fun s hs k => h s (List.mem_cons_of_mem _ hs) (k + 1)
      exact ⟨s' :: rest, by rw [List.mapIdx_cons, hs', List.map_cons, hRest]⟩
  obtain ⟨searchers, hMap⟩ := hAll
  refine ⟨{ d with caSearchers := searchers }, ?_⟩
  unfold forSearchers
  rw [mapM_id_eq_some.mpr hMap]
  rfl

/-- What holds pairwise holds of some old searcher for each new one. -/
theorem exists_of_mem_forall₂ {α β : Type*} {R : α → β → Prop} {l : List α} {l' : List β}
    (h : List.Forall₂ R l l') {y : β} (hy : y ∈ l') : ∃ x ∈ l, R x y := by
  induction h with
  | nil => simp at hy
  | @cons a b l l' hab _ ih =>
    rcases List.mem_cons.mp hy with rfl | hy
    · exact ⟨a, List.mem_cons_self .., hab⟩
    · obtain ⟨x, hx, hxy⟩ := ih hy
      exact ⟨x, List.mem_cons_of_mem _ hx, hxy⟩

-- ---------------------------------------------------------------------------
-- Callbacks
-- ---------------------------------------------------------------------------

/-- A guard is connected if it is there and its socket is open. -/
theorem isConnected_iff {g : GuardId} :
    d.isConnected g = true ↔ ∃ guard, d.guards[g]? = some guard ∧ guard.isConnected = true := by
  unfold isConnected
  rw [Option.any_eq_true_iff_get]
  constructor
  · intro hAny
    obtain ⟨hSome, hConnected⟩ := hAny
    exact ⟨_, (Option.some_get hSome).symm, hConnected⟩
  · intro hGuard
    obtain ⟨guard, hGet, hConnected⟩ := hGuard
    refine ⟨by rw [hGet]; rfl, ?_⟩
    simpa [hGet] using hConnected

/-- The guard of an address is the one registered, or a new one. -/
theorem iocGuard_eq_some {opening : Opening} {now : Int} {addr : Address} {g : GuardId}
    (h : d.iocGuard opening now addr = some (d', g)) :
    (d.iocs.lookup addr = some g ∧ d' = d) ∨
      (d.iocs.lookup addr = none ∧ g = d.guards.length ∧
        ∃ guard, IocGuard.create opening addr now = some guard ∧
          d' = { d with
            guards := d.guards ++ [guard]
            iocs := d.iocs.insert addr d.guards.length
            connections := d.connections ++ [.guard d.guards.length] }) := by
  unfold iocGuard at h
  split at h
  · next g' hLookup =>
    simp only [Option.some.injEq, Prod.mk.injEq] at h
    exact Or.inl ⟨h.2 ▸ hLookup, h.1.symm⟩
  · next hLookup =>
    obtain ⟨guard, hCreate, hEq⟩ := Option.map_eq_some_iff.mp h
    rw [Prod.mk.injEq] at hEq
    exact Or.inr ⟨hLookup, hEq.2.symm, guard, hCreate, hEq.1.symm⟩

/-- `caPvFound` does nothing, or records the PV with the guard of its IOC and
stops the search for it everywhere. -/
theorem caPvFound_cases (d : Dispatcher) (opening : Opening) (now : Int) (f : FoundPv) :
    (d.caPvFound opening now f = (d, none)) ∨
      ∃ d₁ g, d.iocGuard opening now (f.iocIp, f.iocPort) = some (d₁, g) ∧
        d.caPvFound opening now f =
          ({ d₁ with
            caSearchers := d.caSearchers.map (·.removePV f.pvname)
            connectedPVs := d.connectedPVs.insert f.pvname ⟨some g, f.response⟩ }, some g) := by
  unfold caPvFound
  cases hGuard : d.iocGuard opening now (f.iocIp, f.iocPort) with
  | none => exact Or.inl rfl
  | some r =>
    obtain ⟨d₁, g⟩ := r
    refine Or.inr ⟨d₁, g, rfl, ?_⟩
    rcases iocGuard_eq_some hGuard with ⟨-, rfl⟩ | ⟨-, -, guard, -, rfl⟩ <;> rfl

/-- `caPvSearched` answers from the cache while the recorded guard is
connected, and otherwise forgets the PV and adds it to every searcher. -/
theorem caPvSearched_cases {clock : ℕ → Int} {pvname response : Bytes}
    (h : d.caPvSearched clock pvname = some (d', response)) :
    (∃ pv g, d.connectedPVs.lookup pvname = some pv ∧ pv.ioc = some g ∧
        d.isConnected g = true ∧ d' = d ∧ response = pv.response) ∨
      ((∀ pv g, d.connectedPVs.lookup pvname = some pv → pv.ioc = some g →
          d.isConnected g = false) ∧
        response = [] ∧ d'.connectedPVs.lookup pvname = none ∧
        (∀ other, other ≠ pvname → d'.connectedPVs.lookup other = d.connectedPVs.lookup other) ∧
        d' = { d with caSearchers := d'.caSearchers, connectedPVs := d'.connectedPVs } ∧
        List.Forall₂ (fun s s' => ∃ now isNew, s.addPV now pvname = some (s', isNew))
          d.caSearchers d'.caSearchers) := by
  -- what the loop over the searchers does, whatever the cache is by then
  have hLoop : ∀ {d₁ : Dispatcher}, d₁.addToSearchers clock pvname = some d' →
      d' = { d₁ with caSearchers := d'.caSearchers } ∧
        List.Forall₂ (fun s s' => ∃ now isNew, s.addPV now pvname = some (s', isNew))
          d₁.caSearchers d'.caSearchers := by
    intro d₁ hAdd
    obtain ⟨hEq, hEach⟩ := forSearchers_eq_some hAdd
    refine ⟨hEq, hEach.imp ?_⟩
    rintro s s' ⟨k, hk⟩
    obtain ⟨⟨s₁, isNew⟩, hAddPV, rfl⟩ := Option.map_eq_some_iff.mp hk
    exact ⟨clock k, isNew, hAddPV⟩
  unfold caPvSearched at h
  split at h
  · next pv hLookup =>
    split at h
    · next hAny =>
      rw [Option.any_eq_true_iff_get] at hAny
      obtain ⟨hSome, hConnected⟩ := hAny
      simp only [Option.some.injEq, Prod.mk.injEq] at h
      exact Or.inl ⟨pv, pv.ioc.get hSome, hLookup, (Option.some_get hSome).symm, hConnected,
        h.1.symm, h.2.symm⟩
    · next hAny =>
      obtain ⟨d₂, hAdd, hEq⟩ := Option.map_eq_some_iff.mp h
      rw [Prod.mk.injEq] at hEq
      obtain ⟨rfl, rfl⟩ := hEq
      obtain ⟨hD, hEach⟩ := hLoop hAdd
      -- a stale entry is erased first
      refine Or.inr ⟨fun pv' g hLookup' hg => ?_, rfl, ?_, fun other hOther => ?_, ?_, hEach⟩
      · rw [hLookup, Option.some.injEq] at hLookup'
        rw [← hLookup'] at hg
        rw [hg] at hAny
        simpa using hAny
      · rw [hD]
        exact AList.lookup_erase _ _
      · rw [hD]
        exact AList.lookup_erase_ne hOther
      · rw [hD]
  · next hLookup =>
    obtain ⟨d₂, hAdd, hEq⟩ := Option.map_eq_some_iff.mp h
    rw [Prod.mk.injEq] at hEq
    obtain ⟨rfl, rfl⟩ := hEq
    obtain ⟨hD, hEach⟩ := hLoop hAdd
    -- no entry at all
    refine Or.inr ⟨fun pv' g hLookup' => ?_, rfl, ?_, fun other _ => ?_, ?_, hEach⟩
    · rw [hLookup] at hLookup'
      exact absurd hLookup' (by simp)
    · rw [hD]
      exact hLookup
    · rw [hD]
    · rw [hD]

-- ---------------------------------------------------------------------------
-- Steps
-- ---------------------------------------------------------------------------

/-- A call of a guard changes that guard and calls the dispatcher back when the
guard has closed. -/
theorem callGuard_eq_some {g : GuardId} {call : IocGuard → IocGuard × List GuardAction}
    {acts : List GuardAction} (h : d.callGuard g call = some (d', acts)) :
    ∃ guard, d.guards[g]? = some guard ∧ acts = (call guard).2 ∧
      d' = { d with
        guards := d.guards.set g (call guard).1
        iocs := if .disconnectCb ∈ acts then d.iocs.erase guard.getIocAddr else d.iocs } := by
  unfold callGuard at h
  split at h
  · exact absurd h (by simp)
  · next guard hGet =>
    simp only [Option.some.injEq, Prod.mk.injEq] at h
    obtain ⟨rfl, rfl⟩ := h
    refine ⟨guard, hGet, rfl, ?_⟩
    split <;> rfl

variable {o : Output}

/-- A client's search is a call of `caPvSearched`. -/
theorem step_clientSearched {clock : ℕ → Int} {pvname : Bytes}
    (h : d.step (.clientSearched clock pvname) = some (d', o)) :
    ∃ response, d.caPvSearched clock pvname = some (d', response) ∧ o = .reply response := by
  obtain ⟨⟨d₁, response⟩, hSearched, hEq⟩ := Option.map_eq_some_iff.mp h
  rw [Prod.mk.injEq] at hEq
  obtain ⟨rfl, rfl⟩ := hEq
  exact ⟨response, hSearched, rfl⟩

/-- A response finds nothing and changes nothing, or takes the PV it is for out
of its searcher and hands it to `caPvFound`. -/
theorem step_response {k : ℕ} {iocIp : Bytes} {iocPort : UInt16} {response : UInt32 × Bytes}
    {opening : Opening} {now : Int}
    (h : d.step (.response k iocIp iocPort response opening now) = some (d', o)) :
    (d' = d ∧ o = .found none) ∨
      ∃ s pv s', d.caSearchers[k]? = some s ∧ s.takeFound response.1 = some (pv, s') ∧
        ∃ f g, f.pvname = pv.pvname ∧ o = .found (some (f, g)) ∧
          { d with caSearchers := d.caSearchers.set k s' }.caPvFound opening now f = (d', g) := by
  unfold step at h
  dsimp only at h
  split at h
  · exact absurd h (by simp)
  · next s hGet =>
    split at h
    · simp only [Option.some.injEq, Prod.mk.injEq] at h
      exact Or.inl ⟨h.1.symm, h.2.symm⟩
    · next pv s' hTake =>
      simp only [Option.some.injEq, Prod.mk.injEq] at h
      exact Or.inr ⟨s, pv, s', hGet, hTake, _, _, rfl, h.2.symm, Prod.ext h.1 rfl⟩

/-- An outgoing call of a searcher changes that searcher only. -/
theorem step_searcherOutgoing {k : ℕ} {now : Int}
    (h : d.step (.searcherOutgoing k now) = some (d', o)) :
    ∃ s s' packets, d.caSearchers[k]? = some s ∧ s.processOutgoing now = some (s', packets) ∧
      d' = { d with caSearchers := d.caSearchers.set k s' } ∧ o = .sent k packets := by
  unfold step at h
  dsimp only at h
  split at h
  · exact absurd h (by simp)
  · next s hGet =>
    obtain ⟨⟨s', packets⟩, hOut, hEq⟩ := Option.map_eq_some_iff.mp h
    rw [Prod.mk.injEq] at hEq
    exact ⟨s, s', packets, hGet, hOut, hEq.1.symm, hEq.2.symm⟩

/-- A call of a guard of the connections, whichever of its two methods. -/
def IsCall (d d' : Dispatcher) (o : Output) : Prop :=
  ∃ g guard guard' acts, o = .guard g acts ∧ d.guards[g]? = some guard ∧
    IocGuard.Call guard guard' acts ∧
    d' = { d with
      guards := d.guards.set g guard'
      iocs := if .disconnectCb ∈ acts then d.iocs.erase guard.getIocAddr else d.iocs }

/-- A step of a guard is a call of it. -/
theorem isCall_of_callGuard {g : GuardId} {call : IocGuard → IocGuard × List GuardAction}
    (hCall : ∀ guard, IocGuard.Call guard (call guard).1 (call guard).2)
    (h : (if Connection.guard g ∈ d.connections then
      (d.callGuard g call).map fun r => (r.1, Output.guard g r.2) else none) = some (d', o)) :
    IsCall d d' o := by
  split at h
  · obtain ⟨⟨d₁, acts⟩, hCallGuard, hEq⟩ := Option.map_eq_some_iff.mp h
    rw [Prod.mk.injEq] at hEq
    obtain ⟨rfl, rfl⟩ := hEq
    obtain ⟨guard, hGet, rfl, hD⟩ := callGuard_eq_some hCallGuard
    exact ⟨g, guard, _, _, rfl, hGet, hCall guard, hD⟩
  · exact absurd h (by simp)

theorem step_guardIncoming {g : GuardId} {recvd now : Int}
    (h : d.step (.guardIncoming g recvd now) = some (d', o)) : IsCall d d' o :=
  isCall_of_callGuard (fun guard => IocGuard.call_processIncoming guard recvd now) h

theorem step_guardOutgoing {g : GuardId} {answers : Answers}
    (h : d.step (.guardOutgoing g answers) = some (d', o)) : IsCall d d' o :=
  isCall_of_callGuard (fun guard => IocGuard.call_processOutgoing guard answers) h

/-- A connection is dropped if it is closed, and nothing else changes. -/
theorem step_drop {i : ℕ} (h : d.step (.drop i) = some (d', o)) :
    ∃ c, d.connections[i]? = some c ∧ o = .done ∧
      (d.isOpen c = true ∧ d' = d ∨
        d.isOpen c = false ∧ d' = { d with connections := d.connections.eraseIdx i }) := by
  obtain ⟨c, hGet, hEq⟩ := Option.map_eq_some_iff.mp h
  rw [Prod.mk.injEq] at hEq
  obtain ⟨rfl, rfl⟩ := hEq
  refine ⟨c, hGet, rfl, ?_⟩
  split
  · next hOpen => exact Or.inl ⟨hOpen, rfl⟩
  · next hOpen => exact Or.inr ⟨by simpa using hOpen, rfl⟩

/-- Maintenance purges every searcher, or does nothing because it is too early. -/
theorem step_maintain {checkedAt : Int} {clock : ℕ → SearchedPV → Int} {now : Int}
    (h : d.step (.maintain checkedAt clock now) = some (d', o)) :
    o = .done ∧ (d' = d ∨
      d' = { d with caSearchers := d'.caSearchers, lastPurge := now } ∧
        List.Forall₂ (fun s s' => ∃ clock nPurged nSearching,
          s.purgePVs clock d.purgeDelay = some (s', nPurged, nSearching))
          d.caSearchers d'.caSearchers) := by
  unfold step at h
  dsimp only at h
  split at h
  · obtain ⟨d₁, hPurge, hEq⟩ := Option.map_eq_some_iff.mp h
    rw [Prod.mk.injEq] at hEq
    obtain ⟨rfl, rfl⟩ := hEq
    obtain ⟨d₂, hLoop, rfl⟩ := Option.map_eq_some_iff.mp hPurge
    obtain ⟨hD, hEach⟩ := forSearchers_eq_some hLoop
    refine ⟨rfl, Or.inr ⟨by rw [hD], hEach.imp ?_⟩⟩
    rintro s s' ⟨k, hk⟩
    obtain ⟨⟨s₁, nPurged, nSearching⟩, hPurgePVs, rfl⟩ := Option.map_eq_some_iff.mp hk
    exact ⟨clock k, nPurged, nSearching, hPurgePVs⟩
  · simp only [Option.some.injEq, Prod.mk.injEq] at h
    exact ⟨h.2.symm, Or.inl h.1.symm⟩

/-- A step leaves the guards alone, adds one, calls one, or drops a closed
connection. -/
theorem step_guards {e : Event} (h : d.step e = some (d', o)) :
    (d'.guards = d.guards ∧ d'.iocs = d.iocs ∧ d'.connections = d.connections ∧
        ∀ g acts, o ≠ .guard g acts) ∨
      (∃ guard, d.iocs.lookup guard.getIocAddr = none ∧ guard.isConnected = true ∧
        d'.guards = d.guards ++ [guard] ∧
        d'.iocs = d.iocs.insert guard.getIocAddr d.guards.length ∧
        d'.connections = d.connections ++ [.guard d.guards.length] ∧
        ∀ g acts, o ≠ .guard g acts) ∨
      IsCall d d' o ∨
      (∃ i c, d.connections[i]? = some c ∧ d.isOpen c = false ∧ d'.guards = d.guards ∧
        d'.iocs = d.iocs ∧ d'.connections = d.connections.eraseIdx i ∧
        ∀ g acts, o ≠ .guard g acts) := by
  cases e with
  | clientSearched clock pvname =>
    obtain ⟨response, hSearched, rfl⟩ := step_clientSearched h
    refine Or.inl ?_
    rcases caPvSearched_cases hSearched with ⟨-, -, -, -, -, rfl, -⟩ | ⟨-, -, -, -, hD, -⟩
    · simp
    · rw [hD]
      simp
  | response k iocIp iocPort response opening now =>
    rcases step_response h with ⟨rfl, rfl⟩ | ⟨s, pv, s', -, -, f, g, -, rfl, hFound⟩
    · simp
    · rcases caPvFound_cases { d with caSearchers := d.caSearchers.set k s' } opening now f with
        hNone | ⟨d₁, g', hGuard, hSome⟩
      · rw [hNone, Prod.mk.injEq] at hFound
        rw [← hFound.1]
        simp
      · rw [hSome, Prod.mk.injEq] at hFound
        rw [← hFound.1]
        -- the address has its guard already, or gets a new one
        rcases iocGuard_eq_some hGuard with ⟨-, rfl⟩ | ⟨hLookup, -, guard, hCreate, rfl⟩
        · simp
        · obtain ⟨hConnected, hAddr⟩ := IocGuard.create_eq_some hCreate
          rw [← hAddr] at hLookup ⊢
          exact Or.inr (Or.inl ⟨guard, hLookup, hConnected, rfl, rfl, rfl, by simp⟩)
  | searcherOutgoing k now =>
    obtain ⟨s, s', packets, -, -, rfl, rfl⟩ := step_searcherOutgoing h
    simp
  | guardIncoming g recvd now => exact Or.inr (Or.inr (Or.inl (step_guardIncoming h)))
  | guardOutgoing g answers => exact Or.inr (Or.inr (Or.inl (step_guardOutgoing h)))
  | drop i =>
    obtain ⟨c, hGet, rfl, ⟨-, rfl⟩ | ⟨hClosed, rfl⟩⟩ := step_drop h
    · simp
    · exact Or.inr (Or.inr (Or.inr ⟨i, c, hGet, hClosed, rfl, rfl, rfl, by simp⟩))
  | maintain checkedAt clock now =>
    obtain ⟨rfl, rfl | ⟨hD, -⟩⟩ := step_maintain h
    · simp
    · rw [hD]
      simp

end Dispatcher

end PVmapper
