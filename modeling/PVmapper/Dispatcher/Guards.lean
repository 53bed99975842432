import PVmapper.Dispatcher.Steps

/-!
# PVmapper — the registry of IOC guards

A guard dies inside one of its own calls: it closes its socket, calls
`iocDisconnected` with its address, and does nothing any more. The callback
erases by address, so it is the guard's own entry that goes only because at
any time the entry of an address is the one guard connected to it
(`Registry`).

* `registry_step`, `registry_run` — the registry over whole runs.
* `closedOnce_run`                — each guard calls back once, as its last
  action.
* `registry_exact`                — both, with what a step does.
-/

namespace PVmapper

namespace Dispatcher

variable {d d' d₀ : Dispatcher}

/-- `m_iocs` has exactly the connected guards, each under its own address and
registered as a connection. -/
structure Registry (d : Dispatcher) : Prop where
  registered : ∀ addr g, d.iocs.lookup addr = some g →
    ∃ guard, d.guards[g]? = some guard ∧ guard.isConnected = true ∧ guard.getIocAddr = addr ∧
      .guard g ∈ d.connections
  live : ∀ (g : GuardId) guard, d.guards[g]? = some guard → guard.isConnected = true →
    d.iocs.lookup guard.getIocAddr = some g

/-- What a step did on the connection of guard `g`. -/
def actionsOf (g : GuardId) : Output → List GuardAction
  | .guard g' acts => if g' = g then acts else []
  | _ => []

/-- What the steps of a trace did on the connection of guard `g`. -/
def guardActions (g : GuardId) (tr : List (Event × Output)) : List GuardAction :=
  tr.flatMap fun x => actionsOf g x.2

theorem actionsOf_eq_nil {g : GuardId} {o : Output} (h : ∀ g' acts, o ≠ .guard g' acts) :
    actionsOf g o = [] := by
  cases o with
  | guard g' acts => exact absurd rfl (h g' acts)
  | _ => rfl

-- ---------------------------------------------------------------------------
-- The registry
-- ---------------------------------------------------------------------------

theorem registry_of_init {searchIntervals : List UInt32} (h : Init searchIntervals d) :
    Registry d := by
  obtain ⟨-, -, hGuards, hIocs, -⟩ := h
  refine ⟨fun addr g hLookup => ?_, fun g guard hGet => ?_⟩
  · rw [hIocs, AList.lookup_empty] at hLookup
    exact absurd hLookup (by simp)
  · rw [hGuards] at hGet
    exact absurd hGet (by simp)

/-- A new guard, for an address that has none. -/
theorem Registry.add (h : Registry d) {guard : IocGuard}
    (hFree : d.iocs.lookup guard.getIocAddr = none) (hConnected : guard.isConnected = true)
    (hGuards : d'.guards = d.guards ++ [guard])
    (hIocs : d'.iocs = d.iocs.insert guard.getIocAddr d.guards.length)
    (hConnections : d'.connections = d.connections ++ [.guard d.guards.length]) : Registry d' := by
  refine ⟨fun addr g hLookup => ?_, fun g guard' hGet hConnected' => ?_⟩
  · rw [hGuards, hConnections]
    -- the new entry, or one from before
    by_cases hAddr : addr = guard.getIocAddr
    · subst hAddr
      rw [hIocs, AList.lookup_insert, Option.some.injEq] at hLookup
      subst hLookup
      exact ⟨guard, List.getElem?_concat_length, hConnected, rfl, by simp⟩
    · rw [hIocs, AList.lookup_insert_ne hAddr] at hLookup
      obtain ⟨guard', hGet, hConnected', hAddr', hMem⟩ := h.registered addr g hLookup
      refine ⟨guard', ?_, hConnected', hAddr', List.mem_append_left _ hMem⟩
      rw [List.getElem?_append_left (List.getElem?_eq_some_iff.mp hGet).1]
      exact hGet
  · rw [hGuards] at hGet
    rcases Nat.lt_or_ge g d.guards.length with hg | hg
    · -- an old guard's address is not the free one
      rw [List.getElem?_append_left hg] at hGet
      have hLookup := h.live g guard' hGet hConnected'
      have hAddr : guard'.getIocAddr ≠ guard.getIocAddr := by
        intro hAddr
        rw [hAddr, hFree] at hLookup
        exact absurd hLookup (by simp)
      rw [hIocs, AList.lookup_insert_ne hAddr]
      exact hLookup
    · rw [List.getElem?_append_right hg, List.getElem?_singleton] at hGet
      split at hGet
      · next hLast =>
        rw [Option.some.injEq] at hGet
        have hNew : d.guards.length = g := by omega
        rw [← hGet, hIocs, AList.lookup_insert, hNew]
      · exact absurd hGet (by simp)

theorem Registry.congr (h : Registry d) (hGuards : d'.guards = d.guards) (hIocs : d'.iocs = d.iocs)
    (hConnections : d'.connections = d.connections) : Registry d' := by
  refine ⟨fun addr g hLookup => ?_, fun g guard hGet hConnected => ?_⟩
  · rw [hIocs] at hLookup
    rw [hGuards, hConnections]
    exact h.registered addr g hLookup
  · rw [hGuards] at hGet
    rw [hIocs]
    exact h.live g guard hGet hConnected

section Call

variable {g : GuardId} {guard guard' : IocGuard}

theorem getElem?_set_other (hGuards : d'.guards = d.guards.set g guard') :
    ∀ g', g' ≠ g → d'.guards[g']? = d.guards[g']? := fun g' hne => by
  rw [hGuards, List.getElem?_set_ne (Ne.symm hne)]

theorem getElem?_set_called (hGet : d.guards[g]? = some guard)
    (hGuards : d'.guards = d.guards.set g guard') : d'.guards[g]? = some guard' := by
  rw [hGuards, List.getElem?_set_self (List.getElem?_eq_some_iff.mp hGet).1]

/-- A guard that stays connected keeps its entry. -/
theorem Registry.stays (h : Registry d) (hGet : d.guards[g]? = some guard)
    (hConnected : guard.isConnected = true) (hConnected' : guard'.isConnected = true)
    (hAddr : guard'.getIocAddr = guard.getIocAddr) (hGuards : d'.guards = d.guards.set g guard')
    (hIocs : d'.iocs = d.iocs) (hConnections : d'.connections = d.connections) : Registry d' := by
  have hOther := getElem?_set_other hGuards
  have hSelf := getElem?_set_called hGet hGuards
  refine ⟨fun addr g' hLookup => ?_, fun g' guard'' hGet'' hConnected'' => ?_⟩
  · rw [hIocs] at hLookup
    obtain ⟨guard₁, hGet₁, hConnected₁, hAddr₁, hMem⟩ := h.registered addr g' hLookup
    rw [hConnections]
    -- the guard called keeps its address; the others are not touched
    by_cases hEq : g' = g
    · subst hEq
      rw [hGet, Option.some.injEq] at hGet₁
      exact ⟨guard', hSelf, hConnected', hAddr.trans (hGet₁ ▸ hAddr₁), hMem⟩
    · exact ⟨guard₁, (hOther g' hEq).trans hGet₁, hConnected₁, hAddr₁, hMem⟩
  · rw [hIocs]
    by_cases hEq : g' = g
    · subst hEq
      rw [hSelf, Option.some.injEq] at hGet''
      rw [← hGet'', hAddr]
      exact h.live g' guard hGet hConnected
    · rw [hOther g' hEq] at hGet''
      exact h.live g' guard'' hGet'' hConnected''

/-- A guard that closes loses the entry of its address, which is its own. -/
theorem Registry.closes (h : Registry d) (hGet : d.guards[g]? = some guard)
    (hConnected : guard.isConnected = true) (hClosed : guard'.isConnected = false)
    (hGuards : d'.guards = d.guards.set g guard')
    (hIocs : d'.iocs = d.iocs.erase guard.getIocAddr) (hConnections : d'.connections = d.connections) :
    Registry d' := by
  have hOther := getElem?_set_other hGuards
  have hSelf := getElem?_set_called hGet hGuards
  have hMine := h.live g guard hGet hConnected
  refine ⟨fun addr g' hLookup => ?_, fun g' guard'' hGet'' hConnected'' => ?_⟩
  · have hAddr : addr ≠ guard.getIocAddr := by
      rintro rfl
      rw [hIocs, AList.lookup_erase] at hLookup
      exact absurd hLookup (by simp)
    rw [hIocs, AList.lookup_erase_ne hAddr] at hLookup
    obtain ⟨guard₁, hGet₁, hConnected₁, hAddr₁, hMem⟩ := h.registered addr g' hLookup
    -- an entry of another address is another guard's
    have hEq : g' ≠ g := by
      rintro rfl
      rw [hGet, Option.some.injEq] at hGet₁
      exact hAddr (hGet₁ ▸ hAddr₁.symm)
    rw [hConnections]
    exact ⟨guard₁, (hOther g' hEq).trans hGet₁, hConnected₁, hAddr₁, hMem⟩
  · have hEq : g' ≠ g := by
      rintro rfl
      rw [hSelf, Option.some.injEq] at hGet''
      rw [← hGet'', hClosed] at hConnected''
      exact absurd hConnected'' (by simp)
    rw [hOther g' hEq] at hGet''
    have hLookup := h.live g' guard'' hGet'' hConnected''
    -- and a guard still connected has another address
    have hAddr : guard''.getIocAddr ≠ guard.getIocAddr := by
      intro hAddr
      rw [hAddr, hMine, Option.some.injEq] at hLookup
      exact hEq hLookup.symm
    rw [hIocs, AList.lookup_erase_ne hAddr]
    exact hLookup

/-- A call of a guard: it stays as it is in the registry, or it closes and its
own entry is erased. -/
theorem Registry.call (h : Registry d) {acts : List GuardAction} (hGet : d.guards[g]? = some guard)
    (hCall : IocGuard.Call guard guard' acts)
    (hD : d' = { d with
      guards := d.guards.set g guard'
      iocs := if .disconnectCb ∈ acts then d.iocs.erase guard.getIocAddr else d.iocs }) :
    Registry d' := by
  have hGuards : d'.guards = d.guards.set g guard' := by rw [hD]
  have hIocs : d'.iocs = if .disconnectCb ∈ acts then d.iocs.erase guard.getIocAddr else d.iocs := by
    rw [hD]
  have hConnections : d'.connections = d.connections := by rw [hD]
  by_cases hConnected : guard.isConnected = true
  · rcases hCall.open_or_closed hConnected with ⟨hConnected', hQuiet⟩ | ⟨hClosed, acts', hActs, -⟩
    · rw [if_neg hQuiet] at hIocs
      exact h.stays hGet hConnected hConnected' hCall.addr hGuards hIocs hConnections
    · rw [if_pos (by simp [hActs])] at hIocs
      exact h.closes hGet hConnected hClosed hGuards hIocs hConnections
  · -- a closed guard does nothing
    obtain ⟨rfl, rfl⟩ := hCall.idle (by simpa using hConnected)
    rw [if_neg (by simp)] at hIocs
    have hSame : d'.guards = d.guards := by
      obtain ⟨_, rfl⟩ := List.getElem?_eq_some_iff.mp hGet
      rw [hGuards, List.set_getElem_self]
    exact h.congr hSame hIocs hConnections

end Call

/-- Every step keeps the registry. -/
theorem registry_step (h : Registry d) {e : Event} {o : Output} (hStep : d.step e = some (d', o)) :
    Registry d' := by
  -- nothing, a new guard, a call of one, or a closed connection dropped
  rcases step_guards hStep with ⟨hGuards, hIocs, hConnections, -⟩ |
    ⟨guard, hFree, hConnected, hGuards, hIocs, hConnections, -⟩ |
    ⟨g, guard, guard', acts, -, hGet, hCall, hD⟩ |
    ⟨i, c, hGet, hClosed, hGuards, hIocs, hConnections, -⟩
  · exact h.congr hGuards hIocs hConnections
  · exact h.add hFree hConnected hGuards hIocs hConnections
  · exact h.call hGet hCall hD
  · refine ⟨fun addr g hLookup => ?_, fun g guard hGet' hConnected => ?_⟩
    · rw [hIocs] at hLookup
      obtain ⟨guard, hGet', hConnected, hAddr, hMem⟩ := h.registered addr g hLookup
      refine ⟨guard, hGuards ▸ hGet', hConnected, hAddr, ?_⟩
      -- the connection dropped is closed, so it is not this guard's
      rw [hConnections, List.mem_eraseIdx_iff_getElem?]
      obtain ⟨j, hj⟩ := List.mem_iff_getElem?.mp hMem
      refine ⟨j, ?_, hj⟩
      rintro rfl
      rw [hj, Option.some.injEq] at hGet
      rw [← hGet] at hClosed
      have hOpen : d.isConnected g = true := isConnected_iff.mpr ⟨guard, hGet', hConnected⟩
      rw [isOpen, hOpen] at hClosed
      exact absurd hClosed (by simp)
    · rw [hGuards] at hGet'
      rw [hIocs]
      exact h.live g guard hGet' hConnected

/-- Every run keeps the registry. -/
theorem registry_run {tr : List (Event × Output)} (hRun : Runs.Run step d tr d') (h : Registry d) :
    Registry d' :=
  hRun.invariant (fun _ _ _ _ hReg => registry_step hReg) h

-- ---------------------------------------------------------------------------
-- The callback
-- ---------------------------------------------------------------------------

/-- In a trace so far, a connected guard has not called back, a closed one has
done so once and as its last action, and a guard not made yet did nothing. -/
def ClosedOnce (tr : List (Event × Output)) (d : Dispatcher) : Prop :=
  ∀ g : GuardId,
    (∀ guard, d.guards[g]? = some guard →
      (guard.isConnected = true → .disconnectCb ∉ guardActions g tr) ∧
      (guard.isConnected = false → ∃ acts, guardActions g tr = acts ++ [.disconnectCb] ∧
        .disconnectCb ∉ acts)) ∧
    (d.guards[g]? = none → guardActions g tr = [])

theorem guardActions_append (g : GuardId) (tr : List (Event × Output)) (e : Event) (o : Output) :
    guardActions g (tr ++ [(e, o)]) = guardActions g tr ++ actionsOf g o := by
  simp [guardActions]

theorem closedOnce_step {tr : List (Event × Output)} (h : ClosedOnce tr d) {e : Event} {o : Output}
    (hStep : d.step e = some (d', o)) : ClosedOnce (tr ++ [(e, o)]) d' := by
  intro g
  obtain ⟨hMade, hNone⟩ := h g
  rw [guardActions_append]
  rcases step_guards hStep with ⟨hGuards, -, -, hOut⟩ | ⟨guard, -, hConnected, hGuards, -, -, hOut⟩ |
    ⟨g', guard, guard', acts, rfl, hGet, hCall, rfl⟩ | ⟨-, -, -, -, hGuards, -, -, hOut⟩
  · rw [actionsOf_eq_nil hOut, List.append_nil, hGuards]
    exact ⟨hMade, hNone⟩
  · rw [actionsOf_eq_nil hOut, List.append_nil, hGuards]
    rcases Nat.lt_or_ge g d.guards.length with hg | hg
    · rw [List.getElem?_append_left hg]
      exact ⟨hMade, hNone⟩
    · -- a guard made now has done nothing yet
      have hNothing := hNone (List.getElem?_eq_none hg)
      rw [hNothing, List.getElem?_append_right hg, List.getElem?_singleton]
      refine ⟨fun guard'' hGet => ⟨fun _ => by simp, fun hClosed => ?_⟩, fun _ => rfl⟩
      split at hGet
      · rw [Option.some.injEq] at hGet
        rw [← hGet, hConnected] at hClosed
        exact absurd hClosed (by simp)
      · exact absurd hGet (by simp)
  · have hg : g' < d.guards.length := (List.getElem?_eq_some_iff.mp hGet).1
    by_cases hEq : g' = g
    · subst hEq
      -- a guard already closed adds nothing, an open one at most its last action
      obtain ⟨hOpen, hClosed⟩ := hMade guard hGet
      have hActs : actionsOf g' (.guard g' acts) = acts := if_pos rfl
      rw [hActs, List.getElem?_set_self hg]
      refine ⟨fun guard'' hGet'' => ?_, fun hAbs => absurd hAbs (by simp)⟩
      rw [Option.some.injEq] at hGet''
      subst hGet''
      by_cases hConnected : guard.isConnected = true
      · have hQuiet := hOpen hConnected
        rcases hCall.open_or_closed hConnected with ⟨hConnected', hStill⟩ |
          ⟨hClosed', acts', rfl, hLast⟩
        · refine ⟨fun _ => by simp [hQuiet, hStill], fun hAbs => ?_⟩
          rw [hConnected'] at hAbs
          exact absurd hAbs (by simp)
        · refine ⟨fun hAbs => ?_, fun _ => ⟨guardActions g' tr ++ acts', by simp, by
            simp [hQuiet, hLast]⟩⟩
          rw [hClosed'] at hAbs
          exact absurd hAbs (by simp)
      · obtain ⟨rfl, rfl⟩ := hCall.idle (by simpa using hConnected)
        rw [List.append_nil]
        exact ⟨hOpen, hClosed⟩
    · have hActs : actionsOf g (.guard g' acts) = [] := if_neg hEq
      rw [hActs, List.append_nil, List.getElem?_set_ne hEq]
      exact ⟨hMade, hNone⟩
  · rw [actionsOf_eq_nil hOut, List.append_nil, hGuards]
    exact ⟨hMade, hNone⟩

theorem closedOnce_run {searchIntervals : List UInt32} {tr : List (Event × Output)}
    (hInit : Init searchIntervals d₀) (hRun : Runs.Run step d₀ tr d) : ClosedOnce tr d := by
  have hStart : ClosedOnce [] d₀ := by
    intro g
    obtain ⟨-, -, hGuards, -⟩ := hInit
    rw [hGuards]
    exact ⟨fun guard hGet => absurd hGet (by simp), fun _ => rfl⟩
  exact hRun.history (fun _ _ _ _ _ hI hStep => closedOnce_step hI hStep) hStart

/-- A guard calls back in exactly the step that closes it. -/
theorem closes_iff {e : Event} {o : Output} (hStep : d.step e = some (d', o)) (g : GuardId) :
    (d.isConnected g = true ∧ d'.isConnected g = false) ↔ .disconnectCb ∈ actionsOf g o := by
  have hSame : ∀ {d₁ : Dispatcher}, d₁.guards[g]? = d.guards[g]? →
      d₁.isConnected g = d.isConnected g := by
    intro d₁ hEq
    unfold isConnected
    rw [hEq]
  have hQuiet : ∀ {d₁ : Dispatcher}, d₁.guards[g]? = d.guards[g]? →
      ¬ (d.isConnected g = true ∧ d₁.isConnected g = false) := by
    rintro d₁ hEq ⟨hOpen, hClosed⟩
    rw [hSame hEq, hOpen] at hClosed
    exact absurd hClosed (by simp)
  rcases step_guards hStep with ⟨hGuards, -, -, hOut⟩ | ⟨guard, -, hConnected, hGuards, -, -, hOut⟩ |
    ⟨g', guard, guard', acts, rfl, hGet, hCall, hD⟩ | ⟨-, -, -, -, hGuards, -, -, hOut⟩
  · rw [actionsOf_eq_nil hOut]
    simpa using hQuiet (by rw [hGuards])
  · rw [actionsOf_eq_nil hOut]
    refine iff_of_false ?_ (by simp)
    intro hCloses
    obtain ⟨hOpen, hClosed⟩ := hCloses
    obtain ⟨guard', hGet, hConnected'⟩ := isConnected_iff.mp hOpen
    have hKept : d'.isConnected g = true := isConnected_iff.mpr ⟨guard', by
      rw [hGuards, List.getElem?_append_left (List.getElem?_eq_some_iff.mp hGet).1, hGet],
      hConnected'⟩
    rw [hKept] at hClosed
    exact absurd hClosed (by simp)
  · have hGuards : d'.guards = d.guards.set g' guard' := by rw [hD]
    by_cases hEq : g' = g
    · subst hEq
      have hg : g' < d.guards.length := (List.getElem?_eq_some_iff.mp hGet).1
      have hBefore : d.isConnected g' = guard.isConnected := by
        unfold isConnected
        rw [hGet]
        rfl
      have hAfter : d'.isConnected g' = guard'.isConnected := by
        unfold isConnected
        rw [hGuards, List.getElem?_set_self hg]
        rfl
      have hActs : actionsOf g' (.guard g' acts) = acts := if_pos rfl
      rw [hBefore, hAfter, hActs]
      by_cases hConnected : guard.isConnected = true
      · rcases hCall.open_or_closed hConnected with ⟨hConnected', hStill⟩ | ⟨hClosed, acts', rfl, -⟩
        · exact iff_of_false (by simp [hConnected']) hStill
        · exact iff_of_true ⟨hConnected, hClosed⟩ (by simp)
      · obtain ⟨rfl, rfl⟩ := hCall.idle (by simpa using hConnected)
        exact iff_of_false (by simp [hConnected]) (by simp)
    · have hActs : actionsOf g (.guard g' acts) = [] := if_neg hEq
      rw [hActs]
      simpa using hQuiet (by rw [hGuards, List.getElem?_set_ne hEq])
  · rw [actionsOf_eq_nil hOut]
    simpa using hQuiet (by rw [hGuards])

/-- **The registry is exact.** In every reachable state `m_iocs` maps
addresses to connected, registered guards of that address; every connected
guard, so also every one a cached PV refers to, is the entry of its address,
and no other guard of that address is connected; and every guard has called
back if and only if it is closed, then once and as its last action, in the
step that closed it. -/
theorem registry_exact {searchIntervals : List UInt32} {tr : List (Event × Output)}
    (hInit : Init searchIntervals d₀) (hRun : Runs.Run step d₀ tr d) :
    (∀ addr g, d.iocs.lookup addr = some g →
        ∃ guard, d.guards[g]? = some guard ∧ guard.isConnected = true ∧ guard.getIocAddr = addr ∧
          .guard g ∈ d.connections) ∧
      (∀ (g : GuardId) guard, d.guards[g]? = some guard → guard.isConnected = true →
        d.iocs.lookup guard.getIocAddr = some g) ∧
      (∀ (g g' : GuardId) guard guard', d.guards[g]? = some guard → d.guards[g']? = some guard' →
        guard.isConnected = true → guard'.isConnected = true →
        guard.getIocAddr = guard'.getIocAddr → g = g') ∧
      (∀ (g : GuardId) guard, d.guards[g]? = some guard →
        (guard.isConnected = true → .disconnectCb ∉ guardActions g tr) ∧
        (guard.isConnected = false → ∃ acts, guardActions g tr = acts ++ [.disconnectCb] ∧
          .disconnectCb ∉ acts)) ∧
      (∀ e d' o, d.step e = some (d', o) → ∀ g,
        (d.isConnected g = true ∧ d'.isConnected g = false) ↔ .disconnectCb ∈ actionsOf g o) := by
  have hReg := registry_run hRun (registry_of_init hInit)
  have hOnce := closedOnce_run hInit hRun
  refine ⟨hReg.registered, hReg.live, ?_, fun g => (hOnce g).1, fun e d' o hStep g =>
    closes_iff hStep g⟩
  intro g g' guard guard' hGet hGet' hConnected hConnected' hAddr
  have hLookup := hReg.live g guard hGet hConnected
  rw [hAddr, hReg.live g' guard' hGet' hConnected', Option.some.injEq] at hLookup
  exact hLookup.symm

/-- A dispatcher with one listener and one searcher. -/
def oneSearcher : Dispatcher where
  purgeDelay := 600
  lastPurge := 0
  guards := []
  iocs := ∅
  caSearchers := [Searcher.tenBins]
  connectedPVs := ∅
  connections := [.listener 0, .searcher 0]

theorem init_oneSearcher : Init [1] oneSearcher := by
  refine ⟨fun searcher hMem => ?_, ⟨1, rfl⟩, rfl, rfl, rfl⟩
  rw [List.mem_singleton.mp hMem]
  exact Searcher.init_tenBins

/-- A client asks for a PV, it is searched for and found, and its IOC closes
the connection. -/
def foundAndClosed : List Event :=
  [.clientSearched (fun _ => 0) [chr 'A'], .searcherOutgoing 0 1000000000,
    .response 0 (inetNtop ⟨10, 0, 0, 7⟩) 5064 (0, ChannelAccess.ordinaryResponse 0) ⟨4, true, true⟩ 1000000000,
    .guardIncoming 0 0 2000000000]

/-- `oneSearcher` once its PV is found. -/
def oneFound : Dispatcher :=
  ((Runs.exec step oneSearcher (foundAndClosed.take 3)).get rfl).2

/-- The guard of that IOC calls back once and is gone from `m_iocs`. -/
theorem registry_foundAndClosed :
    ∃ tr d, Runs.Run step oneSearcher tr d ∧ tr.map Prod.fst = foundAndClosed ∧
      d.iocs.lookup (inetNtop ⟨10, 0, 0, 7⟩, 5064) = none ∧
      ∃ acts, guardActions 0 tr = acts ++ [.disconnectCb] ∧ .disconnectCb ∉ acts := by
  have hRun : Runs.Run step oneSearcher _ _ := Runs.run_of_exec foundAndClosed rfl
  obtain ⟨-, -, -, hOnce, -⟩ := registry_exact init_oneSearcher hRun
  exact ⟨_, _, hRun, rfl, rfl, (hOnce 0 _ rfl).2 rfl⟩

end Dispatcher

end PVmapper
