import PVmapper.Dispatcher.Requests
import PVmapper.Spec.NameServer

/-!
# PVmapper — the dispatcher is a name server

A PV is a name, an IOC's guard a source. The dispatcher forgets what an IOC
answered only when a client asks for it again; the name server forgets it when
the connection is lost. A search goes on in several searchers, each with bins
of its own; for the name server it goes on or not. None of this can be seen
from outside.

* `mem_lost_step`, `answer_step` — what a step does to lost IOCs and to answers.
* `simulates_nameServer`         — a step of the dispatcher as steps of the
  name server.
* `refines_nameServer`           — every run of the dispatcher as a run of the
  name server.
* `served_clients`               — what clients and IOCs see.
-/

namespace PVmapper

namespace Dispatcher

open Runs (Run observed)
open NameServer (Shown)

variable {d d' d₀ : Dispatcher} {searchIntervals : List UInt32} {tr : List (Event × Output)}
  {e : Event} {o : Output} {pvname : Bytes}

-- ---------------------------------------------------------------------------
-- Abstraction
-- ---------------------------------------------------------------------------

/-- The cached answer for a PV, if its IOC is connected. -/
def answer (d : Dispatcher) (pvname : Bytes) : Option (GuardId × Bytes) :=
  match d.connectedPVs.lookup pvname with
  | some ⟨some g, response⟩ => if d.isConnected g then some (g, response) else none
  | _ => none

/-- Some searcher searches for the PV. -/
def IsSearched (d : Dispatcher) (pvname : Bytes) : Prop := ∃ s ∈ d.caSearchers, s.Searched pvname

/-- The guards that are closed. -/
def lost (d : Dispatcher) : Set GuardId := {g : ℕ | g < d.guards.length ∧ d.isConnected g = false}

open Classical in
noncomputable def status (d : Dispatcher) (pvname : Bytes) : NameServer.Status GuardId Bytes :=
  match d.answer pvname with
  | some (g, response) => .resolved g response
  | none => if d.IsSearched pvname then .searching else .idle

/-- The name server a dispatcher is. -/
noncomputable def nameServer (d : Dispatcher) : NameServer.State Bytes GuardId Bytes :=
  ⟨d.status, d.lost⟩

/-- What is seen of a step: a client's search and the reply, a response that is
recorded, and a connection that closes. -/
def shown : Event × Output → List (Shown Bytes GuardId Bytes)
  | (.clientSearched _ pvname, .reply response) => [.asked pvname response]
  | (_, .found (some (f, some g))) => [.resolved f.pvname g f.response]
  | (_, .guard g acts) => if .disconnectCb ∈ acts then [.lost g] else []
  | _ => []

theorem mem_lost {g : ℕ} : g ∈ d.lost ↔ g < d.guards.length ∧ d.isConnected g = false := Iff.rfl

/-- An answer is a cached response of a guard that is connected. -/
theorem answer_eq_some {g : GuardId} {response : Bytes} :
    d.answer pvname = some (g, response) ↔
      d.connectedPVs.lookup pvname = some ⟨some g, response⟩ ∧ d.isConnected g = true := by
  unfold answer
  split
  · next g' response' hLookup =>
    rw [Option.ite_none_right_eq_some, hLookup]
    simp only [Option.some.injEq, Prod.mk.injEq, PvInfo.mk.injEq]
    constructor
    · rintro ⟨hConnected, rfl, rfl⟩
      exact ⟨⟨rfl, rfl⟩, hConnected⟩
    · rintro ⟨⟨rfl, rfl⟩, hConnected⟩
      exact ⟨hConnected, rfl, rfl⟩
  · next hOther => exact iff_of_false (by simp) fun hAnswer => hOther g response hAnswer.1

/-- A name that is not cached has no answer. -/
theorem answer_of_lookup_none (h : d.connectedPVs.lookup pvname = none) :
    d.answer pvname = none := by
  unfold answer
  rw [h]

/-- A name with an answer is resolved. -/
theorem status_of_answer {g : GuardId} {response : Bytes}
    (h : d.answer pvname = some (g, response)) :
    d.status pvname = .resolved g response := by
  unfold status
  rw [h]

/-- A name without one that is in the bins is searched for. -/
theorem status_of_searched (h : d.answer pvname = none) (hSearched : d.IsSearched pvname) :
    d.status pvname = .searching := by
  unfold status
  rw [h]
  exact if_pos hSearched

/-- A name with neither is idle. -/
theorem status_of_not_searched (h : d.answer pvname = none) (hSearched : ¬ d.IsSearched pvname) :
    d.status pvname = .idle := by
  unfold status
  rw [h]
  exact if_neg hSearched

/-- The entry of a name is its answer. -/
theorem entry_status (d : Dispatcher) (pvname : Bytes) :
    (d.status pvname).entry = d.answer pvname := by
  cases hAnswer : d.answer pvname with
  | some entry => rw [status_of_answer hAnswer, NameServer.Status.entry_resolved]
  | none =>
    by_cases hSearched : d.IsSearched pvname
    · rw [status_of_searched hAnswer hSearched, NameServer.Status.entry_searching]
    · rw [status_of_not_searched hAnswer hSearched, NameServer.Status.entry_idle]

-- ---------------------------------------------------------------------------
-- Connections that close
-- ---------------------------------------------------------------------------

/-- Guards are never taken back. -/
theorem length_guards_step (hStep : d.step e = some (d', o)) :
    d.guards.length ≤ d'.guards.length := by
  rcases step_guards hStep with ⟨hGuards, -⟩ | ⟨guard, -, -, hGuards, -⟩ |
    ⟨g, guard, guard', acts, -, -, -, rfl⟩ | ⟨-, -, -, -, hGuards, -⟩
  · rw [hGuards]
  · rw [hGuards, List.length_append]
    exact Nat.le_add_right _ _
  · rw [List.length_set]
  · rw [hGuards]

theorem mem_actionsOf_guard {g g' : GuardId} {acts : List GuardAction} {act : GuardAction} :
    act ∈ actionsOf g' (.guard g acts) ↔ g = g' ∧ act ∈ acts := by
  show act ∈ (if g = g' then acts else []) ↔ _
  by_cases hEq : g = g'
  · simp [hEq]
  · simp [hEq]

/-- A guard there is stays connected unless it calls back. -/
theorem isConnected_step (hStep : d.step e = some (d', o)) {g : GuardId}
    (hg : g < d.guards.length) :
    d'.isConnected g = true ↔ d.isConnected g = true ∧ .disconnectCb ∉ actionsOf g o := by
  have hCloses := closes_iff hStep g
  have hBack := (isConnected_of_step hStep hg).2
  rw [← hCloses]
  constructor
  · intro hConnected
    exact ⟨hBack hConnected, fun hBoth => by simp [hConnected] at hBoth⟩
  · rintro ⟨hConnected, hStays⟩
    by_contra hClosed
    exact hStays ⟨hConnected, by simpa using hClosed⟩

/-- A guard that calls back is one of the guards. -/
theorem lt_of_actionsOf (hStep : d.step e = some (d', o)) {g : ℕ}
    (h : .disconnectCb ∈ actionsOf g o) : g < d.guards.length := by
  obtain ⟨hConnected, -⟩ := (closes_iff hStep g).mpr h
  obtain ⟨guard, hGet, -⟩ := isConnected_iff.mp hConnected
  exact (List.getElem?_eq_some_iff.mp hGet).1

/-- The guards that are lost are those that called back. -/
theorem mem_lost_step (hStep : d.step e = some (d', o)) (g : ℕ) :
    g ∈ d'.lost ↔ g ∈ d.lost ∨ .disconnectCb ∈ actionsOf g o := by
  rw [mem_lost, mem_lost]
  have hLen := length_guards_step hStep
  rcases Nat.lt_or_ge g d.guards.length with hg | hg
  · have hIff := isConnected_step hStep hg
    rw [← not_iff_not, not_and, not_or, not_and, Bool.not_eq_false, Bool.not_eq_false]
    constructor
    · intro h
      obtain ⟨hConnected, hQuiet⟩ := hIff.mp (h (by omega))
      exact ⟨fun _ => hConnected, hQuiet⟩
    · rintro ⟨hConnected, hQuiet⟩ -
      exact hIff.mpr ⟨hConnected hg, hQuiet⟩
  · -- a guard made in this step is connected
    refine iff_of_false ?_ ?_
    · rintro ⟨hg', hClosed⟩
      rcases step_guards hStep with ⟨hGuards, -⟩ | ⟨guard, -, hConnected, hGuards, -⟩ |
        ⟨g', guard, guard', acts, -, -, -, rfl⟩ | ⟨-, -, -, -, hGuards, -⟩
      · rw [hGuards] at hg'
        omega
      · rw [hGuards, List.length_append, List.length_singleton] at hg'
        obtain rfl : g = d.guards.length := by omega
        have hOpen : d'.isConnected d.guards.length = true := isConnected_iff.mpr ⟨guard, by
          rw [hGuards, List.getElem?_concat_length], hConnected⟩
        rw [hOpen] at hClosed
        exact absurd hClosed (by simp)
      · rw [List.length_set] at hg'
        omega
      · rw [hGuards] at hg'
        omega
    · rintro (⟨hg', -⟩ | hCalls)
      · omega
      · have := lt_of_actionsOf hStep hCalls
        omega

/-- Only the call of a guard loses it. -/
theorem lost_step (hStep : d.step e = some (d', o)) (hQuiet : ∀ g acts, o ≠ .guard g acts) :
    d'.lost = d.lost := by
  ext g
  rw [mem_lost_step hStep, actionsOf_eq_nil hQuiet]
  simp

-- ---------------------------------------------------------------------------
-- What the simulation relies on
-- ---------------------------------------------------------------------------

/-- The invariants the simulation relies on; the guards in the cache exist. -/
structure Sound (searchIntervals : List UInt32) (d : Dispatcher) : Prop where
  status : Status searchIntervals d
  registry : Registry d
  recorded : ∀ pvname g response, d.connectedPVs.lookup pvname = some ⟨some g, response⟩ →
    g < d.guards.length

/-- The invariants hold at the start. -/
theorem sound_of_init (h : Init searchIntervals d) : Sound searchIntervals d := by
  refine ⟨status_of_init h, registry_of_init h, fun pvname g response hLookup => ?_⟩
  obtain ⟨-, -, -, -, hCache⟩ := h
  rw [hCache, AList.lookup_empty] at hLookup
  exact absurd hLookup (by simp)

/-- The guard of an address is connected, and none that was lost. -/
theorem iocGuard_connected (h : Registry d) {opening : Opening} {now : Int} {addr : Address}
    {d₁ : Dispatcher} {g : GuardId} (hGuard : d.iocGuard opening now addr = some (d₁, g)) :
    (∃ guard, d₁.guards[g]? = some guard ∧ guard.isConnected = true ∧ guard.getIocAddr = addr) ∧
      g ∉ d.lost := by
  rcases iocGuard_eq_some hGuard with ⟨hLookup, rfl⟩ | ⟨-, rfl, guard, hCreate, rfl⟩
  · obtain ⟨guard, hGet, hConnected, hAddr, -⟩ := h.registered addr g hLookup
    have hOpen := isConnected_iff.mpr ⟨guard, hGet, hConnected⟩
    exact ⟨⟨guard, hGet, hConnected, hAddr⟩, fun hLost => by simp [hLost.2] at hOpen⟩
  · obtain ⟨hConnected, hAddr⟩ := IocGuard.create_eq_some hCreate
    exact ⟨⟨guard, List.getElem?_concat_length, hConnected, hAddr⟩, fun hLost =>
      absurd hLost.1 (lt_irrefl _)⟩

/-- A found PV is recorded with the guard of the IOC it was found on. -/
theorem found_guard (h : Registry d) {f : FoundPv} {g : GuardId}
    (hStep : d.step e = some (d', .found (some (f, some g)))) :
    (∃ guard, d'.guards[g]? = some guard ∧ guard.isConnected = true ∧
      guard.getIocAddr = (f.iocIp, f.iocPort)) ∧ g ∉ d.lost := by
  cases e with
  | response k iocIp iocPort response opening now =>
    rcases step_response hStep with ⟨-, ho⟩ | ⟨s, pv, s', -, -, f', g', -, ho, hFound⟩
    · exact absurd ho (by simp)
    · obtain ⟨rfl, rfl⟩ : f = f' ∧ some g = g' := by simpa using ho
      rcases caPvFound_cases { d with caSearchers := d.caSearchers.set k s' } opening now f with
        hNone | ⟨d₁, g', hGuard, hSome⟩
      · rw [hNone, Prod.mk.injEq] at hFound
        exact absurd hFound.2 (by simp)
      · rw [hSome, Prod.mk.injEq, Option.some.injEq] at hFound
        obtain ⟨rfl, rfl⟩ := hFound
        have hReg : Registry { d with caSearchers := d.caSearchers.set k s' } := h.congr rfl rfl rfl
        obtain ⟨hOpen, hAlive⟩ := iocGuard_connected hReg hGuard
        exact ⟨hOpen, hAlive⟩
  | clientSearched clock pvname => exact absurd (step_clientSearched hStep) (by simp)
  | searcherOutgoing k now => exact absurd (step_searcherOutgoing hStep) (by simp)
  | guardIncoming g recvd now => exact absurd (step_guardIncoming hStep) (by simp [IsCall])
  | guardOutgoing g answers => exact absurd (step_guardOutgoing hStep) (by simp [IsCall])
  | drop i => exact absurd (step_drop hStep) (by simp)
  | maintain checkedAt clock now => exact absurd (step_maintain hStep) (by simp)

/-- And after every step. -/
theorem sound_step (h : Sound searchIntervals d) (hStep : d.step e = some (d', o)) :
    Sound searchIntervals d' := by
  refine ⟨status_step h.status hStep, registry_step h.registry hStep,
    fun p g response hLookup => ?_⟩
  have hLen := length_guards_step hStep
  rcases step_connectedPVs hStep with ⟨hCache, -⟩ | ⟨name, -, hGone, hOther, -⟩ |
    ⟨k, s, chanId, pv, s', f, g', hGet, hTake, -, rfl, hCache, -⟩
  · rw [hCache] at hLookup
    exact (h.recorded p g response hLookup).trans_le hLen
  · have hName : p ≠ name := by
      rintro rfl
      rw [hGone] at hLookup
      exact absurd hLookup (by simp)
    rw [hOther p hName] at hLookup
    exact (h.recorded p g response hLookup).trans_le hLen
  · rw [hCache] at hLookup
    by_cases hName : p = f.pvname
    · subst hName
      rw [AList.lookup_insert, Option.some.injEq, PvInfo.mk.injEq, Option.some.injEq] at hLookup
      obtain ⟨rfl, -⟩ := hLookup
      obtain ⟨⟨guard, hGet', -⟩, -⟩ := found_guard h.registry hStep
      exact (List.getElem?_eq_some_iff.mp hGet').1
    · rw [AList.lookup_insert_ne hName] at hLookup
      exact (h.recorded p g response hLookup).trans_le hLen

/-- And after every run. -/
theorem sound_run (hRun : Run step d₀ tr d) (h : Sound searchIntervals d₀) :
    Sound searchIntervals d :=
  hRun.invariant (fun _ _ _ _ => sound_step) h

-- ---------------------------------------------------------------------------
-- What a step does to a PV
-- ---------------------------------------------------------------------------

/-- An entry that stays is an answer until its guard calls back. -/
theorem answer_step (h : Sound searchIntervals d) (hStep : d.step e = some (d', o))
    (hLookup : d'.connectedPVs.lookup pvname = d.connectedPVs.lookup pvname) :
    d'.answer pvname =
      (d.answer pvname).filter fun entry => .disconnectCb ∉ actionsOf entry.1 o := by
  ext ⟨g, response⟩
  rw [Option.filter_eq_some_iff, answer_eq_some, answer_eq_some, hLookup, and_assoc,
    decide_eq_true_iff]
  refine and_congr_right fun hHere => ?_
  exact isConnected_step hStep (h.recorded pvname g response hHere)

/-- A step that calls no guard changes an answer only through the cache. -/
theorem answer_of_quiet (h : Sound searchIntervals d) (hStep : d.step e = some (d', o))
    (hQuiet : ∀ g acts, o ≠ .guard g acts)
    (hLookup : d'.connectedPVs.lookup pvname = d.connectedPVs.lookup pvname) :
    d'.answer pvname = d.answer pvname := by
  rw [answer_step h hStep hLookup]
  cases d.answer pvname with
  | none => rfl
  | some entry => simp [actionsOf_eq_nil hQuiet]

/-- A name with an answer is in no bin. -/
theorem not_isSearched (h : Status searchIntervals d) {entry : GuardId × Bytes}
    (hAnswer : d.answer pvname = some entry) : ¬ d.IsSearched pvname := by
  rintro ⟨s, hs, hSearched⟩
  have hLookup := (answer_eq_some.mp hAnswer).1
  exact h.exclusive pvname (by simp [hLookup]) s hs hSearched

/-- No step but a client's search starts one. -/
theorem isSearched_step (h : Status searchIntervals d) (hStep : d.step e = some (d', o))
    (hOther : ∀ clock, e ≠ .clientSearched clock pvname) (hSearched : d'.IsSearched pvname) :
    d.IsSearched pvname := by
  obtain ⟨s', hs', hSearched⟩ := hSearched
  have hInv := h.invs
  obtain ⟨s, hs, hChanges⟩ := exists_of_mem_forall₂ (step_changes hInv hStep) hs'
  refine ⟨s, hs, ?_⟩
  rcases hChanges with ⟨clock, name, now, isNew, rfl, hAdd⟩ | ⟨-, hSearches⟩
  · rcases Searcher.searched_step (hInv s hs) (Searcher.step_of_addPV hAdd) hSearched with
      hBefore | ⟨now', hEq⟩
    · exact hBefore
    · rw [Searcher.Event.addPV.injEq] at hEq
      exact absurd (hEq.2 ▸ rfl) (hOther clock)
  · obtain ⟨r, hr, hName⟩ := Searcher.searched_iff.mp hSearched
    exact Searcher.searched_iff.mpr ⟨r, Multiset.mem_of_le hSearches hr, hName⟩

-- ---------------------------------------------------------------------------
-- Simulation
-- ---------------------------------------------------------------------------

/-- The names that are not searched for any more are given up. -/
theorem giveUp_eq {t : NameServer.State Bytes GuardId Bytes} (hLost : t.lost = d'.lost)
    (hAnswer : ∀ p, (t.status p).entry = d'.answer p)
    (hSearched : ∀ p, d'.answer p = none → d'.IsSearched p → t.status p = .searching) :
    NameServer.step [] t (.giveUp {p | ¬ d'.IsSearched p}) = some (d'.nameServer, []) := by
  unfold NameServer.step
  dsimp only
  rw [Option.some.injEq, Prod.mk.injEq]
  refine ⟨?_, rfl⟩
  rw [hLost]
  show (⟨_, d'.lost⟩ : NameServer.State Bytes GuardId Bytes) = ⟨d'.status, d'.lost⟩
  congr 1
  funext p
  have hHere := hAnswer p
  cases hAns : d'.answer p with
  | some entry =>
    obtain ⟨g, response⟩ := entry
    rw [status_of_answer hAns]
    rw [hAns] at hHere
    cases hStatus : t.status p with
    | resolved g' response' =>
      rw [hStatus, NameServer.Status.entry_resolved, Option.some.injEq, Prod.mk.injEq] at hHere
      simp [hHere]
    | idle => simp [hStatus] at hHere
    | searching => simp [hStatus] at hHere
  | none =>
    by_cases hs : d'.IsSearched p
    · rw [status_of_searched hAns hs, hSearched p hAns hs]
      simp [hs]
    · rw [status_of_not_searched hAns hs]
      rw [hAns] at hHere
      cases hStatus : t.status p with
      | resolved g' response' => simp [hStatus] at hHere
      | idle => simp
      | searching => simp [hs]

/-- What a run of the name server must do to stand for a step. -/
def Matches (d d' : Dispatcher) (shown : List (Shown Bytes GuardId Bytes)) : Prop :=
  ∃ tr, Run (NameServer.step []) d.nameServer tr d'.nameServer ∧ observed Prod.snd tr = shown

/-- Something is shown, and the names not searched for any more are given up. -/
theorem matches_of_event {event : NameServer.Event Bytes GuardId Bytes}
    {t : NameServer.State Bytes GuardId Bytes} {shown : List (Shown Bytes GuardId Bytes)}
    (hEvent : NameServer.step [] d.nameServer event = some (t, shown)) (hLost : t.lost = d'.lost)
    (hAnswer : ∀ p, (t.status p).entry = d'.answer p)
    (hSearched : ∀ p, d'.answer p = none → d'.IsSearched p → t.status p = .searching) :
    Matches d d' shown := by
  have hGiveUp := giveUp_eq hLost hAnswer hSearched
  exact ⟨[_, _], Run.cons hEvent (Run.single hGiveUp), by simp [observed]⟩

/-- Nothing is shown. -/
theorem matches_of_quiet (h : Sound searchIntervals d) (hStep : d.step e = some (d', o))
    (hQuiet : ∀ g acts, o ≠ .guard g acts) (hOther : ∀ clock p, e ≠ .clientSearched clock p)
    (hCache : d'.connectedPVs = d.connectedPVs) : Matches d d' [] := by
  have hAnswer : ∀ p, d'.answer p = d.answer p :=
    fun p => answer_of_quiet h hStep hQuiet (by rw [hCache])
  have hGiveUp := giveUp_eq (t := d.nameServer) (lost_step hStep hQuiet).symm
    (fun p => (entry_status d p).trans (hAnswer p).symm) fun p hNone hs =>
      status_of_searched (hAnswer p ▸ hNone)
        (isSearched_step h.status hStep (fun clock => hOther clock p) hs)
  exact ⟨[_], Run.single hGiveUp, rfl⟩

/-- A client's search. -/
theorem matches_clientSearched (h : Sound searchIntervals d) {clock : ℕ → Int} {response : Bytes}
    (hStep : d.step (.clientSearched clock pvname) = some (d', .reply response)) :
    Matches d d' [.asked pvname response] := by
  obtain ⟨response', hAsked, ho⟩ := step_clientSearched hStep
  obtain rfl : response = response' := by simpa using ho
  have hQuiet : ∀ g acts, Output.reply response ≠ .guard g acts := by simp
  have hLost := (lost_step hStep hQuiet).symm
  rcases caPvSearched_cases hAsked with ⟨⟨ioc, response⟩, g, hLookup, hIoc, hConnected, rfl, rfl⟩ |
    ⟨hDead, rfl, hGone, hOther, -, -⟩
  · -- answered from the cache
    obtain rfl : ioc = some g := hIoc
    have hStatus : d'.status pvname = .resolved g response :=
      status_of_answer (answer_eq_some.mpr ⟨hLookup, hConnected⟩)
    refine ⟨[_], Run.single (e := .ask pvname) (o := [.asked pvname response]) ?_, rfl⟩
    unfold NameServer.step
    dsimp only [nameServer]
    rw [hStatus]
  · have hNone : d.answer pvname = none := by
      rw [Option.eq_none_iff_forall_ne_some]
      rintro ⟨g, cached⟩ hAnswer
      obtain ⟨hLookup, hConnected⟩ := answer_eq_some.mp hAnswer
      rw [hDead _ g hLookup rfl] at hConnected
      exact absurd hConnected (by simp)
    have hEvent : NameServer.step [] d.nameServer (.ask pvname) =
        some (d.nameServer.set pvname .searching, [.asked pvname []]) := by
      unfold NameServer.step
      dsimp only [nameServer]
      by_cases hs : d.IsSearched pvname
      · rw [status_of_searched hNone hs]
      · rw [status_of_not_searched hNone hs]
    refine matches_of_event hEvent hLost (fun p => ?_) fun p hNone' hs => ?_
    · by_cases hName : p = pvname
      · subst hName
        rw [NameServer.State.status_set_self, answer_of_lookup_none hGone]
        rfl
      · rw [NameServer.State.status_set_ne _ _ hName]
        exact (entry_status d p).trans (answer_of_quiet h hStep hQuiet (hOther p hName)).symm
    · by_cases hName : p = pvname
      · subst hName
        exact NameServer.State.status_set_self ..
      · rw [NameServer.State.status_set_ne _ _ hName]
        rw [answer_of_quiet h hStep hQuiet (hOther p hName)] at hNone'
        refine status_of_searched hNone' (isSearched_step h.status hStep (fun clock' hEq => ?_) hs)
        rw [Event.clientSearched.injEq] at hEq
        exact hName hEq.2.symm

/-- A response that is recorded. -/
theorem matches_found (h : Sound searchIntervals d) {f : FoundPv} {g : GuardId}
    (hStep : d.step e = some (d', .found (some (f, some g)))) :
    Matches d d' [.resolved f.pvname g f.response] := by
  have hQuiet : ∀ g' acts, Output.found (some (f, some g)) ≠ .guard g' acts := by simp
  obtain ⟨⟨guard, hGet, hConnected, -⟩, hAlive⟩ := found_guard h.registry hStep
  have hOpen := isConnected_iff.mpr ⟨guard, hGet, hConnected⟩
  rcases step_connectedPVs hStep with ⟨-, hNo⟩ | ⟨name, -, -, -, hNo⟩ |
    ⟨k, s, chanId, pv, s', f', g', hGet, hTake, hName, ho, hCache, -⟩
  · exact absurd rfl (hNo f g)
  · exact absurd rfl (hNo f g)
  · obtain ⟨rfl, rfl⟩ : f = f' ∧ g = g' := by simpa using ho
    have hMem := List.mem_of_getElem? hGet
    have hSearched : s.Searched f.pvname := hName ▸ Searcher.searched_of_takeFound hTake
    have hLookup : d.connectedPVs.lookup f.pvname = none := by
      by_contra hCached
      exact h.status.exclusive f.pvname hCached s hMem hSearched
    have hStatus : d.status f.pvname = .searching :=
      status_of_searched (answer_of_lookup_none hLookup) ⟨s, hMem, hSearched⟩
    have hEvent : NameServer.step [] d.nameServer (.resolve f.pvname g f.response) =
        some (d.nameServer.set f.pvname (.resolved g f.response),
          [.resolved f.pvname g f.response]) :=
      if_pos ⟨hStatus, hAlive⟩
    have hHere : d'.answer f.pvname = some (g, f.response) := by
      refine answer_eq_some.mpr ⟨?_, hOpen⟩
      rw [hCache, AList.lookup_insert]
    have hOther : ∀ p, p ≠ f.pvname → d'.answer p = d.answer p := fun p hp =>
      answer_of_quiet h hStep hQuiet (by rw [hCache, AList.lookup_insert_ne hp])
    refine matches_of_event hEvent (lost_step hStep hQuiet).symm (fun p => ?_) fun p hNone hs => ?_
    · by_cases hp : p = f.pvname
      · subst hp
        rw [NameServer.State.status_set_self, hHere]
        rfl
      · rw [NameServer.State.status_set_ne _ _ hp, hOther p hp]
        exact entry_status d p
    · by_cases hp : p = f.pvname
      · subst hp
        rw [hHere] at hNone
        exact absurd hNone (by simp)
      · rw [NameServer.State.status_set_ne _ _ hp]
        refine status_of_searched (hOther p hp ▸ hNone) (isSearched_step h.status hStep ?_ hs)
        rintro clock rfl
        exact absurd (step_clientSearched hStep) (by simp)

/-- A call of a guard. -/
theorem matches_call (h : Sound searchIntervals d) (hStep : d.step e = some (d', o))
    (hCall : IsCall d d' o) (hOther : ∀ clock p, e ≠ .clientSearched clock p) :
    Matches d d' (shown (e, o)) := by
  obtain ⟨g, guard, guard', acts, rfl, hGet, -, hD⟩ := hCall
  have hShown : shown (e, .guard g acts) = if .disconnectCb ∈ acts then [.lost g] else [] := by
    cases e <;> rfl
  have hCache : d'.connectedPVs = d.connectedPVs := by rw [hD]
  have hAnswer : ∀ p, d'.answer p =
      (d.answer p).filter fun entry => .disconnectCb ∉ actionsOf entry.1 (.guard g acts) :=
    fun p => answer_step h hStep (by rw [hCache])
  rw [hShown]
  by_cases hCb : .disconnectCb ∈ acts
  · rw [if_pos hCb]
    have hActs : ∀ g', .disconnectCb ∈ actionsOf g' (.guard g acts) ↔ g' = g := by
      intro g'
      rw [mem_actionsOf_guard, and_iff_left hCb, eq_comm]
    have hOpen : d.isConnected g = true := ((closes_iff hStep g).mpr ((hActs g).mpr rfl)).1
    have hAlive : g ∉ d.lost := fun hLost => by simp [hLost.2] at hOpen
    have hEvent : NameServer.step [] d.nameServer (.lose g) =
        some (⟨fun p => (d.status p).without g, insert g d.lost⟩, [.lost g]) := if_neg hAlive
    refine matches_of_event hEvent ?_ (fun p => ?_) fun p hNone hs => ?_
    · ext g'
      rw [mem_lost_step hStep, hActs, Set.mem_insert_iff, or_comm]
    · dsimp only
      rw [NameServer.Status.entry_without, entry_status, hAnswer p]
      congr 1
      funext entry
      rw [decide_eq_decide, hActs]
    · -- a PV that is searched for has no answer that could be lost
      dsimp only
      rw [NameServer.Status.without_eq_searching]
      have hBefore := isSearched_step h.status hStep (fun clock => hOther clock p) hs
      refine status_of_searched ?_ hBefore
      rw [Option.eq_none_iff_forall_ne_some]
      exact fun entry hEntry => not_isSearched h.status hEntry hBefore
  · rw [if_neg hCb]
    have hQuiet : ∀ g', .disconnectCb ∉ actionsOf g' (.guard g acts) := fun g' hMem =>
      hCb (mem_actionsOf_guard.mp hMem).2
    have hLost : d'.lost = d.lost := by
      ext g'
      rw [mem_lost_step hStep]
      simp [hQuiet g']
    have hSame : ∀ p, d'.answer p = d.answer p := by
      intro p
      rw [hAnswer p]
      cases d.answer p with
      | none => rfl
      | some entry => simp [hQuiet]
    have hGiveUp := giveUp_eq (t := d.nameServer) hLost.symm
      (fun p => (entry_status d p).trans (hSame p).symm) fun p hNone hs =>
        status_of_searched (hSame p ▸ hNone)
          (isSearched_step h.status hStep (fun clock => hOther clock p) hs)
    exact ⟨[_], Run.single hGiveUp, rfl⟩

/-- Every step changes the name server in the way its output shows. -/
theorem matches_step (h : Sound searchIntervals d) (hStep : d.step e = some (d', o)) :
    Matches d d' (shown (e, o)) := by
  cases e with
  | clientSearched clock pvname =>
    obtain ⟨response, -, rfl⟩ := step_clientSearched hStep
    exact matches_clientSearched h hStep
  | response k iocIp iocPort response opening now =>
    rcases step_response hStep with ⟨rfl, rfl⟩ | ⟨s, pv, s', hGet, hTake, f, g, hName, rfl, hFound⟩
    · exact matches_of_quiet h hStep (by simp) (by simp) rfl
    · cases g with
      | some g => exact matches_found h hStep
      | none =>
        refine matches_of_quiet h hStep (by simp) (by simp) ?_
        rcases caPvFound_cases { d with caSearchers := d.caSearchers.set k s' } opening now f with
          hNone | ⟨d₁, g', -, hSome⟩
        · rw [hNone, Prod.mk.injEq] at hFound
          rw [← hFound.1]
        · rw [hSome, Prod.mk.injEq] at hFound
          exact absurd hFound.2 (by simp)
  | searcherOutgoing k now =>
    obtain ⟨s, s', packets, -, -, rfl, rfl⟩ := step_searcherOutgoing hStep
    exact matches_of_quiet h hStep (by simp) (by simp) rfl
  | guardIncoming g recvd now => exact matches_call h hStep (step_guardIncoming hStep) (by simp)
  | guardOutgoing g answers => exact matches_call h hStep (step_guardOutgoing hStep) (by simp)
  | drop i =>
    obtain ⟨c, -, rfl, ⟨-, rfl⟩ | ⟨-, rfl⟩⟩ := step_drop hStep
    · exact matches_of_quiet h hStep (by simp) (by simp) rfl
    · exact matches_of_quiet h hStep (by simp) (by simp) rfl
  | maintain checkedAt clock now =>
    obtain ⟨rfl, hD⟩ := step_maintain hStep
    refine matches_of_quiet h hStep (by simp) (by simp) ?_
    rcases hD with rfl | ⟨hD, -⟩
    · rfl
    · rw [hD]

/-- **The dispatcher simulates.** -/
theorem simulates_nameServer (searchIntervals : List UInt32) :
    Runs.Simulates step shown (NameServer.step []) Prod.snd
      fun d t => t = d.nameServer ∧ Sound searchIntervals d := by
  rintro d _ e d' o ⟨rfl, h⟩ hStep
  obtain ⟨tr, hRun, hShown⟩ := matches_step h hStep
  exact ⟨tr, _, hRun, ⟨rfl, sound_step h hStep⟩, hShown⟩

/-- A dispatcher starts out as a name server does. -/
theorem nameServer_of_init (h : Init searchIntervals d) : d.nameServer = NameServer.start := by
  obtain ⟨hSearchers, -, hGuards, -, hCache⟩ := h
  have hStatus : d.status = fun _ => .idle := by
    funext p
    refine status_of_not_searched (answer_of_lookup_none (by rw [hCache, AList.lookup_empty])) ?_
    rintro ⟨s, hs, q, hq, -⟩
    rw [Searcher.content_of_init (hSearchers s hs)] at hq
    exact absurd hq (Multiset.notMem_zero q)
  have hLost : d.lost = ∅ := by
    ext g
    rw [mem_lost, hGuards]
    simp
  unfold nameServer NameServer.start
  rw [hStatus, hLost]

/-- **The dispatcher refines a name server.** Every run of the dispatcher, with
any number of searchers and any order of client searches, responses, guard
calls, ticks and purges, is a run of the name server with the same client
searches and replies, the same PVs recorded with the same guards and responses,
and the same guards lost, in the same order; and it ends with the same names
searched for and resolved. -/
theorem refines_nameServer (hInit : Init searchIntervals d₀) (hRun : Run step d₀ tr d) :
    ∃ atr, Run (NameServer.step []) NameServer.start atr d.nameServer ∧
      observed Prod.snd atr = observed shown tr := by
  obtain ⟨atr, t, hARun, ⟨rfl, -⟩, hShown⟩ :=
    (simulates_nameServer searchIntervals).run hRun ⟨rfl, sound_of_init hInit⟩
  rw [nameServer_of_init hInit] at hARun
  exact ⟨atr, hARun, hShown⟩

/-- **Clients are served.** In every run, a client gets exactly the response
recorded last for the PV it asks for, unless the guard it was recorded with has
closed since, and otherwise no reply; a response is recorded only for a PV that
a client asked for in vain since the last one was recorded for it, that is not
cached with a connected guard, and with a guard that has not closed; and a
guard closes once. -/
theorem served_clients (hInit : Init searchIntervals d₀) (hRun : Run step d₀ tr d) :
    NameServer.Served [] (observed shown tr) := by
  refine (simulates_nameServer searchIntervals).shown (t := NameServer.start)
    ⟨(nameServer_of_init hInit).symm, sound_of_init hInit⟩ (fun atr t hARun => ?_) hRun
  exact NameServer.served_run hARun

/-- A client asks before and after the PV is found, and once more when its IOC
is gone. -/
def askedThrice : List Event :=
  foundAndClosed.take 3 ++ [.clientSearched (fun _ => 1500000000) [chr 'A']] ++
    foundAndClosed.drop 3 ++ [.clientSearched (fun _ => 3000000000) [chr 'A']]

/-- The dispatcher and the name server show the same. -/
theorem refines_askedThrice :
    ∃ tr d atr, Run step oneSearcher tr d ∧ tr.map Prod.fst = askedThrice ∧
      Run (NameServer.step []) NameServer.start atr d.nameServer ∧
      observed Prod.snd atr = observed shown tr := by
  have hRun : Run step oneSearcher _ _ := Runs.run_of_exec askedThrice rfl
  obtain ⟨atr, hARun, hShown⟩ := refines_nameServer init_oneSearcher hRun
  exact ⟨_, _, atr, hRun, rfl, hARun, hShown⟩

/-- And the client is served. -/
theorem served_askedThrice :
    ∃ tr d, Run step oneSearcher tr d ∧ tr.map Prod.fst = askedThrice ∧
      NameServer.Served [] (observed shown tr) := by
  have hRun : Run step oneSearcher _ _ := Runs.run_of_exec askedThrice rfl
  exact ⟨_, _, hRun, rfl, served_clients init_oneSearcher hRun⟩

end Dispatcher

end PVmapper
