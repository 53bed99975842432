import PVmapper.Dispatcher.Origins
import PVmapper.Dispatcher.Projection
import PVmapper.IocGuard.Timeouts
import PVmapper.Lib.Clock

/-!
# PVmapper — what is forgotten, and when

Nothing the dispatcher holds stays for ever without a reason. An IOC that is
silent loses its guard, and with it all its cached PVs, by the second call of
the guard 11 s apart; one that never accepts the connection does within 6 s of
being found; and a name no client asks for is dropped by the second
maintenance in a row that could be due. All this is about the clock the calls
read, in whatever order and however seldom they come.

* `dated_run`                 — nothing remembered is later than now.
* `silent_ioc_forgotten`      — an IOC that is heard no more.
* `connecting_until_timeout`  — an IOC that never accepts.
* `unwanted_name_forgotten`   — a name that is asked for no more.
-/

namespace PVmapper

namespace Dispatcher

open Runs (Run Clocked)

variable {d d' d₀ d₁ d₂ : Dispatcher} {searchIntervals : List UInt32}
  {pre tr : List (Event × Output)} {e : Event} {o : Output} {pvname : Bytes} {t t' T T' : Int}
  {g : ℕ} {guard : IocGuard}

-- ---------------------------------------------------------------------------
-- The clock
-- ---------------------------------------------------------------------------

/-- During the event the clock goes from `t` to `t'`, and the readings the
event has ready are taken in their order. -/
def reads : Event → Int → Int → Prop
  | .clientSearched clock _, t, t' => ∀ k, t ≤ clock k ∧ clock k ≤ t'
  | .response _ _ _ _ _ now, t, t' => t ≤ now ∧ now ≤ t'
  | .searcherOutgoing _ now, t, t' => t ≤ now ∧ now ≤ t'
  | .guardIncoming _ _ now, t, t' => t ≤ now ∧ now ≤ t'
  | .guardOutgoing _ answers, t, t' => answers.Between t t'
  | .drop _, _, _ => True
  | .maintain checkedAt clock now, t, t' =>
    t ≤ checkedAt ∧ (∀ k pv, checkedAt ≤ clock k pv ∧ clock k pv ≤ now) ∧ checkedAt ≤ now ∧ now ≤ t'

/-- Nothing the dispatcher remembers is later than `t`. -/
structure Dated (t : Int) (d : Dispatcher) : Prop where
  purge : d.lastPurge ≤ t
  searches : ∀ s ∈ d.caSearchers, ∀ r ∈ s.searches, r.2.2 ≤ t
  guards : ∀ (g : ℕ) (guard : IocGuard), d.guards[g]? = some guard → guard.Dated t

theorem dated_of_init (hInit : Init searchIntervals d) (hPurge : d.lastPurge ≤ t) : Dated t d := by
  obtain ⟨hSearchers, -, hGuards, -, -⟩ := hInit
  refine ⟨hPurge, fun s hs r hr => ?_, fun g guard hGet => ?_⟩
  · rw [Searcher.searches, Searcher.content_of_init (hSearchers s hs)] at hr
    exact absurd hr (Multiset.notMem_zero r)
  · rw [hGuards] at hGet
    exact absurd hGet (by simp)

/-- What holds of every name and the time it was asked for, when it is asked
for, holds of all that is searched for. -/
theorem searches_step {P : Bytes → Int → Prop} (hInv : ∀ s ∈ d.caSearchers, s.Inv)
    (hStep : d.step e = some (d', o))
    (hAsked : ∀ clock name, e = .clientSearched clock name → ∀ k, P name (clock k))
    (h : ∀ s ∈ d.caSearchers, ∀ r ∈ s.searches, P r.2.1 r.2.2) :
    ∀ s ∈ d'.caSearchers, ∀ r ∈ s.searches, P r.2.1 r.2.2 := by
  intro s' hs'
  obtain ⟨k, hGet'⟩ := List.mem_iff_getElem?.mp hs'
  obtain ⟨s, hGet, -⟩ := getElem?_of_forall₂ (step_searchers hStep) hGet'
  obtain ⟨block, s₁, hGet₁, hRun, hSeen⟩ := step_searcher hStep hGet
  obtain rfl : s' = s₁ := Option.some.inj (hGet'.symm.trans hGet₁)
  have hs := List.mem_of_getElem? hGet
  -- whatever is put into the searcher, a client has just asked for
  have hAdded : ∀ x ∈ block, ∀ now name, x.1 = .addPV now name → P name now := by
    intro x hx now name hEq
    cases hSeen with
    | added clock pvname isNew =>
      rw [List.mem_singleton.mp hx] at hEq
      obtain ⟨rfl, rfl⟩ := Searcher.Event.addPV.inj hEq
      exact hAsked clock pvname rfl k
    | found | removed | outgoing | purged =>
      rw [List.mem_singleton.mp hx] at hEq
      exact absurd hEq (by simp)
    | _ => exact absurd hx List.not_mem_nil
  refine (hRun.invariant_of_mem (I := fun s => s.Inv ∧ ∀ r ∈ s.searches, P r.2.1 r.2.2) ?_
    ⟨hInv s hs, h s hs⟩).2
  rintro s₁ e₁ s₂ o₁ hMem ⟨hInv₁, hAll⟩ hStep₁
  refine ⟨Searcher.inv_step hInv₁ hStep₁, fun r hr => ?_⟩
  rcases Searcher.step_searches hInv₁ hStep₁ with ⟨now, name, rfl, -, -, -, hNext⟩ |
    ⟨now, name, rfl, -, -, hNext⟩ | ⟨-, -, -, hNext⟩
  · rw [hNext] at hr
    rcases Multiset.mem_cons.mp hr with rfl | hr
    · exact hAdded _ hMem now name rfl
    · exact hAll r hr
  · rw [hNext] at hr
    obtain ⟨r₀, hr₀, rfl⟩ := Multiset.mem_map.mp hr
    unfold Searcher.retouch
    split
    · next hName => exact hName ▸ hAdded _ hMem now name rfl
    · exact hAll r₀ hr₀
  · exact hAll r (Multiset.mem_of_le hNext hr)

/-- A guard that is there after a step was there before, or the step made it. -/
theorem guard_before (hStep : d.step e = some (d', o)) (hGet : d'.guards[g]? = some guard) :
    (∃ before : IocGuard, d.guards[g]? = some before) ∨
      ∃ k iocIp iocPort response opening now addr,
        e = .response k iocIp iocPort response opening now ∧
        IocGuard.create opening addr now = some guard := by
  have hOld : d'.guards.length = d.guards.length →
      ∃ before : IocGuard, d.guards[g]? = some before :=
    fun hLen => ⟨_, List.getElem?_eq_getElem (hLen ▸ (List.getElem?_eq_some_iff.mp hGet).1)⟩
  cases e with
  | clientSearched clock name => exact Or.inl (hOld (by rw [guards_clientSearched hStep]))
  | response k iocIp iocPort response opening now =>
    rcases step_response hStep with ⟨rfl, -⟩ | ⟨s, pv, s', -, -, f, g', -, -, hFound⟩
    · exact Or.inl (hOld rfl)
    · rcases caPvFound_cases { d with caSearchers := d.caSearchers.set k s' } opening now f with
        hNone | ⟨d₁, g₁, hGuard, hSome⟩
      · rw [hNone, Prod.mk.injEq] at hFound
        exact Or.inl (hOld (by rw [← hFound.1]))
      · rw [hSome, Prod.mk.injEq] at hFound
        obtain ⟨rfl, -⟩ := hFound
        rcases iocGuard_eq_some hGuard with ⟨-, rfl⟩ | ⟨-, -, new, hCreate, rfl⟩
        · exact Or.inl (hOld rfl)
        · -- the new guard is the last one
          have hGet' : (d.guards ++ [new])[g]? = some guard := hGet
          by_cases hg : g < d.guards.length
          · exact Or.inl ⟨_, List.getElem?_eq_getElem hg⟩
          · rw [List.getElem?_append_right (not_lt.mp hg), List.getElem?_singleton] at hGet'
            split at hGet'
            · obtain rfl := Option.some.inj hGet'
              exact Or.inr ⟨k, iocIp, iocPort, response, opening, now, _, rfl, hCreate⟩
            · exact absurd hGet' (by simp)
  | searcherOutgoing k now =>
    obtain ⟨_, _, _, -, -, rfl, -⟩ := step_searcherOutgoing hStep
    exact Or.inl (hOld rfl)
  | guardIncoming g' recvd now =>
    obtain ⟨_, _, _, _, _, _, _, rfl⟩ := step_guardIncoming hStep
    exact Or.inl (hOld (List.length_set ..))
  | guardOutgoing g' answers =>
    obtain ⟨_, _, _, _, _, _, _, rfl⟩ := step_guardOutgoing hStep
    exact Or.inl (hOld (List.length_set ..))
  | drop i =>
    obtain ⟨-, -, -, ⟨-, rfl⟩ | ⟨-, rfl⟩⟩ := step_drop hStep
    · exact Or.inl (hOld rfl)
    · exact Or.inl (hOld rfl)
  | maintain checkedAt clock now =>
    rcases maintain_cases hStep with ⟨-, rfl⟩ | ⟨-, hD, -⟩
    · exact Or.inl (hOld rfl)
    · exact Or.inl (hOld (by rw [hD]))

/-- A guard as it is made is dated, unless the clock is before its epoch. -/
theorem dated_of_create {opening : Opening} {addr : Address} {now : Int}
    (hCreate : IocGuard.create opening addr now = some guard) (hStart : 0 ≤ now) :
    guard.Dated now := by
  unfold IocGuard.create at hCreate
  split at hCreate
  · exact absurd hCreate (by simp)
  · obtain rfl := Option.some.inj hCreate
    exact ⟨rfl, le_rfl, hStart, hStart⟩

theorem dated_step (hInv : ∀ s ∈ d.caSearchers, s.Inv) (hStart : 0 ≤ t) (hLe : t ≤ t')
    (hReads : reads e t t') (h : Dated t d) (hStep : d.step e = some (d', o)) : Dated t' d' := by
  refine ⟨?_, ?_, fun g guard hGet => ?_⟩
  · rcases (lastPurge_step hStep).2 with hSame | ⟨checkedAt, clock, rfl⟩
    · rw [hSame]
      exact h.purge.trans hLe
    · exact hReads.2.2.2
  · refine searches_step (P := fun _ time => time ≤ t') hInv hStep ?_ fun s hs r hr =>
      (h.searches s hs r hr).trans hLe
    rintro clock name rfl k
    exact (hReads k).2
  · rcases guard_before hStep hGet with ⟨before, hBefore⟩ |
      ⟨k, iocIp, iocPort, response, opening, now, addr, rfl, hCreate⟩
    · have hDated := h.guards g before hBefore
      rcases step_guard hStep hBefore with ⟨hSame, -, -⟩ | ⟨recvd, now, rfl, hCalled⟩ |
        ⟨answers, rfl, hCalled⟩
      · obtain rfl := Option.some.inj (hGet.symm.trans hSame)
        exact hDated.mono hLe
      · obtain rfl := Option.some.inj (hGet.symm.trans hCalled)
        exact IocGuard.dated_incoming hDated hReads.1 hReads.2
      · obtain rfl := Option.some.inj (hGet.symm.trans hCalled)
        exact IocGuard.dated_outgoing hDated hReads
    · exact (dated_of_create hCreate (hStart.trans hReads.1)).mono hReads.2

/-- What holds of a run from the start, with the clock. -/
theorem dated_run (hInit : Init searchIntervals d₀) (hPurge : d₀.lastPurge ≤ t) (hStart : 0 ≤ t)
    (hRun : Run step d₀ tr d) (hClock : Clocked reads t tr t') :
    Dated t' d ∧ Sound searchIntervals d := by
  have hEnd := hRun.clocked
    (I := fun t d => 0 ≤ t ∧ Dated t d ∧ Sound searchIntervals d) ?_ hClock
    ⟨hStart, dated_of_init hInit hPurge, sound_of_init hInit⟩
  · exact hEnd.2
  · rintro t t' d e d' o - hLe hReads ⟨hTime, hDated, hSound⟩ hStep
    exact ⟨hTime.trans hLe, dated_step hSound.status.invs hTime hLe
      hReads hDated hStep, sound_step hSound hStep⟩

-- ---------------------------------------------------------------------------
-- A silent IOC
-- ---------------------------------------------------------------------------

/-- What time and the calls of a guard keep, a run keeps. -/
theorem guard_run {I : Int → IocGuard → Prop} (hRun : Run step d tr d')
    (hClock : Clocked reads t tr t') (hGet : d.guards[g]? = some guard) (h : I t guard)
    (hLater : ∀ t t' guard, t ≤ t' → I t guard → I t' guard)
    (hIncoming : ∀ t t' recvd now o guard, (.guardIncoming g recvd now, o) ∈ tr → t ≤ t' →
      I t guard → I t' (guard.processIncoming recvd now).1)
    (hOutgoing : ∀ t t' answers guard, answers.Between t t' → I t guard →
      I t' (guard.processOutgoing answers).1) :
    ∃ guard', d'.guards[g]? = some guard' ∧ I t' guard' := by
  refine hRun.clocked (I := fun t d => ∃ guard, d.guards[g]? = some guard ∧ I t guard) ?_ hClock
    ⟨guard, hGet, h⟩
  rintro t t' d e d' o hMem hLe hReads ⟨guard, hGet, h⟩ hStep
  rcases step_guard hStep hGet with ⟨hSame, -, -⟩ | ⟨recvd, now, rfl, hCalled⟩ |
    ⟨answers, rfl, hCalled⟩
  · exact ⟨guard, hSame, hLater t t' guard hLe h⟩
  · exact ⟨_, hCalled, hIncoming t t' recvd now o guard hMem hLe h⟩
  · exact ⟨_, hCalled, hOutgoing t t' answers guard hReads h⟩

/-- A call of a guard at its place in a run. -/
theorem guardOutgoing_step {answers : Answers}
    (hStep : d.step (.guardOutgoing g answers) = some (d', o)) (hGet : d.guards[g]? = some guard) :
    d'.guards[g]? = some (guard.processOutgoing answers).1 := by
  rcases step_guard hStep hGet with ⟨-, -, hNot⟩ | ⟨_, _, hEq, -⟩ | ⟨answers', hEq, hCalled⟩
  · exact absurd rfl (hNot answers)
  · exact absurd hEq (by simp)
  · rw [Event.guardOutgoing.injEq] at hEq
    exact hEq.2 ▸ hCalled

/-- No data comes from the IOC in the run. -/
def Mute (g : ℕ) (tr : List (Event × Output)) : Prop :=
  ∀ recvd now o, (.guardIncoming g recvd now, o) ∈ tr → recvd ≤ 0

/-- In a run without data the guard stays silent; and once it waits for a
response, it does so until it closes. -/
theorem silent_run (hRun : Run step d tr d') (hClock : Clocked reads t tr t') (hMute : Mute g tr)
    (hGet : d.guards[g]? = some guard) (h : guard.Silent T t) :
    ∃ guard', d'.guards[g]? = some guard' ∧ guard'.Silent T t' := by
  refine guard_run (I := fun t guard => IocGuard.Silent T t guard) hRun hClock hGet h ?_ ?_ ?_
  · exact fun t t' guard hLe hSilent => hSilent.mono hLe
  · intro t t' recvd now o guard hMem hLe hSilent
    obtain ⟨hClosed, hSame⟩ := IocGuard.closed_of_failed guard (hMute recvd now o hMem) now
    have hInterval := hSame.trans hSilent.interval
    exact ⟨hInterval, Or.inl (IocGuard.Awaiting.of_closed hInterval hClosed)⟩
  · exact fun t t' answers guard hReads hSilent => IocGuard.silent_outgoing hSilent hReads

theorem awaiting_run {u : Int} (hRun : Run step d tr d') (hClock : Clocked reads t tr t')
    (hMute : Mute g tr) (hGet : d.guards[g]? = some guard) (h : guard.Awaiting u) :
    ∃ guard', d'.guards[g]? = some guard' ∧ guard'.Awaiting u := by
  refine guard_run (I := fun _ guard => IocGuard.Awaiting u guard) hRun hClock hGet h ?_ ?_ ?_
  · exact fun _ _ _ _ hAwaiting => hAwaiting
  · intro t t' recvd now o guard hMem _ hAwaiting
    obtain ⟨hClosed, hSame⟩ := IocGuard.closed_of_failed guard (hMute recvd now o hMem) now
    exact IocGuard.Awaiting.of_closed (hSame.trans hAwaiting.interval) hClosed
  · exact fun _ _ _ _ _ hAwaiting => IocGuard.awaiting_outgoing hAwaiting

/-- Of a PV whose guard is closed the cache is no answer: a client's search
starts it anew, in every searcher. -/
theorem searched_of_closed {pv : PvInfo} (hLookup : d.connectedPVs.lookup pvname = some pv)
    (hIoc : pv.ioc = some g) (hClosed : d.isConnected g = false) {clock : ℕ → Int}
    {response : Bytes} (hStep : d.step (.clientSearched clock pvname) = some (d', .reply response))
    (hInv : ∀ s ∈ d.caSearchers, s.Inv) :
    response = [] ∧ ∀ s ∈ d'.caSearchers, s.Searched pvname := by
  obtain ⟨response', hSearched, ho⟩ := step_clientSearched hStep
  obtain rfl := Output.reply.inj ho
  rcases caPvSearched_cases hSearched with ⟨pv', g', hLookup', hIoc', hOpen, -, -⟩ |
    ⟨-, rfl, -, -, -, hEach⟩
  · rw [hLookup, Option.some.injEq] at hLookup'
    subst hLookup'
    rw [hIoc, Option.some.injEq] at hIoc'
    subst hIoc'
    rw [hClosed] at hOpen
    exact absurd hOpen (by decide)
  · refine ⟨rfl, fun s' hs' => ?_⟩
    obtain ⟨s, hs, now, isNew, hAdd⟩ := exists_of_mem_forall₂ hEach hs'
    exact Searcher.searched_addPV (hInv s hs) hAdd

/-- **A silent IOC is forgotten.** Whatever happened until time `T`: if no data
comes from an IOC any more, its guard is called 11 s after `T`, and again 11 s
after that call, then the guard is closed, and no client gets a PV of it from
the cache: the PV is searched for again. -/
theorem silent_ioc_forgotten (hInit : Init searchIntervals d₀) (hPurge : d₀.lastPurge ≤ t)
    (hStart : 0 ≤ t) (hBefore : Run step d₀ pre d) (hClock₀ : Clocked reads t pre T)
    (hGet : d.guards[g]? = some guard) {m₁ m₂ m₃ : List (Event × Output)} {a b : Answers}
    {oa ob : Output}
    (hRun : Run step d
      (m₁ ++ (.guardOutgoing g a, oa) :: (m₂ ++ (.guardOutgoing g b, ob) :: m₃)) d')
    (hClock : Clocked reads T
      (m₁ ++ (.guardOutgoing g a, oa) :: (m₂ ++ (.guardOutgoing g b, ob) :: m₃)) T')
    (hMute : Mute g (m₁ ++ m₂ ++ m₃)) (ha : T + 11000000000 ≤ a.polledAt)
    (hb : a.sentAt + 11000000000 ≤ b.checkedAt) :
    d'.isConnected g = false ∧
      ∀ clock name pv d'' response, d'.connectedPVs.lookup name = some pv → pv.ioc = some g →
        d'.step (.clientSearched clock name) = some (d'', .reply response) →
        response = [] ∧ ∀ s ∈ d''.caSearchers, s.Searched name := by
  obtain ⟨hDated, hSound⟩ := dated_run hInit hPurge hStart hBefore hClock₀
  have hMute₁ : Mute g m₁ := fun recvd now o hMem => hMute recvd now o (by simp [hMem])
  have hMute₂ : Mute g m₂ := fun recvd now o hMem => hMute recvd now o (by simp [hMem])
  have hMute₃ : Mute g m₃ := fun recvd now o hMem => hMute recvd now o (by simp [hMem])
  -- until the first call
  obtain ⟨d₁, hRun₁, hRest⟩ := hRun.split
  obtain ⟨t₁, hClock₁, hRestClock⟩ := hClock.split
  obtain ⟨guard₁, hGet₁, hSilent⟩ :=
    silent_run hRun₁ hClock₁ hMute₁ hGet (hDated.guards g guard hGet).silent
  -- the first call
  obtain ⟨d₂, hStepA, hRest⟩ := Runs.run_cons_iff.mp hRest
  obtain ⟨t₂, -, hReadsA, hRestClock⟩ := Runs.clocked_cons_iff.mp hRestClock
  have hAwaiting := IocGuard.awaiting_of_late hSilent hReadsA ha
  -- until the second call
  obtain ⟨d₃, hRun₃, hRest⟩ := hRest.split
  obtain ⟨t₃, hClock₃, hRestClock⟩ := hRestClock.split
  obtain ⟨guard₃, hGet₃, hAwaiting₃⟩ :=
    awaiting_run hRun₃ hClock₃ hMute₂ (guardOutgoing_step hStepA hGet₁) hAwaiting
  -- the second call, and from then on
  obtain ⟨d₄, hStepB, hRun₄⟩ := Runs.run_cons_iff.mp hRest
  have hClosed : d₄.isConnected g = false := by
    unfold isConnected
    rw [guardOutgoing_step hStepB hGet₃]
    simp [IocGuard.isConnected, IocGuard.closed_of_late hAwaiting₃ hb]
  have hEnd : d'.isConnected g = false := by
    rw [Bool.eq_false_iff]
    intro hOpen
    have hg := (List.getElem?_eq_some_iff.mp (guardOutgoing_step hStepB hGet₃)).1
    rw [isConnected_of_run hRun₄ hg hOpen] at hClosed
    exact absurd hClosed (by decide)
  have hSoundEnd := sound_run hRun hSound
  exact ⟨hEnd, fun clock name pv d'' response hLookup hIoc hStep => searched_of_closed hLookup hIoc
    hEnd hStep hSoundEnd.status.invs⟩

/-- An IOC that accepts the connection at the first call of its guard, 11 s
after it was found, and never says a word. -/
def silence : List Event :=
  [.guardOutgoing 0 ⟨1, 12000000000, 12000000000, 32, 12000000000⟩,
    .guardOutgoing 0 ⟨0, 23000000000, 23000000000, 0, 23000000000⟩]

theorem silent_ioc_silence :
    ∃ tr d', Run step oneFound tr d' ∧ tr.map Prod.fst = silence ∧
      oneFound.isConnected 0 = true ∧ d'.isConnected 0 = false := by
  have hBefore : Run step oneSearcher _ oneFound := Runs.run_of_exec (foundAndClosed.take 3) rfl
  have hRun : Run step oneFound
      ([] ++ (.guardOutgoing 0 _, _) :: ([] ++ (.guardOutgoing 0 _, _) :: [])) _ :=
    Runs.run_of_exec silence rfl
  have hForgotten := silent_ioc_forgotten init_oneSearcher (t := 0) le_rfl le_rfl hBefore
    (T := 1000000000) ?_ rfl hRun
    (.cons (show (1000000000 : Int) ≤ 12000000000 by decide)
        ⟨by decide, by decide, by decide, by decide⟩ <|
      .cons (show (12000000000 : Int) ≤ 23000000000 by decide)
        ⟨by decide, by decide, by decide, by decide⟩ (.nil _))
    (by simp [Mute]) (by decide) (by decide)
  · exact ⟨_, _, hRun, rfl, rfl, hForgotten.1⟩
  · exact .cons (le_refl 0) (by simp [reads]) <|
      .cons (show (0 : Int) ≤ 1000000000 by decide) ⟨by decide, le_rfl⟩ <|
      .cons le_rfl ⟨le_rfl, le_rfl⟩ (.nil _)

-- ---------------------------------------------------------------------------
-- An IOC that never accepts
-- ---------------------------------------------------------------------------

/-- The guard of an IOC that had none is new, and starts at the time it is made. -/
theorem started_of_found {k : ℕ} {iocIp : Bytes} {iocPort : UInt16} {response : UInt32 × Bytes}
    {opening : Opening} {time : Int} {f : FoundPv}
    (hStep : d.step (.response k iocIp iocPort response opening time) =
      some (d', .found (some (f, some g))))
    (hNone : d.iocs.lookup (iocIp, iocPort) = none) :
    ∃ guard : IocGuard, d'.guards[g]? = some guard ∧ guard.started = time ∧
      guard.connected = false ∧ guard.isConnected = true := by
  obtain ⟨hIp, hPort, -⟩ := found_of_response hStep
  rcases step_response hStep with ⟨-, ho⟩ | ⟨s, pv, s', -, -, f', g', -, ho, hFound⟩
  · exact absurd ho (by simp)
  · obtain ⟨rfl, rfl⟩ : f = f' ∧ some g = g' := by simpa using ho
    rcases caPvFound_cases { d with caSearchers := d.caSearchers.set k s' } opening time f with
      hFailed | ⟨d₁, g', hGuard, hSome⟩
    · rw [hFailed, Prod.mk.injEq] at hFound
      exact absurd hFound.2 (by simp)
    · rw [hSome, Prod.mk.injEq, Option.some.injEq] at hFound
      obtain ⟨rfl, rfl⟩ := hFound
      rcases iocGuard_eq_some hGuard with ⟨hLookup, -⟩ | ⟨-, rfl, guard, hCreate, rfl⟩
      · rw [hIp, hPort] at hLookup
        exact absurd (hNone.symm.trans hLookup) (by simp)
      · refine ⟨guard, List.getElem?_concat_length, ?_, ?_, (IocGuard.create_eq_some hCreate).1⟩
        all_goals
          unfold IocGuard.create at hCreate
          split at hCreate
          · exact absurd hCreate (by simp)
          · obtain rfl := Option.some.inj hCreate
            rfl

/-- The calls of a guard that tried to connect. -/
def Tried (g : ℕ) (tr : List (Event × Output)) (answers : Answers) : Prop :=
  ∃ o, (.guardOutgoing g answers, o) ∈ tr

theorem tried_concat {answers : Answers} :
    Tried g (tr ++ [(e, o)]) answers ↔ Tried g tr answers ∨ e = .guardOutgoing g answers := by
  unfold Tried
  simp only [List.mem_append, List.mem_singleton, Prod.mk.injEq, exists_or, exists_eq_right]
  exact or_congr_right eq_comm

/-- **An IOC that never accepts the connection is given up after 6 s, and not
before.** From when a PV is found on an IOC that has no guard: as long as no
call finds the connection made and no receive fails, the guard is open if and
only if every call so far came within 6 s. -/
theorem connecting_until_timeout {k : ℕ} {iocIp : Bytes} {iocPort : UInt16}
    {response : UInt32 × Bytes} {opening : Opening} {time : Int} {f : FoundPv}
    (hStep : d.step (.response k iocIp iocPort response opening time) =
      some (d₁, .found (some (f, some g))))
    (hNone : d.iocs.lookup (iocIp, iocPort) = none) (hRun : Run step d₁ tr d₂)
    (hNever : ∀ answers, Tried g tr answers → answers.pollret ≤ 0)
    (hData : ∀ recvd now o, (.guardIncoming g recvd now, o) ∈ tr → 0 < recvd) :
    d₂.isConnected g = true ↔
      ∀ answers, Tried g tr answers → answers.polledAt < time + 6000000000 := by
  obtain ⟨guard, hGet, hStarted, hPending, hOpen⟩ := started_of_found hStep hNone
  -- the guard has not changed but for its socket
  have hEnd := hRun.history
    (I := fun tr d => (∀ answers, Tried g tr answers → answers.pollret ≤ 0) →
    (∀ recvd now o, (.guardIncoming g recvd now, o) ∈ tr → 0 < recvd) →
    ∃ guard : IocGuard, d.guards[g]? = some guard ∧ guard.started = time ∧ guard.connected = false ∧
      (guard.isConnected = true ↔
        ∀ answers, Tried g tr answers → answers.polledAt < time + 6000000000)) ?_
    fun _ _ => ⟨guard, hGet, hStarted, hPending, by simp [hOpen, Tried]⟩
  · obtain ⟨guard', hGet', -, -, hIff⟩ := hEnd hNever hData
    unfold isConnected
    rw [hGet', Option.any_some]
    exact hIff
  · intro pre d e d' o hBefore hStep hNever hData
    obtain ⟨guard, hGet, hStarted, hPending, hIff⟩ := hBefore
      (fun answers h => hNever answers (tried_concat.mpr (Or.inl h)))
      fun recvd now o hMem => hData recvd now o (List.mem_append_left _ hMem)
    have hQuiet : (∀ answers, e ≠ .guardOutgoing g answers) →
        ((∀ answers, Tried g (pre ++ [(e, o)]) answers → answers.polledAt < time + 6000000000) ↔
          ∀ answers, Tried g pre answers → answers.polledAt < time + 6000000000) := by
      intro hNot
      refine forall_congr' fun answers => ?_
      rw [tried_concat, or_iff_left (hNot answers)]
    rcases step_guard hStep hGet with ⟨hSame, -, hNot⟩ | ⟨recvd, now, rfl, hCalled⟩ |
      ⟨answers, rfl, hCalled⟩
    · exact ⟨guard, hSame, hStarted, hPending, hIff.trans (hQuiet hNot).symm⟩
    · -- data before the connection is known to be made changes nothing of this
      have hSome := hData recvd now o (List.mem_append_right _ (List.mem_singleton.mpr rfl))
      refine ⟨_, hCalled, ?_⟩
      rw [hQuiet (by simp), ← hIff]
      unfold IocGuard.processIncoming
      split
      · exact ⟨hStarted, hPending, Iff.rfl⟩
      · exact ⟨hStarted, hPending, Iff.rfl⟩
    · have hPoll := hNever answers (tried_concat.mpr (Or.inr rfl))
      have hAll : (∀ a, Tried g (pre ++ [(.guardOutgoing g answers, o)]) a →
          a.polledAt < time + 6000000000) ↔
          (∀ a, Tried g pre a → a.polledAt < time + 6000000000) ∧
            answers.polledAt < time + 6000000000 := by
        simp only [tried_concat, or_imp, forall_and, Event.guardOutgoing.injEq, true_and,
          forall_eq']
      refine ⟨_, hCalled, ?_⟩
      rw [hAll, ← hIff]
      by_cases hClosed : guard.sock = -1
      · have hSame : (guard.processOutgoing answers).1 = guard := by
          unfold IocGuard.processOutgoing
          rw [if_neg (by simpa using hClosed)]
        rw [hSame]
        exact ⟨hStarted, hPending, by simp [IocGuard.isConnected, hClosed]⟩
      · rw [IocGuard.outgoing_connecting hClosed hPending hPoll]
        split
        · next hLate =>
          rw [hStarted] at hLate
          exact ⟨hStarted, hPending, by simp [IocGuard.isConnected, hLate]⟩
        · next hEarly =>
          rw [hStarted] at hEarly
          exact ⟨hStarted, hPending, by simp [not_le.mp hEarly]⟩

/-- An IOC that is called 5 s and 6 s after it was found, and never accepts. -/
def refusal : List Event :=
  [.guardOutgoing 0 ⟨0, 6000000000, 0, 0, 0⟩, .guardOutgoing 0 ⟨0, 7000000000, 0, 0, 0⟩]

theorem connecting_until_refusal :
    ∃ tr d, Run step oneFound tr d ∧ tr.map Prod.fst = refusal ∧
      (d.isConnected 0 = true ↔
        ∀ answers, Tried 0 tr answers → answers.polledAt < 1000000000 + 6000000000) ∧
      ¬ ∀ answers, Tried 0 tr answers → answers.polledAt < 1000000000 + 6000000000 := by
  have hRun : Run step oneFound _ _ := Runs.run_of_exec refusal rfl
  have hFound : ((Runs.exec step oneSearcher (foundAndClosed.take 2)).get rfl).2.step
      (.response 0 (inetNtop ⟨10, 0, 0, 7⟩) 5064 (0, ChannelAccess.ordinaryResponse 0)
        ⟨4, true, true⟩ 1000000000) =
        some (oneFound, .found (some (_, some 0))) := rfl
  refine ⟨_, _, hRun, rfl, connecting_until_timeout hFound rfl hRun ?_ ?_, fun hAll => ?_⟩
  · rintro answers ⟨o, hMem⟩
    simp only [List.mem_cons, Prod.mk.injEq, Event.guardOutgoing.injEq, List.not_mem_nil] at hMem
    rcases hMem with ⟨⟨-, rfl⟩, -⟩ | ⟨⟨-, rfl⟩, -⟩ | h
    · exact le_rfl
    · exact le_rfl
    · exact h.elim
  · intro recvd now o hMem
    simp at hMem
  · exact absurd (hAll _ ⟨_, List.mem_cons_of_mem _ (List.mem_singleton.mpr rfl)⟩) (by decide)

-- ---------------------------------------------------------------------------
-- A name that is asked for no more
-- ---------------------------------------------------------------------------

/-- No client searches for the PV in the run. -/
def Unwanted (pvname : Bytes) (tr : List (Event × Output)) : Prop :=
  ∀ clock o, (.clientSearched clock pvname, o) ∉ tr

theorem Unwanted.of_mem {x : Event × Output} (h : Unwanted pvname tr) (hMem : x ∈ tr) :
    Unwanted pvname [x] := by
  intro clock o hIn
  rw [← List.mem_singleton.mp hIn] at hMem
  exact h clock o hMem

/-- What a step keeps that is no search for the PV, a run keeps in which no
client searches for it. -/
theorem unwanted_run {I : Dispatcher → Prop}
    (hStep : ∀ d e d' o, (∀ s ∈ d.caSearchers, s.Inv) → d.step e = some (d', o) →
      Unwanted pvname [(e, o)] → I d → I d')
    (hRun : Run step d tr d') (hSound : Sound searchIntervals d) (hUnwanted : Unwanted pvname tr)
    (h : I d) : I d' := by
  have hEnd := hRun.invariant_of_mem (I := fun d => Sound searchIntervals d ∧ I d) ?_ ⟨hSound, h⟩
  · exact hEnd.2
  · intro d e d' o hMem hHere hNext
    obtain ⟨hSound, h⟩ := hHere
    exact ⟨sound_step hSound hNext,
      hStep d e d' o hSound.status.invs hNext (hUnwanted.of_mem hMem) h⟩

theorem isSearched_iff :
    d.IsSearched pvname ↔ ∃ s ∈ d.caSearchers, ∃ r ∈ s.searches, r.2.1 = pvname :=
  exists_congr fun _ => and_congr_right fun _ => Searcher.searched_iff

/-- Whoever searches for the PV was asked to at `T` at the latest. -/
def AskedBefore (T : Int) (pvname : Bytes) (d : Dispatcher) : Prop :=
  ∀ s ∈ d.caSearchers, ∀ r ∈ s.searches, r.2.1 = pvname → r.2.2 ≤ T

theorem askedBefore_step (hInv : ∀ s ∈ d.caSearchers, s.Inv) (hStep : d.step e = some (d', o))
    (hUnwanted : Unwanted pvname [(e, o)]) (h : AskedBefore T pvname d) :
    AskedBefore T pvname d' := by
  refine searches_step (P := fun name time => name = pvname → time ≤ T) hInv hStep ?_ h
  rintro clock name rfl k rfl
  exact absurd (List.mem_singleton.mpr rfl) (hUnwanted clock o)

/-- A PV nobody searches for is not searched for by itself. -/
theorem not_isSearched_step (hInv : ∀ s ∈ d.caSearchers, s.Inv) (hStep : d.step e = some (d', o))
    (hUnwanted : Unwanted pvname [(e, o)]) (h : ¬ d.IsSearched pvname) :
    ¬ d'.IsSearched pvname := by
  have hNames := searches_step (P := fun name _ => name ≠ pvname) hInv hStep ?_ ?_
  · rw [isSearched_iff]
    rintro ⟨s, hs, r, hr, hName⟩
    exact hNames s hs r hr hName
  · rintro clock name rfl k rfl
    exact hUnwanted clock o (List.mem_singleton.mpr rfl)
  · intro s hs r hr hName
    exact h (isSearched_iff.mpr ⟨s, hs, r, hr, hName⟩)

/-- A purge that is due drops the PV if it was asked for long enough ago. -/
theorem not_isSearched_of_due {checkedAt now : Int} {clock : ℕ → SearchedPV → Int}
    (hStep : d.step (.maintain checkedAt clock now) = some (d', o))
    (hDue : d.purgeDelay < seconds (checkedAt - d.lastPurge)) (hAsked : AskedBefore T pvname d)
    (hReads : ∀ k pv, T + (d.purgeDelay + 1) * 1000000000 ≤ clock k pv) :
    ¬ d'.IsSearched pvname := by
  rcases maintain_cases hStep with ⟨hEarly, -⟩ | ⟨-, -, hPurges⟩
  · exact absurd hDue (not_lt.mpr hEarly)
  · rintro ⟨s', hs', hSearched⟩
    obtain ⟨k, hGet'⟩ := List.mem_iff_getElem?.mp hs'
    obtain ⟨s, hGet, -⟩ := getElem?_of_forall₂ (step_searchers hStep) hGet'
    obtain ⟨s₁, nPurged, nSearching, hPurge, hGet₁⟩ := hPurges k s hGet
    obtain rfl := Option.some.inj (hGet'.symm.trans hGet₁)
    obtain ⟨-, -, -, hKept⟩ := Searcher.purgePVs_eq_some hPurge
    obtain ⟨q, hq, rfl⟩ := hSearched
    have hMem := Multiset.mem_map_of_mem Prod.snd hq
    rw [hKept, Multiset.mem_filter] at hMem
    obtain ⟨hBefore, hFresh⟩ := hMem
    obtain ⟨q₀, hq₀, hEq⟩ := Multiset.mem_map.mp hBefore
    have hTime := hAsked s (List.mem_of_getElem? hGet) _ (Multiset.mem_map_of_mem _ hq₀)
      (congrArg SearchedPV.pvname hEq)
    have hLast : q.2.lastSearched ≤ T := hEq ▸ hTime
    have hRead := hReads k q.2
    rw [Searcher.isStale, decide_eq_false_iff_not, lt_seconds_iff] at hFresh
    omega

/-- What holds after the first of two purges in a row that could be due: the
PV is gone, or the second one will be due. -/
structure Fading (searchIntervals : List UInt32) (c : Int) (delay : ℕ) (pvname : Bytes)
    (d : Dispatcher) : Prop where
  sound : Sound searchIntervals d
  period : d.purgeDelay = delay
  asked : AskedBefore (c - (delay + 1) * 1000000000) pvname d
  gone : ¬ d.IsSearched pvname ∨ d.lastPurge ≤ c

theorem fading_step {c : Int} {delay : ℕ} (h : Fading searchIntervals c delay pvname d)
    (hStep : d.step e = some (d', o)) (hUnwanted : Unwanted pvname [(e, o)]) (hReads : reads e t t')
    (hLe : c ≤ t) : Fading searchIntervals c delay pvname d' := by
  obtain ⟨hSound, hPeriod, hAsked, hGone⟩ := h
  have hInv := hSound.status.invs
  refine ⟨sound_step hSound hStep, (lastPurge_step hStep).1.trans hPeriod,
    askedBefore_step hInv hStep hUnwanted hAsked, ?_⟩
  rcases hGone with hGone | hPurge
  · exact Or.inl (not_isSearched_step hInv hStep hUnwanted hGone)
  · rcases (lastPurge_step hStep).2 with hSame | ⟨checkedAt, clock, rfl⟩
    · exact Or.inr (hSame ▸ hPurge)
    · rcases maintain_cases hStep with ⟨-, rfl⟩ | ⟨hDue, -, -⟩
      · exact Or.inr hPurge
      · refine Or.inl (not_isSearched_of_due hStep hDue hAsked fun k pv => ?_)
        have hRead := (hReads.2.1 k pv).1
        have hStart := hReads.1
        rw [hPeriod]
        omega

theorem fading_run {c : Int} {delay : ℕ} (hRun : Run step d tr d') (hClock : Clocked reads t tr t')
    (hUnwanted : Unwanted pvname tr) (hLe : c ≤ t) (h : Fading searchIntervals c delay pvname d) :
    Fading searchIntervals c delay pvname d' := by
  have hEnd := hRun.clocked
    (I := fun t d => c ≤ t ∧ Fading searchIntervals c delay pvname d) ?_ hClock ⟨hLe, h⟩
  · exact hEnd.2
  · rintro t t' d e d' o hMem hLe' hReads ⟨hLe, h⟩ hStep
    exact ⟨hLe.trans hLe', fading_step h hStep (hUnwanted.of_mem hMem) hReads hLe⟩

/-- Purge or not, after the first of them the PV is gone or the next purge is
due by its time. -/
theorem fading_of_maintain {checkedAt now : Int} {clock : ℕ → SearchedPV → Int}
    (hSound : Sound searchIntervals d)
    (hStep : d.step (.maintain checkedAt clock now) = some (d', o))
    (hReads : reads (.maintain checkedAt clock now) t t') (hPurge : d.lastPurge ≤ t)
    (hAsked : AskedBefore (checkedAt - (d.purgeDelay + 1) * 1000000000) pvname d) :
    Fading searchIntervals checkedAt d.purgeDelay pvname d' := by
  have hInv := hSound.status.invs
  refine ⟨sound_step hSound hStep, (lastPurge_step hStep).1,
    askedBefore_step hInv hStep (fun clock' o' hIn => absurd hIn (by simp)) hAsked, ?_⟩
  rcases maintain_cases hStep with ⟨-, rfl⟩ | ⟨hDue, -, -⟩
  · exact Or.inr (hPurge.trans hReads.1)
  · refine Or.inl (not_isSearched_of_due hStep hDue hAsked fun k pv => ?_)
    have hRead := (hReads.2.1 k pv).1
    omega

/-- The second of them, if not one before, drops the PV. -/
theorem not_isSearched_of_fading {c checkedAt now : Int} {delay : ℕ} {clock : ℕ → SearchedPV → Int}
    (h : Fading searchIntervals c delay pvname d)
    (hStep : d.step (.maintain checkedAt clock now) = some (d', o))
    (hReads : reads (.maintain checkedAt clock now) t t')
    (hLate : c + (delay + 1) * 1000000000 ≤ checkedAt) :
    ¬ d'.IsSearched pvname := by
  obtain ⟨hSound, hPeriod, hAsked, hGone⟩ := h
  rcases hGone with hGone | hPurge
  · exact not_isSearched_step hSound.status.invs hStep
      (fun clock' o' hIn => absurd hIn (by simp)) hGone
  · refine not_isSearched_of_due hStep ?_ hAsked fun k pv => ?_
    · rw [hPeriod, lt_seconds_iff]
      omega
    · have hRead := (hReads.2.1 k pv).1
      rw [hPeriod]
      omega

/-- **A name no client asks for is forgotten.** Whatever happened until time
`T`: if no client searches for a PV any more, the maintenance comes more than
`purgeDelay` whole seconds after `T`, and again more than that after, then no
searcher searches for the PV, however the purges fell in between. -/
theorem unwanted_name_forgotten (hInit : Init searchIntervals d₀) (hPurge : d₀.lastPurge ≤ t)
    (hStart : 0 ≤ t) (hBefore : Run step d₀ pre d) (hClock₀ : Clocked reads t pre T)
    {m₁ m₂ m₃ : List (Event × Output)} {c₁ c₂ now₁ now₂ : Int}
    {clock₁ clock₂ : ℕ → SearchedPV → Int}
    {o₁ o₂ : Output}
    (hRun : Run step d
      (m₁ ++ (.maintain c₁ clock₁ now₁, o₁) :: (m₂ ++ (.maintain c₂ clock₂ now₂, o₂) :: m₃)) d')
    (hClock : Clocked reads T
      (m₁ ++ (.maintain c₁ clock₁ now₁, o₁) :: (m₂ ++ (.maintain c₂ clock₂ now₂, o₂) :: m₃)) T')
    (hUnwanted : Unwanted pvname (m₁ ++ m₂ ++ m₃))
    (h₁ : T + (d₀.purgeDelay + 1) * 1000000000 ≤ c₁)
    (h₂ : c₁ + (d₀.purgeDelay + 1) * 1000000000 ≤ c₂) :
    ¬ d'.IsSearched pvname := by
  obtain ⟨hDated, hSound⟩ := dated_run hInit hPurge hStart hBefore hClock₀
  have hUnwanted₁ : Unwanted pvname m₁ := fun clock o hIn => hUnwanted clock o (by simp [hIn])
  have hUnwanted₂ : Unwanted pvname m₂ := fun clock o hIn => hUnwanted clock o (by simp [hIn])
  have hUnwanted₃ : Unwanted pvname m₃ := fun clock o hIn => hUnwanted clock o (by simp [hIn])
  obtain ⟨d₁, hRun₁, hRest⟩ := hRun.split
  obtain ⟨t₁, hClock₁, hRestClock⟩ := hClock.split
  obtain ⟨d₂, hStep₁, hRest⟩ := Runs.run_cons_iff.mp hRest
  obtain ⟨t₂, -, hReads₁, hRestClock⟩ := Runs.clocked_cons_iff.mp hRestClock
  obtain ⟨d₃, hRun₂, hRest⟩ := hRest.split
  obtain ⟨t₃, hClock₂, hRestClock⟩ := hRestClock.split
  obtain ⟨d₄, hStep₂, hRun₃⟩ := Runs.run_cons_iff.mp hRest
  obtain ⟨t₄, -, hReads₂, -⟩ := Runs.clocked_cons_iff.mp hRestClock
  -- until the first maintenance, nobody is asked for the PV
  have hAsked : AskedBefore T pvname d₁ :=
    unwanted_run (fun _ _ _ _ => askedBefore_step) hRun₁ hSound hUnwanted₁
      fun s hs r hr _ => hDated.searches s hs r hr
  have hPeriod : d₁.purgeDelay = d₀.purgeDelay :=
    (hBefore.append hRun₁).invariant (I := fun d => d.purgeDelay = d₀.purgeDelay)
      (fun _ _ _ _ h hStep => (lastPurge_step hStep).1.trans h) rfl
  obtain ⟨hDated₁, hSound₁⟩ := dated_run hInit hPurge hStart (hBefore.append hRun₁)
    (hClock₀.append hClock₁)
  have hFading := fading_of_maintain hSound₁ hStep₁ hReads₁ hDated₁.purge
    fun s hs r hr hName => (hAsked s hs r hr hName).trans (by rw [hPeriod]; omega)
  -- from the first to the second, and on
  have hFading₃ := fading_run hRun₂ hClock₂ hUnwanted₂ (hReads₁.2.2.1.trans hReads₁.2.2.2) hFading
  have hGone := not_isSearched_of_fading hFading₃ hStep₂ hReads₂ (by rw [hPeriod]; exact h₂)
  have hSound₄ := sound_step hFading₃.sound hStep₂
  exact unwanted_run (fun _ _ _ _ => not_isSearched_step) hRun₃ hSound₄ hUnwanted₃ hGone

/-- `oneSearcher` once its PV is asked for. -/
def oneAsked : Dispatcher :=
  ((Runs.exec step oneSearcher (foundAndClosed.take 1)).get rfl).2

/-- The maintenance, with its readings of the clock all the same. -/
def maintained (now : Int) : Event := .maintain now (fun _ _ => now) now

/-- It comes 601 s after and is due, then while it is not, and again 601 s
after the first. -/
theorem unwanted_name_maintained :
    ∃ d, Run step oneAsked [(maintained 601000000000, .done), (maintained 700000000000, .done),
      (maintained 1202000000000, .done)] d ∧ ¬ d.IsSearched [chr 'A'] := by
  have hBefore : Run step oneSearcher _ oneAsked := Runs.run_of_exec (foundAndClosed.take 1) rfl
  have hDone : (Runs.exec step oneAsked [maintained 601000000000, maintained 700000000000,
      maintained 1202000000000]).map (fun r => r.1.map Prod.snd) = some [.done, .done, .done] := by
    decide +kernel
  obtain ⟨d, hRun⟩ := Runs.exists_run_of_outputs _ hDone
  have hRun' : Run step oneAsked ([] ++ (maintained 601000000000, .done) ::
      ([(maintained 700000000000, .done)] ++ (maintained 1202000000000, .done) :: [])) d := hRun
  refine ⟨d, hRun, unwanted_name_forgotten init_oneSearcher (t := 0) le_rfl le_rfl hBefore
    (T := 0) (.cons le_rfl (by simp [reads]) (.nil _)) hRun'
    (.cons (show (0 : Int) ≤ 601000000000 by decide) (by simp [reads]) <|
      .cons (show (601000000000 : Int) ≤ 700000000000 by decide) (by simp [reads, maintained]) <|
      .cons (show (700000000000 : Int) ≤ 1202000000000 by decide) (by simp [reads]) (.nil _))
    (by simp [Unwanted, maintained]) (by decide) (by decide)⟩

end Dispatcher

end PVmapper
