import PVmapper.Dispatcher.Status
import PVmapper.Lib.Simulation

/-!
# PVmapper — a run of the dispatcher, seen from one searcher or one guard

The dispatcher never does more to a searcher than call its methods, so a run
of the dispatcher is, for each of its searchers, a run of that searcher, and
every step of the one is a known call of the other, or none. Likewise only its
own two calls change a guard.

* `step_searcher`, `run_of_searcher` — what a searcher sees of a run.
* `maintain_cases`, `lastPurge_step` — when the maintenance purges.
* `step_guard`                      — what a guard sees of a step.
-/

namespace PVmapper

namespace Dispatcher

open Runs (Run)

variable {d d' : Dispatcher} {tr : List (Event × Output)} {e : Event} {o : Output}

-- ---------------------------------------------------------------------------
-- Searchers
-- ---------------------------------------------------------------------------

/-- What a step of the dispatcher is for its `k`-th searcher. -/
inductive SeenBy (k : ℕ) : Event × Output → List (Searcher.Event × Searcher.Output) → Prop
  /-- a client is answered from the cache -/
  | served (clock : ℕ → Int) (pvname response : Bytes) :
      SeenBy k (.clientSearched clock pvname, .reply response) []
  | added (clock : ℕ → Int) (pvname : Bytes) (isNew : Bool) :
      SeenBy k (.clientSearched clock pvname, .reply []) [(.addPV (clock k) pvname, .added isNew)]
  | missed (k' : ℕ) (iocIp : Bytes) (iocPort : UInt16) (response : UInt32 × Bytes)
      (opening : Opening) (now : Int) :
      SeenBy k (.response k' iocIp iocPort response opening now, .found none) []
  | found (iocIp : Bytes) (iocPort : UInt16) (response : UInt32 × Bytes) (opening : Opening)
      (now : Int) (f : FoundPv) (g : Option GuardId) :
      SeenBy k (.response k iocIp iocPort response opening now, .found (some (f, g)))
        [(.response response.1 g.isSome, .found (some f.pvname))]
  /-- another searcher finds a PV, and it is recorded or not -/
  | removed (k' : ℕ) (iocIp : Bytes) (iocPort : UInt16) (response : UInt32 × Bytes)
      (opening : Opening) (now : Int) (f : FoundPv) (g : GuardId) :
      SeenBy k (.response k' iocIp iocPort response opening now, .found (some (f, some g)))
        [(.removePV f.pvname, .removed)]
  | refused (k' : ℕ) (iocIp : Bytes) (iocPort : UInt16) (response : UInt32 × Bytes)
      (opening : Opening) (now : Int) (f : FoundPv) :
      SeenBy k (.response k' iocIp iocPort response opening now, .found (some (f, none))) []
  | outgoing (now : Int) (ticked : Bool) (packets : List Packet) :
      SeenBy k (.searcherOutgoing k now, .sent k packets) [(.outgoing now, .sent ticked packets)]
  | elsewhere (k' : ℕ) (now : Int) (packets : List Packet) : k' ≠ k →
      SeenBy k (.searcherOutgoing k' now, .sent k' packets) []
  | guardIncoming (g : GuardId) (recvd now : Int) (o : Output) :
      SeenBy k (.guardIncoming g recvd now, o) []
  | guardOutgoing (g : GuardId) (answers : Answers) (o : Output) :
      SeenBy k (.guardOutgoing g answers, o) []
  | drop (i : ℕ) : SeenBy k (.drop i, .done) []
  | waited (checkedAt : Int) (clock : ℕ → SearchedPV → Int) (now : Int) :
      SeenBy k (.maintain checkedAt clock now, .done) []
  | purged (checkedAt : Int) (clock : ℕ → SearchedPV → Int) (now : Int) (maxtime : ℕ)
      (nPurged nSearching : UInt32) :
      SeenBy k (.maintain checkedAt clock now, .done)
        [(.purge (clock k) maxtime, .purged nPurged nSearching)]

/-- A loop over the searchers runs its body on each, with the searcher's number. -/
theorem getElem?_forSearchers {f : ℕ → Searcher → Option Searcher}
    (h : d.forSearchers f = some d') {k : ℕ} {s : Searcher} (hGet : d.caSearchers[k]? = some s) :
    ∃ s', f k s = some s' ∧ d'.caSearchers[k]? = some s' := by
  obtain ⟨searchers, hMap, rfl⟩ := Option.map_eq_some_iff.mp h
  rw [mapM_id_eq_some] at hMap
  have hAt := congrArg (·[k]?) hMap
  simp only [List.getElem?_mapIdx, hGet, Option.map_some, List.getElem?_map] at hAt
  obtain ⟨s', hGet', hEq⟩ := Option.map_eq_some_iff.mp hAt.symm
  exact ⟨s', hEq.symm, hGet'⟩

/-- A client's search that is not answered is put into every searcher, at that
searcher's reading of the clock. -/
theorem caPvSearched_searcher {clock : ℕ → Int} {pvname response : Bytes}
    (h : d.caPvSearched clock pvname = some (d', response)) {k : ℕ} {s : Searcher}
    (hGet : d.caSearchers[k]? = some s) :
    d' = d ∨ response = [] ∧ ∃ s' isNew, s.addPV (clock k) pvname = some (s', isNew) ∧
      d'.caSearchers[k]? = some s' := by
  have hLoop : ∀ {d₁ d₂ : Dispatcher}, d₁.addToSearchers clock pvname = some d₂ →
      d₁.caSearchers = d.caSearchers → ∃ s' isNew,
        s.addPV (clock k) pvname = some (s', isNew) ∧ d₂.caSearchers[k]? = some s' := by
    intro d₁ d₂ hAdd hSame
    obtain ⟨s', hBody, hGet'⟩ := getElem?_forSearchers hAdd (hSame ▸ hGet)
    obtain ⟨⟨s₁, isNew⟩, hAddPV, hEq⟩ := Option.map_eq_some_iff.mp hBody
    obtain rfl : s₁ = s' := hEq
    exact ⟨s₁, isNew, hAddPV, hGet'⟩
  unfold caPvSearched at h
  split at h
  · split at h
    · obtain ⟨rfl, -⟩ := Prod.mk.inj (Option.some.inj h)
      exact Or.inl rfl
    · obtain ⟨d₂, hAdd, hEq⟩ := Option.map_eq_some_iff.mp h
      obtain ⟨rfl, rfl⟩ := Prod.mk.inj hEq
      exact Or.inr ⟨rfl, hLoop hAdd rfl⟩
  · obtain ⟨d₂, hAdd, hEq⟩ := Option.map_eq_some_iff.mp h
    obtain ⟨rfl, rfl⟩ := Prod.mk.inj hEq
    exact Or.inr ⟨rfl, hLoop hAdd rfl⟩

/-- The `k`-th searcher after the `k'`-th one was changed. -/
theorem getElem?_set {k k' : ℕ} {s s₁ : Searcher} (s' : Searcher)
    (hGet : d.caSearchers[k]? = some s) (hGet' : d.caSearchers[k']? = some s₁) :
    (k' = k ∧ s = s₁ ∧ (d.caSearchers.set k' s')[k]? = some s') ∨
      (k' ≠ k ∧ (d.caSearchers.set k' s')[k]? = some s) := by
  by_cases hk : k' = k
  · subst hk
    rw [hGet, Option.some.injEq] at hGet'
    exact Or.inl ⟨rfl, hGet', List.getElem?_set_self (List.getElem?_eq_some_iff.mp hGet).1⟩
  · exact Or.inr ⟨hk, by rw [List.getElem?_set_ne hk, hGet]⟩

/-- The maintenance does nothing before it is due, and then purges every
searcher. -/
theorem maintain_cases {checkedAt : Int} {clock : ℕ → SearchedPV → Int} {now : Int}
    (hStep : d.step (.maintain checkedAt clock now) = some (d', o)) :
    (seconds (checkedAt - d.lastPurge) ≤ d.purgeDelay ∧ d' = d) ∨
      (d.purgeDelay < seconds (checkedAt - d.lastPurge) ∧
        d' = { d with caSearchers := d'.caSearchers, lastPurge := now } ∧
        ∀ (k : ℕ) (s : Searcher), d.caSearchers[k]? = some s → ∃ s' nPurged nSearching,
          s.purgePVs (clock k) d.purgeDelay = some (s', nPurged, nSearching) ∧
            d'.caSearchers[k]? = some s') := by
  unfold step at hStep
  dsimp only at hStep
  split at hStep
  · next hDue =>
    obtain ⟨d₁, hPurge, hStepEq⟩ := Option.map_eq_some_iff.mp hStep
    obtain ⟨rfl, rfl⟩ := Prod.mk.inj hStepEq
    obtain ⟨d₂, hLoop, rfl⟩ := Option.map_eq_some_iff.mp hPurge
    refine Or.inr ⟨hDue, by rw [(forSearchers_eq_some hLoop).1], fun k s hGet => ?_⟩
    obtain ⟨s', hBody, hGet'⟩ := getElem?_forSearchers hLoop hGet
    obtain ⟨⟨s₁, nPurged, nSearching⟩, hPurgePVs, hEq⟩ := Option.map_eq_some_iff.mp hBody
    obtain rfl : s₁ = s' := hEq
    exact ⟨s₁, nPurged, nSearching, hPurgePVs, hGet'⟩
  · next hEarly =>
    obtain ⟨rfl, -⟩ := Prod.mk.inj (Option.some.inj hStep)
    exact Or.inl ⟨not_lt.mp hEarly, rfl⟩

/-- **What a searcher sees of a step.** -/
theorem step_searcher (hStep : d.step e = some (d', o)) {k : ℕ} {s : Searcher}
    (hGet : d.caSearchers[k]? = some s) :
    ∃ block s', d'.caSearchers[k]? = some s' ∧ Run Searcher.step s block s' ∧
      SeenBy k (e, o) block := by
  cases e with
  | clientSearched clock pvname =>
    obtain ⟨response, hSearched, rfl⟩ := step_clientSearched hStep
    rcases caPvSearched_searcher hSearched hGet with rfl | ⟨rfl, s', isNew, hAdd, hGet'⟩
    · exact ⟨[], s, hGet, Run.nil s, SeenBy.served clock pvname response⟩
    · exact ⟨_, s', hGet', Run.single (Searcher.step_of_addPV hAdd),
        SeenBy.added clock pvname isNew⟩
  | response k' iocIp iocPort response opening now =>
    rcases step_response hStep with
      ⟨rfl, rfl⟩ | ⟨s₁, pv, s', hGet₁, hTake, f, g, hName, rfl, hFound⟩
    · exact ⟨[], s, hGet, Run.nil s, SeenBy.missed k' iocIp iocPort response opening now⟩
    · rcases caPvFound_cases { d with caSearchers := d.caSearchers.set k' s' } opening now f with
        hNone | ⟨d₁, g', -, hSome⟩
      · -- the guard cannot be made: only the searcher that found the PV has changed
        rw [hNone, Prod.mk.injEq] at hFound
        obtain ⟨rfl, rfl⟩ := hFound
        rcases getElem?_set s' hGet hGet₁ with ⟨rfl, rfl, hGet'⟩ | ⟨-, hGet'⟩
        · refine ⟨_, s', hGet', Run.single (Searcher.step_of_takeFound hTake), ?_⟩
          rw [← hName]
          exact SeenBy.found iocIp iocPort response opening now f none
        · exact ⟨[], s, hGet', Run.nil s, SeenBy.refused k' iocIp iocPort response opening now f⟩
      · -- every searcher stops searching
        rw [hSome, Prod.mk.injEq] at hFound
        obtain ⟨rfl, rfl⟩ := hFound
        rcases getElem?_set s' hGet hGet₁ with ⟨rfl, rfl, hGet'⟩ | ⟨-, hGet'⟩
        · refine ⟨[(.response response.1 true, .found (some f.pvname))], s'.removePV f.pvname, ?_,
            Run.single ?_, SeenBy.found iocIp iocPort response opening now f (some g')⟩
          · rw [List.getElem?_map, hGet', Option.map_some]
          · unfold Searcher.step
            dsimp only
            rw [hTake, hName]
            rfl
        · refine ⟨_, s.removePV f.pvname, ?_, Run.single (e := .removePV f.pvname) rfl,
            SeenBy.removed k' iocIp iocPort response opening now f g'⟩
          rw [List.getElem?_map, hGet', Option.map_some]
  | searcherOutgoing k' now =>
    obtain ⟨s₁, s', packets, hGet₁, hOut, rfl, rfl⟩ := step_searcherOutgoing hStep
    rcases getElem?_set s' hGet hGet₁ with ⟨rfl, rfl, hGet'⟩ | ⟨hk, hGet'⟩
    · exact ⟨_, s', hGet', Run.single (Searcher.step_of_processOutgoing hOut),
        SeenBy.outgoing now _ packets⟩
    · exact ⟨[], s, hGet', Run.nil s, SeenBy.elsewhere k' now packets hk⟩
  | guardIncoming g recvd now =>
    obtain ⟨_, _, _, _, _, _, _, hD⟩ := step_guardIncoming hStep
    exact ⟨[], s, by rw [hD]; exact hGet, Run.nil s, SeenBy.guardIncoming g recvd now o⟩
  | guardOutgoing g answers =>
    obtain ⟨_, _, _, _, _, _, _, hD⟩ := step_guardOutgoing hStep
    exact ⟨[], s, by rw [hD]; exact hGet, Run.nil s, SeenBy.guardOutgoing g answers o⟩
  | drop i =>
    obtain ⟨-, -, rfl, ⟨-, rfl⟩ | ⟨-, rfl⟩⟩ := step_drop hStep
    · exact ⟨[], s, hGet, Run.nil s, SeenBy.drop i⟩
    · exact ⟨[], s, hGet, Run.nil s, SeenBy.drop i⟩
  | maintain checkedAt clock now =>
    obtain ⟨rfl, -⟩ := step_maintain hStep
    rcases maintain_cases hStep with ⟨-, rfl⟩ | ⟨-, -, hEach⟩
    · exact ⟨[], s, hGet, Run.nil s, SeenBy.waited checkedAt clock now⟩
    · obtain ⟨s', nPurged, nSearching, hPurge, hGet'⟩ := hEach k s hGet
      exact ⟨_, s', hGet', Run.single (Searcher.step_of_purgePVs hPurge),
        SeenBy.purged checkedAt clock now d.purgeDelay nPurged nSearching⟩

/-- Only the maintenance notes when it purged. -/
theorem lastPurge_step (hStep : d.step e = some (d', o)) :
    d'.purgeDelay = d.purgeDelay ∧
      (d'.lastPurge = d.lastPurge ∨
        ∃ checkedAt clock, e = .maintain checkedAt clock d'.lastPurge) := by
  cases e with
  | clientSearched clock pvname =>
    obtain ⟨response, hSearched, -⟩ := step_clientSearched hStep
    rcases caPvSearched_cases hSearched with ⟨-, -, -, -, -, rfl, -⟩ | ⟨-, -, -, -, hD, -⟩
    · exact ⟨rfl, Or.inl rfl⟩
    · rw [hD]
      exact ⟨rfl, Or.inl rfl⟩
  | response k iocIp iocPort response opening now =>
    rcases step_response hStep with ⟨rfl, -⟩ | ⟨s, pv, s', -, -, f, g, -, -, hFound⟩
    · exact ⟨rfl, Or.inl rfl⟩
    · rcases caPvFound_cases { d with caSearchers := d.caSearchers.set k s' } opening now f with
        hNone | ⟨d₁, g', hGuard, hSome⟩
      · rw [hNone, Prod.mk.injEq] at hFound
        rw [← hFound.1]
        exact ⟨rfl, Or.inl rfl⟩
      · rw [hSome, Prod.mk.injEq] at hFound
        rw [← hFound.1]
        rcases iocGuard_eq_some hGuard with ⟨-, rfl⟩ | ⟨-, -, guard, -, rfl⟩
        · exact ⟨rfl, Or.inl rfl⟩
        · exact ⟨rfl, Or.inl rfl⟩
  | searcherOutgoing k now =>
    obtain ⟨_, _, _, -, -, rfl, -⟩ := step_searcherOutgoing hStep
    exact ⟨rfl, Or.inl rfl⟩
  | guardIncoming g recvd now =>
    obtain ⟨_, _, _, _, _, _, _, rfl⟩ := step_guardIncoming hStep
    exact ⟨rfl, Or.inl rfl⟩
  | guardOutgoing g answers =>
    obtain ⟨_, _, _, _, _, _, _, rfl⟩ := step_guardOutgoing hStep
    exact ⟨rfl, Or.inl rfl⟩
  | drop i =>
    obtain ⟨-, -, -, ⟨-, rfl⟩ | ⟨-, rfl⟩⟩ := step_drop hStep
    · exact ⟨rfl, Or.inl rfl⟩
    · exact ⟨rfl, Or.inl rfl⟩
  | maintain checkedAt clock now =>
    rcases maintain_cases hStep with ⟨-, rfl⟩ | ⟨-, hD, -⟩
    · exact ⟨rfl, Or.inl rfl⟩
    · rw [hD]
      exact ⟨rfl, Or.inr ⟨checkedAt, clock, rfl⟩⟩

/-- The maintenance is not due: too little time has passed since the last purge. -/
def Early (lastPurge : Int) (purgeDelay : ℕ) (e : Event) : Prop :=
  ∀ checkedAt clock now, e = .maintain checkedAt clock now →
    seconds (checkedAt - lastPurge) ≤ purgeDelay

/-- **What a searcher sees of a run** in which no purge is due: a run of its
own, without a purge. -/
theorem run_of_searcher (hRun : Run step d tr d')
    (hEarly : ∀ x ∈ tr, Early d.lastPurge d.purgeDelay x.1) {k : ℕ} {s : Searcher}
    (hGet : d.caSearchers[k]? = some s) :
    ∃ blocks s', (d'.caSearchers[k]? = some s' ∧ d'.lastPurge = d.lastPurge ∧
        d'.purgeDelay = d.purgeDelay) ∧ Run Searcher.step s blocks.flatten s' ∧
      List.Forall₂ (fun x block => SeenBy k x block ∧ ∀ y ∈ block, y.1.isPurge = false) tr
        blocks := by
  have hEach : ∀ (d₁ : Dispatcher) e d₂ o s₁, (e, o) ∈ tr → d₁.step e = some (d₂, o) →
      (d₁.caSearchers[k]? = some s₁ ∧ d₁.lastPurge = d.lastPurge ∧ d₁.purgeDelay = d.purgeDelay) →
      ∃ block s₂, (d₂.caSearchers[k]? = some s₂ ∧ d₂.lastPurge = d.lastPurge ∧
        d₂.purgeDelay = d.purgeDelay) ∧ Run Searcher.step s₁ block s₂ ∧
        (SeenBy k (e, o) block ∧ ∀ y ∈ block, y.1.isPurge = false) := by
    rintro d₁ e d₂ o s₁ hMem hStep ⟨hGet₁, hLast, hDelay⟩
    obtain ⟨block, s₂, hGet₂, hBlock, hSeen⟩ := step_searcher hStep hGet₁
    obtain ⟨hDelay', hLast'⟩ := lastPurge_step hStep
    by_cases hMaintain : ∃ checkedAt clock now, e = .maintain checkedAt clock now
    · obtain ⟨checkedAt, clock, now, rfl⟩ := hMaintain
      have hHere := hEarly _ hMem checkedAt clock now rfl
      rcases maintain_cases hStep with ⟨-, rfl⟩ | ⟨hDue, -⟩
      · obtain ⟨rfl, -⟩ := step_maintain hStep
        exact ⟨[], s₁, ⟨hGet₁, hLast, hDelay⟩, Run.nil s₁,
          SeenBy.waited checkedAt clock now, fun y hy => absurd hy List.not_mem_nil⟩
      · rw [hLast, hDelay] at hDue
        omega
    · rcases hLast' with hSame | ⟨checkedAt, clock, rfl⟩
      · refine ⟨block, s₂, ⟨hGet₂, hSame.trans hLast, hDelay'.trans hDelay⟩, hBlock, hSeen, ?_⟩
        cases hSeen with
        | purged checkedAt clock now => exact absurd ⟨checkedAt, clock, now, rfl⟩ hMaintain
        | _ => simp [Searcher.Event.isPurge]
      · exact absurd ⟨checkedAt, clock, _, rfl⟩ hMaintain
  obtain ⟨blocks, s', hEnd, hAll, hRun'⟩ := hRun.project
    (R := fun d₁ s₁ => d₁.caSearchers[k]? = some s₁ ∧ d₁.lastPurge = d.lastPurge ∧
      d₁.purgeDelay = d.purgeDelay)
    (P := fun x block => SeenBy k x block ∧ ∀ y ∈ block, y.1.isPurge = false)
    hEach ⟨hGet, rfl, rfl⟩
  exact ⟨blocks, s', hEnd, hRun', hAll⟩

-- ---------------------------------------------------------------------------
-- Guards
-- ---------------------------------------------------------------------------

/-- What acts on a connection is one of the two calls of its guard. -/
theorem call_of_guard {g : GuardId} {acts : List GuardAction}
    (hStep : d.step e = some (d', .guard g acts)) :
    (∃ recvd now, e = .guardIncoming g recvd now) ∨ ∃ answers, e = .guardOutgoing g answers := by
  cases e with
  | guardIncoming g' recvd now =>
    obtain ⟨-, hCall⟩ := Option.ite_none_right_eq_some.mp hStep
    obtain ⟨_, -, hEq⟩ := Option.map_eq_some_iff.mp hCall
    obtain ⟨rfl, -⟩ := Output.guard.inj (Prod.mk.inj hEq).2
    exact Or.inl ⟨recvd, now, rfl⟩
  | guardOutgoing g' answers =>
    obtain ⟨-, hCall⟩ := Option.ite_none_right_eq_some.mp hStep
    obtain ⟨_, -, hEq⟩ := Option.map_eq_some_iff.mp hCall
    obtain ⟨rfl, -⟩ := Output.guard.inj (Prod.mk.inj hEq).2
    exact Or.inr ⟨answers, rfl⟩
  | clientSearched clock pvname => exact absurd (step_clientSearched hStep) (by simp)
  | response k iocIp iocPort response opening now => exact absurd (step_response hStep) (by simp)
  | searcherOutgoing k now => exact absurd (step_searcherOutgoing hStep) (by simp)
  | drop i => exact absurd (step_drop hStep) (by simp)
  | maintain checkedAt clock now => exact absurd (step_maintain hStep) (by simp)

/-- **What a guard sees of a step.** It stays, unless the step is one of its
two calls. -/
theorem step_guard (hStep : d.step e = some (d', o)) {g : GuardId} {guard : IocGuard}
    (hGet : d.guards[g]? = some guard) :
    (d'.guards[g]? = some guard ∧ (∀ recvd now, e ≠ .guardIncoming g recvd now) ∧
        ∀ answers, e ≠ .guardOutgoing g answers) ∨
      (∃ recvd now, e = .guardIncoming g recvd now ∧
        d'.guards[g]? = some (guard.processIncoming recvd now).1) ∨
      ∃ answers, e = .guardOutgoing g answers ∧
        d'.guards[g]? = some (guard.processOutgoing answers).1 := by
  have hCalled : ∀ {g' : GuardId} {call : IocGuard → IocGuard × List GuardAction},
      (if Connection.guard g' ∈ d.connections then
        (d.callGuard g' call).map fun r => (r.1, Output.guard g' r.2) else none) = some (d', o) →
      (g' = g ∧ d'.guards[g]? = some (call guard).1) ∨ (g' ≠ g ∧ d'.guards[g]? = some guard) := by
    intro g' call h
    split at h
    · obtain ⟨⟨d₁, acts⟩, hCallGuard, hEq⟩ := Option.map_eq_some_iff.mp h
      obtain ⟨rfl, rfl⟩ := Prod.mk.inj hEq
      obtain ⟨guard', hGet', -, rfl⟩ := callGuard_eq_some hCallGuard
      by_cases hg : g' = g
      · subst hg
        rw [hGet, Option.some.injEq] at hGet'
        exact Or.inl ⟨rfl, hGet' ▸ List.getElem?_set_self (List.getElem?_eq_some_iff.mp hGet).1⟩
      · exact Or.inr ⟨hg, by rw [List.getElem?_set_ne hg, hGet]⟩
    · exact absurd h (by simp)
  cases e with
  | guardIncoming g' recvd now =>
    rcases hCalled hStep with ⟨rfl, hGet'⟩ | ⟨hg, hGet'⟩
    · exact Or.inr (Or.inl ⟨recvd, now, rfl, hGet'⟩)
    · exact Or.inl ⟨hGet', by simp [hg], by simp⟩
  | guardOutgoing g' answers =>
    rcases hCalled hStep with ⟨rfl, hGet'⟩ | ⟨hg, hGet'⟩
    · exact Or.inr (Or.inr ⟨answers, rfl, hGet'⟩)
    · exact Or.inl ⟨hGet', by simp, by simp [hg]⟩
  | _ =>
    refine Or.inl ⟨?_, by simp, by simp⟩
    rcases step_guards hStep with ⟨hGuards, -⟩ | ⟨new, -, -, hGuards, -⟩ | hCall |
      ⟨-, -, -, -, hGuards, -⟩
    · exact hGuards ▸ hGet
    · rw [hGuards, List.getElem?_append_left (List.getElem?_eq_some_iff.mp hGet).1, hGet]
    · obtain ⟨_, _, _, _, rfl, -⟩ := hCall
      exact absurd (call_of_guard hStep) (by simp)
    · exact hGuards ▸ hGet

end Dispatcher

end PVmapper
