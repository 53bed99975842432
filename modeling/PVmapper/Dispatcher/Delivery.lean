import PVmapper.Dispatcher.Origins
import PVmapper.Dispatcher.Projection
import PVmapper.ProtoCa.Replies
import PVmapper.Searcher.RateLimit
import PVmapper.Searcher.Waiting

/-!
# PVmapper — from a client's search to the answer

What is shown for one searcher holds for each searcher of a running dispatcher,
whatever else happens meanwhile: other clients' searches, what other searchers
find, IOCs that come and go. A name a client asks for goes out on the
configured schedule until it is found; and the answer to its first request, if
it comes before the next tick, is never missed: the PV is found, its IOC
watched, and clients are answered until that IOC closes.

* `ticksOf`              — the ticks of one searcher in a run.
* `readTicksOf_eq`       — the same, read off the packets.
* `requests_on_schedule` — the schedule, in a running dispatcher.
* `first_answer_found`   — the first request and its answer.
-/

namespace PVmapper

namespace Dispatcher

open Runs (Run)
open ChannelAccess (Addressed Plain ordinaryResponse parseSearchRequest responseEntry
  responseOffsets versionBefore)
open Searcher (Backoff sendTick)

variable {d d' d₀ d₁ d₂ : Dispatcher} {searchIntervals : List UInt32}
  {pre tr before after : List (Event × Output)} {e : Event} {o : Output} {k : ℕ}
  {s s' s₁ : Searcher} {pvname : Bytes}

-- ---------------------------------------------------------------------------
-- Ticks
-- ---------------------------------------------------------------------------

/-- The names that the ticks of the `k`-th searcher send requests for. A call
is a tick unless it is too early for the searcher, which is one of its time of
construction; `s` is the searcher in any state of the run. -/
def ticksOf (k : ℕ) (s : Searcher) (tr : List (Event × Output)) : List (List Bytes) :=
  tr.filterMap fun x =>
    match x with
    | (.searcherOutgoing k' now, .sent _ packets) =>
      if k' = k ∧ ¬ s.tooEarly now then some ((packets.flatMap Packet.pvs).map Prod.snd) else none
    | _ => none

/-- The names that these ticks are read to ask for. -/
def readTicksOf (k : ℕ) (s : Searcher) (tr : List (Event × Output)) : List (List Bytes) :=
  tr.filterMap fun x =>
    match x with
    | (.searcherOutgoing k' now, .sent _ packets) =>
      if k' = k ∧ ¬ s.tooEarly now then
        some ((packets.flatMap fun packet => parseSearchRequest packet.msg).map Prod.snd)
      else none
    | _ => none

/-- What the ticks are read to ask for is what they list, if no client asks for
too long a name. -/
theorem readTicksOf_eq (hInit : Init searchIntervals d₀) (hRun : Run step d₀ pre d)
    (hRun' : Run step d tr d') {m : ℕ} (hm : m < 65528)
    (hAsked : ∀ pvname, AskedIn (pre ++ tr) pvname → pvname.length ≤ m) (k : ℕ) (s : Searcher) :
    readTicksOf k s tr = (ticksOf k s tr).map (List.map ChannelAccess.copyStr) := by
  unfold readTicksOf ticksOf
  rw [List.map_filterMap]
  refine List.filterMap_congr fun x hx => ?_
  obtain ⟨e, o⟩ := x
  cases e with
  | searcherOutgoing k' now =>
    cases o with
    | sent j packets =>
      -- the call, as the step after the run up to it
      obtain ⟨u, v, rfl⟩ := List.append_of_mem hx
      obtain ⟨d₁, hBefore, hRest⟩ := hRun'.split
      obtain ⟨d₂, hStep, -⟩ := Runs.run_cons_iff.mp hRest
      have hCarried := carried_of_sent hInit (hRun.append hBefore) hStep hm fun pvname hName =>
        hAsked pvname (by
          rw [← List.append_assoc]
          exact hName.append _)
      dsimp only
      split
      · rw [Searcher.flatMap_parse_of_carried fun packet hPacket => (hCarried packet hPacket).2]
        rfl
      · rfl
    | _ => rfl
  | _ => rfl

theorem tooEarly_congr (h : s'.lastSearch = s.lastSearch) (now : Int) :
    s'.tooEarly now ↔ s.tooEarly now := by
  unfold Searcher.tooEarly
  rw [h]

theorem ticksOf_congr (h : s'.lastSearch = s.lastSearch) (k : ℕ) (tr : List (Event × Output)) :
    ticksOf k s' tr = ticksOf k s tr := by
  unfold ticksOf
  simp only [tooEarly_congr h]

/-- In a run of a searcher, the calls that are not too early tick. -/
theorem ticked_of_run {str : List (Searcher.Event × Searcher.Output)}
    (hRun : Run Searcher.step s str s') (hInv : s.Inv) {now : Int} {ticked : Bool}
    {packets : List Packet} (hMem : (.outgoing now, .sent ticked packets) ∈ str) :
    ticked = decide (¬ s.tooEarly now) := by
  obtain ⟨u, v, rfl⟩ := List.append_of_mem hMem
  obtain ⟨s₁, hBefore, hRest⟩ := hRun.split
  obtain ⟨s₂, hStep, -⟩ := Runs.run_cons_iff.mp hRest
  have hSame := tooEarly_congr (Searcher.sameFrame_run hBefore hInv).lastSearch now
  rcases Searcher.step_outgoing hStep with ⟨hEarly, -, ho⟩ | ⟨hDue, _, -, ho⟩
  · obtain ⟨rfl, -⟩ := Searcher.Output.sent.inj ho
    exact (decide_eq_false (not_not.mpr (hSame.mp hEarly))).symm
  · obtain ⟨rfl, -⟩ := Searcher.Output.sent.inj ho
    exact (decide_eq_true (mt hSame.mpr hDue)).symm

/-- The ticks a searcher sees are its ticks. -/
theorem ticks_of_blocks {blocks : List (List (Searcher.Event × Searcher.Output))}
    (hAll : List.Forall₂ (SeenBy k) tr blocks)
    (hTicked : ∀ now ticked packets, (.outgoing now, .sent ticked packets) ∈ blocks.flatten →
      ticked = decide (¬ s.tooEarly now)) :
    Searcher.ticks blocks.flatten = ticksOf k s tr := by
  induction hAll with
  | nil => rfl
  | @cons x block tr blocks hSeen _ ih =>
    have hRest := ih fun now ticked packets hMem =>
      hTicked now ticked packets (List.mem_append_right _ hMem)
    have hHead : Searcher.ticks block = ticksOf k s [x] := by
      cases hSeen with
      | outgoing now ticked packets =>
        have hHere :=
          hTicked now ticked packets (List.mem_append_left _ (List.mem_singleton.mpr rfl))
        unfold Searcher.ticks ticksOf
        by_cases hEarly : s.tooEarly now
        · simp [hHere, hEarly]
        · simp [hHere, hEarly]
      | elsewhere k' now packets hk => simp [Searcher.ticks, ticksOf, hk]
      | _ => rfl
    unfold Searcher.ticks ticksOf at *
    rw [List.flatten_cons, List.filterMap_append, hHead, hRest, ← List.filterMap_append,
      List.singleton_append]

-- ---------------------------------------------------------------------------
-- A search that goes on
-- ---------------------------------------------------------------------------

/-- The step neither finds the PV nor purges, counted from the last purge
before the run. -/
structure Spares (d : Dispatcher) (pvname : Bytes) (x : Event × Output) : Prop where
  early : Early d.lastPurge d.purgeDelay x.1
  other : ∀ f g, x.2 = .found (some (f, g)) → f.pvname ≠ pvname

/-- A searcher sees nothing of the PV in a step that spares it. -/
theorem keeps_of_seenBy {x : Event × Output} {block : List (Searcher.Event × Searcher.Output)}
    (hSeen : SeenBy k x block) (hSpares : Spares d pvname x) :
    ∀ y ∈ block, Searcher.Keeps pvname y := by
  intro y hy
  cases hSeen with
  | added clock name isNew =>
    rw [List.mem_singleton.mp hy]
    exact ⟨by simp, by simp⟩
  | found iocIp iocPort response opening now f g =>
    rw [List.mem_singleton.mp hy]
    refine ⟨by simp, fun hEq => hSpares.other f g rfl ?_⟩
    simpa using hEq
  | removed k' iocIp iocPort response opening now f g =>
    rw [List.mem_singleton.mp hy]
    refine ⟨fun hEq => hSpares.other f (some g) rfl ?_, by simp⟩
    simpa using hEq
  | outgoing now ticked packets =>
    rw [List.mem_singleton.mp hy]
    exact ⟨by simp, by simp⟩
  | purged checkedAt clock now maxtime nPurged nSearching =>
    rw [List.mem_singleton.mp hy]
    exact ⟨by simp, by simp⟩
  | _ => exact absurd hy List.not_mem_nil

/-- A run that spares the PV, seen from a searcher. -/
theorem searcher_of_spared (hRun : Run step d tr d') (hSpares : ∀ x ∈ tr, Spares d pvname x)
    (hGet : d.caSearchers[k]? = some s) (hInv : s.Inv) :
    ∃ str s', (d'.caSearchers[k]? = some s' ∧ d'.lastPurge = d.lastPurge ∧
        d'.purgeDelay = d.purgeDelay) ∧ Run Searcher.step s str s' ∧
      (∀ y ∈ str, y.1.isPurge = false ∧ Searcher.Keeps pvname y) ∧
      Searcher.ticks str = ticksOf k s tr := by
  obtain ⟨blocks, s', hEnd, hRun', hAll⟩ :=
    run_of_searcher hRun (fun x hx => (hSpares x hx).early) hGet
  refine ⟨blocks.flatten, s', hEnd, hRun', fun y hy => ?_, ?_⟩
  · obtain ⟨block, hBlock, hy⟩ := List.mem_flatten.mp hy
    obtain ⟨x, hx, hSeen, hPurge⟩ := exists_of_mem_forall₂ hAll hBlock
    exact ⟨hPurge y hy, keeps_of_seenBy hSeen (hSpares x hx) y hy⟩
  · exact ticks_of_blocks (hAll.imp fun _ _ h => h.1) fun now ticked packets hMem =>
      ticked_of_run hRun' hInv hMem

/-- A client's search for a name that the `k`-th searcher does not search for
puts it there: `s₁` is that searcher then. -/
structure Begins (k : ℕ) (pvname : Bytes) (d d₁ : Dispatcher) (s₁ : Searcher) : Prop where
  asked : ∃ clock o, d.step (.clientSearched clock pvname) = some (d₁, o)
  fresh : ∀ s, d.caSearchers[k]? = some s → ¬ s.Searched pvname
  searcher : d₁.caSearchers[k]? = some s₁
  added : s₁.Searched pvname

/-- It waits at the hand, with all its intervals. -/
theorem Begins.waits (h : Begins k pvname d d₁ s₁) (hStatus : Status searchIntervals d) :
    ∃ chanId, s₁.Waits pvname chanId s₁.currentBin (Searcher.intervalsLeft searchIntervals 0) ∧
      s₁.searchedPvs.length = (Searcher.maxInterval searchIntervals).toNat := by
  obtain ⟨clock, o, hStep⟩ := h.asked
  obtain ⟨response, hSearched, -⟩ := step_clientSearched hStep
  obtain ⟨s, hGet, -⟩ := getElem?_of_forall₂ (step_searchers hStep) h.searcher
  have hReach := hStatus.searchers s (List.mem_of_getElem? hGet)
  have hReach₁ := (status_step hStatus hStep).searchers s₁ (List.mem_of_getElem? h.searcher)
  rcases caPvSearched_searcher hSearched hGet with rfl | ⟨-, s', isNew, hAdd, hGet'⟩
  · rw [h.searcher, Option.some.injEq] at hGet
    exact absurd (hGet ▸ h.added) (h.fresh s (hGet ▸ h.searcher))
  · rw [h.searcher, Option.some.injEq] at hGet'
    subst hGet'
    exact ⟨s.chanId, Searcher.waits_of_addPV hReach.inv hReach.frame.1 hAdd (h.fresh s hGet),
      hReach₁.frame.2⟩

/-- **On schedule, in a running dispatcher.** From the search of a client that
puts a name into a searcher, the ticks of that searcher send the name exactly
when the configured intervals say so, and once each time, for as long as no
searcher finds it and no purge is due. -/
theorem requests_on_schedule (hBackoff : Backoff searchIntervals) (hInit : Init searchIntervals d₀)
    (hBefore : Run step d₀ pre d) (hBegins : Begins k pvname d d₁ s₁) (hRun : Run step d₁ tr d₂)
    (hSpares : ∀ x ∈ tr, Spares d₁ pvname x) {i : ℕ} {names : List Bytes}
    (hNames : (ticksOf k s₁ tr)[i]? = some names) :
    names.count pvname ≤ 1 ∧ (pvname ∈ names ↔ ∃ j, sendTick searchIntervals j = i) := by
  obtain ⟨chanId, hWaits, hBins⟩ := hBegins.waits (status_run hBefore (status_of_init hInit))
  obtain ⟨str, s₂, -, hRun', hQuiet, hTicks⟩ :=
    searcher_of_spared hRun hSpares hBegins.searcher hWaits.inv
  rw [← hTicks] at hNames
  have hSent := Searcher.sent_of_onSchedule hBackoff hRun' hWaits.inv hBins hQuiet
    hWaits.onSchedule hNames
  rwa [Nat.zero_add] at hSent

/-- `oneSearcher` when a client has searched for its first PV. -/
def askedOnce : Dispatcher :=
  { oneSearcher with caSearchers := [Searcher.oneSearched 0 0 [1, 2, 10]] }

theorem begins_askedOnce :
    Begins 0 [chr 'A'] oneSearcher askedOnce (Searcher.oneSearched 0 0 [1, 2, 10]) where
  asked := ⟨fun _ => 0, .reply [], rfl⟩
  fresh s hGet := by
    obtain rfl : Searcher.tenBins = s := Option.some.inj hGet
    rintro ⟨q, hq, -⟩
    rw [Searcher.content_of_init Searcher.init_tenBins] at hq
    exact absurd hq (Multiset.notMem_zero q)
  searcher := rfl
  added := ⟨(0, ⟨0, [chr 'A'], 0, [1, 2, 10]⟩), by decide +kernel, rfl⟩

/-- Three ticks, and another client's search. -/
def threeTicks : List (Event × Output) :=
  [(.searcherOutgoing 0 1000000000, .sent 0 [Searcher.firstPacket]),
    (.searcherOutgoing 0 1100000000, .sent 0 [Searcher.firstPacket]),
    (.clientSearched (fun _ => 1150000000) [chr 'A'], .reply []),
    (.searcherOutgoing 0 1200000000, .sent 0 [])]

/-- The second of them sends the PV, the third does not. -/
theorem requests_threeTicks :
    ∃ d, Run step askedOnce threeTicks d ∧
      ticksOf 0 (Searcher.oneSearched 0 0 [1, 2, 10]) threeTicks = [[[chr 'A']], [[chr 'A']], []] ∧
      (∃ j, sendTick [1] j = 1) ∧ ¬ ∃ j, sendTick [1] j = 2 := by
  have hRun : Run step askedOnce threeTicks _ := Runs.run_of_exec (threeTicks.map Prod.fst) rfl
  have hSpares : ∀ x ∈ threeTicks, Spares askedOnce [chr 'A'] x := by
    intro x hx
    fin_cases hx <;> exact ⟨by rintro _ _ _ ⟨⟩, by rintro _ _ ⟨⟩⟩
  have hBackoff : Backoff [1] := ⟨by decide, by simp, by simp, by simp⟩
  have hSent : ∀ {i : ℕ} {names : List Bytes},
      (ticksOf 0 (Searcher.oneSearched 0 0 [1, 2, 10]) threeTicks)[i]? = some names →
      names.count [chr 'A'] ≤ 1 ∧ ([chr 'A'] ∈ names ↔ ∃ j, sendTick [1] j = i) := fun hNames =>
    requests_on_schedule hBackoff init_oneSearcher (Run.nil _) begins_askedOnce hRun hSpares hNames
  have hTicks : ticksOf 0 (Searcher.oneSearched 0 0 [1, 2, 10]) threeTicks =
      [[[chr 'A']], [[chr 'A']], []] := by decide +kernel
  have hSecond : (ticksOf 0 (Searcher.oneSearched 0 0 [1, 2, 10]) threeTicks)[1]? =
      some [[chr 'A']] := by rw [hTicks]; rfl
  have hThird : (ticksOf 0 (Searcher.oneSearched 0 0 [1, 2, 10]) threeTicks)[2]? = some [] := by
    rw [hTicks]
    rfl
  refine ⟨_, hRun, hTicks, (hSent hSecond).2.mp (by simp), ?_⟩
  intro h
  simpa using (hSent hThird).2.mpr h

-- ---------------------------------------------------------------------------
-- The first answer
-- ---------------------------------------------------------------------------

/-- A call that is not too early sends the new PV, which then waits at the
hand again. -/
theorem tick_of_searcherOutgoing {now : Int} {packets : List Packet}
    (hStep : d.step (.searcherOutgoing k now) = some (d', .sent k packets))
    (hGet : d.caSearchers[k]? = some s) (hTick : ¬ s.tooEarly now) {chanId : UInt32}
    (hWaits : s.Waits pvname chanId s.currentBin (Searcher.intervalsLeft searchIntervals 0)) :
    (chanId, pvname) ∈ packets.flatMap Packet.pvs ∧ ∃ s', d'.caSearchers[k]? = some s' ∧
      s'.Waits pvname chanId s'.currentBin (Searcher.intervalsLeft searchIntervals 1) ∧
      s'.lastSearch = s.lastSearch ∧ s'.searchedPvs.length = s.searchedPvs.length := by
  obtain ⟨s₁, s', packets', hGet₁, hOut, rfl, hSent⟩ := step_searcherOutgoing hStep
  obtain ⟨-, rfl⟩ := Output.sent.inj hSent
  rw [hGet, Option.some.injEq] at hGet₁
  subst hGet₁
  have hStep' := Searcher.step_of_processOutgoing hOut
  rw [decide_eq_true hTick] at hStep'
  obtain ⟨hMem, hWaits'⟩ := Searcher.first_tick hStep' hWaits
  have hFrame := Searcher.sameFrame_step hWaits.inv hStep'
  exact ⟨hMem, s', List.getElem?_set_self (List.getElem?_eq_some_iff.mp hGet).1, hWaits',
    hFrame.lastSearch, hFrame.length⟩

/-- If an IOC has a guard or can get one, what is found on it is recorded. -/
theorem found_of_takeFound (hGet : d.caSearchers[k]? = some s) {chanId : UInt32}
    (hTake : s.takeFound chanId ≠ none) {iocIp : Bytes} {iocPort : UInt16} (payload : Bytes)
    {opening : Opening} {now : Int} (hIoc : d.iocGuard opening now (iocIp, iocPort) ≠ none) :
    ∃ d' f g, d.step (.response k iocIp iocPort (chanId, payload) opening now) =
      some (d', .found (some (f, some g))) := by
  obtain ⟨⟨pv, s'⟩, hTake⟩ := Option.ne_none_iff_exists'.mp hTake
  have hGuard : ∀ searchers, ∃ r, { d with caSearchers := searchers }.iocGuard opening now
      (iocIp, iocPort) = some r := by
    intro searchers
    unfold iocGuard at hIoc ⊢
    dsimp only
    split
    · exact ⟨_, rfl⟩
    · next hNone =>
      rw [hNone] at hIoc
      exact Option.ne_none_iff_exists'.mp (by simpa using hIoc)
  obtain ⟨⟨d₁, g⟩, hGuard⟩ := hGuard (d.caSearchers.set k s')
  unfold step
  dsimp only
  rw [hGet]
  dsimp only
  rw [hTake]
  dsimp only
  unfold caPvFound
  dsimp only
  rw [hGuard]
  exact ⟨_, _, _, rfl⟩

/-- A recorded PV is answered from the cache until its guard closes. -/
theorem answered_of_found (hSound : Sound searchIntervals d) {f : FoundPv} {g : GuardId}
    (hStep : d.step e = some (d', .found (some (f, some g)))) (hRun : Run step d' tr d₂)
    (hOpen : d₂.isConnected g = true) (clock : ℕ → Int) :
    d₂.caPvSearched clock f.pvname = some (d₂, f.response) := by
  have hSound' := sound_step hSound hStep
  have hLookup : d'.connectedPVs.lookup f.pvname = some ⟨some g, f.response⟩ := by
    rcases step_connectedPVs hStep with ⟨-, hNot⟩ | ⟨_, -, -, -, hNot⟩ |
      ⟨_, _, _, _, _, f', g', -, -, -, ho, hCache, -⟩
    · exact absurd rfl (hNot f g)
    · exact absurd rfl (hNot f g)
    · obtain ⟨rfl, rfl⟩ : f = f' ∧ g = g' := by simpa using ho
      rw [hCache, AList.lookup_insert]
  have hEnd := lookup_of_connected hRun hSound'.status hLookup rfl
    (hSound'.recorded _ _ _ hLookup) hOpen
  exact caPvSearched_of_connected hEnd rfl hOpen clock

/-- The first tick asks for the name under some id, and up to the next one a
response with that id finds something. -/
theorem takeFound_of_first_tick (hInit : Init searchIntervals d₀)
    (hBefore : Run step d₀ pre d) (hBegins : Begins k pvname d d₁ s₁) {now : Int}
    {packets : List Packet}
    (hRun : Run step d₁ (before ++ (.searcherOutgoing k now, .sent k packets) :: after) d₂)
    (hSpares : ∀ x ∈ before ++ after, Spares d₁ pvname x) (hFirst : ticksOf k s₁ before = [])
    (hTick : ¬ s₁.tooEarly now) (hLast : ticksOf k s₁ after = []) :
    ∃ chanId s₂, (chanId, pvname) ∈ packets.flatMap Packet.pvs ∧
      d₂.caSearchers[k]? = some s₂ ∧ s₂.takeFound chanId ≠ none := by
  obtain ⟨chanId, hWaits, hBins⟩ := hBegins.waits (status_run hBefore (status_of_init hInit))
  -- up to the tick, the PV waits at the hand
  obtain ⟨d₃, hRunBefore, hRest⟩ := hRun.split
  obtain ⟨d₄, hStep, hRunAfter⟩ := Runs.run_cons_iff.mp hRest
  obtain ⟨str, s₃, ⟨hGet₃, hPurged₃, hDelay₃⟩, hRun₃, hQuiet, hTicks⟩ :=
    searcher_of_spared hRunBefore (fun x hx => hSpares x (List.mem_append_left _ hx))
      hBegins.searcher hWaits.inv
  obtain ⟨hWaits₃, hCur₃, hLen₃⟩ := Searcher.waits_run hRun₃ hQuiet (hTicks.trans hFirst) hWaits
  rw [← hCur₃] at hWaits₃
  have hSame₃ := (Searcher.sameFrame_run hRun₃ hWaits.inv).lastSearch
  -- the tick sends it, and it waits at the hand again
  obtain ⟨hMem, s₄, hGet₄, hWaits₄, hSame₄, hLen₄⟩ := tick_of_searcherOutgoing hStep hGet₃
    (mt (tooEarly_congr hSame₃ now).mp hTick) hWaits₃
  have hPurged₄ : d₄.lastPurge = d₁.lastPurge ∧ d₄.purgeDelay = d₁.purgeDelay := by
    obtain ⟨_, _, _, -, -, rfl, -⟩ := step_searcherOutgoing hStep
    exact ⟨hPurged₃, hDelay₃⟩
  have hSpares' : ∀ x ∈ after, Spares d₄ pvname x := by
    intro x hx
    have hHere := hSpares x (List.mem_append_right _ hx)
    refine ⟨?_, hHere.other⟩
    rw [hPurged₄.1, hPurged₄.2]
    exact hHere.early
  obtain ⟨str', s₂, ⟨hGet₂, -⟩, hRun₂, hQuiet', hTicks'⟩ :=
    searcher_of_spared hRunAfter hSpares' hGet₄ hWaits₄.inv
  rw [ticksOf_congr (hSame₄.trans hSame₃), hLast] at hTicks'
  obtain ⟨hWaits₂, hCur₂, hLen₂⟩ := Searcher.waits_run hRun₂ hQuiet' hTicks' hWaits₄
  rw [← hCur₂] at hWaits₂
  -- there is the bin at the hand, and the number of bins is never 1
  have hTwo : 1 < s₂.searchedPvs.length := by
    have hOne := Searcher.maxInterval_ne_one searchIntervals
    have hHand := hWaits₂.here.lt
    have hLen : s₂.searchedPvs.length = (Searcher.maxInterval searchIntervals).toNat := by
      rw [hLen₂, hLen₄, hLen₃, hBins]
    omega
  exact ⟨chanId, s₂, hMem, hGet₂, Searcher.takeFound_at_hand hTwo hWaits₂⟩

/-- **The first answer is never missed.** A client's search puts a name into a
searcher. The next tick of that searcher sends a request for it; and if a
response with that request's id comes before the tick after, from an IOC that
has a guard or can get one, then it finds the name, and from then on clients
that search for the name get this response, with the IOC's address put in, for
as long as the IOC's guard is connected. Meanwhile anything else may happen,
but that the name is found otherwise, that a purge is due, or that clients
have searched more than 2^32 times. The address gets in, and the reply to its
client, exactly when the VERSION header the response came with is plain. -/
theorem first_answer_found (hInit : Init searchIntervals d₀)
    (hBefore : Run step d₀ pre d) (hBegins : Begins k pvname d d₁ s₁) {now : Int}
    {packets : List Packet}
    (hRun : Run step d₁ (before ++ (.searcherOutgoing k now, .sent k packets) :: after) d₂)
    (hSpares : ∀ x ∈ before ++ after, Spares d₁ pvname x) (hFirst : ticksOf k s₁ before = [])
    (hTick : ¬ s₁.tooEarly now) (hLast : ticksOf k s₁ after = [])
    (hFew : searchCount pre + searchCount before + searchCount after < 2 ^ 32) :
    ∃ chanId, (chanId, pvname) ∈ packets.flatMap Packet.pvs ∧
      ∀ iocIp iocPort payload opening time,
        d₂.iocGuard opening time (iocIp, iocPort) ≠ none →
        ∃ d₃ g, d₂.step (.response k iocIp iocPort (chanId, payload) opening time) =
            some (d₃, .found (some (⟨pvname, iocIp, iocPort,
              (ChannelAccess.updateSearchReplyAddr payload iocIp iocPort).1⟩, some g))) ∧
          (∀ tr d₄, Run step d₃ tr d₄ → d₄.isConnected g = true → ∀ clock,
            d₄.caPvSearched clock pvname =
              some (d₄, (ChannelAccess.updateSearchReplyAddr payload iocIp iocPort).1)) ∧
          ∀ buffer o q clientId, o ∈ responseOffsets buffer →
            responseEntry buffer (versionBefore buffer o) o = (chanId, payload) →
            inetAton iocIp = some q →
            (Addressed payload iocIp q iocPort clientId ↔ Plain buffer o) := by
  have hSound := sound_run hBefore (sound_of_init hInit)
  obtain ⟨chanId, s₂, hMem, hGet₂, hTake⟩ :=
    takeFound_of_first_tick hInit hBefore hBegins hRun hSpares hFirst hTick hLast
  refine ⟨chanId, hMem, fun iocIp iocPort payload opening time hIoc => ?_⟩
  -- the response finds something, and by its id it is this PV
  obtain ⟨d₅, f, g, hAnswer⟩ := found_of_takeFound hGet₂ hTake payload hIoc
  obtain ⟨clock, o, hAsk⟩ := hBegins.asked
  have hAll := hBefore.append (Run.cons hAsk hRun)
  have hName : f.pvname = pvname := by
    refine found_of_request hInit hAll ?_ hAnswer ?_
    · simp only [searchCount, List.countP_append, List.countP_cons] at hFew ⊢
      simp only [if_true, Bool.false_eq_true, if_false]
      omega
    · simp only [sentBy, List.flatMap_append, List.flatMap_cons, requestsOf_sent, if_true,
        List.mem_append]
      exact Or.inr (Or.inr (Or.inr (Or.inl hMem)))
  obtain ⟨hIp, hPort, hResponse⟩ := found_of_response hAnswer
  obtain ⟨name, ip, port, response⟩ := f
  obtain rfl : name = pvname := hName
  obtain rfl : ip = iocIp := hIp
  obtain rfl : port = iocPort := hPort
  obtain rfl : response = _ := hResponse
  refine ⟨d₅, g, hAnswer, ?_, ?_⟩
  · intro tr d₆ hRun₆ hOpen clock
    exact answered_of_found (sound_run hRun (sound_step hSound hAsk)) hAnswer hRun₆ hOpen clock
  · intro buffer o q clientId ho hEntry hIp
    have hAddressed := ChannelAccess.addressed_responseEntry_iff ho hIp port clientId
    rwa [hEntry] at hAddressed

/-- The IOC that has the PV answers the first of these ticks. -/
def firstAnswer : Event :=
  .response 0 (inetNtop ⟨10, 0, 0, 7⟩) 5064 (0, ordinaryResponse 0) ⟨4, true, true⟩ 1050000000

/-- Clients then get the answer, with the IOC's address and on their own
channel. -/
theorem answer_firstTick :
    ∃ d₂ d₃, Run step askedOnce (threeTicks.take 1) d₂ ∧
      d₂.step firstAnswer =
        some (d₃, .found (some (⟨[chr 'A'], inetNtop ⟨10, 0, 0, 7⟩, 5064, foundReply⟩, some 0))) ∧
      (∀ clock, d₃.caPvSearched clock [chr 'A'] = some (d₃, foundReply)) ∧
      Addressed (ordinaryResponse 0) (inetNtop ⟨10, 0, 0, 7⟩) ⟨10, 0, 0, 7⟩ 5064 42 := by
  have hExec : (Runs.exec step askedOnce [.searcherOutgoing 0 1000000000]).map (fun r =>
      (r.1.map Prod.snd, (r.2.step firstAnswer).map fun r => (r.1.isConnected 0, r.2))) =
      some ([.sent 0 [Searcher.firstPacket]], some (true,
        .found (some (⟨[chr 'A'], inetNtop ⟨10, 0, 0, 7⟩, 5064, foundReply⟩, some 0)))) := by
    decide +kernel
  obtain ⟨d₂, hRun, hNext⟩ := Runs.exists_run_of_view
    (fun d : Dispatcher => (d.step firstAnswer).map fun r => (r.1.isConnected 0, r.2)) _ hExec
  have hTick : Run step askedOnce
      ([] ++ (.searcherOutgoing 0 1000000000, .sent 0 [Searcher.firstPacket]) :: []) d₂ := hRun
  obtain ⟨chanId, hSent, hAnswer⟩ := first_answer_found init_oneSearcher (Run.nil _)
    begins_askedOnce hTick (by simp) rfl (by decide +kernel) rfl (by decide)
  obtain rfl : chanId = 0 := by simpa [Searcher.firstPacket] using hSent
  have hIoc : d₂.iocGuard ⟨4, true, true⟩ 1050000000 (inetNtop ⟨10, 0, 0, 7⟩, 5064) ≠ none := by
    unfold iocGuard
    split <;> exact Option.some_ne_none _
  obtain ⟨d₃, g, hFound, hServed, hAddressed⟩ := hAnswer _ _ (ordinaryResponse 0) _ _ hIoc
  rw [firstAnswer, hFound] at hNext
  simp only [Option.map_some, Option.some.injEq, Prod.mk.injEq, Output.found.injEq,
    FoundPv.mk.injEq, true_and] at hNext
  obtain ⟨hOpen, hReply, rfl⟩ := hNext
  rw [hReply] at hFound hServed
  -- the entry is the datagram, of which the VERSION header is plain
  have hOnly : responseOffsets (ordinaryResponse 0) = [16] ∧
      versionBefore (ordinaryResponse 0) 16 = some 0 ∧
      responseEntry (ordinaryResponse 0) (some 0) 16 = (0, ordinaryResponse 0) ∧
      (Header.readAt (ordinaryResponse 0) 0).payloadLen = 0 := by
    decide +kernel
  refine ⟨d₂, d₃, hRun, hFound, fun clock => hServed [] d₃ (Run.nil d₃) hOpen clock, ?_⟩
  refine (hAddressed (ordinaryResponse 0) 16 _ 42 ?_ ?_ (inetAton_inetNtop _)).mpr ?_
  · rw [hOnly.1]
    exact List.mem_singleton_self 16
  · rw [hOnly.2.1]
    exact hOnly.2.2.1
  · intro v hVersion
    rw [hOnly.2.1, Option.some.injEq] at hVersion
    rw [← hVersion]
    exact hOnly.2.2.2

end Dispatcher

end PVmapper
