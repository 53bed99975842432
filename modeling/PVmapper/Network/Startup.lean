import PVmapper.Dispatcher.EventLoop
import PVmapper.Model.Main
import PVmapper.Network.Provenance

/-!
# PVmapper — what a configuration starts

Whatever the configuration says and whichever sockets can be opened, the
constructor leaves a state that everything else here starts from. From there
the main loop goes on for ever, unless the last search interval is one of the
two of which ten times is 0 modulo 2^32: then a searcher has no bins. And if
one of the addresses to listen on cannot be opened, there are no searchers at
all: the loop goes on for ever and nobody ever gets a message.

* `construct_starts`    — what the constructor leaves.
* `main_serves_iff`     — when the main loop goes on for ever.
* `failed_listener_mute` — when it does so for nothing.
-/

namespace PVmapper

namespace Dispatcher

open Runs (Run)

variable {ρ σ : Type*} {d d' : Dispatcher} {config : Config.Options} {boot : Boot}

-- ---------------------------------------------------------------------------
-- The constructor
-- ---------------------------------------------------------------------------

/-- What every address that is added keeps true of the addresses added so far,
holds of a beginning of the list: of all of it, if the loop went through. -/
theorem addAll_spec {add : ℕ → Address → σ → Option σ} {P : List Address → σ → Prop}
    (hAdd : ∀ added addr w w', P added w → add added.length addr w = some w' →
      P (added ++ [addr]) w')
    (addrs added : List Address) (w : σ) (h : P added w) :
    ∃ more rest, addrs = more ++ rest ∧ P (added ++ more) (addAll add added.length addrs w).1 ∧
      ((addAll add added.length addrs w).2 = true → rest = []) := by
  induction addrs generalizing added w with
  | nil => exact ⟨[], [], rfl, by rwa [List.append_nil], fun _ => rfl⟩
  | cons addr addrs ih =>
    unfold addAll
    cases hNext : add added.length addr w with
    | none => exact ⟨[], addr :: addrs, rfl, by rwa [List.append_nil], by simp⟩
    | some w' =>
      obtain ⟨more, rest, rfl, hMore, hDone⟩ := ih (added ++ [addr]) w' (hAdd _ _ _ _ h hNext)
      rw [List.length_append, List.length_singleton] at hMore hDone
      refine ⟨addr :: more, rest, rfl, ?_, hDone⟩
      rwa [List.append_assoc, List.singleton_append] at hMore

/-- A listener on each of the addresses, and nothing else. -/
structure Listening (config : Config.Options) (boot : Boot) (addrs : List Address)
    (w : Dispatcher × List (Listener Bytes)) : Prop where
  addresses : w.2.map Listener.addr = addrs
  opened : ∀ x ∈ addrs.zipIdx, Listener.create (boot.listener x.2) x.1 config.accessControl ≠ none
  connections : w.1.connections = (List.range w.2.length).map .listener
  searchers : w.1.caSearchers = []
  guards : w.1.guards = []
  iocs : w.1.iocs = ∅
  pvs : w.1.connectedPVs = ∅

theorem listening_addListener {addrs : List Address} {addr : Address}
    {w w' : Dispatcher × List (Listener Bytes)} (h : Listening config boot addrs w)
    (hAdd : addListener config.accessControl boot.listener addrs.length addr w = some w') :
    Listening config boot (addrs ++ [addr]) w' := by
  obtain ⟨listener, hCreate, rfl⟩ := Option.map_eq_some_iff.mp hAdd
  have hAddr : listener.addr = addr := by
    unfold Listener.create at hCreate
    split at hCreate
    · exact absurd hCreate (by simp)
    · obtain rfl := Option.some.inj hCreate
      rfl
  refine ⟨by simp [h.addresses, hAddr], fun x hx => ?_, ?_, h.searchers, h.guards, h.iocs, h.pvs⟩
  · rw [List.zipIdx_append] at hx
    rcases List.mem_append.mp hx with hx | hx
    · exact h.opened x hx
    · simp only [List.zipIdx_cons, List.zipIdx_nil, List.mem_singleton, Nat.zero_add] at hx
      rw [hx, hCreate]
      simp
  · simp [h.connections, List.range_succ]

/-- The listeners, and a searcher on each of the addresses. -/
structure Searching (searchIntervals : List UInt32) (listeners : ℕ) (addrs : List Address)
    (d : Dispatcher) : Prop where
  addresses : d.caSearchers.map Searcher.addr = addrs
  init : Init searchIntervals d
  connections : d.connections = (List.range listeners).map .listener ++
    (List.range d.caSearchers.length).map .searcher

theorem searching_addSearcher {searchIntervals : List UInt32} {listeners : ℕ} {addrs : List Address}
    {addr : Address} (h : Searching searchIntervals listeners addrs d)
    (hAdd : addSearcher searchIntervals boot.searcher boot.searcherAt addrs.length addr d =
      some d') :
    Searching searchIntervals listeners (addrs ++ [addr]) d' := by
  obtain ⟨searcher, hCreate, rfl⟩ := Option.map_eq_some_iff.mp hAdd
  have hConnections : d.connections ++ [.searcher d.caSearchers.length] =
      (List.range listeners).map .listener ++
        (List.range (d.caSearchers ++ [searcher]).length).map .searcher := by
    simp [h.connections, List.range_succ]
  obtain ⟨hInit, -, hGuards, hIocs, hPvs⟩ := h.init
  refine ⟨?_, ⟨fun s hs => ?_, ⟨listeners, hConnections⟩, hGuards, hIocs, hPvs⟩, hConnections⟩
  · have hAddr : searcher.addr = addr := by
      rw [(Searcher.create_eq_some hCreate).2]
      rfl
    simp [h.addresses, hAddr]
  · rcases List.mem_append.mp hs with hs | hs
    · exact hInit s hs
    · exact ⟨_, _, _, List.mem_singleton.mp hs ▸ hCreate⟩

/-- What is there when the constructor returns. -/
structure Started (config : Config.Options) (boot : Boot) (d : Dispatcher)
    (listeners : List (Listener Bytes)) : Prop where
  init : Init config.searchIntervals d
  connections : d.connections = (List.range listeners.length).map .listener ++
    (List.range d.caSearchers.length).map .searcher
  listen : listeners.map Listener.addr <+: config.caListenAddresses
  search : d.caSearchers.map Searcher.addr <+: config.caSearchAddresses
  opened : d.caSearchers ≠ [] → ∀ x ∈ config.caListenAddresses.zipIdx,
    Listener.create (boot.listener x.2) x.1 config.accessControl ≠ none

/-- **The constructor** leaves listeners on the first addresses it was given,
and searchers on the first addresses it was given; searchers only if every
listener could be made. -/
theorem construct_starts (config : Config.Options) (boot : Boot) :
    Started config boot (construct config boot).1 (construct config boot).2 := by
  unfold construct
  dsimp only
  generalize hFirst : ({
    purgeDelay := config.purgeDelay.toNat
    lastPurge := boot.startedAt
    guards := []
    iocs := ∅
    caSearchers := []
    connectedPVs := ∅
    connections := [] } : Dispatcher) = d₀
  have hEmpty : Listening config boot [] (d₀, []) := by
    subst hFirst
    exact ⟨rfl, by simp, rfl, rfl, rfl, rfl, rfl⟩
  obtain ⟨more, rest, hAddrs, hListening, hDone⟩ := addAll_spec
    (fun added addr w w' => listening_addListener) config.caListenAddresses [] _ hEmpty
  rw [List.nil_append] at hListening
  rw [List.length_nil] at hListening hDone
  generalize addAll (addListener config.accessControl boot.listener) 0 config.caListenAddresses
    (d₀, []) = r at hListening hDone ⊢
  obtain ⟨⟨d, listeners⟩, done⟩ := r
  obtain ⟨hAddresses, hOpened, hConnections, hSearchers, hGuards, hIocs, hPvs⟩ := hListening
  dsimp only at hAddresses hConnections hSearchers hGuards hIocs hPvs
  have hConnections' : d.connections = (List.range listeners.length).map .listener ++
      (List.range d.caSearchers.length).map .searcher := by
    rw [hSearchers]
    simpa using hConnections
  have hInit : Init config.searchIntervals d :=
    ⟨by simp [hSearchers], ⟨listeners.length, hConnections'⟩, hGuards, hIocs, hPvs⟩
  have hListen : listeners.map Listener.addr <+: config.caListenAddresses :=
    ⟨rest, by rw [hAddresses, hAddrs]⟩
  cases done with
  | false =>
    exact ⟨hInit, hConnections', hListen, by simp [hSearchers], fun h => absurd hSearchers h⟩
  | true =>
    obtain rfl := hDone rfl
    have hStart : Searching config.searchIntervals listeners.length [] d :=
      ⟨by simp [hSearchers], hInit, hConnections'⟩
    obtain ⟨more', rest', hAddrs', hSearching, -⟩ := addAll_spec
      (fun added addr w w' => searching_addSearcher) config.caSearchAddresses [] d
      hStart
    rw [List.nil_append, List.length_nil] at hSearching
    refine ⟨hSearching.init, hSearching.connections, hListen, ⟨rest', ?_⟩, fun _ => ?_⟩
    · rw [hSearching.addresses, hAddrs']
    · rw [hAddrs, List.append_nil]
      exact hOpened

-- ---------------------------------------------------------------------------
-- The main loop
-- ---------------------------------------------------------------------------

variable {searchIntervals : List UInt32} {regexMatch : ρ → Bytes → Bool}
  {listeners : List (Listener ρ)}

theorem dvd_ten_mul_iff (n : ℕ) : 2 ^ 32 ∣ n * 10 ↔ 2 ^ 31 ∣ n := by
  have hSplit : n * 10 = n * 5 * 2 := by ring
  rw [hSplit, pow_succ 2 31, Nat.mul_dvd_mul_iff_right (by decide)]
  exact Nat.Coprime.dvd_mul_right (Nat.Coprime.pow_left 31 (by decide))

/-- There are bins, unless ten times the last interval is 0 modulo 2^32. -/
theorem bins_pos_iff (searchIntervals : List UInt32) :
    0 < (Searcher.maxInterval searchIntervals).toNat ↔
      ¬ (searchIntervals.getLast? = some 0 ∨ searchIntervals.getLast? = some 0x80000000) := by
  rcases eq_or_ne searchIntervals [] with rfl | hne
  · decide
  · rw [Searcher.maxInterval_of_ne hne, List.getLast?_eq_some_getLast hne, Option.some.injEq,
      Option.some.injEq]
    generalize searchIntervals.getLast hne = x
    have hLt : x.toNat < 2 * 2 ^ 31 := UInt32.toNat_lt x
    have hMul : (x * 10).toNat = x.toNat * 10 % 2 ^ 32 := UInt32.toNat_mul x 10
    rw [hMul, Nat.pos_iff_ne_zero, not_iff_not, ← Nat.dvd_iff_mod_eq_zero, dvd_ten_mul_iff]
    constructor
    · rintro ⟨c, hc⟩
      have hSmall : c < 2 := by
        rw [hc, mul_comm] at hLt
        exact Nat.lt_of_mul_lt_mul_right hLt
      obtain rfl | rfl : c = 0 ∨ c = 1 := by omega
      · exact Or.inl (UInt32.toNat_inj.mp hc)
      · exact Or.inr (UInt32.toNat_inj.mp hc)
    · rintro (rfl | rfl)
      · exact dvd_zero _
      · exact dvd_refl _

/-- The main loop goes on from a state where every searcher has bins. -/
theorem mainLoop_of_ready (hRegistered : Registered listeners d) (hReady : d.Ready)
    (hReach : Runs.Reachable (Init searchIntervals) step d) (rounds : List Round) :
    ∃ d', mainLoop regexMatch listeners d rounds = .ok d' ∧
      Runs.Reachable (Init searchIntervals) step d' := by
  unfold mainLoop
  induction rounds generalizing d with
  | nil => exact ⟨d, rfl, hReach⟩
  | cons round rounds ih =>
    obtain ⟨d₁, hRun, hRegistered₁, hReady₁, tr, hSteps⟩ :=
      run_answers regexMatch hRegistered hReady round
    obtain ⟨d', hRest, hEnd⟩ := ih hRegistered₁ hReady₁ (hReach.run hSteps)
    refine ⟨d', ?_, hEnd⟩
    rw [List.foldlM_cons, hRun]
    exact hRest

/-- A round in which nothing is received, at the given time. -/
def quietRound (now : Int) : Round where
  turn := {
    poll := fun _ => (0, fun _ => false)
    received := fun _ => ⟨[], 0, now⟩
    clock := fun _ => now
    answers := fun _ => ⟨0, now, now, 0, now⟩ }
  checkedAt := now
  clock := fun _ _ => now
  purgedAt := now

/-- A searcher without bins faults in the first tick. -/
theorem mainLoop_of_no_bins {s : Searcher} {searchers : List Searcher} {n : ℕ}
    (hSearchers : d.caSearchers = s :: searchers)
    (hConnections : d.connections = (List.range n).map .listener ++
      (List.range d.caSearchers.length).map .searcher) (hBins : s.searchedPvs = []) :
    mainLoop regexMatch listeners d [quietRound (s.lastSearch + 1000000000)] = .error .body := by
  have hRange : (List.range d.caSearchers.length).map Connection.searcher =
      .searcher 0 :: (List.range searchers.length).map fun k => .searcher (k + 1) := by
    rw [hSearchers, List.length_cons, List.range_succ_eq_map, List.map_cons, List.map_map]
    rfl
  have hOut : s.processOutgoing (s.lastSearch + 1000000000) = none := by
    unfold Searcher.processOutgoing Searcher.tick
    rw [if_neg (by simp [Searcher.tooEarly, milliseconds]), hBins]
    rfl
  rw [hRange] at hConnections
  have hSweep : Loops.sweep ConnectionsManager.connections
      (ConnectionsManager.outgoing listeners (quietRound (s.lastSearch + 1000000000)).turn)
      Dispatcher.isOpen 0 0 d = .error .body := by
    refine Loops.sweep_stuck hConnections ?_ ?_ ?_ 0
    · intro c hc t
      obtain ⟨k, -, rfl⟩ := List.mem_map.mp hc
      exact ⟨_, rfl⟩
    · intro c hc
      obtain ⟨k, -, rfl⟩ := List.mem_map.mp hc
      rfl
    · intro t
      unfold ConnectionsManager.outgoing
      simp only [processOutgoing, hSearchers, List.getElem?_cons_zero, quietRound, hOut,
        Option.map_none]
  have hRun : run regexMatch listeners d (quietRound (s.lastSearch + 1000000000)) =
      .error .body := by
    unfold run ConnectionsManager.run ConnectionsManager.pollIncoming
    simp only [quietRound] at hSweep ⊢
    simp [hSweep, Except.map]
  unfold mainLoop
  rw [List.foldlM_cons, hRun]
  rfl

-- ---------------------------------------------------------------------------
-- Without searchers
-- ---------------------------------------------------------------------------

/-- There is nothing to search with and nothing was ever found. -/
structure Idle (d : Dispatcher) : Prop where
  searchers : d.caSearchers = []
  guards : d.guards = []
  pvs : d.connectedPVs = ∅

/-- No client's search is answered, and nothing else is of any effect. -/
def Quiet (x : Event × Output) : Prop :=
  (∃ clock pvname, x = (.clientSearched clock pvname, .reply [])) ∨ x.2 = .done

theorem idle_step {e : Event} {o : Output} (h : Idle d) (hStep : d.step e = some (d', o)) :
    Idle d' ∧ Quiet (e, o) := by
  obtain ⟨hSearchers, hGuards, hPvs⟩ := h
  cases e with
  | clientSearched clock pvname =>
    simp only [step, caPvSearched, hPvs, AList.lookup_empty, addToSearchers, forSearchers,
      hSearchers, List.mapIdx_nil, List.mapM_nil, Option.pure_def, Option.map_some,
      Option.some.injEq, Prod.mk.injEq] at hStep
    obtain ⟨rfl, rfl⟩ := hStep
    exact ⟨⟨rfl, hGuards, rfl⟩, Or.inl ⟨clock, pvname, rfl⟩⟩
  | response k iocIp iocPort response opening now => simp [step, hSearchers] at hStep
  | searcherOutgoing k now => simp [step, hSearchers] at hStep
  | guardIncoming g recvd now => simp [step, callGuard, hGuards] at hStep
  | guardOutgoing g answers => simp [step, callGuard, hGuards] at hStep
  | drop i =>
    obtain ⟨-, -, rfl, ⟨-, rfl⟩ | ⟨-, rfl⟩⟩ := step_drop hStep
    · exact ⟨⟨hSearchers, hGuards, hPvs⟩, Or.inr rfl⟩
    · exact ⟨⟨hSearchers, hGuards, hPvs⟩, Or.inr rfl⟩
  | maintain checkedAt clock now =>
    obtain ⟨rfl, rfl | ⟨hD, hEach⟩⟩ := step_maintain hStep
    · exact ⟨⟨hSearchers, hGuards, hPvs⟩, Or.inr rfl⟩
    · rw [hSearchers, List.forall₂_nil_left_iff] at hEach
      rw [hD]
      exact ⟨⟨hEach, hGuards, hPvs⟩, Or.inr rfl⟩

theorem idle_of_started {listeners : List (Listener Bytes)} (h : Started config boot d listeners)
    {i : ℕ} {addr : Address} (hAddr : config.caListenAddresses[i]? = some addr)
    (hFailed : Listener.create (boot.listener i) addr config.accessControl = none) : Idle d := by
  obtain ⟨-, -, hGuards, -, hPvs⟩ := h.init
  refine ⟨?_, hGuards, hPvs⟩
  by_contra hSome
  exact h.opened hSome (addr, i) (List.mk_mem_zipIdx_iff_getElem?.mpr hAddr) hFailed

end Dispatcher

open Runs (Run)

variable {validRegex : Bytes → Bool} {regexMatch : Bytes → Bytes → Bool} {text : Bytes}
  {config : Config.Options} {boot : Dispatcher.Boot} {d d' : Dispatcher}
  {listeners : List (Listener Bytes)}

theorem Dispatcher.Started.registered (h : Dispatcher.Started config boot d listeners) :
    Dispatcher.Registered listeners d := by
  refine Dispatcher.registered_of_init h.init fun k hk => ?_
  rw [h.connections] at hk
  simpa using hk

/-- **When PVmapper goes on for ever.** Whatever configuration is read and
whichever sockets can be opened: every number of rounds of the main loop, with
whatever is received in them, ends in a state that the dispatcher reaches from
a successful construction, if and only if there is no searcher, or ten times
the last search interval is not 0 modulo 2^32. -/
theorem main_serves_iff {errors : List Bytes}
    (hParse : Config.parseFile validRegex {} text = some (config, errors)) :
    (∀ rounds, ∃ d, main validRegex regexMatch text boot rounds = some (.ok d) ∧
        Runs.Reachable (Dispatcher.Init config.searchIntervals) Dispatcher.step d) ↔
      (Dispatcher.construct config boot).1.caSearchers = [] ∨
        ¬ (config.searchIntervals.getLast? = some 0 ∨
          config.searchIntervals.getLast? = some 0x80000000) := by
  have hStarted := Dispatcher.construct_starts config boot
  have hMain : ∀ rounds, main validRegex regexMatch text boot rounds =
      some (Dispatcher.mainLoop regexMatch (Dispatcher.construct config boot).2
        (Dispatcher.construct config boot).1 rounds) := by
    intro rounds
    unfold main
    rw [hParse]
    rfl
  simp only [hMain, Option.some.injEq]
  generalize (Dispatcher.construct config boot).1 = d at hStarted ⊢
  generalize (Dispatcher.construct config boot).2 = listeners at hStarted ⊢
  rw [← Dispatcher.bins_pos_iff]
  constructor
  · intro hServes
    by_contra hNot
    rw [not_or, Nat.not_lt, Nat.le_zero] at hNot
    obtain ⟨hSome, hBins⟩ := hNot
    obtain ⟨s, searchers, hSearchers⟩ := List.exists_cons_of_ne_nil hSome
    obtain ⟨sock, addr, now, hCreate⟩ := hStarted.init.1 s (by simp [hSearchers])
    have hEmpty : s.searchedPvs = [] := by
      rw [(Searcher.create_eq_some hCreate).2, Searcher.fresh, hBins]
      rfl
    obtain ⟨d', hLoop, -⟩ := hServes [Dispatcher.quietRound (s.lastSearch + 1000000000)]
    rw [Dispatcher.mainLoop_of_no_bins hSearchers hStarted.connections hEmpty] at hLoop
    exact absurd hLoop (by simp)
  · intro hBins rounds
    have hReady : d.Ready := by
      rcases hBins with hNone | hBins
      · exact fun s hs => absurd hs (by simp [hNone])
      · exact Dispatcher.ready_of_init hStarted.init hBins
    exact Dispatcher.mainLoop_of_ready hStarted.registered hReady
      (Runs.Reachable.of_init hStarted.init)
      rounds

/-- A configuration whose last search interval is 0. -/
def zeroInterval : Bytes :=
  Config.bytes "SEARCH_INTERVALS = 1,0\nCA_SEARCH_ADDRESS = 10.0.0.255:5064\n"

/-- Every socket can be opened. -/
def allOpen : Dispatcher.Boot where
  startedAt := 0
  listener := fun i => ⟨3 + i, true, true, true⟩
  searcher := fun i => ⟨10 + i, true, true, true⟩
  searcherAt := fun _ => 0

theorem main_serves_zeroInterval :
    ¬ ∀ rounds, ∃ d, main (fun _ => true) (fun _ _ => true) zeroInterval allOpen rounds =
      some (.ok d) ∧ Runs.Reachable (Dispatcher.Init [1, 0]) Dispatcher.step d := by
  have hRead : (Config.parseFile (fun _ => true) {} zeroInterval).map
      (fun r => (r.1.searchIntervals, r.1.caListenAddresses, r.1.caSearchAddresses)) =
      some ([1, 0], [Config.defaultListenAddress], [(Config.bytes "10.0.0.255", 5064)]) := by
    decide +kernel
  obtain ⟨⟨config, errors⟩, hParse, hEq⟩ := Option.map_eq_some_iff.mp hRead
  simp only [Prod.mk.injEq] at hEq
  obtain ⟨hIntervals, hListen, hSearch⟩ := hEq
  have hListener : inetAton Config.defaultListenAddress.1 ≠ none := by decide +kernel
  have hSearcher : inetAton (Config.bytes "10.0.0.255") ≠ none := by decide +kernel
  have hSome : (Dispatcher.construct config allOpen).1.caSearchers ≠ [] := by
    simp [Dispatcher.construct, Dispatcher.addAll, Dispatcher.addListener, Dispatcher.addSearcher,
      Listener.create, Searcher.create, hListen, hSearch, hListener, hSearcher, allOpen]
  rw [← hIntervals, main_serves_iff hParse, hIntervals, not_or]
  exact ⟨hSome, by simp⟩

/-- Without searchers, clients get no replies and nothing is sent. -/
theorem idle_networkStep {ρ : Type*} {regexMatch : ρ → Bytes → Bool} {listeners : List (Listener ρ)}
    {e : Network.Event} {o : Network.Output} (h : Dispatcher.Idle d)
    (hStep : Network.step regexMatch listeners d e = some (d', o)) :
    Dispatcher.Idle d' ∧ (o = .replies [] ∨ o = .called .done) := by
  rcases Network.step_cases hStep with ⟨k, p, l, sent, rfl, rfl, -, hIncoming⟩ |
    ⟨k, p, s, -, -, hGet, -⟩ | ⟨e', o', rfl, rfl, hCall, hStep'⟩
  · obtain ⟨block, hRun, -, answered, -, hAnswers⟩ := Network.run_of_client l p hIncoming
    obtain ⟨hIdle, hQuiet⟩ := hRun.outputs (fun _ _ _ _ => Dispatcher.idle_step) h
    refine ⟨hIdle, Or.inl ?_⟩
    -- a reply would be one that the dispatcher gave
    cases hAnswers with
    | nil => rfl
    | cons hReplies _ =>
      obtain ⟨pre, response, post, rfl, hResponse, -⟩ := hReplies
      rcases hQuiet _ (List.mem_append_right pre List.mem_cons_self) with ⟨_, _, hEq⟩ | hEq
      · exact absurd (Dispatcher.Output.reply.inj (Prod.mk.inj hEq).2) hResponse
      · exact absurd hEq (by simp)
  · rw [h.searchers] at hGet
    exact absurd hGet (by simp)
  · obtain ⟨hIdle, hQuiet⟩ := Dispatcher.idle_step h hStep'
    refine ⟨hIdle, Or.inr ?_⟩
    rcases hQuiet with ⟨clock, pvname, hEq⟩ | hEq
    · obtain ⟨rfl, -⟩ := Prod.mk.inj hEq
      exact absurd hCall Bool.false_ne_true
    · exact congrArg Network.Output.called hEq

/-- **A listener that fails leaves PVmapper mute.** If one of the addresses to
listen on cannot be opened, the main loop still goes on for ever, and in every
run, whatever arrives, nothing is ever sent to anybody. -/
theorem failed_listener_mute {i : ℕ} {addr : Address}
    (hAddr : config.caListenAddresses[i]? = some addr)
    (hFailed : Listener.create (boot.listener i) addr config.accessControl = none) :
    (∀ rounds, ∃ d, Dispatcher.mainLoop regexMatch (Dispatcher.construct config boot).2
        (Dispatcher.construct config boot).1 rounds = .ok d) ∧
      ∀ tr d, Run (Network.step regexMatch (Dispatcher.construct config boot).2)
        (Dispatcher.construct config boot).1 tr d →
        ∀ x ∈ tr, x.2 = .replies [] ∨ x.2 = .called .done := by
  have hStarted := Dispatcher.construct_starts config boot
  generalize (Dispatcher.construct config boot).1 = d at hStarted ⊢
  generalize (Dispatcher.construct config boot).2 = listeners at hStarted ⊢
  have hIdle := Dispatcher.idle_of_started hStarted hAddr hFailed
  constructor
  · intro rounds
    have hReady : d.Ready := fun s hs => absurd hs (by simp [hIdle.searchers])
    have hReach : Runs.Reachable (Dispatcher.Init config.searchIntervals) Dispatcher.step d :=
      Runs.Reachable.of_init hStarted.init
    exact (Dispatcher.mainLoop_of_ready hStarted.registered hReady hReach rounds).imp fun _ h => h.1
  · intro tr d' hRun
    exact (hRun.outputs (fun _ _ _ _ => idle_networkStep) hIdle).2

/-- Two addresses to listen on, and one to search on. -/
def twoAddresses : Config.Options where
  caListenAddresses := [Config.defaultListenAddress, (Config.bytes "0.0.0.0", 5064)]
  caSearchAddresses := [(Config.bytes "10.0.0.255", 5064)]

/-- The second address is in use. -/
def secondInUse : Dispatcher.Boot :=
  { allOpen with listener := fun i => ⟨3 + i, true, true, i == 0⟩ }

/-- A client asks at the first address. -/
theorem failed_listener_asked :
    ∃ tr d, Run (Network.step (fun _ _ => true) (Dispatcher.construct twoAddresses secondInUse).2)
        (Dispatcher.construct twoAddresses secondInUse).1 tr d ∧
      tr.map Prod.fst = [.clientDatagram 0 (Network.ask 42 1000000000)] ∧
      ∀ x ∈ tr, x.2 = .replies [] ∨ x.2 = .called .done := by
  have hExec : (Runs.exec (Network.step (fun _ _ => true)
      (Dispatcher.construct twoAddresses secondInUse).2)
      (Dispatcher.construct twoAddresses secondInUse).1
      [.clientDatagram 0 (Network.ask 42 1000000000)]).map (fun r => r.1.map Prod.snd) =
      some [.replies []] := by
    decide +kernel
  obtain ⟨d, hRun⟩ := Runs.exists_run_of_outputs _ hExec
  have hFailed : Listener.create (secondInUse.listener 1) (Config.bytes "0.0.0.0", 5064)
      twoAddresses.accessControl = none := by
    decide +kernel
  exact ⟨_, d, hRun, rfl, (failed_listener_mute (i := 1) rfl hFailed).2 _ d hRun⟩

end PVmapper
