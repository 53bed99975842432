import PVmapper.Dispatcher.EventLoop
import PVmapper.Lib.Simulation
import PVmapper.Network.Datagrams

/-!
# PVmapper — the main loop is a run of the system

The event loop indexes and erases from a vector that its callbacks append to.
Seen from the sockets it is a run: of one step for each datagram that is read,
for each call of a guard or a searcher, and for each look at a connection to
drop it. What the calls of the loop sent, the steps of the run send, in the
same order. So what holds of every run holds in the main loop.

* `run_of_incoming`, `run_of_outgoing` — one call of the loop.
* `run_of_turn`                        — `ConnectionsManager::run`.
* `mainLoop_run`                       — the main loop.
-/

namespace PVmapper

namespace Network

open Runs (Run observed)
open Dispatcher (searcherAt putSearcher caPvFoundCb caPvSearchedCb)

variable {ρ : Type*} {regexMatch : ρ → Bytes → Bool} {listeners : List (Listener ρ)}
  {d d' : Dispatcher} {tr : List (Event × Output)}

-- ---------------------------------------------------------------------------
-- What is sent
-- ---------------------------------------------------------------------------

/-- Something done on a socket. -/
inductive Sent
  | reply (k : ℕ) (msg : Bytes)
  | request (k : ℕ) (packet : Packet)
  | guard (g : GuardId) (act : GuardAction)

/-- What a step sends. -/
def shown : Event × Output → List Sent
  | (.clientDatagram k _, .replies sent) => sent.map (.reply k)
  | (_, .called (.sent k packets)) => packets.map (.request k)
  | (_, .called (.guard g acts)) => acts.map (.guard g)
  | _ => []

/-- What a call of the event loop sent. -/
def sentIn : Served → List Sent
  | ⟨.listener k, _, .replies sent⟩ => sent.map (.reply k)
  | ⟨.searcher k, _, .requests packets⟩ => packets.map (.request k)
  | ⟨.guard g, _, .guard acts⟩ => acts.map (.guard g)
  | _ => []

/-- The datagram read in a step, if one is. -/
def datagramOf : Event → Option Datagram
  | .clientDatagram _ p => some p
  | .iocDatagram _ p => some p
  | .call _ => none

/-- The steps do what the call did, on datagrams the system had for this turn. -/
structure Does (turn : Turn) (x : Served) (tr : List (Event × Output)) : Prop where
  shown : observed shown tr = sentIn x
  taken : ∀ y ∈ tr, ∀ p, datagramOf y.1 = some p → ∃ i, p ∈ (turn.received i).datagrams

-- ---------------------------------------------------------------------------
-- Calls
-- ---------------------------------------------------------------------------

/-- The datagrams a listener reads are steps of the system. -/
theorem run_of_listener {k : ℕ} {l : Listener ρ} (hGet : listeners[k]? = some l)
    {datagrams : List Datagram} {before sent : List Bytes}
    (h : datagrams.foldlM (fun w p => (l.processIncoming regexMatch (caPvSearchedCb p.clock)
      p.remote p.port p.buffer w.1).map fun r => (r.1, w.2 ++ r.2)) (d, before) = some (d', sent)) :
    ∃ tr new, Run (step regexMatch listeners) d tr d' ∧
      tr.map Prod.fst = datagrams.map (.clientDatagram k) ∧ sent = before ++ new ∧
      observed shown tr = new.map (.reply k) := by
  induction datagrams generalizing d before with
  | nil =>
    rw [List.foldlM_nil, Option.pure_def, Option.some.injEq, Prod.mk.injEq] at h
    obtain ⟨rfl, rfl⟩ := h
    exact ⟨[], [], Run.nil d, rfl, (List.append_nil _).symm, rfl⟩
  | cons p datagrams ih =>
    rw [List.foldlM_cons, Option.bind_eq_bind, Option.bind_eq_some_iff] at h
    obtain ⟨w, hHere, hRest⟩ := h
    obtain ⟨⟨d₁, sent₁⟩, hIncoming, rfl⟩ := Option.map_eq_some_iff.mp hHere
    obtain ⟨tr, new, hRun, hEvents, hSent, hShown⟩ := ih hRest
    have hStep : step regexMatch listeners d (.clientDatagram k p) = some (d₁, .replies sent₁) := by
      simp only [step, hGet, hIncoming, Option.map_some]
    refine ⟨_, sent₁ ++ new, Run.cons hStep hRun, ?_, by rw [hSent, List.append_assoc], ?_⟩
    · rw [List.map_cons, List.map_cons, hEvents]
    · rw [Runs.observed_cons, hShown, List.map_append]
      rfl

/-- Which searcher stands in for a missing one does not matter: none is. -/
theorem processIncoming_missing {k : ℕ} (hk : k < d.caSearchers.length) (s s' : Searcher)
    (opening : FoundPv → Opening) (now : FoundPv → Int) (remote : InAddr) (buffer : Bytes) :
    Searcher.processIncoming (searcherAt s k) (putSearcher k) (caPvFoundCb opening now) remote
        buffer d =
      Searcher.processIncoming (searcherAt s' k) (putSearcher k) (caPvFoundCb opening now) remote
        buffer d := by
  unfold Searcher.processIncoming
  dsimp only
  generalize ChannelAccess.parseSearchResponse buffer = responses
  induction responses generalizing d with
  | nil => rfl
  | cons response responses ih =>
    have hAt : searcherAt s k d = searcherAt s' k d := by
      unfold searcherAt
      rw [List.getD_eq_getElem _ _ hk, List.getD_eq_getElem _ _ hk]
    rw [List.foldl_cons, List.foldl_cons]
    have hHere : Searcher.handleResponse (searcherAt s k) (putSearcher k) (caPvFoundCb opening now)
          (inetNtop remote) (ChannelAccess.parseIocAddr (inetNtop remote) buffer).2 d response =
        Searcher.handleResponse (searcherAt s' k) (putSearcher k) (caPvFoundCb opening now)
          (inetNtop remote) (ChannelAccess.parseIocAddr (inetNtop remote) buffer).2 d response := by
      unfold Searcher.handleResponse
      rw [hAt]
    obtain ⟨answer, time, o, hStep⟩ := Dispatcher.step_of_handleResponse opening now hk s'
      (inetNtop remote) (ChannelAccess.parseIocAddr (inetNtop remote) buffer).2 response
    rw [hHere]
    exact ih (by rw [Dispatcher.length_caSearchers_step hStep]; exact hk)

/-- The datagrams a searcher reads are steps of the system. -/
theorem run_of_searcher {k : ℕ} (hk : k < d.caSearchers.length) (missing : Searcher)
    (datagrams : List Datagram) :
    ∃ tr, Run (step regexMatch listeners) d tr
        (Dispatcher.searcherIncoming missing k datagrams d) ∧
      tr.map Prod.fst = datagrams.map (.iocDatagram k) ∧ observed shown tr = [] := by
  unfold Dispatcher.searcherIncoming
  induction datagrams generalizing d with
  | nil => exact ⟨[], Run.nil d, rfl, rfl⟩
  | cons p datagrams ih =>
    rw [List.foldl_cons]
    have hStep : step regexMatch listeners d (.iocDatagram k p) =
        some (Searcher.processIncoming (searcherAt missing k) (putSearcher k)
          (caPvFoundCb p.opening p.openedAt) p.remote p.buffer d, .received) := by
      simp only [step, List.getElem?_eq_getElem hk]
      rw [processIncoming_missing hk _ missing]
    obtain ⟨block, hBlock, -⟩ := run_of_ioc hk missing p
    have hk' := hBlock.invariant (I := fun d => k < d.caSearchers.length)
      (fun _ _ _ _ hk hStep => by rwa [Dispatcher.length_caSearchers_step hStep]) hk
    obtain ⟨tr, hRun, hEvents, hShown⟩ := ih hk'
    refine ⟨_, Run.cons hStep hRun, by rw [List.map_cons, List.map_cons, hEvents], ?_⟩
    rw [Runs.observed_cons, hShown]
    rfl

/-- A call without a datagram. -/
theorem does_call {turn : Turn} {x : Served} {e : Dispatcher.Event} {o : Dispatcher.Output}
    (h : shown (.call e, .called o) = sentIn x) : Does turn x [(.call e, .called o)] where
  shown := (Runs.observed_singleton ..).trans h
  taken y hy p hp := by
    rw [List.mem_singleton.mp hy] at hp
    exact absurd hp (by simp [datagramOf])

theorem run_of_call {e : Dispatcher.Event} {o : Dispatcher.Output} (hCall : isCall e = true)
    (hStep : d.step e = some (d', o)) :
    Run (step regexMatch listeners) d [(.call e, .called o)] d' := by
  refine Run.single ?_
  show (if isCall e = true then _ else none) = _
  rw [if_pos hCall, hStep]
  rfl

/-- The datagrams of a call are the ones the system had for it. -/
theorem taken_of_events {turn : Turn} {i : ℕ} (hEvents : ∀ y ∈ tr,
    ∃ p ∈ (turn.received i).datagrams, datagramOf y.1 = some p) :
    ∀ y ∈ tr, ∀ p, datagramOf y.1 = some p → ∃ i, p ∈ (turn.received i).datagrams := by
  intro y hy p hp
  obtain ⟨p', hMem, hEq⟩ := hEvents y hy
  rw [hp, Option.some.injEq] at hEq
  exact ⟨i, hEq ▸ hMem⟩

/-- **A call of the first loop is a run.** -/
theorem run_of_incoming (turn : Turn) :
    Loops.BodyRuns ConnectionsManager.connections
      (ConnectionsManager.incoming regexMatch listeners turn) (step regexMatch listeners)
      (Does turn) := by
  intro i c d d' served hc hCall
  obtain ⟨traffic, hIncoming, rfl⟩ := ConnectionsManager.incoming_eq_some hCall
  cases c with
  | listener k =>
    dsimp only [Dispatcher.processIncoming] at hIncoming
    split at hIncoming
    · exact absurd hIncoming (by simp)
    · next l hGet =>
      obtain ⟨⟨d₁, sent⟩, hFold, hEq⟩ := Option.map_eq_some_iff.mp hIncoming
      obtain ⟨rfl, rfl⟩ := Prod.mk.inj hEq
      obtain ⟨tr, new, hRun, hEvents, hSent, hShown⟩ := run_of_listener hGet hFold
      rw [List.nil_append] at hSent
      refine ⟨tr, hRun, by rw [hShown, hSent]; rfl, taken_of_events (i := i) fun y hy => ?_⟩
      have hMem := List.mem_map_of_mem (f := Prod.fst) hy
      rw [hEvents] at hMem
      obtain ⟨p, hp, hEq⟩ := List.mem_map.mp hMem
      exact ⟨p, hp, by rw [← hEq]; rfl⟩
  | searcher k =>
    dsimp only [Dispatcher.processIncoming] at hIncoming
    split at hIncoming
    · exact absurd hIncoming (by simp)
    · next s hGet =>
      obtain ⟨hk, -⟩ := List.getElem?_eq_some_iff.mp hGet
      obtain ⟨rfl, rfl⟩ := Prod.mk.inj (Option.some.inj hIncoming)
      obtain ⟨tr, hRun, hEvents, hShown⟩ := run_of_searcher hk s (turn.received i).datagrams
      refine ⟨tr, hRun, hShown, taken_of_events (i := i) fun y hy => ?_⟩
      have hMem := List.mem_map_of_mem (f := Prod.fst) hy
      rw [hEvents] at hMem
      obtain ⟨p, hp, hEq⟩ := List.mem_map.mp hMem
      exact ⟨p, hp, by rw [← hEq]; rfl⟩
  | guard g =>
    obtain ⟨⟨d₁, acts⟩, hGuard, hEq⟩ := Option.map_eq_some_iff.mp hIncoming
    obtain ⟨rfl, rfl⟩ := Prod.mk.inj hEq
    have hMem : Connection.guard g ∈ d.connections := hc
    refine ⟨_, run_of_call (e := .guardIncoming g (turn.received i).recvd (turn.received i).now) rfl
      (o := .guard g acts) ?_, does_call rfl⟩
    show (if Connection.guard g ∈ d.connections then _ else none) = _
    rw [if_pos hMem, hGuard]
    rfl

/-- **A call of the second loop is a run.** -/
theorem run_of_outgoing (turn : Turn) :
    Loops.BodyRuns ConnectionsManager.connections (ConnectionsManager.outgoing listeners turn)
      (step regexMatch listeners) (Does turn) := by
  intro t c d d' served hc hCall
  obtain ⟨traffic, hOutgoing, rfl⟩ := ConnectionsManager.outgoing_eq_some hCall
  cases c with
  | listener k =>
    obtain ⟨rfl, rfl⟩ := Prod.mk.inj (Option.some.inj hOutgoing)
    exact ⟨[], Run.nil d, rfl, fun y hy => absurd hy List.not_mem_nil⟩
  | searcher k =>
    dsimp only [Dispatcher.processOutgoing] at hOutgoing
    split at hOutgoing
    · exact absurd hOutgoing (by simp)
    · next s hGet =>
      obtain ⟨⟨s', packets⟩, hOut, hEq⟩ := Option.map_eq_some_iff.mp hOutgoing
      obtain ⟨rfl, rfl⟩ := Prod.mk.inj hEq
      refine ⟨_, run_of_call (e := .searcherOutgoing k (turn.clock t)) rfl
        (o := .sent k packets) ?_, does_call rfl⟩
      simp only [Dispatcher.step, hGet, hOut, Option.map_some]
  | guard g =>
    obtain ⟨⟨d₁, acts⟩, hGuard, hEq⟩ := Option.map_eq_some_iff.mp hOutgoing
    obtain ⟨rfl, rfl⟩ := Prod.mk.inj hEq
    have hMem : Connection.guard g ∈ d.connections := hc
    refine ⟨_, run_of_call (e := .guardOutgoing g (turn.answers t)) rfl
      (o := .guard g acts) ?_, does_call rfl⟩
    show (if Connection.guard g ∈ d.connections then _ else none) = _
    rw [if_pos hMem, hGuard]
    rfl

/-- A step that only looks: nothing is sent or read. -/
def Quiet (tr : List (Event × Output)) : Prop :=
  observed shown tr = [] ∧ ∀ y ∈ tr, datagramOf y.1 = none

/-- The look at a connection, to keep or to drop it, is a step. -/
theorem run_of_look (d : Dispatcher) (i : ℕ) (c : Connection)
    (hGet : (ConnectionsManager.connections.get d)[i]? = some c) :
    ∃ tr, Quiet tr ∧ Run (step regexMatch listeners) d tr
      (if d.isOpen c = true then d else ConnectionsManager.connections.put
        ((ConnectionsManager.connections.get d).eraseIdx i) d) := by
  have hHere : d.connections[i]? = some c := hGet
  refine ⟨[(.call (.drop i), .called .done)], ⟨rfl, ?_⟩, run_of_call rfl ?_⟩
  · intro y hy
    rw [List.mem_singleton.mp hy]
    rfl
  · show (d.connections[i]?).map _ = _
    rw [hHere, Option.map_some]
    rfl

-- ---------------------------------------------------------------------------
-- Turns
-- ---------------------------------------------------------------------------

/-- The steps do what the calls did, in their order. -/
structure Replays (turns : List Turn) (calls : List Served) (tr : List (Event × Output)) :
    Prop where
  shown : observed shown tr = calls.flatMap sentIn
  taken : ∀ y ∈ tr, ∀ p, datagramOf y.1 = some p →
    ∃ turn ∈ turns, ∃ i, p ∈ (turn.received i).datagrams

theorem Replays.append {turns turns' : List Turn} {calls calls' : List Served}
    {tr' : List (Event × Output)} (h : Replays turns calls tr) (h' : Replays turns' calls' tr') :
    Replays (turns ++ turns') (calls ++ calls') (tr ++ tr') where
  shown := by rw [Runs.observed_append, h.shown, h'.shown, List.flatMap_append]
  taken y hy p hp := by
    rcases List.mem_append.mp hy with hy | hy
    · obtain ⟨turn, hTurn, hMem⟩ := h.taken y hy p hp
      exact ⟨turn, List.mem_append_left _ hTurn, hMem⟩
    · obtain ⟨turn, hTurn, hMem⟩ := h'.taken y hy p hp
      exact ⟨turn, List.mem_append_right _ hTurn, hMem⟩

/-- Calls of one turn, one after the other. -/
theorem replays_of_does {turn : Turn} {calls : List Served}
    {blocks : List (List (Event × Output))} (h : List.Forall₂ (Does turn) calls blocks) :
    Replays [turn] calls blocks.flatten := by
  induction h with
  | nil => exact ⟨rfl, fun y hy => absurd hy List.not_mem_nil⟩
  | cons hDoes _ ih =>
    rw [List.flatten_cons]
    refine ⟨?_, fun y hy p hp => ?_⟩
    · rw [Runs.observed_append, hDoes.shown, ih.shown, List.flatMap_cons]
    · rcases List.mem_append.mp hy with hy | hy
      · exact ⟨turn, List.mem_singleton.mpr rfl, hDoes.taken y hy p hp⟩
      · exact ih.taken y hy p hp

/-- A call and the look at its connection do what the call does. -/
theorem does_of_followed {turn : Turn} {x : Served} {block : List (Event × Output)}
    (h : Loops.Followed (Does turn) Quiet x block) : Does turn x block := by
  obtain ⟨tr, tr', hDoes, hQuiet, rfl⟩ := h
  refine ⟨?_, fun y hy p hp => ?_⟩
  · rw [Runs.observed_append, hDoes.shown, hQuiet.1, List.append_nil]
  · rcases List.mem_append.mp hy with hy | hy
    · exact hDoes.taken y hy p hp
    · rw [hQuiet.2 y hy] at hp
      exact absurd hp (by simp)

/-- **A turn of the event loop is a run.** -/
theorem run_of_turn {turn : Turn} {delivered served : List Served}
    (h : ConnectionsManager.run regexMatch listeners turn d = .ok (d', delivered, served)) :
    ∃ tr, Run (step regexMatch listeners) d tr d' ∧ Replays [turn] (delivered ++ served) tr := by
  unfold ConnectionsManager.run at h
  split at h
  · exact absurd h (by simp)
  · next d₁ delivered₁ hPoll =>
    obtain ⟨⟨d₂, served₁⟩, hSweep, hEq⟩ := Loops.exists_of_map_eq_ok h
    simp only [Prod.mk.injEq] at hEq
    obtain ⟨rfl, rfl, rfl⟩ := hEq
    -- the first loop, unless nothing is readable
    have hFirst : ∃ tr, Run (step regexMatch listeners) d tr d₁ ∧ Replays [turn] delivered₁ tr := by
      unfold ConnectionsManager.pollIncoming at hPoll
      dsimp only at hPoll
      split at hPoll
      · obtain ⟨blocks, hDoes, hRun⟩ := Loops.visit_run _ (run_of_incoming turn) hPoll
        exact ⟨_, hRun, replays_of_does hDoes⟩
      · obtain ⟨rfl, rfl⟩ := Prod.mk.inj (Except.ok.inj hPoll)
        exact ⟨[], Run.nil d, replays_of_does List.Forall₂.nil⟩
    obtain ⟨tr, hRun, hReplays⟩ := hFirst
    obtain ⟨blocks, hDoes, hRun'⟩ := Loops.sweep_run (run_of_outgoing turn) run_of_look hSweep
    have hReplays' := replays_of_does (hDoes.imp fun _ _ => does_of_followed)
    refine ⟨tr ++ blocks.flatten, hRun.append hRun', ?_, fun y hy p hp => ?_⟩
    · exact (hReplays.append hReplays').shown
    · obtain ⟨turn', hTurn, hMem⟩ := (hReplays.append hReplays').taken y hy p hp
      obtain rfl : turn' = turn := by simpa using hTurn
      exact ⟨turn', List.mem_singleton.mpr rfl, hMem⟩

-- ---------------------------------------------------------------------------
-- The main loop
-- ---------------------------------------------------------------------------

/-- The calls that the event loop makes in the rounds of the main loop. -/
def calls (regexMatch : ρ → Bytes → Bool) (listeners : List (Listener ρ)) :
    Dispatcher → List Dispatcher.Round → List Served
  | _, [] => []
  | d, round :: rounds =>
    (match ConnectionsManager.run regexMatch listeners round.turn d with
    | .error _ => []
    | .ok (_, delivered, served) => delivered ++ served) ++
    match d.run regexMatch listeners round with
    | .error _ => []
    | .ok d' => calls regexMatch listeners d' rounds

/-- A round is a turn of the event loop and the maintenance. -/
theorem round_eq_ok {round : Dispatcher.Round} {d₂ : Dispatcher}
    (h : d.run regexMatch listeners round = .ok d₂) :
    ∃ d₁ delivered served o,
      ConnectionsManager.run regexMatch listeners round.turn d = .ok (d₁, delivered, served) ∧
        d₁.step (.maintain round.checkedAt round.clock round.purgedAt) = some (d₂, o) := by
  unfold Dispatcher.run at h
  split at h
  · exact absurd h (by simp)
  · next d₁ delivered served hTurn =>
    split at h
    · exact absurd h (by simp)
    · next o hStep =>
      obtain rfl := Except.ok.inj h
      exact ⟨d₁, delivered, served, o, hTurn, hStep⟩

/-- **The main loop is a run of the system.** However the system answers, its
rounds are a run from the same state to the same state, in which the same
messages are sent on the same sockets, in the same order, and the datagrams
read are ones that the system had for these rounds. -/
theorem mainLoop_run {rounds : List Dispatcher.Round}
    (h : Dispatcher.mainLoop regexMatch listeners d rounds = .ok d') :
    ∃ tr, Run (step regexMatch listeners) d tr d' ∧
      Replays (rounds.map Dispatcher.Round.turn) (calls regexMatch listeners d rounds) tr := by
  induction rounds generalizing d with
  | nil =>
    obtain rfl := Except.ok.inj h
    exact ⟨[], Run.nil d, rfl, fun y hy => absurd hy List.not_mem_nil⟩
  | cons round rounds ih =>
    unfold Dispatcher.mainLoop at h
    rw [List.foldlM_cons] at h
    cases hRound : d.run regexMatch listeners round with
    | error fault =>
      rw [hRound] at h
      exact absurd h (by simp [bind, Except.bind])
    | ok d₂ =>
      rw [hRound] at h
      obtain ⟨tr', hRest, hReplays'⟩ := ih h
      obtain ⟨d₁, delivered, served, o, hTurn, hStep⟩ := round_eq_ok hRound
      obtain ⟨tr, hRun, hReplays⟩ := run_of_turn hTurn
      -- the maintenance at the end of a round sends and reads nothing
      have hMaintain : Run (step regexMatch listeners) d₁ [(.call _, .called o)] d₂ :=
        run_of_call rfl hStep
      have hQuiet : Replays [] [] [(Event.call (.maintain round.checkedAt round.clock
          round.purgedAt), Output.called o)] := by
        obtain ⟨rfl, -⟩ := Dispatcher.step_maintain hStep
        refine ⟨rfl, fun y hy p hp => ?_⟩
        rw [List.mem_singleton.mp hy] at hp
        exact absurd hp (by simp [datagramOf])
      have hHere := hReplays.append hQuiet
      rw [List.append_nil, List.append_nil] at hHere
      have hCalls : calls regexMatch listeners d (round :: rounds) =
          (delivered ++ served) ++ calls regexMatch listeners d₂ rounds := by
        rw [calls, hTurn, hRound]
      rw [hCalls]
      exact ⟨_, (hRun.append hMaintain).append hRest, hHere.append hReplays'⟩

/-- Two rounds of a busy system: in the second one the new guard is closed. -/
def busyRounds : List Dispatcher.Round :=
  [⟨ConnectionsManager.busyTurn, 2000000000, fun _ _ => 2000000000, 2000000000⟩,
    ⟨ConnectionsManager.busyTurn, 2100000000, fun _ _ => 2100000000, 2100000000⟩]

theorem mainLoop_run_busy :
    ∃ d tr, Run (step (fun _ _ => true) [ConnectionsManager.openListener]) ConnectionsManager.busy
        tr d ∧
      Replays (busyRounds.map Dispatcher.Round.turn) (calls (fun _ _ => true)
        [ConnectionsManager.openListener] ConnectionsManager.busy busyRounds) tr := by
  have hEval : (Dispatcher.mainLoop (fun _ _ => true) [ConnectionsManager.openListener]
      ConnectionsManager.busy busyRounds).map (fun d => d.connections) =
        .ok [.listener 0, .searcher 0] := by decide +kernel
  obtain ⟨d, hLoop, -⟩ := Loops.exists_of_map_eq_ok hEval
  obtain ⟨tr, hRun, hReplays⟩ := mainLoop_run hLoop
  exact ⟨d, tr, hRun, hReplays⟩

end Network

end PVmapper
