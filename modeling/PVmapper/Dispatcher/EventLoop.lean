import PVmapper.Dispatcher.Connections

/-!
# PVmapper — the event loop serves every connection

`ConnectionsManager::run` indexes `m_connections` by the positions in the poll
array, while callbacks append to it, and erases from it while it iterates. The
rules for these two loops ask for what the connections do and do not do.

* `appends_incoming`, `leaves_outgoing` — they do what the rules ask for.
* `run_serves`                          — what is delivered, called and kept.
* `mainLoop_answers`                    — the main loop, from the start on.
-/

namespace PVmapper

namespace ConnectionsManager

open Dispatcher (Registered)
open Runs (Run)

section Loops

variable {ρ : Type*} (regexMatch : ρ → Bytes → Bool) {listeners : List (Listener ρ)} (turn : Turn)
  {d d' d₀ : Dispatcher}

-- ---------------------------------------------------------------------------
-- The two loops
-- ---------------------------------------------------------------------------

/-- The guards made since `d₀`, in the order they were registered. -/
def made (d₀ d : Dispatcher) : List Connection :=
  (List.range' d₀.guards.length (d.guards.length - d₀.guards.length)).map .guard

/-- What the first loop keeps true. -/
structure Polling (listeners : List (Listener ρ)) (d₀ d : Dispatcher) : Prop where
  registered : Registered listeners d
  guards : d₀.guards.length ≤ d.guards.length
  connections : d.connections = d₀.connections ++ made d₀ d
  run : ∃ tr, Run Dispatcher.step d₀ tr d

theorem polling_refl (h : Registered listeners d) : Polling listeners d d :=
  ⟨h, le_rfl, by simp [made], [], Run.nil d⟩

theorem Polling.opens (h : Polling listeners d₀ d) (hOpens : Dispatcher.Opens d d')
    (hMoves : ∃ tr, Run Dispatcher.step d tr d') : Polling listeners d₀ d' := by
  obtain ⟨new, hGuards, hConnections⟩ := hOpens.guards
  obtain ⟨tr, hRun⟩ := h.run
  obtain ⟨tr', hRun'⟩ := hMoves
  have hLe := h.guards
  have hLen : d'.guards.length = d.guards.length + new.length := by
    rw [hGuards, List.length_append]
  refine ⟨h.registered.opens hOpens, by omega, ?_, tr ++ tr', hRun.append hRun'⟩
  -- the numbers go on where they ended
  have hStart : d₀.guards.length + (d.guards.length - d₀.guards.length) = d.guards.length := by omega
  have hCount : d'.guards.length - d₀.guards.length =
      (d.guards.length - d₀.guards.length) + new.length := by omega
  rw [hConnections, h.connections, List.append_assoc, made, made, hCount, ← List.range'_append_1,
    hStart, List.map_append]

theorem Polling.own (h : Polling listeners d₀ d) {c : Connection} (hOwn : Dispatcher.Own c d d')
    (hMoves : ∃ tr, Run Dispatcher.step d tr d') : Polling listeners d₀ d' := by
  obtain ⟨tr, hRun⟩ := h.run
  obtain ⟨tr', hRun'⟩ := hMoves
  refine ⟨h.registered.own hOwn, hOwn.length ▸ h.guards, ?_, tr ++ tr', hRun.append hRun'⟩
  rw [hOwn.connections, h.connections, made, made, hOwn.length]

/-- A call of the first loop: `processIncoming` of the connection, recorded with
its socket and with what it sent. -/
def Delivers (regexMatch : ρ → Bytes → Bool) (listeners : List (Listener ρ)) (turn : Turn) (i : ℕ)
    (c : Connection) (d : Dispatcher) (served : Served) (d' : Dispatcher) : Prop :=
  ∃ traffic, d.processIncoming regexMatch listeners (turn.received i) c = some (d', traffic) ∧
    served = ⟨c, d.getSocket listeners c, traffic⟩

/-- A call of the second loop: `processOutgoing` of the connection, recorded in
the same way. If that leaves it closed, it is taken off the list. -/
def Triggers (listeners : List (Listener ρ)) (turn : Turn) (t : ℕ) (c : Connection)
    (d : Dispatcher) (served : Served) (d' : Dispatcher) : Prop :=
  ∃ d₁ traffic, d.processOutgoing (turn.clock t) (turn.answers t) c = some (d₁, traffic) ∧
    served = ⟨c, d.getSocket listeners c, traffic⟩ ∧
    d' = if d₁.isOpen c then d₁ else { d₁ with connections := d₁.connections.erase c }

theorem incoming_eq_some {regexMatch : ρ → Bytes → Bool} {turn : Turn} {i : ℕ} {c : Connection}
    {served : Served}
    (h : incoming regexMatch listeners turn i c d = some (d', served)) :
    Delivers regexMatch listeners turn i c d served d' := by
  obtain ⟨⟨d₁, traffic⟩, hCall, hEq⟩ := Option.map_eq_some_iff.mp h
  obtain ⟨rfl, rfl⟩ := Prod.mk.inj hEq
  exact ⟨traffic, hCall, rfl⟩

theorem outgoing_eq_some {turn : Turn} {t : ℕ} {c : Connection} {served : Served}
    (h : outgoing listeners turn t c d = some (d', served)) :
    ∃ traffic, d.processOutgoing (turn.clock t) (turn.answers t) c = some (d', traffic) ∧
      served = ⟨c, d.getSocket listeners c, traffic⟩ := by
  obtain ⟨⟨d₁, traffic⟩, hCall, hEq⟩ := Option.map_eq_some_iff.mp h
  obtain ⟨rfl, rfl⟩ := Prod.mk.inj hEq
  exact ⟨traffic, hCall, rfl⟩

theorem triggers_of_sweeps {turn : Turn} {t : ℕ} {c : Connection} {served : Served}
    (h : Loops.Sweeps connections (outgoing listeners turn) Dispatcher.isOpen t c d served d') :
    Triggers listeners turn t c d served d' := by
  obtain ⟨d₁, hCall, hEq⟩ := h
  obtain ⟨traffic, hOutgoing, hServed⟩ := outgoing_eq_some hCall
  exact ⟨d₁, traffic, hOutgoing, hServed, hEq⟩

/-- The first loop may append to the list it indexes: incoming calls only
append, and no call changes another connection's socket. -/
theorem appends_incoming (d₀ : Dispatcher) {P : Dispatcher → Prop}
    (hP : ∀ d received c d' traffic, P d →
      d.processIncoming regexMatch listeners received c = some (d', traffic) → P d') :
    Loops.Appends connections (incoming regexMatch listeners turn)
      (fun d => Polling listeners d₀ d ∧ P d) (fun d c => (c, d.getSocket listeners c))
      (fun served => (served.connection, served.sock)) where
  nodup _ h := h.1.registered.nodup
  invariant i c d d' served h hc hCall := by
    obtain ⟨traffic, hIncoming, -⟩ := incoming_eq_some hCall
    obtain ⟨hRun, hOpens | hOwn⟩ := Dispatcher.processIncoming_cases hc hIncoming
    · exact ⟨h.1.opens hOpens hRun, hP _ _ _ _ _ h.2 hIncoming⟩
    · exact ⟨h.1.own hOwn hRun, hP _ _ _ _ _ h.2 hIncoming⟩
  append i c d d' served h hc hCall := by
    obtain ⟨traffic, hIncoming, -⟩ := incoming_eq_some hCall
    obtain ⟨-, hOpens | hOwn⟩ := Dispatcher.processIncoming_cases hc hIncoming
    · obtain ⟨new, -, hConnections⟩ := hOpens.guards
      exact ⟨_, hConnections.symm⟩
    · exact ⟨[], by rw [List.append_nil]; exact hOwn.connections.symm⟩
  returned i c d d' served _ _ hCall := by
    obtain ⟨traffic, -, rfl⟩ := incoming_eq_some hCall
    rfl
  frame i c d d' served h hc hCall c' hc' hne := by
    obtain ⟨traffic, hIncoming, -⟩ := incoming_eq_some hCall
    rw [Prod.mk.injEq]
    refine ⟨rfl, ?_⟩
    obtain ⟨-, hOpens | hOwn⟩ := Dispatcher.processIncoming_cases hc hIncoming
    · exact hOpens.getSocket (h.1.registered.exist c' hc')
    · exact hOwn.getSocket hne

/-- What the second loop keeps true. -/
structure Sweeping (listeners : List (Listener ρ)) (d₀ d : Dispatcher) : Prop where
  registered : Registered listeners d
  guards : d.guards.length = d₀.guards.length
  run : ∃ tr, Run Dispatcher.step d₀ tr d

theorem Sweeping.own (h : Sweeping listeners d₀ d) {c : Connection} (hOwn : Dispatcher.Own c d d')
    (hMoves : ∃ tr, Run Dispatcher.step d tr d') : Sweeping listeners d₀ d' := by
  obtain ⟨tr, hRun⟩ := h.run
  obtain ⟨tr', hRun'⟩ := hMoves
  exact ⟨h.registered.own hOwn, hOwn.length.trans h.guards, tr ++ tr', hRun.append hRun'⟩

/-- The second loop may erase from the list it iterates over: outgoing calls
leave the list alone, and no call closes another connection. -/
theorem leaves_outgoing (d₀ : Dispatcher) {P : Dispatcher → Prop}
    (hP : ∀ d now answers c d' traffic, P d →
      d.processOutgoing now answers c = some (d', traffic) → P d')
    (hErase : ∀ d l, P d → P (connections.put l d)) :
    Loops.Leaves connections (outgoing listeners turn) Dispatcher.isOpen
      (fun d => Sweeping listeners d₀ d ∧ P d) Served.connection where
  nodup _ h := h.1.registered.nodup
  invariant t c d d' served h hc hCall := by
    obtain ⟨traffic, hOutgoing, -⟩ := outgoing_eq_some hCall
    obtain ⟨hRun, hOwn⟩ := Dispatcher.processOutgoing_cases hc hOutgoing
    exact ⟨h.1.own hOwn hRun, hP _ _ _ _ _ _ h.2 hOutgoing⟩
  same t c d d' served h hc hCall := by
    obtain ⟨traffic, hOutgoing, -⟩ := outgoing_eq_some hCall
    exact (Dispatcher.processOutgoing_cases hc hOutgoing).2.connections
  returned t c d d' served _ _ hCall := by
    obtain ⟨traffic, -, rfl⟩ := outgoing_eq_some hCall
    rfl
  frame t c d d' served h hc hCall c' hne := by
    obtain ⟨traffic, hOutgoing, -⟩ := outgoing_eq_some hCall
    exact (Dispatcher.processOutgoing_cases hc hOutgoing).2.isOpen hne
  erase d i h hClosed := by
    obtain ⟨c, hGet, hClosed⟩ := hClosed
    obtain ⟨tr, hRun⟩ := h.1.run
    refine ⟨⟨⟨?_, fun c' hc' => ?_⟩, h.1.guards, tr ++ [(.drop i, .done)], ?_⟩, hErase d _ h.2⟩
    · exact h.1.registered.nodup.sublist (List.eraseIdx_sublist _ _)
    · exact h.1.registered.exist c' (List.mem_of_mem_eraseIdx hc')
    · refine hRun.append (Run.single ?_)
      have hHere : d.connections[i]? = some c := hGet
      unfold Dispatcher.step
      dsimp only
      rw [hHere, Option.map_some, if_neg (by simp [hClosed])]
      rfl
  keep_put l d c := by cases c <;> rfl

-- ---------------------------------------------------------------------------
-- One turn
-- ---------------------------------------------------------------------------

/-- The connections that are polled readable, each with its position. -/
def readable (listeners : List (Listener ρ)) (turn : Turn) (d : Dispatcher) :
    List (Connection × ℕ) :=
  if (turn.poll (fds listeners d)).1 > 0 then
    Loops.visited (turn.poll (fds listeners d)).2 0 d.connections.length d.connections.zipIdx
  else []

/-- What one turn of the event loop does: each readable connection is called
once, on the socket that was polled for it; every connection there is by then
is called once in the second loop; and those that are still open are kept.
`calls` says what the calls are: `processIncoming` and `processOutgoing` of
these connections, each in the state that the one before it left. -/
structure Serves (regexMatch : ρ → Bytes → Bool) (listeners : List (Listener ρ)) (turn : Turn)
    (d d' : Dispatcher) (delivered served : List Served) : Prop where
  calls : ∃ d₁,
    Loops.Calls (Delivers regexMatch listeners turn) (readable listeners turn d) d delivered d₁ ∧
      Loops.Calls (Triggers listeners turn) (d.connections ++ made d d').zipIdx d₁ served d'
  delivered : delivered.map (fun x => (x.connection, x.sock)) =
    if (turn.poll (fds listeners d)).1 > 0 then
      Loops.visited (turn.poll (fds listeners d)).2 0 d.connections.length
        (d.connections.zip (fds listeners d))
    else []
  called : served.map Served.connection = d.connections ++ made d d'
  kept : d'.connections = (d.connections ++ made d d').filter d'.isOpen
  registered : Registered listeners d'
  run : ∃ tr, Run Dispatcher.step d tr d'

/-- The first loop. -/
theorem pollIncoming_cases {P : Dispatcher → Prop}
    (hP : ∀ d received c d' traffic, P d →
      d.processIncoming regexMatch listeners received c = some (d', traffic) → P d')
    (h : Registered listeners d) (hPd : P d) :
    (∃ d' delivered, pollIncoming regexMatch listeners turn d = .ok (d', delivered) ∧
        Polling listeners d d' ∧ P d' ∧
        delivered.map (fun x => (x.connection, x.sock)) =
          (if (turn.poll (fds listeners d)).1 > 0 then
            Loops.visited (turn.poll (fds listeners d)).2 0 d.connections.length
              (d.connections.zip (fds listeners d))
          else []) ∧
        Loops.Calls (Delivers regexMatch listeners turn) (readable listeners turn d) d delivered d') ∨
      pollIncoming regexMatch listeners turn d = .error .body ∧
        ∃ i c d', (Registered listeners d' ∧ P d') ∧ c ∈ d'.connections ∧
          incoming regexMatch listeners turn i c d' = none := by
  unfold pollIncoming readable
  dsimp only
  split
  · next hPolled =>
    have hZip : d.connections.map (fun c => (c, d.getSocket listeners c)) =
        d.connections.zip (fds listeners d) := List.map_prod_left_eq_zip
    rw [← hZip]
    have hAppends := appends_incoming regexMatch turn d hP
    have hStart : Polling listeners d d ∧ P d := ⟨polling_refl h, hPd⟩
    rcases Loops.visit_spec (turn.poll (fds listeners d)).2 hAppends hStart (Nat.zero_add _).le with
      ⟨d', log, hVisit, ⟨hPolling, hPd'⟩, -, hLog⟩ | ⟨hVisit, i, c, d', ⟨hPolling, hPd'⟩, hc, hNone⟩
    · have hCalls := Loops.visit_calls _ hAppends hStart (Nat.zero_add _).le hVisit
      exact Or.inl ⟨d', log, hVisit, hPolling, hPd', hLog,
        hCalls.mono fun _ _ _ _ _ hCall => incoming_eq_some hCall⟩
    · exact Or.inr ⟨hVisit, i, c, d', ⟨hPolling.registered, hPd'⟩, hc, hNone⟩
  · exact Or.inl ⟨d, [], rfl, polling_refl h, hPd, rfl, .nil d⟩

/-- A turn serves the connections, or one of them has no answer. -/
theorem run_cases {P : Dispatcher → Prop}
    (hIn : ∀ d received c d' traffic, P d →
      d.processIncoming regexMatch listeners received c = some (d', traffic) → P d')
    (hOut : ∀ d now answers c d' traffic, P d →
      d.processOutgoing now answers c = some (d', traffic) → P d')
    (hErase : ∀ d l, P d → P (connections.put l d)) (h : Registered listeners d) (hPd : P d) :
    (∃ d' delivered served, run regexMatch listeners turn d = .ok (d', delivered, served) ∧
        Serves regexMatch listeners turn d d' delivered served ∧ P d') ∨
      run regexMatch listeners turn d = .error .body ∧
        ∃ t c d', (Registered listeners d' ∧ P d') ∧ c ∈ d'.connections ∧
          (incoming regexMatch listeners turn t c d' = none ∨ outgoing listeners turn t c d' = none) := by
  unfold run
  rcases pollIncoming_cases regexMatch turn hIn h hPd with
    ⟨d₁, delivered, hPoll, hPolling, hPd₁, hDelivered, hCalls⟩ | ⟨hPoll, i, c, d', hd', hc, hNone⟩
  · rw [hPoll]
    dsimp only
    have hSweeping₁ : Sweeping listeners d₁ d₁ := ⟨hPolling.registered, rfl, [], Run.nil d₁⟩
    have hLeaves : Loops.Leaves connections (outgoing listeners turn) Dispatcher.isOpen
        (fun d => Sweeping listeners d₁ d ∧ P d) Served.connection :=
      leaves_outgoing turn d₁ hOut hErase
    rcases Loops.sweep_spec hLeaves ⟨hSweeping₁, hPd₁⟩ with
      ⟨d', log, hSweep, ⟨hSweeping, hPd'⟩, hLog, hEnd⟩ |
        ⟨hSweep, t, c, d', ⟨hSweeping, hPd'⟩, hc, hNone⟩
    · refine Or.inl ⟨d', delivered, log, ?_, ?_, hPd'⟩
      · rw [hSweep]
        rfl
      · obtain ⟨tr, hRun⟩ := hPolling.run
        obtain ⟨tr', hRun'⟩ := hSweeping.run
        -- the second loop makes no guards
        have hMade : d.connections ++ made d d' = d₁.connections := by
          rw [hPolling.connections, made, made, hSweeping.guards]
        refine ⟨⟨d₁, hCalls, ?_⟩, hDelivered, ?_, ?_, hSweeping.registered, tr ++ tr',
          hRun.append hRun'⟩
        · rw [hMade]
          have hAll : connections.get d₁ = [] ++ d₁.connections := rfl
          have hCalls' := Loops.sweep_calls hLeaves ⟨hSweeping₁, hPd₁⟩ hAll hSweep
          exact hCalls'.mono fun _ _ _ _ _ hCall => triggers_of_sweeps hCall
        · rw [hMade]
          exact hLog
        · rw [hMade]
          exact hEnd
    · refine Or.inr ⟨?_, t, c, d', ⟨hSweeping.registered, hPd'⟩, hc, Or.inr hNone⟩
      rw [hSweep]
      rfl
  · rw [hPoll]
    exact Or.inr ⟨rfl, i, c, d', hd', hc, Or.inl hNone⟩

/-- With ready searchers every call answers. -/
theorem exists_run (h : Registered listeners d) (hReady : d.Ready) :
    ∃ d' delivered served, run regexMatch listeners turn d = .ok (d', delivered, served) ∧
      Serves regexMatch listeners turn d d' delivered served ∧ d'.Ready := by
  rcases run_cases regexMatch turn (P := Dispatcher.Ready)
    (fun _ _ _ _ _ hReady hCall => Dispatcher.ready_processIncoming hReady hCall)
    (fun _ _ _ _ _ _ hReady hCall => Dispatcher.ready_processOutgoing hReady hCall)
    (fun _ _ hReady => hReady) h hReady with
    hServes | ⟨-, t, c, d₁, ⟨hRegistered, hReady₁⟩, hc, hNone⟩
  · exact hServes
  · have hExists := hRegistered.exist c hc
    rcases hNone with hNone | hNone
    · obtain ⟨r, hr⟩ :=
        Dispatcher.exists_processIncoming regexMatch hReady₁ (turn.received t) hExists
      rw [incoming, hr] at hNone
      exact absurd hNone (by simp)
    · obtain ⟨r, hr⟩ :=
        Dispatcher.exists_processOutgoing hReady₁ (turn.clock t) (turn.answers t) hExists
      rw [outgoing, hr] at hNone
      exact absurd hNone (by simp)

/-- **The event loop serves every connection.** A turn never reads past the end
of the list, and never through an invalid iterator. If the connections answer,
it calls `processIncoming` of each readable connection on the socket that was
polled for it, `processOutgoing` of every connection once, each in the state
the call before it left, and keeps those that are open. With ready searchers
they do answer, and stay ready. -/
theorem run_serves (h : Registered listeners d) :
    (∀ fault, run regexMatch listeners turn d = .error fault → fault = .body) ∧
      (∀ d' delivered served, run regexMatch listeners turn d = .ok (d', delivered, served) →
        Serves regexMatch listeners turn d d' delivered served) ∧
      (d.Ready → ∃ d' delivered served,
        run regexMatch listeners turn d = .ok (d', delivered, served) ∧ d'.Ready) := by
  have hCases := run_cases regexMatch turn (P := fun _ => True) (fun _ _ _ _ _ _ _ => trivial)
    (fun _ _ _ _ _ _ _ _ => trivial) (fun _ _ _ => trivial) h trivial
  refine ⟨fun fault hFault => ?_, fun d' delivered served hOk => ?_, fun hReady => ?_⟩
  · rcases hCases with ⟨d', delivered, served, hRun, -⟩ | ⟨hRun, -⟩
    · rw [hRun] at hFault
      exact absurd hFault (by simp)
    · rw [hRun, Except.error.injEq] at hFault
      exact hFault.symm
  · rcases hCases with ⟨d₁, delivered₁, served₁, hRun, hServes, -⟩ | ⟨hRun, -⟩
    · rw [hRun, Except.ok.injEq, Prod.mk.injEq, Prod.mk.injEq] at hOk
      obtain ⟨rfl, rfl, rfl⟩ := hOk
      exact hServes
    · rw [hRun] at hOk
      exact absurd hOk (by simp)
  · obtain ⟨d', delivered, served, hRun, -, hReady'⟩ := exists_run regexMatch turn h hReady
    exact ⟨d', delivered, served, hRun, hReady'⟩

/-- A listener without rules. -/
def openListener : Listener Unit := ⟨4, (inetNtop ⟨0, 0, 0, 0⟩, 5053), ⟨[], []⟩⟩

/-- Two IOCs: one has a guard on socket 7, and the other has one of the two PVs
that are searched for. -/
def busy : Dispatcher where
  purgeDelay := 600
  lastPurge := 0
  guards := [⟨7, inetNtop ⟨10, 0, 0, 7⟩, 5064, 0, 0, 1000000000, 10, true, true⟩]
  iocs := AList.insert (inetNtop ⟨10, 0, 0, 7⟩, 5064) 0 ∅
  caSearchers := [{ Searcher.tenBins with
    chanId := 2
    searchedPvs := Searcher.tenBins.searchedPvs.set 0
      [⟨0, [chr 'A'], 0, [1, 2, 10]⟩, ⟨1, [chr 'B'], 0, [1, 2, 10]⟩] }]
  connectedPVs := ∅
  connections := [.listener 0, .guard 0, .searcher 0]

/-- The first IOC closes its connection and the other one answers; its guard
gets the socket that has just become free. -/
def busyTurn : Turn where
  poll _ := (2, fun i => decide (1 ≤ i))
  received _ := {
    datagrams := [{
      remote := ⟨10, 0, 0, 8⟩
      port := 5064
      buffer := ChannelAccess.ordinaryResponse 0
      size := by decide +kernel
      clock := fun _ _ => 2000000000
      opening := fun _ => ⟨7, true, true⟩
      openedAt := fun _ => 2000000000 }]
    recvd := 0
    now := 2000000000 }
  clock _ := 2000000000
  answers _ := ⟨0, 2000000000, 2000000000, 0, 0⟩

theorem registered_busy : Registered [openListener] busy := by
  refine ⟨by decide, fun c hc => ?_⟩
  simp only [busy, List.mem_cons, List.not_mem_nil, or_false] at hc
  rcases hc with rfl | rfl | rfl <;> exact Nat.zero_lt_one

/-- The search for the other PV. -/
def searchB : Bytes :=
  Header.version.encode ++ Header.encode ⟨cmdSearch, 8, 5, 13, 1, 1⟩ ++ [chr 'B', 0, 0, 0, 0, 0, 0, 0]

/-- Both are served once, the other PV is searched for, and the new guard is
polled and kept in place of the old one. -/
theorem run_serves_reusedSocket :
    ∃ d' delivered served,
      run (fun _ _ => true) [openListener] busyTurn busy = .ok (d', delivered, served) ∧
      Serves (fun _ _ => true) [openListener] busyTurn busy d' delivered served ∧
      delivered = [⟨.guard 0, 7, .guard [.recv, .disconnectCb]⟩, ⟨.searcher 0, 3, .requests []⟩] ∧
      served = [⟨.listener 0, 4, .replies []⟩, ⟨.guard 0, -1, .guard []⟩,
        ⟨.searcher 0, 3, .requests [⟨searchB, [(1, [chr 'B'])]⟩]⟩,
        ⟨.guard 1, 7, .guard [.poll]⟩] ∧
      d'.connections = [.listener 0, .searcher 0, .guard 1] := by
  obtain ⟨-, hOk, -⟩ := run_serves (fun _ _ => true) busyTurn registered_busy
  have hEval : (run (fun _ _ => true) [openListener] busyTurn busy).map
      (fun r => (r.1.connections, r.2)) =
        .ok ([.listener 0, .searcher 0, .guard 1],
          [⟨.guard 0, 7, .guard [.recv, .disconnectCb]⟩, ⟨.searcher 0, 3, .requests []⟩],
          [⟨.listener 0, 4, .replies []⟩, ⟨.guard 0, -1, .guard []⟩,
            ⟨.searcher 0, 3, .requests [⟨searchB, [(1, [chr 'B'])]⟩]⟩,
            ⟨.guard 1, 7, .guard [.poll]⟩]) := by decide +kernel
  obtain ⟨⟨d', delivered, served⟩, hRun, hEq⟩ := Loops.exists_of_map_eq_ok hEval
  obtain ⟨hConnections, hLogs⟩ := Prod.mk.inj hEq
  obtain ⟨hDelivered, hServed⟩ := Prod.mk.inj hLogs
  exact ⟨d', delivered, served, hRun, hOk d' delivered served hRun, hDelivered, hServed, hConnections⟩

end Loops

end ConnectionsManager

namespace Dispatcher

-- ---------------------------------------------------------------------------
-- The main loop
-- ---------------------------------------------------------------------------

section MainLoop

variable {ρ : Type*} (regexMatch : ρ → Bytes → Bool) {listeners : List (Listener ρ)}
  {d d' d₀ : Dispatcher} {searchIntervals : List UInt32}

theorem registered_maintain (h : Registered listeners d) {checkedAt : Int}
    {clock : ℕ → SearchedPV → Int} {now : Int} {o : Output}
    (hStep : d.step (.maintain checkedAt clock now) = some (d', o)) : Registered listeners d' := by
  obtain ⟨-, rfl | ⟨hD, hEach⟩⟩ := step_maintain hStep
  · exact h
  · rw [hD]
    exact ⟨h.nodup, fun c hc => (h.exist c hc).mono le_rfl hEach.length_eq.symm⟩

/-- A call of `Dispatcher::run` answers, and leaves the next one to answer. -/
theorem run_answers (h : Registered listeners d) (hReady : d.Ready) (round : Round) :
    ∃ d', run regexMatch listeners d round = .ok d' ∧ Registered listeners d' ∧ d'.Ready ∧
      ∃ tr, Runs.Run step d tr d' := by
  obtain ⟨d₁, delivered, served, hRun, hServes, hReady₁⟩ :=
    ConnectionsManager.exists_run regexMatch round.turn h hReady
  obtain ⟨⟨d', o⟩, hStep⟩ := exists_maintain hReady₁ round.checkedAt round.clock round.purgedAt
  obtain ⟨tr, hTurn⟩ := hServes.run
  refine ⟨d', ?_, registered_maintain hServes.registered hStep, ready_step hReady₁ hStep (by simp),
    tr ++ [(_, o)], hTurn.append (Runs.Run.single hStep)⟩
  unfold run
  simp only [hRun, hStep]

/-- **The main loop** goes on forever from a successful construction, and is
always in a reachable state. -/
theorem mainLoop_answers (hInit : Init searchIntervals d₀)
    (hListeners : ∀ k, .listener k ∈ d₀.connections → k < listeners.length)
    (hBins : 0 < (Searcher.maxInterval searchIntervals).toNat) (rounds : List Round) :
    ∃ d, mainLoop regexMatch listeners d₀ rounds = .ok d ∧ Registered listeners d ∧ d.Ready ∧
      Runs.Reachable (Init searchIntervals) step d := by
  have hLoop : ∀ d, Registered listeners d → d.Ready → Runs.Reachable (Init searchIntervals) step d →
      ∃ d', mainLoop regexMatch listeners d rounds = .ok d' ∧ Registered listeners d' ∧ d'.Ready ∧
        Runs.Reachable (Init searchIntervals) step d' := by
    unfold mainLoop
    induction rounds with
    | nil => exact fun d h hReady hReach => ⟨d, rfl, h, hReady, hReach⟩
    | cons round rounds ih =>
      intro d h hReady hReach
      obtain ⟨d₁, hRun, h₁, hReady₁, tr, hSteps⟩ := run_answers regexMatch h hReady round
      obtain ⟨d', hRest, hEnd⟩ := ih d₁ h₁ hReady₁ (hReach.run hSteps)
      refine ⟨d', ?_, hEnd⟩
      rw [List.foldlM_cons, hRun]
      exact hRest
  exact hLoop d₀ (registered_of_init hInit hListeners) (ready_of_init hInit hBins)
    (Runs.Reachable.of_init hInit)

end MainLoop

end Dispatcher

end PVmapper
