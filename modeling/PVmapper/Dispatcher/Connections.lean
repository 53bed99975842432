import PVmapper.Dispatcher.Ready

/-!
# PVmapper — what a call of a connection changes

An incoming call registers new guards behind the connections there are
(`Opens`), or changes its own guard (`Own`). An outgoing call only changes its
own connection. Both are runs of the transition system.

* `Registered`                                     — the list of connections.
* `processIncoming_cases`, `processOutgoing_cases` — what a call can change.
* `exists_processIncoming`, `exists_processOutgoing` — with ready searchers the
  calls answer.
-/

namespace PVmapper

namespace Searcher

variable {s s' : Searcher}

/-- Adding a PV keeps the socket. -/
theorem sock_addPV {now : Int} {pvname : Bytes} {isNew : Bool}
    (h : s.addPV now pvname = some (s', isNew)) : s'.sock = s.sock := by
  unfold addPV at h
  split at h
  · simp only [Option.some.injEq, Prod.mk.injEq] at h
    rw [← h.1]
  · split at h
    · simp only [Option.some.injEq, Prod.mk.injEq] at h
      rw [← h.1]
    · exact absurd h (by simp)

/-- Finding one keeps the socket. -/
theorem sock_takeFound {chanId : UInt32} {pv : SearchedPV}
    (h : s.takeFound chanId = some (pv, s')) : s'.sock = s.sock := by
  rw [(takeFound_eq_some h).2.1]

/-- A tick keeps the socket. -/
theorem sock_processOutgoing {now : Int} {packets : List Packet}
    (h : s.processOutgoing now = some (s', packets)) : s'.sock = s.sock := by
  unfold processOutgoing at h
  split at h
  · simp only [Option.some.injEq, Prod.mk.injEq] at h
    rw [← h.1]
  · rw [(tick_eq_some h).2.1]

end Searcher

namespace Dispatcher

open Runs (Run)

variable {d d' d'' : Dispatcher}

-- ---------------------------------------------------------------------------
-- Calls that make guards
-- ---------------------------------------------------------------------------

/-- New guards, registered in order behind the connections there are; the
other guards and the sockets of the searchers stay. -/
structure Opens (d d' : Dispatcher) : Prop where
  guards : ∃ made, d'.guards = d.guards ++ made ∧
    d'.connections = d.connections ++ (List.range' d.guards.length made.length).map .guard
  socks : d'.caSearchers.map Searcher.sock = d.caSearchers.map Searcher.sock

theorem Opens.refl (d : Dispatcher) : Opens d d := ⟨⟨[], by simp⟩, rfl⟩

/-- Guards made one after the other are registered in that order. -/
theorem Opens.trans (h : Opens d d') (h' : Opens d' d'') : Opens d d'' := by
  obtain ⟨made, hGuards, hConnections⟩ := h.guards
  obtain ⟨made', hGuards', hConnections'⟩ := h'.guards
  refine ⟨⟨made ++ made', by rw [hGuards', hGuards, List.append_assoc], ?_⟩,
    h'.socks.trans h.socks⟩
  rw [hConnections', hConnections, hGuards, List.append_assoc, ← List.map_append,
    List.length_append, List.length_append, List.range'_append_1]

theorem map_sock_eq {l l' : List Searcher} (h : List.Forall₂ (fun s s' => s'.sock = s.sock) l l') :
    l'.map Searcher.sock = l.map Searcher.sock := by
  induction h with
  | nil => rfl
  | cons hSock _ ih => rw [List.map_cons, List.map_cons, hSock, ih]

/-- The search callback makes no guards. -/
theorem opens_clientSearched {clock : ℕ → Int} {pvname : Bytes} {o : Output}
    (h : d.step (.clientSearched clock pvname) = some (d', o)) : Opens d d' := by
  obtain ⟨response, hSearched, -⟩ := step_clientSearched h
  rcases caPvSearched_cases hSearched with ⟨-, -, -, -, -, rfl, -⟩ | ⟨-, -, -, -, hD, hEach⟩
  · exact Opens.refl d'
  · refine ⟨⟨[], by rw [hD]; simp⟩, map_sock_eq (hEach.imp ?_)⟩
    rintro s s' ⟨now, isNew, hAdd⟩
    exact Searcher.sock_addPV hAdd

/-- The found callback makes a guard or none. -/
theorem opens_response {k : ℕ} {iocIp : Bytes} {iocPort : UInt16} {response : UInt32 × Bytes}
    {opening : Opening} {now : Int} {o : Output}
    (h : d.step (.response k iocIp iocPort response opening now) = some (d', o)) : Opens d d' := by
  rcases step_response h with ⟨rfl, -⟩ | ⟨s, pv, s', hGet, hTake, f, g, -, -, hFound⟩
  · exact Opens.refl d'
  · have hSock := Searcher.sock_takeFound hTake
    have hSocks : ∀ f : Searcher → Searcher, (∀ s, (f s).sock = s.sock) →
        ((d.caSearchers.set k s').map f).map Searcher.sock = d.caSearchers.map Searcher.sock := by
      intro f hf
      rw [List.map_set]
      exact map_sock_eq (forall₂_set (R := fun s s' : Searcher => s'.sock = s.sock) hf hGet
        ((hf s').trans hSock))
    rcases caPvFound_cases { d with caSearchers := d.caSearchers.set k s' } opening now f with
      hNone | ⟨d₁, g', hGuard, hSome⟩
    · rw [hNone, Prod.mk.injEq] at hFound
      rw [← hFound.1]
      exact ⟨⟨[], by simp⟩, by simpa using hSocks id fun _ => rfl⟩
    · rw [hSome, Prod.mk.injEq] at hFound
      rw [← hFound.1]
      refine ⟨?_, hSocks (·.removePV f.pvname) fun _ => rfl⟩
      rcases iocGuard_eq_some hGuard with ⟨-, rfl⟩ | ⟨-, -, guard, -, rfl⟩
      · exact ⟨[], by simp⟩
      · exact ⟨[guard], rfl, rfl⟩

-- ---------------------------------------------------------------------------
-- Calls that change their own guard
-- ---------------------------------------------------------------------------

/-- The list of connections, the number of guards, the sockets of the searchers
and all guards but the one of this connection stay. -/
structure Own (c : Connection) (d d' : Dispatcher) : Prop where
  connections : d'.connections = d.connections
  length : d'.guards.length = d.guards.length
  guards : ∀ g, c ≠ .guard g → d'.guards[g]? = d.guards[g]?
  socks : d'.caSearchers.map Searcher.sock = d.caSearchers.map Searcher.sock

/-- A call of a guard changes its own connection. -/
theorem own_callGuard {g : GuardId} {call : IocGuard → IocGuard × List GuardAction}
    {acts : List GuardAction} (h : d.callGuard g call = some (d', acts)) :
    Own (.guard g) d d' := by
  obtain ⟨guard, -, -, rfl⟩ := callGuard_eq_some h
  refine ⟨rfl, List.length_set .., fun g' hg' => ?_, rfl⟩
  exact List.getElem?_set_ne fun hEq => hg' (congrArg Connection.guard hEq)

-- ---------------------------------------------------------------------------
-- Connections
-- ---------------------------------------------------------------------------

section Connections

variable {ρ : Type*} {regexMatch : ρ → Bytes → Bool} {listeners : List (Listener ρ)}

/-- There is such a connection. -/
def Exists (listeners : List (Listener ρ)) (d : Dispatcher) : Connection → Prop
  | .listener k => k < listeners.length
  | .searcher k => k < d.caSearchers.length
  | .guard g => g < d.guards.length

/-- The list of connections: each exists, and was added once. -/
structure Registered (listeners : List (Listener ρ)) (d : Dispatcher) : Prop where
  nodup : d.connections.Nodup
  exist : ∀ c ∈ d.connections, Exists listeners d c

/-- The socket of a searcher depends on the list of sockets only. -/
theorem getSocket_searcher (d : Dispatcher) (k : ℕ) :
    d.getSocket listeners (.searcher k) = ((d.caSearchers.map Searcher.sock)[k]?).getD (-1) := by
  rw [List.getElem?_map]
  dsimp only [getSocket]
  cases d.caSearchers[k]? <;> rfl

theorem getSocket_guard (d : Dispatcher) (g : GuardId) :
    d.getSocket listeners (.guard g) = (d.guards[g]?).elim (-1) IocGuard.sock := rfl

/-- Whether a searcher is open does too. -/
theorem isOpen_searcher (d : Dispatcher) (k : ℕ) :
    d.isOpen (.searcher k) = ((d.caSearchers.map Searcher.sock)[k]?).any (· != -1) := by
  rw [List.getElem?_map, Option.any_map]
  rfl

theorem isOpen_guard (d : Dispatcher) (g : GuardId) :
    d.isOpen (.guard g) = (d.guards[g]?).any IocGuard.isConnected := rfl

/-- New guards leave the sockets there are. -/
theorem Opens.getSocket (h : Opens d d') {c : Connection} (hc : Exists listeners d c) :
    d'.getSocket listeners c = d.getSocket listeners c := by
  cases c with
  | listener k => rfl
  | searcher k => rw [getSocket_searcher, getSocket_searcher, h.socks]
  | guard g =>
    obtain ⟨made, hGuards, -⟩ := h.guards
    rw [getSocket_guard, getSocket_guard, hGuards, List.getElem?_append_left hc]

/-- A call leaves the sockets of the other connections. -/
theorem Own.getSocket {c c' : Connection} (h : Own c d d') (hne : c' ≠ c) :
    d'.getSocket listeners c' = d.getSocket listeners c' := by
  cases c' with
  | listener k => rfl
  | searcher k => rw [getSocket_searcher, getSocket_searcher, h.socks]
  | guard g =>
    rw [getSocket_guard, getSocket_guard, h.guards g hne.symm]

/-- And leaves them open or closed. -/
theorem Own.isOpen {c c' : Connection} (h : Own c d d') (hne : c' ≠ c) :
    d'.isOpen c' = d.isOpen c' := by
  cases c' with
  | listener k => rfl
  | searcher k => rw [isOpen_searcher, isOpen_searcher, h.socks]
  | guard g =>
    rw [isOpen_guard, isOpen_guard, h.guards g hne.symm]

/-- With the sockets, the number of searchers stays. -/
theorem length_of_socks (h : d'.caSearchers.map Searcher.sock = d.caSearchers.map Searcher.sock) :
    d'.caSearchers.length = d.caSearchers.length := by
  simpa using congrArg List.length h

/-- What exists goes on to. -/
theorem Exists.mono {c : Connection} (h : Exists listeners d c)
    (hGuards : d.guards.length ≤ d'.guards.length)
    (hSearchers : d'.caSearchers.length = d.caSearchers.length) : Exists listeners d' c := by
  cases c with
  | listener k => exact h
  | searcher k => exact lt_of_lt_of_eq h hSearchers.symm
  | guard g => exact lt_of_lt_of_le h hGuards

/-- A call of one connection keeps the list of connections. -/
theorem Registered.own (h : Registered listeners d) {c : Connection} (hOwn : Own c d d') :
    Registered listeners d' := by
  refine ⟨hOwn.connections ▸ h.nodup, fun c' hc' => ?_⟩
  rw [hOwn.connections] at hc'
  exact (h.exist c' hc').mono hOwn.length.ge (length_of_socks hOwn.socks)

/-- New guards are registered under new numbers. -/
theorem Registered.opens (h : Registered listeners d) (hOpens : Opens d d') :
    Registered listeners d' := by
  obtain ⟨made, hGuards, hConnections⟩ := hOpens.guards
  have hSearchers := length_of_socks hOpens.socks
  have hLen : d'.guards.length = d.guards.length + made.length := by
    rw [hGuards, List.length_append]
  refine ⟨?_, fun c hc => ?_⟩
  · rw [hConnections, List.nodup_append]
    refine ⟨h.nodup, List.Nodup.map (fun _ _ => Connection.guard.inj) List.nodup_range', ?_⟩
    -- the numbers of the new guards are not in use
    rintro c hc _ hNew rfl
    obtain ⟨g, hg, rfl⟩ := List.mem_map.mp hNew
    have hOld : g < d.guards.length := h.exist _ hc
    have hRange := (List.mem_range'_1.mp hg).1
    omega
  · rw [hConnections, List.mem_append] at hc
    rcases hc with hc | hc
    · exact (h.exist c hc).mono (by omega) hSearchers
    · obtain ⟨g, hg, rfl⟩ := List.mem_map.mp hc
      have hRange := (List.mem_range'_1.mp hg).2
      exact lt_of_lt_of_eq hRange hLen.symm

/-- The constructor registers what it makes, each once. -/
theorem registered_of_init {searchIntervals : List UInt32} (h : Init searchIntervals d)
    (hListeners : ∀ k, .listener k ∈ d.connections → k < listeners.length) :
    Registered listeners d := by
  obtain ⟨-, ⟨n, hConnections⟩, -⟩ := h
  refine ⟨?_, fun c hc => ?_⟩
  · rw [hConnections, List.nodup_append]
    refine ⟨List.Nodup.map (fun _ _ => Connection.listener.inj) List.nodup_range,
      List.Nodup.map (fun _ _ => Connection.searcher.inj) List.nodup_range, ?_⟩
    rintro c hc _ hc' rfl
    obtain ⟨k, -, rfl⟩ := List.mem_map.mp hc
    simp at hc'
  · cases c with
    | listener k => exact hListeners k hc
    | searcher k =>
      rw [hConnections] at hc
      have hk : k < d.caSearchers.length := by simpa using hc
      exact hk
    | guard g =>
      rw [hConnections] at hc
      simp at hc

-- ---------------------------------------------------------------------------
-- Calls
-- ---------------------------------------------------------------------------

/-- The datagrams of a searcher are a run of responses. -/
theorem run_of_searcherDatagrams {k : ℕ} (hk : k < d.caSearchers.length) (missing : Searcher)
    (datagrams : List Datagram) :
    ∃ tr, Run step d tr (searcherIncoming missing k datagrams d) ∧
      ∀ x ∈ tr, ∃ iocIp iocPort response answer time,
        x.1 = Event.response k iocIp iocPort response answer time := by
  unfold searcherIncoming
  induction datagrams generalizing d with
  | nil => exact ⟨[], Run.nil d, by simp⟩
  | cons p datagrams ih =>
    obtain ⟨tr, hRun, hEvents⟩ :=
      run_of_searcherIncoming p.opening p.openedAt hk missing p.remote p.buffer
    have hk' := hRun.invariant (I := fun d => k < d.caSearchers.length)
      (fun _ _ _ _ hk hStep => by rwa [length_caSearchers_step hStep]) hk
    obtain ⟨tr', hRun', hEvents'⟩ := ih hk'
    refine ⟨tr ++ tr', hRun.append hRun', fun x hx => ?_⟩
    rcases List.mem_append.mp hx with hx | hx
    · obtain ⟨response, -, iocPort, answer, time, hEvent⟩ :=
        exists_of_mem_forall₂ hEvents.flip hx
      exact ⟨_, iocPort, response, answer, time, hEvent⟩
    · exact hEvents' x hx

/-- An incoming call of a listener is a run of searches. -/
theorem run_of_incoming_listener {received : Received} {k : ℕ} {traffic : Traffic}
    (h : d.processIncoming regexMatch listeners received (.listener k) = some (d', traffic)) :
    ∃ tr, Run step d tr d' ∧ ∀ x ∈ tr, IsSearch x.1 := by
  dsimp only [Dispatcher.processIncoming] at h
  split at h
  · exact absurd h (by simp)
  · next l hGet =>
    obtain ⟨⟨d₁, sent⟩, hIncoming, hEq⟩ := Option.map_eq_some_iff.mp h
    obtain ⟨rfl, -⟩ := Prod.mk.inj hEq
    exact run_of_listenerDatagrams regexMatch l hIncoming

/-- One of a searcher is a run of responses. -/
theorem run_of_incoming_searcher {received : Received} {k : ℕ} {traffic : Traffic}
    (h : d.processIncoming regexMatch listeners received (.searcher k) = some (d', traffic)) :
    ∃ tr, Run step d tr d' ∧ ∀ x ∈ tr, ∃ iocIp iocPort response answer time,
      x.1 = Event.response k iocIp iocPort response answer time := by
  dsimp only [Dispatcher.processIncoming] at h
  split at h
  · exact absurd h (by simp)
  · next s hGet =>
    obtain ⟨hk, -⟩ := List.getElem?_eq_some_iff.mp hGet
    obtain ⟨rfl, -⟩ := Prod.mk.inj (Option.some.inj h)
    exact run_of_searcherDatagrams hk s received.datagrams

/-- An outgoing call of a searcher is a tick of it, or too early for one. -/
theorem outgoing_searcher_eq_some {now : Int} {answers : Answers} {k : ℕ} {traffic : Traffic}
    (h : d.processOutgoing now answers (.searcher k) = some (d', traffic)) :
    ∃ s s' packets, d.caSearchers[k]? = some s ∧ s.processOutgoing now = some (s', packets) ∧
      d' = { d with caSearchers := d.caSearchers.set k s' } := by
  dsimp only [Dispatcher.processOutgoing] at h
  split at h
  · exact absurd h (by simp)
  · next s hGet =>
    obtain ⟨⟨s', packets⟩, hOut, hEq⟩ := Option.map_eq_some_iff.mp h
    obtain ⟨rfl, -⟩ := Prod.mk.inj hEq
    exact ⟨s, s', packets, hGet, hOut, rfl⟩

/-- What an incoming call can change. -/
theorem processIncoming_cases {received : Received} {c : Connection} {traffic : Traffic}
    (hc : c ∈ d.connections)
    (h : d.processIncoming regexMatch listeners received c = some (d', traffic)) :
    (∃ tr, Run step d tr d') ∧ (Opens d d' ∨ Own c d d') := by
  cases c with
  | listener k =>
    obtain ⟨tr, hRun, hSearches⟩ := run_of_incoming_listener h
    refine ⟨⟨tr, hRun⟩, Or.inl ?_⟩
    refine hRun.invariant_of_mem (I := Opens d) (fun s e s' o hMem hOpens hStep => ?_)
      (Opens.refl d)
    obtain ⟨clock, pvname, hEvent, -⟩ := hSearches _ hMem
    obtain rfl : e = _ := hEvent
    exact hOpens.trans (opens_clientSearched hStep)
  | searcher k =>
    obtain ⟨tr, hRun, hResponses⟩ := run_of_incoming_searcher h
    refine ⟨⟨tr, hRun⟩, Or.inl ?_⟩
    refine hRun.invariant_of_mem (I := Opens d) (fun s e s' o hMem hOpens hStep => ?_)
      (Opens.refl d)
    obtain ⟨iocIp, iocPort, response, answer, time, hEvent⟩ := hResponses _ hMem
    obtain rfl : e = _ := hEvent
    exact hOpens.trans (opens_response hStep)
  | guard g =>
    obtain ⟨⟨d₁, acts⟩, hCall, hEq⟩ := Option.map_eq_some_iff.mp h
    obtain ⟨rfl, -⟩ := Prod.mk.inj hEq
    have hStep : d.step (.guardIncoming g received.recvd received.now) =
        some (d₁, .guard g acts) := by
      show (if Connection.guard g ∈ d.connections then _ else none) = _
      rw [if_pos hc, hCall]
      rfl
    exact ⟨⟨_, Run.single hStep⟩, Or.inr (own_callGuard hCall)⟩

/-- What an outgoing call can change. -/
theorem processOutgoing_cases {now : Int} {answers : Answers} {c : Connection} {traffic : Traffic}
    (hc : c ∈ d.connections) (h : d.processOutgoing now answers c = some (d', traffic)) :
    (∃ tr, Run step d tr d') ∧ Own c d d' := by
  cases c with
  | listener k =>
    obtain ⟨rfl, -⟩ := Prod.mk.inj (Option.some.inj h)
    exact ⟨⟨[], Run.nil d⟩, ⟨rfl, rfl, fun _ _ => rfl, rfl⟩⟩
  | searcher k =>
    obtain ⟨s, s', packets, hGet, hOut, rfl⟩ := outgoing_searcher_eq_some h
    have hStep : d.step (.searcherOutgoing k now) =
        some ({ d with caSearchers := d.caSearchers.set k s' }, .sent k packets) := by
      unfold step
      dsimp only
      rw [hGet]
      dsimp only
      rw [hOut]
      rfl
    refine ⟨⟨_, Run.single hStep⟩, ⟨rfl, rfl, fun _ _ => rfl, map_sock_eq ?_⟩⟩
    have hSet := forall₂_set (f := id) (R := fun s s' : Searcher => s'.sock = s.sock)
      (fun _ => rfl) hGet (Searcher.sock_processOutgoing hOut)
    rwa [List.map_id] at hSet
  | guard g =>
    obtain ⟨⟨d₁, acts⟩, hCall, hEq⟩ := Option.map_eq_some_iff.mp h
    obtain ⟨rfl, -⟩ := Prod.mk.inj hEq
    have hStep : d.step (.guardOutgoing g answers) = some (d₁, .guard g acts) := by
      show (if Connection.guard g ∈ d.connections then _ else none) = _
      rw [if_pos hc, hCall]
      rfl
    exact ⟨⟨_, Run.single hStep⟩, own_callGuard hCall⟩

/-- Ready searchers stay ready. -/
theorem ready_processIncoming (hReady : d.Ready) {received : Received} {c : Connection}
    {traffic : Traffic}
    (h : d.processIncoming regexMatch listeners received c = some (d', traffic)) : d'.Ready := by
  cases c with
  | listener k =>
    obtain ⟨tr, hRun, hSearches⟩ := run_of_incoming_listener h
    exact ready_run hRun hReady fun x hx clock pvname hEq => (hSearches x hx).short hEq
  | searcher k =>
    obtain ⟨tr, hRun, hResponses⟩ := run_of_incoming_searcher h
    refine ready_run hRun hReady fun x hx clock pvname hEq => ?_
    obtain ⟨_, _, _, _, _, hEvent⟩ := hResponses x hx
    rw [hEvent] at hEq
    exact absurd hEq (by simp)
  | guard g =>
    obtain ⟨⟨d₁, acts⟩, hCall, hEq⟩ := Option.map_eq_some_iff.mp h
    obtain ⟨rfl, -⟩ := Prod.mk.inj hEq
    obtain ⟨guard, -, -, rfl⟩ := callGuard_eq_some hCall
    exact hReady

/-- Outgoing calls keep the searchers ready. -/
theorem ready_processOutgoing (hReady : d.Ready) {now : Int} {answers : Answers} {c : Connection}
    {traffic : Traffic} (h : d.processOutgoing now answers c = some (d', traffic)) : d'.Ready := by
  cases c with
  | listener k =>
    obtain ⟨rfl, -⟩ := Prod.mk.inj (Option.some.inj h)
    exact hReady
  | searcher k =>
    obtain ⟨s, s', packets, hGet, hOut, rfl⟩ := outgoing_searcher_eq_some h
    exact ready_set hReady
      (Searcher.ready_processOutgoing (hReady s (List.mem_of_getElem? hGet)) hOut)
  | guard g =>
    obtain ⟨⟨d₁, acts⟩, hCall, hEq⟩ := Option.map_eq_some_iff.mp h
    obtain ⟨rfl, -⟩ := Prod.mk.inj hEq
    obtain ⟨guard, -, -, rfl⟩ := callGuard_eq_some hCall
    exact hReady

/-- A guard that is there can be called. -/
theorem exists_callGuard {g : GuardId} (hg : g < d.guards.length)
    (call : IocGuard → IocGuard × List GuardAction) : ∃ r, d.callGuard g call = some r := by
  unfold callGuard
  rw [List.getElem?_eq_getElem hg]
  exact ⟨_, rfl⟩

/-- With ready searchers, a call of what exists answers. -/
theorem exists_processIncoming (regexMatch : ρ → Bytes → Bool) (hReady : d.Ready) (received : Received) {c : Connection}
    (hc : Exists listeners d c) :
    ∃ r, d.processIncoming regexMatch listeners received c = some r := by
  cases c with
  | listener k =>
    have hk : k < listeners.length := hc
    dsimp only [Dispatcher.processIncoming]
    rw [List.getElem?_eq_getElem hk]
    obtain ⟨r, hr⟩ := exists_listenerIncoming regexMatch hReady listeners[k] received.datagrams
    exact ⟨_, by dsimp only; rw [hr]; rfl⟩
  | searcher k =>
    have hk : k < d.caSearchers.length := hc
    dsimp only [Dispatcher.processIncoming]
    rw [List.getElem?_eq_getElem hk]
    exact ⟨_, rfl⟩
  | guard g =>
    obtain ⟨r, hr⟩ := exists_callGuard hc (·.processIncoming received.recvd received.now)
    dsimp only [Dispatcher.processIncoming]
    rw [hr]
    exact ⟨_, rfl⟩

/-- An outgoing call answers, for ready searchers. -/
theorem exists_processOutgoing (hReady : d.Ready) (now : Int) (answers : Answers) {c : Connection}
    (hc : Exists listeners d c) : ∃ r, d.processOutgoing now answers c = some r := by
  cases c with
  | listener k => exact ⟨_, rfl⟩
  | searcher k =>
    have hk : k < d.caSearchers.length := hc
    obtain ⟨r, hr⟩ := (hReady _ (List.getElem_mem hk)).exists_processOutgoing now
    dsimp only [Dispatcher.processOutgoing]
    rw [List.getElem?_eq_getElem hk]
    dsimp only
    rw [hr]
    exact ⟨_, rfl⟩
  | guard g =>
    obtain ⟨r, hr⟩ := exists_callGuard hc (·.processOutgoing answers)
    dsimp only [Dispatcher.processOutgoing]
    rw [hr]
    exact ⟨_, rfl⟩

end Connections

end Dispatcher

end PVmapper
