import PVmapper.Model.IocGuard

/-!
# PVmapper — what a call of an IOC guard does

Each call of a guard takes one of a few ways. They are listed here once, with
what the guard did on its connection and what it read from the clock; the
facts about whole runs of a guard go through these cases.

* `incoming_call`, `outgoing_call` — the ways a call can take.
* `Call`                           — a call keeps the connection as it is, or
  closes it and calls back, in this order and as its last action.
-/

namespace PVmapper

namespace IocGuard

open ChannelAccess (createEchoRequest)

-- ---------------------------------------------------------------------------
-- The ways a call can take
-- ---------------------------------------------------------------------------

/-- What `processIncoming` does: nothing on a closed socket; otherwise it notes
the data, or closes. -/
inductive Incoming (g : IocGuard) (recvd now : Int) :
    IocGuard → List GuardAction → List Int → Prop
  | closed : g.sock = -1 → Incoming g recvd now g [] []
  | data : g.sock ≠ -1 → 0 < recvd →
      Incoming g recvd now { g with lastResponse := now, initialized := true } [.recv] [now]
  | failed : g.sock ≠ -1 → recvd ≤ 0 →
      Incoming g recvd now { g with sock := -1 } [.recv, .disconnectCb] []

/-- What the heartbeat at the end of `processOutgoing` does: nothing yet; an
echo, which may fail; or it finds no response to the last one. -/
inductive Heartbeat (g : IocGuard) (answers : Answers) :
    IocGuard → List GuardAction → List Int → Prop
  | early : seconds (answers.checkedAt - g.lastRequest) ≤ g.heartbeatInterval →
      Heartbeat g answers g [] []
  | echo : g.heartbeatInterval < seconds (answers.checkedAt - g.lastRequest) →
      g.lastRequest < g.lastResponse → 0 < answers.sendret →
      Heartbeat g answers { g with lastRequest := answers.sentAt }
        [.send (createEchoRequest (!g.initialized))] [answers.sentAt]
  | failed : g.heartbeatInterval < seconds (answers.checkedAt - g.lastRequest) →
      g.lastRequest < g.lastResponse → answers.sendret ≤ 0 →
      Heartbeat g answers { g with sock := -1 }
        [.send (createEchoRequest (!g.initialized)), .disconnectCb] []
  | missing : g.heartbeatInterval < seconds (answers.checkedAt - g.lastRequest) →
      g.lastResponse ≤ g.lastRequest →
      Heartbeat g answers { g with sock := -1 } [.disconnectCb] []

/-- What `processOutgoing` does: nothing on a closed socket; it waits for the
connection, for five seconds; and once there is one, which it may find in this
call, the heartbeat. -/
inductive Outgoing (g : IocGuard) (answers : Answers) :
    IocGuard → List GuardAction → List Int → Prop
  | closed : g.sock = -1 → Outgoing g answers g [] []
  | connecting : g.sock ≠ -1 → g.connected = false → answers.pollret ≤ 0 →
      Outgoing g answers g [.poll] [answers.polledAt]
  | timedOut : g.sock ≠ -1 → g.connected = false → answers.pollret ≤ 0 →
      Outgoing g answers { g with sock := -1 } [.poll, .disconnectCb] [answers.polledAt]
  | connects {g' : IocGuard} {acts : List GuardAction} {times : List Int} :
      g.sock ≠ -1 → g.connected = false → 0 < answers.pollret →
      Heartbeat { g with connected := true, lastResponse := answers.polledAt } answers g' acts
        times →
      Outgoing g answers g' (.poll :: acts) (answers.polledAt :: answers.checkedAt :: times)
  | connected {g' : IocGuard} {acts : List GuardAction} {times : List Int} :
      g.sock ≠ -1 → g.connected = true → Heartbeat g answers g' acts times →
      Outgoing g answers g' acts (answers.checkedAt :: times)

/-- `processIncoming` takes one of its ways. -/
theorem incoming_call (g : IocGuard) (recvd now : Int) :
    Incoming g recvd now (g.processIncoming recvd now).1 (g.processIncoming recvd now).2
      (g.readings (.incoming recvd now)) := by
  unfold processIncoming readings
  dsimp only
  by_cases hOpen : g.sock ≠ -1
  · by_cases hData : recvd > 0
    · rw [if_pos hOpen, if_pos hData, if_pos ⟨hOpen, hData⟩]
      exact Incoming.data hOpen hData
    · rw [if_pos hOpen, if_neg hData, if_neg fun h => hData h.2]
      exact Incoming.failed hOpen (by omega)
  · rw [if_neg hOpen, if_neg fun h => hOpen h.1]
    exact Incoming.closed (by simpa using hOpen)

/-- The end of `processOutgoing`, behind the connection check. -/
theorem heartbeat_call (g : IocGuard) (answers : Answers) :
    ∃ g' acts times, Heartbeat g answers g' acts times ∧
      (∀ acts₀, (if seconds (answers.checkedAt - g.lastRequest) > g.heartbeatInterval then
          ((g.sendHeartBeat answers.sendret answers.sentAt).1,
            acts₀ ++ (g.sendHeartBeat answers.sendret answers.sentAt).2)
        else (g, acts₀)) = (g', acts₀ ++ acts)) ∧
      (if seconds (answers.checkedAt - g.lastRequest) > g.heartbeatInterval ∧
        g.lastRequest < g.lastResponse ∧ answers.sendret > 0 then [answers.sentAt] else []) =
          times := by
  unfold sendHeartBeat
  by_cases hDue : seconds (answers.checkedAt - g.lastRequest) > g.heartbeatInterval
  · by_cases hAnswered : g.lastRequest < g.lastResponse
    · by_cases hSent : answers.sendret > 0
      · refine ⟨_, _, _, Heartbeat.echo hDue hAnswered hSent, fun acts₀ => ?_, ?_⟩
        · rw [if_pos hDue, if_pos hAnswered]
          dsimp only
          rw [if_pos hSent]
        · rw [if_pos ⟨hDue, hAnswered, hSent⟩]
      · refine ⟨_, _, _, Heartbeat.failed hDue hAnswered (by omega), fun acts₀ => ?_, ?_⟩
        · rw [if_pos hDue, if_pos hAnswered]
          dsimp only
          rw [if_neg hSent]
        · rw [if_neg fun h => hSent h.2.2]
    · refine ⟨_, _, _, Heartbeat.missing hDue (by omega), fun acts₀ => ?_, ?_⟩
      · rw [if_pos hDue, if_neg hAnswered]
      · rw [if_neg fun h => hAnswered h.2.1]
  · refine ⟨_, _, _, Heartbeat.early (by omega), fun acts₀ => ?_, ?_⟩
    · rw [if_neg hDue, List.append_nil]
    · rw [if_neg fun h => hDue h.1]

/-- `processOutgoing` takes one of its ways. -/
theorem outgoing_call (g : IocGuard) (answers : Answers) :
    Outgoing g answers (g.processOutgoing answers).1 (g.processOutgoing answers).2
      (g.readings (.outgoing answers)) := by
  unfold processOutgoing readings checkConnection
  dsimp only
  by_cases hOpen : g.sock ≠ -1
  · rw [if_pos hOpen, if_pos hOpen]
    by_cases hPending : g.connected = false
    · rw [if_pos hPending]
      by_cases hPoll : answers.pollret ≤ 0
      · rw [if_pos hPoll]
        by_cases hLate : seconds (answers.polledAt - g.started) > 5
        · rw [if_pos hLate]
          simp only [if_pos hPending]
          exact Outgoing.timedOut hOpen hPending hPoll
        · rw [if_neg hLate]
          simp only [if_pos hPending]
          exact Outgoing.connecting hOpen hPending hPoll
      · -- the heartbeat of the guard that has just become connected
        obtain ⟨g', acts, times, hBeat, hCall, hTimes⟩ := heartbeat_call
          { g with connected := true, lastResponse := answers.polledAt } answers
        rw [if_neg hPoll]
        simp only [if_pos hPending]
        rw [hCall, hTimes]
        exact Outgoing.connects hOpen hPending (by omega) hBeat
    · obtain ⟨g', acts, times, hBeat, hCall, hTimes⟩ := heartbeat_call g answers
      rw [if_neg hPending]
      simp only [if_neg hPending]
      rw [hCall, hTimes]
      exact Outgoing.connected hOpen (by simpa using hPending) hBeat
  · rw [if_neg hOpen, if_neg hOpen]
    exact Outgoing.closed (by simpa using hOpen)

-- ---------------------------------------------------------------------------
-- What a call does to the connection
-- ---------------------------------------------------------------------------

/-- A call that keeps the connection as it is, or closes it and calls back. -/
structure Call (g g' : IocGuard) (acts : List GuardAction) : Prop where
  addr : g'.getIocAddr = g.getIocAddr
  idle : g.isConnected = false → g' = g ∧ acts = []
  open_or_closed : g.isConnected = true →
    (g'.isConnected = true ∧ .disconnectCb ∉ acts) ∨
      (g'.isConnected = false ∧ ∃ acts', acts = acts' ++ [.disconnectCb] ∧ .disconnectCb ∉ acts')

theorem isConnected_iff (g : IocGuard) : g.isConnected = true ↔ g.sock ≠ -1 := by
  simp [isConnected]

/-- The ways of `processIncoming` are calls. -/
theorem Incoming.call {g g' : IocGuard} {recvd now : Int} {acts : List GuardAction}
    {times : List Int} (h : Incoming g recvd now g' acts times) : Call g g' acts := by
  cases h with
  | closed hClosed => exact ⟨rfl, fun _ => ⟨rfl, rfl⟩, by simp [isConnected_iff, hClosed]⟩
  | data hOpen hData =>
    exact ⟨rfl, by simp [isConnected, hOpen], fun h => Or.inl ⟨h, by simp⟩⟩
  | failed hOpen hData =>
    exact ⟨rfl, by simp [isConnected, hOpen], fun _ => Or.inr ⟨rfl, [.recv], rfl, by simp⟩⟩

/-- Once the connection is found open, only the heartbeat can end it. -/
theorem Heartbeat.call {g₀ g g' : IocGuard} {answers : Answers} {acts : List GuardAction}
    {times : List Int} (h : Heartbeat g answers g' acts times) (acts₀ : List GuardAction)
    (hAddr : g.getIocAddr = g₀.getIocAddr) (hSock : g.sock = g₀.sock)
    (hOpen : g₀.sock ≠ -1) (hActs : .disconnectCb ∉ acts₀) :
    Call g₀ g' (acts₀ ++ acts) := by
  have hConnected : g₀.isConnected = true := (isConnected_iff g₀).mpr hOpen
  have hConnected' : g.isConnected = true := (isConnected_iff g).mpr (hSock ▸ hOpen)
  cases h with
  | early => exact ⟨hAddr, by simp [hConnected], fun _ => Or.inl ⟨hConnected', by simpa using hActs⟩⟩
  | echo => exact ⟨hAddr, by simp [hConnected], fun _ => Or.inl ⟨hConnected', by simp [hActs]⟩⟩
  | failed =>
    exact ⟨hAddr, by simp [hConnected], fun _ => Or.inr ⟨rfl,
      acts₀ ++ [.send (createEchoRequest (!g.initialized))], by simp, by simp [hActs]⟩⟩
  | missing => exact ⟨hAddr, by simp [hConnected], fun _ => Or.inr ⟨rfl, acts₀, rfl, hActs⟩⟩

/-- The ways of `processOutgoing` are calls. -/
theorem Outgoing.call {g g' : IocGuard} {answers : Answers} {acts : List GuardAction}
    {times : List Int} (h : Outgoing g answers g' acts times) : Call g g' acts := by
  cases h with
  | closed hClosed => exact ⟨rfl, fun _ => ⟨rfl, rfl⟩, by simp [isConnected_iff, hClosed]⟩
  | connecting hOpen => exact ⟨rfl, by simp [isConnected, hOpen], fun h => Or.inl ⟨h, by simp⟩⟩
  | timedOut hOpen =>
    exact ⟨rfl, by simp [isConnected, hOpen], fun _ => Or.inr ⟨rfl, [.poll], rfl, by simp⟩⟩
  | connects hOpen _ _ hBeat => exact hBeat.call [.poll] rfl rfl hOpen (by simp)
  | connected hOpen _ hBeat => exact hBeat.call [] rfl rfl hOpen (by simp)

theorem call_processIncoming (g : IocGuard) (recvd now : Int) :
    Call g (g.processIncoming recvd now).1 (g.processIncoming recvd now).2 :=
  (incoming_call g recvd now).call

theorem call_processOutgoing (g : IocGuard) (answers : Answers) :
    Call g (g.processOutgoing answers).1 (g.processOutgoing answers).2 :=
  (outgoing_call g answers).call

/-- A guard starts out connected, with the address it was made for. -/
theorem create_eq_some {opening : Opening} {addr : Address} {now : Int} {g : IocGuard}
    (h : create opening addr now = some g) : g.isConnected = true ∧ g.getIocAddr = addr := by
  unfold create at h
  split at h
  · exact absurd h (by simp)
  · next hOk =>
    rw [Option.some.injEq] at h
    subst h
    refine ⟨?_, rfl⟩
    unfold isConnected
    simp only [bne_iff_ne, ne_eq]
    omega

end IocGuard

end PVmapper
