import PVmapper.IocGuard.Calls

/-!
# PVmapper — how long a silent IOC keeps its guard

A guard that hears nothing sends one more echo, at the first call 11 s after
its last request, and closes at the first call 11 s after that. On the way it
is in one of two phases: its last request is still the one from before the
silence, or it is behind its last response.

* `silent_outgoing`, `awaiting_outgoing` — a call in each phase.
* `awaiting_of_late`, `closed_of_late`   — the calls that end them.
* `outgoing_connecting`                  — a guard without a connection.
-/

namespace PVmapper

/-- A call of `processOutgoing` during which the clock goes from `t` to `t'`. -/
structure Answers.Between (answers : Answers) (t t' : Int) : Prop where
  start : t ≤ answers.polledAt
  polled : answers.polledAt ≤ answers.checkedAt
  checked : answers.checkedAt ≤ answers.sentAt
  done : answers.sentAt ≤ t'

namespace IocGuard

variable {g : IocGuard} {answers : Answers} {T t t' u : Int}

/-- Nothing a guard remembers is later than `t`. -/
structure Dated (t : Int) (g : IocGuard) : Prop where
  interval : g.heartbeatInterval = 10
  started : g.started ≤ t
  request : g.lastRequest ≤ t
  response : g.lastResponse ≤ t

theorem Dated.mono (h : Dated t g) (hLe : t ≤ t') : Dated t' g :=
  ⟨h.interval, h.started.trans hLe, h.request.trans hLe, h.response.trans hLe⟩

theorem dated_incoming (h : Dated t g) {recvd now : Int} (hNow : t ≤ now) (hEnd : now ≤ t') :
    Dated t' (g.processIncoming recvd now).1 := by
  have hLater := h.mono (hNow.trans hEnd)
  have hCall := incoming_call g recvd now
  generalize (g.processIncoming recvd now).1 = g', (g.processIncoming recvd now).2 = acts,
    g.readings (.incoming recvd now) = times at hCall ⊢
  cases hCall with
  | closed => exact hLater
  | data => exact ⟨hLater.interval, hLater.started, hLater.request, hEnd⟩
  | failed => exact ⟨hLater.interval, hLater.started, hLater.request, hLater.response⟩

theorem dated_heartbeat {g' : IocGuard} {acts : List GuardAction} {times : List Int}
    (hBeat : Heartbeat g answers g' acts times) (h : Dated t' g) (hSent : answers.sentAt ≤ t') :
    Dated t' g' := by
  cases hBeat with
  | early => exact h
  | echo => exact ⟨h.interval, h.started, hSent, h.response⟩
  | failed => exact ⟨h.interval, h.started, h.request, h.response⟩
  | missing => exact ⟨h.interval, h.started, h.request, h.response⟩

theorem dated_outgoing (h : Dated t g) (hReads : answers.Between t t') :
    Dated t' (g.processOutgoing answers).1 := by
  obtain ⟨hStart, hPolled, hChecked, hDone⟩ := hReads
  have hLater := h.mono (show t ≤ t' by omega)
  have hCall := outgoing_call g answers
  generalize (g.processOutgoing answers).1 = g', (g.processOutgoing answers).2 = acts,
    g.readings (.outgoing answers) = times at hCall ⊢
  cases hCall with
  | closed => exact hLater
  | connecting => exact hLater
  | timedOut => exact ⟨hLater.interval, hLater.started, hLater.request, hLater.response⟩
  | connects _ _ _ hBeat =>
    refine dated_heartbeat hBeat ⟨hLater.interval, hLater.started, hLater.request, ?_⟩ hDone
    dsimp only
    omega
  | connected _ _ hBeat => exact dated_heartbeat hBeat hLater hDone

/-- The guard is closed, or its last request, sent by `u`, has no response. -/
structure Awaiting (u : Int) (g : IocGuard) : Prop where
  interval : g.heartbeatInterval = 10
  state : g.sock = -1 ∨ g.connected = true ∧ g.lastResponse ≤ g.lastRequest ∧ g.lastRequest ≤ u

/-- At time `t`, with no data since time `T`: the guard has sent a request
since then, or its last one was before. -/
structure Silent (T t : Int) (g : IocGuard) : Prop where
  interval : g.heartbeatInterval = 10
  state : Awaiting t g ∨ g.lastRequest ≤ T ∧ g.started ≤ T ∧ g.lastResponse ≤ t

theorem Dated.silent (h : Dated t g) : Silent t t g :=
  ⟨h.interval, Or.inr ⟨h.request, h.started, h.response⟩⟩

theorem Awaiting.mono (h : Awaiting u g) (hLe : u ≤ t) : Awaiting t g := by
  refine ⟨h.interval, h.state.imp_right ?_⟩
  rintro ⟨hConnected, hMissing, hLast⟩
  exact ⟨hConnected, hMissing, hLast.trans hLe⟩

theorem Silent.mono (h : Silent T t g) (hLe : t ≤ t') : Silent T t' g := by
  refine ⟨h.interval, h.state.imp (Awaiting.mono · hLe) ?_⟩
  rintro ⟨hLast, hStarted, hResponse⟩
  exact ⟨hLast, hStarted, hResponse.trans hLe⟩

theorem Awaiting.of_closed (hInterval : g.heartbeatInterval = 10) (h : g.sock = -1) :
    Awaiting u g := ⟨hInterval, Or.inl h⟩

/-- What is due, in nanoseconds. -/
theorem due_iff (hInterval : g.heartbeatInterval = 10) {c : Int} :
    (g.heartbeatInterval : Int) < seconds (c - g.lastRequest) ↔
      g.lastRequest + 11000000000 ≤ c := by
  rw [hInterval, lt_seconds_iff]
  omega

/-- A guard without a connection only waits, and not for longer than 5 s. -/
theorem outgoing_connecting (hOpen : g.sock ≠ -1) (hPending : g.connected = false)
    (hPoll : answers.pollret ≤ 0) :
    (g.processOutgoing answers).1 =
      if g.started + 6000000000 ≤ answers.polledAt then { g with sock := -1 } else g := by
  have hLate : seconds (answers.polledAt - g.started) > 5 ↔
      g.started + 6000000000 ≤ answers.polledAt := by
    rw [gt_iff_lt, show (5 : Int) = ((5 : ℕ) : Int) from rfl, lt_seconds_iff]
    omega
  unfold processOutgoing checkConnection
  rw [if_pos hOpen, if_pos hPending, if_pos hPoll]
  by_cases h : g.started + 6000000000 ≤ answers.polledAt
  · rw [if_pos h, if_pos (hLate.mpr h)]
  · rw [if_neg h, if_neg (mt hLate.mp h)]

/-- A heartbeat that finds the last request unanswered leaves it so, or closes. -/
theorem awaiting_heartbeat {g' : IocGuard} {acts : List GuardAction} {times : List Int}
    (hBeat : Heartbeat g answers g' acts times) (h : Awaiting u g) (hOpen : g.sock ≠ -1) :
    Awaiting u g' := by
  obtain ⟨hConnected, hMissing, hLast⟩ := h.state.resolve_left hOpen
  cases hBeat with
  | early => exact h
  | echo hDue hAnswered hSent => exact absurd hAnswered (not_lt.mpr hMissing)
  | failed => exact Awaiting.of_closed h.interval rfl
  | missing => exact Awaiting.of_closed h.interval rfl

/-- **A call that finds the last request unanswered** leaves it so, or closes. -/
theorem awaiting_outgoing (h : Awaiting u g) : Awaiting u (g.processOutgoing answers).1 := by
  have hCall := outgoing_call g answers
  generalize (g.processOutgoing answers).1 = g', (g.processOutgoing answers).2 = acts,
    g.readings (.outgoing answers) = times at hCall ⊢
  cases hCall with
  | closed => exact h
  | connecting => exact h
  | timedOut => exact Awaiting.of_closed h.interval rfl
  | connects hOpen hPending =>
    obtain ⟨hConnected, -⟩ := h.state.resolve_left hOpen
    rw [hPending] at hConnected
    exact absurd hConnected (by decide)
  | connected hOpen _ hBeat => exact awaiting_heartbeat hBeat h hOpen

/-- **The last call.** 11 s after the last request it finds no response. -/
theorem closed_of_late (h : Awaiting u g) (hLate : u + 11000000000 ≤ answers.checkedAt) :
    (g.processOutgoing answers).1.sock = -1 := by
  have hCall := outgoing_call g answers
  generalize (g.processOutgoing answers).1 = g', (g.processOutgoing answers).2 = acts,
    g.readings (.outgoing answers) = times at hCall ⊢
  cases hCall with
  | closed hClosed => exact hClosed
  | timedOut => rfl
  | connecting hOpen hPending =>
    obtain ⟨hConnected, -⟩ := h.state.resolve_left hOpen
    rw [hPending] at hConnected
    exact absurd hConnected (by decide)
  | connects hOpen hPending =>
    obtain ⟨hConnected, -⟩ := h.state.resolve_left hOpen
    rw [hPending] at hConnected
    exact absurd hConnected (by decide)
  | connected hOpen _ hBeat =>
    obtain ⟨-, hMissing, hLast⟩ := h.state.resolve_left hOpen
    cases hBeat with
    | early hEarly =>
      have hDue := (due_iff h.interval (c := answers.checkedAt)).mpr (by omega)
      exact absurd hDue (not_lt.mpr hEarly)
    | echo hDue hAnswered hSent => exact absurd hAnswered (not_lt.mpr hMissing)
    | failed => rfl
    | missing => rfl

/-- A heartbeat of a connected guard in the silence: an echo is behind the last
response; without one, nothing has changed. -/
theorem silent_heartbeat {g' : IocGuard} {acts : List GuardAction} {times : List Int}
    (hBeat : Heartbeat g answers g' acts times) (hInterval : g.heartbeatInterval = 10)
    (hConnected : g.connected = true) (hReads : answers.Between t t')
    (hResponse : g.lastResponse ≤ answers.checkedAt) :
    Awaiting answers.sentAt g' ∨ g' = g ∧ answers.checkedAt < g.lastRequest + 11000000000 := by
  have hChecked := hReads.checked
  cases hBeat with
  | early hEarly =>
    refine Or.inr ⟨rfl, ?_⟩
    by_contra hLate
    exact absurd ((due_iff hInterval).mpr (not_lt.mp hLate)) (not_lt.mpr hEarly)
  | echo hDue hAnswered hSent =>
    exact Or.inl ⟨hInterval, Or.inr ⟨hConnected, hResponse.trans hChecked, le_rfl⟩⟩
  | failed => exact Or.inl (Awaiting.of_closed hInterval rfl)
  | missing => exact Or.inl (Awaiting.of_closed hInterval rfl)

/-- A call of a guard that has sent nothing since the silence began: it closes,
sends its echo, or comes less than 11 s after. -/
theorem outgoing_of_silence (hInterval : g.heartbeatInterval = 10) (hLast : g.lastRequest ≤ T)
    (hStarted : g.started ≤ T) (hResponse : g.lastResponse ≤ t) (hReads : answers.Between t t') :
    Awaiting answers.sentAt (g.processOutgoing answers).1 ∨
      ((g.processOutgoing answers).1.lastRequest ≤ T ∧ (g.processOutgoing answers).1.started ≤ T ∧
        (g.processOutgoing answers).1.lastResponse ≤ t' ∧
        (g.processOutgoing answers).1.heartbeatInterval = 10 ∧
        answers.polledAt < T + 11000000000) := by
  obtain ⟨hStart, hPolled, hChecked, hDone⟩ := hReads
  by_cases hOpen : g.sock = -1
  · -- nothing happens on a closed socket
    have hSame : (g.processOutgoing answers).1 = g := by
      unfold processOutgoing
      rw [if_neg (by simpa using hOpen)]
    rw [hSame]
    exact Or.inl (Awaiting.of_closed hInterval hOpen)
  by_cases hPending : g.connected = false ∧ answers.pollret ≤ 0
  · rw [outgoing_connecting hOpen hPending.1 hPending.2]
    split
    · exact Or.inl (Awaiting.of_closed hInterval rfl)
    · exact Or.inr ⟨hLast, hStarted, by omega, hInterval, by omega⟩
  have hCall := outgoing_call g answers
  generalize (g.processOutgoing answers).1 = g', (g.processOutgoing answers).2 = acts,
    g.readings (.outgoing answers) = times at hCall ⊢
  cases hCall with
  | closed hClosed => exact absurd hClosed hOpen
  | connecting _ hConnected hPoll => exact absurd ⟨hConnected, hPoll⟩ hPending
  | timedOut _ hConnected hPoll => exact absurd ⟨hConnected, hPoll⟩ hPending
  | connects _ _ _ hBeat =>
    -- the connection is the last thing heard
    rcases silent_heartbeat hBeat hInterval rfl ⟨hStart, hPolled, hChecked, hDone⟩ hPolled with
      hAwaiting | ⟨hSame, hEarly⟩
    · exact Or.inl hAwaiting
    · rw [hSame]
      dsimp only at hEarly ⊢
      exact Or.inr ⟨hLast, hStarted, by omega, hInterval, by omega⟩
  | connected _ hConnected hBeat =>
    rcases silent_heartbeat hBeat hInterval hConnected ⟨hStart, hPolled, hChecked, hDone⟩
      (by omega) with hAwaiting | ⟨hSame, hEarly⟩
    · exact Or.inl hAwaiting
    · rw [hSame]
      exact Or.inr ⟨hLast, hStarted, by omega, hInterval, by omega⟩

/-- **A call in the silence.** -/
theorem silent_outgoing (h : Silent T t g) (hReads : answers.Between t t') :
    Silent T t' (g.processOutgoing answers).1 := by
  obtain ⟨hStart, hPolled, hChecked, hDone⟩ := hReads
  rcases h.state with hAwaiting | ⟨hLast, hStarted, hResponse⟩
  · have hNext : Awaiting t' (g.processOutgoing answers).1 :=
      (awaiting_outgoing hAwaiting).mono (by omega)
    exact ⟨hNext.interval, Or.inl hNext⟩
  · rcases outgoing_of_silence h.interval hLast hStarted hResponse
      ⟨hStart, hPolled, hChecked, hDone⟩ with hAwaiting | ⟨hLast', hStarted', hResponse', hSame, -⟩
    · exact ⟨hAwaiting.interval, Or.inl (hAwaiting.mono hDone)⟩
    · exact ⟨hSame, Or.inr ⟨hLast', hStarted', hResponse'⟩⟩

/-- **The last echo.** A call 11 s into the silence leaves a request unanswered. -/
theorem awaiting_of_late (h : Silent T t g) (hReads : answers.Between t t')
    (hLate : T + 11000000000 ≤ answers.polledAt) :
    Awaiting answers.sentAt (g.processOutgoing answers).1 := by
  obtain ⟨hStart, hPolled, hChecked, hDone⟩ := hReads
  rcases h.state with hAwaiting | ⟨hLast, hStarted, hResponse⟩
  · exact (awaiting_outgoing hAwaiting).mono (by omega)
  · rcases outgoing_of_silence h.interval hLast hStarted hResponse
      ⟨hStart, hPolled, hChecked, hDone⟩ with hAwaiting | ⟨-, -, -, -, hEarly⟩
    · exact hAwaiting
    · omega

/-- A receive that yields no data closes. -/
theorem closed_of_failed (g : IocGuard) {recvd : Int} (hFailed : recvd ≤ 0) (now : Int) :
    (g.processIncoming recvd now).1.sock = -1 ∧
      (g.processIncoming recvd now).1.heartbeatInterval = g.heartbeatInterval := by
  have hCall := incoming_call g recvd now
  generalize (g.processIncoming recvd now).1 = g', (g.processIncoming recvd now).2 = acts,
    g.readings (.incoming recvd now) = times at hCall ⊢
  cases hCall with
  | closed hClosed => exact ⟨hClosed, rfl⟩
  | data _ hData => omega
  | failed => exact ⟨rfl, rfl⟩

end IocGuard

end PVmapper
