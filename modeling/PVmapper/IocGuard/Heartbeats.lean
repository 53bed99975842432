import PVmapper.IocGuard.Calls

/-!
# PVmapper — the heartbeat of an IOC guard

A guard decides on two timestamps. `m_lastRequest` is when it sent its last
echo, and `m_lastResponse` when it last heard of the IOC: when it found the
connection made, or when data came. `m_lastRequest < m_lastResponse` then means
that the last echo is answered, in every state of a run (`Beat`).

* `beat_step`, `beat_run` — the timestamps against the trace.
* `heartbeat_protocol`    — when echoes are sent, and when a guard gives up.
-/

namespace PVmapper

namespace IocGuard

open Runs (Run)

variable {g g' g₀ : IocGuard} {tr : List (Event × Output)} {x : Event × Output}

-- ---------------------------------------------------------------------------
-- What a trace shows
-- ---------------------------------------------------------------------------

/-- The readings of the clock in a trace, in order. -/
def times (tr : List (Event × Output)) : List Int := tr.flatMap fun x => x.2.readings

/-- The clock goes on from reading to reading, and is past its first 11 s. -/
structure Ticking (tr : List (Event × Output)) : Prop where
  increasing : (times tr).Pairwise (· < ·)
  late : ∀ t ∈ times tr, 11000000000 < t

/-- A call sends a message. -/
def Sends (x : Event × Output) : Prop := ∃ msg, .send msg ∈ x.2.acts

/-- When a call sent an echo, if it did and `send` accepted it. -/
def echoedAt (x : Event × Output) : Option Int :=
  match x.1 with
  | .outgoing answers =>
    if (x.2.acts.any fun act => act matches .send _) ∧ 0 < answers.sendret then some answers.sentAt
    else none
  | .incoming _ _ => none

/-- A call receives data. -/
def Receives (x : Event × Output) : Prop :=
  match x.1 with
  | .incoming recvd _ => 0 < recvd ∧ .recv ∈ x.2.acts
  | .outgoing _ => False

instance (x : Event × Output) : Decidable (Receives x) := by
  unfold Receives
  cases x.1 <;> infer_instance

/-- A call finds the connection made. -/
def Connects (x : Event × Output) : Prop :=
  match x.1 with
  | .outgoing answers => .poll ∈ x.2.acts ∧ 0 < answers.pollret
  | .incoming _ _ => False

/-- A call gives up on a missing response, when the clock reads `t`: there is a
connection, and it is closed without a message. -/
def GivesUpAt (t : Int) (x : Event × Output) : Prop :=
  match x.1 with
  | .outgoing answers => t = answers.checkedAt ∧ .disconnectCb ∈ x.2.acts ∧ ¬ Sends x ∧
      (.poll ∈ x.2.acts → 0 < answers.pollret)
  | .incoming _ _ => False

/-- When the last echo was sent, and whether there was data since. -/
def sinceEcho (tr : List (Event × Output)) : Option (Int × Bool) :=
  tr.foldl (fun s x =>
    match echoedAt x with
    | some t => some (t, false)
    | none => if Receives x then s.map fun p => (p.1, true) else s) none

theorem sinceEcho_echo {t : Int} (h : echoedAt x = some t) :
    sinceEcho (tr ++ [x]) = some (t, false) := by
  simp [sinceEcho, h]

theorem sinceEcho_receives (hEcho : echoedAt x = none) (h : Receives x) :
    sinceEcho (tr ++ [x]) = (sinceEcho tr).map fun p => (p.1, true) := by
  simp [sinceEcho, hEcho, h]

theorem sinceEcho_quiet (hEcho : echoedAt x = none) (h : ¬ Receives x) :
    sinceEcho (tr ++ [x]) = sinceEcho tr := by
  simp [sinceEcho, hEcho, h]

/-- Behind an echo that is the last one. -/
theorem sinceEcho_of_last {pre mid : List (Event × Output)} {y : Event × Output} {t : Int}
    (hEcho : echoedAt y = some t) (hLast : ∀ z ∈ mid, echoedAt z = none) :
    sinceEcho (pre ++ y :: mid) = some (t, decide (∃ z ∈ mid, Receives z)) := by
  induction mid using List.reverseRecOn with
  | nil => simpa using sinceEcho_echo hEcho
  | append_singleton mid z ih =>
    have hz := hLast z (by simp)
    have hMid := ih fun z' hz' => hLast z' (List.mem_append_left _ hz')
    rw [show pre ++ y :: (mid ++ [z]) = (pre ++ y :: mid) ++ [z] by simp]
    by_cases hReceives : Receives z
    · rw [sinceEcho_receives hz hReceives, hMid]
      simp [hReceives]
    · rw [sinceEcho_quiet hz hReceives, hMid]
      simp [hReceives]

/-- The echo is in the trace. -/
theorem exists_of_sinceEcho {t : Int} {heard : Bool} (h : sinceEcho tr = some (t, heard)) :
    ∃ pre y mid, tr = pre ++ y :: mid ∧ echoedAt y = some t ∧ (∀ z ∈ mid, echoedAt z = none) ∧
      (heard = false → ∀ z ∈ mid, ¬ Receives z) := by
  induction tr using List.reverseRecOn generalizing heard with
  | nil => exact absurd h (by simp [sinceEcho])
  | append_singleton tr x ih =>
    cases hEcho : echoedAt x with
    | some t' =>
      rw [sinceEcho_echo hEcho, Option.some.injEq, Prod.mk.injEq] at h
      exact ⟨tr, x, [], rfl, h.1 ▸ hEcho, by simp, by simp⟩
    | none =>
      -- the last echo is further back
      by_cases hReceives : Receives x
      · rw [sinceEcho_receives hEcho hReceives] at h
        obtain ⟨⟨t', heard'⟩, hSince, hEq⟩ := Option.map_eq_some_iff.mp h
        rw [Prod.mk.injEq] at hEq
        obtain ⟨rfl, rfl⟩ := hEq
        obtain ⟨pre, y, mid, rfl, hy, hLast, -⟩ := ih hSince
        refine ⟨pre, y, mid ++ [x], by simp, hy, ?_, by simp⟩
        simpa [or_imp, forall_and, hEcho] using hLast
      · rw [sinceEcho_quiet hEcho hReceives] at h
        obtain ⟨pre, y, mid, rfl, hy, hLast, hSilent⟩ := ih h
        refine ⟨pre, y, mid ++ [x], by simp, hy, ?_, fun hHeard => ?_⟩
        · simpa [or_imp, forall_and, hEcho] using hLast
        · simpa [or_imp, forall_and, hReceives] using hSilent hHeard

-- ---------------------------------------------------------------------------
-- The timestamps
-- ---------------------------------------------------------------------------

/-- The timestamps of a guard against the trace so far. -/
structure Beat (tr : List (Event × Output)) (g : IocGuard) : Prop where
  interval : g.heartbeatInterval = 10
  request : g.lastRequest ∈ 0 :: times tr
  response : g.lastResponse ∈ 0 :: times tr
  connected : g.connected = true → (∃ x ∈ tr, Connects x) ∧ 0 < g.lastResponse
  silent : sinceEcho tr = none → g.lastRequest = 0
  echo : ∀ t heard, sinceEcho tr = some (t, heard) →
    g.connected = true ∧ g.lastRequest = t ∧ (heard = true ↔ g.lastRequest < g.lastResponse)

theorem times_append (tr : List (Event × Output)) (x : Event × Output) :
    times (tr ++ [x]) = times tr ++ x.2.readings := by
  simp [times]

theorem mem_times_of_mem {t : Int} (h : t ∈ 0 :: times tr) (x : Event × Output) :
    t ∈ 0 :: times (tr ++ [x]) := by
  rw [times_append]
  rcases List.mem_cons.mp h with rfl | h
  · exact List.mem_cons_self ..
  · exact List.mem_cons_of_mem _ (List.mem_append_left _ h)

theorem mem_times_of_readings {t : Int} (h : t ∈ x.2.readings) (tr : List (Event × Output)) :
    t ∈ 0 :: times (tr ++ [x]) := by
  rw [times_append]
  exact List.mem_cons_of_mem _ (List.mem_append_right _ h)

theorem Ticking.prefix (h : Ticking (tr ++ [x])) : Ticking tr := by
  obtain ⟨hIncreasing, hLate⟩ := h
  rw [times_append] at hIncreasing hLate
  exact ⟨(List.pairwise_append.mp hIncreasing).1, fun t ht => hLate t (List.mem_append_left _ ht)⟩

/-- What a call reads is later than all that was read before. -/
theorem Ticking.later (h : Ticking (tr ++ [x])) {t u : Int} (ht : t ∈ x.2.readings)
    (hu : u ∈ 0 :: times tr) : u < t := by
  obtain ⟨hIncreasing, hLate⟩ := h
  rw [times_append] at hIncreasing hLate
  rcases List.mem_cons.mp hu with rfl | hu
  · have := hLate t (List.mem_append_right _ ht)
    omega
  · exact (List.pairwise_append.mp hIncreasing).2.2 u hu t ht

theorem Ticking.readings (h : Ticking (tr ++ [x])) : x.2.readings.Pairwise (· < ·) := by
  have hIncreasing := h.increasing
  rw [times_append] at hIncreasing
  exact (List.pairwise_append.mp hIncreasing).2.1

/-- A call that leaves the timestamps and the connection alone. -/
theorem Beat.quiet (h : Beat tr g) (hEcho : echoedAt x = none) (hReceives : ¬ Receives x)
    (hInterval : g'.heartbeatInterval = g.heartbeatInterval) (hRequest : g'.lastRequest = g.lastRequest)
    (hResponse : g'.lastResponse = g.lastResponse) (hConnected : g'.connected = g.connected) :
    Beat (tr ++ [x]) g' := by
  refine ⟨hInterval.trans h.interval, ?_, ?_, fun hConnected' => ?_, ?_, ?_⟩
  · rw [hRequest]
    exact mem_times_of_mem h.request x
  · rw [hResponse]
    exact mem_times_of_mem h.response x
  · obtain ⟨⟨y, hy, hConnects⟩, hPos⟩ := h.connected (hConnected ▸ hConnected')
    exact ⟨⟨y, List.mem_append_left _ hy, hConnects⟩, hResponse ▸ hPos⟩
  · rw [sinceEcho_quiet hEcho hReceives, hRequest]
    exact h.silent
  · rw [sinceEcho_quiet hEcho hReceives, hRequest, hResponse, hConnected]
    exact h.echo

/-- A call that finds the connection made, before any echo. -/
theorem Beat.connects (h : Beat tr g) (hPending : g.connected = false) (hClock : Ticking (tr ++ [x]))
    (hEcho : echoedAt x = none) (hReceives : ¬ Receives x) (hConnects : Connects x)
    (hInterval : g'.heartbeatInterval = g.heartbeatInterval) (hRequest : g'.lastRequest = g.lastRequest)
    (hResponse : g'.lastResponse ∈ x.2.readings) : Beat (tr ++ [x]) g' := by
  refine ⟨hInterval.trans h.interval, ?_, mem_times_of_readings hResponse tr, fun _ => ?_, ?_, ?_⟩
  · rw [hRequest]
    exact mem_times_of_mem h.request x
  · exact ⟨⟨x, by simp, hConnects⟩, hClock.later hResponse (List.mem_cons_self ..)⟩
  · rw [sinceEcho_quiet hEcho hReceives, hRequest]
    exact h.silent
  · intro t heard hSince
    rw [sinceEcho_quiet hEcho hReceives] at hSince
    have hConnected := (h.echo t heard hSince).1
    rw [hPending] at hConnected
    exact absurd hConnected (by decide)

/-- A call that sends an echo. -/
theorem Beat.sends (hInterval : g'.heartbeatInterval = 10) (hConnected : g'.connected = true)
    (hConnects : ∃ y ∈ tr ++ [x], Connects y) (hResponse : g'.lastResponse ∈ 0 :: times (tr ++ [x]))
    (hPos : 0 < g'.lastResponse) (hEcho : echoedAt x = some g'.lastRequest)
    (hRead : g'.lastRequest ∈ x.2.readings) (hLater : g'.lastResponse < g'.lastRequest) :
    Beat (tr ++ [x]) g' := by
  refine ⟨hInterval, mem_times_of_readings hRead tr, hResponse, fun _ => ⟨hConnects, hPos⟩, ?_, ?_⟩
  · rw [sinceEcho_echo hEcho]
    simp
  · rw [sinceEcho_echo hEcho]
    intro t heard hSince
    rw [Option.some.injEq, Prod.mk.injEq] at hSince
    obtain ⟨rfl, rfl⟩ := hSince
    refine ⟨hConnected, rfl, ?_⟩
    simp only [Bool.false_eq_true, false_iff]
    omega

theorem beat_incoming (h : Beat tr g) {recvd now : Int} {acts : List GuardAction}
    {readings : List Int} (hCall : Incoming g recvd now g' acts readings)
    (hClock : Ticking (tr ++ [(.incoming recvd now, ⟨acts, readings⟩)])) :
    Beat (tr ++ [(.incoming recvd now, ⟨acts, readings⟩)]) g' := by
  cases hCall with
  | closed hClosed => exact h.quiet rfl (by simp [Receives]) rfl rfl rfl rfl
  | failed hOpen hFailed =>
    exact h.quiet rfl (by simp [Receives, not_lt.mpr hFailed]) rfl rfl rfl rfl
  | data hOpen hData =>
    have hReceives : Receives (.incoming recvd now, ⟨[.recv], [now]⟩) := ⟨hData, by simp⟩
    have hLater : ∀ u ∈ 0 :: times tr, u < now := fun u hu =>
      hClock.later (List.mem_singleton_self now) hu
    refine ⟨h.interval, mem_times_of_mem h.request _,
      mem_times_of_readings (List.mem_singleton_self now) tr, fun hConnected => ?_, ?_, ?_⟩
    · obtain ⟨⟨y, hy, hConnects⟩, -⟩ := h.connected hConnected
      exact ⟨⟨y, List.mem_append_left _ hy, hConnects⟩, hLater 0 (List.mem_cons_self ..)⟩
    · rw [sinceEcho_receives rfl hReceives, Option.map_eq_none_iff]
      exact h.silent
    · intro t heard hSince
      rw [sinceEcho_receives rfl hReceives] at hSince
      obtain ⟨⟨t', heard'⟩, hBefore, hEq⟩ := Option.map_eq_some_iff.mp hSince
      rw [Prod.mk.injEq] at hEq
      obtain ⟨rfl, rfl⟩ := hEq
      obtain ⟨hConnected, hRequest, -⟩ := h.echo t' heard' hBefore
      -- the data came after the echo
      exact ⟨hConnected, hRequest, by simpa using hLater g.lastRequest h.request⟩

theorem beat_outgoing (h : Beat tr g) {answers : Answers} {acts : List GuardAction}
    {readings : List Int} (hCall : Outgoing g answers g' acts readings)
    (hClock : Ticking (tr ++ [(.outgoing answers, ⟨acts, readings⟩)])) :
    Beat (tr ++ [(.outgoing answers, ⟨acts, readings⟩)]) g' := by
  have hReceives : ∀ o, ¬ Receives (.outgoing answers, o) := fun o => id
  cases hCall with
  | closed hClosed => exact h.quiet rfl (hReceives _) rfl rfl rfl rfl
  | connecting hOpen hPending hPoll => exact h.quiet rfl (hReceives _) rfl rfl rfl rfl
  | timedOut hOpen hPending hPoll => exact h.quiet rfl (hReceives _) rfl rfl rfl rfl
  | connected hOpen hConnected hBeat =>
    obtain ⟨⟨y, hy, hConnects⟩, hPos⟩ := h.connected hConnected
    cases hBeat with
    | early hEarly => exact h.quiet rfl (hReceives _) rfl rfl rfl rfl
    | failed hDue hAnswered hFailed =>
      exact h.quiet (by simp [echoedAt, not_lt.mpr hFailed]) (hReceives _) rfl rfl rfl rfl
    | missing hDue hMissing => exact h.quiet rfl (hReceives _) rfl rfl rfl rfl
    | echo hDue hAnswered hSent =>
      have hRead : answers.sentAt ∈ [answers.checkedAt, answers.sentAt] := by simp
      exact Beat.sends h.interval hConnected ⟨y, List.mem_append_left _ hy, hConnects⟩
        (mem_times_of_mem h.response _) hPos (by simp [echoedAt, hSent]) hRead
        (hClock.later hRead h.response)
  | connects hOpen hPending hPoll hBeat =>
    have hConnects : ∀ acts readings,
        Connects (.outgoing answers, ⟨.poll :: acts, readings⟩) := fun acts readings =>
      ⟨List.mem_cons_self .., hPoll⟩
    cases hBeat with
    | early hEarly =>
      exact h.connects hPending hClock rfl (hReceives _) (hConnects _ _) rfl rfl
        (List.mem_cons_self ..)
    | failed hDue hAnswered hFailed =>
      exact h.connects hPending hClock (by simp [echoedAt, not_lt.mpr hFailed]) (hReceives _)
        (hConnects _ _) rfl rfl (List.mem_cons_self ..)
    | missing hDue hMissing =>
      exact h.connects hPending hClock rfl (hReceives _) (hConnects _ _) rfl rfl
        (List.mem_cons_self ..)
    | echo hDue hAnswered hSent =>
      have hOrder := hClock.readings
      simp only [List.pairwise_cons, List.mem_cons] at hOrder
      exact Beat.sends h.interval rfl
        ⟨_, List.mem_append_right _ (List.mem_singleton_self _), hConnects _ _⟩
        (mem_times_of_readings (List.mem_cons_self ..) tr)
        (hClock.later (List.mem_cons_self ..) (List.mem_cons_self ..))
        (by simp [echoedAt, hSent]) (by simp) (hOrder.1 answers.sentAt (by simp))

/-- A step is a call, with what it read. -/
theorem step_eq_some {e : Event} {o : Output} (h : g.step e = some (g', o)) :
    (∃ recvd now, e = .incoming recvd now ∧ Incoming g recvd now g' o.acts o.readings) ∨
      ∃ answers, e = .outgoing answers ∧ Outgoing g answers g' o.acts o.readings := by
  cases e with
  | incoming recvd now =>
    simp only [step, Option.some.injEq, Prod.mk.injEq] at h
    obtain ⟨rfl, rfl⟩ := h
    exact Or.inl ⟨recvd, now, rfl, incoming_call g recvd now⟩
  | outgoing answers =>
    simp only [step, Option.some.injEq, Prod.mk.injEq] at h
    obtain ⟨rfl, rfl⟩ := h
    exact Or.inr ⟨answers, rfl, outgoing_call g answers⟩

theorem beat_step (h : Beat tr g) {e : Event} {o : Output} (hStep : g.step e = some (g', o))
    (hClock : Ticking (tr ++ [(e, o)])) : Beat (tr ++ [(e, o)]) g' := by
  rcases step_eq_some hStep with ⟨recvd, now, rfl, hCall⟩ | ⟨answers, rfl, hCall⟩
  · exact beat_incoming h hCall hClock
  · exact beat_outgoing h hCall hClock

/-- In every state of a run the timestamps tell of the last echo and what came
since. -/
theorem beat_run (hInit : Init g₀) (hRun : Run step g₀ tr g) (hClock : Ticking tr) : Beat tr g := by
  have hBeat : Ticking tr → Beat tr g := by
    refine hRun.history (I := fun tr g => Ticking tr → Beat tr g) ?_ fun _ => ?_
    · intro pre s e s' o h hStep hClock
      exact beat_step (h hClock.prefix) hStep hClock
    · obtain ⟨opening, addr, now, hCreate⟩ := hInit
      unfold create at hCreate
      split at hCreate
      · exact absurd hCreate (by simp)
      · rw [Option.some.injEq] at hCreate
        subst hCreate
        exact ⟨rfl, List.mem_cons_self .., List.mem_cons_self .., by simp, fun _ => rfl,
          by simp [sinceEcho]⟩
  exact hBeat hClock

-- ---------------------------------------------------------------------------
-- The protocol
-- ---------------------------------------------------------------------------

/-- A message is sent on a connection that was found made. -/
theorem connects_of_sends (h : Beat tr g) {e : Event} {o : Output}
    (hStep : g.step e = some (g', o)) (hSends : Sends (e, o)) :
    ∃ y ∈ tr ++ [(e, o)], Connects y := by
  obtain ⟨msg, hMsg⟩ := hSends
  dsimp only at hMsg
  rcases step_eq_some hStep with ⟨recvd, now, rfl, hCall⟩ | ⟨answers, rfl, hCall⟩
  · obtain ⟨acts, readings⟩ := o
    cases hCall <;> simp at hMsg
  · obtain ⟨acts, readings⟩ := o
    cases hCall with
    | closed hClosed => simp at hMsg
    | connecting hOpen hPending hPoll => simp at hMsg
    | timedOut hOpen hPending hPoll => simp at hMsg
    | connects hOpen hPending hPoll hBeat =>
      exact ⟨_, List.mem_append_right _ (List.mem_singleton_self _), List.mem_cons_self .., hPoll⟩
    | connected hOpen hConnected hBeat =>
      obtain ⟨⟨y, hy, hConnects⟩, -⟩ := h.connected hConnected
      exact ⟨y, List.mem_append_left _ hy, hConnects⟩

/-- Behind an echo, a message is sent only after data, and not within 11 s. -/
theorem heard_of_sends (h : Beat tr g) {t : Int} {heard : Bool}
    (hSince : sinceEcho tr = some (t, heard)) {e : Event} {o : Output}
    (hStep : g.step e = some (g', o)) (hClock : Ticking (tr ++ [(e, o)])) (hSends : Sends (e, o)) :
    heard = true ∧ ∀ t', echoedAt (e, o) = some t' → t + 11000000000 ≤ t' := by
  obtain ⟨hConnected, rfl, hHeard⟩ := h.echo t heard hSince
  obtain ⟨msg, hMsg⟩ := hSends
  dsimp only at hMsg
  have hInterval := h.interval
  obtain ⟨acts, readings⟩ := o
  rcases step_eq_some hStep with ⟨recvd, now, rfl, hCall⟩ | ⟨answers, rfl, hCall⟩
  · cases hCall <;> simp at hMsg
  · cases hCall with
    | closed hClosed => simp at hMsg
    | connecting hOpen hPending hPoll => simp at hMsg
    | timedOut hOpen hPending hPoll => simp at hMsg
    | connects hOpen hPending hPoll hBeat =>
      rw [hPending] at hConnected
      exact absurd hConnected (by decide)
    | connected hOpen hConnected' hBeat =>
      cases hBeat with
      | early hEarly => simp at hMsg
      | missing hDue hMissing => simp at hMsg
      | failed hDue hAnswered hFailed =>
        exact ⟨hHeard.mpr hAnswered, by simp [echoedAt, not_lt.mpr hFailed]⟩
      | echo hDue hAnswered hSent =>
        refine ⟨hHeard.mpr hAnswered, fun t' hEcho => ?_⟩
        have hOrder := hClock.readings
        simp only [List.pairwise_cons, List.mem_singleton] at hOrder
        have hLater := hOrder.1 answers.sentAt rfl
        have hEq : answers.sentAt = t' := by simpa [echoedAt, hSent] using hEcho
        rw [hInterval, lt_seconds_iff] at hDue
        omega

/-- A guard gives up on a response that is missing for at least 11 s. -/
theorem missing_of_givesUpAt (h : Beat tr g) {e : Event} {o : Output}
    (hStep : g.step e = some (g', o)) (hClock : Ticking (tr ++ [(e, o)])) {c : Int}
    (hGivesUp : GivesUpAt c (e, o)) :
    ∃ t, sinceEcho tr = some (t, false) ∧ t + 11000000000 ≤ c := by
  have hInterval := h.interval
  obtain ⟨acts, readings⟩ := o
  rcases step_eq_some hStep with ⟨recvd, now, rfl, hCall⟩ | ⟨answers, rfl, hCall⟩
  · exact absurd hGivesUp id
  · obtain ⟨rfl, hCloses, hNoMsg, hPolled⟩ := hGivesUp
    dsimp only at hCloses hPolled hNoMsg
    cases hCall with
    | closed hClosed => simp at hCloses
    | connecting hOpen hPending hPoll => simp at hCloses
    | timedOut hOpen hPending hPoll =>
      have := hPolled (by simp)
      omega
    | connects hOpen hPending hPoll hBeat =>
      cases hBeat with
      | early hEarly => simp at hCloses
      | echo hDue hAnswered hSent => simp at hCloses
      | failed hDue hAnswered hFailed =>
        exact absurd ⟨_, List.mem_cons_of_mem _ (List.mem_cons_self ..)⟩ hNoMsg
      | missing hDue hMissing =>
        -- the connection was found made after all that was read before
        have := hClock.later (List.mem_cons_self ..) h.request
        dsimp only at hMissing
        omega
    | connected hOpen hConnected hBeat =>
      obtain ⟨-, hPos⟩ := h.connected hConnected
      cases hBeat with
      | early hEarly => simp at hCloses
      | echo hDue hAnswered hSent => simp at hCloses
      | failed hDue hAnswered hFailed => exact absurd ⟨_, List.mem_cons_self ..⟩ hNoMsg
      | missing hDue hMissing =>
        rw [hInterval, lt_seconds_iff] at hDue
        cases hSince : sinceEcho tr with
        | none =>
          have := h.silent hSince
          omega
        | some s =>
          obtain ⟨t, heard⟩ := s
          obtain ⟨-, rfl, hHeard⟩ := h.echo t heard hSince
          have hSilent : heard = false := by
            rw [Bool.eq_false_iff, Ne, hHeard]
            omega
          exact ⟨g.lastRequest, by rw [hSilent], by omega⟩

/-- Behind an echo without any data, a call after 11 s leaves the guard closed. -/
theorem closed_of_silence (h : Beat tr g) {t : Int} (hSince : sinceEcho tr = some (t, false))
    {answers : Answers} {o : Output} (hStep : g.step (.outgoing answers) = some (g', o))
    (hLate : t + 11000000000 ≤ answers.checkedAt) : g'.sock = -1 := by
  obtain ⟨hConnected, rfl, hHeard⟩ := h.echo t false hSince
  have hInterval := h.interval
  have hMissing : ¬ g.lastRequest < g.lastResponse := fun hLt => absurd (hHeard.mpr hLt) (by decide)
  obtain ⟨acts, readings⟩ := o
  rcases step_eq_some hStep with ⟨recvd, now, hEq, -⟩ | ⟨answers', hEq, hCall⟩
  · exact absurd hEq (by simp)
  · rw [Event.outgoing.injEq] at hEq
    subst hEq
    cases hCall with
    | closed hClosed => exact hClosed
    | connecting hOpen hPending hPoll =>
      rw [hPending] at hConnected
      exact absurd hConnected (by decide)
    | timedOut hOpen hPending hPoll => rfl
    | connects hOpen hPending hPoll hBeat =>
      rw [hPending] at hConnected
      exact absurd hConnected (by decide)
    | connected hOpen hConnected' hBeat =>
      cases hBeat with
      | early hEarly =>
        rw [hInterval, ← not_lt, lt_seconds_iff] at hEarly
        omega
      | echo hDue hAnswered hSent => exact absurd hAnswered hMissing
      | failed hDue hAnswered hFailed => rfl
      | missing hDue hMissing => rfl

/-- A run at one of its calls: the state before it, and the clock up to it. -/
theorem beat_at (hInit : Init g₀) {pre post : List (Event × Output)}
    (hRun : Run step g₀ (pre ++ x :: post) g) (hClock : Ticking (pre ++ x :: post)) :
    ∃ s s', Beat pre s ∧ s.step x.1 = some (s', x.2) ∧ Run step g₀ (pre ++ [x]) s' ∧
      Ticking (pre ++ [x]) := by
  obtain ⟨s, hPre, hRest⟩ := hRun.split
  obtain ⟨e, o⟩ := x
  obtain ⟨s', hStep, -⟩ := Runs.run_cons_iff.mp hRest
  have hHere : Ticking (pre ++ [(e, o)]) := by
    obtain ⟨hIncreasing, hLate⟩ := hClock
    unfold times at hIncreasing hLate
    rw [show pre ++ (e, o) :: post = (pre ++ [(e, o)]) ++ post by simp, List.flatMap_append]
      at hIncreasing hLate
    exact ⟨(List.pairwise_append.mp hIncreasing).1,
      fun t ht => hLate t (List.mem_append_left _ ht)⟩
  exact ⟨s, s', beat_run hInit hPre hHere.prefix, hStep, hPre.append (Run.single hStep), hHere⟩

/-- **The heartbeat.** In every run of a guard, with a clock that goes on: no
message is sent before the connection is made; behind an echo no other is sent
before data has come, nor within 11 s; the guard gives up on a response only
11 s after an echo and with no data since; and when there was none, a call
after 11 s leaves it closed. -/
theorem heartbeat_protocol (hInit : Init g₀) (hRun : Run step g₀ tr g) (hClock : Ticking tr) :
    (∀ pre x post, tr = pre ++ x :: post → Sends x → ∃ y ∈ pre ++ [x], Connects y) ∧
      (∀ pre y mid x post t, tr = (pre ++ y :: mid) ++ x :: post → echoedAt y = some t →
        (∀ z ∈ mid, echoedAt z = none) → Sends x →
        (∃ z ∈ mid, Receives z) ∧ ∀ t', echoedAt x = some t' → t + 11000000000 ≤ t') ∧
      (∀ pre x post c, tr = pre ++ x :: post → GivesUpAt c x →
        ∃ before y mid t, pre = before ++ y :: mid ∧ echoedAt y = some t ∧
          t + 11000000000 ≤ c ∧ ∀ z ∈ mid, echoedAt z = none ∧ ¬ Receives z) ∧
      ∀ pre y mid answers o post t s, tr = (pre ++ y :: mid) ++ (.outgoing answers, o) :: post →
        echoedAt y = some t → (∀ z ∈ mid, echoedAt z = none ∧ ¬ Receives z) →
        t + 11000000000 ≤ answers.checkedAt →
        Run step g₀ ((pre ++ y :: mid) ++ [(.outgoing answers, o)]) s → s.sock = -1 := by
  refine ⟨?_, ?_, ?_, ?_⟩
  · rintro pre ⟨e, o⟩ post rfl hSends
    obtain ⟨s, s', hBeat, hStep, -, -⟩ := beat_at hInit hRun hClock
    exact connects_of_sends hBeat hStep hSends
  · rintro pre y mid ⟨e, o⟩ post t rfl hEcho hLast hSends
    obtain ⟨s, s', hBeat, hStep, -, hHere⟩ := beat_at hInit hRun hClock
    have hHeard := heard_of_sends hBeat (sinceEcho_of_last hEcho hLast) hStep hHere hSends
    exact ⟨of_decide_eq_true hHeard.1, hHeard.2⟩
  · rintro pre ⟨e, o⟩ post c rfl hGivesUp
    obtain ⟨s, s', hBeat, hStep, -, hHere⟩ := beat_at hInit hRun hClock
    obtain ⟨t, hSince, hLate⟩ := missing_of_givesUpAt hBeat hStep hHere hGivesUp
    obtain ⟨before, y, mid, hEq, hEcho, hLast, hSilent⟩ := exists_of_sinceEcho hSince
    exact ⟨before, y, mid, t, hEq, hEcho, hLate, fun z hz => ⟨hLast z hz, hSilent rfl z hz⟩⟩
  · rintro pre y mid answers o post t s rfl hEcho hSilent hLate hEnd
    obtain ⟨s₁, s', hBeat, hStep, hRun', -⟩ := beat_at hInit hRun hClock
    obtain rfl := hEnd.unique hRun'
    have hSince := @sinceEcho_of_last pre mid y t hEcho fun z hz => (hSilent z hz).1
    rw [decide_eq_false fun ⟨z, hz, hReceives⟩ => (hSilent z hz).2 hReceives] at hSince
    exact closed_of_silence hBeat hSince hStep hLate

/-- A guard as its constructor leaves it. -/
def opened : IocGuard where
  sock := 5
  ip := inetNtop ⟨10, 0, 0, 7⟩
  port := 5064
  started := 11500000000
  lastRequest := 0
  lastResponse := 0
  heartbeatInterval := 10
  connected := false
  initialized := false

theorem init_opened : Init opened :=
  ⟨⟨5, true, true⟩, (inetNtop ⟨10, 0, 0, 7⟩, 5064), 11500000000, by decide +kernel⟩

/-- Connected and an echo at 12.2 s, answered; the next echo at 23.4 s is not. -/
def lostResponse : List (Event × Output) :=
  [(.outgoing ⟨1, 12000000000, 12100000000, 32, 12200000000⟩,
      ⟨[.poll, .send (ChannelAccess.createEchoRequest true)],
        [12000000000, 12100000000, 12200000000]⟩),
    (.incoming 16 12300000000, ⟨[.recv], [12300000000]⟩),
    (.outgoing ⟨1, 0, 23300000000, 16, 23400000000⟩,
      ⟨[.send (ChannelAccess.createEchoRequest false)], [23300000000, 23400000000]⟩),
    (.outgoing ⟨1, 0, 34500000000, 16, 0⟩, ⟨[.disconnectCb], [34500000000]⟩)]

theorem ticking_lostResponse : Ticking lostResponse := ⟨by decide +kernel, by decide +kernel⟩

theorem run_lostResponse : ∃ g, Run step opened lostResponse g := by
  have hExec : Runs.exec step opened (lostResponse.map Prod.fst) =
      some (lostResponse, { opened with
        sock := -1
        connected := true
        initialized := true
        lastRequest := 23400000000
        lastResponse := 12300000000 }) := by decide +kernel
  exact ⟨_, Runs.run_of_exec _ hExec⟩

/-- The second echo is not answered, and the next call after 11 s closes. -/
theorem heartbeat_lostResponse : ∃ g, Run step opened lostResponse g ∧ g.sock = -1 := by
  obtain ⟨g, hRun⟩ := run_lostResponse
  refine ⟨g, hRun, ?_⟩
  exact (heartbeat_protocol init_opened hRun ticking_lostResponse).2.2.2 (lostResponse.take 2) _ []
    _ _ [] 23400000000 _ rfl rfl (by simp) (by decide) hRun

end IocGuard

end PVmapper
