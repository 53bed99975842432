import PVmapper.IocGuard.Heartbeats
import PVmapper.ProtoCa.Chain

/-!
# PVmapper — how an IOC guard introduces itself

The first echo is to come with a VERSION header. `sendHeartBeat` puts one in
front while `m_initialized` is false, and `processIncoming` sets that with
whatever data it receives. An IOC that sends something as soon as it accepts
the connection gets an echo without a VERSION header, and never one with it.

* `greeting_run`   — what the messages of a run are.
* `introduced_iff` — exactly which runs start with a VERSION header.
* `not_introduced` — an IOC that speaks first.
-/

namespace PVmapper

namespace IocGuard

open ChannelAccess (createEchoRequest)
open Runs (Run)

variable {g g' g₀ : IocGuard} {tr : List (Event × Output)} {x : Event × Output}

-- ---------------------------------------------------------------------------
-- What a trace shows
-- ---------------------------------------------------------------------------

/-- The messages among these actions. -/
def messagesOf (acts : List GuardAction) : List Bytes :=
  acts.filterMap fun act =>
    match act with
    | .send msg => some msg
    | _ => none

/-- The messages a guard sent, in order. -/
def sent (tr : List (Event × Output)) : List Bytes := tr.flatMap fun x => messagesOf x.2.acts

/-- Data came before the first message was sent. -/
def EarlyData (tr : List (Event × Output)) : Prop :=
  ∃ pre x post, tr = pre ++ x :: post ∧ sent pre = [] ∧ messagesOf x.2.acts ≠ [] ∧
    ∃ y ∈ pre, Receives y

theorem sent_append (tr : List (Event × Output)) (x : Event × Output) :
    sent (tr ++ [x]) = sent tr ++ messagesOf x.2.acts := by
  simp [sent]

theorem EarlyData.sent_ne (h : EarlyData tr) : sent tr ≠ [] := by
  obtain ⟨pre, x, post, rfl, -, hSends, -⟩ := h
  simp [sent, hSends]

/-- The first message decides, and no later call. -/
theorem earlyData_append_iff (tr : List (Event × Output)) (x : Event × Output) :
    EarlyData (tr ++ [x]) ↔
      EarlyData tr ∨ sent tr = [] ∧ messagesOf x.2.acts ≠ [] ∧ ∃ y ∈ tr, Receives y := by
  constructor
  · rintro ⟨pre, y, post, hEq, hSilent, hSends, hData⟩
    rcases List.eq_nil_or_concat post with rfl | ⟨post, z, rfl⟩
    · -- the call that sends is the last one
      obtain ⟨rfl, hLast⟩ := List.append_inj' hEq rfl
      rw [List.singleton_inj] at hLast
      exact Or.inr ⟨hSilent, hLast ▸ hSends, hData⟩
    · rw [List.concat_eq_append, ← List.cons_append, ← List.append_assoc] at hEq
      obtain ⟨rfl, -⟩ := List.append_inj' hEq rfl
      exact Or.inl ⟨pre, y, post, rfl, hSilent, hSends, hData⟩
  · rintro (⟨pre, y, post, rfl, hSilent, hSends, hData⟩ | ⟨hSilent, hSends, hData⟩)
    · exact ⟨pre, y, post ++ [x], by simp, hSilent, hSends, hData⟩
    · exact ⟨tr, x, [], rfl, hSilent, hSends, hData⟩

theorem exists_receives_append_iff (tr : List (Event × Output)) (x : Event × Output) :
    (∃ y ∈ tr ++ [x], Receives y) ↔ (∃ y ∈ tr, Receives y) ∨ Receives x := by
  simp [or_and_right, exists_or]

-- ---------------------------------------------------------------------------
-- Messages
-- ---------------------------------------------------------------------------

/-- A guard against its messages so far: `m_initialized` tells whether data
came; the first message has a VERSION header unless data came before it; and
behind it a guard sends nothing with a VERSION header any more, because it is
initialized, or waits for data, or is closed. -/
structure Greeting (tr : List (Event × Output)) (g : IocGuard) : Prop where
  initialized : g.initialized = true ↔ ∃ x ∈ tr, Receives x
  response : g.connected = true → g.lastResponse ∈ times tr
  settled : sent tr ≠ [] →
    g.sock = -1 ∨ g.initialized = true ∨ (g.connected = true ∧ g.lastResponse ≤ g.lastRequest)
  first : ∀ msg rest, sent tr = msg :: rest →
    (msg = createEchoRequest true ∧ ¬ EarlyData tr ∨ msg = createEchoRequest false ∧ EarlyData tr) ∧
      ∀ msg' ∈ rest, msg' = createEchoRequest false

theorem mem_times_append {t : Int} (h : t ∈ times tr) (x : Event × Output) :
    t ∈ times (tr ++ [x]) := by
  rw [times_append]
  exact List.mem_append_left _ h

/-- A call that sends nothing. -/
theorem Greeting.silent (h : Greeting tr g) (hSilent : messagesOf x.2.acts = [])
    (hInitialized : g'.initialized = true ↔ g.initialized = true ∨ Receives x)
    (hResponse : g'.connected = true → g'.lastResponse ∈ times (tr ++ [x]))
    (hSettled : sent tr ≠ [] → g'.sock = -1 ∨ g'.initialized = true ∨
      (g'.connected = true ∧ g'.lastResponse ≤ g'.lastRequest)) :
    Greeting (tr ++ [x]) g' := by
  have hSent : sent (tr ++ [x]) = sent tr := by
    rw [sent_append, hSilent, List.append_nil]
  have hEarly : EarlyData (tr ++ [x]) ↔ EarlyData tr := by
    rw [earlyData_append_iff]
    simp [hSilent]
  refine ⟨?_, hResponse, ?_, ?_⟩
  · rw [exists_receives_append_iff, hInitialized, h.initialized]
  · rw [hSent]
    exact hSettled
  · rw [hSent, hEarly]
    exact h.first

/-- A call that leaves alone what decides on the next message. -/
theorem Greeting.quiet (h : Greeting tr g) (hSilent : messagesOf x.2.acts = [])
    (hReceives : ¬ Receives x) (hInitialized : g'.initialized = g.initialized)
    (hConnected : g'.connected = g.connected) (hRequest : g'.lastRequest = g.lastRequest)
    (hResponse : g'.lastResponse = g.lastResponse) (hSock : g'.sock = g.sock ∨ g'.sock = -1) :
    Greeting (tr ++ [x]) g' := by
  refine h.silent hSilent ?_ ?_ ?_
  · rw [hInitialized]
    simp [hReceives]
  · rw [hConnected, hResponse]
    exact fun hConnected' => mem_times_append (h.response hConnected') x
  · rw [hInitialized, hConnected, hRequest, hResponse]
    intro hSent
    rcases hSock with hSock | hSock
    · rw [hSock]
      exact h.settled hSent
    · exact Or.inl hSock

/-- A call that sends an echo: the first message, or one behind data. -/
theorem Greeting.sends (h : Greeting tr g)
    (hMsg : messagesOf x.2.acts = [createEchoRequest (!g.initialized)]) (hReceives : ¬ Receives x)
    (hNext : sent tr ≠ [] → g.initialized = true) (hInitialized : g'.initialized = g.initialized)
    (hResponse : g'.connected = true → g'.lastResponse ∈ times (tr ++ [x]))
    (hSettled : g'.sock = -1 ∨ (g'.connected = true ∧ g'.lastResponse ≤ g'.lastRequest)) :
    Greeting (tr ++ [x]) g' := by
  have hSent : sent (tr ++ [x]) = sent tr ++ [createEchoRequest (!g.initialized)] := by
    rw [sent_append, hMsg]
  refine ⟨?_, hResponse, fun _ => ?_, fun msg rest hEq => ?_⟩
  · rw [exists_receives_append_iff, hInitialized, h.initialized]
    simp [hReceives]
  · exact hSettled.imp_right Or.inr
  · rw [hSent] at hEq
    cases hBefore : sent tr with
    | nil =>
      -- the first message tells whether there was data before it
      rw [hBefore, List.nil_append, List.cons.injEq] at hEq
      obtain ⟨rfl, rfl⟩ := hEq
      have hNone : ¬ EarlyData tr := fun hEarly => hEarly.sent_ne hBefore
      have hEarly : EarlyData (tr ++ [x]) ↔ g.initialized = true := by
        rw [earlyData_append_iff, h.initialized]
        simp [hNone, hBefore, hMsg]
      refine ⟨?_, by simp⟩
      rw [hEarly]
      cases g.initialized <;> simp
    | cons msg₀ rest₀ =>
      rw [hBefore, List.cons_append, List.cons.injEq] at hEq
      obtain ⟨rfl, rfl⟩ := hEq
      obtain ⟨hFirst, hRest⟩ := h.first _ _ hBefore
      have hEarly : EarlyData (tr ++ [x]) ↔ EarlyData tr := by
        rw [earlyData_append_iff]
        simp [hBefore]
      refine ⟨by rwa [hEarly], fun msg' hMsg' => ?_⟩
      rcases List.mem_append.mp hMsg' with hMsg' | hMsg'
      · exact hRest msg' hMsg'
      · rw [List.mem_singleton.mp hMsg', hNext (by simp [hBefore])]
        rfl

theorem greeting_incoming (h : Greeting tr g) {recvd now : Int} {acts : List GuardAction}
    {readings : List Int} (hCall : Incoming g recvd now g' acts readings) :
    Greeting (tr ++ [(.incoming recvd now, ⟨acts, readings⟩)]) g' := by
  cases hCall with
  | closed hClosed => exact h.quiet rfl (by simp [Receives]) rfl rfl rfl rfl (Or.inl rfl)
  | failed hOpen hFailed =>
    exact h.quiet rfl (by simp [Receives, not_lt.mpr hFailed]) rfl rfl rfl rfl (Or.inr rfl)
  | data hOpen hData =>
    refine h.silent rfl (by simp [Receives, hData]) (fun _ => ?_) fun _ => Or.inr (Or.inl rfl)
    rw [times_append]
    exact List.mem_append_right _ (List.mem_singleton_self now)

/-- The readings of the last call are not before any other. -/
theorem le_of_times_append (hClock : (times (tr ++ [x])).Pairwise (· ≤ ·)) {t u : Int}
    (ht : t ∈ x.2.readings) (hu : u ∈ times tr) : u ≤ t := by
  rw [times_append] at hClock
  exact (List.pairwise_append.mp hClock).2.2 u hu t ht

theorem greeting_outgoing (h : Greeting tr g) {answers : Answers} {acts : List GuardAction}
    {readings : List Int} (hCall : Outgoing g answers g' acts readings)
    (hClock : (times (tr ++ [(.outgoing answers, ⟨acts, readings⟩)])).Pairwise (· ≤ ·)) :
    Greeting (tr ++ [(.outgoing answers, ⟨acts, readings⟩)]) g' := by
  have hReceives : ∀ o, ¬ Receives (.outgoing answers, o) := fun o => id
  cases hCall with
  | closed hClosed => exact h.quiet rfl (hReceives _) rfl rfl rfl rfl (Or.inl rfl)
  | connecting hOpen hPending hPoll =>
    exact h.quiet rfl (hReceives _) rfl rfl rfl rfl (Or.inl rfl)
  | timedOut hOpen hPending hPoll =>
    exact h.quiet rfl (hReceives _) rfl rfl rfl rfl (Or.inr rfl)
  | connected hOpen hConnected hBeat =>
    -- a guard that has sent a message and is not initialized has no response
    have hNext : g.lastRequest < g.lastResponse → sent tr ≠ [] → g.initialized = true := by
      intro hAnswered hSent
      rcases h.settled hSent with hClosed | hInitialized | ⟨-, hWaits⟩
      · exact absurd hClosed hOpen
      · exact hInitialized
      · omega
    have hTimes : ∀ x, g.lastResponse ∈ times (tr ++ [x]) :=
      fun x => mem_times_append (h.response hConnected) x
    cases hBeat with
    | early hEarly => exact h.quiet rfl (hReceives _) rfl rfl rfl rfl (Or.inl rfl)
    | missing hDue hMissing => exact h.quiet rfl (hReceives _) rfl rfl rfl rfl (Or.inr rfl)
    | failed hDue hAnswered hFailed =>
      exact h.sends rfl (hReceives _) (hNext hAnswered) rfl (fun _ => hTimes _) (Or.inl rfl)
    | echo hDue hAnswered hSent =>
      refine h.sends rfl (hReceives _) (hNext hAnswered) rfl (fun _ => hTimes _)
        (Or.inr ⟨hConnected, ?_⟩)
      exact le_of_times_append hClock (by simp) (h.response hConnected)
  | connects hOpen hPending hPoll hBeat =>
    have hNext : sent tr ≠ [] → g.initialized = true := by
      intro hSent
      rcases h.settled hSent with hClosed | hInitialized | ⟨hConnected, -⟩
      · exact absurd hClosed hOpen
      · exact hInitialized
      · rw [hPending] at hConnected
        exact absurd hConnected (by decide)
    have hTimes : ∀ readings acts, answers.polledAt ∈
        times (tr ++ [(.outgoing answers, ⟨acts, answers.polledAt :: readings⟩)]) := by
      intro readings acts
      rw [times_append]
      exact List.mem_append_right _ (List.mem_cons_self ..)
    cases hBeat with
    | early hEarly =>
      exact h.silent rfl (by simp [Receives]) (fun _ => hTimes _ _)
        fun hSent => Or.inr (Or.inl (hNext hSent))
    | missing hDue hMissing =>
      exact h.silent rfl (by simp [Receives]) (fun _ => hTimes _ _) fun _ => Or.inl rfl
    | failed hDue hAnswered hFailed =>
      exact h.sends rfl (hReceives _) hNext rfl (fun _ => hTimes _ _) (Or.inl rfl)
    | echo hDue hAnswered hSent =>
      refine h.sends rfl (hReceives _) hNext rfl (fun _ => hTimes _ _) (Or.inr ⟨rfl, ?_⟩)
      rw [times_append] at hClock
      have hOrder := (List.pairwise_append.mp hClock).2.1
      simp only [List.pairwise_cons, List.mem_cons] at hOrder
      exact hOrder.1 answers.sentAt (by simp)

/-- In every state of a run. -/
theorem greeting_run (hInit : Init g₀) (hRun : Run step g₀ tr g)
    (hClock : (times tr).Pairwise (· ≤ ·)) : Greeting tr g := by
  have hGreeting : (times tr).Pairwise (· ≤ ·) → Greeting tr g := by
    refine hRun.history (I := fun tr g => (times tr).Pairwise (· ≤ ·) → Greeting tr g) ?_ fun _ => ?_
    · intro pre s e s' o h hStep hHere
      have hPre : (times pre).Pairwise (· ≤ ·) := by
        rw [times_append] at hHere
        exact (List.pairwise_append.mp hHere).1
      rcases step_eq_some hStep with ⟨recvd, now, rfl, hCall⟩ | ⟨answers, rfl, hCall⟩
      · exact greeting_incoming (h hPre) hCall
      · exact greeting_outgoing (h hPre) hCall hHere
    · obtain ⟨opening, addr, now, hCreate⟩ := hInit
      unfold create at hCreate
      split at hCreate
      · exact absurd hCreate (by simp)
      · rw [Option.some.injEq] at hCreate
        subst hCreate
        exact ⟨by simp, by simp, fun hSent => absurd rfl hSent, by simp [sent]⟩
  exact hGreeting hClock

-- ---------------------------------------------------------------------------
-- Introductions
-- ---------------------------------------------------------------------------

/-- A message with a VERSION header on its chain. -/
def ContainsVersion (msg : Bytes) : Prop :=
  ∃ o ∈ ChannelAccess.messages msg, (Header.readAt msg o).command = cmdVersion

/-- The first message is a VERSION header and an ECHO header, and no later one
contains a VERSION header. -/
def Introduced (msgs : List Bytes) : Prop :=
  ∀ msg rest, msgs = msg :: rest →
    msg = Header.version.encode ++ Header.encode ⟨cmdEcho, 0, 0, 0, 0, 0⟩ ∧
      ∀ msg' ∈ rest, ¬ ContainsVersion msg'

theorem not_containsVersion_echo : ¬ ContainsVersion (createEchoRequest false) := by
  have hOnly : ChannelAccess.messages (createEchoRequest false) = [0] := by decide +kernel
  rintro ⟨o, ho, hVersion⟩
  rw [hOnly, List.mem_singleton] at ho
  subst ho
  exact absurd hVersion (by decide +kernel)

/-- **A guard introduces itself, exactly when** no data comes from the IOC
before it sends its first message, in a run with a clock that never goes
back. -/
theorem introduced_iff (hInit : Init g₀) (hRun : Run step g₀ tr g)
    (hClock : (times tr).Pairwise (· ≤ ·)) : Introduced (sent tr) ↔ ¬ EarlyData tr := by
  have hGreeting := greeting_run hInit hRun hClock
  have hDiffer : createEchoRequest false ≠ createEchoRequest true := by decide +kernel
  constructor
  · intro hIntroduced hEarly
    obtain ⟨msg, rest, hSent⟩ := List.exists_cons_of_ne_nil hEarly.sent_ne
    rcases (hGreeting.first msg rest hSent).1 with ⟨-, hNot⟩ | ⟨hMsg, -⟩
    · exact hNot hEarly
    · exact hDiffer (hMsg.symm.trans (hIntroduced msg rest hSent).1)
  · intro hNot msg rest hSent
    obtain ⟨hFirst, hRest⟩ := hGreeting.first msg rest hSent
    rcases hFirst with ⟨hMsg, -⟩ | ⟨-, hEarly⟩
    · refine ⟨hMsg, fun msg' hMsg' => ?_⟩
      rw [hRest msg' hMsg']
      exact not_containsVersion_echo
    · exact absurd hEarly hNot

/-- An IOC that waits for the guard gets an introduction. -/
theorem introduced_lostResponse : Introduced (sent lostResponse) := by
  obtain ⟨g, hRun⟩ := run_lostResponse
  refine (introduced_iff init_opened hRun (ticking_lostResponse.increasing.imp le_of_lt)).mpr ?_
  rintro ⟨pre, x, post, hEq, hSilent, -, y, hy, -⟩
  cases pre with
  | nil => exact absurd hy (by simp)
  | cons z pre =>
    obtain ⟨rfl, -⟩ := List.cons.inj hEq
    exact absurd hSilent (by simp [sent, messagesOf])

/-- 16 bytes come at 12 s, and the connection is found made at 12.1 s. -/
def speaksFirst : List (Event × Output) :=
  [(.incoming 16 12000000000, ⟨[.recv], [12000000000]⟩),
    (.outgoing ⟨1, 12100000000, 12200000000, 16, 12300000000⟩,
      ⟨[.poll, .send (createEchoRequest false)], [12100000000, 12200000000, 12300000000]⟩)]

/-- An IOC that speaks first gets an echo without a VERSION header. -/
theorem not_introduced :
    Init opened ∧ (∃ g, Run step opened speaksFirst g) ∧ Ticking speaksFirst ∧
      ¬ Introduced (sent speaksFirst) := by
  have hExec : Runs.exec step opened (speaksFirst.map Prod.fst) =
      some (speaksFirst, { opened with
        connected := true
        initialized := true
        lastRequest := 12300000000
        lastResponse := 12100000000 }) := by decide +kernel
  refine ⟨init_opened, ⟨_, Runs.run_of_exec _ hExec⟩, ⟨by decide +kernel, by decide +kernel⟩, ?_⟩
  intro hIntroduced
  have hSent : sent speaksFirst = [createEchoRequest false] := rfl
  exact absurd (hIntroduced _ _ hSent).1 (by decide +kernel)

end IocGuard

end PVmapper
