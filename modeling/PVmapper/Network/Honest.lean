import PVmapper.Network.Provenance
import PVmapper.ProtoCa.Replies

/-!
# PVmapper — honest IOCs

When IOCs are honest, so is PVmapper. `Honest` is what the protocol asks of an
IOC: it answers with ids it was sent, and only for names that it serves at the
address it announces, which is the one its datagram comes from with the port of
the first response in it; and its VERSION messages have no payload. With that,
and as long as no more requests came than there are ids, a client that gets a
reply finds in it its own channel and an IOC that serves the name it asked for,
to which PVmapper holds an open connection.

* `Honest`         — what is asked of a datagram of an IOC.
* `replies_honest` — what a client is told.
-/

namespace PVmapper

namespace ChannelAccess

/-- Dropping the zeros at its end does not change a C string. -/
theorem cStr_copyStr (s : Bytes) : cStr (copyStr s) = cStr s := by
  induction s using List.reverseRecOn with
  | nil => rfl
  | append_singleton s x ih =>
    unfold copyStr at *
    rw [List.rdropWhile_concat]
    split
    · next hZero =>
      obtain rfl : x = 0 := by simpa using hZero
      exact ih.trans (cStr_append_nul s 0).symm
    · rfl

end ChannelAccess

namespace Network

open Runs (Run)

variable {ρ : Type*} {regexMatch : ρ → Bytes → Bool} {listeners : List (Listener ρ)}
  {d d' d₀ : Dispatcher} {searchIntervals : List UInt32} {tr : List (Event × Output)}
  {serves : Address → Bytes → Prop}

/-- What a searcher has sent is read as the requests listed. -/
theorem read_of_sent (hInit : Dispatcher.Init searchIntervals d₀)
    (hRun : Run (step regexMatch listeners) d₀ tr d) {k : ℕ} {packet : Packet}
    (hPacket : packet ∈ packetsSent k tr) :
    ChannelAccess.parseSearchRequest packet.msg = packet.pvs.map ChannelAccess.readBack := by
  obtain ⟨x, hx, hHere⟩ := List.mem_flatMap.mp hPacket
  obtain ⟨pre, post, rfl⟩ := List.append_of_mem hx
  obtain ⟨d₁, hPre, hRest⟩ := hRun.split
  obtain ⟨d₂, hStep, -⟩ := Runs.run_cons_iff.mp hRest
  obtain ⟨-, ms, hCarried⟩ := carried_of_packet hInit hPre hStep hHere
  exact ChannelAccess.parse_of_carried hCarried

/-- The datagram an honest IOC sends to the `k`-th searcher after `pre`: its
VERSION headers have no payload, and each of its entries is the answer to a
request that the searcher sent and the IOC read, for a name that is served at
the address the datagram announces. -/
structure Honest (serves : Address → Bytes → Prop) (pre : List (Event × Output)) (k : ℕ)
    (q : Datagram) : Prop where
  plain : ∀ o ∈ ChannelAccess.responseOffsets q.buffer, ChannelAccess.Plain q.buffer o
  answers : ∀ entry ∈ ChannelAccess.parseSearchResponse q.buffer, ∃ packet ∈ packetsSent k pre,
    ∃ r ∈ ChannelAccess.parseSearchRequest packet.msg,
      r.1 = entry.1 ∧ serves (serverOf q) (cStr r.2)

/-- The message tells a client one thing: on this channel, that an IOC which
serves the name is at an address. -/
def Tells (serves : Address → Bytes → Prop) (msg : Bytes) (request : UInt32 × Bytes) (q : InAddr)
    (port : UInt16) : Prop :=
  ∃ rsp, ChannelAccess.parseSearchResponse msg = [(request.1, rsp)] ∧
    (Header.readAt rsp (rsp.length - (Header.size + 8))).dataType = port ∧
    (Header.readAt rsp (rsp.length - (Header.size + 8))).param1 = ChannelAccess.addrNumber q ∧
    serves (inetNtop q, port) (cStr request.2)

/-- An honest entry, for the name it was attributed to, tells a client so. -/
theorem tells_of_received (hInit : Dispatcher.Init searchIntervals d₀)
    (hRun : Run (step regexMatch listeners) d₀ tr d) {pre : List (Event × Output)} {j : ℕ}
    {q : Datagram} {entry request : UInt32 × Bytes} {msg : Bytes}
    (hReceived : Received tr pre j q entry request msg) (hHonest : Honest serves pre j q)
    (hAttributed : Attributed pre j entry request) :
    Tells serves msg request q.remote (serverOf q).2 := by
  obtain ⟨⟨post, rfl⟩, hEntry, rfl⟩ := hReceived
  obtain ⟨d₁, hPre, -⟩ := hRun.split
  obtain ⟨reply, reply', rsp, hAddr, hId, hParse, hPort, hParam⟩ :
      ChannelAccess.Addressed entry.2 (inetNtop q.remote) q.remote (serverOf q).2 request.1 := by
    have hOffset := hEntry
    rw [ChannelAccess.parseSearchResponse_eq] at hOffset
    obtain ⟨o, ho, rfl⟩ := List.mem_map.mp hOffset
    exact (ChannelAccess.addressed_responseEntry_iff ho (inetAton_inetNtop q.remote) _ _).mpr
      (hHonest.plain o ho)
  obtain ⟨packet, hPacket, r, hr, hEq, hServes⟩ := hHonest.answers entry hEntry
  -- the request the IOC read is one the searcher sent under the entry's id
  rw [read_of_sent hInit hPre hPacket] at hr
  obtain ⟨pv, hpv, rfl⟩ := List.mem_map.mp hr
  have hName : request.2 = pv.2 :=
    hAttributed pv.2 (List.mem_flatMap.mpr ⟨packet, hPacket, hEq ▸ hpv⟩)
  refine ⟨rsp, ?_, hPort, hParam, ?_⟩
  · have hRelayed : relayed entry.2 (serverOf q) request.1 = reply' := by
      have hServer : serverOf q = (inetNtop q.remote, (serverOf q).2) := rfl
      rw [relayed, hServer, hAddr, hId]
    rw [hRelayed, hParse]
  · have hC : cStr (ChannelAccess.readBack pv).2 = cStr request.2 := by
      rw [hName]
      exact ChannelAccess.cStr_copyStr pv.2
    exact hC ▸ hServes

/-- **Honest in, honest out.** If every datagram an IOC sent was honest, and no
more than 2^32 permitted requests came, every reply a client gets is for one of
its permitted requests, and reads as a single search response: with the channel
id of that request, and with the address of an IOC that serves the name asked
for and is connected. -/
theorem replies_honest (hInit : Dispatcher.Init searchIntervals d₀)
    (hRun : Run (step regexMatch listeners) d₀ tr d)
    (hHonest : ∀ pre k q post, tr = pre ++ (.iocDatagram k q, .received) :: post →
      Honest serves pre k q)
    (hFew : requestCount regexMatch listeners tr ≤ 2 ^ 32) {k : ℕ} {p : Datagram}
    {sent : List Bytes}
    (hStep : step regexMatch listeners d (.clientDatagram k p) = some (d', .replies sent)) :
    ∃ answered, answered.Sublist (requested regexMatch listeners (.clientDatagram k p)) ∧
      List.Forall₂ (fun request msg => ∃ q port, Tells serves msg request q port ∧
        ∃ (g : GuardId) (guard : IocGuard), d.guards[g]? = some guard ∧
          guard.isConnected = true ∧ guard.getIocAddr = (inetNtop q, port)) answered sent := by
  obtain ⟨block, hBlock, hExplains⟩ := run_of_step hStep
  obtain ⟨hSearches, answered, hSub, hReplies⟩ := explains_client hExplains
  refine ⟨answered, hSub, hReplies.imp fun request msg hReply => ?_⟩
  obtain ⟨pre, j, q, entry, hReceived, ⟨g, guard, hGet, hOpen, hAddr⟩, hAttributed⟩ :=
    received_of_reply hInit hRun hBlock hSearches hReply
  obtain ⟨post, hBefore⟩ := hReceived.before
  exact ⟨q.remote, (serverOf q).2,
    tells_of_received hInit hRun hReceived (hHonest pre j q post hBefore) (hAttributed hFew),
    g, guard, hGet, hOpen, hAddr⟩

/-- One IOC serves one PV. -/
def servesA (addr : Address) (pvname : Bytes) : Prop :=
  addr = (inetNtop ⟨10, 0, 0, 7⟩, 5064) ∧ pvname = [chr 'A']

theorem honest_answer :
    Honest servesA (discoveryTrace.take 2) 0 (answer 1200000000) where
  plain o ho v hVersion := by
    have hOnly : ChannelAccess.responseOffsets (answer 1200000000).buffer = [16] ∧
        ChannelAccess.versionBefore (answer 1200000000).buffer 16 = some 0 := by
      decide +kernel
    rw [hOnly.1, List.mem_singleton] at ho
    rw [ho, hOnly.2, Option.some.injEq] at hVersion
    rw [← hVersion]
    decide +kernel
  answers entry hEntry := by
    have hServer : serverOf (answer 1200000000) = (inetNtop ⟨10, 0, 0, 7⟩, 5064) ∧
        (ChannelAccess.parseSearchResponse (answer 1200000000).buffer).map Prod.fst = [0] := by
      decide +kernel
    have hId : entry.1 ∈ [0] := hServer.2 ▸ List.mem_map_of_mem hEntry
    have hRead : ((0, [chr 'A']) : UInt32 × Bytes) ∈
        ChannelAccess.parseSearchRequest requestPacket.msg := by
      decide +kernel
    exact ⟨requestPacket, List.mem_cons_self, (0, [chr 'A']), hRead,
      (List.mem_singleton.mp hId).symm, hServer.1, by decide +kernel⟩

/-- The client of the discovery is told of the IOC that answered. -/
theorem replies_honest_discovery :
    ∃ d answered, Run (step noMatch [openListener]) Dispatcher.oneSearcher
        (discoveryTrace.take 3) d ∧
      answered.Sublist (requested noMatch [openListener]
        (.clientDatagram 0 (ask 43 1300000000))) ∧
      List.Forall₂ (fun request msg => ∃ q port, Tells servesA msg request q port ∧
        ∃ (g : GuardId) (guard : IocGuard), d.guards[g]? = some guard ∧
          guard.isConnected = true ∧ guard.getIocAddr = (inetNtop q, port)) answered [reply] := by
  obtain ⟨d, d', hFound, hRest⟩ := run_discovery 3
  obtain ⟨d₂, hStep, -⟩ := Runs.run_cons_iff.mp hRest
  have hHonest : ∀ pre k q post,
      discoveryTrace.take 3 = pre ++ (.iocDatagram k q, .received) :: post →
        Honest servesA pre k q := by
    intro pre k q post hEq
    -- the third event is the only datagram of an IOC
    rcases pre with _ | ⟨x, _ | ⟨y, _ | ⟨z, pre⟩⟩⟩
    · exact absurd (List.cons.inj hEq).1 (by simp)
    · exact absurd (List.cons.inj (List.cons.inj hEq).2).1 (by simp)
    · obtain ⟨hFirst, hTail⟩ := List.cons.inj hEq
      obtain ⟨hSecond, hLast⟩ := List.cons.inj hTail
      obtain ⟨hEvent, -⟩ := Prod.mk.inj (List.cons.inj hLast).1
      rw [← hFirst, ← hSecond]
      obtain ⟨rfl, rfl⟩ := Event.iocDatagram.inj hEvent
      exact honest_answer
    · have hLen := congrArg List.length hEq
      simp [discoveryTrace, discovery] at hLen
  have hFew : requestCount noMatch [openListener] (discoveryTrace.take 3) ≤ 2 ^ 32 := by
    decide +kernel
  obtain ⟨answered, hSub, hReplies⟩ :=
    replies_honest Dispatcher.init_oneSearcher hFound hHonest hFew hStep
  exact ⟨d, answered, hFound, hSub, hReplies⟩

end Network

end PVmapper
