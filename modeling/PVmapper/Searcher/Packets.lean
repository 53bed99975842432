import PVmapper.ProtoCa.Requests
import PVmapper.Searcher.Entries
import PVmapper.Searcher.Schedule
import PVmapper.Searcher.Tick

/-!
# PVmapper — packets on the wire

What a searcher sends is bytes; what an IOC makes of them is what it reads
out of the bytes. Read back, the packets of a tick ask for the due PVs, each
once and in order, as far as a name can be told from its zero padding; and
none of them is longer than a datagram may be.

* `Carried`, `parse_of_carried` — a packet, and what is read back from it.
* `parse_eq_pvs_iff`            — the packets PVmapper reads back unchanged.
* `cRequests_eq_pvs_iff`        — the packets a reader in C does.
* `carried_of_sends`            — every packet of a tick is one.
* `carried_of_run`              — and every packet of a run.
* `readTicks_eq`                — the ticks of a run, read off its packets.
-/

namespace PVmapper

/-- The request a reader in C finds in a message: the name ends at the first
NUL. -/
def Message.cRequest (m : Message) : UInt32 × Bytes := (m.header.param1, cStr m.payload)

namespace ChannelAccess

/-- A name and the zeros behind it are read back without the zeros. -/
theorem copyStr_append_zeros (s : Bytes) (n : ℕ) :
    copyStr (s ++ List.replicate n 0) = copyStr s := by
  induction n with
  | zero => rw [List.replicate_zero, List.append_nil]
  | succ n ih =>
    rw [List.replicate_succ', ← List.append_assoc]
    unfold copyStr at *
    rw [List.rdropWhile_concat_pos _ _ _ (by simp), ih]

/-- What is read back of a request. -/
def readBack (pv : UInt32 × Bytes) : UInt32 × Bytes := (pv.1, copyStr pv.2)

theorem request_of_carries {pv : UInt32 × Bytes} {m : Message} (h : Carries pv m) :
    m.request = some (readBack pv) := by
  obtain ⟨n, hPayload⟩ := h.payload
  rw [request_eq, if_pos h.command, h.param1, hPayload, copyStr_append_zeros, readBack]

/-- The packet is the VERSION message and a message for each of its PVs, of
which only the last begins past the first 1000 bytes. -/
structure Carried (packet : Packet) (ms : List Message) : Prop where
  msg : packet.msg = Message.encodeAll (Message.version :: ms)
  carries : List.Forall₂ Carries packet.pvs ms
  ne : packet.pvs ≠ []
  fits : (Message.encodeAll (Message.version :: ms.dropLast)).length ≤ 1000

theorem filterMap_readBack {pvs : List (UInt32 × Bytes)} {ms : List Message}
    (h : List.Forall₂ Carries pvs ms) : ms.filterMap Message.request = pvs.map readBack := by
  induction h with
  | nil => rfl
  | cons hHere _ ih => rw [List.filterMap_cons_some (request_of_carries hHere), ih, List.map_cons]

/-- A packet is read back request by request. -/
theorem parse_of_carried {packet : Packet} {ms : List Message} (h : Carried packet ms) :
    parseSearchRequest packet.msg = packet.pvs.map readBack := by
  have hParse := parseSearchRequest_encodeAll (Message.version :: ms) []
  rw [List.append_nil, ← h.msg, parseSearchRequest_nil, List.append_nil] at hParse
  rw [hParse, List.filterMap_cons_none rfl, filterMap_readBack h.carries]

theorem map_eq_self_iff {α : Type*} {f : α → α} {l : List α} :
    l.map f = l ↔ ∀ x ∈ l, f x = x := by
  have hInj := List.map_inj_left (l := l) (f := f) (g := id)
  rwa [List.map_id] at hInj

theorem copyStr_eq_self_iff {s : Bytes} : copyStr s = s ↔ s.getLast? ≠ some 0 := by
  rw [copyStr, List.rdropWhile_eq_self_iff]
  constructor
  · intro hLast hNul
    obtain ⟨front, rfl⟩ := List.getLast?_eq_some_iff.mp hNul
    exact hLast (by simp) (by simp)
  · intro hNul hne hLast
    exact hNul (by rw [List.getLast?_eq_getLast_of_ne_nil hne]; simpa using hLast)

/-- **Read back unchanged** is a packet of which no name ends in a NUL. -/
theorem parse_eq_pvs_iff {packet : Packet} {ms : List Message} (h : Carried packet ms) :
    parseSearchRequest packet.msg = packet.pvs ↔ ∀ pv ∈ packet.pvs, pv.2.getLast? ≠ some 0 := by
  rw [parse_of_carried h, map_eq_self_iff]
  refine forall₂_congr fun pv _ => ?_
  rw [readBack, Prod.ext_iff, ← copyStr_eq_self_iff]
  exact and_iff_right rfl

/-- The name in a message, as a C string, is the PV's own. -/
theorem cRequests_of_carries {pvs : List (UInt32 × Bytes)} {ms : List Message}
    (h : List.Forall₂ Carries pvs ms) :
    ms.map Message.cRequest = pvs.map fun pv => (pv.1, cStr pv.2) := by
  induction h with
  | nil => rfl
  | cons hHere _ ih =>
    obtain ⟨n, hPayload⟩ := hHere.payload
    rw [List.map_cons, List.map_cons, ih, Message.cRequest, hHere.param1, hPayload, cStr_append_nul]

/-- A reader in C reads a packet back unchanged if no name has a NUL in it. -/
theorem cRequests_eq_pvs_iff {packet : Packet} {ms : List Message} (h : Carried packet ms) :
    ms.map Message.cRequest = packet.pvs ↔ ∀ pv ∈ packet.pvs, 0 ∉ pv.2 := by
  rw [cRequests_of_carries h.carries, map_eq_self_iff]
  refine forall₂_congr fun pv _ => ?_
  rw [Prod.ext_iff, ← cStr_eq_self_iff]
  exact and_iff_right rfl

/-- The last message of a packet is the one that makes it long. -/
theorem length_createLoop_le {pvs : List (UInt32 × Bytes)} {buffer msg : Bytes} {n nPvs m : ℕ}
    (h : createLoop pvs buffer n = some (msg, nPvs)) (hBuffer : buffer.length ≤ 1000)
    (hNames : ∀ pv ∈ pvs, pv.2.length ≤ m) : msg.length ≤ 1024 + m := by
  induction pvs generalizing buffer n with
  | nil =>
    obtain ⟨rfl, -⟩ := Prod.mk.inj (Option.some.inj h)
    omega
  | cons pv pvs ih =>
    unfold createLoop at h
    split at h
    · exact absurd h (by simp)
    · next message hMsg =>
      -- header, name, a NUL and at most 7 bytes to the next word
      have hLen : message.length ≤ m + 24 := by
        have hName := hNames pv (List.mem_cons_self ..)
        rw [length_searchMessage hMsg]
        unfold payloadLen Header.size
        omega
      dsimp only at h
      split at h
      · obtain ⟨rfl, -⟩ := Prod.mk.inj (Option.some.inj h)
        rw [List.length_append]
        omega
      · next hShort =>
        exact ih h (by omega) fun pv hpv => hNames pv (List.mem_cons_of_mem _ hpv)

end ChannelAccess

namespace Searcher

open ChannelAccess

/-- What a call sends is what its packets list. -/
theorem sends_of_processOutgoing {s s' : Searcher} {now : Int} {packets : List Packet}
    (h : s.processOutgoing now = some (s', packets)) :
    Sends packets (packets.flatMap Packet.pvs) := by
  unfold processOutgoing at h
  split at h
  · obtain ⟨-, rfl⟩ := Prod.mk.inj (Option.some.inj h)
    rfl
  · have hSends := sends_of_tick h
    rwa [← (tick_eq_some h).2.2.2.2] at hSends

/-- Every packet that sends names short enough is a `Carried` one. -/
theorem carried_of_sends {packets : List Packet} {pvs : List (UInt32 × Bytes)}
    (h : Sends packets pvs) {m : ℕ} (hm : m < 65528) (hNames : ∀ pv ∈ pvs, pv.2.length ≤ m) :
    ∀ packet ∈ packets, packet.msg.length ≤ 1024 + m ∧ ∃ ms, Carried packet ms := by
  induction packets generalizing pvs with
  | nil => exact fun packet hPacket => absurd hPacket List.not_mem_nil
  | cons packet packets ih =>
    obtain ⟨nPvs, hPos, hCreate, hPvs, hRest⟩ := h
    have hShort : ∀ pv ∈ pvs, pv.2.length < 65528 := fun pv hpv => (hNames pv hpv).trans_lt hm
    rw [List.forall_mem_cons]
    refine ⟨⟨length_createLoop_le hCreate (by decide) hNames, ?_⟩,
      ih hRest fun pv hpv => hNames pv (List.mem_of_mem_drop hpv)⟩
    obtain ⟨ms, hLoop, hBatch⟩ := createLoop_of_short hShort Header.version.encode (by decide) 0
    obtain ⟨hMsg, hCount⟩ := Prod.mk.inj (Option.some.inj (hLoop.symm.trans hCreate))
    rw [Nat.zero_add] at hCount
    have hMs : ms ≠ [] := by
      rintro rfl
      exact absurd hCount hPos.ne
    refine ⟨ms, hMsg.symm, ?_, fun hNil => hMs ?_, hBatch.fits hMs⟩
    · rw [hPvs, ← hCount]
      exact hBatch.carries
    · have hLen := hBatch.carries.length_eq
      rw [hCount, ← hPvs, hNil, List.length_nil, ← hCount] at hLen
      exact List.length_eq_zero_iff.mp hLen.symm

-- ---------------------------------------------------------------------------
-- Runs
-- ---------------------------------------------------------------------------

variable {s s' : Searcher} {tr : List (Event × Output)} {m : ℕ}

/-- No name that is searched for at the start or added in the run is longer
than `m`. -/
structure Short (m : ℕ) (s : Searcher) (tr : List (Event × Output)) : Prop where
  searched : ∀ pvname, s.Searched pvname → pvname.length ≤ m
  added : ∀ x ∈ tr, ∀ now pvname, x.1 = .addPV now pvname → pvname.length ≤ m

/-- Every packet of a run with names short enough is a `Carried` one. -/
theorem carried_of_run (hRun : Runs.Run step s tr s') (hInv : Inv s) (hShort : Short m s tr)
    (hm : m < 65528) {e : Event} {ticked : Bool} {packets : List Packet}
    (hMem : (e, .sent ticked packets) ∈ tr) :
    ∀ packet ∈ packets, packet.msg.length ≤ 1024 + m ∧ ∃ ms, Carried packet ms := by
  obtain ⟨pre, post, rfl⟩ := List.append_of_mem hMem
  obtain ⟨s₁, hBefore, hRest⟩ := hRun.split
  obtain ⟨s₂, hStep, -⟩ := Runs.run_cons_iff.mp hRest
  obtain ⟨now, -, hOut⟩ := outgoing_of_step hStep
  refine carried_of_sends (sends_of_processOutgoing hOut) hm fun pv hPv => ?_
  -- the name was there at the start or added before the call
  obtain ⟨q, hq, rfl⟩ := exists_content_of_sent hOut hPv
  rcases searched_run hBefore hInv ⟨q, hq, rfl⟩ with hStart | ⟨x, hx, now', hAdd⟩
  · exact hShort.searched _ hStart
  · exact hShort.added x (List.mem_append_left _ hx) now' _ hAdd

/-- The names that each tick of a trace is read to ask for. -/
def readTicks (tr : List (Event × Output)) : List (List Bytes) :=
  tr.filterMap fun x =>
    match x.2 with
    | .sent true packets =>
      some ((packets.flatMap fun packet => parseSearchRequest packet.msg).map Prod.snd)
    | _ => none

theorem flatMap_parse_of_carried {packets : List Packet}
    (h : ∀ packet ∈ packets, ∃ ms, Carried packet ms) :
    (packets.flatMap fun packet => parseSearchRequest packet.msg).map Prod.snd =
      ((packets.flatMap Packet.pvs).map Prod.snd).map copyStr := by
  induction packets with
  | nil => rfl
  | cons packet packets ih =>
    rw [List.forall_mem_cons] at h
    obtain ⟨⟨ms, hCarried⟩, hRest⟩ := h
    have hHere : (parseSearchRequest packet.msg).map Prod.snd =
        (packet.pvs.map Prod.snd).map copyStr := by
      rw [parse_of_carried hCarried, List.map_map, List.map_map]
      rfl
    rw [List.flatMap_cons, List.flatMap_cons, List.map_append, List.map_append, List.map_append,
      hHere, ih hRest]

/-- **The ticks of a run, read off its packets,** ask for the names that the
ticks list, as far as a name can be told from its zero padding. -/
theorem readTicks_eq (hRun : Runs.Run step s tr s') (hInv : Inv s) (hShort : Short m s tr)
    (hm : m < 65528) : readTicks tr = (ticks tr).map (List.map copyStr) := by
  unfold readTicks ticks
  rw [List.map_filterMap]
  refine List.filterMap_congr fun x hx => ?_
  obtain ⟨e, o⟩ := x
  cases o with
  | sent ticked packets =>
    cases ticked with
    | false => rfl
    | true =>
      have hCarried := carried_of_run hRun hInv hShort hm hx
      show some _ = some _
      rw [flatMap_parse_of_carried fun packet hPacket => (hCarried packet hPacket).2]
  | _ => rfl

end Searcher

end PVmapper
