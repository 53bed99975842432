import PVmapper.ProtoCa.Chain

/-!
# PVmapper — replies to clients

A search response is cut out of an IOC's datagram behind a copy of the nearest
VERSION header. The searcher then writes the IOC's address into it, the
listener the client's channel id, and the client parses it.

The copy is the VERSION header alone, with its length field as received. When
that is 0 all walkers step from it to the SEARCH header behind it. Otherwise
they land beyond the SEARCH header (`not_addressed_of_version`): the reply
still carries the internal id, and a client finds no response in it.

* `addressed_of_replyAt` — what the updates do to a reply all walkers agree on.
* `port_updateSearchReplyAddr` — which port any reply carries afterwards.
* `addressed_responseEntry_iff`, `addressed_iff` — exactly which replies are
  addressed to the client.
-/

namespace PVmapper

open Wire

namespace ChannelAccess

/-- The 32-bit number whose bytes, in order, are the address. -/
def addrNumber (q : InAddr) : UInt32 := u32 q.a q.b q.c q.d

/-- The reply `rsp` reaches the right channel: both updates find the SEARCH
header, and the client gets one response, with its own id `chanId` and with
the IOC's address. -/
def Addressed (rsp iocIp : Bytes) (q : InAddr) (iocPort : UInt16) (chanId : UInt32) : Prop :=
  ∃ reply reply' rsp', updateSearchReplyAddr rsp iocIp iocPort = (reply, true) ∧
    updateSearchReplyId reply chanId = (reply', true) ∧
    parseSearchResponse reply' = [(chanId, rsp')] ∧
    (Header.readAt rsp' (rsp'.length - (Header.size + 8))).dataType = iocPort ∧
    (Header.readAt rsp' (rsp'.length - (Header.size + 8))).param1 = addrNumber q

variable {buffer reply : Bytes} {o : ℕ} {fields : List (ℕ × Bytes)}

-- ---------------------------------------------------------------------------
-- A search response at the end of a buffer
-- ---------------------------------------------------------------------------

/-- The buffer ends with a search response, at offset `o`. -/
structure ReplyAt (reply : Bytes) (o : ℕ) : Prop where
  length : reply.length = o + 24
  command : (Header.readAt reply o).command = cmdSearch
  payloadLen : (Header.readAt reply o).payloadLen = 8
  dataCount : (Header.readAt reply o).dataCount = 0

theorem ReplyAt.writeFields (h : ReplyAt reply o) (hSteady : Steady fields) :
    ReplyAt (writeFields reply o fields) o := by
  obtain ⟨hCommand, hLen, hCount⟩ := readAt_writeFields reply o hSteady
  exact ⟨(length_writeFields ..).trans h.length, hCommand.trans h.command, hLen.trans h.payloadLen,
    hCount.trans h.dataCount⟩

/-- An update that gets to the response writes to it and ends. -/
theorem ReplyAt.updateLoop (h : ReplyAt reply o) (hSteady : Steady fields) (updated : Bool) :
    updateLoop fields reply o updated = (ChannelAccess.writeFields reply o fields, true) := by
  have hSize : Header.size = 16 := rfl
  have hLen := h.length
  rw [updateLoop_search hSteady (by omega) h.command, h.payloadLen, updateLoop_end]
  rw [length_writeFields, show UInt16.toNat 8 = 8 from rfl]
  omega

/-- A parser that gets to the response returns it and ends. -/
theorem ReplyAt.searchResponseLoop (h : ReplyAt reply o) (version : Option ℕ) :
    searchResponseLoop reply o version = [responseEntry reply version o] := by
  have hSize : Header.size = 16 := rfl
  have hLen := h.length
  have hNext : o + Header.size + (Header.readAt reply o).payloadLen.toNat = o + 24 := by
    rw [h.payloadLen]
    rfl
  -- the response is the last message of the walk
  have hMessages : messagesFrom reply o = [o] := by
    rw [messagesFrom_of_le (by omega), hNext, messagesFrom_of_lt (by omega)]
  have hResponse : isSearchResponse reply o :=
    ⟨h.command, by rw [hNext, hLen], h.payloadLen, h.dataCount⟩
  rw [searchResponseLoop_eq, hMessages, List.filter_cons_of_pos (by rwa [decide_eq_true_eq]),
    List.filter_nil, List.map_singleton, lastVersion_of_le (by simp), Option.none_or]

-- ---------------------------------------------------------------------------
-- What the two updates leave
-- ---------------------------------------------------------------------------

/-- The reply after both updates have written to the response at `o`. -/
def addressedReply (reply : Bytes) (o : ℕ) (iocIp : Bytes) (iocPort : UInt16) (chanId : UInt32) :
    Bytes :=
  writeFields (writeFields reply o (addrFields iocIp iocPort)) o (idFields chanId)

variable {iocIp : Bytes} {q : InAddr} {iocPort : UInt16} {chanId : UInt32}

theorem readAt_addressedReply (h : ReplyAt reply o) (hIp : inetAton iocIp = some q)
    (iocPort : UInt16) (chanId : UInt32) :
    (Header.readAt (addressedReply reply o iocIp iocPort chanId) o).dataType = iocPort ∧
      (Header.readAt (addressedReply reply o iocIp iocPort chanId) o).param1 = addrNumber q ∧
      (Header.readAt (addressedReply reply o iocIp iocPort chanId) o).param2 = chanId := by
  have hLen := h.length
  have hReply : addressedReply reply o iocIp iocPort chanId =
      patch (patch (patch reply (o + 4) (bytes16 iocPort)) (o + 8) q.bytes) (o + 12)
        (bytes32 chanId) := by
    unfold addressedReply addrFields
    rw [hIp]
    rfl
  -- three writes to disjoint fields: the one looked at is found, and the
  -- others do not touch it
  rw [hReply]
  refine ⟨?_, ?_, ?_⟩
  · show get16 _ (o + 4) = _
    rw [get16_patch_of_disjoint (by omega), get16_patch_of_disjoint (by omega),
      get16_patch_self _ (by omega)]
  · show get32 _ (o + 8) = _
    rw [get32_patch_of_disjoint (by omega)]
    have hAt : ∀ i < 4, (patch (patch reply (o + 4) (bytes16 iocPort)) (o + 8) q.bytes).getD
        (o + 8 + i) 0 = q.bytes.getD i 0 := fun i hi =>
      getD_patch_self 0 (by simpa using hi) (by simp; omega)
    have h0 := hAt 0 (by omega)
    rw [Nat.add_zero] at h0
    rw [get32, h0, hAt 1 (by omega), hAt 2 (by omega), hAt 3 (by omega)]
    rfl
  · show get32 _ (o + 12) = _
    exact get32_patch_self _ (by simp; omega)

theorem ReplyAt.addressedReply (h : ReplyAt reply o) (iocIp : Bytes) (iocPort : UInt16)
    (chanId : UInt32) : ReplyAt (addressedReply reply o iocIp iocPort chanId) o :=
  (h.writeFields (steady_addrFields iocIp iocPort)).writeFields (steady_idFields chanId)

/-- The entry of a response at the end of a buffer ends with the response's
own header and payload. -/
theorem readAt_responseEntry (h : ReplyAt reply o) (version : Option ℕ) :
    Header.readAt (responseEntry reply version o).2
        ((responseEntry reply version o).2.length - (Header.size + 8)) = Header.readAt reply o := by
  have hSlice : (slice reply o (Header.size + 8)).length = Header.size + 8 := by
    have hLen := h.length
    have hSize : Header.size = 16 := rfl
    rw [slice, List.length_take, List.length_drop]
    omega
  unfold responseEntry
  dsimp only
  rw [List.length_append, hSlice, Nat.add_sub_cancel]
  refine readAt_congr fun i hi => ?_
  rw [List.getD_append_right _ _ _ _ (by omega), Nat.add_sub_cancel_left, slice,
    List.getD_eq_getElem?_getD, List.getD_eq_getElem?_getD, List.getElem?_take_of_lt (by
      have hSize : Header.size = 16 := rfl
      omega), List.getElem?_drop]

/-- A reply in which all walkers get from offset 0 to the response at its end
is addressed to the client. -/
theorem addressed_of_replyAt (h : ReplyAt reply o) (hIp : inetAton iocIp = some q)
    (version : Option ℕ)
    (hUpdate : ∀ fields r, Steady fields → ReplyAt r o →
      (∀ i < o, r.getD i 0 = reply.getD i 0) →
      ChannelAccess.updateLoop fields r 0 false = ChannelAccess.updateLoop fields r o false)
    (hParse : ∀ r, ReplyAt r o → (∀ i < o, r.getD i 0 = reply.getD i 0) →
      ChannelAccess.searchResponseLoop r 0 none = ChannelAccess.searchResponseLoop r o version)
    (iocPort : UInt16) (chanId : UInt32) : Addressed reply iocIp q iocPort chanId := by
  have hAddr := steady_addrFields iocIp iocPort
  have hId := steady_idFields chanId
  have h₁ := h.writeFields hAddr
  have h₂ := h.addressedReply iocIp iocPort chanId
  -- neither update writes in front of the response
  have hSame₁ : ∀ i < o, (ChannelAccess.writeFields reply o (addrFields iocIp iocPort)).getD i 0 =
      reply.getD i 0 := fun i hi => getD_writeFields hAddr (by omega)
  have hSame₂ : ∀ i < o, (ChannelAccess.addressedReply reply o iocIp iocPort chanId).getD i 0 =
      reply.getD i 0 := fun i hi => (getD_writeFields hId (by omega)).trans (hSame₁ i hi)
  obtain ⟨hPort, hParam1, hParam2⟩ := readAt_addressedReply h hIp iocPort chanId
  refine ⟨ChannelAccess.writeFields reply o (addrFields iocIp iocPort),
    ChannelAccess.addressedReply reply o iocIp iocPort chanId,
    (responseEntry (ChannelAccess.addressedReply reply o iocIp iocPort chanId) version o).2,
    ?_, ?_, ?_, ?_, ?_⟩
  · rw [updateSearchReplyAddr, hUpdate _ _ hAddr h fun _ _ => rfl, h.updateLoop hAddr]
  · rw [updateSearchReplyId, hUpdate _ _ hId h₁ hSame₁, h₁.updateLoop hId]
    rfl
  · rw [parseSearchResponse, hParse _ h₂ hSame₂, h₂.searchResponseLoop]
    unfold responseEntry
    rw [hParam2]
  · rw [readAt_responseEntry h₂, hPort]
  · rw [readAt_responseEntry h₂, hParam1]

-- ---------------------------------------------------------------------------
-- The entries of a datagram
-- ---------------------------------------------------------------------------

/-- An entry has the response's own header, behind the copied VERSION header. -/
theorem readAt_versionHead_length (buffer : Bytes) (version : Option ℕ) (o : ℕ) :
    Header.readAt (responseEntry buffer version o).2 (versionHead buffer version).length =
      Header.readAt buffer o := by
  have hSize : Header.size = 16 := rfl
  refine readAt_congr fun i hi => ?_
  unfold responseEntry
  dsimp only
  rw [List.getD_append_right _ _ _ _ (by omega), Nat.add_sub_cancel_left, slice,
    List.getD_eq_getElem?_getD, List.getD_eq_getElem?_getD,
    List.getElem?_take_of_lt (by omega), List.getElem?_drop]

/-- An entry is the copied VERSION header, if any, and a response behind it. -/
theorem replyAt_responseEntry (ho : o ∈ responseOffsets buffer) (version : Option ℕ) :
    ReplyAt (responseEntry buffer version o).2 (versionHead buffer version).length := by
  obtain ⟨⟨hCommand, -, hLen, hCount⟩, hFit⟩ := bound_of_mem_responseOffsets ho
  have hSize : Header.size = 16 := rfl
  have hHeader := readAt_versionHead_length buffer version o
  refine ⟨?_, by rw [hHeader, hCommand], by rw [hHeader, hLen], by rw [hHeader, hCount]⟩
  unfold responseEntry slice
  dsimp only
  rw [List.length_append, List.length_take, List.length_drop]
  omega

/-- The copied VERSION header is the one in the datagram. -/
theorem readAt_versionHead {v : ℕ} (hv : v + Header.size ≤ buffer.length) (o : ℕ) :
    (versionHead buffer (some v)).length = 16 ∧
      Header.readAt (responseEntry buffer (some v) o).2 0 = Header.readAt buffer v := by
  have hSize : Header.size = 16 := rfl
  have hLen : (versionHead buffer (some v)).length = 16 := by
    unfold versionHead slice
    rw [List.length_take, List.length_drop]
    omega
  refine ⟨hLen, readAt_congr fun i hi => ?_⟩
  unfold responseEntry
  dsimp only
  rw [Nat.zero_add, List.getD_append _ _ _ _ (by omega), versionHead, slice,
    List.getD_eq_getElem?_getD, List.getD_eq_getElem?_getD,
    List.getElem?_take_of_lt (by omega), List.getElem?_drop]

-- ---------------------------------------------------------------------------
-- The port
-- ---------------------------------------------------------------------------

theorem dataType_writeFields (h : o + 6 ≤ reply.length) (iocIp : Bytes) (iocPort : UInt16) :
    (Header.readAt (writeFields reply o (addrFields iocIp iocPort)) o).dataType = iocPort := by
  show get16 _ (o + 4) = iocPort
  unfold addrFields
  cases inetAton iocIp with
  | none => exact get16_patch_self _ (by omega)
  | some q =>
    show get16 (patch (patch reply (o + 4) (bytes16 iocPort)) (o + 8) q.bytes) (o + 4) = iocPort
    rw [get16_patch_of_disjoint (by omega), get16_patch_self _ (by omega)]

/-- One byte into a search response there is no SEARCH header. -/
theorem ReplyAt.command_succ (h : ReplyAt reply o) :
    (Header.readAt reply (o + 1)).command ≠ cmdSearch := by
  have hCommand : u16 (reply.getD o 0) (reply.getD (o + 1) 0) = 6 := h.command
  have hLen : u16 (reply.getD (o + 2) 0) (reply.getD (o + 2 + 1) 0) = 8 := h.payloadLen
  intro hEq
  have hNext : u16 (reply.getD (o + 1) 0) (reply.getD (o + 1 + 1) 0) = 6 := hEq
  have hBytes : ∀ i, (reply.getD i 0).toNat < 256 := fun i => (reply.getD i 0).toNat_lt
  have hb0 := hBytes o
  have hb1 := hBytes (o + 1)
  have hb2 := hBytes (o + 2)
  have hb3 := hBytes (o + 2 + 1)
  rw [u16, ← UInt16.toNat_inj, UInt16.toNat_ofNat'] at hCommand hLen hNext
  rw [show o + 1 + 1 = o + 2 by omega] at hNext
  rw [show UInt16.toNat 6 = 6 from rfl] at hCommand hNext
  rw [show UInt16.toNat 8 = 8 from rfl] at hLen
  omega

/-- Behind a VERSION header the update finds the response and writes the port,
or leaves the port alone. -/
theorem port_of_version (h : ReplyAt reply 16)
    (hCommand : (Header.readAt reply 0).command = cmdVersion) (iocIp : Bytes) (iocPort : UInt16) :
    (Header.readAt (updateSearchReplyAddr reply iocIp iocPort).1 16).dataType = iocPort ∨
      (Header.readAt (updateSearchReplyAddr reply iocIp iocPort).1 16).dataType =
        (Header.readAt reply 16).dataType := by
  have hSize : Header.size = 16 := rfl
  have hLength := h.length
  have hAddr := steady_addrFields iocIp iocPort
  unfold updateSearchReplyAddr
  rw [updateLoop_other (by omega) (by rw [hCommand]; decide), hSize, Nat.zero_add]
  -- the port's bytes are in front of everything that is written
  have hKeep : ∀ q updated, 18 ≤ q →
      (Header.readAt (ChannelAccess.updateLoop (addrFields iocIp iocPort) reply q updated).1
        16).dataType = (Header.readAt reply 16).dataType := fun q updated hq =>
    get16_congr fun i hi => getD_updateLoop_of_lt hAddr (by omega)
  generalize (Header.readAt reply 0).payloadLen.toNat = len
  obtain rfl | rfl | hMore : len = 0 ∨ len = 1 ∨ 2 ≤ len := by omega
  · left
    rw [h.updateLoop hAddr]
    exact dataType_writeFields (by omega) iocIp iocPort
  · right
    rw [updateLoop_other (by omega) h.command_succ]
    exact hKeep _ _ (by omega)
  · exact Or.inr (hKeep _ _ (by omega))

/-- The reply made of the response at `o` carries the port written, or the
response's own. -/
theorem port_updateSearchReplyAddr (ho : o ∈ responseOffsets buffer) (iocIp : Bytes)
    (iocPort : UInt16) {rsp : Bytes}
    (hRsp : rsp = (updateSearchReplyAddr (responseEntry buffer (versionBefore buffer o) o).2 iocIp
      iocPort).1) :
    (Header.readAt rsp (rsp.length - (Header.size + 8))).dataType = iocPort ∨
      (Header.readAt rsp (rsp.length - (Header.size + 8))).dataType =
        (Header.readAt buffer o).dataType := by
  have hSize : Header.size = 16 := rfl
  have hReply := replyAt_responseEntry ho (versionBefore buffer o)
  have hOwn := readAt_versionHead_length buffer (versionBefore buffer o) o
  have hEnd : rsp.length - (Header.size + 8) = (versionHead buffer (versionBefore buffer o)).length := by
    rw [hRsp, updateSearchReplyAddr, length_updateLoop, hReply.length]
    omega
  rw [hEnd, hRsp, ← hOwn]
  cases hVersion : versionBefore buffer o with
  | none =>
    -- without a VERSION header the response comes first
    have hHead : (versionHead buffer none).length = 0 := rfl
    rw [hVersion, hHead] at hReply
    left
    rw [hHead, updateSearchReplyAddr, hReply.updateLoop (steady_addrFields iocIp iocPort)]
    have hLength := hReply.length
    exact dataType_writeFields (by omega) iocIp iocPort
  | some v =>
    obtain ⟨-, hCommand, hFit⟩ := of_versionBefore_eq_some hVersion
    obtain ⟨hHead, hHeader⟩ := readAt_versionHead hFit o
    rw [hVersion, hHead] at hReply
    rw [hHead]
    exact port_of_version hReply (by rw [hHeader, hCommand]) iocIp iocPort

/-- With its length field 0, the VERSION header in front is stepped over. -/
theorem addressed_of_version (h : ReplyAt reply 16) (hIp : inetAton iocIp = some q)
    (hCommand : (Header.readAt reply 0).command = cmdVersion)
    (hLen : (Header.readAt reply 0).payloadLen = 0) (iocPort : UInt16) (chanId : UInt32) :
    Addressed reply iocIp q iocPort chanId := by
  have hSize : Header.size = 16 := rfl
  have hHeader : ∀ r, (∀ i < 16, r.getD i 0 = reply.getD i 0) →
      Header.readAt r 0 = Header.readAt reply 0 := by
    intro r hSame
    refine readAt_congr fun i hi => ?_
    rw [Nat.zero_add]
    exact hSame i hi
  -- so every walk goes on at the response, right behind the 16 bytes copied
  have hNext : ∀ r, (∀ i < 16, r.getD i 0 = reply.getD i 0) →
      0 + Header.size + (Header.readAt r 0).payloadLen.toNat = 16 := by
    intro r hSame
    rw [hHeader r hSame, hLen]
    rfl
  refine addressed_of_replyAt h hIp (some 0) ?_ ?_ iocPort chanId
  · intro fields r hSteady hr hSame
    have hLength := hr.length
    rw [updateLoop_other (by omega) ?_, hNext r hSame]
    rw [hHeader r hSame, hCommand]
    decide
  · intro r hr hSame
    have hLength := hr.length
    conv_lhs => rw [ChannelAccess.searchResponseLoop]
    rw [if_pos (by omega)]
    dsimp only
    rw [if_pos (by rw [hHeader r hSame, hCommand]), hNext r hSame]

/-- Otherwise the walkers land beyond the SEARCH header, and a client finds
nothing. -/
theorem not_addressed_of_version (h : ReplyAt reply 16)
    (hCommand : (Header.readAt reply 0).command = cmdVersion)
    (hLen : (Header.readAt reply 0).payloadLen ≠ 0) (iocPort : UInt16) (chanId : UInt32) :
    ¬ Addressed reply iocIp q iocPort chanId := by
  have hSize : Header.size = 16 := rfl
  -- a length that is not 0 takes the walk past offset 16, where the response is
  have hPos : 0 < (Header.readAt reply 0).payloadLen.toNat := by
    rw [Nat.pos_iff_ne_zero]
    intro h0
    exact hLen (UInt16.toNat_inj.mp h0)
  -- an update leaves the header at offset 0 alone
  have hUpdate : ∀ fields r, Steady fields → r.length = 40 →
      Header.readAt r 0 = Header.readAt reply 0 →
      (ChannelAccess.updateLoop fields r 0 false).1.length = 40 ∧
        Header.readAt (ChannelAccess.updateLoop fields r 0 false).1 0 = Header.readAt reply 0 := by
    intro fields r hSteady hLength hSame
    refine ⟨by rw [length_updateLoop, hLength], ?_⟩
    rw [updateLoop_other (by omega) (by rw [hSame, hCommand]; decide), ← hSame]
    refine readAt_congr fun i hi => ?_
    rw [Nat.zero_add]
    exact getD_updateLoop_of_lt hSteady (by omega)
  -- and the parser gets no complete response behind it
  have hParse : ∀ r, r.length = 40 → Header.readAt r 0 = Header.readAt reply 0 →
      parseSearchResponse r = [] := by
    intro r hLength hSame
    rw [parseSearchResponse_eq, List.map_eq_nil_iff, List.eq_nil_iff_forall_not_mem]
    intro p hp
    obtain ⟨hResponse, hFit⟩ := bound_of_mem_responseOffsets hp
    have hMem := List.mem_of_mem_filter hp
    rw [messages, messagesFrom_of_le (by omega)] at hMem
    rcases List.mem_cons.mp hMem with rfl | hMem
    · exact not_isSearchResponse_of_version (by rw [hSame, hCommand]) hResponse
    · have hLe := (bound_of_mem_messagesFrom hMem).1
      rw [hSame] at hLe
      omega
  -- both updates keep the header, so re-parsing the result yields no entry
  intro hAddressed
  obtain ⟨reply₁, reply₂, rsp', hAddr, hId, hParsed, -⟩ := hAddressed
  obtain ⟨hLength₁, hSame₁⟩ :=
    hUpdate (addrFields iocIp iocPort) reply (steady_addrFields _ _) h.length rfl
  have hEq₁ : (ChannelAccess.updateLoop (addrFields iocIp iocPort) reply 0 false).1 = reply₁ := by
    rw [updateSearchReplyAddr] at hAddr
    rw [hAddr]
  rw [hEq₁] at hLength₁ hSame₁
  obtain ⟨hLength₂, hSame₂⟩ := hUpdate (idFields chanId) reply₁ (steady_idFields _) hLength₁ hSame₁
  have hEq₂ : (ChannelAccess.updateLoop (idFields chanId) reply₁ 0 false).1 = reply₂ := by
    rw [updateSearchReplyId] at hId
    rw [hId]
  rw [hEq₂] at hLength₂ hSame₂
  rw [hParse reply₂ hLength₂ hSame₂] at hParsed
  exact absurd hParsed (by simp)

/-- The nearest VERSION header before the response at `o`, if there is one,
announces no payload. -/
def Plain (buffer : Bytes) (o : ℕ) : Prop :=
  ∀ v, versionBefore buffer o = some v → (Header.readAt buffer v).payloadLen = 0

/-- What is cut out for the response at `o` is addressed to the client exactly
when the VERSION header it is cut out with announces no payload. -/
theorem addressed_responseEntry_iff (ho : o ∈ responseOffsets buffer)
    (hIp : inetAton iocIp = some q) (iocPort : UInt16) (chanId : UInt32) :
    Addressed (responseEntry buffer (versionBefore buffer o) o).2 iocIp q iocPort chanId ↔
      Plain buffer o := by
  have hReply := replyAt_responseEntry ho (versionBefore buffer o)
  cases hVersion : versionBefore buffer o with
  | none =>
    rw [hVersion] at hReply
    -- without a VERSION header the entry is the response alone
    refine iff_of_true ?_ ?_
    · exact addressed_of_replyAt hReply hIp none (fun _ _ _ _ _ => rfl) (fun _ _ _ => rfl) iocPort
        chanId
    · intro v hv
      rw [hVersion] at hv
      exact absurd hv (by simp)
  | some v =>
    obtain ⟨-, hCommand, hFit⟩ := of_versionBefore_eq_some hVersion
    obtain ⟨hHead, hHeader⟩ := readAt_versionHead hFit o
    -- with one, the entry is its 16 bytes and then the response
    rw [hVersion, hHead] at hReply
    rw [← hHeader] at hCommand
    constructor
    · intro hAddressed v' hv'
      rw [hVersion, Option.some.injEq] at hv'
      rw [← hv', ← hHeader]
      by_contra hLen
      exact not_addressed_of_version hReply hCommand hLen iocPort chanId hAddressed
    · intro hPlain
      have hZero := hPlain v hVersion
      rw [← hHeader] at hZero
      exact addressed_of_version hReply hIp hCommand hZero iocPort chanId

/-- **Which replies reach the right channel.** The reply made of the `k`-th
search response of a datagram is addressed to the client exactly when the
nearest VERSION header before that response, if there is one, has length 0. -/
theorem addressed_iff {k : ℕ} {id : UInt32} {rsp : Bytes}
    (hEntry : (parseSearchResponse buffer)[k]? = some (id, rsp))
    (hIp : inetAton iocIp = some q) (iocPort : UInt16) (chanId : UInt32) :
    Addressed rsp iocIp q iocPort chanId ↔
      ∀ o v, (responseOffsets buffer)[k]? = some o → versionBefore buffer o = some v →
        (Header.readAt buffer v).payloadLen = 0 := by
  rw [parseSearchResponse_eq, List.getElem?_map] at hEntry
  obtain ⟨o, hOffset, hEq⟩ := Option.map_eq_some_iff.mp hEntry
  obtain rfl : (responseEntry buffer (versionBefore buffer o) o).2 = rsp := by rw [hEq]
  rw [addressed_responseEntry_iff (List.mem_of_getElem? hOffset) hIp]
  constructor
  · intro hPlain o' v hOffset' hVersion
    rw [hOffset, Option.some.injEq] at hOffset'
    exact hPlain v (hOffset' ▸ hVersion)
  · intro hAll v hVersion
    exact hAll o v hOffset hVersion

theorem addressed_ordinaryReply :
    Addressed (ordinaryResponse 7) (inetNtop ⟨10, 0, 0, 7⟩) ⟨10, 0, 0, 7⟩ 5064 42 := by
  have hEntry : (parseSearchResponse (ordinaryResponse 7))[0]? = some (7, ordinaryResponse 7) := by
    decide +kernel
  refine (addressed_iff hEntry (inetAton_inetNtop _) 5064 42).mpr ?_
  intro o v hOffset hVersion
  have hOnly : responseOffsets (ordinaryResponse 7) = [16] ∧
      versionBefore (ordinaryResponse 7) 16 = some 0 := by
    decide +kernel
  rw [hOnly.1, List.getElem?_cons_zero, Option.some.injEq] at hOffset
  rw [← hOffset, hOnly.2, Option.some.injEq] at hVersion
  rw [← hVersion]
  decide +kernel

/-- A VERSION header that announces 8 bytes, the 8 bytes, and a search
response. -/
def paddedReply : Bytes :=
  Header.encode ⟨cmdVersion, 8, 1, 13, 0, 0⟩ ++ List.replicate 8 0 ++
    Header.encode ⟨cmdSearch, 8, 5064, 0, 0xFFFFFFFF, 7⟩ ++ [0, 13, 0, 0, 0, 0, 0, 0]

/-- The response is extracted, but no update finds it in what was extracted. -/
theorem not_addressed_paddedReply :
    ∃ rsp, parseSearchResponse paddedReply = [(7, rsp)] ∧
      (updateSearchReplyAddr rsp (inetNtop ⟨10, 0, 0, 7⟩) 5064).2 = false ∧
      ¬ Addressed rsp (inetNtop ⟨10, 0, 0, 7⟩) ⟨10, 0, 0, 7⟩ 5064 42 := by
  have hFalse : (updateSearchReplyAddr (paddedReply.take 16 ++ paddedReply.drop 24)
      (inetNtop ⟨10, 0, 0, 7⟩) 5064).2 = false := by
    decide +kernel
  refine ⟨paddedReply.take 16 ++ paddedReply.drop 24, by decide +kernel, hFalse, ?_⟩
  intro hAddressed
  obtain ⟨reply, reply', rsp', hAddr, -⟩ := hAddressed
  rw [hAddr] at hFalse
  exact absurd hFalse (by simp)

end ChannelAccess

end PVmapper
