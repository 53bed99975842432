import PVmapper.ProtoCa.Chain

/-!
# PVmapper — datagrams as sequences of messages

A `Message` is a header and the payload its length field announces. A
datagram made of messages is parsed message by message, whatever follows
them, and what is cut off at its end is not parsed at all.

* `searchRequestLoop_append`   — the loop sees only what lies ahead of it.
* `parseSearchRequest_encode`  — one message in front of anything.
* `parseSearchRequest_prefix`  — a prefix of a buffer gives a prefix of the
  requests.
* `parses_complete_messages`   — the parser accepts exactly the complete
  messages, and reads nothing outside the buffer.
-/

namespace PVmapper

open Wire

/-- A message: a header, and as many bytes of payload as it announces. -/
structure Message where
  header : Header
  payload : Bytes
  length_eq : header.payloadLen.toNat = payload.length

namespace Message

/-- The bytes of a message. -/
def encode (m : Message) : Bytes := m.header.encode ++ m.payload

/-- The bytes of a sequence of messages. -/
def encodeAll (ms : List Message) : Bytes := ms.flatMap encode

@[simp] theorem length_encode (m : Message) : m.encode.length = Header.size + m.payload.length := by
  rw [encode, List.length_append, Header.length_encode]

@[simp] theorem encodeAll_nil : encodeAll [] = [] := rfl

@[simp] theorem encodeAll_cons (m : Message) (ms : List Message) :
    encodeAll (m :: ms) = m.encode ++ encodeAll ms := rfl

@[simp] theorem encodeAll_append (ms ms' : List Message) :
    encodeAll (ms ++ ms') = encodeAll ms ++ encodeAll ms' :=
  List.flatMap_append

/-- The VERSION message PVmapper puts in front of what it sends. -/
def version : Message := ⟨Header.version, [], rfl⟩

/-- The request a message makes, if it is a SEARCH message: the channel id and
the payload without its trailing NULs. -/
def request (m : Message) : Option (UInt32 × Bytes) :=
  if m.header.command = cmdSearch then
    some (m.header.param1, m.payload.rdropWhile (· == 0))
  else none

end Message

namespace ChannelAccess

variable {buffer : Bytes} {offset : ℕ}

-- ---------------------------------------------------------------------------
-- Reading what was written
-- ---------------------------------------------------------------------------

/-- A header is found behind whatever is put in front of it. -/
theorem readAt_append_right (front buffer : Bytes) (offset : ℕ) :
    Header.readAt (front ++ buffer) (front.length + offset) = Header.readAt buffer offset := by
  refine readAt_congr fun i _ => ?_
  rw [List.getD_append_right _ _ _ _ (by omega)]
  congr 1
  omega

/-- A header that fits does not depend on what follows. -/
theorem readAt_append_left (h : offset + Header.size ≤ buffer.length) (back : Bytes) :
    Header.readAt (buffer ++ back) offset = Header.readAt buffer offset := by
  have hSize : Header.size = 16 := rfl
  exact readAt_congr fun i hi => List.getD_append _ _ _ _ (by omega)

/-- A header in front of anything is read back. -/
theorem readAt_encode (hdr : Header) (back : Bytes) :
    Header.readAt (hdr.encode ++ back) 0 = hdr := by
  obtain ⟨command, payloadLen, dataType, dataCount, param1, param2⟩ := hdr
  unfold Header.readAt
  congr 1
  · exact u16_bytes16 command
  · exact u16_bytes16 payloadLen
  · exact u16_bytes16 dataType
  · exact u16_bytes16 dataCount
  · exact u32_bytes32 param1
  · exact u32_bytes32 param2

/-- Bytes are found behind whatever is put in front of them. -/
theorem slice_append_right (front buffer : Bytes) (offset n : ℕ) :
    slice (front ++ buffer) (front.length + offset) n = slice buffer offset n := by
  unfold slice
  rw [List.drop_append, List.drop_eq_nil_of_le (by omega), List.nil_append, Nat.add_sub_cancel_left]

/-- Bytes that are all there do not depend on what follows. -/
theorem slice_append_left {n : ℕ} (h : offset + n ≤ buffer.length) (back : Bytes) :
    slice (buffer ++ back) offset n = slice buffer offset n := by
  unfold slice
  rw [List.drop_append_of_le_length (by omega),
    List.take_append_of_le_length (by rw [List.length_drop]; omega)]

-- ---------------------------------------------------------------------------
-- Message by message
-- ---------------------------------------------------------------------------

theorem payload_append_right (front buffer : Bytes) (offset : ℕ) :
    payload (front ++ buffer) (front.length + offset) = payload buffer offset := by
  unfold payload
  rw [readAt_append_right, Nat.add_assoc, slice_append_right]

theorem isSearchRequest_append_right (front buffer : Bytes) (offset : ℕ) :
    isSearchRequest (front ++ buffer) (front.length + offset) ↔ isSearchRequest buffer offset := by
  unfold isSearchRequest
  rw [readAt_append_right, List.length_append]
  refine and_congr Iff.rfl ?_
  omega

/-- A walk sees only what lies ahead of it. -/
theorem messagesFrom_append (front buffer : Bytes) (offset : ℕ) :
    messagesFrom (front ++ buffer) (front.length + offset) =
      (messagesFrom buffer offset).map (front.length + ·) := by
  unfold messagesFrom
  rw [List.length_append, offsets_add]
  simp only [readAt_append_right]

/-- The loop over the requests sees only what lies ahead of it. -/
theorem searchRequestLoop_append (front buffer : Bytes) (offset : ℕ) :
    searchRequestLoop (front ++ buffer) (front.length + offset) =
      searchRequestLoop buffer offset := by
  rw [searchRequestLoop_eq, searchRequestLoop_eq, messagesFrom_append, List.filter_map, List.map_map]
  simp only [Function.comp_def, isSearchRequest_append_right, readAt_append_right,
    payload_append_right]

/-- The payload of a message is read back. -/
theorem payload_encode (m : Message) (back : Bytes) : payload (m.encode ++ back) 0 = m.payload := by
  unfold payload Message.encode
  rw [List.append_assoc, readAt_encode, m.length_eq, Nat.zero_add]
  unfold slice
  rw [List.drop_left' (Header.length_encode m.header), List.take_left]

/-- `copyStr` makes the name of a request. -/
theorem request_eq (m : Message) :
    m.request =
      if m.header.command = cmdSearch then some (m.header.param1, copyStr m.payload) else none :=
  rfl

/-- A message in front of anything makes its request, and the rest is parsed
as if it stood alone. -/
theorem parseSearchRequest_encode (m : Message) (back : Bytes) :
    parseSearchRequest (m.encode ++ back) = m.request.toList ++ parseSearchRequest back := by
  have hHeader : Header.readAt (m.encode ++ back) 0 = m.header := by
    rw [Message.encode, List.append_assoc, readAt_encode]
  have hNext : 0 + Header.size + m.header.payloadLen.toNat = m.encode.length + 0 := by
    rw [m.length_eq, Message.length_encode]
    omega
  have hFit : 0 + Header.size + m.header.payloadLen.toNat ≤ (m.encode ++ back).length := by
    rw [hNext, List.length_append]
    omega
  have hRest : searchRequestLoop (m.encode ++ back) (0 + Header.size + m.header.payloadLen.toNat) =
      searchRequestLoop back 0 := by
    rw [hNext, searchRequestLoop_append]
  have hSame : isSearchRequest (m.encode ++ back) 0 ↔ m.header.command = cmdSearch := by
    unfold isSearchRequest
    rw [hHeader]
    exact and_iff_left hFit
  unfold parseSearchRequest
  rw [searchRequestLoop_of_le (by omega), hHeader, hRest, payload_encode]
  rw [request_eq]
  by_cases hSearch : m.header.command = cmdSearch
  · rw [if_pos (hSame.mpr hSearch), if_pos hSearch, Option.toList_some]
  · rw [if_neg (mt hSame.mp hSearch), if_neg hSearch, Option.toList_none]

@[simp] theorem parseSearchRequest_nil : parseSearchRequest [] = [] := by
  exact searchRequestLoop_of_lt (by decide)

/-- What is cut off a message makes no request. -/
theorem parseSearchRequest_cut {m : Message} {cut : Bytes} (h : cut <+: m.encode)
    (hne : cut ≠ m.encode) : parseSearchRequest cut = [] := by
  obtain ⟨back, hBack⟩ := h
  have hShort : cut.length < m.encode.length := by
    rw [← hBack, List.length_append]
    have : back ≠ [] := by
      rintro rfl
      exact hne (by simpa using hBack)
    have := List.length_pos_of_ne_nil this
    omega
  rw [Message.length_encode, ← m.length_eq] at hShort
  unfold parseSearchRequest
  by_cases hFit : 0 + Header.size ≤ cut.length
  · -- the header is all there, but not what it announces
    have hHeader : Header.readAt cut 0 = m.header := by
      rw [← readAt_append_left hFit back, hBack, ← List.append_nil m.encode, Message.encode,
        List.append_assoc, readAt_encode]
    have hOther : ¬ isSearchRequest cut 0 := by
      intro hSearch
      have hThere := hSearch.2
      rw [hHeader] at hThere
      omega
    rw [searchRequestLoop_of_le hFit, if_neg hOther, List.nil_append, hHeader]
    exact searchRequestLoop_of_lt (by omega)
  · exact searchRequestLoop_of_lt hFit

/-- The requests of a sequence of messages are those of its SEARCH messages. -/
theorem filterMap_request (ms : List Message) :
    ms.filterMap Message.request =
      (ms.filter (·.header.command = cmdSearch)).map fun m =>
        (m.header.param1, m.payload.rdropWhile (· == 0)) := by
  induction ms with
  | nil => rfl
  | cons m ms ih =>
    by_cases hSearch : m.header.command = cmdSearch
    · have hRequest : m.request = some (m.header.param1, m.payload.rdropWhile (· == 0)) :=
        if_pos hSearch
      rw [List.filterMap_cons_some hRequest, List.filter_cons_of_pos (by simpa using hSearch),
        List.map_cons, ih]
    · have hRequest : m.request = none := if_neg hSearch
      rw [List.filterMap_cons_none hRequest, List.filter_cons_of_neg (by simpa using hSearch), ih]

/-- A sequence of messages makes the requests of its messages, in order,
whatever follows. -/
theorem parseSearchRequest_encodeAll (ms : List Message) (back : Bytes) :
    parseSearchRequest (Message.encodeAll ms ++ back) =
      ms.filterMap Message.request ++ parseSearchRequest back := by
  induction ms with
  | nil => rfl
  | cons m ms ih =>
    rw [Message.encodeAll_cons, List.append_assoc, parseSearchRequest_encode, ih, ← List.append_assoc]
    congr 1
    rw [List.filterMap_cons]
    cases m.request <;> rfl

-- ---------------------------------------------------------------------------
-- Cut anywhere
-- ---------------------------------------------------------------------------

/-- Up to where a buffer is cut off, the loop does the same. -/
theorem searchRequestLoop_prefix (buffer back : Bytes) (offset : ℕ) :
    searchRequestLoop buffer offset <+: searchRequestLoop (buffer ++ back) offset := by
  have hSize : Header.size = 16 := rfl
  -- by induction on what is left of the buffer
  induction hLeft : buffer.length - offset using Nat.strong_induction_on generalizing offset with
  | _ left ih =>
    by_cases hFit : offset + Header.size ≤ buffer.length
    · have hHeader := readAt_append_left hFit back
      have hNext := ih _ (by omega) (offset + Header.size +
        (Header.readAt buffer offset).payloadLen.toNat) rfl
      have hFit' : offset + Header.size ≤ (buffer ++ back).length := by
        rw [List.length_append]
        omega
      rw [searchRequestLoop_of_le hFit, searchRequestLoop_of_le hFit', hHeader]
      by_cases hSearch : isSearchRequest buffer offset
      · -- a request complete in the front part is the same request of the whole
        have hSame : isSearchRequest (buffer ++ back) offset := by
          refine ⟨hHeader.symm ▸ hSearch.1, ?_⟩
          rw [hHeader, List.length_append]
          exact hSearch.2.trans (Nat.le_add_right _ _)
        have hPayload : payload (buffer ++ back) offset = payload buffer offset := by
          unfold payload
          rw [hHeader]
          exact slice_append_left hSearch.2 back
        rw [if_pos hSearch, if_pos hSame, hPayload]
        exact (List.prefix_append_right_inj _).mpr hNext
      · rw [if_neg hSearch, List.nil_append]
        by_cases hCommand : (Header.readAt buffer offset).command = cmdSearch
        · -- its payload is cut off, and so is everything behind it
          have hCut : ¬ offset + Header.size + (Header.readAt buffer offset).payloadLen.toNat ≤
              buffer.length := fun h => hSearch ⟨hCommand, h⟩
          rw [searchRequestLoop_of_lt (by omega)]
          exact List.nil_prefix
        · have hOther : ¬ isSearchRequest (buffer ++ back) offset := by
            intro h
            exact hCommand (hHeader ▸ h.1)
          rw [if_neg hOther, List.nil_append]
          exact hNext
    · rw [searchRequestLoop_of_lt hFit]
      exact List.nil_prefix

/-- A prefix of a buffer gives a prefix of the requests. -/
theorem parseSearchRequest_prefix {b' b : Bytes} (h : b' <+: b) :
    parseSearchRequest b' <+: parseSearchRequest b := by
  obtain ⟨back, rfl⟩ := h
  exact searchRequestLoop_prefix b' back 0

-- ---------------------------------------------------------------------------
-- Complete messages
-- ---------------------------------------------------------------------------

/-- **The complete messages, and nothing else.** A sequence of messages
followed by a cut-off one makes the requests of its SEARCH messages, for their
payloads without the trailing NULs; cutting any buffer anywhere only drops
requests at the end; and no read is outside the buffer. -/
theorem parses_complete_messages :
    (∀ (ms : List Message) (m : Message) (cut : Bytes), cut <+: m.encode → cut ≠ m.encode →
        parseSearchRequest (Message.encodeAll ms ++ cut) =
          (ms.filter (·.header.command = cmdSearch)).map fun m =>
            (m.header.param1, m.payload.rdropWhile (· == 0))) ∧
      (∀ b' b : Bytes, b' <+: b → parseSearchRequest b' <+: parseSearchRequest b) ∧
      ∀ b : Bytes, checkedRequestLoop b 0 = some (parseSearchRequest b) := by
  refine ⟨fun ms m cut hCut hne => ?_, fun b' b h => parseSearchRequest_prefix h,
    fun b => checkedRequestLoop_eq b 0⟩
  rw [parseSearchRequest_encodeAll, parseSearchRequest_cut hCut hne, List.append_nil,
    filterMap_request]

/-- A client's request for a name of one character. -/
def ordinaryRequest (chanId : UInt32) (c : Char) : Message where
  header := ⟨cmdSearch, 8, 5, 13, chanId, chanId⟩
  payload := [chr c, 0, 0, 0, 0, 0, 0, 0]
  length_eq := rfl

/-- Two requests and a third that is cut off behind its header; and the first
of them cut off within its payload. -/
theorem parses_thirdCut :
    parseSearchRequest (Message.encodeAll [Message.version, ordinaryRequest 1 'A',
        Message.version, ordinaryRequest 2 'B'] ++ (ordinaryRequest 3 'C').encode.take 18) =
      [(1, [chr 'A']), (2, [chr 'B'])] ∧
    parseSearchRequest ((ordinaryRequest 1 'A').encode.take 18) <+:
      parseSearchRequest (ordinaryRequest 1 'A').encode ∧
    checkedRequestLoop ((ordinaryRequest 1 'A').encode.take 18) 0 = some [] ∧
    checkedRequestLoop (ordinaryRequest 1 'A').encode 0 = some [(1, [chr 'A'])] := by
  obtain ⟨hComplete, hCut, hInside⟩ := parses_complete_messages
  refine ⟨?_, hCut _ _ (List.take_prefix 18 _), (hInside _).trans (by decide +kernel),
    (hInside _).trans (by decide +kernel)⟩
  rw [hComplete _ (ordinaryRequest 3 'C') _ (List.take_prefix 18 _) (by decide +kernel)]
  decide +kernel

end ChannelAccess

end PVmapper
