import PVmapper.ProtoCa.Messages

/-!
# PVmapper — the search requests sent to the IOCs

`createSearchRequest` puts a VERSION header and then one SEARCH message for
each PV into a packet, until it is longer than 1000 bytes.

* `searchMessage_of_lt`         — for names shorter than 65528 bytes, a message
  can be built, and its payload is the name with at least one NUL behind it.
* `cStr_payload`                — what an IOC reads as a C string from it.
* `createSearchRequest_eq_some` — a packet is the messages of the first PVs.
* `createLoop_of_short`         — which PVs those are.
* `exists_searchMessage_iff`    — for which names a message can be built at all.
* `payloads_suffice_iff`        — for which lists every payload has room for its
  name.
* `searchRequest_roundTrip`     — a packet is parsed back into the PVs it took.
-/

namespace PVmapper

namespace ChannelAccess

/-- A SEARCH message for a PV: its payload is a whole number of 8-byte words
and holds the name, with at least one NUL behind it. -/
structure Carries (pv : UInt32 × Bytes) (m : Message) : Prop where
  command : m.header.command = cmdSearch
  param1 : m.header.param1 = pv.1
  param2 : m.header.param2 = pv.1
  aligned : m.payload.length % 8 = 0
  payload : ∃ n, m.payload = pv.2 ++ List.replicate (n + 1) 0

/-- A name's message, when the name is not longer than payloads can be. -/
theorem searchMessage_of_lt {pvname : Bytes} (h : pvname.length < 65528) (chanId : UInt32) :
    ∃ m : Message, searchMessage chanId pvname = some m.encode ∧ Carries (chanId, pvname) m := by
  have hTake : pvname.take (pvname.length % 65536) = pvname := by
    rw [Nat.mod_eq_of_lt (by omega), List.take_length]
  -- the length rounded up leaves room for at least one NUL
  have hRoom : pvname.length + 1 ≤ payloadLen pvname := by
    unfold payloadLen
    omega
  have hLt : payloadLen pvname < 65536 := Nat.mod_lt _ (by omega)
  have hLen : (UInt16.ofNat (payloadLen pvname)).toNat =
      (pvname ++ List.replicate (payloadLen pvname - pvname.length) 0).length := by
    rw [UInt16.toNat_ofNat', Nat.mod_eq_of_lt hLt, List.length_append, List.length_replicate]
    omega
  refine ⟨⟨⟨cmdSearch, UInt16.ofNat (payloadLen pvname), 0x5, 13, chanId, chanId⟩,
    pvname ++ List.replicate (payloadLen pvname - pvname.length) 0, hLen⟩, ?_, rfl, rfl, rfl, ?_, ?_⟩
  · unfold searchMessage Message.encode
    dsimp only
    rw [hTake, if_pos (by omega), List.append_assoc]
  · show (pvname ++ List.replicate (payloadLen pvname - pvname.length) 0).length % 8 = 0
    rw [← hLen, UInt16.toNat_ofNat', Nat.mod_eq_of_lt hLt, payloadLen]
    omega
  · refine ⟨payloadLen pvname - pvname.length - 1, ?_⟩
    rw [show payloadLen pvname - pvname.length - 1 + 1 = payloadLen pvname - pvname.length by omega]

theorem cStr_append_nul (s : Bytes) (n : ℕ) :
    cStr (s ++ List.replicate (n + 1) 0) = cStr s := by
  induction s with
  | nil => rfl
  | cons x xs ih =>
    unfold cStr at *
    rw [List.cons_append, List.takeWhile_cons, List.takeWhile_cons, ih]

/-- The C string in the payload of a name's message is the name's own. -/
theorem cStr_payload {pvname : Bytes} (h : pvname.length < 65528) (chanId : UInt32) :
    ∃ msg, searchMessage chanId pvname = some msg ∧ cStr (msg.drop Header.size) = cStr pvname := by
  obtain ⟨m, hMsg, hCarries⟩ := searchMessage_of_lt h chanId
  obtain ⟨n, hPayload⟩ := hCarries.payload
  refine ⟨_, hMsg, ?_⟩
  rw [Message.encode, List.drop_left' (Header.length_encode m.header), hPayload, cStr_append_nul]

-- ---------------------------------------------------------------------------
-- Packets
-- ---------------------------------------------------------------------------

/-- The messages of a list of PVs. -/
def searchMessages (pvs : List (UInt32 × Bytes)) : Option (List Bytes) :=
  pvs.mapM fun pv => searchMessage pv.1 pv.2

theorem createLoop_eq_some {pvs : List (UInt32 × Bytes)} {buffer msg : Bytes} {n nPvs : ℕ}
    (h : createLoop pvs buffer n = some (msg, nPvs)) :
    n ≤ nPvs ∧ ∃ msgs, searchMessages (pvs.take (nPvs - n)) = some msgs ∧
      msg = buffer ++ msgs.flatten := by
  induction pvs generalizing buffer n with
  | nil =>
    simp only [createLoop, Option.some.injEq, Prod.mk.injEq] at h
    obtain ⟨rfl, rfl⟩ := h
    exact ⟨le_rfl, [], by simp [searchMessages], by simp⟩
  | cons pv pvs ih =>
    obtain ⟨chanId, pvname⟩ := pv
    unfold createLoop at h
    cases hMsg : searchMessage chanId pvname with
    | none => simp [hMsg] at h
    | some m =>
      simp only [hMsg] at h
      split at h
      · -- the packet is long enough
        simp only [Option.some.injEq, Prod.mk.injEq] at h
        obtain ⟨rfl, rfl⟩ := h
        refine ⟨by omega, [m], ?_, by simp⟩
        rw [Nat.add_sub_cancel_left]
        simp [searchMessages, hMsg]
      -- the loop goes on behind this message
      · obtain ⟨hLe, msgs, hMsgs, rfl⟩ := ih h
        refine ⟨by omega, m :: msgs, ?_, by simp⟩
        rw [show nPvs - n = (nPvs - (n + 1)) + 1 by omega, List.take_succ_cons]
        unfold searchMessages at hMsgs ⊢
        simp [hMsg, hMsgs]

/-- **Packets.** A packet is a VERSION header and the messages of the first PVs. -/
theorem createSearchRequest_eq_some {pvs : List (UInt32 × Bytes)} {msg : Bytes} {nPvs : ℕ}
    (h : createSearchRequest pvs = some (msg, nPvs)) :
    ∃ msgs, searchMessages (pvs.take nPvs) = some msgs ∧
      msg = Header.version.encode ++ msgs.flatten := by
  obtain ⟨-, msgs, hMsgs, hMsg⟩ := createLoop_eq_some h
  exact ⟨msgs, hMsgs, hMsg⟩

/-- A message is a header and a payload of the announced length. -/
theorem length_searchMessage {chanId : UInt32} {pvname m : Bytes}
    (h : searchMessage chanId pvname = some m) :
    m.length = Header.size + payloadLen pvname := by
  unfold searchMessage at h
  dsimp only at h
  split at h
  · rw [Option.some.injEq] at h
    rw [← h, List.length_append, List.length_append, Header.length_encode, List.length_replicate]
    omega
  · exact absurd h (by simp)

theorem createLoop_count {pvs : List (UInt32 × Bytes)} {buffer msg : Bytes} {n nPvs : ℕ}
    (h : createLoop pvs buffer n = some (msg, nPvs)) (hBuffer : buffer.length ≤ 1000) :
    buffer.length + 16 * (nPvs - n) ≤ 1016 := by
  have hSize : Header.size = 16 := rfl
  induction pvs generalizing buffer n with
  | nil =>
    simp only [createLoop, Option.some.injEq, Prod.mk.injEq] at h
    omega
  | cons pv pvs ih =>
    obtain ⟨chanId, pvname⟩ := pv
    unfold createLoop at h
    cases hMsg : searchMessage chanId pvname with
    | none => simp [hMsg] at h
    | some m =>
      have hMore := length_searchMessage hMsg
      simp only [hMsg] at h
      split at h
      · simp only [Option.some.injEq, Prod.mk.injEq] at h
        omega
      · -- the rest of the loop starts from a longer buffer
        have hLe := (createLoop_eq_some h).1
        have hRest := ih h (by omega)
        rw [List.length_append] at hRest
        omega

/-- `nPvs` is a `uint16_t` in the source: it never gets near its limit. -/
theorem createSearchRequest_count {pvs : List (UInt32 × Bytes)} {msg : Bytes} {nPvs : ℕ}
    (h : createSearchRequest pvs = some (msg, nPvs)) : nPvs ≤ 62 := by
  have hCount := createLoop_count h (by decide)
  have hVersion : Header.version.encode.length = 16 := rfl
  omega

/-- What the loop adds to a buffer not yet too long, and when it stops. -/
structure Batch (buffer : Bytes) (pvs : List (UInt32 × Bytes)) (ms : List Message) : Prop where
  length_le : ms.length ≤ pvs.length
  carries : List.Forall₂ Carries (pvs.take ms.length) ms
  ne : pvs ≠ [] → ms ≠ []
  fits : ms ≠ [] → (buffer ++ Message.encodeAll ms.dropLast).length ≤ 1000
  full : ms.length < pvs.length → 1000 < (buffer ++ Message.encodeAll ms).length

/-- For names that fit, the loop takes PVs until the buffer is too long. -/
theorem createLoop_of_short {pvs : List (UInt32 × Bytes)}
    (h : ∀ pv ∈ pvs, pv.2.length < 65528) (buffer : Bytes) (hBuffer : buffer.length ≤ 1000) (n : ℕ) :
    ∃ ms, createLoop pvs buffer n = some (buffer ++ Message.encodeAll ms, n + ms.length) ∧
      Batch buffer pvs ms := by
  induction pvs generalizing buffer n with
  | nil =>
    exact ⟨[], by simp [createLoop], le_rfl, List.Forall₂.nil, fun hne => absurd rfl hne,
      fun hne => absurd rfl hne, fun hLt => absurd hLt (by simp)⟩
  | cons pv pvs ih =>
    obtain ⟨chanId, pvname⟩ := pv
    obtain ⟨m, hMsg, hCarries⟩ :=
      searchMessage_of_lt (h (chanId, pvname) (List.mem_cons_self ..)) chanId
    unfold createLoop
    rw [hMsg]
    dsimp only
    split
    · -- too long with this message: it is the last one
      next hLong =>
      refine ⟨[m], by simp, by simp, ?_, by simp, by simpa using hBuffer, fun _ => by simpa using hLong⟩
      exact List.Forall₂.cons hCarries List.Forall₂.nil
    · next hShort =>
      obtain ⟨ms, hLoop, hBatch⟩ :=
        ih (fun pv hpv => h pv (List.mem_cons_of_mem _ hpv)) (buffer ++ m.encode) (by omega) (n + 1)
      refine ⟨m :: ms, ?_, ?_, ?_, by simp, fun _ => ?_, fun hLt => ?_⟩
      · rw [hLoop, Message.encodeAll_cons, List.append_assoc, List.length_cons,
          show n + 1 + ms.length = n + (ms.length + 1) by omega]
      · simpa using hBatch.length_le
      · exact List.Forall₂.cons hCarries hBatch.carries
      · -- without its last message the packet is this one, or that of the rest
        cases ms with
        | nil => simpa using hBuffer
        | cons m' ms =>
          have hFits := hBatch.fits (by simp)
          rwa [List.append_assoc, ← Message.encodeAll_cons] at hFits
      · have hFull := hBatch.full (by simpa using hLt)
        rwa [List.append_assoc, ← Message.encodeAll_cons] at hFull

/-- A message can be built for a name exactly when the name, its length taken
modulo 2^16, leaves room for the NUL and the rounding in 16 bits. -/
theorem exists_searchMessage_iff (chanId : UInt32) (pvname : Bytes) :
    (∃ msg, searchMessage chanId pvname = some msg) ↔ pvname.length % 65536 < 65528 := by
  have hCopied : (pvname.take (pvname.length % 65536)).length = pvname.length % 65536 := by
    rw [List.length_take]
    omega
  unfold searchMessage
  dsimp only
  rw [hCopied]
  constructor
  · rintro ⟨msg, hMsg⟩
    split at hMsg
    · next hRoom =>
      unfold payloadLen at hRoom
      omega
    · exact absurd hMsg (by simp)
  · intro hShort
    have hRoom : pvname.length % 65536 ≤ payloadLen pvname := by
      unfold payloadLen
      omega
    rw [if_pos hRoom]
    exact ⟨_, rfl⟩

theorem exists_of_searchMessages {pvs : List (UInt32 × Bytes)} {msgs : List Bytes}
    (h : searchMessages pvs = some msgs) : ∀ pv ∈ pvs, ∃ msg, searchMessage pv.1 pv.2 = some msg := by
  induction pvs generalizing msgs with
  | nil => simp
  | cons pv pvs ih =>
    unfold searchMessages at h
    rw [List.mapM_cons] at h
    cases hMsg : searchMessage pv.1 pv.2 with
    | none => simp [hMsg] at h
    | some m =>
      rw [hMsg, Option.bind_eq_bind, Option.bind_some] at h
      obtain ⟨rest, hRest, -⟩ := Option.bind_eq_some_iff.mp h
      intro pv' hpv'
      rcases List.mem_cons.mp hpv' with rfl | hpv'
      · exact ⟨m, hMsg⟩
      · exact ih hRest pv' hpv'

theorem exists_createLoop {pvs : List (UInt32 × Bytes)}
    (h : ∀ pv ∈ pvs, ∃ msg, searchMessage pv.1 pv.2 = some msg) (buffer : Bytes) (n : ℕ) :
    ∃ msg nPvs, createLoop pvs buffer n = some (msg, nPvs) := by
  induction pvs generalizing buffer n with
  | nil => exact ⟨_, _, rfl⟩
  | cons pv pvs ih =>
    obtain ⟨m, hMsg⟩ := h pv (List.mem_cons_self ..)
    unfold createLoop
    rw [hMsg]
    dsimp only
    split
    · exact ⟨_, _, rfl⟩
    · exact ih (fun pv hpv => h pv (List.mem_cons_of_mem _ hpv)) _ _

/-- A packet gets on in the list. -/
theorem createSearchRequest_pos {pv : UInt32 × Bytes} {pvs : List (UInt32 × Bytes)} {msg : Bytes}
    {nPvs : ℕ} (h : createSearchRequest (pv :: pvs) = some (msg, nPvs)) : 0 < nPvs := by
  unfold createSearchRequest createLoop at h
  split at h
  · exact absurd h (by simp)
  · dsimp only at h
    split at h
    · simp only [Option.some.injEq, Prod.mk.injEq] at h
      omega
    · have := (createLoop_eq_some h).1
      omega

-- ---------------------------------------------------------------------------
-- Room for the names
-- ---------------------------------------------------------------------------

/-- How many bytes of a name are copied: `pvname.length() & 0xFFFF`. -/
def copiedLen (pvname : Bytes) : ℕ := pvname.length % 65536

/-- The names the loop gets to from a packet of `offset` bytes on: it stops
behind the one that makes the packet longer than 1000 bytes. -/
def reached : List (UInt32 × Bytes) → ℕ → List Bytes
  | [], _ => []
  | (_, pvname) :: pvs, offset =>
    let offset' := offset + Header.size + payloadLen pvname
    pvname :: if offset' > 1000 then [] else reached pvs offset'

/-- The payload has room for what is copied and a NUL behind it, exactly when
the length modulo 2^16 is not one of the last eight. -/
theorem copiedLen_lt_payloadLen_iff (pvname : Bytes) :
    copiedLen pvname < payloadLen pvname ↔ pvname.length % 65536 < 65528 := by
  unfold copiedLen payloadLen
  omega

/-- The loop answers exactly when there is a message for each name it gets to. -/
theorem exists_createLoop_iff (pvs : List (UInt32 × Bytes)) (buffer : Bytes) (n : ℕ) :
    (∃ r, createLoop pvs buffer n = some r) ↔
      ∀ pvname ∈ reached pvs buffer.length, pvname.length % 65536 < 65528 := by
  induction pvs generalizing buffer n with
  | nil => simp [createLoop, reached]
  | cons pv pvs ih =>
    obtain ⟨chanId, pvname⟩ := pv
    unfold createLoop reached
    cases hMsg : searchMessage chanId pvname with
    | none =>
      -- no message for this name
      have hLong : ¬ pvname.length % 65536 < 65528 := by
        rw [← exists_searchMessage_iff chanId, hMsg]
        simp
      simp [hLong]
    | some msg =>
      have hShort := (exists_searchMessage_iff chanId pvname).mp ⟨msg, hMsg⟩
      have hLength : (buffer ++ msg).length = buffer.length + Header.size + payloadLen pvname := by
        rw [List.length_append, length_searchMessage hMsg, Nat.add_assoc]
      dsimp only
      rw [hLength, List.forall_mem_cons]
      split
      · simp [hShort]
      · rw [ih, hLength]
        simp [hShort]

/-- **Room for every name, exactly when** no name the loop gets to is within
eight bytes of a multiple of 2^16 from below: then every payload is longer
than what is copied into it, and no copy writes past the packet. -/
theorem payloads_suffice_iff (pvs : List (UInt32 × Bytes)) :
    ((∀ pvname ∈ reached pvs Header.size, copiedLen pvname < payloadLen pvname) ∧
        ∃ r, createSearchRequest pvs = some r) ↔
      ∀ pvname ∈ reached pvs Header.size, pvname.length % 65536 < 65528 := by
  have hLoop := exists_createLoop_iff pvs Header.version.encode 0
  rw [Header.length_encode] at hLoop
  rw [createSearchRequest, hLoop]
  constructor
  · intro hBoth
    exact hBoth.2
  · intro hShort
    exact ⟨fun pvname hMem => (copiedLen_lt_payloadLen_iff pvname).mpr (hShort pvname hMem), hShort⟩

/-- For a name of 2^16 - 8 bytes no payload is allocated, and all its bytes are
copied behind the end of the packet. -/
theorem payload_overrun :
    ∃ pvname : Bytes, pvname.length = 65528 ∧ payloadLen pvname = 0 ∧ copiedLen pvname = 65528 ∧
      createSearchRequest [(0, pvname)] = none := by
  have hLength : (List.replicate 65528 (chr 'A')).length = 65528 := List.length_replicate
  refine ⟨List.replicate 65528 (chr 'A'), hLength, ?_, ?_, ?_⟩
  · rw [payloadLen, hLength]
  · rw [copiedLen, hLength]
  · have hNone : ¬ ∃ r, createSearchRequest [(0, List.replicate 65528 (chr 'A'))] = some r := by
      intro hSome
      have hShort := (exists_createLoop_iff _ _ _).mp hSome _ (List.mem_cons_self ..)
      rw [hLength] at hShort
      exact absurd hShort (by decide)
    rw [Option.eq_none_iff_forall_ne_some]
    exact fun r hSome => hNone ⟨r, hSome⟩

-- ---------------------------------------------------------------------------
-- Round trip
-- ---------------------------------------------------------------------------

/-- A name that does not end in a NUL survives the padding. -/
theorem copyStr_append_nul {s : Bytes} (h : s.getLast? ≠ some 0) (n : ℕ) :
    copyStr (s ++ List.replicate n 0) = s := by
  induction n with
  | zero =>
    rw [List.replicate_zero, List.append_nil, copyStr, List.rdropWhile_eq_self_iff]
    intro hne hNul
    rw [List.getLast?_eq_getLast_of_ne_nil hne] at h
    exact h (by simpa using hNul)
  | succ n ih =>
    rw [List.replicate_succ', ← List.append_assoc]
    unfold copyStr at *
    rw [List.rdropWhile_concat_pos _ _ _ (by simp), ih]

/-- The requests made by messages that carry PVs are those PVs. -/
theorem filterMap_request_of_carries {pvs : List (UInt32 × Bytes)} {ms : List Message}
    (hEnd : ∀ pv ∈ pvs, pv.2.getLast? ≠ some 0) (h : List.Forall₂ Carries pvs ms) :
    ms.filterMap Message.request = pvs := by
  induction h with
  | nil => rfl
  | @cons pv m pvs ms hCarries _ ih =>
    obtain ⟨n, hPayload⟩ := hCarries.payload
    have hRequest : m.request = some pv := by
      rw [request_eq, if_pos hCarries.command, hCarries.param1, hPayload,
        copyStr_append_nul (hEnd pv (List.mem_cons_self ..))]
    rw [List.filterMap_cons_some hRequest, ih fun pv hpv => hEnd pv (List.mem_cons_of_mem _ hpv)]

/-- **Round trip.** For names that a client datagram can carry, none of them
ending in a NUL, a packet is a VERSION message and one message for each of the
first PVs; it is parsed back into exactly those; and it ends at the first
message that makes it longer than 1000 bytes, or with the list. -/
theorem searchRequest_roundTrip {pvs : List (UInt32 × Bytes)} (hne : pvs ≠ [])
    (hShort : ∀ pv ∈ pvs, pv.2.length ≤ 4080) (hEnd : ∀ pv ∈ pvs, pv.2.getLast? ≠ some 0) :
    ∃ buffer n ms, createSearchRequest pvs = some (buffer, n) ∧ 1 ≤ n ∧ n ≤ pvs.length ∧
      parseSearchRequest buffer = pvs.take n ∧
      buffer = Message.encodeAll (Message.version :: ms) ∧
      List.Forall₂ Carries (pvs.take n) ms ∧
      (Message.encodeAll (Message.version :: ms.dropLast)).length ≤ 1000 ∧
      (n < pvs.length → 1000 < buffer.length) := by
  have hFit : ∀ pv ∈ pvs, pv.2.length < 65528 :=
    fun pv hpv => lt_of_le_of_lt (hShort pv hpv) (by omega)
  obtain ⟨ms, hLoop, hBatch⟩ := createLoop_of_short hFit Header.version.encode (by decide) 0
  rw [Nat.zero_add] at hLoop
  have hPos := List.length_pos_of_ne_nil (hBatch.ne hne)
  have hVersion : Header.version.encode = Message.version.encode := rfl
  refine ⟨_, _, ms, hLoop, hPos, hBatch.length_le, ?_, rfl, hBatch.carries,
    hBatch.fits (hBatch.ne hne), hBatch.full⟩
  -- the VERSION message makes no request, the others those of their PVs
  have hParse := parseSearchRequest_encodeAll (Message.version :: ms) []
  rw [List.append_nil, Message.encodeAll_cons, ← hVersion] at hParse
  rw [hParse, List.filterMap_cons_none rfl,
    filterMap_request_of_carries (fun pv hpv => hEnd pv (List.mem_of_mem_take hpv)) hBatch.carries,
    parseSearchRequest_nil, List.append_nil]

/-- Two PVs, one of them with a NUL inside its name. -/
theorem roundTrip_twoPVs :
    ∃ buffer n, createSearchRequest [(7, [chr 'A']), (8, [chr 'A', 0, chr 'B'])] = some (buffer, n) ∧
      1 ≤ n ∧ parseSearchRequest buffer = [(7, [chr 'A']), (8, [chr 'A', 0, chr 'B'])].take n := by
  obtain ⟨buffer, n, ms, hCreate, hPos, -, hParse, -⟩ :=
    @searchRequest_roundTrip [(7, [chr 'A']), (8, [chr 'A', 0, chr 'B'])] (by simp)
      (by decide) (by decide)
  exact ⟨buffer, n, hCreate, hPos, hParse⟩

end ChannelAccess

end PVmapper
