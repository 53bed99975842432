import PVmapper.Model.ProtoCa

/-!
# PVmapper — the walkers of `proto_ca.cpp` over one chain of messages

All five loops of `proto_ca.cpp` visit the same offsets, `messages buffer`:
the headers reached from offset 0 by jumping over the payloads. What each loop
computes is stated here in terms of that list.

* `checkedRequestLoop_eq`  — no read of `parseSearchRequest` is outside.
* `parseSearchRequest_eq`  — one pair for each complete SEARCH message.
* `parseSearchResponse_eq` — one entry for each search response, with the
  nearest VERSION header before it.
* `parseIocAddr_eq`        — the port of the first search response.
* `updateLoop_search`, `updateLoop_other`, `updateLoop_end` — the updates,
  header by header. They write only fields that steer no walk (`Steady`).
-/

namespace PVmapper

open Wire

namespace ChannelAccess

instance : NeZero Header.size := ⟨by decide⟩

/-- The offsets of the headers a walk from `offset` on visits. -/
def messagesFrom (buffer : Bytes) (offset : ℕ) : List ℕ :=
  offsets Header.size (fun o => (Header.readAt buffer o).payloadLen.toNat) buffer.length offset

/-- The offsets of the headers in a datagram. -/
def messages (buffer : Bytes) : List ℕ := messagesFrom buffer 0

variable {buffer : Bytes} {offset : ℕ}

/-- A header that fits leads to the next one. -/
theorem messagesFrom_of_le (h : offset + Header.size ≤ buffer.length) :
    messagesFrom buffer offset = offset ::
      messagesFrom buffer (offset + Header.size + (Header.readAt buffer offset).payloadLen.toNat) :=
  offsets_of_le h

/-- Where no header fits, the walk ends. -/
theorem messagesFrom_of_lt (h : ¬ offset + Header.size ≤ buffer.length) :
    messagesFrom buffer offset = [] :=
  offsets_of_lt (by omega)

/-- A walk visits headers that lie in the buffer. -/
theorem bound_of_mem_messagesFrom {o : ℕ} (h : o ∈ messagesFrom buffer offset) :
    offset ≤ o ∧ o + Header.size ≤ buffer.length :=
  bound_of_mem_offsets h

-- ---------------------------------------------------------------------------
-- Requests
-- ---------------------------------------------------------------------------

/-- A complete SEARCH message, as `parseSearchRequest` accepts it. -/
def isSearchRequest (buffer : Bytes) (offset : ℕ) : Prop :=
  (Header.readAt buffer offset).command = cmdSearch ∧
    offset + Header.size + (Header.readAt buffer offset).payloadLen.toNat ≤ buffer.length

instance (buffer : Bytes) (offset : ℕ) : Decidable (isSearchRequest buffer offset) := by
  unfold isSearchRequest
  infer_instance

/-- The payload of the message at an offset. -/
def payload (buffer : Bytes) (offset : ℕ) : Bytes :=
  slice buffer (offset + Header.size) (Header.readAt buffer offset).payloadLen.toNat

/-- A header is read from 16 bytes. -/
theorem readAt_congr {buffer' : Bytes} {o o' : ℕ}
    (h : ∀ i < 16, buffer.getD (o + i) 0 = buffer'.getD (o' + i) 0) :
    Header.readAt buffer o = Header.readAt buffer' o' := by
  -- every field of a header lies in its 16 bytes
  have h16 : ∀ k ≤ 14, get16 buffer (o + k) = get16 buffer' (o' + k) := fun k hk =>
    get16_congr fun i hi => by
      rw [Nat.add_assoc, Nat.add_assoc]
      exact h (k + i) (by omega)
  have h32 : ∀ k ≤ 12, get32 buffer (o + k) = get32 buffer' (o' + k) := fun k hk =>
    get32_congr fun i hi => by
      rw [Nat.add_assoc, Nat.add_assoc]
      exact h (k + i) (by omega)
  have h0 := h16 0 (by omega)
  rw [Nat.add_zero, Nat.add_zero] at h0
  unfold Header.readAt
  rw [h0, h16 2 (by omega), h16 4 (by omega), h16 6 (by omega), h32 8 (by omega), h32 12 (by omega)]

theorem readAt_slice (buffer : Bytes) (offset : ℕ) :
    Header.readAt (slice buffer offset Header.size) 0 = Header.readAt buffer offset := by
  have hSize : Header.size = 16 := rfl
  refine readAt_congr fun i hi => ?_
  rw [slice, List.getD_eq_getElem?_getD, List.getD_eq_getElem?_getD,
    List.getElem?_take_of_lt (by omega), List.getElem?_drop, Nat.zero_add]

/-- The checked loop, one message further. -/
theorem checkedRequestLoop_of_le (hFit : offset + Header.size ≤ buffer.length) :
    checkedRequestLoop buffer offset =
      (checkedRequestLoop buffer
        (offset + Header.size + (Header.readAt buffer offset).payloadLen.toNat)).map fun pvs =>
          if isSearchRequest buffer offset then
            ((Header.readAt buffer offset).param1, copyStr (payload buffer offset)) :: pvs
          else pvs := by
  rw [checkedRequestLoop, if_pos hFit, sliceChecked, if_pos hFit, Option.bind_some]
  dsimp only
  rw [readAt_slice]
  by_cases hSearch : isSearchRequest buffer offset
  · -- the payload is read only if it is all there
    obtain ⟨hCommand, hThere⟩ := hSearch
    rw [if_pos ⟨hCommand, hThere⟩, sliceChecked, if_pos hThere, Option.bind_some]
    simp only [if_pos (show isSearchRequest buffer offset from ⟨hCommand, hThere⟩), payload]
  · have hOther := hSearch
    unfold isSearchRequest at hOther
    rw [if_neg hOther]
    simp only [if_neg hSearch, Option.map_id']

theorem checkedRequestLoop_of_lt (h : ¬ offset + Header.size ≤ buffer.length) :
    checkedRequestLoop buffer offset = some [] := by
  rw [checkedRequestLoop, if_neg h]

/-- The checked loop refuses nothing: its reads are all in the buffer. -/
theorem checkedRequestLoop_messages (buffer : Bytes) (offset : ℕ) :
    checkedRequestLoop buffer offset =
      some (((messagesFrom buffer offset).filter (isSearchRequest buffer)).map fun o =>
        ((Header.readAt buffer o).param1, copyStr (payload buffer o))) := by
  -- by induction on what is left of the buffer
  induction hLeft : buffer.length - offset using Nat.strong_induction_on generalizing offset with
  | _ left ih =>
    by_cases hFit : offset + Header.size ≤ buffer.length
    · have hSize : Header.size = 16 := rfl
      rw [checkedRequestLoop_of_le hFit, ih _ (by omega) _ rfl, messagesFrom_of_le hFit,
        Option.map_some]
      by_cases hSearch : isSearchRequest buffer offset
      · rw [if_pos hSearch, List.filter_cons_of_pos (by rwa [decide_eq_true_eq]), List.map_cons]
      · rw [if_neg hSearch, List.filter_cons_of_neg (by rwa [decide_eq_true_eq])]
    · rw [checkedRequestLoop_of_lt hFit, messagesFrom_of_lt hFit, List.filter_nil, List.map_nil]

/-- No read is ever refused. -/
theorem checkedRequestLoop_eq (buffer : Bytes) (offset : ℕ) :
    checkedRequestLoop buffer offset = some (searchRequestLoop buffer offset) := by
  rw [searchRequestLoop, checkedRequestLoop_messages, Option.getD_some]

/-- The loop over the requests, said without the loop. -/
theorem searchRequestLoop_eq (buffer : Bytes) (offset : ℕ) :
    searchRequestLoop buffer offset =
      ((messagesFrom buffer offset).filter (isSearchRequest buffer)).map fun o =>
        ((Header.readAt buffer o).param1, copyStr (payload buffer o)) := by
  rw [searchRequestLoop, checkedRequestLoop_messages, Option.getD_some]

theorem searchRequestLoop_of_lt (h : ¬ offset + Header.size ≤ buffer.length) :
    searchRequestLoop buffer offset = [] := by
  rw [searchRequestLoop, checkedRequestLoop_of_lt h, Option.getD_some]

/-- One iteration of it. -/
theorem searchRequestLoop_of_le (hFit : offset + Header.size ≤ buffer.length) :
    searchRequestLoop buffer offset =
      (if isSearchRequest buffer offset then
        [((Header.readAt buffer offset).param1, copyStr (payload buffer offset))] else []) ++
      searchRequestLoop buffer
        (offset + Header.size + (Header.readAt buffer offset).payloadLen.toNat) := by
  rw [searchRequestLoop, checkedRequestLoop_of_le hFit, checkedRequestLoop_eq, Option.map_some,
    Option.getD_some]
  split <;> rfl

/-- **Requests.** One (id, name) pair for each complete SEARCH message, in order. -/
theorem parseSearchRequest_eq (buffer : Bytes) :
    parseSearchRequest buffer =
      ((messages buffer).filter (isSearchRequest buffer)).map fun o =>
        ((Header.readAt buffer o).param1, copyStr (payload buffer o)) :=
  searchRequestLoop_eq buffer 0

-- ---------------------------------------------------------------------------
-- Responses
-- ---------------------------------------------------------------------------

/-- The last VERSION header among these, at an offset below `o`. -/
def lastVersion (buffer : Bytes) (headers : List ℕ) (o : ℕ) : Option ℕ :=
  (headers.filter fun v => v < o ∧ (Header.readAt buffer v).command = cmdVersion).getLast?

/-- The copy of a VERSION header in front of a response. -/
def versionHead (buffer : Bytes) : Option ℕ → Bytes
  | some v => slice buffer v Header.size
  | none => []

/-- The entry `parseSearchResponse` makes of the response at `o` with the
VERSION header at `version`. -/
def responseEntry (buffer : Bytes) (version : Option ℕ) (o : ℕ) : UInt32 × Bytes :=
  ((Header.readAt buffer o).param2, versionHead buffer version ++ slice buffer o (Header.size + 8))

/-- The first header counts if no later one does. -/
theorem lastVersion_cons {v o : ℕ} {headers : List ℕ} (hv : v < o) :
    lastVersion buffer (v :: headers) o =
      (lastVersion buffer headers o).or
        (if (Header.readAt buffer v).command = cmdVersion then some v else none) := by
  -- the first header is a VERSION header, which a later one overrides, or not
  unfold lastVersion
  split
  · next hVersion =>
    rw [List.filter_cons_of_pos (by simpa using ⟨hv, hVersion⟩), List.getLast?_cons]
    cases (headers.filter _).getLast? <;> rfl
  · next hVersion =>
    rw [List.filter_cons_of_neg (by simp [hVersion])]
    simp

/-- Headers behind a response do not count for it. -/
theorem lastVersion_of_le {o : ℕ} {headers : List ℕ} (h : ∀ v ∈ headers, o ≤ v) :
    lastVersion buffer headers o = none := by
  unfold lastVersion
  rw [List.filter_eq_nil_iff.mpr]
  · rfl
  · intro v hv
    have := h v hv
    simp only [decide_eq_true_eq]
    omega

/-- A VERSION message is no response. -/
theorem not_isSearchResponse_of_version
    (h : (Header.readAt buffer offset).command = cmdVersion) : ¬ isSearchResponse buffer offset := by
  intro hResponse
  obtain ⟨hSearch, -⟩ := hResponse
  rw [h] at hSearch
  exact absurd hSearch (by decide)

/-- Past a header, the last VERSION header met is that header or one before. -/
theorem lastVersion_messagesFrom (hFit : offset + Header.size ≤ buffer.length)
    (version : Option ℕ) {o : ℕ}
    (ho : o ∈ (messagesFrom buffer (offset + Header.size +
      (Header.readAt buffer offset).payloadLen.toNat)).filter (isSearchResponse buffer)) :
    (lastVersion buffer (messagesFrom buffer offset) o).or version =
      (lastVersion buffer (messagesFrom buffer (offset + Header.size +
        (Header.readAt buffer offset).payloadLen.toNat)) o).or
        (if (Header.readAt buffer offset).command = cmdVersion then some offset else version) := by
  have hLe := (bound_of_mem_messagesFrom (List.mem_of_mem_filter ho)).1
  have hPos : 0 < Header.size := by decide
  rw [messagesFrom_of_le hFit, lastVersion_cons (by omega), Option.or_assoc]
  split <;> rfl

/-- The loop over the responses, said without the loop. -/
theorem searchResponseLoop_eq (buffer : Bytes) (offset : ℕ) (version : Option ℕ) :
    searchResponseLoop buffer offset version =
      ((messagesFrom buffer offset).filter (isSearchResponse buffer)).map fun o =>
        responseEntry buffer ((lastVersion buffer (messagesFrom buffer offset) o).or version) o := by
  fun_induction searchResponseLoop buffer offset version with
  | case1 offset version hFit hdr next hVersion ih =>
    -- a VERSION header makes no entry, and is the one remembered from here on
    have hNot := not_isSearchResponse_of_version hVersion
    have hFilter : (messagesFrom buffer offset).filter (isSearchResponse buffer) =
        (messagesFrom buffer next).filter (isSearchResponse buffer) := by
      rw [messagesFrom_of_le hFit, List.filter_cons_of_neg (by rwa [decide_eq_true_eq])]
    rw [ih, hFilter]
    refine List.map_congr_left fun o ho => ?_
    rw [lastVersion_messagesFrom hFit version ho, if_pos hVersion]
  | case2 offset version hFit hdr next hOther hResponse head ih =>
    have hFilter : (messagesFrom buffer offset).filter (isSearchResponse buffer) =
        offset :: (messagesFrom buffer next).filter (isSearchResponse buffer) := by
      rw [messagesFrom_of_le hFit, List.filter_cons_of_pos (by rwa [decide_eq_true_eq])]
    -- the entry made here, and those of the rest of the walk
    rw [ih, hFilter, List.map_cons]
    congr 1
    · -- no header of the walk lies before this one
      rw [lastVersion_of_le fun v hv => (bound_of_mem_messagesFrom hv).1, Option.none_or]
      cases version <;> rfl
    · refine List.map_congr_left fun o ho => ?_
      rw [lastVersion_messagesFrom hFit version ho, if_neg hOther]
  | case3 offset version hFit hdr next hOther hNot ih =>
    have hFilter : (messagesFrom buffer offset).filter (isSearchResponse buffer) =
        (messagesFrom buffer next).filter (isSearchResponse buffer) := by
      rw [messagesFrom_of_le hFit, List.filter_cons_of_neg (by rwa [decide_eq_true_eq])]
    rw [ih, hFilter]
    refine List.map_congr_left fun o ho => ?_
    rw [lastVersion_messagesFrom hFit version ho, if_neg hOther]
  | case4 offset version hFit => rw [messagesFrom_of_lt hFit, List.filter_nil, List.map_nil]

/-- The offsets of the search responses in a datagram. -/
def responseOffsets (buffer : Bytes) : List ℕ := (messages buffer).filter (isSearchResponse buffer)

/-- The nearest VERSION header before an offset. -/
def versionBefore (buffer : Bytes) (o : ℕ) : Option ℕ := lastVersion buffer (messages buffer) o

/-- **Responses.** One entry for each search response, in order, behind a copy
of the nearest VERSION header before it. -/
theorem parseSearchResponse_eq (buffer : Bytes) :
    parseSearchResponse buffer =
      (responseOffsets buffer).map fun o => responseEntry buffer (versionBefore buffer o) o := by
  rw [parseSearchResponse, searchResponseLoop_eq]
  refine List.map_congr_left fun o _ => ?_
  rw [Option.or_none]
  rfl

/-- A response lies in the buffer with its header and payload. -/
theorem bound_of_mem_responseOffsets {o : ℕ} (h : o ∈ responseOffsets buffer) :
    isSearchResponse buffer o ∧ o + Header.size + 8 ≤ buffer.length := by
  have hResponse : isSearchResponse buffer o := of_decide_eq_true (List.mem_filter.mp h).2
  refine ⟨hResponse, ?_⟩
  obtain ⟨-, hFit, hLen, -⟩ := hResponse
  rw [hLen] at hFit
  exact hFit

/-- The VERSION header of a response is one, and lies before it. -/
theorem of_versionBefore_eq_some {o v : ℕ} (h : versionBefore buffer o = some v) :
    v < o ∧ (Header.readAt buffer v).command = cmdVersion ∧ v + Header.size ≤ buffer.length := by
  have hMem := List.mem_of_getLast? h
  obtain ⟨hIn, hv⟩ := List.mem_filter.mp hMem
  rw [decide_eq_true_eq] at hv
  exact ⟨hv.1, hv.2, (bound_of_mem_messagesFrom hIn).2⟩

/-- The loop for the address stops at the first response. -/
theorem iocAddrLoop_eq (ip buffer : Bytes) (offset : ℕ) :
    iocAddrLoop ip buffer offset =
      match ((messagesFrom buffer offset).filter (isSearchResponse buffer)).head? with
      | some o => (ip, (Header.readAt buffer o).dataType)
      | none => ([], 0) := by
  fun_induction iocAddrLoop ip buffer offset with
  | case1 offset hFit hdr hResponse =>
    rw [messagesFrom_of_le hFit, List.filter_cons_of_pos (by rwa [decide_eq_true_eq])]
    rfl
  | case2 offset hFit hdr hNot ih =>
    rw [messagesFrom_of_le hFit, List.filter_cons_of_neg (by rwa [decide_eq_true_eq])]
    exact ih
  | case3 offset hFit =>
    rw [messagesFrom_of_lt hFit]
    rfl

/-- **Addresses.** The port is the one in the first search response. -/
theorem parseIocAddr_eq (ip buffer : Bytes) :
    parseIocAddr ip buffer =
      match (responseOffsets buffer).head? with
      | some o => (ip, (Header.readAt buffer o).dataType)
      | none => ([], 0) :=
  iocAddrLoop_eq ip buffer 0

-- ---------------------------------------------------------------------------
-- Updates
-- ---------------------------------------------------------------------------

/-- Fields of a header that steer no walk: neither the command nor one of the
two counts. -/
def Steady (fields : List (ℕ × Bytes)) : Prop :=
  ∀ f ∈ fields, (4 ≤ f.1 ∧ f.1 + f.2.length ≤ 6) ∨ (8 ≤ f.1 ∧ f.1 + f.2.length ≤ 16)

/-- The update of the id leaves commands and lengths alone. -/
theorem steady_idFields (chanId : UInt32) : Steady (idFields chanId) := by
  simp [Steady, idFields]

/-- So does the update of the address. -/
theorem steady_addrFields (iocIp : Bytes) (iocPort : UInt16) : Steady (addrFields iocIp iocPort) := by
  unfold Steady addrFields
  split <;> simp

variable {fields : List (ℕ × Bytes)}

/-- A write of fields to the header at `offset` changes nothing in front of
the header's third field, nothing in its fourth, and nothing behind it. -/
theorem getD_writeFields (h : Steady fields) {i : ℕ}
    (hi : i < offset + 4 ∨ (offset + 6 ≤ i ∧ i < offset + 8) ∨ offset + 16 ≤ i) :
    (writeFields buffer offset fields).getD i 0 = buffer.getD i 0 := by
  induction fields generalizing buffer with
  | nil => rfl
  | cons f fields ih =>
    have hf := h f (List.mem_cons_self ..)
    rw [writeFields, List.foldl_cons]
    -- the writes behind this one by induction, this one because it is elsewhere
    refine (ih fun g hg => h g (List.mem_cons_of_mem _ hg)).trans ?_
    exact getD_patch_of_disjoint 0 (by omega)

/-- The fields that steer the walks survive a write to their header. -/
theorem readAt_writeFields (buffer : Bytes) (offset : ℕ) (h : Steady fields) :
    (Header.readAt (writeFields buffer offset fields) offset).command =
        (Header.readAt buffer offset).command ∧
      (Header.readAt (writeFields buffer offset fields) offset).payloadLen =
        (Header.readAt buffer offset).payloadLen ∧
      (Header.readAt (writeFields buffer offset fields) offset).dataCount =
        (Header.readAt buffer offset).dataCount :=
  ⟨get16_congr fun _ _ => getD_writeFields h (by omega),
    get16_congr fun _ _ => getD_writeFields h (by omega),
    get16_congr fun _ _ => getD_writeFields h (by omega)⟩

/-- Behind the last header nothing is updated. -/
theorem updateLoop_end {updated : Bool} (h : ¬ offset + Header.size ≤ buffer.length) :
    updateLoop fields buffer offset updated = (buffer, updated) := by
  rw [updateLoop, if_neg h]

/-- A message of another kind is passed over. -/
theorem updateLoop_other {updated : Bool} (hFit : offset + Header.size ≤ buffer.length)
    (h : (Header.readAt buffer offset).command ≠ cmdSearch) :
    updateLoop fields buffer offset updated =
      updateLoop fields buffer
        (offset + Header.size + (Header.readAt buffer offset).payloadLen.toNat) updated := by
  rw [updateLoop, if_pos hFit, if_neg h]

/-- A SEARCH message is updated, and the loop goes on from it. -/
theorem updateLoop_search {updated : Bool} (hSteady : Steady fields)
    (hFit : offset + Header.size ≤ buffer.length)
    (h : (Header.readAt buffer offset).command = cmdSearch) :
    updateLoop fields buffer offset updated =
      updateLoop fields (writeFields buffer offset fields)
        (offset + Header.size + (Header.readAt buffer offset).payloadLen.toNat) true := by
  rw [updateLoop, if_pos hFit, if_pos h]
  dsimp only
  rw [(readAt_writeFields _ _ hSteady).2.1]

@[simp] theorem length_updateLoop (fields : List (ℕ × Bytes)) (reply : Bytes) (offset : ℕ)
    (updated : Bool) : (updateLoop fields reply offset updated).1.length = reply.length := by
  fun_induction updateLoop fields reply offset updated with
  | case1 reply offset updated hFit hSearch reply' ih => rw [ih, length_writeFields]
  | case2 reply offset updated hFit hOther ih => exact ih
  | case3 reply offset updated hFit => rfl

/-- An update writes nothing before the third field of the header it has got
to. -/
theorem getD_updateLoop_of_lt (hSteady : Steady fields) {reply : Bytes} {updated : Bool} {i : ℕ}
    (hi : i < offset + 4) : (updateLoop fields reply offset updated).1.getD i 0 = reply.getD i 0 := by
  fun_induction updateLoop fields reply offset updated with
  | case1 reply offset updated hFit hSearch reply' ih =>
    rw [ih (by omega), getD_writeFields hSteady (by omega)]
  | case2 reply offset updated hFit hOther ih => exact ih (by omega)
  | case3 reply offset updated hFit => rfl

-- ---------------------------------------------------------------------------
-- An ordinary datagram
-- ---------------------------------------------------------------------------

/-- What an ordinary IOC answers to the request with this id: a VERSION header
and a search response. -/
def ordinaryResponse (chanId : UInt32) : Bytes :=
  Header.version.encode ++ Header.encode ⟨cmdSearch, 8, 5064, 0, 0xFFFFFFFF, chanId⟩ ++
    [0, 13, 0, 0, 0, 0, 0, 0]

example : parseSearchResponse (ordinaryResponse 0) = [(0, ordinaryResponse 0)] := by decide +kernel

end ChannelAccess

end PVmapper
