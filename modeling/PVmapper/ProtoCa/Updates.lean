import PVmapper.ProtoCa.Responses

/-!
# PVmapper — the two updates of a reply

Both `updateSearchReply` overloads write into a reply while they walk it. What
they leave is said byte by byte: a byte of a SEARCH header on the chain is the
one the update's fields have for its place in the header, if they have one,
and every other byte is as it was. The fields steer no walk, and the headers
on a chain do not overlap, so the chain stays, and what a second update does
does not depend on the first.

* `getD_update_of_mem`, `getD_update_of_not` — the bytes after an update.
* `inPlace_update`       — the chain, the headers and the payloads are kept.
* `update_comm`, `update_of_update` — when two pairs of updates do the same.
* `updates_independent`  — the two overloads commute, and the last of two
  updates of one kind decides.
-/

namespace PVmapper

open Wire

namespace ChannelAccess

variable {fields fields' : List (ℕ × Bytes)} {reply : Bytes} {offset : ℕ}

-- ---------------------------------------------------------------------------
-- The bytes of fields
-- ---------------------------------------------------------------------------

/-- The byte these fields have for place `k` of a header, the last one if
several have one. -/
def fieldByte : List (ℕ × Bytes) → ℕ → Option UInt8
  | [], _ => none
  | f :: fields, k => (fieldByte fields k).or (if f.1 ≤ k then f.2[k - f.1]? else none)

/-- The places of a header these fields have a byte for. -/
def Covers (fields : List (ℕ × Bytes)) (written : ℕ → Prop) : Prop :=
  ∀ k, (fieldByte fields k).isSome ↔ written k

theorem Covers.eq_none {written : ℕ → Prop} (h : Covers fields written) {k : ℕ}
    (hk : ¬ written k) : fieldByte fields k = none := by
  rw [← h k] at hk
  simpa using hk

/-- `param2` -/
def InParam2 (k : ℕ) : Prop := 12 ≤ k ∧ k < 16

/-- `dataType` and `param1` -/
def InAddress (k : ℕ) : Prop := (4 ≤ k ∧ k < 6) ∨ (8 ≤ k ∧ k < 12)

/-- The update of the id writes the second parameter. -/
theorem covers_idFields (chanId : UInt32) : Covers (idFields chanId) InParam2 := by
  intro k
  unfold InParam2 idFields fieldByte fieldByte
  rw [Option.none_or]
  split
  · rw [isSome_getElem?, length_bytes32]
    omega
  · simp
    omega

/-- The update of the address writes the data type and the first parameter. -/
theorem covers_addrFields {iocIp : Bytes} {q : InAddr} (hIp : inetAton iocIp = some q)
    (iocPort : UInt16) : Covers (addrFields iocIp iocPort) InAddress := by
  intro k
  unfold InAddress addrFields
  rw [hIp]
  simp only [fieldByte, Option.none_or, Option.isSome_or, Bool.or_eq_true]
  have hParam1 : (if 8 ≤ k then q.bytes[k - 8]? else none).isSome ↔ 8 ≤ k ∧ k < 12 := by
    split
    · rw [isSome_getElem?, InAddr.length_bytes]
      omega
    · simp
      omega
  have hDataType : (if 4 ≤ k then (bytes16 iocPort)[k - 4]? else none).isSome ↔ 4 ≤ k ∧ k < 6 := by
    split
    · rw [isSome_getElem?, length_bytes16]
      omega
    · simp
      omega
  rw [hParam1, hDataType]
  exact Or.comm

/-- Fields that steer no walk have no byte for the command and the counts. -/
theorem fieldByte_of_steady (hSteady : Steady fields) {k : ℕ} (hk : k < 4 ∨ (6 ≤ k ∧ k < 8)) :
    fieldByte fields k = none := by
  induction fields with
  | nil => rfl
  | cons f fields ih =>
    have hf := hSteady f (List.mem_cons_self ..)
    rw [fieldByte, ih fun g hg => hSteady g (List.mem_cons_of_mem _ hg), Option.none_or]
    split
    · rw [List.getElem?_eq_none]
      omega
    · rfl

/-- What a write of fields makes of the bytes of the header. -/
theorem getD_writeFields_at (hSteady : Steady fields) (hFit : offset + Header.size ≤ reply.length)
    (k : ℕ) : (writeFields reply offset fields).getD (offset + k) 0 =
      (fieldByte fields k).getD (reply.getD (offset + k) 0) := by
  have hSize : Header.size = 16 := rfl
  induction fields generalizing reply with
  | nil => rfl
  | cons f fields ih =>
    have hf := hSteady f (List.mem_cons_self ..)
    rw [writeFields, List.foldl_cons]
    -- the fields behind this one by induction, on a reply that has this one
    refine (ih (fun g hg => hSteady g (List.mem_cons_of_mem _ hg))
      (by rw [length_patch]; exact hFit)).trans ?_
    rw [fieldByte]
    cases fieldByte fields k with
    | some x => rfl
    | none =>
      rw [Option.getD_none, Option.none_or]
      by_cases hk : f.1 ≤ k ∧ k < f.1 + f.2.length
      · have hAt := @getD_patch_self _ reply (offset + f.1) (k - f.1) f.2 0 (by omega) (by omega)
        rw [show offset + f.1 + (k - f.1) = offset + k by omega] at hAt
        rw [hAt, if_pos hk.1, List.getD_eq_getElem?_getD, List.getElem?_eq_getElem (by omega)]
        rfl
      · rw [getD_patch_of_disjoint 0 (by omega)]
        split
        · rw [List.getElem?_eq_none (by omega), Option.getD_none]
        · rfl

-- ---------------------------------------------------------------------------
-- The bytes after an update
-- ---------------------------------------------------------------------------

/-- The offsets of the SEARCH headers a walk from `offset` on visits. -/
def searchHeadersFrom (reply : Bytes) (offset : ℕ) : List ℕ :=
  (messagesFrom reply offset).filter fun o => (Header.readAt reply o).command = cmdSearch

/-- The offsets of the SEARCH headers on the chain. -/
def searchHeaders (reply : Bytes) : List ℕ := searchHeadersFrom reply 0

theorem bound_of_mem_searchHeadersFrom {o : ℕ} (h : o ∈ searchHeadersFrom reply offset) :
    offset ≤ o ∧ o + Header.size ≤ reply.length :=
  bound_of_mem_messagesFrom (List.mem_of_mem_filter h)

/-- Replies that agree on the steering fields of the headers of one have the
same chain. -/
theorem messagesFrom_congr {reply' : Bytes} (hLength : reply'.length = reply.length)
    (hSame : ∀ o ∈ messagesFrom reply offset, ∀ k < 4,
      reply'.getD (o + k) 0 = reply.getD (o + k) 0) :
    messagesFrom reply' offset = messagesFrom reply offset := by
  unfold messagesFrom
  rw [hLength]
  refine offsets_congr fun o ho => ?_
  have hLen : (Header.readAt reply' o).payloadLen = (Header.readAt reply o).payloadLen :=
    get16_congr fun i hi => by
      rw [Nat.add_assoc]
      exact hSame o ho (2 + i) (by omega)
  rw [hLen]

/-- Which headers are SEARCH headers is decided by commands and lengths. -/
theorem searchHeadersFrom_congr {reply' : Bytes} (hLength : reply'.length = reply.length)
    (hSame : ∀ o ∈ messagesFrom reply offset, ∀ k < 4,
      reply'.getD (o + k) 0 = reply.getD (o + k) 0) :
    searchHeadersFrom reply' offset = searchHeadersFrom reply offset := by
  unfold searchHeadersFrom
  rw [messagesFrom_congr hLength hSame]
  refine List.filter_congr fun o ho => ?_
  have hCommand : (Header.readAt reply' o).command = (Header.readAt reply o).command :=
    get16_congr fun i hi => hSame o ho i (by omega)
  rw [hCommand]

/-- Behind a header that was written to the chain is the same. -/
theorem searchHeadersFrom_writeFields (hSteady : Steady fields) {next : ℕ}
    (hNext : offset + Header.size ≤ next) :
    searchHeadersFrom (writeFields reply offset fields) next = searchHeadersFrom reply next := by
  have hSize : Header.size = 16 := rfl
  refine searchHeadersFrom_congr (length_writeFields ..) fun o ho k _ => ?_
  have := (bound_of_mem_messagesFrom ho).1
  exact getD_writeFields hSteady (by omega)

theorem searchHeadersFrom_search (hFit : offset + Header.size ≤ reply.length)
    (h : (Header.readAt reply offset).command = cmdSearch) :
    searchHeadersFrom reply offset = offset :: searchHeadersFrom reply
      (offset + Header.size + (Header.readAt reply offset).payloadLen.toNat) := by
  rw [searchHeadersFrom, messagesFrom_of_le hFit, List.filter_cons_of_pos (by simpa using h)]
  rfl

theorem searchHeadersFrom_other (hFit : offset + Header.size ≤ reply.length)
    (h : (Header.readAt reply offset).command ≠ cmdSearch) :
    searchHeadersFrom reply offset = searchHeadersFrom reply
      (offset + Header.size + (Header.readAt reply offset).payloadLen.toNat) := by
  rw [searchHeadersFrom, messagesFrom_of_le hFit, List.filter_cons_of_neg (by simpa using h)]
  rfl

/-- What an update does, byte by byte, and what it answers. -/
theorem updateLoop_spec (hSteady : Steady fields) (reply : Bytes) (offset : ℕ) (updated : Bool) :
    (∀ o ∈ searchHeadersFrom reply offset, ∀ k < 16,
        (updateLoop fields reply offset updated).1.getD (o + k) 0 =
          (fieldByte fields k).getD (reply.getD (o + k) 0)) ∧
      (∀ i, (∀ o ∈ searchHeadersFrom reply offset, i < o ∨ o + 16 ≤ i) →
        (updateLoop fields reply offset updated).1.getD i 0 = reply.getD i 0) ∧
      (updateLoop fields reply offset updated).2 =
        (updated || !(searchHeadersFrom reply offset).isEmpty) := by
  have hSize : Header.size = 16 := rfl
  fun_induction updateLoop fields reply offset updated with
  | case1 reply offset updated hFit hSearch reply' ih =>
    -- behind the header written to the loop goes on as it would have before
    have hLen : (Header.readAt reply' offset).payloadLen = (Header.readAt reply offset).payloadLen :=
      (readAt_writeFields reply offset hSteady).2.1
    have hBehind := @searchHeadersFrom_writeFields fields reply offset hSteady
      (offset + Header.size + (Header.readAt reply offset).payloadLen.toNat) (by omega)
    rw [hLen, hBehind] at ih
    rw [hLen, searchHeadersFrom_search hFit hSearch]
    obtain ⟨ihIn, ihOut, ihUpdated⟩ := ih
    have hFar : ∀ o ∈ searchHeadersFrom reply
        (offset + Header.size + (Header.readAt reply offset).payloadLen.toNat), offset + 16 ≤ o := by
      intro o ho
      have := (bound_of_mem_searchHeadersFrom ho).1
      omega
    refine ⟨fun o ho k hk => ?_, fun i hi => ?_, ?_⟩
    · rcases List.mem_cons.mp ho with rfl | ho
      · rw [ihOut (o + k) fun o' ho' => by
          have := hFar o' ho'
          omega]
        exact getD_writeFields_at hSteady hFit k
      · have := hFar o ho
        rw [ihIn o ho k hk, getD_writeFields hSteady (by omega)]
    · have hHere := hi offset (List.mem_cons_self ..)
      rw [ihOut i fun o ho => hi o (List.mem_cons_of_mem _ ho),
        getD_writeFields hSteady (by omega)]
    · rw [ihUpdated]
      simp
  | case2 reply offset updated hFit hOther ih =>
    rw [searchHeadersFrom_other hFit hOther]
    exact ih
  | case3 reply offset updated hFit =>
    have hNone : searchHeadersFrom reply offset = [] := by
      rw [searchHeadersFrom, messagesFrom_of_lt hFit, List.filter_nil]
    rw [hNone]
    simp

/-- A whole update with these fields. -/
def update (fields : List (ℕ × Bytes)) (reply : Bytes) : Bytes × Bool :=
  updateLoop fields reply 0 false

/-- The bytes of a SEARCH header after an update. -/
theorem getD_update_of_mem (hSteady : Steady fields) {o k : ℕ} (ho : o ∈ searchHeaders reply)
    (hk : k < 16) : (update fields reply).1.getD (o + k) 0 =
      (fieldByte fields k).getD (reply.getD (o + k) 0) :=
  (updateLoop_spec hSteady reply 0 false).1 o ho k hk

/-- All other bytes stay as they are. -/
theorem getD_update_of_not (hSteady : Steady fields) {i : ℕ}
    (hi : ∀ o ∈ searchHeaders reply, i < o ∨ o + 16 ≤ i) :
    (update fields reply).1.getD i 0 = reply.getD i 0 :=
  (updateLoop_spec hSteady reply 0 false).2.1 i hi

/-- An update reports whether there was a SEARCH header. -/
theorem updated_eq (hSteady : Steady fields) (reply : Bytes) :
    (update fields reply).2 = !(searchHeaders reply).isEmpty :=
  (updateLoop_spec hSteady reply 0 false).2.2.trans (Bool.false_or _)

theorem length_update (fields : List (ℕ × Bytes)) (reply : Bytes) :
    (update fields reply).1.length = reply.length :=
  length_updateLoop ..

-- ---------------------------------------------------------------------------
-- What is kept
-- ---------------------------------------------------------------------------

/-- Two headers on the chain and their payloads lie apart. -/
theorem apart_of_mem_messages {o o' : ℕ} (ho : o ∈ messages reply) (ho' : o' ∈ messages reply)
    (hne : o ≠ o') :
    o + Header.size + (Header.readAt reply o).payloadLen.toNat ≤ o' ∨
      o' + Header.size + (Header.readAt reply o').payloadLen.toNat ≤ o := by
  obtain ⟨i, hi, rfl⟩ := List.mem_iff_getElem.mp ho
  obtain ⟨j, hj, rfl⟩ := List.mem_iff_getElem.mp ho'
  -- whichever comes first on the chain ends before the other
  have hOrder := List.pairwise_iff_getElem.mp (pairwise_messagesFrom reply 0)
  rcases Nat.lt_trichotomy i j with hLt | rfl | hLt
  · exact Or.inl (hOrder i j hi hj hLt)
  · exact absurd rfl hne
  · exact Or.inr (hOrder j i hj hi hLt)

/-- The bytes of a header that no field is written to, and of its payload. -/
theorem getD_update_of_message (hSteady : Steady fields) {o k : ℕ} (ho : o ∈ messages reply)
    (hk : k < 16 ∧ fieldByte fields k = none ∨
      16 ≤ k ∧ k < 16 + (Header.readAt reply o).payloadLen.toNat) :
    (update fields reply).1.getD (o + k) 0 = reply.getD (o + k) 0 := by
  have hSize : Header.size = 16 := rfl
  have hOthers : ∀ o' ∈ searchHeaders reply, o' ≠ o → o + k < o' ∨ o' + 16 ≤ o + k := by
    intro o' ho' hne
    have := apart_of_mem_messages ho (List.mem_of_mem_filter ho') (Ne.symm hne)
    omega
  by_cases hSearch : o ∈ searchHeaders reply
  · rcases hk with ⟨hk, hNone⟩ | ⟨hk, -⟩
    · rw [getD_update_of_mem hSteady hSearch hk, hNone, Option.getD_none]
    · refine getD_update_of_not hSteady fun o' ho' => ?_
      by_cases hEq : o' = o
      · omega
      · exact hOthers o' ho' hEq
  · exact getD_update_of_not hSteady fun o' ho' => hOthers o' ho' fun hEq => hSearch (hEq ▸ ho')

/-- An update leaves the messages where they are. -/
theorem messages_update (hSteady : Steady fields) (reply : Bytes) :
    messages (update fields reply).1 = messages reply :=
  messagesFrom_congr (length_update ..) fun _ ho _ hk =>
    getD_update_of_message hSteady ho
      (Or.inl ⟨by omega, fieldByte_of_steady hSteady (Or.inl hk)⟩)

/-- And the SEARCH messages among them. -/
theorem searchHeaders_update (hSteady : Steady fields) (reply : Bytes) :
    searchHeaders (update fields reply).1 = searchHeaders reply :=
  searchHeadersFrom_congr (length_update ..) fun _ ho _ hk =>
    getD_update_of_message hSteady ho
      (Or.inl ⟨by omega, fieldByte_of_steady hSteady (Or.inl hk)⟩)

/-- `reply'` is `reply` with nothing changed but these places of the SEARCH
headers: it has the same length and the same chain of headers, with the same
commands, counts and payloads. -/
structure InPlace (written : ℕ → Prop) (reply reply' : Bytes) : Prop where
  length : reply'.length = reply.length
  chain : messages reply' = messages reply
  command : ∀ o ∈ messages reply,
    (Header.readAt reply' o).command = (Header.readAt reply o).command
  payloadLen : ∀ o ∈ messages reply,
    (Header.readAt reply' o).payloadLen = (Header.readAt reply o).payloadLen
  dataCount : ∀ o ∈ messages reply,
    (Header.readAt reply' o).dataCount = (Header.readAt reply o).dataCount
  payload : ∀ o ∈ messages reply, payload reply' o = payload reply o
  other : ∀ i, (∀ o ∈ searchHeaders reply, ∀ k, written k → i ≠ o + k) →
    reply'.getD i 0 = reply.getD i 0

theorem payload_eq_of_getD {reply' : Bytes} {o : ℕ} (hLength : reply'.length = reply.length)
    (hLen : (Header.readAt reply' o).payloadLen = (Header.readAt reply o).payloadLen)
    (hSame : ∀ k, 16 ≤ k → k < 16 + (Header.readAt reply o).payloadLen.toNat →
      reply'.getD (o + k) 0 = reply.getD (o + k) 0) :
    payload reply' o = payload reply o := by
  have hSize : Header.size = 16 := rfl
  unfold payload slice
  rw [hLen]
  refine List.ext_getElem? fun i => ?_
  by_cases hi : i < (Header.readAt reply o).payloadLen.toNat
  · have hAt := hSame (16 + i) (by omega) (by omega)
    rw [List.getElem?_take_of_lt hi, List.getElem?_take_of_lt hi, List.getElem?_drop,
      List.getElem?_drop, hSize, Nat.add_assoc]
    -- inside the buffer the bytes are the same, behind it there are none
    by_cases hIn : o + (16 + i) < reply.length
    · rw [List.getD_eq_getElem _ _ (by omega), List.getD_eq_getElem _ _ hIn] at hAt
      rw [List.getElem?_eq_getElem (by omega), List.getElem?_eq_getElem hIn, hAt]
    · rw [List.getElem?_eq_none (by omega), List.getElem?_eq_none (by omega)]
  · rw [List.getElem?_eq_none, List.getElem?_eq_none]
    · rw [List.length_take]
      omega
    · rw [List.length_take]
      omega

/-- **An update is in place.** -/
theorem inPlace_update (hSteady : Steady fields) {written : ℕ → Prop} (hCovers : Covers fields written)
    (reply : Bytes) : InPlace written reply (update fields reply).1 := by
  have hSize : Header.size = 16 := rfl
  have hKept : ∀ o ∈ messages reply, ∀ k, k < 4 ∨ (6 ≤ k ∧ k < 8) →
      (update fields reply).1.getD (o + k) 0 = reply.getD (o + k) 0 := fun o ho k hk =>
    getD_update_of_message hSteady ho (Or.inl ⟨by omega, fieldByte_of_steady hSteady hk⟩)
  have hLen : ∀ o ∈ messages reply, (Header.readAt (update fields reply).1 o).payloadLen =
      (Header.readAt reply o).payloadLen := fun o ho => get16_congr fun i hi => by
    rw [Nat.add_assoc]
    exact hKept o ho (2 + i) (by omega)
  refine ⟨length_update .., messages_update hSteady reply, fun o ho => ?_, hLen, fun o ho => ?_,
    fun o ho => ?_, fun i hi => ?_⟩
  · exact get16_congr fun i hi => hKept o ho i (by omega)
  · refine get16_congr fun i hi => ?_
    rw [Nat.add_assoc]
    exact hKept o ho (6 + i) (by omega)
  · exact payload_eq_of_getD (length_update ..) (hLen o ho) fun k hk hk' =>
      getD_update_of_message hSteady ho (Or.inr ⟨hk, hk'⟩)
  · by_cases hIn : ∃ o ∈ searchHeaders reply, o ≤ i ∧ i < o + 16
    · -- a place of a SEARCH header that no field covers
      obtain ⟨o, ho, hLe, hLt⟩ := hIn
      obtain ⟨k, rfl⟩ := Nat.exists_eq_add_of_le hLe
      have hNot : ¬ written k := fun hk => hi o ho k hk rfl
      rw [getD_update_of_mem hSteady ho (by omega), hCovers.eq_none hNot, Option.getD_none]
    · refine getD_update_of_not hSteady fun o ho => ?_
      have : ¬ (o ≤ i ∧ i < o + 16) := fun h => hIn ⟨o, ho, h⟩
      omega

-- ---------------------------------------------------------------------------
-- One update after another
-- ---------------------------------------------------------------------------

/-- After two updates a SEARCH header has the second one's bytes, and where
that has none the first one's. -/
theorem getD_update_update (hSteady : Steady fields) (hSteady' : Steady fields') {o k : ℕ}
    (ho : o ∈ searchHeaders reply) (hk : k < 16) :
    (update fields' (update fields reply).1).1.getD (o + k) 0 =
      ((fieldByte fields' k).or (fieldByte fields k)).getD (reply.getD (o + k) 0) := by
  rw [getD_update_of_mem hSteady' (by rwa [searchHeaders_update hSteady]) hk,
    getD_update_of_mem hSteady ho hk]
  cases fieldByte fields' k <;> rfl

/-- Replies of the same length that agree in and outside the SEARCH headers of
a third are the same. -/
theorem eq_of_searchHeaders {r r' : Bytes} (hLength : r.length = r'.length)
    (hIn : ∀ o ∈ searchHeaders reply, ∀ k < 16, r.getD (o + k) 0 = r'.getD (o + k) 0)
    (hOut : ∀ i, (∀ o ∈ searchHeaders reply, i < o ∨ o + 16 ≤ i) → r.getD i 0 = r'.getD i 0) :
    r = r' := by
  refine List.ext_getElem hLength fun i hi hi' => ?_
  rw [← List.getD_eq_getElem _ 0 hi, ← List.getD_eq_getElem _ 0 hi']
  by_cases hHeader : ∃ o ∈ searchHeaders reply, o ≤ i ∧ i < o + 16
  · obtain ⟨o, ho, hLe, hLt⟩ := hHeader
    obtain ⟨k, rfl⟩ := Nat.exists_eq_add_of_le hLe
    exact hIn o ho k (by omega)
  · refine hOut i fun o ho => ?_
    have : ¬ (o ≤ i ∧ i < o + 16) := fun h => hHeader ⟨o, ho, h⟩
    omega

/-- Two updates that have disjoint places do the same in either order. -/
theorem update_comm {written written' : ℕ → Prop} (hSteady : Steady fields)
    (hSteady' : Steady fields') (hCovers : Covers fields written)
    (hCovers' : Covers fields' written') (hApart : ∀ k, written k → ¬ written' k) (reply : Bytes) :
    update fields' (update fields reply).1 = update fields (update fields' reply).1 := by
  refine Prod.ext (@eq_of_searchHeaders reply _ _ ?_ ?_ ?_) ?_
  · rw [length_update, length_update, length_update, length_update]
  · intro o ho k hk
    rw [getD_update_update hSteady hSteady' ho hk, getD_update_update hSteady' hSteady ho hk]
    by_cases hWritten : written k
    · rw [hCovers'.eq_none (hApart k hWritten), Option.none_or, Option.or_none]
    · rw [hCovers.eq_none hWritten, Option.none_or, Option.or_none]
  · intro i hi
    rw [getD_update_of_not hSteady' (by rwa [searchHeaders_update hSteady]),
      getD_update_of_not hSteady hi,
      getD_update_of_not hSteady (by rwa [searchHeaders_update hSteady']),
      getD_update_of_not hSteady' hi]
  · rw [updated_eq hSteady', updated_eq hSteady, searchHeaders_update hSteady,
      searchHeaders_update hSteady']

/-- Of two updates that have the same places the last one decides. -/
theorem update_of_update {written : ℕ → Prop} (hSteady : Steady fields)
    (hSteady' : Steady fields') (hCovers : Covers fields written)
    (hCovers' : Covers fields' written) (reply : Bytes) :
    update fields' (update fields reply).1 = update fields' reply := by
  refine Prod.ext (@eq_of_searchHeaders reply _ _ ?_ ?_ ?_) ?_
  · rw [length_update, length_update, length_update]
  · intro o ho k hk
    rw [getD_update_update hSteady hSteady' ho hk, getD_update_of_mem hSteady' ho hk]
    by_cases hWritten : written k
    · obtain ⟨x, hx⟩ := Option.isSome_iff_exists.mp ((hCovers' k).mpr hWritten)
      rw [hx, Option.some_or]
    · rw [hCovers.eq_none hWritten, Option.or_none]
  · intro i hi
    rw [getD_update_of_not hSteady' (by rwa [searchHeaders_update hSteady]),
      getD_update_of_not hSteady hi, getD_update_of_not hSteady' hi]
  · rw [updated_eq hSteady', updated_eq hSteady', searchHeaders_update hSteady]

-- ---------------------------------------------------------------------------
-- The two overloads
-- ---------------------------------------------------------------------------

/-- The id is written into every SEARCH header. -/
theorem param2_updateSearchReplyId {o : ℕ} (ho : o ∈ searchHeaders reply) (chanId : UInt32) :
    (Header.readAt (updateSearchReplyId reply chanId).1 o).param2 = chanId := by
  have hAt : ∀ k < 16, (updateSearchReplyId reply chanId).1.getD (o + k) 0 =
      (fieldByte (idFields chanId) k).getD (reply.getD (o + k) 0) :=
    fun k hk => getD_update_of_mem (steady_idFields chanId) ho hk
  show u32 _ _ _ _ = chanId
  simp only [Nat.add_assoc, Nat.reduceAdd]
  rw [hAt 12 (by omega), hAt 13 (by omega), hAt 14 (by omega), hAt 15 (by omega)]
  exact u32_bytes32 chanId

/-- So is the address. -/
theorem address_updateSearchReplyAddr {o : ℕ} (ho : o ∈ searchHeaders reply) {iocIp : Bytes}
    {q : InAddr} (hIp : inetAton iocIp = some q) (iocPort : UInt16) :
    (Header.readAt (updateSearchReplyAddr reply iocIp iocPort).1 o).dataType = iocPort ∧
      (Header.readAt (updateSearchReplyAddr reply iocIp iocPort).1 o).param1 = addrNumber q := by
  have hFields : addrFields iocIp iocPort = [(4, bytes16 iocPort), (8, q.bytes)] := by
    rw [addrFields, hIp]
  have hAt : ∀ k < 16, (updateSearchReplyAddr reply iocIp iocPort).1.getD (o + k) 0 =
      (fieldByte (addrFields iocIp iocPort) k).getD (reply.getD (o + k) 0) :=
    fun k hk => getD_update_of_mem (steady_addrFields iocIp iocPort) ho hk
  rw [hFields] at hAt
  constructor
  · show u16 _ _ = iocPort
    simp only [Nat.add_assoc, Nat.reduceAdd]
    rw [hAt 4 (by omega), hAt 5 (by omega)]
    exact u16_bytes16 iocPort
  · show u32 _ _ _ _ = addrNumber q
    simp only [Nat.add_assoc, Nat.reduceAdd]
    rw [hAt 8 (by omega), hAt 9 (by omega), hAt 10 (by omega), hAt 11 (by omega)]
    rfl

/-- **Independent in-place writes.** Whatever the bytes of a reply, the two
overloads write `param2`, or `dataType` and `param1`, of the SEARCH headers on
its chain and nothing else; they give the same answer; they commute; and of
two updates of one kind the last one decides. -/
theorem updates_independent {iocIp iocIp' : Bytes} {q q' : InAddr} (hIp : inetAton iocIp = some q)
    (hIp' : inetAton iocIp' = some q') (reply : Bytes) (chanId chanId' : UInt32)
    (iocPort iocPort' : UInt16) :
    InPlace InParam2 reply (updateSearchReplyId reply chanId).1 ∧
      InPlace InAddress reply (updateSearchReplyAddr reply iocIp iocPort).1 ∧
      (∀ o ∈ searchHeaders reply,
        (Header.readAt (updateSearchReplyId reply chanId).1 o).param2 = chanId ∧
          (Header.readAt (updateSearchReplyAddr reply iocIp iocPort).1 o).dataType = iocPort ∧
          (Header.readAt (updateSearchReplyAddr reply iocIp iocPort).1 o).param1 = addrNumber q) ∧
      (updateSearchReplyId reply chanId).2 = (updateSearchReplyAddr reply iocIp iocPort).2 ∧
      updateSearchReplyAddr (updateSearchReplyId reply chanId).1 iocIp iocPort =
        updateSearchReplyId (updateSearchReplyAddr reply iocIp iocPort).1 chanId ∧
      updateSearchReplyId (updateSearchReplyId reply chanId).1 chanId' =
        updateSearchReplyId reply chanId' ∧
      updateSearchReplyAddr (updateSearchReplyAddr reply iocIp iocPort).1 iocIp' iocPort' =
        updateSearchReplyAddr reply iocIp' iocPort' := by
  have hId := steady_idFields
  have hAddr := steady_addrFields
  have hInId := covers_idFields
  have hInAddr := covers_addrFields hIp
  refine ⟨inPlace_update (hId chanId) (hInId chanId) reply,
    inPlace_update (hAddr iocIp iocPort) (hInAddr iocPort) reply, fun o ho => ?_, ?_, ?_,
    update_of_update (hId chanId) (hId chanId') (hInId chanId) (hInId chanId') reply,
    update_of_update (hAddr iocIp iocPort) (hAddr iocIp' iocPort') (hInAddr iocPort)
      (covers_addrFields hIp' iocPort') reply⟩
  · exact ⟨param2_updateSearchReplyId ho chanId, address_updateSearchReplyAddr ho hIp iocPort⟩
  · exact (updated_eq (hId chanId) reply).trans (updated_eq (hAddr iocIp iocPort) reply).symm
  · refine update_comm (hId chanId) (hAddr iocIp iocPort) (hInId chanId) (hInAddr iocPort) ?_ reply
    intro k hParam2 hAddress
    unfold InParam2 at hParam2
    unfold InAddress at hAddress
    omega

/-- Two clients get the same stored reply, each with its own id. -/
theorem updates_independent_twoClients :
    updateSearchReplyId (updateSearchReplyId (ordinaryResponse 7) 1).1 2 =
        updateSearchReplyId (ordinaryResponse 7) 2 ∧
      updateSearchReplyAddr (updateSearchReplyId (ordinaryResponse 7) 1).1
          (inetNtop ⟨10, 0, 0, 7⟩) 5070 =
        updateSearchReplyId
          (updateSearchReplyAddr (ordinaryResponse 7) (inetNtop ⟨10, 0, 0, 7⟩) 5070).1 1 := by
  obtain ⟨-, -, -, -, hComm, hLast, -⟩ :=
    updates_independent (inetAton_inetNtop ⟨10, 0, 0, 7⟩) (inetAton_inetNtop ⟨10, 0, 0, 8⟩)
      (ordinaryResponse 7) 1 2 5070 5071
  exact ⟨hLast, hComm⟩

end ChannelAccess

end PVmapper
