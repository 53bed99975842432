import PVmapper.ProtoCa.Messages
import PVmapper.ProtoCa.Replies

/-!
# PVmapper — the two walkers over an IOC's datagram

`parseIocAddr` looks for the first search response, `parseSearchResponse`
collects them all. The two loops are written separately, with the same test;
what one of them accepts the other accepts too, on whatever bytes arrive.

* `versionBefore_eq_some`      — the VERSION header in front of an entry is the
  nearest one before the response.
* `parseSearchResponse_prefix` — a prefix of a buffer gives a prefix of the
  entries.
* `walkers_agree`              — the address is that of the first entry, and
  what the entries are made of.
-/

namespace PVmapper

open Wire

namespace ChannelAccess

variable {buffer : Bytes} {offset : ℕ}

-- ---------------------------------------------------------------------------
-- The nearest VERSION header
-- ---------------------------------------------------------------------------

/-- A message begins where the one before it has ended, or later. -/
theorem pairwise_messagesFrom (buffer : Bytes) (offset : ℕ) :
    (messagesFrom buffer offset).Pairwise fun o o' =>
      o + Header.size + (Header.readAt buffer o).payloadLen.toNat ≤ o' :=
  pairwise_offsets ..

/-- `v` is the nearest VERSION header before offset `o`. -/
structure NearestVersion (buffer : Bytes) (v o : ℕ) : Prop where
  mem : v ∈ messages buffer
  command : (Header.readAt buffer v).command = cmdVersion
  before : v < o
  nearest : ∀ u ∈ messages buffer, (Header.readAt buffer u).command = cmdVersion → u < o → u ≤ v

/-- The VERSION header in front of a response is the nearest one. -/
theorem versionBefore_eq_some {v o : ℕ} (h : versionBefore buffer o = some v) :
    NearestVersion buffer v o := by
  have hMem := List.mem_of_getLast? h
  obtain ⟨hIn, hv⟩ := List.mem_filter.mp hMem
  rw [decide_eq_true_eq] at hv
  refine ⟨hIn, hv.2, hv.1, fun u hu hVersion hBefore => ?_⟩
  -- the headers are met in the order of their offsets, and `v` is the last one
  have hSorted := (pairwise_messagesFrom buffer 0).filter fun v =>
    decide (v < o ∧ (Header.readAt buffer v).command = cmdVersion)
  obtain ⟨front, hFront⟩ := List.getLast?_eq_some_iff.mp h
  have hu' : u ∈ front ++ [v] := by
    rw [← hFront]
    exact List.mem_filter.mpr ⟨hu, decide_eq_true ⟨hBefore, hVersion⟩⟩
  unfold messages at hFront
  rw [hFront, List.pairwise_append] at hSorted
  rcases List.mem_append.mp hu' with hu' | hu'
  · have := hSorted.2.2 u hu' v (List.mem_singleton_self v)
    omega
  · rw [List.mem_singleton.mp hu']

/-- Without one, no VERSION header lies before the response. -/
theorem versionBefore_eq_none {o : ℕ} (h : versionBefore buffer o = none) :
    ∀ v ∈ messages buffer, v < o → (Header.readAt buffer v).command ≠ cmdVersion := by
  intro v hv hBefore hVersion
  have hNil := List.getLast?_eq_none_iff.mp h
  have hIn : v ∈ (messages buffer).filter fun v =>
      decide (v < o ∧ (Header.readAt buffer v).command = cmdVersion) :=
    List.mem_filter.mpr ⟨hv, decide_eq_true ⟨hBefore, hVersion⟩⟩
  rw [hNil] at hIn
  exact absurd hIn List.not_mem_nil

-- ---------------------------------------------------------------------------
-- Cut anywhere
-- ---------------------------------------------------------------------------

/-- Up to where a buffer is cut off, the loop makes the same entries. -/
theorem searchResponseLoop_prefix (buffer back : Bytes) (offset : ℕ) (version : Option ℕ)
    (hVersion : ∀ v, version = some v → v + Header.size ≤ buffer.length) :
    searchResponseLoop buffer offset version <+:
      searchResponseLoop (buffer ++ back) offset version := by
  have hFits : ∀ {n}, n ≤ buffer.length → n ≤ (buffer ++ back).length := by
    intro n hn
    rw [List.length_append]
    omega
  fun_induction searchResponseLoop buffer offset version with
  | case1 offset version hFit hdr next hCommand ih =>
    have hHeader := readAt_append_left hFit back
    rw [searchResponseLoop.eq_def (buffer ++ back), if_pos (hFits hFit)]
    dsimp only
    rw [hHeader, if_pos hCommand]
    refine ih fun v hv => ?_
    obtain rfl := Option.some.inj hv
    exact hFit
  | case2 offset version hFit hdr next hCommand hResponse head ih =>
    have hHeader := readAt_append_left hFit back
    have hResponse' : isSearchResponse (buffer ++ back) offset := by
      obtain ⟨hSearch, hWhole, hLen, hCount⟩ := hResponse
      unfold isSearchResponse
      rw [hHeader]
      exact ⟨hSearch, hFits hWhole, hLen, hCount⟩
    have hWhole : offset + (Header.size + 8) ≤ buffer.length := by
      obtain ⟨-, hWhole, hLen, -⟩ := hResponse
      rw [hLen] at hWhole
      exact hWhole
    have hEntry : slice (buffer ++ back) offset (Header.size + 8) =
        slice buffer offset (Header.size + 8) := slice_append_left hWhole back
    rw [searchResponseLoop.eq_def (buffer ++ back), if_pos (hFits hFit)]
    dsimp only
    rw [hHeader, if_neg hCommand, if_pos hResponse', hEntry]
    refine List.cons_prefix_cons.mpr ⟨?_, ih hVersion⟩
    -- the VERSION header remembered lies in the front part as well
    cases version with
    | none => rfl
    | some v =>
      have hHead := slice_append_left (hVersion v rfl) back
      simp only [hHead]
      rfl
  | case3 offset version hFit hdr next hCommand hNot ih =>
    have hHeader := readAt_append_left hFit back
    rw [searchResponseLoop.eq_def (buffer ++ back), if_pos (hFits hFit)]
    dsimp only
    rw [hHeader, if_neg hCommand]
    by_cases hWhole : next ≤ buffer.length
    · -- its payload is all there, so it is no response of the whole either
      have hNot' : ¬ isSearchResponse (buffer ++ back) offset := by
        intro hResponse
        obtain ⟨hSearch, -, hLen, hCount⟩ := hResponse
        rw [hHeader] at hSearch hLen hCount
        exact hNot ⟨hSearch, hWhole, hLen, hCount⟩
      rw [if_neg hNot']
      exact ih hVersion
    · -- its payload is cut off, and so is everything behind it
      rw [searchResponseLoop.eq_def buffer next, if_neg (by omega)]
      exact List.nil_prefix
  | case4 offset version hFit => exact List.nil_prefix

theorem parseSearchResponse_prefix {b' b : Bytes} (h : b' <+: b) :
    parseSearchResponse b' <+: parseSearchResponse b := by
  obtain ⟨back, rfl⟩ := h
  exact searchResponseLoop_prefix b' back 0 none fun v hv => absurd hv (by simp)

-- ---------------------------------------------------------------------------
-- Entries
-- ---------------------------------------------------------------------------

/-- The SEARCH header in an entry of `parseSearchResponse`: the response is at
the end of the entry. -/
def searchHeader (entry : Bytes) : Header :=
  Header.readAt entry (entry.length - (Header.size + 8))

/-- What the entry of the response at `o` is: the 24 bytes of the response, or
the nearest VERSION header before it and then those. -/
def IsEntry (buffer : Bytes) (o : ℕ) (entry : Bytes) : Prop :=
  (entry = slice buffer o 24 ∧ entry.length = 24 ∧
      ∀ v ∈ messages buffer, v < o → (Header.readAt buffer v).command ≠ cmdVersion) ∨
    ∃ v, NearestVersion buffer v o ∧ entry = slice buffer v 16 ++ slice buffer o 24 ∧
      entry.length = 40

/-- Every entry is made of its response and the VERSION header before it. -/
theorem isEntry_responseEntry {o : ℕ} (ho : o ∈ responseOffsets buffer) :
    IsEntry buffer o (responseEntry buffer (versionBefore buffer o) o).2 := by
  have hLength := (replyAt_responseEntry ho (versionBefore buffer o)).length
  cases hVersion : versionBefore buffer o with
  | none =>
    rw [hVersion] at hLength
    exact Or.inl ⟨rfl, hLength, versionBefore_eq_none hVersion⟩
  | some v =>
    obtain ⟨-, -, hFit⟩ := of_versionBefore_eq_some hVersion
    rw [hVersion, (readAt_versionHead hFit o).1] at hLength
    exact Or.inr ⟨v, versionBefore_eq_some hVersion, rfl, hLength⟩

theorem searchHeader_responseEntry {o : ℕ} (ho : o ∈ responseOffsets buffer) (version : Option ℕ) :
    searchHeader (responseEntry buffer version o).2 = Header.readAt buffer o := by
  have hLength := (replyAt_responseEntry ho version).length
  rw [searchHeader, hLength, show ∀ n, n + 24 - (Header.size + 8) = n from fun n => by
    rw [show Header.size + 8 = 24 from rfl]
    omega, readAt_versionHead_length]

/-- The address is the one announced by the first entry, if there is one. -/
theorem parseIocAddr_eq_head (ip buffer : Bytes) :
    parseIocAddr ip buffer =
      match (parseSearchResponse buffer).head? with
      | some entry => (ip, (searchHeader entry.2).dataType)
      | none => ([], 0) := by
  rw [parseIocAddr_eq, parseSearchResponse_eq, List.head?_map]
  cases hFirst : (responseOffsets buffer).head? with
  | none => rfl
  | some o =>
    have ho := List.mem_of_head? hFirst
    simp only [Option.map_some]
    rw [searchHeader_responseEntry ho]

/-- What `inet_ntop` prints is not empty. -/
theorem inetNtop_ne (q : InAddr) : inetNtop q ≠ [] := by
  unfold inetNtop
  simp

/-- **The two walkers agree.** On any bytes `parseIocAddr` answers with the
port in the first entry of `parseSearchResponse`, or with no address exactly
when there is no entry. Cutting the bytes anywhere only drops entries at the
end, and there is one entry for each search response, made of its 24 bytes
with the nearest VERSION header before it. -/
theorem walkers_agree (buffer : Bytes) :
    (∀ ip, parseIocAddr ip buffer =
      match (parseSearchResponse buffer).head? with
      | some entry => (ip, (searchHeader entry.2).dataType)
      | none => ([], 0)) ∧
      (∀ remote, parseIocAddr (inetNtop remote) buffer = ([], 0) ↔ parseSearchResponse buffer = []) ∧
      (∀ b', b' <+: buffer → parseSearchResponse b' <+: parseSearchResponse buffer) ∧
      List.Forall₂ (fun o entry => IsEntry buffer o entry.2) (responseOffsets buffer)
        (parseSearchResponse buffer) := by
  refine ⟨fun ip => parseIocAddr_eq_head ip buffer, fun remote => ?_,
    fun b' h => parseSearchResponse_prefix h, ?_⟩
  · rw [parseIocAddr_eq_head]
    cases parseSearchResponse buffer with
    | nil => simp
    | cons entry entries => simp [inetNtop_ne]
  · rw [parseSearchResponse_eq, List.forall₂_map_right_iff, List.forall₂_same]
    exact fun o ho => isEntry_responseEntry ho

/-- A response in front of any VERSION header, a SEARCH message that is none
because its data count is not 0, an ordinary response, and one that is cut
off. -/
def severalResponses : Bytes :=
  Header.encode ⟨cmdSearch, 8, 5070, 0, 0xFFFFFFFF, 4⟩ ++ [0, 13, 0, 0, 0, 0, 0, 0] ++
    Header.encode ⟨cmdSearch, 8, 5071, 1, 0xFFFFFFFF, 5⟩ ++ [0, 13, 0, 0, 0, 0, 0, 0] ++
    ordinaryResponse 6 ++ (ordinaryResponse 7).take 35

/-- The address is that of the first of two entries, and when the datagram ends
within that one there is no address. -/
theorem walkers_severalResponses :
    parseIocAddr (inetNtop ⟨10, 0, 0, 7⟩) severalResponses = (inetNtop ⟨10, 0, 0, 7⟩, 5070) ∧
      parseIocAddr (inetNtop ⟨10, 0, 0, 7⟩) (severalResponses.take 23) = ([], 0) ∧
      parseSearchResponse (severalResponses.take 80) <+: parseSearchResponse severalResponses ∧
      (parseSearchResponse (severalResponses.take 80)).map Prod.fst = [4] ∧
      (parseSearchResponse severalResponses).map Prod.fst = [4, 6] ∧
      List.Forall₂ (fun o entry => IsEntry severalResponses o entry.2) [0, 64]
        (parseSearchResponse severalResponses) := by
  obtain ⟨hAddr, -, hCut, hEntries⟩ := walkers_agree severalResponses
  obtain ⟨-, hNone, -⟩ := walkers_agree (severalResponses.take 23)
  refine ⟨?_, (hNone _).mpr (by decide +kernel), hCut _ (List.take_prefix 80 _),
    by decide +kernel, by decide +kernel, ?_⟩
  · rw [hAddr]
    decide +kernel
  · have hOffsets : responseOffsets severalResponses = [0, 64] := by decide +kernel
    rwa [hOffsets] at hEntries

end ChannelAccess

end PVmapper
