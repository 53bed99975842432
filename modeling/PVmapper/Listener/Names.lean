import PVmapper.Model.Listener
import PVmapper.ProtoCa.Requests

/-!
# PVmapper — the names the access rules judge

The name of a client's SEARCH message passes through four representations:
the payload, the payload without its trailing NULs (`copyStr`), the part of
that before the first `.` (`dropField`), which is judged and searched for, and
the payload of the message built for the IOC, read as a C string there.

`copyStr` is meant "to copy only non-null characters", but only drops NULs
from the end: a NUL in front of another character gets through, and the IOC
reads a shorter name than the one the rules judged.

* `processIncoming_eq`  — the names that are judged, one for each complete
  SEARCH message.
* `searched_names`      — the names the search callback is called with.
* `judgedAsSeen_iff`    — exactly which payloads are judged as the IOC sees them.
-/

namespace PVmapper

open ChannelAccess

namespace Listener

/-- The size of the receive buffer. -/
def bufferSize : ℕ := 4096

/-- The name in the SEARCH message at an offset that is judged and, if it
passes, searched for. -/
def searchedName (buffer : Bytes) (o : ℕ) : Bytes := dropField (copyStr (payload buffer o))

/-- The complete SEARCH messages of a datagram, as offsets. -/
def searchRequests (buffer : Bytes) : List ℕ := (messages buffer).filter (isSearchRequest buffer)

/-- One name is offered for each complete SEARCH message of a datagram, in order. -/
theorem processIncoming_eq {ρ σ : Type*} (regexMatch : ρ → Bytes → Bool)
    (searchPvCb : Bytes → Bytes → UInt16 → σ → Option (σ × Bytes)) (l : Listener ρ) (remote : InAddr)
    (clientPort : UInt16) (buffer : Bytes) (w : σ) :
    l.processIncoming regexMatch searchPvCb remote clientPort buffer w =
      (searchRequests buffer).foldlM
        (fun w o => offer regexMatch searchPvCb l.accessControl (inetNtop remote) clientPort w
          (Header.readAt buffer o).param1 (searchedName buffer o))
        (w, []) := by
  unfold processIncoming
  rw [parseSearchRequest_eq, List.foldlM_map]
  rfl

/-- The names the search callback is called with: those that are not empty
and pass the rules. -/
theorem searched_names {ρ : Type*} (regexMatch : ρ → Bytes → Bool) (l : Listener ρ)
    (remote : InAddr) (clientPort : UInt16) (buffer : Bytes) (answer : Bytes → Bytes) :
    (l.processIncoming regexMatch
        (fun pvname _ _ names => some (names ++ [pvname], answer pvname)) remote clientPort buffer
        []).map Prod.fst =
      some (((searchRequests buffer).map (searchedName buffer)).filter fun pvname =>
        pvname ≠ [] ∧ l.accessControl.checkAccessControl regexMatch pvname (inetNtop remote)) := by
  rw [processIncoming_eq]
  have hOffer : ∀ (w : List Bytes × List Bytes) (chanId : UInt32) (pvname : Bytes), ∃ sent,
      offer regexMatch (fun pvname _ _ names => some (names ++ [pvname], answer pvname))
        l.accessControl (inetNtop remote) clientPort w chanId pvname =
      some (w.1 ++ [pvname].filter fun pvname => pvname ≠ [] ∧
        l.accessControl.checkAccessControl regexMatch pvname (inetNtop remote), sent) := by
    intro w chanId pvname
    unfold offer
    split
    · next hPass =>
      rw [List.filter_cons_of_pos (by simpa using hPass)]
      simp only [Option.map_some]
      split
      · exact ⟨_, rfl⟩
      · exact ⟨_, rfl⟩
    · next hFail =>
      rw [List.filter_cons_of_neg (by simpa using hFail), List.filter_nil, List.append_nil]
      exact ⟨w.2, rfl⟩
  -- the callback's names so far are kept in front
  have hLoop : ∀ (os : List ℕ) (w : List Bytes × List Bytes),
      (os.foldlM (fun w o => offer regexMatch
        (fun pvname _ _ names => some (names ++ [pvname], answer pvname)) l.accessControl
        (inetNtop remote) clientPort w (Header.readAt buffer o).param1 (searchedName buffer o))
        w).map Prod.fst =
      some (w.1 ++ (os.map (searchedName buffer)).filter fun pvname => pvname ≠ [] ∧
        l.accessControl.checkAccessControl regexMatch pvname (inetNtop remote)) := by
    intro os
    induction os with
    | nil => simp
    | cons o os ih =>
      intro w
      obtain ⟨sent, hSent⟩ := hOffer w (Header.readAt buffer o).param1 (searchedName buffer o)
      rw [List.foldlM_cons, hSent, Option.bind_eq_bind, Option.bind_some, ih, List.append_assoc,
        ← List.filter_append]
      rfl
  exact hLoop _ ([], [])

/-- The rules judge the name of the message at `o` as an IOC will see it: it
has no NUL, the message built for the IOC holds it as a C string, and a name
that passes the rules passes them in that form. -/
def JudgedAsSeen (buffer : Bytes) (o : ℕ) : Prop :=
  0 ∉ searchedName buffer o ∧ ∀ chanId, ∃ msg,
    searchMessage chanId (searchedName buffer o) = some msg ∧
      cStr (msg.drop Header.size) = searchedName buffer o ∧
      ∀ (ρ : Type) (regexMatch : ρ → Bytes → Bool) (ac : AccessControl ρ) (client : Bytes),
        ac.checkAccessControl regexMatch (searchedName buffer o) client = true →
        ac.checkAccessControl regexMatch (cStr (msg.drop Header.size)) client = true

/-- Every NUL of the payload has a `.` somewhere before it or nothing but NULs
behind it. -/
def NulsOutside (p : Bytes) : Prop :=
  ∀ i : ℕ, p[i]? = some 0 →
    (∃ j < i, p[j]? = some (chr '.')) ∨ ∀ (j : ℕ) (x : UInt8), i ≤ j → p[j]? = some x → x = 0

-- ---------------------------------------------------------------------------
-- Where NULs are kept
-- ---------------------------------------------------------------------------

/-- Dropping trailing NULs leaves a front part of the payload, up to its last
character that is no NUL. -/
theorem copyStr_getElem? {p : Bytes} {i : ℕ} {x : UInt8} :
    (copyStr p)[i]? = some x ↔
      p[i]? = some x ∧ ∃ (j : ℕ) (y : UInt8), i ≤ j ∧ p[j]? = some y ∧ y ≠ 0 := by
  induction p using List.reverseRecOn with
  | nil => simp [copyStr]
  | append_singleton p y ih =>
    by_cases hy : y = 0
    · -- a trailing NUL is dropped, and changes nothing on the right
      have hDrop : copyStr (p ++ [y]) = copyStr p := by
        unfold copyStr
        rw [List.rdropWhile_concat_pos _ _ _ (by simpa using hy)]
      rw [hDrop, ih]
      constructor
      · intro hKept
        obtain ⟨hx, j, z, hij, hz, hz0⟩ := hKept
        exact ⟨List.getElem?_append_left (List.getElem?_eq_some_iff.mp hx).1 ▸ hx, j, z, hij,
          List.getElem?_append_left (List.getElem?_eq_some_iff.mp hz).1 ▸ hz, hz0⟩
      · intro hKept
        obtain ⟨hx, j, z, hij, hz, hz0⟩ := hKept
        have hj : j < p.length := by
          by_contra hj
          rw [List.getElem?_append_right (by omega), List.getElem?_singleton] at hz
          split at hz
          · rw [Option.some.injEq] at hz
            exact hz0 (hz ▸ hy)
          · exact absurd hz (by simp)
        rw [List.getElem?_append_left (by omega)] at hx hz
        exact ⟨hx, j, z, hij, hz, hz0⟩
    · have hKeep : copyStr (p ++ [y]) = p ++ [y] := by
        unfold copyStr
        rw [List.rdropWhile_concat_neg _ _ _ (by simpa using hy)]
      -- the last character is no NUL, so nothing is dropped
      rw [hKeep]
      refine ⟨fun hx => ⟨hx, p.length, y, ?_, by simp, hy⟩, fun h => h.1⟩
      have := (List.getElem?_eq_some_iff.mp hx).1
      rw [List.length_append, List.length_singleton] at this
      omega

theorem mem_dropField {s : Bytes} {x : UInt8} :
    x ∈ dropField s ↔ ∃ i : ℕ, s[i]? = some x ∧ ∀ j ≤ i, s[j]? ≠ some (chr '.') := by
  induction s with
  | nil => simp [dropField]
  | cons y s ih =>
    unfold dropField at *
    rw [List.takeWhile_cons]
    by_cases hy : y = chr '.'
    · -- nothing is kept from the first `.` on
      subst hy
      simp only [bne_self_eq_false, Bool.false_eq_true, if_false, List.not_mem_nil, false_iff]
      rintro ⟨i, -, hNone⟩
      exact hNone 0 (by omega) rfl
    · rw [if_pos (by simpa using hy), List.mem_cons, ih]
      constructor
      · rintro (rfl | ⟨i, hx, hNone⟩)
        · refine ⟨0, rfl, fun j hj => ?_⟩
          obtain rfl : j = 0 := by omega
          simpa using hy
        · refine ⟨i + 1, hx, fun j hj => ?_⟩
          cases j with
          | zero => simpa using hy
          | succ j => exact hNone j (by omega)
      · intro hKept
        obtain ⟨i, hx, hNone⟩ := hKept
        cases i with
        | zero => exact Or.inl (by simpa using hx.symm)
        | succ i => exact Or.inr ⟨i, hx, fun j hj => hNone (j + 1) (by omega)⟩

/-- The name has no NUL exactly when the payload's NULs are outside it. -/
theorem not_mem_dropField_copyStr {p : Bytes} : 0 ∉ dropField (copyStr p) ↔ NulsOutside p := by
  rw [mem_dropField]
  constructor
  · intro h i hi
    -- a NUL with something behind it and no `.` before it ends up in the name
    by_contra hInside
    push Not at hInside
    obtain ⟨hNoDot, j, x, hij, hx, hx0⟩ := hInside
    refine h ⟨i, copyStr_getElem?.mpr ⟨hi, j, x, hij, hx, hx0⟩, fun k hk hDot => ?_⟩
    obtain ⟨hDot, -⟩ := copyStr_getElem?.mp hDot
    rcases Nat.lt_or_eq_of_le hk with hlt | rfl
    · exact hNoDot k hlt hDot
    · rw [hi] at hDot
      exact absurd hDot (by decide)
  · rintro h ⟨i, hi, hNoDot⟩
    obtain ⟨hi, j, y, hij, hy, hy0⟩ := copyStr_getElem?.mp hi
    rcases h i hi with ⟨k, hk, hDot⟩ | hTail
    · -- the `.` is kept, since something behind it is
      exact hNoDot k (by omega) (copyStr_getElem?.mpr ⟨hDot, j, y, by omega, hy, hy0⟩)
    · exact hy0 (hTail j y hij hy)

-- ---------------------------------------------------------------------------
-- Judged as seen
-- ---------------------------------------------------------------------------

theorem length_searchedName_lt {buffer : Bytes} (hSize : buffer.length ≤ bufferSize) (o : ℕ) :
    (searchedName buffer o).length < 65528 := by
  have hPayload : (payload buffer o).length ≤ buffer.length := by
    unfold payload slice
    rw [List.length_take, List.length_drop]
    omega
  have hCopy : (copyStr (payload buffer o)).length ≤ (payload buffer o).length :=
    (List.rdropWhile_prefix _ _).length_le
  have hDrop : (searchedName buffer o).length ≤ (copyStr (payload buffer o)).length :=
    (List.takeWhile_prefix _).length_le
  unfold bufferSize at hSize
  omega

/-- **Which names are judged as the IOC sees them.** The names searched for
are those of the complete SEARCH messages that are not empty and pass the
rules, and such a message is judged as the IOC sees it exactly when the NULs
of its payload all have a `.` before them or only NULs behind them. -/
theorem judgedAsSeen_iff {buffer : Bytes} (hSize : buffer.length ≤ bufferSize) :
    (∀ (ρ : Type) (regexMatch : ρ → Bytes → Bool) (l : Listener ρ) (remote : InAddr)
        (clientPort : UInt16) (answer : Bytes → Bytes),
        (l.processIncoming regexMatch
          (fun pvname _ _ names => some (names ++ [pvname], answer pvname)) remote clientPort buffer
          []).map Prod.fst =
        some (((searchRequests buffer).map (searchedName buffer)).filter fun pvname =>
          pvname ≠ [] ∧ l.accessControl.checkAccessControl regexMatch pvname (inetNtop remote))) ∧
      ∀ o ∈ searchRequests buffer, JudgedAsSeen buffer o ↔ NulsOutside (payload buffer o) := by
  refine ⟨fun ρ regexMatch l remote clientPort => searched_names regexMatch l remote clientPort buffer,
    fun o _ => ?_⟩
  rw [← not_mem_dropField_copyStr]
  refine ⟨fun h => h.1, fun hNul => ⟨hNul, fun chanId => ?_⟩⟩
  obtain ⟨msg, hMsg, hSeen⟩ := cStr_payload (length_searchedName_lt hSize o) chanId
  -- without a NUL, the name is its own C string
  have hSame : cStr (searchedName buffer o) = searchedName buffer o := cStr_eq_self_iff.mpr hNul
  rw [hSame] at hSeen
  refine ⟨msg, hMsg, hSeen, ?_⟩
  intro ρ regexMatch ac client hPass
  rw [hSeen]
  exact hPass

/-- A SEARCH message with this payload. -/
def searchDatagram (payload : Bytes) : Bytes :=
  Header.encode ⟨cmdSearch, UInt16.ofNat payload.length, 5, 13, 7, 7⟩ ++ payload

/-- An ordinary client's request for a field of a record. -/
theorem judgedAsSeen_ordinary :
    JudgedAsSeen (searchDatagram [chr 'a', chr '.', chr 'b', 0, 0, 0, 0, 0]) 0 := by
  refine ((judgedAsSeen_iff (by decide +kernel)).2 0 (by decide +kernel)).mpr ?_
  have hPayload : payload (searchDatagram [chr 'a', chr '.', chr 'b', 0, 0, 0, 0, 0]) 0 =
      [chr 'a', chr '.', chr 'b', 0, 0, 0, 0, 0] := by
    decide +kernel
  rw [hPayload]
  rw [← not_mem_dropField_copyStr]
  decide +kernel

/-- The name with a NUL inside passes a rule that denies what the IOC reads. -/
theorem not_judgedAsSeen_nul :
    0 ∈ searchRequests (searchDatagram [chr 'a', chr 'b', 0, chr 'c', 0, 0, 0, 0]) ∧
      ¬ JudgedAsSeen (searchDatagram [chr 'a', chr 'b', 0, chr 'c', 0, 0, 0, 0]) 0 ∧
      searchedName (searchDatagram [chr 'a', chr 'b', 0, chr 'c', 0, 0, 0, 0]) 0 =
        [chr 'a', chr 'b', 0, chr 'c'] ∧
      cStr [chr 'a', chr 'b', 0, chr 'c'] = [chr 'a', chr 'b'] ∧
      (AccessControl.mk [⟨.deny, [chr 'a', chr 'b']⟩] []).checkAccessControl
        (fun regex s => regex == s) [chr 'a', chr 'b', 0, chr 'c'] [] = true ∧
      (AccessControl.mk [⟨.deny, [chr 'a', chr 'b']⟩] []).checkAccessControl
        (fun regex s => regex == s) [chr 'a', chr 'b'] [] = false := by
  have hName : searchedName (searchDatagram [chr 'a', chr 'b', 0, chr 'c', 0, 0, 0, 0]) 0 =
      [chr 'a', chr 'b', 0, chr 'c'] := by
    decide +kernel
  refine ⟨by decide +kernel, ?_, hName, by decide +kernel, by decide +kernel, by decide +kernel⟩
  intro hJudged
  obtain ⟨hNul, -⟩ := hJudged
  rw [hName] at hNul
  exact hNul (by decide)

end Listener

end PVmapper
