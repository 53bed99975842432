import PVmapper.Searcher.Entries

/-!
# PVmapper — one tick, bin by bin

A tick walks the due bin while it changes it: a PV with another interval to go
is spliced to the front of its next bin, which may be the due one itself, and
a PV in its last interval stays. What was found due is then sent packet by
packet, each packet with as many PVs as `createSearchRequest` took.

* `bin_dueLoop`     — what each bin holds after the loop, in order.
* `exists_sendLoop` — the packets are built, and the loop ends, if there is a
  message for every name.
* `tick_exact_iff`  — exactly when a tick sends every due PV once and keeps the
  search list.
* `tick_overflow`   — a reachable searcher whose tick writes past a packet.
-/

namespace PVmapper

namespace Searcher

open ChannelAccess (createSearchRequest searchMessage)

variable {s s' : Searcher}

-- ---------------------------------------------------------------------------
-- The loop over the due bin
-- ---------------------------------------------------------------------------

/-- A PV behind a tick that found it due: without its first interval, unless
that is its last. -/
def shorten (pv : SearchedPV) : SearchedPV :=
  match pv.intervals with
  | _ :: d :: ds => { pv with intervals := d :: ds }
  | _ => pv

/-- Whether a due PV is moved on, and to which of `n` bins. -/
def target (n cur : ℕ) (pv : SearchedPV) : Option ℕ :=
  match pv.intervals with
  | d :: _ :: _ => some ((cur + d.toNat) % 2 ^ 64 % n)
  | _ => none

/-- The due PVs spliced into bin `b`, the last one in front. -/
def arrivals (n cur b : ℕ) (due : List SearchedPV) : List SearchedPV :=
  ((due.filter (target n cur · = some b)).map shorten).reverse

/-- The due PVs that stay. -/
def stays (n cur : ℕ) (due : List SearchedPV) : List SearchedPV :=
  due.filter (target n cur · = none)

theorem reschedule_eq (n cur : ℕ) (pv : SearchedPV) :
    reschedule n cur pv = ((target n cur pv).getD cur, shorten pv) := by
  unfold reschedule target shorten
  rcases pv.intervals with _ | ⟨d, _ | ⟨d', ds⟩⟩ <;> rfl

/-- What bin `b` holds after the loop: what was spliced into it, what it held
before, and, for the due bin, the PVs that stay. -/
theorem bin_dueLoop {cur : ℕ} (due : List SearchedPV) {bins : List (List SearchedPV)}
    (hCur : cur < bins.length) {b : ℕ} (hb : b < bins.length) :
    (dueLoop cur due bins).getD b [] =
      arrivals bins.length cur b due ++ bins.getD b [] ++
        if b = cur then stays bins.length cur due else [] := by
  induction due generalizing bins with
  | nil => simp [dueLoop, arrivals, stays]
  | cons pv rest ih =>
    unfold dueLoop
    split
    · next d d' ds hIntervals =>
      -- spliced to the front of its bin
      have hTarget : target bins.length cur pv = some ((cur + d.toNat) % 2 ^ 64 % bins.length) := by
        rw [target, hIntervals]
      have hShorten : shorten pv = { pv with intervals := d' :: ds } := by
        rw [shorten, hIntervals]
      dsimp only
      generalize (cur + d.toNat) % 2 ^ 64 % bins.length = next at hTarget ⊢
      rw [ih (by simpa using hCur) (by simpa using hb), List.length_modify, ← hShorten]
      have hStays : stays bins.length cur (pv :: rest) = stays bins.length cur rest := by
        simp [stays, hTarget]
      rw [hStays]
      congr 1
      unfold arrivals
      rw [List.filter_cons, hTarget, List.getD_eq_getElem?_getD, List.getElem?_modify,
        List.getD_eq_getElem?_getD, List.getElem?_eq_getElem hb]
      by_cases hHere : next = b
      · simp [hHere]
      · simp [hHere]
    · next hLast =>
      have hTarget : target bins.length cur pv = none := by
        unfold target
        split
        · next d d' ds hEq => exact absurd hEq (hLast d d' ds)
        · rfl
      have hArrivals : arrivals bins.length cur b (pv :: rest) = arrivals bins.length cur b rest := by
        simp [arrivals, hTarget]
      rw [ih (by simpa using hCur) (by simpa using hb), List.length_modify, hArrivals,
        List.getD_eq_getElem?_getD, List.getElem?_modify, List.getD_eq_getElem?_getD,
        List.getElem?_eq_getElem hb]
      by_cases hHere : b = cur
      · -- behind the PVs that stayed before it
        subst hHere
        simp [stays, hTarget]
      · simp [hHere, Ne.symm hHere]

-- ---------------------------------------------------------------------------
-- The packets
-- ---------------------------------------------------------------------------

/-- The packets that send a list of PVs: each one is built from what is left of
the list and sends the first of those, at least one. -/
def Sends : List Packet → List (UInt32 × Bytes) → Prop
  | [], pvs => pvs = []
  | packet :: packets, pvs =>
    ∃ nPvs, 0 < nPvs ∧ createSearchRequest pvs = some (packet.msg, nPvs) ∧
      packet.pvs = pvs.take nPvs ∧ Sends packets (pvs.drop nPvs)

/-- There is a message for each of these names. -/
def Sendable (pvs : List (UInt32 × Bytes)) : Prop :=
  ∀ pv ∈ pvs, ∃ msg, searchMessage pv.1 pv.2 = some msg

theorem Sends.sendable {packets : List Packet} {pvs : List (UInt32 × Bytes)}
    (h : Sends packets pvs) : Sendable pvs := by
  induction packets generalizing pvs with
  | nil =>
    rw [Sends] at h
    subst h
    intro pv hpv
    exact absurd hpv List.not_mem_nil
  | cons packet packets ih =>
    obtain ⟨nPvs, -, hCreate, -, hRest⟩ := h
    obtain ⟨msgs, hMsgs, -⟩ := ChannelAccess.createSearchRequest_eq_some hCreate
    intro pv hpv
    -- in this packet, or in a later one
    rw [← List.take_append_drop nPvs pvs] at hpv
    rcases List.mem_append.mp hpv with hpv | hpv
    · exact ChannelAccess.exists_of_searchMessages hMsgs pv hpv
    · exact ih hRest pv hpv

/-- What the send loop answers sends the list. -/
theorem sends_of_sendLoop {fuel : ℕ} {pvs : List (UInt32 × Bytes)} {packets : List Packet}
    (h : sendLoop fuel pvs = some packets) : Sends packets pvs := by
  induction fuel generalizing pvs packets with
  | zero =>
    cases pvs with
    | nil =>
      simp only [sendLoop, Option.some.injEq] at h
      subst h
      rfl
    | cons pv pvs => simp [sendLoop] at h
  | succ fuel ih =>
    cases pvs with
    | nil =>
      simp only [sendLoop, Option.some.injEq] at h
      subst h
      rfl
    | cons pv pvs =>
      unfold sendLoop at h
      split at h
      · exact absurd h (by simp)
      · next msg nPvs hCreate =>
        obtain ⟨rest, hRest, rfl⟩ := Option.map_eq_some_iff.mp h
        exact ⟨nPvs, ChannelAccess.createSearchRequest_pos hCreate, hCreate, rfl, ih hRest⟩

/-- With a message for each name the loop ends: every packet takes a PV. -/
theorem exists_sendLoop (fuel : ℕ) {pvs : List (UInt32 × Bytes)} (hFuel : pvs.length ≤ fuel)
    (h : Sendable pvs) : ∃ packets, sendLoop fuel pvs = some packets := by
  induction fuel generalizing pvs with
  | zero =>
    obtain rfl := List.length_eq_zero_iff.mp (Nat.le_zero.mp hFuel)
    exact ⟨[], rfl⟩
  | succ fuel ih =>
    cases pvs with
    | nil => exact ⟨[], rfl⟩
    | cons pv pvs =>
      obtain ⟨msg, nPvs, hCreate⟩ := ChannelAccess.exists_createLoop h Header.version.encode 0
      have hPos := ChannelAccess.createSearchRequest_pos hCreate
      -- at least one PV was taken, so the fuel suffices for the rest
      obtain ⟨packets, hRest⟩ := @ih ((pv :: pvs).drop nPvs)
        (by rw [List.length_drop]; omega) fun q hq => h q (List.mem_of_mem_drop hq)
      refine ⟨⟨msg, (pv :: pvs).take nPvs⟩ :: packets, ?_⟩
      unfold sendLoop
      rw [createSearchRequest, hCreate]
      simp only [hRest, Option.map_some]

-- ---------------------------------------------------------------------------
-- A tick
-- ---------------------------------------------------------------------------

theorem bin_eq_getElem? (hCur : s.currentBin < s.searchedPvs.length) :
    s.searchedPvs[s.currentBin]? = some (s.bin s.currentBin) := by
  rw [bin, List.getD_eq_getElem?_getD, List.getElem?_eq_getElem hCur]
  rfl

/-- A tick answers exactly when every due name can be sent. -/
theorem exists_tick_iff (hCur : s.currentBin < s.searchedPvs.length) :
    (∃ r, s.tick = some r) ↔ Sendable s.due := by
  have hGet := bin_eq_getElem? hCur
  unfold tick
  rw [hGet]
  dsimp only
  constructor
  · rintro ⟨r, hTick⟩
    obtain ⟨packets, hSend, -⟩ := Option.map_eq_some_iff.mp hTick
    exact (sends_of_sendLoop hSend).sendable
  · intro hSendable
    obtain ⟨packets, hSend⟩ := exists_sendLoop s.due.length le_rfl hSendable
    unfold due at hSend
    rw [hSend]
    exact ⟨_, rfl⟩

theorem sends_of_tick {packets : List Packet} (hTick : s.tick = some (s', packets)) :
    Sends packets s.due := by
  have hGet := bin_eq_getElem? (tick_eq_some hTick).1
  unfold tick at hTick
  rw [hGet] at hTick
  dsimp only at hTick
  obtain ⟨packets', hSend, hEq⟩ := Option.map_eq_some_iff.mp hTick
  rw [Prod.mk.injEq] at hEq
  rw [← hEq.2]
  exact sends_of_sendLoop hSend

/-- The other bins keep what they hold, behind what arrives. -/
theorem bin_tick {packets : List Packet} (hTick : s.tick = some (s', packets)) {b : ℕ}
    (hb : b < s.searchedPvs.length) (hOther : b ≠ s.currentBin) :
    s'.bin b =
      arrivals s.searchedPvs.length s.currentBin b (s.bin s.currentBin) ++ s.bin b := by
  have hCur := (tick_eq_some hTick).1
  have hGet := bin_eq_getElem? hCur
  unfold tick at hTick
  rw [hGet] at hTick
  dsimp only at hTick
  obtain ⟨packets', -, hEq⟩ := Option.map_eq_some_iff.mp hTick
  rw [Prod.mk.injEq] at hEq
  have hLoop := @bin_dueLoop s.currentBin (s.bin s.currentBin) (s.searchedPvs.set s.currentBin [])
    (by simpa using hCur) b (by simpa using hb)
  rw [List.length_set, if_neg hOther, List.append_nil] at hLoop
  rw [← hEq.1]
  refine hLoop.trans ?_
  congr 1
  rw [bin, List.getD_eq_getElem?_getD, List.getD_eq_getElem?_getD,
    List.getElem?_set_ne (Ne.symm hOther)]

/-- A due PV loses its first interval, unless it is its last; the others stay
as they are. -/
theorem pvs_tick {packets : List Packet} (hTick : s.tick = some (s', packets)) :
    s'.content.map Prod.snd =
      s.content.map fun q => if q.1 = s.currentBin then shorten q.2 else q.2 := by
  obtain ⟨-, -, -, hContent, -⟩ := tick_eq_some hTick
  rw [hContent, Multiset.map_map]
  refine Multiset.map_congr rfl fun q _ => ?_
  simp only [Function.comp_apply, advance]
  split
  · rw [reschedule_eq]
  · rfl

/-- What a tick should do: answer; send the due PVs in order, each once, in
packets `createSearchRequest` builds; keep what is searched for; shorten the
intervals of the due PVs that have another one; and leave the PVs of the other
bins as they are and in their order. -/
def TickExact (s : Searcher) : Prop :=
  ∃ s' packets, s.tick = some (s', packets) ∧
    Sends packets s.due ∧ packets.flatMap Packet.pvs = s.due ∧
    s'.searches = s.searches ∧
    (s'.content.map Prod.snd =
      s.content.map fun q => if q.1 = s.currentBin then shorten q.2 else q.2) ∧
    ∀ b < s.searchedPvs.length, b ≠ s.currentBin →
      s'.bin b = arrivals s.searchedPvs.length s.currentBin b (s.bin s.currentBin) ++ s.bin b

/-- **A tick is exact, exactly when** no due name's length is within 8 bytes of
a multiple of 2^16 from below. -/
theorem tick_exact_iff (hCur : s.currentBin < s.searchedPvs.length) :
    TickExact s ↔ ∀ pv ∈ s.bin s.currentBin, pv.pvname.length % 65536 < 65528 := by
  have hSendable : Sendable s.due ↔
      ∀ pv ∈ s.bin s.currentBin, pv.pvname.length % 65536 < 65528 := by
    unfold Sendable due
    rw [List.forall_mem_map]
    exact forall₂_congr fun pv _ => ChannelAccess.exists_searchMessage_iff pv.chanId pv.pvname
  rw [← hSendable, ← exists_tick_iff hCur]
  constructor
  · rintro ⟨s', packets, hTick, -⟩
    exact ⟨_, hTick⟩
  · rintro ⟨⟨s', packets⟩, hTick⟩
    exact ⟨s', packets, hTick, sends_of_tick hTick, (tick_eq_some hTick).2.2.2.2,
      searches_tick hTick, pvs_tick hTick, fun b hb hOther => bin_tick hTick hb hOther⟩

/-- A searcher with ten bins that was just asked for one name. -/
def askedFor (pvname : Bytes) : Searcher :=
  { tenBins with
    chanId := 1
    searchedPvs := tenBins.searchedPvs.set 0 [⟨0, pvname, 0, [1, 2, 10]⟩] }

theorem reachable_askedFor (pvname : Bytes) : Reachable [1] (askedFor pvname) := by
  have hExec : (Runs.exec step tenBins [.addPV 0 pvname]).map Prod.snd =
      some (askedFor pvname) := rfl
  exact tenBins_reachable.exec _ hExec

/-- Three PVs due at once, of which one has one interval left, one two and one
all of them, and a fourth that is due a tick later. -/
def threeDue : Searcher :=
  { tenBins with
    chanId := 4
    searchedPvs := (tenBins.searchedPvs.set 3
      [⟨3, List.replicate 500 (chr 'D'), 0, [1, 2, 10]⟩,
        ⟨2, List.replicate 500 (chr 'C'), 0, [2, 10]⟩, ⟨0, [chr 'A'], 0, [10]⟩]).set 4
      [⟨1, [chr 'B'], 0, [10]⟩]
    currentBin := 3 }

/-- The three are sent in two packets. The one with one interval left stays
where it is, and the others move ahead by the interval they lose. -/
theorem tick_exact_ordinary :
    Reachable [1] threeDue ∧ TickExact threeDue ∧
      (threeDue.tick.map fun r => r.2.map Packet.pvs) =
        some [[(3, List.replicate 500 (chr 'D')), (2, List.replicate 500 (chr 'C'))],
          [(0, [chr 'A'])]] ∧
      (threeDue.tick.map fun r => (r.1.bin 3, r.1.bin 4, r.1.bin 5)) =
        some ([⟨0, [chr 'A'], 0, [10]⟩],
          [⟨3, List.replicate 500 (chr 'D'), 0, [2, 10]⟩, ⟨1, [chr 'B'], 0, [10]⟩],
          [⟨2, List.replicate 500 (chr 'C'), 0, [10]⟩]) := by
  refine ⟨tenBins_reachable.exec [.addPV 0 [chr 'A'], .outgoing 1000000000,
      .addPV 0 [chr 'B'], .outgoing 1000000000, .addPV 0 (List.replicate 500 (chr 'C')),
      .outgoing 1000000000, .addPV 0 (List.replicate 500 (chr 'D'))] (by decide +kernel),
    (tick_exact_iff (by decide)).mpr (by decide +kernel), by decide +kernel, by decide +kernel⟩

/-- Without a message for its name, a PV cannot be sent. -/
theorem tick_eq_none {pvname : Bytes} (hLong : 65528 ≤ pvname.length % 65536) :
    (askedFor pvname).tick = none := by
  by_contra hSome
  obtain ⟨r, hTick⟩ := Option.ne_none_iff_exists'.mp hSome
  have hCur : (askedFor pvname).currentBin < (askedFor pvname).searchedPvs.length :=
    show 0 < 10 by decide
  have hSendable := (exists_tick_iff hCur).mp ⟨r, hTick⟩
  have hMsg := hSendable (0, pvname) (List.mem_singleton.mpr rfl)
  have hShort := (ChannelAccess.exists_searchMessage_iff 0 pvname).mp hMsg
  omega

/-- For a name of 2^16 - 1 bytes the payload has no room at all, and the name
is copied past the end of the packet. -/
theorem tick_overflow :
    ∃ pvname : Bytes, pvname.length = 65535 ∧ Reachable [1] (askedFor pvname) ∧
      (askedFor pvname).tick = none ∧ ¬ TickExact (askedFor pvname) := by
  refine ⟨List.replicate 65535 (chr 'A'), List.length_replicate, reachable_askedFor _, ?_⟩
  have hNone : (askedFor (List.replicate 65535 (chr 'A'))).tick = none :=
    tick_eq_none (by rw [List.length_replicate]; decide)
  refine ⟨hNone, ?_⟩
  rintro ⟨s', packets, hTick, -⟩
  rw [hNone] at hTick
  exact absurd hTick (by simp)

end Searcher

end PVmapper
