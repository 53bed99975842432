import PVmapper.Dispatcher.Refinement
import PVmapper.Searcher.Packets

/-!
# PVmapper — where names and responses come from

A dispatcher makes nothing up: what it searches for was asked for, and what it
has cached was asked for and answered. Both are kept by every step, whatever
it means to be asked for or answered, if it holds of what arrives.

* `grounded_step`, `grounded_run`    — what is searched for and cached, over runs.
* `asked_of_sent`, `heard_of_reply` — what is sent out was asked for, and what
  is replied was heard.
* `carried_of_sent` — and it is in the bytes of the packets.
-/

namespace PVmapper

namespace Dispatcher

open Runs (Run)

variable {d d' d₀ : Dispatcher} {searchIntervals : List UInt32} {tr : List (Event × Output)}
  {e : Event} {o : Output}

/-- A response that finds a PV hands it over with its own address. -/
theorem found_of_response {k : ℕ} {iocIp : Bytes} {iocPort : UInt16} {response : UInt32 × Bytes}
    {opening : Opening} {now : Int} {f : FoundPv} {g : Option GuardId}
    (hStep : d.step (.response k iocIp iocPort response opening now) =
      some (d', .found (some (f, g)))) :
    f.iocIp = iocIp ∧ f.iocPort = iocPort ∧
      f.response = (ChannelAccess.updateSearchReplyAddr response.2 iocIp iocPort).1 := by
  unfold step at hStep
  dsimp only at hStep
  split at hStep
  · exact absurd hStep (by simp)
  · split at hStep
    · simp at hStep
    · simp only [Option.some.injEq, Prod.mk.injEq, Output.found.injEq] at hStep
      obtain ⟨-, rfl, -⟩ := hStep
      exact ⟨rfl, rfl, rfl⟩

/-- What finds a PV is a response. -/
theorem response_of_found {f : FoundPv} {g : Option GuardId}
    (hStep : d.step e = some (d', .found (some (f, g)))) :
    ∃ k iocIp iocPort response opening now, e = .response k iocIp iocPort response opening now := by
  cases e with
  | response k iocIp iocPort response opening now => exact ⟨_, _, _, _, _, _, rfl⟩
  | clientSearched clock pvname => exact absurd (step_clientSearched hStep) (by simp)
  | searcherOutgoing k now => exact absurd (step_searcherOutgoing hStep) (by simp)
  | guardIncoming g recvd now => exact absurd (step_guardIncoming hStep) (by simp [IsCall])
  | guardOutgoing g answers => exact absurd (step_guardOutgoing hStep) (by simp [IsCall])
  | drop i => exact absurd (step_drop hStep) (by simp)
  | maintain checkedAt clock now => exact absurd (step_maintain hStep) (by simp)

/-- A guard keeps its address. -/
theorem getIocAddr_step (hStep : d.step e = some (d', o)) {g : GuardId} {guard : IocGuard}
    (hGet : d.guards[g]? = some guard) :
    ∃ guard', d'.guards[g]? = some guard' ∧ guard'.getIocAddr = guard.getIocAddr := by
  have hg := (List.getElem?_eq_some_iff.mp hGet).1
  rcases step_guards hStep with ⟨hGuards, -⟩ | ⟨new, -, -, hGuards, -⟩ |
    ⟨g', called, called', acts, -, hCalled, hCall, rfl⟩ | ⟨-, -, -, -, hGuards, -⟩
  · exact ⟨guard, hGuards ▸ hGet, rfl⟩
  · exact ⟨guard, by rw [hGuards, List.getElem?_append_left hg, hGet], rfl⟩
  · by_cases hEq : g' = g
    · subst hEq
      rw [hGet, Option.some.injEq] at hCalled
      exact ⟨called', List.getElem?_set_self hg, hCalled ▸ hCall.addr⟩
    · exact ⟨guard, by rw [List.getElem?_set_ne hEq, hGet], rfl⟩
  · exact ⟨guard, hGuards ▸ hGet, rfl⟩

/-- What is searched for was asked for, and what is cached for a PV was asked
for and heard from the IOC it is recorded with. -/
structure Grounded (asked : Bytes → Prop) (heard : Bytes → Address → Bytes → Prop)
    (d : Dispatcher) : Prop where
  searched : ∀ pvname, d.IsSearched pvname → asked pvname
  cached : ∀ pvname pv, d.connectedPVs.lookup pvname = some pv → asked pvname ∧
    ∃ g guard, pv.ioc = some g ∧ d.guards[g]? = some guard ∧
      heard pvname guard.getIocAddr pv.response

/-- What a step takes in was asked for or heard. -/
structure Admits (asked : Bytes → Prop) (heard : Bytes → Address → Bytes → Prop)
    (x : Event × Output) : Prop where
  asked : ∀ clock pvname, x.1 = .clientSearched clock pvname → asked pvname
  heard : ∀ f g, x.2 = .found (some (f, some g)) → heard f.pvname (f.iocIp, f.iocPort) f.response

variable {asked asked' : Bytes → Prop} {heard heard' : Bytes → Address → Bytes → Prop}

theorem Grounded.mono (h : Grounded asked heard d) (hAsked : ∀ pvname, asked pvname → asked' pvname)
    (hHeard : ∀ pvname addr response, heard pvname addr response → heard' pvname addr response) :
    Grounded asked' heard' d where
  searched pvname hSearched := hAsked pvname (h.searched pvname hSearched)
  cached pvname pv hLookup := by
    obtain ⟨hHere, g, guard, hIoc, hGet, hResponse⟩ := h.cached pvname pv hLookup
    exact ⟨hAsked pvname hHere, g, guard, hIoc, hGet, hHeard pvname _ _ hResponse⟩

theorem grounded_of_init (h : Init searchIntervals d) : Grounded asked heard d := by
  obtain ⟨hSearchers, -, -, -, hCache⟩ := h
  refine ⟨fun pvname hSearched => ?_, fun pvname pv hLookup => ?_⟩
  · obtain ⟨s, hs, q, hq, -⟩ := hSearched
    rw [Searcher.content_of_init (hSearchers s hs)] at hq
    exact absurd hq (Multiset.notMem_zero q)
  · rw [hCache, AList.lookup_empty] at hLookup
    exact absurd hLookup (by simp)

/-- An entry that stays is still heard from its IOC. -/
theorem Grounded.entry (h : Grounded asked heard d) (hStep : d.step e = some (d', o))
    {pvname : Bytes} {pv : PvInfo} (hLookup : d.connectedPVs.lookup pvname = some pv) :
    asked pvname ∧ ∃ g guard, pv.ioc = some g ∧ d'.guards[g]? = some guard ∧
      heard pvname guard.getIocAddr pv.response := by
  obtain ⟨hAsked, g, guard, hIoc, hGet, hHeard⟩ := h.cached pvname pv hLookup
  obtain ⟨guard', hGet', hAddr⟩ := getIocAddr_step hStep hGet
  exact ⟨hAsked, g, guard', hIoc, hGet', hAddr ▸ hHeard⟩

theorem grounded_step (hSound : Sound searchIntervals d) (h : Grounded asked heard d)
    (hStep : d.step e = some (d', o)) (hAdmits : Admits asked heard (e, o)) :
    Grounded asked heard d' := by
  refine ⟨fun pvname hSearched => ?_, fun pvname pv hLookup => ?_⟩
  · by_cases hClient : ∃ clock, e = .clientSearched clock pvname
    · obtain ⟨clock, hEq⟩ := hClient
      exact hAdmits.asked clock pvname hEq
    · rw [not_exists] at hClient
      exact h.searched pvname (isSearched_step hSound.status hStep hClient hSearched)
  · rcases step_connectedPVs hStep with ⟨hCache, -⟩ | ⟨name, -, hGone, hOther, -⟩ |
      ⟨k, s, chanId, found, s', f, g, hGet, hTake, hName, rfl, hCache, -⟩
    · rw [hCache] at hLookup
      exact h.entry hStep hLookup
    · have hName : pvname ≠ name := by
        rintro rfl
        rw [hGone] at hLookup
        exact absurd hLookup (by simp)
      rw [hOther pvname hName] at hLookup
      exact h.entry hStep hLookup
    · rw [hCache] at hLookup
      by_cases hHere : pvname = f.pvname
      · subst hHere
        rw [AList.lookup_insert, Option.some.injEq] at hLookup
        subst hLookup
        obtain ⟨⟨guard, hGuard, -, hAddr⟩, -⟩ := found_guard hSound.registry hStep
        -- it was searched for, so it was asked for
        have hSearched : d.IsSearched f.pvname :=
          ⟨s, List.mem_of_getElem? hGet, hName ▸ Searcher.searched_of_takeFound hTake⟩
        exact ⟨h.searched _ hSearched, g, guard, rfl, hGuard, hAddr ▸ hAdmits.heard f g rfl⟩
      · rw [AList.lookup_insert_ne hHere] at hLookup
        exact h.entry hStep hLookup

/-- A reply is a cached response, heard from an IOC that is connected. -/
theorem Grounded.reply (h : Grounded asked heard d) {clock : ℕ → Int} {pvname response : Bytes}
    (hStep : d.step (.clientSearched clock pvname) = some (d', .reply response))
    (hne : response ≠ []) :
    asked pvname ∧ ∃ (g : GuardId) (guard : IocGuard), d.guards[g]? = some guard ∧
      guard.isConnected = true ∧ heard pvname guard.getIocAddr response := by
  obtain ⟨response', hSearched, ho⟩ := step_clientSearched hStep
  obtain rfl : response = response' := by simpa using ho
  rcases caPvSearched_cases hSearched with ⟨pv, g, hLookup, hIoc, hConnected, -, rfl⟩ |
    ⟨-, hEmpty, -⟩
  · obtain ⟨hAsked, g', guard, hIoc', hGet, hHeard⟩ := h.cached pvname pv hLookup
    rw [hIoc, Option.some.injEq] at hIoc'
    subst hIoc'
    obtain ⟨guard', hGet', hOpen⟩ := isConnected_iff.mp hConnected
    rw [hGet, Option.some.injEq] at hGet'
    exact ⟨hAsked, g, guard, hGet, hGet' ▸ hOpen, hHeard⟩
  · exact absurd hEmpty hne

/-- A client's search leaves the guards alone. -/
theorem guards_clientSearched {clock : ℕ → Int} {pvname : Bytes}
    (hStep : d.step (.clientSearched clock pvname) = some (d', o)) : d'.guards = d.guards := by
  obtain ⟨response, hSearched, -⟩ := step_clientSearched hStep
  rcases caPvSearched_cases hSearched with ⟨-, -, -, -, -, rfl, -⟩ | ⟨-, -, -, -, hEq, -⟩
  · rfl
  · rw [hEq]

-- ---------------------------------------------------------------------------
-- In runs
-- ---------------------------------------------------------------------------

/-- A client has searched for the name. -/
def AskedIn (tr : List (Event × Output)) (pvname : Bytes) : Prop :=
  ∃ clock o, (Event.clientSearched clock pvname, o) ∈ tr

/-- After `pre`, an entry from an address reached the `k`-th searcher and found
the name. -/
def FoundAfter (pre tr : List (Event × Output)) (k : ℕ) (pvname : Bytes) (addr : Address)
    (entry : UInt32 × Bytes) : Prop :=
  ∃ opening now g post, tr = pre ++ (.response k addr.1 addr.2 entry opening now,
    .found (some (⟨pvname, addr.1, addr.2,
      (ChannelAccess.updateSearchReplyAddr entry.2 addr.1 addr.2).1⟩, some g))) :: post

/-- The response is an entry that found the name, with its address put in. -/
def HeardIn (tr : List (Event × Output)) (pvname : Bytes) (addr : Address) (response : Bytes) :
    Prop :=
  ∃ pre k entry, FoundAfter pre tr k pvname addr entry ∧
    response = (ChannelAccess.updateSearchReplyAddr entry.2 addr.1 addr.2).1

theorem AskedIn.append {pvname : Bytes} (h : AskedIn tr pvname) (tr' : List (Event × Output)) :
    AskedIn (tr ++ tr') pvname := by
  obtain ⟨clock, o, hMem⟩ := h
  exact ⟨clock, o, List.mem_append_left tr' hMem⟩

theorem FoundAfter.append {pre : List (Event × Output)} {k : ℕ} {pvname : Bytes} {addr : Address}
    {entry : UInt32 × Bytes} (h : FoundAfter pre tr k pvname addr entry)
    (tr' : List (Event × Output)) : FoundAfter pre (tr ++ tr') k pvname addr entry := by
  obtain ⟨opening, now, g, post, rfl⟩ := h
  exact ⟨opening, now, g, post ++ tr', by rw [List.append_assoc, List.cons_append]⟩

/-- What was found was not found by steps that find nothing. -/
theorem FoundAfter.of_append {tr' pre : List (Event × Output)} {k : ℕ} {pvname : Bytes}
    {addr : Address} {entry : UInt32 × Bytes} (h : FoundAfter pre (tr ++ tr') k pvname addr entry)
    (hNot : ∀ x ∈ tr', ∀ f, x.2 ≠ Output.found f) : FoundAfter pre tr k pvname addr entry := by
  obtain ⟨opening, now, g, post, hEq⟩ := h
  rcases List.append_eq_append_iff.mp hEq with ⟨c, rfl, rfl⟩ | ⟨c, rfl, hTail⟩
  · exact absurd rfl (hNot _ (List.mem_append_right c List.mem_cons_self) _)
  · cases c with
    | nil =>
      rw [List.nil_append] at hTail
      exact absurd rfl (hNot _ (hTail ▸ List.mem_cons_self) _)
    | cons x c =>
      obtain ⟨rfl, -⟩ := List.cons.inj hTail
      exact ⟨opening, now, g, c, rfl⟩

theorem HeardIn.append {pvname response : Bytes} {addr : Address}
    (h : HeardIn tr pvname addr response) (tr' : List (Event × Output)) :
    HeardIn (tr ++ tr') pvname addr response := by
  obtain ⟨pre, k, entry, hFound, hResponse⟩ := h
  exact ⟨pre, k, entry, hFound.append tr', hResponse⟩

/-- The last step of a trace was asked for or heard in it. -/
theorem admits_concat (hStep : d.step e = some (d', o)) :
    Admits (AskedIn (tr ++ [(e, o)])) (HeardIn (tr ++ [(e, o)])) (e, o) where
  asked clock pvname hEq := ⟨clock, o, by simp [← hEq]⟩
  heard f g hEq := by
    obtain rfl : o = .found (some (f, some g)) := hEq
    obtain ⟨k, iocIp, iocPort, entry, opening, now, rfl⟩ := response_of_found hStep
    obtain ⟨hIp, hPort, hResponse⟩ := found_of_response hStep
    refine ⟨tr, k, entry, ⟨opening, now, g, [], ?_⟩, ?_⟩
    · rw [hIp, hPort, ← hResponse]
      obtain ⟨pvname, ip, port, response⟩ := f
      obtain rfl : ip = iocIp := hIp
      obtain rfl : port = iocPort := hPort
      rfl
    · rw [hIp, hPort]
      exact hResponse

/-- Over every run from the start, what is searched for was asked for in it,
and what is cached was asked for and heard in it. -/
theorem grounded_run (hInit : Init searchIntervals d₀) (hRun : Run step d₀ tr d) :
    Grounded (AskedIn tr) (HeardIn tr) d := by
  refine (hRun.history (I := fun tr d => Sound searchIntervals d ∧
    Grounded (AskedIn tr) (HeardIn tr) d) ?_ ⟨sound_of_init hInit, grounded_of_init hInit⟩).2
  rintro pre d₁ e d₂ o ⟨hSound, h⟩ hStep
  refine ⟨sound_step hSound hStep, grounded_step hSound ?_ hStep (admits_concat hStep)⟩
  exact h.mono (fun _ hAsked => hAsked.append _) (fun _ _ _ hHeard => hHeard.append _)

/-- A name a searcher sends out was asked for. -/
theorem asked_of_sent (hInit : Init searchIntervals d₀) (hRun : Run step d₀ tr d)
    (hStep : d.step e = some (d', o)) {k : ℕ} {r : UInt32 × Bytes} (hr : r ∈ requestsOf k o) :
    AskedIn tr r.2 := by
  obtain ⟨s, hGet, q, hq, rfl⟩ := exists_content_of_requestsOf hStep hr
  exact (grounded_run hInit hRun).searched _ ⟨s, List.mem_of_getElem? hGet, q, hq, rfl⟩

/-- If no client asks for too long a name, every packet is one message for each
request it lists. -/
theorem carried_of_sent (hInit : Init searchIntervals d₀) (hRun : Run step d₀ tr d) {k : ℕ}
    {packets : List Packet} (hStep : d.step e = some (d', .sent k packets)) {m : ℕ}
    (hm : m < 65528) (hAsked : ∀ pvname, AskedIn tr pvname → pvname.length ≤ m) :
    ∀ packet ∈ packets, packet.msg.length ≤ 1024 + m ∧ ∃ ms, ChannelAccess.Carried packet ms := by
  obtain ⟨now, rfl⟩ := outgoing_of_sent hStep
  obtain ⟨s, s', sent, -, hOut, -, hEq⟩ := step_searcherOutgoing hStep
  obtain ⟨-, rfl⟩ := Output.sent.inj hEq
  refine Searcher.carried_of_sends (Searcher.sends_of_processOutgoing hOut) hm fun r hr => ?_
  refine hAsked _ (asked_of_sent hInit hRun hStep (k := k) ?_)
  rw [requestsOf_sent, if_pos rfl]
  exact hr

/-- **Where a reply comes from.** Whoever gets a reply gets an entry that found
the name earlier, from an IOC that is still connected. -/
theorem heard_of_reply (hInit : Init searchIntervals d₀) (hRun : Run step d₀ tr d)
    {clock : ℕ → Int} {pvname response : Bytes}
    (hStep : d.step (.clientSearched clock pvname) = some (d', .reply response))
    (hne : response ≠ []) :
    ∃ (g : GuardId) (guard : IocGuard), d.guards[g]? = some guard ∧ guard.isConnected = true ∧
      HeardIn tr pvname guard.getIocAddr response :=
  ((grounded_run hInit hRun).reply hStep hne).2

/-- An entry that found a name found the one its id was sent out with, unless
clients searched more than 2^32 times. -/
theorem FoundAfter.attributed (hInit : Init searchIntervals d₀) (hRun : Run step d₀ tr d)
    {pre : List (Event × Output)} {k : ℕ} {pvname : Bytes} {addr : Address}
    {entry : UInt32 × Bytes} (h : FoundAfter pre tr k pvname addr entry)
    (hFew : searchCount pre ≤ 2 ^ 32) {sent : Bytes} (hSent : (entry.1, sent) ∈ sentBy k pre) :
    pvname = sent := by
  obtain ⟨opening, now, g, post, rfl⟩ := h
  obtain ⟨d₁, hPre, hRest⟩ := hRun.split
  obtain ⟨d₂, hStep, -⟩ := Runs.run_cons_iff.mp hRest
  exact found_of_request hInit hPre hFew hStep hSent

end Dispatcher

end PVmapper
