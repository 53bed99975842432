import PVmapper.Model.ProtoCa

/-!
# PVmapper — the listener (`listener.cpp`)

A `Listener` takes the requests of client datagrams apart, cuts the record
field off the names, asks the access rules and hands the names that pass to
the search callback.

A `std::regex` is a value of an arbitrary type `ρ`, and `std::regex_match` an
arbitrary test of a string against it.
-/

namespace PVmapper

/-- `AccessControl::Action` -/
inductive Action
  | allow
  | deny
deriving DecidableEq, Repr

/-- `AccessControl::Entry`, without its text, which is only logged. -/
structure AccessEntry (ρ : Type*) where
  action : Action
  regex : ρ

/-- `AccessControl` -/
structure AccessControl (ρ : Type*) where
  pvs : List (AccessEntry ρ)
  clients : List (AccessEntry ρ)

/-- The state of a `Listener`. -/
structure Listener (ρ : Type*) where
  sock : Int
  addr : Address
  accessControl : AccessControl ρ

/-- `pvname.find('.')` and `pvname.erase(field)`: the record's name. -/
def dropField (pvname : Bytes) : Bytes := pvname.takeWhile (· != chr '.')

/-- `pvname.find_last_of('.')` and `pvname.erase(pos)` -/
def dropLastField (pvname : Bytes) : Bytes :=
  if chr '.' ∈ pvname then (pvname.rdropWhile (· != chr '.')).dropLast else pvname

namespace AccessControl

variable {ρ : Type*} (regexMatch : ρ → Bytes → Bool)

/-- One of the loops of `checkAccessControl`: the first rule that matches
decides, and without one the answer is yes. -/
def allows (s : Bytes) : List (AccessEntry ρ) → Bool
  | [] => true
  | rule :: rules =>
    if regexMatch rule.regex s then
      match rule.action with
      | .allow => true
      | .deny => false
    else allows s rules

/-- `Listener::checkAccessControl` -/
def checkAccessControl (accessControl : AccessControl ρ) (pvname client : Bytes) : Bool :=
  allows regexMatch (dropLastField pvname) accessControl.pvs &&
    allows regexMatch client accessControl.clients

end AccessControl

namespace Listener

section Incoming

variable {ρ σ : Type*} (regexMatch : ρ → Bytes → Bool)
  (searchPvCb : Bytes → Bytes → UInt16 → σ → Option (σ × Bytes))

/-- The rest of an iteration of the loop over `pvs`, once the field is cut
off `pvname`: the rules, the search callback, and the reply, appended to the
datagrams sent. -/
def offer (accessControl : AccessControl ρ) (clientIp : Bytes) (clientPort : UInt16)
    (w : σ × List Bytes) (chanId : UInt32) (pvname : Bytes) : Option (σ × List Bytes) :=
  if pvname ≠ [] ∧ accessControl.checkAccessControl regexMatch pvname clientIp then
    (searchPvCb pvname clientIp clientPort w.1).map fun r =>
      if r.2 ≠ [] then (r.1, w.2 ++ [(ChannelAccess.updateSearchReplyId r.2 chanId).1])
      else (r.1, w.2)
  else some w

/-- `Listener::processIncoming`, for one datagram: the surrounding state
afterwards and the datagrams sent to the client; `none` when the callback has
no answer. -/
def processIncoming (l : Listener ρ) (remote : InAddr) (clientPort : UInt16) (buffer : Bytes)
    (w : σ) : Option (σ × List Bytes) :=
  (ChannelAccess.parseSearchRequest buffer).foldlM
    (fun w pv => offer regexMatch searchPvCb l.accessControl (inetNtop remote) clientPort w pv.1
      (dropField pv.2))
    (w, [])

end Incoming

end Listener

end PVmapper
