import PVmapper.Model.Dispatcher
import PVmapper.Model.ConfigFile

/-!
# PVmapper — the names of hosts (`dnscache.cpp`)

`DnsCache::resolveIP` turns IP addresses into host names for the log. It asks
the system, which may take a while, and remembers the answer until the record
it came from expires. What the system answers is an argument: `Resolver`. The
build uses the resolver library to find out how long an answer is valid.
-/

namespace PVmapper

/-- `Entry` -/
structure DnsEntry where
  host : Bytes
  expires : Int
deriving DecidableEq, Repr

/-- The type and the TTL of a resource record. -/
structure ResourceRecord where
  type : UInt16
  ttl : UInt32
deriving DecidableEq, Repr

/-- What the system answers to a lookup: `getnameinfo` the name of an address,
if it has one; `res_query` and `ns_initparse` the answer section of a message,
if there is one, with each record that `ns_parserr` can parse. -/
structure Resolver where
  getnameinfo : InAddr → Option Bytes
  query : Bytes → Option (List (Option ResourceRecord))

/-- `inet_pton`, which takes the texts that `inet_ntop` writes and no others. -/
def inetPton (ip : Bytes) : Option InAddr :=
  (inetAton ip).filter fun q => inetNtop q = cStr ip

namespace DnsCache

open Config (bytes)

/-- `ns_t_ptr` -/
def nsTPtr : UInt16 := 12

/-- `DnsCache::_getHost` -/
def getHost (resolver : Resolver) (ip : Bytes) : Bytes :=
  match inetPton ip with
  | none => []
  | some q => (resolver.getnameinfo q).getD []

/-- `DnsCache::_reverseIp` -/
def reverseIp (ip : Bytes) : Bytes :=
  let tokens := ip.splitOn (chr '.')
  (tokens.reverse.map (· ++ [chr '.'])).flatten ++ bytes "in-addr.arpa"

/-- The loop in `_getTtl` over the records: the first PTR record decides. -/
def ptrTtl (ttl : UInt32) : List (Option ResourceRecord) → UInt32
  | [] => ttl
  | none :: records => ptrTtl ttl records
  | some rr :: records =>
    if rr.type = nsTPtr then
      if rr.ttl < 600 then 600 else rr.ttl
    else ptrTtl ttl records

/-- `DnsCache::_getTtl` -/
def getTtl (resolver : Resolver) (ip : Bytes) : UInt32 :=
  match resolver.query (cStr (reverseIp ip)) with
  | none => 86400
  | some records => ptrTtl 86400 records

/-- The end of `resolveIP`, if there is no answer in the cache: the cache, the
host, and that the system was asked. -/
def refresh (cache : Map Bytes DnsEntry) (resolver : Resolver) (now : Int) (ip : Bytes) :
    Map Bytes DnsEntry × Bytes × Bool :=
  let host := getHost resolver ip
  let expires := now + (getTtl resolver ip).toNat * 1000000000
  let host := if host = [] then ip else host
  (cache.insert ip ⟨host, expires⟩, host, true)

/-- `DnsCache::resolveIP`, and whether it asked the system. -/
def resolveIP (cache : Map Bytes DnsEntry) (resolver : Resolver) (now : Int) (ip : Bytes) :
    Map Bytes DnsEntry × Bytes × Bool :=
  match cache.lookup ip with
  | some entry =>
    if now ≤ entry.expires then (cache, entry.host, false)
    else refresh (cache.erase ip) resolver now ip
  | none => refresh cache resolver now ip

/-! ## The cache as a transition system -/

/-- A call of `resolveIP`, with what the system would answer. -/
structure Call where
  ip : Bytes
  now : Int
  resolver : Resolver

/-- What a call returns, and whether it asked the system. -/
structure Returned where
  host : Bytes
  asked : Bool
deriving DecidableEq, Repr

def step (cache : Map Bytes DnsEntry) (call : Call) : Option (Map Bytes DnsEntry × Returned) :=
  let r := resolveIP cache call.resolver call.now call.ip
  some (r.1, ⟨r.2.1, r.2.2⟩)

end DnsCache

end PVmapper
