import PVmapper.Lib.Wire
import PVmapper.Model.Net

/-!
# PVmapper — the Channel Access codec (`proto_ca.cpp`)

The class `ChannelAccess`: three builders and parsers of messages PVmapper
sends and receives, and the two in-place updates of a stored search reply. A
message is a 16-byte `Header`, all fields big-endian, followed by
`payloadLen` bytes. Every walker of `proto_ca.cpp` is a `while` loop over a
buffer and an offset; here each is a recursion over the offset.
-/

namespace PVmapper

open Wire

def cmdVersion : UInt16 := 0x0
def cmdSearch : UInt16 := 0x6
def cmdEcho : UInt16 := 0x17

/-- `struct Header`, in host byte order. -/
structure Header where
  command : UInt16
  payloadLen : UInt16
  dataType : UInt16
  dataCount : UInt16
  param1 : UInt32
  param2 : UInt32
deriving DecidableEq, Repr

namespace Header

/-- `sizeof(Header)` -/
def size : ℕ := 16

/-- The header as it is laid out in a buffer. -/
def encode (hdr : Header) : Bytes :=
  bytes16 hdr.command ++ bytes16 hdr.payloadLen ++ bytes16 hdr.dataType ++ bytes16 hdr.dataCount ++
    bytes32 hdr.param1 ++ bytes32 hdr.param2

/-- `reinterpret_cast<Header *>(buffer.data() + offset)`, read field by field. -/
def readAt (buffer : Bytes) (offset : ℕ) : Header where
  command := get16 buffer offset
  payloadLen := get16 buffer (offset + 2)
  dataType := get16 buffer (offset + 4)
  dataCount := get16 buffer (offset + 6)
  param1 := get32 buffer (offset + 8)
  param2 := get32 buffer (offset + 12)

@[simp] theorem length_encode (hdr : Header) : hdr.encode.length = size := rfl

/-- The VERSION header PVmapper puts in front of what it sends. -/
def version : Header where
  command := cmdVersion
  payloadLen := 0
  dataType := 1
  dataCount := 13
  param1 := 0
  param2 := 0

end Header

namespace ChannelAccess

/-- `ChannelAccess::createEchoRequest` -/
def createEchoRequest (includeVersion : Bool) : Bytes :=
  let echo : Header := ⟨cmdEcho, 0, 0, 0, 0, 0⟩
  if includeVersion then Header.version.encode ++ echo.encode else echo.encode

/-! ## Building search requests -/

/-- `uint16_t payloadLen = (((pvname.length()+1) & 0xFFFF) + 7) & ~7` -/
def payloadLen (pvname : Bytes) : ℕ := ((pvname.length + 1) % 65536 + 7) / 8 * 8 % 65536

/-- One iteration of the loop in `createSearchRequest`: the SEARCH header and
the zero-filled payload with the name copied in. `none` when
`pvname.copy(payload, pvname.length() & 0xFFFF)` writes past the buffer,
which ends with this payload. -/
def searchMessage (chanId : UInt32) (pvname : Bytes) : Option Bytes :=
  let len := payloadLen pvname
  let copied := pvname.take (pvname.length % 65536)
  if copied.length ≤ len then
    let hdr : Header := ⟨cmdSearch, UInt16.ofNat len, 0x5, 13, chanId, chanId⟩
    some (hdr.encode ++ copied ++ List.replicate (len - copied.length) 0)
  else none

/-- The loop of `createSearchRequest`. `offset` is `buffer.size()` whenever
the loop tests it. -/
def createLoop : List (UInt32 × Bytes) → Bytes → ℕ → Option (Bytes × ℕ)
  | [], buffer, nPvs => some (buffer, nPvs)
  | (chanId, pvname) :: pvs, buffer, nPvs =>
    match searchMessage chanId pvname with
    | none => none
    | some msg =>
      let buffer' := buffer ++ msg
      -- Limit packet size to about 1000 bytes
      if buffer'.length > 1000 then some (buffer', nPvs + 1) else createLoop pvs buffer' (nPvs + 1)

/-- `ChannelAccess::createSearchRequest`: the packet, and how many of the PVs
are in it. -/
def createSearchRequest (pvs : List (UInt32 × Bytes)) : Option (Bytes × ℕ) :=
  createLoop pvs Header.version.encode 0

/-! ## Updating a stored search reply -/

/-- Overwrites fields, given by their offset in the header, of the header at
`offset`. -/
def writeFields (reply : Bytes) (offset : ℕ) (fields : List (ℕ × Bytes)) : Bytes :=
  fields.foldl (fun r f => patch r (offset + f.1) f.2) reply

@[simp] theorem length_writeFields (reply : Bytes) (offset : ℕ) (fields : List (ℕ × Bytes)) :
    (writeFields reply offset fields).length = reply.length := by
  induction fields generalizing reply with
  | nil => rfl
  | cons f fields ih =>
    rw [writeFields, List.foldl_cons]
    exact (ih _).trans (length_patch ..)

/-- The loop the two `updateSearchReply` overloads share: `fields` is what
they write into each SEARCH header. -/
def updateLoop (fields : List (ℕ × Bytes)) (reply : Bytes) (offset : ℕ) (updated : Bool) :
    Bytes × Bool :=
  if offset + Header.size ≤ reply.length then
    if (Header.readAt reply offset).command = cmdSearch then
      let reply' := writeFields reply offset fields
      updateLoop fields reply'
        (offset + Header.size + (Header.readAt reply' offset).payloadLen.toNat) true
    else
      updateLoop fields reply
        (offset + Header.size + (Header.readAt reply offset).payloadLen.toNat) updated
  else (reply, updated)
termination_by reply.length - offset
decreasing_by
  all_goals
    simp only [length_writeFields, Header.size] at *
    omega

/-- What `updateSearchReply(reply, chanId)` writes: `param2`. -/
def idFields (chanId : UInt32) : List (ℕ × Bytes) := [(12, bytes32 chanId)]

/-- `ChannelAccess::updateSearchReply(Bytes&, uint32_t)` -/
def updateSearchReplyId (reply : Bytes) (chanId : UInt32) : Bytes × Bool :=
  updateLoop (idFields chanId) reply 0 false

/-- What `updateSearchReply(reply, iocIp, iocPort)` writes: `dataType`, and
`param1` unless `inet_aton` rejects the address. -/
def addrFields (iocIp : Bytes) (iocPort : UInt16) : List (ℕ × Bytes) :=
  (4, bytes16 iocPort) ::
    match inetAton iocIp with
    | some q => [(8, q.bytes)]
    | none => []

/-- `ChannelAccess::updateSearchReply(Bytes&, const std::string&, uint16_t)` -/
def updateSearchReplyAddr (reply : Bytes) (iocIp : Bytes) (iocPort : UInt16) : Bytes × Bool :=
  updateLoop (addrFields iocIp iocPort) reply 0 false

/-! ## Parsing -/

/-- `n` bytes of the buffer from `offset` on. -/
def slice (buffer : Bytes) (offset n : ℕ) : Bytes := (buffer.drop offset).take n

/-- The lambda `copyStr` of `parseSearchRequest`: drops trailing NULs. -/
def copyStr (s : Bytes) : Bytes := s.rdropWhile (· == 0)

/-- A read of `n` bytes at `offset`, refused unless all are in the buffer. -/
def sliceChecked (buffer : Bytes) (offset n : ℕ) : Option Bytes :=
  if offset + n ≤ buffer.length then some (slice buffer offset n) else none

/-- The loop of `parseSearchRequest`, with every read of it checked. -/
def checkedRequestLoop (buffer : Bytes) (offset : ℕ) : Option (List (UInt32 × Bytes)) :=
  if offset + Header.size ≤ buffer.length then
    (sliceChecked buffer offset Header.size).bind fun bytes =>
      let hdr := Header.readAt bytes 0
      let payloadLen := hdr.payloadLen.toNat
      if hdr.command = cmdSearch ∧ offset + Header.size + payloadLen ≤ buffer.length then
        (sliceChecked buffer (offset + Header.size) payloadLen).bind fun payload =>
          (checkedRequestLoop buffer (offset + Header.size + payloadLen)).map fun pvs =>
            (hdr.param1, copyStr payload) :: pvs
      else checkedRequestLoop buffer (offset + Header.size + payloadLen)
  else some []
termination_by buffer.length - offset
decreasing_by
  all_goals
    simp only [Header.size] at *
    omega

/-- The loop of `parseSearchRequest`. No read of it is refused
(`checkedRequestLoop_eq`). -/
def searchRequestLoop (buffer : Bytes) (offset : ℕ) : List (UInt32 × Bytes) :=
  (checkedRequestLoop buffer offset).getD []

/-- `ChannelAccess::parseSearchRequest` -/
def parseSearchRequest (buffer : Bytes) : List (UInt32 × Bytes) := searchRequestLoop buffer 0

/-- The test `parseSearchResponse` and `parseIocAddr` share: a complete SEARCH
message with 8 bytes of payload and no data count. -/
def isSearchResponse (buffer : Bytes) (offset : ℕ) : Prop :=
  let hdr := Header.readAt buffer offset
  hdr.command = cmdSearch ∧ offset + Header.size + hdr.payloadLen.toNat ≤ buffer.length ∧
    hdr.payloadLen = 8 ∧ hdr.dataCount = 0

instance (buffer : Bytes) (offset : ℕ) : Decidable (isSearchResponse buffer offset) := by
  unfold isSearchResponse
  infer_instance

/-- The loop of `parseSearchResponse`; `version` is the offset of the last
VERSION header met. -/
def searchResponseLoop (buffer : Bytes) (offset : ℕ) (version : Option ℕ) :
    List (UInt32 × Bytes) :=
  if offset + Header.size ≤ buffer.length then
    let hdr := Header.readAt buffer offset
    let next := offset + Header.size + hdr.payloadLen.toNat
    if hdr.command = cmdVersion then searchResponseLoop buffer next (some offset)
    else if isSearchResponse buffer offset then
      let head := match version with
        | some v => slice buffer v Header.size
        | none => []
      (hdr.param2, head ++ slice buffer offset (Header.size + 8)) ::
        searchResponseLoop buffer next version
    else searchResponseLoop buffer next version
  else []
termination_by buffer.length - offset
decreasing_by
  all_goals
    simp only [Header.size] at *
    omega

/-- `ChannelAccess::parseSearchResponse` -/
def parseSearchResponse (buffer : Bytes) : List (UInt32 × Bytes) := searchResponseLoop buffer 0 none

/-- The loop of `parseIocAddr`: the port of the first search response. -/
def iocAddrLoop (ip buffer : Bytes) (offset : ℕ) : Address :=
  if offset + Header.size ≤ buffer.length then
    let hdr := Header.readAt buffer offset
    if isSearchResponse buffer offset then (ip, hdr.dataType)
    else iocAddrLoop ip buffer (offset + Header.size + hdr.payloadLen.toNat)
  else ([], 0)
termination_by buffer.length - offset
decreasing_by
  simp only [Header.size] at *
  omega

/-- `ChannelAccess::parseIocAddr` (it does not use the UDP port). -/
def parseIocAddr (ip buffer : Bytes) : Address := iocAddrLoop ip buffer 0

end ChannelAccess

end PVmapper
