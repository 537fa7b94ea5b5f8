/-
Stream downloads over litetalk, `litetalk_stream_process` in `cmder.c`.

A stream comes in chunks that carry its id, its media, its total size and their own
index.  Chunks are collected in a pool of 4096 bytes; when the next one does not fit,
or the last has come, the pool is merged into one chunk and handed to the media.
Every arrival is acknowledged with a code.

A null pointer that is followed and a loop that never ends have no result.
-/
import Awoke.Util.Buffer
import Awoke.Util.Package

namespace Awoke.Cmder

/-! ### The media's test -/

/-- `CMDER_CHECKSUM_NOR8`. -/
def checksumNOR8 : BitVec 8 := 0x01

/-- `CMDER_CHECKSUM_NOR32`. -/
def checksumNOR32 : BitVec 8 := 0x02

/-- `CMDER_CHECKSUM_MARKER`. -/
def checksumMARKER : BitVec 8 := 0x10

/-- `USER_MARK`. -/
def userMark : UInt32 := 0xBBCCCCBB

/-- `normal_checksum`. -/
def normalChecksum (buf : Cells UInt8) (len : Int) (mask : BitVec 8) : ErrType :=
  if maskExst mask checksumMARKER ∧ pullDwrd buf 0 ≠ userMark then .errParam
  else if maskExst mask checksumNOR8 then
    if checksum8 buf (len - 1) ≠ buf (len - 1) then .errChecksum else .etOk
  else if maskExst mask checksumNOR32 then
    if checksum32 buf (len - 4) ≠ htonl (pullDwrd buf (len - 4)) then .errChecksum else .etOk
  else .etOk

/-! ### The stream -/

/-- `struct litk_streaminfo`. -/
structure Streaminfo where
  id : UInt8
  media : UInt8
  index : UInt16
  length : UInt16
  totalsize : UInt32
  recvbytes : UInt32
  deriving DecidableEq

/-- All fields zero. -/
def Streaminfo.zero : Streaminfo :=
  { id := 0, media := 0, index := 0, length := 0, totalsize := 0, recvbytes := 0 }

/-- `LITETALK_MEDIA_DEFCONFIG` and its siblings. -/
def mediaDEFCONFIG : UInt8 := 1
def mediaUSRCONFIG : UInt8 := 2
def mediaSENSORCFG : UInt8 := 3
def mediaDPCPARAMS : UInt8 := 4
def mediaNUCPARAMS : UInt8 := 5

/-- What a download reads and changes: the fields of `struct litk_private` and of
`struct uartcmder`, and the counter of `buffchunk_id`. -/
structure Litk where
  streaminfo : Streaminfo
  streampool : BuffchunkPool
  nucaddr : UInt32
  nucChecksum : UInt8
  chunkid : UInt16

/-- The test a media makes of a merged stream, as a mask for `normal_checksum`. -/
def mediaMask (media : UInt8) : BitVec 8 :=
  if media = mediaDPCPARAMS then checksumNOR8 else checksumMARKER ||| checksumNOR8

/-- The `switch` of `litk_stream_merge`: what it leaves in `ret` and in `nuc_checksum`;
no result where it follows a null pointer.  `litk_stream_write` returns `et_ok`. -/
def mergeMedia (s : Litk) (merge : Option Buffchunk) (ret : ErrType) : Option (ErrType × UInt8) :=
  let media := s.streaminfo.media
  if media = mediaDEFCONFIG ∨ media = mediaUSRCONFIG ∨ media = mediaSENSORCFG ∨
      media = mediaDPCPARAMS then
    merge.map fun merge =>
      (normalChecksum merge.p merge.length (mediaMask media), s.nucChecksum)
  else if media = mediaNUCPARAMS then
    merge.map fun merge =>
      let len := if merge.length = 0x2000 then merge.length else merge.length - 1
      (ret, s.nucChecksum + checksum8 merge.p len)
  else some (ret, s.nucChecksum)

/-- `litk_stream_merge`, with the bytes it merged.  It returns `et_ok` whatever the
`switch` left in `ret`. -/
def streamMerge (s : Litk) : Option (ErrType × List UInt8 × Litk) := do
  let (merge, chunkid) := s.streampool.pool2chunk s.chunkid
  let (_ret, nucChecksum) ← mergeMedia s merge .etOk
  return (.etOk, (merge.map Buffchunk.contents).getD [],
    { s with streampool := s.streampool.clean, nucChecksum := nucChecksum, chunkid := chunkid })

/-! ### Acknowledgements -/

/-- `LITETALK_CODE_ERROR`. -/
def codeERROR : UInt8 := 1

/-- `litetalk_pack_header`, with `LITETALK_MARK`. -/
def packHeader (category : UInt8) (length : UInt32) : List UInt8 :=
  pushHtonl 0x13356789 ++ [category, 0] ++ pushHtonl length

/-- `litetalk_build_stream_ack`. -/
def buildStreamAck (streamid : UInt8) (index : UInt16) (code : UInt8) : List UInt8 :=
  packHeader 1 5 ++ [0x02, streamid] ++ pushHtons index ++ [code]

/-- The code in an acknowledgement. -/
def ackCode (ack : List UInt8) : UInt8 := ack.getD 14 0

/-! ### One arrival -/

/-- A chunk as `litetalk_stream_download` passes it on: its description, and as many
bytes as that says. -/
structure Arrival where
  info : Streaminfo
  payload : List UInt8
  fits : payload.length = info.length.toNat

/-- What an arrival leads to: whether its index was accepted, what was merged because of
it, whether it completed its stream, and the acknowledgement. -/
structure Outcome where
  accepted : Bool
  merged : List UInt8
  finished : Bool
  ack : List UInt8

/-- The address `uc->nucaddr` takes when a stream begins. -/
def nextNucaddr (nucaddr : UInt32) : UInt32 :=
  if nucaddr ≥ 0x0000C000 + 4096 * 1280 * 4 then 0x0000C000
  else if nucaddr ≠ 0 then nucaddr + 0x1000
  else 0x0000C000

/-- A stream begins: the description is copied in. -/
def Litk.opened (s : Litk) (info : Streaminfo) : Litk :=
  { s with
    streaminfo := { info with recvbytes := 0 }
    nucaddr := nextNucaddr s.nucaddr
    nucChecksum := 0 }

/-- From `stream_transmit_start` to the index check.  A chunk of another stream cleans
the pool and jumps back with `p->id` as it was, for ever. -/
def streamStart (s : Litk) (info : Streaminfo) : Option Litk :=
  if s.streaminfo.id = 0 then some (s.opened info)
  else if s.streaminfo.id ≠ info.id ∨ s.streaminfo.media ≠ info.media then none
  else some s

/-- The index check: an arrival is turned away when `p->index` is neither zero nor the
index before its own. -/
def oldIndex (p info : Streaminfo) : Prop :=
  p.index ≠ 0 ∧ (p.index.toNat : Int) ≠ (info.index.toNat : Int) - 1

instance (p info : Streaminfo) : Decidable (oldIndex p info) :=
  inferInstanceAs (Decidable (_ ∧ _))

/-- Make room for `length` bytes by merging, if there is not enough. -/
def streamRoom (s : Litk) (length : UInt16) : Option (ErrType × List UInt8 × Litk) :=
  if s.streampool.maxsize - s.streampool.size < length.toNat then do
    let s := { s with nucaddr := if s.nucaddr = 0 then 0x0000C000 else s.nucaddr }
    let (ret, merged, s) ← streamMerge s
    return (ret, merged, { s with nucaddr := s.nucaddr + 0x1000 })
  else some (.etOk, [], s)

/-- Receive the chunk.  The results of `write` and of `chunkadd` are not looked at. -/
def streamReceive (s : Litk) (a : Arrival) : Option Litk := do
  let (rbx, chunkid) := Buffchunk.create s.chunkid a.info.length.toNat
  let rbx := rbx.map fun chunk => (chunk.write a.payload true).2
  let pool := (s.streampool.chunkadd rbx).2
  let rbx ← rbx
  return { s with
    streaminfo := { s.streaminfo with
      recvbytes := s.streaminfo.recvbytes + UInt32.ofNat rbx.length.toNat }
    streampool := pool
    chunkid := chunkid }

/-- Merge and forget the stream when all of it has come. -/
def streamFinish (s : Litk) (ret : ErrType) : Option (Bool × ErrType × List UInt8 × Litk) :=
  if s.streaminfo.recvbytes = s.streaminfo.totalsize then do
    let (ret, merged, s) ← streamMerge s
    return (true, ret, merged, { s with streaminfo := .zero })
  else some (false, ret, [], s)

/-- The chunk for the acknowledgement takes a number too. -/
def streamAck (s : Litk) : Litk := { s with chunkid := (Buffchunk.create s.chunkid 32).2 }

/-- `p->index = info->index`. -/
def Litk.atIndex (s : Litk) (index : UInt16) : Litk :=
  { s with streaminfo := { s.streaminfo with index := index } }

/-- What follows a passed index check, up to the acknowledgement. -/
def streamAccept (s : Litk) (a : Arrival) : Option (Litk × Outcome) := do
  let (ret, merged₁, s) ← streamRoom (s.atIndex a.info.index) a.info.length
  let s ← streamReceive s a
  let (finished, ret, merged₂, s) ← streamFinish s ret
  let code := UInt8.ofNat ret.value
  return (streamAck s, { accepted := true, merged := merged₁ ++ merged₂, finished := finished,
                         ack := buildStreamAck a.info.id a.info.index code })

/-- What an arrival that is turned away leads to. -/
def refusal (a : Arrival) : Outcome :=
  { accepted := false, merged := [], finished := false,
    ack := buildStreamAck a.info.id a.info.index codeERROR }

/-- `litetalk_stream_process`. -/
def streamProcess (s : Litk) (a : Arrival) : Option (Litk × Outcome) := do
  let s ← streamStart s a.info
  if oldIndex s.streaminfo a.info then
    return (streamAck s, refusal a)
  else streamAccept s a

/-- As `LITETALK_CALLBACK_PROTOCOL_INIT` leaves it, over an NUC address and a counter. -/
def streamInit (nucaddr : UInt32) (nucChecksum : UInt8) (chunkid : UInt16) : Litk :=
  { streaminfo := .zero
    streampool := .init 4096
    nucaddr := nucaddr
    nucChecksum := nucChecksum
    chunkid := chunkid }

end Awoke.Cmder
