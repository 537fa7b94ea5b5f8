/-
What `litetalk_stream_process` comes past on the way to its result.

`Stream` has no result where a null pointer is followed or a loop never ends.  Here the two are kept
apart.  The label `stream_transmit_start` is taken turn by turn, so that a run of turns can be
counted; and every chunk that is followed on the way is listed, with every checksum and the bytes it
is taken of, up to the first null pointer.
-/
import Awoke.Cmder.Stream

namespace Awoke.Cmder

/-! ### The start, turn by turn -/

/-- Where a turn from `stream_transmit_start` leads: on to the index check, or back. -/
inductive StartTurn
  | on (s : Litk)
  | back (s : Litk)

/-- One turn from `stream_transmit_start`. -/
def startTurn (info : Streaminfo) (s : Litk) : StartTurn :=
  if s.streaminfo.id = 0 then .on (s.opened info)
  else if s.streaminfo.id ≠ info.id ∨ s.streaminfo.media ≠ info.media then
    .back { s with streampool := s.streampool.clean }
  else .on s

/-- The state at the index check, unless it takes more than `n` turns. -/
def startTurns (info : Streaminfo) : Nat → Litk → Option Litk
  | 0, _ => none
  | n + 1, s =>
      match startTurn info s with
      | .on s => some s
      | .back s => startTurns info n s

/-- From the index check on. -/
def streamRest (s : Litk) (a : Arrival) : Option (Litk × Outcome) :=
  if oldIndex s.streaminfo a.info then some (streamAck s, refusal a) else streamAccept s a

/-- `litetalk_stream_process` with at most `n` turns at its start. -/
def processTurns (n : Nat) (s : Litk) (a : Arrival) : Option (Option (Litk × Outcome)) :=
  (startTurns a.info n s).map fun s => streamRest s a

/-! ### What is used -/

/-- A chunk is followed, `normal_checksum` is applied to so many bytes, or `awoke_checksum_8` sums
up so many. -/
inductive ChunkUse
  | chunk (p : Option Buffchunk)
  | checksum (length : Int) (mask : BitVec 8)
  | sum (length : Int)

/-- The pointer is not null, and the bytes are enough for the mark and the checksum. -/
def ChunkUse.Sound : ChunkUse → Prop
  | .chunk p => p.isSome
  | .checksum length mask =>
      (maskExst mask checksumMARKER → 4 ≤ length) ∧ (maskExst mask checksumNOR8 → 1 ≤ length) ∧
        (maskExst mask checksumNOR32 → 4 ≤ length)
  | .sum length => 0 ≤ length

/-- The `switch` of `litk_stream_merge`. -/
def mediaUses (media : UInt8) (merge : Option Buffchunk) : List ChunkUse :=
  if media = mediaDEFCONFIG ∨ media = mediaUSRCONFIG ∨ media = mediaSENSORCFG ∨
      media = mediaDPCPARAMS then
    .chunk merge :: merge.toList.map fun merge => .checksum merge.length (mediaMask media)
  else if media = mediaNUCPARAMS then
    .chunk merge :: merge.toList.map fun merge =>
      .sum (if merge.length = 0x2000 then merge.length else merge.length - 1)
  else []

/-- `litk_stream_merge`. -/
def mergeUses (s : Litk) : List ChunkUse :=
  mediaUses s.streaminfo.media (s.streampool.pool2chunk s.chunkid).1

/-- Making room. -/
def roomUses (s : Litk) (length : UInt16) : List ChunkUse :=
  if s.streampool.maxsize - s.streampool.size < length.toNat then mergeUses s else []

/-- Receiving: `rbx->length` is asked for. -/
def receiveUses (s : Litk) (a : Arrival) : List ChunkUse :=
  [.chunk (Buffchunk.create s.chunkid a.info.length.toNat).1]

/-- Finishing. -/
def finishUses (s : Litk) : List ChunkUse :=
  if s.streaminfo.recvbytes = s.streaminfo.totalsize then mergeUses s else []

/-- The acknowledgement is written into a chunk. -/
def ackUses (s : Litk) : List ChunkUse := [.chunk (Buffchunk.create s.chunkid 32).1]

/-- What follows a passed index check. -/
def acceptUses (s : Litk) (a : Arrival) : List ChunkUse :=
  roomUses s a.info.length ++
    match streamRoom s a.info.length with
    | none => []
    | some (ret, _, s) =>
        receiveUses s a ++
          match streamReceive s a with
          | none => []
          | some s =>
              finishUses s ++
                match streamFinish s ret with
                | none => []
                | some (_, _, _, s) => ackUses s

/-- `litetalk_stream_process`. -/
def processUses (s : Litk) (a : Arrival) : List ChunkUse :=
  match streamStart s a.info with
  | none => []
  | some s =>
      if oldIndex s.streaminfo a.info then ackUses s
      else acceptUses (s.atIndex a.info.index) a

end Awoke.Cmder
