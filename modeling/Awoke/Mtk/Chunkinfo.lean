/-
The plan of an upload and its requests, `micro_talk.c`, `mtk_session.c` and
`mtk_protocol.c`.

A content is cut into chunks of one size, and a request carries one of them with the
number of chunks, its own index, the size of the whole and the checksum of the whole.
The plan keeps the numbers in fields of 16 and 32 bits.

A division by zero, and a copy of a negative number of bytes, have no result.  Memory
and files are there when they are asked for, except that no allocation is as large as a
negative size asks for.
-/
import Awoke.Error
import Awoke.Util.Package

namespace Awoke.Mtk

/-! ### The plan -/

/-- `MTK_CHUNKTYPE_FILE`. -/
def chunktypeFile : UInt32 := 0

/-- `MTK_CHUNKTYPE_BUFF`. -/
def chunktypeBuff : UInt32 := 1

/-- `struct _mtk_chunkinfo`, as far as an upload uses it.  `filepath` is the content of the
file it names; a path that was never set names none. -/
structure MtkChunkinfo where
  crc : UInt16
  hash : UInt16
  index : UInt16
  chunknum : UInt16
  chunksize : UInt16
  totalsize : UInt32
  filepath : Option (List UInt8)
  buffin : List UInt8
  type : UInt32

/-- The plan for the chunk `i`. -/
def MtkChunkinfo.atIndex (ci : MtkChunkinfo) (i : Nat) : MtkChunkinfo :=
  { ci with index := UInt16.ofNat i }

/-- The `int` that a number is read as. -/
@[irreducible] def toInt32 (n : Nat) : Int := Int.bmod n (2 ^ 32)

/-- `mtk_getfilesize`: an `off_t` given back as an `int`. -/
def mtkGetfilesize (file : List UInt8) : Int := toInt32 file.length

/-- `mtk_getfilecrc`; 0 is also its error.  A negative size is too large to be allocated. -/
def mtkGetfilecrc (file : List UInt8) (filesize : Int) : UInt16 :=
  if filesize ≤ 0 then 0
  else if (file.length : Int) < filesize then 0
  else crc16 (file.take filesize.toNat)

/-- `chunknum` and `chunksize`, the same lines in both generators; `chunksize` is not
negative. -/
def chunkPlan (totalsize chunksize : Nat) : Option (UInt16 × UInt16) :=
  if totalsize ≤ chunksize then some (1, UInt16.ofNat totalsize)
  else if chunksize = 0 then none
  else
    let chunknum :=
      if totalsize % chunksize ≠ 0 then totalsize / chunksize + 1 else totalsize / chunksize
    some (UInt16.ofNat chunknum, UInt16.ofNat chunksize)

/-- `mtk_chunkinfo_generate_from_buff`.  The fields it does not set hold what was in the
memory: `type` is one of them. -/
def generateFromBuff (buff : List UInt8) (chunksize : Int) (type : UInt32) :
    Option (Except ErrType MtkChunkinfo) :=
  if chunksize < 0 then some (.error .etParam)
  else if crc16 buff = 0 then some (.error .etParam)
  else
    (chunkPlan buff.length chunksize.toNat).map fun plan => .ok
      { crc := crc16 buff
        hash := 6
        index := 0
        chunknum := plan.1
        chunksize := plan.2
        totalsize := UInt32.ofNat buff.length
        filepath := none
        buffin := buff
        type := type }

/-- `mtk_chunkinfo_generate_from_file`. -/
def generateFromFile (file : List UInt8) (chunksize : Int) :
    Option (Except ErrType MtkChunkinfo) :=
  if chunksize < 0 then some (.error .etParam)
  else
    let totalsize := UInt32.ofInt (mtkGetfilesize file)
    if totalsize = 0 then some (.error .etFileOpen)
    else
      let crc := mtkGetfilecrc file (toInt32 totalsize.toNat)
      if crc = 0 then some (.error .etParam)
      else
        (chunkPlan totalsize.toNat chunksize.toNat).map fun plan => .ok
          { crc := crc
            hash := 6
            index := 0
            chunknum := plan.1
            chunksize := plan.2
            totalsize := totalsize
            filepath := some file
            buffin := []
            type := chunktypeFile }

/-! ### The requests -/

/-- `mtk_filchunk_copy` and `mtk_buffchunk_copy` under `mtk_chunkdata_copy`: up to `size`
bytes of what the plan is about, from `start` on. -/
def mtkChunkdataCopy (ci : MtkChunkinfo) (start size : Nat) : Except ErrType (List UInt8) :=
  if ci.type = chunktypeFile then
    match ci.filepath with
    | none => .error .etFileOpen
    | some file => .ok ((file.drop start).take size)
  else if ci.type = chunktypeBuff then .ok ((ci.buffin.drop start).take size)
  else .error .etFail

/-- A PUT request: the fields it announces and the bytes it carries, which are `dlen` from
`start` on. -/
structure PutRequest where
  chunknum : UInt16
  index : UInt16
  totalsize : UInt32
  crc : UInt16
  hash : UInt16
  start : Nat
  dlen : Nat
  data : List UInt8

/-- `start` of `chunksend_request`. -/
def MtkChunkinfo.start (ci : MtkChunkinfo) : UInt32 :=
  if ci.index = 0 then 0 else ci.index.toUInt32 * ci.chunksize.toUInt32

/-- `dlen` of `chunksend_request`. -/
def MtkChunkinfo.dlen (ci : MtkChunkinfo) : Int :=
  if (ci.index.toNat : Int) = ci.chunknum.toNat - 1 then toInt32 (ci.totalsize - ci.start).toNat
  else ci.chunksize.toNat

/-- `chunksend_request`. -/
def chunksendRequest (ci : MtkChunkinfo) : Option (Except ErrType PutRequest) :=
  if ci.dlen < 0 then none
  else
    match mtkChunkdataCopy ci ci.start.toNat ci.dlen.toNat with
    | .error e => some (.error e)
    | .ok data => some (.ok
        { chunknum := ci.chunknum
          index := ci.index
          totalsize := ci.totalsize
          crc := ci.crc
          hash := ci.hash
          start := ci.start.toNat
          dlen := ci.dlen.toNat
          data := data })

/-- `MTK_REQ_HEADER_LENGTH`, the checksum at the end included. -/
def reqHeaderLength : Nat := 13

/-- `header_length` of a PUT request. -/
def putHeaderLength : Nat := 12

/-- `mtk_pkg_request_header` around the data, which it says is `dlen` bytes. -/
def pkgRequestHeader (method : UInt8) (dlen : Nat) (label : UInt8) (token data : List UInt8) :
    List UInt8 :=
  let msg := method :: pushHtons (UInt16.ofNat dlen) ++ label :: token ++ data
  msg ++ [msg.foldl (· + ·) 0]

/-- The message of a PUT request, `MTK_METHOD_PUT` and `MTK_LBL_FILE`. -/
def PutRequest.payload (r : PutRequest) (token : List UInt8) : List UInt8 :=
  pkgRequestHeader 0 (putHeaderLength + r.dlen) 0 token
    (pushHtons r.chunknum ++ pushHtons r.index ++ pushHtonl r.totalsize ++ pushHtons r.crc ++
      pushHtons r.hash ++ r.data)

end Awoke.Mtk
