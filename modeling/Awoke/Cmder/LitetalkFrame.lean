/-
Litetalk frames, `proto-litetalk.c`.

A frame is a header of ten bytes, the mark, a category, a flag and the length of the content high
byte first, and the content.  `litetalk_match` and `litetalk_scan` find frames in a buffer,
`litetalk_read` takes one apart and hands it to the callback, and the builders put frames together
for the way back.

What a function looks at in the buffer is listed beside it, so that it can be held against the
end of the buffer or of the frame.
-/
import Awoke.Lib.CellOps
import Awoke.Lib.Search
import Awoke.Cmder.Litetalk
import Awoke.Cmder.RxPoll
import Awoke.Cmder.Stream

namespace Awoke.Cmder

/-! ### Framing -/

/-- `marker == LITETALK_MARK`, for the four bytes from `pos`. -/
def MarkAt (buf : Cells UInt8) (pos : Int) : Prop := htonl (pullDwrd buf pos) = litetalkMark

instance (buf : Cells UInt8) : DecidablePred (MarkAt buf) := fun _ =>
  inferInstanceAs (Decidable (_ = _))

/-- `litetalk_match`: the code and what `*rlen` holds after.  The length of the frame is added up
as a `uint32_t`; the comparisons with it come when `len` is not negative. -/
def litetalkMatch (buf : Cells UInt8) (len rlen : Int) : ErrType × Int :=
  if len < 4 then (.errUnfinished, rlen)
  else if ¬MarkAt buf 0 then (.errMatch, rlen)
  else if len < litetalkHeaderlen then (.errUnfinished, rlen)
  else
    let length : UInt32 := htonl (pullDwrd buf 6) + 10
    if len = length.toNat then (.etOk, len)
    else if len < length.toNat then (.errUnfinished, rlen)
    else (.etOk, length.toNat)

/-- `litetalk_scan`: the `while` loop goes through all positions but the last. -/
def litetalkScan (buf : Cells UInt8) (len : Int) : ErrType × Int :=
  if len < 4 then (.errNotfind, 0)
  else
    match Search.first (MarkAt buf) 0 (len - 1).toNat with
    | some pos => (.etOk, pos)
    | none => (.etOk, len)

/-- What it reads: four bytes at every position it comes to. -/
def litetalkScanOps (buf : Cells UInt8) (len : Int) : List (Cells.Op UInt8) :=
  if len < 4 then []
  else (Search.seen (MarkAt buf) 0 (len - 1).toNat).map fun pos => .read pos 4

/-! ### Reading -/

/-- `LITETALK_CATEGORY_COMMAND` and its siblings. -/
def categoryCOMMAND : UInt8 := 0
def categorySTREAM : UInt8 := 1
def categoryLOG : UInt8 := 2

/-- `LITETALK_STREAM_ST_DOWNLOAD`. -/
def streamStDOWNLOAD : UInt8 := 0x01

/-- `LITETALK_STREAM_ST_ACK`. -/
def streamStACK : UInt8 := 0x02

/-- `LITETALK_STREAM_HEADERLEN`. -/
def litetalkStreamHeaderlen : UInt32 := 9

/-- `struct litetalk_cmdinfo`, the fields the commands use. -/
structure LitetalkCmdinfo where
  cmdtype : UInt8
  flag : UInt8

/-- What the callback is called with.  The payload of a command is given by where it begins and
how long it is said to be. -/
inductive LitetalkCall
  | protocolInit
  | command (cinfo : LitetalkCmdinfo) (pos : Int) (length : UInt32)
  | streamDownload (a : Arrival)

/-- The fields of a header, as `litetalk_read` pulls them. -/
structure LitetalkHeader where
  category : UInt8
  flag : UInt8
  contentLength : UInt32
  deriving DecidableEq

/-- The header in front of a frame. -/
def readHeader (buf : Cells UInt8) : LitetalkHeader :=
  { category := buf 4
    flag := buf 5
    contentLength := htonl (pullDwrd buf 6) }

/-- `litetalk_stream_download`, from `pos` on.  `recvbytes` is never set: `junk` is what it
holds. -/
def litetalkStreamDownload (buf : Cells UInt8) (pos : Int) (length junk : UInt32) : Arrival :=
  let sinfo : Streaminfo :=
    { media := buf pos
      totalsize := htonl (pullDwrd buf (pos + 1))
      id := buf (pos + 5)
      index := htons (pullWord buf (pos + 6))
      length := (length - litetalkStreamHeaderlen).toUInt16
      recvbytes := junk }
  { info := sinfo
    payload := Cells.slice buf (pos + 8) sinfo.length.toNat
    fits := Cells.slice_length _ _ _ }

/-- `litetalk_stream_read`.  An acknowledgement is passed over. -/
def litetalkStreamRead (buf : Cells UInt8) (pos : Int) (length junk : UInt32) :
    List LitetalkCall :=
  if buf pos = streamStDOWNLOAD then
    [.streamDownload (litetalkStreamDownload buf (pos + 1) length junk)]
  else []

/-- `litetalk_command_read`. -/
def litetalkCommandRead (buf : Cells UInt8) (pos : Int) (length : UInt32) : LitetalkCall :=
  .command { cmdtype := buf pos, flag := buf (pos + 1) } (pos + 2) (length - 2)

/-- `litetalk_read`, with what the callback is called with. -/
def litetalkRead (initialized : Bool) (buf : Cells UInt8) (junk : UInt32) :
    ErrType × List LitetalkCall :=
  let init := if initialized then [] else [.protocolInit]
  let head := readHeader buf
  if head.category = categoryCOMMAND then
    (.etOk, init ++ [litetalkCommandRead buf 10 head.contentLength])
  else if head.category = categorySTREAM then
    (.etOk, init ++ litetalkStreamRead buf 10 head.contentLength junk)
  else (.errParam, init)

/-- `litetalk_protocol`, whatever the callback does with a message.  The code that `litetalk_read`
returns does not depend on it, and not on what `recvbytes` holds. -/
def litetalkProtocol {σ : Type} (read : σ → Cells UInt8 → Int → σ) : Protocol σ where
  match_ env buf len rlen := ((litetalkMatch buf len rlen).1, (litetalkMatch buf len rlen).2, env)
  scan env buf len _ := ((litetalkScan buf len).1, (litetalkScan buf len).2, env)
  read env buf len := some ((litetalkRead true buf 0).1, read env buf len)

/-- What is read of the header of a frame. -/
def headerOps : List (Cells.Op UInt8) := [.read 4 1, .read 5 1, .read 6 4]

/-- What is read of a stream frame behind it: the subtype, and of a download the stream header and
the payload, which the callback copies. -/
def streamOps (buf : Cells UInt8) (junk : UInt32) : List (Cells.Op UInt8) :=
  .read 10 1 ::
    if buf 10 = streamStDOWNLOAD then
      [.read 11 1, .read 12 4, .read 16 1, .read 17 2,
        .read 19 (litetalkStreamDownload buf 11 (readHeader buf).contentLength junk).payload.length]
    else []

/-! ### Building -/

/-- `litetalk_build_cmderr`. -/
def litetalkBuildCmderr (info : LitetalkCmdinfo) (code : UInt8) : List UInt8 :=
  packHeader categoryCOMMAND 7 ++ [info.cmdtype, code, info.flag] ++ [0, 0, 0, 0]

/-- `litetalk_build_log`; the time is always zero. -/
def litetalkBuildLog (level : UInt8) (src : UInt32) (context : List UInt8) : List UInt8 :=
  let content := pushHtonl 0 ++ [level] ++ pushHtonl src ++ context
  packHeader categoryLOG (UInt32.ofNat content.length) ++ content

end Awoke.Cmder
