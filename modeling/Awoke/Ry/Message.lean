/-
The messages of `ry.c`: how they are packed, and how they are unpacked.

The queue keeps its data units in an array from the oldest to the newest; `curr` is the number of
the newest one.  All numbers go over the wire high byte first.  The message lies in memory that is
indexed by the offset in `original_buf`.
-/
import Awoke.Error
import Awoke.Lib.Pieces
import Awoke.Util.Package

namespace Awoke.Ry

open Cells (Pen)

/-- `RY_QUEUE_SIZE`. -/
def queueSize : Int := 15

/-- `RY_PKT_SIZE`. -/
def pktSize : Int := 1024

/-- `RY_DU_OFFSET`. -/
def duOffset : Int := 26

/-- `RY_ORDER_RP_MONITOR`. -/
def orderRpMONITOR : UInt8 := 0x0

/-- `RY_ORDER_RP_PRESSHIG`. -/
def orderRpPRESSHIG : UInt8 := 0x6

/-- `struct tm`, the fields that go into a message. -/
@[ext] structure Tm where
  tmSec : Int
  tmMin : Int
  tmHour : Int
  tmMday : Int
  tmMon : Int
  tmYear : Int
deriving DecidableEq

/-- `ry_dataunit`. -/
@[ext] structure RyDataunit where
  battLevel : UInt16
  rssi : UInt16
  rssiPercent : Int16
  snr : Int16
  battPercent : UInt8
  ecl : UInt8
  pressure : UInt16
  sysState : UInt8
  occurTime : Tm
deriving DecidableEq

/-- `ry_queue`. -/
structure RyQueue where
  curr : Int
  queue : Cells RyDataunit
  lower : -1 ≤ curr
  upper : curr < queueSize

namespace RyQueue

variable (q : RyQueue)

/-- `ry_queue_size`. -/
def size : Int := q.curr + 1

/-- The units `ry_queue_foreach` goes through, in its order. -/
def foreach : List RyDataunit :=
  (List.range (q.curr + 1).toNat).reverse.map fun k : Nat => q.queue k

end RyQueue

/-- `ry_msg_dtunit`. -/
@[ext] structure RyMsgDtunit where
  orderType : UInt8
  typeFlag : UInt16
  componentCode : UInt16
deriving DecidableEq

/-- `ry_msg_header`. -/
@[ext] structure RyMsgHeader where
  hdrPrefix : UInt16
  hdrPostfix : UInt16
  version : UInt16
  date : Tm
  manufacturer : UInt16
  imei : Vector UInt8 8
  devType : UInt16
  command : UInt8
  fAck : UInt8
  checksum : UInt8
deriving DecidableEq

/-- `ry_message`. -/
structure RyMessage where
  header : RyMsgHeader
  dtunit : RyMsgDtunit
  dtunitLen : Int
  originalLen : Int
  originalBuf : Cells UInt8

/-- `ry_msg_create`, with the date that `ry_datetime_get` finds. -/
def ryMsgCreate (orderType : UInt8) (date : Tm) : RyMessage :=
  { header :=
      { hdrPrefix := 0x4040
        hdrPostfix := 0x2323
        version := 0x0102
        date := date
        manufacturer := 0x1234
        imei := #v[0x25, 0x13, 0x56, 0x22, 0x33, 0x24, 0x65, 0x38]
        devType := 0x2222
        command := 0x0
        fAck := 0x0
        checksum := 0 }
    dtunit := { orderType := orderType, typeFlag := 0x3005, componentCode := 0x0000 }
    dtunitLen := 0
    originalLen := 0
    originalBuf := fun _ => 0 }

/-! ### Packing -/

/-- `_pkg_push_bytes_safe`: what does not fit is left out, and the place is moved all the same. -/
def pushSafe (stop : Int) (p : Pen UInt8) (bytes : List UInt8) : Pen UInt8 :=
  if bytes.length ≤ stop - p.pos then p.put bytes else p.skip bytes.length

/-- The six bytes of a date, each pushed by itself. -/
def datePieces (date : Tm) : List (List UInt8) :=
  [[UInt8.ofInt date.tmSec], [UInt8.ofInt date.tmMin], [UInt8.ofInt date.tmHour],
    [UInt8.ofInt date.tmMday], [UInt8.ofInt date.tmMon], [UInt8.ofInt date.tmYear]]

/-- What one turn of the loop of `ry_msg_du_monitor_package` pushes, in its order. -/
def unitPieces (h : RyMsgHeader) (du : RyMsgDtunit) (m : RyDataunit) : List (List UInt8) :=
  [pushHtons du.typeFlag, pushHtons du.componentCode, pushHtons m.battLevel,
    pushHtons m.rssiPercent.toUInt16, pushHtons m.rssi, pushHtons m.snr.toUInt16, [m.ecl],
    [m.battPercent], pushHtons m.pressure, [m.sysState]] ++ datePieces h.date

/-- `ry_msg_du_monitor_package`; `*ppos` is not moved. -/
def ryMsgDuMonitorPackage (q : RyQueue) (msg : RyMessage) (head stop : Int) :
    ErrType × RyMessage :=
  let p := q.foreach.foldl
    (fun p m => (unitPieces msg.header msg.dtunit m).foldl (pushSafe stop) p)
    ⟨msg.originalBuf, head⟩
  (.etOk, { msg with originalBuf := p.mem, dtunitLen := p.pos - head + 1 })

/-- `ry_msg_dtunit_package`; for an order type it does not know, `ret` is not set. -/
def ryMsgDtunitPackage (q : RyQueue) (msg : RyMessage) : Option (ErrType × RyMessage) :=
  let p := pushSafe (pktSize - 1) ⟨msg.originalBuf, duOffset⟩ [msg.dtunit.orderType]
  let msg := { msg with originalBuf := p.mem }
  if msg.dtunit.orderType = orderRpMONITOR then
    some (ryMsgDuMonitorPackage q msg p.pos (pktSize - 1))
  else if msg.dtunit.orderType ≤ orderRpPRESSHIG then some (.etOk, msg)
  else none

/-- What `ry_msg_header_package` pushes in front of the data units. -/
def headerPieces (h : RyMsgHeader) (dtunitLen : Int) : List (List UInt8) :=
  [pushHtons h.hdrPrefix, pushHtons h.version] ++ datePieces h.date ++
    [pushHtons h.manufacturer, h.imei.toList, pushHtons h.devType, [h.command], [h.fAck],
      pushHtons (UInt16.ofInt dtunitLen)]

/-- `ry_msg_header_package`. -/
def ryMsgHeaderPackage (msg : RyMessage) : ErrType × RyMessage :=
  let p : Pen UInt8 := ⟨msg.originalBuf, 0⟩
  let p := (headerPieces msg.header msg.dtunitLen).foldl (pushSafe 1024) p
  let p := p.skip msg.dtunitLen
  let h := { msg.header with checksum := 0x99 }
  let p := [[h.checksum], pushHtons h.hdrPostfix].foldl (pushSafe 1024) p
  (.etOk, { msg with header := h, originalBuf := p.mem, originalLen := p.pos })

/-- `ry_construst_msg`, from the message that `ry_msg_create` makes to the one that is built. -/
def ryConstrustMsg (q : RyQueue) (msg : RyMessage) : Option (ErrType × RyMessage) := do
  let (ret, msg) ← ryMsgDtunitPackage q msg
  if ret ≠ .etOk then return (ret, msg)
  return ryMsgHeaderPackage msg

/-! ### Unpacking -/

/-- The six bytes that are pulled for a date, as they are printed. -/
def pullDate (buf : Cells UInt8) (p : Int) : Tm :=
  { tmSec := (buf p).toNat
    tmMin := (buf (p + 1)).toNat
    tmHour := (buf (p + 2)).toNat
    tmMday := (buf (p + 3)).toNat
    tmMon := (buf (p + 4)).toNat
    tmYear := (buf (p + 5)).toNat }

/-- One turn of the loop of `du_unpack`: what `du` and `ddu` hold after. -/
def pullUnit (orderType : UInt8) (buf : Cells UInt8) (p : Int) : RyMsgDtunit × RyDataunit :=
  ({ orderType := orderType
     typeFlag := htons (pullWord buf p)
     componentCode := htons (pullWord buf (p + 2)) },
   { battLevel := htons (pullWord buf (p + 4))
     rssi := htons (pullWord buf (p + 6))
     rssiPercent := (htons (pullWord buf (p + 8))).toInt16
     snr := (htons (pullWord buf (p + 10))).toInt16
     ecl := buf (p + 12)
     battPercent := buf (p + 13)
     pressure := htons (pullWord buf (p + 14))
     sysState := buf (p + 16)
     occurTime := pullDate buf (p + 17) })

/-- The loop of `du_unpack`: what it pulls, and where `p` is after. -/
def pullUnits (orderType : UInt8) (buf : Cells UInt8) :
    Nat → Int → List (RyMsgDtunit × RyDataunit) × Int
  | 0, p => ([], p)
  | n + 1, p =>
      let rest := pullUnits orderType buf n (p + 23)
      (pullUnit orderType buf p :: rest.1, rest.2)

/-- `du_unpack`. -/
def duUnpack (dunr : Int) (buf : Cells UInt8) (p : Int) : List (RyMsgDtunit × RyDataunit) × Int :=
  pullUnits (buf p) buf dunr.toNat (p + 1)

/-- What `_ry_unpack` pulls into `h`, the last of it behind the data units at `p`. -/
def pullHeader (buff : Cells UInt8) (p : Int) : RyMsgHeader :=
  { hdrPrefix := htons (pullWord buff 0)
    version := htons (pullWord buff 2)
    date := pullDate buff 4
    manufacturer := htons (pullWord buff 10)
    imei := Vector.ofFn fun i => buff (12 + (i : Nat))
    devType := htons (pullWord buff 20)
    command := buff 22
    fAck := buff 23
    checksum := buff p
    hdrPostfix := htons (pullWord buff (p + 1)) }

/-- What `_ry_unpack` reads, and where its `p` is at the end. -/
structure Unpacked where
  header : RyMsgHeader
  dataunitNr : Int
  units : List (RyMsgDtunit × RyDataunit)
  p : Int
deriving DecidableEq

/-- `_ry_unpack`; the quotient is rounded towards zero. -/
def ryUnpack (buff : Cells UInt8) : Unpacked :=
  let dataunitLen := htons (pullWord buff 24)
  let dataunitNr := ((dataunitLen.toNat : Int) - 1).tdiv 23
  let (units, p) := if dataunitLen ≠ 0 then duUnpack dataunitNr buff 26 else ([], 26)
  { header := pullHeader buff p, dataunitNr := dataunitNr, units := units, p := p + 3 }

end Awoke.Ry
