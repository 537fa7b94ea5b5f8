/-
What the device answers to an xfer request, `xfer_read` in `proto-xfer.c`.

A response is put together in a chunk by the handler of the request's address, which packs the data
from byte eight on, and by `xfer_pack_header`, which writes the head before and the tail behind
them.  The accesses to the chunk are run on it and kept beside it.

Memory goes on behind what the code allocated, and behind the variables of its functions: a request
comes with what lies `outside`, behind the parameter that it asks for, and with the `junk` that an
uninitialised `ret` holds.  How many bytes are copied from a parameter is kept beside how many it
has.
-/
import Awoke.Cmder.Xfer
import Awoke.Util.Buffer
import Awoke.Util.Package
import Awoke.Lib.CellOps

namespace Awoke.Cmder

/-- `XFER_CMD_RD`. -/
def xferCmdRD : Nat := 1

/-- `XFER_SPACE_MCU`. -/
def xferSpaceMCU : Nat := 0

/-! ### The head of a request -/

/-- `head->cmd`. -/
def headCmd (head : Cells UInt8) : Nat := xferCmd (head 1)

/-- `head->space`, the four high bits of its byte. -/
def headSpace (head : Cells UInt8) : Nat := (head 1).toNat / 16

/-- `head->len`. -/
def headLen (head : Cells UInt8) : Nat := (head 2).toNat + 256 * (head 3).toNat

/-- `head->addr`. -/
def headAddr (head : Cells UInt8) : UInt32 := pullDwrd head 4

/-! ### Packing -/

/-- The response chunk, with the accesses that made it, and for every copy how many bytes it took
and how many were there. -/
structure XferRsp where
  chunk : Buffchunk
  log : List (Cells.Op UInt8)
  copied : List (Nat × Nat) := []

/-- Access the chunk, and set its length. -/
def XferRsp.access (rsp : XferRsp) (ops : List (Cells.Op UInt8)) (length : Int) : XferRsp :=
  { rsp with
    chunk := { rsp.chunk with p := Cells.exec rsp.chunk.p ops, length := length }
    log := rsp.log ++ ops }

/-- A parameter of `size` bytes, and what lies behind it. -/
structure XferSource where
  cells : Cells UInt8
  size : Nat

/-- The head of a response: that of the request, with a length for data only. -/
def rspHead (head : Cells UInt8) (code : UInt8) : Cells UInt8 :=
  if headCmd head ≠ xferCmdRD then Cells.write head 2 [0, 0]
  else if code ≠ 0 then Cells.write head 2 [0, 0]
  else head

/-- `xfer_pack_header`. -/
def xferPackHeader (rsp : XferRsp) (head : Cells UInt8) (code : UInt8) : XferRsp :=
  rsp.access
    [.write 0 (Cells.slice (rspHead head code) 0 8),
     .write (8 + rsp.chunk.length) [code],
     .write (8 + rsp.chunk.length + 1) [xferPosfix]]
    (rsp.chunk.length + (8 + 2))

/-- `xfer_pack_data`, from `len` bytes at `buf`. -/
def xferPackData (rsp : XferRsp) (head : Cells UInt8) (buf : XferSource) (len : Int)
    (pad : UInt8) : XferRsp :=
  if headCmd head = xferCmdRD then
    let datalen : Int := if headLen head ≤ len then headLen head else len
    let padding : Int := if len < headLen head then headLen head - len else 0
    { rsp with copied := rsp.copied ++ [(datalen.toNat, buf.size)] }.access
      (.write 8 (Cells.slice buf.cells 0 datalen.toNat) ::
        if padding = 0 then [] else [.fill (8 + datalen) padding pad])
      (datalen + padding)
  else rsp.access [] 0

/-! ### The handlers -/

/-- `struct uartcmder`, the fields the handlers use, with `buffchunk_id`'s counter. -/
structure XferCtx where
  lqSingleTest : UInt32
  lqStream : Option Buffchunk
  ids : UInt16

/-- What a setter does with the payload, and with the length of the head. -/
abbrev XferSet := XferCtx → Cells UInt8 → Nat → XferCtx × ErrType

/-- What a getter does for a head with a response, and with what lies outside its parameter. -/
abbrev XferGet := XferCtx → Cells UInt8 → XferRsp → Cells UInt8 → XferCtx × ErrType × XferRsp

/-- The bytes of a `uint32_t`. -/
def dwrdBytes (data : UInt32) : List UInt8 :=
  [data.toUInt8, (data >>> 8).toUInt8, (data >>> 16).toUInt8, (data >>> 24).toUInt8]

/-- The bytes of a parameter, and what lies outside. -/
def xferSource (bytes : List UInt8) (outside : Cells UInt8) : XferSource :=
  { cells := Cells.write outside 0 bytes, size := bytes.length }

/-- A getter that packs a variable `data`, and passes the length of the head for its own. -/
def xferDataGet (data : UInt32) : XferGet := fun ctx head rsp outside =>
  (ctx, .etOk, xferPackData rsp head (xferSource (dwrdBytes data) outside) (headLen head) 0)

/-- A setter that prints what it is given. -/
def xferPrintSet : XferSet := fun ctx _ _ => (ctx, .etOk)

/-- `xfer_bitwidth_get`. -/
def xferBitwidthGet : XferGet := xferDataGet 10

/-- `xfer_fps_set`. -/
def xferFpsSet : XferSet := xferPrintSet

/-- `xfer_fps_get`. -/
def xferFpsGet : XferGet := xferDataGet 100

/-- `xfer_fpsmin_set`. -/
def xferFpsminSet : XferSet := xferPrintSet

/-- `xfer_fpsmin_get`. -/
def xferFpsminGet : XferGet := xferDataGet 1

/-- `xfer_fpsmax_set`. -/
def xferFpsmaxSet : XferSet := xferPrintSet

/-- `xfer_fpsmax_get`. -/
def xferFpsmaxGet : XferGet := xferDataGet 1

/-- `xfer_trigger_set`. -/
def xferTriggerSet : XferSet := xferPrintSet

/-- `xfer_trigger_get`. -/
def xferTriggerGet : XferGet := xferDataGet 0

/-- `xfer_invs_en_set`. -/
def xferInvsEnSet : XferSet := xferPrintSet

/-- `xfer_invs_en_get`. -/
def xferInvsEnGet : XferGet := xferDataGet 0

/-- `xfer_config_save`. -/
def xferConfigSave : XferSet := xferPrintSet

/-- `xfer_config_restore`. -/
def xferConfigRestore : XferSet := xferPrintSet

/-- `xfer_lqit_set`; four bytes are read whatever the length. -/
def xferLqitSet : XferSet := fun ctx data _ => ({ ctx with lqSingleTest := pullDwrd data 0 }, .etOk)

/-- `xfer_lqit_get`. -/
def xferLqitGet : XferGet := fun ctx => xferDataGet ctx.lqSingleTest ctx

/-- `xfer_lqst_set`.  For no bytes there is no chunk, and `awoke_buffchunk_write` looks at the
length first. -/
def xferLqstSet : XferSet := fun ctx data length =>
  match ctx.lqStream with
  | some _ => (ctx, .etOk)
  | none =>
      match Buffchunk.create ctx.ids length with
      | (none, ids) => ({ ctx with lqStream := none, ids := ids }, .etOk)
      | (some chunk, ids) =>
          let chunk := (chunk.write (Cells.slice data 0 length) false).2
          ({ ctx with lqStream := some chunk, ids := ids }, .etOk)

/-- `xfer_lqst_get`: the stream goes out once, from its block of `size` bytes. -/
def xferLqstGet : XferGet := fun ctx head rsp outside =>
  match ctx.lqStream with
  | none => (ctx, .errNotfind, rsp)
  | some chunk =>
      let block := xferSource (Cells.slice chunk.p 0 chunk.size.toNat) outside
      ({ ctx with lqStream := none }, .etOk, xferPackData rsp head block (headLen head) 0)

/-! ### The table -/

/-- `XFER_ADDR_BITWIDTH`. -/
def xferAddrBitwidth : UInt32 := 0x00001000

/-- `XFER_ADDR_FPS`. -/
def xferAddrFps : UInt32 := 0x00001010

/-- `XFER_ADDR_FPS_MIN`. -/
def xferAddrFpsMin : UInt32 := 0x00001014

/-- `XFER_ADDR_FPS_MAX`. -/
def xferAddrFpsMax : UInt32 := 0x00001018

/-- `XFER_ADDR_TRIGGER`. -/
def xferAddrTrigger : UInt32 := 0x00001030

/-- `XFER_ADDR_INVS_EN`. -/
def xferAddrInvsEn : UInt32 := 0x00001040

/-- `XFER_ADDR_CONFIG_SAVE`. -/
def xferAddrConfigSave : UInt32 := 0x00002000

/-- `XFER_ADDR_CONFIG_RESTORE`. -/
def xferAddrConfigRestore : UInt32 := 0x00002004

/-- `XFER_ADDR_LQIT`. -/
def xferAddrLqit : UInt32 := 0x02000000

/-- `XFER_ADDR_LQST`. -/
def xferAddrLqst : UInt32 := 0x02000020

/-- `struct xfer_mcu_req`; a handler may be the null pointer. -/
structure XferMcuReq where
  address : UInt32
  set : Option XferSet
  get : Option XferGet

/-- `xfer_mcu_reqtab`. -/
def xferMcuReqtab : List XferMcuReq :=
  [⟨xferAddrBitwidth, none, some xferBitwidthGet⟩,
   ⟨xferAddrFps, some xferFpsSet, some xferFpsGet⟩,
   ⟨xferAddrFpsMin, some xferFpsminSet, some xferFpsminGet⟩,
   ⟨xferAddrFpsMax, some xferFpsmaxSet, some xferFpsmaxGet⟩,
   ⟨xferAddrTrigger, some xferTriggerSet, some xferTriggerGet⟩,
   ⟨xferAddrInvsEn, some xferInvsEnSet, some xferInvsEnGet⟩,
   ⟨xferAddrConfigSave, some xferConfigSave, none⟩,
   ⟨xferAddrConfigRestore, some xferConfigRestore, none⟩,
   ⟨xferAddrLqit, some xferLqitSet, some xferLqitGet⟩,
   ⟨xferAddrLqst, some xferLqstSet, some xferLqstGet⟩]

/-! ### Reading a request -/

/-- A request as it comes to `xfer_read`: a buffer that `xfer_match` accepts. -/
structure XferRequest where
  head : Cells UInt8
  len : Int
  accepted : (xferMatch head len 0).1 = .etOk
  junk : UInt32
  outside : Cells UInt8

/-- What a request leads to before the response is closed: `ret`, and what the handler returned,
if one was called. -/
structure XferResult where
  ctx : XferCtx
  rsp : XferRsp
  ret : UInt32
  ran : Option ErrType

/-- A code in the variable `ret`. -/
def retOf (e : ErrType) : UInt32 := UInt32.ofNat e.value

/-- `xfer_mcu_params_process`; `none` where a null handler is called. -/
def xferMcuParamsProcess (ctx : XferCtx) (r : XferRequest) (rsp : XferRsp) : Option XferResult :=
  match xferMcuReqtab.find? (fun p => p.address == headAddr r.head) with
  | none => some { ctx := ctx, rsp := rsp, ret := retOf .errNotfind, ran := none }
  | some p =>
      if headCmd r.head = xferCmdWR then
        p.set.map fun set =>
          let out := set ctx (fun i => r.head (8 + i)) (headLen r.head)
          { ctx := out.1, rsp := rsp, ret := retOf out.2, ran := some out.2 }
      else if headCmd r.head = xferCmdRD then
        p.get.map fun get =>
          let out := get ctx r.head rsp r.outside
          { ctx := out.1, rsp := out.2.2, ret := retOf out.2.1, ran := some out.2.1 }
      else some { ctx := ctx, rsp := rsp, ret := retOf .errNotsupport, ran := none }

/-- `XFER_ADDR_RANGE_BOOTINFO`. -/
def xferAddrRangeBootinfo : UInt8 := 1

/-- `xfer_mcu_range`. -/
def xferMcuRange (addr : UInt32) : UInt8 :=
  if 0x00020000 ≤ addr then 3 else if 0x00001000 ≤ addr then 2 else xferAddrRangeBootinfo

/-- `xfer_mcu_process`; its own `ret` stays unset for the boot information. -/
def xferMcuProcess (ctx : XferCtx) (r : XferRequest) (rsp : XferRsp) : Option XferResult :=
  if xferMcuRange (headAddr r.head) = xferAddrRangeBootinfo then
    some { ctx := ctx, rsp := rsp, ret := r.junk, ran := none }
  else xferMcuParamsProcess ctx r rsp

/-- The `switch` of `xfer_read`; only the space of the MCU sets `ret`. -/
def xferSpace (ctx : XferCtx) (r : XferRequest) (rsp : XferRsp) : Option XferResult :=
  if headSpace r.head = xferSpaceMCU then xferMcuProcess ctx r rsp
  else some { ctx := ctx, rsp := rsp, ret := r.junk, ran := none }

/-- The protocol's private chunk, made at the first request, and the device's context. -/
structure XferState where
  response : Option Buffchunk
  ctx : XferCtx

/-- What comes of a request: the bytes that were sent, what the handler returned, if one was
called, the size of the response chunk with the accesses to it, and what was copied. -/
structure XferAnswer where
  sent : Option (List UInt8)
  ran : Option ErrType
  room : Int
  log : List (Cells.Op UInt8)
  copied : List (Nat × Nat)

/-- `priv->response`, made when the protocol is not initialised. -/
def xferInit (s : XferState) : Option Buffchunk × UInt16 :=
  match s.response with
  | some chunk => (some chunk, s.ctx.ids)
  | none => Buffchunk.create s.ctx.ids 512

/-- The data asked for do not go into the chunk. -/
def xferRealloc (r : XferRequest) (chunk : Buffchunk) : Prop :=
  headCmd r.head = xferCmdRD ∧ chunk.size < headLen r.head

instance (r : XferRequest) (chunk : Buffchunk) : Decidable (xferRealloc r chunk) :=
  inferInstanceAs (Decidable (_ ∧ _))

/-- `rsp`, the private chunk or one of its own for this request. -/
def xferSelect (r : XferRequest) (chunk : Buffchunk) (ids : UInt16) : Option Buffchunk × UInt16 :=
  if xferRealloc r chunk then Buffchunk.create ids (8 + 2 + headLen r.head) else (some chunk, ids)

/-- The rest of `xfer_read`, from the code on. -/
def xferReply (r : XferRequest) (response : Buffchunk) (room : Int) (m : XferResult) :
    XferState × XferAnswer :=
  let code : UInt8 := if m.ret ≠ 0 then m.ret.toUInt8 else 0
  let rsp := xferPackHeader m.rsp r.head code
  let left := if rsp.chunk.length ≠ 0 then rsp.chunk.clear else rsp.chunk
  let bytes := Cells.slice rsp.chunk.p 0 rsp.chunk.length.toNat
  ({ response := some (if xferRealloc r response then response else left), ctx := m.ctx },
    { sent := if rsp.chunk.length ≠ 0 then some bytes else none
      ran := m.ran
      room := room
      log := rsp.log
      copied := rsp.copied })

/-- `xfer_read`; `none` where a null pointer is followed. -/
def xferRead (s : XferState) (r : XferRequest) : Option (XferState × XferAnswer) :=
  match xferInit s with
  | (none, _) => none
  | (some response, ids) =>
      match xferSelect r response ids with
      | (none, _) => none
      | (some chunk, ids) =>
          (xferSpace { s.ctx with ids := ids } r { chunk := chunk, log := [] }).map
            (xferReply r response chunk.size)

end Awoke.Cmder
