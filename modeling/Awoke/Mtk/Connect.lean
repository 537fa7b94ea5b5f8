/-
A connection of a micro-talk context, in `micro_talk.c`.

Here is what the two channels share and what concerns nothing but the connection itself:
the receive timeout, the ring of messages to be written, and the interest of the event
loop.  `μ` is what a channel puts into its ring.

An access through a pointer that is null has no result.  The event loop asks for
reading as long as the connection is registered, and for writing when `evWrite` is set.
-/
import Awoke.Util.Queue

namespace Awoke.Mtk

/-- `struct _mtk_recv_wait`. -/
structure MtkRecvWait where
  maxcnt : UInt64
  waitUs : UInt64
  timeoutUs : UInt64
  timeoutCnt : UInt64
  deriving DecidableEq

/-- A `mtk_recv_wait` of zeros. -/
def MtkRecvWait.zero : MtkRecvWait :=
  { maxcnt := 0, waitUs := 0, timeoutUs := 0, timeoutCnt := 0 }

/-- `struct _mtk_connect`; `hasContext` says that `context` is set, and `evWrite` that
`EVENT_WRITE` is in the mask of its event. -/
structure MtkConnect (μ : Type) where
  msgindex : UInt8
  ring : Option (Queue μ)
  rwait : MtkRecvWait
  hasContext : Bool
  kaTimeoutUs : UInt64
  fRwaitTimeout : Bool
  fKeepalive : Bool
  fConnected : Bool
  evWrite : Bool

/-- `struct _mtk_client_connect_info`, as far as the two clients differ in it. -/
structure MtkClientConnectInfo where
  kaTimeoutUs : UInt64
  recvTimoutUs : UInt64
  recvTimoutMaxcnt : UInt64

namespace MtkConnect

variable {μ : Type}

/-- A connection of a context that was just created. -/
def init : MtkConnect μ :=
  { msgindex := 0
    ring := none
    rwait := .zero
    hasContext := false
    kaTimeoutUs := 0
    fRwaitTimeout := false
    fKeepalive := false
    fConnected := false
    evWrite := false }

/-! ### The receive timeout -/

/-- `mtk_connect_rwait_init`. -/
def rwaitInit (c : MtkConnect μ) (i : MtkClientConnectInfo) : MtkConnect μ :=
  if i.recvTimoutUs = 0 then c
  else
    { c with
      fRwaitTimeout := true
      rwait :=
        { maxcnt := i.recvTimoutMaxcnt
          waitUs := 0
          timeoutUs := i.recvTimoutUs
          timeoutCnt := 0 } }

/-- `mtk_connect_rwait_update`, at the time `now`. -/
def rwaitUpdate (c : MtkConnect μ) (now : UInt64) : MtkConnect μ :=
  if c.fRwaitTimeout = true ∧ c.rwait.timeoutUs ≠ 0 then
    { c with rwait := { c.rwait with waitUs := now + c.rwait.timeoutUs } }
  else c

/-- `mtk_connect_rwait_clean`. -/
def rwaitClean (c : MtkConnect μ) : MtkConnect μ :=
  if c.fRwaitTimeout then { c with fRwaitTimeout := false, rwait := .zero } else c

/-- What `mtk_service_connect` does to the receive timeout after a read that went well. -/
def rwaitRestart (c : MtkConnect μ) : MtkConnect μ :=
  if c.fRwaitTimeout then { c with rwait := { c.rwait with waitUs := 0, timeoutCnt := 0 } }
  else c

/-- The receive timeout is over, as `mtk_service_adjust_timeout` finds it at `us`. -/
def rwaitOver (c : MtkConnect μ) (us : UInt64) : Bool :=
  c.fConnected && c.fRwaitTimeout && decide (0 < c.rwait.waitUs) && decide (c.rwait.waitUs ≤ us)

/-- `c->rwait.timeout_cnt++`. -/
def rwaitCount (c : MtkConnect μ) : MtkConnect μ :=
  { c with rwait := { c.rwait with timeoutCnt := c.rwait.timeoutCnt + 1 } }

/-! ### Writing -/

/-- `mtk_callback_on_writable`. -/
def onWritable (c : MtkConnect μ) : MtkConnect μ := { c with evWrite := true }

/-- `mtk_connect_write`; `sent` says whether `send` went well. -/
def write (c : MtkConnect μ) (sent : Bool) (now : UInt64) : ErrType × MtkConnect μ :=
  if sent then (.etOk, if c.fRwaitTimeout then c.rwaitUpdate now else c) else (.etSockSend, c)

variable [Zero μ]

/-- The ring of a connection, as both clients create it. -/
def newRing : Queue μ := Queue.create 8 Queue.flagRB

/-- Put a message into the ring. -/
def push (c : MtkConnect μ) (msg : μ) : Option (MtkConnect μ) :=
  c.ring.map fun ring => { c with ring := some (ring.enq msg).2 }

/-- The case `MTK_CALLBACL_CONNECTION_WRITABLE` of both clients: its code, the message
that was written, and the connection after. -/
def writable (c : MtkConnect μ) (sent : Bool) (now : UInt64) :
    Option (ErrType × Option μ × MtkConnect μ) :=
  c.ring.bind fun ring =>
    if ring.empty then some (.etOk, none, c)
    else
      let (_, msg, ring) := ring.deq
      let (ret, c) := { c with ring := some ring }.write sent now
      if ret = .etOk then
        some (.etOk, some msg, if ring.empty then c else c.onWritable)
      else some (ret, none, { c with ring := some (ring.enq msg).2 }.onWritable)

/-- `mtk_handle_write_event`; `handle_write` of both protocols is `light_link_write`, which
does nothing. -/
def handleWriteEvent (c : MtkConnect μ) (sent : Bool) (now : UInt64) :
    Option (ErrType × Option μ × MtkConnect μ) :=
  { c with evWrite := false }.writable sent now

/-! ### Connecting and releasing -/

/-- `mtk_client_connect_via_info` up to the call of `connect`, the callback
`MTK_CALLBACK_PROTOCOL_INIT` included. -/
def prepare (c : MtkConnect μ) (i : MtkClientConnectInfo) : MtkConnect μ :=
  let c := { c with kaTimeoutUs := i.kaTimeoutUs }
  let c := if i.kaTimeoutUs = 0 then c else { c with fKeepalive := true }
  { c.rwaitInit i with ring := some newRing }

/-- What `mtk_client_connect_via_info` does about the event and the context of a
connection that was made. -/
def register (c : MtkConnect μ) : MtkConnect μ :=
  { c with evWrite := false, hasContext := true }

/-- The connection is made, which `mtk_client_connect_via_info` says at its end. -/
def connected (c : MtkConnect μ) : MtkConnect μ := { c with fConnected := true }

/-- What `mtk_connect_release` does to the connection itself. -/
def release (c : MtkConnect μ) : MtkConnect μ :=
  { { c with fConnected := false, fKeepalive := false }.rwaitClean with
    evWrite := false
    ring := none }

end MtkConnect

end Awoke.Mtk
