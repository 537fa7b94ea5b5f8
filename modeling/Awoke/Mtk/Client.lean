/-
The two clients of a micro-talk context and its service loop, `mtk_client.c` and
`micro_talk.c`.

A round of `mtk_service_run` runs at most one work, looks whether a receive timeout is
over, and serves the events of the two connections.  `phase` is one such part of a round;
a run is any sequence of them, with calls of the application in between, and the runs of
whole rounds are among these.  What the outside decides comes with the phase: the time,
how `connect`, `send` and `recv` go, and what is received.  The clock stands still within
a phase.

A login that redirects, and what `send` and `recv` transfer of a message beyond the
first byte, are left out.  The DATA connection has no receive timeout, as its
`recv_timout_us` is zero, so only the NOTICE connection is looked at for one.
-/
import Awoke.Mtk.Context

namespace Awoke.Mtk

/-- What `recv` gives on the NOTICE connection: an error; nothing, which is not told from
a byte; or bytes, of which the first counts, and which may fill the buffer. -/
inductive NcRecv
  | error
  | nothing
  | byte (data : UInt8)
  | filled (data : UInt8)

/-- What `short_link_read` gets on the DATA connection: an error or an end, which may leave
a byte at the front of the buffer, and the buffer full; or a whole response. -/
inductive DcRecv
  | error (left : Option UInt8) (full : Bool)
  | response (rsp : Cells UInt8) (merge : ErrType)

/-- What comes of a phase. -/
inductive Outcome
  | idle
  | scheduled (code : ErrType)
  | ran (cb : Handle) (code : ErrType)
  | timedOut
  | wrote (data : UInt8)
  | received (data : UInt8)
  | requested (msg : MtkRequestMsg)
  | responded
  | closed (code : ErrType)
  deriving DecidableEq

namespace MtkContext

/-! ### The NOTICE connection -/

/-- `nc_notice_index`. -/
def ncNoticeIndex (c : MtkConnect UInt8) : MtkConnect UInt8 :=
  { c with msgindex := c.msgindex % 255 + 1 }

/-- `nc_build_heartbeat`. -/
def ncBuildHeartbeat (c : MtkConnect UInt8) : Option (MtkConnect UInt8) := c.push c.msgindex

/-- `nc_keepalive`. -/
def ncKeepalive (ctx : MtkContext) : Option (ErrType × MtkContext) :=
  if ctx.nc.fConnected then
    (ncBuildHeartbeat ctx.nc).map fun c => (.etOk, ctx.setNc c.onWritable)
  else some (.etFail, ctx)

/-- `nc_keepalive` is scheduled once more, as every receipt that counts and a connection
that is established do; nobody looks at the code. -/
def keepaliveAgain (ctx : MtkContext) (now : UInt64) : Option MtkContext :=
  (ctx.schedule .ncKeepalive ctx.nc.kaTimeoutUs now).map fun r => r.2

/-- `nc_notice_recv`. -/
def ncNoticeRecv (ctx : MtkContext) (data : UInt8) (now : UInt64) :
    Option (ErrType × MtkContext) :=
  if data = 0 then
    ((ctx.setNc (ncNoticeIndex ctx.nc)).keepaliveAgain now).bind fun ctx =>
      ctx.mtkSessionAdd now
  else if data ≠ ctx.nc.msgindex then some (.etFail, ctx)
  else
    ((ctx.setNc (ncNoticeIndex ctx.nc)).keepaliveAgain now).map fun ctx => (.etOk, ctx)

/-- `nc_service_callback` on `MTK_CALLBACK_CONNECTION_CLOSED` and
`MTK_CALLBACK_CONNECTION_ERROR`. -/
def ncClosed (ctx : MtkContext) (now : UInt64) : Option MtkContext :=
  (mtkWorkDelete ctx.worksPq .ncKeepalive).bind fun pq =>
    ((ctx.setWorks pq).schedule .ncConnect (30 * usPerSec) now).map fun r => r.2

/-- `mtk_connect_release` of the NOTICE connection, which never has a session. -/
def ncRelease (ctx : MtkContext) (now : UInt64) : Option MtkContext :=
  if ctx.nc.hasContext then
    (ctx.ncClosed now).map fun ctx => ctx.setNc ctx.nc.release
  else none

/-- The information of `mtk_nc_connect`. -/
def ncInfo : MtkClientConnectInfo :=
  { kaTimeoutUs := 60 * usPerSec, recvTimoutUs := 10 * usPerSec, recvTimoutMaxcnt := 5 }

/-- `mtk_client_connect_via_info` on the NOTICE channel; `connect` is the code of the
connect, the login and the event together. -/
def ncConnectViaInfo (ctx : MtkContext) (connect : ErrType) (now : UInt64) :
    Option (ErrType × MtkContext) :=
  if ctx.nc.fConnected then some (.etOk, ctx)
  else
    let ctx := ctx.setNc (ctx.nc.prepare ncInfo)
    if connect = .etOk then
      ((ctx.setNc ctx.nc.register).keepaliveAgain now).map fun ctx =>
        (.etOk, ctx.setNc ctx.nc.connected)
    else (ctx.ncRelease now).map fun ctx => (connect, ctx)

/-- `mtk_nc_connect`. -/
def mtkNcConnect (ctx : MtkContext) (connect : ErrType) (now : UInt64) :
    Option (ErrType × MtkContext) :=
  (ctx.ncConnectViaInfo connect now).bind fun (ret, ctx) =>
    if ret = .etOk then some (.etOk, ctx)
    else
      (ctx.schedule .ncConnect (15 * usPerSec) now).map fun (ret, ctx) =>
        (if ret = .etOk then .etOk else .etExist, ctx)

/-- `light_link_read`, with the `mtk_handle_write_event` it starts with: the code, what was
done when that is `et_ok`, and the context after.  Out of a full buffer the first byte is
taken once more, and nothing is received. -/
def lightLinkRead (ctx : MtkContext) (sent : Bool) (recv : NcRecv) (now : UInt64) :
    Option (ErrType × Outcome × MtkContext) :=
  if ctx.nc.evWrite then
    (ctx.nc.handleWriteEvent sent now).map fun (ret, msg, c) =>
      (ret, msg.elim .idle .wrote, ctx.setNc c)
  else if ctx.rxFull then
    (ctx.ncNoticeRecv ctx.rxByte now).map fun (ret, ctx') => (ret, .received ctx.rxByte, ctx')
  else
    match recv with
    | .error => some (.etSockRecv, .idle, ctx)
    | .nothing =>
        (ctx.ncNoticeRecv ctx.rxByte now).map fun (ret, ctx') =>
          (ret, .received ctx.rxByte, ctx')
    | .byte data =>
        ((ctx.setRx data).ncNoticeRecv data now).map fun (ret, ctx') =>
          (ret, .received data, ctx')
    | .filled data =>
        ((ctx.withRx data true).ncNoticeRecv data now).map fun (ret, ctx') =>
          (ret, .received data, ctx')

/-- `mtk_service_connect` on the NOTICE connection, and its close on an error. -/
def ncService (ctx : MtkContext) (sent : Bool) (recv : NcRecv) (now : UInt64) :
    Option (Outcome × MtkContext) :=
  (ctx.lightLinkRead sent recv now).bind fun (ret, out, ctx) =>
    if ret = .etOk then some (out, (ctx.setNc ctx.nc.rwaitRestart).setRx 0)
    else (ctx.ncRelease now).map fun ctx => (.closed ret, ctx)

/-- `mtk_service_adjust_timeout`, with the case
`MTK_CALLBACK_CONNECTION_RECEIVE_TIMEOUT` of `nc_service_callback`. -/
def adjustTimeout (ctx : MtkContext) (us : UInt64) : Option (Outcome × MtkContext) :=
  if ctx.nc.rwaitOver us then
    let c := ctx.nc.rwaitCount
    if c.rwait.maxcnt ≤ c.rwait.timeoutCnt then
      ((ctx.setNc c).ncRelease us).map fun ctx => (.closed .etSockRecv, ctx)
    else
      (ncBuildHeartbeat c).map fun c => (.timedOut, ctx.setNc c.onWritable)
  else some (.idle, ctx)

/-! ### The DATA connection -/

/-- `mtk_connect_release` of the DATA connection; its callback on
`MTK_CALLBACK_CONNECTION_CLOSED` does nothing. -/
def dcRelease (ctx : MtkContext) : Option MtkContext :=
  if ctx.dc.hasContext then
    let ctx := ctx.setDc ctx.dc.release
    match ctx.session with
    | none => some ctx
    | some ss =>
        (ctx.sessions ss).map fun s => if s.state = .fin then ctx.freeSession ss else ctx
  else none

/-- The information of `mtk_dc_connect`. -/
def dcInfo : MtkClientConnectInfo :=
  { kaTimeoutUs := 0, recvTimoutUs := 0, recvTimoutMaxcnt := 0 }

/-- `dc_service_callback` on `MTK_CALLBACK_CONNECTION_ESTABLISHED`. -/
def dcEstablished (ctx : MtkContext) (built : ErrType) : Option MtkContext :=
  match ctx.session with
  | none => some ctx
  | some ss => (ctx.reqProcess ss built).map fun r => r.2

/-- `mtk_client_connect_via_info` on the DATA channel; `connect` is the code of the
connect and the event together. -/
def dcConnectViaInfo (ctx : MtkContext) (connect built : ErrType) :
    Option (ErrType × MtkContext) :=
  if ctx.dc.fConnected then some (.etOk, ctx)
  else
    let ctx := ctx.setDc (ctx.dc.prepare dcInfo)
    if connect = .etOk then
      ((ctx.setDc ctx.dc.register).dcEstablished built).map fun ctx =>
        (.etOk, ctx.setDc ctx.dc.connected)
    else ctx.dcRelease.map fun ctx => (connect, ctx)

/-- `mtk_dc_connect`. -/
def mtkDcConnect (ctx : MtkContext) (connect built : ErrType) :
    Option (ErrType × MtkContext) :=
  (ctx.dcConnectViaInfo connect built).map fun (ret, ctx) =>
    if ret = .etOk then (.etOk, ctx)
    else if mtkRetryWorkSchedule = .etOk then (.etOk, ctx)
    else (.etExist, ctx)

/-- `short_link_read`, with the `mtk_handle_write_event` it starts with.  With a full buffer
`recv` is asked for no bytes and gives none, as at the end. -/
def shortLinkRead (ctx : MtkContext) (sent : Bool) (recv : DcRecv) (now : UInt64) :
    Option (ErrType × Outcome × MtkContext) :=
  if ctx.dc.evWrite then
    (ctx.dc.handleWriteEvent sent now).map fun (ret, msg, c) =>
      (ret, msg.elim .idle .requested, ctx.setDc c)
  else if ctx.rxFull then some (.etSockRecv, .idle, ctx)
  else
    match recv with
    | .error left full => some (.etSockRecv, .idle, ctx.withRx (left.getD ctx.rxByte) full)
    | .response rsp merge =>
        -- dc_service_callback does not hand the code on
        (ctx.dcResponseRecv rsp merge now).bind fun (_, ctx) =>
          if ctx.dc.fKeepalive then some (.etOk, .responded, ctx)
          else ctx.dcRelease.map fun ctx => (.etOk, .responded, ctx)

/-- `mtk_service_connect` on the DATA connection, and its close on an error. -/
def dcService (ctx : MtkContext) (sent : Bool) (recv : DcRecv) (now : UInt64) :
    Option (Outcome × MtkContext) :=
  (ctx.shortLinkRead sent recv now).bind fun (ret, out, ctx) =>
    if ret = .etOk then some (out, (ctx.setDc ctx.dc.rwaitRestart).setRx 0)
    else ctx.dcRelease.map fun ctx => (.closed ret, ctx)

/-! ### The service loop -/

/-- The callback of a work is called. -/
def runWork (ctx : MtkContext) (connect built : ErrType) (now : UInt64) :
    Handle → Option (ErrType × MtkContext)
  | .ncConnect => ctx.mtkNcConnect connect now
  | .dcConnect => ctx.mtkDcConnect connect built
  | .ncKeepalive => ctx.ncKeepalive
  | .sessionStart ss => ctx.mtkSessionStart ss now

/-- `mtk_service_work` with the callback. -/
def serviceWork (ctx : MtkContext) (connect built : ErrType) (now : UInt64) :
    Option (Outcome × MtkContext) :=
  (mtkServiceWork ctx.worksPq now).bind fun (cb, pq) =>
    let ctx := ctx.setWorks pq
    match cb with
    | none => some (.idle, ctx)
    | some cb => (ctx.runWork connect built now cb).map fun (ret, ctx) => (.ran cb ret, ctx)

end MtkContext

/-- A part of a round at its time, or a call of the application. -/
inductive Phase
  | ncStart (us now : UInt64)
  | voicefileSend (chunknum : UInt16) (now : UInt64)
  | voicefileRecv (fileid : UInt32) (now : UInt64)
  | work (connect built : ErrType) (now : UInt64)
  | timeout (now : UInt64)
  | nc (sent : Bool) (recv : NcRecv) (now : UInt64)
  | dc (sent : Bool) (recv : DcRecv) (now : UInt64)

namespace MtkContext

/-- One phase.  There are events only on a connection that is connected. -/
def phase (ctx : MtkContext) : Phase → Option (MtkContext × Outcome)
  | .ncStart us now => (ctx.schedule .ncConnect us now).map fun r => (r.2, .scheduled r.1)
  | .voicefileSend chunknum now =>
      (ctx.mtkVoicefileSend chunknum now).map fun r => (r.2, .scheduled r.1)
  | .voicefileRecv fileid now =>
      (ctx.mtkVoicefileRecv fileid now).map fun r => (r.2, .scheduled r.1)
  | .work connect built now => (ctx.serviceWork connect built now).map Prod.swap
  | .timeout now => (ctx.adjustTimeout now).map Prod.swap
  | .nc sent recv now =>
      if ctx.nc.fConnected then (ctx.ncService sent recv now).map Prod.swap
      else some (ctx, .idle)
  | .dc sent recv now =>
      if ctx.dc.fConnected then (ctx.dcService sent recv now).map Prod.swap
      else some (ctx, .idle)

end MtkContext

end Awoke.Mtk
