/-
The context of a micro-talk client and its sessions, `micro_talk.c` and `mtk_session.c`.

A context has two connections, works that are pending, and sessions.  A session is an
exchange on the DATA connection: a command asked for, or a file sent or received chunk
by chunk.  One at a time is installed there, and its work is resumed by
`mtk_session_start` and by the responses.

A session in memory is named by its id, which its creation takes from a counter; the
ids do not come round again.  A freed session is one the context has no entry for, and
an access to it has no result.  Memory can always be had.  How a request is put into
bytes, and what the bytes of a file are, is left to the caller, who says whether it
went well; for an upload `Awoke.Mtk.Chunkinfo` has these parts.
-/
import Awoke.Mtk.Work
import Awoke.Mtk.Connect
import Awoke.Util.Package

namespace Awoke.Mtk

/-! ### Sessions -/

/-- The sessions there are to clone: `chunkrecv`, `chunksend` and `getcmd`. -/
inductive SessionKind
  | chunkrecv
  | chunksend
  | getcmd
  deriving DecidableEq, Repr

/-- `mtk_session_state`. -/
inductive MtkSessionState
  | none
  | req
  | rsp
  | fin
  deriving DecidableEq, Repr

/-- `struct _mtk_session` on the DATA channel, together with what its `mtk_chunkinfo` says
of the chunks: the next `index`, how many there are, and how many lie in `chunk_pq`,
once that is created. -/
structure MtkSession where
  kind : SessionKind
  state : MtkSessionState
  fileid : UInt32
  index : UInt16
  chunknum : UInt16
  chunkPq : Option Nat
  deriving DecidableEq

/-- What a session is created as by `mtk_session_clone` and the lines after it. -/
def MtkSession.create (kind : SessionKind) (fileid : UInt32) (chunknum : UInt16) : MtkSession :=
  { kind := kind
    state := .req
    fileid := fileid
    index := 0
    chunknum := chunknum
    chunkPq := Option.none }

/-- `mtk_session_running`. -/
def MtkSession.running (s : MtkSession) : Bool := s.state != .none

/-- `struct _mtk_request_msg`, by what its payload asks for. -/
structure MtkRequestMsg where
  kind : SessionKind
  fileid : UInt32
  index : UInt16
  deriving DecidableEq

instance : Zero MtkRequestMsg := ⟨{ kind := .chunkrecv, fileid := 0, index := 0 }⟩

/-! ### The context -/

/-- `struct _mtk_context`.  `nc` and `dc` are its connections, `session` and `lastFileid`
fields of `dc`; `rxByte` is the first byte of `rx_buff`, and `rxFull` says that its length is
its size. -/
structure MtkContext where
  sessionBaseid : Nat
  worksPq : WorksPq
  nc : MtkConnect UInt8
  dc : MtkConnect MtkRequestMsg
  session : Option Nat
  lastFileid : UInt32
  sessions : Nat → Option MtkSession
  rxByte : UInt8
  rxFull : Bool

namespace MtkContext

/-- `mtk_context_create`. -/
def create : MtkContext :=
  { sessionBaseid := 0
    worksPq := worksInit
    nc := .init
    dc := .init
    session := none
    lastFileid := 0
    sessions := fun _ => none
    rxByte := 0
    rxFull := false }

/-- The context with another NOTICE connection. -/
def setNc (ctx : MtkContext) (c : MtkConnect UInt8) : MtkContext := { ctx with nc := c }

/-- The context with another DATA connection. -/
def setDc (ctx : MtkContext) (c : MtkConnect MtkRequestMsg) : MtkContext := { ctx with dc := c }

/-- The context with another queue of works. -/
def setWorks (ctx : MtkContext) (pq : WorksPq) : MtkContext := { ctx with worksPq := pq }

/-- The context with this byte at the front of `rx_buff`, which is full or not. -/
def withRx (ctx : MtkContext) (data : UInt8) (full : Bool) : MtkContext :=
  { ctx with rxByte := data, rxFull := full }

/-- The context with this byte at the front of `rx_buff`, which has room. -/
def setRx (ctx : MtkContext) (data : UInt8) : MtkContext := ctx.withRx data false

/-- The context with this session installed. -/
def install (ctx : MtkContext) (ss : Nat) : MtkContext := { ctx with session := some ss }

/-- A work is scheduled in this context. -/
def schedule (ctx : MtkContext) (cb : Handle) (us now : UInt64) :
    Option (ErrType × MtkContext) :=
  (mtkWorkSchedule ctx.worksPq cb us now).map fun r => (r.1, ctx.setWorks r.2)

/-- A session is written. -/
def setSession (ctx : MtkContext) (ss : Nat) (s : MtkSession) : MtkContext :=
  { ctx with sessions := Function.update ctx.sessions ss (some s) }

/-- `mtk_session_free` of the installed session, which is then unset. -/
def freeSession (ctx : MtkContext) (ss : Nat) : MtkContext :=
  { ctx with sessions := Function.update ctx.sessions ss none, session := none }

/-- `mtk_connect_session_del` on the DATA connection. -/
def sessionDel (ctx : MtkContext) : MtkContext :=
  match ctx.session with
  | none => ctx
  | some ss => ctx.freeSession ss

/-- `mtk_session_id_get` and a session under that id. -/
def newSession (ctx : MtkContext) (s : MtkSession) : MtkContext :=
  { ctx.setSession (ctx.sessionBaseid + 1) s with sessionBaseid := ctx.sessionBaseid + 1 }

/-- `mtk_session_add` of `getcmd`. -/
def mtkSessionAdd (ctx : MtkContext) (now : UInt64) : Option (ErrType × MtkContext) :=
  let ctx := ctx.newSession (.create .getcmd 0 0)
  ctx.schedule (.sessionStart ctx.sessionBaseid) (1 * usPerSec) now

/-- `mtk_voicefile_recv`. -/
def mtkVoicefileRecv (ctx : MtkContext) (fileid : UInt32) (now : UInt64) :
    Option (ErrType × MtkContext) :=
  let ctx := ctx.newSession (.create .chunkrecv fileid 0)
  ctx.schedule (.sessionStart ctx.sessionBaseid) (1 * usPerMs) now

/-- `mtk_voicefile_send` with a plan of `chunknum` chunks. -/
def mtkVoicefileSend (ctx : MtkContext) (chunknum : UInt16) (now : UInt64) :
    Option (ErrType × MtkContext) :=
  let ctx := ctx.newSession (.create .chunksend 0 chunknum)
  ctx.schedule (.sessionStart ctx.sessionBaseid) (1 * usPerMs) now

/-- `mtk_session_start`. -/
def mtkSessionStart (ctx : MtkContext) (ss : Nat) (now : UInt64) :
    Option (ErrType × MtkContext) :=
  match ctx.sessions ss, ctx.session with
  | none, _ => none
  | some _, none => (ctx.install ss).schedule .dcConnect (1 * usPerMs) now
  | some _, some cur =>
      match ctx.sessions cur with
      | none => none
      | some s =>
          if ss = cur then ctx.schedule .dcConnect (1 * usPerMs) now
          else if s.running then ctx.schedule (.sessionStart ss) (1 * usPerSec) now
          else (ctx.install ss).schedule .dcConnect (1 * usPerMs) now

/-! ### Requests -/

/-- What the three requests have in common: the message goes into the ring, and the
session waits for its response.  `built` says how building the message went, and
`failed` is the context where that went wrong. -/
def request (ctx : MtkContext) (ss : Nat) (s : MtkSession) (built : ErrType)
    (failed : MtkContext) : Option (ErrType × MtkContext) :=
  if built = .etOk then
    (ctx.dc.push { kind := s.kind, fileid := s.fileid, index := s.index }).map fun dc =>
      (.etOk, (ctx.setDc dc.onWritable).setSession ss { s with state := .rsp })
  else some (built, failed)

/-- `chunkrecv_request`. -/
def chunkrecvRequest (ctx : MtkContext) (ss : Nat) (s : MtkSession) (built : ErrType) :
    Option (ErrType × MtkContext) :=
  ctx.request ss s built ctx.sessionDel

/-- `chunksend_request`. -/
def chunksendRequest (ctx : MtkContext) (ss : Nat) (s : MtkSession) (built : ErrType) :
    Option (ErrType × MtkContext) :=
  ctx.request ss s built ctx.sessionDel

/-- `getcmd_request`, which leaves its session where it is. -/
def getcmdRequest (ctx : MtkContext) (ss : Nat) (s : MtkSession) (built : ErrType) :
    Option (ErrType × MtkContext) :=
  ctx.request ss s built ctx

/-- `req_process` of the installed session. -/
def reqProcess (ctx : MtkContext) (ss : Nat) (built : ErrType) :
    Option (ErrType × MtkContext) :=
  match ctx.sessions ss with
  | none => none
  | some s =>
      match s.kind with
      | .chunkrecv => ctx.chunkrecvRequest ss s built
      | .chunksend => ctx.chunksendRequest ss s built
      | .getcmd => ctx.getcmdRequest ss s built

/-! ### Responses -/

/-- The next chunk is asked for or sent when the session is started again. -/
def nextChunk (ctx : MtkContext) (ss : Nat) (s : MtkSession) (now : UInt64) :
    Option (ErrType × MtkContext) :=
  (ctx.setSession ss { s with index := s.index + 1, state := .req }).schedule
    (.sessionStart ss) (1 * usPerMs) now

/-- The session is over. -/
def finish (ctx : MtkContext) (ss : Nat) (s : MtkSession) : MtkContext :=
  ctx.setSession ss { s with state := .fin }

/-- With the first chunk received, `chunk_pq` is created for as many as it says there are. -/
def openChunks (s : MtkSession) (rsp : Cells UInt8) : MtkSession :=
  match s.chunkPq with
  | none => { s with chunknum := htons (pullWord rsp 4), chunkPq := some 0 }
  | some _ => s

/-- `chunkrecv_response` to the message `rsp` of `len` bytes of data; `merge` is what
`mtk_chunkdata_merge` says of the chunks.  A message too short for its own header is
copied from beyond the buffer. -/
def chunkrecvResponse (ctx : MtkContext) (ss : Nat) (s : MtkSession) (rsp : Cells UInt8)
    (len : UInt16) (merge : ErrType) (now : UInt64) : Option (ErrType × MtkContext) :=
  if rsp 3 ≠ 0 then some (.etFail, ctx.sessionDel)
  else
    let s := openChunks s rsp
    let held := s.chunkPq.getD 0
    if held = s.chunknum.toNat then some (.etFull, ctx.sessionDel)
    else if len < 9 then none
    else if len = 9 then some (.etNomem, ctx.sessionDel)
    else
      let s : MtkSession := { s with chunkPq := some (held + 1) }
      if held + 1 ≠ s.chunknum.toNat then ctx.nextChunk ss s now
      else if merge = .etOk then some (.etOk, ctx.finish ss s)
      else some (merge, ctx.sessionDel)

/-- `chunksend_response`. -/
def chunksendResponse (ctx : MtkContext) (ss : Nat) (s : MtkSession) (rsp : Cells UInt8)
    (now : UInt64) : Option (ErrType × MtkContext) :=
  let code := rsp 3
  let fileid := htonl (pullDwrd rsp 4)
  if s.index.toNat + 1 = s.chunknum.toNat ∧ code ≠ 1 then some (.etOk, ctx.finish ss s)
  else if code = 3 then some (.etFail, ctx.finish ss s)
  else if code = 4 then some (.etFail, ctx.finish ss s)
  else if code = 0 then ctx.nextChunk ss s now
  else some (.etOk, { ctx.finish ss s with lastFileid := fileid })

/-- `getcmd_response`. -/
def getcmdResponse (ctx : MtkContext) (ss : Nat) (s : MtkSession) (rsp : Cells UInt8)
    (len : UInt16) (now : UInt64) : Option (ErrType × MtkContext) :=
  if len = 0 then some (.etOk, ctx)
  else
    let fileid := htonl (pullDwrd rsp 3)
    if fileid ≠ 0 ∧ fileid ≠ ctx.lastFileid then
      (ctx.mtkVoicefileRecv fileid now).map fun r => (.etOk, r.2.finish ss s)
    else some (.etOk, ctx.finish ss s)

/-- `rsp_process` of the installed session. -/
def rspProcess (ctx : MtkContext) (ss : Nat) (rsp : Cells UInt8) (len : UInt16)
    (merge : ErrType) (now : UInt64) : Option (ErrType × MtkContext) :=
  match ctx.sessions ss with
  | none => none
  | some s =>
      match s.kind with
      | .chunkrecv => ctx.chunkrecvResponse ss s rsp len merge now
      | .chunksend => ctx.chunksendResponse ss s rsp now
      | .getcmd => ctx.getcmdResponse ss s rsp len now

/-- The code of a response. -/
def rspCode (rsp : Cells UInt8) : UInt8 := rsp 0 &&& 0x7f

/-- The length of a response's data. -/
def rspLen (rsp : Cells UInt8) : UInt16 := htons (pullWord rsp 1)

/-- `dc_response_recv`. -/
def dcResponseRecv (ctx : MtkContext) (rsp : Cells UInt8) (merge : ErrType) (now : UInt64) :
    Option (ErrType × MtkContext) :=
  if rspCode rsp = 1 ∨ rspCode rsp = 2 then some (.etFail, ctx)
  else if rspLen rsp = 0 then some (.etOk, ctx)
  else
    match ctx.session with
    | none => some (.etOk, ctx)
    | some ss => ctx.rspProcess ss rsp (rspLen rsp) merge now

end MtkContext

end Awoke.Mtk
