/-
What a phase does to the NOTICE connection.

A work phase either stands aside, or runs a keepalive, or connects.  An event either
writes the oldest message of the ring or reads a byte; a read is a notice, an
acknowledgement or an error, and every error closes the connection.

A connection that is connected is complete (`NcOk`): it has a ring, a context and a
receive timeout.
-/
import Awoke.Proofs.MtkContext

namespace Awoke.Mtk

/-- A phase apart from the NOTICE connection: a call, or an event of the other connection. -/
def Phase.apart : Phase → Bool
  | .work _ _ _ | .timeout _ | .nc _ _ _ => false
  | _ => true

/-- What a NOTICE connection has while it is connected. -/
structure NcOk (c : MtkConnect UInt8) : Prop where
  hasContext : c.fConnected = true → c.hasContext = true
  ring : c.fConnected = true → ∃ ring, c.ring = some ring
  rwait : c.fConnected = true → c.fRwaitTimeout = true ∧ c.rwait.timeoutUs ≠ 0

theorem NcOk.of_not_connected {c : MtkConnect UInt8} (h : c.fConnected = false) : NcOk c := by
  have hno (hcon : c.fConnected = true) : False := Bool.false_ne_true (h.symm.trans hcon)
  exact ⟨fun hcon => (hno hcon).elim, fun hcon => (hno hcon).elim, fun hcon => (hno hcon).elim⟩

theorem NcOk.congr {c c' : MtkConnect UInt8} (h : NcOk c) (hcon : c'.fConnected = c.fConnected)
    (hctx : c'.hasContext = c.hasContext)
    (hring : c.fConnected = true → ∃ ring, c'.ring = some ring)
    (hflag : c'.fRwaitTimeout = c.fRwaitTimeout)
    (htimeout : c'.rwait.timeoutUs = c.rwait.timeoutUs) : NcOk c' := by
  refine ⟨fun hc => ?_, fun hc => ?_, fun hc => ?_⟩
  · rw [hctx]
    exact h.hasContext (hcon ▸ hc)
  · exact hring (hcon ▸ hc)
  · rw [hflag, htimeout]
    exact h.rwait (hcon ▸ hc)

namespace MtkContext

theorem ncEstablished_ok (c : MtkConnect UInt8) : NcOk (ncEstablished c) := by
  refine ⟨fun _ => rfl, fun _ => ⟨_, rfl⟩, fun _ => ⟨rfl, ?_⟩⟩
  show 10 * usPerSec ≠ 0
  decide

end MtkContext

namespace MtkConnect

variable {μ : Type}

/-! ### The receive timeout -/

/-- The connection with another deadline and another count. -/
def withWait (c : MtkConnect μ) (waitUs timeoutCnt : UInt64) : MtkConnect μ :=
  { c with rwait := { c.rwait with waitUs := waitUs, timeoutCnt := timeoutCnt } }

theorem rwaitUpdate_eq (c : MtkConnect μ) (now : UInt64) :
    ∃ waitUs, c.rwaitUpdate now = c.withWait waitUs c.rwait.timeoutCnt := by
  unfold rwaitUpdate
  split
  · exact ⟨_, rfl⟩
  · exact ⟨c.rwait.waitUs, rfl⟩

theorem rwaitRestart_eq {c : MtkConnect μ} (h : c.fRwaitTimeout = true) :
    c.rwaitRestart = c.withWait 0 0 := if_pos h

theorem release_fConnected (c : MtkConnect μ) : c.release.fConnected = false := by
  unfold release rwaitClean
  split <;> rfl

/-! ### Writing -/

variable [Zero μ]

/-- The connection after the oldest message of its ring was written. -/
def sentOne (c : MtkConnect μ) (ring : Queue μ) (now : UInt64) : MtkConnect μ :=
  let c := { c with evWrite := false, ring := some ring.deq.2.2 }
  let c := if c.fRwaitTimeout then c.rwaitUpdate now else c
  if ring.deq.2.2.empty then c else c.onWritable

/-- The connection with this ring, to be written if there is something in it. -/
def withRing (c : MtkConnect μ) (ring : Queue μ) : MtkConnect μ :=
  { c with evWrite := !ring.empty, ring := some ring }

variable {c : MtkConnect μ} {ring : Queue μ}

theorem handleWriteEvent_empty (hring : c.ring = some ring) (hempty : ring.empty = true)
    (sent : Bool) (now : UInt64) :
    c.handleWriteEvent sent now = some (.etOk, none, c.withRing ring) := by
  rw [handleWriteEvent, writable, hring, Option.bind_some, if_pos hempty, withRing, hempty,
    ← hring]
  rfl

theorem handleWriteEvent_sent (hring : c.ring = some ring) (hempty : ring.empty = false)
    (now : UInt64) :
    c.handleWriteEvent true now = some (.etOk, some ring.deq.2.1, c.sentOne ring now) := by
  rw [handleWriteEvent, writable, hring, Option.bind_some, hempty]
  rfl

theorem handleWriteEvent_lost (hring : c.ring = some ring) (hempty : ring.empty = false)
    (now : UInt64) :
    ∃ c', c.handleWriteEvent false now = some (.etSockSend, none, c') ∧
      c'.hasContext = c.hasContext := by
  rw [handleWriteEvent, writable, hring, Option.bind_some, hempty]
  exact ⟨_, rfl, rfl⟩

/-- **A deadline that was set by a write is taken back** by the read routine that the write
is a part of. -/
theorem sentOne_restart (hflag : c.fRwaitTimeout = true) (ring : Queue μ) (now : UInt64) :
    (c.sentOne ring now).rwaitRestart = (c.withRing ring.deq.2.2).withWait 0 0 := by
  obtain ⟨waitUs, hupdate⟩ :=
    rwaitUpdate_eq { c with evWrite := false, ring := some ring.deq.2.2 } now
  unfold sentOne withRing
  dsimp only
  rw [if_pos hflag, hupdate]
  cases ring.deq.2.2.empty
  · exact if_pos hflag
  · exact if_pos hflag

end MtkConnect

namespace MtkContext

variable {ctx : MtkContext} {hs : Multiset Handle}

/-! ### A write event -/

theorem ncService_empty {ring : Queue UInt8} (hok : NcOk ctx.nc)
    (hcon : ctx.nc.fConnected = true) (hwrite : ctx.nc.evWrite = true)
    (hring : ctx.nc.ring = some ring) (hempty : ring.empty = true) (sent : Bool) (recv : NcRecv)
    (now : UInt64) :
    ctx.ncService sent recv now =
      some (.idle, (ctx.setNc ((ctx.nc.withRing ring).withWait 0 0)).setRx 0) := by
  unfold ncService lightLinkRead
  rw [if_pos hwrite,
    MtkConnect.handleWriteEvent_empty hring hempty sent now]
  show some (Outcome.idle, (ctx.setNc (ctx.nc.withRing ring).rwaitRestart).setRx 0) = _
  have hflag : (ctx.nc.withRing ring).fRwaitTimeout = true := (hok.rwait hcon).1
  rw [MtkConnect.rwaitRestart_eq hflag]

theorem ncService_sent {ring : Queue UInt8} (hok : NcOk ctx.nc)
    (hcon : ctx.nc.fConnected = true) (hwrite : ctx.nc.evWrite = true)
    (hring : ctx.nc.ring = some ring) (hempty : ring.empty = false) (recv : NcRecv)
    (now : UInt64) :
    ctx.ncService true recv now = some (.wrote ring.deq.2.1,
      (ctx.setNc ((ctx.nc.withRing ring.deq.2.2).withWait 0 0)).setRx 0) := by
  unfold ncService lightLinkRead
  rw [if_pos hwrite,
    MtkConnect.handleWriteEvent_sent hring hempty now,
    ← MtkConnect.sentOne_restart (hok.rwait hcon).1 ring now]
  rfl

/-- What a close of the NOTICE connection comes to: it is not connected, a keepalive is not
pending any more, and a new connect is. -/
def Closed (hs : Multiset Handle) (o : Option (Outcome × MtkContext)) (code : ErrType) : Prop :=
  ∃ ctx', o = some (.closed code, ctx') ∧ ctx'.nc.fConnected = false ∧
    Works ctx'.worksPq (add .ncConnect (hs.erase .ncKeepalive))

theorem closed_of_release (ctx : MtkContext) (h : Works ctx.worksPq hs)
    (hctx : ctx.nc.hasContext = true) (code : ErrType) (now : UInt64) :
    Closed hs ((ctx.ncRelease now).map fun ctx => (.closed code, ctx)) code := by
  obtain ⟨pq, hrelease, h'⟩ := ncRelease_eq ctx h hctx now
  exact ⟨_, by rw [hrelease]; rfl, ctx.nc.release_fConnected, h'⟩

theorem ncService_lost {ring : Queue UInt8} (h : Works ctx.worksPq hs) (hok : NcOk ctx.nc)
    (hcon : ctx.nc.fConnected = true) (hwrite : ctx.nc.evWrite = true)
    (hring : ctx.nc.ring = some ring) (hempty : ring.empty = false) (recv : NcRecv)
    (now : UInt64) : Closed hs (ctx.ncService false recv now) .etSockSend := by
  obtain ⟨c, hlost, hctx⟩ := MtkConnect.handleWriteEvent_lost hring hempty now
  unfold ncService lightLinkRead
  rw [if_pos hwrite, hlost]
  have hctx' : (ctx.setNc c).nc.hasContext = true := hctx.trans (hok.hasContext hcon)
  exact closed_of_release (ctx.setNc c) h hctx' .etSockSend now

/-! ### A read event -/

/-- The byte that a read is taken for. -/
def readByte (ctx : MtkContext) (recv : NcRecv) : Option UInt8 :=
  if ctx.rxFull then some ctx.rxByte
  else
    match recv with
    | .error => none
    | .nothing => some ctx.rxByte
    | .byte data | .filled data => some data

theorem ncService_error {recv : NcRecv} (h : Works ctx.worksPq hs) (hok : NcOk ctx.nc)
    (hcon : ctx.nc.fConnected = true) (hwrite : ctx.nc.evWrite = false)
    (hread : ctx.readByte recv = none) (sent : Bool) (now : UInt64) :
    Closed hs (ctx.ncService sent recv now) .etSockRecv := by
  unfold readByte at hread
  split at hread
  · exact nomatch hread
  next hroom =>
  cases recv with
  | error =>
      unfold ncService lightLinkRead
      rw [if_neg (ne_true_of_eq_false hwrite), if_neg hroom]
      exact closed_of_release ctx h (hok.hasContext hcon) .etSockRecv now
  | nothing => exact nomatch hread
  | byte data => exact nomatch hread
  | filled data => exact nomatch hread

/-- A read hands its byte on. -/
theorem ncService_read {recv : NcRecv} {data : UInt8} (hwrite : ctx.nc.evWrite = false)
    (hread : ctx.readByte recv = some data) (sent : Bool) (now : UInt64) :
    ∃ full, ctx.ncService sent recv now =
      ((ctx.withRx data full).ncNoticeRecv data now).bind fun (ret, ctx') =>
        if ret = .etOk then
          some (.received data, (ctx'.setNc ctx'.nc.rwaitRestart).setRx 0)
        else (ctx'.ncRelease now).map fun ctx' => (.closed ret, ctx') := by
  unfold ncService lightLinkRead
  rw [if_neg (ne_true_of_eq_false hwrite)]
  unfold readByte at hread
  split at hread
  · next hfull =>
    obtain rfl := Option.some.inj hread
    refine ⟨ctx.rxFull, ?_⟩
    rw [if_pos hfull, Option.bind_map]
    rfl
  next hroom =>
  rw [if_neg hroom]
  cases recv with
  | error => exact nomatch hread
  | nothing =>
      obtain rfl := Option.some.inj hread
      refine ⟨ctx.rxFull, ?_⟩
      dsimp only
      rw [Option.bind_map]
      rfl
  | byte d =>
      obtain rfl := Option.some.inj hread
      refine ⟨false, ?_⟩
      dsimp only
      rw [Option.bind_map]
      rfl
  | filled d =>
      obtain rfl := Option.some.inj hread
      refine ⟨true, ?_⟩
      dsimp only
      rw [Option.bind_map]
      rfl

/-- The connection after a receipt that counts. -/
def receivedOne (c : MtkConnect UInt8) : MtkConnect UInt8 := (ncNoticeIndex c).withWait 0 0

/-- **A notice** that both works find room for. -/
theorem ncService_notice {recv : NcRecv} (h : Works ctx.worksPq hs) (hok : NcOk ctx.nc)
    (hcon : ctx.nc.fConnected = true) (hwrite : ctx.nc.evWrite = false)
    (hread : ctx.readByte recv = some 0) (hroom : (add .ncKeepalive hs).card < 8) (sent : Bool)
    (now : UInt64) :
    ∃ pq, ctx.ncService sent recv now = some (.received 0,
        ((ctx.setNc (receivedOne ctx.nc)).commandSession.setWorks pq).setRx 0) ∧
      Works pq (ctx.nextStart ::ₘ add .ncKeepalive hs) := by
  obtain ⟨full, hservice⟩ := ncService_read hwrite hread sent now
  have hrx : Works (ctx.withRx 0 full).worksPq hs := h
  obtain ⟨pq, hrecv, h'⟩ := ncNoticeRecv_notice (ctx.withRx 0 full) hrx now
  rw [addCode_room hroom] at hrecv
  have hflag : (ncNoticeIndex ctx.nc).fRwaitTimeout = true := (hok.rwait hcon).1
  refine ⟨pq, ?_, by rw [← add_room hroom]; exact h'⟩
  rw [hservice, hrecv, receivedOne, ← MtkConnect.rwaitRestart_eq hflag]
  rfl

theorem ncService_notice_full {recv : NcRecv} (h : Works ctx.worksPq hs) (hok : NcOk ctx.nc)
    (hcon : ctx.nc.fConnected = true) (hwrite : ctx.nc.evWrite = false)
    (hread : ctx.readByte recv = some 0) (hfull : ¬(add .ncKeepalive hs).card < 8) (sent : Bool)
    (now : UInt64) :
    Closed (add .ncKeepalive hs) (ctx.ncService sent recv now) .etFull := by
  obtain ⟨full, hservice⟩ := ncService_read hwrite hread sent now
  have hrx : Works (ctx.withRx 0 full).worksPq hs := h
  obtain ⟨pq, hrecv, h'⟩ := ncNoticeRecv_notice (ctx.withRx 0 full) hrx now
  rw [addCode_full hfull] at hrecv
  rw [add, if_neg hfull] at h'
  rw [hservice, hrecv]
  refine closed_of_release
    (((ctx.withRx 0 full).setNc (ncNoticeIndex ctx.nc)).commandSession.setWorks pq) h' ?_ .etFull now
  exact hok.hasContext hcon

/-- **An acknowledgement.** -/
theorem ncService_ack {recv : NcRecv} (h : Works ctx.worksPq hs) (hok : NcOk ctx.nc)
    (hcon : ctx.nc.fConnected = true) (hwrite : ctx.nc.evWrite = false)
    (hread : ctx.readByte recv = some ctx.nc.msgindex) (hne : ctx.nc.msgindex ≠ 0) (sent : Bool)
    (now : UInt64) :
    ∃ pq, ctx.ncService sent recv now = some (.received ctx.nc.msgindex,
        ((ctx.setNc (receivedOne ctx.nc)).setWorks pq).setRx 0) ∧
      Works pq (add .ncKeepalive hs) := by
  obtain ⟨full, hservice⟩ := ncService_read hwrite hread sent now
  have hrx : Works (ctx.withRx ctx.nc.msgindex full).worksPq hs := h
  obtain ⟨pq, hrecv, h'⟩ := ncNoticeRecv_ack (ctx.withRx ctx.nc.msgindex full) hrx hne now
  have hflag : (ncNoticeIndex ctx.nc).fRwaitTimeout = true := (hok.rwait hcon).1
  refine ⟨pq, ?_, h'⟩
  rw [hservice, receivedOne, ← MtkConnect.rwaitRestart_eq hflag]
  show Option.bind ((ctx.withRx ctx.nc.msgindex full).ncNoticeRecv
    (ctx.withRx ctx.nc.msgindex full).nc.msgindex now) _ = _
  rw [hrecv]
  rfl

theorem ncService_stray {recv : NcRecv} {data : UInt8} (h : Works ctx.worksPq hs)
    (hok : NcOk ctx.nc) (hcon : ctx.nc.fConnected = true) (hwrite : ctx.nc.evWrite = false)
    (hread : ctx.readByte recv = some data) (hne : data ≠ 0) (hstray : data ≠ ctx.nc.msgindex)
    (sent : Bool) (now : UInt64) : Closed hs (ctx.ncService sent recv now) .etFail := by
  obtain ⟨full, hservice⟩ := ncService_read hwrite hread sent now
  have hrecv : (ctx.withRx data full).ncNoticeRecv data now =
      some (.etFail, ctx.withRx data full) :=
    ncNoticeRecv_stray (ctx.withRx data full) hne hstray now
  rw [hservice, hrecv]
  exact closed_of_release (ctx.withRx data full) h (hok.hasContext hcon) .etFail now

/-! ### The timeout -/

theorem rwaitOver_connected {c : MtkConnect UInt8} {us : UInt64} (h : c.rwaitOver us = true) :
    c.fConnected = true := by
  simp only [MtkConnect.rwaitOver, Bool.and_eq_true] at h
  exact h.1.1.1

/-- The connection after a timeout that does not close it. -/
def beatAgain (c : MtkConnect UInt8) (ring : Queue UInt8) : MtkConnect UInt8 :=
  { c.rwaitCount with ring := some (ring.enq c.msgindex).2, evWrite := true }

theorem adjustTimeout_again {ring : Queue UInt8} {us : UInt64}
    (hover : ctx.nc.rwaitOver us = true) (hring : ctx.nc.ring = some ring)
    (hcnt : ¬ctx.nc.rwait.maxcnt ≤ ctx.nc.rwait.timeoutCnt + 1) :
    ctx.adjustTimeout us = some (.timedOut, ctx.setNc (beatAgain ctx.nc ring)) := by
  have hpush : ncBuildHeartbeat ctx.nc.rwaitCount =
      some { ctx.nc.rwaitCount with ring := some (ring.enq ctx.nc.msgindex).2 } := by
    rw [ncBuildHeartbeat, MtkConnect.push]
    show Option.map _ ctx.nc.ring = _
    rw [hring]
    rfl
  have hcnt' : ¬ctx.nc.rwaitCount.rwait.maxcnt ≤ ctx.nc.rwaitCount.rwait.timeoutCnt := hcnt
  rw [adjustTimeout, if_pos hover]
  dsimp only
  rw [if_neg hcnt', hpush]
  rfl

theorem adjustTimeout_max {us : UInt64} (h : Works ctx.worksPq hs) (hok : NcOk ctx.nc)
    (hover : ctx.nc.rwaitOver us = true)
    (hcnt : ctx.nc.rwait.maxcnt ≤ ctx.nc.rwait.timeoutCnt + 1) :
    Closed hs (ctx.adjustTimeout us) .etSockRecv := by
  have hcnt' : ctx.nc.rwaitCount.rwait.maxcnt ≤ ctx.nc.rwaitCount.rwait.timeoutCnt := hcnt
  rw [adjustTimeout, if_pos hover]
  dsimp only
  rw [if_pos hcnt']
  exact closed_of_release (ctx.setNc ctx.nc.rwaitCount) h
    (hok.hasContext (rwaitOver_connected hover)) .etSockRecv us

/-! ### A work -/

/-- What a work phase can do to the NOTICE connection. -/
inductive WorkStep (ctx : MtkContext) (hs : Multiset Handle) (connect : ErrType) :
    Outcome → MtkContext → Prop
  /-- It runs no work, or one that stands aside. -/
  | aside {out : Outcome} {ctx' : MtkContext} (haside : Aside ctx ctx')
      (hout : out.aside = true) : WorkStep ctx hs connect out ctx'
  /-- A heartbeat is built. -/
  | beat {rest : Multiset Handle} {pq : WorksPq} {ring : Queue UInt8}
      (hhs : hs = .ncKeepalive ::ₘ rest) (hpq : Works pq rest)
      (hcon : ctx.nc.fConnected = true) (hring : ctx.nc.ring = some ring) :
      WorkStep ctx hs connect (.ran .ncKeepalive .etOk) ((ctx.setWorks pq).setNc
        { ctx.nc with ring := some (ring.enq ctx.nc.msgindex).2, evWrite := true })
  /-- A keepalive finds no connection. -/
  | late {rest : Multiset Handle} {pq : WorksPq} (hhs : hs = .ncKeepalive ::ₘ rest)
      (hpq : Works pq rest) (hcon : ctx.nc.fConnected = false) :
      WorkStep ctx hs connect (.ran .ncKeepalive .etFail) (ctx.setWorks pq)
  /-- The connection is established. -/
  | established {rest : Multiset Handle} {pq : WorksPq} (hhs : hs = .ncConnect ::ₘ rest)
      (hpq : Works pq (.ncKeepalive ::ₘ rest)) (hcon : ctx.nc.fConnected = false)
      (hok : connect = .etOk) :
      WorkStep ctx hs connect (.ran .ncConnect .etOk)
        ((ctx.setNc (ncEstablished ctx.nc)).setWorks pq)
  /-- The connect fails, on a context that was connected before. -/
  | refused {rest hs' : Multiset Handle} {pq : WorksPq} {code : ErrType}
      (hhs : hs = .ncConnect ::ₘ rest) (hpq : Works pq hs')
      (hcount : hs'.count .ncKeepalive = rest.count .ncKeepalive - 1)
      (hcon : ctx.nc.fConnected = false) (hctx : ctx.nc.hasContext = true) :
      WorkStep ctx hs connect (.ran .ncConnect code)
        ((ctx.setWorks pq).setNc (ctx.nc.prepare ncInfo).release)

theorem ncConnect_ne : Handle.ncKeepalive ≠ .ncConnect := nofun

theorem pop_aside {cb : Handle} {rest : Multiset Handle} {pq : WorksPq}
    (h : Works ctx.worksPq (cb ::ₘ rest)) (hpq : Works pq rest) (hcb : .ncKeepalive ≠ cb) :
    Aside ctx (ctx.setWorks pq) := by
  refine ⟨rfl, fun hs hW => ⟨rest, hpq, ?_⟩⟩
  rw [← hW.eq, h.eq, Multiset.count_cons_of_ne hcb]

theorem mtkNcConnect_step {rest : Multiset Handle} {pq : WorksPq} {connect : ErrType}
    {now : UInt64} {ret : ErrType} {ctx' : MtkContext}
    (h : Works ctx.worksPq (.ncConnect ::ₘ rest)) (hpq : Works pq rest)
    (hrun : (ctx.setWorks pq).mtkNcConnect connect now = some (ret, ctx')) :
    WorkStep ctx (.ncConnect ::ₘ rest) connect (.ran .ncConnect ret) ctx' := by
  have hle := h.card_le
  rw [Multiset.card_cons] at hle
  cases hcon : ctx.nc.fConnected with
  | true =>
      have hvia : (ctx.setWorks pq).ncConnectViaInfo connect now = some (.etOk, ctx.setWorks pq) :=
        if_pos hcon
      rw [mtkNcConnect, hvia] at hrun
      rw [← (Prod.mk.inj (Option.some.inj hrun)).2]
      exact .aside (pop_aside h hpq ncConnect_ne) rfl
  | false =>
      by_cases hconnect : connect = .etOk
      · rw [hconnect] at hrun
        obtain ⟨pq', hvia, h'⟩ := ncConnectViaInfo_ok (ctx.setWorks pq) hpq hcon now
        rw [mtkNcConnect, hvia] at hrun
        rw [add_room (by omega)] at h'
        obtain ⟨rfl, rfl⟩ := Prod.mk.inj (Option.some.inj hrun)
        exact .established rfl h' hcon hconnect
      · cases hctx : ctx.nc.hasContext with
        | true =>
            obtain ⟨pq', hvia, h'⟩ :=
              ncConnectViaInfo_failed (ctx.setWorks pq) hpq hcon hctx hconnect now
            obtain ⟨pq'', hsched, h''⟩ := schedule_eq
              (((ctx.setWorks pq).setWorks pq').setNc (ctx.nc.prepare ncInfo).release) h' .ncConnect
              (15 * usPerSec) now
            rw [mtkNcConnect, hvia, Option.bind_some] at hrun
            dsimp only at hrun
            rw [if_neg hconnect] at hrun
            obtain ⟨⟨code, ctx₁⟩, hsched', hr⟩ := Option.map_eq_some_iff.mp hrun
            obtain ⟨-, rfl⟩ := Prod.mk.inj (Option.some.inj (hsched.symm.trans hsched'))
            rw [← (Prod.mk.inj hr).2]
            refine .refused rfl h'' ?_ hcon hctx
            rw [count_add_of_ne ncConnect_ne, count_add_of_ne ncConnect_ne,
              Multiset.count_erase_self]
        | false =>
            -- the callback goes through a null pointer
            have hprepared : (ctx.nc.prepare ncInfo).hasContext = false := hctx
            have hnone : (ctx.setWorks pq).ncConnectViaInfo connect now = none := by
              have hcon' : (ctx.setWorks pq).nc.fConnected = false := hcon
              rw [ncConnectViaInfo, hcon', if_neg Bool.false_ne_true, if_neg hconnect, ncRelease]
              exact congrArg _ (if_neg (ne_true_of_eq_false hprepared))
            rw [mtkNcConnect, hnone] at hrun
            cases hrun

/-- **A work phase.** -/
theorem serviceWork_step {connect built : ErrType} {now : UInt64} {out : Outcome}
    {ctx' : MtkContext} (h : Works ctx.worksPq hs) (hok : NcOk ctx.nc)
    (heq : ctx.serviceWork connect built now = some (out, ctx')) :
    WorkStep ctx hs connect out ctx' := by
  unfold serviceWork at heq
  rcases h.service now with hnone | ⟨cb, rest, pq, rfl, hsome, hpq⟩
  · rw [hnone] at heq
    obtain ⟨rfl, rfl⟩ := Prod.mk.inj (Option.some.inj heq)
    exact .aside (.refl ctx) rfl
  rw [hsome, Option.bind_some] at heq
  obtain ⟨⟨ret, ctx₁⟩, hrun, hr⟩ := Option.map_eq_some_iff.mp heq
  obtain ⟨rfl, rfl⟩ := Prod.mk.inj hr
  cases cb with
  | ncConnect => exact mtkNcConnect_step h hpq hrun
  | dcConnect =>
      exact .aside ((pop_aside h hpq dcConnect_ne).trans
        (mtkDcConnect_aside connect built ret ctx₁ hrun)) rfl
  | sessionStart ss =>
      exact .aside ((pop_aside h hpq (sessionStart_ne ss)).trans
        (mtkSessionStart_aside ss now ret ctx₁ hrun)) rfl
  | ncKeepalive =>
      cases hcon : ctx.nc.fConnected with
      | true =>
          obtain ⟨ring, hring⟩ := hok.ring hcon
          have hbeat := ncKeepalive_eq (ctx.setWorks pq) hcon hring
          obtain ⟨rfl, rfl⟩ := Prod.mk.inj (Option.some.inj (hbeat.symm.trans hrun))
          exact .beat rfl hpq hcon hring
      | false =>
          have hlate : (ctx.setWorks pq).ncKeepalive = some (.etFail, ctx.setWorks pq) :=
            if_neg (ne_true_of_eq_false hcon)
          obtain ⟨rfl, rfl⟩ := Prod.mk.inj (Option.some.inj (hlate.symm.trans hrun))
          exact .late rfl hpq hcon

/-! ### Any phase -/

/-- A receipt that counts: the byte read is a notice or the acknowledgement expected. -/
def Receipt (ctx : MtkContext) (recv : NcRecv) (data : UInt8) : Prop :=
  ctx.nc.fConnected = true ∧ ctx.nc.evWrite = false ∧ ctx.readByte recv = some data ∧
    (data = 0 ∨ data = ctx.nc.msgindex)

/-- What a phase can do to the NOTICE connection. -/
inductive NcStep (ctx : MtkContext) (hs : Multiset Handle) :
    Phase → Outcome → MtkContext → Prop
  /-- It is about something else, or there is nothing to do. -/
  | aside {p : Phase} {out : Outcome} {ctx' : MtkContext} (haside : Aside ctx ctx')
      (hout : out.aside = true) : NcStep ctx hs p out ctx'
  | work {connect built : ErrType} {now : UInt64} {out : Outcome} {ctx' : MtkContext}
      (hstep : WorkStep ctx hs connect out ctx') :
      NcStep ctx hs (.work connect built now) out ctx'
  /-- A timeout builds another heartbeat. -/
  | timedOut {now : UInt64} {ring : Queue UInt8} (hcon : ctx.nc.fConnected = true)
      (hring : ctx.nc.ring = some ring) :
      NcStep ctx hs (.timeout now) .timedOut (ctx.setNc (beatAgain ctx.nc ring))
  /-- The connection is closed, and nothing was received before. -/
  | closed {p : Phase} {code : ErrType} {ctx' : MtkContext} (hcon : ctx.nc.fConnected = true)
      (hclosed : ctx'.nc.fConnected = false)
      (hpq : Works ctx'.worksPq (add .ncConnect (hs.erase .ncKeepalive))) :
      NcStep ctx hs p (.closed code) ctx'
  /-- The event loop offers to write, and the ring is empty. -/
  | empty {sent : Bool} {recv : NcRecv} {now : UInt64} {ring : Queue UInt8}
      (hcon : ctx.nc.fConnected = true) (hring : ctx.nc.ring = some ring) :
      NcStep ctx hs (.nc sent recv now) .idle
        ((ctx.setNc ((ctx.nc.withRing ring).withWait 0 0)).setRx 0)
  /-- A heartbeat is written. -/
  | wrote {recv : NcRecv} {now : UInt64} {ring : Queue UInt8}
      (hcon : ctx.nc.fConnected = true) (hwrite : ctx.nc.evWrite = true)
      (hring : ctx.nc.ring = some ring) (hempty : ring.empty = false) :
      NcStep ctx hs (.nc true recv now) (.wrote ring.deq.2.1)
        ((ctx.setNc ((ctx.nc.withRing ring.deq.2.2).withWait 0 0)).setRx 0)
  /-- A receipt counts, and the connection stays. -/
  | received {sent : Bool} {recv : NcRecv} {data : UInt8} {now : UInt64} {hs' : Multiset Handle}
      {ctx' : MtkContext} (hreceipt : ctx.Receipt recv data)
      (hnc : ctx'.nc = receivedOne ctx.nc) (hpq : Works ctx'.worksPq hs')
      (hcount : hs'.count .ncKeepalive = (add .ncKeepalive hs).count .ncKeepalive) :
      NcStep ctx hs (.nc sent recv now) (.received data) ctx'
  /-- A notice counts, and its session finds no room. -/
  | overrun {sent : Bool} {recv : NcRecv} {now : UInt64} {ctx' : MtkContext}
      (hreceipt : ctx.Receipt recv 0) (hfull : ¬(add .ncKeepalive hs).card < 8)
      (hclosed : ctx'.nc.fConnected = false)
      (hpq : Works ctx'.worksPq (add .ncConnect ((add .ncKeepalive hs).erase .ncKeepalive))) :
      NcStep ctx hs (.nc sent recv now) (.closed .etFull) ctx'

theorem nc_step {sent : Bool} {recv : NcRecv} {now : UInt64} {out : Outcome}
    {ctx' : MtkContext} (h : Works ctx.worksPq hs) (hok : NcOk ctx.nc)
    (hcon : ctx.nc.fConnected = true) (heq : ctx.ncService sent recv now = some (out, ctx')) :
    NcStep ctx hs (.nc sent recv now) out ctx' := by
  have hclose {ks : Multiset Handle} {code : ErrType}
      (hclosed : Closed ks (ctx.ncService sent recv now) code) :
      out = .closed code ∧ ctx'.nc.fConnected = false ∧
        Works ctx'.worksPq (add .ncConnect (ks.erase .ncKeepalive)) := by
    obtain ⟨ctx₁, hsome, hfalse, hpq⟩ := hclosed
    obtain ⟨rfl, rfl⟩ := Prod.mk.inj (Option.some.inj (hsome.symm.trans heq))
    exact ⟨rfl, hfalse, hpq⟩
  cases hwrite : ctx.nc.evWrite with
  | true =>
      obtain ⟨ring, hring⟩ := hok.ring hcon
      cases hempty : ring.empty with
      | true =>
          rw [ncService_empty hok hcon hwrite hring hempty] at heq
          obtain ⟨rfl, rfl⟩ := Prod.mk.inj (Option.some.inj heq)
          exact .empty hcon hring
      | false =>
          cases sent with
          | true =>
              rw [ncService_sent hok hcon hwrite hring hempty] at heq
              obtain ⟨rfl, rfl⟩ := Prod.mk.inj (Option.some.inj heq)
              exact .wrote hcon hwrite hring hempty
          | false =>
              obtain ⟨rfl, hclosed, hpq⟩ :=
                hclose (ncService_lost h hok hcon hwrite hring hempty recv now)
              exact .closed hcon hclosed hpq
  | false =>
      cases hread : ctx.readByte recv with
      | none =>
          obtain ⟨rfl, hclosed, hpq⟩ :=
            hclose (ncService_error h hok hcon hwrite hread sent now)
          exact .closed hcon hclosed hpq
      | some data =>
          by_cases hzero : data = 0
          · subst hzero
            have hreceipt : ctx.Receipt recv 0 := ⟨hcon, hwrite, hread, .inl rfl⟩
            by_cases hroom : (add .ncKeepalive hs).card < 8
            · obtain ⟨pq, hnotice, hpq⟩ :=
                ncService_notice h hok hcon hwrite hread hroom sent now
              obtain ⟨rfl, rfl⟩ := Prod.mk.inj (Option.some.inj (hnotice.symm.trans heq))
              exact .received hreceipt rfl hpq (Multiset.count_cons_of_ne (sessionStart_ne _) _)
            · obtain ⟨rfl, hclosed, hpq⟩ :=
                hclose (ncService_notice_full h hok hcon hwrite hread hroom sent now)
              exact .overrun hreceipt hroom hclosed hpq
          · by_cases hack : data = ctx.nc.msgindex
            · subst hack
              obtain ⟨pq, hacked, hpq⟩ := ncService_ack h hok hcon hwrite hread hzero sent now
              obtain ⟨rfl, rfl⟩ := Prod.mk.inj (Option.some.inj (hacked.symm.trans heq))
              exact .received ⟨hcon, hwrite, hread, .inr rfl⟩ rfl hpq rfl
            · obtain ⟨rfl, hclosed, hpq⟩ :=
                hclose (ncService_stray h hok hcon hwrite hread hzero hack sent now)
              exact .closed hcon hclosed hpq

theorem eq_of_map_swap {o : Option (Outcome × MtkContext)} {out : Outcome} {ctx' : MtkContext}
    (ho : o.map Prod.swap = some (ctx', out)) : o = some (out, ctx') := by
  obtain ⟨r, hr, hr'⟩ := Option.map_eq_some_iff.mp ho
  rw [hr, ← Prod.swap_swap r, hr']
  rfl

theorem phase_aside {p : Phase} {out : Outcome} {ctx' : MtkContext} (hp : p.apart = true)
    (heq : ctx.phase p = some (ctx', out)) : Aside ctx ctx' ∧ out.aside = true := by
  have hcall {o : Option (ErrType × MtkContext)} (haside : Leaves (Aside ctx) o)
      (ho : o.map (fun r => (r.2, Outcome.scheduled r.1)) = some (ctx', out)) :
      Aside ctx ctx' ∧ out.aside = true := by
    obtain ⟨⟨code, ctx₁⟩, hr, hr'⟩ := Option.map_eq_some_iff.mp ho
    obtain ⟨rfl, rfl⟩ := Prod.mk.inj hr'
    exact ⟨haside code ctx₁ hr, rfl⟩
  cases p with
  | ncStart us now => exact hcall (schedule_aside ncConnect_ne us now) heq
  | voicefileSend chunknum now => exact hcall (mtkVoicefileSend_aside chunknum now) heq
  | voicefileRecv fileid now => exact hcall (mtkVoicefileRecv_aside fileid now) heq
  | dc sent recv now =>
      cases hcon : ctx.dc.fConnected with
      | true =>
          rw [phase, if_pos hcon] at heq
          exact dcService_aside (eq_of_map_swap heq)
      | false =>
          rw [phase, hcon, if_neg Bool.false_ne_true] at heq
          obtain ⟨rfl, rfl⟩ := Prod.mk.inj (Option.some.inj heq)
          exact ⟨.refl ctx, rfl⟩
  | work connect built now => exact nomatch hp
  | timeout now => exact nomatch hp
  | nc sent recv now => exact nomatch hp

/-- **Any phase**, as the NOTICE connection sees it. -/
theorem phase_step {p : Phase} {out : Outcome} {ctx' : MtkContext} (h : Works ctx.worksPq hs)
    (hok : NcOk ctx.nc) (heq : ctx.phase p = some (ctx', out)) : NcStep ctx hs p out ctx' := by
  have hcall (hp : p.apart = true) : NcStep ctx hs p out ctx' := by
    obtain ⟨haside, hout⟩ := phase_aside hp heq
    exact .aside haside hout
  cases p with
  | ncStart us now => exact hcall rfl
  | voicefileSend chunknum now => exact hcall rfl
  | voicefileRecv fileid now => exact hcall rfl
  | dc sent recv now => exact hcall rfl
  | work connect built now => exact .work (serviceWork_step h hok (eq_of_map_swap heq))
  | timeout now =>
      have htimeout := eq_of_map_swap heq
      cases hover : ctx.nc.rwaitOver now with
      | false =>
          rw [adjustTimeout, hover, if_neg Bool.false_ne_true] at htimeout
          obtain ⟨rfl, rfl⟩ := Prod.mk.inj (Option.some.inj htimeout)
          exact .aside (.refl ctx) rfl
      | true =>
          have hcon := rwaitOver_connected hover
          by_cases hcnt : ctx.nc.rwait.maxcnt ≤ ctx.nc.rwait.timeoutCnt + 1
          · obtain ⟨ctx₁, hmax, hclosed, hpq⟩ := adjustTimeout_max h hok hover hcnt
            obtain ⟨rfl, rfl⟩ := Prod.mk.inj (Option.some.inj (hmax.symm.trans htimeout))
            exact .closed hcon hclosed hpq
          · obtain ⟨ring, hring⟩ := hok.ring hcon
            rw [adjustTimeout_again hover hring hcnt] at htimeout
            obtain ⟨rfl, rfl⟩ := Prod.mk.inj (Option.some.inj htimeout)
            exact .timedOut hcon hring
  | nc sent recv now =>
      cases hcon : ctx.nc.fConnected with
      | true =>
          rw [phase, if_pos hcon] at heq
          exact nc_step h hok hcon (eq_of_map_swap heq)
      | false =>
          rw [phase, hcon, if_neg Bool.false_ne_true] at heq
          obtain ⟨rfl, rfl⟩ := Prod.mk.inj (Option.some.inj heq)
          exact .aside (.refl ctx) rfl

theorem withRing_ok {c : MtkConnect UInt8} (h : NcOk c) (ring : Queue UInt8) :
    NcOk ((c.withRing ring).withWait 0 0) := h.congr rfl rfl (fun _ => ⟨ring, rfl⟩) rfl rfl

/-- No phase leaves an incomplete connection, or works that are not eight at most. -/
theorem NcStep.kept {p : Phase} {out : Outcome} {ctx' : MtkContext} (h : Works ctx.worksPq hs)
    (hok : NcOk ctx.nc) (hstep : NcStep ctx hs p out ctx') :
    NcOk ctx'.nc ∧ ∃ hs', Works ctx'.worksPq hs' := by
  cases hstep with
  | aside haside _ =>
      obtain ⟨hs', h', -⟩ := haside.works hs h
      exact ⟨haside.nc ▸ hok, hs', h'⟩
  | work hwork =>
      cases hwork with
      | aside haside _ =>
          obtain ⟨hs', h', -⟩ := haside.works hs h
          exact ⟨haside.nc ▸ hok, hs', h'⟩
      | beat _ hpq _ _ => exact ⟨hok.congr rfl rfl (fun _ => ⟨_, rfl⟩) rfl rfl, _, hpq⟩
      | late _ hpq _ => exact ⟨hok, _, hpq⟩
      | established _ hpq _ _ => exact ⟨ncEstablished_ok ctx.nc, _, hpq⟩
      | refused _ hpq _ _ _ => exact ⟨.of_not_connected (MtkConnect.release_fConnected _), _, hpq⟩
  | timedOut _ _ => exact ⟨hok.congr rfl rfl (fun _ => ⟨_, rfl⟩) rfl rfl, hs, h⟩
  | closed _ hclosed hpq => exact ⟨.of_not_connected hclosed, _, hpq⟩
  | empty _ _ => exact ⟨withRing_ok hok _, hs, h⟩
  | wrote _ _ _ _ => exact ⟨withRing_ok hok _, hs, h⟩
  | received _ hnc hpq _ =>
      rw [hnc]
      exact ⟨hok.congr rfl rfl hok.ring rfl rfl, _, hpq⟩
  | overrun _ _ hclosed hpq => exact ⟨.of_not_connected hclosed, _, hpq⟩

theorem init_ok : NcOk (MtkConnect.init : MtkConnect UInt8) := .of_not_connected rfl

theorem create_works : Works create.worksPq 0 := ⟨0, worksInit_holding, rfl⟩

end MtkContext

end Awoke.Mtk
