/-
What the functions of a context do to it.

The functions of the NOTICE connection are described exactly, each by one equation: what
they do to the connection, and what to the works pending.  Of the functions of the DATA
connection it is enough here that they stand aside (`Aside`): they leave the NOTICE
connection as it is, and the keepalives that are pending.
-/
import Awoke.Mtk.Client
import Awoke.Proofs.MtkWork

namespace Awoke.Mtk

/-- Nothing is written or received on the NOTICE connection, and no heartbeat is built. -/
def Outcome.aside : Outcome → Bool
  | .wrote _ | .received _ | .timedOut | .ran .ncKeepalive _ => false
  | _ => true

/-- Where a call has a result, the context it leaves has the property. -/
def Leaves {ε : Type} (P : MtkContext → Prop) (o : Option (ε × MtkContext)) : Prop :=
  ∀ r ctx', o = some (r, ctx') → P ctx'

section

variable {α ε : Type} {P : MtkContext → Prop}

theorem Leaves.none : Leaves (ε := ε) P Option.none := fun _ _ h => nomatch h

theorem Leaves.some {r : ε} {ctx : MtkContext} (h : P ctx) : Leaves P (Option.some (r, ctx)) := by
  intro r' ctx' heq
  rw [← (Prod.mk.inj (Option.some.inj heq)).2]
  exact h

theorem leaves_map {o : Option α} {f : α → ε × MtkContext} :
    Leaves P (o.map f) ↔ ∀ a ∈ o, P (f a).2 := by
  constructor
  · intro h a ha
    exact h (f a).1 (f a).2 (Option.map_eq_some_iff.mpr ⟨a, ha, rfl⟩)
  · intro h r ctx' heq
    obtain ⟨a, ha, hr⟩ := Option.map_eq_some_iff.mp heq
    rw [← show (f a).2 = ctx' from congrArg Prod.snd hr]
    exact h a ha

theorem leaves_bind {o : Option α} {g : α → Option (ε × MtkContext)} :
    Leaves P (o.bind g) ↔ ∀ a ∈ o, Leaves P (g a) := by
  constructor
  · intro h a ha r ctx' heq
    exact h r ctx' (Option.bind_eq_some_iff.mpr ⟨a, ha, heq⟩)
  · intro h r ctx' heq
    obtain ⟨a, ha, hga⟩ := Option.bind_eq_some_iff.mp heq
    exact h a ha r ctx' hga

end

namespace MtkContext

variable {ctx : MtkContext} {hs : Multiset Handle}

/-! ### Scheduling -/

theorem schedule_eq (ctx : MtkContext) (h : Works ctx.worksPq hs) (cb : Handle)
    (us now : UInt64) :
    ∃ pq, ctx.schedule cb us now = some (addCode hs, ctx.setWorks pq) ∧ Works pq (add cb hs) := by
  obtain ⟨pq, hsched, h'⟩ := h.schedule cb us now
  exact ⟨pq, by rw [schedule, hsched]; rfl, h'⟩

theorem keepaliveAgain_eq (ctx : MtkContext) (h : Works ctx.worksPq hs) (now : UInt64) :
    ∃ pq, ctx.keepaliveAgain now = some (ctx.setWorks pq) ∧ Works pq (add .ncKeepalive hs) := by
  obtain ⟨pq, hsched, h'⟩ := schedule_eq ctx h .ncKeepalive ctx.nc.kaTimeoutUs now
  exact ⟨pq, by rw [keepaliveAgain, hsched]; rfl, h'⟩

/-- A session to ask for a command, and its start. -/
def commandSession (ctx : MtkContext) : MtkContext := ctx.newSession (.create .getcmd 0 0)

/-- The start of the session that is created next. -/
def nextStart (ctx : MtkContext) : Handle := .sessionStart (ctx.sessionBaseid + 1)

theorem mtkSessionAdd_eq (ctx : MtkContext) (h : Works ctx.worksPq hs) (now : UInt64) :
    ∃ pq, ctx.mtkSessionAdd now = some (addCode hs, ctx.commandSession.setWorks pq) ∧
      Works pq (add ctx.nextStart hs) :=
  schedule_eq ctx.commandSession h _ _ now

/-! ### The NOTICE connection -/

theorem ncRelease_eq (ctx : MtkContext) (h : Works ctx.worksPq hs) (hctx : ctx.nc.hasContext = true)
    (now : UInt64) :
    ∃ pq, ctx.ncRelease now = some ((ctx.setWorks pq).setNc ctx.nc.release) ∧
      Works pq (add .ncConnect (hs.erase .ncKeepalive)) := by
  obtain ⟨pq, hdel, hdeleted⟩ := h.delete .ncKeepalive
  obtain ⟨pq', hsched, h'⟩ :=
    schedule_eq (ctx.setWorks pq) hdeleted .ncConnect (30 * usPerSec) now
  refine ⟨pq', ?_, h'⟩
  rw [ncRelease, if_pos hctx, ncClosed, hdel, Option.bind_some, hsched]
  rfl

theorem ncNoticeRecv_notice (ctx : MtkContext) (h : Works ctx.worksPq hs) (now : UInt64) :
    ∃ pq, ctx.ncNoticeRecv 0 now = some (addCode (add .ncKeepalive hs),
        ((ctx.setNc (ncNoticeIndex ctx.nc)).commandSession).setWorks pq) ∧
      Works pq (add ctx.nextStart (add .ncKeepalive hs)) := by
  obtain ⟨pq, hagain, hkeep⟩ :=
    keepaliveAgain_eq (ctx.setNc (ncNoticeIndex ctx.nc)) h now
  obtain ⟨pq', hadd, h'⟩ :=
    mtkSessionAdd_eq ((ctx.setNc (ncNoticeIndex ctx.nc)).setWorks pq) hkeep now
  refine ⟨pq', ?_, h'⟩
  rw [ncNoticeRecv, if_pos rfl, hagain, Option.bind_some, hadd]
  rfl

theorem ncNoticeRecv_ack (ctx : MtkContext) (h : Works ctx.worksPq hs)
    (hne : ctx.nc.msgindex ≠ 0) (now : UInt64) :
    ∃ pq, ctx.ncNoticeRecv ctx.nc.msgindex now =
        some (.etOk, (ctx.setNc (ncNoticeIndex ctx.nc)).setWorks pq) ∧
      Works pq (add .ncKeepalive hs) := by
  obtain ⟨pq, hagain, h'⟩ :=
    keepaliveAgain_eq (ctx.setNc (ncNoticeIndex ctx.nc)) h now
  refine ⟨pq, ?_, h'⟩
  rw [ncNoticeRecv, if_neg hne, if_neg (fun hno => hno rfl), hagain]
  rfl

theorem ncNoticeRecv_stray (ctx : MtkContext) {data : UInt8} (hne : data ≠ 0)
    (hstray : data ≠ ctx.nc.msgindex) (now : UInt64) :
    ctx.ncNoticeRecv data now = some (.etFail, ctx) := by
  rw [ncNoticeRecv, if_neg hne, if_pos hstray]

/-- `nc_keepalive` on a connection. -/
theorem ncKeepalive_eq (ctx : MtkContext) {ring : Queue UInt8} (hcon : ctx.nc.fConnected = true)
    (hring : ctx.nc.ring = some ring) :
    ctx.ncKeepalive = some (.etOk, ctx.setNc
      { ctx.nc with ring := some (ring.enq ctx.nc.msgindex).2, evWrite := true }) := by
  rw [ncKeepalive, if_pos hcon, ncBuildHeartbeat, MtkConnect.push, hring]
  rfl

/-- The NOTICE connection as it is established. -/
def ncEstablished (c : MtkConnect UInt8) : MtkConnect UInt8 :=
  ((c.prepare ncInfo).register).connected

theorem ncConnectViaInfo_ok (ctx : MtkContext) (h : Works ctx.worksPq hs)
    (hcon : ctx.nc.fConnected = false) (now : UInt64) :
    ∃ pq, ctx.ncConnectViaInfo .etOk now =
        some (.etOk, (ctx.setNc (ncEstablished ctx.nc)).setWorks pq) ∧
      Works pq (add .ncKeepalive hs) := by
  obtain ⟨pq, hagain, h'⟩ :=
    keepaliveAgain_eq (ctx.setNc (ctx.nc.prepare ncInfo).register) h now
  refine ⟨pq, ?_, h'⟩
  rw [ncConnectViaInfo, hcon, if_neg Bool.false_ne_true, if_pos rfl]
  show Option.map _ ((ctx.setNc (ctx.nc.prepare ncInfo).register).keepaliveAgain now) = _
  rw [hagain]
  rfl

theorem ncConnectViaInfo_failed (ctx : MtkContext) {connect : ErrType}
    (h : Works ctx.worksPq hs)
    (hcon : ctx.nc.fConnected = false) (hctx : ctx.nc.hasContext = true)
    (hfailed : connect ≠ .etOk) (now : UInt64) :
    ∃ pq, ctx.ncConnectViaInfo connect now =
        some (connect, (ctx.setWorks pq).setNc (ctx.nc.prepare ncInfo).release) ∧
      Works pq (add .ncConnect (hs.erase .ncKeepalive)) := by
  have hprepared : (ctx.setNc (ctx.nc.prepare ncInfo)).nc.hasContext = true := by
    rw [← hctx]
    rfl
  obtain ⟨pq, hrelease, h'⟩ := ncRelease_eq (ctx.setNc (ctx.nc.prepare ncInfo)) h hprepared now
  refine ⟨pq, ?_, h'⟩
  rw [ncConnectViaInfo, hcon, if_neg Bool.false_ne_true, if_neg hfailed]
  show Option.map _ ((ctx.setNc (ctx.nc.prepare ncInfo)).ncRelease now) = _
  rw [hrelease]
  rfl

/-! ### Standing aside -/

/-- The NOTICE connection is as it was, and as many keepalives are pending. -/
structure Aside (ctx ctx' : MtkContext) : Prop where
  nc : ctx'.nc = ctx.nc
  works : ∀ hs, Works ctx.worksPq hs → ∃ hs', Works ctx'.worksPq hs' ∧
    hs'.count .ncKeepalive = hs.count .ncKeepalive

theorem Aside.of_eq {ctx' : MtkContext} (hnc : ctx'.nc = ctx.nc)
    (hpq : ctx'.worksPq = ctx.worksPq) : Aside ctx ctx' :=
  ⟨hnc, fun hs h => ⟨hs, hpq ▸ h, rfl⟩⟩

theorem Aside.trans {a b c : MtkContext} (h : Aside a b) (h' : Aside b c) : Aside a c := by
  refine ⟨h'.nc.trans h.nc, fun hs hW => ?_⟩
  obtain ⟨hs₁, hW₁, hcount₁⟩ := h.works hs hW
  obtain ⟨hs₂, hW₂, hcount₂⟩ := h'.works hs₁ hW₁
  exact ⟨hs₂, hW₂, hcount₂.trans hcount₁⟩

theorem Aside.refl (ctx : MtkContext) : Aside ctx ctx := .of_eq rfl rfl

theorem dcConnect_ne : Handle.ncKeepalive ≠ .dcConnect := nofun

theorem sessionStart_ne (ss : Nat) : Handle.ncKeepalive ≠ .sessionStart ss := nofun

theorem schedule_aside {cb : Handle} (hcb : .ncKeepalive ≠ cb) (us now : UInt64) :
    Leaves (Aside ctx) (ctx.schedule cb us now) := by
  intro code ctx' heq
  refine ⟨?_, fun hs h => ?_⟩
  · obtain ⟨r, -, hr⟩ := Option.map_eq_some_iff.mp heq
    rw [← (Prod.mk.inj hr).2]
    rfl
  · obtain ⟨pq, hsched, h'⟩ := schedule_eq ctx h cb us now
    obtain ⟨-, rfl⟩ := Prod.mk.inj (Option.some.inj (hsched.symm.trans heq))
    exact ⟨_, h', count_add_of_ne hcb hs⟩

theorem schedule_aside_of {ctx₁ : MtkContext} (hnc : ctx₁.nc = ctx.nc)
    (hpq : ctx₁.worksPq = ctx.worksPq) {cb : Handle} (hcb : .ncKeepalive ≠ cb) (us now : UInt64) :
    Leaves (Aside ctx) (ctx₁.schedule cb us now) :=
  fun code ctx' heq => (Aside.of_eq hnc hpq).trans (schedule_aside hcb us now code ctx' heq)

theorem mtkVoicefileRecv_aside (fileid : UInt32) (now : UInt64) :
    Leaves (Aside ctx) (ctx.mtkVoicefileRecv fileid now) := by
  unfold mtkVoicefileRecv
  refine schedule_aside_of ?_ ?_ (sessionStart_ne _) _ now <;> rfl

theorem mtkVoicefileSend_aside (chunknum : UInt16) (now : UInt64) :
    Leaves (Aside ctx) (ctx.mtkVoicefileSend chunknum now) := by
  unfold mtkVoicefileSend
  refine schedule_aside_of ?_ ?_ (sessionStart_ne _) _ now <;> rfl

theorem mtkSessionStart_aside (ss : Nat) (now : UInt64) :
    Leaves (Aside ctx) (ctx.mtkSessionStart ss now) := by
  unfold mtkSessionStart
  split
  · exact .none
  · refine schedule_aside_of ?_ ?_ dcConnect_ne _ now <;> rfl
  · split
    · exact .none
    split
    · exact schedule_aside dcConnect_ne _ now
    split
    · exact schedule_aside (sessionStart_ne ss) _ now
    · refine schedule_aside_of ?_ ?_ dcConnect_ne _ now <;> rfl

theorem sessionDel_aside (ctx : MtkContext) : Aside ctx ctx.sessionDel := by
  unfold sessionDel
  split
  · exact .refl ctx
  · exact .of_eq rfl rfl

theorem request_aside {failed : MtkContext} (hfailed : Aside ctx failed) (ss : Nat)
    (s : MtkSession) (built : ErrType) : Leaves (Aside ctx) (ctx.request ss s built failed) := by
  unfold request
  split
  · refine leaves_map.mpr fun dc _ => ?_
    exact .of_eq rfl rfl
  · exact .some hfailed

theorem reqProcess_aside (ss : Nat) (built : ErrType) :
    Leaves (Aside ctx) (ctx.reqProcess ss built) := by
  unfold reqProcess
  split
  · exact .none
  · split
    · exact request_aside (sessionDel_aside ctx) ss _ built
    · exact request_aside (sessionDel_aside ctx) ss _ built
    · exact request_aside (.refl ctx) ss _ built

theorem nextChunk_aside (ss : Nat) (s : MtkSession) (now : UInt64) :
    Leaves (Aside ctx) (ctx.nextChunk ss s now) := by
  unfold nextChunk
  refine schedule_aside_of ?_ ?_ (sessionStart_ne ss) _ now <;> rfl

theorem chunkrecvResponse_aside (ss : Nat) (s : MtkSession) (rsp : Cells UInt8) (len : UInt16)
    (merge : ErrType) (now : UInt64) :
    Leaves (Aside ctx) (ctx.chunkrecvResponse ss s rsp len merge now) := by
  have hdel := sessionDel_aside ctx
  unfold chunkrecvResponse
  split
  · exact .some hdel
  dsimp only
  split
  · exact .some hdel
  split
  · exact .none
  split
  · exact .some hdel
  split
  · exact nextChunk_aside ss _ now
  split
  · exact .some (.of_eq rfl rfl)
  · exact .some hdel

theorem chunksendResponse_aside (ss : Nat) (s : MtkSession) (rsp : Cells UInt8) (now : UInt64) :
    Leaves (Aside ctx) (ctx.chunksendResponse ss s rsp now) := by
  have hfinish : Aside ctx (ctx.finish ss s) := .of_eq rfl rfl
  unfold chunksendResponse
  dsimp only
  split
  · exact .some hfinish
  split
  · exact .some hfinish
  split
  · exact .some hfinish
  split
  · exact nextChunk_aside ss s now
  · exact .some (.of_eq rfl rfl)

theorem getcmdResponse_aside (ss : Nat) (s : MtkSession) (rsp : Cells UInt8) (len : UInt16)
    (now : UInt64) : Leaves (Aside ctx) (ctx.getcmdResponse ss s rsp len now) := by
  unfold getcmdResponse
  dsimp only
  split
  · exact .some (.refl ctx)
  split
  · refine leaves_map.mpr fun ⟨code₁, ctx₁⟩ hrecv => ?_
    exact (mtkVoicefileRecv_aside _ now code₁ ctx₁ hrecv).trans (.of_eq rfl rfl)
  · exact .some (.of_eq rfl rfl)

theorem dcResponseRecv_aside (rsp : Cells UInt8) (merge : ErrType) (now : UInt64) :
    Leaves (Aside ctx) (ctx.dcResponseRecv rsp merge now) := by
  unfold dcResponseRecv
  split
  · exact .some (.refl ctx)
  split
  · exact .some (.refl ctx)
  split
  · exact .some (.refl ctx)
  · unfold rspProcess
    split
    · exact .none
    split
    · exact chunkrecvResponse_aside _ _ _ _ _ _
    · exact chunksendResponse_aside _ _ _ _
    · exact getcmdResponse_aside _ _ _ _ _

theorem dcRelease_aside {ctx' : MtkContext} (h : ctx.dcRelease = some ctx') : Aside ctx ctx' := by
  unfold dcRelease at h
  dsimp only at h
  split at h
  · split at h
    · rw [← Option.some.inj h]
      exact .of_eq rfl rfl
    · obtain ⟨s, -, rfl⟩ := Option.map_eq_some_iff.mp h
      split
      · exact .of_eq rfl rfl
      · exact .of_eq rfl rfl
  · cases h

theorem dcEstablished_aside {built : ErrType} {ctx' : MtkContext}
    (h : ctx.dcEstablished built = some ctx') : Aside ctx ctx' := by
  unfold dcEstablished at h
  split at h
  · rw [← Option.some.inj h]
    exact .refl ctx
  · obtain ⟨⟨code, ctx₁⟩, hreq, rfl⟩ := Option.map_eq_some_iff.mp h
    exact reqProcess_aside _ built code ctx₁ hreq

theorem mtkDcConnect_aside (connect built : ErrType) :
    Leaves (Aside ctx) (ctx.mtkDcConnect connect built) := by
  have hdc (c : MtkConnect MtkRequestMsg) : Aside ctx (ctx.setDc c) := .of_eq rfl rfl
  have hvia : Leaves (Aside ctx) (ctx.dcConnectViaInfo connect built) := by
    unfold dcConnectViaInfo
    split
    · exact .some (.refl ctx)
    dsimp only
    split
    · refine leaves_map.mpr fun ctx₁ hest => ?_
      exact ((hdc _).trans (dcEstablished_aside hest)).trans (.of_eq rfl rfl)
    · refine leaves_map.mpr fun ctx₁ hrelease => ?_
      exact (hdc _).trans (dcRelease_aside hrelease)
  refine leaves_map.mpr fun ⟨ret, ctx₁⟩ hvia' => ?_
  have haside := hvia ret ctx₁ hvia'
  dsimp only
  split
  · exact haside
  split
  · exact haside
  · exact haside

theorem shortLinkRead_aside {sent : Bool} {recv : DcRecv} {now : UInt64} {ret : ErrType}
    {out : Outcome} {ctx' : MtkContext}
    (heq : ctx.shortLinkRead sent recv now = some (ret, out, ctx')) :
    Aside ctx ctx' ∧ out.aside = true := by
  unfold shortLinkRead at heq
  split at heq
  · obtain ⟨⟨ret', msg, c⟩, -, hr⟩ := Option.map_eq_some_iff.mp heq
    obtain ⟨-, hr⟩ := Prod.mk.inj hr
    obtain ⟨rfl, rfl⟩ := Prod.mk.inj hr
    refine ⟨.of_eq rfl rfl, ?_⟩
    cases msg with
    | none => rfl
    | some msg => rfl
  split at heq
  · obtain ⟨-, hr⟩ := Prod.mk.inj (Option.some.inj heq)
    obtain ⟨rfl, rfl⟩ := Prod.mk.inj hr
    exact ⟨.refl ctx, rfl⟩
  split at heq
  · obtain ⟨-, hr⟩ := Prod.mk.inj (Option.some.inj heq)
    obtain ⟨rfl, rfl⟩ := Prod.mk.inj hr
    exact ⟨.of_eq rfl rfl, rfl⟩
  · obtain ⟨⟨code, ctx₁⟩, hrecv, hr⟩ := Option.bind_eq_some_iff.mp heq
    have hresponse := dcResponseRecv_aside _ _ now code ctx₁ hrecv
    dsimp only at hr
    split at hr
    · obtain ⟨-, hr⟩ := Prod.mk.inj (Option.some.inj hr)
      obtain ⟨rfl, rfl⟩ := Prod.mk.inj hr
      exact ⟨hresponse, rfl⟩
    · obtain ⟨ctx₂, hrelease, hr⟩ := Option.map_eq_some_iff.mp hr
      obtain ⟨-, hr⟩ := Prod.mk.inj hr
      obtain ⟨rfl, rfl⟩ := Prod.mk.inj hr
      exact ⟨hresponse.trans (dcRelease_aside hrelease), rfl⟩

theorem dcService_aside {sent : Bool} {recv : DcRecv} {now : UInt64} {out : Outcome}
    {ctx' : MtkContext} (heq : ctx.dcService sent recv now = some (out, ctx')) :
    Aside ctx ctx' ∧ out.aside = true := by
  obtain ⟨⟨ret, out₁, ctx₁⟩, hread, hr⟩ := Option.bind_eq_some_iff.mp heq
  obtain ⟨haside, hout⟩ := shortLinkRead_aside hread
  dsimp only at hr
  split at hr
  · obtain ⟨rfl, rfl⟩ := Prod.mk.inj (Option.some.inj hr)
    exact ⟨haside.trans (.of_eq rfl rfl), hout⟩
  · obtain ⟨ctx₂, hrelease, hr⟩ := Option.map_eq_some_iff.mp hr
    obtain ⟨rfl, rfl⟩ := Prod.mk.inj hr
    exact ⟨haside.trans (dcRelease_aside hrelease), rfl⟩

end MtkContext

end Awoke.Mtk
