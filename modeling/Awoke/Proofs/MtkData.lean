/-
What a phase does to the DATA connection and the session installed there.

The functions of the NOTICE connection leave both as they are (`Beside`), and of the works
pending they take out keepalives alone.  A DATA connection that is connected is complete
(`DcOk`), and it never has a keepalive or a receive timeout: a response releases it.
-/
import Awoke.Proofs.MtkPhase

namespace Awoke.Mtk

/-- A phase beside the DATA connection: a call, or what concerns the other connection. -/
def Phase.beside : Phase → Bool
  | .work _ _ _ | .dc _ _ _ => false
  | _ => true

/-- What a DATA connection has. -/
structure DcOk (c : MtkConnect MtkRequestMsg) : Prop where
  fKeepalive : c.fKeepalive = false
  fRwaitTimeout : c.fRwaitTimeout = false
  hasContext : c.fConnected = true → c.hasContext = true
  ring : c.fConnected = true → ∃ ring, c.ring = some ring

/-! ### The connection -/

variable {c : MtkConnect MtkRequestMsg}

open MtkContext (dcInfo)

theorem prepare_dcInfo (c : MtkConnect MtkRequestMsg) :
    c.prepare dcInfo = { c with kaTimeoutUs := 0, ring := some MtkConnect.newRing } := rfl

theorem DcOk.registered (h : DcOk c) :
    DcOk (c.prepare dcInfo).register.connected := by
  rw [prepare_dcInfo]
  exact ⟨h.fKeepalive, h.fRwaitTimeout, fun _ => rfl, fun _ => ⟨_, rfl⟩⟩

theorem release_ok (c : MtkConnect MtkRequestMsg) : DcOk c.release := by
  have hclosed : c.release.fConnected = false := c.release_fConnected
  have hflag : c.release.fRwaitTimeout = false ∧ c.release.fKeepalive = false := by
    unfold MtkConnect.release MtkConnect.rwaitClean
    dsimp only
    split
    · exact ⟨rfl, rfl⟩
    · next hflag => exact ⟨Bool.eq_false_of_not_eq_true hflag, rfl⟩
  exact ⟨hflag.2, hflag.1, fun hc => absurd (hclosed.symm.trans hc) nofun,
    fun hc => absurd (hclosed.symm.trans hc) nofun⟩

theorem DcOk.withRing (h : DcOk c) (ring : Queue MtkRequestMsg) : DcOk (c.withRing ring) :=
  ⟨h.fKeepalive, h.fRwaitTimeout, h.hasContext, fun _ => ⟨ring, rfl⟩⟩

theorem DcOk.sentOne (h : DcOk c) (ring : Queue MtkRequestMsg) (now : UInt64) :
    c.sentOne ring now = c.withRing ring.deq.2.2 := by
  have hflag : ¬c.fRwaitTimeout = true :=
    ne_true_of_eq_false h.fRwaitTimeout
  unfold MtkConnect.sentOne MtkConnect.withRing
  dsimp only
  rw [if_neg hflag]
  cases ring.deq.2.2.empty <;> rfl

/-- The connection has perhaps more to write. -/
structure Fed (c c' : MtkConnect MtkRequestMsg) : Prop where
  fKeepalive : c'.fKeepalive = c.fKeepalive
  fRwaitTimeout : c'.fRwaitTimeout = c.fRwaitTimeout
  hasContext : c'.hasContext = c.hasContext
  ring : (∃ ring, c.ring = some ring) → ∃ ring, c'.ring = some ring

theorem Fed.refl (c : MtkConnect MtkRequestMsg) : Fed c c := ⟨rfl, rfl, rfl, id⟩

theorem DcOk.fed {c' : MtkConnect MtkRequestMsg} (h : DcOk c.connected) (hfed : Fed c c') :
    DcOk c'.connected :=
  ⟨hfed.fKeepalive.trans h.fKeepalive, hfed.fRwaitTimeout.trans h.fRwaitTimeout,
    fun _ => hfed.hasContext.trans (h.hasContext rfl), fun _ => hfed.ring (h.ring rfl)⟩

namespace MtkContext

variable {ctx ctx' : MtkContext} {hs : Multiset Handle}

/-! ### Beside the DATA connection -/

/-- The DATA connection and the session installed are as they were, and only keepalives
are no longer pending. -/
structure Beside (ctx ctx' : MtkContext) : Prop where
  dc : ctx'.dc = ctx.dc
  session : ctx'.session = ctx.session
  works : ∀ hs, Works ctx.worksPq hs →
    ∃ hs', Works ctx'.worksPq hs' ∧ ∀ cb ∈ hs, cb ≠ .ncKeepalive → cb ∈ hs'

theorem Beside.of_eq (hdc : ctx'.dc = ctx.dc) (hsession : ctx'.session = ctx.session)
    (hpq : ctx'.worksPq = ctx.worksPq) : Beside ctx ctx' :=
  ⟨hdc, hsession, fun hs h => ⟨hs, hpq ▸ h, fun _ hcb _ => hcb⟩⟩

theorem Beside.refl (ctx : MtkContext) : Beside ctx ctx := .of_eq rfl rfl rfl

theorem Beside.trans {a b c : MtkContext} (h : Beside a b) (h' : Beside b c) : Beside a c := by
  refine ⟨h'.dc.trans h.dc, h'.session.trans h.session, fun hs hW => ?_⟩
  obtain ⟨hs₁, hW₁, hmem₁⟩ := h.works hs hW
  obtain ⟨hs₂, hW₂, hmem₂⟩ := h'.works hs₁ hW₁
  exact ⟨hs₂, hW₂, fun cb hcb hne => hmem₂ cb (hmem₁ cb hcb hne) hne⟩

theorem setNc_beside (ctx : MtkContext) (c : MtkConnect UInt8) : Beside ctx (ctx.setNc c) :=
  .of_eq rfl rfl rfl

theorem withRx_beside (ctx : MtkContext) (data : UInt8) (full : Bool) :
    Beside ctx (ctx.withRx data full) := .of_eq rfl rfl rfl

theorem schedule_beside (ctx : MtkContext) (cb : Handle) (us now : UInt64) :
    Leaves (Beside ctx) (ctx.schedule cb us now) := by
  intro code ctx' heq
  have hkept : ctx'.dc = ctx.dc ∧ ctx'.session = ctx.session := by
    obtain ⟨r, -, hr⟩ := Option.map_eq_some_iff.mp heq
    rw [← (Prod.mk.inj hr).2]
    exact ⟨rfl, rfl⟩
  refine ⟨hkept.1, hkept.2, fun hs h => ?_⟩
  obtain ⟨pq, hsched, h'⟩ := schedule_eq ctx h cb us now
  obtain ⟨-, rfl⟩ := Prod.mk.inj (Option.some.inj (hsched.symm.trans heq))
  exact ⟨_, h', fun _ hcb _ => Multiset.mem_of_subset (subset_add cb hs) hcb⟩

theorem newSession_beside (ctx : MtkContext) (s : MtkSession) : Beside ctx (ctx.newSession s) :=
  .of_eq rfl rfl rfl

theorem mtkSessionAdd_beside (ctx : MtkContext) (now : UInt64) :
    Leaves (Beside ctx) (ctx.mtkSessionAdd now) := fun code ctx' heq =>
  (newSession_beside ctx _).trans (schedule_beside _ _ _ now code ctx' heq)

theorem mtkVoicefileRecv_beside (ctx : MtkContext) (fileid : UInt32) (now : UInt64) :
    Leaves (Beside ctx) (ctx.mtkVoicefileRecv fileid now) := fun code ctx' heq =>
  (newSession_beside ctx _).trans (schedule_beside _ _ _ now code ctx' heq)

theorem mtkVoicefileSend_beside (ctx : MtkContext) (chunknum : UInt16) (now : UInt64) :
    Leaves (Beside ctx) (ctx.mtkVoicefileSend chunknum now) := fun code ctx' heq =>
  (newSession_beside ctx _).trans (schedule_beside _ _ _ now code ctx' heq)

theorem keepaliveAgain_beside {now : UInt64} (heq : ctx.keepaliveAgain now = some ctx') :
    Beside ctx ctx' := by
  obtain ⟨⟨code, ctx₁⟩, hsched, rfl⟩ := Option.map_eq_some_iff.mp heq
  exact schedule_beside ctx _ _ now code ctx₁ hsched

theorem ncNoticeRecv_beside (ctx : MtkContext) (data : UInt8) (now : UInt64) :
    Leaves (Beside ctx) (ctx.ncNoticeRecv data now) := by
  have hindex : Beside ctx (ctx.setNc (ncNoticeIndex ctx.nc)) := setNc_beside ctx _
  unfold ncNoticeRecv
  split
  · refine leaves_bind.mpr fun ctx₁ hagain code ctx' hadd => ?_
    exact (hindex.trans (keepaliveAgain_beside hagain)).trans
      (mtkSessionAdd_beside ctx₁ now code ctx' hadd)
  split
  · exact .some (.refl ctx)
  · refine leaves_map.mpr fun ctx₁ hagain => ?_
    exact hindex.trans (keepaliveAgain_beside hagain)

theorem ncClosed_beside {now : UInt64} (heq : ctx.ncClosed now = some ctx') :
    Beside ctx ctx' := by
  obtain ⟨pq, hdel, hagain⟩ := Option.bind_eq_some_iff.mp heq
  obtain ⟨⟨code, ctx₁⟩, hsched, rfl⟩ := Option.map_eq_some_iff.mp hagain
  have hdeleted : Beside ctx (ctx.setWorks pq) := by
    refine ⟨rfl, rfl, fun hs h => ?_⟩
    obtain ⟨pq', hdel', h'⟩ := h.delete .ncKeepalive
    obtain rfl := Option.some.inj (hdel'.symm.trans hdel)
    exact ⟨_, h', fun cb hcb hne => (Multiset.mem_erase_of_ne hne).mpr hcb⟩
  exact hdeleted.trans (schedule_beside _ _ _ now code ctx₁ hsched)

theorem ncRelease_beside {now : UInt64} (heq : ctx.ncRelease now = some ctx') :
    Beside ctx ctx' := by
  unfold ncRelease at heq
  split at heq
  · obtain ⟨ctx₁, hclosed, rfl⟩ := Option.map_eq_some_iff.mp heq
    exact (ncClosed_beside hclosed).trans (setNc_beside ctx₁ _)
  · exact nomatch heq

theorem ncConnectViaInfo_beside (ctx : MtkContext) (connect : ErrType) (now : UInt64) :
    Leaves (Beside ctx) (ctx.ncConnectViaInfo connect now) := by
  unfold ncConnectViaInfo
  split
  · exact .some (.refl ctx)
  dsimp only
  split
  · refine leaves_map.mpr fun ctx₁ hagain => ?_
    exact ((setNc_beside ctx _).trans ((setNc_beside _ _).trans
      (keepaliveAgain_beside hagain))).trans (setNc_beside ctx₁ _)
  · refine leaves_map.mpr fun ctx₁ hrelease => ?_
    exact (setNc_beside ctx _).trans (ncRelease_beside hrelease)

theorem mtkNcConnect_beside (ctx : MtkContext) (connect : ErrType) (now : UInt64) :
    Leaves (Beside ctx) (ctx.mtkNcConnect connect now) := by
  refine leaves_bind.mpr fun ⟨ret, ctx₁⟩ hvia => ?_
  have hbeside := ncConnectViaInfo_beside ctx connect now ret ctx₁ hvia
  dsimp only
  split
  · exact .some hbeside
  · refine leaves_map.mpr fun ⟨ret', ctx₂⟩ hsched => ?_
    exact hbeside.trans (schedule_beside ctx₁ _ _ now ret' ctx₂ hsched)

theorem ncKeepalive_beside (ctx : MtkContext) : Leaves (Beside ctx) ctx.ncKeepalive := by
  unfold ncKeepalive
  split
  · refine leaves_map.mpr fun c _ => ?_
    exact setNc_beside ctx _
  · exact .some (.refl ctx)

theorem lightLinkRead_beside {sent : Bool} {recv : NcRecv} {now : UInt64} {ret : ErrType}
    {out : Outcome} (heq : ctx.lightLinkRead sent recv now = some (ret, out, ctx')) :
    Beside ctx ctx' := by
  unfold lightLinkRead at heq
  split at heq
  · obtain ⟨r, -, hr⟩ := Option.map_eq_some_iff.mp heq
    rw [← (Prod.mk.inj (Prod.mk.inj hr).2).2]
    exact setNc_beside ctx _
  split at heq
  · obtain ⟨⟨code, ctx₁⟩, hrecv, hr⟩ := Option.map_eq_some_iff.mp heq
    rw [← (Prod.mk.inj (Prod.mk.inj hr).2).2]
    exact ncNoticeRecv_beside ctx _ now code ctx₁ hrecv
  split at heq
  · rw [← (Prod.mk.inj (Prod.mk.inj (Option.some.inj heq)).2).2]
    exact .refl ctx
  · obtain ⟨⟨code, ctx₁⟩, hrecv, hr⟩ := Option.map_eq_some_iff.mp heq
    rw [← (Prod.mk.inj (Prod.mk.inj hr).2).2]
    exact ncNoticeRecv_beside ctx _ now code ctx₁ hrecv
  · obtain ⟨⟨code, ctx₁⟩, hrecv, hr⟩ := Option.map_eq_some_iff.mp heq
    rw [← (Prod.mk.inj (Prod.mk.inj hr).2).2]
    exact (withRx_beside ctx _ _).trans (ncNoticeRecv_beside _ _ now code ctx₁ hrecv)
  · obtain ⟨⟨code, ctx₁⟩, hrecv, hr⟩ := Option.map_eq_some_iff.mp heq
    rw [← (Prod.mk.inj (Prod.mk.inj hr).2).2]
    exact (withRx_beside ctx _ _).trans (ncNoticeRecv_beside _ _ now code ctx₁ hrecv)

theorem ncService_beside (ctx : MtkContext) (sent : Bool) (recv : NcRecv) (now : UInt64) :
    Leaves (Beside ctx) (ctx.ncService sent recv now) := by
  refine leaves_bind.mpr fun ⟨ret, out, ctx₁⟩ hread => ?_
  have hbeside := lightLinkRead_beside hread
  dsimp only
  split
  · exact .some (hbeside.trans (.of_eq rfl rfl rfl))
  · refine leaves_map.mpr fun ctx₂ hrelease => ?_
    exact hbeside.trans (ncRelease_beside hrelease)

theorem adjustTimeout_beside (ctx : MtkContext) (us : UInt64) :
    Leaves (Beside ctx) (ctx.adjustTimeout us) := by
  unfold adjustTimeout
  split
  · dsimp only
    split
    · refine leaves_map.mpr fun ctx₁ hrelease => ?_
      exact (setNc_beside ctx _).trans (ncRelease_beside hrelease)
    · refine leaves_map.mpr fun c _ => ?_
      exact setNc_beside ctx _
  · exact .some (.refl ctx)

/-! ### Releasing -/

theorem dcRelease_none (hctx : ctx.dc.hasContext = true) (hnone : ctx.session = none) :
    ctx.dcRelease = some (ctx.setDc ctx.dc.release) := by
  unfold dcRelease
  rw [if_pos hctx]
  dsimp only
  have hnone' : (ctx.setDc ctx.dc.release).session = none := hnone
  rw [hnone']

theorem dcRelease_some (hctx : ctx.dc.hasContext = true) {ss : Nat}
    (hss : ctx.session = some ss) :
    ctx.dcRelease = (ctx.sessions ss).map fun s =>
      if s.state = .fin then (ctx.setDc ctx.dc.release).freeSession ss
      else ctx.setDc ctx.dc.release := by
  unfold dcRelease
  rw [if_pos hctx]
  dsimp only
  have hss' : (ctx.setDc ctx.dc.release).session = some ss := hss
  rw [hss']
  rfl

theorem dcRelease_dc {ctx' : MtkContext} (heq : ctx.dcRelease = some ctx') :
    ctx'.dc = ctx.dc.release := by
  unfold dcRelease at heq
  split at heq
  · dsimp only at heq
    split at heq
    · rw [← Option.some.inj heq]
      rfl
    · obtain ⟨s, -, rfl⟩ := Option.map_eq_some_iff.mp heq
      split <;> rfl
  · cases heq

/-! ### A response -/

/-- A response that is not the last one of its session: the session asks for the next chunk,
or sends it. -/
def Continues (s : MtkSession) (rsp : Cells UInt8) : Prop :=
  match s.kind with
  | .chunkrecv =>
      let s := openChunks s rsp
      let held := s.chunkPq.getD 0
      rsp 3 = 0 ∧ held ≠ s.chunknum.toNat ∧ 9 < rspLen rsp ∧ held + 1 ≠ s.chunknum.toNat
  | .chunksend => rsp 3 = 0 ∧ s.index.toNat + 1 ≠ s.chunknum.toNat
  | .getcmd => False

/-- What a response does to the session that is installed. -/
inductive Responds (ctx : MtkContext) (hs : Multiset Handle) (ss : Nat) (s : MtkSession)
    (rsp : Cells UInt8) : MtkContext → Prop
  /-- The session is freed. -/
  | dropped : Responds ctx hs ss s rsp ctx.sessionDel
  /-- The session is over. -/
  | finished {ctx' : MtkContext} {s' : MtkSession} (hdc : ctx'.dc = ctx.dc)
      (hsession : ctx'.session = ctx.session) (hs' : ctx'.sessions ss = some s')
      (hfin : s'.state = .fin) : Responds ctx hs ss s rsp ctx'
  /-- The session is to be started again. -/
  | continued {s' : MtkSession} {pq : WorksPq} (hcont : Continues s rsp)
      (hpq : Works pq (add (.sessionStart ss) hs)) (hreq : s'.state = .req) :
      Responds ctx hs ss s rsp ((ctx.setSession ss s').setWorks pq)

theorem nextChunk_eq (h : Works ctx.worksPq hs) (ss : Nat) (s : MtkSession) (now : UInt64) :
    ∃ s' pq, ctx.nextChunk ss s now = some (addCode hs, (ctx.setSession ss s').setWorks pq) ∧
      s'.state = .req ∧ Works pq (add (.sessionStart ss) hs) := by
  obtain ⟨pq, hsched, h'⟩ :=
    schedule_eq (ctx.setSession ss { s with index := s.index + 1, state := .req }) h
      (.sessionStart ss) (1 * usPerMs) now
  exact ⟨_, pq, hsched, rfl, h'⟩

theorem finish_responds {ss : Nat} {s s₀ : MtkSession} {rsp : Cells UInt8} :
    Responds ctx hs ss s₀ rsp (ctx.finish ss s) :=
  .finished rfl rfl (Function.update_self _ _ _) rfl

theorem chunkrecvResponse_responds (h : Works ctx.worksPq hs) {ss : Nat} {s : MtkSession}
    (hkind : s.kind = .chunkrecv) (rsp : Cells UInt8) (merge : ErrType) (now : UInt64) :
    Leaves (Responds ctx hs ss s rsp)
      (ctx.chunkrecvResponse ss s rsp (rspLen rsp) merge now) := by
  unfold chunkrecvResponse
  split
  · exact .some .dropped
  next hcode =>
  dsimp only
  split
  · exact .some .dropped
  next hfull =>
  split
  · exact .none
  next hshort =>
  split
  · exact .some .dropped
  next hempty =>
  split
  · next hmore =>
    obtain ⟨s', pq, hnext, hreq, hpq⟩ := nextChunk_eq h ss
      { openChunks s rsp with chunkPq := some ((openChunks s rsp).chunkPq.getD 0 + 1) } now
    rw [hnext]
    refine .some (.continued ?_ hpq hreq)
    unfold Continues
    rw [hkind]
    refine ⟨Decidable.not_not.mp hcode, hfull, ?_, hmore⟩
    exact UInt16.lt_of_le_of_ne (UInt16.not_lt.mp hshort) (Ne.symm hempty)
  · split
    · exact .some finish_responds
    · exact .some .dropped

theorem chunksendResponse_responds (h : Works ctx.worksPq hs) {ss : Nat} {s : MtkSession}
    (hkind : s.kind = .chunksend) (rsp : Cells UInt8) (now : UInt64) :
    Leaves (Responds ctx hs ss s rsp) (ctx.chunksendResponse ss s rsp now) := by
  unfold chunksendResponse
  dsimp only
  split
  · exact .some finish_responds
  next hlast =>
  split
  · exact .some finish_responds
  split
  · exact .some finish_responds
  split
  · next hcode =>
    obtain ⟨s', pq, hnext, hreq, hpq⟩ := nextChunk_eq h ss s now
    rw [hnext]
    refine .some (.continued ?_ hpq hreq)
    unfold Continues
    rw [hkind]
    refine ⟨hcode, fun hidx => hlast ⟨hidx, ?_⟩⟩
    rw [hcode]
    decide
  · exact .some (.finished rfl rfl (Function.update_self _ _ _) rfl)

theorem getcmdResponse_responds {ss : Nat} {s : MtkSession} {rsp : Cells UInt8} {len : UInt16}
    (hlen : len ≠ 0) (now : UInt64) :
    Leaves (Responds ctx hs ss s rsp) (ctx.getcmdResponse ss s rsp len now) := by
  unfold getcmdResponse
  rw [if_neg hlen]
  dsimp only
  split
  · refine leaves_map.mpr fun ⟨code', ctx₁⟩ hrecv => ?_
    have hbeside := mtkVoicefileRecv_beside ctx _ now code' ctx₁ hrecv
    exact .finished hbeside.dc hbeside.session (Function.update_self _ _ _) rfl
  · exact .some finish_responds

/-- **A response with data**, to the session installed. -/
theorem rspProcess_responds (h : Works ctx.worksPq hs) {ss : Nat} {s : MtkSession}
    (hs' : ctx.sessions ss = some s) {rsp : Cells UInt8} (hlen : rspLen rsp ≠ 0)
    (merge : ErrType) (now : UInt64) :
    Leaves (Responds ctx hs ss s rsp) (ctx.rspProcess ss rsp (rspLen rsp) merge now) := by
  unfold rspProcess
  rw [hs']
  dsimp only
  split
  · next hkind => exact chunkrecvResponse_responds h hkind rsp merge now
  · next hkind => exact chunksendResponse_responds h hkind rsp now
  · exact getcmdResponse_responds hlen now

/-- A response that continues the exchange schedules the session. -/
theorem rspProcess_continues (h : Works ctx.worksPq hs) {ss : Nat} {s : MtkSession}
    (hs' : ctx.sessions ss = some s) {rsp : Cells UInt8} (hcont : Continues s rsp)
    (merge : ErrType) (now : UInt64) :
    ∃ s' pq, ctx.rspProcess ss rsp (rspLen rsp) merge now =
        some (addCode hs, (ctx.setSession ss s').setWorks pq) ∧
      s'.state = .req ∧ Works pq (add (.sessionStart ss) hs) := by
  unfold rspProcess
  rw [hs']
  dsimp only
  unfold Continues at hcont
  cases hkind : s.kind with
  | chunkrecv =>
      rw [hkind] at hcont
      obtain ⟨hcode, hfull, hlong, hmore⟩ := hcont
      obtain ⟨s', pq, hnext, hreq, hpq⟩ := nextChunk_eq h ss
        { openChunks s rsp with chunkPq := some ((openChunks s rsp).chunkPq.getD 0 + 1) } now
      refine ⟨s', pq, ?_, hreq, hpq⟩
      dsimp only
      unfold chunkrecvResponse
      rw [if_neg (fun hno => hno hcode)]
      dsimp only
      rw [if_neg hfull, if_neg (UInt16.lt_asymm hlong), if_neg (UInt16.ne_of_lt hlong).symm,
        if_pos hmore]
      exact hnext
  | chunksend =>
      rw [hkind] at hcont
      obtain ⟨hcode, hmore⟩ := hcont
      obtain ⟨s', pq, hnext, hreq, hpq⟩ := nextChunk_eq h ss s now
      refine ⟨s', pq, ?_, hreq, hpq⟩
      dsimp only
      unfold chunksendResponse
      dsimp only
      have hne (k : UInt8) (hk : k ≠ 0) : rsp 3 ≠ k := fun hno => hk (hno.symm.trans hcode)
      rw [if_neg (fun hlast => hmore hlast.1), if_neg (hne 3 (by decide)),
        if_neg (hne 4 (by decide)), if_pos hcode]
      exact hnext
  | getcmd =>
      rw [hkind] at hcont
      exact hcont.elim

/-! ### Connecting -/

theorem sessionDel_dc (ctx : MtkContext) : ctx.sessionDel.dc = ctx.dc := by
  unfold sessionDel
  split <;> rfl

theorem request_fed {failed : MtkContext} (hfailed : failed.dc = ctx.dc) (ss : Nat)
    (s : MtkSession) (built : ErrType) :
    Leaves (fun ctx' => Fed ctx.dc ctx'.dc) (ctx.request ss s built failed) := by
  unfold request
  split
  · intro code ctx' heq
    obtain ⟨c, hpush, hc⟩ := Option.map_eq_some_iff.mp heq
    obtain ⟨ring, -, rfl⟩ := Option.map_eq_some_iff.mp hpush
    rw [← (Prod.mk.inj hc).2]
    exact ⟨rfl, rfl, rfl, fun _ => ⟨_, rfl⟩⟩
  · exact .some (hfailed ▸ Fed.refl _)

theorem dcEstablished_fed {built : ErrType} (heq : ctx.dcEstablished built = some ctx') :
    Fed ctx.dc ctx'.dc := by
  unfold dcEstablished at heq
  split at heq
  · rw [← Option.some.inj heq]
    exact .refl _
  · obtain ⟨⟨code, ctx₁⟩, hreq, rfl⟩ := Option.map_eq_some_iff.mp heq
    unfold reqProcess at hreq
    split at hreq
    · cases hreq
    split at hreq
    · exact request_fed (sessionDel_dc ctx) _ _ built code ctx₁ hreq
    · exact request_fed (sessionDel_dc ctx) _ _ built code ctx₁ hreq
    · exact request_fed rfl _ _ built code ctx₁ hreq

/-- `mtk_dc_connect` that finds a connection. -/
theorem mtkDcConnect_connected (hcon : ctx.dc.fConnected = true) (connect built : ErrType) :
    ctx.mtkDcConnect connect built = some (.etOk, ctx) := by
  rw [mtkDcConnect, dcConnectViaInfo, if_pos hcon]
  rfl

/-- `mtk_dc_connect` that makes one. -/
theorem mtkDcConnect_ok (h : DcOk ctx.dc) (hcon : ctx.dc.fConnected = false) (built : ErrType)
    {ret : ErrType} (heq : ctx.mtkDcConnect .etOk built = some (ret, ctx')) :
    ctx'.dc.fConnected = true ∧ DcOk ctx'.dc := by
  rw [mtkDcConnect, dcConnectViaInfo, hcon, if_neg Bool.false_ne_true, if_pos rfl] at heq
  obtain ⟨⟨ret₁, ctx₁⟩, hvia, hr⟩ := Option.map_eq_some_iff.mp heq
  obtain ⟨ctx₂, hest, hr₁⟩ := Option.map_eq_some_iff.mp hvia
  obtain ⟨rfl, rfl⟩ := Prod.mk.inj hr₁
  dsimp only at hr
  rw [if_pos rfl] at hr
  rw [← (Prod.mk.inj hr).2]
  exact ⟨rfl, h.registered.fed (dcEstablished_fed hest)⟩

/-- `mtk_dc_connect` that fails: no work is scheduled for another try. -/
theorem mtkDcConnect_failed (hcon : ctx.dc.fConnected = false) {connect : ErrType}
    (hfailed : connect ≠ .etOk) (built : ErrType) :
    ctx.mtkDcConnect connect built =
      (ctx.setDc (ctx.dc.prepare dcInfo)).dcRelease.map fun ctx => (.etOk, ctx) := by
  rw [mtkDcConnect, dcConnectViaInfo, hcon, if_neg Bool.false_ne_true, if_neg hfailed,
    Option.map_map]
  dsimp only
  congr 1
  funext c
  rw [Function.comp_apply, if_neg hfailed]
  rfl

/-! ### An event -/

/-- The context after an event that leaves the connection, or that releases it. -/
def served (ctx : MtkContext) : MtkContext := (ctx.setDc ctx.dc.rwaitRestart).setRx 0

theorem served_eq (h : ctx.dc.fRwaitTimeout = false) : ctx.served = ctx.setRx 0 := by
  have hsame : ctx.dc.rwaitRestart = ctx.dc :=
    if_neg (ne_true_of_eq_false h)
  rw [served, hsame]
  rfl

/-- There is nothing to be written, or it is written. -/
theorem dcService_write (h : DcOk ctx.dc) (hcon : ctx.dc.fConnected = true)
    (hwrite : ctx.dc.evWrite = true) {sent : Bool}
    (hsent : sent = false → ∀ ring ∈ ctx.dc.ring, ring.empty = true) (recv : DcRecv)
    (now : UInt64) :
    ∃ out ring, ctx.dcService sent recv now =
      some (out, (ctx.setDc (ctx.dc.withRing ring)).setRx 0) := by
  obtain ⟨ring, hring⟩ := h.ring hcon
  have hflag (ring' : Queue MtkRequestMsg) :
      (ctx.setDc (ctx.dc.withRing ring')).dc.fRwaitTimeout = false := h.fRwaitTimeout
  unfold dcService shortLinkRead
  rw [if_pos hwrite]
  cases hempty : ring.empty with
  | true =>
      refine ⟨.idle, ring, ?_⟩
      rw [MtkConnect.handleWriteEvent_empty hring hempty, ← served_eq (hflag ring)]
      rfl
  | false =>
      cases sent with
      | true =>
          refine ⟨.requested ring.deq.2.1, ring.deq.2.2, ?_⟩
          rw [MtkConnect.handleWriteEvent_sent hring hempty, h.sentOne, ← served_eq (hflag _)]
          rfl
      | false => exact absurd ((hsent rfl ring hring).symm.trans hempty) nofun

theorem dcService_lost (h : DcOk ctx.dc) (hcon : ctx.dc.fConnected = true)
    (hwrite : ctx.dc.evWrite = true) {ring : Queue MtkRequestMsg} (hring : ctx.dc.ring = some ring)
    (hempty : ring.empty = false) (recv : DcRecv) (now : UInt64) :
    ∃ c, c.hasContext = true ∧ ctx.dcService false recv now =
      (ctx.setDc c).dcRelease.map fun ctx => (.closed .etSockSend, ctx) := by
  obtain ⟨c, hlost, hctx⟩ := MtkConnect.handleWriteEvent_lost hring hempty now
  refine ⟨c, hctx.trans (h.hasContext hcon), ?_⟩
  unfold dcService shortLinkRead
  rw [if_pos hwrite, hlost]
  rfl

theorem dcService_full (hwrite : ctx.dc.evWrite = false) (hfull : ctx.rxFull = true) (sent : Bool)
    (recv : DcRecv) (now : UInt64) :
    ctx.dcService sent recv now = ctx.dcRelease.map fun ctx => (.closed .etSockRecv, ctx) := by
  unfold dcService shortLinkRead
  rw [if_neg (ne_true_of_eq_false hwrite), if_pos hfull]
  rfl

theorem dcService_error (hwrite : ctx.dc.evWrite = false) (hroom : ctx.rxFull = false)
    (sent : Bool) (left : Option UInt8) (full : Bool) (now : UInt64) :
    ctx.dcService sent (.error left full) now =
      (ctx.withRx (left.getD ctx.rxByte) full).dcRelease.map fun ctx =>
        (.closed .etSockRecv, ctx) := by
  unfold dcService shortLinkRead
  rw [if_neg (ne_true_of_eq_false hwrite), if_neg (ne_true_of_eq_false hroom)]
  rfl

theorem dcService_none {rsp : Cells UInt8} {merge : ErrType} {now : UInt64}
    (hwrite : ctx.dc.evWrite = false) (hroom : ctx.rxFull = false)
    (hrecv : ctx.dcResponseRecv rsp merge now = none)
    (sent : Bool) : ctx.dcService sent (.response rsp merge) now = none := by
  unfold dcService shortLinkRead
  rw [if_neg (ne_true_of_eq_false hwrite), if_neg (ne_true_of_eq_false hroom)]
  dsimp only
  rw [hrecv]
  rfl

theorem dcService_responded {rsp : Cells UInt8} {merge : ErrType} {now : UInt64} {code : ErrType}
    {ctx₁ : MtkContext} (hwrite : ctx.dc.evWrite = false) (hroom : ctx.rxFull = false)
    (hrecv : ctx.dcResponseRecv rsp merge now = some (code, ctx₁))
    (hkeepalive : ctx₁.dc.fKeepalive = false) (sent : Bool) :
    ctx.dcService sent (.response rsp merge) now =
      ctx₁.dcRelease.map fun ctx => (.responded, ctx.served) := by
  unfold dcService shortLinkRead
  rw [if_neg (ne_true_of_eq_false hwrite), if_neg (ne_true_of_eq_false hroom)]
  dsimp only
  rw [hrecv, Option.bind_some]
  dsimp only
  rw [hkeepalive, if_neg Bool.false_ne_true, Option.bind_map]
  cases ctx₁.dcRelease <;> rfl

theorem Responds.dc {ss : Nat} {s : MtkSession} {rsp : Cells UInt8}
    (h : Responds ctx hs ss s rsp ctx') : ctx'.dc = ctx.dc := by
  cases h with
  | dropped => exact sessionDel_dc ctx
  | finished hdc _ _ _ => exact hdc
  | continued _ _ _ => rfl

/-- A response leaves the connection itself as it is. -/
theorem dcResponseRecv_dc (h : Works ctx.worksPq hs) (rsp : Cells UInt8) (merge : ErrType)
    (now : UInt64) :
    Leaves (fun ctx' => ctx'.dc = ctx.dc) (ctx.dcResponseRecv rsp merge now) := by
  unfold dcResponseRecv
  split
  · exact .some rfl
  split
  · exact .some rfl
  next hlen =>
  split
  · exact .some rfl
  · next ss _ =>
    intro code ctx' heq
    cases hs' : ctx.sessions ss with
    | none =>
        rw [rspProcess, hs'] at heq
        cases heq
    | some s => exact (rspProcess_responds h hs' hlen merge now code ctx' heq).dc

/-! ### A session is started -/

/-- `mtk_session_start` leaves the connection as it is. -/
theorem mtkSessionStart_dc (ss : Nat) (now : UInt64) :
    Leaves (fun ctx' => ctx'.dc = ctx.dc) (ctx.mtkSessionStart ss now) := by
  have hsched (ctx₁ : MtkContext) (hdc : ctx₁.dc = ctx.dc) (cb : Handle) (us : UInt64) :
      Leaves (fun ctx' => ctx'.dc = ctx.dc) (ctx₁.schedule cb us now) :=
    fun code ctx' heq => (schedule_beside ctx₁ cb us now code ctx' heq).dc.trans hdc
  unfold mtkSessionStart
  split
  · exact .none
  · refine hsched _ ?_ _ _
    rfl
  · split
    · exact .none
    split
    · exact hsched ctx rfl _ _
    split
    · exact hsched ctx rfl _ _
    · refine hsched _ ?_ _ _
      rfl

/-! ### Any phase -/

theorem phase_beside {p : Phase} {out : Outcome} (hp : p.beside = true)
    (heq : ctx.phase p = some (ctx', out)) : Beside ctx ctx' := by
  have hcall {o : Option (ErrType × MtkContext)} (hbeside : Leaves (Beside ctx) o)
      (ho : o.map (fun r => (r.2, Outcome.scheduled r.1)) = some (ctx', out)) :
      Beside ctx ctx' := by
    obtain ⟨⟨code, ctx₁⟩, hr, hr'⟩ := Option.map_eq_some_iff.mp ho
    rw [← (Prod.mk.inj hr').1]
    exact hbeside code ctx₁ hr
  cases p with
  | ncStart us now => exact hcall (schedule_beside ctx _ us now) heq
  | voicefileSend chunknum now => exact hcall (mtkVoicefileSend_beside ctx chunknum now) heq
  | voicefileRecv fileid now => exact hcall (mtkVoicefileRecv_beside ctx fileid now) heq
  | timeout now => exact adjustTimeout_beside ctx now out ctx' (eq_of_map_swap heq)
  | nc sent recv now =>
      rw [phase] at heq
      split at heq
      · exact ncService_beside ctx sent recv now out ctx' (eq_of_map_swap heq)
      · rw [← (Prod.mk.inj (Option.some.inj heq)).1]
        exact .refl ctx
  | work connect built now => cases hp
  | dc sent recv now => cases hp

theorem dcRelease_ok (heq : ctx.dcRelease = some ctx') : DcOk ctx'.dc := by
  rw [dcRelease_dc heq]
  exact release_ok _

theorem serviceWork_dcOk {connect built : ErrType} {now : UInt64} {out : Outcome}
    (h : Works ctx.worksPq hs) (hok : DcOk ctx.dc)
    (heq : ctx.serviceWork connect built now = some (out, ctx')) : DcOk ctx'.dc := by
  unfold serviceWork at heq
  rcases h.service now with hnone | ⟨cb, rest, pq, -, hsome, -⟩
  · rw [hnone] at heq
    rw [← (Prod.mk.inj (Option.some.inj heq)).2]
    exact hok
  rw [hsome, Option.bind_some] at heq
  obtain ⟨⟨ret, ctx₁⟩, hrun, hr⟩ := Option.map_eq_some_iff.mp heq
  obtain ⟨-, rfl⟩ := Prod.mk.inj hr
  have hpop : DcOk (ctx.setWorks pq).dc := hok
  cases cb with
  | ncConnect => exact (mtkNcConnect_beside _ connect now ret ctx₁ hrun).dc ▸ hpop
  | ncKeepalive => exact (ncKeepalive_beside _ ret ctx₁ hrun).dc ▸ hpop
  | sessionStart ss =>
      have hdc := mtkSessionStart_dc ss now ret ctx₁ hrun
      exact hdc ▸ hpop
  | dcConnect =>
      cases hcon : (ctx.setWorks pq).dc.fConnected with
      | true =>
          have hsame := mtkDcConnect_connected hcon connect built
          rw [← (Prod.mk.inj (Option.some.inj (hsame.symm.trans hrun))).2]
          exact hpop
      | false =>
          by_cases hconnect : connect = .etOk
          · rw [hconnect] at hrun
            exact (mtkDcConnect_ok hpop hcon built hrun).2
          · have hfailed := mtkDcConnect_failed hcon hconnect built
            obtain ⟨ctx₂, hrelease, hr₂⟩ := Option.map_eq_some_iff.mp (hfailed.symm.trans hrun)
            rw [← (Prod.mk.inj hr₂).2]
            exact dcRelease_ok hrelease

theorem dcService_dcOk {sent : Bool} {recv : DcRecv} {now : UInt64} {out : Outcome}
    (h : Works ctx.worksPq hs) (hok : DcOk ctx.dc) (hcon : ctx.dc.fConnected = true)
    (heq : ctx.dcService sent recv now = some (out, ctx')) : DcOk ctx'.dc := by
  cases hwrite : ctx.dc.evWrite with
  | true =>
      obtain ⟨ring, hring⟩ := hok.ring hcon
      by_cases hlost : sent = false ∧ ring.empty = false
      · obtain ⟨rfl, hempty⟩ := hlost
        obtain ⟨c, -, hservice⟩ := dcService_lost hok hcon hwrite hring hempty recv now
        obtain ⟨ctx₁, hrelease, hr⟩ := Option.map_eq_some_iff.mp (hservice.symm.trans heq)
        rw [← (Prod.mk.inj hr).2]
        exact dcRelease_ok hrelease
      · obtain ⟨out', ring', hservice⟩ := dcService_write hok hcon hwrite
          (fun hsent r hr => by
            obtain rfl := Option.some.inj (hring.symm.trans hr)
            exact Bool.eq_true_of_not_eq_false fun hempty => hlost ⟨hsent, hempty⟩) recv now
        rw [← (Prod.mk.inj (Option.some.inj (hservice.symm.trans heq))).2]
        exact hok.withRing ring'
  | false =>
      cases hroom : ctx.rxFull with
      | true =>
          obtain ⟨ctx₁, hrelease, hr⟩ :=
            Option.map_eq_some_iff.mp ((dcService_full hwrite hroom sent recv now).symm.trans heq)
          rw [← (Prod.mk.inj hr).2]
          exact dcRelease_ok hrelease
      | false =>
      cases recv with
      | error left full =>
          obtain ⟨ctx₁, hrelease, hr⟩ := Option.map_eq_some_iff.mp
            ((dcService_error hwrite hroom sent left full now).symm.trans heq)
          rw [← (Prod.mk.inj hr).2]
          exact dcRelease_ok hrelease
      | response rsp merge =>
          cases hrecv : ctx.dcResponseRecv rsp merge now with
          | none =>
              rw [dcService_none hwrite hroom hrecv sent] at heq
              exact nomatch heq
          | some r =>
              obtain ⟨code, ctx₁⟩ := r
              have hdc := dcResponseRecv_dc h rsp merge now code ctx₁ hrecv
              have hkeepalive : ctx₁.dc.fKeepalive = false := hdc ▸ hok.fKeepalive
              have hservice := dcService_responded hwrite hroom hrecv hkeepalive sent
              obtain ⟨ctx₂, hrelease, hr⟩ :=
                Option.map_eq_some_iff.mp (hservice.symm.trans heq)
              have hreleased := dcRelease_ok hrelease
              rw [← (Prod.mk.inj hr).2, served_eq hreleased.fRwaitTimeout]
              exact hreleased

/-- **The DATA connection is complete after every phase.** -/
theorem phase_dcOk {p : Phase} {out : Outcome} (h : Works ctx.worksPq hs) (hok : DcOk ctx.dc)
    (heq : ctx.phase p = some (ctx', out)) : DcOk ctx'.dc := by
  have hbeside (hp : p.beside = true) : DcOk ctx'.dc := (phase_beside hp heq).dc ▸ hok
  cases p with
  | work connect built now => exact serviceWork_dcOk h hok (eq_of_map_swap heq)
  | dc sent recv now =>
      cases hcon : ctx.dc.fConnected with
      | true =>
          rw [phase, if_pos hcon] at heq
          exact dcService_dcOk h hok hcon (eq_of_map_swap heq)
      | false =>
          rw [phase, hcon, if_neg Bool.false_ne_true] at heq
          rw [← (Prod.mk.inj (Option.some.inj heq)).1]
          exact hok
  | ncStart us now => exact hbeside rfl
  | voicefileSend chunknum now => exact hbeside rfl
  | voicefileRecv fileid now => exact hbeside rfl
  | timeout now => exact hbeside rfl
  | nc sent recv now => exact hbeside rfl

end MtkContext

end Awoke.Mtk
