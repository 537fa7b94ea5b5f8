/-
How many keepalives are pending.

A keepalive is scheduled when the connection is established and by every receipt that
counts, and is taken out when it runs; a close deletes one.  That would be one at a time
if there were a receipt for every heartbeat and no other.  A notice comes without one, and
it is the only other: `keepalives_iff` says that in every run there is at most one
keepalive pending on a connection, and none where there is no connection, exactly when no
receipt comes while one is pending, unless the queue has no room for another.
-/
import Awoke.Proofs.MtkPhase

namespace Awoke.Mtk

open Machine

namespace MtkContext

/-- How many keepalives are pending. -/
def keepalives (ctx : MtkContext) : Nat := (pendingHandles ctx.worksPq).count .ncKeepalive

/-- At most one keepalive is pending on a connection, and none without. -/
structure KeepaliveOk (ctx : MtkContext) : Prop where
  connected : ctx.nc.fConnected = true → ctx.keepalives ≤ 1
  closed : ctx.nc.fConnected = false → ctx.keepalives = 0

instance (ctx : MtkContext) : Decidable (KeepaliveOk ctx) :=
  decidable_of_iff ((ctx.nc.fConnected = true → ctx.keepalives ≤ 1) ∧
    (ctx.nc.fConnected = false → ctx.keepalives = 0))
    ⟨fun h => ⟨h.1, h.2⟩, fun h => ⟨h.connected, h.closed⟩⟩

/-- A receipt that counts comes when no keepalive is pending, or when the queue is full. -/
def Spare (ctx : MtkContext) : Phase → Prop
  | .nc _ recv _ => ∀ data, ctx.Receipt recv data →
      ctx.keepalives = 0 ∨ (pendingHandles ctx.worksPq).card = 8
  | _ => True

variable {ctx ctx' : MtkContext} {hs : Multiset Handle}

theorem keepalives_eq (h : Works ctx.worksPq hs) : ctx.keepalives = hs.count .ncKeepalive := by
  rw [keepalives, h.eq]

theorem KeepaliveOk.of_le (h : Works ctx'.worksPq hs) (hcon : ctx'.nc.fConnected = true)
    (hle : hs.count .ncKeepalive ≤ 1) : KeepaliveOk ctx' := by
  refine ⟨fun _ => by rw [keepalives_eq h]; exact hle, fun hclosed => ?_⟩
  exact absurd (hcon.symm.trans hclosed) nofun

theorem KeepaliveOk.of_zero (h : Works ctx'.worksPq hs) (hzero : hs.count .ncKeepalive = 0) :
    KeepaliveOk ctx' := by
  rw [← keepalives_eq h] at hzero
  exact ⟨fun _ => by omega, fun _ => hzero⟩

theorem KeepaliveOk.mono (hok : KeepaliveOk ctx) {hs' : Multiset Handle}
    (h : Works ctx.worksPq hs) (h' : Works ctx'.worksPq hs')
    (hcon : ctx'.nc.fConnected = ctx.nc.fConnected)
    (hle : hs'.count .ncKeepalive ≤ hs.count .ncKeepalive) : KeepaliveOk ctx' := by
  rw [← keepalives_eq h, ← keepalives_eq h'] at hle
  refine ⟨fun hc => ?_, fun hc => ?_⟩
  · exact hle.trans (hok.connected (hcon ▸ hc))
  · have := hok.closed (hcon ▸ hc)
    omega

theorem KeepaliveOk.le_one (hok : KeepaliveOk ctx) (h : Works ctx.worksPq hs) :
    hs.count .ncKeepalive ≤ 1 := by
  rw [← keepalives_eq h]
  cases hcon : ctx.nc.fConnected with
  | true => exact hok.connected hcon
  | false =>
      have := hok.closed hcon
      omega

theorem count_receipt (hspare : hs.count .ncKeepalive = 0 ∨ hs.card = 8)
    (hle : hs.count .ncKeepalive ≤ 1) : (add .ncKeepalive hs).count .ncKeepalive ≤ 1 := by
  rw [count_add_self]
  split <;> omega

theorem WorkStep.keepaliveOk {connect : ErrType} {out : Outcome} (h : Works ctx.worksPq hs)
    (hok : KeepaliveOk ctx) (hstep : WorkStep ctx hs connect out ctx') : KeepaliveOk ctx' := by
  have hone := hok.le_one h
  cases hstep with
  | aside haside _ =>
      obtain ⟨hs', h', hcount⟩ := haside.works hs h
      exact hok.mono h h' (by rw [haside.nc]) (Nat.le_of_eq hcount)
  | beat hhs hpq hcon _ =>
      refine hok.mono h hpq rfl ?_
      rw [hhs]
      exact Multiset.count_le_of_le _ (Multiset.le_cons_self _ _)
  | late hhs hpq hcon =>
      refine hok.mono h hpq rfl ?_
      rw [hhs]
      exact Multiset.count_le_of_le _ (Multiset.le_cons_self _ _)
  | established hhs hpq hcon _ =>
      have hzero := hok.closed hcon
      rw [keepalives_eq h, hhs, Multiset.count_cons_of_ne ncConnect_ne] at hzero
      exact .of_le hpq rfl (by rw [Multiset.count_cons_self, hzero])
  | refused hhs hpq hcount hcon _ =>
      have hzero := hok.closed hcon
      rw [keepalives_eq h, hhs, Multiset.count_cons_of_ne ncConnect_ne] at hzero
      exact .of_zero hpq (by omega)

/-- Every phase keeps the count as it should be, if a receipt comes only when there is room
for its keepalive. -/
theorem NcStep.keepaliveOk {p : Phase} {out : Outcome} (h : Works ctx.worksPq hs)
    (hok : KeepaliveOk ctx) (hspare : Spare ctx p) (hstep : NcStep ctx hs p out ctx') :
    KeepaliveOk ctx' := by
  have hone := hok.le_one h
  cases hstep with
  | aside haside _ =>
      obtain ⟨hs', h', hcount⟩ := haside.works hs h
      exact hok.mono h h' (by rw [haside.nc]) (Nat.le_of_eq hcount)
  | work hwork => exact hwork.keepaliveOk h hok
  | timedOut _ _ => exact hok.mono h h rfl (Nat.le_refl _)
  | closed _ _ hpq =>
      refine .of_zero hpq ?_
      rw [count_add_of_ne ncConnect_ne, Multiset.count_erase_self]
      omega
  | empty _ _ => exact hok.mono h h rfl (Nat.le_refl _)
  | wrote _ _ _ _ => exact hok.mono h h rfl (Nat.le_refl _)
  | received hreceipt hnc hpq hcount =>
      have hroom := hspare _ hreceipt
      rw [keepalives_eq h, h.eq] at hroom
      refine .of_le hpq (by rw [hnc]; exact hreceipt.1) ?_
      rw [hcount]
      exact count_receipt hroom hone
  | overrun hreceipt _ _ hpq =>
      have hroom := hspare _ hreceipt
      rw [keepalives_eq h, h.eq] at hroom
      have hle := count_receipt hroom hone
      refine .of_zero hpq ?_
      rw [count_add_of_ne ncConnect_ne, Multiset.count_erase_self]
      omega

/-- A receipt that comes while a keepalive is pending leaves two, or one too many. -/
theorem not_keepaliveOk_receipt {sent : Bool} {recv : NcRecv} {now : UInt64} {data : UInt8}
    (h : Works ctx.worksPq hs) (hnc : NcOk ctx.nc) (hreceipt : ctx.Receipt recv data)
    (hroom : hs.card < 8) (hpending : 0 < hs.count .ncKeepalive) :
    ¬After phase KeepaliveOk ctx (.nc sent recv now) := by
  have htwo : (add .ncKeepalive hs).count .ncKeepalive = hs.count .ncKeepalive + 1 := by
    rw [count_add_self, if_pos hroom]
  obtain ⟨hcon, hwrite, hread, hdata⟩ := hreceipt
  have hphase : ctx.phase (.nc sent recv now) = (ctx.ncService sent recv now).map Prod.swap :=
    if_pos hcon
  intro hafter
  -- a connection with two keepalives
  have hstays {hs' : Multiset Handle} {ctx' : MtkContext} {out : Outcome}
      (hsome : ctx.ncService sent recv now = some (out, ctx'))
      (hcon' : ctx'.nc.fConnected = true) (hpq : Works ctx'.worksPq hs')
      (hcount : hs'.count .ncKeepalive = (add .ncKeepalive hs).count .ncKeepalive) : False := by
    have hok := (hafter ctx' out (by rw [hphase, hsome]; rfl)).connected hcon'
    rw [keepalives_eq hpq] at hok
    omega
  by_cases hzero : data = 0
  · subst hzero
    by_cases hfull : (add .ncKeepalive hs).card < 8
    · obtain ⟨pq, hnotice, hpq⟩ := ncService_notice h hnc hcon hwrite hread hfull sent now
      exact hstays hnotice hcon hpq (Multiset.count_cons_of_ne (sessionStart_ne _) _)
    · obtain ⟨ctx', hclose, hclosed, hpq⟩ :=
        ncService_notice_full h hnc hcon hwrite hread hfull sent now
      have hok := (hafter ctx' _ (by rw [hphase, hclose]; rfl)).closed hclosed
      rw [keepalives_eq hpq, count_add_of_ne ncConnect_ne, Multiset.count_erase_self] at hok
      omega
  · obtain rfl := hdata.resolve_left hzero
    obtain ⟨pq, hack, hpq⟩ := ncService_ack h hnc hcon hwrite hread hzero sent now
    exact hstays hack hcon hpq rfl

/-- What holds of the NOTICE connection and the works in every run. -/
structure Sound (ctx : MtkContext) : Prop where
  nc : NcOk ctx.nc
  works : ∃ hs, Works ctx.worksPq hs

theorem create_sound : Sound create := ⟨init_ok, 0, create_works⟩

theorem Sound.phase (h : Sound ctx) (p : Phase) : After MtkContext.phase Sound ctx p := by
  intro ctx' out hphase
  obtain ⟨hs, hworks⟩ := h.works
  obtain ⟨hnc, hworks'⟩ := (phase_step hworks h.nc hphase).kept hworks h.nc
  exact ⟨hnc, hworks'⟩

theorem after_keepaliveOk_iff (h : Sound ctx) (hok : KeepaliveOk ctx) (p : Phase) :
    After phase KeepaliveOk ctx p ↔ Spare ctx p := by
  obtain ⟨hs, hworks⟩ := h.works
  constructor
  · intro hafter
    cases p with
    | nc sent recv now =>
        intro data hreceipt
        by_contra hno
        rw [keepalives_eq hworks, hworks.eq, not_or] at hno
        have hle := hworks.card_le
        exact not_keepaliveOk_receipt hworks h.nc hreceipt (by omega) (by omega) hafter
    | ncStart us now => exact trivial
    | voicefileSend chunknum now => exact trivial
    | voicefileRecv fileid now => exact trivial
    | work connect built now => exact trivial
    | timeout now => exact trivial
    | dc sent recv now => exact trivial
  · intro hspare ctx' out hphase
    exact (phase_step hworks h.nc hphase).keepaliveOk hworks hok hspare

/--
**At most one keepalive is pending on a connection, and none without**, in every state of a
run, exactly when each receipt that counts comes while none is pending or the queue is
full.
-/
theorem keepalives_iff (ps : List Phase) :
    Always phase KeepaliveOk create ps ↔ Meets phase Spare create ps := by
  have hok : KeepaliveOk create := .of_zero create_works rfl
  have hiff : Meets phase (After phase KeepaliveOk) create ps ↔ Meets phase Spare create ps := by
    refine meets_congr (J := fun ctx => Sound ctx ∧ KeepaliveOk ctx) ?_ ?_ ps ⟨create_sound, hok⟩
    · intro ctx p h
      exact after_keepaliveOk_iff h.1 h.2 p
    · intro ctx p h hspare ctx' out hphase
      exact ⟨h.1.phase p ctx' out hphase,
        (after_keepaliveOk_iff h.1 h.2 p).mpr hspare ctx' out hphase⟩
  exact ⟨fun h => hiff.mp h.2, fun h => ⟨hok, hiff.mpr h⟩⟩

/-- A notice comes before the first heartbeat is due, and the connection is lost after it:
the close deletes one keepalive of the two. -/
theorem keepalives_left :
    ¬Always phase KeepaliveOk create
      [.ncStart 0 0, .work .etOk .etOk 0, .nc true (.byte 0) 1, .nc true .error 2] := by
  decide +kernel

end MtkContext

end Awoke.Mtk
