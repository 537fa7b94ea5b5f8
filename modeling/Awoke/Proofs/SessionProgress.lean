/-
Whether the session that is installed goes on.

A session that is installed goes on while the DATA connection is there, or while a work is
pending that connects it or starts the session again.  A connection is released after
every response, and by every error.  Released it leaves the session where it is, unless
that is over; and `mtk_retry_work_schedule`, which should try a failed connect again,
schedules nothing.  So a failed connect, a lost connection and a response that is empty
or an error leave a session that nothing resumes, and that keeps all others waiting.

`progress_iff`: the session installed goes on in every state of a run exactly when there
is none of these while the session is not over and nothing else is pending that resumes
it, and when the next chunk always finds room for its work.
-/
import Awoke.Proofs.Keepalive
import Awoke.Proofs.MtkData

namespace Awoke.Mtk

open Machine

namespace MtkContext

/-- A work is pending that resumes the session, once it is installed. -/
def Resumes (ctx : MtkContext) (ss : Nat) : Prop :=
  .dcConnect ∈ pendingHandles ctx.worksPq ∨ .sessionStart ss ∈ pendingHandles ctx.worksPq

/-- The session installed goes on: the DATA connection is there, or a work is pending. -/
def Progress (ctx : MtkContext) : Prop :=
  ctx.dc.fConnected = false → ∀ ss ∈ ctx.session, ctx.Resumes ss

/-- It goes on without the connection: it is over, or a work is pending. -/
def Recovers (ctx : MtkContext) : Prop :=
  ∀ ss ∈ ctx.session, ∀ s ∈ ctx.sessions ss, s.state = .fin ∨ ctx.Resumes ss

/-- A response that the session does not get to see. -/
def Unseen (rsp : Cells UInt8) : Prop := (rspCode rsp = 1 ∨ rspCode rsp = 2) ∨ rspLen rsp = 0

/-- A phase that leaves the session a way to go on: where the connection cannot be made or is
released, the session recovers, and where the exchange is to be continued, there is room
for the work. -/
def Resumable (ctx : MtkContext) : Phase → Prop
  | .work connect _ now => ∀ pq, mtkServiceWork ctx.worksPq now = some (some .dcConnect, pq) →
      ctx.dc.fConnected = false → ctx.dc.hasContext = true → connect ≠ .etOk →
      (ctx.setWorks pq).Recovers
  | .dc sent recv _ => ctx.dc.fConnected = true →
      if ctx.dc.evWrite then
        sent = false → (∃ ring ∈ ctx.dc.ring, ring.empty = false) → ctx.Recovers
      else if ctx.rxFull then ctx.Recovers
      else
        match recv with
        | .error _ _ => ctx.Recovers
        | .response rsp _ => (Unseen rsp → ctx.Recovers) ∧
            (¬Unseen rsp → ∀ ss ∈ ctx.session, ∀ s ∈ ctx.sessions ss, Continues s rsp →
              (pendingHandles ctx.worksPq).card < 8 ∨ ctx.Resumes ss)
  | _ => True

instance (ctx : MtkContext) (ss : Nat) : Decidable (ctx.Resumes ss) :=
  inferInstanceAs (Decidable (_ ∨ _))

instance : DecidablePred Progress := fun ctx =>
  have := Option.decidableForallMem (p := ctx.Resumes) ctx.session
  inferInstanceAs (Decidable (ctx.dc.fConnected = false → ∀ ss ∈ ctx.session, ctx.Resumes ss))

variable {ctx ctx' : MtkContext} {hs : Multiset Handle}

theorem resumes_iff (ctx : MtkContext) (h : Works ctx.worksPq hs) (ss : Nat) :
    ctx.Resumes ss ↔ .dcConnect ∈ hs ∨ .sessionStart ss ∈ hs := by
  rw [Resumes, h.eq]

theorem progress_connected (hcon : ctx.dc.fConnected = true) : Progress ctx :=
  fun hno => absurd (hcon.symm.trans hno) nofun

theorem progress_none (hss : ctx.session = none) : Progress ctx := by
  intro _ ss hno
  rw [hss] at hno
  exact nomatch hno

theorem progress_iff_resumes {ss : Nat} (hcon : ctx.dc.fConnected = false)
    (hss : ctx.session = some ss) : Progress ctx ↔ ctx.Resumes ss := by
  simp [Progress, hcon, hss]

theorem recovers_none (hss : ctx.session = none) : ctx.Recovers := by
  intro ss hno
  rw [hss] at hno
  exact nomatch hno

theorem recovers_iff {ss : Nat} (hss : ctx.session = some ss) :
    ctx.Recovers ↔ ∀ s ∈ ctx.sessions ss, s.state = .fin ∨ ctx.Resumes ss := by
  simp [Recovers, hss]

theorem recovers_some {ss : Nat} {s : MtkSession} (hss : ctx.session = some ss)
    (hs : ctx.sessions ss = some s) : ctx.Recovers ↔ s.state = .fin ∨ ctx.Resumes ss := by
  simp [Recovers, hss, hs]

/-! ### Releasing -/

/-- **What a release leaves.** -/
theorem dcRelease_progress_iff (ctx : MtkContext) (hctx : ctx.dc.hasContext = true) :
    (∀ ctx' ∈ ctx.dcRelease, Progress ctx') ↔ ctx.Recovers := by
  have hclosed : (ctx.setDc ctx.dc.release).dc.fConnected = false := ctx.dc.release_fConnected
  cases hss : ctx.session with
  | none =>
      rw [dcRelease_none hctx hss]
      refine ⟨fun _ => recovers_none hss, fun _ ctx' heq => ?_⟩
      obtain rfl := Option.some.inj heq
      exact progress_none hss
  | some ss =>
      rw [dcRelease_some hctx hss, recovers_iff hss, Option.forall_mem_map]
      refine forall₂_congr fun s _ => ?_
      by_cases hfin : s.state = .fin
      · rw [if_pos hfin]
        exact ⟨fun _ => .inl hfin, fun _ => progress_none rfl⟩
      · rw [if_neg hfin, progress_iff_resumes hclosed hss]
        exact (or_iff_right hfin).symm

/-- The same where a release is the last that a phase does. -/
theorem after_release_iff {p : Phase} {out : Outcome} (g : MtkContext → MtkContext)
    (hg : ∀ ctx, Progress (g ctx) ↔ Progress ctx) (ctx₁ : MtkContext)
    (hctx : ctx₁.dc.hasContext = true)
    (hphase : ctx.phase p = ctx₁.dcRelease.map fun ctx => (g ctx, out)) :
    After phase Progress ctx p ↔ ctx₁.Recovers := by
  rw [← dcRelease_progress_iff ctx₁ hctx]
  constructor
  · intro hafter ctx' hrelease
    rw [Option.mem_def] at hrelease
    exact (hg ctx').mp (hafter (g ctx') out (by rw [hphase, hrelease]; rfl))
  · intro hprogress ctx' out' heq
    rw [hphase] at heq
    obtain ⟨ctx₂, hrelease, hr⟩ := Option.map_eq_some_iff.mp heq
    rw [← (Prod.mk.inj hr).1]
    exact (hg ctx₂).mpr (hprogress ctx₂ hrelease)

/-! ### A phase beside the DATA connection -/

theorem Progress.beside (hprogress : Progress ctx) (h : Works ctx.worksPq hs)
    (hbeside : Beside ctx ctx') : Progress ctx' := by
  obtain ⟨hs', h', hkept⟩ := hbeside.works hs h
  intro hcon ss hss
  rw [hbeside.dc] at hcon
  rw [hbeside.session] at hss
  rw [resumes_iff ctx' h']
  rcases (resumes_iff ctx h ss).mp (hprogress hcon ss hss) with hdc | hstart
  · exact .inl (hkept _ hdc nofun)
  · exact .inr (hkept _ hstart nofun)

theorem Progress.pop (hprogress : Progress ctx) {cb : Handle} {pq : WorksPq}
    (h : Works ctx.worksPq (cb ::ₘ hs)) (hpq : Works pq hs) (hdc : .dcConnect ≠ cb)
    (hstart : ∀ ss, .sessionStart ss ≠ cb) : Progress (ctx.setWorks pq) := by
  intro hcon ss hss
  rw [resumes_iff (ctx.setWorks pq) hpq]
  rcases (resumes_iff ctx h ss).mp (hprogress hcon ss hss) with hmem | hmem
  · exact .inl ((Multiset.mem_cons.mp hmem).resolve_left hdc)
  · exact .inr ((Multiset.mem_cons.mp hmem).resolve_left (hstart ss))

/-! ### A work -/

/-- **A session that is started** is installed, and connected next, or waits its turn. -/
theorem mtkSessionStart_progress {ss : Nat} {pq : WorksPq} {now : UInt64}
    (hprogress : Progress ctx) (h : Works ctx.worksPq (.sessionStart ss ::ₘ hs))
    (hpq : Works pq hs) :
    Leaves Progress ((ctx.setWorks pq).mtkSessionStart ss now) := by
  have hroom : hs.card < 8 := by
    have hle := h.card_le
    rw [Multiset.card_cons] at hle
    omega
  have hsched {ctx₁ : MtkContext} (h₁ : Works ctx₁.worksPq hs) :
      Leaves Progress (ctx₁.schedule .dcConnect (1 * usPerMs) now) := by
    intro code ctx' heq _ ss' _
    obtain ⟨pq', hsched, h'⟩ := schedule_eq ctx₁ h₁ .dcConnect (1 * usPerMs) now
    obtain ⟨-, rfl⟩ := Prod.mk.inj (Option.some.inj (hsched.symm.trans heq))
    rw [add_room hroom] at h'
    exact (resumes_iff (ctx₁.setWorks pq') h' ss').mpr (.inl (Multiset.mem_cons_self _ _))
  unfold mtkSessionStart
  split
  · exact .none
  · exact hsched hpq
  · next cur _ hcur =>
    split
    · exact .none
    split
    · exact hsched hpq
    split
    · -- the session waits, and the one installed has the works it had
      intro code ctx' heq hcon ss' hss'
      obtain ⟨pq', hsched, h'⟩ := schedule_eq (ctx.setWorks pq) hpq (.sessionStart ss)
        (1 * usPerSec) now
      obtain ⟨-, rfl⟩ := Prod.mk.inj (Option.some.inj (hsched.symm.trans heq))
      rw [add_room hroom] at h'
      rw [resumes_iff ((ctx.setWorks pq).setWorks pq') h', ← resumes_iff ctx h]
      exact hprogress hcon ss' hss'
    · exact hsched hpq

/-- A phase whose result is that of a work. -/
theorem after_work_iff {connect built : ErrType} {now : UInt64} {cb : Handle} {pq : WorksPq}
    (hsome : mtkServiceWork ctx.worksPq now = some (some cb, pq)) :
    After phase Progress ctx (.work connect built now) ↔
      Leaves Progress ((ctx.setWorks pq).runWork connect built now cb) := by
  have hphase : ctx.phase (.work connect built now) =
      ((ctx.setWorks pq).runWork connect built now cb).map fun r => (r.2, .ran cb r.1) := by
    rw [phase, serviceWork, hsome, Option.bind_some, Option.map_map]
    rfl
  constructor
  · intro hafter code ctx' hrun
    exact hafter ctx' (.ran cb code) (by rw [hphase, hrun]; rfl)
  · intro hwithin ctx' out heq
    rw [hphase] at heq
    obtain ⟨⟨code, ctx₁⟩, hrun, hr⟩ := Option.map_eq_some_iff.mp heq
    rw [← (Prod.mk.inj hr).1]
    exact hwithin code ctx₁ hrun

/-- `mtk_dc_connect` leaves the session a way to go on, unless it fails. -/
theorem mtkDcConnect_progress_iff (hok : DcOk ctx.dc) (connect built : ErrType) :
    Leaves Progress (ctx.mtkDcConnect connect built) ↔
      (ctx.dc.fConnected = false → ctx.dc.hasContext = true → connect ≠ .etOk →
        ctx.Recovers) := by
  cases hcon : ctx.dc.fConnected with
  | true =>
      rw [mtkDcConnect_connected hcon]
      exact ⟨fun _ hno => (nomatch hno), fun _ => .some (progress_connected hcon)⟩
  | false =>
      by_cases hconnect : connect = .etOk
      · refine ⟨fun _ _ _ hno => absurd hconnect hno, fun _ ret ctx' heq => ?_⟩
        rw [hconnect] at heq
        exact progress_connected (mtkDcConnect_ok hok hcon built heq).1
      rw [mtkDcConnect_failed hcon hconnect]
      cases hctx : ctx.dc.hasContext with
      | false =>
          -- the release goes through a null pointer
          have hnone : (ctx.setDc (ctx.dc.prepare dcInfo)).dcRelease = none :=
            if_neg (ne_true_of_eq_false hctx)
          rw [hnone]
          exact ⟨fun _ _ hno => (nomatch hno), fun _ => .none⟩
      | true =>
          have hiff := dcRelease_progress_iff (ctx.setDc (ctx.dc.prepare dcInfo)) hctx
          refine Iff.trans ⟨fun h ctx' hrelease => ?_, fun h ret ctx' heq => ?_⟩
            (hiff.trans ⟨fun h _ _ _ => h, fun h => h rfl rfl hconnect⟩)
          · rw [Option.mem_def] at hrelease
            exact h .etOk ctx' (by rw [hrelease]; rfl)
          · obtain ⟨ctx₁, hrelease, hr⟩ := Option.map_eq_some_iff.mp heq
            rw [← (Prod.mk.inj hr).2]
            exact h ctx₁ hrelease

/-- **A work phase.** -/
theorem after_work_progress_iff (hworks : Works ctx.worksPq hs) (hok : DcOk ctx.dc)
    (hprogress : Progress ctx) (connect built : ErrType) (now : UInt64) :
    After phase Progress ctx (.work connect built now) ↔
      ctx.Resumable (.work connect built now) := by
  rcases hworks.service now with hnone | ⟨cb, rest, pq, rfl, hsome, hpq⟩
  · refine ⟨fun _ pq hno => ?_, fun _ ctx' out heq => ?_⟩
    · rw [hnone] at hno
      cases hno
    · rw [phase, serviceWork, hnone] at heq
      rw [← (Prod.mk.inj (Option.some.inj heq)).1]
      exact hprogress
  rw [after_work_iff hsome]
  have hother (hcb : cb ≠ .dcConnect)
      (hwithin : Leaves Progress
        ((ctx.setWorks pq).runWork connect built now cb)) :
      Leaves Progress ((ctx.setWorks pq).runWork connect built now cb) ↔
        ctx.Resumable (.work connect built now) := by
    refine ⟨fun _ pq' hdc => ?_, fun _ => hwithin⟩
    rw [hsome] at hdc
    exact absurd (Option.some.inj (Prod.mk.inj (Option.some.inj hdc)).1) hcb
  cases cb with
  | ncConnect =>
      have hpop := hprogress.pop hworks hpq (by simp) (by simp)
      exact hother (by simp) fun ret ctx' hrun =>
        hpop.beside hpq (mtkNcConnect_beside (ctx.setWorks pq) connect now ret ctx' hrun)
  | ncKeepalive =>
      have hpop := hprogress.pop hworks hpq (by simp) (by simp)
      exact hother (by simp) fun ret ctx' hrun =>
        hpop.beside hpq (ncKeepalive_beside (ctx.setWorks pq) ret ctx' hrun)
  | sessionStart ss => exact hother (by simp) (mtkSessionStart_progress hprogress hworks hpq)
  | dcConnect =>
      have hpop : DcOk (ctx.setWorks pq).dc := hok
      refine Iff.trans (mtkDcConnect_progress_iff hpop connect built) ⟨fun h pq' hdc => ?_,
        fun h => h pq hsome⟩
      rw [hsome] at hdc
      obtain rfl := (Prod.mk.inj (Option.some.inj hdc)).2
      exact h

/-! ### An event of the DATA connection -/

theorem served_progress (ctx : MtkContext) : Progress ctx.served ↔ Progress ctx := by
  have hcon : ctx.dc.rwaitRestart.fConnected = ctx.dc.fConnected := by
    unfold MtkConnect.rwaitRestart
    split <;> rfl
  show (ctx.dc.rwaitRestart.fConnected = false → _) ↔ _
  rw [hcon]
  exact Iff.rfl

/-- What is left when an exchange is to be continued. -/
theorem continued_recovers_iff {ss : Nat} {s' : MtkSession} {pq : WorksPq}
    (hworks : Works ctx.worksPq hs) (hss : ctx.session = some ss) (hreq : s'.state = .req)
    (hpq : Works pq (add (.sessionStart ss) hs)) :
    ((ctx.setSession ss s').setWorks pq).Recovers ↔ hs.card < 8 ∨ ctx.Resumes ss := by
  have hsession : ((ctx.setSession ss s').setWorks pq).session = some ss := hss
  have hs' : ((ctx.setSession ss s').setWorks pq).sessions ss = some s' :=
    Function.update_self _ _ _
  have hreq' : s'.state ≠ .fin := by rw [hreq]; exact nofun
  rw [recovers_some hsession hs', or_iff_right hreq', resumes_iff ctx hworks,
    resumes_iff ((ctx.setSession ss s').setWorks pq) hpq]
  by_cases hroom : hs.card < 8
  · rw [add_room hroom]
    exact ⟨fun _ => .inl hroom, fun _ => .inr (Multiset.mem_cons_self _ _)⟩
  · rw [add, if_neg hroom]
    exact (or_iff_right hroom).symm

theorem Responds.recovers {ss : Nat} {s : MtkSession} {rsp : Cells UInt8}
    (hworks : Works ctx.worksPq hs) (hss : ctx.session = some ss)
    (hroom : Continues s rsp → hs.card < 8 ∨ ctx.Resumes ss)
    (h : Responds ctx hs ss s rsp ctx') : ctx'.Recovers := by
  cases h with
  | dropped =>
      refine recovers_none ?_
      unfold sessionDel
      rw [hss]
      rfl
  | finished _ hsession hs' hfin =>
      rw [recovers_some (hsession.trans hss) hs']
      exact .inl hfin
  | continued hcont hpq hreq =>
      exact (continued_recovers_iff hworks hss hreq hpq).mpr (hroom hcont)

theorem dcResponseRecv_unseen {rsp : Cells UInt8} (h : Unseen rsp) (merge : ErrType)
    (now : UInt64) : ∃ code, ctx.dcResponseRecv rsp merge now = some (code, ctx) := by
  unfold dcResponseRecv
  by_cases hcode : rspCode rsp = 1 ∨ rspCode rsp = 2
  · exact ⟨.etFail, if_pos hcode⟩
  · rw [if_neg hcode, if_pos (h.resolve_left hcode)]
    exact ⟨.etOk, rfl⟩

theorem dcResponseRecv_seen {rsp : Cells UInt8} (h : ¬Unseen rsp) {ss : Nat}
    (hss : ctx.session = some ss) (merge : ErrType) (now : UInt64) :
    ctx.dcResponseRecv rsp merge now = ctx.rspProcess ss rsp (rspLen rsp) merge now := by
  unfold dcResponseRecv
  rw [if_neg (fun hcode => h (.inl hcode)), if_neg (fun hlen => h (.inr hlen)), hss]

/-- **What a response leaves.** -/
theorem response_recovers_iff (hworks : Works ctx.worksPq hs) (rsp : Cells UInt8)
    (merge : ErrType) (now : UInt64) :
    Leaves Recovers (ctx.dcResponseRecv rsp merge now) ↔
      (Unseen rsp → ctx.Recovers) ∧
      (¬Unseen rsp → ∀ ss ∈ ctx.session, ∀ s ∈ ctx.sessions ss, Continues s rsp →
        (pendingHandles ctx.worksPq).card < 8 ∨ ctx.Resumes ss) := by
  rw [hworks.eq]
  by_cases hunseen : Unseen rsp
  · obtain ⟨code, hrecv⟩ := dcResponseRecv_unseen hunseen merge now
    rw [hrecv]
    exact ⟨fun h => ⟨fun _ => h code ctx rfl, fun hno => absurd hunseen hno⟩,
      fun h => .some (h.1 hunseen)⟩
  refine Iff.trans ?_ ⟨fun h => ⟨fun hno => absurd hno hunseen, fun _ => h⟩,
    fun h => h.2 hunseen⟩
  cases hss : ctx.session with
  | none =>
      refine ⟨fun _ ss hno => absurd hno (by simp), fun _ => ?_⟩
      unfold dcResponseRecv
      rw [if_neg (fun hcode => hunseen (.inl hcode)), if_neg (fun hlen => hunseen (.inr hlen)), hss]
      exact .some (recovers_none hss)
  | some ss =>
      rw [dcResponseRecv_seen hunseen hss]
      constructor
      · intro h ss' hss' s hs hcont
        obtain rfl := Option.some.inj hss'
        obtain ⟨s', pq, hnext, hreq, hpq⟩ := rspProcess_continues hworks hs hcont merge now
        exact (continued_recovers_iff hworks hss hreq hpq).mp (h _ _ hnext)
      · intro h code ctx₁ hrecv
        cases hs : ctx.sessions ss with
        | none =>
            rw [rspProcess, hs] at hrecv
            cases hrecv
        | some s =>
            have hlen : rspLen rsp ≠ 0 := fun hlen => hunseen (.inr hlen)
            have hresponds := rspProcess_responds hworks hs hlen merge now code ctx₁ hrecv
            exact hresponds.recovers hworks hss (h ss rfl s hs)

/-- **An event of the DATA connection.** -/
theorem after_dc_progress_iff (hworks : Works ctx.worksPq hs) (hok : DcOk ctx.dc)
    (hprogress : Progress ctx) (sent : Bool) (recv : DcRecv) (now : UInt64) :
    After phase Progress ctx (.dc sent recv now) ↔ ctx.Resumable (.dc sent recv now) := by
  cases hcon : ctx.dc.fConnected with
  | false =>
      refine ⟨fun _ hno => absurd (hcon.symm.trans hno) Bool.false_ne_true,
        fun _ ctx' out heq => ?_⟩
      rw [phase, hcon, if_neg Bool.false_ne_true] at heq
      rw [← (Prod.mk.inj (Option.some.inj heq)).1]
      exact hprogress
  | true =>
      have hphase : ctx.phase (.dc sent recv now) = (ctx.dcService sent recv now).map Prod.swap :=
        if_pos hcon
      have hctx := hok.hasContext hcon
      refine Iff.trans ?_ ⟨fun h _ => h, fun h => h hcon⟩
      cases hwrite : ctx.dc.evWrite with
      | true =>
          rw [if_pos rfl]
          obtain ⟨ring, hring⟩ := hok.ring hcon
          by_cases hlost : sent = false ∧ ring.empty = false
          · obtain ⟨rfl, hempty⟩ := hlost
            obtain ⟨c, hc, hservice⟩ := dcService_lost hok hcon hwrite hring hempty recv now
            rw [hservice, Option.map_map] at hphase
            refine (after_release_iff id (fun _ => Iff.rfl) (ctx.setDc c) hc hphase).trans ?_
            exact ⟨fun h _ _ => h, fun h => h rfl ⟨ring, hring, hempty⟩⟩
          · have hwritten : sent = false → ∀ ring ∈ ctx.dc.ring, ring.empty = true := by
              intro hsent r hr
              obtain rfl := Option.some.inj (hring.symm.trans hr)
              exact Bool.eq_true_of_not_eq_false fun hempty => hlost ⟨hsent, hempty⟩
            obtain ⟨out, ring', hservice⟩ := dcService_write hok hcon hwrite hwritten recv now
            rw [hservice] at hphase
            rw [after_some hphase]
            refine ⟨fun _ hsent hfull => ?_, fun _ => progress_connected hcon⟩
            obtain ⟨r, hr, hempty⟩ := hfull
            exact absurd (hempty.symm.trans (hwritten hsent r hr)) Bool.false_ne_true
      | false =>
          rw [if_neg Bool.false_ne_true]
          cases hroom : ctx.rxFull with
          | true =>
              rw [if_pos rfl]
              rw [dcService_full hwrite hroom, Option.map_map] at hphase
              exact after_release_iff id (fun _ => Iff.rfl) ctx hctx hphase
          | false =>
          rw [if_neg Bool.false_ne_true]
          cases recv with
          | error left full =>
              rw [dcService_error hwrite hroom, Option.map_map] at hphase
              exact after_release_iff id (fun _ => Iff.rfl)
                (ctx.withRx (left.getD ctx.rxByte) full) hctx hphase
          | response rsp merge =>
              refine Iff.trans ?_ (response_recovers_iff hworks rsp merge now)
              cases hrecv : ctx.dcResponseRecv rsp merge now with
              | none =>
                  rw [dcService_none hwrite hroom hrecv] at hphase
                  refine ⟨fun _ => .none, fun _ ctx' out heq => ?_⟩
                  cases hphase.symm.trans heq
              | some r =>
                  obtain ⟨code, ctx₁⟩ := r
                  have hdc := dcResponseRecv_dc hworks rsp merge now code ctx₁ hrecv
                  have hkeepalive : ctx₁.dc.fKeepalive = false := hdc ▸ hok.fKeepalive
                  have hctx₁ : ctx₁.dc.hasContext = true := hdc ▸ hctx
                  rw [dcService_responded hwrite hroom hrecv hkeepalive, Option.map_map] at hphase
                  exact (after_release_iff served served_progress ctx₁ hctx₁ hphase).trans
                    ⟨fun h => .some h, fun h => h code ctx₁ rfl⟩

/-! ### Runs -/

/-- What holds in every state of a run in which the session goes on. -/
structure Going (ctx : MtkContext) : Prop where
  sound : Sound ctx
  dc : DcOk ctx.dc
  progress : Progress ctx

theorem create_going : Going create :=
  ⟨create_sound, ⟨rfl, rfl, nofun, nofun⟩, progress_none rfl⟩

theorem after_progress_iff (h : Going ctx) (p : Phase) :
    After phase Progress ctx p ↔ ctx.Resumable p := by
  obtain ⟨hs, hworks⟩ := h.sound.works
  have hbeside (hp : p.beside = true) : After phase Progress ctx p :=
    fun ctx' out heq => h.progress.beside hworks (phase_beside hp heq)
  cases p with
  | work connect built now => exact after_work_progress_iff hworks h.dc h.progress connect built now
  | dc sent recv now => exact after_dc_progress_iff hworks h.dc h.progress sent recv now
  | ncStart us now => exact ⟨fun _ => trivial, fun _ => hbeside rfl⟩
  | voicefileSend chunknum now => exact ⟨fun _ => trivial, fun _ => hbeside rfl⟩
  | voicefileRecv fileid now => exact ⟨fun _ => trivial, fun _ => hbeside rfl⟩
  | timeout now => exact ⟨fun _ => trivial, fun _ => hbeside rfl⟩
  | nc sent recv now => exact ⟨fun _ => trivial, fun _ => hbeside rfl⟩

theorem Going.phase (h : Going ctx) {p : Phase} (hresumable : ctx.Resumable p) :
    After MtkContext.phase Going ctx p := by
  intro ctx' out heq
  obtain ⟨hs, hworks⟩ := h.sound.works
  exact ⟨h.sound.phase p ctx' out heq, phase_dcOk hworks h.dc heq,
    (after_progress_iff h p).mpr hresumable ctx' out heq⟩

/--
**The session that is installed goes on**, in every state of a run, exactly when every phase
of the run leaves it a way to go on.
-/
theorem progress_iff (ps : List Phase) :
    Always phase Progress create ps ↔ Meets phase Resumable create ps := by
  have hiff : Meets phase (After phase Progress) create ps ↔ Meets phase Resumable create ps :=
    meets_congr (J := Going) (fun _ p h => after_progress_iff h p)
      (fun _ _ h hresumable => h.phase hresumable) ps create_going
  exact ⟨fun h => hiff.mp h.2, fun h => ⟨create_going.progress, hiff.mpr h⟩⟩

/-- The server closes the connection before it answers the request of a file sent. -/
theorem progress_lost :
    ¬Always phase Progress create
      [.voicefileSend 1 0, .work .etOk .etOk 1000, .work .etOk .etOk 2000,
        .dc true (.error none false) 3000, .dc true (.error none false) 4000] := by
  decide +kernel

end MtkContext

end Awoke.Mtk
