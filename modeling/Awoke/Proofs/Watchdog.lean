/-
The receive timeout of the NOTICE connection.

A write that goes well sets the deadline, and a round whose time is past it finds the
timeout over.  But the write is a part of the read routine, and `mtk_service_connect`
takes the deadline back after every read routine that went well, this one as well.
`watchdog_iff`: the deadline is as it should be, and is answered when it is over, in
exactly those runs in which nothing is ever written.

`Watched` adds to a context what the statement is about and the code does not keep: the
time of the last write that nothing was received after.
-/
import Awoke.Proofs.Keepalive

namespace Awoke.Mtk

open Machine MtkContext

/-- A context, and when its NOTICE connection last wrote, if nothing was received since. -/
structure Watched where
  ctx : MtkContext
  lastWrite : Option UInt64

/-- The time of the last write after a phase.  Out of a `full` buffer nothing is received. -/
def lastWritten (last : Option UInt64) (connected full : Bool) : Phase → Outcome → Option UInt64
  | .nc _ recv now, out =>
      match connected, recv, out with
      | false, _, _ => none
      | true, _, .wrote _ => some now
      | true, .byte _, .received _ | true, .filled _, .received _ => if full then last else none
      | true, _, _ => last
  | _, _ => if connected then last else none

namespace Watched

/-- One phase. -/
def phase (s : Watched) (p : Phase) : Option (Watched × Outcome) :=
  (s.ctx.phase p).map fun (ctx, out) =>
    ({ ctx := ctx, lastWrite := lastWritten s.lastWrite ctx.nc.fConnected s.ctx.rxFull p out }, out)

/-- A fresh context has written nothing. -/
def create : Watched := { ctx := .create, lastWrite := none }

/-- The deadline that a write at the time `t` should set. -/
def deadline (s : Watched) (t : UInt64) : Nat := t.toNat + s.ctx.nc.rwait.timeoutUs.toNat

/-- The deadline is that of the last write. -/
def Armed (s : Watched) : Prop :=
  ∀ t ∈ s.lastWrite, s.ctx.nc.rwait.waitUs.toNat = s.deadline t

/-- A round past the deadline counts the timeout: the connection is closed when the count
is reached, and the callback is called before. -/
def Answered (s : Watched) (out : Outcome) : Phase → Prop
  | .timeout us => ∀ t ∈ s.lastWrite, s.deadline t ≤ us.toNat →
      out = if s.ctx.nc.rwait.maxcnt ≤ s.ctx.nc.rwait.timeoutCnt + 1 then .closed .etSockRecv
        else .timedOut
  | _ => True

/-- What a phase should do about the timeout. -/
def Watches (s : Watched) (p : Phase) : Prop :=
  ∀ r ∈ s.phase p, r.1.Armed ∧ s.Answered r.2 p

-- times are finite in number, and the instance for that would try each
instance : DecidablePred Armed := fun s =>
  Option.decidableForallMem (p := fun t => s.ctx.nc.rwait.waitUs.toNat = s.deadline t) s.lastWrite

instance (s : Watched) (out : Outcome) : DecidablePred (Answered s out)
  | .timeout us => Option.decidableForallMem (p := fun t => s.deadline t ≤ us.toNat → _) s.lastWrite
  | .ncStart _ _ | .voicefileSend _ _ | .voicefileRecv _ _ | .work _ _ _ | .nc _ _ _
  | .dc _ _ _ => isTrue trivial

instance (s : Watched) : DecidablePred s.Watches := fun i =>
  inferInstanceAs (Decidable (∀ r ∈ s.phase i, r.1.Armed ∧ s.Answered r.2 i))

end Watched

/-- A phase that writes: the event loop offers to, there is something to be written, and
`send` goes well. -/
def MtkContext.Writes (ctx : MtkContext) : Phase → Prop
  | .nc sent _ _ => sent = true ∧ ctx.nc.fConnected = true ∧ ctx.nc.evWrite = true ∧
      ∃ ring, ctx.nc.ring = some ring ∧ ring.empty = false
  | _ => False

namespace Watched

variable {s s' : Watched} {p : Phase} {out : Outcome}

theorem lastWritten_none (connected full : Bool) (hout : ∀ data, out ≠ .wrote data) :
    lastWritten none connected full p out = none := by
  unfold lastWritten
  split
  · split
    · rfl
    · exact absurd rfl (hout _)
    · exact ite_self none
    · exact ite_self none
    · rfl
  · split <;> rfl

/-- A phase that does not write adds no time. -/
theorem lastWrite_silent {hs : Multiset Handle} {ctx' : MtkContext}
    (hstep : NcStep s.ctx hs p out ctx') (hsilent : ¬s.ctx.Writes p) (connected full : Bool) :
    lastWritten none connected full p out = none := by
  cases hstep with
  | aside _ hout =>
      refine lastWritten_none connected full fun data hwrote => ?_
      rw [hwrote] at hout
      exact nomatch hout
  | work _ => exact ite_self none
  | timedOut _ _ => exact ite_self none
  | closed _ _ _ => exact lastWritten_none connected full nofun
  | empty _ _ => exact lastWritten_none connected full nofun
  | wrote hcon hwrite hring hempty =>
      exact absurd ⟨rfl, hcon, hwrite, _, hring, hempty⟩ hsilent
  | received _ _ _ _ => exact lastWritten_none connected full nofun
  | overrun _ _ _ _ => exact lastWritten_none connected full nofun

/-- **The deadline of a write does not survive the round of the write.** -/
theorem not_armed_of_writes (h : Sound s.ctx) (hwrites : s.ctx.Writes p) :
    ∃ s' out, s.phase p = some (s', out) ∧ ¬s'.Armed := by
  cases p with
  | nc sent recv now =>
      obtain ⟨rfl, hcon, hwrite, ring, hring, hempty⟩ := hwrites
      have hsent : s.ctx.phase (.nc true recv now) = some
          ((s.ctx.setNc ((s.ctx.nc.withRing ring.deq.2.2).withWait 0 0)).setRx 0,
            .wrote ring.deq.2.1) := by
        rw [MtkContext.phase, if_pos hcon, ncService_sent h.nc hcon hwrite hring hempty]
        rfl
      refine ⟨_, _, by rw [phase, hsent]; rfl, fun harmed => ?_⟩
      have hlast : lastWritten s.lastWrite s.ctx.nc.fConnected s.ctx.rxFull
          (.nc true recv now)
          (.wrote ring.deq.2.1) = some now := by rw [hcon, lastWritten]
      have hzero : 0 = now.toNat + s.ctx.nc.rwait.timeoutUs.toNat := harmed now hlast
      refine (h.nc.rwait hcon).2 (UInt64.toNat_inj.mp ?_)
      rw [UInt64.toNat_zero]
      omega
  | ncStart us now => exact hwrites.elim
  | voicefileSend chunknum now => exact hwrites.elim
  | voicefileRecv fileid now => exact hwrites.elim
  | work connect built now => exact hwrites.elim
  | timeout now => exact hwrites.elim
  | dc sent recv now => exact hwrites.elim

theorem answered_none (hnone : s.lastWrite = none) (p : Phase) (out : Outcome) :
    s.Answered out p := by
  cases p with
  | timeout us =>
      intro t ht
      rw [hnone] at ht
      exact nomatch ht
  | ncStart us now => exact trivial
  | voicefileSend chunknum now => exact trivial
  | voicefileRecv fileid now => exact trivial
  | work connect built now => exact trivial
  | nc sent recv now => exact trivial
  | dc sent recv now => exact trivial

/-- What holds up to the first write. -/
structure Unwritten (s : Watched) : Prop where
  sound : Sound s.ctx
  lastWrite : s.lastWrite = none

theorem Unwritten.phase (h : Unwritten s) (hsilent : ¬s.ctx.Writes p) :
    After phase Unwritten s p := by
  intro s' out hphase
  obtain ⟨⟨ctx', out'⟩, hctx, hr⟩ := Option.map_eq_some_iff.mp hphase
  obtain ⟨rfl, rfl⟩ := Prod.mk.inj hr
  obtain ⟨hs, hworks⟩ := h.sound.works
  have hstep := phase_step hworks h.sound.nc hctx
  refine ⟨h.sound.phase p ctx' _ hctx, ?_⟩
  show lastWritten s.lastWrite _ _ p _ = none
  rw [h.lastWrite]
  exact lastWrite_silent hstep hsilent _ _

theorem watches_iff (h : Unwritten s) (p : Phase) : s.Watches p ↔ ¬s.ctx.Writes p := by
  constructor
  · intro hwatches hwrites
    obtain ⟨s', out, hphase, hno⟩ := not_armed_of_writes h.sound hwrites
    exact hno (hwatches _ hphase).1
  · intro hsilent r hr
    have h' := h.phase hsilent r.1 r.2 hr
    refine ⟨fun t ht => ?_, answered_none h.lastWrite p r.2⟩
    rw [h'.lastWrite] at ht
    exact nomatch ht

/--
**The receive timeout works in the runs that write nothing.**  In every run the deadline
is that of the last write and is answered when it is over, exactly when no phase of the
run writes.
-/
theorem watchdog_iff (ps : List Phase) :
    Meets phase Watches create ps ↔ Meets phase (fun s p => ¬s.ctx.Writes p) create ps :=
  meets_congr (J := Unwritten) (fun _ p h => watches_iff h p) (fun _ _ h hsilent => h.phase hsilent)
    ps ⟨create_sound, rfl⟩

/-- The first heartbeat, at 60 s: the deadline should be at 70 s, and there is none. -/
theorem watchdog_disarmed :
    ¬Meets phase Watches create
      [.ncStart 0 0, .work .etOk .etOk 0, .work .etOk .etOk 60000000,
        .nc true .nothing 60000000] := by
  decide +kernel

end Watched

end Awoke.Mtk
