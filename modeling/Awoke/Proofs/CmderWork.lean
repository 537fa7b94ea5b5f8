/-
When the commander's works run.

To tell which call a work comes from, the callback is scheduled together with the time
and the delay of its call (`Request`); the queue never looks at a callback, so this only
names what is there.  A request is due a delay after the millisecond it was made in, and
what the queue stores of that time are its low 32 bits.

`service_pending` says what a turn of the loop does: of the requests pending it looks at
one whose stored time is least, and runs it when that is not above the stored time of
now.  Whether that is the right request at the right time is then a matter of three
comparisons, and `Timely` says of each of them that it is not deceived: twice by the
bits that were cut off, and once by the part of a millisecond that was.
-/
import Awoke.Cmder.Work
import Awoke.Proofs.Minpq

namespace Awoke.Cmder

/-! ### The stored times -/

/-- Microseconds since the epoch. -/
def Timeval.us (tv : Timeval) : Int := tv.sec.toInt * 1000000 + tv.usec.toInt

/-- Whole milliseconds since the epoch. -/
def Timeval.millis (tv : Timeval) : Int := tv.sec.toInt * 1000 + tv.usec.toInt / 1000

theorem bmod_emod (z : Int) : z.bmod (2 ^ 64) % 2 ^ 32 = z % 2 ^ 32 := by
  rw [Int.bmod_def]
  omega

theorem toUInt32_toNat (x : Int64) : (x.toUInt64.toUInt32.toNat : Int) = x.toInt % 2 ^ 32 := by
  rw [UInt64.toNat_toUInt32, ← Int64.toInt_toBitVec, BitVec.toInt_eq_toNat_cond,
    Int64.toNat_toBitVec]
  split <;> omega

theorem toInt64_toInt (ms : UInt32) : ms.toUInt64.toInt64.toInt = ms.toNat := by
  have hlt := ms.toNat_lt
  rw [← Int64.toInt_toBitVec, BitVec.toInt_eq_toNat_cond, Int64.toNat_toBitVec,
    UInt64.toUInt64_toInt64, UInt32.toNat_toUInt64, if_pos (by omega)]

/-- A stored time is the time modulo `2 ^ 32`, for every time there is. -/
theorem msec_toNat (ms : UInt32) (tv : Timeval) :
    ((msec ms tv).toNat : Int) = (tv.millis + ms.toNat) % 2 ^ 32 := by
  have hnonneg := tv.usec_nonneg
  have hlt := tv.usec_lt
  have hthousand : (1000 : Int64).toInt = 1000 := rfl
  have hdiv : (tv.usec / 1000).toInt = tv.usec.toInt / 1000 := by
    rw [Int64.toInt_div, hthousand, Int.tdiv_eq_ediv_of_nonneg hnonneg, Int.bmod_def]
    omega
  have hsec := bmod_emod (tv.sec.toInt * 1000)
  rw [msec, toUInt32_toNat, Int64.toInt_add, bmod_emod, Int64.toInt_add, Int.add_emod,
    bmod_emod, ← Int.add_emod, Int64.toInt_mul, toInt64_toInt, hdiv, hthousand, Timeval.millis]
  omega

namespace Workqueue

/-! ### Requests -/

/-- A callback, and the call that scheduled it. -/
structure Request (η : Type) where
  handle : η
  time : Timeval
  delay : UInt32

/-- The millisecond from which the request may run. -/
def Request.due {η : Type} (r : Request η) : Int := r.time.millis + r.delay.toNat

/-- What the queue stores of it. -/
def Request.stamp {η : Type} (r : Request η) : UInt32 := msec r.delay r.time

/-- The node that holds the request. -/
def Request.node {η : Type} (r : Request η) : Work (Request η) × Int32 :=
  ({ handle := r, ms := r.stamp }, 0)

/-- In memory a request is its callback. -/
instance {η : Type} [Node η] : Node (Request η) where
  zero :=
    { handle := 0
      time := { sec := 0, usec := 0, usec_nonneg := by decide, usec_lt := by decide }
      delay := 0 }
  nodesize := Node.nodesize η
  byte r := Node.byte r.handle

variable {η : Type}

theorem workMs_total : BinHeap.TotalPreorder (workMsComparator (η := η)) := by
  have hms : BinHeap.TotalPreorder fun x y : UInt32 => decide (y < x) := by
    refine ⟨fun a b => ?_, fun a b c => ?_⟩
    · simp only [decide_eq_false_iff_not, UInt32.not_lt]
      exact UInt32.le_total a b
    · simp only [decide_eq_false_iff_not, UInt32.not_lt]
      exact UInt32.le_trans
  exact hms.comp Work.ms

theorem order_total : BinHeap.TotalPreorder (Minpq.order (some (workMsComparator (η := η)))) :=
  Minpq.order_total fun gt h => by
    rw [← Option.some.inj h]
    exact workMs_total

/-! ### Calls and what they should do -/

/-- The calls on the work queue, each at its time. -/
inductive Call (η : Type)
  | schedule (cb : η) (ms : UInt32) (tv : Timeval)
  | service (tv : Timeval)

/-- What comes of a call: the code of `cmder_work_schedule`; from
`cmder_workqueue_service`, how long it would wait or the request it runs. -/
inductive Outcome (η : Type)
  | scheduled (code : ErrType)
  | waits (ms : UInt32)
  | runs (r : Request η)

/-- A bounded set of requests: a request runs when its delay is over, and before those
that are due later. -/
def Spec (t : Multiset (Request η)) : Call η → Outcome η → Multiset (Request η) → Prop
  | .schedule cb ms tv, out, t' =>
      if t.card = 8 then out = .scheduled .etFull ∧ t' = t
      else out = .scheduled .etOk ∧ t' = { handle := cb, time := tv, delay := ms } ::ₘ t
  | .service tv, out, t' =>
      (∃ ms, out = .waits ms ∧ t' = t) ∨
        ∃ r, out = .runs r ∧ t = r ::ₘ t' ∧ r.time.us + 1000 * r.delay.toNat ≤ tv.us ∧
          ∀ y ∈ t', r.due ≤ y.due

/-- The queue holds the requests `t`, as a heap by their stored times. -/
def Pending (wq : Minpq (Work (Request η))) (t : Multiset (Request η)) : Prop :=
  Minpq.Bounded 8 (some workMsComparator) Minpq.flagCDC wq (t.map Request.node)

/-- The requests in a queue. -/
def pending (wq : Minpq (Work (Request η))) : Multiset (Request η) :=
  (BinHeap.held wq.nodeNr wq.entry).map fun e => e.1.handle

theorem Pending.eq {wq : Minpq (Work (Request η))} {t : Multiset (Request η)}
    (h : Pending wq t) : pending wq = t := by
  have hheld := h.toHolds.held
  rw [pending, hheld, Multiset.map_map]
  exact Multiset.map_id t

/-! ### Comparisons that are not deceived -/

/-- No comparison of the queue's is deceived about the requests pending at this call: one
that looks due is, one that looks due no later than another is, and none is met in the
very millisecond it is due at an earlier point of it than it was made at. -/
structure Timely (s : Multiset (Request η)) (tv : Timeval) : Prop where
  now : ∀ r ∈ s, r.stamp ≤ msec 0 tv → r.due ≤ tv.millis
  order : ∀ r ∈ s, ∀ y ∈ s, r.stamp ≤ y.stamp → r.due ≤ y.due
  phase : ∀ r ∈ s, r.due = tv.millis → r.time.usec.toInt % 1000 ≤ tv.usec.toInt % 1000

/-- Times that agree in all but their low 32 bits are compared by those. -/
theorem timely_of_window {s : Multiset (Request η)} {tv : Timeval}
    (h : ∀ r ∈ s, r.due / 2 ^ 32 = tv.millis / 2 ^ 32)
    (hphase : ∀ r ∈ s, r.due = tv.millis → r.time.usec.toInt % 1000 ≤ tv.usec.toInt % 1000) :
    Timely s tv := by
  have hle (a b : UInt32) : a ≤ b ↔ (a.toNat : Int) ≤ b.toNat := by
    rw [Int.ofNat_le, UInt32.le_iff_toNat_le]
  refine ⟨fun r hr hlt => ?_, fun r hr y hy hlt => ?_, hphase⟩
  · rw [hle, Request.stamp, msec_toNat, msec_toNat] at hlt
    have hwindow := h r hr
    unfold Request.due at hwindow ⊢
    have hzero : (0 : UInt32).toNat = 0 := rfl
    omega
  · rw [hle, Request.stamp, Request.stamp, msec_toNat, msec_toNat] at hlt
    have hwindow := (h r hr).trans (h y hy).symm
    unfold Request.due at hwindow ⊢
    omega

theorem elapsed {r : Request η} {tv : Timeval} (hdue : r.due ≤ tv.millis)
    (hphase : r.due = tv.millis → r.time.usec.toInt % 1000 ≤ tv.usec.toInt % 1000) :
    r.time.us + 1000 * r.delay.toNat ≤ tv.us := by
  unfold Request.due Timeval.millis at hdue hphase
  unfold Timeval.us
  omega

/-! ### The two calls -/

variable [Node η]

/-- One call on the work queue. -/
def call (wq : Minpq (Work (Request η))) :
    Call η → Option (Minpq (Work (Request η)) × Outcome η)
  | .schedule cb ms tv =>
      (workSchedule wq { handle := cb, time := tv, delay := ms } ms tv).map fun r =>
        (r.2, .scheduled r.1)
  | .service tv =>
      (workqueueService wq tv).map fun r =>
        (r.2.2, match r.2.1 with
          | none => .waits r.1
          | some work => .runs work.handle)

variable {wq : Minpq (Work (Request η))} {t : Multiset (Request η)}

theorem init_pending : Pending (workqueueInit (η := Request η)) 0 := by
  have h := Minpq.init_bounded (some (workMsComparator (η := Request η))) (by decide : 0 < 8)
    (by decide : maskExst (0 : BitVec 16) Minpq.flagRES = false)
  have hflags : (workqueueInit (η := Request η)).flags = Minpq.flagCDC := by
    show maskPush (maskPush 0 Minpq.flagCDC) 0 = Minpq.flagCDC
    decide
  rw [Pending, Multiset.map_zero, ← hflags]
  exact h

theorem schedule_step (h : Pending wq t) (cb : η) (ms : UInt32) (tv : Timeval) :
    Machine.StepRefines call Spec Pending wq t (.schedule cb ms tv) := by
  obtain ⟨q', out, s', hcall, hspec, h'⟩ :=
    h.insert order_total { handle := { handle := cb, time := tv, delay := ms }, ms := msec ms tv } 0
  obtain ⟨⟨code, q⟩, hins, heq⟩ := Option.map_eq_some_iff.mp hcall
  obtain ⟨rfl, rfl⟩ := Prod.mk.inj heq
  have hstep : call wq (.schedule cb ms tv) = some (q, .scheduled code) := by
    rw [call, workSchedule, hins]
    rfl
  simp only [Minpq.Spec, Option.some.injEq, Multiset.card_map] at hspec
  by_cases hfull : 8 = t.card
  · rw [if_pos hfull] at hspec
    obtain ⟨hcode, rfl⟩ := hspec
    refine ⟨q, _, t, hstep, ?_, h'⟩
    exact (if_pos hfull.symm).mpr ⟨congrArg Outcome.scheduled (Prod.mk.inj hcode).1, rfl⟩
  · rw [if_neg hfull] at hspec
    obtain ⟨hcode, rfl⟩ := hspec
    refine ⟨q, _, { handle := cb, time := tv, delay := ms } ::ₘ t, hstep, ?_, ?_⟩
    · exact (if_neg (Ne.symm hfull)).mpr ⟨congrArg Outcome.scheduled (Prod.mk.inj hcode).1, rfl⟩
    · rw [Pending, Multiset.map_cons]
      exact h'

/-- **A turn of the loop** looks at a request whose stored time is least, and runs it
unless that is above the stored time of now. -/
theorem service_pending (h : Pending wq t) (tv : Timeval) :
    (t = 0 ∧ call wq (.service tv) = some (wq, .waits 0)) ∨
      ∃ r t', t = r ::ₘ t' ∧ (∀ y ∈ t', r.stamp ≤ y.stamp) ∧
        if msec 0 tv < r.stamp then
          call wq (.service tv) = some (wq, .waits (r.stamp - msec 0 tv))
        else ∃ wq', call wq (.service tv) = some (wq', .runs r) ∧ Pending wq' t' := by
  by_cases hempty : wq.empty = true
  · refine .inl ⟨?_, by simp [call, workqueueService, Minpq.get, hempty]⟩
    exact Multiset.map_eq_zero.mp (h.toHolds.empty_iff.mp hempty)
  · rw [Bool.not_eq_true] at hempty
    obtain ⟨rest, wq', hs, hmin, hpop, h'⟩ := h.pop order_total hempty
    classical
    obtain ⟨r, hr, hnode, hrest⟩ := (Multiset.map_eq_cons Request.node t rest _).mpr hs
    refine .inr ⟨r, t.erase r, (Multiset.cons_erase hr).symm, ?_, ?_⟩
    · intro y hy
      have hle := hmin y.node (by rw [← hrest]; exact Multiset.mem_map_of_mem _ hy)
      rw [← hnode] at hle
      exact UInt32.not_lt.mp (of_decide_eq_false hle)
    · have hget : wq.get 1 = (.etOk, some r.node) := by
        rw [Minpq.get, hempty, hnode]
        rfl
      rw [← hrest] at h'
      split
      · rename_i hlt
        simp [call, workqueueService, hget, Request.node, hlt]
      · rename_i hlt
        refine ⟨wq', ?_, h'⟩
        simp [call, workqueueService, hget, hpop, ← hnode, Request.node, hlt]

/-! ### Which runs are in order -/

/-- Each turn of the loop is timely. -/
def Safe (wq : Minpq (Work (Request η))) : Call η → Prop
  | .schedule _ _ _ => True
  | .service tv => Timely (pending wq) tv

theorem service_step (h : Pending wq t) {tv : Timeval} (hsafe : Timely t tv) :
    Machine.StepRefines call Spec Pending wq t (.service tv) := by
  rcases service_pending h tv with ⟨rfl, hcall⟩ | ⟨r, t', rfl, hmin, hcall⟩
  · exact ⟨wq, _, 0, hcall, .inl ⟨0, rfl, rfl⟩, h⟩
  split at hcall
  · exact ⟨wq, _, r ::ₘ t', hcall, .inl ⟨_, rfl, rfl⟩, h⟩
  · rename_i hdue
    obtain ⟨wq', hruns, h'⟩ := hcall
    have hr := Multiset.mem_cons_self r t'
    refine ⟨wq', _, t', hruns, .inr ⟨r, rfl, rfl, ?_, ?_⟩, h'⟩
    · exact elapsed (hsafe.now r hr (UInt32.not_lt.mp hdue)) (hsafe.phase r hr)
    · intro y hy
      exact hsafe.order r hr y (Multiset.mem_cons_of_mem hy) (hmin y hy)

/--
**Works run when their delay is over, and in the order they are due**, in every run in
which each turn of the loop is timely: the times may be any, and so may the delays, the
callbacks and the number of requests pending, as far as the queue takes them.
-/
theorem works_run (cs : List (Call η)) (h : Machine.Meets call Safe workqueueInit cs) :
    Machine.RunRefines call Spec Pending (workqueueInit (η := Request η)) 0 cs := by
  refine Machine.runRefines_of_step (C := Safe) ?_ cs _ _ init_pending h
  intro wq t c h hsafe
  cases c with
  | schedule cb ms tv => exact schedule_step h cb ms tv
  | service tv =>
      refine service_step h ?_
      rw [← h.eq]
      exact hsafe

/-! ### A timely run, and one that is not -/

theorem schedule_first (cb : η) (ms : UInt32) (tv : Timeval) :
    ∃ wq, call workqueueInit (.schedule cb ms tv) = some (wq, .scheduled .etOk) ∧
      Pending wq {{ handle := cb, time := tv, delay := ms }} := by
  obtain ⟨wq, out, t', hcall, hspec, h⟩ := schedule_step init_pending cb ms tv
  obtain ⟨rfl, rfl⟩ := hspec
  exact ⟨wq, hcall, h⟩

/-- A code address, low byte first. -/
instance : Node UInt64 where
  nodesize := 8
  byte u a := (u >>> UInt64.ofNat (8 * a)).toUInt8

/-- 102 s after the epoch, a work that was scheduled two seconds before. -/
theorem works_run_102 :
    Machine.RunRefines call Spec Pending (workqueueInit (η := Request UInt64)) 0
      [.schedule 7 2000 ⟨100, 0, by decide, by decide⟩,
        .service ⟨102, 0, by decide, by decide⟩] := by
  obtain ⟨wq, hcall, h⟩ := schedule_first (7 : UInt64) 2000 ⟨100, 0, by decide, by decide⟩
  refine works_run _ ((Machine.meets_some call hcall).mpr ⟨trivial, ?_, fun _ _ _ => trivial⟩)
  show Timely (pending wq) _
  rw [h.eq]
  refine timely_of_window (fun r hr => ?_) fun r hr _ => ?_
  · rw [Multiset.mem_singleton.mp hr]
    decide
  · rw [Multiset.mem_singleton.mp hr]

/-- **The clock wraps.**  In the last millisecond before a multiple of 2^32, a work with a
delay of one millisecond runs at once. -/
theorem works_run_early :
    ¬Machine.RunRefines call Spec Pending (workqueueInit (η := Request UInt64)) 0
      [.schedule 7 1 ⟨4294967, 295000, by decide, by decide⟩,
        .service ⟨4294967, 295000, by decide, by decide⟩] := by
  intro hrun
  obtain ⟨wq, hcall, h⟩ :=
    schedule_first (7 : UInt64) 1 ⟨4294967, 295000, by decide, by decide⟩
  obtain ⟨-, wq₁, out₁, t₁, hcall₁, ⟨-, rfl⟩, -, wq₂, out₂, t₂, hcall₂, hspec, -⟩ := hrun
  obtain ⟨rfl, -⟩ := Prod.mk.inj (Option.some.inj (hcall.symm.trans hcall₁))
  rcases service_pending h ⟨4294967, 295000, by decide, by decide⟩ with
    ⟨hzero, -⟩ | ⟨r, t', ht, -, hruns⟩
  · exact Multiset.singleton_ne_zero _ hzero
  obtain ⟨rfl, rfl⟩ := (Multiset.singleton_eq_cons_iff _).mp ht
  rw [if_neg (by decide)] at hruns
  obtain ⟨wq₃, hruns, -⟩ := hruns
  rw [hruns, Option.some.injEq, Prod.mk.injEq] at hcall₂
  rcases hspec with ⟨ms, hwaits, -⟩ | ⟨r, hr, -, helapsed, -⟩
  · exact nomatch hwaits.symm.trans hcall₂.2.symm
  · obtain rfl := Outcome.runs.inj (hr.symm.trans hcall₂.2.symm)
    revert helapsed
    decide

end Workqueue

end Awoke.Cmder
