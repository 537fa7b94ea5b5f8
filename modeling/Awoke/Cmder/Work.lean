/-
The work queue of the commander, in `cmder.c`.

A work is a callback and the time from which it may run, in milliseconds of the wall
clock cut to 32 bits.  The queue is a priority queue of eight works under a comparator
that puts the smaller time first.  Each turn of the main loop runs at most one work.

The callback is called after its work was taken out of the queue and may schedule works
of its own; to the queue these are calls like any other, so the model leaves the calling
to its caller and says which work is to be run.  The field `data` is left out: nothing
sets or reads it.
-/
import Awoke.Util.Minpq

namespace Awoke.Cmder

/-- `struct timeval`, as `gettimeofday` fills it in. -/
structure Timeval where
  sec : Int64
  usec : Int64
  usec_nonneg : 0 ≤ usec.toInt
  usec_lt : usec.toInt < 1000000

/-- `struct cmder_work`. -/
structure Work (η : Type) where
  handle : η
  ms : UInt32

variable {η : Type}

/-- The callback and the time, with what pads them and the fields left out as zeros. -/
instance [Node η] : Node (Work η) where
  zero := { handle := 0, ms := 0 }
  nodesize := 32
  byte work a :=
    if a < 8 then Node.byte work.handle a
    else if a < 12 then (work.ms >>> UInt32.ofNat (8 * (a - 8))).toUInt8
    else 0

/-- `work_ms_comparator`. -/
def workMsComparator (w1 w2 : Work η) : Bool := decide (w2.ms < w1.ms)

/-- `ms + tv.tv_sec*1000 + tv.tv_usec/1000`, computed in 64 bits and cut to 32. -/
def msec (ms : UInt32) (tv : Timeval) : UInt32 :=
  (ms.toUInt64.toInt64 + tv.sec * 1000 + tv.usec / 1000).toUInt64.toUInt32

variable [Node η]

/-- The work queue as `cmder_init` sets it up. -/
def workqueueInit : Minpq (Work η) := Minpq.init 8 (some workMsComparator) 0

/-- `cmder_work_schedule`, at the time `tv`. -/
def workSchedule (workqueue : Minpq (Work η)) (cb : η) (ms : UInt32) (tv : Timeval) :
    Option (ErrType × Minpq (Work η)) :=
  workqueue.insert { handle := cb, ms := msec ms tv } 0

/-- `cmder_workqueue_service`, at the time `tv`: its result, the work it runs, and the
queue as that work finds it. -/
def workqueueService (wq : Minpq (Work η)) (tv : Timeval) :
    Option (UInt32 × Option (Work η) × Minpq (Work η)) :=
  match wq.get 1 with
  | (_, none) => some (0, none, wq)
  | (_, some (work, _)) =>
      let nowms := msec 0 tv
      if nowms < work.ms then some (work.ms - nowms, none, wq)
      else wq.delmin.map fun r => (0, r.2.1.map fun u => u.1, r.2.2)

end Awoke.Cmder
