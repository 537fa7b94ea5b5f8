/-
The works of a micro-talk context, in `micro_talk.c`.

A work is a callback with the time from which it may run and the data it gets.  The
context keeps up to eight of them in a priority queue that puts the earlier time first;
a ninth is refused.  A work can also be deleted by its callback, which takes out the
first that is found and only that one.

Times are microseconds of the wall clock in 64 bits.
-/
import Awoke.Util.Minpq

namespace Awoke.Mtk

/-- `MTK_US_PER_SEC`. -/
def usPerSec : UInt64 := 1000000

/-- `MTK_US_PER_MS`. -/
def usPerMs : UInt64 := 1000

/-- The callbacks that are scheduled, with their data: `nc_keepalive` always gets the
NOTICE connection, and `mtk_session_start` a session, named by its id. -/
inductive Handle
  | ncConnect
  | dcConnect
  | ncKeepalive
  | sessionStart (ss : Nat)
  deriving DecidableEq, Repr

/-- `struct _mtk_work`. -/
structure MtkWork where
  handle : Handle
  us : UInt64

/-- The time at its place, and zeros for the addresses and what pads them. -/
instance : Node MtkWork where
  zero := { handle := .ncConnect, us := 0 }
  nodesize := 32
  byte work a :=
    if 8 ≤ a ∧ a < 16 then (work.us >>> UInt64.ofNat (8 * (a - 8))).toUInt8 else 0

/-- `works_pq` of a context. -/
abbrev WorksPq := Minpq MtkWork

/-- `work_us_comparator`. -/
def workUsComparator (w1 w2 : MtkWork) : Bool := decide (w2.us < w1.us)

/-- `works_pq` as `mtk_context_create` sets it up. -/
def worksInit : WorksPq := Minpq.init 8 (some workUsComparator) 0

/-- `mtk_work_schedule` and `mtk_work_schedule_withdata`, at the time `now`. -/
def mtkWorkSchedule (worksPq : WorksPq) (cb : Handle) (us now : UInt64) :
    Option (ErrType × WorksPq) :=
  worksPq.insert { handle := cb, us := us + now } 0

/-- `mtk_retry_work_schedule`. -/
def mtkRetryWorkSchedule : ErrType := .etOk

/-- `mtk_work_delete`: the queue after; the code is always `et_ok`. -/
def mtkWorkDelete (worksPq : WorksPq) (cb : Handle) : Option WorksPq :=
  let found := (List.range' 1 worksPq.nodeNr).find? fun i =>
    (worksPq.get i).2.any fun u => u.1.handle == cb
  match found with
  | none => some worksPq
  | some i => (worksPq.del i).map fun r => r.2.2

/-- The part of `mtk_service_work` before the callback: the work to run at the time
`nowus`, if one is due, and the queue without it. -/
def mtkServiceWork (wq : WorksPq) (nowus : UInt64) : Option (Option Handle × WorksPq) :=
  match wq.get 1 with
  | (_, none) => some (none, wq)
  | (_, some (work, _)) =>
      if nowus < work.us then some (none, wq)
      else wq.delmin.map fun r => (r.2.1.map fun u => u.1.handle, r.2.2)

end Awoke.Mtk
