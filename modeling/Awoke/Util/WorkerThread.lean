/-
A worker and the thread it runs on, `awoke_worker.c`.

The thread of `worker_run` and the callers of `awoke_worker_start`, `awoke_worker_stop`,
`awoke_worker_suspend` and `awoke_worker_resume` take turns.  Each critical section is one
step; so is what a caller or the thread reads without the mutex.  `awoke_worker_suspend`
and `awoke_worker_resume` look at `_running` first and take the mutex afterwards, so a call
is two steps, and others may come between.

A wait on the condition that ends, for a signal or for none, is one more look at
`_running`.  What a handler does is left out, and that a worker is destroyed.
-/
import Awoke.Error

namespace Awoke

/-- `WORKER_FEAT_PERIODICITY`. -/
def featPeriodicity : BitVec 16 := 0x0001

/-- `WORKER_FEAT_SUSPEND`. -/
def featSuspend : BitVec 16 := 0x0002

/-- `WORKER_FEAT_REFERENCE`. -/
def featReference : BitVec 16 := 0x0080

/-- `WORKER_FEAT_CUSTOM_DEFINE`. -/
def featCustomDefine : BitVec 16 := 0x0100

/-- The features of a worker that has `worker_run` for its thread. -/
structure Features where
  mask : BitVec 16
  runs : maskExst mask featCustomDefine = false

/-- `mask_push(features, flag)` of a flag that is not `WORKER_FEAT_CUSTOM_DEFINE`. -/
def Features.push (features : Features) (flag : BitVec 16)
    (h : maskExst flag featCustomDefine = false) : Features :=
  { mask := maskPush features.mask flag
    runs := by rw [maskExst_push, features.runs, h]; rfl }

/-- What a handler is called with: the worker, or the `awoke_worker_context` that points to
it and has no other field. -/
inductive HandlerArg
  | worker
  | context
  deriving DecidableEq, Repr

/-- The handler of a worker: one that a caller of `awoke_worker_create` gave, or
`timer_scheduler`. -/
inductive Handler
  | given
  | timerScheduler
  deriving DecidableEq, Repr

/-- Where the thread is in `worker_run`: before the first line, at the top of the loop, at
`run_once`, at the condition of the loop, or behind it. -/
inductive RunPc
  | entry
  | top
  | once
  | loopTest
  | returned
  deriving DecidableEq, Repr

/-- `struct _awoke_worker`, with the place its thread is at and the callers that have read
`_running` and not yet changed it. -/
structure Worker where
  features : BitVec 16
  running : Bool
  forceStop : Bool
  reference : UInt32
  handler : Handler
  data : Nat
  pc : RunPc
  suspending : Nat
  resuming : Nat
  deriving DecidableEq

/-- One step of a caller or of the thread. -/
inductive WorkerStep
  | start
  | stop
  | suspendTest
  | suspendSet
  | resumeTest
  | resumeSet
  | thread
  deriving DecidableEq, Repr

/-- What a step does that can be seen: the worker is started, the thread looks at
`_running`, the handler is called, `worker_run` returns. -/
inductive WorkerEvent
  | started
  | checked (running : Bool)
  | called (arg : HandlerArg)
  | returned
  deriving DecidableEq, Repr

namespace Worker

/-- `mask_exst(wk->features, flag)`. -/
def feat (wk : Worker) (flag : BitVec 16) : Bool := maskExst wk.features flag

/-- `awoke_worker_create`. -/
def create (features : Features) (handler : Handler) (data : Nat) : Worker :=
  { features := features.mask
    running := false
    forceStop := false
    reference := 0
    handler := handler
    data := data
    pc := .entry
    suspending := 0
    resuming := 0 }

/-- `awoke_tmwkr_create`: the scheduler of the timer worker `twk`. -/
def tmwkrCreate (features : Features) (twk : Nat) : Worker :=
  let features :=
    if maskExst features.mask featPeriodicity then features
    else features.push featPeriodicity (by decide)
  let features :=
    if maskExst features.mask featSuspend then features
    else features.push featSuspend (by decide)
  create features .timerScheduler twk

/-- `worker_reference`. -/
def countReference (wk : Worker) : Worker :=
  if wk.feat featReference then
    let reference := wk.reference + 1
    { wk with reference := if 0xfffffffe ≤ reference then 0 else reference }
  else wk

/-- One step of `worker_run`. -/
def threadStep (wk : Worker) : Worker × List WorkerEvent :=
  match wk.pc with
  | .entry =>
      if wk.feat featPeriodicity then ({ wk with pc := .top }, [])
      else ({ wk with pc := .top }, [.called .worker])
  | .top =>
      if wk.feat featSuspend then
        ({ wk with pc := if wk.running then .once else .top }, [.checked wk.running])
      else ({ wk with pc := .once }, [])
  | .once => ({ wk.countReference with pc := .loopTest }, [.called .context])
  | .loopTest =>
      if wk.forceStop then ({ wk with pc := .returned }, [.returned])
      else ({ wk with pc := .top }, [])
  | .returned => (wk, [])

/-- One step. -/
def step (wk : Worker) : WorkerStep → Worker × List WorkerEvent
  | .start => ({ wk with running := true }, [.started])
  | .stop => ({ wk with forceStop := true }, [])
  | .suspendTest => (if wk.running then { wk with suspending := wk.suspending + 1 } else wk, [])
  | .suspendSet =>
      (if 0 < wk.suspending then { wk with running := false, suspending := wk.suspending - 1 }
        else wk, [])
  | .resumeTest => (if wk.running then wk else { wk with resuming := wk.resuming + 1 }, [])
  | .resumeSet =>
      (if 0 < wk.resuming then { wk with running := true, resuming := wk.resuming - 1 }
        else wk, [])
  | .thread => wk.threadStep

/-- What a run of steps does. -/
def log (wk : Worker) : List WorkerStep → List WorkerEvent
  | [] => []
  | i :: is => (wk.step i).2 ++ (wk.step i).1.log is

/-- `wk->data` of `timer_scheduler`, which takes what it is called with for a worker.  In
a context there is nothing where a worker has its `data`. -/
def schedulerData (wk : Worker) : HandlerArg → Option Nat
  | .worker => some wk.data
  | .context => none

end Worker

end Awoke
