/-
The control calls of a worker and the wait they end, `awoke_worker.c`.

In `WorkerThread` a wait on the condition is one more look at `_running`.  Here it is a
wait: the thread that has looked in vain does nothing until it is notified, and then looks
again.  A call that has been made and has not yet had the mutex is pending; for
`awoke_worker_suspend` and `awoke_worker_resume` that is one that has read `_running` and
found something to do.
-/
import Awoke.Util.WorkerThread

namespace Awoke

/-- The calls that control a worker. -/
inductive ControlCall
  | start
  | stop
  | suspend
  | resume
  deriving DecidableEq, Repr

/-- One step: a call is made, a call gets the mutex, or the thread takes a step. -/
inductive ControlStep
  | call (c : ControlCall)
  | enter (c : ControlCall)
  | thread
  deriving DecidableEq, Repr

/-- A worker with its condition: whether the thread waits, and how many calls of
`awoke_worker_start` and `awoke_worker_stop` have yet to get the mutex. -/
structure Control where
  wk : Worker
  waiting : Bool
  starting : Nat
  stopping : Nat
  deriving DecidableEq

namespace Control

/-- A worker that was just created. -/
def create (wk : Worker) : Control := { wk := wk, waiting := false, starting := 0, stopping := 0 }

/-- `worker_should_suspend` ends in `worker_condition_wait`. -/
def waits (wk : Worker) : Bool :=
  decide (wk.pc = .top) && wk.feat featSuspend && !wk.running

/-- What a call does before it asks for the mutex. -/
def call (s : Control) : ControlCall → Control
  | .start => { s with starting := s.starting + 1 }
  | .stop => { s with stopping := s.stopping + 1 }
  | .suspend => { s with wk := (s.wk.step .suspendTest).1 }
  | .resume => { s with wk := (s.wk.step .resumeTest).1 }

/-- What a pending call does with the mutex.  All but `awoke_worker_stop` notify the
thread. -/
def enter (s : Control) : ControlCall → Control × List WorkerEvent
  | .start =>
      if 0 < s.starting then
        ({ s with wk := (s.wk.step .start).1, waiting := false, starting := s.starting - 1 },
          (s.wk.step .start).2)
      else (s, [])
  | .stop =>
      if 0 < s.stopping then
        ({ s with wk := (s.wk.step .stop).1, stopping := s.stopping - 1 }, [])
      else (s, [])
  | .suspend =>
      if 0 < s.wk.suspending then
        ({ s with wk := (s.wk.step .suspendSet).1, waiting := false }, [])
      else (s, [])
  | .resume =>
      if 0 < s.wk.resuming then
        ({ s with wk := (s.wk.step .resumeSet).1, waiting := false }, [])
      else (s, [])

/-- One step of the thread, which does nothing while it waits. -/
def thread (s : Control) : Control × List WorkerEvent :=
  if s.waiting then (s, [])
  else ({ s with wk := (s.wk.step .thread).1, waiting := waits s.wk }, (s.wk.step .thread).2)

/-- One step. -/
def step (s : Control) : ControlStep → Control × List WorkerEvent
  | .call c => (s.call c, [])
  | .enter c => s.enter c
  | .thread => s.thread

/-- The steps that the worker takes meanwhile when a wait is one more look. -/
def coarse (s : Control) : ControlStep → List WorkerStep
  | .call .suspend => [.suspendTest]
  | .call .resume => [.resumeTest]
  | .enter .start => if 0 < s.starting then [.start] else []
  | .enter .stop => if 0 < s.stopping then [.stop] else []
  | .enter .suspend => [.suspendSet]
  | .enter .resume => [.resumeSet]
  | .thread => if s.waiting then [] else [.thread]
  | .call _ => []

end Control

end Awoke
