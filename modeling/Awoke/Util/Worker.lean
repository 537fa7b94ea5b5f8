/-
The timer worker, `awoke_worker.c`.

A task counts its `tick` down in every round and is handled when it reaches zero, if
`can_sched` does not object.  A periodic task starts over; any other is unlinked and
freed, and the last line of the loop still sets its `tick` from its `clock`.

What a round does to the outside is a list of events; an access to a task that is freed
is one of them.  The functions a task carries are asked with the number of the round, so
that they may answer differently every time.
-/
import Awoke.Error

namespace Awoke

/-- `struct _awoke_tmtsk`. -/
structure Tmtsk where
  name : String
  tid : Nat
  tick : UInt32
  clock : UInt32
  periodic : Bool
  canSched : Option (Nat → Bool)
  handle : Nat → ErrType
  errProc : Bool

/-- `struct _awoke_tmwkr`, as far as the scheduler uses it. -/
structure Tmwkr where
  taskNr : Nat
  taskQueue : List Tmtsk
  schedEnd : Bool

/-- What a round does: a handler or an `err_proc` is called, a field of a task that was
freed is accessed, `sched_end` is called. -/
inductive TmEvent
  | handled (tid : Nat)
  | failed (tid : Nat)
  | stale (tid : Nat)
  | ended
  deriving DecidableEq, Repr

namespace Tmwkr

/-- `awoke_tmwkr_task_register`. -/
def taskRegister (name : String) (clock : UInt32) (periodic : Bool)
    (canSched : Option (Nat → Bool)) (handle : Nat → ErrType) (twk : Tmwkr) : Tmwkr :=
  let task : Tmtsk :=
    { name := name
      tid := twk.taskNr
      tick := clock
      clock := clock
      periodic := periodic
      canSched := canSched
      handle := handle
      errProc := false }
  { twk with taskNr := twk.taskNr + 1, taskQueue := twk.taskQueue ++ [task] }

/-- The body of the loop of `timer_scheduler` for one task: what stays of it in the queue,
the number of tasks after it, and what it did. -/
def schedTask (round taskNr : Nat) (task : Tmtsk) : Option Tmtsk × Nat × List TmEvent :=
  let task := { task with tick := task.tick - 1 }
  let canSched : Bool :=
    if task.tick = 0 then task.canSched.elim true fun f => f round else false
  if canSched then
    let events := .handled task.tid ::
      if task.handle round ≠ .etOk ∧ task.errProc then [.failed task.tid] else []
    if ¬task.periodic then
      -- the task is freed here, and `task->tick = task->clock` comes after
      (none, taskNr - 1, events ++ [.stale task.tid])
    else (some { task with tick := task.clock }, taskNr, events)
  else (some task, taskNr, [])

/-- The loop of `timer_scheduler`. -/
def schedTasks (round : Nat) : Nat → List Tmtsk → List Tmtsk × Nat × List TmEvent
  | taskNr, [] => ([], taskNr, [])
  | taskNr, task :: rest =>
      let (kept, taskNr, events) := schedTask round taskNr task
      let (queue, taskNr, more) := schedTasks round taskNr rest
      (kept.toList ++ queue, taskNr, events ++ more)

/-- `timer_scheduler` in its `round`-th call. -/
def timerScheduler (round : Nat) (twk : Tmwkr) : Tmwkr × List TmEvent :=
  if twk.taskQueue.isEmpty then (twk, [])
  else
    let (queue, taskNr, events) := schedTasks round twk.taskNr twk.taskQueue
    ({ twk with taskNr := taskNr, taskQueue := queue },
      events ++ if twk.schedEnd then [.ended] else [])

/-- `n` calls, and what each of them did. -/
def rounds (twk : Tmwkr) : Nat → Tmwkr × List (List TmEvent)
  | 0 => (twk, [])
  | n + 1 =>
      let (twk, log) := rounds twk n
      let (twk, events) := timerScheduler (n + 1) twk
      (twk, log ++ [events])

end Tmwkr

/-! ### Registrations between rounds -/

/-- The arguments of `awoke_tmwkr_task_register`. -/
structure TaskArgs where
  name : String
  clock : UInt32
  periodic : Bool
  canSched : Option (Nat → Bool)
  handle : Nat → ErrType

/-- A worker, and the number of rounds it has made. -/
structure Tmrun where
  twk : Tmwkr
  round : Nat

/-- What happens to a worker: a task is registered, or the scheduler is called. -/
inductive TmInput
  | register (a : TaskArgs)
  | round

namespace Tmrun

/-- As `awoke_tmwkr_create` leaves it. -/
def create (schedEnd : Bool) : Tmrun :=
  { twk := { taskNr := 0, taskQueue := [], schedEnd := schedEnd }, round := 0 }

/-- One step of a worker. -/
def step (s : Tmrun) : TmInput → Tmrun × List TmEvent
  | .register a =>
      ({ s with twk := s.twk.taskRegister a.name a.clock a.periodic a.canSched a.handle }, [])
  | .round =>
      let (twk, events) := s.twk.timerScheduler (s.round + 1)
      ({ twk := twk, round := s.round + 1 }, events)

end Tmrun

end Awoke
