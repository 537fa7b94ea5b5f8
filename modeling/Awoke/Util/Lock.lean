/-
A lock and the threads that use it, `awoke_lock.c`.

A call is taken step by step, as other threads may see it: the flag `locked` is read and written apart
from the semaphore or the mutex below it.  Any number of threads call in any order; a thread releases
the lock only if its call to acquire it has returned `et_ok`, and does not acquire it again before.

A wait for a semaphore may be interrupted by a signal, and `sem_acquire` does not look at what `sem_wait`
returns.  A wait for a mutex is never interrupted.
-/
import Mathlib.Logic.Function.Basic

namespace Awoke.Lock

/-- `AWOKE_LOCK_T_SEM` and `AWOKE_LOCK_T_MUX`. -/
inductive LockType
  | sem
  | mux
  deriving DecidableEq

/-- `AWOKE_LOCK_F_NOBLOCK` and `AWOKE_LOCK_F_BLOCK`. -/
inductive LockFlag
  | noblock
  | block
  deriving DecidableEq

/-- Where a thread is. -/
inductive Pc
  /-- It is in no call, and does not have the lock. -/
  | out
  /-- In `awoke_lock_acquire`, before `locked` is read. -/
  | asked (flag : LockFlag)
  /-- In `_lock_acquire`. -/
  | waits
  /-- In `_lock_acquire_timeout`. -/
  | timed
  /-- Behind it, before `locked` is set. -/
  | entered
  /-- The call has returned `et_ok`. -/
  | holds
  /-- In `awoke_lock_release`, before `_lock_release`. -/
  | leaves
  /-- Behind it, before `locked` is cleared. -/
  | left
  deriving DecidableEq

/-- `awoke_lock` and its threads.  `value` is that of the semaphore; it is 1 for a mutex that is free,
and 0 for one that is not. -/
structure St (τ : Type*) where
  type : LockType
  value : Nat
  locked : Bool
  pc : τ → Pc

/-- `awoke_lock_create`. -/
def awokeLockCreate {τ : Type*} (type : LockType) : St τ :=
  { type := type, value := 1, locked := false, pc := fun _ => .out }

/-- A step of a thread: it makes a call, or its call goes on. -/
inductive Act (τ : Type*)
  | acquire (t : τ) (flag : LockFlag)
  | acquireTimeout (t : τ)
  | release (t : τ)
  /-- `locked` is read. -/
  | test (t : τ)
  /-- `sem_wait`, `sem_timedwait`, `pthread_mutex_lock` or `pthread_mutex_timedlock` succeeds. -/
  | wait (t : τ)
  /-- `sem_wait` is interrupted. -/
  | interrupt (t : τ)
  /-- The timed wait fails. -/
  | timeout (t : τ)
  /-- `locked` is set. -/
  | set (t : τ)
  /-- `sem_post` or `pthread_mutex_unlock`. -/
  | post (t : τ)
  /-- `locked` is cleared. -/
  | clear (t : τ)

variable {τ : Type*} [DecidableEq τ]

/-- A thread goes on to `pc`. -/
def St.goes (s : St τ) (t : τ) (pc : Pc) : St τ := { s with pc := Function.update s.pc t pc }

/-- A step, if the thread is at it. -/
def St.step (s : St τ) : Act τ → Option (St τ)
  | .acquire t flag => if s.pc t = .out then some (s.goes t (.asked flag)) else none
  | .acquireTimeout t => if s.pc t = .out then some (s.goes t .timed) else none
  | .release t => if s.pc t = .holds then some (s.goes t .leaves) else none
  | .test t =>
      if s.pc t = .asked .noblock then
        -- `et_locked` is returned.
        if s.locked then some (s.goes t .out) else some (s.goes t .waits)
      else if s.pc t = .asked .block then some (s.goes t .waits)
      else none
  | .wait t =>
      if (s.pc t = .waits ∨ s.pc t = .timed) ∧ 0 < s.value then
        some { s.goes t .entered with value := s.value - 1 }
      else none
  | .interrupt t =>
      if s.pc t = .waits ∧ s.type = .sem then some (s.goes t .entered) else none
  | .timeout t => if s.pc t = .timed then some (s.goes t .out) else none
  | .set t => if s.pc t = .entered then some { s.goes t .holds with locked := true } else none
  | .post t =>
      if s.pc t = .leaves then
        some { s.goes t .left with value := if s.type = .sem then s.value + 1 else 1 }
      else none
  | .clear t => if s.pc t = .left then some { s.goes t .out with locked := false } else none

/-- Steps, one after the other. -/
def St.run (s : St τ) (acts : List (Act τ)) : Option (St τ) := acts.foldlM St.step s

/-- `sem_wait` has been interrupted. -/
def Act.interrupts : Act τ → Bool
  | .interrupt _ => true
  | _ => false

end Awoke.Lock
