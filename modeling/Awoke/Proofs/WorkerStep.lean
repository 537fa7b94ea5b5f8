/-
A round of a timer worker.

A task runs when its tick is one and nothing objects; any other counts down.  What happens to it
depends on no other task, so the queue after a round is the queue before it with every task moved
by itself, and the number of tasks goes down with it.
-/
import Awoke.Util.Worker
import Mathlib.Data.List.Basic

namespace Awoke

variable {s : Tmrun} {task : Tmtsk} {round : Nat}

/-! ### One task in one round -/

/-- What `can_sched` answers in the round, if there is one. -/
def Tmtsk.agrees (task : Tmtsk) (round : Nat) : Bool := task.canSched.elim true fun f => f round

/-- What stays of a task in the queue. -/
def Tmtsk.next (task : Tmtsk) (round : Nat) : Option Tmtsk := (Tmwkr.schedTask round 0 task).1

/-- The task is handled in the round. -/
def Tmtsk.Runs (task : Tmtsk) (round : Nat) : Prop := task.tick = 1 ∧ task.agrees round = true

/-- It is due, and refused. -/
def Tmtsk.Refused (task : Tmtsk) (round : Nat) : Prop := task.tick = 1 ∧ task.agrees round = false

instance (task : Tmtsk) (round : Nat) : Decidable (task.Refused round) :=
  inferInstanceAs (Decidable (_ ∧ _))

theorem tick_sub_one {tick : UInt32} : tick - 1 = 0 ↔ tick = 1 := by
  constructor
  · intro h
    rw [← UInt32.sub_add_cancel tick 1, h]
    rfl
  · rintro rfl
    rfl

/-- What the round does for a task that runs. -/
def Tmtsk.handling (task : Tmtsk) (round : Nat) : List TmEvent :=
  .handled task.tid ::
    if task.handle round ≠ .etOk ∧ task.errProc then [.failed task.tid] else []

/-- **A task that runs** starts over, or is gone and no longer counted. -/
theorem schedTask_runs (h : task.Runs round) (nr : Nat) :
    Tmwkr.schedTask round nr task =
      if task.periodic then
        (some { task with tick := task.clock }, nr, task.handling round)
      else (none, nr - 1, task.handling round ++ [.stale task.tid]) := by
  have hagrees : (task.canSched.elim true fun f => f round) = true := h.2
  simp only [Tmwkr.schedTask, tick_sub_one.mpr h.1, if_true, hagrees]
  cases task.periodic with
  | true => rfl
  | false => rfl

/-- **Any other** counts down, whatever its tick. -/
theorem schedTask_waits (h : ¬task.Runs round) (nr : Nat) :
    Tmwkr.schedTask round nr task = (some { task with tick := task.tick - 1 }, nr, []) := by
  have hnot : (if task.tick - 1 = 0 then task.canSched.elim true fun f => f round
      else false) = false := by
    split
    · rename_i hzero
      exact Bool.eq_false_iff.mpr fun hagrees => h ⟨tick_sub_one.mp hzero, hagrees⟩
    · rfl
  simp only [Tmwkr.schedTask, hnot, Bool.false_eq_true, if_false]

theorem schedTask_next (task : Tmtsk) (round nr : Nat) :
    (Tmwkr.schedTask round nr task).1 = task.next round := by
  rw [Tmtsk.next]
  by_cases h : task.Runs round
  · rw [schedTask_runs h, schedTask_runs h]
    cases task.periodic with
    | true => rfl
    | false => rfl
  · rw [schedTask_waits h, schedTask_waits h]

theorem next_runs (h : task.Runs round) : task.next round =
    if task.periodic then some { task with tick := task.clock } else none := by
  rw [Tmtsk.next, schedTask_runs h]
  cases task.periodic with
  | true => rfl
  | false => rfl

theorem next_waits (h : ¬task.Runs round) :
    task.next round = some { task with tick := task.tick - 1 } := by
  rw [Tmtsk.next, schedTask_waits h]

theorem next_some {task' : Tmtsk} (h : task.next round = some task') :
    task'.tid = task.tid ∧ task'.clock = task.clock := by
  by_cases hruns : task.Runs round
  · rw [next_runs hruns] at h
    split at h
    · cases h
      exact ⟨rfl, rfl⟩
    · cases h
  · rw [next_waits hruns] at h
    cases h
    exact ⟨rfl, rfl⟩

/-! ### All tasks in one round -/

theorem schedTasks_cons (round nr : Nat) (task : Tmtsk) (queue : List Tmtsk) :
    (Tmwkr.schedTasks round nr (task :: queue)).1 =
        (Tmwkr.schedTask round nr task).1.toList ++
          (Tmwkr.schedTasks round (Tmwkr.schedTask round nr task).2.1 queue).1 ∧
      (Tmwkr.schedTasks round nr (task :: queue)).2.1 =
        (Tmwkr.schedTasks round (Tmwkr.schedTask round nr task).2.1 queue).2.1 :=
  ⟨rfl, rfl⟩

/-- **Every task is moved by itself.** -/
theorem schedTasks_next (round : Nat) (queue : List Tmtsk) : ∀ nr,
    (Tmwkr.schedTasks round nr queue).1 = queue.filterMap fun task => task.next round := by
  induction queue with
  | nil => intro nr; rfl
  | cons task queue ih =>
      intro nr
      rw [(schedTasks_cons round nr task queue).1, List.filterMap_cons, ih, schedTask_next]
      cases task.next round with
      | none => rfl
      | some task' => rfl

/-- **The count goes down with the queue**, when it is at least as long. -/
theorem schedTasks_count (round : Nat) (queue : List Tmtsk) : ∀ nr, queue.length ≤ nr →
    (Tmwkr.schedTasks round nr queue).2.1 + queue.length =
      nr + (queue.filterMap fun task => task.next round).length := by
  induction queue with
  | nil => intro nr _; rfl
  | cons task queue ih =>
      intro nr hnr
      rw [List.length_cons] at hnr
      rw [(schedTasks_cons round nr task queue).2, List.filterMap_cons, List.length_cons]
      by_cases hruns : task.Runs round
      · rw [next_runs hruns, schedTask_runs hruns]
        cases task.periodic with
        | true =>
            have hrest := ih nr (by omega)
            simp only [if_true, List.length_cons]
            omega
        | false =>
            have hrest := ih (nr - 1) (by omega)
            simp only [Bool.false_eq_true, if_false]
            omega
      · rw [next_waits hruns, schedTask_waits hruns]
        have hrest := ih nr (by omega)
        simp only [List.length_cons]
        omega

theorem timerScheduler_eq (round : Nat) (twk : Tmwkr) :
    (twk.timerScheduler round).1.taskQueue =
        (Tmwkr.schedTasks round twk.taskNr twk.taskQueue).1 ∧
      (twk.timerScheduler round).1.taskNr =
        (Tmwkr.schedTasks round twk.taskNr twk.taskQueue).2.1 := by
  rw [Tmwkr.timerScheduler]
  cases hqueue : twk.taskQueue with
  | nil => exact ⟨hqueue, rfl⟩
  | cons task queue => exact ⟨rfl, rfl⟩

theorem round_queue (s : Tmrun) :
    (s.step .round).1.twk.taskQueue =
      s.twk.taskQueue.filterMap fun task => task.next (s.round + 1) :=
  (timerScheduler_eq (s.round + 1) s.twk).1.trans (schedTasks_next _ _ _)

theorem round_count (h : s.twk.taskNr = s.twk.taskQueue.length) :
    (s.step .round).1.twk.taskNr = (s.step .round).1.twk.taskQueue.length := by
  have hcount := schedTasks_count (s.round + 1) s.twk.taskQueue s.twk.taskNr (Nat.le_of_eq h.symm)
  rw [round_queue]
  refine (timerScheduler_eq (s.round + 1) s.twk).2.trans ?_
  omega

theorem register_queue (s : Tmrun) (a : TaskArgs) :
    ∃ task : Tmtsk, task.tid = s.twk.taskNr ∧ task.tick = a.clock ∧ task.clock = a.clock ∧
      (s.step (.register a)).1.twk.taskQueue = s.twk.taskQueue ++ [task] :=
  ⟨_, rfl, rfl, rfl, rfl⟩

end Awoke
