/-
When a worker calls its handler.

The loop of `worker_run` keeps its word: it looks at `_running` before every call and hands
on the context.  But the loop is entered by every worker.  One without
`WORKER_FEAT_PERIODICITY` has called its handler once before, with the worker instead of the
context and without a look at `_running`, and then calls it again and again.  And
`timer_scheduler`, which `awoke_tmwkr_create` installs, is a handler that expects the worker.

`worker_calls_iff` says that these are all: as long as only periodic workers with a handler
of their own call it, and one that can be suspended not before its start, every run is as it
should be.
-/
import Awoke.Util.WorkerThread
import Awoke.Lib.Run

namespace Awoke.Worker

/-! ### What a run should do -/

/-- The calls of the handler. -/
def calls (log : List WorkerEvent) : List HandlerArg :=
  log.filterMap fun
    | .called arg => some arg
    | _ => none

/-- Every call comes after a start, and after a look at `_running` that found it true and
that no call came after.  The flags say whether there was one before the first event. -/
def Watched : Bool → Bool → List WorkerEvent → Prop
  | _, _, [] => True
  | _, seen, .started :: log => Watched true seen log
  | started, _, .checked running :: log => Watched started running log
  | started, seen, .called _ :: log => (started = true ∧ seen = true) ∧ Watched started false log
  | started, seen, .returned :: log => Watched started seen log

/-- What is asked of the run of a worker. -/
structure Lawful (wk : Worker) (log : List WorkerEvent) : Prop where
  once : wk.feat featPeriodicity = false →
    (calls log).length ≤ 1 ∧ (.returned ∈ log → (calls log).length = 1)
  watched : wk.feat featSuspend = true → Watched false false log
  context : ∀ arg ∈ calls log, arg = .context
  own : wk.handler = .timerScheduler → ∀ arg ∈ calls log, wk.schedulerData arg = some wk.data

/-! ### When it does -/

/-- A worker, and whether `awoke_worker_start` was called. -/
structure Supervised where
  wk : Worker
  started : Bool
  deriving DecidableEq

namespace Supervised

/-- A worker that was just created. -/
def create (wk : Worker) : Supervised := { wk := wk, started := false }

/-- One step. -/
def step (s : Supervised) (i : WorkerStep) : Supervised × List WorkerEvent :=
  ({ wk := (s.wk.step i).1, started := s.started || decide (i = .start) }, (s.wk.step i).2)

/-- The thread is about to call the handler. -/
def Calling (s : Supervised) (i : WorkerStep) : Prop :=
  i = .thread ∧ (s.wk.pc = .once ∨ s.wk.pc = .entry ∧ s.wk.feat featPeriodicity = false)

instance (s : Supervised) (i : WorkerStep) : Decidable (s.Calling i) :=
  inferInstanceAs (Decidable (_ ∧ _))

/-- A call is in order: the worker is periodic, the handler is not `timer_scheduler`, and a
worker that can be suspended was started. -/
def MayCall (s : Supervised) (i : WorkerStep) : Prop :=
  s.Calling i → s.wk.feat featPeriodicity = true ∧ s.wk.handler = .given ∧
    (s.wk.feat featSuspend = true → s.started = true)

instance (s : Supervised) (i : WorkerStep) : Decidable (s.MayCall i) :=
  inferInstanceAs (Decidable (_ → _))

end Supervised

/-! ### One step -/

/-- The thread has looked at `_running`, and not called the handler since. -/
def seen (wk : Worker) : Bool := decide (wk.pc = .once)

@[simp] theorem countReference_features (wk : Worker) :
    wk.countReference.features = wk.features := by
  unfold countReference
  split <;> rfl

@[simp] theorem countReference_handler (wk : Worker) :
    wk.countReference.handler = wk.handler := by
  unfold countReference
  split <;> rfl

theorem step_kept (wk : Worker) (i : WorkerStep) :
    (wk.step i).1.features = wk.features ∧ (wk.step i).1.handler = wk.handler := by
  cases i with
  | start | stop => exact ⟨rfl, rfl⟩
  | suspendTest | suspendSet | resumeTest | resumeSet =>
      simp only [step]
      split <;> exact ⟨rfl, rfl⟩
  | thread =>
      simp only [step, threadStep]
      cases wk.pc with
      | entry | top | loopTest => simp only; split <;> exact ⟨rfl, rfl⟩
      | once => exact ⟨wk.countReference_features, wk.countReference_handler⟩
      | returned => exact ⟨rfl, rfl⟩

theorem step_caller (wk : Worker) {i : WorkerStep} (h : i ≠ .thread) :
    (wk.step i).1.pc = wk.pc ∧ (wk.step i).2 = if i = .start then [.started] else [] := by
  cases i with
  | start | stop => exact ⟨rfl, rfl⟩
  | suspendTest | suspendSet | resumeTest | resumeSet =>
      simp only [step]
      split <;> exact ⟨rfl, rfl⟩
  | thread => exact absurd rfl h

theorem pc_cases (wk : Worker) : wk.pc = .entry ∨ wk.pc = .top ∨ wk.pc = .once ∨
    wk.pc = .loopTest ∨ wk.pc = .returned := by
  cases wk.pc <;> simp

variable (s : Supervised) (rest : List WorkerEvent)

/-- The step of a worker that can be suspended, seen from the rest of its run. -/
theorem watched_step (hsuspend : s.wk.feat featSuspend = true) (i : WorkerStep) :
    Watched s.started s.wk.seen ((s.step i).2 ++ rest) ↔
      (s.Calling i → s.started = true ∧ s.wk.seen = true) ∧
        Watched (s.step i).1.started (s.step i).1.wk.seen rest := by
  by_cases hi : i = .thread
  · subst hi
    unfold Supervised.step Supervised.Calling seen
    obtain hpc | hpc | hpc | hpc | hpc := s.wk.pc_cases
    · cases hper : s.wk.feat featPeriodicity <;> simp [step, threadStep, hpc, hper, Watched]
    · cases hrun : s.wk.running <;> simp [step, threadStep, hpc, hrun, hsuspend, Watched]
    · simp [step, threadStep, hpc, Watched]
    · cases hstop : s.wk.forceStop <;> simp [step, threadStep, hpc, hstop, Watched]
    · simp [step, threadStep, hpc]
  · obtain ⟨hpc, hlog⟩ := s.wk.step_caller hi
    have hseen : (s.wk.step i).1.seen = s.wk.seen := by rw [seen, hpc, seen]
    simp only [Supervised.step, Supervised.Calling, hi, false_and, false_imp_iff, true_and, hlog,
      hseen]
    by_cases hstart : i = .start
    · simp [hstart, Watched]
    · simp [hstart]

/-- What the thread calls the handler with: the context, but for the call before the loop. -/
theorem calls_step (i : WorkerStep) :
    calls (s.step i).2 = if s.Calling i then
      [if s.wk.pc = .once then .context else .worker] else [] := by
  by_cases hi : i = .thread
  · subst hi
    unfold Supervised.step Supervised.Calling
    obtain hpc | hpc | hpc | hpc | hpc := s.wk.pc_cases
    · by_cases hper : s.wk.feat featPeriodicity = true <;>
        simp [step, threadStep, hpc, hper, calls]
    · cases hsus : s.wk.feat featSuspend <;> simp [step, threadStep, hpc, hsus, calls]
    · simp [step, threadStep, hpc, calls]
    · cases hstop : s.wk.forceStop <;> simp [step, threadStep, hpc, hstop, calls]
    · simp [step, threadStep, hpc, calls]
  · rw [if_neg fun h => hi h.1]
    show calls (s.wk.step i).2 = []
    rw [(s.wk.step_caller hi).2]
    by_cases hstart : i = .start
    · rw [if_pos hstart]
      rfl
    · rw [if_neg hstart]
      rfl

/-! ### All steps -/

theorem calls_append (log more : List WorkerEvent) :
    calls (log ++ more) = calls log ++ calls more :=
  List.filterMap_append

/-- The calls of a run are in order, and it is watched. -/
def Orderly (s : Supervised) (log : List WorkerEvent) : Prop :=
  (∀ arg ∈ calls log, arg = .context ∧ s.wk.feat featPeriodicity = true ∧ s.wk.handler = .given) ∧
    (s.wk.feat featSuspend = true → Watched s.started s.wk.seen log)

/-- A run is orderly when its first step is in order and the rest is orderly. -/
theorem orderly_step (i : WorkerStep) :
    Orderly s ((s.step i).2 ++ rest) ↔ s.MayCall i ∧ Orderly (s.step i).1 rest := by
  obtain ⟨hfeatures, hhandler⟩ := s.wk.step_kept i
  have hfeat : ∀ flag, (s.step i).1.wk.feat flag = s.wk.feat flag := fun flag => by
    show maskExst (s.wk.step i).1.features flag = maskExst s.wk.features flag
    rw [hfeatures]
  have hhand : (s.step i).1.wk.handler = s.wk.handler := hhandler
  have hwatched : (s.wk.feat featSuspend = true →
      Watched s.started s.wk.seen ((s.step i).2 ++ rest)) ↔
      (s.wk.feat featSuspend = true → (s.Calling i → s.started = true ∧ s.wk.seen = true)) ∧
        (s.wk.feat featSuspend = true →
          Watched (s.step i).1.started (s.step i).1.wk.seen rest) := by
    rw [← imp_and]
    exact imp_congr_right fun hsus => watched_step s rest hsus i
  unfold Orderly Supervised.MayCall
  rw [hfeat, hfeat, hhand, hwatched, calls_append, calls_step]
  by_cases hcall : s.Calling i
  · rw [if_pos hcall]
    -- the call before the loop is that of a worker which is not periodic
    have hpc : s.wk.feat featPeriodicity = true → s.wk.pc = .once := by
      intro hper
      obtain ⟨-, h | ⟨-, h⟩⟩ := hcall
      · exact h
      · exact absurd hper (ne_true_of_eq_false h)
    constructor
    · rintro ⟨hargs, hsus, hrest⟩
      obtain ⟨-, hper, hgiven⟩ := hargs _ (List.mem_append_left _ (List.mem_singleton_self _))
      exact ⟨fun _ => ⟨hper, hgiven, fun h => (hsus h hcall).1⟩,
        fun arg h => hargs arg (List.mem_append_right _ h), hrest⟩
    · rintro ⟨hmay, hargs, hrest⟩
      obtain ⟨hper, hgiven, hstarted⟩ := hmay hcall
      refine ⟨fun arg h => ?_, fun h _ => ⟨hstarted h, decide_eq_true (hpc hper)⟩, hrest⟩
      rcases List.mem_append.mp h with h | h
      · rw [List.mem_singleton.mp h, if_pos (hpc hper)]
        exact ⟨rfl, hper, hgiven⟩
      · exact hargs arg h
  · rw [if_neg hcall, List.nil_append]
    simp only [hcall, false_imp_iff, implies_true, true_and]

theorem orderly_iff (is : List WorkerStep) : ∀ s : Supervised,
    Orderly s (s.wk.log is) ↔
      Machine.Meets (Machine.total Supervised.step) Supervised.MayCall s is := by
  induction is with
  | nil =>
      intro s
      refine iff_of_true ⟨fun _ h => ?_, fun _ => trivial⟩ trivial
      cases h
  | cons i is ih =>
      intro s
      rw [Machine.meets_some _ (Machine.total_apply Supervised.step s i), ← ih]
      exact orderly_step s _ i

/-! ### A worker from its creation -/

/-- Before the thread of a worker that is not periodic enters the loop, it has done
nothing; and as it enters, it calls the handler with the worker. -/
theorem log_entry (is : List WorkerStep) : ∀ wk : Worker, wk.pc = .entry →
    wk.feat featPeriodicity = false → (∀ arg ∈ calls (wk.log is), arg = .context) →
    calls (wk.log is) = [] ∧ .returned ∉ wk.log is := by
  induction is with
  | nil => intro wk _ _ _; exact ⟨rfl, List.not_mem_nil⟩
  | cons i is ih =>
      intro wk hpc hper hargs
      rw [log, calls_append] at hargs ⊢
      by_cases hi : i = .thread
      · have hstep : (wk.step i).2 = [.called .worker] := by
          rw [hi, step, threadStep, hpc]
          simp [hper]
        rw [hstep] at hargs
        exact nomatch hargs .worker List.mem_cons_self
      · obtain ⟨hpc', hlog⟩ := wk.step_caller hi
        have hfeat : (wk.step i).1.feat featPeriodicity = false := by
          rw [feat, (wk.step_kept i).1]
          exact hper
        have hnone : calls (wk.step i).2 = [] ∧ .returned ∉ (wk.step i).2 := by
          rw [hlog]
          split <;> simp [calls]
        obtain ⟨hcalls, hret⟩ := ih _ (hpc'.trans hpc) hfeat fun arg h =>
          hargs arg (List.mem_append_right _ h)
        exact ⟨by rw [hnone.1, hcalls]; rfl,
          fun h => (List.mem_append.mp h).elim hnone.2 hret⟩

/-- What is asked of a run is that it is orderly. -/
theorem lawful_iff (wk : Worker) (hpc : wk.pc = .entry) (is : List WorkerStep) :
    Lawful wk (wk.log is) ↔ Orderly (.create wk) (wk.log is) := by
  have hseen : wk.seen = false := decide_eq_false (by rw [hpc]; decide)
  constructor
  · intro h
    refine ⟨fun arg hmem => ⟨h.context arg hmem, ?_, ?_⟩, fun hsus => ?_⟩
    · cases hper : wk.feat featPeriodicity with
      | true => exact hper
      | false =>
          rw [(log_entry is wk hpc hper h.context).1] at hmem
          exact nomatch hmem
    · have hown := fun htimer => h.own htimer arg hmem
      rw [h.context arg hmem] at hown
      cases hhand : wk.handler with
      | given => exact hhand
      | timerScheduler => exact nomatch hown hhand
    · show Watched false wk.seen (wk.log is)
      rw [hseen]
      exact h.watched hsus
  · rintro ⟨hargs, hwatched⟩
    have hcontext : ∀ arg ∈ calls (wk.log is), arg = .context := fun arg h => (hargs arg h).1
    refine ⟨fun hper => ?_, fun hsus => ?_, hcontext, fun htimer arg h => ?_⟩
    · obtain ⟨hcalls, hret⟩ := log_entry is wk hpc hper hcontext
      rw [hcalls]
      exact ⟨Nat.zero_le _, fun h => absurd h hret⟩
    · have := hwatched hsus
      rw [show (Supervised.create wk).wk.seen = false from hseen] at this
      exact this
    · have hgiven : wk.handler = .given := (hargs arg h).2.2
      rw [htimer] at hgiven
      exact nomatch hgiven

/-- **A worker calls its handler as it should** exactly as long as every call is that of a
periodic worker, with a handler other than `timer_scheduler`, and started if it can be
suspended. -/
theorem worker_calls_iff (features : Features) (data : Nat) (is : List WorkerStep) :
    (Lawful (create features .given data) ((create features .given data).log is) ↔
      Machine.Meets (Machine.total Supervised.step) Supervised.MayCall
        (.create (create features .given data)) is) ∧
    (Lawful (tmwkrCreate features data) ((tmwkrCreate features data).log is) ↔
      Machine.Meets (Machine.total Supervised.step) Supervised.MayCall
        (.create (tmwkrCreate features data)) is) :=
  ⟨(lawful_iff _ rfl is).trans (orderly_iff is _), (lawful_iff _ rfl is).trans (orderly_iff is _)⟩

/-- No feature. -/
def noFeatures : Features := { mask := 0, runs := by decide }

/-- A worker without features, which should call its handler once, has called it twice by
its third step, and a timer worker's scheduler does not read its own tasks. -/
theorem worker_calls_twice :
    ¬Lawful (create noFeatures .given 0)
      ((create noFeatures .given 0).log [.thread, .thread, .thread]) ∧
    ¬Lawful (tmwkrCreate noFeatures 0)
      ((tmwkrCreate noFeatures 0).log [.start, .thread, .thread, .thread]) := by
  constructor
  · intro h
    exact absurd (h.once (by decide)).1 (by decide)
  · intro h
    exact absurd (h.own (by decide) .context (by decide)) (by decide)

end Awoke.Worker
