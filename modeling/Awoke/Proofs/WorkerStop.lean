/-
When a worker that was stopped can be joined.

`awoke_worker_stop` sets `_force_stop` and notifies nobody, and `worker_should_suspend` waits
for `_running` alone.  So a thread that waits, or that has yet to look and will find
`_running` not set, never comes to the loop's condition again.  `Doomed` is that state of a
worker, and the thread does not leave it by itself.

`worker_stop_iff` says that nothing else is in the way of a join: in a run no state is reached
whose thread waits, or will wait, for a call that nobody makes, exactly as long as the last
pending call is never a stop of a doomed worker, and never a suspend that dooms a stopped one.
-/
import Awoke.Util.WorkerControl
import Awoke.Proofs.WorkerThread
import Mathlib.Logic.Function.Iterate

namespace Awoke.Control

/-! ### What a stop is for -/

/-- How many calls have been made and have not had the mutex. -/
def pending (s : Control) : Nat := s.starting + s.stopping + s.wk.suspending + s.wk.resuming

/-- The worker is stopped, and no call is pending. -/
def Settled (s : Control) : Prop := s.wk.forceStop = true ∧ s.pending = 0

/-- The thread of such a worker waits. -/
def Stuck (s : Control) : Prop := s.Settled ∧ s.waiting = true

/-- What `n` steps of the thread alone lead to. -/
def alone (n : Nat) (s : Control) : Control := (fun s => s.thread.1)^[n] s

/-- `awoke_worker_destroy` does not join a thread that cannot finish: the thread of a stopped
worker does not wait, and returns when it is left alone. -/
def Joinable (s : Control) : Prop :=
  ¬s.Stuck ∧ (s.Settled → ∃ n, (alone n s).wk.pc = .returned)

/-! ### When it is met -/

/-- The thread looks at `_running` before it comes to the loop's condition. -/
def ToLook (s : Control) : Prop :=
  s.wk.feat featSuspend = true ∧ (s.wk.pc = .entry ∨ s.wk.pc = .top)

/-- And will find that the worker does not run. -/
def Doomed (s : Control) : Prop := s.ToLook ∧ s.wk.running = false

instance (s : Control) : Decidable s.ToLook := inferInstanceAs (Decidable (_ ∧ _))

instance (s : Control) : Decidable s.Doomed := inferInstanceAs (Decidable (_ ∧ _))

/-- The last pending call is no stop of a doomed worker, and no suspend of a stopped one whose
thread is yet to look. -/
def Timely (s : Control) : ControlStep → Prop
  | .enter .stop => 0 < s.stopping → s.pending = 1 → ¬s.Doomed
  | .enter .suspend =>
      0 < s.wk.suspending → s.pending = 1 → s.wk.forceStop = true → ¬s.ToLook
  | _ => True

instance (s : Control) : DecidablePred s.Timely
  | .enter .stop => inferInstanceAs (Decidable (_ → _ → _))
  | .enter .suspend => inferInstanceAs (Decidable (_ → _ → _ → _))
  | .enter .start | .enter .resume | .call _ | .thread => .isTrue trivial

/-! ### A wait as one more look -/

/-- The steps of a whole run. -/
def coarseRun : Control → List ControlStep → List WorkerStep
  | _, [] => []
  | s, i :: is => s.coarse i ++ coarseRun (s.step i).1 is

theorem log_append (js : List WorkerStep) : ∀ (is : List WorkerStep) (wk : Worker),
    wk.log (is ++ js) = wk.log is ++ (is.foldl (fun wk j => (wk.step j).1) wk).log js := by
  intro is
  induction is with
  | nil => intro wk; rfl
  | cons i is ih =>
      intro wk
      rw [List.cons_append, Worker.log, Worker.log, ih, List.foldl_cons, List.append_assoc]

/-- What a step does, the coarser worker does. -/
theorem step_coarse (s : Control) (i : ControlStep) :
    s.wk.log (s.coarse i) = (s.step i).2 ∧
      (s.coarse i).foldl (fun wk j => (wk.step j).1) s.wk = (s.step i).1.wk := by
  cases i with
  | call c => cases c <;> exact ⟨rfl, rfl⟩
  | enter c =>
      cases c with
      | start | stop =>
          simp only [coarse, step, enter]
          split <;> simp [Worker.log, Worker.step]
      | suspend | resume =>
          simp only [coarse, step, enter]
          split <;> rename_i hcalled <;> simp [Worker.log, Worker.step, hcalled]
  | thread =>
      simp only [coarse, step, thread]
      split <;> simp [Worker.log]

/-- **What can be seen of a run** can be seen of a run of the coarser worker. -/
theorem run_coarse (is : List ControlStep) : ∀ s : Control,
    (Machine.run (Machine.total step) s is).map (fun r => r.2.flatten) =
      some (s.wk.log (s.coarseRun is)) := by
  induction is with
  | nil => intro s; rfl
  | cons i is ih =>
      intro s
      obtain ⟨hlog, hwk⟩ := s.step_coarse i
      have hrest := ih (s.step i).1
      rw [coarseRun, log_append, hlog, hwk, Machine.run, Machine.total_apply, Option.bind_some,
        Option.map_map]
      obtain ⟨r, hr, hflat⟩ := Option.map_eq_some_iff.mp hrest
      rw [hr, Option.map_some, ← hflat]
      rfl

/-! ### The thread alone -/

/-- A thread that waits has looked, and nothing has notified it since. -/
def Waited (s : Control) : Prop := s.waiting = true → waits s.wk = true

variable {s : Control}

theorem waits_iff {wk : Worker} : waits wk = true ↔
    wk.pc = .top ∧ wk.feat featSuspend = true ∧ wk.running = false := by
  simp [waits, and_assoc]

theorem Waited.doomed (h : s.Waited) (hwait : s.waiting = true) : s.Doomed := by
  obtain ⟨hpc, hfeat, hrun⟩ := waits_iff.mp (h hwait)
  exact ⟨⟨hfeat, .inr hpc⟩, hrun⟩

theorem thread_kept (s : Control) :
    s.thread.1.wk.forceStop = s.wk.forceStop ∧ s.thread.1.pending = s.pending ∧
      s.thread.1.wk.running = s.wk.running ∧ s.thread.1.wk.features = s.wk.features := by
  unfold thread
  split
  · exact ⟨rfl, rfl, rfl, rfl⟩
  · unfold pending
    simp only [Worker.step, Worker.threadStep]
    cases s.wk.pc with
    | entry | top | loopTest => simp only; split <;> exact ⟨rfl, rfl, rfl, rfl⟩
    | once => simp only [Worker.countReference]; split <;> exact ⟨rfl, rfl, rfl, rfl⟩
    | returned => exact ⟨rfl, rfl, rfl, rfl⟩

theorem thread_settled (s : Control) : s.thread.1.Settled ↔ s.Settled := by
  obtain ⟨hforce, hpending, -, -⟩ := s.thread_kept
  rw [Settled, Settled, hforce, hpending]

theorem thread_waited (h : s.Waited) : s.thread.1.Waited := by
  unfold thread
  split
  · exact h
  · intro hwait
    obtain ⟨hpc, hfeat, hrun⟩ := waits_iff.mp hwait
    refine waits_iff.mpr ?_
    simp [Worker.step, Worker.threadStep, hpc, hfeat, hrun]
    exact hfeat

theorem Doomed.thread (h : s.Doomed) : s.thread.1.Doomed := by
  obtain ⟨-, -, hrun, hfeatures⟩ := s.thread_kept
  obtain ⟨⟨hfeat, hpc⟩, hno⟩ := h
  refine ⟨⟨?_, ?_⟩, hrun.trans hno⟩
  · rw [Worker.feat, hfeatures]
    exact hfeat
  · unfold Control.thread
    split
    · exact hpc
    · rcases hpc with hpc | hpc
      · right
        cases hper : s.wk.feat featPeriodicity <;> simp [Worker.step, Worker.threadStep, hpc, hper]
      · right
        simp [Worker.step, Worker.threadStep, hpc, hfeat, hno]

theorem Doomed.alone (n : Nat) : ∀ {s : Control}, s.Doomed → (alone n s).Doomed := by
  induction n with
  | zero => exact fun h => h
  | succ n ih => exact fun h => ih h.thread

/-- How many steps the thread is from its end. -/
def rank : RunPc → Nat
  | .entry => 4
  | .top => 3
  | .once => 2
  | .loopTest => 1
  | .returned => 0

/-- The thread of a stopped worker that is not doomed goes on to its end. -/
theorem thread_rank (hwaited : s.Waited) (hstop : s.wk.forceStop = true) (h : ¬s.Doomed) :
    ¬s.thread.1.Doomed ∧ rank s.thread.1.wk.pc = rank s.wk.pc - 1 := by
  have hwait : s.waiting = false := Bool.eq_false_iff.mpr fun hwait => h (hwaited.doomed hwait)
  obtain ⟨-, -, hrun, hfeatures⟩ := s.thread_kept
  -- it is doomed by its place alone
  have hplace (hpc : s.thread.1.wk.pc = .entry ∨ s.thread.1.wk.pc = .top →
      s.wk.pc = .entry ∨ s.wk.pc = .top) : ¬s.thread.1.Doomed := by
    intro hdoomed
    refine h ⟨⟨?_, hpc hdoomed.1.2⟩, hrun.symm.trans hdoomed.2⟩
    rw [Worker.feat, ← hfeatures]
    exact hdoomed.1.1
  have hpc : s.thread.1.wk.pc = (s.wk.step .thread).1.pc := by rw [thread, hwait]; rfl
  rw [hpc] at hplace ⊢
  obtain hat | hat | hat | hat | hat := s.wk.pc_cases
  · refine ⟨hplace fun _ => .inl hat, ?_⟩
    cases hper : s.wk.feat featPeriodicity <;>
      simp [Worker.step, Worker.threadStep, hat, hper, rank]
  · refine ⟨hplace fun _ => .inr hat, ?_⟩
    cases hsus : s.wk.feat featSuspend with
    | false => simp [Worker.step, Worker.threadStep, hat, hsus, rank]
    | true =>
        have hruns : s.wk.running = true :=
          Bool.eq_true_of_not_eq_false fun hno => h ⟨⟨hsus, .inr hat⟩, hno⟩
        simp [Worker.step, Worker.threadStep, hat, hsus, hruns, rank]
  · have hnext : (s.wk.step .thread).1.pc = .loopTest := by
      simp [Worker.step, Worker.threadStep, hat]
    rw [hnext] at hplace ⊢
    exact ⟨hplace (by simp), by rw [hat]; rfl⟩
  · have hnext : (s.wk.step .thread).1.pc = .returned := by
      simp [Worker.step, Worker.threadStep, hat, hstop]
    rw [hnext] at hplace ⊢
    exact ⟨hplace (by simp), by rw [hat]; rfl⟩
  · have hnext : (s.wk.step .thread).1.pc = .returned := by
      simp [Worker.step, Worker.threadStep, hat]
    rw [hnext] at hplace ⊢
    exact ⟨hplace (by simp), by rw [hat]; rfl⟩

theorem rank_eq_zero {pc : RunPc} (h : rank pc = 0) : pc = .returned := by
  cases pc <;> simp [rank] at h ⊢

theorem alone_returns (n : Nat) : ∀ {s : Control}, s.Waited → s.wk.forceStop = true →
    ¬s.Doomed → rank s.wk.pc = n → (alone n s).wk.pc = .returned := by
  induction n with
  | zero => exact fun _ _ _ hrank => rank_eq_zero hrank
  | succ n ih =>
      intro s hwaited hstop hdoomed hrank
      obtain ⟨hdoomed', hrank'⟩ := thread_rank hwaited hstop hdoomed
      refine ih (thread_waited hwaited) (s.thread_kept.1.trans hstop) hdoomed' ?_
      rw [hrank', hrank]
      rfl

/-- **A state in which the worker can be joined.** -/
theorem joinable_iff (h : s.Waited) : s.Joinable ↔ (s.Settled → ¬s.Doomed) := by
  constructor
  · rintro ⟨-, hreturns⟩ hsettled hdoomed
    obtain ⟨n, hpc⟩ := hreturns hsettled
    obtain ⟨⟨-, hlook⟩, -⟩ := hdoomed.alone n
    rw [hpc] at hlook
    rcases hlook with hlook | hlook <;> cases hlook
  · intro hok
    refine ⟨fun hstuck => hok hstuck.1 (h.doomed hstuck.2), fun hsettled => ?_⟩
    exact ⟨_, alone_returns _ h hsettled.1 (hok hsettled) rfl⟩

/-! ### One step -/

theorem create_waited (wk : Worker) : (create wk).Waited := by
  intro h
  cases h

/-- A call that is made changes nothing but what is pending. -/
theorem call_kept (s : Control) (c : ControlCall) :
    (s.call c).waiting = s.waiting ∧ (s.call c).wk.forceStop = s.wk.forceStop ∧
      (s.call c).wk.pc = s.wk.pc ∧ (s.call c).wk.running = s.wk.running ∧
      (s.call c).wk.features = s.wk.features ∧ s.pending ≤ (s.call c).pending := by
  cases c with
  | start | stop => exact ⟨rfl, rfl, rfl, rfl, rfl, by simp only [pending, call]; omega⟩
  | suspend =>
      cases hrun : s.wk.running with
      | true =>
          simp only [pending, call, Worker.step, hrun, if_true, true_and]
          omega
      | false => simp [pending, call, Worker.step, hrun]
  | resume =>
      cases hrun : s.wk.running with
      | true => simp [pending, call, Worker.step, hrun]
      | false =>
          simp only [pending, call, Worker.step, hrun, Bool.false_eq_true, if_false, true_and]
          omega

theorem call_joinable (h : s.Waited) (c : ControlCall) (hs : s.Joinable) :
    (s.call c).Waited ∧ (s.call c).Joinable := by
  obtain ⟨hwaiting, hforce, hpc, hrun, hfeatures, hpending⟩ := s.call_kept c
  have hfeat : ∀ flag, (s.call c).wk.feat flag = s.wk.feat flag := fun flag => by
    rw [Worker.feat, hfeatures]
    rfl
  have hwaited : (s.call c).Waited := by
    intro hwait
    rw [hwaiting] at hwait
    have hlooked := h hwait
    rw [waits, hpc, hfeat, hrun]
    exact hlooked
  refine ⟨hwaited, (joinable_iff hwaited).mpr fun hsettled hdoomed => ?_⟩
  refine (joinable_iff h).mp hs ⟨hforce.symm.trans hsettled.1, ?_⟩ ?_
  · have hnone := hsettled.2
    omega
  · rw [Doomed, ToLook, hfeat, hpc, hrun] at hdoomed
    exact hdoomed

theorem thread_joinable (h : s.Waited) (hs : s.Joinable) :
    s.thread.1.Waited ∧ s.thread.1.Joinable := by
  refine ⟨thread_waited h, (joinable_iff (thread_waited h)).mpr fun hsettled => ?_⟩
  have hbefore := (thread_settled s).mp hsettled
  exact (thread_rank h hbefore.1 ((joinable_iff h).mp hs hbefore)).1

theorem joinable_of_running (hwait : s.waiting = false) (hrun : s.wk.running = true) :
    s.Waited ∧ s.Joinable := by
  have hwaited : s.Waited := fun hwait' => absurd (hwait.symm.trans hwait') Bool.false_ne_true
  refine ⟨hwaited, (joinable_iff hwaited).mpr fun _ hdoomed => ?_⟩
  exact absurd (hdoomed.2.symm.trans hrun) Bool.false_ne_true

/-- A call with the mutex leaves a worker that can be joined exactly when it is timely. -/
theorem enter_joinable_iff (h : s.Waited) (hs : s.Joinable) (c : ControlCall) :
    (s.enter c).1.Waited ∧ ((s.enter c).1.Joinable ↔ s.Timely (.enter c)) := by
  cases c with
  | start =>
      simp only [enter]
      split
      · exact (joinable_of_running rfl rfl).imp_right fun hjoin => iff_of_true hjoin trivial
      · exact ⟨h, iff_of_true hs trivial⟩
  | resume =>
      simp only [enter]
      split
      · rename_i hcalled
        refine (joinable_of_running rfl ?_).imp_right fun hjoin => iff_of_true hjoin trivial
        simp [Worker.step, hcalled]
      · exact ⟨h, iff_of_true hs trivial⟩
  | stop =>
      simp only [enter, Timely]
      split
      · rename_i hcalled
        have hwaited : Waited { s with
            wk := (s.wk.step .stop).1, stopping := s.stopping - 1 } := h
        refine ⟨h, (joinable_iff hwaited).trans ?_⟩
        have hlast : s.starting + (s.stopping - 1) + s.wk.suspending + s.wk.resuming = 0 ↔
            s.pending = 1 := by
          rw [pending]
          omega
        constructor
        · exact fun hok _ hone => hok ⟨rfl, hlast.mpr hone⟩
        · exact fun htimely hsettled => htimely hcalled (hlast.mp hsettled.2)
      · rename_i hcalled
        exact ⟨h, iff_of_true hs fun hpos => absurd hpos hcalled⟩
  | suspend =>
      simp only [enter, Timely]
      split
      · rename_i hcalled
        have hstep : (s.wk.step .suspendSet).1 =
            { s.wk with running := false, suspending := s.wk.suspending - 1 } := by
          simp [Worker.step, hcalled]
        rw [hstep]
        have hwaited : Waited { s with
            wk := { s.wk with running := false, suspending := s.wk.suspending - 1 }
            waiting := false } := by
          intro hwait
          cases hwait
        refine ⟨hwaited, (joinable_iff hwaited).trans ?_⟩
        have hlast : s.starting + s.stopping + (s.wk.suspending - 1) + s.wk.resuming = 0 ↔
            s.pending = 1 := by
          rw [pending]
          omega
        constructor
        · exact fun hok _ hone hstop htolook => hok ⟨hstop, hlast.mpr hone⟩ ⟨htolook, rfl⟩
        · exact fun htimely hsettled hdoomed =>
            htimely hcalled (hlast.mp hsettled.2) hsettled.1 hdoomed.1
      · rename_i hcalled
        exact ⟨h, iff_of_true hs fun hpos => absurd hpos hcalled⟩

/-- **One step** from a worker that can be joined. -/
theorem step_joinable_iff (h : s.Waited) (hs : s.Joinable) (i : ControlStep) :
    (s.step i).1.Waited ∧ ((s.step i).1.Joinable ↔ s.Timely i) := by
  cases i with
  | call c => exact (call_joinable h c hs).imp_right fun hjoin => iff_of_true hjoin trivial
  | enter c => exact enter_joinable_iff h hs c
  | thread => exact (thread_joinable h hs).imp_right fun hjoin => iff_of_true hjoin trivial

/-! ### Every run -/

theorem create_joinable (features : Features) (handler : Handler) (data : Nat) :
    (create (.create features handler data)).Joinable := by
  refine (joinable_iff (create_waited _)).mpr fun hsettled => ?_
  have hstop : false = true := hsettled.1
  cases hstop

/-- **A worker that was stopped can be joined** in every state of a run exactly as long as no
last pending call is a stop of a doomed worker, or a suspend that dooms a stopped one. -/
theorem worker_stop_iff (features : Features) (handler : Handler) (data : Nat)
    (is : List ControlStep) :
    Machine.Always (Machine.total step) Joinable (create (.create features handler data)) is ↔
      Machine.Meets (Machine.total step) Timely (create (.create features handler data)) is := by
  have hjoin := create_joinable features handler data
  rw [Machine.Always, and_iff_right hjoin]
  refine Machine.meets_congr (J := fun s => s.Waited ∧ s.Joinable) (fun s i hs => ?_)
    (fun s i hs htimely => ?_) is ⟨create_waited _, hjoin⟩
  · rw [Machine.after_some (Machine.total_apply step s i)]
    exact (step_joinable_iff hs.1 hs.2 i).2
  · rw [Machine.after_some (Machine.total_apply step s i)]
    exact (step_joinable_iff hs.1 hs.2 i).imp_right fun hiff => hiff.mpr htimely

/-- A worker that runs again and again, and can be suspended. -/
def suspendable : Features := { mask := featPeriodicity ||| featSuspend, runs := by decide }

/-- Started, suspended after one round, and stopped. -/
def suspendedThenStopped : List ControlStep :=
  [.call .start, .enter .start, .thread, .thread, .call .suspend, .enter .suspend, .thread,
    .thread, .thread, .call .stop, .enter .stop]

/-- Where that leads. -/
def overlooked : Control :=
  { wk := { Worker.create suspendable .given 0 with forceStop := true, pc := .top }
    waiting := true
    starting := 0
    stopping := 0 }

/-- The stop reaches no one: the thread waits, no call is pending, and left alone the thread
never returns, so a join of it has no end. -/
theorem stopped_in_wait :
    (Machine.run (Machine.total step) (create (.create suspendable .given 0))
      suspendedThenStopped).map Prod.fst = some overlooked ∧
      overlooked.Stuck ∧ ∀ n, (alone n overlooked).wk.pc ≠ .returned := by
  refine ⟨by decide, ⟨⟨rfl, rfl⟩, rfl⟩, fun n hpc => ?_⟩
  have hdoomed : overlooked.Doomed := by decide
  have hlook := (hdoomed.alone n).1.2
  rw [hpc] at hlook
  rcases hlook with hlook | hlook <;> cases hlook

end Awoke.Control
