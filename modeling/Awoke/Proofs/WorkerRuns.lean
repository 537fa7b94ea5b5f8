/-
A timer worker through registrations and rounds.

A task is asked when its tick is one.  When it refuses, its tick goes to zero and from there round
the 32 bits: it is asked again 2^32 rounds later.  And the number of tasks, which is the number the
next one gets, goes down when a task is through, while those behind it keep theirs.
-/
import Awoke.Lib.Run
import Awoke.Proofs.WorkerStep
import Mathlib.Data.List.Nodup

namespace Awoke

open Machine

variable {s : Tmrun} {i : TmInput} {task : Tmtsk} {round : Nat}

/-! ### Ticks -/

/-- The tick is one of those from the clock down to one. -/
def Tmtsk.InClock (task : Tmtsk) : Prop := 0 < task.tick.toNat ∧ task.tick.toNat ≤ task.clock.toNat

/-- So are those of all tasks. -/
def Ticks (s : Tmrun) : Prop := ∀ task ∈ s.twk.taskQueue, task.InClock

/-- No task that is due refuses. -/
def Willing (s : Tmrun) : TmInput → Prop
  | .register _ => True
  | .round => ∀ task ∈ s.twk.taskQueue, ¬task.Refused (s.round + 1)

instance : Decidable (Willing s i) :=
  match i with
  | .register _ => isTrue trivial
  | .round => inferInstanceAs (Decidable (∀ task ∈ s.twk.taskQueue, ¬task.Refused (s.round + 1)))

/-- The clock of a task that is registered is at least one. -/
def Clocked : TmInput → Prop
  | .register a => 0 < a.clock.toNat
  | .round => True

instance : DecidablePred Clocked
  | .register a => inferInstanceAs (Decidable (0 < a.clock.toNat))
  | .round => isTrue trivial

theorem runs_or_refused (h : task.tick = 1) : task.Runs round ∨ task.Refused round := by
  cases hagrees : task.agrees round with
  | true => exact .inl ⟨h, hagrees⟩
  | false => exact .inr ⟨h, hagrees⟩

theorem Tmtsk.Runs.not_refused (h : task.Runs round) : ¬task.Refused round := by
  intro hrefused
  cases h.2.symm.trans hrefused.2

/-- **A round keeps the tick of a task in its clock** unless the task refuses. -/
theorem next_inClock_iff (h : task.InClock) :
    (∀ task', task.next round = some task' → task'.InClock) ↔ ¬task.Refused round := by
  obtain ⟨hlow, hhigh⟩ := h
  by_cases hruns : task.Runs round
  · rw [next_runs hruns]
    refine iff_of_true (fun task' h' => ?_) hruns.not_refused
    split at h'
    · cases h'
      exact ⟨Nat.lt_of_lt_of_le hlow hhigh, Nat.le_refl _⟩
    · cases h'
  rw [next_waits hruns]
  by_cases hdue : task.tick = 1
  · have hrefused := (runs_or_refused hdue).resolve_left hruns
    refine iff_of_false (fun hall => ?_) fun hnot => hnot hrefused
    have hzero : 0 < (task.tick - 1).toNat := (hall _ rfl).1
    rw [hdue] at hzero
    exact absurd hzero (by decide)
  · have hmore : 1 < task.tick.toNat := by
      have hne : task.tick.toNat ≠ 1 := fun heq => hdue (UInt32.toNat_inj.mp heq)
      omega
    have hpred : (task.tick - 1).toNat = task.tick.toNat - 1 :=
      UInt32.toNat_sub_of_le _ _ (UInt32.le_iff_toNat_le.mpr hlow)
    refine iff_of_true (fun task' h' => ?_) fun hrefused => hdue hrefused.1
    cases h'
    show 0 < (task.tick - 1).toNat ∧ (task.tick - 1).toNat ≤ task.clock.toNat
    rw [hpred]
    omega

/-- **One step** keeps the ticks of all tasks in their clocks exactly when no task refuses. -/
theorem ticks_step_iff (h : Ticks s) (hclock : Clocked i) :
    Ticks (s.step i).1 ↔ Willing s i := by
  cases i with
  | register a =>
      obtain ⟨task, -, htick, hclk, hqueue⟩ := register_queue s a
      refine iff_of_true ?_ trivial
      rw [Ticks, hqueue, List.forall_mem_append, List.forall_mem_singleton]
      exact ⟨h, by rw [Tmtsk.InClock, htick, hclk]; exact ⟨hclock, Nat.le_refl _⟩⟩
  | round =>
      rw [Ticks, round_queue]
      constructor
      · intro hticks task htask
        refine (next_inClock_iff (h task htask)).mp fun task' hnext => ?_
        exact hticks task' (List.mem_filterMap.mpr ⟨task, htask, hnext⟩)
      · intro hwilling task' htask'
        obtain ⟨task, htask, hnext⟩ := List.mem_filterMap.mp htask'
        exact (next_inClock_iff (h task htask)).mpr (hwilling task htask) task' hnext

/-! ### Offers -/

/-- The task after `n` rounds, the first of them `round`, unless it is gone. -/
def Tmtsk.onward (task : Tmtsk) (round : Nat) : Nat → Option Tmtsk
  | 0 => some task
  | n + 1 => (task.next round).bind fun task => task.onward (round + 1) n

/-- The rounds among some inputs. -/
def roundsIn : List TmInput → Nat
  | [] => 0
  | .register _ :: is => roundsIn is
  | .round :: is => roundsIn is + 1

/-- **Where the tasks of a queue are later**: in front, each where its own rounds lead. -/
theorem run_onward (is : List TmInput) : ∀ {s s' : Tmrun} {log : List (List TmEvent)},
    run (total Tmrun.step) s is = some (s', log) →
      ∃ more, s'.twk.taskQueue =
        (s.twk.taskQueue.filterMap fun task =>
          task.onward (s.round + 1) (roundsIn is)) ++ more := by
  induction is with
  | nil =>
      intro s s' log hrun
      cases hrun
      exact ⟨[], by simp only [roundsIn, Tmtsk.onward, List.filterMap_some, List.append_nil]⟩
  | cons i is ih =>
      intro s s' log hrun
      rw [run, total_apply, Option.bind_some, Option.map_eq_some_iff] at hrun
      obtain ⟨⟨s'', log'⟩, hrest, heq⟩ := hrun
      cases heq
      obtain ⟨more, hmore⟩ := ih hrest
      cases i with
      | register a =>
          obtain ⟨task, -, -, -, hqueue⟩ := register_queue s a
          rw [hqueue, List.filterMap_append, List.append_assoc] at hmore
          exact ⟨_, hmore⟩
      | round =>
          rw [round_queue, List.filterMap_filterMap] at hmore
          exact ⟨more, hmore⟩

/-- A task that refuses is asked again, at the latest as many rounds later as its clock says. -/
def Reoffered (s : Tmrun) : TmInput → Prop
  | .register _ => True
  | .round => ∀ task ∈ s.twk.taskQueue, task.Refused (s.round + 1) →
      ∃ n, 0 < n ∧ n ≤ task.clock.toNat ∧
        ∃ task', task.onward (s.round + 1) n = some task' ∧ task'.tick = 1

theorem neg_ofNat_ne_one {n : Nat} (h : n + 1 < 2 ^ 32) : 0 - UInt32.ofNat n ≠ 1 := by
  intro heq
  have hone := congrArg UInt32.toNat heq
  rw [UInt32.toNat_sub, UInt32.toNat_ofNat_of_lt' (Nat.lt_of_succ_lt h)] at hone
  simp only [UInt32.reduceToNat] at hone
  omega

/-- A tick that went below zero counts on. -/
theorem counting_onward (n : Nat) : ∀ {task : Tmtsk} {round m : Nat},
    task.tick = 0 - UInt32.ofNat m → m + n < 2 ^ 32 →
      task.onward round n = some { task with tick := 0 - UInt32.ofNat (m + n) } := by
  induction n with
  | zero =>
      intro task round m htick _
      rw [Tmtsk.onward, Nat.add_zero, ← htick]
  | succ n ih =>
      intro task round m htick hlt
      have hruns : ¬task.Runs round := fun hruns =>
        neg_ofNat_ne_one (by omega) (htick.symm.trans hruns.1)
      have hnext : task.tick - 1 = 0 - UInt32.ofNat (m + 1) := by
        rw [htick, UInt32.ofNat_add]
        grind
      rw [Tmtsk.onward, next_waits hruns, Option.bind_some, ih hnext (by omega), Nat.add_right_comm,
        Nat.add_assoc]

/-- **The tick of a task that refused goes round**: it is one again after 2^32 rounds, and not
before. -/
theorem refused_onward (h : task.Refused round) {n : Nat} (hn : n < 2 ^ 32) :
    task.onward round (n + 1) = some { task with tick := 0 - UInt32.ofNat n } := by
  have hruns : ¬task.Runs round := fun hruns => hruns.not_refused h
  have htick : task.tick - 1 = 0 - UInt32.ofNat 0 := by
    rw [h.1]
    rfl
  rw [Tmtsk.onward, next_waits hruns, Option.bind_some,
    counting_onward n htick (by omega), Nat.zero_add]

/-- **One step** offers the tasks again that refuse exactly when none does. -/
theorem reoffered_iff : Reoffered s i ↔ Willing s i := by
  cases i with
  | register a => exact Iff.rfl
  | round =>
      constructor
      · intro h task htask hrefused
        obtain ⟨n, hpos, hclock, task', honward, htick⟩ := h task htask hrefused
        have hlt := task.clock.toNat_lt
        obtain ⟨m, rfl⟩ : ∃ m, n = m + 1 := ⟨n - 1, by omega⟩
        rw [refused_onward hrefused (by omega), Option.some.injEq] at honward
        rw [← honward] at htick
        exact neg_ofNat_ne_one (by omega) htick
      · intro h task htask hrefused
        exact absurd hrefused (h task htask)

/-- What is expected of a run: the ticks stay in their clocks, and a task that refuses is offered
again in time. -/
structure Offered (schedEnd : Bool) (is : List TmInput) : Prop where
  ticks : Always (total Tmrun.step) Ticks (.create schedEnd) is
  again : Meets (total Tmrun.step) Reoffered (.create schedEnd) is

/-- **When every task is offered in time**: in every run over clocks of at least one in which no
task that is due refuses. -/
theorem timer_offers_iff (schedEnd : Bool) (is : List TmInput) (hclock : ∀ i ∈ is, Clocked i) :
    Offered schedEnd is ↔ Meets (total Tmrun.step) Willing (.create schedEnd) is := by
  have hfresh : Ticks (.create schedEnd) := fun task htask => absurd htask List.not_mem_nil
  have hclocked : Meets (total Tmrun.step) (fun _ i => Clocked i) (.create schedEnd) is := by
    refine (meets_iff_forall (J := fun _ => True) ?_ is _ trivial).mpr hclock
    exact fun _ _ _ _ => ⟨_, rfl, trivial⟩
  constructor
  · intro h
    exact Meets.of_invariant (J := fun _ => True)
      (fun s i _ h => ⟨reoffered_iff.mp h, fun _ _ _ => trivial⟩) is _ trivial h.again
  · intro h
    refine ⟨⟨hfresh, ?_⟩, ?_⟩
    · refine Meets.of_invariant (J := Ticks) (fun s i hticks hboth => ?_) is _ hfresh
        ((meets_and _ is _).mpr ⟨h, hclocked⟩)
      have hnext : After (total Tmrun.step) Ticks s i :=
        (after_some rfl).mpr ((ticks_step_iff hticks hboth.2).mpr hboth.1)
      exact ⟨hnext, hnext⟩
    · exact Meets.of_invariant (J := fun _ => True)
        (fun s i _ h => ⟨reoffered_iff.mpr h, fun _ _ _ => trivial⟩) is _ trivial h

/-- A periodic task that is willing from its second round on. -/
def reluctant : TaskArgs :=
  { name := "reluctant"
    clock := 1
    periodic := true
    canSched := some fun round => round != 1
    handle := fun _ => .etOk }

/-- A task that is due in every second round, and always willing. -/
def eager : TaskArgs :=
  { name := "eager"
    clock := 2
    periodic := true
    canSched := some fun _ => true
    handle := fun _ => .etOk }

theorem timer_offers_iff_eager :
    Offered false [.register eager, .round, .register reluctant, .register eager, .round, .round] ↔
      Meets (total Tmrun.step) Willing (.create false)
        [.register eager, .round, .register reluctant, .register eager, .round, .round] :=
  timer_offers_iff false _ (by decide)

/-- **A task that refuses once**: its tick is zero, and then the largest there is. -/
theorem timer_never_offers :
    ¬Offered false [.register reluctant, .round] ∧
      (run (total Tmrun.step) (.create false) [.register reluctant, .round, .round]).map
        (fun r => r.1.twk.taskQueue.map Tmtsk.tick) = some [0xFFFFFFFF] := by
  refine ⟨fun h => ?_, rfl⟩
  have hticks := (h.ticks.2.2 _ _ rfl).1 _ _ rfl
  exact absurd (hticks _ List.mem_cons_self).1 (by decide)

/-! ### Numbers -/

/-- The numbers of the tasks in the queue. -/
def Tmrun.tids (s : Tmrun) : List Nat := s.twk.taskQueue.map Tmtsk.tid

/-- Every task has a number of its own, and they are counted. -/
structure Tmrun.Numbered (s : Tmrun) : Prop where
  distinct : s.tids.Nodup
  count : s.twk.taskNr = s.twk.taskQueue.length

/-- A task is registered while none in the queue has the number of tasks as its own. -/
def Unused (s : Tmrun) : TmInput → Prop
  | .register _ => s.twk.taskNr ∉ s.tids
  | .round => True

theorem round_tids (s : Tmrun) : (s.step .round).1.tids.Sublist s.tids := by
  rw [Tmrun.tids, Tmrun.tids, round_queue]
  induction s.twk.taskQueue with
  | nil => exact .slnil
  | cons task queue ih =>
      rw [List.filterMap_cons]
      cases hnext : task.next (s.round + 1) with
      | none => exact ih.cons _
      | some task' =>
          rw [List.map_cons, List.map_cons, (next_some hnext).1]
          exact ih.cons_cons _

/-- **One step** keeps the numbers distinct exactly when the one it hands out is unused. -/
theorem numbered_step_iff (h : s.Numbered) : (s.step i).1.Numbered ↔ Unused s i := by
  cases i with
  | register a =>
      obtain ⟨task, htid, -, -, hqueue⟩ := register_queue s a
      have htids : (s.step (.register a)).1.tids = s.tids ++ [s.twk.taskNr] := by
        rw [Tmrun.tids, hqueue, List.map_append, List.map_singleton, htid]
        rfl
      constructor
      · intro h' hmem
        have hdistinct := h'.distinct
        rw [htids, List.nodup_append] at hdistinct
        exact hdistinct.2.2 _ hmem _ (List.mem_singleton_self _) rfl
      · intro hnot
        refine ⟨?_, ?_⟩
        · rw [htids, List.nodup_append]
          refine ⟨h.distinct, List.nodup_singleton _, fun a ha b hb heq => ?_⟩
          rw [List.mem_singleton.mp hb] at heq
          exact hnot (heq ▸ ha)
        · rw [hqueue, List.length_append, ← h.count]
          rfl
  | round =>
      exact iff_of_true ⟨(round_tids s).nodup h.distinct, round_count h.count⟩ trivial

/-- **A run** keeps them distinct exactly when no number it hands out is in the queue. -/
theorem numbered_iff_unused (schedEnd : Bool) (is : List TmInput) :
    Always (total Tmrun.step) Tmrun.Numbered (.create schedEnd) is ↔
      Meets (total Tmrun.step) Unused (.create schedEnd) is := by
  have hfresh : Tmrun.Numbered (.create schedEnd) := ⟨List.nodup_nil, rfl⟩
  have hstep : ∀ s i, s.Numbered → (After (total Tmrun.step) Tmrun.Numbered s i ↔ Unused s i) :=
    fun s i h => (after_some rfl).trans (numbered_step_iff h)
  rw [Always, and_iff_right hfresh]
  exact meets_congr hstep (fun s i h hunused => (hstep s i h).mpr hunused) is hfresh

/-! ### Who came and who left -/

/-- How many tasks have come, and how many have left. -/
structure Traffic where
  came : Nat
  left : Nat

/-- A worker with its history: how many tasks have come and left, and for every task in the queue
how many had when it came. -/
structure Tmhistory where
  now : Tmrun
  traffic : Traffic
  marks : List Traffic

namespace Tmhistory

/-- As `awoke_tmwkr_create` leaves it. -/
def create (schedEnd : Bool) : Tmhistory :=
  { now := .create schedEnd, traffic := ⟨0, 0⟩, marks := [] }

/-- One step of a worker, written down. -/
def step (h : Tmhistory) : TmInput → Tmhistory × List TmEvent
  | .register a =>
      ({ now := (h.now.step (.register a)).1
         traffic := { h.traffic with came := h.traffic.came + 1 }
         marks := h.marks ++ [h.traffic] }, (h.now.step (.register a)).2)
  | .round =>
      let queue := (h.now.step .round).1.twk.taskQueue
      let stays := fun p : Tmtsk × Traffic => (p.1.next (h.now.round + 1)).isSome
      ({ now := (h.now.step .round).1
         traffic := { h.traffic with
           left := h.traffic.left + (h.now.twk.taskQueue.length - queue.length) }
         marks := ((h.now.twk.taskQueue.zip h.marks).filter stays).map Prod.snd },
        (h.now.step .round).2)

/-- When a task is registered: for no task in the queue have as many left since it came as have come,
that one counted. -/
def Uneven (h : Tmhistory) : TmInput → Prop
  | .register _ => ∀ m ∈ h.marks, h.traffic.came - m.came ≠ h.traffic.left - m.left
  | .round => True

/-- What a history says of the numbers. -/
structure Recorded (h : Tmhistory) : Prop where
  count : h.now.twk.taskNr = h.now.twk.taskQueue.length
  total : h.traffic.came = h.traffic.left + h.now.twk.taskNr
  marks : List.Forall₂ (fun task m => m.came = m.left + task.tid ∧ m.came ≤ h.traffic.came ∧
    m.left ≤ h.traffic.left) h.now.twk.taskQueue h.marks

variable {h : Tmhistory}

theorem step_now (h : Tmhistory) (i : TmInput) :
    ((h.step i).1.now, (h.step i).2) = h.now.step i := by
  cases i with
  | register a => rfl
  | round => rfl

theorem forall₂_round {R S : Tmtsk → Traffic → Prop} {round : Nat}
    (hnext : ∀ task task' m, task.next round = some task' → R task m → S task' m)
    {queue : List Tmtsk} {marks : List Traffic} (hmarks : List.Forall₂ R queue marks) :
    List.Forall₂ S (queue.filterMap fun task => task.next round)
      (((queue.zip marks).filter fun p => (p.1.next round).isSome).map Prod.snd) := by
  induction hmarks with
  | nil => exact .nil
  | @cons task m queue marks hR _ ih =>
      rw [List.zip_cons_cons, List.filterMap_cons, List.filter_cons]
      cases hstays : task.next round with
      | none => exact ih
      | some task' =>
          rw [Option.isSome_some, if_pos rfl, List.map_cons]
          exact .cons (hnext task task' m hstays hR) ih

/-- **One step** keeps the history true. -/
theorem recorded_step (hrec : h.Recorded) (i : TmInput) : (h.step i).1.Recorded := by
  obtain ⟨hcount, htotal, hmarks⟩ := hrec
  cases i with
  | register a =>
      obtain ⟨task, htid, -, -, hqueue⟩ := register_queue h.now a
      refine ⟨?_, ?_, ?_⟩
      · show _ = (h.now.step (.register a)).1.twk.taskQueue.length
        rw [hqueue, List.length_append, ← hcount]
        rfl
      · show h.traffic.came + 1 = h.traffic.left + (h.now.twk.taskNr + 1)
        omega
      · show List.Forall₂ _ (h.now.step (.register a)).1.twk.taskQueue (h.marks ++ [h.traffic])
        rw [hqueue]
        refine List.rel_append (hmarks.imp fun task m hm => ?_) (.cons ?_ .nil)
        · exact ⟨hm.1, Nat.le_succ_of_le hm.2.1, hm.2.2⟩
        · exact ⟨by rw [htid, htotal], Nat.le_succ _, Nat.le_refl _⟩
  | round =>
      have hless := (List.length_filterMap_le (fun task => task.next (h.now.round + 1))
        h.now.twk.taskQueue)
      have hnr := round_count hcount
      have hqueue := round_queue h.now
      refine ⟨hnr, ?_, ?_⟩
      · show h.traffic.came = h.traffic.left + (h.now.twk.taskQueue.length -
          (h.now.step .round).1.twk.taskQueue.length) + (h.now.step .round).1.twk.taskNr
        rw [hnr, hqueue]
        omega
      · show List.Forall₂ _ (h.now.step .round).1.twk.taskQueue _
        rw [hqueue]
        refine forall₂_round (fun task task' m hnext hm => ?_) hmarks
        exact ⟨by rw [(next_some hnext).1]; exact hm.1, hm.2.1, Nat.le_trans hm.2.2 (Nat.le_add_right ..)⟩

/-- The number that is next is in the queue exactly when for one of its tasks the two are even. -/
theorem uneven_iff (hrec : h.Recorded) (i : TmInput) : Unused h.now i ↔ h.Uneven i := by
  cases i with
  | round => exact Iff.rfl
  | register a =>
      obtain ⟨-, htotal, hmarks⟩ := hrec
      have hiff : ∀ {queue : List Tmtsk} {marks : List Traffic},
          List.Forall₂ (fun task m => m.came = m.left + task.tid ∧ m.came ≤ h.traffic.came ∧
            m.left ≤ h.traffic.left) queue marks →
          (h.now.twk.taskNr ∉ queue.map Tmtsk.tid ↔
            ∀ m ∈ marks, h.traffic.came - m.came ≠ h.traffic.left - m.left) := by
        intro queue marks hmarks
        induction hmarks with
        | nil => exact iff_of_true List.not_mem_nil fun m hm => absurd hm List.not_mem_nil
        | cons hm _ ih =>
            rw [List.map_cons, List.mem_cons, not_or, List.forall_mem_cons, ih]
            refine and_congr_left fun _ => ?_
            omega
      exact hiff hmarks

end Tmhistory

/-- **When the tasks in the queue have numbers of their own**: in every run in which no task is
registered while, since one of those in the queue came, as many have left as have come, that one
counted. -/
theorem timer_tids_iff (schedEnd : Bool) (is : List TmInput) :
    Always (total Tmrun.step) Tmrun.Numbered (.create schedEnd) is ↔
      Meets (total Tmhistory.step) Tmhistory.Uneven (.create schedEnd) is := by
  have hnow : ∀ (h : Tmhistory) (i : TmInput),
      (total Tmhistory.step h i).map (fun r => (r.1.now, r.2)) = total Tmrun.step h.now i :=
    fun h i => congrArg some (h.step_now i)
  rw [numbered_iff_unused]
  refine (meets_proj hnow is (.create schedEnd)).symm.trans ?_
  exact meets_congr (J := Tmhistory.Recorded) (fun h i hrec => Tmhistory.uneven_iff hrec i)
    (fun h i hrec _ => (after_some rfl).mpr (Tmhistory.recorded_step hrec i)) is ⟨rfl, rfl, .nil⟩

/-- A task that comes back every ten rounds, and one that is through after its first. -/
def lasting : TaskArgs :=
  { name := "lasting", clock := 10, periodic := true, canSched := none, handle := fun _ => .etOk }
def passing : TaskArgs :=
  { name := "passing", clock := 1, periodic := false, canSched := none, handle := fun _ => .etOk }

/-- **A task goes, and another comes**: two tasks have the number one. -/
theorem timer_tids_again :
    ¬Always (total Tmrun.step) Tmrun.Numbered (.create false)
        [.register passing, .register lasting, .round, .register lasting] ∧
      (run (total Tmrun.step) (.create false)
        [.register passing, .register lasting, .round, .register lasting]).map
          (fun r => r.1.tids) = some [1, 1] := by
  refine ⟨fun h => ?_, rfl⟩
  have hlast := ((((h.2.2 _ _ rfl).2 _ _ rfl).2 _ _ rfl).1 _ _ rfl).distinct
  exact absurd hlast (by decide)

end Awoke
