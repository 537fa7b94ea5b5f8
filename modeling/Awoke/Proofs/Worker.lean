/-
The rounds of a timer worker.

A task that was registered with a clock of at least one stands, after `k` rounds, where
its own clock says (`Registration.after`): what a round does to it, and what the round does
for it, depend on no other task.  So a periodic task is handled in every round that its
clock divides and any other in the round of its clock, and is gone then.

Gone, but not left alone: the round that frees a task sets its `tick` once more.
`timer_rounds_iff` says that this, and only this, goes wrong, in every run that is long
enough for some task to come to its end.
-/
import Awoke.Proofs.WorkerStep
import Mathlib.Data.List.Range

namespace Awoke

/-- The arguments a task is registered with: a clock of at least one, and a `can_sched`
that does not object. -/
structure Registration where
  name : String
  clock : UInt32
  periodic : Bool
  canSched : Option (Nat → Bool)
  handle : Nat → ErrType
  pos : 0 < clock.toNat
  willing : ∀ f, canSched = some f → ∀ round, f round = true

namespace Registration

/-- The task as it is registered. -/
def task (t : Registration) (tid : Nat) : Tmtsk :=
  { name := t.name
    tid := tid
    tick := t.clock
    clock := t.clock
    periodic := t.periodic
    canSched := t.canSched
    handle := t.handle
    errProc := false }

/-- The task with `tick` rounds to go. -/
def ticking (t : Registration) (tid tick : Nat) : Tmtsk :=
  { t.task tid with tick := UInt32.ofNat tick }

/-- The rounds in which the task is to be handled. -/
def due (t : Registration) (round : Nat) : Bool :=
  if t.periodic then round % t.clock.toNat = 0 else round = t.clock.toNat

/-- The task after `k` rounds, unless it is gone. -/
def after (t : Registration) (tid k : Nat) : Option Tmtsk :=
  if t.periodic ∨ k < t.clock.toNat then
    some (t.ticking tid (t.clock.toNat - k % t.clock.toNat))
  else none

/-- What a round does for the task. -/
def events (t : Registration) (tid round : Nat) : List TmEvent :=
  if t.due round then .handled tid :: if t.periodic then [] else [.stale tid] else []

variable (t : Registration) (tid k : Nat)

/-! ### One task in one round -/

theorem after_zero : t.after tid 0 = some (t.task tid) := by
  rw [Registration.after, if_pos (.inr t.pos), Nat.zero_mod, Nat.sub_zero, ticking,
    UInt32.ofNat_toNat]
  rfl

theorem tick_pred (m : Nat) : UInt32.ofNat (m + 1) - 1 = UInt32.ofNat m := by
  rw [UInt32.ofNat_add]
  exact UInt32.add_sub_cancel ..

theorem tick_zero {m : Nat} (h : m < 2 ^ 32) : UInt32.ofNat m = 0 ↔ m = 0 := by
  rw [← UInt32.toNat_inj, UInt32.toNat_ofNat_of_lt' h]
  rfl

theorem succ_mod {c : Nat} (hc : 0 < c) :
    (k % c + 1 = c ∧ (k + 1) % c = 0) ∨ (k % c + 1 < c ∧ (k + 1) % c = k % c + 1) := by
  have hlt := Nat.mod_lt k hc
  have hk : (k + 1) % c = (k % c + 1) % c := (Nat.mod_add_mod k c 1).symm
  rcases Nat.lt_or_ge (k % c + 1) c with hless | hmore
  · exact .inr ⟨hless, by rw [hk, Nat.mod_eq_of_lt hless]⟩
  · have heq : k % c + 1 = c := by omega
    exact .inl ⟨heq, by rw [hk, heq, Nat.mod_self]⟩

theorem schedTask_counts (nr : Nat) {m : Nat} (hpos : 0 < m) (hlt : m < 2 ^ 32) :
    Tmwkr.schedTask (k + 1) nr (t.ticking tid (m + 1)) = (some (t.ticking tid m), nr, []) := by
  have htick : (t.ticking tid (m + 1)).tick - 1 = UInt32.ofNat m := tick_pred m
  have hruns : ¬(t.ticking tid (m + 1)).Runs (k + 1) := by
    intro hruns
    have hzero := tick_sub_one.mpr hruns.1
    rw [htick, tick_zero hlt] at hzero
    omega
  rw [schedTask_waits hruns, htick]
  rfl

/-- A task whose tick reaches zero is handled, and starts over or is freed. -/
theorem schedTask_handles (nr : Nat) :
    Tmwkr.schedTask (k + 1) nr (t.ticking tid 1) =
      if t.periodic then (some (t.task tid), nr, [.handled tid])
      else (none, nr - 1, [.handled tid, .stale tid]) := by
  have hagrees : (t.ticking tid 1).agrees (k + 1) = true := by
    show (t.canSched.elim true fun f => f (k + 1)) = true
    cases hf : t.canSched with
    | none => rfl
    | some f => exact t.willing f hf (k + 1)
  have hhandling : (t.ticking tid 1).handling (k + 1) = [.handled tid] := by
    have herr : (t.ticking tid 1).errProc = false := rfl
    rw [Tmtsk.handling, herr, if_neg fun h => Bool.false_ne_true h.2]
    rfl
  rw [schedTask_runs ⟨rfl, hagrees⟩, hhandling]
  rfl

/-- Where its clock says the task stands after a round. -/
theorem after_succ (hlive : t.periodic ∨ k < t.clock.toNat) :
    if k % t.clock.toNat + 1 = t.clock.toNat then
      t.due (k + 1) = true ∧ t.after tid (k + 1) = if t.periodic then some (t.task tid) else none
    else t.due (k + 1) = false ∧
      t.after tid (k + 1) = some (t.ticking tid (t.clock.toNat - (k % t.clock.toNat + 1))) := by
  have hpos := t.pos
  have hshot : t.periodic = false → k % t.clock.toNat = k := fun hp =>
    Nat.mod_eq_of_lt (hlive.resolve_left (ne_true_of_eq_false hp))
  rcases succ_mod k hpos with ⟨heq, hmod⟩ | ⟨hless, hmod⟩
  · rw [if_pos heq]
    cases hp : t.periodic with
    | true =>
        refine ⟨by simp [due, hp, hmod], ?_⟩
        rw [Registration.after, if_pos (.inl hp), hmod, Nat.sub_zero, ticking, UInt32.ofNat_toNat]
        rfl
    | false =>
        have hk := hshot hp
        refine ⟨by simp only [due, hp, Bool.false_eq_true, if_false]; simp; omega, ?_⟩
        rw [Registration.after, if_neg (by rw [hp]; simp; omega)]
        rfl
  · rw [if_neg (by omega)]
    cases hp : t.periodic with
    | true =>
        refine ⟨by simp [due, hp, hmod], ?_⟩
        rw [Registration.after, if_pos (.inl hp), hmod]
    | false =>
        have hk := hshot hp
        refine ⟨by simp only [due, hp, Bool.false_eq_true, if_false]; simp; omega, ?_⟩
        rw [Registration.after, if_pos (.inr (by omega)), hmod]

/-- **One task in one round.**  It moves as its clock says. -/
theorem schedTask_after (nr : Nat) {task : Tmtsk} (h : t.after tid k = some task) :
    ∃ nr', Tmwkr.schedTask (k + 1) nr task = (t.after tid (k + 1), nr', t.events tid (k + 1)) := by
  have hpos := t.pos
  have hmod := Nat.mod_lt k hpos
  have hsize := t.clock.toNat_lt
  unfold Registration.after at h
  split at h
  · rename_i hlive
    have hnext := t.after_succ tid k hlive
    obtain rfl := Option.some.inj h
    obtain ⟨m, hm⟩ : ∃ m, t.clock.toNat - k % t.clock.toNat = m + 1 :=
      ⟨t.clock.toNat - k % t.clock.toNat - 1, by omega⟩
    rw [hm]
    split at hnext
    · rename_i hlast
      obtain ⟨hdue, hat⟩ := hnext
      have hzero : m = 0 := by omega
      rw [hzero, t.schedTask_handles, hat, events, if_pos hdue]
      cases t.periodic with
      | true => exact ⟨_, rfl⟩
      | false => exact ⟨_, rfl⟩
    · rename_i hlast
      obtain ⟨hdue, hat⟩ := hnext
      rw [t.schedTask_counts tid k nr (by omega) (by omega), hat, events, hdue,
        if_neg Bool.false_ne_true]
      have htick : t.clock.toNat - (k % t.clock.toNat + 1) = m := by omega
      exact ⟨nr, by rw [htick]⟩
  · exact nomatch h

theorem gone_after (h : t.after tid k = none) :
    t.after tid (k + 1) = none ∧ t.events tid (k + 1) = [] := by
  unfold Registration.after at h
  split at h
  · exact nomatch h
  · rename_i hgone
    rw [not_or] at hgone
    have hp : t.periodic = false := by simpa using hgone.1
    refine ⟨by rw [Registration.after, if_neg (by rw [hp]; simp; omega)], ?_⟩
    rw [events, if_neg]
    simp only [due, hp, Bool.false_eq_true, if_false, decide_eq_true_eq]
    omega

end Registration

/-! ### All tasks in one round -/

/-- Tasks with their numbers. -/
abbrev Registered := List (Registration × Nat)

/-- The queue after `k` rounds. -/
def Registered.queue (ts : Registered) (k : Nat) : List Tmtsk :=
  ts.filterMap fun p => p.1.after p.2 k

/-- What a round does for all of them. -/
def Registered.events (ts : Registered) (round : Nat) : List TmEvent :=
  ts.flatMap fun p => p.1.events p.2 round

/-- A round moves every task by itself. -/
theorem schedTasks_queue (ts : Registered) (k : Nat) : ∀ nr : Nat,
    ∃ nr', Tmwkr.schedTasks (k + 1) nr (ts.queue k) =
      (ts.queue (k + 1), nr', ts.events (k + 1)) := by
  unfold Registered.queue Registered.events
  induction ts with
  | nil => intro nr; exact ⟨nr, rfl⟩
  | cons p ts ih =>
      intro nr
      rw [List.flatMap_cons]
      cases hat : p.1.after p.2 k with
      | none =>
          obtain ⟨hnext, hevents⟩ := p.1.gone_after p.2 k hat
          simp only [List.filterMap_cons, hat, hnext, hevents, List.nil_append]
          exact ih nr
      | some task =>
          obtain ⟨nr₁, htask⟩ := p.1.schedTask_after p.2 k nr hat
          obtain ⟨nr₂, hrest⟩ := ih nr₁
          refine ⟨nr₂, ?_⟩
          simp only [List.filterMap_cons, hat, Tmwkr.schedTasks, htask, hrest]
          cases p.1.after p.2 (k + 1) with
          | none => rfl
          | some task' => rfl

/-- What a round adds when the queue is not empty. -/
def endEvents (schedEnd : Bool) (queue : List Tmtsk) : List TmEvent :=
  if queue.isEmpty then [] else if schedEnd then [.ended] else []

theorem timerScheduler_queue {ts : Registered} {k : Nat} {twk : Tmwkr}
    (h : twk.taskQueue = ts.queue k) :
    (Tmwkr.timerScheduler (k + 1) twk).1.taskQueue = ts.queue (k + 1) ∧
      (Tmwkr.timerScheduler (k + 1) twk).1.schedEnd = twk.schedEnd ∧
      (Tmwkr.timerScheduler (k + 1) twk).2 =
        ts.events (k + 1) ++ endEvents twk.schedEnd (ts.queue k) := by
  obtain ⟨nr', hround⟩ := schedTasks_queue ts k twk.taskNr
  unfold Tmwkr.timerScheduler endEvents
  rw [h]
  split
  · rename_i hempty
    rw [List.isEmpty_iff] at hempty
    rw [hempty, Tmwkr.schedTasks] at hround
    obtain ⟨hqueue, -, hevents⟩ : [] = ts.queue (k + 1) ∧ _ ∧ [] = ts.events (k + 1) := by
      simpa only [Prod.mk.injEq] using hround
    exact ⟨by rw [h, hempty, hqueue], rfl, by rw [← hevents, List.append_nil]⟩
  · rw [hround]
    exact ⟨rfl, rfl, rfl⟩

/-! ### All rounds -/

/-- The numbers are handed out in order. -/
theorem registered_queue (ts : List Registration) : ∀ twk : Tmwkr,
    (ts.foldl (fun twk t =>
      twk.taskRegister t.name t.clock t.periodic t.canSched t.handle) twk).taskQueue =
        twk.taskQueue ++ (ts.zipIdx twk.taskNr).map (fun p => p.1.task p.2) ∧
      (ts.foldl (fun twk t =>
        twk.taskRegister t.name t.clock t.periodic t.canSched t.handle) twk).schedEnd =
        twk.schedEnd := by
  induction ts with
  | nil => intro twk; exact ⟨(List.append_nil _).symm, rfl⟩
  | cons t ts ih =>
      intro twk
      obtain ⟨hqueue, hend⟩ :=
        ih (twk.taskRegister t.name t.clock t.periodic t.canSched t.handle)
      rw [List.foldl_cons, hqueue, hend, List.zipIdx_cons, List.map_cons]
      refine ⟨?_, rfl⟩
      show (twk.taskQueue ++ [t.task twk.taskNr]) ++ _ = _
      rw [List.append_assoc]
      rfl

/-- A worker with the tasks registered, before its first round. -/
def Tmwkr.registered (schedEnd : Bool) (ts : List Registration) : Tmwkr :=
  ts.foldl (fun twk t => twk.taskRegister t.name t.clock t.periodic t.canSched t.handle)
    { taskNr := 0, taskQueue := [], schedEnd := schedEnd }

/-- The rounds up to the `n`-th move every task by itself. -/
theorem rounds_queue (schedEnd : Bool) (ts : List Registration) (n : Nat) :
    ((Tmwkr.registered schedEnd ts).rounds n).1.taskQueue =
        Registered.queue (ts.zipIdx 0) n ∧
      ((Tmwkr.registered schedEnd ts).rounds n).1.schedEnd = schedEnd ∧
      ((Tmwkr.registered schedEnd ts).rounds n).2 = (List.range n).map fun k =>
        Registered.events (ts.zipIdx 0) (k + 1) ++
          endEvents schedEnd (Registered.queue (ts.zipIdx 0) k) := by
  induction n with
  | zero =>
      obtain ⟨hqueue, hend⟩ :=
        registered_queue ts { taskNr := 0, taskQueue := [], schedEnd := schedEnd }
      refine ⟨hqueue.trans ?_, hend, rfl⟩
      rw [List.nil_append, Registered.queue]
      induction ts.zipIdx 0 with
      | nil => rfl
      | cons p ps ih =>
          rw [List.map_cons, List.filterMap_cons, p.1.after_zero, ih]
  | succ n ih =>
      obtain ⟨hqueue, hend, hlog⟩ := ih
      obtain ⟨hqueue', hend', hevents⟩ := timerScheduler_queue hqueue
      refine ⟨hqueue', hend'.trans hend, ?_⟩
      rw [hend] at hevents
      rw [List.range_succ, List.map_append, List.map_singleton, ← hlog, ← hevents]
      rfl

/-! ### The law of the rounds -/

/-- The rounds of a log in which the task `tid` was handled, each as often as it was. -/
def handledIn (tid : Nat) (log : List (List TmEvent)) : List Nat :=
  (log.zipIdx 1).flatMap fun p => (p.1.filter (· = .handled tid)).map fun _ => p.2

/-- What a round does that is about the task `i` is what it does for it. -/
theorem Registered.filter_events {f : TmEvent → Bool} {i : Nat} {t : Registration}
    (hf : ∀ (t : Registration) (j r : Nat), j ≠ i → (t.events j r).filter f = [])
    {ts : Registered} (hnodup : (ts.map Prod.snd).Nodup) (hmem : (t, i) ∈ ts) (r : Nat) :
    (ts.events r).filter f = (t.events i r).filter f := by
  unfold Registered.events
  have hothers : ∀ ps : Registered, i ∉ ps.map Prod.snd →
      (ps.flatMap fun p => p.1.events p.2 r).filter f = [] := by
    intro ps
    induction ps with
    | nil => intro _; rfl
    | cons p ps ih =>
        intro hi
        rw [List.map_cons, List.mem_cons, not_or] at hi
        rw [List.flatMap_cons, List.filter_append, ih hi.2, hf p.1 p.2 r (Ne.symm hi.1)]
        rfl
  induction ts with
  | nil => exact absurd hmem List.not_mem_nil
  | cons p ps ih =>
      rw [List.map_cons, List.nodup_cons] at hnodup
      rw [List.flatMap_cons, List.filter_append]
      rcases List.mem_cons.mp hmem with rfl | hmem
      · rw [hothers ps hnodup.1, List.append_nil]
      · have hne : p.2 ≠ i := fun heq => hnodup.1 (heq ▸ List.mem_map_of_mem hmem)
        rw [hf p.1 p.2 r hne, List.nil_append]
        exact ih hnodup.2 hmem

theorem filter_handled_events (t : Registration) (i r : Nat) :
    (t.events i r).filter (· = .handled i) = if t.due r then [.handled i] else [] := by
  unfold Registration.events
  split
  · cases t.periodic <;> simp
  · rfl

theorem filter_handled_other (i : Nat) (t : Registration) (j r : Nat) (h : j ≠ i) :
    (t.events j r).filter (fun e => decide (e = .handled i)) = [] := by
  unfold Registration.events
  split
  · cases t.periodic <;> simp [h]
  · rfl

theorem filter_handled_end (schedEnd : Bool) (queue : List Tmtsk) (i : Nat) :
    (endEvents schedEnd queue).filter (fun e => decide (e = .handled i)) = [] := by
  unfold endEvents
  split
  · rfl
  · cases schedEnd <;> rfl

theorem zipIdx_tids_nodup (ts : List Registration) (n : Nat) :
    ((ts.zipIdx n).map Prod.snd).Nodup := by
  rw [List.zipIdx_map_snd]
  exact List.nodup_range'

/-- The rounds in which a task is handled are those its clock names. -/
theorem handledIn_rounds (schedEnd : Bool) (ts : List Registration) (n i : Nat)
    (h : i < ts.length) :
    handledIn i ((Tmwkr.registered schedEnd ts).rounds n).2 =
      (List.range' 1 n).filter ts[i].due := by
  have hmem : (ts[i], i) ∈ ts.zipIdx 0 := by
    rw [List.mem_zipIdx_iff_getElem?]
    exact List.getElem?_eq_getElem h
  have hround : ∀ k, ((Registered.events (ts.zipIdx 0) (k + 1) ++
      endEvents schedEnd (Registered.queue (ts.zipIdx 0) k)).filter
        fun e => decide (e = .handled i)) = if ts[i].due (k + 1) then [.handled i] else [] := by
    intro k
    rw [List.filter_append, filter_handled_end, List.append_nil,
      Registered.filter_events (filter_handled_other i) (zipIdx_tids_nodup ts 0) hmem,
      filter_handled_events]
  rw [(rounds_queue schedEnd ts n).2.2, handledIn]
  induction n with
  | zero => rfl
  | succ n ih =>
      rw [List.range_succ, List.map_append, List.zipIdx_append, List.flatMap_append, ih,
        List.range'_concat, List.filter_append, List.length_map, List.length_range]
      congr 1
      rw [List.map_singleton, List.zipIdx_singleton, List.flatMap_singleton, hround, Nat.one_mul,
        Nat.add_comm 1 n, List.filter_singleton]
      cases ts[i].due (n + 1) <;> rfl

/-- What is asked of `n` rounds: every task is handled in the rounds its clock names, as
it would be alone, a task that is not periodic is gone from then on, and no field of a
task that was freed is accessed. -/
structure TimerLaw (schedEnd : Bool) (ts : List Registration) (n : Nat) : Prop where
  handled : ∀ (i : Nat) (h : i < ts.length),
    handledIn i ((Tmwkr.registered schedEnd ts).rounds n).2 = (List.range' 1 n).filter ts[i].due
  alone : ∀ (i : Nat) (h : i < ts.length),
    handledIn i ((Tmwkr.registered schedEnd ts).rounds n).2 =
      handledIn 0 ((Tmwkr.registered schedEnd [ts[i]]).rounds n).2
  gone : ∀ (i : Nat) (h : i < ts.length) (k : Nat), ts[i].periodic = false →
    ts[i].clock.toNat ≤ k → k ≤ n →
      ∀ task ∈ ((Tmwkr.registered schedEnd ts).rounds k).1.taskQueue, task.tid ≠ i
  untouched : ∀ events ∈ ((Tmwkr.registered schedEnd ts).rounds n).2, ∀ i, .stale i ∉ events

theorem after_tid {t : Registration} {tid k : Nat} {task : Tmtsk}
    (h : t.after tid k = some task) : task.tid = tid := by
  unfold Registration.after at h
  split at h
  · rw [← Option.some.inj h]
    rfl
  · exact nomatch h

theorem gone_rounds (schedEnd : Bool) (ts : List Registration) (i : Nat) (h : i < ts.length)
    (k : Nat) (hp : ts[i].periodic = false) (hk : ts[i].clock.toNat ≤ k) :
    ∀ task ∈ ((Tmwkr.registered schedEnd ts).rounds k).1.taskQueue, task.tid ≠ i := by
  intro task htask heq
  rw [(rounds_queue schedEnd ts k).1, Registered.queue, List.mem_filterMap] at htask
  obtain ⟨p, hmem, hafter⟩ := htask
  have hi : p.2 = i := (after_tid hafter).symm.trans heq
  have hget : ts[i]? = some p.1 := by
    rw [← hi]
    exact List.mem_zipIdx_iff_getElem?.mp hmem
  rw [List.getElem?_eq_getElem h, Option.some.injEq] at hget
  rw [Registration.after, if_neg (by rw [← hget, hp]; simp; omega)] at hafter
  exact nomatch hafter

theorem stale_mem_events {t : Registration} {tid r i : Nat} :
    .stale i ∈ t.events tid r ↔ t.due r = true ∧ t.periodic = false ∧ i = tid := by
  unfold Registration.events
  cases t.due r <;> cases t.periodic <;> simp

/-- A freed task is accessed in the round that frees one. -/
theorem untouched_iff (schedEnd : Bool) (ts : List Registration) (n : Nat) :
    (∀ events ∈ ((Tmwkr.registered schedEnd ts).rounds n).2, ∀ i, .stale i ∉ events) ↔
      ∀ t ∈ ts, t.periodic = false → n < t.clock.toNat := by
  rw [(rounds_queue schedEnd ts n).2.2]
  constructor
  · intro huntouched t ht hp
    obtain ⟨i, hi, hget⟩ := List.getElem_of_mem ht
    by_contra hlate
    have hpos := t.pos
    refine huntouched _ (List.mem_map_of_mem
      (List.mem_range.mpr (by omega : t.clock.toNat - 1 < n))) i ?_
    refine List.mem_append_left _ (List.mem_flatMap.mpr ⟨(t, i), ?_, ?_⟩)
    · rw [List.mem_zipIdx_iff_getElem?, List.getElem?_eq_getElem hi, hget]
    · refine stale_mem_events.mpr ⟨?_, hp, rfl⟩
      simp only [Registration.due, hp, Bool.false_eq_true, if_false, decide_eq_true_eq]
      omega
  · intro hlong events hevents i hstale
    obtain ⟨k, hk, rfl⟩ := List.mem_map.mp hevents
    rcases List.mem_append.mp hstale with hstale | hstale
    · obtain ⟨p, hp, hmem⟩ := List.mem_flatMap.mp hstale
      obtain ⟨hdue, hperiodic, -⟩ := stale_mem_events.mp hmem
      have ht : p.1 ∈ ts := List.mem_of_getElem? (List.mem_zipIdx_iff_getElem?.mp hp)
      have hlate := hlong p.1 ht hperiodic
      rw [List.mem_range] at hk
      simp only [Registration.due, hperiodic, Bool.false_eq_true, if_false,
        decide_eq_true_eq] at hdue
      omega
    · unfold endEvents at hstale
      split at hstale
      · exact nomatch hstale
      · cases schedEnd with
        | false => exact nomatch hstale
        | true => exact nomatch List.mem_singleton.mp hstale

/-- **The rounds of a timer worker.**  They keep their law exactly as long as no task
that is not periodic comes to its round. -/
theorem timer_rounds_iff (schedEnd : Bool) (ts : List Registration) (n : Nat) :
    TimerLaw schedEnd ts n ↔ ∀ t ∈ ts, t.periodic = false → n < t.clock.toNat := by
  rw [← untouched_iff schedEnd ts n]
  refine ⟨fun h => h.untouched, fun h => ⟨handledIn_rounds schedEnd ts n, ?_, ?_, h⟩⟩
  · intro i hi
    rw [handledIn_rounds schedEnd ts n i hi, handledIn_rounds schedEnd [ts[i]] n 0 (by simp)]
    rfl
  · intro i hi k hp hk _
    exact gone_rounds schedEnd ts i hi k hp hk

/-- A task of one round. -/
def oneShot : Registration :=
  { name := "once"
    clock := 1
    periodic := false
    canSched := none
    handle := fun _ => .etOk
    pos := by decide
    willing := fun _ h => nomatch h }

/-- The task that was freed in its round is written again. -/
theorem timer_touches_freed : ¬TimerLaw false [oneShot] 1 := by
  intro h
  exact h.untouched [.handled 0, .stale 0] (by decide) 0 (by decide)

end Awoke
