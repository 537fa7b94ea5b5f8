/-
One thread at a time has the lock.

What the semaphore counts and the threads that are past their wait and have not posted are together
one, and one more for every wait that was interrupted.  The flag `locked` says less: it may be cleared
when the next thread has the lock already, but it is never left set when no thread has the lock or is
about to clear it.
-/
import Mathlib.Algebra.BigOperators.Group.Finset.Piecewise
import Mathlib.Data.Fintype.Basic
import Awoke.Util.Lock

namespace Awoke.Lock

variable {τ : Type*} [DecidableEq τ]

/-- Past the wait, and before the post. -/
def Pc.Inside (pc : Pc) : Prop := pc = .entered ∨ pc = .holds ∨ pc = .leaves

instance (pc : Pc) : Decidable pc.Inside := inferInstanceAs (Decidable (_ ∨ _ ∨ _))

/-- Past the setting of `locked`, and before it is cleared. -/
def Pc.Shown (pc : Pc) : Prop := pc = .holds ∨ pc = .leaves ∨ pc = .left

instance (pc : Pc) : Decidable pc.Shown := inferInstanceAs (Decidable (_ ∨ _ ∨ _))

/-- How many threads are inside. -/
def St.inside [Fintype τ] (s : St τ) : Nat := (Finset.univ.filter fun t => (s.pc t).Inside).card

/-- How many waits were interrupted. -/
def interruptions (acts : List (Act τ)) : Nat := acts.countP Act.interrupts

/-! ### One thread goes on -/

theorem goes_self (s : St τ) (t : τ) (pc : Pc) : (s.goes t pc).pc t = pc :=
  Function.update_self ..

theorem goes_other (s : St τ) {t u : τ} (pc : Pc) (h : u ≠ t) : (s.goes t pc).pc u = s.pc u :=
  Function.update_of_ne h ..

theorem inside_goes [Fintype τ] (s : St τ) (t : τ) (pc : Pc) :
    (s.goes t pc).inside + (if (s.pc t).Inside then 1 else 0) =
      s.inside + if pc.Inside then 1 else 0 := by
  have hcount : ∀ s : St τ, s.inside = ∑ u : τ, if (s.pc u).Inside then 1 else 0 := fun s =>
    Finset.card_filter ..
  have hrest : ∑ u ∈ Finset.univ.erase t, (if ((s.goes t pc).pc u).Inside then 1 else 0) =
      ∑ u ∈ Finset.univ.erase t, if (s.pc u).Inside then 1 else 0 := by
    refine Finset.sum_congr rfl fun u hu => ?_
    rw [goes_other s pc (Finset.ne_of_mem_erase hu)]
  rw [hcount, hcount, ← Finset.add_sum_erase _ _ (Finset.mem_univ t), hrest, goes_self,
    ← Finset.add_sum_erase Finset.univ (fun u => if (s.pc u).Inside then 1 else 0)
      (Finset.mem_univ t)]
  omega

/-! ### What the steps keep -/

/-- What holds after any steps with so many interruptions. -/
structure Safe [Fintype τ] (type : LockType) (s : St τ) (k : Nat) : Prop where
  same : s.type = type
  count : s.value + s.inside = 1 + k
  mux : type = .mux → k = 0
  shown : s.locked → ∃ t, (s.pc t).Shown

/-- A step of a thread outside that stays outside. -/
theorem Safe.goes [Fintype τ] {type : LockType} {s : St τ} {k : Nat}
    (h : Safe type s k) (t : τ) (pc : Pc)
    (hinside : pc.Inside ↔ (s.pc t).Inside) (hshown : (s.pc t).Shown → pc.Shown) :
    Safe type (s.goes t pc) k where
  same := h.same
  count := by
    have hgoes := inside_goes s t pc
    have hcount := h.count
    simp only [hinside] at hgoes
    rw [Nat.add_right_cancel hgoes]
    exact hcount
  mux := h.mux
  shown := by
    intro hlocked
    obtain ⟨u, hu⟩ := h.shown hlocked
    by_cases heq : u = t
    · refine ⟨t, ?_⟩
      rw [goes_self]
      exact hshown (heq ▸ hu)
    · refine ⟨u, ?_⟩
      rwa [goes_other s pc heq]

theorem Safe.shown_goes [Fintype τ] {type : LockType} {s : St τ} {k : Nat}
    (h : Safe type s k) (t : τ) (pc : Pc)
    (hshown : ¬(s.pc t).Shown) (hlocked : s.locked) : ∃ u, ((s.goes t pc).pc u).Shown := by
  obtain ⟨u, hu⟩ := h.shown hlocked
  have hne : u ≠ t := by
    rintro rfl
    exact hshown hu
  refine ⟨u, ?_⟩
  rwa [goes_other s pc hne]

omit [DecidableEq τ] in
theorem create_safe [Fintype τ] (type : LockType) : Safe type (awokeLockCreate type : St τ) 0 where
  same := rfl
  count := by
    have hnone : (awokeLockCreate type : St τ).inside = 0 := by
      refine Finset.card_eq_zero.mpr (Finset.filter_eq_empty_iff.mpr fun t _ => ?_)
      change ¬Pc.Inside .out
      decide
    rw [hnone]
    rfl
  mux := fun _ => rfl
  shown := fun h => absurd h Bool.false_ne_true

/-- **A step keeps it**; an interruption lets one more thread in. -/
theorem Safe.step [Fintype τ] {type : LockType} {s s' : St τ} {k : Nat}
    (h : Safe type s k) {act : Act τ}
    (hstep : s.step act = some s') : Safe type s' (k + if act.interrupts then 1 else 0) := by
  have hcount := h.count
  cases act with
  | acquire t flag =>
      obtain ⟨hpc, heq⟩ := Option.ite_none_right_eq_some.mp hstep
      obtain rfl := Option.some.inj heq
      exact h.goes t (.asked flag) (by rw [hpc]; cases flag <;> decide)
        (by rw [hpc]; exact fun hout => absurd hout (by decide))
  | acquireTimeout t =>
      obtain ⟨hpc, heq⟩ := Option.ite_none_right_eq_some.mp hstep
      obtain rfl := Option.some.inj heq
      exact h.goes t .timed (by rw [hpc]; decide) (by rw [hpc]; decide)
  | release t =>
      obtain ⟨hpc, heq⟩ := Option.ite_none_right_eq_some.mp hstep
      obtain rfl := Option.some.inj heq
      exact h.goes t .leaves (by rw [hpc]; decide) (by rw [hpc]; decide)
  | test t =>
      rw [St.step] at hstep
      split at hstep
      · rename_i hpc
        split at hstep
        · obtain rfl := Option.some.inj hstep
          exact h.goes t .out (by rw [hpc]; decide) (by rw [hpc]; decide)
        · obtain rfl := Option.some.inj hstep
          exact h.goes t .waits (by rw [hpc]; decide) (by rw [hpc]; decide)
      · obtain ⟨hpc, heq⟩ := Option.ite_none_right_eq_some.mp hstep
        obtain rfl := Option.some.inj heq
        exact h.goes t .waits (by rw [hpc]; decide) (by rw [hpc]; decide)
  | wait t =>
      obtain ⟨⟨hpc, hvalue⟩, heq⟩ := Option.ite_none_right_eq_some.mp hstep
      obtain rfl := Option.some.inj heq
      have hout : ¬(s.pc t).Inside ∧ ¬(s.pc t).Shown := by
        rcases hpc with hpc | hpc <;> rw [hpc] <;> decide
      have hgoes := inside_goes s t .entered
      rw [if_neg hout.1, if_pos (.inl rfl)] at hgoes
      refine ⟨h.same, ?_, h.mux, h.shown_goes t .entered hout.2⟩
      change s.value - 1 + (s.goes t .entered).inside = 1 + k
      omega
  | interrupt t =>
      obtain ⟨⟨hpc, hsem⟩, heq⟩ := Option.ite_none_right_eq_some.mp hstep
      obtain rfl := Option.some.inj heq
      have hgoes := inside_goes s t .entered
      rw [hpc, if_neg (by decide), if_pos (.inl rfl)] at hgoes
      refine ⟨h.same, ?_, fun hmux => ?_, h.shown_goes t .entered (by rw [hpc]; decide)⟩
      · change s.value + (s.goes t .entered).inside = 1 + (k + 1)
        omega
      · have hboth : LockType.sem = .mux := hsem.symm.trans (h.same.trans hmux)
        exact absurd hboth (by decide)
  | timeout t =>
      obtain ⟨hpc, heq⟩ := Option.ite_none_right_eq_some.mp hstep
      obtain rfl := Option.some.inj heq
      exact h.goes t .out (by rw [hpc]; decide) (by rw [hpc]; decide)
  | set t =>
      obtain ⟨hpc, heq⟩ := Option.ite_none_right_eq_some.mp hstep
      obtain rfl := Option.some.inj heq
      have hgoes := h.goes t .holds (by rw [hpc]; decide) (by rw [hpc]; decide)
      exact ⟨h.same, hgoes.count, hgoes.mux, fun _ => ⟨t, .inl (goes_self s t .holds)⟩⟩
  | post t =>
      obtain ⟨hpc, heq⟩ := Option.ite_none_right_eq_some.mp hstep
      obtain rfl := Option.some.inj heq
      have hgoes := inside_goes s t .left
      rw [hpc, if_pos (by decide), if_neg (by decide)] at hgoes
      refine ⟨h.same, ?_, h.mux, fun _ => ⟨t, .inr (.inr (goes_self s t .left))⟩⟩
      change (if s.type = .sem then s.value + 1 else 1) + (s.goes t .left).inside = 1 + k
      rw [h.same]
      cases htype : type with
      | sem =>
          rw [if_pos rfl]
          omega
      | mux =>
          have hk := h.mux htype
          rw [if_neg (by decide)]
          omega
  | clear t =>
      obtain ⟨hpc, heq⟩ := Option.ite_none_right_eq_some.mp hstep
      obtain rfl := Option.some.inj heq
      have hgoes := inside_goes s t .out
      rw [hpc, if_neg (by decide), if_neg (by decide)] at hgoes
      refine ⟨h.same, ?_, h.mux, fun hlocked => absurd hlocked Bool.false_ne_true⟩
      change s.value + (s.goes t .out).inside = 1 + k
      omega

/-- **A run keeps it.** -/
theorem Safe.run [Fintype τ] {type : LockType} {acts : List (Act τ)} : ∀ {s s' : St τ} {k : Nat}, Safe type s k →
    s.run acts = some s' → Safe type s' (k + interruptions acts) := by
  induction acts with
  | nil =>
      intro s s' k h hrun
      obtain rfl := Option.some.inj hrun
      exact h
  | cons act acts ih =>
      intro s s' k h hrun
      rw [St.run, List.foldlM_cons] at hrun
      obtain ⟨s1, hstep, hrun⟩ := Option.bind_eq_some_iff.mp hrun
      have hlater := ih (h.step hstep) hrun
      rw [interruptions, List.countP_cons, ← interruptions, Nat.add_comm (interruptions acts),
        ← Nat.add_assoc]
      exact hlater

/-- **One thread at a time has the lock**, in whatever order the threads take their steps: at most
one is inside for a lock no wait for which was interrupted, as none is for a mutex, and one more for
every wait that was.  `locked` is set only if a thread has the lock or is about to clear it; and the
lock is not lost: if no thread is inside, one that waits can go on. -/
theorem lock_excludes [Fintype τ] (type : LockType) (acts : List (Act τ)) (s : St τ)
    (h : (awokeLockCreate type).run acts = some s) :
    s.inside ≤ 1 + interruptions acts ∧ (type = .mux → interruptions acts = 0) ∧
      (interruptions acts = 0 → ∀ t u, (s.pc t).Inside → (s.pc u).Inside → t = u) ∧
      (s.locked → ∃ t, (s.pc t).Shown) ∧
      ((∀ t, ¬(s.pc t).Inside) → ∀ t, s.pc t = .waits ∨ s.pc t = .timed →
        (s.step (.wait t)).isSome) := by
  have hsafe := (create_safe type).run h
  rw [Nat.zero_add] at hsafe
  have hcount := hsafe.count
  refine ⟨by omega, hsafe.mux, fun hnone t u ht hu => ?_, hsafe.shown, fun hout t ht => ?_⟩
  · have hone : s.inside ≤ 1 := by omega
    exact Finset.card_le_one.mp hone t (Finset.mem_filter.mpr ⟨Finset.mem_univ t, ht⟩) u
      (Finset.mem_filter.mpr ⟨Finset.mem_univ u, hu⟩)
  · have hnone : s.inside = 0 :=
      Finset.card_eq_zero.mpr (Finset.filter_eq_empty_iff.mpr fun t _ => hout t)
    have hvalue : 0 < s.value := by omega
    rw [St.step, if_pos ⟨ht, hvalue⟩]
    rfl

/-- Two threads ask for a lock, and one has it. -/
theorem lock_excludes_two : ∃ s, (awokeLockCreate .sem : St (Fin 2)).run
    [.acquire 0 .block, .acquireTimeout 1, .test 0, .wait 1, .set 1] = some s ∧
      ∀ t u, (s.pc t).Inside → (s.pc u).Inside → t = u := by
  have hrun : ((awokeLockCreate .sem : St (Fin 2)).run
      [.acquire 0 .block, .acquireTimeout 1, .test 0, .wait 1, .set 1]).isSome := by decide
  obtain ⟨s, hs⟩ := Option.isSome_iff_exists.mp hrun
  exact ⟨s, hs, (lock_excludes .sem _ s hs).2.2.1 rfl⟩

end Awoke.Lock
