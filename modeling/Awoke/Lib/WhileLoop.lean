/-
Loops that test before every turn.

A turn of the body takes the state to the next one or returns from the loop with a result; where
the test fails the loop is over, and its result is read off the state.  `run` takes so many turns
at most, and `Ends` says that some number of turns is enough.

`exists_run` is what says that a loop ends: a measure that every turn lowers.  What a loop ends
with is found turn by turn, with one rule for each way a turn can go.
-/
import Mathlib.Data.UInt
import Mathlib.Tactic.Ring

namespace WhileLoop

/-- What a turn of the body comes to. -/
inductive Turn (σ ρ : Type*)
  | next (s : σ)
  | ret (r : ρ)

variable {σ ρ : Type*} (test : σ → Prop) [DecidablePred test] (body : σ → Turn σ ρ) (last : σ → ρ)

/-- The loop, in so many turns at most. -/
def run : Nat → σ → Option ρ
  | 0, _ => none
  | n + 1, s =>
      if test s then
        match body s with
        | .next s' => run n s'
        | .ret r => some r
      else some (last s)

/-- The loop ends with this result. -/
def Ends (s : σ) (r : ρ) : Prop := ∃ n, run test body last n s = some r

variable {test body last} {s s' : σ} {r r' : ρ}

/-! ### One turn -/

theorem run_last (h : ¬test s) (n : Nat) : run test body last (n + 1) s = some (last s) :=
  if_neg h

theorem run_ret (h : test s) (hbody : body s = .ret r) (n : Nat) :
    run test body last (n + 1) s = some r := by
  rw [run, if_pos h, hbody]

theorem run_next (h : test s) (hbody : body s = .next s') (n : Nat) :
    run test body last (n + 1) s = run test body last n s' := by
  rw [run, if_pos h, hbody]

/-- What a loop ends with, if one more turn always comes to it. -/
theorem ends_iff_of_run {P : ρ → Prop}
    (h : ∀ n r, run test body last (n + 1) s = some r ↔ P r) : Ends test body last s r ↔ P r := by
  constructor
  · rintro ⟨n, hn⟩
    cases n with
    | zero => exact absurd hn.symm (Option.some_ne_none r)
    | succ n => exact (h n r).mp hn
  · exact fun hr => ⟨1, (h 0 r).mpr hr⟩

theorem ends_of_last (h : ¬test s) : Ends test body last s r ↔ r = last s := by
  refine ends_iff_of_run (P := fun r => r = last s) fun n r => ?_
  rw [run, if_neg h, Option.some.injEq, eq_comm]

theorem ends_of_ret (h : test s) (hbody : body s = .ret r') :
    Ends test body last s r ↔ r = r' := by
  refine ends_iff_of_run (P := fun r => r = r') fun n r => ?_
  simp only [run, if_pos h, hbody, Option.some.injEq]
  exact eq_comm

theorem ends_of_next (h : test s) (hbody : body s = .next s') :
    Ends test body last s r ↔ Ends test body last s' r := by
  constructor
  · rintro ⟨n, hn⟩
    cases n with
    | zero => exact absurd hn.symm (Option.some_ne_none r)
    | succ n => exact ⟨n, (run_next h hbody n).symm.trans hn⟩
  · exact fun ⟨n, hn⟩ => ⟨n + 1, (run_next h hbody n).trans hn⟩

/-! ### The whole loop -/

/-- More turns change nothing once there is a result. -/
theorem run_mono {m n : Nat} (hmn : m ≤ n) : ∀ {s : σ}, run test body last m s = some r →
    run test body last n s = some r := by
  induction m generalizing n with
  | zero => exact fun h => absurd h.symm (Option.some_ne_none r)
  | succ m ih =>
      intro s h
      obtain ⟨n, rfl⟩ := Nat.exists_eq_add_of_le' (Nat.le_of_add_left_le hmn : 1 ≤ n)
      by_cases htest : test s
      · cases hbody : body s with
        | next s' =>
            rw [run_next htest hbody] at h ⊢
            exact ih (Nat.le_of_succ_le_succ hmn) h
        | ret r' =>
            rw [run_ret htest hbody] at h ⊢
            exact h
      · rw [run_last htest] at h ⊢
        exact h

/-- A loop ends with one result. -/
theorem Ends.unique (h : Ends test body last s r) (h' : Ends test body last s r') : r = r' := by
  obtain ⟨m, hm⟩ := h
  obtain ⟨n, hn⟩ := h'
  have hmax := run_mono (le_max_left m n) hm
  exact Option.some.inj (hmax.symm.trans (run_mono (le_max_right m n) hn))

/-- What every turn keeps still holds where the loop ends. -/
theorem Ends.invariant {J : σ → Prop} (hJ : J s)
    (hkeep : ∀ s s', test s → body s = .next s' → J s → J s') (h : Ends test body last s r) :
    ∃ s', J s' ∧ (r = last s' ∨ body s' = .ret r) := by
  obtain ⟨n, hn⟩ := h
  induction n generalizing s with
  | zero => exact absurd hn.symm (Option.some_ne_none r)
  | succ n ih =>
      by_cases htest : test s
      · cases hbody : body s with
        | next s' =>
            rw [run_next htest hbody] at hn
            exact ih (hkeep s s' htest hbody hJ) hn
        | ret r' =>
            rw [run_ret htest hbody, Option.some.injEq] at hn
            exact ⟨s, hJ, .inr (hn ▸ hbody)⟩
      · rw [run_last htest, Option.some.injEq] at hn
        exact ⟨s, hJ, .inl hn.symm⟩

/-- **A loop ends** in fewer turns than a measure says that every turn lowers. -/
theorem exists_run (measure : σ → Nat)
    (hlower : ∀ s s', test s → body s = .next s' → measure s' < measure s) (s : σ) :
    ∃ r, run test body last (measure s + 1) s = some r := by
  induction hm : measure s using Nat.strongRecOn generalizing s with
  | _ m ih =>
    by_cases htest : test s
    · cases hbody : body s with
      | next s' =>
          have hlt := hm ▸ hlower s s' htest hbody
          obtain ⟨r, hr⟩ := ih _ hlt s' rfl
          refine ⟨r, ?_⟩
          rw [run_next htest hbody]
          exact run_mono hlt hr
      | ret r => exact ⟨r, run_ret htest hbody m⟩
    · exact ⟨last s, run_last htest m⟩

end WhileLoop
