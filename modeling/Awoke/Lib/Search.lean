/-
A scan for the first place where something holds.

`first` looks at one place after the other and stops at the first where `p` holds; `seen` are the
places it looks at on the way, the one it stops at included.  A scan that looks at more than one
cell at each place can so be held against the end of what it may read.
-/
import Mathlib.Data.UInt
import Mathlib.Tactic.Common
import Mathlib.Tactic.Ring

namespace Search

variable (p : Int → Prop) [DecidablePred p]

/-- The first of the `n` places from `i` on where `p` holds. -/
def first (i : Int) : Nat → Option Int
  | 0 => none
  | n + 1 => if p i then some i else first (i + 1) n

/-- The places that are looked at. -/
def seen (i : Int) : Nat → List Int
  | 0 => []
  | n + 1 => i :: if p i then [] else seen (i + 1) n

variable {p}

/-- **None is found** when it holds nowhere. -/
theorem first_eq_none_iff {n : Nat} : ∀ {i : Int},
    first p i n = none ↔ ∀ j, i ≤ j → j < i + n → ¬p j := by
  induction n with
  | zero =>
      intro i
      exact iff_of_true rfl fun j hlow hhigh => absurd hhigh (by omega)
  | succ n ih =>
      intro i
      rw [first]
      by_cases hp : p i
      · rw [if_pos hp]
        exact iff_of_false (Option.some_ne_none i) fun h => h i (Int.le_refl i) (by omega) hp
      · rw [if_neg hp, ih]
        constructor
        · intro h j hlow hhigh hj
          have hne : j ≠ i := fun heq => hp (heq ▸ hj)
          exact h j (by omega) (by omega) hj
        · intro h j hlow hhigh
          exact h j (by omega) (by omega)

/-- **What is found** is where it holds, and nowhere before. -/
theorem first_eq_some_iff {n : Nat} {k : Int} : ∀ {i : Int},
    first p i n = some k ↔ i ≤ k ∧ k < i + n ∧ p k ∧ ∀ j, i ≤ j → j < k → ¬p j := by
  induction n with
  | zero =>
      intro i
      refine iff_of_false (fun h => by cases h) ?_
      rintro ⟨hlow, hhigh, -⟩
      omega
  | succ n ih =>
      intro i
      rw [first]
      by_cases hp : p i
      · rw [if_pos hp, Option.some.injEq]
        constructor
        · rintro rfl
          exact ⟨Int.le_refl i, by omega, hp, fun j hlow hhigh => absurd hhigh (by omega)⟩
        · rintro ⟨hlow, -, -, hbefore⟩
          by_contra hne
          exact hbefore i (Int.le_refl i) (by omega) hp
      · rw [if_neg hp, ih]
        constructor
        · rintro ⟨hlow, hhigh, hk, hbefore⟩
          refine ⟨by omega, by omega, hk, fun j hj hjk hpj => ?_⟩
          have hne : j ≠ i := fun heq => hp (heq ▸ hpj)
          exact hbefore j (by omega) hjk hpj
        · rintro ⟨hlow, hhigh, hk, hbefore⟩
          have hne : k ≠ i := fun heq => hp (heq ▸ hk)
          exact ⟨by omega, by omega, hk, fun j hj hjk => hbefore j (by omega) hjk⟩

/-- **A place is looked at** when it holds nowhere before. -/
theorem mem_seen_iff {n : Nat} {j : Int} : ∀ {i : Int},
    j ∈ seen p i n ↔ i ≤ j ∧ j < i + n ∧ ∀ k, i ≤ k → k < j → ¬p k := by
  induction n with
  | zero =>
      intro i
      refine iff_of_false List.not_mem_nil ?_
      rintro ⟨hlow, hhigh, -⟩
      omega
  | succ n ih =>
      intro i
      rw [seen, List.mem_cons]
      by_cases hp : p i
      · rw [if_pos hp]
        constructor
        · rintro (rfl | hmem)
          · exact ⟨Int.le_refl j, by omega, fun k hlow hhigh => absurd hhigh (by omega)⟩
          · exact absurd hmem List.not_mem_nil
        · rintro ⟨hlow, -, hbefore⟩
          by_contra hne
          rw [not_or] at hne
          exact hbefore i (Int.le_refl i) (by omega) hp
      · rw [if_neg hp, ih]
        constructor
        · rintro (rfl | ⟨hlow, hhigh, hbefore⟩)
          · exact ⟨Int.le_refl j, by omega, fun k hlow hhigh => absurd hhigh (by omega)⟩
          · refine ⟨by omega, by omega, fun k hk hkj hpk => ?_⟩
            have hne : k ≠ i := fun heq => hp (heq ▸ hpk)
            exact hbefore k (by omega) hkj hpk
        · rintro ⟨hlow, hhigh, hbefore⟩
          by_cases hne : j = i
          · exact .inl hne
          · exact .inr ⟨by omega, by omega, fun k hk hkj => hbefore k (by omega) hkj⟩

end Search
