/-
Ones' complement sums.

Words below `m` are added, and a carry out of the word is brought round to its low end.  A program
may as well add them as numbers and bring the carries round afterwards, all at once and as often
as there are any: the word that comes of a number `s` in the end is `word m s`, and each of the
two ways leads there.

A word and its complement, all ones less the word, add up to all ones.
-/
import Mathlib.Data.UInt
import Mathlib.Tactic.Common
import Mathlib.Tactic.Ring

namespace OnesSum

variable (m : Nat)

/-- Two words added, with the carry brought round. -/
def add (x y : Nat) : Nat := if x + y < m then x + y else x + y + 1 - m

/-- So many words added. -/
def sum (ws : List Nat) : Nat := ws.foldl (add m) 0

/-- The carries of a number brought round once. -/
def fold (s : Nat) : Nat := s % m + s / m

/-- The word a number comes to: its rest by `m - 1`, where all ones stand for a rest of 0. -/
def word (s : Nat) : Nat := if s = 0 then 0 else (s - 1) % (m - 1) + 1

variable {m}

theorem word_of_lt {s : Nat} (h : s < m) : word m s = s := by
  rw [word]
  split
  · rename_i hzero
    exact hzero.symm
  · rw [Nat.mod_eq_of_lt (by omega)]
    omega

theorem word_lt (hm : 2 ≤ m) (s : Nat) : word m s < m := by
  rw [word]
  split
  · omega
  · have hmod := Nat.mod_lt (s - 1) (show 0 < m - 1 by omega)
    omega

/-- A carry brought round changes nothing. -/
theorem word_add_mul {s : Nat} (hs : 0 < s) (k : Nat) : word m (s + k * (m - 1)) = word m s := by
  rw [word, word, if_neg (by omega), if_neg (by omega),
    show s + k * (m - 1) - 1 = s - 1 + k * (m - 1) by omega, Nat.add_mul_mod_self_right]

/-- **Bringing the carries round** keeps the word. -/
theorem word_fold (hm : 2 ≤ m) (s : Nat) : word m (fold m s) = word m s := by
  have hdiv := Nat.div_add_mod s m
  rw [fold]
  by_cases hs : s % m + s / m = 0
  · have hzero : s = 0 := by
      rw [Nat.add_eq_zero_iff] at hs
      rw [hs.1, hs.2] at hdiv
      omega
    rw [hs, hzero]
  · have heq : s = s % m + s / m + s / m * (m - 1) := by
      obtain ⟨k, rfl⟩ := Nat.exists_eq_add_of_le hm
      rw [show 2 + k - 1 = k + 1 by omega]
      calc s = (2 + k) * (s / (2 + k)) + s % (2 + k) := hdiv.symm
        _ = s % (2 + k) + s / (2 + k) + s / (2 + k) * (k + 1) := by ring
    rw [← word_add_mul (Nat.pos_of_ne_zero hs) (s / m), ← heq]

/-- While there are carries the number gets less. -/
theorem fold_lt (hm : 2 ≤ m) {s : Nat} (h : m ≤ s) : fold m s < s := by
  have hdiv := Nat.div_add_mod s m
  have hpos : 0 < s / m := Nat.div_pos h (by omega)
  have htwo : 2 * (s / m) ≤ m * (s / m) := Nat.mul_le_mul_right _ hm
  rw [fold]
  omega

theorem word_add (hm : 2 ≤ m) (s : Nat) {y : Nat} (hy : y < m) :
    add m (word m s) y = word m (s + y) := by
  by_cases hs : s = 0
  · subst hs
    rw [word, if_pos rfl, add, Nat.zero_add, if_pos hy, word_of_lt hy]
  · have hmod := Nat.mod_lt (s - 1) (show 0 < m - 1 by omega)
    have hword : word m s = (s - 1) % (m - 1) + 1 := by rw [word, if_neg hs]
    have heq : s + y = word m s + y + (s - 1) / (m - 1) * (m - 1) := by
      have hdiv := Nat.div_add_mod (s - 1) (m - 1)
      rw [Nat.mul_comm] at hdiv
      omega
    rw [heq, word_add_mul (by omega), add]
    split
    · rename_i hlt
      exact (word_of_lt hlt).symm
    · have hround : word m s + y + 1 - m + 1 * (m - 1) = word m s + y := by omega
      have hsmall : word m s + y + 1 - m < m := by omega
      rw [← word_of_lt hsmall, ← word_add_mul (by omega) 1, hround]

/-- **The sum of words** is the word of their sum. -/
theorem sum_eq (hm : 2 ≤ m) {ws : List Nat} (hws : ∀ x ∈ ws, x < m) :
    sum m ws = word m ws.sum := by
  have hloop : ∀ (ws : List Nat) (s : Nat), (∀ x ∈ ws, x < m) →
      ws.foldl (add m) (word m s) = word m (s + ws.sum) := by
    intro ws
    induction ws with
    | nil => intro s _; rfl
    | cons x ws ih =>
        intro s h
        rw [List.forall_mem_cons] at h
        rw [List.foldl_cons, word_add hm s h.1, ih _ h.2, List.sum_cons, Nat.add_assoc]
  rw [sum, ← word_of_lt (show 0 < m by omega), hloop ws 0 hws, Nat.zero_add]

/-- **The complement** makes all ones of a sum. -/
theorem word_complement (hm : 2 ≤ m) (s : Nat) : word m (s + (m - 1 - word m s)) = m - 1 := by
  have hlt := word_lt hm s
  rw [← word_add hm s (by omega), add, if_pos (by omega)]
  omega

end OnesSum
