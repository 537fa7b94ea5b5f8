/-
The sectors of a range.

Memory is divided into sectors of one size, and a range of bytes touches some of them, one behind
the other.  Whoever goes through a range from boundary to boundary meets each of them once.
-/
import Mathlib.Data.List.Nodup
import Mathlib.Tactic.Common

namespace Sectors

variable {gran a n s : Nat}

/-- The sectors of `gran` bytes that have a byte of the `n` from `a` on. -/
def touched (gran a n : Nat) : List Nat :=
  if n = 0 then [] else List.range' (a / gran) ((a + n - 1) / gran + 1 - a / gran)

@[simp] theorem touched_zero (gran a : Nat) : touched gran a 0 = [] := rfl

theorem touched_nodup (gran a n : Nat) : (touched gran a n).Nodup := by
  unfold touched
  split
  · exact List.nodup_nil
  · exact List.nodup_range'

theorem mem_touched_iff (hn : 0 < n) :
    s ∈ touched gran a n ↔ a / gran ≤ s ∧ s ≤ (a + n - 1) / gran := by
  have hle : a / gran ≤ (a + n - 1) / gran := Nat.div_le_div_right (by omega)
  rw [touched, if_neg (by omega), List.mem_range'_1]
  omega

/-- A sector is touched exactly if a byte of the range is in it. -/
theorem mem_touched (hgran : 0 < gran) :
    s ∈ touched gran a n ↔ ∃ x, a ≤ x ∧ x < a + n ∧ x / gran = s := by
  rcases Nat.eq_zero_or_pos n with rfl | hn
  · rw [touched_zero]
    exact iff_of_false List.not_mem_nil fun ⟨x, hlow, hhigh, _⟩ => by omega
  rw [mem_touched_iff hn]
  constructor
  · rintro ⟨hfirst, hlast⟩
    -- the first byte of the sector, or of the range if that is later
    refine ⟨max a (s * gran), Nat.le_max_left _ _, ?_, ?_⟩
    · have := (Nat.le_div_iff_mul_le hgran).mp hlast
      omega
    · rcases Nat.le_total (s * gran) a with hle | hle
      · rw [Nat.max_eq_left hle]
        exact Nat.le_antisymm hfirst ((Nat.le_div_iff_mul_le hgran).mpr hle)
      · rw [Nat.max_eq_right hle, Nat.mul_div_cancel _ hgran]
  · rintro ⟨x, hlow, hhigh, rfl⟩
    exact ⟨Nat.div_le_div_right hlow, Nat.div_le_div_right (by omega)⟩

/-- The first boundary behind an address. -/
def boundary (gran a : Nat) : Nat := (a / gran + 1) * gran

theorem lt_boundary (hgran : 0 < gran) (a : Nat) : a < boundary gran a :=
  Nat.lt_mul_of_div_lt (Nat.lt_succ_self _) hgran

/-- A range that does not go beyond the boundary touches one sector. -/
theorem touched_within (hgran : 0 < gran) (hn : 0 < n) (h : a + n ≤ boundary gran a) :
    touched gran a n = [a / gran] := by
  have hlast : (a + n - 1) / gran = a / gran := by
    refine Nat.le_antisymm ?_ (Nat.div_le_div_right (by omega))
    exact Nat.le_of_lt_succ ((Nat.div_lt_iff_lt_mul hgran).mpr (Nat.lt_of_lt_of_le (by omega) h))
  rw [touched, if_neg (by omega), hlast, Nat.add_sub_cancel_left]
  rfl

/-- One that does touches its first sector and those from the boundary on. -/
theorem touched_beyond (hgran : 0 < gran) (h : boundary gran a < a + n) :
    touched gran a n =
      a / gran :: touched gran (boundary gran a) (a + n - boundary gran a) := by
  have hlt := lt_boundary hgran a
  have hfirst : boundary gran a / gran = a / gran + 1 := Nat.mul_div_cancel _ hgran
  have hlast : a / gran + 1 ≤ (a + n - 1) / gran := by
    rw [Nat.le_div_iff_mul_le hgran]
    exact Nat.le_sub_one_of_lt h
  have hrest : boundary gran a + (a + n - boundary gran a) = a + n := by omega
  have hlength : (a + n - 1) / gran + 1 - a / gran =
      (a + n - 1) / gran + 1 - (a / gran + 1) + 1 := by omega
  rw [touched, touched, if_neg (by omega), if_neg (by omega), hrest, hfirst, hlength,
    List.range'_succ]

/-- Another range stays out of the touched sectors exactly if it is empty, or ends before the
first of them, or begins behind the last. -/
theorem avoids_iff {b k : Nat} (hgran : 0 < gran) (hn : 0 < n) :
    (∀ x, b ≤ x → x < b + k → x / gran ∉ touched gran a n) ↔
      k = 0 ∨ b + k ≤ a / gran * gran ∨ boundary gran (a + n - 1) ≤ b := by
  constructor
  · intro h
    by_contra hnot
    obtain ⟨hk, hnot⟩ := not_or.mp hnot
    obtain ⟨hlow, hhigh⟩ := not_or.mp hnot
    -- the first byte of the range that is not before the sectors
    refine h (max b (a / gran * gran)) (Nat.le_max_left _ _) (by omega) ?_
    rw [mem_touched_iff hn, Nat.le_div_iff_mul_le hgran]
    refine ⟨Nat.le_max_right _ _, Nat.le_of_lt_succ ?_⟩
    rw [Nat.div_lt_iff_lt_mul hgran, Nat.max_lt]
    refine ⟨Nat.lt_of_not_le hhigh, ?_⟩
    have hfirst := Nat.div_mul_le_self a gran
    have hlast := lt_boundary hgran (a + n - 1)
    unfold boundary at hlast
    show a / gran * gran < ((a + n - 1) / gran + 1) * gran
    omega
  · rintro hapart x hlow hhigh hmem
    rw [mem_touched_iff hn, Nat.le_div_iff_mul_le hgran] at hmem
    obtain ⟨hfirst, hlast⟩ := hmem
    have hend : x < boundary gran (a + n - 1) :=
      Nat.lt_of_lt_of_le (lt_boundary hgran x) (Nat.mul_le_mul_right _ (by omega))
    rcases hapart with hempty | hbefore | hbehind <;> omega

end Sectors
