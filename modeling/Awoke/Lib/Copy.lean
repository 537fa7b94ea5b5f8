/-
Loops that go through two ranges of memory.

A loop reads a cell of one range and writes the cell at the same place of another.  The ranges may
overlap: as long as no cell is written before it is read, what is written is made of what was there
before the loop.
-/
import Awoke.Lib.Cells

namespace Cells

variable {α : Type*} (f : Nat → α → α) (dst src : Int)

/-- `for (k = 0; k < n; k++) dst[k] = f(src[k])`. -/
def copyUp (m : Cells α) : Nat → Cells α
  | 0 => m
  | n + 1 =>
      let m := copyUp m n
      Function.update m (dst + n) (f n (m (src + n)))

/-- What is made of what lies at `src`, all read first. -/
def copied (m : Cells α) (n : Nat) : Cells α :=
  fun i => if dst ≤ i ∧ i < dst + n then f (i - dst).toNat (m (i - dst + src)) else m i

variable {f dst src}

/-- **A loop that goes up** reads in time unless the range it writes begins inside the other. -/
theorem copyUp_eq (m : Cells α) (n : Nat) (h : dst ≤ src ∨ src + n ≤ dst) :
    copyUp f dst src m n = copied f dst src m n := by
  induction n with
  | zero =>
      funext i
      rw [copied, if_neg (by omega), copyUp]
  | succ n ih =>
      have hread : copied f dst src m n (src + n) = m (src + n) := if_neg (by omega)
      rw [copyUp, ih (by omega), hread]
      funext i
      rw [Function.update_apply, copied, copied]
      by_cases hlast : i = dst + n
      · subst hlast
        have hoffset : dst + (n : Int) - dst = n := by omega
        rw [if_pos rfl, if_pos (by omega), hoffset, Int.toNat_natCast, Int.add_comm]
      · rw [if_neg hlast]
        by_cases hin : dst ≤ i ∧ i < dst + n
        · rw [if_pos hin, if_pos (by omega)]
        · rw [if_neg hin, if_neg (by omega)]

/-- What is made of a list is written. -/
theorem copied_eq_write (f : Nat → α → α) (dst src : Int) (m : Cells α) (bs : List α)
    (h : ∀ (k : Nat) (hk : k < bs.length), f k (m (src + k)) = bs[k]) :
    copied f dst src m bs.length = write m dst bs := by
  funext i
  rw [copied]
  by_cases hin : dst ≤ i ∧ i < dst + bs.length
  · obtain ⟨k, rfl⟩ := Int.le.dest hin.1
    have hk : k < bs.length := by omega
    have hoffset : dst + (k : Int) - dst = k := by omega
    rw [if_pos hin, write_inside m dst bs hk, hoffset, Int.toNat_natCast, Int.add_comm, h k hk]
  · rw [if_neg hin, write_outside m dst bs (by omega)]

end Cells
