/-
Cyclic redundancy checks, low bit first.

The register moves down by one bit, and the polynomial is added when a one falls out.  A byte is
added to the low end of the register and eight such shifts are made.

A shift is linear, so eight of them depend on the low byte of the register by what a table of 256
words can hold, and on the rest only by where it moves to: `byte_table` is the step by the table
that programs use.
-/
import Mathlib.Data.UInt
import Mathlib.Logic.Function.Iterate
import Mathlib.Tactic.Common
import Mathlib.Tactic.Ring

namespace Crc

variable {w : Nat} (poly : BitVec w)

/-- One bit. -/
def shift (c : BitVec w) : BitVec w := if c.getLsbD 0 then c >>> 1 ^^^ poly else c >>> 1

/-- So many bits. -/
def shifts (n : Nat) (c : BitVec w) : BitVec w := (shift poly)^[n] c

/-- One byte. -/
def byte (c : BitVec w) (b : BitVec 8) : BitVec w := shifts poly 8 (c ^^^ b.setWidth w)

/-- The bytes one after the other, from what is in the register. -/
def crc (init : BitVec w) (data : List (BitVec 8)) : BitVec w := data.foldl (byte poly) init

/-- The word a table has for a byte. -/
def word (b : BitVec 8) : BitVec w := shifts poly 8 (b.setWidth w)

variable {poly}

/-- What is behind a first part goes on from what that part leaves in the register. -/
theorem crc_append (init : BitVec w) (data more : List (BitVec 8)) :
    crc poly init (data ++ more) = crc poly (crc poly init data) more :=
  List.foldl_append

/-! ### The table -/

theorem xor_cancel (a b c : BitVec w) : (a ^^^ c) ^^^ (b ^^^ c) = a ^^^ b := by
  rw [BitVec.xor_comm b c, BitVec.xor_assoc, ← BitVec.xor_assoc c c b, BitVec.xor_self,
    BitVec.zero_xor]

theorem shift_xor (a b : BitVec w) : shift poly (a ^^^ b) = shift poly a ^^^ shift poly b := by
  simp only [shift, BitVec.getLsbD_xor, BitVec.ushiftRight_xor_distrib]
  cases a.getLsbD 0 <;> cases b.getLsbD 0
  · rfl
  · exact BitVec.xor_assoc _ _ _
  · show a >>> 1 ^^^ b >>> 1 ^^^ poly = (a >>> 1 ^^^ poly) ^^^ b >>> 1
    rw [BitVec.xor_assoc, BitVec.xor_comm (b >>> 1), ← BitVec.xor_assoc]
  · exact (xor_cancel _ _ _).symm

/-- Shifts are linear. -/
theorem shifts_xor (n : Nat) : ∀ a b : BitVec w,
    shifts poly n (a ^^^ b) = shifts poly n a ^^^ shifts poly n b := by
  induction n with
  | zero => intro a b; rfl
  | succ n ih =>
      intro a b
      simp only [shifts, Function.iterate_succ_apply, shift_xor] at ih ⊢
      exact ih _ _

/-- Where only zeros fall out nothing is added. -/
theorem shifts_zeros {c : BitVec w} {n : Nat} (h : ∀ i < n, c.getLsbD i = false) :
    shifts poly n c = c >>> n := by
  induction n with
  | zero => exact (BitVec.ushiftRight_zero c).symm
  | succ n ih =>
      have hlow : (c >>> n).getLsbD 0 = false := by
        rw [BitVec.getLsbD_ushiftRight]
        exact h n (Nat.lt_succ_self n)
      rw [shifts, Function.iterate_succ_apply', ← shifts, ih fun i hi => h i (by omega), shift,
        hlow, if_neg (by decide), BitVec.shiftRight_add]

/-- The low bits of a register, and what is above them. -/
theorem shifts_split (n : Nat) (c : BitVec w) :
    shifts poly n c = shifts poly n ((c.setWidth n).setWidth w) ^^^ c >>> n := by
  have hsplit : c = (c.setWidth n).setWidth w ^^^ (c ^^^ (c.setWidth n).setWidth w) := by
    rw [BitVec.xor_comm c, ← BitVec.xor_assoc, BitVec.xor_self, BitVec.zero_xor]
  have hzeros : ∀ i < n, (c ^^^ (c.setWidth n).setWidth w).getLsbD i = false := by
    intro i hi
    rw [BitVec.getLsbD_xor, BitVec.getLsbD_setWidth, BitVec.getLsbD_setWidth]
    by_cases hw : i < w
    · simp [hi, hw]
    · simp [hw, BitVec.getLsbD_of_ge c i (by omega)]
  have hshift : (c ^^^ (c.setWidth n).setWidth w) >>> n = c >>> n := by
    refine BitVec.eq_of_getLsbD_eq fun i _ => ?_
    rw [BitVec.getLsbD_ushiftRight, BitVec.getLsbD_ushiftRight, BitVec.getLsbD_xor,
      BitVec.getLsbD_setWidth, BitVec.getLsbD_setWidth]
    simp
  conv => lhs; rw [hsplit]
  rw [shifts_xor, shifts_zeros hzeros, hshift]

/-- **The step by the table.** -/
theorem byte_table (c : BitVec w) (b : BitVec 8) :
    byte poly c b = c >>> 8 ^^^ word poly ((c ^^^ b.setWidth w).setWidth 8) := by
  have hhigh : (b.setWidth w) >>> 8 = 0#w := by
    refine BitVec.eq_of_getLsbD_eq fun i _ => ?_
    rw [BitVec.getLsbD_ushiftRight, BitVec.getLsbD_setWidth, BitVec.getLsbD_of_ge b _ (by omega)]
    simp
  rw [byte, shifts_split, word, BitVec.ushiftRight_xor_distrib, hhigh, BitVec.xor_zero,
    BitVec.xor_comm]

end Crc
