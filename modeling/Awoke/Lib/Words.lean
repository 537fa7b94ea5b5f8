/-
Signed words in a memory of bytes.

A word of `w` bytes lies with its lowest byte first, and is read in two's complement.  What is
stored is read again, if a word can hold it; what lies apart from a word is not changed with it.
-/
import Awoke.Lib.Cells

namespace Cells

/-- The number that some bytes stand for. -/
def ofBytes : List UInt8 → Nat
  | [] => 0
  | b :: bs => b.toNat + 256 * ofBytes bs

/-- The lowest bytes of a number, as many as are asked for. -/
def toBytes : Nat → Int → List UInt8
  | 0, _ => []
  | w + 1, v => UInt8.ofNat (v % 256).toNat :: toBytes w (v / 256)

/-- The word at `a`. -/
def load (w : Nat) (m : Cells UInt8) (a : Int) : Int :=
  (ofBytes (slice m a w) : Int).bmod (256 ^ w)

/-- A word is written to `a`. -/
def store (w : Nat) (m : Cells UInt8) (a v : Int) : Cells UInt8 := write m a (toBytes w v)

@[simp] theorem toBytes_length (w : Nat) : ∀ v, (toBytes w v).length = w := by
  induction w with
  | zero => exact fun _ => rfl
  | succ w ih => exact fun v => congrArg (· + 1) (ih _)

theorem ofBytes_toBytes (w : Nat) : ∀ v, (ofBytes (toBytes w v) : Int) = v % 256 ^ w := by
  induction w with
  | zero => exact fun v => (Int.emod_one v).symm
  | succ w ih =>
      intro v
      have hbyte : ((UInt8.ofNat (v % 256).toNat).toNat : Int) = v % 256 := by
        rw [UInt8.toNat_ofNat']
        omega
      have hdiv : v / (256 * 256 ^ w) = v / 256 / 256 ^ w := by
        exact (Int.ediv_ediv_of_nonneg (by decide)).symm
      rw [toBytes, ofBytes, Int.natCast_add, Int.natCast_mul, ih, hbyte, Int.pow_succ,
        Int.mul_comm (256 ^ w), Int.emod_def v (256 * 256 ^ w), hdiv, Int.emod_def v 256,
        Int.emod_def (v / 256)]
      push_cast
      ring

variable {w : Nat} {m m' : Cells UInt8} {a b v : Int}

/-- Words of the same bytes are the same. -/
theorem load_congr (h : ∀ i, a ≤ i → i < a + w → m' i = m i) : load w m' a = load w m a := by
  have hslice : slice m' a w = slice m a w := slice_congr fun k hk => h _ (by omega) (by omega)
  rw [load, load, hslice]

/-- What lies outside of a word that is stored stays. -/
theorem store_outside {i : Int} (h : i < a ∨ a + w ≤ i) : store w m a v i = m i :=
  write_outside m a _ (by rw [toBytes_length]; exact h)

/-- What is read of a word that was stored, as far as a word can hold it. -/
theorem load_store_bmod : load w (store w m a v) a = v.bmod (256 ^ w) := by
  have hslice := slice_write_self m a (toBytes w v)
  rw [toBytes_length] at hslice
  have hcast : ((256 ^ w : Nat) : Int) = 256 ^ w := by push_cast; rfl
  rw [load, store, hslice, ofBytes_toBytes, ← hcast, Int.emod_bmod]

/-- **A word that was stored is read.** -/
theorem load_store (hlow : -(256 ^ w / 2) ≤ v) (hhigh : v < 256 ^ w / 2) (hw : 0 < w) :
    load w (store w m a v) a = v := by
  have heven : (256 : Int) ^ w = 2 * (256 ^ w / 2) := by
    obtain ⟨k, rfl⟩ := Nat.exists_eq_succ_of_ne_zero (Nat.pos_iff_ne_zero.mp hw)
    rw [Int.pow_succ]
    omega
  have hcast : ((256 ^ w : Nat) : Int) = 256 ^ w := by push_cast; rfl
  rw [load_store_bmod]
  exact Int.bmod_eq_of_le_mul_two (by omega) (by omega)

/-- **And what lies apart from it** stays as it was. -/
theorem load_store_of_apart (h : a + w ≤ b ∨ b + w ≤ a) :
    load w (store w m a v) b = load w m b :=
  load_congr fun _ _ _ => store_outside (by omega)

end Cells
