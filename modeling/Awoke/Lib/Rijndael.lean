/-
The cipher Rijndael with blocks and keys of sixteen bytes.

A byte is a polynomial over the field of two elements, and is multiplied modulo the one that 0x11b
stands for.  The state has four rows and four columns: its bytes are substituted, its rows turned,
its columns multiplied by a circulant matrix, and a round key is added.

The words of the key schedule are defined one by one from those before them.
-/
import Mathlib.Data.Finite.Prod
import Mathlib.Data.Fintype.Pi
import Mathlib.Data.UInt
import Mathlib.Logic.Function.Iterate
import Mathlib.Tactic.FinCases

namespace Rijndael

/-! ### Bytes -/

/-- Twice a byte. -/
def double (x : UInt8) : UInt8 := x <<< 1 ^^^ if x.toBitVec.msb then 0x1b else 0

/-- The first bits of `c`, as many as are asked for, times `x`. -/
def mulBits : Nat → UInt8 → UInt8 → UInt8
  | 0, _, _ => 0
  | n + 1, c, x => (if c.toBitVec.getLsbD 0 then x else 0) ^^^ mulBits n (c >>> 1) (double x)

/-- The product of two bytes. -/
def mul (c x : UInt8) : UInt8 := mulBits 8 c x

/-- The inverse of a byte, zero for zero: its power to 254. -/
def inv (x : UInt8) : UInt8 :=
  let y := (fun y => mul (mul y y) x)^[6] x
  mul y y

/-- A byte turned to the left. -/
def rotl (x : UInt8) (n : UInt8) : UInt8 := x <<< n ||| x >>> (8 - n)

/-- What is substituted for a byte. -/
def subByte (x : UInt8) : UInt8 :=
  let y := inv x
  y ^^^ rotl y 1 ^^^ rotl y 2 ^^^ rotl y 3 ^^^ rotl y 4 ^^^ 0x63

theorem double_xor (a b : UInt8) : double (a ^^^ b) = double a ^^^ double b := by
  have hshift : (a ^^^ b) <<< 1 = a <<< 1 ^^^ b <<< 1 := by
    apply UInt8.toBitVec_inj.mp
    simp only [UInt8.toBitVec_shiftLeft, UInt8.toBitVec_xor]
    exact BitVec.shiftLeft_xor_distrib _ _ _
  have hconst : (if (a ^^^ b).toBitVec.msb then (0x1b : UInt8) else 0) =
      (if a.toBitVec.msb then 0x1b else 0) ^^^ if b.toBitVec.msb then 0x1b else 0 := by
    rw [UInt8.toBitVec_xor, BitVec.msb_xor]
    cases a.toBitVec.msb <;> cases b.toBitVec.msb <;> rfl
  simp only [double, hshift, hconst]
  ac_rfl

theorem mulBits_xor (n : Nat) : ∀ c a b : UInt8,
    mulBits n c (a ^^^ b) = mulBits n c a ^^^ mulBits n c b := by
  induction n with
  | zero => exact fun _ _ _ => UInt8.xor_self.symm
  | succ n ih =>
      intro c a b
      rw [mulBits, mulBits, mulBits, double_xor, ih]
      cases c.toBitVec.getLsbD 0
      · simp
      · simp only [if_true]
        ac_rfl

/-- A product distributes over sums. -/
theorem mul_xor (c a b : UInt8) : mul c (a ^^^ b) = mul c a ^^^ mul c b := mulBits_xor 8 c a b

/-! ### Columns -/

/-- A column, multiplied by the circulant matrix whose first row is `c`. -/
def mix (c v : Fin 4 → UInt8) (r : Fin 4) : UInt8 :=
  mul (c (0 - r)) (v 0) ^^^ mul (c (1 - r)) (v 1) ^^^ mul (c (2 - r)) (v 2) ^^^ mul (c (3 - r)) (v 3)

/-- The two matrices have the product one. -/
def Inverse (d c : Fin 4 → UInt8) : Prop :=
  ∀ j x, mul (d 0) (mul (c j) x) ^^^ mul (d 1) (mul (c (j - 1)) x) ^^^
    mul (d 2) (mul (c (j - 2)) x) ^^^ mul (d 3) (mul (c (j - 3)) x) = if j = 0 then x else 0

/-- **Two matrices undo each other** where their product is one. -/
theorem mix_mix {d c : Fin 4 → UInt8} (h : Inverse d c) (v : Fin 4 → UInt8) :
    mix d (mix c v) = v := by
  funext r
  have hcolumn : mix d (mix c v) r =
      (if 0 - r = 0 then v 0 else 0) ^^^ (if 1 - r = 0 then v 1 else 0) ^^^
        (if 2 - r = 0 then v 2 else 0) ^^^ (if 3 - r = 0 then v 3 else 0) := by
    rw [← h, ← h, ← h, ← h]
    simp only [mix, mul_xor]
    fin_cases r
    all_goals
      simp only [Fin.isValue, Fin.reduceFinMk, Fin.reduceSub]
      ac_rfl
  rw [hcolumn]
  fin_cases r <;> simp

/-- The first row of the matrix that columns are multiplied by. -/
def mixRow (r : Fin 4) : UInt8 := [2, 3, 1, 1].get r

/-- The first row of its inverse. -/
def unmixRow (r : Fin 4) : UInt8 := [14, 11, 13, 9].get r

section Products

variable (x : UInt8)

theorem mul_one : mul 1 x = x := by simp [mul, mulBits]

theorem mul_two : mul 2 x = double x := by simp [mul, mulBits]

theorem mul_three : mul 3 x = x ^^^ double x := by simp [mul, mulBits]

theorem mul_nine : mul 9 x = x ^^^ double (double (double x)) := by simp [mul, mulBits]

theorem mul_eleven : mul 11 x = x ^^^ (double x ^^^ double (double (double x))) := by
  simp [mul, mulBits]

theorem mul_thirteen : mul 13 x = x ^^^ (double (double x) ^^^ double (double (double x))) := by
  simp [mul, mulBits]

theorem mul_fourteen :
    mul 14 x = double x ^^^ (double (double x) ^^^ double (double (double x))) := by
  simp [mul, mulBits]

end Products

/-- **The second matrix undoes the first.** -/
theorem unmix_mix : Inverse unmixRow mixRow := by
  intro j x
  fin_cases j
  all_goals
    simp only [unmixRow, mixRow, Fin.isValue, Fin.reduceFinMk, Fin.reduceSub, List.get, mul_one,
      mul_two, mul_three, mul_nine, mul_eleven, mul_thirteen, mul_fourteen, double_xor]
    -- What is left are sums of the first five doubles of `x`, and the doubles are paired off.
    generalize double (double (double (double x))) = x4
    generalize double (double (double x)) = x3
    generalize double (double x) = x2
    generalize double x = x1
    apply UInt8.toBitVec_inj.mp
    ext i hi
    simp
    cases x.toBitVec[i] <;> cases x1.toBitVec[i] <;> cases x2.toBitVec[i] <;>
      cases x3.toBitVec[i] <;> cases x4.toBitVec[i] <;> rfl

/-! ### The state -/

/-- The bytes of a state, by row and column. -/
abbrev State := Fin 4 → Fin 4 → UInt8

/-- Every byte is substituted. -/
def subBytes (s : State) : State := fun r c => subByte (s r c)

/-- Every row is turned to the left, by its number. -/
def shiftRows (s : State) : State := fun r c => s r (c + r)

/-- Every column is multiplied. -/
def mixColumns (s : State) : State := fun r c => mix mixRow (fun r' => s r' c) r

/-- A round key is added. -/
def addRoundKey (k s : State) : State := fun r c => s r c ^^^ k r c

/-! ### The cipher -/

/-- The round constant of the `n`-th round key. -/
def rcon (n : Nat) : UInt8 := double^[n - 1] 1

/-- The word that is added at the start of a round key. -/
def turned (n : Nat) (w : Fin 4 → UInt8) : Fin 4 → UInt8 :=
  fun r => subByte (w (r + 1)) ^^^ if r = 0 then rcon n else 0

/-- The words of the key schedule. -/
def word (key : State) (i : Nat) : Fin 4 → UInt8 :=
  if h : i < 4 then fun r => key r ⟨i, h⟩
  else
    let prev := word key (i - 1)
    let added := if i % 4 = 0 then turned (i / 4) prev else prev
    fun r => word key (i - 4) r ^^^ added r
termination_by i
decreasing_by all_goals omega

/-- A word that is not one of the key's. -/
theorem word_of_le {key : State} {i : Nat} (h : 4 ≤ i) (r : Fin 4) :
    word key i r = word key (i - 4) r ^^^
      (if i % 4 = 0 then turned (i / 4) (word key (i - 1)) else word key (i - 1)) r := by
  rw [word, dif_neg (Nat.not_lt.mpr h)]

/-- A round key. -/
def roundKey (key : State) (n : Nat) : State := fun r c => word key (n * 4 + c) r

/-- A block is encrypted. -/
def encrypt (key s : State) : State :=
  let s := (List.range' 1 9).foldl
    (fun s n => addRoundKey (roundKey key n) (mixColumns (shiftRows (subBytes s))))
    (addRoundKey (roundKey key 0) s)
  addRoundKey (roundKey key 10) (shiftRows (subBytes s))

end Rijndael
