/-
Memory as integer-indexed cells.

A C pointer with an offset is a base and an `Int`; what an array access reads or
writes is the cell at that offset, inside the allocation or not.  Keeping the
whole integer line makes an access outside the allocation visible: it reads
whatever is there, instead of being silently dropped.

`slice` is the way back to lists, and the lemmas say what each of the memory
primitives does to a slice: what was written is read back, what is disjoint is
untouched, what was moved is read at its new place.
-/
import Mathlib.Data.UInt
import Mathlib.Logic.Function.Basic
import Mathlib.Tactic.Common
import Mathlib.Tactic.Ring

/-- One value for every integer offset from a base address. -/
abbrev Cells (α : Type*) := Int → α

namespace Cells

variable {α : Type*}

/-- `memset`: `n` cells from `a` become `v`. -/
def fill (m : Cells α) (a n : Int) (v : α) : Cells α :=
  fun i => if a ≤ i ∧ i < a + n then v else m i

/-- `memmove`: `n` cells from `src` are copied to `dst`, as if all were read first. -/
def move (m : Cells α) (dst src n : Int) : Cells α :=
  fun i => if dst ≤ i ∧ i < dst + n then m (i - dst + src) else m i

/-- `memcpy` from a buffer with contents `bs` to `a`. -/
def write (m : Cells α) (a : Int) (bs : List α) : Cells α :=
  fun i => if a ≤ i then bs.getD (i - a).toNat (m i) else m i

/-- The `n` cells from `a`, in order. -/
def slice (m : Cells α) (a : Int) (n : Nat) : List α :=
  (List.range n).map fun k : Nat => m (a + k)

@[simp] theorem slice_length (m : Cells α) (a : Int) (n : Nat) : (slice m a n).length = n := by
  simp [slice]

@[simp] theorem slice_zero (m : Cells α) (a : Int) : slice m a 0 = [] := rfl

@[simp] theorem slice_getElem (m : Cells α) (a : Int) (n k : Nat) (h : k < (slice m a n).length) :
    (slice m a n)[k] = m (a + k) := by
  simp [slice]

theorem slice_eq_iff {m : Cells α} {a : Int} {bs : List α} :
    slice m a bs.length = bs ↔ ∀ (k : Nat) (h : k < bs.length), m (a + k) = bs[k] := by
  constructor
  · intro h k hk
    have := slice_getElem m a bs.length k (by simpa using hk)
    rw [← this]
    exact List.getElem_of_eq h _
  · intro h
    exact List.ext_getElem (by simp) fun k _ hk => by rw [slice_getElem]; exact h k hk

theorem slice_congr {m m' : Cells α} {a a' : Int} {n : Nat}
    (h : ∀ k : Nat, k < n → m (a + k) = m' (a' + k)) : slice m a n = slice m' a' n :=
  List.map_congr_left fun k hk => h k (List.mem_range.mp hk)

theorem slice_add (m : Cells α) (a : Int) (n k : Nat) :
    slice m a (n + k) = slice m a n ++ slice m (a + n) k := by
  simp only [slice, List.range_add, List.map_append, List.map_map]
  congr 1
  exact List.map_congr_left fun i _ => by simp [Int.add_assoc]

theorem slice_succ (m : Cells α) (a : Int) (n : Nat) :
    slice m a (n + 1) = m a :: slice m (a + 1) n := by
  rw [Nat.add_comm, slice_add]
  simp [slice]

theorem slice_take (m : Cells α) (a : Int) {n k : Nat} (h : k ≤ n) :
    (slice m a n).take k = slice m a k := by
  obtain ⟨d, rfl⟩ := Nat.le.dest h
  rw [slice_add, List.take_left' (slice_length m a k)]

theorem slice_drop (m : Cells α) (a : Int) {n k : Nat} (h : k ≤ n) :
    (slice m a n).drop k = slice m (a + k) (n - k) := by
  obtain ⟨d, rfl⟩ := Nat.le.dest h
  rw [slice_add, List.drop_left' (slice_length m a k), Nat.add_sub_cancel_left]

/-! ### Reading what was written -/

theorem write_inside (m : Cells α) (a : Int) (bs : List α) {k : Nat} (h : k < bs.length) :
    write m a bs (a + k) = bs[k] := by
  have hk : (a + k - a).toNat = k := by omega
  rw [write, if_pos (by omega), hk, List.getD_eq_getElem?_getD, List.getElem?_eq_getElem h]
  rfl

theorem write_outside (m : Cells α) (a : Int) (bs : List α) {i : Int}
    (h : i < a ∨ a + bs.length ≤ i) : write m a bs i = m i := by
  unfold write
  split
  · rw [List.getD_eq_getElem?_getD, List.getElem?_eq_none (by omega)]
    rfl
  · rfl

@[simp] theorem slice_write_self (m : Cells α) (a : Int) (bs : List α) :
    slice (write m a bs) a bs.length = bs :=
  slice_eq_iff.mpr fun _ h => write_inside m a bs h

theorem slice_write_before (m : Cells α) (a b : Int) (bs : List α) {n : Nat} (h : a + n ≤ b) :
    slice (write m b bs) a n = slice m a n :=
  slice_congr fun k hk => write_outside m b bs (Or.inl (by omega))

/-! ### Shifting a run of cells by one, cell by cell

The two `for` loops that open or close a gap in an array.  Each copies one cell at
a time over overlapping ranges, and the direction is what keeps a cell from being
read after it was overwritten.
-/

/-- `for (i = a; n times; i++) m[i] = m[i+1]`. -/
def shiftDown (m : Cells α) (a : Int) : Nat → Cells α
  | 0 => m
  | n + 1 => shiftDown (Function.update m a (m (a + 1))) (a + 1) n

/-- `for (i = a; n times; i--) m[i+1] = m[i]`. -/
def shiftUp (m : Cells α) (a : Int) : Nat → Cells α
  | 0 => m
  | n + 1 => shiftUp (Function.update m (a + 1) (m a)) (a - 1) n

theorem shiftDown_apply (n : Nat) :
    ∀ (m : Cells α) (a i : Int),
      shiftDown m a n i = if a ≤ i ∧ i < a + n then m (i + 1) else m i := by
  induction n with
  | zero => intro m a i; rw [if_neg (by omega)]; rfl
  | succ n ih =>
      intro m a i
      rw [shiftDown, ih, Function.update_apply, Function.update_apply]
      by_cases h : a + 1 ≤ i ∧ i < a + 1 + n
      · rw [if_pos h, if_neg (by omega), if_pos (by omega)]
      · rw [if_neg h]
        by_cases hi : i = a
        · subst hi
          rw [if_pos rfl, if_pos (by omega)]
        · rw [if_neg hi, if_neg (by omega)]

theorem shiftUp_apply (n : Nat) :
    ∀ (m : Cells α) (a i : Int),
      shiftUp m a n i = if a - n + 1 < i ∧ i ≤ a + 1 then m (i - 1) else m i := by
  induction n with
  | zero => intro m a i; rw [if_neg (by omega)]; rfl
  | succ n ih =>
      intro m a i
      rw [shiftUp, ih, Function.update_apply, Function.update_apply]
      by_cases h : a - 1 - n + 1 < i ∧ i ≤ a - 1 + 1
      · rw [if_pos h, if_neg (by omega), if_pos (by omega)]
      · rw [if_neg h]
        by_cases hi : i = a + 1
        · subst hi
          rw [if_pos rfl, if_pos (by omega), Int.add_sub_cancel]
        · rw [if_neg hi, if_neg (by omega)]

end Cells
