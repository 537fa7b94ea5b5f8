/-
What a piece of code does to memory, as the list of its accesses.

`Cells` says what memory holds afterwards and leaves open which cells were looked at on the way:
a copy whose result is overwritten, or a read that nobody uses, cannot be seen there.  An `Op` is
one call of a memory function with its range, and a script is the list of them.  `exec` runs a
script, so that it can be checked against what the code computes, and `Within` says that it keeps
to an allocation.
-/
import Awoke.Lib.Cells

namespace Cells

variable {α : Type*}

/-- One access: `n` cells are read from `a`, or one of the memory functions writes. -/
inductive Op (α : Type*)
  | read (a : Int) (n : Nat)
  | write (a : Int) (bs : List α)
  | fill (a n : Int) (v : α)
  | move (dst src n : Int)

namespace Op

/-- The memory afterwards. -/
def exec (m : Cells α) : Op α → Cells α
  | .read _ _ => m
  | .write a bs => Cells.write m a bs
  | .fill a n v => Cells.fill m a n v
  | .move dst src n => Cells.move m dst src n

/-- The cell `i` is read or written. -/
def Touches (i : Int) : Op α → Prop
  | .read a n => a ≤ i ∧ i < a + n
  | .write a bs => a ≤ i ∧ i < a + bs.length
  | .fill a n _ => a ≤ i ∧ i < a + n
  | .move dst src n => dst ≤ i ∧ i < dst + n ∨ src ≤ i ∧ i < src + n

/-- All that is read or written lies in `0 .. size - 1`. -/
def Within (size : Int) (op : Op α) : Prop := ∀ i, op.Touches i → 0 ≤ i ∧ i < size

variable {size : Int}

theorem within_read {a : Int} {n : Nat} :
    (Op.read (α := α) a n).Within size ↔ n = 0 ∨ 0 ≤ a ∧ a + n ≤ size := by
  constructor
  · intro h
    have hfirst := h a
    have hlast := h (a + n - 1)
    simp only [Touches] at hfirst hlast
    omega
  · intro h i hi
    simp only [Touches] at hi
    omega

theorem within_write {a : Int} {bs : List α} :
    (Op.write a bs).Within size ↔ bs.length = 0 ∨ 0 ≤ a ∧ a + bs.length ≤ size :=
  within_read (α := α)

theorem within_write_one {a : Int} {v : α} :
    (Op.write a [v]).Within size ↔ 0 ≤ a ∧ a < size := by
  rw [within_write, List.length_singleton]
  omega

theorem within_fill {a n : Int} {v : α} :
    (Op.fill a n v).Within size ↔ n ≤ 0 ∨ 0 ≤ a ∧ a + n ≤ size := by
  constructor
  · intro h
    have hfirst := h a
    have hlast := h (a + n - 1)
    simp only [Touches] at hfirst hlast
    omega
  · intro h i hi
    simp only [Touches] at hi
    omega

theorem within_move {dst src n : Int} : (Op.move (α := α) dst src n).Within size ↔
    n ≤ 0 ∨ (0 ≤ dst ∧ dst + n ≤ size) ∧ 0 ≤ src ∧ src + n ≤ size := by
  constructor
  · intro h
    have hdst := h dst
    have hdst' := h (dst + n - 1)
    have hsrc := h src
    have hsrc' := h (src + n - 1)
    simp only [Touches] at hdst hdst' hsrc hsrc'
    omega
  · intro h i hi
    simp only [Touches] at hi
    omega

instance : (op : Op α) → Decidable (op.Within size)
  | .read _ _ => decidable_of_iff _ within_read.symm
  | .write _ _ => decidable_of_iff _ within_write.symm
  | .fill _ _ _ => decidable_of_iff _ within_fill.symm
  | .move _ _ _ => decidable_of_iff _ within_move.symm

end Op

/-! ### Scripts -/

/-- Run the accesses in order. -/
def exec (m : Cells α) (ops : List (Op α)) : Cells α := ops.foldl Op.exec m

/-- Every access lies in `0 .. size - 1`. -/
def Within (size : Int) (ops : List (Op α)) : Prop := ∀ op ∈ ops, op.Within size

instance (size : Int) (ops : List (Op α)) : Decidable (Within size ops) :=
  List.decidableBAll _ ops

@[simp] theorem exec_nil (m : Cells α) : exec m [] = m := rfl

@[simp] theorem exec_cons (m : Cells α) (op : Op α) (ops : List (Op α)) :
    exec m (op :: ops) = exec (op.exec m) ops := rfl

theorem exec_append (m : Cells α) (ops more : List (Op α)) :
    exec m (ops ++ more) = exec (exec m ops) more :=
  List.foldl_append

variable {size : Int}

@[simp] theorem within_nil : Within size ([] : List (Op α)) := fun _ h => by cases h

@[simp] theorem within_cons {op : Op α} {ops : List (Op α)} :
    Within size (op :: ops) ↔ op.Within size ∧ Within size ops :=
  List.forall_mem_cons

theorem within_append {ops more : List (Op α)} :
    Within size (ops ++ more) ↔ Within size ops ∧ Within size more :=
  List.forall_mem_append

/-! ### Single cells -/

theorem write_one (m : Cells α) (a : Int) (v : α) : write m a [v] = Function.update m a v := by
  funext i
  rw [Function.update_apply]
  split
  · rename_i hi
    have hfirst := write_inside m a [v] (k := 0) (by simp)
    rw [hi]
    simpa using hfirst
  · rename_i hi
    refine write_outside m a [v] ?_
    rw [List.length_singleton]
    omega

theorem fill_one (m : Cells α) (a : Int) (v : α) : fill m a 1 v = Function.update m a v := by
  funext i
  rw [fill, Function.update_apply]
  exact if_congr (by omega) rfl rfl

theorem move_one (m : Cells α) (dst src : Int) :
    move m dst src 1 = Function.update m dst (m src) := by
  funext i
  rw [move, Function.update_apply]
  by_cases hi : i = dst
  · subst hi
    simp
  · rw [if_neg hi, if_neg (by omega)]

/-- The accesses of `shiftDown`. -/
def downOps (a : Int) : Nat → List (Op α)
  | 0 => []
  | n + 1 => .move a (a + 1) 1 :: downOps (a + 1) n

/-- The accesses of `shiftUp`. -/
def upOps (a : Int) : Nat → List (Op α)
  | 0 => []
  | n + 1 => .move (a + 1) a 1 :: upOps (a - 1) n

theorem exec_downOps (n : Nat) : ∀ (m : Cells α) (a : Int),
    exec m (downOps a n) = shiftDown m a n := by
  induction n with
  | zero => intro m a; rfl
  | succ n ih =>
      intro m a
      rw [downOps, exec_cons, ih, shiftDown, Op.exec, move_one]

theorem exec_upOps (n : Nat) : ∀ (m : Cells α) (a : Int),
    exec m (upOps a n) = shiftUp m a n := by
  induction n with
  | zero => intro m a; rfl
  | succ n ih =>
      intro m a
      rw [upOps, exec_cons, ih, shiftUp, Op.exec, move_one]

/-- A gap is closed inside when the cell behind the last is. -/
theorem within_downOps (n : Nat) : ∀ a : Int,
    Within size (downOps (α := α) a n) ↔ n = 0 ∨ 0 ≤ a ∧ a + n < size := by
  induction n with
  | zero => intro a; exact iff_of_true within_nil (.inl rfl)
  | succ n ih =>
      intro a
      rw [downOps, within_cons, Op.within_move, ih]
      omega

/-- And one is opened inside when the last cell that moves is, and the one behind the first. -/
theorem within_upOps (n : Nat) : ∀ a : Int,
    Within size (upOps (α := α) a n) ↔ n = 0 ∨ 0 ≤ a - n + 1 ∧ a + 1 < size := by
  induction n with
  | zero => intro a; exact iff_of_true within_nil (.inl rfl)
  | succ n ih =>
      intro a
      rw [upOps, within_cons, Op.within_move, ih]
      omega

end Cells
