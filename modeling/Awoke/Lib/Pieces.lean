/-
Pieces that are written one behind the other.

A pen is memory and a place in it: `put` writes a piece there and moves behind it.  Pieces put one
after the other are one long piece, and each of them lies where the ones before it end.  A writer
may leave out what does not fit; where all fits, it is no other.
-/
import Awoke.Lib.Cells

namespace Cells

variable {α : Type*}

/-- Where something is written next. -/
structure Pen (α : Type*) where
  mem : Cells α
  pos : Int

namespace Pen

/-- A piece is written. -/
def put (p : Pen α) (bs : List α) : Pen α := ⟨write p.mem p.pos bs, p.pos + bs.length⟩

/-- Room for so many cells is left as it is. -/
def skip (p : Pen α) (n : Int) : Pen α := { p with pos := p.pos + n }

@[simp] theorem put_pos (p : Pen α) (bs : List α) : (p.put bs).pos = p.pos + bs.length := rfl

theorem put_nil (p : Pen α) : p.put [] = p := by
  have hmem : write p.mem p.pos [] = p.mem := by
    funext i
    unfold write
    split <;> rfl
  rw [put, hmem, List.length_nil, Int.natCast_zero, Int.add_zero]

theorem put_append (p : Pen α) (bs more : List α) : p.put (bs ++ more) = (p.put bs).put more := by
  have hmem : write p.mem p.pos (bs ++ more) =
      write (write p.mem p.pos bs) (p.pos + bs.length) more := by
    funext i
    rcases Int.lt_or_le i p.pos with hbefore | hle
    · rw [write_outside _ _ _ (.inl hbefore), write_outside _ _ _ (.inl (by omega)),
        write_outside _ _ _ (.inl hbefore)]
    obtain ⟨k, rfl⟩ := Int.le.dest hle
    rcases Nat.lt_or_ge k bs.length with hfirst | hfirst
    · rw [write_inside _ _ _ (by rw [List.length_append]; omega),
        write_outside _ _ _ (.inl (by omega)), write_inside _ _ _ hfirst,
        List.getElem_append_left hfirst]
    obtain ⟨j, rfl⟩ := Nat.le.dest hfirst
    rw [Int.natCast_add, ← Int.add_assoc]
    rcases Nat.lt_or_ge j more.length with hsecond | hsecond
    · rw [write_inside _ _ _ hsecond, Int.add_assoc, ← Int.natCast_add,
        write_inside _ _ _ (by rw [List.length_append]; omega),
        List.getElem_append_right (by omega)]
      simp only [Nat.add_sub_cancel_left]
    · rw [write_outside _ _ _ (.inr (by rw [List.length_append]; omega)),
        write_outside _ _ _ (.inr (by omega)), write_outside _ _ _ (.inr (by omega))]
  rw [put, put, put, hmem, List.length_append, Int.natCast_add, Int.add_assoc]

/-- Pieces are put by whatever puts all that fits. -/
theorem foldl_fits {push : Pen α → List α → Pen α} {stop : Int}
    (hpush : ∀ (p : Pen α) (bs : List α), p.pos + bs.length ≤ stop → push p bs = p.put bs)
    (pieces : List (List α)) : ∀ p : Pen α, p.pos + pieces.flatten.length ≤ stop →
      pieces.foldl push p = p.put pieces.flatten := by
  induction pieces with
  | nil => exact fun p _ => (put_nil p).symm
  | cons bs pieces ih =>
      intro p hfits
      rw [List.flatten_cons, List.length_append, Int.natCast_add] at hfits
      rw [List.foldl_cons, hpush p bs (by omega), ih _ (by rw [put_pos]; omega),
        List.flatten_cons, put_append]

end Pen

/-- These pieces lie one behind the other from `a` on. -/
def Lies (m : Cells α) (a : Int) : List (List α) → Prop
  | [] => True
  | bs :: pieces => slice m a bs.length = bs ∧ Lies m (a + bs.length) pieces

variable {m m' : Cells α} {a : Int}

@[simp] theorem lies_cons {bs : List α} {pieces : List (List α)} :
    Lies m a (bs :: pieces) ↔ slice m a bs.length = bs ∧ Lies m (a + bs.length) pieces := Iff.rfl

/-- The pieces lie there if what they make together does. -/
theorem lies_iff (pieces : List (List α)) : ∀ a : Int,
    Lies m a pieces ↔ slice m a pieces.flatten.length = pieces.flatten := by
  induction pieces with
  | nil => exact fun a => iff_of_true trivial rfl
  | cons bs pieces ih =>
      intro a
      rw [lies_cons, ih, List.flatten_cons, List.length_append, slice_add]
      refine ⟨fun h => by rw [h.1, h.2], fun h => ?_⟩
      exact List.append_inj h (slice_length m a bs.length)

theorem lies_append {pieces more : List (List α)} :
    Lies m a (pieces ++ more) ↔ Lies m a pieces ∧ Lies m (a + pieces.flatten.length) more := by
  induction pieces generalizing a with
  | nil =>
      rw [List.nil_append, List.flatten_nil, List.length_nil, Int.natCast_zero, Int.add_zero]
      exact (true_and _).symm ▸ Iff.rfl
  | cons bs pieces ih =>
      rw [List.cons_append, lies_cons, lies_cons, ih, List.flatten_cons, List.length_append,
        Int.natCast_add, ← Int.add_assoc, and_assoc]

/-- What is written lies there. -/
theorem lies_write (m : Cells α) (a : Int) (pieces : List (List α)) :
    Lies (write m a pieces.flatten) a pieces :=
  (lies_iff pieces a).mpr (slice_write_self ..)

/-- Pieces stay where nothing is written. -/
theorem Lies.write_outside {pieces : List (List α)} (h : Lies m a pieces) {b : Int} {bs : List α}
    (houtside : a + pieces.flatten.length ≤ b ∨ b + bs.length ≤ a) :
    Lies (Cells.write m b bs) a pieces := by
  rw [lies_iff] at h ⊢
  rw [← h, slice_length]
  refine slice_congr fun k hk => Cells.write_outside m b bs ?_
  rcases houtside with hbehind | hbefore
  · exact .inl (by omega)
  · exact .inr (by omega)

end Cells
