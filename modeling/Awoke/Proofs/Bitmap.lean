/-
A bitmap is the set of its bits.

Every operation is a mask applied to some words, so everything reduces to one bit
of one word: `bitAt`.  `rangeLoop_bitAt` is the loop lemma.  Its induction carries
three facts about the position the loop has reached: the mask selects exactly the
bits of the current word from the range's start on, the word and that start agree,
and the words still to come are inside the bitmap.  From it a range set adds a
`Set.Ico` and a range clear removes one.

The predicates read whole words and then a partial one.  `allWords_iff` splits a
statement about all bits below `bits` the same way.
-/
import Awoke.Util.Bitmap
import Mathlib.Order.ConditionallyCompleteLattice.Basic
import Mathlib.Order.Interval.Set.Basic
import Mathlib.Data.Set.SymmDiff
import Mathlib.Tactic.Common
import Mathlib.Tactic.SplitIfs

namespace Awoke.Bitmap

/-! ### Bits of the masks -/

theorem allOnes_getLsbD (w j : Nat) : (~~~0#w).getLsbD j = decide (j < w) := by
  rw [BitVec.getLsbD_not, BitVec.getLsbD_zero, Bool.not_false, Bool.and_true]

theorem allOnes_bit {j : Nat} (hj : j < 32) :
    ((~~~0#64).setWidth 32 : Word).getLsbD j = true := by
  rw [BitVec.getLsbD_setWidth, allOnes_getLsbD, decide_eq_true hj, decide_eq_true (by omega)]
  rfl

theorem firstWordMask_bit (start : Nat) {j : Nat} (hj : j < 32) :
    ((firstWordMask start).setWidth 32 : Word).getLsbD j = decide (start % 32 ≤ j) := by
  rw [firstWordMask, bitsPerLong, BitVec.getLsbD_setWidth, BitVec.getLsbD_shiftLeft,
    allOnes_getLsbD, decide_eq_true hj, decide_eq_true (by omega : j < 64),
    decide_eq_true (by omega : j - start % 32 < 64)]
  by_cases h : start % 32 ≤ j
  · simp [h]
  · simp [h]; omega

theorem shift_sub_one {s : Nat} (hs : s < 64) :
    (1#64 <<< s) - 1 = BitVec.ofNat 64 (2 ^ s - 1) := by
  apply BitVec.eq_of_toNat_eq
  have hpow : 2 ^ s < 2 ^ 64 := Nat.pow_lt_pow_right (by decide) hs
  have hpos : 0 < 2 ^ s := Nat.pow_pos (by decide)
  have hshift : (1#64 <<< s).toNat = 2 ^ s := by
    rw [BitVec.toNat_shiftLeft, Nat.shiftLeft_eq]
    show 1 * 2 ^ s % 2 ^ 64 = 2 ^ s
    rw [Nat.one_mul, Nat.mod_eq_of_lt hpow]
  have hone : (1 : BitVec 64).toNat = 1 := rfl
  rw [BitVec.toNat_sub, hshift, BitVec.toNat_ofNat, hone]
  omega

theorem lastWordMask_partial (n j : Nat) (h : n % 32 ≠ 0) :
    (lastWordMask n).getLsbD j = decide (j < n % 32) := by
  rw [lastWordMask, bitsPerLong, if_pos h, shift_sub_one (by omega), BitVec.getLsbD_ofNat,
    Nat.testBit_two_pow_sub_one]
  by_cases hj : j < n % 32
  · rw [decide_eq_true hj, decide_eq_true (by omega : j < 64)]; rfl
  · rw [decide_eq_false hj, Bool.and_false]

theorem bitMask_bit (bit : Nat) {j : Nat} (hj : j < 32) :
    (bitMask bit).getLsbD j = decide (j = bit % 32) := by
  have h31 : bit &&& 31 = bit % 32 := Nat.and_two_pow_sub_one_eq_mod bit 5
  rw [bitMask, h31, BitVec.getLsbD_setWidth, BitVec.getLsbD_shiftLeft, BitVec.getLsbD_one,
    decide_eq_true hj, decide_eq_true (by omega : j < 64)]
  by_cases h : j = bit % 32
  · simp [h]
  · rw [decide_eq_false h]
    by_cases hlt : j < bit % 32
    · simp [hlt]
    · have : j - bit % 32 ≠ 0 := by omega
      simp [this]

/-! ### One bit of a bitmap -/

/-- Bit `i`, read from its word. -/
def bitAt (map : Array Word) (i : Nat) : Bool := (word map (i / 32)).getLsbD (i % 32)

theorem testBit_eq (map : Array Word) (i : Nat) : testBit i map = bitAt map i := by
  have h31 : i &&& (bitsPerLong - 1) = i % 32 := Nat.and_two_pow_sub_one_eq_mod i 5
  have hbits : ∀ j, (1#64 &&& (word map (i / 32) >>> (i % 32)).setWidth 64).getLsbD j
      = (decide (j = 0) && bitAt map i) := by
    intro j
    rw [BitVec.getLsbD_and, BitVec.getLsbD_one, BitVec.getLsbD_setWidth,
      BitVec.getLsbD_ushiftRight]
    by_cases hj : j = 0 <;> simp [hj, bitAt]
  unfold testBit bitWord
  rw [h31, bitsPerLong]
  cases hb : bitAt map i with
  | false =>
      have : 1#64 &&& (word map (i / 32) >>> (i % 32)).setWidth 64 = 0#64 :=
        BitVec.eq_of_getLsbD_eq fun j _ => by rw [hbits, hb]; simp
      rw [this]; rfl
  | true =>
      have hne : 1#64 &&& (word map (i / 32) >>> (i % 32)).setWidth 64 ≠ 0#64 := by
        intro h0
        have := hbits 0
        rw [h0, hb] at this
        simp at this
      simpa using hne

theorem word_modify (map : Array Word) (p k : Nat) (f : Word → Word) (hp : p < map.size) :
    word (map.modify p f) k = if k = p then f (word map p) else word map k := by
  unfold word
  by_cases h : k = p
  · subst h
    simp [Array.getD_eq_getD_getElem?, Array.getElem_modify, hp]
  · rw [if_neg h]
    simp [Array.getD_eq_getD_getElem?, Array.getElem?_modify, Ne.symm h]

theorem bitAt_modify (map : Array Word) {p : Nat} (f : Word → Word) (hp : p < map.size) (i : Nat) :
    bitAt (map.modify p f) i
      = if i / 32 = p then (f (word map p)).getLsbD (i % 32) else bitAt map i := by
  unfold bitAt
  rw [word_modify map p _ f hp]
  split <;> rfl

/-! ### The loop of the range operations -/

/-- `op` overwrites the bits its mask selects by `v` and keeps the others. -/
def Writes (op : Word → Word → Word) (v : Bool) : Prop :=
  ∀ w mask j, j < 32 → (op w mask).getLsbD j = if mask.getLsbD j then v else w.getLsbD j

theorem writes_set : Writes (fun w mask => w ||| mask) true := by
  intro w mask j _
  simp only [BitVec.getLsbD_or]
  cases mask.getLsbD j <;> simp

theorem writes_clear : Writes (fun w mask => w &&& ~~~mask) false := by
  intro w mask j hj
  simp only [BitVec.getLsbD_and, BitVec.getLsbD_not, hj, decide_true, Bool.true_and]
  cases mask.getLsbD j <;> simp

theorem rangeLoop_bitAt {op : Word → Word → Word} {v : Bool} (hop : Writes op v) (size : Nat) :
    ∀ (nr : Nat) (map : Array Word) (p bits : Nat) (hbits : 0 < bits) (mask : Word),
      bits ≤ 32 → (∀ j, j < 32 → mask.getLsbD j = decide (32 - bits ≤ j)) →
      size = 32 * p + (32 - bits) + nr → size ≤ 32 * map.size → ∀ i,
      bitAt (rangeLoop op size map p nr bits hbits mask) i
        = if 32 * p + (32 - bits) ≤ i ∧ i < size then v else bitAt map i := by
  intro nr
  induction nr using Nat.strong_induction_on with
  | _ nr ih =>
    intro map p bits hbits mask hle hmask hsize hfit i
    have hi : i % 32 < 32 := Nat.mod_lt _ (by decide)
    rw [rangeLoop]
    by_cases hfull : nr ≥ bits
    · -- The rest of this word is in the range; go on with the whole of the next.
      rw [if_pos hfull, ih (nr - bits) (by omega) _ (p + 1) bitsPerLong (by decide) _
        (by decide) (fun j hj => by rw [allOnes_bit hj]; simp [bitsPerLong])
        (by simp only [bitsPerLong]; omega) (by simpa using hfit)]
      rw [bitAt_modify _ _ (by omega), hop _ _ _ hi, hmask _ hi]
      simp only [bitsPerLong, decide_eq_true_eq]
      unfold bitAt
      split_ifs <;> first | rfl | omega | grind
    · rw [if_neg hfull]
      by_cases h0 : nr = 0
      · rw [if_neg (by omega), if_neg (by omega)]
      · -- The range ends inside this word.
        have hpart : size % 32 ≠ 0 := by omega
        rw [if_pos h0, bitAt_modify _ _ (by omega), hop _ _ _ hi, BitVec.getLsbD_and, hmask _ hi,
          BitVec.getLsbD_setWidth, lastWordMask_partial _ _ hpart, decide_eq_true hi]
        simp only [Bool.true_and, Bool.and_eq_true, decide_eq_true_eq]
        unfold bitAt
        split_ifs <;> first | rfl | omega | grind

theorem rangeOp_bitAt {op : Word → Word → Word} {v : Bool} (hop : Writes op v)
    (map : Array Word) {start nr : Nat} (hfit : start + nr ≤ 32 * map.size) (i : Nat) :
    bitAt (rangeOp op map start nr) i = if start ≤ i ∧ i < start + nr then v else bitAt map i := by
  have hmod : start % 32 < 32 := Nat.mod_lt _ (by decide)
  rw [rangeOp, rangeLoop_bitAt hop _ _ _ _ _ _ _ (by simp [bitsPerLong])
    (fun j hj => by rw [firstWordMask_bit start hj]; simp only [bitsPerLong]; congr 1; simp; omega)
    (by simp only [bitsPerLong, bitWord]; omega) hfit]
  simp only [bitsPerLong, bitWord]
  congr 1
  simp; omega

theorem bitOp_bitAt {op : Word → Word → Word} {v : Bool} (hop : Writes op v) (map : Array Word)
    {bit : Nat} (hfit : bit < 32 * map.size) (i : Nat) :
    bitAt (map.modify (bit >>> 5) (op · (bitMask bit))) i = if i = bit then v else bitAt map i := by
  have hi : i % 32 < 32 := Nat.mod_lt _ (by decide)
  have hword : bit >>> 5 = bit / 32 := Nat.shiftRight_eq_div_pow bit 5
  rw [hword, bitAt_modify _ _ (by omega), hop _ _ _ hi, bitMask_bit bit hi]
  simp only [decide_eq_true_eq]
  unfold bitAt
  split_ifs <;> first | rfl | omega | grind

theorem changeBit_bitAt (map : Array Word) {bit : Nat} (hfit : bit < 32 * map.size) (i : Nat) :
    bitAt (changeBit bit map) i = if i = bit then !bitAt map i else bitAt map i := by
  have hi : i % 32 < 32 := Nat.mod_lt _ (by decide)
  have hword : bit >>> 5 = bit / 32 := Nat.shiftRight_eq_div_pow bit 5
  rw [changeBit, hword, bitAt_modify _ _ (by omega), BitVec.getLsbD_xor, bitMask_bit bit hi]
  unfold bitAt
  by_cases hib : i = bit
  · subst hib; simp
  · rw [if_neg hib]
    split_ifs with hw
    · have : i % 32 ≠ bit % 32 := by omega
      rw [hw]; simp [this]
    · rfl

/-! ### The predicates -/

theorem word_eq_zero_iff (w : Word) : w = 0 ↔ ∀ j, j < 32 → w.getLsbD j = false := by
  constructor
  · rintro rfl j _; exact BitVec.getLsbD_zero
  · intro h
    exact BitVec.eq_of_getLsbD_eq fun j hj => by rw [h j hj]; exact BitVec.getLsbD_zero.symm

theorem lastWord_eq_zero_iff (w : Word) {bits : Nat} (h : bits % 32 ≠ 0) :
    w.setWidth 64 &&& lastWordMask bits = 0 ↔ ∀ j, j < bits % 32 → w.getLsbD j = false := by
  have hbit : ∀ j, (w.setWidth 64 &&& lastWordMask bits).getLsbD j
      = (decide (j < bits % 32) && w.getLsbD j) := by
    intro j
    rw [BitVec.getLsbD_and, BitVec.getLsbD_setWidth, lastWordMask_partial bits j h]
    by_cases hj : j < bits % 32
    · rw [decide_eq_true hj, decide_eq_true (by omega : j < 64)]; simp
    · simp [hj]
  constructor
  · intro h0 j hj
    have := hbit j
    rw [h0, decide_eq_true hj] at this
    simpa using this.symm
  · intro hall
    refine BitVec.eq_of_getLsbD_eq fun j _ => ?_
    rw [hbit]
    by_cases hj : j < bits % 32
    · simp [hall j hj]
    · simp [hj]

/-- The shape both predicates share: whole words, then a masked one. -/
theorem allWords_iff (f : Nat → Word) (bits : Nat) :
    ((List.range (bits / 32)).all (fun k => f k == 0) &&
      (bits % 32 == 0 || (f (bits / 32)).setWidth 64 &&& lastWordMask bits == 0)) = true ↔
    ∀ i, i < bits → (f (i / 32)).getLsbD (i % 32) = false := by
  simp only [Bool.and_eq_true, List.all_eq_true, List.mem_range, beq_iff_eq, Bool.or_eq_true]
  constructor
  · rintro ⟨hwhole, hlast⟩ i hi
    by_cases hlt : i / 32 < bits / 32
    · exact (word_eq_zero_iff _).mp (hwhole _ hlt) _ (Nat.mod_lt _ (by decide))
    · have hw : i / 32 = bits / 32 := by omega
      rcases hlast with h0 | h0
      · omega
      · rw [hw]
        exact (lastWord_eq_zero_iff _ (by omega)).mp h0 _ (by omega)
  · intro hall
    refine ⟨fun k hk => (word_eq_zero_iff _).mpr fun j hj => ?_, ?_⟩
    · have := hall (32 * k + j) (by omega)
      rwa [show (32 * k + j) / 32 = k by omega, show (32 * k + j) % 32 = j by omega] at this
    · by_cases h0 : bits % 32 = 0
      · exact Or.inl h0
      · refine Or.inr ((lastWord_eq_zero_iff _ h0).mpr fun j hj => ?_)
        have := hall (32 * (bits / 32) + j) (by omega)
        rwa [show (32 * (bits / 32) + j) / 32 = bits / 32 by omega,
          show (32 * (bits / 32) + j) % 32 = j by omega] at this

theorem empty_iff (map : Array Word) (bits : Nat) :
    empty map bits = true ↔ ∀ i, i < bits → bitAt map i = false :=
  allWords_iff (word map) bits

theorem full_iff (map : Array Word) (bits : Nat) :
    full map bits = true ↔ ∀ i, i < bits → bitAt map i = true := by
  refine (allWords_iff (fun k => ~~~word map k) bits).trans ?_
  refine forall_congr' fun i => imp_congr_right fun _ => ?_
  have hi : i % 32 < 32 := Nat.mod_lt _ (by decide)
  rw [BitVec.getLsbD_not, decide_eq_true hi]
  simp [bitAt]

/-! ### The operations as operations on sets -/

/-- The words `awoke_bitmap(name, nbits)` declares. -/
structure Declared (nbits : Nat) where
  map : Array Word
  size_eq : map.size = bitsToLong nbits

theorem Declared.fits {nbits : Nat} (d : Declared nbits) : nbits ≤ 32 * d.map.size := by
  rw [d.size_eq, bitsToLong, divRoundUp]
  omega

/-- What a caller may do to a bitmap of `nbits` bits, each with its range inside. -/
inductive Op (nbits : Nat)
  | set (start nr : Nat) (h : start + nr ≤ nbits)
  | clear (start nr : Nat) (h : start + nr ≤ nbits)
  | setBit (bit : Nat) (h : bit < nbits)
  | clearBit (bit : Nat) (h : bit < nbits)
  | changeBit (bit : Nat) (h : bit < nbits)

namespace Op

variable {nbits : Nat}

/-- The call on the words. -/
def call (map : Array Word) : Op nbits → Array Word
  | .set start nr _ => Bitmap.set map start nr
  | .clear start nr _ => Bitmap.clear map start nr
  | .setBit bit _ => Bitmap.setBit bit map
  | .clearBit bit _ => Bitmap.clearBit bit map
  | .changeBit bit _ => Bitmap.changeBit bit map

/-- The bits an operation may touch. -/
def range : Op nbits → Set Nat
  | .set start nr _ | .clear start nr _ => Set.Ico start (start + nr)
  | .setBit bit _ | .clearBit bit _ | .changeBit bit _ => {bit}

/-- What it does to a set of bits. -/
def spec (s : Set Nat) (op : Op nbits) : Set Nat :=
  match op with
  | .set .. | .setBit .. => s ∪ op.range
  | .clear .. | .clearBit .. => s \ op.range
  | .changeBit .. => symmDiff s op.range

theorem call_size (op : Op nbits) (map : Array Word) : (op.call map).size = map.size := by
  have hloop : ∀ (f : Word → Word → Word) (size nr : Nat) (map : Array Word) (p bits : Nat)
      (hbits : 0 < bits) (mask : Word),
      (rangeLoop f size map p nr bits hbits mask).size = map.size := by
    intro f size nr
    induction nr using Nat.strong_induction_on with
    | _ nr ih =>
      intro map p bits hbits mask
      rw [rangeLoop]
      split
      · rw [ih _ (by omega), Array.size_modify]
      · split <;> simp
  cases op <;>
    simp [call, Bitmap.set, Bitmap.clear, Bitmap.setBit, Bitmap.clearBit, Bitmap.changeBit,
      rangeOp, hloop]

end Op

/-- A call leaves the declared words declared. -/
def Declared.call {nbits : Nat} (d : Declared nbits) (op : Op nbits) : Declared nbits :=
  ⟨op.call d.map, by rw [op.call_size, d.size_eq]⟩

/-- The set a bitmap of `nbits` bits stands for. -/
def Declared.members {nbits : Nat} (d : Declared nbits) : Set Nat :=
  {i | i < nbits ∧ testBit i d.map = true}

theorem Op.call_bitAt {nbits : Nat} (op : Op nbits) (d : Declared nbits) (i : Nat) :
    bitAt (op.call d.map) i = true ↔ i ∈ op.spec {i | bitAt d.map i = true} := by
  have hfits := d.fits
  cases op with
  | set start nr h =>
      rw [call, Bitmap.set, rangeOp_bitAt writes_set _ (by omega)]
      simp only [spec, range, Set.mem_union, Set.mem_ofPred_eq, Set.mem_Ico]
      split <;> simp [*]
  | clear start nr h =>
      rw [call, Bitmap.clear, rangeOp_bitAt writes_clear _ (by omega)]
      simp only [spec, range, Set.mem_sdiff, Set.mem_ofPred_eq, Set.mem_Ico]
      split <;> simp [*]
  | setBit bit h =>
      rw [call, Bitmap.setBit, bitOp_bitAt writes_set _ (by omega)]
      simp only [spec, range, Set.mem_union, Set.mem_ofPred_eq, Set.mem_singleton_iff]
      split <;> simp [*]
  | clearBit bit h =>
      rw [call, Bitmap.clearBit, bitOp_bitAt writes_clear _ (by omega)]
      simp only [spec, range, Set.mem_sdiff, Set.mem_ofPred_eq, Set.mem_singleton_iff]
      split <;> simp [*]
  | changeBit bit h =>
      rw [call, changeBit_bitAt _ (by omega)]
      simp only [spec, range, Set.mem_symmDiff, Set.mem_ofPred_eq, Set.mem_singleton_iff]
      split <;> simp [*]

theorem Op.call_outside {nbits : Nat} (op : Op nbits) (d : Declared nbits) {i : Nat}
    (hi : i ∉ op.range) : testBit i (d.call op).map = testBit i d.map := by
  rw [testBit_eq, testBit_eq, Bool.eq_iff_iff]
  refine (op.call_bitAt d i).trans ?_
  cases op <;> simp_all [spec, range, Set.mem_symmDiff]

theorem Op.range_lt {nbits : Nat} (op : Op nbits) {i : Nat} (hi : i ∈ op.range) : i < nbits := by
  cases op <;> simp_all [range] <;> omega

/-- **One call does to the set what its specification says.** -/
theorem Declared.call_members {nbits : Nat} (d : Declared nbits) (op : Op nbits) :
    (d.call op).members = op.spec d.members := by
  ext i
  simp only [members, testBit_eq, Set.mem_ofPred_eq]
  rw [show (d.call op).map = op.call d.map from rfl, op.call_bitAt d i]
  by_cases hrange : i ∈ op.range
  · -- a bit of the range is a declared one
    have hlt := op.range_lt hrange
    cases op <;> simp [Op.spec, Set.mem_symmDiff, hrange, hlt]
  · cases op <;> simp [Op.spec, Set.mem_symmDiff, hrange]

/--
**A bitmap is the set its history builds.**  After any sequence of operations the
members are those of the same unions, differences and symmetric differences, no
operation has touched a bit outside its range, and the two predicates answer for
the whole set.
-/
theorem bitmap_represents (nbits : Nat) (d : Declared nbits) (ops : List (Op nbits)) :
    (ops.foldl Declared.call d).members = ops.foldl Op.spec d.members ∧
    (∀ op ∈ ops, ∀ (e : Declared nbits) (i : Nat), i ∉ op.range →
      testBit i (e.call op).map = testBit i e.map) ∧
    (empty (ops.foldl Declared.call d).map nbits = true ↔
      ops.foldl Op.spec d.members = ∅) ∧
    (full (ops.foldl Declared.call d).map nbits = true ↔
      ops.foldl Op.spec d.members = {i | i < nbits}) := by
  have hrun : ∀ (l : List (Op nbits)) (e : Declared nbits),
      (l.foldl Declared.call e).members = l.foldl Op.spec e.members := by
    intro l
    induction l with
    | nil => intro e; rfl
    | cons op rest ih => intro e; rw [List.foldl_cons, ih, e.call_members, List.foldl_cons]
  refine ⟨hrun ops d, fun op _ e i hi => op.call_outside e hi, ?_, ?_⟩
  · rw [← hrun ops d, empty_iff, Set.eq_empty_iff_forall_notMem]
    simp [Declared.members, testBit_eq]
  · rw [← hrun ops d, full_iff, Set.ext_iff]
    simp [Declared.members, testBit_eq]

end Awoke.Bitmap
