/-
The bitmap library, `awoke_bitmap.h` and `awoke_bitmap.c`.

A bitmap is an array of 32-bit words.  Range operations walk the words of the
range, masking the first and the last one; the masks are `unsigned long`, 64 bits
wide, and are truncated when they meet a word.
-/
import Mathlib.Data.UInt
import Mathlib.Tactic.Ring

namespace Awoke.Bitmap

/-- `unsigned int`, one word of a bitmap. -/
abbrev Word := BitVec 32

/-- `BITS_PER_LONG`, which the header sets to the width of a word. -/
def bitsPerLong : Nat := 32

/-- `DIV_ROUND_UP(n, d)`. -/
def divRoundUp (n d : Nat) : Nat := (n + d - 1) / d

/-- `bits_to_long(nr)`: how many words `awoke_bitmap(name, nr)` allocates. -/
def bitsToLong (nr : Nat) : Nat := divRoundUp nr (8 * 4)

/-- `BIT_WORD(nr)`. -/
def bitWord (nr : Nat) : Nat := nr / bitsPerLong

/-- `BITMAP_FIRST_WORD_MASK(start)`. -/
def firstWordMask (start : Nat) : BitVec 64 := (~~~0#64) <<< (start % bitsPerLong)

/-- `BITMAP_LAST_WORD_MASK(nbits)`. -/
def lastWordMask (nbits : Nat) : BitVec 64 :=
  if nbits % bitsPerLong ≠ 0 then (1#64 <<< (nbits % bitsPerLong)) - 1 else ~~~0#64

/-- Word `k` of a bitmap. -/
def word (bitmap : Array Word) (k : Nat) : Word := bitmap.getD k 0

/-! ### Predicates -/

/-- `awoke_bitmap_empty`: the whole words are zero, and so is the partial last one
under its mask. -/
def empty (bitmap : Array Word) (bits : Nat) : Bool :=
  let lim := bits / bitsPerLong
  (List.range lim).all (fun k => word bitmap k == 0) &&
    (bits % bitsPerLong == 0 ||
      (word bitmap lim).setWidth 64 &&& lastWordMask bits == 0)

/-- `awoke_bitmap_full`: the same test on the complement of each word. -/
def full (bitmap : Array Word) (bits : Nat) : Bool :=
  let lim := bits / bitsPerLong
  (List.range lim).all (fun k => ~~~word bitmap k == 0) &&
    (bits % bitsPerLong == 0 ||
      (~~~word bitmap lim).setWidth 64 &&& lastWordMask bits == 0)

/-! ### Range operations -/

/--
The loop of `awoke_bitmap_set` and `awoke_bitmap_clear`, which differ in what they
do to a word under a mask.  `p` is the current word, `nr` the bits still to do,
`bits` (never zero) the bits of this word from the start of the range on.
-/
def rangeLoop (op : Word → Word → Word) (size : Nat) (map : Array Word) (p nr bits : Nat)
    (_hbits : 0 < bits) (mask : Word) : Array Word :=
  if nr ≥ bits then
    rangeLoop op size (map.modify p (op · mask)) (p + 1) (nr - bits) bitsPerLong (by decide)
      ((~~~0#64).setWidth 32)
  else if nr ≠ 0 then
    map.modify p (op · (mask &&& (lastWordMask size).setWidth 32))
  else map
termination_by nr

/-- A range operation from `start`, `nr` bits long. -/
def rangeOp (op : Word → Word → Word) (map : Array Word) (start nr : Nat) : Array Word :=
  rangeLoop op (start + nr) map (bitWord start) nr (bitsPerLong - start % bitsPerLong)
    (Nat.sub_pos_of_lt (Nat.mod_lt _ (by decide))) ((firstWordMask start).setWidth 32)

/-- `awoke_bitmap_set`. -/
def set (map : Array Word) (start nr : Nat) : Array Word :=
  rangeOp (fun w mask => w ||| mask) map start nr

/-- `awoke_bitmap_clear`. -/
def clear (map : Array Word) (start nr : Nat) : Array Word :=
  rangeOp (fun w mask => w &&& ~~~mask) map start nr

/-! ### Single bits -/

/-- The mask `1UL << (bit & 31)` of the single-bit operations. -/
def bitMask (bit : Nat) : Word := (1#64 <<< (bit &&& 31)).setWidth 32

/-- `_set_bit`. -/
def setBit (bit : Nat) (p : Array Word) : Array Word := p.modify (bit >>> 5) (· ||| bitMask bit)

/-- `_clear_bit`. -/
def clearBit (bit : Nat) (p : Array Word) : Array Word :=
  p.modify (bit >>> 5) (· &&& ~~~bitMask bit)

/-- `_change_bit`. -/
def changeBit (bit : Nat) (p : Array Word) : Array Word := p.modify (bit >>> 5) (· ^^^ bitMask bit)

/-- `test_bit`: `1UL & (addr[BIT_WORD(nr)] >> (nr & 31))`. -/
def testBit (nr : Nat) (addr : Array Word) : Bool :=
  (1#64 &&& (word addr (bitWord nr) >>> (nr &&& (bitsPerLong - 1))).setWidth 64) != 0

end Awoke.Bitmap
