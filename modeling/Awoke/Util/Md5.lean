/-
A digest, `md5.c`.

The message is copied to memory that `malloc` returns, and padded there; what was there before is given
with the call, and memory can always be had.  A `size_t` has 64 bits.

There is no result where a loop is not over after so many turns.
-/
import Awoke.Lib.Cells
import Mathlib.Data.UInt

namespace Awoke.Md5

/-! ### Words -/

/-- `k`. -/
def k : Array UInt32 :=
  #[
    0xd76aa478, 0xe8c7b756, 0x242070db, 0xc1bdceee, 0xf57c0faf, 0x4787c62a, 0xa8304613, 0xfd469501,
    0x698098d8, 0x8b44f7af, 0xffff5bb1, 0x895cd7be, 0x6b901122, 0xfd987193, 0xa679438e, 0x49b40821,
    0xf61e2562, 0xc040b340, 0x265e5a51, 0xe9b6c7aa, 0xd62f105d, 0x02441453, 0xd8a1e681, 0xe7d3fbc8,
    0x21e1cde6, 0xc33707d6, 0xf4d50d87, 0x455a14ed, 0xa9e3e905, 0xfcefa3f8, 0x676f02d9, 0x8d2a4c8a,
    0xfffa3942, 0x8771f681, 0x6d9d6122, 0xfde5380c, 0xa4beea44, 0x4bdecfa9, 0xf6bb4b60, 0xbebfbc70,
    0x289b7ec6, 0xeaa127fa, 0xd4ef3085, 0x04881d05, 0xd9d4d039, 0xe6db99e5, 0x1fa27cf8, 0xc4ac5665,
    0xf4292244, 0x432aff97, 0xab9423a7, 0xfc93a039, 0x655b59c3, 0x8f0ccc92, 0xffeff47d, 0x85845dd1,
    0x6fa87e4f, 0xfe2ce6e0, 0xa3014314, 0x4e0811a1, 0xf7537e82, 0xbd3af235, 0x2ad7d2bb, 0xeb86d391]

/-- `r`. -/
def r : Array UInt32 :=
  #[
    7, 12, 17, 22, 7, 12, 17, 22, 7, 12, 17, 22, 7, 12, 17, 22,
    5, 9, 14, 20, 5, 9, 14, 20, 5, 9, 14, 20, 5, 9, 14, 20,
    4, 11, 16, 23, 4, 11, 16, 23, 4, 11, 16, 23, 4, 11, 16, 23,
    6, 10, 15, 21, 6, 10, 15, 21, 6, 10, 15, 21, 6, 10, 15, 21]

/-- `LEFTROTATE`. -/
def leftRotate (x c : UInt32) : UInt32 := x <<< c ||| x >>> (32 - c)

/-- `to_bytes`, as the bytes that it writes. -/
def toBytes (val : UInt32) : List UInt8 :=
  [val.toUInt8, (val >>> 8).toUInt8, (val >>> 16).toUInt8, (val >>> 24).toUInt8]

/-- `to_int32`, of the bytes from a pointer on. -/
def toInt32 (bytes : Nat → UInt8) : UInt32 :=
  (bytes 0).toUInt32 ||| (bytes 1).toUInt32 <<< 8 ||| (bytes 2).toUInt32 <<< 16 |||
    (bytes 3).toUInt32 <<< 24

/-! ### Chunks -/

/-- `h0` to `h3`, or `a` to `d`. -/
structure Hash where
  a : UInt32
  b : UInt32
  c : UInt32
  d : UInt32
  deriving DecidableEq

/-- What `h0` to `h3` begin with. -/
def Hash.init : Hash := ⟨0x67452301, 0xefcdab89, 0x98badcfe, 0x10325476⟩

/-- `f` and `g`, in the turn `i`. -/
def mixed (s : Hash) (i : Nat) : UInt32 × Nat :=
  if i < 16 then (s.b &&& s.c ||| ~~~s.b &&& s.d, i)
  else if i < 32 then (s.d &&& s.b ||| ~~~s.d &&& s.c, (5 * i + 1) % 16)
  else if i < 48 then (s.b ^^^ s.c ^^^ s.d, (3 * i + 5) % 16)
  else (s.c ^^^ (s.b ||| ~~~s.d), 7 * i % 16)

/-- A turn of the main loop. -/
def turn (w : List UInt32) (s : Hash) (i : Nat) : Hash :=
  let fg := mixed s i
  { a := s.d
    d := s.c
    c := s.b
    b := s.b + leftRotate (s.a + fg.1 + k.getD i 0 + w.getD fg.2 0) (r.getD i 0) }

/-- What is done with a chunk, once it is broken into words. -/
def addChunk (w : List UInt32) (h : Hash) : Hash :=
  let s := (List.range 64).foldl (turn w) h
  ⟨h.a + s.a, h.b + s.b, h.c + s.c, h.d + s.d⟩

/-- `w`, for the chunk at `offset`. -/
def words (msg : Cells UInt8) (offset : Nat) : List UInt32 :=
  (List.range 16).map fun i => toInt32 fun j => msg (offset + i * 4 + j : Nat)

/-! ### Messages -/

/-- The loop that looks for `new_len`, in so many turns at most. -/
def newLenLoop : Nat → Nat → Option Nat
  | 0, _ => none
  | n + 1, newLen =>
      if newLen % (512 / 8) ≠ 448 / 8 then newLenLoop n ((newLen + 1) % 2 ^ 64) else some newLen

/-- The loop over the chunks. -/
def chunkLoop (msg : Cells UInt8) (newLen : Nat) : Nat → Nat → Hash → Option Hash
  | 0, _, _ => none
  | n + 1, offset, h =>
      if offset < newLen then
        chunkLoop msg newLen n ((offset + 512 / 8) % 2 ^ 64) (addChunk (words msg offset) h)
      else some h

/-- `msg`, with `heap` where it is allocated. -/
def prepared (heap m : Cells UInt8) (initialMsg : Int) (initialLen newLen : Nat) : Cells UInt8 :=
  let msg := Cells.write heap 0 (Cells.slice m initialMsg initialLen)
  let msg := Function.update msg (initialLen : Int) 0x80
  let msg := (List.range' (initialLen + 1) (newLen - (initialLen + 1))).foldl
    (fun (msg : Cells UInt8) (offset : Nat) => Function.update msg (offset : Int) 0) msg
  let msg := Cells.write msg newLen (toBytes (UInt32.ofNat (initialLen * 8)))
  Cells.write msg (newLen + 4) (toBytes (UInt32.ofNat (initialLen >>> 29)))

/-- `md5`: memory afterwards. -/
def md5 (heap m : Cells UInt8) (initialMsg : Int) (initialLen : Nat) (digest : Int) :
    Option (Cells UInt8) := do
  let newLen ← newLenLoop 64 ((initialLen + 1) % 2 ^ 64)
  let msg := prepared heap m initialMsg initialLen newLen
  let h ← chunkLoop msg newLen (newLen / 64 + 2) 0 .init
  let m := m.write digest (toBytes h.a)
  let m := m.write (digest + 4) (toBytes h.b)
  let m := m.write (digest + 8) (toBytes h.c)
  return m.write (digest + 12) (toBytes h.d)

end Awoke.Md5
