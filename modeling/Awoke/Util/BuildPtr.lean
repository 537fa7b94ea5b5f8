/-
Text built piece by piece, `build_ptr` in `awoke_string.h`.

A builder has a pointer into a block of memory and the room that is left behind it.  Each piece
is printed with `vsnprintf`, which is told the room as an unsigned number, and the builder moves
on by what `vsnprintf` returns: the length of the piece, also when it did not fit.

A block has an identity, which `realloc` may change.  To write outside of the block, or into one
that is gone, has no result.
-/
import Awoke.Lib.Cells
import Mathlib.Data.BitVec

namespace Awoke

/-- A string: bytes without a NUL. -/
structure CStr where
  bytes : List UInt8
  no_nul : (0 : UInt8) ∉ bytes

/-- No bytes. -/
def CStr.empty : CStr := { bytes := [], no_nul := List.not_mem_nil }

/-- `strlen`. -/
def CStr.len (s : CStr) : Nat := s.bytes.length

/-- A block of memory: which one, how much was allocated, and what is in it. -/
structure MemBlock where
  id : Nat
  alloc : Nat
  cells : Cells UInt8

/-- What `vsnprintf` returns for a text; it has no number for a text that is too long. -/
def vsnprintfLen (text : List UInt8) : Int := if text.length < 2 ^ 31 then text.length else -1

/-- What `vsnprintf` writes in so much room. -/
def vsnprintfBytes (size : Nat) (text : List UInt8) : List UInt8 :=
  if size = 0 then [] else text.take (size - 1) ++ [0]

/-- `build_ptr`, where `p` is an offset into the block. -/
structure BuildPtr where
  block : Nat
  p : Int
  max : Int
  len : BitVec 64

/-- `build_ptr_make`. -/
def buildPtrMake (s : MemBlock) (max : Int) (strlen : Nat) : BuildPtr :=
  { block := s.id, p := 0, max := max, len := BitVec.ofNat 64 strlen }

/-- The room, as `vsnprintf` is told: `size_t`. -/
def BuildPtr.size (ptr : BuildPtr) : Nat := (ptr.max % 2 ^ 64).toNat

/-- `__build_ptr` with the text its format stands for. -/
def BuildPtr.build (s : BuildPtr × MemBlock) (text : List UInt8) : Option (BuildPtr × MemBlock) :=
  let ptr := s.1
  let written := vsnprintfBytes ptr.size text
  if written = [] ∨ ptr.block = s.2.id ∧ 0 ≤ ptr.p ∧ ptr.p + written.length ≤ s.2.alloc then
    some
      ({ ptr with
          max := ptr.max - vsnprintfLen text
          p := ptr.p + vsnprintfLen text
          len := ptr.len + BitVec.ofInt 64 (vsnprintfLen text) },
        { s.2 with cells := Cells.write s.2.cells ptr.p written })
  else none

/-- Several texts one after the other. -/
def BuildPtr.builds (s : BuildPtr × MemBlock) (texts : List (List UInt8)) :
    Option (BuildPtr × MemBlock) :=
  texts.foldlM BuildPtr.build s

end Awoke
