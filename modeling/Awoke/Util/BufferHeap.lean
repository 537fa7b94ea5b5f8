/-
A chunk and the block it lives in, `awoke_buffer.c`.

`Buffchunk` says what becomes of a chunk where memory is there for as much as is asked for.  Here
the allocator decides: it answers one request after another, and what it refuses the chunk goes
without.  A chunk keeps the block behind `p` beside its own fields, so that what it says of its
size can be compared with what it was given.
-/
import Awoke.Util.Buffer
import Awoke.Lib.CellOps

namespace Awoke

/-! ### The allocator -/

/-- What is behind a pointer: nothing, a block of so many bytes, or one that was freed. -/
inductive Block
  | null
  | live (bytes : Nat)
  | dead
  deriving DecidableEq

/-- The allocator: the memory it grants when its `k`-th request is for so many bytes, or the null
pointer.  `frees` when a `realloc` to no bytes that returns the null pointer has freed the block. -/
structure Allocator where
  answer : Nat → Nat → Option (Cells UInt8)
  frees : Bool

/-- An `int` given for a `size_t`. -/
def sizeT (n : Int) : Nat := (n % 2 ^ 64).toNat

/-- Why a call does not come back: its frames overflow the stack, or it hands a freed block to
`realloc`. -/
inductive Trouble
  | stack
  | freed
  deriving DecidableEq

/-- A chunk with the block behind its `p`. -/
structure HeapChunk extends Buffchunk where
  block : Block

namespace HeapChunk

/-- The bytes of `struct _awoke_buffchunk`. -/
def structBytes : Nat := 40

/-- `awoke_buffchunk_create`, as the `k`-th request and the next. -/
def create (a : Allocator) (k : Nat) (id : UInt16) (size : Int) : Option HeapChunk :=
  if size ≤ 0 ∨ Buffchunk.limit < size then none
  else
    match a.answer k structBytes with
    | none => none
    | some _ =>
        match a.answer (k + 1) (sizeT size) with
        | none => none
        | some fresh =>
            some {
              id := id
              p := Cells.fill fresh 0 (sizeT size) 0
              size := size
              length := 0
              block := .live (sizeT size) }

/-! ### Resizing -/

/-- `awoke_buffchunk_resize` where `fresh` was granted for `size` bytes: by `mem_realloc`, with as
much of the old block as goes in, or by `mem_alloc_z` when there was none. -/
def granted (chunk : HeapChunk) (size : Int) (trybest : Bool) (fresh : Cells UInt8) : HeapChunk :=
  match chunk.block with
  | .live bytes =>
      { chunk with
        p := Cells.write fresh 0 (Cells.slice chunk.p 0 (min bytes (sizeT size)))
        block := .live (sizeT size)
        length := if size < chunk.length ∧ trybest then size else chunk.length
        size := size }
  | _ =>
      { chunk with
        p := Cells.fill fresh 0 (sizeT size) 0
        block := .live (sizeT size)
        size := size }

/-- The chunk after a null pointer for `size` bytes. -/
def refused (a : Allocator) (chunk : HeapChunk) (size : Int) : HeapChunk :=
  match chunk.block with
  | .live _ => if sizeT size = 0 ∧ a.frees then { chunk with block := .dead } else chunk
  | _ => chunk

/-- `awoke_buffchunk_resize` with as many frames on the stack, from the `k`-th request on; with
the number of the next. -/
def resize (a : Allocator) : Nat → Nat → HeapChunk → Int → Bool →
    Except Trouble (ErrType × HeapChunk × Nat)
  | 0, _, _, _, _ => .error .stack
  | stack + 1, k, chunk, resize, trybest =>
      if ¬trybest ∧ Buffchunk.limit < resize then .ok (.etMemLimit, chunk, k)
      else if ¬trybest ∧ resize < chunk.length then .ok (.etFail, chunk, k)
      else
        let size := if trybest then min resize Buffchunk.limit else resize
        if chunk.block = .dead then .error .freed
        else
          match a.answer k (sizeT size) with
          | some fresh => .ok (.etOk, chunk.granted size trybest fresh, k + 1)
          | none =>
              -- mem_error
              let chunk := refused a chunk size
              if trybest then HeapChunk.resize a stack (k + 1) chunk (size >>> (1 : Nat)) trybest
              else .ok (.etNomem, chunk, k + 1)

/-! ### The other calls -/

/-- What a chunk says of itself is so: it has a block of its size, and the length is in it. -/
structure Sound (chunk : HeapChunk) : Prop where
  block : chunk.block = .live chunk.size.toNat
  low : 0 ≤ chunk.length
  high : chunk.length ≤ chunk.size

/-- A chunk to copy from. -/
abbrev Source := { chunk : HeapChunk // chunk.Sound }

/-- `awoke_buffchunk_copy`. -/
def copy (dst src : HeapChunk) : ErrType × HeapChunk :=
  if dst.size < src.length then (.errEmpty, dst)
  else (.etOk, { dst with
    p := Cells.write dst.p 0 (Cells.slice src.p 0 src.length.toNat)
    length := src.length })

/-- What a chunk is called with. -/
inductive Call
  | write (data : List UInt8) (trybest : Bool)
  | copy (src : Source)
  | clear
  | resize (size : Int) (trybest : Bool)
  | backoff (back : Int)

/-- The accesses of a call to the chunk's own bytes.  What a resize moves, the allocator moves. -/
def ops (chunk : HeapChunk) : Call → List (Cells.Op UInt8)
  | .write data trybest =>
      if data.length = 0 ∨ chunk.remain = 0 ∨ ¬trybest ∧ chunk.remain < data.length then []
      else
        let copylen : Int :=
          if trybest ∧ chunk.remain < data.length then chunk.remain else data.length
        [.write chunk.length (data.take copylen.toNat)]
  | .copy src =>
      if chunk.size < src.1.length then []
      else [.write 0 (Cells.slice src.1.p 0 src.1.length.toNat)]
  | .clear => [.fill 0 chunk.size 0]
  | .resize _ _ => []
  | .backoff back => [.move 0 back chunk.size]

/-- The accesses of a copy to the bytes of `src`. -/
def copyOps (dst src : HeapChunk) : List (Cells.Op UInt8) :=
  if dst.size < src.length then [] else [.read 0 src.length.toNat]

end HeapChunk

/-- A chunk in use, and how many requests the allocator has had. -/
structure ChunkState where
  chunk : HeapChunk
  requests : Nat

namespace ChunkState

open HeapChunk (Call)

/-- A chunk with what a call of `Buffchunk` leaves of its fields. -/
def set (s : ChunkState) (chunk : Buffchunk) : ChunkState :=
  { s with chunk := { chunk with block := s.chunk.block } }

/-- One call, with what it returns. -/
def call (a : Allocator) (stack : Nat) (s : ChunkState) :
    Call → Except Trouble (ChunkState × Option ErrType)
  | .write data trybest =>
      let r := s.chunk.write data trybest
      .ok (s.set r.2, some r.1)
  | .copy src =>
      let r := s.chunk.copy src.1
      .ok ({ s with chunk := r.2 }, some r.1)
  | .clear => .ok (s.set s.chunk.clear, none)
  | .resize size trybest =>
      match s.chunk.resize a stack s.requests size trybest with
      | .error e => .error e
      | .ok (ret, chunk, requests) => .ok ({ chunk := chunk, requests := requests }, some ret)
  | .backoff back => .ok (s.set (s.chunk.backoff back), none)

/-- The machine of these calls. -/
def step (a : Allocator) (stack : Nat) (s : ChunkState) (c : Call) :
    Option (ChunkState × Option ErrType) :=
  (call a stack s c).toOption

end ChunkState

end Awoke
