/-
Chunks of memory and pools of them, `awoke_buffer.c`.

A chunk is a base address, the size that was allocated there and the length in use.
Memory goes on to both sides of what was allocated; what lies there is whatever the
cells say.  A pool is a list of chunks with their number and their sizes and lengths
added up.

Every chunk takes a number from one counter of 16 bits, and a pool refuses a chunk
whose number one of its own has.
-/
import Awoke.Error
import Awoke.Lib.Cells

namespace Awoke

/-! ### Chunks -/

/-- `struct _awoke_buffchunk`. -/
structure Buffchunk where
  id : UInt16
  p : Cells UInt8
  size : Int
  length : Int

namespace Buffchunk

/-- `AWOKE_BUFFCHUNK_LIMIT`. -/
def limit : Int := 1024 * 128

/-- `awoke_buffchunk_create`, with `buffchunk_id`'s counter before and after; `none` is
the null pointer. -/
def create (id : UInt16) (size : Int) : Option Buffchunk × UInt16 :=
  if size ≤ 0 ∨ limit < size then (none, id)
  else (some { id := id, p := fun _ => 0, size := size, length := 0 }, id + 1)

/-- `awoke_buffchunk_remain`. -/
def remain (chunk : Buffchunk) : Int := chunk.size - chunk.length

/-- `awoke_buffchunk_write` of all of `data`. -/
def write (chunk : Buffchunk) (data : List UInt8) (trybest : Bool) : ErrType × Buffchunk :=
  if data.length = 0 then (.etParam, chunk)
  else if chunk.remain = 0 then (.etFull, chunk)
  else if ¬trybest ∧ chunk.remain < data.length then (.etFull, chunk)
  else
    let copylen : Int := if trybest ∧ chunk.remain < data.length then chunk.remain else data.length
    (.etOk, { chunk with
      p := Cells.write chunk.p chunk.length (data.take copylen.toNat)
      length := chunk.length + copylen })

/-- `awoke_buffchunk_backoff`: drop `back` bytes from the front.  The whole size is
moved, so as many bytes from behind the allocation come in at its end. -/
def backoff (chunk : Buffchunk) (back : Int) : Buffchunk :=
  { chunk with p := Cells.move chunk.p 0 back chunk.size, length := chunk.length - back }

/-- `awoke_buffchunk_clear`. -/
def clear (chunk : Buffchunk) : Buffchunk :=
  { chunk with p := Cells.fill chunk.p 0 chunk.size 0, length := 0 }

/-- `awoke_buffchunk_resize` where memory is there for as much as is asked for. -/
def resize (chunk : Buffchunk) (size : Int) (trybest : Bool) : ErrType × Buffchunk :=
  if trybest then
    (.etOk, { chunk with size := min size limit, length := min chunk.length (min size limit) })
  else if limit < size then (.etMemLimit, chunk)
  else if size < chunk.length then (.etFail, chunk)
  else (.etOk, { chunk with size := size })

/-- The bytes in use. -/
def contents (chunk : Buffchunk) : List UInt8 := Cells.slice chunk.p 0 chunk.length.toNat

end Buffchunk

/-! ### Pools -/

/-- `struct _awoke_buffchunk_pool`. -/
structure BuffchunkPool where
  size : Int
  length : Int
  maxsize : Int
  chunknr : Int
  chunklist : List Buffchunk

namespace BuffchunkPool

/-- `AWOKE_BUFFCHUNK_POOL_LIMIT`. -/
def limit : Int := Buffchunk.limit * 16

/-- `awoke_buffchunk_pool_create`. -/
def create (maxsize : Int) : BuffchunkPool :=
  { size := 0, length := 0, maxsize := min limit maxsize, chunknr := 0, chunklist := [] }

/-- `awoke_buffchunk_pool_init`. -/
def init (maxsize : Int) : BuffchunkPool :=
  { size := 0, length := 0, maxsize := maxsize, chunknr := 0, chunklist := [] }

/-- `awoke_buffchunk_pool_clean`. -/
def clean (pool : BuffchunkPool) : BuffchunkPool :=
  { pool with size := 0, length := 0, chunknr := 0, chunklist := [] }

/-- `awoke_buffchunk_pool_chunkadd`; the chunk may be a null pointer. -/
def chunkadd (pool : BuffchunkPool) : Option Buffchunk → ErrType × BuffchunkPool
  | none => (.etParam, pool)
  | some chunk =>
      if pool.maxsize - pool.size < chunk.size then (.etMemLimit, pool)
      else if pool.chunklist.any (fun c => c.id == chunk.id) then (.etExist, pool)
      else (.etOk, { pool with
        size := pool.size + chunk.size
        length := pool.length + chunk.length
        chunknr := pool.chunknr + 1
        chunklist := pool.chunklist ++ [chunk] })

/-- The `for` loop of `awoke_buffchunk_pool2chunk`. -/
def gather (chunk : Buffchunk) : List Buffchunk → Buffchunk
  | [] => chunk
  | c :: cs =>
      if c.length = 0 then gather chunk cs
      else if chunk.remain < c.length then chunk
      else gather (chunk.write c.contents false).2 cs

/-- `awoke_buffchunk_pool2chunk`: one chunk with the bytes of all, or a null pointer. -/
def pool2chunk (pool : BuffchunkPool) (id : UInt16) : Option Buffchunk × UInt16 :=
  if pool.chunknr = 0 ∨ pool.length = 0 then (none, id)
  else
    match Buffchunk.create id pool.length with
    | (none, id) => (none, id)
    | (some chunk, id) => (some (gather chunk pool.chunklist), id)

end BuffchunkPool

end Awoke
