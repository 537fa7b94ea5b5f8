/-
The buffer allocator, `qe/bget.c`, with `BufStats` and `BestFit` and without `BECtl`.

Memory is one array of bytes.  A buffer has a header of two words in front of it, `prevfree` and
`bsize`, and a free one has its links behind them; `bget_vars` begins with the header of the free
list.  The address 0 is `NULL`.

There is no result where an assertion fails, a `long` overflows, or a loop is not over after so many
turns.
-/
import Awoke.Lib.Cells
import Awoke.Lib.Words

namespace Awoke.Benchmark.Bget

open Cells (load store)

/-- `bget_vars` is at `bg`, unless that is `NULL`. -/
structure State where
  bg : Int
  mem : Cells UInt8

/-! ### Headers -/

section Fields

variable (m : Cells UInt8) (b v : Int)

/-- `bh.prevfree`. -/
def prevfree : Int := load 8 m b

/-- `bh.bsize`. -/
def bsize : Int := load 8 m (b + 8)

/-- `ql.flink`. -/
def flink : Int := load 8 m (b + 16)

/-- `ql.blink`. -/
def blink : Int := load 8 m (b + 24)

/-- `totalloc`. -/
def totalloc : Int := load 8 m (b + 32)

/-- `numget`. -/
def numget : Int := load 8 m (b + 40)

/-- `numrel`. -/
def numrel : Int := load 8 m (b + 48)

def setPrevfree : Cells UInt8 := store 8 m b v

def setBsize : Cells UInt8 := store 8 m (b + 8) v

def setFlink : Cells UInt8 := store 8 m (b + 16) v

def setBlink : Cells UInt8 := store 8 m (b + 24) v

def setTotalloc : Cells UInt8 := store 8 m (b + 32) v

def setNumget : Cells UInt8 := store 8 m (b + 40) v

def setNumrel : Cells UInt8 := store 8 m (b + 48) v

/-- `next`. -/
def setNext : Cells UInt8 := store 8 m (b + 56) v

end Fields

/-- `SizeQ`. -/
def sizeQ : Int := 16

/-- `ESent`. -/
def eSent : Int := -2 ^ 63

/-- `& ~(SizeQuant - 1)`. -/
def quantized (size : Int) : Int := size / 4 * 4

/-- `(size_t) (MemSize)`, for what is no more than there can be. -/
def memSize (size : Int) : Option Nat :=
  let n := size.bmod (2 ^ 32)
  if 0 ≤ n then some n.toNat else none

/-! ### The free list -/

/-- `while (b != &g_bg->freelist) { ... b = b->ql.flink; }`, in so many turns at most. -/
def throughFree {α : Type} (m : Cells UInt8) (bg : Int) (body : α → Int → Option α) :
    Nat → Int → α → Option α
  | 0, _, _ => none
  | n + 1, b, a =>
      if b = bg then some a
      else do
        let a ← body a b
        throughFree m bg body n (flink m b) a

/-- `best` after `b` was looked at. -/
def better (m : Cells UInt8) (bg size best b : Int) : Int :=
  if bsize m b ≥ size ∧ (best = bg ∨ bsize m b < bsize m best) then b else best

/-- The second loop in `bget`, up to the buffer that is given away. -/
def firstFit (m : Cells UInt8) (bg size : Int) : Nat → Int → Option Int
  | 0, _ => none
  | n + 1, b =>
      if b = bg then some bg
      else if bsize m b ≥ size then some b
      else firstFit m bg size n (flink m b)

/-- A buffer is taken from the list. -/
def unlinkFree (m : Cells UInt8) (b : Int) : Option (Cells UInt8) := do
  guard (flink m (blink m b) = b)
  guard (blink m (flink m b) = b)
  let m := setFlink m (blink m b) (flink m b)
  return setBlink m (flink m b) (blink m b)

/-- A buffer is put at the end of the list. -/
def linkFree (m : Cells UInt8) (bg b : Int) : Option (Cells UInt8) := do
  guard (flink m (blink m bg) = bg)
  guard (blink m (flink m bg) = bg)
  let m := setFlink m b bg
  let m := setBlink m b (blink m bg)
  let m := setBlink m bg b
  return setFlink m (blink m b) b

/-! ### To allocate -/

/-- The size that is looked for, with the header. -/
def neededSize (requested : Int) : Int :=
  let size := if requested < sizeQ then sizeQ else requested
  quantized (size + 3) + 16

/-- The counters after so much was given away. -/
def counted (m : Cells UInt8) (bg size : Int) : Cells UInt8 :=
  let m := setTotalloc m bg (totalloc m bg + size)
  setNumget m bg (numget m bg + 1)

/-- The end of a free buffer is given away. -/
def splitOff (m : Cells UInt8) (bg b size : Int) : Option (Int × Cells UInt8) := do
  let ba := b + (bsize m b - size)
  let bn := ba + size
  guard (prevfree m bn = bsize m b)
  let m := setBsize m b (bsize m b - size)
  let m := setPrevfree m ba (bsize m b)
  let m := setBsize m ba (-size)
  let m := setPrevfree m bn 0
  return (ba + 16, counted m bg size)

/-- All of a free buffer is given away. -/
def takeWhole (m : Cells UInt8) (bg b : Int) : Option (Int × Cells UInt8) := do
  let ba := b + bsize m b
  guard (prevfree m ba = bsize m b)
  let m ← unlinkFree m b
  let m := counted m bg (bsize m b)
  let m := setBsize m b (-bsize m b)
  return (b + 16, setPrevfree m ba 0)

/-- `bget`. -/
def bget (n : Nat) (s : State) (requested : Int) : Option (Int × Cells UInt8) := do
  guard (s.bg ≠ 0)
  guard (0 < requested ∧ requested ≤ 2 ^ 63 - 20)
  let size := neededSize requested
  let best ← throughFree s.mem s.bg (fun best b => some (better s.mem s.bg size best b)) n
    (flink s.mem s.bg) s.bg
  let b ← firstFit s.mem s.bg size n best
  if b = s.bg then return (0, s.mem)
  else if bsize s.mem b - size > sizeQ + 16 then splitOff s.mem s.bg b size
  else takeWhole s.mem s.bg b

/-- `bgetz`. -/
def bgetz (n : Nat) (s : State) (size : Int) : Option (Int × Cells UInt8) := do
  let (buf, m) ← bget n s size
  if buf = 0 then return (buf, m)
  else
    let rsize := -bsize m (buf - 16)
    let rsize := if rsize = 0 then load 8 m (buf - 24) - 24 else rsize - 16
    guard (rsize ≥ size)
    let len ← memSize rsize
    return (buf, Cells.fill m buf len 0)

/-! ### To release -/

/-- A buffer is made part of the free one before it. -/
def joinPrev (m : Cells UInt8) (b : Int) : Option (Int × Cells UInt8) := do
  let size := bsize m b
  guard (bsize m (b - prevfree m b) = prevfree m b)
  let b := b - prevfree m b
  return (b, setBsize m b (bsize m b - size))

/-- A buffer is put on the free list on its own. -/
def freeAlone (m : Cells UInt8) (bg b : Int) : Option (Int × Cells UInt8) := do
  let m ← linkFree m bg b
  return (b, setBsize m b (-bsize m b))

/-- The buffer behind is made part of a free one, if it is free: what comes behind that, and
memory. -/
def joinNext (m : Cells UInt8) (b : Int) : Option (Int × Cells UInt8) := do
  let bn := b + bsize m b
  if bsize m bn > 0 then
    guard (prevfree m (bn + bsize m bn) = bsize m bn)
    let m ← unlinkFree m bn
    let m := setBsize m b (bsize m b + bsize m bn)
    return (b + bsize m b, m)
  else return (bn, m)

/-- `brel`. -/
def brel (s : State) (buf : Int) : Option (Cells UInt8) := do
  guard (s.bg ≠ 0)
  let b := buf - 16
  let m := setNumrel s.mem s.bg (numrel s.mem s.bg + 1)
  guard (buf ≠ 0)
  guard (bsize m b < 0)
  guard (prevfree m (b - bsize m b) = 0)
  let m := setTotalloc m s.bg (totalloc m s.bg + bsize m b)
  guard (totalloc m s.bg ≥ 0)
  let (b, m) ← if prevfree m b ≠ 0 then joinPrev m b else freeAlone m s.bg b
  let (bn, m) ← joinNext m b
  guard (bsize m bn < 0)
  return setPrevfree m bn (bsize m b)

/-- `bgetr`. -/
def bgetr (n : Nat) (s : State) (buf size : Int) : Option (Int × Cells UInt8) := do
  let (nbuf, m) ← bget n s size
  if nbuf = 0 then return (0, m)
  else if buf = 0 then return (nbuf, m)
  else
    let osize := -bsize m (buf - 16) - 16
    guard (osize > 0)
    let len ← memSize (if size < osize then size else osize)
    let m ← brel { s with mem := Cells.move m nbuf buf len } buf
    return (nbuf, m)

/-! ### Pools -/

/-- `bpool`. -/
def bpool (s : State) (buf len : Int) : Option State := do
  let (s, buf, len) :=
    if s.bg = 0 then
      let m := Cells.fill s.mem buf 64 0
      let m := setFlink m buf buf
      let m := setBlink m buf buf
      (⟨buf, setNext m buf 1⟩, buf + 1024, len - 1024)
    else (s, buf, len)
  let len := quantized len
  -- The difference is unsigned.
  guard ((len - 16) % 2 ^ 64 ≤ -(eSent + 1))
  let m := setPrevfree s.mem buf 0
  let m ← linkFree m s.bg buf
  let len := len - 16
  let m := setBsize m buf len
  let m := setPrevfree m (buf + len) len
  return { s with mem := setBsize m (buf + len) eSent }

/-! ### Statistics -/

/-- What `bstats` stores. -/
structure Stats where
  curalloc : Int
  totfree : Int
  maxfree : Int
  nget : Int
  nrel : Int
  deriving DecidableEq, Repr

/-- The body of the loop in `bstats`, on `*totfree` and `*maxfree`. -/
def measured (m : Cells UInt8) (a : Int × Int) (b : Int) : Option (Int × Int) := do
  guard (bsize m b > 0)
  return (a.1 + bsize m b, if bsize m b > a.2 then bsize m b else a.2)

/-- `bstats`. -/
def bstats (n : Nat) (s : State) : Option Stats :=
  if s.bg = 0 then some ⟨0, 0, 0, 0, 0⟩
  else do
    let (totfree, maxfree) ← throughFree s.mem s.bg (measured s.mem) n (flink s.mem s.bg) (0, -1)
    return ⟨totalloc s.mem s.bg, totfree, maxfree, numget s.mem s.bg, numrel s.mem s.bg⟩

end Awoke.Benchmark.Bget
