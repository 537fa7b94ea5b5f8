/-
The circular queue, `awoke_fifo` in `awoke_queue.c`.

`head` is the slot of the oldest element and `tail` that of the newest, both
`unsigned int`; `tail` starts at -1, which is 4294967295, so that the first
increment wraps to 0.  A remainder by a zero capacity is a crash, and every call
that can run into one has no result there.
-/
import Awoke.Error
import Mathlib.Logic.Function.Basic

namespace Awoke

/-- The value of an `unsigned int` expression. -/
def u32 (n : Nat) : Nat := n % 2 ^ 32

/-- `struct _awoke_fifo`. -/
structure Fifo (α : Type) where
  q : Nat → α
  flags : BitVec 16
  head : Nat
  tail : Nat
  nodeNr : Nat
  capacity : Nat

namespace Fifo

variable {α : Type}

/-- `AWOKE_FIFO_F_RES`: resize. -/
def flagRES : BitVec 16 := 0x0002

/-- `AWOKE_FIFO_F_RBK`: roll back, drop the oldest to make room. -/
def flagRBK : BitVec 16 := 0x0004

/-- The fields `awoke_fifo_create` and `awoke_fifo_init` set, over the flags that are
there already. -/
def start (q : Nat → α) (flags0 : BitVec 16) (capacity : Int32) (flags : BitVec 16) : Fifo α :=
  { q := q
    flags := maskPush (if capacity = 0 then maskPush flags0 flagRES else flags0) flags
    head := 0
    tail := u32 (2 ^ 32 - 1)
    nodeNr := 0
    capacity := capacity.toInt.toNat }

/-- `awoke_fifo_create`; `none` is the null pointer it returns on bad arguments. -/
def create [Zero α] (nodesize : Nat) (capacity : Int32) (flags : BitVec 16) : Option (Fifo α) :=
  if nodesize = 0 then none
  else if capacity < 0 then none
  else some (start (fun _ => 0) 0 capacity flags)

/-- `awoke_fifo_init`, on a structure and a storage the caller supplies. -/
def init (f : Fifo α) (addr : Nat → α) (nodesize : Int32) (capacity : Int32)
    (flags : BitVec 16) : ErrType × Fifo α :=
  if nodesize ≤ 0 then (.etParam, f)
  else if capacity < 0 then (.etParam, f)
  else (.etOk, start addr f.flags capacity flags)

/-- How many slots the storage of `start` has: `allocnr`. -/
def allocnr (f : Fifo α) : Nat := if f.capacity = 0 then 1 else f.capacity

/-- `awoke_fifo_empty`. -/
def empty (f : Fifo α) : Bool := f.nodeNr == 0

/-- `awoke_fifo_full`. -/
def full (f : Fifo α) : Bool := f.nodeNr == f.capacity

/-- `awoke_fifo_resize`, which does nothing. -/
def resize (f : Fifo α) (_capacity : Nat) : ErrType × Fifo α := (.etOk, f)

/-- The slot a sum of indices falls on; no result for a remainder by zero. -/
def slot (f : Fifo α) (n : Nat) : Option Nat :=
  if f.capacity = 0 then none else some (u32 n % f.capacity)

/-- `awoke_fifo_get`: the code and what it stores through `u`. -/
def get (f : Fifo α) (index : Int) : Option (ErrType × Option α) :=
  if index < 0 then some (.etParam, none)
  else if f.empty then some (.etEmpty, none)
  else do
    let i ← f.slot (f.head + index.toNat)
    return (.etOk, some (f.q i))

/-- `awoke_fifo_dequeue`. -/
def dequeue (f : Fifo α) : Option (ErrType × Option α × Fifo α) :=
  if f.empty then some (.etEmpty, none, f)
  else do
    let head ← f.slot (f.head + 1)
    return (.etOk, some (f.q f.head), { f with head := head, nodeNr := f.nodeNr - 1 })

/-- What `awoke_fifo_enqueue` does about a full queue; `none` inside is a refusal. -/
def makeRoom (f : Fifo α) : Option (Option (Fifo α)) :=
  if f.full then
    if maskExst f.flags flagRBK then f.dequeue.map fun r => some r.2.2
    else if maskExst f.flags flagRES then some (some (f.resize (u32 (f.capacity * 2))).2)
    else some none
  else some (some f)

/-- `awoke_fifo_enqueue`. -/
def enqueue (f : Fifo α) (u : α) : Option (ErrType × Fifo α) := do
  match ← f.makeRoom with
  | none => return (.etFull, f)
  | some f =>
      let tail ← f.slot (f.tail + 1)
      return (.etOk, { f with
        tail := tail
        q := Function.update f.q tail u
        nodeNr := u32 (f.nodeNr + 1) })

end Fifo

end Awoke
