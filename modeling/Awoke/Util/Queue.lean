/-
The bounded queue, `awoke_queue` in `awoke_queue.c`.

The elements sit in the slots `0 .. curr`, oldest first; taking the front moves
every other element down one slot.  `curr` is -1 when the queue is empty.  With
flag `RB` a full queue makes room by dropping its front, and flag `IN` admits
`insert_after`.  A zero element is one whose bytes are all zero.

`create` makes a queue whose storage is as large as it should be.  `createSized` asks for
it as the code does, in an `int`.
-/
import Awoke.Error
import Awoke.Lib.Cells
import Mathlib.Logic.Function.Iterate

namespace Awoke

/-- `struct _awoke_queue`; the slots go on beyond the `node_nr` that are allocated. -/
structure Queue (α : Type*) where
  curr : Int
  nodeNr : Nat
  flag : BitVec 16
  queue : Cells α

namespace Queue

variable {α : Type*} [Zero α]

/-- `AWOKE_QUEUE_F_RB`: roll back, drop the front to make room. -/
def flagRB : BitVec 16 := 0x0001

/-- `AWOKE_QUEUE_F_IN`: insertion allowed. -/
def flagIN : BitVec 16 := 0x0002

/-- `awoke_queue_create`, with the storage zeroed. -/
def create (nodeNr : Nat) (flag : BitVec 16) : Queue α :=
  { curr := -1, nodeNr := nodeNr, flag := maskPush 0 flag, queue := fun _ => 0 }

/-- `sizeof(awoke_queue)`; the storage lies behind it in the same block. -/
def headSize : Nat := 32

/-- `alloc_size`: an `int`, whatever the `size_t` it is set to. -/
def allocSize (nodeSize nodeNr : Nat) : Int32 := Int32.ofNat (headSize + nodeSize * nodeNr)

/-- How many nodes lie inside a block of that size. -/
def room (nodeSize nodeNr : Nat) : Nat :=
  ((allocSize nodeSize nodeNr).toInt - headSize).toNat / nodeSize

/-- `awoke_queue_create`, with the size of a node; `none` is the null pointer it returns when the
block is refused, as one of a negative size is. -/
def createSized (nodeSize nodeNr : Nat) (flag : BitVec 16) : Option (Queue α) :=
  if (allocSize nodeSize nodeNr).toInt < 0 then none else some (create nodeNr flag)

/-- `awoke_queue_empty`. -/
def empty (q : Queue α) : Bool := q.curr + 1 == 0

/-- `awoke_queue_full`. -/
def full (q : Queue α) : Bool := q.curr + 1 == q.nodeNr

/-- `awoke_queue_size`. -/
def size (q : Queue α) : Int := q.curr + 1

/-- `awoke_queue_deq`: the code, what it stores through `u`, and the queue after. -/
def deq (q : Queue α) : ErrType × α × Queue α :=
  if q.empty then (.etEmpty, 0, q)
  else
    -- for (i=0; i<q->curr; i++), then the last slot is zeroed
    let cells := Cells.shiftDown q.queue 0 q.curr.toNat
    (.etOk, q.queue 0,
      { q with queue := Function.update cells q.curr 0, curr := q.curr - 1 })

/-- `awoke_queue_enq`. -/
def enq (q : Queue α) (u : α) : ErrType × Queue α :=
  if q.full && !maskExst q.flag flagRB then (.etFull, q)
  else
    let q := if q.full then q.deq.2.2 else q
    let curr := (q.curr + 1) % q.nodeNr
    (.etOk, { q with curr := curr, queue := Function.update q.queue curr u })

/-- `awoke_queue_delete`.  On a full queue the last copy reads one slot past the
storage; the slot it lands in is the one given up. -/
def delete (q : Queue α) (index : Int) : ErrType × Queue α :=
  if q.curr < index then (.etFull, q)
  else if q.empty then (.etEmpty, q)
  else
    let cells := Function.update q.queue index 0
    -- for (i=index; i<=q->curr; i++)
    let cells := Cells.shiftDown cells index (q.curr + 1 - index).toNat
    (.etOk, { q with queue := cells, curr := q.curr - 1 })

/-- `awoke_queue_insert_after`. -/
def insertAfter (q : Queue α) (index : Int) (u : α) : ErrType × Queue α :=
  if !maskExst q.flag flagIN then (.etParam, q)
  else if q.curr < index then (.etFull, q)
  else if q.full && !maskExst q.flag flagRB then (.etFull, q)
  else
    let idx := if q.full then index else index + 1
    let q := if q.full then q.deq.2.2 else q
    -- for (i=q->curr; i>(index-1); i--)
    let cells := Cells.shiftUp q.queue q.curr (q.curr - (index - 1)).toNat
    (.etOk, { q with queue := Function.update cells idx u, curr := (q.curr + 1) % q.nodeNr })

/-- `awoke_queue_get`. -/
def get (q : Queue α) (index : Int) : ErrType × α :=
  if q.empty then (.etEmpty, 0) else (.etOk, q.queue index)

/-- `awoke_queue_first`. -/
def first (q : Queue α) : ErrType × α :=
  if q.empty then (.etEmpty, 0) else (.etOk, q.queue 0)

/-- `awoke_queue_last`. -/
def last (q : Queue α) : ErrType × α :=
  if q.empty then (.etEmpty, 0) else (.etOk, q.queue q.curr)

/-- `awoke_queue_clean`: as many `deq` as there were elements. -/
def clean (q : Queue α) : Queue α := (fun q => q.deq.2.2)^[q.size.toNat] q

end Queue

end Awoke
