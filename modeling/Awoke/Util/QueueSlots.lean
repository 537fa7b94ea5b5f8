/-
The slots that the queue's operations touch, `awoke_queue.c`.

`Queue` says what the slots hold after each call; here each call is the list of its `memcpy` and
`memset`, in the order of the code.
-/
import Awoke.Util.Queue
import Awoke.Lib.CellOps

namespace Awoke.Queue

variable {α : Type} [Zero α]

/-- The accesses of `awoke_queue_deq`: the front is read, the others move down, and the last
slot is zeroed. -/
def deqOps (q : Queue α) : List (Cells.Op α) :=
  if q.empty then []
  else .read 0 1 :: (Cells.downOps 0 q.curr.toNat ++ [.fill q.curr 1 0])

/-- The accesses of `awoke_queue_enq`. -/
def enqOps (q : Queue α) (u : α) : List (Cells.Op α) :=
  if q.full && !maskExst q.flag flagRB then []
  else
    let front := if q.full then q.deqOps else []
    let q := if q.full then q.deq.2.2 else q
    front ++ [.write ((q.curr + 1) % q.nodeNr) [u]]

/-- The accesses of `awoke_queue_delete`: the slot is zeroed, and from it to `curr` each slot
takes what is in the next. -/
def deleteOps (q : Queue α) (index : Int) : List (Cells.Op α) :=
  if q.curr < index then []
  else if q.empty then []
  else .fill index 1 0 :: Cells.downOps index (q.curr + 1 - index).toNat

/-- The accesses of `awoke_queue_insert_after`: the slots from `curr` down to `index` move up,
and the new element goes to its place. -/
def insertAfterOps (q : Queue α) (index : Int) (u : α) : List (Cells.Op α) :=
  if !maskExst q.flag flagIN then []
  else if q.curr < index then []
  else if q.full && !maskExst q.flag flagRB then []
  else
    let idx := if q.full then index else index + 1
    let front := if q.full then q.deqOps else []
    let q := if q.full then q.deq.2.2 else q
    front ++ Cells.upOps q.curr (q.curr - (index - 1)).toNat ++ [.write idx [u]]

/-- The accesses of as many `awoke_queue_deq`. -/
def deqsOps (q : Queue α) : Nat → List (Cells.Op α)
  | 0 => []
  | n + 1 => q.deqOps ++ deqsOps q.deq.2.2 n

/-- The accesses of `awoke_queue_clean`. -/
def cleanOps (q : Queue α) : List (Cells.Op α) := q.deqsOps q.size.toNat

/-- The calls that move elements; an index is any the caller can name, down to the -1 behind
which `awoke_queue_insert_after` puts a new front. -/
inductive SlotCall (α : Type)
  | enq (u : α)
  | deq
  | clean
  | delete (index : Nat)
  | insertAfter (index : { i : Int // -1 ≤ i }) (u : α)

/-- The queue after a call, and what it touched. -/
def slotCall (q : Queue α) : SlotCall α → Queue α × List (Cells.Op α)
  | .enq u => ((q.enq u).2, q.enqOps u)
  | .deq => (q.deq.2.2, q.deqOps)
  | .clean => (q.clean, q.cleanOps)
  | .delete index => ((q.delete index).2, q.deleteOps index)
  | .insertAfter index u => ((q.insertAfter index u).2, q.insertAfterOps index u)

end Awoke.Queue
