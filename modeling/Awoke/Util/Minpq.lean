/-
The priority queue, `awoke_minpq` in `awoke_queue.c`.

A binary min-heap in two parallel arrays that count from one: `p` the priorities and
`q` the values.  Order is by priority, or by a comparator on the values when one was
given.  A queue with flag `RES` grows when it is full and shrinks when it is mostly
empty, by copying both arrays.

Sizes and indices are natural numbers.  What the `int`s of the code make of them is added
in `insertInt` and `delminInt`, for a queue that is not resized: `capacity + 1` and the
`2k` of `minpq_sink` overflow, and the code goes on with what is no size and no index.
-/
import Awoke.Error
import Mathlib.Logic.Function.Basic

namespace Awoke

/-- How a value of the caller's lies in memory: `nodesize` bytes, and the value whose
bytes are all zero. -/
class Node (α : Type) extends Zero α where
  nodesize : Nat
  byte : α → Nat → UInt8

/-- `struct _awoke_minpq`.  `slots` is how many nodes were allocated behind `q` and `p`. -/
structure Minpq (α : Type) where
  nodeNr : Nat
  capacity : Nat
  slots : Nat
  p : Nat → Int32
  q : Nat → α
  flags : BitVec 16
  comparator : Option (α → α → Bool)

namespace Minpq

variable {α : Type}

/-- `AWOKE_MINPQ_F_CDC`: custom comparator. -/
def flagCDC : BitVec 16 := 0x0001

/-- `AWOKE_MINPQ_F_RES`: resize. -/
def flagRES : BitVec 16 := 0x0002

/-- `awoke_minpq_full`. -/
def full (q : Minpq α) : Bool := q.capacity == q.nodeNr

/-- `awoke_minpq_empty`. -/
def empty (q : Minpq α) : Bool := q.nodeNr == 0

/-! ### The heap -/

/-- `minpq_greater`. -/
def greater (q : Minpq α) (i j : Nat) : Bool :=
  match q.comparator with
  | none => decide (q.p j < q.p i)
  | some comparator => comparator (q.q i) (q.q j)

/-- Write one position of both arrays. -/
def setNode (q : Minpq α) (i : Nat) (u : α) (p : Int32) : Minpq α :=
  { q with p := Function.update q.p i p, q := Function.update q.q i u }

/-- `minpq_swap`. -/
def swap (q : Minpq α) (i j : Nat) : Minpq α :=
  (q.setNode i (q.q j) (q.p j)).setNode j (q.q i) (q.p i)

/-- The child `j` that `minpq_sink` looks at from `k`. -/
def sinkChild (q : Minpq α) (k : Nat) : Nat :=
  if 2 * k < q.nodeNr ∧ q.greater (2 * k) (2 * k + 1) = true then 2 * k + 1 else 2 * k

theorem lt_sinkChild (q : Minpq α) {k : Nat} (hk : 0 < k) : k < q.sinkChild k := by
  unfold sinkChild
  split <;> omega

/-- `minpq_sink`, from a position of the heap. -/
def sink (q : Minpq α) (k : Nat) (hk : 0 < k) : Minpq α :=
  if 2 * k ≤ q.nodeNr then
    if q.greater k (q.sinkChild k) = true then
      sink (q.swap k (q.sinkChild k)) (q.sinkChild k) (Nat.zero_lt_of_lt (q.lt_sinkChild hk))
    else q
  else q
termination_by q.nodeNr - k
decreasing_by
  have := q.lt_sinkChild hk
  simp only [swap, setNode]
  omega

/-- `minpq_swim`. -/
def swim (q : Minpq α) (k : Nat) : Minpq α :=
  if 1 < k ∧ q.greater (k / 2) k = true then swim (q.swap k (k / 2)) (k / 2) else q
termination_by k

/-! ### Resizing -/

variable [Node α]

/-- The byte at offset `a` of the value array. -/
def valueByte (q : Minpq α) (a : Nat) : Nat :=
  (Node.byte (q.q (a / Node.nodesize α)) (a % Node.nodesize α)).toNat

/-- The `int` that lies at position `i` of an array of them, read from the bytes of the
value array, low byte first. -/
def valueInt (q : Minpq α) (i : Nat) : Int32 :=
  Int32.ofNat (q.valueByte (4 * i) + 2 ^ 8 * q.valueByte (4 * i + 1) +
    2 ^ 16 * q.valueByte (4 * i + 2) + 2 ^ 24 * q.valueByte (4 * i + 3))

/-- `awoke_minpq_resize`.  The new priorities are copied from `q->q`, as the values are;
there is no result when that copy reads past the values. -/
def resize (q : Minpq α) (capacity : Nat) : Option (ErrType × Minpq α) :=
  if capacity ≤ q.nodeNr then some (.etParam, q)
  else if Node.nodesize α * q.slots < 4 * (q.nodeNr + 1) then none
  else some (.etOk, { q with
    q := fun i => if i ≤ q.nodeNr then q.q i else 0
    p := fun i => if i ≤ q.nodeNr then q.valueInt i else 0
    slots := capacity + 1
    capacity := capacity })

/-- What `awoke_minpq_insert` does about a full queue; `none` inside is a refusal. -/
def makeRoom (q : Minpq α) : Option (Option (Minpq α)) :=
  if q.full then
    if maskExst q.flags flagRES then
      let q := if q.capacity = 0 then { q with capacity := 1 } else q
      (q.resize (q.capacity * 2)).map fun r => some r.2
    else some none
  else some (some q)

/-- What `awoke_minpq_delmin` does about a queue that is mostly empty. -/
def shrink (q : Minpq α) : Option (Minpq α) :=
  if 0 < q.nodeNr ∧ q.nodeNr = (q.capacity - 1) / 4 ∧ maskExst q.flags flagRES = true then
    (q.resize (q.capacity / 2)).map fun r => r.2
  else some q

/-! ### The calls -/

/-- `awoke_minpq_create`; `none` is the null pointer it returns on bad arguments. -/
def create (capacity : Int) (comparator : Option (α → α → Bool)) (flags : BitVec 16) :
    Option (Minpq α) :=
  if Node.nodesize α = 0 then none
  else if capacity < 0 then none
  else
    let flags0 : BitVec 16 := if capacity = 0 then maskPush 0 flagRES else 0
    let flags0 := if comparator.isSome then maskPush flags0 flagCDC else flags0
    some {
      nodeNr := 0
      capacity := capacity.toNat
      slots := if capacity = 0 then 1 else capacity.toNat + 1
      p := fun _ => 0
      q := fun _ => 0
      flags := maskPush flags0 flags
      comparator := comparator }

/-- `awoke_minpq_init`, of a queue whose memory is zero. -/
def init (capacity : Nat) (comparator : Option (α → α → Bool)) (flags : BitVec 16) : Minpq α :=
  let flags0 : BitVec 16 := if capacity = 0 then maskPush 0 flagRES else 0
  let flags0 := if comparator.isSome then maskPush flags0 flagCDC else flags0
  { nodeNr := 0
    capacity := capacity
    slots := if capacity = 0 then 1 else capacity + 1
    p := fun _ => 0
    q := fun _ => 0
    flags := maskPush flags0 flags
    comparator := comparator }

/-- `awoke_minpq_get`: the code, and the pair it stores through `u` and `p`. -/
def get (q : Minpq α) (index : Nat) : ErrType × Option (α × Int32) :=
  if q.empty then (.etEmpty, none) else (.etOk, some (q.q index, q.p index))

/-- What `awoke_minpq_insert` does once there is room. -/
def store (q : Minpq α) (u : α) (p : Int32) : Minpq α :=
  swim { q.setNode (q.nodeNr + 1) u p with nodeNr := q.nodeNr + 1 } (q.nodeNr + 1)

/-- `awoke_minpq_insert`. -/
def insert (q : Minpq α) (u : α) (p : Int32) : Option (ErrType × Minpq α) := do
  match ← q.makeRoom with
  | none => return (.etFull, q)
  | some q => return (.etOk, q.store u p)

/-- `awoke_minpq_delmin` up to `minpq_sink`: the last node takes the place of the root. -/
def takeRoot (q : Minpq α) : Minpq α :=
  sink { q.setNode 1 (q.q q.nodeNr) (q.p q.nodeNr) with nodeNr := q.nodeNr - 1 } 1 Nat.one_pos

/-- `awoke_minpq_delmin` up to the question of shrinking. -/
def removeRoot (q : Minpq α) : Minpq α :=
  { q.takeRoot with p := Function.update q.takeRoot.p (q.takeRoot.nodeNr + 1) 0 }

/-- `awoke_minpq_delmin`: the code, the pair it stores through `u` and `p`, and the
queue after. -/
def delmin (q : Minpq α) : Option (ErrType × Option (α × Int32) × Minpq α) :=
  if q.empty then some (.etEmpty, none, q)
  else do
    let r ← q.removeRoot.shrink
    return (.etOk, some (q.q 1, q.p 1), { r with q := Function.update r.q (r.nodeNr + 1) 0 })

/-- `awoke_minpq_del` up to `minpq_sink`: the last node takes the place of the one at
`index`. -/
def takeNode (q : Minpq α) (index : Nat) (h : 0 < index) : Minpq α :=
  sink { q.setNode index (q.q q.nodeNr) (q.p q.nodeNr) with nodeNr := q.nodeNr - 1 } index h

/-- `awoke_minpq_del` up to the question of shrinking. -/
def removeNode (q : Minpq α) (index : Nat) (h : 0 < index) : Minpq α :=
  let r := q.takeNode index h
  { r with p := Function.update r.p (r.nodeNr + 1) 0 }

/-- `awoke_minpq_del`, with the answers of `awoke_minpq_delmin`. -/
def del (q : Minpq α) (index : Nat) : Option (ErrType × Option (α × Int32) × Minpq α) :=
  if q.empty then some (.etEmpty, none, q)
  else if h : 0 < index then do
    let r ← (q.removeNode index h).shrink
    return (.etOk, some (q.q index, q.p index),
      { r with q := Function.update r.q (r.nodeNr + 1) 0 })
  else some (.etParam, none, q)

/-! ### The integers of the code -/

/-- There is memory for both arrays: `allocnr` is an `int`, and the bytes are a `size_t`.  Else
the request for them fails, or comes to fewer bytes, and nobody looks. -/
def Allocated (α : Type) [Node α] (capacity : Nat) : Prop :=
  capacity + 1 < 2 ^ 31 ∧ Node.nodesize α * (capacity + 1) < 2 ^ 64

instance (capacity : Nat) : Decidable (Allocated α capacity) :=
  inferInstanceAs (Decidable (_ ∧ _))

/-- `awoke_minpq_insert`: a node goes into arrays that are there. -/
def insertInt (q : Minpq α) (u : α) (p : Int32) : Option (ErrType × Minpq α) :=
  if q.full = true ∨ Allocated α q.capacity then q.insert u p else none

/-- `minpq_sink`, with no result where `2*k` overflows. -/
def sinkInt (q : Minpq α) (k : Nat) (hk : 0 < k) : Option (Minpq α) :=
  if 2 ^ 31 ≤ 2 * k then none
  else if 2 * k ≤ q.nodeNr then
    if q.greater k (q.sinkChild k) = true then
      sinkInt (q.swap k (q.sinkChild k)) (q.sinkChild k) (Nat.zero_lt_of_lt (q.lt_sinkChild hk))
    else some q
  else some q
termination_by q.nodeNr - k
decreasing_by
  have := q.lt_sinkChild hk
  simp only [swap, setNode]
  omega

/-- `awoke_minpq_delmin`, with that of its `minpq_sink`. -/
def delminInt (q : Minpq α) : Option (ErrType × Option (α × Int32) × Minpq α) :=
  if q.empty then q.delmin
  else
    (sinkInt { q.setNode 1 (q.q q.nodeNr) (q.p q.nodeNr) with nodeNr := q.nodeNr - 1 } 1
      Nat.one_pos).bind fun _ => q.delmin

end Minpq

end Awoke
