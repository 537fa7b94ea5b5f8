/-
The messages of a stream, `bk_iostream` in `bk_mblock.c`, and the array queue under them.

The queue keeps nodes of some bytes in memory that the caller supplies.  Its numbers are of type
`unsigned int` and start as in `awoke_fifo`; to write outside of the memory, or to take a
remainder by zero, has no result.

A message is two pointers and a length, with four bytes of padding behind them: 24 bytes, of
which 20 are its fields.  What is handed out is copied to a variable that is not set before.
-/
import Awoke.Error
import Awoke.Lib.Cells

namespace Awoke.Mblock

/-- `awoke_fifo` over bytes: what `q` points to, and how much of it there is. -/
structure AwokeFifo where
  q : Cells UInt8
  room : Nat
  flags : BitVec 16
  nodesize : Nat
  head : UInt32
  tail : UInt32
  nodeNr : UInt32
  capacity : UInt32

/-- `AWOKE_FIFO_F_RBK`. -/
def flagRBK : BitVec 16 := 0x0004

/-- `awoke_afifo_create`; it returns nothing, also for arguments it does not take. -/
def awokeAfifoCreate (addr : Cells UInt8) (room : Nat) (nodesize capacity : Int)
    (f : AwokeFifo) : AwokeFifo :=
  if nodesize ≤ 0 then f
  else if capacity < 0 then f
  else
    { q := addr
      room := room
      flags := maskPush f.flags flagRBK
      nodesize := nodesize.toNat
      head := 0
      tail := 0xFFFFFFFF
      nodeNr := 0
      capacity := UInt32.ofNat capacity.toNat }

namespace AwokeFifo

variable (f : AwokeFifo)

/-- `awoke_fifo_empty`. -/
def empty : Bool := f.nodeNr == 0

/-- `awoke_fifo_full`. -/
def full : Bool := f.nodeNr == f.capacity

/-- The number after `n`. -/
def next (n : UInt32) : Option UInt32 :=
  if f.capacity = 0 then none else some ((n + 1) % f.capacity)

/-- Some bytes written to node `n`. -/
def store (n : UInt32) (bytes : List UInt8) : Option AwokeFifo :=
  if n.toNat * f.nodesize + bytes.length ≤ f.room then
    some { f with q := Cells.write f.q (n.toNat * f.nodesize : Nat) bytes }
  else none

/-- What `awoke_afifo_enqueue` does about a full queue; `none` inside is a refusal. -/
def makeRoom : Option (Option AwokeFifo) :=
  if f.full then
    if maskExst f.flags flagRBK then do
      let f' ← f.store f.head (List.replicate f.nodesize 0)
      let head ← f'.next f'.head
      return some { f' with head := head, nodeNr := f'.nodeNr - 1 }
    else some none
  else some (some f)

/-- `awoke_afifo_enqueue` of the bytes at `u`. -/
def awokeAfifoEnqueue (u : Cells UInt8) : Option (ErrType × AwokeFifo) := do
  match ← f.makeRoom with
  | none => return (.etFull, f)
  | some f =>
      let tail ← f.next f.tail
      let f' ← { f with tail := tail }.store tail (Cells.slice u 0 f.nodesize)
      return (.etOk, { f' with nodeNr := f'.nodeNr + 1 })

/-- `awoke_fifo_dequeue` to `n` bytes at `u`. -/
def awokeFifoDequeue (u : Cells UInt8) (n : Nat) : Option (ErrType × Cells UInt8 × AwokeFifo) :=
  if f.empty then some (.etEmpty, u, f)
  else if n < f.nodesize then none
  else do
    let bytes := Cells.slice f.q (f.head.toNat * f.nodesize : Nat) f.nodesize
    let head ← f.next f.head
    return (.etOk, Cells.write u 0 bytes, { f with head := head, nodeNr := f.nodeNr - 1 })

theorem dequeue_nodeNr {u u' : Cells UInt8} {n : Nat} {err : ErrType} {f' : AwokeFifo}
    (hfilled : f.empty = false) (h : f.awokeFifoDequeue u n = some (err, u', f')) :
    f'.nodeNr.toNat + 1 = f.nodeNr.toNat := by
  have hne : f.nodeNr ≠ 0 := by simpa [empty] using hfilled
  have hpos : 1 ≤ f.nodeNr.toNat := Nat.pos_of_ne_zero fun hzero => hne (UInt32.toNat_inj.mp hzero)
  unfold awokeFifoDequeue at h
  rw [hfilled, if_neg Bool.false_ne_true] at h
  split at h
  · exact nomatch h
  obtain ⟨head, -, h⟩ := Option.bind_eq_some_iff.mp h
  obtain rfl := (Prod.mk.inj (Prod.mk.inj (Option.some_injective _ h)).2).2
  show (f.nodeNr - 1).toNat + 1 = _
  have hle : 1 ≤ f.nodeNr := UInt32.le_iff_toNat_le.mpr hpos
  rw [UInt32.toNat_sub_of_le _ _ hle, UInt32.toNat_one]
  omega

end AwokeFifo

/-! ### The stream -/

/-- `sizeof(struct bk_iostream_msg)`. -/
def msgSize : Nat := 24

/-- The fields of a message. -/
def fields (msg : Cells UInt8) : List UInt8 := Cells.slice msg 0 20

/-- `bk_iostream_msg_init`, for a buffer of `size` bytes. -/
def bkIostreamMsgInit (message : AwokeFifo) (buf : Cells UInt8) (nr size : Nat) : AwokeFifo :=
  awokeAfifoCreate buf size nr size message

/-- `bk_iostream_msg_add`. -/
def bkIostreamMsgAdd (message : AwokeFifo) (msg : Cells UInt8) : Option AwokeFifo :=
  (message.awokeAfifoEnqueue msg).map Prod.snd

/-- `xilspi_io_sync`: the messages it takes from the queue, with what lies in `msg`. -/
def xilspiIoSync (message : AwokeFifo) (msg : Cells UInt8) : Option (List (Cells UInt8)) :=
  if _hempty : message.empty then some []
  else
    match _hdequeue : message.awokeFifoDequeue msg msgSize with
    | none => none
    | some (_, msg, message) => (xilspiIoSync message msg).map (msg :: ·)
termination_by message.nodeNr.toNat
decreasing_by
  have := AwokeFifo.dequeue_nodeNr _ (Bool.not_eq_true _ ▸ _hempty) _hdequeue
  omega

/-- A queue made ready, messages added to it, and what `bk_iostream_msg_sync` hands out. -/
def handedOut (message : AwokeFifo) (buf : Cells UInt8) (nr size : Nat)
    (msgs : List (Cells UInt8)) (msg : Cells UInt8) : Option (List (Cells UInt8)) :=
  (msgs.foldlM bkIostreamMsgAdd (bkIostreamMsgInit message buf nr size)).bind fun message =>
    xilspiIoSync message msg

end Awoke.Mblock
