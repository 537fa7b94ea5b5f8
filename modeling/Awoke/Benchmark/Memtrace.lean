/-
The tracers of memtrace, `memtrace.c`.

A tracer has a name, a type and a parameter.  The tracers stand in a table of `hashsize`
slots by the hash of their names; a slot is a node of its own, and begins a list of the
nodes that came later.  Nothing that `bget` returns is cleared, so a slot begins with the
bytes that were there, and so does the name of a node behind the bytes copied into it.

`bget` always has memory.  The pool is smaller than `2^32` bytes, so the number of tracers
does not wrap.

The code of the ring queue is not there, so its functions are a parameter (`RingqOps`).

The lines that a call prints go through `awoke_logm`.  Two of them have no result where they are
shown: `bk_err("%s exist")` comes without its argument, and an event's size is given to `%s`.
-/
import Awoke.Error
import Awoke.Lib.Cells
import Awoke.Util.LogLine
import Awoke.Util.Package

namespace Awoke.Memtrace

open LogLine (Logs ascii percentD)

/-! ### Names -/

/-- A string: the bytes before its zero. -/
structure CString where
  bytes : List UInt8
  nonzero : 0 ∉ bytes
  deriving DecidableEq

/-- `MEMTRACE_NAME_SIZE`. -/
def nameSize : Nat := 16

/-- The sixteen bytes of a name in memory. -/
abbrev NodeName := { bytes : List UInt8 // bytes.length = nameSize }

/-- The bytes before the first zero. -/
def text (bytes : List UInt8) : List UInt8 := bytes.takeWhile (· ≠ 0)

/-- `strncmp` of a name in memory and a string finds no difference. -/
def strncmpSame (node : NodeName) (name : CString) : Bool :=
  text node.1 == name.bytes.take nameSize

/-- `memcpy` of the first bytes of a string over a name in memory. -/
def copyName (node : NodeName) (name : CString) : NodeName :=
  ⟨name.bytes.take nameSize ++ node.1.drop name.bytes.length, by
    have h := node.2
    rw [List.length_append, List.length_take, List.length_drop]
    omega⟩

/-- `bkdrhash`; a `char` has a sign. -/
def bkdrhash (str : CString) : UInt32 :=
  str.bytes.foldl (fun hash c => hash * 131 + c.toInt8.toInt32.toUInt32) 0 &&& 0x7FFFFFFF

/-! ### Nodes -/

/-- `struct awoke_ringq`, with the elements it holds, the oldest first. -/
structure Ringq where
  depth : UInt32 := 0
  nodeSize : UInt32 := 0
  items : List (List UInt8) := []
  deriving DecidableEq

/-- `awoke_ringq_init` of `length` elements of `size` bytes, `awoke_ringq_full`, and
`awoke_ringq_deq` and `awoke_ringq_enq` of one element, as far as the queue goes. -/
structure RingqOps where
  init : UInt32 → UInt32 → Ringq
  full : Ringq → Bool
  deq : Ringq → Ringq
  enq : Ringq → Cells UInt8 → Ringq

/-- What `param` of a node points to: a number; a queue, and whether it has a buffer; the
buffer of a log; or wherever the bytes that were there before say, which may be nowhere. -/
inductive Param
  | number (num : UInt32)
  | sequence (queue : Ringq) (buffer : Bool)
  | buffer
  | stale (null : Bool)
  deriving DecidableEq

/-- `memtrace_node_e`; a node has any byte as its type. -/
def typeNone : UInt8 := 0
def typeCounter : UInt8 := 1
def typeVariable : UInt8 := 2
def typeEvent : UInt8 := 3
def typeCustomEvent : UInt8 := 4
def typeLog : UInt8 := 5

/-- `struct memtrace_node`, without its list. -/
structure Node where
  name : NodeName
  type : UInt8
  param : Param
  deriving DecidableEq

/-- The memory of a node before anything is written to it. -/
structure RawNode where
  name : NodeName
  type : UInt8
  null : Bool
  deriving DecidableEq

/-- A node of the bytes that were there. -/
def RawNode.node (mem : RawNode) : Node :=
  { name := mem.name, type := mem.type, param := .stale mem.null }

/-- A slot of the table: its node and the list that begins there. -/
structure Slot where
  node : Node
  list : List Node
  deriving DecidableEq

/-- The nodes of a slot, its own first. -/
def Slot.chain (slot : Slot) : List Node := slot.node :: slot.list

/-- The nodes of a slot in use. -/
def Slot.live (slot : Slot) : List Node := if slot.node.type = typeNone then [] else slot.chain

/-- The part of `struct memtrace_context` that is about tracers; `hashsize` is the length of
`root`. -/
structure Context where
  root : List Slot
  ntracers : Nat
  deriving DecidableEq

/-- The nodes in the order in which the loops over the table visit them. -/
def Context.nodes (ctx : Context) : List Node := ctx.root.flatMap Slot.live

/-- Which node of a slot: `0` is the slot's own, and then come those of its list. -/
structure Place where
  slot : Nat
  pos : Nat
  deriving DecidableEq

/-- `memtrace_init`, on what is in the memory of the table. -/
def memtraceInit (mem : List RawNode) : Context :=
  { root := mem.map fun raw => { node := raw.node, list := [] }, ntracers := 0 }

/-- `bkdrhash(name) % hashsize`. -/
def Context.index (ctx : Context) (name : CString) : Nat :=
  (bkdrhash name).toNat % ctx.root.length

/-- `memtrace_node_find`. -/
def memtraceNodeFind (ctx : Context) (name : CString) : Option Place :=
  (ctx.root[ctx.index name]?).bind fun slot =>
    if strncmpSame slot.node.name name then
      some ⟨ctx.index name, 0⟩
    else
      (slot.list.findIdx? fun node => strncmpSame node.name name).map fun k =>
        ⟨ctx.index name, k + 1⟩

/-- `memtrace_node_init`. -/
def memtraceNodeInit (node : Node) (name : CString) (type : UInt8) : Node :=
  { name := copyName node.name name
    type := type
    param :=
      if type = typeCounter ∨ type = typeVariable then .number 0
      else if type = typeEvent ∨ type = typeCustomEvent then .sequence {} false
      else if type = typeLog then .buffer
      else node.param }

/-- A new tracer in its slot: at the end of the list, in the memory that `bget` returns,
or as the slot's own node if that is not in use. -/
def Slot.add (name : CString) (type : UInt32) (mem : RawNode) (slot : Slot) : Slot :=
  if slot.node.type ≠ typeNone then
    { slot with list := slot.list ++ [memtraceNodeInit mem.node name type.toUInt8] }
  else
    { slot with node := memtraceNodeInit slot.node name type.toUInt8 }

/-! ### The log -/

/-- `LOG_M_BK`. -/
def logMBK : BitVec 32 := 0x100

/-- A line of `memtrace_tracer_add`. -/
def inTracerAdd (line : Int) : LogLine.Place :=
  { func := { bytes := ascii "memtrace_tracer_add", no_nul := by decide }, line := line }

/-- A line of `memtrace_tracer_set_queue`. -/
def inTracerSetQueue (line : Int) : LogLine.Place :=
  { func := { bytes := ascii "memtrace_tracer_set_queue", no_nul := by decide }, line := line }

/-- A line of `memtrace_record`. -/
def inRecord (line : Int) : LogLine.Place :=
  { func := { bytes := ascii "memtrace_record", no_nul := by decide }, line := line }

/-- `bk_err`; there is no message where an argument is missing or is no string. -/
def bkErr (logs : Logs) (place : LogLine.Place) (message : Option (List UInt8)) : Option Unit :=
  logs.printm .logErr logMBK place message

/-- `bk_debug`. -/
def bkDebug (logs : Logs) (place : LogLine.Place) (message : List UInt8) : Option Unit :=
  logs.printm .logDbg logMBK place (some message)

/-- What is said of a name that is not there. -/
def notFind (name : CString) : List UInt8 := name.bytes ++ ascii " not find"

/-- Say that a tracer is added: to the list of its slot, or as the slot's own node. -/
def debugAdded (logs : Logs) (ctx : Context) (name : CString) : Option Unit :=
  let front := ascii "tracer[" ++ percentD (ctx.index name) ++ ascii "] " ++ name.bytes
  if (ctx.root[ctx.index name]?).any fun slot => slot.node.type ≠ typeNone then
    bkDebug logs (inTracerAdd 140) (front ++ ascii " append")
  else bkDebug logs (inTracerAdd 146) (front ++ ascii " add")

/-! ### Adding -/

/-- `memtrace_tracer_add`. -/
def memtraceTracerAdd (logs : Logs) (ctx : Context) (name : CString) (type : UInt32)
    (mem : RawNode) : Option (Context × ErrType) :=
  if (memtraceNodeFind ctx name).isSome then do
    bkErr logs (inTracerAdd 127) none
    return (ctx, .errExist)
  else do
    debugAdded logs ctx name
    return ({ root := ctx.root.modify (ctx.index name) (Slot.add name type mem)
              ntracers := ctx.ntracers + 1 }, .etOk)

/-! ### Recording -/

/-- The node at a place. -/
def Context.node? (ctx : Context) (p : Place) : Option Node :=
  (ctx.root[p.slot]?).bind fun slot => (slot.node :: slot.list)[p.pos]?

/-- Write to the parameter of a node of a slot. -/
def Slot.setParam (pos : Nat) (param : Param) (slot : Slot) : Slot :=
  match pos with
  | 0 => { slot with node := { slot.node with param := param } }
  | k + 1 => { slot with list := slot.list.modify k fun node => { node with param := param } }

/-- Write to the parameter of the node at a place. -/
def Context.setParam (ctx : Context) (p : Place) (param : Param) : Context :=
  { ctx with root := ctx.root.modify p.slot (Slot.setParam p.pos param) }

/-- What `memtrace_record` writes to a parameter.  A node of a type that has none is left as
it is; a parameter that does not go with the type is not there to be written to. -/
def recordParam (ops : RingqOps) (node : Node) (data : Cells UInt8) : Option Param :=
  if node.type = typeCounter then
    match node.param with
    | .number num => some (.number (num + 1))
    | _ => none
  else if node.type = typeVariable then
    match node.param with
    | .number _ => some (.number (pullDwrd data 0))
    | _ => none
  else if node.type = typeEvent ∨ node.type = typeCustomEvent then
    match node.param with
    | .sequence queue buffer =>
        some (.sequence (ops.enq (if ops.full queue then ops.deq queue else queue) data) buffer)
    | _ => none
  else
    some node.param

/-- `memtrace_record`. -/
def memtraceRecord (logs : Logs) (ops : RingqOps) (ctx : Context) (name : CString)
    (data : Cells UInt8) : Option (Context × ErrType) :=
  match memtraceNodeFind ctx name with
  | none => do
      bkErr logs (inRecord 217) (some (notFind name))
      return (ctx, .errNotfind)
  | some p =>
      (ctx.node? p).bind fun node =>
        (recordParam ops node data).map fun param => (ctx.setParam p param, .etOk)

/-- What `memtrace_tracer_set_queue` makes of a parameter, and the code it returns. -/
def queueParam (logs : Logs) (ops : RingqOps) (node : Node) (name : CString)
    (size length : UInt32) : Option (Param × ErrType) :=
  if node.param = .stale true then do
    bkErr logs (inTracerSetQueue 180) (some (notFind name))
    return (node.param, .errNotfind)
  else if node.type ≠ typeEvent ∧ node.type ≠ typeCustomEvent then
    some (node.param, .errNotsupport)
  else
    match node.param with
    | .sequence queue buffer =>
        if buffer then do
          bkErr logs (inTracerSetQueue 190) (some (name.bytes ++ ascii "'s queue exist"))
          return (.sequence queue buffer, .errParam)
        else if node.type = typeEvent ∧ size ≠ 8 then do
          bkErr logs (inTracerSetQueue 194) none
          return (.sequence queue buffer, .errParam)
        else do
          bkDebug logs (inTracerSetQueue 204) (name.bytes ++ ascii " create queue:" ++
            percentD size.toInt32.toInt ++ ascii " " ++ percentD length.toInt32.toInt)
          return (.sequence (ops.init size length) true, .etOk)
    | _ => none

/-- `memtrace_tracer_set_queue`. -/
def memtraceTracerSetQueue (logs : Logs) (ops : RingqOps) (ctx : Context) (name : CString)
    (size length : UInt32) : Option (Context × ErrType) :=
  match memtraceNodeFind ctx name with
  | none => do
      bkErr logs (inTracerSetQueue 180) (some (notFind name))
      return (ctx, .errNotfind)
  | some p =>
      (ctx.node? p).bind fun node =>
        (queueParam logs ops node name size length).map fun r => (ctx.setParam p r.1, r.2)

end Awoke.Memtrace
