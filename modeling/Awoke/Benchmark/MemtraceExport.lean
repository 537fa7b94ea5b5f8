/-
The export of all tracers, `memtrace.c`.

An export begins with a head; then come a record for each tracer, then the parameters, and
the names last.  Three cursors go through the three areas.  The sizes of the areas are
computed from the same table by `total_param_size`, whose sum begins with whatever the
local variable holds.

The bytes of an event are copied from the variable that points to it, not from where it
points: what lies there is given with the export, and so are the unused bits of a record.
-/
import Awoke.Benchmark.Memtrace
import Awoke.Benchmark.MemtraceLog

namespace Awoke.Memtrace

/-! ### Sizes -/

/-- `node_param_size`; a node with events has a queue. -/
def nodeParamSize (node : Node) : UInt32 :=
  if node.type = typeCounter ∨ node.type = typeVariable then 4
  else if node.type = typeEvent ∨ node.type = typeCustomEvent then
    match node.param with
    | .sequence queue _ => queue.depth
    | _ => 0
  else 0

/-- `total_param_size`, with what `size` holds at the start. -/
def totalParamSize (ctx : Context) (size : UInt32) : UInt32 :=
  ctx.nodes.foldl (fun size node => size + nodeParamSize node) size

/-- `sizeof(struct memtrace_export_head)`. -/
def exportHeadSize : Nat := 16

/-- `sizeof(struct memtrace_export_node)`. -/
def exportNodeSize : Nat := 20

/-- `memtrace_get_export_size`. -/
def memtraceGetExportSize (ctx : Context) (size : UInt32) : UInt32 :=
  UInt32.ofNat exportHeadSize + UInt32.ofNat (ctx.ntracers * exportNodeSize) +
    totalParamSize ctx size + UInt32.ofNat (ctx.ntracers * nameSize)

/-! ### Writing -/

/-- The bytes of a word of four bytes, as `pkg_push_dwrd` pushes them. -/
def pushDwrd (x : UInt32) : List UInt8 :=
  [x.toUInt8, (x >>> 8).toUInt8, (x >>> 16).toUInt8, (x >>> 24).toUInt8]

/-- What lies in memory where the export copies from without having written there: the
unused bits of the `i`-th record, and the bytes from the variable that points to the `j`-th
event of the `i`-th node. -/
structure Stack where
  reserve : Nat → UInt8 × UInt8 × UInt8
  event : Nat → Nat → Cells UInt8

/-- The buffer and the three cursors. -/
structure Cursors where
  buf : Cells UInt8
  pos : Nat
  posName : Nat
  posParam : Nat

/-- The bytes of a `struct memtrace_export_node`. -/
def exportRecord (reserve : UInt8 × UInt8 × UInt8) (node : Node) (nameOffset paramOffset : Nat) :
    List UInt8 :=
  [node.type, reserve.1, reserve.2.1, reserve.2.2] ++ pushDwrd (UInt32.ofNat nameOffset) ++
    pushDwrd (UInt32.ofNat nameSize) ++ pushDwrd (UInt32.ofNat paramOffset) ++
    pushDwrd (nodeParamSize node)

/-- The bytes that are pushed for the parameter of a node: a number, or as many bytes as an
event has for each event in the queue. -/
def exportParam (event : Nat → Cells UInt8) (node : Node) : List UInt8 :=
  if node.type = typeCounter ∨ node.type = typeVariable then
    match node.param with
    | .number num => pushDwrd num
    | _ => []
  else if node.type = typeEvent ∨ node.type = typeCustomEvent then
    match node.param with
    | .sequence queue _ =>
        (List.range queue.items.length).flatMap fun j =>
          Cells.slice (event j) 0 queue.nodeSize.toNat
    | _ => []
  else []

/-- `node_export` of the `i`-th node. -/
def nodeExport (stack : Stack) (i : Nat) (node : Node) (c : Cursors) : Cursors :=
  let record := exportRecord (stack.reserve i) node c.posName c.posParam
  let param := exportParam (stack.event i) node
  let buf := Cells.write c.buf c.pos record
  let buf := Cells.write buf c.posParam param
  { buf := Cells.write buf c.posName (strncpy node.name.1)
    pos := c.pos + record.length
    posName := c.posName + nameSize
    posParam := c.posParam + param.length }

/-- The loop of `memtrace_export`, from the `i`-th node on. -/
def exportLoop (stack : Stack) : Nat → List Node → Cursors → Cursors
  | _, [], c => c
  | i, node :: nodes, c => exportLoop stack (i + 1) nodes (nodeExport stack i node c)

/-- Where `memtrace_export` begins: the head is written and the cursors are set. -/
def exportStart (ctx : Context) (size : UInt32) (buf : Cells UInt8) : Cursors :=
  let hashStart := exportHeadSize
  let paramStart := hashStart + exportNodeSize * ctx.ntracers
  let nameStart := paramStart + (totalParamSize ctx size).toNat
  { buf := Cells.write buf 0 (pushDwrd 0xBBCCCCBB ++ pushDwrd 0x00000001 ++
      pushDwrd (UInt32.ofNat ctx.root.length) ++ pushDwrd (UInt32.ofNat ctx.ntracers))
    pos := hashStart
    posName := nameStart
    posParam := paramStart }

/-- `memtrace_export`, as far as the buffer goes; the queues are empty afterwards. -/
def memtraceExport (ctx : Context) (stack : Stack) (size : UInt32) (buf : Cells UInt8) : Cursors :=
  exportLoop stack 0 ctx.nodes (exportStart ctx size buf)

end Awoke.Memtrace
