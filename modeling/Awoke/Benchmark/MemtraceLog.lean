/-
The log of memtrace, `memtrace.c`.

A log is a ring buffer over memory from `bget`.  It is exported with the places of its
head and tail and its length, and imported into a context of its own; the number of bytes
it holds is not exported.

The code of the ring buffer is not there, so its operations and the order in which it keeps
its bytes are parameters (`RingOps`).  The pool has memory for every log.
-/
import Awoke.Lib.Cells

namespace Awoke.Memtrace

/-! ### The ring buffer -/

/-- `struct awoke_ringbuffer`, with the `length` bytes `buf` points to. -/
structure AwokeRingbuffer where
  buf : List UInt8
  length : UInt32
  head : UInt32
  tail : UInt32
  count : UInt32
  deriving DecidableEq

/-- The functions of the ring buffer, and the places in `buf` of what one of a given
length, head, tail and count holds, the oldest byte first. -/
structure RingOps where
  init : List UInt8 → UInt32 → AwokeRingbuffer
  write : AwokeRingbuffer → List UInt8 → AwokeRingbuffer
  clear : AwokeRingbuffer → AwokeRingbuffer
  order : UInt32 → UInt32 → UInt32 → UInt32 → List Nat

variable (ops : RingOps)

/-- What a ring buffer holds. -/
def RingOps.content (rb : AwokeRingbuffer) : List UInt8 :=
  (ops.order rb.length rb.head rb.tail rb.count).map fun i => rb.buf.getD i 0

/-! ### Export and import -/

/-- The part of `struct memtrace_context` that is about the log. -/
structure LogContext where
  logBufsz : UInt32
  rbLog : AwokeRingbuffer
  deriving DecidableEq

/-- What `memtrace_log_export` writes: a `struct memtrace_export_log` and the bytes. -/
structure ExportLog where
  head : UInt32
  tail : UInt32
  size : UInt32
  logbuf : List UInt8

/-- `strncpy` of as many bytes as there are: from the first zero on there are zeros. -/
def strncpy (bs : List UInt8) : List UInt8 :=
  let text := bs.takeWhile (· ≠ 0)
  text ++ List.replicate (bs.length - text.length) 0

/-- `memtrace_log_init`, on what is in the memory that `bget` returns. -/
def memtraceLogInit (mem : Cells UInt8) (size : UInt32) : LogContext :=
  { logBufsz := size, rbLog := ops.init (Cells.slice mem 0 size.toNat) size }

/-- `memtrace_log_write`. -/
def memtraceLogWrite (ctx : LogContext) (str : List UInt8) : LogContext :=
  { ctx with rbLog := ops.write ctx.rbLog str }

/-- `memtrace_log_export`. -/
def memtraceLogExport (ctx : LogContext) : ExportLog :=
  { head := ctx.rbLog.head
    tail := ctx.rbLog.tail
    size := ctx.rbLog.length
    logbuf := strncpy (ctx.rbLog.buf.take ctx.logBufsz.toNat) }

/-- `memtrace_log_import`. -/
def memtraceLogImport (ctx : LogContext) (head : ExportLog) : LogContext :=
  { ctx with
    logBufsz := head.size
    rbLog :=
      { ctx.rbLog with
        buf := head.logbuf.take head.size.toNat
        length := head.size
        head := head.head
        tail := head.tail
        count := head.size } }

/-- What `memtrace_clean` does to the log. -/
def memtraceClean (ctx : LogContext) : LogContext :=
  { ctx with logBufsz := 0, rbLog := ops.clear ctx.rbLog }

/-- A write, or an export, a clean and an import of what was exported. -/
inductive LogOp
  | write (str : List UInt8)
  | cycle
  deriving DecidableEq

/-- One of them. -/
def logStep (ctx : LogContext) : LogOp → LogContext
  | .write str => memtraceLogWrite ops ctx str
  | .cycle => memtraceLogImport (memtraceClean ops ctx) (memtraceLogExport ctx)

end Awoke.Memtrace
