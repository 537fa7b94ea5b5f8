/-
The SPI flash driver and its transfers, `qe_spi_flash.c`.

Here the driver is the same as with the ideal chip, and what is at the other end of the bus is
left open: a transfer comes to nothing, or to some bytes that the chip sends.  Everything that is
sent is kept in a log, with the step of the driver that sends it, and so is the message about an
address that is out of bound.

`spiflash_write_enable` returns a variable that it does not always set, and looks at another one;
what lies there comes from the bus as well.  The buffer is memory without an end.
-/
import Awoke.Benchmark.SpiFlash
import Awoke.Lib.Cells

namespace Awoke.Qe

/-- A value of type `qe_err_t`; a variable that was not set may hold any. -/
inductive Ret
  | code (e : QeErr)
  | other (n : Int32)
  deriving DecidableEq

/-- `qe_ok`. -/
abbrev qeOk : Ret := .code .qeOk

/-! ### The bus -/

/-- The step of the driver that a transfer is for.  What comes of the latch is not always looked
at. -/
inductive Role
  | latch (en checked : Bool)
  | status
  | page
  | firstWord
  | word
  | erase
  | chipErase
  deriving DecidableEq

/-- A transfer, with the first byte that is received unless its count is zero; or the message
about an address. -/
inductive Event
  | transfer (role : Role) (sent : List UInt8) (recv : Option UInt8)
  | outOfBound
  deriving DecidableEq

/-- What has happened. -/
abbrev Log := List Event

/-- What is at the other end, and what lies in `ret` and `sr` before they are set. -/
structure Bus where
  answer : Log → List UInt8 → Option UInt8
  stale : Log → Ret × UInt8

namespace Bus

variable (bus : Bus) (flash : SpiflashDevice)

/-- `qe_spi_transfer`. -/
def transfer (log : Log) (role : Role) (sent : List UInt8) : Option UInt8 × Log :=
  (bus.answer log sent, log ++ [.transfer role sent (bus.answer log sent)])

/-- `spiflash_read_status`: its code, and `status` afterwards. -/
def spiflashReadStatus (log : Log) (status : UInt8) : (Ret × UInt8) × Log :=
  let (n, log) := bus.transfer log .status [cmdReadSr]
  match n with
  | none => ((qeOk, status), log)
  | some status => ((qeOk, status &&& ~~~srBusy), log)

/-- `spiflash_wait_busy`.  Its loop ends after its first turn, because `spiflash_read_status` takes
the busy bit out of every status. -/
def spiflashWaitBusy (log : Log) : Ret × Log :=
  let ((ret, _), log) := bus.spiflashReadStatus log 0
  (ret, log)

/-- `spiflash_write_enable`. -/
def spiflashWriteEnable (log : Log) (en checked : Bool) : Ret × Log :=
  let stale := bus.stale log
  let (n, log) := bus.transfer log (.latch en checked)
    [if en then cmdWriteEnable else cmdWriteDisable]
  let ((ret, sr), log) := if n.isSome then bus.spiflashReadStatus log stale.2 else (stale, log)
  if ret = qeOk then
    if en = true ∧ sr &&& srWel = 0 then (.code .qeEwrite, log)
    else if en = false ∧ sr &&& srWel ≠ 0 then (.code .qeEwrite, log)
    else (ret, log)
  else (ret, log)

/-! ### Pages -/

/-- The loop of `spiflash_page256_or_1byte_write`, with `buffer` at `pos`. -/
def pageLoop (gran : Nat) (hgran : 0 < gran) (buffer : Cells UInt8) (log : Log) (addr : UInt32)
    (size pos : Nat) : Ret × Log :=
  if size = 0 then (qeOk, log)
  else
    let (ret, log) := bus.spiflashWriteEnable log true true
    if ret ≠ qeOk then (ret, log)
    else
      let writeSize :=
        if toBoundary gran addr.toNat < size then toBoundary gran addr.toNat else size
      let (n, log) := bus.transfer log .page
        (cmdPageProgram :: (makeAddressByteArray flash addr ++ buffer.slice pos writeSize))
      if n.isNone then (ret, log)
      else
        let (ret, log) := bus.spiflashWaitBusy log
        if ret ≠ qeOk then (ret, log)
        else
          pageLoop gran hgran buffer log (addr + UInt32.ofNat writeSize) (size - writeSize)
            (pos + writeSize)
termination_by size
decreasing_by
  have := toBoundary_pos hgran addr.toNat
  split <;> omega

/-- `spiflash_page256_or_1byte_write`. -/
def spiflashPage256Or1byteWrite (log : Log) (addr : UInt32) (size gran : Nat) (hgran : 0 < gran)
    (buffer : Cells UInt8) (pos : Nat) : Ret × Log :=
  if outOfBound flash addr size then (.code .qeErange, log ++ [.outOfBound])
  else
    let (ret, log) := pageLoop bus flash gran hgran buffer log addr size pos
    (ret, (bus.spiflashWriteEnable log false false).2)

/-! ### Words -/

/-- Where `spiflash_aai_write` is. -/
structure Rest where
  log : Log
  addr : UInt32
  size : Nat
  pos : Nat

/-- The loop of `spiflash_aai_write`; it comes to its end, or leaves with `ret`. -/
def wordLoop (buffer : Cells UInt8) (ret : Ret) (firstWrite : Bool) (w : Rest) :
    Option Ret × Rest :=
  if w.size < 2 then (none, w)
  else
    let (n, log) :=
      if firstWrite then
        bus.transfer w.log .firstWord
          (cmdWordProgram :: (makeAddressByteArray flash w.addr ++ buffer.slice w.pos 2))
      else bus.transfer w.log .word (cmdWordProgram :: buffer.slice w.pos 2)
    if n.isNone then (some ret, { w with log := log })
    else
      let (ret, log) := bus.spiflashWaitBusy log
      if ret ≠ qeOk then (some ret, { w with log := log })
      else
        wordLoop buffer ret false
          { log := log, addr := w.addr + 2, size := w.size - 2, pos := w.pos + 2 }
termination_by w.size

/-- `__exit` of `spiflash_aai_write`. -/
def aaiExit (r : Ret × Log) : Ret × Log :=
  if r.1 ≠ qeOk then (r.1, (bus.spiflashWriteEnable r.2 false false).2) else r

/-- The words of `spiflash_aai_write` and what comes after them. -/
def aaiWords (buffer : Cells UInt8) (w : Rest) : Ret × Log :=
  let (ret, log) := bus.spiflashWriteEnable w.log true true
  if ret ≠ qeOk then bus.aaiExit (ret, log)
  else
    match wordLoop bus flash buffer ret true { w with log := log } with
    | (some ret, w) => bus.aaiExit (ret, w.log)
    | (none, w) =>
        let (ret, log) := bus.spiflashWriteEnable w.log false true
        bus.aaiExit <|
          if ret = qeOk ∧ w.size = 1 then
            spiflashPage256Or1byteWrite bus flash log w.addr 1 1 Nat.one_pos buffer w.pos
          else (ret, log)

/-- `spiflash_aai_write`. -/
def spiflashAaiWrite (log : Log) (addr : UInt32) (size : UInt64) (buffer : Cells UInt8) :
    Ret × Log :=
  if outOfBound flash addr size.toNat then (.code .qeErange, log ++ [.outOfBound])
  else if addr.toNat % 2 ≠ 0 then
    let (ret, log) := spiflashPage256Or1byteWrite bus flash log addr 1 1 Nat.one_pos buffer 0
    if ret ≠ qeOk then bus.aaiExit (ret, log)
    else
      aaiWords bus flash buffer
        { log := log, addr := addr + 1, size := (size - 1).toNat, pos := 1 }
  else aaiWords bus flash buffer { log := log, addr := addr, size := size.toNat, pos := 0 }

/-! ### Erasing and writing -/

/-- `qe_spiflash_chip_erase`. -/
def qeSpiflashChipErase (log : Log) : Ret × Log :=
  let (ret, log) := bus.spiflashWriteEnable log true true
  if ret ≠ qeOk then (ret, (bus.spiflashWriteEnable log false false).2)
  else
    let (n, log) := bus.transfer log .chipErase
      (if maskExst flash.chip.writeMode flashWmDualBuffer then [cmdEraseChip, 0x94, 0x80, 0x9A]
      else [cmdEraseChip])
    let log := if n.isNone then log else (bus.spiflashWaitBusy log).2
    (ret, (bus.spiflashWriteEnable log false false).2)

/-- The loop of `qe_spiflash_erase`. -/
def eraseLoop (log : Log) (addr : UInt32) (size : Nat) : Ret × Log :=
  if size = 0 then (qeOk, log)
  else
    let (ret, log) := bus.spiflashWriteEnable log true true
    if ret ≠ qeOk then (ret, log)
    else
      let (n, log) := bus.transfer log .erase
        (flash.chip.eraseGranCmd :: makeAddressByteArray flash addr)
      if n.isNone then (ret, log)
      else
        let (ret, log) := bus.spiflashWaitBusy log
        if ret ≠ qeOk then (ret, log)
        else
          let step := toBoundary flash.chip.eraseGran.toNat addr.toNat
          if step < size then eraseLoop log (addr + UInt32.ofNat step) (size - step)
          else (ret, log)
termination_by size
decreasing_by
  have := toBoundary_pos flash.chip.granPos addr.toNat
  omega

/-- `qe_spiflash_erase`. -/
def qeSpiflashErase (log : Log) (addr : UInt32) (size : UInt64) : Ret × Log :=
  if outOfBound flash addr size.toNat then (.code .qeErange, log ++ [.outOfBound])
  else if addr = 0 ∧ size.toNat = flash.chip.capacity.toNat then
    qeSpiflashChipErase bus flash log
  else
    let (ret, log) := eraseLoop bus flash log addr size.toNat
    (ret, (bus.spiflashWriteEnable log false false).2)

theorem page_pos : 0 < 256 := Nat.zero_lt_succ 255

/-- `qe_spiflash_write`. -/
def qeSpiflashWrite (log : Log) (addr : UInt32) (size : UInt64) (buffer : Cells UInt8) :
    Ret × Log :=
  let (ret, log) := qeSpiflashErase bus flash log addr size
  if ret ≠ qeOk then (ret, log)
  else if maskExst flash.chip.writeMode flashWmPage256b then
    spiflashPage256Or1byteWrite bus flash log addr size.toNat 256 page_pos buffer 0
  else if maskExst flash.chip.writeMode flashWmAai then
    spiflashAaiWrite bus flash log addr size buffer
  else (ret, log)

end Bus

end Awoke.Qe
