/-
The SPI flash block device, `qe_spi_flash.c`.

The driver talks to the chip in commands, each of them a transfer of some bytes.  The chip
is an ideal one: it decodes the bytes, has a write enable latch, and works on NOR memory.
Transfers succeed, and what is clocked in while a command goes out is not kept.

A row of the table has the fields that the reads and writes use; the ids are left out, by
which `qe_spiflash_probe` finds its row.  Positions of a block device count from zero.
Addresses are of 32 bits and sizes of 64; a product of the position that does not fit the
type `long` has no result.
-/
import Awoke.Error
import Awoke.Lib.Nor

namespace Awoke.Qe

/-- The codes of `qe_err_t` that come up. -/
inductive QeErr
  | qeOk
  | qeEwrite
  | qeErange
  deriving DecidableEq

/-! ### Chips -/

/-- `FLASH_WM_PAGE_256B`. -/
def flashWmPage256b : BitVec 16 := 0x0001

/-- `FLASH_WM_BYTE`. -/
def flashWmByte : BitVec 16 := 0x0002

/-- `FLASH_WM_AAI`. -/
def flashWmAai : BitVec 16 := 0x0004

/-- `FLASH_WM_DUAL_BUFFER`. -/
def flashWmDualBuffer : BitVec 16 := 0x0008

/-- `struct qe_spiflash_chip`. -/
structure SpiflashChip where
  name : String
  eraseGranCmd : UInt8
  capacity : UInt32
  writeMode : BitVec 16
  eraseGran : UInt32
  granPos : 0 < eraseGran.toNat := by decide

/-- `flash_chip_table`. -/
def flashChipTable : List SpiflashChip :=
  [ { name := "AT45DB161E", eraseGranCmd := 0x81, capacity := 2 * 1024 * 1024,
      writeMode := flashWmByte ||| flashWmDualBuffer, eraseGran := 512 },
    { name := "W25Q40BV", eraseGranCmd := 0x20, capacity := 512 * 1024,
      writeMode := flashWmPage256b, eraseGran := 4096 },
    { name := "W25Q16BV", eraseGranCmd := 0x20, capacity := 2 * 1024 * 1024,
      writeMode := flashWmPage256b, eraseGran := 4096 },
    { name := "W25Q64CV", eraseGranCmd := 0x20, capacity := 8 * 1024 * 1024,
      writeMode := flashWmPage256b, eraseGran := 4096 },
    { name := "W25Q64DW", eraseGranCmd := 0x20, capacity := 8 * 1024 * 1024,
      writeMode := flashWmPage256b, eraseGran := 4096 },
    { name := "W25Q128BV", eraseGranCmd := 0x20, capacity := 16 * 1024 * 1024,
      writeMode := flashWmPage256b, eraseGran := 4096 },
    { name := "W25Q256FV", eraseGranCmd := 0x20, capacity := 32 * 1024 * 1024,
      writeMode := flashWmPage256b, eraseGran := 4096 },
    { name := "SST25VF016B", eraseGranCmd := 0x20, capacity := 2 * 1024 * 1024,
      writeMode := flashWmByte ||| flashWmAai, eraseGran := 4096 },
    { name := "M25P32", eraseGranCmd := 0xD8, capacity := 4 * 1024 * 1024,
      writeMode := flashWmPage256b, eraseGran := 64 * 1024 },
    { name := "M25P80", eraseGranCmd := 0xD8, capacity := 1 * 1024 * 1024,
      writeMode := flashWmPage256b, eraseGran := 64 * 1024 },
    { name := "M25P40", eraseGranCmd := 0xD8, capacity := 512 * 1024,
      writeMode := flashWmPage256b, eraseGran := 64 * 1024 },
    { name := "EN25Q32B", eraseGranCmd := 0x20, capacity := 4 * 1024 * 1024,
      writeMode := flashWmPage256b, eraseGran := 4096 },
    { name := "GD25Q64B", eraseGranCmd := 0x20, capacity := 8 * 1024 * 1024,
      writeMode := flashWmPage256b, eraseGran := 4096 },
    { name := "GD25Q16B", eraseGranCmd := 0x20, capacity := 2 * 1024 * 1024,
      writeMode := flashWmPage256b, eraseGran := 4096 },
    { name := "S25FL216K", eraseGranCmd := 0x20, capacity := 2 * 1024 * 1024,
      writeMode := flashWmPage256b, eraseGran := 4096 },
    { name := "S25FL032P", eraseGranCmd := 0x20, capacity := 4 * 1024 * 1024,
      writeMode := flashWmPage256b, eraseGran := 4096 },
    { name := "A25L080", eraseGranCmd := 0x20, capacity := 1 * 1024 * 1024,
      writeMode := flashWmPage256b, eraseGran := 4096 },
    { name := "F25L004", eraseGranCmd := 0x20, capacity := 512 * 1024,
      writeMode := flashWmByte ||| flashWmAai, eraseGran := 4096 },
    { name := "PCT25VF016B", eraseGranCmd := 0x20, capacity := 2 * 1024 * 1024,
      writeMode := flashWmByte ||| flashWmAai, eraseGran := 4096 } ]

/-- `struct qe_spiflash_device`. -/
structure SpiflashDevice where
  chip : SpiflashChip
  sectorSize : UInt32
  address4byte : Bool

/-- The device of a chip, as `qe_spiflash_probe` sets it up. -/
def qeSpiflashProbe (chip : SpiflashChip) : SpiflashDevice where
  chip := chip
  sectorSize := chip.eraseGran
  address4byte := decide ((1 : Nat) <<< 24 < chip.capacity.toNat)

/-! ### Commands -/

/-- `QE_SPIFLASH_CMD_PAGE_PROGRAM`. -/
def cmdPageProgram : UInt8 := 0x02

/-- `QE_SPIFLASH_CMD_WRITE_DISABLE`. -/
def cmdWriteDisable : UInt8 := 0x04

/-- `QE_SPIFLASH_CMD_READ_SR`. -/
def cmdReadSr : UInt8 := 0x05

/-- `QE_SPIFLASH_CMD_WRITE_ENABLE`. -/
def cmdWriteEnable : UInt8 := 0x06

/-- `QE_SPIFLASH_CMD_WORD_PROGRAM`. -/
def cmdWordProgram : UInt8 := 0xAD

/-- `QE_SPIFLASH_CMD_ERASE_CHIP`. -/
def cmdEraseChip : UInt8 := 0xC7

/-- `QE_SPIFLASH_SR_BUSY`. -/
def srBusy : UInt8 := 0x01

/-- `QE_SPIFLASH_SR_WEL`. -/
def srWel : UInt8 := 0x02

/-! ### The chip -/

/-- An ideal chip: its memory, the write enable latch, whether addresses have four bytes, and
where the next word goes while words are programmed. -/
structure Flash where
  mem : Nor.Memory
  wel : Bool
  fourByte : Bool
  aai : Option Nat

namespace Flash

/-- How many bytes an address has. -/
def addressLen (f : Flash) : Nat := if f.fourByte then 4 else 3

/-- The address behind a command, high byte first. -/
def address (f : Flash) (bytes : List UInt8) : Nat :=
  (bytes.take f.addressLen).foldl (fun a b => 256 * a + b.toNat) 0

/-- The bytes behind the address. -/
def payload (f : Flash) (bytes : List UInt8) : List UInt8 := bytes.drop f.addressLen

/-- What the chip does when it gets some bytes.  The latch is off after a program or an
erase, and stays on from word to word. -/
def transfer (f : Flash) (chip : SpiflashChip) : List UInt8 → Flash
  | [] => f
  | cmd :: rest =>
      if cmd = cmdWriteEnable then { f with wel := true }
      else if cmd = cmdWriteDisable then { f with wel := false, aai := none }
      else if f.wel = false then f
      else if cmd = cmdPageProgram then
        { f with mem := Nor.program 256 (f.address rest) (f.payload rest) f.mem, wel := false }
      else if cmd = cmdWordProgram then
        match f.aai with
        | none => { f with
            mem := Nor.program 2 (f.address rest) (f.payload rest) f.mem
            aai := some (f.address rest + 2) }
        | some addr => { f with mem := Nor.program 2 addr rest f.mem, aai := some (addr + 2) }
      else if cmd = cmdEraseChip then { f with mem := fun _ => 0xFF, wel := false }
      else if cmd = chip.eraseGranCmd then
        { f with mem := Nor.erase chip.eraseGran.toNat (f.address rest) f.mem, wel := false }
      else f

/-- What it sends after `QE_SPIFLASH_CMD_READ_SR`. -/
def statusRegister (f : Flash) : UInt8 := if f.wel then srWel else 0

/-- What it sends after `QE_SPIFLASH_CMD_READ_DATA` and an address. -/
def readData (f : Flash) (bytes : List UInt8) (size : Nat) : List UInt8 :=
  (List.range size).map fun k => f.mem (f.address bytes + k)

end Flash

/-! ### The driver -/

/-- `make_address_byte_array`. -/
def makeAddressByteArray (flash : SpiflashDevice) (addr : UInt32) : List UInt8 :=
  let len := if flash.address4byte then 4 else 3
  (List.range len).map fun i => (addr >>> UInt32.ofNat ((len - (i + 1)) * 8) &&& 0xFF).toUInt8

/-- `spiflash_read_status`; the bit for a busy chip is always taken out. -/
def spiflashReadStatus (f : Flash) : QeErr × UInt8 := (.qeOk, f.statusRegister &&& ~~~srBusy)

/-- `spiflash_write_enable`. -/
def spiflashWriteEnable (flash : SpiflashDevice) (f : Flash) (en : Bool) : QeErr × Flash :=
  let f := f.transfer flash.chip [if en then cmdWriteEnable else cmdWriteDisable]
  let (ret, sr) := spiflashReadStatus f
  if ret = .qeOk then
    if en = true ∧ sr &&& srWel = 0 then (.qeEwrite, f)
    else if en = false ∧ sr &&& srWel ≠ 0 then (.qeEwrite, f)
    else (ret, f)
  else (ret, f)

/-- The check of an address and a size; the sum has 64 bits. -/
def outOfBound (flash : SpiflashDevice) (addr : UInt32) (size : Nat) : Bool :=
  decide (flash.chip.capacity.toNat < (addr.toNat + size) % 2 ^ 64)

/-- How far it is from `addr` to the next multiple of `gran`. -/
def toBoundary (gran addr : Nat) : Nat := if addr % gran ≠ 0 then gran - addr % gran else gran

theorem toBoundary_pos {gran : Nat} (hgran : 0 < gran) (addr : Nat) : 0 < toBoundary gran addr := by
  have := Nat.mod_lt addr hgran
  unfold toBoundary
  split <;> omega

/-- The loop of `spiflash_page256_or_1byte_write`; after a program the chip is not busy. -/
def pageLoop (flash : SpiflashDevice) (gran : Nat) (hgran : 0 < gran) (f : Flash) (addr : UInt32)
    (size : Nat) (buffer : List UInt8) : QeErr × Flash :=
  if size = 0 then (.qeOk, f)
  else
    let r := spiflashWriteEnable flash f true
    if r.1 ≠ .qeOk then r
    else
      let writeSize :=
        if toBoundary gran addr.toNat < size then toBoundary gran addr.toNat else size
      pageLoop flash gran hgran
        (r.2.transfer flash.chip
          (cmdPageProgram :: (makeAddressByteArray flash addr ++ buffer.take writeSize)))
        (addr + UInt32.ofNat writeSize) (size - writeSize) (buffer.drop writeSize)
termination_by size
decreasing_by
  have := toBoundary_pos hgran addr.toNat
  split <;> omega

/-- `spiflash_page256_or_1byte_write`. -/
def spiflashPage256Or1byteWrite (flash : SpiflashDevice) (f : Flash) (addr : UInt32) (size : Nat)
    (gran : Nat) (hgran : 0 < gran) (buffer : List UInt8) : QeErr × Flash :=
  if outOfBound flash addr size then (.qeErange, f)
  else
    let r := pageLoop flash gran hgran f addr size buffer
    (r.1, (spiflashWriteEnable flash r.2 false).2)

/-- What is left after the words of `spiflash_aai_write`. -/
structure Words where
  f : Flash
  addr : UInt32
  size : Nat
  buffer : List UInt8

/-- The loop of `spiflash_aai_write`; after a word the chip is not busy. -/
def wordLoop (flash : SpiflashDevice) (firstWrite : Bool) (w : Words) : Words :=
  if w.size < 2 then w
  else
    let cmd :=
      if firstWrite then cmdWordProgram :: (makeAddressByteArray flash w.addr ++ w.buffer.take 2)
      else cmdWordProgram :: w.buffer.take 2
    wordLoop flash false
      { f := w.f.transfer flash.chip cmd
        addr := w.addr + 2
        size := w.size - 2
        buffer := w.buffer.drop 2 }
termination_by w.size

/-- The words of `spiflash_aai_write` and what comes after them. -/
def aaiWords (flash : SpiflashDevice) (f : Flash) (addr : UInt32) (size : Nat)
    (buffer : List UInt8) : QeErr × Flash :=
  let enabled := spiflashWriteEnable flash f true
  if enabled.1 ≠ .qeOk then (enabled.1, (spiflashWriteEnable flash enabled.2 false).2)
  else
    let w := wordLoop flash true { f := enabled.2, addr := addr, size := size, buffer := buffer }
    let disabled := spiflashWriteEnable flash w.f false
    let r :=
      if disabled.1 = .qeOk ∧ w.size = 1 then
        spiflashPage256Or1byteWrite flash disabled.2 w.addr 1 1 Nat.one_pos w.buffer
      else disabled
    if r.1 ≠ .qeOk then (r.1, (spiflashWriteEnable flash r.2 false).2) else r

/-- `spiflash_aai_write`. -/
def spiflashAaiWrite (flash : SpiflashDevice) (f : Flash) (addr : UInt32) (size : Nat)
    (buffer : List UInt8) : QeErr × Flash :=
  if outOfBound flash addr size then (.qeErange, f)
  else if addr.toNat % 2 ≠ 0 then
    let r := spiflashPage256Or1byteWrite flash f addr 1 1 Nat.one_pos buffer
    if r.1 ≠ .qeOk then (r.1, (spiflashWriteEnable flash r.2 false).2)
    else aaiWords flash r.2 (addr + 1) ((size + 2 ^ 64 - 1) % 2 ^ 64) (buffer.drop 1)
  else aaiWords flash f addr size buffer

/-- `qe_spiflash_chip_erase`. -/
def qeSpiflashChipErase (flash : SpiflashDevice) (f : Flash) : QeErr × Flash :=
  let r := spiflashWriteEnable flash f true
  let f :=
    if r.1 ≠ .qeOk then r.2
    else
      r.2.transfer flash.chip
        (if maskExst flash.chip.writeMode flashWmDualBuffer then [cmdEraseChip, 0x94, 0x80, 0x9A]
        else [cmdEraseChip])
  (r.1, (spiflashWriteEnable flash f false).2)

/-- The loop of `qe_spiflash_erase`; after an erase the chip is not busy. -/
def eraseLoop (flash : SpiflashDevice) (f : Flash) (addr : UInt32) (size : Nat) : QeErr × Flash :=
  if size = 0 then (.qeOk, f)
  else
    let r := spiflashWriteEnable flash f true
    if r.1 ≠ .qeOk then r
    else
      let f := r.2.transfer flash.chip
        (flash.chip.eraseGranCmd :: makeAddressByteArray flash addr)
      let step := toBoundary flash.chip.eraseGran.toNat addr.toNat
      if step < size then eraseLoop flash f (addr + UInt32.ofNat step) (size - step)
      else (.qeOk, f)
termination_by size
decreasing_by
  have := toBoundary_pos flash.chip.granPos addr.toNat
  omega

/-- `qe_spiflash_erase`. -/
def qeSpiflashErase (flash : SpiflashDevice) (f : Flash) (addr : UInt32) (size : Nat) :
    QeErr × Flash :=
  if outOfBound flash addr size then (.qeErange, f)
  else if addr = 0 ∧ size = flash.chip.capacity.toNat then qeSpiflashChipErase flash f
  else
    let r := eraseLoop flash f addr size
    (r.1, (spiflashWriteEnable flash r.2 false).2)

/-- `qe_spiflash_read`: its code, and the bytes that come to the buffer. -/
def qeSpiflashRead (flash : SpiflashDevice) (f : Flash) (addr : UInt32) (size : Nat) :
    QeErr × List UInt8 :=
  if outOfBound flash addr size then (.qeErange, [])
  else (.qeOk, f.readData (makeAddressByteArray flash addr) size)

/-- `qe_spiflash_write`. -/
def qeSpiflashWrite (flash : SpiflashDevice) (f : Flash) (addr : UInt32) (size : Nat)
    (buffer : List UInt8) : QeErr × Flash :=
  let erase := qeSpiflashErase flash f addr size
  if erase.1 ≠ .qeOk then erase
  else if maskExst flash.chip.writeMode flashWmPage256b then
    spiflashPage256Or1byteWrite flash erase.2 addr size 256 (by decide) buffer
  else if maskExst flash.chip.writeMode flashWmAai then
    spiflashAaiWrite flash erase.2 addr size buffer
  else erase

/-! ### The block device -/

/-- `phy_addr` of a position; the product is of type `long`. -/
def phyAddr (flash : SpiflashDevice) (pos : Nat) : Option UInt32 :=
  if pos * flash.sectorSize.toNat < 2 ^ 63 then some (UInt32.ofNat (pos * flash.sectorSize.toNat))
  else none

/-- `phy_size` of a size. -/
def phySize (flash : SpiflashDevice) (size : UInt64) : Nat :=
  size.toNat * flash.sectorSize.toNat % 2 ^ 64

/-- `spiflash_read`. -/
def spiflashRead (flash : SpiflashDevice) (f : Flash) (pos : Nat) (size : UInt64) :
    Option (QeErr × List UInt8) :=
  (phyAddr flash pos).map fun addr => qeSpiflashRead flash f addr (phySize flash size)

/-- `spiflash_write`. -/
def spiflashWrite (flash : SpiflashDevice) (f : Flash) (pos : Nat) (size : UInt64)
    (buffer : List UInt8) : Option (QeErr × Flash) :=
  (phyAddr flash pos).map fun addr => qeSpiflashWrite flash f addr (phySize flash size) buffer

end Awoke.Qe
