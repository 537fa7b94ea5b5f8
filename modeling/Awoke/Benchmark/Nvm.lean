/-
The blocks of non-volatile memory, `bk_nvm.c`.

A table of blocks is taken over into a list, where each block gets the number of blocks before it
as its id.  To write to a block erases sectors first, from the block's offset on in steps of a
sector.  Nothing looks at the offsets, and addresses are of 32 bits.

What `nvm_sector_erase` is called with is kept, in order; the bytes themselves are not written
anywhere.  Names are only printed.
-/
import Awoke.Error
import Awoke.Lib.WhileLoop

namespace Awoke.Nvm

/-- `struct bk_nvm_block`. -/
structure BkNvmBlock where
  id : Int32
  size : UInt32
  offset : UInt32

/-- `nvmblocks`. -/
def nvmblocks : List BkNvmBlock :=
  [ { id := 0, size := 0x3000, offset := 0x203000 },
    { id := 0, size := 0x300, offset := 0x204000 },
    { id := 0, size := 0x400, offset := 0x205000 } ]

/-- `struct bk_nvm_struct`. -/
structure BkNvmStruct where
  sectorSize : UInt32
  nrBlocks : UInt32
  blocks : List BkNvmBlock

/-- One block of `bk_nvm_blocks_add`. -/
def BkNvmStruct.add (m : BkNvmStruct) (p : BkNvmBlock) : BkNvmStruct :=
  { m with
    blocks := m.blocks ++ [{ id := m.nrBlocks.toInt32, size := p.size, offset := p.offset }]
    nrBlocks := m.nrBlocks + 1 }

/-- `bk_nvm_blocks_add`. -/
def bkNvmBlocksAdd (m : BkNvmStruct) (blocks : List BkNvmBlock) : BkNvmStruct :=
  blocks.foldl BkNvmStruct.add m

/-- The loop of `nvm_block_write`: its variable, and what was erased. -/
structure Erasing where
  addr : UInt32
  erased : List UInt32

/-- A turn of the loop. -/
def eraseTurn (m : BkNvmStruct) (s : Erasing) : WhileLoop.Turn Erasing (List UInt32) :=
  .next { addr := s.addr + m.sectorSize, erased := s.erased ++ [s.addr] }

/-- The loop of `nvm_block_write`, in `n` turns at most. -/
def eraseLoop (n : Nat) (m : BkNvmStruct) (block : BkNvmBlock) (len : Int32) :
    Option (List UInt32) :=
  WhileLoop.run (fun s => s.addr < block.offset + len.toUInt32) (eraseTurn m) Erasing.erased n
    { addr := block.offset, erased := [] }

/-- `nvm_block_write`: its code, and the sectors that are erased. -/
def nvmBlockWrite (n : Nat) (m : BkNvmStruct) (block : BkNvmBlock) (len : Int32) :
    Option (ErrType × List UInt32) :=
  if block.size < len.toUInt32 then some (.etFail, [])
  else (eraseLoop n m block len).map fun erased => (.etOk, erased)

/-- `bk_nvm_block_write`. -/
def bkNvmBlockWrite (n : Nat) (m : BkNvmStruct) (num : Int32) (len : Int32) :
    Option (ErrType × List UInt32) :=
  match m.blocks.find? fun p => p.id = num with
  | some p => nvmBlockWrite n m p len
  | none => some (.errNotfind, [])

end Awoke.Nvm
