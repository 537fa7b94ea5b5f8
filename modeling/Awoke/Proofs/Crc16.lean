/-
The CRC of a chunk.

`awoke_crc16` takes a word of `MbTable` for each byte.  The table has at every place what eight
shifts of the register make of the byte alone (`mbTable_word`), and the rest is linearity: the
step is that of the check with polynomial 0xa001, one bit at a time.
-/
import Awoke.Lib.Crc
import Awoke.Util.Package

namespace Awoke

theorem mbTable_word (b : BitVec 8) :
    (mbTable.getD b.toNat 0).toBitVec = Crc.word 0xa001#16 b := by
  have hall : ∀ n < 256, (mbTable.getD n 0).toBitVec = Crc.word 0xa001#16 (BitVec.ofNat 8 n) := by
    decide +kernel
  rw [hall b.toNat b.isLt, BitVec.ofNat_toNat, BitVec.setWidth_eq]

theorem crc16_step (crc : UInt16) (b : UInt8) :
    (crc >>> 8 ^^^ mbTable.getD (b.toUInt16 ^^^ crc).toUInt8.toNat 0).toBitVec =
      Crc.byte 0xa001#16 crc.toBitVec b.toBitVec := by
  have hindex : (b.toUInt16 ^^^ crc).toUInt8.toBitVec =
      (crc.toBitVec ^^^ b.toBitVec.setWidth 16).setWidth 8 := by
    rw [UInt16.toBitVec_toUInt8, UInt16.toBitVec_xor, BitVec.xor_comm]
    rfl
  rw [Crc.byte_table, ← hindex, ← mbTable_word]
  rfl

theorem crc16_loop (data : List UInt8) : ∀ crc : UInt16,
    (data.foldl (fun (crc : UInt16) (b : UInt8) =>
        crc >>> 8 ^^^ mbTable.getD (b.toUInt16 ^^^ crc).toUInt8.toNat 0) crc).toBitVec =
      Crc.crc 0xa001#16 crc.toBitVec (data.map UInt8.toBitVec) := by
  induction data with
  | nil => intro crc; rfl
  | cons b data ih =>
      intro crc
      rw [List.foldl_cons, ih, crc16_step]
      rfl

/-- **The check is the one bit by bit**: low bit first, with polynomial 0xa001, from 0xffff, with
nothing added at the end; and over bytes in two parts it goes on from that of the first. -/
theorem crc16_bitwise (data more : List UInt8) :
    (crc16 data).toBitVec = Crc.crc 0xa001#16 0xffff#16 (data.map UInt8.toBitVec) ∧
      (crc16 (data ++ more)).toBitVec =
        Crc.crc 0xa001#16 (crc16 data).toBitVec (more.map UInt8.toBitVec) := by
  have hwhole : ∀ bs, (crc16 bs).toBitVec =
      Crc.crc 0xa001#16 0xffff#16 (bs.map UInt8.toBitVec) := fun bs => crc16_loop bs 0xffff
  refine ⟨hwhole data, ?_⟩
  rw [hwhole, List.map_append, Crc.crc_append, hwhole]

end Awoke
