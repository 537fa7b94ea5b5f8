/-
The xfer protocol's framing, `xfer_match` and `xfer_scan` in `proto-xfer.c`.

A frame is a head of eight bytes, a payload when the command is a write, and a tail
of two: 0xAA, command and space bits, the payload's length low byte first, four bytes
of address, the payload, a code and 0xFF.
-/
import Awoke.Cmder.RxPoll

namespace Awoke.Cmder

/-- `XFER_PREFIX`. -/
def xferPrefix : UInt8 := 0xAA

/-- `XFER_POSFIX`. -/
def xferPosfix : UInt8 := 0xFF

/-- `XFER_CMD_WR`. -/
def xferCmdWR : Nat := 2

/-- `head->cmd`, the two low bits of its byte. -/
def xferCmd (b : UInt8) : Nat := b.toNat % 4

/-- The length of a frame from its second, third and fourth byte: `sizeof(struct
xfer_head) + sizeof(struct xfer_tail)`, and `head->len` more for a write. -/
def xferLength (cmd len0 len1 : UInt8) : Nat :=
  8 + 2 + if xferCmd cmd = xferCmdWR then len0.toNat + 256 * len1.toNat else 0

/-- `xfer_match`: the code and what `*rlen` holds after.  The first comparison is one of
`size_t`, in which a negative length is large. -/
def xferMatch (buf : Cells UInt8) (len rlen : Int) : ErrType × Int :=
  if 0 ≤ len ∧ len < 8 + 2 then (.errUnfinished, rlen)
  else if buf 0 ≠ xferPrefix then (.errMatch, 1)
  else
    let length : Int := xferLength (buf 1) (buf 2) (buf 3)
    if len < length then (.errUnfinished, rlen)
    else if buf (length - 1) ≠ xferPosfix then (.errMatch, 1)
    else (.etOk, length)

/-- The `for` loop of `xfer_scan`, with `n` bytes to go from `i`. -/
def xferFind (buf : Cells UInt8) (i : Int) : Nat → Option Int
  | 0 => none
  | n + 1 => if buf i = xferPrefix then some i else xferFind buf (i + 1) n

/-- `xfer_scan`, from what `*rlen` holds before. -/
def xferScan (buf : Cells UInt8) (len rlen : Int) : ErrType × Int :=
  match xferFind buf rlen (len - rlen).toNat with
  | some i => (.etOk, i)
  | none => (.errMatch, len)

/-- `xfer_protocol`, whatever `xfer_read` does with a message; it returns `et_ok` in any case. -/
def xferProtocol {σ : Type} (read : σ → Cells UInt8 → Int → σ) : Protocol σ where
  match_ env buf len rlen := ((xferMatch buf len rlen).1, (xferMatch buf len rlen).2, env)
  scan env buf len rlen := ((xferScan buf len rlen).1, (xferScan buf len rlen).2, env)
  read env buf len := some (.etOk, read env buf len)

end Awoke.Cmder
