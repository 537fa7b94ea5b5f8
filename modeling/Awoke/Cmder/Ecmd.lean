/-
The ecmd protocols' framing, `proto-ecmd.c`.

A frame is six bytes that begin with a word of the protocol, high byte first, and end with 0xFF.
The two protocols differ in the word, and in what they make of a frame without its end: one skips
the word, the other does not match.
-/
import Awoke.Cmder.RxPoll
import Awoke.Lib.Search
import Awoke.Util.Package

namespace Awoke.Cmder

/-- The word that a frame of `ecmd_protocol` begins with, and of `ecmd2_protocol`. -/
def ecmdWord : UInt16 := 0x8101
def ecmd2Word : UInt16 := 0x8201

/-- The two bytes from `pos` are the word. -/
def WordAt (word : UInt16) (buf : Cells UInt8) (pos : Int) : Prop := htons (pullWord buf pos) = word

instance (word : UInt16) (buf : Cells UInt8) : DecidablePred (WordAt word buf) := fun _ =>
  inferInstanceAs (Decidable (_ = _))

/-- What both protocols match with: the code and what `*rlen` holds after.  A frame without its end
comes to `unended`. -/
def matchWord (word : UInt16) (unended : ErrType × Int) (buf : Cells UInt8) (len rlen : Int) :
    ErrType × Int :=
  if len < 2 then (.errMatch, rlen)
  else if ¬WordAt word buf 0 then (.errMatch, rlen)
  else if len < 6 then (.errIncomplete, rlen)
  else if buf 5 ≠ 0xFF then unended
  else (.etOk, 6)

/-- `ecmd_match`. -/
def ecmdMatch (buf : Cells UInt8) (len rlen : Int) : ErrType × Int :=
  matchWord ecmdWord (.errParam, 2) buf len rlen

/-- `ecmd2_match`. -/
def ecmd2Match (buf : Cells UInt8) (len rlen : Int) : ErrType × Int :=
  matchWord ecmd2Word (.errMatch, rlen) buf len rlen

/-- The `while` loop that both protocols scan with. -/
def scanWord (word : UInt16) (buf : Cells UInt8) (len rlen : Int) : ErrType × Int :=
  match Search.first (WordAt word buf) 0 len.toNat with
  | some pos => (.etOk, pos)
  | none => (.errMatch, rlen)

/-- `ecmd_scan`. -/
def ecmdScan : Cells UInt8 → Int → Int → ErrType × Int := scanWord ecmdWord

/-- `ecmd2_scan`. -/
def ecmd2Scan : Cells UInt8 → Int → Int → ErrType × Int := scanWord ecmd2Word

variable {σ : Type} (read : σ → Cells UInt8 → Int → σ)

/-- `ecmd_protocol`, whatever `ecmd_read` does with a message; it returns `et_ok` in any case. -/
def ecmdProtocol : Protocol σ where
  match_ env buf len rlen := ((ecmdMatch buf len rlen).1, (ecmdMatch buf len rlen).2, env)
  scan env buf len rlen := ((ecmdScan buf len rlen).1, (ecmdScan buf len rlen).2, env)
  read env buf len := some (.etOk, read env buf len)

/-- `ecmd2_protocol`; so does `ecmd2_read`. -/
def ecmd2Protocol : Protocol σ where
  match_ env buf len rlen := ((ecmd2Match buf len rlen).1, (ecmd2Match buf len rlen).2, env)
  scan env buf len rlen := ((ecmd2Scan buf len rlen).1, (ecmd2Scan buf len rlen).2, env)
  read env buf len := some (.etOk, read env buf len)

end Awoke.Cmder
