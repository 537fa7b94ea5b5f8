/-
The serial command parser, `bk_eots_hd.c`.

A buffer of received bytes holds commands of two kinds.  An internal one is known by its
first two bytes and is six bytes long.  An external one has a prefix of two bytes, a code,
its arguments, and ends with the first 0xff; its code and its length are looked up in a
table.  What is neither is skipped up to the next header.  After every step the rest is
moved to the front of the buffer, and the bytes behind the rest stay what they were.

A move of a negative number of bytes has no result.  What a handler prints is left out;
what it returns, which depends on the same bytes, is there.
-/
import Awoke.Lib.Cells

namespace Awoke.EotsHd

/-! ### The handlers of the external commands -/

/-- A handler for a first argument that is zero and a second one out of a few values. -/
def oneOf (values : List UInt8) (p : Cells UInt8) : Int :=
  if p 0 ≠ 0 then -1 else if p 1 ∈ values then 0 else -1

/-- A handler for a first argument that is zero and a bounded second one. -/
def upTo (bound : UInt8) (p : Cells UInt8) : Int :=
  if p 0 ≠ 0 then -1 else if bound < p 1 then -1 else 0

/-- `ecmd_handler_dfg`. -/
def handlerDfg (p : Cells UInt8) : Int :=
  if p 0 ≠ 0x02 then -1
  else if p 1 = 0x00 then 0
  else if p 1 ∈ [0x01, 0x02, 0x03] then 0
  else -1

/-- `ecmd_handler_zoom`. -/
def handlerZoom (p : Cells UInt8) : Int := oneOf [0x01, 0x02, 0x04] p

/-- `ecmd_handler_graymode`. -/
def handlerGraymode (p : Cells UInt8) : Int := oneOf [0x00, 0x04] p

/-- `ecmd_handler_mirror`. -/
def handlerMirror (_ : Cells UInt8) : Int := 0

/-- `ecmd_handler_adjopt`. -/
def handlerAdjopt (p : Cells UInt8) : Int :=
  if p 0 = 0x00 then if p 1 = 0x00 then 0 else if p 1 = 0x03 then 0 else -1
  else if p 0 ∈ [0x01, 0x02, 0x03] then 0
  else -1

/-- `ecmd_handler_expotime`. -/
def handlerExpotime (p : Cells UInt8) : Int :=
  let param := 256 * (p 1).toNat + (p 2).toNat
  if p 0 = 0x00 then if 16570 < param then -1 else 0
  else if param < 1 ∨ 1000 < param then -1
  else if p 0 ∈ [0x01, 0x02] then 0
  else -1

/-- `ecmd_handler_gain`. -/
def handlerGain (p : Cells UInt8) : Int :=
  if p 1 ≠ 0x00 then -1 else if p 0 = 0x01 then 0 else if p 0 = 0x02 then 0 else -1

/-- `ecmd_handler_opt_target`. -/
def handlerOptTarget (p : Cells UInt8) : Int := oneOf [0x00, 0x02, 0x03] p

/-- `ecmd_handler_cst`. -/
def handlerCst (p : Cells UInt8) : Int := upTo 2 p

/-- `ecmd_handler_nrd`. -/
def handlerNrd (p : Cells UInt8) : Int := upTo 1 p

/-- `ecmd_handler_ehc`. -/
def handlerEhc (p : Cells UInt8) : Int := upTo 3 p

/-- `ecmd_handler_shp`. -/
def handlerShp (p : Cells UInt8) : Int := upTo 3 p

/-- `ecmd_handler_cross_view`. -/
def handlerCrossView (p : Cells UInt8) : Int := oneOf [0x02, 0x03] p

/-- `ecmd_handler_cross_move`. -/
def handlerCrossMove (p : Cells UInt8) : Int :=
  if 0x32 < p 1 then -1
  else if 0x32 < p 3 then -1
  else if 2 < p 0 then -1
  else if 2 < p 2 then -1
  else 0

/-- `ecmd_handler_hdr`. -/
def handlerHdr (p : Cells UInt8) : Int := oneOf [0x02, 0x03] p

/-- `ecmd_handler_cfg_save`. -/
def handlerCfgSave (p : Cells UInt8) : Int := oneOf [0x00] p

/-- `ecmd_handler_restore`. -/
def handlerRestore (p : Cells UInt8) : Int := oneOf [0x00] p

/-- `ecmd_handler_self_inspection`. -/
def handlerSelfInspection (p : Cells UInt8) : Int := oneOf [0x00] p

/-- `ecmd_handler_wdr`. -/
def handlerWdr (p : Cells UInt8) : Int := oneOf [0x02, 0x03] p

/-- `ecmd_handler_fps`. -/
def handlerFps (p : Cells UInt8) : Int := oneOf [0x02, 0x03, 0x04, 0x05] p

/-- `ecmd_handler_rsl`. -/
def handlerRsl (p : Cells UInt8) : Int := oneOf [0x01, 0x02] p

/-- `ecmd_handler_heartbeat`. -/
def handlerHeartbeat (p : Cells UInt8) : Int := oneOf [0x01, 0x02] p

/-- `ecmd_handler_power`. -/
def handlerPower (p : Cells UInt8) : Int := oneOf [0x01, 0x00] p

/-- `ecmd_handler_auto_focus`. -/
def handlerAutoFocus (_ : Cells UInt8) : Int := 0

/-- `ecmd_handler_opt_dfg`. -/
def handlerOptDfg (_ : Cells UInt8) : Int := 0

/-- `ecmd_handler_opt_view`. -/
def handlerOptView (p : Cells UInt8) : Int := if p 0 ≠ 0 then -1 else 0

/-- `struct _ecmd_entry`. -/
structure EcmdEntry where
  code : UInt8
  cmdlen : Nat
  handler : Cells UInt8 → Int

/-- `ecmd_table`. -/
def ecmdTable : List EcmdEntry :=
  [ ⟨0x37, 6, handlerDfg⟩,
    ⟨0x46, 6, handlerZoom⟩,
    ⟨0x63, 6, handlerGraymode⟩,
    ⟨0x66, 6, handlerMirror⟩,
    ⟨0x39, 6, handlerAdjopt⟩,
    ⟨0x4a, 7, handlerExpotime⟩,
    ⟨0x4c, 6, handlerGain⟩,
    ⟨0x0d, 6, handlerOptTarget⟩,
    ⟨0x17, 6, handlerCst⟩,
    ⟨0x53, 6, handlerNrd⟩,
    ⟨0x5b, 6, handlerEhc⟩,
    ⟨0x5c, 6, handlerShp⟩,
    ⟨0x67, 6, handlerCrossView⟩,
    ⟨0x68, 8, handlerCrossMove⟩,
    ⟨0x02, 6, handlerHdr⟩,
    ⟨0x03, 6, handlerCfgSave⟩,
    ⟨0x04, 6, handlerRestore⟩,
    ⟨0x05, 6, handlerSelfInspection⟩,
    ⟨0x06, 6, handlerWdr⟩,
    ⟨0x09, 6, handlerFps⟩,
    ⟨0x07, 6, handlerRsl⟩,
    ⟨0x11, 6, handlerHeartbeat⟩,
    ⟨0x12, 6, handlerPower⟩,
    ⟨0x70, 6, handlerAutoFocus⟩,
    ⟨0x01, 6, handlerOptDfg⟩,
    ⟨0x08, 6, handlerOptView⟩ ]

/-! ### One command -/

/-- The command a turn of a loop runs, an external one with its arguments and what its
handler returned. -/
inductive Command
  | icmd
  | ecmd (code : UInt8) (args : List UInt8) (ret : Int)
  deriving DecidableEq, Repr

/-- `ecmd_get_command`. -/
def ecmdGetCommand (code : UInt8) (length : Nat) : Option EcmdEntry :=
  ecmdTable.find? fun p => p.code = code ∧ length = p.cmdlen

/-- The loop of `ecmd_process`: the place of the first 0xff of the `n` bytes from `pos` on. -/
def findPostfix (buf : Cells UInt8) (pos : Nat) : Nat → Option Nat
  | 0 => none
  | n + 1 => if buf pos = 0xff then some pos else findPostfix buf (pos + 1) n

/-- `ecmd_process`: the command it ran, with the length of it that it returns. -/
def ecmdProcess (buf : Cells UInt8) (length : Nat) : Option (Command × Nat) :=
  (findPostfix buf 0 length).bind fun pos =>
    (ecmdGetCommand (buf 2) (pos + 1)).map fun e =>
      let p : Cells UInt8 := fun i => buf (3 + i)
      (.ecmd e.code (Cells.slice p 0 (e.cmdlen - 4)) (e.handler p), e.cmdlen)

/-- `ICMD_SIG1`. -/
def icmdSig1 : UInt8 := 0xa5

/-- `ICMD_SIG2`. -/
def icmdSig2 : UInt8 := 0x50

/-- `icmd_process`; it does not look at the length. -/
def icmdProcess (buf : Cells UInt8) : Option (Command × Nat) :=
  if buf 0 = icmdSig1 ∧ buf 1 = icmdSig2 then some (.icmd, 6) else none

/-- The header at `pos`. -/
def header (buf : Cells UInt8) (pos : Nat) : Nat :=
  256 * (buf pos).toNat + (buf (pos + 1)).toNat

/-- The loop of `scan_next`, with `n` places before `end`. -/
def scanFrom (buf : Cells UInt8) (icmdHeader ecmdHeader : Nat) (pos : Nat) : Nat → Option Nat
  | 0 => none
  | n + 1 =>
      if header buf pos = icmdHeader ∨ header buf pos = ecmdHeader then some pos
      else scanFrom buf icmdHeader ecmdHeader (pos + 1) n

/-- `scan_next`. -/
def scanNext (buf : Cells UInt8) (max icmdHeader ecmdHeader : Nat) : Nat :=
  if max ≤ 2 then max else (scanFrom buf icmdHeader ecmdHeader 1 (max - 2)).getD max

/-- `mem_rollback`. -/
def memRollback (buf : Cells UInt8) (max rb : Nat) : Option (Cells UInt8) :=
  if rb ≤ max then some (Cells.move buf 0 rb (max - rb)) else none

/-! ### The loops -/

/-- The buffer and how much of it is left. -/
structure Rest where
  buf : Cells UInt8
  remain : Nat

/-- The header of an internal command. -/
def icmdhdr : Nat := 0xa550

/-- The header of an external command. -/
def ecmdhdr : Nat := 0x8101

/-- What a turn of `bk_eots_hd_syscon` runs, and its `rollback_length`. -/
def sysconTurn (s : Rest) : Option Command × Nat :=
  match icmdProcess s.buf with
  | some (cmd, len) => (some cmd, len)
  | none =>
      match ecmdProcess s.buf s.remain with
      | some (cmd, len) => (some cmd, len)
      | none => (none, scanNext s.buf s.remain icmdhdr ecmdhdr)

/-- What a turn of `bk_eots_hd_ecmd_process` runs, and its `rollback_length`. -/
def ecmdTurn (s : Rest) : Option Command × Nat :=
  match ecmdProcess s.buf s.remain with
  | some (cmd, len) => (some cmd, len)
  | none => (none, scanNext s.buf s.remain 0x0000 ecmdhdr)

/-- The end of a turn of both loops, which drops what the turn has dealt with. -/
def rollback (s : Rest) (length : Nat) : Option Rest :=
  if length = 0 then some s
  else (memRollback s.buf s.remain length).map fun buf =>
    { buf := buf, remain := s.remain - length }

/-- `syscon_one`. -/
def sysconOne (s : Rest) : Option Rest := rollback s (sysconTurn s).2

/-- The body of the loop of `bk_eots_hd_ecmd_process`. -/
def ecmdOne (s : Rest) : Option Rest := rollback s (ecmdTurn s).2

/-- The test at the end of both loops. -/
def Rest.More (s : Rest) : Prop := 0 < s.remain

/-- `syscon_command_ready`. -/
def sysconCommandReady (length : Nat) : Bool := ¬length < 6

end Awoke.EotsHd
