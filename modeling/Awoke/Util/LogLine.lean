/-
A line of the log, `awoke_log` and `awoke_logm` in `awoke_log.c`.

A line is built in a buffer of its own, piece by piece: colours, the time, where it comes from,
the message, and the end of the line.  The message is printed with `awoke_vsnprintf`, which fills
the buffer as `vsnprintf` does and returns the length of the text cast to `int`; the builder is
moved by hand there, as `__build_ptr` moves it.

The message is a text, whatever its format was.  A null pointer is printed as `(null)`.
-/
import Awoke.Error
import Awoke.Util.BuildPtr

namespace Awoke.LogLine

/-! ### Pieces -/

/-- A text that was printed, and what the function that printed it returned. -/
structure Piece where
  text : List UInt8
  ret : Int

/-- A text printed by `vsnprintf`. -/
def libc (text : List UInt8) : Piece := { text := text, ret := vsnprintfLen text }

/-- What `awoke_vsnprintf` returns for a text. -/
def awokeVsnprintfLen (text : List UInt8) : Int := (BitVec.ofNat 32 text.length).toInt

/-- A text printed by `awoke_vsnprintf`. -/
def awoke (text : List UInt8) : Piece := { text := text, ret := awokeVsnprintfLen text }

/-- To print a piece and to move the builder. -/
def append (s : BuildPtr × MemBlock) (piece : Piece) : Option (BuildPtr × MemBlock) :=
  let ptr := s.1
  let written := vsnprintfBytes ptr.size piece.text
  if written = [] ∨ ptr.block = s.2.id ∧ 0 ≤ ptr.p ∧ ptr.p + written.length ≤ s.2.alloc then
    some
      ({ ptr with
          max := ptr.max - piece.ret
          p := ptr.p + piece.ret
          len := ptr.len + BitVec.ofInt 64 piece.ret },
        { s.2 with cells := Cells.write s.2.cells ptr.p written })
  else none

/-- How many bytes of a text are stored in so much room. -/
def stored (size : Nat) (text : List UInt8) : Nat := (vsnprintfBytes size text).length - 1

/-- `build_ptr_init`, and the buffer it is for; `build_ptr_make` comes to the same where the buffer
holds no text yet. -/
def buildPtrInit (max : Nat) (cells : Cells UInt8) : BuildPtr × MemBlock :=
  ({ block := 0, p := 0, max := max, len := 0 }, { id := 0, alloc := max, cells := cells })

/-! ### Levels and modules -/

/-- The bytes of a string. -/
def ascii (s : String) : List UInt8 := s.toList.map fun c => c.toNat.toUInt8

/-- `awoke_log_level`. -/
inductive AwokeLogLevel
  | logNone
  | logBurst
  | logTrace
  | logDbg
  | logInfo
  | logNotice
  | logWarn
  | logErr
  | logBug
  deriving DecidableEq

/-- Its number. -/
def AwokeLogLevel.num : AwokeLogLevel → UInt8
  | .logNone => 0
  | .logBurst => 1
  | .logTrace => 2
  | .logDbg => 3
  | .logInfo => 4
  | .logNotice => 5
  | .logWarn => 6
  | .logErr => 7
  | .logBug => 8

/-- `awoke_log_levelmap`. -/
structure AwokeLogLevelmap where
  string : Option String
  useColor : Bool
  color : String

/-- `LOG_COLOR_RESET`. -/
def logColorReset : String := "\x1b[0m"

/-- `levelmap`. -/
def levelmap : AwokeLogLevel → AwokeLogLevelmap
  | .logNone => ⟨none, false, logColorReset⟩
  | .logBurst => ⟨some "b", false, logColorReset⟩
  | .logTrace => ⟨some "t", false, "\x1b[37m"⟩
  | .logDbg => ⟨some "D", true, "\x1b[92m"⟩
  | .logInfo => ⟨some "I", true, "\x1b[96m"⟩
  | .logNotice => ⟨some "N", true, "\x1b[93m"⟩
  | .logWarn => ⟨some "W", true, "\x1b[95m"⟩
  | .logErr => ⟨some "E", true, "\x1b[91m"⟩
  | .logBug => ⟨some "B", true, "\x1b[31m"⟩

/-- `awoke_log_modulemap`. -/
structure AwokeLogModulemap where
  string : Option String
  mmask : BitVec 32
  mlevel : AwokeLogLevel

/-- `modulemap`. -/
def modulemap : List AwokeLogModulemap :=
  [ ⟨none, 0x000, .logNone⟩,
    ⟨some "sys", 0x001, .logNone⟩,
    ⟨some "drv", 0x002, .logNone⟩,
    ⟨some "pkt", 0x004, .logNone⟩,
    ⟨some "lib", 0x008, .logNone⟩,
    ⟨some "bk", 0x100, .logTrace⟩,
    ⟨some "mk", 0x200, .logTrace⟩,
    ⟨some "cmd", 0x400, .logTrace⟩ ]

/-- `awoke_log_direction`. -/
inductive AwokeLogDirection
  | stdout
  | file
  | uart
  | externalInterface
  | stdoutEx
  deriving DecidableEq

/-- `logctx`. -/
structure AwokeLogContext where
  level : UInt8
  mmask : BitVec 32
  direction : AwokeLogDirection

/-- `level_visible`. -/
def AwokeLogContext.levelVisible (ctx : AwokeLogContext) (level : AwokeLogLevel) : Bool :=
  ctx.level ≤ level.num

/-- `module_get`. -/
def moduleGet (module : BitVec 32) : Option AwokeLogModulemap :=
  modulemap.find? fun p => p.mmask = module

/-- `module_string_get`. -/
def moduleStringGet (module : BitVec 32) : Option String :=
  (moduleGet module).elim none AwokeLogModulemap.string

/-! ### Lines -/

/-- `%s`. -/
def percentS (s : Option String) : List UInt8 := ascii (s.getD "(null)")

/-- `%d`. -/
def percentD (n : Int) : List UInt8 := ascii (toString n)

/-- `%02i` of a number that is not negative. -/
def percent02i (n : Nat) : List UInt8 :=
  if n < 10 then ascii "0" ++ percentD n else percentD n

/-- `struct tm`, as `localtime_r` fills it. -/
structure Tm where
  tmYear : Int
  tmMon : Nat
  tmMday : Nat
  tmHour : Nat
  tmMin : Nat
  tmSec : Nat

/-- The time in front of a line. -/
def Tm.text (date : Tm) : List UInt8 :=
  ascii "[" ++ percentD (date.tmYear + 1900) ++ ascii "/" ++ percent02i (date.tmMon + 1) ++
    ascii "/" ++ percent02i date.tmMday ++ ascii " " ++ percent02i date.tmHour ++ ascii ":" ++
    percent02i date.tmMin ++ ascii ":" ++ percent02i date.tmSec ++ ascii "] "

/-- Where a line comes from. -/
structure Place where
  func : CStr
  line : Int

/-- `%s:%d` in brackets. -/
def Place.text (place : Place) : List UInt8 :=
  ascii "[" ++ place.func.bytes ++ ascii ":" ++ percentD place.line ++ ascii "] "

/-- `AWOKE_LOG_BUFF_MAXLEN`. -/
def awokeLogBuffMaxlen : Nat := 256

/-- The pieces in front of the message in `awoke_log`. -/
def awokeLogFront (level : AwokeLogLevel) (date : Tm) (place : Place) : List (List UInt8) :=
  (if (levelmap level).useColor then [ascii (levelmap level).color] else []) ++
    [date.text, ascii "[" ++ percentS (levelmap level).string ++ ascii "] " ++ place.text]

/-- The pieces of `awoke_log`; none if the level is not visible. -/
def awokeLog (ctx : AwokeLogContext) (level : AwokeLogLevel) (date : Tm) (place : Place)
    (message : List UInt8) : List Piece :=
  if ctx.levelVisible level then
    (awokeLogFront level date place).map libc ++ [awoke message] ++
      (if (levelmap level).useColor then [libc (ascii logColorReset)] else []) ++
      [libc (ascii "\n")]
  else []

/-- Whether `awoke_logm` prints with colours. -/
def colored (ctx : AwokeLogContext) (level : AwokeLogLevel) : Bool :=
  (levelmap level).useColor && ctx.direction != .file

/-- The pieces in front of the message in `awoke_logm`. -/
def awokeLogmFront (ctx : AwokeLogContext) (level : AwokeLogLevel) (module : BitVec 32) (date : Tm)
    (place : Place) : List (List UInt8) :=
  (if colored ctx level then [ascii (levelmap level).color] else []) ++
    [date.text,
      ascii "[" ++ percentS (moduleStringGet module) ++ ascii "] [" ++
        percentS (levelmap level).string ++ ascii "] ",
      place.text]

/-- The pieces of `awoke_logm`; none if the level or the module is not visible. -/
def awokeLogm (ctx : AwokeLogContext) (level : AwokeLogLevel) (module : BitVec 32) (date : Tm)
    (place : Place) (message : List UInt8) : List Piece :=
  match moduleGet module with
  | none => []
  | some mmap =>
      if level ≠ .logNone ∧ level.num < mmap.mlevel.num then []
      else if ctx.levelVisible level = false then []
      else if maskExst ctx.mmask module = false then []
      else
        (awokeLogmFront ctx level module date place).map libc ++ [awoke message] ++
          (if colored ctx level then [libc (ascii logColorReset)] else []) ++
          [libc (ascii "\n")]

/-! ### Printing -/

/-- A line is built in its buffer: no byte is written behind it. -/
def built (pieces : List Piece) : Bool :=
  (pieces.foldlM append (buildPtrInit awokeLogBuffMaxlen fun _ => 0)).isSome

/-- `logctx`, and the time in front of a line. -/
structure Logs where
  ctx : AwokeLogContext
  date : Tm

/-- The line of a message of `awoke_log` is built in its buffer. -/
def Logs.fits (logs : Logs) (level : AwokeLogLevel) (place : Place) (message : List UInt8) : Bool :=
  built (awokeLog logs.ctx level logs.date place message)

/-- `awoke_log` with a message; there is none where a null pointer is to be printed. -/
def Logs.print (logs : Logs) (level : AwokeLogLevel) (place : Place)
    (message : Option (List UInt8)) : Option Unit :=
  if logs.ctx.levelVisible level then
    message.bind fun message => if logs.fits level place message then some () else none
  else some ()

/-- `awoke_logm` prints the messages of a level and a module. -/
def Logs.shows (logs : Logs) (level : AwokeLogLevel) (module : BitVec 32) : Bool :=
  match moduleGet module with
  | none => false
  | some mmap =>
      !(level != .logNone && level.num < mmap.mlevel.num) && logs.ctx.levelVisible level &&
        maskExst logs.ctx.mmask module

/-- `awoke_logm` with a message; there is none where an argument is not there. -/
def Logs.printm (logs : Logs) (level : AwokeLogLevel) (module : BitVec 32) (place : Place)
    (message : Option (List UInt8)) : Option Unit :=
  if logs.shows level module then
    message.bind fun message =>
      if built (awokeLogm logs.ctx level module logs.date place message) then some () else none
  else some ()

end Awoke.LogLine
