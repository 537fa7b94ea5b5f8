/-
The formatter, `awoke_printf.c`.

Every character goes to a function `out`, and `buffer` is what that function makes of them.  A format
is its characters up to the `NUL`, and an argument is what is passed for it.  To read past the end of
the format, to take an argument that is not there or of another type, to negate the least number and
to print the string at `NULL` have no result.

An `int` has 32 bits; a `long`, a `long long`, a `size_t` and a pointer have 64.  The text of a
floating-point number is a parameter; its characters go to `out` like all others.
-/
import Awoke.Lib.Cells

namespace Awoke.Printf

/-- `FLAGS_...`. -/
structure Flags where
  zeropad : Bool := false
  left : Bool := false
  plus : Bool := false
  space : Bool := false
  hash : Bool := false
  uppercase : Bool := false
  char : Bool := false
  short : Bool := false
  long : Bool := false
  longLong : Bool := false
  precision : Bool := false
  adaptExp : Bool := false
  deriving DecidableEq

/-- `PRINTF_NTOA_BUFFER_SIZE`. -/
def ntoaBufferSize : Nat := 32

/-- The code of a character. -/
def chr (c : Char) : UInt8 := c.toNat.toUInt8

/-! ### Where characters go -/

/-- `out_fct_type`: what becomes of `buffer` when a character comes, with `idx` and `maxlen`. -/
abbrev Out (σ : Type) := UInt8 → σ → Nat → Nat → σ

/-- `_out_buffer`, for the buffer at `p`. -/
def outBuffer (p : Int) : Out (Cells UInt8) := fun character m idx maxlen =>
  if idx < maxlen then Function.update m (p + idx) character else m

/-- `_out_null`. -/
def outNull {σ : Type} : Out σ := fun _ buffer _ _ => buffer

/-- `_out_char`, where `buffer` is what has been put out. -/
def outChar : Out (List UInt8) := fun character console _ _ =>
  if character ≠ 0 then console ++ [character] else console

/-- `_out_fct`, where `buffer` is what the function works on. -/
def outFct {α : Type} (fct : UInt8 → α → α) : Out α := fun character arg _ _ =>
  if character ≠ 0 then fct character arg else arg

/-- `buffer` and `idx`. -/
structure Sink (σ : Type) where
  buffer : σ
  idx : Nat

section

variable {σ δ : Type} (out : Out σ) (maxlen : Nat)

/-- `out(character, buffer, idx++, maxlen)`. -/
def Sink.put (s : Sink σ) (character : UInt8) : Sink σ :=
  ⟨out character s.buffer s.idx maxlen, s.idx + 1⟩

/-- One character after the other. -/
def Sink.puts (s : Sink σ) (text : List UInt8) : Sink σ := text.foldl (Sink.put out maxlen) s

/-- So many times a space. -/
def Sink.pad (s : Sink σ) (n : Nat) : Sink σ := s.puts out maxlen (List.replicate n 32)

/-! ### Numbers -/

/-- `_out_rev`, where `buf` holds `len` characters. -/
def outRev (buf : List UInt8) (width : Nat) (flags : Flags) (s : Sink σ) : Sink σ :=
  let startIdx := s.idx
  let s := if ¬flags.left ∧ ¬flags.zeropad then s.pad out maxlen (width - buf.length) else s
  let s := s.puts out maxlen buf.reverse
  if flags.left then s.pad out maxlen (width - (s.idx - startIdx)) else s

/-- `while ((len < n) && (len < PRINTF_NTOA_BUFFER_SIZE)) buf[len++] = '0'`. -/
def zeros (buf : List UInt8) (n : Nat) : List UInt8 :=
  buf ++ List.replicate (min n ntoaBufferSize - buf.length) 48

/-- `buf[len++] = ...`, if there is room. -/
def append (buf : List UInt8) (c : UInt8) : List UInt8 :=
  if buf.length < ntoaBufferSize then buf ++ [c] else buf

/-- What `_ntoa_format` does for `FLAGS_HASH`. -/
def hashed (buf : List UInt8) (base prec width : Nat) (flags : Flags) : List UInt8 :=
  let buf :=
    if ¬flags.precision ∧ buf ≠ [] ∧ (buf.length = prec ∨ buf.length = width) then
      let buf := buf.dropLast
      if buf ≠ [] ∧ base = 16 then buf.dropLast else buf
    else buf
  let buf :=
    if base = 16 ∧ ¬flags.uppercase then append buf (chr 'x')
    else if base = 16 ∧ flags.uppercase then append buf (chr 'X')
    else if base = 2 then append buf (chr 'b')
    else buf
  append buf 48

/-- What `_ntoa_format` puts in `buf`, and the width it leaves. -/
def ntoaBuf (buf : List UInt8) (negative : Bool) (base prec width : Nat) (flags : Flags) :
    List UInt8 × Nat :=
  let (buf, width) :=
    if flags.left then (buf, width)
    else
      let width :=
        if width ≠ 0 ∧ flags.zeropad ∧ (negative ∨ flags.plus ∨ flags.space) then width - 1
        else width
      let buf := zeros buf prec
      (if flags.zeropad then zeros buf width else buf, width)
  let buf := if flags.hash then hashed buf base prec width flags else buf
  (if negative then append buf (chr '-')
    else if flags.plus then append buf (chr '+')
    else if flags.space then append buf 32
    else buf,
    width)

/-- `_ntoa_format`. -/
def ntoaFormat (buf : List UInt8) (negative : Bool) (base prec width : Nat) (flags : Flags)
    (s : Sink σ) : Sink σ :=
  let (buf, width) := ntoaBuf buf negative base prec width flags
  outRev out maxlen buf width flags s

/-- `(char)digit`, as a character. -/
def digitChar (uppercase : Bool) (digit : Nat) : UInt8 :=
  if digit < 10 then (48 + digit).toUInt8
  else ((if uppercase then 65 else 97) + digit - 10).toUInt8

/-- The loop over the digits, the last one first, for as long as there is room. -/
def digits (uppercase : Bool) (base : Nat) : Nat → Nat → List UInt8
  | 0, _ => []
  | room + 1, value =>
      digitChar uppercase (value % base) ::
        if value / base ≠ 0 then digits uppercase base room (value / base) else []

/-- The body of `_ntoa_long` and of `_ntoa_long_long`. -/
def ntoa (value : Nat) (negative : Bool) (base prec width : Nat) (flags : Flags) (s : Sink σ) :
    Sink σ :=
  let flags := if value = 0 then { flags with hash := false } else flags
  let buf :=
    if ¬flags.precision ∨ value ≠ 0 then digits flags.uppercase base ntoaBufferSize value else []
  ntoaFormat out maxlen buf negative base prec width flags s

/-- `_ntoa_long`. -/
def ntoaLong (value : Nat) (negative : Bool) (base prec width : Nat) (flags : Flags) (s : Sink σ) :
    Sink σ :=
  ntoa out maxlen value negative base prec width flags s

/-- `_ntoa_long_long`. -/
def ntoaLongLong (value : Nat) (negative : Bool) (base prec width : Nat) (flags : Flags)
    (s : Sink σ) : Sink σ :=
  ntoa out maxlen value negative base prec width flags s

end

/-! ### Arguments and fields -/

/-- An argument: an `int`, an integer of 64 bits, a floating-point number, or a pointer and the string
it points to. -/
inductive Arg (δ : Type)
  | int (v : UInt32)
  | long (v : UInt64)
  | double (v : δ)
  | ptr (addr : UInt64) (str : List UInt8)

/-- `*format`. -/
def char (format : List UInt8) : UInt8 := format.headD 0

/-- `_is_digit`. -/
def isDigit (ch : UInt8) : Bool := 48 ≤ ch && ch ≤ 57

/-- `_atoi`. -/
def atoi : List UInt8 → Nat → Nat × List UInt8
  | [], i => (i, [])
  | c :: r, i => if isDigit c then atoi r ((i * 10 + (c.toNat - 48)) % 2 ^ 32) else (i, c :: r)

/-- The flags. -/
def flagsField : List UInt8 → Flags → Flags × List UInt8
  | [], flags => (flags, [])
  | c :: r, flags =>
      if c = chr '0' then flagsField r { flags with zeropad := true }
      else if c = chr '-' then flagsField r { flags with left := true }
      else if c = chr '+' then flagsField r { flags with plus := true }
      else if c = chr ' ' then flagsField r { flags with space := true }
      else if c = chr '#' then flagsField r { flags with hash := true }
      else (flags, c :: r)

variable {σ δ : Type}

/-- `va_arg(va, int)`. -/
def vaInt : List (Arg δ) → Option (UInt32 × List (Arg δ))
  | .int v :: va => some (v, va)
  | _ => none

/-- `va_arg(va, long)`, and the other types of 64 bits. -/
def vaLong : List (Arg δ) → Option (UInt64 × List (Arg δ))
  | .long v :: va => some (v, va)
  | _ => none

/-- `va_arg(va, double)`. -/
def vaDouble : List (Arg δ) → Option (δ × List (Arg δ))
  | .double v :: va => some (v, va)
  | _ => none

/-- `va_arg(va, char*)` and `va_arg(va, void*)`. -/
def vaPtr : List (Arg δ) → Option ((UInt64 × List UInt8) × List (Arg δ))
  | .ptr addr str :: va => some ((addr, str), va)
  | _ => none

/-- The width. -/
def widthField (flags : Flags) (format : List UInt8) (va : List (Arg δ)) :
    Option (Flags × Nat × List UInt8 × List (Arg δ)) :=
  if isDigit (char format) then
    let (width, format) := atoi format 0
    some (flags, width, format, va)
  else if char format = chr '*' then do
    let (w, va) ← vaInt va
    if w.toInt32.toInt = -2 ^ 31 then none
    else if w.toInt32.toInt < 0 then
      some ({ flags with left := true }, w.toInt32.toInt.natAbs, format.tail, va)
    else some (flags, w.toInt32.toInt.natAbs, format.tail, va)
  else some (flags, 0, format, va)

/-- The precision. -/
def precisionField (flags : Flags) (format : List UInt8) (va : List (Arg δ)) :
    Option (Flags × Nat × List UInt8 × List (Arg δ)) :=
  if char format = chr '.' then
    let flags := { flags with precision := true }
    let format := format.tail
    if isDigit (char format) then
      let (precision, format) := atoi format 0
      some (flags, precision, format, va)
    else if char format = chr '*' then do
      let (prec, va) ← vaInt va
      some (flags, prec.toInt32.toInt.toNat, format.tail, va)
    else some (flags, 0, format, va)
  else some (flags, 0, format, va)

/-- The length. -/
def lengthField (flags : Flags) (format : List UInt8) : Flags × List UInt8 :=
  if char format = chr 'l' then
    let flags := { flags with long := true }
    let format := format.tail
    if char format = chr 'l' then ({ flags with longLong := true }, format.tail) else (flags, format)
  else if char format = chr 'h' then
    let flags := { flags with short := true }
    let format := format.tail
    if char format = chr 'h' then ({ flags with char := true }, format.tail) else (flags, format)
  else if char format = chr 't' ∨ char format = chr 'j' ∨ char format = chr 'z' then
    ({ flags with long := true }, format.tail)
  else (flags, format)

/-! ### Conversions -/

/-- The value of `%d` and of `%i`. -/
def signedArg (flags : Flags) (va : List (Arg δ)) : Option (Int × List (Arg δ)) :=
  if flags.longLong ∨ flags.long then (vaLong va).map fun (v, va) => (v.toInt64.toInt, va)
  else (vaInt va).map fun (v, va) =>
    (if flags.char then v.toUInt8.toInt8.toInt
      else if flags.short then v.toUInt16.toInt16.toInt
      else v.toInt32.toInt, va)

/-- The value of the other integers. -/
def unsignedArg (flags : Flags) (va : List (Arg δ)) : Option (Nat × List (Arg δ)) :=
  if flags.longLong ∨ flags.long then (vaLong va).map fun (v, va) => (v.toNat, va)
  else (vaInt va).map fun (v, va) =>
    (if flags.char then v.toUInt8.toNat
      else if flags.short then v.toUInt16.toNat
      else v.toNat, va)

/-- `0 - value` overflows. -/
def Negates (flags : Flags) (value : Int) : Prop :=
  value ≠ if flags.longLong ∨ flags.long then -2 ^ 63 else -2 ^ 31

instance (flags : Flags) (value : Int) : Decidable (Negates flags value) :=
  inferInstanceAs (Decidable (_ ≠ _))

/-- The base. -/
def baseOf (c : UInt8) : Nat :=
  if c = chr 'x' ∨ c = chr 'X' then 16 else if c = chr 'o' then 8 else if c = chr 'b' then 2 else 10

/-- The flags of an integer. -/
def integerFlags (c : UInt8) (flags : Flags) : Flags :=
  let flags := if baseOf c = 10 then { flags with hash := false } else flags
  let flags := if c = chr 'X' then { flags with uppercase := true } else flags
  let flags :=
    if c ≠ chr 'i' ∧ c ≠ chr 'd' then { flags with plus := false, space := false } else flags
  if flags.precision then { flags with zeropad := false } else flags

/-- `_strnlen_s`. -/
def strnlenS : List UInt8 → Nat → Nat
  | [], _ => 0
  | c :: r, maxsize => if c ≠ 0 ∧ maxsize ≠ 0 then strnlenS r (maxsize - 1) + 1 else 0

/-- The characters of a string that are put out. -/
def stringChars (flags : Flags) : List UInt8 → Nat → List UInt8
  | [], _ => []
  | c :: r, precision =>
      if c ≠ 0 ∧ (¬flags.precision ∨ precision ≠ 0) then c :: stringChars flags r (precision - 1)
      else []

section

variable (out : Out σ) (maxlen : Nat)

/-- `%d`, `%i`, `%u`, `%x`, `%X`, `%o` and `%b`. -/
def integer (c : UInt8) (flags : Flags) (width precision : Nat) (va : List (Arg δ)) (s : Sink σ) :
    Option (Sink σ × List (Arg δ)) :=
  let base := baseOf c
  let flags := integerFlags c flags
  if c = chr 'i' ∨ c = chr 'd' then do
    let (value, va) ← signedArg flags va
    if Negates flags value then
      if flags.longLong then
        some (ntoaLongLong out maxlen value.natAbs (value < 0) base precision width flags s, va)
      else some (ntoaLong out maxlen value.natAbs (value < 0) base precision width flags s, va)
    else none
  else do
    let (value, va) ← unsignedArg flags va
    if flags.longLong then
      some (ntoaLongLong out maxlen value false base precision width flags s, va)
    else some (ntoaLong out maxlen value false base precision width flags s, va)

/-- `%c`. -/
def character (flags : Flags) (width : Nat) (va : List (Arg δ)) (s : Sink σ) :
    Option (Sink σ × List (Arg δ)) := do
  let s := if ¬flags.left then s.pad out maxlen (width - 1) else s
  let (v, va) ← vaInt va
  let s := s.put out maxlen v.toUInt8
  some (if flags.left then s.pad out maxlen (width - 1) else s, va)

/-- `%s`. -/
def string (flags : Flags) (width precision : Nat) (va : List (Arg δ)) (s : Sink σ) :
    Option (Sink σ × List (Arg δ)) := do
  let ((addr, p), va) ← vaPtr va
  if addr = 0 then none
  let l := strnlenS p (if precision ≠ 0 then precision else 2 ^ 64 - 1) % 2 ^ 32
  let l := if flags.precision then min l precision else l
  let s := if ¬flags.left then s.pad out maxlen (width - l) else s
  let s := s.puts out maxlen (stringChars flags p precision)
  some (if flags.left then s.pad out maxlen (width - l) else s, va)

/-- `%p`. -/
def pointer (flags : Flags) (precision : Nat) (va : List (Arg δ)) (s : Sink σ) :
    Option (Sink σ × List (Arg δ)) := do
  let flags := { flags with zeropad := true, uppercase := true }
  let ((addr, _), va) ← vaPtr va
  some (ntoaLongLong out maxlen addr.toNat false 16 precision 16 flags s, va)

/-- `%f`, `%e` and `%g`. -/
def floating (floats : UInt8 → δ → Nat → Nat → Flags → List UInt8) (c : UInt8) (flags : Flags)
    (width precision : Nat) (va : List (Arg δ)) (s : Sink σ) : Option (Sink σ × List (Arg δ)) := do
  let flags := if c = chr 'g' ∨ c = chr 'G' then { flags with adaptExp := true } else flags
  let flags :=
    if c = chr 'F' ∨ c = chr 'E' ∨ c = chr 'G' then { flags with uppercase := true } else flags
  let (v, va) ← vaDouble va
  some (s.puts out maxlen (floats c v precision width flags), va)

/-- What a specifier puts out. -/
def convert (floats : UInt8 → δ → Nat → Nat → Flags → List UInt8) (c : UInt8) (flags : Flags)
    (width precision : Nat) (va : List (Arg δ)) (s : Sink σ) : Option (Sink σ × List (Arg δ)) :=
  if c ∈ [chr 'd', chr 'i', chr 'u', chr 'x', chr 'X', chr 'o', chr 'b'] then
    integer out maxlen c flags width precision va s
  else if c ∈ [chr 'f', chr 'F', chr 'e', chr 'E', chr 'g', chr 'G'] then
    floating out maxlen floats c flags width precision va s
  else if c = chr 'c' then character out maxlen flags width va s
  else if c = chr 's' then string out maxlen flags width precision va s
  else if c = chr 'p' then pointer out maxlen flags precision va s
  else if c = 0 then none
  else some (s.put out maxlen c, va)

/-- What follows a `%`. -/
def directive (floats : UInt8 → δ → Nat → Nat → Flags → List UInt8) (format : List UInt8)
    (va : List (Arg δ)) (s : Sink σ) : Option (Sink σ × List UInt8 × List (Arg δ)) := do
  let (flags, format) := flagsField format {}
  let (flags, width, format, va) ← widthField flags format va
  let (flags, precision, format, va) ← precisionField flags format va
  let (flags, format) := lengthField flags format
  let (s, va) ← convert out maxlen floats (char format) flags width precision va s
  some (s, format.tail, va)

/-- The loop over the format, in so many turns. -/
def loop (floats : UInt8 → δ → Nat → Nat → Flags → List UInt8) :
    Nat → List UInt8 → List (Arg δ) → Sink σ → Option (Sink σ)
  | 0, _, _, s => some s
  | _ + 1, [], _, s => some s
  | turns + 1, c :: format, va, s =>
      if c = 0 then some s
      else if c ≠ chr '%' then loop floats turns format va (s.put out maxlen c)
      else do
        let (s, format, va) ← directive out maxlen floats format va s
        loop floats turns format va s

/-- `_vsnprintf`; `null` says whether the buffer is `NULL`. -/
def vsnprintfOut (floats : UInt8 → δ → Nat → Nat → Flags → List UInt8) (null : Bool) (buffer : σ)
    (format : List UInt8) (va : List (Arg δ)) : Option (σ × Int) := do
  let out := if null then outNull else out
  let s ← loop out maxlen floats format.length format va ⟨buffer, 0⟩
  let last := if s.idx < maxlen then s.idx else (maxlen + (2 ^ 64 - 1)) % 2 ^ 64
  some (out 0 s.buffer last maxlen, (BitVec.ofNat 32 s.idx).toInt)

end

/-! ### The functions -/

variable (floats : UInt8 → δ → Nat → Nat → Flags → List UInt8)

/-- `awoke_printf` and `awoke_vprintf`: what is put out behind what there is. -/
def awokePrintf (format : List UInt8) (va : List (Arg δ)) (console : List UInt8) :
    Option (List UInt8 × Int) :=
  vsnprintfOut outChar (2 ^ 64 - 1) floats false console format va

/-- `awoke_snprintf` and `awoke_vsnprintf`. -/
def awokeVsnprintf (buffer : Int) (count : Nat) (format : List UInt8) (va : List (Arg δ))
    (m : Cells UInt8) : Option (Cells UInt8 × Int) :=
  vsnprintfOut (outBuffer buffer) count floats (buffer = 0) m format va

/-- `awoke_sprintf`. -/
def awokeSprintf (buffer : Int) (format : List UInt8) (va : List (Arg δ)) (m : Cells UInt8) :
    Option (Cells UInt8 × Int) :=
  vsnprintfOut (outBuffer buffer) (2 ^ 64 - 1) floats (buffer = 0) m format va

/-- `awoke_fctprintf`. -/
def awokeFctprintf {α : Type} (fct : UInt8 → α → α) (arg : α) (format : List UInt8)
    (va : List (Arg δ)) : Option (α × Int) :=
  vsnprintfOut (outFct fct) (2 ^ 64 - 1) floats false arg format va

end Awoke.Printf
