/-
Digits and bytes, `awoke_string.c`.

A string of digits is packed two to a byte, the first in the low half, and a byte is printed as
two hexadecimal digits, the high half first.  Lengths have 16 bits.  Null pointers are refused
before anything else and are left out here.
-/
import Awoke.Lib.Cells

namespace Awoke

/-! ### Printing -/

/-- What was printed one after the other: where it lies, and how much it is. -/
structure Printed where
  out : Cells UInt8
  len : Nat

/-- `len += sprintf(out + len, ...)`: some text and a NUL. -/
def Printed.sprintf (p : Printed) (text : List UInt8) : Printed :=
  { out := Cells.write p.out p.len (text ++ [0]), len := p.len + text.length }

/-- `%u`. -/
def decimalText (x : Nat) : List UInt8 := (Nat.toDigits 10 x).map fun c => c.toNat.toUInt8

/-- `%X`. -/
def upperHexText (x : Nat) : List UInt8 :=
  (Nat.toDigits 16 x).map fun c => c.toUpper.toNat.toUInt8

/-! ### Hexadecimal -/

/-- `awoke_string_from_hex`: what it returns, and the string. -/
def stringFromHex (hex string : Cells UInt8) (hexLen : UInt16) : Int × Cells UInt8 :=
  if hexLen = 0 then (-1, string)
  else
    let p := (List.range hexLen.toNat).foldl (fun (p : Printed) (i : Nat) =>
      (p.sprintf (upperHexText ((hex i &&& 0xf0) >>> 4).toNat)).sprintf
        (upperHexText (hex i &&& 0x0f).toNat)) { out := string, len := 0 }
    (p.len, Function.update p.out p.len 0)

/-- A digit that `string_htoi` reads. -/
def isHexDigit (c : UInt8) : Bool :=
  (48 ≤ c && c ≤ 57) || (97 ≤ c && c ≤ 102) || (65 ≤ c && c ≤ 70)

/-- `tolower`. -/
def lowerCase (c : UInt8) : UInt8 := if 65 ≤ c && c ≤ 90 then c + 32 else c

/-- `string_htoi`. -/
def stringHtoi (src : List UInt8) : Nat :=
  (src.takeWhile isHexDigit).foldl (fun n c =>
    let a := (lowerCase c).toNat
    if 57 < a then 16 * n + (10 + a - 97) else 16 * n + (a - 48)) 0

/-- What `strncpy` copies of the two characters at `str`. -/
def twoChars (string : Cells UInt8) (str : Int) : List UInt8 :=
  (Cells.slice string str 2).takeWhile (· != 0)

/-- The loop of `awoke_string_to_hex`: how many bytes it makes, and where they lie. -/
def toHexLoop (string : Cells UInt8) (hexLen : Nat) (i : Nat) (str : Int) (hex : Cells UInt8) :
    Nat × Cells UInt8 :=
  if i < hexLen / 2 ∧ string str ≠ 0 then
    toHexLoop string hexLen (i + 1) (str + 2)
      (Function.update hex i (stringHtoi (twoChars string str)).toUInt8)
  else (i, hex)
termination_by hexLen / 2 - i

/-- `awoke_string_to_hex`: what it returns, and the bytes. -/
def stringToHex (string hex : Cells UInt8) (hexLen : UInt16) : Int × Cells UInt8 :=
  if hexLen = 0 ∨ hexLen % 2 ≠ 0 then (-1, hex)
  else
    let r := toHexLoop string hexLen.toNat 0 0 hex
    (r.1, r.2)

/-! ### Binary coded decimals -/

/-- `ctoi`. -/
def ctoi (c : UInt8) : UInt8 := if c < 48 ∨ 57 < c then 0 else c - 48

/-- The test for a digit in `awoke_string_str2bcd`. -/
def isDigitChar (c : UInt8) : Bool := !(c < 48 || 57 < c)

/-- The loop of `awoke_string_str2bcd`: whether it was left at its end, and the bytes. -/
def str2bcdLoop (str : Cells UInt8) (binLen : Nat) (outLen : Nat) (bin : Cells UInt8) :
    Bool × Cells UInt8 :=
  if outLen + 1 < binLen then
    if isDigitChar (str outLen) && isDigitChar (str (outLen + 1)) then
      let digit1 := ctoi (str outLen)
      let digit2 := ctoi (str (outLen + 1))
      str2bcdLoop str binLen (outLen + 2)
        (Function.update bin (outLen / 2) (digit1 ||| (digit2 <<< 4 &&& 0xff)))
    else (false, bin)
  else (true, bin)
termination_by binLen - outLen

/-- `awoke_string_str2bcd`: what it returns, and the bytes. -/
def str2bcd (bin str : Cells UInt8) (binLen : UInt16) : Int × Cells UInt8 :=
  if binLen = 0 then (-1, bin)
  else
    match str2bcdLoop str binLen.toNat 0 bin with
    | (false, bin) => (-1, bin)
    | (true, bin) =>
        if binLen.toNat % 2 ≠ 0 then
          if isDigitChar (str (binLen.toNat - 1)) then
            (binLen.toNat,
              Function.update bin (binLen.toNat / 2) (ctoi (str (binLen.toNat - 1))))
          else (-1, bin)
        else (binLen.toNat, bin)

/-- `awoke_string_bcd2str`: what it returns, and the string. -/
def bcd2str (out inp : Cells UInt8) (bLen : UInt16) : Int × Cells UInt8 :=
  if bLen = 0 then (-1, out)
  else
    let p := (List.range (bLen.toNat / 2)).foldl (fun (p : Printed) (i : Nat) =>
      (p.sprintf (decimalText (inp i &&& 0x0f).toNat)).sprintf
        (decimalText ((inp i &&& 0xf0) >>> 4).toNat)) { out := out, len := 0 }
    let p :=
      if bLen.toNat % 2 ≠ 0 then
        p.sprintf (decimalText (inp (bLen.toNat / 2) &&& 0x0f).toNat)
      else p
    (p.len, Function.update p.out p.len 0)

end Awoke
