/-
Bytes as text, `sec_base64.c`.

There is one memory, and the text may be decoded where it lies.  A `size_t` has 64 bits; no object is
so large that its length does not fit.  The address 0 is `NULL`.
-/
import Awoke.Lib.Cells

namespace Awoke.Sec.Base64

/-- `base64_enc_map`. -/
def encMap : List UInt8 :=
  ['A', 'B', 'C', 'D', 'E', 'F', 'G', 'H', 'I', 'J', 'K', 'L', 'M', 'N', 'O', 'P',
   'Q', 'R', 'S', 'T', 'U', 'V', 'W', 'X', 'Y', 'Z', 'a', 'b', 'c', 'd', 'e', 'f',
   'g', 'h', 'i', 'j', 'k', 'l', 'm', 'n', 'o', 'p', 'q', 'r', 's', 't', 'u', 'v',
   'w', 'x', 'y', 'z', '0', '1', '2', '3', '4', '5', '6', '7', '8', '9', '+', '/'].map
    fun c => c.toNat.toUInt8

/-- `base64_enc_map[...]`. -/
def encChar (i : UInt8) : UInt8 := encMap.getD i.toNat 0

/-- `base64_dec_map`. -/
def decMap : List UInt8 :=
  [127, 127, 127, 127, 127, 127, 127, 127, 127, 127, 127, 127, 127, 127, 127, 127,
   127, 127, 127, 127, 127, 127, 127, 127, 127, 127, 127, 127, 127, 127, 127, 127,
   127, 127, 127, 127, 127, 127, 127, 127, 127, 127, 127, 62, 127, 127, 127, 63,
   52, 53, 54, 55, 56, 57, 58, 59, 60, 61, 127, 127, 127, 64, 127, 127,
   127, 0, 1, 2, 3, 4, 5, 6, 7, 8, 9, 10, 11, 12, 13, 14,
   15, 16, 17, 18, 19, 20, 21, 22, 23, 24, 25, 127, 127, 127, 127, 127,
   127, 26, 27, 28, 29, 30, 31, 32, 33, 34, 35, 36, 37, 38, 39, 40,
   41, 42, 43, 44, 45, 46, 47, 48, 49, 50, 51, 127, 127, 127, 127, 127]

/-- `base64_dec_map[...]`. -/
def decChar (c : UInt8) : UInt8 := decMap.getD c.toNat 127

/-! ### Encoding -/

/-- Four characters for three bytes. -/
def encodeGroup (c1 c2 c3 : UInt8) : List UInt8 :=
  [encChar (c1 >>> 2 &&& 0x3f), encChar (((c1 &&& 3) <<< 4) + (c2 >>> 4) &&& 0x3f),
    encChar (((c2 &&& 15) <<< 2) + (c3 >>> 6) &&& 0x3f), encChar (c3 &&& 0x3f)]

/-- The loop of `sec_base64_encode`: where `p` and `src` are after so many turns, and memory. -/
def encodeLoop : Nat → Int → Int → Cells UInt8 → Int × Int × Cells UInt8
  | 0, p, src, m => (p, src, m)
  | n + 1, p, src, m =>
      encodeLoop n (p + 4) (src + 3)
        (Cells.write m p (encodeGroup (m src) (m (src + 1)) (m (src + 2))))

/-- What is put out for the last byte, or the last two. -/
def encodeRest (two : Bool) (c1 c2 : UInt8) : List UInt8 :=
  let c2 := if two then c2 else 0
  [encChar (c1 >>> 2 &&& 0x3f), encChar (((c1 &&& 3) <<< 4) + (c2 >>> 4) &&& 0x3f),
    if two then encChar ((c2 &&& 15) <<< 2 &&& 0x3f) else 61, 61]

/-- `BASE64_SIZE_T_MAX`. -/
def sizeMax : Nat := 2 ^ 64 - 1

/-- `sec_base64_encode`: what it returns, `*olen`, and memory. -/
def encode (dst : Int) (dlen : Nat) (src : Int) (slen : Nat) (m : Cells UInt8) :
    Int × Nat × Cells UInt8 :=
  if slen = 0 then (0, 0, m)
  else
    let n := slen / 3 + if slen % 3 ≠ 0 then 1 else 0
    if n > (sizeMax - 1) / 4 then (-1, sizeMax, m)
    else if dlen < n * 4 + 1 then (-1, n * 4 + 1, m)
    else
      let i := slen / 3 * 3
      let (p, src, m) := encodeLoop (slen / 3) dst src m
      let (p, m) :=
        if i < slen then
          (p + 4, Cells.write m p (encodeRest (i + 1 < slen) (m src) (m (src + 1))))
        else (p, m)
      (0, (p - dst).toNat, Function.update m p 0)

/-! ### Decoding -/

/-- The first pass: `x` spaces before the character, `n` characters and `j` pads so far. -/
def check : List UInt8 → UInt32 → Nat → Nat → Except Int (Nat × Nat)
  | [], _, n, j => .ok (n, j)
  | c :: r, x, n, j =>
      if c = 32 then check r (x + 1) n j
      else if c = 13 ∧ r.head? = some 10 then check r 0 n j
      else if c = 10 then check r 0 n j
      else if x ≠ 0 then .error (-1)
      else
        let j := if c = 61 then j + 1 else j
        if c = 61 ∧ j > 2 then .error (-2)
        else if c > 127 ∨ decChar c = 127 then .error (-3)
        else if decChar c < 64 ∧ j ≠ 0 then .error (-4)
        else check r 0 (n + 1) j

/-- The variables of the second pass. -/
structure Decoder where
  mem : Cells UInt8
  p : Int
  j : UInt32
  n : Nat
  x : UInt32

/-- `*p++ = (unsigned char) ...`. -/
def Decoder.store (d : Decoder) (v : UInt32) : Decoder :=
  { d with mem := Function.update d.mem d.p v.toUInt8, p := d.p + 1 }

/-- A turn of the second pass. -/
def Decoder.turn (d : Decoder) (c : UInt8) : Decoder :=
  if c = 13 ∨ c = 10 ∨ c = 32 then d
  else
    let d := { d with
      j := d.j - if decChar c = 64 then 1 else 0
      x := (d.x <<< 6) ||| (decChar c &&& 0x3f).toUInt32
      n := d.n + 1 }
    if d.n = 4 then
      let d := { d with n := 0 }
      let d := if d.j > 0 then d.store (d.x >>> 16) else d
      let d := if d.j > 1 then d.store (d.x >>> 8) else d
      if d.j > 2 then d.store d.x else d
    else d

/-- The second pass, in so many turns. -/
def Decoder.loop : Nat → Int → Decoder → Decoder
  | 0, _, d => d
  | i + 1, src, d => Decoder.loop i (src + 1) (d.turn (d.mem src))

/-- `sec_base64_decode`: what it returns, `*olen` if it is stored, and memory. -/
def decode (dst : Int) (dlen : Nat) (src : Int) (slen : Nat) (m : Cells UInt8) :
    Int × Option Nat × Cells UInt8 :=
  match check (Cells.slice m src slen) 0 0 0 with
  | .error e => (e, none, m)
  | .ok (n, j) =>
      if n = 0 then (0, some 0, m)
      else
        let n := ((n * 6 + 7) % 2 ^ 64 / 8 + (2 ^ 64 - j)) % 2 ^ 64
        if dst = 0 ∨ dlen < n then (-5, some n, m)
        else
          let d := Decoder.loop slen src ⟨m, dst, 3, 0, 0⟩
          (0, some (d.p - dst).toNat, d.mem)

end Awoke.Sec.Base64
