/-
Strings under AES, `sec_aes.c`.

The cipher is any permutation of blocks for every key; the rest is as the code has it: strings are
padded, the blocks are chained, and the ciphertext goes back as a pointer to what was allocated for
it, to be measured with `strlen` like a string.

The `n`-th block that a function allocates lies where there was `heap n` before.  To write to what
`mem_alloc_z` could not give, or to read past what there is, has no result.  The lines that
`aes_cbc_enc_string` and `aes_cbc_dec_string` print on the way are left out; they measure the padded
strings and the blocks with `strlen`, which have no NUL behind them.
-/
import Awoke.Lib.Cbc
import Awoke.Lib.Pieces
import Awoke.Lib.Search
import Awoke.Util.BuildPtr

namespace Awoke.Sec

open Cells (Pen)

/-- `err_type`, as far as it is returned here. -/
inductive AesErr
  | etOk
  | etAesEnc
  deriving DecidableEq, Repr

/-! ### Memory -/

/-- What was allocated: how much, and the memory from there on. -/
structure Alloc where
  size : Nat
  mem : Cells UInt8

/-- What it holds. -/
def Alloc.bytes (a : Alloc) : List UInt8 := Cells.slice a.mem 0 a.size

/-- `mem_alloc_z`; no allocation has more bytes than `ptrdiff_t` can count. -/
def memAllocZ (heap : Cells UInt8) (size : Nat) : Option Alloc :=
  if size < 2 ^ 63 then some { size := size, mem := Cells.fill heap 0 size 0 } else none

/-- `strlen`, where `stop` bytes can be read. -/
def strlen (m : Cells UInt8) (stop : Nat) : Option Nat :=
  (Search.first (fun i => m i = 0) 0 stop).map Int.toNat

/-- `(size_t)` of an `int`. -/
def sizeT (n : Int) : Nat := (n % 2 ^ 64).toNat

/-- `_buf_push_safe`, where `stop` is the last byte. -/
def bufPushSafe (stop : Int) (p : Pen UInt8) (data : List UInt8) : Pen UInt8 :=
  if data.length ≤ stop - p.pos + 1 then p.put data
  else if stop - p.pos + 1 = 0 then p.put data
  else p.skip data.length

/-- The length a string is padded to. -/
def alignLen (len align : Nat) : Nat := if len = align then align else (len / align + 1) * align

/-- `awoke_string_padding`: the new string and `*rlen`; `none` inside is `NULL`. -/
def awokeStringPadding (heap : Cells UInt8) (s : CStr) (c : UInt8) (align : Int) :
    Option (Option (Alloc × Int)) :=
  if align ≤ 0 then some none
  else do
    let newS ← memAllocZ heap (alignLen s.len align.toNat)
    let stop : Int := newS.size - 1
    let p := bufPushSafe stop ⟨newS.mem, 0⟩ s.bytes
    let p := (List.replicate (newS.size - s.len) [c]).foldl (bufPushSafe stop) p
    return some ({ newS with mem := p.mem }, (newS.size : Int).bmod (2 ^ 32))

/-! ### Chaining -/

/-- Sixteen bytes. -/
abbrev Block := Vector UInt8 16

/-- The sixteen bytes that lie there. -/
def blockAt (m : Cells UInt8) (p : Int) : Block := Vector.ofFn fun i => m (p + (i : Nat))

/-- The loop that mixes one block into another, byte by byte. -/
def xorBlock (a b : Block) : Block := Vector.zipWith (· ^^^ ·) a b

/-- `MBEDTLS_AES_ENCRYPT` and `MBEDTLS_AES_DECRYPT`. -/
inductive Mode
  | encrypt
  | decrypt
  deriving DecidableEq, Repr

/-- `mbedtls_aes_crypt_ecb`, with the key whose schedule is in `ctx`. -/
def mbedtlsAesCryptEcb (cipher : Block → Equiv.Perm Block) (ctx : Block) : Mode → Block → Block
  | .encrypt => cipher ctx
  | .decrypt => (cipher ctx).symm

/-- The loop that encrypts, in so many turns: what `iv` holds after, and what is written. -/
def encryptLoop (crypt : Block → Block) (input : Cells UInt8) :
    Nat → Block → Int → Pen UInt8 → Block × Pen UInt8
  | 0, iv, _, output => (iv, output)
  | n + 1, iv, p, output =>
      let block := crypt (xorBlock (blockAt input p) iv)
      encryptLoop crypt input n block (p + 16) (output.put block.toList)

/-- The loop that decrypts. -/
def decryptLoop (crypt : Block → Block) (input : Cells UInt8) :
    Nat → Block → Int → Pen UInt8 → Block × Pen UInt8
  | 0, iv, _, output => (iv, output)
  | n + 1, iv, p, output =>
      let block := xorBlock (crypt (blockAt input p)) iv
      decryptLoop crypt input n (blockAt input p) (p + 16) (output.put block.toList)

/-- `mbedtls_aes_crypt_cbc`: what it returns, and what `iv` and `output` hold after. -/
def mbedtlsAesCryptCbc (crypt : Mode → Block → Block) (mode : Mode) (length : Nat) (iv : Block)
    (input output : Cells UInt8) : Int × Block × Cells UInt8 :=
  if length % 16 ≠ 0 then (-0x0022, iv, output)
  else
    let r := match mode with
      | .decrypt => decryptLoop (crypt .decrypt) input (length / 16) iv 0 ⟨output, 0⟩
      | .encrypt => encryptLoop (crypt .encrypt) input (length / 16) iv 0 ⟨output, 0⟩
    (0, r.1, r.2.mem)

/-! ### Strings -/

variable (cipher : Block → Equiv.Perm Block) (heap : Nat → Cells UInt8)

/-- `aes_cbc_enc_string`: what it returns, and what `*out` points to. -/
def aesCbcEncString (key inv : CStr) (keyLen : Int) (str : CStr) :
    Option (AesErr × Option Alloc) :=
  if keyLen ≤ 0 then some (.etAesEnc, none)
  else if (key.len : Int).bmod (2 ^ 32) > keyLen then some (.etAesEnc, none)
  else if (inv.len : Int).bmod (2 ^ 32) > keyLen then some (.etAesEnc, none)
  else do
    let some (safeKey, _) ← awokeStringPadding (heap 0) key 0x20 keyLen
      | return (.etAesEnc, none)
    let some (safeInv, _) ← awokeStringPadding (heap 1) inv 0x20 keyLen
      | return (.etAesEnc, none)
    let some (safeStr, safeStrLen) ← awokeStringPadding (heap 2) str 0x20 keyLen
      | return (.etAesEnc, none)
    let safeEnc ← memAllocZ (heap 3) (sizeT safeStrLen)
    let ctx := blockAt safeKey.mem 0
    let (_, _, enc) := mbedtlsAesCryptCbc (mbedtlsAesCryptEcb cipher ctx) .encrypt
      (sizeT safeStrLen) (blockAt safeInv.mem 0) safeStr.mem safeEnc.mem
    return (.etOk, some { safeEnc with mem := enc })

/-- `aes_cbc_dec_string`, where `stop` bytes can be read from `str` on. -/
def aesCbcDecString (key inv : CStr) (keyLen : Int) (str : Cells UInt8) (stop : Nat) :
    Option (AesErr × Option Alloc) :=
  if keyLen ≤ 0 then some (.etAesEnc, none)
  else if (key.len : Int).bmod (2 ^ 32) > keyLen then some (.etAesEnc, none)
  else if (inv.len : Int).bmod (2 ^ 32) > keyLen then some (.etAesEnc, none)
  else do
    let some (safeKey, _) ← awokeStringPadding (heap 0) key 0x20 keyLen
      | return (.etAesEnc, none)
    let some (safeInv, _) ← awokeStringPadding (heap 1) inv 0x20 keyLen
      | return (.etAesEnc, none)
    let len ← strlen str stop
    let safeDec ← memAllocZ (heap 2) len
    let ctx := blockAt safeKey.mem 0
    let (_, _, dec) := mbedtlsAesCryptCbc (mbedtlsAesCryptEcb cipher ctx) .decrypt len
      (blockAt safeInv.mem 0) str safeDec.mem
    return (.etOk, some { safeDec with mem := dec })

end Awoke.Sec
