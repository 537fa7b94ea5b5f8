/-
Bytes under AES where they lie, `sec_aes.c`.

There is one memory.  What is encrypted may lie where the ciphertext is put, or across it; the block
before, the key and the context are copies of a function's own.  The address 0 is `NULL`.
-/
import Awoke.Lib.Copy
import Awoke.Sec.AesBlock

namespace Awoke.Sec

/-- `BlockCopy`. -/
def blockCopy (m : Cells UInt8) (output input : Int) : Cells UInt8 :=
  Cells.copyUp (fun _ b => b) output input m 16

/-- `mbedtls_aes_crypt_ecb`: the block is copied, and the cipher works on the copy. -/
def cryptEcbAt (ctx : AesContext) (mode : Mode) (m : Cells UInt8) (input output : Int) :
    Cells UInt8 :=
  let m := blockCopy m output input
  Cells.write m output (mbedtlsAesEncrypt ctx mode (blockAt m output)).toList

/-- `for (i = 0; i < 16; i++) output[i] = input[i] ^ iv[i]`. -/
def xorAt (m : Cells UInt8) (output input : Int) (iv : Block) : Cells UInt8 :=
  Cells.copyUp (fun i b => b ^^^ iv[i]?.getD 0) output input m 16

/-- The loop that decrypts, in so many turns: what `iv` and memory hold after. -/
def decryptAt (ctx : AesContext) :
    Nat → Block → Int → Int → Cells UInt8 → Block × Cells UInt8
  | 0, iv, _, _, m => (iv, m)
  | n + 1, iv, input, output, m =>
      let temp := blockAt m input
      let m := cryptEcbAt ctx .decrypt m input output
      let m := xorAt m output output iv
      decryptAt ctx n temp (input + 16) (output + 16) m

/-- The loop that encrypts. -/
def encryptAt (ctx : AesContext) :
    Nat → Block → Int → Int → Cells UInt8 → Block × Cells UInt8
  | 0, iv, _, _, m => (iv, m)
  | n + 1, iv, input, output, m =>
      let m := xorAt m output input iv
      let m := cryptEcbAt ctx .encrypt m output output
      encryptAt ctx n (blockAt m output) (input + 16) (output + 16) m

/-- `mbedtls_aes_crypt_cbc`: what it returns, and what `iv` and memory hold after. -/
def cryptCbcAt (ctx : AesContext) (mode : Mode) (length : Nat) (iv : Block) (input output : Int)
    (m : Cells UInt8) : Int × Block × Cells UInt8 :=
  if length % 16 ≠ 0 then (-0x0022, iv, m)
  else
    (0, match mode with
      | .decrypt => decryptAt ctx (length / 16) iv input output m
      | .encrypt => encryptAt ctx (length / 16) iv input output m)

/-- `mbedtls_aes_init`. -/
def mbedtlsAesInit : AesContext := Vector.replicate 176 0

/-- `SEC_AES128_ALIGN`, as a `uint16_t`. -/
def secAes128Align (len : UInt16) : UInt16 := UInt16.ofNat ((len.toNat / 16 + 1) * 16)

/-- `sec_aes128_enc_bytes`: what it returns, and memory after. -/
def secAes128EncBytes (key inv bytes : Int) (len : UInt16) (out : Int) (outLen : UInt16)
    (m : Cells UInt8) : Int × Cells UInt8 :=
  if key = 0 ∨ inv = 0 ∨ bytes = 0 ∨ out = 0 ∨ len = 0 then (-1, m)
  else
    let inv := blockAt m inv
    let key := blockAt m key
    let alignLen := secAes128Align len
    if alignLen > outLen then (-1, m)
    else
      let ctx := (mbedtlsAesSetkeyEnc mbedtlsAesInit key 128).2
      (alignLen.toNat, (cryptCbcAt ctx .encrypt alignLen.toNat inv bytes out m).2.2)

/-- `sec_aes128_dec_bytes`: what it returns, and memory after. -/
def secAes128DecBytes (key inv bytes : Int) (len : UInt16) (out : Int) (outLen : UInt16)
    (m : Cells UInt8) : Int × Cells UInt8 :=
  if key = 0 ∨ inv = 0 ∨ bytes = 0 ∨ out = 0 ∨ len = 0 then (-1, m)
  else if len > outLen then (-1, m)
  else
    let inv := blockAt m inv
    let key := blockAt m key
    let ctx := (mbedtlsAesSetkeyDec mbedtlsAesInit key 128).2
    (len.toNat, (cryptCbcAt ctx .decrypt len.toNat inv bytes out m).2.2)

end Awoke.Sec
