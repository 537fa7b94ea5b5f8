/-
The cipher itself, `sec_aes.c`.

The state is the sixteen bytes of a block; `(*state)[i][j]` is the one at `4 * i + j`.  The eleven
round keys of a context are one array of 176 bytes.
-/
import Awoke.Sec.Aes

namespace Awoke.Sec

/-- `sbox`. -/
def sbox : Array UInt8 :=
  #[
    0x63, 0x7c, 0x77, 0x7b, 0xf2, 0x6b, 0x6f, 0xc5, 0x30, 0x01, 0x67, 0x2b, 0xfe, 0xd7, 0xab, 0x76,
    0xca, 0x82, 0xc9, 0x7d, 0xfa, 0x59, 0x47, 0xf0, 0xad, 0xd4, 0xa2, 0xaf, 0x9c, 0xa4, 0x72, 0xc0,
    0xb7, 0xfd, 0x93, 0x26, 0x36, 0x3f, 0xf7, 0xcc, 0x34, 0xa5, 0xe5, 0xf1, 0x71, 0xd8, 0x31, 0x15,
    0x04, 0xc7, 0x23, 0xc3, 0x18, 0x96, 0x05, 0x9a, 0x07, 0x12, 0x80, 0xe2, 0xeb, 0x27, 0xb2, 0x75,
    0x09, 0x83, 0x2c, 0x1a, 0x1b, 0x6e, 0x5a, 0xa0, 0x52, 0x3b, 0xd6, 0xb3, 0x29, 0xe3, 0x2f, 0x84,
    0x53, 0xd1, 0x00, 0xed, 0x20, 0xfc, 0xb1, 0x5b, 0x6a, 0xcb, 0xbe, 0x39, 0x4a, 0x4c, 0x58, 0xcf,
    0xd0, 0xef, 0xaa, 0xfb, 0x43, 0x4d, 0x33, 0x85, 0x45, 0xf9, 0x02, 0x7f, 0x50, 0x3c, 0x9f, 0xa8,
    0x51, 0xa3, 0x40, 0x8f, 0x92, 0x9d, 0x38, 0xf5, 0xbc, 0xb6, 0xda, 0x21, 0x10, 0xff, 0xf3, 0xd2,
    0xcd, 0x0c, 0x13, 0xec, 0x5f, 0x97, 0x44, 0x17, 0xc4, 0xa7, 0x7e, 0x3d, 0x64, 0x5d, 0x19, 0x73,
    0x60, 0x81, 0x4f, 0xdc, 0x22, 0x2a, 0x90, 0x88, 0x46, 0xee, 0xb8, 0x14, 0xde, 0x5e, 0x0b, 0xdb,
    0xe0, 0x32, 0x3a, 0x0a, 0x49, 0x06, 0x24, 0x5c, 0xc2, 0xd3, 0xac, 0x62, 0x91, 0x95, 0xe4, 0x79,
    0xe7, 0xc8, 0x37, 0x6d, 0x8d, 0xd5, 0x4e, 0xa9, 0x6c, 0x56, 0xf4, 0xea, 0x65, 0x7a, 0xae, 0x08,
    0xba, 0x78, 0x25, 0x2e, 0x1c, 0xa6, 0xb4, 0xc6, 0xe8, 0xdd, 0x74, 0x1f, 0x4b, 0xbd, 0x8b, 0x8a,
    0x70, 0x3e, 0xb5, 0x66, 0x48, 0x03, 0xf6, 0x0e, 0x61, 0x35, 0x57, 0xb9, 0x86, 0xc1, 0x1d, 0x9e,
    0xe1, 0xf8, 0x98, 0x11, 0x69, 0xd9, 0x8e, 0x94, 0x9b, 0x1e, 0x87, 0xe9, 0xce, 0x55, 0x28, 0xdf,
    0x8c, 0xa1, 0x89, 0x0d, 0xbf, 0xe6, 0x42, 0x68, 0x41, 0x99, 0x2d, 0x0f, 0xb0, 0x54, 0xbb, 0x16]

/-- `rsbox`. -/
def rsbox : Array UInt8 :=
  #[
    0x52, 0x09, 0x6a, 0xd5, 0x30, 0x36, 0xa5, 0x38, 0xbf, 0x40, 0xa3, 0x9e, 0x81, 0xf3, 0xd7, 0xfb,
    0x7c, 0xe3, 0x39, 0x82, 0x9b, 0x2f, 0xff, 0x87, 0x34, 0x8e, 0x43, 0x44, 0xc4, 0xde, 0xe9, 0xcb,
    0x54, 0x7b, 0x94, 0x32, 0xa6, 0xc2, 0x23, 0x3d, 0xee, 0x4c, 0x95, 0x0b, 0x42, 0xfa, 0xc3, 0x4e,
    0x08, 0x2e, 0xa1, 0x66, 0x28, 0xd9, 0x24, 0xb2, 0x76, 0x5b, 0xa2, 0x49, 0x6d, 0x8b, 0xd1, 0x25,
    0x72, 0xf8, 0xf6, 0x64, 0x86, 0x68, 0x98, 0x16, 0xd4, 0xa4, 0x5c, 0xcc, 0x5d, 0x65, 0xb6, 0x92,
    0x6c, 0x70, 0x48, 0x50, 0xfd, 0xed, 0xb9, 0xda, 0x5e, 0x15, 0x46, 0x57, 0xa7, 0x8d, 0x9d, 0x84,
    0x90, 0xd8, 0xab, 0x00, 0x8c, 0xbc, 0xd3, 0x0a, 0xf7, 0xe4, 0x58, 0x05, 0xb8, 0xb3, 0x45, 0x06,
    0xd0, 0x2c, 0x1e, 0x8f, 0xca, 0x3f, 0x0f, 0x02, 0xc1, 0xaf, 0xbd, 0x03, 0x01, 0x13, 0x8a, 0x6b,
    0x3a, 0x91, 0x11, 0x41, 0x4f, 0x67, 0xdc, 0xea, 0x97, 0xf2, 0xcf, 0xce, 0xf0, 0xb4, 0xe6, 0x73,
    0x96, 0xac, 0x74, 0x22, 0xe7, 0xad, 0x35, 0x85, 0xe2, 0xf9, 0x37, 0xe8, 0x1c, 0x75, 0xdf, 0x6e,
    0x47, 0xf1, 0x1a, 0x71, 0x1d, 0x29, 0xc5, 0x89, 0x6f, 0xb7, 0x62, 0x0e, 0xaa, 0x18, 0xbe, 0x1b,
    0xfc, 0x56, 0x3e, 0x4b, 0xc6, 0xd2, 0x79, 0x20, 0x9a, 0xdb, 0xc0, 0xfe, 0x78, 0xcd, 0x5a, 0xf4,
    0x1f, 0xdd, 0xa8, 0x33, 0x88, 0x07, 0xc7, 0x31, 0xb1, 0x12, 0x10, 0x59, 0x27, 0x80, 0xec, 0x5f,
    0x60, 0x51, 0x7f, 0xa9, 0x19, 0xb5, 0x4a, 0x0d, 0x2d, 0xe5, 0x7a, 0x9f, 0x93, 0xc9, 0x9c, 0xef,
    0xa0, 0xe0, 0x3b, 0x4d, 0xae, 0x2a, 0xf5, 0xb0, 0xc8, 0xeb, 0xbb, 0x3c, 0x83, 0x53, 0x99, 0x61,
    0x17, 0x2b, 0x04, 0x7e, 0xba, 0x77, 0xd6, 0x26, 0xe1, 0x69, 0x14, 0x63, 0x55, 0x21, 0x0c, 0x7d]

/-- `Rcon`. -/
def rcon : Array UInt8 :=
  #[
    0x8d, 0x01, 0x02, 0x04, 0x08, 0x10, 0x20, 0x40, 0x80, 0x1b, 0x36, 0x6c, 0xd8, 0xab, 0x4d, 0x9a,
    0x2f, 0x5e, 0xbc, 0x63, 0xc6, 0x97, 0x35, 0x6a, 0xd4, 0xb3, 0x7d, 0xfa, 0xef, 0xc5, 0x91, 0x39,
    0x72, 0xe4, 0xd3, 0xbd, 0x61, 0xc2, 0x9f, 0x25, 0x4a, 0x94, 0x33, 0x66, 0xcc, 0x83, 0x1d, 0x3a,
    0x74, 0xe8, 0xcb, 0x8d, 0x01, 0x02, 0x04, 0x08, 0x10, 0x20, 0x40, 0x80, 0x1b, 0x36, 0x6c, 0xd8,
    0xab, 0x4d, 0x9a, 0x2f, 0x5e, 0xbc, 0x63, 0xc6, 0x97, 0x35, 0x6a, 0xd4, 0xb3, 0x7d, 0xfa, 0xef,
    0xc5, 0x91, 0x39, 0x72, 0xe4, 0xd3, 0xbd, 0x61, 0xc2, 0x9f, 0x25, 0x4a, 0x94, 0x33, 0x66, 0xcc,
    0x83, 0x1d, 0x3a, 0x74, 0xe8, 0xcb, 0x8d, 0x01, 0x02, 0x04, 0x08, 0x10, 0x20, 0x40, 0x80, 0x1b,
    0x36, 0x6c, 0xd8, 0xab, 0x4d, 0x9a, 0x2f, 0x5e, 0xbc, 0x63, 0xc6, 0x97, 0x35, 0x6a, 0xd4, 0xb3,
    0x7d, 0xfa, 0xef, 0xc5, 0x91, 0x39, 0x72, 0xe4, 0xd3, 0xbd, 0x61, 0xc2, 0x9f, 0x25, 0x4a, 0x94,
    0x33, 0x66, 0xcc, 0x83, 0x1d, 0x3a, 0x74, 0xe8, 0xcb, 0x8d, 0x01, 0x02, 0x04, 0x08, 0x10, 0x20,
    0x40, 0x80, 0x1b, 0x36, 0x6c, 0xd8, 0xab, 0x4d, 0x9a, 0x2f, 0x5e, 0xbc, 0x63, 0xc6, 0x97, 0x35,
    0x6a, 0xd4, 0xb3, 0x7d, 0xfa, 0xef, 0xc5, 0x91, 0x39, 0x72, 0xe4, 0xd3, 0xbd, 0x61, 0xc2, 0x9f,
    0x25, 0x4a, 0x94, 0x33, 0x66, 0xcc, 0x83, 0x1d, 0x3a, 0x74, 0xe8, 0xcb, 0x8d, 0x01, 0x02, 0x04,
    0x08, 0x10, 0x20, 0x40, 0x80, 0x1b, 0x36, 0x6c, 0xd8, 0xab, 0x4d, 0x9a, 0x2f, 0x5e, 0xbc, 0x63,
    0xc6, 0x97, 0x35, 0x6a, 0xd4, 0xb3, 0x7d, 0xfa, 0xef, 0xc5, 0x91, 0x39, 0x72, 0xe4, 0xd3, 0xbd,
    0x61, 0xc2, 0x9f, 0x25, 0x4a, 0x94, 0x33, 0x66, 0xcc, 0x83, 0x1d, 0x3a, 0x74, 0xe8, 0xcb]

/-- `getSBoxValue`. -/
def getSBoxValue (num : UInt8) : UInt8 := sbox.getD num.toNat 0

/-- `getSBoxInvert`. -/
def getSBoxInvert (num : UInt8) : UInt8 := rsbox.getD num.toNat 0

/-- `xtime`. -/
def xtime (x : UInt8) : UInt8 := x <<< 1 ^^^ (x >>> 7 &&& 1) * 0x1b

/-- `mbedtls_aes_context`: `RoundKey`. -/
abbrev AesContext := Vector UInt8 176

/-! ### Rounds -/

/-- `AddRoundKey`. -/
def addRoundKey (roundKey : AesContext) (round : Nat) (state : Block) : Block :=
  Vector.ofFn fun n => state[n] ^^^ roundKey[round * 16 + n]?.getD 0

/-- `SubBytes`. -/
def subBytes (state : Block) : Block := state.map getSBoxValue

/-- `InvSubBytes`. -/
def invSubBytes (state : Block) : Block := state.map getSBoxInvert

/-- `ShiftRows`. -/
def shiftRows (s : Block) : Block :=
  let temp := s[1]
  let s := s.set 1 s[5]
  let s := s.set 5 s[9]
  let s := s.set 9 s[13]
  let s := s.set 13 temp
  let temp := s[2]
  let s := s.set 2 s[10]
  let s := s.set 10 temp
  let temp := s[6]
  let s := s.set 6 s[14]
  let s := s.set 14 temp
  let temp := s[3]
  let s := s.set 3 s[15]
  let s := s.set 15 s[11]
  let s := s.set 11 s[7]
  s.set 7 temp

/-- `InvShiftRows`. -/
def invShiftRows (s : Block) : Block :=
  let temp := s[13]
  let s := s.set 13 s[9]
  let s := s.set 9 s[5]
  let s := s.set 5 s[1]
  let s := s.set 1 temp
  let temp := s[2]
  let s := s.set 2 s[10]
  let s := s.set 10 temp
  let temp := s[6]
  let s := s.set 6 s[14]
  let s := s.set 14 temp
  let temp := s[3]
  let s := s.set 3 s[7]
  let s := s.set 7 s[11]
  let s := s.set 11 s[15]
  s.set 15 temp

/-- `a0`, `a1`, `a2` and `a3`. -/
structure MixAcc where
  a0 : UInt8
  a1 : UInt8
  a2 : UInt8
  a3 : UInt8

/-- A turn of the inner loop of `MixColumns`. -/
def mixTurn (mode : Mode) (a : MixAcc) (t : UInt8) : MixAcc :=
  let a0 := a.a0 ^^^ t
  let a1 := a.a1 ^^^ t
  let a2 := a.a2 ^^^ t
  let a3 := a.a3
  let t := xtime t
  match mode with
  | .encrypt => ⟨a1, a2 ^^^ t, a3 ^^^ t, a0⟩
  | .decrypt =>
      let a2 := a2 ^^^ t
      let a3 := a3 ^^^ t
      let t := xtime t
      let a1 := a1 ^^^ t
      let a3 := a3 ^^^ t
      let t := xtime t
      let a0 := a0 ^^^ t
      let a1 := a1 ^^^ t
      ⟨a1, a2 ^^^ t, a3 ^^^ t, a0⟩

/-- The inner loop, over a column. -/
def mixColumn (mode : Mode) (column : List UInt8) : MixAcc :=
  column.foldl (mixTurn mode) ⟨0, 0, 0, 0⟩

/-- A turn of the outer loop, for the column `c0`. -/
def mixColumnAt (mode : Mode) (s : Block) (c0 : Fin 4) : Block :=
  let a := mixColumn mode ((List.finRange 4).map fun c1 => s[c0.val * 4 + c1.val])
  let s := s.set (c0.val * 4) a.a3
  let s := s.set (c0.val * 4 + 1) a.a0
  let s := s.set (c0.val * 4 + 2) a.a1
  s.set (c0.val * 4 + 3) a.a2

/-- `MixColumns`. -/
def mixColumns (mode : Mode) (state : Block) : Block :=
  (List.finRange 4).foldl (mixColumnAt mode) state

/-! ### The cipher -/

/-- A turn of the loop in `Cipher`. -/
def cipherRound (roundKey : AesContext) (state : Block) (round : Nat) : Block :=
  addRoundKey roundKey round (mixColumns .encrypt (shiftRows (subBytes state)))

/-- `Cipher`. -/
def cipher (roundKey : AesContext) (state : Block) : Block :=
  let state := (List.range' 1 9).foldl (cipherRound roundKey) (addRoundKey roundKey 0 state)
  addRoundKey roundKey 10 (shiftRows (subBytes state))

/-- A turn of the loop in `InvCipher`. -/
def invCipherRound (roundKey : AesContext) (state : Block) (round : Nat) : Block :=
  mixColumns .decrypt (addRoundKey roundKey round (invSubBytes (invShiftRows state)))

/-- `InvCipher`. -/
def invCipher (roundKey : AesContext) (state : Block) : Block :=
  let state := (List.range' 1 9).reverse.foldl (invCipherRound roundKey)
    (addRoundKey roundKey 10 state)
  addRoundKey roundKey 0 (invSubBytes (invShiftRows state))

/-- `mbedtls_aes_encrypt`: what is written to `output`. -/
def mbedtlsAesEncrypt (ctx : AesContext) (mode : Mode) (input : Block) : Block :=
  match mode with
  | .encrypt => cipher ctx input
  | .decrypt => invCipher ctx input

/-! ### Keys -/

/-- `RotWord`. -/
def rotWord (w : Vector UInt8 4) : Vector UInt8 4 := #v[w[1], w[2], w[3], w[0]]

/-- `SubWord`. -/
def subWord (w : Vector UInt8 4) : Vector UInt8 4 := w.map getSBoxValue

/-- The word `i` of a schedule. -/
def wordAt (roundKey : AesContext) (i : Nat) : Vector UInt8 4 :=
  Vector.ofFn fun j => roundKey[i * 4 + j]?.getD 0

/-- The word `i` of a schedule is written. -/
def setWord (roundKey : AesContext) (i : Nat) (w : Vector UInt8 4) : AesContext :=
  (List.finRange 4).foldl (fun rk j => rk.setIfInBounds (i * 4 + j.val) w[j]) roundKey

/-- The turn of the second loop in `KeyExpansion` that makes the word `i`. -/
def expandWord (roundKey : AesContext) (i : Nat) : AesContext :=
  let tempa := wordAt roundKey (i - 1)
  let tempa := if i % 4 = 0 then
      let subbed := subWord (rotWord tempa)
      subbed.set 0 (subbed[0] ^^^ rcon.getD (i / 4) 0)
    else tempa
  setWord roundKey i (Vector.zipWith (· ^^^ ·) (wordAt roundKey (i - 4)) tempa)

/-- `KeyExpansion`: what is in `RoundKey` after. -/
def keyExpansion (roundKey : AesContext) (key : Block) : AesContext :=
  let roundKey := (List.finRange 4).foldl (fun rk i =>
    setWord rk i.val (Vector.ofFn fun j => key[i.val * 4 + j.val])) roundKey
  (List.range' 4 40).foldl expandWord roundKey

/-- `mbedtls_aes_setkey_enc`: what it returns, and the context after. -/
def mbedtlsAesSetkeyEnc (ctx : AesContext) (key : Block) (keybits : Nat) : Int × AesContext :=
  if keybits ≠ 128 then (-0x0022, ctx) else (0, keyExpansion ctx key)

/-- `mbedtls_aes_setkey_dec`. -/
def mbedtlsAesSetkeyDec (ctx : AesContext) (key : Block) (keybits : Nat) : Int × AesContext :=
  mbedtlsAesSetkeyEnc ctx key keybits

end Awoke.Sec
