/-
Bytes that are encrypted and decrypted in one memory.

As long as no block is written over one that is still to be read, chaining in memory is chaining of
the blocks that lay there before.  So it is where the output begins at the input or before it, and
where it begins behind it.
-/
import Awoke.Proofs.Aes
import Awoke.Proofs.AesBlock
import Awoke.Sec.AesBytes

namespace Awoke.Sec

open Cells (Pen)

/-- The cipher of a context is a permutation of the blocks. -/
def permutation (ctx : AesContext) : Equiv.Perm Block where
  toFun := mbedtlsAesEncrypt ctx .encrypt
  invFun := mbedtlsAesEncrypt ctx .decrypt
  left_inv := invCipher_cipher ctx
  right_inv := cipher_invCipher ctx

/-- The cipher of a key. -/
def aes (key : Block) : Equiv.Perm Block := permutation (mbedtlsAesSetkeyEnc mbedtlsAesInit key 128).2

/-! ### Strings under this cipher -/

/-- `key`. -/
def keyText : CStr := { bytes := [107, 101, 121], no_nul := by decide }

/-- `iv`. -/
def ivText : CStr := { bytes := [105, 118], no_nul := by decide }

/-- `a text of two blocks`. -/
def twoBlocks : CStr where
  bytes := [97, 32, 116, 101, 120, 116, 32, 111, 102, 32, 116, 119, 111, 32, 98, 108, 111, 99, 107,
    115]
  no_nul := by decide

/-- Its ciphertext has no zero byte, and it comes back where one lies behind it. -/
theorem roundTrip_iff_ends_twoBlocks :
    RoundTrip aes (fun _ _ => 0) (fun _ _ => 0) 1 keyText ivText twoBlocks := by
  have hlength : (ciphertext aes keyText ivText (padded twoBlocks)).length = 32 :=
    ciphertext_length (by decide)
  refine (roundTrip_iff_ends aes (fun _ _ => 0) (fun _ _ => 0) 1 keyText ivText twoBlocks
    (by decide) (by decide)).mpr
    ⟨⟨by decide, by decide⟩, by decide +kernel, fun j hj hle => ?_, rfl, by decide⟩
  have hall : encLen twoBlocks = 32 := by decide
  omega

/-- `14`. -/
def fourteen : CStr := { bytes := [49, 52], no_nul := by decide }

/-- The ninth byte of its ciphertext is zero, and it does not come back. -/
theorem not_roundTrip_fourteen :
    ¬RoundTrip aes (fun _ _ => 0) (fun _ _ => 0) 1 keyText ivText fourteen := by
  intro h
  have hno := (RoundTrip.ends (fun _ _ => 0) (by decide) (by decide) h).no_nul
  exact hno (by decide +kernel)

/-! ### What is read in time -/

/-- So many cells are read before they are written over. -/
def InTime (input output : Int) (n : Nat) : Prop := output ≤ input ∨ input + n ≤ output

/-! ### A block -/

variable {ctx : AesContext} {m : Cells UInt8} {input output : Int}

theorem copyUp_block {f : Nat → UInt8 → UInt8} {b : Block} (h : InTime input output 16)
    (hf : ∀ (k : Nat) (hk : k < 16), f k (m (input + k)) = b[k]) :
    Cells.copyUp f output input m 16 = Cells.write m output b.toList := by
  have hlen : b.toList.length = 16 := b.length_toList
  rw [Cells.copyUp_eq m 16 h]
  have hwrite := Cells.copied_eq_write f output input m b.toList
    fun k hk => by rw [hf k (by omega), Vector.getElem_toList]
  rwa [hlen] at hwrite

theorem blockCopy_eq (h : InTime input output 16) :
    blockCopy m output input = Cells.write m output (blockAt m input).toList :=
  copyUp_block h fun k hk => by rw [blockAt, Vector.getElem_ofFn]

theorem xorAt_eq (h : InTime input output 16) (iv : Block) :
    xorAt m output input iv =
      Cells.write m output (xorBlock (blockAt m input) iv).toList := by
  refine copyUp_block h fun k hk => ?_
  rw [xorBlock, Vector.getElem_zipWith, blockAt, Vector.getElem_ofFn, Vector.getElem?_eq_getElem hk,
    Option.getD_some]

theorem blockAt_write (b : Block) : blockAt (Cells.write m output b.toList) output = b := by
  apply Vector.ext
  intro k hk
  rw [blockAt, Vector.getElem_ofFn,
    Cells.write_inside m output b.toList (by rw [b.length_toList]; exact hk),
    Vector.getElem_toList]

theorem write_write (b c : Block) :
    Cells.write (Cells.write m output b.toList) output c.toList =
      Cells.write m output c.toList := by
  have hb := b.length_toList
  have hc := c.length_toList
  funext i
  by_cases hin : output ≤ i ∧ i < output + 16
  · obtain ⟨k, rfl⟩ := Int.le.dest hin.1
    rw [Cells.write_inside _ _ _ (by omega), Cells.write_inside _ _ _ (by omega)]
  · rw [Cells.write_outside _ _ _ (by omega), Cells.write_outside _ _ _ (by omega),
      Cells.write_outside _ _ _ (by omega)]

theorem cryptEcbAt_eq (mode : Mode) (h : InTime input output 16) :
    cryptEcbAt ctx mode m input output =
      Cells.write m output (mbedtlsAesEncrypt ctx mode (blockAt m input)).toList := by
  rw [cryptEcbAt, blockCopy_eq h, blockAt_write, write_write]

/-! ### Many blocks -/

theorem blocksAt_write (m : Cells UInt8) (output p : Int) (b : Block) (n : Nat)
    (h : output + 16 ≤ p ∨ p + 16 * n ≤ output) :
    blocksAt (Cells.write m output b.toList) p n = blocksAt m p n := by
  have hb := b.length_toList
  apply blockBytes_injective
  rw [blockBytes_blocksAt, blockBytes_blocksAt]
  exact Cells.slice_congr fun k hk => Cells.write_outside _ _ _ (by omega)

/-- **Encrypting in memory** writes the ciphertext of the blocks that were there. -/
theorem encryptAt_eq (n : Nat) : ∀ (iv : Block) (input output : Int) (m : Cells UInt8),
    InTime input output (16 * n) →
      (encryptAt ctx n iv input output m).2 = ((⟨m, output⟩ : Pen UInt8).put
        (blockBytes (Cbc.encrypt xorMixing (permutation ctx) iv (blocksAt m input n)))).mem := by
  induction n with
  | zero => exact fun iv input output m _ => (congrArg Pen.mem (Pen.put_nil ⟨m, output⟩)).symm
  | succ n ih =>
      intro iv input output m h
      unfold InTime at h
      have hmixed : xorAt m output input iv =
          Cells.write m output (xorBlock (blockAt m input) iv).toList :=
        xorAt_eq (by unfold InTime; omega) iv
      have hblock : cryptEcbAt ctx .encrypt (xorAt m output input iv) output output =
          Cells.write m output
            (permutation ctx (xorBlock (blockAt m input) iv)).toList := by
        rw [cryptEcbAt_eq .encrypt (by unfold InTime; omega), hmixed, blockAt_write, write_write]
        rfl
      have hlater := blocksAt_write m output (input + 16)
        (permutation ctx (xorBlock (blockAt m input) iv)) n (by omega)
      rw [encryptAt, hblock, blockAt_write, ih _ _ _ _ (by unfold InTime; omega), hlater, blocksAt,
        Cbc.encrypt, blockBytes_cons, Pen.put_append]
      simp only [Pen.put, Vector.length_toList]
      rfl

/-- **Decrypting in memory** writes the blocks of the ciphertext that was there. -/
theorem decryptAt_eq (n : Nat) : ∀ (iv : Block) (input output : Int) (m : Cells UInt8),
    InTime input output (16 * n) →
      (decryptAt ctx n iv input output m).2 = ((⟨m, output⟩ : Pen UInt8).put
        (blockBytes (Cbc.decrypt xorMixing (permutation ctx) iv (blocksAt m input n)))).mem := by
  induction n with
  | zero => exact fun iv input output m _ => (congrArg Pen.mem (Pen.put_nil ⟨m, output⟩)).symm
  | succ n ih =>
      intro iv input output m h
      unfold InTime at h
      have hblock : cryptEcbAt ctx .decrypt m input output =
          Cells.write m output (mbedtlsAesEncrypt ctx .decrypt (blockAt m input)).toList :=
        cryptEcbAt_eq .decrypt (by unfold InTime; omega)
      have hmixed : xorAt (cryptEcbAt ctx .decrypt m input output) output output iv =
          Cells.write m output
            (xorBlock ((permutation ctx).symm (blockAt m input)) iv).toList := by
        rw [xorAt_eq (by unfold InTime; omega), hblock, blockAt_write, write_write]
        rfl
      have hlater := blocksAt_write m output (input + 16)
        (xorBlock ((permutation ctx).symm (blockAt m input)) iv) n (by omega)
      rw [decryptAt, hmixed, ih _ _ _ _ (by unfold InTime; omega), hlater, blocksAt,
        Cbc.decrypt, blockBytes_cons, Pen.put_append]
      simp only [Pen.put, Vector.length_toList]
      rfl

/-! ### Bytes -/

/-- What is put out for whole blocks. -/
theorem cryptCbcAt_eq {length : Nat} (mode : Mode) (iv : Block) (hmod : length % 16 = 0)
    (h : InTime input output length) :
    (cryptCbcAt ctx mode length iv input output m).2.2 = Cells.write m output
      (blockBytes ((match mode with
        | .encrypt => Cbc.encrypt xorMixing (permutation ctx) iv
        | .decrypt => Cbc.decrypt xorMixing (permutation ctx) iv)
          (blocksAt m input (length / 16)))) := by
  have hlen : 16 * (length / 16) = length := by omega
  cases mode with
  | encrypt =>
      simp only [cryptCbcAt, if_neg (not_not_intro hmod)]
      exact encryptAt_eq _ _ _ _ _ (by rwa [hlen])
  | decrypt =>
      simp only [cryptCbcAt, if_neg (not_not_intro hmod)]
      exact decryptAt_eq _ _ _ _ _ (by rwa [hlen])

/-- The padded length: whole blocks, and one that is not full. -/
def alignedLen (len : UInt16) : Nat := 16 * (len.toNat / 16 + 1)

/-- So it is as long as `uint16_t` can count it. -/
theorem secAes128Align_toNat {len : UInt16} (h : len.toNat < 65520) :
    (secAes128Align len).toNat = alignedLen len := by
  rw [secAes128Align, alignedLen, UInt16.toNat_ofNat']
  omega

theorem blockAt_write_of_apart {p : Int} {bs : List UInt8} {n : Nat} (hlen : bs.length = n)
    (h : p + 16 ≤ output ∨ output + n ≤ p) :
    blockAt (Cells.write m output bs) p = blockAt m p := by
  apply Vector.ext
  intro k hk
  rw [blockAt, blockAt, Vector.getElem_ofFn, Vector.getElem_ofFn,
    Cells.write_outside _ _ _ (by omega)]

section Calls

variable {key inv bytes out back : Int} {len outLen backLen : UInt16}

theorem secAes128EncBytes_eq (hptr : ¬(key = 0 ∨ inv = 0 ∨ bytes = 0 ∨ out = 0 ∨ len = 0))
    (hlen : len.toNat < 65520) (hroom : secAes128Align len ≤ outLen)
    (htime : InTime bytes out (secAes128Align len).toNat) :
    secAes128EncBytes key inv bytes len out outLen m =
      (((secAes128Align len).toNat : Int), Cells.write m out
        (blockBytes (Cbc.encrypt xorMixing (aes (blockAt m key)) (blockAt m inv)
          (blocksAt m bytes ((secAes128Align len).toNat / 16))))) := by
  have hmod : (secAes128Align len).toNat % 16 = 0 := by
    rw [secAes128Align_toNat hlen]
    exact Nat.mul_mod_right ..
  unfold secAes128EncBytes
  simp only [if_neg hptr, gt_iff_lt, UInt16.not_lt.mpr hroom, if_false,
    cryptCbcAt_eq .encrypt _ hmod htime]
  rfl

theorem secAes128DecBytes_eq (hptr : ¬(key = 0 ∨ inv = 0 ∨ bytes = 0 ∨ out = 0 ∨ len = 0))
    (hmod : len.toNat % 16 = 0) (hroom : len ≤ outLen) (htime : InTime bytes out len.toNat) :
    secAes128DecBytes key inv bytes len out outLen m =
      ((len.toNat : Int), Cells.write m out
        (blockBytes (Cbc.decrypt xorMixing (aes (blockAt m key)) (blockAt m inv)
          (blocksAt m bytes (len.toNat / 16))))) := by
  unfold secAes128DecBytes
  simp only [if_neg hptr, gt_iff_lt, UInt16.not_lt.mpr hroom, if_false,
    cryptCbcAt_eq .decrypt _ hmod htime]
  rfl

theorem blocksAt_write_self (bs : List Block) :
    blocksAt (Cells.write m out (blockBytes bs)) out bs.length = bs := by
  apply blockBytes_injective
  rw [blockBytes_blocksAt, ← blockBytes_length, Cells.slice_write_self]

/-- **What `sec_aes128_enc_bytes` makes of bytes, `sec_aes128_dec_bytes` makes them of**, with the
same key and the same first block, and nothing but the two outputs is written.  The output of
either may be where its input is. -/
theorem decBytes_encBytes (hkey : key ≠ 0) (hinv : inv ≠ 0) (hbytes : bytes ≠ 0) (hout : out ≠ 0)
    (hback : back ≠ 0) (hpos : 0 < len.toNat) (hlen : len.toNat < 65520)
    (hroom : secAes128Align len ≤ outLen) (hroomBack : secAes128Align len ≤ backLen)
    (htime : InTime bytes out (alignedLen len)) (htimeBack : InTime out back (alignedLen len))
    (hkeyApart : key + 16 ≤ out ∨ out + alignedLen len ≤ key)
    (hinvApart : inv + 16 ≤ out ∨ out + alignedLen len ≤ inv) :
    ∃ enc dec,
      secAes128EncBytes key inv bytes len out outLen m = ((alignedLen len : Int), enc) ∧
      secAes128DecBytes key inv out (secAes128Align len) back backLen enc =
        ((alignedLen len : Int), dec) ∧
      Cells.slice dec back (alignedLen len) = Cells.slice m bytes (alignedLen len) ∧
      ∀ i, (i < out ∨ out + alignedLen len ≤ i) → (i < back ∨ back + alignedLen len ≤ i) →
        dec i = m i := by
  have halign := secAes128Align_toNat hlen
  have hne : secAes128Align len ≠ 0 := by
    intro h
    rw [h, UInt16.toNat_zero, alignedLen] at halign
    omega
  have hlenNe : len ≠ 0 := by
    rintro rfl
    exact absurd hpos (by decide)
  have hcount : alignedLen len / 16 = len.toNat / 16 + 1 := Nat.mul_div_cancel_left _ (by decide)
  have henc : secAes128EncBytes key inv bytes len out outLen m = _ := secAes128EncBytes_eq
    (by simp only [hkey, hinv, hbytes, hout, hlenNe, or_self, not_false_eq_true]) hlen hroom
    (by rwa [halign])
  have hdec : ∀ m, secAes128DecBytes key inv out (secAes128Align len) back backLen m = _ := fun m =>
    secAes128DecBytes_eq (by simp only [hkey, hinv, hback, hout, hne, or_self, not_false_eq_true])
      (by rw [halign]; exact Nat.mul_mod_right ..) hroomBack (by rwa [halign])
  simp only [halign, hcount] at henc hdec
  have hplainLen : (blocksAt m bytes (len.toNat / 16 + 1)).length = len.toNat / 16 + 1 :=
    blocksAt_length ..
  have hplainBytes := blockBytes_blocksAt m (len.toNat / 16 + 1) bytes
  generalize blocksAt m bytes (len.toNat / 16 + 1) = plain at henc hplainLen hplainBytes
  have hcipherLen := Cbc.encrypt_length xorMixing (aes (blockAt m key)) plain (blockAt m inv)
  have hback := Cbc.decrypt_encrypt (m := xorMixing) (e := aes (blockAt m key)) plain
    (blockAt m inv)
  generalize Cbc.encrypt xorMixing (aes (blockAt m key)) (blockAt m inv) plain = cipher
    at henc hcipherLen hback
  have hbytesLen : (blockBytes cipher).length = alignedLen len := by
    rw [blockBytes_length, hcipherLen, hplainLen, alignedLen]
  have hplainBytesLen : (blockBytes plain).length = alignedLen len := by
    rw [blockBytes_length, hplainLen, alignedLen]
  -- The key and the first block are read again, and so are the blocks that were written.
  have hdec := hdec (Cells.write m out (blockBytes cipher))
  rw [blockAt_write_of_apart hbytesLen hkeyApart, blockAt_write_of_apart hbytesLen hinvApart,
    ← hplainLen, ← hcipherLen, blocksAt_write_self, hback] at hdec
  refine ⟨_, _, henc, hdec, ?_, ?_⟩
  · have hslice := Cells.slice_write_self (Cells.write m out (blockBytes cipher)) back
      (blockBytes plain)
    rw [hplainBytesLen] at hslice
    exact hslice.trans hplainBytes
  · intro i hi hi'
    rw [Cells.write_outside _ _ _ (by omega), Cells.write_outside _ _ _ (by omega)]

/-- Twenty bytes are encrypted and decrypted where they are. -/
theorem decBytes_encBytes_inPlace : ∃ enc dec,
    secAes128EncBytes 16 32 64 20 64 32 (fun i => UInt8.ofNat i.toNat) = (32, enc) ∧
      secAes128DecBytes 16 32 64 32 64 32 enc = (32, dec) ∧
      Cells.slice dec 64 32 = Cells.slice (fun i => UInt8.ofNat i.toNat) 64 32 ∧
      ∀ i : Int, (i < 64 ∨ 64 + 32 ≤ i) → (i < 64 ∨ 64 + 32 ≤ i) → dec i = UInt8.ofNat i.toNat :=
  decBytes_encBytes (by decide) (by decide) (by decide) (by decide) (by decide)
    (show 0 < (20 : UInt16).toNat by decide) (by decide) (by decide) (by decide) (.inl (by decide)) (.inl (by decide))
    (.inl (by decide)) (.inl (by decide))

end Calls

end Awoke.Sec
