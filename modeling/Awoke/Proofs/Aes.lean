/-
A string that is encrypted and decrypted.

The wrapper chains its blocks as it should, and decrypting is the inverse of encrypting.  But a
ciphertext has no end that `strlen` could find: what is decrypted is what lies before the first
zero byte, wherever that is.
-/
import Awoke.Sec.Aes
import Mathlib.Tactic.Linarith

namespace Awoke.Sec

open Cells (Pen)

/-! ### Padding -/

/-- A string with what is put behind it. -/
def padded (s : CStr) : List UInt8 :=
  s.bytes ++ List.replicate (alignLen s.len 16 - s.len) 0x20

/-- What the length of the padded string is as an `int`. -/
def encLen (s : CStr) : Int := (alignLen s.len 16 : Int).bmod (2 ^ 32)

theorem le_alignLen (len : Nat) : len ≤ alignLen len 16 := by
  unfold alignLen
  split <;> omega

theorem alignLen_mod (len : Nat) : alignLen len 16 % 16 = 0 := by
  unfold alignLen
  split
  · rfl
  · exact Nat.mul_mod_left _ _

theorem alignLen_of_le {len : Nat} (h : len ≤ 16) : alignLen len 16 = 16 := by
  unfold alignLen
  split
  · rfl
  · rw [Nat.div_eq_of_lt (by omega)]

theorem padded_length (s : CStr) : (padded s).length = alignLen s.len 16 := by
  rw [padded, List.length_append, List.length_replicate]
  exact Nat.add_sub_of_le (le_alignLen s.len)

theorem write_fill (m : Cells UInt8) (bs : List UInt8) :
    Cells.write (Cells.fill m 0 bs.length 0) 0 bs = Cells.write m 0 bs := by
  funext i
  rcases Int.lt_or_le i 0 with hbefore | hle
  · rw [Cells.write_outside _ _ _ (.inl hbefore), Cells.write_outside _ _ _ (.inl hbefore),
      Cells.fill, if_neg (by omega)]
  obtain ⟨k, rfl⟩ := Int.le.dest hle
  rcases Nat.lt_or_ge k bs.length with hinside | hbehind
  · rw [Cells.write_inside _ _ _ hinside, Cells.write_inside _ _ _ hinside]
  · rw [Cells.write_outside _ _ _ (.inr (by omega)), Cells.write_outside _ _ _ (.inr (by omega)),
      Cells.fill, if_neg (by omega)]

theorem memAllocZ_eq {heap : Cells UInt8} {size : Nat} (h : size < 2 ^ 63) :
    memAllocZ heap size = some { size := size, mem := Cells.fill heap 0 size 0 } := if_pos h

/-- **A string is padded** unless it is too long for any memory. -/
theorem padding (heap : Cells UInt8) (s : CStr) (h : alignLen s.len 16 < 2 ^ 63) :
    awokeStringPadding heap s 0x20 16 =
      some (some
        ({ size := alignLen s.len 16, mem := Cells.write heap 0 (padded s) }, encLen s)) := by
  have hle := le_alignLen s.len
  have hpush : ∀ (p : Pen UInt8) (bs : List UInt8), p.pos + bs.length ≤ alignLen s.len 16 →
      bufPushSafe ((alignLen s.len 16 : Nat) - 1) p bs = p.put bs :=
    fun p bs hfits => if_pos (by omega)
  have hall :
      (s.bytes :: List.replicate (alignLen s.len 16 - s.len) [0x20]).flatten = padded s := by
    rw [List.flatten_cons, List.flatten_replicate_singleton, padded]
  have hputs := Pen.foldl_fits hpush
    (s.bytes :: List.replicate (alignLen s.len 16 - s.len) [0x20])
    ⟨Cells.fill heap 0 (alignLen s.len 16 : Nat) 0, 0⟩
    (by rw [hall, padded_length, Int.zero_add])
  rw [hall, List.foldl_cons] at hputs
  rw [awokeStringPadding, if_neg (by decide)]
  show (memAllocZ heap (alignLen s.len 16)).bind _ = _
  rw [memAllocZ_eq h, Option.bind_some]
  show some (some (_, encLen s)) = _
  rw [hputs, Pen.put, ← padded_length, write_fill]

theorem padding_none (heap : Cells UInt8) {s : CStr} (h : ¬alignLen s.len 16 < 2 ^ 63) :
    awokeStringPadding heap s 0x20 16 = none := by
  have hnone : memAllocZ heap (alignLen s.len (16 : Int).toNat) = none := if_neg h
  rw [awokeStringPadding, if_neg (by decide), hnone]
  rfl

/-! ### Blocks -/

/-- The blocks that lie one behind the other. -/
def blocksAt (m : Cells UInt8) (p : Int) : Nat → List Block
  | 0 => []
  | n + 1 => blockAt m p :: blocksAt m (p + 16) n

/-- The bytes of some blocks. -/
def blockBytes (bs : List Block) : List UInt8 := bs.flatMap Vector.toList

/-- Bytes as memory. -/
def memOf (bytes : List UInt8) : Cells UInt8 := fun i => bytes.getD i.toNat 0

/-- The blocks of a text. -/
def textBlocks (text : List UInt8) : List Block := blocksAt (memOf text) 0 (text.length / 16)

/-- The first block of a text. -/
def firstBlock (text : List UInt8) : Block := blockAt (memOf text) 0

/-- To mix blocks is to take the exclusive or. -/
def xorMixing : Mixing Block where
  mix := xorBlock
  mix_mix a b := by
    refine Vector.ext fun i hi => ?_
    rw [xorBlock, xorBlock, Vector.getElem_zipWith, Vector.getElem_zipWith, UInt8.xor_assoc,
      UInt8.xor_self, UInt8.xor_zero]

theorem blockAt_toList (m : Cells UInt8) (p : Int) : (blockAt m p).toList = Cells.slice m p 16 := by
  refine List.ext_getElem (by rw [Vector.length_toList, Cells.slice_length]) fun i _ _ => ?_
  rw [Vector.getElem_toList, Cells.slice_getElem]
  exact Vector.getElem_ofFn ..

theorem blocksAt_length (m : Cells UInt8) (n : Nat) : ∀ p, (blocksAt m p n).length = n := by
  induction n with
  | zero => exact fun _ => rfl
  | succ n ih => exact fun p => congrArg (· + 1) (ih _)

theorem blocksAt_take (m : Cells UInt8) (k : Nat) : ∀ (p : Int) (n : Nat), k ≤ n →
    (blocksAt m p n).take k = blocksAt m p k := by
  induction k with
  | zero => exact fun _ _ _ => rfl
  | succ k ih =>
      intro p n hle
      cases n with
      | zero => exact absurd hle (Nat.not_succ_le_zero k)
      | succ n => exact congrArg (_ :: ·) (ih (p + 16) n (Nat.le_of_succ_le_succ hle))

theorem blockBytes_cons (b : Block) (bs : List Block) :
    blockBytes (b :: bs) = b.toList ++ blockBytes bs := rfl

theorem blockBytes_length (bs : List Block) : (blockBytes bs).length = 16 * bs.length := by
  induction bs with
  | nil => rfl
  | cons b bs ih =>
      rw [blockBytes_cons, List.length_append, b.length_toList, ih, List.length_cons]
      ring

theorem blockBytes_blocksAt (m : Cells UInt8) (n : Nat) : ∀ p,
    blockBytes (blocksAt m p n) = Cells.slice m p (16 * n) := by
  induction n with
  | zero => exact fun _ => rfl
  | succ n ih =>
      intro p
      rw [blocksAt, blockBytes_cons, blockAt_toList, ih, Nat.mul_succ, Nat.add_comm,
        Cells.slice_add]
      rfl

theorem blockBytes_injective : Function.Injective blockBytes := by
  intro bs
  induction bs with
  | nil =>
      intro bs' h
      have hlen := congrArg List.length h
      rw [blockBytes_length, blockBytes_length, List.length_nil] at hlen
      exact (List.eq_nil_of_length_eq_zero (by omega)).symm
  | cons b bs ih =>
      intro bs' h
      cases bs' with
      | nil =>
          have hlen := congrArg List.length h
          rw [blockBytes_length, blockBytes_length, List.length_nil, List.length_cons] at hlen
          omega
      | cons b' bs' =>
          rw [blockBytes_cons, blockBytes_cons] at h
          obtain ⟨hfirst, hrest⟩ := List.append_inj h (by rw [b.length_toList, b'.length_toList])
          rw [Vector.toList_inj.mp hfirst, ih hrest]

theorem blockBytes_take (n : Nat) (bs : List Block) :
    blockBytes (bs.take n) = (blockBytes bs).take (16 * n) := by
  induction n generalizing bs with
  | zero => rfl
  | succ n ih =>
      cases bs with
      | nil => rw [List.take_nil]; exact List.take_nil.symm
      | cons b bs =>
          have hlen : 16 * (n + 1) = b.toList.length + 16 * n := by
            rw [b.length_toList]
            ring
          rw [List.take_succ_cons, blockBytes_cons, blockBytes_cons, ih, hlen,
            List.take_length_add_append]

theorem blockBytes_textBlocks {text : List UInt8} (hmod : text.length % 16 = 0) :
    blockBytes (textBlocks text) = text := by
  have hlen : 16 * (text.length / 16) = text.length := by omega
  rw [textBlocks, blockBytes_blocksAt, hlen]
  refine Cells.slice_eq_iff.mpr fun k hk => ?_
  rw [Int.zero_add, memOf, Int.toNat_natCast, List.getD_eq_getElem?_getD,
    List.getElem?_eq_getElem hk, Option.getD_some]

theorem blocksAt_of_slice {m : Cells UInt8} {text : List UInt8} (hmod : text.length % 16 = 0)
    (h : Cells.slice m 0 text.length = text) :
    blocksAt m 0 (text.length / 16) = textBlocks text := by
  apply blockBytes_injective
  have hlen : 16 * (text.length / 16) = text.length := by omega
  rw [blockBytes_textBlocks hmod, blockBytes_blocksAt, hlen, h]

theorem firstBlock_of_slice {m : Cells UInt8} {text : List UInt8} (hlen : text.length = 16)
    (h : Cells.slice m 0 text.length = text) : blockAt m 0 = firstBlock text := by
  have hblocks := blocksAt_of_slice (by rw [hlen]) h
  rw [textBlocks, hlen] at hblocks
  exact List.head_eq_of_cons_eq hblocks

/-! ### Chaining -/

theorem encryptLoop_eq (e : Equiv.Perm Block) (input : Cells UInt8) (n : Nat) :
    ∀ (iv : Block) (p : Int) (output : Pen UInt8),
      (encryptLoop e input n iv p output).2 =
        output.put (blockBytes (Cbc.encrypt xorMixing e iv (blocksAt input p n))) := by
  induction n with
  | zero => exact fun iv p output => (Pen.put_nil output).symm
  | succ n ih =>
      intro iv p output
      rw [encryptLoop, ih, blocksAt, Cbc.encrypt, blockBytes_cons, Pen.put_append]
      rfl

theorem decryptLoop_eq (e : Equiv.Perm Block) (input : Cells UInt8) (n : Nat) :
    ∀ (iv : Block) (p : Int) (output : Pen UInt8),
      (decryptLoop e.symm input n iv p output).2 =
        output.put (blockBytes (Cbc.decrypt xorMixing e iv (blocksAt input p n))) := by
  induction n with
  | zero => exact fun iv p output => (Pen.put_nil output).symm
  | succ n ih =>
      intro iv p output
      rw [decryptLoop, ih, blocksAt, Cbc.decrypt, blockBytes_cons, Pen.put_append]
      rfl

variable {cipher : Block → Equiv.Perm Block} {ctx iv : Block} {length : Nat}
  {input output : Cells UInt8}

/-- **Whole blocks are encrypted.** -/
theorem cryptCbc_encrypt (h : length % 16 = 0) :
    (mbedtlsAesCryptCbc (mbedtlsAesCryptEcb cipher ctx) .encrypt length iv input output).2.2 =
      Cells.write output 0
        (blockBytes (Cbc.encrypt xorMixing (cipher ctx) iv (blocksAt input 0 (length / 16)))) := by
  rw [mbedtlsAesCryptCbc, if_neg (not_not_intro h)]
  exact congrArg Pen.mem (encryptLoop_eq (cipher ctx) input (length / 16) iv 0 ⟨output, 0⟩)

/-- **Whole blocks are decrypted**, and anything else is not. -/
theorem cryptCbc_decrypt :
    (mbedtlsAesCryptCbc (mbedtlsAesCryptEcb cipher ctx) .decrypt length iv input output).2.2 =
      if length % 16 = 0 then
        Cells.write output 0
          (blockBytes (Cbc.decrypt xorMixing (cipher ctx) iv (blocksAt input 0 (length / 16))))
      else output := by
  rw [mbedtlsAesCryptCbc]
  by_cases h : length % 16 = 0
  · rw [if_neg (not_not_intro h), if_pos h]
    exact congrArg Pen.mem (decryptLoop_eq (cipher ctx) input (length / 16) iv 0 ⟨output, 0⟩)
  · rw [if_pos h, if_neg h]

/-! ### What is encrypted -/

/-- The padded string can be had, and its length is no negative `int`. -/
def Fits (s : CStr) : Prop := alignLen s.len 16 < 2 ^ 63 ∧ 0 ≤ encLen s

/-- The ciphertext of a text under a key and a first block that are padded. -/
def ciphertext (cipher : Block → Equiv.Perm Block) (key inv : CStr) (text : List UInt8) :
    List UInt8 :=
  blockBytes (Cbc.encrypt xorMixing (cipher (firstBlock (padded key))) (firstBlock (padded inv))
    (textBlocks text))

/-- What lies where the ciphertext was put, as far as `int` has a number for its length. -/
def written (cipher : Block → Equiv.Perm Block) (around : Cells UInt8) (key inv s : CStr) :
    Cells UInt8 :=
  Cells.write around 0 ((ciphertext cipher key inv (padded s)).take (sizeT (encLen s)))

theorem ciphertext_length {key inv : CStr} {text : List UInt8} (hmod : text.length % 16 = 0) :
    (ciphertext cipher key inv text).length = text.length := by
  rw [ciphertext, blockBytes_length, Cbc.encrypt_length, textBlocks, blocksAt_length]
  omega

/-- A length as an `int`: the low bits, unless they are a negative number. -/
theorem bmod_eq_or (n : Nat) :
    (n : Int).bmod (2 ^ 32) = (n % 2 ^ 32 : Nat) ∧ (n : Int).bmod (2 ^ 32) < 2 ^ 31 ∨
      (n : Int).bmod (2 ^ 32) < 0 ∧ -2 ^ 31 ≤ (n : Int).bmod (2 ^ 32) := by
  rw [Int.bmod_def]
  split
  · exact .inl (by omega)
  · exact .inr (by omega)

theorem Fits.encLen_eq {s : CStr} (h : Fits s) :
    ∃ len : Nat, encLen s = len ∧ sizeT (encLen s) = len ∧ len % 16 = 0 ∧
      len ≤ alignLen s.len 16 ∧ len < 2 ^ 63 := by
  have hmod := alignLen_mod s.len
  rcases bmod_eq_or (alignLen s.len 16) with ⟨heq, hlt⟩ | ⟨hneg, -⟩
  · refine ⟨alignLen s.len 16 % 2 ^ 32, heq, ?_, by omega, by omega, by omega⟩
    show (Int.bmod _ _ % 2 ^ 64).toNat = _
    rw [heq]
    omega
  · exact absurd h.2 (Int.not_le.mpr hneg)

/-- A negative `int` is too much to be allocated. -/
theorem sizeT_of_neg {n : Int} (hneg : n < 0) (hle : -2 ^ 31 ≤ n) : ¬sizeT n < 2 ^ 63 := by
  rw [sizeT]
  omega

theorem len_bmod {len : Nat} (h : len ≤ 16) : ¬(len : Int).bmod (2 ^ 32) > 16 := by
  rw [Int.bmod_eq_of_le (by omega) (by omega)]
  omega

section Strings

variable (cipher) (heap : Nat → Cells UInt8) {key inv s : CStr}

theorem padding_block (heap : Cells UInt8) {t : CStr} (h : t.len ≤ 16) :
    ∃ safe len, awokeStringPadding heap t 0x20 16 = some (some (safe, len)) ∧
      blockAt safe.mem 0 = firstBlock (padded t) := by
  have hlen := alignLen_of_le h
  have hself := Cells.slice_write_self heap 0 (padded t)
  exact ⟨_, _, padding heap t (by rw [hlen]; decide),
    firstBlock_of_slice (by rw [padded_length, hlen]) hself⟩

theorem encString_of (hkey : key.len ≤ 16) (hinv : inv.len ≤ 16) {safeStr : Alloc} {len : Int}
    (hstr : awokeStringPadding (heap 2) s 0x20 16 = some (some (safeStr, len))) :
    aesCbcEncString cipher heap key inv 16 s =
      (memAllocZ (heap 3) (sizeT len)).map fun safeEnc => (.etOk, some
        { safeEnc with
          mem := (mbedtlsAesCryptCbc (mbedtlsAesCryptEcb cipher (firstBlock (padded key))) .encrypt
            (sizeT len) (firstBlock (padded inv)) safeStr.mem safeEnc.mem).2.2 }) := by
  obtain ⟨safeKey, keyLen, hsafeKey, hkeyBlock⟩ := padding_block (heap 0) hkey
  obtain ⟨safeInv, invLen, hsafeInv, hinvBlock⟩ := padding_block (heap 1) hinv
  rw [aesCbcEncString, if_neg (by decide), if_neg (len_bmod hkey), if_neg (len_bmod hinv), hsafeKey,
    hsafeInv, hstr, ← hkeyBlock, ← hinvBlock]
  simp only [Option.bind_eq_bind, Option.bind_some]
  cases memAllocZ (heap 3) (sizeT len) <;> rfl

/-- What is put out for some bytes up to a zero. -/
theorem decString_of (hkey : key.len ≤ 16) (hinv : inv.len ≤ 16) (str : Cells UInt8)
    (stop : Nat) :
    aesCbcDecString cipher heap key inv 16 str stop =
      (strlen str stop).bind fun len => (memAllocZ (heap 2) len).map fun safeDec => (.etOk, some
        { safeDec with
          mem := (mbedtlsAesCryptCbc (mbedtlsAesCryptEcb cipher (firstBlock (padded key))) .decrypt
            len (firstBlock (padded inv)) str safeDec.mem).2.2 }) := by
  obtain ⟨safeKey, keyLen, hsafeKey, hkeyBlock⟩ := padding_block (heap 0) hkey
  obtain ⟨safeInv, invLen, hsafeInv, hinvBlock⟩ := padding_block (heap 1) hinv
  rw [aesCbcDecString, if_neg (by decide), if_neg (len_bmod hkey), if_neg (len_bmod hinv), hsafeKey,
    hsafeInv, ← hkeyBlock, ← hinvBlock]
  simp only [Option.bind_eq_bind, Option.bind_some]
  cases strlen str stop with
  | none => rfl
  | some len =>
      rw [Option.bind_some, Option.bind_some]
      cases memAllocZ (heap 2) len <;> rfl

/-- **The ciphertext** is what is put out. -/
theorem encString (hkey : key.len ≤ 16) (hinv : inv.len ≤ 16) (h : Fits s) :
    ∃ out, aesCbcEncString cipher heap key inv 16 s = some (.etOk, some out) ∧
      out.size = sizeT (encLen s) ∧ out.mem = written cipher (heap 3) key inv s := by
  obtain ⟨len, -, hsize, hmod, hle, hlt⟩ := h.encLen_eq
  have hblocks : blocksAt (Cells.write (heap 2) 0 (padded s)) 0 ((padded s).length / 16) =
      textBlocks (padded s) :=
    blocksAt_of_slice (by rw [padded_length]; exact alignLen_mod _) (Cells.slice_write_self ..)
  have hfirst : blocksAt (Cells.write (heap 2) 0 (padded s)) 0 (len / 16) =
      (textBlocks (padded s)).take (len / 16) := by
    rw [← hblocks, blocksAt_take _ _ _ _ (by rw [padded_length]; exact Nat.div_le_div_right hle)]
  have hcipher : blockBytes (Cbc.encrypt xorMixing (cipher (firstBlock (padded key)))
        (firstBlock (padded inv)) ((textBlocks (padded s)).take (len / 16))) =
      (ciphertext cipher key inv (padded s)).take len := by
    rw [← Cbc.encrypt_take, blockBytes_take, ciphertext, show 16 * (len / 16) = len by omega]
  have hlen : ((ciphertext cipher key inv (padded s)).take len).length = len := by
    rw [List.length_take, ciphertext_length (by rw [padded_length]; exact alignLen_mod _),
      padded_length, Nat.min_eq_left hle]
  have hfill := write_fill (heap 3) ((ciphertext cipher key inv (padded s)).take len)
  rw [hlen] at hfill
  rw [encString_of cipher heap hkey hinv (padding (heap 2) s h.1), hsize, memAllocZ_eq hlt,
    Option.map_some, cryptCbc_encrypt hmod, hfirst, hcipher, hfill, written, hsize]
  exact ⟨_, rfl, rfl, rfl⟩

/-- A string that is too long is not encrypted. -/
theorem encString_none (hkey : key.len ≤ 16) (hinv : inv.len ≤ 16) (h : ¬Fits s) :
    aesCbcEncString cipher heap key inv 16 s = none := by
  by_cases hlt : alignLen s.len 16 < 2 ^ 63
  · have hneg : encLen s < 0 := Int.lt_of_not_ge fun hle => h ⟨hlt, hle⟩
    have hsize : ¬sizeT (encLen s) < 2 ^ 63 := by
      rcases bmod_eq_or (alignLen s.len 16) with ⟨heq, -⟩ | ⟨-, hle⟩
      · have heq : encLen s = (alignLen s.len 16 % 2 ^ 32 : Nat) := heq
        rw [heq] at hneg
        exact absurd (Int.natCast_nonneg _) (Int.not_le.mpr hneg)
      · exact sizeT_of_neg hneg hle
    rw [encString_of cipher heap hkey hinv (padding (heap 2) s hlt), memAllocZ, if_neg hsize]
    rfl
  · obtain ⟨safeKey, keyLen, hsafeKey, -⟩ := padding_block (heap 0) hkey
    obtain ⟨safeInv, invLen, hsafeInv, -⟩ := padding_block (heap 1) hinv
    rw [aesCbcEncString, if_neg (by decide), if_neg (len_bmod hkey), if_neg (len_bmod hinv),
      hsafeKey, hsafeInv, padding_none (heap 2) hlt]
    rfl

/-- **What comes back** of some bytes: whole blocks up to the first zero byte are decrypted. -/
theorem decString (hkey : key.len ≤ 16) (hinv : inv.len ≤ 16) {str : Cells UInt8}
    {stop len : Nat} (hlen : strlen str stop = some len) (hlt : len < 2 ^ 63) :
    ∃ back, aesCbcDecString cipher heap key inv 16 str stop = some (.etOk, some back) ∧
      back.bytes = if len % 16 = 0 then
          blockBytes (Cbc.decrypt xorMixing (cipher (firstBlock (padded key)))
            (firstBlock (padded inv)) (blocksAt str 0 (len / 16)))
        else List.replicate len 0 := by
  rw [decString_of cipher heap hkey hinv str stop, hlen, Option.bind_some, memAllocZ_eq hlt]
  refine ⟨_, rfl, ?_⟩
  show Cells.slice _ 0 len = _
  rw [cryptCbc_decrypt]
  by_cases hmod : len % 16 = 0
  · have hbytes : (blockBytes (Cbc.decrypt xorMixing (cipher (firstBlock (padded key)))
        (firstBlock (padded inv)) (blocksAt str 0 (len / 16)))).length = len := by
      rw [blockBytes_length, Cbc.decrypt_length, blocksAt_length]
      omega
    rw [if_pos hmod, if_pos hmod]
    have hself := Cells.slice_write_self (Cells.fill (heap 2) 0 len 0) 0
      (blockBytes (Cbc.decrypt xorMixing (cipher (firstBlock (padded key)))
        (firstBlock (padded inv)) (blocksAt str 0 (len / 16))))
    rwa [hbytes] at hself
  · rw [if_neg hmod, if_neg hmod]
    refine List.ext_getElem (by rw [Cells.slice_length, List.length_replicate]) fun k hk _ => ?_
    rw [Cells.slice_length] at hk
    rw [Cells.slice_getElem, List.getElem_replicate]
    exact if_pos (by omega)

end Strings

/-! ### The round trip -/

theorem strlen_eq_some_iff {m : Cells UInt8} {stop n : Nat} :
    strlen m stop = some n ↔ n < stop ∧ m n = 0 ∧ ∀ k : Nat, k < n → m k ≠ 0 := by
  have hfirst :
      strlen m stop = some n ↔ Search.first (fun i => m i = 0) 0 stop = some (n : Int) := by
    rw [strlen, Option.map_eq_some_iff]
    constructor
    · rintro ⟨i, hi, rfl⟩
      have hle := (Search.first_eq_some_iff.mp hi).1
      rw [hi, Int.toNat_of_nonneg hle]
    · exact fun hi => ⟨n, hi, Int.toNat_natCast n⟩
  rw [hfirst, Search.first_eq_some_iff]
  constructor
  · rintro ⟨-, hlt, hzero, hbefore⟩
    exact ⟨by omega, hzero, fun k hk => hbefore k (Int.natCast_nonneg k) (by omega)⟩
  · rintro ⟨hlt, hzero, hbefore⟩
    refine ⟨Int.natCast_nonneg n, by omega, hzero, fun j hle hj => ?_⟩
    obtain ⟨k, rfl⟩ := Int.eq_ofNat_of_zero_le hle
    exact hbefore k (by omega)

/-- What a string is decrypted to, after it was encrypted: `behind` more bytes can be read behind
what was allocated for the ciphertext. -/
def RoundTrip (cipher : Block → Equiv.Perm Block) (heap heap' : Nat → Cells UInt8) (behind : Nat)
    (key inv s : CStr) : Prop :=
  ∃ out back safe len, aesCbcEncString cipher heap key inv 16 s = some (.etOk, some out) ∧
    aesCbcDecString cipher heap' key inv 16 out.mem (out.size + behind) =
      some (.etOk, some back) ∧
    awokeStringPadding (heap 2) s 0x20 16 = some (some (safe, len)) ∧ back.bytes = safe.bytes

/-- `strlen` finds the end of the ciphertext: no byte of it is zero, and the one behind it is.
Where `int` has no number for its length, less is allocated, and the rest has to lie there. -/
structure Ends (cipher : Block → Equiv.Perm Block) (around : Cells UInt8) (behind : Nat)
    (key inv s : CStr) : Prop where
  fits : Fits s
  no_nul : (0 : UInt8) ∉ ciphertext cipher key inv (padded s)
  rest : ∀ (j : Nat) (h : j < (ciphertext cipher key inv (padded s)).length), encLen s ≤ j →
    around j = (ciphertext cipher key inv (padded s))[j]
  nul : around (alignLen s.len 16 : Nat) = 0
  readable : alignLen s.len 16 < sizeT (encLen s) + behind

section RoundTrip

variable {heap : Nat → Cells UInt8} (heap' : Nat → Cells UInt8) {behind : Nat} {key inv s : CStr}

theorem padded_mod (s : CStr) : (padded s).length % 16 = 0 := by
  rw [padded_length]
  exact alignLen_mod s.len

theorem padded_ciphertext_length (cipher : Block → Equiv.Perm Block) (key inv s : CStr) :
    (ciphertext cipher key inv (padded s)).length = alignLen s.len 16 := by
  rw [ciphertext_length (padded_mod s), padded_length]

theorem written_behind (around : Cells UInt8) :
    written cipher around key inv s (alignLen s.len 16 : Nat) =
      around (alignLen s.len 16 : Nat) := by
  refine Cells.write_outside _ _ _ (.inr ?_)
  rw [List.length_take, padded_ciphertext_length]
  omega

/-- The part that was allocated is the ciphertext, and the rest is what was there. -/
theorem slice_written (around : Cells UInt8) (h : Fits s) :
    Cells.slice (written cipher around key inv s) 0 (alignLen s.len 16) =
        ciphertext cipher key inv (padded s) ↔
      ∀ (j : Nat) (hj : j < (ciphertext cipher key inv (padded s)).length), encLen s ≤ j →
        around j = (ciphertext cipher key inv (padded s))[j] := by
  obtain ⟨len, hlen, hsize, -, hle, -⟩ := h.encLen_eq
  have htake : ((ciphertext cipher key inv (padded s)).take len).length = len := by
    rw [List.length_take, padded_ciphertext_length, Nat.min_eq_left hle]
  rw [written, hsize, hlen, ← padded_ciphertext_length cipher key inv s,
    Cells.slice_eq_iff]
  refine forall_congr' fun j => forall_congr' fun hj => ?_
  rw [Int.zero_add, Int.ofNat_le]
  rcases Nat.lt_or_ge j len with hlt | hge
  · have hinside := Cells.write_inside around 0 ((ciphertext cipher key inv (padded s)).take len)
      (k := j) (by rw [htake]; exact hlt)
    rw [Int.zero_add, List.getElem_take] at hinside
    exact iff_of_true hinside fun hge => absurd hge (Nat.not_le.mpr hlt)
  · rw [Cells.write_outside _ _ _ (.inr (by rw [htake]; omega))]
    exact ⟨fun h _ => h, fun h => h hge⟩

/-- What comes back is the padded string exactly if all of the ciphertext was taken. -/
theorem decString_eq_iff (hkey : key.len ≤ 16) (hinv : inv.len ≤ 16) {str : Cells UInt8}
    {stop : Nat} :
    (∃ back, aesCbcDecString cipher heap' key inv 16 str stop = some (.etOk, some back) ∧
        back.bytes = padded s) ↔
      ∃ len, strlen str stop = some len ∧ len < 2 ^ 63 ∧
        Cells.slice str 0 len = ciphertext cipher key inv (padded s) := by
  have hdecrypt : ∀ len, len % 16 = 0 →
      (blockBytes (Cbc.decrypt xorMixing (cipher (firstBlock (padded key)))
          (firstBlock (padded inv)) (blocksAt str 0 (len / 16))) = padded s ↔
        Cells.slice str 0 len = ciphertext cipher key inv (padded s)) := by
    intro len hmod
    have hbytes := blockBytes_blocksAt str (len / 16) 0
    rw [show 16 * (len / 16) = len by omega] at hbytes
    rw [← hbytes, ciphertext, blockBytes_injective.eq_iff, ← Cbc.decrypt_eq_iff,
      ← blockBytes_injective.eq_iff, blockBytes_textBlocks (padded_mod s)]
  constructor
  · rintro ⟨back, hdec, hback⟩
    have hof := decString_of cipher heap' hkey hinv str stop
    rw [hdec] at hof
    cases hlen : strlen str stop with
    | none =>
        rw [hlen] at hof
        exact nomatch hof
    | some len =>
        by_cases hlt : len < 2 ^ 63
        · obtain ⟨back', hdec', hbytes⟩ := decString cipher heap' hkey hinv hlen hlt
          obtain rfl : back = back' :=
            Option.some_injective _
              (Prod.mk.inj (Option.some_injective _ (hdec.symm.trans hdec'))).2
          refine ⟨len, rfl, hlt, ?_⟩
          rw [hback] at hbytes
          by_cases hmod : len % 16 = 0
          · rw [if_pos hmod] at hbytes
            exact (hdecrypt len hmod).mp hbytes.symm
          · rw [if_neg hmod] at hbytes
            have hlength := congrArg List.length hbytes
            rw [List.length_replicate] at hlength
            exact absurd (hlength ▸ padded_mod s) hmod
        · rw [hlen, Option.bind_some, memAllocZ, if_neg hlt] at hof
          exact nomatch hof
  · rintro ⟨len, hlen, hlt, hslice⟩
    obtain ⟨back, hdec, hbytes⟩ := decString cipher heap' hkey hinv hlen hlt
    have hmod : len % 16 = 0 := by
      have hlength := congrArg List.length hslice
      rw [Cells.slice_length, ciphertext_length (padded_mod s)] at hlength
      rw [hlength]
      exact padded_mod s
    rw [if_pos hmod] at hbytes
    exact ⟨back, hdec, hbytes.trans ((hdecrypt len hmod).mpr hslice)⟩

theorem padded_bytes (around : Cells UInt8) :
    (Alloc.mk (alignLen s.len 16) (Cells.write around 0 (padded s))).bytes = padded s := by
  rw [Alloc.bytes, ← padded_length]
  exact Cells.slice_write_self ..

/-- Where a string came back, the end of its ciphertext was found. -/
theorem RoundTrip.ends (hkey : key.len ≤ 16) (hinv : inv.len ≤ 16)
    (h : RoundTrip cipher heap heap' behind key inv s) :
    Ends cipher (heap 3) behind key inv s := by
  obtain ⟨out, back, safe, padLen, henc, hdec, hpad, hback⟩ := h
  have hfits : Fits s := by
    by_contra hnot
    rw [encString_none cipher heap hkey hinv hnot] at henc
    exact nomatch henc
  obtain ⟨out', henc', hsize, hmem⟩ := encString cipher heap hkey hinv hfits
  rw [henc'] at henc
  obtain rfl := Option.some_injective _ (Prod.mk.inj (Option.some_injective _ henc)).2
  rw [hsize, hmem] at hdec
  rw [padding (heap 2) s hfits.1] at hpad
  obtain rfl := (Prod.mk.inj (Option.some_injective _ (Option.some_injective _ hpad))).1
  obtain ⟨n, hn, -, hslice⟩ :=
    (decString_eq_iff heap' hkey hinv).mp ⟨back, hdec, hback.trans (padded_bytes (heap 2))⟩
  obtain rfl : n = alignLen s.len 16 := by
    rw [← padded_ciphertext_length, ← hslice, Cells.slice_length]
  obtain ⟨hreadable, hnul, hbefore⟩ := strlen_eq_some_iff.mp hn
  rw [written_behind] at hnul
  refine ⟨hfits, fun hmem => ?_, (slice_written (heap 3) hfits).mp hslice, hnul, hreadable⟩
  rw [← hslice] at hmem
  obtain ⟨k, hk, hzero⟩ := List.getElem_of_mem hmem
  rw [Cells.slice_getElem, Int.zero_add] at hzero
  rw [Cells.slice_length] at hk
  exact hbefore k hk hzero

/-- Where the end of its ciphertext is found, a string comes back. -/
theorem Ends.roundTrip (hkey : key.len ≤ 16) (hinv : inv.len ≤ 16)
    (h : Ends cipher (heap 3) behind key inv s) :
    RoundTrip cipher heap heap' behind key inv s := by
  have hslice := (slice_written (heap 3) h.fits).mpr h.rest
  have hn : strlen (written cipher (heap 3) key inv s) (sizeT (encLen s) + behind) =
      some (alignLen s.len 16) := by
    have hnul : written cipher (heap 3) key inv s (alignLen s.len 16 : Nat) = 0 := by
      rw [written_behind]
      exact h.nul
    refine strlen_eq_some_iff.mpr ⟨h.readable, hnul, fun k hk hzero => h.no_nul ?_⟩
    have hget := List.getElem_of_eq hslice (by rw [Cells.slice_length]; exact hk)
    rw [Cells.slice_getElem, Int.zero_add, hzero] at hget
    rw [hget]
    exact List.getElem_mem _
  obtain ⟨out, henc, hsize, hmem⟩ := encString cipher heap hkey hinv h.fits
  rw [← hsize, ← hmem] at hn
  rw [← hmem] at hslice
  obtain ⟨back, hdec, hback⟩ :=
    (decString_eq_iff heap' hkey hinv).mpr ⟨_, hn, h.fits.1, hslice⟩
  exact ⟨out, back, _, _, henc, hdec,
    padding (heap 2) s h.fits.1, hback.trans (padded_bytes (heap 2)).symm⟩

end RoundTrip

/-- **A string comes back padded** exactly if `strlen` finds the end of its ciphertext. -/
theorem roundTrip_iff_ends (cipher : Block → Equiv.Perm Block) (heap heap' : Nat → Cells UInt8)
    (behind : Nat) (key inv s : CStr) (hkey : key.len ≤ 16) (hinv : inv.len ≤ 16) :
    RoundTrip cipher heap heap' behind key inv s ↔ Ends cipher (heap 3) behind key inv s :=
  ⟨RoundTrip.ends heap' hkey hinv, Ends.roundTrip heap' hkey hinv⟩

end Awoke.Sec
