/-
The cipher against the standard, and against its own inverse.

A block is read as a state, byte by byte, and every step of the cipher is then the step of Rijndael
on states; the context holds the words of the key schedule.  Each step has one that undoes it, and
`InvCipher` takes them in the opposite order.
-/
import Awoke.Lib.Rijndael
import Awoke.Sec.AesBlock

namespace Awoke.Sec

/-! ### Bytes -/

theorem xtime_eq (x : UInt8) : xtime x = Rijndael.double x := by
  have hall : ∀ x : BitVec 8, xtime ⟨x⟩ = Rijndael.double ⟨x⟩ := by decide +kernel
  exact hall x.toBitVec

/-- **The table is the substitution.** -/
theorem getSBoxValue_eq (x : UInt8) : getSBoxValue x = Rijndael.subByte x := by
  have hall : ∀ x : BitVec 8, getSBoxValue ⟨x⟩ = Rijndael.subByte ⟨x⟩ := by decide +kernel
  exact hall x.toBitVec

theorem getSBoxInvert_value (x : UInt8) : getSBoxInvert (getSBoxValue x) = x := by
  have hall : ∀ x : BitVec 8, getSBoxInvert (getSBoxValue ⟨x⟩) = ⟨x⟩ := by decide +kernel
  exact hall x.toBitVec

theorem rcon_eq {n : Nat} (hpos : 0 < n) (hle : n ≤ 10) : rcon.getD n 0 = Rijndael.rcon n := by
  have hall : ∀ n ≤ 10, 0 < n → rcon.getD n 0 = Rijndael.rcon n := by decide +kernel
  exact hall n hle hpos

/-! ### Steps -/

/-- A block as a state. -/
def state (b : Block) : Rijndael.State := fun r c => b[c.val * 4 + r.val]

theorem state_injective : Function.Injective state := by
  intro a b h
  apply Vector.ext
  intro k hk
  have hbyte := congrFun (congrFun h ⟨k % 4, by omega⟩) ⟨k / 4, by omega⟩
  simp only [state] at hbyte
  have hindex : k / 4 * 4 + k % 4 = k := by omega
  simpa only [hindex] using hbyte

theorem state_subBytes (b : Block) : state (subBytes b) = Rijndael.subBytes (state b) := by
  funext r c
  rw [state, subBytes, Vector.getElem_map, getSBoxValue_eq]
  rfl

theorem state_shiftRows (b : Block) : state (shiftRows b) = Rijndael.shiftRows (state b) := by
  funext r c
  fin_cases r <;> fin_cases c <;> simp [state, shiftRows, Rijndael.shiftRows]

theorem state_invShiftRows (b : Block) (r c : Fin 4) :
    state (invShiftRows b) r c = state b r (c - r) := by
  fin_cases r <;> fin_cases c <;> simp [state, invShiftRows] <;> rfl

/-- The first row of the matrix for a mode. -/
def mixRow : Mode → Fin 4 → UInt8
  | .encrypt => Rijndael.mixRow
  | .decrypt => Rijndael.unmixRow

theorem mixColumn_eq (mode : Mode) (v : Fin 4 → UInt8) :
    mixColumn mode ((List.finRange 4).map v) =
      ⟨Rijndael.mix (mixRow mode) v 1, Rijndael.mix (mixRow mode) v 2,
        Rijndael.mix (mixRow mode) v 3, Rijndael.mix (mixRow mode) v 0⟩ := by
  have hmap : (List.finRange 4).map v = [v 0, v 1, v 2, v 3] := rfl
  cases mode
  all_goals
    simp only [hmap, mixColumn, List.foldl_cons, List.foldl_nil, mixTurn, xtime_eq, Rijndael.mix,
      mixRow, Rijndael.mixRow, Rijndael.unmixRow, Fin.isValue, Fin.reduceSub, List.get,
      Rijndael.mul_one, Rijndael.mul_two, Rijndael.mul_three, Rijndael.mul_nine,
      Rijndael.mul_eleven, Rijndael.mul_thirteen, Rijndael.mul_fourteen, UInt8.zero_xor,
      UInt8.xor_assoc]

theorem state_mixColumnAt (mode : Mode) (b : Block) (c0 r c : Fin 4) :
    state (mixColumnAt mode b c0) r c =
      if c = c0 then Rijndael.mix (mixRow mode) (fun r' => state b r' c) r else state b r c := by
  have hcolumn : mixColumn mode ((List.finRange 4).map fun c1 => b[c0.val * 4 + c1.val]) = _ :=
    mixColumn_eq mode fun c1 => b[c0.val * 4 + c1.val]
  simp only [state, mixColumnAt, hcolumn, Vector.getElem_set]
  by_cases hc : c = c0
  · subst hc
    rw [if_pos rfl]
    fin_cases r <;> simp
  · have hne : c.val ≠ c0.val := fun h => hc (Fin.ext h)
    rw [if_neg hc, if_neg (by omega), if_neg (by omega), if_neg (by omega), if_neg (by omega)]

theorem state_mixColumns (mode : Mode) (b : Block) (r c : Fin 4) :
    state (mixColumns mode b) r c = Rijndael.mix (mixRow mode) (fun r' => state b r' c) r := by
  have hturns : mixColumns mode b =
      mixColumnAt mode (mixColumnAt mode (mixColumnAt mode (mixColumnAt mode b 0) 1) 2) 3 := rfl
  rw [hturns]
  fin_cases c <;> simp [state_mixColumnAt]

/-! ### Keys -/

/-- What is written is read, and the other words stay. -/
theorem wordAt_setWord (rk : AesContext) {i : Nat} (hi : i < 44) (w : Vector UInt8 4) (j : Nat) :
    wordAt (setWord rk i w) j = if j = i then w else wordAt rk j := by
  apply Vector.ext
  intro r hr
  have hset : setWord rk i w =
      (((rk.setIfInBounds (i * 4) w[0]).setIfInBounds (i * 4 + 1) w[1]).setIfInBounds
        (i * 4 + 2) w[2]).setIfInBounds (i * 4 + 3) w[3] := rfl
  rw [wordAt, Vector.getElem_ofFn, hset]
  simp only [Vector.getElem?_setIfInBounds]
  by_cases hj : j = i
  · subst hj
    rw [if_pos rfl]
    have hcases : r = 0 ∨ r = 1 ∨ r = 2 ∨ r = 3 := by omega
    rcases hcases with rfl | rfl | rfl | rfl
    · simp [show j * 4 < 176 by omega]
    · simp [show j * 4 + 1 < 176 by omega]
    · simp [show j * 4 + 2 < 176 by omega]
    · simp [show j * 4 + 3 < 176 by omega]
  · rw [if_neg hj, wordAt, Vector.getElem_ofFn, if_neg (by omega), if_neg (by omega),
      if_neg (by omega), if_neg (by omega)]

/-- A word of the schedule, as it lies in a context. -/
def scheduled (key : Block) (i : Nat) : Vector UInt8 4 :=
  Vector.ofFn (Rijndael.word (state key) i)

theorem wordAt_key (rk : AesContext) (key : Block) {j : Nat} (hj : j < 4) :
    wordAt ((List.finRange 4).foldl (fun rk i =>
      setWord rk i.val (Vector.ofFn fun j => key[i.val * 4 + j.val])) rk) j = scheduled key j := by
  have hturns : (List.finRange 4) = [0, 1, 2, 3] := rfl
  have hword : scheduled key j = Vector.ofFn fun r : Fin 4 => key[j * 4 + r.val] := by
    unfold scheduled
    congr 1
    funext r
    rw [Rijndael.word, dif_pos hj]
    rfl
  have hcases : j = 0 ∨ j = 1 ∨ j = 2 ∨ j = 3 := by omega
  rw [hturns, hword]
  rcases hcases with rfl | rfl | rfl | rfl <;>
    simp [wordAt_setWord]

/-- A turn of the loop makes the next word. -/
theorem wordAt_expandWord (rk : AesContext) (key : Block) {i : Nat} (hlow : 4 ≤ i) (hhigh : i < 44)
    (hbefore : ∀ j < i, wordAt rk j = scheduled key j) :
    wordAt (expandWord rk i) i = scheduled key i := by
  rw [expandWord, wordAt_setWord _ hhigh, if_pos rfl, hbefore (i - 1) (by omega),
    hbefore (i - 4) (by omega)]
  apply Vector.ext
  intro r hr
  rw [scheduled, scheduled, scheduled, Vector.getElem_zipWith, Vector.getElem_ofFn,
    Vector.getElem_ofFn, Rijndael.word_of_le hlow]
  congr 1
  by_cases hmod : i % 4 = 0
  · rw [if_pos hmod, if_pos hmod, rcon_eq (by omega) (by omega)]
    have hcases : r = 0 ∨ r = 1 ∨ r = 2 ∨ r = 3 := by omega
    rcases hcases with rfl | rfl | rfl | rfl <;>
      simp [subWord, rotWord, Rijndael.turned, getSBoxValue_eq]
  · rw [if_neg hmod, if_neg hmod, Vector.getElem_ofFn]

/-- **The context holds the words of the schedule.** -/
theorem wordAt_keyExpansion (rk : AesContext) (key : Block) {j : Nat} (hj : j < 44) :
    wordAt (keyExpansion rk key) j = scheduled key j := by
  have hturns : ∀ n ≤ 40, ∀ j < 4 + n, wordAt ((List.range' 4 n).foldl expandWord
      ((List.finRange 4).foldl (fun rk i =>
        setWord rk i.val (Vector.ofFn fun j => key[i.val * 4 + j.val])) rk)) j =
      scheduled key j := by
    intro n
    induction n with
    | zero =>
        intro _ j hj
        rw [List.range'_zero, List.foldl_nil]
        exact wordAt_key rk key hj
    | succ n ih =>
        intro hn j hj
        rw [List.range'_concat, List.foldl_append, List.foldl_cons, List.foldl_nil, Nat.one_mul]
        by_cases hlast : j = 4 + n
        · subst hlast
          exact wordAt_expandWord _ key (by omega) (by omega) (ih (by omega))
        · rw [expandWord, wordAt_setWord _ (by omega), if_neg hlast]
          exact ih (by omega) j (by omega)
  exact hturns 40 (Nat.le_refl 40) j hj

theorem state_addRoundKey (rk : AesContext) (key b : Block) {n : Nat} (hn : n ≤ 10) :
    state (addRoundKey (keyExpansion rk key) n b) =
      Rijndael.addRoundKey (Rijndael.roundKey (state key) n) (state b) := by
  funext r c
  have hword := congrArg (fun w : Vector UInt8 4 => w[r])
    (wordAt_keyExpansion rk key (j := n * 4 + c.val) (by omega))
  simp only [wordAt, scheduled, Fin.getElem_fin, Vector.getElem_ofFn] at hword
  have hindex : (n * 4 + c.val) * 4 + r.val = n * 16 + (c.val * 4 + r.val) := by ring
  rw [hindex] at hword
  simp only [state, addRoundKey, Rijndael.addRoundKey, Rijndael.roundKey, Vector.getElem_ofFn,
    hword]
  rfl

/-! ### The cipher -/

theorem state_cipherRound (rk : AesContext) (key b : Block) {n : Nat} (hn : n ≤ 10) :
    state (cipherRound (keyExpansion rk key) b n) =
      Rijndael.addRoundKey (Rijndael.roundKey (state key) n)
        (Rijndael.mixColumns (Rijndael.shiftRows (Rijndael.subBytes (state b)))) := by
  have hmix : ∀ b, state (mixColumns .encrypt b) = Rijndael.mixColumns (state b) := by
    intro b
    funext r c
    exact state_mixColumns .encrypt b r c
  rw [cipherRound, state_addRoundKey rk key _ hn, hmix, state_shiftRows, state_subBytes]

/-- **`Cipher` is the cipher of the standard**, whatever was in the context before. -/
theorem state_cipher (rk : AesContext) (key b : Block) :
    state (cipher (keyExpansion rk key) b) = Rijndael.encrypt (state key) (state b) := by
  have hrounds : ∀ ns : List Nat, (∀ n ∈ ns, n ≤ 10) → ∀ b,
      state (ns.foldl (cipherRound (keyExpansion rk key)) b) =
        ns.foldl (fun s n => Rijndael.addRoundKey (Rijndael.roundKey (state key) n)
          (Rijndael.mixColumns (Rijndael.shiftRows (Rijndael.subBytes s)))) (state b) := by
    intro ns
    induction ns with
    | nil => exact fun _ _ => rfl
    | cons n ns ih =>
        intro hns b
        rw [List.foldl_cons, List.foldl_cons, ih (fun m hm => hns m (List.mem_cons_of_mem n hm)),
          state_cipherRound rk key b (hns n List.mem_cons_self)]
  rw [cipher, Rijndael.encrypt, state_addRoundKey rk key _ (Nat.le_refl 10), state_shiftRows,
    state_subBytes, hrounds _ (by decide), state_addRoundKey rk key _ (by omega)]

/-! ### The inverse -/

theorem invSubBytes_subBytes (b : Block) : invSubBytes (subBytes b) = b := by
  apply Vector.ext
  intro n hn
  rw [invSubBytes, subBytes, Vector.getElem_map, Vector.getElem_map, getSBoxInvert_value]

theorem invShiftRows_shiftRows (b : Block) : invShiftRows (shiftRows b) = b := by
  apply state_injective
  funext r c
  rw [state_invShiftRows, state_shiftRows, Rijndael.shiftRows, sub_add_cancel]

theorem unmixColumns_mixColumns (b : Block) :
    mixColumns .decrypt (mixColumns .encrypt b) = b := by
  apply state_injective
  funext r c
  have hcolumn : (fun r' => state (mixColumns .encrypt b) r' c) =
      Rijndael.mix Rijndael.mixRow fun r' => state b r' c :=
    funext fun r' => state_mixColumns .encrypt b r' c
  rw [state_mixColumns, hcolumn]
  exact congrFun (Rijndael.mix_mix Rijndael.unmix_mix _) r

theorem addRoundKey_addRoundKey (rk : AesContext) (n : Nat) (b : Block) :
    addRoundKey rk n (addRoundKey rk n b) = b := by
  apply Vector.ext
  intro k hk
  simp only [addRoundKey, Vector.getElem_ofFn, Fin.getElem_fin, UInt8.xor_assoc, UInt8.xor_self,
    UInt8.xor_zero]

/-- What the last round makes of a block before its key is added. -/
def unkeyed (b : Block) : Block := shiftRows (subBytes b)

theorem unkeyed_inv (b : Block) : invSubBytes (invShiftRows (unkeyed b)) = b := by
  rw [unkeyed, invShiftRows_shiftRows, invSubBytes_subBytes]

/-- A round is undone, but for what is left of the round before. -/
theorem invCipherRound_undoes (rk : AesContext) (b : Block) (n : Nat) :
    invCipherRound rk (unkeyed (cipherRound rk b n)) n = unkeyed b := by
  rw [invCipherRound, unkeyed_inv, cipherRound, addRoundKey_addRoundKey, unmixColumns_mixColumns]
  rfl

theorem invCipher_cipher (rk : AesContext) (b : Block) : invCipher rk (cipher rk b) = b := by
  have hrounds : ∀ (ns : List Nat) (b : Block),
      ns.reverse.foldl (invCipherRound rk) (unkeyed (ns.foldl (cipherRound rk) b)) =
        unkeyed b := by
    intro ns
    induction ns with
    | nil => exact fun _ => rfl
    | cons n ns ih =>
        intro b
        rw [List.reverse_cons, List.foldl_append, List.foldl_cons, List.foldl_nil, List.foldl_cons,
          ih, invCipherRound_undoes]
  rw [invCipher, cipher, addRoundKey_addRoundKey]
  change addRoundKey rk 0 (invSubBytes (invShiftRows ((List.range' 1 9).reverse.foldl
    (invCipherRound rk) (unkeyed ((List.range' 1 9).foldl (cipherRound rk)
      (addRoundKey rk 0 b)))))) = b
  rw [hrounds, unkeyed_inv, addRoundKey_addRoundKey]

/-- There are finitely many blocks, so what undoes the cipher is undone by it. -/
theorem cipher_invCipher (rk : AesContext) (b : Block) : cipher rk (invCipher rk b) = b := by
  have hbyte : Finite UInt8 := Finite.of_injective UInt8.toFin fun _ _ => UInt8.toFin_inj.mp
  have hfinite : Finite Block := Finite.of_injective state state_injective
  have hinjective : Function.Injective (cipher rk) :=
    Function.LeftInverse.injective (invCipher_cipher rk)
  obtain ⟨a, rfl⟩ := Finite.surjective_of_injective hinjective b
  rw [invCipher_cipher]

/-- **Decrypting undoes encrypting and encrypting undoes decrypting**, whatever is in the
context. -/
theorem mbedtlsAesEncrypt_undoes (ctx : AesContext) (b : Block) :
    mbedtlsAesEncrypt ctx .decrypt (mbedtlsAesEncrypt ctx .encrypt b) = b ∧
      mbedtlsAesEncrypt ctx .encrypt (mbedtlsAesEncrypt ctx .decrypt b) = b :=
  ⟨invCipher_cipher ctx b, cipher_invCipher ctx b⟩

/-- **A context that was set up is the standard's cipher under its key**, and its inverse the other
way; what was in the context before does not matter. -/
theorem mbedtlsAesEncrypt_setkey (ctx : AesContext) (key b : Block) :
    (mbedtlsAesSetkeyEnc ctx key 128).1 = 0 ∧
      state (mbedtlsAesEncrypt (mbedtlsAesSetkeyEnc ctx key 128).2 .encrypt b) =
        Rijndael.encrypt (state key) (state b) ∧
      Rijndael.encrypt (state key)
        (state (mbedtlsAesEncrypt (mbedtlsAesSetkeyDec ctx key 128).2 .decrypt b)) = state b := by
  have hset : mbedtlsAesSetkeyEnc ctx key 128 = (0, keyExpansion ctx key) :=
    if_neg (not_not_intro rfl)
  refine ⟨congrArg Prod.fst hset, ?_, ?_⟩
  · rw [hset]
    exact state_cipher ctx key b
  · rw [mbedtlsAesSetkeyDec, hset, ← state_cipher ctx]
    exact congrArg state (cipher_invCipher _ b)

/-- The example that the standard works out. -/
example : mbedtlsAesEncrypt (mbedtlsAesSetkeyEnc (Vector.replicate 176 0)
      #v[0x2b, 0x7e, 0x15, 0x16, 0x28, 0xae, 0xd2, 0xa6, 0xab, 0xf7, 0x15, 0x88, 0x09, 0xcf, 0x4f,
        0x3c] 128).2 .encrypt
      #v[0x32, 0x43, 0xf6, 0xa8, 0x88, 0x5a, 0x30, 0x8d, 0x31, 0x31, 0x98, 0xa2, 0xe0, 0x37, 0x07,
        0x34] =
    #v[0x39, 0x25, 0x84, 0x1d, 0x02, 0xdc, 0x09, 0xfb, 0xdc, 0x11, 0x85, 0x97, 0x19, 0x6a, 0x0b,
      0x32] := by decide +kernel

end Awoke.Sec
