/-
The checksum of 16-bit words.

`awoke_checksum_u16` adds the words of a buffer as numbers and brings the carries round at the
end.  That is the ones' complement sum as long as `sum`, which has 32 bits and a sign, can hold
the number: 32769 words of all ones are more than it can.

A buffer of whole words with its checksum behind it verifies.  Behind an odd byte the checksum
does not lie where a word does.
-/
import Awoke.Lib.OnesSum
import Awoke.Util.Package

namespace Awoke

/-! ### The words of a buffer -/

/-- Two bytes each, the low one first, and the last of an odd buffer with a zero. -/
def words : List UInt8 → List Nat
  | low :: high :: rest => (low.toNat + 256 * high.toNat) :: words rest
  | [last] => [last.toNat]
  | [] => []

/-- The buffer with a zero behind it if it is odd. -/
def padded (data : List UInt8) : List UInt8 :=
  if data.length % 2 = 0 then data else data ++ [0]

/-- The checksum word: the complement of the ones' complement sum. -/
def checkWord (data : List UInt8) : UInt16 :=
  ~~~UInt16.ofNat (OnesSum.sum 0x10000 (words data))

/-- What is asked of `awoke_checksum_u16`: `sum` is the sum of the words added so far, and the
checksum word is returned. -/
structure ChecksRight (data : List UInt8) : Prop where
  exact : ∀ k, addWords 0 (data.take (2 * k)) = (words (data.take (2 * k))).sum
  returns : ∃ n, ∀ fuel, n ≤ fuel → checksumU16 fuel data = some (checkWord data)

/-- With the checksum word behind it, it comes to 0. -/
def Verifies (data : List UInt8) (check : UInt16) : Prop :=
  ∃ n, ∀ fuel, n ≤ fuel → checksumU16 fuel (data ++ pushWord check) = some 0

theorem words_lt (data : List UInt8) : ∀ x ∈ words data, x < 0x10000 := by
  induction data using words.induct with
  | case1 low high rest ih =>
      have hlow := low.toNat_lt
      have hhigh := high.toNat_lt
      exact List.forall_mem_cons.mpr ⟨by omega, ih⟩
  | case2 last =>
      have hlast := last.toNat_lt
      exact List.forall_mem_singleton.mpr (by omega)
  | case3 => exact fun x hx => absurd hx List.not_mem_nil

theorem words_append (data more : List UInt8) (heven : data.length % 2 = 0) :
    words (data ++ more) = words data ++ words more := by
  induction data using words.induct with
  | case1 low high rest ih =>
      rw [List.length_cons, List.length_cons] at heven
      rw [List.cons_append, List.cons_append, words, ih (by omega)]
      rfl
  | case2 last => exact absurd heven Nat.one_ne_zero
  | case3 => rfl

theorem words_padded (data : List UInt8) : words (padded data) = words data := by
  rw [padded]
  split
  · rfl
  · rename_i hodd
    induction data using words.induct with
    | case1 low high rest ih =>
        rw [List.length_cons, List.length_cons] at hodd
        rw [List.cons_append, List.cons_append, words, words, ih (by omega)]
    | case2 last => rfl
    | case3 => exact absurd rfl hodd

theorem padded_even (data : List UInt8) : (padded data).length % 2 = 0 := by
  rw [padded]
  split
  · assumption
  · rw [List.length_append, List.length_singleton]
    omega

theorem words_pushWord (x : UInt16) : words (pushWord x) = [x.toNat] := by
  have hx := x.toNat_lt
  rw [pushWord, words, words, List.cons.injEq, and_iff_left rfl, UInt16.toNat_toUInt8,
    UInt16.toNat_toUInt8, UInt16.toNat_shiftRight, Nat.shiftRight_eq_div_pow]
  simp only [UInt16.reduceToNat, Nat.reduceMod, Nat.reducePow]
  omega

/-! ### The sum -/

/-- What `sum` can hold it holds. -/
theorem addWords_eq (data : List UInt8) : ∀ s : Nat, s + (words data).sum < 2 ^ 31 →
    addWords s data = (s + (words data).sum : Nat) := by
  have hbmod : ∀ x : Nat, x < 2 ^ 31 → (x : Int).bmod (2 ^ 32) = x := by
    intro x hx
    exact Int.bmod_eq_of_le (by omega) (by omega)
  induction data using words.induct with
  | case1 low high rest ih =>
      intro s h
      rw [words, List.sum_cons] at h ⊢
      rw [addWords, ← Int.natCast_add, hbmod _ (by omega), ih _ (by omega), Nat.add_assoc]
  | case2 last =>
      intro s h
      rw [words, List.sum_singleton] at h ⊢
      rw [addWords, ← Int.natCast_add, hbmod _ h]
  | case3 => intro s _; rfl

theorem words_take_le (data : List UInt8) (k : Nat) :
    (words (data.take (2 * k))).sum ≤ (words data).sum := by
  by_cases hk : 2 * k ≤ data.length
  · conv => rhs; rw [← List.take_append_drop (2 * k) data]
    rw [words_append _ _ (by rw [List.length_take]; omega), List.sum_append]
    exact Nat.le_add_right _ _
  · rw [List.take_of_length_le (by omega)]

/-- The carries come round in the end. -/
theorem foldSum_eq (s : Nat) :
    ∃ n, ∀ fuel, n ≤ fuel → foldSum fuel s = some ((OnesSum.word 0x10000 s : Nat) : Int) := by
  induction s using Nat.strongRecOn with
  | _ s ih =>
      have hshift : (s : Int) >>> (16 : Nat) = (s / 0x10000 : Nat) := by
        rw [Int.shiftRight_eq_div_pow]
        rfl
      by_cases hs : s < 0x10000
      · refine ⟨1, fun fuel hfuel => ?_⟩
        obtain ⟨n, rfl⟩ := Nat.exists_eq_add_of_le' hfuel
        rw [foldSum, hshift, Nat.div_eq_of_lt hs, Int.ofNat_zero, if_pos rfl,
          OnesSum.word_of_lt hs]
      · obtain ⟨n, hn⟩ := ih _ (OnesSum.fold_lt (by decide) (Nat.not_lt.mp hs))
        refine ⟨n + 1, fun fuel hfuel => ?_⟩
        obtain ⟨d, rfl⟩ := Nat.exists_eq_add_of_le' hfuel
        rw [← Nat.add_assoc, foldSum, hshift, if_neg (by omega),
          ← OnesSum.word_fold (by decide) s, ← hn (d + n) (Nat.le_add_left n d)]
        rfl

theorem ofInt_natCast (x : Nat) : UInt16.ofInt x = UInt16.ofNat x := by
  apply UInt16.toNat_inj.mp
  rw [UInt16.ofInt, UInt16.toNat_ofNat', UInt16.toNat_ofNat']
  omega

theorem checksumU16_eq {data : List UInt8} (h : (words data).sum < 2 ^ 31) :
    ∃ n, ∀ fuel, n ≤ fuel → checksumU16 fuel data = some (checkWord data) := by
  obtain ⟨n, hn⟩ := foldSum_eq (words data).sum
  refine ⟨n, fun fuel hfuel => ?_⟩
  have hsum := addWords_eq data 0 (by omega)
  rw [Nat.zero_add, Int.ofNat_zero] at hsum
  rw [checksumU16, hsum, hn fuel hfuel, checkWord, OnesSum.sum_eq (by decide) (words_lt data),
    Option.map_some, ofInt_natCast]

/-- **The checksum** of a buffer whose words add up to less than 2^31. -/
theorem checksRight {data : List UInt8} (h : (words data).sum < 2 ^ 31) : ChecksRight data where
  exact := by
    intro k
    have hle := words_take_le data k
    have hsum := addWords_eq (data.take (2 * k)) 0 (by omega)
    rwa [Nat.zero_add, Int.ofNat_zero] at hsum
  returns := checksumU16_eq h

/-- What `sum` has in the end is never more than it can hold. -/
theorem addWords_lt (data : List UInt8) : ∀ s : Int, s < 2 ^ 31 → addWords s data < 2 ^ 31 := by
  have hbmod : ∀ x : Int, x.bmod (2 ^ 32) < 2 ^ 31 := fun x => Int.bmod_lt (by decide)
  induction data using words.induct with
  | case1 low high rest ih => exact fun s _ => ih _ (hbmod _)
  | case2 last => exact fun s _ => hbmod _
  | case3 => exact fun s hs => hs

/-- **A sum that is not held**: in the end `sum` is another. -/
theorem not_checksRight {data : List UInt8} (h : 2 ^ 31 ≤ (words data).sum) :
    ¬ChecksRight data := by
  intro hright
  have hexact := hright.exact data.length
  rw [List.take_of_length_le (by omega)] at hexact
  have hlt := addWords_lt data 0 (by decide)
  omega

/-- **Behind whole words** the checksum word makes the sum all ones. -/
theorem verifies_padded {data : List UInt8}
    (h : (words (padded data ++ pushWord (checkWord data))).sum < 2 ^ 31) :
    Verifies (padded data) (checkWord data) := by
  have hwords : words (padded data ++ pushWord (checkWord data)) =
      words data ++ [(checkWord data).toNat] := by
    rw [words_append _ _ (padded_even data), words_padded, words_pushWord]
  have hlt := OnesSum.word_lt (m := 0x10000) (by decide) (words data).sum
  have hcheck : (checkWord data).toNat =
      0x10000 - 1 - OnesSum.word 0x10000 (words data).sum := by
    rw [checkWord, OnesSum.sum_eq (by decide) (words_lt data), UInt16.toNat_not,
      UInt16.toNat_ofNat_of_lt' hlt]
  have hzero : checkWord (padded data ++ pushWord (checkWord data)) = 0 := by
    rw [checkWord, OnesSum.sum_eq (by decide) (words_lt _), hwords, List.sum_append,
      List.sum_singleton, hcheck, OnesSum.word_complement (by decide)]
    rfl
  obtain ⟨n, hn⟩ := checksumU16_eq h
  exact ⟨n, fun fuel hfuel => hzero ▸ hn fuel hfuel⟩

/-- **What the checksum is**, and that whole words with it behind them verify. -/
theorem checksumU16_law (data : List UInt8) (h : (words data).sum < 2 ^ 31) :
    ChecksRight data ∧
      ((words (padded data ++ pushWord (checkWord data))).sum < 2 ^ 31 →
        Verifies (padded data) (checkWord data)) :=
  ⟨checksRight h, verifies_padded⟩

/-- Three bytes. -/
theorem checksumU16_law_three :
    ChecksRight [1, 2, 3] ∧ Verifies (padded [1, 2, 3]) (checkWord [1, 2, 3]) :=
  have hlaw := checksumU16_law [1, 2, 3] (by decide)
  ⟨hlaw.1, hlaw.2 (by decide)⟩

/-- **One odd byte** does not verify with its checksum word behind it, and 65538 bytes of all ones
have a sum that is not held. -/
theorem checksumU16_unexpected :
    ¬Verifies [1] (checkWord [1]) ∧ ¬ChecksRight (List.replicate 65538 0xff) := by
  constructor
  · rintro ⟨n, hn⟩
    have hbytes : [1] ++ pushWord (checkWord [1]) = [1, 0xfe, 0xff] := by decide
    have hsum : addWords 0 [1, 0xfe, 0xff] = 0xff00 := by decide
    have hreturned := hn (n + 1) (Nat.le_succ n)
    rw [hbytes, checksumU16, hsum, foldSum, if_pos (by decide)] at hreturned
    exact absurd hreturned (by decide)
  · refine not_checksRight ?_
    have hwords : ∀ k, (words (List.replicate (2 * k) 0xff)).sum = 65535 * k := by
      intro k
      induction k with
      | zero => rfl
      | succ k ih =>
          rw [Nat.mul_succ, List.replicate_succ, List.replicate_succ, words, List.sum_cons, ih,
            Nat.mul_succ, Nat.add_comm]
          rfl
    rw [show 65538 = 2 * 32769 by rfl, hwords]
    decide

end Awoke
