/-
Digits and bytes come back as they were.

Both printers write two characters for every byte, one behind the other, and `shows_loop` is the
loop they share: what is printed is a target, two characters further on after every turn.  The
readers make one byte of two characters, and the two directions agree on which half comes first.
-/
import Awoke.Lib.CellOps
import Awoke.Util.StringCodec

namespace Awoke

/-! ### Printing -/

/-- Some text was printed, and nothing else. -/
def Printed.Shows (p : Printed) (text : List UInt8) : Prop :=
  p.len = text.length ∧ Cells.slice p.out 0 p.len = text

theorem Printed.Shows.sprintf {p : Printed} {text : List UInt8} (h : p.Shows text)
    (more : List UInt8) : (p.sprintf more).Shows (text ++ more) := by
  obtain ⟨hlen, hslice⟩ := h
  refine ⟨by rw [Printed.sprintf, hlen, List.length_append], ?_⟩
  rw [Printed.sprintf, Cells.slice_add, Cells.slice_write_before _ _ _ _ (by omega), hslice,
    Int.zero_add, ← Cells.slice_take _ _ (show more.length ≤ (more ++ [0]).length by simp),
    Cells.slice_write_self, List.take_left]

theorem Printed.Shows.ended {p : Printed} {text : List UInt8} (h : p.Shows text) :
    Cells.slice (Function.update p.out p.len 0) 0 text.length = text := by
  obtain ⟨hlen, hslice⟩ := h
  rw [← hlen, ← Cells.write_one, Cells.slice_write_before _ _ _ _ (by omega), hslice]

/-- **A loop that prints two characters of a target in each turn** prints the target. -/
theorem shows_loop (target : Cells UInt8) (print : Printed → Nat → Printed) {start : Printed}
    (n : Nat) (hstart : start.Shows [])
    (hprint : ∀ p i, i < n → p.Shows (Cells.slice target 0 (2 * i)) →
      (print p i).Shows (Cells.slice target 0 (2 * i) ++ [target (2 * i), target (2 * i + 1)])) :
    ((List.range n).foldl print start).Shows (Cells.slice target 0 (2 * n)) := by
  induction n with
  | zero => exact hstart
  | succ n ih =>
      rw [List.range_succ, List.foldl_append, Nat.mul_succ, Cells.slice_add]
      have hrest := hprint _ n (Nat.lt_succ_self n) (ih fun p i hi => hprint p i (by omega))
      simpa [Cells.slice_succ] using hrest

/-! ### Characters -/

/-- The two characters a byte is printed as. -/
def hexPair (b : UInt8) : List UInt8 :=
  upperHexText ((b &&& 0xf0) >>> 4).toNat ++ upperHexText (b &&& 0x0f).toNat

/-- Each half of a byte is one character, and the two are read as the byte. -/
theorem hexPair_chars (b : UInt8) : ∃ high low, upperHexText ((b &&& 0xf0) >>> 4).toNat = [high] ∧
    upperHexText (b &&& 0x0f).toNat = [low] ∧ high ≠ 0 ∧ low ≠ 0 ∧
      (stringHtoi [high, low]).toUInt8 = b := by
  have hall : ∀ n < 256,
      (upperHexText ((UInt8.ofNat n &&& 0xf0) >>> 4).toNat).length = 1 ∧
      (upperHexText (UInt8.ofNat n &&& 0x0f).toNat).length = 1 ∧
      (0 : UInt8) ∉ hexPair (UInt8.ofNat n) ∧
      (stringHtoi (hexPair (UInt8.ofNat n))).toUInt8 = UInt8.ofNat n := by
    decide +kernel
  obtain ⟨hhigh, hlow, hzero, hread⟩ := UInt8.ofNat_toNat (x := b) ▸ hall b.toNat b.toNat_lt
  obtain ⟨high, hhigh⟩ := List.length_eq_one_iff.mp hhigh
  obtain ⟨low, hlow⟩ := List.length_eq_one_iff.mp hlow
  rw [hexPair, hhigh, hlow] at hzero hread
  simp only [List.singleton_append, List.mem_cons, not_or, List.not_mem_nil, not_false_iff,
    and_true] at hzero
  exact ⟨high, low, hhigh, hlow, fun h => hzero.1 h.symm, fun h => hzero.2 h.symm, hread⟩

/-- A digit is packed into the half of a byte that is printed as that digit. -/
theorem packed_digits {c d : UInt8} (hc : isDigitChar c) (hd : isDigitChar d) :
    decimalText ((ctoi c ||| (ctoi d <<< 4 &&& 0xff)) &&& 0x0f).toNat = [c] ∧
      decimalText (((ctoi c ||| (ctoi d <<< 4 &&& 0xff)) &&& 0xf0) >>> 4).toNat = [d] := by
  have hall : ∀ c ∈ List.range 10, ∀ d ∈ List.range 10,
      decimalText ((ctoi (UInt8.ofNat (48 + c)) ||| (ctoi (UInt8.ofNat (48 + d)) <<< 4 &&& 0xff))
        &&& 0x0f).toNat = [UInt8.ofNat (48 + c)] ∧
      decimalText (((ctoi (UInt8.ofNat (48 + c)) ||| (ctoi (UInt8.ofNat (48 + d)) <<< 4 &&& 0xff))
        &&& 0xf0) >>> 4).toNat = [UInt8.ofNat (48 + d)] := by
    decide +kernel
  have hdigit : ∀ {c : UInt8}, isDigitChar c → ∃ k ∈ List.range 10, UInt8.ofNat (48 + k) = c := by
    intro c hc
    simp only [isDigitChar, Bool.not_eq_true', Bool.or_eq_false_iff, decide_eq_false_iff_not,
      UInt8.not_lt, UInt8.le_iff_toNat_le, UInt8.reduceToNat] at hc
    refine ⟨c.toNat - 48, List.mem_range.mpr (by omega), ?_⟩
    rw [show 48 + (c.toNat - 48) = c.toNat by omega, UInt8.ofNat_toNat]
  obtain ⟨i, hi, rfl⟩ := hdigit hc
  obtain ⟨j, hj, rfl⟩ := hdigit hd
  exact hall i hi j hj

theorem last_digit {c : UInt8} (hc : isDigitChar c) :
    decimalText (ctoi c &&& 0x0f).toNat = [c] := by
  have hpacked := (packed_digits (d := 48) hc (by decide)).1
  rwa [show ctoi 48 <<< 4 &&& 0xff = 0 by decide, UInt8.or_zero] at hpacked

/-! ### Hexadecimal -/

/-- The characters that some bytes are printed as. -/
def hexChars (hex : Cells UInt8) : Cells UInt8 :=
  fun k => (hexPair (hex (k / 2))).getD (k % 2).toNat 0

theorem hexChars_pair (hex : Cells UInt8) (i : Nat) :
    [hexChars hex (2 * i), hexChars hex (2 * i + 1)] = hexPair (hex i) := by
  obtain ⟨high, low, hhigh, hlow, -⟩ := hexPair_chars (hex i)
  have hpair : hexPair (hex i) = [high, low] := by rw [hexPair, hhigh, hlow]; rfl
  have hfirst : (2 * (i : Int)) / 2 = i := by omega
  have hsecond : (2 * (i : Int) + 1) / 2 = i := by omega
  have heven : (2 * (i : Int)) % 2 = 0 := by omega
  have hodd : (2 * (i : Int) + 1) % 2 = 1 := by omega
  rw [hexChars, hexChars, hfirst, hsecond, heven, hodd, hpair]
  rfl

theorem stringFromHex_spec (hex string : Cells UInt8) {m : Nat} (hm : 1 ≤ m) (hmax : m ≤ 65535) :
    (stringFromHex hex string (.ofNat m)).1 = 2 * m ∧
      Cells.slice (stringFromHex hex string (.ofNat m)).2 0 (2 * m) =
        Cells.slice (hexChars hex) 0 (2 * m) := by
  have hnat : (UInt16.ofNat m).toNat = m :=
    UInt16.toNat_ofNat_of_lt' (show m < 65536 by omega)
  have hne : UInt16.ofNat m ≠ 0 := fun h => by
    rw [h] at hnat
    exact absurd hnat (by simp; omega)
  have hstart : Printed.Shows { out := string, len := 0 } [] := ⟨rfl, rfl⟩
  have hshows := shows_loop (hexChars hex)
    (fun (p : Printed) (i : Nat) =>
      (p.sprintf (upperHexText ((hex i &&& 0xf0) >>> 4).toNat)).sprintf
        (upperHexText (hex i &&& 0x0f).toNat)) m hstart fun p i _ h => by
      rw [hexChars_pair, hexPair, ← List.append_assoc]
      exact (h.sprintf _).sprintf _
  rw [stringFromHex, if_neg hne, hnat]
  refine ⟨?_, ?_⟩
  · have hlen := hshows.1
    rw [Cells.slice_length] at hlen
    exact congrArg Nat.cast hlen
  · have hended := hshows.ended
    rwa [Cells.slice_length] at hended

/-- The loop makes a byte of every two characters. -/
theorem toHexLoop_spec {string b : Cells UInt8} {hexLen : Nat}
    (hchars : ∀ i : Nat, i < hexLen / 2 → string (2 * i) ≠ 0 ∧
      (stringHtoi (twoChars string (2 * i))).toUInt8 = b i) (i : Nat) (str : Int)
    (hex : Cells UInt8) (hi : i ≤ hexLen / 2) (hstr : str = 2 * i) :
    (toHexLoop string hexLen i str hex).1 = hexLen / 2 ∧
      ∀ j : Nat, (toHexLoop string hexLen i str hex).2 j =
        if i ≤ j ∧ j < hexLen / 2 then b j else hex j := by
  fun_induction toHexLoop string hexLen i str hex with
  | case1 i str hex hmore ih =>
      obtain ⟨hlen, hcells⟩ := ih hmore.1 (by omega)
      refine ⟨hlen, fun j => ?_⟩
      rw [hcells j, hstr, (hchars i hmore.1).2, Function.update_apply]
      by_cases hj : j = i
      · subst hj
        rw [if_neg (by omega), if_pos rfl, if_pos ⟨Nat.le_refl j, hmore.1⟩]
      · rw [if_neg (show ¬(j : Int) = i by omega)]
        exact if_congr (by omega) rfl rfl
  | case2 i str hex hend =>
      have hlast : i = hexLen / 2 := by
        by_contra hne
        exact hend ⟨by omega, hstr ▸ (hchars i (by omega)).1⟩
      exact ⟨hlast, fun j => (if_neg (by omega)).symm⟩

/-- Bytes that were printed are read again. -/
theorem stringToHex_spec {string hex : Cells UInt8} {m : Nat} (hm : 1 ≤ m) (hmax : m ≤ 32767)
    (hslice : Cells.slice string 0 (2 * m) = Cells.slice (hexChars hex) 0 (2 * m))
    (dst : Cells UInt8) :
    (stringToHex string dst (.ofNat (2 * m))).1 = m ∧
      Cells.slice (stringToHex string dst (.ofNat (2 * m))).2 0 m = Cells.slice hex 0 m := by
  have hnat : (UInt16.ofNat (2 * m)).toNat = 2 * m :=
    UInt16.toNat_ofNat_of_lt' (show 2 * m < 65536 by omega)
  have hcell : ∀ k : Nat, k < 2 * m → string k = hexChars hex k := by
    intro k hk
    have hget := List.getElem_of_eq hslice (i := k) (by simpa using hk)
    simpa using hget
  have hchars : ∀ i : Nat, i < 2 * m / 2 → string (2 * i) ≠ 0 ∧
      (stringHtoi (twoChars string (2 * i))).toUInt8 = hex i := by
    intro i hi
    obtain ⟨high, low, hhigh, hlow, hhigh0, hlow0, hread⟩ := hexPair_chars (hex i)
    have hpair := hexChars_pair hex i
    rw [hexPair, hhigh, hlow, List.singleton_append, List.cons.injEq, List.cons.injEq] at hpair
    have hfirst : string (2 * i) = high := (hcell (2 * i) (by omega)).trans hpair.1
    have hsecond : string (2 * i + 1) = low := (hcell (2 * i + 1) (by omega)).trans hpair.2.1
    have htwo : twoChars string (2 * i) = [high, low] := by
      rw [twoChars, Cells.slice_succ, Cells.slice_succ, Cells.slice_zero, hfirst, hsecond]
      simp [hhigh0, hlow0]
    exact ⟨hfirst ▸ hhigh0, htwo ▸ hread⟩
  have hok : ¬(UInt16.ofNat (2 * m) = 0 ∨ UInt16.ofNat (2 * m) % 2 ≠ 0) := by
    simp only [← UInt16.toNat_inj, UInt16.toNat_mod, hnat, UInt16.reduceToNat, ne_eq]
    omega
  obtain ⟨hlen, hbytes⟩ := toHexLoop_spec hchars 0 0 dst (Nat.zero_le _) rfl
  rw [stringToHex, if_neg hok, hnat]
  refine ⟨?_, Cells.slice_congr fun k hk => ?_⟩
  · show ((toHexLoop string (2 * m) 0 0 dst).1 : Int) = m
    rw [hlen]
    omega
  · rw [Int.zero_add]
    exact (hbytes k).trans (if_pos ⟨Nat.zero_le k, by omega⟩)

/-! ### Binary coded decimals -/

/-- The first so many characters are digits. -/
def Digits (str : Cells UInt8) (n : Nat) : Prop := ∀ k : Nat, k < n → isDigitChar (str k)

/-- Two digits in one byte. -/
def packed (c d : UInt8) : UInt8 := ctoi c ||| (ctoi d <<< 4 &&& 0xff)

/-- The loop packs two digits in every turn. -/
theorem str2bcdLoop_packs (str : Cells UInt8) (binLen outLen : Nat) (bin : Cells UInt8) (i : Nat)
    (hout : outLen = 2 * i) (hdigits : Digits str (binLen / 2 * 2)) :
    (str2bcdLoop str binLen outLen bin).1 = true ∧
      ∀ j : Nat, (str2bcdLoop str binLen outLen bin).2 j =
        if i ≤ j ∧ j < binLen / 2 then packed (str (2 * j)) (str (2 * j + 1)) else bin j := by
  fun_induction str2bcdLoop str binLen outLen bin generalizing i with
  | case1 outLen bin hmore hboth digit1 digit2 ih =>
      obtain ⟨hdone, hcells⟩ := ih (i + 1) (by omega)
      refine ⟨hdone, fun j => ?_⟩
      rw [hcells j, Function.update_apply]
      by_cases hj : j = i
      · have hpos : (outLen : Int) = 2 * j := by omega
        rw [if_neg (by omega), if_pos (by omega), if_pos (by omega), packed, ← hpos]
      · rw [if_neg (show ¬(j : Int) = (outLen : Int) / 2 by omega)]
        exact if_congr (by omega) rfl rfl
  | case2 outLen bin hmore hnot =>
      refine absurd ?_ hnot
      rw [Bool.and_eq_true]
      exact ⟨hdigits outLen (by omega), hdigits (outLen + 1) (by omega)⟩
  | case3 outLen bin hend => exact ⟨rfl, fun j => (if_neg (by omega)).symm⟩

theorem str2bcdLoop_stops (str : Cells UInt8) (binLen outLen : Nat) (bin : Cells UInt8) {k : Nat}
    (heven : outLen % 2 = 0) (hlow : outLen ≤ k) (hhigh : k < binLen / 2 * 2)
    (hk : ¬isDigitChar (str k)) : (str2bcdLoop str binLen outLen bin).1 = false := by
  fun_induction str2bcdLoop str binLen outLen bin with
  | case1 outLen bin hmore hboth digit1 digit2 ih =>
      rw [Bool.and_eq_true] at hboth
      have hfirst : k ≠ outLen := fun h => hk (h ▸ hboth.1)
      have hsecond : k ≠ outLen + 1 := fun h => hk (h ▸ hboth.2)
      exact ih (by omega) (by omega)
  | case2 outLen bin hmore hnot => rfl
  | case3 outLen bin hend => omega

section

variable {str : Cells UInt8} {n : Nat} (bin : Cells UInt8) (hn : 1 ≤ n) (hmax : n ≤ 65535)

include hn hmax

theorem toNat_length : (UInt16.ofNat n).toNat = n ∧ UInt16.ofNat n ≠ 0 := by
  have hnat : (UInt16.ofNat n).toNat = n :=
    UInt16.toNat_ofNat_of_lt' (show n < 65536 by omega)
  refine ⟨hnat, fun h => ?_⟩
  rw [h] at hnat
  exact absurd hnat (show ¬0 = n by omega)

/-- **Digits are packed**, the last of an odd number alone. -/
theorem str2bcd_digits (hdigits : Digits str n) :
    (str2bcd bin str (.ofNat n)).1 = n ∧
      (∀ j : Nat, j < n / 2 →
        (str2bcd bin str (.ofNat n)).2 j = packed (str (2 * j)) (str (2 * j + 1))) ∧
      (n % 2 ≠ 0 → (str2bcd bin str (.ofNat n)).2 ((n : Int) / 2) = ctoi (str (n - 1))) := by
  obtain ⟨hnat, hne⟩ := toNat_length hn hmax
  obtain ⟨hdone, hcells⟩ := str2bcdLoop_packs str n 0 bin 0 rfl
    fun k hk => hdigits k (by omega)
  rw [str2bcd, if_neg hne, hnat]
  generalize str2bcdLoop str n 0 bin = r at hdone hcells
  obtain ⟨done, packedBin⟩ := r
  subst hdone
  simp only
  by_cases hodd : n % 2 ≠ 0
  · have hlast : isDigitChar (str (n - 1)) := by
      have := hdigits (n - 1) (by omega)
      rwa [Nat.cast_sub hn] at this
    rw [if_pos hodd, if_pos hlast]
    refine ⟨rfl, fun j hj => ?_, fun _ => Function.update_self _ _ _⟩
    exact (Function.update_of_ne (by omega) _ _).trans
      ((hcells j).trans (if_pos ⟨Nat.zero_le j, hj⟩))
  · rw [if_neg hodd]
    exact ⟨rfl, fun j hj => (hcells j).trans (if_pos ⟨Nat.zero_le j, hj⟩), fun h => absurd h hodd⟩

/-- **What is no digit is refused.** -/
theorem str2bcd_refuses (hnot : ¬Digits str n) : (str2bcd bin str (.ofNat n)).1 = -1 := by
  obtain ⟨hnat, hne⟩ := toNat_length hn hmax
  rw [Digits] at hnot
  push Not at hnot
  obtain ⟨k, hk, hchar⟩ := hnot
  rw [str2bcd, if_neg hne, hnat]
  by_cases hpair : k < n / 2 * 2
  · have hstops := str2bcdLoop_stops str n 0 bin rfl (Nat.zero_le k) hpair hchar
    generalize str2bcdLoop str n 0 bin = r at hstops
    obtain ⟨done, packedBin⟩ := r
    subst hstops
    rfl
  · have hlast : (k : Int) = n - 1 := by omega
    generalize str2bcdLoop str n 0 bin = r
    obtain ⟨done, packedBin⟩ := r
    cases done with
    | false => rfl
    | true =>
        simp only
        rw [if_pos (by omega), if_neg (hlast ▸ hchar)]

/-- **Packed digits are printed.** -/
theorem bcd2str_digits {inp : Cells UInt8} (out : Cells UInt8) (hdigits : Digits str n)
    (hpairs : ∀ j : Nat, j < n / 2 → inp j = packed (str (2 * j)) (str (2 * j + 1)))
    (hlast : n % 2 ≠ 0 → inp ((n : Int) / 2) = ctoi (str (n - 1))) :
    (bcd2str out inp (.ofNat n)).1 = n ∧
      Cells.slice (bcd2str out inp (.ofNat n)).2 0 n = Cells.slice str 0 n ∧
      (bcd2str out inp (.ofNat n)).2 n = 0 := by
  obtain ⟨hnat, hne⟩ := toNat_length hn hmax
  have hstart : Printed.Shows { out := out, len := 0 } [] := ⟨rfl, rfl⟩
  have hloop := shows_loop str
    (fun (p : Printed) (i : Nat) =>
      (p.sprintf (decimalText (inp i &&& 0x0f).toNat)).sprintf
        (decimalText ((inp i &&& 0xf0) >>> 4).toNat)) (n / 2) hstart fun p i hi h => by
      have hfirst : isDigitChar (str (2 * i)) := by simpa using hdigits (2 * i) (by omega)
      have hsecond : isDigitChar (str (2 * i + 1)) := by
        simpa using hdigits (2 * i + 1) (by omega)
      obtain ⟨hlow, hhigh⟩ := packed_digits hfirst hsecond
      have hprinted := (h.sprintf [str (2 * i)]).sprintf [str (2 * i + 1)]
      rw [List.append_assoc] at hprinted
      rw [hpairs i hi, packed, hlow, hhigh]
      exact hprinted
  have hended : ∀ p : Printed, p.Shows (Cells.slice str 0 n) →
      (p.len : Int) = n ∧
        Cells.slice (Function.update p.out p.len 0) 0 n = Cells.slice str 0 n ∧
        Function.update p.out p.len 0 n = 0 := by
    intro p h
    have hlen := h.1
    have hslice := h.ended
    rw [Cells.slice_length] at hlen hslice
    refine ⟨congrArg Nat.cast hlen, hslice, ?_⟩
    rw [hlen, Function.update_self]
  rw [bcd2str, if_neg hne, hnat]
  refine hended _ ?_
  by_cases hodd : n % 2 ≠ 0
  · have hdigit : isDigitChar (str (n - 1)) := by
      have := hdigits (n - 1) (by omega)
      rwa [Nat.cast_sub hn] at this
    have hprinted := hloop.sprintf [str (n - 1)]
    have hwhole : Cells.slice str 0 n = Cells.slice str 0 (2 * (n / 2)) ++ [str (n - 1)] := by
      have hsplit := Cells.slice_add str 0 (2 * (n / 2)) 1
      rw [show 2 * (n / 2) + 1 = n by omega] at hsplit
      rw [hsplit, Cells.slice_succ, Cells.slice_zero,
        show 0 + ((2 * (n / 2) : Nat) : Int) = n - 1 by omega]
    rw [if_pos hodd, hlast hodd, last_digit hdigit, hwhole]
    exact hprinted
  · rw [if_neg hodd]
    rwa [show 2 * (n / 2) = n by omega] at hloop

end

/-! ### There and back -/

/-- A string of digits is packed, and the string is printed again. -/
structure BcdRoundTrip (str bin out : Cells UInt8) (n : Nat) : Prop where
  accepted : (str2bcd bin str (.ofNat n)).1 = n
  length : (bcd2str out (str2bcd bin str (.ofNat n)).2 (.ofNat n)).1 = n
  back : Cells.slice (bcd2str out (str2bcd bin str (.ofNat n)).2 (.ofNat n)).2 0 n =
    Cells.slice str 0 n
  ended : (bcd2str out (str2bcd bin str (.ofNat n)).2 (.ofNat n)).2 n = 0

/-- Some bytes are printed, and read again. -/
structure HexRoundTrip (hex string dst : Cells UInt8) (m : Nat) : Prop where
  length : (stringToHex (stringFromHex hex string (.ofNat m)).2 dst (.ofNat (2 * m))).1 = m
  back : Cells.slice
      (stringToHex (stringFromHex hex string (.ofNat m)).2 dst (.ofNat (2 * m))).2 0 m =
    Cells.slice hex 0 m

/-- **What was packed or printed comes back**, and what is no digit is refused. -/
theorem string_codecs (str bin out hex string dst : Cells UInt8) {n m : Nat} (hn : 1 ≤ n)
    (hmaxn : n ≤ 65535) (hm : 1 ≤ m) (hmaxm : m ≤ 32767) :
    (Digits str n → BcdRoundTrip str bin out n) ∧
      (¬Digits str n → (str2bcd bin str (.ofNat n)).1 = -1) ∧
      HexRoundTrip hex string dst m := by
  refine ⟨fun hdigits => ?_, str2bcd_refuses bin hn hmaxn, ?_⟩
  · obtain ⟨haccepted, hpairs, hlast⟩ := str2bcd_digits bin hn hmaxn hdigits
    obtain ⟨hlength, hback, hended⟩ := bcd2str_digits hn hmaxn out hdigits hpairs hlast
    exact ⟨haccepted, hlength, hback, hended⟩
  · obtain ⟨-, hslice⟩ := stringFromHex_spec hex string hm (by omega)
    obtain ⟨hlength, hback⟩ := stringToHex_spec hm hmaxm hslice dst
    exact ⟨hlength, hback⟩

/-- Three digits 7, three letters x, and two bytes 0xa5. -/
theorem string_codecs_short :
    BcdRoundTrip (fun _ => 55) (fun _ => 0) (fun _ => 0) 3 ∧
      (str2bcd (fun _ => 0) (fun _ => 120) (.ofNat 3)).1 = -1 ∧
      HexRoundTrip (fun _ => 0xa5) (fun _ => 0) (fun _ => 0) 2 := by
  have hcodecs := fun str => string_codecs str (fun _ => 0) (fun _ => 0) (fun _ => 0xa5)
    (fun _ => 0) (fun _ => 0) (n := 3) (m := 2) (by decide) (by decide) (by decide) (by decide)
  refine ⟨(hcodecs fun _ => 55).1 fun k _ => ?_, (hcodecs fun _ => 120).2.1 fun h => ?_,
    (hcodecs fun _ => 55).2.2⟩
  · show isDigitChar 55 = true
    decide
  · exact absurd (h 0 (by decide)) (show ¬isDigitChar 120 = true by decide)

/-- **A length of 65536** is none in 16 bits: digits in such number are not accepted. -/
theorem str2bcd_too_long :
    Digits (fun _ => 48) 65536 ∧
      ¬BcdRoundTrip (fun _ => 48) (fun _ => 0) (fun _ => 0) 65536 := by
  refine ⟨fun k _ => ?_, fun h => ?_⟩
  · show isDigitChar 48 = true
    decide
  · exact absurd h.accepted (by decide)

end Awoke
