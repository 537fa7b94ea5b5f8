/-
Text that is decoded to what was encoded.

Three bytes are four numbers below 64, and each of these is a character.  The decoder passes over the
ends of lines, so text may be broken as it likes; and it writes behind where it reads, so text may be
decoded where it lies.
-/
import Awoke.Lib.CellOps
import Awoke.Lib.Pieces
import Awoke.Sec.Base64

namespace Awoke.Sec.Base64

open Cells (slice Pen)

/-! ### Characters -/

theorem toNat_and_low (c : UInt8) : (c &&& 3).toNat = c.toNat % 4 := by
  rw [UInt8.toNat_and]
  exact Nat.and_two_pow_sub_one_eq_mod c.toNat 2

theorem toNat_and_half (c : UInt8) : (c &&& 15).toNat = c.toNat % 16 := by
  rw [UInt8.toNat_and]
  exact Nat.and_two_pow_sub_one_eq_mod c.toNat 4

theorem toNat_and_sixty (c : UInt8) : (c &&& 0x3f).toNat = c.toNat % 64 := by
  rw [UInt8.toNat_and]
  exact Nat.and_two_pow_sub_one_eq_mod c.toNat 6

/-- The number a character stands for; a pad stands for 0. -/
def value (c : UInt8) : Nat := (decChar c &&& 0x3f).toNat

theorem value_lt (c : UInt8) : value c < 64 := by
  rw [value, toNat_and_sixty]
  exact Nat.mod_lt _ (by decide)

/-- A character that stands for a number, and is no pad. -/
def IsData (c : UInt8) : Prop := decChar c < 64

instance (c : UInt8) : Decidable (IsData c) := inferInstanceAs (Decidable (decChar c < 64))

/-- What the second pass does not look at. -/
def IsBlank (c : UInt8) : Prop := c = 13 ∨ c = 10 ∨ c = 32

instance (c : UInt8) : Decidable (IsBlank c) :=
  inferInstanceAs (Decidable (c = 13 ∨ c = 10 ∨ c = 32))

theorem isData_iff {c : UInt8} (h : IsData c) :
    decChar c ≠ 64 ∧ decChar c ≠ 127 ∧ ¬IsBlank c ∧ c ≠ 61 ∧ c ≤ 127 := by
  have hall : ∀ c : BitVec 8, IsData ⟨c⟩ →
      decChar ⟨c⟩ ≠ 64 ∧ decChar ⟨c⟩ ≠ 127 ∧ ¬IsBlank ⟨c⟩ ∧ (⟨c⟩ : UInt8) ≠ 61 ∧
        (⟨c⟩ : UInt8) ≤ 127 := by decide +kernel
  exact hall c.toBitVec h

theorem isData_of_ne {c : UInt8} (h127 : decChar c ≠ 127) (hpad : c ≠ 61) : IsData c := by
  have hall : ∀ c : BitVec 8, decChar ⟨c⟩ ≠ 127 → (⟨c⟩ : UInt8) ≠ 61 → IsData ⟨c⟩ := by
    decide +kernel
  exact hall c.toBitVec h127 hpad

theorem encChar_data {v : UInt8} (h : v.toNat < 64) :
    IsData (encChar v) ∧ value (encChar v) = v.toNat := by
  have hall : ∀ v : BitVec 8, v.toNat < 64 →
      IsData (encChar ⟨v⟩) ∧ value (encChar ⟨v⟩) = v.toNat := by decide +kernel
  exact hall v.toBitVec h

/-! ### Groups -/

/-- The number that four characters make. -/
def joined (a b c d : UInt8) : Nat := ((value a * 64 + value b) * 64 + value c) * 64 + value d

/-- The three bytes of a number, the highest first. -/
def bytesOf (q : Nat) : List UInt8 :=
  [UInt8.ofNat (q / 65536), UInt8.ofNat (q / 256), UInt8.ofNat q]

/-- What the characters contain, with so many pads behind them. -/
def content : List UInt8 → Nat → List UInt8
  | a :: b :: c :: d :: r, j => bytesOf (joined a b c d) ++ content r j
  | [a, b, c], _ + 1 => (bytesOf (joined a b c 61)).take 2
  | [a, b], 2 => (bytesOf (joined a b 61 61)).take 1
  | _, _ => []

/-- The characters for bytes, and the pads. -/
def text : List UInt8 → List UInt8
  | a :: b :: c :: r => encodeGroup a b c ++ text r
  | [a, b] => encodeRest true a b
  | [a] => encodeRest false a 0
  | [] => []

/-- How many pads there are. -/
def pads (n : Nat) : Nat := (3 - n % 3) % 3

theorem sixth_first (c1 : UInt8) : (c1 >>> 2 &&& 0x3f).toNat = c1.toNat / 4 := by
  have hlt := c1.toNat_lt
  rw [toNat_and_sixty, UInt8.toNat_shiftRight, Nat.shiftRight_eq_div_pow]
  exact Nat.mod_eq_of_lt (by have h2 : (2 : UInt8).toNat % 8 = 2 := rfl; rw [h2]; omega)

theorem sixth_second (c1 c2 : UInt8) :
    (((c1 &&& 3) <<< 4) + (c2 >>> 4) &&& 0x3f).toNat = c1.toNat % 4 * 16 + c2.toNat / 16 := by
  have h1 := c1.toNat_lt
  have h2 := c2.toNat_lt
  have h4 : (4 : UInt8).toNat % 8 = 4 := rfl
  rw [toNat_and_sixty, UInt8.toNat_add, UInt8.toNat_shiftLeft, UInt8.toNat_shiftRight,
    toNat_and_low, h4, Nat.shiftLeft_eq, Nat.shiftRight_eq_div_pow]
  omega

theorem sixth_third (c2 c3 : UInt8) :
    (((c2 &&& 15) <<< 2) + (c3 >>> 6) &&& 0x3f).toNat = c2.toNat % 16 * 4 + c3.toNat / 64 := by
  have h2 := c2.toNat_lt
  have h3 := c3.toNat_lt
  have hs2 : (2 : UInt8).toNat % 8 = 2 := rfl
  have hs6 : (6 : UInt8).toNat % 8 = 6 := rfl
  rw [toNat_and_sixty, UInt8.toNat_add, UInt8.toNat_shiftLeft, UInt8.toNat_shiftRight,
    toNat_and_half, hs2, hs6, Nat.shiftLeft_eq, Nat.shiftRight_eq_div_pow]
  omega

/-- **Three bytes are in their four characters.** -/
theorem group_content (c1 c2 c3 : UInt8) : ∃ a b c d, encodeGroup c1 c2 c3 = [a, b, c, d] ∧
    IsData a ∧ IsData b ∧ IsData c ∧ IsData d ∧ bytesOf (joined a b c d) = [c1, c2, c3] := by
  have h1 := c1.toNat_lt
  have h2 := c2.toNat_lt
  have h3 := c3.toNat_lt
  obtain ⟨ha, hva⟩ := encChar_data (show (c1 >>> 2 &&& 0x3f).toNat < 64 by rw [sixth_first]; omega)
  obtain ⟨hb, hvb⟩ := encChar_data (show (((c1 &&& 3) <<< 4) + (c2 >>> 4) &&& 0x3f).toNat < 64 by
    rw [sixth_second]; omega)
  obtain ⟨hc, hvc⟩ := encChar_data (show (((c2 &&& 15) <<< 2) + (c3 >>> 6) &&& 0x3f).toNat < 64 by
    rw [sixth_third]; omega)
  obtain ⟨hd, hvd⟩ := encChar_data (show (c3 &&& 0x3f).toNat < 64 by
    rw [toNat_and_sixty]; omega)
  refine ⟨_, _, _, _, rfl, ha, hb, hc, hd, ?_⟩
  have hjoined : joined (encChar (c1 >>> 2 &&& 0x3f)) (encChar (((c1 &&& 3) <<< 4) + (c2 >>> 4) &&& 0x3f))
      (encChar (((c2 &&& 15) <<< 2) + (c3 >>> 6) &&& 0x3f)) (encChar (c3 &&& 0x3f)) =
      c1.toNat * 65536 + c2.toNat * 256 + c3.toNat := by
    rw [joined, hva, hvb, hvc, hvd, sixth_first, sixth_second, sixth_third, toNat_and_sixty]
    omega
  have hq1 : UInt8.ofNat ((c1.toNat * 65536 + c2.toNat * 256 + c3.toNat) / 65536) = c1 := by
    apply UInt8.toNat_inj.mp
    rw [UInt8.toNat_ofNat']
    omega
  have hq2 : UInt8.ofNat ((c1.toNat * 65536 + c2.toNat * 256 + c3.toNat) / 256) = c2 := by
    apply UInt8.toNat_inj.mp
    rw [UInt8.toNat_ofNat']
    omega
  have hq3 : UInt8.ofNat (c1.toNat * 65536 + c2.toNat * 256 + c3.toNat) = c3 := by
    apply UInt8.toNat_inj.mp
    rw [UInt8.toNat_ofNat']
    omega
  rw [hjoined, bytesOf, hq1, hq2, hq3]

theorem joined_congr {a b c d c' d' : UInt8} (hc : value c = value c') (hd : value d = value d') :
    joined a b c d = joined a b c' d' := by
  rw [joined, joined, hc, hd]

theorem rest_two (c1 c2 : UInt8) : ∃ a b c, encodeRest true c1 c2 = [a, b, c, 61] ∧ IsData a ∧
    IsData b ∧ IsData c ∧ (bytesOf (joined a b c 61)).take 2 = [c1, c2] := by
  obtain ⟨a, b, c, d, hgroup, ha, hb, hc, -, hbytes⟩ := group_content c1 c2 0
  have hthird : ((c2 &&& 15) <<< 2) + ((0 : UInt8) >>> 6) = (c2 &&& 15) <<< 2 := UInt8.add_zero _
  simp only [encodeGroup, hthird, List.cons.injEq, and_true] at hgroup
  obtain ⟨rfl, rfl, rfl, rfl⟩ := hgroup
  have hlast : value 61 = value (encChar (0 &&& 0x3f)) := by decide
  refine ⟨encChar (c1 >>> 2 &&& 0x3f), encChar (((c1 &&& 3) <<< 4) + (c2 >>> 4) &&& 0x3f),
    encChar ((c2 &&& 15) <<< 2 &&& 0x3f), rfl, ha, hb, hc, ?_⟩
  rw [joined_congr rfl hlast, hbytes]
  rfl

theorem rest_one (c1 : UInt8) : ∃ a b, encodeRest false c1 0 = [a, b, 61, 61] ∧ IsData a ∧
    IsData b ∧ (bytesOf (joined a b 61 61)).take 1 = [c1] := by
  obtain ⟨a, b, c, d, hgroup, ha, hb, -, -, hbytes⟩ := group_content c1 0 0
  simp only [encodeGroup, List.cons.injEq, and_true] at hgroup
  obtain ⟨rfl, rfl, rfl, rfl⟩ := hgroup
  have hthird : value 61 =
      value (encChar ((((0 : UInt8) &&& 15) <<< 2) + ((0 : UInt8) >>> 6) &&& 0x3f)) := by decide
  have hlast : value 61 = value (encChar (0 &&& 0x3f)) := by decide
  refine ⟨encChar (c1 >>> 2 &&& 0x3f), encChar (((c1 &&& 3) <<< 4) + ((0 : UInt8) >>> 4) &&& 0x3f),
    rfl, ha, hb, ?_⟩
  rw [joined_congr hthird hlast, hbytes]
  rfl

/-- **The text of bytes contains them.** -/
theorem text_content (bs : List UInt8) : ∃ payload,
    text bs = payload ++ List.replicate (pads bs.length) 61 ∧ (∀ c ∈ payload, IsData c) ∧
      content payload (pads bs.length) = bs := by
  induction bs using text.induct with
  | case1 c1 c2 c3 r ih =>
      obtain ⟨payload, htext, hdata, hcontent⟩ := ih
      obtain ⟨a, b, c, d, hgroup, ha, hb, hc, hd, hbytes⟩ := group_content c1 c2 c3
      have hpads : pads (c1 :: c2 :: c3 :: r).length = pads r.length := by
        simp only [pads, List.length_cons]
        omega
      refine ⟨a :: b :: c :: d :: payload, ?_, ?_, ?_⟩
      · rw [text, htext, hgroup, hpads]
        rfl
      · simp only [List.forall_mem_cons]
        exact ⟨ha, hb, hc, hd, hdata⟩
      · rw [hpads, content, hbytes, hcontent]
        rfl
  | case2 c1 c2 =>
      obtain ⟨a, b, c, hrest, ha, hb, hc, hbytes⟩ := rest_two c1 c2
      refine ⟨[a, b, c], hrest, ?_, hbytes⟩
      simp only [List.forall_mem_cons, List.not_mem_nil, false_implies, implies_true, and_true]
      exact ⟨ha, hb, hc⟩
  | case3 c1 =>
      obtain ⟨a, b, hrest, ha, hb, hbytes⟩ := rest_one c1
      refine ⟨[a, b], hrest, ?_, hbytes⟩
      simp only [List.forall_mem_cons, List.not_mem_nil, false_implies, implies_true, and_true]
      exact ⟨ha, hb⟩
  | case4 => exact ⟨[], rfl, List.forall_mem_nil _, rfl⟩

theorem text_length (bs : List UInt8) : (text bs).length = (bs.length + 2) / 3 * 4 := by
  induction bs using text.induct with
  | case1 c1 c2 c3 r ih =>
      simp only [text, encodeGroup, List.length_append, List.length_cons, List.length_nil, ih]
      omega
  | case2 c1 c2 => simp only [text, encodeRest, List.length_cons, List.length_nil]
  | case3 c1 => simp only [text, encodeRest, List.length_cons, List.length_nil]
  | case4 => rfl

/-! ### Encoding -/

/-- The turns of the loop write the text of the groups. -/
theorem encodeLoop_eq (n : Nat) : ∀ (p src : Int) (m : Cells UInt8) (len : Nat), 3 * n ≤ len →
    (src + len ≤ p ∨ p + 4 * n ≤ src) →
      encodeLoop n p src m = (p + 4 * n, src + 3 * n, Cells.write m p (text (slice m src (3 * n)))) := by
  induction n with
  | zero =>
      intro p src m len _ _
      have hmem := congrArg Pen.mem (Pen.put_nil ⟨m, p⟩)
      simp only [encodeLoop, Nat.mul_zero, Cells.slice_zero, text, Int.natCast_zero, Int.mul_zero,
        Int.add_zero]
      exact congrArg _ (congrArg _ hmem.symm)
  | succ n ih =>
      intro p src m len hlen hapart
      have hgroup : (encodeGroup (m src) (m (src + 1)) (m (src + 2))).length = 4 := rfl
      have hslice : slice m src (3 * (n + 1)) =
          m src :: m (src + 1) :: m (src + 2) :: slice m (src + 3) (3 * n) := by
        rw [show 3 * (n + 1) = 3 * n + 1 + 1 + 1 by omega, Cells.slice_succ, Cells.slice_succ,
          Cells.slice_succ, Int.add_assoc, Int.add_assoc]
        rfl
      have hlater : slice (Cells.write m p (encodeGroup (m src) (m (src + 1)) (m (src + 2))))
          (src + 3) (3 * n) = slice m (src + 3) (3 * n) :=
        Cells.slice_congr fun k hk => Cells.write_outside _ _ _ (by rw [hgroup]; omega)
      rw [encodeLoop, ih _ _ _ (len - 3) (by omega) (by omega), hlater, hslice, text]
      have hput := congrArg Pen.mem (Pen.put_append ⟨m, p⟩
        (encodeGroup (m src) (m (src + 1)) (m (src + 2))) (text (slice m (src + 3) (3 * n))))
      simp only [Pen.put, hgroup] at hput
      refine Prod.ext (by simp only; omega) (Prod.ext (by simp only; omega) ?_)
      exact hput.symm

/-- A text is that of its groups and of the rest. -/
theorem text_groups (m : Cells UInt8) (n rest : Nat) : ∀ src : Int,
    text (slice m src (3 * n + rest)) =
      text (slice m src (3 * n)) ++ text (slice m (src + 3 * n) rest) := by
  induction n with
  | zero =>
      intro src
      rw [Nat.mul_zero, Nat.zero_add, Cells.slice_zero, Int.natCast_zero, Int.mul_zero, Int.add_zero]
      rfl
  | succ n ih =>
      intro src
      have hsplit : ∀ k, slice m src (k + 1 + 1 + 1) =
          m src :: m (src + 1) :: m (src + 2) :: slice m (src + 3) k := by
        intro k
        rw [Cells.slice_succ, Cells.slice_succ, Cells.slice_succ, Int.add_assoc, Int.add_assoc]
        rfl
      rw [show 3 * (n + 1) + rest = 3 * n + rest + 1 + 1 + 1 by omega, hsplit, text, ih,
        show 3 * (n + 1) = 3 * n + 1 + 1 + 1 by omega, hsplit, text, List.append_assoc]
      congr 3
      have haddr : src + 3 + 3 * (n : Int) = src + 3 * ((n + 1 : Nat) : Int) := by omega
      rw [haddr]

/-- **What `sec_base64_encode` writes.** -/
theorem encode_eq {dst src : Int} {dlen slen : Nat} {m : Cells UInt8} (hpos : 0 < slen)
    (hdlen : dlen < 2 ^ 64) (hroom : (slen + 2) / 3 * 4 + 1 ≤ dlen)
    (hapart : src + slen ≤ dst ∨ dst + ((slen + 2) / 3 * 4 : Nat) ≤ src) :
    encode dst dlen src slen m = (0, (slen + 2) / 3 * 4,
      Cells.write m dst (text (slice m src slen) ++ [0])) := by
  have hn : slen / 3 + (if slen % 3 ≠ 0 then 1 else 0) = (slen + 2) / 3 := by
    split <;> omega
  have hmax : ¬(slen + 2) / 3 > (sizeMax - 1) / 4 := by
    rw [sizeMax]
    omega
  have hfits : ¬dlen < (slen + 2) / 3 * 4 + 1 := by omega
  have hloop := encodeLoop_eq (slen / 3) dst src m slen (by omega) (by omega)
  have hlen := text_length (slice m src (3 * (slen / 3)))
  have hall := text_length (slice m src slen)
  rw [Cells.slice_length] at hlen hall
  have hput := congrArg Pen.mem (Pen.put_append ⟨m, dst⟩ (text (slice m src slen)) [0])
  simp only [Pen.put] at hput
  rw [hall, Cells.write_one] at hput
  simp only [encode, Nat.ne_of_gt hpos, if_false, hn, hmax, hfits, hloop, hput]
  by_cases hrest : slen / 3 * 3 < slen
  · have hparts := text_groups m (slen / 3) (slen % 3) src
    rw [Nat.div_add_mod] at hparts
    have hcase : text (slice m (src + 3 * (slen / 3 : Nat)) (slen % 3)) =
        encodeRest (slen / 3 * 3 + 1 < slen) (m (src + 3 * (slen / 3 : Nat)))
          (m (src + 3 * (slen / 3 : Nat) + 1)) := by
      have hmod : slen % 3 = 1 ∨ slen % 3 = 2 := by omega
      rcases hmod with hmod | hmod
      · have htwo : ¬slen / 3 * 3 + 1 < slen := by omega
        rw [hmod, decide_eq_false htwo, Cells.slice_succ, Cells.slice_zero, text]
        rfl
      · have htwo : slen / 3 * 3 + 1 < slen := by omega
        rw [hmod, decide_eq_true htwo, Cells.slice_succ, Cells.slice_succ, Cells.slice_zero, text]
    have hfirst : Cells.write m dst (text (slice m src (3 * (slen / 3)))) (src + 3 * (slen / 3 : Nat)) =
        m (src + 3 * (slen / 3 : Nat)) := Cells.write_outside _ _ _ (by rw [hlen]; omega)
    -- The second byte is read only if there is one.
    have hbytes : encodeRest (slen / 3 * 3 + 1 < slen)
        (Cells.write m dst (text (slice m src (3 * (slen / 3)))) (src + 3 * (slen / 3 : Nat)))
        (Cells.write m dst (text (slice m src (3 * (slen / 3)))) (src + 3 * (slen / 3 : Nat) + 1)) =
        text (slice m (src + 3 * (slen / 3 : Nat)) (slen % 3)) := by
      rw [hcase, hfirst]
      by_cases htwo : slen / 3 * 3 + 1 < slen
      · have hsecond : Cells.write m dst (text (slice m src (3 * (slen / 3))))
            (src + 3 * (slen / 3 : Nat) + 1) = m (src + 3 * (slen / 3 : Nat) + 1) :=
          Cells.write_outside _ _ _ (by rw [hlen]; omega)
        rw [hsecond]
      · rw [decide_eq_false htwo]
        rfl
    have hwhole := congrArg Pen.mem (Pen.put_append ⟨m, dst⟩ (text (slice m src (3 * (slen / 3))))
      (text (slice m (src + 3 * (slen / 3 : Nat)) (slen % 3))))
    simp only [Pen.put, ← hparts, hlen] at hwhole
    have hp : dst + 4 * ((slen / 3 : Nat) : Int) = dst + ((3 * (slen / 3) + 2) / 3 * 4 : Nat) := by omega
    have hend : dst + 4 * ((slen / 3 : Nat) : Int) + 4 = dst + ((slen + 2) / 3 * 4 : Nat) := by omega
    rw [if_pos hrest, hbytes, hend, hp, ← hwhole, add_sub_cancel_left, Int.toNat_natCast]
  · have hwhole : 3 * (slen / 3) = slen := by omega
    have hp : dst + 4 * ((slen / 3 : Nat) : Int) = dst + ((slen + 2) / 3 * 4 : Nat) := by omega
    rw [if_neg hrest, hwhole, hp, add_sub_cancel_left, Int.toNat_natCast]

/-! ### The second pass -/

/-- Where the second pass writes. -/
def Decoder.pen (d : Decoder) : Pen UInt8 := ⟨d.mem, d.p⟩

/-- What a character takes from `j`. -/
def padded (c : UInt8) : UInt32 := if decChar c = 64 then 1 else 0

variable {d : Decoder} {a b c e : UInt8}

theorem turn_part (hc : ¬IsBlank c) (hn : d.n + 1 ≠ 4) :
    d.turn c = { d with
      j := d.j - padded c, x := (d.x <<< 6) ||| (decChar c &&& 0x3f).toUInt32, n := d.n + 1 } := by
  rw [Decoder.turn, if_neg (show ¬(c = 13 ∨ c = 10 ∨ c = 32) from hc)]
  exact if_neg hn

/-- And one that does. -/
theorem turn_last (hc : ¬IsBlank c) (hn : d.n + 1 = 4) {k : UInt32} (hk : d.j - padded c = k)
    {v : UInt32} (hv : (d.x <<< 6) ||| (decChar c &&& 0x3f).toUInt32 = v) :
    (d.turn c).j = k ∧ (d.turn c).n = 0 ∧ (k = 3 → (d.turn c).pen =
        ((d.pen.put [(v >>> 16).toUInt8]).put [(v >>> 8).toUInt8]).put [v.toUInt8]) ∧
      (k = 2 → (d.turn c).pen = (d.pen.put [(v >>> 16).toUInt8]).put [(v >>> 8).toUInt8]) ∧
      (k = 1 → (d.turn c).pen = d.pen.put [(v >>> 16).toUInt8]) := by
  have hturn : d.turn c =
      (let d := { d with j := k, x := v, n := 0 }
      let d := if d.j > 0 then d.store (d.x >>> 16) else d
      let d := if d.j > 1 then d.store (d.x >>> 8) else d
      if d.j > 2 then d.store d.x else d) := by
    rw [Decoder.turn, if_neg (show ¬(c = 13 ∨ c = 10 ∨ c = 32) from hc), ← hk, ← hv]
    exact if_pos hn
  rw [hturn]
  refine ⟨?_, ?_, ?_, ?_, ?_⟩
  · simp only [apply_ite Decoder.j, Decoder.store, ite_self]
  · simp only [apply_ite Decoder.n, Decoder.store, ite_self]
  · rintro rfl
    simp only [show (3 : UInt32) > 0 by decide, show (3 : UInt32) > 1 by decide,
      show (3 : UInt32) > 2 by decide, Decoder.store, if_true, Decoder.pen, Pen.put, Cells.write_one]
    rfl
  · rintro rfl
    simp only [show (2 : UInt32) > 0 by decide, show (2 : UInt32) > 1 by decide,
      show ¬(2 : UInt32) > 2 by decide, Decoder.store, if_true, if_false, Decoder.pen, Pen.put,
      Cells.write_one]
    rfl
  · rintro rfl
    simp only [show (1 : UInt32) > 0 by decide, show ¬(1 : UInt32) > 1 by decide,
      show ¬(1 : UInt32) > 2 by decide, Decoder.store, if_true, if_false, Decoder.pen, Pen.put,
      Cells.write_one]
    rfl

theorem shifted_toNat (x : UInt32) (c : UInt8) :
    ((x <<< 6) ||| (decChar c &&& 0x3f).toUInt32).toNat = x.toNat % 2 ^ 26 * 64 + value c := by
  have hlt : value c < 2 ^ 6 := value_lt c
  have hx : (x <<< 6).toNat = (x.toNat % 2 ^ 26) <<< 6 := by
    have h6 : (6 : UInt32).toNat % 32 = 6 := rfl
    rw [UInt32.toNat_shiftLeft, Nat.shiftLeft_eq, Nat.shiftLeft_eq, h6]
    omega
  have hvalue : (decChar c &&& 0x3f).toUInt32.toNat = value c := UInt8.toNat_toUInt32 _
  rw [UInt32.toNat_or, hx, hvalue, ← Nat.shiftLeft_add_eq_or_of_lt hlt, Nat.shiftLeft_eq]

/-- The bytes of the low part. -/
theorem toUInt8_shift {v : UInt32} {q : Nat} (h : v.toNat % 2 ^ 24 = q) :
    (v >>> 16).toUInt8 = UInt8.ofNat (q / 65536) ∧ (v >>> 8).toUInt8 = UInt8.ofNat (q / 256) ∧
      v.toUInt8 = UInt8.ofNat q := by
  have h16 : (16 : UInt32).toNat % 32 = 16 := rfl
  have h8 : (8 : UInt32).toNat % 32 = 8 := rfl
  refine ⟨?_, ?_, ?_⟩
  · apply UInt8.toNat_inj.mp
    rw [UInt32.toNat_toUInt8, UInt32.toNat_shiftRight, UInt8.toNat_ofNat', h16,
      Nat.shiftRight_eq_div_pow]
    omega
  · apply UInt8.toNat_inj.mp
    rw [UInt32.toNat_toUInt8, UInt32.toNat_shiftRight, UInt8.toNat_ofNat', h8,
      Nat.shiftRight_eq_div_pow]
    omega
  · apply UInt8.toNat_inj.mp
    rw [UInt32.toNat_toUInt8, UInt8.toNat_ofNat']
    omega

/-- **Four characters** are three bytes, less the pads. -/
theorem turn_four (hn : d.n = 0) (ha : ¬IsBlank a) (hb : ¬IsBlank b) (hc : ¬IsBlank c)
    (he : ¬IsBlank e) {k : UInt32}
    (hj : d.j - padded a - padded b - padded c - padded e = k) (hk : k = 3 ∨ k = 2 ∨ k = 1) :
    ∃ d', [a, b, c, e].foldl Decoder.turn d = d' ∧ d'.j = k ∧ d'.n = 0 ∧
      d'.pen = d.pen.put ((bytesOf (joined a b c e)).take k.toNat) := by
  refine ⟨_, rfl, ?_⟩
  rw [List.foldl_cons, turn_part ha (by omega), List.foldl_cons, turn_part hb (by simp only; omega),
    List.foldl_cons, turn_part hc (by simp only; omega), List.foldl_cons, List.foldl_nil]
  obtain ⟨hj', hn', h3, h2, h1⟩ := turn_last (d := { d with
    j := d.j - padded a - padded b - padded c
    x := (((((d.x <<< 6) ||| (decChar a &&& 0x3f).toUInt32) <<< 6) |||
      (decChar b &&& 0x3f).toUInt32) <<< 6) ||| (decChar c &&& 0x3f).toUInt32
    n := d.n + 1 + 1 + 1 }) he (by simp only; omega) hj rfl
  refine ⟨hj', hn', ?_⟩
  have hq : ((((((((d.x <<< 6) ||| (decChar a &&& 0x3f).toUInt32) <<< 6) |||
      (decChar b &&& 0x3f).toUInt32) <<< 6) ||| (decChar c &&& 0x3f).toUInt32) <<< 6) |||
      (decChar e &&& 0x3f).toUInt32).toNat % 2 ^ 24 = joined a b c e := by
    have hva := value_lt a
    have hvb := value_lt b
    have hvc := value_lt c
    have hve := value_lt e
    rw [shifted_toNat, shifted_toNat, shifted_toNat, shifted_toNat, joined]
    omega
  obtain ⟨hb1, hb2, hb3⟩ := toUInt8_shift hq
  rcases hk with rfl | rfl | rfl
  · rw [h3 rfl, ← Pen.put_append, ← Pen.put_append, hb1, hb2, hb3]
    rfl
  · rw [h2 rfl, ← Pen.put_append, hb1, hb2]
    rfl
  · rw [h1 rfl, hb1]
    rfl

theorem turn_few : ∀ (cs : List UInt8) (d : Decoder), (∀ c ∈ cs, ¬IsBlank c) →
    d.n + cs.length < 4 → (cs.foldl Decoder.turn d).pen = d.pen := by
  intro cs
  induction cs with
  | nil => exact fun _ _ _ => rfl
  | cons c cs ih =>
      intro d hblank hlen
      rw [List.length_cons] at hlen
      rw [List.foldl_cons, turn_part (hblank c List.mem_cons_self) (by omega)]
      exact ih _ (fun c hc => hblank c (List.mem_cons_of_mem _ hc)) (by simp only; omega)

theorem padded_data (h : IsData c) : padded c = 0 := if_neg (isData_iff h).1

/-- **What the second pass writes** of characters with pads behind them. -/
theorem foldl_content (payload : List UInt8) (j : Nat) (hj : j ≤ 2) (hdata : ∀ c ∈ payload, IsData c) :
    ∀ d : Decoder, d.n = 0 → d.j = 3 →
      ((payload ++ List.replicate j 61).foldl Decoder.turn d).pen = d.pen.put (content payload j) := by
  have hpad : ¬IsBlank 61 := by decide
  have hpads : ∀ n, ∀ c ∈ List.replicate n (61 : UInt8), ¬IsBlank c := by
    intro n c hc
    rw [List.eq_of_mem_replicate hc]
    exact hpad
  induction payload, j using content.induct with
  | case1 a b c e r j ih =>
      intro d hn h3
      simp only [List.forall_mem_cons] at hdata
      obtain ⟨ha, hb, hc, he, hrest⟩ := hdata
      obtain ⟨d', hfour, hj', hn', hpen⟩ := turn_four (k := 3) hn (isData_iff ha).2.2.1
        (isData_iff hb).2.2.1 (isData_iff hc).2.2.1 (isData_iff he).2.2.1
        (by rw [h3, padded_data ha, padded_data hb, padded_data hc, padded_data he]; rfl) (.inl rfl)
      have hsplit : a :: b :: c :: e :: r ++ List.replicate j 61 =
          [a, b, c, e] ++ (r ++ List.replicate j 61) := rfl
      rw [hsplit, List.foldl_append, hfour, ih hj hrest d' hn' hj', hpen, content, ← Pen.put_append]
      rfl
  | case2 a b c j =>
      intro d hn h3
      simp only [List.forall_mem_cons] at hdata
      obtain ⟨ha, hb, hc, -⟩ := hdata
      obtain ⟨d', hfour, -, hn', hpen⟩ := turn_four (k := 2) hn (isData_iff ha).2.2.1
        (isData_iff hb).2.2.1 (isData_iff hc).2.2.1 hpad
        (by rw [h3, padded_data ha, padded_data hb, padded_data hc]; rfl) (.inr (.inl rfl))
      have hsplit : [a, b, c] ++ List.replicate (j + 1) 61 =
          [a, b, c, 61] ++ List.replicate j 61 := rfl
      rw [hsplit, List.foldl_append, hfour,
        turn_few _ d' (hpads j) (by rw [List.length_replicate]; omega), hpen]
      rfl
  | case3 a b =>
      intro d hn h3
      simp only [List.forall_mem_cons] at hdata
      obtain ⟨ha, hb, -⟩ := hdata
      obtain ⟨d', hfour, -, -, hpen⟩ := turn_four (k := 1) hn (isData_iff ha).2.2.1
        (isData_iff hb).2.2.1 hpad hpad
        (by rw [h3, padded_data ha, padded_data hb]; rfl) (.inr (.inr rfl))
      have hsplit : [a, b] ++ List.replicate 2 61 = [a, b, 61, 61] := rfl
      rw [hsplit, hfour, hpen]
      rfl
  | case4 payload j hfour hthree htwo =>
      intro d hn _
      have hshort : payload.length + j < 4 := by
        match payload with
        | [] => simp only [List.length_nil]; omega
        | [_] => simp only [List.length_cons, List.length_nil]; omega
        | [a, b] =>
            have hne : j ≠ 2 := fun hj => htwo a b rfl hj
            simp only [List.length_cons, List.length_nil]
            omega
        | [a, b, c] =>
            have hne : j = 0 := by
              cases j with
              | zero => rfl
              | succ j => exact absurd rfl (hthree a b c j rfl)
            simp only [List.length_cons, List.length_nil]
            omega
        | a :: b :: c :: e :: r => exact absurd rfl (hfour a b c e r)
      have hblank : ∀ c ∈ payload ++ List.replicate j 61, ¬IsBlank c := by
        intro c hc
        rcases List.mem_append.mp hc with hc | hc
        · exact (isData_iff (hdata c hc)).2.2.1
        · exact hpads j c hc
      rw [turn_few _ d hblank (by rw [List.length_append, List.length_replicate]; omega),
        content.eq_4 payload j hfour hthree htwo, Pen.put_nil]

theorem foldl_filter : ∀ (cs : List UInt8) (d : Decoder),
    cs.foldl Decoder.turn d = (cs.filter fun c => ¬IsBlank c).foldl Decoder.turn d := by
  intro cs
  induction cs with
  | nil => exact fun _ => rfl
  | cons c cs ih =>
      intro d
      by_cases hc : IsBlank c
      · rw [List.filter_cons_of_neg (by simpa using hc), List.foldl_cons, ← ih]
        exact congrArg (cs.foldl Decoder.turn) (if_pos hc)
      · rw [List.filter_cons_of_pos (by simpa using hc), List.foldl_cons, List.foldl_cons, ih]

/-- `e` is `d` after `k` bytes at most. -/
structure Near (k : Int) (d e : Decoder) : Prop where
  n : e.n = d.n
  le : d.p ≤ e.p
  most : e.p ≤ d.p + k
  mem : ∀ i, i < d.p ∨ d.p + k ≤ i → e.mem i = d.mem i

theorem Near.store_if (d : Decoder) (q : Prop) [Decidable q] (v : UInt32) :
    Near 1 d (if q then d.store v else d) := by
  split
  · refine ⟨rfl, ?_, Int.le_refl _, fun i hi => Function.update_of_ne (by omega) ..⟩
    change d.p ≤ d.p + 1
    omega
  · exact ⟨rfl, Int.le_refl _, by omega, fun _ _ => rfl⟩

theorem Near.trans {k l : Int} {d e f : Decoder} (h : Near k d e) (h' : Near l e f) (hl : 0 ≤ l) :
    Near (k + l) d f where
  n := h'.n.trans h.n
  le := Int.le_trans h.le h'.le
  most := by
    have h1 := h.most
    have h2 := h'.most
    omega
  mem := by
    intro i hi
    have h1 := h.most
    have h2 := h.le
    rw [h'.mem i (by omega), h.mem i (by omega)]

theorem near_stores (d : Decoder) : Near 3 d
    (let d := if d.j > 0 then d.store (d.x >>> 16) else d
    let d := if d.j > 1 then d.store (d.x >>> 8) else d
    if d.j > 2 then d.store d.x else d) := by
  extract_lets d1 d2
  have h1 := Near.store_if d (d.j > 0) (d.x >>> 16)
  have h2 := Near.store_if d1 (d1.j > 1) (d1.x >>> 8)
  have h3 := Near.store_if d2 (d2.j > 2) d2.x
  exact (h1.trans h2 (by decide)).trans h3 (by decide)

/-- A turn writes three bytes at most, and only for the last of four characters. -/
theorem turn_cases (d : Decoder) (c : UInt8) : d.turn c = d ∨
    ((d.turn c).mem = d.mem ∧ (d.turn c).p = d.p ∧ (d.turn c).n = d.n + 1) ∨
      (d.n = 3 ∧ Near 3 { d with n := 0 } (d.turn c)) := by
  by_cases hc : IsBlank c
  · exact .inl (if_pos hc)
  by_cases hn : d.n + 1 = 4
  · refine .inr (.inr ⟨by omega, ?_⟩)
    have hturn : d.turn c =
        (let d := { d with
          j := d.j - padded c, x := (d.x <<< 6) ||| (decChar c &&& 0x3f).toUInt32, n := 0 }
        let d := if d.j > 0 then d.store (d.x >>> 16) else d
        let d := if d.j > 1 then d.store (d.x >>> 8) else d
        if d.j > 2 then d.store d.x else d) := by
      rw [Decoder.turn, if_neg (show ¬(c = 13 ∨ c = 10 ∨ c = 32) from hc)]
      exact if_pos hn
    have hnear := near_stores { d with
      j := d.j - padded c, x := (d.x <<< 6) ||| (decChar c &&& 0x3f).toUInt32, n := 0 }
    rw [hturn]
    exact ⟨hnear.n, hnear.le, hnear.most, hnear.mem⟩
  · refine .inr (.inl ?_)
    rw [turn_part hc hn]
    exact ⟨rfl, rfl, rfl⟩

/-- **What is written does not reach what is still to be read**: the second pass is a pass over the
text as it was. -/
theorem loop_eq : ∀ (cs : List UInt8) (src : Int) (d : Decoder), slice d.mem src cs.length = cs →
    (d.p + d.n ≤ src ∨ src + cs.length ≤ d.p) →
      Decoder.loop cs.length src d = cs.foldl Decoder.turn d := by
  intro cs
  induction cs with
  | nil => exact fun _ _ _ _ => rfl
  | cons c cs ih =>
      intro src d hread hapart
      rw [List.length_cons, Cells.slice_succ] at hread
      obtain ⟨hc, hrest⟩ := List.cons.inj hread
      rw [List.length_cons] at hapart
      rw [List.length_cons, Decoder.loop, List.foldl_cons, hc]
      rcases turn_cases d c with hsame | ⟨hmem, hp, hn⟩ | ⟨hn, hnear⟩
      · rw [hsame]
        exact ih _ _ hrest (by omega)
      · exact ih _ _ (by rw [hmem]; exact hrest) (by rw [hp, hn]; omega)
      · have hkeep : slice (d.turn c).mem (src + 1) cs.length = slice d.mem (src + 1) cs.length :=
          Cells.slice_congr fun k hk => hnear.mem _ (by simp only; omega)
        have hn' := hnear.n
        have hmost := hnear.most
        have hle := hnear.le
        simp only at hn' hmost hle
        exact ih _ _ (hkeep.trans hrest) (by omega)

/-! ### The first pass -/

/-- What the second pass looks at. -/
def legible (cs : List UInt8) : List UInt8 := cs.filter fun c => ¬IsBlank c

theorem legible_cons_blank (h : IsBlank c) (cs : List UInt8) : legible (c :: cs) = legible cs :=
  List.filter_cons_of_neg (by simpa using h)

theorem legible_cons (h : ¬IsBlank c) (cs : List UInt8) : legible (c :: cs) = c :: legible cs :=
  List.filter_cons_of_pos (by simpa using h)

theorem legible_few {cs payload : List UInt8} {k : Nat}
    (h : legible cs = payload ++ List.replicate k 61) : payload.length + k ≤ cs.length := by
  have hlen := congrArg List.length h
  rw [List.length_append, List.length_replicate] at hlen
  rw [← hlen]
  exact List.length_filter_le ..

/-- **What the first pass accepts**: data with two pads behind it at most.  It counts them. -/
theorem check_ok : ∀ (cs : List UInt8) (x : UInt32) (n j n' j' : Nat), j ≤ 2 →
    check cs x n j = .ok (n', j') → ∃ payload k, legible cs = payload ++ List.replicate k 61 ∧
      (∀ c ∈ payload, IsData c) ∧ n' = n + (payload.length + k) ∧ j' = j + k ∧ j' ≤ 2 ∧
        (j ≠ 0 → payload = []) := by
  intro cs
  induction cs with
  | nil =>
      intro x n j n' j' hj h
      rw [check] at h
      obtain ⟨rfl, rfl⟩ := Prod.mk.inj (Except.ok.inj h)
      exact ⟨[], 0, rfl, List.forall_mem_nil _, rfl, rfl, hj, fun _ => rfl⟩
  | cons c r ih =>
      intro x n j n' j' hj h
      rw [check] at h
      by_cases hspace : c = 32
      · rw [if_pos hspace] at h
        rw [legible_cons_blank (.inr (.inr hspace))]
        exact ih _ _ _ _ _ hj h
      rw [if_neg hspace] at h
      by_cases hcr : c = 13 ∧ r.head? = some 10
      · rw [if_pos hcr] at h
        rw [legible_cons_blank (.inl hcr.1)]
        exact ih _ _ _ _ _ hj h
      rw [if_neg hcr] at h
      by_cases hlf : c = 10
      · rw [if_pos hlf] at h
        rw [legible_cons_blank (.inr (.inl hlf))]
        exact ih _ _ _ _ _ hj h
      rw [if_neg hlf] at h
      by_cases hx : x ≠ 0
      · rw [if_pos hx] at h
        cases h
      rw [if_neg hx] at h
      by_cases hpad : c = 61
      · -- A pad: there is nothing but pads from here on.
        subst hpad
        have hcode : ¬((61 : UInt8) > 127 ∨ decChar 61 = 127) := by decide
        have hvalue : ¬decChar 61 < 64 := by decide
        simp only [if_true, hcode, hvalue, if_false, true_and, false_and] at h
        by_cases hmany : j + 1 > 2
        · rw [if_pos hmany] at h
          cases h
        rw [if_neg hmany] at h
        obtain ⟨payload, k, hlegible, -, hn, hj', htwo, hnone⟩ := ih _ _ _ _ _ (by omega) h
        obtain rfl := hnone (Nat.succ_ne_zero j)
        refine ⟨[], k + 1, ?_, List.forall_mem_nil _, ?_, by omega, htwo, fun _ => rfl⟩
        · rw [legible_cons (by decide), hlegible, List.replicate_succ]
          rfl
        · rw [hn, List.length_nil]
          omega
      · have hpad' : ¬(c = 61 ∧ j > 2) := fun hc => hpad hc.1
        simp only [hpad, if_false, false_and] at h
        by_cases hcode : c > 127 ∨ decChar c = 127
        · rw [if_pos hcode] at h
          cases h
        rw [if_neg hcode] at h
        have hdata : IsData c := isData_of_ne (fun hc => hcode (.inr hc)) hpad
        by_cases hlate : decChar c < 64 ∧ j ≠ 0
        · rw [if_pos hlate] at h
          cases h
        rw [if_neg hlate] at h
        have hzero : j = 0 := by
          by_contra hne
          exact hlate ⟨hdata, hne⟩
        obtain ⟨payload, k, hlegible, hall, hn, hj', htwo, -⟩ := ih _ _ _ _ _ hj h
        refine ⟨c :: payload, k, ?_, ?_, ?_, hj', htwo, fun hne => absurd hzero hne⟩
        · rw [legible_cons (isData_iff hdata).2.2.1, hlegible]
          rfl
        · exact List.forall_mem_cons.mpr ⟨hdata, hall⟩
        · rw [hn, List.length_cons]
          omega

/-- `ts` is `cs` laid out in lines: spaces may stand before the end of a line, and nowhere else. -/
inductive Laid : List UInt8 → List UInt8 → Prop
  | nil (k : Nat) : Laid [] (List.replicate k 32)
  | char (c : UInt8) {cs ts : List UInt8} : Laid cs ts → Laid (c :: cs) (c :: ts)
  | line (k : Nat) {cs ts : List UInt8} : Laid cs ts → Laid cs (List.replicate k 32 ++ 10 :: ts)
  | dosLine (k : Nat) {cs ts : List UInt8} :
      Laid cs ts → Laid cs (List.replicate k 32 ++ 13 :: 10 :: ts)

theorem Laid.refl : ∀ cs, Laid cs cs
  | [] => .nil 0
  | c :: cs => .char c (Laid.refl cs)

theorem check_spaces (k : Nat) (r : List UInt8) (n j : Nat) : ∀ x : UInt32,
    ∃ y, check (List.replicate k 32 ++ r) x n j = check r y n j := by
  induction k with
  | zero => exact fun x => ⟨x, rfl⟩
  | succ k ih =>
      intro x
      obtain ⟨y, hy⟩ := ih (x + 1)
      refine ⟨y, ?_⟩
      rw [List.replicate_succ, List.cons_append, check, if_pos rfl, hy]

theorem check_end (r : List UInt8) (x : UInt32) (n j : Nat) :
    check (10 :: r) x n j = check r 0 n j ∧ check (13 :: 10 :: r) x n j = check r 0 n j := by
  have hlf : ∀ x : UInt32, check (10 :: r) x n j = check r 0 n j := by
    intro x
    rw [check, if_neg (by decide), if_neg (fun hc => absurd hc.1 (by decide)), if_pos rfl]
  refine ⟨hlf x, ?_⟩
  rw [check, if_neg (by decide), if_pos ⟨rfl, rfl⟩, hlf]

/-- **Lines do not matter to the first pass.** -/
theorem check_laid {cs ts : List UInt8} (h : Laid cs ts) (hblank : ∀ c ∈ cs, ¬IsBlank c) :
    ∀ n j, check ts 0 n j = check cs 0 n j := by
  induction h with
  | nil k =>
      intro n j
      obtain ⟨y, hy⟩ := check_spaces k [] n j 0
      rw [List.append_nil] at hy
      rw [hy, check, check]
  | char c _ ih =>
      intro n j
      obtain ⟨hc, hrest⟩ := List.forall_mem_cons.mp hblank
      have hcr : c ≠ 13 := fun heq => hc (.inl heq)
      have hlf : c ≠ 10 := fun heq => hc (.inr (.inl heq))
      have hspace : c ≠ 32 := fun heq => hc (.inr (.inr heq))
      simp only [check, hcr, hlf, hspace, false_and, if_false, ih hrest]
  | line k _ ih =>
      intro n j
      obtain ⟨y, hy⟩ := check_spaces k (10 :: _) n j 0
      rw [hy, (check_end _ y n j).1, ih hblank]
  | dosLine k _ ih =>
      intro n j
      obtain ⟨y, hy⟩ := check_spaces k (13 :: 10 :: _) n j 0
      rw [hy, (check_end _ y n j).2, ih hblank]

/-- Nor to the second. -/
theorem legible_laid {cs ts : List UInt8} (h : Laid cs ts) (hblank : ∀ c ∈ cs, ¬IsBlank c) :
    legible ts = cs := by
  have hspaces : ∀ (k : Nat) (r : List UInt8),
      legible (List.replicate k 32 ++ r) = legible r := by
    intro k r
    induction k with
    | zero => rfl
    | succ k ih =>
        rw [List.replicate_succ, List.cons_append, legible_cons_blank (.inr (.inr rfl)), ih]
  induction h with
  | nil k =>
      have hnil := hspaces k []
      rw [List.append_nil] at hnil
      rw [hnil]
      rfl
  | char c _ ih =>
      obtain ⟨hc, hrest⟩ := List.forall_mem_cons.mp hblank
      rw [legible_cons hc, ih hrest]
  | line k _ ih => rw [hspaces, legible_cons_blank (.inr (.inl rfl)), ih hblank]
  | dosLine k _ ih =>
      rw [hspaces, legible_cons_blank (.inl rfl), legible_cons_blank (.inr (.inl rfl)), ih hblank]

/-- Data with two pads behind it at most is accepted. -/
theorem check_data (payload : List UInt8) (k : Nat) (hk : k ≤ 2) (hdata : ∀ c ∈ payload, IsData c) :
    ∀ n, check (payload ++ List.replicate k 61) 0 n 0 = .ok (n + (payload.length + k), k) := by
  have hpads : ∀ k n j, j + k ≤ 2 → check (List.replicate k 61) 0 n j = .ok (n + k, j + k) := by
    intro k
    induction k with
    | zero => exact fun _ _ _ => rfl
    | succ k ih =>
        intro n j hj
        have hcode : ¬((61 : UInt8) > 127 ∨ decChar 61 = 127) := by decide
        have hvalue : ¬decChar 61 < 64 := by decide
        have hfew : ¬j + 1 > 2 := by omega
        rw [List.replicate_succ, check]
        simp only [show (61 : UInt8) ≠ 32 by decide, show (61 : UInt8) ≠ 13 by decide,
          show (61 : UInt8) ≠ 10 by decide, false_and, if_false, ne_eq, not_true_eq_false, if_true,
          hfew, and_false, hcode, hvalue]
        rw [ih _ _ (by omega)]
        simp only [Except.ok.injEq, Prod.mk.injEq]
        omega
  induction payload with
  | nil =>
      intro n
      rw [List.nil_append, hpads k n 0 (by omega), List.length_nil, Nat.zero_add]
  | cons c payload ih =>
      intro n
      obtain ⟨hc, hrest⟩ := List.forall_mem_cons.mp hdata
      obtain ⟨-, hcode, hblank, hpad, hle⟩ := isData_iff hc
      have hcr : c ≠ 13 := fun heq => hblank (.inl heq)
      have hlf : c ≠ 10 := fun heq => hblank (.inr (.inl heq))
      have hspace : c ≠ 32 := fun heq => hblank (.inr (.inr heq))
      have hgt : ¬c > 127 := UInt8.not_lt.mpr hle
      rw [List.cons_append, check]
      simp only [hspace, hcr, hlf, false_and, if_false, ne_eq, not_true_eq_false, hpad, hgt, hcode,
        or_self, and_false]
      rw [ih hrest, List.length_cons]
      simp only [Except.ok.injEq, Prod.mk.injEq, and_true]
      omega

/-! ### Decoding -/

/-- The room that is asked for, for so many characters with so many pads. -/
def announced (n j : Nat) : Nat := ((n * 6 + 7) % 2 ^ 64 / 8 + (2 ^ 64 - j)) % 2 ^ 64

theorem announced_eq {n j : Nat} (hn : n < 2 ^ 60) (hj : j ≤ 2) (hle : j ≤ n) :
    announced n j = (n * 6 + 7) / 8 - j := by
  have hfits : (n * 6 + 7) % 2 ^ 64 = n * 6 + 7 := Nat.mod_eq_of_lt (by omega)
  have hless : j ≤ (n * 6 + 7) / 8 := by omega
  have hlt : (n * 6 + 7) / 8 < 2 ^ 64 := by omega
  rw [announced, hfits]
  omega

/-- **The room that is asked for is enough.** -/
theorem content_length (payload : List UInt8) (j : Nat) (hj : j ≤ 2) :
    (content payload j).length ≤ ((payload.length + j) * 6 + 7) / 8 - j := by
  induction payload, j using content.induct with
  | case1 a b c e r j ih =>
      have hlen := ih hj
      simp only [content, bytesOf, List.length_append, List.length_cons, List.length_nil] at hlen ⊢
      omega
  | case2 a b c j =>
      simp only [content, bytesOf, List.length_take, List.length_cons, List.length_nil]
      omega
  | case3 a b =>
      simp only [content, bytesOf, List.length_take, List.length_cons, List.length_nil]
      omega
  | case4 payload j hfour hthree htwo =>
      rw [content.eq_4 payload j hfour hthree htwo]
      exact Nat.zero_le _

/-- **`sec_base64_decode` of what is accepted.** -/
theorem decode_accepted {dst src : Int} {dlen slen n j : Nat} {m : Cells UInt8}
    {payload : List UInt8} {k : Nat} (hcheck : check (slice m src slen) 0 0 0 = .ok (n, j))
    (hlegible : legible (slice m src slen) = payload ++ List.replicate k 61)
    (hdata : ∀ c ∈ payload, IsData c) (hn : n = payload.length + k) (hj : j = k) (hk : k ≤ 2)
    (hslen : slen < 2 ^ 60) (hdst : dst ≠ 0)
    (hroom : (n * 6 + 7) / 8 - j ≤ dlen) (hapart : dst ≤ src ∨ src + slen ≤ dst) :
    decode dst dlen src slen m =
      (0, some (content payload k).length, Cells.write m dst (content payload k)) := by
  have hfew : n ≤ slen := by
    rw [hn, ← Cells.slice_length m src slen]
    exact legible_few hlegible
  have hann := announced_eq (j := j) (show n < 2 ^ 60 by omega) (by omega) (by omega)
  rw [announced] at hann
  rw [decode, hcheck]
  dsimp only
  by_cases hzero : n = 0
  · have hnil : payload = [] := List.eq_nil_of_length_eq_zero (by omega)
    have hnone : k = 0 := by omega
    have hmem := congrArg Pen.mem (Pen.put_nil ⟨m, dst⟩)
    rw [if_pos hzero, hnil, hnone]
    exact Prod.ext rfl (Prod.ext rfl hmem.symm)
  · have hfits : ¬(dst = 0 ∨ dlen < (n * 6 + 7) / 8 - j) := by omega
    have hloop := loop_eq (slice m src slen) src ⟨m, dst, 3, 0, 0⟩
      (by rw [Cells.slice_length]) (by rw [Cells.slice_length]; simp only; omega)
    have hpen : ((slice m src slen).foldl Decoder.turn ⟨m, dst, 3, 0, 0⟩).pen =
        Pen.put ⟨m, dst⟩ (content payload k) := by
      rw [foldl_filter]
      have hfold := foldl_content payload k hk hdata ⟨m, dst, 3, 0, 0⟩ rfl rfl
      rw [← hlegible] at hfold
      exact hfold
    rw [Cells.slice_length] at hloop
    rw [if_neg hzero, hann, if_neg hfits, hloop]
    have hmem := congrArg Pen.mem hpen
    have hp := congrArg Pen.pos hpen
    simp only [Decoder.pen, Pen.put] at hmem hp
    rw [hmem, hp, add_sub_cancel_left, Int.toNat_natCast]

theorem check_error : ∀ (cs : List UInt8) (x : UInt32) (n j : Nat) (e : Int),
    check cs x n j = .error e → e < 0 := by
  intro cs
  induction cs with
  | nil =>
      intro x n j e h
      rw [check] at h
      cases h
  | cons c r ih =>
      intro x n j e h
      rw [check] at h
      split at h
      · exact ih _ _ _ _ h
      split at h
      · exact ih _ _ _ _ h
      split at h
      · exact ih _ _ _ _ h
      split at h
      · exact Except.error.inj h ▸ by decide
      dsimp only at h
      generalize (if c = 61 then j + 1 else j) = j' at h
      split at h
      · exact Except.error.inj h ▸ by decide
      split at h
      · exact Except.error.inj h ▸ by decide
      split at h
      · exact Except.error.inj h ▸ by decide
      · exact ih _ _ _ _ h

/-- **What is decoded stays in its place, whatever the text.**  If the text is not accepted, or the
place is too small, memory is as it was; the length that is then asked for is enough. -/
theorem decode_within (dst src : Int) (dlen slen : Nat) (m : Cells UInt8) (hslen : slen < 2 ^ 60)
    (hapart : dst ≤ src ∨ src + slen ≤ dst) :
    (∃ bs : List UInt8, bs.length ≤ dlen ∧
        decode dst dlen src slen m = (0, some bs.length, Cells.write m dst bs)) ∨
      (∃ e, e < 0 ∧ decode dst dlen src slen m = (e, none, m)) ∨
        ∃ (n : Nat) (bs : List UInt8), decode dst dlen src slen m = (-5, some n, m) ∧
          (dst = 0 ∨ dlen < n) ∧ bs.length ≤ n ∧ ∀ (out : Int) (room : Nat), out ≠ 0 → n ≤ room →
            (out ≤ src ∨ src + slen ≤ out) →
              decode out room src slen m = (0, some bs.length, Cells.write m out bs) := by
  cases hcheck : check (slice m src slen) 0 0 0 with
  | error e =>
      refine .inr (.inl ⟨e, check_error _ _ _ _ _ hcheck, ?_⟩)
      rw [decode, hcheck]
  | ok counts =>
      obtain ⟨n, j⟩ := counts
      obtain ⟨payload, k, hlegible, hdata, hn, hj, htwo, -⟩ := check_ok _ _ _ _ _ _ (by omega) hcheck
      rw [Nat.zero_add] at hn hj
      have hfew : n ≤ slen := by
        rw [hn, ← Cells.slice_length m src slen]
        exact legible_few hlegible
      have hlen := content_length payload k (by omega)
      by_cases hsmall : n ≠ 0 ∧ (dst = 0 ∨ dlen < (n * 6 + 7) / 8 - j)
      · refine .inr (.inr ⟨(n * 6 + 7) / 8 - j, content payload k, ?_, hsmall.2, ?_, ?_⟩)
        · have hann := announced_eq (j := j) (show n < 2 ^ 60 by omega) htwo (by omega)
          rw [announced] at hann
          rw [decode, hcheck]
          dsimp only
          rw [if_neg hsmall.1, hann, if_pos hsmall.2]
        · rw [hn, hj]
          exact hlen
        · intro out room hout hroom hclear
          exact decode_accepted hcheck hlegible hdata hn hj (by omega) hslen hout hroom hclear
      · by_cases hzero : n = 0
        · refine .inl ⟨[], Nat.zero_le _, ?_⟩
          have hmem := congrArg Pen.mem (Pen.put_nil ⟨m, dst⟩)
          rw [decode, hcheck]
          dsimp only
          rw [if_pos hzero]
          exact Prod.ext rfl (Prod.ext rfl hmem.symm)
        · refine .inl ⟨content payload k, ?_, ?_⟩
          · have hroom : ¬dlen < (n * 6 + 7) / 8 - j := fun hlt => hsmall ⟨hzero, .inr hlt⟩
            rw [hn, hj] at hroom
            omega
          · exact decode_accepted hcheck hlegible hdata hn hj (by omega) hslen
              (fun heq => hsmall ⟨hzero, .inl heq⟩)
              (by by_contra hlt; exact hsmall ⟨hzero, .inr (by omega)⟩) hapart

/-- A memory with the text of one byte. -/
def oneByteText : Cells UInt8 := fun i => [84, 81, 61, 61].getD (i - 5).toNat 0

/-- A length is asked for without a place, and the place is then as long. -/
theorem decode_within_null : ∃ (n : Nat) (bs : List UInt8),
    decode 0 0 5 4 oneByteText = (-5, some n, oneByteText) ∧ bs.length ≤ n ∧
      decode 5 n 5 4 oneByteText = (0, some bs.length, Cells.write oneByteText 5 bs) := by
  rcases decode_within 0 5 0 4 oneByteText (by decide) (.inl (by decide)) with
    ⟨bs, -, h⟩ | ⟨e, -, h⟩ | ⟨n, bs, h, -, hlen, hagain⟩
  · have hret : (0 : Int) = -5 := (congrArg Prod.fst h).symm.trans
      (show (decode 0 0 5 4 oneByteText).1 = -5 by decide +kernel)
    exact absurd hret (by decide)
  · have hsize : none = some 1 := (congrArg (fun r => r.2.1) h).symm.trans
      (show (decode 0 0 5 4 oneByteText).2.1 = some 1 by decide +kernel)
    exact absurd hsize (by decide)
  · exact ⟨n, bs, h, hlen, hagain 5 n (by decide) (Nat.le_refl n) (.inl (Int.le_refl 5))⟩

/-- **What is encoded is decoded to what it was**, also when its text has been broken into lines, and
where it lies. -/
theorem decode_encode {dst src : Int} {dlen slen : Nat} {m : Cells UInt8} (hslen : slen < 2 ^ 58)
    (hdlen : dlen < 2 ^ 64) (hroom : (slen + 2) / 3 * 4 + 1 ≤ dlen)
    (hapart : src + slen ≤ dst ∨ dst + dlen ≤ src) :
    ∃ m', encode dst dlen src slen m = (0, (slen + 2) / 3 * 4, m') ∧
      (∀ i, i < dst ∨ dst + dlen ≤ i → m' i = m i) ∧
      ∀ (ts : List UInt8) (m2 : Cells UInt8) (place out : Int) (room : Nat),
        Laid (slice m' dst ((slen + 2) / 3 * 4)) ts → slice m2 place ts.length = ts →
          ts.length < 2 ^ 60 → out ≠ 0 → slen ≤ room → (out ≤ place ∨ place + ts.length ≤ out) →
            decode out room place ts.length m2 =
              (0, some slen, Cells.write m2 out (slice m src slen)) := by
  obtain ⟨m', hencode, hslice, hframe⟩ : ∃ m', encode dst dlen src slen m =
      (0, (slen + 2) / 3 * 4, m') ∧ slice m' dst ((slen + 2) / 3 * 4) = text (slice m src slen) ∧
        ∀ i, i < dst ∨ dst + dlen ≤ i → m' i = m i := by
    have hlen := text_length (slice m src slen)
    rw [Cells.slice_length] at hlen
    rcases Nat.eq_zero_or_pos slen with rfl | hpos
    · refine ⟨m, if_pos rfl, ?_, fun _ _ => rfl⟩
      rw [Cells.slice_zero, Cells.slice_zero]
      rfl
    · refine ⟨_, encode_eq hpos hdlen hroom (by omega), ?_, fun i hi => Cells.write_outside _ _ _ ?_⟩
      · have hall := Cells.slice_write_self m dst (text (slice m src slen) ++ [0])
        rw [List.length_append, hlen] at hall
        have htake := congrArg (List.take ((slen + 2) / 3 * 4)) hall
        rw [Cells.slice_take _ _ (Nat.le_add_right _ _), ← hlen, List.take_left] at htake
        rw [← hlen]
        exact htake
      · rw [List.length_append, hlen, List.length_singleton]
        omega
  refine ⟨m', hencode, hframe, ?_⟩
  intro ts m2 place out room hlaid hread hlong hout henough hclear
  rw [hslice] at hlaid
  obtain ⟨payload, htext, hdata, hcontent⟩ := text_content (slice m src slen)
  have hlen := text_length (slice m src slen)
  rw [Cells.slice_length] at htext hcontent hlen
  rw [htext] at hlaid hlen
  rw [List.length_append, List.length_replicate] at hlen
  have hpads : pads slen ≤ 2 := by
    rw [pads]
    omega
  have hblank : ∀ c ∈ payload ++ List.replicate (pads slen) 61, ¬IsBlank c := by
    intro c hc
    rcases List.mem_append.mp hc with hc | hc
    · exact (isData_iff (hdata c hc)).2.2.1
    · rw [List.eq_of_mem_replicate hc]
      decide
  have hcheck := (check_laid hlaid hblank 0 0).trans (check_data payload (pads slen) hpads hdata 0)
  have hlegible := legible_laid hlaid hblank
  rw [← hread] at hcheck hlegible
  rw [decode_accepted hcheck hlegible hdata (Nat.zero_add _) rfl hpads hlong hout ?_ hclear, hcontent,
    Cells.slice_length]
  rw [hlen, Nat.zero_add, pads]
  omega

/-- Four bytes are encoded, and the text is decoded where it lies. -/
theorem decode_encode_inPlace : ∃ m', encode 16 9 1 4 (fun i => i.toNat.toUInt8) = (0, 8, m') ∧
    decode 16 4 16 8 m' =
      (0, some 4, Cells.write m' 16 (slice (fun i => i.toNat.toUInt8) 1 4)) := by
  obtain ⟨m', hencode, -, hround⟩ := @decode_encode 16 1 9 4 (fun i => i.toNat.toUInt8) (by decide)
    (by decide) (by decide) (.inl (by decide))
  have hlen : (slice m' 16 8).length = 8 := Cells.slice_length ..
  have hdecode := hround (slice m' 16 8) m' 16 16 4 (Laid.refl _) (by rw [hlen])
    (by rw [hlen]; decide) (by decide) (Nat.le_refl 4) (.inl (Int.le_refl 16))
  rw [hlen] at hdecode
  exact ⟨m', hencode, hdecode⟩

end Awoke.Sec.Base64
