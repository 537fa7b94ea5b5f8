/-
What `xfer_match` accepts.

It accepts the frames of the grammar, `XferFrame`, and stays with its verdict whatever arrives
behind one.  A buffer it calls unfinished can still be rejected with more bytes, and it can still be
accepted unless its first byte is already wrong: that a buffer of under ten bytes begins with
something else is not noticed before the tenth.

`verdict_onto` takes the memory away: the verdict is a function of the bytes in the buffer.
-/
import Awoke.Cmder.Xfer
import Mathlib.Data.List.GetD

namespace Awoke.Cmder

/-! ### The grammar -/

/-- A frame of the xfer protocol: the eight bytes of the head, a payload of the head's length when
the command is a write and none otherwise, a code, and the two marks. -/
structure XferFrame where
  bits : UInt8
  len0 : UInt8
  len1 : UInt8
  addr0 : UInt8
  addr1 : UInt8
  addr2 : UInt8
  addr3 : UInt8
  payload : List UInt8
  code : UInt8
  sized : payload.length =
    if xferCmd bits = xferCmdWR then len0.toNat + 256 * len1.toNat else 0

/-- Its bytes. -/
def XferFrame.bytes (f : XferFrame) : List UInt8 :=
  xferPrefix :: f.bits :: f.len0 :: f.len1 :: f.addr0 :: f.addr1 :: f.addr2 :: f.addr3 ::
    (f.payload ++ [f.code, xferPosfix])

/-- The length that the first bytes of a buffer announce. -/
def announced (bs : List UInt8) : Nat := xferLength (bs.getD 1 0) (bs.getD 2 0) (bs.getD 3 0)

theorem ten_le_announced (bs : List UInt8) : 10 ≤ announced bs := by
  rw [announced, xferLength]
  omega

theorem announced_le (bs : List UInt8) : announced bs ≤ 65545 := by
  have hlow := (bs.getD 2 0).toNat_lt
  have hhigh := (bs.getD 3 0).toNat_lt
  rw [announced, xferLength]
  split
  · omega
  · omega

theorem XferFrame.bytes_length (f : XferFrame) : f.bytes.length = announced f.bytes := by
  have hannounced : announced f.bytes = xferLength f.bits f.len0 f.len1 := rfl
  rw [hannounced, xferLength, ← f.sized]
  simp only [bytes, List.length_cons, List.length_append, List.length_nil]
  omega

theorem XferFrame.bytes_last (f : XferFrame) :
    f.bytes.getD (f.bytes.length - 1) 0 = xferPosfix := by
  simp [bytes, List.getD_eq_getElem?_getD]

theorem exists_append_two {bs : List UInt8} (h : 2 ≤ bs.length) :
    ∃ front a b, bs = front ++ [a, b] := by
  rcases List.eq_nil_or_concat' bs with rfl | ⟨front, b, rfl⟩
  · exact absurd h (by decide)
  rcases List.eq_nil_or_concat' front with rfl | ⟨front, a, rfl⟩
  · exact absurd h (by simp)
  · exact ⟨front, a, b, by rw [List.append_assoc]; rfl⟩

theorem exists_cons_eight {bs : List UInt8} (h : 8 ≤ bs.length) :
    ∃ b0 b1 b2 b3 b4 b5 b6 b7 rest,
      bs = b0 :: b1 :: b2 :: b3 :: b4 :: b5 :: b6 :: b7 :: rest := by
  match bs, h with
  | b0 :: b1 :: b2 :: b3 :: b4 :: b5 :: b6 :: b7 :: rest, _ =>
      exact ⟨b0, b1, b2, b3, b4, b5, b6, b7, rest, rfl⟩

/-- **The bytes of frames** are those with the first mark, of the length they announce, and with
the last mark. -/
theorem exists_frame_iff {bs : List UInt8} :
    (∃ f : XferFrame, f.bytes = bs) ↔
      bs.getD 0 0 = xferPrefix ∧ bs.length = announced bs ∧
        bs.getD (bs.length - 1) 0 = xferPosfix := by
  constructor
  · rintro ⟨f, rfl⟩
    exact ⟨rfl, f.bytes_length, f.bytes_last⟩
  · rintro ⟨hmark, hlength, hposfix⟩
    have hten := ten_le_announced bs
    obtain ⟨b0, b1, b2, b3, b4, b5, b6, b7, rest, rfl⟩ :=
      exists_cons_eight (by omega : 8 ≤ bs.length)
    simp only [List.length_cons] at hlength hten
    obtain ⟨payload, code, last, rfl⟩ := exists_append_two (by omega : 2 ≤ rest.length)
    obtain rfl : b0 = xferPrefix := hmark
    obtain rfl : last = xferPosfix := by
      simpa [List.getD_eq_getElem?_getD] using hposfix
    refine ⟨⟨b1, b2, b3, b4, b5, b6, b7, payload, code, ?_⟩, rfl⟩
    have hannounced : payload.length + 10 = xferLength b1 b2 b3 := by
      rw [List.length_append] at hlength
      exact hlength
    rw [xferLength] at hannounced
    omega

/-! ### The verdict -/

/-- The verdict on a buffer, from its bytes alone. -/
def verdict (bs : List UInt8) (rlen : Int) : ErrType × Int :=
  if bs.length < 10 then (.errUnfinished, rlen)
  else if bs.getD 0 0 ≠ xferPrefix then (.errMatch, 1)
  else if bs.length < announced bs then (.errUnfinished, rlen)
  else if bs.getD (announced bs - 1) 0 ≠ xferPosfix then (.errMatch, 1)
  else (.etOk, (announced bs : Int))

theorem write_getD (m : Cells UInt8) {bs : List UInt8} {i : Nat} (h : i < bs.length) :
    Cells.write m 0 bs i = bs.getD i 0 := by
  have hinside := Cells.write_inside m 0 bs h
  rw [Int.zero_add] at hinside
  rw [hinside, List.getD_eq_getElem?_getD, List.getElem?_eq_getElem h, Option.getD_some]

/-- **What lies behind the buffer** has no part in it. -/
theorem verdict_onto (m : Cells UInt8) (bs : List UInt8) (rlen : Int) :
    xferMatch (Cells.write m 0 bs) bs.length rlen = verdict bs rlen := by
  rw [xferMatch, verdict]
  by_cases hshort : bs.length < 10
  · rw [if_pos hshort, if_pos (by omega)]
  have hcell : ∀ i : Nat, i < 4 → Cells.write m 0 bs i = bs.getD i 0 :=
    fun i hi => write_getD m (by omega)
  have h0 : Cells.write m 0 bs 0 = bs.getD 0 0 := hcell 0 (by decide)
  rw [if_neg hshort, if_neg (by omega), h0]
  by_cases hmark : bs.getD 0 0 ≠ xferPrefix
  · rw [if_pos hmark, if_pos hmark]
  have hannounced : xferLength (Cells.write m 0 bs 1) (Cells.write m 0 bs 2)
      (Cells.write m 0 bs 3) = announced bs := by
    have h1 : Cells.write m 0 bs 1 = bs.getD 1 0 := hcell 1 (by decide)
    have h2 : Cells.write m 0 bs 2 = bs.getD 2 0 := hcell 2 (by decide)
    have h3 : Cells.write m 0 bs 3 = bs.getD 3 0 := hcell 3 (by decide)
    rw [h1, h2, h3, announced]
  rw [if_neg hmark, if_neg hmark]
  simp only [hannounced]
  by_cases hwait : bs.length < announced bs
  · rw [if_pos hwait, if_pos (by omega)]
  have hten := ten_le_announced bs
  have hlast : Cells.write m 0 bs ((announced bs : Int) - 1) = bs.getD (announced bs - 1) 0 := by
    rw [← write_getD m (by omega : announced bs - 1 < bs.length)]
    congr 1
    omega
  rw [if_neg hwait, if_neg (by omega), hlast]

/-- The three ways a verdict comes about. -/
theorem verdict_cases (bs : List UInt8) (rlen : Int) :
    ((verdict bs rlen = (.errUnfinished, rlen)) ∧
      (bs.length < 10 ∨ bs.getD 0 0 = xferPrefix ∧ bs.length < announced bs)) ∨
    (verdict bs rlen = (.errMatch, 1) ∧ 10 ≤ bs.length ∧
      (bs.getD 0 0 = xferPrefix →
        announced bs ≤ bs.length ∧ bs.getD (announced bs - 1) 0 ≠ xferPosfix)) ∨
    (verdict bs rlen = (.etOk, (announced bs : Int)) ∧ announced bs ≤ bs.length ∧
      bs.getD 0 0 = xferPrefix ∧ bs.getD (announced bs - 1) 0 = xferPosfix) := by
  rw [verdict]
  by_cases hshort : bs.length < 10
  · rw [if_pos hshort]
    exact .inl ⟨rfl, .inl hshort⟩
  by_cases hmark : bs.getD 0 0 ≠ xferPrefix
  · rw [if_neg hshort, if_pos hmark]
    exact .inr (.inl ⟨rfl, Nat.not_lt.mp hshort, fun h => absurd h hmark⟩)
  have hfirst := not_not.mp hmark
  by_cases hwait : bs.length < announced bs
  · rw [if_neg hshort, if_neg hmark, if_pos hwait]
    exact .inl ⟨rfl, .inr ⟨hfirst, hwait⟩⟩
  by_cases hlast : bs.getD (announced bs - 1) 0 ≠ xferPosfix
  · rw [if_neg hshort, if_neg hmark, if_neg hwait, if_pos hlast]
    exact .inr (.inl ⟨rfl, Nat.not_lt.mp hshort, fun _ => ⟨Nat.not_lt.mp hwait, hlast⟩⟩)
  · rw [if_neg hshort, if_neg hmark, if_neg hwait, if_neg hlast]
    exact .inr (.inr ⟨rfl, Nat.not_lt.mp hwait, hfirst, not_not.mp hlast⟩)

/-! ### More bytes -/

theorem announced_append {bs : List UInt8} (h : 4 ≤ bs.length) (more : List UInt8) :
    announced (bs ++ more) = announced bs := by
  rw [announced, List.getD_append _ _ _ 1 (by omega), List.getD_append _ _ _ 2 (by omega),
    List.getD_append _ _ _ 3 (by omega), announced]

/-- A verdict other than unfinished stands. -/
theorem verdict_append {bs : List UInt8} {rlen : Int}
    (h : (verdict bs rlen).1 ≠ .errUnfinished) (more : List UInt8) :
    verdict (bs ++ more) rlen = verdict bs rlen := by
  have hmore : bs.length ≤ (bs ++ more).length := by simp
  have hten := ten_le_announced bs
  rcases verdict_cases bs rlen with ⟨heq, -⟩ | ⟨heq, hlong, hmark⟩ | ⟨heq, hlong, hmark, hlast⟩
  · rw [heq] at h
    exact absurd rfl h
  · rw [heq, verdict, if_neg (by omega), List.getD_append _ _ _ 0 (by omega),
      announced_append (by omega)]
    by_cases hfirst : bs.getD 0 0 = xferPrefix
    · obtain ⟨hle, hlast⟩ := hmark hfirst
      rw [if_neg (not_not.mpr hfirst), if_neg (by omega), List.getD_append _ _ _ _ (by omega),
        if_pos hlast]
    · rw [if_pos hfirst]
  · rw [heq, verdict, if_neg (by omega), List.getD_append _ _ _ 0 (by omega),
      announced_append (by omega), if_neg (not_not.mpr hmark), if_neg (by omega),
      List.getD_append _ _ _ _ (by omega), if_neg (not_not.mpr hlast)]

theorem verdict_frame (f : XferFrame) (rlen : Int) :
    verdict f.bytes rlen = (.etOk, (f.bytes.length : Int)) := by
  obtain ⟨hmark, hlength, hposfix⟩ := exists_frame_iff.mp ⟨f, rfl⟩
  have hten := ten_le_announced f.bytes
  rw [hlength] at hposfix
  rw [verdict, if_neg (by omega), if_neg (not_not.mpr hmark), if_neg (by omega),
    if_neg (not_not.mpr hposfix), ← hlength]

/-- **A buffer is accepted** when it begins with a frame, and as long as that is. -/
theorem verdict_ok_iff {bs : List UInt8} {rlen n : Int} :
    verdict bs rlen = (.etOk, n) ↔
      ∃ f : XferFrame, f.bytes <+: bs ∧ (f.bytes.length : Int) = n := by
  constructor
  · intro h
    rcases verdict_cases bs rlen with ⟨heq, -⟩ | ⟨heq, -⟩ | ⟨heq, hlong, hmark, hlast⟩
    · cases heq.symm.trans h
    · cases heq.symm.trans h
    · have hten := ten_le_announced bs
      obtain ⟨front, rest, rfl, hfront⟩ :
          ∃ front rest, bs = front ++ rest ∧ front.length = announced bs :=
        ⟨bs.take (announced bs), bs.drop (announced bs), (List.take_append_drop _ _).symm,
          by rw [List.length_take, Nat.min_eq_left hlong]⟩
      rw [List.getD_append _ _ _ _ (by omega)] at hmark hlast
      rw [← hfront] at hlast
      have hsame := announced_append (by omega : 4 ≤ front.length) rest
      rw [hsame] at hfront heq
      -- What is announced of the buffer is a frame.
      obtain ⟨f, rfl⟩ := exists_frame_iff.mpr ⟨hmark, hfront, hlast⟩
      cases heq.symm.trans h
      exact ⟨f, List.prefix_append _ _, congrArg Int.ofNat hfront⟩
  · rintro ⟨f, ⟨rest, rfl⟩, rfl⟩
    rw [verdict_append, verdict_frame]
    rw [verdict_frame]
    exact fun h => ErrType.noConfusion h

/-! ### What can still become of an unfinished buffer -/

/-- More bytes than any frame has. -/
def plenty (b : UInt8) : List UInt8 := List.replicate 65545 b

theorem getD_plenty {bs : List UInt8} {b : UInt8} {i : Nat} (hlow : bs.length ≤ i)
    (hhigh : i < 65545) : (bs ++ plenty b).getD i 0 = b := by
  rw [List.getD_append_right _ _ _ _ hlow]
  exact List.getD_replicate _ (by omega)

theorem unfinished_end {bs : List UInt8} {rlen : Int} (b : UInt8)
    (h : (verdict bs rlen).1 = .errUnfinished) :
    bs.length < announced (bs ++ plenty b) := by
  have hten := ten_le_announced (bs ++ plenty b)
  rcases verdict_cases bs rlen with ⟨-, hshort | ⟨-, hwait⟩⟩ | ⟨heq, -⟩ | ⟨heq, -⟩
  · omega
  · by_cases hfour : 4 ≤ bs.length
    · rw [announced_append hfour]
      exact hwait
    · omega
  · rw [heq] at h
    cases h
  · rw [heq] at h
    cases h

theorem verdict_plenty {bs : List UInt8} {rlen : Int} (b : UInt8)
    (h : (verdict bs rlen).1 = .errUnfinished) (hmark : (bs ++ plenty b).getD 0 0 = xferPrefix) :
    verdict (bs ++ plenty b) rlen =
      if b ≠ xferPosfix then (.errMatch, 1)
      else (.etOk, (announced (bs ++ plenty b) : Int)) := by
  have hlow := unfinished_end b h
  have hhigh := announced_le (bs ++ plenty b)
  have hlength : (bs ++ plenty b).length = bs.length + 65545 := by
    rw [List.length_append, plenty, List.length_replicate]
  rw [verdict, if_neg (by omega), if_neg (not_not.mpr hmark), if_neg (by omega),
    getD_plenty (by omega) (by omega)]

/-- **It can still be rejected.** -/
theorem unfinished_rejects {bs : List UInt8} {rlen : Int}
    (h : (verdict bs rlen).1 = .errUnfinished) :
    ∃ more, (verdict (bs ++ more) rlen).1 = .errMatch := by
  refine ⟨plenty 0, ?_⟩
  by_cases hmark : (bs ++ plenty 0).getD 0 0 = xferPrefix
  · rw [verdict_plenty 0 h hmark, if_pos (by decide)]
  · have hlength : (bs ++ plenty 0).length = bs.length + 65545 := by
      rw [List.length_append, plenty, List.length_replicate]
    rw [verdict, if_neg (by omega), if_pos hmark]

/-- The first byte is the mark, or is still to come. -/
def Begins (bs : List UInt8) : Prop := bs = [] ∨ bs.getD 0 0 = xferPrefix

/-- **And accepted,** unless its first byte is wrong. -/
theorem unfinished_accepts_iff {bs : List UInt8} {rlen : Int}
    (h : (verdict bs rlen).1 = .errUnfinished) :
    (∃ more, (verdict (bs ++ more) rlen).1 = .etOk) ↔ Begins bs := by
  constructor
  · rintro ⟨more, hok⟩
    rcases bs with _ | ⟨b, bs⟩
    · exact .inl rfl
    · rcases verdict_cases (b :: bs ++ more) rlen with ⟨heq, -⟩ | ⟨heq, -⟩ | ⟨-, -, hmark, -⟩
      · rw [heq] at hok
        cases hok
      · rw [heq] at hok
        cases hok
      · exact .inr hmark
  · intro hbegins
    -- The mark first, where nothing is there yet.
    have hrest : ∀ bs : List UInt8, (verdict bs rlen).1 = .errUnfinished → bs ≠ [] →
        bs.getD 0 0 = xferPrefix → (verdict (bs ++ plenty xferPosfix) rlen).1 = .etOk := by
      intro bs h hne hmark
      have hpos := List.length_pos_iff.mpr hne
      rw [verdict_plenty xferPosfix h (by rw [List.getD_append _ _ _ _ hpos, hmark]),
        if_neg (fun hne => hne rfl)]
    rcases hbegins with rfl | hmark
    · exact ⟨[xferPrefix] ++ plenty xferPosfix, hrest [xferPrefix] rfl (by simp) rfl⟩
    · refine ⟨plenty xferPosfix, hrest bs h ?_ hmark⟩
      rintro rfl
      exact absurd hmark (by decide)

/-- **`xfer_match` accepts the grammar, and its verdicts stand.**  With any memory behind the
buffer: it accepts exactly the buffers that begin with a frame, with the frame's length; a buffer it
calls unfinished is rejected with some bytes more, and accepted with some unless it begins wrong;
and behind a frame that was accepted nothing changes the verdict. -/
theorem xfer_match_grammar (m : Cells UInt8) (bs : List UInt8) (rlen : Int) :
    (∀ n : Int, xferMatch (Cells.write m 0 bs) bs.length rlen = (.etOk, n) ↔
      ∃ f : XferFrame, f.bytes <+: bs ∧ (f.bytes.length : Int) = n) ∧
    ((xferMatch (Cells.write m 0 bs) bs.length rlen).1 = .errUnfinished →
      (∃ more, (xferMatch (Cells.write m 0 (bs ++ more)) (bs ++ more).length rlen).1 =
        .errMatch) ∧
      ((∃ more, (xferMatch (Cells.write m 0 (bs ++ more)) (bs ++ more).length rlen).1 = .etOk) ↔
        Begins bs)) ∧
    ((xferMatch (Cells.write m 0 bs) bs.length rlen).1 = .etOk →
      ∀ m' more, xferMatch (Cells.write m' 0 (bs ++ more)) (bs ++ more).length rlen =
        xferMatch (Cells.write m 0 bs) bs.length rlen) := by
  simp only [verdict_onto]
  refine ⟨fun n => verdict_ok_iff, fun h => ?_, fun h m' more => ?_⟩
  · exact ⟨unfinished_rejects h, unfinished_accepts_iff h⟩
  · refine verdict_append ?_ more
    rw [h]
    exact fun heq => ErrType.noConfusion heq

end Awoke.Cmder
