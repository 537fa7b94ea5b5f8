/-
What `litetalk_match` says of a buffer.

A frame is as long as its header and the content together.  The code adds them up in 32 bits, so a
content of 2^32 - 10 bytes or more makes a frame of less than ten, which is then accepted.  Apart
from that it accepts the buffers that begin with a frame, waits for the rest of one, and stays with
what it accepted whatever comes behind.

Under four bytes it waits without a look at them.
-/
import Awoke.Cmder.LitetalkFrame
import Awoke.Proofs.Package

namespace Awoke.Cmder

variable {buf buf' : Cells UInt8} {len len' rlen : Int}

/-! ### The header -/

/-- The bytes of the mark. -/
def markBytes : List UInt8 := [0x13, 0x35, 0x67, 0x89]

theorem markAt_iff {pos : Int} : MarkAt buf pos ↔ Cells.slice buf pos 4 = markBytes :=
  htonl_pullDwrd_iff

/-- The length of the content, as the header says. -/
def contentLength (buf : Cells UInt8) : Nat :=
  (buf 6).toNat * 16777216 + (buf 7).toNat * 65536 + (buf 8).toNat * 256 + (buf 9).toNat

theorem contentLength_eq (buf : Cells UInt8) :
    (readHeader buf).contentLength.toNat = contentLength buf :=
  htonl_pullDwrd_toNat buf 6

theorem contentLength_lt (buf : Cells UInt8) : contentLength buf < 2 ^ 32 := by
  rw [← contentLength_eq]
  exact UInt32.toNat_lt _

/-- The length of the frame, as it is added up in 32 bits. -/
def frameLength (buf : Cells UInt8) : Nat := (contentLength buf + 10) % 2 ^ 32

/-- It is the sum of the two unless that does not fit. -/
theorem frameLength_eq (h : 10 + contentLength buf < 2 ^ 32) :
    frameLength buf = 10 + contentLength buf := by
  rw [frameLength, Nat.mod_eq_of_lt (by omega), Nat.add_comm]

/-- **The verdict.** -/
theorem litetalkMatch_eq (buf : Cells UInt8) (len rlen : Int) :
    litetalkMatch buf len rlen =
      if len < 4 then (.errUnfinished, rlen)
      else if Cells.slice buf 0 4 ≠ markBytes then (.errMatch, rlen)
      else if len < 10 ∨ len < frameLength buf then (.errUnfinished, rlen)
      else (.etOk, (frameLength buf : Int)) := by
  have hsum : (htonl (pullDwrd buf 6) + 10).toNat = frameLength buf := by
    rw [UInt32.toNat_add, htonl_pullDwrd_toNat]
    rfl
  simp only [litetalkMatch, markAt_iff, litetalkHeaderlen, hsum, ne_eq, Nat.cast_ofNat]
  by_cases hshort : len < 4
  · rw [if_pos hshort, if_pos hshort]
  by_cases hmark : Cells.slice buf 0 4 = markBytes
  · rw [if_neg hshort, if_neg hshort, if_neg (not_not.mpr hmark), if_neg (not_not.mpr hmark)]
    by_cases hhead : len < 10
    · rw [if_pos hhead, if_pos (.inl hhead)]
    by_cases hwait : len < frameLength buf
    · rw [if_neg hhead, if_neg (Int.ne_of_lt hwait), if_pos hwait, if_pos (.inr hwait)]
    · rw [if_neg hhead, if_neg hwait, if_neg (not_or.mpr ⟨hhead, hwait⟩)]
      by_cases hsame : len = frameLength buf
      · rw [if_pos hsame, hsame]
      · rw [if_neg hsame]
  · rw [if_neg hshort, if_neg hshort, if_pos hmark, if_pos hmark]

/-- **A buffer is accepted** when it has the mark, a header and a frame's bytes. -/
theorem litetalkMatch_ok_iff : (litetalkMatch buf len rlen).1 = .etOk ↔
    10 ≤ len ∧ Cells.slice buf 0 4 = markBytes ∧ (frameLength buf : Int) ≤ len := by
  rw [litetalkMatch_eq]
  by_cases hshort : len < 4
  · rw [if_pos hshort]
    exact iff_of_false (fun h => by cases h) (by omega)
  by_cases hmark : Cells.slice buf 0 4 = markBytes
  · rw [if_neg hshort, if_neg (not_not.mpr hmark)]
    by_cases hwait : len < 10 ∨ len < frameLength buf
    · rw [if_pos hwait]
      refine iff_of_false (fun h => by cases h) ?_
      rintro ⟨hhead, -, hlen⟩
      omega
    · rw [if_neg hwait]
      obtain ⟨hhead, hlen⟩ := not_or.mp hwait
      exact iff_of_true rfl ⟨Int.not_lt.mp hhead, hmark, Int.not_lt.mp hlen⟩
  · rw [if_neg hshort, if_pos hmark]
    exact iff_of_false (fun h => by cases h) fun h => hmark h.2.1

/-- Then `rlen` is the length of the frame. -/
theorem litetalkMatch_ok (h : (litetalkMatch buf len rlen).1 = .etOk) :
    litetalkMatch buf len rlen = (.etOk, (frameLength buf : Int)) := by
  obtain ⟨hhead, hmark, hlen⟩ := litetalkMatch_ok_iff.mp h
  rw [litetalkMatch_eq, if_neg (by omega), if_neg (not_not.mpr hmark), if_neg (by omega)]

theorem litetalkMatch_unfinished_iff : (litetalkMatch buf len rlen).1 = .errUnfinished ↔
    len < 4 ∨ Cells.slice buf 0 4 = markBytes ∧ (len < 10 ∨ len < frameLength buf) := by
  rw [litetalkMatch_eq]
  by_cases hshort : len < 4
  · rw [if_pos hshort]
    exact iff_of_true rfl (.inl hshort)
  by_cases hmark : Cells.slice buf 0 4 = markBytes
  · rw [if_neg hshort, if_neg (not_not.mpr hmark)]
    by_cases hwait : len < 10 ∨ len < frameLength buf
    · rw [if_pos hwait]
      exact iff_of_true rfl (.inr ⟨hmark, hwait⟩)
    · rw [if_neg hwait]
      exact iff_of_false (fun h => by cases h) (by tauto)
  · rw [if_neg hshort, if_pos hmark]
    exact iff_of_false (fun h => by cases h) (by tauto)

/-! ### More bytes -/

/-- The two buffers have the same first `len` bytes. -/
def Agree (len : Int) (buf buf' : Cells UInt8) : Prop := ∀ i, 0 ≤ i → i < len → buf' i = buf i

theorem Agree.slice (h : Agree len buf buf') {n : Nat} (hn : (n : Int) ≤ len) :
    Cells.slice buf' 0 n = Cells.slice buf 0 n :=
  Cells.slice_congr fun k hk => h (0 + k) (by omega) (by omega)

theorem Agree.frameLength (h : Agree len buf buf') (hlen : 10 ≤ len) :
    frameLength buf' = frameLength buf := by
  rw [Cmder.frameLength, Cmder.frameLength, contentLength, contentLength,
    h 6 (by decide) (by omega), h 7 (by decide) (by omega), h 8 (by decide) (by omega),
    h 9 (by decide) (by omega)]

/-- **What was accepted stays accepted**, with the same length, when bytes are appended. -/
theorem litetalkMatch_append (h : (litetalkMatch buf len rlen).1 = .etOk)
    (hagree : Agree len buf buf') (hlen : len ≤ len') :
    litetalkMatch buf' len' rlen = litetalkMatch buf len rlen := by
  obtain ⟨hhead, hmark, hframe⟩ := litetalkMatch_ok_iff.mp h
  have hsame := hagree.frameLength hhead
  have hok : (litetalkMatch buf' len' rlen).1 = .etOk :=
    litetalkMatch_ok_iff.mpr
      ⟨Int.le_trans hhead hlen, (hagree.slice (n := 4) (by omega)).trans hmark, by omega⟩
  rw [litetalkMatch_ok h, litetalkMatch_ok hok, hsame]

/-! ### What it promises -/

/-- The buffer begins with a frame whose header is there, all of it. -/
def Framed (buf : Cells UInt8) (len : Int) : Prop :=
  Cells.slice buf 0 4 = markBytes ∧ 10 + (contentLength buf : Int) ≤ len

/-- As much of the mark as is there agrees with it. -/
def Begun (buf : Cells UInt8) (len : Int) : Prop :=
  ∀ i : Nat, i < 4 → (i : Int) < len → buf i = markBytes.getD i 0

/-- What was expected: a buffer is accepted only with a frame in front, of the length in its
header; it is unfinished when it begins like a frame and more bytes are needed; and what comes
behind does not change that it was accepted. -/
structure MatchExpected (buf : Cells UInt8) (len rlen : Int) : Prop where
  accepted : (litetalkMatch buf len rlen).1 = .etOk →
    Framed buf len ∧ (litetalkMatch buf len rlen).2 = 10 + contentLength buf
  unfinished : (litetalkMatch buf len rlen).1 = .errUnfinished ↔
    Begun buf len ∧ len < 10 + contentLength buf
  stands : (litetalkMatch buf len rlen).1 = .etOk → ∀ buf' len', Agree len buf buf' → len ≤ len' →
    litetalkMatch buf' len' rlen = litetalkMatch buf len rlen

/-- What is so: under four bytes it is unfinished in any case. -/
structure MatchLaw (buf : Cells UInt8) (len rlen : Int) : Prop where
  accepted : (litetalkMatch buf len rlen).1 = .etOk ↔ Framed buf len
  length : (litetalkMatch buf len rlen).1 = .etOk →
    (litetalkMatch buf len rlen).2 = 10 + contentLength buf
  unfinished : (litetalkMatch buf len rlen).1 = .errUnfinished ↔
    len < 4 ∨ Cells.slice buf 0 4 = markBytes ∧ len < 10 + contentLength buf
  stands : (litetalkMatch buf len rlen).1 = .etOk → ∀ buf' len', Agree len buf buf' → len ≤ len' →
    litetalkMatch buf' len' rlen = litetalkMatch buf len rlen

/-- **What `litetalk_match` says of a buffer**, unless the length of a frame does not fit into 32
bits. -/
theorem litetalk_match_law (buf : Cells UInt8) (len rlen : Int)
    (h : 10 ≤ len → Cells.slice buf 0 4 = markBytes → 10 + contentLength buf < 2 ^ 32) :
    MatchLaw buf len rlen := by
  have hsum : 10 ≤ len → Cells.slice buf 0 4 = markBytes →
      (frameLength buf : Int) = 10 + contentLength buf := by
    intro hhead hmark
    rw [frameLength_eq (h hhead hmark)]
    rfl
  refine ⟨?_, ?_, ?_, fun hok buf' len' => litetalkMatch_append hok⟩
  · rw [litetalkMatch_ok_iff, Framed]
    constructor
    · rintro ⟨hhead, hmark, hlen⟩
      exact ⟨hmark, hsum hhead hmark ▸ hlen⟩
    · rintro ⟨hmark, hlen⟩
      have hhead : 10 ≤ len := by omega
      exact ⟨hhead, hmark, (hsum hhead hmark).symm ▸ hlen⟩
  · intro hok
    obtain ⟨hhead, hmark, -⟩ := litetalkMatch_ok_iff.mp hok
    rw [litetalkMatch_ok hok, hsum hhead hmark]
  · rw [litetalkMatch_unfinished_iff]
    refine or_congr_right (and_congr_right fun hmark => ?_)
    by_cases hhead : 10 ≤ len
    · rw [hsum hhead hmark]
      omega
    · omega

/-- The header of a frame without content. -/
def emptyFrame : Cells UInt8 := Cells.write (fun _ => 0) 0 markBytes

/-- It is accepted. -/
theorem litetalk_match_law_empty :
    MatchLaw emptyFrame 10 0 ∧ litetalkMatch emptyFrame 10 0 = (.etOk, 10) :=
  ⟨litetalk_match_law emptyFrame 10 0 (by decide), by decide⟩

/-- A header whose content is 2^32 - 10 bytes long. -/
def wrappedFrame : Cells UInt8 :=
  Cells.write (fun _ => 0) 0 (markBytes ++ [0, 0, 0xFF, 0xFF, 0xFF, 0xF6])

/-- **A byte that is not of the mark** is waited with, and a frame of 2^32 bytes is accepted when
its header is there, as one of none. -/
theorem litetalk_match_unexpected :
    ¬MatchExpected (fun _ => 0) 1 0 ∧ ¬MatchExpected wrappedFrame 10 0 := by
  refine ⟨fun h => ?_, fun h => ?_⟩
  · exact absurd (h.unfinished.mp (by decide)).1 fun hbegun =>
      absurd (hbegun 0 (by decide) (by decide)) (by decide)
  · exact absurd (h.accepted (by decide)).2 (by decide)

end Awoke.Cmder
