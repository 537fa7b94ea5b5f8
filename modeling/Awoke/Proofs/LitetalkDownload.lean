/-
What a stream download hands on.

The content of a stream frame is a subtype, the stream header and the payload; the length of the
payload is what is left of the content's after nine bytes, kept in 16 bits.  Nobody looks whether
there are nine, or whether the rest fits.  Where both is so, the payload is what lies between the
stream header and the end of the frame, and nothing behind the frame is read.
-/
import Awoke.Proofs.LitetalkMatch

namespace Awoke.Cmder

variable {buf : Cells UInt8} {rlen : Int} {junk : UInt32}

/-- What is expected when a frame of `rlen` bytes is read: its header is inside; so is all that is
read of a stream frame; and a download is handed the bytes behind the stream header, with their
number. -/
structure DownloadLaw (buf : Cells UInt8) (rlen : Int) (junk : UInt32) : Prop where
  header : Cells.Within rlen (headerOps : List (Cells.Op UInt8))
  stream : (readHeader buf).category = categorySTREAM → Cells.Within rlen (streamOps buf junk)
  payload : ∀ initialized a, .streamDownload a ∈ (litetalkRead initialized buf junk).2 →
    (a.info.length.toNat : Int) = rlen - 19 ∧
      a.payload = Cells.slice buf 19 (rlen - 19).toNat

/-- A frame whose stream header is all there, with a payload whose length fits. -/
def Sized (buf : Cells UInt8) : Prop :=
  10 + contentLength buf < 2 ^ 32 ∧
    ((readHeader buf).category = categorySTREAM → 1 ≤ contentLength buf ∧
      (buf 10 = streamStDOWNLOAD → 9 ≤ contentLength buf ∧ contentLength buf - 9 < 2 ^ 16))

instance (buf : Cells UInt8) : Decidable (Sized buf) := inferInstanceAs (Decidable (_ ∧ (_ → _)))

/-! ### The reads -/

theorem within_headerOps :
    Cells.Within rlen (headerOps : List (Cells.Op UInt8)) ↔ 10 ≤ rlen := by
  simp only [headerOps, Cells.within_cons, Cells.within_nil, Cells.Op.within_read, and_true]
  omega

/-- The download that a frame begins with. -/
def download (buf : Cells UInt8) (junk : UInt32) : Arrival :=
  litetalkStreamDownload buf 11 (readHeader buf).contentLength junk

/-- What is read of a stream frame is inside when its headers and the payload are. -/
theorem within_streamOps : Cells.Within rlen (streamOps buf junk) ↔
    11 ≤ rlen ∧ (buf 10 = streamStDOWNLOAD →
      19 ≤ rlen ∧ 19 + ((download buf junk).info.length.toNat : Int) ≤ rlen) := by
  have hpayload := (download buf junk).fits
  unfold download at hpayload ⊢
  rw [streamOps, hpayload]
  by_cases hdown : buf 10 = streamStDOWNLOAD
  · rw [if_pos hdown]
    simp only [hdown, true_implies, Cells.within_cons, Cells.within_nil, Cells.Op.within_read,
      and_true]
    omega
  · rw [if_neg hdown]
    simp only [hdown, false_implies, Cells.within_cons, Cells.within_nil, Cells.Op.within_read,
      and_true]
    omega

/-! ### The download -/

/-- A stream frame with the subtype is handed on, and nothing else is. -/
theorem mem_litetalkRead {initialized : Bool} {a : Arrival} :
    .streamDownload a ∈ (litetalkRead initialized buf junk).2 ↔
      (readHeader buf).category = categorySTREAM ∧ buf 10 = streamStDOWNLOAD ∧
        a = download buf junk := by
  have hinit : ∀ calls, LitetalkCall.streamDownload a ∈
      (if initialized then [] else [LitetalkCall.protocolInit]) ++ calls ↔
        .streamDownload a ∈ calls := by
    intro calls
    cases initialized with
    | true => exact Iff.rfl
    | false =>
        refine List.mem_cons.trans (or_iff_right ?_)
        exact fun h => by cases h
  rw [litetalkRead]
  by_cases hcommand : (readHeader buf).category = categoryCOMMAND
  · have hother : (readHeader buf).category ≠ categorySTREAM := by
      rw [hcommand]
      decide
    rw [if_pos hcommand, hinit, litetalkCommandRead]
    refine iff_of_false (fun h => ?_) fun h => hother h.1
    cases List.mem_singleton.mp h
  by_cases hstream : (readHeader buf).category = categorySTREAM
  · rw [if_neg hcommand, if_pos hstream, hinit, litetalkStreamRead]
    by_cases hdown : buf 10 = streamStDOWNLOAD
    · rw [if_pos hdown, List.mem_singleton, LitetalkCall.streamDownload.injEq]
      exact ⟨fun h => ⟨hstream, hdown, h⟩, fun h => h.2.2⟩
    · rw [if_neg hdown]
      exact iff_of_false List.not_mem_nil fun h => hdown h.2.1
  · rw [if_neg hcommand, if_neg hstream]
    have hnil := hinit []
    rw [List.append_nil] at hnil
    rw [hnil]
    exact iff_of_false List.not_mem_nil fun h => hstream h.1

theorem download_length (junk : UInt32) (h : 9 ≤ contentLength buf) :
    (download buf junk).info.length.toNat = (contentLength buf - 9) % 2 ^ 16 := by
  have hle : litetalkStreamHeaderlen ≤ (readHeader buf).contentLength := by
    rw [UInt32.le_iff_toNat_le, contentLength_eq]
    exact h
  show ((readHeader buf).contentLength - litetalkStreamHeaderlen).toUInt16.toNat = _
  rw [UInt32.toNat_toUInt16, UInt32.toNat_sub_of_le _ _ hle, contentLength_eq]
  rfl

/-! ### The exact condition -/

/-- Where the length of the frame fits into 32 bits, it is what the header says. -/
theorem downloadLaw_iff_of_fits (hfits : 10 + contentLength buf < 2 ^ 32)
    (hrlen : rlen = 10 + contentLength buf) :
    DownloadLaw buf rlen junk ↔
      ((readHeader buf).category = categorySTREAM → 1 ≤ contentLength buf ∧
        (buf 10 = streamStDOWNLOAD →
          9 ≤ contentLength buf ∧ contentLength buf - 9 < 2 ^ 16)) := by
  constructor
  · intro h hstream
    have hreads := within_streamOps.mp (h.stream hstream)
    refine ⟨by omega, fun hdown => ?_⟩
    have hnine : 9 ≤ contentLength buf := by
      have := (hreads.2 hdown).1
      omega
    obtain ⟨hlength, -⟩ := h.payload true _ (mem_litetalkRead.mpr ⟨hstream, hdown, rfl⟩)
    rw [download_length junk hnine] at hlength
    exact ⟨hnine, by omega⟩
  · intro h
    refine ⟨within_headerOps.mpr (by omega), fun hstream => within_streamOps.mpr ?_, ?_⟩
    · obtain ⟨hone, hdownload⟩ := h hstream
      refine ⟨by omega, fun hdown => ?_⟩
      obtain ⟨hnine, hsmall⟩ := hdownload hdown
      rw [download_length junk hnine, Nat.mod_eq_of_lt hsmall]
      omega
    · intro initialized a ha
      obtain ⟨hstream, hdown, rfl⟩ := mem_litetalkRead.mp ha
      obtain ⟨hnine, hsmall⟩ := (h hstream).2 hdown
      have hlength := download_length junk hnine
      rw [Nat.mod_eq_of_lt hsmall] at hlength
      have hbytes : (rlen - 19).toNat = (download buf junk).info.length.toNat := by omega
      refine ⟨by omega, ?_⟩
      rw [hbytes]
      rfl

/-- **When the right bytes are handed on.**  For every frame that is accepted: when its length fits
into 32 bits, and a stream frame has a subtype, and a download its stream header and a payload of at
most 65535 bytes. -/
theorem litetalk_download_iff {buf : Cells UInt8} {len r : Int}
    (h : (litetalkMatch buf len r).1 = .etOk) (junk : UInt32) :
    DownloadLaw buf (litetalkMatch buf len r).2 junk ↔ Sized buf := by
  rw [litetalkMatch_ok h]
  by_cases hfits : 10 + contentLength buf < 2 ^ 32
  · rw [downloadLaw_iff_of_fits hfits (by rw [frameLength_eq hfits]; rfl)]
    exact ⟨fun hlaw => ⟨hfits, hlaw⟩, fun hsized => hsized.2⟩
  · -- The header is not inside a frame of less than ten bytes.
    refine iff_of_false (fun hlaw => ?_) fun hsized => hfits hsized.1
    have hheader := within_headerOps.mp hlaw.header
    have hlt := contentLength_lt buf
    simp only [frameLength] at hheader
    omega

/-- The first chunk of a stream, of two bytes. -/
def twoBytes : Cells UInt8 :=
  Cells.write (fun _ => 0) 0
    (markBytes ++ [1, 0, 0, 0, 0, 11] ++ [1, 4, 0, 0, 0, 2, 7, 0, 0] ++ [0xAB, 0xAB])

theorem litetalk_download_iff_twoBytes :
    DownloadLaw twoBytes (litetalkMatch twoBytes 21 0).2 0 ↔ Sized twoBytes :=
  litetalk_download_iff (by decide) 0

/-- A download whose content is the subtype. -/
def noHeader : Cells UInt8 := Cells.write (fun _ => 0) 0 (markBytes ++ [1, 0, 0, 0, 0, 1] ++ [1])

/-- **A frame of eleven bytes** is accepted, its stream header is read from behind it, and 65528
bytes are handed on. -/
theorem litetalk_download_short :
    litetalkMatch noHeader 11 0 = (.etOk, 11) ∧ ¬DownloadLaw noHeader 11 0 ∧
      (download noHeader 0).info.length = 65528 := by
  refine ⟨by decide, fun h => ?_, by decide⟩
  exact absurd (within_streamOps.mp (h.stream (by decide))) (by decide)

end Awoke.Cmder
