/-
What a completed stream is worth to its media.

For the config media the acknowledgement of the completing chunk should say whether the
bytes pass the media's test; for the NUC parameters the checksum should be the sum of
all bytes but the last.  Both hold of some streams only.
-/
import Awoke.Proofs.StreamDelivery

namespace Awoke.Cmder

/-! ### The test of the config media -/

/-- The bytes pass the test of a config media: the mark in front, for all but the DPC
parameters, and the sum of all bytes but the last behind. -/
def Passes (media : UInt8) (bs : List UInt8) : Prop :=
  (media ≠ mediaDPCPARAMS → bs.take 4 = [0xBB, 0xCC, 0xCC, 0xBB]) ∧
    bs.getLast? = some (sum8 bs.dropLast)

instance (media : UInt8) (bs : List UInt8) : Decidable (Passes media bs) :=
  inferInstanceAs (Decidable (_ ∧ _))

/-- Four bytes are the mark when each is the mark's. -/
theorem pullDwrd_eq_mark (p : Cells UInt8) :
    pullDwrd p 0 = userMark ↔ Cells.slice p 0 4 = [0xBB, 0xCC, 0xCC, 0xBB] := by
  have hslice : Cells.slice p 0 4 = [p 0, p 1, p 2, p 3] := rfl
  have h₀ := (p 0).toNat_lt
  have h₁ := (p 1).toNat_lt
  have h₂ := (p 2).toNat_lt
  have h₃ := (p 3).toNat_lt
  have hword : (pullDwrd p 0).toNat =
      (p 0).toNat + (p 1).toNat * 256 + (p 2).toNat * 65536 + (p 3).toNat * 16777216 := by
    simp only [pullDwrd, UInt32.toNat_add, UInt32.toNat_shiftLeft, UInt8.toNat_toUInt32,
      Nat.shiftLeft_eq, Int.zero_add, UInt32.reduceToNat, Nat.reduceMod, Nat.reducePow]
    omega
  rw [hslice, ← UInt32.toNat_inj, hword]
  simp only [List.cons.injEq, and_true, ← UInt8.toNat_inj]
  show _ = 3150761147 ↔ _ = 187 ∧ _ = 204 ∧ _ = 204 ∧ _ = 187
  omega

theorem maskExst_marker (media : UInt8) :
    maskExst (mediaMask media) checksumMARKER = true ↔ media ≠ mediaDPCPARAMS := by
  unfold mediaMask
  split
  · exact iff_of_false (by decide) (not_not.mpr ‹_›)
  · exact iff_of_true (by decide) ‹_›

theorem maskExst_nor8 (media : UInt8) : maskExst (mediaMask media) checksumNOR8 = true := by
  unfold mediaMask
  split
  · decide
  · decide

/-- The sum is tested against the last byte. -/
theorem checksum8_iff {p : Cells UInt8} {bs : List UInt8} (hp : Cells.slice p 0 bs.length = bs)
    (hne : bs ≠ []) :
    checksum8 p (bs.length - 1) = p (bs.length - 1) ↔ bs.getLast? = some (sum8 bs.dropLast) := by
  have hpos := List.length_pos_iff.mpr hne
  have hpred : ((bs.length : Int) - 1).toNat = bs.length - 1 := by omega
  have hsum : checksum8 p (bs.length - 1) = sum8 bs.dropLast := by
    rw [checksum8, sum8, hpred, ← Cells.slice_take _ _ (Nat.sub_le _ _), hp,
      List.dropLast_eq_take]
  have hlast : p (bs.length - 1) = bs.getLast hne := by
    have hread := Cells.slice_eq_iff.mp hp (bs.length - 1) (by omega)
    rw [List.getLast_eq_getElem, ← hread]
    congr 1
    omega
  rw [hsum, hlast, List.getLast?_eq_some_getLast hne, Option.some.injEq]
  exact eq_comm

/-- **`normal_checksum` makes the test**, on bytes enough for a mark: the verdict is right that
`litk_stream_merge` has in `ret`, and does not return. -/
theorem normalChecksum_iff {p : Cells UInt8} {bs : List UInt8} {media : UInt8}
    (hp : Cells.slice p 0 bs.length = bs) (hne : bs ≠ [])
    (hmark : media ≠ mediaDPCPARAMS → 4 ≤ bs.length) :
    normalChecksum p bs.length (mediaMask media) = .etOk ↔ Passes media bs := by
  have hfront : media ≠ mediaDPCPARAMS →
      (pullDwrd p 0 = userMark ↔ bs.take 4 = [0xBB, 0xCC, 0xCC, 0xBB]) := by
    intro hmedia
    rw [pullDwrd_eq_mark, ← Cells.slice_take p 0 (hmark hmedia), hp]
  by_cases hfail : maskExst (mediaMask media) checksumMARKER = true ∧ pullDwrd p 0 ≠ userMark
  · have hmedia := (maskExst_marker media).mp hfail.1
    rw [normalChecksum, if_pos hfail]
    refine iff_of_false (by decide) fun hpasses => ?_
    exact hfail.2 ((hfront hmedia).mpr (hpasses.1 hmedia))
  · have hmarked : media ≠ mediaDPCPARAMS → bs.take 4 = [0xBB, 0xCC, 0xCC, 0xBB] := by
      intro hmedia
      refine (hfront hmedia).mp ?_
      by_contra hne
      exact hfail ⟨(maskExst_marker media).mpr hmedia, hne⟩
    rw [normalChecksum, if_neg hfail, if_pos (maskExst_nor8 media), Passes, ← checksum8_iff hp hne]
    by_cases hsum : checksum8 p (bs.length - 1) = p (bs.length - 1)
    · rw [if_neg (not_not.mpr hsum)]
      exact iff_of_true rfl ⟨hmarked, hsum⟩
    · rw [if_pos hsum]
      exact iff_of_false (by decide) fun hpasses => hsum hpasses.2

/-! ### The acknowledgement of a config stream -/

/-- A stream over one of the config media, with no more bytes than the pool has room for. -/
structure ConfigStream extends Stream where
  config : media = mediaDEFCONFIG ∨ media = mediaUSRCONFIG ∨ media = mediaSENSORCFG ∨
    media = mediaDPCPARAMS
  small : (content chunks).length ≤ 4096

variable (nucaddr : UInt32) (nucChecksum : UInt8) (chunkid : UInt16)

/-- **The acknowledgement tells the verdict only where it is good.** -/
theorem config_ack_iff (σ : ConfigStream) :
    (∃ s o, completion (streamInit nucaddr nucChecksum chunkid) (σ.delivery 0 σ.chunks) =
        some (s, o) ∧ (ackCode o.ack = 0 ↔ Passes σ.media (content σ.chunks))) ↔
      Completes σ.toStream ∧ Passes σ.media (content σ.chunks) := by
  constructor
  · intro ⟨s, o, hcompletion, hack⟩
    obtain ⟨hcompletes, hzero, -⟩ := completion_some nucaddr nucChecksum chunkid hcompletion
    exact ⟨hcompletes, hack.mp hzero⟩
  · intro ⟨hcompletes, hpasses⟩
    obtain ⟨s, o, hcompletion, hack, -⟩ :=
      stream_completed nucaddr nucChecksum chunkid hcompletes
    exact ⟨s, o, hcompletion, iff_of_true hack hpasses⟩

/-- DPC parameters of two bytes, of which the second is not the sum of the first. -/
def badParams : ConfigStream :=
  { id := 1, media := mediaDPCPARAMS, chunks := [⟨[1, 2], by decide⟩], countable := by decide
    config := by decide, small := by decide }

/-- They are acknowledged with code zero. -/
theorem config_ack_ignores_checksum :
    (completion (streamInit 0 0 0) (badParams.delivery 0 badParams.chunks)).map
        (fun r => ackCode r.2.ack) = some 0 ∧
      ¬Passes badParams.media (content badParams.chunks) :=
  ⟨rfl, by decide⟩

/-! ### The checksum of the NUC parameters -/

/-- The checksum of a completed stream is right when the bytes left out before the last
add to nothing. -/
theorem nuc_checksum_tails {σ : Stream} {s : Litk} (hmedia : σ.media = mediaNUCPARAMS)
    (hsummed : Summed σ 0 [] σ.chunks s) :
    s.nucChecksum.toNat = ((content σ.chunks).dropLast.map UInt8.toNat).sum % 256 ↔
      tails [] σ.chunks = 0 := by
  have hsum : s.nucChecksum + tails [] σ.chunks = sum8 (content σ.chunks).dropLast :=
    (hsummed hmedia).trans (UInt8.zero_add _)
  rw [← sum8_toNat, UInt8.toNat_inj, ← hsum]
  exact UInt8.left_eq_add

/-- **The exact condition on a stream of NUC parameters.** -/
theorem nuc_checksum_iff (σ : Stream) (hmedia : σ.media = mediaNUCPARAMS) :
    (∃ s o, completion (streamInit nucaddr nucChecksum chunkid) (σ.delivery 0 σ.chunks) =
        some (s, o) ∧
      s.nucChecksum.toNat = ((content σ.chunks).dropLast.map UInt8.toNat).sum % 256) ↔
      Completes σ ∧ tails [] σ.chunks = 0 := by
  constructor
  · intro ⟨s, o, hcompletion, hsum⟩
    obtain ⟨hcompletes, -, hsummed⟩ := completion_some nucaddr nucChecksum chunkid hcompletion
    exact ⟨hcompletes, (nuc_checksum_tails hmedia hsummed).mp hsum⟩
  · intro ⟨hcompletes, htails⟩
    obtain ⟨s, o, hcompletion, -, hsummed⟩ :=
      stream_completed nucaddr nucChecksum chunkid hcompletes
    exact ⟨s, o, hcompletion, (nuc_checksum_tails hmedia hsummed).mpr htails⟩

/-- NUC parameters of three bytes, in two chunks. -/
def smallParams : Stream :=
  { id := 1, media := mediaNUCPARAMS, chunks := [⟨[1, 2], by decide⟩, ⟨[3], by decide⟩]
    countable := by decide }

theorem nuc_checksum_iff_small :
    smallParams.media = mediaNUCPARAMS ∧
      ∃ s o, completion (streamInit 0 0 0) (smallParams.delivery 0 smallParams.chunks) =
          some (s, o) ∧
        s.nucChecksum.toNat = ((content smallParams.chunks).dropLast.map UInt8.toNat).sum % 256 :=
  ⟨rfl, (nuc_checksum_iff 0 0 0 smallParams rfl).mpr ⟨by decide, by decide⟩⟩

/-- NUC parameters of a full chunk and a byte. -/
def bigParams : Stream :=
  { id := 1, media := mediaNUCPARAMS
    chunks := [⟨List.replicate 4096 1, by decide +kernel⟩, ⟨[1], by decide⟩]
    countable := by decide }

/-- The full chunk is merged before the byte comes, and its last byte left out. -/
theorem nuc_checksum_drops :
    ¬∃ s o, completion (streamInit 0 0 0) (bigParams.delivery 0 bigParams.chunks) =
        some (s, o) ∧
      s.nucChecksum.toNat = ((content bigParams.chunks).dropLast.map UInt8.toNat).sum % 256 := by
  intro ⟨s, o, hcompletion, hsum⟩
  obtain ⟨-, -, hsummed⟩ := completion_some 0 0 0 hcompletion
  have htails : tails [] bigParams.chunks ≠ 0 := by decide +kernel
  exact htails ((nuc_checksum_tails rfl hsummed).mp hsum)

end Awoke.Cmder
