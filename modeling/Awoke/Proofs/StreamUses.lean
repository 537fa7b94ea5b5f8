/-
Which arrivals are taken up without following a null pointer.

A merge follows its chunk for every known media, and the pool gives none when it is empty; a media
with a mark needs four bytes, and any other one.  The pool is merged when the next chunk does not
fit and when the last has come, and nobody looks how much there is.  A chunk of no bytes is a null
pointer as well.  And a chunk that the pool refuses is counted, so that the last merge can find less
than was received.
-/
import Awoke.Proofs.StreamBreak
import Awoke.Proofs.StreamStep
import Awoke.Lib.Run

namespace Awoke.Cmder

open Machine

variable {s s' : Litk} {a : Arrival} {bs : List UInt8}

/-- Everything that is used on the way is there. -/
def UsesSound (s : Litk) (a : Arrival) : Prop := ∀ u ∈ processUses s a, u.Sound

theorem null_unsound : ¬(ChunkUse.chunk none).Sound := Bool.false_ne_true

theorem sound_nil : ∀ u ∈ ([] : List ChunkUse), u.Sound := fun _ hu => absurd hu List.not_mem_nil

/-! ### The way ends at a null pointer -/

theorem mergeMedia_none (s : Litk) (merge : Option Buffchunk) (ret : ErrType) :
    mergeMedia s merge ret = none ↔ .chunk none ∈ mediaUses s.streaminfo.media merge := by
  rw [mergeMedia, mediaUses]
  by_cases hconfig : s.streaminfo.media = mediaDEFCONFIG ∨ s.streaminfo.media = mediaUSRCONFIG ∨
      s.streaminfo.media = mediaSENSORCFG ∨ s.streaminfo.media = mediaDPCPARAMS
  · rw [if_pos hconfig, if_pos hconfig]
    cases merge with
    | none => exact iff_of_true rfl List.mem_cons_self
    | some merge => simp
  by_cases hnuc : s.streaminfo.media = mediaNUCPARAMS
  · rw [if_neg hconfig, if_neg hconfig, if_pos hnuc, if_pos hnuc]
    cases merge with
    | none => exact iff_of_true rfl List.mem_cons_self
    | some merge => simp
  · rw [if_neg hconfig, if_neg hconfig, if_neg hnuc, if_neg hnuc]
    simp

theorem streamMerge_none (s : Litk) : streamMerge s = none ↔ .chunk none ∈ mergeUses s := by
  rw [mergeUses, ← mergeMedia_none s _ .etOk, streamMerge]
  cases hmedia : mergeMedia s (s.streampool.pool2chunk s.chunkid).1 .etOk with
  | none => simp [hmedia]
  | some r => simp [hmedia]

theorem streamMerge_nucaddr (s : Litk) (nucaddr : UInt32) :
    streamMerge { s with nucaddr := nucaddr } = none ↔ streamMerge s = none := by
  rw [streamMerge_none, streamMerge_none]
  rfl

theorem streamRoom_none (s : Litk) (length : UInt16) :
    streamRoom s length = none ↔ .chunk none ∈ roomUses s length := by
  rw [streamRoom, roomUses]
  by_cases hroom : s.streampool.maxsize - s.streampool.size < length.toNat
  · rw [if_pos hroom, if_pos hroom, ← streamMerge_none,
      ← streamMerge_nucaddr s (if s.nucaddr = 0 then 0x0000C000 else s.nucaddr)]
    cases hmerge : streamMerge { s with
      nucaddr := if s.nucaddr = 0 then (0x0000C000 : UInt32) else s.nucaddr } with
    | none => simp [hmerge]
    | some r => simp [hmerge]
  · rw [if_neg hroom, if_neg hroom]
    simp

theorem streamReceive_none (s : Litk) (a : Arrival) :
    streamReceive s a = none ↔ .chunk none ∈ receiveUses s a := by
  rw [streamReceive, receiveUses, List.mem_singleton, ChunkUse.chunk.injEq]
  cases hcreate : (Buffchunk.create s.chunkid a.info.length.toNat).1 with
  | none => simp [hcreate]
  | some rbx => simp [hcreate]

theorem streamFinish_none (s : Litk) (ret : ErrType) :
    streamFinish s ret = none ↔ .chunk none ∈ finishUses s := by
  rw [streamFinish, finishUses]
  by_cases hlast : s.streaminfo.recvbytes = s.streaminfo.totalsize
  · rw [if_pos hlast, if_pos hlast, ← streamMerge_none]
    cases streamMerge s with
    | none => simp
    | some r => simp
  · rw [if_neg hlast, if_neg hlast]
    simp

theorem ackUses_sound (s : Litk) : ∀ u ∈ ackUses s, u.Sound := by
  intro u hu
  rw [List.mem_singleton.mp hu]
  rfl

theorem streamAccept_none (s : Litk) (a : Arrival) :
    streamAccept s a = none ↔ .chunk none ∈ acceptUses (s.atIndex a.info.index) a := by
  rw [streamAccept, acceptUses, List.mem_append, ← streamRoom_none]
  cases streamRoom (s.atIndex a.info.index) a.info.length with
  | none => exact iff_of_true rfl (.inl rfl)
  | some r =>
      obtain ⟨ret, out, s₁⟩ := r
      simp only [Option.bind_eq_bind, Option.bind_some, reduceCtorEq, false_or, List.mem_append,
        ← streamReceive_none]
      cases streamReceive s₁ a with
      | none => exact iff_of_true rfl (.inl rfl)
      | some s₂ =>
          simp only [Option.bind_some, reduceCtorEq, false_or, List.mem_append,
            ← streamFinish_none s₂ ret]
          cases streamFinish s₂ ret with
          | none => exact iff_of_true rfl (.inl rfl)
          | some r =>
              refine iff_of_false (by simp) ?_
              rintro (hnone | hack)
              · cases hnone
              · exact null_unsound (ackUses_sound r.2.2.2 _ hack)

/-- **An arrival has no result** when it belongs to another stream, which is turned back for ever,
or when a null pointer is followed. -/
theorem streamProcess_none (s : Litk) (a : Arrival) :
    streamProcess s a = none ↔
      Breaks s.streaminfo a.info ∨ .chunk none ∈ processUses s a := by
  rw [streamProcess, processUses, streamStart_eq]
  by_cases hbreaks : Breaks s.streaminfo a.info
  · rw [if_pos hbreaks]
    exact iff_of_true rfl (.inl hbreaks)
  rw [if_neg hbreaks, or_iff_right hbreaks]
  by_cases hold : oldIndex (s.begun a.info).streaminfo a.info
  · simp only [Option.bind_eq_bind, Option.bind_some, if_pos hold]
    exact iff_of_false (by simp) fun hnull =>
      null_unsound (ackUses_sound (s.begun a.info) _ hnull)
  · simp only [Option.bind_eq_bind, Option.bind_some, if_neg hold]
    exact streamAccept_none (s.begun a.info) a

/-! ### What a merge needs -/

/-- The bytes that a merge must find for its media. -/
def mergeNeeds (media : UInt8) : Nat :=
  if media = mediaDEFCONFIG ∨ media = mediaUSRCONFIG ∨ media = mediaSENSORCFG then 4
  else if media = mediaDPCPARAMS ∨ media = mediaNUCPARAMS then 1
  else 0

theorem checksum_sound (media : UInt8) (length : Int) :
    (ChunkUse.checksum length (mediaMask media)).Sound ↔
      1 ≤ length ∧ (media ≠ mediaDPCPARAMS → 4 ≤ length) := by
  by_cases hdpc : media = mediaDPCPARAMS
  · have hmask : mediaMask media = checksumNOR8 := by rw [mediaMask, if_pos hdpc]
    simp only [ChunkUse.Sound, hdpc, ne_eq, not_true_eq_false, false_implies, and_true]
    rw [← hdpc, hmask]
    exact ⟨fun h => h.2.1 (by decide), fun h => ⟨fun hm => absurd hm (by decide), fun _ => h,
      fun hm => absurd hm (by decide)⟩⟩
  · have hmask : mediaMask media = checksumMARKER ||| checksumNOR8 := by
      rw [mediaMask, if_neg hdpc]
    simp only [ChunkUse.Sound, hmask, ne_eq, hdpc, not_false_eq_true, true_implies]
    exact ⟨fun h => ⟨h.2.1 (by decide), h.1 (by decide)⟩,
      fun h => ⟨fun _ => h.2, fun _ => h.1, fun hm => absurd hm (by decide)⟩⟩

theorem mergeNeeds_config {media : UInt8}
    (h : media = mediaDEFCONFIG ∨ media = mediaUSRCONFIG ∨ media = mediaSENSORCFG ∨
      media = mediaDPCPARAMS) :
    mergeNeeds media = if media = mediaDPCPARAMS then 1 else 4 := by
  rcases h with rfl | rfl | rfl | rfl
  · rfl
  · rfl
  · rfl
  · rfl

theorem mergeNeeds_other {media : UInt8}
    (h : ¬(media = mediaDEFCONFIG ∨ media = mediaUSRCONFIG ∨ media = mediaSENSORCFG ∨
      media = mediaDPCPARAMS)) (hnuc : media ≠ mediaNUCPARAMS) : mergeNeeds media = 0 := by
  rw [mergeNeeds, if_neg (by tauto), if_neg (by tauto)]

/-- The `switch` over a null pointer uses nothing for an unknown media only. -/
theorem mediaUses_none (media : UInt8) :
    (∀ u ∈ mediaUses media none, u.Sound) ↔ mergeNeeds media = 0 := by
  have hnull : ¬∀ u ∈ [ChunkUse.chunk none], u.Sound := fun h =>
    null_unsound (h _ List.mem_cons_self)
  rw [mediaUses]
  split
  · rename_i hconfig
    refine iff_of_false hnull ?_
    rw [mergeNeeds_config hconfig]
    split <;> decide
  split
  · rename_i hnuc
    refine iff_of_false hnull ?_
    rw [hnuc]
    decide
  · rename_i hconfig hnuc
    exact iff_of_true (sound_nil) (mergeNeeds_other hconfig hnuc)

/-- Over a chunk with bytes in it, it uses what is there when they are as many as the media
needs. -/
theorem mediaUses_some (media : UInt8) {merge : Buffchunk} {n : Nat} (hlength : merge.length = n)
    (hpos : 0 < n) : (∀ u ∈ mediaUses media (some merge), u.Sound) ↔ mergeNeeds media ≤ n := by
  have hpair : ∀ u, (∀ v ∈ [ChunkUse.chunk (some merge), u], v.Sound) ↔ u.Sound := by
    intro u
    rw [List.forall_mem_cons, List.forall_mem_singleton]
    exact and_iff_right rfl
  rw [mediaUses]
  split
  · rename_i hconfig
    refine (hpair _).trans ?_
    rw [checksum_sound, hlength, mergeNeeds_config hconfig]
    by_cases hdpc : media = mediaDPCPARAMS
    · rw [if_pos hdpc]
      exact iff_of_true ⟨by omega, fun hnot => absurd hdpc hnot⟩ hpos
    · rw [if_neg hdpc]
      exact ⟨fun h => Int.ofNat_le.mp (h.2 hdpc), fun h => ⟨by omega, fun _ => by omega⟩⟩
  split
  · rename_i hnuc
    refine iff_of_true ((hpair _).mpr ?_) (hnuc ▸ hpos)
    rw [ChunkUse.Sound, hlength]
    split
    · exact Int.natCast_nonneg n
    · omega
  · rename_i hconfig hnuc
    rw [mergeNeeds_other hconfig hnuc]
    exact iff_of_true (sound_nil) (Nat.zero_le n)

/-- **What a merge uses is there** when the pool has as many bytes as the media needs. -/
theorem mergeUses_sound (h : Pooled 4096 s.streampool bs) :
    (∀ u ∈ mergeUses s, u.Sound) ↔ mergeNeeds s.streaminfo.media ≤ bs.length := by
  rw [mergeUses]
  by_cases hne : bs = []
  · rw [hne] at h ⊢
    rw [h.pool2chunk_nil, mediaUses_none]
    exact Nat.le_zero.symm
  · obtain ⟨merge, hmerge, -, hlength⟩ := h.pool2chunk hne (by decide) s.chunkid
    rw [hmerge]
    exact mediaUses_some _ hlength (List.length_pos_iff.mpr hne)

theorem streamMerge_enough (h : Pooled 4096 s.streampool bs)
    (hneeds : mergeNeeds s.streaminfo.media ≤ bs.length) :
    ∃ s', streamMerge s = some (.etOk, bs, s') ∧ s'.streampool = s.streampool.clean ∧
      s'.streaminfo = s.streaminfo := by
  have hsome : streamMerge s ≠ none := fun hnone =>
    null_unsound ((mergeUses_sound h).mpr hneeds _ ((streamMerge_none s).mp hnone))
  by_cases hne : bs = []
  · rw [hne] at h ⊢
    exact ⟨_, (streamMerge_empty h).resolve_left hsome, rfl, rfl⟩
  · exact ⟨afterMerge s bs, streamMerge_pooled h hne, rfl, rfl⟩

/-! ### What an arrival needs -/

/-- The bytes in the pool once the chunk was offered to it. -/
def heldAfter (s : Litk) (a : Arrival) : Int :=
  if s.streampool.maxsize - s.streampool.size < a.info.length.toNat then
    -- All that was there is merged, and every number is free.
    if a.info.length.toNat ≤ s.streampool.maxsize then a.info.length.toNat else 0
  else if Fresh s then s.streampool.length + a.info.length.toNat
  else s.streampool.length

/-- A chunk that is not empty, and bytes enough in the pool whenever it is merged. -/
structure Enough (s : Litk) (a : Arrival) : Prop where
  nonempty : a.info.length ≠ 0
  room : s.streampool.maxsize - s.streampool.size < a.info.length.toNat →
    mergeNeeds s.streaminfo.media ≤ s.streampool.length
  finish : recvAfter s a = s.streaminfo.totalsize → mergeNeeds s.streaminfo.media ≤ heldAfter s a

/-- The same of any arrival: one that breaks the stream under way or is turned away needs
nothing. -/
def SafeUses (s : Litk) (a : Arrival) : Prop :=
  ¬Breaks s.streaminfo a.info → ¬oldIndex (s.begun a.info).streaminfo a.info →
    Enough (s.begun a.info) a

theorem payload_eq_nil : a.payload = [] ↔ a.info.length = 0 := by
  rw [← List.length_eq_zero_iff, a.fits, ← UInt16.toNat_inj]
  rfl

theorem roomUses_sound (h : Pooled 4096 s.streampool bs) {length : UInt16} :
    (∀ u ∈ roomUses s length, u.Sound) ↔
      (s.streampool.maxsize - s.streampool.size < length.toNat →
        mergeNeeds s.streaminfo.media ≤ s.streampool.length) := by
  rw [roomUses, h.length, Int.ofNat_le]
  split
  · rename_i hroom
    rw [mergeUses_sound h, imp_iff_right hroom]
  · rename_i hroom
    exact iff_of_true (sound_nil) fun hc => absurd hc hroom

/-- What is there once room was made: nothing, or all that was. -/
theorem streamRoom_enough (h : Pooled 4096 s.streampool bs) {length : UInt16}
    (hneeds : s.streampool.maxsize - s.streampool.size < length.toNat →
      mergeNeeds s.streaminfo.media ≤ s.streampool.length) :
    ∃ ret out s', streamRoom s length = some (ret, out, s') ∧ s'.streaminfo = s.streaminfo ∧
      if s.streampool.maxsize - s.streampool.size < length.toNat then
        s'.streampool = s.streampool.clean
      else s' = s := by
  rw [streamRoom]
  by_cases hroom : s.streampool.maxsize - s.streampool.size < length.toNat
  · have hbytes : mergeNeeds s.streaminfo.media ≤ bs.length := by
      have hlength := hneeds hroom
      rw [h.length] at hlength
      exact Int.ofNat_le.mp hlength
    obtain ⟨s', hmerge, hpool, hinfo⟩ := streamMerge_enough (s := { s with
      nucaddr := if s.nucaddr = 0 then 0x0000C000 else s.nucaddr }) h hbytes
    simp only [if_pos hroom, hmerge, Option.bind_eq_bind, Option.bind_some, Option.pure_def]
    exact ⟨_, _, _, rfl, hinfo, hpool⟩
  · rw [if_neg hroom]
    refine ⟨_, _, _, rfl, rfl, ?_⟩
    rw [if_neg hroom]

theorem receiveUses_sound (s : Litk) (a : Arrival) :
    (∀ u ∈ receiveUses s a, u.Sound) ↔ a.info.length ≠ 0 := by
  have hlt := a.info.length.toNat_lt
  have hzero : a.info.length = 0 ↔ a.info.length.toNat = 0 := UInt16.toNat_inj.symm
  rw [receiveUses, List.forall_mem_singleton, ChunkUse.Sound, Buffchunk.create, Buffchunk.limit]
  split
  · rename_i hnull
    exact iff_of_false Bool.false_ne_true fun hne => hne (hzero.mpr (by omega))
  · rename_i hsome
    exact iff_of_true rfl fun heq => hsome (.inl (by have := hzero.mp heq; omega))

/-- What is there once the chunk was received: what was, and the chunk if the pool takes it. -/
theorem streamReceive_enough (h : Pooled 4096 s.streampool bs) (hne : a.payload ≠ []) :
    ∃ s', streamReceive s a = some s' ∧
      s'.streaminfo = { s.streaminfo with recvbytes := recvAfter s a } ∧
      Pooled 4096 s'.streampool
        (if bs.length + a.payload.length ≤ 4096 ∧ Fresh s then bs ++ a.payload else bs) := by
  by_cases htaken : bs.length + a.payload.length ≤ 4096 ∧ Fresh s
  · obtain ⟨s', hreceive, hpool, hinfo, -⟩ := streamReceive_taken h hne htaken.1 htaken.2
    rw [if_pos htaken]
    exact ⟨s', hreceive, hinfo, hpool⟩
  · obtain ⟨chunk, -, -, -, -, hreceive⟩ := streamReceive_cons s hne
    have hrefused : 4096 < bs.length + a.payload.length ∨ ¬Fresh s := by
      rw [not_and_or, Nat.not_le] at htaken
      exact htaken
    rw [if_neg htaken]
    refine ⟨_, hreceive, rfl, ?_⟩
    rw [(streamReceive_refused h hrefused hreceive).1]
    exact h

theorem finishUses_sound (h : Pooled 4096 s.streampool bs) :
    (∀ u ∈ finishUses s, u.Sound) ↔
      (s.streaminfo.recvbytes = s.streaminfo.totalsize →
        mergeNeeds s.streaminfo.media ≤ bs.length) := by
  rw [finishUses]
  split
  · rename_i hlast
    rw [mergeUses_sound h, imp_iff_right hlast]
  · rename_i hmore
    exact iff_of_true (sound_nil) fun hc => absurd hc hmore

/-- Room is made and the chunk is received. -/
theorem streamStore_enough (h : Pooled 4096 s.streampool bs) (hne : a.info.length ≠ 0)
    (hneeds : s.streampool.maxsize - s.streampool.size < a.info.length.toNat →
      mergeNeeds s.streaminfo.media ≤ s.streampool.length) :
    ∃ ret out s₁ s₂ held, streamRoom s a.info.length = some (ret, out, s₁) ∧
      streamReceive s₁ a = some s₂ ∧
      s₂.streaminfo = { s.streaminfo with recvbytes := recvAfter s a } ∧
      Pooled 4096 s₂.streampool held ∧ (held.length : Int) = heldAfter s a := by
  have hpayload : a.payload ≠ [] := fun hnil => hne (payload_eq_nil.mp hnil)
  have hfits := a.fits
  obtain ⟨ret, out, s₁, hroom, hinfo₁, hleft⟩ := streamRoom_enough h hneeds
  have hrecv : recvAfter s₁ a = recvAfter s a := by rw [recvAfter, recvAfter, hinfo₁]
  rw [heldAfter]
  by_cases hmerged : s.streampool.maxsize - s.streampool.size < a.info.length.toNat
  · rw [if_pos hmerged] at hleft ⊢
    have hfresh : Fresh s₁ := by
      rw [Fresh, hleft]
      exact fun c hc => absurd hc List.not_mem_nil
    have hclean : Pooled 4096 s₁.streampool [] := hleft ▸ h.clean
    obtain ⟨s₂, hreceive, hinfo₂, hpool₂⟩ := streamReceive_enough hclean hpayload
    refine ⟨ret, out, s₁, s₂, _, hroom, hreceive, by rw [hinfo₂, hrecv, hinfo₁], hpool₂, ?_⟩
    rw [h.maxsize]
    by_cases hsmall : a.payload.length ≤ 4096
    · rw [if_pos ⟨by simpa using hsmall, hfresh⟩, if_pos (by omega), List.nil_append, hfits]
    · rw [if_neg fun hc => hsmall (by simpa using hc.1), if_neg (by omega)]
      rfl
  · rw [if_neg hmerged] at hleft ⊢
    subst hleft
    obtain ⟨s₂, hreceive, hinfo₂, hpool₂⟩ := streamReceive_enough h hpayload
    have hsmall : bs.length + a.payload.length ≤ 4096 := by
      rw [h.maxsize, h.size] at hmerged
      omega
    refine ⟨ret, out, s₁, s₂, _, hroom, hreceive, hinfo₂, hpool₂, ?_⟩
    rw [h.length]
    by_cases hfresh : Fresh s₁
    · rw [if_pos ⟨hsmall, hfresh⟩, if_pos hfresh, List.length_append, hfits]
      rfl
    · rw [if_neg fun hc => hfresh hc.2, if_neg hfresh]

/-- **What is used behind a passed index check is there** when there is enough. -/
theorem acceptUses_sound (h : Pooled 4096 s.streampool bs) :
    (∀ u ∈ acceptUses s a, u.Sound) ↔ Enough s a := by
  rw [acceptUses, List.forall_mem_append, roomUses_sound h]
  by_cases hneeds : s.streampool.maxsize - s.streampool.size < a.info.length.toNat →
      mergeNeeds s.streaminfo.media ≤ s.streampool.length
  · by_cases hne : a.info.length = 0
    · refine iff_of_false (fun huses => ?_) fun henough => henough.nonempty hne
      obtain ⟨ret, out, s₁, hroom, -⟩ := streamRoom_enough h hneeds
      have hreceive := huses.2
      rw [hroom] at hreceive
      exact (receiveUses_sound s₁ a).mp (List.forall_mem_append.mp hreceive).1 hne
    · obtain ⟨ret, out, s₁, s₂, held, hroom, hreceive, hinfo, hpool, hheld⟩ :=
        streamStore_enough h hne hneeds
      simp only [hroom, hreceive, List.forall_mem_append, receiveUses_sound,
        finishUses_sound hpool, hinfo, ← Int.ofNat_le, hheld]
      refine ⟨fun huses => ⟨hne, hneeds, huses.2.2.1⟩,
        fun henough => ⟨hneeds, hne, henough.finish, ?_⟩⟩
      cases streamFinish s₂ ret with
      | none => exact sound_nil
      | some r => exact ackUses_sound r.2.2.2
  · exact iff_of_false (fun huses => hneeds huses.1) fun henough => hneeds henough.room

/-! ### Runs -/

/-- The pool is one of 4096 bytes, in order. -/
def Held (s : Litk) : Prop := ∃ bs, Pooled 4096 s.streampool bs

theorem Held.begun (h : Held s) (info : Streaminfo) : Held (s.begun info) := by
  rw [Litk.begun]
  split
  · exact h
  · exact h

theorem Held.receive (h : Held s) (hreceive : streamReceive s a = some s') : Held s' := by
  obtain ⟨bs, hpool⟩ := h
  have hne : a.payload ≠ [] := by
    intro hnil
    rw [streamReceive_nil hnil] at hreceive
    cases hreceive
  obtain ⟨s'', hsome, -, hpool'⟩ := streamReceive_enough hpool hne
  rw [hsome, Option.some.injEq] at hreceive
  exact ⟨_, hreceive ▸ hpool'⟩

/-- Every arrival leaves the pool in order. -/
theorem Held.process (h : Held s) {o : Outcome} (hs : streamProcess s a = some (s', o)) :
    Held s' := by
  rw [streamProcess, Option.bind_eq_bind, Option.bind_eq_some_iff] at hs
  obtain ⟨s₀, hstart, hs⟩ := hs
  rw [streamStart_eq] at hstart
  split at hstart
  · cases hstart
  rw [Option.some.injEq] at hstart
  have h₀ : Held s₀ := hstart ▸ h.begun a.info
  split at hs
  · obtain ⟨rfl, -⟩ := by simpa using hs
    exact h₀
  · simp only [streamAccept, Option.bind_eq_bind, Option.bind_eq_some_iff, Option.pure_def] at hs
    obtain ⟨⟨ret, out₁, s₁⟩, hroom, s₂, hreceive, ⟨_, _, out₂, s₃⟩, hfinish, heq⟩ := hs
    obtain ⟨bs, hpool⟩ := h₀
    obtain ⟨rest, -, hpool₁, -⟩ := streamRoom_bytes (s := s₀.atIndex a.info.index) hpool hroom
    obtain ⟨bs₂, hpool₂⟩ := Held.receive ⟨rest, hpool₁⟩ hreceive
    obtain ⟨rest', -, hpool₃⟩ := streamFinish_bytes hpool₂ hfinish
    obtain ⟨rfl, -⟩ := by simpa using heq
    exact ⟨rest', hpool₃⟩

/-- **One arrival** finds everything it uses when it has enough. -/
theorem usesSound_iff (h : Held s) : UsesSound s a ↔ SafeUses s a := by
  rw [UsesSound, processUses, streamStart_eq, SafeUses]
  by_cases hbreaks : Breaks s.streaminfo a.info
  · rw [if_pos hbreaks]
    exact iff_of_true (sound_nil) fun hnot => absurd hbreaks hnot
  rw [if_neg hbreaks, imp_iff_right hbreaks]
  by_cases hold : oldIndex (s.begun a.info).streaminfo a.info
  · simp only [if_pos hold]
    exact iff_of_true (ackUses_sound _) fun hnot => absurd hold hnot
  · obtain ⟨bs, hpool⟩ := h.begun a.info
    simp only [if_neg hold, imp_iff_right hold]
    refine (acceptUses_sound (s := (s.begun a.info).atIndex a.info.index) hpool).trans ?_
    exact ⟨fun henough => ⟨henough.nonempty, henough.room, henough.finish⟩,
      fun henough => ⟨henough.nonempty, henough.room, henough.finish⟩⟩

/-- **When nothing but what is there is used**: in every run from a fresh protocol in which every
arrival that is taken up has enough. -/
theorem stream_uses_iff (nucaddr : UInt32) (nucChecksum : UInt8) (chunkid : UInt16)
    (as : List Arrival) :
    Meets streamProcess UsesSound (streamInit nucaddr nucChecksum chunkid) as ↔
      Meets streamProcess SafeUses (streamInit nucaddr nucChecksum chunkid) as :=
  meets_congr (J := Held) (fun _ _ h => usesSound_iff h) (fun _ _ h _ _ _ hs => h.process hs) as
    ⟨[], pooled_init 4096⟩

/-- A first chunk of no bytes. -/
def noBytes : Arrival :=
  { info := { id := 1, media := mediaDPCPARAMS, index := 0, length := 0, totalsize := 1,
              recvbytes := 0 }
    payload := []
    fits := rfl }

/-- A stream of three bytes for a media with a mark. -/
def threeBytes : Arrival :=
  { info := { id := 1, media := mediaDEFCONFIG, index := 0, length := 3, totalsize := 3,
              recvbytes := 0 }
    payload := [0xBB, 0xCC, 0xCC]
    fits := rfl }

/-- **An empty chunk is followed as a null pointer**, and a mark of four bytes is read from
three. -/
theorem stream_uses_missing :
    ¬Meets streamProcess UsesSound (streamInit 0 0 0) [noBytes] ∧
      ¬Meets streamProcess UsesSound (streamInit 0 0 0) [threeBytes] := by
  refine ⟨fun h => ?_, fun h => ?_⟩
  · have hnull := ((streamProcess_none (streamInit 0 0 0) noBytes).mp rfl).resolve_left (by decide)
    exact null_unsound (h.1 _ hnull)
  · have hsafe := (usesSound_iff ⟨[], pooled_init 4096⟩).mp h.1 (by decide) (by decide)
    exact absurd (hsafe.finish (by decide)) (by decide)

end Awoke.Cmder
