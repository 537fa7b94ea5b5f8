/-
What one arrival does to a stream, as far as its bytes go.

A state is looked at through the bytes `bs` in its pool.  When a chunk does not fit
beside them, they are spilled: merged, and gone from the pool.  What stays is `kept`,
and the chunk's bytes come behind it, unless its number is taken by a chunk that is
still there.
-/
import Awoke.Cmder.Stream
import Awoke.Proofs.Buffer

namespace Awoke.Cmder

variable {s s' : Litk} {a : Arrival} {bs : List UInt8}

/-! ### Merging -/

/-- The sum of some bytes, modulo 256. -/
def sum8 (bs : List UInt8) : UInt8 := bs.foldl (· + ·) 0

/-- What merging `bs` makes of the NUC checksum. -/
def mergeSum (media sum : UInt8) (bs : List UInt8) : UInt8 :=
  if media = mediaNUCPARAMS then sum + sum8 bs.dropLast else sum

theorem mergeSum_nil (media sum : UInt8) : mergeSum media sum [] = sum := by
  unfold mergeSum
  split
  · exact UInt8.add_zero sum
  · rfl

/-- The state after the bytes `bs` of the pool were merged. -/
def afterMerge (s : Litk) (bs : List UInt8) : Litk :=
  { s with
    streampool := s.streampool.clean
    nucChecksum := mergeSum s.streaminfo.media s.nucChecksum bs
    chunkid := s.chunkid + 1 }

/-- A chunk that holds `bs` adds them, the last one left out, to the NUC checksum. -/
theorem mergeMedia_some {merge : Buffchunk} (hcontents : merge.contents = bs)
    (hlength : merge.length = bs.length) (hfits : bs.length ≤ 4096) (ret : ErrType) :
    ∃ ret', mergeMedia s (some merge) ret =
      some (ret', mergeSum s.streaminfo.media s.nucChecksum bs) := by
  unfold mergeMedia mergeSum
  by_cases hnuc : s.streaminfo.media = mediaNUCPARAMS
  · have hlen : merge.length ≠ 0x2000 := by omega
    have hsum : checksum8 merge.p (merge.length - 1) = sum8 bs.dropLast := by
      have hslice : Cells.slice merge.p 0 bs.length = bs := by
        rw [← hcontents, Buffchunk.contents, hlength, Int.toNat_natCast]
        simp
      have hpred : ((bs.length : Int) - 1).toNat = bs.length - 1 := by omega
      rw [checksum8, sum8, hlength, hpred, ← Cells.slice_take _ _ (Nat.sub_le _ _), hslice,
        List.dropLast_eq_take]
    rw [if_neg (by rw [hnuc]; decide), if_pos hnuc, if_pos hnuc]
    exact ⟨ret, by simp only [Option.map_some, if_neg hlen, hsum]⟩
  · rw [if_neg hnuc]
    by_cases hconfig : s.streaminfo.media = mediaDEFCONFIG ∨ s.streaminfo.media = mediaUSRCONFIG ∨
        s.streaminfo.media = mediaSENSORCFG ∨ s.streaminfo.media = mediaDPCPARAMS
    · rw [if_pos hconfig]
      exact ⟨_, rfl⟩
    · rw [if_neg hconfig, if_neg hnuc]
      exact ⟨_, rfl⟩

theorem streamMerge_pooled (h : Pooled 4096 s.streampool bs) (hne : bs ≠ []) :
    streamMerge s = some (.etOk, bs, afterMerge s bs) := by
  obtain ⟨merge, hmerge, hcontents, hlength⟩ := h.pool2chunk hne (by decide) s.chunkid
  obtain ⟨ret', hmedia⟩ := mergeMedia_some (s := s) hcontents hlength h.fits .etOk
  simp only [streamMerge, hmerge, hmedia, afterMerge, hcontents, Option.map_some, Option.getD_some,
    Option.bind_eq_bind, Option.bind_some, Option.pure_def]

theorem streamMerge_empty (h : Pooled 4096 s.streampool []) :
    streamMerge s = none ∨
      streamMerge s = some (.etOk, [], { s with streampool := s.streampool.clean }) := by
  simp only [streamMerge, h.pool2chunk_nil, mergeMedia, Option.map_none, Option.getD_none,
    Option.bind_eq_bind, Option.pure_def]
  split
  · exact .inl rfl
  · split
    · exact .inl rfl
    · exact .inr rfl

/-- Whatever a merge does, it takes all bytes out of the pool and returns `et_ok`. -/
theorem streamMerge_some (h : Pooled 4096 s.streampool bs) {ret : ErrType}
    {out : List UInt8} (hmerge : streamMerge s = some (ret, out, s')) :
    out = bs ∧ Pooled 4096 s'.streampool [] ∧ s'.streaminfo = s.streaminfo := by
  by_cases hne : bs = []
  · rw [hne] at h
    rcases streamMerge_empty h with hnone | hsome
    · rw [hnone] at hmerge
      exact absurd hmerge (by simp)
    · rw [hsome] at hmerge
      obtain ⟨-, hout, rfl⟩ := by simpa using hmerge
      exact ⟨hout.trans hne.symm, h.clean, rfl⟩
  · rw [streamMerge_pooled h hne] at hmerge
    obtain ⟨-, hout, rfl⟩ := by simpa using hmerge
    exact ⟨hout.symm, h.clean, rfl⟩

/-! ### Making room -/

/-- The bytes that are merged before `len` more are received. -/
def spilled (bs : List UInt8) (len : Nat) : List UInt8 := if bs.length + len ≤ 4096 then [] else bs

/-- The bytes that stay in the pool. -/
def kept (bs : List UInt8) (len : Nat) : List UInt8 := if bs.length + len ≤ 4096 then bs else []

theorem spilled_append_kept (bs : List UInt8) (len : Nat) : spilled bs len ++ kept bs len = bs := by
  unfold spilled kept
  split
  · rfl
  · exact List.append_nil bs

theorem kept_length {len : Nat} (h : len ≤ 4096) : (kept bs len).length + len ≤ 4096 := by
  unfold kept
  split
  · assumption
  · rw [List.length_nil]
    omega

/-- The pool's chunks took their numbers within the last `n`. -/
def Numbered (s : Litk) (n : Nat) : Prop :=
  ∀ c ∈ s.streampool.chunklist, 0 < (s.chunkid - c.id).toNat ∧ (s.chunkid - c.id).toNat ≤ n

/-- A number is free when no chunk of the pool has it. -/
def Fresh (s : Litk) : Prop := ∀ c ∈ s.streampool.chunklist, c.id ≠ s.chunkid

instance (s : Litk) : Decidable (Fresh s) := by
  unfold Fresh
  infer_instance

theorem Numbered.fresh {n : Nat} (h : Numbered s n) : Fresh s := by
  intro c hc heq
  have hpos := (h c hc).1
  rw [heq, UInt16.sub_self] at hpos
  exact absurd hpos (by decide)

theorem Numbered.mono {m n : Nat} (h : Numbered s m) (hle : m ≤ n) : Numbered s n :=
  fun c hc => ⟨(h c hc).1, Nat.le_trans (h c hc).2 hle⟩

theorem streamRoom_fits {len : UInt16}
    (hfits : s.streampool.size + len.toNat ≤ s.streampool.maxsize) :
    streamRoom s len = some (.etOk, [], s) := by
  rw [streamRoom, if_neg (by omega)]

/-- Room is made for what fits into an empty pool. -/
theorem streamRoom_some (h : Pooled 4096 s.streampool bs) {len : UInt16}
    (hlen : len.toNat ≤ 4096) :
    ∃ s', streamRoom s len = some (.etOk, spilled bs len.toNat, s') ∧
      Pooled 4096 s'.streampool (kept bs len.toNat) ∧ s'.streaminfo = s.streaminfo ∧
      s'.nucChecksum = mergeSum s.streaminfo.media s.nucChecksum (spilled bs len.toNat) ∧
      ((bs.length + len.toNat ≤ 4096 → Fresh s) → Fresh s') ∧
      (Numbered s (2 * bs.length) → Numbered s' (2 * (kept bs len.toNat).length)) := by
  unfold spilled kept
  by_cases hfits : bs.length + len.toNat ≤ 4096
  · rw [if_pos hfits, if_pos hfits, streamRoom_fits (by rw [h.maxsize, h.size]; omega)]
    exact ⟨s, rfl, h, rfl, (mergeSum_nil _ _).symm, fun hfresh => hfresh hfits, id⟩
  · rw [streamRoom, if_pos (by rw [h.maxsize, h.size]; omega), if_neg hfits, if_neg hfits]
    have hne : bs ≠ [] := by
      intro hnil
      rw [hnil, List.length_nil] at hfits
      omega
    generalize hs₀ : { s with
      nucaddr := if s.nucaddr = 0 then (0x0000C000 : UInt32) else s.nucaddr } = s₀
    have hpool : s₀.streampool = s.streampool := by rw [← hs₀]
    have hmerge := streamMerge_pooled (s := s₀) (hpool ▸ h) hne
    simp only [hmerge, Option.bind_eq_bind, Option.bind_some, Option.pure_def]
    refine ⟨_, rfl, ?_, ?_, ?_, ?_, ?_⟩
    · rw [← hs₀]
      exact h.clean
    · rw [← hs₀]
      rfl
    · rw [← hs₀]
      rfl
    · intro _ c hc
      exact absurd hc List.not_mem_nil
    · intro _ c hc
      exact absurd hc List.not_mem_nil

theorem streamRoom_bytes (h : Pooled 4096 s.streampool bs) {len : UInt16} {ret : ErrType}
    {out : List UInt8} (hroom : streamRoom s len = some (ret, out, s')) :
    ∃ rest, out ++ rest = bs ∧ Pooled 4096 s'.streampool rest ∧
      s'.streaminfo = s.streaminfo := by
  unfold streamRoom at hroom
  split at hroom
  · rw [Option.bind_eq_bind, Option.bind_eq_some_iff] at hroom
    obtain ⟨⟨ret', out', s₁⟩, hmerge, heq⟩ := hroom
    obtain ⟨hout, hpool, hinfo⟩ := streamMerge_some (s := { s with
      nucaddr := if s.nucaddr = 0 then 0x0000C000 else s.nucaddr }) h hmerge
    obtain ⟨-, rfl, rfl⟩ := by simpa using heq
    exact ⟨[], by rw [List.append_nil, hout], hpool, hinfo⟩
  · obtain ⟨-, hout, rfl⟩ := by simpa using hroom
    exact ⟨bs, by rw [hout, List.nil_append], h, rfl⟩

/-! ### Receiving -/

/-- The state after a chunk was received, over the pool it left. -/
def afterReceive (s : Litk) (len : Nat) (pool : BuffchunkPool) : Litk :=
  { s with
    streaminfo := { s.streaminfo with recvbytes := s.streaminfo.recvbytes + UInt32.ofNat len }
    streampool := pool
    chunkid := s.chunkid + 1 }

theorem streamReceive_nil (hnil : a.payload = []) : streamReceive s a = none := by
  have hlen : (a.info.length.toNat : Int) = 0 := by
    rw [← a.fits, hnil]
    rfl
  have hcreate : Buffchunk.create s.chunkid a.info.length.toNat = (none, s.chunkid) := by
    rw [hlen, Buffchunk.create, if_pos (.inl (Int.le_refl 0))]
  simp only [streamReceive, hcreate, Option.map_none, Option.bind_eq_bind, Option.bind_none]

/-- Any other chunk is offered to the pool, and counted whatever the pool does. -/
theorem streamReceive_cons (s : Litk) (hne : a.payload ≠ []) :
    ∃ chunk : Buffchunk, chunk.contents = a.payload ∧ chunk.length = a.payload.length ∧
      chunk.size = a.payload.length ∧ chunk.id = s.chunkid ∧
      streamReceive s a =
        some (afterReceive s a.payload.length (s.streampool.chunkadd (some chunk)).2) := by
  have hlimit : (a.payload.length : Int) ≤ Buffchunk.limit := by
    have hlt := a.info.length.toNat_lt
    rw [Buffchunk.limit, a.fits]
    omega
  obtain ⟨chunk, hcreate, hcontents, hlength, hsize, hid⟩ :=
    Buffchunk.create_write hne hlimit s.chunkid
  refine ⟨(chunk.write a.payload true).2, hcontents, hlength, hsize, hid, ?_⟩
  rw [a.fits] at hcreate
  simp only [streamReceive, hcreate, Option.map_some, Option.bind_eq_bind, Option.bind_some,
    Option.pure_def, hlength, Int.toNat_natCast, afterReceive]

/-- A chunk that fits, with a free number, is stored. -/
theorem streamReceive_taken (h : Pooled 4096 s.streampool bs) (hne : a.payload ≠ [])
    (hfits : bs.length + a.payload.length ≤ 4096) (hfresh : Fresh s) :
    ∃ s', streamReceive s a = some s' ∧ Pooled 4096 s'.streampool (bs ++ a.payload) ∧
      s'.streaminfo = (afterReceive s a.payload.length s.streampool).streaminfo ∧
      s'.nucChecksum = s.nucChecksum ∧ s'.chunkid = s.chunkid + 1 ∧
      ∀ c ∈ s'.streampool.chunklist, c ∈ s.streampool.chunklist ∨ c.id = s.chunkid := by
  obtain ⟨chunk, hcontents, hlength, hsize, hid, hreceive⟩ := streamReceive_cons s hne
  refine ⟨_, hreceive, h.chunkadd hcontents hlength hsize hne hfits ?_, rfl, rfl, rfl, ?_⟩
  · intro c hc
    rw [hid]
    exact hfresh c hc
  · intro c hc
    rcases BuffchunkPool.mem_chunkadd hc with hold | rfl
    · exact .inl hold
    · exact .inr hid

/-- A chunk that does not fit, or whose number is taken, is dropped, and counted. -/
theorem streamReceive_refused (h : Pooled 4096 s.streampool bs)
    (hrefused : 4096 < bs.length + a.payload.length ∨ ¬Fresh s)
    (hreceive : streamReceive s a = some s') :
    s'.streampool = s.streampool ∧ a.payload ≠ [] := by
  have hne : a.payload ≠ [] := by
    intro hnil
    rw [streamReceive_nil hnil] at hreceive
    exact absurd hreceive (by simp)
  obtain ⟨chunk, -, -, hsize, hid, heq⟩ := streamReceive_cons s hne
  refine ⟨?_, hne⟩
  rw [heq, Option.some.injEq] at hreceive
  rw [← hreceive]
  refine h.chunkadd_refused ?_
  rcases hrefused with hbig | hstale
  · left
    rw [hsize]
    omega
  · right
    rw [hid]
    by_contra hnone
    exact hstale fun c hc heq => hnone ⟨c, hc, heq⟩

/-- The state after the last merge of a stream. -/
def afterFinish (s : Litk) (bs : List UInt8) : Litk := { afterMerge s bs with streaminfo := .zero }

theorem streamFinish_bytes (h : Pooled 4096 s.streampool bs) {ret ret' : ErrType} {done : Bool}
    {out : List UInt8} (hfinish : streamFinish s ret = some (done, ret', out, s')) :
    ∃ rest, out ++ rest = bs ∧ Pooled 4096 s'.streampool rest := by
  unfold streamFinish at hfinish
  split at hfinish
  · rw [Option.bind_eq_bind, Option.bind_eq_some_iff] at hfinish
    obtain ⟨⟨ret₁, out₁, s₁⟩, hmerge, heq⟩ := hfinish
    obtain ⟨hout, hpool, -⟩ := streamMerge_some h hmerge
    obtain ⟨-, -, rfl, rfl⟩ := by simpa using heq
    exact ⟨[], by rw [List.append_nil, hout], hpool⟩
  · obtain ⟨-, -, hout, rfl⟩ := by simpa using hfinish
    exact ⟨bs, by rw [hout, List.nil_append], h⟩

/-! ### Accepting -/

/-- A chunk the pool takes: not empty, no bigger than the pool, and with a free number
if the chunks before it stay there. -/
structure Taken (s : Litk) (a : Arrival) : Prop where
  nonempty : a.payload ≠ []
  small : a.payload.length ≤ 4096
  fresh : s.streampool.size + a.payload.length ≤ s.streampool.maxsize → Fresh s

instance (s : Litk) (a : Arrival) : Decidable (Taken s a) :=
  decidable_of_iff (a.payload ≠ [] ∧ a.payload.length ≤ 4096 ∧
      (s.streampool.size + a.payload.length ≤ s.streampool.maxsize → Fresh s))
    ⟨fun h => ⟨h.1, h.2.1, h.2.2⟩, fun h => ⟨h.nonempty, h.small, h.fresh⟩⟩

/-- `recvbytes` once the chunk is counted. -/
def recvAfter (s : Litk) (a : Arrival) : UInt32 :=
  s.streaminfo.recvbytes + UInt32.ofNat a.payload.length

/-- Numbers age by one with every number given out. -/
theorem Numbered.age {n : Nat} (h : Numbered s n) (hn : n + 1 < 65536)
    (hchunkid : s'.chunkid = s.chunkid + 1)
    (hmem : ∀ c ∈ s'.streampool.chunklist, c ∈ s.streampool.chunklist ∨ c.id = s.chunkid) :
    Numbered s' (n + 1) := by
  intro c hc
  rw [hchunkid]
  rcases hmem c hc with hold | hid
  · obtain ⟨hpos, hle⟩ := h c hold
    have hage : s.chunkid + 1 - c.id = s.chunkid - c.id + 1 := by grind
    have hone : (s.chunkid - c.id + 1).toNat = (s.chunkid - c.id).toNat + 1 := by
      rw [UInt16.toNat_add]
      exact Nat.mod_eq_of_lt (Nat.lt_of_le_of_lt (Nat.succ_le_succ hle) hn)
    rw [hage, hone]
    omega
  · have hone : s.chunkid + 1 - c.id = 1 := by
      rw [hid]
      grind
    rw [hone]
    exact ⟨by decide, Nat.succ_le_succ (Nat.zero_le n)⟩

/-- Room is made and the chunk is stored. -/
theorem streamStore_taken (h : Pooled 4096 s.streampool bs) (ht : Taken s a) :
    ∃ s₁ s₂, streamRoom s a.info.length = some (.etOk, spilled bs a.payload.length, s₁) ∧
      streamReceive s₁ a = some s₂ ∧
      Pooled 4096 s₂.streampool (kept bs a.payload.length ++ a.payload) ∧
      s₂.streaminfo = { s.streaminfo with recvbytes := recvAfter s a } ∧
      s₂.nucChecksum =
        mergeSum s.streaminfo.media s.nucChecksum (spilled bs a.payload.length) ∧
      (Numbered s (2 * bs.length) →
        Numbered s₂ (2 * (kept bs a.payload.length).length + 1)) := by
  have hsmall := ht.small
  rw [a.fits] at hsmall
  obtain ⟨s₁, hroom, hpool₁, hinfo₁, hsum₁, hfresh₁, hnumbered₁⟩ := streamRoom_some h hsmall
  rw [← a.fits] at hroom hpool₁ hsum₁ hfresh₁ hnumbered₁
  obtain ⟨s₂, hreceive, hpool₂, hinfo₂, hsum₂, hchunkid, hmem⟩ :=
    streamReceive_taken hpool₁ ht.nonempty (kept_length ht.small)
      (hfresh₁ fun hfits => ht.fresh (by rw [h.size, h.maxsize]; omega))
  refine ⟨s₁, s₂, hroom, hreceive, hpool₂, ?_, hsum₂.trans hsum₁, ?_⟩
  · rw [hinfo₂]
    simp only [afterReceive, hinfo₁, recvAfter]
  · intro hnumbered
    have hfits := hpool₁.fits
    exact (hnumbered₁ hnumbered).age (by omega) hchunkid hmem

theorem streamAck_numbered {n : Nat} (h : Numbered s n) (hn : n + 1 < 65536) :
    Numbered (streamAck s) (n + 1) :=
  h.age hn rfl fun _ hc => .inl hc

/-- **A chunk that leaves the stream incomplete is stored.** -/
theorem streamAccept_more (h : Pooled 4096 s.streampool bs) (ht : Taken s a)
    (hmore : recvAfter s a ≠ s.streaminfo.totalsize) :
    ∃ s', streamAccept s a = some (s', { accepted := true
                                         merged := spilled bs a.payload.length
                                         finished := false
                                         ack := buildStreamAck a.info.id a.info.index 0 }) ∧
      Pooled 4096 s'.streampool (kept bs a.payload.length ++ a.payload) ∧
      s'.streaminfo =
        { s.streaminfo with index := a.info.index, recvbytes := recvAfter s a } ∧
      s'.nucChecksum =
        mergeSum s.streaminfo.media s.nucChecksum (spilled bs a.payload.length) ∧
      (Numbered s (2 * bs.length) →
        Numbered s' (2 * (kept bs a.payload.length ++ a.payload).length)) := by
  obtain ⟨s₁, s₂, hroom, hreceive, hpool, hinfo, hsum, hnumbered⟩ :=
    streamStore_taken (s := s.atIndex a.info.index) h ⟨ht.nonempty, ht.small, ht.fresh⟩
  have hfinish : streamFinish s₂ .etOk = some (false, .etOk, [], s₂) := by
    rw [streamFinish, if_neg]
    rw [hinfo]
    exact hmore
  refine ⟨streamAck s₂, ?_, hpool, hinfo, hsum, ?_⟩
  · simp only [streamAccept, hroom, hreceive, hfinish, Option.bind_eq_bind, Option.bind_some,
      Option.pure_def, List.append_nil]
    rfl
  · intro hs
    have hpos := List.length_pos_iff.mpr ht.nonempty
    have hfits := hpool.fits
    rw [List.length_append] at hfits ⊢
    exact (streamAck_numbered (hnumbered hs) (by omega)).mono (by omega)

/-- **The chunk that completes the stream has all that is left merged.** -/
theorem streamAccept_last (h : Pooled 4096 s.streampool bs) (ht : Taken s a)
    (hlast : recvAfter s a = s.streaminfo.totalsize) :
    ∃ s', streamAccept s a = some (s', { accepted := true
                                         merged := bs ++ a.payload
                                         finished := true
                                         ack := buildStreamAck a.info.id a.info.index 0 }) ∧
      Pooled 4096 s'.streampool [] ∧ s'.streaminfo = .zero ∧
      s'.nucChecksum = mergeSum s.streaminfo.media
        (mergeSum s.streaminfo.media s.nucChecksum (spilled bs a.payload.length))
        (kept bs a.payload.length ++ a.payload) := by
  obtain ⟨s₁, s₂, hroom, hreceive, hpool, hinfo, hsum, -⟩ :=
    streamStore_taken (s := s.atIndex a.info.index) h ⟨ht.nonempty, ht.small, ht.fresh⟩
  have hne : kept bs a.payload.length ++ a.payload ≠ [] :=
    fun hnil => ht.nonempty (List.append_eq_nil_iff.mp hnil).2
  have hmedia : s₂.streaminfo.media = s.streaminfo.media := by
    rw [hinfo]
    rfl
  have hfinish : streamFinish s₂ .etOk = some (true, .etOk, kept bs a.payload.length ++ a.payload,
      afterFinish s₂ (kept bs a.payload.length ++ a.payload)) := by
    rw [streamFinish, if_pos, streamMerge_pooled hpool hne]
    · rfl
    · rw [hinfo]
      exact hlast
  refine ⟨streamAck (afterFinish s₂ (kept bs a.payload.length ++ a.payload)),
    ?_, hpool.clean, rfl, ?_⟩
  · simp only [streamAccept, hroom, hreceive, hfinish, Option.bind_eq_bind, Option.bind_some,
      Option.pure_def, ← List.append_assoc, spilled_append_kept]
    rfl
  · show mergeSum s₂.streaminfo.media s₂.nucChecksum _ = _
    rw [hmedia, hsum]
    rfl

theorem streamAccept_accepted {o : Outcome} (haccept : streamAccept s a = some (s', o)) :
    o.accepted = true := by
  simp only [streamAccept, Option.bind_eq_bind, Option.bind_eq_some_iff, Option.pure_def] at haccept
  obtain ⟨⟨_, _, _⟩, _, _, _, ⟨_, _, _, _⟩, _, heq⟩ := haccept
  obtain ⟨-, rfl⟩ := by simpa using heq
  rfl

/-- **A chunk the pool does not take is lost**: it is counted, and the bytes merged and in
the pool are those from before. -/
theorem streamAccept_lost (h : Pooled 4096 s.streampool bs) (ht : ¬Taken s a) {o : Outcome}
    (haccept : streamAccept s a = some (s', o)) :
    a.payload ≠ [] ∧ ∃ rest, o.merged ++ rest = bs ∧ Pooled 4096 s'.streampool rest := by
  simp only [streamAccept, Option.bind_eq_bind, Option.bind_eq_some_iff, Option.pure_def] at haccept
  obtain ⟨⟨ret, out₁, s₁⟩, hroom, s₂, hreceive, ⟨finished, ret', out₂, s₃⟩, hfinish, heq⟩ := haccept
  obtain ⟨rest, hrest, hpool₁, -⟩ := streamRoom_bytes (s := s.atIndex a.info.index) h hroom
  have hrefused : a.payload ≠ [] → 4096 < rest.length + a.payload.length ∨ ¬Fresh s₁ := by
    intro hne
    by_cases hsmall : a.payload.length ≤ 4096
    · right
      intro hfresh
      refine ht ⟨hne, hsmall, fun hfits => ?_⟩
      -- nothing was merged, so the numbers are those from before
      rw [a.fits] at hfits
      rw [streamRoom_fits (s := s.atIndex a.info.index) hfits] at hroom
      obtain ⟨-, -, rfl⟩ := by simpa using hroom
      exact hfresh
    · left
      omega
  by_cases hne : a.payload = []
  · rw [streamReceive_nil hne] at hreceive
    exact absurd hreceive (by simp)
  · have hpool₂ := (streamReceive_refused hpool₁ (hrefused hne) hreceive).1
    obtain ⟨rest', hrest', hpool₃⟩ := streamFinish_bytes (s := s₂) (hpool₂ ▸ hpool₁) hfinish
    obtain ⟨rfl, rfl⟩ := by simpa using heq
    exact ⟨hne, rest', by rw [List.append_assoc, hrest', hrest], hpool₃⟩

/-! ### Which way an arrival goes -/

theorem streamProcess_first (hid : s.streaminfo.id = 0) (hindex : a.info.index = 0) :
    streamProcess s a = streamAccept (s.opened a.info) a := by
  have hold : ¬oldIndex (s.opened a.info).streaminfo a.info := fun hc => hc.1 hindex
  rw [streamProcess, streamStart, if_pos hid]
  exact if_neg hold

theorem streamProcess_stray (hid : s.streaminfo.id = 0) (hindex : a.info.index ≠ 0) :
    streamProcess s a = some (streamAck (s.opened a.info), refusal a) := by
  have hold : oldIndex (s.opened a.info).streaminfo a.info :=
    ⟨hindex, fun hc => absurd hc (by show (a.info.index.toNat : Int) ≠ _; omega)⟩
  rw [streamProcess, streamStart, if_pos hid]
  exact if_pos hold

theorem streamProcess_other (hid : s.streaminfo.id ≠ 0)
    (hother : s.streaminfo.id ≠ a.info.id ∨ s.streaminfo.media ≠ a.info.media) :
    streamProcess s a = none := by
  rw [streamProcess, streamStart, if_neg hid, if_pos hother]
  rfl

theorem streamProcess_same (hid : s.streaminfo.id ≠ 0)
    (hsame : a.info.id = s.streaminfo.id ∧ a.info.media = s.streaminfo.media) :
    streamProcess s a =
      if oldIndex s.streaminfo a.info then some (streamAck s, refusal a) else streamAccept s a := by
  have hnot : ¬(s.streaminfo.id ≠ a.info.id ∨ s.streaminfo.media ≠ a.info.media) := by
    rw [hsame.1, hsame.2]
    exact fun hc => hc.elim (fun h => h rfl) fun h => h rfl
  rw [streamProcess, streamStart, if_neg hid, if_neg hnot]
  rfl

end Awoke.Cmder
