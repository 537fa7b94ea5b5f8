/-
What comes of a stream whose chunks are delivered in order.

A stream is completed by the chunk that brings its last byte.  That chunk is reached
when no chunk before it is empty, and when the stream has an id: with id zero every
chunk begins the stream again.

The acknowledgement that completes a stream always carries code zero, since
`litk_stream_merge` returns `et_ok` whatever `normal_checksum` said.  And the NUC
checksum leaves out the last byte of every block that is merged, not of the last only.
-/
import Awoke.Proofs.StreamStep

namespace Awoke.Cmder

/-! ### Streams, cut into chunks -/

/-- A chunk that fits into the pool. -/
abbrev Chunk := { c : List UInt8 // c.length ≤ 4096 }

/-- The bytes of some chunks. -/
def content (cs : List Chunk) : List UInt8 := (cs.map Subtype.val).flatten

@[simp] theorem content_cons (c : Chunk) (cs : List Chunk) :
    content (c :: cs) = c.val ++ content cs := rfl

theorem content_length (cs : List Chunk) : (content cs).length ≤ 4096 * cs.length := by
  induction cs with
  | nil => exact Nat.le_refl 0
  | cons c cs ih =>
      have hc := c.property
      rw [content_cons, List.length_append, List.length_cons]
      omega

/-- A stream and a way of cutting it; indexes are of 16 bits. -/
structure Stream where
  id : UInt8
  media : UInt8
  chunks : List Chunk
  countable : chunks.length ≤ 65536

/-- The total size that every chunk of the stream carries. -/
def Stream.totalsize (σ : Stream) : UInt32 := UInt32.ofNat (content σ.chunks).length

theorem Stream.totalsize_toNat (σ : Stream) :
    σ.totalsize.toNat = (content σ.chunks).length := by
  have hlen := content_length σ.chunks
  have hcount := σ.countable
  exact Nat.mod_eq_of_lt (by omega)

/-- The chunk with index `k`. -/
def Stream.arrival (σ : Stream) (k : Nat) (c : Chunk) : Arrival :=
  { info := { id := σ.id, media := σ.media, index := UInt16.ofNat k,
              length := UInt16.ofNat c.val.length, totalsize := σ.totalsize, recvbytes := 0 }
    payload := c.val
    fits := (Nat.mod_eq_of_lt (Nat.lt_of_le_of_lt c.property (by decide))).symm }

/-- Some chunks of the stream in order, the first with index `k`. -/
def Stream.delivery (σ : Stream) : Nat → List Chunk → List Arrival
  | _, [] => []
  | k, c :: cs => σ.arrival k c :: σ.delivery (k + 1) cs

/-- The state and the outcome of the arrival that completes the stream. -/
def completion (s : Litk) : List Arrival → Option (Litk × Outcome)
  | [] => none
  | a :: as => (streamProcess s a).bind fun r => if r.2.finished then some r else completion r.1 as

/-- No chunk is empty before all bytes have come. -/
def Unbroken : List Chunk → Prop
  | [] => False
  | c :: cs => c.val ≠ [] ∧ (content cs = [] ∨ Unbroken cs)

instance decidableUnbroken : ∀ cs, Decidable (Unbroken cs)
  | [] => isFalse id
  | c :: cs =>
      have := decidableUnbroken cs
      inferInstanceAs (Decidable (c.val ≠ [] ∧ (content cs = [] ∨ Unbroken cs)))

variable {σ : Stream} {s s' : Litk} {a : Arrival} {o : Outcome} {as : List Arrival}
variable {k : Nat} {c : Chunk} {cs : List Chunk}

theorem completion_none (hnone : streamProcess s a = none) : completion s (a :: as) = none := by
  rw [completion, hnone]
  rfl

theorem completion_more (hmore : streamProcess s a = some (s', o)) (ho : o.finished = false) :
    completion s (a :: as) = completion s' as := by
  rw [completion, hmore, Option.bind_some, ho]
  rfl

theorem completion_last (hlast : streamProcess s a = some (s', o)) (ho : o.finished = true) :
    completion s (a :: as) = some (s', o) := by
  rw [completion, hlast, Option.bind_some, ho]
  rfl

/-! ### The sum that is left out -/

theorem foldl_sum8 (bs : List UInt8) : ∀ sum, bs.foldl (· + ·) sum = sum + sum8 bs := by
  induction bs with
  | nil => intro sum; exact (UInt8.add_zero sum).symm
  | cons b bs ih =>
      intro sum
      have hsum : sum8 (b :: bs) = b + sum8 bs := by
        rw [sum8, List.foldl_cons, ih, UInt8.zero_add]
      rw [List.foldl_cons, ih, hsum, UInt8.add_assoc]

theorem sum8_append (xs ys : List UInt8) : sum8 (xs ++ ys) = sum8 xs + sum8 ys := by
  rw [sum8, List.foldl_append, foldl_sum8]
  rfl

theorem sum8_toNat (bs : List UInt8) : (sum8 bs).toNat = (bs.map UInt8.toNat).sum % 256 := by
  induction bs with
  | nil => rfl
  | cons b bs ih =>
      have hsum : sum8 (b :: bs) = b + sum8 bs := by
        rw [sum8, List.foldl_cons, foldl_sum8, UInt8.zero_add]
      rw [hsum, UInt8.toNat_add, ih, List.map_cons, List.sum_cons]
      omega

/-- The last byte of a block, and zero if there is no block. -/
def lastByte (bs : List UInt8) : UInt8 := bs.getLastD 0

theorem sum8_dropLast (bs : List UInt8) : sum8 bs = sum8 bs.dropLast + lastByte bs := by
  rcases List.eq_nil_or_concat bs with rfl | ⟨init, b, rfl⟩
  · rfl
  · rw [List.concat_eq_append, List.dropLast_concat, lastByte, List.getLastD_concat, sum8_append]
    exact congrArg _ (UInt8.zero_add b)

/-- The last bytes of the blocks merged while `cs` come in over the bytes `bs`, added. -/
def tails (bs : List UInt8) : List Chunk → UInt8
  | [] => 0
  | c :: cs => lastByte (spilled bs c.val.length) + tails (kept bs c.val.length ++ c.val) cs

theorem tails_nil {bs : List UInt8} (hfits : bs.length ≤ 4096) (hnil : content cs = []) :
    tails bs cs = 0 := by
  induction cs with
  | nil => rfl
  | cons c cs ih =>
      obtain ⟨hc, hcs⟩ := List.append_eq_nil_iff.mp hnil
      rw [tails, hc, spilled, kept, if_pos (by simpa using hfits), if_pos (by simpa using hfits),
        List.append_nil, ih hcs]
      rfl

theorem sum8_spilled (bs : List UInt8) {more : List UInt8} (hne : more ≠ []) (len : Nat) :
    sum8 (bs ++ more).dropLast =
      sum8 (spilled bs len).dropLast + lastByte (spilled bs len) +
        sum8 (kept bs len ++ more).dropLast := by
  have hsplit : bs ++ more = spilled bs len ++ (kept bs len ++ more) := by
    rw [← List.append_assoc, spilled_append_kept]
  have hne' : kept bs len ++ more ≠ [] := fun hnil => hne (List.append_eq_nil_iff.mp hnil).2
  rw [hsplit, List.dropLast_append_of_ne_nil hne', sum8_append, ← sum8_dropLast]

/-! ### Chunk after chunk -/

/-- The state between two chunks of `σ`: the next has index `k`, `recv` bytes have come,
and `bs` are those in the pool. -/
structure Collecting (σ : Stream) (s : Litk) (k recv : Nat) (bs : List UInt8) : Prop where
  id : s.streaminfo.id = σ.id
  media : s.streaminfo.media = σ.media
  totalsize : s.streaminfo.totalsize = σ.totalsize
  index : s.streaminfo.index.toNat + 1 = k
  recvbytes : s.streaminfo.recvbytes.toNat = recv
  pool : Pooled 4096 s.streampool bs
  -- every arrival takes two numbers and brings at least a byte
  numbered : Numbered s (2 * bs.length)

variable {recv : Nat} {bs : List UInt8}

theorem taken_of_numbered {n : Nat} (hnumbered : Numbered s n) (hne : c.val ≠ []) :
    Taken s (σ.arrival k c) :=
  ⟨hne, c.property, fun _ => hnumbered.fresh⟩

theorem recvAfter_toNat (hrecv : s.streaminfo.recvbytes.toNat = recv)
    (htotal : recv + (content (c :: cs)).length = (content σ.chunks).length) :
    (recvAfter s (σ.arrival k c)).toNat = recv + c.val.length := by
  have hsize := σ.totalsize_toNat
  have hlt := σ.totalsize.toNat_lt
  have hc := c.property
  have hlen : (UInt32.ofNat c.val.length).toNat = c.val.length := Nat.mod_eq_of_lt (by omega)
  rw [content_cons, List.length_append] at htotal
  rw [recvAfter, UInt32.toNat_add, hrecv]
  show (recv + (UInt32.ofNat c.val.length).toNat) % _ = _
  rw [hlen]
  exact Nat.mod_eq_of_lt (by omega)

theorem recvAfter_eq_iff (hrecv : s.streaminfo.recvbytes.toNat = recv)
    (htotal : recv + (content (c :: cs)).length = (content σ.chunks).length)
    (hsize : s.streaminfo.totalsize = σ.totalsize) :
    recvAfter s (σ.arrival k c) = s.streaminfo.totalsize ↔ content cs = [] := by
  rw [← UInt32.toNat_inj, recvAfter_toNat hrecv htotal, hsize, σ.totalsize_toNat, ← htotal,
    content_cons, List.length_append, ← List.length_eq_zero_iff]
  omega

/-- Accepting a chunk of `σ` when more are to come. -/
theorem accept_collecting (hpool : Pooled 4096 s.streampool bs)
    (hnumbered : Numbered s (2 * bs.length)) (hid : s.streaminfo.id = σ.id)
    (hmedia : s.streaminfo.media = σ.media) (hsize : s.streaminfo.totalsize = σ.totalsize)
    (hrecv : s.streaminfo.recvbytes.toNat = recv)
    (htotal : recv + (content (c :: cs)).length = (content σ.chunks).length)
    (hk : k < 65536) (hne : c.val ≠ []) (hmore : content cs ≠ []) :
    ∃ s' o, streamAccept s (σ.arrival k c) = some (s', o) ∧ o.finished = false ∧
      Collecting σ s' (k + 1) (recv + c.val.length) (kept bs c.val.length ++ c.val) ∧
      s'.nucChecksum = mergeSum σ.media s.nucChecksum (spilled bs c.val.length) := by
  have hne' : recvAfter s (σ.arrival k c) ≠ s.streaminfo.totalsize :=
    fun heq => hmore ((recvAfter_eq_iff hrecv htotal hsize).mp heq)
  obtain ⟨s', haccept, hpool', hinfo, hsum, hnumbered'⟩ :=
    streamAccept_more hpool (taken_of_numbered hnumbered hne) hne'
  refine ⟨s', _, haccept, rfl, ⟨?_, ?_, ?_, ?_, ?_, hpool', ?_⟩, ?_⟩
  · rw [hinfo]
    exact hid
  · rw [hinfo]
    exact hmedia
  · rw [hinfo]
    exact hsize
  · rw [hinfo]
    show (UInt16.ofNat k).toNat + 1 = k + 1
    rw [UInt16.toNat_ofNat_of_lt' hk]
  · rw [hinfo]
    exact recvAfter_toNat hrecv htotal
  · exact hnumbered' hnumbered
  · rw [hsum, hmedia]
    rfl

/-- Accepting the chunk of `σ` that brings the last byte. -/
theorem accept_completing (hpool : Pooled 4096 s.streampool bs)
    (hnumbered : Numbered s (2 * bs.length)) (hmedia : s.streaminfo.media = σ.media)
    (hsize : s.streaminfo.totalsize = σ.totalsize)
    (hrecv : s.streaminfo.recvbytes.toNat = recv)
    (htotal : recv + (content (c :: cs)).length = (content σ.chunks).length)
    (hne : c.val ≠ []) (hlast : content cs = []) :
    ∃ s' o, streamAccept s (σ.arrival k c) = some (s', o) ∧ o.finished = true ∧
      ackCode o.ack = 0 ∧
      s'.nucChecksum = mergeSum σ.media
        (mergeSum σ.media s.nucChecksum (spilled bs c.val.length))
        (kept bs c.val.length ++ c.val) := by
  obtain ⟨s', haccept, -, -, hsum⟩ :=
    streamAccept_last hpool (taken_of_numbered hnumbered hne)
      ((recvAfter_eq_iff hrecv htotal hsize).mpr hlast)
  refine ⟨s', _, haccept, rfl, rfl, ?_⟩
  rw [hsum, hmedia]
  rfl

theorem accept_nil (hc : c.val = []) : streamAccept s (σ.arrival k c) = none := by
  have hreceive : ∀ s, streamReceive s (σ.arrival k c) = none := fun _ => streamReceive_nil hc
  simp only [streamAccept, hreceive, Option.bind_eq_bind, Option.bind_none, Option.bind_fun_none]

/-- What the NUC checksum is when the stream is complete, over its value `sum` and the
bytes `bs` in the pool: the bytes still to come are added, the last one of every block
that is merged left out. -/
def Summed (σ : Stream) (sum : UInt8) (bs : List UInt8) (cs : List Chunk) (s : Litk) : Prop :=
  σ.media = mediaNUCPARAMS →
    s.nucChecksum + tails bs cs = sum + sum8 (bs ++ content cs).dropLast

theorem summed_last {sum : UInt8} (hne : c.val ≠ [])
    (hlast : content cs = [])
    (hsum : s.nucChecksum = mergeSum σ.media (mergeSum σ.media sum (spilled bs c.val.length))
      (kept bs c.val.length ++ c.val)) : Summed σ sum bs (c :: cs) s := by
  intro hmedia
  have htails : tails (kept bs c.val.length ++ c.val) cs = 0 := by
    refine tails_nil ?_ hlast
    rw [List.length_append]
    exact kept_length c.property
  rw [hsum, mergeSum, mergeSum, if_pos hmedia, if_pos hmedia, tails, htails, content_cons, hlast,
    List.append_nil, sum8_spilled bs hne c.val.length]
  grind

theorem summed_more {sum sum' : UInt8} (hne : c.val ≠ [])
    (hsum : sum' = mergeSum σ.media sum (spilled bs c.val.length))
    (h : Summed σ sum' (kept bs c.val.length ++ c.val) cs s) : Summed σ sum bs (c :: cs) s := by
  intro hmedia
  have hrest := h hmedia
  have hne' : c.val ++ content cs ≠ [] := fun hnil => hne (List.append_eq_nil_iff.mp hnil).1
  rw [hsum, mergeSum, if_pos hmedia, List.append_assoc] at hrest
  rw [tails, content_cons, sum8_spilled bs hne' c.val.length]
  grind

/-! ### Whole deliveries -/

theorem streamProcess_collecting (h : Collecting σ s k recv bs) (hid : σ.id ≠ 0)
    (hk : k < 65536) : streamProcess s (σ.arrival k c) = streamAccept s (σ.arrival k c) := by
  have hnot : ¬oldIndex s.streaminfo (σ.arrival k c).info := by
    intro hold
    have hindex := h.index
    have hprev := hold.2
    have hk' : (σ.arrival k c).info.index.toNat = k := UInt16.toNat_ofNat_of_lt' hk
    omega
  rw [streamProcess_same (by rw [h.id]; exact hid) ⟨h.id.symm, h.media.symm⟩, if_neg hnot]

/-- **Chunks none of which is empty complete the stream**, with code zero. -/
theorem completion_unbroken (hid : σ.id ≠ 0) (cs : List Chunk) :
    ∀ {s : Litk} {k recv : Nat} {bs : List UInt8}, Collecting σ s k recv bs →
      recv + (content cs).length = (content σ.chunks).length → k + cs.length ≤ 65536 →
      Unbroken cs →
      ∃ s' o, completion s (σ.delivery k cs) = some (s', o) ∧ ackCode o.ack = 0 ∧
        Summed σ s.nucChecksum bs cs s' := by
  induction cs with
  | nil => intro s k recv bs _ _ _ hun; exact hun.elim
  | cons c cs ih =>
      intro s k recv bs h htotal hk hun
      obtain ⟨hne, hrest⟩ := hun
      rw [List.length_cons] at hk
      have hprocess := streamProcess_collecting (c := c) h hid (by omega)
      by_cases hlast : content cs = []
      · obtain ⟨s', o, haccept, hfinished, hack, hsum⟩ :=
          accept_completing (k := k) h.pool h.numbered h.media h.totalsize h.recvbytes htotal
            hne hlast
        rw [haccept] at hprocess
        exact ⟨s', o, completion_last hprocess hfinished, hack,
          summed_last hne hlast hsum⟩
      · obtain ⟨s₁, o₁, haccept, hfinished, h₁, hsum⟩ :=
          accept_collecting (k := k) h.pool h.numbered h.id h.media h.totalsize h.recvbytes htotal
            (by omega) hne hlast
        rw [haccept] at hprocess
        rw [content_cons, List.length_append] at htotal
        obtain ⟨s', o, hcompletion, hack, hsummed⟩ :=
          ih h₁ (by omega) (by omega) (hrest.resolve_left hlast)
        exact ⟨s', o, (completion_more hprocess hfinished).trans hcompletion, hack,
          summed_more hne hsum hsummed⟩

/-- An empty chunk among them ends it. -/
theorem completion_broken (hid : σ.id ≠ 0) (cs : List Chunk) :
    ∀ {s : Litk} {k recv : Nat} {bs : List UInt8}, Collecting σ s k recv bs →
      recv + (content cs).length = (content σ.chunks).length → k + cs.length ≤ 65536 →
      ¬Unbroken cs → completion s (σ.delivery k cs) = none := by
  induction cs with
  | nil => intro s k recv bs _ _ _ _; rfl
  | cons c cs ih =>
      intro s k recv bs h htotal hk hun
      rw [List.length_cons] at hk
      have hprocess := streamProcess_collecting (c := c) h hid (by omega)
      by_cases hne : c.val = []
      · rw [accept_nil hne] at hprocess
        exact completion_none hprocess
      · obtain ⟨hmore, hrest⟩ := not_or.mp fun hor => hun ⟨hne, hor⟩
        obtain ⟨s₁, o₁, haccept, hfinished, h₁, -⟩ :=
          accept_collecting (k := k) h.pool h.numbered h.id h.media h.totalsize h.recvbytes htotal
            (by omega) hne hmore
        rw [haccept] at hprocess
        rw [content_cons, List.length_append] at htotal
        exact (completion_more hprocess hfinished).trans (ih h₁ (by omega) (by omega) hrest)

/-- With id zero, every later chunk is one before its stream began. -/
theorem completion_unnamed (hid : σ.id = 0) (cs : List Chunk) :
    ∀ {s : Litk} {k : Nat}, s.streaminfo.id = 0 → 0 < k → k + cs.length ≤ 65536 →
      completion s (σ.delivery k cs) = none := by
  induction cs with
  | nil => intro s k _ _ _; rfl
  | cons c cs ih =>
      intro s k hs hpos hk
      rw [List.length_cons] at hk
      have hindex : (σ.arrival k c).info.index ≠ 0 := by
        intro hzero
        have hk' : (UInt16.ofNat k).toNat = k := 
          UInt16.toNat_ofNat_of_lt' (Nat.lt_of_lt_of_le (by omega) hk)
        have hzero' : (UInt16.ofNat k).toNat = 0 := congrArg UInt16.toNat hzero
        omega
      refine (completion_more (streamProcess_stray hs hindex) rfl).trans ?_
      exact ih hid (by omega) (by omega)

/-- When a stream that is delivered in order is completed. -/
def Completes (σ : Stream) : Prop :=
  Unbroken σ.chunks ∧ (σ.id ≠ 0 ∨ content σ.chunks.tail = [])

instance (σ : Stream) : Decidable (Completes σ) :=
  inferInstanceAs (Decidable (Unbroken σ.chunks ∧ (σ.id ≠ 0 ∨ content σ.chunks.tail = [])))

variable (nucaddr : UInt32) (nucChecksum : UInt8) (chunkid : UInt16)

/-- The state in which the first chunk of `σ` is accepted. -/
def firstState (σ : Stream) (c : Chunk) : Litk :=
  (streamInit nucaddr nucChecksum chunkid).opened (σ.arrival 0 c).info

theorem firstState_numbered (c : Chunk) (n : Nat) :
    Numbered (firstState nucaddr nucChecksum chunkid σ c) n :=
  fun _ hc => absurd hc List.not_mem_nil

theorem firstState_recvbytes (c : Chunk) :
    (firstState nucaddr nucChecksum chunkid σ c).streaminfo.recvbytes.toNat = 0 := rfl

theorem streamProcess_firstState (c : Chunk) :
    streamProcess (streamInit nucaddr nucChecksum chunkid) (σ.arrival 0 c) =
      streamAccept (firstState nucaddr nucChecksum chunkid σ c) (σ.arrival 0 c) :=
  streamProcess_first rfl rfl

theorem first_completing (hchunks : σ.chunks = c :: cs) (hne : c.val ≠ [])
    (hlast : content cs = []) :
    ∃ s o, streamProcess (streamInit nucaddr nucChecksum chunkid) (σ.arrival 0 c) = some (s, o) ∧
      o.finished = true ∧ ackCode o.ack = 0 ∧ Summed σ 0 [] (c :: cs) s := by
  have htotal : 0 + (content (c :: cs)).length = (content σ.chunks).length := by
    rw [hchunks, Nat.zero_add]
  obtain ⟨s, o, haccept, hfinished, hack, hsum⟩ :=
    accept_completing (s := firstState nucaddr nucChecksum chunkid σ c) (k := 0)
      (pooled_init 4096) (firstState_numbered nucaddr nucChecksum chunkid c _) rfl rfl
      (firstState_recvbytes nucaddr nucChecksum chunkid c) htotal hne hlast
  exact ⟨s, o, (streamProcess_firstState nucaddr nucChecksum chunkid c).trans haccept, hfinished,
    hack, summed_last hne hlast hsum⟩

theorem first_collecting (hchunks : σ.chunks = c :: cs) (hne : c.val ≠ [])
    (hmore : content cs ≠ []) :
    ∃ s o, streamProcess (streamInit nucaddr nucChecksum chunkid) (σ.arrival 0 c) = some (s, o) ∧
      o.finished = false ∧
      Collecting σ s 1 (0 + c.val.length) (kept [] c.val.length ++ c.val) ∧
      s.nucChecksum = mergeSum σ.media 0 (spilled [] c.val.length) := by
  have htotal : 0 + (content (c :: cs)).length = (content σ.chunks).length := by
    rw [hchunks, Nat.zero_add]
  obtain ⟨s, o, haccept, hfinished, hcollecting, hsum⟩ :=
    accept_collecting (s := firstState nucaddr nucChecksum chunkid σ c) (k := 0)
      (pooled_init 4096) (firstState_numbered nucaddr nucChecksum chunkid c _) rfl rfl rfl
      (firstState_recvbytes nucaddr nucChecksum chunkid c) htotal (by decide) hne hmore
  exact ⟨s, o, (streamProcess_firstState nucaddr nucChecksum chunkid c).trans haccept, hfinished,
    hcollecting, hsum⟩

theorem rest_countable (hchunks : σ.chunks = c :: cs) :
    0 + c.val.length + (content cs).length = (content σ.chunks).length ∧
      1 + cs.length ≤ 65536 := by
  have hcount := σ.countable
  rw [hchunks, List.length_cons] at hcount
  rw [hchunks, content_cons, List.length_append]
  omega

/-- **A stream is completed with code zero**, when it is. -/
theorem stream_completed (h : Completes σ) :
    ∃ s o, completion (streamInit nucaddr nucChecksum chunkid) (σ.delivery 0 σ.chunks) =
        some (s, o) ∧ ackCode o.ack = 0 ∧ Summed σ 0 [] σ.chunks s := by
  obtain ⟨hun, hnamed⟩ := h
  rcases hchunks : σ.chunks with _ | ⟨c, cs⟩
  · rw [hchunks] at hun
    exact hun.elim
  · rw [hchunks] at hun hnamed
    by_cases hlast : content cs = []
    · obtain ⟨s, o, hprocess, hfinished, hack, hsummed⟩ :=
        first_completing nucaddr nucChecksum chunkid hchunks hun.1 hlast
      exact ⟨s, o, completion_last hprocess hfinished, hack, hsummed⟩
    · obtain ⟨s₁, o₁, hprocess, hfinished, h₁, hsum⟩ :=
        first_collecting nucaddr nucChecksum chunkid hchunks hun.1 hlast
      obtain ⟨htotal, hcount⟩ := rest_countable hchunks
      obtain ⟨s, o, hcompletion, hack, hsummed⟩ :=
        completion_unbroken (hnamed.resolve_right hlast) cs h₁ htotal hcount
          (hun.2.resolve_left hlast)
      exact ⟨s, o, (completion_more hprocess hfinished).trans hcompletion, hack,
        summed_more hun.1 hsum hsummed⟩

/-- Otherwise it is not completed. -/
theorem stream_not_completed (h : ¬Completes σ) :
    completion (streamInit nucaddr nucChecksum chunkid) (σ.delivery 0 σ.chunks) = none := by
  unfold Completes at h
  rcases hchunks : σ.chunks with _ | ⟨c, cs⟩
  · rfl
  · rw [hchunks] at h
    by_cases hne : c.val = []
    · exact completion_none
        ((streamProcess_firstState nucaddr nucChecksum chunkid c).trans (accept_nil hne))
    · have hmore : content cs ≠ [] := fun hlast => h ⟨⟨hne, .inl hlast⟩, .inr hlast⟩
      obtain ⟨s₁, o₁, hprocess, hfinished, h₁, -⟩ :=
        first_collecting nucaddr nucChecksum chunkid hchunks hne hmore
      obtain ⟨htotal, hcount⟩ := rest_countable hchunks
      refine (completion_more hprocess hfinished).trans ?_
      by_cases hid : σ.id = 0
      · exact completion_unnamed hid cs (h₁.id.trans hid) Nat.zero_lt_one hcount
      · exact completion_broken hid cs h₁ htotal hcount
          fun hun => h ⟨⟨hne, .inr hun⟩, .inl hid⟩

theorem completion_some
    (h : completion (streamInit nucaddr nucChecksum chunkid) (σ.delivery 0 σ.chunks) =
      some (s, o)) : Completes σ ∧ ackCode o.ack = 0 ∧ Summed σ 0 [] σ.chunks s := by
  have hcompletes : Completes σ := by
    by_contra hnot
    rw [stream_not_completed nucaddr nucChecksum chunkid hnot] at h
    exact absurd h (by simp)
  obtain ⟨s', o', h', hack, hsummed⟩ := stream_completed nucaddr nucChecksum chunkid hcompletes
  rw [h', Option.some.injEq, Prod.mk.injEq] at h
  obtain ⟨rfl, rfl⟩ := h
  exact ⟨hcompletes, hack, hsummed⟩

end Awoke.Cmder
