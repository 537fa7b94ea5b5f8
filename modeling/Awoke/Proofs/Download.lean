/-
A download gives back what was cut into chunks.

A server is honest about a content when it answers the request for a chunk with that chunk,
behind a head that says how many there are.  `Gathered` is what the queue holds on the way:
the chunks so far, each with its index as its priority.  The queue is full after the last
one, and taking them out by their priorities puts them in order again.

So a file is what was cut.  A content that is merged in memory is not: the chunk it is
written to is whatever lies there, and one that is full takes no byte.
-/
import Awoke.Mtk.Download
import Awoke.Proofs.Buffer
import Awoke.Proofs.Litetalk
import Awoke.Proofs.Minpq
import Mathlib.Tactic.ByContra

namespace Awoke.Mtk

/-! ### What a download should do -/

/-- A content that is cut into chunks, none of them empty. -/
structure Split where
  chunks : List (List UInt8)
  nonempty : chunks ≠ []
  pieces : ∀ chunk ∈ chunks, chunk ≠ []

/-- What was cut. -/
def Split.content (split : Split) : List UInt8 := split.chunks.flatten

/-- A response with one of the chunks: the code 0, the rest of the head, and the bytes. -/
def Split.Carries (split : Split) (m : ChunkResponse) (chunk : List UInt8) : Prop :=
  ∃ (chunknum : UInt16) (totalsize : UInt32) (crc : UInt16),
    chunknum.toNat = split.chunks.length ∧ totalsize.toNat = split.content.length ∧
      m.len.toNat = 9 + chunk.length ∧
      Cells.slice m.data 0 (9 + chunk.length) =
        0 :: (pushHtons chunknum ++ pushHtonl totalsize ++ pushHtons crc ++ chunk)

/-- Every request for a chunk is answered with the one it asks for. -/
def Honest (server : ChunkRequest → ChunkResponse) (fileid : UInt32) (split : Split) : Prop :=
  ∀ (i : Nat) (hi : i < split.chunks.length),
    split.Carries (server { fileid := fileid, index := UInt16.ofNat i }) split.chunks[i]

/-- What is downloaded: to a file, or to memory. -/
inductive Wanted
  | file (filepath : Option (List UInt8)) (fileid : UInt32)
  | buff

/-- The chunkinfo a download begins with. -/
def Wanted.info : Wanted → DownloadInfo
  | .file filepath fileid => mtkVoicefileRecv filepath fileid
  | .buff => mtkVoicebuffRecv

/-- The merged output. -/
def Wanted.output : Wanted → Download → Option (List UInt8)
  | .file _ _, s => s.file
  | .buff, s => s.ci.buffout.map Buffchunk.contents

/-- A file whose path fits where it is copied. -/
def Wanted.Merges : Wanted → Prop
  | .file filepath _ => (filepath.getD []).length < 32
  | .buff => False

/-- The requests for the first `n` chunks. -/
def requests (fileid : UInt32) (n : Nat) : List ChunkRequest :=
  (List.range n).map fun i => { fileid := fileid, index := UInt16.ofNat i }

/-- The chunks are asked for in order, the session is in state FIN after the last one and not
before, and the output is the content. -/
structure Delivers (mem : Buffchunk) (server : ChunkRequest → ChunkResponse) (w : Wanted)
    (split : Split) (start : Download) : Prop where
  running : ∀ k < split.chunks.length, ∃ s,
    session mem server k start = some (requests w.info.fileid k, .running s)
  fin : ∃ s, session mem server split.chunks.length start =
    some (requests w.info.fileid split.chunks.length, .fin s) ∧ w.output s = some split.content

/-! ### Responses -/

variable {split : Split} {m : ChunkResponse} {chunk : List UInt8}

theorem pushHtons_inj {x y : UInt16} (h : pushHtons x = pushHtons y) : x = y := by
  obtain ⟨hhigh, hlow⟩ : (x >>> 8).toUInt8 = (y >>> 8).toUInt8 ∧ x.toUInt8 = y.toUInt8 := by
    simpa [pushHtons] using h
  rw [← UInt8.toNat_inj] at hhigh hlow
  simp only [UInt16.toNat_toUInt8, UInt16.toNat_shiftRight, Nat.shiftRight_eq_div_pow,
    UInt16.reduceToNat, Nat.reduceMod, Nat.reducePow] at hhigh hlow
  have hx := x.toNat_lt
  have hy := y.toNat_lt
  rw [← UInt16.toNat_inj]
  omega

/-- What the code reads of the head, and of the chunk behind it. -/
theorem Split.Carries.head (h : split.Carries m chunk) :
    m.data 0 = 0 ∧ (htons (pullWord m.data 1)).toNat = split.chunks.length ∧
      (m.len - 9).toNat = chunk.length ∧ chunk.length ≤ 65526 ∧
      Cells.slice m.data 9 chunk.length = chunk := by
  obtain ⟨chunknum, totalsize, crc, hnum, -, hlen, hslice⟩ := h
  have hbound := m.len.toNat_lt
  rw [Cells.slice_add] at hslice
  obtain ⟨hhead, hchunk⟩ := List.append_inj
    (show _ ++ _ = (0 :: (pushHtons chunknum ++ pushHtonl totalsize ++ pushHtons crc)) ++ chunk
      from hslice) (by simp [pushHtons, pushHtonl])
  simp only [Cells.slice_succ, pushHtons, pushHtonl, List.cons_append, List.cons.injEq] at hhead
  obtain ⟨hcode, hhigh, hlow, -⟩ := hhead
  refine ⟨hcode, ?_, ?_, by omega, hchunk⟩
  · have hword : htons (pullWord m.data 1) = chunknum := by
      refine pushHtons_inj ?_
      rw [pushHtons_htons_pullWord, pushHtons, ← hhigh, ← hlow]
      rfl
    rw [hword, hnum]
  · rw [UInt16.toNat_sub_of_le _ _ (by rw [UInt16.le_iff_toNat_le]; simp [hlen]), hlen]
    simp

/-- The chunk that is made of a response. -/
theorem Split.Carries.chunk_made (h : split.Carries m chunk) (hne : chunk ≠ []) (id : UInt16) :
    ∃ made, Buffchunk.create id ((m.len - 9).toNat : Int) = (some made, id + 1) ∧
      (made.write (Cells.slice m.data 9 (m.len - 9).toNat) false).1 = .etOk ∧
      (made.write (Cells.slice m.data 9 (m.len - 9).toNat) false).2.contents = chunk := by
  obtain ⟨-, -, hlen, hbound, hslice⟩ := h.head
  have hpos := List.length_pos_iff.mpr hne
  rw [hlen, hslice]
  refine ⟨{ id := id, p := fun _ => 0, size := chunk.length, length := 0 }, ?_, ?_, ?_⟩
  · have hlimit : ¬((chunk.length : Int) ≤ 0 ∨ Buffchunk.limit < chunk.length) := by
      rw [Buffchunk.limit]
      omega
    rw [Buffchunk.create, if_neg hlimit]
  · rw [Buffchunk.write_eq hne (by simp [Buffchunk.remain])]
  · rw [(Buffchunk.write_fits (Int.le_refl 0) hne (by simp [Buffchunk.remain]) false).1]
    rfl

/-! ### The queue -/

/-- The chunk `i`, with its index as its priority. -/
def Split.numbered (split : Split) (i : Nat) : List UInt8 × Int32 :=
  (split.chunks.getD i [], Int32.ofNat i)

theorem Split.numbered_of_lt {split : Split} {i : Nat} (hi : i < split.chunks.length) :
    split.numbered i = (split.chunks[i], Int32.ofNat i) := by
  rw [Split.numbered, List.getD_eq_getElem?_getD, List.getElem?_eq_getElem hi]
  rfl

/-- What a node of the queue stands for. -/
def piece (x : Buffchunk × Int32) : List UInt8 × Int32 := (x.1.contents, x.2)

/-- The queue has room for all chunks, and holds the first `k`. -/
def Split.Gathered (split : Split) (k : Nat) (q : Minpq Buffchunk) : Prop :=
  ∃ flags s, Minpq.Bounded split.chunks.length none flags q s ∧
    s.map piece = ((List.range k).map split.numbered : List (List UInt8 × Int32))

variable {k : Nat} {q : Minpq Buffchunk}

theorem priorities_total :
    BinHeap.TotalPreorder (Minpq.order (none : Option (Buffchunk → Buffchunk → Bool))) :=
  Minpq.order_total fun _ h => nomatch h

theorem Split.Gathered.card_eq {s : Multiset (Buffchunk × Int32)}
    (h : s.map piece = ((List.range k).map split.numbered : List (List UInt8 × Int32))) :
    s.card = k := by
  rw [← Multiset.card_map piece, h, Multiset.coe_card, List.length_map, List.length_range]

theorem Split.Gathered.full_iff (h : split.Gathered k q) :
    q.full = true ↔ split.chunks.length = k := by
  obtain ⟨flags, s, hq, hs⟩ := h
  rw [hq.toHolds.full_iff, hq.capacity_eq, Split.Gathered.card_eq hs]

theorem Split.create_gathered (split : Split) :
    ∃ q : Minpq Buffchunk,
      Minpq.create (split.chunks.length : Int) none 0 = some q ∧ split.Gathered 0 q := by
  have hpos : 0 < split.chunks.length := List.length_pos_iff.mpr split.nonempty
  have hcreate : ∃ q : Minpq Buffchunk,
      Minpq.create (split.chunks.length : Int) none 0 = some q := by
    rw [Minpq.create, if_neg (by decide), if_neg (by omega)]
    exact ⟨_, rfl⟩
  obtain ⟨q, hq⟩ := hcreate
  obtain ⟨hholds, hcapacity, hflags⟩ := Minpq.create_holds hq
  refine ⟨q, hq, q.flags, 0, ⟨hholds, by omega, ?_⟩, rfl⟩
  rw [hflags, decide_eq_false (by omega)]
  rfl

/-- The next chunk goes in. -/
theorem Split.Gathered.insert (h : split.Gathered k q) (hk : k < split.chunks.length)
    {chunk : Buffchunk} (hchunk : chunk.contents = split.chunks[k]) :
    ∃ q', q.insert chunk (Int32.ofNat k) = some (.etOk, q') ∧ split.Gathered (k + 1) q' := by
  obtain ⟨flags, s, hq, hs⟩ := h
  obtain ⟨q', out, s', hcall, hspec, hq'⟩ :=
    hq.insert priorities_total chunk (Int32.ofNat k)
  have hroom : ¬some split.chunks.length = some s.card := by
    rw [Option.some.injEq, Split.Gathered.card_eq hs]
    omega
  obtain ⟨rfl, rfl⟩ := (show out = _ ∧ s' = _ from (if_neg hroom).mp hspec)
  obtain ⟨r, hr, heq⟩ := Option.map_eq_some_iff.mp hcall
  obtain ⟨hq'_eq, hcode⟩ := Prod.mk.inj heq
  refine ⟨q', ?_, flags, _, hq', ?_⟩
  · rw [hr, ← hq'_eq, ← (Prod.mk.inj hcode).1]
  · rw [Multiset.map_cons, hs, List.range_succ, List.map_append, ← Multiset.coe_add, add_comm]
    have hlast : piece (chunk, Int32.ofNat k) = split.numbered k := by
      rw [piece, Split.numbered_of_lt hk, hchunk]
    rw [hlast]
    rfl

/-- Chunks that come out by their priorities are in order. -/
theorem Split.drained (hsize : split.chunks.length < 2 ^ 16)
    {s : Multiset (Buffchunk × Int32)} {xs : List (Buffchunk × Int32)}
    (hs : s.map piece =
      ((List.range split.chunks.length).map split.numbered : List (List UInt8 × Int32)))
    (hdrains : BinHeap.Drains (Minpq.order none) s xs) :
    xs.map (fun x => x.1.contents) = split.chunks := by
  have hinj : ∀ i j, i < split.chunks.length → j < split.chunks.length →
      Int32.ofNat i ≤ Int32.ofNat j → i ≤ j := by
    intro i j hi hj hle
    rw [Int32.le_iff_toInt_le, Int32.toInt_ofNat_of_lt (by omega),
      Int32.toInt_ofNat_of_lt (by omega)] at hle
    omega
  have hperm : (xs.map piece).Perm ((List.range split.chunks.length).map split.numbered) := by
    rw [← Multiset.coe_eq_coe, ← hs, ← hdrains.perm, Multiset.map_coe]
  have heq : xs.map piece = (List.range split.chunks.length).map split.numbered := by
    refine @List.Perm.eq_of_pairwise _ (fun x y : List UInt8 × Int32 => x.2 ≤ y.2) _ _ ?_ ?_ ?_
      hperm
    · intro a b ha hb hab hba
      obtain ⟨i, hi, rfl⟩ := List.mem_map.mp (hperm.subset ha)
      obtain ⟨j, hj, rfl⟩ := List.mem_map.mp hb
      rw [List.mem_range] at hi hj
      rw [Nat.le_antisymm (hinj i j hi hj hab) (hinj j i hj hi hba)]
    · rw [List.pairwise_map]
      refine hdrains.sorted.imp fun hxy => ?_
      exact Int32.not_lt.mp (of_decide_eq_false hxy)
    · rw [List.pairwise_map]
      refine List.pairwise_lt_range.imp_of_mem fun hi hj hlt => ?_
      rw [List.mem_range] at hi hj
      show Int32.ofNat _ ≤ Int32.ofNat _
      rw [Int32.le_iff_toInt_le, Int32.toInt_ofNat_of_lt (by omega),
        Int32.toInt_ofNat_of_lt (by omega)]
      omega
  have hcontents : xs.map (fun x => x.1.contents) = (xs.map piece).map Prod.fst := by
    rw [List.map_map]
    rfl
  rw [hcontents, heq, List.map_map]
  refine List.ext_getElem (by simp) fun i hi hi' => ?_
  rw [List.getElem_map, List.getElem_range, Function.comp_apply, Split.numbered_of_lt hi']

/-! ### Merging -/

/-- The loop writes the chunks one after the other as they come out. -/
theorem filchunkLoop_eq {flags : BitVec 16} {capacity : Nat} :
    ∀ (n : Nat) (q : Minpq Buffchunk) (s : Multiset (Buffchunk × Int32)) (file : List UInt8),
      s.card = n → Minpq.Bounded capacity none flags q s →
        (∀ x ∈ s, x.1.contents ≠ []) →
          ∃ xs q', filchunkLoop n q file =
              some (.etOk, file ++ (xs.map fun x => x.1.contents).flatten, q') ∧
            BinHeap.Drains (Minpq.order none) s xs := by
  intro n
  induction n with
  | zero =>
      intro q s file hcard hq _
      have hs := Multiset.card_eq_zero.mp hcard
      refine ⟨[], q, ?_, hs ▸ .nil⟩
      rw [filchunkLoop, if_pos (hq.toHolds.empty_iff.mpr hs)]
      simp
  | succ n ih =>
      intro q s file hcard hq hne
      have hempty : ¬q.empty = true := by
        rw [hq.toHolds.empty_iff, ← Multiset.card_eq_zero, hcard]
        omega
      obtain ⟨rest, q', rfl, hmin, hpop, hq'⟩ :=
        hq.pop priorities_total (Bool.eq_false_iff.mpr hempty)
      rw [Multiset.card_cons, Nat.succ_inj] at hcard
      obtain ⟨xs, q'', hloop, hdrains⟩ := ih q' rest (file ++ (q.entry 1).1.contents) hcard hq'
        fun x hx => hne x (Multiset.mem_cons_of_mem hx)
      have hlength : ¬(q.entry 1).1.length ≤ 0 := by
        intro hle
        refine hne _ (Multiset.mem_cons_self _ _) ?_
        rw [Buffchunk.contents, Int.toNat_of_nonpos hle]
        rfl
      refine ⟨q.entry 1 :: xs, q'', ?_, .cons hmin hdrains⟩
      rw [filchunkLoop, if_neg hempty, hpop]
      simp only [Option.bind_some]
      rw [if_neg hlength, hloop]
      simp

/-- A file gets the content. -/
theorem Split.Gathered.file_eq (h : split.Gathered split.chunks.length q)
    (hsize : split.chunks.length < 2 ^ 16) :
    ∃ q', filchunkLoop q.nodeNr q [] = some (.etOk, split.content, q') := by
  obtain ⟨flags, s, hq, hs⟩ := h
  have hne : ∀ x ∈ s, x.1.contents ≠ [] := by
    intro x hx
    have hmem := Multiset.mem_map_of_mem piece hx
    rw [hs, Multiset.mem_coe] at hmem
    obtain ⟨i, hi, heq⟩ := List.mem_map.mp hmem
    rw [Split.numbered_of_lt (List.mem_range.mp hi)] at heq
    rw [← (Prod.mk.inj heq).1]
    exact split.pieces _ (List.getElem_mem _)
  obtain ⟨xs, q', hloop, hdrains⟩ :=
    filchunkLoop_eq q.nodeNr q s [] (hq.toHolds.card_eq) hq hne
  refine ⟨q', ?_⟩
  rw [hloop, Split.drained hsize hs hdrains]
  rfl

/-- A chunk that is full takes nothing. -/
theorem buffchunkLoop_full {flags : BitVec 16} {capacity : Nat} {out : Buffchunk}
    (hfull : out.remain = 0) :
    ∀ (n : Nat) (q : Minpq Buffchunk) (s : Multiset (Buffchunk × Int32)),
      s.card = n → Minpq.Bounded capacity none flags q s →
        ∃ q', buffchunkLoop n q out = some (out, q') := by
  intro n
  induction n with
  | zero =>
      intro q s hcard hq
      refine ⟨q, ?_⟩
      rw [buffchunkLoop, if_pos (hq.toHolds.empty_iff.mpr (Multiset.card_eq_zero.mp hcard))]
  | succ n ih =>
      intro q s hcard hq
      have hempty : ¬q.empty = true := by
        rw [hq.toHolds.empty_iff, ← Multiset.card_eq_zero, hcard]
        omega
      obtain ⟨rest, q', rfl, -, hpop, hq'⟩ :=
        hq.pop priorities_total (Bool.eq_false_iff.mpr hempty)
      rw [Multiset.card_cons, Nat.succ_inj] at hcard
      obtain ⟨q'', hloop⟩ := ih q' rest hcard hq'
      have hwrite : (out.write (q.entry 1).1.contents true).2 = out := by
        rw [Buffchunk.write, if_pos hfull]
        split <;> rfl
      refine ⟨q'', ?_⟩
      rw [buffchunkLoop, if_neg hempty, hpop]
      simp only [Option.bind_some]
      rw [hwrite, hloop]

/-! ### A session -/

/-- The state after the first `k` exchanges, before the last one. -/
structure Waiting (w : Wanted) (split : Split) (k : Nat) (s : Download) : Prop where
  fileid : s.ci.fileid = w.info.fileid
  filepath : s.ci.filepath = w.info.filepath
  type : s.ci.type = w.info.type
  index : s.ci.index = UInt16.ofNat k
  queue : k = 0 ∧ s.ci.chunkPq = none ∨ ∃ q, s.ci.chunkPq = some q ∧ split.Gathered k q

theorem Waiting.start (w : Wanted) (split : Split) (file : Option (List UInt8))
    (nextId : UInt16) : Waiting w split 0 { ci := w.info, file := file, nextId := nextId } := by
  cases w <;> exact ⟨rfl, rfl, rfl, rfl, .inl ⟨rfl, rfl⟩⟩

variable {w : Wanted} {s : Download} {server : ChunkRequest → ChunkResponse}

theorem Waiting.openQueue (h : Waiting w split k s) (hm : split.Carries m chunk) :
    ∃ ci q, openQueue s.ci m.data = some (ci, q) ∧ split.Gathered k q ∧
      ci.fileid = s.ci.fileid ∧ ci.filepath = s.ci.filepath ∧ ci.type = s.ci.type ∧
      ci.index = s.ci.index := by
  rcases h.queue with ⟨rfl, hnone⟩ | ⟨q, hsome, hq⟩
  · obtain ⟨q, hcreate, hq⟩ := split.create_gathered
    rw [Mtk.openQueue, hnone]
    simp only [hm.head.2.1, hcreate]
    exact ⟨_, q, rfl, hq, rfl, rfl, rfl, rfl⟩
  · rw [Mtk.openQueue, hsome]
    exact ⟨_, q, rfl, hq, rfl, rfl, rfl, rfl⟩

/-- One exchange.  Before the last chunk the next one is asked for; after it the chunks are
merged. -/
theorem Waiting.exchange (mem : Buffchunk) (h : Waiting w split k s)
    (hk : k < split.chunks.length) (hm : split.Carries m split.chunks[k]) :
    (k + 1 < split.chunks.length →
      ∃ s', chunkrecvResponse mem s m = some (.again s') ∧ Waiting w split (k + 1) s') ∧
    (k + 1 = split.chunks.length →
      ∃ s' q, split.Gathered split.chunks.length q ∧ s'.ci.filepath = w.info.filepath ∧
        s'.ci.type = w.info.type ∧
        chunkrecvResponse mem s m = (mtkChunkdataMerge mem s' q).map fun r =>
          if r.1 = .etOk then .fin r.2 else .failed r.1) := by
  obtain ⟨ci, q, hopen, hq, hfileid, hfilepath, htype, hindex⟩ := h.openQueue hm
  obtain ⟨made, hcreate, hcode, hcontents⟩ :=
    hm.chunk_made (split.pieces _ (List.getElem_mem hk)) s.nextId
  obtain ⟨q', hinsert, hq'⟩ := hq.insert hk hcontents
  have hnum := hm.head.2.1
  have hsize : split.chunks.length < 2 ^ 16 := hnum ▸ UInt16.toNat_lt _
  have hroom : ¬q.full = true := by
    rw [hq.full_iff]
    omega
  have hprio : Int32.ofNat ci.index.toNat = Int32.ofNat k := by
    rw [hindex, h.index, UInt16.toNat_ofNat_of_lt' (hk.trans hsize)]
  have hresponse : chunkrecvResponse mem s m =
      takeChunk mem { s with ci := ci, nextId := s.nextId + 1 } q
        (made.write (Cells.slice m.data 9 (m.len - 9).toNat) false).2 := by
    rw [chunkrecvResponse, if_neg (not_not.mpr hm.head.1), hopen]
    simp only [hroom, hcreate, hcode, if_true, if_false, Bool.false_eq_true]
  rw [hresponse, takeChunk]
  simp only [hprio, hinsert, Option.bind_some]
  refine ⟨fun hlast => ?_, fun hlast => ?_⟩
  · have hroom' : ¬q'.full = true := by
      rw [hq'.full_iff]
      omega
    rw [if_neg hroom']
    refine ⟨_, rfl, hfileid.trans h.fileid, hfilepath.trans h.filepath, htype.trans h.type, ?_,
      .inr ⟨q', rfl, hq'⟩⟩
    show ci.index + 1 = _
    rw [hindex, h.index, UInt16.ofNat_add]
    rfl
  · rw [if_pos (hq'.full_iff.mpr hlast.symm)]
    exact ⟨_, q', hlast ▸ hq', hfilepath.trans h.filepath, htype.trans h.type, rfl⟩

/-- A session that goes on. -/
theorem session_add (mem : Buffchunk) (n : Nat) :
    ∀ (k : Nat) (s s' : Download) (rs : List ChunkRequest),
      session mem server k s = some (rs, .running s') →
        session mem server (k + n) s = (session mem server n s').map fun r => (rs ++ r.1, r.2) := by
  intro k
  induction k with
  | zero =>
      intro s s' rs h
      obtain ⟨rfl, hs⟩ := Prod.mk.inj (Option.some.inj h)
      rw [Session.running.inj hs, Nat.zero_add]
      simp
  | succ k ih =>
      intro s s' rs h
      rw [Nat.add_right_comm, session]
      rw [session] at h
      cases hr : chunkrecvResponse mem s (server (chunkrecvRequest s.ci)) with
      | none => rw [hr] at h; simp at h
      | some p =>
          rw [hr] at h
          cases p with
          | again s₁ =>
              simp only [Option.bind_some] at h ⊢
              obtain ⟨r, hrest, heq⟩ := Option.map_eq_some_iff.mp h
              obtain ⟨rfl, hrun⟩ := Prod.mk.inj heq
              rw [ih s₁ s' r.1 (by rw [hrest, ← hrun]), Option.map_map]
              rfl
          | fin s₁ => simp at h
          | failed code => simp at h

theorem requests_succ (fileid : UInt32) (n : Nat) :
    requests fileid (n + 1) =
      requests fileid n ++ [{ fileid := fileid, index := UInt16.ofNat n }] := by
  rw [requests, List.range_succ, List.map_append]
  rfl

theorem Waiting.request (h : Waiting w split k s) :
    chunkrecvRequest s.ci = { fileid := w.info.fileid, index := UInt16.ofNat k } := by
  rw [chunkrecvRequest, h.fileid, h.index]

/-- The run of a session up to its last exchange. -/
theorem Waiting.run (mem : Buffchunk) (hserver : Honest server w.info.fileid split)
    {start : Download} (hstart : Waiting w split 0 start) :
    ∀ k, k < split.chunks.length →
      ∃ s, session mem server k start = some (requests w.info.fileid k, .running s) ∧
        Waiting w split k s := by
  intro k
  induction k with
  | zero => exact fun _ => ⟨start, rfl, hstart⟩
  | succ k ih =>
      intro hk
      obtain ⟨s, hsession, hs⟩ := ih (by omega)
      obtain ⟨s', hresponse, hs'⟩ :=
        (hs.exchange mem (by omega) (hserver k (by omega))).1 hk
      refine ⟨s', ?_, hs'⟩
      rw [session_add mem 1 k start s _ hsession, session, hs.request, hresponse, requests_succ]
      rfl

/-- The last exchange. -/
theorem Waiting.last (mem : Buffchunk) (hserver : Honest server w.info.fileid split)
    {start : Download} (hstart : Waiting w split 0 start) :
    ∃ s q, split.Gathered split.chunks.length q ∧ s.ci.filepath = w.info.filepath ∧
      s.ci.type = w.info.type ∧
      session mem server split.chunks.length start =
        (mtkChunkdataMerge mem s q).map fun r =>
          (requests w.info.fileid split.chunks.length,
            if r.1 = .etOk then .fin r.2 else .failed r.1) := by
  have hpos : 0 < split.chunks.length := List.length_pos_iff.mpr split.nonempty
  obtain ⟨k, hk⟩ : ∃ k, split.chunks.length = k + 1 := ⟨_, (Nat.sub_add_cancel hpos).symm⟩
  obtain ⟨s, hsession, hs⟩ := hstart.run mem hserver k (by omega)
  obtain ⟨s', q, hq, hfilepath, htype, hresponse⟩ :=
    (hs.exchange mem (by omega) (hserver k (by omega))).2 hk.symm
  refine ⟨s', q, hq, hfilepath, htype, ?_⟩
  rw [hk, session_add mem 1 k start s _ hsession, session, hs.request, hresponse, requests_succ,
    Option.bind_map, Option.map_bind]
  cases mtkChunkdataMerge mem s' q with
  | none => rfl
  | some r =>
      simp only [Option.bind_some, Function.comp_apply, Option.map_some]
      by_cases hok : r.1 = .etOk
      · rw [if_pos hok, if_pos hok]
        rfl
      · rw [if_neg hok, if_neg hok]
        rfl

/-! ### The whole -/

theorem Split.content_ne_nil (split : Split) : split.content ≠ [] := by
  intro hnil
  obtain ⟨chunk, hchunk⟩ := List.exists_mem_of_ne_nil _ split.nonempty
  exact split.pieces chunk hchunk (List.flatten_eq_nil_iff.mp hnil chunk hchunk)

/-- A file is delivered exactly when its path fits. -/
theorem delivers_file_iff (mem : Buffchunk) {filepath : Option (List UInt8)} {fileid : UInt32}
    (hserver : Honest server fileid split) (file : Option (List UInt8)) (nextId : UInt16) :
    Delivers mem server (.file filepath fileid) split
        { ci := mtkVoicefileRecv filepath fileid, file := file, nextId := nextId } ↔
      (filepath.getD []).length < 32 := by
  have hstart := Waiting.start (.file filepath fileid) split file nextId
  obtain ⟨s, q, hq, hfilepath, htype, hlast⟩ := hstart.last mem hserver
  have hmerge : mtkChunkdataMerge mem s q = mtkFilchunkMerge s q := if_pos htype
  rw [hmerge, mtkFilchunkMerge, show s.ci.filepath = filepath from hfilepath] at hlast
  refine ⟨fun h => ?_, fun hpath => ⟨fun k hk => ?_, ?_⟩⟩
  · obtain ⟨s', hfin, -⟩ := h.fin
    by_contra hlong
    rw [if_neg hlong] at hlast
    exact nomatch hlast.symm.trans hfin
  · obtain ⟨s', hsession, -⟩ := hstart.run mem hserver k hk
    exact ⟨s', hsession⟩
  · have hsize : split.chunks.length < 2 ^ 16 := by
      rw [← (hserver 0 (List.length_pos_iff.mpr split.nonempty)).head.2.1]
      exact UInt16.toNat_lt _
    obtain ⟨q', hfile⟩ := hq.file_eq hsize
    rw [if_pos hpath, hfile] at hlast
    exact ⟨_, hlast, rfl⟩

/-- Nothing is delivered through a chunk whose fields are zero. -/
theorem not_delivers_buff (hserver : Honest server 1 split) (file : Option (List UInt8))
    (nextId : UInt16) :
    ¬Delivers 0 server .buff split { ci := mtkVoicebuffRecv, file := file, nextId := nextId } := by
  intro h
  obtain ⟨s', hfin, hout⟩ := h.fin
  obtain ⟨s, q, ⟨flags, held, hq, -⟩, -, htype, hlast⟩ :=
    (Waiting.start .buff split file nextId).last 0 hserver
  have hmerge : mtkChunkdataMerge 0 s q = mtkBuffchunkMerge 0 s q := by
    rw [mtkChunkdataMerge, htype]
    exact (if_neg (by decide)).trans (if_pos rfl)
  rw [hmerge, mtkBuffchunkMerge] at hlast
  by_cases hzero : s.ci.totalsize = 0
  · rw [if_pos hzero] at hlast
    exact nomatch hlast.symm.trans hfin
  · have hfull : (0 : Buffchunk).remain = 0 := rfl
    obtain ⟨q', hloop⟩ := buffchunkLoop_full hfull q.nodeNr q held hq.toHolds.card_eq hq
    rw [if_neg hzero, hloop] at hlast
    have hs : s' = { s with ci := { s.ci with chunkPq := some q', buffout := some 0 } } :=
      Session.fin.inj (Prod.mk.inj (Option.some.inj (hfin.symm.trans hlast))).2
    rw [hs] at hout
    exact split.content_ne_nil (Option.some.inj hout).symm

/-- **A download delivers the content, whatever lies in memory, exactly when it goes to a file**
whose path fits where it is copied. -/
theorem download_delivers_iff (w : Wanted) (split : Split)
    {server : ChunkRequest → ChunkResponse} (hserver : Honest server w.info.fileid split)
    (file : Option (List UInt8)) (nextId : UInt16) :
    (∀ mem, Delivers mem server w split { ci := w.info, file := file, nextId := nextId }) ↔
      w.Merges := by
  cases w with
  | file filepath fileid =>
      refine ⟨fun h => ?_, fun hpath mem => ?_⟩
      · exact (delivers_file_iff 0 hserver file nextId).mp (h 0)
      · exact (delivers_file_iff mem hserver file nextId).mpr hpath
  | buff => exact ⟨fun h => not_delivers_buff hserver file nextId (h 0), False.elim⟩

/-- Two chunks of three bytes. -/
def twoChunks : Split := ⟨[[7], [8, 9]], by decide, by decide⟩

/-- A server that answers every request with the chunk it asks for. -/
def twoChunksServer (req : ChunkRequest) : ChunkResponse :=
  if req.index = 0 then
    { data := Cells.write (fun _ => 0) 0 [0, 0, 2, 0, 0, 0, 3, 0, 0, 7], len := 10 }
  else { data := Cells.write (fun _ => 0) 0 [0, 0, 2, 0, 0, 0, 3, 0, 0, 8, 9], len := 11 }

theorem twoChunksServer_honest (fileid : UInt32) : Honest twoChunksServer fileid twoChunks := by
  intro i hi
  have htwo : i = 0 ∨ i = 1 := by
    have : i < 2 := hi
    omega
  rcases htwo with rfl | rfl
  · exact ⟨2, 3, 0, rfl, rfl, rfl, rfl⟩
  · exact ⟨2, 3, 0, rfl, rfl, rfl, rfl⟩

/-- They come to the file `/a`. -/
theorem download_delivers_iff_file :
    (Wanted.file (some [47, 97]) 3).Merges ∧
      ∀ mem, Delivers mem twoChunksServer (.file (some [47, 97]) 3) twoChunks
        { ci := mtkVoicefileRecv (some [47, 97]) 3, file := none, nextId := 0 } := by
  have hpath : (Wanted.file (some [47, 97]) 3).Merges := by
    show 2 < 32
    decide
  exact ⟨hpath, (download_delivers_iff (.file (some [47, 97]) 3) twoChunks
    (twoChunksServer_honest 3) none 0).mpr hpath⟩

/-- One chunk of one byte. -/
def oneByte : Split := ⟨[[7]], by decide, by decide⟩

/-- A server that answers every request with it. -/
def oneByteServer (_ : ChunkRequest) : ChunkResponse where
  data := Cells.write (fun _ => 0) 0 [0, 0, 1, 0, 0, 0, 1, 0, 0, 7]
  len := 10

theorem oneByteServer_honest (fileid : UInt32) : Honest oneByteServer fileid oneByte := by
  intro i hi
  obtain rfl : i = 0 := Nat.lt_one_iff.mp hi
  exact ⟨1, 1, 0, rfl, rfl, rfl, rfl⟩

/-- It does not come to memory. -/
theorem one_byte_lost :
    Honest oneByteServer 1 oneByte ∧
      ¬Delivers 0 oneByteServer .buff oneByte
        { ci := mtkVoicebuffRecv, file := none, nextId := 0 } :=
  ⟨oneByteServer_honest 1, not_delivers_buff (oneByteServer_honest 1) none 0⟩

end Awoke.Mtk
