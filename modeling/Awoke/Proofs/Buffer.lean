/-
A pool holds the bytes of its chunks.

`Pooled` says that a pool's numbers are those of its chunks and that the chunks, one
after the other, are the bytes `bs`.  Adding a chunk appends its bytes, unless it does
not fit or its number is taken; merging gives one chunk with all of them.
-/
import Awoke.Util.Buffer
import Mathlib.Tactic.Common

namespace Awoke

/-! ### Chunks -/

theorem Buffchunk.write_eq {chunk : Buffchunk} {data : List UInt8} (hne : data ≠ [])
    (hfits : (data.length : Int) ≤ chunk.remain) (trybest : Bool) :
    chunk.write data trybest = (.etOk, { chunk with
      p := Cells.write chunk.p chunk.length data
      length := chunk.length + data.length }) := by
  have hpos : 0 < data.length := List.length_pos_iff.mpr hne
  have hnot : ¬chunk.remain < data.length := by omega
  rw [Buffchunk.write, if_neg (by omega), if_neg (by omega), if_neg fun h => hnot h.2]
  simp only [hnot, and_false, if_false, Int.toNat_natCast, List.take_length]

theorem Buffchunk.write_fits {chunk : Buffchunk} {data : List UInt8} (hlow : 0 ≤ chunk.length)
    (hne : data ≠ []) (hfits : (data.length : Int) ≤ chunk.remain) (trybest : Bool) :
    (chunk.write data trybest).2.contents = chunk.contents ++ data ∧
      (chunk.write data trybest).2.length = chunk.length + data.length ∧
      (chunk.write data trybest).2.size = chunk.size ∧
      (chunk.write data trybest).2.id = chunk.id := by
  rw [Buffchunk.write_eq hne hfits]
  refine ⟨?_, rfl, rfl, rfl⟩
  obtain ⟨n, hn⟩ := Int.eq_ofNat_of_zero_le hlow
  have hlength : (chunk.length + data.length).toNat = n + data.length := by omega
  simp only [Buffchunk.contents, hlength]
  rw [Cells.slice_add, Int.zero_add, hn, Cells.slice_write_self,
    Cells.slice_write_before _ _ _ _ (by omega)]
  rfl

/-- A chunk that was made for some bytes and filled with them. -/
theorem Buffchunk.create_write {data : List UInt8} (hne : data ≠ [])
    (hlimit : (data.length : Int) ≤ limit) (id : UInt16) :
    ∃ chunk, Buffchunk.create id data.length = (some chunk, id + 1) ∧
      (chunk.write data true).2.contents = data ∧
      (chunk.write data true).2.length = data.length ∧
      (chunk.write data true).2.size = data.length ∧ (chunk.write data true).2.id = id := by
  have hpos : 0 < data.length := List.length_pos_iff.mpr hne
  refine ⟨{ id := id, p := fun _ => 0, size := data.length, length := 0 }, ?_, ?_⟩
  · rw [Buffchunk.create, if_neg (by omega)]
  · have hwrite := @Buffchunk.write_fits
      { id := id, p := fun _ => 0, size := data.length, length := 0 } data
      (Int.le_refl 0) hne (by simp [Buffchunk.remain]) true
    refine ⟨hwrite.1, ?_, hwrite.2.2.1, hwrite.2.2.2⟩
    rw [hwrite.2.1]
    exact Int.zero_add _

/-! ### Pools -/

/-- `pool` has room for `room` bytes and holds `bs`. -/
structure Pooled (room : Nat) (pool : BuffchunkPool) (bs : List UInt8) : Prop where
  maxsize : pool.maxsize = room
  size : pool.size = bs.length
  length : pool.length = bs.length
  chunknr : pool.chunknr = pool.chunklist.length
  chunks : (pool.chunklist.map Buffchunk.contents).flatten = bs
  filled : ∀ c ∈ pool.chunklist, 0 < c.length
  fits : bs.length ≤ room

variable {room : Nat} {pool : BuffchunkPool} {bs : List UInt8}

theorem pooled_init (room : Nat) : Pooled room (.init room) [] :=
  ⟨rfl, rfl, rfl, rfl, rfl, fun _ h => absurd h (List.not_mem_nil), Nat.zero_le _⟩

theorem Pooled.clean (h : Pooled room pool bs) : Pooled room pool.clean [] :=
  ⟨h.maxsize, rfl, rfl, rfl, rfl, fun _ hc => absurd hc (List.not_mem_nil), Nat.zero_le _⟩

theorem Buffchunk.contents_length {chunk : Buffchunk} (h : 0 ≤ chunk.length) :
    (chunk.contents.length : Int) = chunk.length := by
  rw [Buffchunk.contents, Cells.slice_length]
  exact Int.toNat_of_nonneg h

/-- A chunk that fits, with a number of its own, is appended. -/
theorem Pooled.chunkadd (h : Pooled room pool bs) {chunk : Buffchunk} {data : List UInt8}
    (hcontents : chunk.contents = data) (hlength : chunk.length = data.length)
    (hsize : chunk.size = data.length) (hne : data ≠ [])
    (hfits : bs.length + data.length ≤ room) (hfresh : ∀ c ∈ pool.chunklist, c.id ≠ chunk.id) :
    Pooled room (pool.chunkadd (some chunk)).2 (bs ++ data) := by
  have hpos : 0 < data.length := List.length_pos_iff.mpr hne
  have hany : ¬(pool.chunklist.any fun c => c.id == chunk.id) = true := by
    rw [List.any_eq_true]
    rintro ⟨c, hc, hid⟩
    exact hfresh c hc (by simpa using hid)
  rw [BuffchunkPool.chunkadd, if_neg (by rw [h.maxsize, h.size, hsize]; omega), if_neg hany]
  refine ⟨h.maxsize, ?_, ?_, ?_, ?_, ?_, ?_⟩
  · simp only [h.size, hsize, List.length_append, Int.natCast_add]
  · simp only [h.length, hlength, List.length_append, Int.natCast_add]
  · simp only [h.chunknr, List.length_append, List.length_singleton, Int.natCast_add,
      Int.natCast_one]
  · simp only [List.map_append, List.map_cons, List.map_nil, List.flatten_append,
      List.flatten_cons, List.flatten_nil, List.append_nil, h.chunks, hcontents]
  · intro c hc
    rcases List.mem_append.mp hc with hc | hc
    · exact h.filled c hc
    · rw [List.mem_singleton.mp hc, hlength]
      omega
  · rw [List.length_append]
    exact hfits

theorem Pooled.chunkadd_refused (h : Pooled room pool bs) {chunk : Buffchunk}
    (hrefused : (room : Int) < bs.length + chunk.size ∨ ∃ c ∈ pool.chunklist, c.id = chunk.id) :
    (pool.chunkadd (some chunk)).2 = pool := by
  rw [BuffchunkPool.chunkadd]
  split
  · rfl
  · rename_i hroom
    rw [h.maxsize, h.size] at hroom
    obtain ⟨c, hc, hid⟩ := hrefused.resolve_left (by omega)
    have hany : (pool.chunklist.any fun c => c.id == chunk.id) = true :=
      List.any_eq_true.mpr ⟨c, hc, by simp [hid]⟩
    rw [if_pos hany]

theorem BuffchunkPool.mem_chunkadd {chunk c : Buffchunk}
    (hc : c ∈ (pool.chunkadd (some chunk)).2.chunklist) : c ∈ pool.chunklist ∨ c = chunk := by
  rw [BuffchunkPool.chunkadd] at hc
  split at hc
  · exact .inl hc
  · split at hc
    · exact .inl hc
    · rcases List.mem_append.mp hc with hc | hc
      · exact .inl hc
      · exact .inr (List.mem_singleton.mp hc)

/-- Gathering chunks that fit appends their bytes; one without bytes is passed over. -/
theorem gather_contents (cs : List Buffchunk) : ∀ (chunk : Buffchunk), 0 ≤ chunk.length →
    (∀ c ∈ cs, 0 ≤ c.length) →
    (((cs.map Buffchunk.contents).flatten.length : Nat) : Int) ≤ chunk.remain →
    (BuffchunkPool.gather chunk cs).contents =
        chunk.contents ++ (cs.map Buffchunk.contents).flatten ∧
      (BuffchunkPool.gather chunk cs).length =
        chunk.length + (cs.map Buffchunk.contents).flatten.length := by
  induction cs with
  | nil =>
      intro chunk _ _ _
      simp [BuffchunkPool.gather]
  | cons c cs ih =>
      intro chunk hlow hfilled hfits
      have hc := hfilled c List.mem_cons_self
      have hcs := fun c' hc' => hfilled c' (List.mem_cons_of_mem c hc')
      have hlen := Buffchunk.contents_length hc
      rw [List.map_cons, List.flatten_cons, List.length_append, Int.natCast_add] at hfits ⊢
      by_cases hzero : c.length = 0
      · have hnil : c.contents = [] := List.eq_nil_of_length_eq_zero (by omega)
        rw [BuffchunkPool.gather, if_pos hzero, hnil, List.nil_append, List.length_nil,
          Int.natCast_zero, Int.zero_add]
        exact ih chunk hlow hcs (by omega)
      · have hne : c.contents ≠ [] := List.ne_nil_of_length_pos (by omega)
        obtain ⟨hcontents, hlength, hsize, -⟩ :=
          Buffchunk.write_fits hlow hne (by omega : (c.contents.length : Int) ≤ _) false
        rw [BuffchunkPool.gather, if_neg hzero, if_neg (by omega)]
        obtain ⟨hgather, hgatherlen⟩ := ih (chunk.write c.contents false).2 (by omega) hcs
          (by rw [Buffchunk.remain, hsize, hlength]; rw [Buffchunk.remain] at hfits; omega)
        rw [hgather, hgatherlen, hcontents, hlength, List.append_assoc]
        exact ⟨rfl, by omega⟩

/-- Merging a pool with bytes in it gives one chunk with all of them. -/
theorem Pooled.pool2chunk (h : Pooled room pool bs) (hne : bs ≠ [])
    (hlimit : (room : Int) ≤ Buffchunk.limit) (id : UInt16) :
    ∃ merge, pool.pool2chunk id = (some merge, id + 1) ∧ merge.contents = bs ∧
      merge.length = bs.length := by
  have hpos : 0 < bs.length := List.length_pos_iff.mpr hne
  have hfits := h.fits
  have hsome : pool.chunklist ≠ [] := by
    intro hnil
    have hchunks := h.chunks
    rw [hnil] at hchunks
    exact hne hchunks.symm
  have hnr : pool.chunknr ≠ 0 := by
    have := List.length_pos_iff.mpr hsome
    rw [h.chunknr]
    omega
  obtain ⟨hcontents, hlength⟩ := gather_contents pool.chunklist
    { id := id, p := fun _ => 0, size := pool.length, length := 0 } (Int.le_refl 0)
    (fun c hc => Int.le_of_lt (h.filled c hc)) (by rw [h.chunks, Buffchunk.remain]; simp [h.length])
  refine ⟨_, ?_, hcontents.trans h.chunks, ?_⟩
  · rw [BuffchunkPool.pool2chunk, if_neg (by rw [h.length]; omega), Buffchunk.create,
      if_neg (by rw [h.length]; omega)]
  · rw [hlength, h.chunks]
    exact Int.zero_add _

theorem Pooled.pool2chunk_nil (h : Pooled room pool []) (id : UInt16) :
    pool.pool2chunk id = (none, id) := by
  rw [BuffchunkPool.pool2chunk, if_pos (.inr h.length)]

end Awoke
