/-
A pool counts its chunks, over whole runs.

What a pool is for is `PoolContents`: a limit and the chunks that were added, in order.
A chunk is added when it fits under the limit and no chunk of the pool has its number,
and refused otherwise; merging gives the bytes of all chunks, one after the other.

`Counts` says that the pool's numbers are those of its chunks, and `pool_counts_chunks`
that they stay so, whatever is created, added, cleaned and merged.  A pool made with a
negative limit takes no chunk, and is the only one whose size is above its limit.
-/
import Awoke.Lib.Run
import Awoke.Proofs.Buffer

namespace Awoke

/-! ### Chunks that were created and written -/

/-- What `awoke_buffchunk_create` makes and `awoke_buffchunk_write` fills. -/
inductive Buffchunk.Built : Buffchunk → Prop
  | create {id counter : UInt16} {size : Int} {chunk : Buffchunk} :
      Buffchunk.create id size = (some chunk, counter) → Built chunk
  | write {chunk : Buffchunk} (data : List UInt8) (trybest : Bool) :
      Built chunk → Built (chunk.write data trybest).2

/-- A chunk that is no larger than allowed and holds no more than its size. -/
structure Buffchunk.Within (chunk : Buffchunk) : Prop where
  sized : 0 < chunk.size
  limit : chunk.size ≤ Buffchunk.limit
  low : 0 ≤ chunk.length
  high : chunk.length ≤ chunk.size

theorem Buffchunk.within_create {id counter : UInt16} {size : Int} {chunk : Buffchunk}
    (h : Buffchunk.create id size = (some chunk, counter)) : chunk.Within := by
  rw [Buffchunk.create] at h
  split at h
  · cases h
  · rename_i hsize
    obtain ⟨rfl, -⟩ := h
    have hpos : 0 < size := by omega
    exact ⟨hpos, Int.not_lt.mp fun hlimit => hsize (.inr hlimit), Int.le_refl 0,
      Int.le_of_lt hpos⟩

theorem Buffchunk.Within.write {chunk : Buffchunk} (h : chunk.Within) (data : List UInt8)
    (trybest : Bool) : (chunk.write data trybest).2.Within := by
  have hremain : chunk.remain = chunk.size - chunk.length := rfl
  have hlow := h.low
  have hhigh := h.high
  unfold Buffchunk.write
  split
  · exact h
  split
  · exact h
  split
  · exact h
  · rename_i hfits
    have hcopy : 0 ≤ (if trybest ∧ chunk.remain < data.length then chunk.remain
        else (data.length : Int)) ∧ (if trybest ∧ chunk.remain < data.length then chunk.remain
        else (data.length : Int)) ≤ chunk.remain := by
      split
      · omega
      · rename_i hshort
        refine ⟨Int.natCast_nonneg _, Int.not_lt.mp fun hlong => ?_⟩
        cases trybest with
        | false => exact hfits ⟨Bool.false_ne_true, hlong⟩
        | true => exact hshort ⟨rfl, hlong⟩
    exact ⟨h.sized, h.limit, Int.add_nonneg hlow hcopy.1, by
      show chunk.length + _ ≤ chunk.size
      omega⟩

theorem Buffchunk.Built.within {chunk : Buffchunk} (h : chunk.Built) : chunk.Within := by
  induction h with
  | create h => exact within_create h
  | write data trybest _ ih => exact ih.write data trybest

/-- A chunk that was created and written. -/
def BuiltChunk := { chunk : Buffchunk // chunk.Built }

/-! ### The calls -/

/-- A call on the pool at hand; `create` takes a new one in its place. -/
inductive PoolOp
  | create (maxsize : Int)
  | chunkadd (chunk : Option BuiltChunk)
  | clean
  | pool2chunk (id : UInt16)

/-- What a call gives back. -/
inductive PoolAns
  | done
  | code (ret : ErrType)
  | chunk (merge : Option Buffchunk)

/-- A call to a pool. -/
def BuffchunkPool.step (pool : BuffchunkPool) : PoolOp → BuffchunkPool × PoolAns
  | .create maxsize => (BuffchunkPool.create maxsize, .done)
  | .chunkadd chunk =>
      ((pool.chunkadd (chunk.map (·.1))).2, .code (pool.chunkadd (chunk.map (·.1))).1)
  | .clean => (pool.clean, .done)
  | .pool2chunk id => (pool, .chunk (pool.pool2chunk id).1)

/-! ### What a pool is for -/

/-- A limit, and the chunks in the order they were added. -/
structure PoolContents where
  maxsize : Int
  chunks : List Buffchunk

namespace PoolContents

/-- A pool that was just made. -/
def made (maxsize : Int) : PoolContents := ⟨min BuffchunkPool.limit maxsize, []⟩

/-- With one more chunk. -/
def added (t : PoolContents) (chunk : Buffchunk) : PoolContents :=
  { t with chunks := t.chunks ++ [chunk] }

/-- With no chunks. -/
def emptied (t : PoolContents) : PoolContents := { t with chunks := [] }

/-- The sizes of the chunks added up. -/
def size (t : PoolContents) : Int := (t.chunks.map Buffchunk.size).sum

/-- The lengths of the chunks added up. -/
def length (t : PoolContents) : Int := (t.chunks.map Buffchunk.length).sum

/-- The bytes of all chunks. -/
def bytes (t : PoolContents) : List UInt8 := (t.chunks.map Buffchunk.contents).flatten

/-- What a call does to the contents, and what it gives back. -/
inductive Step : PoolContents → PoolOp → PoolAns → PoolContents → Prop
  | create (t : PoolContents) (maxsize : Int) : Step t (.create maxsize) .done (made maxsize)
  | null (t : PoolContents) : Step t (.chunkadd none) (.code .etParam) t
  | large {t : PoolContents} {c : BuiltChunk} : t.maxsize < t.size + c.1.size →
      Step t (.chunkadd (some c)) (.code .etMemLimit) t
  | exist {t : PoolContents} {c : BuiltChunk} : t.size + c.1.size ≤ t.maxsize →
      c.1.id ∈ t.chunks.map Buffchunk.id → Step t (.chunkadd (some c)) (.code .etExist) t
  | add {t : PoolContents} {c : BuiltChunk} : t.size + c.1.size ≤ t.maxsize →
      c.1.id ∉ t.chunks.map Buffchunk.id →
      Step t (.chunkadd (some c)) (.code .etOk) (t.added c.1)
  | clean (t : PoolContents) : Step t .clean .done t.emptied
  | empty {t : PoolContents} (id : UInt16) : t.length = 0 ∨ Buffchunk.limit < t.length →
      Step t (.pool2chunk id) (.chunk none) t
  | merge {t : PoolContents} {merge : Buffchunk} (id : UInt16) :
      0 < t.length → t.length ≤ Buffchunk.limit → merge.contents = t.bytes →
      merge.length = t.length → Step t (.pool2chunk id) (.chunk (some merge)) t

end PoolContents

/-! ### The numbers of a pool -/

/-- `pool` holds the chunks of `t`, and its numbers are theirs. -/
structure Counts (pool : BuffchunkPool) (t : PoolContents) : Prop where
  maxsize : pool.maxsize = t.maxsize
  chunklist : pool.chunklist = t.chunks
  size : pool.size = (pool.chunklist.map Buffchunk.size).sum
  length : pool.length = (pool.chunklist.map Buffchunk.length).sum
  chunknr : pool.chunknr = pool.chunklist.length
  bounded : pool.size ≤ max 0 pool.maxsize
  ids : (pool.chunklist.map Buffchunk.id).Nodup
  built : ∀ c ∈ pool.chunklist, c.Built

variable {pool : BuffchunkPool} {t : PoolContents}

theorem counts_create (maxsize : Int) :
    Counts (BuffchunkPool.create maxsize) (PoolContents.made maxsize) :=
  ⟨rfl, rfl, rfl, rfl, rfl, Int.le_max_left .., List.nodup_nil,
    fun _ h => absurd h List.not_mem_nil⟩

theorem Counts.clean (h : Counts pool t) : Counts pool.clean t.emptied :=
  ⟨h.maxsize, rfl, rfl, rfl, rfl, Int.le_max_left .., List.nodup_nil,
    fun _ hc => absurd hc List.not_mem_nil⟩

theorem Counts.size_eq (h : Counts pool t) : pool.size = t.size := by
  rw [h.size, h.chunklist, PoolContents.size]

theorem Counts.length_eq (h : Counts pool t) : pool.length = t.length := by
  rw [h.length, h.chunklist, PoolContents.length]

theorem Counts.any_id (h : Counts pool t) (id : UInt16) :
    (pool.chunklist.any fun c => c.id == id) = true ↔ id ∈ t.chunks.map Buffchunk.id := by
  rw [List.any_eq_true, List.mem_map, h.chunklist]
  simp only [beq_iff_eq]

theorem flatten_length (cs : List Buffchunk) (h : ∀ c ∈ cs, 0 ≤ c.length) :
    (((cs.map Buffchunk.contents).flatten.length : Nat) : Int) =
      (cs.map Buffchunk.length).sum := by
  induction cs with
  | nil => rfl
  | cons c cs ih =>
      have hc := Buffchunk.contents_length (h c List.mem_cons_self)
      have hcs := ih fun c' hc' => h c' (List.mem_cons_of_mem c hc')
      rw [List.map_cons, List.flatten_cons, List.length_append, Int.natCast_add, hc, hcs,
        List.map_cons, List.sum_cons]

theorem Counts.bytes_length (h : Counts pool t) : (t.bytes.length : Int) = t.length :=
  flatten_length t.chunks fun c hc => (h.built c (h.chunklist ▸ hc)).within.low

/-- A pool that counts its chunks counts them with one more. -/
theorem Counts.add (h : Counts pool t) {c : BuiltChunk} (hroom : t.size + c.1.size ≤ t.maxsize)
    (hfresh : c.1.id ∉ t.chunks.map Buffchunk.id) :
    pool.chunkadd (some c.1) = (.etOk, (pool.chunkadd (some c.1)).2) ∧
      Counts (pool.chunkadd (some c.1)).2 (t.added c.1) := by
  have hsize := h.size_eq
  have hany : ¬(pool.chunklist.any fun c' => c'.id == c.1.id) = true :=
    fun hany => hfresh ((h.any_id c.1.id).mp hany)
  rw [BuffchunkPool.chunkadd, if_neg (by rw [h.maxsize]; omega), if_neg hany]
  refine ⟨rfl, h.maxsize, ?_, ?_, ?_, ?_, ?_, ?_, ?_⟩
  · rw [PoolContents.added, ← h.chunklist]
  · rw [List.map_append, List.sum_append, h.size]
    simp
  · rw [List.map_append, List.sum_append, h.length]
    simp
  · rw [List.length_append, h.chunknr]
    rfl
  · exact Int.le_trans (by rw [hsize, h.maxsize]; exact hroom) (Int.le_max_right ..)
  · rw [List.map_append, List.nodup_append]
    refine ⟨h.ids, by simp, ?_⟩
    intro i hi j hj hij
    rw [List.map_singleton, List.mem_singleton] at hj
    exact hfresh (by rw [← hj, ← hij, ← h.chunklist]; exact hi)
  · intro c' hc'
    rcases List.mem_append.mp hc' with hc' | hc'
    · exact h.built c' hc'
    · rw [List.mem_singleton.mp hc']
      exact c.2

/-- A chunk that is not added is not there, and everything else is as before. -/
theorem Counts.chunkadd (h : Counts pool t) (c : Option BuiltChunk) :
    Machine.StepRefines (Machine.total BuffchunkPool.step) PoolContents.Step Counts pool t
      (.chunkadd c) := by
  cases c with
  | none => exact ⟨pool, _, t, rfl, .null t, h⟩
  | some c =>
      have hsize := h.size_eq
      by_cases hroom : t.size + c.1.size ≤ t.maxsize
      · by_cases hid : c.1.id ∈ t.chunks.map Buffchunk.id
        · have hadd : pool.chunkadd (some c.1) = (.etExist, pool) := by
            rw [BuffchunkPool.chunkadd, if_neg (by rw [h.maxsize]; omega),
              if_pos ((h.any_id c.1.id).mpr hid)]
          exact ⟨pool, .code .etExist, t, by simp [BuffchunkPool.step, hadd], .exist hroom hid, h⟩
        · obtain ⟨hadd, hcounts⟩ := h.add hroom hid
          refine ⟨_, .code .etOk, _, ?_, .add hroom hid, hcounts⟩
          simp only [Machine.total_apply, BuffchunkPool.step, Option.map_some]
          rw [hadd]
      · have hadd : pool.chunkadd (some c.1) = (.etMemLimit, pool) := by
          rw [BuffchunkPool.chunkadd, if_pos (by rw [h.maxsize]; omega)]
        exact ⟨pool, .code .etMemLimit, t, by simp [BuffchunkPool.step, hadd],
          .large (by omega), h⟩

/-- Merging gives all the bytes, when there are any and no more than a chunk may have. -/
theorem Counts.pool2chunk (h : Counts pool t) (id : UInt16) :
    Machine.StepRefines (Machine.total BuffchunkPool.step) PoolContents.Step Counts pool t
      (.pool2chunk id) := by
  have hlength := h.length_eq
  have hbytes := h.bytes_length
  by_cases hlimit : t.length = 0 ∨ Buffchunk.limit < t.length
  · refine ⟨pool, .chunk none, t, ?_, .empty id hlimit, h⟩
    simp only [Machine.total_apply, BuffchunkPool.step, BuffchunkPool.pool2chunk]
    split
    · rfl
    · rw [Buffchunk.create, if_pos (by omega)]
  · have hne : pool.chunknr ≠ 0 := by
      intro hnil
      rw [h.chunknr, Int.natCast_eq_zero, List.length_eq_zero_iff] at hnil
      have hzero := h.length
      rw [hnil] at hzero
      exact hlimit (.inl (by rw [← hlength, hzero]; rfl))
    obtain ⟨hcontents, hgather⟩ := gather_contents t.chunks
      { id := id, p := fun _ => 0, size := t.length, length := 0 } (Int.le_refl 0)
      (fun c hc => (h.built c (h.chunklist ▸ hc)).within.low)
      (by rw [Buffchunk.remain]; exact Int.le_of_eq (by rw [Int.sub_zero]; exact hbytes))
    refine ⟨pool, _, t, ?_, .merge id (by omega) (by omega) hcontents ?_, h⟩
    · simp only [Machine.total_apply, BuffchunkPool.step, BuffchunkPool.pool2chunk]
      rw [if_neg (by omega), Buffchunk.create, if_neg (by omega), hlength, h.chunklist]
    · rw [hgather]
      exact (Int.zero_add _).trans hbytes

theorem Counts.step (h : Counts pool t) (op : PoolOp) :
    Machine.StepRefines (Machine.total BuffchunkPool.step) PoolContents.Step Counts pool t op := by
  cases op with
  | create maxsize => exact ⟨_, _, _, rfl, .create t maxsize, counts_create maxsize⟩
  | chunkadd c => exact h.chunkadd c
  | clean => exact ⟨_, _, _, rfl, .clean t, h.clean⟩
  | pool2chunk id => exact h.pool2chunk id

/-- **A pool counts its chunks.**  Along every run its numbers are those of the chunks
that were added and not refused, in order; the sizes stay under a limit that is not
negative, and merging gives the bytes of all. -/
theorem pool_counts_chunks (maxsize : Int) (ops : List PoolOp) :
    Machine.RunRefines (Machine.total BuffchunkPool.step) PoolContents.Step Counts
      (BuffchunkPool.create maxsize) (PoolContents.made maxsize) ops :=
  Machine.runRefines_of_step (C := fun _ _ => True) (fun _ _ op h _ => h.step op) ops _ _
    (counts_create maxsize) (Machine.meets_true _ ops)

/-- A pool made with a negative limit is above it without a chunk. -/
theorem pool_above_negative_maxsize :
    ¬(BuffchunkPool.create (-1)).size ≤ (BuffchunkPool.create (-1)).maxsize := by
  decide

end Awoke
