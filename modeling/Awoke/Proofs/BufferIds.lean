/-
The numbers of chunks.

`buffchunk_id` counts in 16 bits, so a chunk gets the number of the one that was made
65536 chunks before it.  As long as that one is gone, the numbers of the chunks alive at
a time differ, and a pool refuses a chunk as one it already has only when it has it;
`chunkadd_exist_iff` says that this is exactly when.  A caller that puts a number of its
own choice on a chunk answers for it.

`Chunks` are the chunks alive, in the pool and out of it.  Next to each stand the number
it was given and how many were made before it.
-/
import Awoke.Lib.Run
import Awoke.Util.Buffer
import Mathlib.Data.List.Perm.Basic

namespace Awoke

/-! ### The chunks of a program -/

/-- A chunk, the number it was given and how many chunks were made before it. -/
structure Numbered where
  made : Nat
  handed : UInt16
  chunk : Buffchunk

namespace Numbered

/-- A caller has put another number on the chunk. -/
def Overwritten (c : Numbered) : Prop := c.chunk.id ≠ c.handed

/-- The same chunk with other fields. -/
def assigned (chunk : Buffchunk) (c : Numbered) : Numbered := { c with chunk := chunk }

end Numbered

/-- The counter of `buffchunk_id`, how many chunks were made, the chunks outside the pool
and those in it, and the pool. -/
structure Chunks where
  counter : UInt16
  made : Nat
  loose : List Numbered
  pooled : List Numbered
  pool : BuffchunkPool

/-- What a program does with chunks: `assign` is anything it writes into one, and a chunk
is named by its place among those alive. -/
inductive ChunkOp
  | create (size : Int)
  | chunkadd (i : Nat)
  | pool2chunk
  | assign (i : Nat) (chunk : Buffchunk)
  | free (i : Nat)
  | clean

/-- What `chunkadd` answered, and whether the chunk was in the pool already. -/
inductive ChunkAns
  | done
  | added (member : Bool) (ret : ErrType)

namespace Chunks

/-- Before any chunk is made. -/
def start (maxsize : Int) : Chunks :=
  { counter := 0, made := 0, loose := [], pooled := [], pool := BuffchunkPool.create maxsize }

/-- The chunks alive. -/
def alive (s : Chunks) : List Numbered := s.loose ++ s.pooled

/-- After a chunk was asked for; there may be none. -/
def took (s : Chunks) : Option Buffchunk × UInt16 → Chunks
  | (none, counter) => { s with counter := counter }
  | (some chunk, counter) => { s with
      counter := counter
      made := s.made + 1
      loose := s.loose ++ [{ made := s.made, handed := chunk.id, chunk := chunk }] }

/-- The chunk at `i` goes into the pool. -/
def joined (s : Chunks) (i : Nat) (c : Numbered) : Chunks :=
  { s with
    loose := s.loose.eraseIdx i
    pooled := s.pooled ++ [c]
    pool := (s.pool.chunkadd (some c.chunk)).2 }

/-- The chunk at `i` gets other fields. -/
def assigned (s : Chunks) (i : Nat) (chunk : Buffchunk) : Chunks :=
  if i < s.loose.length then { s with loose := s.loose.modify i (Numbered.assigned chunk) }
  else
    let pooled := s.pooled.modify (i - s.loose.length) (Numbered.assigned chunk)
    { s with pooled := pooled, pool := { s.pool with chunklist := pooled.map (·.chunk) } }

/-- One step of the program. -/
def step (s : Chunks) : ChunkOp → Chunks × ChunkAns
  | .create size => (s.took (Buffchunk.create s.counter size), .done)
  | .pool2chunk => (s.took (s.pool.pool2chunk s.counter), .done)
  | .assign i chunk => (s.assigned i chunk, .done)
  | .free i => ({ s with loose := s.loose.eraseIdx i }, .done)
  | .clean => ({ s with pooled := [], pool := s.pool.clean }, .done)
  | .chunkadd i =>
      match s.alive[i]? with
      | none => (s, .added false (s.pool.chunkadd none).1)
      | some c =>
          match (s.pool.chunkadd (some c.chunk)).1 with
          | .etOk => (s.joined i c, .added (decide (s.loose.length ≤ i)) .etOk)
          | ret => (s, .added (decide (s.loose.length ≤ i)) ret)

end Chunks

/-! ### What is asked of the numbers -/

/-- Only a chunk that is in the pool is refused as one that is. -/
inductive ChunkAns.Right : ChunkAns → Prop
  | done : Right .done
  | added {member : Bool} {ret : ErrType} : (ret = .etExist → member = true) →
      Right (.added member ret)

/-- How the ghost fields hang together with the rest. -/
structure Chunks.Counted (s : Chunks) : Prop where
  counter : s.counter = UInt16.ofNat s.made
  handed : ∀ c ∈ s.alive, c.handed = UInt16.ofNat c.made
  earlier : ∀ c ∈ s.alive, c.made < s.made
  chunklist : s.pool.chunklist = s.pooled.map (·.chunk)

/-- The chunks alive were given different numbers. -/
def Chunks.Distinct (s : Chunks) : Prop := (s.alive.map (·.handed)).Nodup

/-- No chunk alive was made a multiple of 65536 chunks ago. -/
def Chunks.Fresh (s : Chunks) : Prop := ∀ c ∈ s.alive, ¬65536 ∣ s.made - c.made

/-- When a step keeps the numbers apart and is answered right. -/
def Chunks.Safe (s : Chunks) : ChunkOp → Prop
  | .create size => 0 < size → size ≤ Buffchunk.limit → s.Fresh
  | .pool2chunk => s.pool.chunknr ≠ 0 → 0 < s.pool.length →
      s.pool.length ≤ Buffchunk.limit → s.Fresh
  | .chunkadd i => ∀ c, s.loose[i]? = some c → c.chunk.size ≤ s.pool.maxsize - s.pool.size →
      ∀ m ∈ s.pooled, m.chunk.id = c.chunk.id → ¬m.Overwritten ∧ ¬c.Overwritten
  | _ => True

/-! ### Making a chunk -/

variable {s : Chunks}

theorem Buffchunk.write_id (chunk : Buffchunk) (data : List UInt8) (trybest : Bool) :
    (chunk.write data trybest).2.id = chunk.id := by
  unfold Buffchunk.write
  split
  · rfl
  split
  · rfl
  split <;> rfl

theorem gather_id (cs : List Buffchunk) : ∀ chunk : Buffchunk,
    (BuffchunkPool.gather chunk cs).id = chunk.id := by
  induction cs with
  | nil => intro chunk; rfl
  | cons c cs ih =>
      intro chunk
      rw [BuffchunkPool.gather]
      split
      · exact ih chunk
      split
      · rfl
      · rw [ih, Buffchunk.write_id]

/-- What asking for a chunk gives: none, or one with the number the counter stood at. -/
inductive Takes (id : UInt16) : Prop → Option Buffchunk × UInt16 → Prop
  | none {p : Prop} : ¬p → Takes id p (none, id)
  | some {p : Prop} (chunk : Buffchunk) : p → chunk.id = id → Takes id p (some chunk, id + 1)

theorem takes_create (id : UInt16) (size : Int) :
    Takes id (0 < size ∧ size ≤ Buffchunk.limit) (Buffchunk.create id size) := by
  rw [Buffchunk.create]
  split
  · exact .none (by omega)
  · exact .some _ (by omega) rfl

theorem takes_pool2chunk (id : UInt16) (pool : BuffchunkPool) :
    Takes id (pool.chunknr ≠ 0 ∧ 0 < pool.length ∧ pool.length ≤ Buffchunk.limit)
      (pool.pool2chunk id) := by
  rw [BuffchunkPool.pool2chunk]
  split
  · exact .none (by omega)
  · rw [Buffchunk.create]
    by_cases hsize : pool.length ≤ 0 ∨ Buffchunk.limit < pool.length
    · rw [if_pos hsize]
      exact .none (by omega)
    · rw [if_neg hsize]
      exact .some _ (by omega) (gather_id pool.chunklist _)

theorem ofNat_eq_iff {m n : Nat} (h : m < n) :
    UInt16.ofNat m = UInt16.ofNat n ↔ 65536 ∣ n - m := by
  rw [← UInt16.toNat_inj, UInt16.toNat_ofNat', UInt16.toNat_ofNat']
  omega

/-- The number of the next chunk is none of those alive as long as the one before it
with that number is gone. -/
theorem Chunks.Counted.fresh_iff (h : s.Counted) :
    s.Fresh ↔ s.counter ∉ s.alive.map (·.handed) := by
  rw [Chunks.Fresh, List.mem_map]
  constructor
  · rintro hfresh ⟨c, hc, hid⟩
    rw [h.handed c hc, h.counter, ofNat_eq_iff (h.earlier c hc)] at hid
    exact hfresh c hc hid
  · intro hnew c hc hdvd
    refine hnew ⟨c, hc, ?_⟩
    rw [h.handed c hc, h.counter, ofNat_eq_iff (h.earlier c hc)]
    exact hdvd

theorem ofNat_succ (n : Nat) : UInt16.ofNat n + 1 = UInt16.ofNat (n + 1) := by
  rw [UInt16.ofNat_add]
  rfl

theorem Chunks.alive_took (chunk : Buffchunk) (counter : UInt16) :
    (s.took (some chunk, counter)).alive.Perm
      ({ made := s.made, handed := chunk.id, chunk := chunk } :: s.alive) := by
  show ((s.loose ++ [_]) ++ s.pooled).Perm (_ :: (s.loose ++ s.pooled))
  rw [List.append_assoc]
  exact List.perm_middle

/-- Asking for a chunk keeps the numbers apart exactly when a chunk that comes of it is
given a fresh one. -/
theorem Chunks.Counted.took (h : s.Counted) (hd : s.Distinct) {p : Prop}
    {r : Option Buffchunk × UInt16} (hr : Takes s.counter p r) :
    (s.took r).Counted ∧ ((s.took r).Distinct ↔ (p → s.Fresh)) := by
  cases hr with
  | none hp => exact ⟨⟨h.counter, h.handed, h.earlier, h.chunklist⟩, fun _ hp' => absurd hp' hp,
      fun _ => hd⟩
  | some chunk hp hid =>
      have hperm := Chunks.alive_took (s := s) chunk (s.counter + 1)
      refine ⟨⟨?_, ?_, ?_, h.chunklist⟩, ?_⟩
      · show s.counter + 1 = UInt16.ofNat (s.made + 1)
        rw [h.counter, ofNat_succ]
      · intro c hc
        rcases List.mem_cons.mp (hperm.mem_iff.mp hc) with rfl | hc
        · exact hid.trans h.counter
        · exact h.handed c hc
      · intro c hc
        rcases List.mem_cons.mp (hperm.mem_iff.mp hc) with rfl | hc
        · exact Nat.lt_succ_self _
        · exact Nat.lt_succ_of_lt (h.earlier c hc)
      · have hnodup : (s.took (some chunk, s.counter + 1)).Distinct ↔
            chunk.id ∉ s.alive.map (·.handed) := by
          rw [Chunks.Distinct, (hperm.map _).nodup_iff, List.map_cons, List.nodup_cons]
          exact and_iff_left hd
        rw [hnodup, hid, ← h.fresh_iff]
        exact ⟨fun hfresh _ => hfresh, fun hfresh => hfresh hp⟩

/-! ### The other steps -/

/-- Steps that make no chunk and give no number keep the numbers apart. -/
theorem Chunks.Counted.sublist (h : s.Counted) (hd : s.Distinct) {s' : Chunks}
    (hcounter : s'.counter = s.counter) (hmade : s'.made = s.made)
    (hlist : s'.pool.chunklist = s'.pooled.map (·.chunk))
    (hsub : (s'.alive.map fun c => (c.made, c.handed)).Subperm
      (s.alive.map fun c => (c.made, c.handed))) : s'.Counted ∧ s'.Distinct := by
  have hback : ∀ c ∈ s'.alive, ∃ c' ∈ s.alive, c'.made = c.made ∧ c'.handed = c.handed := by
    intro c hc
    obtain ⟨c', hc', heq⟩ := List.mem_map.mp (hsub.subset (List.mem_map_of_mem hc))
    exact ⟨c', hc', (Prod.mk.inj heq).1, (Prod.mk.inj heq).2⟩
  refine ⟨⟨by rw [hcounter, hmade, h.counter], ?_, ?_, hlist⟩, ?_⟩
  · intro c hc
    obtain ⟨c', hc', hm, hh⟩ := hback c hc
    rw [← hm, ← hh]
    exact h.handed c' hc'
  · intro c hc
    obtain ⟨c', hc', hm, -⟩ := hback c hc
    rw [← hm, hmade]
    exact h.earlier c' hc'
  · obtain ⟨l, hperm, hl⟩ := hsub
    have hall : ((s.alive.map fun c => (c.made, c.handed)).map Prod.snd).Nodup := by
      rw [List.map_map]
      exact hd
    have hnodup := (hperm.map Prod.snd).nodup_iff.mp ((hl.map Prod.snd).nodup hall)
    rw [List.map_map] at hnodup
    exact hnodup

theorem map_modify_assigned {β : Type} (f : Numbered → β)
    (hf : ∀ chunk c, f (Numbered.assigned chunk c) = f c) (chunk : Buffchunk) :
    ∀ (l : List Numbered) (i : Nat), (l.modify i (Numbered.assigned chunk)).map f = l.map f := by
  intro l
  induction l with
  | nil => intro i; simp
  | cons c l ih =>
      intro i
      cases i with
      | zero => simp [hf]
      | succ i => simp [ih i]

theorem Chunks.Counted.assigned (h : s.Counted) (hd : s.Distinct) (i : Nat)
    (chunk : Buffchunk) : (s.assigned i chunk).Counted ∧ (s.assigned i chunk).Distinct := by
  have hmap := map_modify_assigned (fun c => (c.made, c.handed)) (fun _ _ => rfl) chunk
  unfold Chunks.assigned
  split
  · refine h.sublist hd rfl rfl h.chunklist (List.Perm.subperm (List.Perm.of_eq ?_))
    show ((s.loose.modify i _) ++ s.pooled).map _ = _
    rw [List.map_append, hmap, ← List.map_append]
    rfl
  · refine h.sublist hd rfl rfl rfl (List.Perm.subperm (List.Perm.of_eq ?_))
    show (s.loose ++ s.pooled.modify _ _).map _ = _
    rw [List.map_append, hmap, ← List.map_append]
    rfl

theorem Chunks.Counted.free (h : s.Counted) (hd : s.Distinct) (i : Nat) :
    (s.step (.free i)).1.Counted ∧ (s.step (.free i)).1.Distinct :=
  h.sublist hd rfl rfl h.chunklist
    (((List.eraseIdx_sublist s.loose i).append_right s.pooled).map _).subperm

theorem Chunks.Counted.clean (h : s.Counted) (hd : s.Distinct) :
    (s.step .clean).1.Counted ∧ (s.step .clean).1.Distinct :=
  h.sublist hd rfl rfl rfl (((List.nil_sublist s.pooled).append_left s.loose).map _).subperm

/-! ### Adding to the pool -/

/-- The three answers to a chunk. -/
theorem BuffchunkPool.chunkadd_cases (pool : BuffchunkPool) (chunk : Buffchunk) :
    (pool.maxsize - pool.size < chunk.size ∧ pool.chunkadd (some chunk) = (.etMemLimit, pool)) ∨
      (chunk.size ≤ pool.maxsize - pool.size ∧ (∃ c ∈ pool.chunklist, c.id = chunk.id) ∧
        pool.chunkadd (some chunk) = (.etExist, pool)) ∨
      ((∀ c ∈ pool.chunklist, c.id ≠ chunk.id) ∧
        (pool.chunkadd (some chunk)).1 = .etOk ∧
        (pool.chunkadd (some chunk)).2.chunklist = pool.chunklist ++ [chunk]) := by
  rw [BuffchunkPool.chunkadd]
  split
  · exact .inl ⟨by assumption, rfl⟩
  split
  · rename_i hroom hany
    obtain ⟨c, hc, hid⟩ := List.any_eq_true.mp hany
    exact .inr (.inl ⟨by omega, ⟨c, hc, by simpa using hid⟩, rfl⟩)
  · rename_i hany
    refine .inr (.inr ⟨fun c hc hid => hany ?_, rfl, rfl⟩)
    exact List.any_eq_true.mpr ⟨c, hc, by simp [hid]⟩

/-- A chunk that joins the pool is one from outside it. -/
theorem Chunks.Counted.joined (h : s.Counted) (hd : s.Distinct) {i : Nat} {c : Numbered}
    (hc : s.loose[i]? = some c)
    (hlist : (s.pool.chunkadd (some c.chunk)).2.chunklist = s.pool.chunklist ++ [c.chunk]) :
    (s.joined i c).Counted ∧ (s.joined i c).Distinct := by
  refine h.sublist hd rfl rfl ?_ (List.Perm.subperm (List.Perm.map _ ?_))
  · show (s.pool.chunkadd (some c.chunk)).2.chunklist = (s.pooled ++ [c]).map _
    rw [hlist, h.chunklist, List.map_append]
    rfl
  · obtain ⟨hi, hget⟩ := List.getElem?_eq_some_iff.mp hc
    show (s.loose.eraseIdx i ++ (s.pooled ++ [c])).Perm (s.loose ++ s.pooled)
    have hback : (s.loose.eraseIdx i ++ (s.pooled ++ [c])).Perm
        (c :: s.loose.eraseIdx i ++ s.pooled) := by
      rw [← List.append_assoc]
      exact List.perm_append_singleton c _
    refine hback.trans (List.Perm.append_right _ ?_)
    rw [← hget]
    exact List.getElem_cons_eraseIdx_perm hi

theorem Chunks.Distinct.ne (hd : s.Distinct) {i : Nat} {c m : Numbered}
    (hc : s.loose[i]? = some c) (hm : m ∈ s.pooled) : m.handed ≠ c.handed := by
  have hmem : c ∈ s.loose := List.mem_of_getElem? hc
  unfold Chunks.Distinct Chunks.alive at hd
  rw [List.map_append, List.nodup_append] at hd
  intro heq
  exact hd.2.2 _ (List.mem_map_of_mem hmem) _ (List.mem_map_of_mem hm) heq.symm

/-- What a step must do: be answered right and keep the numbers apart. -/
def Chunks.Keeps (s : Chunks) (op : ChunkOp) : Prop :=
  (s.step op).2.Right ∧ (s.step op).1.Counted ∧ (s.step op).1.Distinct

theorem Chunks.Counted.keeps_chunkadd (h : s.Counted) (hd : s.Distinct) (i : Nat) :
    s.Keeps (.chunkadd i) ↔ s.Safe (.chunkadd i) := by
  unfold Chunks.Keeps Chunks.step Chunks.Safe
  by_cases hloose : i < s.loose.length
  · obtain ⟨c, hc⟩ : ∃ c, s.loose[i]? = some c := ⟨_, List.getElem?_eq_getElem hloose⟩
    have halive : s.alive[i]? = some c := by
      rw [Chunks.alive, List.getElem?_append_left hloose, hc]
    have hmember : decide (s.loose.length ≤ i) = false := decide_eq_false (by omega)
    simp only [halive, hc, hmember, Option.some.injEq, forall_eq']
    rcases s.pool.chunkadd_cases c.chunk with ⟨hroom, hadd⟩ | ⟨hroom, hexist, hadd⟩ |
      ⟨hfresh, hok, hlist⟩
    · rw [hadd]
      exact ⟨fun _ hfits => absurd hfits (by omega),
        fun _ => ⟨.added (fun hret => nomatch hret), h, hd⟩⟩
    · obtain ⟨m', hm', hid⟩ := hexist
      rw [h.chunklist] at hm'
      obtain ⟨m, hm, rfl⟩ := List.mem_map.mp hm'
      rw [hadd]
      constructor
      · rintro ⟨hright, -⟩
        cases hright with
        | added hright => exact nomatch hright rfl
      · intro hsafe
        obtain ⟨hm₁, hc₁⟩ := hsafe hroom m hm hid
        refine absurd ?_ (hd.ne hc hm)
        rw [← not_not.mp hm₁, ← not_not.mp hc₁]
        exact hid
    · rw [hok]
      refine ⟨fun _ _ m hm hid => ?_, fun _ => ⟨.added (fun hret => nomatch hret),
        h.joined hd hc hlist⟩⟩
      exact absurd hid (hfresh m.chunk (by rw [h.chunklist]; exact List.mem_map_of_mem hm))
  · have hnone : s.loose[i]? = none := List.getElem?_eq_none (by omega)
    have hmember : decide (s.loose.length ≤ i) = true := decide_eq_true (by omega)
    simp only [hnone, hmember, reduceCtorEq, false_implies, implies_true, iff_true]
    cases halive : s.alive[i]? with
    | none => exact ⟨.added (fun hret => nomatch hret), h, hd⟩
    | some c =>
        -- a chunk of the pool finds its own number there
        have hpooled : c ∈ s.pooled := by
          rw [Chunks.alive, List.getElem?_append_right (by omega)] at halive
          exact List.mem_of_getElem? halive
        rcases s.pool.chunkadd_cases c.chunk with ⟨-, hadd⟩ | ⟨-, -, hadd⟩ | ⟨hfresh, -, -⟩
        · simp only [hadd]
          exact ⟨.added (fun hret => nomatch hret), h, hd⟩
        · simp only [hadd]
          exact ⟨.added fun _ => rfl, h, hd⟩
        · exact absurd rfl (hfresh c.chunk (by rw [h.chunklist]; exact List.mem_map_of_mem hpooled))

/-- A step keeps the numbers apart and is answered right exactly when it is safe. -/
theorem Chunks.Counted.keeps_iff (h : s.Counted) (hd : s.Distinct) (op : ChunkOp) :
    s.Keeps op ↔ s.Safe op := by
  cases op with
  | create size =>
      obtain ⟨hcounted, hdistinct⟩ := h.took hd (takes_create s.counter size)
      refine ⟨fun hk hlow hhigh => hdistinct.mp hk.2.2 ⟨hlow, hhigh⟩, fun hsafe => ?_⟩
      exact ⟨.done, hcounted, hdistinct.mpr fun hp => hsafe hp.1 hp.2⟩
  | chunkadd i => exact h.keeps_chunkadd hd i
  | pool2chunk =>
      obtain ⟨hcounted, hdistinct⟩ := h.took hd (takes_pool2chunk s.counter s.pool)
      refine ⟨fun hk hnr hlow hhigh => hdistinct.mp hk.2.2 ⟨hnr, hlow, hhigh⟩, fun hsafe => ?_⟩
      exact ⟨.done, hcounted, hdistinct.mpr fun hp => hsafe hp.1 hp.2.1 hp.2.2⟩
  | assign i chunk => exact ⟨fun _ => trivial, fun _ => ⟨.done, h.assigned hd i chunk⟩⟩
  | free i => exact ⟨fun _ => trivial, fun _ => ⟨.done, h.free hd i⟩⟩
  | clean => exact ⟨fun _ => trivial, fun _ => ⟨.done, h.clean hd⟩⟩

/-! ### Runs -/

/-- The states of a run are told apart by nothing else. -/
def Chunks.Apart (s : Chunks) (_ : Unit) : Prop := s.Counted ∧ s.Distinct

theorem Chunks.apart_start (maxsize : Int) : (Chunks.start maxsize).Apart () :=
  ⟨⟨rfl, fun _ h => absurd h List.not_mem_nil, fun _ h => absurd h List.not_mem_nil, rfl⟩,
    List.nodup_nil⟩

theorem Chunks.stepRefines_iff (s : Chunks) (u : Unit) (op : ChunkOp) (h : s.Apart u) :
    Machine.StepRefines (Machine.total Chunks.step) (fun _ _ ans _ => ans.Right) Chunks.Apart
      s u op ↔ s.Safe op := by
  rw [← h.1.keeps_iff h.2]
  constructor
  · rintro ⟨s', ans, u', hs, hright, hapart⟩
    rw [Machine.total_apply, Option.some.injEq] at hs
    unfold Chunks.Keeps
    rw [hs]
    exact ⟨hright, hapart⟩
  · intro hk
    exact ⟨_, _, (), rfl, hk.1, hk.2⟩

/-- **The numbers of the chunks alive differ**, and a pool takes no chunk for one it has
when it has it not, along exactly the runs that make no chunk while the one 65536 before
it is alive and add none that bears a number of a caller's own choice that is taken. -/
theorem chunkadd_exist_iff (maxsize : Int) (ops : List ChunkOp) :
    Machine.RunRefines (Machine.total Chunks.step) (fun _ _ ans _ => ans.Right) Chunks.Apart
        (Chunks.start maxsize) () ops ↔
      Machine.Meets (Machine.total Chunks.step) Chunks.Safe (Chunks.start maxsize) ops :=
  Machine.runRefines_iff Chunks.stepRefines_iff ops (Chunks.apart_start maxsize)

/-- `n` chunks made, each freed before the next. -/
def churn : Nat → List ChunkOp
  | 0 => []
  | n + 1 => .create 1 :: .free 0 :: churn n

/-- With no chunk outside the pool, making and freeing only moves the counters. -/
theorem run_churn (n : Nat) : ∀ s : Chunks, s.loose = [] →
    ∃ os, Machine.run (Machine.total Chunks.step) s (churn n) =
      some ({ s with counter := s.counter + UInt16.ofNat n, made := s.made + n }, os) := by
  induction n with
  | zero =>
      intro s _
      exact ⟨[], by simp [churn, Machine.run]⟩
  | succ n ih =>
      intro s hloose
      obtain ⟨os, hrun⟩ := ih { s with counter := s.counter + 1, made := s.made + 1 } hloose
      have hcreate : (s.step (.create 1)).1.step (.free 0) =
          ({ s with counter := s.counter + 1, made := s.made + 1 }, .done) := by
        simp [Chunks.step, Buffchunk.create, Buffchunk.limit, Chunks.took, hloose]
      refine ⟨.done :: .done :: os, ?_⟩
      rw [churn, Machine.run, Machine.total_apply, Option.bind_some, Machine.run,
        Machine.total_apply, Option.bind_some, hcreate, hrun]
      simp only [Option.map_some, Option.some.injEq, Prod.mk.injEq, Chunks.mk.injEq, and_true]
      refine ⟨⟨?_, by omega⟩, rfl⟩
      rw [← ofNat_succ, UInt16.add_assoc, UInt16.add_comm 1]

/-- A chunk goes into the pool, 65535 others come and go, and the next has its number. -/
theorem chunkadd_exist_wraps :
    ¬Machine.RunRefines (Machine.total Chunks.step) (fun _ _ ans _ => ans.Right) Chunks.Apart
      (Chunks.start 8092) () ([.create 1, .chunkadd 0] ++ (churn 65535 ++
        [.create 1, .chunkadd 0])) := by
  rw [Machine.runRefines_iff Chunks.stepRefines_iff _ (Chunks.apart_start 8092),
    Machine.meets_append]
  rintro ⟨-, hrest⟩
  obtain ⟨os, hrun⟩ :=
    run_churn 65535 (((Chunks.start 8092).step (.create 1)).1.step (.chunkadd 0)).1 (by rfl)
  have hwrapped := ((Machine.meets_append _ _ _ _).mp (hrest _ _ rfl)).2 _ os hrun
  have hfresh : Chunks.Fresh _ := hwrapped.1 (by decide) (by decide)
  exact hfresh { made := 0, handed := 0, chunk := _ } List.mem_cons_self (by decide)

end Awoke
