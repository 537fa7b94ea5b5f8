/-
What the allocator gives away.

`Inv` is the invariant of the allocator: memory holds the blocks, they tile the pools, and the
counters are right.  A free block is given away as a whole, or its end is.
-/
import Awoke.Proofs.BgetHeap

namespace Awoke.Benchmark.Bget

open Cells (load store)
open Tiling

/-- What the counters are. -/
structure Counters (m : Cells UInt8) (bg alloc gets rels : Int) : Prop where
  totalloc : totalloc m bg = alloc
  numget : numget m bg = gets
  numrel : numrel m bg = rels

/-- **The invariant**: so many buffers were given away, and so many came back. -/
structure Inv (s : State) (data : Cells UInt8) (blocks : List Block) (frees : List Int)
    (gets rels : Nat) : Prop where
  held : Held s.bg s.mem data blocks frees
  tiled : Tiled 16 32 (2 ^ 63) blocks
  counters : Counters s.mem s.bg (total .used blocks) ((gets : Int).bmod (2 ^ 64))
    ((rels : Int).bmod (2 ^ 64))

variable {s : State} {bg size : Int} {m m' data : Cells UInt8} {b n : Block}
  {blocks k r rest : List Block} {frees : List Int} {gets rels : Nat}

/-! ### Counters -/

/-- What is used is no more than a `long`. -/
theorem total_long (h : Tiled 16 32 (2 ^ 63) blocks) (kind : Kind) : IsLong (total kind blocks) := by
  have hsize : ∀ b ∈ blocks, 0 ≤ b.size := fun b hb => by
    have hsize := fits_size (h.fits b hb)
    omega
  have hle := total_le kind 1 (2 ^ 63) h.apart
    (fun b hb => ⟨(h.fits b hb).pos, hsize b hb, (h.fits b hb).top⟩) (by decide)
  have hnonneg := total_nonneg kind hsize
  exact ⟨by omega, by omega⟩

theorem Counters.congr {t g l : Int} (h : Counters m bg t g l)
    (hsame : ∀ i, bg + 32 ≤ i → i < bg + 56 → m' i = m i) : Counters m' bg t g l where
  totalloc := (Cells.load_congr fun i hlow hhigh => hsame i hlow (by omega)).trans h.totalloc
  numget := (Cells.load_congr fun i hlow hhigh => hsame i (by omega) (by omega)).trans h.numget
  numrel := (Cells.load_congr fun i hlow hhigh => hsame i (by omega) (by omega)).trans h.numrel

theorem word_store_bmod {a v : Int} : load 8 (store 8 m a v) a = v.bmod (2 ^ 64) :=
  Cells.load_store_bmod.trans (congrArg (Int.bmod v) (by norm_num))

theorem Counters.counted {t g l : Int} (h : Counters m bg t g l) (hlong : IsLong (t + size)) :
    Counters (counted m bg size) bg (t + size) ((g + 1).bmod (2 ^ 64)) l := by
  have hread : Bget.numget (setTotalloc m bg (t + size)) bg = g :=
    (word_apart (.inl (by omega))).trans h.numget
  rw [Bget.counted, h.totalloc, hread]
  exact ⟨(word_apart (.inr (by omega))).trans (word_store hlong), word_store_bmod,
    ((word_apart (.inl (by omega))).trans (word_apart (.inl (by omega)))).trans h.numrel⟩

theorem counted_other {i : Int} (h : i < bg + 32 ∨ bg + 48 ≤ i) : counted m bg size i = m i := by
  have hget : ∀ v, setNumget (setTotalloc m bg (totalloc m bg + size)) bg v i =
      setTotalloc m bg (totalloc m bg + size) i := fun v => word_outside (by omega)
  have htotal : ∀ v, setTotalloc m bg v i = m i := fun v => word_outside (by omega)
  rw [counted, hget, htotal]

theorem gets_succ (gets : Nat) :
    ((gets : Int).bmod (2 ^ 64) + 1).bmod (2 ^ 64) = ((gets + 1 : Nat) : Int).bmod (2 ^ 64) := by
  rw [Int.bmod_add_bmod, Int.natCast_add, Int.natCast_one]

theorem Held.counted {rest : List Block} (h : Held bg m data rest frees) (size : Int) :
    Held bg (counted m bg size) data rest frees := by
  refine h.of_clear (bg + 32) (bg + 48) (fun i hi => counted_other hi)
    (fun c hc => ?_) (.inl (Int.le_refl _))
  have hvars := h.vars c hc
  unfold Clear at hvars ⊢
  omega

/-! ### Blocks -/

theorem perm_front (b n : Block) (k r : List Block) :
    (k ++ b :: n :: r).Perm (b :: n :: (k ++ r)) :=
  List.perm_middle.trans (List.perm_middle.cons b)

theorem Held.setPrevfree (h : Held bg m data (n :: rest) frees) (prev : Int) (hprev : IsLong prev) :
    Held bg (setPrevfree m n.addr prev) data ({ n with prev := prev } :: rest) frees := by
  have hfits := h.fits n List.mem_cons_self
  exact h.setHeader rfl rfl (fun _ => rfl) (List.pairwise_cons.mp h.apart).1
    ⟨hfits.pos, hfits.top, hfits.stop, hfits.least⟩ (h.vars n List.mem_cons_self)
    ((h.header n List.mem_cons_self).setPrevfree hprev) fun i hi => word_outside (by omega)

/-- **A block that is given away** is put in; what it contains is what memory has there. -/
theorem Held.give (h : Held bg m data rest frees) (hb : b.kind = .used)
    (hapart : ∀ c ∈ rest, b.Apart c) (hfits : b.Fits 16 32 (2 ^ 63))
    (hvars : Clear bg (bg + 64) b) (hheader : Header m b.addr b.prev (tag b)) :
    ∃ data', Held bg m data' (b :: rest) frees ∧
      ∀ i, i < b.addr ∨ b.addr + b.size ≤ i → data' i = data i := by
  refine ⟨fun i => if b.addr ≤ i ∧ i < b.addr + b.size then m i else data i,
    (h.of_data fun c hc _ i hlow hhigh => if_neg ?_).add (by rw [hb]; decide) hapart hfits hvars
      hheader fun _ i hlow hhigh => ?_, fun i hi => if_neg (by omega)⟩
  · have hcapart := hapart c hc
    unfold Block.Apart at hcapart
    omega
  · have hin : b.addr ≤ i ∧ i < b.addr + b.size := ⟨by omega, hhigh⟩
    exact (if_pos hin).symm

/-! ### All of a block -/

/-- A free block is given away as a whole. -/
theorem takeWhole_held (h : Held bg m data (b :: n :: rest) frees) (hb : b.kind = .free)
    (hnext : b.Next n) {t g l : Int} (hcounters : Counters m bg t g l)
    (hlong : IsLong (t + b.size)) :
    ∃ m' frees' data', takeWhole m bg b.addr = some (b.addr + 16, m') ∧
      Held bg m' data' ({ b with kind := .used } :: { n with prev := 0 } :: rest) frees' ∧
      Counters m' bg (t + b.size) ((g + 1).bmod (2 ^ 64)) l ∧
      ∀ i, i < b.addr ∨ b.addr + b.size ≤ i → data' i = data i := by
  have hstop : b.kind ≠ .stop := by rw [hb]; decide
  have hnaddr := hnext.addr hstop
  have hbheader := h.header b List.mem_cons_self
  have hnheader := h.header n (by simp)
  have hbfits := h.fits b List.mem_cons_self
  have hbleast := hbfits.least hstop
  have hbpos := hbfits.pos
  have hbtop := hbfits.top
  have hbvars := h.vars b List.mem_cons_self
  have hnvars := h.vars n (by simp)
  have hnsize := fits_size (h.fits n (by simp))
  have htag : tag b = b.size := by rw [tag, hb]
  have hback : n.prev = b.size := by rw [hnext.prev, Block.back, if_pos hb]
  rw [htag] at hbheader
  rw [hback] at hnheader
  obtain ⟨hapart, -⟩ := List.pairwise_cons.mp h.apart
  obtain ⟨m1, frees', hm1, hheld1, hoff, -⟩ := h.unlink hb
  unfold Clear at hbvars hnvars
  -- The header of the block is as it was when its size is negated.
  have hheader1 : Header m1 b.addr b.prev b.size := hbheader.congr fun i hlow hhigh =>
    hoff i (h.off_links List.mem_cons_self hlow (by omega) (.inl hhigh))
  have hheader2 : Header (counted m1 bg b.size) b.addr b.prev b.size :=
    hheader1.congr fun i hlow hhigh => counted_other (by omega)
  have hcounters2 : Counters (counted m1 bg b.size) bg (t + b.size) ((g + 1).bmod (2 ^ 64)) l :=
    (hcounters.congr fun i hlow hhigh => hoff i (h.off_counters hlow (by omega))).counted hlong
  have hheld3 : Held bg (setBsize (counted m1 bg b.size) b.addr (-b.size)) data (n :: rest)
      frees' := by
    refine (hheld1.counted b.size).of_clear (b.addr + 8) (b.addr + 16)
      (fun i hi => word_outside (by omega)) (fun c hc => ?_) (by omega)
    have hcapart := hapart c hc
    unfold Block.Apart at hcapart
    unfold Clear
    omega
  have hheader3 := hheader2.setBsize (show IsLong (-b.size) from ⟨by omega, by omega⟩)
  have hcounters3 : Counters (setBsize (counted m1 bg b.size) b.addr (-b.size)) bg (t + b.size)
      ((g + 1).bmod (2 ^ 64)) l := hcounters2.congr fun i hlow hhigh => word_outside (by omega)
  generalize hm3 : setBsize (counted m1 bg b.size) b.addr (-b.size) = m3 at hheld3 hheader3 hcounters3
  have hheld4 := hheld3.setPrevfree 0 ⟨by omega, by omega⟩
  obtain ⟨hbn, hbrest⟩ := List.forall_mem_cons.mp hapart
  obtain ⟨data', hheld5, hdata⟩ := hheld4.give (b := { b with kind := .used }) rfl
    (List.forall_mem_cons.mpr ⟨hbn, hbrest⟩)
    ⟨hbpos, hbtop, fun heq => Kind.noConfusion heq, fun _ => hbleast⟩ hbvars
    (hheader3.congr fun i hlow hhigh => word_outside (by omega))
  refine ⟨setPrevfree m3 n.addr 0, frees', data', ?_, hheld5,
    hcounters3.congr fun i hlow hhigh => word_outside (by omega), hdata⟩
  simp only [takeWhole, hbheader.size, ← hnaddr, hnheader.prev, guard_true, hm1, hheader1.size,
    hheader2.size, hm3, Option.pure_def, Option.bind_eq_bind, Option.bind_some]

/-- **A free block is given away as a whole.** -/
theorem takeWhole_inv (h : Inv s data (k ++ b :: n :: r) frees gets rels) (hb : b.kind = .free) :
    ∃ m' frees' data', takeWhole s.mem s.bg b.addr = some (b.addr + 16, m') ∧
      Inv ⟨s.bg, m'⟩ data' (k ++ { b with kind := .used } :: { n with prev := 0 } :: r) frees'
        (gets + 1) rels ∧
      ∀ i, i < b.addr ∨ b.addr + b.size ≤ i → data' i = data i := by
  have htiled := h.tiled.take (by decide) (by decide) hb
  have htotal : total .used (k ++ { b with kind := .used } :: { n with prev := 0 } :: r) =
      total .used (k ++ b :: n :: r) + b.size := by
    simp only [total_append, total_cons, hb, reduceCtorEq, if_true, if_false]
    ring
  have hlong := total_long htiled .used
  rw [htotal] at hlong
  obtain ⟨n', r', hr, hnext⟩ := h.tiled.exists_next (by rw [hb]; decide)
  obtain ⟨rfl, rfl⟩ := List.cons.inj hr
  obtain ⟨m', frees', data', htake, hheld, hcounters, hdata⟩ := takeWhole_held
    (h.held.perm (perm_front b n k r)) hb hnext h.counters hlong
  rw [gets_succ, ← htotal] at hcounters
  exact ⟨m', frees', data', htake, ⟨hheld.perm (perm_front _ _ k r).symm, htiled, hcounters⟩,
    hdata⟩

/-! ### The end of a block -/

/-- The end of a free block is given away. -/
theorem splitOff_held (h : Held bg m data (b :: n :: rest) frees) (hb : b.kind = .free)
    (hnext : b.Next n) (hsize : 32 ≤ size) (hleft : 32 ≤ b.size - size) {t g l : Int}
    (hcounters : Counters m bg t g l) (hlong : IsLong (t + size)) :
    ∃ m' data', splitOff m bg b.addr size = some ((b.right size).addr + 16, m') ∧
      Held bg m' data' (b.left size :: b.right size :: { n with prev := 0 } :: rest) frees ∧
      Counters m' bg (t + size) ((g + 1).bmod (2 ^ 64)) l ∧
      ∀ i, i < b.addr ∨ b.addr + b.size ≤ i → data' i = data i := by
  have hstop : b.kind ≠ .stop := by rw [hb]; decide
  have hnaddr := hnext.addr hstop
  have hbheader := h.header b List.mem_cons_self
  have hnheader := h.header n (by simp)
  have hbfits := h.fits b List.mem_cons_self
  have hbpos := hbfits.pos
  have hbtop := hbfits.top
  have hbvars := h.vars b List.mem_cons_self
  have hnvars := h.vars n (by simp)
  have hnsize := fits_size (h.fits n (by simp))
  have htag : tag b = b.size := by rw [tag, hb]
  have hback : n.prev = b.size := by rw [hnext.prev, Block.back, if_pos hb]
  rw [htag] at hbheader
  rw [hback] at hnheader
  obtain ⟨hbn, hbrest⟩ := List.forall_mem_cons.mp (List.pairwise_cons.mp h.apart).1
  unfold Clear at hbvars hnvars
  unfold Block.Apart at hbn hbrest
  -- The block is cut short first: what was its end is then no block's.
  have hbheader1 := hbheader.setBsize (show IsLong (b.size - size) from ⟨by omega, by omega⟩)
  have hheld1 : Held bg (setBsize m b.addr (b.size - size)) data (b.left size :: n :: rest)
      frees := by
    refine h.setHeader (show (b.left size).addr = b.addr from rfl) rfl (fun hused => ?_) ?_
      ⟨hbpos, ?_, fun hs => absurd hs hstop, fun _ => hleft⟩ ?_ ?_ fun i hi => word_outside (by omega)
    · rw [hb] at hused
      exact Kind.noConfusion hused
    · refine List.forall_mem_cons.mpr ⟨?_, fun c hc => ?_⟩
      · unfold Block.Apart
        simp only [Block.left]
        omega
      · have hcapart := hbrest c hc
        unfold Block.Apart
        simp only [Block.left]
        omega
    · simp only [Block.left]
      omega
    · unfold Clear
      simp only [Block.left]
      omega
    · have htag' : tag (b.left size) = b.size - size := by
        rw [tag]
        simp only [Block.left, hb]
      rw [htag']
      exact hbheader1
  have hright : (b.right size).addr = b.addr + (b.size - size) := rfl
  have hna : n.addr = (b.right size).addr + size := by omega
  generalize hm1 : setBsize m b.addr (b.size - size) = m1 at hheld1 hbheader1
  generalize (b.right size).addr = a at hright hna ⊢
  have hheld3 : Held bg (setBsize (setPrevfree m1 a (b.size - size)) a (-size)) data
      (b.left size :: n :: rest) frees := by
    refine hheld1.of_clear a (a + 16) (fun i hi => ?_) (fun c hc => ?_) (by omega)
    · have houtside : setPrevfree m1 a (b.size - size) i = m1 i := word_outside (by omega)
      exact (word_outside (by omega)).trans houtside
    · simp only [List.mem_cons] at hc
      unfold Clear
      rcases hc with rfl | rfl | hc
      · simp only [Block.left]
        omega
      · omega
      · have hcapart := hbrest c hc
        omega
  have hheader3 : Header (setBsize (setPrevfree m1 a (b.size - size)) a (-size)) a (b.size - size)
      (-size) :=
    ⟨(word_apart (.inr (by omega))).trans (word_store ⟨by omega, by omega⟩),
      word_store ⟨by omega, by omega⟩⟩
  have hcounters3 : Counters (setBsize (setPrevfree m1 a (b.size - size)) a (-size)) bg t g l := by
    subst hm1
    exact ((hcounters.congr fun i hlow hhigh => word_outside (by omega)).congr
      fun i hlow hhigh => word_outside (by omega)).congr fun i hlow hhigh => word_outside (by omega)
  generalize hm3 : setBsize (setPrevfree m1 a (b.size - size)) a (-size) = m3
    at hheld3 hheader3 hcounters3
  have hheld4 := (((hheld3.perm (List.Perm.swap _ _ _)).setPrevfree 0
    ⟨by omega, by omega⟩).perm (List.Perm.swap _ _ _)).counted size
  have hheader4 : Header (counted (setPrevfree m3 n.addr 0) bg size) a (b.size - size) (-size) :=
    (hheader3.congr fun i hlow hhigh => word_outside (by omega)).congr
      fun i hlow hhigh => counted_other (by omega)
  have hcounters4 : Counters (counted (setPrevfree m3 n.addr 0) bg size) bg (t + size)
      ((g + 1).bmod (2 ^ 64)) l :=
    (hcounters3.congr fun i hlow hhigh => word_outside (by omega)).counted hlong
  have hclear : ∀ c : Block, (c.addr + c.size ≤ a ∨ a + size ≤ c.addr) →
      Block.Apart ⟨a, size, .used, b.size - size⟩ c := fun c hc => hc.symm
  obtain ⟨data', hheld5, hdata⟩ := hheld4.give (b := ⟨a, size, .used, b.size - size⟩) rfl
    (List.forall_mem_cons.mpr ⟨hclear _ (.inl (by simp only [Block.left]; omega)),
      List.forall_mem_cons.mpr ⟨hclear _ (.inr (by simp only; omega)), fun c hc =>
        hclear c (by have hcapart := hbrest c hc; omega)⟩⟩)
    ⟨by simp only; omega, by simp only; omega, fun heq => Kind.noConfusion heq, fun _ => hsize⟩
    (by unfold Clear; simp only; omega) hheader4
  refine ⟨counted (setPrevfree m3 n.addr 0) bg size, data', ?_, ?_, hcounters4,
    fun i hi => hdata i (by simp only; omega)⟩
  · simp only [splitOff, hbheader.size, ← hright, ← hna, hnheader.prev, guard_true, hm1,
      hbheader1.size, hm3, Option.pure_def, Option.bind_eq_bind, Option.bind_some]
  · have hblock : b.right size = ⟨a, size, .used, b.size - size⟩ := by rw [hright]; rfl
    rw [hblock]
    exact hheld5.perm (List.Perm.swap _ _ _)

/-- **The end of a free block is given away.** -/
theorem splitOff_inv (h : Inv s data (k ++ b :: n :: r) frees gets rels) (hb : b.kind = .free)
    (hsize : 32 ≤ size) (hleft : 32 ≤ b.size - size) :
    ∃ m' data', splitOff s.mem s.bg b.addr size = some ((b.right size).addr + 16, m') ∧
      Inv ⟨s.bg, m'⟩ data' (k ++ b.left size :: b.right size :: { n with prev := 0 } :: r) frees
        (gets + 1) rels ∧
      ∀ i, i < b.addr ∨ b.addr + b.size ≤ i → data' i = data i := by
  have htiled := h.tiled.split (by decide) (by decide) hb hsize hleft
  have htotal : total .used (k ++ b.left size :: b.right size :: { n with prev := 0 } :: r) =
      total .used (k ++ b :: n :: r) + size := by
    simp only [total_append, total_cons, Block.left, Block.right, hb, reduceCtorEq, if_true,
      if_false]
    ring
  have hlong := total_long htiled .used
  rw [htotal] at hlong
  obtain ⟨n', r', hr, hnext⟩ := h.tiled.exists_next (by rw [hb]; decide)
  obtain ⟨rfl, rfl⟩ := List.cons.inj hr
  obtain ⟨m', data', hsplit, hheld, hcounters, hdata⟩ := splitOff_held
    (h.held.perm (perm_front b n k r)) hb hnext hsize hleft h.counters hlong
  rw [gets_succ, ← htotal] at hcounters
  refine ⟨m', data', hsplit, ⟨hheld.perm ?_, htiled, hcounters⟩, hdata⟩
  have hfront := perm_front (b.left size) (b.right size) k ({ n with prev := 0 } :: r)
  exact ((List.perm_middle.cons _).cons _).symm.trans hfront.symm

end Awoke.Benchmark.Bget
