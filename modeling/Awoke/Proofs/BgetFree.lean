/-
What comes back to the allocator.

A buffer that is released is first made part of the free one before it, or put on the list on its
own, and then takes in the one behind it if that is free.  In the tiling, two or three neighbours
become one free block.
-/
import Awoke.Proofs.BgetAlloc

namespace Awoke.Benchmark.Bget

open Cells (load store)
open Tiling

variable {s : State} {bg size : Int} {m m' data : Cells UInt8} {b f n p x : Block}
  {blocks k r rest : List Block} {frees : List Int} {gets rels : Nat}

/-- A change of memory that leaves the counters as they are. -/
def KeepsCounters (bg : Int) (m m' : Cells UInt8) : Prop :=
  ∀ i, bg + 32 ≤ i → i < bg + 56 → m' i = m i

/-- **A free block grows** over a range that is no other block's. -/
theorem Held.grow (h : Held bg m data (f :: rest) frees) (size : Int) (hf : f.kind = .free) (hsize : 0 ≤ size)
    (htop : f.addr + f.size + size ≤ 2 ^ 63)
    (hrest : ∀ c ∈ rest, Clear (f.addr + f.size) (f.addr + f.size + size) c)
    (hvars : f.addr + f.size + size ≤ bg ∨ bg + 64 ≤ f.addr + f.size) :
    Held bg (setBsize m f.addr (f.size + size)) data ({ f with size := f.size + size } :: rest)
        frees ∧
      KeepsCounters bg m (setBsize m f.addr (f.size + size)) := by
  have hfits := h.fits f List.mem_cons_self
  have hpos := hfits.pos
  have hleast := hfits.least (by rw [hf]; decide)
  have hfvars := h.vars f List.mem_cons_self
  have hfheader := h.header f List.mem_cons_self
  have hapart := (List.pairwise_cons.mp h.apart).1
  unfold Clear at hfvars
  refine ⟨h.setHeader rfl rfl (fun hused => ?_) (fun c hc => ?_) ⟨hpos, ?_, ?_, fun _ => ?_⟩ ?_ ?_
    fun i hi => word_outside (by omega), fun i hlow hhigh => word_outside (by omega)⟩
  · rw [hf] at hused
    exact nomatch hused
  · have hcapart := hapart c hc
    have hclear := hrest c hc
    have hcsize := fits_size (h.fits c (List.mem_cons_of_mem f hc))
    unfold Block.Apart at hcapart ⊢
    unfold Clear at hclear
    simp only
    omega
  · simp only
    omega
  · rw [hf]
    exact nofun
  · simp only
    omega
  · unfold Clear
    simp only
    omega
  · have htag : tag { f with size := f.size + size } = f.size + size := by
      rw [tag]
      simp only [hf]
    rw [htag]
    exact hfheader.setBsize ⟨by omega, by omega⟩

/-! ### The block before -/

/-- A buffer is made part of the free one before it. -/
theorem joinPrev_held (h : Held bg m data (p :: b :: rest) frees) (hp : p.kind = .free)
    (hb : b.kind = .used) (hnext : p.Next b) :
    ∃ m', joinPrev m b.addr = some (p.addr, m') ∧
      Held bg m' data ({ p with size := p.size + b.size } :: rest) frees ∧
      KeepsCounters bg m m' := by
  have haddr := hnext.addr (by rw [hp]; decide)
  have hbheader := h.header b (by simp)
  have hpheader := h.header p List.mem_cons_self
  have hbfits := h.fits b (by simp)
  have hbtop := hbfits.top
  have hbsize := fits_size hbfits
  have hbvars := h.vars b (by simp)
  have hback : b.prev = p.size := by rw [hnext.prev, Block.back, if_pos hp]
  have htag : tag b = -b.size := by rw [tag, hb]
  have hptag : tag p = p.size := by rw [tag, hp]
  rw [hback, htag] at hbheader
  rw [hptag] at hpheader
  obtain ⟨-, hpw⟩ := List.pairwise_cons.mp h.apart
  obtain ⟨hbapart, -⟩ := List.pairwise_cons.mp hpw
  have hheld := (h.perm (List.Perm.swap _ _ _)).drop (by rw [hb]; decide)
  unfold Clear at hbvars
  obtain ⟨hgrown, hkeeps⟩ := hheld.grow b.size hp (by omega) (by omega)
    (fun c hc => by
      have hcapart := hbapart c hc
      unfold Block.Apart at hcapart
      unfold Clear
      omega) (by omega)
  refine ⟨_, ?_, hgrown, hkeeps⟩
  have hpaddr : b.addr - p.size = p.addr := by omega
  simp only [joinPrev, hbheader.prev, hbheader.size, hpaddr, hpheader.size, guard_true,
    Int.sub_neg, Option.pure_def, Option.bind_eq_bind, Option.bind_some]

/-- A buffer is put on the list on its own. -/
theorem freeAlone_held (h : Held bg m data (b :: rest) frees) (hb : b.kind = .used) :
    ∃ m', freeAlone m bg b.addr = some (b.addr, m') ∧
      Held bg m' data ({ b with kind := .free } :: rest) (frees ++ [b.addr]) ∧
      KeepsCounters bg m m' := by
  have hbheader := h.header b List.mem_cons_self
  have hbfits := h.fits b List.mem_cons_self
  have hbvars := h.vars b List.mem_cons_self
  have hleast := hbfits.least (by rw [hb]; decide)
  have htag : tag b = -b.size := by rw [tag, hb]
  rw [htag] at hbheader
  obtain ⟨hbapart, -⟩ := List.pairwise_cons.mp h.apart
  have hrest := h.drop (by rw [hb]; decide)
  obtain ⟨m1, hm1, hheader, hheld, hsame⟩ := hrest.link (b := { b with kind := .free }) rfl hbapart
    ⟨hbfits.pos, hbfits.top, fun heq => Kind.noConfusion heq, fun _ => hleast⟩ hbvars hbheader
  refine ⟨setBsize m1 b.addr b.size, ?_, hheld, fun i hlow hhigh => ?_⟩
  · have hneg : bsize m1 b.addr = -b.size := hheader.size
    have hlink : linkFree m bg b.addr = some m1 := hm1
    simp only [freeAlone, hlink, hneg, Int.neg_neg, Option.pure_def, Option.bind_eq_bind,
      Option.bind_some]
  · unfold Clear at hbvars
    exact hsame i (by simp only; omega) (hrest.off_counters hlow (by omega))

/-! ### The block behind -/

/-- A free buffer takes in the free one behind it. -/
theorem joinNext_free (h : Held bg m data (f :: n :: x :: rest) frees) (hf : f.kind = .free)
    (hn : n.kind = .free) (hfn : f.addr + f.size = n.addr) (hnext : n.Next x) :
    ∃ m' frees', joinNext m f.addr = some (x.addr, m') ∧
      Held bg m' data ({ f with size := f.size + n.size } :: x :: rest) frees' ∧
      KeepsCounters bg m m' := by
  have haddr := hnext.addr (by rw [hn]; decide)
  have hfheader := h.header f List.mem_cons_self
  have hnheader := h.header n (by simp)
  have hxheader := h.header x (by simp)
  have hnfits := h.fits n (by simp)
  have hntop := hnfits.top
  have hnsize := fits_size hnfits
  have hfsize := fits_size (h.fits f List.mem_cons_self)
  have hnvars := h.vars n (by simp)
  have hback : x.prev = n.size := by rw [hnext.prev, Block.back, if_pos hn]
  have htag : tag f = f.size := by rw [tag, hf]
  have hntag : tag n = n.size := by rw [tag, hn]
  rw [htag] at hfheader
  rw [hntag] at hnheader
  rw [hback] at hxheader
  have hswap := h.perm (List.Perm.swap _ _ _)
  obtain ⟨hnapart, -⟩ := List.pairwise_cons.mp hswap.apart
  obtain ⟨m1, frees', hm1, hheld, hoff, -⟩ := hswap.unlink hn
  unfold Clear at hnvars
  obtain ⟨hgrown, hkeeps⟩ := hheld.grow n.size hf (by omega) (by omega)
    (fun c hc => by
      have hcapart := hnapart c (List.mem_cons_of_mem f hc)
      unfold Block.Apart at hcapart
      unfold Clear
      omega) (by omega)
  have hfheader1 : Header m1 f.addr f.prev f.size := hfheader.congr fun i hlow hhigh =>
    hoff i (h.off_links List.mem_cons_self hlow (by omega) (.inl hhigh))
  have hnheader1 : Header m1 n.addr n.prev n.size := hnheader.congr fun i hlow hhigh =>
    hoff i (h.off_links (by simp) hlow (by omega) (.inl hhigh))
  have hgrownSize : bsize (setBsize m1 f.addr (f.size + n.size)) f.addr = f.size + n.size := by
    have hheader := hgrown.header _ List.mem_cons_self
    have hgtag : tag { f with size := f.size + n.size } = f.size + n.size := by
      rw [tag]
      simp only [hf]
    rw [hgtag] at hheader
    exact hheader.size
  have hend : f.addr + (f.size + n.size) = x.addr := by omega
  have hpos : n.size > 0 := by omega
  refine ⟨setBsize m1 f.addr (f.size + n.size), frees', ?_, hgrown, fun i hlow hhigh => ?_⟩
  · simp only [joinNext, hfheader.size, hfn, hnheader.size, if_pos hpos, ← haddr, hxheader.prev,
      guard_true, hm1, hfheader1.size, hnheader1.size, hgrownSize, hend, Option.pure_def,
      Option.bind_eq_bind, Option.bind_some]
  · exact (hkeeps i hlow hhigh).trans (hoff i (h.off_counters hlow (by omega)))

theorem Held.bsize_neg (h : Held bg m data blocks frees) (hb : b ∈ blocks) (hfree : b.kind ≠ .free) :
    bsize m b.addr < 0 := by
  have hsize := fits_size (h.fits b hb)
  rw [(h.header b hb).size, tag]
  cases hkind : b.kind with
  | free => exact absurd hkind hfree
  | used =>
      simp only
      omega
  | stop => exact (by decide : eSent < 0)

theorem joinNext_other (h : Held bg m data (f :: n :: rest) frees) (hf : f.kind = .free)
    (hn : n.kind ≠ .free) (hfn : f.addr + f.size = n.addr) :
    joinNext m f.addr = some (n.addr, m) := by
  have hfheader := h.header f List.mem_cons_self
  have htag : tag f = f.size := by rw [tag, hf]
  rw [htag] at hfheader
  have hneg : ¬bsize m n.addr > 0 := Int.not_lt.mpr (Int.le_of_lt (h.bsize_neg (by simp) hn))
  simp only [joinNext, hfheader.size, hfn, if_neg hneg, Option.pure_def]

/-! ### To release -/

/-- What `brel` does first is to count. -/
theorem Held.uncount (h : Held bg m data blocks frees) (size : Int) {t g l : Int} (hcounters : Counters m bg t g l)
    (hlong : IsLong (t - size)) :
    Held bg (setTotalloc (setNumrel m bg (l + 1)) bg (t - size)) data blocks frees ∧
      Counters (setTotalloc (setNumrel m bg (l + 1)) bg (t - size)) bg (t - size) g
        ((l + 1).bmod (2 ^ 64)) ∧
      ∀ i, i < bg + 32 ∨ bg + 56 ≤ i →
        setTotalloc (setNumrel m bg (l + 1)) bg (t - size) i = m i := by
  have hsame : ∀ i, i < bg + 32 ∨ bg + 56 ≤ i →
      setTotalloc (setNumrel m bg (l + 1)) bg (t - size) i = m i := by
    intro i hi
    have houtside : setNumrel m bg (l + 1) i = m i := word_outside (by omega)
    exact (word_outside (by omega)).trans houtside
  refine ⟨h.of_clear (bg + 32) (bg + 56) hsame (fun c hc => ?_) (.inl (Int.le_refl _)),
    ⟨word_store hlong, ?_, ?_⟩, hsame⟩
  · have hvars := h.vars c hc
    unfold Clear at hvars ⊢
    omega
  · exact ((word_apart (.inl (by omega))).trans (word_apart (.inr (by omega)))).trans
      hcounters.numget
  · exact (word_apart (.inl (by omega))).trans word_store_bmod

/-- What `brel` comes to, once it is known how the buffer is joined. -/
theorem brel_of_joined (h : Held s.bg s.mem data (b :: n :: rest) frees) (hb : b.kind = .used)
    (hnext : b.Next n) {t g l : Int} (hcounters : Counters s.mem s.bg t g l)
    (hnonneg : 0 ≤ t - b.size) (hlong : IsLong (t - b.size)) :
    ∃ m1, Held s.bg m1 data (b :: n :: rest) frees ∧
      Counters m1 s.bg (t - b.size) g ((l + 1).bmod (2 ^ 64)) ∧
      ∀ (f x : Block) (m2 m3 : Cells UInt8) (others : List Block) (frees' : List Int),
        (if b.prev ≠ 0 then joinPrev m1 b.addr else freeAlone m1 s.bg b.addr) =
          some (f.addr, m2) →
        joinNext m2 f.addr = some (x.addr, m3) →
        Held s.bg m3 data (f :: x :: others) frees' → f.kind = .free → x.kind ≠ .free →
        brel s (b.addr + 16) = some (setPrevfree m3 x.addr f.size) := by
  have haddr := hnext.addr (by rw [hb]; decide)
  have hbfits := h.fits b List.mem_cons_self
  have hbpos := hbfits.pos
  have hbsize := fits_size hbfits
  have hbvars := h.vars b List.mem_cons_self
  have hnvars := h.vars n (by simp)
  have hnsize := fits_size (h.fits n (by simp))
  have hbheader := h.header b List.mem_cons_self
  have hnheader := h.header n (by simp)
  have htag : tag b = -b.size := by rw [tag, hb]
  have hback : n.prev = 0 := by
    rw [hnext.prev, Block.back, if_neg]
    rw [hb]
    decide
  rw [htag] at hbheader
  rw [hback] at hnheader
  unfold Clear at hbvars hnvars
  obtain ⟨hheld1, hcounters1, hsame⟩ := h.uncount b.size hcounters hlong
  have hpos := h.pos
  have hne : s.bg ≠ 0 := by omega
  have hbuf : b.addr + 16 ≠ 0 := by omega
  have hneg : -b.size < 0 := by omega
  have hsub : b.addr - -b.size = n.addr := by omega
  have hadd : t + -b.size = t - b.size := by omega
  -- The headers are read with one counter written.
  have hbheader' : Header (setNumrel s.mem s.bg (l + 1)) b.addr b.prev (-b.size) :=
    hbheader.congr fun i hlow hhigh => word_outside (by omega)
  have hnheader' : Header (setNumrel s.mem s.bg (l + 1)) n.addr 0 (tag n) :=
    hnheader.congr fun i hlow hhigh => word_outside (by omega)
  have hbheader1 : Header (setTotalloc (setNumrel s.mem s.bg (l + 1)) s.bg (t - b.size)) b.addr
      b.prev (-b.size) := hbheader.congr fun i hlow hhigh => hsame i (by omega)
  refine ⟨_, hheld1, hcounters1, fun f x m2 m3 others frees' hprev hjoin hheld hf hx => ?_⟩
  have htotal : totalloc (setNumrel s.mem s.bg (l + 1)) s.bg = t :=
    (word_apart (.inr (by omega))).trans hcounters.totalloc
  have hxneg := hheld.bsize_neg (b := x) (by simp) hx
  have hfsize : bsize m3 f.addr = f.size := by
    rw [(hheld.header f List.mem_cons_self).size, tag, hf]
  simp only [brel, add_sub_cancel_right, hcounters.numrel, hbheader'.size, hneg, hsub,
    hnheader'.prev, htotal, hadd, hcounters1.totalloc, ge_iff_le, hnonneg, hbheader1.prev, hne, hbuf,
    ne_eq, not_false_eq_true, guard_true, Option.pure_def, Option.bind_eq_bind, Option.bind_some]
  by_cases hzero : b.prev = 0
  · rw [if_neg (not_not_intro hzero)] at hprev ⊢
    rw [hprev, Option.bind_some, hjoin, Option.bind_some, hfsize]
    simp only [hxneg, guard_true, Option.pure_def, Option.bind_some]
  · rw [if_pos hzero] at hprev ⊢
    rw [hprev, Option.bind_some, hjoin, Option.bind_some, hfsize]
    simp only [hxneg, guard_true, Option.pure_def, Option.bind_some]

/-- The invariant, once a buffer is joined with its neighbours. -/
theorem Inv.joined (mid : List Block) {m3 : Cells UInt8} {frees' : List Int} {t : Int}
    (h : Inv s data (k ++ (f :: mid ++ x :: r)) frees gets rels)
    (hmid : ∀ b ∈ f :: mid, b.kind ≠ .stop) (hf : f.kind = .free ∨ f.prev = 0)
    (hx : x.kind ≠ .free) (hheld : Held s.bg m3 data (f.merged x :: x :: (k ++ r)) frees')
    (hcounters : Counters m3 s.bg t ((gets : Int).bmod (2 ^ 64))
      (((rels + 1 : Nat) : Int).bmod (2 ^ 64)))
    (ht : total .used (k ++ (f :: mid ++ x :: r)) = t + total .used (f :: mid)) :
    Inv ⟨s.bg, setPrevfree m3 x.addr (x.addr - f.addr)⟩ data
      (k ++ f.merged x :: { x with prev := x.addr - f.addr } :: r) frees' gets (rels + 1) := by
  have htiled := h.tiled.merge (by decide) (by decide) hmid hf hx
  have hffits := hheld.fits (f.merged x) List.mem_cons_self
  have hfsize := fits_size hffits
  have hftop := hffits.top
  have hfpos := hffits.pos
  have hxvars := hheld.vars x (by simp)
  have hxsize := fits_size (hheld.fits x (by simp))
  unfold Clear at hxvars
  simp only [Block.merged] at hfsize hftop hfpos
  have hset := (hheld.perm (List.Perm.swap _ _ _)).setPrevfree (x.addr - f.addr)
    ⟨by omega, by omega⟩
  have htotal : total .used (k ++ f.merged x :: { x with prev := x.addr - f.addr } :: r) = t := by
    simp only [total_append, total_cons, List.cons_append, Block.merged, reduceCtorEq, if_false]
      at ht ⊢
    linarith
  refine ⟨hset.perm ((List.Perm.swap _ _ _).trans (perm_front _ _ k r).symm), htiled, ?_⟩
  rw [htotal]
  exact hcounters.congr fun i hlow hhigh => word_outside (by omega)

theorem rels_succ (rels : Nat) :
    ((rels : Int).bmod (2 ^ 64) + 1).bmod (2 ^ 64) = ((rels + 1 : Nat) : Int).bmod (2 ^ 64) :=
  gets_succ rels

/-- A buffer and the free block before it, if there is one: they become one free block `f`. -/
structure Before (s : State) (data m1 : Cells UInt8) (k : List Block) (b n : Block) (r k' : List Block)
    (f : Block) (mid : List Block) (m2 : Cells UInt8) (frees : List Int) : Prop where
  cut : k ++ b :: n :: r = k' ++ (f :: mid ++ n :: r)
  mem : b ∈ f :: mid
  only : ∀ c ∈ f :: mid, c = b ∨ c.kind = .free
  first : f.kind = .free ∨ f.prev = 0
  total : total .used (f :: mid) = b.size
  run : (if b.prev ≠ 0 then joinPrev m1 b.addr else freeAlone m1 s.bg b.addr) = some (f.addr, m2)
  held : Held s.bg m2 data (f.merged n :: n :: (k' ++ r)) frees
  keeps : KeepsCounters s.bg m1 m2

theorem Inv.before (h : Inv s data (k ++ b :: n :: r) frees gets rels) (hb : b.kind = .used)
    (hnext : b.Next n) {m1 : Cells UInt8} (hheld : Held s.bg m1 data (b :: n :: (k ++ r)) frees) :
    ∃ k' f mid m2 frees', Before s data m1 k b n r k' f mid m2 frees' := by
  have hbaddr := hnext.addr (by rw [hb]; decide)
  by_cases hprev : b.prev = 0
  · -- The block before is not free.
    obtain ⟨m2, hm2, hheld2, hkeeps⟩ := freeAlone_held hheld hb
    have hmerged : ({ b with kind := .free } : Block) = b.merged n :=
      Block.eq_merged rfl hbaddr.symm rfl rfl
    rw [hmerged] at hheld2
    refine ⟨k, b, [], m2, _, rfl, List.mem_cons_self, ?_, .inr hprev, ?_,
      (if_neg (not_not_intro hprev)).trans hm2, hheld2, hkeeps⟩
    · exact fun c hc => .inl (List.mem_singleton.mp hc)
    · simp only [total_cons, total_nil, hb, if_true, Int.add_zero]
  · -- The block before is free.
    obtain ⟨k, p, rfl, hp, hpb⟩ := h.tiled.exists_prev hprev
    have hpaddr := hpb.addr (by rw [hp]; decide)
    have hperm : (b :: n :: (k ++ [p] ++ r)).Perm (p :: b :: n :: (k ++ r)) := by
      rw [← List.append_cons]
      exact ((List.perm_middle.cons n).cons b).trans
        ((List.Perm.swap p n _).cons b |>.trans (List.Perm.swap p b _))
    obtain ⟨m2, hm2, hheld2, hkeeps⟩ := joinPrev_held (hheld.perm hperm) hp hb hpb
    have hmerged : ({ p with size := p.size + b.size } : Block) = p.merged n :=
      Block.eq_merged rfl (by simp only; omega) hp rfl
    rw [hmerged] at hheld2
    refine ⟨k, p, [b], m2, _, (List.append_cons ..).symm, by simp, ?_, .inl hp, ?_,
      (if_pos hprev).trans hm2, hheld2, hkeeps⟩
    · simp only [List.mem_cons, List.not_mem_nil, or_false]
      rintro c (rfl | rfl)
      · exact .inr hp
      · exact .inl rfl
    · simp only [total_cons, total_nil, hb, hp, reduceCtorEq, if_true, if_false, Int.add_zero,
        Int.zero_add]

/-- And the free block behind them, if there is one. -/
structure Behind (s : State) (data m2 : Cells UInt8) (k' : List Block) (f : Block) (mid : List Block)
    (n : Block) (r mid' : List Block) (x : Block) (r' : List Block) (m3 : Cells UInt8)
    (frees : List Int) : Prop where
  cut : f :: mid ++ n :: r = f :: mid' ++ x :: r'
  mem : ∀ c ∈ f :: mid, c ∈ f :: mid'
  only : ∀ c ∈ f :: mid', c ∈ f :: mid ∨ c.kind = .free
  last : x.kind ≠ .free
  total : total .used (f :: mid') = total .used (f :: mid)
  run : joinNext m2 f.addr = some (x.addr, m3)
  held : Held s.bg m3 data (f.merged x :: x :: (k' ++ r')) frees
  keeps : KeepsCounters s.bg m2 m3

theorem Inv.behind {mid : List Block} (h : Inv s data (k ++ (f :: mid ++ n :: r)) frees gets rels)
    {m2 : Cells UInt8} {frees2 : List Int}
    (hheld : Held s.bg m2 data (f.merged n :: n :: (k ++ r)) frees2) :
    ∃ mid' x r' m3 frees', Behind s data m2 k f mid n r mid' x r' m3 frees' := by
  have hend : (f.merged n).addr + (f.merged n).size = n.addr := by
    simp only [Block.merged]
    omega
  by_cases hn : n.kind = .free
  · have hcut : k ++ (f :: mid ++ n :: r) = (k ++ f :: mid) ++ n :: r := (List.append_assoc ..).symm
    have htiled := h.tiled
    rw [hcut] at htiled
    obtain ⟨x, r, rfl, hnx⟩ := htiled.exists_next (by rw [hn]; decide)
    have hnaddr := hnx.addr (by rw [hn]; decide)
    obtain ⟨m3, frees', hm3, hheld3, hkeeps⟩ := joinNext_free
      (hheld.perm ((List.perm_middle.cons n).cons _)) rfl hn hend hnx
    have hmerged := Block.eq_merged (f := f) (n := x)
      (g := { f.merged n with size := (f.merged n).size + n.size }) rfl
      (by simp only [Block.merged]; omega) rfl rfl
    rw [hmerged] at hheld3
    refine ⟨mid ++ [n], x, r, m3, frees', ?_, fun c hc => ?_, fun c hc => ?_, hnx.merged hn, ?_, hm3,
      hheld3, hkeeps⟩
    · simp only [List.cons_append, List.append_assoc, List.nil_append]
    · rw [← List.cons_append]
      exact List.mem_append_left _ hc
    · rw [← List.cons_append, List.mem_append, List.mem_singleton] at hc
      rcases hc with hc | rfl
      · exact .inl hc
      · exact .inr hn
    · have hnone : total .used [n] = 0 := by
        simp only [total_cons, total_nil, hn, reduceCtorEq, if_false, Int.add_zero]
      rw [← List.cons_append, total_append, hnone, Int.add_zero]
  · have hother : joinNext m2 (f.merged n).addr = some (n.addr, m2) :=
      joinNext_other hheld rfl hn hend
    exact ⟨mid, n, r, m2, frees2, rfl, fun _ hc => hc, fun _ hc => .inl hc, hn, rfl, hother, hheld,
      fun _ _ _ => rfl⟩

/-- **A buffer is released**: it becomes one free block with its free neighbours. -/
theorem brel_inv (h : Inv s data (k ++ b :: r) frees gets rels) (hb : b.kind = .used) :
    ∃ k' f mid x r' m' frees', k ++ b :: r = k' ++ (f :: mid ++ x :: r') ∧ b ∈ f :: mid ∧
      (∀ c ∈ f :: mid, c = b ∨ c.kind = .free) ∧ brel s (b.addr + 16) = some m' ∧
      Inv ⟨s.bg, m'⟩ data (k' ++ f.merged x :: { x with prev := x.addr - f.addr } :: r') frees' gets
        (rels + 1) := by
  have hstop : b.kind ≠ .stop := by rw [hb]; decide
  obtain ⟨n, r, rfl, hnext⟩ := h.tiled.exists_next hstop
  have hsize : ∀ c ∈ k ++ b :: n :: r, 0 ≤ c.size := fun c hc => by
    have hsize := fits_size (h.tiled.fits c hc)
    omega
  have hnonneg : 0 ≤ total .used (k ++ b :: n :: r) - b.size := by
    have hk := total_nonneg .used fun c (hc : c ∈ k) =>
      hsize c (List.mem_append_left _ hc)
    have hr := total_nonneg .used fun c (hc : c ∈ n :: r) =>
      hsize c (List.mem_append_right k (List.mem_cons_of_mem b hc))
    rw [total_append, total_cons, if_pos hb]
    omega
  have hbsize := hsize b (by simp)
  have hlong : IsLong (total .used (k ++ b :: n :: r) - b.size) := by
    have hall := total_long h.tiled .used
    unfold IsLong at hall ⊢
    omega
  obtain ⟨m1, hheld1, hcounters, hrel⟩ := brel_of_joined (h.held.perm (perm_front b n k r)) hb
    hnext h.counters hnonneg hlong
  rw [rels_succ] at hcounters
  obtain ⟨k', f, mid, m2, frees2, before⟩ := h.before hb hnext hheld1
  rw [before.cut] at h hcounters ⊢
  obtain ⟨mid', x, r', m3, frees3, behind⟩ := h.behind before.held
  rw [behind.cut] at h hcounters ⊢
  have honly : ∀ c ∈ f :: mid', c = b ∨ c.kind = .free := fun c hc =>
    (behind.only c hc).elim (before.only c) .inr
  refine ⟨k', f, mid', x, r', _, frees3, rfl, behind.mem b before.mem, honly,
    hrel (f.merged x) x m2 m3 _ _ before.run behind.run behind.held rfl behind.last,
    h.joined mid' (fun c hc => ?_) before.first behind.last behind.held
      ((hcounters.congr before.keeps).congr behind.keeps) ?_⟩
  · rcases honly c hc with rfl | hfree
    · exact hstop
    · rw [hfree]
      decide
  · rw [behind.total, before.total]
    omega

end Awoke.Benchmark.Bget
