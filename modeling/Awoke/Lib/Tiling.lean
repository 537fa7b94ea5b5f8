/-
Memory that is tiled with blocks.

The blocks lie one behind the other, up to one that is the stop; what comes behind a stop begins
anywhere else.  Every block knows the size of the one before it, if that is free, and two free blocks
are no neighbours.  A few blocks of a tiling can be replaced by others that cover the same range.

What is laid out up to a stop is a region, from where its first block begins to where the stop is.
-/
import Mathlib.Algebra.BigOperators.Group.List.Basic
import Mathlib.Data.Int.Interval
import Mathlib.Data.List.Chain
import Mathlib.Tactic.Linarith

namespace Tiling

/-- What a block is. -/
inductive Kind
  | free
  | used
  | stop
  deriving DecidableEq, Repr

/-- A block, and what it knows of the one before it. -/
structure Block where
  addr : Int
  size : Int
  kind : Kind
  prev : Int

namespace Block

/-- What the next block has to know. -/
def back (a : Block) : Int := if a.kind = .free then a.size else 0

/-- No cell is in both. -/
def Apart (a b : Block) : Prop := a.addr + a.size ≤ b.addr ∨ b.addr + b.size ≤ a.addr

theorem Apart.symm {a b : Block} (h : a.Apart b) : b.Apart a := Or.symm h

instance : Std.Symm Apart := ⟨fun _ _ => Apart.symm⟩

/-- The second may come behind the first. -/
structure Next (a b : Block) : Prop where
  addr : a.kind ≠ .stop → b.addr = a.addr + a.size
  merged : a.kind = .free → b.kind ≠ .free
  prev : b.prev = a.back

/-- A block as it may be: `header` is the size of a stop, `least` that of any other block at
least. -/
structure Fits (header least top : Int) (b : Block) : Prop where
  pos : 0 < b.addr
  top : b.addr + b.size ≤ top
  stop : b.kind = .stop → b.size = header
  least : b.kind ≠ .stop → least ≤ b.size

/-- What comes before all blocks. -/
def origin : Block := ⟨0, 0, .stop, 0⟩

end Block

open Block

/-- Blocks that tile some regions. -/
structure Tiled (header least top : Int) (blocks : List Block) : Prop where
  chain : (origin :: blocks).IsChain Next
  last : ∀ b ∈ blocks.getLast?, b.kind = .stop
  apart : blocks.Pairwise Apart
  fits : ∀ b ∈ blocks, b.Fits header least top

variable {header least top : Int} {blocks k r mid mid' : List Block} {a b c n : Block}

theorem Block.Fits.size_pos (h : b.Fits header least top) (hheader : 0 < header)
    (hleast : 0 < least) : 0 < b.size := by
  by_cases hstop : b.kind = .stop
  · rw [h.stop hstop]
    exact hheader
  · exact Int.lt_of_lt_of_le hleast (h.least hstop)

/-! ### Neighbours -/

/-- A chain is cut anywhere. -/
theorem chain_append_iff :
    (origin :: (k ++ r)).IsChain Next ↔
      (origin :: k).IsChain Next ∧ (k.getLastD origin :: r).IsChain Next := by
  have hlast := List.dropLast_append_getLast? (k.getLastD origin) (l := origin :: k) (by
    rw [List.getLast?_cons, List.getLastD_eq_getLast?]
    rfl)
  rw [← List.cons_append]
  nth_rewrite 1 2 [← hlast]
  rw [List.append_assoc, List.singleton_append]
  exact List.isChain_split

/-- What comes behind a block does not ask what it knows. -/
theorem chain_prev {p : Int} (h : (n :: r).IsChain Next) :
    ({ n with prev := p } :: r).IsChain Next := by
  cases r with
  | nil => exact .singleton _
  | cons x r =>
      obtain ⟨hnext, hrest⟩ := List.isChain_cons_cons.mp h
      exact List.isChain_cons_cons.mpr ⟨⟨hnext.addr, hnext.merged, hnext.prev⟩, hrest⟩

/-- The block before another one, if there is one. -/
theorem getLastD_eq_or_mem (k : List Block) :
    k.getLastD origin = origin ∨ k.getLastD origin ∈ k := by
  cases hk : k.getLast? with
  | none => exact .inl (by rw [List.getLastD_eq_getLast?, hk]; rfl)
  | some a =>
      refine .inr ?_
      rw [List.getLastD_eq_getLast?, hk]
      exact List.mem_of_getLast? hk

/-- A block that is no stop has one behind it. -/
theorem Tiled.exists_next (h : Tiled header least top (k ++ b :: r)) (hb : b.kind ≠ .stop) :
    ∃ n r', r = n :: r' ∧ b.Next n := by
  cases r with
  | nil => exact absurd (h.last b (by simp)) hb
  | cons n r =>
      have hchain := (chain_append_iff.mp h.chain).2
      exact ⟨n, r, rfl, (List.isChain_cons_cons.mp (List.isChain_cons_cons.mp hchain).2).1⟩

/-- **A block that knows of a free one** has it right before it. -/
theorem Tiled.exists_prev (h : Tiled header least top (k ++ b :: r)) (hb : b.prev ≠ 0) :
    ∃ k' a, k = k' ++ [a] ∧ a.kind = .free ∧ a.Next b := by
  have hnext := (List.isChain_cons_cons.mp (chain_append_iff.mp h.chain).2).1
  rcases List.eq_nil_or_concat' k with rfl | ⟨k', a, rfl⟩
  · exact absurd hnext.prev hb
  · rw [List.getLastD_concat] at hnext
    refine ⟨k', a, rfl, ?_, hnext⟩
    by_contra hfree
    exact hb (hnext.prev.trans (if_neg hfree))

/-! ### Replacing blocks -/

/-- **Some blocks of a tiling are replaced** by others that cover their range. -/
theorem Tiled.replace (mid mid' : List Block) {p : Int} (h : Tiled header least top (k ++ (mid ++ n :: r)))
    (hheader : 0 < header) (hleast : 0 < least)
    (hchain : ∀ a : Block, (a.kind = .free → 0 < a.size) → (a :: (mid ++ [n])).IsChain Next →
      (a :: (mid' ++ [{ n with prev := p }])).IsChain Next)
    (hapart : ∀ c : Block, 0 < c.size → (∀ b ∈ mid, b.Apart c) → ∀ b ∈ mid', b.Apart c)
    (hself : mid'.Pairwise Apart) (hfits : ∀ b ∈ mid', b.Fits header least top) :
    Tiled header least top (k ++ (mid' ++ { n with prev := p } :: r)) := by
  have hpos : ∀ b ∈ k ++ (mid ++ n :: r), 0 < b.size := fun b hb =>
    (h.fits b hb).size_pos hheader hleast
  obtain ⟨hpk, hprest, hpcross⟩ := List.pairwise_append.mp h.apart
  obtain ⟨-, hpback, hpmid⟩ := List.pairwise_append.mp hprest
  obtain ⟨hpn, hpr⟩ := List.pairwise_cons.mp hpback
  constructor
  · obtain ⟨hfront, hrest⟩ := chain_append_iff.mp h.chain
    rw [← List.cons_append] at hrest
    obtain ⟨hmid, hback⟩ := List.isChain_split.mp hrest
    refine chain_append_iff.mpr ⟨hfront, ?_⟩
    rw [← List.cons_append]
    refine List.isChain_split.mpr ⟨hchain _ ?_ hmid, chain_prev hback⟩
    intro hfree
    rcases getLastD_eq_or_mem k with horigin | hmem
    · rw [horigin] at hfree
      exact absurd hfree (by decide)
    · exact hpos _ (List.mem_append_left _ hmem)
  · intro b hb
    have hlast := h.last
    rw [← List.append_assoc, List.getLast?_append_cons] at hlast
    rw [← List.append_assoc, List.getLast?_append_cons] at hb
    cases r with
    | nil =>
        obtain rfl := Option.mem_some.mp hb
        exact hlast n rfl
    | cons x r => exact hlast b hb
  · refine List.pairwise_append.mpr ⟨hpk, List.pairwise_append.mpr ⟨hself,
      List.pairwise_cons.mpr ⟨hpn, hpr⟩, fun b hb c hc => ?_⟩, fun c hc b hb => ?_⟩
    · rcases List.mem_cons.mp hc with rfl | hc
      · exact hapart n (hpos n (by simp)) (fun b hb => hpmid b hb n List.mem_cons_self) b hb
      · exact hapart c (hpos c (by simp [hc]))
          (fun b hb => hpmid b hb c (List.mem_cons_of_mem n hc)) b hb
    · rcases List.mem_append.mp hb with hb | hb
      · exact (hapart c (hpos c (List.mem_append_left _ hc))
          (fun b hb => (hpcross c hc b (List.mem_append_left _ hb)).symm) b hb).symm
      · rcases List.mem_cons.mp hb with rfl | hb
        · exact hpcross c hc n (by simp)
        · exact hpcross c hc b (by simp [hb])
  · intro b hb
    rcases List.mem_append.mp hb with hb | hb
    · exact h.fits b (List.mem_append_left _ hb)
    rcases List.mem_append.mp hb with hb | hb
    · exact hfits b hb
    rcases List.mem_cons.mp hb with rfl | hb
    · obtain ⟨h1, h2, h3, h4⟩ := h.fits n (by simp)
      exact ⟨h1, h2, h3, h4⟩
    · exact h.fits b (by simp [hb])

/-! ### Taking, splitting and merging -/

/-- **A free block is used.** -/
theorem Tiled.take (h : Tiled header least top (k ++ b :: n :: r)) (hheader : 0 < header)
    (hleast : 0 < least) (hb : b.kind = .free) :
    Tiled header least top (k ++ { b with kind := .used } :: { n with prev := 0 } :: r) := by
  have hfits := h.fits b (by simp)
  have hstop : b.kind ≠ .stop := by rw [hb]; decide
  refine Tiled.replace [b] [{ b with kind := .used }] h hheader hleast
    (fun a _ hchain => ?_) (fun c _ hc d hd => ?_) (List.pairwise_singleton _ _) fun d hd => ?_
  · obtain ⟨hab, hbn⟩ := List.isChain_cons_cons.mp hchain
    exact List.isChain_cons_cons.mpr ⟨⟨hab.addr, fun _ => nofun, hab.prev⟩,
      List.isChain_pair.mpr ⟨fun _ => (List.isChain_pair.mp hbn).addr hstop, nofun, rfl⟩⟩
  · obtain rfl := List.mem_singleton.mp hd
    exact hc b List.mem_cons_self
  · obtain rfl := List.mem_singleton.mp hd
    exact ⟨hfits.pos, hfits.top, nofun, fun _ => hfits.least hstop⟩

/-- What is left of a free block whose end is used. -/
def Block.left (b : Block) (size : Int) : Block := { b with size := b.size - size }

/-- The end of a free block that is used. -/
def Block.right (b : Block) (size : Int) : Block where
  addr := b.addr + (b.size - size)
  size := size
  kind := .used
  prev := b.size - size

/-- **The end of a free block is used.** -/
theorem Tiled.split {size : Int} (h : Tiled header least top (k ++ b :: n :: r))
    (hheader : 0 < header) (hleast : 0 < least) (hb : b.kind = .free) (hsize : least ≤ size)
    (hrest : least ≤ b.size - size) :
    Tiled header least top (k ++ b.left size :: b.right size :: { n with prev := 0 } :: r) := by
  have hfits := h.fits b (by simp)
  have hpos := hfits.pos
  have htop := hfits.top
  have hstop : b.kind ≠ .stop := by rw [hb]; decide
  refine Tiled.replace [b] [b.left size, b.right size] h hheader hleast
    (fun a _ hchain => ?_) (fun c _ hc d hd => ?_) ?_ fun d hd => ?_
  · obtain ⟨hab, hbn⟩ := List.isChain_cons_cons.mp hchain
    have hnext := List.isChain_pair.mp hbn
    have haddr := hnext.addr hstop
    refine List.isChain_cons_cons.mpr ⟨⟨hab.addr, hab.merged, hab.prev⟩,
      List.isChain_cons_cons.mpr ⟨⟨fun _ => rfl, fun _ => nofun, ?_⟩,
        List.isChain_pair.mpr ⟨fun _ => ?_, nofun, rfl⟩⟩⟩
    · exact (if_pos hb).symm
    · rw [right]
      show n.addr = b.addr + (b.size - size) + size
      omega
  · have hapart := hc b List.mem_cons_self
    unfold Apart at hapart ⊢
    simp only [List.mem_cons, List.not_mem_nil, or_false] at hd
    rcases hd with rfl | rfl
    · simp only [left]
      omega
    · simp only [right]
      omega
  · refine List.pairwise_pair.mpr (.inl ?_)
    exact Int.le_refl _
  · simp only [List.mem_cons, List.not_mem_nil, or_false] at hd
    rcases hd with rfl | rfl
    · exact ⟨hpos, by simp only [left]; omega, fun hs => absurd hs hstop, fun _ => hrest⟩
    · exact ⟨by simp only [right]; omega, by simp only [right]; omega, nofun, fun _ => hsize⟩

/-- Where neighbours end, and what is apart from all of them. -/
theorem merged_range : ∀ (mid : List Block) (f : Block), (f :: (mid ++ [n])).IsChain Next →
    (∀ b ∈ f :: mid, b.kind ≠ .stop ∧ 0 < b.size) → f.addr + f.size ≤ n.addr ∧
      ∀ c : Block, 0 < c.size → (∀ b ∈ f :: mid, b.Apart c) →
        n.addr ≤ c.addr ∨ c.addr + c.size ≤ f.addr := by
  intro mid
  induction mid with
  | nil =>
      intro f hchain hmid
      have haddr := (List.isChain_pair.mp hchain).addr (hmid f List.mem_cons_self).1
      refine ⟨Int.le_of_eq haddr.symm, fun c _ hc => ?_⟩
      rw [haddr]
      exact hc f List.mem_cons_self
  | cons g mid ih =>
      intro f hchain hmid
      obtain ⟨hnext, hrest⟩ := List.isChain_cons_cons.mp hchain
      obtain ⟨hend, hapart⟩ := ih g hrest fun b hb => hmid b (List.mem_cons_of_mem f hb)
      have haddr := hnext.addr (hmid f List.mem_cons_self).1
      have hgsize := (hmid g (by simp)).2
      refine ⟨by omega, fun c hcsize hc => ?_⟩
      have hrange := hapart c hcsize fun b hb => hc b (List.mem_cons_of_mem f hb)
      have hfc := hc f List.mem_cons_self
      unfold Apart at hfc
      omega

/-- The free block that neighbours become. -/
def Block.merged (f n : Block) : Block :=
  { f with size := n.addr - f.addr, kind := .free }

theorem Block.eq_merged {f g n : Block} (haddr : g.addr = f.addr) (hsize : g.addr + g.size = n.addr)
    (hkind : g.kind = .free) (hprev : g.prev = f.prev) : g = f.merged n := by
  obtain ⟨a, s, kind, prev⟩ := g
  obtain rfl : a = f.addr := haddr
  obtain rfl : kind = .free := hkind
  obtain rfl : prev = f.prev := hprev
  have hs : s = n.addr - f.addr := by
    simp only at hsize
    omega
  rw [hs, merged]

/-- **Neighbours become one free block**, if neither the block before them nor the one behind is
free. -/
theorem Tiled.merge {f : Block} (h : Tiled header least top (k ++ (f :: mid ++ n :: r)))
    (hheader : 0 < header) (hleast : 0 < least) (hmid : ∀ b ∈ f :: mid, b.kind ≠ .stop)
    (hf : f.kind = .free ∨ f.prev = 0) (hn : n.kind ≠ .free) :
    Tiled header least top (k ++ f.merged n :: { n with prev := n.addr - f.addr } :: r) := by
  have hsize : ∀ b ∈ f :: mid, b.kind ≠ .stop ∧ 0 < b.size := fun b hb =>
    ⟨hmid b hb, (h.fits b (by simp only [List.mem_append]; tauto)).size_pos hheader hleast⟩
  have hchain : (f :: (mid ++ [n])).IsChain Next := by
    have hback := (List.isChain_cons.mp (chain_append_iff.mp h.chain).2).2
    exact (List.isChain_split.mp hback).1
  obtain ⟨hend, hrange⟩ := merged_range mid f hchain hsize
  have hfits := h.fits f (by simp)
  have hnfits := h.fits n (by simp)
  have hnsize := hnfits.size_pos hheader hleast
  have hleast' := hfits.least (hmid f List.mem_cons_self)
  refine Tiled.replace (f :: mid) [f.merged n] h hheader hleast
    (fun a ha hchain => ?_) (fun c hcsize hc d hd => ?_) (List.pairwise_singleton _ _)
    fun d hd => ?_
  · have hab := (List.isChain_cons_cons.mp hchain).1
    refine List.isChain_cons_cons.mpr ⟨⟨hab.addr, fun hfree => ?_, hab.prev⟩,
      List.isChain_pair.mpr ⟨fun _ => ?_, fun _ => hn, rfl⟩⟩
    · -- A free block would be known of.
      rcases hf with hkind | hprev
      · exact absurd hkind (hab.merged hfree)
      · have hback := hab.prev
        rw [hprev, back, if_pos hfree] at hback
        exact absurd (ha hfree) (Int.not_lt.mpr (Int.le_of_eq hback.symm))
    · simp only [merged]
      omega
  · obtain rfl := List.mem_singleton.mp hd
    have happart := hrange c hcsize hc
    unfold Apart
    simp only [merged]
    omega
  · obtain rfl := List.mem_singleton.mp hd
    refine ⟨hfits.pos, ?_, nofun, fun _ => ?_⟩
    · have htop := hnfits.top
      simp only [merged]
      omega
    · simp only [merged]
      omega

/-- **One more region** begins as one free block. -/
theorem Tiled.append_region {addr size : Int} (h : Tiled header least top blocks)
    (hheader : 0 < header) (hleast : 0 < least) (hsize : least ≤ size) (hpos : 0 < addr)
    (htop : addr + size + header ≤ top)
    (hapart : ∀ c ∈ blocks, c.addr + c.size ≤ addr ∨ addr + size + header ≤ c.addr) :
    Tiled header least top
      (blocks ++ [⟨addr, size, .free, 0⟩, ⟨addr + size, header, .stop, size⟩]) := by
  constructor
  · refine chain_append_iff.mpr ⟨h.chain, List.isChain_cons_cons.mpr ⟨?_,
      List.isChain_pair.mpr ⟨fun _ => rfl, nofun, rfl⟩⟩⟩
    have hstop : (blocks.getLastD origin).kind = .stop := by
      rw [List.getLastD_eq_getLast?]
      cases hlast : blocks.getLast? with
      | none => rfl
      | some a => exact h.last a hlast
    refine ⟨fun hne => absurd hstop hne, fun hfree => ?_, ?_⟩
    · rw [hstop] at hfree
      exact nomatch hfree
    · rw [back, if_neg]
      rw [hstop]
      decide
  · intro b hb
    rw [List.getLast?_append_cons] at hb
    obtain rfl := Option.mem_some.mp hb
    rfl
  · refine List.pairwise_append.mpr ⟨h.apart, List.pairwise_pair.mpr (.inl (Int.le_refl _)),
      fun c hc b hb => ?_⟩
    have hc := hapart c hc
    simp only [List.mem_cons, List.not_mem_nil, or_false] at hb
    unfold Apart
    rcases hb with rfl | rfl
    · simp only
      omega
    · simp only
      omega
  · intro b hb
    rcases List.mem_append.mp hb with hb | hb
    · exact h.fits b hb
    · simp only [List.mem_cons, List.not_mem_nil, or_false] at hb
      rcases hb with rfl | rfl
      · exact ⟨hpos, by simp only; omega, nofun, fun _ => hsize⟩
      · exact ⟨by simp only; omega, htop, fun _ => rfl, fun hne => absurd rfl hne⟩

/-! ### Regions -/

/-- The regions that are tiled, with where each begins and its length up to the stop; the first has
begun already, if it is known where. -/
def regions : Option Int → List Block → List (Int × Int)
  | _, [] => []
  | start, b :: r =>
      let start := start.getD b.addr
      if b.kind = .stop then (start, b.addr - start) :: regions none r else regions (some start) r

theorem regions_stop (start : Option Int) (r : List Block) (hb : b.kind = .stop) :
    regions start (b :: r) =
      (start.getD b.addr, b.addr - start.getD b.addr) :: regions none r := if_pos hb

theorem regions_cons (start : Option Int) (r : List Block) (hb : b.kind ≠ .stop) :
    regions start (b :: r) = regions (some (start.getD b.addr)) r := if_neg hb

/-- Blocks that are no stop belong to the region that has begun. -/
theorem regions_append_of_begun (hmid : ∀ b ∈ mid, b.kind ≠ .stop) (s : Int) (r : List Block) :
    regions (some s) (mid ++ r) = regions (some s) r := by
  induction mid with
  | nil => rfl
  | cons b mid ih =>
      rw [List.cons_append, regions_cons _ _ (hmid b List.mem_cons_self)]
      exact ih fun c hc => hmid c (List.mem_cons_of_mem b hc)

/-- **To replace blocks leaves the regions as they are**, where the first of them begins where it
did. -/
theorem regions_replace (b b' : Block) (mid mid' : List Block) {p : Int} (hb : b.kind ≠ .stop)
    (hb' : b'.kind ≠ .stop) (haddr : b'.addr = b.addr) (hmid : ∀ c ∈ mid, c.kind ≠ .stop)
    (hmid' : ∀ c ∈ mid', c.kind ≠ .stop) (k r : List Block) : ∀ start,
      regions start (k ++ (b' :: mid' ++ { n with prev := p } :: r)) =
        regions start (k ++ (b :: mid ++ n :: r)) := by
  induction k with
  | nil =>
      intro start
      rw [List.nil_append, List.nil_append, List.cons_append, List.cons_append,
        regions_cons _ _ hb, regions_cons _ _ hb', regions_append_of_begun hmid,
        regions_append_of_begun hmid', haddr]
      rfl
  | cons c k ih =>
      intro start
      simp only [List.cons_append] at ih ⊢
      simp only [regions, ih]

/-- Regions that come behind others. -/
theorem regions_append (hlast : ∀ b ∈ k.getLast?, b.kind = .stop) (r : List Block) :
    regions none (k ++ r) = regions none k ++ regions none r := by
  have hgeneral : ∀ (k : List Block) (start : Option Int), (∀ b ∈ k.getLast?, b.kind = .stop) →
      (k = [] → start = none) → regions start (k ++ r) = regions start k ++ regions none r := by
    intro k
    induction k with
    | nil =>
        intro start _ hstart
        rw [hstart rfl]
        rfl
    | cons c k ih =>
        intro start hlast hstart
        have hlast' : ∀ b ∈ k.getLast?, b.kind = .stop := fun b hb =>
          hlast b (List.mem_getLast?_cons hb)
        rw [List.cons_append, regions, regions]
        by_cases hc : c.kind = .stop
        · rw [if_pos hc, if_pos hc, ih none hlast' fun _ => rfl]
          rfl
        · rw [if_neg hc, if_neg hc]
          refine ih _ hlast' fun hk => ?_
          subst hk
          exact absurd (hlast c rfl) hc
  exact hgeneral k none hlast fun _ => rfl

/-- The region that has begun goes on behind a block in it. -/
theorem exists_region_begun (hsize : ∀ b ∈ r, 0 ≤ b.size) {s : Int} : ∀ a : Block,
    a.kind ≠ .stop → (a :: r).IsChain Next → (∀ b ∈ (a :: r).getLast?, b.kind = .stop) →
      ∃ len, (s, len) ∈ regions (some s) r ∧ a.addr + a.size ≤ s + len := by
  induction r with
  | nil => exact fun a ha _ hlast => absurd (hlast a rfl) ha
  | cons c r ih =>
      intro a ha hchain hlast
      obtain ⟨hnext, hrest⟩ := List.isChain_cons_cons.mp hchain
      have haddr := hnext.addr ha
      by_cases hc : c.kind = .stop
      · rw [regions_stop _ _ hc]
        refine ⟨_, List.mem_cons_self, ?_⟩
        rw [Option.getD_some]
        omega
      · rw [regions_cons _ _ hc]
        obtain ⟨len, hmem, hle⟩ := ih (fun b hb => hsize b (List.mem_cons_of_mem c hb)) c hc hrest
          hlast
        have hpos := hsize c List.mem_cons_self
        exact ⟨len, hmem, by omega⟩

/-- **Every block lies in a region.** -/
theorem Tiled.exists_region (h : Tiled header least top blocks) (hheader : 0 < header)
    (hleast : 0 < least) (hb : b ∈ blocks) (hstop : b.kind ≠ .stop) :
    ∃ base len, (base, len) ∈ regions none blocks ∧ base ≤ b.addr ∧
      b.addr + b.size ≤ base + len := by
  have hgeneral : ∀ (r : List Block) (a : Block) (start : Option Int),
      (∀ b ∈ a :: r, 0 ≤ b.size) → (a :: r).IsChain Next →
      (∀ b ∈ (a :: r).getLast?, b.kind = .stop) → (a.kind = .stop → start = none) →
      (a.kind ≠ .stop → ∃ s, start = some s ∧ s ≤ a.addr) → b ∈ r →
      ∃ base len, (base, len) ∈ regions start r ∧ base ≤ b.addr ∧ b.addr + b.size ≤ base + len := by
    intro r
    induction r with
    | nil => exact fun _ _ _ _ _ _ _ hb => absurd hb List.not_mem_nil
    | cons c r ih =>
        intro a start hsize hchain hlast hnone hsome hb
        obtain ⟨hnext, hrest⟩ := List.isChain_cons_cons.mp hchain
        have hsize' : ∀ b ∈ c :: r, 0 ≤ b.size := fun b hb => hsize b (List.mem_cons_of_mem a hb)
        have hstart : start.getD c.addr ≤ c.addr := by
          by_cases ha : a.kind = .stop
          · rw [hnone ha, Option.getD_none]
          · obtain ⟨s, rfl, hs⟩ := hsome ha
            have hpos := hsize a List.mem_cons_self
            have haddr := hnext.addr ha
            rw [Option.getD_some]
            omega
        by_cases hc : c.kind = .stop
        · rcases List.mem_cons.mp hb with rfl | hb
          · exact absurd hc hstop
          · obtain ⟨base, len, hmem, hin⟩ := ih c none hsize' hrest hlast (fun _ => rfl)
              (fun hne => absurd hc hne) hb
            rw [regions_stop _ _ hc]
            exact ⟨base, len, List.mem_cons_of_mem _ hmem, hin⟩
        · rw [regions_cons _ _ hc]
          rcases List.mem_cons.mp hb with rfl | hb
          · obtain ⟨len, hmem, hle⟩ := exists_region_begun
              (fun c hc => hsize' c (List.mem_cons_of_mem _ hc)) b hc hrest hlast
            exact ⟨_, len, hmem, hstart, hle⟩
          · exact ih c _ hsize' hrest hlast (fun hstop => absurd hstop hc)
              (fun _ => ⟨_, rfl, hstart⟩) hb
  refine hgeneral blocks origin none ?_ h.chain ?_ (fun _ => rfl) (fun hne => absurd rfl hne) hb
  · intro c hc
    rcases List.mem_cons.mp hc with rfl | hc
    · exact Int.le_refl 0
    · exact Int.le_of_lt ((h.fits c hc).size_pos hheader hleast)
  · intro c hc
    cases blocks with
    | nil => exact absurd hb List.not_mem_nil
    | cons d blocks => exact h.last c hc

/-- A stop is the end of a region. -/
theorem exists_region_stop (hb : b ∈ blocks) (hstop : b.kind = .stop) : ∀ start,
    ∃ base, (base, b.addr - base) ∈ regions start blocks := by
  induction blocks with
  | nil => exact absurd hb List.not_mem_nil
  | cons c r ih =>
      intro start
      rcases List.mem_cons.mp hb with rfl | hb
      · rw [regions_stop _ _ hstop]
        exact ⟨_, List.mem_cons_self⟩
      · by_cases hc : c.kind = .stop
        · rw [regions_stop _ _ hc]
          obtain ⟨base, hmem⟩ := ih hb none
          exact ⟨base, List.mem_cons_of_mem _ hmem⟩
        · rw [regions_cons _ _ hc]
          exact ih hb _

/-- A cell of a region is a cell of a block, also where the region has begun already. -/
theorem exists_block_begun {base len i : Int} (hlow : base ≤ i) (hhigh : i < base + len) :
    ∀ (r : List Block) (start : Option Int), r.IsChain Next → (base, len) ∈ regions start r →
      (start = some base → ∀ b ∈ r.head?, b.addr ≤ i) →
        ∃ b ∈ r, b.kind ≠ .stop ∧ b.addr ≤ i ∧ i < b.addr + b.size := by
  intro r
  induction r with
  | nil => exact fun _ _ hmem => absurd hmem List.not_mem_nil
  | cons b r ih =>
      intro start hchain hmem hbegun
      have hlater : ∀ start', (base, len) ∈ regions start' r →
          (start' = some base → ∀ c ∈ r.head?, c.addr ≤ i) →
            ∃ c ∈ b :: r, c.kind ≠ .stop ∧ c.addr ≤ i ∧ i < c.addr + c.size := by
        intro start' hmem' hbegun'
        obtain ⟨c, hc, hfound⟩ := ih start' (List.isChain_cons.mp hchain).2 hmem' hbegun'
        exact ⟨c, List.mem_cons_of_mem b hc, hfound⟩
      have hfirst : start.getD b.addr = base → b.addr ≤ i := by
        intro heq
        cases start with
        | none => exact Int.le_trans (Int.le_of_eq heq) hlow
        | some s => exact hbegun (congrArg some heq) b rfl
      by_cases hb : b.kind = .stop
      · rw [regions_stop _ _ hb] at hmem
        rcases List.mem_cons.mp hmem with heq | hmem
        · -- The region ends where the block is.
          obtain ⟨hbase, hlen⟩ := Prod.ext_iff.mp heq
          have hle := hfirst hbase.symm
          simp only at hbase hlen
          omega
        · exact hlater none hmem nofun
      · rw [regions_cons _ _ hb] at hmem
        by_cases hin : start.getD b.addr = base ∧ i < b.addr + b.size
        · exact ⟨b, List.mem_cons_self, hb, hfirst hin.1, hin.2⟩
        · refine hlater _ hmem fun hstart c hc => ?_
          have haddr := ((List.isChain_cons.mp hchain).1 c hc).addr hb
          have hout : ¬i < b.addr + b.size := fun hlt => hin ⟨Option.some.inj hstart, hlt⟩
          omega

/-- **A stretch of a region that is clear of what is used lies in one free block**: free blocks are
never neighbours. -/
theorem Tiled.exists_free (h : Tiled header least top blocks) (hheader : 0 < header)
    (hleast : 0 < least) {base len low n : Int} (hmem : (base, len) ∈ regions none blocks)
    (hn : 0 < n) (hlow : base ≤ low) (hhigh : low + n ≤ base + len)
    (hclear : ∀ b ∈ blocks, b.kind = .used → b.addr + b.size ≤ low ∨ low + n ≤ b.addr) :
    ∃ b ∈ blocks, b.kind = .free ∧ b.addr ≤ low ∧ low + n ≤ b.addr + b.size := by
  have hchain : blocks.IsChain Next := (List.isChain_cons.mp h.chain).2
  have hkind : ∀ b ∈ blocks, b.kind ≠ .stop → b.addr < low + n → low < b.addr + b.size →
      b.kind = .free := by
    intro b hb hstop hbefore hbehind
    cases hkind : b.kind with
    | free => rfl
    | used => exact absurd (hclear b hb hkind) (by omega)
    | stop => exact absurd hkind hstop
  obtain ⟨b, hb, hstop, hbaddr, hbend⟩ := exists_block_begun hlow (by omega) blocks none hchain hmem
    nofun
  have hfree := hkind b hb hstop (by omega) hbend
  refine ⟨b, hb, hfree, hbaddr, Int.not_lt.mp fun hshort => ?_⟩
  -- The block behind would be free as well.
  obtain ⟨k, r, rfl⟩ := List.append_of_mem hb
  obtain ⟨c, r, rfl, hnext⟩ := h.exists_next hstop
  have hcaddr := hnext.addr hstop
  have hcmem : c ∈ k ++ b :: c :: r := by simp
  have hcsize := (h.fits c hcmem).size_pos hheader hleast
  obtain ⟨d, hd, hdstop, hdaddr, hdend⟩ := exists_block_begun (i := c.addr) (by omega) (by omega) _ none
    hchain hmem nofun
  have hdc : d = c := by
    by_contra hne
    have hapart := h.apart.forall hd hcmem hne
    unfold Apart at hapart
    omega
  subst hdc
  exact hnext.merged hfree (hkind d hd hdstop (by omega) (by omega))

/-! ### The blocks of a kind -/

/-- Where the blocks of a kind are, and how large. -/
def spans (kind : Kind) (blocks : List Block) : List (Int × Int) :=
  (blocks.filter fun b => b.kind = kind).map fun b => (b.addr, b.size)

theorem mem_spans {kind : Kind} {a z : Int} :
    (a, z) ∈ spans kind blocks ↔ ∃ b ∈ blocks, b.kind = kind ∧ b.addr = a ∧ b.size = z := by
  simp only [spans, List.mem_map, List.mem_filter, decide_eq_true_eq, Prod.mk.injEq, and_assoc]

@[simp] theorem spans_nil (kind : Kind) : spans kind [] = [] := rfl

@[simp] theorem spans_cons (kind : Kind) (b : Block) (r : List Block) :
    spans kind (b :: r) = if b.kind = kind then (b.addr, b.size) :: spans kind r else spans kind r := by
  rw [spans, List.filter_cons]
  simp only [decide_eq_true_eq]
  split <;> rfl

@[simp] theorem spans_append (kind : Kind) (k r : List Block) :
    spans kind (k ++ r) = spans kind k ++ spans kind r := by
  simp only [spans, List.filter_append, List.map_append]

/-! ### Sizes -/

/-- The size of all blocks of a kind. -/
def total (kind : Kind) (blocks : List Block) : Int :=
  (blocks.map fun b => if b.kind = kind then b.size else 0).sum

@[simp] theorem total_nil (kind : Kind) : total kind [] = 0 := rfl

@[simp] theorem total_cons (kind : Kind) (b : Block) (r : List Block) :
    total kind (b :: r) = (if b.kind = kind then b.size else 0) + total kind r := rfl

@[simp] theorem total_append (kind : Kind) (k r : List Block) :
    total kind (k ++ r) = total kind k + total kind r := by
  simp only [total, List.map_append, List.sum_append]

theorem total_nonneg (kind : Kind) (h : ∀ b ∈ blocks, 0 ≤ b.size) : 0 ≤ total kind blocks := by
  induction blocks with
  | nil => exact Int.le_refl 0
  | cons b blocks ih =>
      have hb := h b List.mem_cons_self
      have hrest := ih fun c hc => h c (List.mem_cons_of_mem b hc)
      rw [total_cons]
      split <;> omega

theorem total_eq_zero {kind : Kind} (h : ∀ b ∈ blocks, b.kind ≠ kind) : total kind blocks = 0 := by
  induction blocks with
  | nil => rfl
  | cons b blocks ih =>
      rw [total_cons, if_neg (h b List.mem_cons_self), Int.zero_add]
      exact ih fun c hc => h c (List.mem_cons_of_mem b hc)

/-- What is added up block by block. -/
theorem sum_total {kind : Kind} {f : Int → Int}
    (h : ∀ b ∈ blocks, b.kind = kind → f b.addr = b.size) :
    ((blocks.filter fun b => b.kind = kind).map (f ∘ Block.addr)).sum = total kind blocks := by
  induction blocks with
  | nil => rfl
  | cons b blocks ih =>
      have hrest := ih fun c hc => h c (List.mem_cons_of_mem b hc)
      rw [total_cons, List.filter_cons]
      by_cases hb : b.kind = kind
      · rw [if_pos hb, if_pos (decide_eq_true hb), List.map_cons, List.sum_cons, hrest]
        exact congrArg (· + _) (h b List.mem_cons_self hb)
      · rw [if_neg hb, if_neg (by simpa using hb), hrest, Int.zero_add]

/-- So many blocks have so much together at least. -/
theorem total_ge (kind : Kind) (size : Int) (h : ∀ b ∈ blocks, b.kind = kind → size ≤ b.size) :
    size * (blocks.filter fun b => b.kind = kind).length ≤ total kind blocks := by
  induction blocks with
  | nil => simp
  | cons b blocks ih =>
      have hrest := ih fun c hc => h c (List.mem_cons_of_mem b hc)
      rw [total_cons, List.filter_cons]
      by_cases hb : b.kind = kind
      · have hsize := h b List.mem_cons_self hb
        rw [if_pos hb, if_pos (decide_eq_true hb), List.length_cons, Nat.cast_succ, Int.mul_add,
          Int.mul_one]
        omega
      · rw [if_neg hb, if_neg (by simpa using hb)]
        omega

/-- Blocks that do not overlap are no larger together than what they lie in. -/
theorem total_le (kind : Kind) (low top : Int) (hapart : blocks.Pairwise Apart)
    (hin : ∀ b ∈ blocks, low ≤ b.addr ∧ 0 ≤ b.size ∧ b.addr + b.size ≤ top) (htop : low ≤ top) :
    total kind blocks ≤ top - low := by
  have hcells : ∃ cells : Finset Int, (cells.card : Int) = total kind blocks ∧
      ∀ i, i ∈ cells → low ≤ i ∧ i < top ∧ ∃ b ∈ blocks, b.addr ≤ i ∧ i < b.addr + b.size := by
    induction blocks with
    | nil => exact ⟨∅, rfl, fun i hi => absurd hi (Finset.notMem_empty i)⟩
    | cons b blocks ih =>
        obtain ⟨hb, hrest⟩ := List.pairwise_cons.mp hapart
        obtain ⟨cells, hcard, hcells⟩ := ih hrest fun c hc => hin c (List.mem_cons_of_mem b hc)
        obtain ⟨hlow, hsize, hhigh⟩ := hin b List.mem_cons_self
        rw [total_cons]
        by_cases hkind : b.kind = kind
        · have hdisjoint : Disjoint (Finset.Ico b.addr (b.addr + b.size)) cells := by
            refine Finset.disjoint_left.mpr fun i hi hi' => ?_
            obtain ⟨-, -, c, hc, hci⟩ := hcells i hi'
            rw [Finset.mem_Ico] at hi
            have hapart := hb c hc
            unfold Apart at hapart
            omega
          refine ⟨Finset.Ico b.addr (b.addr + b.size) ∪ cells, ?_, fun i hi => ?_⟩
          · rw [Finset.card_union_of_disjoint hdisjoint, Int.card_Ico, if_pos hkind]
            omega
          · rcases Finset.mem_union.mp hi with hi | hi
            · rw [Finset.mem_Ico] at hi
              exact ⟨by omega, by omega, b, List.mem_cons_self, hi.1, hi.2⟩
            · obtain ⟨h0, h1, c, hc, hci⟩ := hcells i hi
              exact ⟨h0, h1, c, List.mem_cons_of_mem b hc, hci⟩
        · refine ⟨cells, ?_, fun i hi => ?_⟩
          · rw [if_neg hkind, hcard]
            omega
          · obtain ⟨h0, h1, c, hc, hci⟩ := hcells i hi
            exact ⟨h0, h1, c, List.mem_cons_of_mem b hc, hci⟩
  obtain ⟨cells, hcard, hcells⟩ := hcells
  have hsubset : cells ⊆ Finset.Ico low top := fun i hi =>
    Finset.mem_Ico.mpr ⟨(hcells i hi).1, (hcells i hi).2.1⟩
  have hle := Finset.card_le_card hsubset
  rw [Int.card_Ico] at hle
  omega

/-- **What is free and what is used is all there is.** -/
theorem Tiled.total_regions (h : Tiled header least top blocks) :
    ((regions none blocks).map Prod.snd).sum = total .free blocks + total .used blocks := by
  have hgeneral : ∀ (r : List Block) (a : Block) (start : Option Int), (a :: r).IsChain Next →
      (∀ b ∈ (a :: r).getLast?, b.kind = .stop) → (a.kind = .stop → start = none) →
      (a.kind ≠ .stop → ∃ s, start = some s) →
      ((regions start r).map Prod.snd).sum =
        (if a.kind = .stop then 0 else a.addr + a.size - start.getD 0) +
          (total .free r + total .used r) := by
    intro r
    induction r with
    | nil =>
        intro a start _ hlast _ _
        rw [if_pos (hlast a rfl)]
        rfl
    | cons b r ih =>
        intro a start hchain hlast hnone hsome
        obtain ⟨hnext, hrest⟩ := List.isChain_cons_cons.mp hchain
        have hstart : b.addr - start.getD b.addr =
            if a.kind = .stop then 0 else a.addr + a.size - start.getD 0 := by
          by_cases ha : a.kind = .stop
          · rw [if_pos ha, hnone ha, Option.getD_none, Int.sub_self]
          · obtain ⟨s, rfl⟩ := hsome ha
            rw [if_neg ha, hnext.addr ha]
            rfl
        rw [total_cons, total_cons, ← hstart]
        by_cases hb : b.kind = .stop
        · have hsum := ih b none hrest hlast (fun _ => rfl) (fun hne => absurd hb hne)
          rw [if_pos hb] at hsum
          rw [regions_stop _ _ hb, List.map_cons, List.sum_cons, hsum]
          simp only [hb, reduceCtorEq, if_false, Int.zero_add]
        · have hsum := ih b (some (start.getD b.addr)) hrest hlast (fun hs => absurd hs hb)
            fun _ => ⟨_, rfl⟩
          rw [if_neg hb, Option.getD_some] at hsum
          rw [regions_cons _ _ hb, hsum]
          cases hkind : b.kind with
          | free =>
              simp only [reduceCtorEq, if_true, if_false]
              omega
          | used =>
              simp only [reduceCtorEq, if_true, if_false]
              omega
          | stop => exact absurd hkind hb
  cases blocks with
  | nil => rfl
  | cons b blocks =>
      have hsum := hgeneral (b :: blocks) origin none h.chain (fun c hc => h.last c hc)
        (fun _ => rfl) fun hne => absurd rfl hne
      exact hsum.trans (Int.zero_add _)

end Tiling
