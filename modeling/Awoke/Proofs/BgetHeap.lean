/-
The blocks of the allocator in memory.

`Held` says that memory holds some blocks: their headers, the ring of the free ones, and what the
used ones are known to contain.  It does not ask how the blocks lie to one another, but that they do
not overlap, and so one block can be changed, taken out or put in with nothing to be said of the
others.  What the allocator does is a few such changes, one after the other.
-/
import Awoke.Lib.Tiling
import Awoke.Proofs.BgetLinks

namespace Awoke.Benchmark.Bget

open Cells (load store)
open Tiling

/-- What `bsize` is for a block. -/
def tag (b : Block) : Int :=
  match b.kind with
  | .free => b.size
  | .used => -b.size
  | .stop => eSent

/-- The header at `a`. -/
structure Header (m : Cells UInt8) (a prev size : Int) : Prop where
  prev : prevfree m a = prev
  size : bsize m a = size

/-- No cell of the block is from `lo` up to `hi`. -/
def Clear (lo hi : Int) (b : Block) : Prop := b.addr + b.size ≤ lo ∨ hi ≤ b.addr

/-- Memory holds these blocks, and the used ones contain what `data` has there. -/
structure Held (bg : Int) (m data : Cells UInt8) (blocks : List Block) (frees : List Int) :
    Prop where
  pos : 0 < bg
  top : bg + 64 ≤ 2 ^ 63
  apart : blocks.Pairwise Block.Apart
  fits : ∀ b ∈ blocks, b.Fits 16 32 (2 ^ 63)
  vars : ∀ b ∈ blocks, Clear bg (bg + 64) b
  header : ∀ b ∈ blocks, Header m b.addr b.prev (tag b)
  body : ∀ b ∈ blocks, b.kind = .used →
    ∀ i, b.addr + 16 ≤ i → i < b.addr + b.size → m i = data i
  ring : (links m).Ring bg frees
  frees : ∀ a, a ∈ frees ↔ ∃ b ∈ blocks, b.kind = .free ∧ b.addr = a

variable {bg : Int} {m m' data data' : Cells UInt8} {b b' c n : Block} {blocks rest : List Block}
  {frees k r : List Int}

theorem Header.congr {a prev size : Int} (h : Header m a prev size)
    (hsame : ∀ i, a ≤ i → i < a + 16 → m' i = m i) : Header m' a prev size where
  prev := (Cells.load_congr fun i hlow hhigh => hsame i hlow (by omega)).trans h.prev
  size := (Cells.load_congr fun i hlow hhigh => hsame i (by omega) (by omega)).trans h.size

theorem Header.setBsize {a prev size size' : Int} (h : Header m a prev size)
    (hsize : IsLong size') : Header (setBsize m a size') a prev size' where
  prev := (word_apart (.inr (by omega))).trans h.prev
  size := word_store hsize

theorem Header.setPrevfree {a prev prev' size : Int} (h : Header m a prev size)
    (hprev : IsLong prev') : Header (setPrevfree m a prev') a prev' size where
  prev := word_store hprev
  size := (word_apart (.inl (by omega))).trans h.size

theorem fits_size {top : Int} (h : b.Fits 16 32 top) : 16 ≤ b.size := by
  by_cases hstop : b.kind = .stop
  · rw [h.stop hstop]
  · have hleast := h.least hstop
    omega

/-! ### Links and blocks -/

theorem Held.perm (h : Held bg m data blocks frees) {blocks' : List Block}
    (hperm : blocks.Perm blocks') : Held bg m data blocks' frees where
  pos := h.pos
  top := h.top
  apart := (hperm.pairwise_iff fun hapart => hapart.symm).mp h.apart
  fits b hb := h.fits b (hperm.mem_iff.mpr hb)
  vars b hb := h.vars b (hperm.mem_iff.mpr hb)
  header b hb := h.header b (hperm.mem_iff.mpr hb)
  body b hb := h.body b (hperm.mem_iff.mpr hb)
  ring := h.ring
  frees a := by simp only [h.frees, hperm.mem_iff]

theorem Held.node (h : Held bg m data blocks frees) {a : Int} (ha : a ∈ bg :: frees) :
    a = bg ∨ ∃ b ∈ blocks, b.kind = .free ∧ b.addr = a :=
  (List.mem_cons.mp ha).imp_right (h.frees a).mp

theorem Held.apart_of_ne (h : Held bg m data blocks frees) (hb : b ∈ blocks) (hc : c ∈ blocks)
    (hne : b.addr ≠ c.addr) : b.Apart c :=
  h.apart.forall hb hc fun heq => hne (heq ▸ rfl)

/-- The links of the nodes are apart from what is no link in a block. -/
theorem Held.off_links (h : Held bg m data blocks frees) (hc : c ∈ blocks) {i : Int}
    (hlow : c.addr ≤ i) (hhigh : i < c.addr + c.size) (hlink : i < c.addr + 16 ∨ c.kind ≠ .free) :
    ∀ a ∈ bg :: frees, i < a + 16 ∨ a + 32 ≤ i := by
  intro a ha
  rcases h.node ha with rfl | ⟨b, hb, hfree, rfl⟩
  · have hvars := h.vars c hc
    unfold Clear at hvars
    omega
  · have hsize := (h.fits b hb).least (by rw [hfree]; decide)
    by_cases haddr : b.addr = c.addr
    · by_cases hbc : b = c
      · subst hbc
        exact .inl (by have hor := hlink.resolve_right fun hne => hne hfree; omega)
      · have hapart := h.apart.forall hb hc hbc
        have hcsize := fits_size (h.fits c hc)
        unfold Block.Apart at hapart
        omega
    · have hapart := h.apart_of_ne hb hc haddr
      unfold Block.Apart at hapart
      omega

/-- The nodes are spaced. -/
theorem Held.spaced (h : Held bg m data blocks frees) : Spaced (bg :: frees) := by
  have hpos := h.pos
  have htop := h.top
  constructor
  · intro a ha
    rcases h.node ha with rfl | ⟨b, hb, hfree, rfl⟩
    · exact ⟨by omega, by omega⟩
    · have hfits := h.fits b hb
      have hsize := fits_size hfits
      have hlow := hfits.pos
      have hhigh := hfits.top
      exact ⟨by omega, by omega⟩
  · intro a ha a' ha' hne
    rcases h.node ha with rfl | ⟨b, hb, hfree, rfl⟩
    · rcases h.node ha' with rfl | ⟨c, hc, hfree', rfl⟩
      · exact absurd rfl hne
      · have hvars := h.vars c hc
        have hsize := (h.fits c hc).least (by rw [hfree']; decide)
        unfold Clear at hvars
        omega
    · have hsize := (h.fits b hb).least (by rw [hfree]; decide)
      rcases h.node ha' with rfl | ⟨c, hc, hfree', rfl⟩
      · have hvars := h.vars b hb
        unfold Clear at hvars
        omega
      · have hapart := h.apart_of_ne hb hc hne
        have hsize' := (h.fits c hc).least (by rw [hfree']; decide)
        unfold Block.Apart at hapart
        omega

theorem Held.off_counters (h : Held bg m data blocks frees) {i : Int} (hlow : bg + 32 ≤ i)
    (hhigh : i < bg + 64) : ∀ a ∈ bg :: frees, i < a + 16 ∨ a + 32 ≤ i := by
  intro a ha
  rcases h.node ha with rfl | ⟨b, hb, hfree, rfl⟩
  · omega
  · have hvars := h.vars b hb
    have hsize := (h.fits b hb).least (by rw [hfree]; decide)
    unfold Clear at hvars
    omega

/-! ### What is left as it is -/

/-- Memory may change where there is no block and no link of the head. -/
theorem Held.of_clear (h : Held bg m data blocks frees) (lo hi : Int)
    (hsame : ∀ i, i < lo ∨ hi ≤ i → m' i = m i) (hblocks : ∀ b ∈ blocks, Clear lo hi b)
    (hhead : bg + 32 ≤ lo ∨ hi ≤ bg + 16) : Held bg m' data blocks frees := by
  have hcell : ∀ c ∈ blocks, ∀ i, c.addr ≤ i → i < c.addr + c.size → m' i = m i := by
    intro c hc i hlow hhigh
    have hclear := hblocks c hc
    unfold Clear at hclear
    exact hsame i (by omega)
  refine ⟨h.pos, h.top, h.apart, h.fits, h.vars, fun c hc => ?_, fun c hc hused i hlow hhigh => ?_,
    ring_congr h.ring fun a ha i hlow hhigh => ?_, h.frees⟩
  · have hsize := fits_size (h.fits c hc)
    exact (h.header c hc).congr fun i hlow hhigh => hcell c hc i hlow (by omega)
  · rw [hcell c hc i (by omega) hhigh]
    exact h.body c hc hused i hlow hhigh
  · rcases h.node ha with rfl | ⟨b, hb, hfree, rfl⟩
    · exact hsame i (by omega)
    · have hsize := (h.fits b hb).least (by rw [hfree]; decide)
      exact hcell b hb i (by omega) (by omega)

theorem Held.of_data (h : Held bg m data blocks frees)
    (hsame : ∀ b ∈ blocks, b.kind = .used →
      ∀ i, b.addr + 16 ≤ i → i < b.addr + b.size → data' i = data i) :
    Held bg m data' blocks frees :=
  { h with body := fun b hb hused i hlow hhigh =>
      (h.body b hb hused i hlow hhigh).trans (hsame b hb hused i hlow hhigh).symm }

/-! ### One block -/

/-- A block that is not free is forgotten. -/
theorem Held.drop (h : Held bg m data (b :: rest) frees) (hb : b.kind ≠ .free) :
    Held bg m data rest frees where
  pos := h.pos
  top := h.top
  apart := (List.pairwise_cons.mp h.apart).2
  fits c hc := h.fits c (List.mem_cons_of_mem b hc)
  vars c hc := h.vars c (List.mem_cons_of_mem b hc)
  header c hc := h.header c (List.mem_cons_of_mem b hc)
  body c hc := h.body c (List.mem_cons_of_mem b hc)
  ring := h.ring
  frees a := by
    rw [h.frees]
    refine exists_congr fun c => and_congr_left fun hc => ?_
    rw [List.mem_cons]
    exact or_iff_right fun hcb => hb (hcb ▸ hc.1)

/-- A block that is not free is put in. -/
theorem Held.add (h : Held bg m data rest frees) (hb : b.kind ≠ .free)
    (hapart : ∀ c ∈ rest, b.Apart c) (hfits : b.Fits 16 32 (2 ^ 63))
    (hvars : Clear bg (bg + 64) b) (hheader : Header m b.addr b.prev (tag b))
    (hbody : b.kind = .used → ∀ i, b.addr + 16 ≤ i → i < b.addr + b.size → m i = data i) :
    Held bg m data (b :: rest) frees where
  pos := h.pos
  top := h.top
  apart := List.pairwise_cons.mpr ⟨hapart, h.apart⟩
  fits := List.forall_mem_cons.mpr ⟨hfits, h.fits⟩
  vars := List.forall_mem_cons.mpr ⟨hvars, h.vars⟩
  header := List.forall_mem_cons.mpr ⟨hheader, h.header⟩
  body := List.forall_mem_cons.mpr ⟨hbody, h.body⟩
  ring := h.ring
  frees a := by
    rw [h.frees]
    refine exists_congr fun c => and_congr_left fun hc => ?_
    rw [List.mem_cons]
    exact (or_iff_right fun hcb : c = b => hb (hcb ▸ hc.1)).symm

/-- **The header of a block is written**, and with it what the block is, but for its kind. -/
theorem Held.setHeader (h : Held bg m data (b :: rest) frees) (haddr : b'.addr = b.addr)
    (hkind : b'.kind = b.kind) (hused : b.kind = .used → b'.size = b.size)
    (hapart : ∀ c ∈ rest, b'.Apart c) (hfits : b'.Fits 16 32 (2 ^ 63))
    (hvars : Clear bg (bg + 64) b') (hheader : Header m' b.addr b'.prev (tag b'))
    (hsame : ∀ i, i < b.addr ∨ b.addr + 16 ≤ i → m' i = m i) :
    Held bg m' data (b' :: rest) frees := by
  have hbapart := (List.pairwise_cons.mp h.apart).1
  have hbsize' := fits_size (h.fits b List.mem_cons_self)
  have hcell : ∀ c ∈ rest, ∀ i, c.addr ≤ i → i < c.addr + c.size → m' i = m i := by
    intro c hc i hlow hhigh
    have hclear := hbapart c hc
    unfold Block.Apart at hclear
    exact hsame i (by omega)
  refine ⟨h.pos, h.top, List.pairwise_cons.mpr ⟨hapart, (List.pairwise_cons.mp h.apart).2⟩,
    List.forall_mem_cons.mpr ⟨hfits, fun c hc => h.fits c (List.mem_cons_of_mem b hc)⟩,
    List.forall_mem_cons.mpr ⟨hvars, fun c hc => h.vars c (List.mem_cons_of_mem b hc)⟩,
    List.forall_mem_cons.mpr ⟨by rwa [haddr], fun c hc => ?_⟩,
    List.forall_mem_cons.mpr ⟨fun hused' i hlow hhigh => ?_, fun c hc hused i hlow hhigh => ?_⟩,
    ring_congr h.ring fun a ha i hlow hhigh => ?_, fun a => ?_⟩
  · have hsize := fits_size (h.fits c (List.mem_cons_of_mem b hc))
    exact (h.header c (List.mem_cons_of_mem b hc)).congr fun i hlow hhigh =>
      hcell c hc i hlow (by omega)
  · rw [hkind] at hused'
    rw [haddr] at hlow hhigh
    rw [hused hused'] at hhigh
    rw [hsame i (by omega)]
    exact h.body b List.mem_cons_self hused' i hlow hhigh
  · rw [hcell c hc i (by omega) hhigh]
    exact h.body c (List.mem_cons_of_mem b hc) hused i hlow hhigh
  · rcases h.node ha with rfl | ⟨c, hc, hfree, rfl⟩
    · have hvars := h.vars b List.mem_cons_self
      unfold Clear at hvars
      exact hsame i (by omega)
    · rcases List.mem_cons.mp hc with rfl | hc'
      · exact hsame i (by omega)
      · have hsize := (h.fits c hc).least (by rw [hfree]; decide)
        exact hcell c hc' i (by omega) (by omega)
  · rw [h.frees]
    simp only [List.exists_mem_cons_iff, haddr, hkind]

/-- **A free block is taken from the list**, and forgotten. -/
theorem Held.unlink (h : Held bg m data (b :: rest) frees) (hb : b.kind = .free) :
    ∃ m' frees', unlinkFree m b.addr = some m' ∧ Held bg m' data rest frees' ∧
      OffLinks (bg :: frees) m m' ∧ ∀ a ∈ frees', a ∈ frees := by
  have hmem : b.addr ∈ frees := (h.frees b.addr).mpr ⟨b, List.mem_cons_self, hb, rfl⟩
  obtain ⟨k, r, rfl⟩ := List.append_of_mem hmem
  obtain ⟨m', hm', hring, hoff⟩ := unlinkFree_ring h.ring h.spaced
  have hcell : ∀ c ∈ rest, ∀ i, c.addr ≤ i → i < c.addr + c.size →
      (i < c.addr + 16 ∨ c.kind ≠ .free) → m' i = m i := fun c hc i hlow hhigh hlink =>
    hoff i (h.off_links (List.mem_cons_of_mem b hc) hlow hhigh hlink)
  have hbapart := (List.pairwise_cons.mp h.apart).1
  have hnodup := h.ring.nodup
  have hbk : b.addr ∉ k ++ r := by
    simp only [List.nodup_cons, List.nodup_append, List.mem_cons] at hnodup
    rw [List.mem_append, not_or]
    exact ⟨fun hx => hnodup.2.2.2 _ hx _ (.inl rfl) rfl, hnodup.2.2.1.1⟩
  refine ⟨m', k ++ r, hm', ⟨h.pos, h.top, (List.pairwise_cons.mp h.apart).2,
    fun c hc => h.fits c (List.mem_cons_of_mem b hc),
    fun c hc => h.vars c (List.mem_cons_of_mem b hc), fun c hc => ?_,
    fun c hc hused i hlow hhigh => ?_, hring, fun a => ?_⟩, hoff, fun a ha => ?_⟩
  · have hsize := fits_size (h.fits c (List.mem_cons_of_mem b hc))
    exact (h.header c (List.mem_cons_of_mem b hc)).congr fun i hlow hhigh =>
      hcell c hc i hlow (by omega) (.inl hhigh)
  · rw [hcell c hc i (by omega) hhigh (.inr (by rw [hused]; decide))]
    exact h.body c (List.mem_cons_of_mem b hc) hused i hlow hhigh
  · have hiff : a ∈ k ++ r ↔ a ∈ k ++ b.addr :: r ∧ a ≠ b.addr := by
      constructor
      · exact fun ha => ⟨mem_middle.mpr (.inr ha), fun hab => hbk (hab ▸ ha)⟩
      · exact fun ha => (mem_middle.mp ha.1).resolve_left ha.2
    rw [hiff, h.frees]
    constructor
    · rintro ⟨⟨c, hc, hfree, rfl⟩, hne⟩
      rcases List.mem_cons.mp hc with rfl | hc
      · exact absurd rfl hne
      · exact ⟨c, hc, hfree, rfl⟩
    · rintro ⟨c, hc, hfree, rfl⟩
      refine ⟨⟨c, List.mem_cons_of_mem b hc, hfree, rfl⟩, fun heq => ?_⟩
      have hapart := hbapart c hc
      have hsize := fits_size (h.fits c (List.mem_cons_of_mem b hc))
      have hbsize := fits_size (h.fits b List.mem_cons_self)
      unfold Block.Apart at hapart
      omega
  · exact mem_middle.mpr (.inr ha)

/-- **A block is put on the list**, and its size is written. -/
theorem Held.link (h : Held bg m data rest frees) (hb : b.kind = .free)
    (hapart : ∀ c ∈ rest, b.Apart c) (hfits : b.Fits 16 32 (2 ^ 63))
    (hvars : Clear bg (bg + 64) b) {size : Int} (hheader : Header m b.addr b.prev size) :
    ∃ m', linkFree m bg b.addr = some m' ∧ Header m' b.addr b.prev size ∧
      Held bg (setBsize m' b.addr b.size) data (b :: rest) (frees ++ [b.addr]) ∧
      ∀ i, i < b.addr ∨ b.addr + 32 ≤ i → (∀ a ∈ bg :: frees, i < a + 16 ∨ a + 32 ≤ i) →
        setBsize m' b.addr b.size i = m i := by
  have hsize := hfits.least (by rw [hb]; decide)
  have hlow := hfits.pos
  have hhigh := hfits.top
  have hclear := hvars
  unfold Clear at hclear
  have hnode : ∀ a ∈ bg :: frees, a + 32 ≤ b.addr ∨ b.addr + 32 ≤ a := by
    intro a ha
    rcases h.node ha with rfl | ⟨c, hc, hfree, rfl⟩
    · omega
    · have hcapart := hapart c hc
      have hcsize := (h.fits c hc).least (by rw [hfree]; decide)
      unfold Block.Apart at hcapart
      omega
  have hspaced : Spaced (b.addr :: bg :: frees) := by
    constructor
    · intro a ha
      rcases List.mem_cons.mp ha with rfl | ha
      · exact ⟨by omega, by omega⟩
      · exact h.spaced.long a ha
    · intro a ha a' ha' hne
      rcases List.mem_cons.mp ha with rfl | ha
      · rcases List.mem_cons.mp ha' with rfl | ha'
        · exact absurd rfl hne
        · exact (hnode a' ha').symm
      · rcases List.mem_cons.mp ha' with rfl | ha'
        · exact hnode a ha
        · exact h.spaced.apart a ha a' ha' hne
  have hmem : b.addr ∉ bg :: frees := fun hmem => by
    have hself := hnode b.addr hmem
    omega
  obtain ⟨m', hm', hring, hoff⟩ := linkFree_ring h.ring hmem hspaced
  have hsame : ∀ i, i < b.addr ∨ b.addr + 32 ≤ i → (∀ a ∈ bg :: frees, i < a + 16 ∨ a + 32 ≤ i) →
      setBsize m' b.addr b.size i = m i := by
    intro i hi hlinks
    have hsize : setBsize m' b.addr b.size i = m' i := word_outside (by omega)
    rw [hsize]
    refine hoff i fun a ha => ?_
    rcases List.mem_cons.mp ha with rfl | ha
    · omega
    · exact hlinks a ha
  have hcell : ∀ c ∈ rest, ∀ i, c.addr ≤ i → i < c.addr + c.size →
      (i < c.addr + 16 ∨ c.kind ≠ .free) → setBsize m' b.addr b.size i = m i := by
    intro c hc i hlow hhigh hlink
    have hcapart := hapart c hc
    unfold Block.Apart at hcapart
    exact hsame i (by omega) (h.off_links hc hlow hhigh hlink)
  have hheader' : Header m' b.addr b.prev size := by
    refine hheader.congr fun i hlow hhigh => hoff i fun a ha => ?_
    rcases List.mem_cons.mp ha with rfl | ha
    · omega
    · have ha := hnode a ha
      omega
  refine ⟨m', hm', hheader', ⟨h.pos, h.top, List.pairwise_cons.mpr ⟨hapart, h.apart⟩,
    List.forall_mem_cons.mpr ⟨hfits, h.fits⟩, List.forall_mem_cons.mpr ⟨hvars, h.vars⟩,
    List.forall_mem_cons.mpr ⟨?_, fun c hc => ?_⟩,
    List.forall_mem_cons.mpr ⟨fun hused => ?_, fun c hc hused i hlow hhigh => ?_⟩,
    ring_congr hring fun a ha i hlow hhigh => ?_, fun a => ?_⟩, hsame⟩
  · rw [tag, hb]
    exact hheader'.setBsize ⟨by omega, by omega⟩
  · have hcsize := fits_size (h.fits c hc)
    exact (h.header c hc).congr fun i hlow hhigh => hcell c hc i hlow (by omega) (.inl hhigh)
  · rw [hb] at hused
    exact absurd hused (by decide)
  · rw [hcell c hc i (by omega) hhigh (.inr (by rw [hused]; decide))]
    exact h.body c hc hused i hlow hhigh
  · refine word_outside ?_
    rw [← List.cons_append] at ha
    rcases List.mem_append.mp ha with ha | ha
    · have hapart := hnode a ha
      omega
    · obtain rfl := List.mem_singleton.mp ha
      omega
  · rw [List.mem_append, h.frees, List.mem_singleton, List.exists_mem_cons_iff, or_comm]
    refine or_congr ⟨fun ha => ⟨hb, ha.symm⟩, fun ⟨_, ha⟩ => ha.symm⟩ Iff.rfl

end Awoke.Benchmark.Bget
