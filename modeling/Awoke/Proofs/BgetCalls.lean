/-
What one call of the allocator does to what its callers know.

`Shows` says that the blocks in memory are what the callers think: the pools are those that were
given, a buffer that is out is a used block, and contains what it should.  Each call keeps this.
-/
import Awoke.Benchmark.BgetClient
import Awoke.Proofs.BgetPool

namespace Awoke.Benchmark.Bget

open Cells (load store slice)
open Tiling

variable {s : State} {c : Client} {bg size buf : Int} {m m' data : Cells UInt8} {b f n x u : Block}
  {blocks blocks' k r mid : List Block} {frees l : List Int} {gets rels turns : Nat}

/-! ### Turns -/

theorem throughFree_mono {α : Type} {body : α → Int → Option α} {more : Nat} {res : α} :
    ∀ {turns : Nat} {a : Int} {acc : α}, throughFree m bg body turns a acc = some res →
      turns ≤ more → throughFree m bg body more a acc = some res := by
  induction more with
  | zero =>
      intro turns a acc h hle
      rwa [Nat.le_zero.mp hle] at h
  | succ more ih =>
      intro turns a acc h hle
      cases turns with
      | zero => simp only [throughFree, reduceCtorEq] at h
      | succ turns =>
          rw [throughFree] at h ⊢
          by_cases ha : a = bg
          · rwa [if_pos ha] at h ⊢
          · rw [if_neg ha] at h ⊢
            obtain ⟨acc', hacc, hrest⟩ := Option.bind_eq_some_iff.mp h
            exact Option.bind_eq_some_iff.mpr ⟨acc', hacc, ih hrest (Nat.le_of_succ_le_succ hle)⟩

theorem firstFit_mono {more : Nat} {res : Int} : ∀ {turns : Nat} {a : Int},
    firstFit m bg size turns a = some res → turns ≤ more →
      firstFit m bg size more a = some res := by
  induction more with
  | zero =>
      intro turns a h hle
      rwa [Nat.le_zero.mp hle] at h
  | succ more ih =>
      intro turns a h hle
      cases turns with
      | zero => simp only [firstFit, reduceCtorEq] at h
      | succ turns =>
          rw [firstFit] at h ⊢
          by_cases ha : a = bg
          · rwa [if_pos ha] at h ⊢
          · rw [if_neg ha] at h ⊢
            by_cases hsize : bsize m a ≥ size
            · rwa [if_pos hsize] at h ⊢
            · rw [if_neg hsize] at h ⊢
              exact ih h (Nat.le_of_succ_le_succ hle)

theorem bget_mono {more : Nat} {res : Int × Cells UInt8} (h : bget turns s size = some res)
    (hle : turns ≤ more) : bget more s size = some res := by
  unfold bget at h ⊢
  simp only [Option.bind_eq_bind, Option.bind_eq_some_iff] at h ⊢
  obtain ⟨_, hbg, _, hasked, best, hbest, a, ha, hrest⟩ := h
  exact ⟨_, hbg, _, hasked, best, throughFree_mono hbest hle, a, firstFit_mono ha hle, hrest⟩

/-- Nor to any call. -/
theorem Call.exec_mono {more : Nat} {call : Call} {res : Int × State}
    (h : call.exec turns s = some res) (hle : turns ≤ more) : call.exec more s = some res := by
  cases call with
  | bpool => exact h
  | brel => exact h
  | put => exact h
  | bget =>
      obtain ⟨out, hout, hres⟩ := Option.map_eq_some_iff.mp h
      exact Option.map_eq_some_iff.mpr ⟨out, bget_mono hout hle, hres⟩
  | bgetz =>
      obtain ⟨out, hout, hres⟩ := Option.map_eq_some_iff.mp h
      obtain ⟨got, hgot, hrest⟩ := Option.bind_eq_some_iff.mp hout
      exact Option.map_eq_some_iff.mpr
        ⟨out, Option.bind_eq_some_iff.mpr ⟨got, bget_mono hgot hle, hrest⟩, hres⟩
  | bgetr =>
      obtain ⟨out, hout, hres⟩ := Option.map_eq_some_iff.mp h
      obtain ⟨got, hgot, hrest⟩ := Option.bind_eq_some_iff.mp hout
      exact Option.map_eq_some_iff.mpr
        ⟨out, Option.bind_eq_some_iff.mpr ⟨got, bget_mono hgot hle, hrest⟩, hres⟩

/-! ### Buffers -/

theorem Inv.self (h : Inv s data blocks frees gets rels) : Inv s s.mem blocks frees gets rels :=
  { h with held := h.held.of_data fun b hb hused i hlow hhigh =>
      h.held.body b hb hused i hlow hhigh }

/-- **What is written in a buffer** harms nothing. -/
theorem Inv.inside (h : Inv s data blocks frees gets rels) (hb : b ∈ blocks) (hused : b.kind = .used)
    (hsame : ∀ i, i < b.addr + 16 ∨ b.addr + b.size ≤ i → m' i = s.mem i) :
    Inv ⟨s.bg, m'⟩ m' blocks frees gets rels := by
  have hvars := h.held.vars b hb
  have hbsize := fits_size (h.held.fits b hb)
  unfold Clear at hvars
  refine ⟨⟨h.held.pos, h.held.top, h.held.apart, h.held.fits, h.held.vars, fun d hd => ?_,
    fun _ _ _ _ _ _ => rfl, ring_congr h.held.ring fun a ha i hlow hhigh => ?_, h.held.frees⟩,
    h.tiled, h.counters.congr fun i hlow hhigh => hsame i (by omega)⟩
  · refine (h.held.header d hd).congr fun i hlow hhigh => hsame i ?_
    have hdsize := fits_size (h.held.fits d hd)
    by_cases hdb : d = b
    · subst hdb
      exact .inl hhigh
    · have hapart := h.held.apart.forall hd hb hdb
      unfold Block.Apart at hapart
      omega
  · refine hsame i ?_
    by_contra hin
    rw [not_or, Int.not_lt, Int.not_le] at hin
    have hoff := h.held.off_links hb (i := i) (by omega) hin.2 (.inr (by rw [hused]; decide)) a ha
    omega

/-- What the callers know of the buffers that are out. -/
structure Known (data : Cells UInt8) (spans : List (Int × Int)) (live : Int → Option (List UInt8)) :
    Prop where
  span : ∀ a bs, live a = some bs → ∃ z, (a - 16, z) ∈ spans ∧ (bs.length : Int) ≤ z - 16 ∧
    slice data a bs.length = bs
  live : ∀ a z, (a, z) ∈ spans → live (a + 16) ≠ none

/-- The memory that was given is where the pools are. -/
structure Given (bg : Int) (given regions : List (Int × Int)) : Prop where
  pools : regions = Client.pools given
  head : ∃ len more, given = (bg, len) :: more ∧ 1072 ≤ len
  size : ∀ pool ∈ given, 48 ≤ quantized pool.2

/-- **What is in memory is what the callers think.** -/
structure Shows (s : State) (c : Client) (blocks : List Block) (frees : List Int) : Prop where
  inv : Inv s s.mem blocks frees c.gets c.rels
  given : Given s.bg c.given (regions none blocks)
  known : Known s.mem (spans .used blocks) c.live

theorem Shows.exists_used (h : Shows s c blocks frees) {bs : List UInt8}
    (hlive : c.live buf = some bs) : ∃ b ∈ blocks, b.kind = .used ∧ buf = b.addr + 16 ∧
      (bs.length : Int) ≤ b.size - 16 ∧ slice s.mem buf bs.length = bs := by
  obtain ⟨z, hmem, hlen, hslice⟩ := h.known.span buf bs hlive
  obtain ⟨b, hb, hused, haddr, rfl⟩ := mem_spans.mp hmem
  exact ⟨b, hb, hused, by omega, hlen, hslice⟩

/-- **A caller writes in a buffer**, and so it contains something else. -/
theorem Shows.write (h : Shows s c blocks frees) (hb : b ∈ blocks) (hused : b.kind = .used)
    (m' : Cells UInt8) (bs : List UInt8)
    (hsame : ∀ i, i < b.addr + 16 ∨ b.addr + b.size ≤ i → m' i = s.mem i)
    (hlen : (bs.length : Int) ≤ b.size - 16) (hbs : slice m' (b.addr + 16) bs.length = bs) :
    Shows ⟨s.bg, m'⟩ { c with live := Function.update c.live (b.addr + 16) (some bs) } blocks
      frees := by
  refine ⟨h.inv.inside hb hused hsame, h.given, ⟨fun a bs' hlive => ?_, fun a z hspan => ?_⟩⟩
  · by_cases ha : a = b.addr + 16
    · subst ha
      simp only [Function.update_self, Option.some.injEq] at hlive
      subst hlive
      exact ⟨b.size, mem_spans.mpr ⟨b, hb, hused, by omega, rfl⟩, hlen, hbs⟩
    · simp only [Function.update_of_ne ha] at hlive
      obtain ⟨d, hd, hdused, rfl, hdlen, hdslice⟩ := h.exists_used hlive
      refine ⟨d.size, mem_spans.mpr ⟨d, hd, hdused, by omega, rfl⟩, hdlen, ?_⟩
      have hapart := h.inv.held.apart.forall hd hb fun heq => ha (by rw [heq])
      unfold Block.Apart at hapart
      have hbsize := fits_size (h.inv.held.fits b hb)
      exact (Cells.slice_congr fun j hj => hsame _ (by omega)).trans hdslice
  · by_cases ha : a + 16 = b.addr + 16
    · simp only [ha, Function.update_self, ne_eq, reduceCtorEq, not_false_eq_true]
    · simp only [Function.update_of_ne ha]
      exact h.known.live a z hspan

/-! ### To allocate -/

/-- What was given away is one more used block, in a free one. -/
structure Gave (blocks blocks' : List Block) (b u : Block) : Prop where
  mem : u ∈ blocks'
  used : u.kind = .used
  low : b.addr ≤ u.addr
  high : u.addr + u.size = b.addr + b.size
  spans : ∀ a z, (a, z) ∈ spans .used blocks' ↔ a = u.addr ∧ z = u.size ∨ (a, z) ∈ spans .used blocks
  regions : regions none blocks' = regions none blocks

theorem Gives.gave (h : Gives size k b n r u blocks') (hb : b.kind = .free) :
    Gave (k ++ b :: n :: r) blocks' b u := by
  have hspans : ∀ a z : Int, (a, z) = (u.addr, u.size) ↔ a = u.addr ∧ z = u.size := fun a z =>
    Prod.mk.injEq .. ▸ Iff.rfl
  have hstop : b.kind ≠ .stop := by rw [hb]; decide
  cases h with
  | whole hleft =>
      refine ⟨by simp, rfl, Int.le_refl _, rfl, fun a z => ?_, ?_⟩
      · simp only [spans_append, spans_cons, hb, reduceCtorEq, if_true, if_false, List.mem_append,
          List.mem_cons, Prod.mk.injEq]
        tauto
      · exact regions_replace b { b with kind := .used } [] [] hstop
          (fun heq => Kind.noConfusion heq) rfl (List.forall_mem_nil _) (List.forall_mem_nil _) k r none
  | split hleft =>
      refine ⟨by simp, rfl, ?_, ?_, fun a z => ?_, ?_⟩
      · simp only [Block.right]
        omega
      · simp only [Block.right]
        omega
      · simp only [spans_append, spans_cons, hb, Block.left, Block.right, reduceCtorEq, if_true,
          if_false, List.mem_append, List.mem_cons, Prod.mk.injEq]
        tauto
      · refine regions_replace b (b.left size) [] [b.right size] hstop hstop
          rfl (List.forall_mem_nil _) (fun c hc => ?_) k r none
        rw [List.mem_singleton.mp hc]
        exact fun heq => Kind.noConfusion heq

/-- A buffer is no larger than it has to be, but for what is too small to be left. -/
theorem Gives.size_le (h : Gives size k b n r u blocks') : u.size ≤ size + 32 := by
  cases h with
  | whole hleft =>
      simp only
      omega
  | split hleft =>
      simp only [Block.right]
      omega

theorem Gives.size_ge (h : Gives size k b n r u blocks') (hb : size ≤ b.size) : size ≤ u.size := by
  cases h with
  | whole hleft => exact hb
  | split hleft => exact Int.le_refl _

/-- **A buffer is out.** -/
theorem Shows.gave (h : Shows s c blocks frees) (hb : b ∈ blocks) (hfree : b.kind = .free)
    (hgave : Gave blocks blocks' b u)
    (hinv : Inv ⟨s.bg, m'⟩ data blocks' l (c.gets + 1) c.rels)
    (hdata : ∀ i, i < b.addr ∨ b.addr + b.size ≤ i → data i = s.mem i) {bs : List UInt8}
    (hlen : (bs.length : Int) ≤ u.size - 16) (hbs : slice m' (u.addr + 16) bs.length = bs) :
    c.live (u.addr + 16) = none ∧ Shows ⟨s.bg, m'⟩ (c.got (u.addr + 16) bs) blocks' l := by
  have hupos := (hinv.held.fits u hgave.mem).pos
  have hne : u.addr + 16 ≠ 0 := by omega
  have hbsize := fits_size (h.inv.held.fits b hb)
  have hother : ∀ a old, c.live a = some old → a ≠ u.addr + 16 ∧
      ∃ z, (a - 16, z) ∈ spans .used blocks' ∧ (old.length : Int) ≤ z - 16 ∧
        slice m' a old.length = old := by
    intro a old hlive
    obtain ⟨d, hd, hdused, rfl, hdlen, hdslice⟩ := h.exists_used hlive
    have hdsize := fits_size (h.inv.held.fits d hd)
    have hdb : d ≠ b := fun heq => by
      rw [heq, hfree] at hdused
      exact absurd hdused (by decide)
    have hapart := h.inv.held.apart.forall hd hb hdb
    have husize := fits_size (hinv.held.fits u hgave.mem)
    have hlow := hgave.low
    have hhigh := hgave.high
    unfold Block.Apart at hapart
    have hspan : (d.addr, d.size) ∈ spans .used blocks' :=
      (hgave.spans _ _).mpr (.inr (mem_spans.mpr ⟨d, hd, hdused, rfl, rfl⟩))
    refine ⟨by omega, d.size, by rwa [Int.add_sub_cancel], hdlen,
      (Cells.slice_congr fun j hj => ?_).trans hdslice⟩
    obtain ⟨e, he, heused, headdr, hesize⟩ := mem_spans.mp hspan
    exact (hinv.held.body e he heused _ (by omega) (by omega)).trans (hdata _ (by omega))
  have hgot : c.got (u.addr + 16) bs =
      { c with live := Function.update c.live (u.addr + 16) (some bs), gets := c.gets + 1 } :=
    if_neg hne
  refine ⟨?_, ?_⟩
  · cases hlive : c.live (u.addr + 16) with
    | none => rfl
    | some old => exact absurd rfl (hother _ old hlive).1
  rw [hgot]
  refine ⟨hinv.self, hgave.regions ▸ h.given, ⟨fun a old hlive => ?_, fun a z hspan => ?_⟩⟩
  · by_cases ha : a = u.addr + 16
    · subst ha
      simp only [Function.update_self, Option.some.injEq] at hlive
      subst hlive
      refine ⟨u.size, ?_, hlen, hbs⟩
      rw [Int.add_sub_cancel]
      exact (hgave.spans _ _).mpr (.inl ⟨rfl, rfl⟩)
    · simp only [Function.update_of_ne ha] at hlive
      exact (hother a old hlive).2
  · by_cases ha : a + 16 = u.addr + 16
    · simp only [ha, Function.update_self, ne_eq, reduceCtorEq, not_false_eq_true]
    · simp only [Function.update_of_ne ha]
      exact h.known.live a z (((hgave.spans a z).mp hspan).resolve_left fun heq => ha (by omega))

/-- **`bget` gives away a buffer**, or it has none that is large enough. -/
theorem Shows.get (h : Shows s c blocks frees) {requested : Int} (hpos : 0 < requested)
    (hmax : requested ≤ 2 ^ 63 - 20) (hturns : frees.length < turns) :
    (bget turns s requested = some (0, s.mem) ∧
      ∀ b ∈ blocks, b.kind = .free → b.size < neededSize requested) ∨
    ∃ b u m' blocks' frees', b ∈ blocks ∧ b.kind = .free ∧ neededSize requested ≤ b.size ∧
      bget turns s requested = some (u.addr + 16, m') ∧ u ∈ blocks' ∧ u.kind = .used ∧
      neededSize requested ≤ u.size ∧ u.size ≤ neededSize requested + 32 ∧
      c.live (u.addr + 16) = none ∧
      ∀ bs : List UInt8, (bs.length : Int) ≤ u.size - 16 →
        slice m' (u.addr + 16) bs.length = bs →
          Shows ⟨s.bg, m'⟩ (c.got (u.addr + 16) bs) blocks' frees' := by
  rcases bget_inv h.inv hpos hmax hturns with hnone | ⟨k, b, n, r, rfl, hfree, hfits, -, u, blocks',
    m', frees', data', hgives, hrun, hinv, hdata⟩
  · exact .inl hnone
  · have hneeded := (neededSize_ge requested).1
    have hb : b ∈ k ++ b :: n :: r := by simp
    have hgave := hgives.gave hfree
    have hall := fun (bs : List UInt8) (hlen : (bs.length : Int) ≤ u.size - 16)
      (hbs : slice m' (u.addr + 16) bs.length = bs) => h.gave hb hfree hgave hinv hdata hlen hbs
    have husize := hgives.size_ge hfits
    refine .inr ⟨b, u, m', blocks', frees', hb, hfree, hfits, hrun, hgave.mem, hgave.used, husize,
      hgives.size_le, ?_, fun bs hlen hbs => (hall bs hlen hbs).2⟩
    exact (hall [] (by rw [List.length_nil]; omega) rfl).1

/-! ### To release -/

/-- **A buffer is given back.** -/
theorem Shows.rel (h : Shows s c blocks frees) (hlive : c.live buf ≠ none) :
    ∃ m' blocks' frees', brel s buf = some m' ∧
      Shows ⟨s.bg, m'⟩ (c.released buf) blocks' frees' := by
  obtain ⟨bs, hbs⟩ := Option.ne_none_iff_exists'.mp hlive
  obtain ⟨b, hb, hused, rfl, -⟩ := h.exists_used hbs
  obtain ⟨k, r, rfl⟩ := List.append_of_mem hb
  obtain ⟨k', f, mid, x, r', m', frees', hcut, hbmid, hmid, hrun, hinv⟩ := brel_inv h.inv hused
  rw [hcut] at h
  have hstop : ∀ d ∈ f :: mid, d.kind ≠ .stop := by
    intro d hd
    rcases hmid d hd with rfl | hfree
    · rw [hused]
      decide
    · rw [hfree]
      decide
  have hapart : ∀ d ∈ k' ++ x :: r', d.addr ≠ b.addr := by
    intro d hd heq
    have hpair := h.inv.held.apart
    rw [List.pairwise_append, List.pairwise_append] at hpair
    have hbd : b.Apart d := by
      rcases List.mem_append.mp hd with hd | hd
      · exact (hpair.2.2 d hd b (List.mem_append_left _ hbmid)).symm
      · exact hpair.2.1.2.2 b hbmid d hd
    have hbsize := fits_size (h.inv.held.fits b (by simp only [List.mem_append]; tauto))
    have hdsize := fits_size (h.inv.held.fits d (by
      simp only [List.mem_append] at hd ⊢
      tauto))
    unfold Block.Apart at hbd
    omega
  have hspans : ∀ a z, (a, z) ∈ spans .used (k' ++ f.merged x ::
      { x with prev := x.addr - f.addr } :: r') ↔
      a ≠ b.addr ∧ (a, z) ∈ spans .used (k' ++ (f :: mid ++ x :: r')) := by
    intro a z
    have hafter : spans .used (k' ++ f.merged x :: { x with prev := x.addr - f.addr } :: r') =
        spans .used (k' ++ x :: r') := by
      simp only [spans_append, spans_cons, Block.merged, reduceCtorEq, if_false]
    have hbefore : (a, z) ∈ spans .used (k' ++ (f :: mid ++ x :: r')) ↔
        (a, z) ∈ spans .used (f :: mid) ∨ (a, z) ∈ spans .used (k' ++ x :: r') := by
      simp only [spans_append, List.mem_append]
      tauto
    rw [hafter, hbefore]
    constructor
    · intro hspan
      obtain ⟨d, hd, -, rfl, -⟩ := mem_spans.mp hspan
      exact ⟨hapart d hd, .inr hspan⟩
    · rintro ⟨ha, hspan | hspan⟩
      · obtain ⟨d, hd, hdused, rfl, -⟩ := mem_spans.mp hspan
        rcases hmid d hd with rfl | hfree
        · exact absurd rfl ha
        · rw [hfree] at hdused
          exact absurd hdused (by decide)
      · exact hspan
  have hregions : regions none (k' ++ f.merged x :: { x with prev := x.addr - f.addr } :: r') =
      regions none (k' ++ (f :: mid ++ x :: r')) :=
    regions_replace f (f.merged x) mid [] (hstop f List.mem_cons_self)
      (fun heq => Kind.noConfusion heq) rfl (fun d hd => hstop d (List.mem_cons_of_mem f hd))
      (List.forall_mem_nil _) k' r' none
  refine ⟨m', _, frees', hrun, hinv.self, ?_, ⟨fun a old hold => ?_, fun a z hspan => ?_⟩⟩
  · exact hregions ▸ h.given
  · by_cases ha : a = b.addr + 16
    · subst ha
      simp only [Client.released, Function.update_self, reduceCtorEq] at hold
    · simp only [Client.released, Function.update_of_ne ha] at hold
      obtain ⟨z, hspan, hlen, hslice⟩ := h.known.span a old hold
      have hspan' := (hspans _ _).mpr ⟨by omega, hspan⟩
      refine ⟨z, hspan', hlen, (Cells.slice_congr fun j hj => ?_).trans hslice⟩
      obtain ⟨d, hd, hdused, hdaddr, rfl⟩ := mem_spans.mp hspan'
      exact hinv.held.body d hd hdused _ (by omega) (by omega)
  · obtain ⟨ha, hspan⟩ := (hspans a z).mp hspan
    simp only [Client.released, Function.update_of_ne (show a + 16 ≠ b.addr + 16 by omega)]
    exact h.known.live a z hspan

/-! ### To allocate more -/

theorem memSize_of_lt {v : Int} (hnonneg : 0 ≤ v) (hlt : v < 2 ^ 31) :
    memSize v = some v.toNat := by
  have hbmod : v.bmod (2 ^ 32) = v := Int.bmod_eq_of_le (by omega) (by omega)
  rw [memSize, hbmod]
  exact if_pos hnonneg

theorem Inv.bsize_used (h : Inv s data blocks frees gets rels) (hb : b ∈ blocks)
    (hused : b.kind = .used) : bsize s.mem (b.addr + 16 - 16) = -b.size := by
  rw [Int.add_sub_cancel, (h.held.header b hb).size, tag, hused]

theorem Client.got_write {a : Int} (ha : a ≠ 0) (bs bs' : List UInt8) :
    { c.got a bs with live := Function.update (c.got a bs).live a (some bs') } = c.got a bs' := by
  simp only [Client.got, ha, if_false, Function.update_idem]

/-- **`bgetz`** answers with zeros. -/
theorem Shows.getz (h : Shows s c blocks frees) (hpos : 0 < size) (hmax : size ≤ 2 ^ 31 - 64)
    (hturns : frees.length < turns) : ∃ a m' blocks' frees', bgetz turns s size = some (a, m') ∧
      Shows ⟨s.bg, m'⟩ (c.got a (List.replicate size.toNat 0)) blocks' frees' := by
  rcases h.get hpos (by omega) hturns with ⟨hrun, -⟩ | ⟨b, u, m', blocks', frees', -, -, -, hrun, hu,
    hused, hsize, hmost, -, hshows⟩
  · refine ⟨0, s.mem, blocks, frees, ?_, h⟩
    rw [bgetz, hrun]
    rfl
  · have hneeded := (neededSize_ge size).2
    have hmost' : neededSize size ≤ 2 ^ 31 - 45 := by
      have hsizeQ : sizeQ = 16 := rfl
      simp only [neededSize, quantized]
      split <;> omega
    have hlen : ((slice m' (u.addr + 16) size.toNat).length : Int) ≤ u.size - 16 := by
      rw [Cells.slice_length]
      omega
    have hgot := hshows _ hlen (by rw [Cells.slice_length])
    have hne : u.addr + 16 ≠ 0 := by
      have hupos := (hgot.inv.held.fits u hu).pos
      omega
    have hbsize := hgot.inv.bsize_used hu hused
    have hrun' : bgetz turns s size =
        some (u.addr + 16, Cells.fill m' (u.addr + 16) ((u.size - 16).toNat : Int) 0) := by
      have hzero : ¬u.size = 0 := by omega
      have henough : u.size - 16 ≥ size := by omega
      simp only [bgetz, hrun, hne, hbsize, neg_neg, hzero, henough, if_false, guard_true,
        memSize_of_lt (v := u.size - 16) (by omega) (by omega), Option.pure_def,
        Option.bind_eq_bind, Option.bind_some]
    refine ⟨_, _, blocks', frees', hrun', ?_⟩
    have hwrite := hgot.write hu hused
      (Cells.fill m' (u.addr + 16) ((u.size - 16).toNat : Int) 0) (List.replicate size.toNat 0) (fun i hi => if_neg (by omega))
      (by rw [List.length_replicate]; omega) ?_
    · rwa [Client.got_write hne] at hwrite
    · refine Cells.slice_eq_iff.mpr fun j hj => ?_
      rw [List.length_replicate] at hj
      rw [List.getElem_replicate]
      exact if_pos (by omega)

/-- `NULL` is no buffer. -/
theorem Shows.live_zero (h : Shows s c blocks frees) : c.live 0 = none := by
  cases hlive : c.live 0 with
  | none => rfl
  | some bs =>
      obtain ⟨b, hb, -, hzero, -⟩ := h.exists_used hlive
      have hpos := (h.inv.held.fits b hb).pos
      omega

theorem kept_slice {kept : List UInt8} {a : Int} {n : Nat} (hlen : kept.length ≤ n)
    (hkept : slice m a kept.length = kept) :
    kept ++ slice m (a + kept.length) (n - kept.length) = slice m a n := by
  obtain ⟨d, rfl⟩ := Nat.le.dest hlen
  rw [Cells.slice_add, Nat.add_sub_cancel_left, hkept]

theorem Client.released_got {a : Int} (ha : a ≠ 0) (hne : a ≠ buf) (bs : List UInt8) :
    (c.got a bs).released buf = (c.released buf).got a bs := by
  simp only [Client.got, Client.released, ha, if_false, Function.update_comm hne]

theorem Client.got_live_of_ne {a a' : Int} (hne : a' ≠ a) (bs : List UInt8) :
    (c.got a bs).live a' = c.live a' := by
  unfold Client.got
  split
  · rfl
  · exact Function.update_of_ne hne ..

theorem Client.got_live {a : Int} (ha : a ≠ 0) (bs : List UInt8) :
    (c.got a bs).live a = some bs := by
  simp only [Client.got, ha, if_false, Function.update_self]

/-- **`bgetr`** answers with what there was. -/
theorem Shows.getr (h : Shows s c blocks frees) (hpos : 0 < size) (hmax : size < 2 ^ 31)
    (hbuf : buf = 0 ∨ c.live buf ≠ none) (hturns : frees.length < turns) :
    ∃ a m' blocks' frees', bgetr turns s buf size = some (a, m') ∧
      Shows ⟨s.bg, m'⟩ (c.after a m' (.bgetr buf size)) blocks' frees' := by
  rcases h.get hpos (by omega) hturns with ⟨hrun, -⟩ | ⟨b, u, m1, blocks', frees', -, -, -, hrun, hu,
    hused, hsize, -, hnew, hshows⟩
  · refine ⟨0, s.mem, blocks, frees, ?_, h⟩
    rw [bgetr, hrun]
    rfl
  have hneeded := (neededSize_ge size).2
  have hlen : ∀ m : Cells UInt8, ((slice m (u.addr + 16) size.toNat).length : Int) ≤ u.size - 16 := by
    intro m
    rw [Cells.slice_length]
    omega
  have hgot := hshows _ (hlen m1) (by rw [Cells.slice_length])
  have hne : u.addr + 16 ≠ 0 := by
    have hupos := (hgot.inv.held.fits u hu).pos
    omega
  by_cases hzero : buf = 0
  · subst hzero
    refine ⟨u.addr + 16, m1, blocks', frees', ?_, ?_⟩
    · simp only [bgetr, hrun, hne, if_true, if_false, Option.pure_def, Option.bind_eq_bind,
        Option.bind_some]
    · have hkept : c.kept 0 size = [] := by rw [Client.kept, h.live_zero, Option.getD_none, List.take_nil]
      simp only [Client.after, hkept, or_true, if_true]
      rwa [kept_slice (Nat.zero_le _) rfl]
  obtain ⟨old, hold⟩ := Option.ne_none_iff_exists'.mp (hbuf.resolve_left hzero)
  have hdiff : buf ≠ u.addr + 16 := fun heq => by
    rw [← heq, hold] at hnew
    exact absurd hnew nofun
  obtain ⟨d, hd, hdused, rfl, hdlen, hdslice⟩ := hgot.exists_used
    ((Client.got_live_of_ne hdiff _).trans hold)
  have hdsize := (hgot.inv.held.fits d hd).least (by rw [hdused]; decide)
  have hbsize := hgot.inv.bsize_used hd hdused
  simp only at hdslice hbsize
  -- So much is copied.
  obtain ⟨len, hlenEq⟩ : ∃ len, (if size < d.size - 16 then size else d.size - 16) = len := ⟨_, rfl⟩
  have hlenLe : len ≤ size ∧ len ≤ d.size - 16 ∧ 0 < len ∧ (len = size ∨ len = d.size - 16) := by
    split at hlenEq <;> omega
  have hwrite := hgot.write hu hused (Cells.move m1 (u.addr + 16) (d.addr + 16) (len.toNat : Int))
    (slice _ (u.addr + 16) size.toNat) (fun i hi => if_neg (by omega)) (hlen _) (by rw [Cells.slice_length])
  rw [Client.got_write hne] at hwrite
  simp only at hwrite
  generalize hm2 : Cells.move m1 (u.addr + 16) (d.addr + 16) (len.toNat : Int) = m2 at hwrite
  obtain ⟨m3, blocks3, frees3, hrel, hshows3⟩ := hwrite.rel
    (show (c.got (u.addr + 16) _).live (d.addr + 16) ≠ none by
      rw [Client.got_live_of_ne hdiff, hold]
      exact nofun)
  refine ⟨u.addr + 16, m3, blocks3, frees3, ?_, ?_⟩
  · have hpositive : d.size - 16 > 0 := by omega
    simp only [bgetr, hrun, hne, hzero, hbsize, neg_neg, hpositive, if_false, guard_true, hlenEq,
      memSize_of_lt (v := len) (by omega) (by omega), hm2, hrel, Option.pure_def,
      Option.bind_eq_bind, Option.bind_some]
  · rw [Client.released_got hne (Ne.symm hdiff)] at hshows3
    obtain ⟨-, -, -, hsame⟩ := hshows3.known.span (u.addr + 16) _ (Client.got_live hne _)
    rw [Cells.slice_length] at hsame
    have hkeptLen : (c.kept (d.addr + 16) size).length = min size.toNat old.length := by
      rw [Client.kept, hold, Option.getD_some, List.length_take]
    have hkept : slice m3 (u.addr + 16) (c.kept (d.addr + 16) size).length =
        c.kept (d.addr + 16) size := by
      have hcopied : slice m2 (u.addr + 16) (c.kept (d.addr + 16) size).length =
          slice m1 (d.addr + 16) (c.kept (d.addr + 16) size).length := by
        refine Cells.slice_congr fun j hj => ?_
        rw [hkeptLen] at hj
        have hin : u.addr + 16 ≤ u.addr + 16 + (j : Int) ∧
            u.addr + 16 + (j : Int) < u.addr + 16 + (len.toNat : Int) := by omega
        have hat : u.addr + 16 + (j : Int) - (u.addr + 16) + (d.addr + 16) = d.addr + 16 + j := by
          omega
        subst hm2
        exact (if_pos hin).trans (congrArg m1 hat)
      have hle : (c.kept (d.addr + 16) size).length ≤ size.toNat := by omega
      rw [← Cells.slice_take m3 (u.addr + 16) hle, hsame, Cells.slice_take _ _ hle, hcopied,
        ← Cells.slice_take m1 (d.addr + 16) (show _ ≤ old.length by omega), hdslice, hkeptLen,
        Client.kept, hold, Option.getD_some]
      exact List.take_eq_take_min.symm
    simp only [Client.after, hne, hzero, or_self, if_false]
    rw [kept_slice (by omega) hkept, hsame]
    exact hshows3

end Awoke.Benchmark.Bget
