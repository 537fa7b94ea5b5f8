/-
Every run of the allocator.

Whatever callers do that is allowed, in whatever order, `Shows` is kept, and from it follows what a
caller relies on: a call always comes back, a buffer contains what was written in it and is nobody
else's, and there is no buffer only where none would fit.
-/
import Awoke.Proofs.BgetCalls

namespace Awoke.Benchmark.Bget

open Cells (load store slice)
open Tiling

variable {s : State} {c : Client} {bg size buf len : Int} {m data data' : Cells UInt8} {b : Block}
  {blocks : List Block} {frees : List Int} {turns : Nat} {given rs : List (Int × Int)}

/-! ### Pools and callers -/

/-- A pool lies in memory that was given. -/
theorem Given.exists_given (h : Given bg given rs) {base n : Int} (hmem : (base, n) ∈ rs) :
    ∃ pool ∈ given, pool.1 ≤ base ∧ base + n + 16 ≤ pool.1 + pool.2 ∧ 0 < n := by
  obtain ⟨len, more, rfl, hlen⟩ := h.head
  rw [h.pools, Client.pools] at hmem
  rcases List.mem_cons.mp hmem with heq | hmem
  · obtain ⟨rfl, rfl⟩ := Prod.mk.inj heq
    refine ⟨(bg, len), List.mem_cons_self, ?_⟩
    simp only [quantized]
    omega
  · obtain ⟨pool, hpool, heq⟩ := List.mem_map.mp hmem
    obtain ⟨rfl, rfl⟩ := Prod.mk.inj heq
    have hsize := h.size pool (List.mem_cons_of_mem _ hpool)
    refine ⟨pool, List.mem_cons_of_mem _ hpool, ?_⟩
    simp only [quantized] at hsize ⊢
    omega

theorem Shows.exists_given (h : Shows s c blocks frees) (hb : b ∈ blocks) :
    ∃ pool ∈ c.given, pool.1 ≤ b.addr ∧ b.addr + b.size ≤ pool.1 + pool.2 := by
  by_cases hstop : b.kind = .stop
  · obtain ⟨base, hmem⟩ := exists_region_stop hb hstop none
    obtain ⟨pool, hpool, hlow, hhigh, hpos⟩ := h.given.exists_given hmem
    have hsize := (h.inv.tiled.fits b hb).stop hstop
    exact ⟨pool, hpool, by omega, by omega⟩
  · obtain ⟨base, n, hmem, hlow, hhigh⟩ := h.inv.tiled.exists_region (by decide) (by decide) hb hstop
    obtain ⟨pool, hpool, hlow', hhigh', -⟩ := h.given.exists_given hmem
    exact ⟨pool, hpool, by omega, by omega⟩

theorem Given.add (h : Given bg given rs) (hlen : 48 ≤ quantized len) :
    Given bg (given ++ [(buf, len)]) (rs ++ [(buf, quantized len - 16)]) := by
  obtain ⟨n, more, rfl, hn⟩ := h.head
  refine ⟨?_, ⟨n, more ++ [(buf, len)], rfl, hn⟩, fun pool hpool => ?_⟩
  · rw [h.pools, List.cons_append, Client.pools, Client.pools, List.map_append]
    rfl
  · rcases List.mem_append.mp hpool with hpool | hpool
    · exact h.size pool hpool
    · rwa [List.mem_singleton.mp hpool]

theorem regions_newPool (a n : Int) : regions none (newPool a n) = [(a, n - 16)] := by
  rw [newPool, regions_cons _ _ (show Kind.free ≠ Kind.stop by decide), regions_stop _ _ rfl]
  simp only [Option.getD_none, Option.getD_some, add_sub_cancel_left, regions]

theorem spans_newPool (a n : Int) : spans .used (newPool a n) = [] := by
  simp only [newPool, spans_cons, reduceCtorEq, if_false, spans_nil]

theorem Known.congr {used : List (Int × Int)} {live : Int → Option (List UInt8)}
    (h : Known data used live)
    (hsame : ∀ a z, (a, z) ∈ used → ∀ i, a + 16 ≤ i → i < a + z → data' i = data i) :
    Known data' used live := by
  refine ⟨fun a bs hlive => ?_, h.live⟩
  obtain ⟨z, hspan, hlen, hslice⟩ := h.span a bs hlive
  exact ⟨z, hspan, hlen,
    (Cells.slice_congr fun j hj => hsame _ z hspan _ (by omega) (by omega)).trans hslice⟩

/-- **A pool is added to others.** -/
theorem Shows.pool (h : Shows s c blocks frees) (hallows : c.Allows (.bpool buf len)) :
    ∃ s' blocks' frees', bpool s buf len = some s' ∧
      Shows s' { c with given := c.given ++ [(buf, len)] } blocks' frees' := by
  obtain ⟨n, more, hgiven, hn⟩ := h.given.head
  have hnonempty : c.given ≠ [] := by rw [hgiven]; exact nofun
  obtain ⟨hpos, htop, hlen, hapart⟩ := hallows
  rw [if_neg hnonempty] at hlen
  have hle : quantized len ≤ len := by
    simp only [quantized]
    omega
  have hvars := hapart (s.bg, n) (by rw [hgiven]; exact List.mem_cons_self)
  simp only at hvars
  obtain ⟨m', frees', hadd, hinv⟩ := addPool_inv h.inv hlen hpos (by omega)
    (fun b hb => by
      obtain ⟨pool, hpool, hlow, hhigh⟩ := h.exists_given hb
      have hpoolApart := hapart pool hpool
      unfold Clear
      omega) (by omega)
  have hspans : spans .used (blocks ++ newPool buf (quantized len)) = spans .used blocks := by
    rw [spans_append, spans_newPool, List.append_nil]
  refine ⟨_, _, frees', (bpool_more (Int.ne_of_gt h.inv.held.pos)).trans hadd, hinv.self, ?_, ?_⟩
  · rw [regions_append h.inv.tiled.last, regions_newPool]
    exact h.given.add hlen
  · rw [hspans]
    refine h.known.congr fun a z hspan i hlow hhigh => ?_
    rw [← hspans] at hspan
    obtain ⟨b, hb, hused, rfl, rfl⟩ := mem_spans.mp hspan
    exact hinv.held.body b hb hused i hlow hhigh

/-- **The first pool.** -/
theorem shows_first (hbg : s.bg = 0) (hallows : Client.start.Allows (.bpool buf len)) :
    ∃ s' blocks frees, bpool s buf len = some s' ∧
      Shows s' { Client.start with given := [(buf, len)] } blocks frees := by
  obtain ⟨hpos, htop, hlen, -⟩ := hallows
  rw [if_pos (show Client.start.given = [] from rfl)] at hlen
  have hle : quantized (len - 1024) ≤ len - 1024 ∧ 48 ≤ len - 1024 ∧ 48 ≤ quantized len := by
    simp only [quantized] at hlen ⊢
    omega
  obtain ⟨m', frees', hadd, hinv⟩ := addPool_inv
    (cleared_inv s.mem s.mem hpos (by omega)) hlen (show 0 < buf + 1024 by omega) (by omega)
    (List.forall_mem_nil _)
    (.inl (by simp only; omega))
  refine ⟨_, _, frees', (bpool_first hbg).trans hadd, hinv.self, ⟨?_, ⟨len, [], rfl, by omega⟩, ?_⟩, ?_⟩
  · rw [List.nil_append, regions_newPool]
    rfl
  · intro pool hpool
    rw [List.mem_singleton.mp hpool]
    exact hle.2.2
  · rw [List.nil_append, spans_newPool]
    exact ⟨fun a bs hlive => absurd hlive (Option.some_ne_none bs).symm,
      fun a z hspan => absurd hspan List.not_mem_nil⟩

/-- **A caller writes in the middle of a buffer.** -/
theorem Shows.put (h : Shows s c blocks frees) {off : Nat} {bs : List UInt8}
    (hallows : c.Allows (.put buf off bs)) :
    Shows ⟨s.bg, Cells.write s.mem (buf + off) bs⟩ (c.after 0 m (.put buf off bs)) blocks frees := by
  obtain ⟨old, hold, hlen⟩ := hallows
  obtain ⟨b, hb, hused, rfl, hroom, hslice⟩ := h.exists_used hold
  obtain ⟨rest, hrest⟩ := Nat.le.dest hlen
  have hnew : (old.take off ++ bs ++ old.drop (off + bs.length)).length = off + bs.length + rest := by
    simp only [List.length_append, List.length_take, List.length_drop]
    omega
  have hwrite := h.write hb hused (Cells.write s.mem (b.addr + 16 + off) bs)
    (old.take off ++ bs ++ old.drop (off + bs.length))
    (fun i hi => Cells.write_outside _ _ _ (by omega)) (by rw [hnew]; omega) ?_
  · rwa [Client.after, hold]
  · have hbefore : slice (Cells.write s.mem (b.addr + 16 + off) bs) (b.addr + 16) off =
        old.take off := by
      rw [Cells.slice_write_before _ _ _ _ (Int.le_refl _),
        ← Cells.slice_take _ _ (show off ≤ old.length by omega), hslice]
    have hbehind : slice (Cells.write s.mem (b.addr + 16 + off) bs)
        (b.addr + 16 + (off + bs.length : Nat)) rest = old.drop (off + bs.length) := by
      have hsame : slice (Cells.write s.mem (b.addr + 16 + off) bs)
          (b.addr + 16 + (off + bs.length : Nat)) rest =
          slice s.mem (b.addr + 16 + (off + bs.length : Nat)) rest :=
        Cells.slice_congr fun j hj => Cells.write_outside _ _ _ (by omega)
      conv_rhs => rw [← hslice]
      rw [hsame, Cells.slice_drop _ _ hlen, ← hrest, Nat.add_sub_cancel_left]
    rw [hnew, Cells.slice_add, Cells.slice_add, hbefore, hbehind, Cells.slice_write_self]

/-! ### Runs -/

/-- What every run keeps. -/
inductive Stands (s : State) (c : Client) : Prop
  | start (hbg : s.bg = 0) (hclient : c = Client.start)
  | shows (blocks : List Block) (frees : List Int) (h : Shows s c blocks frees)

theorem Shows.frees_le (h : Shows s c blocks frees) : 32 * (frees.length : Int) ≤ c.capacity := by
  have hlen : frees.length = (blocks.filter fun b => b.kind = .free).length := by
    rw [h.inv.held.frees_perm.length_eq, List.length_map]
  have hleast := total_ge .free 32 fun b (hb : b ∈ blocks) hfree =>
    (h.inv.tiled.fits b hb).least (by rw [hfree]; decide)
  have hused := total_nonneg .used fun b (hb : b ∈ blocks) => by
    have hsize := fits_size (h.inv.tiled.fits b hb)
    omega
  have hsum := h.inv.tiled.total_regions
  rw [h.given.pools] at hsum
  rw [hlen, Client.capacity, hsum]
  omega

/-- **One call**, whichever. -/
theorem Shows.call (h : Shows s c blocks frees) {call : Call} (hallows : c.Allows call)
    (hturns : frees.length < turns) : ∃ r s', call.exec turns s = some (r, s') ∧
      ∃ blocks' frees', Shows s' (c.after r s'.mem call) blocks' frees' := by
  cases call with
  | bpool buf len =>
      obtain ⟨s', blocks', frees', hrun, hshows⟩ := h.pool hallows
      exact ⟨0, s', Option.map_eq_some_iff.mpr ⟨_, hrun, rfl⟩, blocks', frees', hshows⟩
  | bget size =>
      obtain ⟨-, hpos, hmax⟩ := hallows
      rcases h.get hpos hmax hturns with ⟨hrun, -⟩ | ⟨-, u, m', blocks', frees', -, -, -, hrun, -, -,
        hsize, -, -, hshows⟩
      · exact ⟨0, s, Option.map_eq_some_iff.mpr ⟨_, hrun, rfl⟩, blocks, frees, h⟩
      · have hneeded := (neededSize_ge size).2
        exact ⟨_, _, Option.map_eq_some_iff.mpr ⟨_, hrun, rfl⟩, blocks', frees',
          hshows _ (by rw [Cells.slice_length]; omega) (by rw [Cells.slice_length])⟩
  | bgetz size =>
      obtain ⟨-, hpos, hmax⟩ := hallows
      obtain ⟨a, m', blocks', frees', hrun, hshows⟩ := h.getz hpos hmax hturns
      exact ⟨a, _, Option.map_eq_some_iff.mpr ⟨_, hrun, rfl⟩, blocks', frees', hshows⟩
  | bgetr buf size =>
      obtain ⟨-, hpos, hmax, hbuf⟩ := hallows
      obtain ⟨a, m', blocks', frees', hrun, hshows⟩ := h.getr hpos hmax hbuf hturns
      exact ⟨a, _, Option.map_eq_some_iff.mpr ⟨_, hrun, rfl⟩, blocks', frees', hshows⟩
  | brel buf =>
      obtain ⟨m', blocks', frees', hrun, hshows⟩ := h.rel hallows
      exact ⟨0, _, Option.map_eq_some_iff.mpr ⟨_, hrun, rfl⟩, blocks', frees', hshows⟩
  | put buf off bs => exact ⟨0, _, rfl, blocks, frees, h.put hallows⟩

/-- A call, from wherever a run has come. -/
theorem Stands.call (h : Stands s c) {call : Call} (hallows : c.Allows call)
    (hturns : c.capacity < 32 * (turns : Int)) : ∃ r s', call.exec turns s = some (r, s') ∧
      Stands s' (c.after r s'.mem call) := by
  cases h with
  | shows blocks frees h =>
      have hle := h.frees_le
      obtain ⟨r, s', hrun, blocks', frees', hshows⟩ := h.call hallows (show frees.length < turns by omega)
      exact ⟨r, s', hrun, .shows blocks' frees' hshows⟩
  | start hbg hclient =>
      subst hclient
      cases call with
      | bpool buf len =>
          obtain ⟨s', blocks, frees, hrun, hshows⟩ := shows_first hbg hallows
          exact ⟨0, s', Option.map_eq_some_iff.mpr ⟨_, hrun, rfl⟩, .shows blocks frees hshows⟩
      | bget => exact absurd rfl hallows.1
      | bgetz => exact absurd rfl hallows.1
      | bgetr => exact absurd rfl hallows.1
      | brel => exact absurd rfl hallows
      | put =>
          obtain ⟨old, hold, -⟩ := hallows
          exact absurd hold nofun

theorem Reach.stands (h : Reach s c) : Stands s c := by
  induction h with
  | start mem => exact .start rfl rfl
  | @call s s' c call turns r h hallows hexec ih =>
      obtain ⟨r', s'', hrun, hstands⟩ := ih.call hallows
        (show c.capacity < 32 * ((max turns (c.capacity.toNat + 1) : Nat) : Int) by omega)
      rw [Call.exec_mono hexec (Nat.le_max_left ..)] at hrun
      obtain ⟨rfl, rfl⟩ := Prod.mk.inj (Option.some.inj hrun)
      exact hstands

theorem Reach.exists_shows (h : Reach s c) (hgiven : c.given ≠ []) :
    ∃ blocks frees, Shows s c blocks frees := by
  cases h.stands with
  | start _ hclient => exact absurd (by rw [hclient]; rfl) hgiven
  | shows blocks frees h => exact ⟨blocks, frees, h⟩

theorem exists_reach_got : ∃ s c, Reach s c ∧ c.given = [(4096, 2048)] ∧
    c.live = Function.update Client.start.live 6112 (some (List.replicate 10 0)) := by
  have hrun : (((Call.bpool 4096 2048).exec 0 ⟨0, fun _ => 0⟩).bind fun r =>
      ((Call.bgetz 10).exec 2 r.2).map Prod.fst) = some 6112 := by decide +kernel
  obtain ⟨⟨r1, s1⟩, h1, hget⟩ := Option.bind_eq_some_iff.mp hrun
  obtain ⟨⟨r2, s2⟩, h2, rfl⟩ := Option.map_eq_some_iff.mp hget
  have hpool : Client.start.Allows (.bpool 4096 2048) := ⟨by decide, by decide, by decide, nofun⟩
  have hreach := Reach.call (.start _) hpool h1
  have hbuf : (Client.start.after r1 s1.mem (.bpool 4096 2048)).Allows (.bgetz 10) :=
    ⟨List.cons_ne_nil _ _, by decide, by decide⟩
  exact ⟨s2, _, hreach.call hbuf h2, rfl, rfl⟩

/-- **A call that is allowed comes back**, with no assertion broken, after no more turns of a loop
than there is room for headers. -/
theorem exec_of_reach (h : Reach s c) {call : Call} (hallows : c.Allows call)
    (hturns : c.capacity < 32 * (turns : Int)) : ∃ r s', call.exec turns s = some (r, s') := by
  obtain ⟨r, s', hrun, -⟩ := h.stands.call hallows hturns
  exact ⟨r, s', hrun⟩

theorem exec_of_reach_brel :
    ∃ s c, Reach s c ∧ ∃ r s', (Call.brel 6112).exec 32 s = some (r, s') := by
  obtain ⟨s, c, h, hgiven, hlive⟩ := exists_reach_got
  refine ⟨s, c, h, exec_of_reach h ?_ ?_⟩
  · rw [Client.Allows, hlive, Function.update_self]
    exact nofun
  · rw [Client.capacity, hgiven]
    decide

/-- **What a caller has is its own**: a buffer contains what it should, lies in memory that was given
and not where the variables are, and shares no byte with another. -/
theorem live_of_reach (h : Reach s c) {a : Int} {bs : List UInt8} (hlive : c.live a = some bs) :
    slice s.mem a bs.length = bs ∧
      (∃ pool ∈ c.given, pool.1 ≤ a ∧ a + bs.length ≤ pool.1 + pool.2) ∧
      (a + bs.length ≤ s.bg ∨ s.bg + 64 ≤ a) ∧
      ∀ a' bs', c.live a' = some bs' → a' ≠ a →
        a + bs.length ≤ a' ∨ a' + bs'.length ≤ a := by
  cases h.stands with
  | start _ hclient =>
      subst hclient
      exact absurd hlive nofun
  | shows blocks frees h =>
      obtain ⟨b, hb, hused, rfl, hlen, hslice⟩ := h.exists_used hlive
      obtain ⟨pool, hpool, hlow, hhigh⟩ := h.exists_given hb
      have hvars := h.inv.held.vars b hb
      unfold Clear at hvars
      refine ⟨hslice, ⟨pool, hpool, by omega, by omega⟩, by omega, fun a' bs' hlive' hne => ?_⟩
      obtain ⟨d, hd, hdused, rfl, hdlen, -⟩ := h.exists_used hlive'
      have hapart := h.inv.held.apart.forall hb hd fun heq => hne (by rw [heq])
      unfold Block.Apart at hapart
      omega

theorem live_of_reach_got : ∃ s c, Reach s c ∧ slice s.mem 6112 10 = List.replicate 10 0 ∧
    (6122 ≤ s.bg ∨ s.bg + 64 ≤ 6112) := by
  obtain ⟨s, c, h, -, hlive⟩ := exists_reach_got
  have hbuf := live_of_reach h (show c.live 6112 = some (List.replicate 10 0) by
    rw [hlive, Function.update_self])
  exact ⟨s, c, h, hbuf.1, hbuf.2.2.1⟩

/-! ### What there is room for -/

/-- There is room for so many bytes with their header: a stretch of a pool with no buffer in it. -/
def HasRoom (s : State) (c : Client) (needed : Int) : Prop :=
  ∃ pool ∈ Client.pools c.given, ∃ low, pool.1 ≤ low ∧ low + needed ≤ pool.1 + pool.2 ∧
    ∀ a, c.live a ≠ none → a - 16 - bsize s.mem (a - 16) ≤ low ∨ low + needed ≤ a - 16

/-- Room is room in a free block. -/
theorem Shows.hasRoom_iff (h : Shows s c blocks frees) {needed : Int} (hpos : 0 < needed) :
    HasRoom s c needed ↔ ∃ b ∈ blocks, b.kind = .free ∧ needed ≤ b.size := by
  have hpools := h.given.pools
  constructor
  · rintro ⟨⟨base, n⟩, hpool, low, hlow, hhigh, hclear⟩
    rw [← hpools] at hpool
    obtain ⟨b, hb, hfree, hbaddr, hbend⟩ := h.inv.tiled.exists_free (by decide) (by decide) hpool hpos
      hlow hhigh fun d hd hused => by
        have hlive := h.known.live d.addr d.size (mem_spans.mpr ⟨d, hd, hused, rfl, rfl⟩)
        have hsize := h.inv.bsize_used hd hused
        have hdclear := hclear (d.addr + 16) hlive
        omega
    exact ⟨b, hb, hfree, by omega⟩
  · rintro ⟨b, hb, hfree, hsize⟩
    obtain ⟨base, n, hmem, hlow, hhigh⟩ := h.inv.tiled.exists_region (by decide) (by decide) hb
      (by rw [hfree]; decide)
    rw [hpools] at hmem
    refine ⟨(base, n), hmem, b.addr, hlow, by simp only; omega, fun a hlive => ?_⟩
    obtain ⟨bs, hbs⟩ := Option.ne_none_iff_exists'.mp hlive
    obtain ⟨d, hd, hused, rfl, -⟩ := h.exists_used hbs
    have hapart := h.inv.held.apart.forall hb hd fun heq => by
      rw [← heq, hfree] at hused
      exact absurd hused (by decide)
    rw [h.inv.bsize_used hd hused]
    unfold Block.Apart at hapart
    omega

/-- What `bget` returns, in turns enough for the free list, and when it has nothing. -/
theorem Shows.get_eq_zero_iff (h : Shows s c blocks frees) (hpos : 0 < size)
    (hmax : size ≤ 2 ^ 63 - 20) : ∃ r : Int × Cells UInt8,
      (∀ turns : Nat, c.capacity < 32 * (turns : Int) → bget turns s size = some r) ∧
        (r.1 = 0 ↔ ∀ b ∈ blocks, b.kind = .free → b.size < neededSize size) := by
  have hle := h.frees_le
  have hmore : ∀ r, bget (frees.length + 1) s size = some r → ∀ turns : Nat,
      c.capacity < 32 * (turns : Int) → bget turns s size = some r :=
    fun r hrun turns hturns => bget_mono hrun (by omega)
  rcases h.get hpos hmax (Nat.lt_succ_self frees.length) with
    ⟨hrun, hnone⟩ | ⟨b, u, m', blocks', frees', hb, hfree, hfits, hrun, hu, hused, hsize, -, -, hshows⟩
  · exact ⟨_, hmore _ hrun, iff_of_true rfl hnone⟩
  · have hneeded := (neededSize_ge size).2
    have hpos := ((hshows [] (by rw [List.length_nil]; omega) rfl).inv.held.fits u hu).pos
    exact ⟨_, hmore _ hrun, iff_of_false (by simp only; omega)
      fun hnone => absurd (hnone b hb hfree) (by omega)⟩

/-- **`bget` has nothing exactly if there is no room** in any pool: what is free is never in pieces
that lie side by side. -/
theorem bget_eq_zero_iff (h : Reach s c) (hallows : c.Allows (.bget size)) :
    ∃ r : Int × Cells UInt8,
      (∀ turns : Nat, c.capacity < 32 * (turns : Int) → bget turns s size = some r) ∧
        (r.1 = 0 ↔ ¬HasRoom s c (neededSize size)) := by
  obtain ⟨hgiven, hpos, hmax⟩ := hallows
  obtain ⟨blocks, frees, hshows⟩ := h.exists_shows hgiven
  obtain ⟨r, hget, hnone⟩ := hshows.get_eq_zero_iff hpos hmax
  have hneeded := (neededSize_ge size).1
  refine ⟨r, hget, ?_⟩
  rw [hnone, hshows.hasRoom_iff (by omega)]
  simp only [not_exists, not_and, Int.not_le]

theorem bget_eq_zero_iff_got : ∃ s c r, Reach s c ∧ bget 32 s 2000 = some r ∧
    (r.1 = 0 ↔ ¬HasRoom s c (neededSize 2000)) := by
  obtain ⟨s, c, h, hgiven, -⟩ := exists_reach_got
  have hallows : c.Allows (.bget 2000) := ⟨by rw [hgiven]; exact nofun, by decide, by decide⟩
  obtain ⟨r, hget, hzero⟩ := bget_eq_zero_iff h hallows
  refine ⟨s, c, r, h, hget 32 ?_, hzero⟩
  rw [Client.capacity, hgiven]
  decide

/-! ### Statistics -/

theorem foldl_max (sizes : List Int) : ∀ low : Int,
    low ≤ sizes.foldl max low ∧ (∀ z ∈ sizes, z ≤ sizes.foldl max low) ∧
      (sizes.foldl max low = low ∨ sizes.foldl max low ∈ sizes) := by
  induction sizes with
  | nil => exact fun low => ⟨Int.le_refl _, nofun, .inl rfl⟩
  | cons z sizes ih =>
      intro low
      obtain ⟨hlow, hall, hreached⟩ := ih (max low z)
      rw [List.foldl_cons]
      refine ⟨by omega, List.forall_mem_cons.mpr ⟨by omega, hall⟩, ?_⟩
      rcases hreached with heq | hmem
      · rw [heq]
        rcases Int.le_total low z with hle | hle
        · exact .inr (by rw [max_eq_right hle]; exact List.mem_cons_self)
        · exact .inl (max_eq_left hle)
      · exact .inr (List.mem_cons_of_mem z hmem)

/-- **What `bstats` stores.** -/
theorem Shows.stats (h : Shows s c blocks frees) : ∃ maxfree,
    (∀ turns, frees.length < turns → bstats turns s =
      some ⟨total .used blocks, total .free blocks, maxfree, (c.gets : Int).bmod (2 ^ 64),
        (c.rels : Int).bmod (2 ^ 64)⟩) ∧
    (∀ b ∈ blocks, b.kind = .free → b.size ≤ maxfree) ∧
    ((∀ b ∈ blocks, b.kind ≠ .free) ∧ maxfree = -1 ∨
      ∃ b ∈ blocks, b.kind = .free ∧ b.size = maxfree) := by
  have hheld := h.inv.held
  have hsize : ∀ a ∈ frees, ∃ b ∈ blocks, b.kind = .free ∧ b.addr = a ∧ bsize s.mem a = b.size := by
    intro a ha
    obtain ⟨b, hb, hfree, rfl⟩ := (hheld.frees a).mp ha
    exact ⟨b, hb, hfree, rfl, hheld.bsize_free hb hfree⟩
  obtain ⟨-, hall, hreached⟩ := foldl_max (frees.map (bsize s.mem)) (-1)
  refine ⟨(frees.map (bsize s.mem)).foldl max (-1), fun turns hturns => ?_, fun b hb hfree => ?_, ?_⟩
  · have hfirst := (links_joins_iff.mp (Links.Ring.joins (k := []) hheld.ring)).1
    rw [List.getLastD_nil] at hfirst
    have hfold := (throughFree_ring (measured s.mem) frees [] turns (0, -1) hheld.ring hturns).trans
      (foldlM_measured (fun a ha => by
        obtain ⟨b, hb, hfree, -, hbsize⟩ := hsize a ha
        have hleast := (hheld.fits b hb).least (by rw [hfree]; decide)
        rw [hbsize]
        omega) (0, -1))
    have htotal : (frees.map (bsize s.mem)).sum = total .free blocks := by
      rw [(hheld.frees_perm.map _).sum_eq, List.map_map]
      exact sum_total fun b hb hfree => hheld.bsize_free hb hfree
    have hbg : s.bg ≠ 0 := Int.ne_of_gt hheld.pos
    rw [bstats, if_neg hbg, hfirst, hfold, htotal, h.inv.counters.totalloc, h.inv.counters.numget,
      h.inv.counters.numrel, Int.zero_add]
    rfl
  · have hmem := (hheld.frees b.addr).mpr ⟨b, hb, hfree, rfl⟩
    rw [← hheld.bsize_free hb hfree]
    exact hall _ (List.mem_map_of_mem hmem)
  · rcases hreached with heq | hmem
    · refine .inl ⟨fun b hb hfree => ?_, heq⟩
      have hmem := (hheld.frees b.addr).mpr ⟨b, hb, hfree, rfl⟩
      have hle := hall _ (List.mem_map_of_mem hmem)
      have hleast := (hheld.fits b hb).least (by rw [hfree]; decide)
      rw [hheld.bsize_free hb hfree] at hle
      omega
    · obtain ⟨a, ha, heq⟩ := List.mem_map.mp hmem
      obtain ⟨b, hb, hfree, -, hbsize⟩ := hsize a ha
      exact .inr ⟨b, hb, hfree, by rw [← hbsize, heq]⟩

theorem Shows.bstats (h : Shows s c blocks frees) : ∃ stats : Stats,
    (∀ turns : Nat, c.capacity < 32 * (turns : Int) → bstats turns s = some stats) ∧
      stats.curalloc + stats.totfree = c.capacity ∧
      stats.nget = (c.gets : Int).bmod (2 ^ 64) ∧ stats.nrel = (c.rels : Int).bmod (2 ^ 64) ∧
      ((∀ a, c.live a = none) → stats.curalloc = 0) ∧
      ∀ size, c.Allows (.bget size) → ∃ r : Int × Cells UInt8,
        (∀ turns : Nat, c.capacity < 32 * (turns : Int) → bget turns s size = some r) ∧
          (r.1 = 0 ↔ stats.maxfree < neededSize size) := by
  have hfrees := h.frees_le
  obtain ⟨maxfree, hstats, hmost, hreached⟩ := h.stats
  refine ⟨⟨total .used blocks, total .free blocks, maxfree, (c.gets : Int).bmod (2 ^ 64),
    (c.rels : Int).bmod (2 ^ 64)⟩, fun turns hless => hstats turns (by omega), ?_,
    by simp only, by simp only, fun hnone => ?_, ?_⟩
  · have hsum := h.inv.tiled.total_regions
    rw [h.given.pools] at hsum
    rw [Client.capacity, hsum]
    exact Int.add_comm _ _
  · refine total_eq_zero fun b hb hused => ?_
    exact absurd (hnone _) (h.known.live b.addr b.size (mem_spans.mpr ⟨b, hb, hused, rfl, rfl⟩))
  · rintro size ⟨-, hpos, hmax⟩
    obtain ⟨r, hget, hzero⟩ := h.get_eq_zero_iff hpos hmax
    have hneeded := (neededSize_ge size).1
    refine ⟨r, hget, hzero.trans ?_⟩
    constructor
    · intro hnone
      rcases hreached with ⟨-, heq⟩ | ⟨b, hb, hfree, rfl⟩
      · simp only
        omega
      · exact hnone b hb hfree
    · intro hlt b hb hfree
      exact Int.lt_of_le_of_lt (hmost b hb hfree) hlt

/-- **The statistics are right**: what is out and what is free is all there is, so many calls were
made, and `bget` has a buffer of just the sizes that fit into `maxfree`. -/
theorem bstats_of_reach (h : Reach s c) : ∃ stats : Stats,
    (∀ turns : Nat, c.capacity < 32 * (turns : Int) → bstats turns s = some stats) ∧
      stats.curalloc + stats.totfree = c.capacity ∧
      stats.nget = (c.gets : Int).bmod (2 ^ 64) ∧ stats.nrel = (c.rels : Int).bmod (2 ^ 64) ∧
      ((∀ a, c.live a = none) → stats.curalloc = 0) ∧
      ∀ size, c.Allows (.bget size) → ∃ r : Int × Cells UInt8,
        (∀ turns : Nat, c.capacity < 32 * (turns : Int) → bget turns s size = some r) ∧
          (r.1 = 0 ↔ stats.maxfree < neededSize size) := by
  cases h.stands with
  | shows blocks frees h => exact h.bstats
  | start hbg hclient =>
      subst hclient
      refine ⟨⟨0, 0, 0, 0, 0⟩, fun turns _ => if_pos hbg, rfl, Int.zero_bmod.symm,
        Int.zero_bmod.symm, fun _ => rfl, ?_⟩
      exact fun size hallows => absurd rfl hallows.1

theorem bstats_of_reach_got : ∃ s c, Reach s c ∧ ∃ stats : Stats,
    bstats 32 s = some stats ∧ stats.curalloc + stats.totfree = 1008 := by
  obtain ⟨s, c, h, hgiven, -⟩ := exists_reach_got
  have hcapacity : c.capacity = 1008 := by
    rw [Client.capacity, hgiven]
    decide
  obtain ⟨stats, hstats, hsum, -⟩ := bstats_of_reach h
  rw [hcapacity] at hstats hsum
  exact ⟨s, c, h, stats, hstats 32 (by decide), hsum⟩

/-- **Once everything has been given back**, all of a pool can be had again. -/
theorem bget_of_all_released (h : Reach s c) (hnone : ∀ a, c.live a = none) {pool : Int × Int}
    (hpool : pool ∈ Client.pools c.given) (hallows : c.Allows (.bget size))
    (hfits : neededSize size ≤ pool.2) : ∃ r : Int × Cells UInt8,
      (∀ turns : Nat, c.capacity < 32 * (turns : Int) → bget turns s size = some r) ∧ r.1 ≠ 0 := by
  obtain ⟨hgiven, hpos, hmax⟩ := hallows
  obtain ⟨blocks, frees, hshows⟩ := h.exists_shows hgiven
  obtain ⟨r, hget, hzero⟩ := hshows.get_eq_zero_iff hpos hmax
  have hneeded := (neededSize_ge size).1
  obtain ⟨b, hb, hfree, hroom⟩ := (hshows.hasRoom_iff (show 0 < neededSize size by omega)).mp
    ⟨pool, hpool, pool.1, Int.le_refl _, by omega, fun a hlive => absurd (hnone a) hlive⟩
  refine ⟨r, hget, fun heq => ?_⟩
  exact absurd (hzero.mp heq b hb hfree) (by omega)

theorem bget_of_all_released_first : ∃ s c r, Reach s c ∧ bget 32 s 900 = some r ∧ r.1 ≠ 0 := by
  have hrun : ((Call.bpool 4096 2048).exec 0 ⟨0, fun _ => 0⟩).isSome := by decide +kernel
  obtain ⟨⟨r1, s1⟩, h1⟩ := Option.isSome_iff_exists.mp hrun
  have hpool : Client.start.Allows (.bpool 4096 2048) := ⟨by decide, by decide, by decide, nofun⟩
  have hreach := Reach.call (.start _) hpool h1
  have hbuf : (Client.start.after r1 s1.mem (.bpool 4096 2048)).Allows (.bget 900) :=
    ⟨List.cons_ne_nil _ _, by decide, by decide⟩
  obtain ⟨r, hget, hne⟩ := bget_of_all_released hreach (fun _ => rfl)
    (show ((5120, 1008) : Int × Int) ∈ _ from List.mem_singleton.mpr rfl) hbuf (by decide)
  refine ⟨s1, _, r, hreach, hget 32 ?_, hne⟩
  show ((Client.pools [(4096, 2048)]).map Prod.snd).sum < _
  decide

end Awoke.Benchmark.Bget
