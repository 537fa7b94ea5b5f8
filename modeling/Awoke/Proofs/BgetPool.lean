/-
The pools of the allocator, and what it looks for in them.

The first pool gives its first cells to the variables of the allocator.  A pool begins as one free
block with a stop behind it.
-/
import Awoke.Proofs.BgetFree

namespace Awoke.Benchmark.Bget

open Cells (load store)
open Tiling

variable {s : State} {bg size : Int} {m m' data : Cells UInt8} {b f n p x : Block}
  {blocks k r rest : List Block} {frees l : List Int} {gets rels : Nat}

/-! ### Pools -/

/-- What `bpool` does to the variables, if there are none. -/
def cleared (m : Cells UInt8) (buf : Int) : Cells UInt8 :=
  setNext (setBlink (setFlink (Cells.fill m buf 64 0) buf buf) buf buf) buf 1

theorem load_zero {a : Int} (h : ∀ i, a ≤ i → i < a + 8 → m i = 0) : load 8 m a = 0 := by
  have hcongr : load 8 m a = load 8 (fun _ => 0) a :=
    Cells.load_congr fun i hlow hhigh => h i hlow (by omega)
  have hslice : Cells.slice (fun _ => (0 : UInt8)) a 8 = [0, 0, 0, 0, 0, 0, 0, 0] := rfl
  rw [hcongr, load, hslice]
  exact Int.zero_bmod

/-- **Where there are no pools** the invariant holds. -/
theorem cleared_inv (m data : Cells UInt8) {buf : Int} (hpos : 0 < buf) (htop : buf + 64 ≤ 2 ^ 63) :
    Inv ⟨buf, cleared m buf⟩ data [] [] 0 0 := by
  have hlong : IsLong buf := ⟨by omega, by omega⟩
  have hcell : ∀ i, buf + 32 ≤ i → i < buf + 56 → cleared m buf i = 0 := by
    intro i hlow hhigh
    have hnext : ∀ m : Cells UInt8, setNext m buf 1 i = m i := fun m => word_outside (by omega)
    have hblink : ∀ m : Cells UInt8, setBlink m buf buf i = m i := fun m => setBlink_off (by omega)
    have hflink : ∀ m : Cells UInt8, setFlink m buf buf i = m i := fun m => setFlink_off (by omega)
    rw [cleared, hnext, hblink, hflink, Cells.fill, if_pos ⟨by omega, by omega⟩]
  have hring : (links (cleared m buf)).Ring buf [] := by
    refine Links.ring_nil_iff.mpr (links_joins_iff.mpr ⟨?_, ?_⟩)
    · exact ((word_apart (.inr (by omega))).trans (word_apart (.inr (by omega)))).trans
        (word_store hlong)
    · exact (word_apart (.inr (by omega))).trans (word_store hlong)
  have hcounters : Counters (cleared m buf) buf 0 0 0 :=
    ⟨load_zero fun i hlow hhigh => hcell i (by omega) (by omega),
      load_zero fun i hlow hhigh => hcell i (by omega) (by omega),
      load_zero fun i hlow hhigh => hcell i (by omega) (by omega)⟩
  refine ⟨⟨hpos, htop, .nil, nofun, nofun, nofun, nofun, hring, fun a => ?_⟩,
    ⟨.singleton _, nofun, .nil, nofun⟩, hcounters⟩
  simp only [List.not_mem_nil, false_and, exists_false]

/-- The two blocks of a new pool. -/
def newPool (addr len : Int) : List Block :=
  [⟨addr, len - 16, .free, 0⟩, ⟨addr + (len - 16), 16, .stop, len - 16⟩]

/-- What `bpool` does once there are variables. -/
def addPool (s : State) (buf len : Int) : Option State := do
  guard ((len - 16) % 2 ^ 64 ≤ -(eSent + 1))
  let m := setPrevfree s.mem buf 0
  let m ← linkFree m s.bg buf
  let m := setBsize m buf (len - 16)
  let m := setPrevfree m (buf + (len - 16)) (len - 16)
  return { s with mem := setBsize m (buf + (len - 16)) eSent }

theorem bpool_first {buf len : Int} (h : s.bg = 0) :
    bpool s buf len = addPool ⟨buf, cleared s.mem buf⟩ (buf + 1024) (quantized (len - 1024)) := by
  simp only [bpool, h, if_true, addPool, cleared]

theorem bpool_more {buf len : Int} (h : s.bg ≠ 0) :
    bpool s buf len = addPool s buf (quantized len) := by
  simp only [bpool, h, if_false, addPool]

/-- **A pool is added.** -/
theorem addPool_inv {addr len : Int} (h : Inv s data blocks frees gets rels) (hlen : 48 ≤ len)
    (hpos : 0 < addr) (htop : addr + len ≤ 2 ^ 63)
    (hblocks : ∀ c ∈ blocks, Clear addr (addr + len) c)
    (hvars : s.bg + 64 ≤ addr ∨ addr + len ≤ s.bg) :
    ∃ m' frees', addPool s addr len = some ⟨s.bg, m'⟩ ∧
      Inv ⟨s.bg, m'⟩ data (blocks ++ newPool addr len) frees' gets rels := by
  have htiled : Tiled 16 32 (2 ^ 63) (blocks ++ newPool addr len) := by
    refine h.tiled.append_region (by decide) (by decide) (by omega) hpos (by omega) fun c hc => ?_
    have hclear := hblocks c hc
    unfold Clear at hclear
    omega
  have hguard : (len - 16) % 2 ^ 64 ≤ -(eSent + 1) := by
    have heSent : eSent = -2 ^ 63 := rfl
    rw [heSent]
    omega
  have hclearVars : ∀ b : Block, addr ≤ b.addr → b.addr + b.size ≤ addr + len →
      Clear s.bg (s.bg + 64) b := by
    intro b hlow hhigh
    unfold Clear
    omega
  have hclearBlocks : ∀ c ∈ blocks, ∀ b : Block, addr ≤ b.addr → b.addr + b.size ≤ addr + len →
      b.Apart c := by
    intro c hc b hlow hhigh
    have hclear := hblocks c hc
    unfold Clear at hclear
    unfold Block.Apart
    omega
  have hheld1 : Held s.bg (setPrevfree s.mem addr 0) data blocks frees := by
    refine h.held.of_clear addr (addr + 8) (fun i hi => word_outside hi)
      (fun c hc => ?_) (by omega)
    have hclear := hblocks c hc
    unfold Clear at hclear ⊢
    omega
  have hheader1 : Header (setPrevfree s.mem addr 0) addr 0 (bsize (setPrevfree s.mem addr 0) addr) :=
    ⟨word_store ⟨by decide, by decide⟩, rfl⟩
  obtain ⟨m2, hm2, -, hheld2, hsame⟩ := hheld1.link (b := ⟨addr, len - 16, .free, 0⟩) rfl
    (fun c hc => hclearBlocks c hc _ (Int.le_refl _) (by simp only; omega))
    ⟨hpos, by simp only; omega, nofun, fun _ => by simp only; omega⟩
    (hclearVars _ (Int.le_refl _) (by simp only; omega)) hheader1
  have hlink : linkFree (setPrevfree s.mem addr 0) s.bg addr = some m2 := hm2
  have hcounters1 : Counters (setPrevfree s.mem addr 0) s.bg (total .used blocks)
      ((gets : Int).bmod (2 ^ 64)) ((rels : Int).bmod (2 ^ 64)) :=
    h.counters.congr fun i hlow hhigh => word_outside (by omega)
  have hcounters2 : Counters (setBsize m2 addr (len - 16)) s.bg (total .used blocks)
      ((gets : Int).bmod (2 ^ 64)) ((rels : Int).bmod (2 ^ 64)) :=
    hcounters1.congr fun i hlow hhigh =>
      hsame i (by simp only; omega) (hheld1.off_counters hlow (by omega))
  simp only at hheld2
  generalize hm3 : setBsize m2 addr (len - 16) = m3 at hheld2 hcounters2
  have hstopSame : ∀ i, i < addr + (len - 16) ∨ addr + (len - 16) + 16 ≤ i →
      setBsize (setPrevfree m3 (addr + (len - 16)) (len - 16)) (addr + (len - 16)) eSent i =
        m3 i := by
    intro i hi
    have houtside : setPrevfree m3 (addr + (len - 16)) (len - 16) i = m3 i :=
      word_outside (by omega)
    exact (word_outside (by omega)).trans houtside
  have hheader3 : Header
      (setBsize (setPrevfree m3 (addr + (len - 16)) (len - 16)) (addr + (len - 16)) eSent)
      (addr + (len - 16)) (len - 16) eSent :=
    ⟨(word_apart (.inr (by omega))).trans (word_store ⟨by omega, by omega⟩),
      word_store ⟨by decide, by decide⟩⟩
  generalize hm4 : setBsize (setPrevfree m3 (addr + (len - 16)) (len - 16)) (addr + (len - 16))
    eSent = m4 at hstopSame hheader3
  have hheld4 := (hheld2.of_clear (addr + (len - 16)) (addr + (len - 16) + 16) hstopSame
    (List.forall_mem_cons.mpr ⟨.inl (Int.le_refl _), fun c hc => by
      have hclear := hblocks c hc
      unfold Clear at hclear ⊢
      omega⟩) (by omega)).add (b := ⟨addr + (len - 16), 16, .stop, len - 16⟩) nofun
    (List.forall_mem_cons.mpr ⟨.inr (Int.le_refl _), fun c hc =>
      hclearBlocks c hc _ (by simp only; omega) (by simp only; omega)⟩)
    ⟨by simp only; omega, by simp only; omega, fun _ => rfl, fun hne => absurd rfl hne⟩
    (hclearVars _ (by simp only; omega) (by simp only; omega)) hheader3 nofun
  have htotal : total .used (blocks ++ newPool addr len) = total .used blocks := by
    simp only [total_append, newPool, total_cons, total_nil, reduceCtorEq, if_false]
    ring
  refine ⟨m4, frees ++ [addr], ?_, ⟨hheld4.perm ?_, htiled, ?_⟩⟩
  · simp only [addPool, hguard, guard_true, hlink, hm3, hm4, Option.pure_def, Option.bind_eq_bind,
      Option.bind_some]
  · have hcomm : (newPool addr len ++ blocks).Perm (blocks ++ newPool addr len) :=
      List.perm_append_comm
    exact (List.Perm.swap _ _ _).trans hcomm
  · rw [htotal]
    exact hcounters2.congr fun i hlow hhigh => hstopSame i (by omega)

/-! ### The search -/

/-- What is the best for a size: the head, if there is nothing large enough. -/
def IsBest (m : Cells UInt8) (bg size : Int) (l : List Int) (best : Int) : Prop :=
  (best = bg ∧ ∀ a ∈ l, bsize m a < size) ∨
    best ∈ l ∧ size ≤ bsize m best ∧ ∀ a ∈ l, size ≤ bsize m a → bsize m best ≤ bsize m a

/-- A turn of the loop finds the best so far. -/
theorem better_best {best a : Int} (h : IsBest m bg size l best) (hbg : bg ∉ l) :
    IsBest m bg size (l ++ [a]) (better m bg size best a) := by
  unfold better
  rcases h with ⟨rfl, hnone⟩ | ⟨hmem, hfits, hleast⟩
  · by_cases ha : bsize m a ≥ size
    · rw [if_pos ⟨ha, .inl rfl⟩]
      refine .inr ⟨by simp, ha, fun c hc hsize => ?_⟩
      rcases List.mem_append.mp hc with hc | hc
      · exact absurd hsize (Int.not_le.mpr (hnone c hc))
      · rw [List.mem_singleton.mp hc]
    · rw [if_neg fun hand => ha hand.1]
      refine .inl ⟨rfl, fun c hc => ?_⟩
      rcases List.mem_append.mp hc with hc | hc
      · exact hnone c hc
      · rw [List.mem_singleton.mp hc]
        exact Int.not_le.mp ha
  · have hne : best ≠ bg := fun heq => hbg (heq ▸ hmem)
    by_cases ha : bsize m a ≥ size ∧ (best = bg ∨ bsize m a < bsize m best)
    · rw [if_pos ha]
      have hlt := ha.2.resolve_left hne
      refine .inr ⟨by simp, ha.1, fun c hc hsize => ?_⟩
      rcases List.mem_append.mp hc with hc | hc
      · exact Int.le_trans (Int.le_of_lt hlt) (hleast c hc hsize)
      · rw [List.mem_singleton.mp hc]
    · rw [if_neg ha]
      refine .inr ⟨List.mem_append_left _ hmem, hfits, fun c hc hsize => ?_⟩
      rcases List.mem_append.mp hc with hc | hc
      · exact hleast c hc hsize
      · rw [List.mem_singleton.mp hc] at hsize ⊢
        exact Int.not_lt.mp fun hlt => ha ⟨hsize, .inr hlt⟩

/-- **The first loop finds the best.** -/
theorem throughFree_best (size : Int) (hring : (links m).Ring bg l) {turns : Nat} (hturns : l.length < turns) :
    ∃ best, throughFree m bg (fun best b => some (better m bg size best b)) turns (flink m bg) bg =
        some best ∧ IsBest m bg size l best := by
  have hfirst := (links_joins_iff.mp (Links.Ring.joins (k := []) hring)).1
  rw [List.getLastD_nil] at hfirst
  rw [hfirst, throughFree_ring _ l [] turns bg hring hturns]
  have hbg := (List.nodup_cons.mp hring.nodup).1
  clear hring hturns hfirst
  induction l using List.reverseRecOn with
  | nil => exact ⟨bg, rfl, .inl ⟨rfl, nofun⟩⟩
  | append_singleton l a ih =>
      rw [List.mem_append, not_or] at hbg
      obtain ⟨best, hbest, his⟩ := ih hbg.1
      refine ⟨better m bg size best a, ?_, better_best his hbg.1⟩
      rw [List.foldlM_append, hbest]
      rfl

theorem firstFit_best {best : Int} (h : IsBest m bg size l best) {turns : Nat} (hturns : 0 < turns) :
    firstFit m bg size turns best = some best := by
  obtain ⟨turns, rfl⟩ := Nat.exists_eq_succ_of_ne_zero (Nat.ne_of_gt hturns)
  rw [firstFit]
  by_cases hbest : best = bg
  · rw [if_pos hbest, hbest]
  · rw [if_neg hbest, if_pos]
    exact (h.resolve_left fun hnone => hbest hnone.1).2.1

theorem neededSize_ge (requested : Int) :
    32 ≤ neededSize requested ∧ requested + 16 ≤ neededSize requested := by
  have hsizeQ : sizeQ = 16 := rfl
  simp only [neededSize, quantized]
  by_cases hsmall : requested < sizeQ
  · rw [if_pos hsmall]
    omega
  · rw [if_neg hsmall]
    omega

theorem Held.bsize_free (h : Held bg m data blocks frees) (hb : b ∈ blocks) (hfree : b.kind = .free) :
    bsize m b.addr = b.size := by
  rw [(h.header b hb).size, tag, hfree]

/-- What was given away, and the blocks after. -/
inductive Gives (size : Int) (k : List Block) (b n : Block) (r : List Block) : Block → List Block → Prop
  | whole (hleft : b.size - size ≤ 32) :
      Gives size k b n r { b with kind := .used }
        (k ++ { b with kind := .used } :: { n with prev := 0 } :: r)
  | split (hleft : 32 < b.size - size) :
      Gives size k b n r (b.right size)
        (k ++ b.left size :: b.right size :: { n with prev := 0 } :: r)

/-- **`bget` takes of the best block**, and there is none if it has no result. -/
theorem bget_inv (h : Inv s data blocks frees gets rels) {requested : Int} {turns : Nat}
    (hpos : 0 < requested) (hmax : requested ≤ 2 ^ 63 - 20) (hturns : frees.length < turns) :
    (bget turns s requested = some (0, s.mem) ∧
      ∀ b ∈ blocks, b.kind = .free → b.size < neededSize requested) ∨
    ∃ k b n r, blocks = k ++ b :: n :: r ∧ b.kind = .free ∧ neededSize requested ≤ b.size ∧
      (∀ c ∈ blocks, c.kind = .free → neededSize requested ≤ c.size → b.size ≤ c.size) ∧
      ∃ u blocks' m' frees' data', Gives (neededSize requested) k b n r u blocks' ∧
        bget turns s requested = some (u.addr + 16, m') ∧
        Inv ⟨s.bg, m'⟩ data' blocks' frees' (gets + 1) rels ∧
        ∀ i, i < b.addr ∨ b.addr + b.size ≤ i → data' i = data i := by
  have hbg := h.held.pos
  obtain ⟨best, hthrough, hbest⟩ := throughFree_best (neededSize requested) h.held.ring hturns
  have hfit := firstFit_best hbest (Nat.zero_lt_of_lt hturns)
  have hne : s.bg ≠ 0 := Int.ne_of_gt hbg
  have hasked : 0 < requested ∧ requested ≤ 2 ^ 63 - 20 := ⟨hpos, hmax⟩
  have hrun : bget turns s requested =
      if best = s.bg then some (0, s.mem)
      else if bsize s.mem best - neededSize requested > sizeQ + 16 then
        splitOff s.mem s.bg best (neededSize requested)
      else takeWhole s.mem s.bg best := by
    simp only [bget, hne, ne_eq, not_false_eq_true, hasked, and_self, guard_true, hthrough, hfit,
      Option.pure_def, Option.bind_eq_bind, Option.bind_some]
  rcases hbest with ⟨rfl, hnone⟩ | ⟨hmem, hfits, hleast⟩
  · refine .inl ⟨hrun.trans (if_pos rfl), fun b hb hfree => ?_⟩
    rw [← h.held.bsize_free hb hfree]
    exact hnone b.addr ((h.held.frees b.addr).mpr ⟨b, hb, hfree, rfl⟩)
  · refine .inr ?_
    have hhead : best ≠ s.bg := fun heq =>
      (List.nodup_cons.mp h.held.ring.nodup).1 (heq ▸ hmem)
    rw [if_neg hhead] at hrun
    obtain ⟨b, hb, hfree, rfl⟩ := (h.held.frees best).mp hmem
    rw [h.held.bsize_free hb hfree] at hrun hfits hleast
    have hleast' : ∀ c ∈ blocks, c.kind = .free → neededSize requested ≤ c.size →
        b.size ≤ c.size := by
      intro c hc hcfree hcsize
      have hle := hleast c.addr ((h.held.frees c.addr).mpr ⟨c, hc, hcfree, rfl⟩)
      rw [h.held.bsize_free hc hcfree] at hle
      exact hle hcsize
    obtain ⟨k, r, rfl⟩ := List.append_of_mem hb
    obtain ⟨n, r, rfl, -⟩ := h.tiled.exists_next (by rw [hfree]; decide)
    refine ⟨k, b, n, r, rfl, hfree, hfits, hleast', ?_⟩
    by_cases hleft : b.size - neededSize requested > sizeQ + 16
    · have hroom : 32 < b.size - neededSize requested := hleft
      obtain ⟨m', data', hsplit, hinv, hdata⟩ := splitOff_inv h hfree (neededSize_ge requested).1
        (Int.le_of_lt hroom)
      exact ⟨_, _, m', frees, data', .split hroom, (hrun.trans (if_pos hleft)).trans hsplit, hinv,
        hdata⟩
    · have hroom : b.size - neededSize requested ≤ 32 := Int.not_lt.mp hleft
      obtain ⟨m', frees', data', htake, hinv, hdata⟩ := takeWhole_inv h hfree
      exact ⟨_, _, m', frees', data', .whole hroom, (hrun.trans (if_neg hleft)).trans htake, hinv,
        hdata⟩

/-! ### Statistics -/

theorem Held.frees_perm (h : Held bg m data blocks frees) :
    frees.Perm ((blocks.filter fun b => b.kind = .free).map Block.addr) := by
  refine (List.perm_ext_iff_of_nodup (List.nodup_cons.mp h.ring.nodup).2 ?_).mpr fun a => ?_
  · refine (List.pairwise_map).mpr ((h.apart.filter _).imp_of_mem fun {b c} hb hc hapart heq => ?_)
    have hbsize := fits_size (h.fits b (List.mem_filter.mp hb).1)
    have hcsize := fits_size (h.fits c (List.mem_filter.mp hc).1)
    unfold Block.Apart at hapart
    omega
  · rw [h.frees]
    simp only [List.mem_map, List.mem_filter, decide_eq_true_eq, and_assoc]

/-- What the loop in `bstats` adds up. -/
theorem foldlM_measured (hpos : ∀ a ∈ l, 0 < bsize m a) : ∀ a : Int × Int,
    l.foldlM (measured m) a =
      some (a.1 + (l.map (bsize m)).sum, (l.map (bsize m)).foldl max a.2) := by
  induction l with
  | nil => exact fun a => by simp
  | cons b l ih =>
      intro a
      have hb : bsize m b > 0 := hpos b List.mem_cons_self
      have hturn : measured m a b = some (a.1 + bsize m b, max a.2 (bsize m b)) := by
        have hmax : (if bsize m b > a.2 then bsize m b else a.2) = max a.2 (bsize m b) := by
          rw [max_def_lt]
        simp only [measured, hb, guard_true, hmax, Option.pure_def, Option.bind_eq_bind,
          Option.bind_some]
      rw [List.foldlM_cons, hturn]
      refine (ih (fun c hc => hpos c (List.mem_cons_of_mem b hc)) _).trans ?_
      rw [List.map_cons, List.sum_cons, List.foldl_cons, Int.add_assoc]

end Awoke.Benchmark.Bget
