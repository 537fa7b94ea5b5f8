/-
What a write to a block of non-volatile memory erases.

As long as no address wraps, the loop erases one sector behind the other from the offset on, as
many as `len` bytes need that begin at a boundary.  So these are the sectors of the range exactly
if the offset does not push the last byte over one more boundary; and since a sector is erased as
a whole, the other blocks are safe exactly if they stay out of the range rounded to sectors.
-/
import Awoke.Benchmark.Nvm
import Awoke.Lib.Sectors

namespace Awoke.Nvm

open Sectors (touched mem_touched)

variable {m : BkNvmStruct} {stop : UInt32} {s : Erasing} {r : List UInt32}

/-! ### The list of blocks -/

theorem blocksAdd_append (m : BkNvmStruct) (blocks : List BkNvmBlock) :
    (bkNvmBlocksAdd m blocks).sectorSize = m.sectorSize ∧
      (bkNvmBlocksAdd m blocks).blocks = m.blocks ++ blocks.mapIdx fun k p =>
        { id := (m.nrBlocks + UInt32.ofNat k).toInt32, size := p.size, offset := p.offset } := by
  induction blocks generalizing m with
  | nil => exact ⟨rfl, (List.append_nil _).symm⟩
  | cons p blocks ih =>
      obtain ⟨hsize, hblocks⟩ := ih (m.add p)
      refine ⟨hsize, hblocks.trans ?_⟩
      have hnext : ∀ k, m.nrBlocks + 1 + UInt32.ofNat k = m.nrBlocks + UInt32.ofNat (k + 1) := by
        intro k
        rw [UInt32.ofNat_add, UInt32.add_assoc, UInt32.add_comm 1]
        rfl
      rw [List.mapIdx_cons]
      simp only [BkNvmStruct.add, List.append_assoc, List.singleton_append, hnext]
      simp

/-- An array of blocks, with its length of type `int`. -/
structure BlockArray where
  blocks : List BkNvmBlock
  nr_lt : blocks.length < 2 ^ 31

/-- The list that `bk_nvm_blocks_add` makes of it. -/
def BlockArray.added (t : BlockArray) (sectorSize : UInt32) : BkNvmStruct :=
  bkNvmBlocksAdd { sectorSize := sectorSize, nrBlocks := 0, blocks := [] } t.blocks

/-- The id of a block. -/
def idOf (k : Nat) : Int32 := (UInt32.ofNat k).toInt32

theorem idOf_inj {j k : Nat} (hj : j < 2 ^ 32) (hk : k < 2 ^ 32) (h : idOf j = idOf k) : j = k := by
  have heq : UInt32.ofNat j = UInt32.ofNat k := by
    have := congrArg Int32.toUInt32 h
    simpa [idOf] using this
  have hnat := congrArg UInt32.toNat heq
  rwa [UInt32.toNat_ofNat_of_lt' hj, UInt32.toNat_ofNat_of_lt' hk] at hnat

theorem BlockArray.find_added (t : BlockArray) (sectorSize : UInt32) {k : Nat}
    (hk : k < t.blocks.length) :
    (t.added sectorSize).blocks.find? (fun p => p.id = idOf k) =
      some { id := idOf k, size := t.blocks[k].size, offset := t.blocks[k].offset } := by
  have hnr := t.nr_lt
  rw [BlockArray.added, (blocksAdd_append _ t.blocks).2, List.nil_append,
    List.find?_eq_some_iff_getElem]
  refine ⟨by simp, k, by simpa using hk, ?_, fun j hj => ?_⟩
  · simp [idOf]
  · simp only [List.getElem_mapIdx, UInt32.zero_add]
    rw [Bool.not_eq_true', decide_eq_false_iff_not]
    exact fun heq => Nat.ne_of_lt hj (idOf_inj (by omega) (by omega) heq)

/-! ### The loop -/

/-- The loop ends with these sectors. -/
def Erases (m : BkNvmStruct) (stop : UInt32) (s : Erasing) (r : List UInt32) : Prop :=
  WhileLoop.Ends (fun s => s.addr < stop) (eraseTurn m) Erasing.erased s r

theorem toNat_add_ofNat {a : UInt32} {n : Nat} (h : a.toNat + n < 2 ^ 32) :
    (a + UInt32.ofNat n).toNat = a.toNat + n := by
  rw [UInt32.toNat_add, UInt32.toNat_ofNat_of_lt' (show n < 2 ^ 32 by omega), Nat.mod_eq_of_lt h]

theorem Erases.keeps (h : Erases m stop s r) : s.erased <+: r := by
  obtain ⟨s', hfront, hr⟩ := h.invariant (J := fun s' => s.erased <+: s'.erased)
    List.prefix_rfl fun s₁ s₂ _ hturn hfront => by
      obtain rfl := WhileLoop.Turn.next.inj hturn
      exact hfront.trans (List.prefix_append _ _)
  rcases hr with rfl | hr
  · exact hfront
  · exact nomatch hr

theorem erases_last {a : UInt32} {log : List UInt32} (h : ¬a < stop) :
    Erases m stop ⟨a, log⟩ r ↔ r = log :=
  WhileLoop.ends_of_last h

theorem erases_next {a : UInt32} {log : List UInt32} (h : a < stop) :
    Erases m stop ⟨a, log⟩ r ↔ Erases m stop ⟨a + m.sectorSize, log ++ [a]⟩ r :=
  WhileLoop.ends_of_next h rfl

/-- The first turns of the loop. -/
def steps (a size : UInt32) (c : Nat) : List UInt32 :=
  (List.range c).map fun i => a + UInt32.ofNat (i * size.toNat)

/-- The loop takes a turn for every step in front of the end. -/
theorem erases_steps (m : BkNvmStruct) (stop a : UInt32) : ∀ c : Nat,
    (∀ i < c, a.toNat + i * m.sectorSize.toNat < stop.toNat) → ∀ r,
      Erases m stop ⟨a, []⟩ r ↔
        Erases m stop ⟨a + UInt32.ofNat (c * m.sectorSize.toNat), steps a m.sectorSize c⟩ r := by
  intro c
  induction c with
  | zero =>
      intro _ r
      rw [Nat.zero_mul, show a + UInt32.ofNat 0 = a from UInt32.add_zero a]
      rfl
  | succ c ih =>
      intro hlt r
      have hstop := stop.toNat_lt
      have hc := hlt c (Nat.lt_succ_self c)
      have htest : a + UInt32.ofNat (c * m.sectorSize.toNat) < stop := by
        rw [UInt32.lt_iff_toNat_lt, toNat_add_ofNat (by omega)]
        exact hc
      have hnext : a + UInt32.ofNat (c * m.sectorSize.toNat) + m.sectorSize =
          a + UInt32.ofNat ((c + 1) * m.sectorSize.toNat) := by
        rw [Nat.add_mul, Nat.one_mul, UInt32.ofNat_add, UInt32.ofNat_toNat, UInt32.add_assoc]
      have hsteps : steps a m.sectorSize (c + 1) =
          steps a m.sectorSize c ++ [a + UInt32.ofNat (c * m.sectorSize.toNat)] := by
        rw [steps, List.range_succ, List.map_append]
        rfl
      rw [ih (fun i hi => hlt i (by omega)) r, hsteps, ← hnext]
      exact erases_next htest

/-! ### The sectors -/

/-- The sectors that some addresses are in. -/
def sectors (size : Nat) (erased : List UInt32) : List Nat := erased.map fun a => a.toNat / size

/-- Exactly the sectors of `n` bytes from `off` on, each once. -/
structure Exactly (size off n : Nat) (erased : List UInt32) : Prop where
  once : (sectors size erased).Nodup
  these : ∀ s, s ∈ sectors size erased ↔ ∃ x, off ≤ x ∧ x < off + n ∧ x / size = s

theorem sectors_steps {a size : UInt32} (hsize : 0 < size.toNat) {c : Nat}
    (hfit : ∀ i < c, a.toNat + i * size.toNat < 2 ^ 32) :
    sectors size.toNat (steps a size c) = List.range' (a.toNat / size.toNat) c := by
  rw [sectors, steps, List.map_map, List.range'_eq_map_range]
  refine List.map_congr_left fun i hi => ?_
  rw [Function.comp_apply, toNat_add_ofNat (hfit i (List.mem_range.mp hi)),
    Nat.add_mul_div_right _ _ hsize]

theorem last_sector {size off n : Nat} (hsize : 0 < size) (hn : 0 < n) :
    off % size + (n - 1) % size < size ↔
      (off + n - 1) / size ≤ off / size + (n - 1) / size := by
  have hsum := Nat.add_div (a := off) (b := n - 1) hsize
  rw [show off + n - 1 = off + (n - 1) by omega, hsum]
  split <;> omega

theorem step_lt {size n i : Nat} (hsize : 0 < size) (hn : 0 < n) (hi : i < (n - 1) / size + 1) :
    i * size < n := by
  have := (Nat.le_div_iff_mul_le hsize).mp (Nat.le_of_lt_succ hi)
  omega

theorem le_steps {size : Nat} (hsize : 0 < size) (n : Nat) : n ≤ ((n - 1) / size + 1) * size := by
  have hdiv := Nat.div_add_mod (n - 1) size
  have hmod := Nat.mod_lt (n - 1) hsize
  rw [Nat.add_mul, Nat.one_mul, Nat.mul_comm]
  omega

/-- No address wraps, and the offset does not push the last byte over one more boundary. -/
structure Regular (size off n : Nat) : Prop where
  fits : off + ((n - 1) / size + 1) * size < 2 ^ 32
  last : off % size + (n - 1) % size < size

/-- A regular loop erases the sectors of its range. -/
theorem Regular.exactly {off len : UInt32} (hn : 0 < len.toNat)
    (h : Regular m.sectorSize.toNat off.toNat len.toNat) :
    ∃ r, Erases m (off + len) ⟨off, []⟩ r ∧
      Exactly m.sectorSize.toNat off.toNat len.toNat r := by
  obtain ⟨hfits, hlast⟩ := h
  have hsize : 0 < m.sectorSize.toNat := Nat.lt_of_le_of_lt (Nat.zero_le _) hlast
  have hle := le_steps hsize len.toNat
  have hlt := fun i (hi : i < (len.toNat - 1) / m.sectorSize.toNat + 1) => step_lt hsize hn hi
  have hstop : (off + len).toNat = off.toNat + len.toNat := by
    rw [UInt32.toNat_add, Nat.mod_eq_of_lt (by omega)]
  refine ⟨steps off m.sectorSize ((len.toNat - 1) / m.sectorSize.toNat + 1), ?_, ?_, fun s => ?_⟩
  · refine (erases_steps m _ off _ (fun i hi => ?_) _).mpr ((erases_last ?_).mpr rfl)
    · rw [hstop]
      exact Nat.add_lt_add_left (hlt i hi) _
    · rw [UInt32.lt_iff_toNat_lt, hstop, toNat_add_ofNat hfits]
      omega
  all_goals rw [sectors_steps hsize fun i hi => by have := hlt i hi; omega]
  · exact List.nodup_range'
  · have hend := (last_sector hsize hn).mp hlast
    have hmono : off.toNat / m.sectorSize.toNat + (len.toNat - 1) / m.sectorSize.toNat ≤
        (off.toNat + len.toNat - 1) / m.sectorSize.toNat := by
      rw [Nat.add_sub_assoc hn]
      exact Nat.div_add_div_le_add_div
    rw [← mem_touched hsize, Sectors.mem_touched_iff hn, List.mem_range'_1]
    omega

theorem Exactly.of_prefix {size off n : Nat} {as erased : List UInt32}
    (h : Exactly size off n erased) (hfront : as <+: erased) : (sectors size as).Nodup :=
  h.once.sublist (hfront.map _).sublist

theorem mem_steps {a size : UInt32} {c : Nat} (hc : 0 < c) : a ∈ steps a size c := by
  refine List.mem_map.mpr ⟨0, List.mem_range.mpr hc, ?_⟩
  rw [Nat.zero_mul]
  exact UInt32.add_zero a

/-- A loop that erases the sectors of its range is regular. -/
theorem Exactly.regular {off len : UInt32} (hn : 0 < len.toNat)
    (hends : Erases m (off + len) ⟨off, []⟩ r)
    (h : Exactly m.sectorSize.toNat off.toNat len.toNat r) :
    Regular m.sectorSize.toNat off.toNat len.toNat := by
  have hoff := off.toNat_lt
  have hlen := len.toNat_lt
  have hfirst : off.toNat / m.sectorSize.toNat ∈ sectors m.sectorSize.toNat r :=
    (h.these _).mpr ⟨off.toNat, Nat.le_refl _, by omega, rfl⟩
  -- the end does not wrap, since the loop takes a turn
  have hstop : (off + len).toNat = off.toNat + len.toNat := by
    by_contra hwrap
    rw [UInt32.toNat_add] at hwrap
    have hnone : r = [] := by
      refine (erases_last fun hlt => ?_).mp hends
      rw [UInt32.lt_iff_toNat_lt, UInt32.toNat_add] at hlt
      change off.toNat < _ at hlt
      omega
    rw [hnone] at hfirst
    exact nomatch hfirst
  have hend := (off + len).toNat_lt
  rw [hstop] at hend
  -- a sector has a size, since no sector is erased twice
  have hsize : 0 < m.sectorSize.toNat := by
    refine Nat.pos_of_ne_zero fun hzero => ?_
    have htwo := (erases_steps m _ off 2 (fun i _ => by rw [hzero, hstop]; omega) r).mp hends
    have htwice := h.of_prefix htwo.keeps
    rw [hzero] at htwice
    simp [sectors, steps, List.range_succ, hzero] at htwice
  have hlt := fun i (hi : i < (len.toNat - 1) / m.sectorSize.toNat + 1) => step_lt hsize hn hi
  have hlast := hlt _ (Nat.lt_succ_self _)
  have hle := le_steps hsize len.toNat
  have hrest := (erases_steps m _ off ((len.toNat - 1) / m.sectorSize.toNat + 1)
    (fun i hi => by rw [hstop]; exact Nat.add_lt_add_left (hlt i hi) _) r).mp hends
  have hnext : ((len.toNat - 1) / m.sectorSize.toNat + 1) * m.sectorSize.toNat =
      (len.toNat - 1) / m.sectorSize.toNat * m.sectorSize.toNat + m.sectorSize.toNat := by
    rw [Nat.add_mul, Nat.one_mul]
  obtain ⟨c, hcount⟩ : ∃ c, (len.toNat - 1) / m.sectorSize.toNat + 1 = c := ⟨_, rfl⟩
  rw [hcount] at hlt hle hrest hnext
  have hpos : 0 < c := hcount ▸ Nat.succ_pos _
  have hsector := m.sectorSize.toNat_lt
  have hfits : off.toNat + c * m.sectorSize.toNat < 2 ^ 32 := by
    by_contra hwrap
    -- the address after the last one is in the first sector, which is erased already
    obtain ⟨a, ha⟩ : ∃ a, off + UInt32.ofNat (c * m.sectorSize.toNat) = a := ⟨_, rfl⟩
    have hnat : a.toNat = off.toNat + c * m.sectorSize.toNat - 2 ^ 32 := by
      have hsum : off.toNat + c * m.sectorSize.toNat < 2 ^ 33 := by omega
      rw [← ha, UInt32.toNat_add, UInt32.toNat_ofNat', Nat.add_mod_mod]
      omega
    have hzero : a.toNat / m.sectorSize.toNat = 0 := Nat.div_eq_of_lt (by omega)
    rw [ha] at hrest
    have hmore : Erases m (off + len)
        ⟨a + m.sectorSize, steps off m.sectorSize c ++ [a]⟩ r := by
      refine (erases_next ?_).mp hrest
      rw [UInt32.lt_iff_toNat_lt, hstop]
      show a.toNat < _
      omega
    have hmem : a.toNat / m.sectorSize.toNat ∈ sectors m.sectorSize.toNat r :=
      List.mem_map_of_mem (hmore.keeps.subset (by simp))
    obtain ⟨x, hx, -, hsame⟩ := (h.these _).mp hmem
    have hfirst' : off.toNat / m.sectorSize.toNat = 0 :=
      Nat.le_zero.mp ((Nat.div_le_div_right hx).trans (by rw [hsame, hzero]))
    have honce := h.of_prefix hmore.keeps
    rw [sectors, List.map_append, List.nodup_append] at honce
    exact honce.2.2 (off.toNat / m.sectorSize.toNat) (List.mem_map_of_mem (mem_steps hpos))
      (a.toNat / m.sectorSize.toNat) (by simp) (by rw [hfirst', hzero])
  refine ⟨by rw [hcount]; exact hfits, (last_sector hsize hn).mpr ?_⟩
  have hdone : r = steps off m.sectorSize c := by
    refine (erases_last ?_).mp hrest
    rw [UInt32.lt_iff_toNat_lt, hstop, toNat_add_ofNat hfits]
    omega
  have hmem := (h.these ((off.toNat + len.toNat - 1) / m.sectorSize.toNat)).mpr
    ⟨off.toNat + len.toNat - 1, by omega, by omega, rfl⟩
  rw [hdone, sectors_steps hsize fun i hi => by have := hlt i hi; omega, List.mem_range'_1] at hmem
  omega

/-! ### A write -/

/-- What is erased for a write to a block. -/
def BlockArray.Writes (t : BlockArray) (sectorSize : UInt32) (k : Nat) (len : Int32)
    (r : List UInt32) : Prop :=
  ∃ n, bkNvmBlockWrite n (t.added sectorSize) (idOf k) len = some (.etOk, r)

theorem BlockArray.writes_iff (t : BlockArray) (sectorSize : UInt32) {k : Nat}
    (hk : k < t.blocks.length) {len : Int32} (hlen : len.toUInt32 ≤ t.blocks[k].size)
    (r : List UInt32) :
    t.Writes sectorSize k len r ↔
      Erases (t.added sectorSize) (t.blocks[k].offset + len.toUInt32) ⟨t.blocks[k].offset, []⟩
        r := by
  refine exists_congr fun n => ?_
  rw [bkNvmBlockWrite, t.find_added sectorSize hk]
  show nvmBlockWrite n _
    { id := idOf k, size := t.blocks[k].size, offset := t.blocks[k].offset } len = _ ↔ _
  rw [nvmBlockWrite, if_neg (UInt32.not_lt.mpr hlen), eraseLoop, Option.map_eq_some_iff]
  constructor
  · rintro ⟨_, hrun, heq⟩
    rwa [← (Prod.mk.inj heq).2]
  · exact fun hrun => ⟨r, hrun, rfl⟩

/-- A write to a block erases exactly the sectors of its range, each once, and none of another
block. -/
def BlockArray.Isolates (t : BlockArray) (sectorSize : UInt32) (k : Nat)
    (hk : k < t.blocks.length) (len : Int32) : Prop :=
  ∃ r, t.Writes sectorSize k len r ∧
    Exactly sectorSize.toNat t.blocks[k].offset.toNat len.toUInt32.toNat r ∧
    ∀ (j : Nat) (hj : j < t.blocks.length), j ≠ k → ∀ x, t.blocks[j].offset.toNat ≤ x →
      x < t.blocks[j].offset.toNat + t.blocks[j].size.toNat →
        x / sectorSize.toNat ∉ sectors sectorSize.toNat r

/-- The range of a write and the other blocks: nothing is to be written, or the range is regular
and, rounded to sectors, has no byte of another block. -/
def BlockArray.Apart (t : BlockArray) (sectorSize : UInt32) (k : Nat)
    (hk : k < t.blocks.length) (len : Int32) : Prop :=
  len = 0 ∨
    Regular sectorSize.toNat t.blocks[k].offset.toNat len.toUInt32.toNat ∧
      ∀ (j : Nat) (hj : j < t.blocks.length), j ≠ k →
        t.blocks[j].size.toNat = 0 ∨
        t.blocks[j].offset.toNat + t.blocks[j].size.toNat ≤
          t.blocks[k].offset.toNat / sectorSize.toNat * sectorSize.toNat ∨
        Sectors.boundary sectorSize.toNat
          (t.blocks[k].offset.toNat + len.toUInt32.toNat - 1) ≤ t.blocks[j].offset.toNat

/-- **A write to a block is isolated exactly if** its range is regular and stays apart from the
other blocks. -/
theorem block_write_isolated_iff (t : BlockArray) (sectorSize : UInt32) {k : Nat}
    (hk : k < t.blocks.length) {len : Int32} (hlen : len.toUInt32 ≤ t.blocks[k].size) :
    t.Isolates sectorSize k hk len ↔ t.Apart sectorSize k hk len := by
  have hsectorSize : (t.added sectorSize).sectorSize = sectorSize :=
    (blocksAdd_append _ t.blocks).1
  unfold BlockArray.Isolates BlockArray.Apart
  simp only [t.writes_iff sectorSize hk hlen]
  by_cases hzero : len = 0
  · subst hzero
    refine iff_of_true ⟨[], ?_, ⟨List.nodup_nil, fun s => ?_⟩, fun j hj _ x _ _ => ?_⟩ (.inl rfl)
    · refine (erases_last ?_).mpr rfl
      rw [show (0 : Int32).toUInt32 = 0 from rfl, UInt32.add_zero]
      exact UInt32.lt_irrefl _
    · refine iff_of_false List.not_mem_nil fun ⟨x, hlow, hhigh, _⟩ => ?_
      rw [show (0 : Int32).toUInt32.toNat = 0 from rfl] at hhigh
      omega
    · exact List.not_mem_nil
  have hpos : 0 < len.toUInt32.toNat := by
    refine Nat.pos_of_ne_zero fun hnat => hzero ?_
    have hunsigned : len.toUInt32 = 0 := UInt32.toNat_inj.mp hnat
    exact congrArg UInt32.toInt32 hunsigned
  rw [or_iff_right hzero]
  -- the sectors of the other blocks, where those of the range are erased
  have hothers : ∀ r, 0 < sectorSize.toNat →
      Exactly sectorSize.toNat t.blocks[k].offset.toNat len.toUInt32.toNat r →
      ∀ (j : Nat) (hj : j < t.blocks.length),
        (∀ x, t.blocks[j].offset.toNat ≤ x →
          x < t.blocks[j].offset.toNat + t.blocks[j].size.toNat →
            x / sectorSize.toNat ∉ sectors sectorSize.toNat r) ↔
        (t.blocks[j].size.toNat = 0 ∨
          t.blocks[j].offset.toNat + t.blocks[j].size.toNat ≤
            t.blocks[k].offset.toNat / sectorSize.toNat * sectorSize.toNat ∨
          Sectors.boundary sectorSize.toNat
            (t.blocks[k].offset.toNat + len.toUInt32.toNat - 1) ≤ t.blocks[j].offset.toNat) := by
    intro r hsize hexactly j hj
    rw [← Sectors.avoids_iff hsize hpos]
    refine forall_congr' fun x => imp_congr_right fun _ => imp_congr_right fun _ => not_congr ?_
    rw [hexactly.these, mem_touched hsize]
  constructor
  · rintro ⟨r, hends, hexactly, hfree⟩
    have hregular : Regular sectorSize.toNat t.blocks[k].offset.toNat len.toUInt32.toNat := by
      have h := Exactly.regular hpos hends (hsectorSize.symm ▸ hexactly)
      rwa [hsectorSize] at h
    have hsize := Nat.lt_of_le_of_lt (Nat.zero_le _) hregular.last
    exact ⟨hregular, fun j hj hne => (hothers r hsize hexactly j hj).mp (hfree j hj hne)⟩
  · rintro ⟨hregular, hapart⟩
    obtain ⟨r, hends, hexactly⟩ := Regular.exactly hpos (hsectorSize.symm ▸ hregular)
    rw [hsectorSize] at hexactly
    have hsize := Nat.lt_of_le_of_lt (Nat.zero_le _) hregular.last
    exact ⟨r, hends, hexactly,
      fun j hj hne => (hothers r hsize hexactly j hj).mpr (hapart j hj hne)⟩

/-- Two blocks of a sector each. -/
def sideBySide : BlockArray :=
  ⟨[{ id := 0, size := 0x1000, offset := 0 }, { id := 0, size := 0x1000, offset := 0x1000 }],
    by decide⟩

theorem block_write_isolated_iff_second : sideBySide.Isolates 0x1000 1 (by decide) 0x800 := by
  refine (block_write_isolated_iff sideBySide 0x1000 (by decide) (by decide)).mpr
    (.inr ⟨⟨by decide, by decide⟩, fun j hj hne => .inr (.inl ?_)⟩)
  have hfirst : j = 0 := by
    have : j < 2 := hj
    omega
  subst hfirst
  show (0 : UInt32).toNat + (0x1000 : UInt32).toNat ≤ (0x1000 : UInt32).toNat / 0x1000 * 0x1000
  decide

/-- The table of the source. -/
def shipped : BlockArray := ⟨nvmblocks, by decide⟩

/-- To write all of the first block erases the other two. -/
theorem userset_erases_others : ¬shipped.Isolates 4096 0 (by decide) 0x3000 := by
  rintro ⟨r, hwrites, hexactly, hfree⟩
  -- the first byte of the second block
  refine hfree 1 (by decide) (by decide) 0x204000 (by decide) (by decide) ?_
  exact (hexactly.these _).mpr ⟨0x204000, by decide, by decide, rfl⟩

end Awoke.Nvm
