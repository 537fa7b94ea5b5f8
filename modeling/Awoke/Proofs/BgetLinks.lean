/-
The free list of the allocator.

The links of the free buffers are words in memory, and a ring in which no two nodes are closer than
a header and the links.  To link a buffer or to take one out keeps the ring, and nothing is written
but links of its nodes.
-/
import Awoke.Benchmark.Bget
import Awoke.Lib.Links

namespace Awoke.Benchmark.Bget

open Cells (load store)

variable {m m' : Cells UInt8} {a b v x h : Int} {k r l : List Int}

theorem mem_middle : a ∈ k ++ x :: r ↔ a = x ∨ a ∈ k ++ r := by
  simp only [List.mem_append, List.mem_cons]
  tauto

/-! ### Words -/

/-- A number that is no more than a `long`. -/
def IsLong (v : Int) : Prop := -2 ^ 63 ≤ v ∧ v < 2 ^ 63

theorem word_store (hv : IsLong v) : load 8 (store 8 m a v) a = v :=
  Cells.load_store (by norm_num; exact hv.1) (by norm_num; exact hv.2) (by decide)

theorem word_apart (h : a + 8 ≤ b ∨ b + 8 ≤ a) : load 8 (store 8 m a v) b = load 8 m b :=
  Cells.load_store_of_apart h

theorem word_outside {i : Int} (h : i < a ∨ a + 8 ≤ i) : store 8 m a v i = m i :=
  Cells.store_outside h

/-! ### Nodes -/

/-- The links in memory. -/
def links (m : Cells UInt8) : Links Int where
  next a := some (flink m a)
  prev a := some (blink m a)

/-- Nodes whose headers and links do not overlap. -/
structure Spaced (nodes : List Int) : Prop where
  long : ∀ a ∈ nodes, IsLong a
  apart : ∀ a ∈ nodes, ∀ b ∈ nodes, a ≠ b → a + 32 ≤ b ∨ b + 32 ≤ a

/-- Only links of these nodes are changed. -/
def OffLinks (nodes : List Int) (m m' : Cells UInt8) : Prop :=
  ∀ i, (∀ a ∈ nodes, i < a + 16 ∨ a + 32 ≤ i) → m' i = m i

theorem links_joins_iff : (links m).Joins a b ↔ flink m a = b ∧ blink m b = a := by
  simp only [Links.Joins, links, Option.some.injEq]

theorem ring_congr (hring : (links m).Ring h l)
    (hsame : ∀ a ∈ h :: l, ∀ i, a + 16 ≤ i → i < a + 32 → m' i = m i) : (links m').Ring h l := by
  refine hring.congr (fun a ha => congrArg some ?_) fun a ha => congrArg some ?_
  · exact Cells.load_congr fun i hlow hhigh => hsame a ha i hlow (by omega)
  · exact Cells.load_congr fun i hlow hhigh => hsame a ha i (by omega) (by omega)

theorem setFlink_off {i : Int} (h : i < a + 16 ∨ a + 32 ≤ i) : setFlink m a v i = m i :=
  word_outside (by omega)

theorem setBlink_off {i : Int} (h : i < a + 16 ∨ a + 32 ≤ i) : setBlink m a v i = m i :=
  word_outside (by omega)

theorem flink_setFlink {nodes : List Int} (hspaced : Spaced nodes) (ha : a ∈ nodes) (hb : b ∈ nodes)
    (hv : IsLong v) : flink (setFlink m a v) b = if b = a then v else flink m b := by
  by_cases hba : b = a
  · rw [if_pos hba, hba]
    exact word_store hv
  · rw [if_neg hba]
    have hapart := hspaced.apart a ha b hb (Ne.symm hba)
    exact word_apart (by omega)

theorem blink_setBlink {nodes : List Int} (hspaced : Spaced nodes) (ha : a ∈ nodes) (hb : b ∈ nodes)
    (hv : IsLong v) : blink (setBlink m a v) b = if b = a then v else blink m b := by
  by_cases hba : b = a
  · rw [if_pos hba, hba]
    exact word_store hv
  · rw [if_neg hba]
    have hapart := hspaced.apart a ha b hb (Ne.symm hba)
    exact word_apart (by omega)

theorem flink_setBlink {nodes : List Int} (hspaced : Spaced nodes) (ha : a ∈ nodes)
    (hb : b ∈ nodes) : flink (setBlink m a v) b = flink m b := by
  by_cases hba : b = a
  · exact word_apart (by omega)
  · have hapart := hspaced.apart a ha b hb (Ne.symm hba)
    exact word_apart (by omega)

theorem blink_setFlink {nodes : List Int} (hspaced : Spaced nodes) (ha : a ∈ nodes)
    (hb : b ∈ nodes) : blink (setFlink m a v) b = blink m b := by
  by_cases hba : b = a
  · exact word_apart (by omega)
  · have hapart := hspaced.apart a ha b hb (Ne.symm hba)
    exact word_apart (by omega)

/-! ### Taking out and putting in -/

/-- **A buffer is taken from the list.** -/
theorem unlinkFree_ring (hring : (links m).Ring h (k ++ x :: r))
    (hspaced : Spaced (h :: (k ++ x :: r))) :
    ∃ m', unlinkFree m x = some m' ∧ (links m').Ring h (k ++ r) ∧
      OffLinks (h :: (k ++ x :: r)) m m' := by
  obtain ⟨hbefore, hbehind⟩ := hring.joins_mid
  have hxh := hring.ne_head
  obtain ⟨hxk, hxr⟩ : x ∉ k ∧ x ∉ r := by
    have hnodup := hring.nodup
    simp only [List.nodup_cons, List.nodup_append, List.mem_cons] at hnodup
    exact ⟨fun hx => hnodup.2.2.2 x hx x (.inl rfl) rfl, hnodup.2.2.1.1⟩
  have hsub : ∀ {a}, a ∈ h :: (k ++ r) → a ∈ h :: (k ++ x :: r) := fun ha =>
    List.mem_cons.mpr ((List.mem_cons.mp ha).imp_right fun ha => mem_middle.mpr (.inr ha))
  have hx : x ∈ h :: (k ++ x :: r) := by simp
  obtain ⟨p, hp⟩ : ∃ p, k.getLastD h = p := ⟨_, rfl⟩
  obtain ⟨n, hn⟩ : ∃ n, r.headD h = n := ⟨_, rfl⟩
  have hpmem := Links.getLastD_mem (h := h) (k := k)
  have hnmem := Links.headD_mem (h := h) (r := r)
  rw [hp] at hbefore hpmem
  rw [hn] at hbehind hnmem
  have hpx : x ≠ p := by
    rintro rfl
    exact (List.mem_cons.mp hpmem).elim hxh hxk
  have hp' : p ∈ h :: (k ++ x :: r) := hsub (List.mem_append_left r hpmem)
  have hn' : n ∈ h :: (k ++ x :: r) :=
    hsub (List.mem_cons.mpr ((List.mem_cons.mp hnmem).imp_right (List.mem_append_right k)))
  obtain ⟨hpf, hxb⟩ := links_joins_iff.mp hbefore
  obtain ⟨hxf, hnb⟩ := links_joins_iff.mp hbehind
  have hplong := hspaced.long p hp'
  have hnlong := hspaced.long n hn'
  have hflink : flink (setFlink m p n) x = n := by
    rw [flink_setFlink hspaced hp' hx hnlong, if_neg hpx, hxf]
  have hblink : blink (setFlink m p n) x = p := by
    rw [blink_setFlink hspaced hp' hx, hxb]
  refine ⟨setBlink (setFlink m p n) n p, ?_, ?_, ?_⟩
  · simp only [unlinkFree, hxb, hxf, hpf, hnb, guard_true, Option.pure_def, Option.bind_eq_bind,
      Option.bind_some, hflink, hblink]
  · refine hring.remove_of_mem hp hn (fun a ha hap => congrArg some ?_)
      (fun a ha han => congrArg some ?_) (links_joins_iff.mpr ⟨?_, ?_⟩)
    · rw [flink_setBlink hspaced hn' (hsub ha), flink_setFlink hspaced hp' (hsub ha) hnlong,
        if_neg hap]
    · rw [blink_setBlink hspaced hn' (hsub ha) hplong, if_neg han,
        blink_setFlink hspaced hp' (hsub ha)]
    · rw [flink_setBlink hspaced hn' hp', flink_setFlink hspaced hp' hp' hnlong, if_pos rfl]
    · rw [blink_setBlink hspaced hn' hn' hplong, if_pos rfl]
  · intro i hi
    rw [setBlink_off (hi n hn'), setFlink_off (hi p hp')]

/-- **A buffer is put at the end of the list.** -/
theorem linkFree_ring (hring : (links m).Ring h l) (hx : x ∉ h :: l)
    (hspaced : Spaced (x :: h :: l)) :
    ∃ m', linkFree m h x = some m' ∧ (links m').Ring h (l ++ [x]) ∧
      OffLinks (x :: h :: l) m m' := by
  have hjoins := Links.Ring.joins (k := l) (r := []) (by rwa [List.append_nil])
  have hfirst := Links.Ring.joins (k := []) hring
  obtain ⟨p, hp⟩ : ∃ p, l.getLastD h = p := ⟨_, rfl⟩
  have hpmem := Links.getLastD_mem (h := h) (k := l)
  rw [hp] at hjoins hpmem
  obtain ⟨hpf, hhb⟩ := links_joins_iff.mp hjoins
  obtain ⟨hhf, hfb⟩ := links_joins_iff.mp hfirst
  rw [List.getLastD_nil] at hhf hfb
  rw [List.headD_nil] at hpf hhb
  have hxmem : x ∈ x :: h :: l := List.mem_cons_self
  have hhmem : h ∈ x :: h :: l := List.mem_cons_of_mem x List.mem_cons_self
  have hpmem' : p ∈ x :: h :: l := List.mem_cons_of_mem x hpmem
  have hxh : x ≠ h := fun hxh => hx (hxh ▸ List.mem_cons_self)
  have hxp : x ≠ p := fun hxp => hx (hxp ▸ hpmem)
  have hhlong := hspaced.long h hhmem
  have hplong := hspaced.long p hpmem'
  have hxlong := hspaced.long x hxmem
  -- The link of the head back is read before it is written, and the one of the buffer behind that.
  have hread : blink (setFlink m x h) h = p := by
    rw [blink_setFlink hspaced hxmem hhmem, hhb]
  have hreadx : blink (setBlink (setBlink (setFlink m x h) x p) h x) x = p := by
    rw [blink_setBlink hspaced hhmem hxmem hxlong, if_neg hxh,
      blink_setBlink hspaced hxmem hxmem hplong, if_pos rfl]
  refine ⟨setFlink (setBlink (setBlink (setFlink m x h) x p) h x) p x, ?_, ?_, ?_⟩
  · simp only [linkFree, hhb, hpf, hhf, hfb, guard_true, Option.pure_def, Option.bind_eq_bind,
      Option.bind_some, hread, hreadx]
  · have hflink : ∀ a ∈ x :: h :: l,
        flink (setFlink (setBlink (setBlink (setFlink m x h) x p) h x) p x) a =
          if a = p then x else if a = x then h else flink m a := by
      intro a ha
      rw [flink_setFlink hspaced hpmem' ha hxlong, flink_setBlink hspaced hhmem ha,
        flink_setBlink hspaced hxmem ha, flink_setFlink hspaced hxmem ha hhlong]
    have hblink : ∀ a ∈ x :: h :: l,
        blink (setFlink (setBlink (setBlink (setFlink m x h) x p) h x) p x) a =
          if a = h then x else if a = x then p else blink m a := by
      intro a ha
      rw [blink_setFlink hspaced hpmem' ha, blink_setBlink hspaced hhmem ha hxlong,
        blink_setBlink hspaced hxmem ha hplong, blink_setFlink hspaced hxmem ha]
    have hne : ∀ {a}, a ∈ h :: l → a ≠ x := fun ha hax => hx (hax ▸ ha)
    refine Links.Ring.insert_of_mem (m := links m) (r := []) (by rwa [List.append_nil]) hp rfl
      (by rwa [List.append_nil]) (fun a ha hap => congrArg some ?_)
      (fun a ha hah => congrArg some ?_) (links_joins_iff.mpr ⟨?_, ?_⟩)
      (links_joins_iff.mpr ⟨?_, ?_⟩)
    · rw [List.append_nil] at ha
      rw [hflink a (List.mem_cons_of_mem x ha), if_neg hap, if_neg (hne ha)]
    · rw [List.append_nil] at ha
      rw [hblink a (List.mem_cons_of_mem x ha), if_neg (show a ≠ h from hah), if_neg (hne ha)]
    · rw [hflink p hpmem', if_pos rfl]
    · rw [hblink x hxmem, if_neg hxh, if_pos rfl]
    · rw [hflink x hxmem, if_neg hxp, if_pos rfl]
      rfl
    · exact (hblink h hhmem).trans (if_pos rfl)
  · intro i hi
    rw [setFlink_off (hi p hpmem'), setBlink_off (hi h hhmem), setBlink_off (hi x hxmem),
      setFlink_off (hi x hxmem)]

/-- **To go through the list is to fold over it**, given a turn for each buffer and one more. -/
theorem throughFree_ring {α : Type} (body : α → Int → Option α) (r : List Int) :
    ∀ (k : List Int) (n : Nat) (a : α), (links m).Ring h (k ++ r) → r.length < n →
      throughFree m h body n (r.headD h) a = r.foldlM body a := by
  induction r with
  | nil =>
      intro k n a _ hn
      obtain ⟨n, rfl⟩ := Nat.exists_eq_succ_of_ne_zero (Nat.ne_of_gt hn)
      rw [throughFree]
      exact if_pos rfl
  | cons x r ih =>
      intro k n a hring hn
      obtain ⟨n, rfl⟩ := Nat.exists_eq_succ_of_ne_zero (Nat.ne_of_gt (Nat.zero_lt_of_lt hn))
      have hnext := (links_joins_iff.mp hring.joins_mid.2).1
      rw [List.append_cons] at hring
      rw [throughFree, List.headD_cons, if_neg (Links.Ring.ne_head (by rwa [List.append_cons])),
        List.foldlM_cons, hnext]
      exact congrArg (Option.bind (body a x)) (funext fun a =>
        ih (k ++ [x]) n a hring (Nat.lt_of_succ_lt_succ hn))

end Awoke.Benchmark.Bget
