/-
When a text is built whole.

While the pieces fit, with a NUL behind them, the builder stands where they end.  The first piece
that does not fit is cut off, and the last byte of the room is a NUL from then on: what is built
later goes behind it, and what is returned as the length counts what was cut off as well.
-/
import Awoke.Util.BuildPtr
import Mathlib.Tactic.Linarith

namespace Awoke.BuildPtr

/-- The text is in the block from its beginning, and the builder has its length. -/
def Built (text : List UInt8) (s : BuildPtr × MemBlock) : Prop :=
  (s.1.len.setWidth 32).toInt = text.length ∧ Cells.slice s.2.cells 0 text.length = text

/-- A builder of a block, with its room not used. -/
structure StartsIn (cap : Nat) (s : BuildPtr × MemBlock) : Prop where
  block : s.1.block = s.2.id
  p : s.1.p = 0
  max : s.1.max = cap
  len : s.1.len = 0
  alloc : cap ≤ s.2.alloc
  pos : 0 < cap
  small : cap < 2 ^ 31

/-- How things stand when the text fits so far. -/
structure Fits (cap : Nat) (done : List UInt8) (s : BuildPtr × MemBlock) : Prop where
  block : s.1.block = s.2.id
  p : s.1.p = done.length
  max : s.1.max = cap - done.length
  len : s.1.len = BitVec.ofNat 64 done.length
  slice : Cells.slice s.2.cells 0 done.length = done
  room : done.length < cap
  alloc : cap ≤ s.2.alloc
  small : cap < 2 ^ 31

/-- How things stand when it does not. -/
structure Cut (cap : Nat) (done : List UInt8) (s : BuildPtr × MemBlock) : Prop where
  p : cap ≤ s.1.p
  last : s.2.cells (cap - 1 : Nat) = 0
  long : cap ≤ done.length

theorem vsnprintfLen_of_lt {text : List UInt8} (h : text.length < 2 ^ 31) :
    vsnprintfLen text = text.length := if_pos h

theorem StartsIn.fits {cap : Nat} {s : BuildPtr × MemBlock} (h : StartsIn cap s) :
    Fits cap [] s where
  block := h.block
  p := h.p
  max := by rw [h.max]; simp
  len := h.len
  slice := rfl
  room := h.pos
  alloc := h.alloc
  small := h.small

theorem Fits.size {cap : Nat} {done : List UInt8} {s : BuildPtr × MemBlock} (h : Fits cap done s) :
    s.1.size = cap - done.length := by
  have hroom := h.room
  have hsmall := h.small
  rw [BuildPtr.size, h.max]
  omega

/-- The next piece fits. -/
theorem Fits.build {cap : Nat} {done text : List UInt8} {s : BuildPtr × MemBlock}
    (h : Fits cap done s) (hfit : (done ++ text).length < cap) :
    ∃ s', BuildPtr.build s text = some s' ∧ Fits cap (done ++ text) s' := by
  rw [List.length_append] at hfit
  have hsmall := h.small
  have halloc := h.alloc
  have hlen : vsnprintfLen text = text.length := vsnprintfLen_of_lt (by omega)
  have hbytes : vsnprintfBytes s.1.size text = text ++ [0] := by
    rw [vsnprintfBytes, h.size, if_neg (by omega), List.take_of_length_le (by omega)]
  have hin : s.1.block = s.2.id ∧ 0 ≤ s.1.p ∧ s.1.p + (text ++ [0]).length ≤ s.2.alloc := by
    refine ⟨h.block, ?_, ?_⟩
    · rw [h.p]
      omega
    · rw [h.p, List.length_append, List.length_singleton]
      omega
  rw [BuildPtr.build, hbytes, if_pos (.inr hin), hlen]
  refine ⟨_, rfl, h.block, ?_, ?_, ?_, ?_, ?_, halloc, hsmall⟩
  · simp only [h.p, List.length_append]
    omega
  · simp only [h.max, List.length_append]
    omega
  · simp only [h.len, List.length_append, BitVec.ofInt_natCast, BitVec.ofNat_add]
  · rw [List.length_append, Cells.slice_add]
    simp only [h.p]
    rw [Cells.slice_write_before _ _ _ _ (by omega), h.slice, Int.zero_add]
    congr 1
    have hwhole := Cells.slice_write_self s.2.cells (done.length : Int) (text ++ [0])
    rw [← Cells.slice_take _ _ (show text.length ≤ (text ++ [0]).length by simp), hwhole,
      List.take_left]
  · rw [List.length_append]
    omega

/-- The first piece that does not fit. -/
theorem Fits.cut {cap : Nat} {done text : List UInt8} {s s' : BuildPtr × MemBlock}
    (h : Fits cap done s) (hcut : cap ≤ (done ++ text).length) (hlen : text.length < 2 ^ 31)
    (hbuild : BuildPtr.build s text = some s') : Cut cap (done ++ text) s' := by
  have hroom := h.room
  rw [List.length_append] at hcut
  have hbytes : vsnprintfBytes s.1.size text = text.take (cap - done.length - 1) ++ [0] := by
    rw [vsnprintfBytes, h.size, if_neg (by omega)]
  rw [BuildPtr.build, hbytes, vsnprintfLen_of_lt hlen] at hbuild
  split at hbuild
  case isFalse => exact absurd hbuild.symm (Option.some_ne_none s')
  case isTrue =>
    obtain rfl := Option.some_inj.mp hbuild
    refine ⟨?_, ?_, ?_⟩
    · simp only [h.p]
      omega
    · have htake : (text.take (cap - done.length - 1)).length = cap - done.length - 1 :=
        List.length_take_of_le (by omega)
      have hplace : ((cap - 1 : Nat) : Int) = s.1.p + ((cap - done.length - 1 : Nat) : Int) := by
        rw [h.p]
        omega
      change Cells.write _ _ _ _ = 0
      rw [hplace, Cells.write_inside _ _ _ (by rw [List.length_append, htake]; simp)]
      rw [List.getElem_append_right (by rw [htake])]
      simp only [htake, Nat.sub_self, List.getElem_cons_zero]
    · rw [List.length_append]
      omega

/-- What is built later goes behind. -/
theorem Cut.build {cap : Nat} {done text : List UInt8} {s s' : BuildPtr × MemBlock}
    (h : Cut cap done s) (hpos : 0 < cap) (hlen : text.length < 2 ^ 31)
    (hbuild : BuildPtr.build s text = some s') : Cut cap (done ++ text) s' := by
  have hp := h.p
  have hlong := h.long
  rw [BuildPtr.build, vsnprintfLen_of_lt hlen] at hbuild
  split at hbuild
  case isFalse => exact absurd hbuild.symm (Option.some_ne_none s')
  case isTrue =>
    obtain rfl := Option.some_inj.mp hbuild
    refine ⟨?_, ?_, ?_⟩
    · simp only
      omega
    · exact (Cells.write_outside _ _ _ (.inl (by omega))).trans h.last
    · rw [List.length_append]
      omega

/-! ### Several pieces -/

theorem builds_cons (s : BuildPtr × MemBlock) (text : List UInt8) (texts : List (List UInt8)) :
    BuildPtr.builds s (text :: texts) =
      (BuildPtr.build s text).bind fun s' => BuildPtr.builds s' texts := rfl

/-- All pieces fit. -/
theorem Fits.builds {cap : Nat} (texts : List (List UInt8)) : ∀ {done : List UInt8}
    {s : BuildPtr × MemBlock}, Fits cap done s → (done ++ texts.flatten).length < cap →
      ∃ s', BuildPtr.builds s texts = some s' ∧ Fits cap (done ++ texts.flatten) s' := by
  induction texts with
  | nil =>
      intro done s h _
      rw [List.flatten_nil, List.append_nil]
      exact ⟨s, rfl, h⟩
  | cons text texts ih =>
      intro done s h hfit
      rw [List.flatten_cons, ← List.append_assoc] at hfit ⊢
      have hfirst : (done ++ text).length < cap := by
        rw [List.length_append] at hfit
        omega
      obtain ⟨s₁, hbuild, h₁⟩ := h.build hfirst
      obtain ⟨s', hbuilds, h'⟩ := ih h₁ hfit
      refine ⟨s', ?_, h'⟩
      rw [builds_cons, hbuild, Option.bind_some, hbuilds]

theorem Cut.builds {cap : Nat} (hpos : 0 < cap) (texts : List (List UInt8)) :
    ∀ {done : List UInt8} {s s' : BuildPtr × MemBlock}, Cut cap done s →
      (∀ text ∈ texts, text.length < 2 ^ 31) → BuildPtr.builds s texts = some s' →
      Cut cap (done ++ texts.flatten) s' := by
  induction texts with
  | nil =>
      intro done s s' h _ hbuilds
      rw [List.flatten_nil, List.append_nil, ← Option.some_inj.mp hbuilds]
      exact h
  | cons text texts ih =>
      intro done s s' h hlen hbuilds
      rw [List.forall_mem_cons] at hlen
      rw [builds_cons] at hbuilds
      obtain ⟨s₁, hbuild, hrest⟩ := Option.bind_eq_some_iff.mp hbuilds
      rw [List.flatten_cons, ← List.append_assoc]
      exact ih (h.build hpos hlen.1 hbuild) hlen.2 hrest

/-- They do not all fit. -/
theorem Fits.builds_cut {cap : Nat} (texts : List (List UInt8)) : ∀ {done : List UInt8}
    {s s' : BuildPtr × MemBlock}, Fits cap done s → cap ≤ (done ++ texts.flatten).length →
      (∀ text ∈ texts, text.length < 2 ^ 31) → BuildPtr.builds s texts = some s' →
      Cut cap (done ++ texts.flatten) s' := by
  induction texts with
  | nil =>
      intro done s s' h hcut _ _
      rw [List.flatten_nil, List.append_nil] at hcut
      exact absurd h.room (Nat.not_lt.mpr hcut)
  | cons text texts ih =>
      intro done s s' h hcut hlen hbuilds
      rw [List.forall_mem_cons] at hlen
      rw [builds_cons] at hbuilds
      obtain ⟨s₁, hbuild, hrest⟩ := Option.bind_eq_some_iff.mp hbuilds
      rw [List.flatten_cons, ← List.append_assoc] at hcut ⊢
      rcases Nat.lt_or_ge (done ++ text).length cap with hfit | hlong
      · obtain ⟨s₂, hbuild₂, h₂⟩ := h.build hfit
        obtain rfl := Option.some_inj.mp (hbuild.symm.trans hbuild₂)
        exact ih h₂ hcut hlen.2 hrest
      · exact (h.cut hlong hlen.1 hbuild).builds (Nat.zero_lt_of_lt h.room) texts hlen.2 hrest

theorem Fits.built {cap : Nat} {done : List UInt8} {s : BuildPtr × MemBlock}
    (h : Fits cap done s) : Built done s := by
  have hroom := h.room
  have hsmall := h.small
  refine ⟨?_, h.slice⟩
  have hnat : (s.1.len.setWidth 32).toNat = done.length := by
    rw [h.len, BitVec.toNat_setWidth, BitVec.toNat_ofNat]
    omega
  rw [BitVec.toInt_eq_toNat_of_lt (by omega), hnat]

theorem Cut.not_built {cap : Nat} {done : List UInt8} {s : BuildPtr × MemBlock}
    (h : Cut cap done s) (hpos : 0 < cap) (hnul : (0 : UInt8) ∉ done) : ¬Built done s := by
  rintro ⟨-, hslice⟩
  have hlong := h.long
  have hat := Cells.slice_eq_iff.mp hslice (cap - 1) (by omega)
  rw [Int.zero_add, h.last] at hat
  exact hnul (hat ▸ List.getElem_mem _)

theorem not_built_of_long {text : List UInt8} {s : BuildPtr × MemBlock}
    (h : 2 ^ 31 ≤ text.length) : ¬Built text s := by
  rintro ⟨hlen, -⟩
  have := BitVec.two_mul_toInt_lt (x := s.1.len.setWidth 32)
  omega

/-- **A text is built whole exactly when it fits with a NUL behind it.** -/
theorem builds_iff {cap : Nat} {s : BuildPtr × MemBlock} (h : StartsIn cap s)
    {texts : List (List UInt8)} (hnul : ∀ text ∈ texts, (0 : UInt8) ∉ text) :
    (∃ s', BuildPtr.builds s texts = some s' ∧ Built texts.flatten s') ↔
      texts.flatten.length < cap := by
  constructor
  · rintro ⟨s', hbuilds, hbuilt⟩
    by_contra hlong
    by_cases hlen : ∀ text ∈ texts, text.length < 2 ^ 31
    · have hcut := h.fits.builds_cut texts (Nat.not_lt.mp hlong) hlen hbuilds
      refine hcut.not_built h.pos ?_ hbuilt
      rw [List.nil_append, List.mem_flatten]
      exact fun ⟨text, htext, hmem⟩ => hnul text htext hmem
    · push Not at hlen
      obtain ⟨text, htext, hle⟩ := hlen
      have hsub := (List.sublist_flatten_of_mem htext).length_le
      exact not_built_of_long (le_trans hle hsub) hbuilt
  · intro hfit
    obtain ⟨s', hbuilds, h'⟩ := h.fits.builds texts hfit
    exact ⟨s', hbuilds, h'.built⟩

theorem builds_gone {s : BuildPtr × MemBlock} (hgone : s.1.block ≠ s.2.id) (hsize : s.1.size ≠ 0)
    (text : List UInt8) (texts : List (List UInt8)) :
    BuildPtr.builds s (text :: texts) = none := by
  have hwritten : vsnprintfBytes s.1.size text ≠ [] := by
    rw [vsnprintfBytes, if_neg hsize]
    exact List.append_ne_nil_of_right_ne_nil _ (List.cons_ne_nil _ _)
  rw [builds_cons, BuildPtr.build, if_neg (not_or.mpr ⟨hwritten, fun h => hgone h.1⟩)]
  rfl

end Awoke.BuildPtr
