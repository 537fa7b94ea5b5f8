/-
Words and their bytes.

A word is pulled low byte first and turned round, so what a package sends high byte first comes
out as it was pushed: `htonl_pullDwrd_iff` and `htons_pullWord_iff` say that a field of a package
has a value exactly if its bytes lie there.
-/
import Awoke.Util.Package
import Mathlib.Tactic.IntervalCases

namespace Awoke

/-! ### Bytes of words -/

/-- `awoke_htons` swaps the two bytes. -/
theorem htons_bytes (x : UInt16) :
    (htons x >>> 8).toUInt8 = x.toUInt8 ∧ (htons x).toUInt8 = (x >>> 8).toUInt8 := by
  refine ⟨?_, ?_⟩
  all_goals
    apply UInt8.eq_of_toBitVec_eq
    apply BitVec.eq_of_getLsbD_eq
    intro i hi
    simp only [htons, UInt16.toBitVec_toUInt8, UInt16.toBitVec_shiftRight, UInt16.toBitVec_or,
      UInt16.toBitVec_and, UInt16.toBitVec_shiftLeft, UInt16.toBitVec_ofNat]
    interval_cases i <;> simp

/-- `awoke_htonl` turns the four bytes round. -/
theorem htonl_bytes (x : UInt32) :
    (htonl x >>> 24).toUInt8 = x.toUInt8 ∧ (htonl x >>> 16).toUInt8 = (x >>> 8).toUInt8 ∧
      (htonl x >>> 8).toUInt8 = (x >>> 16).toUInt8 ∧ (htonl x).toUInt8 = (x >>> 24).toUInt8 := by
  refine ⟨?_, ?_, ?_, ?_⟩
  all_goals
    apply UInt8.eq_of_toBitVec_eq
    apply BitVec.eq_of_getLsbD_eq
    intro i hi
    simp only [htonl, UInt32.toBitVec_toUInt8, UInt32.toBitVec_shiftRight, UInt32.toBitVec_or,
      UInt32.toBitVec_and, UInt32.toBitVec_shiftLeft, UInt32.toBitVec_ofNat]
    interval_cases i <;> simp

theorem pushWord_pullWord (buf : Cells UInt8) (pos : Int) :
    pushWord (pullWord buf pos) = [buf pos, buf (pos + 1)] := by
  have h₀ := (buf pos).toNat_lt
  have h₁ := (buf (pos + 1)).toNat_lt
  have hword : (pullWord buf pos).toNat = (buf pos).toNat + (buf (pos + 1)).toNat * 256 := by
    simp only [pullWord, UInt16.toNat_add, UInt16.toNat_shiftLeft, UInt8.toNat_toUInt16,
      Nat.shiftLeft_eq, UInt16.reduceToNat, Nat.reduceMod, Nat.reducePow]
    omega
  simp only [pushWord, List.cons.injEq, and_true, ← UInt8.toNat_inj, UInt16.toNat_toUInt8,
    UInt16.toNat_shiftRight, hword, Nat.shiftRight_eq_div_pow, UInt16.reduceToNat,
    Nat.reduceMod, Nat.reducePow]
  omega

theorem pullDwrd_bytes (buf : Cells UInt8) (pos : Int) :
    (pullDwrd buf pos).toUInt8 = buf pos ∧ (pullDwrd buf pos >>> 8).toUInt8 = buf (pos + 1) ∧
      (pullDwrd buf pos >>> 16).toUInt8 = buf (pos + 2) ∧
      (pullDwrd buf pos >>> 24).toUInt8 = buf (pos + 3) := by
  have h₀ := (buf pos).toNat_lt
  have h₁ := (buf (pos + 1)).toNat_lt
  have h₂ := (buf (pos + 2)).toNat_lt
  have h₃ := (buf (pos + 3)).toNat_lt
  have hword : (pullDwrd buf pos).toNat = (buf pos).toNat + (buf (pos + 1)).toNat * 256 +
      (buf (pos + 2)).toNat * 65536 + (buf (pos + 3)).toNat * 16777216 := by
    simp only [pullDwrd, UInt32.toNat_add, UInt32.toNat_shiftLeft, UInt8.toNat_toUInt32,
      Nat.shiftLeft_eq, UInt32.reduceToNat, Nat.reduceMod, Nat.reducePow]
    omega
  simp only [← UInt8.toNat_inj, UInt32.toNat_toUInt8, UInt32.toNat_shiftRight, hword,
    Nat.shiftRight_eq_div_pow, UInt32.reduceToNat, Nat.reduceMod, Nat.reducePow]
  omega

theorem pushHtons_htons_pullWord (buf : Cells UInt8) (pos : Int) :
    pushHtons (htons (pullWord buf pos)) = [buf pos, buf (pos + 1)] := by
  obtain ⟨hhigh, hlow⟩ := htons_bytes (pullWord buf pos)
  rw [pushHtons, hhigh, hlow]
  exact pushWord_pullWord buf pos

theorem pushHtonl_htonl_pullDwrd (buf : Cells UInt8) (pos : Int) :
    pushHtonl (htonl (pullDwrd buf pos)) =
      [buf pos, buf (pos + 1), buf (pos + 2), buf (pos + 3)] := by
  obtain ⟨h₀, h₁, h₂, h₃⟩ := pullDwrd_bytes buf pos
  obtain ⟨b₀, b₁, b₂, b₃⟩ := htonl_bytes (pullDwrd buf pos)
  rw [pushHtonl, b₀, b₁, b₂, b₃, h₀, h₁, h₂, h₃]

theorem toNat_bytes (x : UInt32) :
    x.toNat = (x >>> 24).toUInt8.toNat * 16777216 + (x >>> 16).toUInt8.toNat * 65536 +
      (x >>> 8).toUInt8.toNat * 256 + x.toUInt8.toNat := by
  have hlt := x.toNat_lt
  simp only [UInt32.toNat_toUInt8, UInt32.toNat_shiftRight, Nat.shiftRight_eq_div_pow,
    UInt32.reduceToNat, Nat.reduceMod, Nat.reducePow]
  omega

theorem pushHtonl_injective : Function.Injective pushHtonl := by
  intro x y h
  simp only [pushHtonl, List.cons.injEq, and_true] at h
  obtain ⟨h₃, h₂, h₁, h₀⟩ := h
  rw [← UInt32.toNat_inj, toNat_bytes x, toNat_bytes y, h₃, h₂, h₁, h₀]

theorem toNat_bytes16 (x : UInt16) :
    x.toNat = (x >>> 8).toUInt8.toNat * 256 + x.toUInt8.toNat := by
  have hlt := x.toNat_lt
  simp only [UInt16.toNat_toUInt8, UInt16.toNat_shiftRight, Nat.shiftRight_eq_div_pow,
    UInt16.reduceToNat, Nat.reduceMod, Nat.reducePow]
  omega

theorem pushHtons_injective : Function.Injective pushHtons := by
  intro x y h
  simp only [pushHtons, List.cons.injEq, and_true] at h
  obtain ⟨h₁, h₀⟩ := h
  rw [← UInt16.toNat_inj, toNat_bytes16 x, toNat_bytes16 y, h₁, h₀]

/-- **A field of four bytes** has a value exactly if its bytes lie there. -/
theorem htonl_pullDwrd_iff {buf : Cells UInt8} {pos : Int} {x : UInt32} :
    htonl (pullDwrd buf pos) = x ↔ Cells.slice buf pos 4 = pushHtonl x := by
  have hslice : Cells.slice buf pos 4 = pushHtonl (htonl (pullDwrd buf pos)) := by
    rw [pushHtonl_htonl_pullDwrd]
    show [buf (pos + 0), _, _, _] = _
    rw [Int.add_zero]
    rfl
  rw [hslice]
  exact pushHtonl_injective.eq_iff.symm

/-- **A field of two bytes** has a value exactly if its bytes lie there. -/
theorem htons_pullWord_iff {buf : Cells UInt8} {pos : Int} {x : UInt16} :
    htons (pullWord buf pos) = x ↔ Cells.slice buf pos 2 = pushHtons x := by
  have hslice : Cells.slice buf pos 2 = pushHtons (htons (pullWord buf pos)) := by
    rw [pushHtons_htons_pullWord]
    show [buf (pos + 0), _] = _
    rw [Int.add_zero]
    rfl
  rw [hslice]
  exact pushHtons_injective.eq_iff.symm

theorem htonl_pullDwrd_toNat (buf : Cells UInt8) (pos : Int) :
    (htonl (pullDwrd buf pos)).toNat =
      (buf pos).toNat * 16777216 + (buf (pos + 1)).toNat * 65536 + (buf (pos + 2)).toNat * 256 +
        (buf (pos + 3)).toNat := by
  have hbytes := pushHtonl_htonl_pullDwrd buf pos
  simp only [pushHtonl, List.cons.injEq, and_true] at hbytes
  obtain ⟨h₃, h₂, h₁, h₀⟩ := hbytes
  rw [toNat_bytes, h₃, h₂, h₁, h₀]

end Awoke
