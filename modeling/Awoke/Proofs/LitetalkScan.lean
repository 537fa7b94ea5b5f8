/-
How far `litetalk_scan` may be trusted.

The loop stops at the last byte of the buffer and not three bytes earlier, so where the mark is not
in the buffer, four bytes are pulled from positions that do not have four.  What is found there may
be a mark that ends behind the buffer; where nothing is found all of it is reported, the beginning
of a mark at its end included.

A buffer that has the mark inside, or less than four bytes, is scanned as it should be.
-/
import Awoke.Proofs.LitetalkMatch

namespace Awoke.Cmder

variable {buf : Cells UInt8} {len : Int}

/-- The mark lies at `k`, all of it inside the buffer. -/
def Inside (buf : Cells UInt8) (len k : Int) : Prop :=
  0 ≤ k ∧ k + 4 ≤ len ∧ Cells.slice buf k 4 = markBytes

/-- The last `n` bytes of the buffer are the first of a mark whose rest has not come. -/
def Cut (buf : Cells UInt8) (len : Int) (n : Nat) : Prop :=
  0 < n ∧ n < 4 ∧ (n : Int) ≤ len ∧ Cells.slice buf (len - n) n = markBytes.take n

/-- What is expected of a scan: it reads the buffer and nothing else; it reports the first mark
inside, and where there is none, nothing of a mark that was cut. -/
structure ScanLaw (buf : Cells UInt8) (len : Int) : Prop where
  reads : Cells.Within len (litetalkScanOps buf len)
  first : ∀ k, Inside buf len k → (∀ j, Inside buf len j → k ≤ j) →
    (litetalkScan buf len).2 = k
  spares : (¬∃ k, Inside buf len k) → ∀ n, Cut buf len n → (litetalkScan buf len).2 ≤ len - n

theorem scan_short (h : len < 4) : ScanLaw buf len := by
  refine ⟨?_, ?_, ?_⟩
  · rw [litetalkScanOps, if_pos h]
    exact Cells.within_nil
  · rintro k ⟨hlow, hhigh, -⟩
    omega
  · rintro - n ⟨-, -, hn, -⟩
    rw [litetalkScan, if_pos h]
    omega

theorem exists_first (h : ∃ k, Inside buf len k) :
    ∃ k, Inside buf len k ∧ ∀ j, Inside buf len j → k ≤ j := by
  obtain ⟨k, hk⟩ := h
  have hsome : ∃ n : Nat, Inside buf len n := ⟨k.toNat, by rwa [Int.toNat_of_nonneg hk.1]⟩
  classical
  refine ⟨Nat.find hsome, Nat.find_spec hsome, fun j hj => ?_⟩
  have hleast := Nat.find_min' hsome (m := j.toNat) (by rwa [Int.toNat_of_nonneg hj.1])
  have hlow := hj.1
  omega

/-- **A scan stops at the first mark inside.** -/
theorem scan_first {k : Int} (hk : Inside buf len k) (hfirst : ∀ j, Inside buf len j → k ≤ j) :
    Search.first (MarkAt buf) 0 (len - 1).toNat = some k := by
  obtain ⟨hlow, hhigh, hmark⟩ := hk
  refine Search.first_eq_some_iff.mpr ⟨hlow, by omega, markAt_iff.mpr hmark, ?_⟩
  intro j hj hjk hat
  have := hfirst j ⟨hj, by omega, markAt_iff.mp hat⟩
  omega

theorem scan_inside (hin : ∃ k, Inside buf len k) : ScanLaw buf len := by
  obtain ⟨k, hk, hfirst⟩ := exists_first hin
  have hlong : ¬len < 4 := by
    obtain ⟨hlow, hhigh, -⟩ := hk
    omega
  have hscan : litetalkScan buf len = (.etOk, k) := by
    rw [litetalkScan, if_neg hlong, scan_first hk hfirst]
  refine ⟨?_, ?_, fun hnone => absurd hin hnone⟩
  · rw [litetalkScanOps, if_neg hlong]
    intro op hop
    obtain ⟨pos, hpos, rfl⟩ := List.mem_map.mp hop
    obtain ⟨hlow, -, hbefore⟩ := Search.mem_seen_iff.mp hpos
    have hle : pos ≤ k := by
      by_contra hgt
      exact hbefore k hk.1 (by omega) (markAt_iff.mpr hk.2.2)
    have hhigh := hk.2.1
    exact Cells.Op.within_read.mpr (.inr ⟨hlow, by omega⟩)
  · intro j hj hleast
    rw [hscan]
    exact Int.le_antisymm (hfirst j hj) (hleast k hk)

/-- **Without a mark inside**, the first byte behind the buffer is read. -/
theorem scan_outside (hlong : 4 ≤ len) (hnone : ¬∃ k, Inside buf len k) :
    ¬Cells.Within len (litetalkScanOps buf len) := by
  intro hreads
  rw [litetalkScanOps, if_neg (by omega)] at hreads
  have hseen : len - 3 ∈ Search.seen (MarkAt buf) 0 (len - 1).toNat := by
    refine Search.mem_seen_iff.mpr ⟨by omega, by omega, fun k hlow hhigh hat => ?_⟩
    exact hnone ⟨k, hlow, by omega, markAt_iff.mp hat⟩
  have hop := hreads (.read (len - 3) 4) (List.mem_map_of_mem hseen)
  rw [Cells.Op.within_read] at hop
  omega

/-- **When a scan does what is expected of it.** -/
theorem litetalk_scan_iff (buf : Cells UInt8) (len : Int) :
    ScanLaw buf len ↔ len < 4 ∨ ∃ k, Inside buf len k := by
  constructor
  · intro h
    by_contra hnot
    obtain ⟨hlong, hnone⟩ := not_or.mp hnot
    exact scan_outside (Int.not_lt.mp hlong) hnone h.reads
  · rintro (hshort | hin)
    · exact scan_short hshort
    · exact scan_inside hin

/-- Five bytes, of which the last three are the beginning of a mark. -/
def cutMark : Cells UInt8 := Cells.write (fun _ => 0) 2 (markBytes.take 3)

/-- **A mark that was cut** is reported to be skipped, and two bytes behind the buffer are read. -/
theorem litetalk_scan_skips :
    ¬ScanLaw cutMark 5 ∧ Cut cutMark 5 3 ∧ litetalkScan cutMark 5 = (.etOk, 5) ∧
      (.read 3 4 : Cells.Op UInt8) ∈ litetalkScanOps cutMark 5 := by
  have hskip : litetalkScan cutMark 5 = (.etOk, 5) := by decide
  refine ⟨fun h => ?_, ⟨by decide, by decide, by decide, by decide⟩, hskip, ?_⟩
  · have hwithin := h.reads
    exact absurd hwithin (by decide)
  · exact List.mem_map_of_mem (a := (3 : Int)) (by decide)

end Awoke.Cmder
