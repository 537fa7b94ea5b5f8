/-
The programming plan of the flash driver.

On a bus that works the bytes of a request are programmed one after the other, each once, in
pages and in words.  The words of `spiflash_aai_write` have one case apart: nothing at an odd
address inside the chip is a size that wraps.
-/
import Awoke.Proofs.SpiProgram

namespace Awoke.Qe

variable {bus : Bus} {flash : SpiflashDevice} {es : Log}

/-- What goes over the bus programs these bytes one after the other, and no page program
crosses its page. -/
structure Covers (flash : SpiflashDevice) (es : Log) (start : Nat) (data : List UInt8) : Prop where
  programs : flash.programs none es = bytesAt start data
  pages : ∀ sent recv, .transfer .page sent recv ∈ es →
    flash.wireAddress sent % 256 + (flash.wirePayload sent).length ≤ 256

theorem Programmed.covers {r : Ret × Log} {start : Nat} {data : List UInt8} (hworks : bus.Works)
    (hwrote : Wrote bus [] r es) (h : Programmed flash r.1 start data es) :
    r.1 = qeOk ∧ Covers flash r.2 start data := by
  obtain ⟨hsucceed, hstopped⟩ := hwrote.did.works hworks
  have hok : r.1 = qeOk := not_not.mp fun hret => h.inside (hstopped.mp hret)
  obtain ⟨next, hprograms⟩ := h.programs hok hsucceed none
  rw [hwrote.log_eq, List.nil_append]
  refine ⟨hok, ?_, h.pages⟩
  have hall := hprograms []
  rwa [List.append_nil, SpiflashDevice.programs, List.append_nil] at hall

theorem Quiet.covers (h : Quiet es) (start : Nat) : Covers flash (.outOfBound :: es) start [] := by
  refine ⟨?_, fun sent recv hmem => ?_⟩
  · show flash.programs none es = []
    have hskip := programs_skip flash h.not_programs none []
    rwa [List.append_nil] at hskip
  · exact absurd (h.roles _ _ _ ((List.mem_cons.mp hmem).resolve_left nofun)) (by decide)

/-- The remaining size of `spiflash_aai_write` does not wrap when its first byte is written. -/
def SizeKept (bus : Bus) (flash : SpiflashDevice) (addr : UInt32) (size : UInt64)
    (buffer : Cells UInt8) : Prop :=
  addr.toNat % 2 ≠ 0 →
    (bus.spiflashPage256Or1byteWrite flash [] addr 1 1 Nat.one_pos buffer 0).1 = qeOk →
      (size - 1).toNat + 1 = size.toNat

/-- The plan of a request: what pages and words program, and that the size does not wrap. -/
structure Planned (bus : Bus) (flash : SpiflashDevice) (addr : UInt32) (size : UInt64)
    (buffer : Cells UInt8) : Prop where
  pages : Covers flash
    (bus.spiflashPage256Or1byteWrite flash [] addr size.toNat 256 (by decide) buffer 0).2
    addr.toNat (buffer.slice 0 size.toNat)
  words : Covers flash (bus.spiflashAaiWrite flash [] addr size buffer).2 addr.toNat
    (buffer.slice 0 size.toNat)
  size : SizeKept bus flash addr size buffer

theorem firstByte_written (hworks : bus.Works) (hfits : flash.Fits) {addr : UInt32}
    (haddr : addr.toNat < flash.chip.capacity.toNat) (buffer : Cells UInt8) :
    (bus.spiflashPage256Or1byteWrite flash [] addr 1 1 Nat.one_pos buffer 0).1 = qeOk := by
  obtain ⟨es, hwrote, hprogrammed⟩ :=
    pageWrite_wrote bus hfits Nat.one_pos (.inl rfl) buffer [] addr 1 0
  exact ((hprogrammed haddr).covers hworks hwrote).1

/-- **The plan is right unless nothing is to be written at an odd address inside the chip.** -/
theorem planned_iff (chip : SpiflashChip) (bus : Bus) (hworks : bus.Works) (addr : UInt32)
    (size : UInt64) (buffer : Cells UInt8)
    (hend : addr.toNat + size.toNat ≤ chip.capacity.toNat) :
    Planned bus (qeSpiflashProbe chip) addr size buffer ↔
      (size = 0 → addr.toNat % 2 = 0 ∨ addr.toNat = chip.capacity.toNat) := by
  have hfits := qeSpiflashProbe_fits chip
  constructor
  · intro hplan hzero
    by_contra hodd
    obtain ⟨hodd, hne⟩ := not_or.mp hodd
    rw [hzero] at hend hplan
    have hinside : addr.toNat < chip.capacity.toNat := by
      have : addr.toNat + 0 ≤ chip.capacity.toNat := hend
      omega
    exact absurd (hplan.size hodd (firstByte_written hworks hfits hinside buffer)) (by decide)
  intro hcases
  obtain ⟨es, hwrote, hpages⟩ :=
    pageWrite_wrote bus hfits (show 0 < 256 by decide) (.inr rfl) buffer
    [] addr size.toNat 0
  by_cases hsize : size = 0 → addr.toNat % 2 = 0
  · obtain ⟨words, hwords, hprogrammed⟩ := aaiWrite_wrote bus hfits buffer [] addr size
    exact ⟨((hpages hend).covers hworks hwrote).2,
      ((hprogrammed hend hsize).covers hworks hwords).2,
      fun hodd _ => size_pred fun hzero => hodd (hsize hzero)⟩
  · -- the first byte is out of bound
    obtain ⟨rfl, hodd⟩ := Classical.not_imp.mp hsize
    have hlast := (hcases rfl).resolve_left hodd
    have hout : outOfBound (qeSpiflashProbe chip) addr 1 = true := by
      have := addr.toNat_lt
      refine decide_eq_true ?_
      rw [Nat.mod_eq_of_lt (by omega)]
      show chip.capacity.toNat < _
      omega
    have hfirst : bus.spiflashPage256Or1byteWrite (qeSpiflashProbe chip) [] addr 1 1 Nat.one_pos
        buffer 0 = (.code .qeErange, [.outOfBound]) := by
      unfold Bus.spiflashPage256Or1byteWrite
      rw [if_pos hout]
      rfl
    refine ⟨((hpages hend).covers hworks hwrote).2, ?_, fun _ hok => ?_⟩
    · obtain ⟨off, hlog, -, hquiet⟩ := writeEnable_unchecked bus [.outOfBound] false
      have hin : outOfBound (qeSpiflashProbe chip) addr (0 : UInt64).toNat = false :=
        outOfBound_inside hend
      unfold Bus.spiflashAaiWrite
      rw [hin, if_neg Bool.false_ne_true, if_pos hodd, hfirst]
      show Covers _ (bus.aaiExit (.code .qeErange, [.outOfBound])).2 _ _
      rw [Bus.aaiExit, if_pos (by decide), hlog]
      exact hquiet.covers _
    · rw [hfirst] at hok
      exact absurd hok (by decide)

/-- A row of the table that is written by words. -/
def sst25vf016b : SpiflashChip :=
  { name := "SST25VF016B", eraseGranCmd := 0x20, capacity := 2 * 1024 * 1024,
    writeMode := flashWmByte ||| flashWmAai, eraseGran := 4096, granPos := eraseGran_4096 }

/-- The chip at the other end. -/
def sstBus : Bus := (zeros false).onBus sst25vf016b

theorem planned_iff_odd : Planned sstBus (qeSpiflashProbe sst25vf016b) 1 4 fun _ => 7 :=
  (planned_iff sst25vf016b sstBus (Flash.onBus_works _ _) 1 4 (fun _ => 7) (by decide)).mpr
    fun hzero => absurd hzero (by decide)

/-- To write nothing at address 1 writes there, and the size wraps. -/
theorem nothing_at_one_wraps :
    ¬Planned sstBus (qeSpiflashProbe sst25vf016b) 1 0 fun _ => 7 := by
  intro hplan
  have hfirst := firstByte_written (Flash.onBus_works (zeros false) sst25vf016b)
    (qeSpiflashProbe_fits sst25vf016b) (show (1 : UInt32).toNat < _ by decide) fun _ => 7
  exact absurd (hplan.size (by decide) hfirst) (by decide)

end Awoke.Qe
