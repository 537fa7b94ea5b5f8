/-
What the flash driver returns when a transfer fails.

A call returns an error exactly if a check of it fails: the latch is not as it was set, or the
address is out of bound.  A transfer of count zero is no such check: the code is still that of the
step before, so a sector that was not erased and a page that was not programmed are returned as
`qe_ok`.  When that happens is said of the request and of what the bus answers along its plan.
-/
import Awoke.Proofs.SpiErase
import Awoke.Proofs.SpiPlan
import Awoke.Proofs.SpiRequest

namespace Awoke.Qe

open Sectors (touched)

variable {bus : Bus} {flash : SpiflashDevice} {es as : Log} {r : Ret × Log}

/-! ### What a request needs -/

/-- The sectors of a range are erased, one by one or with the chip. -/
def SectorsErased (flash : SpiflashDevice) (es : Log) (start n : Nat) : Prop :=
  ∀ s ∈ touched flash.chip.eraseGran.toNat start n,
    s ∈ flash.erases es ∨
      (s * flash.chip.eraseGran.toNat < flash.chip.capacity.toNat ∧
        ∃ sent b, .transfer .chipErase sent (some b) ∈ es)

/-- The bytes of a range are programmed. -/
def BytesProgrammed (flash : SpiflashDevice) (es : Log) (start n : Nat) (buffer : Cells UInt8) :
    Prop :=
  ∀ k < n, (start + k, buffer k) ∈ flash.programs none es

theorem SectorsErased.append {start n : Nat} (h : SectorsErased flash as start n) (bs : Log) :
    SectorsErased flash (as ++ bs) start n := by
  intro s hs
  rw [erases_append]
  refine (h s hs).imp (List.mem_append_left _) fun ⟨hlt, sent, b, hmem⟩ => ?_
  exact ⟨hlt, sent, b, List.mem_append_left _ hmem⟩

/-- No command reaches a sector whose number does not fit 32 bits. -/
theorem erases_lt (flash : SpiflashDevice) (es : Log) : ∀ s ∈ flash.erases es, s < 2 ^ 32 := by
  induction es with
  | nil => exact fun s hmem => nomatch hmem
  | cons e es ih =>
      intro s hmem
      rcases e with ⟨role, sent, recv⟩ | _
      · cases role with
        | erase =>
            cases recv with
            | none => exact ih s hmem
            | some b =>
                rcases List.mem_cons.mp hmem with rfl | hmem
                · exact Nat.lt_of_le_of_lt (Nat.div_le_self _ _) (wireAddress_lt sent)
                · exact ih s hmem
        | latch _ _ | status | page | firstWord | word | chipErase => exact ih s hmem
      · exact ih s hmem

/-- A range that passes the check and whose sectors are erased is inside the chip: where the end
wraps in 64 bits, there are sectors that no command reaches. -/
theorem SectorsErased.inside {addr : UInt32} {size : UInt64}
    (hbound : outOfBound flash addr size.toNat = false)
    (h : SectorsErased flash es addr.toNat size.toNat) :
    addr.toNat + size.toNat ≤ flash.chip.capacity.toNat := by
  have hcapacity := flash.chip.capacity.toNat_lt
  have hgran := flash.chip.granPos
  have hgran' := flash.chip.eraseGran.toNat_lt
  have hcheck : ¬flash.chip.capacity.toNat < (addr.toNat + size.toNat) % 2 ^ 64 :=
    of_decide_eq_false hbound
  by_contra hout
  have hwrap : 2 ^ 64 ≤ addr.toNat + size.toNat := by
    by_contra hlt
    rw [Nat.mod_eq_of_lt (by omega)] at hcheck
    omega
  have haddr := addr.toNat_lt
  -- the sector of the last byte
  have hlarge : 2 ^ 32 ≤ (addr.toNat + size.toNat - 1) / flash.chip.eraseGran.toNat := by
    rw [Nat.le_div_iff_mul_le hgran]
    have := Nat.mul_le_mul_left (2 ^ 32) (show flash.chip.eraseGran.toNat ≤ 2 ^ 32 - 1 by omega)
    omega
  have hlast := h _ ((Sectors.mem_touched hgran).mpr
    ⟨addr.toNat + size.toNat - 1, by omega, by omega, rfl⟩)
  rcases hlast with hmem | ⟨hlt, -⟩
  · exact absurd (erases_lt flash es _ hmem) (by omega)
  · have := Nat.mul_le_mul hlarge hgran
    omega

/-! ### What the calls do -/

/-- A call that programs nothing: what it adds to the log, and what it does if it returns `qe_ok`
and no transfer fails. -/
structure Call (log : Log) (r : Ret × Log) (es : Log) (done : Prop) : Prop where
  log_eq : r.2 = log ++ es
  roles : OfRoles (fun role => !role.programs) es
  done : r.1 = qeOk → Succeed es → done

theorem Role.not_programs_of_sectors :
    ∀ role : Role, role.sectors = true → (!role.programs) = true := by
  rintro (_ | _ | _ | _ | _ | _ | _) h
  all_goals first | rfl | exact absurd h (by decide)

/-- **`qe_spiflash_chip_erase`** erases the chip if its one command arrives. -/
theorem chipErase_call (bus : Bus) (flash : SpiflashDevice) (log : Log) : ∃ es,
    Call log (bus.qeSpiflashChipErase flash log) es
      (∃ sent b, .transfer .chipErase sent (some b) ∈ es) := by
  unfold Bus.qeSpiflashChipErase
  obtain ⟨sent, hsent⟩ : ∃ sent,
    (if maskExst flash.chip.writeMode flashWmDualBuffer then [cmdEraseChip, 0x94, 0x80, 0x9A]
      else [cmdEraseChip]) = sent := ⟨_, rfl⟩
  rcases turn_cases bus .chipErase (by simp) log sent with
    ⟨ret, es, hlatch, hret, -, hquiet⟩ | ⟨es, hlatch, hanswer, -, hquiet⟩ |
      ⟨es, wait, b, hlatch, hanswer, hwait, -, hquiet, hquiet'⟩
  · obtain ⟨off, hlog, -, hquiet'⟩ := writeEnable_unchecked bus (log ++ es) false
    simp only [hlatch, ne_eq, hret, not_false_eq_true, if_true, hlog]
    exact ⟨es ++ off, List.append_assoc _ _ _, (hquiet.append hquiet').not_programs,
      fun hok => absurd hok hret⟩
  · obtain ⟨off, hlog, -, hquiet'⟩ := writeEnable_unchecked bus
      (log ++ (es ++ [.transfer .chipErase sent none])) false
    simp only [hlatch, hsent, Bus.transfer, hanswer, ne_eq, not_true_eq_false, if_false,
      Option.isNone_none, if_true, List.append_assoc log, hlog]
    refine ⟨es ++ [.transfer .chipErase sent none] ++ off, rfl,
      (hquiet.not_programs.append (ofRoles_one rfl _ _)).append hquiet'.not_programs,
      fun _ hsucceed => ?_⟩
    exact absurd (hsucceed (.transfer .chipErase sent none) (by simp)) Bool.false_ne_true
  · obtain ⟨off, hlog, -, hquiet''⟩ := writeEnable_unchecked bus
      (log ++ (es ++ [.transfer .chipErase sent (some b)] ++ wait)) false
    simp only [hlatch, hsent, Bus.transfer, hanswer, hwait, ne_eq, not_true_eq_false, if_false,
      Option.isNone_some, Bool.false_eq_true, hlog]
    refine ⟨es ++ [.transfer .chipErase sent (some b)] ++ wait ++ off, List.append_assoc _ _ _,
      ((hquiet.not_programs.append (ofRoles_one rfl _ _)).append hquiet'.not_programs).append
        hquiet''.not_programs, fun _ _ => ⟨sent, b, by simp⟩⟩

theorem sectorsErased_of_chip {sent : List UInt8} {b : UInt8}
    (h : .transfer .chipErase sent (some b) ∈ es) {start n : Nat}
    (hend : start + n ≤ flash.chip.capacity.toNat) : SectorsErased flash es start n := by
  intro s hs
  obtain ⟨x, hlow, hhigh, rfl⟩ := (Sectors.mem_touched flash.chip.granPos).mp hs
  refine .inr ⟨?_, sent, b, h⟩
  have := Nat.div_mul_le_self x flash.chip.eraseGran.toNat
  omega

/-- **`qe_spiflash_erase`** erases the sectors of a range inside the chip if its commands arrive. -/
theorem erase_call (bus : Bus) (hfits : flash.Fits) (log : Log) (addr : UInt32) (size : UInt64) :
    ∃ es, Call log (bus.qeSpiflashErase flash log addr size) es
      (outOfBound flash addr size.toNat = false ∧
        (addr.toNat + size.toNat ≤ flash.chip.capacity.toNat →
          SectorsErased flash es addr.toNat size.toNat)) := by
  cases hbound : outOfBound flash addr size.toNat with
  | true =>
      unfold Bus.qeSpiflashErase
      rw [hbound, if_pos rfl]
      refine ⟨[.outOfBound], rfl, fun role sent recv hmem => ?_, fun hok => ?_⟩
      · simp at hmem
      · simp at hok
  | false =>
      by_cases hchip : addr = 0 ∧ size.toNat = flash.chip.capacity.toNat
      · unfold Bus.qeSpiflashErase
        rw [hbound, if_neg Bool.false_ne_true, if_pos hchip]
        obtain ⟨es, hcall⟩ := chipErase_call bus flash log
        refine ⟨es, hcall.log_eq, hcall.roles, fun hok hsucceed => ⟨rfl, fun hend => ?_⟩⟩
        obtain ⟨sent, b, hmem⟩ := hcall.done hok hsucceed
        exact sectorsErased_of_chip hmem hend
      · obtain ⟨off, heq, -, hquiet⟩ := erase_part bus flash log hbound hchip
        obtain ⟨es, herased, hsectors⟩ := eraseLoop_erased bus hfits size.toNat log addr
        rw [heq]
        refine ⟨es ++ off, ?_,
          (herased.roles.mono Role.not_programs_of_sectors).append hquiet.not_programs,
          fun hok hsucceed => ⟨rfl, fun hend => ?_⟩⟩
        · dsimp only
          rw [herased.log_eq, List.append_assoc]
        · refine SectorsErased.append (fun s hs => .inl ?_) off
          rwa [hsectors hend hok (succeed_append.mp hsucceed).1]

theorem Programmed.bytes {start n : Nat} {buffer : Cells UInt8} {ret : Ret}
    (h : Programmed flash ret start (buffer.slice 0 n) es) (hok : ret = qeOk)
    (hsucceed : Succeed es) : BytesProgrammed flash es start n buffer := by
  intro k hk
  obtain ⟨next, hprograms⟩ := h.programs hok hsucceed none
  have hall := hprograms []
  rw [List.append_nil] at hall
  rw [hall, List.mem_append]
  refine .inl (List.mem_iff_getElem.mpr ⟨k, ?_, ?_⟩)
  · simpa [bytesAt] using hk
  · simp [bytesAt]

/-- The bytes of a range of the chip are programmed by the commands of its mode. -/
theorem writePhase (bus : Bus) (hfits : flash.Fits) (log : Log) (addr : UInt32) (size : UInt64)
    (buffer : Cells UInt8)
    (hmode :
      r = bus.spiflashPage256Or1byteWrite flash log addr size.toNat 256 (by decide) buffer 0 ∨
      r = bus.spiflashAaiWrite flash log addr size buffer) : ∃ es,
    Wrote bus log r es ∧ (addr.toNat + size.toNat ≤ flash.chip.capacity.toNat → r.1 = qeOk →
      Succeed es → BytesProgrammed flash es addr.toNat size.toNat buffer) := by
  rcases hmode with rfl | rfl
  · obtain ⟨es, hwrote, hprogrammed⟩ := pageWrite_wrote bus hfits (show 0 < 256 by decide)
      (.inr rfl) buffer log addr size.toNat 0
    exact ⟨es, hwrote, fun hend => (hprogrammed hend).bytes⟩
  · obtain ⟨es, hwrote, hprogrammed⟩ := aaiWrite_wrote bus hfits buffer log addr size
    refine ⟨es, hwrote, fun hend hok hsucceed k hk => ?_⟩
    refine (hprogrammed hend fun hzero => ?_).bytes hok hsucceed k hk
    rw [hzero] at hk
    exact absurd hk (Nat.not_lt_zero k)

/-- A chip that is written by pages or words, or nothing to write. -/
def Writable (flash : SpiflashDevice) (size : UInt64) : Prop :=
  maskExst flash.chip.writeMode flashWmPage256b = true ∨
    maskExst flash.chip.writeMode flashWmAai = true ∨ size = 0

/-- **`qe_spiflash_write`** does what its request needs, if its commands arrive, for a range inside
a chip that it can write. -/
theorem write_done (bus : Bus) (hfits : flash.Fits) (addr : UInt32) (size : UInt64)
    (buffer : Cells UInt8) :
    let r := bus.qeSpiflashWrite flash [] addr size buffer
    r.1 = qeOk → Succeed r.2 →
      (SectorsErased flash r.2 addr.toNat size.toNat ∧
          BytesProgrammed flash r.2 addr.toNat size.toNat buffer ↔
        addr.toNat + size.toNat ≤ flash.chip.capacity.toNat ∧ Writable flash size) := by
  obtain ⟨es, hcall⟩ := erase_call bus hfits [] addr size
  have hlog : (bus.qeSpiflashErase flash [] addr size).2 = es := hcall.log_eq
  unfold Bus.qeSpiflashWrite
  generalize bus.qeSpiflashErase flash [] addr size = erase at hcall hlog ⊢
  by_cases hret : erase.1 = qeOk
  · -- the pages or the words behind the sectors
    have hphase : ∀ r : Ret × Log,
        (r = bus.spiflashPage256Or1byteWrite flash erase.2 addr size.toNat 256 (by decide) buffer
          0 ∨ r = bus.spiflashAaiWrite flash erase.2 addr size buffer) → Writable flash size →
        r.1 = qeOk → Succeed r.2 →
          (SectorsErased flash r.2 addr.toNat size.toNat ∧
              BytesProgrammed flash r.2 addr.toNat size.toNat buffer ↔
            addr.toNat + size.toNat ≤ flash.chip.capacity.toNat ∧ Writable flash size) := by
      intro r hmode hwritable hok hsucceed
      obtain ⟨more, hwrote, hbytes⟩ := writePhase bus hfits erase.2 addr size buffer hmode
      rw [hlog] at hwrote
      rw [hwrote.log_eq] at hsucceed ⊢
      obtain ⟨hfirst, hsecond⟩ := succeed_append.mp hsucceed
      obtain ⟨hbound, hsectors⟩ := hcall.done hret hfirst
      constructor
      · exact fun hneeds => ⟨hneeds.1.inside hbound, hwritable⟩
      rintro ⟨hend, -⟩
      refine ⟨(hsectors hend).append more, fun k hk => ?_⟩
      rw [programs_skip flash hcall.roles]
      exact hbytes hend hok hsecond k hk
    simp only [hret, ne_eq, not_true_eq_false, if_false]
    by_cases hpage : maskExst flash.chip.writeMode flashWmPage256b = true
    · rw [if_pos hpage]
      exact hphase _ (.inl rfl) (.inl hpage)
    rw [if_neg hpage]
    by_cases haai : maskExst flash.chip.writeMode flashWmAai = true
    · rw [if_pos haai]
      exact hphase _ (.inr rfl) (.inr (.inl haai))
    -- neither: nothing is programmed
    rw [if_neg haai, hlog]
    intro _ hsucceed
    obtain ⟨hbound, hsectors⟩ := hcall.done hret hsucceed
    have hnothing : flash.programs none es = [] := by
      have hskip := programs_skip flash hcall.roles none []
      rwa [List.append_nil] at hskip
    constructor
    · rintro ⟨hsectors, hbytes⟩
      refine ⟨hsectors.inside hbound, .inr (.inr ?_)⟩
      by_contra hne
      have hpos : 0 < size.toNat :=
        Nat.pos_of_ne_zero fun hzero => hne (UInt64.toNat_inj.mp hzero)
      have hmem := hbytes 0 hpos
      rw [hnothing] at hmem
      exact absurd hmem List.not_mem_nil
    · rintro ⟨hend, hwritable⟩
      refine ⟨hsectors hend, fun k hk => ?_⟩
      rcases hwritable with h | h | rfl
      · exact absurd h hpage
      · exact absurd h haai
      · exact absurd hk (Nat.not_lt_zero k)
  · simp only [ne_eq, hret, not_false_eq_true, if_true]
    exact fun hok => hok.elim

/-! ### What they return -/

/-- `qe_ok` is returned only if no transfer failed and what is needed was done. -/
def Honest (r : Ret × Log) (needs : Log → Prop) : Prop := r.1 = qeOk → Succeed r.2 ∧ needs r.2

/-- The calls are honest about a request. -/
structure Reports (bus : Bus) (flash : SpiflashDevice) (addr : UInt32) (size : UInt64)
    (buffer : Cells UInt8) : Prop where
  write : Honest (bus.qeSpiflashWrite flash [] addr size buffer) fun es =>
    SectorsErased flash es addr.toNat size.toNat ∧
      BytesProgrammed flash es addr.toNat size.toNat buffer
  erase : Honest (bus.qeSpiflashErase flash [] addr size) fun es =>
    SectorsErased flash es addr.toNat size.toNat
  chipErase : Honest (bus.qeSpiflashChipErase flash []) fun es =>
    SectorsErased flash es 0 flash.chip.capacity.toNat

/-- Along a plan a check refuses, or every transfer is served and the request is one that can be
met. -/
def Bus.Notices (bus : Bus) (plan : Plan) (possible : Prop) : Prop :=
  bus.Refuses plan [] ∨ bus.Serves plan [] ∧ possible

/-- Nothing goes wrong without notice. -/
structure Noticed (bus : Bus) (flash : SpiflashDevice) (addr : UInt32) (size : UInt64)
    (buffer : Cells UInt8) : Prop where
  write : bus.Notices (flash.writePlan addr size buffer)
    (addr.toNat + size.toNat ≤ flash.chip.capacity.toNat ∧ Writable flash size)
  erase : bus.Notices (flash.erasePlan addr size .done)
    (addr.toNat + size.toNat ≤ flash.chip.capacity.toNat)
  chipErase : bus.Notices (flash.chipErasePlan .done) True

theorem honest_iff {plan : Plan} (needs : Log → Prop) {possible : Prop}
    (hfollows : Follows bus plan [] r .done)
    (hneeds : r.1 = qeOk → Succeed r.2 → (needs r.2 ↔ possible)) :
    Honest r needs ↔ bus.Notices plan possible := by
  have hrefuses : bus.Refuses plan [] ↔ r.1 ≠ qeOk :=
    hfollows.refuses.trans (Iff.of_eq (or_false _))
  unfold Honest Bus.Notices
  rw [hrefuses]
  by_cases hok : r.1 = qeOk
  · have hserves : bus.Serves plan [] ↔ Succeed r.2 := by
      have hboth := hfollows.serves hok
      rwa [and_iff_right (show Succeed [] from List.forall_mem_nil _),
        and_iff_left (show bus.Serves .done r.2 from trivial)] at hboth
    rw [hserves]
    constructor
    · intro honest
      obtain ⟨hsucceed, hdone⟩ := honest hok
      exact .inr ⟨hsucceed, (hneeds hok hsucceed).mp hdone⟩
    · rintro (hret | ⟨hsucceed, hpossible⟩) _
      · exact absurd hok hret
      · exact ⟨hsucceed, (hneeds hok hsucceed).mpr hpossible⟩
  · exact iff_of_true (fun h => absurd h hok) (.inl hok)

theorem write_honest (bus : Bus) (hfits : flash.Fits) (addr : UInt32) (size : UInt64)
    (buffer : Cells UInt8) :
    Honest (bus.qeSpiflashWrite flash [] addr size buffer) (fun es =>
        SectorsErased flash es addr.toNat size.toNat ∧
          BytesProgrammed flash es addr.toNat size.toNat buffer) ↔
      bus.Notices (flash.writePlan addr size buffer)
        (addr.toNat + size.toNat ≤ flash.chip.capacity.toNat ∧ Writable flash size) :=
  honest_iff _ (write_follows bus flash [] addr size buffer)
    (write_done bus hfits addr size buffer)

theorem erase_honest (bus : Bus) (hfits : flash.Fits) (addr : UInt32) (size : UInt64) :
    Honest (bus.qeSpiflashErase flash [] addr size) (fun es =>
        SectorsErased flash es addr.toNat size.toNat) ↔
      bus.Notices (flash.erasePlan addr size .done)
        (addr.toNat + size.toNat ≤ flash.chip.capacity.toNat) := by
  obtain ⟨es, hcall⟩ := erase_call bus hfits [] addr size
  have hlog : (bus.qeSpiflashErase flash [] addr size).2 = es := hcall.log_eq
  refine honest_iff _ (erase_follows bus flash [] addr size .done) fun hok hsucceed => ?_
  rw [hlog] at hsucceed ⊢
  obtain ⟨hbound, hsectors⟩ := hcall.done hok hsucceed
  exact ⟨fun h => h.inside hbound, hsectors⟩

theorem chipErase_honest (bus : Bus) (flash : SpiflashDevice) :
    Honest (bus.qeSpiflashChipErase flash []) (fun es =>
        SectorsErased flash es 0 flash.chip.capacity.toNat) ↔
      bus.Notices (flash.chipErasePlan .done) True := by
  obtain ⟨es, hcall⟩ := chipErase_call bus flash []
  have hlog : (bus.qeSpiflashChipErase flash []).2 = es := hcall.log_eq
  refine honest_iff _ (chipErase_follows bus flash [] .done) fun hok hsucceed =>
    iff_of_true ?_ trivial
  rw [hlog] at hsucceed ⊢
  obtain ⟨sent, b, hmem⟩ := hcall.done hok hsucceed
  exact sectorsErased_of_chip hmem (Nat.le_of_eq (Nat.zero_add _))

/-- A bus that loses the command to erase the chip. -/
def lossyBus : Bus where
  answer log sent := if sent = [cmdEraseChip] then none else sstBus.answer log sent
  stale := sstBus.stale

end Awoke.Qe
