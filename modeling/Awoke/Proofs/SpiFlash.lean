/-
A block device that gives back what it was given.

Each command that the driver sends has a lemma that says what the chip does with it; the
address is decoded as it was encoded, with three bytes or four, as far as the chip goes.  So
a loop of erases clears a range, and a loop of pages or of words programs one, and what is
programmed over ones is what is read.

A chip that is written neither by pages nor by words is erased and left at that.  And the
check against the capacity looks at an address of 32 bits, so a position that is far enough
behind the chip comes out inside.
-/
import Awoke.Benchmark.SpiFlash
import Mathlib.Tactic.Ring

namespace Awoke.Qe

/-! ### What the device should do -/

/-- Between two calls the chip is not among words, and its addresses are as long as the
driver's. -/
structure Flash.Idle (f : Flash) (flash : SpiflashDevice) : Prop where
  width : f.fourByte = flash.address4byte
  words : f.aai = none

theorem Flash.Idle.after {f : Flash} {flash : SpiflashDevice} (h : f.Idle flash)
    (mem : Nor.Memory) : Flash.Idle { f with mem := mem, wel := false, aai := none } flash :=
  ⟨h.width, rfl⟩

/-- A request: a position, a number of sectors, and as many bytes. -/
structure BlockRequest (chip : SpiflashChip) where
  pos : Nat
  size : UInt64
  data : List UInt8
  fits : data.length = size.toNat * chip.eraseGran.toNat

namespace BlockRequest

variable {chip : SpiflashChip}

/-- The first byte of a request. -/
def start (r : BlockRequest chip) : Nat := r.pos * chip.eraseGran.toNat

/-- The end of a request. -/
def stop (r : BlockRequest chip) : Nat := (r.pos + r.size.toNat) * chip.eraseGran.toNat

/-- What is written is read again, no other byte of the chip changes, and the chip is idle. -/
def Stored (r : BlockRequest chip) (f : Flash) : Prop :=
  ∃ f', spiflashWrite (qeSpiflashProbe chip) f r.pos r.size r.data = some (.qeOk, f') ∧
    spiflashRead (qeSpiflashProbe chip) f' r.pos r.size = some (.qeOk, r.data) ∧
      (∀ a < chip.capacity.toNat, a < r.start ∨ r.stop ≤ a → f'.mem a = f.mem a) ∧
        f'.Idle (qeSpiflashProbe chip)

/-- The request is refused, and nothing changes. -/
def Refused (r : BlockRequest chip) (f : Flash) : Prop :=
  spiflashWrite (qeSpiflashProbe chip) f r.pos r.size r.data = some (.qeErange, f) ∧
    spiflashRead (qeSpiflashProbe chip) f r.pos r.size = some (.qeErange, [])

/-- A request within the capacity is stored, and one beyond it is refused. -/
def Right (r : BlockRequest chip) (f : Flash) : Prop :=
  if r.stop ≤ chip.capacity.toNat then r.Stored f else r.Refused f

/-- The chip is written by pages or words, or there are only ones to write; beyond the
capacity, the end is so in the numbers that the check looks at. -/
def Served (r : BlockRequest chip) : Prop :=
  if r.stop ≤ chip.capacity.toNat then
    maskExst chip.writeMode flashWmPage256b = true ∨ maskExst chip.writeMode flashWmAai = true ∨
      ∀ b ∈ r.data, b = 0xFF
  else
    r.start < 2 ^ 63 ∧ chip.capacity.toNat <
      (r.start % 2 ^ 32 + r.size.toNat * chip.eraseGran.toNat % 2 ^ 64) % 2 ^ 64

end BlockRequest

/-! ### Commands -/

variable {flash : SpiflashDevice} {f : Flash} {addr : UInt32}

/-- Addresses that the driver encodes as the chip decodes them. -/
def SpiflashDevice.Reaches (flash : SpiflashDevice) (addr : UInt32) : Prop :=
  flash.address4byte = true ∨ addr.toNat < 2 ^ 24

theorem addressByte (addr : UInt32) {k : Nat} (hk : k < 32) :
    ((addr >>> UInt32.ofNat k) &&& 0xFF).toUInt8.toNat = addr.toNat / 2 ^ k % 256 := by
  have hshift : (UInt32.ofNat k).toNat % 32 = k := by
    rw [UInt32.toNat_ofNat_of_lt' (Nat.lt_trans hk (by decide))]
    omega
  rw [UInt32.toNat_toUInt8, UInt32.toNat_and, UInt32.toNat_shiftRight, hshift,
    Nat.shiftRight_eq_div_pow]
  have hmask : (0xFF : UInt32).toNat = 2 ^ 8 - 1 := rfl
  rw [hmask, Nat.and_two_pow_sub_one_eq_mod]
  omega

/-- The address behind a command is the one that was encoded, and the rest is behind it. -/
theorem address_make (hwidth : f.fourByte = flash.address4byte) (haddr : flash.Reaches addr)
    (rest : List UInt8) :
    f.address (makeAddressByteArray flash addr ++ rest) = addr.toNat ∧
      f.payload (makeAddressByteArray flash addr ++ rest) = rest := by
  have hlt := addr.toNat_lt
  unfold Flash.address Flash.payload Flash.addressLen makeAddressByteArray
  rw [hwidth]
  cases hbytes : flash.address4byte with
  | true =>
      refine ⟨?_, rfl⟩
      simp only [if_true, List.range_succ, List.range_zero, List.map_cons, List.map_nil,
        List.nil_append, List.cons_append, List.take_succ_cons, List.take_zero,
        List.foldl_cons, List.foldl_nil]
      rw [addressByte addr (by omega), addressByte addr (by omega), addressByte addr (by omega),
        addressByte addr (by omega)]
      omega
  | false =>
      have hshort : addr.toNat < 2 ^ 24 := haddr.resolve_left (by simp [hbytes])
      refine ⟨?_, rfl⟩
      simp only [Bool.false_eq_true, if_false, List.range_succ, List.range_zero, List.map_cons,
        List.map_nil, List.nil_append, List.cons_append, List.take_succ_cons,
        List.take_zero, List.foldl_cons, List.foldl_nil]
      rw [addressByte addr (by omega), addressByte addr (by omega), addressByte addr (by omega)]
      omega

theorem writeEnable_true (flash : SpiflashDevice) (f : Flash) :
    spiflashWriteEnable flash f true = (.qeOk, { f with wel := true }) := by
  have hon : f.transfer flash.chip [cmdWriteEnable] = { f with wel := true } := by
    rw [Flash.transfer, if_pos rfl]
  have hset : ¬(srWel &&& ~~~srBusy &&& srWel = 0) := by decide
  simp [spiflashWriteEnable, hon, spiflashReadStatus, Flash.statusRegister, hset]

theorem writeEnable_false (flash : SpiflashDevice) (f : Flash) :
    spiflashWriteEnable flash f false = (.qeOk, { f with wel := false, aai := none }) := by
  have hoff : f.transfer flash.chip [cmdWriteDisable] = { f with wel := false, aai := none } := by
    rw [Flash.transfer, if_neg (by decide), if_pos rfl]
  simp [spiflashWriteEnable, hoff, spiflashReadStatus, Flash.statusRegister]

theorem transfer_page (hwidth : f.fourByte = flash.address4byte) (haddr : flash.Reaches addr)
    (data : List UInt8) :
    ({ f with wel := true } : Flash).transfer flash.chip
        (cmdPageProgram :: (makeAddressByteArray flash addr ++ data)) =
      { f with mem := Nor.program 256 addr.toNat data f.mem, wel := false } := by
  obtain ⟨haddress, hpayload⟩ :=
    address_make (f := { f with wel := true }) hwidth haddr data
  rw [Flash.transfer, if_neg (by decide), if_neg (by decide), if_neg (by simp), if_pos rfl,
    haddress, hpayload]

theorem transfer_first_word (hwidth : f.fourByte = flash.address4byte)
    (haddr : flash.Reaches addr) (hwel : f.wel = true) (haai : f.aai = none)
    (data : List UInt8) :
    f.transfer flash.chip (cmdWordProgram :: (makeAddressByteArray flash addr ++ data)) =
      { f with mem := Nor.program 2 addr.toNat data f.mem, aai := some (addr.toNat + 2) } := by
  obtain ⟨haddress, hpayload⟩ := address_make hwidth haddr data
  rw [Flash.transfer, if_neg (by decide), if_neg (by decide), if_neg (by simp [hwel]),
    if_neg (by decide), if_pos rfl, haai, haddress, hpayload]

theorem transfer_word {next : Nat} (chip : SpiflashChip) (hwel : f.wel = true)
    (haai : f.aai = some next) (data : List UInt8) :
    f.transfer chip (cmdWordProgram :: data) =
      { f with mem := Nor.program 2 next data f.mem, aai := some (next + 2) } := by
  rw [Flash.transfer, if_neg (by decide), if_neg (by decide), if_neg (by simp [hwel]),
    if_neg (by decide), if_pos rfl, haai]

/-- What the rows of the table have in common. -/
structure SpiflashChip.Sound (chip : SpiflashChip) : Prop where
  pages : 256 ∣ chip.eraseGran.toNat
  eraseCmd : chip.eraseGranCmd ∉
    [cmdWriteEnable, cmdWriteDisable, cmdPageProgram, cmdWordProgram, cmdEraseChip]

theorem flashChipTable_sound : ∀ chip ∈ flashChipTable, chip.Sound := by
  have hpages : ∀ chip ∈ flashChipTable, 256 ∣ chip.eraseGran.toNat := by decide
  have hcmds : ∀ chip ∈ flashChipTable, chip.eraseGranCmd ∉
      [cmdWriteEnable, cmdWriteDisable, cmdPageProgram, cmdWordProgram, cmdEraseChip] := by decide
  exact fun chip hchip => ⟨hpages chip hchip, hcmds chip hchip⟩

theorem transfer_erase (hsound : flash.chip.Sound) (hwidth : f.fourByte = flash.address4byte)
    (haddr : flash.Reaches addr) :
    ({ f with wel := true } : Flash).transfer flash.chip
        (flash.chip.eraseGranCmd :: makeAddressByteArray flash addr) =
      { f with mem := Nor.erase flash.chip.eraseGran.toNat addr.toNat f.mem, wel := false } := by
  have hcmd := hsound.eraseCmd
  simp only [List.mem_cons, List.not_mem_nil, or_false, not_or] at hcmd
  obtain ⟨henable, hdisable, hpage, hword, hchip⟩ := hcmd
  have haddress := (address_make (f := { f with wel := true }) hwidth haddr []).1
  rw [List.append_nil] at haddress
  rw [Flash.transfer, if_neg henable, if_neg hdisable, if_neg (by simp), if_neg hpage,
    if_neg hword, if_neg hchip, if_pos rfl, haddress]

theorem qeSpiflashChipErase_eq (flash : SpiflashDevice) (f : Flash) :
    qeSpiflashChipErase flash f =
      (.qeOk, { f with mem := fun _ => 0xFF, wel := false, aai := none }) := by
  have htransfer : ∀ rest, ({ f with wel := true } : Flash).transfer flash.chip
      (cmdEraseChip :: rest) = { f with mem := fun _ => 0xFF, wel := false } := by
    intro rest
    rw [Flash.transfer, if_neg (by decide), if_neg (by decide), if_neg (by simp),
      if_neg (by decide), if_neg (by decide), if_pos rfl]
  rw [qeSpiflashChipErase, writeEnable_true]
  simp only [ne_eq, not_true_eq_false, if_false]
  split <;> rw [htransfer, writeEnable_false]

/-! ### Loops -/

/-- Every address on the chip can be encoded. -/
def SpiflashDevice.Fits (flash : SpiflashDevice) : Prop :=
  ∀ addr : UInt32, addr.toNat < flash.chip.capacity.toNat → flash.Reaches addr

theorem qeSpiflashProbe_fits (chip : SpiflashChip) : (qeSpiflashProbe chip).Fits := by
  intro addr haddr
  have haddr' : addr.toNat < chip.capacity.toNat := haddr
  by_cases hwide : 1 <<< 24 < chip.capacity.toNat
  · exact .inl (decide_eq_true hwide)
  · rw [Nat.shiftLeft_eq] at hwide
    exact .inr (by omega)

theorem addr_add {n : Nat} (h : addr.toNat + n < 2 ^ 32) :
    (addr + UInt32.ofNat n).toNat = addr.toNat + n := by
  rw [UInt32.toNat_add, UInt32.toNat_ofNat', Nat.mod_eq_of_lt (a := n) (by omega)]
  omega

theorem toBoundary_le {gran : Nat} (hgran : 0 < gran) (a : Nat) :
    a % gran + toBoundary gran a ≤ gran ∨ a % gran = 0 ∧ toBoundary gran a = gran := by
  have := Nat.mod_lt a hgran
  unfold toBoundary
  split <;> omega

theorem within_page {gran n : Nat} (hgran : gran = 1 ∨ gran = 256) (a : Nat)
    (hn : n ≤ toBoundary gran a) : a % 256 + n ≤ 256 := by
  have hlt := Nat.mod_lt a (show 0 < 256 by decide)
  rcases hgran with rfl | rfl
  · have := toBoundary_le Nat.one_pos a
    omega
  · have := toBoundary_le (show 0 < 256 by decide) a
    omega

/-- The loop over pages programs a range. -/
theorem pageLoop_eq (hfits : flash.Fits) {gran : Nat} (hpos : 0 < gran)
    (hgran : gran = 1 ∨ gran = 256) :
    ∀ (size : Nat) (f : Flash) (addr : UInt32) (buffer : List UInt8),
      f.fourByte = flash.address4byte → addr.toNat + size ≤ flash.chip.capacity.toNat →
        size ≤ buffer.length →
          ∃ wel, pageLoop flash gran hpos f addr size buffer =
            (.qeOk, { f with
              mem := Nor.programmed addr.toNat (buffer.take size) f.mem, wel := wel }) := by
  intro size
  induction size using Nat.strong_induction_on with
  | _ size ih =>
      intro f addr buffer hwidth hend hbuffer
      have hcapacity := flash.chip.capacity.toNat_lt
      by_cases hzero : size = 0
      · refine ⟨f.wel, ?_⟩
        rw [pageLoop, if_pos hzero, hzero, List.take_zero, Nor.programmed_nil]
      rw [pageLoop, if_neg hzero, writeEnable_true]
      have hstep := toBoundary_pos hpos addr.toNat
      simp only [ne_eq, not_true_eq_false, if_false]
      generalize hn : (if toBoundary gran addr.toNat < size then toBoundary gran addr.toNat
        else size) = n
      have hsome : 0 < n ∧ n ≤ size ∧ n ≤ toBoundary gran addr.toNat := by
        rw [← hn]
        split <;> omega
      obtain ⟨hlow, hhigh, hboundary⟩ := hsome
      have hpage : addr.toNat % 256 + (buffer.take n).length ≤ 256 := by
        rw [List.length_take]
        have := within_page hgran addr.toNat hboundary
        omega
      rw [transfer_page hwidth (hfits addr (by omega)), Nor.program_within _ _ _ hpage]
      by_cases hlast : size - n = 0
      · obtain rfl : n = size := by omega
        refine ⟨false, ?_⟩
        rw [pageLoop, if_pos hlast]
      · have hnext : (addr + UInt32.ofNat n).toNat = addr.toNat + n := addr_add (by omega)
        obtain ⟨wel, hloop⟩ := ih (size - n) (by omega)
          { f with mem := Nor.programmed addr.toNat (buffer.take n) f.mem, wel := false }
          (addr + UInt32.ofNat n) (buffer.drop n) hwidth (by omega)
          (by rw [List.length_drop]; omega)
        refine ⟨wel, ?_⟩
        have hlength : (buffer.take n).length = n := by
          rw [List.length_take]
          omega
        have hwhole : Nor.programmed (addr.toNat + n) ((buffer.drop n).take (size - n))
            (Nor.programmed addr.toNat (buffer.take n) f.mem) =
              Nor.programmed addr.toNat (buffer.take size) f.mem := by
          have happend := Nor.programmed_append addr.toNat (buffer.take n)
            ((buffer.drop n).take (size - n)) f.mem
          rw [hlength] at happend
          rw [happend, ← List.take_add, Nat.add_sub_cancel' hhigh]
        rw [hloop, hnext, hwhole]

theorem pageLoop_ok {gran : Nat} (hpos : 0 < gran) :
    ∀ (size : Nat) (f : Flash) (addr : UInt32) (buffer : List UInt8),
      (pageLoop flash gran hpos f addr size buffer).1 = .qeOk := by
  intro size
  induction size using Nat.strong_induction_on with
  | _ size ih =>
      intro f addr buffer
      by_cases hzero : size = 0
      · rw [pageLoop, if_pos hzero]
      · have hstep := toBoundary_pos hpos addr.toNat
        rw [pageLoop, if_neg hzero, writeEnable_true]
        simp only [ne_eq, not_true_eq_false, if_false]
        refine ih _ ?_ _ _ _
        split <;> omega

/-- The loop over sectors erases a range. -/
theorem eraseLoop_eq (hfits : flash.Fits) (hsound : flash.chip.Sound) :
    ∀ (n : Nat) (f : Flash) (addr : UInt32) (k : Nat),
      f.fourByte = flash.address4byte → addr.toNat = flash.chip.eraseGran.toNat * k →
        flash.chip.eraseGran.toNat * (k + n) ≤ flash.chip.capacity.toNat →
          ∃ wel, eraseLoop flash f addr (flash.chip.eraseGran.toNat * n) =
            (.qeOk, { f with
              mem := Nor.erased (flash.chip.eraseGran.toNat * k)
                (flash.chip.eraseGran.toNat * (k + n)) f.mem, wel := wel }) := by
  have hpos := flash.chip.granPos
  have hcapacity := flash.chip.capacity.toNat_lt
  generalize hgran : flash.chip.eraseGran.toNat = gran at *
  intro n
  induction n with
  | zero =>
      intro f addr k hwidth haddr hend
      refine ⟨f.wel, ?_⟩
      rw [eraseLoop, if_pos (Nat.mul_zero gran), Nat.add_zero, Nor.erased_self]
  | succ n ih =>
      intro f addr k hwidth haddr hend
      rw [Nat.mul_add, Nat.mul_succ] at hend
      have hzero : ¬gran * (n + 1) = 0 := Nat.mul_ne_zero (by omega) (by omega)
      have hstep : toBoundary gran addr.toNat = gran := by
        rw [toBoundary, haddr, if_neg (by rw [Nat.mul_mod_right]; omega)]
      rw [eraseLoop, if_neg hzero, writeEnable_true]
      simp only [ne_eq, not_true_eq_false, if_false]
      rw [transfer_erase hsound hwidth (hfits addr (by omega)), hgran, hstep, haddr,
        Nor.erase_sector hpos]
      rw [Nat.mul_succ]
      by_cases hlast : n = 0
      · rw [hlast, if_neg (by omega)]
        exact ⟨false, by rw [Nat.mul_add, Nat.mul_one]⟩
      · have hmore : gran ≤ gran * n := Nat.le_mul_of_pos_right gran (by omega)
        rw [if_pos (by omega), Nat.add_sub_cancel]
        have hnext : (addr + UInt32.ofNat gran).toNat = gran * (k + 1) := by
          rw [addr_add (by omega), haddr, Nat.mul_succ]
        obtain ⟨wel, hloop⟩ := ih
          { f with mem := Nor.erased (gran * k) (gran * k + gran) f.mem, wel := false }
          (addr + UInt32.ofNat gran) (k + 1) hwidth hnext (by
            rw [Nat.mul_add, Nat.mul_succ]
            omega)
        refine ⟨wel, ?_⟩
        have hsum : k + 1 + n = k + (n + 1) := by omega
        rw [hloop, Nat.mul_succ gran k, hsum,
          Nor.erased_append (by omega) (by rw [Nat.mul_add, Nat.mul_succ]; omega)]

theorem eraseLoop_ok : ∀ (size : Nat) (f : Flash) (addr : UInt32),
    (eraseLoop flash f addr size).1 = .qeOk := by
  intro size
  induction size using Nat.strong_induction_on with
  | _ size ih =>
      intro f addr
      by_cases hzero : size = 0
      · rw [eraseLoop, if_pos hzero]
      · have hstep := toBoundary_pos flash.chip.granPos addr.toNat
        rw [eraseLoop, if_neg hzero, writeEnable_true]
        simp only [ne_eq, not_true_eq_false, if_false]
        split
        · exact ih _ (by omega) _ _
        · rfl

/-- The loop over words programs a range. -/
theorem wordLoop_eq (hfits : flash.Fits) :
    ∀ (n : Nat) (first : Bool) (f : Flash) (addr : UInt32) (buffer : List UInt8),
      f.fourByte = flash.address4byte → f.wel = true →
        f.aai = (if first then none else some addr.toNat) → addr.toNat % 2 = 0 →
          addr.toNat + 2 * n ≤ flash.chip.capacity.toNat → 2 * n ≤ buffer.length →
            ∃ aai, (wordLoop flash first ⟨f, addr, 2 * n, buffer⟩).f =
                { f with
                  mem := Nor.programmed addr.toNat (buffer.take (2 * n)) f.mem, aai := aai } := by
  have hcapacity := flash.chip.capacity.toNat_lt
  intro n
  induction n with
  | zero =>
      intro first f addr buffer _ _ _ _ _ _
      refine ⟨f.aai, ?_⟩
      rw [wordLoop, if_pos (by simp), Nat.mul_zero, List.take_zero, Nor.programmed_nil]
  | succ n ih =>
      intro first f addr buffer hwidth hwel haai heven hend hbuffer
      have hlength : (buffer.take 2).length = 2 := by
        rw [List.length_take]
        omega
      have hword : addr.toNat % 2 + (buffer.take 2).length ≤ 2 := by omega
      have hcmd : f.transfer flash.chip
          (if first then cmdWordProgram :: (makeAddressByteArray flash addr ++ buffer.take 2)
            else cmdWordProgram :: buffer.take 2) =
          { f with
            mem := Nor.programmed addr.toNat (buffer.take 2) f.mem
            aai := some (addr.toNat + 2) } := by
        cases first with
        | true =>
            rw [if_pos rfl] at haai ⊢
            rw [transfer_first_word hwidth (hfits addr (by omega)) hwel haai,
              Nor.program_within _ _ _ hword]
        | false =>
            rw [if_neg Bool.false_ne_true] at haai ⊢
            rw [transfer_word _ hwel haai, Nor.program_within _ _ _ hword]
      rw [wordLoop, if_neg (by simp only; omega)]
      simp only [hcmd]
      have hsize : 2 * (n + 1) - 2 = 2 * n := by omega
      have hwhole : Nor.programmed (addr.toNat + 2) ((buffer.drop 2).take (2 * n))
          (Nor.programmed addr.toNat (buffer.take 2) f.mem) =
            Nor.programmed addr.toNat (buffer.take (2 * (n + 1))) f.mem := by
        have happend := Nor.programmed_append addr.toNat (buffer.take 2)
          ((buffer.drop 2).take (2 * n)) f.mem
        have htake : 2 + 2 * n = 2 * (n + 1) := by omega
        rw [hlength] at happend
        rw [happend, ← List.take_add, htake]
      rw [hsize]
      by_cases hlast : n = 0
      · refine ⟨some (addr.toNat + 2), ?_⟩
        rw [hlast, wordLoop, if_pos (by simp)]
      · have hnext : (addr + 2).toNat = addr.toNat + 2 :=
          addr_add (n := 2) (by omega)
        obtain ⟨aai, hloop⟩ := ih false
          { f with
            mem := Nor.programmed addr.toNat (buffer.take 2) f.mem
            aai := some (addr.toNat + 2) }
          (addr + 2) (buffer.drop 2) hwidth hwel (by rw [hnext]; rfl) (by omega) (by omega)
          (by rw [List.length_drop]; omega)
        refine ⟨aai, ?_⟩
        rw [hloop, hnext, hwhole]

theorem wordLoop_size (flash : SpiflashDevice) : ∀ (n : Nat) (first : Bool) (w : Words),
    w.size = 2 * n → (wordLoop flash first w).size = 0 := by
  intro n
  induction n with
  | zero =>
      intro first w hsize
      rw [wordLoop, if_pos (by omega), hsize]
  | succ n ih =>
      intro first w hsize
      rw [wordLoop, if_neg (by omega)]
      exact ih false _ (by simp only [hsize]; omega)

/-! ### Writes -/

theorem aaiWords_eq (hfits : flash.Fits) (hidle : f.Idle flash) {n : Nat} {buffer : List UInt8}
    (heven : addr.toNat % 2 = 0) (hend : addr.toNat + 2 * n ≤ flash.chip.capacity.toNat)
    (hbuffer : 2 * n ≤ buffer.length) :
    aaiWords flash f addr (2 * n) buffer = (.qeOk, { f with
      mem := Nor.programmed addr.toNat (buffer.take (2 * n)) f.mem
      wel := false
      aai := none }) := by
  obtain ⟨aai, hloop⟩ := wordLoop_eq hfits n true { f with wel := true } addr buffer hidle.width
    rfl hidle.words heven hend hbuffer
  have hsize := wordLoop_size flash n true
    ⟨{ f with wel := true }, addr, 2 * n, buffer⟩ rfl
  rw [aaiWords, writeEnable_true]
  simp only [ne_eq, not_true_eq_false, if_false, hsize, writeEnable_false, hloop,
    Nat.zero_ne_one, and_false]

theorem aaiWords_ok (f : Flash) (addr : UInt32) (n : Nat) (buffer : List UInt8) :
    (aaiWords flash f addr (2 * n) buffer).1 = .qeOk := by
  have hsize := wordLoop_size flash n true
    ⟨{ f with wel := true }, addr, 2 * n, buffer⟩ rfl
  rw [aaiWords, writeEnable_true]
  simp only [ne_eq, not_true_eq_false, if_false, hsize, writeEnable_false, Nat.zero_ne_one,
    and_false]

theorem qeSpiflashWrite_of_erase {size : Nat} {buffer : List UInt8} {f' : Flash}
    (herase : qeSpiflashErase flash f addr size = (.qeOk, f')) :
    qeSpiflashWrite flash f addr size buffer =
      if maskExst flash.chip.writeMode flashWmPage256b then
        spiflashPage256Or1byteWrite flash f' addr size 256 (by decide) buffer
      else if maskExst flash.chip.writeMode flashWmAai then
        spiflashAaiWrite flash f' addr size buffer
      else (.qeOk, f') := by
  rw [qeSpiflashWrite, herase]
  simp only [ne_eq, not_true_eq_false, if_false]

/-- A write that passes the check ends well, wherever it goes. -/
theorem qeSpiflashWrite_ok {n : Nat} (hbound : outOfBound flash addr (2 * n) = false)
    (heven : addr.toNat % 2 = 0) (f : Flash) (buffer : List UInt8) :
    (qeSpiflashWrite flash f addr (2 * n) buffer).1 = .qeOk := by
  have herase : (qeSpiflashErase flash f addr (2 * n)).1 = .qeOk := by
    rw [qeSpiflashErase, hbound, if_neg Bool.false_ne_true]
    split
    · rw [qeSpiflashChipErase_eq]
    · exact eraseLoop_ok _ _ _
  rw [qeSpiflashWrite_of_erase (Prod.ext herase rfl)]
  split
  · rw [spiflashPage256Or1byteWrite, hbound, if_neg Bool.false_ne_true]
    exact pageLoop_ok _ _ _ _ _
  split
  · rw [spiflashAaiWrite, hbound, if_neg Bool.false_ne_true, if_neg (by omega)]
    exact aaiWords_ok _ _ _ _
  · rfl

theorem qeSpiflashWrite_refused {size : Nat} {buffer : List UInt8}
    (hbound : outOfBound flash addr size = true) (f : Flash) :
    qeSpiflashWrite flash f addr size buffer = (.qeErange, f) := by
  have herase : qeSpiflashErase flash f addr size = (.qeErange, f) := by
    rw [qeSpiflashErase, hbound, if_pos rfl]
  rw [qeSpiflashWrite, herase]
  rfl

/-! ### Requests within the capacity -/

namespace BlockRequest

variable {chip : SpiflashChip} {r : BlockRequest chip}

theorem stop_eq (r : BlockRequest chip) : r.stop = r.start + r.data.length := by
  rw [stop, start, r.fits, Nat.add_mul]

/-- Where the request lies, in the numbers of the driver. -/
theorem physical (hin : r.stop ≤ chip.capacity.toNat) :
    (∃ addr, phyAddr (qeSpiflashProbe chip) r.pos = some addr ∧ addr.toNat = r.start ∧
      outOfBound (qeSpiflashProbe chip) addr r.data.length = false) ∧
    phySize (qeSpiflashProbe chip) r.size = r.data.length := by
  have hcapacity := chip.capacity.toNat_lt
  have hstop := r.stop_eq
  refine ⟨⟨UInt32.ofNat r.start, ?_, ?_, ?_⟩, ?_⟩
  · exact if_pos (show r.start < 2 ^ 63 by omega)
  · exact UInt32.toNat_ofNat_of_lt' (show r.start < 2 ^ 32 by omega)
  · rw [outOfBound, UInt32.toNat_ofNat_of_lt' (show r.start < 2 ^ 32 by omega)]
    refine decide_eq_false ?_
    show ¬chip.capacity.toNat < _
    omega
  · show r.size.toNat * chip.eraseGran.toNat % 2 ^ 64 = _
    rw [← r.fits]
    omega

variable {f : Flash} {addr : UInt32}

/-- The range is erased, and nothing else of the chip. -/
theorem erase_inside (hsound : chip.Sound) (hidle : f.Idle (qeSpiflashProbe chip))
    (hin : r.stop ≤ chip.capacity.toNat) (haddr : addr.toNat = r.start)
    (hbound : outOfBound (qeSpiflashProbe chip) addr r.data.length = false) :
    ∃ mem, qeSpiflashErase (qeSpiflashProbe chip) f addr r.data.length =
        (.qeOk, { f with mem := mem, wel := false, aai := none }) ∧
      ∀ a < chip.capacity.toNat, mem a = Nor.erased r.start r.stop f.mem a := by
  have hstop := r.stop_eq
  rw [qeSpiflashErase, hbound, if_neg Bool.false_ne_true]
  by_cases hwhole : addr = 0 ∧ r.data.length = (qeSpiflashProbe chip).chip.capacity.toNat
  · obtain ⟨rfl, hlength⟩ := hwhole
    have hzero : r.start = 0 := haddr.symm
    have hall : r.data.length = chip.capacity.toNat := hlength
    rw [if_pos ⟨rfl, hlength⟩, qeSpiflashChipErase_eq]
    refine ⟨_, rfl, fun a ha => ?_⟩
    exact (if_pos (by omega)).symm
  · have haddr' : addr.toNat = (qeSpiflashProbe chip).chip.eraseGran.toNat * r.pos := by
      rw [haddr, start, Nat.mul_comm]
      rfl
    have hend : (qeSpiflashProbe chip).chip.eraseGran.toNat * (r.pos + r.size.toNat) ≤
        (qeSpiflashProbe chip).chip.capacity.toNat := by
      rw [Nat.mul_comm]
      exact hin
    obtain ⟨wel, hloop⟩ := eraseLoop_eq (qeSpiflashProbe_fits chip) hsound r.size.toNat f addr r.pos
      hidle.width haddr' hend
    have hlength : r.data.length = (qeSpiflashProbe chip).chip.eraseGran.toNat * r.size.toNat := by
      rw [r.fits, Nat.mul_comm]
      rfl
    rw [if_neg hwhole, hlength, hloop]
    simp only [writeEnable_false]
    refine ⟨_, rfl, fun a _ => ?_⟩
    rw [start, stop, Nat.mul_comm r.pos, Nat.mul_comm (r.pos + r.size.toNat)]
    rfl

/-- The chip is written by pages or by words. -/
def Programs (chip : SpiflashChip) : Prop :=
  maskExst chip.writeMode flashWmPage256b = true ∨ maskExst chip.writeMode flashWmAai = true

/-- Where the chip is written, so is the range. -/
theorem write_programs (hsound : chip.Sound) (hidle : f.Idle (qeSpiflashProbe chip))
    (hin : r.stop ≤ chip.capacity.toNat) (hmode : Programs chip) :
    ∃ mem, spiflashWrite (qeSpiflashProbe chip) f r.pos r.size r.data =
        some (.qeOk, { f with mem := mem, wel := false, aai := none }) ∧
      ∀ a < chip.capacity.toNat,
        mem a = Nor.programmed r.start r.data (Nor.erased r.start r.stop f.mem) a := by
  obtain ⟨⟨addr, hphy, haddr, hbound⟩, hsize⟩ := physical hin
  obtain ⟨mem, herase, hmem⟩ := erase_inside hsound hidle hin haddr hbound
  have hstop := r.stop_eq
  have hfits := qeSpiflashProbe_fits chip
  have hend : addr.toNat + r.data.length ≤ (qeSpiflashProbe chip).chip.capacity.toNat := by
    show _ ≤ chip.capacity.toNat
    omega
  have hresult : ∀ a < chip.capacity.toNat, Nor.programmed addr.toNat r.data mem a =
      Nor.programmed r.start r.data (Nor.erased r.start r.stop f.mem) a := by
    intro a ha
    rw [haddr]
    unfold Nor.programmed
    rw [hmem a ha]
  refine ⟨Nor.programmed addr.toNat r.data mem, ?_, hresult⟩
  rw [spiflashWrite, hphy, Option.map_some, hsize, qeSpiflashWrite_of_erase herase]
  refine congrArg some ?_
  by_cases hpage : maskExst chip.writeMode flashWmPage256b = true
  · have hcond : maskExst (qeSpiflashProbe chip).chip.writeMode flashWmPage256b = true := hpage
    obtain ⟨wel, hloop⟩ := pageLoop_eq hfits (show 0 < 256 by decide) (.inr rfl) r.data.length
      { f with mem := mem, wel := false, aai := none } addr r.data hidle.width hend
      (Nat.le_refl _)
    rw [if_pos hcond, spiflashPage256Or1byteWrite, hbound, if_neg Bool.false_ne_true, hloop]
    simp only [writeEnable_false, List.take_length]
  · have hcond : ¬maskExst (qeSpiflashProbe chip).chip.writeMode flashWmPage256b = true := hpage
    have hwords : maskExst (qeSpiflashProbe chip).chip.writeMode flashWmAai = true :=
      hmode.resolve_left hpage
    -- Sectors have an even number of bytes, so the words are all there is.
    obtain ⟨g, hg⟩ := hsound.pages
    have hwordsStart : addr.toNat = 2 * (r.pos * (128 * g)) := by
      rw [haddr, start, hg]
      ring_nf
    obtain ⟨n, hn⟩ : ∃ n, r.data.length = 2 * n := by
      refine ⟨r.size.toNat * (128 * g), ?_⟩
      rw [r.fits, hg]
      ring_nf
    have heven : addr.toNat % 2 = 0 := by
      rw [hwordsStart, Nat.mul_mod_right]
    have haai := aaiWords_eq hfits (f := { f with mem := mem, wel := false, aai := none })
      ⟨hidle.width, rfl⟩ heven (hn ▸ hend) (Nat.le_of_eq hn.symm)
    rw [if_neg hcond, if_pos hwords, spiflashAaiWrite, hbound, if_neg Bool.false_ne_true,
      if_neg (by omega), hn, haai, ← hn, List.take_length]

theorem write_erases (hsound : chip.Sound) (hidle : f.Idle (qeSpiflashProbe chip))
    (hin : r.stop ≤ chip.capacity.toNat) (hmode : ¬Programs chip) :
    ∃ mem, spiflashWrite (qeSpiflashProbe chip) f r.pos r.size r.data =
        some (.qeOk, { f with mem := mem, wel := false, aai := none }) ∧
      ∀ a < chip.capacity.toNat, mem a = Nor.erased r.start r.stop f.mem a := by
  obtain ⟨⟨addr, hphy, haddr, hbound⟩, hsize⟩ := physical hin
  obtain ⟨mem, herase, hmem⟩ := erase_inside hsound hidle hin haddr hbound
  refine ⟨mem, ?_, hmem⟩
  rw [spiflashWrite, hphy, Option.map_some, hsize, qeSpiflashWrite_of_erase herase]
  obtain ⟨hpage, hwords⟩ := not_or.mp hmode
  have hpage' : ¬maskExst (qeSpiflashProbe chip).chip.writeMode flashWmPage256b = true := hpage
  have hwords' : ¬maskExst (qeSpiflashProbe chip).chip.writeMode flashWmAai = true := hwords
  rw [if_neg hpage', if_neg hwords']

/-- A read gives what is there. -/
theorem read_inside (hidle : f.Idle (qeSpiflashProbe chip)) (hin : r.stop ≤ chip.capacity.toNat) :
    spiflashRead (qeSpiflashProbe chip) f r.pos r.size =
      some (.qeOk, (List.range r.data.length).map fun k => f.mem (r.start + k)) := by
  obtain ⟨⟨addr, hphy, haddr, hbound⟩, hsize⟩ := physical hin
  have hreaches : (qeSpiflashProbe chip).Reaches addr ∨ r.data.length = 0 := by
    by_cases hempty : r.data.length = 0
    · exact .inr hempty
    · refine .inl (qeSpiflashProbe_fits chip addr ?_)
      have hstop := r.stop_eq
      show _ < chip.capacity.toNat
      omega
  rw [spiflashRead, hphy, Option.map_some, hsize, qeSpiflashRead, hbound,
    if_neg Bool.false_ne_true, Flash.readData]
  rcases hreaches with hreaches | hempty
  · have haddress := (address_make hidle.width hreaches []).1
    rw [List.append_nil] at haddress
    rw [haddress, haddr]
  · rw [hempty]
    rfl

/-- What a read gives is `data`, byte by byte. -/
theorem read_data_iff {mem : Nor.Memory} :
    ((List.range r.data.length).map fun k => mem (r.start + k)) = r.data ↔
      ∀ k (hk : k < r.data.length), mem (r.start + k) = r.data[k] := by
  constructor
  · intro h k hk
    have := List.getElem_of_eq h (show k < _ by simpa using hk)
    simpa using this
  · intro h
    exact List.ext_getElem (by simp) fun k _ hk => by simpa using h k hk

/-- A request within the capacity is stored exactly when the chip is written, or there are only
ones. -/
theorem stored_iff (hsound : chip.Sound) (hidle : f.Idle (qeSpiflashProbe chip))
    (hin : r.stop ≤ chip.capacity.toNat) :
    r.Stored f ↔ Programs chip ∨ ∀ b ∈ r.data, b = 0xFF := by
  have hstop := r.stop_eq
  by_cases hmode : Programs chip
  · refine iff_of_true ?_ (.inl hmode)
    obtain ⟨mem, hwrite, hmem⟩ := write_programs hsound hidle hin hmode
    obtain ⟨hback, hother⟩ := Nor.programmed_erased hstop.symm f.mem
    refine ⟨_, hwrite, ?_, ?_, hidle.after mem⟩
    · rw [read_inside (hidle.after mem) hin]
      refine congrArg some (congrArg (Prod.mk _) (read_data_iff.mpr fun k hk => ?_))
      exact (hmem _ (by omega)).trans (hback k hk)
    · intro a ha hout
      exact (hmem a ha).trans (hother a hout)
  · obtain ⟨mem, hwrite, hmem⟩ := write_erases hsound hidle hin hmode
    have hread : spiflashRead (qeSpiflashProbe chip)
        { f with mem := mem, wel := false, aai := none } r.pos r.size = some (.qeOk, r.data) ↔
        ∀ b ∈ r.data, b = 0xFF := by
      rw [read_inside (hidle.after mem) hin, Option.some.injEq, Prod.mk.injEq,
        and_iff_right rfl, read_data_iff, List.forall_mem_iff_forall_getElem]
      refine forall_congr' fun k => forall_congr' fun hk => ?_
      have hones : mem (r.start + k) = 0xFF := by
        rw [hmem _ (by omega)]
        exact if_pos (by omega)
      show mem (r.start + k) = _ ↔ _
      rw [hones, eq_comm]
    rw [or_iff_right hmode, ← hread]
    constructor
    · rintro ⟨f', hwrite', hread', -, -⟩
      rw [hwrite, Option.some.injEq, Prod.mk.injEq] at hwrite'
      rw [hwrite'.2]
      exact hread'
    · intro hread'
      refine ⟨_, hwrite, hread', fun a ha hout => ?_, hidle.after mem⟩
      refine (hmem a ha).trans (if_neg ?_)
      omega

/-! ### Requests beyond the capacity -/

theorem phySize_even (hsound : chip.Sound) (r : BlockRequest chip) :
    ∃ n, phySize (qeSpiflashProbe chip) r.size = 2 * n := by
  obtain ⟨g, hg⟩ := hsound.pages
  refine ⟨phySize (qeSpiflashProbe chip) r.size / 2, ?_⟩
  have hproduct : r.size.toNat * chip.eraseGran.toNat = 2 * (r.size.toNat * (128 * g)) := by
    rw [hg]
    ring_nf
  show r.size.toNat * chip.eraseGran.toNat % 2 ^ 64 = 2 * (r.size.toNat * chip.eraseGran.toNat %
    2 ^ 64 / 2)
  omega

/-- A request is refused exactly when the check finds its end beyond the capacity. -/
theorem refused_iff (hsound : chip.Sound) (r : BlockRequest chip) (f : Flash) :
    r.Refused f ↔ r.start < 2 ^ 63 ∧ chip.capacity.toNat <
      (r.start % 2 ^ 32 + r.size.toNat * chip.eraseGran.toNat % 2 ^ 64) % 2 ^ 64 := by
  by_cases hlong : r.start < 2 ^ 63
  · have hphy : phyAddr (qeSpiflashProbe chip) r.pos = some (UInt32.ofNat r.start) := if_pos hlong
    have hbound : outOfBound (qeSpiflashProbe chip) (UInt32.ofNat r.start)
        (phySize (qeSpiflashProbe chip) r.size) = true ↔ chip.capacity.toNat <
          (r.start % 2 ^ 32 + r.size.toNat * chip.eraseGran.toNat % 2 ^ 64) % 2 ^ 64 := by
      rw [outOfBound, decide_eq_true_iff, UInt32.toNat_ofNat']
      rfl
    rw [and_iff_right hlong, ← hbound, Refused, spiflashWrite, spiflashRead, hphy, Option.map_some,
      Option.map_some]
    cases hcheck : outOfBound (qeSpiflashProbe chip) (UInt32.ofNat r.start)
        (phySize (qeSpiflashProbe chip) r.size) with
    | true =>
        refine iff_of_true ⟨?_, ?_⟩ rfl
        · rw [qeSpiflashWrite_refused hcheck]
        · rw [qeSpiflashRead, hcheck, if_pos rfl]
    | false =>
        refine iff_of_false (fun h => ?_) Bool.false_ne_true
        obtain ⟨n, hn⟩ := phySize_even hsound r
        obtain ⟨g, hg⟩ := hsound.pages
        have heven : (UInt32.ofNat r.start).toNat % 2 = 0 := by
          have hproduct : r.start = 2 * (r.pos * (128 * g)) := by
            rw [start, hg]
            ring_nf
          rw [UInt32.toNat_ofNat']
          omega
        rw [hn] at hcheck h
        have hok := qeSpiflashWrite_ok hcheck heven f r.data
        have hrange := congrArg Prod.fst (Option.some.inj h.1)
        exact nomatch hok.symm.trans hrange
  · have hphy : phyAddr (qeSpiflashProbe chip) r.pos = none := if_neg hlong
    refine iff_of_false (fun h => ?_) fun h => hlong h.1
    have hwrite := h.1
    rw [spiflashWrite, hphy] at hwrite
    exact nomatch hwrite

/-- **A chip of the table serves a request as a block device exactly when** it is written by
pages or words, or there are only ones to write, and, for a request beyond the capacity, when
the end is so in the 32 bits of the address and the 64 of the size. -/
theorem block_device_iff (hchip : chip ∈ flashChipTable)
    (hidle : f.Idle (qeSpiflashProbe chip)) (r : BlockRequest chip) : r.Right f ↔ r.Served := by
  have hsound := flashChipTable_sound chip hchip
  unfold Right Served
  by_cases hin : r.stop ≤ chip.capacity.toNat
  · rw [if_pos hin, if_pos hin, stored_iff hsound hidle hin, Programs, or_assoc]
  · rw [if_neg hin, if_neg hin]
    exact refused_iff hsound r f

end BlockRequest

theorem eraseGran_4096 : 0 < (4096 : UInt32).toNat := by decide

theorem eraseGran_512 : 0 < (512 : UInt32).toNat := by decide

/-- The seventh row, with addresses of four bytes. -/
def w25q256fv : SpiflashChip :=
  { name := "W25Q256FV", eraseGranCmd := 0x20, capacity := 32 * 1024 * 1024,
    writeMode := flashWmPage256b, eraseGran := 4096, granPos := eraseGran_4096 }

/-- A chip that is all zeros. -/
def zeros (fourByte : Bool) : Flash :=
  { mem := fun _ => 0, wel := false, fourByte := fourByte, aai := none }

/-- One sector of sevens behind the first 16 MiB. -/
def sevens : BlockRequest w25q256fv :=
  { pos := 4097, size := 1, data := List.replicate 4096 7, fits := List.length_replicate }

theorem block_device_iff_sevens : sevens.Right (zeros true) :=
  (@BlockRequest.block_device_iff w25q256fv (zeros true)
    (by simp [flashChipTable, w25q256fv]) ⟨rfl, rfl⟩ sevens).mpr
    ((if_pos (by decide)).mpr (.inl rfl))

/-- The first row, which is written neither by pages nor by words. -/
def at45db161e : SpiflashChip :=
  { name := "AT45DB161E", eraseGranCmd := 0x81, capacity := 2 * 1024 * 1024,
    writeMode := flashWmByte ||| flashWmDualBuffer, eraseGran := 512,
    granPos := eraseGran_512 }

/-- Its first sector, of zeros. -/
def firstZeros : BlockRequest at45db161e :=
  { pos := 0, size := 1, data := List.replicate 512 0, fits := List.length_replicate }

/-- A sector so far behind the chip that its address is zero. -/
def wrapped : BlockRequest w25q256fv :=
  { pos := 2 ^ 20, size := 1, data := List.replicate 4096 7, fits := List.length_replicate }

/-- The zeros are lost, and the sector behind the chip is taken for the first one. -/
theorem zeros_lost : ¬firstZeros.Right (zeros false) ∧ ¬wrapped.Right (zeros true) := by
  refine ⟨fun h => ?_, fun h => ?_⟩
  · have hin : firstZeros.stop ≤ at45db161e.capacity.toNat := by decide
    have hsound := flashChipTable_sound at45db161e (by simp [flashChipTable, at45db161e])
    rw [BlockRequest.Right, if_pos hin, BlockRequest.stored_iff hsound ⟨rfl, rfl⟩ hin] at h
    rcases h with hmode | hones
    · exact absurd hmode (not_or.mpr ⟨by decide, by decide⟩)
    · exact absurd (hones 0 (List.mem_replicate.mpr ⟨by decide, rfl⟩)) (by decide)
  · have hout : ¬wrapped.stop ≤ w25q256fv.capacity.toNat := by decide
    have hsound := flashChipTable_sound w25q256fv (by simp [flashChipTable, w25q256fv])
    rw [BlockRequest.Right, if_neg hout, BlockRequest.refused_iff hsound] at h
    exact absurd h.2 (by decide)

end Awoke.Qe
