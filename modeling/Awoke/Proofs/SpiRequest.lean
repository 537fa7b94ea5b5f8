/-
The transfers of a request to the flash driver.

A request says beforehand what goes over the bus, but for one thing: where a command is lost the
driver leaves its loop, puts the latch off, and goes on with what comes next.  So a request is a
tree, with a branch for every command that may be lost (`Plan`).  What the bus answers along the
tree says all that matters of a call: whether a check refuses it, and whether every transfer is
served.  `Follows` connects the two, with one lemma for each function of the driver.
-/
import Awoke.Proofs.SpiBus

namespace Awoke.Qe

/-! ### Plans -/

/-- What a request has the driver do: nothing more, to refuse an address, to set the latch and
read the status, or to send a command, which may be lost, and wait for it. -/
inductive Plan
  | done
  | refuse
  | latch (en checked : Bool) (next : Plan)
  | command (role : Role) (sent : List UInt8) (lost next : Plan)

namespace SpiflashDevice

variable (flash : SpiflashDevice)

/-- The pages of a range, and then `next`. -/
def pagePlan (gran : Nat) (hgran : 0 < gran) (buffer : Cells UInt8) (addr : UInt32)
    (size pos : Nat) (next : Plan) : Plan :=
  if size = 0 then next
  else
    let writeSize := if toBoundary gran addr.toNat < size then toBoundary gran addr.toNat else size
    .latch true true (.command .page
      (cmdPageProgram :: (makeAddressByteArray flash addr ++ buffer.slice pos writeSize)) next
      (pagePlan gran hgran buffer (addr + UInt32.ofNat writeSize) (size - writeSize)
        (pos + writeSize) next))
termination_by size
decreasing_by
  have := toBoundary_pos hgran addr.toNat
  split <;> omega

/-- `spiflash_page256_or_1byte_write`, and then `next`. -/
def pageWritePlan (addr : UInt32) (size gran : Nat) (hgran : 0 < gran) (buffer : Cells UInt8)
    (pos : Nat) (next : Plan) : Plan :=
  if outOfBound flash addr size then .refuse
  else flash.pagePlan gran hgran buffer addr size pos (.latch false false next)

/-- The words of a range, and then `next` with what is left of it; or `lost`. -/
def wordPlan (buffer : Cells UInt8) (firstWrite : Bool) (addr : UInt32) (size pos : Nat)
    (lost : Plan) (next : UInt32 → Nat → Nat → Plan) : Plan :=
  if size < 2 then next addr size pos
  else
    .command (if firstWrite then .firstWord else .word)
      (if firstWrite then cmdWordProgram :: (makeAddressByteArray flash addr ++ buffer.slice pos 2)
        else cmdWordProgram :: buffer.slice pos 2) lost
      (wordPlan buffer false (addr + 2) (size - 2) (pos + 2) lost next)
termination_by size

/-- The words of `spiflash_aai_write` and what comes after them. -/
def aaiWordsPlan (buffer : Cells UInt8) (addr : UInt32) (size pos : Nat) (next : Plan) : Plan :=
  .latch true true (flash.wordPlan buffer true addr size pos next fun addr size pos =>
    .latch false true
      (if size = 1 then flash.pageWritePlan addr 1 1 Nat.one_pos buffer pos next else next))

/-- `spiflash_aai_write`, and then `next`. -/
def aaiPlan (addr : UInt32) (size : UInt64) (buffer : Cells UInt8) (next : Plan) : Plan :=
  if outOfBound flash addr size.toNat then .refuse
  else if addr.toNat % 2 ≠ 0 then
    flash.pageWritePlan addr 1 1 Nat.one_pos buffer 0
      (flash.aaiWordsPlan buffer (addr + 1) (size - 1).toNat 1 next)
  else flash.aaiWordsPlan buffer addr size.toNat 0 next

/-- `qe_spiflash_chip_erase`, and then `next`. -/
def chipErasePlan (next : Plan) : Plan :=
  .latch true true (.command .chipErase
    (if maskExst flash.chip.writeMode flashWmDualBuffer then [cmdEraseChip, 0x94, 0x80, 0x9A]
      else [cmdEraseChip])
    (.latch false false next) (.latch false false next))

/-- The sectors of a range, and then `next`. -/
def sectorPlan (addr : UInt32) (size : Nat) (next : Plan) : Plan :=
  if size = 0 then next
  else
    let step := toBoundary flash.chip.eraseGran.toNat addr.toNat
    .latch true true (.command .erase
      (flash.chip.eraseGranCmd :: makeAddressByteArray flash addr) next
      (if step < size then sectorPlan (addr + UInt32.ofNat step) (size - step) next else next))
termination_by size
decreasing_by
  have := toBoundary_pos flash.chip.granPos addr.toNat
  omega

/-- `qe_spiflash_erase`, and then `next`. -/
def erasePlan (addr : UInt32) (size : UInt64) (next : Plan) : Plan :=
  if outOfBound flash addr size.toNat then .refuse
  else if addr = 0 ∧ size.toNat = flash.chip.capacity.toNat then flash.chipErasePlan next
  else flash.sectorPlan addr size.toNat (.latch false false next)

/-- `qe_spiflash_write`. -/
def writePlan (addr : UInt32) (size : UInt64) (buffer : Cells UInt8) : Plan :=
  flash.erasePlan addr size
    (if maskExst flash.chip.writeMode flashWmPage256b then
      flash.pageWritePlan addr size.toNat 256 Bus.page_pos buffer 0 .done
    else if maskExst flash.chip.writeMode flashWmAai then flash.aaiPlan addr size buffer .done
    else .done)

end SpiflashDevice

/-! ### What the bus answers -/

namespace Bus

variable (bus : Bus)

/-- The command for the latch. -/
def latchCommand (en : Bool) : List UInt8 := [if en then cmdWriteEnable else cmdWriteDisable]

/-- The log behind the command for the latch. -/
def latched (log : Log) (en checked : Bool) : Log :=
  log ++ [.transfer (.latch en checked) (latchCommand en) (bus.answer log (latchCommand en))]

/-- The log behind a status. -/
def polled (log : Log) : Log := log ++ [.transfer .status [cmdReadSr] (bus.answer log [cmdReadSr])]

/-- The latch is seen as it was set: in the status that the bus sends, or else, where a transfer
comes to nothing, in what lies in `ret` and `sr`. -/
def Shows (log : Log) (en checked : Bool) : Prop :=
  match bus.answer log (latchCommand en) with
  | none => (bus.stale log).1 = qeOk ∧ ((bus.stale log).2 &&& srWel ≠ 0 ↔ en = true)
  | some _ => ((bus.answer (bus.latched log en checked) [cmdReadSr]).getD (bus.stale log).2 &&& srWel
      ≠ 0 ↔ en = true)

/-- The log behind the latch and the status; where the command is lost no status is read. -/
def afterLatch (log : Log) (en checked : Bool) : Log :=
  if (bus.answer log (latchCommand en)).isSome then bus.polled (bus.latched log en checked)
  else bus.latched log en checked

/-- Along a plan a check refuses: one of the latch that is looked at does not see it as it was set,
or an address is refused. -/
def Refuses : Plan → Log → Prop
  | .done, _ => False
  | .refuse, _ => True
  | .latch en checked next, log =>
      checked = true ∧ ¬bus.Shows log en checked ∨ Refuses next (bus.afterLatch log en checked)
  | .command role sent lost next, log =>
      match bus.answer log sent with
      | none => Refuses lost (log ++ [.transfer role sent none])
      | some b => Refuses next (bus.polled (log ++ [.transfer role sent (some b)]))

/-- Along a plan every transfer is served, so that nothing is lost. -/
def Serves : Plan → Log → Prop
  | .done, _ => True
  | .refuse, _ => True
  | .latch en checked next, log =>
      (bus.answer log (latchCommand en)).isSome ∧
        (bus.answer (bus.latched log en checked) [cmdReadSr]).isSome ∧
          Serves next (bus.afterLatch log en checked)
  | .command role sent _ next, log =>
      ∃ b, bus.answer log sent = some b ∧
        (bus.answer (log ++ [.transfer role sent (some b)]) [cmdReadSr]).isSome ∧
          Serves next (bus.polled (log ++ [.transfer role sent (some b)]))

end Bus

/-! ### The steps of the driver -/

variable {bus : Bus} {flash : SpiflashDevice} {log : Log} {plan mid next : Plan}
  {r r' : Ret × Log}

theorem succeed_one {role : Role} {sent : List UInt8} {recv : Option UInt8} :
    Succeed (log ++ [.transfer role sent recv]) ↔ Succeed log ∧ recv.isSome = true := by
  rw [succeed_append, Succeed, Succeed, List.forall_mem_singleton]
  rfl

/-- `spiflash_read_status` takes the busy bit out, which is not the one of the latch. -/
theorem idle_wel (sr : UInt8) : sr &&& ~~~srBusy &&& srWel = sr &&& srWel := by
  rw [UInt8.and_assoc]
  rfl

theorem waitBusy_eq (bus : Bus) (log : Log) : bus.spiflashWaitBusy log = (qeOk, bus.polled log) := by
  unfold Bus.spiflashWaitBusy Bus.spiflashReadStatus Bus.transfer Bus.polled
  cases bus.answer log [cmdReadSr] <;> rfl

/-- What `spiflash_write_enable` makes of a code and a status. -/
theorem latch_check (ret : Ret) (sr : UInt8) (log : Log) (en : Bool) :
    let r : Ret × Log :=
      if ret = qeOk then
        if en = true ∧ sr &&& srWel = 0 then (.code .qeEwrite, log)
        else if en = false ∧ sr &&& srWel ≠ 0 then (.code .qeEwrite, log)
        else (ret, log)
      else (ret, log)
    (r.1 = qeOk ↔ ret = qeOk ∧ (sr &&& srWel ≠ 0 ↔ en = true)) ∧ r.2 = log := by
  by_cases hret : ret = qeOk
  · by_cases hset : sr &&& srWel = 0 <;> cases en <;> simp [hret, hset]
  · simp [hret]

/-- `spiflash_write_enable` goes well exactly if the latch is seen. -/
theorem writeEnable_spec (bus : Bus) (log : Log) (en checked : Bool) :
    ((bus.spiflashWriteEnable log en checked).1 = qeOk ↔ bus.Shows log en checked) ∧
      (bus.spiflashWriteEnable log en checked).2 = bus.afterLatch log en checked := by
  have hcommand : bus.transfer log (.latch en checked)
      [if en then cmdWriteEnable else cmdWriteDisable] =
        (bus.answer log (Bus.latchCommand en), bus.latched log en checked) := rfl
  have hcheck := fun ret sr log => latch_check ret sr log en
  unfold Bus.spiflashWriteEnable Bus.Shows Bus.afterLatch
  rw [hcommand]
  cases hsent : bus.answer log (Bus.latchCommand en) with
  | none => exact hcheck (bus.stale log).1 (bus.stale log).2 (bus.latched log en checked)
  | some b =>
      simp only [Option.isSome_some, if_true, Bus.spiflashReadStatus, Bus.transfer]
      cases hstatus : bus.answer (bus.latched log en checked) [cmdReadSr] with
      | none =>
          have h := hcheck qeOk (bus.stale log).2 (bus.polled (bus.latched log en checked))
          rw [Bus.polled, hstatus] at h
          simpa [Bus.polled, hstatus] using h
      | some sr =>
          have h := hcheck qeOk (sr &&& ~~~srBusy) (bus.polled (bus.latched log en checked))
          simpa [Bus.polled, hstatus, idle_wel] using h

theorem succeed_afterLatch {en checked : Bool} :
    Succeed (bus.afterLatch log en checked) ↔
      Succeed log ∧ (bus.answer log (Bus.latchCommand en)).isSome ∧
        (bus.answer (bus.latched log en checked) [cmdReadSr]).isSome := by
  unfold Bus.afterLatch
  by_cases hsent : (bus.answer log (Bus.latchCommand en)).isSome = true
  · rw [if_pos hsent, Bus.polled, succeed_one, Bus.latched, succeed_one, and_assoc]
  · rw [if_neg hsent, Bus.latched, succeed_one]
    exact iff_of_false (fun h => hsent h.2) fun h => hsent h.2.1

/-! ### Calls along their plans -/

/-- A call goes along its plan, and where it returns `qe_ok` it is left with `next`. -/
structure Follows (bus : Bus) (plan : Plan) (log : Log) (r : Ret × Log) (next : Plan) : Prop where
  refuses : bus.Refuses plan log ↔ r.1 ≠ qeOk ∨ bus.Refuses next r.2
  serves : r.1 = qeOk → (Succeed log ∧ bus.Serves plan log ↔ Succeed r.2 ∧ bus.Serves next r.2)

theorem Follows.refl (bus : Bus) (plan : Plan) (log : Log) :
    Follows bus plan log (qeOk, log) plan :=
  ⟨(or_iff_right (not_not_intro rfl)).symm, fun _ => Iff.rfl⟩

/-- A call is followed by another one only if it returns `qe_ok`. -/
theorem Follows.trans (h : Follows bus plan log r mid) (hok : r.1 = qeOk → Follows bus mid r.2 r' next)
    (hbad : r.1 ≠ qeOk → r'.1 ≠ qeOk) : Follows bus plan log r' next := by
  by_cases hret : r.1 = qeOk
  · have hnext := hok hret
    refine ⟨?_, fun hret' => (h.serves hret).trans (hnext.serves hret')⟩
    rw [h.refuses, hnext.refuses]
    exact or_iff_right (not_not_intro hret)
  · have hret' := hbad hret
    exact ⟨h.refuses.trans (iff_of_true (.inl hret) (.inl hret')), fun hok => absurd hok hret'⟩

theorem follows_refuse (bus : Bus) (log : Log) (next : Plan) :
    Follows bus .refuse log (.code .qeErange, log ++ [.outOfBound]) next :=
  ⟨iff_of_true trivial (.inl (by simp)), fun hok => absurd hok (by simp)⟩

theorem follows_latch (bus : Bus) (log : Log) (en : Bool) (next : Plan) :
    Follows bus (.latch en true next) log (bus.spiflashWriteEnable log en true) next := by
  obtain ⟨hret, hlog⟩ := writeEnable_spec bus log en true
  constructor
  · rw [hlog, ne_eq, hret, Bus.Refuses]
    exact or_congr (and_iff_right rfl) Iff.rfl
  · intro _
    rw [hlog, succeed_afterLatch, Bus.Serves, and_assoc, and_assoc]

theorem follows_off (bus : Bus) (log : Log) (next : Plan) :
    Follows bus (.latch false false next) log
      (qeOk, (bus.spiflashWriteEnable log false false).2) next := by
  obtain ⟨-, hlog⟩ := writeEnable_spec bus log false false
  constructor
  · rw [hlog, Bus.Refuses]
    exact or_congr (iff_of_false (fun h => Bool.false_ne_true h.1) (not_not_intro rfl)) Iff.rfl
  · intro _
    rw [hlog, succeed_afterLatch, Bus.Serves, and_assoc, and_assoc]

theorem follows_lost {role : Role} {sent : List UInt8} (hanswer : bus.answer log sent = none)
    (lost next : Plan) :
    Follows bus (.command role sent lost next) log
      (qeOk, log ++ [.transfer role sent none]) lost := by
  constructor
  · rw [Bus.Refuses, hanswer]
    exact (or_iff_right (not_not_intro rfl)).symm
  · intro _
    refine iff_of_false (fun h => ?_) fun h => Bool.false_ne_true (succeed_one.mp h.1).2
    obtain ⟨b, hsome, -⟩ := h.2
    rw [hanswer] at hsome
    cases hsome

theorem follows_arrived {role : Role} {sent : List UInt8} {b : UInt8}
    (hanswer : bus.answer log sent = some b) (lost next : Plan) :
    Follows bus (.command role sent lost next) log
      (qeOk, bus.polled (log ++ [.transfer role sent (some b)])) next := by
  constructor
  · rw [Bus.Refuses, hanswer]
    exact (or_iff_right (not_not_intro rfl)).symm
  · intro _
    have hserves : bus.Serves (.command role sent lost next) log ↔
        (bus.answer (log ++ [.transfer role sent (some b)]) [cmdReadSr]).isSome ∧
          bus.Serves next (bus.polled (log ++ [.transfer role sent (some b)])) := by
      rw [Bus.Serves, hanswer]
      simp
    rw [hserves, Bus.polled, succeed_one, succeed_one]
    simp [and_assoc]

/-- A turn of a loop goes along its plan if what comes behind it does: the latch, one command and to
wait for it.  A lost command ends the loop, with the code of the latch. -/
theorem follows_turn (bus : Bus) (log : Log) (role : Role) (sent : List UInt8) (mid next : Plan)
    (more : Ret → Log → Ret × Log) (hmore : ∀ log, Follows bus mid log (more qeOk log) next) :
    let latch := bus.spiflashWriteEnable log true true
    let command := bus.transfer latch.2 role sent
    let wait := bus.spiflashWaitBusy command.2
    Follows bus (.latch true true (.command role sent next mid)) log
      (if latch.1 ≠ qeOk then latch
        else if command.1.isNone then (latch.1, command.2)
        else if wait.1 ≠ qeOk then wait
        else more wait.1 wait.2) next := by
  have hlatch := fun next => follows_latch bus log true next
  generalize bus.spiflashWriteEnable log true true = latch at hlatch
  obtain ⟨ret, log⟩ := latch
  refine (hlatch _).trans (fun hret => ?_) fun hret => ?_
  · obtain rfl : ret = qeOk := hret
    unfold Bus.transfer
    rcases Option.eq_none_or_eq_some (bus.answer log sent) with hanswer | ⟨b, hanswer⟩
    · simp only [ne_eq, not_true_eq_false, if_false, hanswer, Option.isNone_none, if_true]
      exact follows_lost hanswer _ _
    · simp only [ne_eq, not_true_eq_false, if_false, hanswer, Option.isNone_some,
        Bool.false_eq_true, waitBusy_eq]
      exact (follows_arrived hanswer _ _).trans (fun _ => hmore _) fun hret => absurd rfl hret
  · rw [if_pos hret]
    exact hret

theorem pageLoop_follows (bus : Bus) (flash : SpiflashDevice) {gran : Nat} (hgran : 0 < gran)
    (buffer : Cells UInt8) (next : Plan) : ∀ (size : Nat) (log : Log) (addr : UInt32) (pos : Nat),
      Follows bus (flash.pagePlan gran hgran buffer addr size pos next) log
        (bus.pageLoop flash gran hgran buffer log addr size pos) next := by
  intro size
  induction size using Nat.strong_induction_on with
  | _ size ih =>
      intro log addr pos
      rw [Bus.pageLoop, SpiflashDevice.pagePlan]
      by_cases hzero : size = 0
      · rw [if_pos hzero, if_pos hzero]
        exact .refl bus next log
      rw [if_neg hzero, if_neg hzero]
      obtain ⟨writeSize, hsize⟩ : ∃ writeSize, (if toBoundary gran addr.toNat < size then
        toBoundary gran addr.toNat else size) = writeSize := ⟨_, rfl⟩
      have hpos := toBoundary_pos hgran addr.toNat
      have hless : size - writeSize < size := by
        rw [← hsize]
        split <;> omega
      simp only [hsize]
      exact follows_turn bus log .page _ _ next
        (fun _ log => bus.pageLoop flash gran hgran buffer log (addr + UInt32.ofNat writeSize)
          (size - writeSize) (pos + writeSize)) fun log => ih _ hless log _ _

/-- **`spiflash_page256_or_1byte_write`** goes along its plan. -/
theorem pageWrite_follows (bus : Bus) (flash : SpiflashDevice) {gran : Nat} (hgran : 0 < gran)
    (buffer : Cells UInt8) (next : Plan) (log : Log) (addr : UInt32) (size pos : Nat) :
    Follows bus (flash.pageWritePlan addr size gran hgran buffer pos next) log
      (bus.spiflashPage256Or1byteWrite flash log addr size gran hgran buffer pos) next := by
  unfold Bus.spiflashPage256Or1byteWrite SpiflashDevice.pageWritePlan
  by_cases hbound : outOfBound flash addr size = true
  · rw [if_pos hbound, if_pos hbound]
    exact follows_refuse bus log next
  · rw [if_neg hbound, if_neg hbound]
    have hloop := pageLoop_follows bus flash hgran buffer (.latch false false next) size log addr
      pos
    generalize bus.pageLoop flash gran hgran buffer log addr size pos = pages at hloop ⊢
    refine hloop.trans (fun hret => ?_) id
    dsimp only
    rw [show pages.1 = qeOk from hret]
    exact follows_off bus pages.2 next

/-- The words: they come to their end, or one is lost. -/
theorem wordLoop_follows (bus : Bus) (flash : SpiflashDevice) (buffer : Cells UInt8) (lost : Plan)
    (next : UInt32 → Nat → Nat → Plan) : ∀ (size : Nat) (firstWrite : Bool) (w : Bus.Rest),
      w.size = size → ∃ rest : Bus.Rest,
        bus.wordLoop flash buffer qeOk firstWrite w = (some qeOk, rest) ∧
            Follows bus (flash.wordPlan buffer firstWrite w.addr w.size w.pos lost next) w.log
              (qeOk, rest.log) lost ∨
          bus.wordLoop flash buffer qeOk firstWrite w = (none, rest) ∧
            Follows bus (flash.wordPlan buffer firstWrite w.addr w.size w.pos lost next) w.log
              (qeOk, rest.log) (next rest.addr rest.size rest.pos) := by
  intro size
  induction size using Nat.strong_induction_on with
  | _ size ih =>
      rintro firstWrite w rfl
      rw [Bus.wordLoop, SpiflashDevice.wordPlan]
      by_cases hsmall : w.size < 2
      · rw [if_pos hsmall, if_pos hsmall]
        exact ⟨w, .inr ⟨rfl, .refl bus _ w.log⟩⟩
      rw [if_neg hsmall, if_neg hsmall]
      obtain ⟨role, hrole⟩ : ∃ role, (if firstWrite then Role.firstWord else .word) = role :=
        ⟨_, rfl⟩
      obtain ⟨sent, hsent⟩ : ∃ sent, (if firstWrite then
        cmdWordProgram :: (makeAddressByteArray flash w.addr ++ buffer.slice w.pos 2)
        else cmdWordProgram :: buffer.slice w.pos 2) = sent := ⟨_, rfl⟩
      have htransfer : (if firstWrite then bus.transfer w.log .firstWord
          (cmdWordProgram :: (makeAddressByteArray flash w.addr ++ buffer.slice w.pos 2))
          else bus.transfer w.log .word (cmdWordProgram :: buffer.slice w.pos 2)) =
            bus.transfer w.log role sent := by
        rw [← hrole, ← hsent]
        cases firstWrite <;> rfl
      rw [htransfer, hrole, hsent]
      unfold Bus.transfer
      rcases Option.eq_none_or_eq_some (bus.answer w.log sent) with hanswer | ⟨b, hanswer⟩
      · simp only [hanswer, Option.isNone_none, if_true]
        exact ⟨_, .inl ⟨rfl, follows_lost hanswer _ _⟩⟩
      · simp only [hanswer, Option.isNone_some, Bool.false_eq_true, if_false, waitBusy_eq, ne_eq,
          not_true_eq_false]
        have harrived : ∀ mid, Follows bus (.command role sent lost mid) w.log
            (qeOk, bus.polled (w.log ++ [.transfer role sent (some b)])) mid :=
          fun mid => follows_arrived hanswer lost mid
        obtain ⟨rest, ⟨heq, hrest⟩ | ⟨heq, hrest⟩⟩ := ih (w.size - 2) (by omega) false
          ⟨bus.polled (w.log ++ [.transfer role sent (some b)]), w.addr + 2, w.size - 2,
            w.pos + 2⟩ rfl
        · exact ⟨rest, .inl ⟨heq, (harrived _).trans (fun _ => hrest) fun hret => absurd rfl hret⟩⟩
        · exact ⟨rest, .inr ⟨heq, (harrived _).trans (fun _ => hrest) fun hret => absurd rfl hret⟩⟩

theorem Follows.aaiExit (h : Follows bus plan log r next) :
    Follows bus plan log (bus.aaiExit r) next := by
  unfold Bus.aaiExit
  by_cases hret : r.1 = qeOk
  · rwa [if_neg (not_not_intro hret)]
  · rw [if_pos hret]
    exact h.trans (fun hok => absurd hok hret) id

/-- The words of `spiflash_aai_write` and what comes after them go along their plan. -/
theorem aaiWords_follows (bus : Bus) (flash : SpiflashDevice) (buffer : Cells UInt8) (next : Plan)
    (w : Bus.Rest) :
    Follows bus (flash.aaiWordsPlan buffer w.addr w.size w.pos next) w.log
      (bus.aaiWords flash buffer w) next := by
  unfold Bus.aaiWords SpiflashDevice.aaiWordsPlan
  have hlatch := fun next => follows_latch bus w.log true next
  generalize bus.spiflashWriteEnable w.log true true = latch at hlatch ⊢
  obtain ⟨ret, log⟩ := latch
  by_cases hret : ret = qeOk
  · subst hret
    simp only [ne_eq, not_true_eq_false, if_false]
    refine (hlatch _).trans (fun _ => ?_) fun hret => absurd rfl hret
    obtain ⟨rest, ⟨heq, hrest⟩ | ⟨heq, hrest⟩⟩ := wordLoop_follows bus flash buffer next
      (fun addr size pos => .latch false true
        (if size = 1 then flash.pageWritePlan addr 1 1 Nat.one_pos buffer pos next else next))
      w.size true { w with log := log } rfl
    · rw [heq]
      exact hrest.aaiExit
    · rw [heq]
      refine Follows.aaiExit (hrest.trans (fun _ => ?_) fun hret => absurd rfl hret)
      -- the odd byte behind the words
      refine (follows_latch bus rest.log false _).trans (fun hoff => ?_) fun hoff => ?_
      · by_cases hodd : rest.size = 1
        · rw [if_pos hodd, if_pos ⟨hoff, hodd⟩]
          exact pageWrite_follows bus flash Nat.one_pos buffer next _ _ _ _
        · rw [if_neg hodd, if_neg fun h => hodd h.2, hoff]
          exact .refl bus next _
      · rwa [if_neg fun h => hoff h.1]
  · simp only [ne_eq, hret, not_false_eq_true, if_true]
    exact ((hlatch _).trans (fun hok => absurd hok hret) id).aaiExit

/-- **`spiflash_aai_write`** goes along its plan. -/
theorem aaiWrite_follows (bus : Bus) (flash : SpiflashDevice) (log : Log) (addr : UInt32)
    (size : UInt64) (buffer : Cells UInt8) (next : Plan) :
    Follows bus (flash.aaiPlan addr size buffer next) log
      (bus.spiflashAaiWrite flash log addr size buffer) next := by
  unfold Bus.spiflashAaiWrite SpiflashDevice.aaiPlan
  by_cases hbound : outOfBound flash addr size.toNat = true
  · rw [if_pos hbound, if_pos hbound]
    exact follows_refuse bus log next
  rw [if_neg hbound, if_neg hbound]
  by_cases hodd : addr.toNat % 2 ≠ 0
  · rw [if_pos hodd, if_pos hodd]
    have hfirst := fun next => pageWrite_follows bus flash Nat.one_pos buffer next log addr 1 0
    generalize bus.spiflashPage256Or1byteWrite flash log addr 1 1 Nat.one_pos buffer 0 = first
      at hfirst ⊢
    obtain ⟨ret, log⟩ := first
    by_cases hret : ret = qeOk
    · subst hret
      simp only [ne_eq, not_true_eq_false, if_false]
      exact (hfirst _).trans (fun _ => aaiWords_follows bus flash buffer next
        ⟨log, addr + 1, (size - 1).toNat, 1⟩) fun hret => absurd rfl hret
    · simp only [ne_eq, hret, not_false_eq_true, if_true]
      exact ((hfirst _).trans (fun hok => absurd hok hret) id).aaiExit
  · rw [if_neg hodd, if_neg hodd]
    exact aaiWords_follows bus flash buffer next ⟨log, addr, size.toNat, 0⟩

/-- **`qe_spiflash_chip_erase`** goes along its plan. -/
theorem chipErase_follows (bus : Bus) (flash : SpiflashDevice) (log : Log) (next : Plan) :
    Follows bus (flash.chipErasePlan next) log (bus.qeSpiflashChipErase flash log) next := by
  unfold Bus.qeSpiflashChipErase SpiflashDevice.chipErasePlan
  obtain ⟨sent, hsent⟩ : ∃ sent,
    (if maskExst flash.chip.writeMode flashWmDualBuffer then [cmdEraseChip, 0x94, 0x80, 0x9A]
      else [cmdEraseChip]) = sent := ⟨_, rfl⟩
  simp only [hsent]
  have hlatch := fun next => follows_latch bus log true next
  generalize bus.spiflashWriteEnable log true true = latch at hlatch ⊢
  obtain ⟨ret, log⟩ := latch
  refine (hlatch _).trans (fun hret => ?_) fun hret => ?_
  · simp only [show ret = qeOk from hret, ne_eq, not_true_eq_false, if_false, Bus.transfer]
    rcases Option.eq_none_or_eq_some (bus.answer log sent) with hanswer | ⟨b, hanswer⟩
    · simp only [hanswer, Option.isNone_none, if_true]
      exact (follows_lost hanswer _ _).trans (fun _ => follows_off bus _ next)
        fun hret => absurd rfl hret
    · simp only [hanswer, Option.isNone_some, Bool.false_eq_true, if_false, waitBusy_eq]
      exact (follows_arrived hanswer _ _).trans (fun _ => follows_off bus _ next)
        fun hret => absurd rfl hret
  · rw [if_pos (show ret ≠ qeOk from hret)]
    exact hret

theorem eraseLoop_follows (bus : Bus) (flash : SpiflashDevice) (next : Plan) :
    ∀ (size : Nat) (log : Log) (addr : UInt32),
      Follows bus (flash.sectorPlan addr size next) log (bus.eraseLoop flash log addr size) next := by
  intro size
  induction size using Nat.strong_induction_on with
  | _ size ih =>
      intro log addr
      rw [Bus.eraseLoop, SpiflashDevice.sectorPlan]
      by_cases hzero : size = 0
      · rw [if_pos hzero, if_pos hzero]
        exact .refl bus next log
      rw [if_neg hzero, if_neg hzero]
      have hpos := toBoundary_pos flash.chip.granPos addr.toNat
      generalize toBoundary flash.chip.eraseGran.toNat addr.toNat = step at hpos ⊢
      refine follows_turn bus log .erase _ _ next
        (fun ret log => if step < size then
            bus.eraseLoop flash log (addr + UInt32.ofNat step) (size - step)
          else (ret, log)) fun log => ?_
      by_cases hmore : step < size
      · rw [if_pos hmore, if_pos hmore]
        exact ih _ (by omega) _ _
      · rw [if_neg hmore, if_neg hmore]
        exact .refl bus next _

/-- **`qe_spiflash_erase`** goes along its plan. -/
theorem erase_follows (bus : Bus) (flash : SpiflashDevice) (log : Log) (addr : UInt32)
    (size : UInt64) (next : Plan) :
    Follows bus (flash.erasePlan addr size next) log (bus.qeSpiflashErase flash log addr size)
      next := by
  unfold Bus.qeSpiflashErase SpiflashDevice.erasePlan
  by_cases hbound : outOfBound flash addr size.toNat = true
  · rw [if_pos hbound, if_pos hbound]
    exact follows_refuse bus log next
  rw [if_neg hbound, if_neg hbound]
  by_cases hchip : addr = 0 ∧ size.toNat = flash.chip.capacity.toNat
  · rw [if_pos hchip, if_pos hchip]
    exact chipErase_follows bus flash log next
  · rw [if_neg hchip, if_neg hchip]
    have hloop := eraseLoop_follows bus flash (.latch false false next) size.toNat log addr
    generalize bus.eraseLoop flash log addr size.toNat = sectors at hloop ⊢
    refine hloop.trans (fun hret => ?_) id
    dsimp only
    rw [show sectors.1 = qeOk from hret]
    exact follows_off bus sectors.2 next

/-- **`qe_spiflash_write`** goes along its plan. -/
theorem write_follows (bus : Bus) (flash : SpiflashDevice) (log : Log) (addr : UInt32)
    (size : UInt64) (buffer : Cells UInt8) :
    Follows bus (flash.writePlan addr size buffer) log
      (bus.qeSpiflashWrite flash log addr size buffer) .done := by
  unfold Bus.qeSpiflashWrite SpiflashDevice.writePlan
  have herase := fun next => erase_follows bus flash log addr size next
  generalize bus.qeSpiflashErase flash log addr size = erase at herase ⊢
  obtain ⟨ret, log⟩ := erase
  refine (herase _).trans (fun hret => ?_) fun hret => ?_
  · obtain rfl : ret = qeOk := hret
    simp only [ne_eq, not_true_eq_false, if_false]
    by_cases hpage : maskExst flash.chip.writeMode flashWmPage256b = true
    · rw [if_pos hpage, if_pos hpage]
      exact pageWrite_follows bus flash Bus.page_pos buffer .done _ _ _ _
    rw [if_neg hpage, if_neg hpage]
    by_cases haai : maskExst flash.chip.writeMode flashWmAai = true
    · rw [if_pos haai, if_pos haai]
      exact aaiWrite_follows bus flash _ _ _ _ _
    · rw [if_neg haai, if_neg haai]
      exact .refl bus .done _
  · simpa only [if_pos (show ret ≠ qeOk from hret)] using hret

end Awoke.Qe
