/-
What the flash driver erases.

The loop goes from boundary to boundary, so the sectors of its commands are those that the range
touches, one after the other; it is stopped exactly if it returns an error.
-/
import Awoke.Lib.Sectors
import Awoke.Proofs.SpiBus

namespace Awoke.Qe

open Sectors (touched touched_nodup mem_touched)

variable {bus : Bus} {flash : SpiflashDevice} {log es as bs : Log} {r : Ret × Log}

/-- The roles of a step that erases sectors. -/
def Role.sectors : Role → Bool
  | .latch _ _ | .status | .erase => true
  | _ => false

theorem Role.sectors_of_quiet : ∀ role : Role, role.quiet = true → role.sectors = true := by
  rintro (_ | _ | _ | _ | _ | _ | _) h
  all_goals first | rfl | exact absurd h (by decide)

theorem toBoundary_add {gran : Nat} (hgran : 0 < gran) (addr : Nat) :
    addr + toBoundary gran addr = Sectors.boundary gran addr := by
  have hdiv := Nat.div_add_mod addr gran
  have hlt := Nat.mod_lt addr hgran
  unfold Sectors.boundary
  rw [Nat.add_mul, Nat.one_mul, Nat.mul_comm]
  unfold toBoundary
  split <;> omega

/-- What a step that erases sectors adds to the log. -/
structure Erased (bus : Bus) (log : Log) (r : Ret × Log) (es : Log) : Prop where
  log_eq : r.2 = log ++ es
  did : Did bus log es (r.1 ≠ qeOk)
  roles : OfRoles Role.sectors es
  inside : .outOfBound ∉ es

theorem erases_one {addr : UInt32} (haddr : flash.Reaches addr) (cmd b : UInt8) :
    flash.erases [.transfer .erase (cmd :: makeAddressByteArray flash addr) (some b)] =
      [addr.toNat / flash.chip.eraseGran.toNat] := by
  have hwire := (wire_make haddr cmd []).1
  rw [List.append_nil] at hwire
  rw [SpiflashDevice.erases, hwire]
  rfl

/-- **The loop of `qe_spiflash_erase`** erases the sectors of the range it is given, in order. -/
theorem eraseLoop_erased (bus : Bus) (hfits : flash.Fits) :
    ∀ (size : Nat) (log : Log) (addr : UInt32), ∃ es,
      Erased bus log (bus.eraseLoop flash log addr size) es ∧
        (addr.toNat + size ≤ flash.chip.capacity.toNat →
          (bus.eraseLoop flash log addr size).1 = qeOk → Succeed es →
            flash.erases es = touched flash.chip.eraseGran.toNat addr.toNat size) := by
  intro size
  induction size using Nat.strong_induction_on with
  | _ size ih =>
      intro log addr
      have hcapacity := flash.chip.capacity.toNat_lt
      have hgran := flash.chip.granPos
      rw [Bus.eraseLoop]
      by_cases hzero : size = 0
      · rw [if_pos hzero, hzero]
        exact ⟨[], ⟨(List.append_nil log).symm, did_nil.congr (by simp), ofRoles_nil _,
          List.not_mem_nil⟩, fun _ _ _ => rfl⟩
      rw [if_neg hzero]
      obtain ⟨sent, hsent⟩ : ∃ sent,
        flash.chip.eraseGranCmd :: makeAddressByteArray flash addr = sent := ⟨_, rfl⟩
      rcases turn_cases bus .erase (by simp) log sent with
        ⟨ret, es, hlatch, hret, hdid, hquiet⟩ | ⟨es, hlatch, hanswer, hdid, hquiet⟩ |
          ⟨es, wait, b, hlatch, hanswer, hwait, hdid, hquiet, hquiet'⟩
      · simp only [hlatch, ne_eq, hret, not_false_eq_true, if_true]
        exact ⟨es, ⟨rfl, hdid.congr (iff_of_true trivial hret),
          hquiet.roles.mono Role.sectors_of_quiet, hquiet.inside⟩, fun _ hok => hok.elim⟩
      · -- the code is still that of the latch
        simp only [hlatch, hsent, Bus.transfer, hanswer, ne_eq, not_true_eq_false, if_false,
          Option.isNone_none, if_true, List.append_assoc]
        refine ⟨es ++ [.transfer .erase sent none], ⟨rfl, hdid.congr (by simp),
          (hquiet.roles.mono Role.sectors_of_quiet).append (ofRoles_one rfl _ _), ?_⟩,
          fun _ _ hsucceed => ?_⟩
        · simp [hquiet.inside]
        · exact absurd (hsucceed (.transfer .erase sent none) (by simp)) Bool.false_ne_true
      · simp only [hlatch, hsent, Bus.transfer, hanswer, hwait, ne_eq, not_true_eq_false, if_false,
          Option.isNone_some, Bool.false_eq_true]
        have hturn : Erased bus log (qeOk, log ++ (es ++ [.transfer .erase sent (some b)] ++ wait))
            (es ++ [.transfer .erase sent (some b)] ++ wait) := by
          refine ⟨rfl, hdid.congr (by simp),
            ((hquiet.roles.mono Role.sectors_of_quiet).append (ofRoles_one rfl _ _)).append
              (hquiet'.roles.mono Role.sectors_of_quiet), ?_⟩
          simp [hquiet.inside, hquiet'.inside]
        have hsector : addr.toNat + size ≤ flash.chip.capacity.toNat →
            flash.erases (es ++ [.transfer .erase sent (some b)] ++ wait) =
              [addr.toNat / flash.chip.eraseGran.toNat] := by
          intro hend
          rw [erases_append, erases_append, erases_skip hquiet.not_erases,
            erases_skip hquiet'.not_erases, List.append_nil, List.nil_append, ← hsent,
            erases_one (hfits addr (by omega))]
        have hboundary := toBoundary_add hgran addr.toNat
        have hpos := toBoundary_pos hgran addr.toNat
        generalize toBoundary flash.chip.eraseGran.toNat addr.toNat = step at hboundary hpos ⊢
        by_cases hmore : step < size
        · rw [if_pos hmore]
          obtain ⟨rest, herased, hsectors⟩ := ih (size - step) (by omega)
            (log ++ (es ++ [.transfer .erase sent (some b)] ++ wait)) (addr + UInt32.ofNat step)
          refine ⟨es ++ [.transfer .erase sent (some b)] ++ wait ++ rest,
            ⟨by rw [herased.log_eq, List.append_assoc log],
              (hturn.did.append herased.did).congr (by simp), hturn.roles.append herased.roles, ?_⟩,
            fun hend hok hsucceed => ?_⟩
          · rw [List.mem_append, not_or]
            exact ⟨hturn.inside, herased.inside⟩
          · have hnext : (addr + UInt32.ofNat step).toNat = addr.toNat + step :=
              addr_add (by omega)
            have hlater := hsectors (by omega) hok (succeed_append.mp hsucceed).2
            have hrange := Sectors.touched_beyond (a := addr.toNat) (n := size) hgran (by omega)
            rw [← hboundary, Nat.add_sub_add_left] at hrange
            rw [erases_append, hsector hend, hlater, hnext, hrange]
            rfl
        · rw [if_neg hmore]
          refine ⟨_, hturn, fun hend _ _ => ?_⟩
          rw [hsector hend, Sectors.touched_within hgran (by omega) (by omega)]

/-- `qe_spiflash_erase` of a part of the chip is its loop, and the latch is put off. -/
theorem erase_part (bus : Bus) (flash : SpiflashDevice) (log : Log) {addr : UInt32} {size : UInt64}
    (hbound : outOfBound flash addr size.toNat = false)
    (hpart : ¬(addr = 0 ∧ size.toNat = flash.chip.capacity.toNat)) : ∃ off,
    bus.qeSpiflashErase flash log addr size =
        ((bus.eraseLoop flash log addr size.toNat).1,
          (bus.eraseLoop flash log addr size.toNat).2 ++ off) ∧
      Did bus (bus.eraseLoop flash log addr size.toNat).2 off False ∧ Quiet off := by
  obtain ⟨off, hlog, hoff⟩ :=
    writeEnable_unchecked bus (bus.eraseLoop flash log addr size.toNat).2 false
  refine ⟨off, ?_, hoff⟩
  unfold Bus.qeSpiflashErase
  rw [hbound, if_neg Bool.false_ne_true, if_neg hpart]
  exact Prod.ext rfl hlog

/-- Nothing stops the loop where the latch goes on. -/
theorem eraseLoop_unstopped (hon : ∀ log, (bus.spiflashWriteEnable log true true).1 = qeOk) :
    ∀ (size : Nat) (log : Log) (addr : UInt32), (bus.eraseLoop flash log addr size).1 = qeOk := by
  intro size
  induction size using Nat.strong_induction_on with
  | _ size ih =>
      intro log addr
      have hpos := toBoundary_pos flash.chip.granPos addr.toNat
      have hwait : ∀ log, (bus.spiflashWaitBusy log).1 = qeOk := by
        intro log
        obtain ⟨es, hwait, -⟩ := waitBusy_did bus log
        rw [hwait]
      rw [Bus.eraseLoop]
      split
      · rfl
      · simp only [hon, ne_eq, not_true_eq_false, if_false, hwait]
        split
        · rfl
        · split
          · exact ih _ (by omega) _ _
          · rfl

/-- The sectors a call erases are those of the range, each once, and it returns `qe_ok`. -/
structure ErasesRange (chip : SpiflashChip) (addr : UInt32) (size : UInt64) (r : Ret × Log) :
    Prop where
  ok : r.1 = qeOk
  roles : OfRoles Role.sectors r.2
  once : ((qeSpiflashProbe chip).erases r.2).Nodup
  sectors : ∀ s, s ∈ (qeSpiflashProbe chip).erases r.2 ↔
    ∃ x, addr.toNat ≤ x ∧ x < addr.toNat + size.toNat ∧ x / chip.eraseGran.toNat = s

/-- **Where transfers succeed and the status shows that the latch is on, exactly the sectors of the
range are erased, each once.** -/
theorem erase_touched (chip : SpiflashChip) (bus : Bus) (hsucceeds : bus.Succeeds)
    (hon : bus.ShowsOn) (addr : UInt32) (size : UInt64)
    (hend : addr.toNat + size.toNat ≤ chip.capacity.toNat)
    (hpart : ¬(addr = 0 ∧ size.toNat = chip.capacity.toNat)) :
    ErasesRange chip addr size (bus.qeSpiflashErase (qeSpiflashProbe chip) [] addr size) := by
  obtain ⟨off, heq, hoff, hquiet⟩ := erase_part bus (qeSpiflashProbe chip) []
    (outOfBound_inside hend) hpart
  obtain ⟨es, herased, hsectors⟩ :=
    eraseLoop_erased bus (qeSpiflashProbe_fits chip) size.toNat [] addr
  have hok : (bus.eraseLoop (qeSpiflashProbe chip) [] addr size.toNat).1 = qeOk :=
    eraseLoop_unstopped (fun log => hsucceeds.writeEnable hon log true) _ _ _
  have htouched := hsectors hend hok (herased.did.succeed hsucceeds)
  have hall : (qeSpiflashProbe chip).erases
      ((bus.eraseLoop (qeSpiflashProbe chip) [] addr size.toNat).2 ++ off) =
        touched chip.eraseGran.toNat addr.toNat size.toNat := by
    rw [herased.log_eq, List.nil_append, erases_append, htouched, erases_skip hquiet.not_erases,
      List.append_nil]
    rfl
  rw [heq]
  refine ⟨hok, ?_, ?_, fun s => ?_⟩
  · rw [herased.log_eq, List.nil_append]
    exact herased.roles.append (hquiet.roles.mono Role.sectors_of_quiet)
  · rw [hall]
    exact touched_nodup _ _ _
  · rw [hall]
    exact mem_touched chip.granPos

/-- A bus that takes everything and answers with the same byte, as `xxx_spi_xfer` does. -/
def constBus (b : UInt8) : Bus where
  answer _ _ := some b
  stale _ := (qeOk, 0)

theorem erase_touched_two : ErasesRange w25q256fv 4095 2
    ((constBus 0xFF).qeSpiflashErase (qeSpiflashProbe w25q256fv) [] 4095 2) :=
  erase_touched w25q256fv (constBus 0xFF) (fun _ _ => rfl)
    (fun _ _ _ _ h => Option.some_injective _ h ▸ by decide) 4095 2 (by decide) (by decide)

/-- **A chip that does not show the latch**: every transfer succeeds, and nothing is erased. -/
theorem erase_touched_hidden :
    let r := (constBus 0).qeSpiflashErase (qeSpiflashProbe w25q256fv) [] 4095 2
    (constBus 0).Succeeds ∧ (qeSpiflashProbe w25q256fv).erases r.2 = [] ∧
      ¬ErasesRange w25q256fv 4095 2 r := by
  have hnone : (qeSpiflashProbe w25q256fv).erases
      ((constBus 0).qeSpiflashErase (qeSpiflashProbe w25q256fv) [] 4095 2).2 = [] := by
    unfold Bus.qeSpiflashErase
    rw [Bus.eraseLoop]
    rfl
  refine ⟨fun _ _ => rfl, hnone, fun h => ?_⟩
  have hfirst := (h.sectors 0).mpr ⟨4095, by decide, by decide, by decide⟩
  rw [hnone] at hfirst
  exact absurd hfirst List.not_mem_nil

end Awoke.Qe
