/-
What the flash driver programs.

Each loop has one lemma, by induction on the bytes that are left: what it adds to the log, that
it is stopped exactly if it returns an error, and, inside the chip, that what goes over the bus
programs the bytes of the buffer one after the other.  A page program stays in its page, because
each one ends at a boundary at the latest.

The words go the same way, as long as the first byte of an odd address is one of the bytes to
write.
-/
import Awoke.Proofs.SpiBus

namespace Awoke.Qe

variable {bus : Bus} {flash : SpiflashDevice} {log es as bs : Log} {r : Ret × Log}

/-- What a step that writes adds to the log. -/
structure Wrote (bus : Bus) (log : Log) (r : Ret × Log) (es : Log) : Prop where
  log_eq : r.2 = log ++ es
  did : Did bus log es (r.1 ≠ qeOk)
  roles : OfRoles (fun role => !role.erases) es

/-- Inside the chip, it programs these bytes, each page on its own. -/
structure Programmed (flash : SpiflashDevice) (ret : Ret) (start : Nat) (data : List UInt8)
    (es : Log) : Prop where
  inside : .outOfBound ∉ es
  programs : ret = qeOk → Succeed es → ∀ next, ∃ next', ∀ more,
    flash.programs next (es ++ more) = bytesAt start data ++ flash.programs next' more
  pages : ∀ sent recv, .transfer .page sent recv ∈ es →
    flash.wireAddress sent % 256 + (flash.wirePayload sent).length ≤ 256

theorem Quiet.programmed (h : Quiet es) (ret : Ret) (start : Nat) :
    Programmed flash ret start [] es := by
  refine ⟨h.inside, fun _ _ next => ⟨next, programs_skip flash h.not_programs next⟩, ?_⟩
  intro sent recv hmem
  exact absurd (h.roles _ _ _ hmem) (by decide)

theorem Programmed.of_failed {ret : Ret} {start : Nat} {data data' : List UInt8}
    (h : Programmed flash ret start data es) (hfailed : ret = qeOk → ¬Succeed es) :
    Programmed flash ret start data' es :=
  ⟨h.inside, fun hret hsucceed => absurd hsucceed (hfailed hret), h.pages⟩

/-- One step after the other. -/
theorem Programmed.append {ret ret' : Ret} {start : Nat} {data more : List UInt8}
    (ha : Programmed flash ret start data as) (hret : ret' = qeOk → ret = qeOk)
    (hb : Programmed flash ret' (start + data.length) more bs) :
    Programmed flash ret' start (data ++ more) (as ++ bs) := by
  refine ⟨?_, fun hok hsucceed next => ?_, fun sent recv hmem => ?_⟩
  · rw [List.mem_append, not_or]
    exact ⟨ha.inside, hb.inside⟩
  · obtain ⟨hsa, hsb⟩ := succeed_append.mp hsucceed
    obtain ⟨next', hfirst⟩ := ha.programs (hret hok) hsa next
    obtain ⟨next'', hsecond⟩ := hb.programs hok hsb next'
    refine ⟨next'', fun rest => ?_⟩
    rw [List.append_assoc, hfirst, hsecond, bytesAt_append, List.append_assoc]
  · rcases List.mem_append.mp hmem with hmem | hmem
    · exact ha.pages sent recv hmem
    · exact hb.pages sent recv hmem

theorem Programmed.between {ret : Ret} {start : Nat} {data : List UInt8}
    (h : Programmed flash ret start data es) (ha : Quiet as) (hb : Quiet bs) :
    Programmed flash ret start data (as ++ es ++ bs) := by
  have hboth := ((ha.programmed ret start).append id h).append id (hb.programmed ret _)
  rwa [List.nil_append, List.append_nil] at hboth

/-! ### Pages -/

theorem programmed_page {addr : UInt32} (haddr : flash.Reaches addr) {data : List UInt8}
    (hpage : addr.toNat % 256 + data.length ≤ 256) (ret : Ret) (recv : Option UInt8) :
    Programmed flash ret addr.toNat data
      [.transfer .page (cmdPageProgram :: (makeAddressByteArray flash addr ++ data)) recv] := by
  obtain ⟨haddress, hpayload⟩ := wire_make haddr cmdPageProgram data
  refine ⟨by simp, fun _ hsucceed next => ⟨next, fun more => ?_⟩, fun sent recv' hmem => ?_⟩
  · have hsome := hsucceed _ List.mem_cons_self
    cases recv with
    | none => exact absurd hsome Bool.false_ne_true
    | some b =>
        rw [List.singleton_append, SpiflashDevice.programs, haddress, hpayload]
  · rw [List.mem_singleton, Event.transfer.injEq] at hmem
    rw [hmem.2.1, haddress, hpayload]
    exact hpage

/-- **The loop over pages** adds programs for the bytes it is given, in order. -/
theorem pageLoop_wrote (bus : Bus) (hfits : flash.Fits) {gran : Nat} (hpos : 0 < gran)
    (hgran : gran = 1 ∨ gran = 256) (buffer : Cells UInt8) :
    ∀ (size : Nat) (log : Log) (addr : UInt32) (pos : Nat), ∃ es,
      Wrote bus log (bus.pageLoop flash gran hpos buffer log addr size pos) es ∧
        (addr.toNat + size ≤ flash.chip.capacity.toNat →
          Programmed flash (bus.pageLoop flash gran hpos buffer log addr size pos).1 addr.toNat
            (buffer.slice pos size) es) := by
  intro size
  induction size using Nat.strong_induction_on with
  | _ size ih =>
      intro log addr pos
      have hcapacity := flash.chip.capacity.toNat_lt
      by_cases hzero : size = 0
      · rw [Bus.pageLoop, if_pos hzero, hzero]
        exact ⟨[], ⟨(List.append_nil log).symm, did_nil.congr (by simp), ofRoles_nil _⟩,
          fun _ => quiet_nil.programmed _ _⟩
      have hstep := toBoundary_pos hpos addr.toNat
      rw [Bus.pageLoop, if_neg hzero]
      generalize hn : (if toBoundary gran addr.toNat < size then toBoundary gran addr.toNat
        else size) = n
      obtain ⟨hlow, hhigh, hboundary⟩ : 0 < n ∧ n ≤ size ∧ n ≤ toBoundary gran addr.toNat := by
        rw [← hn]
        split <;> omega
      obtain ⟨sent, hsent⟩ : ∃ sent,
        cmdPageProgram :: (makeAddressByteArray flash addr ++ buffer.slice pos n) = sent := ⟨_, rfl⟩
      have hpage : addr.toNat + size ≤ flash.chip.capacity.toNat → ∀ ret recv,
          Programmed flash ret addr.toNat (buffer.slice pos n) [.transfer .page sent recv] := by
        intro hend ret recv
        rw [← hsent]
        refine programmed_page (hfits addr (by omega)) ?_ ret recv
        rw [Cells.slice_length]
        exact within_page hgran addr.toNat hboundary
      have hrole : ∀ recv, OfRoles (fun role => !role.erases) [.transfer .page sent recv] :=
        ofRoles_one rfl sent
      rcases turn_cases bus .page (by simp) log sent with
        ⟨ret, es, hlatch, hret, hdid, hquiet⟩ | ⟨es, hlatch, hanswer, hdid, hquiet⟩ |
          ⟨es, wait, b, hlatch, hanswer, hwait, hdid, hquiet, hquiet'⟩
      · simp only [hlatch, ne_eq, hret, not_false_eq_true, if_true]
        exact ⟨es, ⟨rfl, hdid.congr (iff_of_true trivial hret), hquiet.not_erases⟩,
          fun _ => (hquiet.programmed _ addr.toNat).of_failed fun hok => absurd hok hret⟩
      · -- the code is still that of the latch
        simp only [hlatch, hsent, Bus.transfer, hanswer, ne_eq, not_true_eq_false, if_false,
          Option.isNone_none, if_true, List.append_assoc]
        refine ⟨es ++ [.transfer .page sent none],
          ⟨rfl, hdid.congr (by simp), hquiet.not_erases.append (hrole none)⟩, fun hend => ?_⟩
        have hturn := (hpage hend qeOk none).between hquiet quiet_nil
        rw [List.append_nil] at hturn
        refine hturn.of_failed fun _ hsucceed => ?_
        exact absurd (hsucceed (.transfer .page sent none) (by simp)) Bool.false_ne_true
      · simp only [hlatch, hsent, Bus.transfer, hanswer, hwait, ne_eq, not_true_eq_false, if_false,
          Option.isNone_some, Bool.false_eq_true]
        obtain ⟨rest, hwrote, hprogrammed⟩ := ih (size - n) (by omega)
          (log ++ (es ++ [.transfer .page sent (some b)] ++ wait)) (addr + UInt32.ofNat n) (pos + n)
        refine ⟨es ++ [.transfer .page sent (some b)] ++ wait ++ rest,
          ⟨?_, (hdid.append hwrote.did).congr (by simp),
            ((hquiet.not_erases.append (hrole _)).append hquiet'.not_erases).append hwrote.roles⟩,
          fun hend => ?_⟩
        · rw [hwrote.log_eq, List.append_assoc log]
        · have hslice : buffer.slice pos size =
              buffer.slice pos n ++ buffer.slice ((pos + n : Nat) : Int) (size - n) := by
            rw [Int.natCast_add, ← Cells.slice_add, Nat.add_sub_cancel' hhigh]
          have hnext : (addr + UInt32.ofNat n).toNat = addr.toNat + n := addr_add (by omega)
          rw [hslice]
          refine ((hpage hend qeOk _).between hquiet hquiet').append (fun _ => rfl) ?_
          rw [Cells.slice_length, ← hnext]
          exact hprogrammed (by omega)

/-- **`spiflash_page256_or_1byte_write`** does so as well. -/
theorem pageWrite_wrote (bus : Bus) (hfits : flash.Fits) {gran : Nat} (hpos : 0 < gran)
    (hgran : gran = 1 ∨ gran = 256) (buffer : Cells UInt8) (log : Log) (addr : UInt32)
    (size pos : Nat) : ∃ es,
      Wrote bus log
        (bus.spiflashPage256Or1byteWrite flash log addr size gran hpos buffer pos) es ∧
      (addr.toNat + size ≤ flash.chip.capacity.toNat →
        Programmed flash
          (bus.spiflashPage256Or1byteWrite flash log addr size gran hpos buffer pos).1 addr.toNat
          (buffer.slice pos size) es) := by
  unfold Bus.spiflashPage256Or1byteWrite
  cases hbound : outOfBound flash addr size with
  | true =>
      refine ⟨[.outOfBound], ⟨rfl, (did_outOfBound log).congr (by simp), nofun⟩, fun hend => ?_⟩
      rw [outOfBound_inside hend] at hbound
      exact absurd hbound Bool.false_ne_true
  | false =>
      obtain ⟨es, hwrote, hprogrammed⟩ :=
        pageLoop_wrote bus hfits hpos hgran buffer size log addr pos
      obtain ⟨off, hlog, hoff, hquiet⟩ := writeEnable_unchecked bus
        (bus.pageLoop flash gran hpos buffer log addr size pos).2 false
      simp only [Bool.false_eq_true, if_false]
      rw [hwrote.log_eq] at hlog hoff
      refine ⟨es ++ off, ⟨?_, (hwrote.did.append hoff).congr (Iff.of_eq (or_false _)),
        hwrote.roles.append hquiet.not_erases⟩, fun hend => ?_⟩
      · rw [hwrote.log_eq, hlog, List.append_assoc]
      · exact (hprogrammed hend).between quiet_nil hquiet

/-! ### Words -/

/-- The steps that neither erase nor program a page. -/
def Role.wordy : Role → Bool
  | .page | .erase | .chipErase => false
  | _ => true

theorem Role.wordy_of_quiet : ∀ role : Role, role.quiet = true → role.wordy = true := by
  rintro (_ | _ | _ | _ | _ | _ | _) h
  all_goals first | rfl | exact absurd h (by decide)

/-- The transfer of a word: it has an address or goes behind the word before it. -/
theorem wordTransfer (bus : Bus) (flash : SpiflashDevice) (firstWrite : Bool) (addr : UInt32)
    (data : List UInt8) : ∃ role sent,
    (∀ log, (if firstWrite then
        bus.transfer log .firstWord (cmdWordProgram :: (makeAddressByteArray flash addr ++ data))
      else bus.transfer log .word (cmdWordProgram :: data)) = bus.transfer log role sent) ∧
    (role = .firstWord ∨ role = .word) ∧
    (flash.Reaches addr → addr.toNat + 2 < 2 ^ 32 → ∀ next,
      firstWrite = true ∨ next = some addr.toNat → ∀ b more,
        flash.programs next (.transfer role sent (some b) :: more) =
          bytesAt addr.toNat data ++ flash.programs (some (addr.toNat + 2)) more) := by
  cases firstWrite with
  | true =>
      refine ⟨.firstWord, _, fun _ => if_pos rfl, .inl rfl, fun haddr hlt next _ b more => ?_⟩
      obtain ⟨haddress, hpayload⟩ := wire_make haddr cmdWordProgram data
      rw [SpiflashDevice.programs, haddress, hpayload, Nat.mod_eq_of_lt hlt]
  | false =>
      refine ⟨.word, _, fun _ => if_neg Bool.false_ne_true, .inr rfl,
        fun _ hlt next hnext b more => ?_⟩
      rw [hnext.resolve_left Bool.false_ne_true, SpiflashDevice.programs, Nat.mod_eq_of_lt hlt]
      rfl

/-- What the loop over words adds to the log, and where it is afterwards. -/
structure Worded (bus : Bus) (flash : SpiflashDevice) (buffer : Cells UInt8) (firstWrite : Bool)
    (w : Bus.Rest) (r : Option Ret × Bus.Rest) (es : Log) : Prop where
  log_eq : r.2.log = w.log ++ es
  did : Did bus w.log es False
  roles : OfRoles Role.wordy es
  inside : .outOfBound ∉ es
  ended : r.1 = none ∨ r.1 = some qeOk ∧ ¬Succeed es
  rest : r.1 = none → r.2.size = w.size % 2 ∧ r.2.pos = w.pos + w.size / 2 * 2 ∧
    r.2.addr = w.addr + UInt32.ofNat (w.size / 2 * 2)
  programs : r.1 = none → w.addr.toNat + w.size ≤ flash.chip.capacity.toNat → ∀ next,
    firstWrite = true ∨ next = some w.addr.toNat → ∃ next', ∀ more,
      flash.programs next (es ++ more) =
        bytesAt w.addr.toNat (buffer.slice w.pos (w.size / 2 * 2)) ++ flash.programs next' more

/-- **The loop over words** adds words for the bytes it is given, in order, up to the last one if
their number is odd. -/
theorem wordLoop_worded (bus : Bus) (hfits : flash.Fits) (buffer : Cells UInt8) :
    ∀ (size : Nat) (firstWrite : Bool) (w : Bus.Rest), w.size = size → ∃ es,
      Worded bus flash buffer firstWrite w (bus.wordLoop flash buffer qeOk firstWrite w) es := by
  intro size
  induction size using Nat.strong_induction_on with
  | _ size ih =>
      intro firstWrite w hsize
      have hcapacity := flash.chip.capacity.toNat_lt
      rw [Bus.wordLoop]
      by_cases hlast : w.size < 2
      · have hnone : w.size / 2 * 2 = 0 := by omega
        rw [if_pos hlast]
        refine ⟨[], (List.append_nil _).symm, did_nil, ofRoles_nil _, List.not_mem_nil, .inl rfl,
          fun _ => ⟨(Nat.mod_eq_of_lt hlast).symm, ?_, ?_⟩,
          fun _ _ next _ => ⟨next, fun more => ?_⟩⟩
        all_goals rw [hnone]
        · rfl
        · exact (UInt32.add_zero _).symm
        · rfl
      obtain ⟨role, sent, htransfer, hrole, hprograms⟩ :=
        wordTransfer bus flash firstWrite w.addr (buffer.slice w.pos 2)
      have hlatch : ∀ en checked, role ≠ .latch en checked := by
        rcases hrole with rfl | rfl <;> simp
      have hwordy : role.wordy = true := by rcases hrole with rfl | rfl <;> rfl
      have hcommand := did_transfer bus hlatch w.log sent
      rw [if_neg hlast, htransfer]
      cases hanswer : bus.answer w.log sent with
      | none =>
          rw [hanswer] at hcommand
          simp only [Bus.transfer, hanswer, Option.isNone_none, if_true]
          refine ⟨_, rfl, hcommand, ofRoles_one hwordy _ _, by simp, .inr ⟨rfl, fun hsucceed => ?_⟩,
            fun hnone => absurd hnone (Option.some_ne_none _),
            fun hnone => absurd hnone (Option.some_ne_none _)⟩
          exact Bool.false_ne_true (hsucceed _ List.mem_cons_self)
      | some b =>
          rw [hanswer] at hcommand
          obtain ⟨wait, hwait, hwaited, hquiet⟩ :=
            waitBusy_did bus (w.log ++ [.transfer role sent (some b)])
          simp only [Bus.transfer, hanswer, hwait, Option.isNone_some, Bool.false_eq_true, if_false,
            ne_eq, not_true_eq_false]
          generalize hnext : Bus.Rest.mk (w.log ++ [.transfer role sent (some b)] ++ wait)
            (w.addr + 2) (w.size - 2) (w.pos + 2) = w'
          obtain ⟨es, hworded⟩ := ih (w.size - 2) (by omega) false w' (by rw [← hnext])
          have hhalf : w.size / 2 * 2 = 2 + w'.size / 2 * 2 := by
            rw [← hnext]
            show w.size / 2 * 2 = 2 + (w.size - 2) / 2 * 2
            omega
          have haddr' : w'.addr = w.addr + UInt32.ofNat 2 := by rw [← hnext]; rfl
          have hpos' : w'.pos = w.pos + 2 := by rw [← hnext]
          have hlog' : w'.log = w.log ++ ([.transfer role sent (some b)] ++ wait) := by
            rw [← hnext, List.append_assoc]
          refine ⟨[.transfer role sent (some b)] ++ wait ++ es, ?_, ?_, ?_, ?_, ?_,
            fun hnone => ?_, fun hnone hend next hfirst => ?_⟩
          · rw [hworded.log_eq, hlog', List.append_assoc]
          · have hboth := hcommand.append hwaited
            have hdid := hworded.did
            rw [hlog'] at hdid
            exact (hboth.append hdid).congr (by simp)
          · exact ((ofRoles_one hwordy _ _).append (hquiet.roles.mono Role.wordy_of_quiet)).append
              hworded.roles
          · simp [hquiet.inside, hworded.inside]
          · refine hworded.ended.imp id fun hlost => ⟨hlost.1, fun hsucceed => ?_⟩
            exact hlost.2 (succeed_append.mp hsucceed).2
          · obtain ⟨hsize', hpos'', haddr''⟩ := hworded.rest hnone
            refine ⟨?_, ?_, ?_⟩
            · rw [hsize', ← hnext]
              show (w.size - 2) % 2 = w.size % 2
              omega
            · rw [hpos'', hpos', hhalf, Nat.add_assoc]
            · rw [haddr'', haddr', hhalf, UInt32.ofNat_add, UInt32.add_assoc]
          · have haddr : w'.addr.toNat = w.addr.toNat + 2 := by rw [haddr', addr_add (by omega)]
            have hend' : w'.addr.toNat + w'.size ≤ flash.chip.capacity.toNat := by
              rw [haddr, ← hnext]
              show w.addr.toNat + 2 + (w.size - 2) ≤ _
              omega
            obtain ⟨next', hrest⟩ := hworded.programs hnone hend' (some (w.addr.toNat + 2))
              (.inr (congrArg some haddr.symm))
            refine ⟨next', fun more => ?_⟩
            rw [List.append_assoc, List.append_assoc, List.singleton_append,
              hprograms (hfits _ (by omega)) (by omega) next hfirst,
              programs_skip flash hquiet.not_programs, hrest, hhalf, Cells.slice_add, bytesAt_append, Cells.slice_length, haddr, hpos',
              List.append_assoc]
            rfl

theorem Worded.not_erases {w : Bus.Rest} {r : Option Ret × Bus.Rest} {firstWrite : Bool}
    {buffer : Cells UInt8} (h : Worded bus flash buffer firstWrite w r es) :
    OfRoles (fun role => !role.erases) es := by
  refine h.roles.mono fun role hwordy => ?_
  cases role <;> first | rfl | exact absurd hwordy (by decide)

theorem Worded.programmed {w : Bus.Rest} {r : Option Ret × Bus.Rest} {buffer : Cells UInt8}
    (h : Worded bus flash buffer true w r es) (hnone : r.1 = none)
    (hend : w.addr.toNat + w.size ≤ flash.chip.capacity.toNat) (ret : Ret) :
    Programmed flash ret w.addr.toNat (buffer.slice w.pos (w.size / 2 * 2)) es := by
  refine ⟨h.inside, fun _ _ next => h.programs hnone hend next (.inl rfl), fun sent recv hmem => ?_⟩
  exact absurd (h.roles _ _ _ hmem) (by decide)

theorem programmed_lost (hroles : OfRoles Role.wordy es) (hinside : .outOfBound ∉ es)
    (hfailed : ¬Succeed es) (ret : Ret) (start : Nat) (data : List UInt8) :
    Programmed flash ret start data es :=
  ⟨hinside, fun _ hsucceed => absurd hsucceed hfailed,
    fun sent recv hmem => absurd (hroles _ _ _ hmem) (by decide)⟩

theorem Wrote.aaiExit (h : Wrote bus log r es) : ∃ off,
    Wrote bus log (bus.aaiExit r) (es ++ off) ∧ (bus.aaiExit r).1 = r.1 ∧ Quiet off := by
  unfold Bus.aaiExit
  by_cases hret : r.1 = qeOk
  · rw [if_neg (not_not_intro hret)]
    exact ⟨[], (List.append_nil es).symm ▸ h, rfl, quiet_nil⟩
  · obtain ⟨off, hlog, hoff, hquiet⟩ := writeEnable_unchecked bus r.2 false
    rw [if_pos hret, hlog]
    rw [h.log_eq] at hoff ⊢
    exact ⟨off, ⟨List.append_assoc _ _ _, (h.did.append hoff).congr (Iff.of_eq (or_false _)),
      h.roles.append hquiet.not_erases⟩, rfl, hquiet⟩

/-- What comes after the words: the latch, and the last byte if their number is odd. -/
theorem lastByte_wrote (bus : Bus) (hfits : flash.Fits) (buffer : Cells UInt8) (w : Bus.Rest)
    (hlast : w.size < 2) : ∃ es,
    let r := bus.spiflashWriteEnable w.log false true
    let r' :=
      if r.1 = qeOk ∧ w.size = 1 then
        bus.spiflashPage256Or1byteWrite flash r.2 w.addr 1 1 Nat.one_pos buffer w.pos
      else r
    Wrote bus w.log r' es ∧
      (w.addr.toNat + w.size ≤ flash.chip.capacity.toNat →
        Programmed flash r'.1 w.addr.toNat (buffer.slice w.pos w.size) es) := by
  obtain ⟨es, hlog, hdid, hquiet⟩ := writeEnable_did bus w.log false true
  dsimp only
  by_cases hone : (bus.spiflashWriteEnable w.log false true).1 = qeOk ∧ w.size = 1
  · obtain ⟨byte, hwrote, hprogrammed⟩ :=
      pageWrite_wrote bus hfits Nat.one_pos (.inl rfl) buffer (w.log ++ es) w.addr 1 w.pos
    rw [if_pos hone, hlog]
    have hon := hdid.congr (q := False) (iff_of_false (fun h => h.2 hone.1) not_false)
    refine ⟨es ++ byte, ⟨?_, (hon.append hwrote.did).congr (by simp),
      hquiet.not_erases.append hwrote.roles⟩, fun hend => ?_⟩
    · rw [hwrote.log_eq, List.append_assoc]
    · rw [hone.2] at hend ⊢
      exact (hquiet.programmed qeOk _).append (fun _ => rfl) (hprogrammed hend)
  · rw [if_neg hone]
    refine ⟨es, ⟨hlog, hdid.congr (and_iff_right rfl), hquiet.not_erases⟩, fun _ => ?_⟩
    by_cases hret : (bus.spiflashWriteEnable w.log false true).1 = qeOk
    · have hnone : w.size = 0 := by
        have : w.size ≠ 1 := fun hsize => hone ⟨hret, hsize⟩
        omega
      rw [hnone]
      exact hquiet.programmed _ _
    · exact (hquiet.programmed _ w.addr.toNat).of_failed fun hok => absurd hok hret

/-- **The words of `spiflash_aai_write`**, with the latch and the last byte. -/
theorem aaiWords_wrote (bus : Bus) (hfits : flash.Fits) (buffer : Cells UInt8) (w : Bus.Rest) :
    ∃ es, Wrote bus w.log (bus.aaiWords flash buffer w) es ∧
      (w.addr.toNat + w.size ≤ flash.chip.capacity.toNat →
        Programmed flash (bus.aaiWords flash buffer w).1 w.addr.toNat (buffer.slice w.pos w.size)
          es) := by
  obtain ⟨on, hlog, hdid, hquiet⟩ := writeEnable_did bus w.log true true
  have hcapacity := flash.chip.capacity.toNat_lt
  unfold Bus.aaiWords
  by_cases hret : (bus.spiflashWriteEnable w.log true true).1 = qeOk
  · have hon := hdid.congr (q := False) (iff_of_false (fun h => h.2 hret) not_false)
    simp only [hret, hlog, ne_eq, not_true_eq_false, if_false]
    obtain ⟨words, hworded⟩ := wordLoop_worded bus hfits buffer _ true
      { w with log := w.log ++ on } rfl
    generalize hloop : bus.wordLoop flash buffer qeOk true { w with log := w.log ++ on } = loop
    rw [hloop] at hworded
    have hwords : Wrote bus w.log (qeOk, loop.2.log) (on ++ words) :=
      ⟨by rw [hworded.log_eq, List.append_assoc], (hon.append hworded.did).congr (by simp),
        hquiet.not_erases.append hworded.not_erases⟩
    obtain ⟨left, rest⟩ := loop
    cases left with
    | some ret =>
        -- a word was lost, and the code is still that of the step before
        obtain ⟨heq, hfailed⟩ := hworded.ended.resolve_left (by simp)
        obtain rfl : ret = qeOk := Option.some_injective _ heq
        obtain ⟨off, hwrote, hexit, hquiet'⟩ := hwords.aaiExit
        refine ⟨_, hwrote, fun _ => ?_⟩
        have hwordy := hworded.roles.append (hquiet'.roles.mono Role.wordy_of_quiet)
        have hlost : Programmed flash (bus.aaiExit (qeOk, rest.log)).1 w.addr.toNat
            (buffer.slice w.pos w.size) (words ++ off) := by
          refine programmed_lost hwordy ?_ ?_ _ _ _
          · simp [hworded.inside, hquiet'.inside]
          · exact fun hsucceed => hfailed (succeed_append.mp hsucceed).1
        rw [List.append_assoc]
        exact (hquiet.programmed qeOk _).append (fun _ => rfl) hlost
    | none =>
        obtain ⟨hsize, hpos, haddr⟩ : rest.size = w.size % 2 ∧ rest.pos = w.pos + w.size / 2 * 2 ∧
            rest.addr = w.addr + UInt32.ofNat (w.size / 2 * 2) := hworded.rest rfl
        have hlast : rest.size < 2 := hsize ▸ Nat.mod_lt _ (by decide)
        obtain ⟨byte, hbyte, hbyteProgrammed⟩ := lastByte_wrote bus hfits buffer rest hlast
        dsimp only at hbyte hbyteProgrammed ⊢
        generalize (if (bus.spiflashWriteEnable rest.log false true).1 = qeOk ∧ rest.size = 1 then
            bus.spiflashPage256Or1byteWrite flash (bus.spiflashWriteEnable rest.log false true).2
              rest.addr 1 1 Nat.one_pos buffer rest.pos
          else bus.spiflashWriteEnable rest.log false true) = last at hbyte hbyteProgrammed ⊢
        have hlogs : rest.log = w.log ++ (on ++ words) := hwords.log_eq
        rw [hlogs] at hbyte
        have hall : Wrote bus w.log last (on ++ words ++ byte) :=
          ⟨by rw [hbyte.log_eq, List.append_assoc], (hwords.did.append hbyte.did).congr (by simp),
            hwords.roles.append hbyte.roles⟩
        obtain ⟨off, hwrote, hexit, hquiet'⟩ := hall.aaiExit
        refine ⟨_, hwrote, fun hend => ?_⟩
        have heven : w.size / 2 * 2 + rest.size = w.size := by omega
        have haddr' : rest.addr.toNat = w.addr.toNat + w.size / 2 * 2 := by
          rw [haddr, addr_add (by omega)]
        have hfirst := hworded.programmed rfl hend qeOk
        have hboth : Programmed flash last.1 w.addr.toNat (buffer.slice w.pos w.size)
            (words ++ byte) := by
          rw [← heven, Cells.slice_add]
          refine hfirst.append (fun _ => rfl) ?_
          rw [Cells.slice_length, ← haddr', ← Int.natCast_add, ← hpos]
          exact hbyteProgrammed (by omega)
        rw [hexit, List.append_assoc on]
        exact hboth.between hquiet hquiet'
  · simp only [hret, ne_eq, not_false_eq_true, if_true]
    have hstopped : Wrote bus w.log (bus.spiflashWriteEnable w.log true true) on :=
      ⟨hlog, hdid.congr (and_iff_right rfl), hquiet.not_erases⟩
    obtain ⟨off, hwrote, hexit, hquiet'⟩ := hstopped.aaiExit
    refine ⟨_, hwrote, fun _ => ?_⟩
    rw [hexit]
    exact ((hquiet.append hquiet').programmed _ w.addr.toNat).of_failed fun hok => absurd hok hret

/-- A size goes down by one unless it is zero. -/
theorem size_pred {size : UInt64} (h : size ≠ 0) : (size - 1).toNat + 1 = size.toNat := by
  have hpos : 1 ≤ size.toNat :=
    Nat.pos_of_ne_zero fun hzero => h (UInt64.toNat_inj.mp hzero)
  rw [UInt64.toNat_sub_of_le size 1 (UInt64.le_iff_toNat_le.mpr hpos), UInt64.toNat_one]
  omega

/-- **`spiflash_aai_write`**, where the first byte of an odd address is one to write. -/
theorem aaiWrite_wrote (bus : Bus) (hfits : flash.Fits) (buffer : Cells UInt8) (log : Log)
    (addr : UInt32) (size : UInt64) : ∃ es,
    Wrote bus log (bus.spiflashAaiWrite flash log addr size buffer) es ∧
      (addr.toNat + size.toNat ≤ flash.chip.capacity.toNat → (size = 0 → addr.toNat % 2 = 0) →
        Programmed flash (bus.spiflashAaiWrite flash log addr size buffer).1 addr.toNat
          (buffer.slice 0 size.toNat) es) := by
  have hcapacity := flash.chip.capacity.toNat_lt
  unfold Bus.spiflashAaiWrite
  cases hbound : outOfBound flash addr size.toNat with
  | true =>
      refine ⟨[.outOfBound], ⟨rfl, (did_outOfBound log).congr (by simp), nofun⟩, fun hend _ => ?_⟩
      rw [outOfBound_inside hend] at hbound
      exact absurd hbound Bool.false_ne_true
  | false =>
      simp only [Bool.false_eq_true, if_false]
      by_cases hodd : addr.toNat % 2 ≠ 0
      · rw [if_pos hodd]
        obtain ⟨byte, hwrote, hprogrammed⟩ :=
          pageWrite_wrote bus hfits Nat.one_pos (.inl rfl) buffer log addr 1 0
        generalize bus.spiflashPage256Or1byteWrite flash log addr 1 1 Nat.one_pos buffer 0 = first
          at hwrote hprogrammed ⊢
        by_cases hret : first.1 = qeOk
        · rw [if_neg (not_not_intro hret)]
          obtain ⟨words, hwords, hwordsProgrammed⟩ := aaiWords_wrote bus hfits buffer
            { log := first.2, addr := addr + 1, size := (size - 1).toNat, pos := 1 }
          generalize bus.aaiWords flash buffer
            { log := first.2, addr := addr + 1, size := (size - 1).toNat, pos := 1 } = rest
            at hwords hwordsProgrammed ⊢
          rw [hwrote.log_eq] at hwords
          have hfirst := hwrote.did.congr (q := False) (iff_of_false (not_not_intro hret) not_false)
          refine ⟨byte ++ words, ⟨by rw [hwords.log_eq, List.append_assoc],
            (hfirst.append hwords.did).congr (by simp), hwrote.roles.append hwords.roles⟩,
            fun hend heven => ?_⟩
          have hrest : size.toNat = 1 + (size - 1).toNat := by
            rw [← size_pred fun hzero => hodd (heven hzero), Nat.add_comm]
          have haddr : (addr + 1).toNat = addr.toNat + 1 := addr_add (n := 1) (by omega)
          rw [hrest, Cells.slice_add]
          refine (hprogrammed (by omega)).append (fun _ => hret) ?_
          rw [Cells.slice_length, ← haddr]
          exact hwordsProgrammed (by show (addr + 1).toNat + (size - 1).toNat ≤ _; omega)
        · rw [if_pos hret]
          obtain ⟨off, hall, hexit, hquiet⟩ := hwrote.aaiExit
          refine ⟨_, hall, fun hend heven => ?_⟩
          have hsize : 1 ≤ size.toNat := by
            rw [← size_pred fun hzero => hodd (heven hzero)]
            exact Nat.le_add_left _ _
          rw [hexit]
          have hturn := (hprogrammed (by omega)).between quiet_nil hquiet
          exact hturn.of_failed fun hok => absurd hok hret
      · rw [if_neg hodd]
        obtain ⟨words, hwords, hprogrammed⟩ := aaiWords_wrote bus hfits buffer
          { log := log, addr := addr, size := size.toNat, pos := 0 }
        exact ⟨words, hwords, fun hend _ => hprogrammed hend⟩

end Awoke.Qe
