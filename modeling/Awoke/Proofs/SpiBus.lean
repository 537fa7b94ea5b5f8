/-
What the flash driver says on the bus.

A log is read as the chip reads it: the address of a command comes from its bytes, a word
without an address goes behind the one before it, and what did not arrive does nothing.

`Did` says what a step of the driver adds to the log: transfers as the bus answers them, and a
call that is looked at and returns an error exactly if the step does.  Steps are put together
with `Did.append`; on a bus that works nothing but an address out of bound stops them.
-/
import Awoke.Benchmark.SpiBus
import Awoke.Proofs.SpiFlash

namespace Awoke.Qe

/-! ### Reading a log -/

/-- A transfer that is not of count zero. -/
def Event.Succeeds : Event → Prop
  | .transfer _ _ recv => recv.isSome = true
  | .outOfBound => True

/-- No transfer is of count zero. -/
def Succeed (es : Log) : Prop := ∀ e ∈ es, e.Succeeds

instance : DecidablePred Event.Succeeds
  | .transfer _ _ recv => inferInstanceAs (Decidable (recv.isSome = true))
  | .outOfBound => isTrue trivial

instance (es : Log) : Decidable (Succeed es) := List.decidableBAll _ es

/-- Every transfer is for a step of this kind. -/
def OfRoles (p : Role → Bool) (es : Log) : Prop :=
  ∀ role sent recv, .transfer role sent recv ∈ es → p role = true

/-- The roles that program. -/
def Role.programs : Role → Bool
  | .page | .firstWord | .word => true
  | _ => false

/-- The roles that erase. -/
def Role.erases : Role → Bool
  | .erase | .chipErase => true
  | _ => false

/-- The roles that do neither. -/
def Role.quiet (role : Role) : Bool := !role.programs && !role.erases

/-- Some bytes and where they are. -/
def bytesAt (addr : Nat) (data : List UInt8) : List (Nat × UInt8) :=
  (List.range' addr data.length).zip data

namespace SpiflashDevice

variable (flash : SpiflashDevice)

/-- A chip as the driver takes it to be. -/
def idle : Flash :=
  { mem := fun _ => 0xFF, wel := false, fourByte := flash.address4byte, aai := none }

/-- The address of a command. -/
def wireAddress (sent : List UInt8) : Nat := flash.idle.address sent.tail

/-- What comes behind it. -/
def wirePayload (sent : List UInt8) : List UInt8 := flash.idle.payload sent.tail

/-- What is programmed, in order, where `next` is where the next word goes. -/
def programs : Option Nat → Log → List (Nat × UInt8)
  | _, [] => []
  | next, .transfer .page sent (some _) :: es =>
      bytesAt (flash.wireAddress sent) (flash.wirePayload sent) ++ programs next es
  | _, .transfer .firstWord sent (some _) :: es =>
      bytesAt (flash.wireAddress sent) (flash.wirePayload sent) ++
        programs (some ((flash.wireAddress sent + 2) % 2 ^ 32)) es
  | some addr, .transfer .word sent (some _) :: es =>
      bytesAt addr sent.tail ++ programs (some ((addr + 2) % 2 ^ 32)) es
  | next, _ :: es => programs next es

/-- The sectors that are erased, in order, by commands for a sector. -/
def erases : Log → List Nat
  | [] => []
  | .transfer .erase sent (some _) :: es =>
      flash.wireAddress sent / flash.chip.eraseGran.toNat :: erases es
  | _ :: es => erases es

end SpiflashDevice

variable {bus : Bus} {flash : SpiflashDevice} {log as bs es : Log}

theorem succeed_append : Succeed (as ++ bs) ↔ Succeed as ∧ Succeed bs := List.forall_mem_append

theorem OfRoles.append {p : Role → Bool} (ha : OfRoles p as) (hb : OfRoles p bs) :
    OfRoles p (as ++ bs) := by
  intro role sent recv hmem
  rcases List.mem_append.mp hmem with hmem | hmem
  · exact ha role sent recv hmem
  · exact hb role sent recv hmem

theorem OfRoles.mono {p q : Role → Bool} (h : OfRoles p es)
    (hpq : ∀ role, p role = true → q role = true) : OfRoles q es :=
  fun role sent recv hmem => hpq role (h role sent recv hmem)

theorem ofRoles_nil (p : Role → Bool) : OfRoles p [] := fun _ _ _ hmem => nomatch hmem

theorem ofRoles_one {p : Role → Bool} {role : Role} (h : p role = true) (sent : List UInt8)
    (recv : Option UInt8) : OfRoles p [.transfer role sent recv] := by
  intro role' sent' recv' hmem
  rw [List.mem_singleton, Event.transfer.injEq] at hmem
  rw [hmem.1]
  exact h

theorem bytesAt_append (addr : Nat) (data more : List UInt8) :
    bytesAt addr (data ++ more) = bytesAt addr data ++ bytesAt (addr + data.length) more := by
  rw [bytesAt, List.length_append, ← List.range'_append_1, List.zip_append List.length_range']
  rfl

/-- Nothing is programmed by other commands. -/
theorem programs_skip (flash : SpiflashDevice) (h : OfRoles (fun role => !role.programs) as)
    (next : Option Nat) (bs : Log) :
    flash.programs next (as ++ bs) = flash.programs next bs := by
  induction as with
  | nil => rfl
  | cons e as ih =>
      have hrest := ih fun role sent recv hmem => h role sent recv (List.mem_cons_of_mem e hmem)
      rw [← hrest]
      cases e with
      | outOfBound => cases next <;> rfl
      | transfer role sent recv =>
          have hrole := h role sent recv List.mem_cons_self
          cases role with
          | page | firstWord | word => exact absurd hrole (by decide)
          | latch _ _ | status | erase | chipErase => cases next <;> rfl

theorem erases_append : flash.erases (as ++ bs) = flash.erases as ++ flash.erases bs := by
  induction as with
  | nil => rfl
  | cons e as ih =>
      rw [List.cons_append]
      cases e with
      | outOfBound => exact ih
      | transfer role sent recv =>
          cases role with
          | erase =>
              cases recv with
              | none => exact ih
              | some _ =>
                  show _ :: flash.erases (as ++ bs) = _ :: (flash.erases as ++ flash.erases bs)
                  rw [ih]
          | latch _ _ | status | page | firstWord | word | chipErase => exact ih

theorem erases_skip (h : OfRoles (fun role => !role.erases) es) : flash.erases es = [] := by
  induction es with
  | nil => rfl
  | cons e es ih =>
      have hrest := ih fun role sent recv hmem => h role sent recv (List.mem_cons_of_mem e hmem)
      cases e with
      | outOfBound => exact hrest
      | transfer role sent recv =>
          have hrole := h role sent recv List.mem_cons_self
          cases role with
          | erase => exact absurd hrole (by decide)
          | latch _ _ | status | page | firstWord | word | chipErase => exact hrest

theorem wire_make {addr : UInt32} (haddr : flash.Reaches addr) (cmd : UInt8) (rest : List UInt8) :
    flash.wireAddress (cmd :: (makeAddressByteArray flash addr ++ rest)) = addr.toNat ∧
      flash.wirePayload (cmd :: (makeAddressByteArray flash addr ++ rest)) = rest :=
  address_make (f := flash.idle) rfl haddr rest

theorem outOfBound_inside {addr : UInt32} {size : Nat}
    (hend : addr.toNat + size ≤ flash.chip.capacity.toNat) :
    outOfBound flash addr size = false := by
  have hcapacity := flash.chip.capacity.toNat_lt
  refine decide_eq_false ?_
  rw [Nat.mod_eq_of_lt (by omega)]
  omega

/-- An address has four bytes at most. -/
theorem wireAddress_lt (sent : List UInt8) : flash.wireAddress sent < 2 ^ 32 := by
  have hfold : ∀ (bytes : List UInt8) (a : Nat),
      bytes.foldl (fun a b => 256 * a + b.toNat) a < 256 ^ bytes.length * (a + 1) := by
    intro bytes
    induction bytes with
    | nil => intro a; simp
    | cons b bytes ih =>
        intro a
        have hb := b.toNat_lt
        have hstep : 256 ^ bytes.length * (256 * a + b.toNat + 1) ≤
            256 ^ bytes.length * (256 * (a + 1)) := Nat.mul_le_mul_left _ (by omega)
        calc (b :: bytes).foldl (fun a b => 256 * a + b.toNat) a
            < 256 ^ bytes.length * (256 * a + b.toNat + 1) := ih _
          _ ≤ 256 ^ bytes.length * (256 * (a + 1)) := hstep
          _ = 256 ^ (b :: bytes).length * (a + 1) := by
              rw [List.length_cons, Nat.pow_succ, Nat.mul_assoc]
  have hlength : (sent.tail.take flash.idle.addressLen).length ≤ 4 := by
    rw [List.length_take]
    unfold Flash.addressLen
    split <;> omega
  calc flash.wireAddress sent
      < 256 ^ (sent.tail.take flash.idle.addressLen).length * (0 + 1) := hfold _ 0
    _ ≤ 256 ^ 4 * (0 + 1) := Nat.mul_le_mul_right _ (Nat.pow_le_pow_right (by decide) hlength)
    _ = 2 ^ 32 := by decide

/-! ### What a step adds -/

/-- Every event is as `P` asks, after those before it. -/
def Along (P : Log → Event → Prop) : Log → Log → Prop
  | _, [] => True
  | log, e :: es => P log e ∧ Along P (log ++ [e]) es

theorem along_append {P : Log → Event → Prop} :
    Along P log (as ++ bs) ↔ Along P log as ∧ Along P (log ++ as) bs := by
  induction as generalizing log with
  | nil => rw [List.nil_append, List.append_nil]; exact (and_iff_right trivial).symm
  | cons e as ih =>
      rw [List.cons_append, Along, Along, ih, and_assoc, List.append_assoc]
      rfl

theorem Along.mem {P : Log → Event → Prop} (h : Along P log es) :
    ∀ e ∈ es, ∃ before, P before e := by
  induction es generalizing log with
  | nil => exact fun e hmem => nomatch hmem
  | cons e es ih =>
      intro e' hmem
      rcases List.mem_cons.mp hmem with rfl | hmem
      · exact ⟨log, h.1⟩
      · exact ih h.2 e' hmem

/-- A transfer comes to what the bus answers. -/
def Bus.Answers (bus : Bus) (log : Log) : Event → Prop
  | .transfer _ sent recv => recv = bus.answer log sent
  | .outOfBound => True

/-- A call that is looked at and returns an error. -/
def Bus.Stop (bus : Bus) (log : Log) : Event → Prop
  | .transfer (.latch en true) _ _ => (bus.spiflashWriteEnable log en true).1 ≠ qeOk
  | .transfer _ _ _ => False
  | .outOfBound => True

instance (bus : Bus) (log : Log) : DecidablePred (bus.Stop log)
  | .transfer (.latch en true) _ _ =>
      inferInstanceAs (Decidable ((bus.spiflashWriteEnable log en true).1 ≠ qeOk))
  | .transfer (.latch _ false) _ _ | .transfer .status _ _ | .transfer .page _ _
  | .transfer .firstWord _ _ | .transfer .word _ _ | .transfer .erase _ _
  | .transfer .chipErase _ _ => isFalse not_false
  | .outOfBound => isTrue trivial

/-- One of these is such a call. -/
def Bus.Stops (bus : Bus) : Log → Log → Prop
  | _, [] => False
  | log, e :: es => bus.Stop log e ∨ Bus.Stops bus (log ++ [e]) es

theorem stops_append : bus.Stops log (as ++ bs) ↔ bus.Stops log as ∨ bus.Stops (log ++ as) bs := by
  induction as generalizing log with
  | nil => rw [List.nil_append, List.append_nil]; exact (or_iff_right not_false).symm
  | cons e as ih =>
      rw [List.cons_append, Bus.Stops, Bus.Stops, ih, or_assoc, List.append_assoc]
      rfl

/-- What a step of the driver adds to the log, and whether it was stopped. -/
structure Did (bus : Bus) (log es : Log) (stopped : Prop) : Prop where
  genuine : Along bus.Answers log es
  stops : bus.Stops log es ↔ stopped

theorem did_nil : Did bus log [] False := ⟨trivial, Iff.rfl⟩

theorem Did.append {p q : Prop} (ha : Did bus log as p) (hb : Did bus (log ++ as) bs q) :
    Did bus log (as ++ bs) (p ∨ q) :=
  ⟨along_append.mpr ⟨ha.genuine, hb.genuine⟩, stops_append.trans (or_congr ha.stops hb.stops)⟩

theorem Did.congr {p q : Prop} (h : Did bus log es p) (hpq : p ↔ q) : Did bus log es q :=
  ⟨h.genuine, h.stops.trans hpq⟩

theorem did_transfer (bus : Bus) {role : Role} (hrole : ∀ en checked, role ≠ .latch en checked)
    (log : Log) (sent : List UInt8) :
    Did bus log [.transfer role sent (bus.answer log sent)] False := by
  refine ⟨⟨rfl, trivial⟩, iff_of_false (fun hstop => ?_) not_false⟩
  rcases hstop with hstop | hstop
  · cases role with
    | latch en checked => exact hrole en checked rfl
    | status | page | firstWord | word | erase | chipErase => exact hstop
  · exact hstop

theorem did_outOfBound (log : Log) : Did bus log [.outOfBound] True :=
  ⟨⟨trivial, trivial⟩, iff_of_true (.inl trivial) trivial⟩

/-! ### The latch and the status -/

/-- Commands for the latch and the status, and nothing else. -/
structure Quiet (es : Log) : Prop where
  roles : OfRoles Role.quiet es
  inside : .outOfBound ∉ es

theorem quiet_nil : Quiet [] := ⟨ofRoles_nil _, List.not_mem_nil⟩

theorem Quiet.append (ha : Quiet as) (hb : Quiet bs) : Quiet (as ++ bs) := by
  refine ⟨ha.roles.append hb.roles, ?_⟩
  rw [List.mem_append, not_or]
  exact ⟨ha.inside, hb.inside⟩

theorem Quiet.not_programs (h : Quiet es) : OfRoles (fun role => !role.programs) es :=
  h.roles.mono fun _ hquiet => (Bool.and_eq_true_iff.mp hquiet).1

theorem Quiet.not_erases (h : Quiet es) : OfRoles (fun role => !role.erases) es :=
  h.roles.mono fun _ hquiet => (Bool.and_eq_true_iff.mp hquiet).2

theorem readStatus_did (bus : Bus) (log : Log) (status : UInt8) : ∃ es,
    (bus.spiflashReadStatus log status).1.1 = qeOk ∧
      (bus.spiflashReadStatus log status).2 = log ++ es ∧ Did bus log es False ∧ Quiet es := by
  refine ⟨[.transfer .status [cmdReadSr] (bus.answer log [cmdReadSr])], ?_, ?_,
    did_transfer bus (by simp) log _, ofRoles_one rfl _ _, by simp⟩
  all_goals
    unfold Bus.spiflashReadStatus Bus.transfer
    cases bus.answer log [cmdReadSr] <;> rfl

theorem waitBusy_did (bus : Bus) (log : Log) : ∃ es,
    bus.spiflashWaitBusy log = (qeOk, log ++ es) ∧ Did bus log es False ∧ Quiet es := by
  obtain ⟨es, hret, hlog, hdid⟩ := readStatus_did bus log 0
  exact ⟨es, Prod.ext hret hlog, hdid⟩

/-- What the latch adds; it stops the driver if its code is looked at and is an error. -/
theorem writeEnable_did (bus : Bus) (log : Log) (en checked : Bool) : ∃ es,
    (bus.spiflashWriteEnable log en checked).2 = log ++ es ∧
      Did bus log es (checked = true ∧ (bus.spiflashWriteEnable log en checked).1 ≠ qeOk) ∧
        Quiet es := by
  obtain ⟨es, hes⟩ : ∃ es, es = [Event.transfer (.latch en checked)
      [if en then cmdWriteEnable else cmdWriteDisable]
      (bus.answer log [if en then cmdWriteEnable else cmdWriteDisable])] := ⟨_, rfl⟩
  have hquiet : Quiet es := by
    rw [hes]
    exact ⟨ofRoles_one rfl _ _, by simp⟩
  have hlatch : Did bus log es
      (checked = true ∧ (bus.spiflashWriteEnable log en checked).1 ≠ qeOk) := by
    rw [hes]
    refine ⟨⟨rfl, trivial⟩, ?_⟩
    show _ ∨ False ↔ _
    rw [or_false]
    cases checked with
    | true => exact (and_iff_right rfl).symm
    | false => exact iff_of_false not_false fun h => Bool.false_ne_true h.1
  -- the status is read only if the command was sent
  have hlog : ∃ more, (bus.spiflashWriteEnable log en checked).2 = log ++ es ++ more ∧
      Did bus (log ++ es) more False ∧ Quiet more := by
    have hcases : (bus.spiflashWriteEnable log en checked).2 =
        if (bus.answer log [if en then cmdWriteEnable else cmdWriteDisable]).isSome then
          (bus.spiflashReadStatus (log ++ es) (bus.stale log).2).2
        else log ++ es := by
      rw [hes]
      unfold Bus.spiflashWriteEnable Bus.transfer
      cases bus.answer log [if en then cmdWriteEnable else cmdWriteDisable] with
      | none =>
          simp only [Option.isSome_none, Bool.false_eq_true, if_false]
          split_ifs <;> rfl
      | some b =>
          simp only [Option.isSome_some, if_true]
          split_ifs <;> rfl
    by_cases hsent : (bus.answer log [if en then cmdWriteEnable else cmdWriteDisable]).isSome = true
    · obtain ⟨more, -, hmore⟩ := readStatus_did bus (log ++ es) (bus.stale log).2
      rw [hcases, if_pos hsent]
      exact ⟨more, hmore⟩
    · rw [hcases, if_neg hsent]
      exact ⟨[], (List.append_nil _).symm, did_nil, quiet_nil⟩
  obtain ⟨more, heq, hdid, hmore⟩ := hlog
  exact ⟨es ++ more, by rw [heq, List.append_assoc],
    (hlatch.append hdid).congr (Iff.of_eq (or_false _)), hquiet.append hmore⟩

theorem writeEnable_unchecked (bus : Bus) (log : Log) (en : Bool) : ∃ es,
    (bus.spiflashWriteEnable log en false).2 = log ++ es ∧ Did bus log es False ∧ Quiet es := by
  obtain ⟨es, hlog, hdid, hquiet⟩ := writeEnable_did bus log en false
  exact ⟨es, hlog, hdid.congr (iff_of_false (fun h => Bool.false_ne_true h.1) not_false), hquiet⟩

/-- A turn of a loop: the latch, one command, and to wait for it.  The latch stops it, the
command is lost, or all of it goes well. -/
inductive Turn (bus : Bus) (log : Log) (role : Role) (sent : List UInt8) : Prop
  | stopped (ret : Ret) (es : Log)
      (hlatch : bus.spiflashWriteEnable log true true = (ret, log ++ es)) (hret : ret ≠ qeOk)
      (hdid : Did bus log es True) (hquiet : Quiet es)
  | lost (es : Log) (hlatch : bus.spiflashWriteEnable log true true = (qeOk, log ++ es))
      (hanswer : bus.answer (log ++ es) sent = none)
      (hdid : Did bus log (es ++ [.transfer role sent none]) False) (hquiet : Quiet es)
  | went (es wait : Log) (b : UInt8)
      (hlatch : bus.spiflashWriteEnable log true true = (qeOk, log ++ es))
      (hanswer : bus.answer (log ++ es) sent = some b)
      (hwait : bus.spiflashWaitBusy (log ++ es ++ [.transfer role sent (some b)]) =
        (qeOk, log ++ (es ++ [.transfer role sent (some b)] ++ wait)))
      (hdid : Did bus log (es ++ [.transfer role sent (some b)] ++ wait) False)
      (hquiet : Quiet es) (hquiet' : Quiet wait)

theorem turn_cases (bus : Bus) (role : Role) (hrole : ∀ en checked, role ≠ .latch en checked)
    (log : Log) (sent : List UInt8) : Turn bus log role sent := by
  obtain ⟨es, hlog, hdid, hquiet⟩ := writeEnable_did bus log true true
  have hcommand := did_transfer bus hrole (log ++ es) sent
  by_cases hret : (bus.spiflashWriteEnable log true true).1 = qeOk
  · have hon := hdid.congr (q := False) (iff_of_false (fun h => h.2 hret) not_false)
    cases hanswer : bus.answer (log ++ es) sent with
    | none =>
        rw [hanswer] at hcommand
        exact .lost _ (Prod.ext hret hlog) hanswer
          ((hon.append hcommand).congr (Iff.of_eq (or_false _))) hquiet
    | some b =>
        rw [hanswer] at hcommand
        obtain ⟨wait, hwait, hwaited, hquiet'⟩ := waitBusy_did bus
          (log ++ es ++ [.transfer role sent (some b)])
        rw [List.append_assoc log, List.append_assoc log] at hwait
        rw [List.append_assoc log] at hwaited
        refine .went _ _ _ (Prod.ext hret hlog) hanswer ?_
          (((hon.append hcommand).append hwaited).congr (by simp)) hquiet hquiet'
        rw [List.append_assoc log]
        exact hwait
  · exact .stopped _ _ (Prod.ext rfl hlog) hret
      (hdid.congr (iff_of_true ⟨rfl, hret⟩ trivial)) hquiet

/-! ### A bus that works -/

/-- Every transfer succeeds, and the status after a command for the latch shows the latch as it
was set. -/
structure Bus.Works (bus : Bus) : Prop where
  succeeds : ∀ log sent, (bus.answer log sent).isSome = true
  latch : ∀ log en checked recv sr,
    bus.answer (log ++ [.transfer (.latch en checked)
      [if en then cmdWriteEnable else cmdWriteDisable] recv]) [cmdReadSr] = some sr →
      (sr &&& srWel ≠ 0 ↔ en = true)

/-- Every transfer succeeds. -/
def Bus.Succeeds (bus : Bus) : Prop := ∀ log sent, (bus.answer log sent).isSome = true

/-- The status after the latch is put on shows it. -/
def Bus.ShowsOn (bus : Bus) : Prop :=
  ∀ log checked recv sr,
    bus.answer (log ++ [.transfer (.latch true checked) [cmdWriteEnable] recv]) [cmdReadSr] =
      some sr → sr &&& srWel ≠ 0

theorem Bus.Succeeds.writeEnable (h : bus.Succeeds) (hon : bus.ShowsOn) (log : Log)
    (checked : Bool) : (bus.spiflashWriteEnable log true checked).1 = qeOk := by
  obtain ⟨b, hb⟩ := Option.isSome_iff_exists.mp (h log [cmdWriteEnable])
  obtain ⟨sr, hsr⟩ := Option.isSome_iff_exists.mp
    (h (log ++ [.transfer (.latch true checked) [cmdWriteEnable] (some b)]) [cmdReadSr])
  have hshown := hon _ _ _ _ hsr
  have hcleared : sr &&& ~~~srBusy &&& srWel = sr &&& srWel := by
    rw [UInt8.and_assoc]
    rfl
  unfold Bus.spiflashWriteEnable Bus.transfer
  simp only [if_true, hb, Option.isSome_some, Bus.spiflashReadStatus, Bus.transfer, hsr, hcleared]
  rw [if_neg fun hzero => hshown hzero.2, if_neg fun hoff => nomatch hoff.1]

theorem Bus.Works.writeEnable (h : bus.Works) (log : Log) (en checked : Bool) :
    (bus.spiflashWriteEnable log en checked).1 = qeOk := by
  obtain ⟨b, hb⟩ := Option.isSome_iff_exists.mp
    (h.succeeds log [if en then cmdWriteEnable else cmdWriteDisable])
  obtain ⟨sr, hsr⟩ := Option.isSome_iff_exists.mp (h.succeeds (log ++ [.transfer (.latch en checked)
    [if en then cmdWriteEnable else cmdWriteDisable] (some b)]) [cmdReadSr])
  have hshown := h.latch _ _ _ _ _ hsr
  have hcleared : sr &&& ~~~srBusy &&& srWel = sr &&& srWel := by
    rw [UInt8.and_assoc]
    rfl
  unfold Bus.spiflashWriteEnable Bus.transfer
  simp only [hb, Option.isSome_some, if_true, Bus.spiflashReadStatus, Bus.transfer, hsr, hcleared]
  cases en with
  | true => rw [if_neg fun hzero => hshown.mpr rfl hzero.2, if_neg fun hoff => nomatch hoff.1]
  | false =>
      rw [if_neg fun hon => nomatch hon.1]
      exact congrArg Prod.fst (if_neg fun hset : _ ∧ _ => Bool.false_ne_true (hshown.mp hset.2))

/-- The chip after what has happened. -/
def Flash.after (f : Flash) (chip : SpiflashChip) (log : Log) : Flash :=
  log.foldl (fun f e => match e with
    | .transfer _ sent _ => f.transfer chip sent
    | .outOfBound => f) f

/-- The ideal chip at the other end. -/
def Flash.onBus (f : Flash) (chip : SpiflashChip) : Bus where
  answer log sent :=
    some (if sent = [cmdReadSr] then (f.after chip log).statusRegister else 0xFF)
  stale _ := (qeOk, 0)

theorem Flash.onBus_works (f : Flash) (chip : SpiflashChip) : (f.onBus chip).Works := by
  refine ⟨fun _ _ => rfl, fun log en checked recv sr hsr => ?_⟩
  obtain rfl := Option.some_injective _ hsr
  rw [if_pos rfl, Flash.after, List.foldl_append]
  cases en with
  | true => exact iff_of_true (show srWel &&& srWel ≠ 0 by decide) rfl
  | false => exact iff_of_false (show ¬(0 &&& srWel ≠ (0 : UInt8)) by decide) Bool.false_ne_true

theorem Did.succeed {stopped : Prop} (h : bus.Succeeds) (hdid : Did bus log es stopped) :
    Succeed es := by
  intro e hmem
  obtain ⟨before, hanswer⟩ := hdid.genuine.mem e hmem
  cases e with
  | outOfBound => exact trivial
  | transfer role sent recv =>
      show recv.isSome = true
      rw [show recv = bus.answer before sent from hanswer]
      exact h before sent

/-- On a bus that works every transfer succeeds, and nothing but an address stops the driver. -/
theorem Did.works {stopped : Prop} (h : bus.Works) (hdid : Did bus log es stopped) :
    Succeed es ∧ (stopped ↔ .outOfBound ∈ es) := by
  refine ⟨hdid.succeed h.succeeds, ?_⟩
  · have hstop : ∀ before e, bus.Stop before e ↔ e = .outOfBound := by
      intro before e
      unfold Bus.Stop
      split
      · exact iff_of_false (fun hno => hno (h.writeEnable _ _ _)) nofun
      · exact iff_of_false not_false nofun
      · exact iff_of_true trivial rfl
    have hstops : ∀ (es log : Log), bus.Stops log es ↔ .outOfBound ∈ es := by
      intro es
      induction es with
      | nil => intro log; exact iff_of_false not_false List.not_mem_nil
      | cons e es ih =>
          intro log
          rw [Bus.Stops, hstop, ih, List.mem_cons, eq_comm]
    rw [← hdid.stops, hstops]

end Awoke.Qe
