/-
The NOTICE channel as a protocol of two parties.

The client sends heartbeats, each with the value that `msgindex` had when it was built,
and the server sends them back in order, with notices in between.  Every receipt moves
`msgindex` on, a notice as well as an echo.  So an echo agrees with `msgindex` only if
`msgindex` has come round to the value the heartbeat was built with; and the first
heartbeats are built with the value 0, which is what a notice looks like.

Two numbers that the code does not keep say when that is so: `reads`, the receipts that
there were so far, and the `beat` of a heartbeat, the receipts that there were when it
was built.  `notices_iff`: the bytes are taken for what they are in exactly those runs in
which every echo that is read is of a heartbeat with `beat ≠ 0`, a multiple of 255 receipts
ago, and every notice finds room for its two works.

Both connections of a client are read into one buffer.  When the DATA connection is lost and
leaves it full, the next read of a byte takes the first of the buffer for it.
-/
import Awoke.Proofs.Keepalive
import Awoke.Proofs.Queue

namespace Awoke.Mtk

open Machine MtkContext

/-- What the server sends: a notice, or the echo of a heartbeat. -/
inductive Down
  | notice
  | echo (data : UInt8) (beat : Nat)

/-- Its byte. -/
def Down.byte : Down → UInt8
  | .notice => 0
  | .echo data _ => data

/-- A client, and the two channels between it and the server; `built` has the heartbeats in
the client's ring. -/
structure Link where
  ctx : MtkContext
  built : List Nat
  up : List (UInt8 × Nat)
  down : List Down
  reads : Nat

/-- What can happen: an event on the NOTICE connection, another phase of the client, or the
server echoes the oldest heartbeat or sends a notice. -/
inductive Move
  | event (now : UInt64)
  | client (p : Phase)
  | echo
  | notice

/-- The value of `msgindex` after as many receipts. -/
def idx : Nat → UInt8
  | 0 => 0
  | n + 1 => UInt8.ofNat (n % 255 + 1)

namespace Link

/-- Nothing is connected yet. -/
def create : Link := { ctx := .create, built := [], up := [], down := [], reads := 0 }

/-- The next byte to be read, unless the event is for writing. -/
def next (s : Link) : Option Down := if s.ctx.nc.evWrite then none else s.down.head?

/-- What a phase of the client does to the channels.  They end with the connection. -/
def after (s : Link) (ctx : MtkContext) (out : Outcome) : Link :=
  let s :=
    match out with
    | .ran .ncKeepalive .etOk => { s with built := (Queue.spec 8 true s.built (.enq s.reads)).1 }
    | .wrote data => { s with built := s.built.tail, up := s.up ++ [(data, s.built.headD 0)] }
    | .received _ =>
        { s with down := if s.ctx.rxFull then s.down else s.down.tail, reads := s.reads + 1 }
    | _ => s
  if ctx.nc.fConnected then { s with ctx := ctx }
  else { ctx := ctx, built := [], up := [], down := [], reads := s.reads }

/-- A phase of the client. -/
def client (s : Link) (p : Phase) : Option (Link × Outcome) :=
  (s.ctx.phase p).map fun (ctx, out) => (s.after ctx out, out)

/-- One move.  A byte is sent without a loss, and read for itself; there is no timeout. -/
def step (s : Link) : Move → Option (Link × Outcome)
  | .event now =>
      if s.ctx.nc.evWrite then s.client (.nc true .nothing now)
      else
        match s.down with
        | [] => some (s, .idle)
        | m :: _ => s.client (.nc true (.byte m.byte) now)
  | .client p =>
      match p with
      | .nc _ _ _ | .timeout _ => some (s, .idle)
      | p => s.client p
  | .echo =>
      match s.up with
      | [] => some (s, .idle)
      | (data, beat) :: up => some ({ s with up := up, down := s.down ++ [.echo data beat] }, .idle)
  | .notice =>
      some (if s.ctx.nc.fConnected then { s with down := s.down ++ [.notice] } else s, .idle)

/-! ### What a step should do, and when it does -/

/-- A notice schedules a session, which is new and asks for a command; an echo is an
acknowledgement.  Both schedule the next keepalive, where there is room. -/
def TakenAs (s : Link) (ctx : MtkContext) (out : Outcome) : Down → Prop
  | .notice => out = .received 0 ∧ ctx.sessionBaseid = s.ctx.sessionBaseid + 1 ∧
      ctx.sessions ctx.sessionBaseid = some (.create .getcmd 0 0) ∧
      pendingHandles ctx.worksPq =
        s.ctx.nextStart ::ₘ add .ncKeepalive (pendingHandles s.ctx.worksPq)
  | .echo data _ => out = .received data ∧ ctx.sessionBaseid = s.ctx.sessionBaseid ∧
      pendingHandles ctx.worksPq = add .ncKeepalive (pendingHandles s.ctx.worksPq)

/-- What a byte that is handed on is to be taken for, when `m` is to be read.  One that was left
in a full buffer came with no notice, and is no error either. -/
def handed (s : Link) (m : Down) : Down := if s.ctx.rxFull then .echo s.ctx.rxByte 0 else m

/-- A byte that is read is taken for what it is. -/
def Agrees (s : Link) : Move → Prop
  | .event now => ∀ m ∈ s.next, ∃ r ∈ s.step (.event now), s.TakenAs r.1.ctx r.2 (s.handed m)
  | _ => True

/-- A notice finds room for its works; an echo is of a heartbeat that was built after a
receipt, and a multiple of 255 receipts ago. -/
def Fits (s : Link) : Down → Prop
  | .notice => (pendingHandles s.ctx.worksPq).card < 7
  | .echo _ beat => 0 < beat ∧ 255 ∣ s.reads - beat

/-- The byte that is handed on fits: one that was left in a full buffer happens to be the value of
`msgindex`, after a receipt. -/
def HandedFits (s : Link) (m : Down) : Prop :=
  if s.ctx.rxFull then 0 < s.reads ∧ s.ctx.rxByte = idx s.reads else s.Fits m

/-- The byte that is read fits. -/
def Timely (s : Link) : Move → Prop
  | .event _ => ∀ m ∈ s.next, s.HandedFits m
  | _ => True

instance (s : Link) (ctx : MtkContext) (out : Outcome) : DecidablePred (TakenAs s ctx out)
  | .notice => inferInstanceAs (Decidable (_ ∧ _ ∧ _ ∧ _))
  | .echo _ _ => inferInstanceAs (Decidable (_ ∧ _ ∧ _))

instance (s : Link) : DecidablePred s.Agrees
  | .event now =>
      inferInstanceAs (Decidable
        (∀ m ∈ s.next, ∃ r ∈ s.step (.event now), TakenAs s r.1.ctx r.2 (s.handed m)))
  | .client _ | .echo | .notice => isTrue trivial

/-! ### The values of `msgindex` -/

theorem idx_toNat (n : Nat) : (idx (n + 1)).toNat = n % 255 + 1 := by
  show (UInt8.ofNat (n % 255 + 1)).toNat = n % 255 + 1
  rw [UInt8.toNat_ofNat']
  omega

theorem idx_succ (n : Nat) : idx n % 255 + 1 = idx (n + 1) := by
  refine UInt8.toNat_inj.mp ?_
  rw [idx_toNat, UInt8.toNat_add, UInt8.toNat_mod]
  cases n with
  | zero => rfl
  | succ n =>
      rw [idx_toNat]
      show ((n % 255 + 1) % 255 + 1) % 256 = (n + 1) % 255 + 1
      omega

theorem idx_ne_zero {n : Nat} (hn : 0 < n) : idx n ≠ 0 := by
  obtain ⟨n, rfl⟩ := Nat.exists_eq_succ_of_ne_zero (Nat.ne_of_gt hn)
  intro hzero
  have := idx_toNat n
  rw [Nat.succ_eq_add_one] at hzero
  rw [hzero, UInt8.toNat_zero] at this
  omega

theorem idx_eq_iff {beat reads : Nat} (hbeat : 0 < beat) (hle : beat ≤ reads) :
    idx beat = idx reads ↔ 255 ∣ reads - beat := by
  obtain ⟨b, rfl⟩ := Nat.exists_eq_succ_of_ne_zero (Nat.ne_of_gt hbeat)
  obtain ⟨r, rfl⟩ := Nat.exists_eq_succ_of_ne_zero (by omega : reads ≠ 0)
  rw [← UInt8.toNat_inj]
  show (idx (b + 1)).toNat = (idx (r + 1)).toNat ↔ _
  rw [idx_toNat, idx_toNat]
  omega

/-! ### The heartbeats in the ring -/

theorem spec_enq_map (beats : List Nat) (beat : Nat) :
    (Queue.spec 8 true (beats.map idx) (.enq (idx beat))).1 =
      (Queue.spec 8 true beats (.enq beat)).1.map idx := by
  dsimp only [Queue.spec]
  rw [List.length_map]
  by_cases hfull : beats.length = 8
  · rw [if_pos hfull, if_pos hfull, if_pos rfl, if_pos rfl, List.map_tail, List.map_append]
    rfl
  · rw [if_neg hfull, if_neg hfull, List.map_append]
    rfl

theorem mem_spec_enq {beats : List Nat} {beat b : Nat}
    (h : b ∈ (Queue.spec 8 true beats (.enq beat)).1) : b ∈ beats ∨ b = beat := by
  have hmem : b ∈ beats ++ [beat] := by
    dsimp only [Queue.spec] at h
    split at h
    · exact List.mem_of_mem_tail h
    · exact h
  simpa using hmem

/-! ### The invariant -/

/-- What holds of client and channels as long as every byte fits. -/
structure Linked (s : Link) : Prop where
  sound : Sound s.ctx
  before : s.ctx.nc.fConnected = false →
    s.ctx.nc = .init ∧ s.built = [] ∧ s.up = [] ∧ s.down = []
  ring : s.ctx.nc.fConnected = true →
    ∃ ring, s.ctx.nc.ring = some ring ∧ Queue.Holds 8 Queue.flagRB ring (s.built.map idx)
  index : s.ctx.nc.msgindex = idx s.reads
  built : ∀ beat ∈ s.built, beat ≤ s.reads
  up : ∀ e ∈ s.up, e.1 = idx e.2 ∧ e.2 ≤ s.reads
  down : ∀ data beat, .echo data beat ∈ s.down → data = idx beat ∧ beat ≤ s.reads

variable {s : Link} {ctx' : MtkContext} {hs : Multiset Handle}

theorem create_linked : Linked create where
  sound := create_sound
  before := fun _ => ⟨rfl, rfl, rfl, rfl⟩
  ring := nofun
  index := rfl
  built := nofun
  up := nofun
  down := nofun

theorem after_ctx (s : Link) (ctx' : MtkContext) (out : Outcome) :
    (s.after ctx' out).ctx = ctx' := by
  unfold after
  dsimp only
  split <;> rfl

theorem after_connected (hcon : ctx'.nc.fConnected = true) {out : Outcome}
    (hout : out.aside = true) : s.after ctx' out = { s with ctx := ctx' } := by
  unfold after
  rw [if_pos hcon]
  cases out with
  | wrote data => exact nomatch hout
  | received data => exact nomatch hout
  | timedOut => exact nomatch hout
  | ran cb code =>
      cases cb with
      | ncKeepalive => exact nomatch hout
      | ncConnect => rfl
      | dcConnect => rfl
      | sessionStart ss => rfl
  | idle => rfl
  | scheduled code => rfl
  | requested msg => rfl
  | responded => rfl
  | closed code => rfl

theorem Linked.same (h : Linked s) (hsound : Sound ctx')
    (hcon : ctx'.nc.fConnected = true) (hcon₀ : s.ctx.nc.fConnected = true)
    (hring : ctx'.nc.ring = s.ctx.nc.ring) (hindex : ctx'.nc.msgindex = s.ctx.nc.msgindex)
    {out : Outcome} (hout : out.aside = true) : Linked (s.after ctx' out) := by
  rw [after_connected hcon hout]
  refine ⟨hsound, fun hno => absurd (hcon.symm.trans hno) nofun, fun _ => ?_, hindex.trans h.index,
    h.built, h.up, h.down⟩
  obtain ⟨ring, hsome, hholds⟩ := h.ring hcon₀
  exact ⟨ring, hring.trans hsome, hholds⟩

theorem after_closed (hcon : ctx'.nc.fConnected = false) {out : Outcome}
    (hout : ∀ data, out ≠ .received data) :
    s.after ctx' out = { ctx := ctx', built := [], up := [], down := [], reads := s.reads } := by
  unfold after
  rw [if_neg (ne_true_of_eq_false hcon)]
  congr 1
  split
  · rfl
  · rfl
  · exact absurd rfl (hout _)
  · rfl

theorem Linked.unconnected (h : Linked s) (hcon : s.ctx.nc.fConnected = false)
    (hsound : Sound ctx') (hnc : ctx'.nc = s.ctx.nc) {out : Outcome}
    (hout : ∀ data, out ≠ .received data) : Linked (s.after ctx' out) := by
  have hcon' : ctx'.nc.fConnected = false := hnc ▸ hcon
  rw [after_closed hcon' hout]
  refine ⟨hsound, fun _ => ⟨hnc.trans (h.before hcon).1, rfl, rfl, rfl⟩, fun hc => ?_, ?_, nofun,
    nofun, nofun⟩
  · exact absurd (hcon'.symm.trans hc) nofun
  · rw [hnc]
    exact h.index

/-- A heartbeat is built. -/
theorem Linked.beat (h : Linked s) {ring : Queue UInt8} {pq : WorksPq}
    (hcon : s.ctx.nc.fConnected = true) (hring : s.ctx.nc.ring = some ring)
    (hsound : Sound ctx')
    (hctx : ctx' = (s.ctx.setWorks pq).setNc
      { s.ctx.nc with ring := some (ring.enq s.ctx.nc.msgindex).2, evWrite := true }) :
    Linked (s.after ctx' (.ran .ncKeepalive .etOk)) := by
  obtain ⟨ring', hring', hholds⟩ := h.ring hcon
  obtain rfl := Option.some.inj (hring.symm.trans hring')
  have henq := (Queue.enq_ok (by decide) hholds s.ctx.nc.msgindex).2
  have hcon' : ctx'.nc.fConnected = true := by rw [hctx]; exact hcon
  unfold after
  rw [if_pos hcon']
  refine ⟨hsound, fun hno => absurd (hcon'.symm.trans hno) nofun, fun _ => ?_, ?_, ?_, h.up, h.down⟩
  · refine ⟨_, by rw [hctx]; rfl, ?_⟩
    rw [← spec_enq_map, ← h.index]
    exact henq
  · rw [hctx]
    exact h.index
  · intro b hb
    rcases mem_spec_enq hb with hold | rfl
    · exact h.built b hold
    · exact Nat.le_refl _

/-- A phase that is not an event. -/
theorem Linked.client (h : Linked s) {p : Phase} {connect : ErrType} {out : Outcome}
    (hphase : s.ctx.phase p = some (ctx', out))
    (hstep : WorkStep s.ctx hs connect out ctx') : Linked (s.after ctx' out) := by
  have hsound : Sound ctx' := h.sound.phase p ctx' out hphase
  cases hstep with
  | aside haside hout =>
      cases hcon : s.ctx.nc.fConnected with
      | true =>
          have hcon' : ctx'.nc.fConnected = true := by rw [haside.nc]; exact hcon
          refine h.same hsound hcon' hcon ?_ ?_ hout <;> rw [haside.nc]
      | false =>
          refine h.unconnected hcon hsound haside.nc fun data hno => ?_
          rw [hno] at hout
          exact nomatch hout
  | beat _ _ hcon hring => exact h.beat hcon hring hsound rfl
  | late _ _ hcon => exact h.unconnected hcon hsound rfl nofun
  | established _ _ hcon _ =>
      obtain ⟨hnc, hbuilt, -⟩ := h.before hcon
      rw [after_connected rfl rfl]
      refine ⟨hsound, nofun, fun _ => ⟨_, rfl, ?_⟩, h.index, h.built, h.up, h.down⟩
      show Queue.Holds 8 Queue.flagRB MtkConnect.newRing (s.built.map idx)
      rw [hbuilt]
      exact Queue.create_holds 8 Queue.flagRB
  | refused _ _ _ hcon hctx =>
      rw [(h.before hcon).1] at hctx
      exact nomatch hctx

/-! ### An event -/

/-- The event loop offers to write. -/
theorem Linked.write (h : Linked s) (hcon : s.ctx.nc.fConnected = true)
    (hwrite : s.ctx.nc.evWrite = true) (now : UInt64) :
    ∃ s' out, s.step (.event now) = some (s', out) ∧ Linked s' := by
  have hphase : s.ctx.phase (.nc true .nothing now) =
      (s.ctx.ncService true .nothing now).map Prod.swap := if_pos hcon
  have hstep : s.step (.event now) = s.client (.nc true .nothing now) := if_pos hwrite
  obtain ⟨ring, hring, hholds⟩ := h.ring hcon
  cases hempty : ring.empty with
  | true =>
      rw [ncService_empty h.sound.nc hcon hwrite hring hempty] at hphase
      refine ⟨_, _, by rw [hstep, Link.client, hphase]; rfl, ?_⟩
      have hsound := h.sound.phase _ _ _ hphase
      exact h.same hsound hcon hcon hring.symm rfl rfl
  | false =>
      rw [ncService_sent h.sound.nc hcon hwrite hring hempty] at hphase
      refine ⟨_, _, by rw [hstep, Link.client, hphase]; rfl, ?_⟩
      have hsound := h.sound.phase _ _ _ hphase
      cases hbuilt : s.built with
      | nil =>
          rw [hbuilt, List.map_nil] at hholds
          rw [hholds.empty_eq, decide_eq_false_iff_not] at hempty
          exact absurd rfl hempty
      | cons beat beats =>
          rw [hbuilt, List.map_cons] at hholds
          obtain ⟨-, hdata, hrest, -⟩ := hholds.deq
          have hle := h.built beat (by rw [hbuilt]; exact List.mem_cons_self)
          have hcon' : (((s.ctx.setNc ((s.ctx.nc.withRing ring.deq.2.2).withWait 0 0)).setRx
              0)).nc.fConnected = true := hcon
          unfold after
          dsimp only
          rw [if_pos hcon', hbuilt]
          refine ⟨hsound, fun hno => absurd (hcon'.symm.trans hno) nofun, fun _ => ⟨_, rfl, hrest⟩,
            h.index, fun b hb => ?_, fun e he => ?_, h.down⟩
          · exact h.built b (by rw [hbuilt]; exact List.mem_cons_of_mem _ hb)
          · rcases List.mem_append.mp he with hold | hnew
            · exact h.up e hold
            · rw [List.mem_singleton.mp hnew]
              exact ⟨hdata, hle⟩

theorem read_eq {m : Down} {rest : List Down} (hcon : s.ctx.nc.fConnected = true)
    (hwrite : s.ctx.nc.evWrite = false) (hdown : s.down = m :: rest) (now : UInt64) :
    s.step (.event now) = (s.ctx.ncService true (.byte m.byte) now).map fun r =>
      (s.after r.2 r.1, r.1) := by
  rw [step, hwrite, if_neg Bool.false_ne_true, hdown]
  dsimp only
  unfold Link.client
  rw [MtkContext.phase, if_pos hcon, Option.map_map]
  rfl

/-- A byte has been received. -/
theorem Linked.received (h : Linked s) (hcon : s.ctx.nc.fConnected = true) (hsound : Sound ctx')
    (hnc : ctx'.nc = receivedOne s.ctx.nc) (data : UInt8) :
    Linked (s.after ctx' (.received data)) := by
  have hcon' : ctx'.nc.fConnected = true := by rw [hnc]; exact hcon
  obtain ⟨ring, hring, hholds⟩ := h.ring hcon
  unfold after
  dsimp only
  rw [if_pos hcon']
  refine ⟨hsound, fun hno => absurd (hcon'.symm.trans hno) nofun, fun _ => ⟨ring, ?_, hholds⟩, ?_,
    fun b hb => (h.built b hb).trans (Nat.le_succ _), fun e he => ?_, fun d b hb => ?_⟩
  · rw [hnc]
    exact hring
  · rw [hnc, ← idx_succ, ← h.index]
    rfl
  · obtain ⟨hdata, hle⟩ := h.up e he
    exact ⟨hdata, hle.trans (Nat.le_succ _)⟩
  · have hmem : .echo d b ∈ s.down := by
      dsimp only at hb
      split at hb
      · exact hb
      · exact List.mem_of_mem_tail hb
    obtain ⟨hdata, hle⟩ := h.down d b hmem
    exact ⟨hdata, hle.trans (Nat.le_succ _)⟩

theorem readByte_handed (s : Link) (m : Down) :
    s.ctx.readByte (.byte m.byte) = some (s.handed m).byte := by
  unfold readByte handed
  split
  · rfl
  · rfl

/-- The value of `msgindex` is taken for an acknowledgement. -/
theorem Linked.acked (h : Linked s) {m : Down} {rest : List Down}
    (hcon : s.ctx.nc.fConnected = true) (hwrite : s.ctx.nc.evWrite = false)
    (hdown : s.down = m :: rest) {data : UInt8} {beat : Nat}
    (hhanded : s.handed m = .echo data beat) (hpos : 0 < s.reads) (hdata : data = idx s.reads)
    (now : UInt64) :
    ∃ s' out, s.step (.event now) = some (s', out) ∧ s.TakenAs s'.ctx out (s.handed m) ∧
      Linked s' := by
  obtain ⟨hs, hworks⟩ := h.sound.works
  have hread := readByte_handed s m
  rw [hhanded] at hread ⊢
  obtain rfl : s.ctx.nc.msgindex = data := h.index.trans hdata.symm
  have hne : s.ctx.nc.msgindex ≠ 0 := by
    rw [h.index]
    exact idx_ne_zero hpos
  obtain ⟨pq, hack, hpq⟩ := ncService_ack hworks h.sound.nc hcon hwrite hread hne true now
  have hsound := h.sound.phase (.nc true (.byte m.byte) now) _ _
    (by rw [MtkContext.phase, if_pos hcon, hack]; rfl)
  refine ⟨_, _, by rw [read_eq hcon hwrite hdown now, hack]; rfl, ?_,
    h.received hcon hsound rfl s.ctx.nc.msgindex⟩
  rw [after_ctx]
  refine ⟨rfl, rfl, ?_⟩
  rw [hworks.eq]
  exact hpq.eq

/-- A notice that finds room schedules its session. -/
theorem Linked.noticed (h : Linked s) {m : Down} {rest : List Down}
    (hcon : s.ctx.nc.fConnected = true) (hwrite : s.ctx.nc.evWrite = false)
    (hdown : s.down = m :: rest) (hhanded : s.handed m = .notice)
    (hcard : (pendingHandles s.ctx.worksPq).card < 7) (now : UInt64) :
    ∃ s' out, s.step (.event now) = some (s', out) ∧ s.TakenAs s'.ctx out (s.handed m) ∧
      Linked s' := by
  obtain ⟨hs, hworks⟩ := h.sound.works
  have hread := readByte_handed s m
  rw [hhanded] at hread ⊢
  rw [hworks.eq] at hcard
  have hroom : (add .ncKeepalive hs).card < 8 := by
    rw [add_room (by omega), Multiset.card_cons]
    omega
  obtain ⟨pq, hnotice, hpq⟩ :=
    ncService_notice hworks h.sound.nc hcon hwrite hread hroom true now
  have hsound := h.sound.phase (.nc true (.byte m.byte) now) _ _
    (by rw [MtkContext.phase, if_pos hcon, hnotice]; rfl)
  refine ⟨_, _, by rw [read_eq hcon hwrite hdown now, hnotice]; rfl, ?_,
    h.received hcon hsound rfl 0⟩
  rw [after_ctx]
  refine ⟨rfl, rfl, Function.update_self _ _ _, ?_⟩
  rw [hworks.eq]
  exact hpq.eq

/-- The echo of a heartbeat fits when it is the value of `msgindex`, after a receipt. -/
theorem Linked.fits_echo_iff (h : Linked s) {data : UInt8} {beat : Nat}
    (hmem : .echo data beat ∈ s.down) :
    s.Fits (.echo data beat) ↔ 0 < s.reads ∧ data = idx s.reads := by
  obtain ⟨rfl, hle⟩ := h.down data beat hmem
  constructor
  · rintro ⟨hpos, hdvd⟩
    exact ⟨by omega, (idx_eq_iff hpos hle).mpr hdvd⟩
  · rintro ⟨hreads, hidx⟩
    have hpos : 0 < beat := by
      refine Nat.pos_of_ne_zero fun hbeat => idx_ne_zero hreads ?_
      rw [← hidx, hbeat]
      rfl
    exact ⟨hpos, (idx_eq_iff hpos hle).mp hidx⟩

/-- A byte that fits is taken for what it is. -/
theorem Linked.read (h : Linked s) {m : Down} {rest : List Down}
    (hcon : s.ctx.nc.fConnected = true) (hwrite : s.ctx.nc.evWrite = false)
    (hdown : s.down = m :: rest) (hfits : s.HandedFits m) (now : UInt64) :
    ∃ s' out, s.step (.event now) = some (s', out) ∧ s.TakenAs s'.ctx out (s.handed m) ∧
      Linked s' := by
  unfold HandedFits at hfits
  split at hfits
  · next hfull => exact h.acked hcon hwrite hdown (if_pos hfull) hfits.1 hfits.2 now
  next hroom =>
  have hhanded : s.handed m = m := if_neg hroom
  cases m with
  | notice => exact h.noticed hcon hwrite hdown hhanded hfits now
  | echo data beat =>
      have hmem : .echo data beat ∈ s.down := by rw [hdown]; exact List.mem_cons_self
      obtain ⟨hpos, hdata⟩ := (h.fits_echo_iff hmem).mp hfits
      exact h.acked hcon hwrite hdown hhanded hpos hdata now

theorem not_takenAs_closed (m : Down) (code : ErrType) : ¬s.TakenAs ctx' (.closed code) m := by
  cases m with
  | notice => exact fun h => nomatch h.1
  | echo data beat => exact fun h => nomatch h.1

theorem not_takenAs_of_closed {m : Down} {rest : List Down} {ks : Multiset Handle}
    {code : ErrType} {now : UInt64} (hcon : s.ctx.nc.fConnected = true)
    (hwrite : s.ctx.nc.evWrite = false) (hdown : s.down = m :: rest)
    (hclosed : Closed ks (s.ctx.ncService true (.byte m.byte) now) code) (m' : Down) :
    ∃ s' out, s.step (.event now) = some (s', out) ∧ ¬s.TakenAs s'.ctx out m' := by
  obtain ⟨ctx', hsome, -⟩ := hclosed
  exact ⟨_, _, by rw [read_eq hcon hwrite hdown now, hsome]; rfl, not_takenAs_closed m' code⟩

/-- Any other byte is not taken for an acknowledgement: it schedules a session, or closes the
connection. -/
theorem Linked.not_acked (h : Linked s) {m : Down} {rest : List Down}
    (hcon : s.ctx.nc.fConnected = true) (hwrite : s.ctx.nc.evWrite = false)
    (hdown : s.down = m :: rest) {data : UInt8} {beat : Nat}
    (hhanded : s.handed m = .echo data beat) (hno : ¬(0 < s.reads ∧ data = idx s.reads))
    (now : UInt64) :
    ∃ s' out, s.step (.event now) = some (s', out) ∧ ¬s.TakenAs s'.ctx out (s.handed m) := by
  obtain ⟨hs, hworks⟩ := h.sound.works
  have hread := readByte_handed s m
  rw [hhanded] at hread ⊢
  by_cases hzero : data = 0
  · -- the byte 0 is a notice to the client
    subst hzero
    by_cases hroom : (add .ncKeepalive hs).card < 8
    · obtain ⟨pq, hsome, -⟩ :=
        ncService_notice hworks h.sound.nc hcon hwrite hread hroom true now
      refine ⟨_, _, by rw [read_eq hcon hwrite hdown now, hsome]; rfl, ?_⟩
      rw [after_ctx]
      intro htaken
      have hbase : s.ctx.sessionBaseid + 1 = s.ctx.sessionBaseid := htaken.2.1
      omega
    · exact not_takenAs_of_closed hcon hwrite hdown
        (ncService_notice_full hworks h.sound.nc hcon hwrite hread hroom true now) _
  · refine not_takenAs_of_closed hcon hwrite hdown
      (ncService_stray hworks h.sound.nc hcon hwrite hread hzero (fun hindex => hno ?_) true now) _
    have hdata : data = idx s.reads := hindex.trans h.index
    refine ⟨Nat.pos_of_ne_zero fun hreads => hzero ?_, hdata⟩
    rw [hdata, hreads]
    rfl

/-- A byte that does not fit is taken for something else, or closes the connection. -/
theorem Linked.misread (h : Linked s) {m : Down} {rest : List Down}
    (hcon : s.ctx.nc.fConnected = true) (hwrite : s.ctx.nc.evWrite = false)
    (hdown : s.down = m :: rest) (hmisfit : ¬s.HandedFits m) (now : UInt64) :
    ∃ s' out, s.step (.event now) = some (s', out) ∧ ¬s.TakenAs s'.ctx out (s.handed m) := by
  unfold HandedFits at hmisfit
  split at hmisfit
  · next hfull => exact h.not_acked hcon hwrite hdown (if_pos hfull) hmisfit now
  next hroom =>
  have hhanded : s.handed m = m := if_neg hroom
  obtain ⟨hs, hworks⟩ := h.sound.works
  cases m with
  | notice =>
      have hread := readByte_handed s .notice
      rw [hhanded] at hread
      refine not_takenAs_of_closed hcon hwrite hdown (ncService_notice_full hworks h.sound.nc hcon
        hwrite hread (fun hroom => hmisfit ?_) true now) _
      show (pendingHandles s.ctx.worksPq).card < 7
      rw [hworks.eq]
      unfold add at hroom
      split at hroom
      · rw [Multiset.card_cons] at hroom
        omega
      · omega
  | echo data beat =>
      have hmem : .echo data beat ∈ s.down := by rw [hdown]; exact List.mem_cons_self
      exact h.not_acked hcon hwrite hdown hhanded
        (fun hfits => hmisfit ((h.fits_echo_iff hmem).mpr hfits)) now

/-! ### Runs -/

theorem mem_next {m : Down} (hm : m ∈ s.next) :
    s.ctx.nc.evWrite = false ∧ ∃ rest, s.down = m :: rest := by
  unfold next at hm
  split at hm
  · exact nomatch hm
  · next hwrite => exact ⟨Bool.eq_false_of_not_eq_true hwrite, List.head?_eq_some_iff.mp hm⟩

theorem Linked.connected (h : Linked s) {m : Down} {rest : List Down}
    (hdown : s.down = m :: rest) : s.ctx.nc.fConnected = true := by
  refine Bool.eq_true_of_not_eq_false fun hcon => ?_
  rw [(h.before hcon).2.2.2] at hdown
  exact nomatch hdown

theorem agrees_iff (h : Linked s) (m : Move) : s.Agrees m ↔ s.Timely m := by
  cases m with
  | event now =>
      refine forall₂_congr fun m hm => ?_
      obtain ⟨hwrite, rest, hdown⟩ := mem_next hm
      have hcon := h.connected hdown
      constructor
      · rintro ⟨r, hr, htaken⟩
        by_contra hmisfit
        obtain ⟨s', out, hstep, hno⟩ := h.misread hcon hwrite hdown hmisfit now
        obtain rfl := Option.some.inj (hr.symm.trans hstep)
        exact hno htaken
      · intro hfits
        obtain ⟨s', out, hstep, htaken, -⟩ := h.read hcon hwrite hdown hfits now
        exact ⟨_, hstep, htaken⟩
  | client p => exact Iff.rfl
  | echo => exact Iff.rfl
  | notice => exact Iff.rfl

theorem Linked.phase (h : Linked s) {p : Phase}
    (hwork : p.apart = true ∨ ∃ connect built now, p = .work connect built now) :
    ∀ s' out, s.client p = some (s', out) → Linked s' := by
  intro s' out hclient
  obtain ⟨⟨ctx', out'⟩, hphase, hr⟩ := Option.map_eq_some_iff.mp hclient
  obtain ⟨rfl, rfl⟩ := Prod.mk.inj hr
  obtain ⟨hs, hworks⟩ := h.sound.works
  rcases hwork with hapart | ⟨connect, built, now, rfl⟩
  · obtain ⟨haside, hout⟩ := phase_aside hapart hphase
    have hstep : WorkStep s.ctx hs .etOk out' ctx' := .aside haside hout
    exact h.client hphase hstep
  · exact h.client hphase (serviceWork_step hworks h.sound.nc (eq_of_map_swap hphase))

theorem Linked.event (h : Linked s) {now : UInt64} (htimely : s.Timely (.event now)) :
    ∃ s' out, s.step (.event now) = some (s', out) ∧ Linked s' := by
  have hquiet (hwrite : s.ctx.nc.evWrite = false) (hdown : s.down = []) :
      ∃ s' out, s.step (.event now) = some (s', out) ∧ Linked s' := by
    refine ⟨s, .idle, ?_, h⟩
    rw [Link.step, hwrite, if_neg Bool.false_ne_true, hdown]
  cases hcon : s.ctx.nc.fConnected with
  | false =>
      obtain ⟨hnc, -, -, hdown⟩ := h.before hcon
      exact hquiet (by rw [hnc]; rfl) hdown
  | true =>
      cases hwrite : s.ctx.nc.evWrite with
      | true => exact h.write hcon hwrite now
      | false =>
          cases hdown : s.down with
          | nil => exact hquiet hwrite hdown
          | cons m rest =>
              have hnext : s.next = some m := by
                rw [next, hwrite, if_neg Bool.false_ne_true, hdown]
                rfl
              obtain ⟨s', out, hstep, -, h'⟩ :=
                h.read hcon hwrite hdown (htimely m hnext) now
              exact ⟨s', out, hstep, h'⟩

/-- **A move keeps the invariant**, if the byte it reads fits. -/
theorem Linked.step (h : Linked s) {m : Move} (htimely : s.Timely m) :
    After Link.step Linked s m := by
  intro s' out hstep
  cases m with
  | event now =>
      obtain ⟨s₁, out₁, hstep₁, h₁⟩ := h.event htimely
      obtain ⟨rfl, -⟩ := Prod.mk.inj (Option.some.inj (hstep₁.symm.trans hstep))
      exact h₁
  | client p =>
      cases p with
      | nc sent recv now => exact (Prod.mk.inj (Option.some.inj hstep)).1 ▸ h
      | timeout now => exact (Prod.mk.inj (Option.some.inj hstep)).1 ▸ h
      | work connect built now => exact h.phase (.inr ⟨connect, built, now, rfl⟩) s' out hstep
      | ncStart us now => exact h.phase (.inl rfl) s' out hstep
      | voicefileSend chunknum now => exact h.phase (.inl rfl) s' out hstep
      | voicefileRecv fileid now => exact h.phase (.inl rfl) s' out hstep
      | dc sent recv now => exact h.phase (.inl rfl) s' out hstep
  | echo =>
      unfold Link.step at hstep
      cases hup : s.up with
      | nil =>
          rw [hup] at hstep
          exact (Prod.mk.inj (Option.some.inj hstep)).1 ▸ h
      | cons e up =>
          rw [hup] at hstep
          rw [← (Prod.mk.inj (Option.some.inj hstep)).1]
          obtain ⟨hdata, hle⟩ := h.up e (by rw [hup]; exact List.mem_cons_self)
          refine ⟨h.sound, fun hcon => ?_, h.ring, h.index, h.built, fun e' he' => ?_,
            fun d b hb => ?_⟩
          · rw [(h.before hcon).2.2.1] at hup
            exact nomatch hup
          · exact h.up e' (by rw [hup]; exact List.mem_cons_of_mem _ he')
          · rcases List.mem_append.mp hb with hold | hnew
            · exact h.down d b hold
            · obtain ⟨rfl, rfl⟩ := Down.echo.inj (List.mem_singleton.mp hnew)
              exact ⟨hdata, hle⟩
  | notice =>
      have hs' := (Prod.mk.inj (Option.some.inj hstep)).1
      cases hcon : s.ctx.nc.fConnected with
      | false =>
          rw [hcon, if_neg Bool.false_ne_true] at hs'
          exact hs' ▸ h
      | true =>
          rw [if_pos hcon] at hs'
          rw [← hs']
          refine ⟨h.sound, fun hno => absurd (hcon.symm.trans hno) nofun, h.ring, h.index, h.built,
            h.up, fun d b hb => ?_⟩
          rcases List.mem_append.mp hb with hold | hnew
          · exact h.down d b hold
          · exact nomatch List.mem_singleton.mp hnew

/--
**The bytes are taken for what they are** in exactly the runs in which each of them fits:
the echo of a heartbeat comes a multiple of 255 receipts after it was built, which was
after a receipt, and a notice comes when six works are pending at most.
-/
theorem notices_iff (ms : List Move) : Meets step Agrees create ms ↔ Meets step Timely create ms :=
  meets_congr (J := Linked) (fun _ m h => agrees_iff h m) (fun _ _ h htimely => h.step htimely) ms
    create_linked

/-- The first heartbeat, whose echo is taken for a notice. -/
theorem notices_echo_zero :
    ¬Meets step Agrees create
      [.client (.ncStart 0 0), .client (.work .etOk .etOk 0),
        .client (.work .etOk .etOk 60000000), .event 60000000, .echo, .event 60000001] := by
  decide +kernel

end Link

end Awoke.Mtk
