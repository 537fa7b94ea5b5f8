/-
A log that is exported and imported on the way.

An import makes a ring buffer that says it is full, since the number of bytes held is not
exported; and the bytes are exported as a string.  So what comes back is what was there
exactly if the ring was full, and had no text behind a zero.  Then it is the same ring
buffer in every field, and the run goes on as if nothing had been (`memtrace_log_iff`).
-/
import Awoke.Benchmark.MemtraceLog
import Awoke.Lib.Run
import Mathlib.Data.List.GetD
import Mathlib.Data.List.Rotate
import Mathlib.Data.List.Range

namespace Awoke.Memtrace

/-! ### What is known of the ring buffer -/

/-- A ring buffer in use: what `init` and `write` make. -/
inductive RingOps.Reached (ops : RingOps) : AwokeRingbuffer → Prop
  | init (mem : List UInt8) (length : UInt32) (h : mem.length = length.toNat) :
      Reached ops (ops.init mem length)
  | write {rb : AwokeRingbuffer} (h : Reached ops rb) (str : List UInt8) :
      Reached ops (ops.write rb str)

/-- The last `n` elements of a list. -/
def lastN {α : Type*} (n : Nat) (l : List α) : List α := l.drop (l.length - n)

/-- A byte ring: it holds `count` bytes, in a full one every byte of `buf` is held once, and
a write keeps the last `length` of all bytes. -/
structure RingOps.Lawful (ops : RingOps) : Prop where
  order_length : ∀ length head tail count, count ≤ length →
    (ops.order length head tail count).length = count.toNat
  order_full : ∀ length head tail,
    (ops.order length head tail length).Perm (List.range length.toNat)
  count_le : ∀ {rb}, ops.Reached rb → rb.count ≤ rb.length
  buf_length : ∀ {rb}, ops.Reached rb → rb.buf.length = rb.length.toNat
  init_length : ∀ mem length, (ops.init mem length).length = length
  init_content : ∀ mem length, ops.content (ops.init mem length) = []
  write_length : ∀ rb str, (ops.write rb str).length = rb.length
  write_content : ∀ {rb}, ops.Reached rb → ∀ str,
    ops.content (ops.write rb str) = lastN rb.length.toNat (ops.content rb ++ str)

/-! ### Strings -/

/-- Behind a zero there are only zeros. -/
def ZerosBehindZero (bs : List UInt8) : Prop := bs.Pairwise fun a b => a = 0 → b = 0

instance (bs : List UInt8) : Decidable (ZerosBehindZero bs) :=
  inferInstanceAs (Decidable (bs.Pairwise _))

theorem strncpy_cons_zero (bs : List UInt8) :
    strncpy (0 :: bs) = List.replicate (bs.length + 1) 0 := rfl

theorem strncpy_cons {b : UInt8} (h : b ≠ 0) (bs : List UInt8) :
    strncpy (b :: bs) = b :: strncpy bs := by
  unfold strncpy
  rw [List.takeWhile_cons_of_pos (by simpa using h)]
  simp

/-- A copy as a string is the same exactly if there are only zeros behind a zero. -/
theorem strncpy_eq_iff (bs : List UInt8) : strncpy bs = bs ↔ ZerosBehindZero bs := by
  induction bs with
  | nil => exact iff_of_true rfl List.Pairwise.nil
  | cons b bs ih =>
      by_cases hb : b = 0
      · subst hb
        rw [strncpy_cons_zero, eq_comm, List.eq_replicate_iff, ZerosBehindZero,
          List.pairwise_cons]
        constructor
        · rintro ⟨-, hall⟩
          refine ⟨fun b hmem _ => hall b (List.mem_cons_of_mem _ hmem), ?_⟩
          refine List.pairwise_of_forall_mem_list fun a _ b hmem _ => ?_
          exact hall b (List.mem_cons_of_mem _ hmem)
        · rintro ⟨hall, -⟩
          refine ⟨rfl, fun b hmem => ?_⟩
          rcases List.mem_cons.mp hmem with rfl | hmem
          · rfl
          · exact hall b hmem rfl
      · rw [strncpy_cons hb, List.cons_inj_right, ih, ZerosBehindZero, ZerosBehindZero,
          List.pairwise_cons]
        exact ⟨fun h => ⟨fun _ _ hzero => absurd hzero hb, h⟩, fun h => h.2⟩

theorem strncpy_length (bs : List UInt8) : (strncpy bs).length = bs.length := by
  have hle := (List.takeWhile_sublist (l := bs) (· ≠ 0)).length_le
  unfold strncpy
  rw [List.length_append, List.length_replicate]
  omega

/-! ### One cycle -/

variable {ops : RingOps}

theorem RingOps.Lawful.content_length (h : ops.Lawful) {rb : AwokeRingbuffer}
    (hle : rb.count ≤ rb.length) : (ops.content rb).length = rb.count.toNat := by
  rw [RingOps.content, List.length_map, h.order_length _ _ _ _ hle]

theorem RingOps.Lawful.full_injective (h : ops.Lawful) (rb : AwokeRingbuffer) {bs bs' : List UInt8}
    (hbs : bs.length = rb.length.toNat) (hbs' : bs'.length = rb.length.toNat)
    (heq : ops.content { rb with buf := bs, count := rb.length } =
      ops.content { rb with buf := bs', count := rb.length }) : bs = bs' := by
  refine List.ext_getElem (hbs.trans hbs'.symm) fun i hi hi' => ?_
  have hmem : i ∈ ops.order rb.length rb.head rb.tail rb.length :=
    (h.order_full _ _ _).mem_iff.mpr (List.mem_range.mpr (hbs ▸ hi))
  have hget : bs.getD i 0 = bs'.getD i 0 := List.map_inj_left.mp heq i hmem
  rwa [List.getD_eq_getElem _ _ hi, List.getD_eq_getElem _ _ hi'] at hget

theorem import_export {ctx : LogContext} (hsize : ctx.logBufsz = ctx.rbLog.length)
    (hbuf : ctx.rbLog.buf.length = ctx.rbLog.length.toNat) :
    memtraceLogImport (memtraceClean ops ctx) (memtraceLogExport ctx) =
      { ctx with rbLog := { ctx.rbLog with
          buf := strncpy ctx.rbLog.buf
          count := ctx.rbLog.length } } := by
  have htake : ctx.rbLog.buf.take ctx.rbLog.length.toNat = ctx.rbLog.buf := by
    rw [← hbuf, List.take_length]
  have htake' : (strncpy ctx.rbLog.buf).take ctx.rbLog.length.toNat = strncpy ctx.rbLog.buf := by
    rw [← hbuf, ← strncpy_length, List.take_length]
  simp only [memtraceLogImport, memtraceLogExport, hsize, htake, htake']

/-- The ring is full, and can be copied as a string. -/
def FullText (rb : AwokeRingbuffer) : Prop := rb.count = rb.length ∧ ZerosBehindZero rb.buf

instance (rb : AwokeRingbuffer) : Decidable (FullText rb) := inferInstanceAs (Decidable (_ ∧ _))

/-- A log in use. -/
structure InUse (ops : RingOps) (ctx : LogContext) : Prop where
  size : ctx.logBufsz = ctx.rbLog.length
  ring : ops.Reached ctx.rbLog

theorem InUse.cycle_same (h : ops.Lawful) {ctx : LogContext} (hctx : InUse ops ctx)
    (hfull : FullText ctx.rbLog) : logStep ops ctx .cycle = ctx := by
  show memtraceLogImport (memtraceClean ops ctx) (memtraceLogExport ctx) = ctx
  rw [import_export hctx.size (h.buf_length hctx.ring), (strncpy_eq_iff _).mpr hfull.2, ← hfull.1]

/-- **One cycle keeps what the log holds** exactly if its ring is full and holds a text. -/
theorem InUse.cycle_iff (h : ops.Lawful) {ctx : LogContext} (hctx : InUse ops ctx) :
    ops.content (logStep ops ctx .cycle).rbLog = ops.content ctx.rbLog ↔ FullText ctx.rbLog := by
  constructor
  · intro hsame
    have hbuf := h.buf_length hctx.ring
    have hback : (logStep ops ctx .cycle).rbLog =
        { ctx.rbLog with buf := strncpy ctx.rbLog.buf, count := ctx.rbLog.length } := by
      show (memtraceLogImport (memtraceClean ops ctx) (memtraceLogExport ctx)).rbLog = _
      rw [import_export hctx.size hbuf]
    rw [hback] at hsame
    have hlen := congrArg List.length hsame
    rw [h.content_length (UInt32.le_refl _), h.content_length (h.count_le hctx.ring)] at hlen
    have hfull : ctx.rbLog.count = ctx.rbLog.length := (UInt32.toNat_inj.mp hlen).symm
    refine ⟨hfull, (strncpy_eq_iff _).mp ?_⟩
    have hself : { ctx.rbLog with count := ctx.rbLog.length } = ctx.rbLog := by rw [← hfull]
    refine h.full_injective ctx.rbLog ((strncpy_length _).trans hbuf) hbuf ?_
    exact hsame.trans (congrArg ops.content hself.symm)
  · intro hfull
    rw [hctx.cycle_same h hfull]

/-! ### Runs -/

/-- A log, and one that gets the same writes and is never exported. -/
structure Twins where
  ctx : LogContext
  whole : LogContext
  deriving DecidableEq

/-- A step of both. -/
def Twins.step (ops : RingOps) (s : Twins) (i : LogOp) : Twins × Unit :=
  match i with
  | .write str => ({ ctx := logStep ops s.ctx i, whole := memtraceLogWrite ops s.whole str }, ())
  | .cycle => ({ s with ctx := logStep ops s.ctx i }, ())

/-- The two hold the same, and have room for as much. -/
def Twins.Same (ops : RingOps) (s : Twins) : Prop :=
  ops.content s.ctx.rbLog = ops.content s.whole.rbLog ∧ s.ctx.rbLog.length = s.whole.rbLog.length

/-- The log is exported only when its ring is full and holds a text. -/
def Twins.ExportsFull (s : Twins) (i : LogOp) : Prop := i = .cycle → FullText s.ctx.rbLog

instance (ops : RingOps) : DecidablePred (Twins.Same ops) := fun _ =>
  inferInstanceAs (Decidable (_ ∧ _))

instance (s : Twins) (i : LogOp) : Decidable (s.ExportsFull i) :=
  inferInstanceAs (Decidable (_ → _))

/-- Two logs in use that hold the same. -/
structure Paired (ops : RingOps) (s : Twins) : Prop where
  same : s.Same ops
  ctx : InUse ops s.ctx
  whole : InUse ops s.whole

theorem InUse.write {ctx : LogContext} (h : ops.Lawful) (hctx : InUse ops ctx)
    (str : List UInt8) : InUse ops (memtraceLogWrite ops ctx str) :=
  ⟨hctx.size.trans (h.write_length _ _).symm, .write hctx.ring str⟩

theorem Paired.write (h : ops.Lawful) {s : Twins} (hs : Paired ops s) (str : List UInt8) :
    Paired ops (s.step ops (.write str)).1 := by
  refine ⟨⟨?_, ?_⟩, hs.ctx.write h str, hs.whole.write h str⟩
  · show ops.content (ops.write s.ctx.rbLog str) = ops.content (ops.write s.whole.rbLog str)
    rw [h.write_content hs.ctx.ring, h.write_content hs.whole.ring, hs.same.1, hs.same.2]
  · show (ops.write s.ctx.rbLog str).length = (ops.write s.whole.rbLog str).length
    rw [h.write_length, h.write_length, hs.same.2]

theorem cycle_length (ops : RingOps) (ctx : LogContext) :
    (logStep ops ctx .cycle).rbLog.length = ctx.rbLog.length := rfl

theorem Paired.step_iff (h : ops.Lawful) {s : Twins} (hs : Paired ops s) (i : LogOp) :
    (s.step ops i).1.Same ops ↔ s.ExportsFull i := by
  cases i with
  | write str => exact iff_of_true (hs.write h str).same fun heq => nomatch heq
  | cycle =>
      have hiff := hs.ctx.cycle_iff h
      rw [hs.same.1] at hiff
      constructor
      · exact fun hsame _ => hiff.mp hsame.1
      · exact fun hfull => ⟨hiff.mpr (hfull rfl), (cycle_length ops s.ctx).trans hs.same.2⟩

theorem Paired.step (h : ops.Lawful) {s : Twins} (hs : Paired ops s) {i : LogOp}
    (hi : s.ExportsFull i) : Paired ops (s.step ops i).1 := by
  cases i with
  | write str => exact hs.write h str
  | cycle =>
      have heq : (s.step ops .cycle).1 = s := by
        show { s with ctx := logStep ops s.ctx .cycle } = s
        rw [hs.ctx.cycle_same h (hi rfl)]
      rw [heq]
      exact hs

/-- Two logs that were just created. -/
def Twins.init (ops : RingOps) (mem : Cells UInt8) (size : UInt32) : Twins :=
  { ctx := memtraceLogInit ops mem size, whole := memtraceLogInit ops mem size }

theorem init_paired (h : ops.Lawful) (mem : Cells UInt8) (size : UInt32) :
    Paired ops (.init ops mem size) := by
  have huse : InUse ops (memtraceLogInit ops mem size) :=
    ⟨(h.init_length _ _).symm, .init _ _ (Cells.slice_length _ _ _)⟩
  exact ⟨⟨rfl, rfl⟩, huse, huse⟩

/-- **A log that is exported and imported on the way is the log that is not**, all along a
run, exactly if every export finds the ring full, and a text in it. -/
theorem memtrace_log_iff (ops : RingOps) (h : ops.Lawful) (mem : Cells UInt8) (size : UInt32)
    (is : List LogOp) :
    Machine.Always (Machine.total (Twins.step ops)) (Twins.Same ops) (.init ops mem size) is ↔
      Machine.Meets (Machine.total (Twins.step ops)) Twins.ExportsFull (.init ops mem size) is := by
  have hinit := init_paired h mem size
  refine (and_iff_right hinit.same).trans
    (Machine.meets_congr (J := Paired ops) (fun s i hs => ?_) (fun s i hs hi => ?_) is hinit)
  · exact (Machine.after_some (P := Twins.Same ops)
      (Machine.total_apply (Twins.step ops) s i)).trans (hs.step_iff h i)
  · exact (Machine.after_some (P := Paired ops) (Machine.total_apply (Twins.step ops) s i)).mpr
      (hs.step h hi)

/-! ### A ring buffer -/

/-- A byte ring that moves its bytes to the front of its memory with every write. -/
def frontRing : RingOps where
  init mem length := { buf := mem, length := length, head := 0, tail := 0, count := 0 }
  write rb str :=
    let held := ((List.range rb.length.toNat).rotate rb.tail.toNat).take rb.count.toNat
    let bs := lastN rb.length.toNat (held.map (fun i => rb.buf.getD i 0) ++ str)
    { buf := bs ++ rb.buf.drop bs.length
      length := rb.length
      head := if bs.length = rb.length.toNat then 0 else UInt32.ofNat bs.length
      tail := 0
      count := UInt32.ofNat bs.length }
  clear rb := { rb with head := 0, tail := 0, count := 0 }
  order length _ tail count := ((List.range length.toNat).rotate tail.toNat).take count.toNat

theorem lastN_length {α : Type*} (n : Nat) (l : List α) : (lastN n l).length ≤ n := by
  rw [lastN, List.length_drop]
  omega

theorem frontRing_write (rb : AwokeRingbuffer) (str : List UInt8) :
    ∃ bs, bs = lastN rb.length.toNat (frontRing.content rb ++ str) ∧
      (UInt32.ofNat bs.length).toNat = bs.length ∧ bs.length ≤ rb.length.toNat ∧
      (frontRing.write rb str).buf = bs ++ rb.buf.drop bs.length ∧
      (frontRing.write rb str).count = UInt32.ofNat bs.length := by
  refine ⟨_, rfl, ?_, lastN_length _ _, rfl, rfl⟩
  have hle := lastN_length rb.length.toNat (frontRing.content rb ++ str)
  have hlt := rb.length.toNat_lt
  exact UInt32.toNat_ofNat_of_lt' (Nat.lt_of_le_of_lt hle hlt)

theorem frontRing_reached {rb : AwokeRingbuffer} (h : frontRing.Reached rb) :
    rb.count ≤ rb.length ∧ rb.buf.length = rb.length.toNat := by
  induction h with
  | init mem length h => exact ⟨UInt32.zero_le, h⟩
  | @write rb _ str ih =>
      obtain ⟨bs, -, hsize, hle, hbuf, hcount⟩ := frontRing_write rb str
      have hlength : (frontRing.write rb str).length = rb.length := rfl
      rw [hbuf, hcount, hlength, UInt32.le_iff_toNat_le, hsize, List.length_append,
        List.length_drop, ih.2]
      omega

theorem map_range_getD {n : Nat} (bs more : List UInt8) (h : bs.length ≤ n) :
    ((List.range n).take bs.length).map (fun i => (bs ++ more).getD i 0) = bs := by
  rw [List.take_range, Nat.min_eq_left h]
  refine List.ext_getElem (by simp) fun i _ hi => ?_
  rw [List.getElem_map, List.getElem_range, List.getD_append _ _ _ _ hi,
    List.getD_eq_getElem _ _ hi]

/-- It is a byte ring. -/
theorem frontRing_lawful : frontRing.Lawful where
  order_length length head tail count h := by
    rw [UInt32.le_iff_toNat_le] at h
    show (((List.range length.toNat).rotate tail.toNat).take count.toNat).length = count.toNat
    rw [List.length_take, List.length_rotate, List.length_range, Nat.min_eq_left h]
  order_full length head tail := by
    show (((List.range length.toNat).rotate tail.toNat).take length.toNat).Perm _
    rw [List.take_of_length_le (by rw [List.length_rotate, List.length_range])]
    exact List.rotate_perm _ _
  count_le h := (frontRing_reached h).1
  buf_length h := (frontRing_reached h).2
  init_length _ _ := rfl
  init_content _ _ := rfl
  write_length _ _ := rfl
  write_content {rb} _ str := by
    obtain ⟨bs, hbs, hsize, hle, hbuf, hcount⟩ := frontRing_write rb str
    rw [← hbs]
    show (((List.range rb.length.toNat).rotate 0).take (frontRing.write rb str).count.toNat).map
      (fun i => (frontRing.write rb str).buf.getD i 0) = bs
    rw [hbuf, hcount, hsize, List.rotate_zero]
    exact map_range_getD bs _ hle

/-- Two bytes fill the log of two bytes, which then is exported and goes on. -/
theorem memtrace_log_iff_full :
    Machine.Always (Machine.total (Twins.step frontRing)) (Twins.Same frontRing)
      (.init frontRing (fun _ => 0) 2) [.write [65, 66], .cycle, .write [67]] :=
  (memtrace_log_iff frontRing frontRing_lawful (fun _ => 0) 2
    [.write [65, 66], .cycle, .write [67]]).mpr (by decide)

/-- With one byte in a log of two it comes back with two. -/
theorem memtrace_log_grows :
    ¬Machine.Always (Machine.total (Twins.step frontRing)) (Twins.Same frontRing)
      (.init frontRing (fun _ => 0) 2) [.write [65], .cycle] := by
  decide

end Awoke.Memtrace
