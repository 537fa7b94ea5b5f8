/-
When the receive buffer holds what was received and not yet consumed.

Between two steps the length of the buffer should be the bytes received so far less
those taken out, and lie between 0 and the buffer's size.  For a poll at
`poll_repeat` it is the length after `c` was added that counts: that is what the next
turn works on.

There are three ways to lose this: more bytes are received than fit behind those
already there, a protocol's `rlen` takes out more than there is, or a turn jumps back
to `poll_repeat` while `c` still counts bytes that were already added.  `Safe` says a
step is none of these, and `rxpoll_balanced_iff` that nothing else matters, for any
protocols, either poller and every run.
-/
import Awoke.Cmder.Xfer
import Awoke.Lib.Run

namespace Awoke.Cmder

variable {σ : Type}

/-- The buffer, as the next turn works on it if a poll is under way. -/
def Tcvr.buffer : Tcvr σ → Buffchunk
  | .idle buffer _ | .crashed buffer _ => buffer
  | .polling s => s.entered

/-- The buffer holds `t` bytes, and they lie inside it. -/
structure Balanced (room : Int) (tcvr : Tcvr σ) (t : Int) : Prop where
  size : tcvr.buffer.size = room
  length : tcvr.buffer.length = t
  low : 0 ≤ t
  high : t ≤ room

/-- Bytes outstanding: those received come in, those consumed go out. -/
def Outstanding (t : Int) (_ : Input) (o : Traffic) (t' : Int) : Prop :=
  t' = t + o.received - o.consumed

/-! ### The condition -/

/-- Taking `n` bytes from the front leaves a length inside the buffer. -/
def Polling.Leaves (s : Polling σ) (n : Int) : Prop :=
  0 ≤ s.entered.length - n ∧ s.entered.length - n ≤ s.entered.size

instance (s : Polling σ) (n : Int) : Decidable (s.Leaves n) :=
  inferInstanceAs (Decidable (_ ∧ _))

/-- A verdict takes out no more than there is, and jumps back only with `c` spent. -/
def Polling.SafeVerdict (s : Polling σ) : Verdict → Prop
  | .matched n =>
      s.Leaves n ∧ (s.entered.length - n ≠ 0 → s.poller = .tcp → s.c ≤ 0)
  | .paramError n => s.Leaves n
  | .scanned n => s.Leaves n ∧ (s.entered.length - n = 0 → s.c ≤ 0)
  | .failed _ | .incomplete | .none => True

instance (s : Polling σ) : DecidablePred s.SafeVerdict
  | .matched n => inferInstanceAs (Decidable
      (s.Leaves n ∧ (s.entered.length - n ≠ 0 → s.poller = .tcp → s.c ≤ 0)))
  | .paramError n => inferInstanceAs (Decidable (s.Leaves n))
  | .scanned n => inferInstanceAs (Decidable
      (s.Leaves n ∧ (s.entered.length - n = 0 → s.c ≤ 0)))
  | .failed _ | .incomplete | .none => inferInstanceAs (Decidable True)

/-- What the protocols say about the buffer of a turn. -/
def Polling.verdict (protos : List (Protocol σ)) (s : Polling σ) : Verdict :=
  (examine protos s.entered.p s.entered.length s.env s.rlen).1

/-- What is received fits, and a turn's verdict is safe. -/
def Safe (protos : List (Protocol σ)) : Tcvr σ → Input → Prop
  | .idle buffer _, .call _ (.data bs) _ => buffer.length + bs.length ≤ buffer.size
  | .polling s, .turn => s.c > 0 ∨ s.buffer.length ≠ 0 → s.SafeVerdict (s.verdict protos)
  | _, _ => True

instance (protos : List (Protocol σ)) (t : Tcvr σ) : DecidablePred (Safe protos t)
  | .call _ (.data bs) _ =>
      match t with
      | .idle buffer _ => inferInstanceAs (Decidable (buffer.length + bs.length ≤ buffer.size))
      | .polling _ | .crashed _ _ => inferInstanceAs (Decidable True)
  | .call _ .nothing _ | .call _ .accept _ =>
      match t with
      | .idle _ _ | .polling _ | .crashed _ _ => inferInstanceAs (Decidable True)
  | .turn =>
      match t with
      | .idle _ _ | .crashed _ _ => inferInstanceAs (Decidable True)
      | .polling s => inferInstanceAs (Decidable
          (s.c > 0 ∨ s.buffer.length ≠ 0 → s.SafeVerdict (s.verdict protos)))

/-! ### One step -/

variable {protos : List (Protocol σ)} {room t : Int} {s : Polling σ}

theorem stepRefines_iff (tcvr : Tcvr σ) (i : Input) :
    Machine.StepRefines (Machine.total (step protos)) Outstanding (Balanced room) tcvr t i ↔
      Balanced room (step protos tcvr i).1
        (t + (step protos tcvr i).2.received - (step protos tcvr i).2.consumed) := by
  constructor
  · rintro ⟨tcvr', o, t', hstep, hspec, hbalanced⟩
    rw [Machine.total_apply, Option.some.injEq] at hstep
    rw [hstep, ← show t' = _ from hspec]
    exact hbalanced
  · intro hbalanced
    exact ⟨_, _, _, rfl, rfl, hbalanced⟩

/-- Taking `n` bytes out and returning. -/
theorem balanced_idle_iff (h : Balanced room (.polling s) t) (n : Int) (env : σ) :
    Balanced room (.idle (s.entered.backoff n) env) (t - n) ↔ s.Leaves n := by
  have hsize : s.entered.size = room := h.size
  have hlength : s.entered.length = t := h.length
  unfold Polling.Leaves
  rw [hlength, hsize]
  constructor
  · intro h'
    exact ⟨h'.low, h'.high⟩
  · intro h'
    exact ⟨hsize, congrArg (· - n) hlength, h'.1, h'.2⟩

/-- Taking `n` bytes out and jumping back adds `c` once more. -/
theorem balanced_goto_iff (h : Balanced room (.polling s) t) (n : Int) (env : σ) (rlen : Int) :
    Balanced room (s.goto (s.entered.backoff n) env rlen) (t - n) ↔ s.Leaves n ∧ s.c ≤ 0 := by
  rw [← balanced_idle_iff h n env]
  by_cases hc : s.c > 0
  · refine ⟨fun h' => ?_, fun h' => absurd hc (Int.not_lt.mpr h'.2)⟩
    have hlength : s.entered.length = t := h.length
    have hagain : s.entered.length - n + s.c = t - n := by
      have := h'.length
      simpa [Polling.goto, Tcvr.buffer, Polling.entered, hc, Buffchunk.backoff] using this
    omega
  · have hsame : (s.goto (s.entered.backoff n) env rlen).buffer = s.entered.backoff n := by
      simp [Polling.goto, Tcvr.buffer, Polling.entered, hc]
    constructor
    · intro h'
      refine ⟨⟨?_, ?_, h'.low, h'.high⟩, Int.not_lt.mp hc⟩
      · exact (congrArg Buffchunk.size hsame).symm.trans h'.size
      · exact (congrArg Buffchunk.length hsame).symm.trans h'.length
    · rintro ⟨h', -⟩
      refine ⟨?_, ?_, h'.low, h'.high⟩
      · exact (congrArg Buffchunk.size hsame).trans h'.size
      · exact (congrArg Buffchunk.length hsame).trans h'.length

/-- A turn keeps the balance exactly when its verdict is safe. -/
theorem pass_balanced_iff (h : Balanced room (.polling s) t) :
    Balanced room (pass protos s).1
        (t + (pass protos s).2.received - (pass protos s).2.consumed) ↔
      (s.c > 0 ∨ s.buffer.length ≠ 0 → s.SafeVerdict (s.verdict protos)) := by
  have hsize : s.entered.size = room := h.size
  have hlength : s.entered.length = t := h.length
  by_cases hguard : s.c > 0 ∨ s.buffer.length ≠ 0
  · have hlen : ∀ n, (s.entered.backoff n).length = s.entered.length - n := fun _ => rfl
    simp only [pass, hguard, if_true, true_implies, Polling.verdict]
    rcases hexamine : examine protos s.entered.p s.entered.length s.env s.rlen with ⟨v, env, rlen⟩
    cases v with
    | matched n =>
        simp only [Polling.SafeVerdict, hlen]
        by_cases hrest : s.entered.length - n = 0
        · simp only [hrest, if_true, ne_eq, not_true, false_implies, and_true, Int.add_zero]
          exact balanced_idle_iff h n env
        by_cases htcp : s.poller = .tcp
        · simp only [hrest, htcp, if_false, if_true, ne_eq, not_false_eq_true, true_implies,
            Int.add_zero]
          exact balanced_goto_iff h n env rlen
        · simp only [hrest, htcp, if_false, false_implies, implies_true, and_true, Int.add_zero]
          exact balanced_idle_iff h n env
    | failed n =>
        simp only [Polling.SafeVerdict, iff_true, Int.add_zero, Int.sub_zero]
        exact ⟨hsize, hlength, h.low, h.high⟩
    | incomplete =>
        simp only [Polling.SafeVerdict, iff_true, Int.add_zero, Int.sub_zero]
        exact ⟨hsize, hlength, h.low, h.high⟩
    | paramError n =>
        simp only [Polling.SafeVerdict, Int.add_zero]
        exact balanced_idle_iff h n env
    | scanned n =>
        simp only [Polling.SafeVerdict, hlen]
        by_cases hrest : s.entered.length - n = 0
        · simp only [hrest, if_true, true_implies, Int.add_zero]
          exact balanced_goto_iff h n env rlen
        · simp only [hrest, if_false, false_implies, and_true, Int.add_zero]
          exact balanced_idle_iff h n env
    | none =>
        have hlow := h.low
        have hhigh := h.high
        simp only [Polling.SafeVerdict, iff_true, Int.add_zero]
        exact ⟨hsize, by rw [hlength]; exact (Int.sub_self t).symm, by omega, by omega⟩
  · simp only [pass, hguard, if_false, false_implies, iff_true, Int.add_zero, Int.sub_zero]
    have hentered : s.entered = s.buffer := if_neg fun hc => hguard (.inl hc)
    rw [hentered] at hsize hlength
    exact ⟨hsize, hlength, h.low, h.high⟩

/-- Receiving keeps the balance exactly when what comes in fits. -/
theorem receive_balanced_iff {buffer : Buffchunk} {env : σ} (h : Balanced room (.idle buffer env) t)
    (poller : Poller) (bs : List UInt8) (rlen : Int) :
    Balanced room (receive poller buffer env bs rlen).1 (t + bs.length - 0) ↔
      buffer.length + bs.length ≤ buffer.size := by
  have hsize : buffer.size = room := h.size
  have hlength : buffer.length = t := h.length
  have hlow := h.low
  have hentered : (receive poller buffer env bs rlen).1.buffer.size = room ∧
      (receive poller buffer env bs rlen).1.buffer.length = t + bs.length := by
    simp only [receive, Tcvr.buffer, Polling.entered]
    split
    · exact ⟨hsize, by rw [hlength]⟩
    · exact ⟨hsize, by simp only; omega⟩
  rw [hsize, hlength, Int.sub_zero]
  constructor
  · intro h'
    exact h'.high
  · intro hfits
    exact ⟨hentered.1, hentered.2, by omega, hfits⟩

/-- With nothing to receive, a poll keeps the balance whether it returns or goes on. -/
theorem begin_balanced {buffer : Buffchunk} {env : σ} (h : Balanced room (.idle buffer env) t)
    (poller : Poller) {ready : Ready} (hready : ready = .nothing ∨ ready = .accept) (rlen : Int) :
    Balanced room (begin poller buffer env ready rlen).1
      (t + (begin poller buffer env ready rlen).2.received -
        (begin poller buffer env ready rlen).2.consumed) := by
  have hbegin : begin poller buffer env ready rlen =
      if poller = .tcp then (.idle buffer env, { ret := some .etOk })
      else receive poller buffer env [] rlen := by
    rcases hready with rfl | rfl
    · rfl
    · rfl
  rw [hbegin]
  split
  · rw [Int.add_zero, Int.sub_zero]
    exact h
  · refine (receive_balanced_iff h poller [] rlen).mpr ?_
    rw [List.length_nil, Int.natCast_zero, Int.add_zero]
    exact Int.le_trans (Int.le_of_eq h.length) (Int.le_trans h.high (Int.le_of_eq h.size.symm))

/-- **One step keeps the balance exactly when it is safe.** -/
theorem step_balanced_iff (tcvr : Tcvr σ) (i : Input) (h : Balanced room tcvr t) :
    Machine.StepRefines (Machine.total (step protos)) Outstanding (Balanced room) tcvr t i ↔
      Safe protos tcvr i := by
  rw [stepRefines_iff]
  have hsame : Balanced room tcvr (t + 0 - 0) := by simpa using h
  rcases tcvr with ⟨buffer, env⟩ | s | ⟨buffer, env⟩
  · rcases i with ⟨poller, _ | _ | bs, rlen⟩ | _
    · exact iff_of_true (begin_balanced h poller (.inl rfl) rlen) trivial
    · exact iff_of_true (begin_balanced h poller (.inr rfl) rlen) trivial
    · exact receive_balanced_iff h poller bs rlen
    · exact iff_of_true hsame trivial
  · rcases i with ⟨poller, ready, rlen⟩ | _
    · exact iff_of_true hsame (by cases ready <;> trivial)
    · exact pass_balanced_iff h
  · exact iff_of_true hsame (by rcases i with ⟨_, _ | _ | _, _⟩ | _ <;> trivial)

/-! ### Every run -/

/--
**The buffer's length is the bytes received less those consumed, exactly as long as
every step is safe.**  From a transceiver whose buffer holds `t` bytes inside its size,
for any registered protocols, any calls of either poller with anything received, and
any number of turns of each.
-/
theorem rxpoll_balanced_iff (protos : List (Protocol σ)) {buffer : Buffchunk} (env : σ)
    (hlow : 0 ≤ buffer.length) (hhigh : buffer.length ≤ buffer.size) (is : List Input) :
    Machine.RunRefines (Machine.total (step protos)) Outstanding (Balanced buffer.size)
        (.idle buffer env) buffer.length is ↔
      Machine.Meets (Machine.total (step protos)) (Safe protos) (.idle buffer env) is :=
  Machine.runRefines_iff (fun tcvr _ i h => step_balanced_iff tcvr i h) is
    ⟨rfl, rfl, hlow, hhigh⟩

/-- The buffer `cmder_tcvr_register` makes, of 2048 bytes. -/
def rxbuffer : Buffchunk := { id := 0, p := fun _ => 0, size := 2048, length := 0 }

/-- A frame of the xfer protocol that reads. -/
def readFrame : List UInt8 := [0xAA, 0x01, 0, 0, 0, 0, 0, 0, 0, 0xFF]

/-- One frame in one piece, then nothing to read. -/
theorem rxpoll_balanced_iff_one :
    Machine.RunRefines (Machine.total (step [xferProtocol fun _ _ _ => ()])) Outstanding
      (Balanced 2048) (.idle rxbuffer ()) 0
      [.call .tcp (.data readFrame) 0, .turn, .call .uart (.data []) 0, .turn,
        .call .tcp .nothing 0] :=
  (rxpoll_balanced_iff [xferProtocol fun _ _ _ => ()] () (show 0 ≤ rxbuffer.length by decide)
    (show rxbuffer.length ≤ rxbuffer.size by decide) _).mpr (by decide +kernel)

/-- Two frames in one piece of 20 bytes.  After the first is read 10 bytes are left, and
the jump back to `poll_repeat` makes that 30. -/
theorem rxpoll_adds_again :
    ¬Machine.RunRefines (Machine.total (step [xferProtocol fun _ _ _ => ()])) Outstanding
      (Balanced 2048) (.idle rxbuffer ()) 0
      [.call .tcp (.data (readFrame ++ readFrame)) 0, .turn] := by
  intro hrefines
  have hstart : Balanced 2048 (.idle rxbuffer ()) 0 := ⟨rfl, rfl, by decide, by decide⟩
  have hsafe := (Machine.runRefines_iff (fun tcvr _ i h => step_balanced_iff tcvr i h) _
    hstart).mp hrefines
  exact absurd hsafe (by decide +kernel)

end Awoke.Cmder
