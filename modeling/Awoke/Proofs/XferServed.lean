/-
Which xfer requests are served.

A response should tell whether a handler did what was asked.  It cannot where the table has a null
pointer: that is called.  Outside the table nothing sets `ret`, so that what the response says
of a handler is what was in memory.  And a read that is too long for its parameter or for the
response chunk goes through memory that is neither.

`xfer_read_served_iff` says that these are the only ways to fail, in any run.
-/
import Awoke.Proofs.XferData
import Mathlib.Data.List.GetD

namespace Awoke.Cmder

variable {s : XferState} {r : XferRequest}

/-! ### Response frames -/

/-- The length that the head of a response says. -/
def rspLen (frame : List UInt8) : Nat := (frame.getD 2 0).toNat + 256 * (frame.getD 3 0).toNat

/-- A response frame: the mark and the rest of a head, as many bytes of data as it says, a code
that is zero when a handler was called and returned `et_ok`, and the last mark. -/
structure RspFrame (frame : List UInt8) (ran : Option ErrType) : Prop where
  mark : frame.getD 0 0 = xferPrefix
  length : frame.length = 8 + rspLen frame + 2
  code : frame.getD (8 + rspLen frame) 0 = 0 ↔ ran = some .etOk
  posfix : frame.getD (8 + rspLen frame + 1) 0 = xferPosfix

theorem rspLen_head (head : Cells UInt8) (code : UInt8) (rest : List UInt8) :
    rspLen (Cells.slice (rspHead head code) 0 8 ++ rest) =
      if headCmd head = xferCmdRD ∧ code = 0 then headLen head else 0 := by
  have hlen : rspLen (Cells.slice (rspHead head code) 0 8 ++ rest) =
      (rspHead head code 2).toNat + 256 * (rspHead head code 3).toNat := rfl
  rw [hlen, rspHead]
  by_cases hcmd : headCmd head = xferCmdRD
  · by_cases hcode : code = 0
    · rw [if_neg (not_not.mpr hcmd), if_neg (not_not.mpr hcode), if_pos ⟨hcmd, hcode⟩, headLen]
    · rw [if_neg (not_not.mpr hcmd), if_pos hcode, if_neg fun h => hcode h.2]
      rfl
  · rw [if_pos hcmd, if_neg fun h => hcmd h.1]
    rfl

theorem rspHead_mark (head : Cells UInt8) (code : UInt8) : rspHead head code 0 = head 0 := by
  unfold rspHead
  split
  · rfl
  split
  · rfl
  · rfl

/-- **What was sent is a response frame** when the head says how many data there are, and the code
whether a handler succeeded. -/
theorem rspFrame_iff {head : Cells UInt8} (hmark : head 0 = xferPrefix) (code : UInt8)
    (data : List UInt8) (ran : Option ErrType) :
    RspFrame (Cells.slice (rspHead head code) 0 8 ++ data ++ [code, xferPosfix]) ran ↔
      data.length = (if headCmd head = xferCmdRD ∧ code = 0 then headLen head else 0) ∧
        (code = 0 ↔ ran = some .etOk) := by
  have hrspLen := rspLen_head head code (data ++ [code, xferPosfix])
  rw [← List.append_assoc] at hrspLen
  generalize hframe : Cells.slice (rspHead head code) 0 8 ++ data ++ [code, xferPosfix] = frame
  have hfirst : frame.getD 0 0 = xferPrefix := by
    rw [← hframe]
    exact (rspHead_mark head code).trans hmark
  have hlength : frame.length = 8 + data.length + 2 := by
    rw [← hframe, List.length_append, List.length_append, Cells.slice_length]
    rfl
  have hcode : frame.getD (8 + data.length) 0 = code := by
    rw [← hframe, List.getD_append_right _ _ _ _ (by simp)]
    simp
  have hposfix : frame.getD (8 + data.length + 1) 0 = xferPosfix := by
    rw [← hframe, List.getD_append_right _ _ _ _ (by simp)]
    simp
  rw [hframe] at hrspLen
  rw [← hrspLen]
  constructor
  · intro h
    have hdata : data.length = rspLen frame := by
      have hall := h.length
      omega
    have hran := h.code
    rw [← hdata, hcode] at hran
    exact ⟨hdata, hran⟩
  · rintro ⟨hdata, hran⟩
    refine ⟨hfirst, ?_, ?_, ?_⟩
    · rw [← hdata, hlength]
    · rw [← hdata, hcode]
      exact hran
    · rw [← hdata, hposfix]

/-! ### One request -/

theorem XferRequest.mark (r : XferRequest) : r.head 0 = xferPrefix := by
  have haccepted := r.accepted
  rw [xferMatch] at haccepted
  split at haccepted
  · cases haccepted
  split at haccepted
  · cases haccepted
  · rename_i hmark
    exact not_not.mp hmark

/-- No copy took more than there was. -/
def XferAnswer.Sourced (a : XferAnswer) : Prop := ∀ c ∈ a.copied, c.1 ≤ c.2

/-- `xfer_read` comes back, having touched its chunk and its parameter only, and what it sends is a
response frame that tells of its handler. -/
def Served (s : XferState) (r : XferRequest) : Prop :=
  ∃ s' a frame, xferRead s r = some (s', a) ∧ a.sent = some frame ∧ RspFrame frame a.ran ∧
    Cells.Within a.room a.log ∧ a.Sourced

/-- The table has a handler where it is reached, and where it is not what `ret` holds is no
success; and a read of a parameter asks for no more than it has, and leaves room for the head and
the tail. -/
def Settled (s : XferState) (r : XferRequest) : Prop :=
  (if Reaches r then ¬NullHandler r else r.junk.toUInt8 ≠ 0) ∧ Roomy s r ∧ Covered s r

/-- A request that is answered is served when the answer is a response frame, and nothing else was
touched. -/
theorem Answers.served_iff {s' : XferState} {a : XferAnswer} {code : UInt8} {data : List UInt8}
    (h : Answers s r s' a code data) :
    Served s r ↔
      (data.length = (if headCmd r.head = xferCmdRD ∧ code = 0 then headLen r.head else 0) ∧
        (code = 0 ↔ a.ran = some .etOk)) ∧ Cells.Within a.room a.log ∧ a.Sourced := by
  rw [← rspFrame_iff r.mark]
  constructor
  · rintro ⟨s₁, a₁, frame, hrun, hframe, hrsp, hwithin⟩
    cases h.read.symm.trans hrun
    cases h.sent.symm.trans hframe
    exact ⟨hrsp, hwithin⟩
  · rintro ⟨hrsp, hwithin⟩
    exact ⟨s', a, _, h.read, h.sent, hrsp, hwithin⟩

/-- A request without data touches its chunk only. -/
theorem Answers.within_nil {s' : XferState} {a : XferAnswer} {code : UInt8}
    (h : Answers s r s' a code []) : Cells.Within a.room a.log :=
  h.within.mpr (ten_le_xferRoom r.head)

/-- **One request** is served exactly when it is settled. -/
theorem served_iff (h : XferReady s) (r : XferRequest) : Served s r ↔ Settled s r := by
  rw [Settled]
  rcases read_cases h r with ⟨hreach, hnull, hnone⟩ |
    ⟨bytes, s', a, hreads, hanswers, hran, hcopied⟩ |
    ⟨s', a, code, hunread, hanswers, htold, hcopied⟩
  · rw [if_pos hreach]
    refine iff_of_false ?_ fun hsettled => hsettled.1 hnull
    rintro ⟨s', a, frame, hrun, -⟩
    rw [hnone] at hrun
    cases hrun
  · -- one copy, of as many bytes as the head asks for
    have hroomy : Cells.Within a.room a.log ↔ Roomy s r := by
      rw [hanswers.within, Cells.slice_length, xferRoom_iff hreads.2.1]
      exact ⟨fun hroom _ _ => hroom, fun hroom => hroom bytes hreads⟩
    have hcovered : a.Sourced ↔ Covered s r := by
      rw [XferAnswer.Sourced, hcopied, List.forall_mem_singleton]
      refine ⟨fun hle bytes' hreads' => ?_, fun hall => hall bytes hreads⟩
      cases hreads.2.2.symm.trans hreads'.2.2
      exact hle
    rw [if_pos hreads.1, hanswers.served_iff, Cells.slice_length, if_pos ⟨hreads.2.1, rfl⟩, hroomy,
      hcovered, and_iff_right hreads.not_null]
    exact and_iff_right ⟨rfl, iff_of_true rfl hran⟩
  · have hroomy : Roomy s r ∧ Covered s r :=
      ⟨fun bytes hreads => absurd hreads (hunread bytes),
        fun bytes hreads => absurd hreads (hunread bytes)⟩
    have hsourced : a.Sourced := fun c hc => nomatch hcopied ▸ hc
    rw [hanswers.served_iff, and_iff_left ⟨hanswers.within_nil, hsourced⟩, and_iff_left hroomy]
    rw [Told] at htold
    by_cases hreach : Reaches r
    · rw [if_pos hreach] at htold
      obtain ⟨hnot, hcode, hrd⟩ := htold
      rw [if_pos hreach]
      exact iff_of_true ⟨(if_neg fun hzero => hrd hzero.1 hzero.2).symm, hcode⟩ hnot
    · rw [if_neg hreach] at htold
      obtain ⟨rfl, hran⟩ := htold
      rw [if_neg hreach, hran]
      constructor
      · rintro ⟨-, hzero⟩ hcode
        cases hzero.mp hcode
      · intro hne
        exact ⟨(if_neg fun hzero => hne hzero.2).symm, iff_of_false hne fun h => (by cases h)⟩

/-! ### Every run -/

/-- **When every request of a run is served**: when each is settled. -/
theorem xfer_read_served_iff (test : UInt32) (ids : UInt16) (rs : List XferRequest) :
    Machine.Meets xferRead Served (xferStart test ids) rs ↔
      Machine.Meets xferRead Settled (xferStart test ids) rs :=
  Machine.meets_congr (J := XferReady) (fun _ r h => served_iff h r)
    (fun _ r h _ => h.after r) rs (xferStart_ready test ids)

/-- A write of four bytes to the bit width, which has no setter. -/
def writeBitwidth : XferRequest where
  head := Cells.write (fun _ => 0) 0
    [0xAA, 0x02, 0x04, 0x00, 0x00, 0x10, 0x00, 0x00, 0x0A, 0x00, 0x00, 0x00, 0x00, 0xFF]
  len := 14
  accepted := by decide
  junk := 0
  outside := fun _ => 0

/-- **The null pointer in the table is called.** -/
theorem writeBitwidth_crashes :
    xferRead (xferStart 0 0) writeBitwidth = none ∧
      ¬Machine.Meets xferRead Served (xferStart 0 0) [writeBitwidth] := by
  have hnone : xferRead (xferStart 0 0) writeBitwidth = none := by rfl
  refine ⟨hnone, ?_⟩
  rintro ⟨⟨s', a, frame, hrun, -⟩, -⟩
  rw [hnone] at hrun
  cases hrun

end Awoke.Cmder
