/-
Where the data of a response come from, and where they go.

A getter passes the length of the head for the length of its parameter.  So the data are never
padded: what a longer read is answered with is what lies behind the parameter in memory,
`xfer_read_faithful_iff`.

The private chunk has 512 bytes, and a request gets a chunk of its own when its data alone do not
go in.  Between 503 bytes of data and 512 the head and the tail do not go in with them,
`xfer_read_inRoom_iff`.
-/
import Awoke.Proofs.XferRead

namespace Awoke.Cmder

variable {s : XferState} {r r' : XferRequest}

theorem Reads.answers {bytes : List UInt8} (h : Reads s r bytes) (hready : XferReady s) :
    ∃ s' a, Answers s r s' a 0
      (Cells.slice (Cells.write r.outside 0 bytes) 0 (headLen r.head)) := by
  rcases read_cases hready r with ⟨-, hnull, -⟩ | ⟨bytes', s', a, hreads, hanswers, -⟩ |
    ⟨-, -, -, hunread, -⟩
  · exact absurd hnull h.not_null
  · cases h.2.2.symm.trans hreads.2.2
    exact ⟨s', a, hanswers⟩
  · exact absurd h (hunread bytes)

/-! ### Where the data come from -/

/-- The data of a response. -/
def dataOf (frame : List UInt8) : List UInt8 := (frame.drop 8).take (frame.length - 10)

/-- The first `n` of some bytes, with zeros where they end. -/
def padTo (n : Nat) (bytes : List UInt8) : List UInt8 :=
  bytes.take n ++ List.replicate (n - bytes.length) 0

/-- Two requests are the same frame. -/
def SameFrame (r r' : XferRequest) : Prop := ∀ i : Int, 0 ≤ i → i < 10 → r'.head i = r.head i

theorem SameFrame.headLen (h : SameFrame r r') : headLen r'.head = headLen r.head := by
  rw [Cmder.headLen, Cmder.headLen, h 2 (by decide) (by decide), h 3 (by decide) (by decide)]

theorem SameFrame.headCmd (h : SameFrame r r') : headCmd r'.head = headCmd r.head := by
  rw [Cmder.headCmd, Cmder.headCmd, h 1 (by decide) (by decide)]

theorem SameFrame.headAddr (h : SameFrame r r') : headAddr r'.head = headAddr r.head := by
  rw [Cmder.headAddr, Cmder.headAddr, pullDwrd, pullDwrd, h 4 (by decide) (by decide),
    h (4 + 1) (by decide) (by decide), h (4 + 2) (by decide) (by decide),
    h (4 + 3) (by decide) (by decide)]

theorem SameFrame.reaches (h : SameFrame r r') : Reaches r' ↔ Reaches r := by
  rw [Reaches, Reaches, h.headAddr, headSpace, headSpace, h 1 (by decide) (by decide)]

theorem SameFrame.rspHead (h : SameFrame r r') :
    Cells.slice (rspHead r'.head 0) 0 8 = Cells.slice (rspHead r.head 0) 0 8 := by
  have hcells : ∀ k : Nat, k < 8 → r'.head (0 + k) = r.head (0 + k) :=
    fun k hk => h _ (by omega) (by omega)
  unfold Cmder.rspHead
  rw [h.headCmd]
  split
  · refine Cells.slice_congr fun k hk => ?_
    rw [Cells.write, Cells.write, hcells k hk]
  · rw [if_neg (not_not.mpr rfl), if_neg (not_not.mpr rfl)]
    exact Cells.slice_congr hcells

/-- Two runs that differ outside the parameter: from any two states that have the parameter, with
requests of one frame, and whatever lies in memory besides. -/
def Alike (r : XferRequest) (bytes : List UInt8) (s' : XferState) (r' : XferRequest) : Prop :=
  XferReady s' ∧ SameFrame r r' ∧ parameter s'.ctx (headAddr r'.head) = some bytes

/-- A read of a parameter is answered with the parameter's own bytes, cut off or padded with zeros,
and the response depends on nothing else. -/
def Faithful (s : XferState) (r : XferRequest) : Prop :=
  ∀ bytes, Reads s r bytes → ∃ s₁ a frame, xferRead s r = some (s₁, a) ∧ a.sent = some frame ∧
    dataOf frame = padTo (headLen r.head) bytes ∧
    ∀ s' r', Alike r bytes s' r' →
      ∃ s₂ a₂, xferRead s' r' = some (s₂, a₂) ∧ a₂.sent = some frame

/-- No more is asked for than the parameter has. -/
def Covered (s : XferState) (r : XferRequest) : Prop :=
  ∀ bytes, Reads s r bytes → headLen r.head ≤ bytes.length

theorem dataOf_frame {hd data : List UInt8} (hhd : hd.length = 8) (c d : UInt8) :
    dataOf (hd ++ data ++ [c, d]) = data := by
  have hlength : (hd ++ data ++ [c, d]).length - 10 = data.length := by
    rw [List.length_append, List.length_append, hhd, List.length_cons, List.length_singleton]
    omega
  rw [dataOf, hlength, List.append_assoc, List.drop_left' hhd]
  exact List.take_left

theorem slice_param (outside : Cells UInt8) {bytes : List UInt8} {n : Nat} (h : n ≤ bytes.length) :
    Cells.slice (Cells.write outside 0 bytes) 0 n = bytes.take n := by
  have hself := Cells.slice_write_self outside 0 bytes
  rw [← Cells.slice_take _ _ h, hself]

theorem slice_leaks (outside : Cells UInt8) {bytes : List UInt8} {n : Nat} (h : bytes.length < n) :
    ∃ outside' : Cells UInt8, Cells.slice (Cells.write outside' 0 bytes) 0 n ≠
      Cells.slice (Cells.write outside 0 bytes) 0 n := by
  refine ⟨fun i => outside i + 1, fun heq => ?_⟩
  have hcell := List.getElem_of_eq heq (by rw [Cells.slice_length]; exact h)
  rw [Cells.slice_getElem, Cells.slice_getElem, Cells.write_outside _ _ _ (.inr (Int.le_refl _)),
    Cells.write_outside _ _ _ (.inr (Int.le_refl _))] at hcell
  exact absurd (UInt8.add_eq_left.mp hcell) (by decide)

/-- **One read** is faithful exactly when it asks for no more than there is. -/
theorem faithful_iff (hready : XferReady s) (r : XferRequest) : Faithful s r ↔ Covered s r := by
  constructor
  · intro h bytes hreads
    refine Nat.not_lt.mp fun hlt => ?_
    obtain ⟨s₁, a, frame, hread, hframe, -, halike⟩ := h bytes hreads
    obtain ⟨outside', hleak⟩ := slice_leaks r.outside hlt
    -- The same request, with something else behind the parameter.
    have hreads' : Reads s { r with outside := outside' } bytes := hreads
    obtain ⟨s₂, a₂, hread₂, hframe₂⟩ := halike s { r with outside := outside' }
      ⟨hready, fun _ _ _ => rfl, hreads.2.2⟩
    obtain ⟨s₁', a', hanswers⟩ := hreads.answers hready
    obtain ⟨s₂', a₂', hanswers₂⟩ := hreads'.answers hready
    cases hread.symm.trans hanswers.read
    cases hread₂.symm.trans hanswers₂.read
    have heq := hanswers.sent.symm.trans (hframe.trans (hframe₂.symm.trans hanswers₂.sent))
    rw [Option.some.injEq, List.append_assoc, List.append_assoc, List.append_cancel_left_eq,
      List.append_cancel_right_eq] at heq
    exact hleak heq.symm
  · intro h bytes hreads
    have hlength := h bytes hreads
    obtain ⟨s₁, a, hanswers⟩ := hreads.answers hready
    refine ⟨s₁, a, _, hanswers.read, hanswers.sent, ?_, ?_⟩
    · rw [dataOf_frame (Cells.slice_length _ _ _), slice_param _ hlength, padTo,
        Nat.sub_eq_zero_of_le hlength, List.replicate_zero, List.append_nil]
    · rintro s' r' ⟨hready', hsame, hparameter⟩
      have hreads' : Reads s' r' bytes :=
        ⟨hsame.reaches.mpr hreads.1, hsame.headCmd.trans hreads.2.1, hparameter⟩
      obtain ⟨s₂, a₂, hanswers₂⟩ := hreads'.answers hready'
      refine ⟨s₂, a₂, hanswers₂.read, hanswers₂.sent.trans ?_⟩
      rw [hsame.headLen, hsame.rspHead, slice_param _ hlength, slice_param _ hlength]

/-- **When every read of a run gives the parameter and nothing else**: when none asks for more than
the parameter has. -/
theorem xfer_read_faithful_iff (test : UInt32) (ids : UInt16) (rs : List XferRequest) :
    Machine.Meets xferRead Faithful (xferStart test ids) rs ↔
      Machine.Meets xferRead Covered (xferStart test ids) rs :=
  Machine.meets_congr (J := XferReady) (fun _ r h => faithful_iff h r)
    (fun _ r h _ => h.after r) rs (xferStart_ready test ids)

/-- A read of the frame rate, with the length in two bytes. -/
def readFps (len0 len1 : UInt8) : XferRequest where
  head := Cells.write (fun _ => 0) 0 [0xAA, 0x01, len0, len1, 0x10, 0x10, 0x00, 0x00, 0x00, 0xFF]
  len := 10
  accepted := rfl
  junk := 0
  outside := fun _ => 0

/-- **A read of eight bytes** of the frame rate gives the four behind it. -/
theorem readFps_leaks :
    ¬Machine.Meets xferRead Faithful (xferStart 0 0) [readFps 0x08 0x00] := by
  intro h
  have hcovered := (faithful_iff (xferStart_ready 0 0) _).mp h.1
  exact absurd (hcovered (dwrdBytes 100) ⟨by decide, by decide, by rfl⟩) (by decide)

/-! ### Where they go -/

/-- What is written into the response chunk is inside. -/
def InRoom (s : XferState) (r : XferRequest) : Prop :=
  ∀ s' a, xferRead s r = some (s', a) → Cells.Within a.room a.log

/-- The data do not just fit into the private chunk, without the head and the tail. -/
def Roomy (s : XferState) (r : XferRequest) : Prop :=
  ∀ bytes, Reads s r bytes → headLen r.head < 503 ∨ 512 < headLen r.head

theorem xferRoom_iff {head : Cells UInt8} (h : headCmd head = xferCmdRD) :
    8 + (headLen head : Int) + 2 ≤ xferRoom head ↔ headLen head < 503 ∨ 512 < headLen head := by
  rw [xferRoom]
  by_cases hbig : 512 < headLen head
  · rw [if_pos ⟨h, hbig⟩]
    omega
  · rw [if_neg fun hboth => hbig hboth.2]
    omega

theorem ten_le_xferRoom (head : Cells UInt8) : 10 ≤ (xferRoom head : Int) := by
  rw [xferRoom]
  split
  · omega
  · omega

theorem Answers.inRoom_iff {s' : XferState} {a : XferAnswer} {code : UInt8} {data : List UInt8}
    (h : Answers s r s' a code data) :
    InRoom s r ↔ 8 + (data.length : Int) + 2 ≤ xferRoom r.head := by
  rw [← h.within]
  constructor
  · intro hroom
    exact hroom _ _ h.read
  · intro hwithin s₁ a₁ hrun
    cases h.read.symm.trans hrun
    exact hwithin

/-- **One request** stays inside exactly when its data leave room for the head and the tail. -/
theorem inRoom_iff (hready : XferReady s) (r : XferRequest) : InRoom s r ↔ Roomy s r := by
  rcases read_cases hready r with ⟨-, hnull, hnone⟩ | ⟨bytes, s', a, hreads, hanswers, -⟩ |
    ⟨s', a, code, hunread, hanswers, -⟩
  · refine iff_of_true ?_ fun bytes hreads => absurd hnull hreads.not_null
    intro s' a hrun
    rw [hnone] at hrun
    cases hrun
  · rw [hanswers.inRoom_iff, Cells.slice_length, xferRoom_iff hreads.2.1]
    exact ⟨fun hroom _ _ => hroom, fun hroom => hroom bytes hreads⟩
  · refine iff_of_true ?_ fun bytes hreads => absurd hreads (hunread bytes)
    exact hanswers.inRoom_iff.mpr (ten_le_xferRoom r.head)

/-- **When all that is written in a run goes into its chunk**: when no read of a parameter asks for
503 bytes up to 512. -/
theorem xfer_read_inRoom_iff (test : UInt32) (ids : UInt16) (rs : List XferRequest) :
    Machine.Meets xferRead InRoom (xferStart test ids) rs ↔
      Machine.Meets xferRead Roomy (xferStart test ids) rs :=
  Machine.meets_congr (J := XferReady) (fun _ r h => inRoom_iff h r)
    (fun _ r h _ => h.after r) rs (xferStart_ready test ids)

/-- **A read of 512 bytes** writes its head and tail over the end. -/
theorem readFps_behind :
    ¬Machine.Meets xferRead InRoom (xferStart 0 0) [readFps 0x00 0x02] := by
  intro h
  have hroomy := (inRoom_iff (xferStart_ready 0 0) _).mp h.1
  exact absurd (hroomy (dwrdBytes 100) ⟨by decide, by decide, by rfl⟩) (by decide)

end Awoke.Cmder
