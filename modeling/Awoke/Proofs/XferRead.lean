/-
What an xfer request is answered with.

`read_cases` says all that can come of a request: a null handler is called, or a parameter is read
and its data are packed, or no data are.  Everything else about `xfer_read` follows from it.
-/
import Awoke.Cmder.XferRead
import Awoke.Lib.Run

namespace Awoke.Cmder

/-! ### Heads -/

theorem headLen_lt (head : Cells UInt8) : headLen head < 65536 := by
  have hlow := (head 2).toNat_lt
  have hhigh := (head 3).toNat_lt
  rw [headLen]
  omega

/-- What a response with `n` bytes of data is made of. -/
theorem exec_frame (m : Cells UInt8) {hd : List UInt8} (hhd : hd.length = 8) (n : Nat)
    (c d : UInt8) :
    Cells.slice (Cells.exec m [.write 0 hd, .write (8 + n) [c], .write (8 + n + 1) [d]]) 0
        (n + 10) =
      hd ++ Cells.slice m 8 n ++ [c, d] := by
  have hsplit : n + 10 = 8 + n + 1 + 1 := by omega
  have hcode : (0 : Int) + ((8 + n : Nat) : Int) = 8 + n := by omega
  have hmark : (0 : Int) + ((8 + n + 1 : Nat) : Int) = 8 + n + 1 := by omega
  simp only [Cells.exec_cons, Cells.exec_nil, Cells.Op.exec]
  rw [hsplit, Cells.slice_add, Cells.slice_add, Cells.slice_add, hcode, hmark]
  have hhead : ∀ m' : Cells UInt8, Cells.slice (Cells.write (Cells.write
      (Cells.write m' 0 hd) (8 + n) [c]) (8 + n + 1) [d]) 0 8 = hd := by
    intro m'
    rw [Cells.slice_write_before _ _ _ _ (by omega), Cells.slice_write_before _ _ _ _ (by omega),
      ← hhd, Cells.slice_write_self]
  have hdata : Cells.slice (Cells.write (Cells.write (Cells.write m 0 hd) (8 + n) [c])
      (8 + n + 1) [d]) (0 + (8 : Nat)) n = Cells.slice m 8 n := by
    rw [Cells.slice_write_before _ _ _ _ (by omega), Cells.slice_write_before _ _ _ _ (by omega)]
    exact Cells.slice_congr fun k _ => Cells.write_outside m 0 hd (.inr (by omega))
  have htail : Cells.slice (Cells.write (Cells.write (Cells.write m 0 hd) (8 + n) [c])
      (8 + n + 1) [d]) (8 + n) 1 = [c] := by
    rw [Cells.slice_write_before _ _ _ _ (by omega)]
    exact Cells.slice_write_self _ _ [c]
  have hlast : Cells.slice (Cells.write (Cells.write (Cells.write m 0 hd) (8 + n) [c])
      (8 + n + 1) [d]) (8 + n + 1) 1 = [d] := Cells.slice_write_self _ _ [d]
  rw [hhead, hdata, htail, hlast, List.append_assoc]
  rfl

/-! ### The chunk that is packed -/

/-- The stream, while there is one, fills its chunk. -/
def StreamFull (ctx : XferCtx) : Prop :=
  ∀ chunk, ctx.lqStream = some chunk → 0 ≤ chunk.size ∧ chunk.length = chunk.size

/-- Between requests: the private chunk is empty, and the stream fills its own. -/
structure XferReady (s : XferState) : Prop where
  response : ∀ chunk, s.response = some chunk → chunk.size = 512 ∧ chunk.length = 0
  stream : StreamFull s.ctx

/-- The size of the chunk for a request. -/
def xferRoom (head : Cells UInt8) : Nat :=
  if headCmd head = xferCmdRD ∧ 512 < headLen head then 10 + headLen head else 512

/-- What a request is packed into: the private chunk, or one of its own. -/
structure Selected (s : XferState) (r : XferRequest) (response chunk : Buffchunk)
    (ids : UInt16) : Prop where
  selects : ∃ i, xferInit s = (some response, i) ∧ xferSelect r response i = (some chunk, ids)
  size : response.size = 512
  length : response.length = 0
  room : chunk.size = xferRoom r.head
  empty : chunk.length = 0
  own : ¬xferRealloc r response → chunk = response

variable {s : XferState} {r : XferRequest}

theorem XferReady.init (h : XferReady s) :
    ∃ response i, xferInit s = (some response, i) ∧ response.size = 512 ∧ response.length = 0 := by
  unfold xferInit
  cases hresponse : s.response with
  | none => exact ⟨_, _, rfl, rfl, rfl⟩
  | some chunk =>
      obtain ⟨hsize, hlength⟩ := h.response chunk hresponse
      exact ⟨chunk, _, rfl, hsize, hlength⟩

/-- **A chunk is there for every request.** -/
theorem XferReady.select (h : XferReady s) (r : XferRequest) :
    ∃ response chunk ids, Selected s r response chunk ids := by
  obtain ⟨response, i, hinit, hsize, hlength⟩ := h.init
  have hlen := headLen_lt r.head
  by_cases hrealloc : xferRealloc r response
  · have hcreate : Buffchunk.create i (8 + 2 + headLen r.head) =
        (some { id := i, p := fun _ => 0, size := 8 + 2 + headLen r.head, length := 0 },
          i + 1) := by
      rw [Buffchunk.create, Buffchunk.limit, if_neg (by omega)]
    refine ⟨response, { id := i, p := fun _ => 0, size := 8 + 2 + headLen r.head, length := 0 },
      i + 1, ⟨i, hinit, ?_⟩, hsize, hlength, ?_, rfl, fun hnot => absurd hrealloc hnot⟩
    · rw [xferSelect, if_pos hrealloc]
      exact hcreate
    · obtain ⟨hcmd, hbig⟩ := hrealloc
      rw [xferRoom, if_pos ⟨hcmd, by omega⟩]
      show (8 + 2 + headLen r.head : Int) = _
      omega
  · refine ⟨response, response, i, ⟨i, hinit, ?_⟩, hsize, hlength, ?_, hlength, fun _ => rfl⟩
    · rw [xferSelect, if_neg hrealloc]
    · rw [xferRoom, if_neg fun hbig => hrealloc ⟨hbig.1, by omega⟩, hsize]
      rfl

theorem Selected.read {response chunk : Buffchunk} {ids : UInt16}
    (h : Selected s r response chunk ids) :
    xferRead s r = (xferSpace { s.ctx with ids := ids } r { chunk := chunk, log := [] }).map
      (xferReply r response chunk.size) := by
  obtain ⟨i, hinit, hselect⟩ := h.selects
  rw [xferRead, hinit]
  simp only [hselect]

/-! ### What the table makes of a request -/

/-- The request gets as far as the table. -/
def Reaches (r : XferRequest) : Prop :=
  headSpace r.head = xferSpaceMCU ∧ 0x00001000 ≤ headAddr r.head

instance (r : XferRequest) : Decidable (Reaches r) := inferInstanceAs (Decidable (_ ∧ _))

/-- The table has a null pointer for it. -/
def NullHandler (r : XferRequest) : Prop :=
  headCmd r.head = xferCmdWR ∧ headAddr r.head = xferAddrBitwidth ∨
    headCmd r.head = xferCmdRD ∧
      (headAddr r.head = xferAddrConfigSave ∨ headAddr r.head = xferAddrConfigRestore)

instance (r : XferRequest) : Decidable (NullHandler r) := inferInstanceAs (Decidable (_ ∨ _))

/-- The bytes of the parameter at an address: four for a scalar, and the stream while there is
one. -/
def parameter (ctx : XferCtx) (addr : UInt32) : Option (List UInt8) :=
  if addr = xferAddrBitwidth then some (dwrdBytes 10)
  else if addr = xferAddrFps then some (dwrdBytes 100)
  else if addr = xferAddrFpsMin then some (dwrdBytes 1)
  else if addr = xferAddrFpsMax then some (dwrdBytes 1)
  else if addr = xferAddrTrigger then some (dwrdBytes 0)
  else if addr = xferAddrInvsEn then some (dwrdBytes 0)
  else if addr = xferAddrLqit then some (dwrdBytes ctx.lqSingleTest)
  else if addr = xferAddrLqst then ctx.lqStream.map Buffchunk.contents
  else none

theorem range_bootinfo_iff (addr : UInt32) :
    xferMcuRange addr = xferAddrRangeBootinfo ↔ ¬0x00001000 ≤ addr := by
  rw [xferMcuRange]
  by_cases halgorithm : (0x00020000 : UInt32) ≤ addr
  · have hparams : (0x00001000 : UInt32) ≤ addr := by
      rw [UInt32.le_iff_toNat_le] at halgorithm ⊢
      exact Nat.le_trans (by decide) halgorithm
    rw [if_pos halgorithm]
    exact iff_of_false (by decide) (not_not.mpr hparams)
  · rw [if_neg halgorithm]
    by_cases hparams : (0x00001000 : UInt32) ≤ addr
    · rw [if_pos hparams]
      exact iff_of_false (by decide) (not_not.mpr hparams)
    · rw [if_neg hparams]
      exact iff_of_true rfl hparams

theorem space_reaches (h : Reaches r) (ctx : XferCtx) (rsp : XferRsp) :
    xferSpace ctx r rsp = xferMcuParamsProcess ctx r rsp := by
  rw [xferSpace, if_pos h.1, xferMcuProcess, if_neg fun hrange =>
    (range_bootinfo_iff _).mp hrange h.2]

theorem space_misses (h : ¬Reaches r) (ctx : XferCtx) (rsp : XferRsp) :
    xferSpace ctx r rsp = some { ctx := ctx, rsp := rsp, ret := r.junk, ran := none } := by
  rw [xferSpace]
  by_cases hspace : headSpace r.head = xferSpaceMCU
  · rw [if_pos hspace, xferMcuProcess,
      if_pos ((range_bootinfo_iff _).mpr fun haddr => h ⟨hspace, haddr⟩)]
  · rw [if_neg hspace]

/-- What a setter does: it has no failure, and leaves a stream full. -/
def SetOk (set : XferSet) : Prop :=
  ∀ ctx data n, n < 65536 → StreamFull ctx →
    (set ctx data n).2 = .etOk ∧ StreamFull (set ctx data n).1

/-- What a getter does for the parameter at its address. -/
def GetOk (addr : UInt32) (get : XferGet) : Prop :=
  ∀ ctx head rsp outside, StreamFull ctx →
    StreamFull (get ctx head rsp outside).1 ∧ (get ctx head rsp outside).2 =
      match parameter ctx addr with
      | some bytes =>
          (.etOk, xferPackData rsp head (xferSource bytes outside) (headLen head) 0)
      | none => (.errNotfind, rsp)

theorem printSet_ok : SetOk xferPrintSet := fun _ _ _ _ hfull => ⟨rfl, hfull⟩

theorem lqitSet_ok : SetOk xferLqitSet := by
  intro ctx data n _ hfull
  rw [xferLqitSet]
  refine ⟨rfl, ?_⟩
  intro chunk hchunk
  exact hfull chunk hchunk

theorem lqstSet_ok : SetOk xferLqstSet := by
  intro ctx data n hn hfull
  unfold xferLqstSet
  split
  · exact ⟨rfl, hfull⟩
  · split
    · exact ⟨rfl, fun chunk hchunk => (by cases hchunk)⟩
    · rename_i chunk ids hcreate
      have hwritten : ((chunk.write (Cells.slice data 0 n) false).2.size = n) ∧
          (chunk.write (Cells.slice data 0 n) false).2.length = n := by
        rw [Buffchunk.create] at hcreate
        split at hcreate
        · cases hcreate
        · cases hcreate
          rename_i hrange
          rw [Buffchunk.limit] at hrange
          simp only [Buffchunk.write, Buffchunk.remain, Cells.slice_length, Bool.false_eq_true,
            false_and, if_false]
          rw [if_neg (by omega), if_neg (by omega), if_neg (by omega)]
          exact ⟨rfl, Int.zero_add _⟩
      refine ⟨rfl, fun stream hstream => ?_⟩
      cases hstream
      rw [hwritten.1, hwritten.2]
      exact ⟨Int.natCast_nonneg n, rfl⟩

theorem dataGet_ok {addr data : UInt32} (h : ∀ ctx, parameter ctx addr = some (dwrdBytes data)) :
    GetOk addr (xferDataGet data) := by
  intro ctx head rsp outside hfull
  rw [h]
  exact ⟨hfull, rfl⟩

theorem lqitGet_ok : GetOk xferAddrLqit xferLqitGet := fun _ _ _ _ hfull => ⟨hfull, rfl⟩

theorem lqstGet_ok : GetOk xferAddrLqst xferLqstGet := by
  intro ctx head rsp outside hfull
  have hparameter : parameter ctx xferAddrLqst = ctx.lqStream.map Buffchunk.contents := rfl
  rw [hparameter]
  unfold xferLqstGet
  cases hstream : ctx.lqStream with
  | none => exact ⟨hfull, rfl⟩
  | some chunk =>
      refine ⟨fun chunk hchunk => (by cases hchunk), ?_⟩
      simp only [Option.map_some, Buffchunk.contents, (hfull chunk hstream).2]

/-- What holds of a row of the table. -/
structure RowOk (p : XferMcuReq) : Prop where
  set : ∀ set, p.set = some set → SetOk set
  noset : p.set = none ↔ p.address = xferAddrBitwidth
  get : ∀ get, p.get = some get → GetOk p.address get
  noget : p.get = none ↔ p.address = xferAddrConfigSave ∨ p.address = xferAddrConfigRestore

theorem rowOk_both {addr : UInt32} {set : XferSet} {get : XferGet} (hset : SetOk set)
    (hget : GetOk addr get) (hbitwidth : addr ≠ xferAddrBitwidth)
    (hconfig : ¬(addr = xferAddrConfigSave ∨ addr = xferAddrConfigRestore)) :
    RowOk ⟨addr, some set, some get⟩ := by
  refine ⟨?_, ?_, ?_, ?_⟩
  · rintro _ ⟨⟩
    exact hset
  · exact iff_of_false (fun h => (by cases h)) hbitwidth
  · rintro _ ⟨⟩
    exact hget
  · exact iff_of_false (fun h => (by cases h)) hconfig

/-- **Every row is in order.** -/
theorem table_ok : ∀ p ∈ xferMcuReqtab, RowOk p := by
  have hprint : ∀ {addr data : UInt32}, (∀ ctx, parameter ctx addr = some (dwrdBytes data)) →
      addr ≠ xferAddrBitwidth →
      ¬(addr = xferAddrConfigSave ∨ addr = xferAddrConfigRestore) →
      RowOk ⟨addr, some xferPrintSet, some (xferDataGet data)⟩ :=
    fun h => rowOk_both printSet_ok (dataGet_ok h)
  have hconfig : ∀ {addr : UInt32}, addr ≠ xferAddrBitwidth →
      (addr = xferAddrConfigSave ∨ addr = xferAddrConfigRestore) →
      RowOk ⟨addr, some xferPrintSet, none⟩ := by
    intro addr hbitwidth hsave
    refine ⟨?_, iff_of_false (fun h => (by cases h)) hbitwidth, fun get h => (by cases h),
      iff_of_true rfl hsave⟩
    rintro _ ⟨⟩
    exact printSet_ok
  intro p hp
  simp only [xferMcuReqtab, List.mem_cons, List.not_mem_nil, or_false] at hp
  rcases hp with rfl | rfl | rfl | rfl | rfl | rfl | rfl | rfl | rfl | rfl
  · refine ⟨fun set h => (by cases h), iff_of_true rfl rfl, ?_, ?_⟩
    · rintro _ ⟨⟩
      exact dataGet_ok fun _ => rfl
    · exact iff_of_false (fun h => (by cases h)) (by decide)
  · exact hprint (fun _ => rfl) (by decide) (by decide)
  · exact hprint (fun _ => rfl) (by decide) (by decide)
  · exact hprint (fun _ => rfl) (by decide) (by decide)
  · exact hprint (fun _ => rfl) (by decide) (by decide)
  · exact hprint (fun _ => rfl) (by decide) (by decide)
  · exact hconfig (by decide) (by decide)
  · exact hconfig (by decide) (by decide)
  · exact rowOk_both lqitSet_ok lqitGet_ok (by decide) (by decide)
  · exact rowOk_both lqstSet_ok lqstGet_ok (by decide) (by decide)

theorem parameter_row {ctx : XferCtx} {addr : UInt32} {bytes : List UInt8}
    (h : parameter ctx addr = some bytes) :
    (xferMcuReqtab.find? fun p => p.address == addr).isSome = true := by
  rw [List.find?_isSome]
  have hmem : addr ∈ xferMcuReqtab.map XferMcuReq.address := by
    refine Decidable.byContradiction fun hnot => ?_
    simp only [xferMcuReqtab, List.map_cons, List.map_nil, List.mem_cons, List.not_mem_nil,
      or_false, not_or] at hnot
    simp only [parameter, hnot, if_false] at h
    cases h
  obtain ⟨p, hp, rfl⟩ := List.mem_map.mp hmem
  exact ⟨p, hp, beq_self_eq_true _⟩

/-- What the table leads to, where it is no null handler: data are packed for a read of a
parameter, and otherwise nothing is, and a read fails. -/
def Handles (ctx : XferCtx) (r : XferRequest) (rsp : XferRsp) : Prop :=
  (headCmd r.head = xferCmdRD ∧ ∃ bytes ctx', parameter ctx (headAddr r.head) = some bytes ∧
    StreamFull ctx' ∧ xferMcuParamsProcess ctx r rsp = some {
      ctx := ctx'
      rsp := xferPackData rsp r.head (xferSource bytes r.outside) (headLen r.head) 0
      ret := retOf .etOk
      ran := some .etOk }) ∨
  (headCmd r.head = xferCmdRD → parameter ctx (headAddr r.head) = none) ∧ ∃ ctx' e ran,
    StreamFull ctx' ∧
    xferMcuParamsProcess ctx r rsp = some { ctx := ctx', rsp := rsp, ret := retOf e, ran := ran } ∧
    (e = .etOk ↔ ran = some .etOk) ∧ (headCmd r.head = xferCmdRD → e ≠ .etOk)

theorem xferCmdRD_ne_WR : xferCmdRD ≠ xferCmdWR := by decide

section

variable {ctx : XferCtx} {rsp : XferRsp}

/-- Where there is no row, there is no parameter and nothing to call. -/
theorem params_missing (hfull : StreamFull ctx)
    (hfind : xferMcuReqtab.find? (fun p => p.address == headAddr r.head) = none) :
    ¬NullHandler r ∧ Handles ctx r rsp := by
  have hmiss : ∀ p ∈ xferMcuReqtab, p.address ≠ headAddr r.head := by
    intro p hp heq
    exact List.find?_eq_none.mp hfind p hp (by rw [heq]; exact beq_self_eq_true _)
  refine ⟨?_, .inr ⟨fun _ => ?_, ctx, .errNotfind, none, hfull, ?_, by decide, fun _ => by decide⟩⟩
  · rintro (⟨-, haddr⟩ | ⟨-, haddr | haddr⟩)
    · exact hmiss ⟨xferAddrBitwidth, _, _⟩ List.mem_cons_self haddr.symm
    · exact hmiss ⟨xferAddrConfigSave, some xferConfigSave, none⟩ (by simp [xferMcuReqtab])
        haddr.symm
    · exact hmiss ⟨xferAddrConfigRestore, some xferConfigRestore, none⟩
        (by simp [xferMcuReqtab]) haddr.symm
  · cases hparameter : parameter ctx (headAddr r.head) with
    | none => rfl
    | some bytes =>
        have hrow := parameter_row hparameter
        rw [hfind] at hrow
        cases hrow
  · unfold xferMcuParamsProcess
    rw [hfind]

/-- A write calls the setter of its row. -/
theorem params_write {p : XferMcuReq} (hfull : StreamFull ctx)
    (hfind : xferMcuReqtab.find? (fun p => p.address == headAddr r.head) = some p) (hrow : RowOk p)
    (haddr : p.address = headAddr r.head) (hwr : headCmd r.head = xferCmdWR) :
    (NullHandler r ∧ xferMcuParamsProcess ctx r rsp = none) ∨
      ¬NullHandler r ∧ Handles ctx r rsp := by
  have hrd : headCmd r.head ≠ xferCmdRD := fun h => xferCmdRD_ne_WR (h.symm.trans hwr)
  unfold Handles xferMcuParamsProcess
  rw [hfind]
  simp only [if_pos hwr]
  cases hset : p.set with
  | none => exact .inl ⟨.inl ⟨hwr, haddr ▸ hrow.noset.mp hset⟩, rfl⟩
  | some set =>
      obtain ⟨hok, hfull'⟩ :=
        hrow.set set hset ctx (fun i => r.head (8 + i)) _ (headLen_lt r.head) hfull
      refine .inr ⟨?_, .inr ⟨fun h => absurd h hrd, _, _, _, hfull', rfl, ?_,
        fun h => absurd h hrd⟩⟩
      · rintro (⟨-, hbitwidth⟩ | ⟨h, -⟩)
        · rw [hrow.noset.mpr (haddr.trans hbitwidth)] at hset
          cases hset
        · exact hrd h
      · rw [hok]
        exact iff_of_true rfl rfl

/-- And a read the getter. -/
theorem params_read {p : XferMcuReq} (hfull : StreamFull ctx)
    (hfind : xferMcuReqtab.find? (fun p => p.address == headAddr r.head) = some p) (hrow : RowOk p)
    (haddr : p.address = headAddr r.head) (hrd : headCmd r.head = xferCmdRD) :
    (NullHandler r ∧ xferMcuParamsProcess ctx r rsp = none) ∨
      ¬NullHandler r ∧ Handles ctx r rsp := by
  have hwr : headCmd r.head ≠ xferCmdWR := fun h => xferCmdRD_ne_WR (hrd.symm.trans h)
  unfold Handles xferMcuParamsProcess
  rw [hfind]
  simp only [if_neg hwr, if_pos hrd]
  cases hget : p.get with
  | none =>
      refine .inl ⟨.inr ⟨hrd, ?_⟩, rfl⟩
      rw [← haddr]
      exact hrow.noget.mp hget
  | some get =>
      obtain ⟨hfull', hout⟩ := hrow.get get hget ctx r.head rsp r.outside hfull
      refine .inr ⟨?_, ?_⟩
      · rintro (⟨h, -⟩ | ⟨-, hconfig⟩)
        · exact hwr h
        · rw [hrow.noget.mpr (by rw [haddr]; exact hconfig)] at hget
          cases hget
      rw [haddr] at hout
      cases hparameter : parameter ctx (headAddr r.head) with
      | some bytes =>
          rw [hparameter] at hout
          refine .inl ⟨hrd, bytes, _, rfl, hfull', ?_⟩
          rw [Option.map_some, hout]
      | none =>
          rw [hparameter] at hout
          refine .inr ⟨fun _ => rfl, _, .errNotfind, some .errNotfind, hfull', ?_,
            by decide, fun _ => by decide⟩
          rw [Option.map_some, hout]

/-- **What the table leads to**: a null handler, or one of the two ways to handle a request. -/
theorem params_cases (hfull : StreamFull ctx) (r : XferRequest) (rsp : XferRsp) :
    (NullHandler r ∧ xferMcuParamsProcess ctx r rsp = none) ∨
      ¬NullHandler r ∧ Handles ctx r rsp := by
  cases hfind : xferMcuReqtab.find? (fun p => p.address == headAddr r.head) with
  | none => exact .inr (params_missing hfull hfind)
  | some p =>
      have hrow := table_ok p (List.mem_of_find?_eq_some hfind)
      have haddr := List.find?_some hfind
      rw [beq_iff_eq] at haddr
      by_cases hwr : headCmd r.head = xferCmdWR
      · exact params_write hfull hfind hrow haddr hwr
      by_cases hrd : headCmd r.head = xferCmdRD
      · exact params_read hfull hfind hrow haddr hrd
      -- Any other command is refused.
      refine .inr ⟨?_, .inr ⟨fun h => absurd h hrd, ctx, .errNotsupport, none, hfull, ?_,
        by decide, fun h => absurd h hrd⟩⟩
      · rintro (⟨h, -⟩ | ⟨h, -⟩)
        · exact hwr h
        · exact hrd h
      · unfold xferMcuParamsProcess
        rw [hfind]
        simp only [if_neg hwr, if_neg hrd]

end

/-! ### What is sent -/

theorem code_eq (ret : UInt32) : (if ret ≠ 0 then ret.toUInt8 else 0) = ret.toUInt8 := by
  by_cases h : ret = 0
  · rw [h]
    rfl
  · rw [if_pos h]

/-- **A request is answered** with a code and data: the device is ready for the next, what is sent
is the head, the data and the tail, and all of it is written inside the chunk when it fits. -/
structure Answers (s : XferState) (r : XferRequest) (s' : XferState) (a : XferAnswer)
    (code : UInt8) (data : List UInt8) : Prop where
  read : xferRead s r = some (s', a)
  ready : XferReady s'
  sent : a.sent = some (Cells.slice (rspHead r.head code) 0 8 ++ data ++ [code, xferPosfix])
  within : Cells.Within a.room a.log ↔ 8 + (data.length : Int) + 2 ≤ xferRoom r.head

/-- What is packed in the chunk. -/
structure Packed (chunk : Buffchunk) (rsp : XferRsp) (data : List UInt8) : Prop where
  size : rsp.chunk.size = chunk.size
  length : rsp.chunk.length = data.length
  holds : Cells.slice rsp.chunk.p 8 data.length = data
  log : Cells.Within chunk.size rsp.log ↔ data.length = 0 ∨ 8 + (data.length : Int) ≤ chunk.size

/-- What a getter that gives the length of the head packs: as many bytes. -/
theorem packData_packed {head : Cells UInt8} (h : headCmd head = xferCmdRD) (chunk : Buffchunk)
    (buf : XferSource) (pad : UInt8) :
    Packed chunk (xferPackData { chunk := chunk, log := [] } head buf (headLen head) pad)
      (Cells.slice buf.cells 0 (headLen head)) := by
  have hself := Cells.slice_write_self chunk.p 8 (Cells.slice buf.cells 0 (headLen head))
  simp only [xferPackData, if_pos h, Int.le_refl, if_true, Int.lt_irrefl, if_false,
    Int.toNat_natCast, XferRsp.access, Int.add_zero, List.nil_append]
  refine ⟨rfl, ?_, hself, ?_⟩
  · rw [Cells.slice_length]
  · rw [Cells.within_cons, Cells.Op.within_write, and_iff_left Cells.within_nil]
    omega

theorem packData_copied {head : Cells UInt8} (h : headCmd head = xferCmdRD) (chunk : Buffchunk)
    (buf : XferSource) (pad : UInt8) :
    (xferPackData { chunk := chunk, log := [] } head buf (headLen head) pad).copied =
      [(headLen head, buf.size)] := by
  simp only [xferPackData, if_pos h, Int.le_refl, if_true, Int.toNat_natCast, XferRsp.access,
    List.nil_append]

/-- What is packed is answered. -/
theorem Selected.answers {response chunk : Buffchunk} {ids : UInt16}
    (h : Selected s r response chunk ids) {m : XferResult}
    (hspace : xferSpace { s.ctx with ids := ids } r { chunk := chunk, log := [] } = some m)
    (hfull : StreamFull m.ctx) {data : List UInt8} (hpacked : Packed chunk m.rsp data) :
    ∃ s' a, Answers s r s' a m.ret.toUInt8 data ∧ a.ran = m.ran ∧ a.copied = m.rsp.copied := by
  have hlength : (data.length : Int) + (8 + 2) ≠ 0 := by omega
  have htoNat : ((data.length : Int) + (8 + 2)).toNat = data.length + 10 := by omega
  have hread := h.read
  rw [hspace, Option.map_some] at hread
  refine ⟨_, _, ⟨hread, ⟨fun left hleft => ?_, hfull⟩, ?_, ?_⟩, rfl, rfl⟩
  · simp only [xferPackHeader, XferRsp.access, hpacked.length, if_pos hlength,
      Option.some.injEq] at hleft
    rw [← hleft]
    by_cases hrealloc : xferRealloc r response
    · rw [if_pos hrealloc]
      exact ⟨h.size, h.length⟩
    · rw [if_neg hrealloc]
      refine ⟨?_, rfl⟩
      show m.rsp.chunk.size = 512
      rw [hpacked.size, h.own hrealloc, h.size]
  · simp only [code_eq, xferPackHeader, XferRsp.access, hpacked.length, if_pos hlength, htoNat]
    rw [exec_frame _ (Cells.slice_length _ _ _), hpacked.holds]
  · have hlog := hpacked.log
    rw [h.room] at hlog
    simp only [xferPackHeader, XferRsp.access, hpacked.length, Cells.within_append,
      Cells.within_cons, Cells.Op.within_write, Cells.slice_length, List.length_singleton,
      Cells.within_nil, and_true, h.room, hlog]
    omega

/-! ### All that can come of a request -/

/-- A read of a parameter. -/
def Reads (s : XferState) (r : XferRequest) (bytes : List UInt8) : Prop :=
  Reaches r ∧ headCmd r.head = xferCmdRD ∧ parameter s.ctx (headAddr r.head) = some bytes

theorem Reads.not_null {bytes : List UInt8} (h : Reads s r bytes) : ¬NullHandler r := by
  obtain ⟨-, hrd, hparameter⟩ := h
  rintro (⟨hwr, -⟩ | ⟨-, haddr | haddr⟩)
  · exact xferCmdRD_ne_WR (hrd.symm.trans hwr)
  · rw [haddr] at hparameter
    cases hparameter
  · rw [haddr] at hparameter
    cases hparameter

/-- What the code of a response without data tells of the handler. -/
def Told (r : XferRequest) (code : UInt8) (ran : Option ErrType) : Prop :=
  if Reaches r then
    ¬NullHandler r ∧ (code = 0 ↔ ran = some .etOk) ∧ (headCmd r.head = xferCmdRD → code ≠ 0)
  else code = r.junk.toUInt8 ∧ ran = none

theorem retOf_eq_zero (e : ErrType) : (retOf e).toUInt8 = 0 ↔ e = .etOk := by
  cases e
  all_goals decide

/-- **All that can come of a request**: a null handler is called; or a parameter is read, and
answered with as many bytes as were asked for from where it is; or there are no data. -/
theorem read_cases (h : XferReady s) (r : XferRequest) :
    (Reaches r ∧ NullHandler r ∧ xferRead s r = none) ∨
    (∃ bytes s' a, Reads s r bytes ∧
      Answers s r s' a 0 (Cells.slice (Cells.write r.outside 0 bytes) 0 (headLen r.head)) ∧
      a.ran = some .etOk ∧ a.copied = [(headLen r.head, bytes.length)]) ∨
    ∃ s' a code, (∀ bytes, ¬Reads s r bytes) ∧ Answers s r s' a code [] ∧ Told r code a.ran ∧
      a.copied = [] := by
  obtain ⟨response, chunk, ids, hsel⟩ := h.select r
  have hfull : StreamFull { s.ctx with ids := ids } := h.stream
  have hempty : Packed chunk { chunk := chunk, log := [] } [] :=
    ⟨rfl, hsel.empty, rfl, iff_of_true Cells.within_nil (.inl rfl)⟩
  by_cases hreach : Reaches r
  · have hspace := space_reaches hreach { s.ctx with ids := ids } { chunk := chunk, log := [] }
    rcases params_cases hfull r { chunk := chunk, log := [] } with
      ⟨hnull, hnone⟩ | ⟨hnot, hhandles⟩
    · refine .inl ⟨hreach, hnull, ?_⟩
      rw [hsel.read, hspace, hnone]
      rfl
    rcases hhandles with ⟨hrd, bytes, ctx', hparameter, hfull', hparams⟩ |
      ⟨hunread, ctx', e, ran, hfull', hparams, he, hrd⟩
    · have hpacked := packData_packed hrd chunk (xferSource bytes r.outside) 0
      have hcopied := packData_copied hrd chunk (xferSource bytes r.outside) 0
      obtain ⟨s', a, hanswers, hran, hsame⟩ := hsel.answers (hspace.trans hparams) hfull' hpacked
      exact .inr (.inl
        ⟨bytes, s', a, ⟨hreach, hrd, hparameter⟩, hanswers, hran, hsame.trans hcopied⟩)
    · obtain ⟨s', a, hanswers, hran, hsame⟩ := hsel.answers (hspace.trans hparams) hfull' hempty
      refine .inr (.inr ⟨s', a, _, fun bytes hreads => ?_, hanswers, ?_, hsame⟩)
      · cases (hunread hreads.2.1).symm.trans hreads.2.2
      · rw [Told, if_pos hreach, hran]
        exact ⟨hnot, (retOf_eq_zero e).trans he, fun hcmd hzero =>
          hrd hcmd ((retOf_eq_zero e).mp hzero)⟩
  · obtain ⟨s', a, hanswers, hran, hsame⟩ := hsel.answers (space_misses hreach _ _) hfull hempty
    refine .inr (.inr ⟨s', a, _, fun bytes hreads => hreach hreads.1, hanswers, ?_, hsame⟩)
    rw [Told, if_neg hreach, hran]
    exact ⟨rfl, rfl⟩

/-- **The device stays ready.** -/
theorem XferReady.after (h : XferReady s) (r : XferRequest) :
    Machine.After xferRead XferReady s r := by
  intro s' a hrun
  rcases read_cases h r with ⟨-, -, hnone⟩ | ⟨bytes, s₁, a₁, -, hanswers, -⟩ |
    ⟨s₁, a₁, code, -, hanswers, -⟩
  · rw [hnone] at hrun
    cases hrun
  · cases hanswers.read.symm.trans hrun
    exact hanswers.ready
  · cases hanswers.read.symm.trans hrun
    exact hanswers.ready

/-- The device before its first request. -/
def xferStart (test : UInt32) (ids : UInt16) : XferState :=
  { response := none, ctx := { lqSingleTest := test, lqStream := none, ids := ids } }

theorem xferStart_ready (test : UInt32) (ids : UInt16) : XferReady (xferStart test ids) :=
  ⟨fun _ h => (by cases h), fun _ h => (by cases h)⟩

end Awoke.Cmder
