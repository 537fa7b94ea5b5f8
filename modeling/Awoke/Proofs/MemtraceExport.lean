/-
What an export holds of the tracers.

The three areas are what the cursors go through, and everything in them is where the
records say, if no cursor runs into the next area.  The sizes that keep them apart are
right without events only: for a queue as many bytes are counted as it holds events, and
what is copied for an event is the pointer to it.  And they are right only if the sum of
the sizes began with nothing that is too much (`export_laid_out_iff`).
-/
import Awoke.Benchmark.MemtraceExport
import Awoke.Proofs.Memtrace
import Awoke.Proofs.MemtraceLog

namespace Awoke.Memtrace

/-! ### Bytes -/

@[simp] theorem pushDwrd_length (x : UInt32) : (pushDwrd x).length = 4 := rfl

theorem pullDwrd_of_slice {buf : Cells UInt8} {pos : Int} {x : UInt32}
    (h : Cells.slice buf pos 4 = pushDwrd x) : pullDwrd buf pos = x := by
  have hcell := Cells.slice_eq_iff.mp (show Cells.slice buf pos (pushDwrd x).length = _ from h)
  have h₀ : buf pos = x.toUInt8 := by simpa [pushDwrd] using hcell 0 (by simp)
  have h₁ : buf (pos + 1) = (x >>> 8).toUInt8 := by simpa [pushDwrd] using hcell 1 (by simp)
  have h₂ : buf (pos + 2) = (x >>> 16).toUInt8 := by simpa [pushDwrd] using hcell 2 (by simp)
  have h₃ : buf (pos + 3) = (x >>> 24).toUInt8 := by simpa [pushDwrd] using hcell 3 (by simp)
  have hx := x.toNat_lt
  rw [pullDwrd, h₀, h₁, h₂, h₃, ← UInt32.toNat_inj]
  simp only [UInt32.toNat_add, UInt32.toNat_shiftLeft, UInt8.toNat_toUInt32, UInt32.toNat_toUInt8,
    UInt32.toNat_shiftRight, Nat.shiftLeft_eq, Nat.shiftRight_eq_div_pow, UInt32.reduceToNat,
    Nat.reduceMod, Nat.reducePow]
  omega

theorem exportRecord_length (reserve : UInt8 × UInt8 × UInt8) (node : Node)
    (nameOffset paramOffset : Nat) :
    (exportRecord reserve node nameOffset paramOffset).length = exportNodeSize := rfl

/-! ### The areas -/

/-- The bytes the nodes' parameters take in the export. -/
def paramLength (stack : Stack) : Nat → List Node → Nat
  | _, [] => 0
  | i, node :: nodes => (exportParam (stack.event i) node).length + paramLength stack (i + 1) nodes

/-- The cells from `a` to `b`. -/
def Within (a b : Nat) (x : Int) : Prop := (a : Int) ≤ x ∧ x < b

variable {stack : Stack} {c : Cursors} {i : Nat} {node : Node} {nodes : List Node}

theorem nodeExport_buf : (nodeExport stack i node c).buf =
    Cells.write (Cells.write (Cells.write c.buf c.pos
      (exportRecord (stack.reserve i) node c.posName c.posParam))
      c.posParam (exportParam (stack.event i) node)) c.posName (strncpy node.name.1) := rfl

theorem nodeExport_pos : (nodeExport stack i node c).pos = c.pos + exportNodeSize := rfl

theorem nodeExport_posName : (nodeExport stack i node c).posName = c.posName + nameSize := rfl

theorem nodeExport_posParam : (nodeExport stack i node c).posParam =
    c.posParam + (exportParam (stack.event i) node).length := rfl

theorem exportLoop_pos : (exportLoop stack i nodes c).pos =
    c.pos + exportNodeSize * nodes.length := by
  induction nodes generalizing i c with
  | nil => rfl
  | cons node nodes ih =>
      rw [exportLoop, ih, List.length_cons, nodeExport_pos, Nat.mul_add]
      omega

theorem exportLoop_posName : (exportLoop stack i nodes c).posName =
    c.posName + nameSize * nodes.length := by
  induction nodes generalizing i c with
  | nil => rfl
  | cons node nodes ih =>
      rw [exportLoop, ih, List.length_cons, nodeExport_posName, Nat.mul_add]
      omega

theorem exportLoop_posParam : (exportLoop stack i nodes c).posParam =
    c.posParam + paramLength stack i nodes := by
  induction nodes generalizing i c with
  | nil => rfl
  | cons node nodes ih =>
      rw [exportLoop, ih, paramLength, nodeExport_posParam, Nat.add_assoc]

theorem strncpy_name_length (node : Node) : (strncpy node.name.1).length = nameSize := by
  rw [strncpy_length, node.name.2]

theorem nodeExport_outside {x : Int}
    (hrecord : ¬Within c.pos (c.pos + exportNodeSize) x)
    (hparam : ¬Within c.posParam (c.posParam + (exportParam (stack.event i) node).length) x)
    (hname : ¬Within c.posName (c.posName + nameSize) x) :
    (nodeExport stack i node c).buf x = c.buf x := by
  unfold Within at hrecord hparam hname
  have hlen := exportRecord_length (stack.reserve i) node c.posName c.posParam
  have hnamelen := strncpy_name_length node
  rw [nodeExport_buf, Cells.write_outside _ _ _ (by omega), Cells.write_outside _ _ _ (by omega),
    Cells.write_outside _ _ _ (by omega)]

/-- So do they all. -/
theorem exportLoop_outside {x : Int} :
    ∀ {nodes : List Node} {i : Nat} {c : Cursors},
    ¬Within c.pos (exportLoop stack i nodes c).pos x →
    ¬Within c.posParam (exportLoop stack i nodes c).posParam x →
    ¬Within c.posName (exportLoop stack i nodes c).posName x →
    (exportLoop stack i nodes c).buf x = c.buf x := by
  intro nodes
  induction nodes with
  | nil => intro i c _ _ _; rfl
  | cons node nodes ih =>
      intro i c hrecord hparam hname
      rw [exportLoop_pos, List.length_cons, Nat.mul_add] at hrecord
      rw [exportLoop_posParam, paramLength] at hparam
      rw [exportLoop_posName, List.length_cons, Nat.mul_add] at hname
      unfold Within at hrecord hparam hname
      rw [exportLoop, ih, nodeExport_outside] <;> unfold Within
      · omega
      · omega
      · omega
      · rw [exportLoop_pos, nodeExport_pos]
        omega
      · rw [exportLoop_posParam, nodeExport_posParam]
        omega
      · rw [exportLoop_posName, nodeExport_posName]
        omega

theorem exportLoop_slice {a n : Nat}
    (h : ∀ x : Int, Within a (a + n) x → ¬Within c.pos (exportLoop stack i nodes c).pos x ∧
      ¬Within c.posParam (exportLoop stack i nodes c).posParam x ∧
      ¬Within c.posName (exportLoop stack i nodes c).posName x) :
    Cells.slice (exportLoop stack i nodes c).buf a n = Cells.slice c.buf a n := by
  refine Cells.slice_congr fun k hk => ?_
  obtain ⟨hrecord, hparam, hname⟩ := h (a + k) ⟨by omega, by push_cast; omega⟩
  exact exportLoop_outside hrecord hparam hname

/-- The areas of some nodes, from the cursors on, do not run into one another. -/
structure Apart (stack : Stack) (i : Nat) (nodes : List Node) (c : Cursors) : Prop where
  records : c.pos + exportNodeSize * nodes.length ≤ c.posParam
  params : c.posParam + paramLength stack i nodes ≤ c.posName

theorem Apart.tail (h : Apart stack i (node :: nodes) c) :
    Apart stack (i + 1) nodes (nodeExport stack i node c) := by
  have hrecords := h.records
  have hparams := h.params
  rw [List.length_cons, Nat.mul_add] at hrecords
  rw [paramLength] at hparams
  constructor
  · rw [nodeExport_pos, nodeExport_posParam]
    omega
  · rw [nodeExport_posParam, nodeExport_posName]
    omega

theorem slice_write_all {m : Cells UInt8} {a : Int} {bs : List UInt8} {n : Nat}
    (h : bs.length = n) : Cells.slice (Cells.write m a bs) a n = bs := by
  subst h
  exact Cells.slice_write_self m a bs

/-- What the export of one node leaves of it in the buffer. -/
structure Exported (stack : Stack) (i : Nat) (node : Node) (buf : Cells UInt8)
    (pos posName posParam : Nat) : Prop where
  record : Cells.slice buf pos exportNodeSize =
    exportRecord (stack.reserve i) node posName posParam
  param : Cells.slice buf posParam (exportParam (stack.event i) node).length =
    exportParam (stack.event i) node
  name : Cells.slice buf posName nameSize = strncpy node.name.1

theorem Apart.nodeExport_exported (h : Apart stack i (node :: nodes) c) :
    Exported stack i node (nodeExport stack i node c).buf c.pos c.posName c.posParam := by
  have hrecords := h.records
  have hparams := h.params
  rw [List.length_cons, Nat.mul_add] at hrecords
  rw [paramLength] at hparams
  have hlen := exportRecord_length (stack.reserve i) node c.posName c.posParam
  rw [nodeExport_buf]
  constructor
  · rw [Cells.slice_write_before _ _ _ _ (by omega), Cells.slice_write_before _ _ _ _ (by omega),
      ← hlen, Cells.slice_write_self]
  · rw [Cells.slice_write_before _ _ _ _ (by omega), Cells.slice_write_self]
  · exact slice_write_all (strncpy_name_length node)

/-- The nodes behind one leave what it exported. -/
theorem Apart.keep (h : Apart stack i (node :: nodes) c) :
    Exported stack i node (exportLoop stack i (node :: nodes) c).buf c.pos c.posName
      c.posParam := by
  have hexported := h.nodeExport_exported
  have htail := h.tail
  have hrecords := htail.records
  have hparams := htail.params
  have hhead := h.records
  have hhead' := h.params
  rw [List.length_cons, Nat.mul_add] at hhead
  rw [paramLength] at hhead'
  rw [nodeExport_pos, nodeExport_posParam] at hrecords
  rw [nodeExport_posName, nodeExport_posParam] at hparams
  have hkeep : ∀ a n : Nat, (∀ x : Int, Within a (a + n) x →
      ¬Within (c.pos + exportNodeSize) (c.pos + exportNodeSize + exportNodeSize * nodes.length) x ∧
      ¬Within (c.posParam + (exportParam (stack.event i) node).length) (c.posParam +
        (exportParam (stack.event i) node).length + paramLength stack (i + 1) nodes) x ∧
      ¬Within (c.posName + nameSize) (c.posName + nameSize + nameSize * nodes.length) x) →
      Cells.slice (exportLoop stack i (node :: nodes) c).buf a n =
        Cells.slice (nodeExport stack i node c).buf a n := by
    intro a n hout
    show Cells.slice (exportLoop stack (i + 1) nodes (nodeExport stack i node c)).buf a n = _
    refine exportLoop_slice fun x hx => ?_
    rw [exportLoop_pos, exportLoop_posParam, exportLoop_posName, nodeExport_pos,
      nodeExport_posParam, nodeExport_posName]
    exact hout x hx
  unfold Within at hkeep
  refine ⟨(hkeep _ _ ?_).trans hexported.record, (hkeep _ _ ?_).trans hexported.param,
    (hkeep _ _ ?_).trans hexported.name⟩ <;> omega

/-- **Every node is in the export** at the places its record says. -/
theorem Apart.exported : ∀ {nodes : List Node} {i : Nat} {c : Cursors}, Apart stack i nodes c →
    ∀ {k : Nat} {node : Node}, nodes[k]? = some node →
      Exported stack (i + k) node (exportLoop stack i nodes c).buf (c.pos + exportNodeSize * k)
        (c.posName + nameSize * k) (c.posParam + paramLength stack i (nodes.take k)) := by
  intro nodes
  induction nodes with
  | nil => intro i c _ k node hk; exact nomatch hk
  | cons first nodes ih =>
      intro i c h k node hk
      cases k with
      | zero =>
          obtain rfl : first = node := Option.some.inj hk
          exact h.keep
      | succ k =>
          have hrest := ih h.tail (k := k) hk
          rw [nodeExport_pos, nodeExport_posName, nodeExport_posParam] at hrest
          rw [List.take_succ_cons, paramLength, exportLoop]
          have hindex : i + (k + 1) = i + 1 + k := by omega
          have hpos : c.pos + exportNodeSize * (k + 1) = c.pos + exportNodeSize +
            exportNodeSize * k := by rw [Nat.mul_add]; omega
          have hname : c.posName + nameSize * (k + 1) = c.posName + nameSize + nameSize * k := by
            rw [Nat.mul_add]; omega
          rw [hindex, hpos, hname, ← Nat.add_assoc]
          exact hrest

/-! ### What is asked of an export -/

/-- The bytes that stand for what a node has recorded. -/
def Node.value (node : Node) : List UInt8 :=
  if node.type = typeCounter ∨ node.type = typeVariable then
    match node.param with
    | .number num => pushDwrd num
    | _ => []
  else if node.type = typeEvent ∨ node.type = typeCustomEvent then
    match node.param with
    | .sequence queue _ => queue.items.flatten
    | _ => []
  else []

/-- Head, records, parameters and names, each from where it begins to where it ends. -/
def exportAreas (ctx : Context) (stack : Stack) (size : UInt32) (buf : Cells UInt8) :
    List (Nat × Nat) :=
  let first := exportStart ctx size buf
  let last := memtraceExport ctx stack size buf
  [(0, exportHeadSize), (first.pos, last.pos), (first.posParam, last.posParam),
    (first.posName, last.posName)]

/-- What the record of a node says is where its value and its name are. -/
structure Readable (buf : Cells UInt8) (record : Nat) (node : Node) : Prop where
  value : Cells.slice buf (pullDwrd buf (record + 12)).toNat (pullDwrd buf (record + 16)).toNat =
    node.value
  name : text (Cells.slice buf (pullDwrd buf (record + 4)).toNat
    (pullDwrd buf (record + 8)).toNat) = text node.name.1

/-- What is asked of an export, where `size₁` is what the sum of the sizes began with when
the size of the export was asked for, and `size₂` when it was written. -/
structure LaidOut (ctx : Context) (size₁ size₂ : UInt32) (stack : Stack) (buf : Cells UInt8) :
    Prop where
  inside : ∀ x, (memtraceExport ctx stack size₂ buf).buf x ≠ buf x →
    Within 0 (memtraceGetExportSize ctx size₁).toNat x
  apart : (exportAreas ctx stack size₂ buf).Pairwise fun a b =>
    ∀ x, ¬(Within a.1 a.2 x ∧ Within b.1 b.2 x)
  readable : ∀ (k : Nat) node, ctx.nodes[k]? = some node →
    Readable (memtraceExport ctx stack size₂ buf).buf (exportHeadSize + exportNodeSize * k) node

/-- The sizes of all parameters. -/
def Context.paramSize (ctx : Context) : Nat :=
  (ctx.nodes.map fun node => (nodeParamSize node).toNat).sum

/-- No tracer has a queue, the sum of the sizes did not begin higher for the export than for
its size, and the size is that of the areas. -/
def Context.ExportFits (ctx : Context) (size₁ size₂ : UInt32) : Prop :=
  (∀ node ∈ ctx.nodes, node.type = typeEvent ∨ node.type = typeCustomEvent →
    nodeParamSize node = 0) ∧
  (ctx.nodes ≠ [] → size₂ ≤ size₁) ∧
  exportHeadSize + (exportNodeSize + nameSize) * ctx.ntracers + ctx.paramSize + size₁.toNat < 2 ^ 32

instance (ctx : Context) (size₁ size₂ : UInt32) : Decidable (ctx.ExportFits size₁ size₂) :=
  inferInstanceAs (Decidable (_ ∧ _ ∧ _))

/-- Tracers that are counted right and have the parameters of their types. -/
structure Context.Ready (ctx : Context) : Prop where
  count : ctx.ntracers = ctx.nodes.length
  fit : ∀ node ∈ ctx.nodes, node.Fit

theorem Registry.Sound.ready {s : Registry} (h : s.Sound) : s.ctx.Ready := by
  refine ⟨h.right.count.trans (Context.nodes_length _).symm, fun node hnode => ?_⟩
  obtain ⟨slot, hslot, hlive⟩ := List.mem_flatMap.mp hnode
  obtain ⟨i, hi⟩ := List.mem_iff_getElem?.mp hslot
  exact h.fit i slot hi node hlive

/-! ### Sizes -/

variable {ctx : Context} {size₁ size₂ : UInt32} {buf : Cells UInt8}

theorem totalParamSize_toNat (ctx : Context) (size : UInt32) :
    (totalParamSize ctx size).toNat = (size.toNat + ctx.paramSize) % 2 ^ 32 := by
  unfold totalParamSize Context.paramSize
  induction ctx.nodes generalizing size with
  | nil =>
      have hlt := size.toNat_lt
      exact (Nat.mod_eq_of_lt hlt).symm
  | cons node nodes ih =>
      rw [List.foldl_cons, ih, UInt32.toNat_add, List.map_cons, List.sum_cons, Nat.mod_add_mod,
        Nat.add_assoc]

theorem exportSize_toNat (ctx : Context) (size : UInt32) :
    (memtraceGetExportSize ctx size).toNat =
      (exportHeadSize + (exportNodeSize + nameSize) * ctx.ntracers + ctx.paramSize + size.toNat) %
        2 ^ 32 := by
  unfold memtraceGetExportSize
  simp only [UInt32.toNat_add, UInt32.toNat_ofNat', totalParamSize_toNat, exportHeadSize,
    exportNodeSize, nameSize]
  omega

section Event

variable {node : Node} {queue : Ringq} {buffer : Bool}

theorem event_not_number (h : node.type = typeEvent ∨ node.type = typeCustomEvent) :
    ¬(node.type = typeCounter ∨ node.type = typeVariable) := by
  rintro (htype | htype) <;> rcases h with h | h <;> exact absurd (htype.symm.trans h) (by decide)

theorem nodeParamSize_event (h : node.type = typeEvent ∨ node.type = typeCustomEvent)
    (hparam : node.param = .sequence queue buffer) : nodeParamSize node = queue.depth := by
  rw [nodeParamSize, if_neg (event_not_number h), if_pos h, hparam]

theorem value_event (h : node.type = typeEvent ∨ node.type = typeCustomEvent)
    (hparam : node.param = .sequence queue buffer) : node.value = queue.items.flatten := by
  rw [Node.value, if_neg (event_not_number h), if_pos h, hparam]

theorem exportParam_event (h : node.type = typeEvent ∨ node.type = typeCustomEvent)
    (hparam : node.param = .sequence queue buffer) (event : Nat → Cells UInt8) :
    exportParam event node = (List.range queue.items.length).flatMap fun j =>
      Cells.slice (event j) 0 queue.nodeSize.toNat := by
  rw [exportParam, if_neg (event_not_number h), if_pos h, hparam]

end Event

/-- Without queues, what is pushed for a node is its value, and has the size that is
counted. -/
theorem Node.Fit.exportParam_eq {node : Node} (h : node.Fit)
    (hqueue : node.type = typeEvent ∨ node.type = typeCustomEvent → nodeParamSize node = 0)
    (event : Nat → Cells UInt8) :
    exportParam event node = node.value ∧ node.value.length = (nodeParamSize node).toNat := by
  by_cases hnumber : node.type = typeCounter ∨ node.type = typeVariable
  · obtain ⟨num, hnum⟩ := h.number hnumber
    have hvalue : node.value = pushDwrd num := by rw [Node.value, if_pos hnumber, hnum]
    rw [hvalue, exportParam, if_pos hnumber, hnum, nodeParamSize, if_pos hnumber]
    exact ⟨rfl, rfl⟩
  · by_cases hevent : node.type = typeEvent ∨ node.type = typeCustomEvent
    · obtain ⟨queue, buffer, hparam, hbounded⟩ := h.sequence hevent
      have hsize := hqueue hevent
      have hitems : queue.items = [] := by
        have hle := hbounded.depth
        rw [← nodeParamSize_event hevent hparam, hsize] at hle
        exact List.length_eq_zero_iff.mp (Nat.le_zero.mp hle)
      rw [exportParam_event hevent hparam, value_event hevent hparam, hitems, hsize]
      exact ⟨rfl, rfl⟩
    · have hvalue : node.value = [] := by rw [Node.value, if_neg hnumber, if_neg hevent]
      rw [hvalue, exportParam, if_neg hnumber, if_neg hevent, nodeParamSize, if_neg hnumber,
        if_neg hevent]
      exact ⟨rfl, rfl⟩

theorem paramLength_eq {stack : Stack} : ∀ {nodes : List Node} {i : Nat},
    (∀ node ∈ nodes, ∀ j, (exportParam (stack.event j) node).length = (nodeParamSize node).toNat) →
    paramLength stack i nodes = (nodes.map fun node => (nodeParamSize node).toNat).sum := by
  intro nodes
  induction nodes with
  | nil => intro i _; rfl
  | cons node nodes ih =>
      intro i h
      rw [paramLength, h node List.mem_cons_self, List.map_cons, List.sum_cons,
        ih fun n hn => h n (List.mem_cons_of_mem _ hn)]

/-! ### Reading a record -/

theorem record_fields {pos nameOffset paramOffset : Nat} {reserve : UInt8 × UInt8 × UInt8}
    {node : Node} (h : Cells.slice buf pos exportNodeSize =
      exportRecord reserve node nameOffset paramOffset) :
    pullDwrd buf (pos + 4) = UInt32.ofNat nameOffset ∧
    pullDwrd buf (pos + 8) = UInt32.ofNat nameSize ∧
    pullDwrd buf (pos + 12) = UInt32.ofNat paramOffset ∧
    pullDwrd buf (pos + 16) = nodeParamSize node := by
  have hfield : ∀ d : Nat, d + 4 ≤ exportNodeSize → Cells.slice buf (pos + d) 4 =
      ((exportRecord reserve node nameOffset paramOffset).drop d).take 4 := by
    intro d hd
    rw [← h, Cells.slice_drop _ _ (by omega), Cells.slice_take _ _ (by omega)]
  exact ⟨pullDwrd_of_slice (hfield 4 (by decide)), pullDwrd_of_slice (hfield 8 (by decide)),
    pullDwrd_of_slice (hfield 12 (by decide)), pullDwrd_of_slice (hfield 16 (by decide))⟩

theorem text_strncpy (bs : List UInt8) : text (strncpy bs) = text bs := by
  induction bs with
  | nil => rfl
  | cons b bs ih =>
      by_cases hb : b = 0
      · subst hb
        rfl
      · rw [strncpy_cons hb, text, text, List.takeWhile_cons_of_pos (by simpa using hb),
          List.takeWhile_cons_of_pos (by simpa using hb)]
        exact congrArg _ ih

/-! ### Where the cursors are -/

theorem exportStart_pos (ctx : Context) (size : UInt32) (buf : Cells UInt8) :
    (exportStart ctx size buf).pos = exportHeadSize := rfl

theorem exportStart_posParam (ctx : Context) (size : UInt32) (buf : Cells UInt8) :
    (exportStart ctx size buf).posParam = exportHeadSize + exportNodeSize * ctx.ntracers := rfl

theorem exportStart_posName (ctx : Context) (size : UInt32) (buf : Cells UInt8) :
    (exportStart ctx size buf).posName = exportHeadSize + exportNodeSize * ctx.ntracers +
      (totalParamSize ctx size).toNat := rfl

/-- The areas that were laid out do not run into one another. -/
theorem LaidOut.cursors (h : LaidOut ctx size₁ size₂ stack buf) (hready : ctx.Ready)
    (hnodes : ctx.nodes ≠ []) : Apart stack 0 ctx.nodes (exportStart ctx size₂ buf) := by
  constructor
  · rw [exportStart_pos, exportStart_posParam, hready.count]
  · refine Nat.le_of_not_lt fun hlt => ?_
    have hpos : 0 < ctx.nodes.length := List.length_pos_iff.mpr hnodes
    have hpair := h.apart
    rw [exportAreas, List.pairwise_cons, List.pairwise_cons, List.pairwise_cons] at hpair
    refine hpair.2.2.1 _ List.mem_cons_self ((exportStart ctx size₂ buf).posName) ⟨?_, ?_⟩
    · have hle : (exportStart ctx size₂ buf).posParam ≤ (exportStart ctx size₂ buf).posName := by
        rw [exportStart_posParam, exportStart_posName]
        omega
      have hend : (memtraceExport ctx stack size₂ buf).posParam =
          (exportStart ctx size₂ buf).posParam + paramLength stack 0 ctx.nodes :=
        exportLoop_posParam
      unfold Within
      rw [hend]
      omega
    · have hend : (memtraceExport ctx stack size₂ buf).posName =
          (exportStart ctx size₂ buf).posName + nameSize * ctx.nodes.length := exportLoop_posName
      unfold Within
      rw [hend]
      unfold nameSize
      omega

/-- What is written whatever was there before is inside, if every change is. -/
theorem inside_of_slice {f : Cells UInt8 → Cells UInt8} {a size : Nat} {bs : List UInt8}
    (hslice : ∀ buf, Cells.slice (f buf) a bs.length = bs)
    (hinside : ∀ buf x, f buf x ≠ buf x → Within 0 size x) (hbs : bs ≠ []) :
    a + bs.length ≤ size := by
  have hpos := List.length_pos_iff.mpr hbs
  have hlt : bs.length - 1 < bs.length := by omega
  -- the last byte, over a buffer that had another one there
  let other : Cells UInt8 := fun _ => bs[bs.length - 1] + 1
  have hcell : f other (a + (bs.length - 1 : Nat)) = bs[bs.length - 1] :=
    Cells.slice_eq_iff.mp (hslice other) (bs.length - 1) hlt
  have hin := hinside other (a + (bs.length - 1 : Nat)) (by
    rw [hcell]
    exact fun heq => absurd (UInt8.left_eq_add.mp heq) (by decide))
  unfold Within at hin
  omega

/-- Nothing that was laid out is behind the size of the export. -/
theorem names_inside (h : ∀ buf, LaidOut ctx size₁ size₂ stack buf) (hready : ctx.Ready)
    (hnodes : ctx.nodes ≠ []) (buf : Cells UInt8) :
    (exportStart ctx size₂ buf).posName + nameSize * ctx.nodes.length ≤
      (memtraceGetExportSize ctx size₁).toNat := by
  obtain ⟨n, hn⟩ : ∃ n, ctx.nodes.length = n + 1 :=
    ⟨ctx.nodes.length - 1, by have := List.length_pos_iff.mpr hnodes; omega⟩
  obtain ⟨node, hnode⟩ : ∃ node, ctx.nodes[n]? = some node :=
    ⟨_, List.getElem?_eq_getElem (by omega)⟩
  have hlen := strncpy_name_length node
  have hslice : ∀ other, Cells.slice (memtraceExport ctx stack size₂ other).buf
      ((exportStart ctx size₂ buf).posName + nameSize * n : Nat) (strncpy node.name.1).length =
        strncpy node.name.1 := by
    intro other
    have hname := (((h other).cursors hready hnodes).exported hnode).name
    rw [hlen]
    exact hname
  have hle := inside_of_slice hslice (fun other => (h other).inside) (by
    refine List.ne_nil_of_length_pos ?_
    rw [hlen]
    decide)
  rw [hlen] at hle
  rw [hn, Nat.mul_add]
  omega

/-- So is the head. -/
theorem head_inside (h : ∀ buf, LaidOut ctx size₁ size₂ stack buf) (hnodes : ctx.nodes = []) :
    exportHeadSize ≤ (memtraceGetExportSize ctx size₁).toNat := by
  have hbuf : ∀ buf, (memtraceExport ctx stack size₂ buf).buf =
      (exportStart ctx size₂ buf).buf := by
    intro buf
    rw [memtraceExport, hnodes]
    rfl
  have hslice : ∀ buf, Cells.slice (memtraceExport ctx stack size₂ buf).buf (0 : Nat)
      (pushDwrd 0xBBCCCCBB ++ pushDwrd 0x00000001 ++ pushDwrd (UInt32.ofNat ctx.root.length) ++
        pushDwrd (UInt32.ofNat ctx.ntracers)).length =
      pushDwrd 0xBBCCCCBB ++ pushDwrd 0x00000001 ++ pushDwrd (UInt32.ofNat ctx.root.length) ++
        pushDwrd (UInt32.ofNat ctx.ntracers) := by
    intro buf
    rw [hbuf]
    exact Cells.slice_write_self buf 0 _
  have hle := inside_of_slice hslice (fun buf => (h buf).inside) fun hnil => nomatch hnil
  rw [Nat.zero_add] at hle
  exact hle

theorem paramLength_take_le (stack : Stack) : ∀ (nodes : List Node) (i k : Nat),
    paramLength stack i (nodes.take k) ≤ paramLength stack i nodes := by
  intro nodes
  induction nodes with
  | nil => intro i k; rw [List.take_nil]
  | cons node nodes ih =>
      intro i k
      cases k with
      | zero => exact Nat.zero_le _
      | succ k =>
          rw [List.take_succ_cons, paramLength, paramLength]
          exact Nat.add_le_add_left (ih (i + 1) k) _

/-- A record is read as it was written, as long as its offsets fit into four bytes. -/
theorem Exported.readable_iff {buf : Cells UInt8} {i pos posName posParam : Nat}
    (h : Exported stack i node buf pos posName posParam) (hname : posName < 2 ^ 32)
    (hparam : posParam < 2 ^ 32) :
    Readable buf pos node ↔
      Cells.slice buf posParam (nodeParamSize node).toNat = node.value := by
  obtain ⟨hnameOffset, hnameLength, hparamOffset, hparamLength⟩ := record_fields h.record
  have htext : text (strncpy node.name.1) = text node.name.1 := text_strncpy _
  constructor
  · intro hread
    have hvalue := hread.value
    rwa [hparamOffset, hparamLength, UInt32.toNat_ofNat_of_lt' hparam] at hvalue
  · intro hvalue
    constructor
    · rwa [hparamOffset, hparamLength, UInt32.toNat_ofNat_of_lt' hparam]
    · rw [hnameOffset, hnameLength, UInt32.toNat_ofNat_of_lt' hname]
      show text (Cells.slice buf posName nameSize) = _
      rw [h.name, htext]

/-- Every value that was laid out is where its cursor was. -/
theorem value_at (h : ∀ stack buf, LaidOut ctx size₁ size₂ stack buf) (hready : ctx.Ready)
    (stack : Stack) (buf : Cells UInt8) {k : Nat} {node : Node} (hk : ctx.nodes[k]? = some node) :
    ∃ a : Nat, Cells.slice (memtraceExport ctx stack size₂ buf).buf a
        (exportParam (stack.event k) node).length = exportParam (stack.event k) node ∧
      Cells.slice (memtraceExport ctx stack size₂ buf).buf a (nodeParamSize node).toNat =
        node.value := by
  have hnodes : ctx.nodes ≠ [] := List.ne_nil_of_mem (List.mem_of_getElem? hk)
  have hapart := (h stack buf).cursors hready hnodes
  have hexported := hapart.exported hk
  have hinside := names_inside (fun buf => h stack buf) hready hnodes buf
  have hlt := (memtraceGetExportSize ctx size₁).toNat_lt
  have hparams := hapart.params
  have htake := paramLength_take_le stack ctx.nodes 0 k
  have hkle : k ≤ ctx.nodes.length := by
    obtain ⟨hk, -⟩ := List.getElem?_eq_some_iff.mp hk
    omega
  have hmul := Nat.mul_le_mul_left nameSize hkle
  have hread := (hexported.readable_iff (by omega) (by omega)).mp ((h stack buf).readable k node hk)
  rw [Nat.zero_add] at hexported
  exact ⟨_, hexported.param, hread⟩

theorem flatMap_slice_const (n m : Nat) (b : UInt8) :
    ((List.range n).flatMap fun _ => Cells.slice (fun _ => b) 0 m) = List.replicate (n * m) b := by
  rw [List.eq_replicate_iff]
  constructor
  · rw [List.length_flatMap]
    simp only [Cells.slice_length, List.map_const', List.length_range, List.sum_replicate_nat]
  · intro x hx
    obtain ⟨_, -, hmem⟩ := List.mem_flatMap.mp hx
    obtain ⟨_, -, rfl⟩ := List.mem_map.mp hmem
    rfl

/-- A queue with room for an event cannot be exported: what is copied for its events does
not depend on them. -/
theorem LaidOut.no_queue (h : ∀ stack buf, LaidOut ctx size₁ size₂ stack buf)
    (hready : ctx.Ready) {node : Node} (hnode : node ∈ ctx.nodes)
    (hevent : node.type = typeEvent ∨ node.type = typeCustomEvent) : nodeParamSize node = 0 := by
  obtain ⟨queue, buffer, hparam, hbounded⟩ := (hready.fit node hnode).sequence hevent
  obtain ⟨k, hk⟩ := List.mem_iff_getElem?.mp hnode
  have hnodes : ctx.nodes ≠ [] := List.ne_nil_of_mem hnode
  have hsize := nodeParamSize_event hevent hparam
  -- the same bytes at the pointer to every event
  let filled (b : UInt8) : Stack := { reserve := fun _ => (0, 0, 0), event := fun _ _ _ => b }
  have hvalue : ∀ b, node.value = List.replicate (queue.items.length * queue.nodeSize.toNat) b ∧
      node.value.length = queue.depth.toNat := by
    intro b
    obtain ⟨a, hpushed, hread⟩ := value_at h hready (filled b) (fun _ => 0) hk
    have hvaluelen : node.value.length = queue.depth.toNat := by
      rw [← hread, Cells.slice_length, hsize]
    have hitems : node.value.length = queue.items.length * queue.nodeSize.toNat := by
      rw [value_event hevent hparam, List.length_flatten,
        List.map_congr_left hbounded.size, List.map_const', List.sum_replicate_nat]
    have hbytes : exportParam ((filled b).event k) node =
        List.replicate (queue.items.length * queue.nodeSize.toNat) b := by
      rw [exportParam_event hevent hparam]
      exact flatMap_slice_const _ _ b
    rw [hbytes, List.length_replicate, ← hitems, hvaluelen, ← hsize, hread] at hpushed
    exact ⟨by rw [hpushed, hsize, ← hvaluelen, hitems], hvaluelen⟩
  have hlen := (hvalue 0).2
  rw [hsize]
  by_contra hdepth
  have hpos : 0 < queue.depth.toNat :=
    Nat.pos_of_ne_zero fun hzero => hdepth (UInt32.toNat_inj.mp hzero)
  have hsame := (hvalue 0).1.symm.trans (hvalue 1).1
  rw [(hvalue 0).1, List.length_replicate] at hlen
  rw [List.replicate_right_inj (by omega)] at hsame
  exact absurd hsame (by decide)

/-! ### The layout -/

theorem Context.Ready.paramLength (hready : ctx.Ready)
    (hqueue : ∀ node ∈ ctx.nodes, node.type = typeEvent ∨ node.type = typeCustomEvent →
      nodeParamSize node = 0) (stack : Stack) :
    Memtrace.paramLength stack 0 ctx.nodes = ctx.paramSize := by
  refine paramLength_eq fun node hnode j => ?_
  obtain ⟨hvalue, hlen⟩ := (hready.fit node hnode).exportParam_eq (hqueue node hnode)
    (stack.event j)
  rw [hvalue, hlen]

/-- **What must hold of the sizes** where everything is laid out. -/
theorem LaidOut.fits (h : ∀ stack buf, LaidOut ctx size₁ size₂ stack buf) (hready : ctx.Ready) :
    ctx.ExportFits size₁ size₂ := by
  have hqueue : ∀ node ∈ ctx.nodes, node.type = typeEvent ∨ node.type = typeCustomEvent →
      nodeParamSize node = 0 := fun node hnode => LaidOut.no_queue h hready hnode
  let stack : Stack := { reserve := fun _ => (0, 0, 0), event := fun _ _ _ => 0 }
  have hsize := exportSize_toNat ctx size₁
  have h₁ := size₁.toNat_lt
  have h₂ := size₂.toNat_lt
  by_cases hnodes : ctx.nodes = []
  · have hhead := head_inside (h stack) hnodes
    have hparam : ctx.paramSize = 0 := by rw [Context.paramSize, hnodes]; rfl
    have hcount : ctx.ntracers = 0 := by rw [hready.count, hnodes]; rfl
    rw [hparam, hcount] at hsize
    refine ⟨hqueue, fun hne => absurd hnodes hne, ?_⟩
    rw [hparam, hcount]
    unfold exportHeadSize at *
    omega
  · have hparams := ((h stack fun _ => 0).cursors hready hnodes).params
    have hnames := names_inside (h stack) hready hnodes fun _ => 0
    have hpos := List.length_pos_iff.mpr hnodes
    rw [hready.paramLength hqueue, exportStart_posParam, exportStart_posName,
      totalParamSize_toNat] at hparams
    rw [hsize, exportStart_posName, totalParamSize_toNat, ← hready.count] at hnames
    refine ⟨hqueue, fun _ => UInt32.le_iff_toNat_le.mpr ?_, ?_⟩
    all_goals
      unfold exportHeadSize exportNodeSize nameSize at *
      omega

section Fits

variable (h : ctx.ExportFits size₁ size₂) (hready : ctx.Ready)

theorem Context.ExportFits.size_eq (h : ctx.ExportFits size₁ size₂) :
    (memtraceGetExportSize ctx size₁).toNat =
      exportHeadSize + (exportNodeSize + nameSize) * ctx.ntracers + ctx.paramSize + size₁.toNat :=
  (exportSize_toNat ctx size₁).trans (Nat.mod_eq_of_lt h.2.2)

include h hready in
theorem Context.ExportFits.names (hnodes : ctx.nodes ≠ []) (buf : Cells UInt8) :
    (exportStart ctx size₂ buf).posName = exportHeadSize + exportNodeSize * ctx.ntracers +
        (size₂.toNat + ctx.paramSize) ∧
      (exportStart ctx size₂ buf).posName + nameSize * ctx.nodes.length ≤
        (memtraceGetExportSize ctx size₁).toNat := by
  have hle := UInt32.le_iff_toNat_le.mp (h.2.1 hnodes)
  have hfits := h.2.2
  rw [h.size_eq, exportStart_posName, totalParamSize_toNat, ← hready.count]
  unfold exportHeadSize exportNodeSize nameSize at *
  omega

include h hready in
theorem Context.ExportFits.cursors (stack : Stack) (buf : Cells UInt8) :
    Apart stack 0 ctx.nodes (exportStart ctx size₂ buf) := by
  constructor
  · rw [exportStart_pos, exportStart_posParam, hready.count]
  · rw [hready.paramLength h.1]
    by_cases hnodes : ctx.nodes = []
    · have hparam : ctx.paramSize = 0 := by rw [Context.paramSize, hnodes]; rfl
      rw [hparam, exportStart_posParam, exportStart_posName]
      omega
    · rw [(h.names hready hnodes buf).1, exportStart_posParam]
      omega

include h hready in
theorem Context.ExportFits.ends (stack : Stack) (buf : Cells UInt8) :
    (memtraceExport ctx stack size₂ buf).pos = exportHeadSize + exportNodeSize * ctx.ntracers ∧
    (memtraceExport ctx stack size₂ buf).posParam =
      exportHeadSize + exportNodeSize * ctx.ntracers + ctx.paramSize ∧
    (memtraceExport ctx stack size₂ buf).posName =
      (exportStart ctx size₂ buf).posName + nameSize * ctx.nodes.length := by
  unfold memtraceExport
  rw [exportLoop_pos, exportLoop_posParam, exportLoop_posName, hready.paramLength h.1,
    exportStart_pos, exportStart_posParam, hready.count]
  exact ⟨rfl, rfl, rfl⟩

include h hready in
/-- Nothing is written behind the size. -/
theorem Context.ExportFits.inside (stack : Stack) (buf : Cells UInt8) {x : Int}
    (hx : (memtraceExport ctx stack size₂ buf).buf x ≠ buf x) :
    Within 0 (memtraceGetExportSize ctx size₁).toNat x := by
  have hsize := h.size_eq
  obtain ⟨hpos, hparam, hname⟩ := h.ends hready stack buf
  by_contra hout
  have hbefore : (exportStart ctx size₂ buf).buf x = buf x := by
    refine Cells.write_outside _ _ _ ?_
    show x < 0 ∨ (0 : Int) + (16 : Nat) ≤ x
    unfold Within exportHeadSize at *
    omega
  refine hx ((exportLoop_outside ?_ ?_ ?_).trans hbefore)
  · show ¬Within _ (memtraceExport ctx stack size₂ buf).pos x
    rw [hpos, exportStart_pos]
    unfold Within exportHeadSize exportNodeSize nameSize at *
    omega
  · show ¬Within _ (memtraceExport ctx stack size₂ buf).posParam x
    rw [hparam, exportStart_posParam]
    unfold Within exportHeadSize exportNodeSize nameSize at *
    omega
  · show ¬Within _ (memtraceExport ctx stack size₂ buf).posName x
    rw [hname]
    by_cases hnodes : ctx.nodes = []
    · rw [hnodes, List.length_nil]
      unfold Within
      omega
    · have hend := (h.names hready hnodes buf).2
      unfold Within at *
      omega

include h hready in
/-- No two areas share a byte. -/
theorem Context.ExportFits.apart (stack : Stack) (buf : Cells UInt8) :
    (exportAreas ctx stack size₂ buf).Pairwise fun a b =>
      ∀ x, ¬(Within a.1 a.2 x ∧ Within b.1 b.2 x) := by
  obtain ⟨hpos, hparam, hname⟩ := h.ends hready stack buf
  have hbehind : (memtraceExport ctx stack size₂ buf).posParam ≤
      (exportStart ctx size₂ buf).posName := by
    have hparams := (h.cursors hready stack buf).params
    rw [hready.paramLength h.1] at hparams
    rw [hparam]
    exact hparams
  have hbegin := exportStart_pos ctx size₂ buf
  have hmiddle := exportStart_posParam ctx size₂ buf
  rw [hparam] at hbehind
  simp only [exportAreas, List.pairwise_cons, List.mem_cons, List.not_mem_nil, or_false,
    forall_eq_or_imp, forall_eq, IsEmpty.forall_iff, implies_true, List.Pairwise.nil, and_true,
    hpos, hparam, hbegin, hmiddle]
  unfold Within
  refine ⟨⟨?_, ?_, ?_⟩, ⟨?_, ?_⟩, ?_⟩ <;> intro x <;> omega

include h hready in
/-- **Everything is laid out** where the sizes are right. -/
theorem Context.ExportFits.laidOut (stack : Stack) (buf : Cells UInt8) :
    LaidOut ctx size₁ size₂ stack buf := by
  refine ⟨fun x => h.inside hready stack buf, h.apart hready stack buf, fun k node hk => ?_⟩
  have hnode := List.mem_of_getElem? hk
  have hexported := (h.cursors hready stack buf).exported hk
  obtain ⟨hname, hend⟩ := h.names hready (List.ne_nil_of_mem hnode) buf
  have hlt := (memtraceGetExportSize ctx size₁).toNat_lt
  have hparams := (h.cursors hready stack buf).params
  have htake := paramLength_take_le stack ctx.nodes 0 k
  have hkle : k ≤ ctx.nodes.length := by
    obtain ⟨hk, -⟩ := List.getElem?_eq_some_iff.mp hk
    omega
  have hmul := Nat.mul_le_mul_left nameSize hkle
  refine (hexported.readable_iff (by omega) (by omega)).mpr ?_
  obtain ⟨hvalue, hlen⟩ := (hready.fit node hnode).exportParam_eq (h.1 node hnode)
    (stack.event (0 + k))
  have hparam := hexported.param
  rwa [hvalue, hlen] at hparam

end Fits

/-- **An export is laid out, whatever was on the stack and in the buffer,** exactly if no
tracer has a queue and the sum of the sizes began with nothing that is too much. -/
theorem export_laid_out_iff (ctx : Context) (hready : ctx.Ready) (size₁ size₂ : UInt32) :
    (∀ stack buf, LaidOut ctx size₁ size₂ stack buf) ↔ ctx.ExportFits size₁ size₂ :=
  ⟨fun h => LaidOut.fits h hready, fun h stack buf => h.laidOut hready stack buf⟩

/-! ### Two tables -/

/-- A slot of a tracer alone. -/
def alone (type : UInt8) (param : Param) : Context :=
  { root := [⟨⟨letter 97, type, param⟩, []⟩], ntracers := 1 }

/-- A queue of one event, which was recorded. -/
def oneEvent : Ringq := { depth := 1, nodeSize := 8, items := [[1, 0, 0, 0, 2, 0, 0, 0]] }

theorem event_ready : (alone typeEvent (.sequence oneEvent true)).Ready := by
  refine ⟨rfl, fun node hnode => ?_⟩
  obtain rfl := List.mem_singleton.mp hnode
  refine ⟨fun hnumber => absurd hnumber (by decide), fun _ => ⟨oneEvent, true, rfl, ?_, ?_⟩⟩
  · decide
  · decide

theorem fit_number {name : NodeName} {type : UInt8} (hevent : ¬(type = typeEvent ∨
    type = typeCustomEvent)) (num : UInt32) : Node.Fit ⟨name, type, .number num⟩ :=
  ⟨fun _ => ⟨num, rfl⟩, fun htype => absurd htype hevent⟩

theorem fit_empty {name : NodeName} {type : UInt8} (hnumber : ¬(type = typeCounter ∨
    type = typeVariable)) (buffer : Bool) : Node.Fit ⟨name, type, .sequence {} buffer⟩ :=
  ⟨fun htype => absurd htype hnumber, fun _ => ⟨{}, buffer, rfl, empty_bounded 0 0⟩⟩

/-- A counter with a variable and a log in its list, an event in a slot of its own, and a slot
that is not in use. -/
def several : Context :=
  { root :=
      [⟨⟨letter 97, typeCounter, .number 5⟩,
          [⟨letter 99, typeVariable, .number 7⟩, ⟨letter 101, typeLog, .buffer⟩]⟩,
        ⟨⟨letter 98, typeEvent, .sequence {} false⟩, []⟩,
        ⟨⟨letter 0, typeNone, .stale true⟩, []⟩]
    ntracers := 4 }

theorem several_ready : several.Ready := by
  refine ⟨rfl, fun node hnode => ?_⟩
  have hnodes : several.nodes = [⟨letter 97, typeCounter, .number 5⟩,
      ⟨letter 99, typeVariable, .number 7⟩, ⟨letter 101, typeLog, .buffer⟩,
      ⟨letter 98, typeEvent, .sequence {} false⟩] := rfl
  simp only [hnodes, List.mem_cons, List.not_mem_nil, or_false] at hnode
  rcases hnode with rfl | rfl | rfl | rfl
  · exact fit_number (by decide) 5
  · exact fit_number (by decide) 7
  · exact ⟨fun hnumber => absurd hnumber (by decide), fun hevent => absurd hevent (by decide)⟩
  · exact fit_empty (by decide) false

/-- All four are exported. -/
theorem export_laid_out_iff_several :
    several.ExportFits 3 2 ∧ ∀ stack buf, LaidOut several 3 2 stack buf :=
  ⟨by decide, (export_laid_out_iff several several_ready 3 2).mpr (by decide)⟩

/-- An event is not. -/
theorem event_not_exported :
    ¬∀ stack buf, LaidOut (alone typeEvent (.sequence oneEvent true)) 0 0 stack buf := by
  intro h
  have hsize := LaidOut.no_queue h event_ready (List.mem_singleton.mpr rfl) (.inl rfl)
  exact absurd hsize (by decide)

end Awoke.Memtrace
