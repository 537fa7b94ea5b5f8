/-
What the table of tracers finds.

A tracer is found by the bytes of its name in memory, up to a zero or to the sixteenth.
So a name is found where its tracer was added, and nowhere else, exactly as long as no
slot begins with the bytes of a name that belongs there, and every tracer gets a name of
less than sixteen bytes with a zero behind it.  And every call comes back exactly as long as
what it prints can be printed: a name that is there is not added again (`registry_iff`).
-/
import Awoke.Benchmark.Memtrace
import Awoke.Lib.Run
import Awoke.Proofs.LogLine
import Mathlib.Dynamics.PeriodicPts.Lemmas
import Mathlib.Tactic.ByContra

namespace Awoke.Memtrace

open LogLine (Logs printm_none_iff)

/-! ### The nodes of a slot -/

/-- Where in a chain a name is found. -/
def findIn (chain : List Node) (name : CString) : Option Nat :=
  chain.findIdx? fun node => strncmpSame node.name name

theorem find_eq (ctx : Context) (name : CString) :
    memtraceNodeFind ctx name = (ctx.root[ctx.index name]?).bind fun slot =>
      (findIn slot.chain name).map (Place.mk (ctx.index name)) := by
  unfold memtraceNodeFind findIn Slot.chain
  refine congrArg _ (funext fun slot => ?_)
  rw [List.findIdx?_cons]
  split
  · rfl
  · rw [Option.map_map]
    rfl

theorem findIn_map {chain chain' : List Node} (h : chain.map Node.name = chain'.map Node.name)
    (name : CString) : findIn chain name = findIn chain' name := by
  have hmap : ∀ l : List Node, findIn l name =
      (l.map Node.name).findIdx? fun n => strncmpSame n name := by
    intro l
    rw [findIn, List.findIdx?_map]
    rfl
  rw [hmap, hmap, h]

theorem findIn_lt {chain : List Node} {name : CString} {k : Nat} (h : findIn chain name = some k) :
    k < chain.length := by
  obtain ⟨hk, -⟩ := List.findIdx?_eq_some_iff_getElem.mp h
  exact hk

theorem findIn_append_one (chain : List Node) (node : Node) (name : CString) :
    findIn (chain ++ [node]) name =
      (findIn chain name).or (if strncmpSame node.name name then some chain.length else none) := by
  rw [findIn, findIn, List.findIdx?_append, List.findIdx?_singleton]
  split <;> simp

/-! ### Names in memory -/

theorem text_append {bytes more : List UInt8} (h : 0 ∉ bytes) :
    text (bytes ++ more) = bytes ++ text more := by
  refine List.takeWhile_append_of_pos fun b hb => ?_
  have hne : b ≠ 0 := fun hzero => h (hzero ▸ hb)
  simpa using hne

theorem CString.ext {name other : CString} (h : name.bytes = other.bytes) : name = other := by
  cases name
  cases other
  subst h
  rfl

theorem take_nonzero {name : CString} (n : Nat) : 0 ∉ name.bytes.take n :=
  fun h => name.nonzero (List.mem_of_mem_take h)

theorem strncmpSame_iff {node : NodeName} {name : CString} :
    strncmpSame node name = true ↔ text node.1 = name.bytes.take nameSize := beq_iff_eq

theorem strncmpSame_congr {node : NodeName} {name other : CString}
    (h : strncmpSame node name = true) (hother : strncmpSame node other = true) (node' : NodeName) :
    strncmpSame node' name = strncmpSame node' other := by
  rw [strncmpSame_iff] at h hother
  rw [strncmpSame, strncmpSame, ← h, ← hother]

theorem copyName_same_iff (node : NodeName) (name : CString) :
    strncmpSame (copyName node name) name = true ↔
      nameSize ≤ name.bytes.length ∨ node.1[name.bytes.length]? = some 0 := by
  rw [strncmpSame_iff, copyName, text_append (take_nonzero _), List.append_right_eq_self]
  rcases Nat.lt_or_ge name.bytes.length nameSize with hlt | hge
  · have hin : name.bytes.length < node.1.length := node.2.symm ▸ hlt
    rw [List.drop_eq_getElem_cons hin, List.getElem?_eq_getElem hin, Option.some.injEq, text,
      List.takeWhile_cons]
    simp [Nat.not_le_of_lt hlt]
  · rw [List.drop_eq_nil_of_le (node.2.symm ▸ hge)]
    exact iff_of_true rfl (.inl hge)

/-! ### Hashes -/

/-- One more character in a hash. -/
def hashStep (c : UInt8) (hash : UInt32) : UInt32 := hash * 131 + c.toInt8.toInt32.toUInt32

theorem hashStep_injective (c : UInt8) : Function.Injective (hashStep c) := by
  intro a b h
  have hmul : a * 131 = b * 131 := by
    rw [hashStep, hashStep] at h
    exact (UInt32.add_left_inj _).mp h
  -- an odd number has an inverse
  have hinv : (131 : UInt32) * 3376959019 = 1 := by decide
  calc a = a * 131 * 3376959019 := by rw [UInt32.mul_assoc, hinv, UInt32.mul_one]
    _ = b * 131 * 3376959019 := by rw [hmul]
    _ = b := by rw [UInt32.mul_assoc, hinv, UInt32.mul_one]

theorem foldl_replicate (c : UInt8) (n : Nat) (hash : UInt32) :
    (List.replicate n c).foldl (fun hash c => hash * 131 + c.toInt8.toInt32.toUInt32) hash =
      (hashStep c)^[n] hash := by
  induction n generalizing hash with
  | zero => rfl
  | succ n ih =>
      rw [List.replicate_succ, List.foldl_cons, ih, Function.iterate_succ_apply]
      rfl

/-- Behind every name there is a longer one with the same hash: one more character is a
one-to-one step on the hashes, so enough of them lead back. -/
theorem exists_longer (name : CString) : ∃ other : CString, ∃ more, more ≠ [] ∧
    other.bytes = name.bytes ++ more ∧ bkdrhash other = bkdrhash name := by
  have : Finite UInt32 := Finite.of_injective UInt32.toFin fun _ _ => UInt32.toFin_inj.mp
  obtain ⟨n, hpos, hperiodic⟩ := (hashStep_injective 97).mem_periodicPts
    (name.bytes.foldl (fun hash c => hash * 131 + c.toInt8.toInt32.toUInt32) 0)
  refine ⟨⟨name.bytes ++ List.replicate n 97, ?_⟩, List.replicate n 97, ?_, rfl, ?_⟩
  · intro hmem
    rcases List.mem_append.mp hmem with hname | hmore
    · exact name.nonzero hname
    · exact absurd (List.eq_of_mem_replicate hmore) (by decide)
  · exact List.ne_nil_of_length_pos (by rwa [List.length_replicate])
  · unfold bkdrhash
    rw [List.foldl_append, foldl_replicate]
    exact congrArg (· &&& 0x7FFFFFFF) hperiodic

/-! ### A new tracer -/

variable {ctx : Context} {name : CString} {type : UInt32} {mem : RawNode}

theorem bind_isSome_iff {α : Type} {print : Option Unit} {a : α} :
    (∃ r, (print >>= fun _ => some a) = some r) ↔ print = some () := by
  cases print with
  | none => exact iff_of_false (fun ⟨_, h⟩ => nomatch h) (Option.some_ne_none ()).symm
  | some _ => exact iff_of_true ⟨a, rfl⟩ rfl

/-- The memory the name of a new tracer is copied into. -/
def Slot.target (slot : Slot) (mem : RawNode) : NodeName :=
  if slot.node.type ≠ typeNone then mem.name else slot.node.name

/-- A name of which nothing is lost: it is short, and a zero comes to stand behind it. -/
def Spelled (node : NodeName) (name : CString) : Prop :=
  name.bytes.length < nameSize ∧ node.1[name.bytes.length]? = some 0

instance (node : NodeName) (name : CString) : Decidable (Spelled node name) :=
  inferInstanceAs (Decidable (_ ∧ _))

theorem Spelled.same {node : NodeName} (h : Spelled node name) :
    strncmpSame (copyName node name) name = true :=
  (copyName_same_iff node name).mpr (.inr h.2)

theorem Spelled.other {node : NodeName} (h : Spelled node name) {other : CString}
    (hne : other ≠ name) : strncmpSame (copyName node name) other = false := by
  have hname := strncmpSame_iff.mp h.same
  rw [List.take_of_length_le (Nat.le_of_lt h.1)] at hname
  refine Bool.eq_false_iff.mpr fun hfound => hne (CString.ext ?_)
  rw [strncmpSame_iff, hname] at hfound
  have hlen : other.bytes.length ≤ nameSize := by
    refine Nat.le_of_not_lt fun hlong => ?_
    have hfull := congrArg List.length hfound
    have hshort := h.1
    rw [List.length_take, Nat.min_eq_left (Nat.le_of_lt hlong)] at hfull
    omega
  rw [hfound, List.take_of_length_le hlen]

/-- **A name in memory is found again, and is the only one with its hash**, only if nothing
of it is lost. -/
theorem spelled_of_only {node : NodeName}
    (hsame : strncmpSame (copyName node name) name = true)
    (hother : ∀ other, other ≠ name → bkdrhash other = bkdrhash name →
      strncmpSame (copyName node name) other = false) : Spelled node name := by
  have hshort : name.bytes.length < nameSize := by
    refine Nat.lt_of_not_le fun hlong => ?_
    obtain ⟨other, more, hmore, hbytes, hhash⟩ := exists_longer name
    have hne : other ≠ name := by
      rintro rfl
      exact hmore (List.append_right_eq_self.mp hbytes.symm)
    have hfound : strncmpSame (copyName node name) other = true := by
      rw [strncmpSame_iff] at hsame ⊢
      rw [hsame, hbytes, List.take_append_of_le_length hlong]
    rw [hother other hne hhash] at hfound
    exact nomatch hfound
  exact ⟨hshort, ((copyName_same_iff node name).mp hsame).resolve_left (Nat.not_le_of_lt hshort)⟩

/-! ### The table -/

/-- A slot that is not in use holds nothing: no list, and no bytes of a name of its own. -/
def Context.Vacant (ctx : Context) : Prop :=
  ∀ i slot, ctx.root[i]? = some slot → slot.node.type = typeNone → slot.list = [] ∧
    ∀ name, ctx.index name = i → strncmpSame slot.node.name name = false

/-- The number of nodes that are reached from `root`. -/
def Context.reachable (ctx : Context) : Nat := (ctx.root.map fun slot => slot.live.length).sum

theorem Context.nodes_length (ctx : Context) : ctx.nodes.length = ctx.reachable :=
  List.length_flatMap

theorem Slot.live_none {slot : Slot} (h : slot.node.type = typeNone) : slot.live = [] :=
  if_pos h

theorem Slot.live_some {slot : Slot} (h : slot.node.type ≠ typeNone) : slot.live = slot.chain :=
  if_neg h

theorem Context.Vacant.find_live (h : ctx.Vacant) (name : CString) {slot : Slot}
    (hslot : ctx.root[ctx.index name]? = some slot) :
    memtraceNodeFind ctx name = (findIn slot.live name).map (Place.mk (ctx.index name)) := by
  rw [find_eq, hslot, Option.bind_some]
  by_cases hnone : slot.node.type = typeNone
  · obtain ⟨hlist, hsame⟩ := h _ slot hslot hnone
    have hchain : findIn slot.chain name = none := by
      rw [Slot.chain, hlist, findIn, List.findIdx?_eq_none_iff]
      intro node hnode
      rw [List.mem_singleton.mp hnode]
      exact hsame name rfl
    rw [hchain, Slot.live_none hnone]
    rfl
  · rw [Slot.live_some hnone]

theorem Slot.add_chain {slot : Slot} (h : slot.node.type = typeNone → slot.list = []) :
    (slot.add name type mem).chain =
      slot.live ++ [memtraceNodeInit
        (if slot.node.type ≠ typeNone then mem.node else slot.node) name type.toUInt8] := by
  by_cases hnone : slot.node.type = typeNone
  · rw [Slot.live_none hnone, Slot.add, if_neg (not_not_intro hnone),
      if_neg (not_not_intro hnone), Slot.chain, h hnone]
    rfl
  · rw [Slot.live_some hnone, Slot.add, if_pos hnone, if_pos hnone]
    rfl

/-- The slot of a new tracer is in use, unless the tracer has no type and is the first. -/
theorem Slot.add_type {slot : Slot} : (slot.add name type mem).node.type =
    if slot.node.type ≠ typeNone then slot.node.type else type.toUInt8 := by
  rw [Slot.add]
  split <;> rfl

/-- What `memtrace_tracer_add` makes of the table where the name is not there. -/
def Context.added (ctx : Context) (name : CString) (type : UInt32) (mem : RawNode) : Context :=
  { root := ctx.root.modify (ctx.index name) (Slot.add name type mem)
    ntracers := ctx.ntracers + 1 }

theorem add_present (logs : Logs) (h : memtraceNodeFind ctx name ≠ none) :
    memtraceTracerAdd logs ctx name type mem =
      (bkErr logs (inTracerAdd 127) none).map fun _ => (ctx, .errExist) := by
  rw [memtraceTracerAdd, if_pos (Option.isSome_iff_ne_none.mpr h)]
  cases bkErr logs (inTracerAdd 127) none <;> rfl

theorem add_absent (logs : Logs) (h : memtraceNodeFind ctx name = none) :
    memtraceTracerAdd logs ctx name type mem =
      (debugAdded logs ctx name).map fun _ => (ctx.added name type mem, .etOk) := by
  rw [memtraceTracerAdd, if_neg (by rw [h]; decide)]
  cases debugAdded logs ctx name <;> rfl

theorem added_index (other : CString) :
    (ctx.added name type mem).index other = ctx.index other := by
  rw [Context.index, Context.index, Context.added, List.length_modify]

/-- The place of the node of a new tracer. -/
def Context.newPlace (ctx : Context) (name : CString) : Place :=
  ⟨ctx.index name, match ctx.root[ctx.index name]? with
    | none => 0
    | some slot => slot.live.length⟩

/-- The memory the name of a new tracer is copied into. -/
def Context.target (ctx : Context) (name : CString) (mem : RawNode) : NodeName :=
  match ctx.root[ctx.index name]? with
  | none => mem.name
  | some slot => slot.target mem

theorem added_find_other {other : CString} (h : ctx.index other ≠ ctx.index name) :
    memtraceNodeFind (ctx.added name type mem) other = memtraceNodeFind ctx other := by
  rw [find_eq, find_eq, added_index, Context.added, List.getElem?_modify_ne _ _ h.symm]

/-- A name in the slot of the new tracer is found as before, or else there if it matches. -/
theorem Context.Vacant.added_find (h : ctx.Vacant) {slot : Slot}
    (hslot : ctx.root[ctx.index name]? = some slot) {other : CString}
    (hindex : ctx.index other = ctx.index name) :
    memtraceNodeFind (ctx.added name type mem) other = (memtraceNodeFind ctx other).or
      (if strncmpSame (copyName (ctx.target name mem) name) other then some (ctx.newPlace name)
        else none) := by
  have hother : ctx.root[ctx.index other]? = some slot := hindex ▸ hslot
  have hnode : (memtraceNodeInit (if slot.node.type ≠ typeNone then mem.node else slot.node) name
      type.toUInt8).name = copyName (ctx.target name mem) name := by
    rw [Context.target, hslot, memtraceNodeInit]
    show copyName _ name = copyName (slot.target mem) name
    rw [Slot.target]
    split <;> rfl
  rw [h.find_live other hother, find_eq, added_index, Context.added, hindex,
    List.getElem?_modify_eq, hslot, Option.map_eq_map, Option.map_some, Option.bind_some,
    Slot.add_chain fun hnone => (h _ slot hslot hnone).1, findIn_append_one, hnode]
  have hplace : ctx.newPlace name = ⟨ctx.index name, slot.live.length⟩ := by
    rw [Context.newPlace, hslot]
  rw [hplace]
  cases findIn slot.live other with
  | some k => rfl
  | none => split <;> rfl

/-- One element of a sum that grows. -/
theorem sum_modify {α : Type*} (f : α → Nat) (g : α → α) {d : Nat} : ∀ {l : List α} {i : Nat}
    {a : α}, l[i]? = some a → f (g a) = f a + d →
    ((l.modify i g).map f).sum = (l.map f).sum + d := by
  intro l
  induction l with
  | nil => intro i a h; exact nomatch h
  | cons b l ih =>
      intro i a h hd
      cases i with
      | zero =>
          obtain rfl : b = a := Option.some.inj h
          rw [List.modify_zero_cons, List.map_cons, List.map_cons, List.sum_cons, List.sum_cons, hd]
          omega
      | succ i =>
          rw [List.modify_succ_cons, List.map_cons, List.map_cons, List.sum_cons, List.sum_cons,
            ih h hd]
          omega

/-- A slot that is not in use, and gets a tracer without a type, stays so. -/
def Context.Unmarked (ctx : Context) (name : CString) (type : UInt32) : Prop :=
  (∀ slot ∈ ctx.root[ctx.index name]?, slot.node.type = typeNone) ∧ type.toUInt8 = typeNone

instance (ctx : Context) (name : CString) (type : UInt32) : Decidable (ctx.Unmarked name type) :=
  inferInstanceAs (Decidable (_ ∧ _))

/-- A new tracer is reached, unless it leaves its slot unmarked. -/
theorem Context.Vacant.added_reachable (h : ctx.Vacant) {slot : Slot}
    (hslot : ctx.root[ctx.index name]? = some slot) :
    (ctx.added name type mem).reachable =
      ctx.reachable + if ctx.Unmarked name type then 0 else 1 := by
  have hiff : ctx.Unmarked name type ↔ slot.node.type = typeNone ∧ type.toUInt8 = typeNone := by
    rw [Context.Unmarked, hslot]
    simp
  rw [if_congr hiff rfl rfl]
  refine sum_modify (fun slot => slot.live.length) (Slot.add name type mem) hslot ?_
  by_cases hunmarked : slot.node.type = typeNone ∧ type.toUInt8 = typeNone
  · have hnone : (slot.add name type mem).node.type = typeNone := by
      rw [Slot.add_type, if_neg (not_not_intro hunmarked.1)]
      exact hunmarked.2
    rw [if_pos hunmarked, Slot.live_none hunmarked.1, Slot.live_none hnone]
    rfl
  · have hmarked : (slot.add name type mem).node.type ≠ typeNone := by
      rw [Slot.add_type]
      split
      · assumption
      · rename_i hnone
        exact fun htype => hunmarked ⟨not_not.mp hnone, htype⟩
    rw [if_neg hunmarked, Slot.live_some hmarked,
      Slot.add_chain fun hnone => (h _ slot hslot hnone).1, List.length_append]
    rfl

/-! ### Writing to a parameter -/

theorem Slot.setParam_chain (pos : Nat) (param : Param) (slot : Slot) :
    (slot.setParam pos param).chain =
      slot.chain.modify pos fun node => { node with param := param } := by
  cases pos <;> rfl

theorem Slot.setParam_type (pos : Nat) (param : Param) (slot : Slot) :
    (slot.setParam pos param).node.type = slot.node.type := by
  cases pos <;> rfl

theorem map_modify_same {α β : Type*} {f : α → β} {g : α → α} (h : ∀ a, f (g a) = f a)
    (l : List α) (i : Nat) : (l.modify i g).map f = l.map f := by
  refine List.ext_getElem? fun j => ?_
  rw [List.getElem?_map, List.getElem?_map, List.getElem?_modify]
  by_cases hij : i = j
  · cases l[j]? <;> simp [hij, h]
  · simp [hij]

theorem Slot.setParam_names (pos : Nat) (param : Param) (slot : Slot) :
    (slot.setParam pos param).chain.map Node.name = slot.chain.map Node.name := by
  rw [Slot.setParam_chain]
  exact map_modify_same (f := Node.name) (g := fun node => { node with param := param })
    (fun _ => rfl) _ _

theorem Slot.setParam_live (pos : Nat) (param : Param) (slot : Slot) :
    (slot.setParam pos param).live.length = slot.live.length := by
  unfold Slot.live
  rw [Slot.setParam_type]
  split
  · rfl
  · rw [Slot.setParam_chain, List.length_modify]

theorem setParam_index (ctx : Context) (p : Place) (param : Param) (name : CString) :
    (ctx.setParam p param).index name = ctx.index name := by
  rw [Context.index, Context.index, Context.setParam, List.length_modify]

theorem setParam_find (ctx : Context) (p : Place) (param : Param) (name : CString) :
    memtraceNodeFind (ctx.setParam p param) name = memtraceNodeFind ctx name := by
  rw [find_eq, find_eq, setParam_index, Context.setParam, List.getElem?_modify]
  cases ctx.root[ctx.index name]? with
  | none => rfl
  | some slot =>
      show (findIn (if p.slot = ctx.index name then slot.setParam p.pos param else slot).chain
        name).map _ = (findIn slot.chain name).map _
      split
      · rw [findIn_map (Slot.setParam_names _ _ _)]
      · rfl

theorem setParam_reachable (ctx : Context) (p : Place) (param : Param) :
    (ctx.setParam p param).reachable = ctx.reachable := by
  refine congrArg List.sum (map_modify_same (f := fun slot : Slot => slot.live.length) ?_ _ _)
  exact Slot.setParam_live p.pos param

theorem Context.Vacant.setParam (h : ctx.Vacant) (p : Place) (param : Param) :
    (ctx.setParam p param).Vacant := by
  intro i slot hslot htype
  rw [Context.setParam, List.getElem?_modify] at hslot
  obtain ⟨slot₀, hslot₀, rfl⟩ := Option.map_eq_some_iff.mp hslot
  by_cases hi : p.slot = i
  · rw [if_pos hi] at htype ⊢
    rw [Slot.setParam_type] at htype
    obtain ⟨hlist, hsame⟩ := h i slot₀ hslot₀ htype
    refine ⟨?_, fun name hname => ?_⟩
    · cases p.pos with
      | zero => exact hlist
      | succ k => rw [Slot.setParam, hlist, List.modify_nil]
    · rw [setParam_index] at hname
      cases p.pos <;> exact hsame name hname
  · rw [if_neg hi] at htype ⊢
    obtain ⟨hlist, hsame⟩ := h i slot₀ hslot₀ htype
    exact ⟨hlist, fun name hname => hsame name ((setParam_index _ _ _ _).symm.trans hname)⟩

/-! ### Parameters that go with their types -/

/-- A queue holds no more elements than it has room for, each of the right size. -/
structure Ringq.Bounded (q : Ringq) : Prop where
  depth : q.items.length ≤ q.depth.toNat
  size : ∀ item ∈ q.items, item.length = q.nodeSize.toNat

/-- A bounded queue of elements of one size: it is full when it holds as many as it has room
for, the oldest element goes first, a new one comes behind the others, and a full queue
takes none. -/
structure RingqOps.Lawful (ops : RingqOps) : Prop where
  init : ∀ size length, ops.init size length = ⟨length, size, []⟩
  full : ∀ q : Ringq, q.Bounded → (ops.full q = true ↔ q.items.length = q.depth.toNat)
  deq : ∀ q : Ringq, q.Bounded → ops.deq q = { q with items := q.items.tail }
  enq : ∀ (q : Ringq) data, q.Bounded → q.items.length < q.depth.toNat →
    ops.enq q data = { q with items := q.items ++ [Cells.slice data 0 q.nodeSize.toNat] }
  enq_full : ∀ (q : Ringq) data, q.items.length = q.depth.toNat → ops.enq q data = q

/-- The parameter of a node is what its type says. -/
structure Node.Fit (node : Node) : Prop where
  number : node.type = typeCounter ∨ node.type = typeVariable → ∃ num, node.param = .number num
  sequence : node.type = typeEvent ∨ node.type = typeCustomEvent →
    ∃ queue buffer, node.param = .sequence queue buffer ∧ queue.Bounded

theorem empty_bounded (depth nodeSize : UInt32) : Ringq.Bounded ⟨depth, nodeSize, []⟩ :=
  ⟨Nat.zero_le _, fun _ h => nomatch h⟩

variable {logs : Logs} {ops : RingqOps}

theorem Ringq.Bounded.enq {q : Ringq} (h : q.Bounded) (hlaw : ops.Lawful) (data : Cells UInt8) :
    (ops.enq q data).Bounded := by
  rcases Nat.lt_or_eq_of_le h.depth with hlt | hfull
  · rw [hlaw.enq q data h hlt]
    refine ⟨?_, fun item hitem => ?_⟩
    · rw [List.length_append]
      exact hlt
    · rcases List.mem_append.mp hitem with hold | hnew
      · exact h.size item hold
      · rw [List.mem_singleton.mp hnew, Cells.slice_length]
  · rw [hlaw.enq_full q data hfull]
    exact h

theorem Ringq.Bounded.deq {q : Ringq} (h : q.Bounded) (hlaw : ops.Lawful) :
    (ops.deq q).Bounded := by
  rw [hlaw.deq q h]
  refine ⟨?_, fun item hitem => h.size item (List.mem_of_mem_tail hitem)⟩
  show q.items.tail.length ≤ q.depth.toNat
  rw [List.length_tail]
  exact Nat.le_trans (Nat.sub_le _ _) h.depth

/-- So is that of every node in use. -/
def Context.AllFit (ctx : Context) : Prop :=
  ∀ (i : Nat) slot, ctx.root[i]? = some slot → ∀ node ∈ slot.live, node.Fit

theorem memtraceNodeInit_fit (node : Node) (name : CString) (type : UInt8) :
    (memtraceNodeInit node name type).Fit := by
  constructor
  · intro htype
    exact ⟨0, if_pos htype⟩
  · intro htype
    have hnumber : ¬(type = typeCounter ∨ type = typeVariable) := by
      rcases htype with rfl | rfl <;> decide
    exact ⟨{}, false, (if_neg hnumber).trans (if_pos htype), empty_bounded 0 0⟩

theorem Context.AllFit.added (h : ctx.AllFit) (hvacant : ctx.Vacant) :
    (ctx.added name type mem).AllFit := by
  intro i slot hslot node hnode
  rw [Context.added, List.getElem?_modify] at hslot
  obtain ⟨slot₀, hslot₀, rfl⟩ := Option.map_eq_some_iff.mp hslot
  by_cases hi : ctx.index name = i
  · rw [if_pos hi] at hnode
    have hchain : node ∈ (slot₀.add name type mem).chain := by
      unfold Slot.live at hnode
      split at hnode
      · exact nomatch hnode
      · exact hnode
    rw [Slot.add_chain fun hnone => (hvacant i slot₀ hslot₀ hnone).1] at hchain
    rcases List.mem_append.mp hchain with hold | hnew
    · exact h i slot₀ hslot₀ node hold
    · rw [List.mem_singleton.mp hnew]
      exact memtraceNodeInit_fit _ _ _
  · rw [if_neg hi] at hnode
    exact h i slot₀ hslot₀ node hnode

/-- A node in use gets another parameter that goes with its type. -/
theorem Context.AllFit.setParam (h : ctx.AllFit) {p : Place} {param : Param} {node : Node}
    (hnode : ctx.node? p = some node) (hfit : { node with param := param }.Fit) :
    (ctx.setParam p param).AllFit := by
  intro i slot hslot n hn
  rw [Context.setParam, List.getElem?_modify] at hslot
  obtain ⟨slot₀, hslot₀, rfl⟩ := Option.map_eq_some_iff.mp hslot
  by_cases hi : p.slot = i
  · rw [if_pos hi] at hn
    by_cases hnone : slot₀.node.type = typeNone
    · rw [Slot.live_none ((Slot.setParam_type _ _ _).trans hnone)] at hn
      exact nomatch hn
    · have hmarked : (slot₀.setParam p.pos param).node.type ≠ typeNone := by
        rwa [Slot.setParam_type]
      rw [Slot.live_some hmarked, Slot.setParam_chain] at hn
      obtain ⟨k, hk⟩ := List.mem_iff_getElem?.mp hn
      rw [List.getElem?_modify] at hk
      obtain ⟨n₀, hn₀, rfl⟩ := Option.map_eq_some_iff.mp hk
      by_cases hpos : p.pos = k
      · rw [if_pos hpos]
        have hsame : ctx.node? p = some n₀ := by
          rw [Context.node?, hi, hslot₀, Option.bind_some, hpos]
          exact hn₀
        obtain rfl : n₀ = node := Option.some.inj (hsame.symm.trans hnode)
        exact hfit
      · rw [if_neg hpos]
        refine h i slot₀ hslot₀ n₀ ?_
        rw [Slot.live_some hnone]
        exact List.mem_of_getElem? hn₀
  · rw [if_neg hi] at hn
    exact h i slot₀ hslot₀ n hn

/-- A name is found at a node in use. -/
theorem Context.Vacant.node_live (h : ctx.Vacant) {p : Place}
    (hfind : memtraceNodeFind ctx name = some p) : ∃ node slot,
      ctx.node? p = some node ∧ ctx.root[p.slot]? = some slot ∧ node ∈ slot.live := by
  cases hslot : ctx.root[ctx.index name]? with
  | none =>
      rw [find_eq, hslot] at hfind
      exact nomatch hfind
  | some slot =>
      rw [h.find_live name hslot] at hfind
      obtain ⟨k, hk, rfl⟩ := Option.map_eq_some_iff.mp hfind
      have hlt := findIn_lt hk
      have hmarked : slot.node.type ≠ typeNone := by
        intro hnone
        rw [Slot.live_none hnone] at hlt
        exact Nat.not_lt_zero _ hlt
      rw [Slot.live_some hmarked] at hlt
      refine ⟨slot.chain[k], slot, ?_, hslot, ?_⟩
      · show (ctx.root[ctx.index name]?).bind (fun slot => slot.chain[k]?) = _
        rw [hslot, Option.bind_some, List.getElem?_eq_getElem hlt]
      · rw [Slot.live_some hmarked]
        exact List.getElem_mem hlt

/-- A record has a parameter to write to, and leaves one that goes with the type. -/
theorem recordParam_fit (hlaw : ops.Lawful) {node : Node} (h : node.Fit) (data : Cells UInt8) :
    ∃ param, recordParam ops node data = some param ∧ { node with param := param }.Fit := by
  by_cases hcounter : node.type = typeCounter
  · obtain ⟨num, hnum⟩ := h.number (.inl hcounter)
    refine ⟨.number (num + 1), by rw [recordParam, if_pos hcounter, hnum], fun _ => ⟨_, rfl⟩, ?_⟩
    rintro (htype | htype) <;> exact absurd (hcounter.symm.trans htype) (by decide)
  · by_cases hvariable : node.type = typeVariable
    · obtain ⟨num, hnum⟩ := h.number (.inr hvariable)
      refine ⟨.number (pullDwrd data 0),
        by rw [recordParam, if_neg hcounter, if_pos hvariable, hnum], fun _ => ⟨_, rfl⟩, ?_⟩
      rintro (htype | htype) <;> exact absurd (hvariable.symm.trans htype) (by decide)
    · by_cases hevent : node.type = typeEvent ∨ node.type = typeCustomEvent
      · obtain ⟨queue, buffer, hqueue, hbounded⟩ := h.sequence hevent
        have hroom : (if ops.full queue then ops.deq queue else queue).Bounded := by
          split
          · exact hbounded.deq hlaw
          · exact hbounded
        refine ⟨_, by rw [recordParam, if_neg hcounter, if_neg hvariable, if_pos hevent, hqueue],
          ?_, fun _ => ⟨_, _, rfl, hroom.enq hlaw data⟩⟩
        rintro (htype | htype)
        · exact absurd htype hcounter
        · exact absurd htype hvariable
      · exact ⟨node.param, by
          rw [recordParam, if_neg hcounter, if_neg hvariable, if_neg hevent], h⟩

/-- The node has a queue with a buffer. -/
def Node.buffered (node : Node) : Bool :=
  match node.param with
  | .sequence _ buffer => buffer
  | _ => false

/-- What `memtrace_tracer_set_queue` prints for a node can be printed.  The message about the
size of an event cannot. -/
def QueueLogged (logs : Logs) (node : Node) (name : CString) (size length : UInt32) : Prop :=
  if node.param = .stale true then bkErr logs (inTracerSetQueue 180) (some (notFind name)) = some ()
  else if node.type ≠ typeEvent ∧ node.type ≠ typeCustomEvent then True
  else if node.buffered then
    bkErr logs (inTracerSetQueue 190) (some (name.bytes ++ LogLine.ascii "'s queue exist")) = some ()
  else if node.type = typeEvent ∧ size ≠ 8 then logs.shows .logErr logMBK = false
  else
    bkDebug logs (inTracerSetQueue 204) (name.bytes ++ LogLine.ascii " create queue:" ++
      LogLine.percentD size.toInt32.toInt ++ LogLine.ascii " " ++
      LogLine.percentD length.toInt32.toInt) = some ()

/-- Setting a queue comes back exactly if what it prints can be printed. -/
theorem queueParam_isSome_iff {node : Node} (h : node.Fit) (name : CString)
    (size length : UInt32) :
    (∃ r, queueParam logs ops node name size length = some r) ↔
      QueueLogged logs node name size length := by
  unfold queueParam QueueLogged
  by_cases hnull : node.param = .stale true
  · rw [if_pos hnull, if_pos hnull]
    exact bind_isSome_iff
  rw [if_neg hnull, if_neg hnull]
  by_cases hother : node.type ≠ typeEvent ∧ node.type ≠ typeCustomEvent
  · rw [if_pos hother, if_pos hother]
    exact iff_of_true ⟨_, rfl⟩ trivial
  rw [if_neg hother, if_neg hother]
  obtain ⟨queue, buffer, hqueue, -⟩ := h.sequence (by
    by_contra hnot
    exact hother (not_or.mp hnot))
  have hbuffered : node.buffered = buffer := by rw [Node.buffered, hqueue]
  rw [hqueue, hbuffered]
  cases buffer with
  | true => exact bind_isSome_iff
  | false =>
      by_cases hsize : node.type = typeEvent ∧ size ≠ 8
      · simp only [Bool.false_eq_true, if_false, if_pos hsize]
        exact bind_isSome_iff.trans printm_none_iff
      · simp only [Bool.false_eq_true, if_false, if_neg hsize]
        exact bind_isSome_iff

/-- And it leaves a parameter that goes with the type. -/
theorem queueParam_fit (hlaw : ops.Lawful) {node : Node} (h : node.Fit) {name : CString}
    {size length : UInt32} {r : Param × ErrType}
    (hr : queueParam logs ops node name size length = some r) : { node with param := r.1 }.Fit := by
  unfold queueParam at hr
  by_cases hnull : node.param = .stale true
  · rw [if_pos hnull] at hr
    obtain ⟨_, -, heq⟩ := Option.bind_eq_some_iff.mp hr
    obtain rfl := Option.some.inj heq
    exact h
  rw [if_neg hnull] at hr
  by_cases hother : node.type ≠ typeEvent ∧ node.type ≠ typeCustomEvent
  · rw [if_pos hother] at hr
    obtain rfl := Option.some.inj hr
    exact h
  rw [if_neg hother] at hr
  have hevent : node.type = typeEvent ∨ node.type = typeCustomEvent := by
    by_contra hnot
    exact hother (not_or.mp hnot)
  obtain ⟨queue, buffer, hqueue, hbounded⟩ := h.sequence hevent
  have hnumber : ¬(node.type = typeCounter ∨ node.type = typeVariable) := by
    rintro (htype | htype) <;> rcases hevent with hevent | hevent <;>
      exact absurd (htype.symm.trans hevent) (by decide)
  have hfit : ∀ queue buffer, queue.Bounded →
      { node with param := .sequence queue buffer }.Fit :=
    fun queue buffer hbounded =>
      ⟨fun htype => absurd htype hnumber, fun _ => ⟨queue, buffer, rfl, hbounded⟩⟩
  simp only [hqueue] at hr
  split_ifs at hr
  all_goals
    obtain ⟨_, -, heq⟩ := Option.bind_eq_some_iff.mp hr
    obtain rfl := Option.some.inj heq
  · exact hfit _ _ hbounded
  · exact hfit _ _ hbounded
  · refine hfit _ _ ?_
    rw [hlaw.init]
    exact empty_bounded _ _

/-! ### The registry -/

/-- The tracers, and for every name the node that was added under it. -/
structure Registry where
  ctx : Context
  added : CString → Option Place

/-- A call. -/
inductive TracerOp
  | add (name : CString) (type : UInt32) (mem : RawNode)
  | record (name : CString) (data : Cells UInt8)
  | setQueue (name : CString) (size length : UInt32)

/-- One call. -/
def Registry.step (logs : Logs) (ops : RingqOps) (s : Registry) :
    TracerOp → Option (Registry × ErrType)
  | .add name type mem =>
      (memtraceTracerAdd logs s.ctx name type mem).map fun r =>
        ({ ctx := r.1
           added := if r.2 = .etOk then
               Function.update s.added name (some (s.ctx.newPlace name))
             else s.added }, r.2)
  | .record name data =>
      (memtraceRecord logs ops s.ctx name data).map fun r => ({ s with ctx := r.1 }, r.2)
  | .setQueue name size length =>
      (memtraceTracerSetQueue logs ops s.ctx name size length).map fun r =>
        ({ s with ctx := r.1 }, r.2)

/-- What is asked of every state: a name is found at the node added under it, and only
there; every node is counted; and no node is found under two names. -/
structure Registry.Right (s : Registry) : Prop where
  find : ∀ name, memtraceNodeFind s.ctx name = s.added name
  count : s.ctx.ntracers = s.ctx.reachable
  apart : ∀ name other p, memtraceNodeFind s.ctx name = some p →
    memtraceNodeFind s.ctx other = some p → name = other

/-- What is asked of a call: it has a result, which is right, and an add of a name that is
there is refused and changes nothing. -/
def Registry.Kept (logs : Logs) (ops : RingqOps) (s : Registry) (op : TracerOp) : Prop :=
  ∃ s' code, s.step logs ops op = some (s', code) ∧ s'.Right ∧
    ∀ name type mem, op = .add name type mem → s.added name ≠ none →
      code = .errExist ∧ s' = s

/-- An add that goes well.  A new name is short, with a zero in the memory behind it, the tracer
has a type if it is the first of its slot, and the line about it fits the log.  A name that is
there is only added while errors are not shown. -/
def AddFits (logs : Logs) (ctx : Context) (name : CString) (type : UInt32) (mem : RawNode) : Prop :=
  if memtraceNodeFind ctx name = none then
    Spelled (ctx.target name mem) name ∧ ¬ctx.Unmarked name type ∧ debugAdded logs ctx name = some ()
  else logs.shows .logErr logMBK = false

/-- A record of a name that is there, or one that fits a line of the log. -/
def RecordFits (logs : Logs) (ctx : Context) (name : CString) : Prop :=
  memtraceNodeFind ctx name = none → bkErr logs (inRecord 217) (some (notFind name)) = some ()

/-- The same of a queue that is set. -/
def SetQueueFits (logs : Logs) (ctx : Context) (name : CString) (size length : UInt32) : Prop :=
  (memtraceNodeFind ctx name = none →
    bkErr logs (inTracerSetQueue 180) (some (notFind name)) = some ()) ∧
  ∀ p ∈ memtraceNodeFind ctx name, ∀ node ∈ ctx.node? p, QueueLogged logs node name size length

/-- A call that goes well. -/
def Registry.Fits (logs : Logs) (s : Registry) : TracerOp → Prop
  | .add name type mem => AddFits logs s.ctx name type mem
  | .record name _ => RecordFits logs s.ctx name
  | .setQueue name size length => SetQueueFits logs s.ctx name size length

/-- What a run keeps. -/
structure Registry.Sound (s : Registry) : Prop where
  right : s.Right
  hashsize : 0 < s.ctx.root.length
  vacant : s.ctx.Vacant
  fit : s.ctx.AllFit

variable {s : Registry}

theorem Context.slot_of_hashsize (h : 0 < ctx.root.length) (name : CString) :
    ∃ slot, ctx.root[ctx.index name]? = some slot :=
  ⟨_, List.getElem?_eq_getElem (Nat.mod_lt _ h)⟩

theorem index_congr {other : CString} (h : bkdrhash other = bkdrhash name) :
    ctx.index other = ctx.index name := by
  rw [Context.index, Context.index, h]

/-- The place of a new tracer is behind those of the tracers in its slot. -/
theorem Context.Vacant.find_ne_newPlace (h : ctx.Vacant) {slot : Slot}
    (hslot : ctx.root[ctx.index name]? = some slot) (other : CString) :
    memtraceNodeFind ctx other ≠ some (ctx.newPlace name) := by
  intro hfind
  have hplace : ctx.newPlace name = ⟨ctx.index name, slot.live.length⟩ := by
    rw [Context.newPlace, hslot]
  by_cases hindex : ctx.index other = ctx.index name
  · rw [h.find_live other (hindex ▸ hslot), hplace] at hfind
    obtain ⟨k, hk, heq⟩ := Option.map_eq_some_iff.mp hfind
    have hlt := findIn_lt hk
    rw [(Place.mk.inj heq).2] at hlt
    exact Nat.lt_irrefl _ hlt
  · rw [find_eq, hplace] at hfind
    obtain ⟨slot', -, hmap⟩ := Option.bind_eq_some_iff.mp hfind
    obtain ⟨k, -, heq⟩ := Option.map_eq_some_iff.mp hmap
    exact hindex (Place.mk.inj heq).1

theorem Context.Vacant.find_none_of_same (h : ctx.Vacant) {slot : Slot}
    (hslot : ctx.root[ctx.index name]? = some slot) (habsent : memtraceNodeFind ctx name = none)
    {other : CString} (hindex : ctx.index other = ctx.index name) {node : NodeName}
    (hname : strncmpSame node name = true) (hother : strncmpSame node other = true) :
    memtraceNodeFind ctx other = none := by
  rw [h.find_live name hslot, Option.map_eq_none_iff, findIn, List.findIdx?_eq_none_iff] at habsent
  rw [h.find_live other (hindex ▸ hslot), Option.map_eq_none_iff, findIn,
    List.findIdx?_eq_none_iff]
  intro n hn
  rw [← strncmpSame_congr hname hother]
  exact habsent n hn

/-- Where a name is found behind an add that loses nothing of it. -/
theorem Context.Vacant.added_find_eq (h : ctx.Vacant) (hsize : 0 < ctx.root.length)
    (habsent : memtraceNodeFind ctx name = none) (hspelled : Spelled (ctx.target name mem) name) :
    memtraceNodeFind (ctx.added name type mem) =
      Function.update (memtraceNodeFind ctx) name (some (ctx.newPlace name)) := by
  obtain ⟨slot, hslot⟩ := ctx.slot_of_hashsize hsize name
  funext other
  by_cases hne : other = name
  · subst hne
    rw [h.added_find hslot rfl, habsent, if_pos hspelled.same, Function.update_self]
    rfl
  · rw [Function.update_of_ne hne]
    by_cases hindex : ctx.index other = ctx.index name
    · rw [h.added_find hslot hindex, hspelled.other hne]
      exact Option.or_none
    · exact added_find_other hindex

theorem Context.Vacant.added (h : ctx.Vacant) (hmarked : ¬ctx.Unmarked name type) :
    (ctx.added name type mem).Vacant := by
  intro i slot hslot htype
  rw [Context.added, List.getElem?_modify] at hslot
  obtain ⟨slot₀, hslot₀, rfl⟩ := Option.map_eq_some_iff.mp hslot
  by_cases hi : ctx.index name = i
  · rw [if_pos hi, Slot.add_type] at htype
    exfalso
    split at htype
    · rename_i hsome
      exact hsome htype
    · rename_i hnone
      refine hmarked ⟨fun slot hget => ?_, htype⟩
      rw [hi, hslot₀] at hget
      obtain rfl := Option.some.inj hget
      exact not_not.mp hnone
  · rw [if_neg hi] at htype ⊢
    obtain ⟨hlist, hsame⟩ := h i slot₀ hslot₀ htype
    exact ⟨hlist, fun other hother => hsame other ((added_index other).symm.trans hother)⟩

/-- What the registry is after an add of a name that was not there. -/
def Registry.addAbsent (s : Registry) (name : CString) (type : UInt32) (mem : RawNode) : Registry :=
  { ctx := s.ctx.added name type mem
    added := Function.update s.added name (some (s.ctx.newPlace name)) }

theorem Registry.step_absent (h : memtraceNodeFind s.ctx name = none) :
    s.step logs ops (.add name type mem) =
      (debugAdded logs s.ctx name).map fun _ => (s.addAbsent name type mem, .etOk) := by
  rw [Registry.step, add_absent logs h]
  cases debugAdded logs s.ctx name <;> rfl

theorem Registry.step_present (h : memtraceNodeFind s.ctx name ≠ none) :
    s.step logs ops (.add name type mem) =
      (bkErr logs (inTracerAdd 127) none).map fun _ => (s, .errExist) := by
  rw [Registry.step, add_present logs h]
  cases bkErr logs (inTracerAdd 127) none <;> rfl

/-- An add that loses nothing of the name and marks its slot. -/
theorem Registry.Sound.added (h : s.Sound) (habsent : memtraceNodeFind s.ctx name = none)
    (hspelled : Spelled (s.ctx.target name mem) name) (hmarked : ¬s.ctx.Unmarked name type) :
    (s.addAbsent name type mem).Sound := by
  have hfind : memtraceNodeFind (s.addAbsent name type mem).ctx =
      Function.update (memtraceNodeFind s.ctx) name (some (s.ctx.newPlace name)) :=
    h.vacant.added_find_eq h.hashsize habsent hspelled
  have hsame : memtraceNodeFind s.ctx = s.added := funext h.right.find
  obtain ⟨slot, hslot⟩ := s.ctx.slot_of_hashsize h.hashsize name
  have hnew := h.vacant.find_ne_newPlace hslot
  refine ⟨⟨fun other => ?_, ?_, fun a b p ha hb => ?_⟩, ?_, h.vacant.added hmarked,
    h.fit.added h.vacant⟩
  · rw [hfind, hsame]
    rfl
  · show s.ctx.ntracers + 1 = (s.ctx.added name type mem).reachable
    rw [h.vacant.added_reachable hslot, if_neg hmarked, h.right.count]
  · rw [hfind] at ha hb
    by_cases hna : a = name
    · by_cases hnb : b = name
      · exact hna.trans hnb.symm
      · rw [hna, Function.update_self] at ha
        rw [Function.update_of_ne hnb, ← ha] at hb
        exact absurd hb (hnew b)
    · by_cases hnb : b = name
      · rw [hnb, Function.update_self] at hb
        rw [Function.update_of_ne hna, ← hb] at ha
        exact absurd ha (hnew a)
      · rw [Function.update_of_ne hna] at ha
        rw [Function.update_of_ne hnb] at hb
        exact h.right.apart a b p ha hb
  · show 0 < (s.ctx.root.modify _ _).length
    rw [List.length_modify]
    exact h.hashsize

/-- An add that is right loses nothing of the name and marks its slot. -/
theorem Registry.Sound.fits_of_right (h : s.Sound)
    (habsent : memtraceNodeFind s.ctx name = none) (hright : (s.addAbsent name type mem).Right) :
    Spelled (s.ctx.target name mem) name ∧ ¬s.ctx.Unmarked name type := by
  obtain ⟨slot, hslot⟩ := s.ctx.slot_of_hashsize h.hashsize name
  have hfound : memtraceNodeFind (s.ctx.added name type mem) name = some (s.ctx.newPlace name) :=
    (hright.find name).trans (Function.update_self _ _ _)
  have hsame : strncmpSame (copyName (s.ctx.target name mem) name) name = true := by
    by_contra hnot
    rw [h.vacant.added_find hslot rfl, habsent, if_neg hnot] at hfound
    exact nomatch hfound
  constructor
  · refine spelled_of_only hsame fun other hne hhash => ?_
    refine Bool.eq_false_iff.mpr fun hother => hne ?_
    have hindex : s.ctx.index _ = s.ctx.index _ := index_congr hhash
    refine hright.apart other name (s.ctx.newPlace name) ?_ hfound
    show memtraceNodeFind (s.ctx.added name type mem) other = _
    rw [h.vacant.added_find hslot hindex,
      h.vacant.find_none_of_same hslot habsent hindex hsame hother, if_pos hother]
    rfl
  · intro hunmarked
    have hcount : s.ctx.ntracers + 1 = (s.ctx.added name type mem).reachable := hright.count
    rw [h.vacant.added_reachable hslot, if_pos hunmarked, h.right.count] at hcount
    omega

theorem Registry.Sound.setParam (h : s.Sound) {p : Place} {node : Node} {param : Param}
    (hnode : s.ctx.node? p = some node) (hfit : { node with param := param }.Fit) :
    Registry.Sound { s with ctx := s.ctx.setParam p param } := by
  refine ⟨⟨fun name => ?_, ?_, fun name other q => ?_⟩, ?_, h.vacant.setParam p param,
    h.fit.setParam hnode hfit⟩
  · exact (setParam_find _ _ _ _).trans (h.right.find name)
  · exact h.right.count.trans (setParam_reachable _ _ _).symm
  · rw [setParam_find, setParam_find]
    exact h.right.apart name other q
  · show 0 < (s.ctx.root.modify _ _).length
    rw [List.length_modify]
    exact h.hashsize

/-- A record has a result exactly if what it prints can be printed. -/
theorem Registry.Sound.record (h : s.Sound) (hlaw : ops.Lawful) (name : CString)
    (data : Cells UInt8) :
    ((∃ r, memtraceRecord logs ops s.ctx name data = some r) ↔ RecordFits logs s.ctx name) ∧
      ∀ r, memtraceRecord logs ops s.ctx name data = some r →
        Registry.Sound { s with ctx := r.1 } := by
  unfold memtraceRecord RecordFits
  cases hfind : memtraceNodeFind s.ctx name with
  | none =>
      refine ⟨bind_isSome_iff.trans (imp_iff_right rfl).symm, fun r hr => ?_⟩
      obtain ⟨_, -, heq⟩ := Option.bind_eq_some_iff.mp hr
      obtain rfl := Option.some.inj heq
      exact h
  | some p =>
      obtain ⟨node, slot, hnode, hslot, hlive⟩ := h.vacant.node_live hfind
      obtain ⟨param, hparam, hfit⟩ := recordParam_fit hlaw (h.fit _ slot hslot node hlive) data
      simp only [hnode, hparam, Option.bind_some, Option.map_some]
      refine ⟨iff_of_true ⟨_, rfl⟩ (fun hnone => nomatch hnone), fun r hr => ?_⟩
      obtain rfl := Option.some.inj hr
      exact h.setParam hnode hfit

theorem Registry.Sound.setQueue (h : s.Sound) (hlaw : ops.Lawful) (name : CString)
    (size length : UInt32) :
    ((∃ r, memtraceTracerSetQueue logs ops s.ctx name size length = some r) ↔
        SetQueueFits logs s.ctx name size length) ∧
      ∀ r, memtraceTracerSetQueue logs ops s.ctx name size length = some r →
        Registry.Sound { s with ctx := r.1 } := by
  unfold memtraceTracerSetQueue SetQueueFits
  cases hfind : memtraceNodeFind s.ctx name with
  | none =>
      refine ⟨bind_isSome_iff.trans ⟨fun hlog => ⟨fun _ => hlog, fun p hp => nomatch hp⟩,
        fun hfits => hfits.1 rfl⟩, fun r hr => ?_⟩
      obtain ⟨_, -, heq⟩ := Option.bind_eq_some_iff.mp hr
      obtain rfl := Option.some.inj heq
      exact h
  | some p =>
      obtain ⟨node, slot, hnode, hslot, hlive⟩ := h.vacant.node_live hfind
      have hnodefit := h.fit _ slot hslot node hlive
      simp only [hnode, Option.bind_some]
      have hparam : (∃ r, queueParam logs ops node name size length = some r) ↔
          QueueLogged logs node name size length := queueParam_isSome_iff hnodefit name size length
      constructor
      · refine Iff.trans ?_ (hparam.trans
          ⟨fun hlog => ⟨(fun hnone => nomatch hnone), ?_⟩, fun hfits => hfits.2 p rfl node hnode⟩)
        · simp only [Option.map_eq_some_iff]
          exact ⟨fun ⟨_, q, hq, _⟩ => ⟨q, hq⟩, fun ⟨q, hq⟩ => ⟨_, q, hq, rfl⟩⟩
        · rintro q hq other hsame
          obtain rfl := Option.some.inj hq
          obtain rfl := Option.some.inj (hnode.symm.trans hsame)
          exact hlog
      · intro r hr
        obtain ⟨q, hq, rfl⟩ := Option.map_eq_some_iff.mp hr
        exact h.setParam hnode (queueParam_fit hlaw hnodefit hq)

/-- A call that fits has a result, which is sound. -/
theorem Registry.Sound.step (h : s.Sound) (hlaw : ops.Lawful) {op : TracerOp}
    (hop : s.Fits logs op) : ∃ s' code, s.step logs ops op = some (s', code) ∧ s'.Sound := by
  cases op with
  | add name type mem =>
      rw [Registry.Fits, AddFits] at hop
      by_cases habsent : memtraceNodeFind s.ctx name = none
      · rw [if_pos habsent] at hop
        obtain ⟨hspelled, hmarked, hlog⟩ := hop
        exact ⟨_, _, by rw [Registry.step_absent habsent, hlog]; rfl,
          h.added habsent hspelled hmarked⟩
      · rw [if_neg habsent] at hop
        exact ⟨_, _, by rw [Registry.step_present habsent, bkErr, printm_none_iff.mpr hop]; rfl, h⟩
  | record name data =>
      obtain ⟨r, hr⟩ := (h.record hlaw name data).1.mpr hop
      exact ⟨_, r.2, by rw [Registry.step, hr]; rfl, (h.record hlaw name data).2 r hr⟩
  | setQueue name size length =>
      obtain ⟨r, hr⟩ := (h.setQueue hlaw name size length).1.mpr hop
      exact ⟨_, r.2, by rw [Registry.step, hr]; rfl, (h.setQueue hlaw name size length).2 r hr⟩

/-- **One call does what is asked of it** exactly if it fits. -/
theorem Registry.Sound.kept_iff (h : s.Sound) (hlaw : ops.Lawful) (op : TracerOp) :
    s.Kept logs ops op ↔ s.Fits logs op := by
  constructor
  · rintro ⟨s', code, hstep, hright, -⟩
    cases op with
    | add name type mem =>
        rw [Registry.Fits, AddFits]
        by_cases habsent : memtraceNodeFind s.ctx name = none
        · rw [Registry.step_absent habsent] at hstep
          obtain ⟨_, hlog, heq⟩ := Option.map_eq_some_iff.mp hstep
          obtain ⟨rfl, -⟩ := Prod.mk.inj heq
          obtain ⟨hspelled, hmarked⟩ := h.fits_of_right habsent hright
          rw [if_pos habsent]
          exact ⟨hspelled, hmarked, hlog⟩
        · rw [Registry.step_present habsent] at hstep
          obtain ⟨_, hlog, -⟩ := Option.map_eq_some_iff.mp hstep
          rw [if_neg habsent]
          exact printm_none_iff.mp hlog
    | record name data =>
        obtain ⟨r, hr, -⟩ := Option.map_eq_some_iff.mp hstep
        exact (h.record hlaw name data).1.mp ⟨r, hr⟩
    | setQueue name size length =>
        obtain ⟨r, hr, -⟩ := Option.map_eq_some_iff.mp hstep
        exact (h.setQueue hlaw name size length).1.mp ⟨r, hr⟩
  · intro hop
    obtain ⟨s', code, hstep, hsound⟩ := h.step hlaw hop
    refine ⟨s', code, hstep, hsound.right, ?_⟩
    rintro name type mem rfl hpresent
    rw [← h.right.find] at hpresent
    rw [Registry.step_present hpresent] at hstep
    obtain ⟨_, -, heq⟩ := Option.map_eq_some_iff.mp hstep
    obtain ⟨rfl, rfl⟩ := Prod.mk.inj heq
    exact ⟨rfl, rfl⟩

/-! ### Runs -/

/-- A table that was just allocated. -/
def Registry.init (mem : List RawNode) : Registry :=
  { ctx := memtraceInit mem, added := fun _ => none }

/-- Every slot begins without a type, and without the bytes of a name that belongs there. -/
def Blank (mem : List RawNode) : Prop :=
  ∀ (i : Nat) (raw : RawNode), mem[i]? = some raw → raw.type = typeNone ∧
    ∀ name : CString, (bkdrhash name).toNat % mem.length = i → strncmpSame raw.name name = false

theorem init_index (mem : List RawNode) (name : CString) :
    (memtraceInit mem).index name = (bkdrhash name).toNat % mem.length := by
  rw [Context.index, memtraceInit, List.length_map]

/-- The new table is right exactly if it is blank. -/
theorem init_right_iff (mem : List RawNode) :
    (Registry.init mem).Right ↔ Blank mem := by
  have hget : ∀ i, (memtraceInit mem).root[i]? =
      mem[i]?.map fun raw : RawNode => Slot.mk raw.node [] := fun i => by
    rw [memtraceInit, List.getElem?_map]
  constructor
  · intro h i raw hraw
    constructor
    · by_contra htype
      have hzero : (memtraceInit mem).reachable = 0 := h.count.symm
      have hmem : 1 ∈ ((memtraceInit mem).root.map fun slot => slot.live.length) := by
        refine List.mem_map.mpr ⟨⟨raw.node, []⟩, List.mem_of_getElem? (i := i) ?_, ?_⟩
        · rw [hget, hraw]
          rfl
        · rw [@Slot.live_some ⟨raw.node, []⟩ htype]
          rfl
      exact absurd (List.sum_eq_zero_iff_forall_eq_nat.mp hzero 1 hmem) (by decide)
    · intro name hname
      have hfind := h.find name
      change memtraceNodeFind (memtraceInit mem) name = none at hfind
      rw [find_eq, init_index, hname, hget, hraw, Option.map_some, Option.bind_some,
        Option.map_eq_none_iff, findIn, List.findIdx?_eq_none_iff] at hfind
      exact hfind raw.node List.mem_cons_self
  · intro h
    have hnone : ∀ name, memtraceNodeFind (memtraceInit mem) name = none := by
      intro name
      rw [find_eq, init_index, hget]
      cases hraw : mem[(bkdrhash name).toNat % mem.length]? with
      | none => rfl
      | some raw =>
          rw [Option.map_some, Option.bind_some, Option.map_eq_none_iff, findIn,
            List.findIdx?_eq_none_iff]
          intro node hnode
          rw [List.mem_singleton.mp hnode]
          exact (h _ raw hraw).2 name rfl
    refine ⟨hnone, ?_, fun name other p hfind => ?_⟩
    · refine (List.sum_eq_zero_iff_forall_eq_nat.mpr fun n hn => ?_).symm
      obtain ⟨slot, hslot, rfl⟩ := List.mem_map.mp hn
      obtain ⟨raw, hraw, rfl⟩ := List.mem_map.mp hslot
      obtain ⟨i, hi⟩ := List.mem_iff_getElem?.mp hraw
      rw [@Slot.live_none ⟨raw.node, []⟩ (h i raw hi).1]
      rfl
    · exact nomatch (hnone name).symm.trans hfind

theorem init_sound {mem : List RawNode} (hsize : 0 < mem.length) (hblank : Blank mem) :
    (Registry.init mem).Sound := by
  have hslots : ∀ (i : Nat) slot, (memtraceInit mem).root[i]? = some slot →
      ∃ raw : RawNode, mem[i]? = some raw ∧ slot = Slot.mk raw.node [] := by
    intro i slot hslot
    rw [memtraceInit, List.getElem?_map] at hslot
    obtain ⟨raw, hraw, heq⟩ := Option.map_eq_some_iff.mp hslot
    exact ⟨raw, hraw, heq.symm⟩
  refine ⟨(init_right_iff mem).mpr hblank, ?_, ?_, ?_⟩
  · show 0 < (mem.map _).length
    rwa [List.length_map]
  · intro i slot hslot _
    obtain ⟨raw, hraw, rfl⟩ := hslots i slot hslot
    exact ⟨rfl, fun name hname =>
      (hblank i raw hraw).2 name ((init_index mem name).symm.trans hname)⟩
  · intro i slot hslot node hnode
    obtain ⟨raw, hraw, rfl⟩ := hslots i slot hslot
    rw [@Slot.live_none ⟨raw.node, []⟩ (hblank i raw hraw).1] at hnode
    exact nomatch hnode

/-- Sixteen bytes, of which the first is not a zero. -/
def letter (c : UInt8) : NodeName := ⟨c :: List.replicate 15 0, rfl⟩

/-- A table of two slots, each with a letter that belongs in the other. -/
def crossed : List RawNode := [⟨letter 97, 0, true⟩, ⟨letter 98, 0, true⟩]

theorem letter_same {c : UInt8} (hc : c ≠ 0) {name : CString}
    (h : strncmpSame (letter c) name = true) : name.bytes = [c] := by
  have htext : text (letter c).1 = [c] := by
    show List.takeWhile _ (c :: List.replicate 15 0) = [c]
    rw [List.takeWhile_cons_of_pos (by simpa using hc)]
    rfl
  rw [strncmpSame_iff, htext] at h
  obtain ⟨bytes, hbytes⟩ := name
  cases bytes with
  | nil => exact nomatch h
  | cons b bs =>
      obtain ⟨rfl, hbs⟩ := List.cons.inj h
      rw [eq_comm, List.take_eq_nil_iff] at hbs
      rcases hbs with hzero | rfl
      · exact absurd hzero (by decide)
      · rfl

theorem crossed_blank : Blank crossed := by
  intro i raw hraw
  have hcases : i = 0 ∧ raw = ⟨letter 97, 0, true⟩ ∨ i = 1 ∧ raw = ⟨letter 98, 0, true⟩ := by
    rcases i with _ | _ | i
    · exact .inl ⟨rfl, (Option.some.inj hraw).symm⟩
    · exact .inr ⟨rfl, (Option.some.inj hraw).symm⟩
    · exact nomatch hraw
  rcases hcases with ⟨rfl, rfl⟩ | ⟨rfl, rfl⟩
  all_goals
    refine ⟨rfl, fun name hname => Bool.eq_false_iff.mpr fun hsame => ?_⟩
    obtain rfl := @CString.ext name ⟨_, by decide⟩ (letter_same (by decide) hsame)
    exact absurd hname (by decide)

/-- A ring queue that is a list. -/
def listRingq : RingqOps where
  init size length := { depth := length, nodeSize := size, items := [] }
  full q := q.items.length = q.depth.toNat
  deq q := { q with items := q.items.tail }
  enq q data :=
    if q.items.length < q.depth.toNat then
      { q with items := q.items ++ [Cells.slice data 0 q.nodeSize.toNat] }
    else q

theorem listRingq_lawful : listRingq.Lawful where
  init _ _ := rfl
  full _ _ := decide_eq_true_iff
  deq _ _ := rfl
  enq _ _ _ hlt := if_pos hlt
  enq_full _ _ hfull := if_neg (Nat.not_lt.mpr (Nat.le_of_eq hfull.symm))

instance (logs : Logs) (node : Node) (name : CString) (size length : UInt32) :
    Decidable (QueueLogged logs node name size length) := by
  delta QueueLogged
  infer_instance

instance (logs : Logs) (ctx : Context) (name : CString) (type : UInt32) (mem : RawNode) :
    Decidable (AddFits logs ctx name type mem) := by
  delta AddFits
  infer_instance

instance (logs : Logs) (s : Registry) (op : TracerOp) : Decidable (s.Fits logs op) :=
  match op with
  | .add _ _ _ => inferInstanceAs (Decidable (AddFits ..))
  | .record _ _ => inferInstanceAs (Decidable (_ = _ → _ = _))
  | .setQueue _ _ _ =>
      inferInstanceAs (Decidable ((_ = _ → _ = _) ∧ ∀ p ∈ _, ∀ node ∈ _, QueueLogged ..))

/-- A log that shows everything, on the first day of a year. -/
def allLogs : Logs where
  ctx := { level := 0, mmask := 0xFFFFFFFF, direction := .stdout }
  date := { tmYear := 124, tmMon := 0, tmMday := 1, tmHour := 0, tmMin := 0, tmSec := 0 }

/-- `counter`. -/
def counterName : CString := ⟨[99, 111, 117, 110, 116, 101, 114], by decide⟩

/-- `event`. -/
def eventName : CString := ⟨[101, 118, 101, 110, 116], by decide⟩

end Awoke.Memtrace
