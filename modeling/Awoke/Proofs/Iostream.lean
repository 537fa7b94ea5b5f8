/-
What a stream hands out of its messages.

`bk_iostream_msg_init` makes its queue with the two numbers the wrong way round, so a node has as
many bytes as there are messages, and the numbers of the nodes never come to the capacity.  A
message is cut to its first bytes, and the others are those that were in the variable it is
handed out in.
-/
import Awoke.Benchmark.Iostream
import Mathlib.Data.List.Forall2
import Mathlib.Tactic.Linarith

namespace Awoke.Mblock

variable {nr size front : Nat} {nodes : List (List UInt8)} {f : AwokeFifo}

/-! ### The queue -/

/-- A queue that holds these nodes, from number `front` on. -/
structure Queued (nr size front : Nat) (nodes : List (List UInt8)) (f : AwokeFifo) : Prop where
  nodesize : f.nodesize = nr
  room : f.room = size
  capacity : f.capacity.toNat = size
  head : f.head.toNat = front
  tail : (f.tail + 1).toNat = front + nodes.length
  nodeNr : f.nodeNr.toNat = nodes.length
  get : ∀ (i : Nat) (h : i < nodes.length),
    Cells.slice f.q ((front + i) * nr : Nat) nr = nodes[i]

theorem next_of_lt {n : UInt32} (h : (n + 1).toNat < f.capacity.toNat) :
    f.next n = some (n + 1) := by
  have hne : f.capacity ≠ 0 := by
    intro hzero
    rw [hzero] at h
    exact Nat.not_lt_zero _ h
  rw [AwokeFifo.next, if_neg hne, Option.some.injEq, ← UInt32.toNat_inj, UInt32.toNat_mod,
    Nat.mod_eq_of_lt h]

/-- A node is added if there is room for it. -/
theorem Queued.enqueue (h : Queued nr size front nodes f) (hint : size < 2 ^ 31)
    (hnext : front + nodes.length < size) (u : Cells UInt8) :
    (∃ f', bkIostreamMsgAdd f u = some f' ∧
        Queued nr size front (nodes ++ [Cells.slice u 0 nr]) f') ∨
      (bkIostreamMsgAdd f u = none ∧ size < (front + nodes.length + 1) * nr) := by
  have hnotfull : f.full = false := by
    rw [AwokeFifo.full, beq_eq_false_iff_ne]
    intro heq
    have hnr := h.nodeNr
    rw [heq, h.capacity] at hnr
    omega
  have htail : f.next f.tail = some (f.tail + 1) :=
    next_of_lt (by rw [h.tail, h.capacity]; exact hnext)
  unfold bkIostreamMsgAdd AwokeFifo.awokeAfifoEnqueue AwokeFifo.makeRoom
  rw [hnotfull, if_neg Bool.false_ne_true]
  simp only [Option.bind_eq_bind, Option.bind_some, htail, AwokeFifo.store, h.tail, h.nodesize,
    Cells.slice_length, h.room]
  have hmul : (front + nodes.length + 1) * nr = (front + nodes.length) * nr + nr := by
    rw [Nat.add_mul, Nat.one_mul]
  by_cases hroom : (front + nodes.length) * nr + nr ≤ size
  · rw [if_pos hroom]
    refine .inl ⟨_, rfl, rfl, rfl, h.capacity, h.head, ?_, ?_, fun i hi => ?_⟩
    · rw [List.length_append, List.length_singleton, ← Nat.add_assoc, UInt32.toNat_add, h.tail]
      exact Nat.mod_eq_of_lt (by show front + nodes.length + 1 < 2 ^ 32; omega)
    · rw [List.length_append, List.length_singleton]
      show (f.nodeNr + 1).toNat = _
      rw [UInt32.toNat_add, h.nodeNr]
      exact Nat.mod_eq_of_lt (by show nodes.length + 1 < 2 ^ 32; omega)
    · rw [List.length_append, List.length_singleton] at hi
      show Cells.slice (Cells.write f.q _ _) _ _ = _
      by_cases hlast : i < nodes.length
      · rw [List.getElem_append_left hlast, ← h.get i hlast]
        refine Cells.slice_write_before _ _ _ _ ?_
        have := Nat.mul_le_mul_right nr (show front + i + 1 ≤ front + nodes.length by omega)
        rw [Nat.add_mul _ 1, Nat.one_mul] at this
        omega
      · obtain rfl : i = nodes.length := by omega
        simp only [List.getElem_concat_length]
        have hself := Cells.slice_write_self f.q ((front + nodes.length) * nr : Nat)
          (Cells.slice u 0 nr)
        rwa [Cells.slice_length] at hself
  · rw [if_neg hroom]
    exact .inr ⟨rfl, by omega⟩

/-- Some nodes are added if there is room for all of them. -/
theorem Queued.enqueues (hint : size < 2 ^ 31) : ∀ (us : List (Cells UInt8))
    {nodes : List (List UInt8)} {f : AwokeFifo}, Queued nr size 0 nodes f →
      nodes.length + us.length < size →
      (∃ f', us.foldlM bkIostreamMsgAdd f = some f' ∧
          Queued nr size 0 (nodes ++ us.map fun u => Cells.slice u 0 nr) f') ∨
        (us.foldlM bkIostreamMsgAdd f = none ∧ size < (nodes.length + us.length) * nr) := by
  intro us
  induction us with
  | nil =>
      intro nodes f h _
      rw [List.map_nil, List.append_nil]
      exact .inl ⟨f, rfl, h⟩
  | cons u us ih =>
      intro nodes f h hlt
      rw [List.length_cons] at hlt ⊢
      have hmul := Nat.mul_le_mul_right nr
        (show nodes.length + 1 ≤ nodes.length + (us.length + 1) by omega)
      rw [List.foldlM_cons, List.map_cons]
      rcases h.enqueue hint (by omega) u with ⟨f₁, hadd, h₁⟩ | ⟨hadd, hroom⟩
      · rw [hadd, Option.bind_eq_bind, Option.bind_some]
        rcases ih h₁ (by rw [List.length_append, List.length_singleton]; omega) with
          ⟨f', hadds, h'⟩ | ⟨hadds, hroom⟩
        · rw [List.append_assoc] at h'
          exact .inl ⟨f', hadds, h'⟩
        · rw [List.length_append, List.length_singleton] at hroom
          exact .inr ⟨hadds, by rwa [Nat.add_right_comm, Nat.add_assoc] at hroom⟩
      · rw [hadd]
        rw [Nat.zero_add] at hroom
        exact .inr ⟨rfl, by omega⟩

/-- The first node is taken out. -/
theorem Queued.dequeue {node : List UInt8} (h : Queued nr size front (node :: nodes) f)
    (hint : size < 2 ^ 31) (hnext : front + 1 < size) (hmsg : nr ≤ msgSize) (msg : Cells UInt8) :
    ∃ f', f.awokeFifoDequeue msg msgSize = some (.etOk, Cells.write msg 0 node, f') ∧
      Queued nr size (front + 1) nodes f' := by
  have hnodeNr := h.nodeNr
  rw [List.length_cons] at hnodeNr
  have hfilled : f.empty = false := by
    rw [AwokeFifo.empty, beq_eq_false_iff_ne]
    intro heq
    rw [heq] at hnodeNr
    exact absurd hnodeNr.symm (Nat.succ_ne_zero _)
  have hsucc : (f.head + 1).toNat = front + 1 := by
    rw [UInt32.toNat_add, h.head]
    exact Nat.mod_eq_of_lt (by show front + 1 < 2 ^ 32; omega)
  have hhead : f.next f.head = some (f.head + 1) :=
    next_of_lt (by rw [hsucc, h.capacity]; exact hnext)
  have hnode : Cells.slice f.q (front * nr : Nat) nr = node := h.get 0 (Nat.succ_pos _)
  unfold AwokeFifo.awokeFifoDequeue
  rw [hfilled, if_neg Bool.false_ne_true, h.nodesize, if_neg (Nat.not_lt.mpr hmsg), hhead, h.head,
    hnode]
  refine ⟨_, rfl, rfl, h.room, h.capacity, hsucc, ?_, ?_, fun i hi => ?_⟩
  · rw [show front + 1 + nodes.length = front + (node :: nodes).length by
      rw [List.length_cons]; omega]
    exact h.tail
  · have hle : 1 ≤ f.nodeNr :=
      UInt32.le_iff_toNat_le.mpr (by rw [hnodeNr]; exact Nat.le_add_left _ _)
    show (f.nodeNr - 1).toNat = _
    rw [UInt32.toNat_sub_of_le _ _ hle, hnodeNr, UInt32.toNat_one, Nat.add_sub_cancel]
  · have hrest := h.get (i + 1) (Nat.succ_lt_succ hi)
    rw [show front + (i + 1) = front + 1 + i by omega] at hrest
    exact hrest

/-! ### What is handed out -/

/-- A message as it is handed out: its first bytes, and those that were there. -/
def Cut (nr : Nat) (msg u out : Cells UInt8) : Prop :=
  ∀ j : Nat, out j = if j < nr then u j else msg j

theorem cut_write (nr : Nat) (msg u : Cells UInt8) :
    Cut nr msg u (Cells.write msg 0 (Cells.slice u 0 nr)) := by
  intro j
  by_cases hj : j < nr
  · have hinside := Cells.write_inside msg 0 (Cells.slice u 0 nr) (k := j)
      (by rw [Cells.slice_length]; exact hj)
    rw [Int.zero_add, Cells.slice_getElem, Int.zero_add] at hinside
    rw [hinside, if_pos hj]
  · rw [if_neg hj]
    exact Cells.write_outside _ _ _ (.inr (by rw [Cells.slice_length]; omega))

/-- **All nodes are handed out**, in order, each cut. -/
theorem Queued.sync (hint : size < 2 ^ 31) (hmsg : nr ≤ msgSize) : ∀ (us : List (Cells UInt8))
    {front : Nat} {f : AwokeFifo} (msg : Cells UInt8),
      Queued nr size front (us.map fun u => Cells.slice u 0 nr) f → front + us.length < size →
        ∃ outs, xilspiIoSync f msg = some outs ∧ List.Forall₂ (Cut nr msg) us outs := by
  intro us
  induction us with
  | nil =>
      intro front f msg h _
      have hempty : f.empty = true := by
        rw [AwokeFifo.empty, beq_iff_eq]
        exact UInt32.toNat_inj.mp h.nodeNr
      rw [xilspiIoSync, dif_pos hempty]
      exact ⟨[], rfl, .nil⟩
  | cons u us ih =>
      intro front f msg h hlt
      rw [List.length_cons] at hlt
      have hfilled : ¬f.empty = true := by
        rw [AwokeFifo.empty, beq_iff_eq]
        intro heq
        have hnodeNr := h.nodeNr
        rw [heq, List.map_cons, List.length_cons] at hnodeNr
        exact absurd hnodeNr.symm (Nat.succ_ne_zero _)
      obtain ⟨f', hdequeue, h'⟩ := h.dequeue hint (by omega) hmsg msg
      obtain ⟨outs, hsync, hcut⟩ := ih (Cells.write msg 0 (Cells.slice u 0 nr)) h' (by omega)
      refine ⟨Cells.write msg 0 (Cells.slice u 0 nr) :: outs, ?_, .cons (cut_write nr msg u) ?_⟩
      · rw [xilspiIoSync, dif_neg hfilled]
        split
        · rename_i hnone
          rw [hdequeue] at hnone
          exact nomatch hnone
        · rename_i hsome
          rw [hdequeue, Option.some.injEq, Prod.mk.injEq, Prod.mk.injEq] at hsome
          obtain ⟨-, rfl, rfl⟩ := hsome
          rw [hsync]
          rfl
      · -- the bytes behind the first ones are still those from before
        refine hcut.imp fun u' out hout j => ?_
        rw [hout j]
        by_cases hj : j < nr
        · rw [if_pos hj, if_pos hj]
        · rw [if_neg hj, if_neg hj, cut_write nr msg u j, if_neg hj]

/-- What is handed out has the fields of the messages exactly if what was cut off was there. -/
theorem fields_eq_iff {msg : Cells UInt8} {us outs : List (Cells UInt8)}
    (h : List.Forall₂ (Cut nr msg) us outs) :
    outs.map fields = us.map fields ↔ ∀ u ∈ us, ∀ j : Nat, nr ≤ j → j < 20 → u j = msg j := by
  have hone : ∀ u out, Cut nr msg u out →
      (fields out = fields u ↔ ∀ j : Nat, nr ≤ j → j < 20 → u j = msg j) := by
    intro u out hcut
    constructor
    · intro heq j hle hlt
      have hcells : (List.range 20).map (fun k : Nat => out (0 + k)) =
          (List.range 20).map fun k : Nat => u (0 + k) := heq
      have hget := List.map_inj_left.mp hcells j (List.mem_range.mpr hlt)
      rw [Int.zero_add, hcut j, if_neg (Nat.not_lt.mpr hle)] at hget
      exact hget.symm
    · intro hsame
      refine Cells.slice_congr fun j hj => ?_
      rw [Int.zero_add, hcut j]
      by_cases hfirst : j < nr
      · rw [if_pos hfirst]
      · rw [if_neg hfirst, hsame j (Nat.not_lt.mp hfirst) hj]
  induction h with
  | nil => exact iff_of_true rfl fun u hmem => nomatch hmem
  | cons hcut _ ih =>
      rw [List.map_cons, List.map_cons, List.cons.injEq, List.forall_mem_cons]
      exact and_congr (hone _ _ hcut) ih

/-- A queue with nodes that are longer than a message is not emptied. -/
theorem sync_none {us : List (Cells UInt8)} (hpos : 0 < us.length) (hmsg : msgSize < nr)
    (h : Queued nr size front (us.map fun u => Cells.slice u 0 nr) f) (msg : Cells UInt8) :
    xilspiIoSync f msg = none := by
  have hfilled : f.empty = false := by
    rw [AwokeFifo.empty, beq_eq_false_iff_ne]
    intro heq
    have hnodeNr := h.nodeNr
    rw [heq, List.length_map] at hnodeNr
    exact absurd hnodeNr (Nat.ne_of_lt hpos)
  have hdequeue : f.awokeFifoDequeue msg msgSize = none := by
    rw [AwokeFifo.awokeFifoDequeue, hfilled, if_neg Bool.false_ne_true, h.nodesize, if_pos hmsg]
  rw [xilspiIoSync, dif_neg (by rw [hfilled]; exact Bool.false_ne_true)]
  split
  · rfl
  · rename_i hsome
    rw [hdequeue] at hsome
    exact nomatch hsome

/-! ### From the making of the queue on -/

/-- The queue that is made for at least one message: a node has as many bytes as there are
messages. -/
theorem queued_init (message : AwokeFifo) (buf : Cells UInt8) (hpos : 0 < nr)
    (hint : size < 2 ^ 31) :
    Queued nr size 0 [] (bkIostreamMsgInit message buf nr size) := by
  rw [bkIostreamMsgInit, awokeAfifoCreate, if_neg (by omega), if_neg (by omega)]
  have hcapacity : (UInt32.ofNat (size : Int).toNat).toNat = size := by
    rw [Int.toNat_natCast]
    exact UInt32.toNat_ofNat_of_lt' (Nat.lt_trans hint (by decide))
  -- the number behind the last one is the first
  have htail : ((0xFFFFFFFF : UInt32) + 1).toNat = 0 := by decide
  exact ⟨rfl, rfl, hcapacity, rfl, htail, rfl, fun _ hi => absurd hi (Nat.not_lt_zero _)⟩

/-- With no message, the queue stays the one it was, and all it held is handed out. -/
theorem handedOut_nil (message : AwokeFifo) (buf msg : Cells UInt8) :
    handedOut message buf 0 size [] msg = some [] ↔ message.nodeNr = 0 := by
  have hinit : bkIostreamMsgInit message buf 0 size = message := by
    rw [bkIostreamMsgInit, awokeAfifoCreate, if_pos (by decide)]
  rw [handedOut, hinit, List.foldlM_nil]
  show xilspiIoSync message msg = some [] ↔ _
  rw [xilspiIoSync]
  by_cases hempty : message.empty = true
  · rw [dif_pos hempty]
    exact iff_of_true rfl (by simpa [AwokeFifo.empty] using hempty)
  · rw [dif_neg hempty]
    refine iff_of_false (fun h => ?_) (by simpa [AwokeFifo.empty] using hempty)
    split at h
    · exact nomatch h
    · obtain ⟨outs, -, hcons⟩ := Option.map_eq_some_iff.mp h
      exact nomatch hcons

/-- As long as a node is no longer than a message, all messages are handed out, each cut. -/
theorem handedOut_cut (message : AwokeFifo) (buf msg : Cells UInt8) (msgs : List (Cells UInt8))
    (hnr : msgs.length = nr) (hpos : 0 < nr) (hmsg : nr ≤ msgSize) (hsize : nr * msgSize ≤ size)
    (hint : size < 2 ^ 31) :
    ∃ outs, handedOut message buf nr size msgs msg = some outs ∧
      List.Forall₂ (Cut nr msg) msgs outs := by
  have hlt : nr < size := by
    have : nr * 24 ≤ size := hsize
    omega
  have hadds := (queued_init message buf hpos hint).enqueues hint msgs
    (by rw [List.length_nil, hnr, Nat.zero_add]; exact hlt)
  rw [List.length_nil, Nat.zero_add, hnr, List.nil_append] at hadds
  have hroom : nr * nr ≤ size := Nat.le_trans (Nat.mul_le_mul_left nr hmsg) hsize
  rcases hadds with ⟨f', hadds, hqueued⟩ | ⟨-, hover⟩
  · obtain ⟨outs, hsync, hcut⟩ := hqueued.sync hint hmsg msgs msg (by omega)
    exact ⟨outs, by rw [handedOut, hadds, Option.bind_some, hsync], hcut⟩
  · exact absurd hroom (Nat.not_le.mpr hover)

/-- A node that is longer than a message is not added, or not handed out. -/
theorem handedOut_none (message : AwokeFifo) (buf msg : Cells UInt8) (msgs : List (Cells UInt8))
    (hnr : msgs.length = nr) (hmsg : msgSize < nr) (hsize : nr * msgSize ≤ size)
    (hint : size < 2 ^ 31) : handedOut message buf nr size msgs msg = none := by
  have hpos : 0 < nr := Nat.lt_of_le_of_lt (Nat.zero_le _) hmsg
  have hlt : nr < size := by
    have : nr * 24 ≤ size := hsize
    omega
  have hadds := (queued_init message buf hpos hint).enqueues hint msgs
    (by rw [List.length_nil, hnr, Nat.zero_add]; exact hlt)
  rw [List.nil_append] at hadds
  rw [handedOut]
  rcases hadds with ⟨f', hadds, hqueued⟩ | ⟨hadds, -⟩
  · rw [hadds, Option.bind_some]
    exact sync_none (by rw [hnr]; exact hpos) hmsg hqueued msg
  · rw [hadds]
    rfl

/-- **A stream hands out the messages that were added to it**, field for field, in order and with
no write outside of the buffer, exactly if there are not more messages than a message has bytes,
and what of their fields lies behind as many bytes as there are messages is what was in the
variable they are handed out in. -/
theorem handedOut_iff (message : AwokeFifo) (buf msg : Cells UInt8) (msgs : List (Cells UInt8))
    (hnr : msgs.length = nr) (hsize : nr * msgSize ≤ size) (hint : size < 2 ^ 31) :
    (∃ outs, handedOut message buf nr size msgs msg = some outs ∧
        outs.map fields = msgs.map fields) ↔
      (nr = 0 → message.nodeNr = 0) ∧ nr ≤ msgSize ∧
        ∀ u ∈ msgs, ∀ j : Nat, nr ≤ j → j < 20 → u j = msg j := by
  rcases Nat.eq_zero_or_pos nr with rfl | hpos
  · obtain rfl := List.eq_nil_of_length_eq_zero hnr
    have hnone : (∃ outs, handedOut message buf 0 size [] msg = some outs ∧
        outs.map fields = []) ↔ handedOut message buf 0 size [] msg = some [] := by
      constructor
      · rintro ⟨outs, hout, hfields⟩
        rwa [List.map_eq_nil_iff.mp hfields] at hout
      · exact fun hout => ⟨[], hout, rfl⟩
    rw [List.map_nil, hnone, handedOut_nil]
    exact ⟨fun h => ⟨fun _ => h, Nat.zero_le _, (nofun)⟩, fun h => h.1 rfl⟩
  · by_cases hmsg : nr ≤ msgSize
    · obtain ⟨outs, hout, hcut⟩ := handedOut_cut message buf msg msgs hnr hpos hmsg hsize hint
      constructor
      · rintro ⟨outs', hout', hfields⟩
        obtain rfl := Option.some_injective _ (hout.symm.trans hout')
        exact ⟨fun hzero => absurd hzero (Nat.ne_of_gt hpos), hmsg,
          (fields_eq_iff hcut).mp hfields⟩
      · rintro ⟨-, -, hsame⟩
        exact ⟨outs, hout, (fields_eq_iff hcut).mpr hsame⟩
    · refine iff_of_false ?_ fun h => hmsg h.2.1
      rintro ⟨outs, hout, -⟩
      rw [handedOut_none message buf msg msgs hnr (Nat.lt_of_not_le hmsg) hsize hint] at hout
      exact nomatch hout

/-- A queue before its first use. -/
def unusedFifo : AwokeFifo :=
  { q := fun _ => 0, room := 0, flags := 0, nodesize := 0, head := 0, tail := 0, nodeNr := 0
    capacity := 0 }

/-- Twenty messages are handed out as they are. -/
theorem handedOut_iff_twenty :
    ∃ outs, handedOut unusedFifo (fun _ => 0) 20 480 (List.replicate 20 fun _ => 1) (fun _ => 0) =
        some outs ∧
      outs.map fields = (List.replicate 20 fun _ => 1).map fields := by
  have hsize : 20 * msgSize ≤ 480 := by decide
  refine (handedOut_iff unusedFifo (fun _ => 0) (fun _ => 0) _ List.length_replicate hsize
    (by decide)).mpr ⟨(nomatch ·), by decide, fun _ _ j hle hlt => ?_⟩
  exact absurd hlt (Nat.not_lt.mpr hle)

/-- Of the two messages of `bk_flash_read`, in a buffer of 64 bytes, two bytes each are handed
out. -/
theorem two_messages_cut :
    ∃ outs, handedOut unusedFifo (fun _ => 0) 2 64 [fun _ => 1, fun _ => 1] (fun _ => 0) =
        some outs ∧
      outs.map fields ≠ [fun _ => 1, fun _ => 1].map fields := by
  have hsize : 2 * msgSize ≤ 64 := by decide
  obtain ⟨outs, hout, hcut⟩ := handedOut_cut unusedFifo (fun _ => 0) (fun _ => 0)
    [fun _ => 1, fun _ => 1] rfl (by decide) (by decide) hsize (by decide)
  refine ⟨outs, hout, fun hfields => ?_⟩
  have hthird := (fields_eq_iff hcut).mp hfields (fun _ => 1) (List.mem_cons_self ..) 2
    (by decide) (by decide)
  exact absurd hthird (by decide)

end Awoke.Mblock
