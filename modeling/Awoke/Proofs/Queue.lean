/-
The queue is a bounded list.

`elems` reads the slots `0 .. curr` back as a list, and each operation is followed
through it: taking the front drops the head, a shift opens or closes the gap it
should.  `step_refines` collects these into one step of the simulation between the
slots and the list, and `queue_refines` is the same for every run.

A full queue with flag `RB` is the delicate case of `insert_after`: the front goes
first, so the element that stood at `i` is one slot lower when the new one lands
behind it.  On the list that is an ordinary insertion whose head is dropped.

The storage holds all the slots exactly if the size of the block is an `int`
(`le_room_iff`); else a queue that is filled is stored to behind the block.
-/
import Awoke.Util.Queue
import Awoke.Lib.Run

namespace Awoke.Queue

variable {α : Type}

/-- The elements held, oldest first. -/
def elems (q : Queue α) : List α := Cells.slice q.queue 0 (q.curr + 1).toNat

/-- `q` is a queue of `n` slots with flags `flag` that holds `xs`. -/
structure Holds (n : Nat) (flag : BitVec 16) (q : Queue α) (xs : List α) : Prop where
  nodeNr : q.nodeNr = n
  flag : q.flag = flag
  low : -1 ≤ q.curr
  high : q.curr < n
  elems : q.elems = xs

/-! ### Elements after each change of the slots -/

theorem elems_length (q : Queue α) : q.elems.length = (q.curr + 1).toNat := by simp [elems]

theorem empty_iff (q : Queue α) : q.empty = true ↔ q.curr = -1 := by
  simp only [empty, beq_iff_eq]
  omega

theorem elems_eq_nil_iff {q : Queue α} (h : -1 ≤ q.curr) : q.elems = [] ↔ q.curr = -1 := by
  rw [← List.length_eq_zero_iff, elems_length]
  omega

theorem full_iff {n : Nat} {flag : BitVec 16} {q : Queue α} {xs : List α}
    (h : Holds n flag q xs) : q.full = true ↔ xs.length = n := by
  have hlen := elems_length q
  rw [h.elems] at hlen
  have := h.low
  simp only [full, beq_iff_eq, h.nodeNr]
  omega

theorem Holds.empty_eq {n : Nat} {flag : BitVec 16} {q : Queue α} {xs : List α}
    (h : Holds n flag q xs) : q.empty = decide (xs = []) := by
  rw [Bool.eq_iff_iff, empty_iff, decide_eq_true_iff, ← h.elems, elems_eq_nil_iff h.low]

theorem Holds.getElem {n : Nat} {flag : BitVec 16} {q : Queue α} {xs : List α}
    (h : Holds n flag q xs) {i : Nat} (hi : i < xs.length) : q.queue i = xs[i] := by
  have := Cells.slice_getElem q.queue 0 (q.curr + 1).toNat i (by
    rw [← Queue.elems, h.elems]; exact hi)
  rw [Int.zero_add] at this
  rw [← this]
  exact List.getElem_of_eq h.elems _

/-- Advancing `curr` in a queue with room does not wrap. -/
theorem next_curr {n : Nat} {c : Int} (hlo : -1 ≤ c) (hhi : c + 1 < n) : (c + 1) % n = c + 1 :=
  Int.emod_eq_of_lt (by omega) hhi

/-- Opening a gap at position `j` and writing there inserts.  The shift may start one
slot early, at `j - 1`: the copy that makes is the one overwritten. -/
theorem Holds.insert {n : Nat} {flag : BitVec 16} {q : Queue α} {xs : List α}
    (h : Holds n flag q xs) (hroom : xs.length < n) {j : Nat} (hj : j ≤ xs.length) (u : α)
    (lo : Int) (hlo : (j : Int) - 1 ≤ lo ∧ lo ≤ j) :
    Holds n flag { q with
      curr := (q.curr + 1) % q.nodeNr
      queue := Function.update (Cells.shiftUp q.queue q.curr (q.curr - (lo - 1)).toNat) j u }
      (xs.take j ++ u :: xs.drop j) := by
  have hlen := elems_length q
  have := h.low
  rw [h.elems] at hlen
  have hnext : (q.curr + 1) % q.nodeNr = q.curr + 1 := by
    rw [h.nodeNr]
    exact next_curr h.low (by omega)
  obtain ⟨d, hd⟩ : ∃ d : Nat, (q.curr + 1).toNat = j + d := ⟨xs.length - j, by omega⟩
  have hxs : xs = Cells.slice q.queue 0 (j + d) := by rw [← h.elems, Queue.elems, hd]
  have hsucc : (q.curr + 1 + 1).toNat = j + (d + 1) := by omega
  rw [hnext]
  refine { nodeNr := h.nodeNr, flag := h.flag, low := ?_, high := ?_, elems := ?_ }
  · simp only; omega
  · simp only; omega
  rw [hxs, Cells.slice_take _ _ (Nat.le_add_right j d), Cells.slice_drop _ _ (Nat.le_add_right j d)]
  simp only [Queue.elems, hsucc, Nat.add_sub_cancel_left]
  rw [Cells.slice_add, Cells.slice_succ]
  refine congrArg₂ (· ++ ·) ?_ (congrArg₂ List.cons ?_ ?_)
  · refine Cells.slice_congr fun k hk => ?_
    rw [Function.update_of_ne (by omega), Cells.shiftUp_apply, if_neg (by omega)]
  · simp
  · refine Cells.slice_congr fun k hk => ?_
    rw [Function.update_of_ne (by omega), Cells.shiftUp_apply, if_pos (by omega)]
    congr 1
    omega

/-- Writing behind the last element appends: an insertion with nothing to shift. -/
theorem Holds.append {n : Nat} {flag : BitVec 16} {q : Queue α} {xs : List α}
    (h : Holds n flag q xs) (hroom : xs.length < n) (u : α) :
    Holds n flag { q with
      curr := (q.curr + 1) % q.nodeNr
      queue := Function.update q.queue ((q.curr + 1) % q.nodeNr) u } (xs ++ [u]) := by
  have hlen := elems_length q
  have := h.low
  rw [h.elems] at hlen
  have hnext : (q.curr + 1) % q.nodeNr = q.curr + 1 := by
    rw [h.nodeNr]
    exact next_curr h.low (by omega)
  have hend : (xs.length : Int) = q.curr + 1 := by omega
  have := h.insert hroom (Nat.le_refl _) u xs.length ⟨by omega, by omega⟩
  rw [show (q.curr - ((xs.length : Int) - 1)).toNat = 0 by omega, hend] at this
  simpa [hnext, Cells.shiftUp] using this

/-! ### Calls and what they should do -/

/-- The calls a program makes on a queue. -/
inductive Op (α : Type)
  | enq (u : α)
  | deq
  | first
  | last
  | get (i : Nat)
  | delete (i : Nat)
  | insertAfter (i : Nat) (u : α)
  | clean

/-- A call's answer: its code, and the element it stores for the caller. -/
abbrev Answer (α : Type) := ErrType × Option α

variable [Zero α]

/-- One call on the queue. -/
def call (q : Queue α) : Op α → Queue α × Answer α
  | .enq u => ((q.enq u).2, (q.enq u).1, none)
  | .deq => (q.deq.2.2, q.deq.1, some q.deq.2.1)
  | .first => (q, q.first.1, some q.first.2)
  | .last => (q, q.last.1, some q.last.2)
  | .get i => (q, (q.get i).1, some (q.get i).2)
  | .delete i => ((q.delete i).2, (q.delete i).1, none)
  | .insertAfter i u => ((q.insertAfter i u).2, (q.insertAfter i u).1, none)
  | .clean => (q.clean, .etOk, none)

/-- A call's index is one of an element, and insertion is admitted. -/
def Op.Valid (q : Queue α) : Op α → Prop
  | .get i | .delete i => (i : Int) ≤ q.curr
  | .insertAfter i _ => (i : Int) ≤ q.curr ∧ maskExst q.flag flagIN = true
  | _ => True

instance (q : Queue α) : DecidablePred (Op.Valid q)
  | .get i | .delete i => inferInstanceAs (Decidable ((i : Int) ≤ q.curr))
  | .insertAfter i _ =>
      inferInstanceAs (Decidable ((i : Int) ≤ q.curr ∧ maskExst q.flag flagIN = true))
  | .enq _ | .deq | .first | .last | .clean => inferInstanceAs (Decidable True)

/-- The bounded list: `n` elements at most, the oldest making room if `rb`. -/
def spec (n : Nat) (rb : Bool) (xs : List α) : Op α → List α × Answer α
  | .enq u =>
      if xs.length = n then
        if rb then ((xs ++ [u]).tail, .etOk, none) else (xs, .etFull, none)
      else (xs ++ [u], .etOk, none)
  | .deq => (xs.tail, if xs = [] then .etEmpty else .etOk, some (xs.headD 0))
  | .first => (xs, if xs = [] then .etEmpty else .etOk, some (xs.headD 0))
  | .last => (xs, if xs = [] then .etEmpty else .etOk, some (xs.getLastD 0))
  | .get i => (xs, if xs = [] then .etEmpty else .etOk, some (xs.getD i 0))
  | .delete i => (xs.eraseIdx i, .etOk, none)
  | .insertAfter i u =>
      let inserted := xs.take (i + 1) ++ u :: xs.drop (i + 1)
      if xs.length = n then
        if rb then (inserted.tail, .etOk, none) else (xs, .etFull, none)
      else (inserted, .etOk, none)
  | .clean => ([], .etOk, none)

/-- The same as a relation between a list, a call, its answer and the list after. -/
def Spec (n : Nat) (rb : Bool) (xs : List α) (op : Op α) (out : Answer α) (xs' : List α) : Prop :=
  spec n rb xs op = (xs', out)

/-! ### Each call on the list -/

/-- Taking the front drops the head and frees a slot. -/
theorem Holds.deq {n : Nat} {flag : BitVec 16} {q : Queue α} {x : α} {xs : List α}
    (h : Holds n flag q (x :: xs)) :
    q.deq.1 = .etOk ∧ q.deq.2.1 = x ∧ Holds n flag q.deq.2.2 xs ∧
      q.deq.2.2.curr = q.curr - 1 := by
  have hlen := elems_length q
  rw [h.elems, List.length_cons] at hlen
  obtain ⟨c, hc⟩ : ∃ c : Nat, q.curr = c := ⟨xs.length, by omega⟩
  have hne : q.empty = false := by
    rw [← Bool.not_eq_true, empty_iff]
    omega
  have hslice : Cells.slice q.queue 0 (c + 1) = x :: xs := by
    rw [← h.elems, Queue.elems, hc]
    rfl
  rw [Cells.slice_succ, List.cons.injEq] at hslice
  have := h.high
  simp only [Queue.deq, hne, Bool.false_eq_true, if_false, hc, Int.toNat_natCast]
  refine ⟨trivial, hslice.1, ⟨h.nodeNr, h.flag, by simp only; omega, by simp only; omega, ?_⟩,
    trivial⟩
  rw [← hslice.2]
  simp only [Queue.elems, Int.sub_add_cancel, Int.toNat_natCast]
  refine Cells.slice_congr fun k hk => ?_
  rw [Function.update_of_ne (by omega), Cells.shiftDown_apply, if_pos (by omega)]
  congr 1
  omega

theorem Holds.deq_empty {n : Nat} {flag : BitVec 16} {q : Queue α} (h : Holds n flag q []) :
    q.deq = (.etEmpty, 0, q) := by
  have : q.empty = true := (empty_iff q).mpr ((elems_eq_nil_iff h.low).mp h.elems)
  simp [Queue.deq, this]

/-- Closing the gap at position `i` erases. -/
theorem Holds.delete {n : Nat} {flag : BitVec 16} {q : Queue α} {xs : List α}
    (h : Holds n flag q xs) {i : Nat} (hi : (i : Int) ≤ q.curr) :
    (q.delete i).1 = .etOk ∧ Holds n flag (q.delete i).2 (xs.eraseIdx i) := by
  have hlen := elems_length q
  rw [h.elems] at hlen
  have := h.high
  have hne : q.empty = false := by
    rw [← Bool.not_eq_true, empty_iff]
    omega
  simp only [Queue.delete, hne, Bool.false_eq_true, if_false, if_neg (Int.not_lt.mpr hi)]
  obtain ⟨d, hd⟩ : ∃ d : Nat, (q.curr + 1).toNat = i + (d + 1) := ⟨xs.length - i - 1, by omega⟩
  have hxs : xs = Cells.slice q.queue 0 (i + (d + 1)) := by rw [← h.elems, Queue.elems, hd]
  have hpred : (q.curr - 1 + 1).toNat = i + d := by omega
  refine ⟨trivial, { nodeNr := h.nodeNr, flag := h.flag, low := ?_, high := ?_, elems := ?_ }⟩
  · simp only; omega
  · simp only; omega
  rw [List.eraseIdx_eq_take_drop_succ, hxs, Cells.slice_take _ _ (by omega),
    Cells.slice_drop _ _ (by omega)]
  simp only [Queue.elems, hpred]
  rw [Cells.slice_add, show i + (d + 1) - (i + 1) = d by omega]
  congr 1
  · refine Cells.slice_congr fun k hk => ?_
    rw [Cells.shiftDown_apply, if_neg (by omega), Function.update_of_ne (by omega)]
  · refine Cells.slice_congr fun k hk => ?_
    rw [Cells.shiftDown_apply, if_pos (by omega), Function.update_of_ne (by omega)]
    congr 1
    push_cast
    omega

theorem Holds.clean {n : Nat} {flag : BitVec 16} {q : Queue α} {xs : List α}
    (h : Holds n flag q xs) : Holds n flag q.clean [] := by
  have hsize : q.size.toNat = xs.length := by rw [← h.elems, elems_length, size]
  rw [Queue.clean, hsize]
  clear hsize
  induction xs generalizing q with
  | nil => exact h
  | cons x xs ih => exact ih h.deq.2.2.1

/-! ### One call, and every run of calls -/

/-- A call answers as the specification does and leaves the list it says. -/
def CallOk (n : Nat) (flag : BitVec 16) (q : Queue α) (xs : List α) (op : Op α) : Prop :=
  (call q op).2 = (spec n (maskExst flag flagRB) xs op).2 ∧
    Holds n flag (call q op).1 (spec n (maskExst flag flagRB) xs op).1

/-- A full queue holds something, and one `deq` makes room. -/
theorem Holds.make_room {n : Nat} (hn : 1 ≤ n) {flag : BitVec 16} {q : Queue α} {xs : List α}
    (h : Holds n flag q xs) (hfull : xs.length = n) :
    ∃ x rest, xs = x :: rest ∧ Holds n flag q.deq.2.2 rest ∧ rest.length < n ∧
      q.deq.2.2.curr = q.curr - 1 := by
  obtain ⟨x, rest, rfl⟩ := List.exists_cons_of_length_pos (by omega : 0 < xs.length)
  rw [List.length_cons] at hfull
  exact ⟨x, rest, rfl, h.deq.2.2.1, by omega, h.deq.2.2.2⟩

theorem enq_ok {n : Nat} (hn : 1 ≤ n) {flag : BitVec 16} {q : Queue α} {xs : List α}
    (h : Holds n flag q xs) (u : α) : CallOk n flag q xs (.enq u) := by
  have hbound : xs.length ≤ n := by
    have := elems_length q
    have := h.high
    rw [← h.elems]
    omega
  simp only [CallOk, call, spec, Queue.enq, h.flag]
  by_cases hfull : xs.length = n
  · rw [if_pos hfull, (full_iff h).mpr hfull]
    cases maskExst flag flagRB with
    | false => exact ⟨rfl, h⟩
    | true =>
        obtain ⟨x, rest, rfl, hdeq, hroom, -⟩ := h.make_room hn hfull
        exact ⟨rfl, hdeq.append hroom u⟩
  · have : q.full = false := by rw [← Bool.not_eq_true, full_iff h]; exact hfull
    rw [if_neg hfull, this]
    exact ⟨rfl, h.append (by omega) u⟩

theorem insertAfter_ok {n : Nat} (hn : 1 ≤ n) {flag : BitVec 16} {q : Queue α} {xs : List α}
    (h : Holds n flag q xs) {i : Nat} (u : α) (hi : (i : Int) ≤ q.curr)
    (hin : maskExst flag flagIN = true) : CallOk n flag q xs (.insertAfter i u) := by
  have hlen := elems_length q
  rw [h.elems] at hlen
  have hhigh := h.high
  simp only [CallOk, call, spec, Queue.insertAfter, h.flag, hin, Bool.not_true,
    Bool.false_eq_true, if_false, if_neg (Int.not_lt.mpr hi)]
  by_cases hfull : xs.length = n
  · rw [if_pos hfull, (full_iff h).mpr hfull]
    cases maskExst flag flagRB with
    | false => exact ⟨rfl, h⟩
    | true =>
        -- The front is gone: what stood at `i` stands at `i - 1`, so `i` is right behind it.
        obtain ⟨x, rest, rfl, hdeq, hroom, hcurr⟩ := h.make_room hn hfull
        rw [List.length_cons] at hlen
        exact ⟨rfl, hdeq.insert hroom (by omega) u i ⟨by omega, by omega⟩⟩
  · have : q.full = false := by rw [← Bool.not_eq_true, full_iff h]; exact hfull
    rw [if_neg hfull, this]
    have hins := h.insert (j := i + 1) (by omega) (by omega) u i ⟨by omega, by omega⟩
    exact ⟨rfl, hins⟩

/-- **One call on a queue does to its list what the specification says.** -/
theorem call_ok {n : Nat} (hn : 1 ≤ n) {flag : BitVec 16} {q : Queue α} {xs : List α} (op : Op α)
    (h : Holds n flag q xs) (hvalid : op.Valid q) : CallOk n flag q xs op := by
  have hlen := elems_length q
  rw [h.elems] at hlen
  cases op with
  | enq u => exact enq_ok hn h u
  | deq =>
      cases xs with
      | nil => simpa [CallOk, call, spec, h.deq_empty] using h
      | cons x xs => simpa [CallOk, call, spec, h.deq.1, h.deq.2.1] using h.deq.2.2.1
  | first =>
      refine ⟨?_, h⟩
      cases xs with
      | nil => simp [call, spec, first, h.empty_eq]
      | cons x xs =>
          have h0 : q.queue 0 = x := h.getElem (i := 0) (by simp)
          simp [call, spec, first, h.empty_eq, h0]
  | last =>
      refine ⟨?_, h⟩
      cases xs with
      | nil => simp [call, spec, last, h.empty_eq]
      | cons x xs =>
          have hcurr : q.curr = (xs.length : Nat) := by rw [List.length_cons] at hlen; omega
          have := h.getElem (i := xs.length) (by simp)
          simp [call, spec, last, h.empty_eq, hcurr, this, List.getLastD_eq_getLast?,
            List.getLast?_eq_getElem?]
  | get i =>
      refine ⟨?_, h⟩
      have hi : i < xs.length := by
        have : (i : Int) ≤ q.curr := hvalid
        omega
      have hne : xs ≠ [] := List.ne_nil_of_length_pos (by omega)
      simp [call, spec, get, h.empty_eq, hne, h.getElem hi, hi]
  | delete i => exact ⟨by simp [call, spec, (h.delete hvalid).1], (h.delete hvalid).2⟩
  | insertAfter i u => exact insertAfter_ok hn h u hvalid.1 (by rw [← h.flag]; exact hvalid.2)
  | clean => exact ⟨rfl, h.clean⟩

theorem create_holds (n : Nat) (flag : BitVec 16) :
    Holds n flag (create n flag : Queue α) [] where
  nodeNr := rfl
  flag := by simp [create, maskPush]
  low := by simp [create]
  high := by simp only [create]; omega
  elems := by simp [create, elems]

/-! ### The block -/

/-- A call on a queue whose block holds `room` nodes: there is no result when an element is stored
behind them. -/
def callIn (room : Nat) (q : Queue α) (op : Op α) : Option (Queue α × Answer α) :=
  if (call q op).1.curr < room then some (call q op) else none

/-- **The block holds the nodes it is asked for** exactly if its size is an `int`. -/
theorem le_room_iff {nodeSize n : Nat} (hn : 1 ≤ n) (hsize : 1 ≤ nodeSize) :
    n ≤ room nodeSize n ↔ headSize + nodeSize * n < 2 ^ 31 := by
  have hpos : 0 < nodeSize * n := Nat.mul_pos hsize hn
  rw [room, Nat.le_div_iff_mul_le hsize, Nat.mul_comm n]
  constructor
  · intro h
    have hlt := (allocSize nodeSize n).toInt_lt
    omega
  · intro h
    rw [allocSize, Int32.toInt_ofNat_of_lt h]
    omega

/-- An element that is put into a queue that is not full lies in the block. -/
theorem room_of_enq {room n : Nat} {flag : BitVec 16} {q q' : Queue α} {xs xs' : List α}
    {o : Answer α} (hlt : xs.length < n) (hcall : callIn room q (.enq 0) = some (q', o))
    (hspec : Spec n (maskExst flag flagRB) xs (.enq 0) o xs') (h' : Holds n flag q' xs') :
    xs' = xs ++ [0] ∧ xs.length + 1 ≤ room := by
  rw [Spec, spec, if_neg (by omega), Prod.mk.injEq] at hspec
  obtain rfl := hspec.1
  refine ⟨rfl, ?_⟩
  have hlen := elems_length q'
  rw [h'.elems, List.length_append, List.length_singleton] at hlen
  rw [callIn] at hcall
  split at hcall
  · rename_i hin
    rw [Option.some.injEq] at hcall
    rw [hcall] at hin
    simp only at hin
    omega
  · cases hcall

/-- A queue that is filled has room for what is in it. -/
theorem room_of_fill {room n : Nat} {flag : BitVec 16} (k : Nat) : ∀ {q : Queue α} {xs : List α},
    xs.length + (k + 1) ≤ n →
    Machine.RunRefines (callIn room) (Spec n (maskExst flag flagRB)) (Holds n flag) q xs
      (List.replicate (k + 1) (.enq 0)) →
    xs.length + (k + 1) ≤ room := by
  induction k with
  | zero =>
      intro q xs hle h
      obtain ⟨-, q', o, xs', hcall, hspec, hrest⟩ := h
      exact (room_of_enq (by omega) hcall hspec hrest.related).2
  | succ k ih =>
      intro q xs hle h
      obtain ⟨-, q', o, xs', hcall, hspec, hrest⟩ := h
      obtain ⟨rfl, -⟩ := room_of_enq (by omega) hcall hspec hrest.related
      have hroom := ih (by rw [List.length_append, List.length_singleton]; omega) hrest
      rw [List.length_append, List.length_singleton] at hroom
      omega

theorem valid_fill {room k : Nat} : ∀ {q : Queue α},
    Machine.Meets (callIn room) (fun q op => op.Valid q) q (List.replicate k (.enq 0)) := by
  induction k with
  | zero => exact trivial
  | succ k ih => exact ⟨trivial, fun _ _ _ => ih⟩

theorem callIn_eq {room n : Nat} {flag : BitVec 16} {q : Queue α} {xs : List α} (hroom : n ≤ room)
    {op : Op α} (hok : CallOk n flag q xs op) : callIn room q op = some (call q op) := by
  have hhigh := hok.2.high
  rw [callIn, if_pos (by omega)]

/--
**The queue refines a bounded list exactly if its block has an `int` for its size.**  From a
fresh queue of `n ≥ 1` slots, any flags and any calls whose indices are those of held
elements: every answer is the list's, and the slots `0 .. curr` hold the list
throughout.  A full queue without flag `RB` refuses `enq` and `insert_after` with
`et_full` and is left exactly as it was.
-/
theorem queue_refines_list (nodeSize n : Nat) (hsize : 1 ≤ nodeSize) (hn : 1 ≤ n)
    (flag : BitVec 16) :
    (∃ q : Queue α, createSized nodeSize n flag = some q ∧
        ∀ ops : List (Op α),
          Machine.Meets (callIn (room nodeSize n)) (fun q op => op.Valid q) q ops →
          Machine.RunRefines (callIn (room nodeSize n)) (Spec n (maskExst flag flagRB))
            (Holds n flag) q [] ops) ∧
      (∀ (q : Queue α) (i : Nat) (u : α), q.full = true → maskExst q.flag flagRB = false →
        q.enq u = (.etFull, q) ∧
        (maskExst q.flag flagIN = true → q.insertAfter i u = (.etFull, q))) ↔
      headSize + nodeSize * n < 2 ^ 31 := by
  have hrefuses : ∀ (q : Queue α) (i : Nat) (u : α), q.full = true →
      maskExst q.flag flagRB = false → q.enq u = (.etFull, q) ∧
        (maskExst q.flag flagIN = true → q.insertAfter i u = (.etFull, q)) := by
    intro q i u hfull hrb
    refine ⟨by simp [Queue.enq, hfull, hrb], fun hin => ?_⟩
    simp [Queue.insertAfter, hfull, hrb, hin]
  rw [and_iff_left hrefuses, ← le_room_iff hn hsize]
  constructor
  · rintro ⟨q, -, hrefines⟩
    obtain ⟨k, rfl⟩ : ∃ k, n = k + 1 := ⟨n - 1, by omega⟩
    have hfill := hrefines (List.replicate (k + 1) (.enq 0)) valid_fill
    have hle := room_of_fill k (by simp) hfill
    simpa using hle
  · intro hroom
    refine ⟨create n flag, ?_, fun ops hvalid => ?_⟩
    · have hlt := (le_room_iff hn hsize).mp hroom
      rw [createSized, allocSize, Int32.toInt_ofNat_of_lt hlt, if_neg (by omega)]
    · refine Machine.runRefines_of_step (fun q xs op h hop => ?_) ops _ _ (create_holds n flag)
        hvalid
      have hok := call_ok hn op h hop
      exact ⟨_, _, _, callIn_eq hroom hok, Prod.ext rfl hok.1.symm, hok.2⟩

/-- A full queue that rolls back, with an insertion behind its second element. -/
theorem queue_refines_list_rollback :
    Machine.RunRefines (callIn 2) (Spec 2 (maskExst 3 flagRB)) (Holds 2 3) (create 2 3 : Queue Nat)
      [] [.enq 5, .enq 6, .insertAfter 1 7, .delete 0, .get 0, .clean] := by
  obtain ⟨⟨q, hq, hruns⟩, -⟩ := (queue_refines_list (α := Nat) 8 2 (by decide) (by decide) 3).mpr
    (by decide)
  obtain rfl : create 2 3 = q := Option.some.inj hq
  exact hruns _ (by decide)

/-- With 2^30 nodes of four bytes the block is as large as its head, and there is no room for one;
with half as many its size is negative. -/
theorem queue_truncates :
    (∃ q : Queue Nat, createSized 4 (2 ^ 30) 0 = some q ∧
      callIn (room 4 (2 ^ 30)) q (.enq 7) = none) ∧
    (createSized 4 (2 ^ 29) 0 : Option (Queue Nat)) = none :=
  ⟨⟨_, rfl, rfl⟩, rfl⟩

end Awoke.Queue
