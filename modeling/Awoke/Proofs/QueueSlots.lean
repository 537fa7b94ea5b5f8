/-
Which calls keep to the queue's slots.

A deletion copies one slot more than the elements that follow it: its last copy takes the slot
behind `curr`, and when the queue is full there is none.  An insertion behind index -1 starts its
shift one slot early, as every insertion does, and there the slot before is no slot.

`slots_iff` says that these two are all.  `ops_exec` ties the lists of accesses to the queue of
`Awoke.Util.Queue`: run in order, they leave what it says.
-/
import Awoke.Util.QueueSlots
import Awoke.Lib.Run

namespace Awoke.Queue

variable {α : Type}

section

variable [Zero α]

/-! ### The accesses are those of the queue -/

theorem deqOps_exec (q : Queue α) : Cells.exec q.queue q.deqOps = q.deq.2.2.queue := by
  unfold deqOps deq
  split
  · rfl
  · rw [Cells.exec_cons, Cells.exec_append, Cells.exec_downOps]
    exact Cells.fill_one _ _ _

theorem enqOps_exec (q : Queue α) (u : α) :
    Cells.exec q.queue (q.enqOps u) = (q.enq u).2.queue := by
  unfold enqOps enq
  split
  · rfl
  · simp only [Cells.exec_append]
    split
    · rw [deqOps_exec]
      exact Cells.write_one _ _ _
    · exact Cells.write_one _ _ _

theorem deleteOps_exec (q : Queue α) (index : Int) :
    Cells.exec q.queue (q.deleteOps index) = (q.delete index).2.queue := by
  unfold deleteOps delete
  split
  · rfl
  split
  · rfl
  · rw [Cells.exec_cons, Cells.exec_downOps, Cells.Op.exec, Cells.fill_one]

theorem insertAfterOps_exec (q : Queue α) (index : Int) (u : α) :
    Cells.exec q.queue (q.insertAfterOps index u) = (q.insertAfter index u).2.queue := by
  unfold insertAfterOps insertAfter
  split
  · rfl
  split
  · rfl
  split
  · rfl
  · simp only [Cells.exec_append]
    split
    · rw [deqOps_exec, Cells.exec_upOps]
      exact Cells.write_one _ _ _
    · rw [Cells.exec_nil, Cells.exec_upOps]
      exact Cells.write_one _ _ _

theorem deqsOps_exec (n : Nat) : ∀ q : Queue α,
    Cells.exec q.queue (q.deqsOps n) = ((fun q : Queue α => q.deq.2.2)^[n] q).queue := by
  induction n with
  | zero => intro q; rfl
  | succ n ih =>
      intro q
      rw [deqsOps, Cells.exec_append, deqOps_exec, ih]
      rfl

/-- **The accesses of a call, run in order,** leave the slots as the call does. -/
theorem ops_exec (q : Queue α) (c : SlotCall α) :
    Cells.exec q.queue (q.slotCall c).2 = (q.slotCall c).1.queue := by
  cases c with
  | enq u => exact q.enqOps_exec u
  | deq => exact q.deqOps_exec
  | clean => exact deqsOps_exec _ q
  | delete index => exact q.deleteOps_exec index
  | insertAfter index u => exact q.insertAfterOps_exec index u

end

/-! ### Where they are inside -/

/-- A queue of `n` slots that holds at most as many elements. -/
structure Fits (n : Nat) (q : Queue α) : Prop where
  nodeNr : q.nodeNr = n
  low : -1 ≤ q.curr
  high : q.curr < n

/-- A call keeps to the slots: all it reads or writes is one of `0 .. n - 1`. -/
def Inside [Zero α] (n : Nat) (q : Queue α) (c : SlotCall α) : Prop :=
  Cells.Within n (q.slotCall c).2

instance [Zero α] (n : Nat) (q : Queue α) : DecidablePred (Inside n q) := fun c =>
  inferInstanceAs (Decidable (Cells.Within n (q.slotCall c).2))

/-- No element of a full queue is deleted, and nothing is put behind index -1 of a queue that
admits it and makes room. -/
def KeepsOff (q : Queue α) : SlotCall α → Prop
  | .delete index => index ≤ q.curr → q.full = false
  | .insertAfter index _ => index = (-1 : Int) → maskExst q.flag flagIN = true →
      q.full = true ∧ maskExst q.flag flagRB = false
  | _ => True

instance (q : Queue α) : DecidablePred (KeepsOff q)
  | .delete _ => inferInstanceAs (Decidable (_ → _))
  | .insertAfter _ _ => inferInstanceAs (Decidable (_ → _ → _))
  | .enq _ | .deq | .clean => .isTrue trivial

variable {n : Nat} {q : Queue α}

theorem Fits.full_iff (h : Fits n q) : q.full = true ↔ q.curr + 1 = n := by
  rw [full, beq_iff_eq, h.nodeNr]

/-- `curr` goes on, round the end of the slots. -/
theorem Fits.next (hn : 1 ≤ n) (h : Fits n q) :
    0 ≤ (q.curr + 1) % q.nodeNr ∧ (q.curr + 1) % q.nodeNr < n := by
  rw [h.nodeNr]
  exact ⟨Int.emod_nonneg _ (by omega), Int.emod_lt_of_pos _ (by omega)⟩

theorem Fits.advance (hn : 1 ≤ n) (h : Fits n q) (cells : Cells α) :
    Fits n { q with curr := (q.curr + 1) % q.nodeNr, queue := cells } := by
  obtain ⟨hlow, hhigh⟩ := h.next hn
  exact ⟨h.nodeNr, Int.le_trans (by decide) hlow, hhigh⟩

variable [Zero α]

theorem deq_curr (hne : q.empty = false) : q.deq.2.2.curr = q.curr - 1 := by
  simp [deq, hne]

theorem Fits.deq (h : Fits n q) : Fits n q.deq.2.2 := by
  cases hempty : q.empty with
  | true =>
      rw [show q.deq.2.2 = q by simp [Queue.deq, hempty]]
      exact h
  | false =>
      have hcurr := deq_curr hempty
      have hlow := h.low
      have hhigh := h.high
      have hne : q.curr + 1 ≠ 0 := by simpa [Queue.empty] using hempty
      exact ⟨by simpa [Queue.deq, hempty] using h.nodeNr, by omega, by omega⟩

theorem Fits.deq_inside (h : Fits n q) : Cells.Within n q.deqOps := by
  have hhigh := h.high
  have hlow := h.low
  unfold deqOps
  split
  · exact Cells.within_nil
  · rename_i hne
    have hcurr : q.curr + 1 ≠ 0 := by simpa [Queue.empty] using hne
    rw [Cells.within_cons, Cells.within_append, Cells.within_downOps, Cells.within_cons,
      Cells.Op.within_read, Cells.Op.within_fill]
    refine ⟨by omega, by omega, by omega, Cells.within_nil⟩

theorem Fits.room (hn : 1 ≤ n) (h : Fits n q) (hfull : q.full = true) :
    Fits n q.deq.2.2 ∧ q.deq.2.2.curr = n - 2 := by
  have hcurr := h.full_iff.mp hfull
  refine ⟨h.deq, ?_⟩
  rw [deq_curr (by rw [Queue.empty, beq_eq_false_iff_ne]; omega)]
  omega

theorem Fits.enq (hn : 1 ≤ n) (h : Fits n q) (u : α) :
    Fits n (q.enq u).2 ∧ Cells.Within n (q.enqOps u) := by
  have hstore : ∀ {q : Queue α}, Fits n q →
      Cells.Within n [Cells.Op.write ((q.curr + 1) % q.nodeNr) [u]] := by
    intro q h
    rw [Cells.within_cons, Cells.Op.within_write_one]
    exact ⟨h.next hn, Cells.within_nil⟩
  unfold Queue.enq enqOps
  split
  · exact ⟨h, Cells.within_nil⟩
  · simp only [Cells.within_append]
    split
    · exact ⟨h.deq.advance hn _, h.deq_inside, hstore h.deq⟩
    · exact ⟨h.advance hn _, Cells.within_nil, hstore h⟩

theorem Fits.deqs (k : Nat) : ∀ {q : Queue α}, Fits n q →
    Fits n ((fun q : Queue α => q.deq.2.2)^[k] q) ∧ Cells.Within n (q.deqsOps k) := by
  induction k with
  | zero => exact fun h => ⟨h, Cells.within_nil⟩
  | succ k ih =>
      intro q h
      obtain ⟨hfits, hinside⟩ := ih h.deq
      exact ⟨hfits, Cells.within_append.mpr ⟨h.deq_inside, hinside⟩⟩

/-- A deletion ends with the slot behind the last element. -/
theorem Fits.delete (h : Fits n q) (index : Nat) : Fits n (q.delete index).2 ∧
    (Cells.Within n (q.deleteOps index) ↔ (index ≤ q.curr → q.full = false)) := by
  have hlow := h.low
  have hhigh := h.high
  unfold Queue.delete deleteOps
  by_cases hbeyond : q.curr < index
  · rw [if_pos hbeyond, if_pos hbeyond]
    exact ⟨h, iff_of_true Cells.within_nil fun hin => absurd hin (by omega)⟩
  have hne : q.empty = false := by
    rw [Queue.empty, beq_eq_false_iff_ne]
    omega
  simp only [if_neg hbeyond, hne, Bool.false_eq_true, if_false]
  refine ⟨⟨h.nodeNr, by simp only; omega, by simp only; omega⟩, ?_⟩
  rw [Cells.within_cons, Cells.Op.within_fill, Cells.within_downOps, ← Bool.not_eq_true,
    h.full_iff]
  omega

/-- An insertion begins with the slot it is behind. -/
theorem Fits.insertAfter (hn : 1 ≤ n) (h : Fits n q) (index : { i : Int // -1 ≤ i }) (u : α) :
    Fits n (q.insertAfter index u).2 ∧
      (Cells.Within n (q.insertAfterOps index u) ↔ (index = (-1 : Int) →
        maskExst q.flag flagIN = true → q.full = true ∧ maskExst q.flag flagRB = false)) := by
  have hindex := index.property
  have hlow := h.low
  have hhigh := h.high
  unfold Queue.insertAfter insertAfterOps
  cases hin : maskExst q.flag flagIN with
  | false => exact ⟨h, iff_of_true Cells.within_nil fun _ hno => absurd hno Bool.false_ne_true⟩
  | true =>
      simp only [Bool.not_true, Bool.false_eq_true, if_false]
      by_cases hbeyond : q.curr < index
      · rw [if_pos hbeyond, if_pos hbeyond]
        exact ⟨h, iff_of_true Cells.within_nil fun hfirst => absurd hbeyond (by omega)⟩
      rw [if_neg hbeyond, if_neg hbeyond]
      cases hfull : q.full with
      | false =>
          have hroom : q.curr + 1 ≠ n := fun hcurr =>
            absurd (h.full_iff.mpr hcurr) (by rw [hfull]; exact Bool.false_ne_true)
          simp only [Bool.false_and, Bool.false_eq_true, if_false, List.nil_append]
          refine ⟨h.advance hn _, ?_⟩
          rw [Cells.within_append, Cells.within_upOps, Cells.within_cons,
            Cells.Op.within_write_one]
          simp only [Cells.within_nil, and_true, false_and, forall_const, imp_false]
          omega
      | true =>
          cases hrb : maskExst q.flag flagRB with
          | false => exact ⟨h, iff_of_true Cells.within_nil fun _ _ => ⟨rfl, rfl⟩⟩
          | true =>
              obtain ⟨hfits, hcurr⟩ := h.room hn hfull
              simp only [Bool.not_true, Bool.and_false, Bool.false_eq_true, if_false, if_true]
              refine ⟨hfits.advance hn _, ?_⟩
              rw [Cells.within_append, Cells.within_append, Cells.within_upOps, Cells.within_cons,
                Cells.Op.within_write_one, and_iff_right h.deq_inside]
              simp only [Cells.within_nil, and_true, Bool.true_eq_false, and_false, forall_const,
                imp_false]
              omega

/-! ### Every run -/

/-- **One call** leaves a queue of these slots, and keeps to them as long as it keeps off. -/
theorem Fits.call (hn : 1 ≤ n) (h : Fits n q) (c : SlotCall α) :
    Fits n (q.slotCall c).1 ∧ (Inside n q c ↔ KeepsOff q c) := by
  cases c with
  | enq u => exact (h.enq hn u).imp_right fun hin => iff_of_true hin trivial
  | deq => exact ⟨h.deq, iff_of_true h.deq_inside trivial⟩
  | clean => exact (h.deqs _).imp_right fun hin => iff_of_true hin trivial
  | delete index => exact h.delete index
  | insertAfter index u => exact h.insertAfter hn index u

/-- **Every slot that is read or written is one of the queue's** exactly as long as no element of
a full queue is deleted and nothing is inserted behind index -1. -/
theorem slots_iff (n : Nat) (hn : 1 ≤ n) (flag : BitVec 16) (cs : List (SlotCall α)) :
    Machine.Meets (Machine.total slotCall) (Inside n) (create n flag : Queue α) cs ↔
      Machine.Meets (Machine.total slotCall) KeepsOff (create n flag : Queue α) cs := by
  refine Machine.meets_congr (J := Fits n) (fun q c h => (h.call hn c).2)
    (fun q c h _ => ?_) cs ⟨rfl, Int.le_refl _, by simp only [create]; omega⟩
  rw [Machine.after_some (Machine.total_apply slotCall q c)]
  exact (h.call hn c).1

/-- Two slots, filled and emptied. -/
theorem slots_iff_two : Machine.Meets (Machine.total slotCall) (Inside 2)
    (create 2 3 : Queue Nat) [.enq 5, .delete 0, .enq 6, .enq 7, .enq 8, .clean] :=
  (slots_iff 2 (by decide) 3 _).mpr (by decide)

/-- The only slot is deleted from, and the one behind it is read; something is put in front of
it, and the one before it is read. -/
theorem slots_left :
    ¬Machine.Meets (Machine.total slotCall) (Inside 1) (create 1 0 : Queue Nat)
      [.enq 5, .delete 0] ∧
    ¬Machine.Meets (Machine.total slotCall) (Inside 1) (create 1 2 : Queue Nat)
      [.insertAfter ⟨-1, by decide⟩ 5] := by
  decide

end Awoke.Queue
