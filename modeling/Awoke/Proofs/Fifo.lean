/-
When the circular queue is a queue.

The elements held are the `node_nr` slots from `head` on, taken round the storage,
and `tail` is always one slot short of the end of them; `Holds` says both.  A call
keeps this and answers as the queue of lists does unless it is one of three:

  * an `enqueue` with no slots at all (capacity 0), which divides by zero;
  * an `enqueue` on a full queue that is to be resized: `awoke_fifo_resize` changes
    nothing, so the new element lands on the oldest;
  * a `get` at or past `node_nr` of a queue that is not empty, which is answered
    from whatever slot the index wraps to.

`Safe` rules these out and nothing else, and `fifo_refines_iff` says a run refines
the list queue exactly when every call in it is safe.
-/
import Awoke.Util.Fifo
import Awoke.Lib.Run
import Mathlib.Data.Nat.ModEq

namespace Awoke.Fifo

variable {α : Type}

/-! ### Round the storage -/

/-- The slot of the `i`-th oldest element. -/
def place (f : Fifo α) (i : Nat) : Nat := (f.head + i) % f.capacity

theorem place_inj {f : Fifo α} {i j : Nat} (hi : i < f.capacity) (hj : j < f.capacity)
    (h : f.place i = f.place j) : i = j := by
  have hmod : i ≡ j [MOD f.capacity] := Nat.ModEq.add_left_cancel' f.head h
  exact hmod.eq_of_lt_of_lt hi hj

/-- `f` has `c` slots and flags `flags`, and holds `xs`, oldest first. -/
structure Holds (c : Nat) (flags : BitVec 16) (f : Fifo α) (xs : List α) : Prop where
  capacity : f.capacity = c
  flags : f.flags = flags
  small : c < 2 ^ 31
  resizable : c = 0 → maskExst f.flags flagRES = true
  nodeNr : f.nodeNr = xs.length
  fits : f.nodeNr ≤ f.allocnr
  unused : c = 0 → xs = []
  head : 0 < c → f.head < c
  tail : 0 < c → u32 (f.tail + 1) % c = f.place f.nodeNr
  elems : ∀ i (hi : i < xs.length), f.q (f.place i) = xs[i]

variable {c : Nat} {flags : BitVec 16} {f : Fifo α} {xs : List α}

theorem Holds.length_le (h : Holds c flags f xs) : xs.length ≤ c := by
  have hfits := h.fits
  rw [h.nodeNr, allocnr, h.capacity] at hfits
  split at hfits
  · rename_i hc
    rw [h.unused hc]
    exact Nat.zero_le _
  · exact hfits

theorem Holds.empty_iff (h : Holds c flags f xs) : f.empty = true ↔ xs = [] := by
  rw [empty, h.nodeNr, beq_iff_eq, List.length_eq_zero_iff]

theorem Holds.full_iff (h : Holds c flags f xs) : f.full = true ↔ xs.length = c := by
  rw [full, h.nodeNr, h.capacity, beq_iff_eq]

theorem Holds.slot_eq (h : Holds c flags f xs) (hc : 0 < c) (n : Nat) :
    f.slot n = some (u32 n % c) := by
  rw [slot, h.capacity, if_neg (by omega)]

theorem u32_small {n : Nat} (h : n < 2 ^ 32) : u32 n = n := Nat.mod_eq_of_lt h

/-! ### Each change of the queue -/

/-- Writing one slot past the newest appends. -/
theorem Holds.push (h : Holds c flags f xs) (hroom : xs.length < c) (u : α) :
    Holds c flags { f with
      tail := u32 (f.tail + 1) % c
      q := Function.update f.q (u32 (f.tail + 1) % c) u
      nodeNr := u32 (f.nodeNr + 1) } (xs ++ [u]) := by
  have hc : 0 < c := by omega
  have hsmall := h.small
  have htail := h.tail hc
  have hnode : u32 (f.nodeNr + 1) = f.nodeNr + 1 := u32_small (by rw [h.nodeNr]; omega)
  have hplace : f.place f.nodeNr < c := by
    rw [place, h.capacity]
    exact Nat.mod_lt _ hc
  rw [htail, hnode]
  refine ⟨h.capacity, h.flags, h.small, h.resizable, ?_, ?_, ?_, h.head, ?_, ?_⟩
  · rw [List.length_append, List.length_singleton, ← h.nodeNr]
  · show f.nodeNr + 1 ≤ f.allocnr
    rw [h.nodeNr, allocnr, h.capacity, if_neg (by omega)]
    exact hroom
  · intro hc0
    exact absurd hc0 (by omega)
  · intro _
    show u32 (f.place f.nodeNr + 1) % c = (f.head + (f.nodeNr + 1)) % f.capacity
    rw [u32_small (by omega), place, h.capacity, Nat.mod_add_mod, Nat.add_assoc]
  · intro i hi
    show Function.update f.q (f.place f.nodeNr) u (f.place i) = _
    rw [List.length_append, List.length_singleton] at hi
    rcases Nat.lt_or_eq_of_le (Nat.lt_succ_iff.mp hi) with hlt | heq
    · have hne : f.place i ≠ f.place f.nodeNr := by
        intro hcontra
        have := place_inj (by rw [h.capacity]; omega)
          (by rw [h.capacity, h.nodeNr]; exact hroom) hcontra
        rw [h.nodeNr] at this
        omega
      rw [Function.update_of_ne hne, h.elems i hlt, List.getElem_append_left hlt]
    · subst heq
      rw [List.getElem_concat_length rfl, ← h.nodeNr, Function.update_self]

/-- Advancing `head` drops the oldest. -/
theorem Holds.pop {x : α} (h : Holds c flags f (x :: xs)) :
    f.q f.head = x ∧
      Holds c flags { f with head := u32 (f.head + 1) % c, nodeNr := f.nodeNr - 1 } xs := by
  have hle := h.length_le
  rw [List.length_cons] at hle
  have hc : 0 < c := by omega
  have hhead := h.head hc
  have hsmall := h.small
  have hnode := h.nodeNr
  rw [List.length_cons] at hnode
  have hplace : ∀ i, (u32 (f.head + 1) % c + i) % c = f.place (i + 1) := by
    intro i
    rw [u32_small (by omega), Nat.mod_add_mod, place, h.capacity]
    congr 1
    omega
  refine ⟨?_, h.capacity, h.flags, h.small, h.resizable, ?_, ?_, ?_, ?_, ?_, ?_⟩
  · have := h.elems 0 (by simp)
    rwa [place, h.capacity, Nat.add_zero, Nat.mod_eq_of_lt hhead] at this
  · show f.nodeNr - 1 = xs.length
    omega
  · show f.nodeNr - 1 ≤ f.allocnr
    exact Nat.le_trans (Nat.sub_le _ _) h.fits
  · intro hc0
    exact absurd hc0 (by omega)
  · intro _
    exact Nat.mod_lt _ hc
  · intro _
    show u32 (f.tail + 1) % c = (u32 (f.head + 1) % c + (f.nodeNr - 1)) % f.capacity
    rw [h.tail hc, h.capacity, hplace, hnode]
    rfl
  · intro i hi
    show f.q ((u32 (f.head + 1) % c + i) % f.capacity) = xs[i]
    rw [h.capacity, hplace, h.elems (i + 1) (by simpa using hi)]
    rfl

/-! ### Calls and what they should do -/

/-- The calls a program makes on a FIFO. -/
inductive Op (α : Type)
  | enqueue (u : α)
  | dequeue
  | get (index : Int)

/-- A call's answer: its code, and the element it stores for the caller. -/
abbrev Answer (α : Type) := ErrType × Option α

/-- One call on the FIFO. -/
def call (f : Fifo α) : Op α → Option (Fifo α × Answer α)
  | .enqueue u => (f.enqueue u).map fun r => (r.2, r.1, none)
  | .dequeue => f.dequeue.map fun r => (r.2.2, r.1, r.2.1)
  | .get index => (f.get index).map fun r => (f, r)

/-- The queue a FIFO of `c` slots stands for. -/
def Spec (c : Nat) (flags : BitVec 16) (xs : List α) :
    Op α → Answer α → List α → Prop
  | .enqueue u, out, xs' =>
      if xs.length = c then
        if maskExst flags flagRBK then out = (.etOk, none) ∧ xs' = xs.tail ++ [u]
        else if maskExst flags flagRES then out = (.etOk, none) ∧ xs' = xs ++ [u]
        else out = (.etFull, none) ∧ xs' = xs
      else out = (.etOk, none) ∧ xs' = xs ++ [u]
  | .dequeue, out, xs' =>
      out = (if xs = [] then .etEmpty else .etOk, xs.head?) ∧ xs' = xs.tail
  | .get index, out, xs' =>
      (if 0 ≤ index ∧ index < xs.length then out = (.etOk, xs[index.toNat]?)
      else out.1 ≠ .etOk ∧ out.2 = none) ∧ xs' = xs

/-- The calls that do not reach one of the three slips. -/
def Safe (f : Fifo α) : Op α → Prop
  | .enqueue _ =>
      f.capacity ≠ 0 ∧
        (f.full = true → maskExst f.flags flagRBK = true ∨ maskExst f.flags flagRES = false)
  | .dequeue => True
  | .get index => 0 ≤ index → f.nodeNr = 0 ∨ index < f.nodeNr

instance (f : Fifo α) : DecidablePred (Safe f)
  | .enqueue _ => inferInstanceAs (Decidable (f.capacity ≠ 0 ∧
      (f.full = true → maskExst f.flags flagRBK = true ∨ maskExst f.flags flagRES = false)))
  | .dequeue => inferInstanceAs (Decidable True)
  | .get index => inferInstanceAs (Decidable (0 ≤ index → f.nodeNr = 0 ∨ index < f.nodeNr))

/-! ### One call -/

theorem Holds.enqueue_room (h : Holds c flags f xs) (hroom : xs.length < c) (u : α) :
    ∃ f', f.enqueue u = some (.etOk, f') ∧ Holds c flags f' (xs ++ [u]) := by
  have hfull : f.full = false := by
    rw [← Bool.not_eq_true, h.full_iff]
    exact Nat.ne_of_lt hroom
  refine ⟨_, ?_, h.push hroom u⟩
  simp [enqueue, makeRoom, hfull, h.slot_eq (Nat.zero_lt_of_lt hroom)]

theorem Holds.dequeue_cons {x : α} (h : Holds c flags f (x :: xs)) :
    ∃ f', f.dequeue = some (.etOk, some x, f') ∧ Holds c flags f' xs := by
  have hempty : f.empty = false := by
    rw [← Bool.not_eq_true, h.empty_iff]
    exact List.cons_ne_nil _ _
  have hc : 0 < c := Nat.lt_of_lt_of_le (Nat.succ_pos _) h.length_le
  refine ⟨_, ?_, h.pop.2⟩
  simp [dequeue, hempty, h.slot_eq hc, h.pop.1]

theorem Holds.dequeue_nil (h : Holds c flags f []) : f.dequeue = some (.etEmpty, none, f) := by
  simp [dequeue, h.empty_iff.mpr rfl]

theorem Holds.enqueue_rollback (h : Holds c flags f xs) (hc : 0 < c) (hfull : xs.length = c)
    (hrbk : maskExst flags flagRBK = true) (u : α) :
    ∃ f', f.enqueue u = some (.etOk, f') ∧ Holds c flags f' (xs.tail ++ [u]) := by
  rcases xs with _ | ⟨x, xs⟩
  · exact absurd hfull (by simp; omega)
  · rw [List.length_cons] at hfull
    obtain ⟨f₁, hdeq, h₁⟩ := h.dequeue_cons
    have hroom : xs.length < c := by omega
    refine ⟨_, ?_, h₁.push hroom u⟩
    have hf : f.full = true := h.full_iff.mpr (by rw [List.length_cons]; exact hfull)
    simp [enqueue, makeRoom, hf, h.flags, hrbk, hdeq, h₁.slot_eq hc]

/-- Without a slot, an `enqueue` divides by zero. -/
theorem Holds.enqueue_zero (h : Holds 0 flags f xs) (u : α) : f.enqueue u = none := by
  have hxs := h.unused rfl
  subst hxs
  have hfull : f.full = true := h.full_iff.mpr rfl
  have hslot : f.slot (f.tail + 1) = none := by rw [slot, h.capacity, if_pos rfl]
  rcases hrbk : maskExst flags flagRBK with _ | _
  · have hres := h.resizable rfl
    rw [h.flags] at hres
    simp [enqueue, makeRoom, hfull, h.flags, hrbk, hres, resize, hslot]
  · simp [enqueue, makeRoom, hfull, h.flags, hrbk, h.dequeue_nil, hslot]

theorem Holds.enqueue_resize (h : Holds c flags f xs) (hc : 0 < c) (hfull : xs.length = c)
    (hrbk : maskExst flags flagRBK = false) (hres : maskExst flags flagRES = true) (u : α) :
    ∃ f', f.enqueue u = some (.etOk, f') ∧ f'.nodeNr = c + 1 ∧ f'.allocnr = c := by
  have hf : f.full = true := h.full_iff.mpr hfull
  have hsmall := h.small
  refine ⟨_, by simp [enqueue, makeRoom, hf, h.flags, hrbk, hres, resize, h.slot_eq hc]; rfl,
    ?_, ?_⟩
  · show u32 (f.nodeNr + 1) = c + 1
    rw [h.nodeNr, hfull, u32_small (by omega)]
  · show f.allocnr = c
    rw [allocnr, h.capacity, if_neg (by omega)]

/-- `enqueue` refines the queue exactly when it is safe. -/
theorem enqueue_refines_iff (h : Holds c flags f xs) (u : α) :
    Machine.StepRefines call (Spec c flags) (Holds c flags) f xs (.enqueue u) ↔
      Safe f (.enqueue u) := by
  simp only [Safe, h.capacity, h.flags, h.full_iff]
  rcases Nat.eq_zero_or_pos c with rfl | hc
  · refine ⟨?_, fun hsafe => absurd rfl hsafe.1⟩
    rintro ⟨f', o, t', hcall, -⟩
    simp [call, h.enqueue_zero u] at hcall
  by_cases hfull : xs.length = c
  · rcases hrbk : maskExst flags flagRBK with _ | _
    · rcases hres : maskExst flags flagRES with _ | _
      · refine ⟨fun _ => ⟨by omega, fun _ => .inr rfl⟩, fun _ => ?_⟩
        have hf : f.full = true := h.full_iff.mpr hfull
        refine ⟨f, (.etFull, none), xs, ?_, ?_, h⟩
        · simp [call, enqueue, makeRoom, hf, h.flags, hrbk, hres]
        · simp [Spec, hfull, hrbk, hres]
      · -- Nothing was resized, so the elements no longer fit the slots.
        refine ⟨?_, fun hsafe => ?_⟩
        · rintro ⟨f₁, o, t', hcall, -, hheld⟩
          obtain ⟨f', henq, hnode, halloc⟩ := h.enqueue_resize hc hfull hrbk hres u
          simp only [call, henq, Option.map_some, Option.some.injEq, Prod.mk.injEq] at hcall
          have hfits := hheld.fits
          rw [← hcall.1, hnode, halloc] at hfits
          omega
        · rcases hsafe.2 hfull with hcontra | hcontra <;> exact absurd hcontra (by simp)
    · refine ⟨fun _ => ⟨by omega, fun _ => .inl rfl⟩, fun _ => ?_⟩
      obtain ⟨f', henq, h'⟩ := h.enqueue_rollback hc hfull hrbk u
      exact ⟨f', _, _, by rw [call, henq]; rfl, by simp [Spec, hfull, hrbk], h'⟩
  · refine ⟨fun _ => ⟨by omega, fun hcontra => absurd hcontra hfull⟩, fun _ => ?_⟩
    have hroom : xs.length < c := Nat.lt_of_le_of_ne h.length_le hfull
    obtain ⟨f', henq, h'⟩ := h.enqueue_room hroom u
    exact ⟨f', _, _, by rw [call, henq]; rfl, by simp [Spec, hfull], h'⟩

theorem dequeue_refines (h : Holds c flags f xs) :
    Machine.StepRefines call (Spec c flags) (Holds c flags) f xs .dequeue := by
  rcases xs with _ | ⟨x, xs⟩
  · exact ⟨f, _, [], by rw [call, h.dequeue_nil]; rfl, by simp [Spec], h⟩
  · obtain ⟨f', hdeq, h'⟩ := h.dequeue_cons
    exact ⟨f', _, xs, by rw [call, hdeq]; rfl, by simp [Spec], h'⟩

/-- `get` refines the queue exactly when it is safe. -/
theorem get_refines_iff (h : Holds c flags f xs) (index : Int) :
    Machine.StepRefines call (Spec c flags) (Holds c flags) f xs (.get index) ↔
      Safe f (.get index) := by
  simp only [Safe, h.nodeNr]
  by_cases hneg : index < 0
  · refine ⟨fun _ hcontra => absurd hcontra (by omega), fun _ => ?_⟩
    refine ⟨f, (.etParam, none), xs, by simp [call, get, hneg], ?_, h⟩
    exact ⟨by rw [if_neg (by omega)]; simp, rfl⟩
  rcases xs with _ | ⟨x, xs⟩
  · refine ⟨fun _ _ => .inl rfl, fun _ => ?_⟩
    refine ⟨f, (.etEmpty, none), [], by simp [call, get, hneg, h.empty_iff.mpr rfl], ?_, h⟩
    exact ⟨by rw [if_neg (by simp)]; simp, rfl⟩
  have hempty : f.empty = false := by
    rw [← Bool.not_eq_true, h.empty_iff]
    exact List.cons_ne_nil _ _
  have hc : 0 < c := Nat.lt_of_lt_of_le (Nat.succ_pos _) h.length_le
  have hget : f.get index = some (.etOk, some (f.q (u32 (f.head + index.toNat) % c))) := by
    simp [get, hneg, hempty, h.slot_eq hc]
  refine ⟨?_, fun hsafe => ?_⟩
  · rintro ⟨f', o, t', hcall, hspec, -⟩ -
    refine .inr ?_
    by_contra hlt
    simp only [call, hget, Option.map_some, Option.some.injEq, Prod.mk.injEq] at hcall
    have hcode := hspec.1
    rw [if_neg (by omega), ← hcall.2] at hcode
    exact hcode.1 rfl
  · have hlt : index < (x :: xs).length := (hsafe (by omega)).resolve_left (by simp)
    have hle := h.length_le
    have hsmall := h.small
    have hhead := h.head hc
    refine ⟨f, _, x :: xs, by rw [call, hget]; rfl, ?_, h⟩
    refine ⟨?_, rfl⟩
    rw [if_pos ⟨by omega, hlt⟩, u32_small (by omega)]
    have := h.elems index.toNat (by omega)
    rw [place, h.capacity] at this
    rw [this, List.getElem?_eq_getElem]

theorem call_refines_iff (h : Holds c flags f xs) (op : Op α) :
    Machine.StepRefines call (Spec c flags) (Holds c flags) f xs op ↔ Safe f op := by
  cases op with
  | enqueue u => exact enqueue_refines_iff h u
  | dequeue => exact ⟨fun _ => trivial, fun _ => dequeue_refines h⟩
  | get index => exact get_refines_iff h index

/-! ### Every run -/

/-- A FIFO as `awoke_fifo_create` or `awoke_fifo_init` leaves it. -/
def Fresh [Zero α] (f : Fifo α) : Prop :=
  (∃ nodesize capacity flags, create nodesize capacity flags = some f) ∨
    ∃ f₀ addr nodesize capacity flags, init f₀ addr nodesize capacity flags = (.etOk, f)

theorem start_holds (q : Nat → α) (flags₀ : BitVec 16) {capacity : Int32} (h : ¬capacity < 0)
    (flags : BitVec 16) :
    Holds (start q flags₀ capacity flags).capacity (start q flags₀ capacity flags).flags
      (start q flags₀ capacity flags) [] := by
  have hlo : 0 ≤ capacity.toInt := by
    rw [Int32.lt_iff_toInt_lt] at h
    exact Int.not_lt.mp h
  have hhi := capacity.toInt_lt
  refine ⟨rfl, rfl, ?_, ?_, rfl, Nat.zero_le _, fun _ => rfl, id, ?_, ?_⟩
  · show capacity.toInt.toNat < 2 ^ 31
    omega
  · intro hzero
    have hcap : capacity = 0 :=
      Int32.toInt_inj.mp (Int.le_antisymm (Int.toNat_eq_zero.mp hzero) hlo)
    simp only [start, if_pos hcap]
    rw [maskExst_push, maskExst_push, show maskExst flagRES flagRES = true from rfl, Bool.or_true,
      Bool.true_or]
  · intro hc
    have hturn : u32 (u32 (2 ^ 32 - 1) + 1) = 0 := by decide
    simp only [start, place, hturn]
  · intro i hi
    exact absurd hi (Nat.not_lt_zero i)

theorem Fresh.holds [Zero α] {f : Fifo α} (h : Fresh f) : Holds f.capacity f.flags f [] := by
  rcases h with ⟨nodesize, capacity, flags, hcreate⟩ | ⟨f₀, addr, nodesize, capacity, flags, hinit⟩
  · simp only [create] at hcreate
    split at hcreate
    · simp at hcreate
    split at hcreate
    · simp at hcreate
    · rename_i hcap
      rw [← Option.some.inj hcreate]
      exact start_holds _ _ hcap flags
  · simp only [init] at hinit
    split at hinit
    · simp at hinit
    split at hinit
    · simp at hinit
    · rename_i hcap
      rw [← (Prod.mk.inj hinit).2]
      exact start_holds _ _ hcap flags

/--
**A run refines the queue exactly when every call in it is safe.**  From any FIFO that
`awoke_fifo_create` or `awoke_fifo_init` accepts, over any calls: each is answered as
the list queue answers it, with the elements held in order and never more of them than
slots, if and only if no call meets one of the three slips.  A refusal leaves the FIFO
exactly as it was.
-/
theorem fifo_refines_iff [Zero α] {f : Fifo α} (h : Fresh f) (ops : List (Op α)) :
    (Machine.RunRefines call (Spec f.capacity f.flags) (Holds f.capacity f.flags) f [] ops ↔
        Machine.Meets call Safe f ops) ∧
      ∀ (g : Fifo α) (u : α), g.full = true → maskExst g.flags flagRBK = false →
        maskExst g.flags flagRES = false → g.enqueue u = some (.etFull, g) := by
  refine ⟨Machine.runRefines_iff (fun g xs op hg => call_refines_iff hg op) ops h.holds, ?_⟩
  intro g u hfull hrbk hres
  simp [enqueue, makeRoom, hfull, hrbk, hres]

/-- Two slots that roll back, filled past their number and drained. -/
theorem fifo_refines_iff_rollback :
    Machine.RunRefines call (Spec 2 4) (Holds 2 4) (start (fun _ => 0) 0 2 4 : Fifo Nat) []
        [.enqueue 5, .enqueue 6, .enqueue 7, .get 1, .dequeue, .dequeue, .get 0] :=
  (fifo_refines_iff (.inl ⟨4, 2, 4, rfl⟩) _).1.mpr (by decide)

/-- `awoke_fifo_create` with capacity 0 marks the FIFO as resizable, and the first
`enqueue` divides by the capacity. -/
theorem fifo_zero_crashes : ∃ f : Fifo Nat, create 4 0 0 = some f ∧
    ¬Machine.RunRefines call (Spec f.capacity f.flags) (Holds f.capacity f.flags) f []
      [.enqueue 7] := by
  refine ⟨_, rfl, ?_⟩
  rintro ⟨hheld, f', o, t', hcall, -⟩
  have hcrash : (start (fun _ => 0) 0 0 0 : Fifo Nat).enqueue 7 = none :=
    Holds.enqueue_zero hheld 7
  rw [call, hcrash] at hcall
  exact absurd hcall (by simp)

end Awoke.Fifo
