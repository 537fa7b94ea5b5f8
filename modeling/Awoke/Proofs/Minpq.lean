/-
The priority queue is a heap, and a heap is a priority queue.

`entry` reads a value and its priority as one, and the operations on the two arrays
become those of `Awoke.Lib.BinHeap` on the entries: `sink_eq` and `swim_eq` say that
the loops of the code are the repairs of the library, and that nothing else of the
queue moves.  `Holds` is then the heap order together with the multiset of pairs
held, and each call changes that multiset as its specification says.

The pair that goes out is the one at the root, so what the library says about the
root is what `delmin` promises.

The `int`s hold everything up to a capacity of 2^30.  One more, and a queue that was filled
with rising priorities sinks its last node to a place whose double is no `int`.
-/
import Awoke.Util.Minpq
import Awoke.Lib.BinHeap
import Awoke.Lib.Run

namespace Awoke.Minpq

variable {α : Type}

/-! ### The two arrays as one -/

/-- The value at a position, with its priority. -/
def entry (q : Minpq α) (i : Nat) : α × Int32 := (q.q i, q.p i)

/-- Other entries in the same queue. -/
def withEntries (q : Minpq α) (e : Nat → α × Int32) : Minpq α :=
  { q with p := fun i => (e i).2, q := fun i => (e i).1 }

@[simp] theorem withEntries_nodeNr (q : Minpq α) (e : Nat → α × Int32) :
    (q.withEntries e).nodeNr = q.nodeNr := rfl

/-- The order a queue keeps: by priority, or by its comparator on the values. -/
def order (comparator : Option (α → α → Bool)) (x y : α × Int32) : Bool :=
  match comparator with
  | none => decide (y.2 < x.2)
  | some comparator => comparator x.1 y.1

theorem greater_eq (q : Minpq α) (i j : Nat) :
    q.greater i j = order q.comparator (q.entry i) (q.entry j) := rfl

theorem order_total {comparator : Option (α → α → Bool)}
    (h : ∀ gt, comparator = some gt → BinHeap.TotalPreorder gt) :
    BinHeap.TotalPreorder (order comparator) := by
  rcases comparator with _ | gt
  · have hint : BinHeap.TotalPreorder fun x y : Int32 => decide (y < x) := by
      refine ⟨fun a b => ?_, fun a b c => ?_⟩
      · simp only [decide_eq_false_iff_not, Int32.not_lt]
        exact Int32.le_total a b
      · simp only [decide_eq_false_iff_not, Int32.not_lt]
        exact Int32.le_trans
    exact hint.comp Prod.snd
  · exact (h gt rfl).comp Prod.fst

theorem setNode_eq (q : Minpq α) (i : Nat) (u : α) (p : Int32) :
    q.setNode i u p = q.withEntries (Function.update q.entry i (u, p)) := by
  have hentry : (q.setNode i u p).entry = Function.update q.entry i (u, p) := by
    funext k
    by_cases hk : k = i
    · subst hk
      simp [entry, setNode]
    · simp [entry, setNode, Function.update_of_ne hk]
  rw [← hentry]
  rfl

theorem swap_eq (q : Minpq α) (i j : Nat) :
    q.swap i j = q.withEntries (BinHeap.swap q.entry i j) := by
  have hentry : Function.update (Function.update q.entry i (q.entry j)) j (q.entry i) =
      BinHeap.swap q.entry i j := by
    funext k
    by_cases hj : k = j
    · rw [hj, BinHeap.swap_right, Function.update_self]
    by_cases hi : k = i
    · rw [hi, BinHeap.swap_left, Function.update_of_ne (hi ▸ hj), Function.update_self]
    · rw [BinHeap.swap_other _ hi hj, Function.update_of_ne hj, Function.update_of_ne hi]
  rw [swap, setNode_eq, setNode_eq, ← hentry]
  rfl

theorem sinkChild_eq (q : Minpq α) (k : Nat) :
    q.sinkChild k = BinHeap.child (order q.comparator) q.nodeNr q.entry k := by
  rw [sinkChild, BinHeap.child, greater_eq]

/-- `minpq_sink` is the repair downwards. -/
theorem sink_eq (q : Minpq α) (k : Nat) (hk : 0 < k) :
    q.sink k hk = q.withEntries (BinHeap.sink (order q.comparator) q.nodeNr q.entry k hk) := by
  induction hd : q.nodeNr - k using Nat.strong_induction_on generalizing q k with
  | _ d ih =>
      have hchild := q.lt_sinkChild hk
      rw [sink, BinHeap.sink]
      simp only [greater_eq]
      split
      · simp only [sinkChild_eq] at hchild ⊢
        split
        · rw [ih _ (by rw [swap_eq, withEntries_nodeNr]; omega) _ _ _ rfl]
          simp only [swap_eq]
          rfl
        · rfl
      · rfl

/-- `minpq_swim` is the repair upwards. -/
theorem swim_eq (q : Minpq α) (k : Nat) :
    q.swim k = q.withEntries (BinHeap.swim (order q.comparator) q.entry k) := by
  induction k using Nat.strong_induction_on generalizing q with
  | _ k ih =>
      rw [swim, BinHeap.swim, greater_eq]
      by_cases hcond : 1 < k ∧ order q.comparator (q.entry (k / 2)) (q.entry k) = true
      · rw [if_pos hcond, if_pos hcond, ih (k / 2) (by omega), swap_eq]
        rfl
      · rw [if_neg hcond, if_neg hcond]
        rfl

/-- `awoke_minpq_insert` with room adds a last element and repairs upwards. -/
theorem store_eq (q : Minpq α) (u : α) (p : Int32) :
    q.store u p = ({ q with nodeNr := q.nodeNr + 1 } : Minpq α).withEntries
      (BinHeap.swim (order q.comparator) (Function.update q.entry (q.nodeNr + 1) (u, p))
        (q.nodeNr + 1)) := by
  rw [store, swim_eq, setNode_eq]
  rfl

/-- `awoke_minpq_delmin` puts the last element in the place of the root and repairs
downwards. -/
theorem takeRoot_eq (q : Minpq α) :
    q.takeRoot = ({ q with nodeNr := q.nodeNr - 1 } : Minpq α).withEntries
      (BinHeap.sink (order q.comparator) (q.nodeNr - 1)
        (Function.update q.entry 1 (q.entry q.nodeNr)) 1 Nat.one_pos) := by
  rw [takeRoot, sink_eq, setNode_eq]
  rfl

/-! ### What a queue holds -/

/-- `q` is a queue with this comparator and these flags, its entries are a heap, and
the pairs held are `s`. -/
structure Holds (cmp : Option (α → α → Bool)) (flags : BitVec 16) (q : Minpq α)
    (s : Multiset (α × Int32)) : Prop where
  comparator : q.comparator = cmp
  flags : q.flags = flags
  fits : q.nodeNr ≤ q.capacity
  slots : q.slots = q.capacity + 1
  heap : BinHeap.IsHeap (order cmp) q.nodeNr q.entry
  held : BinHeap.held q.nodeNr q.entry = s

variable {cmp : Option (α → α → Bool)} {flags : BitVec 16} {q : Minpq α}
  {s : Multiset (α × Int32)}

theorem Holds.card_eq (h : Holds cmp flags q s) : s.card = q.nodeNr := by
  rw [← h.held, BinHeap.card_held]

theorem Holds.full_iff (h : Holds cmp flags q s) :
    q.full = true ↔ q.capacity = s.card := by
  rw [full, beq_iff_eq, h.card_eq]

theorem Holds.empty_iff (h : Holds cmp flags q s) : q.empty = true ↔ s = 0 := by
  rw [empty, beq_iff_eq, ← h.card_eq, Multiset.card_eq_zero]

theorem Holds.congr (h : Holds cmp flags q s) {q' : Minpq α}
    (hcomparator : q'.comparator = q.comparator) (hflags : q'.flags = q.flags)
    (hnode : q'.nodeNr = q.nodeNr) (hfits : q'.nodeNr ≤ q'.capacity)
    (hslots : q'.slots = q'.capacity + 1)
    (hentry : ∀ i, 1 ≤ i → i ≤ q.nodeNr → q'.entry i = q.entry i) :
    Holds cmp flags q' s := by
  refine ⟨hcomparator.trans h.comparator, hflags.trans h.flags, hfits, hslots, ?_, ?_⟩
  · rw [hnode, BinHeap.isHeap_congr hentry]
    exact h.heap
  · rw [hnode, BinHeap.held_congr hentry]
    exact h.held

theorem Holds.store (hgt : BinHeap.TotalPreorder (order cmp))
    (h : Holds cmp flags q s) (hroom : q.nodeNr < q.capacity) (u : α) (p : Int32) :
    Holds cmp flags (q.store u p) ((u, p) ::ₘ s) := by
  obtain ⟨hheap, hheld⟩ := h.heap.push hgt (u, p)
  rw [store_eq, h.comparator]
  refine ⟨rfl, h.flags, hroom, h.slots, hheap, ?_⟩
  rw [← h.held]
  exact hheld

/-- Taking the root out leaves the rest, none of which comes before it. -/
theorem Holds.takeRoot (hgt : BinHeap.TotalPreorder (order cmp)) (h : Holds cmp flags q s)
    (hne : q.empty = false) :
    ∃ rest, s = q.entry 1 ::ₘ rest ∧ (∀ y ∈ rest, order cmp (q.entry 1) y = false) ∧
      Holds cmp flags q.takeRoot rest ∧ q.takeRoot.capacity = q.capacity ∧
      q.takeRoot.nodeNr + 1 = q.nodeNr := by
  obtain ⟨n, hn⟩ : ∃ n, q.nodeNr = n + 1 := by
    refine ⟨q.nodeNr - 1, ?_⟩
    have : q.nodeNr ≠ 0 := by simpa [empty] using hne
    omega
  have hfits := h.fits
  have hroot := h.heap
  have hheld := h.held
  rw [hn] at hfits hroot hheld
  obtain ⟨hheap, hsplit⟩ := hroot.pop hgt
  rw [hheld] at hsplit
  rw [takeRoot_eq, h.comparator, hn]
  refine ⟨_, hsplit, ?_, ⟨rfl, h.flags, ?_, h.slots, hheap, rfl⟩, rfl, rfl⟩
  · intro y hy
    have hmem : y ∈ BinHeap.held (n + 1) q.entry := by
      rw [hheld, hsplit]
      exact Multiset.mem_cons_of_mem hy
    obtain ⟨i, hi, hin, rfl⟩ := BinHeap.mem_held.mp hmem
    exact hroot.root_min hgt i hi hin
  · show n ≤ q.capacity
    omega

/-- The zero that `delmin` writes behind the heap is not held. -/
theorem Holds.clearLast (h : Holds cmp flags q s) (p : Int32) :
    Holds cmp flags { q with p := Function.update q.p (q.nodeNr + 1) p } s := by
  refine h.congr rfl rfl rfl h.fits h.slots fun i hi hin => ?_
  exact Prod.ext rfl (Function.update_of_ne (Nat.ne_of_lt (Nat.lt_succ_of_le hin)) _ _)

theorem Holds.clearLastValue (h : Holds cmp flags q s) (u : α) :
    Holds cmp flags { q with q := Function.update q.q (q.nodeNr + 1) u } s := by
  refine h.congr rfl rfl rfl h.fits h.slots fun i hi hin => ?_
  exact Prod.ext (Function.update_of_ne (Nat.ne_of_lt (Nat.lt_succ_of_le hin)) _ _) rfl

/-! ### Calls and what they should do -/

/-- The calls a program makes on a priority queue. -/
inductive Op (α : Type)
  | insert (u : α) (p : Int32)
  | delmin

/-- A call's answer: its code, and the value and priority it stores for the caller. -/
abbrev Answer (α : Type) := ErrType × Option (α × Int32)

/-- A priority queue over the pairs it holds, with room for `limit` of them or any
number: `insert` adds its pair, `delmin` takes out one that comes after no other. -/
def Spec (cmp : Option (α → α → Bool)) (limit : Option Nat) (s : Multiset (α × Int32)) :
    Op α → Answer α → Multiset (α × Int32) → Prop
  | .insert u p, out, s' =>
      if limit = some s.card then out = (.etFull, none) ∧ s' = s
      else out = (.etOk, none) ∧ s' = (u, p) ::ₘ s
  | .delmin, out, s' =>
      (s = 0 ∧ out = (.etEmpty, none) ∧ s' = 0) ∨
        ∃ x, out = (.etOk, some x) ∧ s = x ::ₘ s' ∧ ∀ y ∈ s', order cmp x y = false

variable [Node α]

/-- One call on the priority queue. -/
def call (q : Minpq α) : Op α → Option (Minpq α × Answer α)
  | .insert u p => (q.insert u p).map fun r => (r.2, r.1, none)
  | .delmin => q.delmin.map fun r => (r.2.2, r.1, r.2.1)

/-- What `awoke_minpq_create` returns holds nothing. -/
theorem create_holds {capacity : Int} (h : create capacity cmp flags = some q) :
    Holds cmp q.flags q 0 ∧ q.capacity = capacity.toNat ∧
      maskExst q.flags flagRES = (decide (capacity = 0) || maskExst flags flagRES) := by
  simp only [create] at h
  split at h
  · simp at h
  split at h
  · simp at h
  rename_i hcap
  rw [← Option.some.inj h]
  refine ⟨⟨rfl, rfl, Nat.zero_le _, ?_, fun i hi hin => ?_, rfl⟩, rfl, ?_⟩
  · show (if capacity = 0 then 1 else capacity.toNat + 1) = capacity.toNat + 1
    split
    · rename_i hzero
      rw [hzero]
      rfl
    · rfl
  · have : i ≤ 0 := hin
    omega
  · have hcdc : maskExst flagCDC flagRES = false := rfl
    have hres : maskExst flagRES flagRES = true := rfl
    have hnone : maskExst 0#16 flagRES = false := rfl
    by_cases hzero : capacity = 0 <;> cases cmp.isSome <;>
      simp [maskExst_push, hzero, hcdc, hres, hnone]

/-! ### A queue of fixed capacity -/

/-- A queue that never resizes, and what it holds. -/
structure Bounded (capacity : Nat) (cmp : Option (α → α → Bool)) (flags : BitVec 16)
    (q : Minpq α) (s : Multiset (α × Int32)) : Prop extends Holds cmp flags q s where
  capacity_eq : q.capacity = capacity
  fixed : maskExst q.flags flagRES = false

variable {capacity : Nat}

/-- What `awoke_minpq_init` sets up holds nothing. -/
theorem init_bounded (cmp : Option (α → α → Bool)) (hcap : 0 < capacity)
    (hres : maskExst flags flagRES = false) :
    Bounded capacity cmp (init capacity cmp flags).flags (init capacity cmp flags) 0 := by
  have hne : capacity ≠ 0 := by omega
  have hcdc : maskExst flagCDC flagRES = false := rfl
  have hnone : maskExst 0#16 flagRES = false := rfl
  refine ⟨⟨rfl, rfl, Nat.zero_le _, if_neg hne, fun i hi hin => ?_, rfl⟩, rfl, ?_⟩
  · have : i ≤ 0 := hin
    omega
  · rw [init]
    cases cmp.isSome <;> simp [maskExst_push, hne, hres, hcdc, hnone]

theorem insert_full (hfull : q.full = true) (hres : maskExst q.flags flagRES = false) (u : α)
    (p : Int32) : q.insert u p = some (.etFull, q) := by
  simp [insert, makeRoom, hfull, hres]

theorem Bounded.insert (hgt : BinHeap.TotalPreorder (order cmp))
    (h : Bounded capacity cmp flags q s) (u : α) (p : Int32) :
    Machine.StepRefines call (Spec cmp (some capacity)) (Bounded capacity cmp flags) q s
      (.insert u p) := by
  have hcard := h.toHolds.card_eq
  by_cases hfull : q.full = true
  · refine ⟨q, _, s, by rw [call, insert_full hfull h.fixed]; rfl, ?_, h⟩
    have hlimit := h.toHolds.full_iff.mp hfull
    rw [h.capacity_eq] at hlimit
    exact (if_pos (congrArg some hlimit)).mpr ⟨rfl, rfl⟩
  · have hroom : q.nodeNr < q.capacity := by
      have hfits := h.fits
      have hne : q.capacity ≠ q.nodeNr := by simpa [full] using hfull
      omega
    refine ⟨q.store u p, (.etOk, none), (u, p) ::ₘ s, ?_, ?_, ?_⟩
    · simp [call, Minpq.insert, makeRoom, hfull]
    · have hlimit : ¬some capacity = some s.card := by
        rw [Option.some.injEq, ← h.capacity_eq, hcard]
        omega
      exact (if_neg hlimit).mpr ⟨rfl, rfl⟩
    · refine ⟨h.toHolds.store hgt hroom u p, ?_, ?_⟩
      · rw [store_eq]
        exact h.capacity_eq
      · rw [store_eq]
        exact h.fixed

/-- What is not empty has a root that comes after nothing, and `delmin` takes it out. -/
theorem Bounded.pop (hgt : BinHeap.TotalPreorder (order cmp))
    (h : Bounded capacity cmp flags q s) (hempty : q.empty = false) :
    ∃ rest q', s = q.entry 1 ::ₘ rest ∧ (∀ y ∈ rest, order cmp (q.entry 1) y = false) ∧
      q.delmin = some (.etOk, some (q.entry 1), q') ∧ Bounded capacity cmp flags q' rest := by
  obtain ⟨rest, hs, hmin, hrest, hcap, -⟩ := h.toHolds.takeRoot hgt hempty
  have hremoved : Holds cmp flags q.removeRoot rest := hrest.clearLast 0
  have hfixed : maskExst q.removeRoot.flags flagRES = false := by
    rw [hremoved.flags, ← h.flags]
    exact h.fixed
  have hshrink : q.removeRoot.shrink = some q.removeRoot := by
    rw [shrink, if_neg (by simp [hfixed])]
  refine ⟨rest, _, hs, hmin, by rw [Minpq.delmin, hempty, hshrink]; rfl, ?_⟩
  exact ⟨hremoved.clearLastValue 0, hcap.trans h.capacity_eq, hfixed⟩

theorem Bounded.delmin (hgt : BinHeap.TotalPreorder (order cmp))
    (h : Bounded capacity cmp flags q s) :
    Machine.StepRefines call (Spec cmp (some capacity)) (Bounded capacity cmp flags) q s
      .delmin := by
  by_cases hempty : q.empty = true
  · have hs := h.toHolds.empty_iff.mp hempty
    refine ⟨q, (.etEmpty, none), s, by simp [call, Minpq.delmin, hempty], ?_, h⟩
    exact .inl ⟨hs, rfl, hs⟩
  · rw [Bool.not_eq_true] at hempty
    obtain ⟨rest, q', hs, hmin, hpop, h'⟩ := h.pop hgt hempty
    exact ⟨q', (.etOk, some (q.entry 1)), rest, by rw [call, hpop]; rfl,
      .inr ⟨_, rfl, hs, hmin⟩, h'⟩

theorem Bounded.step (hgt : BinHeap.TotalPreorder (order cmp)) (op : Op α)
    (h : Bounded capacity cmp flags q s) :
    Machine.StepRefines call (Spec cmp (some capacity)) (Bounded capacity cmp flags) q s op := by
  cases op with
  | insert u p => exact h.insert hgt u p
  | delmin => exact h.delmin hgt

/-! ### The integers of the code -/

omit [Node α] in
/-- Below 2^30 nodes no `2*k` overflows. -/
theorem sinkInt_eq (q : Minpq α) (k : Nat) (hk : 0 < k) (hlt : k < 2 ^ 30)
    (hnode : q.nodeNr < 2 ^ 30) : q.sinkInt k hk = some (q.sink k hk) := by
  induction hd : q.nodeNr - k using Nat.strong_induction_on generalizing q k with
  | _ d ih =>
      have hchild := q.lt_sinkChild hk
      have hupto : q.sinkChild k ≤ 2 * k + 1 := by
        rw [sinkChild]
        split
        · exact Nat.le_refl _
        · exact Nat.le_succ _
      rw [sinkInt, sink, if_neg (by omega)]
      split
      · have hinside : q.sinkChild k ≤ q.nodeNr := by
          rw [sinkChild]
          split
          · omega
          · omega
        split
        · exact ih _ (by rw [swap_eq, withEntries_nodeNr]; omega) _ _ _ (by omega)
            (by rw [swap_eq, withEntries_nodeNr]; exact hnode) rfl
        · rfl
      · rfl

/-- One call on the priority queue, with the `int`s of the code. -/
def callInt (q : Minpq α) : Op α → Option (Minpq α × Answer α)
  | .insert u p => (q.insertInt u p).map fun r => (r.2, r.1, none)
  | .delmin => q.delminInt.map fun r => (r.2.2, r.1, r.2.1)

/-- Up to a capacity of 2^30 they hold everything. -/
theorem Bounded.callInt_eq (hle : capacity ≤ 2 ^ 30)
    (hbytes : Node.nodesize α * (capacity + 1) < 2 ^ 64) (h : Bounded capacity cmp flags q s) (op : Op α) : q.callInt op = q.call op := by
  cases op with
  | insert u p =>
      have halloc : Allocated α q.capacity := by
        rw [h.capacity_eq]
        exact ⟨by omega, hbytes⟩
      rw [callInt, call, insertInt, if_pos (.inr halloc)]
  | delmin =>
      rw [callInt, call, delminInt]
      split
      · rfl
      · rename_i hempty
        have hfits := h.fits
        have hpos : q.nodeNr ≠ 0 := by simpa [empty] using hempty
        rw [h.capacity_eq] at hfits
        rw [sinkInt_eq _ 1 Nat.one_pos (by decide) (by simp only; omega)]
        rfl

theorem Bounded.stepInt (hgt : BinHeap.TotalPreorder (order cmp)) (hle : capacity ≤ 2 ^ 30)
    (hbytes : Node.nodesize α * (capacity + 1) < 2 ^ 64) (op : Op α)
    (h : Bounded capacity cmp flags q s) :
    Machine.StepRefines callInt (Spec cmp (some capacity)) (Bounded capacity cmp flags) q s op := by
  obtain ⟨q', o, s', hcall, hspec, h'⟩ := h.step hgt op
  exact ⟨q', o, s', (h.callInt_eq hle hbytes op).trans hcall, hspec, h'⟩

/-- Taking out everything that is held drains it in order. -/
theorem Bounded.drain (hgt : BinHeap.TotalPreorder (order cmp)) (hle : capacity ≤ 2 ^ 30)
    (hbytes : Node.nodesize α * (capacity + 1) < 2 ^ 64) :
    ∀ (n : Nat) (q : Minpq α) (s : Multiset (α × Int32)), s.card = n →
      Bounded capacity cmp flags q s →
        ∃ xs q', Machine.run callInt q (List.replicate n .delmin) =
            some (q', xs.map fun x => (.etOk, some x)) ∧
          q'.nodeNr = 0 ∧ BinHeap.Drains (order cmp) s xs := by
  intro n
  induction n with
  | zero =>
      intro q s hcard h
      obtain rfl := Multiset.card_eq_zero.mp hcard
      exact ⟨[], q, rfl, by rw [← h.toHolds.card_eq, hcard], .nil⟩
  | succ n ih =>
      intro q s hcard h
      obtain ⟨q₁, o, rest, hcall, hspec, h₁⟩ := h.stepInt hgt hle hbytes .delmin
      rcases hspec with ⟨rfl, -⟩ | ⟨x, rfl, rfl, hmin⟩
      · simp at hcard
      rw [Multiset.card_cons, Nat.succ_inj] at hcard
      obtain ⟨xs, q', hrun, hzero, hdrains⟩ := ih q₁ rest hcard h₁
      refine ⟨x :: xs, q', ?_, hzero, .cons hmin hdrains⟩
      simp [List.replicate_succ, Machine.run, hcall, hrun]

/--
**A queue of fixed capacity is a bounded priority queue.**  From a fresh queue of
`capacity > 0` slots without flag `RES`, ordered by priority or by any total preorder
on the values, over any calls, up to a capacity of 2^30: the entries stay a heap of at
most `capacity`, a full queue refuses and is left exactly as it was, and each `delmin`
takes out a pair that comes after no other.  In every state reached, as many `delmin`
as there are pairs give them all back in order.
-/
theorem minpq_refines_bounded {capacity : Int} (hcap : 0 < capacity) (hle : capacity ≤ 2 ^ 30)
    (hbytes : Node.nodesize α * (capacity.toNat + 1) < 2 ^ 64)
    (hres : maskExst flags flagRES = false)
    (hcmp : ∀ gt, cmp = some gt → BinHeap.TotalPreorder gt)
    (h : create capacity cmp flags = some q) (ops : List (Op α)) :
    Machine.RunRefines callInt (Spec cmp (some capacity.toNat))
        (Bounded capacity.toNat cmp q.flags) q 0 ops ∧
      (∀ (q' : Minpq α) (u : α) (p : Int32), q'.full = true →
        maskExst q'.flags flagRES = false → q'.insertInt u p = some (.etFull, q')) ∧
      ∀ (q' : Minpq α) (s : Multiset (α × Int32)),
        Bounded capacity.toNat cmp q.flags q' s →
          ∃ (xs : List (α × Int32)) (q'' : Minpq α),
            Machine.run callInt q' (List.replicate s.card .delmin) =
              some (q'', xs.map fun x => (.etOk, some x)) ∧
            q''.nodeNr = 0 ∧ (xs : Multiset (α × Int32)) = s ∧
            xs.Pairwise fun x y => order cmp x y = false := by
  have hgt := order_total hcmp
  have hnat : capacity.toNat ≤ 2 ^ 30 := by omega
  obtain ⟨hholds, hcapacity, hflags⟩ := create_holds h
  refine ⟨?_, fun q' u p hfull hfixed => ?_, ?_⟩
  · have hstart : Bounded capacity.toNat cmp q.flags q 0 := by
      refine ⟨hholds, hcapacity, ?_⟩
      rw [hflags, hres, decide_eq_false (by omega)]
      rfl
    refine Machine.runRefines_of_step (C := fun _ _ => True) ?_ ops q 0 hstart
      (Machine.meets_true q ops)
    intro q' s op h' _
    exact h'.stepInt hgt hnat hbytes op
  · rw [insertInt, if_pos (.inl hfull)]
    exact insert_full hfull hfixed u p
  · intro q' s h'
    obtain ⟨xs, q'', hrun, hzero, hdrains⟩ := Bounded.drain hgt hnat hbytes s.card q' s rfl h'
    exact ⟨xs, q'', hrun, hzero, hdrains.perm, hdrains.sorted⟩

/-- Words of four bytes, low byte first. -/
instance : Node UInt32 where
  zero := 0
  nodesize := 4
  byte v k := (v >>> (8 * UInt32.ofNat k)).toUInt8

/-- Two slots ordered by a comparator on the words, filled past their number. -/
theorem minpq_refines_bounded_words : ∃ q : Minpq UInt32,
    create 2 (some fun a b => decide (b < a)) 0 = some q ∧
      Machine.RunRefines callInt (Spec (some fun a b => decide (b < a)) (some 2))
        (Bounded 2 (some fun a b => decide (b < a)) q.flags) q 0
        [.insert 7 1, .insert 5 2, .insert 9 3, .delmin, .delmin, .delmin] := by
  have hwords : BinHeap.TotalPreorder fun a b : UInt32 => decide (b < a) := by
    refine ⟨fun a b => ?_, fun a b c => ?_⟩
    · simp only [decide_eq_false_iff_not, UInt32.not_lt]
      exact UInt32.le_total a b
    · simp only [decide_eq_false_iff_not, UInt32.not_lt]
      exact UInt32.le_trans
  refine ⟨_, rfl, (minpq_refines_bounded (by decide : (0 : Int) < 2) (by decide) (by decide) rfl
    ?_ rfl _).1⟩
  intro gt hgt
  rw [← Option.some.inj hgt]
  exact hwords

/-! ### One node more -/

/-- The first `n` priorities rise from 1 on, in a queue with room for 2^30 + 1 nodes. -/
structure Rising (n : Nat) (q : Minpq α) : Prop where
  comparator : q.comparator = none
  nodeNr : q.nodeNr = n
  capacity : q.capacity = 2 ^ 30 + 1
  p : ∀ i, 1 ≤ i → i ≤ n → q.p i = Int32.ofNat i

theorem ofNat_lt_iff {i j : Nat} (hi : i < 2 ^ 31) (hj : j < 2 ^ 31) :
    Int32.ofNat i < Int32.ofNat j ↔ i < j := by
  rw [Int32.lt_iff_toInt_lt, Int32.toInt_ofNat_of_lt hi, Int32.toInt_ofNat_of_lt hj]
  exact Int.ofNat_lt

/-- The next priority stays where it is stored. -/
theorem Rising.insert {n : Nat} (h : Rising n q) (hn : n ≤ 2 ^ 30)
    (hbytes : Allocated α (2 ^ 30 + 1)) (u : α) :
    ∃ q' o, q.callInt (.insert u (Int32.ofNat (n + 1))) = some (q', o) ∧ Rising (n + 1) q' := by
  obtain rfl := h.nodeNr
  have hfull : q.full = false := by
    rw [full, h.capacity, beq_eq_false_iff_ne]
    omega
  have hp : ∀ i, 1 ≤ i → i ≤ q.nodeNr + 1 →
      Function.update q.p (q.nodeNr + 1) (Int32.ofNat (q.nodeNr + 1)) i = Int32.ofNat i := by
    intro i hi hin
    rw [Function.update_apply]
    split
    · rename_i heq
      rw [heq]
    · exact h.p i hi (by omega)
  have hstore : q.store u (Int32.ofNat (q.nodeNr + 1)) =
      { q.setNode (q.nodeNr + 1) u (Int32.ofNat (q.nodeNr + 1)) with nodeNr := q.nodeNr + 1 } := by
    rw [store, swim, if_neg]
    rintro ⟨hlong, hgreater⟩
    simp only [greater, setNode, h.comparator, decide_eq_true_iff] at hgreater
    rw [hp _ (by omega) (by omega), hp _ (by omega) (by omega),
      ofNat_lt_iff (by omega) (by omega)] at hgreater
    omega
  refine ⟨q.store u (Int32.ofNat (q.nodeNr + 1)), (.etOk, none), ?_, ?_⟩
  · rw [callInt, insertInt, if_pos (.inr (by rwa [h.capacity])), Minpq.insert, makeRoom, hfull]
    rfl
  · rw [hstore]
    exact ⟨h.comparator, rfl, h.capacity, hp⟩

omit [Node α] in
/-- From a power of two a last priority sinks to the next, and at 2^30 the double overflows. -/
theorem sinkInt_none (d : Nat) : ∀ (m : Nat) (q : Minpq α), m + d = 30 → q.comparator = none →
    q.nodeNr = 2 ^ 30 → q.p (2 ^ m) = Int32.ofNat (2 ^ 30 + 1) →
    (∀ i, 2 ^ m < i → i ≤ 2 ^ 30 → q.p i = Int32.ofNat i) →
    q.sinkInt (2 ^ m) (Nat.two_pow_pos m) = none := by
  induction d with
  | zero =>
      intro m q hm _ _ _ _
      obtain rfl : m = 30 := hm
      rw [sinkInt, if_pos (by decide)]
  | succ d ih =>
      intro m q hm hcmp hnode hlast hp
      have hdouble : 2 * 2 ^ m = 2 ^ (m + 1) := by rw [Nat.pow_succ, Nat.mul_comm]
      have hpos := Nat.two_pow_pos m
      have hinside : 2 ^ (m + 1) ≤ 2 ^ 30 := Nat.pow_le_pow_right (by decide) (by omega)
      have hchild : q.sinkChild (2 ^ m) = 2 ^ (m + 1) := by
        rw [sinkChild, hdouble, if_neg]
        rintro ⟨hlt, hgreater⟩
        rw [hnode] at hlt
        simp only [greater, hcmp, decide_eq_true_iff] at hgreater
        rw [hp _ (by omega) (by omega), hp _ (by omega) (by omega),
          ofNat_lt_iff (by omega) (by omega)] at hgreater
        omega
      have hsinks : q.greater (2 ^ m) (2 ^ (m + 1)) = true := by
        simp only [greater, hcmp, decide_eq_true_iff]
        rw [hp _ (by omega) (by omega), hlast, ofNat_lt_iff (by omega) (by omega)]
        omega
      rw [sinkInt, if_neg (by omega), if_pos (by omega)]
      simp only [hchild, hsinks, if_true]
      refine ih (m + 1) _ (by omega) hcmp hnode ?_ ?_
      · show Function.update _ _ _ _ = _
        rw [Function.update_self, hlast]
      · intro i hi hin
        show Function.update (Function.update q.p (2 ^ m) _) (2 ^ (m + 1)) _ i = _
        rw [Function.update_of_ne (by omega), Function.update_of_ne (by omega)]
        exact hp i (by omega) hin

/-- So the minimum cannot be taken out of 2^30 + 1 nodes that rise. -/
theorem Rising.delmin (h : Rising (2 ^ 30 + 1) q) : q.callInt .delmin = none := by
  have hnode := h.nodeNr
  have hempty : q.empty = false := by
    rw [empty, hnode]
    rfl
  rw [callInt, delminInt, hempty]
  have hsink := sinkInt_none (α := α) 30 0
    { q.setNode 1 (q.q q.nodeNr) (q.p q.nodeNr) with nodeNr := q.nodeNr - 1 } rfl h.comparator
    (by show q.nodeNr - 1 = _; omega)
    (by
      show Function.update q.p 1 (q.p q.nodeNr) 1 = _
      rw [Function.update_self, hnode, h.p _ (by omega) (by omega)])
    (by
      intro i hi hin
      show Function.update q.p 1 (q.p q.nodeNr) i = _
      rw [Function.update_of_ne (by omega), h.p i (by omega) (by omega)])
  simp only [Nat.pow_zero] at hsink
  simp [hsink]

/-- The insertions with the priorities from 1 to `n`. -/
def rising : Nat → List (Op UInt32)
  | 0 => []
  | n + 1 => rising n ++ [.insert 0 (Int32.ofNat (n + 1))]

theorem run_rising {q : Minpq UInt32} (h : Rising 0 q) (n : Nat) (hn : n ≤ 2 ^ 30 + 1) :
    ∃ q' os, Machine.run callInt q (rising n) = some (q', os) ∧ Rising n q' := by
  induction n with
  | zero => exact ⟨q, [], rfl, h⟩
  | succ n ih =>
      obtain ⟨q₁, os, hrun, h₁⟩ := ih (by omega)
      obtain ⟨q', o, hcall, h'⟩ := h₁.insert (by omega) (by decide) 0
      refine ⟨q', os ++ [o], ?_, h'⟩
      rw [rising, Machine.run_append, hrun, Option.bind_some, Machine.run, hcall]
      rfl

/-- **With room for 2^30 + 1 nodes** the queue can be filled and then not be emptied; with room
for as many as an `int` counts, nothing can be inserted. -/
theorem minpq_overflows :
    (∃ q : Minpq UInt32, create (2 ^ 30 + 1) none 0 = some q ∧
      Machine.run callInt q (rising (2 ^ 30 + 1) ++ [.delmin]) = none) ∧
    ∃ q : Minpq UInt32, create (2 ^ 31 - 1) none 0 = some q ∧
      Machine.run callInt q [.insert 7 1] = none := by
  constructor
  · obtain ⟨q, hq, hrising⟩ : ∃ q : Minpq UInt32, create (2 ^ 30 + 1) none 0 = some q ∧
        Rising 0 q :=
      ⟨_, rfl, rfl, rfl, by decide, fun i hi hin => absurd hin (by omega)⟩
    obtain ⟨q', os, hrun, h'⟩ := run_rising hrising (2 ^ 30 + 1) (Nat.le_refl _)
    refine ⟨q, hq, ?_⟩
    rw [Machine.run_append, hrun]
    simp [Machine.run, h'.delmin]
  · exact ⟨_, rfl, rfl⟩

end Awoke.Minpq
