/-
What it takes to delete from the middle of a heap.

`awoke_minpq_del` puts the last element in the place of the one it takes out and moves it down.
That element may come from another part of the heap and belong above its new place, and then
nothing moves it up: `InPlace` is what must hold of the two places.  An index behind the last
element is not looked at, and what lies there goes out as if it were held.

The rest is as for `awoke_minpq_delmin`, a shrinking queue included: its priorities are read
from the bytes of the values, which is right when these spell them (`Respells`).
-/
import Awoke.Proofs.MinpqResize

namespace Awoke.Minpq

variable {α : Type} {cmp : Option (α → α → Bool)} {flags : BitVec 16} {q : Minpq α}
  {s : Multiset (α × Int32)}

/-! ### What a deletion should do, and when it does -/

/-- The last element may take the place of the one at `k`: that is its own place or the root, or
it does not come before the parent of `k`. -/
def InPlace (q : Minpq α) (k : Nat) : Prop :=
  k = q.nodeNr ∨ k = 1 ∨ order q.comparator (q.entry (k / 2)) (q.entry q.nodeNr) = false

/-- With one element less the queue is mostly empty, and it resizes. -/
def ShrinksNext (q : Minpq α) : Prop :=
  0 < q.nodeNr - 1 ∧ q.nodeNr - 1 = (q.capacity - 1) / 4 ∧ maskExst q.flags flagRES = true

instance (q : Minpq α) : Decidable q.ShrinksNext := inferInstanceAs (Decidable (_ ∧ _ ∧ _))

section

variable [Node α]

/-- The values, each with the `int` that a resize makes its priority. -/
def respelled (q : Minpq α) (i : Nat) : α × Int32 := (q.q i, q.valueInt i)

/-- The bytes that a resize reads are there, and make the pairs that are held, as a heap. -/
structure Respells (q : Minpq α) : Prop where
  readable : 4 * (q.nodeNr + 1) ≤ Node.nodesize α * q.slots
  heap : BinHeap.IsHeap (order q.comparator) q.nodeNr q.respelled
  held : BinHeap.held q.nodeNr q.respelled = BinHeap.held q.nodeNr q.entry

theorem Spells.respells (h : q.Spells)
    (hheap : BinHeap.IsHeap (order q.comparator) q.nodeNr q.entry) : q.Respells := by
  have hentry : ∀ i, 1 ≤ i → i ≤ q.nodeNr → q.respelled i = q.entry i := fun i hi hin =>
    Prod.ext rfl (h.2 i hin hi)
  exact ⟨h.1, (BinHeap.isHeap_congr hentry).mpr hheap, BinHeap.held_congr hentry⟩

/-- The `int` that a value of four bytes is. -/
def word (v : α) : Int32 :=
  Int32.ofNat ((Node.byte v 0).toNat + 2 ^ 8 * (Node.byte v 1).toNat +
    2 ^ 16 * (Node.byte v 2).toNat + 2 ^ 24 * (Node.byte v 3).toNat)

theorem valueInt_eq_word (hfour : Node.nodesize α = 4) (q : Minpq α) (i : Nat) :
    q.valueInt i = word (q.q i) := by
  have hbyte : ∀ j, j < 4 → q.valueByte (4 * i + j) = (Node.byte (q.q i) j).toNat := by
    intro j hj
    rw [valueByte, hfour, show (4 * i + j) / 4 = i by omega, show (4 * i + j) % 4 = j by omega]
  have hfirst := hbyte 0 (by decide)
  rw [Nat.add_zero] at hfirst
  rw [valueInt, word, hfirst, hbyte 1 (by decide), hbyte 2 (by decide), hbyte 3 (by decide)]

/-- Values of four bytes make the pairs that are held exactly if each is its own priority. -/
theorem respells_iff_word (hfour : Node.nodesize α = 4) (hslots : q.nodeNr < q.slots) :
    q.Respells ↔ BinHeap.IsHeap (order q.comparator) q.nodeNr q.entry ∧
      ∀ e ∈ BinHeap.held q.nodeNr q.entry, e.2 = word e.1 := by
  constructor
  · intro h
    have hword : ∀ e ∈ BinHeap.held q.nodeNr q.entry, e.2 = word e.1 := by
      intro e hmem
      rw [← h.held] at hmem
      obtain ⟨i, -, -, rfl⟩ := BinHeap.mem_held.mp hmem
      exact valueInt_eq_word hfour q i
    have hentry : ∀ i, 1 ≤ i → i ≤ q.nodeNr → q.respelled i = q.entry i := by
      intro i hi hin
      have hpriority := hword _ (BinHeap.mem_held.mpr ⟨i, hi, hin, rfl⟩)
      exact Prod.ext rfl ((valueInt_eq_word hfour q i).trans hpriority.symm)
    exact ⟨(BinHeap.isHeap_congr hentry).mp h.heap, hword⟩
  · rintro ⟨hheap, hword⟩
    refine Spells.respells ⟨by rw [hfour]; omega, fun i hin hi => ?_⟩ hheap
    exact (valueInt_eq_word hfour q i).trans
      (hword _ (BinHeap.mem_held.mpr ⟨i, hi, hin, rfl⟩)).symm

/-- What is asked of `awoke_minpq_del`: an index that is not held is refused and changes
nothing, and one that is held gives its pair, and leaves a heap of the others. -/
def Deletes (cmp : Option (α → α → Bool)) (flags : BitVec 16) (s : Multiset (α × Int32))
    (q : Minpq α) (index : Int) : Prop :=
  if 1 ≤ index ∧ index ≤ q.nodeNr then
    ∃ q' rest, q.del index.toNat = some (.etOk, some (q.entry index.toNat), q') ∧
      s = q.entry index.toNat ::ₘ rest ∧ Holds cmp flags q' rest
  else ∃ code, q.del index.toNat = some (code, none, q) ∧ code ≠ .etOk

/-- The index is refused, or it is held, and either the queue keeps its size and the last
element may take that place, or it shrinks and the values spell the priorities again. -/
def MayDelete (q : Minpq α) (index : Int) : Prop :=
  q.nodeNr ≠ 0 → ∀ h : 0 < index.toNat, index ≤ q.nodeNr ∧
    if q.ShrinksNext then (q.removeNode index.toNat h).Respells else q.InPlace index.toNat

end

/-! ### The element goes out -/

theorem takeNode_eq (q : Minpq α) (k : Nat) (hk : 0 < k) :
    q.takeNode k hk = ({ q with nodeNr := q.nodeNr - 1 } : Minpq α).withEntries
      (BinHeap.sink (order q.comparator) (q.nodeNr - 1)
        (Function.update q.entry k (q.entry q.nodeNr)) k hk) := by
  rw [takeNode, sink_eq, setNode_eq]
  rfl

/-- What is left after the element at `k` was taken out and the last one moved down. -/
structure Removed (cmp : Option (α → α → Bool)) (flags : BitVec 16) (s : Multiset (α × Int32))
    (q : Minpq α) (k : Nat) (r : Minpq α) : Prop where
  comparator : r.comparator = cmp
  flags : r.flags = flags
  capacity : r.capacity = q.capacity
  slots : r.slots = q.slots
  nodeNr : r.nodeNr + 1 = q.nodeNr
  held : s = q.entry k ::ₘ BinHeap.held r.nodeNr r.entry
  heap : BinHeap.IsHeap (order cmp) r.nodeNr r.entry ↔ q.InPlace k

theorem Holds.removeNode (hgt : BinHeap.TotalPreorder (order cmp)) (h : Holds cmp flags q s)
    {k : Nat} (hk : 0 < k) (hkn : k ≤ q.nodeNr) :
    Removed cmp flags s q k (q.removeNode k hk) := by
  obtain ⟨n, hn⟩ : ∃ n, q.nodeNr = n + 1 := ⟨q.nodeNr - 1, by omega⟩
  have hheap := h.heap
  rw [hn] at hheap hkn
  have hnode : (q.takeNode k hk).nodeNr = n := by
    rw [takeNode_eq, hn]
    rfl
  have hentry : (q.takeNode k hk).entry =
      BinHeap.sink (order cmp) n (Function.update q.entry k (q.entry (n + 1))) k hk := by
    rw [takeNode_eq, h.comparator, hn]
    rfl
  -- the priority that is cleared lies behind what is left
  have hkept : ∀ i, 1 ≤ i → i ≤ n → (q.removeNode k hk).entry i = (q.takeNode k hk).entry i := by
    intro i _ hin
    refine Prod.ext rfl ?_
    simp only [Minpq.removeNode, hnode]
    exact Function.update_of_ne (by omega) _ _
  have hnode' : (q.removeNode k hk).nodeNr = n := hnode
  refine ⟨?_, ?_, ?_, ?_, by omega, ?_, ?_⟩
  · show (q.takeNode k hk).comparator = cmp
    rw [takeNode_eq]
    exact h.comparator
  · show (q.takeNode k hk).flags = flags
    rw [takeNode_eq]
    exact h.flags
  · show (q.takeNode k hk).capacity = q.capacity
    rw [takeNode_eq]
    rfl
  · show (q.takeNode k hk).slots = q.slots
    rw [takeNode_eq]
    rfl
  · rw [hnode', BinHeap.held_congr hkept, hentry, BinHeap.held_sink, ← h.held, hn]
    exact BinHeap.held_replace hk hkn
  · rw [hnode', InPlace, h.comparator, hn, ← hheap.replace_iff hgt hk hkn, ← hentry]
    exact BinHeap.isHeap_congr hkept

theorem Removed.inPlace_iff {k : Nat} {r : Minpq α} (h : Holds cmp flags q s)
    (hr : Removed cmp flags s q k r) :
    Holds cmp flags r (BinHeap.held r.nodeNr r.entry) ↔ q.InPlace k := by
  rw [← hr.heap]
  constructor
  · exact fun hholds => hholds.heap
  · intro hheap
    have hfits := h.fits
    have hnode := hr.nodeNr
    refine ⟨hr.comparator, hr.flags, ?_, ?_, hheap, rfl⟩
    · rw [hr.capacity]
      omega
    · rw [hr.slots, hr.capacity]
      exact h.slots

theorem holds_clear_iff {r : Minpq α} {rest : Multiset (α × Int32)} (u : α) :
    Holds cmp flags { r with q := Function.update r.q (r.nodeNr + 1) u } rest ↔
      Holds cmp flags r rest := by
  refine ⟨fun h => ?_, fun h => h.clearLastValue u⟩
  refine h.congr rfl rfl rfl h.fits h.slots fun i hi hin => ?_
  exact Prod.ext (Function.update_of_ne (Nat.ne_of_lt (Nat.lt_succ_of_le hin)) _ _).symm rfl

/-! ### The queue shrinks -/

variable [Node α]

theorem Removed.shrink_eq {k : Nat} {r : Minpq α} (hr : Removed cmp flags s q k r)
    (h : Holds cmp flags q s) : r.shrink =
      if q.ShrinksNext then (r.resize (q.capacity / 2)).map fun r => r.2 else some r := by
  have hnode : r.nodeNr = q.nodeNr - 1 := by
    have := hr.nodeNr
    omega
  rw [shrink, hnode, hr.capacity, hr.flags, ← h.flags]
  rfl

/-- A queue that shrinks holds the same when the values spell the priorities again. -/
theorem Removed.respells_iff {k : Nat} {r : Minpq α} (h : Holds cmp flags q s)
    (hr : Removed cmp flags s q k r) (hnext : q.ShrinksNext) :
    (∃ r', r.shrink = some r' ∧ Holds cmp flags r' (BinHeap.held r.nodeNr r.entry)) ↔
      r.Respells := by
  have hnode := hr.nodeNr
  have hroom : r.nodeNr < q.capacity / 2 := by
    obtain ⟨hpos, hquarter, -⟩ := hnext
    omega
  rw [hr.shrink_eq h, if_pos hnext, resize, if_neg (by omega)]
  by_cases hread : Node.nodesize α * r.slots < 4 * (r.nodeNr + 1)
  · rw [if_pos hread]
    refine iff_of_false ?_ fun hspells => ?_
    · rintro ⟨r', hnone, -⟩
      cases hnone
    · exact absurd hspells.readable (by omega)
  rw [if_neg hread, Option.map_some]
  simp only [Option.some.injEq, exists_eq_left']
  -- what the new arrays hold is what the bytes of the values make
  have hentry : ∀ i, 1 ≤ i → i ≤ r.nodeNr →
      ((if i ≤ r.nodeNr then r.q i else 0), (if i ≤ r.nodeNr then r.valueInt i else 0)) =
        r.respelled i := by
    intro i _ hin
    rw [if_pos hin, if_pos hin]
    rfl
  constructor
  · intro hholds
    refine ⟨by omega, ?_, ?_⟩
    · rw [hr.comparator]
      exact (BinHeap.isHeap_congr hentry).mp hholds.heap
    · exact (BinHeap.held_congr hentry).symm.trans hholds.held
  · intro hspells
    refine ⟨hr.comparator, hr.flags, Nat.le_of_lt hroom, rfl,
      (BinHeap.isHeap_congr hentry).mpr ?_, ?_⟩
    · rw [← hr.comparator]
      exact hspells.heap
    · exact (BinHeap.held_congr hentry).trans hspells.held

/-- With values of four bytes a queue that shrinks asks for no more than one that does not, and that
every value but the one that goes out is its own priority. -/
theorem Removed.respells_iff_word {k : Nat} {r : Minpq α} (hfour : Node.nodesize α = 4)
    (h : Holds cmp flags q s) (hr : Removed cmp flags s q k r) :
    r.Respells ↔ q.InPlace k ∧ ∀ rest, s = q.entry k ::ₘ rest → ∀ e ∈ rest, e.2 = word e.1 := by
  have hfits := h.fits
  have hnode := hr.nodeNr
  have hslots : r.nodeNr < r.slots := by
    rw [hr.slots, h.slots]
    omega
  rw [Minpq.respells_iff_word hfour hslots, hr.comparator, hr.heap]
  refine and_congr_right fun _ => ⟨fun hword rest hs => ?_, fun hword => hword _ hr.held⟩
  rw [hr.held, Multiset.cons_inj_right] at hs
  rwa [← hs]

/-! ### Any index -/

theorem del_eq {k : Nat} (hk : 0 < k) (hne : q.empty = false) : q.del k =
    (q.removeNode k hk).shrink.map fun r =>
      (.etOk, some (q.entry k), { r with q := Function.update r.q (r.nodeNr + 1) 0 }) := by
  rw [del, hne, if_neg Bool.false_ne_true, dif_pos hk]
  cases (q.removeNode k hk).shrink <;> rfl

/-- An element that is held goes out as it should exactly where the last one may take its place,
and the values of a queue that shrinks spell the priorities. -/
theorem Holds.del_iff (hgt : BinHeap.TotalPreorder (order cmp)) (h : Holds cmp flags q s)
    {k : Nat} (hk : 0 < k) (hkn : k ≤ q.nodeNr) :
    (∃ q' rest, q.del k = some (.etOk, some (q.entry k), q') ∧ s = q.entry k ::ₘ rest ∧
      Holds cmp flags q' rest) ↔
      if q.ShrinksNext then (q.removeNode k hk).Respells else q.InPlace k := by
  have hr := h.removeNode hgt hk hkn
  have hne : q.empty = false := by
    rw [empty, beq_eq_false_iff_ne]
    omega
  have hgoes : (∃ q' rest, q.del k = some (.etOk, some (q.entry k), q') ∧
      s = q.entry k ::ₘ rest ∧ Holds cmp flags q' rest) ↔
      ∃ r', (q.removeNode k hk).shrink = some r' ∧
        Holds cmp flags r' (BinHeap.held (q.removeNode k hk).nodeNr (q.removeNode k hk).entry) := by
    rw [del_eq hk hne]
    constructor
    · rintro ⟨q', rest, hdel, hs, hholds⟩
      obtain ⟨r', hshrink, heq⟩ := Option.map_eq_some_iff.mp hdel
      rw [hr.held, Multiset.cons_inj_right] at hs
      simp only [Prod.mk.injEq, true_and] at heq
      rw [← heq, holds_clear_iff, ← hs] at hholds
      exact ⟨r', hshrink, hholds⟩
    · rintro ⟨r', hshrink, hholds⟩
      exact ⟨_, _, by rw [hshrink]; rfl, hr.held, (holds_clear_iff 0).mpr hholds⟩
  rw [hgoes]
  split
  · rename_i hnext
    exact hr.respells_iff h hnext
  · rename_i hstays
    rw [hr.shrink_eq h, if_neg hstays]
    simp only [Option.some.injEq, exists_eq_left']
    exact hr.inPlace_iff h

theorem Holds.mayDelete_iff_word (hgt : BinHeap.TotalPreorder (order cmp))
    (h : Holds cmp flags q s) (hfour : Node.nodesize α = 4) (index : Int) :
    q.MayDelete index ↔ (q.nodeNr ≠ 0 → 0 < index.toNat → index ≤ q.nodeNr ∧
      q.InPlace index.toNat ∧ (q.ShrinksNext → ∀ rest, s = q.entry index.toNat ::ₘ rest →
        ∀ e ∈ rest, e.2 = word e.1)) := by
  refine forall_congr' fun _ => forall_congr' fun hpos => and_congr_right fun hin => ?_
  have hr := h.removeNode hgt hpos (show index.toNat ≤ q.nodeNr by omega)
  by_cases hnext : q.ShrinksNext
  · rw [if_pos hnext, hr.respells_iff_word hfour h]
    exact and_congr_right fun _ => ⟨fun hword _ => hword, fun hword => hword hnext⟩
  · rw [if_neg hnext]
    exact (and_iff_left fun hshrinks => absurd hshrinks hnext).symm

/-- Six words that are their own priorities; the last one, below 2, comes before the 10 of the
other side. -/
def sixWords : Minpq UInt32 :=
  { nodeNr := 6
    capacity := 8
    slots := 9
    p := fun i => [0, 1, 10, 2, 11, 12, 3].getD i 0
    q := fun i => [0, 1, 10, 2, 11, 12, 3].getD i 0
    flags := 0
    comparator := none }

theorem sixWords_holds :
    Holds none 0 sixWords (BinHeap.held sixWords.nodeNr sixWords.entry) := by
  refine ⟨rfl, rfl, by decide, rfl, fun i hi hin => ?_, rfl⟩
  have hall : ∀ i, i ≤ 6 → 2 ≤ i →
      order none (sixWords.entry (i / 2)) (sixWords.entry i) = false := by decide
  exact hall i hin hi

end Awoke.Minpq
