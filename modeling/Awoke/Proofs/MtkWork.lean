/-
What the queue of works holds.

`awoke_minpq_del` lets the node it puts in the place of the deleted one sink, but never
swim, so after a deletion the nodes need not be a heap any more.  What can still be said
is which works are there: `Minpq.Contains` is what `Minpq.Bounded` is without the order, and
it is kept by every operation.  `Works` then looks at the callbacks alone, which fill a
bag of eight.
-/
import Awoke.Mtk.Work
import Awoke.Proofs.Minpq

namespace Awoke

namespace Minpq

variable {α : Type} {capacity : Nat} {q : Minpq α} {s : Multiset (α × Int32)}

/-- A queue of fixed capacity, and what it holds. -/
structure Contains (capacity : Nat) (q : Minpq α) (s : Multiset (α × Int32)) : Prop where
  capacity_eq : q.capacity = capacity
  fixed : maskExst q.flags flagRES = false
  fits : q.nodeNr ≤ capacity
  held : BinHeap.held q.nodeNr q.entry = s

theorem Bounded.contains {cmp : Option (α → α → Bool)} {flags : BitVec 16}
    (h : Bounded capacity cmp flags q s) : Contains capacity q s :=
  ⟨h.capacity_eq, h.fixed, h.capacity_eq ▸ h.fits, h.held⟩

theorem Contains.card_eq (h : Contains capacity q s) : s.card = q.nodeNr := by
  rw [← h.held, BinHeap.card_held]

theorem Contains.empty_iff (h : Contains capacity q s) : q.empty = true ↔ s = 0 := by
  rw [empty, beq_iff_eq, ← h.card_eq, Multiset.card_eq_zero]

theorem Contains.congr (h : Contains capacity q s) {q' : Minpq α} (hcap : q'.capacity = q.capacity)
    (hflags : q'.flags = q.flags) (hnode : q'.nodeNr = q.nodeNr)
    (hentry : ∀ i, 1 ≤ i → i ≤ q.nodeNr → q'.entry i = q.entry i) : Contains capacity q' s := by
  refine ⟨hcap.trans h.capacity_eq, by rw [hflags]; exact h.fixed, hnode ▸ h.fits, ?_⟩
  rw [hnode, BinHeap.held_congr hentry]
  exact h.held

variable [Node α]

/-- A queue with room takes a pair. -/
theorem Contains.insert (h : Contains capacity q s) (hroom : s.card < capacity) (u : α)
    (p : Int32) :
    ∃ q', q.insert u p = some (.etOk, q') ∧ Contains capacity q' ((u, p) ::ₘ s) := by
  have hcard := h.card_eq
  have hfull : q.full = false := by
    rw [full, beq_eq_false_iff_ne, h.capacity_eq]
    omega
  refine ⟨q.store u p, by simp [Minpq.insert, makeRoom, hfull], ?_⟩
  rw [store_eq]
  refine ⟨h.capacity_eq, h.fixed, ?_, ?_⟩
  · show q.nodeNr + 1 ≤ capacity
    omega
  · show BinHeap.held (q.nodeNr + 1) (BinHeap.swim _ _ _) = _
    rw [BinHeap.held_swim _ (Nat.succ_pos _) (Nat.le_refl _), BinHeap.held_succ,
      Function.update_self, ← h.held]
    congr 1
    refine BinHeap.held_congr fun i _ hi => ?_
    rw [Function.update_of_ne (by omega)]

theorem Contains.insert_full (h : Contains capacity q s) (hfull : s.card = capacity) (u : α)
    (p : Int32) : q.insert u p = some (.etFull, q) := by
  refine Minpq.insert_full ?_ h.fixed u p
  rw [full, beq_iff_eq, h.capacity_eq, ← h.card_eq, hfull]

/-- The queue with a zero written behind its last value. -/
def clearLast (q : Minpq α) : Minpq α :=
  { q with q := Function.update q.q (q.nodeNr + 1) 0 }

/-- `awoke_minpq_del` takes out the pair at its index. -/
theorem Contains.del (h : Contains capacity q s) {i : Nat} (hi : 1 ≤ i) (hin : i ≤ q.nodeNr) :
    ∃ q' rest, q.del i = some (.etOk, some (q.entry i), q') ∧ s = q.entry i ::ₘ rest ∧
      Contains capacity q' rest := by
  obtain ⟨n, hn⟩ : ∃ n, q.nodeNr = n + 1 := ⟨q.nodeNr - 1, by omega⟩
  have hempty : q.empty = false := by
    rw [empty, beq_eq_false_iff_ne]
    omega
  have htake : q.takeNode i hi = ({ q with nodeNr := n } : Minpq α).withEntries
      (BinHeap.sink (order q.comparator) n (Function.update q.entry i (q.entry (n + 1))) i hi) := by
    rw [takeNode, sink_eq, setNode_eq, hn]
    rfl
  have hpq : Contains capacity (q.takeNode i hi)
      (BinHeap.held n (Function.update q.entry i (q.entry (n + 1)))) := by
    rw [htake]
    refine ⟨h.capacity_eq, h.fixed, ?_, BinHeap.held_sink _ hi⟩
    have hfits := h.fits
    show n ≤ capacity
    omega
  have hremoved : Contains capacity (q.removeNode i hi) _ :=
    hpq.congr rfl rfl rfl fun k hk hkn =>
      Prod.ext rfl (Function.update_of_ne (Nat.ne_of_lt (Nat.lt_succ_of_le hkn)) _ _)
  have hclear : Contains capacity ((q.removeNode i hi).clearLast) _ :=
    hremoved.congr rfl rfl rfl fun k hk hkn =>
      Prod.ext (Function.update_of_ne (Nat.ne_of_lt (Nat.lt_succ_of_le hkn)) _ _) rfl
  have hshrink : (q.removeNode i hi).shrink = some (q.removeNode i hi) := by
    rw [shrink, if_neg (by simp [hremoved.fixed])]
  have hpos : 0 < i := hi
  refine ⟨_, _, by rw [Minpq.del, hempty, if_neg Bool.false_ne_true, dif_pos hpos, hshrink]; rfl,
    ?_, hclear⟩
  rw [← h.held, hn]
  exact BinHeap.held_replace hi (by omega)

/-- `awoke_minpq_delmin` is a deletion of the root. -/
theorem delmin_eq_del (q : Minpq α) : q.delmin = q.del 1 := by
  rw [delmin, del, dif_pos Nat.one_pos]
  rfl

end Minpq

namespace Mtk

/-! ### The works held -/

/-- The queue holds the works `ws`. -/
def Holding (pq : WorksPq) (ws : Multiset MtkWork) : Prop :=
  ∃ s, Minpq.Contains 8 pq s ∧ s.map Prod.fst = ws

variable {pq : WorksPq} {ws : Multiset MtkWork}

theorem Holding.card_le (h : Holding pq ws) : ws.card ≤ 8 := by
  obtain ⟨s, hpq, rfl⟩ := h
  rw [Multiset.card_map, hpq.card_eq]
  exact hpq.fits

theorem worksInit_holding : Holding worksInit 0 := by
  have h := Minpq.init_bounded (some workUsComparator) (by decide : 0 < 8)
    (by decide : maskExst (0 : BitVec 16) Minpq.flagRES = false)
  exact ⟨0, h.contains, rfl⟩

/-- **Scheduling** adds the work where there is room and changes nothing where not. -/
theorem Holding.schedule (h : Holding pq ws) (cb : Handle) (us now : UInt64) :
    (ws.card < 8 ∧ ∃ pq', mtkWorkSchedule pq cb us now = some (.etOk, pq') ∧
      Holding pq' ({ handle := cb, us := us + now } ::ₘ ws)) ∨
    (ws.card = 8 ∧ mtkWorkSchedule pq cb us now = some (.etFull, pq)) := by
  have hle := h.card_le
  obtain ⟨s, hpq, rfl⟩ := h
  rw [Multiset.card_map] at hle ⊢
  by_cases hfull : s.card = 8
  · exact .inr ⟨hfull, hpq.insert_full hfull _ _⟩
  · obtain ⟨pq', hins, h'⟩ := hpq.insert (by omega : s.card < 8) ⟨cb, us + now⟩ 0
    exact .inl ⟨by omega, pq', hins, _, h', Multiset.map_cons _ _ _⟩

/-- **Deleting** takes out a work with the callback, if there is one. -/
theorem Holding.delete (h : Holding pq ws) (cb : Handle) :
    ((∀ w ∈ ws, w.handle ≠ cb) ∧ mtkWorkDelete pq cb = some pq) ∨
      ∃ w rest pq', ws = w ::ₘ rest ∧ w.handle = cb ∧ mtkWorkDelete pq cb = some pq' ∧
        Holding pq' rest := by
  obtain ⟨s, hpq, rfl⟩ := h
  have hget (i : Nat) (hi : 1 ≤ i) (hin : i ≤ pq.nodeNr) :
      ((pq.get i).2.any fun u => u.1.handle == cb) = ((pq.q i).handle == cb) := by
    have hempty : pq.empty = false := by
      rw [Minpq.empty, beq_eq_false_iff_ne]
      omega
    simp [Minpq.get, hempty]
  unfold mtkWorkDelete
  cases hfind : (List.range' 1 pq.nodeNr).find? fun i =>
      (pq.get i).2.any fun u => u.1.handle == cb with
  | none =>
      refine .inl ⟨fun w hw hcb => ?_, rfl⟩
      obtain ⟨e, he, rfl⟩ := Multiset.mem_map.mp hw
      rw [← hpq.held] at he
      obtain ⟨i, hi, hin, rfl⟩ := BinHeap.mem_held.mp he
      have hno := List.find?_eq_none.mp hfind i (by rw [List.mem_range'_1]; omega)
      rw [hget i hi hin] at hno
      exact hno (beq_iff_eq.mpr hcb)
  | some i =>
      have hrange := List.mem_of_find?_eq_some hfind
      rw [List.mem_range'_1] at hrange
      have hcb := List.find?_some hfind
      rw [hget i hrange.1 (by omega), beq_iff_eq] at hcb
      obtain ⟨pq', rest, hdel, hs, h'⟩ := hpq.del hrange.1 (by omega)
      refine .inr ⟨pq.q i, rest.map Prod.fst, pq', ?_, hcb, by simp [hdel], rest, h', rfl⟩
      rw [hs, Multiset.map_cons]
      rfl

/-- **Serving** takes out a work that is due, or none where one is not. -/
theorem Holding.service (h : Holding pq ws) (nowus : UInt64) :
    ((∀ w ∈ ws, w.us ≤ nowus) → ws = 0) ∧ mtkServiceWork pq nowus = some (none, pq) ∨
      ∃ w rest pq', ws = w ::ₘ rest ∧ mtkServiceWork pq nowus = some (some w.handle, pq') ∧
        Holding pq' rest := by
  obtain ⟨s, hpq, rfl⟩ := h
  by_cases hempty : pq.empty = true
  · refine .inl ⟨fun _ => ?_, by simp [mtkServiceWork, Minpq.get, hempty]⟩
    rw [hpq.empty_iff.mp hempty, Multiset.map_zero]
  rw [Bool.not_eq_true] at hempty
  have hpos : 1 ≤ pq.nodeNr := by
    rw [Minpq.empty, beq_eq_false_iff_ne] at hempty
    omega
  have hget : pq.get 1 = (.etOk, some (pq.q 1, pq.p 1)) := by rw [Minpq.get, hempty]; rfl
  obtain ⟨pq', rest, hdel, hs, h'⟩ := hpq.del (Nat.le_refl 1) hpos
  by_cases hdue : nowus < (pq.q 1).us
  · refine .inl ⟨fun hall => ?_, by simp [mtkServiceWork, hget, hdue]⟩
    have hmem : pq.q 1 ∈ s.map Prod.fst := by
      rw [hs, Multiset.map_cons]
      exact Multiset.mem_cons_self _ _
    exact absurd (hall _ hmem) (UInt64.not_le.mpr hdue)
  · refine .inr ⟨pq.q 1, rest.map Prod.fst, pq', ?_, ?_, rest, h', rfl⟩
    · rw [hs, Multiset.map_cons]
      rfl
    · simp only [mtkServiceWork, hget, if_neg hdue, Minpq.delmin_eq_del, hdel, Option.map_some]
      rfl

/-! ### The callbacks pending -/

/-- The queue holds works with the callbacks `hs`. -/
def Works (pq : WorksPq) (hs : Multiset Handle) : Prop :=
  ∃ ws, Holding pq ws ∧ ws.map MtkWork.handle = hs

/-- A queue of eight takes a callback where there is room. -/
def add (cb : Handle) (hs : Multiset Handle) : Multiset Handle :=
  if hs.card < 8 then cb ::ₘ hs else hs

/-- The code that says whether it does. -/
def addCode (hs : Multiset Handle) : ErrType := if hs.card < 8 then .etOk else .etFull

variable {hs : Multiset Handle}

theorem Works.card_le (h : Works pq hs) : hs.card ≤ 8 := by
  obtain ⟨ws, hws, rfl⟩ := h
  rw [Multiset.card_map]
  exact hws.card_le

theorem Works.schedule (h : Works pq hs) (cb : Handle) (us now : UInt64) :
    ∃ pq', mtkWorkSchedule pq cb us now = some (addCode hs, pq') ∧ Works pq' (add cb hs) := by
  obtain ⟨ws, hws, rfl⟩ := h
  unfold addCode add
  rw [Multiset.card_map]
  rcases hws.schedule cb us now with ⟨hroom, pq', hins, h'⟩ | ⟨hfull, hins⟩
  · rw [if_pos hroom, if_pos hroom]
    exact ⟨pq', hins, _, h', Multiset.map_cons _ _ _⟩
  · rw [if_neg (by omega), if_neg (by omega)]
    exact ⟨pq, hins, ws, hws, rfl⟩

theorem Works.delete (h : Works pq hs) (cb : Handle) :
    ∃ pq', mtkWorkDelete pq cb = some pq' ∧ Works pq' (hs.erase cb) := by
  obtain ⟨ws, hws, rfl⟩ := h
  rcases hws.delete cb with ⟨hno, hdel⟩ | ⟨w, rest, pq', rfl, hcb, hdel, h'⟩
  · refine ⟨pq, hdel, ws, hws, (Multiset.erase_of_notMem fun hmem => ?_).symm⟩
    obtain ⟨w, hw, hcb⟩ := Multiset.mem_map.mp hmem
    exact hno w hw hcb
  · refine ⟨pq', hdel, rest, h', ?_⟩
    rw [Multiset.map_cons, hcb, Multiset.erase_cons_head]

theorem Works.service (h : Works pq hs) (nowus : UInt64) :
    mtkServiceWork pq nowus = some (none, pq) ∨
      ∃ cb rest pq', hs = cb ::ₘ rest ∧ mtkServiceWork pq nowus = some (some cb, pq') ∧
        Works pq' rest := by
  obtain ⟨ws, hws, rfl⟩ := h
  rcases hws.service nowus with ⟨-, hnone⟩ | ⟨w, rest, pq', rfl, hsome, h'⟩
  · exact .inl hnone
  · exact .inr ⟨w.handle, _, pq', Multiset.map_cons _ _ _, hsome, rest, h', rfl⟩

/-- The callbacks pending in a queue. -/
def pendingHandles (pq : WorksPq) : Multiset Handle :=
  (BinHeap.held pq.nodeNr pq.entry).map fun e => e.1.handle

theorem Works.eq (h : Works pq hs) : pendingHandles pq = hs := by
  obtain ⟨ws, ⟨s, hpq, rfl⟩, rfl⟩ := h
  rw [pendingHandles, hpq.held, Multiset.map_map]
  rfl

/-! ### The bag of eight -/

theorem add_room {cb : Handle} (h : hs.card < 8) : add cb hs = cb ::ₘ hs := if_pos h

theorem addCode_room (h : hs.card < 8) : addCode hs = .etOk := if_pos h

theorem addCode_full (h : ¬hs.card < 8) : addCode hs = .etFull := if_neg h

theorem subset_add (cb : Handle) (hs : Multiset Handle) : hs ⊆ add cb hs := by
  unfold add
  split
  · exact Multiset.subset_cons hs cb
  · exact Multiset.Subset.refl hs

theorem count_add_of_ne {cb cb' : Handle} (hne : cb' ≠ cb) (hs : Multiset Handle) :
    (add cb hs).count cb' = hs.count cb' := by
  unfold add
  split
  · exact Multiset.count_cons_of_ne hne hs
  · rfl

theorem count_add_self (cb : Handle) (hs : Multiset Handle) :
    (add cb hs).count cb = if hs.card < 8 then hs.count cb + 1 else hs.count cb := by
  unfold add
  split
  · exact Multiset.count_cons_self cb hs
  · rfl

end Mtk

end Awoke
