/-
Rings of links that run both ways.

Every node has a link to the next one and a link back, and either may be null.  A ring goes from
a head through the nodes of a list and back to the head; neighbours in it are joined, so it is a
chain whose two ends are the head.

A ring is opened between two neighbours.  What is put there and what is taken from there changes
the links of the neighbours and of the node itself; as long as no other link changes, the rest of
the ring stays as it is.
-/
import Mathlib.Data.List.Chain
import Mathlib.Data.List.Nodup
import Mathlib.Logic.Function.Basic
import Mathlib.Tactic.Common

/-- The links of every node. -/
structure Links (ν : Type*) where
  next : ν → Option ν
  prev : ν → Option ν

namespace Links

variable {ν : Type*}

/-! ### Writing -/

section Writing

variable [DecidableEq ν] (m : Links ν) (a b : ν) (v : Option ν)

/-- The link of `a` to the next node is written. -/
def setNext : Links ν := { m with next := Function.update m.next a v }

/-- The link of `a` back is written. -/
def setPrev : Links ν := { m with prev := Function.update m.prev a v }

@[simp] theorem setNext_prev : (m.setNext a v).prev = m.prev := rfl

@[simp] theorem setPrev_next : (m.setPrev a v).next = m.next := rfl

theorem setNext_next : (m.setNext a v).next b = if b = a then v else m.next b :=
  Function.update_apply ..

theorem setPrev_prev : (m.setPrev a v).prev b = if b = a then v else m.prev b :=
  Function.update_apply ..

end Writing

/-! ### Rings -/

/-- The link of `a` leads to `b`, and the one of `b` back. -/
def Joins (m : Links ν) (a b : ν) : Prop := m.next a = some b ∧ m.prev b = some a

/-- A ring from `h` through different nodes and back to `h`. -/
structure Ring (m : Links ν) (h : ν) (l : List ν) : Prop where
  chain : (h :: l ++ [h]).IsChain m.Joins
  nodup : (h :: l).Nodup

variable {m m' : Links ν} {h x p n : ν} {k r l : List ν}

theorem ring_nil_iff : m.Ring h [] ↔ m.Joins h h := by
  constructor
  · exact fun hring => List.isChain_pair.mp hring.chain
  · exact fun hjoins => ⟨List.isChain_pair.mpr hjoins, List.nodup_singleton h⟩

/-- The node in front of what comes behind `k`. -/
theorem getLast?_cons_eq : (h :: k).getLast? = some (k.getLastD h) := by
  rw [List.getLast?_cons, List.getLastD_eq_getLast?]

/-- The node behind what comes in front of `r`. -/
theorem head?_concat_eq : (r ++ [h]).head? = some (r.headD h) := by
  cases r <;> rfl

/-- A ring is two chains that are joined, wherever it is cut. -/
theorem ring_append_iff : m.Ring h (k ++ r) ↔
    (h :: k).IsChain m.Joins ∧ (r ++ [h]).IsChain m.Joins ∧
      m.Joins (k.getLastD h) (r.headD h) ∧ (h :: (k ++ r)).Nodup := by
  have hcut : h :: (k ++ r) ++ [h] = (h :: k) ++ (r ++ [h]) := by simp
  constructor
  · intro hring
    have hchain := hring.chain
    rw [hcut, List.isChain_append] at hchain
    exact ⟨hchain.1, hchain.2.1, hchain.2.2 _ getLast?_cons_eq _ head?_concat_eq, hring.nodup⟩
  · rintro ⟨hfront, hback, hjoins, hnodup⟩
    refine ⟨?_, hnodup⟩
    rw [hcut, List.isChain_append]
    refine ⟨hfront, hback, fun a ha b hb => ?_⟩
    rw [getLast?_cons_eq, Option.mem_some_iff] at ha
    rw [head?_concat_eq, Option.mem_some_iff] at hb
    rw [← ha, ← hb]
    exact hjoins

/-- Neighbours are joined. -/
theorem Ring.joins (hring : m.Ring h (k ++ r)) : m.Joins (k.getLastD h) (r.headD h) :=
  (ring_append_iff.mp hring).2.2.1

/-- A node and its two neighbours. -/
theorem Ring.joins_mid (hring : m.Ring h (k ++ x :: r)) :
    m.Joins (k.getLastD h) x ∧ m.Joins x (r.headD h) := by
  refine ⟨hring.joins, ?_⟩
  rw [List.append_cons] at hring
  have hjoins := hring.joins
  rw [List.getLastD_concat] at hjoins
  exact hjoins

/-- No node of the list is the head. -/
theorem Ring.ne_head (hring : m.Ring h (k ++ x :: r)) : x ≠ h := by
  rintro rfl
  exact (List.nodup_cons.mp hring.nodup).1 (List.mem_append_right k List.mem_cons_self)

theorem headD_mem : r.headD h ∈ h :: r := by
  cases r <;> simp

theorem getLastD_mem : k.getLastD h ∈ h :: k :=
  List.mem_of_getLast? getLast?_cons_eq

/-- Every node of a ring has a next one that it is joined to. -/
theorem Ring.exists_next (hring : m.Ring h l) {a : ν} (ha : a ∈ h :: l) :
    ∃ b ∈ h :: l, m.Joins a b := by
  rcases List.mem_cons.mp ha with rfl | ha
  · exact ⟨_, headD_mem, Ring.joins (k := []) hring⟩
  · obtain ⟨k, r, rfl⟩ := List.append_of_mem ha
    refine ⟨_, ?_, hring.joins_mid.2⟩
    have hmem := headD_mem (h := h) (r := r)
    rw [List.mem_cons] at hmem ⊢
    exact hmem.imp_right fun hr => List.mem_append_right _ (List.mem_cons_of_mem _ hr)

/-- And one before it. -/
theorem Ring.exists_prev (hring : m.Ring h l) {b : ν} (hb : b ∈ h :: l) :
    ∃ a ∈ h :: l, m.Joins a b := by
  rcases List.mem_cons.mp hb with rfl | hb
  · rw [← List.append_nil l] at hring
    exact ⟨_, getLastD_mem, hring.joins⟩
  · obtain ⟨k, r, rfl⟩ := List.append_of_mem hb
    refine ⟨_, ?_, hring.joins_mid.1⟩
    have hmem := getLastD_mem (h := h) (k := k)
    rw [List.mem_cons] at hmem ⊢
    exact hmem.imp_right fun hk => List.mem_append_left _ hk

/-- A head that is linked to itself has nothing else in its ring. -/
theorem Ring.next_head_iff (hring : m.Ring h l) : m.next h = some h ↔ l = [] := by
  have hnext := (Ring.joins (k := []) hring).1
  rw [List.getLastD_nil] at hnext
  rw [hnext, Option.some.injEq]
  cases l with
  | nil => exact iff_of_true rfl rfl
  | cons a l =>
      refine iff_of_false (fun hself => ?_) (List.cons_ne_nil a l)
      exact (List.nodup_cons.mp hring.nodup).1 (hself ▸ List.mem_cons_self)

/-! ### Opening a ring -/

/-- A chain is read off the links forward of all but its last node, and those back of all but its
first. -/
theorem chain_congr : ∀ {s : List ν}, (∀ a ∈ s.dropLast, m'.next a = m.next a) →
    (∀ b ∈ s.tail, m'.prev b = m.prev b) → s.IsChain m.Joins → s.IsChain m'.Joins := by
  intro s
  induction s with
  | nil => exact fun _ _ _ => .nil
  | cons a s ih =>
      intro hnext hprev hchain
      cases s with
      | nil => exact .singleton a
      | cons b s =>
          rw [List.isChain_cons_cons] at hchain ⊢
          obtain ⟨hjoins, hrest⟩ := hchain
          refine ⟨⟨?_, ?_⟩, ih (fun c hc => ?_) (fun c hc => ?_) hrest⟩
          · rw [hnext a List.mem_cons_self]
            exact hjoins.1
          · rw [hprev b List.mem_cons_self]
            exact hjoins.2
          · exact hnext c (List.mem_cons_of_mem a hc)
          · exact hprev c (List.mem_cons_of_mem b hc)

/-- No links but those between `p` and `n` and the ones of `x` are changed. -/
structure Away (m m' : Links ν) (p x n : ν) : Prop where
  next : ∀ a, a ≠ p → a ≠ x → m'.next a = m.next a
  prev : ∀ b, b ≠ n → b ≠ x → m'.prev b = m.prev b

/-- Such links leave the chain that ends with `p` as it is. -/
theorem Away.front (haway : Away m m' (k.getLastD h) x (r.headD h))
    (hnodup : (h :: (k ++ r)).Nodup) (hx : x ∉ h :: (k ++ r))
    (hchain : (h :: k).IsChain m.Joins) : (h :: k).IsChain m'.Joins := by
  have hmem : ∀ {a}, a ∈ h :: k → a ∈ h :: (k ++ r) := fun ha => List.mem_append_left r ha
  have hlast := List.dropLast_append_getLast? _ (getLast?_cons_eq (h := h) (k := k))
  refine chain_congr (fun a ha => haway.next a ?_ ?_) (fun b hb => haway.prev b ?_ ?_) hchain
  · rintro rfl
    have hfront : (h :: k).Nodup := by
      rw [← List.cons_append] at hnodup
      exact (List.nodup_append.mp hnodup).1
    rw [← hlast] at hfront
    exact (List.nodup_append.mp hfront).2.2 _ ha _ List.mem_cons_self rfl
  · rintro rfl
    exact hx (hmem (List.dropLast_subset _ ha))
  · rintro rfl
    have hk : r.headD h ∈ k := hb
    rcases List.mem_cons.mp (headD_mem (h := h) (r := r)) with hhead | hr
    · rw [hhead] at hk
      exact (List.nodup_cons.mp hnodup).1 (List.mem_append_left r hk)
    · exact (List.nodup_append.mp (List.nodup_cons.mp hnodup).2).2.2 _ hk _ hr rfl
  · rintro rfl
    exact hx (hmem (List.mem_cons_of_mem h hb))

/-- And the one that begins with `n`. -/
theorem Away.back (haway : Away m m' (k.getLastD h) x (r.headD h))
    (hnodup : (h :: (k ++ r)).Nodup) (hx : x ∉ h :: (k ++ r))
    (hchain : (r ++ [h]).IsChain m.Joins) : (r ++ [h]).IsChain m'.Joins := by
  have hmem : ∀ {a}, a ∈ r → a ∈ h :: (k ++ r) := fun ha =>
    List.mem_cons_of_mem h (List.mem_append_right k ha)
  refine chain_congr (fun a ha => ?_) (fun b hb => ?_) hchain
  · rw [List.dropLast_concat] at ha
    refine haway.next a ?_ fun hax => hx (hax ▸ hmem ha)
    rintro rfl
    rcases List.mem_cons.mp (getLastD_mem (h := h) (k := k)) with hlast | hk
    · rw [hlast] at ha
      exact (List.nodup_cons.mp hnodup).1 (List.mem_append_right k ha)
    · exact (List.nodup_append.mp (List.nodup_cons.mp hnodup).2).2.2 _ hk _ ha rfl
  · cases r with
    | nil => exact absurd hb List.not_mem_nil
    | cons n r =>
        replace hb : b ∈ r ++ [h] := hb
        have hr := (List.nodup_append.mp (List.nodup_cons.mp hnodup).2).2.1
        rcases List.mem_append.mp hb with hb | hb
        · refine haway.prev b ?_ fun hbx => hx (hbx ▸ hmem (List.mem_cons_of_mem n hb))
          rintro rfl
          exact (List.nodup_cons.mp hr).1 hb
        · obtain rfl := List.mem_singleton.mp hb
          refine haway.prev b ?_ fun hbx => hx (hbx ▸ List.mem_cons_self)
          rintro rfl
          exact (List.nodup_cons.mp hnodup).1 (List.mem_append_right k List.mem_cons_self)

/-- **A node is put between two neighbours.** -/
theorem Ring.insert (hring : m.Ring h (k ++ r)) (hp : k.getLastD h = p) (hn : r.headD h = n)
    (hx : x ∉ h :: (k ++ r)) (haway : Away m m' p x n) (hbefore : m'.Joins p x)
    (hafter : m'.Joins x n) : m'.Ring h (k ++ x :: r) := by
  subst hp hn
  obtain ⟨hfront, hback, -, hnodup⟩ := ring_append_iff.mp hring
  refine ring_append_iff.mpr ⟨haway.front hnodup hx hfront, ?_, hbefore, ?_⟩
  · rw [List.cons_append, List.isChain_cons]
    refine ⟨fun n hn => ?_, haway.back hnodup hx hback⟩
    rw [head?_concat_eq, Option.mem_some_iff] at hn
    exact hn ▸ hafter
  · rw [← List.cons_append] at hnodup hx ⊢
    exact List.nodup_middle.mpr (List.nodup_cons.mpr ⟨hx, hnodup⟩)

/-- **A node is taken from between its neighbours.** -/
theorem Ring.remove (hring : m.Ring h (k ++ x :: r)) (hp : k.getLastD h = p)
    (hn : r.headD h = n) (haway : Away m m' p x n) (hjoins : m'.Joins p n) :
    m'.Ring h (k ++ r) := by
  subst hp hn
  obtain ⟨hfront, hback, -, hnodup⟩ := ring_append_iff.mp hring
  rw [← List.cons_append] at hnodup
  obtain ⟨hx, hrest⟩ := List.nodup_cons.mp (List.nodup_middle.mp hnodup)
  rw [List.cons_append] at hback
  exact ring_append_iff.mpr
    ⟨haway.front hrest hx hfront, haway.back hrest hx hback.tail, hjoins, hrest⟩

/-! ### Links of the nodes alone

Where the links lie in memory, to change one of them may change what would be read as a link of
something that is no node.
-/

/-- A ring is read off the links of its nodes. -/
theorem Ring.congr (hring : m.Ring h l) (hnext : ∀ a ∈ h :: l, m'.next a = m.next a)
    (hprev : ∀ a ∈ h :: l, m'.prev a = m.prev a) : m'.Ring h l := by
  refine ⟨chain_congr (fun a ha => hnext a ?_) (fun b hb => hprev b ?_) hring.chain, hring.nodup⟩
  · rwa [List.dropLast_concat] at ha
  · rcases List.mem_append.mp hb with hb | hb
    · exact List.mem_cons_of_mem h hb
    · exact List.mem_singleton.mp hb ▸ List.mem_cons_self

section Nodes

variable [DecidableEq ν]

/-- The links of some nodes, with those of all others. -/
def onNodes (s : List ν) (m' m : Links ν) : Links ν where
  next a := if a ∈ s then m'.next a else m.next a
  prev a := if a ∈ s then m'.prev a else m.prev a

/-- **A node is put between two neighbours**, and no other node of the ring is changed. -/
theorem Ring.insert_of_mem (hring : m.Ring h (k ++ r)) (hp : k.getLastD h = p)
    (hn : r.headD h = n) (hx : x ∉ h :: (k ++ r))
    (hnext : ∀ a ∈ h :: (k ++ r), a ≠ p → m'.next a = m.next a)
    (hprev : ∀ a ∈ h :: (k ++ r), a ≠ n → m'.prev a = m.prev a) (hbefore : m'.Joins p x)
    (hafter : m'.Joins x n) : m'.Ring h (k ++ x :: r) := by
  have hnodes : ∀ {a}, a ∈ h :: (k ++ x :: r) → a = x ∨ a ∈ h :: (k ++ r) := by
    intro a ha
    simp only [List.mem_cons, List.mem_append] at ha ⊢
    tauto
  have hp' : p ∈ h :: (k ++ x :: r) := by
    have hmem := getLastD_mem (h := h) (k := k)
    rw [hp] at hmem
    simp only [List.mem_cons, List.mem_append] at hmem ⊢
    tauto
  have hn' : n ∈ h :: (k ++ x :: r) := by
    have hmem := headD_mem (h := h) (r := r)
    rw [hn] at hmem
    simp only [List.mem_cons, List.mem_append] at hmem ⊢
    tauto
  have hx' : x ∈ h :: (k ++ x :: r) := by simp
  have haway : Away m (onNodes (h :: (k ++ x :: r)) m' m) p x n := by
    constructor
    · intro a hap hax
      by_cases ha : a ∈ h :: (k ++ x :: r)
      · exact (if_pos ha).trans (hnext a ((hnodes ha).resolve_left hax) hap)
      · exact if_neg ha
    · intro b hbn hbx
      by_cases hb : b ∈ h :: (k ++ x :: r)
      · exact (if_pos hb).trans (hprev b ((hnodes hb).resolve_left hbx) hbn)
      · exact if_neg hb
  have hring' := hring.insert hp hn hx haway
    ⟨(if_pos hp').trans hbefore.1, (if_pos hx').trans hbefore.2⟩
    ⟨(if_pos hx').trans hafter.1, (if_pos hn').trans hafter.2⟩
  exact hring'.congr (fun a ha => (if_pos ha).symm) fun a ha => (if_pos ha).symm

/-- **A node is taken from between its neighbours**, and no other node of the ring is changed. -/
theorem Ring.remove_of_mem (hring : m.Ring h (k ++ x :: r)) (hp : k.getLastD h = p)
    (hn : r.headD h = n) (hnext : ∀ a ∈ h :: (k ++ r), a ≠ p → m'.next a = m.next a)
    (hprev : ∀ a ∈ h :: (k ++ r), a ≠ n → m'.prev a = m.prev a) (hjoins : m'.Joins p n) :
    m'.Ring h (k ++ r) := by
  have hp' : p ∈ h :: (k ++ r) := by
    have hmem := getLastD_mem (h := h) (k := k)
    rw [hp] at hmem
    exact List.mem_append_left r hmem
  have hn' : n ∈ h :: (k ++ r) := by
    have hmem := headD_mem (h := h) (r := r)
    rw [hn] at hmem
    simp only [List.mem_cons, List.mem_append] at hmem ⊢
    tauto
  have haway : Away m (onNodes (h :: (k ++ r)) m' m) p x n := by
    constructor
    · intro a hap _
      by_cases ha : a ∈ h :: (k ++ r)
      · exact (if_pos ha).trans (hnext a ha hap)
      · exact if_neg ha
    · intro b hbn _
      by_cases hb : b ∈ h :: (k ++ r)
      · exact (if_pos hb).trans (hprev b hb hbn)
      · exact if_neg hb
  have hring' := hring.remove hp hn haway ⟨(if_pos hp').trans hjoins.1, (if_pos hn').trans hjoins.2⟩
  exact hring'.congr (fun a ha => (if_pos ha).symm) fun a ha => (if_pos ha).symm

end Nodes

end Links
