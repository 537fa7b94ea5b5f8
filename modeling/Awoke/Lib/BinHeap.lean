/-
A binary min-heap in an array that counts from one.

The children of position `k` are `2k` and `2k + 1`.  The order is given as a
comparison `gt`, read "comes after", and nothing is assumed of it beyond a total
preorder, so elements that neither comes after the other stay distinguishable.

The two repairs are stated from the heap with one flaw they start in.  `UpOrder`
allows the element at `k` to come before its parent, `DownOrder` allows it to come
after its children; both ask that the elements around `k` are in order with `k`
left out.  Each turn of a repair moves the flaw one level and keeps the rest, and
where it stops there is no flaw.

What is held does not depend on the shape: `held` is the multiset of positions
`1 .. n`, and a repair only exchanges two of them at a time.
-/
import Mathlib.Algebra.Order.Group.Nat
import Mathlib.Data.Multiset.MapFold
import Mathlib.Data.UInt
import Mathlib.Logic.Equiv.Basic
import Mathlib.Order.Interval.Finset.Nat
import Mathlib.Tactic.Ring

namespace BinHeap

variable {β : Type*}

/-- `gt a b` says `a` comes strictly after `b`; "not after" is a total preorder. -/
structure TotalPreorder (gt : β → β → Bool) : Prop where
  total : ∀ a b, gt a b = false ∨ gt b a = false
  trans : ∀ a b c, gt a b = false → gt b c = false → gt a c = false

theorem TotalPreorder.refl {gt : β → β → Bool} (h : TotalPreorder gt) (a : β) : gt a a = false :=
  (h.total a a).elim id id

/-- What comes after something is not before it. -/
theorem TotalPreorder.le_of_gt {gt : β → β → Bool} (h : TotalPreorder gt) {a b : β}
    (hgt : gt a b = true) : gt b a = false := by
  rcases h.total a b with hab | hba
  · rw [hab] at hgt
    exact absurd hgt (by simp)
  · exact hba

/-- A preorder on a component is one on the whole. -/
theorem TotalPreorder.comp {γ : Type*} {gt : β → β → Bool} (h : TotalPreorder gt) (f : γ → β) :
    TotalPreorder fun x y => gt (f x) (f y) :=
  ⟨fun a b => h.total (f a) (f b), fun a b c => h.trans (f a) (f b) (f c)⟩

/-! ### The operations -/

/-- Exchange two positions. -/
def swap (a : Nat → β) (i j : Nat) : Nat → β := a ∘ Equiv.swap i j

@[simp] theorem swap_left (a : Nat → β) (i j : Nat) : swap a i j i = a j := by simp [swap]

@[simp] theorem swap_right (a : Nat → β) (i j : Nat) : swap a i j j = a i := by simp [swap]

theorem swap_other (a : Nat → β) {i j k : Nat} (hi : k ≠ i) (hj : k ≠ j) : swap a i j k = a k := by
  rw [swap, Function.comp_apply, Equiv.swap_apply_of_ne_of_ne hi hj]

variable (gt : β → β → Bool)

/-- Move the element at `k` up past every parent that comes after it. -/
def swim (a : Nat → β) (k : Nat) : Nat → β :=
  if 1 < k ∧ gt (a (k / 2)) (a k) = true then swim (swap a k (k / 2)) (k / 2) else a
termination_by k

/-- The first of the children of `k`, when `2k` is one of `n` positions. -/
def child (n : Nat) (a : Nat → β) (k : Nat) : Nat :=
  if 2 * k < n ∧ gt (a (2 * k)) (a (2 * k + 1)) = true then 2 * k + 1 else 2 * k

theorem child_cases (n : Nat) (a : Nat → β) (k : Nat) :
    child gt n a k = 2 * k ∨ child gt n a k = 2 * k + 1 ∧ 2 * k < n := by
  unfold child
  split
  · rename_i h
    exact .inr ⟨rfl, h.1⟩
  · exact .inl rfl

/-- Move the element at `k` down past every child that comes before it. -/
def sink (n : Nat) (a : Nat → β) (k : Nat) (hk : 0 < k) : Nat → β :=
  if 2 * k ≤ n then
    if gt (a k) (a (child gt n a k)) = true then
      sink n (swap a k (child gt n a k)) (child gt n a k)
        (by rcases child_cases gt n a k with h | h <;> omega)
    else a
  else a
termination_by n - k
decreasing_by rcases child_cases gt n a k with h | h <;> omega

/-- Every element but the root is not before its parent. -/
def IsHeap (n : Nat) (a : Nat → β) : Prop :=
  ∀ i, 2 ≤ i → i ≤ n → gt (a (i / 2)) (a i) = false

/-- Only the elements that are held matter. -/
theorem isHeap_congr {gt : β → β → Bool} {n : Nat} {a a' : Nat → β}
    (h : ∀ i, 1 ≤ i → i ≤ n → a i = a' i) : IsHeap gt n a ↔ IsHeap gt n a' := by
  refine forall_congr' fun i => forall_congr' fun hi => forall_congr' fun hin => ?_
  rw [h i (by omega) hin, h (i / 2) (by omega) (by omega)]

/-! ### Order -/

/-- A heap but for the element at `k`, which may come before its parent. -/
structure UpOrder (n : Nat) (a : Nat → β) (k : Nat) : Prop where
  except : ∀ i, 2 ≤ i → i ≤ n → i ≠ k → gt (a (i / 2)) (a i) = false
  around : ∀ i, 2 ≤ k → i ≤ n → i / 2 = k → gt (a (k / 2)) (a i) = false

/-- A heap but for the element at `k`, which may come after its children. -/
structure DownOrder (n : Nat) (a : Nat → β) (k : Nat) : Prop where
  except : ∀ i, 2 ≤ i → i ≤ n → i / 2 ≠ k → gt (a (i / 2)) (a i) = false
  around : ∀ i, 2 ≤ k → i ≤ n → i / 2 = k → gt (a (k / 2)) (a i) = false

variable {gt} {n k : Nat} {a : Nat → β}

/-- One turn of `swim`: the flaw moves to the parent. -/
theorem UpOrder.move (hgt : TotalPreorder gt) (h : UpOrder gt n a k) (hk : 1 < k) (hkn : k ≤ n)
    (hafter : gt (a (k / 2)) (a k) = true) : UpOrder gt n (swap a k (k / 2)) (k / 2) := by
  refine ⟨?_, ?_⟩
  · intro i hi hin hne
    by_cases hik : i = k
    · subst hik
      rw [swap_right, swap_left]
      exact hgt.le_of_gt hafter
    rw [swap_other a hik hne]
    by_cases hpk : i / 2 = k
    · rw [hpk, swap_left]
      exact h.around i (by omega) hin hpk
    by_cases hpp : i / 2 = k / 2
    · -- The sibling of `k`: it was not before the parent, so it is not before `k`.
      rw [hpp, swap_right]
      have hsibling := h.except i hi hin hik
      rw [hpp] at hsibling
      exact hgt.trans _ _ _ (hgt.le_of_gt hafter) hsibling
    · rw [swap_other a hpk hpp]
      exact h.except i hi hin hik
  · intro i hp hin hparent
    have hup := h.except (k / 2) hp (by omega) (by omega)
    rw [swap_other a (by omega) (by omega)]
    by_cases hik : i = k
    · rw [hik, swap_left]
      exact hup
    · rw [swap_other a hik (by omega)]
      have hdown := h.except i (by omega) hin hik
      rw [hparent] at hdown
      exact hgt.trans _ _ _ hup hdown

/-- **`swim` repairs a heap that is flawed upwards.** -/
theorem UpOrder.swim (hgt : TotalPreorder gt) (h : UpOrder gt n a k) (hkn : k ≤ n) :
    IsHeap gt n (swim gt a k) := by
  induction k using Nat.strong_induction_on generalizing a with
  | _ k ih =>
      rw [BinHeap.swim]
      split
      · rename_i hcond
        exact ih (k / 2) (by omega) (h.move hgt hcond.1 hkn hcond.2) (by omega)
      · rename_i hstop
        intro i hi hin
        by_cases hik : i = k
        · subst hik
          exact Bool.eq_false_iff.mpr fun hafter => hstop ⟨by omega, hafter⟩
        · exact h.except i hi hin hik

/-- The first child comes after neither child. -/
theorem child_min (hgt : TotalPreorder gt) {i : Nat} (hin : i ≤ n) (hi : i / 2 = k) :
    gt (a (child gt n a k)) (a i) = false := by
  have hcases : i = 2 * k ∨ i = 2 * k + 1 := by omega
  unfold child
  split
  · rename_i hright
    rcases hcases with rfl | rfl
    · exact hgt.le_of_gt hright.2
    · exact hgt.refl _
  · rename_i hleft
    rcases hcases with rfl | rfl
    · exact hgt.refl _
    · exact Bool.eq_false_iff.mpr fun hafter => hleft ⟨by omega, hafter⟩

/-- One turn of `sink`: the flaw moves to the first child. -/
theorem DownOrder.move (hgt : TotalPreorder gt) (h : DownOrder gt n a k) (hk : 0 < k)
    {j : Nat} (hj : j = 2 * k ∨ j = 2 * k + 1) (hjn : j ≤ n)
    (hmin : ∀ i, i ≤ n → i / 2 = k → gt (a j) (a i) = false)
    (hafter : gt (a k) (a j) = true) : DownOrder gt n (swap a k j) j := by
  have hparent : j / 2 = k := by omega
  refine ⟨?_, ?_⟩
  · intro i hi hin hne
    by_cases hij : i = j
    · subst hij
      rw [hparent, swap_left, swap_right]
      exact hgt.le_of_gt hafter
    by_cases hik : i = k
    · subst hik
      rw [swap_left, swap_other a (by omega) hne]
      exact h.around j hi hjn hparent
    rw [swap_other a hik hij]
    by_cases hpk : i / 2 = k
    · rw [hpk, swap_left]
      exact hmin i hin hpk
    · rw [swap_other a hpk hne]
      exact h.except i hi hin hpk
  · intro i _ hin hi
    rw [hparent, swap_left, swap_other a (by omega) (by omega)]
    have hdown := h.except i (by omega) hin (by omega)
    rwa [hi] at hdown

/-- **`sink` repairs a heap that is flawed downwards.** -/
theorem DownOrder.sink (hgt : TotalPreorder gt) (hk : 0 < k) (h : DownOrder gt n a k) :
    IsHeap gt n (sink gt n a k hk) := by
  induction hd : n - k using Nat.strong_induction_on generalizing a k with
  | _ d ih =>
      have hchild := child_cases gt n a k
      rw [BinHeap.sink]
      split
      · rename_i hle
        split
        · rename_i hafter
          have hmove := h.move hgt hk (by omega) (by omega) (fun i => child_min hgt) hafter
          exact ih _ (by omega) (by omega) hmove rfl
        · rename_i hstop
          intro i hi hin
          by_cases hpk : i / 2 = k
          · rw [hpk]
            exact hgt.trans _ _ _ (Bool.eq_false_iff.mpr hstop) (child_min hgt hin hpk)
          · exact h.except i hi hin hpk
      · intro i hi hin
        exact h.except i hi hin (by omega)

/-- The root comes after nothing that is held. -/
theorem IsHeap.root_min (hgt : TotalPreorder gt) (h : IsHeap gt n a) :
    ∀ i, 1 ≤ i → i ≤ n → gt (a 1) (a i) = false := by
  intro i
  induction i using Nat.strong_induction_on with
  | _ i ih =>
      intro hi hin
      by_cases h1 : i = 1
      · rw [h1]
        exact hgt.refl _
      · exact hgt.trans _ _ _ (ih (i / 2) (by omega) (by omega) (by omega)) (h i (by omega) hin)

/-! ### What is held -/

/-- The elements at positions `1 .. n`. -/
def held (n : Nat) (a : Nat → β) : Multiset β := (Finset.Icc 1 n).val.map a

@[simp] theorem card_held (n : Nat) (a : Nat → β) : (held n a).card = n := by simp [held]

theorem held_congr {a' : Nat → β} (h : ∀ i, 1 ≤ i → i ≤ n → a i = a' i) :
    held n a = held n a' := by
  refine Multiset.map_congr rfl fun i hi => ?_
  have hrange := Finset.mem_Icc.mp (Finset.mem_val.mp hi)
  exact h i hrange.1 hrange.2

theorem mem_held {x : β} : x ∈ held n a ↔ ∃ i, 1 ≤ i ∧ i ≤ n ∧ a i = x := by
  simp [held, and_assoc]

theorem held_succ (n : Nat) (a : Nat → β) : held (n + 1) a = a (n + 1) ::ₘ held n a := by
  have hsplit : Finset.Icc 1 (n + 1) = Finset.cons (n + 1) (Finset.Icc 1 n) (by simp) := by
    ext i
    simp only [Finset.mem_Icc, Finset.mem_cons]
    omega
  rw [held, hsplit, Finset.cons_val, Multiset.map_cons, held]

/-- Exchanging two held elements holds the same. -/
theorem held_swap {i j : Nat} (hi : 1 ≤ i ∧ i ≤ n) (hj : 1 ≤ j ∧ j ≤ n) :
    held n (swap a i j) = held n a := by
  have hperm : (Finset.Icc 1 n).map (Equiv.swap i j).toEmbedding = Finset.Icc 1 n := by
    refine Finset.map_perm ?_
    intro x hx
    by_contra hout
    have hxi : x ≠ i := by
      rintro rfl
      exact hout (Finset.mem_coe.mpr (Finset.mem_Icc.mpr hi))
    have hxj : x ≠ j := by
      rintro rfl
      exact hout (Finset.mem_coe.mpr (Finset.mem_Icc.mpr hj))
    exact hx (Equiv.swap_apply_of_ne_of_ne hxi hxj)
  have hval := congrArg (fun s : Finset Nat => s.val.map a) hperm
  simp only [Finset.map_val, Multiset.map_map] at hval
  exact hval

theorem held_swim (a : Nat → β) (hk : 1 ≤ k) (hkn : k ≤ n) :
    held n (swim gt a k) = held n a := by
  induction k using Nat.strong_induction_on generalizing a with
  | _ k ih =>
      rw [swim]
      split
      · rw [ih (k / 2) (by omega) _ (by omega) (by omega)]
        exact held_swap ⟨by omega, by omega⟩ ⟨by omega, by omega⟩
      · rfl

theorem held_sink (a : Nat → β) (hk : 0 < k) : held n (sink gt n a k hk) = held n a := by
  induction hd : n - k using Nat.strong_induction_on generalizing a k with
  | _ d ih =>
      have hchild := child_cases gt n a k
      rw [sink]
      split
      · split
        · rw [ih _ (by omega) _ _ rfl]
          exact held_swap ⟨by omega, by omega⟩ ⟨by omega, by omega⟩
        · rfl
      · rfl

/-! ### Adding an element and taking the root -/

/-- A new last element, moved up, is held with the rest in a heap. -/
theorem IsHeap.push (hgt : TotalPreorder gt) (h : IsHeap gt n a) (x : β) :
    IsHeap gt (n + 1) (swim gt (Function.update a (n + 1) x) (n + 1)) ∧
      held (n + 1) (swim gt (Function.update a (n + 1) x) (n + 1)) = x ::ₘ held n a := by
  refine ⟨?_, ?_⟩
  · refine UpOrder.swim hgt ⟨?_, fun i _ hin hi => absurd hi (by omega)⟩ (Nat.le_refl _)
    intro i hi hin hne
    rw [Function.update_of_ne (by omega), Function.update_of_ne hne]
    exact h i hi (by omega)
  · rw [held_swim _ (Nat.succ_pos n) (Nat.le_refl _), held_succ, Function.update_self]
    congr 1
    exact held_congr fun i _ hin => Function.update_of_ne (by omega) _ _

/-- The last element in the place of another holds the rest without that one. -/
theorem held_replace {i : Nat} (hi : 1 ≤ i) (hin : i ≤ n + 1) :
    held (n + 1) a = a i ::ₘ held n (Function.update a i (a (n + 1))) := by
  -- The two elements change places, and the last is left out.
  rw [← held_swap (i := i) (j := n + 1) ⟨hi, hin⟩ ⟨Nat.succ_pos n, Nat.le_refl _⟩, held_succ,
    swap_right]
  congr 1
  refine held_congr fun k hk hkn => ?_
  by_cases h1 : k = i
  · rw [h1, swap_left, Function.update_self]
  · rw [swap_other a h1 (by omega), Function.update_of_ne h1]

/-- The last element in the place of the root, moved down, leaves a heap of the rest. -/
theorem IsHeap.pop (hgt : TotalPreorder gt) (h : IsHeap gt (n + 1) a) :
    IsHeap gt n (sink gt n (Function.update a 1 (a (n + 1))) 1 Nat.one_pos) ∧
      held (n + 1) a =
        a 1 ::ₘ held n (sink gt n (Function.update a 1 (a (n + 1))) 1 Nat.one_pos) := by
  refine ⟨?_, ?_⟩
  · refine DownOrder.sink hgt Nat.one_pos ⟨?_, fun i hi => absurd hi (by omega)⟩
    intro i hi hin hne
    rw [Function.update_of_ne hne, Function.update_of_ne (by omega)]
    exact h i hi (by omega)
  · rw [held_sink]
    exact held_replace (Nat.le_refl _) (Nat.succ_pos n)

/-! ### Taking an element from the middle -/

/-- The last element in the place of another, moved down, leaves a heap unless it belongs above
that place: `sink` does not move it up. -/
theorem IsHeap.replace_iff (hgt : TotalPreorder gt) (h : IsHeap gt (n + 1) a) (hk : 0 < k)
    (hkn : k ≤ n + 1) :
    IsHeap gt n (BinHeap.sink gt n (Function.update a k (a (n + 1))) k hk) ↔
      k = n + 1 ∨ k = 1 ∨ gt (a (k / 2)) (a (n + 1)) = false := by
  by_cases hlast : k = n + 1
  · refine iff_of_true ?_ (.inl hlast)
    subst hlast
    rw [Function.update_eq_self, BinHeap.sink, if_neg (by omega)]
    exact fun i hi hin => h i hi (by omega)
  rw [or_iff_right hlast]
  constructor
  · intro hheap
    by_contra hup
    obtain ⟨hne, hafter⟩ := not_or.mp hup
    rw [Bool.not_eq_false] at hafter
    have hk2 : 2 ≤ k := by omega
    -- the new element is before the parent, so before the children: `sink` leaves it there
    have hstays : ∀ i, i ≤ n → i / 2 = k → gt (a (n + 1)) (a i) = false := by
      intro i hin hi
      have hdown := h i (by omega) (by omega)
      rw [hi] at hdown
      exact hgt.trans _ _ _ (hgt.trans _ _ _ (hgt.le_of_gt hafter) (h k hk2 hkn)) hdown
    have hsink : BinHeap.sink gt n (Function.update a k (a (n + 1))) k hk =
        Function.update a k (a (n + 1)) := by
      have hchild := child_cases gt n (Function.update a k (a (n + 1))) k
      rw [BinHeap.sink]
      split
      · refine if_neg ?_
        rw [Function.update_self, Function.update_of_ne (by omega), Bool.not_eq_true]
        exact hstays _ (by omega) (by omega)
      · rfl
    rw [hsink] at hheap
    have hat := hheap k hk2 (by omega)
    rw [Function.update_self, Function.update_of_ne (by omega), hafter] at hat
    cases hat
  · intro hup
    refine DownOrder.sink hgt hk ⟨fun i hi hin hne => ?_, fun i hk2 hin hi => ?_⟩
    · rw [Function.update_of_ne hne]
      by_cases hik : i = k
      · rw [hik, Function.update_self]
        exact hup.resolve_left (by omega)
      · rw [Function.update_of_ne hik]
        exact h i hi (by omega)
    · have hdown := h i (by omega) (by omega)
      rw [hi] at hdown
      rw [Function.update_of_ne (by omega), Function.update_of_ne (by omega)]
      exact hgt.trans _ _ _ (h k hk2 hkn) hdown

/-! ### Draining -/

/-- Take the elements out one by one, each a first one of what is left. -/
inductive Drains (gt : β → β → Bool) : Multiset β → List β → Prop
  | nil : Drains gt 0 []
  | cons {s : Multiset β} {x : β} {xs : List β} (hmin : ∀ y ∈ s, gt x y = false)
      (hrest : Drains gt s xs) : Drains gt (x ::ₘ s) (x :: xs)

/-- Nothing is lost or added on the way. -/
theorem Drains.perm {s : Multiset β} {xs : List β} (h : Drains gt s xs) :
    (xs : Multiset β) = s := by
  induction h with
  | nil => rfl
  | cons hmin hrest ih => rw [← ih, Multiset.cons_coe]

/-- **What comes out is in order.** -/
theorem Drains.sorted {s : Multiset β} {xs : List β} (h : Drains gt s xs) :
    xs.Pairwise fun x y => gt x y = false := by
  induction h with
  | nil => exact List.Pairwise.nil
  | cons hmin hrest ih =>
      refine List.Pairwise.cons (fun y hy => hmin y ?_) ih
      rw [← hrest.perm]
      exact hy

end BinHeap
