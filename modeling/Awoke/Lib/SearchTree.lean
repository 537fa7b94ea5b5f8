/-
Search trees by a three-way comparison.

The comparison answers with a number whose sign says which comes first, and nothing is assumed of
it beyond a total preorder; what compares as 0 need not be equal.  A tree is searched from its
root, and what compares as 0 with something in it is not put in.

That a tree is a search tree is said of the walk through it from left to right: it is strictly
increasing.  Putting something in opens the walk at one place, or leaves it as it is.
-/
import Mathlib.Data.List.Pairwise
import Mathlib.Data.Tree.Basic
import Mathlib.Tactic.Common
import Mathlib.Tactic.Ring

namespace SearchTree

variable {α : Type*}

/-- The sign of the comparison is that of a total preorder. -/
structure ThreeWay (compare : α → α → Int) : Prop where
  swap : ∀ a b, compare a b < 0 ↔ 0 < compare b a
  trans : ∀ a b c, compare a b ≤ 0 → compare b c ≤ 0 → compare a c ≤ 0

namespace ThreeWay

variable {compare : α → α → Int} (h : ThreeWay compare)

include h

theorem eq_comm {a b : α} : compare a b = 0 ↔ compare b a = 0 := by
  have hab := h.swap a b
  have hba := h.swap b a
  omega

theorem self (a : α) : compare a a = 0 := by
  have haa := h.swap a a
  omega

theorem lt_of_lt_of_le {a b c : α} (hab : compare a b < 0) (hbc : compare b c ≤ 0) :
    compare a c < 0 := by
  by_contra hac
  have hca : compare c a ≤ 0 := by
    have := h.swap a c
    have := h.swap c a
    omega
  have hba := h.trans b c a hbc hca
  have := h.swap a b
  omega

theorem lt_of_le_of_lt {a b c : α} (hab : compare a b ≤ 0) (hbc : compare b c < 0) :
    compare a c < 0 := by
  by_contra hac
  have hca : compare c a ≤ 0 := by
    have := h.swap a c
    have := h.swap c a
    omega
  have hcb := h.trans c a b hca hab
  have := h.swap b c
  omega

theorem eq_trans {a b c : α} (hab : compare a b = 0) (hbc : compare b c = 0) :
    compare a c = 0 := by
  have hac := h.trans a b c (by omega) (by omega)
  have hcb := h.eq_comm.mp hbc
  have hba := h.eq_comm.mp hab
  have hca := h.trans c b a (by omega) (by omega)
  have hswap := h.swap a c
  omega

/-- A comparison of components. -/
theorem comp {β : Type*} (f : β → α) : ThreeWay fun x y => compare (f x) (f y) :=
  ⟨fun a b => h.swap (f a) (f b), fun a b c => h.trans (f a) (f b) (f c)⟩

end ThreeWay

/-! ### Trees -/

/-- The walk from left to right. -/
def inorder : BinaryTree α → List α
  | .nil => []
  | .node a l r => inorder l ++ a :: inorder r

/-- Put something in, unless it compares as 0 with something there. -/
def insert (compare : α → α → Int) (x : α) : BinaryTree α → BinaryTree α
  | .nil => .node x .nil .nil
  | .node a l r =>
      if compare x a < 0 then .node a (insert compare x l) r
      else if 0 < compare x a then .node a l (insert compare x r)
      else .node a l r

/-- How deep it is. -/
def depth : BinaryTree α → Nat
  | .nil => 0
  | .node _ l r => max (depth l) (depth r) + 1

/-- The walk is strictly increasing. -/
def Ordered (compare : α → α → Int) (t : BinaryTree α) : Prop :=
  (inorder t).Pairwise fun a b => compare a b < 0

variable {compare : α → α → Int}

theorem ordered_node {a : α} {l r : BinaryTree α} :
    Ordered compare (.node a l r) ↔ Ordered compare l ∧ Ordered compare r ∧
      (∀ b ∈ inorder l, compare b a < 0) ∧ (∀ b ∈ inorder r, compare a b < 0) ∧
      ∀ b ∈ inorder l, ∀ c ∈ inorder r, compare b c < 0 := by
  simp only [Ordered, inorder, List.pairwise_append, List.pairwise_cons, List.forall_mem_cons]
  constructor
  · rintro ⟨hl, ⟨ha, hr⟩, hcross⟩
    exact ⟨hl, hr, fun b hb => (hcross b hb).1, ha, fun b hb => (hcross b hb).2⟩
  · rintro ⟨hl, hr, hla, ha, hcross⟩
    exact ⟨hl, ⟨ha, hr⟩, fun b hb => ⟨hla b hb, hcross b hb⟩⟩

/-- **The walk after something was put in**: it is opened at the place where that belongs, or it
is the same and has something in it that compares as 0. -/
theorem insert_cases (h : ThreeWay compare) (x : α) {t : BinaryTree α} (ht : Ordered compare t) :
    (∃ before after, inorder t = before ++ after ∧
        inorder (insert compare x t) = before ++ x :: after ∧
        (∀ a ∈ before, compare a x < 0) ∧ ∀ a ∈ after, compare x a < 0) ∨
      insert compare x t = t ∧ ∃ a ∈ inorder t, compare x a = 0 := by
  induction t with
  | nil =>
      exact .inl ⟨[], [], rfl, rfl, fun a ha => absurd ha List.not_mem_nil,
        fun a ha => absurd ha List.not_mem_nil⟩
  | node a l r ihl ihr =>
      obtain ⟨hl, hr, hla, har, -⟩ := ordered_node.mp ht
      rw [insert]
      by_cases hlt : compare x a < 0
      · rw [if_pos hlt]
        have hbehind : ∀ b ∈ a :: inorder r, compare x b < 0 :=
          List.forall_mem_cons.mpr
            ⟨hlt, fun b hb => h.lt_of_lt_of_le hlt (Int.le_of_lt (har b hb))⟩
        rcases ihl hl with ⟨before, after, hwalk, hnew, hbefore, hafter⟩ | ⟨hsame, b, hb, heq⟩
        · refine .inl ⟨before, after ++ a :: inorder r, ?_, ?_, hbefore, ?_⟩
          · rw [inorder, hwalk, List.append_assoc]
          · rw [inorder, hnew, List.append_assoc]
            rfl
          · exact List.forall_mem_append.mpr ⟨hafter, hbehind⟩
        · exact .inr ⟨by rw [hsame], b, List.mem_append_left _ hb, heq⟩
      · rw [if_neg hlt]
        by_cases hgt : 0 < compare x a
        · rw [if_pos hgt]
          have hax : compare a x < 0 := (h.swap a x).mpr hgt
          have hbefore' : ∀ b ∈ inorder l, compare b x < 0 := fun b hb =>
            h.lt_of_lt_of_le (hla b hb) (Int.le_of_lt hax)
          rcases ihr hr with ⟨before, after, hwalk, hnew, hbefore, hafter⟩ | ⟨hsame, b, hb, heq⟩
          · refine .inl ⟨inorder l ++ a :: before, after, ?_, ?_, ?_, hafter⟩
            · rw [inorder, hwalk, List.append_assoc]
              rfl
            · rw [inorder, hnew, List.append_assoc]
              rfl
            · exact List.forall_mem_append.mpr
                ⟨hbefore', List.forall_mem_cons.mpr ⟨hax, hbefore⟩⟩
          · exact .inr ⟨by rw [hsame],
              b, List.mem_append_right _ (List.mem_cons_of_mem _ hb), heq⟩
        · rw [if_neg hgt]
          exact .inr ⟨rfl, a, List.mem_append_right _ List.mem_cons_self, by omega⟩

/-- What was put in leaves a search tree. -/
theorem Ordered.insert (h : ThreeWay compare) (x : α) {t : BinaryTree α}
    (ht : Ordered compare t) : Ordered compare (insert compare x t) := by
  rcases insert_cases h x ht with ⟨before, after, hwalk, hnew, hbefore, hafter⟩ | ⟨hsame, -⟩
  · rw [Ordered, hwalk, List.pairwise_append] at ht
    obtain ⟨hb, ha, hcross⟩ := ht
    rw [Ordered, hnew, List.pairwise_append, List.pairwise_cons]
    refine ⟨hb, ⟨hafter, ha⟩, fun b hb' => List.forall_mem_cons.mpr ⟨hbefore b hb', ?_⟩⟩
    exact hcross b hb'
  · rwa [hsame]

/-- What was in it still is. -/
theorem mem_insert_of_mem (h : ThreeWay compare) (x : α) {t : BinaryTree α}
    (ht : Ordered compare t) {a : α} (ha : a ∈ inorder t) :
    a ∈ inorder (insert compare x t) := by
  rcases insert_cases h x ht with ⟨before, after, hwalk, hnew, -⟩ | ⟨hsame, -⟩
  · rw [hwalk, List.mem_append] at ha
    rw [hnew, List.mem_append, List.mem_cons]
    exact ha.imp_right .inr
  · rwa [hsame]

/-- **What is in the tree then**: what was, and `x` if nothing there compares as 0 with it. -/
theorem mem_insert_iff (h : ThreeWay compare) (x : α) {t : BinaryTree α}
    (ht : Ordered compare t) {a : α} :
    a ∈ inorder (insert compare x t) ↔
      a ∈ inorder t ∨ a = x ∧ ∀ b ∈ inorder t, compare b x ≠ 0 := by
  rcases insert_cases h x ht with
    ⟨before, after, hwalk, hnew, hbefore, hafter⟩ | ⟨hsame, b, hb, heq⟩
  · have hnone : ∀ b ∈ inorder t, compare b x ≠ 0 := by
      rw [hwalk]
      refine List.forall_mem_append.mpr ⟨fun b hb => Int.ne_of_lt (hbefore b hb), ?_⟩
      exact fun b hb heq => Int.ne_of_lt (hafter b hb) (h.eq_comm.mp heq)
    rw [hnew, and_iff_left hnone, hwalk, List.mem_append, List.mem_cons, List.mem_append]
    tauto
  · rw [hsame]
    refine ⟨.inl, fun hor => hor.elim id fun hx => ?_⟩
    exact absurd (h.eq_comm.mp heq) (hx.2 b hb)

end SearchTree
