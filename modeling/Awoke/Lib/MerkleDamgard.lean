/-
Digests by chaining.

A state is taken through a list of blocks, one after the other.  What is said here holds for whatever
the step from one state to the next is: if two lists of blocks lead to the same state, then either the
step does the same for two different inputs on the way, or one list is the end of the other.
-/
import Mathlib.Data.List.Induction
import Mathlib.Tactic.Common

namespace MerkleDamgard

variable {σ β : Type*} (f : σ → β → σ)

/-- What the step is called with on the way through some blocks. -/
def inputs (s : σ) : List β → List (σ × β)
  | [] => []
  | b :: bs => (s, b) :: inputs (f s b) bs

/-- The step does the same for two different inputs. -/
def Collide (xs ys : List (σ × β)) : Prop :=
  ∃ x ∈ xs, ∃ y ∈ ys, x ≠ y ∧ f x.1 x.2 = f y.1 y.2

theorem inputs_concat (bs : List β) (b : β) : ∀ s,
    inputs f s (bs ++ [b]) = inputs f s bs ++ [(bs.foldl f s, b)] := by
  induction bs with
  | nil => exact fun _ => rfl
  | cons c bs ih => exact fun s => congrArg (List.cons (s, c)) (ih (f s c))

variable {f}

theorem Collide.mono {xs ys xs' ys' : List (σ × β)} (h : Collide f xs ys) (hx : xs ⊆ xs')
    (hy : ys ⊆ ys') : Collide f xs' ys' := by
  obtain ⟨x, hxs, y, hys, hne, heq⟩ := h
  exact ⟨x, hx hxs, y, hy hys, hne, heq⟩

/-- **Two lists of blocks that lead to the same state** collide, or one is the end of the other. -/
theorem collide_or_suffix (s : σ) (bs : List β) : ∀ bs', bs.foldl f s = bs'.foldl f s →
    Collide f (inputs f s bs) (inputs f s bs') ∨ bs <:+ bs' ∨ bs' <:+ bs := by
  induction bs using List.reverseRecOn with
  | nil => exact fun bs' _ => .inr (.inl List.nil_suffix)
  | append_singleton bs b ih =>
      intro bs' h
      rcases List.eq_nil_or_concat bs' with rfl | ⟨cs, c, rfl⟩
      · exact .inr (.inr List.nil_suffix)
      · rw [List.concat_eq_append] at h ⊢
        rw [List.foldl_append, List.foldl_append] at h
        by_cases hlast : (bs.foldl f s, b) = (cs.foldl f s, c)
        · obtain ⟨hstate, rfl⟩ := Prod.mk.inj hlast
          rw [inputs_concat, inputs_concat]
          rcases ih cs hstate with hcollide | hsuffix | hsuffix
          · exact .inl (hcollide.mono (List.subset_append_left _ _) (List.subset_append_left _ _))
          · exact .inr (.inl (List.suffix_append_self_iff.mpr hsuffix))
          · exact .inr (.inr (List.suffix_append_self_iff.mpr hsuffix))
        · refine .inl ⟨_, ?_, _, ?_, hlast, h⟩
          · rw [inputs_concat]
            exact List.mem_append_right _ (List.mem_singleton_self _)
          · rw [inputs_concat]
            exact List.mem_append_right _ (List.mem_singleton_self _)

/-- Where no list of blocks of `P` is the end of another, two that lead to the same state collide. -/
theorem collide_of_ne {P : List β → Prop}
    (hfree : ∀ bs bs', P bs → P bs' → bs <:+ bs' → bs = bs') {s : σ} {bs bs' : List β} (hbs : P bs)
    (hbs' : P bs') (hne : bs ≠ bs') (h : bs.foldl f s = bs'.foldl f s) :
    Collide f (inputs f s bs) (inputs f s bs') := by
  rcases collide_or_suffix s bs bs' h with hcollide | hsuffix | hsuffix
  · exact hcollide
  · exact absurd (hfree bs bs' hbs hbs' hsuffix) hne
  · exact absurd (hfree bs' bs hbs' hbs hsuffix).symm hne

end MerkleDamgard
