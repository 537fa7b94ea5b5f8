/-
Steps that are seen in their order.

A list of steps is waited for, one after the other, while a list of things is seen.  `advance`
drops the first step when the next thing is one that it waits for, and what is seen out of its
turn is passed over.

`inOrder_iff` says that this misses nothing: no step is left exactly if some of the things that
were seen, in the order they were seen in, are ones for each of the steps.
-/
import Mathlib.Data.List.Basic

namespace InOrder

variable {α : Type*}

/-- The steps that are left when one more thing is seen. -/
def advance : List (α → Bool) → α → List (α → Bool)
  | [], _ => []
  | p :: ps, a => if p a then ps else p :: ps

/-- Each step has its own among the things that were seen, later than the one before. -/
def Seen (steps : List (α → Bool)) (as : List α) : Prop :=
  ∃ picked, picked.Sublist as ∧ List.Forall₂ (fun p a => p a = true) steps picked

variable {steps : List (α → Bool)} {as : List α} {a : α}

theorem seen_nil (as : List α) : Seen [] as := ⟨[], List.nil_sublist as, .nil⟩

theorem not_seen_cons_nil {p : α → Bool} : ¬Seen (p :: steps) [] := by
  rintro ⟨picked, hsub, hall⟩
  rw [List.sublist_nil.mp hsub] at hall
  exact nomatch hall

/-- More things that are seen before do no harm. -/
theorem Seen.cons (h : Seen steps as) : Seen steps (a :: as) := by
  obtain ⟨picked, hsub, hall⟩ := h
  exact ⟨picked, hsub.cons a, hall⟩

/-- Without its first step, a list of steps is seen later on. -/
theorem Seen.tail {p : α → Bool} (h : Seen (p :: steps) (a :: as)) : Seen steps as := by
  obtain ⟨picked, hsub, hall⟩ := h
  cases hall with
  | cons _ hrest => exact ⟨_, hsub.tail, hrest⟩

/-- What is seen first is one for the first step, or is passed over. -/
theorem seen_cons_iff : Seen steps (a :: as) ↔ Seen (advance steps a) as := by
  cases steps with
  | nil => exact iff_of_true (seen_nil _) (seen_nil _)
  | cons p ps =>
      rw [advance]
      by_cases hp : p a = true
      · rw [if_pos hp]
        refine ⟨Seen.tail, fun ⟨picked, hsub, hall⟩ => ?_⟩
        exact ⟨a :: picked, hsub.cons_cons a, .cons hp hall⟩
      · rw [if_neg hp]
        refine ⟨fun ⟨picked, hsub, hall⟩ => ?_, Seen.cons⟩
        cases hall with
        | cons hfirst hrest =>
            refine ⟨_, ?_, .cons hfirst hrest⟩
            cases hsub with
            | cons _ hsub => exact hsub
            | cons_cons _ _ => exact absurd hfirst hp

/-- **To wait for the steps one by one misses nothing.** -/
theorem inOrder_iff (as : List α) : ∀ steps : List (α → Bool),
    Seen steps as ↔ as.foldl advance steps = [] := by
  induction as with
  | nil =>
      intro steps
      cases steps with
      | nil => exact iff_of_true (seen_nil []) rfl
      | cons p ps => exact iff_of_false not_seen_cons_nil (List.cons_ne_nil p ps)
  | cons a as ih =>
      intro steps
      rw [seen_cons_iff, ih]
      rfl

end InOrder
