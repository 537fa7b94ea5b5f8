/-
Loops that end by their own test.

The body of a `do` loop takes a state to the next one, or has no result where the code
would crash; `again` is the test at its end.  `Finishes` says that the loop ends, with
something true of every state a turn begins in; `Turns` says which states these are.

`Puts` says what the turns of a loop put out, and that is one list at most.

`finishes_iff` is the rule to use.  Where a turn is as asked and has a result exactly under
a condition, and a measure goes down from a turn that meets it to the next, the loop
finishes exactly if every turn meets the condition.
-/
import Mathlib.Data.UInt
import Mathlib.Tactic.Ring

namespace DoWhile

variable {σ : Type*} (body : σ → Option σ) (again : σ → Prop)

/-- The loop ends, and `P` holds of every state a turn begins in. -/
inductive Finishes (P : σ → Prop) : σ → Prop
  | last {s s' : σ} (hP : P s) (hbody : body s = some s') (hdone : ¬again s') : Finishes P s
  | turn {s s' : σ} (hP : P s) (hbody : body s = some s') (hagain : again s')
      (hrest : Finishes P s') : Finishes P s

/-- From the first state a turn of the loop begins in the second. -/
inductive Turns : σ → σ → Prop
  | here (s : σ) : Turns s s
  | next {s s' u : σ} (hbody : body s = some s') (hagain : again s') (hrest : Turns s' u) :
      Turns s u

/-- The loop ends, and this is what its turns put out, in order. -/
inductive Puts {α : Type*} (out : σ → List α) : σ → List α → Prop
  | last {s s' : σ} (hbody : body s = some s') (hdone : ¬again s') : Puts out s (out s)
  | turn {s s' : σ} {as : List α} (hbody : body s = some s') (hagain : again s')
      (hrest : Puts out s' as) : Puts out s (out s ++ as)

variable {body again}

theorem Puts.unique {α : Type*} {out : σ → List α} {s : σ} {as : List α}
    (h : Puts body again out s as) : ∀ {bs : List α}, Puts body again out s bs → bs = as := by
  induction h with
  | last hbody hdone =>
      intro bs hbs
      cases hbs with
      | last _ _ => rfl
      | turn hbody' hagain _ =>
          rw [hbody, Option.some.injEq] at hbody'
          exact absurd (hbody' ▸ hagain) hdone
  | turn hbody hagain _ ih =>
      intro bs hbs
      cases hbs with
      | last hbody' hdone =>
          rw [hbody, Option.some.injEq] at hbody'
          exact absurd hagain (hbody' ▸ hdone)
      | turn hbody' _ hrest =>
          rw [hbody, Option.some.injEq] at hbody'
          subst hbody'
          rw [ih hrest]

theorem Finishes.holds {P : σ → Prop} {s : σ} (h : Finishes body again P s) :
    ∀ {u : σ}, Turns body again s u → P u := by
  induction h with
  | last hP hbody hdone =>
      intro u hu
      cases hu with
      | here => exact hP
      | next hbody' hagain _ =>
          rw [hbody, Option.some.injEq] at hbody'
          exact absurd (hbody' ▸ hagain) hdone
  | turn hP hbody _ _ ih =>
      intro u hu
      cases hu with
      | here => exact hP
      | next hbody' _ hrest =>
          rw [hbody, Option.some.injEq] at hbody'
          exact ih (hbody' ▸ hrest)

theorem Finishes.turns {P : σ → Prop} {s : σ} (h : Finishes body again P s) :
    ∃ s', body s = some s' := by
  cases h with
  | last _ hbody _ => exact ⟨_, hbody⟩
  | turn _ hbody _ _ => exact ⟨_, hbody⟩

/-- What is left of a loop that ends, ends. -/
theorem Finishes.rest {P : σ → Prop} {s u : σ} (h : Finishes body again P s)
    (hu : Turns body again s u) : Finishes body again P u := by
  induction hu with
  | here => exact h
  | next hbody hagain _ ih =>
      cases h with
      | last _ hbody' hdone =>
          rw [hbody, Option.some.injEq] at hbody'
          exact absurd (hbody' ▸ hagain) hdone
      | turn _ hbody' _ hrest =>
          rw [hbody, Option.some.injEq] at hbody'
          exact ih (hbody' ▸ hrest)

/-- **A loop finishes as it should exactly if every turn meets the condition.**  `J` is what
every turn begins with in any case. -/
theorem finishes_iff {P C J : σ → Prop} (measure : σ → Nat)
    (hcond : ∀ s, J s → ((P s ∧ ∃ s', body s = some s') ↔ C s))
    (hturn : ∀ s s', J s → C s → body s = some s' → again s' → J s' ∧ measure s' < measure s)
    {s : σ} (hJ : J s) :
    Finishes body again P s ↔ ∀ u, Turns body again s u → C u := by
  constructor
  · intro h u hu
    -- Along the turns `J` goes on to hold, since each meets the condition.
    induction hu with
    | here => exact (hcond _ hJ).mp ⟨h.holds (.here _), h.turns⟩
    | next hbody hagain _ ih =>
        have hC := (hcond _ hJ).mp ⟨h.holds (.here _), h.turns⟩
        exact ih (hturn _ _ hJ hC hbody hagain).1 (h.rest (.next hbody hagain (.here _)))
  · intro h
    induction hm : measure s using Nat.strongRecOn generalizing s with
    | _ m ih =>
      have hC := h s (.here s)
      obtain ⟨hP, s', hbody⟩ := (hcond s hJ).mpr hC
      by_cases hagain : again s'
      · obtain ⟨hJ', hlt⟩ := hturn s s' hJ hC hbody hagain
        exact .turn hP hbody hagain
          (ih _ (hm ▸ hlt) hJ' (fun u hu => h u (.next hbody hagain hu)) rfl)
      · exact .last hP hbody hagain

end DoWhile
