/-
Runs of a step function, and what it means for them to refine a specification.

A component is a function `step` from a state and an input to a new state and an
answer, or to `none` where the code would crash or hang.  Its specification is a
relation `spec` on abstract states, and `R` says which abstract state a concrete
one stands for.  `RunRefines` is the whole-run statement: every step of the run
answers as the specification allows and lands in a related state.

Two rules turn a fact about one step into a fact about runs.  `runRefines_of_step`
is the usual simulation induction, under a condition `C` on the state before each
step.  `runRefines_iff` says the condition is exact when it is exact for one step:
the first step that violates it is a step the run does not survive.
-/
import Mathlib.Data.UInt
import Mathlib.Tactic.Ring

namespace Machine

variable {σ τ ι ω : Type*}

/-! ### Runs -/

/-- Feed a list of inputs to `step`, collecting the answers. -/
def run (step : σ → ι → Option (σ × ω)) : σ → List ι → Option (σ × List ω)
  | s, [] => some (s, [])
  | s, i :: is =>
      (step s i).bind fun r => (run step r.1 is).map fun q => (q.1, r.2 :: q.2)

/-- A step function that always has a result. -/
def total (step : σ → ι → σ × ω) : σ → ι → Option (σ × ω) := fun s i => some (step s i)

@[simp] theorem total_apply (step : σ → ι → σ × ω) (s : σ) (i : ι) :
    total step s i = some (step s i) := rfl

variable (step : σ → ι → Option (σ × ω))

/-- Every step of the run is taken in a state where `C` holds. -/
def Meets (C : σ → ι → Prop) : σ → List ι → Prop
  | _, [] => True
  | s, i :: is => C s i ∧ ∀ s' o, step s i = some (s', o) → Meets C s' is

theorem meets_none {C : σ → ι → Prop} {s : σ} {i : ι} {is : List ι} (h : step s i = none) :
    Meets step C s (i :: is) ↔ C s i := by
  simp [Meets, h]

theorem meets_some {C : σ → ι → Prop} {s s' : σ} {i : ι} {is : List ι} {o : ω}
    (h : step s i = some (s', o)) : Meets step C s (i :: is) ↔ C s i ∧ Meets step C s' is := by
  simp [Meets, h]

theorem run_append (is js : List ι) : ∀ s : σ, run step s (is ++ js) =
    (run step s is).bind fun r => (run step r.1 js).map fun q => (q.1, r.2 ++ q.2) := by
  induction is with
  | nil => intro s; simp [run]
  | cons i is ih =>
      intro s
      cases hs : step s i with
      | none => simp [run, hs]
      | some r =>
          simp only [List.cons_append, run, hs, Option.bind_some, ih, Option.map_bind,
            Option.bind_map]
          congr 1
          funext q
          simp [Function.comp_def]

/-- A run that meets a condition meets it in its first part and from there on. -/
theorem meets_append {C : σ → ι → Prop} (js : List ι) : ∀ (is : List ι) (s : σ),
    Meets step C s (is ++ js) ↔
      Meets step C s is ∧ ∀ s' os, run step s is = some (s', os) → Meets step C s' js := by
  intro is
  induction is with
  | nil =>
      intro s
      refine ⟨fun h => ⟨trivial, ?_⟩, fun h => h.2 s [] rfl⟩
      intro s' os hrun
      rw [run, Option.some.injEq, Prod.mk.injEq] at hrun
      rw [← hrun.1]
      exact h
  | cons i is ih =>
      intro s
      rw [List.cons_append]
      cases hs : step s i with
      | none =>
          rw [meets_none step hs, meets_none step hs, run, hs, Option.bind_none]
          exact ⟨fun h => ⟨h, fun _ _ hrun => nomatch hrun⟩, fun h => h.1⟩
      | some r =>
          rw [meets_some step hs, meets_some step hs, ih, run, hs, Option.bind_some, and_assoc]
          refine and_congr_right fun _ => and_congr_right fun _ => ⟨?_, ?_⟩
          · intro h s' os hrun
            obtain ⟨q, hq, heq⟩ := Option.map_eq_some_iff.mp hrun
            rw [← (Prod.mk.inj heq).1]
            exact h q.1 q.2 hq
          · intro h s' os hrun
            exact h s' _ (by rw [hrun]; rfl)

/-- A run meets two conditions when it meets each. -/
theorem meets_and {A B : σ → ι → Prop} (is : List ι) : ∀ s : σ,
    Meets step (fun s i => A s i ∧ B s i) s is ↔ Meets step A s is ∧ Meets step B s is := by
  induction is with
  | nil => intro s; exact ⟨fun _ => ⟨trivial, trivial⟩, fun _ => trivial⟩
  | cons i is ih =>
      intro s
      cases hs : step s i with
      | none => simp only [meets_none step hs]
      | some r => simp only [meets_some step hs, ih, and_and_and_comm]

/-- A decidable condition is decidable along a run. -/
instance decidableMeets (C : σ → ι → Prop) [∀ s i, Decidable (C s i)] :
    ∀ (s : σ) (is : List ι), Decidable (Meets step C s is)
  | _, [] => isTrue trivial
  | s, i :: is =>
      match h : step s i with
      | none => decidable_of_iff _ (meets_none step h).symm
      | some (s', _) =>
          have := decidableMeets C s' is
          decidable_of_iff _ (meets_some step h).symm

/-- What holds in every state the step can lead to. -/
def After (P : σ → Prop) (s : σ) (i : ι) : Prop := ∀ s' o, step s i = some (s', o) → P s'

/-- `P` holds in every state of the run. -/
def Always (P : σ → Prop) (s : σ) (is : List ι) : Prop := P s ∧ Meets step (After step P) s is

variable {step}

theorem after_some {P : σ → Prop} {s s' : σ} {i : ι} {o : ω} (h : step s i = some (s', o)) :
    After step P s i ↔ P s' := by
  simp [After, h]

instance decidableAfter (P : σ → Prop) [DecidablePred P] (s : σ) (i : ι) :
    Decidable (After step P s i) :=
  match h : step s i with
  | none => isTrue fun _ _ hs => nomatch h.symm.trans hs
  | some (s', _) => decidable_of_iff (P s') (after_some h).symm

instance decidableAlways (P : σ → Prop) [DecidablePred P] (s : σ) (is : List ι) :
    Decidable (Always step P s is) :=
  inferInstanceAs (Decidable (P s ∧ Meets step (After step P) s is))

/-- A condition on a part of the state is met along a run when it is along the run of that part. -/
theorem meets_proj {σ' : Type*} {step' : σ' → ι → Option (σ' × ω)} {f : σ → σ'}
    (hf : ∀ s i, (step s i).map (fun r => (f r.1, r.2)) = step' (f s) i) {C : σ' → ι → Prop}
    (is : List ι) : ∀ s : σ, Meets step (fun s i => C (f s) i) s is ↔ Meets step' C (f s) is := by
  induction is with
  | nil => intro s; exact Iff.rfl
  | cons i is ih =>
      intro s
      have hs' := hf s i
      cases hs : step s i with
      | none =>
          rw [hs, Option.map_none] at hs'
          rw [meets_none step hs, meets_none step' hs'.symm]
      | some r =>
          rw [hs, Option.map_some] at hs'
          rw [meets_some step hs, meets_some step' hs'.symm, ih]

/-- The invariant rule: what follows from a condition where an invariant holds, follows
along every run that meets the condition, when such steps keep the invariant. -/
theorem Meets.of_invariant {C K : σ → ι → Prop} {J : σ → Prop}
    (hstep : ∀ s i, J s → C s i → K s i ∧ After step J s i) :
    ∀ (is : List ι) (s : σ), J s → Meets step C s is → Meets step K s is := by
  intro is
  induction is with
  | nil => intro s _ _; exact trivial
  | cons i is ih =>
      intro s h hC
      obtain ⟨hK, hJ⟩ := hstep s i h hC.1
      exact ⟨hK, fun s' o hs => ih s' (hJ s' o hs) (hC.2 s' o hs)⟩

/-- The same where the two say the same of every step. -/
theorem meets_congr {C K : σ → ι → Prop} {J : σ → Prop}
    (hstep : ∀ s i, J s → (K s i ↔ C s i)) (hkeep : ∀ s i, J s → C s i → After step J s i)
    (is : List ι) {s : σ} (h : J s) : Meets step K s is ↔ Meets step C s is := by
  refine ⟨Meets.of_invariant (fun s i hJ hK => ?_) is s h,
    Meets.of_invariant (fun s i hJ hC => ?_) is s h⟩
  · have hC := (hstep s i hJ).mp hK
    exact ⟨hC, hkeep s i hJ hC⟩
  · exact ⟨(hstep s i hJ).mpr hC, hkeep s i hJ hC⟩

/-- A condition on the inputs alone is met by a run when all inputs meet it, if such inputs keep
the run going. -/
theorem meets_iff_forall {C : ι → Prop} {J : σ → Prop}
    (hstep : ∀ s i, J s → C i → ∃ r, step s i = some r ∧ J r.1) :
    ∀ (is : List ι) (s : σ), J s → (Meets step (fun _ i => C i) s is ↔ ∀ i ∈ is, C i) := by
  intro is
  induction is with
  | nil => intro s _; exact iff_of_true trivial fun i hi => absurd hi List.not_mem_nil
  | cons i is ih =>
      intro s hJ
      rw [List.forall_mem_cons]
      by_cases hC : C i
      · obtain ⟨r, hs, hJ'⟩ := hstep s i hJ hC
        rw [meets_some step hs, ih r.1 hJ']
      · exact iff_of_false (fun h => hC h.1) fun h => hC h.1

variable (step)

variable (spec : τ → ι → ω → τ → Prop) (R : σ → τ → Prop)

/-- One step has a result, the specification allows it, and the states stay related. -/
def StepRefines (s : σ) (t : τ) (i : ι) : Prop :=
  ∃ s' o t', step s i = some (s', o) ∧ spec t i o t' ∧ R s' t'

/-- The same for every step of a run, with the states related all along. -/
def RunRefines : σ → τ → List ι → Prop
  | s, t, [] => R s t
  | s, t, i :: is =>
      R s t ∧ ∃ s' o t', step s i = some (s', o) ∧ spec t i o t' ∧ RunRefines s' t' is

/-- The specification can answer `os` to the inputs `is`. -/
def Allows : τ → List ι → List ω → Prop
  | _, [], [] => True
  | t, i :: is, o :: os => ∃ t', spec t i o t' ∧ Allows t' is os
  | _, _, _ => False

variable {step spec R}

theorem RunRefines.related {s : σ} {t : τ} {is : List ι} (h : RunRefines step spec R s t is) :
    R s t := by
  cases is with
  | nil => exact h
  | cons i is => exact h.1

/-- The answers of a run that refines are ones the specification can give. -/
theorem RunRefines.allows {is : List ι} : ∀ {s s' : σ} {t : τ} {os : List ω},
    RunRefines step spec R s t is → run step s is = some (s', os) → Allows spec t is os := by
  induction is with
  | nil =>
      intro s s' t os _ hrun
      rw [run, Option.some.injEq, Prod.mk.injEq] at hrun
      rw [← hrun.2]
      exact trivial
  | cons i is ih =>
      intro s s' t os h hrun
      obtain ⟨-, s₁, o, t₁, hs, hspec, hrest⟩ := h
      rw [run, hs, Option.bind_some] at hrun
      obtain ⟨⟨s₂, os'⟩, hrun', heq⟩ := Option.map_eq_some_iff.mp hrun
      rw [← (Prod.mk.inj heq).2]
      exact ⟨t₁, hspec, ih hrest hrun'⟩

/-- The simulation induction: one step refines under `C`, so runs that meet `C` refine. -/
theorem runRefines_of_step {C : σ → ι → Prop}
    (hstep : ∀ s t i, R s t → C s i → StepRefines step spec R s t i) :
    ∀ (is : List ι) (s : σ) (t : τ), R s t → Meets step C s is →
      RunRefines step spec R s t is := by
  intro is
  induction is with
  | nil => intro s t h _; exact h
  | cons i is ih =>
      intro s t h hmeets
      obtain ⟨s', o, t', hs, hspec, h'⟩ := hstep s t i h hmeets.1
      exact ⟨h, s', o, t', hs, hspec, ih s' t' h' (hmeets.2 s' o hs)⟩

theorem meets_true (s : σ) (is : List ι) : Meets step (fun _ _ => True) s is := by
  induction is generalizing s with
  | nil => exact trivial
  | cons i is ih => exact ⟨trivial, fun s' _ _ => ih s'⟩

/-- **A condition that is exact for one step is exact for runs**, also where what is
asked of a step is more than an answer: `K` may look at how the step came about. -/
theorem runRefines_and_meets_iff {C K : σ → ι → Prop}
    (hstep : ∀ s t i, R s t → (StepRefines step spec R s t i ∧ K s i ↔ C s i)) :
    ∀ (is : List ι) (s : σ) (t : τ), R s t →
      (RunRefines step spec R s t is ∧ Meets step K s is ↔ Meets step C s is) := by
  intro is
  induction is with
  | nil => intro s t h; exact ⟨fun _ => trivial, fun _ => ⟨h, trivial⟩⟩
  | cons i is ih =>
      intro s t h
      constructor
      · rintro ⟨⟨-, s', o, t', hs, hspec, hrest⟩, hK⟩
        rw [meets_some step hs] at hK ⊢
        exact ⟨(hstep s t i h).mp ⟨⟨s', o, t', hs, hspec, hrest.related⟩, hK.1⟩,
          (ih s' t' hrest.related).mp ⟨hrest, hK.2⟩⟩
      · intro hC
        obtain ⟨⟨s', o, t', hs, hspec, h'⟩, hK⟩ := (hstep s t i h).mpr hC.1
        rw [meets_some step hs] at hC ⊢
        obtain ⟨hrest, hKrest⟩ := (ih s' t' h').mpr hC.2
        exact ⟨⟨h, s', o, t', hs, hspec, hrest⟩, hK, hKrest⟩

/-- The same where only the answers and the states count. -/
theorem runRefines_iff {C : σ → ι → Prop}
    (hstep : ∀ s t i, R s t → (StepRefines step spec R s t i ↔ C s i))
    (is : List ι) {s : σ} {t : τ} (h : R s t) :
    RunRefines step spec R s t is ↔ Meets step C s is := by
  rw [← runRefines_and_meets_iff (K := fun _ _ => True)
    (fun s t i hR => by rw [and_true]; exact hstep s t i hR) is s t h]
  exact (and_iff_left (meets_true s is)).symm

end Machine
