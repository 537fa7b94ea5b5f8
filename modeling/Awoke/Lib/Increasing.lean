/-
Lists that increase by a key.

An increasing list is cut at a key: what is not above it is in front, and what is above it behind.
Something put into the cut leaves the list increasing if its key is in none of the others, and
only then.

Of a list that is gone through after some keys were seen, `firsts` are the elements whose key is
new when they come up.
-/
import Mathlib.Data.Finset.Dedup
import Mathlib.Data.Finset.Insert
import Mathlib.Data.Finset.Lattice.Lemmas
import Mathlib.Data.List.Pairwise
import Mathlib.Order.Defs.LinearOrder

namespace Keyed

variable {α κ : Type*} [LinearOrder κ] (key : α → κ)

/-- The keys go up from each element to all behind it. -/
def Increasing (s : List α) : Prop := s.Pairwise fun a b => key a < key b

/-- The keys of a list. -/
def keys (s : List α) : Finset κ := (s.map key).toFinset

/-- The elements whose key was not seen before they come up. -/
def firsts (seen : Finset κ) : List α → List α
  | [] => []
  | a :: s =>
      if key a ∈ seen then firsts (insert (key a) seen) s
      else a :: firsts (insert (key a) seen) s

variable {key} {seen : Finset κ} {s mid rest : List α} {a c : α}

/-! ### Keys -/

theorem mem_keys {k : κ} : k ∈ keys key s ↔ ∃ a ∈ s, key a = k := by
  rw [keys, List.mem_toFinset, List.mem_map]

theorem key_mem (h : a ∈ s) : key a ∈ keys key s := mem_keys.mpr ⟨a, h, rfl⟩

theorem keys_cons : keys key (a :: s) = insert (key a) (keys key s) :=
  List.toFinset_cons

/-- The keys are the same when something was put in anywhere. -/
theorem keys_middle : keys key (mid ++ c :: rest) = insert (key c) (keys key (mid ++ rest)) := by
  ext k
  simp only [mem_keys, Finset.mem_insert, List.mem_append, List.mem_cons]
  grind

theorem firsts_cons_new (h : key a ∉ seen) :
    firsts key seen (a :: s) = a :: firsts key (insert (key a) seen) s := if_neg h

/-! ### Increasing lists -/

/-- The last key is the greatest. -/
theorem Increasing.le_last (h : Increasing key (s ++ [c])) (ha : a ∈ s ++ [c]) :
    key a ≤ key c := by
  rcases List.mem_append.mp ha with ha | ha
  · exact ((List.pairwise_append.mp h).2.2 a ha c List.mem_cons_self).le
  · rw [List.mem_singleton.mp ha]

/-- The first is the least. -/
theorem Increasing.first_le (h : Increasing key (c :: s)) (ha : a ∈ c :: s) : key c ≤ key a := by
  rcases List.mem_cons.mp ha with rfl | ha
  · exact le_refl _
  · exact ((List.pairwise_cons.mp h).1 a ha).le

/-- Behind a cut all is above it. -/
theorem Increasing.lt_behind (h : Increasing key (mid ++ rest)) {k : κ}
    (hrest : ∀ b ∈ rest.head?, k < key b) (ha : a ∈ rest) : k < key a := by
  cases rest with
  | nil => exact absurd ha List.not_mem_nil
  | cons b rest =>
      have hb : Increasing key (b :: rest) := (List.pairwise_append.mp h).2.1
      exact lt_of_lt_of_le (hrest b rfl) (hb.first_le ha)

/-- **What is put into a cut** leaves an increasing list if its key is new, and only then. -/
theorem Increasing.insert_iff (h : Increasing key (mid ++ rest)) (hmid : ∀ b ∈ mid, key b ≤ key c)
    (hrest : ∀ b ∈ rest.head?, key c < key b) :
    Increasing key (mid ++ c :: rest) ↔ key c ∉ keys key (mid ++ rest) := by
  obtain ⟨hfront, hback, hcross⟩ := List.pairwise_append.mp h
  have habove : ∀ b ∈ rest, key c < key b := fun b hb => h.lt_behind hrest hb
  rw [Increasing, List.pairwise_append, List.pairwise_cons, mem_keys]
  constructor
  · rintro ⟨-, -, hbelow⟩ ⟨b, hb, heq⟩
    rcases List.mem_append.mp hb with hb | hb
    · exact absurd heq (hbelow b hb c List.mem_cons_self).ne
    · exact absurd heq (habove b hb).ne'
  · intro hnew
    refine ⟨hfront, ⟨habove, hback⟩, fun b hb => List.forall_mem_cons.mpr ⟨?_, hcross b hb⟩⟩
    refine lt_of_le_of_ne (hmid b hb) fun heq => hnew ⟨b, ?_, heq⟩
    exact List.mem_append_left rest hb

/-- What is above the last element goes behind it. -/
theorem Increasing.concat (h : Increasing key s) (hlast : ∀ a ∈ s.getLast?, key a < key c) :
    Increasing key (s ++ [c]) ∧ key c ∉ keys key s := by
  have hbelow : ∀ a ∈ s, key a < key c := by
    intro a ha
    obtain ⟨s', z, rfl⟩ := List.eq_nil_or_concat' s |>.resolve_left (List.ne_nil_of_mem ha)
    exact lt_of_le_of_lt (h.le_last ha) (hlast z List.getLast?_concat)
  refine ⟨List.pairwise_append.mpr ⟨h, List.pairwise_singleton _ c, fun a ha b hb => ?_⟩, ?_⟩
  · rw [List.mem_singleton.mp hb]
    exact hbelow a ha
  · rw [mem_keys]
    rintro ⟨a, ha, heq⟩
    exact absurd heq (hbelow a ha).ne

end Keyed
