/-
A scan for the first element of a kind.

`scanTo` is where a loop that looks at one element after the other comes to: the first place from
`p` on where it stops, or the end.  What is behind a place is all that counts, so a place is given
by the list that begins there.
-/
import Mathlib.Data.List.TakeWhile
import Mathlib.Data.UInt
import Mathlib.Tactic.Common
import Mathlib.Tactic.Ring

namespace Scan

variable {α : Type*}

/-- Where a scan from `p` on stops. -/
def scanTo (s : List α) (stop : α → Prop) [DecidablePred stop] (p : Nat) : Nat :=
  p + ((s.drop p).takeWhile fun a => ¬stop a).length

variable {s mid rest : List α} {stop : α → Prop} [DecidablePred stop] {p : Nat}

/-- A list up to where a scan stops, and from there on. -/
theorem exists_scan (stop : α → Prop) [DecidablePred stop] (l : List α) :
    ∃ mid rest, l = mid ++ rest ∧ (∀ a ∈ mid, ¬stop a) ∧ ∀ a ∈ rest.head?, stop a := by
  refine ⟨l.takeWhile fun a => ¬stop a, l.dropWhile fun a => ¬stop a,
    List.takeWhile_append_dropWhile.symm, fun a ha => ?_, fun a ha => ?_⟩
  · have hnot := List.mem_takeWhile_imp ha
    exact of_decide_eq_true hnot
  · have hnot := List.head?_dropWhile_not (fun a => decide ¬stop a) l
    rw [Option.mem_def.mp ha] at hnot
    exact not_not.mp (of_decide_eq_false hnot)

/-- **A scan stops** where its list is first of the kind. -/
theorem scanTo_eq (h : s.drop p = mid ++ rest) (hmid : ∀ a ∈ mid, ¬stop a)
    (hrest : ∀ a ∈ rest.head?, stop a) : scanTo s stop p = p + mid.length := by
  rw [scanTo, h, List.takeWhile_append_of_pos fun a ha => decide_eq_true (hmid a ha)]
  cases rest with
  | nil => rw [List.takeWhile_nil, List.append_nil]
  | cons a rest =>
      have ha : stop a := hrest a rfl
      rw [List.takeWhile_cons_of_neg (by simpa using ha), List.append_nil]

/-- A scan that stops nowhere comes to the end. -/
theorem scanTo_last (h : s.drop p = mid) (hmid : ∀ a ∈ mid, ¬stop a) :
    scanTo s stop p = p + mid.length :=
  scanTo_eq (h.trans (List.append_nil mid).symm) hmid fun a ha =>
    absurd ha.symm (Option.some_ne_none a)

/-- Where a scan stops is all there is to know of how a list is cut. -/
theorem scan_unique (stop : α → Prop) [DecidablePred stop] {mid' rest' : List α}
    (h : mid ++ rest = mid' ++ rest')
    (hmid : ∀ a ∈ mid, ¬stop a) (hrest : ∀ a ∈ rest.head?, stop a)
    (hmid' : ∀ a ∈ mid', ¬stop a) (hrest' : ∀ a ∈ rest'.head?, stop a) :
    mid = mid' ∧ rest = rest' := by
  have hscan : 0 + mid.length = 0 + mid'.length :=
    (scanTo_eq (s := mid ++ rest) rfl hmid hrest).symm.trans (scanTo_eq h hmid' hrest')
  exact List.append_inj h (by omega)

theorem le_scanTo : p ≤ scanTo s stop p := Nat.le_add_right _ _

/-- A scan goes on where it does not stop. -/
theorem lt_scanTo {a : α} (h : s[p]? = some a) (ha : ¬stop a) : p < scanTo s stop p := by
  rw [← List.head?_drop, List.head?_eq_some_iff] at h
  obtain ⟨rest, h⟩ := h
  rw [scanTo, h, List.takeWhile_cons_of_pos (by simpa using ha), List.length_cons]
  omega

/-- A scan stays where it stops. -/
theorem scanTo_self {a : α} (h : s[p]? = some a) (ha : stop a) : scanTo s stop p = p := by
  rw [← List.head?_drop, List.head?_eq_some_iff] at h
  obtain ⟨rest, h⟩ := h
  have hl : s.drop p = [] ++ a :: rest := h
  exact scanTo_eq hl (fun a ha => absurd ha List.not_mem_nil)
    fun b hb => Option.some_inj.mp hb ▸ ha

/-! ### Places -/

theorem lt_length_iff : p < s.length ↔ s.drop p ≠ [] := by
  rw [ne_eq, List.drop_eq_nil_iff, not_le]

theorem getElem?_eq_head? : s[p]? = (s.drop p).head? := List.head?_drop.symm

/-- What is there behind a first part. -/
theorem drop_add (h : s.drop p = mid ++ rest) : s.drop (p + mid.length) = rest := by
  rw [← List.drop_drop, h, List.drop_left]

theorem drop_succ {a : α} (h : s.drop p = a :: rest) : s.drop (p + 1) = rest := by
  rw [← List.drop_drop, h]
  rfl

/-- What is in a first part. -/
theorem take_drop (h : s.drop p = mid ++ rest) : (s.drop p).take mid.length = mid := by
  rw [h, List.take_left]

end Scan
