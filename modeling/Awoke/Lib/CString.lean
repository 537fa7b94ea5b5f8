/-
C strings: what `strstr` finds, and the numbers `sscanf` reads.

`text` is what is in memory up to the first NUL.  A needle occurs at an offset if it is what
the text goes on with there, and `strstr` gives the first offset it occurs at, from some
offset on.

When more bytes arrive behind a text, what occurred in it occurs where it did, and what was
found first is found first.
-/
import Mathlib.Data.List.Triplewise
import Mathlib.Data.Nat.Find
import Mathlib.Data.UInt
import Mathlib.Tactic.Common
import Mathlib.Tactic.Ring

namespace CString

/-! ### Search -/

section Search

variable {α : Type*}

/-- The text goes on with the needle at this offset. -/
def OccursAt (text needle : List α) (i : Nat) : Prop := needle <+: text.drop i

instance [DecidableEq α] (text needle : List α) (i : Nat) : Decidable (OccursAt text needle i) :=
  inferInstanceAs (Decidable (needle <+: text.drop i))

/-- `strstr(text + start, needle)`, as an offset in the text. -/
def strstr [DecidableEq α] (text : List α) (start : Nat) (needle : List α) : Option Nat :=
  ((text.drop start).dropInfix? needle).map fun q => start + q.1.length

variable {text needle : List α} {start i j : Nat}

theorem OccursAt.le (h : OccursAt text needle i) (hneedle : needle ≠ []) :
    i + needle.length ≤ text.length := by
  have hpos := List.length_pos_iff.mpr hneedle
  have hlen := List.IsPrefix.length_le h
  rw [List.length_drop] at hlen
  omega

/-- What occurs in a text occurs in a longer one. -/
theorem OccursAt.append (h : OccursAt text needle i) (hneedle : needle ≠ []) (more : List α) :
    OccursAt (text ++ more) needle i := by
  have hle := h.le hneedle
  rw [OccursAt, List.drop_append_of_le_length (by omega)]
  exact h.trans (List.prefix_append _ _)

/-- What ends in the first part of a text occurs there. -/
theorem occursAt_append_iff (hneedle : needle ≠ []) {more : List α}
    (hle : i + needle.length ≤ text.length) :
    OccursAt (text ++ more) needle i ↔ OccursAt text needle i := by
  refine ⟨fun h => ?_, fun h => h.append hneedle more⟩
  rw [OccursAt, List.drop_append_of_le_length (by omega)] at h
  exact List.prefix_of_prefix_length_le h (List.prefix_append _ _)
    (by rw [List.length_drop]; omega)

/-- Behind a first part, what occurs is what occurs in the rest. -/
theorem occursAt_add_length (front : List α) :
    OccursAt (front ++ text) needle (front.length + i) ↔ OccursAt text needle i := by
  rw [OccursAt, List.drop_append, List.drop_eq_nil_of_le (by omega), List.nil_append,
    Nat.add_sub_cancel_left]
  exact Iff.rfl

/-- The parts of a needle occur one after the other. -/
theorem occursAt_append_needle {first second : List α} :
    OccursAt text (first ++ second) i ↔
      OccursAt text first i ∧ OccursAt text second (i + first.length) := by
  simp only [OccursAt, ← List.drop_drop]
  constructor
  · rintro ⟨rest, h⟩
    rw [← h, List.append_assoc]
    exact ⟨List.prefix_append _ _, by rw [List.drop_left]; exact List.prefix_append _ _⟩
  · rintro ⟨⟨rest, h⟩, hsecond⟩
    rw [← h, List.drop_left] at hsecond
    rw [← h]
    exact (List.prefix_append_right_inj first).mpr hsecond

/-- What is not in a text does not begin a needle there. -/
theorem OccursAt.head_mem {a : α} (h : OccursAt text (a :: needle) i) : text[i]? = some a := by
  obtain ⟨rest, h⟩ := h
  rw [← Nat.add_zero i, ← List.getElem?_drop, ← h]
  rfl

variable [DecidableEq α]

theorem strstr_eq_some_iff (hneedle : needle ≠ []) :
    strstr text start needle = some i ↔
      start ≤ i ∧ OccursAt text needle i ∧ ∀ j, start ≤ j → OccursAt text needle j → i ≤ j := by
  have hfound : ∀ p q, (text.drop start).dropInfix? needle = some (p, q) ↔
      text.drop start = p ++ needle ++ q ∧
        ∀ j, start ≤ j → OccursAt text needle j → start + p.length ≤ j := by
    intro p q
    rw [List.dropInfix?_eq_some_iff]
    refine and_congr ⟨?_, fun h => ⟨needle, h, BEq.rfl⟩⟩ ⟨?_, ?_⟩
    · rintro ⟨needle', h, heq⟩
      rwa [eq_of_beq heq] at h
    · rintro hfirst j hj ⟨r, hr⟩
      have hle : j ≤ text.length := by
        have := OccursAt.le ⟨r, hr⟩ hneedle
        omega
      have := hfirst ((text.drop start).take (j - start)) needle r ?_ BEq.rfl
      · rw [List.length_take, List.length_drop] at this
        omega
      · rw [List.append_assoc, hr, show j = start + (j - start) by omega, ← List.drop_drop,
          Nat.add_sub_cancel_left, List.take_append_drop]
    · intro hfirst p' needle' q' h heq
      rw [eq_of_beq heq] at h
      have := hfirst (start + p'.length) (by omega)
        ⟨q', by rw [← List.drop_drop, h, List.append_assoc, List.drop_left]⟩
      show p.length ≤ p'.length
      omega
  rw [strstr, Option.map_eq_some_iff]
  constructor
  · rintro ⟨⟨p, q⟩, hpq, rfl⟩
    obtain ⟨heq, hfirst⟩ := (hfound p q).mp hpq
    refine ⟨Nat.le_add_right _ _, ⟨q, ?_⟩, hfirst⟩
    rw [← List.drop_drop, heq, List.append_assoc, List.drop_left]
  · rintro ⟨hle, ⟨q, hq⟩, hfirst⟩
    have hend := OccursAt.le ⟨q, hq⟩ hneedle
    have hlen : ((text.drop start).take (i - start)).length = i - start := by
      rw [List.length_take, List.length_drop]
      omega
    refine ⟨((text.drop start).take (i - start), q), (hfound _ _).mpr ⟨?_, ?_⟩, ?_⟩
    · rw [List.append_assoc, hq, show i = start + (i - start) by omega, ← List.drop_drop,
        Nat.add_sub_cancel_left, List.take_append_drop]
    · rw [hlen, Nat.add_sub_cancel' hle]
      exact hfirst
    · rw [hlen, Nat.add_sub_cancel' hle]

theorem strstr_isSome_iff (hneedle : needle ≠ []) :
    (strstr text start needle).isSome ↔ ∃ j, start ≤ j ∧ OccursAt text needle j := by
  rw [Option.isSome_iff_exists]
  constructor
  · rintro ⟨i, hi⟩
    obtain ⟨hle, hat, _⟩ := (strstr_eq_some_iff hneedle).mp hi
    exact ⟨i, hle, hat⟩
  · intro h
    obtain ⟨hle, hat⟩ := Nat.find_spec h
    exact ⟨Nat.find h, (strstr_eq_some_iff hneedle).mpr
      ⟨hle, hat, fun j hj hocc => Nat.find_min' h ⟨hj, hocc⟩⟩⟩

theorem strstr_eq_none_iff (hneedle : needle ≠ []) :
    strstr text start needle = none ↔ ∀ j, start ≤ j → ¬OccursAt text needle j := by
  rw [← Option.not_isSome_iff_eq_none, strstr_isSome_iff hneedle]
  simp only [not_exists, not_and]

/-- What was found is still found when more arrives. -/
theorem strstr_append (hneedle : needle ≠ []) (h : strstr text start needle = some i)
    (more : List α) : strstr (text ++ more) start needle = some i := by
  obtain ⟨hle, hat, hfirst⟩ := (strstr_eq_some_iff hneedle).mp h
  refine (strstr_eq_some_iff hneedle).mpr ⟨hle, hat.append hneedle more, fun j hj hocc => ?_⟩
  by_cases hlt : i ≤ j
  · exact hlt
  · have hend := hat.le hneedle
    exact hfirst j hj ((occursAt_append_iff hneedle (by omega)).mp hocc)

end Search

/-! ### Text -/

/-- What is in memory up to its NUL. -/
def text (m : List UInt8) : List UInt8 := m.takeWhile (· != 0)

theorem text_length_le (m : List UInt8) : (text m).length ≤ m.length :=
  (List.takeWhile_prefix _).length_le

/-- Bytes without a NUL are text, and the text goes on behind them. -/
theorem text_append {m : List UInt8} (h : (0 : UInt8) ∉ m) (more : List UInt8) :
    text (m ++ more) = m ++ text more := by
  refine List.takeWhile_append_of_pos fun b hb => bne_iff_ne.mpr ?_
  rintro rfl
  exact h hb

/-- More bytes make a text longer, or leave it as it is. -/
theorem text_part (m more : List UInt8) : text m <+: text (m ++ more) := by
  rw [text, text, List.takeWhile_append]
  split
  · rename_i hall
    rw [(List.takeWhile_prefix _).eq_of_length hall]
    exact List.prefix_append _ _
  · exact List.prefix_refl _

/-- What was found in memory is still found there when more arrives. -/
theorem strstr_text_append {m needle : List UInt8} {start i : Nat} (hneedle : needle ≠ [])
    (h : strstr (text m) start needle = some i) (more : List UInt8) :
    strstr (text (m ++ more)) start needle = some i := by
  obtain ⟨rest, hrest⟩ := text_part m more
  rw [← hrest]
  exact strstr_append hneedle h rest

/-! ### Numbers -/

/-- `isspace`, in the C locale. -/
def isSpace (b : UInt8) : Bool := b == 32 || (9 ≤ b && b ≤ 13)

/-- `isdigit`. -/
def isDigit (b : UInt8) : Bool := 48 ≤ b && b ≤ 57

/-- The number some digits stand for. -/
def decimal (digits : List UInt8) : Nat := digits.foldl (fun n d => 10 * n + (d.toNat - 48)) 0

/-- A sign and digits, behind white space: whether the sign is a minus, and the digits. -/
def number (s : List UInt8) : Option (Bool × Nat) :=
  let s := s.dropWhile isSpace
  let signed : Bool × List UInt8 :=
    match s with
    | 45 :: rest => (true, rest)
    | 43 :: rest => (false, rest)
    | _ => (false, s)
  let digits := signed.2.takeWhile isDigit
  if digits = [] then none else some (signed.1, decimal digits)

/-- What `%lu` stores: the largest number there is where the digits say more than that. -/
def scanUlong (s : List UInt8) : Option UInt64 :=
  (number s).map fun q =>
    if 2 ^ 64 ≤ q.2 then UInt64.ofNat (2 ^ 64 - 1)
    else if q.1 then -UInt64.ofNat q.2 else UInt64.ofNat q.2

/-- What `%d` stores: a `long` that saturates, cut to an `int`. -/
def scanInt (s : List UInt8) : Option Int :=
  (number s).map fun q =>
    let value : Int := if q.1 then -q.2 else q.2
    (max (-2 ^ 63) (min value (2 ^ 63 - 1))).bmod (2 ^ 32)

theorem isSpace_of_isDigit {b : UInt8} (h : isDigit b) : isSpace b = false := by
  simp only [isDigit, Bool.and_eq_true, decide_eq_true_eq, UInt8.le_iff_toNat_le] at h
  simp only [isSpace, Bool.or_eq_false_iff, Bool.and_eq_false_iff, beq_eq_false_iff_ne,
    decide_eq_false_iff_not, UInt8.le_iff_toNat_le, ne_eq, ← UInt8.toNat_inj]
  have : (48 : UInt8).toNat = 48 := rfl
  have : (32 : UInt8).toNat = 32 := rfl
  have : (13 : UInt8).toNat = 13 := rfl
  omega

/-- Digits behind white space are read up to what is none. -/
theorem number_digits {blanks digits rest : List UInt8} (hblanks : ∀ b ∈ blanks, isSpace b)
    (hne : digits ≠ []) (hdigits : ∀ b ∈ digits, isDigit b)
    (hrest : rest.takeWhile isDigit = []) :
    number (blanks ++ (digits ++ rest)) = some (false, decimal digits) := by
  have htake : (digits ++ rest).takeWhile isDigit = digits := by
    rw [List.takeWhile_append_of_pos hdigits, hrest, List.append_nil]
  cases digits with
  | nil => exact absurd rfl hne
  | cons d ds =>
      have hd : isDigit d := hdigits d List.mem_cons_self
      have hdrop : (blanks ++ (d :: ds ++ rest)).dropWhile isSpace = d :: ds ++ rest := by
        rw [List.dropWhile_append_of_pos hblanks, List.cons_append,
          List.dropWhile_cons_of_neg (by rw [isSpace_of_isDigit hd]; decide)]
      -- a digit is no sign
      have hsigned : (match d :: ds ++ rest with
          | 45 :: rest => (true, rest)
          | 43 :: rest => (false, rest)
          | _ => (false, d :: ds ++ rest)) = (false, d :: ds ++ rest) := by
        split
        · rename_i heq
          rw [(List.cons.inj heq).1] at hd
          exact absurd hd (by decide)
        · rename_i heq
          rw [(List.cons.inj heq).1] at hd
          exact absurd hd (by decide)
        · rfl
      rw [number, hdrop]
      simp only [hsigned, htake]
      rw [if_neg (List.cons_ne_nil d ds)]

end CString
