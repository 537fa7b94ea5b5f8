/-
The formatter puts out what a format means.

The fields of a directive are read back as they are written, because none begins with a character that
the field before it would take.  The digits of a number are made from the last one on, in a buffer of
32 characters, and turned round at the end.
-/
import Mathlib.Data.Nat.Digits.Lemmas
import Awoke.Util.Format
import Awoke.Proofs.Printf

namespace Awoke.Printf

/-! ### Numerals -/

theorem digitChar_decimal {d : Nat} (h : d < 10) :
    isDigit (digitChar false d) ∧ (digitChar false d).toNat - 48 = d := by
  have hall : ∀ d : Fin 10, isDigit (digitChar false d) ∧ (digitChar false d).toNat - 48 = d := by
    decide
  exact hall ⟨d, h⟩

/-- `_atoi` reads digits. -/
theorem atoi_digits {rest : List UInt8} (hrest : ¬isDigit (char rest)) (ds : List Nat) : ∀ i : Nat,
    (∀ d ∈ ds, d < 10) → ds.foldl (fun i d => i * 10 + d) i < 2 ^ 32 →
      atoi (ds.map (digitChar false) ++ rest) i = (ds.foldl (fun i d => i * 10 + d) i, rest) := by
  have hle : ∀ (ds : List Nat) (i : Nat), i ≤ ds.foldl (fun i d => i * 10 + d) i := by
    intro ds
    induction ds with
    | nil => exact fun i => Nat.le_refl i
    | cons d ds ih => exact fun i => Nat.le_trans (by omega) (ih (i * 10 + d))
  induction ds with
  | nil =>
      intro i _ _
      cases rest with
      | nil => rfl
      | cons c r =>
          rw [List.map_nil, List.nil_append, atoi, if_neg (show ¬isDigit c from hrest)]
          rfl
  | cons d ds ih =>
      intro i hds hfits
      obtain ⟨hd, hds⟩ := List.forall_mem_cons.mp hds
      obtain ⟨hdigit, hvalue⟩ := digitChar_decimal hd
      rw [List.foldl_cons] at hfits
      have hlt := Nat.lt_of_le_of_lt (hle ds (i * 10 + d)) hfits
      rw [List.map_cons, List.cons_append, atoi, if_pos hdigit, hvalue, Nat.mod_eq_of_lt hlt,
        ih _ hds hfits, List.foldl_cons]

theorem atoi_numeral {n : Nat} (h : n < 2 ^ 32) (rest : List UInt8)
    (hrest : ¬isDigit (char rest)) : atoi (numeral false 10 n ++ rest) 0 = (n, rest) := by
  by_cases hn : n = 0
  · have hzero := atoi_digits hrest [0] 0 (by decide) (by decide)
    rw [hn]
    exact hzero
  · have hvalue : (Nat.digits 10 n).reverse.foldl (fun i d => i * 10 + d) 0 = n := by
      have hof := Nat.ofDigits_digits 10 n
      rw [Nat.ofDigits_eq_foldr] at hof
      rw [List.foldl_reverse]
      refine Eq.trans (congrArg (fun f => List.foldr f 0 (Nat.digits 10 n)) ?_) hof
      funext d i
      simp only [Nat.cast_id]
      omega
    have hread := atoi_digits hrest (Nat.digits 10 n).reverse 0
      (fun d hd => Nat.digits_lt_base (by decide) (List.mem_reverse.mp hd)) (by rw [hvalue]; exact h)
    rw [numeral, if_neg hn, ← List.map_reverse, hread, hvalue]

/-- A numeral begins with a digit, which is no zero if the number is none. -/
theorem numeral_head (n : Nat) (rest : List UInt8) : isDigit (char (numeral false 10 n ++ rest)) ∧
    (n ≠ 0 → char (numeral false 10 n ++ rest) ≠ chr '0') := by
  by_cases hn : n = 0
  · rw [hn]
    exact ⟨rfl, fun hne => absurd rfl hne⟩
  · have hne := (Nat.digits_ne_nil_iff_ne_zero (b := 10)).mpr hn
    have hlast := Nat.getLast_digit_ne_zero 10 hn
    have hlt : (Nat.digits 10 n).getLast hne < 10 :=
      Nat.digits_lt_base (by decide) (List.getLast_mem hne)
    have hchar : char (numeral false 10 n ++ rest) = digitChar false ((Nat.digits 10 n).getLast hne) := by
      rw [numeral, if_neg hn, ← List.map_reverse]
      have hsplit : (Nat.digits 10 n).reverse =
          (Nat.digits 10 n).getLast hne :: (Nat.digits 10 n).dropLast.reverse := by
        conv_lhs => rw [← List.dropLast_append_getLast hne]
        rw [List.reverse_append]
        rfl
      rw [hsplit]
      rfl
    have hall : ∀ d : Fin 10, isDigit (digitChar false d) ∧
        (d.val ≠ 0 → digitChar false d ≠ chr '0') := by decide
    rw [hchar]
    have hd := hall ⟨_, hlt⟩
    exact ⟨hd.1, fun _ => hd.2 hlast⟩

/-! ### Fields are read back -/

/-- The flags that are written. -/
def Flag.set (flags : Flags) : Flag → Flags
  | .zero => { flags with zeropad := true }
  | .minus => { flags with left := true }
  | .plus => { flags with plus := true }
  | .space => { flags with space := true }

/-- A character that is no flag. -/
def NoFlag (c : UInt8) : Prop := c ∉ [chr '0', chr '-', chr '+', chr ' ', chr '#']

instance (c : UInt8) : Decidable (NoFlag c) := inferInstanceAs (Decidable (c ∉ _))

/-- A character that neither the flags nor a width take. -/
structure NoWidth (c : UInt8) : Prop where
  flag : NoFlag c
  digit : ¬isDigit c
  star : c ≠ chr '*'

theorem flagsField_stop {c : UInt8} (h : NoFlag c)
    (flags : Flags) (rest : List UInt8) :
    flagsField (c :: rest) flags = (flags, c :: rest) := by
  simp only [NoFlag, List.mem_cons, List.not_mem_nil, or_false, not_or] at h
  obtain ⟨hzero, hminus, hplus, hspace, hhash⟩ := h
  rw [flagsField, if_neg hzero, if_neg hminus, if_neg hplus, if_neg hspace, if_neg hhash]

theorem flagsField_shown {c : UInt8} (h : NoFlag c)
    (rest : List UInt8) : ∀ (fs : List Flag) (flags : Flags),
      flagsField (fs.map Flag.char ++ c :: rest) flags = (fs.foldl Flag.set flags, c :: rest) := by
  intro fs
  induction fs with
  | nil => exact fun flags => flagsField_stop h flags rest
  | cons f fs ih =>
      intro flags
      rw [List.map_cons, List.cons_append, List.foldl_cons, ← ih (Flag.set flags f)]
      cases f <;> rfl

/-- What the flags say. -/
theorem foldl_set (fs : List Flag) : fs.foldl Flag.set {} =
    ({ zeropad := .zero ∈ fs, left := .minus ∈ fs, plus := .plus ∈ fs, space := .space ∈ fs } : Flags) := by
  have hall : ∀ (fs : List Flag) (flags : Flags), fs.foldl Flag.set flags =
      { flags with
        zeropad := flags.zeropad || decide (.zero ∈ fs)
        left := flags.left || decide (.minus ∈ fs)
        plus := flags.plus || decide (.plus ∈ fs)
        space := flags.space || decide (.space ∈ fs) } := by
    intro fs
    induction fs with
    | nil =>
        intro flags
        simp only [List.foldl_nil, List.not_mem_nil, decide_false, Bool.or_false]
    | cons f fs ih =>
        intro flags
        rw [List.foldl_cons, ih]
        cases f <;>
          simp only [Flag.set, List.mem_cons, reduceCtorEq, false_or, true_or, decide_true,
            Bool.or_true, Bool.true_or]
  exact (hall fs {}).trans (by simp only [Bool.false_or])

/-- What a length sets. -/
def Length.set (len : Length) (flags : Flags) : Flags :=
  match len with
  | .none => flags
  | .hh => { flags with short := true, char := true }
  | .h => { flags with short := true }
  | .ll => { flags with long := true, longLong := true }
  | .l | .t | .j | .z => { flags with long := true }

theorem lengthField_shown (len : Length) (conv : Conv) (flags : Flags) (rest : List UInt8) :
    lengthField flags (len.shown ++ conv.char :: rest) = (len.set flags, conv.char :: rest) := by
  cases len <;> cases conv <;> rfl

/-- A length, or else the conversion, begins with none of the characters of the other fields. -/
theorem length_head (len : Length) (conv : Conv) (rest : List UInt8) :
    ∃ c r, len.shown ++ conv.char :: rest = c :: r ∧ NoWidth c ∧ c ≠ chr '.' := by
  have hconv : ∀ conv : Conv, NoFlag conv.char ∧ ¬isDigit conv.char ∧ conv.char ≠ chr '*' ∧
      conv.char ≠ chr '.' := by
    intro conv
    cases conv <;> decide
  have hlen : ∀ c ∈ [chr 'h', chr 'l', chr 't', chr 'j', chr 'z'], NoFlag c ∧ ¬isDigit c ∧
      c ≠ chr '*' ∧ c ≠ chr '.' := by
    intro c hc
    simp only [List.mem_cons, List.not_mem_nil, or_false] at hc
    rcases hc with rfl | rfl | rfl | rfl | rfl <;> decide
  have hhead : ∀ c, (NoFlag c ∧ ¬isDigit c ∧ c ≠ chr '*' ∧ c ≠ chr '.') → ∀ r,
      len.shown ++ conv.char :: rest = c :: r →
        ∃ c r, len.shown ++ conv.char :: rest = c :: r ∧ NoWidth c ∧ c ≠ chr '.' :=
    fun c h r heq => ⟨c, r, heq, ⟨h.1, h.2.1, h.2.2.1⟩, h.2.2.2⟩
  cases len with
  | none => exact hhead _ (hconv conv) _ rfl
  | hh => exact hhead (chr 'h') (hlen _ (by decide)) _ rfl
  | h => exact hhead (chr 'h') (hlen _ (by decide)) _ rfl
  | l => exact hhead (chr 'l') (hlen _ (by decide)) _ rfl
  | ll => exact hhead (chr 'l') (hlen _ (by decide)) _ rfl
  | t => exact hhead (chr 't') (hlen _ (by decide)) _ rfl
  | j => exact hhead (chr 'j') (hlen _ (by decide)) _ rfl
  | z => exact hhead (chr 'z') (hlen _ (by decide)) _ rfl

variable {δ : Type} {va va' : List (Arg δ)} {flags : Flags}

theorem precisionField_shown {prec : Precision} {p : Option Nat}
    (h : prec.take va = some (p, va')) (hflags : flags.precision = false) {c : UInt8}
    (hc : NoWidth c) (hdot : c ≠ chr '.') (rest : List UInt8) :
    precisionField flags (prec.shown ++ c :: rest) va =
      some ({ flags with precision := p.isSome }, p.getD 0, c :: rest, va') := by
  match prec, va with
  | .none, va =>
      obtain ⟨rfl, rfl⟩ := Prod.mk.inj (Option.some.inj h)
      have hsame : flags = { flags with precision := (none : Option Nat).isSome } := by
        rw [Option.isSome_none, ← hflags]
      rw [precisionField, if_neg (show char (Precision.none.shown ++ c :: rest) ≠ chr '.' from hdot),
        ← hsame]
      rfl
  | .bare, va =>
      obtain ⟨rfl, rfl⟩ := Prod.mk.inj (Option.some.inj h)
      refine (if_pos (show char (Precision.bare.shown ++ c :: rest) = chr '.' from rfl)).trans ?_
      exact (if_neg hc.digit).trans (if_neg hc.star)
  | .num n hn, va =>
      obtain ⟨rfl, rfl⟩ := Prod.mk.inj (Option.some.inj h)
      have hread := atoi_numeral hn (c :: rest) hc.digit
      refine (if_pos (show char ((Precision.num n hn).shown ++ c :: rest) = chr '.' from rfl)).trans ?_
      refine (if_pos (numeral_head n (c :: rest)).1).trans ?_
      simp only [Precision.shown, List.cons_append, List.tail_cons, hread]
      rfl
  | .star, .int w :: va =>
      rw [Precision.take] at h
      by_cases hneg : w.toInt32.toInt < 0
      · rw [if_pos hneg] at h
        cases h
      · rw [if_neg hneg] at h
        obtain ⟨rfl, rfl⟩ := Prod.mk.inj (Option.some.inj h)
        rfl
  | .star, [] => cases h
  | .star, .long _ :: _ => cases h
  | .star, .double _ :: _ => cases h
  | .star, .ptr _ _ :: _ => cases h

theorem precision_head (prec : Precision) {c : UInt8} (hc : NoWidth c) (rest : List UInt8) :
    ∃ c' r, prec.shown ++ c :: rest = c' :: r ∧ NoWidth c' := by
  have hdot : NoWidth (chr '.') := ⟨by decide, by decide, by decide⟩
  cases prec with
  | none => exact ⟨c, rest, rfl, hc⟩
  | bare => exact ⟨chr '.', _, rfl, hdot⟩
  | num n hn => exact ⟨chr '.', _, rfl, hdot⟩
  | star => exact ⟨chr '.', _, rfl, hdot⟩

theorem widthField_shown {width : Width} {left : Bool} {w : Nat}
    (h : width.take va = some ((left, w), va')) {c : UInt8} (hc : NoWidth c) (rest : List UInt8) :
    widthField flags (width.shown ++ c :: rest) va =
      some ({ flags with left := flags.left || left }, w, c :: rest, va') := by
  match width, va with
  | .none, va =>
      obtain ⟨hw, rfl⟩ := Prod.mk.inj (Option.some.inj h)
      obtain ⟨rfl, rfl⟩ := Prod.mk.inj hw
      rw [Bool.or_false]
      exact (if_neg hc.digit).trans (if_neg hc.star)
  | .num n hpos hn, va =>
      obtain ⟨hw, rfl⟩ := Prod.mk.inj (Option.some.inj h)
      obtain ⟨rfl, rfl⟩ := Prod.mk.inj hw
      have hread := atoi_numeral hn (c :: rest) hc.digit
      rw [Bool.or_false]
      refine (if_pos (numeral_head n (c :: rest)).1).trans ?_
      simp only [Width.shown, hread]
  | .star, .int v :: va =>
      rw [Width.take] at h
      by_cases hleast : v.toInt32.toInt = -2 ^ 31
      · rw [if_pos hleast] at h
        cases h
      · rw [if_neg hleast] at h
        obtain ⟨hw, rfl⟩ := Prod.mk.inj (Option.some.inj h)
        obtain ⟨rfl, rfl⟩ := Prod.mk.inj hw
        refine (if_neg (show ¬isDigit (chr '*') by decide)).trans ((if_pos rfl).trans ?_)
        simp only [vaInt, Option.bind_eq_bind, Option.bind_some, if_neg hleast]
        by_cases hneg : v.toInt32.toInt < 0
        · rw [if_pos hneg, decide_eq_true hneg, Bool.or_true]
          rfl
        · rw [if_neg hneg, decide_eq_false hneg, Bool.or_false]
          rfl
  | .star, [] => cases h
  | .star, .long _ :: _ => cases h
  | .star, .double _ :: _ => cases h
  | .star, .ptr _ _ :: _ => cases h

theorem width_head (width : Width) {c : UInt8} (hc : NoWidth c) (rest : List UInt8) :
    ∃ c' r, width.shown ++ c :: rest = c' :: r ∧ NoFlag c' := by
  cases width with
  | none => exact ⟨c, rest, rfl, hc.flag⟩
  | star => exact ⟨chr '*', _, rfl, by decide⟩
  | num n hpos hn =>
      obtain ⟨hdigit, hzero⟩ := numeral_head n (c :: rest)
      obtain ⟨c', r, heq⟩ := List.exists_cons_of_ne_nil
        (show numeral false 10 n ++ c :: rest ≠ [] from
          List.append_ne_nil_of_right_ne_nil _ (List.cons_ne_nil _ _))
      rw [heq] at hdigit hzero
      refine ⟨c', r, heq, ?_⟩
      have hother : ∀ c ∈ [chr '-', chr '+', chr ' ', chr '#'], ¬isDigit c := by
        intro c hc
        simp only [List.mem_cons, List.not_mem_nil, or_false] at hc
        rcases hc with rfl | rfl | rfl | rfl <;> decide
      intro hmem
      rcases List.mem_cons.mp hmem with heq | hmem
      · exact hzero (by omega) heq
      · exact hother c' hmem hdigit

/-! ### Integers -/

/-- The digits that are made are those of the number, the last one first. -/
theorem digits_eq {base : Nat} (hbase : 1 < base) (uppercase : Bool) : ∀ (room value : Nat),
    value ≠ 0 → (Nat.digits base value).length ≤ room →
      digits uppercase base room value = (Nat.digits base value).map (digitChar uppercase) := by
  intro room
  induction room with
  | zero =>
      intro value hvalue hroom
      have hne := (Nat.digits_ne_nil_iff_ne_zero (b := base)).mpr hvalue
      exact absurd (List.eq_nil_of_length_eq_zero (Nat.le_zero.mp hroom)) hne
  | succ room ih =>
      intro value hvalue hroom
      have hdef := Nat.digits_def' hbase (Nat.pos_of_ne_zero hvalue)
      rw [hdef, List.length_cons] at hroom
      rw [hdef, List.map_cons, digits]
      by_cases hmore : value / base ≠ 0
      · rw [if_pos hmore, ih _ hmore (by omega)]
      · rw [if_neg hmore, not_not.mp hmore, Nat.digits_zero, List.map_nil]

theorem significant_eq {base : Nat} (hbase : 1 < base) (uppercase : Bool) (precision : Option Nat)
    (value : Nat) (hroom : (significant uppercase base precision value).length ≤ ntoaBufferSize) :
    (if ¬precision.isSome ∨ value ≠ 0 then digits uppercase base ntoaBufferSize value else []) =
      (significant uppercase base precision value).reverse := by
  by_cases hnone : precision.isSome ∧ value = 0
  · rw [significant, if_pos hnone, if_neg (by tauto)]
    rfl
  · rw [significant, if_neg hnone] at hroom ⊢
    rw [if_pos (by tauto)]
    by_cases hvalue : value = 0
    · rw [numeral, if_pos hvalue, hvalue, ntoaBufferSize, digits, Nat.zero_mod, Nat.zero_div]
      rfl
    · rw [numeral, if_neg hvalue, List.length_reverse, List.length_map] at hroom
      rw [numeral, if_neg hvalue, List.reverse_reverse, digits_eq hbase uppercase _ _ hvalue hroom]

theorem sign_length (negative plus space : Bool) :
    (sign negative plus space).length = if negative ∨ plus ∨ space then 1 else 0 := by
  cases negative <;> cases plus <;> cases space <;> rfl

theorem append_sign (buf : List UInt8) (negative plus space : Bool)
    (h : (sign negative plus space).length + buf.length ≤ ntoaBufferSize) :
    (if negative then append buf (chr '-') else if plus then append buf (chr '+')
      else if space then append buf 32 else buf) = buf ++ sign negative plus space := by
  rw [sign_length] at h
  by_cases hsigned : negative ∨ plus ∨ space
  · rw [if_pos hsigned] at h
    have happend : ∀ c, append buf c = buf ++ [c] := fun c => if_pos (by omega)
    cases negative <;> cases plus <;> cases space <;>
      simp only [sign, happend, Bool.false_eq_true, if_true, if_false, List.append_nil]
  · simp only [not_or, Bool.not_eq_true] at hsigned
    obtain ⟨rfl, rfl, rfl⟩ := hsigned
    exact (List.append_nil buf).symm

theorem sign_reverse (negative plus space : Bool) :
    (sign negative plus space).reverse = sign negative plus space := by
  cases negative <;> cases plus <;> cases space <;> rfl

theorem zeros_zero (buf : List UInt8) : zeros buf 0 = buf := by
  rw [zeros, Nat.zero_min, Nat.zero_sub, List.replicate_zero, List.append_nil]

theorem zeros_length (buf : List UInt8) {n : Nat} (h : n ≤ ntoaBufferSize) :
    (zeros buf n).length = max buf.length n := by
  rw [zeros, List.length_append, List.length_replicate, Nat.min_eq_left h]
  omega

theorem ntoaBuf_left {flags : Flags} {buf : List UInt8} (negative : Bool) (base prec width : Nat)
    (hleft : flags.left = true) (hhash : flags.hash = false)
    (hroom : (sign negative flags.plus flags.space).length + buf.length ≤ ntoaBufferSize) :
    ntoaBuf buf negative base prec width flags =
      (buf ++ sign negative flags.plus flags.space, width) := by
  have hsign := append_sign buf negative flags.plus flags.space hroom
  simp only [ntoaBuf, hleft, hhash, if_true, Bool.false_eq_true, if_false, hsign]

theorem ntoaBuf_right {flags : Flags} {buf : List UInt8} (negative : Bool) (base : Nat)
    {prec width : Nat} (hleft : flags.left = false) (hhash : flags.hash = false)
    (hzero : flags.zeropad = false)
    (hroom : (sign negative flags.plus flags.space).length + max buf.length prec ≤
      ntoaBufferSize) :
    ntoaBuf buf negative base prec width flags =
      (zeros buf prec ++ sign negative flags.plus flags.space, width) := by
  have hsign := append_sign (zeros buf prec) negative flags.plus flags.space
    (by rw [zeros_length buf (by omega)]; exact hroom)
  simp only [ntoaBuf, hleft, hhash, hzero, Bool.false_eq_true, if_false, false_and, and_false, hsign]

/-- And for one with zeros in front. -/
theorem ntoaBuf_zero {flags : Flags} (buf : List UInt8) (negative : Bool) (base : Nat) {width : Nat}
    (hleft : flags.left = false) (hhash : flags.hash = false) (hzero : flags.zeropad = true)
    (hroom : (sign negative flags.plus flags.space).length + buf.length ≤ ntoaBufferSize)
    (hwidth : width ≤ ntoaBufferSize) :
    (ntoaBuf buf negative base 0 width flags).1 =
      buf ++ List.replicate (width -
        ((sign negative flags.plus flags.space).length + buf.length)) 48 ++
          sign negative flags.plus flags.space := by
  have hlen := sign_length negative flags.plus flags.space
  -- The width is one less if there is a sign; then a place is left for it.
  have hcases : ∀ w, (w = if width ≠ 0 ∧ (negative ∨ flags.plus ∨ flags.space) then width - 1
      else width) → (if negative then append (zeros buf w) (chr '-')
        else if flags.plus then append (zeros buf w) (chr '+')
        else if flags.space then append (zeros buf w) 32 else zeros buf w) =
      buf ++ List.replicate (width -
        ((sign negative flags.plus flags.space).length + buf.length)) 48 ++
          sign negative flags.plus flags.space := by
    intro w hw
    have hzeros : ∀ k, w - buf.length = k → w ≤ ntoaBufferSize →
        zeros buf w = buf ++ List.replicate k 48 := by
      intro k hk hw
      rw [zeros, Nat.min_eq_left hw, hk]
    by_cases hsigned : negative ∨ flags.plus ∨ flags.space
    · rw [if_pos hsigned] at hlen
      simp only [hsigned, and_true] at hw
      have hless : w = width - 1 := by
        rw [hw]
        split <;> omega
      have hpos : 0 < ntoaBufferSize := by decide
      rw [append_sign (zeros buf w) negative flags.plus flags.space
        (by rw [zeros_length buf (by omega)]; omega), hlen, hzeros _ rfl (by omega)]
      congr 3
      omega
    · rw [if_neg hsigned] at hlen
      simp only [hsigned, and_false, if_false] at hw
      rw [hlen, ← hzeros (width - (0 + buf.length)) (by omega) (by omega)]
      simp only [not_or, Bool.not_eq_true] at hsigned
      obtain ⟨hneg, hplus, hspace⟩ := hsigned
      rw [hneg, hplus, hspace]
      exact (List.append_nil _).symm
  have hbuf := hcases _ rfl
  simp only [ntoaBuf, hleft, hhash, hzero, zeros_zero, Bool.false_eq_true, if_false, if_true,
    true_and]
  exact hbuf

/-- **An integer stands in its field.** -/
theorem ntoaText_eq {y : Layout} (flags : Flags) {base value : Nat} (negative : Bool)
    (hbase : 1 < base) (hleft : flags.left = y.left)
    (hzero : flags.zeropad = (y.zero && y.precision.isNone))
    (hprec : flags.precision = y.precision.isSome) (hhash : flags.hash = false)
    (hfits : y.Fits (sign negative flags.plus flags.space).length
      (significant flags.uppercase base y.precision value).length) :
    ntoaText value negative base (y.precision.getD 0) y.width flags =
      field y.left (y.zero && y.precision.isNone) y.width (sign negative flags.plus flags.space)
        (body y.precision (significant flags.uppercase base y.precision value)) := by
  obtain ⟨hroom, hshort, hwidth⟩ := hfits
  have hbuf := significant_eq hbase flags.uppercase y.precision value
    (by omega)
  have hsame : (if value = 0 then { flags with hash := false } else flags) = flags := by
    rw [← hhash, ite_self]
  rw [ntoaText, hsame, hprec]
  simp only [hbuf]
  generalize significant flags.uppercase base y.precision value = ds at hroom hshort
  have hrev := sign_reverse negative flags.plus flags.space
  have hlen : (ds.reverse).length = ds.length := List.length_reverse
  rw [field, body]
  cases hy : y.left with
  | true =>
      have hnone : y.precision.getD 0 - ds.length = 0 := Nat.sub_eq_zero_of_le (hshort hy)
      rw [hy] at hleft
      rw [ntoaBuf_left negative base _ _ hleft hhash (by omega)]
      simp only [revText, hleft, hnone, not_true_eq_false, false_and, if_false, if_true,
        List.nil_append, List.replicate_zero, List.reverse_append, hrev, List.reverse_reverse,
        List.length_append, hlen, List.append_assoc, Nat.add_comm ds.length]
  | false =>
      rw [hy] at hleft
      cases hyz : (y.zero && y.precision.isNone) with
      | true =>
          obtain ⟨hyzero, hynone⟩ := Bool.and_eq_true_iff.mp hyz
          rw [hyz] at hzero
          have hprec0 : y.precision.getD 0 = 0 := by
            rw [Option.isNone_iff_eq_none.mp hynone]
            rfl
          have hbuffer := ntoaBuf_zero ds.reverse negative base hleft hhash hzero (by omega)
            (hwidth ⟨hyzero, by rw [hy]; exact Bool.false_ne_true, hynone⟩)
          rw [hprec0]
          simp only [revText, hleft, hzero, hbuffer, not_true_eq_false, and_false, if_false,
            Bool.false_eq_true, List.nil_append, List.append_nil, List.reverse_append, hrev,
            List.reverse_replicate, List.reverse_reverse, hlen, Nat.zero_sub, List.replicate_zero,
            List.append_assoc, if_true]
      | false =>
          rw [hyz] at hzero
          have hmin : min (y.precision.getD 0) ntoaBufferSize = y.precision.getD 0 := by omega
          rw [ntoaBuf_right negative base hleft hhash hzero (by omega), zeros, hmin]
          simp only [revText, hleft, hzero, Bool.false_eq_true, not_false_eq_true, and_self, if_true,
            if_false, List.append_nil, List.reverse_append, hrev, List.reverse_replicate,
            List.reverse_reverse, List.length_append, List.length_replicate, hlen,
            List.append_assoc]
          congr 2
          omega

/-! ### Conversions -/

/-- The flags once all fields but the length are read. -/
def Layout.fieldFlags (y : Layout) : Flags :=
  { left := y.left, zeropad := y.zero, plus := y.plus, space := y.space,
    precision := y.precision.isSome }

/-- The flags of an integer. -/
def Layout.intFlags (y : Layout) (signed uppercase : Bool) : Flags :=
  { left := y.left, zeropad := y.zero && y.precision.isNone, plus := signed && y.plus,
    space := signed && y.space, uppercase := uppercase, precision := y.precision.isSome }

theorem integerFlags_eq (conv : Conv) (len : Length) (y : Layout) :
    integerFlags conv.char (len.set y.fieldFlags) =
      len.set (y.intFlags (conv = .d ∨ conv = .i) (conv = .X)) := by
  obtain ⟨left, zero, plus, space, width, precision⟩ := y
  cases precision <;> cases zero <;> cases conv <;> cases len <;> rfl

@[simp] theorem set_left (len : Length) (f : Flags) : (len.set f).left = f.left := by
  cases len <;> rfl

@[simp] theorem set_zeropad (len : Length) (f : Flags) : (len.set f).zeropad = f.zeropad := by
  cases len <;> rfl

@[simp] theorem set_plus (len : Length) (f : Flags) : (len.set f).plus = f.plus := by
  cases len <;> rfl

@[simp] theorem set_space (len : Length) (f : Flags) : (len.set f).space = f.space := by
  cases len <;> rfl

@[simp] theorem set_hash (len : Length) (f : Flags) : (len.set f).hash = f.hash := by
  cases len <;> rfl

@[simp] theorem set_uppercase (len : Length) (f : Flags) :
    (len.set f).uppercase = f.uppercase := by
  cases len <;> rfl

@[simp] theorem set_precision (len : Length) (f : Flags) :
    (len.set f).precision = f.precision := by
  cases len <;> rfl

theorem set_wide (len : Length) (y : Layout) (signed uppercase : Bool) :
    ((len.set (y.intFlags signed uppercase)).longLong ∨
      (len.set (y.intFlags signed uppercase)).long) ↔ len.Wide := by
  cases len <;> simp [Length.set, Layout.intFlags, Length.Wide]

/-- The argument of an integer without sign. -/
theorem unsignedArg_eq {len : Length} {v : Nat} (y : Layout) (signed uppercase : Bool)
    (h : len.take va = some (v, va')) :
    unsignedArg (len.set (y.intFlags signed uppercase)) va = some (v, va') := by
  match va with
  | .int w :: va =>
      rw [Length.take] at h
      by_cases hwide : len.Wide
      · rw [if_pos hwide] at h
        cases h
      · rw [if_neg hwide] at h
        obtain ⟨rfl, rfl⟩ := Prod.mk.inj (Option.some.inj h)
        rw [unsignedArg, if_neg (mt (set_wide len y signed uppercase).mp hwide)]
        cases len with
        | none =>
            have hfull : w.toNat % 2 ^ 32 = w.toNat := Nat.mod_eq_of_lt w.toNat_lt
            exact congrArg (fun v => some (v, va)) hfull.symm
        | hh => exact congrArg (fun v => some (v, va)) (UInt32.toNat_toUInt8 w)
        | h => exact congrArg (fun v => some (v, va)) (UInt32.toNat_toUInt16 w)
        | l | ll | t | j | z => exact absurd trivial hwide
  | .long w :: va =>
      rw [Length.take] at h
      by_cases hwide : len.Wide
      · rw [if_pos hwide] at h
        obtain ⟨rfl, rfl⟩ := Prod.mk.inj (Option.some.inj h)
        exact if_pos ((set_wide len y signed uppercase).mpr hwide)
      · rw [if_neg hwide] at h
        cases h
  | [] => cases h
  | .double _ :: _ => cases h
  | .ptr _ _ :: _ => cases h

/-- And of one that has a sign. -/
theorem signedArg_eq {len : Length} {v : Nat} (y : Layout) (signed uppercase : Bool)
    (h : len.take va = some (v, va')) :
    signedArg (len.set (y.intFlags signed uppercase)) va =
      some (Int.bmod v (2 ^ len.bits), va') := by
  match va with
  | .int w :: va =>
      rw [Length.take] at h
      by_cases hwide : len.Wide
      · rw [if_pos hwide] at h
        cases h
      · rw [if_neg hwide] at h
        obtain ⟨rfl, rfl⟩ := Prod.mk.inj (Option.some.inj h)
        rw [signedArg, if_neg (mt (set_wide len y signed uppercase).mp hwide)]
        cases len with
        | none =>
            have hfull : w.toNat % 2 ^ 32 = w.toNat := Nat.mod_eq_of_lt w.toNat_lt
            refine congrArg (fun v => some (v, va)) ?_
            rw [show Length.none.bits = 32 from rfl, hfull]
            exact BitVec.toInt_eq_toNat_bmod w.toBitVec
        | hh =>
            refine congrArg (fun v => some (v, va)) ?_
            rw [show Length.hh.bits = 8 from rfl, ← UInt32.toNat_toUInt8 w]
            exact BitVec.toInt_eq_toNat_bmod w.toUInt8.toBitVec
        | h =>
            refine congrArg (fun v => some (v, va)) ?_
            rw [show Length.h.bits = 16 from rfl, ← UInt32.toNat_toUInt16 w]
            exact BitVec.toInt_eq_toNat_bmod w.toUInt16.toBitVec
        | l | ll | t | j | z => exact absurd trivial hwide
  | .long w :: va =>
      rw [Length.take] at h
      by_cases hwide : len.Wide
      · rw [if_pos hwide] at h
        obtain ⟨rfl, rfl⟩ := Prod.mk.inj (Option.some.inj h)
        have hbits : len.bits = 64 := by
          cases len <;> first | rfl | exact absurd hwide (by decide)
        refine (if_pos ((set_wide len y signed uppercase).mpr hwide)).trans ?_
        refine congrArg (fun v => some (v, va)) ?_
        rw [hbits]
        exact BitVec.toInt_eq_toNat_bmod w.toBitVec
      · rw [if_neg hwide] at h
        cases h
  | [] => cases h
  | .double _ :: _ => cases h
  | .ptr _ _ :: _ => cases h

section

variable {σ : Type} {out : Out σ} {maxlen : Nat} {s : Sink σ} {text : List UInt8}

/-- What an integer puts out is its text. -/
theorem ntoa_integer {y : Layout} {len : Length} {signed uppercase negative : Bool}
    {base value : Nat} (hbase : 1 < base)
    (h : y.integer uppercase base signed negative value = some text) :
    ntoa out maxlen value negative base (y.precision.getD 0) y.width
      (len.set (y.intFlags signed uppercase)) s = s.puts out maxlen text := by
  rw [Layout.integer] at h
  by_cases hfits : y.Fits (sign negative (signed && y.plus) (signed && y.space)).length
    (significant uppercase base y.precision value).length
  · rw [if_pos hfits] at h
    have htext := ntoaText_eq (len.set (y.intFlags signed uppercase)) negative hbase
      (set_left ..) (set_zeropad ..) (set_precision ..) (set_hash ..)
      (by rw [set_plus, set_space, set_uppercase]; exact hfits)
    rw [set_plus, set_space, set_uppercase] at htext
    rw [ntoa_eq, htext]
    exact congrArg _ (Option.some.inj h)
  · rw [if_neg hfits] at h
    cases h

theorem signed_text {conv : Conv} (hconv : conv = .d ∨ conv = .i) {len : Length} {y : Layout}
    (h : (len.take va).bind (fun (v, va) => (y.signed len v).map (·, va)) = some (text, va')) :
    integer out maxlen conv.char (len.set y.fieldFlags) y.width (y.precision.getD 0) va s =
      some (s.puts out maxlen text, va') := by
  obtain ⟨⟨v, va1⟩, htake, h⟩ := Option.bind_eq_some_iff.mp h
  obtain ⟨text', hsigned, heq⟩ := Option.map_eq_some_iff.mp h
  obtain ⟨rfl, rfl⟩ := Prod.mk.inj heq
  have hchar : conv.char = chr 'i' ∨ conv.char = chr 'd' := by
    rcases hconv with rfl | rfl
    · exact .inr rfl
    · exact .inl rfl
  have hbase : baseOf conv.char = 10 := by
    rcases hconv with rfl | rfl <;> rfl
  have hflags := integerFlags_eq conv len y
  rw [decide_eq_true hconv,
    decide_eq_false (show conv ≠ .X by rcases hconv with rfl | rfl <;> decide)] at hflags
  rw [Layout.signed] at hsigned
  by_cases hleast : 32 ≤ len.bits ∧ Int.bmod v (2 ^ len.bits) = -2 ^ (len.bits - 1)
  · rw [if_pos hleast] at hsigned
    cases hsigned
  rw [if_neg hleast] at hsigned
  have hneg : Negates (len.set (y.intFlags true false)) (Int.bmod v (2 ^ len.bits)) := by
    rw [Negates]
    by_cases hwide : len.Wide
    · have hbits : len.bits = 64 := by
        cases len <;> first | rfl | exact absurd hwide (by decide)
      rw [if_pos ((set_wide len y true false).mpr hwide)]
      rw [hbits] at hleast ⊢
      exact fun heq => hleast ⟨by decide, heq⟩
    · rw [if_neg (mt (set_wide len y true false).mp hwide)]
      by_cases hbits : len.bits = 32
      · rw [hbits] at hleast ⊢
        exact fun heq => hleast ⟨by decide, heq⟩
      · have hfew : len.bits ≤ 16 := by
          cases len <;> first | decide | exact absurd rfl hbits | exact absurd trivial hwide
        have hpow : 2 ^ len.bits ≤ 2 ^ 16 := Nat.pow_le_pow_right (by decide) hfew
        have hpos := Nat.two_pow_pos len.bits
        have hlow := Int.le_bmod (x := (v : Int)) hpos
        intro heq
        rw [heq] at hlow
        omega
  have hput : ∀ negative value, y.integer false 10 true negative value = some text' →
      ntoa out maxlen value negative 10 (y.precision.getD 0) y.width
        (len.set (y.intFlags true false)) s = s.puts out maxlen text' := fun negative value h =>
    ntoa_integer (by decide) h
  simp only [integer, if_pos hchar, hflags, hbase, signedArg_eq y true false htake,
    Option.bind_eq_bind, Option.bind_some, if_pos hneg, ntoaLongLong, ntoaLong, ite_self,
    hput _ _ hsigned]

theorem unsigned_text (conv : Conv) (hconv : conv ∈ [Conv.u, .x, .X, .o, .b]) {len : Length}
    {y : Layout}
    (h : (len.take va).bind (fun (v, va) =>
      (y.integer (conv = .X) (baseOf conv.char) false false v).map (·, va)) = some (text, va')) :
    integer out maxlen conv.char (len.set y.fieldFlags) y.width (y.precision.getD 0) va s =
      some (s.puts out maxlen text, va') := by
  obtain ⟨⟨v, va1⟩, htake, h⟩ := Option.bind_eq_some_iff.mp h
  obtain ⟨text', hunsigned, heq⟩ := Option.map_eq_some_iff.mp h
  obtain ⟨rfl, rfl⟩ := Prod.mk.inj heq
  have hall : ∀ conv ∈ [Conv.u, .x, .X, .o, .b], ¬(conv = .d ∨ conv = .i) ∧
      ¬(conv.char = chr 'i' ∨ conv.char = chr 'd') ∧ 1 < baseOf conv.char := by decide
  obtain ⟨hsigned, hchar, hbase⟩ := hall conv hconv
  have hflags := integerFlags_eq conv len y
  rw [decide_eq_false hsigned] at hflags
  simp only [integer, if_neg hchar, hflags, unsignedArg_eq y false _ htake, Option.bind_eq_bind,
    Option.bind_some, ntoaLongLong, ntoaLong, ite_self, ntoa_integer hbase hunsigned]

theorem padded_field {flags : Flags} {left : Bool} (h : flags.left = left) (width : Nat)
    (text : List UInt8) :
    padded flags (width - text.length) text = field left false width [] text := by
  rw [padded, field, h]
  simp only [List.length_nil, Nat.zero_add, List.nil_append, Bool.false_eq_true, if_false,
    List.append_nil]

theorem strnlenS_eq : ∀ (str : List UInt8) (n : Nat), 0 ∉ str → strnlenS str n = min str.length n := by
  intro str
  induction str with
  | nil => exact fun n _ => (Nat.zero_min n).symm
  | cons c str ih =>
      intro n hzero
      rw [List.mem_cons, not_or] at hzero
      rw [strnlenS, List.length_cons]
      cases n with
      | zero => rw [if_neg (fun h => h.2 rfl), Nat.min_zero]
      | succ n =>
          rw [if_pos ⟨fun heq => hzero.1 heq.symm, Nat.succ_ne_zero n⟩, Nat.add_sub_cancel,
            ih n hzero.2]
          omega

theorem stringChars_eq (flags : Flags) : ∀ (str : List UInt8) (n : Nat), 0 ∉ str →
    stringChars flags str n = if flags.precision then str.take n else str := by
  intro str
  induction str with
  | nil =>
      intro n _
      rw [stringChars, List.take_nil, ite_self]
  | cons c str ih =>
      intro n hzero
      rw [List.mem_cons, not_or] at hzero
      have hc : c ≠ 0 := fun heq => hzero.1 heq.symm
      rw [stringChars, ih _ hzero.2]
      cases hflag : flags.precision with
      | false =>
          simp only [hc, ne_eq, not_false_eq_true, Bool.false_eq_true, true_or, and_self, if_true,
            if_false]
      | true =>
          cases n with
          | zero =>
              simp only [not_true_eq_false, ne_eq, or_self, and_false, if_false, if_true,
                List.take_zero]
          | succ n =>
              simp only [hc, ne_eq, not_false_eq_true, Nat.succ_ne_zero, or_true, and_self, if_true,
                Nat.add_sub_cancel, List.take_succ_cons]

variable (floats : UInt8 → δ → Nat → Nat → Flags → List UInt8)

/-- **A conversion puts out what it stands for.** -/
theorem convert_text (conv : Conv) {len : Length} {y : Layout}
    (h : conv.text len y va = some (text, va')) :
    convert out maxlen floats conv.char (len.set y.fieldFlags) y.width (y.precision.getD 0) va s =
      some (s.puts out maxlen text, va') := by
  cases conv with
  | d => exact signed_text (.inl rfl) h
  | i => exact signed_text (.inr rfl) h
  | u => exact unsigned_text .u (by decide) h
  | x => exact unsigned_text .x (by decide) h
  | X => exact unsigned_text .X (by decide) h
  | o => exact unsigned_text .o (by decide) h
  | b => exact unsigned_text .b (by decide) h
  | c =>
      obtain ⟨⟨v, va1⟩, hva, h⟩ := Option.bind_eq_some_iff.mp h
      dsimp only at h
      by_cases hlen : len = .none
      · rw [if_pos hlen] at h
        obtain ⟨rfl, rfl⟩ := Prod.mk.inj (Option.some.inj h)
        have hfield := padded_field (set_left len y.fieldFlags) y.width [v.toUInt8]
        have hput : character out maxlen (len.set y.fieldFlags) y.width va s = _ :=
          character_eq (len.set y.fieldFlags) y.width va hva
        rw [List.length_singleton] at hfield
        rw [hfield] at hput
        exact hput
      · rw [if_neg hlen] at h
        cases h
  | s =>
      obtain ⟨⟨⟨addr, str⟩, va1⟩, hva, h⟩ := Option.bind_eq_some_iff.mp h
      dsimp only at h
      by_cases hstr : len = .none ∧ addr ≠ 0 ∧ 0 ∉ str ∧ str.length < 2 ^ 32
      · rw [if_pos hstr] at h
        obtain ⟨-, haddr, hzero, hlong⟩ := hstr
        obtain ⟨rfl, rfl⟩ := Prod.mk.inj (Option.some.inj h)
        have hput : string out maxlen (len.set y.fieldFlags) y.width (y.precision.getD 0) va s = _ :=
          string_eq (len.set y.fieldFlags) y.width (y.precision.getD 0) va hva haddr
        have hprec : (len.set y.fieldFlags).precision = y.precision.isSome := set_precision ..
        have hcounted : counted (len.set y.fieldFlags) (y.precision.getD 0) str =
            (str.take (y.precision.getD str.length)).length := by
          rw [counted, strnlenS_eq str _ hzero, hprec, List.length_take]
          cases y.precision with
          | none =>
              simp only [Option.isSome_none, Option.getD_none, Bool.false_eq_true, if_false,
                not_true_eq_false, ne_eq]
              omega
          | some n =>
              simp only [Option.isSome_some, Option.getD_some, if_true]
              split <;> omega
        have hchars : stringChars (len.set y.fieldFlags) str (y.precision.getD 0) =
            str.take (y.precision.getD str.length) := by
          rw [stringChars_eq _ str _ hzero, hprec]
          cases y.precision with
          | none => exact List.take_length.symm
          | some n => rfl
        rw [hcounted, hchars, padded_field (set_left len y.fieldFlags)] at hput
        exact hput
      · rw [if_neg hstr] at h
        cases h
  | percent =>
      obtain ⟨rfl, rfl⟩ := Prod.mk.inj (Option.some.inj h)
      rfl

/-- **A directive is read as it is written**, and puts out what it stands for. -/
theorem directive_text (d : Directive) (rest : List UInt8) (h : d.text va = some (text, va')) :
    directive out maxlen floats (d.shown.tail ++ rest) va s =
      some (s.puts out maxlen text, rest, va') := by
  obtain ⟨⟨y, va3⟩, hlayout, htext⟩ := Option.bind_eq_some_iff.mp h
  obtain ⟨⟨⟨left, w⟩, va1⟩, hwidth, hlayout⟩ := Option.bind_eq_some_iff.mp hlayout
  obtain ⟨⟨p, va2⟩, hprec, heq⟩ := Option.map_eq_some_iff.mp hlayout
  obtain ⟨rfl, rfl⟩ := Prod.mk.inj heq
  obtain ⟨c3, r3, hlen, hc3, hdot⟩ := length_head d.length d.conv rest
  obtain ⟨c2, r2, hprecShown, hc2⟩ := precision_head d.precision hc3 r3
  obtain ⟨c1, r1, hwidthShown, hc1⟩ := width_head d.width hc2 r2
  have hshown : d.shown.tail ++ rest = d.flags.map Flag.char ++ c1 :: r1 := by
    rw [← hwidthShown, ← hprecShown, ← hlen]
    simp only [Directive.shown, List.tail_cons, List.append_assoc, List.singleton_append]
  rw [directive, hshown, flagsField_shown hc1, foldl_set]
  dsimp only
  rw [← hwidthShown, widthField_shown hwidth hc2]
  simp only [Option.bind_eq_bind, Option.bind_some]
  rw [← hprecShown, precisionField_shown hprec rfl hc3 hdot]
  simp only [Option.bind_some]
  rw [← hlen, lengthField_shown]
  have hconvert : convert out maxlen floats d.conv.char _ _ _ va2 s = _ :=
    convert_text floats d.conv htext
  have hleft : decide (Flag.minus ∈ d.flags ∨ left = true) =
      (decide (Flag.minus ∈ d.flags) || left) := by
    rw [Bool.decide_or, Bool.decide_eq_true]
  simp only [hleft, Layout.fieldFlags] at hconvert
  simp only [char, List.headD_cons, List.tail_cons]
  rw [hconvert]
  rfl

/-- **A format puts out what it means.** -/
theorem loop_text : ∀ (pieces : List Piece) (va : List (Arg δ)) (text : List UInt8) (turns : Nat)
    (s : Sink σ), meaning pieces va = some text → (format pieces).length ≤ turns →
      loop out maxlen floats turns (format pieces) va s = some (s.puts out maxlen text) := by
  intro pieces
  induction pieces with
  | nil =>
      intro va text turns s h _
      obtain rfl := Option.some.inj h
      cases turns <;> rfl
  | cons piece pieces ih =>
      intro va text turns s h hturns
      obtain ⟨⟨first, va1⟩, hpiece, h⟩ := Option.bind_eq_some_iff.mp h
      obtain ⟨more, hmore, rfl⟩ := Option.map_eq_some_iff.mp h
      rw [puts_append]
      cases piece with
      | lit c plain =>
          obtain ⟨rfl, rfl⟩ := Prod.mk.inj (Option.some.inj hpiece)
          have hshown : format (.lit c plain :: pieces) = c :: format pieces := rfl
          rw [hshown, List.length_cons] at hturns
          obtain ⟨turns, rfl⟩ : ∃ n, turns = n + 1 := ⟨turns - 1, by omega⟩
          rw [hshown, loop, if_neg plain.1, if_pos plain.2]
          exact ih va more turns _ hmore (by omega)
      | directive d =>
          have hshown : format (.directive d :: pieces) =
              chr '%' :: (d.shown.tail ++ format pieces) := rfl
          rw [hshown, List.length_cons, List.length_append] at hturns
          obtain ⟨turns, rfl⟩ : ∃ n, turns = n + 1 := ⟨turns - 1, by omega⟩
          have hput : directive out maxlen floats (d.shown.tail ++ format pieces) va s = _ :=
            directive_text floats d (format pieces) hpiece
          rw [hshown, loop, if_neg (by decide), if_neg (by decide), hput]
          exact ih va1 more turns _ hmore (by omega)

end

variable (floats : UInt8 → δ → Nat → Nat → Flags → List UInt8)

theorem bar_plain : (124 : UInt8) ≠ 0 ∧ (124 : UInt8) ≠ chr '%' := by decide

theorem four_pos : 0 < 4 := Nat.succ_pos 3

theorem four_fits : 4 < 2 ^ 32 := by decide

/-- `%-*d|%04lx`. -/
def dumpFormat : List Piece :=
  [.directive ⟨[.minus], .star, .none, .none, .d⟩, .lit 124 bar_plain,
    .directive ⟨[.zero], .num 4 four_pos four_fits, .none, .l, .x⟩]

end Awoke.Printf
