/-
All functions of the formatter print the same text.

What a format puts out does not depend on where it goes: nothing reads `buffer` back, and `idx` only
counts.  So there is one text, and each function makes of it what its `out` makes of one character.
-/
import Awoke.Lib.CellOps
import Awoke.Lib.Pieces
import Awoke.Util.Printf
import Awoke.Util.LogLine

namespace Awoke.Printf

variable {σ δ : Type} {out : Out σ} {maxlen : Nat} {s : Sink σ}

/-! ### One text after another -/

@[simp] theorem puts_nil : s.puts out maxlen [] = s := rfl

theorem puts_append (text more : List UInt8) :
    s.puts out maxlen (text ++ more) = (s.puts out maxlen text).puts out maxlen more :=
  List.foldl_append

theorem pad_eq (n : Nat) : s.pad out maxlen n = s.puts out maxlen (List.replicate n 32) := rfl

theorem puts_idx (text : List UInt8) : ∀ s : Sink σ,
    (s.puts out maxlen text).idx = s.idx + text.length := by
  induction text with
  | nil => exact fun _ => rfl
  | cons c text ih =>
      intro s
      rw [List.length_cons]
      have hnext := ih (s.put out maxlen c)
      rw [show (s.put out maxlen c).idx = s.idx + 1 from rfl] at hnext
      exact hnext.trans (by omega)

/-- What `_out_rev` puts out. -/
def revText (buf : List UInt8) (width : Nat) (flags : Flags) : List UInt8 :=
  (if ¬flags.left ∧ ¬flags.zeropad then List.replicate (width - buf.length) 32 else []) ++
    (buf.reverse ++ if flags.left then List.replicate (width - buf.length) 32 else [])

theorem outRev_eq (buf : List UInt8) (width : Nat) (flags : Flags) :
    outRev out maxlen buf width flags s = s.puts out maxlen (revText buf width flags) := by
  rw [outRev, revText]
  cases hleft : flags.left with
  | true =>
      simp only [not_true_eq_false, false_and, if_false, if_true, List.nil_append, pad_eq,
        puts_append]
      rw [puts_idx, List.length_reverse, Nat.add_sub_cancel_left]
  | false =>
      simp only [Bool.false_eq_true, not_false_eq_true, true_and, if_false, List.append_nil,
        puts_append]
      split
      · rw [pad_eq]
      · rfl

/-- What `_ntoa_long` puts out. -/
def ntoaText (value : Nat) (negative : Bool) (base prec width : Nat) (flags : Flags) : List UInt8 :=
  let flags := if value = 0 then { flags with hash := false } else flags
  let buf :=
    if ¬flags.precision ∨ value ≠ 0 then digits flags.uppercase base ntoaBufferSize value else []
  let (buf, width) := ntoaBuf buf negative base prec width flags
  revText buf width flags

theorem ntoa_eq (value : Nat) (negative : Bool) (base prec width : Nat) (flags : Flags) :
    ntoa out maxlen value negative base prec width flags s =
      s.puts out maxlen (ntoaText value negative base prec width flags) := by
  rw [ntoa, ntoaText, ntoaFormat]
  exact outRev_eq _ _ _

/-! ### A text, whatever it goes to -/

/-- A step of the formatter puts out the text of `r`, whatever `out` is, and returns what `r` does. -/
def Says {α : Type} (f : ∀ σ : Type, Out σ → Nat → Sink σ → Option (Sink σ × α))
    (r : Option (List UInt8 × α)) : Prop :=
  ∀ (σ : Type) (out : Out σ) (maxlen : Nat) (s : Sink σ),
    f σ out maxlen s = r.map fun (text, a) => (s.puts out maxlen text, a)

variable (c : UInt8) (flags : Flags) (width precision : Nat) (va : List (Arg δ))

theorem integer_says : ∃ r, Says (fun _ out maxlen s =>
    integer out maxlen c flags width precision va s) r := by
  by_cases hsigned : c = chr 'i' ∨ c = chr 'd'
  · cases hvalue : signedArg (integerFlags c flags) va with
    | none =>
        refine ⟨none, fun σ out maxlen s => ?_⟩
        simp only [integer, if_pos hsigned, hvalue, Option.bind_eq_bind, Option.bind_none,
          Option.map_none]
    | some p =>
        obtain ⟨value, va'⟩ := p
        by_cases hneg : Negates (integerFlags c flags) value
        · refine ⟨some (ntoaText value.natAbs (value < 0) (baseOf c) precision width
            (integerFlags c flags), va'), fun σ out maxlen s => ?_⟩
          simp only [integer, if_pos hsigned, hvalue, Option.bind_eq_bind, Option.bind_some,
            if_pos hneg, ntoaLongLong, ntoaLong, ntoa_eq, ite_self, Option.map_some]
        · refine ⟨none, fun σ out maxlen s => ?_⟩
          simp only [integer, if_pos hsigned, hvalue, Option.bind_eq_bind, Option.bind_some,
            if_neg hneg, Option.map_none]
  · cases hvalue : unsignedArg (integerFlags c flags) va with
    | none =>
        refine ⟨none, fun σ out maxlen s => ?_⟩
        simp only [integer, if_neg hsigned, hvalue, Option.bind_eq_bind, Option.bind_none,
          Option.map_none]
    | some p =>
        obtain ⟨value, va'⟩ := p
        refine ⟨some (ntoaText value false (baseOf c) precision width (integerFlags c flags), va'),
          fun σ out maxlen s => ?_⟩
        simp only [integer, if_neg hsigned, hvalue, Option.bind_eq_bind, Option.bind_some,
          ntoaLongLong, ntoaLong, ntoa_eq, ite_self, Option.map_some]

/-- What is put out between spaces, in front of it or behind it. -/
def padded (flags : Flags) (n : Nat) (text : List UInt8) : List UInt8 :=
  if flags.left then text ++ List.replicate n 32 else List.replicate n 32 ++ text

theorem padded_eq (n : Nat) (text : List UInt8) :
    (if flags.left then (((if ¬flags.left then s.pad out maxlen n else s).puts out maxlen text).pad
        out maxlen n)
      else ((if ¬flags.left then s.pad out maxlen n else s).puts out maxlen text)) =
      s.puts out maxlen (padded flags n text) := by
  rw [padded]
  cases hleft : flags.left with
  | true =>
      simp only [not_true_eq_false, if_false, if_true, puts_append]
      rfl
  | false =>
      simp only [Bool.false_eq_true, not_false_eq_true, if_true, if_false, puts_append]
      rfl

theorem character_eq {v : UInt32} {va' : List (Arg δ)} (hva : vaInt va = some (v, va')) :
    character out maxlen flags width va s =
      some (s.puts out maxlen (padded flags (width - 1) [v.toUInt8]), va') := by
  rw [character, ← padded_eq, hva]
  rfl

theorem character_says : ∃ r, Says (fun _ out maxlen s =>
    character out maxlen flags width va s) r := by
  cases hva : vaInt va with
  | none =>
      refine ⟨none, fun σ out maxlen s => ?_⟩
      simp only [character, hva, Option.bind_eq_bind, Option.bind_none, Option.map_none]
  | some p =>
      obtain ⟨v, va'⟩ := p
      exact ⟨some (padded flags (width - 1) [v.toUInt8], va'), fun σ out maxlen s =>
        character_eq flags width va hva⟩

/-- How many characters of a string are counted. -/
def counted (flags : Flags) (precision : Nat) (p : List UInt8) : Nat :=
  let l := strnlenS p (if precision ≠ 0 then precision else 2 ^ 64 - 1) % 2 ^ 32
  if flags.precision then min l precision else l

theorem string_eq {addr : UInt64} {p : List UInt8} {va' : List (Arg δ)}
    (hva : vaPtr va = some ((addr, p), va')) (haddr : addr ≠ 0) :
    string out maxlen flags width precision va s =
      some (s.puts out maxlen (padded flags (width - counted flags precision p)
        (stringChars flags p precision)), va') := by
  rw [string, ← padded_eq, hva]
  simp only [Option.bind_eq_bind, Option.bind_some, if_neg haddr]
  rfl

theorem string_says : ∃ r, Says (fun _ out maxlen s =>
    string out maxlen flags width precision va s) r := by
  cases hva : vaPtr va with
  | none =>
      refine ⟨none, fun σ out maxlen s => ?_⟩
      simp only [string, hva, Option.bind_eq_bind, Option.bind_none, Option.map_none]
  | some q =>
      obtain ⟨⟨addr, p⟩, va'⟩ := q
      by_cases haddr : addr = 0
      · refine ⟨none, fun σ out maxlen s => ?_⟩
        simp only [string, hva, Option.bind_eq_bind, Option.bind_some, if_pos haddr,
          Option.bind_none, Option.map_none]
      · exact ⟨some (padded flags (width - counted flags precision p)
          (stringChars flags p precision), va'), fun σ out maxlen s =>
            string_eq flags width precision va hva haddr⟩

theorem pointer_says : ∃ r, Says (fun _ out maxlen s =>
    pointer out maxlen flags precision va s) r := by
  cases hva : vaPtr va with
  | none =>
      refine ⟨none, fun σ out maxlen s => ?_⟩
      simp only [pointer, hva, Option.bind_eq_bind, Option.bind_none, Option.map_none]
  | some q =>
      obtain ⟨⟨addr, p⟩, va'⟩ := q
      refine ⟨some (ntoaText addr.toNat false 16 precision 16
        { flags with zeropad := true, uppercase := true }, va'), fun σ out maxlen s => ?_⟩
      simp only [pointer, hva, Option.bind_eq_bind, Option.bind_some, ntoaLongLong, ntoa_eq,
        Option.map_some]

variable (floats : UInt8 → δ → Nat → Nat → Flags → List UInt8)

theorem floating_says : ∃ r, Says (fun _ out maxlen s =>
    floating out maxlen floats c flags width precision va s) r := by
  cases hva : vaDouble va with
  | none =>
      refine ⟨none, fun σ out maxlen s => ?_⟩
      simp only [floating, hva, Option.bind_eq_bind, Option.bind_none, Option.map_none]
  | some q =>
      obtain ⟨v, va'⟩ := q
      refine ⟨some (floats c v precision width
        (let flags := if c = chr 'g' ∨ c = chr 'G' then { flags with adaptExp := true } else flags
        if c = chr 'F' ∨ c = chr 'E' ∨ c = chr 'G' then { flags with uppercase := true } else flags),
          va'), fun σ out maxlen s => ?_⟩
      simp only [floating, hva, Option.bind_eq_bind, Option.bind_some, Option.map_some]

theorem convert_says : ∃ r, Says (fun _ out maxlen s =>
    convert out maxlen floats c flags width precision va s) r := by
  unfold convert
  split
  · exact integer_says c flags width precision va
  split
  · exact floating_says c flags width precision va floats
  split
  · exact character_says flags width va
  split
  · exact string_says flags width precision va
  split
  · exact pointer_says flags precision va
  split
  · exact ⟨none, fun _ _ _ _ => rfl⟩
  · exact ⟨some ([c], va), fun _ _ _ _ => rfl⟩

/-- What a directive leaves of the format and of the arguments is no matter of `out` either. -/
theorem directive_says (format : List UInt8) : ∃ r, Says (fun _ out maxlen s =>
    directive out maxlen floats format va s) r := by
  unfold directive
  generalize flagsField format {} = fields
  obtain ⟨flags, format⟩ := fields
  cases hwidth : widthField flags format va with
  | none => exact ⟨none, fun σ out maxlen s => by simp only [hwidth, Option.bind_eq_bind,
      Option.bind_none, Option.map_none]⟩
  | some fields =>
      obtain ⟨flags, width, format, va⟩ := fields
      cases hprec : precisionField flags format va with
      | none => exact ⟨none, fun σ out maxlen s => by simp only [hwidth, hprec,
          Option.bind_eq_bind, Option.bind_some, Option.bind_none, Option.map_none]⟩
      | some fields =>
          obtain ⟨flags, precision, format, va⟩ := fields
          generalize hlength : lengthField flags format = fields
          obtain ⟨flags, format⟩ := fields
          obtain ⟨r, hr⟩ := convert_says (char format) flags width precision va floats
          refine ⟨r.map fun (text, va) => (text, format.tail, va), fun σ out maxlen s => ?_⟩
          simp only [hwidth, hprec, hlength, Option.bind_eq_bind, Option.bind_some, hr σ out maxlen s,
            Option.map_map]
          cases r with
          | none => rfl
          | some p => rfl

/-- **One text for all.** -/
theorem loop_says : ∀ (turns : Nat) (format : List UInt8) (va : List (Arg δ)),
    ∃ r : Option (List UInt8), ∀ (σ : Type) (out : Out σ) (maxlen : Nat) (s : Sink σ),
      loop out maxlen floats turns format va s = r.map (s.puts out maxlen) := by
  intro turns
  induction turns with
  | zero => exact fun _ _ => ⟨some [], fun _ _ _ _ => rfl⟩
  | succ turns ih =>
      intro format va
      match format with
      | [] => exact ⟨some [], fun _ _ _ _ => rfl⟩
      | c :: format =>
          by_cases hzero : c = 0
          · refine ⟨some [], fun σ out maxlen s => ?_⟩
            rw [loop, if_pos hzero]
            rfl
          by_cases hlit : c ≠ chr '%'
          · obtain ⟨r, hr⟩ := ih format va
            refine ⟨r.map (c :: ·), fun σ out maxlen s => ?_⟩
            rw [loop, if_neg hzero, if_pos hlit, hr, Option.map_map]
            rfl
          · obtain ⟨r, hr⟩ := directive_says va floats format
            match r with
            | none =>
                refine ⟨none, fun σ out maxlen s => ?_⟩
                have hnone := hr σ out maxlen s
                simp only [loop, if_neg hzero, if_neg hlit, hnone, Option.map_none,
                  Option.bind_eq_bind, Option.bind_none]
            | some (text, format', va') =>
                obtain ⟨r, hlater⟩ := ih format' va'
                refine ⟨r.map (text ++ ·), fun σ out maxlen s => ?_⟩
                have hsome := hr σ out maxlen s
                simp only [loop, if_neg hzero, if_neg hlit, hsome, Option.map_some,
                  Option.bind_eq_bind, Option.bind_some, hlater, Option.map_map]
                congr 1
                funext more
                exact (puts_append text more).symm

/-! ### What each function makes of it -/

theorem write_update (m : Cells UInt8) (p : Int) (text : List UInt8) (c : UInt8) :
    Function.update (Cells.write m p text) (p + text.length) c = Cells.write m p (text ++ [c]) := by
  have hput := congrArg Cells.Pen.mem (Cells.Pen.put_append ⟨m, p⟩ text [c])
  simp only [Cells.Pen.put, Cells.write_one] at hput
  exact hput.symm

theorem puts_outBuffer (p : Int) (maxlen : Nat) (text : List UInt8) : ∀ s : Sink (Cells UInt8),
    (s.puts (outBuffer p) maxlen text).buffer =
      Cells.write s.buffer (p + s.idx) (text.take (maxlen - s.idx)) := by
  induction text with
  | nil =>
      intro s
      have hmem := congrArg Cells.Pen.mem (Cells.Pen.put_nil ⟨s.buffer, p + s.idx⟩)
      rw [List.take_nil]
      exact hmem.symm
  | cons c text ih =>
      intro s
      have hnext := ih (s.put (outBuffer p) maxlen c)
      rw [show (s.put (outBuffer p) maxlen c).idx = s.idx + 1 from rfl] at hnext
      refine hnext.trans ?_
      by_cases hroom : s.idx < maxlen
      · have hput := congrArg Cells.Pen.mem (Cells.Pen.put_append ⟨s.buffer, p + s.idx⟩ [c]
          (text.take (maxlen - (s.idx + 1))))
        simp only [Cells.Pen.put, Cells.write_one, List.length_singleton] at hput
        have hleft : maxlen - s.idx = maxlen - (s.idx + 1) + 1 := by omega
        have haddr : p + ((s.idx + 1 : Nat) : Int) = p + s.idx + (1 : Nat) := by omega
        have hbuffer : (s.put (outBuffer p) maxlen c).buffer =
            Function.update s.buffer (p + s.idx) c := if_pos hroom
        rw [hleft, List.take_succ_cons, haddr, hbuffer]
        exact hput.symm
      · have hnone : maxlen - s.idx = 0 := by omega
        have hnone' : maxlen - (s.idx + 1) = 0 := by omega
        have hbuffer : (s.put (outBuffer p) maxlen c).buffer = s.buffer := if_neg hroom
        rw [hnone, hnone', hbuffer, List.take_zero, List.take_zero]
        have hwrite : ∀ a : Int, Cells.write s.buffer a [] = s.buffer := fun a =>
          congrArg Cells.Pen.mem (Cells.Pen.put_nil ⟨s.buffer, a⟩)
        rw [hwrite, hwrite]

/-- The buffer is filled as `vsnprintf` does. -/
theorem ended_outBuffer (p : Int) {count : Nat} (hcount : count < 2 ^ 64) (text : List UInt8)
    (m : Cells UInt8) :
    outBuffer p 0 ((Sink.puts (outBuffer p) count ⟨m, 0⟩ text).buffer)
      (if text.length < count then text.length else (count + (2 ^ 64 - 1)) % 2 ^ 64) count =
        Cells.write m p (vsnprintfBytes count text) := by
  rw [puts_outBuffer, vsnprintfBytes]
  simp only [Nat.sub_zero, Int.natCast_zero, Int.add_zero]
  rcases Nat.eq_zero_or_pos count with rfl | hpos
  · rw [if_pos rfl, if_neg (Nat.not_lt_zero _), List.take_zero]
    rfl
  rw [if_neg (Nat.ne_of_gt hpos)]
  by_cases hfits : text.length < count
  · have htake : text.take (count - 1) = text := List.take_of_length_le (by omega)
    rw [if_pos hfits, List.take_of_length_le (Nat.le_of_lt hfits), htake]
    exact (if_pos hfits).trans (write_update m p text 0)
  · have hlast : (count + (2 ^ 64 - 1)) % 2 ^ 64 = count - 1 := by omega
    have hlen : (text.take (count - 1)).length = count - 1 := by
      rw [List.length_take]
      omega
    have hsplit : text.take count = text.take (count - 1) ++ [text.getD (count - 1) 0] := by
      have hlt : count - 1 < text.length := by omega
      have hget : text.getD (count - 1) 0 = text[count - 1] := by
        rw [List.getD_eq_getElem?_getD, List.getElem?_eq_getElem hlt, Option.getD_some]
      rw [hget, List.take_append_getElem, Nat.sub_add_cancel hpos]
    rw [if_neg hfits, hlast, hsplit, ← write_update, hlen]
    refine (if_pos (show count - 1 < count by omega)).trans ?_
    have hend := write_update m p (text.take (count - 1)) 0
    rw [hlen] at hend
    rw [Function.update_idem, hend]

theorem puts_outNull (text : List UInt8) : ∀ s : Sink σ,
    (s.puts outNull maxlen text).buffer = s.buffer := by
  induction text with
  | nil => exact fun _ => rfl
  | cons c text ih => exact fun s => ih (s.put outNull maxlen c)

theorem puts_outFct {α : Type} (fct : UInt8 → α → α) (text : List UInt8) : ∀ s : Sink α,
    (s.puts (outFct fct) maxlen text).buffer =
      (text.filter fun c => c ≠ 0).foldl (fun arg c => fct c arg) s.buffer := by
  induction text with
  | nil => exact fun _ => rfl
  | cons c text ih =>
      intro s
      refine (ih (s.put (outFct fct) maxlen c)).trans ?_
      by_cases hzero : c = 0
      · have hbuffer : (s.put (outFct fct) maxlen c).buffer = s.buffer :=
          if_neg (not_not.mpr hzero)
        rw [List.filter_cons_of_neg (by simpa using hzero), hbuffer]
      · have hbuffer : (s.put (outFct fct) maxlen c).buffer = fct c s.buffer := if_pos hzero
        rw [List.filter_cons_of_pos (by simpa using hzero), List.foldl_cons, hbuffer]

theorem puts_outChar (text : List UInt8) (s : Sink (List UInt8)) :
    (s.puts outChar maxlen text).buffer = s.buffer ++ text.filter fun c => c ≠ 0 := by
  have hfct : (s.puts outChar maxlen text).buffer =
      (text.filter fun c => c ≠ 0).foldl (fun console c => console ++ [c]) s.buffer :=
    puts_outFct (fun c console => console ++ [c]) text s
  have hbehind : ∀ text console : List UInt8,
      text.foldl (fun console c => console ++ [c]) console = console ++ text := by
    intro text
    induction text with
    | nil => exact fun console => (List.append_nil console).symm
    | cons c text ih =>
        intro console
        rw [List.foldl_cons, ih, List.append_assoc]
        rfl
  rw [hfct, hbehind]

/-- What `_vsnprintf` does with the text of a format. -/
theorem vsnprintfOut_eq {format : List UInt8} {va : List (Arg δ)} {r : Option (List UInt8)}
    (hr : ∀ (σ : Type) (out : Out σ) (maxlen : Nat) (s : Sink σ),
      loop out maxlen floats format.length format va s = r.map (s.puts out maxlen))
    (null : Bool) (buffer : σ) : vsnprintfOut out maxlen floats null buffer format va =
      r.map fun text =>
        let out := if null then outNull else out
        (out 0 (Sink.puts out maxlen ⟨buffer, 0⟩ text).buffer
          (if text.length < maxlen then text.length else (maxlen + (2 ^ 64 - 1)) % 2 ^ 64) maxlen,
          LogLine.awokeVsnprintfLen text) := by
  have hloop := hr σ (if null then outNull else out) maxlen ⟨buffer, 0⟩
  rw [vsnprintfOut]
  simp only [hloop, Option.bind_eq_bind]
  cases r with
  | none => rfl
  | some text =>
      have hidx : (Sink.puts (if null then outNull else out) maxlen ⟨buffer, 0⟩ text).idx =
          0 + text.length := puts_idx text _
      rw [Nat.zero_add] at hidx
      simp only [Option.map_some, Option.bind_some, hidx]
      rfl

/-- **All functions of the formatter print one text**, or none of them has a result.  `awoke_vsnprintf`
fills the buffer as `vsnprintf` does, and what it returns does not depend on the room. -/
theorem one_text (format : List UInt8) (va : List (Arg δ)) :
    ((∀ console, awokePrintf floats format va console = none) ∧
      (∀ (α : Type) (fct : UInt8 → α → α) arg, awokeFctprintf floats fct arg format va = none) ∧
      (∀ buffer m, awokeSprintf floats buffer format va m = none) ∧
      ∀ buffer count m, awokeVsnprintf floats buffer count format va m = none) ∨
    ∃ text,
      (∀ console, awokePrintf floats format va console =
        some (console ++ text.filter fun c => c ≠ 0, LogLine.awokeVsnprintfLen text)) ∧
      (∀ (α : Type) (fct : UInt8 → α → α) arg, awokeFctprintf floats fct arg format va =
        some ((text.filter fun c => c ≠ 0).foldl (fun arg c => fct c arg) arg,
          LogLine.awokeVsnprintfLen text)) ∧
      (∀ buffer m, buffer ≠ 0 → awokeSprintf floats buffer format va m =
        some (Cells.write m buffer (vsnprintfBytes (2 ^ 64 - 1) text),
          LogLine.awokeVsnprintfLen text)) ∧
      (∀ buffer count m, buffer ≠ 0 → count < 2 ^ 64 →
        awokeVsnprintf floats buffer count format va m =
          some (Cells.write m buffer (vsnprintfBytes count text), LogLine.awokeVsnprintfLen text)) ∧
      ∀ count m, awokeVsnprintf floats 0 count format va m =
        some (m, LogLine.awokeVsnprintfLen text) := by
  obtain ⟨r, hr⟩ := loop_says floats format.length format va
  cases r with
  | none =>
      refine .inl ⟨fun console => ?_, fun α fct arg => ?_, fun buffer m => ?_, fun buffer count m => ?_⟩
      · rw [awokePrintf, vsnprintfOut_eq floats hr, Option.map_none]
      · rw [awokeFctprintf, vsnprintfOut_eq floats hr, Option.map_none]
      · rw [awokeSprintf, vsnprintfOut_eq floats hr, Option.map_none]
      · rw [awokeVsnprintf, vsnprintfOut_eq floats hr, Option.map_none]
  | some text =>
      refine .inr ⟨text, fun console => ?_, fun α fct arg => ?_, fun buffer m hnull => ?_,
        fun buffer count m hnull hcount => ?_, fun count m => ?_⟩
      · rw [awokePrintf, vsnprintfOut_eq floats hr, Option.map_some]
        simp only [Bool.false_eq_true, if_false, puts_outChar]
        rfl
      · rw [awokeFctprintf, vsnprintfOut_eq floats hr, Option.map_some]
        simp only [Bool.false_eq_true, if_false, puts_outFct]
        rfl
      · have hended := ended_outBuffer buffer (show 2 ^ 64 - 1 < 2 ^ 64 by decide) text m
        rw [awokeSprintf, vsnprintfOut_eq floats hr, Option.map_some, decide_eq_false hnull]
        exact congrArg some (Prod.ext hended rfl)
      · have hended := ended_outBuffer buffer hcount text m
        rw [awokeVsnprintf, vsnprintfOut_eq floats hr, Option.map_some, decide_eq_false hnull]
        exact congrArg some (Prod.ext hended rfl)
      · rw [awokeVsnprintf, vsnprintfOut_eq floats hr, Option.map_some, decide_eq_true rfl]
        exact congrArg some (Prod.ext (puts_outNull text _) rfl)

/-- A number, to the console and into two bytes. -/
theorem one_text_number : ∃ text,
    awokePrintf (fun _ (_ : Unit) _ _ _ => []) [37, 100] [.int 12] [] =
      some ([] ++ text.filter fun c => c ≠ 0, LogLine.awokeVsnprintfLen text) ∧
    awokeVsnprintf (fun _ (_ : Unit) _ _ _ => []) 16 2 [37, 100] [.int 12] (fun _ => 0) =
      some (Cells.write (fun _ => 0) 16 (vsnprintfBytes 2 text), LogLine.awokeVsnprintfLen text) := by
  rcases one_text (fun _ (_ : Unit) _ _ _ => []) [37, 100] [.int 12] with
    ⟨hnone, -⟩ | ⟨text, hconsole, -, -, hbuffer, -⟩
  · have hsome : (awokePrintf (fun _ (_ : Unit) _ _ _ => []) [37, 100] [.int 12] []).isSome := by
      decide
    rw [hnone []] at hsome
    exact absurd hsome (by decide)
  · exact ⟨text, hconsole [], hbuffer 16 2 (fun _ => 0) (by decide) (by decide)⟩

end Awoke.Printf
