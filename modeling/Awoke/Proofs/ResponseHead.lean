/-
What a head sets.

Each line of a head goes to the first known key that begins with its name.  So a name that is only
the beginning of a key, the empty one too, is taken for that key, and what it sets stays if no line
with the key itself follows.
-/
import Awoke.Proofs.HeadLines

namespace Awoke.Http

open CString

/-! ### What it should be -/

/-- A line `Name: value`; there is no colon in the name. -/
structure HeadField where
  name : List UInt8
  value : List UInt8
  name_plain : Plain name
  name_colon : 58 ∉ name
  value_plain : Plain value

namespace HeadField

/-- The line itself. -/
def line (f : HeadField) : List UInt8 := f.name ++ (ascii ": " ++ f.value)

/-- The value in the buffer, where the line begins at `start`. -/
def valueAt (f : HeadField) (start : Nat) : MemPtr :=
  { p := start + f.name.length + 2, len := UInt64.ofNat f.value.length }

/-- A line has the name that a type is known by. -/
def Names (f : HeadField) (type : HeaderType) : Prop := findKey type = some f.name

instance (f : HeadField) (type : HeaderType) : Decidable (f.Names type) :=
  inferInstanceAs (Decidable (findKey type = some f.name))

end HeadField

/-- The value of the last line of a kind, where the first one begins at `start`. -/
def lastValue (P : HeadField → Prop) [DecidablePred P] : Nat → List HeadField → Option MemPtr
  | _, [] => none
  | start, f :: fields =>
      (lastValue P (start + (f.line.length + 2)) fields).or
        (if P f then some (f.valueAt start) else none)

/-- A slot, with a value if there is one. -/
def withValue (header : Header) (type : HeaderType) (val : Option MemPtr) : Header :=
  (val.map fun val => { type, key := findKey type, val := some val : Header }).getD header

/-- A status line and any number of lines. -/
structure Head where
  status : StatusLine
  fields : List HeadField

namespace Head

/-- The lines behind the status line. -/
def block (h : Head) : List UInt8 := h.fields.flatMap fun f => f.line ++ crlf

/-- A head as it is sent. -/
def bytes (h : Head) : List UInt8 := h.status.line ++ (crlf ++ (h.block ++ crlf))

/-- Where the first line begins. -/
def start (h : Head) : Nat := h.status.line.length + 2

/-- The slot of a type, as it should be: as it was, or with the value of the last line with the
name of the type. -/
def slot (h : Head) (type : HeaderType) : Header :=
  withValue (headerInit type) type (lastValue (fun f => f.Names type) h.start h.fields)

/-- The slots and the status are as they should be. -/
def SetBy (h : Head) (rsp : Response) : Prop :=
  ∃ err r, rsp.parseHeader = some (err, r) ∧ r.status = decimal h.status.code ∧
    ∀ type, r.headers type = h.slot type

end Head

/-- A response that was received into some buffer, before its head is taken apart. -/
def Response.ofBuffer (buff : List UInt8) (size alloc : Nat) (contentLength : UInt64)
    (body : Option MemPtr) : Response :=
  { Response.init with contentLength, body, buffchunk := { buff, size, alloc } }

/-- Every line that is taken for a known key it does not have the name of is followed by one that
has. -/
def Settled (fields : List HeadField) : Prop :=
  ∀ f after, f :: after <:+ fields → ∀ type, type ≠ .unknown → parseKey f.name = type →
    ¬f.Names type → ∃ g ∈ after, g.Names type

/-- Where there is no line: what follows up to a blank line, if there is one, is taken for lines,
and none of these is taken for a known key. -/
def NothingRead (t : List UInt8) (first : Nat) : Prop :=
  ∀ tail, strstr t (first + 2) blankLine = some tail →
    ∀ start stop, LineOf t first tail start stop → ∃ pos, strstr t start (ascii ": ") = some pos ∧
      parseKey ((t.drop start).take (pos - start)) = .unknown

/-! ### The last line of a kind -/

section Last

variable {P E : HeadField → Prop} [DecidablePred P] [DecidablePred E]

theorem lastValue_eq_none_iff {start : Nat} {fields : List HeadField} :
    lastValue P start fields = none ↔ ∀ f ∈ fields, ¬P f := by
  induction fields generalizing start with
  | nil => exact iff_of_true rfl fun f hf => absurd hf List.not_mem_nil
  | cons f fields ih =>
      rw [lastValue, Option.or_eq_none_iff, ih, List.forall_mem_cons, and_comm]
      refine and_congr_left fun _ => ?_
      by_cases hf : P f
      · rw [if_pos hf]
        exact iff_of_false (Option.some_ne_none _) fun h => h hf
      · rw [if_neg hf]
        exact iff_of_true rfl hf

theorem le_of_lastValue {start : Nat} {fields : List HeadField} {v : MemPtr}
    (h : lastValue P start fields = some v) : start ≤ v.p := by
  induction fields generalizing start with
  | nil => exact nomatch h
  | cons f fields ih =>
      rw [lastValue, Option.or_eq_some_iff] at h
      rcases h with h | ⟨-, h⟩
      · exact le_trans (Nat.le_add_right _ _) (ih h)
      · split at h
        · rw [← Option.some.inj h]
          exact le_trans (Nat.le_add_right _ _) (Nat.le_add_right _ _)
        · exact nomatch h

/-- The last line of two kinds is the same one exactly if each that is only of the wider kind is
followed by one of the narrower. -/
theorem lastValue_eq_iff (hE : ∀ f, E f → P f) {start : Nat} {fields : List HeadField} :
    lastValue P start fields = lastValue E start fields ↔
      ∀ f after, f :: after <:+ fields → P f → ¬E f → ∃ g ∈ after, E g := by
  induction fields generalizing start with
  | nil =>
      refine iff_of_true rfl fun f after h => ?_
      exact absurd (List.suffix_nil.mp h) (List.cons_ne_nil f after)
  | cons f fields ih =>
      have hcons : (∀ g after, g :: after <:+ f :: fields → P g → ¬E g → ∃ g' ∈ after, E g') ↔
          (P f → ¬E f → ∃ g ∈ fields, E g) ∧
            ∀ g after, g :: after <:+ fields → P g → ¬E g → ∃ g' ∈ after, E g' := by
        constructor
        · exact fun h => ⟨h f fields (List.suffix_refl _),
            fun g after hsuffix => h g after (hsuffix.trans (List.suffix_cons f fields))⟩
        · rintro ⟨hf, hrest⟩ g after hsuffix
          rcases List.suffix_cons_iff.mp hsuffix with heq | hsuffix
          · obtain ⟨rfl, rfl⟩ := List.cons.inj heq
            exact hf
          · exact hrest g after hsuffix
      rw [hcons, ← @ih (start + (f.line.length + 2)), lastValue, lastValue]
      have hsome : (∃ g ∈ fields, E g) ↔
          lastValue E (start + (f.line.length + 2)) fields ≠ none := by
        rw [ne_eq, lastValue_eq_none_iff]
        simp only [not_forall, not_not, exists_prop]
      rw [hsome]
      generalize hA : lastValue P (start + (f.line.length + 2)) fields = A
      generalize hB : lastValue E (start + (f.line.length + 2)) fields = B
      constructor
      · intro heq
        have hAB : A = B := by
          cases A with
          | none =>
              have hnone := lastValue_eq_none_iff.mp hA
              exact (hB.symm.trans (lastValue_eq_none_iff.mpr fun g hg hEg =>
                hnone g hg (hE g hEg))).symm
          | some v =>
              cases B with
              | some w => exact heq
              | none =>
                  -- the last line is behind this one
                  have hle := le_of_lastValue hA
                  have hlen : f.line.length = f.name.length + (2 + f.value.length) := by
                    rw [HeadField.line, List.length_append, List.length_append]
                    rfl
                  rw [Option.some_or, Option.none_or] at heq
                  split at heq
                  · rw [Option.some.inj heq] at hle
                    change start + (f.line.length + 2) ≤ start + f.name.length + 2 at hle
                    omega
                  · exact nomatch heq
        refine ⟨fun hP hnot hnone => ?_, hAB⟩
        rw [hAB, hnone, Option.none_or, Option.none_or, if_pos hP, if_neg hnot] at heq
        exact Option.some_ne_none _ heq
      · rintro ⟨hf, rfl⟩
        by_cases hEf : E f
        · rw [if_pos hEf, if_pos (hE f hEf)]
        · rw [if_neg hEf]
          by_cases hPf : P f
          · obtain ⟨v, hv⟩ := Option.ne_none_iff_exists'.mp (hf hPf hEf)
            rw [hv, Option.some_or, Option.some_or]
          · rw [if_neg hPf]

end Last

/-! ### The lines of a head -/

/-- The lines of a head, where the first one begins at `start`. -/
def fieldLines : Nat → List HeadField → List HeaderLine
  | _, [] => []
  | start, f :: fields =>
      { head := start, pos := start + f.name.length, stop := start + f.line.length } ::
        fieldLines (start + (f.line.length + 2)) fields

theorem HeadField.line_plain (f : HeadField) : Plain f.line := by
  have hcolon : Plain (ascii ": ") := by decide
  exact plain_append f.name_plain (plain_append hcolon f.value_plain)

theorem strstr_crlf_line {front l rest : List UInt8} (hl : Plain l) :
    strstr (front ++ (l ++ (crlf ++ rest))) front.length crlf = some (front.length + l.length) := by
  refine (strstr_eq_some_iff crlf_ne_nil).mpr ⟨Nat.le_add_right _ _, ?_, fun j hj hat => ?_⟩
  · refine (occursAt_add_length front).mpr ?_
    exact (occursAt_add_length (i := 0) l).mpr (List.prefix_append crlf rest)
  · obtain ⟨i, rfl⟩ := Nat.exists_eq_add_of_le hj
    have hle := le_of_crlf hl ((occursAt_add_length front).mp hat)
    omega

/-- Its colon is behind its name. -/
theorem strstr_colon_field {front rest : List UInt8} (f : HeadField) :
    strstr (front ++ (f.line ++ rest)) front.length (ascii ": ") =
      some (front.length + f.name.length) := by
  have hline : f.line ++ rest = f.name ++ (ascii ": " ++ (f.value ++ rest)) := by
    rw [HeadField.line, List.append_assoc, List.append_assoc]
  rw [hline]
  refine (strstr_eq_some_iff (by decide)).mpr ⟨Nat.le_add_right _ _, ?_, fun j hj hat => ?_⟩
  · refine (occursAt_add_length front).mpr ?_
    exact (occursAt_add_length (i := 0) f.name).mpr (List.prefix_append _ _)
  · obtain ⟨i, rfl⟩ := Nat.exists_eq_add_of_le hj
    have hcolon : (f.name ++ (ascii ": " ++ (f.value ++ rest)))[i]? = some 58 :=
      OccursAt.head_mem ((occursAt_add_length front).mp hat)
    by_contra hlt
    rw [List.getElem?_append_left (by omega)] at hcolon
    exact f.name_colon (List.mem_of_getElem? hcolon)

/-- The loop goes over the lines of a head. -/
theorem linesUpTo_fields {t rest : List UInt8} {tail : Nat} {fields : List HeadField} :
    ∀ {front : List UInt8}, t = front ++ (fields.flatMap (fun f => f.line ++ crlf) ++ rest) →
      tail + 2 = front.length + (fields.flatMap fun f => f.line ++ crlf).length →
        linesUpTo t tail front.length = some (fieldLines front.length fields) := by
  induction fields with
  | nil =>
      intro front _ htail
      refine linesUpTo_done fun stop hstop => ?_
      have hle := ((strstr_eq_some_iff crlf_ne_nil).mp hstop).1
      rw [List.flatMap_nil, List.length_nil] at htail
      omega
  | cons f fields ih =>
      intro front ht htail
      have hcrlf : crlf.length = 2 := rfl
      have ht' : t = front ++ (f.line ++ (crlf ++
          (fields.flatMap (fun f => f.line ++ crlf) ++ rest))) := by
        rw [ht, List.flatMap_cons, List.append_assoc, List.append_assoc]
      rw [List.flatMap_cons, List.length_append, List.length_append, hcrlf] at htail
      have hstop : strstr t front.length crlf = some (front.length + f.line.length) :=
        ht' ▸ strstr_crlf_line f.line_plain
      have hcolon : strstr t front.length (ascii ": ") = some (front.length + f.name.length) :=
        ht' ▸ strstr_colon_field f
      have hlen : (front ++ (f.line ++ crlf)).length = front.length + (f.line.length + 2) := by
        rw [List.length_append, List.length_append, hcrlf]
      have hnext := @ih (front ++ (f.line ++ crlf))
        (by rw [ht', List.append_assoc, List.append_assoc])
        (by rw [hlen]; omega)
      rw [hlen] at hnext
      rw [linesUpTo_line hstop (by omega), hcolon, Option.bind_some, Nat.add_assoc, hnext]
      rfl

/-! ### What they set -/

/-- A line is taken for a type. -/
def HeadField.Taken (f : HeadField) (type : HeaderType) : Prop :=
  type ≠ .unknown ∧ parseKey f.name = type

instance (f : HeadField) (type : HeaderType) : Decidable (f.Taken type) :=
  inferInstanceAs (Decidable (type ≠ .unknown ∧ parseKey f.name = type))

theorem HeadField.Names.taken {f : HeadField} {type : HeaderType} (h : f.Names type) :
    f.Taken type := by
  have hkeys : ∀ entry ∈ headerKeysTable, entry.2 ≠ .unknown ∧ parseKey entry.1 = entry.2 := by
    decide
  obtain ⟨entry, hfind, hname⟩ := Option.map_eq_some_iff.mp h
  obtain ⟨hne, hkey⟩ := hkeys entry (List.mem_of_find?_eq_some hfind)
  have htype : entry.2 = type := of_decide_eq_true (List.find?_some hfind :)
  rw [hname, htype] at hkey
  exact ⟨htype ▸ hne, hkey⟩

theorem headerSet_apply (headers : Headers) (type type' : HeaderType) (val : MemPtr) :
    headerSet headers type val type' =
      if type' ≠ .unknown ∧ type = type' then
        { type := type', key := findKey type', val := some val }
      else headers type' := by
  by_cases heq : type = type'
  · subst heq
    cases type with
    | unknown => rfl
    | _ => rfl
  · rw [if_neg fun h => heq h.2, headerSet]
    cases findKey type with
    | none => rfl
    | some key => exact if_neg fun h => heq h.symm

theorem valueAt_eq (f : HeadField) (start : Nat) :
    MemPtr.between (start + f.name.length + 2) (start + f.line.length) = f.valueAt start := by
  have hlen : start + f.line.length = start + f.name.length + 2 + f.value.length := by
    have htwo : (ascii ": ").length = 2 := rfl
    rw [HeadField.line, List.length_append, List.length_append, htwo]
    omega
  rw [hlen, MemPtr.between, HeadField.valueAt, UInt64.ofNat_add (start + f.name.length + 2)]
  congr 1
  rw [UInt64.add_comm, UInt64.add_sub_cancel]

/-- A slot is left with the last value that was taken for its type. -/
theorem foldl_fields {t rest : List UInt8} {fields : List HeadField} (type : HeaderType) :
    ∀ {front : List UInt8} (headers : Headers),
      t = front ++ (fields.flatMap (fun f => f.line ++ crlf) ++ rest) →
        (fieldLines front.length fields).foldl (HeaderLine.set t) headers type =
          withValue (headers type) type
            (lastValue (fun f => f.Taken type) front.length fields) := by
  induction fields with
  | nil => exact fun _ _ => rfl
  | cons f fields ih =>
      intro front headers ht
      have ht' : t = (front ++ (f.line ++ crlf)) ++
          (fields.flatMap (fun f => f.line ++ crlf) ++ rest) := by
        rw [ht, List.flatMap_cons]
        simp only [List.append_assoc]
      have hlen : (front ++ (f.line ++ crlf)).length = front.length + (f.line.length + 2) := by
        rw [List.length_append, List.length_append, show crlf.length = 2 from rfl]
      have hname : (t.drop front.length).take f.name.length = f.name := by
        rw [ht, List.drop_left, List.flatMap_cons, HeadField.line]
        simp only [List.append_assoc, List.take_left]
      have hset : HeaderLine.set t headers
          ⟨front.length, front.length + f.name.length, front.length + f.line.length⟩ =
          headerSet headers (parseKey f.name) (f.valueAt front.length) := by
        rw [HeaderLine.set, HeaderLine.name, HeaderLine.val]
        dsimp only
        rw [Nat.add_sub_cancel_left, hname, valueAt_eq]
      have hnext := @ih (front ++ (f.line ++ crlf))
        (headerSet headers (parseKey f.name) (f.valueAt front.length)) ht'
      rw [hlen, headerSet_apply] at hnext
      rw [fieldLines, List.foldl_cons, hset, hnext, lastValue]
      cases lastValue (fun f => f.Taken type) (front.length + (f.line.length + 2)) fields with
      | some val => rfl
      | none =>
          rw [Option.none_or]
          by_cases htaken : type ≠ .unknown ∧ parseKey f.name = type
          · rw [if_pos htaken, if_pos (show f.Taken type from htaken)]
            rfl
          · rw [if_neg htaken, if_neg (show ¬f.Taken type from htaken)]

/-- The slots are as they should be exactly if the lines are settled. -/
theorem settled_iff {start : Nat} {fields : List HeadField} :
    (∀ type, withValue (headerInit type) type (lastValue (fun f => f.Taken type) start fields) =
        withValue (headerInit type) type (lastValue (fun f => f.Names type) start fields)) ↔
      Settled fields := by
  have hval : ∀ (type : HeaderType) (val : Option MemPtr),
      (withValue (headerInit type) type val).val = val := by
    intro type val
    cases val with
    | none => rfl
    | some val => rfl
  have hslot : ∀ type, (withValue (headerInit type) type
        (lastValue (fun f => f.Taken type) start fields) =
      withValue (headerInit type) type (lastValue (fun f => f.Names type) start fields)) ↔
      ∀ f after, f :: after <:+ fields → f.Taken type → ¬f.Names type →
        ∃ g ∈ after, g.Names type := by
    intro type
    have hlast : lastValue (fun f => f.Taken type) start fields =
        lastValue (fun f => f.Names type) start fields ↔ _ :=
      lastValue_eq_iff fun f hf => HeadField.Names.taken hf
    rw [← hlast]
    refine ⟨fun h => ?_, fun h => by rw [h]⟩
    rw [← hval type (lastValue _ start fields), h, hval]
  simp only [hslot]
  constructor
  · exact fun h f after hsuffix type hne hkey => h type f after hsuffix ⟨hne, hkey⟩
  · exact fun h type f after hsuffix htaken => h f after hsuffix type htaken.1 htaken.2

/-! ### The status line -/

theorem strstr_first {b : UInt8} {front rest : List UInt8} (h : b ∉ front) :
    strstr (front ++ b :: rest) 0 [b] = some front.length := by
  refine (strstr_eq_some_iff (List.cons_ne_nil b [])).mpr ⟨Nat.zero_le _, ?_, fun j _ hat => ?_⟩
  · exact (occursAt_add_length (i := 0) front).mpr (List.prefix_append [b] rest)
  · by_contra hlt
    have hmem : (front ++ b :: rest)[j]? = some b := hat.head_mem
    rw [List.getElem?_append_left (by omega)] at hmem
    exact h (List.mem_of_getElem? hmem)

theorem space_notMem_digit {b : UInt8} (h : isDigit b) : b ≠ 32 := by
  rintro rfl
  exact absurd h (by decide)

/-- What is in front of the code in a status line. -/
def StatusLine.version (s : StatusLine) : List UInt8 :=
  ascii "HTTP/" ++ [s.major] ++ ascii "." ++ [s.minor]

theorem StatusLine.line_eq (s : StatusLine) :
    s.line = s.version ++ 32 :: (s.code ++ 32 :: s.reason) := by
  rw [line, version]
  simp only [List.append_assoc]
  rfl

theorem StatusLine.space_notMem (s : StatusLine) : (32 : UInt8) ∉ s.version := by
  rw [version]
  simp only [List.mem_append, List.mem_singleton, not_or]
  exact ⟨⟨⟨by decide, (space_notMem_digit s.major_ok).symm⟩, by decide⟩,
    (space_notMem_digit s.minor_ok).symm⟩

theorem StatusLine.drop_line (s : StatusLine) (rest : List UInt8) :
    (s.line ++ rest).drop (s.version.length + 1) = s.code ++ 32 :: (s.reason ++ rest) := by
  rw [line_eq, List.append_assoc, ← List.drop_drop, List.drop_left, List.cons_append, List.drop_one,
    List.tail_cons, List.append_assoc, List.cons_append]

theorem StatusLine.decimal_lt (s : StatusLine) : decimal s.code < 1000 := by
  obtain ⟨a, b, c, heq⟩ := List.length_eq_three.mp s.code_length
  have hdigit : ∀ d ∈ s.code, d.toNat - 48 ≤ 9 := by
    intro d hd
    have hrange := s.code_ok d hd
    simp only [isDigit, Bool.and_eq_true, decide_eq_true_eq, UInt8.le_iff_toNat_le] at hrange
    have hnine : (57 : UInt8).toNat = 57 := rfl
    omega
  rw [heq, List.forall_mem_cons, List.forall_mem_cons, List.forall_mem_singleton] at hdigit
  rw [heq]
  change 10 * (10 * (10 * 0 + (a.toNat - 48)) + (b.toNat - 48)) + (c.toNat - 48) < 1000
  omega

/-- The code of a status line is the status. -/
theorem StatusLine.scan_code (s : StatusLine) (rest : List UInt8) :
    scanInt ((s.line ++ rest).drop (s.version.length + 1)) = some (decimal s.code : Int) := by
  have hne : s.code ≠ [] := by
    rintro heq
    have hlen := s.code_length
    rw [heq] at hlen
    exact absurd hlen (by decide)
  have hnumber : number ([] ++ (s.code ++ 32 :: (s.reason ++ rest))) =
      some (false, decimal s.code) :=
    number_digits (fun b hb => absurd hb List.not_mem_nil) hne s.code_ok rfl
  rw [List.nil_append] at hnumber
  have hsmall := s.decimal_lt
  have hvalue : max (-2 ^ 63 : Int) (min (decimal s.code) (2 ^ 63 - 1)) = decimal s.code := by omega
  rw [drop_line, scanInt, hnumber, Option.map_some]
  simp only [Bool.false_eq_true, if_false, hvalue]
  rw [Int.bmod_eq_of_le (by omega) (by omega)]

section Searches

variable (s : StatusLine) (rest : List UInt8)

theorem StatusLine.strstr_crlf : strstr (s.line ++ (crlf ++ rest)) 0 crlf = some s.line.length := by
  have h : strstr ([] ++ (s.line ++ (crlf ++ rest))) ([] : List UInt8).length crlf =
      some (([] : List UInt8).length + s.line.length) := strstr_crlf_line s.line_plain
  rw [List.nil_append, List.length_nil, Nat.zero_add] at h
  exact h

theorem StatusLine.strstr_space :
    strstr (s.line ++ (crlf ++ rest)) 0 (ascii " ") = some s.version.length := by
  rw [line_eq, List.append_assoc]
  exact strstr_first s.space_notMem

theorem StatusLine.strstr_space_next :
    ∃ pos, strstr (s.line ++ (crlf ++ rest)) (s.version.length + 1) (ascii " ") = some pos := by
  refine Option.isSome_iff_exists.mp ((strstr_isSome_iff (by decide)).mpr
    ⟨s.version.length + 1 + s.code.length, Nat.le_add_right _ _, ?_⟩)
  rw [OccursAt, ← List.drop_drop, s.drop_line, List.drop_left]
  exact List.prefix_append (ascii " ") _

theorem StatusLine.parseHeader_status {rsp : Response} {err : ErrType} {r : Response}
    (htext : rsp.buffchunk.text = s.line ++ (crlf ++ rest))
    (h : rsp.parseHeader = some (err, r)) : r.status = decimal s.code := by
  obtain ⟨pos, hnext⟩ := s.strstr_space_next rest
  rw [Response.parseHeader, htext] at h
  simp only [s.strstr_crlf, s.strstr_space, hnext, s.scan_code, Option.getD_some] at h
  split at h
  · rw [← (Prod.mk.inj (Option.some.inj h)).2]
  · obtain ⟨headers, -, heq⟩ := Option.map_eq_some_iff.mp h
    rw [← (Prod.mk.inj heq).2]

theorem StatusLine.headerLines_eq {t : List UInt8} (ht : t = s.line ++ (crlf ++ rest)) :
    headerLines t = (strstr t (s.line.length + 2) blankLine).elim (some [])
      fun tail => linesUpTo t tail (s.line.length + 2) := by
  obtain ⟨pos, hnext⟩ := s.strstr_space_next rest
  rw [← ht] at hnext
  have hcrlf := s.strstr_crlf rest
  have hspace := s.strstr_space rest
  rw [← ht] at hcrlf hspace
  simp only [headerLines, hcrlf, hspace, hnext]
  cases strstr t (s.line.length + 2) blankLine with
  | none => rfl
  | some tail => rfl

end Searches

/-! ### A head -/

namespace Head

variable (h : Head) (rest : List UInt8)

theorem text_bytes : text (h.bytes ++ rest) =
    h.status.line ++ (crlf ++ (h.block ++ (crlf ++ text rest))) := by
  have hcrlf : (0 : UInt8) ∉ crlf := by decide
  have hnul : (0 : UInt8) ∉ h.bytes := by
    rw [bytes]
    simp only [List.mem_append, not_or]
    refine ⟨fun hmem => (h.status.line_plain 0 hmem).2 rfl, hcrlf, fun hmem => ?_, hcrlf⟩
    obtain ⟨f, -, hline⟩ := List.mem_flatMap.mp hmem
    rcases List.mem_append.mp hline with hline | hline
    · exact (f.line_plain 0 hline).2 rfl
    · exact hcrlf hline
  rw [text_append hnul, bytes]
  simp only [List.append_assoc]

theorem strstr_behind {front needle : List UInt8} :
    strstr (front ++ rest) front.length needle = (strstr rest 0 needle).map (front.length + ·) := by
  rw [strstr, strstr, List.drop_left, List.drop_zero, Option.map_map]
  refine congrArg (Option.map · _) (funext fun q => ?_)
  exact congrArg (front.length + ·) (Nat.zero_add _).symm

/-- Where there are lines, the blank line behind them is found. -/
theorem strstr_blankLine (hne : h.fields ≠ []) :
    ∃ tail, tail + 2 = h.start + h.block.length ∧
      strstr (h.status.line ++ (crlf ++ (h.block ++ (crlf ++ rest)))) h.start blankLine =
        some tail := by
  obtain ⟨f, fields, hfields⟩ := List.exists_cons_of_ne_nil hne
  have hblock : h.block = (f.line :: fields.map HeadField.line).flatMap (· ++ crlf) := by
    rw [block, hfields, ← List.map_cons, List.flatMap_map]
  have hlines : ∀ k ∈ fields.map HeadField.line, k ≠ [] ∧ Plain k := by
    intro k hk
    obtain ⟨g, -, rfl⟩ := List.mem_map.mp hk
    refine ⟨fun hnil => ?_, g.line_plain⟩
    exact absurd (List.append_eq_nil_iff.mp (List.append_eq_nil_iff.mp hnil).2).1 (by decide)
  have hblank := blankLine_behind_lines rest f.line (fields.map HeadField.line) f.line_plain hlines
  rw [← hblock] at hblank
  have htwo : 2 ≤ h.block.length := by
    rw [hblock, List.flatMap_cons, List.length_append, List.length_append]
    exact Nat.le_trans (Nat.le_add_left 2 _) (Nat.le_add_right _ _)
  have hfound : strstr (h.block ++ (crlf ++ rest)) 0 blankLine = some (h.block.length - 2) := by
    refine (strstr_eq_some_iff blankLine_ne_nil).mpr ⟨Nat.zero_le _, ?_, fun j _ hj => ?_⟩
    · exact (hblank _).2 (by omega)
    · have := (hblank j).1 hj
      omega
  have hfront : h.start = (h.status.line ++ crlf).length := by
    rw [List.length_append]
    rfl
  refine ⟨h.start + (h.block.length - 2), by omega, ?_⟩
  rw [← List.append_assoc, hfront, strstr_behind, hfound]
  rfl

/-- The lines of a head are those that the loop goes over. -/
theorem headerLines_eq (hne : h.fields ≠ []) {t : List UInt8}
    (ht : t = h.status.line ++ (crlf ++ (h.block ++ (crlf ++ rest)))) :
    headerLines t = some (fieldLines h.start h.fields) := by
  obtain ⟨tail, htail, hblank⟩ := h.strstr_blankLine rest hne
  have hfront : (h.status.line ++ crlf).length = h.start := by
    rw [List.length_append]
    rfl
  have ht' : t = (h.status.line ++ crlf) ++ (h.block ++ (crlf ++ rest)) := by
    rw [ht, List.append_assoc]
  have hlines := linesUpTo_fields ht' (by rw [hfront]; exact htail)
  rw [hfront] at hlines
  rw [h.status.headerLines_eq _ ht, show h.status.line.length + 2 = h.start from rfl]
  rw [← ht] at hblank
  rw [hblank]
  exact hlines

end Head

/-! ### Slots that are not set -/

/-- A slot that was set stays set. -/
theorem foldl_set_val {t : List UInt8} {lines : List HeaderLine} {type : HeaderType}
    (htype : type ≠ .unknown) : ∀ {headers : Headers}, ((headers type).val.isSome ∨
      ∃ q ∈ lines, parseKey (q.name t) = type) →
        (lines.foldl (HeaderLine.set t) headers type).val.isSome := by
  induction lines with
  | nil => exact fun h => h.resolve_right fun ⟨q, hq, _⟩ => List.not_mem_nil hq
  | cons q lines ih =>
      intro headers h
      refine ih ?_
      rw [HeaderLine.set, headerSet_apply]
      by_cases hkey : parseKey (q.name t) = type
      · rw [if_pos ⟨htype, hkey⟩]
        exact .inl rfl
      · rw [if_neg fun h => hkey h.2]
        refine h.imp_right ?_
        rintro ⟨q', hq', hkey'⟩
        rcases List.mem_cons.mp hq' with rfl | hq'
        · exact absurd hkey' hkey
        · exact ⟨q', hq', hkey'⟩

/-- Nothing is set exactly if no line is taken for a known key. -/
theorem foldl_eq_init_iff {t : List UInt8} {lines : List HeaderLine} :
    (∀ type, lines.foldl (HeaderLine.set t) headerInit type = headerInit type) ↔
      ∀ q ∈ lines, parseKey (q.name t) = .unknown := by
  constructor
  · intro h q hq
    by_contra htype
    have hsome := @foldl_set_val t lines _ htype headerInit (.inr ⟨q, hq, rfl⟩)
    rw [h] at hsome
    exact Bool.false_ne_true hsome
  · intro h type
    have hfold : lines.foldl (HeaderLine.set t) headerInit = headerInit := by
      induction lines with
      | nil => rfl
      | cons q lines ih =>
          obtain ⟨hq, hlines⟩ := List.forall_mem_cons.mp h
          have hset : HeaderLine.set t headerInit q = headerInit := by
            rw [HeaderLine.set, hq]
            rfl
          rw [List.foldl_cons, hset]
          exact ih hlines
    rw [hfold]

namespace Head

variable {h : Head} {rest : List UInt8} {rsp : Response}

/-- The slots are what the lines leave in them. -/
theorem setBy_iff_lines (hinit : rsp.headers = headerInit)
    (htext : rsp.buffchunk.text = h.status.line ++ (crlf ++ rest)) :
    h.SetBy rsp ↔ ∃ lines, headerLines rsp.buffchunk.text = some lines ∧
      ∀ type, lines.foldl (HeaderLine.set rsp.buffchunk.text) headerInit type = h.slot type := by
  have hheaders := parseHeader_headers rsp
  rw [hinit] at hheaders
  constructor
  · rintro ⟨err, r, hr, -, hslot⟩
    rw [hr, Option.map_some] at hheaders
    obtain ⟨lines, hlines, heq⟩ := Option.map_eq_some_iff.mp hheaders.symm
    exact ⟨lines, hlines, fun type => heq ▸ hslot type⟩
  · rintro ⟨lines, hlines, hslot⟩
    rw [hlines, Option.map_some] at hheaders
    obtain ⟨⟨err, r⟩, hr, heq⟩ := Option.map_eq_some_iff.mp hheaders
    refine ⟨err, r, hr, h.status.parseHeader_status rest htext hr, fun type => ?_⟩
    rw [← hslot type, ← heq]

/-- Where there are lines, the slots are as they should be exactly if the lines are settled. -/
theorem setBy_iff_settled (hinit : rsp.headers = headerInit) (hne : h.fields ≠ [])
    (htext : rsp.buffchunk.text = h.status.line ++ (crlf ++ (h.block ++ (crlf ++ rest)))) :
    h.SetBy rsp ↔ Settled h.fields := by
  have hfront : (h.status.line ++ crlf).length = h.start := by
    rw [List.length_append]
    rfl
  have htext' : rsp.buffchunk.text = (h.status.line ++ crlf) ++ (h.block ++ (crlf ++ rest)) := by
    rw [htext, List.append_assoc]
  have hfold : ∀ type, (fieldLines h.start h.fields).foldl (HeaderLine.set rsp.buffchunk.text)
      headerInit type = withValue (headerInit type) type
        (lastValue (fun f => f.Taken type) h.start h.fields) := by
    intro type
    have hfields := foldl_fields type headerInit htext'
    rwa [hfront] at hfields
  rw [setBy_iff_lines hinit htext, h.headerLines_eq rest hne htext, ← settled_iff]
  simp only [Option.some.injEq, exists_eq_left', hfold]
  exact Iff.rfl

/-- Where there is none, nothing is set exactly if nothing that follows is taken for a line of a
known key. -/
theorem setBy_iff_nothing (hinit : rsp.headers = headerInit) (hnil : h.fields = [])
    (htext : rsp.buffchunk.text = h.status.line ++ (crlf ++ rest)) :
    h.SetBy rsp ↔ NothingRead rsp.buffchunk.text h.status.line.length := by
  have hslot : ∀ type, h.slot type = headerInit type := by
    intro type
    rw [slot, hnil]
    rfl
  rw [setBy_iff_lines hinit htext, h.status.headerLines_eq rest htext]
  simp only [hslot, foldl_eq_init_iff]
  rw [NothingRead]
  have hfirst := h.status.strstr_crlf rest
  rw [← htext] at hfirst
  cases hblank : strstr rsp.buffchunk.text (h.status.line.length + 2) blankLine with
  | none =>
      refine iff_of_true ⟨[], rfl, fun q hq => absurd hq List.not_mem_nil⟩ fun tail htail => ?_
      exact absurd htail.symm (Option.some_ne_none tail)
  | some tail =>
      rw [Option.elim_some, linesUpTo_lineOf_iff
        (fun q => parseKey (q.name rsp.buffchunk.text) = .unknown)
        ((strstr_eq_some_iff crlf_ne_nil).mp hfirst).2.1]
      constructor
      · intro hall tail' htail
        obtain rfl := Option.some.inj htail
        exact hall
      · exact fun hall => hall tail rfl

end Head

/-- `HTTP/1.1 200 OK`. -/
def statusOk : StatusLine where
  major := 49
  minor := 49
  code := ascii "200"
  reason := ascii "OK"
  major_ok := by decide
  minor_ok := by decide
  code_length := rfl
  code_ok := List.all_eq_true.mp (by decide)
  reason_ok := List.all_eq_true.mp (by decide)

/-- `Hos: x`. -/
def hosField : HeadField where
  name := ascii "Hos"
  value := ascii "x"
  name_plain := by decide
  name_colon := by decide
  value_plain := by decide

/-- A head with this line, whose name is no key. -/
def hosHead : Head := { status := statusOk, fields := [hosField] }

/-- A response with a line that has no colon. -/
def bareLine : List UInt8 := ascii "HTTP/1.1 200 OK\r\nA\r\n\r\n"

end Awoke.Http
