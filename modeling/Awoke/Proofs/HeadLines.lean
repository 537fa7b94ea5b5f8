/-
The lines that `response_parse_header` takes a head apart into.

`headerLines` are the lines its loop goes over, each with the place of the colon that was found for
it.  What the loop leaves in the headers is what these lines say, one after the other.  A line is
read as it should be if its colon is in it, and that is so for each line exactly if each has one.
-/
import Awoke.Proofs.HttpParse

namespace Awoke.Http

open CString

/-- A line of a head, and the colon that was found for it. -/
structure HeaderLine where
  head : Nat
  pos : Nat
  stop : Nat

namespace HeaderLine

/-- `header_key`. -/
def key (q : HeaderLine) : MemPtr := .between q.head q.pos

/-- `header_val`. -/
def val (q : HeaderLine) : MemPtr := .between (q.pos + 2) q.stop

/-- The bytes of the key. -/
def name (text : List UInt8) (q : HeaderLine) : List UInt8 :=
  (text.drop q.head).take (q.pos - q.head)

/-- Neither the key nor the value extends beyond the line. -/
def Inside (q : HeaderLine) : Prop :=
  q.head ≤ q.key.p ∧ q.key.p + q.key.len.toNat ≤ q.stop ∧
    q.head ≤ q.val.p ∧ q.val.p + q.val.len.toNat ≤ q.stop

/-- What the loop does with a line. -/
def set (text : List UInt8) (headers : Headers) (q : HeaderLine) : Headers :=
  headerSet headers (parseKey (q.name text)) q.val

end HeaderLine

/-- The lines from `head` on, up to `tail`. -/
def linesUpTo (text : List UInt8) (tail head : Nat) : Option (List HeaderLine) :=
  match _hstop : strstr text head crlf with
  | none => some []
  | some stop =>
      if stop ≤ tail then
        match strstr text head (ascii ": ") with
        | none => none
        | some pos => (linesUpTo text tail (stop + 2)).map ({ head, pos, stop } :: ·)
      else some []
termination_by tail + 1 - head
decreasing_by
  have := ((strstr_eq_some_iff (by decide)).mp _hstop).1
  omega

/-- The lines that the loop goes over; where `response_parse_header` fails before it, there are
none. -/
def headerLines (text : List UInt8) : Option (List HeaderLine) :=
  match strstr text 0 crlf with
  | none => some []
  | some first =>
      match strstr text 0 (ascii " ") with
      | none => some []
      | some pos =>
          match strstr text (pos + 1) (ascii " ") with
          | none => some []
          | some _ =>
              match strstr text (first + 2) blankLine with
              | none => some []
              | some tail => linesUpTo text tail (first + 2)

variable {t : List UInt8} {tail head stop pos : Nat}

/-! ### The loop -/

theorem linesUpTo_done (h : ∀ stop, strstr t head crlf = some stop → tail < stop) :
    linesUpTo t tail head = some [] := by
  rw [linesUpTo]
  split
  · rfl
  · rename_i stop hstop
    exact if_neg (Nat.not_le_of_lt (h stop hstop))

theorem linesUpTo_line (hstop : strstr t head crlf = some stop) (hin : stop ≤ tail) :
    linesUpTo t tail head = (strstr t head (ascii ": ")).bind fun pos =>
      (linesUpTo t tail (stop + 2)).map ({ head, pos, stop } :: ·) := by
  rw [linesUpTo]
  split
  · rename_i hnone
    rw [hstop] at hnone
    cases hnone
  · rename_i stop' hstop'
    obtain rfl : stop = stop' := Option.some.inj (hstop.symm.trans hstop')
    refine (if_pos hin).trans ?_
    cases strstr t head (ascii ": ") with
    | none => rfl
    | some pos => rfl

/-- The loop sets what its lines say. -/
theorem parseLines_eq (t : List UInt8) (tail head : Nat) (headers : Headers) :
    Response.parseLines t tail head headers =
      (linesUpTo t tail head).map fun lines => lines.foldl (HeaderLine.set t) headers := by
  induction head, headers using Response.parseLines.induct t tail with
  | case1 head headers hnone =>
      have hdone : ∀ stop, strstr t head crlf = some stop → tail < stop := by
        rw [hnone]
        exact fun stop h => absurd h.symm (Option.some_ne_none stop)
      rw [parseLines_done hdone, linesUpTo_done hdone]
      rfl
  | case2 head headers stop hstop hin hcolon =>
      rw [parseLines_line hstop hin, linesUpTo_line hstop hin, hcolon]
      rfl
  | case3 head headers stop hstop hin pos hcolon ih =>
      rw [parseLines_line hstop hin, linesUpTo_line hstop hin, hcolon, Option.bind_some, ih,
        Option.bind_some, Option.map_map]
      rfl
  | case4 head headers stop hstop hout =>
      have hdone : ∀ stop', strstr t head crlf = some stop' → tail < stop' := by
        rw [hstop]
        exact fun stop' h => Option.some.inj h ▸ Nat.lt_of_not_le hout
      rw [parseLines_done hdone, linesUpTo_done hdone]
      rfl

/-- **The headers are what the lines of the head say.** -/
theorem parseHeader_headers (rsp : Response) :
    rsp.parseHeader.map (fun q => q.2.headers) = (headerLines rsp.buffchunk.text).map fun lines =>
      lines.foldl (HeaderLine.set rsp.buffchunk.text) rsp.headers := by
  unfold Response.parseHeader headerLines
  generalize rsp.buffchunk.text = t
  dsimp only
  cases strstr t 0 crlf with
  | none => rfl
  | some first =>
  cases strstr t 0 (ascii " ") with
  | none => rfl
  | some pos =>
  dsimp only
  cases strstr t (pos + 1) (ascii " ") with
  | none => rfl
  | some pos' =>
  cases strstr t (first + 2) blankLine with
  | none => rfl
  | some tail =>
      dsimp only
      rw [parseLines_eq, Option.map_map, Option.map_map]
      rfl

/-! ### Lines that hold their colon -/

/-- What is between a line end from `first` on and the next one, up to `tail`. -/
def LineOf (t : List UInt8) (first tail start stop : Nat) : Prop :=
  (∃ c, first ≤ c ∧ OccursAt t crlf c ∧ start = c + 2) ∧ strstr t start crlf = some stop ∧
    stop ≤ tail

/-- In each line of the head there are a colon and a space, if the head is looked at at all. -/
def LinesHold (t : List UInt8) : Prop :=
  TwoSpaces t → ∀ first tail, strstr t 0 crlf = some first →
    strstr t (first + 2) blankLine = some tail → ∀ start stop, LineOf t first tail start stop →
      ∃ j, start ≤ j ∧ j + 2 ≤ stop ∧ OccursAt t (ascii ": ") j

/-- No search fails that is relied on, and each key and each value is in its line. -/
def InLines (rsp : Response) : Prop :=
  rsp.parseHeader.isSome ∧
    ∀ lines, headerLines rsp.buffchunk.text = some lines → ∀ q ∈ lines, q.Inside

theorem between_toNat_le {a b : Nat} (h : a ≤ b) : a + (MemPtr.between a b).len.toNat ≤ b := by
  rw [MemPtr.between]
  dsimp only
  rw [UInt64.toNat_sub, UInt64.toNat_ofNat', UInt64.toNat_ofNat']
  omega

theorem inside_iff {q : HeaderLine} (hle : q.head ≤ q.pos) : q.Inside ↔ q.pos + 2 ≤ q.stop := by
  constructor
  · rintro ⟨-, -, -, hval⟩
    exact le_trans (Nat.le_add_right _ _) hval
  · intro h
    have hkey := between_toNat_le hle
    exact ⟨le_rfl, le_trans hkey (by omega), (by change q.head ≤ q.pos + 2; omega),
      between_toNat_le h⟩

theorem colon_in_line_iff : (∃ pos, strstr t head (ascii ": ") = some pos ∧ pos + 2 ≤ stop) ↔
    ∃ j, head ≤ j ∧ j + 2 ≤ stop ∧ OccursAt t (ascii ": ") j := by
  constructor
  · rintro ⟨pos, hpos, hle⟩
    obtain ⟨hhead, hat, -⟩ := (strstr_eq_some_iff (by decide)).mp hpos
    exact ⟨pos, hhead, hle, hat⟩
  · rintro ⟨j, hhead, hle, hat⟩
    obtain ⟨pos, hpos⟩ := Option.isSome_iff_exists.mp
      ((strstr_isSome_iff (by decide)).mpr ⟨j, hhead, hat⟩)
    have hfirst := ((strstr_eq_some_iff (by decide)).mp hpos).2.2 j hhead hat
    exact ⟨pos, hpos, by omega⟩

/-- What holds of all lines from some place on, each with the colon that is found for it. -/
theorem linesUpTo_forall_iff (Q : HeaderLine → Prop) (t : List UInt8) (tail head : Nat) :
    (∃ lines, linesUpTo t tail head = some lines ∧ ∀ q ∈ lines, Q q) ↔
      ∀ start stop, (start = head ∨ ∃ c, head ≤ c ∧ OccursAt t crlf c ∧ start = c + 2) →
        strstr t start crlf = some stop → stop ≤ tail →
          ∃ pos, strstr t start (ascii ": ") = some pos ∧ Q { head := start, pos, stop } := by
  induction head using linesUpTo.induct t tail with
  | case1 head hnone =>
      have hdone : ∀ stop, strstr t head crlf = some stop → tail < stop := by
        rw [hnone]
        exact fun stop h => absurd h.symm (Option.some_ne_none stop)
      rw [linesUpTo_done hdone]
      refine iff_of_true ⟨[], rfl, fun q hq => absurd hq List.not_mem_nil⟩
        fun start stop hstart => ?_
      rcases hstart with rfl | ⟨c, hc, hat, -⟩
      · exact fun h hle => absurd hle (Nat.not_le_of_lt (hdone stop h))
      · exact absurd hat ((strstr_eq_none_iff crlf_ne_nil).mp hnone c hc)
  | case2 head stop hstop hin hcolon =>
      rw [linesUpTo_line hstop hin, hcolon, Option.bind_none]
      refine iff_of_false (fun ⟨lines, h, _⟩ => nomatch h) fun h => ?_
      obtain ⟨pos, hpos, -⟩ := h head stop (.inl rfl) hstop hin
      exact Option.some_ne_none pos (hpos.symm.trans hcolon)
  | case3 head stop hstop hin pos hcolon ih =>
      obtain ⟨hhead, hat, hfirst⟩ := (strstr_eq_some_iff crlf_ne_nil).mp hstop
      rw [linesUpTo_line hstop hin, hcolon, Option.bind_some]
      have hcons : (∃ lines, (linesUpTo t tail (stop + 2)).map ({ head, pos, stop } :: ·) =
            some lines ∧ ∀ q ∈ lines, Q q) ↔
          Q { head, pos, stop } ∧
            ∃ lines, linesUpTo t tail (stop + 2) = some lines ∧ ∀ q ∈ lines, Q q := by
        constructor
        · rintro ⟨lines, h, hall⟩
          obtain ⟨rest, hrest, rfl⟩ := Option.map_eq_some_iff.mp h
          obtain ⟨hline, hall⟩ := List.forall_mem_cons.mp hall
          exact ⟨hline, rest, hrest, hall⟩
        · rintro ⟨hline, rest, hrest, hall⟩
          refine ⟨_, Option.map_eq_some_iff.mpr ⟨rest, hrest, rfl⟩, ?_⟩
          exact List.forall_mem_cons.mpr ⟨hline, hall⟩
      rw [hcons, ih]
      constructor
      · rintro ⟨hline, hrest⟩ start stop' hstart hstop' hin'
        rcases hstart with rfl | ⟨c, hc, hcat, rfl⟩
        · obtain rfl : stop = stop' := Option.some.inj (hstop.symm.trans hstop')
          exact ⟨pos, hcolon, hline⟩
        · refine hrest _ stop' ?_ hstop' hin'
          rcases Nat.eq_or_lt_of_le (hfirst c hc hcat) with rfl | hlt
          · exact .inl rfl
          · exact .inr ⟨c, crlf_apart hat hcat hlt, hcat, rfl⟩
      · intro h
        constructor
        · obtain ⟨pos', hpos', hline⟩ := h head stop (.inl rfl) hstop hin
          obtain rfl : pos = pos' := Option.some.inj (hcolon.symm.trans hpos')
          exact hline
        · intro start stop' hstart
          refine h start stop' (.inr ?_)
          rcases hstart with rfl | ⟨c, hc, hcat, rfl⟩
          · exact ⟨stop, hhead, hat, rfl⟩
          · exact ⟨c, by omega, hcat, rfl⟩
  | case4 head stop hstop hout =>
      have hdone : ∀ stop', strstr t head crlf = some stop' → tail < stop' := by
        rw [hstop]
        exact fun stop' h => Option.some.inj h ▸ Nat.lt_of_not_le hout
      rw [linesUpTo_done hdone]
      refine iff_of_true ⟨[], rfl, fun q hq => absurd hq List.not_mem_nil⟩
        fun start stop' hstart hstop' hin' => ?_
      have hle : head ≤ start := by
        rcases hstart with rfl | ⟨c, hc, -, rfl⟩
        · exact le_rfl
        · omega
      obtain ⟨hstart', hat, -⟩ := (strstr_eq_some_iff crlf_ne_nil).mp hstop'
      have := ((strstr_eq_some_iff crlf_ne_nil).mp hstop).2.2 stop' (le_trans hle hstart') hat
      omega

/-- The lines from a first line end on are those from behind it on. -/
theorem linesUpTo_lineOf_iff (Q : HeaderLine → Prop) {first : Nat}
    (hfirst : OccursAt t crlf first) :
    (∃ lines, linesUpTo t tail (first + 2) = some lines ∧ ∀ q ∈ lines, Q q) ↔
      ∀ start stop, LineOf t first tail start stop →
        ∃ pos, strstr t start (ascii ": ") = some pos ∧ Q { head := start, pos, stop } := by
  rw [linesUpTo_forall_iff]
  constructor
  · rintro h start stop ⟨⟨c, hc, hat, rfl⟩, hstop, hin⟩
    refine h _ stop ?_ hstop hin
    rcases Nat.eq_or_lt_of_le hc with rfl | hlt
    · exact .inl rfl
    · exact .inr ⟨c, crlf_apart hfirst hat hlt, hat, rfl⟩
  · intro h start stop hstart hstop hin
    refine h start stop ⟨?_, hstop, hin⟩
    rcases hstart with rfl | ⟨c, hc, hat, rfl⟩
    · exact ⟨first, le_rfl, hfirst, rfl⟩
    · exact ⟨c, by omega, hat, rfl⟩

theorem exists_inside_iff : (∃ pos, strstr t head (ascii ": ") = some pos ∧
      HeaderLine.Inside { head, pos, stop }) ↔
    ∃ j, head ≤ j ∧ j + 2 ≤ stop ∧ OccursAt t (ascii ": ") j := by
  rw [← colon_in_line_iff]
  refine exists_congr fun pos => and_congr_right fun hpos => inside_iff ?_
  exact ((strstr_eq_some_iff (by decide)).mp hpos).1

/-- **Keys and values are in their lines** exactly if each line holds a colon and a space. -/
theorem inLines_iff (rsp : Response) : InLines rsp ↔ LinesHold rsp.buffchunk.text := by
  have hsome : InLines rsp ↔
      ∃ lines, headerLines rsp.buffchunk.text = some lines ∧ ∀ q ∈ lines, q.Inside := by
    have hheaders := parseHeader_headers rsp
    rw [InLines]
    cases hlines : headerLines rsp.buffchunk.text with
    | none =>
        rw [hlines, Option.map_none, Option.map_eq_none_iff] at hheaders
        rw [hheaders]
        exact iff_of_false (fun h => Bool.false_ne_true h.1) fun ⟨_, h, _⟩ => nomatch h
    | some lines =>
        rw [hlines, Option.map_some] at hheaders
        obtain ⟨q, hq, -⟩ := Option.map_eq_some_iff.mp hheaders
        rw [hq]
        constructor
        · exact fun h => ⟨lines, rfl, h.2 lines rfl⟩
        · rintro ⟨lines', h, hinside⟩
          exact ⟨rfl, fun lines'' h' => Option.some.inj (h'.symm.trans h) ▸ hinside⟩
  rw [hsome, LinesHold, headerLines]
  generalize rsp.buffchunk.text = t
  have hnil : ∃ lines, some [] = some lines ∧ ∀ q ∈ lines, HeaderLine.Inside q :=
    ⟨[], rfl, fun q hq => absurd hq List.not_mem_nil⟩
  cases hfirst : strstr t 0 crlf with
  | none => exact iff_of_true hnil fun _ first tail h => nomatch h
  | some first =>
  cases hspace : strstr t 0 (ascii " ") with
  | none =>
      refine iff_of_true hnil fun ⟨i, _, _, hi, _⟩ => ?_
      exact absurd hi ((strstr_eq_none_iff (by decide)).mp hspace i (Nat.zero_le i))
  | some pos =>
  obtain ⟨_, hpos, hleast⟩ := (strstr_eq_some_iff (by decide)).mp hspace
  dsimp only
  cases hsecond : strstr t (pos + 1) (ascii " ") with
  | none =>
      refine iff_of_true hnil fun ⟨i, j, hij, hi, hj⟩ => ?_
      have := hleast i (Nat.zero_le i) hi
      exact absurd hj ((strstr_eq_none_iff (by decide)).mp hsecond j (by omega))
  | some pos' =>
  obtain ⟨hle, hpos', _⟩ := (strstr_eq_some_iff (by decide)).mp hsecond
  have htwo : TwoSpaces t := ⟨pos, pos', hle, hpos, hpos'⟩
  obtain ⟨-, hcrlf, -⟩ := (strstr_eq_some_iff crlf_ne_nil).mp hfirst
  dsimp only
  cases hblank : strstr t (first + 2) blankLine with
  | none =>
      refine iff_of_true hnil fun _ first' tail h h' => ?_
      obtain rfl : first = first' := Option.some.inj h
      rw [hblank] at h'
      exact nomatch h'
  | some tail =>
      dsimp only
      rw [linesUpTo_lineOf_iff HeaderLine.Inside hcrlf]
      constructor
      · intro h _ first' tail' h₁ h₂ start stop hline
        obtain rfl : first = first' := Option.some.inj h₁
        obtain rfl : tail = tail' := Option.some.inj (hblank.symm.trans h₂)
        exact exists_inside_iff.mp (h start stop hline)
      · intro h start stop hline
        exact exists_inside_iff.mpr (h htwo first tail rfl hblank start stop hline)

end Awoke.Http
