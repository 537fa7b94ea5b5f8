/-
Where a head ends, and what it takes to read its lines.

The lines of a message have neither a line end nor a NUL in them, so its first blank line
is the one behind its head, whatever the body is and whatever has come of it.

The code looks for a colon and a space from the start of each line on, and goes on from where
they are, in the line or behind it.  `LinesSplit` says that there is such a place for each.
-/
import Awoke.Http.Message

namespace Awoke.Http

open CString

/-- How long the head is, where all of it is there. -/
def headLength (data : List UInt8) : Option Nat :=
  (strstr (text data) 0 blankLine).map (· + 4)

/-- Two spaces in the text, one behind the other. -/
def TwoSpaces (t : List UInt8) : Prop :=
  ∃ i j, i < j ∧ OccursAt t (ascii " ") i ∧ OccursAt t (ascii " ") j

/-- From every line of the head on a colon and a space are somewhere. -/
def LinesSplit (t : List UInt8) : Prop :=
  ∀ first tail, strstr t 0 crlf = some first → strstr t (first + 2) blankLine = some tail →
    ∀ stop, OccursAt t crlf stop → stop < tail → ∃ j, stop + 2 ≤ j ∧ OccursAt t (ascii ": ") j

theorem crlf_ne_nil : crlf ≠ [] := by decide

theorem blankLine_ne_nil : blankLine ≠ [] := by decide

/-! ### Lines of a head -/

variable {t : List UInt8}

theorem crlf_apart {i j : Nat} (hi : OccursAt t crlf i) (hj : OccursAt t crlf j) (h : i < j) :
    i + 2 ≤ j := by
  rcases Nat.lt_or_ge (i + 1) j with hlt | hge
  · omega
  · have hpair : OccursAt t ([13] ++ [10]) i := hi
    have hten := (occursAt_append_needle.mp hpair).2.head_mem
    have hthirteen : t[j]? = some 13 := OccursAt.head_mem hj
    rw [show j = i + [(13 : UInt8)].length from Nat.le_antisymm hge h, hten] at hthirteen
    exact absurd hthirteen (by decide)

theorem parseLines_done {tail head : Nat} {headers : Headers}
    (h : ∀ stop, strstr t head crlf = some stop → tail < stop) :
    Response.parseLines t tail head headers = some headers := by
  rw [Response.parseLines]
  split
  · rfl
  · rename_i stop hstop
    exact if_neg (Nat.not_le_of_lt (h stop hstop))

/-- One line: the colon is searched for from its start on. -/
theorem parseLines_line {tail head stop : Nat} {headers : Headers}
    (hstop : strstr t head crlf = some stop) (hin : stop ≤ tail) :
    Response.parseLines t tail head headers =
      (strstr t head (ascii ": ")).bind fun pos =>
        Response.parseLines t tail (stop + 2)
          (headerSet headers (parseKey ((t.drop head).take (pos - head)))
            (.between (pos + 2) stop)) := by
  rw [Response.parseLines]
  split
  · rename_i hnone
    rw [hstop] at hnone
    cases hnone
  · rename_i stop' hstop'
    obtain rfl : stop = stop' := Option.some.inj (hstop.symm.trans hstop')
    refine (if_pos hin).trans ?_
    cases strstr t head (ascii ": ") with
    | none => rfl
    | some pos => rfl

theorem parseLines_isSome_past {tail head : Nat} (h : tail < head) (headers : Headers) :
    (Response.parseLines t tail head headers).isSome := by
  rw [parseLines_done fun stop hstop =>
    Nat.lt_of_lt_of_le h ((strstr_eq_some_iff crlf_ne_nil).mp hstop).1]
  rfl

/-- The lines can be read exactly if there is a colon and a space from each on. -/
theorem parseLines_isSome_iff {tail : Nat} (htail : OccursAt t crlf tail) (head : Nat)
    (headers : Headers) (hle : head ≤ tail) :
    (Response.parseLines t tail head headers).isSome ↔
      (∃ j, head ≤ j ∧ OccursAt t (ascii ": ") j) ∧
        ∀ stop, OccursAt t crlf stop → head ≤ stop → stop < tail →
          ∃ j, stop + 2 ≤ j ∧ OccursAt t (ascii ": ") j := by
  induction head, headers using Response.parseLines.induct t tail with
  | case1 head headers hnone =>
      exact absurd htail ((strstr_eq_none_iff crlf_ne_nil).mp hnone tail hle)
  | case2 head headers stop hstop hin hcolon =>
      have hno := (strstr_eq_none_iff (by decide)).mp hcolon
      rw [parseLines_line hstop hin, hcolon, Option.bind_none]
      refine iff_of_false Bool.false_ne_true ?_
      rintro ⟨⟨j, hj, hocc⟩, _⟩
      exact hno j hj hocc
  | case3 head headers stop hstop hin pos hcolon ih =>
      obtain ⟨hhead, hocc, hfirst⟩ := (strstr_eq_some_iff crlf_ne_nil).mp hstop
      obtain ⟨hpos, hat, _⟩ := (strstr_eq_some_iff (by decide)).mp hcolon
      rw [parseLines_line hstop hin, hcolon, Option.bind_some]
      rcases Nat.lt_or_ge stop tail with hlt | hge
      · rw [ih (crlf_apart hocc htail hlt)]
        constructor
        · rintro ⟨hnext, hrest⟩
          refine ⟨⟨pos, hpos, hat⟩, fun stop' hocc' hhead' hlt' => ?_⟩
          -- the end of this line, or of one further down
          rcases Nat.lt_or_ge stop stop' with hafter | hbefore
          · exact hrest stop' hocc' (crlf_apart hocc hocc' hafter) hlt'
          · rwa [Nat.le_antisymm hbefore (hfirst stop' hhead' hocc')]
        · rintro ⟨_, hall⟩
          exact ⟨hall stop hocc hhead hlt,
            fun stop' hocc' hhead' hlt' => hall stop' hocc' (by omega) hlt'⟩
      · refine iff_of_true (parseLines_isSome_past (by omega) _)
          ⟨⟨pos, hpos, hat⟩, fun stop' hocc' hhead' hlt' => ?_⟩
        have := hfirst stop' hhead' hocc'
        omega
  | case4 head headers stop hstop hout =>
      have := ((strstr_eq_some_iff crlf_ne_nil).mp hstop).2.2 tail hle htail
      omega

/-! ### The head as a whole -/

theorem occursAt_crlf_of_blankLine {i : Nat} (h : OccursAt t blankLine i) : OccursAt t crlf i :=
  (occursAt_append_needle.mp (show OccursAt t (crlf ++ crlf) i from h)).1

/-- The head is taken apart without a failed search exactly if its lines can be read, or if
it is given up before them. -/
theorem parseHeader_isSome_iff (rsp : Response) :
    rsp.parseHeader.isSome ↔
      (TwoSpaces rsp.buffchunk.text → LinesSplit rsp.buffchunk.text) := by
  unfold Response.parseHeader
  generalize rsp.buffchunk.text = t
  dsimp only
  cases hfirst : strstr t 0 crlf with
  | none =>
      refine iff_of_true rfl fun _ first tail h => ?_
      rw [hfirst] at h
      exact nomatch h
  | some first =>
  cases hspace : strstr t 0 (ascii " ") with
  | none =>
      refine iff_of_true rfl fun ⟨i, _, _, hi, _⟩ => ?_
      exact absurd hi ((strstr_eq_none_iff (by decide)).mp hspace i (Nat.zero_le i))
  | some pos =>
  obtain ⟨_, hpos, hleast⟩ := (strstr_eq_some_iff (by decide)).mp hspace
  cases hsecond : strstr t (pos + 1) (ascii " ") with
  | none =>
      simp only [hsecond]
      refine iff_of_true rfl fun ⟨i, j, hij, hi, hj⟩ => ?_
      have := hleast i (Nat.zero_le i) hi
      exact absurd hj ((strstr_eq_none_iff (by decide)).mp hsecond j (by omega))
  | some pos' =>
  obtain ⟨hle, hpos', _⟩ := (strstr_eq_some_iff (by decide)).mp hsecond
  have htwo : TwoSpaces t := ⟨pos, pos', hle, hpos, hpos'⟩
  cases hblank : strstr t (first + 2) blankLine with
  | none =>
      simp only [hsecond, hblank]
      refine iff_of_true rfl fun _ first' tail h h' => ?_
      obtain rfl : first = first' := Option.some.inj (hfirst.symm.trans h)
      rw [hblank] at h'
      exact nomatch h'
  | some tail =>
      obtain ⟨hin, htail, _⟩ := (strstr_eq_some_iff blankLine_ne_nil).mp hblank
      obtain ⟨_, hcrlf, hfirstle⟩ := (strstr_eq_some_iff crlf_ne_nil).mp hfirst
      simp only [hsecond, hblank, Option.isSome_map]
      rw [parseLines_isSome_iff (occursAt_crlf_of_blankLine htail) _ _ hin]
      constructor
      · rintro ⟨hhead, hrest⟩ _ first' tail' h h' stop hstop hlt
        obtain rfl : first = first' := Option.some.inj (hfirst.symm.trans h)
        obtain rfl : tail = tail' := Option.some.inj (hblank.symm.trans h')
        rcases Nat.eq_or_lt_of_le (hfirstle stop (Nat.zero_le stop) hstop) with rfl | hafter
        · exact hhead
        · exact hrest stop hstop (crlf_apart hcrlf hstop hafter) hlt
      · intro h
        have hsplit := h htwo first tail hfirst hblank
        exact ⟨hsplit first hcrlf (by omega), fun stop hstop _ hlt => hsplit stop hstop hlt⟩

/-- Taking it apart leaves the buffer, and the body is as it was or behind the blank line
that was found. -/
theorem parseHeader_body {rsp : Response} {parsed : ErrType × Response}
    (h : rsp.parseHeader = some parsed) :
    parsed.2.buffchunk = rsp.buffchunk ∧
      (parsed.2.body = rsp.body ∨
        ∃ first tail, strstr rsp.buffchunk.text 0 crlf = some first ∧
          strstr rsp.buffchunk.text (first + 2) blankLine = some tail ∧
          parsed.2.body = some { p := tail + 4, len := rsp.contentLength }) := by
  unfold Response.parseHeader at h
  simp only at h
  split at h
  · rw [← Option.some.inj h]
    exact ⟨rfl, Or.inl rfl⟩
  rename_i first hfirst
  split at h
  · rw [← Option.some.inj h]
    exact ⟨rfl, Or.inl rfl⟩
  split at h
  · rw [← Option.some.inj h]
    exact ⟨rfl, Or.inl rfl⟩
  split at h
  · rw [← Option.some.inj h]
    exact ⟨rfl, Or.inl rfl⟩
  rename_i tail hblank
  obtain ⟨headers, _, rfl⟩ := Option.map_eq_some_iff.mp h
  exact ⟨rfl, Or.inr ⟨first, tail, hfirst, hblank, rfl⟩⟩

/-! ### The head of a message -/

/-- Neither a line end nor a NUL. -/
def Plain (bs : List UInt8) : Prop := ∀ b ∈ bs, b ≠ 13 ∧ b ≠ 0

instance (bs : List UInt8) : Decidable (Plain bs) :=
  List.decidableBAll (fun b => b ≠ 13 ∧ b ≠ 0) bs

theorem plain_of {p : UInt8 → Bool} {bs : List UInt8} (h : ∀ b ∈ bs, p b) (hcr : p 13 = false)
    (hnul : p 0 = false) : Plain bs := by
  refine fun b hb => ⟨?_, ?_⟩
  · rintro rfl
    exact absurd (h 13 hb) (by rw [hcr]; decide)
  · rintro rfl
    exact absurd (h 0 hb) (by rw [hnul]; decide)

theorem plain_append {bs cs : List UInt8} (hb : Plain bs) (hc : Plain cs) : Plain (bs ++ cs) :=
  fun b h => (List.mem_append.mp h).elim (hb b) (hc b)

theorem StatusLine.line_plain (s : StatusLine) : Plain s.line := by
  have hmajor : Plain [s.major] := plain_of (by simpa using s.major_ok) (by decide) (by decide)
  have hminor : Plain [s.minor] := plain_of (by simpa using s.minor_ok) (by decide) (by decide)
  have hcode : Plain s.code := plain_of s.code_ok (by decide) (by decide)
  have hreason : Plain s.reason := plain_of s.reason_ok (by decide) (by decide)
  have hconst : Plain (ascii "HTTP/") ∧ Plain (ascii ".") ∧ Plain (ascii " ") := by decide
  obtain ⟨hhttp, hdot, hspace⟩ := hconst
  exact plain_append (plain_append (plain_append (plain_append (plain_append (plain_append
    (plain_append hhttp hmajor) hdot) hminor) hspace) hcode) hspace) hreason

theorem Field.line_plain (f : Field) : Plain f.line := by
  have hname : Plain f.name := plain_of f.name_ok (by decide) (by decide)
  have hbefore : Plain f.before := plain_of f.before_ok (by decide) (by decide)
  have hvalue : Plain f.value := plain_of f.value_ok (by decide) (by decide)
  have hafter : Plain f.after := plain_of f.after_ok (by decide) (by decide)
  have hcolon : Plain (ascii ":") := by decide
  exact plain_append (plain_append (plain_append (plain_append hname hcolon) hbefore) hvalue)
    hafter

/-- Before a line without one is over there is no line end. -/
theorem le_of_crlf {l rest : List UInt8} (hl : Plain l) {i : Nat}
    (h : OccursAt (l ++ rest) crlf i) : l.length ≤ i := by
  rcases Nat.lt_or_ge i l.length with hlt | hge
  · have hcr : (l ++ rest)[i]? = some 13 := OccursAt.head_mem h
    rw [List.getElem?_append_left hlt] at hcr
    exact absurd rfl (hl 13 (List.mem_of_getElem? hcr)).1
  · exact hge

/-- Behind a line there is a blank line where there is one behind what follows it, unless
that begins with a line end. -/
theorem blankLine_behind_line {l rest : List UInt8} (hl : Plain l) (hrest : ¬OccursAt rest crlf 0)
    {i : Nat} :
    OccursAt ((l ++ crlf) ++ rest) blankLine i ↔
      ∃ j, i = (l ++ crlf).length + j ∧ OccursAt rest blankLine j := by
  have hfront : (l ++ crlf).length = l.length + 2 := List.length_append
  constructor
  · intro h
    have hcrlf := occursAt_crlf_of_blankLine h
    have hend : OccursAt ((l ++ crlf) ++ rest) crlf (l.length + 0) := by
      rw [List.append_assoc]
      exact (occursAt_add_length l).mpr (List.prefix_append crlf rest)
    have hle : l.length ≤ i := le_of_crlf hl (by rwa [List.append_assoc] at hcrlf)
    rcases Nat.eq_or_lt_of_le hle with rfl | hlt
    · -- its second line end is the beginning of what follows
      have hsecond := (occursAt_append_needle.mp
        (show OccursAt _ (crlf ++ crlf) l.length from h)).2
      exact absurd ((occursAt_add_length (l ++ crlf)).mp
        (show OccursAt _ crlf ((l ++ crlf).length + 0) by rw [hfront]; exact hsecond)) hrest
    · have hpast := crlf_apart hend hcrlf hlt
      refine ⟨i - (l.length + 2), by omega, (occursAt_add_length (l ++ crlf)).mp ?_⟩
      rw [hfront, Nat.add_sub_cancel' hpast]
      exact h
  · rintro ⟨j, rfl, h⟩
    exact (occursAt_add_length (l ++ crlf)).mpr h

/-- The first blank line behind some lines is the one at their end. -/
theorem blankLine_behind_lines (rest : List UInt8) :
    ∀ (l : List UInt8) (ls : List (List UInt8)), Plain l →
      (∀ k ∈ ls, k ≠ [] ∧ Plain k) → ∀ i,
      (OccursAt ((l :: ls).flatMap (· ++ crlf) ++ (crlf ++ rest)) blankLine i →
        ((l :: ls).flatMap (· ++ crlf)).length ≤ i + 2) ∧
      (i + 2 = ((l :: ls).flatMap (· ++ crlf)).length →
        OccursAt ((l :: ls).flatMap (· ++ crlf) ++ (crlf ++ rest)) blankLine i) := by
  intro l ls
  induction ls generalizing l with
  | nil =>
      intro hl _ i
      have hlen : ([l].flatMap (· ++ crlf)).length = l.length + 2 := by
        simp [crlf, ascii]
      have htext : [l].flatMap (· ++ crlf) ++ (crlf ++ rest) = l ++ (blankLine ++ rest) := by
        simp [show blankLine = crlf ++ crlf from rfl]
      rw [hlen, htext]
      refine ⟨fun h => ?_, fun h => ?_⟩
      · have := le_of_crlf hl (occursAt_crlf_of_blankLine h)
        omega
      · obtain rfl : i = l.length + 0 := by omega
        exact (occursAt_add_length l).mpr (List.prefix_append blankLine rest)
  | cons k ls ih =>
      intro hl hls i
      obtain ⟨hkne, hk⟩ := hls k List.mem_cons_self
      have hbehind := ih k hk (fun k' h => hls k' (List.mem_cons_of_mem _ h))
      have hpos : 0 < k.length := List.length_pos_iff.mpr hkne
      have hnext : ¬OccursAt ((k :: ls).flatMap (· ++ crlf) ++ (crlf ++ rest)) crlf 0 := by
        intro h
        rw [List.flatMap_cons, List.append_assoc, List.append_assoc] at h
        exact absurd (le_of_crlf hk h) (Nat.not_le_of_lt hpos)
      have htwo : 2 ≤ ((k :: ls).flatMap (· ++ crlf)).length := by
        rw [List.flatMap_cons, List.length_append, List.length_append]
        exact Nat.le_trans (Nat.le_add_left 2 _) (Nat.le_add_right _ _)
      have hlen : ((l :: k :: ls).flatMap (· ++ crlf)).length =
          (l ++ crlf).length + ((k :: ls).flatMap (· ++ crlf)).length := by
        rw [List.flatMap_cons, List.length_append]
      have htext : (l :: k :: ls).flatMap (· ++ crlf) ++ (crlf ++ rest) =
          (l ++ crlf) ++ ((k :: ls).flatMap (· ++ crlf) ++ (crlf ++ rest)) := by
        rw [List.flatMap_cons, List.append_assoc]
      rw [hlen, htext, blankLine_behind_line hl hnext]
      refine ⟨?_, fun h => ?_⟩
      · rintro ⟨j, rfl, hj⟩
        have := (hbehind j).1 hj
        omega
      · exact ⟨i - (l ++ crlf).length, by omega, (hbehind _).2 (by omega)⟩

/-! ### Where it ends -/

theorem headLength_append {data : List UInt8} {h : Nat} (hdata : headLength data = some h)
    (more : List UInt8) : headLength (data ++ more) = some h := by
  obtain ⟨i, hi, rfl⟩ := Option.map_eq_some_iff.mp hdata
  rw [headLength, strstr_text_append blankLine_ne_nil hi more]
  rfl

theorem headLength_bounds {data : List UInt8} {h : Nat} (hdata : headLength data = some h) :
    4 ≤ h ∧ h ≤ data.length := by
  obtain ⟨i, hi, rfl⟩ := Option.map_eq_some_iff.mp hdata
  have hle := ((strstr_eq_some_iff blankLine_ne_nil).mp hi).2.1.le blankLine_ne_nil
  have htext := text_length_le data
  have hfour : blankLine.length = 4 := rfl
  omega

namespace Message

variable (m : Message) (rest : List UInt8)

theorem lines_plain : ∀ l ∈ m.fields.map Field.line, l ≠ [] ∧ Plain l := by
  intro l hl
  obtain ⟨f, _, rfl⟩ := List.mem_map.mp hl
  refine ⟨fun h => ?_, f.line_plain⟩
  rw [Field.line, List.append_eq_nil_iff, List.append_eq_nil_iff, List.append_eq_nil_iff,
    List.append_eq_nil_iff] at h
  exact f.name_ne h.1.1.1.1

theorem text_head : text (m.head ++ rest) = m.head ++ text rest := by
  refine text_append (fun hnul => ?_) rest
  rcases List.mem_append.mp hnul with hline | hend
  · obtain ⟨l, hl, hin⟩ := List.mem_flatMap.mp hline
    have hplain : Plain l := by
      rcases List.mem_cons.mp hl with rfl | hfield
      · exact m.status.line_plain
      · exact (m.lines_plain l hfield).2
    rcases List.mem_append.mp hin with h | h
    · exact (hplain 0 h).2 rfl
    · exact absurd h (by decide)
  · exact absurd hend (by decide)

theorem head_length : m.head.length = (m.lines.flatMap (· ++ crlf)).length + 2 := by
  rw [head, List.length_append]
  rfl

theorem blankLine_head {i : Nat} (h : OccursAt (text (m.head ++ rest)) blankLine i) :
    m.head.length ≤ i + 4 := by
  rw [text_head, head, List.append_assoc] at h
  have := (blankLine_behind_lines _ m.status.line _ m.status.line_plain m.lines_plain i).1 h
  rw [head_length]
  exact Nat.add_le_add_right this 2

theorem blankLine_head_end {i : Nat} (h : i + 4 = m.head.length) :
    OccursAt (text (m.head ++ rest)) blankLine i := by
  rw [text_head, head, List.append_assoc]
  refine (blankLine_behind_lines _ m.status.line _ m.status.line_plain m.lines_plain i).2 ?_
  rw [head_length] at h
  show i + 2 = (m.lines.flatMap (· ++ crlf)).length
  omega

theorem status_lt_head : m.status.line.length + 6 ≤ m.head.length := by
  obtain ⟨f, hf, _⟩ := m.counted
  obtain ⟨g, gs, hfields⟩ := List.exists_cons_of_ne_nil (List.ne_nil_of_mem hf)
  rw [head_length, lines, hfields, List.map_cons, List.flatMap_cons, List.flatMap_cons,
    List.length_append, List.length_append, List.length_append, List.length_append,
    show crlf.length = 2 from rfl]
  omega

theorem headLength_head : headLength (m.head ++ rest) = some m.head.length := by
  have hlong := m.status_lt_head
  have hfound : strstr (text (m.head ++ rest)) 0 blankLine = some (m.head.length - 4) := by
    refine (strstr_eq_some_iff blankLine_ne_nil).mpr ⟨Nat.zero_le _, ?_, fun j _ hj => ?_⟩
    · exact m.blankLine_head_end rest (by omega)
    · have := m.blankLine_head rest hj
      omega
  rw [headLength, hfound, Option.map_some, Nat.sub_add_cancel (by omega)]

theorem tail_head {first tail : Nat} (hfirst : strstr (text (m.head ++ rest)) 0 crlf = some first)
    (htail : strstr (text (m.head ++ rest)) (first + 2) blankLine = some tail) :
    tail + 4 = m.head.length := by
  have hlong := m.status_lt_head
  have hcrlf : OccursAt (text (m.head ++ rest)) crlf (m.status.line.length + 0) := by
    rw [text_head, head, lines, List.flatMap_cons, List.append_assoc, List.append_assoc,
      List.append_assoc]
    exact (occursAt_add_length m.status.line).mpr (List.prefix_append crlf _)
  have hle := ((strstr_eq_some_iff crlf_ne_nil).mp hfirst).2.2 _ (Nat.zero_le _) hcrlf
  obtain ⟨_, hat, hleast⟩ := (strstr_eq_some_iff blankLine_ne_nil).mp htail
  have hge := m.blankLine_head rest hat
  have := hleast (m.head.length - 4) (by omega) (m.blankLine_head_end rest (by omega))
  omega

theorem headLength_part {data : List UInt8} {h : Nat} (hpart : data <+: m.bytes)
    (hdata : headLength data = some h) : h = m.head.length := by
  obtain ⟨more, hmore⟩ := hpart
  have hwhole := headLength_append hdata more
  rw [hmore, bytes, headLength_head] at hwhole
  exact (Option.some.inj hwhole).symm

end Message

end Awoke.Http
